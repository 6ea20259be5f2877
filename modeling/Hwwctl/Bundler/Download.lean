import Hwwctl.Bundler.Extract
import Hwwctl.Bundler.Storage

/-!
# Downloading and installing a bundle

`GithubDownloader::download_asset` and `BundleManager::download`. What the server sends and what
the system refuses are given; the statuses sent on the progress channel are part of the state.
-/

namespace Hwwctl.Bundler

open FileTree Io Emulators

inductive BundleStatus where
  | notInstalled
  | downloading (progressPct : UInt8)
  | installed (version : String) (sizeBytes : UInt64)
  | failed (error : String)
deriving DecidableEq, Repr

structure RemoteBundle where
  walletType : WalletType
  version : String
  platform : String
  downloadUrl : String
  sizeBytes : UInt64
  assetName : String

structure Session where
  disk : Disk
  /-- What has been sent on `progress_tx`, in order. -/
  sent : List BundleStatus

abbrev Downloading := Act String Session

def onDisk {ε α : Type} (x : Act ε Disk α) : Act ε Session α :=
  Act.within Session.disk (fun disk s => { s with disk := disk }) x

def send (status : BundleStatus) : Downloading Unit := fun s =>
  (.ok (), { s with sent := s.sent ++ [status] })

/-! ## The transfer -/

structure Chunk where
  bytes : List UInt8
  /-- Whether it can be written to disk. -/
  saved : Bool

/-- `none` in the stream is an error of the transfer. -/
structure Response where
  success : Bool
  status : String
  contentLength : Option UInt64
  stream : List (Option Chunk)

structure TransferEnv where
  /-- `none` when the request cannot be sent. -/
  response : Option Response
  creates : Bool
  flushes : Bool
  renames : Bool

def progressPct (totalBytes : Option UInt64) (downloaded : UInt64) : UInt8 :=
  match totalBytes with
  | some total => if 0 < total then (min (downloaded * 100 / total) 100).toUInt8 else 0
  | none => 0

/-- The loop over the chunks. -/
def receive (totalBytes : Option UInt64) (file : FsLoc) :
    UInt64 → List (Option Chunk) → Downloading Unit
  | _, [] => pure ()
  | _, none :: _ => .fail "error reading download stream"
  | downloaded, some chunk :: stream => do
    (onDisk (writeAll chunk.saved file chunk.bytes)).context "failed to write chunk to disk"
    let downloaded := downloaded + .ofNat chunk.bytes.length
    send (.downloading (progressPct totalBytes downloaded))
    receive totalBytes file downloaded stream

def tmpPath (dest : FilePath) : FilePath := withExtension dest (osString "tar.gz.tmp")

/-- From the creation of the temporary file on. -/
def saveResponse (env : TransferEnv) (response : Response) (dest : FilePath) :
    Downloading Unit := do
  let tmp := tmpPath dest
  let file ← (onDisk (createFile env.creates tmp)).context
    s!"failed to create tmp file: {display tmp}"
  receive response.contentLength file 0 response.stream
  if env.flushes then
    (onDisk (rename env.renames tmp dest)).context
      s!"failed to rename {display tmp} -> {display dest}"
  else .fail "failed to flush download file"

def downloadAsset (env : TransferEnv) (dest : FilePath) : Downloading Unit :=
  match env.response with
  | none => .fail "failed to initiate download"
  | some response =>
    if response.success then saveResponse env response dest
    else .fail s!"download request returned HTTP {response.status}"

/-! ## The installation -/

/-- `removes` is about the archive, which is removed at most once. -/
structure DownloadEnv where
  grants : FilePath → Bool
  transfer : TransferEnv
  extract : ExtractEnv
  removes : Bool
  order : List OsString → List OsString
  /-- `current_timestamp()`. -/
  timestamp : String
  json : Json
  manifest : BundleStorage.WriteEnv

/-- `status` of `BundleManager`. -/
def bundleStatus (json : Json) (storage : BundleStorage) (tree : FsTree) (walletType : WalletType) :
    BundleStatus :=
  match storage.readManifest json tree walletType with
  | some m => .installed m.version m.sizeBytes
  | none => .notInstalled

/-- `emulator_binary_path` of `BundleManager`. -/
def emulatorBinaryPath (json : Json) (storage : BundleStorage) (tree : FsTree)
    (walletType : WalletType) : Option FilePath :=
  (storage.readManifest json tree walletType).map fun m =>
    join (storage.bundleDir walletType) (components (osString m.emulatorBinary))

section Download

variable (env : DownloadEnv) (storage : BundleStorage) (bundle : RemoteBundle)

def archivePathOf : FilePath :=
  join (storage.bundleDir bundle.walletType) (components (osString bundle.assetName))

def newManifest (tree : FsTree) : BundleManifest :=
  let bundleDir := storage.bundleDir bundle.walletType
  { walletType := bundle.walletType
    version := bundle.version
    platform := bundle.platform
    installedAt := env.timestamp
    sizeBytes := dirSize env.order tree bundleDir
    emulatorBinary := findEmulatorBinary env.order tree bundleDir bundle.walletType
    firmwareDir := detectFirmwareDir tree bundleDir
    buildInfo := none }

def removeArchive : Downloading Unit :=
  Act.ignore (onDisk (removeFile env.removes (archivePathOf storage bundle)))

/-- Report the error of a step, clean the archive up and give up. -/
def giveUp (context msg : String) : Downloading Unit := do
  send (.failed msg)
  removeArchive env storage bundle
  .fail context

/-- Steps 3 to 5: describe what has been extracted. -/
def registerBundle : Downloading Unit := fun s =>
  let manifest := newManifest env storage bundle s.disk.tree
  (do
    (onDisk (storage.writeManifest env.json env.manifest bundle.walletType manifest)).handle
      fun msg => do
        send (.failed msg)
        .fail "failed to write bundle manifest"
    send (.installed bundle.version manifest.sizeBytes) : Downloading Unit) s

def download : Downloading Unit := do
  let bundleDir := storage.bundleDir bundle.walletType
  (onDisk (createDirAll env.grants bundleDir)).context
    s!"failed to create bundle dir: {display bundleDir}"
  let archivePath := archivePathOf storage bundle
  (downloadAsset env.transfer archivePath).handle
    (giveUp env storage bundle "bundle download failed")
  send (.downloading 100)
  (onDisk (extractTarball env.extract archivePath bundleDir)).handle
    (giveUp env storage bundle "bundle extraction failed")
  removeArchive env storage bundle
  registerBundle env storage bundle

end Download

end Hwwctl.Bundler
