import Hwwctl.Bundler.Disk
import Hwwctl.Emulators.Generic
import Mathlib.Algebra.GroupWithZero.Nat

/-!
# Installed bundles

`manifest.rs` and `storage.rs`, and what `lib.rs` finds out about an extracted bundle. `serde_json`
is not this repository's code; what it makes of a manifest and of the bytes of one is `Json`.
-/

namespace Hwwctl.Bundler

open FileTree Io Emulators

structure BundleManifest where
  walletType : WalletType
  version : String
  platform : String
  installedAt : String
  sizeBytes : UInt64
  emulatorBinary : String
  firmwareDir : Option String
  buildInfo : Option String
deriving DecidableEq, Repr

structure Json where
  toStringPretty : BundleManifest → Option (List UInt8)
  fromSlice : List UInt8 → Option BundleManifest

def walletDirName : WalletType → String
  | .trezor => "trezor"
  | .bitBox02 => "bitbox02"
  | .coldcard => "coldcard"
  | .specter => "specter"
  | .ledger => "ledger"
  | .jade => "jade"

structure BundleStorage where
  baseDir : FilePath

namespace BundleStorage

variable (storage : BundleStorage)

def bundleDir (walletType : WalletType) : FilePath :=
  storage.baseDir ++ [.normal (osString (walletDirName walletType))]

def manifestPath (walletType : WalletType) : FilePath :=
  storage.bundleDir walletType ++ [.normal (osString "manifest.json")]

def readManifest (json : Json) (tree : FsTree) (walletType : WalletType) : Option BundleManifest :=
  (readFile tree (storage.manifestPath walletType)).bind fun data => json.fromSlice data.bytes

/-- How the system answers while a manifest is written. -/
structure WriteEnv where
  grants : FilePath → Bool
  creates : Bool
  writes : Bool
  renames : Bool

def writeManifest (json : Json) (env : WriteEnv) (walletType : WalletType)
    (manifest : BundleManifest) : Act String Disk Unit := do
  let dir := storage.bundleDir walletType
  (createDirAll env.grants dir).context s!"failed to create bundle dir: {display dir}"
  let path := storage.manifestPath walletType
  match json.toStringPretty manifest with
  | none => .fail "failed to serialize manifest"
  | some bytes =>
    let tmp := withExtension path (osString "json.tmp")
    (do
      let file ← createFile env.creates tmp
      writeAll env.writes file bytes : Io Unit).context
        s!"failed to write tmp manifest: {display tmp}"
    (rename env.renames tmp path).context
      s!"failed to rename manifest into place: {display path}"

end BundleStorage

/-! ## Looking into a bundle directory -/

/-- `std::fs::read_dir`; `order` is the order in which the system lists names. -/
def readDir (order : List OsString → List OsString) (tree : FsTree) (dir : FilePath) :
    Option (List OsString) :=
  match locate tree dir with
  | some loc => if tree.get loc = some .dir then some (order (tree.names loc)) else none
  | none => none

def binaryNames : WalletType → List String
  | .trezor => ["trezor-emu-core", "trezord-go", "trezord"]
  | .bitBox02 => ["bitbox02-emu", "bitbox02-simulator"]
  | .coldcard => ["coldcard-emu", "coldcard"]
  | .specter => ["specter-emu", "specter"]
  | .ledger => ["ledger-emu", "nanos-secure-sdk", "ledger"]
  | .jade => ["jade-emu", "jade"]

/-- `p.is_file() && is_executable(&p)`. -/
def isExecutableFile (tree : FsTree) (path : FilePath) : Bool :=
  match readFile tree path with
  | some data => data.executable
  | none => false

def findEmulatorBinary (order : List OsString → List OsString) (tree : FsTree)
    (bundleDir : FilePath) (walletType : WalletType) : String :=
  let known := (binaryNames walletType).find? fun name =>
    (stat tree (bundleDir ++ [.normal (osString name)])).isSome
  let scanned := ((readDir order tree bundleDir).getD []).findSome? fun name =>
    if isExecutableFile tree (bundleDir ++ [.normal name]) then toStr name else none
  (known.or scanned).getD walletType.display.toLower

def detectFirmwareDir (tree : FsTree) (bundleDir : FilePath) : Option String :=
  ["data", "firmware", "flash"].find? fun name => isDir tree (bundleDir ++ [.normal (osString name)])

/-- The paths that `collect` pushes below `dir`. -/
def collect (order : List OsString → List OsString) (tree : FsTree) : Nat → FilePath → List FilePath
  | 0, _ => []
  | fuel + 1, dir =>
    ((readDir order tree dir).getD []).flatMap fun name =>
      let path := dir ++ [.normal name]
      if isDir tree path then collect order tree fuel path else [path]

/-- No path that the system resolves is longer: between two links it goes down the tree. -/
def collectDepth (tree : FsTree) : Nat := (maxLinks + 1) * (tree.nodes.keys.length + 1)

/-- The length of a regular file at `path`; a link is none. -/
def fileLen (tree : FsTree) (path : FilePath) : Nat :=
  match (place tree path).bind tree.get with
  | some (.leaf (.file data)) => data.bytes.length
  | _ => 0

def dirSize (order : List OsString → List OsString) (tree : FsTree) (dir : FilePath) : UInt64 :=
  .ofNat ((collect order tree (collectDepth tree) dir).map (fileLen tree)).sum

end Hwwctl.Bundler
