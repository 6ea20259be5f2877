import Hwwctl.Bundler.Proofs.CleanupProofs

/-!
# The manifest

What a failing `write_manifest` does, and the bundles that the runs on fixed inputs are about.
-/

namespace Hwwctl.Bundler

open FileTree Io Emulators

section Manifest

variable (env : DownloadEnv) (storage : BundleStorage) (bundle : RemoteBundle)

def tmpManifest : FilePath :=
  withExtension (storage.manifestPath bundle.walletType) (osString "json.tmp")

variable {env storage bundle} {tree : FsTree} {disk disk' : Disk} {root loc : FsLoc}
  {bytes : List UInt8}

end Manifest

/-! ## Installations to try -/

/-- A storage with the trezor bundle installed: its manifest and one file. -/
def trezorStorage : BundleStorage where
  baseDir := components (osString "/bundles")

/-- Nothing is installed yet. -/
def nothingInstalled : Session :=
  ⟨⟨(Tree.empty.put [osString "bundles"] .dir).getD .empty, []⟩, []⟩

def trezorInstalled : FsTree :=
  ((do
    let tree ← Tree.empty.put [osString "bundles"] .dir
    let tree ← tree.put trezorLoc .dir
    let tree ← tree.put (osString "manifest.json" :: trezorLoc) (.leaf (.file archiveData))
    tree.put (osString "fw" :: trezorLoc) (.leaf (.file archiveData)) :
      Option FsTree)).getD .empty

def trezorBundle : RemoteBundle where
  walletType := .trezor
  version := "v2"
  platform := "linux-x86_64"
  downloadUrl := ""
  sizeBytes := 2
  assetName := "a.tar.gz"

/-- Every manifest file is read as this one. -/
def trezorManifest : BundleManifest where
  walletType := .trezor
  version := "v1"
  platform := "linux-x86_64"
  installedAt := "2026-01-01T00:00:00Z"
  sizeBytes := 0
  emulatorBinary := "fw"
  firmwareDir := none
  buildInfo := none

/-- The system refuses nothing; the server answers with `response`. -/
def answering (response : Response) : DownloadEnv where
  grants := fun _ => true
  transfer :=
    { response := some response
      creates := true
      flushes := true
      renames := true }
  extract := oneFile "top/fw"
  removes := true
  order := id
  timestamp := "2026-02-01T00:00:00Z"
  json :=
    { toStringPretty := fun _ => some []
      fromSlice := fun _ => some trezorManifest }
  manifest :=
    { grants := fun _ => true
      creates := true
      writes := true
      renames := true }

def notFound : Response where
  success := false
  status := "404 Not Found"
  contentLength := none
  stream := []

/-- The connection is lost behind the first chunk. -/
def cutOff : Response where
  success := true
  status := "200 OK"
  contentLength := some 2
  stream := [some ⟨[31], true⟩, none]

def attempt (response : Response) : Except String Unit × Session :=
  download (answering response) trezorStorage trezorBundle ⟨⟨trezorInstalled, []⟩, []⟩

end Hwwctl.Bundler
