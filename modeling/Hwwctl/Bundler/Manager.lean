import Hwwctl.Bundler.Download

/-!
# The bundle manager

`remove` and `firmware_dir` of `BundleManager`, and the manager as it is used: one operation after
another on the same disk. `remove_dir_all` is modelled down to the removals that it asks the system
for, each of which may be refused.
-/

namespace Hwwctl.Bundler

open FileTree Io Emulators

namespace Io

/-- `unlink` of what stands at `loc`. -/
def unlinkAt (granted : Bool) (loc : FsLoc) : Io Unit := fun disk =>
  change [loc] (if granted then disk.tree.drop loc else none) disk

/-- `rmdir` of what stands at `loc`. -/
def rmdirAt (granted : Bool) (loc : FsLoc) : Io Unit := fun disk =>
  change [loc] (if granted then disk.tree.dropDir loc else none) disk

/-- How the system answers while a directory is removed. -/
structure RemoveEnv where
  grants : FsLoc → Bool
  order : List OsString → List OsString

/-- `remove_dir_all_recursive`: the directory at `loc`, behind everything in it. -/
def removeTree (env : RemoveEnv) : Nat → FsLoc → Io Unit
  | 0, _ => .fail ()
  | fuel + 1, loc => fun disk =>
    (do
      (env.order (disk.tree.names loc)).forM fun name => fun disk =>
        let child := name :: loc
        if disk.tree.get child = some .dir then removeTree env fuel child disk
        else unlinkAt (env.grants child) child disk
      rmdirAt (env.grants loc) loc : Io Unit) disk

/-- Nothing stands deeper. -/
def treeDepth (tree : FsTree) : Nat := (tree.nodes.keys.map List.length).foldr max 0 + 1

/-- `std::fs::remove_dir_all`; a link is removed itself. -/
def removeDirAll (env : RemoveEnv) (path : FilePath) : Io Unit := fun disk =>
  match place disk.tree path with
  | none => (.error (), disk)
  | some loc =>
    match disk.tree.get loc with
    | some (.leaf (.symlink _)) => unlinkAt (env.grants loc) loc disk
    | some .dir => removeTree env (treeDepth disk.tree) loc disk
    | _ => (.error (), disk)

end Io

/-- `remove_bundle` of `BundleStorage`, `remove` of `BundleManager`. -/
def BundleStorage.removeBundle (storage : BundleStorage) (env : RemoveEnv)
    (walletType : WalletType) : Act String Disk Unit := fun disk =>
  let dir := storage.bundleDir walletType
  if (stat disk.tree dir).isSome then
    (removeDirAll env dir).context s!"failed to remove bundle dir: {display dir}" disk
  else (.ok (), disk)

/-- `firmware_dir` of `BundleManager`. -/
def firmwareDir (json : Json) (storage : BundleStorage) (tree : FsTree)
    (walletType : WalletType) : Option FilePath := do
  let manifest ← storage.readManifest json tree walletType
  let rel ← manifest.firmwareDir
  some (join (storage.bundleDir walletType) (components (osString rel)))

/-! ## Operations in sequence -/

inductive Operation where
  | download (env : DownloadEnv) (bundle : RemoteBundle)
  | remove (env : RemoveEnv) (walletType : WalletType)

def Operation.walletType : Operation → WalletType
  | .download _ bundle => bundle.walletType
  | .remove _ walletType => walletType

def perform (storage : BundleStorage) : Operation → Downloading Unit
  | .download env bundle => download env storage bundle
  | .remove env walletType => onDisk (storage.removeBundle env walletType)

end Hwwctl.Bundler
