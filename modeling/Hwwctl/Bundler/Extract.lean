import Hwwctl.Bundler.Disk

/-!
# Extracting an archive

`extract_tarball`. What the gzip and tar decoders make of the archive's bytes, and what
`Entry::unpack` does with the path it is given, is not this repository's code; an entry brings along
how the system and the decoder answer while it is carried out. `unpack` writes at the path it is
given and nowhere else.
-/

namespace Hwwctl.Bundler

open FileTree Io

/-- What has become of the path given to `Entry::unpack`, and whether that counts as success. -/
inductive Unpacked where
  | untouched (ok : Bool)
  | wrote (node : FsNode) (ok : Bool)

structure Entry where
  path : Option OsString
  isDir : Bool
  /-- Which directories the system is ready to make for this entry. -/
  grants : FilePath → Bool
  /-- Depends on what stands at the path. -/
  unpack : Option FsNode → Unpacked

/-- `none` in the entries is a place where the archive cannot be read on. -/
structure ExtractEnv where
  grants : FilePath → Bool
  opens : Bool
  entries : List UInt8 → Option (List (Option Entry))

def Unpacked.result (ok : Bool) : Except Unit Unit := if ok then .ok () else .error ()

/-- `Entry::unpack`. -/
def unpack (answer : Option FsNode → Unpacked) (path : FilePath) : Io Unit := fun disk =>
  match place disk.tree path with
  | none =>
    match answer none with
    | .untouched ok => (Unpacked.result ok, disk)
    | .wrote _ _ => (.error (), disk)
  | some loc =>
    match answer (disk.tree.get loc) with
    | .untouched ok => (Unpacked.result ok, disk)
    | .wrote node ok =>
      match disk.tree.put loc node with
      | none => (.error (), disk)
      | some tree => (Unpacked.result ok, ⟨tree, [loc] ++ disk.touched⟩)

/-- An error is the text of its outermost context. -/
abbrev Bundling := Act String Disk

/-- `None` where the loop skips the entry. Only a first component is `/` or `.`, so that joining the
others is appending them. -/
def outPathOf (dest : FilePath) (path : OsString) : Option FilePath :=
  let entryPath := components path
  if entryPath.length > 1 then
    let stripped := entryPath.drop 1
    if stripped = [] then none else some (dest ++ stripped)
  else none

/-- `Path::parent` of a path that has a last name, `.` or `..`. -/
def parent (path : FilePath) : FilePath := path.dropLast

/-- The body of the loop. -/
def extractEntry (dest : FilePath) (entry : Option Entry) : Bundling Unit :=
  match entry with
  | none => .fail "failed to read archive entry"
  | some entry =>
    match entry.path with
    | none => .fail "archive entry has invalid path"
    | some path =>
      match outPathOf dest path with
      | none => pure ()
      | some outPath =>
        if entry.isDir then
          (createDirAll entry.grants outPath).context
            s!"failed to create directory: {display outPath}"
        else do
          (createDirAll entry.grants (parent outPath)).context
            s!"failed to create parent dir: {display (parent outPath)}"
          (unpack entry.unpack outPath).context
            s!"failed to unpack entry to: {display outPath}"

def openArchive (env : ExtractEnv) (archivePath : FilePath) : Bundling (List (Option Entry)) :=
  fun disk =>
    match (if env.opens then readFile disk.tree archivePath else none) with
    | none => (.error s!"failed to open archive: {display archivePath}", disk)
    | some data =>
      match env.entries data.bytes with
      | none => (.error "failed to read archive entries", disk)
      | some entries => (.ok entries, disk)

def extractTarball (env : ExtractEnv) (archivePath dest : FilePath) : Bundling Unit := do
  (createDirAll env.grants dest).context s!"failed to create dest dir: {display dest}"
  let entries ← openArchive env archivePath
  entries.forM (extractEntry dest)

end Hwwctl.Bundler
