import Hwwctl.Library.Action
import Hwwctl.Library.FileTree

/-!
# Paths and the file system

The operations of `std::path` and `std::fs` that the bundler uses, over byte strings as Unix has
them. Every operation may be refused by the system for reasons of its own; that is an argument.
-/

namespace Hwwctl.Bundler

open FileTree

abbrev OsString := List UInt8

/-- A string of the source. -/
def osString (s : String) : OsString := s.toUTF8.data.toList

def slash : UInt8 := 47

def dot : UInt8 := 46

abbrev FilePath := FileTree.Path OsString

def component (piece : OsString) : Option (Component OsString) :=
  if piece = [] ∨ piece = [dot] then none
  else if piece = [dot, dot] then some .parentDir
  else some (.normal piece)

/-- `Path::components`: a `.` counts only in front. -/
def components (path : OsString) : FilePath :=
  let pieces := path.splitOn slash
  let rest := pieces.filterMap component
  if path.head? = some slash then .rootDir :: rest
  else if pieces.head? = some [dot] then .curDir :: rest
  else rest

/-- `Path::join`. -/
def join (path other : FilePath) : FilePath :=
  match other with
  | .rootDir :: _ => other
  | .curDir :: rest => path ++ rest
  | _ => path ++ other

/-- `Path::file_stem` of a file name. -/
def fileStem (name : OsString) : OsString :=
  let before := ((name.reverse.dropWhile (· ≠ dot)).drop 1).reverse
  if before = [] then name else before

/-- `Path::with_extension`. -/
def withExtension (path : FilePath) (extension : OsString) : FilePath :=
  match path.getLast? with
  | some (.normal name) => path.dropLast ++ [.normal (fileStem name ++ dot :: extension)]
  | _ => path

/-- `OsStr::to_str`. -/
def toStr (s : OsString) : Option String := String.fromUTF8? ⟨s.toArray⟩

/-- How many bytes a character of UTF-8 has that begins with `lead`; none begins with some. -/
def charWidth (lead : UInt8) : Nat :=
  if lead < 0x80 then 1
  else if lead < 0xC2 then 0
  else if lead < 0xE0 then 2
  else if lead < 0xF0 then 3
  else if lead < 0xF5 then 4
  else 0

/-- Whether `b` may come second in a character that begins with `lead`. -/
def maySecond (lead b : UInt8) : Bool :=
  (if lead = 0xE0 then 0xA0 else if lead = 0xF0 then 0x90 else 0x80) ≤ b &&
    b ≤ (if lead = 0xED then 0x9F else if lead = 0xF4 then 0x8F else 0xBF)

/-- How many bytes behind `lead` go on with its character, as far as it goes. -/
def following (lead : UInt8) : List UInt8 → Nat
  | [] => 0
  | b :: rest =>
    let more := rest.take (charWidth lead - 2)
    if 2 ≤ charWidth lead && maySecond lead b then
      1 + (more.takeWhile fun b => 0x80 ≤ b && b ≤ 0xBF).length
    else 0

/-- `String::from_utf8_lossy` behind the first `skip` bytes: what is no character, or only the
beginning of one, is replaced. -/
def lossy : List UInt8 → Nat → String
  | [], _ => ""
  | _ :: rest, skip + 1 => lossy rest skip
  | lead :: rest, 0 =>
    let more := following lead rest
    (toStr (lead :: rest.take more)).getD "\uFFFD" ++ lossy rest more

/-- The bytes of a path. -/
def pathBytes (path : FilePath) : OsString :=
  let piece : Component OsString → OsString := fun
    | .rootDir => []
    | .curDir => [dot]
    | .parentDir => [dot, dot]
    | .normal name => name
  match path with
  | .rootDir :: rest => slash :: List.intercalate [slash] (rest.map piece)
  | _ => List.intercalate [slash] (path.map piece)

/-- `Path::display`. -/
def display (path : FilePath) : String := lossy (pathBytes path) 0

structure FileData where
  bytes : List UInt8
  executable : Bool
deriving DecidableEq, Repr

abbrev FsTree := FileTree.Tree OsString FileData
abbrev FsNode := FileTree.Node OsString FileData
abbrev FsLoc := FileTree.Loc OsString

/-- `touched` are the places at which something has been created, replaced or removed. -/
structure Disk where
  tree : FsTree
  touched : List FsLoc

/-- The kind of an I/O error is never looked at. -/
abbrev Io := Act Unit Disk

namespace Io

/-- Go on with `tree`, which differs at `locs`, if there is one. -/
def change (locs : List FsLoc) (tree : Option FsTree) : Io Unit := fun disk =>
  match tree with
  | some tree => (.ok (), ⟨tree, locs ++ disk.touched⟩)
  | none => (.error (), disk)

/-- `std::fs::create_dir`. -/
def createDir (granted : Bool) (path : FilePath) : Io Unit := fun disk =>
  match place disk.tree path with
  | none => (.error (), disk)
  | some loc =>
    if granted ∧ disk.tree.get loc = none then change [loc] (disk.tree.put loc .dir) disk
    else (.error (), disk)

/-- One level of `create_dir_all`: no error matters where there is a directory. -/
def ensureDir (granted : Bool) (path : FilePath) : Io Unit := fun disk =>
  if isDir disk.tree path then (.ok (), disk) else createDir granted path disk

def ensureDirs (grants : FilePath → Bool) : FilePath → FilePath → Io Unit
  | _, [] => pure ()
  | done, c :: rest => do
    ensureDir (grants (done ++ [c])) (done ++ [c])
    ensureDirs grants (done ++ [c]) rest

/-- `std::fs::create_dir_all`. -/
def createDirAll (grants : FilePath → Bool) (path : FilePath) : Io Unit := ensureDirs grants [] path

/-- A file that is there keeps its mode when it is truncated. -/
def emptied (standing : Option FsNode) : FileData where
  bytes := []
  executable :=
    match standing with
    | some (.leaf (.file data)) => data.executable
    | _ => false

/-- `File::create`. -/
def createFile (granted : Bool) (path : FilePath) : Io FsLoc := fun disk =>
  match locate disk.tree path with
  | none => (.error (), disk)
  | some loc =>
    let file := Node.leaf (.file (emptied (disk.tree.get loc)))
    match (if granted then disk.tree.put loc file else none) with
    | none => (.error (), disk)
    | some tree => (.ok loc, ⟨tree, [loc] ++ disk.touched⟩)

/-- `write_all` on an open file. -/
def writeAll (granted : Bool) (file : FsLoc) (bytes : List UInt8) : Io Unit := fun disk =>
  match disk.tree.get file with
  | some (.leaf (.file data)) =>
    let tree := disk.tree.put file (.leaf (.file { data with bytes := data.bytes ++ bytes }))
    change [file] (if granted then tree else none) disk
  | _ => (.error (), disk)

/-- `std::fs::read`. -/
def readFile (tree : FsTree) (path : FilePath) : Option FileData :=
  match stat tree path with
  | some (.leaf (.file data)) => some data
  | _ => none

/-- `std::fs::rename` of a file. -/
def rename (granted : Bool) (source target : FilePath) : Io Unit := fun disk =>
  match place disk.tree source, place disk.tree target with
  | some a, some b =>
    match disk.tree.get a with
    | some (.leaf leaf) =>
      let tree := (disk.tree.drop a).bind (·.put b (.leaf leaf))
      change [b, a] (if granted then tree else none) disk
    | _ => (.error (), disk)
  | _, _ => (.error (), disk)

/-- `std::fs::remove_file`. -/
def removeFile (granted : Bool) (path : FilePath) : Io Unit := fun disk =>
  match place disk.tree path with
  | none => (.error (), disk)
  | some loc => change [loc] (if granted then disk.tree.drop loc else none) disk

end Io

end Hwwctl.Bundler
