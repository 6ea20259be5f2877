import Hwwctl.Bundler.Storage

/-!
# The size of a directory

The recursion of `walkdir` without a bound, which may go on for ever for all that its text says, and
what `dir_size` is meant to add up.
-/

namespace Hwwctl.Bundler

open FileTree Io

/-- What the loop goes through; nothing if the directory cannot be read. -/
def entriesIn (order : List OsString → List OsString) (tree : FsTree) (dir : FilePath) :
    List OsString :=
  (readDir order tree dir).getD []

/-- `collect` in `dir`, with `names` still to come, pushes `out` and returns. -/
inductive Collects (order : List OsString → List OsString) (tree : FsTree) :
    FilePath → List OsString → List FilePath → Prop
  | done (dir : FilePath) : Collects order tree dir [] []
  | descend {dir : FilePath} {name : OsString} {names : List OsString} {inner out : List FilePath}
      (hdir : isDir tree (dir ++ [.normal name]) = true)
      (hinner : Collects order tree (dir ++ [.normal name])
        (entriesIn order tree (dir ++ [.normal name])) inner)
      (hrest : Collects order tree dir names out) :
      Collects order tree dir (name :: names) (inner ++ out)
  | push {dir : FilePath} {name : OsString} {names : List OsString} {out : List FilePath}
      (hdir : isDir tree (dir ++ [.normal name]) = false)
      (hrest : Collects order tree dir names out) :
      Collects order tree dir (name :: names) ((dir ++ [.normal name]) :: out)

/-- The entry is a regular file; a link is none. -/
def isFileEntry (tree : FsTree) (path : FilePath) : Bool :=
  match (place tree path).bind tree.get with
  | some (.leaf (.file _)) => true
  | _ => false

/-- The entries whose length `dir_size` adds. -/
def counted (order : List OsString → List OsString) (tree : FsTree) (dir : FilePath) :
    List FilePath :=
  (collect order tree (collectDepth tree) dir).filter (isFileEntry tree)

/-- The length of the regular file at `loc`, if there is one. -/
def sizeAt (tree : FsTree) (loc : FsLoc) : Nat :=
  match tree.get loc with
  | some (.leaf (.file data)) => data.bytes.length
  | _ => 0

def isFileAt (tree : FsTree) (loc : FsLoc) : Bool :=
  match tree.get loc with
  | some (.leaf (.file _)) => true
  | _ => false

/-- The places of the regular files below `root`. -/
def regularFiles (tree : FsTree) (root : FsLoc) : List FsLoc :=
  tree.nodes.keys.filter fun loc => Below root loc && isFileAt tree loc

end Hwwctl.Bundler
