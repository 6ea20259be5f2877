import Hwwctl.Bundler.Extract

/-!
# Archives of files and directories

An archive that holds nothing else, extracted by a system that refuses nothing, and where its
members are meant to go. `landing` is where the loop lets them go.
-/

namespace Hwwctl.Bundler

open FileTree

/-- A member without content is a directory. -/
structure Member where
  path : OsString
  content : Option FileData
deriving DecidableEq

/-- A file replaces what it finds at its path, unless that is a directory. -/
def Member.entry (m : Member) : Entry where
  path := some m.path
  isDir := m.content.isNone
  grants := fun _ => true
  unpack := fun standing =>
    match m.content, standing with
    | some _, some .dir => .untouched false
    | some data, _ => .wrote (.leaf (.file data)) true
    | none, _ => .untouched true

/-- The names in a path, without a leading `.`. -/
def names (path : FilePath) : List OsString :=
  path.filterMap fun
    | .normal name => some name
    | _ => none

/-- The path is written with a leading `./`. -/
def Dotted (path : OsString) : Prop := (components path).head? = some .curDir

instance (path : OsString) : Decidable (Dotted path) := inferInstanceAs (Decidable (_ = _))

/-- The names below the destination that the loop makes of a path; none where it skips the entry. -/
def landing (path : OsString) : List OsString := names ((components path).drop 1)

/-- The place below `root` that these names lead to. -/
def Member.loc (root : FsLoc) (m : Member) : FsLoc := (landing m.path).reverse ++ root

/-- The regular files. -/
def files (members : List Member) : List Member := members.filter (·.content.isSome)

/-- The member is in the top-level directory, or is that directory. -/
def liesBelow (top : OsString) (m : Member) : Bool :=
  match names (components m.path) with
  | [] => false
  | name :: rest => name = top && (m.content.isNone || !rest.isEmpty)

/-- The one top-level directory that everything is below, if there is one. -/
def commonTop (members : List Member) : Option OsString :=
  (members.head?.bind fun m => (names (components m.path)).head?).filter fun top =>
    members.all (liesBelow top)

/-- The names below the destination at which a member is meant to land. -/
def home (members : List Member) (m : Member) : List OsString :=
  if (commonTop members).isSome then (names (components m.path)).tail
  else names (components m.path)

end Hwwctl.Bundler
