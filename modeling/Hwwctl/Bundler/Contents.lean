import Hwwctl.Bundler.Download
import Hwwctl.Bundler.Members
import Mathlib.Data.List.ReduceOption

/-!
# What an archive leaves behind

Place by place, and read off the entries: the last entry that comes to a place decides what stands
there, and where none comes it is what stood there before.
-/

namespace Hwwctl.Bundler

open FileTree

/-- What stands at a path behind `Entry::unpack`. -/
def Unpacked.leaves (standing : Option FsNode) : Unpacked → Option FsNode
  | .untouched _ => standing
  | .wrote node _ => some node

namespace Entry

/-- Where an entry goes in the directory at `root`, which is `root` itself if the loop skips it. -/
def goal (root : FsLoc) (entry : Entry) : FsLoc :=
  ((entry.path.map landing).getD []).reverse ++ root

/-- What an entry leaves at a place where something stands: on its way a directory, at its goal what
it is unpacked to. -/
def leaves (root loc : FsLoc) (standing : Option FsNode) (entry : Entry) : Option FsNode :=
  if Below root loc ∧ loc <:+ entry.goal root then
    if loc = entry.goal root ∧ entry.isDir = false then (entry.unpack standing).leaves standing
    else some .dir
  else standing

end Entry

/-- What the entries leave at a place, one after the other. -/
def leftBy (root : FsLoc) (entries : List Entry) (look : FsLoc → Option FsNode) (loc : FsLoc) :
    Option FsNode :=
  entries.foldl (Entry.leaves root loc) (look loc)

/-- The bytes that the server has sent. -/
def body (stream : List (Option Chunk)) : List UInt8 :=
  (stream.filterMap id).flatMap (·.bytes)

/-- The archive's entries, as far as it can be read. -/
def DownloadEnv.archive (env : DownloadEnv) : List Entry :=
  let bytes := (env.transfer.response.map fun response => body response.stream).getD []
  ((env.extract.entries bytes).getD []).reduceOption

end Hwwctl.Bundler
