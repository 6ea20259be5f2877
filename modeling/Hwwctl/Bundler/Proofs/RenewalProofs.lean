import Hwwctl.Bundler.Contents
import Hwwctl.Bundler.Proofs.ConfineProofs

/-!
# What extraction renews

Extraction only depends on what is found where. Where no links are about, what it makes or writes
was not there before, or it is what an entry that goes there is unpacked to.
-/

namespace Hwwctl.Bundler

open FileTree Io

/-! ## Trees in which the same is found -/

section SameFound

end SameFound

/-! ## New things -/

/-- Whatever has been made or written was not there before, or it is `Fresh` at its place. -/
def Renews (Fresh : FsLoc → FsNode → Prop) (disk disk' : Disk) : Prop :=
  ∃ locs, Built disk disk' locs ∧ ∀ l ∈ locs, disk.tree.get l = none ∨
    ∃ node, disk'.tree.get l = some node ∧ Fresh l node

/-- The entry is unpacked to something fresh where it goes, if to anything. -/
def Freshens (Fresh : FsLoc → FsNode → Prop) (root : FsLoc) (e : Entry) : Prop :=
  ∀ standing node ok, e.unpack standing = .wrote node ok → Fresh (e.goal root) node

section Renews

variable {Fresh : FsLoc → FsNode → Prop} {F : OsString → Prop} {disk disk' : Disk}
  {dest : FilePath} {root : FsLoc} {e : Entry}

theorem Renews.refl (disk : Disk) : Renews Fresh disk disk :=
  ⟨[], { touched := rfl, there := (by simp), same := fun _ _ => rfl }, by simp⟩

theorem Renews.trans (a b c : Disk) (hab : Renews Fresh a b) (hbc : Renews Fresh b c) :
    Renews Fresh a c := by
  obtain ⟨locs, hbuilt, hnew⟩ := hab
  obtain ⟨locs', hbuilt', hnew'⟩ := hbc
  refine ⟨locs' ++ locs, hbuilt.trans hbuilt', fun l hl => ?_⟩
  by_cases hlater : l ∈ locs'
  · rcases hnew' l hlater with hnone | hfresh
    · refine .inl ?_
      by_contra hthere
      exact Builds.there ⟨locs, hbuilt⟩ hthere hnone
    · exact .inr hfresh
  · rw [hbuilt'.same l hlater]
    exact hnew l ((List.mem_append.1 hl).resolve_left hlater)

end Renews

end Hwwctl.Bundler
