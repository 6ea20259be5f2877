import Hwwctl.Bundler.Proofs.DownloadProofs

/-!
# Cleaning up

The points at which `download` gives up, and what its only clean-up, the removal of the archive,
makes of the disk it finds there.
-/

namespace Hwwctl.Bundler

open FileTree Io Emulators

section Steps

variable (env : DownloadEnv) (storage : BundleStorage) (bundle : RemoteBundle)

/-- The run of `extract_tarball` on the disk that the transfer has left. -/
def extracted (disk : Disk) : Except String Unit × Disk :=
  extractTarball env.extract (archivePathOf storage bundle) (storage.bundleDir bundle.walletType)
    disk

/-- The disk behind the removal of the archive. -/
def cleanedUp (disk : Disk) : Disk :=
  (removeFile env.removes (archivePathOf storage bundle) disk).2

/-- The run of `write_manifest` on that disk. -/
def described (disk : Disk) : Except String Unit × Disk :=
  storage.writeManifest env.json env.manifest bundle.walletType
    (newManifest env storage bundle disk.tree) disk

end Steps

section GivesUp

variable {env : DownloadEnv} {storage : BundleStorage} {bundle : RemoteBundle} {s s' : Session}

theorem onDisk_cases {ε α : Type} {x : Act ε Disk α} {r : Except ε α}
    (h : onDisk x s = (r, s')) : ∃ disk, x s.disk = (r, disk) ∧ s' = { s with disk := disk } := by
  cases h
  exact ⟨(x s.disk).2, rfl, rfl⟩

theorem giveUp_disk {context msg : String} {r : Except String Unit}
    (h : giveUp env storage bundle context msg s = (r, s')) :
    r ≠ .ok () ∧ s'.disk = cleanedUp env storage bundle s.disk := by
  cases h
  exact ⟨fun hok => (by cases hok), rfl⟩

end GivesUp

/-- The clean-up removes the archive, or it changes nothing. -/
theorem cleanedUp_cases (env : DownloadEnv) (storage : BundleStorage) (bundle : RemoteBundle)
    (disk : Disk) :
    (∃ loc, Removes env.removes (archivePathOf storage bundle) disk.tree loc ∧
      Removed disk (cleanedUp env storage bundle disk) loc) ∨
    ((∀ loc, ¬ Removes env.removes (archivePathOf storage bundle) disk.tree loc) ∧
      cleanedUp env storage bundle disk = disk) :=
  removeFile_cases env.removes (archivePathOf storage bundle) disk

section CleanedUp

variable {env : DownloadEnv} {storage : BundleStorage} {bundle : RemoteBundle} {disk disk' : Disk}

theorem extracted_builds {r : Except String Unit}
    (h : extracted env storage bundle disk = (r, disk')) : Builds disk disk' := by
  have hbuilds := extractTarball_builds env.extract (archivePathOf storage bundle)
    (storage.bundleDir bundle.walletType) disk
  rw [show extractTarball _ _ _ disk = (r, disk') from h] at hbuilds
  exact hbuilds

/-- The clean-up removes nothing but the archive. -/
theorem cleanedUp_there (hname : NamesFile bundle) {name : OsString} {dir : FsLoc}
    (hne : name ≠ osString bundle.assetName) (hthere : disk.tree.get (name :: dir) ≠ none) :
    (cleanedUp env storage bundle disk).tree.get (name :: dir) ≠ none := by
  rcases cleanedUp_cases env storage bundle disk with ⟨loc, hremoves, hremoved⟩ | ⟨_, hsame⟩
  · have hplace := hremoves.2.1
    rw [archivePathOf_eq hname] at hplace
    obtain ⟨dir', rfl⟩ := place_eq_some hplace
    rw [hremoved.get, if_neg]
    · exact hthere
    · intro heq
      exact hne (List.cons.inj heq).1
  · rw [hsame]
    exact hthere

theorem cleanedUp_removed {loc : FsLoc}
    (h : Removes env.removes (archivePathOf storage bundle) disk.tree loc) :
    Removed disk (cleanedUp env storage bundle disk) loc := by
  rcases cleanedUp_cases env storage bundle disk with ⟨loc', hremoves, hremoved⟩ | ⟨hno, _⟩
  · obtain rfl := Option.some.inj (h.2.1.symm.trans hremoves.2.1)
    exact hremoved
  · exact absurd h (hno loc)

end CleanedUp

end Hwwctl.Bundler
