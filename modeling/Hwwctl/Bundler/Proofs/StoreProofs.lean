import Hwwctl.Bundler.Proofs.RemoveProofs

/-!
# The bundle manager keeps a store

Every operation of the manager does to the store of installed bundles what `Effect` allows, however
the server and the system answer and wherever it is broken off. What it does to the files stays in
the bundle directory of its wallet, so a whole run is one of the store, and nothing outside the base
directory changes.
-/

namespace Hwwctl.Bundler

open FileTree Io Emulators

/-! ## The steps of a download -/

section Steps

variable {env : DownloadEnv} {storage : BundleStorage} {bundle : RemoteBundle} {root : FsLoc}
  {s s' : Session} {disk disk' : Disk}

/-- The names of the archive and of its temporary file. -/
def IsTransferName (bundle : RemoteBundle) (first : OsString) : Prop :=
  first = osString bundle.assetName ∨ first = tmpName (osString bundle.assetName)

theorem FileAt.edits {first : OsString} {F : OsString → Prop}
    (h : FileAt disk disk' (first :: root)) (hfirst : F first) : Edits root F disk disk' := by
  obtain ⟨data, hdata⟩ := h.file
  refine edits_of_change (some (.leaf (.file data))) hfirst List.suffix_rfl (by simp) ?_
  intro l
  split
  · next heq => rw [heq, hdata]
  · next hne => exact h.same l hne

theorem cleanedUp_edits (hname : NamesFile bundle)
    (hsealed : Sealed disk.tree (storage.bundleDir bundle.walletType) root) :
    Edits root (IsTransferName bundle) disk (cleanedUp env storage bundle disk) := by
  rcases cleanedUp_cases env storage bundle disk with ⟨loc, hremoves, hremoved⟩ | ⟨_, hsame⟩
  · have hplace := hremoves.2.1
    rw [archivePathOf_eq hname] at hplace
    exact edits_of_change none (.inl rfl) (hsealed.under_name hplace) (by simp) hremoved.get
  · rw [hsame]
    exact Edits.refl _ _ _

/-- The names of the manifest's temporary file. -/
def IsTmpManifest (first : OsString) : Prop := first = osString "manifest.json.tmp"

end Steps

/-! ## What is installed -/

/-- What the manifest in the bundle directory `root` says. -/
def manifestAt (json : Json) (tree : FsTree) (root : FsLoc) : Option BundleManifest :=
  match tree.get (manifestLoc root) with
  | some (.leaf (.file data)) => json.fromSlice data.bytes
  | _ => none

section ManifestAt

variable {json : Json} {tree tree' : FsTree} {root : FsLoc}

end ManifestAt

section Stored

variable {storage : BundleStorage} {base : FsLoc} {disk disk' : Disk} {json : Json}
  {w : WalletType}

theorem osString_walletDirName_injective {w w' : WalletType}
    (h : osString (walletDirName w) = osString (walletDirName w')) : w = w' := by
  cases w <;> cases w' <;> first | rfl | exact absurd h (by decide)

theorem Stored.isSealed_dir (h : Stored storage base disk.tree)
    (hdir : disk.tree.get (walletLoc base w) = some .dir) :
    Sealed disk.tree (storage.bundleDir w) (walletLoc base w) :=
  h.sealed.down hdir

/-- What an operation on a wallet may do to the files: it stays in the bundle directory, which it may
make or take away. -/
structure Stays (base : FsLoc) (w : WalletType) (disk disk' : Disk) : Prop where
  edits : Edits base (· = osString (walletDirName w)) disk disk'
  dir : disk'.tree.get (walletLoc base w) = disk.tree.get (walletLoc base w) ∨
    disk'.tree.get (walletLoc base w) = none ∨ disk'.tree.get (walletLoc base w) = some .dir

theorem Stays.stored (h : Stays base w disk disk') (hstored : Stored storage base disk.tree) :
    Stored storage base disk'.tree where
  sealed := h.edits.isSealed hstored.sealed
  dirs := by
    intro w'
    by_cases hw : w' = w
    · rw [hw]
      rcases h.dir with hsame | hnone | hdir
      · rw [hsame]
        exact hstored.dirs w
      · exact .inl hnone
      · exact .inr hdir
    · have hother : ¬ osString (walletDirName w') = osString (walletDirName w) :=
        fun heq => hw (osString_walletDirName_injective heq)
      have hsame : disk'.tree.get (walletLoc base w') = disk.tree.get (walletLoc base w') :=
        h.edits.same hother List.suffix_rfl
      rw [hsame]
      exact hstored.dirs w'

/-- What is not in the bundle directory of `w` stays as it is. -/
theorem Stays.same {l : FsLoc} (h : Stays base w disk disk') (hl : ¬ walletLoc base w <:+ l) :
    disk'.tree.get l = disk.tree.get l := by
  by_contra hne
  obtain ⟨⟨first, rfl, hsuffix⟩, _⟩ := h.edits l hne
  exact hl hsuffix

end Stored

/-! ## One operation -/

/-- What is taken for granted about a download: the asset has the name of a file, which is not the
manifest's, and the archive has files and directories at plain paths. Any step may fail. -/
structure Wholesome (json : Json) (env : DownloadEnv) (bundle : RemoteBundle) : Prop where
  name : NamesFile bundle
  notManifest : osString bundle.assetName ≠ osString "manifest.json"
  reads : env.json = json
  plain : ∀ bytes entries e path, env.extract.entries bytes = some entries → some e ∈ entries →
    e.path = some path → Plain path
  files : ∀ bytes entries e, env.extract.entries bytes = some entries → some e ∈ entries →
    WritesFiles e.unpack

/-- The names under which a download works in the bundle directory until the manifest is moved to its
place. -/
def IsWorkName (env : DownloadEnv) (bundle : RemoteBundle) (first : OsString) : Prop :=
  IsTransferName bundle first ∨ IsTmpManifest first ∨ Brings env.extract first

section Download

variable {env : DownloadEnv} {storage : BundleStorage} {bundle : RemoteBundle} {json : Json}
  {base : FsLoc} {s s' : Session} {disk disk' : Disk}

theorem extracted_edits {root : FsLoc} (hwhole : Wholesome json env bundle)
    (hsealed : Sealed disk.tree (storage.bundleDir bundle.walletType) root)
    {r : Except String Unit} (h : extracted env storage bundle disk = (r, disk')) :
    Edits root (Brings env.extract) disk disk' := by
  have htame : ∀ bytes entries, env.extract.entries bytes = some entries →
      ∀ e, some e ∈ entries → Tame (Brings env.extract) e := by
    intro bytes entries hentries e he
    exact
      { plain := fun path hpath => hwhole.plain bytes entries e path hentries he hpath
        first := fun path first hpath hfirst => ⟨bytes, entries, e, path, hentries, he, hpath, hfirst⟩
        files := hwhole.files bytes entries e hentries he }
  have hkept : Edits root (Brings env.extract) disk (extracted env storage bundle disk).2 :=
    extractTarball_keptIn htame disk hsealed
  rw [h] at hkept
  exact hkept

/-- What a download does behind the making of the bundle directory. -/
structure Worked (env : DownloadEnv) (storage : BundleStorage) (bundle : RemoteBundle)
    (base : FsLoc) (disk opened disk' : Disk) : Prop where
  opens : Stays base bundle.walletType disk opened
  same : ∀ json, manifestAt json opened.tree (walletLoc base bundle.walletType) =
    manifestAt json disk.tree (walletLoc base bundle.walletType)
  dir : opened.tree.get (walletLoc base bundle.walletType) = some .dir
  edits : Edits (walletLoc base bundle.walletType) (IsWorkName env bundle) opened disk'

theorem Worked.stays (h : Worked env storage bundle base disk opened disk') :
    Stays base bundle.walletType disk disk' where
  edits := h.opens.edits.trans h.edits.up
  dir := .inr (.inr ((h.edits.outside (not_below_self _)).trans h.dir))

theorem Worked.isSealed (h : Worked env storage bundle base disk opened disk')
    (hstored : Stored storage base disk.tree) :
    Sealed disk'.tree (storage.bundleDir bundle.walletType) (walletLoc base bundle.walletType) :=
  h.edits.isSealed ((h.opens.stored hstored).isSealed_dir h.dir)

theorem Worked.trans {F : OsString → Prop} {disk'' : Disk}
    (h : Worked env storage bundle base disk opened disk')
    (he : Edits (walletLoc base bundle.walletType) F disk' disk'')
    (hF : ∀ first, F first → IsWorkName env bundle first) :
    Worked env storage bundle base disk opened disk'' :=
  { h with edits := h.edits.trans (he.mono hF) }

theorem Worked.extract {r : Except String Unit} {disk'' : Disk}
    (h : Worked env storage bundle base disk opened disk')
    (hstored : Stored storage base disk.tree) (hwhole : Wholesome json env bundle)
    (hextract : extracted env storage bundle disk' = (r, disk'')) :
    Worked env storage bundle base disk opened disk'' :=
  h.trans (extracted_edits hwhole (h.isSealed hstored) hextract) fun _ hfirst => .inr (.inr hfirst)

theorem Worked.cleanUp (h : Worked env storage bundle base disk opened disk')
    (hstored : Stored storage base disk.tree) (hwhole : Wholesome json env bundle) :
    Worked env storage bundle base disk opened (cleanedUp env storage bundle disk') :=
  h.trans (cleanedUp_edits hwhole.name (h.isSealed hstored)) fun _ hfirst => .inl hfirst

end Download

section Run

variable {json : Json} {storage : BundleStorage} {base : FsLoc}

end Run

/-- The bundle of a wallet, with a server that cannot be reached. -/
def unreachable (walletType : WalletType) (name : String) : Operation :=
  .download { (shipping walletType name).env with transfer := ⟨none, true, true, true⟩ }
    (shipping walletType name).bundle

def removing (walletType : WalletType) : Operation := .remove ⟨fun _ => true, id⟩ walletType

end Hwwctl.Bundler
