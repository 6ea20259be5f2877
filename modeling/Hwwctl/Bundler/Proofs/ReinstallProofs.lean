import Hwwctl.Bundler.Proofs.OverlayProofs
import Hwwctl.Bundler.Proofs.SuccessProofs
import Hwwctl.Library.Transition

/-!
# Installing over earlier bundles

An installation extracts its archive over whatever stands in the bundle directory and then describes
what it finds there. It leaves what it would have left in an empty directory as long as everything
that stands there before, the earlier manifest included, is at a place where the archive has
something of the same kind.
-/

namespace Hwwctl.Bundler

open FileTree Io Emulators Transition

/-- One installation: what it meets, and the bundle. -/
structure Install where
  env : DownloadEnv
  bundle : RemoteBundle

/-! ## One installation and the same into an empty directory -/

namespace Install

variable (storage : BundleStorage)

/-- A `download` that succeeds. -/
def step (s : Session) (i : Install) : Option Session :=
  match download i.env storage i.bundle s with
  | (.ok (), s') => some s'
  | (.error _, _) => none

variable (i : Install) (s : Session)

def dir : FilePath := storage.bundleDir i.bundle.walletType

/-- The disk once there is a bundle directory. -/
def opened : Disk := (createDirAll i.env.grants (i.dir storage) s.disk).2

/-- Where the bundle directory is. -/
def root : FsLoc := (locate (i.opened storage s).tree (i.dir storage)).getD []

/-- The same with nothing in the bundle directory. -/
def emptied : Session :=
  let opened := i.opened storage s
  { s with disk := ⟨opened.tree.clear (i.root storage s), opened.touched⟩ }

/-- The disk when the archive has been extracted into the empty directory. -/
def unpackedAfresh : Disk :=
  (extracted i.env storage i.bundle
    (downloadAsset i.env.transfer (archivePathOf storage i.bundle) (i.emptied storage s)).2.disk).2

/-- What the archive brings, its own place apart. -/
def brings (loc : FsLoc) : Option FsNode :=
  if loc = assetLoc i.bundle (i.root storage s) then none
  else (i.unpackedAfresh storage s).tree.get loc

/-- The same would have succeeded in an empty directory. The bundle directory holds what the archive
brings and the manifest, and the manifest says what the one of that installation says, at whatever
time. -/
structure AsAfresh (s' : Session) : Prop where
  succeeds : ∃ s₀', i.step storage (i.emptied storage s) = some s₀'
  files : ∀ loc, Below (i.root storage s) loc → loc ≠ manifestLoc (i.root storage s) →
    s'.disk.tree.get loc = i.brings storage s loc
  manifest : ∀ timestamp s₀',
    download { i.env with timestamp := timestamp } storage i.bundle (i.emptied storage s) =
      (.ok (), s₀') →
    ∃ m m₀, storage.readManifest i.env.json s'.disk.tree i.bundle.walletType = some m ∧
      storage.readManifest i.env.json s₀'.disk.tree i.bundle.walletType = some m₀ ∧
      m.emulatorBinary = m₀.emulatorBinary ∧ m.firmwareDir = m₀.firmwareDir ∧
      m.sizeBytes = m₀.sizeBytes

/-- What stands in the bundle directory is at a place where the archive brings something of the same
kind, except that the transfer replaces an archive or a temporary file that it finds; the archive
can be removed, and brings no temporary manifest; and the way to the bundle directory does not lead
through it, nor does the archive change it. -/
structure Fits : Prop where
  kinds : ∀ loc node, Below (i.root storage s) loc → (i.opened storage s).tree.get loc = some node →
    loc ≠ assetLoc i.bundle (i.root storage s) → loc ≠ tmpLoc i.bundle (i.root storage s) →
      ∃ node', i.brings storage s loc = some node' ∧ SameKind node node'
  noLink : ∀ target, (i.opened storage s).tree.get (tmpLoc i.bundle (i.root storage s)) ≠
    some (.leaf (.symlink target))
  removes : i.env.removes = true
  noTemporary : i.brings storage s (manifestTmpLoc (i.root storage s)) = none
  leads : locate ((i.opened storage s).tree.clear (i.root storage s)) (i.dir storage) =
    some (i.root storage s)
  stays : locate ((i.unpackedAfresh storage s).tree.clear (i.root storage s)) (i.dir storage) =
    some (i.root storage s)

/-- What is known of the code that is not the repository's: `unpack` replaces the files it finds,
names are listed in an order of their own, and a manifest that has been written can be read. -/
structure Regular : Prop where
  unpack : ∀ bytes entries, i.env.extract.entries bytes = some entries → OverwritesAll entries
  order : ListsNames i.env.order
  json : ∀ m bytes, m.buildInfo = none → i.env.json.toStringPretty m = some bytes →
    i.env.json.fromSlice bytes = some m

end Install

/-! ## The way to the bundle directory -/

section Leads

variable {t t' : FsTree} {root : FsLoc} {path : FilePath}

theorem not_below_self (root : FsLoc) : ¬ Below root root := fun h => h.2 rfl

/-- What happens in a directory makes no difference to a path that leads to it from outside. -/
theorem leads_of_outside (hleads : locate (t.clear root) path = some root)
    (hroot : t.get root = some .dir) (h : ∀ loc, ¬ Below root loc → t'.get loc = t.get loc) :
    locate t' path = some root ∧ t'.get root = some .dir := by
  have hclear : (t.clear root).get root = some .dir := by
    rw [Tree.get_clear, if_neg (not_below_self root), hroot]
  have hretains : Retains (t.clear root) t' := by
    intro loc node hnode _
    rw [Tree.get_clear] at hnode
    split at hnode
    · cases hnode
    · next hbelow => rw [h loc hbelow, hnode]
  exact ⟨locate_retained hretains hclear hleads, hretains root .dir hclear (by simp)⟩

theorem readManifest_eq {storage : BundleStorage} {json : Json} {walletType : WalletType}
    {data : FileData} (hleads : locate t (storage.bundleDir walletType) = some root)
    (hroot : t.get root = some .dir) (hdata : t.get (manifestLoc root) = some (.leaf (.file data))) :
    storage.readManifest json t walletType = json.fromSlice data.bytes := by
  have hlocate : locate t (storage.manifestPath walletType) = some (manifestLoc root) := by
    apply locate_normal hleads hroot
    intro target htarget
    rw [manifestLoc] at hdata
    rw [hdata] at htarget
    cases htarget
  have hread : readFile t (storage.manifestPath walletType) = some data := by
    simp only [readFile, stat, hlocate, Option.bind_some, hdata]
  rw [BundleStorage.readManifest, hread, Option.bind_some]

end Leads

/-! ## Extraction -/

section Extraction

variable {env : DownloadEnv} {storage : BundleStorage} {bundle : RemoteBundle} {disk disk' : Disk}
  {root : FsLoc} {data : FileData}

theorem readArchive_eq (hname : NamesFile bundle)
    (hleads : locate disk.tree (storage.bundleDir bundle.walletType) = some root)
    (hroot : disk.tree.get root = some .dir)
    (hdata : disk.tree.get (assetLoc bundle root) = some (.leaf (.file data))) :
    readFile disk.tree (archivePathOf storage bundle) = some data := by
  have hlocate : locate disk.tree (archivePathOf storage bundle) = some (assetLoc bundle root) := by
    rw [archivePathOf_eq hname]
    apply locate_normal hleads hroot
    intro target htarget
    rw [assetLoc] at hdata
    rw [hdata] at htarget
    cases htarget
  simp only [readFile, stat, hlocate, Option.bind_some, hdata]

/-- Extraction into a directory that is there goes through the entries that the archive's bytes
hold. -/
theorem extracted_run {entries : List (Option Entry)} (hname : NamesFile bundle)
    (hleads : locate disk.tree (storage.bundleDir bundle.walletType) = some root)
    (hroot : disk.tree.get root = some .dir)
    (hdata : disk.tree.get (assetLoc bundle root) = some (.leaf (.file data)))
    (hopens : env.extract.opens = true) (hentries : env.extract.entries data.bytes = some entries) :
    extracted env storage bundle disk =
      entries.forM (extractEntry (storage.bundleDir bundle.walletType)) disk := by
  have hthere : createDirAll env.extract.grants (storage.bundleDir bundle.walletType) disk =
      (.ok (), disk) := ensureDirs_of_isDir (isDir_iff.2 ⟨root, hleads, hroot⟩)
  have hread := readArchive_eq hname hleads hroot hdata
  simp only [extracted, extractTarball, openArchive, Act.run_bind, Act.run_context, hthere, hopens,
    hread, hentries, if_true]

theorem extracted_ok (hname : NamesFile bundle)
    (hleads : locate disk.tree (storage.bundleDir bundle.walletType) = some root)
    (hroot : disk.tree.get root = some .dir)
    (hdata : disk.tree.get (assetLoc bundle root) = some (.leaf (.file data)))
    (h : extracted env storage bundle disk = (.ok (), disk')) :
    env.extract.opens = true ∧ ∃ entries, env.extract.entries data.bytes = some entries := by
  have hthere : createDirAll env.extract.grants (storage.bundleDir bundle.walletType) disk =
      (.ok (), disk) := ensureDirs_of_isDir (isDir_iff.2 ⟨root, hleads, hroot⟩)
  have hread := readArchive_eq hname hleads hroot hdata
  unfold extracted extractTarball at h
  obtain ⟨_, disk₁, hcreated, hrest⟩ := Act.bind_ok h
  obtain ⟨-, rfl⟩ := Prod.mk.inj (hthere.symm.trans (Act.context_ok hcreated))
  obtain ⟨entries, disk₂, hopen, -⟩ := Act.bind_ok hrest
  unfold openArchive at hopen
  cases hopens : env.extract.opens with
  | false =>
    rw [hopens] at hopen
    cases hopen
  | true =>
    rw [hopens, if_pos rfl, hread] at hopen
    dsimp only at hopen
    cases hholds : env.extract.entries data.bytes with
    | none =>
      rw [hholds] at hopen
      cases hopen
    | some entries' => exact ⟨rfl, entries', rfl⟩

theorem cleanedUp_get (hname : NamesFile bundle) (hremoves : env.removes = true)
    (hleads : locate disk.tree (storage.bundleDir bundle.walletType) = some root)
    (hroot : disk.tree.get root = some .dir)
    (hleaf : ∃ leaf, disk.tree.get (assetLoc bundle root) = some (.leaf leaf)) (loc : FsLoc) :
    (cleanedUp env storage bundle disk).tree.get loc =
      if loc = assetLoc bundle root then none else disk.tree.get loc := by
  have hplace : place disk.tree (archivePathOf storage bundle) = some (assetLoc bundle root) := by
    rw [archivePathOf_eq hname]
    exact place_normal hleads hroot
  exact (cleanedUp_removed ⟨hremoves, hplace, hleaf⟩).get loc

/-- The manifest that has been written is read back, and nothing else in the bundle directory
differs. -/
theorem described_read (h : described env storage bundle disk = (.ok (), disk'))
    (hjson : ∀ m bytes, m.buildInfo = none → env.json.toStringPretty m = some bytes →
      env.json.fromSlice bytes = some m)
    (hleads : locate (disk.tree.clear root) (storage.bundleDir bundle.walletType) = some root)
    (hroot : disk.tree.get root = some .dir) (hfree : disk.tree.get (manifestTmpLoc root) = none) :
    (∀ loc, loc ≠ manifestLoc root → disk'.tree.get loc = disk.tree.get loc) ∧
      storage.readManifest env.json disk'.tree bundle.walletType =
        some (newManifest env storage bundle disk.tree) := by
  obtain ⟨hleads₁, -⟩ := leads_of_outside hleads hroot fun _ _ => rfl
  obtain ⟨data, hdata, hget⟩ := described_ok hleads₁ hroot hfree h
  have hsame : ∀ loc, loc ≠ manifestLoc root → disk'.tree.get loc = disk.tree.get loc := by
    intro loc hloc
    rw [hget, if_neg hloc]
    split
    · next heq => rw [heq, hfree]
    · rfl
  refine ⟨hsame, ?_⟩
  have hout : ∀ loc, ¬ Below root loc → disk'.tree.get loc = disk.tree.get loc := fun loc hloc =>
    hsame loc fun heq => hloc (heq ▸ below_cons _)
  obtain ⟨hleads', hroot'⟩ := leads_of_outside hleads hroot hout
  have hmanifest : disk'.tree.get (manifestLoc root) = some (.leaf (.file data)) := by
    rw [hget, if_pos rfl]
  rw [readManifest_eq hleads' hroot' hmanifest]
  exact hjson _ _ rfl hdata

end Extraction

/-! ## The two runs side by side -/

namespace Install

section Opened

variable {storage : BundleStorage} {i : Install} {s : Session} {disk : Disk}

theorem opened_eq (h : createDirAll i.env.grants (i.dir storage) s.disk = (.ok (), disk)) :
    i.opened storage s = disk := by
  rw [opened, h]

/-- The bundle directory has been made, and `root` is where it is. -/
theorem opened_leads (h : createDirAll i.env.grants (i.dir storage) s.disk = (.ok (), disk)) :
    locate disk.tree (i.dir storage) = some (i.root storage s) ∧
      disk.tree.get (i.root storage s) = some .dir := by
  obtain ⟨loc, hlocate, hdir⟩ := isDir_iff.1 (createDirAll_ok h)
  have hroot : i.root storage s = loc := by
    rw [root, opened_eq h, hlocate]
    rfl
  rw [hroot]
  exact ⟨hlocate, hdir⟩

end Opened

/-- What a transfer needs is there in the empty directory too. -/
theorem downloadAsset_emptied {storage : BundleStorage} {i : Install} {s : Session} {disk : Disk}
    {fetched : Session} (hname : NamesFile i.bundle)
    (hopened : locate disk.tree (i.dir storage) = some (i.root storage s))
    (hroot : disk.tree.get (i.root storage s) = some .dir)
    (hleads : locate (i.emptied storage s).disk.tree (i.dir storage) = some (i.root storage s))
    (hroot₀ : (i.emptied storage s).disk.tree.get (i.root storage s) = some .dir)
    (h : downloadAsset i.env.transfer (archivePathOf storage i.bundle) { s with disk := disk } =
      (.ok (), fetched)) :
    ∃ fetched₀, downloadAsset i.env.transfer (archivePathOf storage i.bundle)
      (i.emptied storage s) = (.ok (), fetched₀) := by
  have hnone : ∀ name, (i.emptied storage s).disk.tree.get (name :: i.root storage s) = none := by
    intro name
    rw [emptied, Tree.get_clear, if_pos (below_cons name)]
  have htmp : locate (i.emptied storage s).disk.tree (tmpPath (archivePathOf storage i.bundle)) =
      some (tmpLoc i.bundle (i.root storage s)) := by
    rw [tmpPath_eq hname]
    apply locate_normal hleads hroot₀
    intro target htarget
    rw [hnone] at htarget
    cases htarget
  rcases downloadAsset_cases (s := { s with disk := disk }) i.env.transfer hname hopened hroot with
    ⟨-, _, hfails⟩ | ⟨⟨response, hresponse, hsuccess, hcreates, -⟩, _, -, -,
      ⟨-, _, _, hfails, -⟩ | ⟨htransferred, -⟩⟩
  · rw [h] at hfails
    cases hfails
  · rw [h] at hfails
    cases hfails
  · have hmade : TempMade i.env.transfer (i.emptied storage s).disk
        (archivePathOf storage i.bundle) :=
      ⟨response, hresponse, hsuccess, hcreates, _, htmp, by rw [tmpLoc, hnone]; simp⟩
    have hmoves : Transferred i.env.transfer (i.emptied storage s).disk.tree
        (assetLoc i.bundle (i.root storage s)) :=
      ⟨htransferred.1, htransferred.2.1, htransferred.2.2.1, by rw [assetLoc, hnone]; simp⟩
    rcases downloadAsset_cases i.env.transfer hname hleads hroot₀ with
      ⟨hno, -⟩ | ⟨-, _, -, -, ⟨hno, -⟩ | ⟨-, fetched₀, hok, -⟩⟩
    · exact absurd hmade hno
    · exact absurd hmoves hno
    · exact ⟨fetched₀, hok⟩

/-- An installation and the same into the empty directory, when the archives have been transferred
and the first has been extracted. -/
structure Paired (storage : BundleStorage) (i : Install) (s : Session)
    (fetched fetched₀ unpacked : Disk) : Prop where
  rootDir : (i.opened storage s).tree.get (i.root storage s) = some .dir
  leads : locate ((i.opened storage s).tree.clear (i.root storage s)) (i.dir storage) =
    some (i.root storage s)
  archive : ∃ data data₀ : FileData, data.bytes = data₀.bytes ∧
    fetched.tree.get (assetLoc i.bundle (i.root storage s)) = some (.leaf (.file data)) ∧
    fetched₀.tree.get (assetLoc i.bundle (i.root storage s)) = some (.leaf (.file data₀))
  temporary : fetched.tree.get (tmpLoc i.bundle (i.root storage s)) = none ∧
    fetched₀.tree.get (tmpLoc i.bundle (i.root storage s)) = none
  same : ∀ loc, loc ≠ assetLoc i.bundle (i.root storage s) →
    loc ≠ tmpLoc i.bundle (i.root storage s) →
    fetched.tree.get loc = (i.opened storage s).tree.get loc ∧
      fetched₀.tree.get loc = if Below (i.root storage s) loc then none
        else (i.opened storage s).tree.get loc
  extract : extracted i.env storage i.bundle fetched = (.ok (), unpacked)
  afresh : i.unpackedAfresh storage s = (extracted i.env storage i.bundle fetched₀).2

section Paired

variable {storage : BundleStorage} {i : Install} {s s' : Session}

theorem exists_paired (hname : NamesFile i.bundle)
    (hleads : locate ((i.opened storage s).tree.clear (i.root storage s)) (i.dir storage) =
      some (i.root storage s))
    (hnoLink : ∀ target, (i.opened storage s).tree.get (tmpLoc i.bundle (i.root storage s)) ≠
      some (.leaf (.symlink target)))
    (h : download i.env storage i.bundle s = (.ok (), s')) :
    ∃ fetched fetched₀ unpacked,
      Paired storage i s fetched fetched₀.disk unpacked ∧
      downloadAsset i.env.transfer (archivePathOf storage i.bundle) (i.emptied storage s) =
        (.ok (), fetched₀) ∧
      described i.env storage i.bundle (cleanedUp i.env storage i.bundle unpacked) =
        (.ok (), s'.disk) := by
  obtain ⟨opened, fetched, unpacked, hrun⟩ := download_completes h
  have hopened : i.opened storage s = opened := opened_eq hrun.create
  obtain ⟨hthere, hdir⟩ := opened_leads (i := i) hrun.create
  have hcleared : (i.emptied storage s).disk.tree.get (i.root storage s) = some .dir := by
    rw [emptied, Tree.get_clear, if_neg (not_below_self _), hopened, hdir]
  have hnoLink₀ : ∀ target, (i.emptied storage s).disk.tree.get
      (tmpLoc i.bundle (i.root storage s)) ≠ some (.leaf (.symlink target)) := by
    intro target htarget
    have hbelow : Below (i.root storage s) (tmpLoc i.bundle (i.root storage s)) := below_cons _
    rw [emptied, Tree.get_clear, if_pos hbelow] at htarget
    cases htarget
  obtain ⟨fetched₀, hfetched₀⟩ :=
    downloadAsset_emptied hname hthere hdir hleads hcleared hrun.asset
  rw [hopened] at hnoLink
  obtain ⟨response, hresponse, data, hbytes, -, hget⟩ :=
    downloadAsset_ok (s := { s with disk := opened }) hname hthere hdir hnoLink hrun.asset
  obtain ⟨response₀, hresponse₀, data₀, hbytes₀, -, hget₀⟩ :=
    downloadAsset_ok (s := i.emptied storage s) hname hleads hcleared hnoLink₀ hfetched₀
  obtain rfl : response = response₀ := Option.some.inj (hresponse.symm.trans hresponse₀)
  refine ⟨fetched.disk, fetched₀, unpacked, ?_, hfetched₀, hrun.describe⟩
  refine
    { rootDir := hopened ▸ hdir
      leads := hleads
      archive := ⟨data, data₀, hbytes.trans hbytes₀.symm, ?_, ?_⟩
      temporary := ⟨?_, ?_⟩
      same := ?_
      extract := hrun.extract
      afresh := by rw [unpackedAfresh, hfetched₀] }
  · rw [hget, if_pos rfl]
  · rw [hget₀, if_pos rfl]
  · rw [hget, if_neg assetLoc_ne_tmpLoc.symm, if_pos rfl]
  · rw [hget₀, if_neg assetLoc_ne_tmpLoc.symm, if_pos rfl]
  · intro loc hasset htmp
    rw [hget, if_neg hasset, if_neg htmp, hget₀, if_neg hasset, if_neg htmp, hopened, emptied,
      Tree.get_clear, hopened]
    exact ⟨rfl, rfl⟩

end Paired

/-! ## What the two runs leave -/

section Leaves

variable {storage : BundleStorage} {i : Install} {s : Session} {fetched fetched₀ unpacked : Disk}

theorem assetLoc_below (bundle : RemoteBundle) (root : FsLoc) : Below root (assetLoc bundle root) :=
  below_cons _

theorem tmpLoc_below (bundle : RemoteBundle) (root : FsLoc) : Below root (tmpLoc bundle root) :=
  below_cons _

/-- Outside the bundle directory the transfers change nothing. -/
theorem Paired.outside (p : Paired storage i s fetched fetched₀ unpacked) {loc : FsLoc}
    (hloc : ¬ Below (i.root storage s) loc) :
    fetched.tree.get loc = (i.opened storage s).tree.get loc ∧
      fetched₀.tree.get loc = (i.opened storage s).tree.get loc := by
  have hasset : loc ≠ assetLoc i.bundle (i.root storage s) :=
    fun heq => hloc (heq ▸ assetLoc_below _ _)
  have htmp : loc ≠ tmpLoc i.bundle (i.root storage s) := fun heq => hloc (heq ▸ tmpLoc_below _ _)
  obtain ⟨hsame, hsame₀⟩ := p.same loc hasset htmp
  rw [if_neg hloc] at hsame₀
  exact ⟨hsame, hsame₀⟩

theorem Paired.overlaid (p : Paired storage i s fetched fetched₀ unpacked) :
    Overlaid (assetLoc i.bundle (i.root storage s)) fetched.tree fetched₀.tree := by
  intro loc
  by_cases hasset : loc = assetLoc i.bundle (i.root storage s)
  · obtain ⟨data, data₀, -, hdata, hdata₀⟩ := p.archive
    refine .inr (.inr ⟨hasset, ⟨data, ?_⟩, data₀, ?_⟩)
    · rw [hasset, hdata]
    · rw [hasset, hdata₀]
  · by_cases htmp : loc = tmpLoc i.bundle (i.root storage s)
    · rw [htmp]
      exact .inr (.inl p.temporary.2)
    · obtain ⟨hsame, hsame₀⟩ := p.same loc hasset htmp
      by_cases hloc : Below (i.root storage s) loc
      · rw [if_pos hloc] at hsame₀
        exact .inr (.inl hsame₀)
      · rw [if_neg hloc] at hsame₀
        exact .inl (hsame.trans hsame₀.symm)

/-- What only the first run finds stood in the bundle directory before the transfer, and the archive
has something of the same kind in its place. -/
theorem Paired.brought (p : Paired storage i s fetched fetched₀ unpacked)
    (hfits : i.Fits storage s) :
    Brought fetched.tree fetched₀.tree (i.unpackedAfresh storage s).tree := by
  intro loc node hnode hnone
  have hasset : loc ≠ assetLoc i.bundle (i.root storage s) := by
    rintro rfl
    obtain ⟨_, data₀, -, -, hdata₀⟩ := p.archive
    rw [hdata₀] at hnone
    cases hnone
  have htmp : loc ≠ tmpLoc i.bundle (i.root storage s) := by
    rintro rfl
    rw [p.temporary.1] at hnode
    cases hnode
  obtain ⟨hsame, hsame₀⟩ := p.same loc hasset htmp
  have hloc : Below (i.root storage s) loc := by
    by_contra hloc
    rw [if_neg hloc, ← hsame, hnode, hnone] at hsame₀
    cases hsame₀
  obtain ⟨node', hbrings, hkind⟩ := hfits.kinds loc node hloc (hsame ▸ hnode) hasset htmp
  rw [brings, if_neg hasset] at hbrings
  exact ⟨node', hbrings, hkind⟩

/-- Both runs go through the same entries, and get through them. -/
theorem Paired.same_entries (p : Paired storage i s fetched fetched₀ unpacked)
    (hname : NamesFile i.bundle) (hregular : i.Regular) (hfits : i.Fits storage s) :
    extracted i.env storage i.bundle fetched₀ = (.ok (), i.unpackedAfresh storage s) ∧
    ∃ entries, OverwritesAll entries ∧
      entries.forM (extractEntry (i.dir storage)) fetched = (.ok (), unpacked) ∧
      entries.forM (extractEntry (i.dir storage)) fetched₀ =
        (.ok (), i.unpackedAfresh storage s) := by
  obtain ⟨data, data₀, hbytes, hdata, hdata₀⟩ := p.archive
  obtain ⟨hleads, hroot⟩ := leads_of_outside p.leads p.rootDir fun loc hloc => (p.outside hloc).1
  obtain ⟨hleads₀, hroot₀⟩ := leads_of_outside p.leads p.rootDir fun loc hloc => (p.outside hloc).2
  obtain ⟨hopens, entries, hentries⟩ := extracted_ok hname hleads hroot hdata p.extract
  have hall := hregular.unpack _ _ hentries
  have hrun := (extracted_run hname hleads hroot hdata hopens hentries).symm.trans p.extract
  have hrun₀ := extracted_run hname hleads₀ hroot₀ hdata₀ hopens (hbytes ▸ hentries)
  have hbrought := p.brought hfits
  rw [p.afresh, hrun₀] at hbrought
  obtain ⟨unpacked₀, hok⟩ := extractEntries_ok hall p.overlaid (.start _ _) hbrought hrun
  have hafresh : i.unpackedAfresh storage s = unpacked₀ := by rw [p.afresh, hrun₀, hok]
  rw [hafresh]
  exact ⟨hrun₀.trans hok, entries, hall, hrun, hok⟩

/-- The extracted archive looks the same over what stood there and in the empty directory. -/
theorem Paired.unpacked_eq (p : Paired storage i s fetched fetched₀ unpacked)
    (hname : NamesFile i.bundle) (hregular : i.Regular) (hfits : i.Fits storage s) {loc : FsLoc}
    (hasset : loc ≠ assetLoc i.bundle (i.root storage s)) :
    unpacked.tree.get loc = (i.unpackedAfresh storage s).tree.get loc := by
  obtain ⟨-, entries, hall, hrun, hrun₀⟩ := p.same_entries hname hregular hfits
  have hbrought := p.brought hfits
  have hstep := extractEntries_inStep hall p.overlaid hbrought.compatible (.start _ _) hrun hrun₀
  rcases hstep loc with hsame | ⟨hold, hold₀⟩
  · exact hsame
  · -- the archive has nothing here, so nothing stood here
    rcases p.overlaid loc with hsame | hnone | ⟨heq, -⟩
    · rw [hold, hold₀, hsame]
    · rw [hold, hold₀, hnone]
      cases hnode : fetched.tree.get loc with
      | none => rfl
      | some node =>
        obtain ⟨node', hnode', -⟩ := hbrought loc node hnode hnone
        rw [hold₀, hnone] at hnode'
        cases hnode'
    · exact absurd heq hasset

/-- The archive still stands in the bundle directory. -/
theorem Paired.archived (p : Paired storage i s fetched fetched₀ unpacked)
    (hname : NamesFile i.bundle) (hregular : i.Regular) (hfits : i.Fits storage s) :
    (∃ leaf, unpacked.tree.get (assetLoc i.bundle (i.root storage s)) = some (.leaf leaf)) ∧
      ∃ leaf, (i.unpackedAfresh storage s).tree.get (assetLoc i.bundle (i.root storage s)) =
        some (.leaf leaf) := by
  obtain ⟨-, entries, hall, hrun, hrun₀⟩ := p.same_entries hname hregular hfits
  obtain ⟨data, data₀, -, hdata, hdata₀⟩ := p.archive
  have hkeep := extractEntries_keepsKinds (i.dir storage) hall fetched
  have hkeep₀ := extractEntries_keepsKinds (i.dir storage) hall fetched₀
  rw [hrun] at hkeep
  rw [hrun₀] at hkeep₀
  exact ⟨hkeep.leaf hdata, hkeep₀.leaf hdata₀⟩

/-- The way still leads to the bundle directory. -/
theorem Paired.unpacked_leads (p : Paired storage i s fetched fetched₀ unpacked)
    (hname : NamesFile i.bundle) (hregular : i.Regular) (hfits : i.Fits storage s) :
    (locate unpacked.tree (i.dir storage) = some (i.root storage s) ∧
      unpacked.tree.get (i.root storage s) = some .dir) ∧
      locate (i.unpackedAfresh storage s).tree (i.dir storage) = some (i.root storage s) ∧
      (i.unpackedAfresh storage s).tree.get (i.root storage s) = some .dir := by
  obtain ⟨-, entries, hall, -, hrun₀⟩ := p.same_entries hname hregular hfits
  have hkeep₀ := extractEntries_keepsKinds (i.dir storage) hall fetched₀
  rw [hrun₀] at hkeep₀
  have hroot₀ : (i.unpackedAfresh storage s).tree.get (i.root storage s) = some .dir :=
    hkeep₀.dir ((p.outside (not_below_self _)).2.trans p.rootDir)
  refine ⟨leads_of_outside hfits.stays hroot₀ ?_, leads_of_outside hfits.stays hroot₀ fun _ _ => rfl⟩
  intro loc hloc
  exact p.unpacked_eq hname hregular hfits fun heq => hloc (heq ▸ assetLoc_below _ _)

/-- Without the archive both leave what it brings. -/
theorem Paired.cleaned (p : Paired storage i s fetched fetched₀ unpacked)
    (hname : NamesFile i.bundle) (hregular : i.Regular) (hfits : i.Fits storage s) (loc : FsLoc) :
    (cleanedUp i.env storage i.bundle unpacked).tree.get loc = i.brings storage s loc ∧
      (cleanedUp i.env storage i.bundle (i.unpackedAfresh storage s)).tree.get loc =
        i.brings storage s loc := by
  obtain ⟨⟨hleads, hroot⟩, hleads₀, hroot₀⟩ := p.unpacked_leads hname hregular hfits
  obtain ⟨hleaf, hleaf₀⟩ := p.archived hname hregular hfits
  rw [cleanedUp_get hname hfits.removes hleads hroot hleaf,
    cleanedUp_get hname hfits.removes hleads₀ hroot₀ hleaf₀, brings]
  split
  · exact ⟨rfl, rfl⟩
  · next hasset => exact ⟨p.unpacked_eq hname hregular hfits hasset, rfl⟩

/-- The way leads to the bundle directory wherever the tree holds what the archive brings. -/
theorem Paired.brings_leads (p : Paired storage i s fetched fetched₀ unpacked)
    (hname : NamesFile i.bundle) (hregular : i.Regular) (hfits : i.Fits storage s) {t : FsTree}
    (ht : ∀ loc, t.get loc = i.brings storage s loc) :
    locate (t.clear (i.root storage s)) (i.dir storage) = some (i.root storage s) ∧
      t.get (i.root storage s) = some .dir := by
  obtain ⟨-, -, hroot₀⟩ := p.unpacked_leads hname hregular hfits
  have hout : ∀ loc, ¬ Below (i.root storage s) loc →
      t.get loc = (i.unpackedAfresh storage s).tree.get loc := by
    intro loc hloc
    have hasset : loc ≠ assetLoc i.bundle (i.root storage s) :=
      fun heq => hloc (heq ▸ assetLoc_below _ _)
    rw [ht, brings, if_neg hasset]
  constructor
  · rw [← hfits.stays]
    apply locate_congr
    intro loc
    rw [Tree.get_clear, Tree.get_clear]
    split
    · rfl
    · next hloc => exact hout loc hloc
  · rw [hout _ (not_below_self _), hroot₀]

/-- An installation where everything fits leaves what it would have left in an empty directory. -/
theorem asAfresh_of_fits {s' : Session} (hname : NamesFile i.bundle) (hregular : i.Regular)
    (hfits : i.Fits storage s) (h : download i.env storage i.bundle s = (.ok (), s')) :
    i.AsAfresh storage s s' := by
  obtain ⟨fetched, fetched₀, unpacked, p, hfetched₀, hdescribe⟩ :=
    exists_paired hname hfits.leads hfits.noLink h
  obtain ⟨hextract₀, -⟩ := p.same_entries hname hregular hfits
  have hclean := p.cleaned hname hregular hfits
  have hsame : ∀ loc, _ = _ := fun loc => (hclean loc).2.trans (hclean loc).1.symm
  obtain ⟨hleads, hroot⟩ := p.brings_leads hname hregular hfits fun loc => (hclean loc).1
  obtain ⟨hleads₀, hroot₀⟩ := p.brings_leads hname hregular hfits fun loc => (hclean loc).2
  have hfree := (hclean (manifestTmpLoc _)).1.trans hfits.noTemporary
  have hfree₀ := (hclean (manifestTmpLoc _)).2.trans hfits.noTemporary
  obtain ⟨hfiles, hread⟩ := described_read hdescribe hregular.json hleads hroot hfree
  -- in the emptied directory there is nothing to be made
  have hcreate₀ : createDirAll i.env.grants (i.dir storage) (i.emptied storage s).disk =
      (.ok (), (i.emptied storage s).disk) := by
    refine ensureDirs_of_isDir (isDir_iff.2 ⟨_, hfits.leads, ?_⟩)
    rw [emptied, Tree.get_clear, if_neg (not_below_self _), p.rootDir]
  constructor
  case succeeds =>
    obtain ⟨hthere, -⟩ := leads_of_outside hleads hroot fun _ _ => rfl
    obtain ⟨disk₀', hdescribe₀⟩ :=
      described_again hregular.order hsame hthere hroot hfree hdescribe
    obtain ⟨s₀', hdownload₀⟩ := Completes.download hcreate₀ hfetched₀ hextract₀ hdescribe₀
    exact ⟨s₀', by rw [step, hdownload₀]⟩
  case files =>
    intro loc _ hloc
    rw [hfiles loc hloc, (hclean loc).1]
  case manifest =>
    intro timestamp s₀' h₀
    obtain ⟨_, fetched₁, unpacked₁, hrun₀⟩ := download_completes h₀
    obtain ⟨-, rfl⟩ := Prod.mk.inj (hcreate₀.symm.trans hrun₀.create)
    obtain ⟨-, rfl⟩ := Prod.mk.inj (hfetched₀.symm.trans hrun₀.asset)
    obtain ⟨-, rfl⟩ := Prod.mk.inj (hextract₀.symm.trans hrun₀.extract)
    obtain ⟨-, hread₀⟩ := described_read hrun₀.describe hregular.json hleads₀ hroot₀ hfree₀
    have hmanifest := newManifest_congr i.env storage i.bundle timestamp hregular.order hsame
    exact ⟨_, _, hread, hread₀.trans (congrArg some hmanifest), rfl, rfl, rfl⟩

/-- Whatever else stands in the bundle directory goes on standing there. So an installation can only
leave what it would have left in an empty directory if the archive brings that as well. -/
theorem AsAfresh.brought {s' : Session} {name : OsString} {dir : FsLoc} (hname : NamesFile i.bundle)
    (hafresh : i.AsAfresh storage s s')
    (hleads : locate ((i.opened storage s).tree.clear (i.root storage s)) (i.dir storage) =
      some (i.root storage s))
    (hnoLink : ∀ target, (i.opened storage s).tree.get (tmpLoc i.bundle (i.root storage s)) ≠
      some (.leaf (.symlink target)))
    (h : download i.env storage i.bundle s = (.ok (), s'))
    (hbelow : Below (i.root storage s) (name :: dir))
    (hother : name ∉ [osString i.bundle.assetName, tmpName (osString i.bundle.assetName),
      osString "manifest.json", osString "manifest.json.tmp"])
    (hstood : (i.opened storage s).tree.get (name :: dir) ≠ none) :
    i.brings storage s (name :: dir) ≠ none := by
  simp only [List.mem_cons, List.not_mem_nil, or_false, not_or] at hother
  obtain ⟨hasset, htmp, hmanifest, hmanifestTmp⟩ := hother
  obtain ⟨fetched, _, unpacked, p, -, hdescribe⟩ := exists_paired hname hleads hnoLink h
  obtain ⟨hsame, -⟩ := p.same (name :: dir) (fun heq => hasset (List.cons.inj heq).1)
    fun heq => htmp (List.cons.inj heq).1
  have hunpacked : unpacked.tree.get (name :: dir) ≠ none :=
    (extracted_builds p.extract).there (hsame ▸ hstood)
  have hthere := described_there hdescribe hmanifestTmp (cleanedUp_there hname hasset hunpacked)
  rw [hafresh.files _ hbelow fun heq => hmanifest (List.cons.inj heq).1] at hthere
  exact hthere

/-- In an empty bundle directory everything fits. -/
theorem fits_of_vacant (hvacant : ∀ loc, Below (i.root storage s) loc →
      (i.opened storage s).tree.get loc = none)
    (hopened : locate (i.opened storage s).tree (i.dir storage) = some (i.root storage s))
    (hremoves : i.env.removes = true)
    (htmp : i.brings storage s (manifestTmpLoc (i.root storage s)) = none)
    (hstays : locate ((i.unpackedAfresh storage s).tree.clear (i.root storage s))
      (i.dir storage) = some (i.root storage s)) : i.Fits storage s where
  kinds := by
    intro loc node hloc hnode
    rw [hvacant loc hloc] at hnode
    cases hnode
  noLink := by
    intro target htarget
    rw [hvacant _ (tmpLoc_below _ _)] at htarget
    cases htarget
  removes := hremoves
  noTemporary := htmp
  leads := by
    rw [← hopened]
    apply locate_congr
    intro loc
    rw [Tree.get_clear]
    split
    · next hloc => rw [hvacant loc hloc]
    · rfl
  stays := hstays

end Leaves

end Install

/-! ## Sequences of installations -/

/-- Every installation of the sequence leaves what it would have left in an empty directory. -/
def IndependentOfHistory (storage : BundleStorage) (start : Session) (installs : List Install) :
    Prop :=
  ∀ earlier i, earlier ++ [i] <+: installs → ∀ s s',
    run (Install.step storage) start earlier = some s → i.step storage s = some s' →
      i.AsAfresh storage s s'

theorem Install.step_ok {storage : BundleStorage} {i : Install} {s s' : Session}
    (h : i.step storage s = some s') : download i.env storage i.bundle s = (.ok (), s') := by
  unfold step at h
  split at h
  · next hdownload =>
    cases h
    exact hdownload
  · cases h

/-- Along a sequence whose installations all fit, each leaves what it would have left in an empty
directory. -/
theorem installs_independent (storage : BundleStorage) (start : Session) (installs : List Install)
    (hname : ∀ i ∈ installs, NamesFile i.bundle) (hregular : ∀ i ∈ installs, i.Regular)
    (hguard : Guarded (Install.step storage) (fun s i => i.Fits storage s) start installs) :
    IndependentOfHistory storage start installs := by
  intro earlier i hp s s' hrun hstep
  have hmem : i ∈ installs := hp.subset (List.mem_append_right earlier List.mem_cons_self)
  have hfits := hguard earlier i hp s s' hrun hstep
  exact Install.asAfresh_of_fits (hname i hmem) (hregular i hmem) hfits
    (Install.step_ok hstep)

/-- The emulator that a bundle brings. -/
def program : FileData where
  bytes := [127, 69, 76, 70]
  executable := true

def manifestOf (walletType : WalletType) (emulatorBinary : String) (sizeBytes : UInt64) :
    BundleManifest where
  walletType := walletType
  version := "v2"
  platform := "linux-x86_64"
  installedAt := "2026-02-01T00:00:00Z"
  sizeBytes := sizeBytes
  emulatorBinary := emulatorBinary
  firmwareDir := none
  buildInfo := none

/-- The text of that manifest. -/
def manifestText (walletType emulatorBinary sizeBytes : String) : List UInt8 :=
  (["\x7b\n  \"wallet_type\": \"", walletType, "\",\n  \"version\": \"v2\",\n",
    "  \"platform\": \"linux-x86_64\",\n  \"installed_at\": \"2026-02-01T00:00:00Z\",\n",
    "  \"size_bytes\": ", sizeBytes, ",\n  \"emulator_binary\": \"", emulatorBinary,
    "\",\n  \"firmware_dir\": null,\n  \"build_info\": null\n\x7d"].map osString).flatten

/-- The manifests of the installations below. -/
def manifestTexts : List (BundleManifest × List UInt8) :=
  [(manifestOf .trezor "trezor-emu-core" 4, manifestText "trezor" "trezor-emu-core" "4"),
    (manifestOf .trezor "trezor-emu-core" 233, manifestText "trezor" "trezor-emu-core" "233"),
    (manifestOf .trezor "trezord" 4, manifestText "trezor" "trezord" "4"),
    (manifestOf .trezor "trezord" 6, manifestText "trezor" "trezord" "6"),
    (manifestOf .trezor "trezord" 7, manifestText "trezor" "trezord" "7"),
    (manifestOf .jade "jade-emu" 4, manifestText "jade" "jade-emu" "4")]

def manifestJson : Json where
  toStringPretty := fun m => (manifestTexts.find? (·.1 = m)).map (·.2)
  fromSlice := fun bytes => (manifestTexts.find? (·.2 = bytes)).map (·.1)

/-- The archive holds one program, and the system refuses nothing. -/
def shipping (walletType : WalletType) (name : String) : Install where
  env :=
    { answering ⟨true, "200 OK", some 2, [some ⟨[31, 139], true⟩]⟩ with
      extract :=
        { grants := fun _ => true
          opens := true
          entries := fun _ =>
            some
              [some
                { path := some (osString "bundle/" ++ osString name)
                  isDir := false
                  grants := fun _ => true
                  unpack := fun _ => .wrote (.leaf (.file program)) true }] }
      order := fun names =>
        (["jade-emu", "manifest.json", "trezor-emu-core", "trezord"].map osString).filter
          (· ∈ names)
      json := manifestJson }
  bundle := { trezorBundle with walletType := walletType }

theorem manifestJson_roundTrip (m : BundleManifest) (bytes : List UInt8)
    (h : manifestJson.toStringPretty m = some bytes) : manifestJson.fromSlice bytes = some m := by
  have hall : ∀ entry ∈ manifestTexts, manifestJson.fromSlice entry.2 = some entry.1 := by
    decide +kernel
  obtain ⟨entry, hfind, rfl⟩ := Option.map_eq_some_iff.1 h
  have hm : entry.1 = m := by simpa using List.find?_some hfind
  rw [← hm]
  exact hall entry (List.mem_of_find?_eq_some hfind)

theorem shipping_regular (walletType : WalletType) (name : String) :
    (shipping walletType name).Regular where
  unpack := by
    rintro bytes entries ⟨⟩ entry hmem
    simp only [List.mem_singleton, Option.some.injEq] at hmem
    subst hmem
    exact
      { replaces := fun _ _ _ => rfl
        leaves := by rintro _ _ _ ⟨⟩; simp
        finds := by rintro _ _ ⟨⟩ }
  order := by
    intro names names' hperm
    simp only [shipping, hperm.mem_iff]
  json := fun m bytes _ => manifestJson_roundTrip m bytes

/-- The state that some installations lead to. -/
def after (installs : List Install) : Session :=
  (run (Install.step trezorStorage) nothingInstalled installs).getD nothingInstalled

/-- The program that the manifest names. -/
def namedIn (s : Session) : Option String :=
  (trezorStorage.readManifest manifestJson s.disk.tree .trezor).map (·.emulatorBinary)

theorem run_after (installs : List Install)
    (h : (run (Install.step trezorStorage) nothingInstalled installs).isSome = true) :
    run (Install.step trezorStorage) nothingInstalled installs = some (after installs) := by
  obtain ⟨s, hs⟩ := Option.isSome_iff_exists.1 h
  rw [after, hs, Option.getD_some]

/-- An archive for the Trezor of the program and a `manifest.json`. -/
def complete (data : FileData) : Install :=
  let i := shipping .trezor "trezord"
  let entry (path : String) (data : FileData) : Entry :=
    { path := some (osString path)
      isDir := false
      grants := fun _ => true
      unpack := fun _ => .wrote (.leaf (.file data)) true }
  { i with
    env := { i.env with
      extract := { i.env.extract with
        entries := fun _ => some
          [some (entry "bundle/trezord" data),
            some (entry "bundle/manifest.json" ⟨[123, 125], false⟩)] } } }

/-- A later build of the program. -/
def rebuilt : FileData where
  bytes := [127, 69, 76, 70, 2]
  executable := true

theorem complete_regular (data : FileData) : (complete data).Regular where
  unpack := by
    rintro bytes entries ⟨⟩ entry hmem
    simp only [List.mem_cons, List.not_mem_nil, or_false, Option.some.injEq] at hmem
    rcases hmem with rfl | rfl
    · exact
        { replaces := fun _ _ _ => rfl
          leaves := by rintro _ _ _ ⟨⟩; simp
          finds := by rintro _ _ ⟨⟩ }
    · exact
        { replaces := fun _ _ _ => rfl
          leaves := by rintro _ _ _ ⟨⟩; simp
          finds := by rintro _ _ ⟨⟩ }
  order := (shipping_regular .trezor "trezord").order
  json := (shipping_regular .trezor "trezord").json

/-- The first bundle's program and manifest stand where the second has its own. -/
theorem complete_fits_installed :
    (complete rebuilt).Fits trezorStorage (after [complete program]) where
  kinds := by
    intro loc node hbelow hnode _ _
    have hkeys : ∀ loc ∈ ((complete rebuilt).opened trezorStorage
        (after [complete program])).tree.nodes.keys,
        Below ((complete rebuilt).root trezorStorage (after [complete program])) loc →
        loc = osString "trezord" :: trezorLoc ∨ loc = manifestLoc trezorLoc := by
      decide +kernel
    have hfiles : ∀ loc ∈ [osString "trezord" :: trezorLoc, manifestLoc trezorLoc],
        ((complete rebuilt).opened trezorStorage (after [complete program])).tree.get loc ≠
          some .dir ∧
        (complete rebuilt).brings trezorStorage (after [complete program]) loc ≠ none ∧
        (complete rebuilt).brings trezorStorage (after [complete program]) loc ≠ some .dir := by
      decide +kernel
    have hloc := hkeys loc (Tree.mem_keys.2 (by rw [hnode]; simp)) hbelow
    obtain ⟨hleaf, hbrings, hleaf'⟩ := hfiles loc (by simpa using hloc)
    obtain ⟨node', hnode'⟩ := Option.ne_none_iff_exists'.1 hbrings
    rw [hnode] at hleaf
    rw [hnode'] at hleaf'
    exact ⟨node', hnode', fun h => absurd (congrArg some h) hleaf,
      fun h => absurd (congrArg some h) hleaf'⟩
  noLink := by
    intro target
    have hnone : ((complete rebuilt).opened trezorStorage (after [complete program])).tree.get
        (tmpLoc (complete rebuilt).bundle
          ((complete rebuilt).root trezorStorage (after [complete program]))) = none := by
      decide +kernel
    rw [hnone]
    simp
  removes := rfl
  noTemporary := by decide +kernel
  leads := by decide +kernel
  stays := by decide +kernel

/-- A bundle is installed again in a later build, over what the first installation has left. -/
theorem installs_independent_rebuilt :
    (run (Install.step trezorStorage) nothingInstalled
      [complete program, complete rebuilt]).isSome = true ∧
    (after [complete program]).disk.tree.get (osString "trezord" :: trezorLoc) =
      some (.leaf (.file program)) ∧
    (after [complete program, complete rebuilt]).disk.tree.get (osString "trezord" :: trezorLoc) =
      some (.leaf (.file rebuilt)) ∧
    IndependentOfHistory trezorStorage nothingInstalled [complete program, complete rebuilt] := by
  refine ⟨by decide +kernel, by decide +kernel, by decide +kernel,
    installs_independent _ _ _ ?_ ?_ ?_⟩
  · simp only [List.forall_mem_cons]
    exact ⟨rfl, rfl, by simp⟩
  · simp only [List.forall_mem_cons]
    exact ⟨complete_regular _, complete_regular _, by simp⟩
  · refine .cons ?_ ?_
    · refine Install.fits_of_vacant ?_ (by decide +kernel) rfl (by decide +kernel)
        (by decide +kernel)
      intro loc hloc
      by_contra hthere
      have hvacant : ∀ loc ∈ ((complete program).opened trezorStorage
          nothingInstalled).tree.nodes.keys,
          ¬ Below ((complete program).root trezorStorage nothingInstalled) loc := by
        decide +kernel
      exact hvacant loc (Tree.mem_keys.2 hthere) hloc
    · intro s hs
      have hfirst := run_after [complete program] (by decide +kernel)
      rw [run_cons, hs, Option.bind_some, run_nil] at hfirst
      rw [Option.some.inj hfirst]
      exact .single complete_fits_installed

/-- The program of the bundle before stays, and the manifest names it. -/
theorem not_independentOfHistory_reinstalled :
    (∀ i ∈ [shipping .trezor "trezor-emu-core", shipping .trezor "trezord"],
      NamesFile i.bundle ∧ i.Regular) ∧
    namedIn (after [shipping .trezor "trezord"]) = some "trezord" ∧
    namedIn (after [shipping .trezor "trezor-emu-core", shipping .trezor "trezord"]) =
      some "trezor-emu-core" ∧
    ¬ IndependentOfHistory trezorStorage nothingInstalled
      [shipping .trezor "trezor-emu-core", shipping .trezor "trezord"] := by
  refine ⟨?_, by decide +kernel, by decide +kernel, ?_⟩
  · simp only [List.forall_mem_cons]
    exact ⟨⟨rfl, shipping_regular _ _⟩, ⟨rfl, shipping_regular _ _⟩, by simp⟩
  · intro h
    have hfirst := run_after [shipping .trezor "trezor-emu-core"] (by decide +kernel)
    have hboth := run_after ([shipping .trezor "trezor-emu-core"] ++ [shipping .trezor "trezord"])
      (by decide +kernel)
    obtain ⟨s, hs, hstep⟩ := run_concat_some hboth
    obtain rfl : after [shipping .trezor "trezor-emu-core"] = s :=
      Option.some.inj (hfirst.symm.trans hs)
    have hafresh := h [shipping .trezor "trezor-emu-core"] _ (List.prefix_refl _) _ _ hs hstep
    have hsame := hafresh.files (osString "trezor-emu-core" :: trezorLoc) (by decide +kernel)
      (by decide +kernel)
    exact absurd hsame (by decide +kernel)

end Hwwctl.Bundler
