import Hwwctl.Bundler.Proofs.ArrivalProofs
import Hwwctl.Bundler.Proofs.RenewalProofs
import Hwwctl.Bundler.Proofs.StoreProofs

/-!
# Failed installations

When a failed `download` leaves no trace. The conditions are on what stands on the disk before it,
on what the server sends and on the archive's entries; they are enough whatever stands there, and
where no links are about and the archive brings nothing that is there already they are needed.
-/

namespace Hwwctl.Bundler

open FileTree Io Emulators

/-! ## What a failed attempt owes -/

/-- Something of the wallet's bundle as it is in `tree`. -/
def Installed (storage : BundleStorage) (bundle : RemoteBundle) (tree : FsTree) (loc : FsLoc) :
    Prop :=
  ∃ root, locate tree (storage.bundleDir bundle.walletType) = some root ∧ Below root loc ∧
    tree.get loc ≠ none

/-- Where the archive and the temporary file of the transfer stand, or where a link at the
temporary file's name leads. -/
def DownloadFile (storage : BundleStorage) (bundle : RemoteBundle) (tree : FsTree) (loc : FsLoc) :
    Prop :=
  locate tree (tmpPath (archivePathOf storage bundle)) = some loc ∨
    ∃ root, locate tree (storage.bundleDir bundle.walletType) = some root ∧
      (loc = assetLoc bundle root ∨ loc = tmpLoc bundle root)

/-- An attempt has made `left` of `tree`: the path of the bundle directory leads where it led, what
was installed is there as it was, the status is the same, and at the places of the download nothing
stands but what stood there before. -/
structure Atomic (json : Json) (storage : BundleStorage) (bundle : RemoteBundle)
    (tree left : FsTree) : Prop where
  leads : locate left (storage.bundleDir bundle.walletType) =
    locate tree (storage.bundleDir bundle.walletType)
  same : ∀ loc, Installed storage bundle tree loc → left.get loc = tree.get loc
  status : bundleStatus json storage left bundle.walletType =
    bundleStatus json storage tree bundle.walletType
  cleaned : ∀ loc, DownloadFile storage bundle tree loc →
    left.get loc = none ∨ left.get loc = tree.get loc

/-! ## When a failed attempt leaves no trace -/

section Conditions

variable (env : DownloadEnv) (storage : BundleStorage) (bundle : RemoteBundle) (tree : FsTree)
  (root : FsLoc)

/-- The bundle directory is at `root`, or it is made there. -/
def Opens : Prop :=
  locate tree (storage.bundleDir bundle.walletType) = some root ∧
    (tree.get root = some .dir ∨
      place tree (storage.bundleDir bundle.walletType) = some root ∧ tree.get root = none ∧
        env.grants (storage.bundleDir bundle.walletType) = true)

/-- The request succeeds, and the temporary file can be made. -/
def Begins : Prop :=
  (∃ response, env.transfer.response = some response ∧ response.success = true) ∧
    env.transfer.creates = true ∧
    (tree.get (tmpLoc bundle root) = none ∨
      ∃ loc, locate tree (tmpPath (archivePathOf storage bundle)) = some loc ∧
        tree.get loc ≠ some .dir)

/-- Neither something that was there nor a name that the transfer or the manifest needs. -/
def Untaken (loc : FsLoc) : Prop :=
  transferred env bundle tree root loc = none ∧
    loc ∉ [tmpLoc bundle root, manifestLoc root, manifestTmpLoc root]

/-- The archive that the server sends can be read to its end. -/
def Whole : Prop :=
  env.extract.opens = true ∧ ∃ response entries, env.transfer.response = some response ∧
    env.extract.entries (body response.stream) = some entries ∧ none ∉ entries

/-- From the finished transfer on: the archive can be removed; what its entries make or write, in
the tree with the archive in it, is at untaken places; a link at `manifest.json` leads to something;
and if it comes to the temporary manifest, either it cannot be made or its place is free. -/
structure InstallsCleanly : Prop where
  removes : env.removes = true
  entries : ∀ disk, disk.tree.get = transferred env bundle tree root →
    ConfinedFrom (Untaken env bundle tree root) (storage.bundleDir bundle.walletType) disk
      (archiveEntries env.extract (archivePathOf storage bundle) disk.tree)
  link : ∀ target, tree.get (manifestLoc root) = some (.leaf (.symlink target)) →
    stat tree (storage.manifestPath bundle.walletType) ≠ none
  manifest : Whole env → env.manifest.creates = true →
    tree.get (manifestTmpLoc root) = some .dir ∨
      tree.get (manifestTmpLoc root) = none ∧ manifestTmpLoc root ≠ assetLoc bundle root

/-- No file or link is removed where no temporary file has been made; one that has been left behind
is only removed if its name is a link to the archive's free place; and the archive and the temporary
file come to stand at free places. -/
structure LeavesNoTrace : Prop where
  refused : ¬ Begins env storage bundle tree root → env.removes = true →
    ∀ leaf, tree.get (assetLoc bundle root) ≠ some (.leaf leaf)
  aborted : Begins env storage bundle tree root →
    ¬ Transferred env.transfer tree (assetLoc bundle root) →
      env.removes = true ∧
        locate tree (tmpPath (archivePathOf storage bundle)) = some (assetLoc bundle root) ∧
        tree.get (assetLoc bundle root) = none
  transferred : Begins env storage bundle tree root →
    Transferred env.transfer tree (assetLoc bundle root) →
      tree.get (assetLoc bundle root) = none ∧ tree.get (tmpLoc bundle root) = none ∧
        InstallsCleanly env storage bundle tree root

/-- A bundle directory that cannot be made is no trouble. -/
def FailsCleanly : Prop :=
  ∀ root, Opens env storage bundle tree root → LeavesNoTrace env storage bundle tree root

end Conditions

/-! ## The bundle directory -/

/-- The bundle directory is there, and nothing else has changed from `tree`. -/
structure Ready (env : DownloadEnv) (storage : BundleStorage) (bundle : RemoteBundle)
    (tree : FsTree) (disk : Disk) (root : FsLoc) : Prop where
  opens : Opens env storage bundle tree root
  leads : locate disk.tree (storage.bundleDir bundle.walletType) = some root
  get : ∀ l, disk.tree.get l = if l = root then some .dir else tree.get l

section BundleDir

variable {env : DownloadEnv} {storage : BundleStorage} {bundle : RemoteBundle} {tree : FsTree}
  {disk : Disk} {root : FsLoc}

theorem Opens.unique {root' : FsLoc} (h : Opens env storage bundle tree root)
    (h' : Opens env storage bundle tree root') : root' = root :=
  Option.some.inj (h'.1.symm.trans h.1)

theorem Ready.dir (h : Ready env storage bundle tree disk root) :
    disk.tree.get root = some .dir := by
  rw [h.get, if_pos rfl]

/-- Below the bundle directory, nothing has changed. -/
theorem Ready.get_name (h : Ready env storage bundle tree disk root) (name : OsString) :
    disk.tree.get (name :: root) = tree.get (name :: root) := by
  rw [h.get, if_neg]
  simp

/-- It has been there, or nothing is below it. -/
theorem Ready.before (h : Ready env storage bundle tree disk root) :
    (∀ l, disk.tree.get l = tree.get l) ∨ tree.get root = none := by
  rcases h.opens.2 with hdir | ⟨-, hnone, -⟩
  · refine .inl fun l => ?_
    rw [h.get]
    split
    · next heq => rw [heq, hdir]
    · rfl
  · exact .inr hnone

theorem Ready.there (h : Ready env storage bundle tree disk root) {l : FsLoc} {node : FsNode}
    (hthere : tree.get l = some node) : disk.tree.get l = some node := by
  rcases h.before with hsame | hnone
  · rw [hsame, hthere]
  · rw [h.get, if_neg, hthere]
    rintro rfl
    rw [hnone] at hthere
    cases hthere

/-- The path leads to the bundle directory as long as what has been there is kept. -/
theorem Ready.leads_of (h : Ready env storage bundle tree disk root) {left : FsTree}
    (hkeep : ∀ l node, disk.tree.get l = some node → left.get l = some node) :
    locate left (storage.bundleDir bundle.walletType) = some root ∧ left.get root = some .dir :=
  ⟨locate_retained (fun l node hl _ => hkeep l node hl) h.dir h.leads, hkeep root .dir h.dir⟩

end BundleDir

/-! ## The conditions are enough -/

section Enough

variable {env : DownloadEnv} {storage : BundleStorage} {bundle : RemoteBundle}
  {tree left : FsTree} {disk : Disk} {root : FsLoc}

theorem Ready.place_asset (hname : NamesFile bundle) (h : Ready env storage bundle tree disk root)
    {left : FsTree} (hkeep : ∀ l node, disk.tree.get l = some node → left.get l = some node) :
    place left (archivePathOf storage bundle) = some (assetLoc bundle root) := by
  obtain ⟨hleads, hdir⟩ := h.leads_of hkeep
  rw [archivePathOf_eq hname]
  exact place_normal hleads hdir

theorem Ready.fetched_get (hname : NamesFile bundle) (h : Ready env storage bundle tree disk root)
    (htmp : tree.get (tmpLoc bundle root) = none) {sent : List BundleStatus} {s₁ : Session}
    (hasset : downloadAsset env.transfer (archivePathOf storage bundle) ⟨disk, sent⟩ =
      (.ok (), s₁)) :
    s₁.disk.tree.get = transferred env bundle tree root ∧
      ∃ response data, env.transfer.response = some response ∧ data.bytes = body response.stream ∧
        s₁.disk.tree.get (assetLoc bundle root) = some (.leaf (.file data)) :=
  Bundler.fetched_get (s := ⟨disk, sent⟩) hname h.leads h.get (by rw [htmp]; simp) hasset

theorem Ready.transferred_there (h : Ready env storage bundle tree disk root)
    (hasset : tree.get (assetLoc bundle root) = none) (htmp : tree.get (tmpLoc bundle root) = none)
    {l : FsLoc} {node : FsNode} (hl : disk.tree.get l = some node) :
    l ≠ assetLoc bundle root ∧ transferred env bundle tree root l = some node := by
  have hne : ∀ name, tree.get (name :: root) = none → l ≠ name :: root := by
    rintro name hnone rfl
    rw [h.get_name, hnone] at hl
    cases hl
  have hneAsset : l ≠ assetLoc bundle root := hne _ hasset
  have hneTmp : l ≠ tmpLoc bundle root := hne _ htmp
  rw [transferred, if_neg hneAsset, if_neg hneTmp, ← h.get]
  exact ⟨hneAsset, hl⟩

theorem not_untaken {l : FsLoc} {node : FsNode}
    (hl : transferred env bundle tree root l = some node) : ¬ Untaken env bundle tree root l := by
  rintro ⟨hnone, -⟩
  rw [hl] at hnone
  cases hnone

/-- Extraction has only come to untaken places. -/
theorem InstallsCleanly.extracted_get (h : InstallsCleanly env storage bundle tree root)
    {disk₁ disk₂ : Disk} (hlook : disk₁.tree.get = transferred env bundle tree root)
    (hdir : isDir disk₁.tree (storage.bundleDir bundle.walletType) = true)
    {r : Except String Unit} (hextract : extracted env storage bundle disk₁ = (r, disk₂))
    {l : FsLoc} (hl : ¬ Untaken env bundle tree root l) :
    disk₂.tree.get l = transferred env bundle tree root l := by
  have htouches : Touches (Untaken env bundle tree root) disk₁
      (extracted env storage bundle disk₁).2 :=
    (extractTarball_touches_iff _ env.extract (archivePathOf storage bundle) hdir).2
      (h.entries disk₁ hlook)
  rw [hextract] at htouches
  obtain ⟨made, hbuilt⟩ := extracted_builds hextract
  rw [hbuilt.same l fun hmade => hl (htouches made hbuilt.touched l hmade), hlook]

theorem none_notMem_of_ok {entries : List (Option Entry)} {dest : FilePath} {disk' : Disk}
    (h : entries.forM (extractEntry dest) disk = (.ok (), disk')) : none ∉ entries := by
  induction entries generalizing disk with
  | nil => simp
  | cons entry entries ih =>
    obtain ⟨_, disk₁, hfirst, hrest⟩ := Act.bind_ok h
    rw [List.mem_cons, not_or]
    refine ⟨?_, ih hrest⟩
    rintro rfl
    cases hfirst

/-- What extraction and the removal of the archive have made of the disk. -/
theorem Ready.cleanedUp_get (hname : NamesFile bundle) (h : Ready env storage bundle tree disk root)
    (hclean : InstallsCleanly env storage bundle tree root)
    (hasset : tree.get (assetLoc bundle root) = none) (htmp : tree.get (tmpLoc bundle root) = none)
    {disk₁ disk₂ : Disk} (hlook : disk₁.tree.get = transferred env bundle tree root)
    {r : Except String Unit} (hextract : extracted env storage bundle disk₁ = (r, disk₂))
    (l : FsLoc) (hl : ¬ Untaken env bundle tree root l) :
    (cleanedUp env storage bundle disk₂).tree.get l =
      if l = assetLoc bundle root then none else transferred env bundle tree root l := by
  have hthere : ∀ l node, disk.tree.get l = some node →
      transferred env bundle tree root l = some node :=
    fun l node hl => (h.transferred_there hasset htmp hl).2
  have hdir : isDir disk₁.tree (storage.bundleDir bundle.walletType) = true := by
    rw [← hlook] at hthere
    exact isDir_iff.2 ⟨root, h.leads_of hthere⟩
  have hget : ∀ {l}, ¬ Untaken env bundle tree root l →
      disk₂.tree.get l = transferred env bundle tree root l :=
    hclean.extracted_get hlook hdir hextract
  have hplace : place disk₂.tree (archivePathOf storage bundle) = some (assetLoc bundle root) := by
    refine h.place_asset hname fun l node hl => ?_
    rw [hget (not_untaken (hthere l node hl)), hthere l node hl]
  have harchive : ∃ leaf, transferred env bundle tree root (assetLoc bundle root) =
      some (.leaf leaf) := ⟨_, if_pos rfl⟩
  obtain ⟨leaf, hleaf⟩ := harchive
  have hremoved : Removed disk₂ (cleanedUp env storage bundle disk₂) (assetLoc bundle root) :=
    cleanedUp_removed ⟨hclean.removes, hplace, leaf, by rw [hget (not_untaken hleaf), hleaf]⟩
  rw [hremoved.get, hget hl]

/-- The archive could be read to its end. -/
theorem Ready.whole (hname : NamesFile bundle) (h : Ready env storage bundle tree disk root)
    {disk₁ disk₂ : Disk} {response : Response} {data : FileData}
    (hkeep : ∀ l node, disk.tree.get l = some node → disk₁.tree.get l = some node)
    (hresponse : env.transfer.response = some response) (hbytes : data.bytes = body response.stream)
    (hdata : disk₁.tree.get (assetLoc bundle root) = some (.leaf (.file data)))
    (hextract : extracted env storage bundle disk₁ = (.ok (), disk₂)) : Whole env := by
  obtain ⟨hleads, hdir⟩ := h.leads_of hkeep
  obtain ⟨hopens, entries, hentries⟩ := extracted_ok hname hleads hdir hdata hextract
  rw [extracted_run hname hleads hdir hdata hopens hentries] at hextract
  rw [hbytes] at hentries
  exact ⟨hopens, response, entries, hresponse, hentries, none_notMem_of_ok hextract⟩

end Enough

/-! ## Where they are needed -/

/-- A name that an ordinary archive may have something under. -/
def MayBring (bundle : RemoteBundle) (tree : FsTree) (root : FsLoc) (first : OsString) : Prop :=
  first ≠ osString bundle.assetName ∧ first ≠ osString "manifest.json.tmp" ∧
    (first = osString "manifest.json" → tree.get (manifestLoc root) ≠ none)

/-- In the bundle directory there are no links, and what a download puts there has other names than
what is there. The archive's entries go by plain paths to names that they may have, a manifest only
where there is one, and none is unpacked to what is there in its place already. -/
structure Ordinary (env : DownloadEnv) (storage : BundleStorage) (bundle : RemoteBundle)
    (tree : FsTree) (root : FsLoc) : Prop where
  leads : Leads tree (storage.bundleDir bundle.walletType) root ∨
    ∃ base, Leads tree storage.baseDir base ∧
      root = osString (walletDirName bundle.walletType) :: base
  linkFree : LinkFree tree root
  asset : tree.get (assetLoc bundle root) = none
  tmp : tree.get (tmpLoc bundle root) = none
  manifestTmp : tree.get (manifestTmpLoc root) = none
  name : assetLoc bundle root ≠ manifestTmpLoc root
  tame : ∀ e ∈ env.archive, Tame (MayBring bundle tree root) e
  fresh : ∀ e ∈ env.archive,
    Freshens (fun l node => transferred env bundle tree root l ≠ some node) root e

section Needed

variable {env : DownloadEnv} {storage : BundleStorage} {bundle : RemoteBundle}
  {tree left : FsTree} {disk disk₁ disk₂ : Disk} {root : FsLoc}

theorem Ordinary.isSealed (h : Ordinary env storage bundle tree root)
    (hlook : disk.tree.get = transferred env bundle tree root) :
    Sealed disk.tree (storage.bundleDir bundle.walletType) root where
  leads := by
    have hdir : disk.tree.get root = some .dir := by
      have hneAsset : root ≠ assetLoc bundle root := by simp [assetLoc]
      have hneTmp : root ≠ tmpLoc bundle root := by simp [tmpLoc]
      rw [hlook, transferred, if_neg hneAsset, if_neg hneTmp, if_pos rfl]
    have houtside : ∀ l, ¬ Below root l → l ≠ root → disk.tree.get l = tree.get l := by
      intro l hl hne
      rw [hlook, transferred, if_neg, if_neg, if_neg hne]
      · rintro rfl
        exact hl (below_cons _)
      · rintro rfl
        exact hl (below_cons _)
    rcases h.leads with hleads | ⟨base, hbase, rfl⟩
    · refine hleads.of_outside fun l hl => ?_
      by_cases heq : l = root
      · rw [heq, hdir, hleads.dir]
      · exact houtside l hl heq
    · have hbase' : Leads disk.tree storage.baseDir base := by
        refine hbase.of_outside fun l hl => houtside l ?_ ?_
        · exact fun hbelow => hl (below_of_suffix hbelow.1)
        · rintro rfl
          exact hl (below_cons _)
      exact hbase'.down hdir
  linkFree := by
    intro l target hl hlink
    rw [hlook, transferred] at hlink
    split at hlink
    · cases hlink
    · split at hlink
      · cases hlink
      · split at hlink
        · cases hlink
        · exact h.linkFree l target hl hlink

theorem mem_archive (hname : NamesFile bundle)
    (hsealed : Sealed disk.tree (storage.bundleDir bundle.walletType) root)
    (hlook : disk.tree.get = transferred env bundle tree root) {e : Entry}
    (he : some e ∈ archiveEntries env.extract (archivePathOf storage bundle) disk.tree) :
    e ∈ env.archive := by
  have hasset : disk.tree.get (assetLoc bundle root) = some (.leaf (.file
      { emptied (tree.get (tmpLoc bundle root)) with
        bytes := (env.transfer.response.map fun response => body response.stream).getD [] })) := by
    rw [hlook, transferred, if_pos rfl]
  rw [archiveEntries, readArchive_eq hname hsealed.leads.locate hsealed.leads.dir hasset] at he
  rw [DownloadEnv.archive, List.reduceOption_mem_iff]
  split at he
  · exact he
  · cases he

section Extracted

variable (hname : NamesFile bundle) (h : Ordinary env storage bundle tree root)
  (hlook : disk.tree.get = transferred env bundle tree root)
include hname h hlook

/-- Extraction goes through the entries of an ordinary archive. -/
theorem Ordinary.extracted_run : ∃ entries : List (Option Entry),
    (∀ e, some e ∈ entries → e ∈ env.archive) ∧ (extracted env storage bundle disk).2 =
      (entries.forM (extractEntry (storage.bundleDir bundle.walletType)) disk).2 := by
  have hsealed := h.isSealed hlook
  have hdir := isDir_iff.2 ⟨root, hsealed.leads.locate, hsealed.leads.dir⟩
  exact ⟨archiveEntries env.extract (archivePathOf storage bundle) disk.tree,
    fun e he => mem_archive hname hsealed hlook he, extractTarball_disk _ _ hdir⟩

end Extracted

end Needed

def delivered : Response where
  success := true
  status := "200 OK"
  contentLength := some 1
  stream := [some ⟨[31], true⟩]

end Hwwctl.Bundler
