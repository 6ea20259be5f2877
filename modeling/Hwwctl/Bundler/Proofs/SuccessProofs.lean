import Hwwctl.Bundler.Contents
import Hwwctl.Bundler.Proofs.InstallProofs

/-!
# Successful installations

What each step of a `download` that succeeds has done to the tree: the archive comes to stand in the
bundle directory with the bytes that were sent, it is removed, and the manifest is put in place.
-/

namespace Hwwctl.Bundler

open FileTree Io Emulators

/-! ## The steps -/

section Steps

variable {env : DownloadEnv} {storage : BundleStorage} {bundle : RemoteBundle} {s s' : Session}

/-- The runs that a successful `download` is made of. -/
structure Completes (env : DownloadEnv) (storage : BundleStorage) (bundle : RemoteBundle)
    (s s' : Session) (opened : Disk) (fetched : Session) (unpacked : Disk) : Prop where
  create : createDirAll env.grants (storage.bundleDir bundle.walletType) s.disk = (.ok (), opened)
  asset : downloadAsset env.transfer (archivePathOf storage bundle) { s with disk := opened } =
    (.ok (), fetched)
  extract : extracted env storage bundle fetched.disk = (.ok (), unpacked)
  describe : described env storage bundle (cleanedUp env storage bundle unpacked) =
    (.ok (), s'.disk)

theorem download_completes (h : download env storage bundle s = (.ok (), s')) :
    ∃ opened fetched unpacked, Completes env storage bundle s s' opened fetched unpacked := by
  obtain ⟨_, s₀, hcreate, h⟩ := Act.bind_ok h
  obtain ⟨disk₀, hmade, rfl⟩ := onDisk_cases (Act.context_ok hcreate)
  obtain ⟨_, s₁, hasset, h⟩ := Act.bind_ok h
  rcases Act.handle_cases hasset with ⟨_, hasset, _⟩ | ⟨_, _, _, hgive⟩
  swap
  · exact absurd rfl (giveUp_disk hgive).1
  obtain ⟨_, _, hsend, h⟩ := Act.bind_ok h
  cases hsend
  obtain ⟨_, s₂, hextract, h⟩ := Act.bind_ok h
  rcases Act.handle_cases hextract with ⟨_, hextract, _⟩ | ⟨_, _, _, hgive⟩
  swap
  · exact absurd rfl (giveUp_disk hgive).1
  obtain ⟨disk₂, hunpacked, rfl⟩ := onDisk_cases hextract
  obtain ⟨_, _, hremove, h⟩ := Act.bind_ok h
  cases hremove
  obtain ⟨_, s₃, hdescribe, hsent⟩ := Act.bind_ok h
  rcases Act.handle_cases hdescribe with ⟨_, hdescribe, _⟩ | ⟨_, _, _, hgive⟩
  · obtain ⟨disk₄, hwritten, rfl⟩ := onDisk_cases hdescribe
    cases hsent
    exact ⟨disk₀, s₁, disk₂, hmade, hasset, hunpacked, hwritten⟩
  · cases hgive

/-- Such runs make up a successful `download`. -/
theorem Completes.download {opened unpacked disk : Disk} {fetched : Session}
    (hcreate : createDirAll env.grants (storage.bundleDir bundle.walletType) s.disk =
      (.ok (), opened))
    (hasset : downloadAsset env.transfer (archivePathOf storage bundle) { s with disk := opened } =
      (.ok (), fetched))
    (hextract : extracted env storage bundle fetched.disk = (.ok (), unpacked))
    (hdescribe : described env storage bundle (cleanedUp env storage bundle unpacked) =
      (.ok (), disk)) :
    ∃ s', Bundler.download env storage bundle s = (.ok (), s') := by
  unfold extracted at hextract
  unfold described cleanedUp at hdescribe
  simp only [Bundler.download, registerBundle, removeArchive, send, Act.run_bind, Act.run_context,
    Act.handle, Act.ignore, onDisk_run, hcreate, hasset, hextract, hdescribe]
  exact ⟨_, rfl⟩

end Steps

/-! ## Files -/

section Files

variable {disk disk' : Disk} {loc a b : FsLoc} {path source target : FilePath}

theorem createFile_ok {granted : Bool} (h : createFile granted path disk = (.ok loc, disk')) :
    locate disk.tree path = some loc ∧ disk.tree.get loc ≠ some .dir ∧
      Written disk disk' loc [] := by
  unfold createFile at h
  split at h
  · cases h
  · next loc' hlocate =>
    cases granted with
    | false => cases h
    | true =>
      simp only [if_true] at h
      split at h
      · cases h
      · next tree hput =>
        cases h
        exact ⟨hlocate, Tree.not_dir_of_put hput, written_put hput⟩

theorem writeAll_ok {granted : Bool} {base : Disk} {bytes more : List UInt8}
    (h : Written base disk loc bytes) (hrun : writeAll granted loc more disk = (.ok (), disk')) :
    Written base disk' loc (bytes ++ more) := by
  cases granted with
  | false =>
    rw [writeAll_refused] at hrun
    cases hrun
  | true =>
    obtain ⟨data, hdata, rfl⟩ := h.data
    obtain ⟨disk'', hwrite, hfull⟩ := writeAll_saved more hdata
    obtain ⟨-, rfl⟩ := Prod.mk.inj (hwrite.symm.trans hrun)
    exact h.trans hfull

theorem rename_ok {granted : Bool} (hsource : place disk.tree source = some a)
    (htarget : place disk.tree target = some b)
    (h : rename granted source target disk = (.ok (), disk')) :
    ∃ leaf, disk.tree.get a = some (.leaf leaf) ∧ ∀ l, disk'.tree.get l =
      if l = b then some (.leaf leaf) else if l = a then none else disk.tree.get l := by
  simp only [rename, hsource, htarget] at h
  split at h
  · next leaf hleaf =>
    refine ⟨leaf, hleaf, ?_⟩
    cases granted with
    | false => cases h
    | true =>
      cases hdrop : disk.tree.drop a with
      | none =>
        rw [hdrop] at h
        cases h
      | some tree₁ =>
        cases hput : tree₁.put b (.leaf leaf) with
        | none =>
          rw [hdrop] at h
          simp only [Option.bind_some, hput, if_true, change] at h
          cases h
        | some tree₂ =>
          rw [hdrop] at h
          simp only [Option.bind_some, hput, if_true, change] at h
          cases h
          intro l
          show tree₂.get l = _
          rw [Tree.get_put hput, Tree.get_drop hdrop]
  · cases h

theorem rename_places {granted : Bool} (h : rename granted source target disk = (.ok (), disk')) :
    ∃ a b, place disk.tree source = some a ∧ place disk.tree target = some b := by
  unfold rename at h
  split at h
  · next a b hsource htarget => exact ⟨a, b, hsource, htarget⟩
  · cases h

theorem createFile_granted {granted : Bool} (h : createFile granted path disk = (.ok loc, disk')) :
    granted = true := by
  by_contra hno
  rw [createFile_refused fun hyes => absurd hyes hno] at h
  cases h

theorem writeAll_granted {granted : Bool} {bytes : List UInt8}
    (h : writeAll granted loc bytes disk = (.ok (), disk')) : granted = true := by
  cases granted with
  | false =>
    rw [writeAll_refused] at h
    cases h
  | true => rfl

/-- A file that is created over another one keeps its mode, also when it is written to. -/
theorem createFile_executable {granted : Bool}
    (h : createFile granted path disk = (.ok loc, disk')) :
    emptied (disk'.tree.get loc) = emptied (disk.tree.get loc) := by
  have hgranted := createFile_granted h
  subst hgranted
  unfold createFile at h
  split at h
  · cases h
  · simp only [if_true] at h
    split at h
    · cases h
    · next tree hput =>
      cases h
      show emptied (tree.get loc) = _
      rw [Tree.get_put hput, if_pos rfl]
      rfl

theorem writeAll_executable {granted : Bool} {bytes : List UInt8}
    (h : writeAll granted loc bytes disk = (.ok (), disk')) :
    emptied (disk'.tree.get loc) = emptied (disk.tree.get loc) := by
  unfold writeAll at h
  split at h
  · next data hdata =>
    cases granted with
    | false => cases h
    | true =>
      simp only [if_true] at h
      cases hput : disk.tree.put loc
          (.leaf (.file { data with bytes := data.bytes ++ bytes })) with
      | none =>
        rw [hput] at h
        cases h
      | some tree =>
        rw [hput] at h
        cases h
        show emptied (tree.get loc) = _
        rw [Tree.get_put hput, if_pos rfl, hdata]
        rfl
  · cases h

theorem rename_granted {granted : Bool} (hsource : place disk.tree source = some a)
    (htarget : place disk.tree target = some b) (hne : b ≠ a)
    (h : rename granted source target disk = (.ok (), disk')) :
    granted = true ∧ disk.tree.get b ≠ some .dir := by
  by_contra hno
  have hrefused : granted = true → disk.tree.get b = some .dir := by
    intro hgranted
    by_contra hfree
    exact hno ⟨hgranted, hfree⟩
  rw [rename_refused hsource htarget hne hrefused] at h
  cases h

/-- A file that is written at a name where no link stands, and the way to its directory. -/
theorem Written.leads {bytes : List UInt8} {dir : FilePath} {root : FsLoc}
    (h : Written disk disk' loc bytes) (hlocate : locate disk.tree path = some loc)
    (hfree : disk.tree.get loc ≠ some .dir) (hleads : locate disk.tree dir = some root)
    (hroot : disk.tree.get root = some .dir) :
    locate disk'.tree dir = some root ∧ disk'.tree.get root = some .dir := by
  have hretains := h.fileAt.retains (locate_ends hlocate) hfree
  exact ⟨locate_retained hretains hroot hleads, hretains root .dir hroot (by simp)⟩

end Files

/-! ## The transfer -/

section Transfer

variable {transfer : TransferEnv} {storage : BundleStorage} {bundle : RemoteBundle}
  {s s' : Session} {root file : FsLoc}

theorem receive_ok {base : Disk} {bytes : List UInt8} {totalBytes : Option UInt64}
    {downloaded : UInt64} {stream : List (Option Chunk)} (h : Written base s.disk file bytes)
    (hrun : receive totalBytes file downloaded stream s = (.ok (), s')) :
    Written base s'.disk file (bytes ++ body stream) := by
  induction stream generalizing downloaded s bytes with
  | nil =>
    cases hrun
    rw [body, List.filterMap_nil, List.flatMap_nil, List.append_nil]
    exact h
  | cons item stream ih =>
    cases item with
    | none => cases hrun
    | some chunk =>
      have hbody : body (some chunk :: stream) = chunk.bytes ++ body stream := rfl
      obtain ⟨_, s₁, hsave, hrest⟩ := Act.bind_ok hrun
      obtain ⟨disk₁, hwrite, rfl⟩ := onDisk_cases (Act.context_ok hsave)
      obtain ⟨_, s₂, hsend, hrest⟩ := Act.bind_ok hrest
      cases hsend
      rw [hbody, ← List.append_assoc]
      exact ih (writeAll_ok h hwrite) hrest

theorem receive_executable {totalBytes : Option UInt64} {downloaded : UInt64}
    {stream : List (Option Chunk)}
    (h : receive totalBytes file downloaded stream s = (.ok (), s')) :
    emptied (s'.disk.tree.get file) = emptied (s.disk.tree.get file) := by
  induction stream generalizing downloaded s with
  | nil =>
    cases h
    rfl
  | cons item stream ih =>
    cases item with
    | none => cases h
    | some chunk =>
      obtain ⟨_, s₁, hsave, hrest⟩ := Act.bind_ok h
      obtain ⟨disk₁, hwrite, rfl⟩ := onDisk_cases (Act.context_ok hsave)
      obtain ⟨_, s₂, hsend, hrest⟩ := Act.bind_ok hrest
      cases hsend
      exact (ih hrest).trans (writeAll_executable hwrite)

/-- The archive stands in the bundle directory with what has been sent and the mode of the temporary
file, and nothing else differs from the tree before, but for the temporary file. -/
theorem saveResponse_ok (hname : NamesFile bundle) {response : Response}
    (hleads : locate s.disk.tree (storage.bundleDir bundle.walletType) = some root)
    (hroot : s.disk.tree.get root = some .dir)
    (hnoLink : ∀ target, s.disk.tree.get (tmpLoc bundle root) ≠ some (.leaf (.symlink target)))
    (h : saveResponse transfer response (archivePathOf storage bundle) s = (.ok (), s')) :
    ∃ data : FileData, data.bytes = body response.stream ∧
      data.executable = (emptied (s.disk.tree.get (tmpLoc bundle root))).executable ∧
      ∀ loc, s'.disk.tree.get loc =
        if loc = assetLoc bundle root then some (.leaf (.file data))
        else if loc = tmpLoc bundle root then none else s.disk.tree.get loc := by
  obtain ⟨file, s₁, hcreated, hrest⟩ := Act.bind_ok h
  obtain ⟨disk₁, hcreate, rfl⟩ := onDisk_cases (Act.context_ok hcreated)
  obtain ⟨_, s₂, hreceive, hmove⟩ := Act.bind_ok hrest
  obtain ⟨hlocate, hfree, hempty⟩ := createFile_ok hcreate
  have hwritten := receive_ok (s := { s with disk := disk₁ }) hempty hreceive
  have htmp : locate s.disk.tree (tmpPath (archivePathOf storage bundle)) =
      some (tmpLoc bundle root) := by
    rw [tmpPath_eq hname]
    exact locate_normal hleads hroot hnoLink
  obtain rfl : tmpLoc bundle root = file := Option.some.inj (htmp.symm.trans hlocate)
  obtain ⟨hleads', hroot'⟩ := hwritten.leads hlocate hfree hleads hroot
  cases hflushes : transfer.flushes with
  | false =>
    rw [hflushes] at hmove
    cases hmove
  | true =>
    rw [hflushes, if_pos rfl] at hmove
    obtain ⟨disk₃, hrename, rfl⟩ := onDisk_cases (Act.context_ok hmove)
    have hsource : place s₂.disk.tree (tmpPath (archivePathOf storage bundle)) =
        some (tmpLoc bundle root) := by
      rw [tmpPath_eq hname]
      exact place_normal hleads' hroot'
    have htarget : place s₂.disk.tree (archivePathOf storage bundle) =
        some (assetLoc bundle root) := by
      rw [archivePathOf_eq hname]
      exact place_normal hleads' hroot'
    obtain ⟨leaf, hleaf, hget⟩ := rename_ok hsource htarget hrename
    obtain ⟨data, hdata, hbytes⟩ := hwritten.data
    obtain rfl : Leaf.file data = leaf :=
      Node.leaf.inj (Option.some.inj (hdata.symm.trans hleaf))
    refine ⟨data, hbytes, ?_, ?_⟩
    · have hmode := (receive_executable hreceive).trans (createFile_executable hcreate)
      rw [← hmode, hdata]
      rfl
    intro loc
    show disk₃.tree.get loc = _
    rw [hget]
    split
    · rfl
    · split
      · rfl
      · next hne => exact hwritten.same loc hne

theorem downloadAsset_ok (hname : NamesFile bundle)
    (hleads : locate s.disk.tree (storage.bundleDir bundle.walletType) = some root)
    (hroot : s.disk.tree.get root = some .dir)
    (hnoLink : ∀ target, s.disk.tree.get (tmpLoc bundle root) ≠ some (.leaf (.symlink target)))
    (h : downloadAsset transfer (archivePathOf storage bundle) s = (.ok (), s')) :
    ∃ response, transfer.response = some response ∧ ∃ data : FileData,
      data.bytes = body response.stream ∧
      data.executable = (emptied (s.disk.tree.get (tmpLoc bundle root))).executable ∧
      ∀ loc, s'.disk.tree.get loc =
        if loc = assetLoc bundle root then some (.leaf (.file data))
        else if loc = tmpLoc bundle root then none else s.disk.tree.get loc := by
  cases hresponse : transfer.response with
  | none =>
    rw [downloadAsset, hresponse] at h
    cases h
  | some response =>
    refine ⟨response, rfl, ?_⟩
    cases hsuccess : response.success with
    | false =>
      rw [downloadAsset, hresponse] at h
      simp only [hsuccess, Bool.false_eq_true, if_false] at h
      cases h
    | true =>
      rw [downloadAsset, hresponse] at h
      simp only [hsuccess, if_true] at h
      exact saveResponse_ok hname hleads hroot hnoLink h

end Transfer

/-! ## The manifest -/

def manifestLoc (root : FsLoc) : FsLoc := osString "manifest.json" :: root

def manifestTmpLoc (root : FsLoc) : FsLoc := osString "manifest.json.tmp" :: root

section Manifest

variable {env : DownloadEnv} {storage : BundleStorage} {bundle : RemoteBundle} {disk disk' : Disk}
  {root : FsLoc}

theorem tmpManifest_eq :
    tmpManifest storage bundle =
      storage.bundleDir bundle.walletType ++ [.normal (osString "manifest.json.tmp")] := by
  have hname : fileStem (osString "manifest.json") ++ dot :: osString "json.tmp" =
      osString "manifest.json.tmp" := by decide
  simp [tmpManifest, BundleStorage.manifestPath, withExtension, hname]

/-- The runs that a successful `write_manifest` is made of. -/
structure Describes (env : DownloadEnv) (storage : BundleStorage) (bundle : RemoteBundle)
    (disk disk' : Disk) (bytes : List UInt8) (file : FsLoc) (made opened written : Disk) : Prop where
  create : createDirAll env.manifest.grants (storage.bundleDir bundle.walletType) disk =
    (.ok (), made)
  text : env.json.toStringPretty (newManifest env storage bundle disk.tree) = some bytes
  open_tmp : createFile env.manifest.creates (tmpManifest storage bundle) made = (.ok file, opened)
  write : writeAll env.manifest.writes file bytes opened = (.ok (), written)
  rename : rename env.manifest.renames (tmpManifest storage bundle)
    (storage.manifestPath bundle.walletType) written = (.ok (), disk')

theorem described_runs (h : described env storage bundle disk = (.ok (), disk')) :
    ∃ bytes file made opened written,
      Describes env storage bundle disk disk' bytes file made opened written := by
  unfold described BundleStorage.writeManifest at h
  dsimp only at h
  obtain ⟨_, made, hensured, hrest⟩ := Act.bind_ok h
  cases hbytes : env.json.toStringPretty (newManifest env storage bundle disk.tree) with
  | none =>
    rw [hbytes] at hrest
    cases hrest
  | some bytes =>
    rw [hbytes] at hrest
    obtain ⟨_, written, hwritten, hrename⟩ := Act.bind_ok hrest
    obtain ⟨file, opened, hcreate, hwrite⟩ := Act.bind_ok (Act.context_ok hwritten)
    exact ⟨bytes, file, made, opened, written, Act.context_ok hensured, hbytes, hcreate, hwrite,
      Act.context_ok hrename⟩

theorem Describes.described {bytes : List UInt8} {file : FsLoc} {made opened written : Disk}
    (h : Describes env storage bundle disk disk' bytes file made opened written) :
    Bundler.described env storage bundle disk = (.ok (), disk') := by
  have hopen := h.open_tmp
  have hrename := h.rename
  unfold tmpManifest at hopen hrename
  simp only [Bundler.described, BundleStorage.writeManifest, Act.run_bind, Act.run_context,
    h.create, h.text, hopen, h.write, hrename]

section There

variable (hleads : locate disk.tree (storage.bundleDir bundle.walletType) = some root)
  (hroot : disk.tree.get root = some .dir)
include hleads hroot

/-- In a bundle directory that is there, the temporary manifest is the file of that name. -/
theorem locate_tmpManifest (hfree : disk.tree.get (manifestTmpLoc root) = none) :
    locate disk.tree (tmpManifest storage bundle) = some (manifestTmpLoc root) := by
  rw [tmpManifest_eq]
  apply locate_normal hleads hroot
  intro target htarget
  rw [manifestTmpLoc] at hfree
  rw [hfree] at htarget
  cases htarget

/-- Both names that are renamed are in the bundle directory. -/
theorem place_manifests :
    place disk.tree (tmpManifest storage bundle) = some (manifestTmpLoc root) ∧
      place disk.tree (storage.manifestPath bundle.walletType) = some (manifestLoc root) := by
  rw [tmpManifest_eq]
  exact ⟨place_normal hleads hroot, place_normal hleads hroot⟩

/-- What the runs do in a bundle directory that is there. -/
theorem Describes.written {bytes : List UInt8} {file : FsLoc} {made opened written : Disk}
    (h : Describes env storage bundle disk disk' bytes file made opened written)
    (hfree : disk.tree.get (manifestTmpLoc root) = none) :
    file = manifestTmpLoc root ∧ Written disk written (manifestTmpLoc root) bytes ∧
      place written.tree (tmpManifest storage bundle) = some (manifestTmpLoc root) ∧
      place written.tree (storage.manifestPath bundle.walletType) = some (manifestLoc root) := by
  have hthere : createDirAll env.manifest.grants (storage.bundleDir bundle.walletType) disk =
      (.ok (), disk) := ensureDirs_of_isDir (isDir_iff.2 ⟨root, hleads, hroot⟩)
  obtain ⟨-, rfl⟩ := Prod.mk.inj (hthere.symm.trans h.create)
  obtain ⟨hlocate, hnodir, hempty⟩ := createFile_ok h.open_tmp
  have hfull : Written disk written file bytes := writeAll_ok hempty h.write
  obtain rfl : manifestTmpLoc root = file :=
    Option.some.inj ((locate_tmpManifest hleads hroot hfree).symm.trans hlocate)
  obtain ⟨hleads', hroot'⟩ := hfull.leads hlocate hnodir hleads hroot
  exact ⟨rfl, hfull, place_manifests hleads' hroot'⟩

/-- The manifest stands in the bundle directory, and nothing else differs from the tree before. -/
theorem described_ok (hfree : disk.tree.get (manifestTmpLoc root) = none)
    (h : described env storage bundle disk = (.ok (), disk')) :
    ∃ data : FileData,
      env.json.toStringPretty (newManifest env storage bundle disk.tree) = some data.bytes ∧
      ∀ loc, disk'.tree.get loc = if loc = manifestLoc root then some (.leaf (.file data))
        else if loc = manifestTmpLoc root then none else disk.tree.get loc := by
  obtain ⟨bytes, file, made, opened, written, hruns⟩ := described_runs h
  obtain ⟨-, hfull, hsource, htarget⟩ := hruns.written hleads hroot hfree
  obtain ⟨leaf, hleaf, hget⟩ := rename_ok hsource htarget hruns.rename
  obtain ⟨data, hdata, rfl⟩ := hfull.data
  obtain rfl : Leaf.file data = leaf :=
    Node.leaf.inj (Option.some.inj (hdata.symm.trans hleaf))
  refine ⟨data, hruns.text, ?_⟩
  intro loc
  rw [hget]
  split
  · rfl
  · split
    · rfl
    · next hne => exact hfull.same loc hne

end There

/-- Nothing goes but the temporary manifest. -/
theorem described_there (h : described env storage bundle disk = (.ok (), disk')) {name : OsString}
    {dir : FsLoc} (hne : name ≠ osString "manifest.json.tmp")
    (hthere : disk.tree.get (name :: dir) ≠ none) : disk'.tree.get (name :: dir) ≠ none := by
  obtain ⟨bytes, file, made, opened, written, hruns⟩ := described_runs h
  have hbuilds : Builds disk made := by
    have hwithin := createDirAll_builds env.manifest.grants (storage.bundleDir bundle.walletType) disk
    rw [hruns.create] at hwithin
    exact hwithin
  obtain ⟨-, -, hempty⟩ := createFile_ok hruns.open_tmp
  have hfull := writeAll_ok hempty hruns.write
  have hthere' := hfull.builds.there (hbuilds.there hthere)
  obtain ⟨a, b, hsource, htarget⟩ := rename_places hruns.rename
  obtain ⟨leaf, -, hget⟩ := rename_ok hsource htarget hruns.rename
  rw [tmpManifest_eq] at hsource
  obtain ⟨dir', rfl⟩ := place_eq_some hsource
  rw [hget]
  split
  · simp
  · rw [if_neg fun heq => hne (List.cons.inj heq).1]
    exact hthere'

end Manifest

/-! ## What is found out about a tree -/

/-- The system lists the names of a directory in an order that depends on the names alone. -/
def ListsNames (order : List OsString → List OsString) : Prop :=
  ∀ names names', names.Perm names' → order names = order names'

section Congr

variable {order : List OsString → List OsString} {t t' : FsTree} {dir path : FilePath}

theorem place_congr (h : ∀ loc, t'.get loc = t.get loc) : place t' path = place t path := by
  have hget : t'.get = t.get := funext h
  simp only [place, locate_congr h, hget]

theorem isDir_congr (h : ∀ loc, t'.get loc = t.get loc) : isDir t' path = isDir t path := by
  unfold isDir
  rw [stat_congr h]

theorem isExecutableFile_congr (h : ∀ loc, t'.get loc = t.get loc) :
    isExecutableFile t' path = isExecutableFile t path := by
  unfold isExecutableFile readFile
  rw [stat_congr h]

theorem readDir_congr (horder : ListsNames order) (h : ∀ loc, t'.get loc = t.get loc) :
    readDir order t' dir = readDir order t dir := by
  unfold readDir
  rw [locate_congr h]
  cases locate t dir with
  | none => rfl
  | some loc =>
    dsimp only
    rw [h, horder _ _ (names_perm h loc)]

theorem collect_congr (horder : ListsNames order) (h : ∀ loc, t'.get loc = t.get loc)
    (fuel : Nat) : collect order t' fuel dir = collect order t fuel dir := by
  induction fuel generalizing dir with
  | zero => rfl
  | succ fuel ih =>
    simp only [collect, readDir_congr horder h, isDir_congr h, ih]

theorem dirSize_congr (horder : ListsNames order) (h : ∀ loc, t'.get loc = t.get loc) :
    dirSize order t' dir = dirSize order t dir := by
  have hdepth : collectDepth t' = collectDepth t := by
    rw [collectDepth, collectDepth, (keys_perm h).length_eq]
  have hlen : fileLen t' = fileLen t := by
    funext path
    have hget : t'.get = t.get := funext h
    simp only [fileLen, place_congr h, hget]
  rw [dirSize, dirSize, hdepth, collect_congr horder h, hlen]

theorem findEmulatorBinary_congr (horder : ListsNames order) (h : ∀ loc, t'.get loc = t.get loc)
    (walletType : WalletType) :
    findEmulatorBinary order t' dir walletType = findEmulatorBinary order t dir walletType := by
  simp only [findEmulatorBinary, stat_congr h, readDir_congr horder h, isExecutableFile_congr h]

theorem detectFirmwareDir_congr (h : ∀ loc, t'.get loc = t.get loc) :
    detectFirmwareDir t' dir = detectFirmwareDir t dir := by
  simp only [detectFirmwareDir, isDir_congr h]

theorem newManifest_congr (env : DownloadEnv) (storage : BundleStorage) (bundle : RemoteBundle)
    (timestamp : String) (horder : ListsNames env.order) (h : ∀ loc, t'.get loc = t.get loc) :
    newManifest { env with timestamp := timestamp } storage bundle t' =
      { newManifest env storage bundle t with installedAt := timestamp } := by
  simp only [newManifest, dirSize_congr horder h, findEmulatorBinary_congr horder h,
    detectFirmwareDir_congr h]

/-- A tree that looks the same can be described as well. -/
theorem described_again {env : DownloadEnv} {storage : BundleStorage} {bundle : RemoteBundle}
    {disk disk' disk₀ : Disk} {root : FsLoc} (horder : ListsNames env.order)
    (hsame : ∀ loc, disk₀.tree.get loc = disk.tree.get loc)
    (hleads : locate disk.tree (storage.bundleDir bundle.walletType) = some root)
    (hroot : disk.tree.get root = some .dir) (hfree : disk.tree.get (manifestTmpLoc root) = none)
    (h : described env storage bundle disk = (.ok (), disk')) :
    ∃ disk₀', described env storage bundle disk₀ = (.ok (), disk₀') := by
  have hleads₀ : locate disk₀.tree (storage.bundleDir bundle.walletType) = some root := by
    rw [locate_congr hsame, hleads]
  have hroot₀ := (hsame root).trans hroot
  have hfree₀ := (hsame (manifestTmpLoc root)).trans hfree
  obtain ⟨bytes, file, made, opened, written, hruns⟩ := described_runs h
  obtain ⟨-, hfull, hsource, htarget⟩ := hruns.written hleads hroot hfree
  have hne : manifestLoc root ≠ manifestTmpLoc root := by
    intro heq
    exact absurd (List.cons.inj heq).1 (by decide)
  obtain ⟨hrenames, hnodir⟩ := rename_granted hsource htarget hne hruns.rename
  have hnodir₀ : disk₀.tree.get (manifestLoc root) ≠ some .dir := by
    rw [hsame, ← hfull.same _ hne]
    exact hnodir
  -- the same runs again
  have htext : env.json.toStringPretty (newManifest env storage bundle disk₀.tree) = some bytes := by
    have hmanifest := newManifest_congr env storage bundle env.timestamp horder hsame
    rw [← hruns.text]
    exact congrArg _ hmanifest
  have hfree₀' : disk₀.tree.get (manifestTmpLoc root) ≠ some .dir := by
    rw [hfree₀]
    simp
  obtain ⟨opened₀, hopen₀, hempty₀⟩ :=
    createFile_made (locate_tmpManifest hleads₀ hroot₀ hfree₀) hfree₀'
  obtain ⟨data₀, hdata₀, -⟩ := hempty₀.data
  obtain ⟨written₀, hwrite₀, hmore₀⟩ := writeAll_saved bytes hdata₀
  have hfull₀ := hempty₀.trans hmore₀
  obtain ⟨hleads₁, hroot₁⟩ := hfull₀.leads (locate_tmpManifest hleads₀ hroot₀ hfree₀) hfree₀'
    hleads₀ hroot₀
  obtain ⟨hsource₀, htarget₀⟩ := place_manifests hleads₁ hroot₁
  obtain ⟨data₁, hdata₁, -⟩ := hfull₀.data
  obtain ⟨disk₀', hrename₀, -⟩ := rename_moved hsource₀ htarget₀ hdata₁ hne hroot₁
    (by rw [hfull₀.same _ hne]; exact hnodir₀)
  exact ⟨disk₀', Describes.described
    { create := ensureDirs_of_isDir (isDir_iff.2 ⟨root, hleads₀, hroot₀⟩)
      text := htext
      open_tmp := by rw [createFile_granted hruns.open_tmp]; exact hopen₀
      write := by rw [writeAll_granted hruns.write]; exact hwrite₀
      rename := by rw [hrenames]; exact hrename₀ }⟩

end Congr

end Hwwctl.Bundler
