import Hwwctl.Bundler.Download
import Hwwctl.Bundler.Proofs.ExtractProofs

/-!
# The transfer

What fetching the archive does to the disk in each of the ways it may end.
-/

namespace Hwwctl.Bundler

open FileTree Io Emulators

/-! ## Names -/

/-- The name of the temporary file for the asset `name`. -/
def tmpName (name : OsString) : OsString := fileStem name ++ dot :: osString "tar.gz.tmp"

theorem tmpName_ne (name : OsString) : tmpName name ≠ name := by
  intro h
  have hbefore : ((name.reverse.dropWhile (· ≠ dot)).drop 1).reverse =
      fileStem name ++ dot :: osString "tar.gz" := by
    have htmp : osString "tar.gz.tmp" = osString "tar.gz" ++ dot :: [116, 109, 112] := rfl
    conv_lhs => rw [← h, tmpName, htmp]
    simp [dot]
  have hstem : fileStem name = fileStem name ++ dot :: osString "tar.gz" := by
    conv_lhs => rw [fileStem, hbefore]
    simp
  have hlength := congrArg List.length hstem
  simp at hlength

theorem tmpPath_concat (path : FilePath) (name : OsString) :
    tmpPath (path ++ [.normal name]) = path ++ [.normal (tmpName name)] := by
  simp [tmpPath, withExtension, tmpName]

/-- `asset_name` is a file name. -/
def NamesFile (bundle : RemoteBundle) : Prop :=
  components (osString bundle.assetName) = [.normal (osString bundle.assetName)]

def assetLoc (bundle : RemoteBundle) (root : FsLoc) : FsLoc := osString bundle.assetName :: root

def tmpLoc (bundle : RemoteBundle) (root : FsLoc) : FsLoc :=
  tmpName (osString bundle.assetName) :: root

section Names

variable {storage : BundleStorage} {bundle : RemoteBundle} {root : FsLoc}

theorem assetLoc_ne_tmpLoc : assetLoc bundle root ≠ tmpLoc bundle root := by
  intro h
  exact tmpName_ne _ (List.cons.inj h).1.symm

theorem below_cons (name : OsString) : Below root (name :: root) := by
  refine ⟨List.suffix_cons name root, ?_⟩
  simp

theorem archivePathOf_eq (hname : NamesFile bundle) :
    archivePathOf storage bundle =
      storage.bundleDir bundle.walletType ++ [.normal (osString bundle.assetName)] := by
  rw [archivePathOf, hname]
  rfl

theorem tmpPath_eq (hname : NamesFile bundle) :
    tmpPath (archivePathOf storage bundle) =
      storage.bundleDir bundle.walletType ++ [.normal (tmpName (osString bundle.assetName))] := by
  rw [archivePathOf_eq hname, tmpPath_concat]

end Names

/-! ## The transfer -/

/-- The whole body arrives and every chunk is written. -/
def Complete (stream : List (Option Chunk)) : Prop :=
  ∀ item ∈ stream, ∃ chunk, item = some chunk ∧ chunk.saved = true

/-- The request succeeds and the temporary file is created. -/
def TempMade (transfer : TransferEnv) (disk : Disk) (dest : FilePath) : Prop :=
  ∃ response, transfer.response = some response ∧ response.success = true ∧
    transfer.creates = true ∧
      ∃ loc, locate disk.tree (tmpPath dest) = some loc ∧ disk.tree.get loc ≠ some .dir

/-- Nothing fails any more until the temporary file is at `loc`, the archive's place. -/
def Transferred (transfer : TransferEnv) (tree : FsTree) (loc : FsLoc) : Prop :=
  (∀ response, transfer.response = some response → Complete response.stream) ∧
    transfer.flushes = true ∧ transfer.renames = true ∧ tree.get loc ≠ some .dir

/-- The temporary file, which was written at `file`, has been moved to the archive's place. -/
structure Moved (bundle : RemoteBundle) (root file : FsLoc) (disk disk' : Disk) : Prop where
  archive : ∃ leaf, disk'.tree.get (assetLoc bundle root) = some (.leaf leaf)
  gone : disk'.tree.get (tmpLoc bundle root) = none
  same : ∀ l, l ≠ assetLoc bundle root → l ≠ tmpLoc bundle root → l ≠ file →
    disk'.tree.get l = disk.tree.get l
  touched : ∀ l, l ∈ disk'.touched ↔
    l = assetLoc bundle root ∨ l = tmpLoc bundle root ∨ l = file ∨ l ∈ disk.touched

section Transfer

variable {transfer : TransferEnv} {storage : BundleStorage} {bundle : RemoteBundle} {s : Session}
  {root file : FsLoc}

theorem onDisk_run {ε α : Type} (x : Act ε Disk α) (s : Session) :
    onDisk x s = ((x s.disk).1, { s with disk := (x s.disk).2 }) := rfl

theorem receive_fileAt {base : Disk} (totalBytes : Option UInt64) (downloaded : UInt64)
    (stream : List (Option Chunk)) (h : FileAt base s.disk file) :
    FileAt base (receive totalBytes file downloaded stream s).2.disk file ∧
      ((receive totalBytes file downloaded stream s).1 = .ok () ↔ Complete stream) := by
  induction stream generalizing downloaded s with
  | nil =>
    refine ⟨h, iff_of_true rfl ?_⟩
    intro item hitem
    cases hitem
  | cons item stream ih =>
    have hfails : ∀ e : String, (¬ ∃ chunk, item = some chunk ∧ chunk.saved = true) →
        receive totalBytes file downloaded (item :: stream) s = (.error e, s) →
        FileAt base (receive totalBytes file downloaded (item :: stream) s).2.disk file ∧
          ((receive totalBytes file downloaded (item :: stream) s).1 = .ok () ↔
            Complete (item :: stream)) := by
      intro e hitem hrun
      rw [hrun]
      refine ⟨h, iff_of_false (by simp) ?_⟩
      intro hcomplete
      exact hitem (hcomplete item List.mem_cons_self)
    cases item with
    | none => exact hfails "error reading download stream" (by simp) rfl
    | some chunk =>
      cases hsaved : chunk.saved with
      | false =>
        apply hfails "failed to write chunk to disk"
        · rintro ⟨_, ⟨⟩, hsaved'⟩
          rw [hsaved] at hsaved'
          cases hsaved'
        · rw [receive, Act.run_bind, Act.run_context, onDisk_run, hsaved, writeAll_refused]
      | true =>
        obtain ⟨data, hdata⟩ := h.file
        obtain ⟨disk', hwrite, hfile⟩ := writeAll_saved chunk.bytes hdata
        have hcons : Complete (some chunk :: stream) ↔ Complete stream := by
          simp [Complete, hsaved]
        rw [receive, Act.run_bind, Act.run_context, onDisk_run, hsaved, hwrite, hcons]
        exact ih _ (h.trans hfile.fileAt)

/-- The name of the temporary file holds that file or the link through which it was written. -/
theorem tmp_leaf {disk disk' : Disk} (hat : FileAt disk disk' file) {path : FilePath}
    {name : OsString} (hleads : locate disk.tree path = some root)
    (hroot : disk.tree.get root = some .dir)
    (hfile : locate disk.tree (path ++ [.normal name]) = some file) :
    ∃ leaf, disk'.tree.get (name :: root) = some (.leaf leaf) := by
  by_cases hsame : name :: root = file
  · obtain ⟨data, hdata⟩ := hat.file
    rw [hsame]
    exact ⟨_, hdata⟩
  · by_contra hno
    have hlink : ∀ target, disk.tree.get (name :: root) ≠ some (.leaf (.symlink target)) := by
      intro target htarget
      apply hno
      rw [hat.same _ hsame]
      exact ⟨_, htarget⟩
    exact hsame (Option.some.inj ((locate_normal hleads hroot hlink).symm.trans hfile))

/-- The last step of the transfer. -/
theorem renameArchive_cases (hname : NamesFile bundle) {disk disk' : Disk}
    (hat : FileAt disk disk' file)
    (hleads : locate disk.tree (storage.bundleDir bundle.walletType) = some root)
    (hroot : disk.tree.get root = some .dir)
    (hfile : locate disk.tree (tmpPath (archivePathOf storage bundle)) = some file)
    (hfree : disk.tree.get file ≠ some .dir) (granted : Bool) :
    (¬ (granted = true ∧ disk.tree.get (assetLoc bundle root) ≠ some .dir) ∧
      rename granted (tmpPath (archivePathOf storage bundle)) (archivePathOf storage bundle) disk' =
        (.error (), disk')) ∨
    ((granted = true ∧ disk.tree.get (assetLoc bundle root) ≠ some .dir) ∧
      ∃ disk'', rename granted (tmpPath (archivePathOf storage bundle))
          (archivePathOf storage bundle) disk' = (.ok (), disk'') ∧
        Moved bundle root file disk disk'') := by
  have hleads' : locate disk'.tree (storage.bundleDir bundle.walletType) = some root :=
    locate_retained (hat.retains (locate_ends hfile) hfree) hroot hleads
  have hne : root ≠ file := by
    rintro rfl
    exact hfree hroot
  have hroot' : disk'.tree.get root = some .dir := by rw [hat.same _ hne, hroot]
  have htmp : place disk'.tree (tmpPath (archivePathOf storage bundle)) =
      some (tmpLoc bundle root) := by
    rw [tmpPath_eq hname]
    exact place_normal hleads' hroot'
  have hasset : place disk'.tree (archivePathOf storage bundle) = some (assetLoc bundle root) := by
    rw [archivePathOf_eq hname]
    exact place_normal hleads' hroot'
  have hdir : disk'.tree.get (assetLoc bundle root) = some .dir ↔
      disk.tree.get (assetLoc bundle root) = some .dir := by
    by_cases hsame : assetLoc bundle root = file
    · obtain ⟨data, hdata⟩ := hat.file
      rw [hsame, hdata]
      simp [hfree]
    · rw [hat.same _ hsame]
  by_cases hmoves : granted = true ∧ disk.tree.get (assetLoc bundle root) ≠ some .dir
  · refine Or.inr ⟨hmoves, ?_⟩
    rw [tmpPath_eq hname] at hfile
    obtain ⟨leaf, hleaf⟩ := tmp_leaf hat hleads hroot hfile
    obtain ⟨disk'', hrename, htouched, hget⟩ := rename_moved htmp hasset hleaf
      assetLoc_ne_tmpLoc hroot' (fun h => hmoves.2 (hdir.1 h))
    refine ⟨disk'', by rw [hmoves.1]; exact hrename, ⟨leaf, ?_⟩, ?_, ?_, ?_⟩
    · rw [hget, if_pos rfl]
    · rw [hget, if_neg assetLoc_ne_tmpLoc.symm, if_pos rfl]
    · intro l hasset hl hfile
      rw [hget, if_neg hasset, if_neg hl, hat.same l hfile]
    · intro l
      rw [htouched]
      simp [hat.touched]
  · refine Or.inl ⟨hmoves, rename_refused htmp hasset assetLoc_ne_tmpLoc ?_⟩
    intro hgranted
    by_contra hno
    exact hmoves ⟨hgranted, fun h => hno (hdir.2 h)⟩

/-- From the creation of the temporary file on: it stays where it has been written, or it has been
moved. -/
theorem saveResponse_cases (hname : NamesFile bundle) {response : Response}
    (hresponse : transfer.response = some response) (hcreates : transfer.creates = true)
    (hleads : locate s.disk.tree (storage.bundleDir bundle.walletType) = some root)
    (hroot : s.disk.tree.get root = some .dir)
    (hfile : locate s.disk.tree (tmpPath (archivePathOf storage bundle)) = some file)
    (hfree : s.disk.tree.get file ≠ some .dir) :
    (¬ Transferred transfer s.disk.tree (assetLoc bundle root) ∧
      ∃ e s₁, saveResponse transfer response (archivePathOf storage bundle) s = (.error e, s₁) ∧
        FileAt s.disk s₁.disk file) ∨
    (Transferred transfer s.disk.tree (assetLoc bundle root) ∧
      ∃ s₁, saveResponse transfer response (archivePathOf storage bundle) s = (.ok (), s₁) ∧
        Moved bundle root file s.disk s₁.disk) := by
  obtain ⟨disk₁, hcreate, hempty⟩ := createFile_made hfile hfree
  obtain ⟨hat, hcomplete⟩ := receive_fileAt (s := { s with disk := disk₁ })
    response.contentLength 0 response.stream hempty.fileAt
  have honly : ∀ {p : Response → Prop},
      (∀ r, transfer.response = some r → p r) ↔ p response := by
    intro p
    rw [hresponse]
    simp
  rw [saveResponse, Act.run_bind, Act.run_context, onDisk_run, hcreates, hcreate]
  dsimp only
  rw [Act.run_bind]
  generalize receive response.contentLength file 0 response.stream { s with disk := disk₁ } = out
    at hat hcomplete
  obtain ⟨_ | u, s₂⟩ := out
  · refine Or.inl ⟨?_, _, s₂, rfl, hat⟩
    intro htransferred
    cases hcomplete.2 (honly.1 htransferred.1)
  · cases hflush : transfer.flushes with
    | false =>
      refine Or.inl ⟨?_, _, s₂, rfl, hat⟩
      rintro ⟨_, hflushes, _⟩
      rw [hflush] at hflushes
      cases hflushes
    | true =>
      dsimp only
      rw [if_pos rfl, Act.run_context, onDisk_run]
      rcases renameArchive_cases hname hat hleads hroot hfile hfree transfer.renames with
        ⟨hno, hrename⟩ | ⟨hmoves, disk₃, hrename, hmoved⟩
      · rw [hrename]
        exact Or.inl ⟨fun htransferred => hno htransferred.2.2, _, _, rfl, hat⟩
      · rw [hrename]
        exact Or.inr ⟨⟨honly.2 (hcomplete.1 rfl), hflush, hmoves⟩, _, rfl, hmoved⟩

theorem downloadAsset_cases (transfer : TransferEnv) (hname : NamesFile bundle)
    (hleads : locate s.disk.tree (storage.bundleDir bundle.walletType) = some root)
    (hroot : s.disk.tree.get root = some .dir) :
    (¬ TempMade transfer s.disk (archivePathOf storage bundle) ∧
      ∃ e, downloadAsset transfer (archivePathOf storage bundle) s = (.error e, s)) ∨
    (TempMade transfer s.disk (archivePathOf storage bundle) ∧ ∃ file,
      locate s.disk.tree (tmpPath (archivePathOf storage bundle)) = some file ∧
        s.disk.tree.get file ≠ some .dir ∧
        ((¬ Transferred transfer s.disk.tree (assetLoc bundle root) ∧
            ∃ e s₁, downloadAsset transfer (archivePathOf storage bundle) s = (.error e, s₁) ∧
              FileAt s.disk s₁.disk file) ∨
          (Transferred transfer s.disk.tree (assetLoc bundle root) ∧
            ∃ s₁, downloadAsset transfer (archivePathOf storage bundle) s = (.ok (), s₁) ∧
              Moved bundle root file s.disk s₁.disk))) := by
  have hnoRequest : (∀ response, transfer.response = some response → response.success = false) →
      ¬ TempMade transfer s.disk (archivePathOf storage bundle) := by
    rintro hall ⟨response, hresponse, hsuccess, _⟩
    rw [hall response hresponse] at hsuccess
    cases hsuccess
  cases hresponse : transfer.response with
  | none =>
    refine Or.inl ⟨hnoRequest (by simp [hresponse]), "failed to initiate download", ?_⟩
    rw [downloadAsset, hresponse]
    rfl
  | some response =>
    cases hsuccess : response.success with
    | false =>
      refine Or.inl ⟨hnoRequest ?_, s!"download request returned HTTP {response.status}", ?_⟩
      · intro response' hresponse'
        obtain rfl := Option.some.inj (hresponse.symm.trans hresponse')
        exact hsuccess
      · simp only [downloadAsset, hresponse, hsuccess, Bool.false_eq_true, if_false]
        rfl
    | true =>
      have hsave : downloadAsset transfer (archivePathOf storage bundle) =
          saveResponse transfer response (archivePathOf storage bundle) := by
        simp only [downloadAsset, hresponse, hsuccess, if_true]
      rw [hsave]
      by_cases hmade : TempMade transfer s.disk (archivePathOf storage bundle)
      · refine Or.inr ⟨hmade, ?_⟩
        obtain ⟨_, _, _, hcreates, file, hfile, hfree⟩ := hmade
        exact ⟨file, hfile, hfree,
          saveResponse_cases hname hresponse hcreates hleads hroot hfile hfree⟩
      · refine Or.inl ⟨hmade, ?_⟩
        have hrefused : createFile transfer.creates (tmpPath (archivePathOf storage bundle)) s.disk =
            (.error (), s.disk) := by
          apply createFile_refused
          intro hcreates file hfile
          by_contra hfree
          exact hmade ⟨response, hresponse, hsuccess, hcreates, file, hfile, hfree⟩
        rw [saveResponse, Act.run_bind, Act.run_context, onDisk_run, hrefused]
        exact ⟨_, rfl⟩

end Transfer

end Hwwctl.Bundler
