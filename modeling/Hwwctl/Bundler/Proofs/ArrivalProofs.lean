import Hwwctl.Bundler.Proofs.ConfineProofs
import Hwwctl.Bundler.Proofs.ContentsProofs

/-!
# What an installation leaves in the bundle directory

The archive comes to stand in the bundle directory, its entries are laid over what stands there, and
it goes again. Where no entry is led astray by a link, that is known from the entries and from what
stood there before.
-/

namespace Hwwctl.Bundler

open FileTree Io Emulators

section Contents

variable (env : DownloadEnv) (bundle : RemoteBundle) (prior : FsTree) (root : FsLoc)

/-- With the bundle directory at `root` and the archive in it, in place of its temporary file. -/
def transferred (loc : FsLoc) : Option FsNode :=
  if loc = assetLoc bundle root then
    let bytes := (env.transfer.response.map fun response => body response.stream).getD []
    some (.leaf (.file { emptied (prior.get (tmpLoc bundle root)) with bytes := bytes }))
  else if loc = tmpLoc bundle root then none
  else if loc = root then some .dir
  else prior.get loc

/-- And with the entries laid over it. The archive is removed unless the system refuses, or one of
them has made a directory of it. -/
def contents (loc : FsLoc) : Option FsNode :=
  let left := leftBy root env.archive (transferred env bundle prior root) loc
  if loc = assetLoc bundle root ∧ env.removes = true ∧ left ≠ some .dir then none else left

/-- The bundle directory is at `root`, or its place there is free; the transfer's temporary file is
not a link, nor does an entry go by one or by `..`. -/
structure Arrives (storage : BundleStorage) : Prop where
  name : NamesFile bundle
  dir : Leads prior (storage.bundleDir bundle.walletType) root ∨
    ∃ base, Leads prior storage.baseDir base ∧ prior.get root = none ∧
      root = osString (walletDirName bundle.walletType) :: base
  noLink : ∀ target, prior.get (tmpLoc bundle root) ≠ some (.leaf (.symlink target))
  straight : Straight root (transferred env bundle prior root) env.archive

end Contents

/-- The transfer into a bundle directory that has been made or was there. -/
theorem fetched_get {env : DownloadEnv} {storage : BundleStorage} {bundle : RemoteBundle}
    {prior : FsTree} {root : FsLoc} {s fetched : Session} (hname : NamesFile bundle)
    (hleads : locate s.disk.tree (storage.bundleDir bundle.walletType) = some root)
    (hopened : ∀ l, s.disk.tree.get l = if l = root then some .dir else prior.get l)
    (hnoLink : ∀ target, prior.get (tmpLoc bundle root) ≠ some (.leaf (.symlink target)))
    (hasset : downloadAsset env.transfer (archivePathOf storage bundle) s = (.ok (), fetched)) :
    fetched.disk.tree.get = transferred env bundle prior root ∧
      ∃ response data, env.transfer.response = some response ∧ data.bytes = body response.stream ∧
        fetched.disk.tree.get (assetLoc bundle root) = some (.leaf (.file data)) := by
  have htmp : s.disk.tree.get (tmpLoc bundle root) = prior.get (tmpLoc bundle root) := by
    rw [hopened, if_neg (Install.tmpLoc_below bundle root).2]
  have hdir : s.disk.tree.get root = some .dir := by rw [hopened, if_pos rfl]
  obtain ⟨response, hresponse, data, hbytes, hmode, hget⟩ :=
    downloadAsset_ok hname hleads hdir (by rw [htmp]; exact hnoLink) hasset
  refine ⟨?_, response, data, hresponse, hbytes, by rw [hget, if_pos rfl]⟩
  have hdata : data = { emptied (prior.get (tmpLoc bundle root)) with
      bytes := body response.stream } := by
    rw [htmp] at hmode
    cases data
    cases hbytes
    cases hmode
    rfl
  funext l
  rw [hget, hopened, hdata, transferred, hresponse]
  rfl

section Arrives

variable {env : DownloadEnv} {storage : BundleStorage} {bundle : RemoteBundle} {prior : FsTree}
  {root : FsLoc} {s s' fetched : Session} {opened unpacked : Disk}

/-- The bundle directory has been made, or was there. -/
theorem Arrives.opened_eq (h : Arrives env bundle s.disk.tree root storage)
    (hcreate : createDirAll env.grants (storage.bundleDir bundle.walletType) s.disk =
      (.ok (), opened)) :
    Leads opened.tree (storage.bundleDir bundle.walletType) root ∧
      ∀ l, opened.tree.get l = if l = root then some .dir else s.disk.tree.get l := by
  rcases h.dir with hthere | ⟨base, hbase, hfree, rfl⟩
  · have hsame : createDirAll env.grants (storage.bundleDir bundle.walletType) s.disk =
        (.ok (), s.disk) := ensureDirs_of_isDir (isDir_iff.2 ⟨root, hthere.locate, hthere.dir⟩)
    obtain ⟨-, rfl⟩ := Prod.mk.inj (hsame.symm.trans hcreate)
    refine ⟨hthere, fun l => ?_⟩
    split
    · next heq => rw [heq, hthere.dir]
    · rfl
  · have hisDir : isDir s.disk.tree storage.baseDir = true :=
      isDir_iff.2 ⟨base, hbase.locate, hbase.dir⟩
    rw [BundleStorage.bundleDir, createDirAll_concat hisDir] at hcreate
    have hlink : ∀ target, s.disk.tree.get (osString (walletDirName bundle.walletType) :: base) ≠
        some (.leaf (.symlink target)) := by
      rw [hfree]
      simp
    obtain ⟨-, hget⟩ := ensureDir_leaves hbase.locate hbase.dir hlink hcreate
    refine ⟨?_, hget⟩
    have hbase' : Leads opened.tree storage.baseDir base := hbase.of_outside fun l hl => by
      rw [hget, if_neg]
      rintro rfl
      exact hl (below_cons _)
    exact hbase'.down (by rw [hget, if_pos rfl])

/-- The archive has come. -/
theorem Arrives.fetched_eq (h : Arrives env bundle s.disk.tree root storage)
    (hrun : Completes env storage bundle s s' opened fetched unpacked) :
    Leads fetched.disk.tree (storage.bundleDir bundle.walletType) root ∧
      fetched.disk.tree.get = transferred env bundle s.disk.tree root := by
  obtain ⟨hleads, hopened⟩ := h.opened_eq hrun.create
  obtain ⟨hlook, -⟩ := fetched_get (s := { s with disk := opened }) h.name hleads.locate hopened
    h.noLink hrun.asset
  refine ⟨hleads.of_outside fun l hl => ?_, hlook⟩
  rw [hlook, transferred, if_neg, if_neg, ← hopened]
  · rintro rfl
    exact hl (Install.tmpLoc_below bundle root)
  · rintro rfl
    exact hl (Install.assetLoc_below bundle root)

/-- Behind the removal of the archive, every place holds what the entries and the tree before
tell. -/
theorem Arrives.contents_eq (h : Arrives env bundle s.disk.tree root storage)
    (hrun : Completes env storage bundle s s' opened fetched unpacked) :
    Leads (cleanedUp env storage bundle unpacked).tree (storage.bundleDir bundle.walletType) root ∧
      (cleanedUp env storage bundle unpacked).tree.get = contents env bundle s.disk.tree root := by
  obtain ⟨hleads, hlook⟩ := h.fetched_eq hrun
  have hasset : fetched.disk.tree.get (assetLoc bundle root) = some (.leaf (.file
      { emptied (s.disk.tree.get (tmpLoc bundle root)) with
        bytes := (env.transfer.response.map fun response => body response.stream).getD [] })) := by
    rw [hlook, transferred, if_pos rfl]
  obtain ⟨hopens, entries, hentries⟩ :=
    extracted_ok h.name hleads.locate hleads.dir hasset hrun.extract
  have hextract := hrun.extract
  rw [extracted_run h.name hleads.locate hleads.dir hasset hopens hentries] at hextract
  have harchive : env.archive = entries.reduceOption := by
    rw [DownloadEnv.archive, hentries, Option.getD_some]
  have hstraight := h.straight
  rw [harchive, ← hlook] at hstraight
  have hleaves := extractEntries_leave hleads hstraight hextract
  have hunpacked : Leads unpacked.tree (storage.bundleDir bundle.walletType) root :=
    hleads.of_outside fun l hl => by rw [hleaves, leftBy_outside hl]
  have hleft : ∀ l, unpacked.tree.get l =
      leftBy root env.archive (transferred env bundle s.disk.tree root) l := by
    rw [harchive, ← hlook]
    exact hleaves
  have hplace : place unpacked.tree (archivePathOf storage bundle) =
      some (assetLoc bundle root) := by
    rw [archivePathOf_eq h.name]
    exact place_normal hunpacked.locate hunpacked.dir
  have hget : (cleanedUp env storage bundle unpacked).tree.get =
      contents env bundle s.disk.tree root := by
    funext l
    rw [contents, ← hleft]
    rcases cleanedUp_cases env storage bundle unpacked with
      ⟨loc, ⟨hgranted, hloc, leaf, hleaf⟩, hremoved⟩ | ⟨hkept, hsame⟩
    · obtain rfl := Option.some.inj (hplace.symm.trans hloc)
      rw [hremoved.get]
      by_cases heq : l = assetLoc bundle root
      · rw [if_pos heq, if_pos ⟨heq, hgranted, by rw [heq, hleaf]; simp⟩]
      · rw [if_neg heq, if_neg fun hgone => heq hgone.1]
    · rw [hsame]
      split
      · next hgone =>
        obtain ⟨rfl, hgranted, hnodir⟩ := hgone
        cases hnode : unpacked.tree.get (assetLoc bundle root) with
        | none => rfl
        | some node =>
          cases node with
          | dir => exact absurd hnode hnodir
          | leaf leaf => exact absurd ⟨hgranted, hplace, leaf, hnode⟩ (hkept _)
      · rfl
  refine ⟨hunpacked.of_outside fun l hl => ?_, hget⟩
  rw [hget, contents, if_neg, hleft]
  rintro ⟨rfl, -⟩
  exact hl (Install.assetLoc_below bundle root)

end Arrives

end Hwwctl.Bundler
