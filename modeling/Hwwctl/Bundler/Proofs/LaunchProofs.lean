import Hwwctl.Bundler.Proofs.ArrivalProofs
import Hwwctl.Bundler.Proofs.CandidatesProofs
import Hwwctl.Library.Links

/-!
# Launching what has been installed

When the path in the manifest of a new installation names an executable file. The manifest is
written beside the program, and the name it is written under first may be taken.
-/

namespace Hwwctl.Bundler

open FileTree Io Emulators

/-! ## New directories -/

section Vacant

variable {grants : FilePath → Bool} {disk disk' : Disk} {path done rest : FilePath}

/-- The path leads to a directory in which nothing stands. -/
def Vacant (tree : FsTree) (path : FilePath) : Prop :=
  ∃ loc, locate tree path = some loc ∧ tree.get loc = some .dir ∧
    ∀ name, tree.get (name :: loc) = none

theorem ensureDirs_vacant (hplain : ∀ c ∈ rest, ∃ name, c = .normal name)
    (hdone : Vacant disk.tree done) (h : ensureDirs grants done rest disk = (.ok (), disk')) :
    Vacant disk'.tree (done ++ rest) := by
  induction rest generalizing done disk with
  | nil =>
    cases h
    rw [List.append_nil]
    exact hdone
  | cons c rest ih =>
    obtain ⟨name, rfl⟩ := hplain c List.mem_cons_self
    obtain ⟨_, disk₁, hfirst, hrest⟩ := Act.bind_ok h
    rw [List.append_cons]
    refine ih (fun c hc => hplain c (List.mem_cons_of_mem _ hc)) ?_ hrest
    obtain ⟨loc, hlocate, hdir, hnone⟩ := hdone
    have hnew : locate disk.tree (done ++ [.normal name]) = some (name :: loc) := by
      refine locate_normal hlocate hdir ?_
      rw [hnone]
      simp
    rcases ensureDir_ok hfirst with ⟨hisDir, -⟩ | ⟨-, new, tree, hplace, hfree, hput, rfl⟩
    · rw [isDir_eq_false hnew (by rw [hnone]; simp)] at hisDir
      cases hisDir
    · obtain rfl : name :: loc = new :=
        Option.some.inj ((place_normal hlocate hdir).symm.trans hplace)
      obtain ⟨hlocate', hdir'⟩ := locate_made hlocate hdir hfree hput
      refine ⟨name :: loc, hlocate', hdir', fun child => ?_⟩
      show tree.get (child :: name :: loc) = none
      rw [Tree.get_put hput, if_neg (by simp)]
      exact Tree.nothing_below hfree (below_cons child)

/-- A directory that is there goes on being there, and one that is made is empty. -/
theorem ensureDirs_cases (hplain : ∀ c ∈ rest, ∃ name, c = .normal name)
    (hdone : isDir disk.tree done = true) (h : ensureDirs grants done rest disk = (.ok (), disk')) :
    (disk' = disk ∧ isDir disk.tree (done ++ rest) = true) ∨ Vacant disk'.tree (done ++ rest) := by
  induction rest generalizing done with
  | nil =>
    cases h
    rw [List.append_nil]
    exact .inl ⟨rfl, hdone⟩
  | cons c rest ih =>
    obtain ⟨name, rfl⟩ := hplain c List.mem_cons_self
    have hplain' : ∀ c ∈ rest, ∃ name, c = .normal name :=
      fun c hc => hplain c (List.mem_cons_of_mem _ hc)
    obtain ⟨_, disk₁, hfirst, hrest⟩ := Act.bind_ok h
    rw [List.append_cons]
    rcases ensureDir_ok hfirst with ⟨hisDir, rfl⟩ | ⟨-, new, tree, hplace, hfree, hput, rfl⟩
    · exact ih hplain' hisDir hrest
    · obtain ⟨loc, hlocate, hdir⟩ := isDir_iff.1 hdone
      obtain rfl : name :: loc = new :=
        Option.some.inj ((place_normal hlocate hdir).symm.trans hplace)
      obtain ⟨hlocate', hdir'⟩ := locate_made hlocate hdir hfree hput
      refine .inr (ensureDirs_vacant hplain' ⟨name :: loc, hlocate', hdir', fun child => ?_⟩ hrest)
      show tree.get (child :: name :: loc) = none
      rw [Tree.get_put hput, if_neg (by simp)]
      exact Tree.nothing_below hfree (below_cons child)

theorem createDirAll_cases (hplain : ∀ c ∈ path.tail, ∃ name, c = .normal name)
    (h : createDirAll grants path disk = (.ok (), disk')) :
    (disk' = disk ∧ isDir disk.tree path = true) ∨ Vacant disk'.tree path := by
  have hroot : isDir disk.tree [] = true := isDir_iff.2 ⟨[], rfl, Tree.get_nil⟩
  cases path with
  | nil =>
    cases h
    exact .inl ⟨rfl, hroot⟩
  | cons c rest =>
    have hself : ∀ c, (∀ name, c ≠ .normal name) → isDir disk.tree [c] = true := by
      intro c hc
      cases c with
      | rootDir => exact isDir_iff.2 ⟨[], rfl, Tree.get_nil⟩
      | curDir => exact isDir_iff.2 ⟨[], rfl, Tree.get_nil⟩
      | parentDir => exact isDir_iff.2 ⟨[], rfl, Tree.get_nil⟩
      | normal name => exact absurd rfl (hc name)
    by_cases hc : ∃ name, c = .normal name
    · refine ensureDirs_cases ?_ hroot h
      intro c' hc'
      rcases List.mem_cons.1 hc' with rfl | hc'
      · exact hc
      · exact hplain c' hc'
    · obtain ⟨_, disk₁, hfirst, hrest⟩ := Act.bind_ok h
      have hisDir := hself c fun name heq => hc ⟨name, heq⟩
      rw [List.nil_append, ensureDir_of_isDir hisDir] at hfirst
      cases hfirst
      exact ensureDirs_cases hplain hisDir hrest

end Vacant

/-! ## Writing the manifest over what stands there -/

section Executable

variable {disk disk' : Disk} {path : FilePath} {loc : FsLoc} {tree tree' : FsTree}

theorem isExecutableFile_eq (hlocate : locate tree path = some loc) :
    isExecutableFile tree path = (emptied (tree.get loc)).executable := by
  unfold isExecutableFile readFile stat emptied
  rw [hlocate, Option.bind_some]
  cases tree.get loc with
  | none => rfl
  | some node =>
    cases node with
    | dir => rfl
    | leaf leaf => cases leaf <;> rfl

theorem isExecutableFile_iff :
    isExecutableFile tree path = true ↔
      ∃ loc, locate tree path = some loc ∧ (emptied (tree.get loc)).executable = true := by
  constructor
  · intro h
    cases hlocate : locate tree path with
    | none => simp [isExecutableFile, readFile, stat, hlocate] at h
    | some loc => exact ⟨loc, rfl, by rw [← isExecutableFile_eq hlocate]; exact h⟩
  · rintro ⟨loc, hlocate, hexec⟩
    rw [isExecutableFile_eq hlocate]
    exact hexec

end Executable

section Manifest

variable {env : DownloadEnv} {storage : BundleStorage} {bundle : RemoteBundle} {disk disk' made : Disk}
  {root file : FsLoc}

theorem manifestTmp_ne : osString "manifest.json.tmp" ≠ osString "manifest.json" := by decide

theorem manifestTmpLoc_ne (root : FsLoc) : manifestTmpLoc root ≠ manifestLoc root :=
  fun heq => manifestTmp_ne (List.cons.inj heq).1

/-- What stands at the temporary manifest's name takes the manifest's place. -/
def manifestMoved (tree : FsTree) (root : FsLoc) : FsTree :=
  tree.move (manifestTmpLoc root) (manifestLoc root)

/-- The manifest has been written at `file`, and what stands at its temporary name has been moved. -/
structure Registers (dir : FilePath) (made disk' : Disk) (root file : FsLoc) (data : FileData) :
    Prop where
  leads : locate made.tree (dir ++ [.normal (osString "manifest.json.tmp")]) = some file
  free : made.tree.get file ≠ some .dir
  tmp : made.tree.get (manifestTmpLoc root) ≠ some .dir
  manifest : made.tree.get (manifestLoc root) ≠ some .dir
  mode : data.executable = (emptied (made.tree.get file)).executable
  get : ∀ loc, disk'.tree.get loc =
    if loc = manifestLoc root then
      if manifestTmpLoc root = file then some (.leaf (.file data))
      else made.tree.get (manifestTmpLoc root)
    else if loc = manifestTmpLoc root then none
    else if loc = file then some (.leaf (.file data)) else made.tree.get loc

theorem described_registers
    (hmade : createDirAll env.manifest.grants (storage.bundleDir bundle.walletType) disk =
      (.ok (), made))
    (hleads : locate made.tree (storage.bundleDir bundle.walletType) = some root)
    (hroot : made.tree.get root = some .dir)
    (h : described env storage bundle disk = (.ok (), disk')) :
    ∃ file data, Registers (storage.bundleDir bundle.walletType) made disk' root file data ∧
      env.json.toStringPretty (newManifest env storage bundle disk.tree) = some data.bytes := by
  obtain ⟨bytes, file, made', opened, written, hruns⟩ := described_runs h
  obtain ⟨-, rfl⟩ := Prod.mk.inj (hmade.symm.trans hruns.create)
  obtain ⟨hlocate, hnodir, hempty⟩ := createFile_ok hruns.open_tmp
  have hfull : Written made written file bytes := writeAll_ok hempty hruns.write
  have hmode : emptied (written.tree.get file) = emptied (made.tree.get file) :=
    (writeAll_executable hruns.write).trans (createFile_executable hruns.open_tmp)
  obtain ⟨hleads', hroot'⟩ := hfull.leads hlocate hnodir hleads hroot
  obtain ⟨hsource, htarget⟩ := place_manifests hleads' hroot'
  obtain ⟨leaf, hleaf, hget⟩ := rename_ok hsource htarget hruns.rename
  have hne := (manifestTmpLoc_ne root).symm
  obtain ⟨-, hmanifest⟩ := rename_granted hsource htarget hne hruns.rename
  obtain ⟨data, hdata, rfl⟩ := hfull.data
  have hwritten : ∀ loc, written.tree.get loc =
      if loc = file then some (.leaf (.file data)) else made.tree.get loc := by
    intro loc
    split
    · next heq => rw [heq, hdata]
    · next hother => exact hfull.same loc hother
  have hkind : ∀ loc, written.tree.get loc ≠ some .dir → made.tree.get loc ≠ some .dir := by
    intro loc hloc
    by_cases heq : loc = file
    · rw [heq]
      exact hnodir
    · rw [hwritten, if_neg heq] at hloc
      exact hloc
  rw [tmpManifest_eq] at hlocate
  refine ⟨file, data, ⟨hlocate, hnodir, hkind _ (by rw [hleaf]; simp), hkind _ hmanifest, ?_, ?_⟩,
    hruns.text⟩
  · rw [← hmode, hdata]
    rfl
  · intro loc
    rw [hget, ← hleaf, hwritten, hwritten]

namespace Registers

variable {dir path : FilePath} {data : FileData} {target : FilePath} {loc : FsLoc}

theorem file_not_link (h : Registers dir made disk' root file data) :
    made.tree.get file ≠ some (.leaf (.symlink target)) :=
  (locate_ends h.leads).1 target

section There

variable (h : Registers dir made disk' root file data) (hleads : locate made.tree dir = some root)
  (hroot : made.tree.get root = some .dir)
include h hroot

theorem get_moved (loc : FsLoc) : (manifestMoved made.tree root).get loc =
    if loc = manifestLoc root then made.tree.get (manifestTmpLoc root)
    else if loc = manifestTmpLoc root then none else made.tree.get loc :=
  Tree.get_move (manifestTmpLoc_ne root) h.tmp h.manifest hroot loc

theorem moved_not_dir : (manifestMoved made.tree root).get file ≠ some .dir := by
  rw [h.get_moved hroot]
  split
  · exact h.tmp
  · split
    · simp
    · exact h.free

/-- The same is found as after the move, except for the file that has been written. -/
theorem alike (loc : FsLoc) :
    disk'.tree.get loc = (manifestMoved made.tree root).get loc ∨
      Blocks (manifestMoved made.tree root) loc ∧ Blocks disk'.tree loc ∧
        (emptied (disk'.tree.get loc)).executable =
          (emptied ((manifestMoved made.tree root).get loc)).executable := by
  have hblocks : made.tree.get file = none ∨
      ∃ data, made.tree.get file = some (.leaf (.file data)) := by
    cases hget : made.tree.get file with
    | none => exact .inl rfl
    | some node =>
      cases node with
      | dir => exact absurd hget h.free
      | leaf leaf =>
        cases leaf with
        | file data => exact .inr ⟨data, rfl⟩
        | symlink target => exact absurd hget h.file_not_link
  have hget := h.get loc
  have hmoved := h.get_moved hroot loc
  by_cases hmanifest : loc = manifestLoc root
  · rw [if_pos hmanifest] at hget hmoved
    by_cases htmp : manifestTmpLoc root = file
    · rw [if_pos htmp] at hget
      rw [htmp] at hmoved
      refine .inr ⟨?_, .inr ⟨data, hget⟩, ?_⟩
      · rw [Blocks, hmoved]
        exact hblocks
      · rw [hget, hmoved]
        exact h.mode
    · rw [if_neg htmp] at hget
      exact .inl (hget.trans hmoved.symm)
  · rw [if_neg hmanifest] at hget hmoved
    by_cases htmp : loc = manifestTmpLoc root
    · rw [if_pos htmp] at hget hmoved
      exact .inl (hget.trans hmoved.symm)
    · rw [if_neg htmp] at hget hmoved
      by_cases hfile : loc = file
      · rw [if_pos hfile] at hget
        rw [hfile] at hmoved
        refine .inr ⟨?_, .inr ⟨data, hget⟩, ?_⟩
        · rw [Blocks, hfile, hmoved]
          exact hblocks
        · rw [hget, hfile, hmoved]
          exact h.mode
      · rw [if_neg hfile] at hget
        exact .inl (hget.trans hmoved.symm)

theorem locate_eq : locate disk'.tree path = locate (manifestMoved made.tree root) path := by
  refine locate_alike fun loc => ?_
  rcases h.alike hroot loc with hsame | ⟨hblocks, hblocks', -⟩
  · exact .inl hsame
  · exact .inr ⟨hblocks, hblocks'⟩

theorem executable_eq :
    isExecutableFile disk'.tree path = isExecutableFile (manifestMoved made.tree root) path := by
  rw [Bool.eq_iff_iff, isExecutableFile_iff, isExecutableFile_iff, h.locate_eq hroot]
  refine exists_congr fun loc => and_congr_right fun _ => ?_
  rcases h.alike hroot loc with hsame | ⟨-, -, hmode⟩
  · rw [hsame]
  · rw [hmode]

include hleads

/-- Where there is no link at the temporary name, the manifest is written there. -/
theorem file_of_plain
    (hplain : ∀ target, made.tree.get (manifestTmpLoc root) ≠ some (.leaf (.symlink target))) :
    manifestTmpLoc root = file :=
  Option.some.inj ((locate_normal hleads hroot hplain).symm.trans h.leads)

/-- Where a path leads after the move. -/
theorem locate_moved (hloc : locate (manifestMoved made.tree root) path = some loc) :
    locate made.tree path = some loc ∨ loc = manifestTmpLoc root ∨ loc = manifestLoc root ∨
      (∃ target, made.tree.get (manifestTmpLoc root) = some (.leaf (.symlink target))) ∧
        loc = file :=
  locate_of_move manifestTmp_ne h.tmp h.manifest hroot
    (fun _ hlink => ⟨walk_link_of_locate hleads hroot hlink h.leads, h.moved_not_dir hroot⟩) hloc

theorem moved_leads (hdir : isDir (manifestMoved made.tree root) dir = true) :
    locate (manifestMoved made.tree root) dir = some root := by
  obtain ⟨loc, hloc, hget⟩ := isDir_iff.1 hdir
  rcases h.locate_moved hleads hroot hloc with hbefore | rfl | rfl | ⟨-, rfl⟩
  · rw [hloc, ← hbefore, hleads]
  · rw [h.get_moved hroot, if_neg (manifestTmpLoc_ne root), if_pos rfl] at hget
    cases hget
  · rw [h.get_moved hroot, if_pos rfl] at hget
    exact absurd hget h.tmp
  · exact absurd hget (h.moved_not_dir hroot)

/-- An executable file was one before, unless it has been moved. -/
theorem moved_executable
    (hexec : isExecutableFile (manifestMoved made.tree root) path = true) :
    isExecutableFile made.tree path = true ∨
      isExecutableFile made.tree (dir ++ [.normal (osString "manifest.json.tmp")]) = true := by
  have hlink : ∀ {node : Option FsNode}, (emptied node).executable = true →
      ∀ target, node ≠ some (.leaf (.symlink target)) := by
    rintro _ hmode target rfl
    cases hmode
  have htmp : (emptied (made.tree.get (manifestTmpLoc root))).executable = true →
      isExecutableFile made.tree (dir ++ [.normal (osString "manifest.json.tmp")]) = true := by
    intro hmode
    rw [h.file_of_plain hleads hroot (hlink hmode)] at hmode
    exact isExecutableFile_iff.2 ⟨file, h.leads, hmode⟩
  obtain ⟨loc, hloc, hmode⟩ := isExecutableFile_iff.1 hexec
  rw [h.get_moved hroot] at hmode
  by_cases hmanifest : loc = manifestLoc root
  · rw [if_pos hmanifest] at hmode
    exact .inr (htmp hmode)
  · rw [if_neg hmanifest] at hmode
    by_cases hgone : loc = manifestTmpLoc root
    · rw [if_pos hgone] at hmode
      cases hmode
    · rw [if_neg hgone] at hmode
      rcases h.locate_moved hleads hroot hloc with hbefore | heq | heq | ⟨-, rfl⟩
      · exact .inl (isExecutableFile_iff.2 ⟨loc, hbefore, hmode⟩)
      · exact absurd heq hgone
      · exact absurd heq hmanifest
      · exact .inr (isExecutableFile_iff.2 ⟨loc, h.leads, hmode⟩)

/-- If the manifest's path leads anywhere, it leads to what has been written. -/
theorem read_manifest (hthere : (locate (manifestMoved made.tree root)
      (dir ++ [.normal (osString "manifest.json")])).isSome = true) :
    readFile disk'.tree (dir ++ [.normal (osString "manifest.json")]) = some data := by
  obtain ⟨loc, hloc⟩ := Option.isSome_iff_exists.1 hthere
  have hread : ∀ {loc}, locate disk'.tree (dir ++ [.normal (osString "manifest.json")]) = some loc →
      disk'.tree.get loc = some (.leaf (.file data)) →
      readFile disk'.tree (dir ++ [.normal (osString "manifest.json")]) = some data := by
    intro loc hlocate hget
    simp only [readFile, stat, hlocate, Option.bind_some, hget]
  have hmoved := h.moved_leads hleads hroot (isDir_of_locate (List.cons_ne_nil _ _) hloc)
  by_cases hlink : ∃ target, made.tree.get (manifestTmpLoc root) = some (.leaf (.symlink target))
  · obtain ⟨target, hlink⟩ := hlink
    have hlink' : (manifestMoved made.tree root).get (manifestLoc root) =
        some (.leaf (.symlink target)) := by
      rw [h.get_moved hroot, if_pos rfl, hlink]
    have hroot' : (manifestMoved made.tree root).get root = some .dir :=
      Tree.get_tail (by rw [manifestLoc] at hlink'; rw [hlink']; simp)
    obtain ⟨n, hfile⟩ := walk_link_of_locate hleads hroot hlink h.leads
    obtain ⟨m, hwalk⟩ := walk_link_of_locate hmoved hroot' hlink' hloc
    obtain rfl := link_move manifestTmp_ne hlink h.manifest hfile hwalk
    refine hread ((h.locate_eq hroot).trans hloc) ?_
    rw [h.get, if_neg, if_neg, if_pos rfl]
    · rintro rfl
      exact h.file_not_link hlink
    · rintro rfl
      exact (locate_ends hloc).1 target hlink'
  · have hplain := h.file_of_plain hleads hroot fun target htarget => hlink ⟨target, htarget⟩
    have hget : disk'.tree.get (manifestLoc root) = some (.leaf (.file data)) := by
      rw [h.get, if_pos rfl, if_pos hplain]
    have hroot' : disk'.tree.get root = some .dir :=
      Tree.get_tail (by rw [manifestLoc] at hget; rw [hget]; simp)
    refine hread (locate_normal ((h.locate_eq hroot).trans hmoved) hroot' ?_) hget
    intro target htarget
    rw [manifestLoc] at hget
    rw [hget] at htarget
    cases htarget

end There

end Registers

end Manifest

/-! ## The name in the manifest -/

section Name

variable {order : List OsString → List OsString} {tree : FsTree} {dir : FilePath}
  {walletType : WalletType} {root : FsLoc} {name : String}

/-- `read_dir` lists every name that is there, and a name is one component of a path. -/
def ListsFileNames (order : List OsString → List OsString) : Prop :=
  ∀ names name, name ∈ order names ↔ name ∈ names ∧ components name = [.normal name]

/-- The first of the bundler's names that is there, or if none is, the first executable file. -/
def Named (order : List OsString → List OsString) (tree : FsTree) (dir : FilePath)
    (walletType : WalletType) (name : String) : Prop :=
  (binaryNames walletType).find? (present tree dir) = some name ∨
    (∀ other ∈ binaryNames walletType, present tree dir other = false) ∧
      ListedFirst order tree dir name

theorem findEmulatorBinary_named (h : Named order tree dir walletType name) :
    findEmulatorBinary order tree dir walletType = name := by
  rw [findEmulatorBinary_eq]
  rcases h with hknown | ⟨habsent, hlisted⟩
  · rw [hknown, Option.some_or, Option.getD_some]
  · have hnone : (binaryNames walletType).find? (present tree dir) = none :=
      List.find?_eq_none.2 (by simpa using habsent)
    rw [hnone, Option.none_or, scanned_iff.2 hlisted, Option.getD_some]

theorem findEmulatorBinary_cases (order : List OsString → List OsString) (tree : FsTree)
    (dir : FilePath) (walletType : WalletType) :
    Named order tree dir walletType (findEmulatorBinary order tree dir walletType) ∨
      (∀ name, ¬ ListedFirst order tree dir name) ∧
        findEmulatorBinary order tree dir walletType = walletDirName walletType := by
  cases hknown : (binaryNames walletType).find? (present tree dir) with
  | some name =>
    have hnamed : Named order tree dir walletType name := .inl hknown
    rw [findEmulatorBinary_named hnamed]
    exact .inl hnamed
  | none =>
    have habsent : ∀ other ∈ binaryNames walletType, present tree dir other = false := by
      simpa using List.find?_eq_none.1 hknown
    by_cases hlisted : ∃ name, ListedFirst order tree dir name
    · obtain ⟨name, hname⟩ := hlisted
      have hnamed : Named order tree dir walletType name := .inr ⟨habsent, hname⟩
      rw [findEmulatorBinary_named hnamed]
      exact .inl hnamed
    · refine .inr ⟨fun name hname => hlisted ⟨name, hname⟩, ?_⟩
      have hscan : scanned order tree dir = none := by
        by_contra hsome
        obtain ⟨name, hname⟩ := Option.ne_none_iff_exists'.1 hsome
        exact hlisted ⟨name, scanned_iff.1 hname⟩
      rw [findEmulatorBinary_eq, hknown, Option.none_or, hscan, Option.getD_none]

/-- Every name that can come to stand in the manifest is one component of a path. -/
theorem components_found (horder : ListsFileNames order) :
    components (osString (findEmulatorBinary order tree dir walletType)) =
      [.normal (osString (findEmulatorBinary order tree dir walletType))] := by
  have hknown : ∀ w, ∀ name ∈ binaryNames w,
      components (osString name) = [.normal (osString name)] := by
    intro w
    cases w <;> decide
  have hmade : ∀ w, components (osString (walletDirName w)) =
      [.normal (osString (walletDirName w))] := by
    intro w
    cases w <;> decide
  rcases findEmulatorBinary_cases order tree dir walletType with (hnamed | ⟨-, hlisted⟩) | ⟨-, hlast⟩
  · exact hknown walletType _ (List.mem_of_find?_eq_some hnamed)
  · obtain ⟨-, before, after, hlist, -⟩ := hlisted
    cases hread : readDir order tree dir with
    | none => simp [hread] at hlist
    | some names =>
      rw [hread, Option.getD_some] at hlist
      unfold readDir at hread
      split at hread
      · split at hread
        · obtain rfl := Option.some.inj hread
          have hmem : osString (findEmulatorBinary order tree dir walletType) ∈ before ++ _ :: after :=
            List.mem_append_right before List.mem_cons_self
          rw [← hlist] at hmem
          exact ((horder _ _).1 hmem).2
        · cases hread
      · cases hread
  · rw [hlast]
    exact hmade walletType

/-- Where no executable file is listed, there is none whose name is a string. -/
theorem not_executable (horder : ListsFileNames order) (hleads : locate tree dir = some root)
    (hroot : tree.get root = some .dir) (hnone : ∀ name, ¬ ListedFirst order tree dir name)
    (hname : components (osString name) = [.normal (osString name)]) :
    isExecutableFile tree (dir ++ [.normal (osString name)]) = false := by
  rw [Bool.eq_false_iff]
  intro hexec
  have hthere : tree.get (osString name :: root) ≠ none := by
    intro hfree
    have hlocate : locate tree (dir ++ [.normal (osString name)]) = some (osString name :: root) := by
      refine locate_normal hleads hroot ?_
      rw [hfree]
      simp
    rw [isExecutableFile_eq hlocate, hfree] at hexec
    cases hexec
  have hread : readDir order tree dir = some (order (tree.names root)) := by
    simp [readDir, hleads, hroot]
  have hmem : osString name ∈ (readDir order tree dir).getD [] := by
    rw [hread]
    exact (horder _ _).2 ⟨Tree.mem_names.2 hthere, hname⟩
  have hscan : scanned order tree dir ≠ none := by
    rw [Ne, scanned, List.findSome?_eq_none_iff]
    intro hall
    have hskipped := hall (osString name) hmem
    rw [if_pos hexec, toStr_eq_some.2 rfl] at hskipped
    cases hskipped
  obtain ⟨first, hfirst⟩ := Option.ne_none_iff_exists'.1 hscan
  exact hnone first (scanned_iff.1 hfirst)

/-- The directory in which something is named is there. -/
theorem Named.isDir (h : Named order tree dir walletType name) : FileTree.isDir tree dir = true := by
  have hlocate : ∃ loc, locate tree (dir ++ [.normal (osString name)]) = some loc := by
    rcases h with hknown | ⟨-, hexec, -⟩
    · have hpresent : present tree dir name = true := List.find?_some hknown
      rw [present, stat, Option.isSome_iff_exists] at hpresent
      obtain ⟨_, hstat⟩ := hpresent
      obtain ⟨loc, hloc, -⟩ := Option.bind_eq_some_iff.1 hstat
      exact ⟨loc, hloc⟩
    · obtain ⟨loc, hloc, -⟩ := isExecutableFile_iff.1 hexec
      exact ⟨loc, hloc⟩
  obtain ⟨loc, hloc⟩ := hlocate
  exact isDir_of_locate (List.cons_ne_nil _ _) hloc

theorem Vacant.not_executable (h : Vacant tree dir) (name : OsString) :
    isExecutableFile tree (dir ++ [.normal name]) = false := by
  obtain ⟨root, hleads, hroot, hnone⟩ := h
  have hlocate : locate tree (dir ++ [.normal name]) = some (name :: root) := by
    refine locate_normal hleads hroot ?_
    rw [hnone]
    simp
  rw [isExecutableFile_eq hlocate, hnone]
  rfl

end Name

/-! ## Installations -/

/-- The path that is handed out lies in the bundle directory and names an executable regular
file. -/
def Launchable (json : Json) (storage : BundleStorage) (tree : FsTree) (walletType : WalletType) :
    Prop :=
  ∃ names : List OsString, names ≠ [] ∧
    emulatorBinaryPath json storage tree walletType =
      some (storage.bundleDir walletType ++ names.map .normal) ∧
    isExecutableFile tree (storage.bundleDir walletType ++ names.map .normal) = true

/-- What is named is an executable file, also when `manifest.json.tmp`, if there is one, takes the
place of `manifest.json`; and `manifest.json` is then no link that leads nowhere. -/
def NamesProgram (order : List OsString → List OsString) (tree : FsTree) (dir : FilePath)
    (walletType : WalletType) : Prop :=
  ∃ root name, locate tree dir = some root ∧ Named order tree dir walletType name ∧
    isExecutableFile (manifestMoved tree root) (dir ++ [.normal (osString name)]) = true ∧
    (locate (manifestMoved tree root)
      (dir ++ [.normal (osString "manifest.json")])).isSome = true

/-! ### Read off the archive -/

section Ships

/-- What a path leads to, where `look` says what stands at each place. -/
def leadsTo (look : FsLoc → Option FsNode) (path : FilePath) : Option FsNode :=
  (walk look maxLinks [] path).bind look

def IsProgram (look : FsLoc → Option FsNode) (path : FilePath) : Prop :=
  ∃ data, leadsTo look path = some (.leaf (.file data)) ∧ data.executable = true

/-- The first of the bundler's names at which there is anything is a program, or there is nothing at
any of them and a program under another name. -/
def ShipsEmulator (look : FsLoc → Option FsNode) (dir : FilePath) (walletType : WalletType) :
    Prop :=
  (∃ before name after, binaryNames walletType = before ++ name :: after ∧
      (∀ other ∈ before, leadsTo look (dir ++ [.normal (osString other)]) = none) ∧
      IsProgram look (dir ++ [.normal (osString name)])) ∨
    (∀ name ∈ binaryNames walletType, leadsTo look (dir ++ [.normal (osString name)]) = none) ∧
      ∃ name : String, components (osString name) = [.normal (osString name)] ∧
        IsProgram look (dir ++ [.normal (osString name)])

/-- Nothing stands where the manifest is written first, and no link or program where it goes. -/
structure LeavesRoom (look : FsLoc → Option FsNode) (root : FsLoc) : Prop where
  tmp : look (manifestTmpLoc root) = none
  manifest : look (manifestLoc root) = none ∨
    ∃ data, look (manifestLoc root) = some (.leaf (.file data)) ∧ data.executable = false

variable {order : List OsString → List OsString} {tree : FsTree} {dir path : FilePath}
  {walletType : WalletType} {root : FsLoc}

theorem isProgram_iff : IsProgram tree.get path ↔ isExecutableFile tree path = true := by
  rw [IsProgram, isExecutableFile, readFile, show leadsTo tree.get path = stat tree path from rfl]
  cases stat tree path with
  | none => simp
  | some node =>
    cases node with
    | dir => simp
    | leaf leaf => cases leaf <;> simp

theorem present_eq_false {name : String} :
    present tree dir name = false ↔ leadsTo tree.get (dir ++ [.normal (osString name)]) = none := by
  rw [present, Option.isSome_eq_false_iff, Option.isNone_iff_eq_none]
  rfl

section Room

variable (hroom : LeavesRoom tree.get root) (hroot : tree.get root = some .dir)
include hroom hroot

/-- Then nothing but the earlier manifest goes when the new one is put in its place. -/
theorem manifestMoved_get (loc : FsLoc) :
    (manifestMoved tree root).get loc = if loc = manifestLoc root then none else tree.get loc := by
  have hmanifest : tree.get (manifestLoc root) ≠ some .dir := by
    rcases hroom.manifest with hnone | ⟨data, hdata, -⟩
    · rw [hnone]
      simp
    · rw [hdata]
      simp
  have htmp : tree.get (manifestTmpLoc root) ≠ some .dir := by
    rw [hroom.tmp]
    simp
  rw [manifestMoved, Tree.get_move (manifestTmpLoc_ne root) htmp hmanifest hroot]
  split
  · exact hroom.tmp
  · split
    · next heq => rw [heq, hroom.tmp]
    · rfl

theorem locate_manifestMoved : locate (manifestMoved tree root) path = locate tree path := by
  refine locate_alike fun loc => ?_
  rw [manifestMoved_get hroom hroot]
  split
  · next heq =>
    refine .inr ⟨?_, .inl ?_⟩
    · rw [heq]
      exact hroom.manifest.imp_right fun ⟨data, hdata, _⟩ => ⟨data, hdata⟩
    · rw [manifestMoved_get hroom hroot, if_pos heq]
  · exact .inl rfl

theorem executable_manifestMoved :
    isExecutableFile (manifestMoved tree root) path = isExecutableFile tree path := by
  rw [Bool.eq_iff_iff, isExecutableFile_iff, isExecutableFile_iff,
    locate_manifestMoved hroom hroot]
  refine exists_congr fun loc => and_congr_right fun _ => ?_
  rw [manifestMoved_get hroom hroot]
  split
  · next heq =>
    rw [heq]
    rcases hroom.manifest with hnone | ⟨data, hdata, hmode⟩
    · rw [hnone]
    · rw [hdata]
      simp [emptied, hmode]
  · rfl

end Room

/-- The first name in a list at which there is something. -/
theorem find?_present_iff {names : List String} {name : String} :
    names.find? (present tree dir) = some name ↔
      present tree dir name = true ∧ ∃ before after, names = before ++ name :: after ∧
        ∀ other ∈ before, leadsTo tree.get (dir ++ [.normal (osString other)]) = none := by
  rw [List.find?_eq_some_iff_append]
  simp only [Bool.not_eq_true', present_eq_false]

theorem present_of_executable {name : String}
    (h : isExecutableFile tree (dir ++ [.normal (osString name)]) = true) :
    present tree dir name = true := by
  by_contra hno
  rw [Bool.not_eq_true, present_eq_false] at hno
  obtain ⟨data, hdata, -⟩ := isProgram_iff.2 h
  rw [hno] at hdata
  cases hdata

theorem namesProgram_iff (horder : ListsFileNames order) (hleads : locate tree dir = some root)
    (hroot : tree.get root = some .dir) (hroom : LeavesRoom tree.get root) :
    NamesProgram order tree dir walletType ↔ ShipsEmulator tree.get dir walletType := by
  have hmanifest : (locate (manifestMoved tree root)
      (dir ++ [.normal (osString "manifest.json")])).isSome = true := by
    rw [locate_manifestMoved hroom hroot, locate_normal hleads hroot]
    · rfl
    · intro target htarget
      rcases hroom.manifest with hnone | ⟨data, hdata, -⟩
      · rw [manifestLoc, htarget] at hnone
        cases hnone
      · rw [manifestLoc, htarget] at hdata
        cases hdata
  constructor
  · rintro ⟨root', name, hleads', hnamed, hexec, -⟩
    obtain rfl := Option.some.inj (hleads.symm.trans hleads')
    rw [executable_manifestMoved hroom hroot] at hexec
    rcases hnamed with hknown | ⟨habsent, hlisted⟩
    · obtain ⟨-, before, after, hsplit, hbefore⟩ := find?_present_iff.1 hknown
      exact .inl ⟨before, name, after, hsplit, hbefore, isProgram_iff.2 hexec⟩
    · refine .inr ⟨fun other hother => present_eq_false.1 (habsent other hother), name, ?_,
        isProgram_iff.2 hexec⟩
      obtain ⟨-, before, after, hlist, -⟩ := hlisted
      have hmem : osString name ∈ (readDir order tree dir).getD [] := by
        rw [hlist]
        exact List.mem_append_right before List.mem_cons_self
      rw [readDir, hleads] at hmem
      simp only [hroot, if_true, Option.getD_some] at hmem
      exact ((horder _ _).1 hmem).2
  · rintro (⟨before, name, after, hsplit, hbefore, hprogram⟩ | ⟨habsent, name, hname, hprogram⟩)
    · rw [isProgram_iff] at hprogram
      refine ⟨root, name, hleads, .inl ?_, ?_, hmanifest⟩
      · exact find?_present_iff.2 ⟨present_of_executable hprogram, before, after, hsplit, hbefore⟩
      · rw [executable_manifestMoved hroom hroot, hprogram]
    · -- The system lists some program first.
      obtain ⟨first, hfirst⟩ : ∃ first, ListedFirst order tree dir first := by
        by_contra hnone
        have hno := not_executable horder hleads hroot (not_exists.1 hnone) hname
        rw [isProgram_iff.1 hprogram] at hno
        cases hno
      refine ⟨root, first, hleads, .inr ⟨?_, hfirst⟩, ?_, hmanifest⟩
      · exact fun other hother => present_eq_false.2 (habsent other hother)
      · rw [executable_manifestMoved hroom hroot, hfirst.1]

end Ships

/-- The disk when the archive has been extracted and removed. -/
def extractedDisk (env : DownloadEnv) (storage : BundleStorage) (bundle : RemoteBundle)
    (s : Session) : Disk :=
  let opened := (createDirAll env.grants (storage.bundleDir bundle.walletType) s.disk).2
  let fetched :=
    (downloadAsset env.transfer (archivePathOf storage bundle) { s with disk := opened }).2
  cleanedUp env storage bundle (extracted env storage bundle fetched.disk).2

section Install

variable {env : DownloadEnv} {storage : BundleStorage} {bundle : RemoteBundle} {s s' : Session}

theorem Completes.extractedDisk_eq {opened unpacked : Disk} {fetched : Session}
    (h : Completes env storage bundle s s' opened fetched unpacked) :
    extractedDisk env storage bundle s = cleanedUp env storage bundle unpacked := by
  simp only [extractedDisk, h.create, h.asset, h.extract]

/-- The manifest that has been written is the one that is read, if its path leads anywhere. -/
theorem Registers.launchable_iff {disk disk' made : Disk} {root file : FsLoc} {data : FileData}
    (h : Registers (storage.bundleDir bundle.walletType) made disk' root file data)
    (hleads : locate made.tree (storage.bundleDir bundle.walletType) = some root)
    (hroot : made.tree.get root = some .dir) (horder : ListsFileNames env.order)
    (hread : env.json.fromSlice data.bytes = some (newManifest env storage bundle disk.tree)) :
    Launchable env.json storage disk'.tree bundle.walletType ↔
      (locate (manifestMoved made.tree root) (storage.bundleDir bundle.walletType ++
        [.normal (osString "manifest.json")])).isSome = true ∧
      isExecutableFile (manifestMoved made.tree root) (storage.bundleDir bundle.walletType ++
        [.normal (osString (findEmulatorBinary env.order disk.tree
          (storage.bundleDir bundle.walletType) bundle.walletType))]) = true := by
  have hpath : (locate (manifestMoved made.tree root) (storage.bundleDir bundle.walletType ++
        [.normal (osString "manifest.json")])).isSome = true →
      emulatorBinaryPath env.json storage disk'.tree bundle.walletType =
        some (storage.bundleDir bundle.walletType ++
          [.normal (osString (findEmulatorBinary env.order disk.tree
            (storage.bundleDir bundle.walletType) bundle.walletType))]) := by
    intro hthere
    have hmanifest : storage.readManifest env.json disk'.tree bundle.walletType =
        some (newManifest env storage bundle disk.tree) := by
      rw [BundleStorage.readManifest, BundleStorage.manifestPath, h.read_manifest hleads hroot hthere]
      exact hread
    rw [emulatorBinaryPath, hmanifest, Option.map_some]
    show some (join _ (components (osString (findEmulatorBinary env.order disk.tree _ _)))) = _
    rw [components_found horder]
    rfl
  constructor
  · rintro ⟨names, -, hemulator, hexec⟩
    have hthere : (locate (manifestMoved made.tree root) (storage.bundleDir bundle.walletType ++
        [.normal (osString "manifest.json")])).isSome = true := by
      rw [← h.locate_eq hroot]
      obtain ⟨m, hm, -⟩ := Option.map_eq_some_iff.1 hemulator
      obtain ⟨data', hdata', -⟩ := Option.bind_eq_some_iff.1 hm
      by_contra hnone
      have hlost : locate disk'.tree (storage.manifestPath bundle.walletType) = none := by
        simpa [BundleStorage.manifestPath] using hnone
      simp [readFile, stat, hlost] at hdata'
    refine ⟨hthere, ?_⟩
    rw [hpath hthere] at hemulator
    rw [← Option.some.inj hemulator, h.executable_eq hroot] at hexec
    exact hexec
  · rintro ⟨hthere, hexec⟩
    refine ⟨[_], by simp, hpath hthere, ?_⟩
    rw [List.map_singleton, h.executable_eq hroot]
    exact hexec

theorem launchable_iff_namesProgram (env : DownloadEnv) (storage : BundleStorage)
    (bundle : RemoteBundle) (s s' : Session)
    (hbase : ∀ c ∈ storage.baseDir.tail, ∃ name, c = .normal name)
    (horder : ListsFileNames env.order)
    (hjson : ∀ m bytes, m.buildInfo = none → env.json.toStringPretty m = some bytes →
      env.json.fromSlice bytes = some m)
    (h : download env storage bundle s = (.ok (), s')) :
    Launchable env.json storage s'.disk.tree bundle.walletType ↔
      NamesProgram env.order (extractedDisk env storage bundle s).tree
        (storage.bundleDir bundle.walletType) bundle.walletType := by
  obtain ⟨opened, fetched, unpacked, hruns⟩ := download_completes h
  rw [hruns.extractedDisk_eq]
  have hdescribe := hruns.describe
  generalize cleanedUp env storage bundle unpacked = disk at hdescribe
  obtain ⟨_, _, made, _, _, hsteps⟩ := described_runs hdescribe
  obtain ⟨root, hleads, hroot⟩ := isDir_iff.1 (createDirAll_ok hsteps.create)
  obtain ⟨file, data, hregisters, htext⟩ :=
    described_registers hsteps.create hleads hroot hdescribe
  have hlaunch := hregisters.launchable_iff hleads hroot horder (hjson _ _ rfl htext)
  rw [hlaunch]
  have hfound := findEmulatorBinary_cases env.order disk.tree
    (storage.bundleDir bundle.walletType) bundle.walletType
  cases hisDir : isDir disk.tree (storage.bundleDir bundle.walletType) with
  | true =>
    have hthere : createDirAll env.manifest.grants (storage.bundleDir bundle.walletType) disk =
        (.ok (), disk) := ensureDirs_of_isDir hisDir
    obtain ⟨-, rfl⟩ := Prod.mk.inj (hthere.symm.trans hsteps.create)
    constructor
    · rintro ⟨hmanifest, hexec⟩
      rcases hfound with hnamed | ⟨hnone, hlast⟩
      · exact ⟨root, _, hleads, hnamed, hexec, hmanifest⟩
      · -- A made-up name is that of no executable file, nor is the temporary manifest one.
        exfalso
        rcases hregisters.moved_executable hleads hroot hexec with hexec | hexec
        · rw [not_executable horder hleads hroot hnone (components_found horder)] at hexec
          cases hexec
        · rw [not_executable horder hleads hroot hnone (by decide)] at hexec
          cases hexec
    · rintro ⟨root', name, hleads', hnamed, hexec, hmanifest⟩
      obtain rfl := Option.some.inj (hleads.symm.trans hleads')
      rw [findEmulatorBinary_named hnamed]
      exact ⟨hmanifest, hexec⟩
  | false =>
    -- The directory is gone, and `write_manifest` makes an empty one.
    have hvacant : Vacant made.tree (storage.bundleDir bundle.walletType) := by
      refine (createDirAll_cases ?_ hsteps.create).resolve_left ?_
      · intro c hc
        unfold BundleStorage.bundleDir at hc
        cases hdir : storage.baseDir with
        | nil => simp [hdir] at hc
        | cons c₀ rest =>
          rw [hdir] at hbase hc
          rcases List.mem_append.1 hc with hc | hc
          · exact hbase c hc
          · exact ⟨_, List.mem_singleton.1 hc⟩
      · rintro ⟨-, hthere⟩
        rw [hisDir] at hthere
        cases hthere
    constructor
    · rintro ⟨-, hexec⟩
      exfalso
      rcases hregisters.moved_executable hleads hroot hexec with hexec | hexec
      all_goals
        rw [hvacant.not_executable] at hexec
        cases hexec
    · rintro ⟨_, _, _, hnamed, -⟩
      rw [hnamed.isDir] at hisDir
      cases hisDir

/-- The base directory's path has no `..`, and what is written of a manifest can be read. Then an
installation that succeeds can be launched exactly when the entries of the archive, laid over what
stood in the bundle directory, ship an emulator. Where they go by links, or bring the manifest's
temporary file, what counts is the directory that they leave. -/
theorem download_launchable_iff (env : DownloadEnv) (storage : BundleStorage)
    (bundle : RemoteBundle) (s s' : Session)
    (hbase : ∀ c ∈ storage.baseDir.tail, ∃ name, c = .normal name)
    (horder : ListsFileNames env.order)
    (hjson : ∀ m bytes, m.buildInfo = none → env.json.toStringPretty m = some bytes →
      env.json.fromSlice bytes = some m)
    (h : download env storage bundle s = (.ok (), s')) :
    (∀ root, Arrives env bundle s.disk.tree root storage →
      LeavesRoom (contents env bundle s.disk.tree root) root →
      (Launchable env.json storage s'.disk.tree bundle.walletType ↔
        ShipsEmulator (contents env bundle s.disk.tree root)
          (storage.bundleDir bundle.walletType) bundle.walletType)) ∧
    (Launchable env.json storage s'.disk.tree bundle.walletType ↔
      NamesProgram env.order (extractedDisk env storage bundle s).tree
        (storage.bundleDir bundle.walletType) bundle.walletType) := by
  have hgeneral := launchable_iff_namesProgram env storage bundle s s' hbase horder hjson h
  refine ⟨fun root harrives hroom => ?_, hgeneral⟩
  obtain ⟨opened, fetched, unpacked, hruns⟩ := download_completes h
  obtain ⟨hleads, hcontents⟩ := harrives.contents_eq hruns
  rw [← hcontents] at hroom ⊢
  rw [hgeneral, hruns.extractedDisk_eq]
  exact namesProgram_iff horder hleads.locate hleads.dir hroom

end Install

/-- Every name is listed, in the order in which the tree holds them. -/
def listing (names : List OsString) : List OsString :=
  names.filter fun name => components name = [.normal name]

theorem listing_listsFileNames : ListsFileNames listing := by
  intro names name
  simp [listing]

/-- The archive holds one program, and `listing` is what the system lists. -/
def listedEnv (name : String) : DownloadEnv :=
  { (shipping .trezor name).env with order := listing }

def installed (name : String) : Except String Unit × Session :=
  download (listedEnv name) trezorStorage trezorBundle nothingInstalled

theorem installed_ok {name : String} (h : (installed name).1 = .ok ()) :
    download (listedEnv name) trezorStorage trezorBundle nothingInstalled =
      (.ok (), (installed name).2) := by
  have hrun : ∀ x : Except String Unit × Session, x.1 = .ok () → x = (.ok (), x.2) :=
    fun _ hx => Prod.ext hx rfl
  exact hrun (installed name) h

/-- A file that lands in the bundle directory itself, from an archive that has nothing else. -/
theorem straight_of_child {root : FsLoc} {look : FsLoc → Option FsNode} {e : Entry} {n : OsString}
    (hnames : ∀ path, e.path = some path → (components path).drop 1 = (landing path).map .normal)
    (hgoal : e.goal root = n :: root) (hisDir : e.isDir = false) : Straight root look [e] := by
  rintro before e' after hsplit
  obtain ⟨rfl, rfl, rfl⟩ : before = [] ∧ e' = e ∧ after = [] := by
    cases before with
    | nil => simpa [eq_comm] using hsplit
    | cons _ _ => simp at hsplit
  refine ⟨hnames, fun loc hbelow hsuffix hlast => ?_⟩
  rw [hgoal] at hsuffix hlast
  rcases List.suffix_cons_iff.1 hsuffix with rfl | hsuffix
  · rw [hisDir] at hlast
    cases hlast rfl
  · exact absurd (hsuffix.eq_of_length (le_antisymm hsuffix.length_le hbelow.1.length_le)) hbelow.2

theorem arrives_program :
    Arrives (listedEnv "trezor-emu-core") trezorBundle nothingInstalled.disk.tree trezorLoc
      trezorStorage where
  name := rfl
  dir := .inr ⟨[osString "bundles"], ⟨by decide +kernel, by decide +kernel⟩, by decide +kernel, rfl⟩
  noLink := by
    have hnone : nothingInstalled.disk.tree.get (tmpLoc trezorBundle trezorLoc) = none := by
      decide +kernel
    rw [hnone]
    simp
  straight := by
    have hnames : (components (osString "bundle/" ++ osString "trezor-emu-core")).drop 1 =
        (landing (osString "bundle/" ++ osString "trezor-emu-core")).map .normal := by
      decide +kernel
    have hgoal : (landing (osString "bundle/" ++ osString "trezor-emu-core")).reverse ++ trezorLoc =
        osString "trezor-emu-core" :: trezorLoc := by
      decide +kernel
    refine straight_of_child (fun path hpath => ?_) hgoal rfl
    obtain rfl := Option.some.inj hpath
    exact hnames

theorem download_launchable_iff_program :
    Launchable manifestJson trezorStorage (installed "trezor-emu-core").2.disk.tree .trezor := by
  have hok : (installed "trezor-emu-core").1 = .ok () := by decide +kernel
  have hbase : trezorStorage.baseDir.tail = [.normal (osString "bundles")] := by decide
  obtain ⟨hiff, -⟩ := download_launchable_iff (listedEnv "trezor-emu-core") trezorStorage
    trezorBundle nothingInstalled (installed "trezor-emu-core").2
    (by
      intro c hc
      rw [hbase] at hc
      exact ⟨_, List.mem_singleton.1 hc⟩)
    listing_listsFileNames (fun m bytes _ => manifestJson_roundTrip m bytes) (installed_ok hok)
  refine (hiff trezorLoc arrives_program ⟨by decide +kernel, .inl (by decide +kernel)⟩).2 (.inl ?_)
  refine ⟨[], "trezor-emu-core", ["trezord-go", "trezord"], rfl, by simp, program, ?_, rfl⟩
  decide +kernel

/-- The archive's program is in a directory that has the emulator's name. -/
theorem download_not_launchable_directory :
    (installed "trezor-emu-core/trezord").1 = .ok () ∧
      ¬ Launchable manifestJson trezorStorage
        (installed "trezor-emu-core/trezord").2.disk.tree .trezor := by
  refine ⟨by decide +kernel, ?_⟩
  rintro ⟨names, -, hpath, hexec⟩
  have hdirectory : emulatorBinaryPath manifestJson trezorStorage
      (installed "trezor-emu-core/trezord").2.disk.tree .trezor =
        some (trezorStorage.bundleDir .trezor ++ [.normal (osString "trezor-emu-core")]) := by
    decide +kernel
  rw [← Option.some.inj (hdirectory.symm.trans hpath)] at hexec
  have hno : isExecutableFile (installed "trezor-emu-core/trezord").2.disk.tree
      (trezorStorage.bundleDir .trezor ++ [.normal (osString "trezor-emu-core")]) = false := by
    decide +kernel
  rw [hno] at hexec
  cases hexec

end Hwwctl.Bundler
