import Hwwctl.Bundler.Proofs.ExtractProofs

/-!
# Extracting over what stands there

The same archive is extracted twice, once into a directory where something stands and once into the
same directory emptied. The two runs stay in step: every place is the same in both, or neither has
come to it yet. They could only part where a link or a directory stands in the way of a directory or
a file of the archive.
-/

namespace Hwwctl.Bundler

open FileTree Io

def Unpacked.ok : Unpacked → Bool
  | .untouched ok => ok
  | .wrote _ ok => ok

/-- How `Entry::unpack` treats what it finds at its path: it replaces a file or link, whichever it is,
so that it makes no difference, and makes no directory of it; and where a directory that it would
make is there already, that is no worse. -/
structure Overwrites (answer : Option FsNode → Unpacked) : Prop where
  replaces : ∀ leaf leaf', (answer (some (.leaf leaf))).ok = true →
    answer (some (.leaf leaf')) = answer none
  leaves : ∀ leaf node ok, answer (some (.leaf leaf)) = .wrote node ok → node ≠ .dir
  finds : (answer (some .dir)).ok = true → ∀ ok, answer none = .wrote .dir ok → ok = true

/-- Both are directories, or neither is. -/
def SameKind (node node' : FsNode) : Prop := node = .dir ↔ node' = .dir

/-- What stands goes on standing, and a directory stays one. -/
def KeepsKinds (disk disk' : Disk) : Prop :=
  ∀ loc node, disk.tree.get loc = some node →
    ∃ node', disk'.tree.get loc = some node' ∧ SameKind node node'

section Kinds

variable {disk disk' : Disk} {loc : FsLoc}

theorem KeepsKinds.refl (disk : Disk) : KeepsKinds disk disk :=
  fun _ node h => ⟨node, h, Iff.rfl⟩

theorem KeepsKinds.trans (a b c : Disk) (hab : KeepsKinds a b) (hbc : KeepsKinds b c) :
    KeepsKinds a c := by
  intro loc node hnode
  obtain ⟨node', hnode', hsame⟩ := hab loc node hnode
  obtain ⟨node'', hnode'', hsame'⟩ := hbc loc node' hnode'
  exact ⟨node'', hnode'', hsame.trans hsame'⟩

theorem KeepsKinds.dir (h : KeepsKinds disk disk') (hdir : disk.tree.get loc = some .dir) :
    disk'.tree.get loc = some .dir := by
  obtain ⟨node', hnode', hsame⟩ := h loc .dir hdir
  rw [hnode', hsame.1 rfl]

theorem KeepsKinds.leaf (h : KeepsKinds disk disk') {leaf : Leaf OsString FileData}
    (hleaf : disk.tree.get loc = some (.leaf leaf)) :
    ∃ leaf', disk'.tree.get loc = some (.leaf leaf') := by
  obtain ⟨node', hnode', hsame⟩ := h loc (.leaf leaf) hleaf
  cases node' with
  | dir => cases hsame.2 rfl
  | leaf leaf' => exact ⟨leaf', hnode'⟩

theorem keepsKinds_put {tree : FsTree} {node : FsNode} {touched : List FsLoc}
    (hput : disk.tree.put loc node = some tree)
    (hkind : ∀ node₀, disk.tree.get loc = some node₀ → SameKind node₀ node) :
    KeepsKinds disk ⟨tree, touched⟩ := by
  intro l node₀ hnode₀
  show ∃ node', tree.get l = some node' ∧ _
  rw [Tree.get_put hput]
  split
  · next heq => exact ⟨node, rfl, hkind node₀ (heq ▸ hnode₀)⟩
  · exact ⟨node₀, hnode₀, Iff.rfl⟩

theorem ensureDirs_keepsKinds (grants : FilePath → Bool) (done rest : FilePath) :
    Act.Within KeepsKinds (ensureDirs grants done rest) := by
  refine ensureDirs_within KeepsKinds.refl KeepsKinds.trans ?_ grants done rest
  intro disk loc tree hfree hput
  refine keepsKinds_put hput ?_
  intro node₀ hnode₀
  rw [hfree] at hnode₀
  cases hnode₀

theorem createDirAll_keepsKinds (grants : FilePath → Bool) (path : FilePath) :
    Act.Within KeepsKinds (createDirAll grants path) := ensureDirs_keepsKinds grants [] path

theorem unpack_keepsKinds {answer : Option FsNode → Unpacked} (hanswer : Overwrites answer)
    (path : FilePath) : Act.Within KeepsKinds (unpack answer path) := by
  refine unpack_within KeepsKinds.refl ?_ path
  intro disk loc node ok tree hwrote hput
  refine keepsKinds_put hput ?_
  intro node₀ hnode₀
  cases node₀ with
  | dir => exact absurd hnode₀ (Tree.not_dir_of_put hput)
  | leaf leaf =>
    rw [hnode₀] at hwrote
    have hleaf : node ≠ .dir := hanswer.leaves leaf node ok hwrote
    exact iff_of_false (by simp) hleaf

/-- Every entry that the decoder gives is unpacked so. -/
def OverwritesAll (entries : List (Option Entry)) : Prop :=
  ∀ entry, some entry ∈ entries → Overwrites entry.unpack

/-- What an entry comes to: it is refused or skipped, or it makes a directory, or it unpacks into one
that it makes. -/
theorem extractEntry_cases (dest : FilePath) (entry : Option Entry) :
    (∃ msg, extractEntry dest entry = .fail msg) ∨ extractEntry dest entry = pure () ∨
    ∃ e, entry = some e ∧
      ((∃ path msg, extractEntry dest entry = (createDirAll e.grants path).context msg) ∨
        ∃ base c msg msg', extractEntry dest entry =
          (createDirAll e.grants base).context msg >>= fun _ =>
            (unpack e.unpack (base ++ [c])).context msg') := by
  cases entry with
  | none => exact .inl ⟨_, rfl⟩
  | some e =>
    cases hpath : e.path with
    | none =>
      exact .inl ⟨"archive entry has invalid path", by simp only [extractEntry, hpath]⟩
    | some path =>
      cases hout : outPathOf dest path with
      | none => exact .inr (.inl (by simp only [extractEntry, hpath, hout]))
      | some outPath =>
        refine .inr (.inr ⟨e, rfl, ?_⟩)
        cases hdir : e.isDir with
        | true =>
          refine .inl ⟨outPath, s!"failed to create directory: {display outPath}", ?_⟩
          simp only [extractEntry, hpath, hout, hdir, if_true]
        | false =>
          have hsplit : parent outPath ++ [outPath.getLast (outPathOf_ne_nil hout)] = outPath :=
            List.dropLast_append_getLast _
          refine .inr ⟨parent outPath, outPath.getLast (outPathOf_ne_nil hout),
            s!"failed to create parent dir: {display (parent outPath)}",
            s!"failed to unpack entry to: {display outPath}", ?_⟩
          rw [hsplit]
          simp only [extractEntry, hpath, hout, hdir, Bool.false_eq_true, if_false]

theorem extractEntry_keepsKinds (dest : FilePath) {entry : Option Entry}
    (hentry : ∀ e, entry = some e → Overwrites e.unpack) :
    Act.Within KeepsKinds (extractEntry dest entry) := by
  rcases extractEntry_cases dest entry with
    ⟨msg, heq⟩ | heq | ⟨e, rfl, ⟨path, msg, heq⟩ | ⟨base, c, msg, msg', heq⟩⟩
  · rw [heq]
    exact .fail KeepsKinds.refl
  · rw [heq]
    exact .pure KeepsKinds.refl
  · rw [heq]
    exact (createDirAll_keepsKinds _ _).context _
  · rw [heq]
    exact ((createDirAll_keepsKinds _ _).context _).bind KeepsKinds.trans
      fun _ => (unpack_keepsKinds (hentry e rfl) _).context _

theorem extractEntries_keepsKinds (dest : FilePath) {entries : List (Option Entry)}
    (hall : OverwritesAll entries) :
    Act.Within KeepsKinds (entries.forM (extractEntry dest)) := by
  refine .forM KeepsKinds.refl KeepsKinds.trans ?_
  rintro entry hmem
  refine extractEntry_keepsKinds dest ?_
  rintro e rfl
  exact hall e hmem

end Kinds

/-! ## Two runs in step -/

/-- `t` is `t₀` and more; the file at `archive` may be another one. -/
def Overlaid (archive : FsLoc) (t t₀ : FsTree) : Prop :=
  ∀ loc, t.get loc = t₀.get loc ∨ t₀.get loc = none ∨
    (loc = archive ∧ (∃ data, t.get loc = some (.leaf (.file data))) ∧
      ∃ data, t₀.get loc = some (.leaf (.file data)))

/-- What `t` has and `t₀` has not is of the kind of what stands in its place in `v`. -/
def Compatible (t t₀ v : FsTree) : Prop :=
  ∀ loc node node', t.get loc = some node → t₀.get loc = none → v.get loc = some node' →
    SameKind node node'

/-- The runs that began at `t` and `t₀` have led to `u` and `u₀`: every place is the same in both,
or neither has come to it yet. -/
def InStep (t t₀ u u₀ : FsTree) : Prop :=
  ∀ loc, u.get loc = u₀.get loc ∨ (u.get loc = t.get loc ∧ u₀.get loc = t₀.get loc)

section InStep

variable {archive : FsLoc} {t t₀ : FsTree} {u u₀ u' u₀' v : Disk} {loc : FsLoc} {node : FsNode}

theorem InStep.start (t t₀ : FsTree) : InStep t t₀ t t₀ := fun _ => .inr ⟨rfl, rfl⟩

/-- The directories and links of the second run are there in the first. -/
theorem InStep.retains (h : InStep t t₀ u.tree u₀.tree) (hover : Overlaid archive t t₀) :
    Retains u₀.tree u.tree := by
  intro loc node hnode hnofile
  rcases h loc with hsame | ⟨hold, hold₀⟩
  · rw [hsame, hnode]
  · rw [hold₀] at hnode
    rcases hover loc with hsame | hnone | ⟨-, -, data, hdata⟩
    · rw [hold, hsame, hnode]
    · rw [hnone] at hnode
      cases hnode
    · rw [hdata] at hnode
      exact absurd (Option.some.inj hnode).symm (hnofile data)

theorem InStep.isDir (h : InStep t t₀ u.tree u₀.tree) (hover : Overlaid archive t t₀)
    {path : FilePath} (hdir : isDir u₀.tree path = true) : FileTree.isDir u.tree path = true := by
  obtain ⟨loc, hlocate, hloc⟩ := isDir_iff.1 hdir
  have hkeep := h.retains hover
  exact isDir_iff.2 ⟨loc, locate_retained hkeep hloc hlocate, hkeep loc .dir hloc (by simp)⟩

/-- Both put the same somewhere. -/
theorem InStep.put (h : InStep t t₀ u.tree u₀.tree) {tree tree₀ : FsTree}
    (hput : u.tree.put loc node = some tree) (hput₀ : u₀.tree.put loc node = some tree₀) :
    InStep t t₀ tree tree₀ := by
  intro l
  rw [Tree.get_put hput, Tree.get_put hput₀]
  split
  · exact .inl rfl
  · exact h l

/-- The second puts somewhere what the first has there. -/
theorem InStep.reach (h : InStep t t₀ u.tree u₀.tree) {tree₀ : FsTree}
    (hnode : u.tree.get loc = some node) (hput₀ : u₀.tree.put loc node = some tree₀) :
    InStep t t₀ u.tree tree₀ := by
  intro l
  rw [Tree.get_put hput₀]
  split
  · next heq =>
    rw [heq]
    exact .inl hnode
  · exact h l

/-- Where the two differ and the second has nothing, the first has what it began with. -/
theorem InStep.old (h : InStep t t₀ u.tree u₀.tree) (hnone : u₀.tree.get loc = none)
    (hnode : u.tree.get loc = some node) : t.get loc = some node ∧ t₀.get loc = none := by
  rcases h loc with hsame | ⟨hold, hold₀⟩
  · rw [hnone, hnode] at hsame
    cases hsame
  · exact ⟨hold ▸ hnode, hold₀ ▸ hnone⟩

/-- A successful `create_dir` where there was no directory. -/
theorem ensureDir_ok {granted : Bool} {path : FilePath}
    (h : ensureDir granted path u = (.ok (), u')) :
    (FileTree.isDir u.tree path = true ∧ u' = u) ∨
      (FileTree.isDir u.tree path = false ∧ ∃ loc tree, place u.tree path = some loc ∧
        u.tree.get loc = none ∧ u.tree.put loc .dir = some tree ∧
        u' = ⟨tree, [loc] ++ u.touched⟩) := by
  unfold ensureDir createDir at h
  split at h
  · next hdir =>
    cases h
    exact .inl ⟨hdir, rfl⟩
  · next hdir =>
    refine .inr ⟨by simpa using hdir, ?_⟩
    split at h
    · cases h
    · next loc hplace =>
      split at h
      · next hfree =>
        cases hput : u.tree.put loc .dir with
        | none =>
          rw [hput] at h
          cases h
        | some tree =>
          rw [hput] at h
          cases h
          exact ⟨loc, tree, hplace, hfree.2, hput, rfl⟩
      · cases h

/-- The last name of a path that `place` knows stands in a directory. -/
theorem place_some {tree : FsTree} {path : FilePath} (h : place tree path = some loc) :
    ∃ dir name base, path = base ++ [.normal name] ∧ loc = name :: dir ∧
      locate tree base = some dir ∧ tree.get dir = some .dir := by
  unfold place at h
  split at h
  · next name hlast =>
    obtain ⟨dir, hlocate, hloc⟩ := Option.bind_eq_some_iff.1 h
    split at hloc
    · next hdir =>
      obtain ⟨base, rfl⟩ := List.getLast?_eq_some_iff.1 hlast
      rw [List.dropLast_concat] at hlocate
      exact ⟨dir, name, base, rfl, (Option.some.inj hloc).symm, hlocate, hdir⟩
    · cases hloc
  · cases h

/-- A name at which there is a directory, or a link. -/
theorem dir_or_link {tree : FsTree} {path : FilePath} (hplace : place tree path = some loc)
    (hdir : FileTree.isDir tree path = true) :
    tree.get loc = some .dir ∨ ∃ target, tree.get loc = some (.leaf (.symlink target)) := by
  obtain ⟨dir, name, base, rfl, rfl, hlocate, hbase⟩ := place_some hplace
  by_cases hlink : ∃ target, tree.get (name :: dir) = some (.leaf (.symlink target))
  · exact .inr hlink
  · refine .inl ?_
    have hlocate' : locate tree (base ++ [.normal name]) = some (name :: dir) :=
      locate_normal hlocate hbase fun target htarget => hlink ⟨target, htarget⟩
    obtain ⟨loc', hloc', hdir'⟩ := isDir_iff.1 hdir
    obtain rfl := Option.some.inj (hlocate'.symm.trans hloc')
    exact hdir'

/-- A directory that the second run makes is made by the first, or is there. -/
theorem ensureDir_inStep {granted : Bool} {path : FilePath} (hover : Overlaid archive t t₀)
    (hcompat : Compatible t t₀ v.tree) (h : InStep t t₀ u.tree u₀.tree)
    (hrun : ensureDir granted path u = (.ok (), u'))
    (hrun₀ : ensureDir granted path u₀ = (.ok (), u₀')) (hkeep : KeepsKinds u₀' v) :
    InStep t t₀ u'.tree u₀'.tree := by
  rcases ensureDir_ok hrun₀ with ⟨hdir₀, rfl⟩ | ⟨-, loc, tree₀, hplace₀, hnone₀, hput₀, rfl⟩
  · rw [ensureDir_of_isDir (h.isDir hover hdir₀)] at hrun
    cases hrun
    exact h
  · have hplace := place_retained (h.retains hover) hplace₀
    rcases ensureDir_ok hrun with ⟨hdir, rfl⟩ | ⟨-, loc', tree, hplace', -, hput, rfl⟩
    · rcases dir_or_link hplace hdir with hloc | ⟨target, htarget⟩
      · exact h.reach hloc hput₀
      · -- a link to a directory, and in the end a directory in its place
        obtain ⟨hold, hold₀⟩ := h.old hnone₀ htarget
        have hmade : tree₀.get loc = some .dir := by rw [Tree.get_put hput₀, if_pos rfl]
        have hsame := hcompat loc _ _ hold hold₀ (hkeep.dir hmade)
        cases hsame.2 rfl
    · obtain rfl := Option.some.inj (hplace.symm.trans hplace')
      exact h.put hput hput₀

theorem ensureDirs_inStep {grants : FilePath → Bool} {done rest : FilePath}
    (hover : Overlaid archive t t₀) (hcompat : Compatible t t₀ v.tree)
    (h : InStep t t₀ u.tree u₀.tree) (hrun : ensureDirs grants done rest u = (.ok (), u'))
    (hrun₀ : ensureDirs grants done rest u₀ = (.ok (), u₀')) (hkeep : KeepsKinds u₀' v) :
    InStep t t₀ u'.tree u₀'.tree := by
  induction rest generalizing done u u₀ with
  | nil =>
    cases hrun
    cases hrun₀
    exact h
  | cons c rest ih =>
    obtain ⟨_, u₁, hfirst, hrest⟩ := Act.bind_ok hrun
    obtain ⟨_, u₁₀, hfirst₀, hrest₀⟩ := Act.bind_ok hrun₀
    have hlater : KeepsKinds u₁₀ u₀' := by
      have hwithin := ensureDirs_keepsKinds grants (done ++ [c]) rest u₁₀
      rw [hrest₀] at hwithin
      exact hwithin
    have hstep := ensureDir_inStep hover hcompat h hfirst hfirst₀ (hlater.trans _ _ _ hkeep)
    exact ih hstep hrest hrest₀

/-- A directory that has been made with all above it. -/
theorem ensureDirs_ok {grants : FilePath → Bool} {done rest : FilePath}
    (h : ensureDirs grants done rest u = (.ok (), u')) (hdone : FileTree.isDir u.tree done = true) :
    FileTree.isDir u'.tree (done ++ rest) = true := by
  induction rest generalizing done u with
  | nil =>
    cases h
    rw [List.append_nil]
    exact hdone
  | cons c rest ih =>
    obtain ⟨_, u₁, hfirst, hrest⟩ := Act.bind_ok h
    rw [List.append_cons]
    refine ih hrest ?_
    rcases ensureDir_ok hfirst with ⟨hdir, rfl⟩ | ⟨-, loc, tree, hplace, hnone, hput, rfl⟩
    · exact hdir
    · obtain ⟨dir, name, base, hpath, rfl, hlocate, hbase⟩ := place_some hplace
      rw [hpath]
      obtain ⟨hlocate', hdir'⟩ := locate_made hlocate hbase hnone hput
      exact isDir_iff.2 ⟨_, hlocate', hdir'⟩

theorem createDirAll_ok {grants : FilePath → Bool} {path : FilePath}
    (h : createDirAll grants path u = (.ok (), u')) : FileTree.isDir u'.tree path = true :=
  ensureDirs_ok h (isDir_iff.2 ⟨[], rfl, Tree.get_nil⟩)

/-! ## Unpacking in step -/

theorem unpack_ok {answer : Option FsNode → Unpacked} {path : FilePath}
    (h : unpack answer path u = (.ok (), u')) :
    (answer ((place u.tree path).bind u.tree.get) = .untouched true ∧ u' = u) ∨
      ∃ loc node tree, place u.tree path = some loc ∧ answer (u.tree.get loc) = .wrote node true ∧
        u.tree.put loc node = some tree ∧ u' = ⟨tree, [loc] ++ u.touched⟩ := by
  have hresult : ∀ {ok : Bool} {disk : Disk}, (Unpacked.result ok, disk) = (.ok (), u') →
      ok = true ∧ disk = u' := by
    intro ok disk h
    cases ok <;> cases h
    exact ⟨rfl, rfl⟩
  unfold unpack at h
  split at h
  · next hplace =>
    split at h
    · next hanswer =>
      obtain ⟨rfl, rfl⟩ := hresult h
      refine .inl ⟨?_, rfl⟩
      rw [hplace]
      exact hanswer
    · cases h
  · next loc hplace =>
    split at h
    · next hanswer =>
      obtain ⟨rfl, rfl⟩ := hresult h
      refine .inl ⟨?_, rfl⟩
      rw [hplace]
      exact hanswer
    · next node _ hanswer =>
      split at h
      · cases h
      · next tree hput =>
        obtain ⟨rfl, rfl⟩ := hresult h
        exact .inr ⟨loc, node, tree, hplace, hanswer, hput, rfl⟩

/-- Where the parent's directory is found, a path is placed alike in both runs. -/
theorem InStep.place (h : InStep t t₀ u.tree u₀.tree) (hover : Overlaid archive t t₀)
    {base : FilePath} {c : Component OsString} (hbase : FileTree.isDir u₀.tree base = true) :
    FileTree.place u.tree (base ++ [c]) = FileTree.place u₀.tree (base ++ [c]) := by
  by_cases hc : ∃ name, c = .normal name
  · obtain ⟨name, rfl⟩ := hc
    obtain ⟨dir, hlocate, hdir⟩ := isDir_iff.1 hbase
    have hplace₀ : FileTree.place u₀.tree (base ++ [.normal name]) = some (name :: dir) :=
      place_normal hlocate hdir
    rw [hplace₀]
    exact place_retained (h.retains hover) hplace₀
  · have hnormal : ∀ name, c ≠ .normal name := fun name heq => hc ⟨name, heq⟩
    rw [place_eq_none hnormal, place_eq_none hnormal]

/-- The second run gets the successful answer of the first, or the first has a directory where the
second has nothing. -/
theorem InStep.answer (h : InStep t t₀ u.tree u₀.tree) (hover : Overlaid archive t t₀)
    {answer : Option FsNode → Unpacked} (hanswer : Overwrites answer) (loc : FsLoc)
    (hok : (answer (u.tree.get loc)).ok = true) :
    answer (u.tree.get loc) = answer (u₀.tree.get loc) ∨
      (u.tree.get loc = some .dir ∧ u₀.tree.get loc = none) := by
  rcases h loc with hsame | ⟨hold, hold₀⟩
  · exact .inl (by rw [hsame])
  · rcases hover loc with hsame | hnone | ⟨-, ⟨data, hdata⟩, data₀, hdata₀⟩
    · exact .inl (by rw [hold, hold₀, hsame])
    · rw [hold₀, hnone]
      cases hget : u.tree.get loc with
      | none => exact .inl rfl
      | some node =>
        cases node with
        | dir => exact .inr ⟨rfl, rfl⟩
        | leaf leaf =>
          rw [hget] at hok
          exact .inl (hanswer.replaces leaf leaf hok)
    · rw [hold, hdata] at hok ⊢
      rw [hold₀, hdata₀]
      exact .inl ((hanswer.replaces _ _ hok).trans (hanswer.replaces _ _ hok).symm)

theorem unpack_inStep {answer : Option FsNode → Unpacked} (hanswer : Overwrites answer)
    {base : FilePath} {c : Component OsString} (hover : Overlaid archive t t₀)
    (hcompat : Compatible t t₀ v.tree) (h : InStep t t₀ u.tree u₀.tree)
    (hbase : FileTree.isDir u₀.tree base = true)
    (hrun : unpack answer (base ++ [c]) u = (.ok (), u'))
    (hrun₀ : unpack answer (base ++ [c]) u₀ = (.ok (), u₀')) (hkeep : KeepsKinds u₀' v) :
    InStep t t₀ u'.tree u₀'.tree := by
  have hplaces := h.place hover (c := c) hbase
  rcases unpack_ok hrun₀ with ⟨hskip₀, rfl⟩ | ⟨loc, node, tree₀, hplace₀, hwrote₀, hput₀, rfl⟩
  · rcases unpack_ok hrun with ⟨-, rfl⟩ | ⟨loc, node, tree, hplace, hwrote, hput, rfl⟩
    · exact h
    · -- the second run has left the place alone, so the first has found a directory there
      rw [hplaces] at hplace
      rw [hplace, Option.bind_some] at hskip₀
      rcases h.answer hover hanswer loc (by rw [hwrote]; rfl) with
        hsame | ⟨hdir, -⟩
      · rw [hwrote, hskip₀] at hsame
        cases hsame
      · exact absurd hdir (Tree.not_dir_of_put hput)
  · have hplace := hplaces.trans hplace₀
    rcases unpack_ok hrun with ⟨hskip, rfl⟩ | ⟨loc', node', tree, hplace', hwrote, hput, rfl⟩
    · rw [hplace, Option.bind_some] at hskip
      rcases h.answer hover hanswer loc (by rw [hskip]; rfl) with
        hsame | ⟨hdir, hnone⟩
      · rw [hskip, hwrote₀] at hsame
        cases hsame
      · have hmade : tree₀.get loc = some node := by rw [Tree.get_put hput₀, if_pos rfl]
        cases node with
        | dir => exact h.reach hdir hput₀
        | leaf leaf =>
          -- a directory, and in the end a file in its place
          obtain ⟨hold, hold₀⟩ := h.old hnone hdir
          obtain ⟨leaf', hend⟩ := hkeep.leaf hmade
          cases (hcompat loc _ _ hold hold₀ hend).1 rfl
    · obtain rfl := Option.some.inj (hplace.symm.trans hplace')
      rcases h.answer hover hanswer loc (by rw [hwrote]; rfl) with
        hsame | ⟨hdir, -⟩
      · rw [hwrote, hwrote₀] at hsame
        cases hsame
        exact h.put hput hput₀
      · exact absurd hdir (Tree.not_dir_of_put hput)

/-! ## Extraction in step -/

theorem extractEntry_inStep {dest : FilePath} {entry : Option Entry}
    (hentry : ∀ e, entry = some e → Overwrites e.unpack) (hover : Overlaid archive t t₀)
    (hcompat : Compatible t t₀ v.tree) (h : InStep t t₀ u.tree u₀.tree)
    (hrun : extractEntry dest entry u = (.ok (), u'))
    (hrun₀ : extractEntry dest entry u₀ = (.ok (), u₀')) (hkeep : KeepsKinds u₀' v) :
    InStep t t₀ u'.tree u₀'.tree := by
  rcases extractEntry_cases dest entry with
    ⟨msg, heq⟩ | heq | ⟨e, rfl, ⟨path, msg, heq⟩ | ⟨base, c, msg, msg', heq⟩⟩
  · rw [heq] at hrun
    cases hrun
  · rw [heq] at hrun hrun₀
    cases hrun
    cases hrun₀
    exact h
  · rw [heq] at hrun hrun₀
    exact ensureDirs_inStep hover hcompat h (Act.context_ok hrun) (Act.context_ok hrun₀) hkeep
  · rw [heq] at hrun hrun₀
    obtain ⟨_, u₁, hparent, hunpack⟩ := Act.bind_ok hrun
    obtain ⟨_, u₁₀, hparent₀, hunpack₀⟩ := Act.bind_ok hrun₀
    have hlater := unpack_keepsKinds (hentry e rfl) (base ++ [c]) u₁₀
    rw [Act.context_ok hunpack₀] at hlater
    have hstep := ensureDirs_inStep hover hcompat h (Act.context_ok hparent)
      (Act.context_ok hparent₀) (hlater.trans _ _ _ hkeep)
    exact unpack_inStep (hentry e rfl) hover hcompat hstep
      (createDirAll_ok (Act.context_ok hparent₀)) (Act.context_ok hunpack)
      (Act.context_ok hunpack₀) hkeep

/-- The runs over all the entries stay in step, given that what stood there besides is of the kind
of what the second run leaves in its place. -/
theorem extractEntries_inStep {dest : FilePath} {entries : List (Option Entry)}
    (hall : OverwritesAll entries) (hover : Overlaid archive t t₀)
    (hcompat : Compatible t t₀ u₀'.tree) (h : InStep t t₀ u.tree u₀.tree)
    (hrun : entries.forM (extractEntry dest) u = (.ok (), u'))
    (hrun₀ : entries.forM (extractEntry dest) u₀ = (.ok (), u₀')) :
    InStep t t₀ u'.tree u₀'.tree := by
  induction entries generalizing u u₀ with
  | nil =>
    cases hrun
    cases hrun₀
    exact h
  | cons entry entries ih =>
    obtain ⟨_, u₁, hfirst, hrest⟩ := Act.bind_ok hrun
    obtain ⟨_, u₁₀, hfirst₀, hrest₀⟩ := Act.bind_ok hrun₀
    have hrestAll : OverwritesAll entries := fun e he => hall e (List.mem_cons_of_mem entry he)
    have hlater := extractEntries_keepsKinds dest hrestAll u₁₀
    rw [hrest₀] at hlater
    have hentry : ∀ e, entry = some e → Overwrites e.unpack := by
      rintro e rfl
      exact hall e List.mem_cons_self
    exact ih hrestAll (extractEntry_inStep hentry hover hcompat h hfirst hfirst₀ hlater) hrest hrest₀

/-! ## The second run does not fail alone -/

/-- Wherever something stands in `t` and nothing in `t₀`, there is something of its kind in `v`. -/
def Brought (t t₀ v : FsTree) : Prop :=
  ∀ loc node, t.get loc = some node → t₀.get loc = none →
    ∃ node', v.get loc = some node' ∧ SameKind node node'

theorem Brought.compatible {v : FsTree} (h : Brought t t₀ v) : Compatible t t₀ v := by
  intro loc node node' hnode hnone hnode'
  obtain ⟨node'', hbrought, hkind⟩ := h loc node hnode hnone
  obtain rfl := Option.some.inj (hnode'.symm.trans hbrought)
  exact hkind

/-- The trees differ at most in what a file holds. -/
def Alike (t t' : FsTree) : Prop :=
  ∀ loc, t'.get loc = t.get loc ∨
    (∃ data, t.get loc = some (.leaf (.file data))) ∧ ∃ data, t'.get loc = some (.leaf (.file data))

/-- Once the second run has come to everything that stood there, nothing else is left to differ. -/
theorem InStep.alike (h : InStep t t₀ u.tree u₀.tree) (hover : Overlaid archive t t₀)
    (hbrought : Brought t t₀ u₀.tree) : Alike u.tree u₀.tree := by
  intro loc
  rcases h loc with hsame | ⟨hold, hold₀⟩
  · exact .inl hsame.symm
  · rw [hold, hold₀]
    rcases hover loc with hsame | hnone | ⟨-, hdata, hdata₀⟩
    · exact .inl hsame.symm
    · cases hnode : t.get loc with
      | none => exact .inl hnone
      | some node =>
        obtain ⟨node', hnode', -⟩ := hbrought loc node hnode hnone
        rw [hold₀, hnone] at hnode'
        cases hnode'
    · exact .inr ⟨hdata, hdata₀⟩

section Alike

variable {t' : FsTree} (h : Alike t t') {path : FilePath}
include h

theorem Alike.dir_iff (loc : FsLoc) : t'.get loc = some .dir ↔ t.get loc = some .dir := by
  rcases h loc with hsame | ⟨⟨data, hdata⟩, data', hdata'⟩
  · rw [hsame]
  · rw [hdata, hdata']
    simp

theorem Alike.none_iff (loc : FsLoc) : t'.get loc = none ↔ t.get loc = none := by
  rcases h loc with hsame | ⟨⟨data, hdata⟩, data', hdata'⟩
  · rw [hsame]
  · rw [hdata, hdata']
    simp

theorem Alike.locate : FileTree.locate t' path = FileTree.locate t path := by
  apply locate_alike
  intro loc
  rcases h loc with hsame | ⟨hdata, hdata'⟩
  · exact .inl hsame
  · exact .inr ⟨.inr hdata, .inr hdata'⟩

theorem Alike.isDir : FileTree.isDir t' path = FileTree.isDir t path := by
  rw [Bool.eq_iff_iff, isDir_iff, isDir_iff, h.locate]
  simp only [h.dir_iff]

theorem Alike.place : FileTree.place t' path = FileTree.place t path := by
  unfold FileTree.place
  simp only [h.locate, h.dir_iff]

end Alike

theorem ensureDir_alike {granted : Bool} {path : FilePath} (h : Alike u.tree u₀.tree)
    (hrun : ensureDir granted path u = (.ok (), u')) :
    ∃ u₀', ensureDir granted path u₀ = (.ok (), u₀') := by
  rcases ensureDir_ok hrun with ⟨hdir, -⟩ | ⟨hdir, loc, tree, hplace, hnone, hput, -⟩
  · exact ⟨u₀, ensureDir_of_isDir (h.isDir.trans hdir)⟩
  · have hgranted : granted = true := by
      by_contra hno
      rw [ensureDir_refused hdir hplace fun hyes => absurd hyes hno] at hrun
      cases hrun
    obtain ⟨dir, name, base, -, rfl, -, hbase⟩ := place_some hplace
    have hnone₀ : u₀.tree.get (name :: dir) = none := (h.none_iff _).2 hnone
    have hputs : (u₀.tree.put (name :: dir) .dir).isSome :=
      Tree.put_isSome.2 ⟨(h.dir_iff dir).2 hbase, by rw [hnone₀]; simp⟩
    obtain ⟨tree₀, hput₀⟩ := Option.isSome_iff_exists.1 hputs
    rw [hgranted]
    exact ⟨_, ensureDir_made (h.isDir.trans hdir) (h.place.trans hplace) hnone₀ hput₀⟩

theorem ensureDir_error {granted : Bool} {path : FilePath}
    (h : ensureDir granted path u = (.error (), u')) : u' = u := by
  unfold ensureDir createDir at h
  split at h
  · cases h
  · split at h
    · cases h
      rfl
    · split at h
      · exact change_error h
      · cases h
        rfl

theorem ensureDirs_fails {grants : FilePath → Bool} {done rest : FilePath}
    (hover : Overlaid archive t t₀) (hbrought : Brought t t₀ v.tree)
    (h : InStep t t₀ u.tree u₀.tree) (hrun : ensureDirs grants done rest u = (.ok (), u'))
    (hrun₀ : ensureDirs grants done rest u₀ = (.error (), v)) : False := by
  induction rest generalizing done u u₀ with
  | nil => cases hrun₀
  | cons c rest ih =>
    obtain ⟨_, u₁, hfirst, hrest⟩ := Act.bind_ok hrun
    rcases Act.bind_error hrun₀ with hfirst₀ | ⟨_, u₁₀, hfirst₀, hrest₀⟩
    · obtain rfl := ensureDir_error hfirst₀
      obtain ⟨u₁₀, hfirst₁⟩ := ensureDir_alike (h.alike hover hbrought) hfirst
      rw [hfirst₁] at hfirst₀
      cases hfirst₀
    · have hlater := ensureDirs_keepsKinds grants (done ++ [c]) rest u₁₀
      rw [hrest₀] at hlater
      have hstep := ensureDir_inStep hover hbrought.compatible h hfirst hfirst₀ hlater
      exact ih hstep hrest hrest₀

theorem put_placed (node : FsNode) {path : FilePath}
    (hplace : FileTree.place u.tree path = some loc) (hfree : u.tree.get loc ≠ some .dir) :
    ∃ tree, u.tree.put loc node = some tree := by
  obtain ⟨dir, name, base, -, rfl, -, hbase⟩ := place_some hplace
  exact Option.isSome_iff_exists.1 (Tree.put_isSome.2 ⟨hbase, hfree⟩)

/-- The answer of an `unpack` that succeeds; it does not write where there is a directory. -/
theorem unpack_met {answer : Option FsNode → Unpacked} {path : FilePath}
    (hplace : FileTree.place u.tree path = some loc) (h : unpack answer path u = (.ok (), u')) :
    (answer (u.tree.get loc)).ok = true ∧
      ∀ node ok, answer (u.tree.get loc) = .wrote node ok → u.tree.get loc ≠ some .dir := by
  rcases unpack_ok h with ⟨hskip, -⟩ | ⟨loc', node, tree, hplace', hwrote, hput, -⟩
  · rw [hplace, Option.bind_some] at hskip
    rw [hskip]
    exact ⟨rfl, by rintro _ _ ⟨⟩⟩
  · obtain rfl := Option.some.inj (hplace.symm.trans hplace')
    rw [hwrote]
    exact ⟨rfl, fun _ _ _ => Tree.not_dir_of_put hput⟩

/-- An `unpack` that could write fails only by its answer. -/
theorem unpack_error {answer : Option FsNode → Unpacked} {path : FilePath}
    (hplace : FileTree.place u.tree path = some loc)
    (hfree : ∀ node ok, answer (u.tree.get loc) = .wrote node ok → u.tree.get loc ≠ some .dir)
    (h : unpack answer path u = (.error (), u')) :
    (answer (u.tree.get loc) = .untouched false ∧ u' = u) ∨
      ∃ node, answer (u.tree.get loc) = .wrote node false ∧ u'.tree.get loc = some node := by
  have hresult : ∀ {ok : Bool} {disk : Disk}, (Unpacked.result ok, disk) = (.error (), u') →
      ok = false ∧ disk = u' := by
    intro ok disk h
    cases ok <;> cases h
    exact ⟨rfl, rfl⟩
  cases hanswer : answer (u.tree.get loc) with
  | untouched ok =>
    simp only [unpack, hplace, hanswer] at h
    obtain ⟨rfl, rfl⟩ := hresult h
    exact .inl ⟨rfl, rfl⟩
  | wrote node ok =>
    obtain ⟨tree, hput⟩ := put_placed node hplace (hfree node ok hanswer)
    simp only [unpack, hplace, hanswer, hput] at h
    obtain ⟨rfl, rfl⟩ := hresult h
    refine .inr ⟨node, rfl, ?_⟩
    show tree.get loc = some node
    rw [Tree.get_put hput, if_pos rfl]

theorem unpack_fails {answer : Option FsNode → Unpacked} (hanswer : Overwrites answer)
    {base : FilePath} {c : Component OsString} (hover : Overlaid archive t t₀)
    (hbrought : Brought t t₀ v.tree) (h : InStep t t₀ u.tree u₀.tree)
    (hbase : FileTree.isDir u₀.tree base = true)
    (hrun : unpack answer (base ++ [c]) u = (.ok (), u'))
    (hrun₀ : unpack answer (base ++ [c]) u₀ = (.error (), v)) : False := by
  have hplaces := h.place hover (c := c) hbase
  cases hplace₀ : FileTree.place u₀.tree (base ++ [c]) with
  | none =>
    rw [hplace₀] at hplaces
    rcases unpack_ok hrun with ⟨hskip, -⟩ | ⟨loc, node, tree, hplace, -⟩
    · rw [hplaces, Option.bind_none] at hskip
      simp only [unpack, hplace₀, hskip] at hrun₀
      cases hrun₀
    · rw [hplaces] at hplace
      cases hplace
  | some loc =>
    obtain ⟨hok, hwrites⟩ := unpack_met (hplaces.trans hplace₀) hrun
    rcases h.answer hover hanswer loc hok with hsame | ⟨hdir, hnone₀⟩
    · -- the same answer, which has been a success
      rw [hsame] at hok hwrites
      have hfree : ∀ node ok, answer (u₀.tree.get loc) = .wrote node ok →
          u₀.tree.get loc ≠ some .dir := fun node ok hwrote hdir₀ =>
        hwrites node ok hwrote (h.retains hover loc .dir hdir₀ (by simp))
      rcases unpack_error hplace₀ hfree hrun₀ with ⟨hfailed, -⟩ | ⟨node, hfailed, -⟩
      · rw [hfailed] at hok
        cases hok
      · rw [hfailed] at hok
        cases hok
    · -- a directory that the archive has not brought, or in a way that fails
      obtain ⟨hold, hold₀⟩ := h.old hnone₀ hdir
      obtain ⟨node', hnode', hkind⟩ := hbrought loc .dir hold hold₀
      rcases unpack_error hplace₀ (by rw [hnone₀]; simp) hrun₀ with
        ⟨-, rfl⟩ | ⟨node, hfailed, hmade⟩
      · rw [hnone₀] at hnode'
        cases hnode'
      · obtain rfl := Option.some.inj (hmade.symm.trans hnode')
        obtain rfl : node = .dir := hkind.1 rfl
        rw [hdir] at hok
        rw [hnone₀] at hfailed
        cases hanswer.finds hok false hfailed

theorem extractEntry_fails {dest : FilePath} {entry : Option Entry} {msg₀ : String}
    (hentry : ∀ e, entry = some e → Overwrites e.unpack) (hover : Overlaid archive t t₀)
    (hbrought : Brought t t₀ v.tree) (h : InStep t t₀ u.tree u₀.tree)
    (hrun : extractEntry dest entry u = (.ok (), u'))
    (hrun₀ : extractEntry dest entry u₀ = (.error msg₀, v)) : False := by
  rcases extractEntry_cases dest entry with
    ⟨msg, heq⟩ | heq | ⟨e, rfl, ⟨path, msg, heq⟩ | ⟨base, c, msg, msg', heq⟩⟩
  · rw [heq] at hrun
    cases hrun
  · rw [heq] at hrun₀
    cases hrun₀
  · rw [heq] at hrun hrun₀
    obtain ⟨_, hfailed⟩ := Act.context_error hrun₀
    exact ensureDirs_fails hover hbrought h (Act.context_ok hrun) hfailed
  · rw [heq] at hrun hrun₀
    obtain ⟨_, u₁, hparent, hunpack⟩ := Act.bind_ok hrun
    rcases Act.bind_error hrun₀ with hparent₀ | ⟨_, u₁₀, hparent₀, hunpack₀⟩
    · obtain ⟨_, hfailed⟩ := Act.context_error hparent₀
      exact ensureDirs_fails hover hbrought h (Act.context_ok hparent) hfailed
    · obtain ⟨_, hfailed⟩ := Act.context_error hunpack₀
      have hlater := unpack_keepsKinds (hentry e rfl) (base ++ [c]) u₁₀
      rw [hfailed] at hlater
      have hstep := ensureDirs_inStep hover hbrought.compatible h (Act.context_ok hparent)
        (Act.context_ok hparent₀) hlater
      exact unpack_fails (hentry e rfl) hover hbrought hstep
        (createDirAll_ok (Act.context_ok hparent₀)) (Act.context_ok hunpack) hfailed

/-- Where the first run gets through all the entries, so does the second, given that it brings all
that stood there besides. -/
theorem extractEntries_ok {dest : FilePath} {entries : List (Option Entry)}
    (hall : OverwritesAll entries) (hover : Overlaid archive t t₀)
    (h : InStep t t₀ u.tree u₀.tree)
    (hbrought : Brought t t₀ (entries.forM (extractEntry dest) u₀).2.tree)
    (hrun : entries.forM (extractEntry dest) u = (.ok (), u')) :
    ∃ u₀', entries.forM (extractEntry dest) u₀ = (.ok (), u₀') := by
  cases hrun₀ : entries.forM (extractEntry dest) u₀ with
  | mk r v =>
    cases r with
    | ok => exact ⟨v, rfl⟩
    | error msg =>
      rw [hrun₀] at hbrought
      exfalso
      induction entries generalizing u u₀ with
      | nil => cases hrun₀
      | cons entry entries ih =>
        obtain ⟨_, u₁, hfirst, hrest⟩ := Act.bind_ok hrun
        have hentry : ∀ e, entry = some e → Overwrites e.unpack := by
          rintro e rfl
          exact hall e List.mem_cons_self
        rcases Act.bind_error hrun₀ with hfirst₀ | ⟨_, u₁₀, hfirst₀, hrest₀⟩
        · exact extractEntry_fails hentry hover hbrought h hfirst hfirst₀
        · have hrestAll : OverwritesAll entries := fun e he =>
            hall e (List.mem_cons_of_mem entry he)
          have hlater := extractEntries_keepsKinds dest hrestAll u₁₀
          rw [hrest₀] at hlater
          exact ih hrestAll (extractEntry_inStep hentry hover hbrought.compatible h hfirst hfirst₀
            hlater) hrest hrest₀

end InStep

end Hwwctl.Bundler
