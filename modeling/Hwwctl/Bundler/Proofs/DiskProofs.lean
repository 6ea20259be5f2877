import Hwwctl.Bundler.Disk

/-!
# What the file system operations change

`Builds` is what every operation does that removes nothing: it touches some places, where something
stands from then on, and leaves all others as they are. The operations that the transfer is made of
get a lemma for each way to end.
-/

namespace Hwwctl.Bundler

open FileTree Io

section Within

variable {R : Disk → Disk → Prop}

/-- A directory is made where nothing stands, or nothing is done. -/
theorem ensureDir_within (hrefl : ∀ disk, R disk disk)
    (hnew : ∀ {disk : Disk} {loc tree}, disk.tree.get loc = none →
      disk.tree.put loc .dir = some tree → R disk ⟨tree, [loc] ++ disk.touched⟩)
    (granted : Bool) (path : FilePath) : Act.Within R (ensureDir granted path) := by
  intro disk
  unfold ensureDir createDir
  split
  · exact hrefl disk
  · split
    · exact hrefl disk
    · next loc _ =>
      split
      · next hfree =>
        cases hput : disk.tree.put loc .dir with
        | none => exact hrefl disk
        | some tree => exact hnew hfree.2 hput
      · exact hrefl disk

theorem ensureDirs_within (hrefl : ∀ disk, R disk disk) (htrans : ∀ a b c, R a b → R b c → R a c)
    (hnew : ∀ {disk : Disk} {loc tree}, disk.tree.get loc = none →
      disk.tree.put loc .dir = some tree → R disk ⟨tree, [loc] ++ disk.touched⟩)
    (grants : FilePath → Bool) (done rest : FilePath) :
    Act.Within R (ensureDirs grants done rest) := by
  induction rest generalizing done with
  | nil => exact .pure hrefl
  | cons c rest ih => exact (ensureDir_within hrefl hnew _ _).bind htrans fun _ => ih _

end Within

structure Built (disk disk' : Disk) (locs : List FsLoc) : Prop where
  touched : disk'.touched = locs ++ disk.touched
  there : ∀ loc ∈ locs, disk'.tree.get loc ≠ none
  same : ∀ loc, loc ∉ locs → disk'.tree.get loc = disk.tree.get loc

def Builds (disk disk' : Disk) : Prop := ∃ locs, Built disk disk' locs

section Builds

variable {disk disk' : Disk} {loc : FsLoc}

theorem Builds.refl (disk : Disk) : Builds disk disk :=
  ⟨[], { touched := rfl, there := (by simp), same := fun _ _ => rfl }⟩

theorem Built.trans {disk'' : Disk} {locs locs' : List FsLoc} (h : Built disk disk' locs)
    (h' : Built disk' disk'' locs') : Built disk disk'' (locs' ++ locs) where
  touched := by rw [h'.touched, h.touched, List.append_assoc]
  there := by
    intro loc hloc
    by_cases hnew : loc ∈ locs'
    · exact h'.there loc hnew
    · rw [h'.same loc hnew]
      exact h.there loc ((List.mem_append.1 hloc).resolve_left hnew)
  same := by
    intro loc hloc
    rw [List.mem_append, not_or] at hloc
    exact (h'.same loc hloc.1).trans (h.same loc hloc.2)

theorem Builds.trans (a b c : Disk) (hab : Builds a b) (hbc : Builds b c) : Builds a c := by
  obtain ⟨locs, hab⟩ := hab
  obtain ⟨locs', hbc⟩ := hbc
  exact ⟨locs' ++ locs, hab.trans hbc⟩

/-- What stands goes on standing. -/
theorem Builds.there (h : Builds disk disk') (hloc : disk.tree.get loc ≠ none) :
    disk'.tree.get loc ≠ none := by
  obtain ⟨locs, hbuilt⟩ := h
  by_cases hnew : loc ∈ locs
  · exact hbuilt.there loc hnew
  · rw [hbuilt.same loc hnew]
    exact hloc

/-- Whatever has not been touched is as it was before. -/
theorem Builds.untouched (h : Builds disk disk') (hloc : loc ∉ disk'.touched) :
    disk'.tree.get loc = disk.tree.get loc := by
  obtain ⟨locs, hbuilt⟩ := h
  rw [hbuilt.touched, List.mem_append, not_or] at hloc
  exact hbuilt.same loc hloc.1

theorem put_built {tree : FsTree} {node : FsNode} (hput : disk.tree.put loc node = some tree) :
    Built disk ⟨tree, [loc] ++ disk.touched⟩ [loc] := by
  refine ⟨rfl, ?_, ?_⟩
  · intro loc' hloc
    obtain rfl := List.mem_singleton.1 hloc
    have hnew : tree.get loc' = some node := by rw [Tree.get_put hput, if_pos rfl]
    show tree.get loc' ≠ none
    rw [hnew]
    simp
  · intro loc' hloc
    show tree.get loc' = _
    rw [Tree.get_put hput, if_neg (by simpa using hloc)]

theorem put_builds {tree : FsTree} {node : FsNode} (hput : disk.tree.put loc node = some tree) :
    Builds disk ⟨tree, [loc] ++ disk.touched⟩ := ⟨[loc], put_built hput⟩

theorem ensureDirs_builds (grants : FilePath → Bool) (done rest : FilePath) :
    Act.Within Builds (ensureDirs grants done rest) :=
  ensureDirs_within Builds.refl Builds.trans (fun _ hput => put_builds hput) grants done rest

theorem createDirAll_builds (grants : FilePath → Bool) (path : FilePath) :
    Act.Within Builds (createDirAll grants path) := ensureDirs_builds grants [] path

end Builds

/-! ## Which places are touched -/

/-- Whatever is touched from `disk` to `disk'` is where `P` allows it. -/
def Touches (P : FsLoc → Prop) (disk disk' : Disk) : Prop :=
  ∀ locs, disk'.touched = locs ++ disk.touched → ∀ loc ∈ locs, P loc

section Touches

variable {P : FsLoc → Prop} {disk : Disk} {loc : FsLoc} {tree : FsTree}

theorem Touches.self (P : FsLoc → Prop) (disk : Disk) : Touches P disk disk := by
  intro locs hlocs loc hloc
  obtain rfl : locs = [] := List.append_cancel_right (hlocs.symm.trans (List.nil_append _).symm)
  cases hloc

theorem touches_cons_iff : Touches P disk ⟨tree, [loc] ++ disk.touched⟩ ↔ P loc := by
  constructor
  · intro h
    exact h [loc] rfl loc List.mem_cons_self
  · intro hP locs hlocs loc' hloc
    rw [← List.append_cancel_right hlocs] at hloc
    rw [List.mem_singleton.1 hloc]
    exact hP

theorem touches_fresh_iff {disk' : Disk} :
    Touches P ⟨tree, []⟩ disk' ↔ ∀ loc ∈ disk'.touched, P loc := by
  constructor
  · intro h
    exact h disk'.touched (List.append_nil _).symm
  · intro h locs hlocs
    rw [List.append_nil] at hlocs
    rw [← hlocs]
    exact h

theorem touches_trans_iff {a b c : Disk} (hab : Builds a b) (hbc : Builds b c) :
    Touches P a c ↔ Touches P a b ∧ Touches P b c := by
  obtain ⟨locs, hab⟩ := hab
  obtain ⟨locs', hbc⟩ := hbc
  have hac : c.touched = (locs' ++ locs) ++ a.touched := by
    rw [hbc.touched, hab.touched, List.append_assoc]
  constructor
  · intro h
    have hall := h _ hac
    constructor
    · intro l hl loc hloc
      rw [List.append_cancel_right (hl.symm.trans hab.touched)] at hloc
      exact hall loc (List.mem_append_right locs' hloc)
    · intro l hl loc hloc
      rw [List.append_cancel_right (hl.symm.trans hbc.touched)] at hloc
      exact hall loc (List.mem_append_left locs hloc)
  · rintro ⟨hold, hnew⟩ l hl loc hloc
    rw [List.append_cancel_right (hl.symm.trans hac)] at hloc
    rcases List.mem_append.1 hloc with hloc | hloc
    · exact hnew locs' hbc.touched loc hloc
    · exact hold locs hab.touched loc hloc

end Touches

/-! ## Directories -/

section Directories

variable {grants : FilePath → Bool} {disk : Disk} {loc : FsLoc} {path done rest : FilePath}
  {c : Component OsString} {name : OsString}

theorem isDir_eq_false {tree : FsTree} (hlocate : locate tree path = some loc)
    (hdir : tree.get loc ≠ some .dir) : isDir tree path = false := by
  rw [Bool.eq_false_iff]
  intro h
  obtain ⟨loc', hlocate', hdir'⟩ := isDir_iff.1 h
  obtain rfl := Option.some.inj (hlocate.symm.trans hlocate')
  exact hdir hdir'

theorem ensureDir_of_isDir {granted : Bool} (h : isDir disk.tree path = true) :
    ensureDir granted path disk = (.ok (), disk) := by
  unfold ensureDir
  rw [if_pos h]

/-- A name that is taken, or that the system does not make, and that leads to no directory. -/
theorem ensureDir_refused {granted : Bool} (hdir : isDir disk.tree path = false)
    (hplace : place disk.tree path = some loc) (h : granted = true → disk.tree.get loc ≠ none) :
    ensureDir granted path disk = (.error (), disk) := by
  have hno : ¬ (granted = true ∧ disk.tree.get loc = none) := fun hboth => h hboth.1 hboth.2
  simp only [ensureDir, createDir, hdir, hplace, if_neg hno, Bool.false_eq_true, if_false]

theorem ensureDir_made {tree : FsTree} (hdir : isDir disk.tree path = false)
    (hplace : place disk.tree path = some loc) (hfree : disk.tree.get loc = none)
    (hput : disk.tree.put loc .dir = some tree) :
    ensureDir true path disk = (.ok (), ⟨tree, [loc] ++ disk.touched⟩) := by
  simp only [ensureDir, createDir, hdir, hplace, hfree, hput, change, and_self, if_true,
    Bool.false_eq_true, if_false]

theorem ensureDirs_of_isDir (h : isDir disk.tree (done ++ rest) = true) :
    ensureDirs grants done rest disk = (.ok (), disk) := by
  induction rest generalizing done with
  | nil => rfl
  | cons c rest ih =>
    rw [List.append_cons] at h
    rw [ensureDirs, Act.run_bind, ensureDir_of_isDir (isDir_ancestor h)]
    exact ih h

theorem ensureDirs_append (p q : FilePath) :
    ensureDirs grants done (p ++ q) =
      (ensureDirs grants done p >>= fun _ => ensureDirs grants (done ++ p) q) := by
  induction p generalizing done with
  | nil => simp [ensureDirs]
  | cons c p ih =>
    simp only [List.cons_append, ensureDirs, bind_assoc, ih, List.append_assoc, List.nil_append]

/-- One directory in a directory that is there. -/
theorem createDirAll_concat (h : isDir disk.tree path = true) :
    createDirAll grants (path ++ [c]) disk =
      ensureDir (grants (path ++ [c])) (path ++ [c]) disk := by
  have hpath : ensureDirs grants [] path disk = (.ok (), disk) := ensureDirs_of_isDir h
  rw [createDirAll, ensureDirs_append, Act.run_bind, hpath]
  simp only [List.nil_append, ensureDirs]
  exact congrFun (bind_pure _) disk

theorem retains_put {tree tree' : FsTree} {node : FsNode}
    (hfree : tree.get loc = none ∨ ∃ data, tree.get loc = some (.leaf (.file data)))
    (hput : tree.put loc node = some tree') : Retains tree tree' := by
  intro loc' node' hthere hnode
  rw [Tree.get_put hput, if_neg]
  · exact hthere
  · rintro rfl
    rcases hfree with hfree | ⟨data, hfree⟩
    · rw [hfree] at hthere
      cases hthere
    · rw [hfree] at hthere
      exact hnode data (Option.some.inj hthere).symm

/-- A path leads into a new directory behind it. -/
theorem locate_made {tree tree' : FsTree} (hlocate : locate tree path = some loc)
    (hdir : tree.get loc = some .dir) (hfree : tree.get (name :: loc) = none)
    (hput : tree.put (name :: loc) .dir = some tree') :
    locate tree' (path ++ [.normal name]) = some (name :: loc) ∧
      tree'.get (name :: loc) = some .dir := by
  have hkeep : Retains tree tree' := retains_put (Or.inl hfree) hput
  have hnew : tree'.get (name :: loc) = some .dir := by rw [Tree.get_put hput, if_pos rfl]
  refine ⟨?_, hnew⟩
  apply locate_normal (locate_retained hkeep hdir hlocate) (hkeep _ _ hdir (by simp))
  intro target
  rw [hnew]
  simp

end Directories

/-! ## Files -/

section Files

variable {disk : Disk} {loc : FsLoc} {path : FilePath}

theorem put_leaf {tree : FsTree} (leaf : Leaf OsString FileData)
    (hdir : tree.get loc.tail = some .dir) (hfree : tree.get loc ≠ some .dir) :
    ∃ tree', tree.put loc (.leaf leaf) = some tree' := by
  cases loc with
  | nil => exact absurd Tree.get_nil hfree
  | cons name loc =>
    exact Option.isSome_iff_exists.1 (Tree.put_isSome.2 ⟨hdir, hfree⟩)

/-- `disk'` differs from `disk` by a file at `loc` only. -/
structure FileAt (disk disk' : Disk) (loc : FsLoc) : Prop where
  file : ∃ data, disk'.tree.get loc = some (.leaf (.file data))
  same : ∀ l, l ≠ loc → disk'.tree.get l = disk.tree.get l
  touched : ∀ l, l ∈ disk'.touched ↔ l = loc ∨ l ∈ disk.touched

theorem FileAt.trans {disk' disk'' : Disk} (h : FileAt disk disk' loc)
    (h' : FileAt disk' disk'' loc) : FileAt disk disk'' loc := by
  refine ⟨h'.file, ?_, ?_⟩
  · intro l hl
    exact (h'.same l hl).trans (h.same l hl)
  · intro l
    rw [h'.touched, h.touched, ← or_assoc, or_self]

/-- That file holds `bytes`, and nothing else has been touched. -/
structure Written (disk disk' : Disk) (loc : FsLoc) (bytes : List UInt8) : Prop where
  data : ∃ data, disk'.tree.get loc = some (.leaf (.file data)) ∧ data.bytes = bytes
  same : ∀ l, l ≠ loc → disk'.tree.get l = disk.tree.get l
  touched : ∃ locs, locs ≠ [] ∧ (∀ l ∈ locs, l = loc) ∧ disk'.touched = locs ++ disk.touched

namespace Written

variable {disk' disk'' : Disk} {bytes bytes' : List UInt8}

theorem trans (h : Written disk disk' loc bytes) (h' : Written disk' disk'' loc bytes') :
    Written disk disk'' loc bytes' := by
  refine ⟨h'.data, fun l hl => (h'.same l hl).trans (h.same l hl), ?_⟩
  obtain ⟨locs, _, honly, htouched⟩ := h.touched
  obtain ⟨locs', hne', honly', htouched'⟩ := h'.touched
  refine ⟨locs' ++ locs, by simp [hne'], ?_, ?_⟩
  · intro l hl
    exact (List.mem_append.1 hl).elim (honly' l) (honly l)
  · rw [htouched', htouched, List.append_assoc]

theorem fileAt (h : Written disk disk' loc bytes) : FileAt disk disk' loc := by
  obtain ⟨data, hdata, _⟩ := h.data
  refine ⟨⟨data, hdata⟩, h.same, ?_⟩
  obtain ⟨locs, hne, honly, htouched⟩ := h.touched
  obtain ⟨l₀, hl₀⟩ := List.exists_mem_of_ne_nil locs hne
  intro l
  rw [htouched, List.mem_append]
  constructor
  · rintro (hl | hl)
    · exact Or.inl (honly l hl)
    · exact Or.inr hl
  · rintro (rfl | hl)
    · exact Or.inl (honly l₀ hl₀ ▸ hl₀)
    · exact Or.inr hl

theorem builds (h : Written disk disk' loc bytes) : Builds disk disk' := by
  obtain ⟨locs, hne, honly, htouched⟩ := h.touched
  obtain ⟨data, hdata, _⟩ := h.data
  refine ⟨locs, htouched, ?_, ?_⟩
  · intro l hl
    rw [honly l hl, hdata]
    simp
  · intro l hl
    apply h.same
    rintro rfl
    obtain ⟨l₀, hl₀⟩ := List.exists_mem_of_ne_nil locs hne
    exact hl (honly l₀ hl₀ ▸ hl₀)

end Written

theorem written_put {data : FileData} {tree : FsTree}
    (hput : disk.tree.put loc (.leaf (.file data)) = some tree) :
    Written disk ⟨tree, [loc] ++ disk.touched⟩ loc data.bytes := by
  refine ⟨⟨data, ?_, rfl⟩, ?_, [loc], by simp, by simp, rfl⟩
  · show tree.get loc = _
    rw [Tree.get_put hput, if_pos rfl]
  · intro l hl
    show tree.get l = _
    rw [Tree.get_put hput, if_neg hl]

theorem put_of_dir {tree : FsTree} (node : FsNode) (h : tree.get loc = some .dir) :
    tree.put loc node = none := by
  cases hput : tree.put loc node with
  | none => rfl
  | some tree' => exact absurd h (Tree.not_dir_of_put hput)

theorem createFile_made (hlocate : locate disk.tree path = some loc)
    (hfree : disk.tree.get loc ≠ some .dir) :
    ∃ disk', createFile true path disk = (.ok loc, disk') ∧ Written disk disk' loc [] := by
  obtain ⟨tree, hput⟩ := put_leaf (.file (emptied (disk.tree.get loc)))
    (locate_ends hlocate).2 hfree
  refine ⟨⟨tree, [loc] ++ disk.touched⟩, ?_, written_put hput⟩
  simp only [createFile, hlocate, hput, if_true]

theorem createFile_refused {granted : Bool}
    (h : granted = true → ∀ loc, locate disk.tree path = some loc →
      disk.tree.get loc = some .dir) :
    createFile granted path disk = (.error (), disk) := by
  cases hlocate : locate disk.tree path with
  | none => simp only [createFile, hlocate]
  | some loc =>
    cases granted with
    | false => simp only [createFile, hlocate, Bool.false_eq_true, if_false]
    | true => simp only [createFile, hlocate, if_true, put_of_dir _ (h rfl loc hlocate)]

/-- A path that leads to a directory still does when a file has come to stand somewhere. -/
theorem FileAt.retains {disk' : Disk} (h : FileAt disk disk' loc) (hends : Ends disk.tree loc)
    (hfree : disk.tree.get loc ≠ some .dir) : Retains disk.tree disk'.tree := by
  intro l node hthere hnode
  rw [h.same l, hthere]
  rintro rfl
  cases node with
  | dir => exact hfree hthere
  | leaf leaf =>
    cases leaf with
    | file data => exact hnode data rfl
    | symlink target => exact hends.1 target hthere

theorem writeAll_saved (bytes : List UInt8) {data : FileData}
    (hdata : disk.tree.get loc = some (.leaf (.file data))) :
    ∃ disk', writeAll true loc bytes disk = (.ok (), disk') ∧
      Written disk disk' loc (data.bytes ++ bytes) := by
  have hthere : disk.tree.get loc ≠ none := by
    rw [hdata]
    simp
  have htail : disk.tree.get loc.tail = some .dir := by
    cases loc with
    | nil => exact Tree.get_nil
    | cons name loc => exact Tree.get_tail hthere
  obtain ⟨tree, hput⟩ := put_leaf (.file { data with bytes := data.bytes ++ bytes }) htail
    (by rw [hdata]; simp)
  refine ⟨⟨tree, [loc] ++ disk.touched⟩, ?_, written_put hput⟩
  simp only [writeAll, hdata, hput, if_true, change]

theorem writeAll_refused (bytes : List UInt8) :
    writeAll false loc bytes disk = (.error (), disk) := by
  unfold writeAll
  split <;> rfl

variable {source target : FilePath} {a b : FsLoc} {leaf : Leaf OsString FileData}

theorem rename_moved (hsource : place disk.tree source = some a)
    (htarget : place disk.tree target = some b) (hleaf : disk.tree.get a = some (.leaf leaf))
    (hne : b ≠ a) (hdir : disk.tree.get b.tail = some .dir)
    (hfree : disk.tree.get b ≠ some .dir) :
    ∃ disk', rename true source target disk = (.ok (), disk') ∧
      disk'.touched = [b, a] ++ disk.touched ∧
      ∀ l, disk'.tree.get l =
        if l = b then some (.leaf leaf) else if l = a then none else disk.tree.get l := by
  obtain ⟨tree₁, hdrop⟩ := Option.isSome_iff_exists.1 (Tree.drop_isSome.2 ⟨leaf, hleaf⟩)
  have hdir₁ : tree₁.get b.tail = some .dir := by
    rw [Tree.get_drop hdrop, if_neg]
    · exact hdir
    · intro heq
      rw [heq, hleaf] at hdir
      cases hdir
  have hfree₁ : tree₁.get b ≠ some .dir := by
    rw [Tree.get_drop hdrop, if_neg hne]
    exact hfree
  obtain ⟨tree₂, hput⟩ := put_leaf leaf hdir₁ hfree₁
  refine ⟨⟨tree₂, [b, a] ++ disk.touched⟩, ?_, rfl, ?_⟩
  · simp only [rename, hsource, htarget, hleaf, hdrop, hput, Option.bind_some, if_true, change]
  · intro l
    show tree₂.get l = _
    rw [Tree.get_put hput, Tree.get_drop hdrop]

theorem rename_refused {granted : Bool} (hsource : place disk.tree source = some a)
    (htarget : place disk.tree target = some b) (hne : b ≠ a)
    (h : granted = true → disk.tree.get b = some .dir) :
    rename granted source target disk = (.error (), disk) := by
  simp only [rename, hsource, htarget]
  split
  · next leaf hleaf =>
    cases granted with
    | false => rfl
    | true =>
      have hnone : (disk.tree.drop a).bind (·.put b (.leaf leaf)) = none := by
        cases hdrop : disk.tree.drop a with
        | none => rfl
        | some tree₁ =>
          apply put_of_dir
          rw [Tree.get_drop hdrop, if_neg hne]
          exact h rfl
      simp only [if_true, hnone, change]
  · rfl

theorem change_error {locs : List FsLoc} {tree : Option FsTree} {disk' : Disk}
    (h : change locs tree disk = (.error (), disk')) : disk' = disk := by
  cases tree <;> cases h
  rfl

/-- `remove_file` takes away what stands at `loc`. -/
def Removes (granted : Bool) (path : FilePath) (tree : FsTree) (loc : FsLoc) : Prop :=
  granted = true ∧ place tree path = some loc ∧ ∃ leaf, tree.get loc = some (.leaf leaf)

/-- `disk'` differs from `disk` by what has been removed at `loc`. -/
structure Removed (disk disk' : Disk) (loc : FsLoc) : Prop where
  touched : disk'.touched = [loc] ++ disk.touched
  get : ∀ l, disk'.tree.get l = if l = loc then none else disk.tree.get l

theorem removeFile_cases (granted : Bool) (path : FilePath) (disk : Disk) :
    (∃ loc, Removes granted path disk.tree loc ∧
      Removed disk (removeFile granted path disk).2 loc) ∨
    ((∀ loc, ¬ Removes granted path disk.tree loc) ∧ (removeFile granted path disk).2 = disk) := by
  cases hplace : place disk.tree path with
  | none =>
    refine Or.inr ⟨?_, by simp only [removeFile, hplace]⟩
    rintro loc ⟨_, hsome, _⟩
    rw [hplace] at hsome
    cases hsome
  | some loc =>
    by_cases hremoves : Removes granted path disk.tree loc
    · obtain ⟨hgranted, _, leaf, hleaf⟩ := hremoves
      obtain ⟨tree, hdrop⟩ := Option.isSome_iff_exists.1 (Tree.drop_isSome.2 ⟨leaf, hleaf⟩)
      have hrun : (removeFile granted path disk).2 = ⟨tree, [loc] ++ disk.touched⟩ := by
        simp only [removeFile, hplace, hgranted, hdrop, if_true, change]
      refine Or.inl ⟨loc, ⟨hgranted, hplace, leaf, hleaf⟩, ?_⟩
      rw [hrun]
      exact ⟨rfl, fun l => Tree.get_drop hdrop⟩
    · refine Or.inr ⟨?_, ?_⟩
      · intro loc' hremoves'
        obtain rfl := Option.some.inj (hplace.symm.trans hremoves'.2.1)
        exact hremoves hremoves'
      · cases granted with
        | false => simp only [removeFile, hplace, Bool.false_eq_true, if_false, change]
        | true =>
          have hnone : disk.tree.drop loc = none := by
            rw [← Option.not_isSome_iff_eq_none, Tree.drop_isSome]
            rintro ⟨leaf, hleaf⟩
            exact hremoves ⟨rfl, hplace, leaf, hleaf⟩
          simp only [removeFile, hplace, if_true, hnone, change]

end Files

end Hwwctl.Bundler
