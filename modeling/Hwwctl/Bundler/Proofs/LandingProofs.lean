import Hwwctl.Bundler.Members
import Hwwctl.Bundler.Proofs.ReinstallProofs
import Hwwctl.Library.Names

/-!
# Where the members of an archive land

The loop strips the first component of every path, whatever the other paths are. A file lands at what
is left of its path unless something else is in the way.
-/

namespace Hwwctl.Bundler

open FileTree Io

/-! ## Paths -/

section Paths

variable {path : OsString}

theorem component_cases (piece : OsString) :
    component piece = none ∨ component piece = some .parentDir ∨
      component piece = some (.normal piece) := by
  unfold component
  split
  · exact .inl rfl
  · split
    · exact .inr (.inl rfl)
    · exact .inr (.inr rfl)

/-- Pieces that are no `..` are names. -/
theorem filterMap_component {pieces : List OsString}
    (h : ∀ c ∈ pieces.filterMap component, c ≠ .parentDir) :
    pieces.filterMap component = (names (pieces.filterMap component)).map .normal := by
  induction pieces with
  | nil => rfl
  | cons piece pieces ih =>
    rcases component_cases piece with hnone | hparent | hname
    · rw [List.filterMap_cons_none hnone] at h ⊢
      exact ih h
    · rw [List.filterMap_cons_some hparent] at h
      exact absurd rfl (h _ List.mem_cons_self)
    · rw [List.filterMap_cons_some hname] at h ⊢
      have hrest := ih fun c hc => h c (List.mem_cons_of_mem _ hc)
      simp only [names, List.filterMap_cons, List.map_cons]
      exact congrArg _ hrest

theorem components_cases (path : OsString) :
    ∃ rest, rest = (path.splitOn slash).filterMap component ∧
      (components path = .rootDir :: rest ∨ components path = .curDir :: rest ∨
        components path = rest) := by
  refine ⟨_, rfl, ?_⟩
  unfold components
  dsimp only
  split_ifs
  · exact .inl rfl
  · exact .inr (.inl rfl)
  · exact .inr (.inr rfl)

/-- A relative path without `..`. -/
def Plain (path : OsString) : Prop := ∀ c ∈ components path, c ≠ .rootDir ∧ c ≠ .parentDir

/-- It is made of names, behind a `.` perhaps. -/
theorem Plain.components_eq (h : Plain path) :
    components path =
      (if Dotted path then [.curDir] else []) ++ (names (components path)).map .normal := by
  obtain ⟨rest, hrest, hpath | hpath | hpath⟩ := components_cases path
  · exact absurd rfl (h .rootDir (by rw [hpath]; exact List.mem_cons_self)).1
  · have hnormal : rest = (names rest).map .normal := by
      rw [hrest]
      refine filterMap_component fun c hc => (h c ?_).2
      rw [hpath, hrest]
      exact List.mem_cons_of_mem _ hc
    have hdotted : Dotted path := by
      rw [Dotted, hpath]
      rfl
    rw [if_pos hdotted, hpath]
    exact congrArg _ hnormal
  · have hnormal : rest = (names rest).map .normal := by
      rw [hrest]
      refine filterMap_component fun c hc => (h c ?_).2
      rw [hpath, hrest]
      exact hc
    have hdotted : ¬ Dotted path := by
      rw [Dotted, hpath, hnormal]
      cases names rest <;> simp
    rw [if_neg hdotted, hpath, List.nil_append]
    exact hnormal

theorem names_map (ns : List OsString) : names (ns.map .normal) = ns := by
  induction ns with
  | nil => rfl
  | cons n ns ih => exact congrArg (n :: ·) ih

/-- The loop drops the leading `.`, or else the first name. -/
theorem Plain.landing_eq (h : Plain path) :
    landing path = if Dotted path then names (components path)
      else (names (components path)).tail := by
  have hpath := h.components_eq
  unfold landing
  by_cases hdotted : Dotted path
  · rw [if_pos hdotted] at hpath ⊢
    generalize names (components path) = ns at hpath ⊢
    rw [hpath]
    exact names_map ns
  · rw [if_neg hdotted] at hpath ⊢
    generalize names (components path) = ns at hpath ⊢
    rw [hpath, List.nil_append, ← List.map_drop, names_map, List.drop_one]

/-- Where the loop lets an entry go whose path goes on by names alone, as a path. -/
theorem outPathOf_of_names (hnames : (components path).drop 1 = (landing path).map .normal)
    (dest : FilePath) :
    outPathOf dest path =
      if landing path = [] then none else some (dest ++ (landing path).map .normal) := by
  have hlength : (components path).length > 1 ↔ (components path).drop 1 ≠ [] := by
    rw [← List.length_pos_iff, List.length_drop]
    omega
  unfold outPathOf
  simp only [hlength, hnames]
  by_cases hnone : landing path = [] <;> simp [hnone]

theorem Plain.names_behind (h : Plain path) :
    (components path).drop 1 = (landing path).map .normal := by
  have hpath := h.components_eq
  unfold landing
  by_cases hdotted : Dotted path
  · rw [if_pos hdotted] at hpath
    generalize names (components path) = ns at hpath
    rw [hpath]
    exact congrArg _ (names_map ns).symm
  · rw [if_neg hdotted] at hpath
    generalize names (components path) = ns at hpath
    rw [hpath, List.nil_append, ← List.map_drop, names_map]

theorem Plain.outPathOf_eq (h : Plain path) (dest : FilePath) :
    outPathOf dest path =
      if landing path = [] then none else some (dest ++ (landing path).map .normal) :=
  outPathOf_of_names h.names_behind dest

end Paths

/-! ## Directories -/

section Directories

variable {disk disk' : Disk} {done : FilePath} {loc root : FsLoc} {ns : List OsString}

/-- No link stands below `root`. -/
def LinkFree (tree : FsTree) (root : FsLoc) : Prop :=
  ∀ l target, Below root l → tree.get l ≠ some (.leaf (.symlink target))

/-- The directories `ns`, each in the one before, have been made below `loc` where there were none. -/
structure MakesDirs (disk disk' : Disk) (loc : FsLoc) (ns : List OsString) : Prop where
  dirs : ∀ x, x <+: ns → disk'.tree.get (x.reverse ++ loc) = some .dir
  same : ∀ l, (∀ x, x <+: ns → l ≠ x.reverse ++ loc) → disk'.tree.get l = disk.tree.get l
  old : ∀ l, disk.tree.get l ≠ none → disk'.tree.get l = disk.tree.get l
  touched : ∀ l ∈ disk'.touched, l ∈ disk.touched ∨ disk'.tree.get l = some .dir
  kept : ∀ l ∈ disk.touched, l ∈ disk'.touched

/-- The directory `loc` was there or has been made. -/
structure MakesDir (disk disk' : Disk) (loc : FsLoc) : Prop where
  dir : disk'.tree.get loc = some .dir
  same : ∀ l, l ≠ loc → disk'.tree.get l = disk.tree.get l
  old : ∀ l, disk.tree.get l ≠ none → disk'.tree.get l = disk.tree.get l
  touched : ∀ l ∈ disk'.touched, l ∈ disk.touched ∨ l = loc
  kept : ∀ l ∈ disk.touched, l ∈ disk'.touched

theorem MakesDir.found (hdir : disk.tree.get loc = some .dir) : MakesDir disk disk loc where
  dir := hdir
  same _ _ := rfl
  old _ _ := rfl
  touched _ hl := .inl hl
  kept _ hl := hl

theorem MakesDir.made {tree : FsTree} (hfree : disk.tree.get loc = none)
    (hput : disk.tree.put loc .dir = some tree) :
    MakesDir disk ⟨tree, [loc] ++ disk.touched⟩ loc where
  dir := by
    show tree.get loc = _
    rw [Tree.get_put hput, if_pos rfl]
  same l hl := by
    show tree.get l = _
    rw [Tree.get_put hput, if_neg hl]
  old l hl := by
    show tree.get l = _
    rw [Tree.get_put hput, if_neg]
    rintro rfl
    exact hl hfree
  touched l hl := by
    rcases List.mem_cons.1 hl with rfl | hl
    · exact .inr rfl
    · exact .inl hl
  kept l hl := List.mem_cons_of_mem _ hl

/-- A directory is made or found, and then those in it. -/
theorem MakesDirs.cons {n : OsString} {disk₁ : Disk} (hdir : disk.tree.get loc = some .dir)
    (hfirst : MakesDir disk disk₁ (n :: loc))
    (hrest : MakesDirs disk₁ disk' (n :: loc) ns) : MakesDirs disk disk' loc (n :: ns) := by
  have hold : ∀ l, disk.tree.get l ≠ none → disk'.tree.get l = disk.tree.get l := by
    intro l hl
    rw [hrest.old l (by rw [hfirst.old l hl]; exact hl), hfirst.old l hl]
  constructor
  · intro x hx
    rcases prefix_cons_iff.1 hx with rfl | ⟨y, rfl, hy⟩
    · rw [List.reverse_nil, List.nil_append, hold loc (by rw [hdir]; simp), hdir]
    · rw [reverse_cons_append]
      exact hrest.dirs y hy
  · intro l hl
    rw [hrest.same l, hfirst.same l]
    · have hn := hl [n] (by simp)
      simpa using hn
    · intro y hy
      rw [← reverse_cons_append]
      exact hl (n :: y) (prefix_cons_iff.2 (.inr ⟨y, rfl, hy⟩))
  · exact hold
  · intro l hl
    rcases hrest.touched l hl with hl | hl
    · rcases hfirst.touched l hl with hl | rfl
      · exact .inl hl
      · exact .inr (hrest.dirs [] List.nil_prefix)
    · exact .inr hl
  · exact fun l hl => hrest.kept l (hfirst.kept l hl)

theorem MakesDirs.nil (hdir : disk.tree.get loc = some .dir) : MakesDirs disk disk loc [] where
  dirs x hx := by
    rw [List.prefix_nil.1 hx]
    exact hdir
  same _ _ := rfl
  old _ _ := rfl
  touched _ hl := .inl hl
  kept _ hl := hl

theorem ensureDir_makes {n : OsString} (hdone : locate disk.tree done = some loc)
    (hdir : disk.tree.get loc = some .dir)
    (hfree : ∀ leaf, disk.tree.get (n :: loc) ≠ some (.leaf leaf)) :
    ∃ disk', ensureDir true (done ++ [.normal n]) disk = (.ok (), disk') ∧
      MakesDir disk disk' (n :: loc) ∧
      locate disk'.tree (done ++ [.normal n]) = some (n :: loc) := by
  have hthere : locate disk.tree (done ++ [.normal n]) = some (n :: loc) :=
    locate_normal hdone hdir fun target => hfree (.symlink target)
  cases hget : disk.tree.get (n :: loc) with
  | none =>
    obtain ⟨tree, hput⟩ := Option.isSome_iff_exists.1
      (Tree.put_isSome.2 ⟨hdir, by rw [hget]; simp⟩ : (disk.tree.put (n :: loc) .dir).isSome)
    obtain ⟨hlocate, -⟩ := locate_made hdone hdir hget hput
    have hrun := ensureDir_made (isDir_eq_false hthere (by rw [hget]; simp))
      (place_normal hdone hdir) hget hput
    exact ⟨_, hrun, .made hget hput, hlocate⟩
  | some node =>
    cases node with
    | leaf leaf => exact absurd hget (hfree leaf)
    | dir =>
      have hisDir : isDir disk.tree (done ++ [.normal n]) = true := isDir_iff.2 ⟨_, hthere, hget⟩
      exact ⟨disk, ensureDir_of_isDir hisDir, .found hget, hthere⟩

/-- Where no file or link is in the way, directories are made. -/
theorem ensureDirs_makes (hdone : locate disk.tree done = some loc)
    (hdir : disk.tree.get loc = some .dir)
    (hfree : ∀ x, x <+: ns → ∀ leaf, disk.tree.get (x.reverse ++ loc) ≠ some (.leaf leaf)) :
    ∃ disk', ensureDirs (fun _ => true) done (ns.map .normal) disk = (.ok (), disk') ∧
      MakesDirs disk disk' loc ns ∧
      locate disk'.tree (done ++ ns.map .normal) = some (ns.reverse ++ loc) := by
  induction ns generalizing disk done loc with
  | nil => exact ⟨disk, rfl, .nil hdir, by simpa using hdone⟩
  | cons n ns ih =>
    have hn : ∀ leaf, disk.tree.get (n :: loc) ≠ some (.leaf leaf) := by
      simpa using hfree [n] (by simp)
    obtain ⟨disk₁, hrun, hfirst, hlocate⟩ := ensureDir_makes hdone hdir hn
    have hfree₁ : ∀ y, y <+: ns → ∀ leaf,
        disk₁.tree.get (y.reverse ++ n :: loc) ≠ some (.leaf leaf) := by
      intro y hy leaf hleaf
      by_cases hself : y.reverse ++ n :: loc = n :: loc
      · rw [hself, hfirst.dir] at hleaf
        cases hleaf
      · rw [hfirst.same _ hself, ← reverse_cons_append] at hleaf
        exact hfree (n :: y) (prefix_cons_iff.2 (.inr ⟨y, rfl, hy⟩)) leaf hleaf
    obtain ⟨disk', hrest, hmakes, hlast⟩ := ih hlocate hfirst.dir hfree₁
    refine ⟨disk', ?_, .cons hdir hfirst hmakes, ?_⟩
    · rw [List.map_cons, ensureDirs, Act.run_bind, hrun]
      exact hrest
    · rw [reverse_cons_append, List.map_cons, List.append_cons]
      exact hlast

/-- Directories that have been made where no link stands met no file. -/
theorem ensureDirs_free (hdone : locate disk.tree done = some loc)
    (hdir : disk.tree.get loc = some .dir)
    (hlinks : ∀ x, x <+: ns → ∀ target,
      disk.tree.get (x.reverse ++ loc) ≠ some (.leaf (.symlink target)))
    (h : ensureDirs (fun _ => true) done (ns.map .normal) disk = (.ok (), disk')) :
    ∀ x, x <+: ns → ∀ leaf, disk.tree.get (x.reverse ++ loc) ≠ some (.leaf leaf) := by
  induction ns generalizing disk done loc with
  | nil =>
    intro x hx leaf
    rw [List.prefix_nil.1 hx, List.reverse_nil, List.nil_append, hdir]
    simp
  | cons n ns ih =>
    have hnew : locate disk.tree (done ++ [.normal n]) = some (n :: loc) :=
      locate_normal hdone hdir (by simpa using hlinks [n] (by simp))
    obtain ⟨_, disk₁, hfirst, hrest⟩ := Act.bind_ok h
    intro x hx leaf hleaf
    rcases prefix_cons_iff.1 hx with rfl | ⟨y, rfl, hy⟩
    · rw [List.reverse_nil, List.nil_append, hdir] at hleaf
      cases hleaf
    · rw [reverse_cons_append] at hleaf
      rcases ensureDir_ok hfirst with ⟨hisDir, rfl⟩ | ⟨-, l, tree, hplace, hfree, -, -⟩
      · obtain ⟨l, hl, hget⟩ := isDir_iff.1 hisDir
        obtain rfl := Option.some.inj (hnew.symm.trans hl)
        refine ih hl hget ?_ hrest y hy leaf hleaf
        intro z hz target
        rw [← reverse_cons_append]
        exact hlinks (n :: z) (prefix_cons_iff.2 (.inr ⟨z, rfl, hz⟩)) target
      · -- What has just been made held nothing.
        obtain rfl := Option.some.inj ((place_normal hdone hdir).symm.trans hplace)
        cases hy' : y with
        | nil =>
          rw [hy', List.reverse_nil, List.nil_append, hfree] at hleaf
          cases hleaf
        | cons m y' =>
          have hbelow : Below (n :: loc) (y.reverse ++ n :: loc) :=
            below_iff.2 ⟨y, by rw [hy']; simp, rfl⟩
          rw [Tree.nothing_below hfree hbelow] at hleaf
          cases hleaf

end Directories

/-! ## One member -/

section OneMember

variable {disk disk₁ disk' : Disk} {root loc l : FsLoc} {dest path : FilePath} {m : Member}
  {n : OsString} {ns : List OsString} {data : FileData}

/-- Nothing stands in the way of the member. -/
structure Passes (tree : FsTree) (root : FsLoc) (m : Member) : Prop where
  dirs : ∀ x, x <+: landing m.path → (x = landing m.path → m.content = none) →
    ∀ leaf, tree.get (x.reverse ++ root) ≠ some (.leaf leaf)
  file : m.content ≠ none → tree.get (m.loc root) ≠ some .dir

/-- The member has been extracted. -/
structure Lands (root : FsLoc) (m : Member) (disk disk' : Disk) : Prop where
  dirs : ∀ x, x <+: landing m.path → (x = landing m.path → m.content = none) →
    disk'.tree.get (x.reverse ++ root) = some .dir
  file : ∀ data, m.content = some data →
    disk'.tree.get (m.loc root) = some (.leaf (.file data)) ∧ m.loc root ∈ disk'.touched
  same : ∀ l, (∀ x, x <+: landing m.path → l ≠ x.reverse ++ root) →
    disk'.tree.get l = disk.tree.get l
  old : ∀ l, disk.tree.get l ≠ none → (m.content ≠ none → l ≠ m.loc root) →
    disk'.tree.get l = disk.tree.get l
  free : m.content ≠ none → disk.tree.get (m.loc root) ≠ some .dir
  touched : ∀ l ∈ disk'.touched,
    l ∈ disk.touched ∨ disk'.tree.get l = some .dir ∨ m.content ≠ none ∧ l = m.loc root
  kept : ∀ l ∈ disk.touched, l ∈ disk'.touched

theorem createDirAll_below (hdest : locate disk.tree dest = some root)
    (hroot : disk.tree.get root = some .dir) (grants : FilePath → Bool) :
    createDirAll grants (dest ++ path) disk = ensureDirs grants dest path disk := by
  have hthere : ensureDirs grants [] dest disk = (.ok (), disk) :=
    ensureDirs_of_isDir (isDir_iff.2 ⟨root, hdest, hroot⟩)
  rw [createDirAll, ensureDirs_append, Act.run_bind, hthere]
  rfl

theorem unpack_replaces (hcontent : m.content = some data) (hpath : locate disk.tree path = some loc)
    (hdir : disk.tree.get loc = some .dir) (hfree : disk.tree.get (n :: loc) ≠ some .dir) :
    ∃ tree, disk.tree.put (n :: loc) (.leaf (.file data)) = some tree ∧
      unpack m.entry.unpack (path ++ [.normal n]) disk =
        (.ok (), ⟨tree, [n :: loc] ++ disk.touched⟩) := by
  obtain ⟨tree, hput⟩ := Option.isSome_iff_exists.1 (Tree.put_isSome.2 ⟨hdir, hfree⟩ :
    (disk.tree.put (n :: loc) (.leaf (.file data))).isSome)
  have hanswer : m.entry.unpack (disk.tree.get (n :: loc)) = .wrote (.leaf (.file data)) true := by
    simp only [Member.entry, hcontent]
  refine ⟨tree, hput, ?_⟩
  simp only [unpack, place_normal hpath hdir, hanswer, hput]
  rfl

theorem unpack_dir (hcontent : m.content = some data) (hpath : locate disk.tree path = some loc)
    (hdir : disk.tree.get loc = some .dir) (hthere : disk.tree.get (n :: loc) = some .dir) :
    unpack m.entry.unpack (path ++ [.normal n]) disk = (.error (), disk) := by
  simp only [unpack, place_normal hpath hdir, hthere, Member.entry, hcontent]
  rfl

theorem extractEntry_skip (hplain : Plain m.path) (hnone : landing m.path = []) :
    extractEntry dest (some m.entry) = pure () := by
  have hout := hplain.outPathOf_eq dest
  rw [if_pos hnone] at hout
  simp [extractEntry, Member.entry, hout]

theorem extractEntry_dir (hplain : Plain m.path) (hne : landing m.path ≠ [])
    (hcontent : m.content = none) :
    extractEntry dest (some m.entry) =
      (createDirAll (fun _ => true) (dest ++ (landing m.path).map .normal)).context
        s!"failed to create directory: {display (dest ++ (landing m.path).map .normal)}" := by
  have hout := hplain.outPathOf_eq dest
  rw [if_neg hne] at hout
  simp [extractEntry, Member.entry, hout, hcontent]

theorem extractEntry_file (hplain : Plain m.path) (hcontent : m.content = some data)
    (hlanding : landing m.path = ns ++ [n]) :
    extractEntry dest (some m.entry) =
      ((createDirAll (fun _ => true) (dest ++ ns.map .normal)).context
        s!"failed to create parent dir: {display (dest ++ ns.map .normal)}" >>= fun _ =>
      (unpack m.entry.unpack (dest ++ ns.map .normal ++ [.normal n])).context
        s!"failed to unpack entry to: {display (dest ++ ns.map .normal ++ [.normal n])}") := by
  have hout := hplain.outPathOf_eq dest
  rw [if_neg (by rw [hlanding]; simp), hlanding, List.map_append, List.map_singleton,
    ← List.append_assoc] at hout
  simp [extractEntry, Member.entry, hout, hcontent, parent]

theorem proper_prefix_iff {x : List OsString} :
    x <+: ns ++ [n] ∧ x ≠ ns ++ [n] ↔ x <+: ns := by
  rw [List.prefix_concat_iff]
  constructor
  · rintro ⟨heq | hx, hne⟩
    · exact absurd heq hne
    · exact hx
  · intro hx
    refine ⟨.inr hx, ?_⟩
    rintro rfl
    have hlength := hx.length_le
    rw [List.length_append, List.length_singleton] at hlength
    omega

theorem loc_concat (hlanding : landing m.path = ns ++ [n]) (root : FsLoc) :
    m.loc root = n :: (ns.reverse ++ root) := by
  rw [Member.loc, hlanding, List.reverse_append]
  rfl

/-- A file does not land at a directory above it. -/
theorem loc_ne (hlanding : landing m.path = ns ++ [n]) {x : List OsString} (hx : x <+: ns) :
    m.loc root ≠ x.reverse ++ root := by
  intro heq
  rw [Member.loc, hlanding, List.append_left_inj, List.reverse_inj] at heq
  exact (proper_prefix_iff.2 hx).2 heq.symm

theorem Lands.of_dirs (hcontent : m.content = none)
    (hmakes : MakesDirs disk disk' root (landing m.path)) : Lands root m disk disk' where
  dirs x hx _ := hmakes.dirs x hx
  file data hdata := by
    rw [hcontent] at hdata
    cases hdata
  same := hmakes.same
  old l hl _ := hmakes.old l hl
  free hfile := absurd hcontent hfile
  touched l hl := (hmakes.touched l hl).imp id .inl
  kept := hmakes.kept

/-- A file is written in the directory that has been made for it. -/
theorem Lands.of_file {tree : FsTree} (hcontent : m.content = some data)
    (hlanding : landing m.path = ns ++ [n]) (hmakes : MakesDirs disk disk₁ root ns)
    (hfree : disk₁.tree.get (m.loc root) ≠ some .dir)
    (hput : disk₁.tree.put (m.loc root) (.leaf (.file data)) = some tree) :
    Lands root m disk ⟨tree, [m.loc root] ++ disk₁.touched⟩ := by
  have hfile : m.content ≠ none := by
    rw [hcontent]
    simp
  have hget : ∀ l, tree.get l =
      if l = m.loc root then some (.leaf (.file data)) else disk₁.tree.get l :=
    fun l => Tree.get_put hput
  constructor
  · intro x hx hlast
    rw [hlanding] at hx
    have hne : x ≠ ns ++ [n] := fun heq => hfile (hlast (heq.trans hlanding.symm))
    have hx' := proper_prefix_iff.1 ⟨hx, hne⟩
    show tree.get _ = _
    rw [hget, if_neg (loc_ne hlanding hx').symm]
    exact hmakes.dirs x hx'
  · intro data' hdata
    obtain rfl := Option.some.inj (hcontent.symm.trans hdata)
    refine ⟨?_, List.mem_cons_self⟩
    show tree.get _ = _
    rw [hget, if_pos rfl]
  · intro l hl
    have hl' : l ≠ m.loc root := hl _ (List.prefix_refl _)
    show tree.get _ = _
    rw [hget, if_neg hl']
    refine hmakes.same l fun x hx => hl x ?_
    rw [hlanding]
    exact (proper_prefix_iff.2 hx).1
  · intro l hl hother
    show tree.get _ = _
    rw [hget, if_neg (hother hfile)]
    exact hmakes.old l hl
  · intro _
    rwa [hmakes.same _ fun x hx => loc_ne hlanding hx] at hfree
  · intro l hl
    rcases List.mem_cons.1 hl with rfl | hl
    · exact .inr (.inr ⟨hfile, rfl⟩)
    · rcases hmakes.touched l hl with hl | hl
      · exact .inl hl
      · refine .inr (.inl ?_)
        show tree.get _ = _
        rw [hget, if_neg, hl]
        rintro rfl
        exact hfree hl
  · intro l hl
    exact List.mem_cons_of_mem _ (hmakes.kept l hl)

/-- Where nothing stands in its way a member is extracted. -/
theorem extractEntry_lands (hplain : Plain m.path) (hdest : locate disk.tree dest = some root)
    (hroot : disk.tree.get root = some .dir) (hne : landing m.path ≠ [])
    (hpasses : Passes disk.tree root m) :
    ∃ disk', extractEntry dest (some m.entry) disk = (.ok (), disk') ∧ Lands root m disk disk' := by
  cases hcontent : m.content with
  | none =>
    have hway : ∀ x, x <+: landing m.path → ∀ leaf,
        disk.tree.get (x.reverse ++ root) ≠ some (.leaf leaf) :=
      fun x hx => hpasses.dirs x hx fun _ => hcontent
    obtain ⟨disk', hrun, hmakes, -⟩ := ensureDirs_makes hdest hroot hway
    refine ⟨disk', ?_, .of_dirs hcontent hmakes⟩
    rw [extractEntry_dir hplain hne hcontent, Act.run_context, createDirAll_below hdest hroot, hrun]
  | some data =>
    obtain hnil | ⟨ns, n, hlanding⟩ := List.eq_nil_or_concat' (landing m.path)
    · exact absurd hnil hne
    have hfile : m.content ≠ none := by
      rw [hcontent]
      simp
    -- The directories on the way are those above the file.
    have hway : ∀ x, x <+: ns → ∀ leaf,
        disk.tree.get (x.reverse ++ root) ≠ some (.leaf leaf) := by
      intro x hx
      obtain ⟨hx', hne'⟩ := proper_prefix_iff.2 hx
      rw [← hlanding] at hx' hne'
      exact hpasses.dirs x hx' fun heq => absurd heq hne'
    obtain ⟨disk₁, hrun, hmakes, hlast⟩ := ensureDirs_makes hdest hroot hway
    have hfree : disk₁.tree.get (m.loc root) ≠ some .dir := by
      rw [hmakes.same _ fun x hx => loc_ne hlanding hx]
      exact hpasses.file hfile
    obtain ⟨tree, hput, hunpack⟩ := unpack_replaces hcontent hlast
      (hmakes.dirs ns (List.prefix_refl _)) (loc_concat hlanding root ▸ hfree)
    rw [← loc_concat hlanding root] at hput
    refine ⟨_, ?_, .of_file hcontent hlanding hmakes hfree hput⟩
    rw [extractEntry_file hplain hcontent hlanding, Act.run_bind, Act.run_context,
      createDirAll_below hdest hroot, hrun]
    dsimp only
    rw [Act.run_context, hunpack, loc_concat hlanding root]

/-- And where no link stands, nothing else is extracted. -/
theorem extractEntry_passes (hplain : Plain m.path) (hdest : locate disk.tree dest = some root)
    (hroot : disk.tree.get root = some .dir) (hne : landing m.path ≠ [])
    (hlinks : LinkFree disk.tree root)
    (h : extractEntry dest (some m.entry) disk = (.ok (), disk')) : Passes disk.tree root m := by
  have hway : ∀ (x : List OsString) target,
      disk.tree.get (x.reverse ++ root) ≠ some (.leaf (.symlink target)) := by
    intro x target
    by_cases hx : x = []
    · rw [hx, List.reverse_nil, List.nil_append, hroot]
      simp
    · exact hlinks _ target (below_iff.2 ⟨x, hx, rfl⟩)
  cases hcontent : m.content with
  | none =>
    rw [extractEntry_dir hplain hne hcontent] at h
    have hrun := Act.context_ok h
    rw [createDirAll_below hdest hroot] at hrun
    exact
      { dirs := fun x hx _ => ensureDirs_free hdest hroot (fun x _ => hway x) hrun x hx
        file := fun hfile => absurd hcontent hfile }
  | some data =>
    obtain hnil | ⟨ns, n, hlanding⟩ := List.eq_nil_or_concat' (landing m.path)
    · exact absurd hnil hne
    rw [extractEntry_file hplain hcontent hlanding] at h
    obtain ⟨_, disk₁, hfirst, hunpack⟩ := Act.bind_ok h
    have hrun := Act.context_ok hfirst
    rw [createDirAll_below hdest hroot] at hrun
    have hfree := ensureDirs_free hdest hroot (fun x _ => hway x) hrun
    obtain ⟨disk₁', hrun', hmakes, hlast⟩ := ensureDirs_makes hdest hroot hfree
    obtain ⟨-, rfl⟩ := Prod.mk.inj (hrun.symm.trans hrun')
    constructor
    · intro x hx hlast'
      rw [hlanding, List.prefix_concat_iff] at hx
      rcases hx with hx | hx
      · rw [hlast' (by rw [hx, hlanding])] at hcontent
        cases hcontent
      · exact hfree x hx
    · intro _ hdir
      -- `unpack` fails at a directory.
      have hthere : disk₁.tree.get (n :: (ns.reverse ++ root)) = some .dir := by
        rw [← loc_concat hlanding, hmakes.old _ (by rw [hdir]; simp), hdir]
      have hfail := unpack_dir hcontent hlast (hmakes.dirs ns (List.prefix_refl _)) hthere
      have hok := Act.context_ok hunpack
      rw [hfail] at hok
      cases hok

/-- What stands at a place afterwards. -/
theorem Lands.get_cases (h : Lands root m disk disk') (l : FsLoc) :
    (∃ data, m.content = some data ∧ l = m.loc root ∧
        disk'.tree.get l = some (.leaf (.file data))) ∨
      (∃ x, x <+: landing m.path ∧ (x = landing m.path → m.content = none) ∧
        l = x.reverse ++ root ∧ disk'.tree.get l = some .dir) ∨
      disk'.tree.get l = disk.tree.get l := by
  by_cases hx : ∃ x, x <+: landing m.path ∧ l = x.reverse ++ root
  · obtain ⟨x, hx, rfl⟩ := hx
    by_cases hlast : x = landing m.path → m.content = none
    · exact .inr (.inl ⟨x, hx, hlast, rfl, h.dirs x hx hlast⟩)
    · rw [Classical.not_imp] at hlast
      obtain ⟨data, hdata⟩ := Option.ne_none_iff_exists'.1 hlast.2
      refine .inl ⟨data, hdata, ?_, ?_⟩
      · rw [hlast.1, Member.loc]
      · rw [hlast.1]
        exact (h.file data hdata).1
  · rw [not_exists] at hx
    exact .inr (.inr (h.same l fun x hpre heq => hx x ⟨hpre, heq⟩))

theorem Lands.keepsKinds (h : Lands root m disk disk') : KeepsKinds disk disk' := by
  intro l node hnode
  by_cases hplace : m.content ≠ none ∧ l = m.loc root
  · obtain ⟨hfile, rfl⟩ := hplace
    obtain ⟨data, hdata⟩ := Option.ne_none_iff_exists'.1 hfile
    refine ⟨_, (h.file data hdata).1, ?_⟩
    cases node with
    | dir => exact absurd hnode (h.free hfile)
    | leaf leaf => exact iff_of_false (by simp) (by simp)
  · refine ⟨node, ?_, Iff.rfl⟩
    rw [h.old l (by rw [hnode]; simp) fun hfile heq => hplace ⟨hfile, heq⟩, hnode]

theorem Lands.outside (h : Lands root m disk disk') (hroot : disk.tree.get root = some .dir)
    (hne : landing m.path ≠ []) (hl : ¬ Below root l) : disk'.tree.get l = disk.tree.get l := by
  by_cases hself : l = root
  · rw [hself]
    have hthere : disk.tree.get root ≠ none := by
      rw [hroot]
      simp
    refine h.old root hthere ?_
    rintro _ heq
    rw [Member.loc, List.self_eq_append_left, List.reverse_eq_nil_iff] at heq
    exact hne heq
  · refine h.same l ?_
    rintro x _ rfl
    exact hl ⟨List.suffix_append _ _, hself⟩

theorem Lands.linkFree (h : Lands root m disk disk') (hlinks : LinkFree disk.tree root) :
    LinkFree disk'.tree root := by
  intro l target hl hlink
  rcases h.get_cases l with ⟨data, -, -, hget⟩ | ⟨x, -, -, -, hget⟩ | hget
  · rw [hget] at hlink
    cases hlink
  · rw [hget] at hlink
    cases hlink
  · rw [hget] at hlink
    exact hlinks l target hl hlink

end OneMember

/-! ## All members -/

section AllMembers

variable {disk disk₁ disk' : Disk} {tree tree' : FsTree} {root l : FsLoc} {dest : FilePath}
  {m : Member} {members : List Member}

/-- The path leads to the directory `root`, and not through it. -/
structure Leads (tree : FsTree) (dest : FilePath) (root : FsLoc) : Prop where
  leads : locate (tree.clear root) dest = some root
  dir : tree.get root = some .dir

theorem Leads.of_outside (h : Leads tree dest root)
    (hout : ∀ l, ¬ Below root l → tree'.get l = tree.get l) : Leads tree' dest root where
  leads := by
    rw [← h.leads]
    apply locate_congr
    intro l
    rw [Tree.get_clear, Tree.get_clear]
    split
    · rfl
    · next hl => exact hout l hl
  dir := by rw [hout root (not_below_self root), h.dir]

theorem Leads.locate (h : Leads tree dest root) : FileTree.locate tree dest = some root :=
  (leads_of_outside h.leads h.dir fun _ _ => rfl).1

/-- The members have been extracted one after the other, some perhaps skipped. -/
inductive LandsAll (root : FsLoc) : Disk → List Member → Disk → Prop
  | nil (disk : Disk) : LandsAll root disk [] disk
  | skip {disk disk' : Disk} {m : Member} {members : List Member} (hskip : landing m.path = [])
      (hrest : LandsAll root disk members disk') : LandsAll root disk (m :: members) disk'
  | cons {disk disk₁ disk' : Disk} {m : Member} {members : List Member}
      (hne : landing m.path ≠ []) (hfirst : Lands root m disk disk₁)
      (hrest : LandsAll root disk₁ members disk') : LandsAll root disk (m :: members) disk'

/-- Nothing stands in the way of any member, and no file in the way of another member. -/
structure AllPass (tree : FsTree) (root : FsLoc) (members : List Member) : Prop where
  passes : ∀ m ∈ members, Passes tree root m
  within : ∀ m ∈ members, ∀ m' ∈ members, m'.content ≠ none →
    landing m'.path <+: landing m.path → m' = m

theorem AllPass.tail (h : AllPass disk.tree root (m :: members)) : AllPass disk.tree root members where
  passes m' hm' := h.passes m' (List.mem_cons_of_mem _ hm')
  within m₁ h₁ m₂ h₂ := h.within m₁ (List.mem_cons_of_mem _ h₁) m₂ (List.mem_cons_of_mem _ h₂)

/-- What one member leaves behind is in the way of no other. -/
theorem AllPass.step (h : AllPass disk.tree root (m :: members)) (hlands : Lands root m disk disk') :
    AllPass disk'.tree root members where
  passes m' hm' := by
    have hmem : m' ∈ m :: members := List.mem_cons_of_mem _ hm'
    constructor
    · intro x hx hlast leaf hleaf
      rcases hlands.get_cases (x.reverse ++ root) with
        ⟨data, hdata, hloc, -⟩ | ⟨y, -, -, -, hget⟩ | hget
      · rw [Member.loc, List.append_left_inj, List.reverse_inj] at hloc
        rw [hloc] at hx hlast
        obtain rfl := h.within m' hmem m List.mem_cons_self (by rw [hdata]; simp) hx
        rw [hlast rfl] at hdata
        cases hdata
      · rw [hget] at hleaf
        cases hleaf
      · rw [hget] at hleaf
        exact (h.passes m' hmem).dirs x hx hlast leaf hleaf
    · intro hfile hdir
      rcases hlands.get_cases (m'.loc root) with
        ⟨data, -, -, hget⟩ | ⟨y, hy, hlast, hloc, -⟩ | hget
      · rw [hget] at hdir
        cases hdir
      · rw [Member.loc, List.append_left_inj, List.reverse_inj] at hloc
        rw [← hloc] at hy hlast
        obtain rfl := h.within m List.mem_cons_self m' hmem hfile hy
        exact hfile (hlast rfl)
      · rw [hget] at hdir
        exact (h.passes m' hmem).file hfile hdir
  within := h.tail.within

/-- The loop over the members of an archive. -/
def extractMembers (dest : FilePath) (members : List Member) : Bundling Unit :=
  (members.map fun m => some m.entry).forM (extractEntry dest)

theorem extractMembers_cons (dest : FilePath) (m : Member) (members : List Member) :
    extractMembers dest (m :: members) =
      (extractEntry dest (some m.entry) >>= fun _ => extractMembers dest members) := rfl

/-- Where nothing is in the way the loop extracts all members. -/
theorem extractMembers_landsAll (hplain : ∀ m ∈ members, Plain m.path)
    (hdest : Leads disk.tree dest root) (hpass : AllPass disk.tree root members) :
    ∃ disk', extractMembers dest members disk = (.ok (), disk') ∧
      LandsAll root disk members disk' := by
  induction members generalizing disk with
  | nil => exact ⟨disk, rfl, .nil disk⟩
  | cons m members ih =>
    have hplain' : ∀ m ∈ members, Plain m.path := fun m' hm' =>
      hplain m' (List.mem_cons_of_mem _ hm')
    by_cases hne : landing m.path = []
    · obtain ⟨disk', hrun, hall⟩ := ih hplain' hdest hpass.tail
      refine ⟨disk', ?_, .skip hne hall⟩
      rw [extractMembers_cons, Act.run_bind, extractEntry_skip (hplain m List.mem_cons_self) hne]
      exact hrun
    · obtain ⟨disk₁, hfirst, hlands⟩ := extractEntry_lands (hplain m List.mem_cons_self)
        hdest.locate hdest.dir hne (hpass.passes m List.mem_cons_self)
      have hdest₁ := hdest.of_outside fun l hl => hlands.outside hdest.dir hne hl
      obtain ⟨disk', hrun, hall⟩ := ih hplain' hdest₁ (hpass.step hlands)
      refine ⟨disk', ?_, .cons hne hlands hall⟩
      rw [extractMembers_cons, Act.run_bind, hfirst]
      exact hrun

/-- Where no link stands it extracts no others. -/
theorem landsAll_of_ok (hplain : ∀ m ∈ members, Plain m.path) (hdest : Leads disk.tree dest root)
    (hlinks : LinkFree disk.tree root)
    (h : extractMembers dest members disk = (.ok (), disk')) : LandsAll root disk members disk' := by
  induction members generalizing disk with
  | nil =>
    cases h
    exact .nil _
  | cons m members ih =>
    have hplain' : ∀ m ∈ members, Plain m.path := fun m' hm' =>
      hplain m' (List.mem_cons_of_mem _ hm')
    rw [extractMembers_cons] at h
    obtain ⟨_, disk₁, hfirst, hrest⟩ := Act.bind_ok h
    by_cases hne : landing m.path = []
    · rw [extractEntry_skip (hplain m List.mem_cons_self) hne] at hfirst
      cases hfirst
      exact .skip hne (ih hplain' hdest hlinks hrest)
    · have hpasses := extractEntry_passes (hplain m List.mem_cons_self) hdest.locate hdest.dir hne
        hlinks hfirst
      obtain ⟨disk₁', hfirst', hlands⟩ := extractEntry_lands (hplain m List.mem_cons_self)
        hdest.locate hdest.dir hne hpasses
      obtain ⟨-, rfl⟩ := Prod.mk.inj (hfirst.symm.trans hfirst')
      exact .cons hne hlands
        (ih hplain' (hdest.of_outside fun l hl => hlands.outside hdest.dir hne hl)
          (hlands.linkFree hlinks) hrest)

namespace LandsAll

theorem keepsKinds (h : LandsAll root disk members disk') : KeepsKinds disk disk' := by
  induction h with
  | nil disk => exact .refl disk
  | skip _ _ ih => exact ih
  | cons _ hfirst _ ih => exact hfirst.keepsKinds.trans _ _ _ ih

theorem outside (h : LandsAll root disk members disk') (hroot : disk.tree.get root = some .dir)
    (hl : ¬ Below root l) : disk'.tree.get l = disk.tree.get l := by
  induction h with
  | nil _ => rfl
  | skip _ _ ih => exact ih hroot
  | cons hne hfirst _ ih =>
    rw [ih (hfirst.keepsKinds.dir hroot), hfirst.outside hroot hne hl]

theorem linkFree (h : LandsAll root disk members disk') (hlinks : LinkFree disk.tree root) :
    LinkFree disk'.tree root := by
  induction h with
  | nil _ => exact hlinks
  | skip _ _ ih => exact ih hlinks
  | cons _ hfirst _ ih => exact ih (hfirst.linkFree hlinks)

theorem kept (h : LandsAll root disk members disk') (hl : l ∈ disk.touched) : l ∈ disk'.touched := by
  induction h with
  | nil _ => exact hl
  | skip _ _ ih => exact ih hl
  | cons _ hfirst _ ih => exact ih (hfirst.kept l hl)

/-- The directories that the members stand in, and are, are there in the end. -/
theorem dirs (h : LandsAll root disk members disk') (hroot : disk.tree.get root = some .dir)
    (hm : m ∈ members) {x : List OsString} (hx : x <+: landing m.path)
    (hlast : x = landing m.path → m.content = none) :
    disk'.tree.get (x.reverse ++ root) = some .dir := by
  induction h with
  | nil _ => cases hm
  | skip hskip hrest ih =>
    rcases List.mem_cons.1 hm with rfl | hm
    · rw [hskip] at hx
      rw [List.prefix_nil.1 hx]
      exact hrest.keepsKinds.dir hroot
    · exact ih hroot hm
  | cons _ hfirst hrest ih =>
    rcases List.mem_cons.1 hm with rfl | hm
    · exact hrest.keepsKinds.dir (hfirst.dirs x hx hlast)
    · exact ih (hfirst.keepsKinds.dir hroot) hm

/-- A file stays unless another is extracted to its place. -/
theorem stays (h : LandsAll root disk members disk') {data : FileData}
    (hget : disk.tree.get l = some (.leaf (.file data)))
    (hother : ∀ m ∈ members, m.content ≠ none → m.loc root = l → m.content = some data) :
    disk'.tree.get l = some (.leaf (.file data)) := by
  induction h with
  | nil _ => exact hget
  | skip _ _ ih => exact ih hget fun m hm => hother m (List.mem_cons_of_mem _ hm)
  | @cons disk disk₁ _ m _ _ hfirst _ ih =>
    refine ih ?_ fun m hm => hother m (List.mem_cons_of_mem _ hm)
    by_cases hplace : m.content ≠ none ∧ l = m.loc root
    · obtain ⟨hfile, rfl⟩ := hplace
      exact (hfirst.file data (hother m List.mem_cons_self hfile rfl)).1
    · rw [hfirst.old l (by rw [hget]; simp) fun hfile heq => hplace ⟨hfile, heq⟩, hget]

/-- A file that is not skipped is written, and is a file in the end. -/
theorem written (h : LandsAll root disk members disk') (hm : m ∈ members) (hfile : m.content ≠ none)
    (hne : landing m.path ≠ []) :
    m.loc root ∈ disk'.touched ∧ ∃ leaf, disk'.tree.get (m.loc root) = some (.leaf leaf) := by
  induction h with
  | nil _ => cases hm
  | skip hskip _ ih =>
    rcases List.mem_cons.1 hm with rfl | hm
    · exact absurd hskip hne
    · exact ih hm
  | cons _ hfirst hrest ih =>
    rcases List.mem_cons.1 hm with rfl | hm
    · obtain ⟨data, hdata⟩ := Option.ne_none_iff_exists'.1 hfile
      obtain ⟨hget, htouched⟩ := hfirst.file data hdata
      exact ⟨hrest.kept htouched, hrest.keepsKinds.leaf hget⟩
    · exact ih hm

/-- It is this file if no other one is extracted to its place. -/
theorem holds (h : LandsAll root disk members disk') (hm : m ∈ members) {data : FileData}
    (hdata : m.content = some data) (hne : landing m.path ≠ [])
    (hother : ∀ m' ∈ members, m'.content ≠ none → m'.loc root = m.loc root → m' = m) :
    disk'.tree.get (m.loc root) = some (.leaf (.file data)) := by
  induction h with
  | nil _ => cases hm
  | skip hskip _ ih =>
    rcases List.mem_cons.1 hm with rfl | hm
    · exact absurd hskip hne
    · exact ih hm fun m' hm' => hother m' (List.mem_cons_of_mem _ hm')
  | cons _ hfirst hrest ih =>
    rcases List.mem_cons.1 hm with rfl | hm
    · refine hrest.stays (hfirst.file data hdata).1 ?_
      intro m' hm' hfile hloc
      rw [hother m' (List.mem_cons_of_mem _ hm') hfile hloc, hdata]
    · exact ih hm fun m' hm' => hother m' (List.mem_cons_of_mem _ hm')

/-- Whatever else is touched is a directory in the end. -/
theorem touched (h : LandsAll root disk members disk') (hl : l ∈ disk'.touched) :
    l ∈ disk.touched ∨ disk'.tree.get l = some .dir ∨
      ∃ m ∈ members, m.content ≠ none ∧ landing m.path ≠ [] ∧ l = m.loc root := by
  induction h with
  | nil _ => exact .inl hl
  | skip _ _ ih =>
    rcases ih hl with hl | hl | ⟨m, hm, hrest⟩
    · exact .inl hl
    · exact .inr (.inl hl)
    · exact .inr (.inr ⟨m, List.mem_cons_of_mem _ hm, hrest⟩)
  | cons hne hfirst hrest ih =>
    rcases ih hl with hl | hl | ⟨m, hm, hrest⟩
    · rcases hfirst.touched l hl with hl | hl | ⟨hfile, hl⟩
      · exact .inl hl
      · exact .inr (.inl (hrest.keepsKinds.dir hl))
      · exact .inr (.inr ⟨_, List.mem_cons_self, hfile, hne, hl⟩)
    · exact .inr (.inl hl)
    · exact .inr (.inr ⟨m, List.mem_cons_of_mem _ hm, hrest⟩)

/-- What has been extracted was not in the way. -/
theorem passes (h : LandsAll root disk members disk') (hroot : disk.tree.get root = some .dir)
    (hm : m ∈ members) (hne : m.content ≠ none → landing m.path ≠ []) :
    Passes disk.tree root m where
  dirs x hx hlast leaf hleaf := by
    obtain ⟨leaf', hleaf'⟩ := h.keepsKinds.leaf hleaf
    rw [h.dirs hroot hm hx hlast] at hleaf'
    cases hleaf'
  file hfile hdir := by
    obtain ⟨-, leaf, hleaf⟩ := h.written hm hfile (hne hfile)
    rw [h.keepsKinds.dir hdir] at hleaf
    cases hleaf

/-- No file has been in the way of what is below it. -/
theorem landing_eq (h : LandsAll root disk members disk') (hroot : disk.tree.get root = some .dir)
    (hm : m ∈ members) {m' : Member} (hm' : m' ∈ members) (hfile : m'.content ≠ none)
    (hne : landing m'.path ≠ []) (hpre : landing m'.path <+: landing m.path) :
    m.content ≠ none ∧ landing m'.path = landing m.path := by
  by_contra hcon
  obtain ⟨-, leaf, hleaf⟩ := h.written hm' hfile hne
  have hdir := h.dirs hroot hm hpre fun heq => by
    by_contra hm
    exact hcon ⟨hm, heq⟩
  rw [← Member.loc, hleaf] at hdir
  cases hdir

end LandsAll

end AllMembers

end Hwwctl.Bundler
