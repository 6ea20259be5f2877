import Hwwctl.Bundler.Proofs.LossProofs
import Hwwctl.Bundler.Size

/-!
# What `dir_size` adds up

The recursion goes into every directory that a path leads to, links followed. It comes to an end on
every tree, since the system follows no more than `maxLinks` links on one path. But it finds the
files behind a link again under the path of the link.
-/

namespace Hwwctl.Bundler

open FileTree Io

section Recursion

variable {order : List OsString → List OsString} {tree : FsTree} {dir : FilePath} {fuel : Nat}

theorem collect_succ (order : List OsString → List OsString) (tree : FsTree) (fuel : Nat)
    (dir : FilePath) :
    collect order tree (fuel + 1) dir = (entriesIn order tree dir).flatMap fun name =>
      if isDir tree (dir ++ [.normal name]) then collect order tree fuel (dir ++ [.normal name])
      else [dir ++ [.normal name]] := rfl

theorem entriesIn_eq_nil (h : isDir tree dir ≠ true) : entriesIn order tree dir = [] := by
  rw [ne_eq, isDir_iff, not_exists] at h
  unfold entriesIn readDir
  split
  · next loc hlocate =>
    rw [if_neg fun hget => h loc ⟨hlocate, hget⟩]
    rfl
  · rfl

/-- The loop over the names, when what the calls in it push is known. -/
theorem collects_names (names : List OsString)
    (hinner : ∀ name, isDir tree (dir ++ [.normal name]) = true →
      Collects order tree (dir ++ [.normal name]) (entriesIn order tree (dir ++ [.normal name]))
        (collect order tree fuel (dir ++ [.normal name]))) :
    Collects order tree dir names (names.flatMap fun name =>
      if isDir tree (dir ++ [.normal name]) then collect order tree fuel (dir ++ [.normal name])
      else [dir ++ [.normal name]]) := by
  induction names with
  | nil => exact .done dir
  | cons name names ih =>
    rw [List.flatMap_cons]
    by_cases hdir : isDir tree (dir ++ [.normal name]) = true
    · rw [if_pos hdir]
      exact .descend hdir (hinner name hdir) ih
    · rw [if_neg hdir]
      exact .push (by simpa using hdir) ih

theorem collects_of_bound
    (h : ∀ names : List OsString, isDir tree (dir ++ names.map .normal) = true →
      names.length < fuel) :
    Collects order tree dir (entriesIn order tree dir) (collect order tree fuel dir) := by
  induction fuel generalizing dir with
  | zero =>
    have hdir : isDir tree dir ≠ true := by
      intro hdir
      have hlt := h [] (by simpa using hdir)
      exact Nat.not_lt_zero _ hlt
    rw [entriesIn_eq_nil hdir]
    exact .done dir
  | succ fuel ih =>
    rw [collect_succ]
    refine collects_names _ ?_
    intro name _
    refine ih ?_
    intro names hnames
    rw [List.append_assoc] at hnames
    have hlt := h (name :: names) hnames
    rw [List.length_cons] at hlt
    omega

/-- The recursion comes to an end. -/
theorem collects_collect (order : List OsString → List OsString) (tree : FsTree) (dir : FilePath) :
    Collects order tree dir (entriesIn order tree dir)
      (collect order tree (collectDepth tree) dir) := by
  refine collects_of_bound ?_
  intro names hnames
  have hlt := length_lt_of_isDir hnames
  rw [collectDepth, Nat.mul_add]
  omega

/-- There is only one way for it to go. -/
theorem Collects.unique {names : List OsString} {out out' : List FilePath}
    (h : Collects order tree dir names out) (h' : Collects order tree dir names out') :
    out = out' := by
  induction h generalizing out' with
  | done _ =>
    cases h'
    rfl
  | descend hdir _ _ ihinner ihrest =>
    cases h' with
    | descend _ hinner' hrest' => rw [ihinner hinner', ihrest hrest']
    | push hdir' _ => exact absurd (hdir.symm.trans hdir') (by simp)
  | push hdir _ ihrest =>
    cases h' with
    | descend hdir' _ _ => exact absurd (hdir'.symm.trans hdir) (by simp)
    | push _ hrest' => rw [ihrest hrest']

end Recursion

/-! ## The entries -/

section Entries

variable {order : List OsString → List OsString} {tree : FsTree} {dir path : FilePath} {fuel : Nat}
  {names : List OsString} {n : OsString}

/-- The system lists every name in a directory once. -/
def ListsOnce (order : List OsString → List OsString) : Prop := ∀ names, (order names).Perm names

theorem isFileEntry_iff : isFileEntry tree (path ++ [.normal n]) = true ↔
    ∃ loc data, locate tree path = some loc ∧ tree.get loc = some .dir ∧
      tree.get (n :: loc) = some (.leaf (.file data)) := by
  constructor
  · intro h
    unfold isFileEntry at h
    split at h
    · next data hget =>
      obtain ⟨loc', hplace, hfile⟩ := Option.bind_eq_some_iff.1 hget
      obtain ⟨loc, name, base, hpath, rfl, hlocate, hdir⟩ := place_some hplace
      obtain ⟨rfl, heq⟩ := List.append_inj' hpath rfl
      obtain rfl : n = name := by simpa using heq
      exact ⟨loc, data, hlocate, hdir, hfile⟩
    · cases h
  · rintro ⟨loc, data, hlocate, hdir, hfile⟩
    simp only [isFileEntry, place_normal hlocate hdir, Option.bind_some, hfile]

/-- The last name is that of the regular file, the names before it lead to its directory. -/
theorem isFileEntry_names (hnames : names ≠ [])
    (h : isFileEntry tree (dir ++ names.map .normal) = true) :
    ∃ above n loc, names = above ++ [n] ∧ locate tree (dir ++ above.map .normal) = some loc ∧
      tree.get loc = some .dir := by
  obtain hnil | ⟨above, n, rfl⟩ := List.eq_nil_or_concat' names
  · exact absurd hnil hnames
  rw [List.map_append, List.map_singleton, ← List.append_assoc] at h
  obtain ⟨loc, -, hlocate, hdir, -⟩ := isFileEntry_iff.1 h
  exact ⟨above, n, loc, rfl, hlocate, hdir⟩

/-- What is pushed has a path that goes on by names. -/
theorem names_of_mem_collect (h : path ∈ collect order tree fuel dir) :
    ∃ (n : OsString) (more : List OsString),
      path = dir ++ .normal n :: more.map .normal ∧ n ∈ entriesIn order tree dir := by
  induction fuel generalizing dir with
  | zero => cases h
  | succ fuel ih =>
    rw [collect_succ, List.mem_flatMap] at h
    obtain ⟨n, hn, hmem⟩ := h
    split at hmem
    · obtain ⟨m, more, rfl, -⟩ := ih hmem
      exact ⟨n, m :: more, by simp, hn⟩
    · rw [List.mem_singleton] at hmem
      exact ⟨n, [], by rw [hmem]; rfl, hn⟩

theorem mem_entriesIn {loc : FsLoc} (horder : ListsOnce order) (hlocate : locate tree dir = some loc)
    (hdir : tree.get loc = some .dir) :
    n ∈ entriesIn order tree dir ↔ tree.get (n :: loc) ≠ none := by
  simp only [entriesIn, readDir, hlocate, hdir, if_true, Option.getD_some]
  rw [(horder _).mem_iff, Tree.mem_names]

/-- A directory is listed in the directory above. -/
theorem mem_entriesIn_of_isDir (horder : ListsOnce order)
    (h : isDir tree (dir ++ [.normal n]) = true) : n ∈ entriesIn order tree dir := by
  obtain ⟨loc, hlocate, hdir⟩ := isDir_iff.1 (isDir_ancestor h)
  rw [mem_entriesIn horder hlocate hdir]
  intro hnone
  have hfound := locate_normal hlocate hdir (by rw [hnone]; simp)
  rw [isDir_eq_false hfound (by rw [hnone]; simp)] at h
  cases h

/-- Every regular file that names lead to is pushed. -/
theorem mem_collect (horder : ListsOnce order) (hnames : names ≠ [])
    (hfile : isFileEntry tree (dir ++ names.map .normal) = true) (hfuel : names.length ≤ fuel) :
    dir ++ names.map .normal ∈ collect order tree fuel dir := by
  induction names generalizing dir fuel with
  | nil => exact absurd rfl hnames
  | cons n names ih =>
    cases fuel with
    | zero => exact absurd hfuel (by simp)
    | succ fuel =>
      rw [collect_succ, List.mem_flatMap]
      by_cases hlast : names = []
      · subst hlast
        obtain ⟨loc, data, hlocate, hdir, hget⟩ := isFileEntry_iff.1 hfile
        have hnext := locate_normal hlocate hdir (by rw [hget]; simp)
        refine ⟨n, (mem_entriesIn horder hlocate hdir).2 (by rw [hget]; simp), ?_⟩
        rw [isDir_eq_false hnext (by rw [hget]; simp)]
        simp
      · rw [List.map_cons, List.append_cons] at hfile ⊢
        obtain ⟨above, m, loc, -, hlocate, hget⟩ := isFileEntry_names hlast hfile
        have hdir : isDir tree (dir ++ [.normal n]) = true :=
          isDir_ancestor (isDir_iff.2 ⟨loc, hlocate, hget⟩)
        refine ⟨n, mem_entriesIn_of_isDir horder hdir, ?_⟩
        rw [if_pos hdir]
        exact ih hlast hfile (by simpa using hfuel)

theorem nodup_entriesIn (horder : ListsOnce order) : (entriesIn order tree dir).Nodup := by
  unfold entriesIn readDir
  split
  · split
    · rw [Option.getD_some, (horder _).nodup_iff]
      refine List.Nodup.filterMap ?_ tree.nodes.keys_nodup
      intro l l' n hl hl'
      cases l with
      | nil => cases hl
      | cons m l =>
        cases l' with
        | nil => cases hl'
        | cons m' l' =>
          simp only [Option.mem_def, Option.ite_none_right_eq_some, Option.some.injEq] at hl hl'
          rw [hl.1, hl.2, hl'.1, hl'.2]
    · exact List.nodup_nil
  · exact List.nodup_nil

theorem nodup_collect (horder : ListsOnce order) : (collect order tree fuel dir).Nodup := by
  induction fuel generalizing dir with
  | zero => exact List.nodup_nil
  | succ fuel ih =>
    rw [collect_succ, List.nodup_flatMap]
    constructor
    · intro name _
      split
      · exact ih
      · exact List.nodup_singleton _
    · -- Under different names the paths are different.
      refine (nodup_entriesIn horder).imp ?_
      intro n n' hne path hn hn'
      have hstart : ∀ {name : OsString},
          path ∈ (if isDir tree (dir ++ [.normal name]) then
            collect order tree fuel (dir ++ [.normal name]) else [dir ++ [.normal name]]) →
          ∃ more, path = dir ++ .normal name :: more := by
        intro name hmem
        split at hmem
        · obtain ⟨m, more, hpath, -⟩ := names_of_mem_collect hmem
          exact ⟨_, by rw [hpath, ← List.append_cons]⟩
        · rw [List.mem_singleton] at hmem
          exact ⟨[], hmem⟩
      obtain ⟨more, hpath⟩ := hstart hn
      obtain ⟨more', hpath'⟩ := hstart hn'
      rw [hpath, List.append_cancel_left_eq] at hpath'
      exact hne (by simpa using (List.cons.inj hpath').1)

/-- The regular files that are counted are all those that names lead to. -/
theorem mem_counted (horder : ListsOnce order) :
    path ∈ counted order tree dir ↔
      ∃ names : List OsString, names ≠ [] ∧ path = dir ++ names.map .normal ∧
        isFileEntry tree path = true := by
  rw [counted, List.mem_filter]
  constructor
  · rintro ⟨hmem, hfile⟩
    obtain ⟨n, more, hpath, -⟩ := names_of_mem_collect hmem
    exact ⟨n :: more, by simp, hpath, hfile⟩
  · rintro ⟨names, hnames, rfl, hfile⟩
    refine ⟨mem_collect horder hnames hfile ?_, hfile⟩
    obtain ⟨above, n, loc, rfl, hlocate, hget⟩ := isFileEntry_names hnames hfile
    have hlt := length_lt_of_isDir (isDir_iff.2 ⟨loc, hlocate, hget⟩)
    rw [collectDepth, Nat.mul_add, List.length_append, List.length_singleton]
    omega

end Entries

/-! ## The sum -/

section Sum

variable {order : List OsString → List OsString} {tree : FsTree} {dir path : FilePath} {root : FsLoc}

/-- The recursion in `dir`, which stands at `root`, returns, and the total is the size of the regular
    files below `root`: each is counted once, under the path on which it stands. -/
structure CountsOnce (order : List OsString → List OsString) (tree : FsTree) (dir : FilePath)
    (root : FsLoc) : Prop where
  ends : ∀ paths, Collects order tree dir (entriesIn order tree dir) paths ↔
    paths = collect order tree (collectDepth tree) dir
  total : (dirSize order tree dir).toNat = ((regularFiles tree root).map (sizeAt tree)).sum
  once : ((counted order tree dir).map (place tree)).Perm ((regularFiles tree root).map some)
  direct : ∀ path ∈ counted order tree dir, ∃ names : List OsString,
    path = dir ++ names.map .normal ∧ place tree path = some (names.reverse ++ root)

/-- No link below `root` leads to a directory with a regular file in it or further down. -/
def HidesNoFile (tree : FsTree) (dir : FilePath) (root : FsLoc) : Prop :=
  ∀ (names : List OsString) (target : FilePath),
    tree.get (names.reverse ++ root) = some (.leaf (.symlink target)) →
    ∀ more : List OsString, more ≠ [] →
      isFileEntry tree (dir ++ (names ++ more).map .normal) = false

/-- Below a link that leads to no directory nothing is found. -/
theorem hidesNoFile_of_isDir
    (h : ∀ (names : List OsString) (target : FilePath),
      tree.get (names.reverse ++ root) = some (.leaf (.symlink target)) →
      isDir tree (dir ++ names.map .normal) = false) :
    HidesNoFile tree dir root := by
  intro names target hlink more hmore
  by_contra hfile
  rw [Bool.not_eq_false] at hfile
  rw [List.map_append, ← List.append_assoc] at hfile
  obtain ⟨above, n, loc, -, hlocate, hdir⟩ := isFileEntry_names hmore hfile
  have hdirs := isDir_ancestor (isDir_iff.2 ⟨loc, hlocate, hdir⟩)
  rw [h names target hlink] at hdirs
  cases hdirs

/-- Where no link is in the way, a regular file stands where its names say. -/
theorem HidesNoFile.place_eq (h : HidesNoFile tree dir root) (hlocate : locate tree dir = some root)
    (hroot : tree.get root = some .dir) {names : List OsString} (hnames : names ≠ [])
    (hfile : isFileEntry tree (dir ++ names.map .normal) = true) :
    place tree (dir ++ names.map .normal) = some (names.reverse ++ root) := by
  obtain ⟨above, n, loc, rfl, hloc, hdir⟩ := isFileEntry_names hnames hfile
  rcases locate_names_cases hlocate hroot hloc with rfl | ⟨x, m, rest, target, rfl, hlink⟩
  · rw [List.map_append, List.map_singleton, ← List.append_assoc, place_normal hloc hdir,
      List.reverse_append]
    rfl
  · -- Behind the link would be a regular file.
    have hnone := h (x ++ [m]) target (by simpa using hlink) (rest ++ [n]) (by simp)
    rw [List.append_assoc, List.singleton_append, ← List.cons_append, ← List.append_assoc] at hnone
    exact absurd (hfile.symm.trans hnone) (by simp)

theorem isFileEntry_eq : isFileEntry tree path = (place tree path).elim false (isFileAt tree) := by
  unfold isFileEntry isFileAt
  cases place tree path <;> rfl

theorem fileLen_eq : fileLen tree path = (place tree path).elim 0 (sizeAt tree) := by
  unfold fileLen sizeAt
  cases place tree path <;> rfl

theorem fileLen_eq_zero (h : isFileEntry tree path = false) : fileLen tree path = 0 := by
  unfold isFileEntry at h
  unfold fileLen
  generalize (place tree path).bind tree.get = found at h ⊢
  cases found with
  | none => rfl
  | some node =>
    cases node with
    | dir => rfl
    | leaf leaf =>
      cases leaf with
      | file data => cases h
      | symlink target => rfl

/-- The other entries add nothing. -/
theorem sum_filter (paths : List FilePath) :
    ((paths.filter (isFileEntry tree)).map (fileLen tree)).sum = (paths.map (fileLen tree)).sum := by
  induction paths with
  | nil => rfl
  | cons path paths ih =>
    rw [List.map_cons, List.sum_cons, ← ih]
    by_cases hfile : isFileEntry tree path = true
    · rw [List.filter_cons_of_pos hfile, List.map_cons, List.sum_cons]
    · rw [List.filter_cons_of_neg hfile, fileLen_eq_zero (by simpa using hfile), Nat.zero_add]

/-- What the total is before it is kept in 64 bits. -/
theorem dirSize_toNat : (dirSize order tree dir).toNat =
    ((counted order tree dir).map (fileLen tree)).sum % 2 ^ 64 := by
  rw [dirSize, UInt64.toNat_ofNat', counted, sum_filter]

theorem ne_none_of_isFileAt {loc : FsLoc} (h : isFileAt tree loc = true) : tree.get loc ≠ none := by
  intro hnone
  rw [isFileAt, hnone] at h
  cases h

theorem mem_regularFiles {loc : FsLoc} : loc ∈ regularFiles tree root ↔
    Below root loc ∧ isFileAt tree loc = true := by
  rw [regularFiles, List.mem_filter, Bool.and_eq_true, decide_eq_true_eq]
  constructor
  · rintro ⟨-, h⟩
    exact h
  · rintro ⟨hbelow, hfile⟩
    refine ⟨?_, hbelow, hfile⟩
    rw [Tree.mem_keys]
    exact ne_none_of_isFileAt hfile

/-- A regular file below `root` is found on the path of its names. -/
theorem isFileEntry_of_mem_regularFiles (hlocate : locate tree dir = some root)
    (hroot : tree.get root = some .dir) {loc : FsLoc} (h : loc ∈ regularFiles tree root) :
    ∃ names : List OsString, names ≠ [] ∧ place tree (dir ++ names.map .normal) = some loc ∧
      isFileEntry tree (dir ++ names.map .normal) = true := by
  obtain ⟨hbelow, hfile⟩ := mem_regularFiles.1 h
  obtain ⟨names, hnames, rfl⟩ := below_iff.1 hbelow
  have hplace := place_names hlocate hroot hnames (ne_none_of_isFileAt hfile)
  refine ⟨names, hnames, hplace, ?_⟩
  rw [isFileEntry_eq, hplace]
  exact hfile

/-- Each regular file is counted once. -/
theorem HidesNoFile.perm (h : HidesNoFile tree dir root) (horder : ListsOnce order)
    (hlocate : locate tree dir = some root) (hroot : tree.get root = some .dir) :
    ((counted order tree dir).map (place tree)).Perm ((regularFiles tree root).map some) := by
  have hcounted : ((counted order tree dir).map (place tree)).Nodup := by
    refine List.Nodup.map_on ?_ ((nodup_collect horder).filter _)
    intro path hpath path' hpath' heq
    obtain ⟨names, hnames, rfl, hfile⟩ := (mem_counted horder).1 hpath
    obtain ⟨names', hnames', rfl, hfile'⟩ := (mem_counted horder).1 hpath'
    rw [h.place_eq hlocate hroot hnames hfile, h.place_eq hlocate hroot hnames' hfile'] at heq
    have hreverse : names.reverse = names'.reverse := List.append_cancel_right (Option.some.inj heq)
    rw [List.reverse_inj.1 hreverse]
  have hfiles : ((regularFiles tree root).map some).Nodup :=
    (tree.nodes.keys_nodup.filter _).map fun _ _ heq => Option.some.inj heq
  refine (List.perm_ext_iff_of_nodup hcounted hfiles).2 ?_
  intro found
  rw [List.mem_map, List.mem_map]
  constructor
  · rintro ⟨path, hpath, rfl⟩
    obtain ⟨names, hnames, rfl, hfile⟩ := (mem_counted horder).1 hpath
    have hplace := h.place_eq hlocate hroot hnames hfile
    rw [isFileEntry_eq, hplace] at hfile
    exact ⟨_, mem_regularFiles.2 ⟨below_iff.2 ⟨names, hnames, rfl⟩, hfile⟩, hplace.symm⟩
  · rintro ⟨loc, hloc, rfl⟩
    obtain ⟨names, hnames, hplace, hfile⟩ := isFileEntry_of_mem_regularFiles hlocate hroot hloc
    exact ⟨_, (mem_counted horder).2 ⟨names, hnames, rfl, hfile⟩, hplace⟩

/-- What is counted at the same places has the same size. -/
theorem sum_counted
    (h : ((counted order tree dir).map (place tree)).Perm ((regularFiles tree root).map some)) :
    ((counted order tree dir).map (fileLen tree)).sum =
      ((regularFiles tree root).map (sizeAt tree)).sum := by
  have hlens : (counted order tree dir).map (fileLen tree) =
      ((counted order tree dir).map (place tree)).map fun found => found.elim 0 (sizeAt tree) := by
    rw [List.map_map]
    exact List.map_congr_left fun path _ => fileLen_eq
  have hsizes : (regularFiles tree root).map (sizeAt tree) =
      ((regularFiles tree root).map some).map fun found => found.elim 0 (sizeAt tree) := by
    rw [List.map_map]
    rfl
  rw [hlens, hsizes]
  exact (h.map _).sum_eq

theorem HidesNoFile.countsOnce (h : HidesNoFile tree dir root) (horder : ListsOnce order)
    (hlocate : locate tree dir = some root) (hroot : tree.get root = some .dir)
    (hsize : ((regularFiles tree root).map (sizeAt tree)).sum < 2 ^ 64) :
    CountsOnce order tree dir root where
  ends paths := by
    constructor
    · intro hends
      exact hends.unique (collects_collect order tree dir)
    · rintro rfl
      exact collects_collect order tree dir
  total := by
    rw [dirSize_toNat, sum_counted (h.perm horder hlocate hroot)]
    exact Nat.mod_eq_of_lt hsize
  once := h.perm horder hlocate hroot
  direct path hpath := by
    obtain ⟨names, hnames, rfl, hfile⟩ := (mem_counted horder).1 hpath
    exact ⟨names, rfl, h.place_eq hlocate hroot hnames hfile⟩

/-- A regular file behind a link is counted on a path on which it does not stand. -/
theorem CountsOnce.hidesNoFile (h : CountsOnce order tree dir root) (horder : ListsOnce order) :
    HidesNoFile tree dir root := by
  intro names target hlink more hmore
  by_contra hfile
  rw [Bool.not_eq_false] at hfile
  have hcounted := (mem_counted horder).2 ⟨names ++ more, by simp [hmore], rfl, hfile⟩
  obtain ⟨names', hpath, hplace⟩ := h.direct _ hcounted
  obtain rfl : names ++ more = names' := by
    refine List.map_injective_iff.2 ?_ (List.append_cancel_left hpath)
    intro n n' heq
    exact Component.normal.inj heq
  rw [isFileEntry_eq, hplace, Option.elim_some, List.reverse_append, List.append_assoc] at hfile
  have hdir := Tree.get_above (by simpa using hmore) (ne_none_of_isFileAt hfile)
  rw [hlink] at hdir
  cases hdir

theorem dirSize_countsOnce_iff (horder : ListsOnce order) (hlocate : locate tree dir = some root)
    (hroot : tree.get root = some .dir) :
    CountsOnce order tree dir root ↔
      HidesNoFile tree dir root ∧ ((regularFiles tree root).map (sizeAt tree)).sum < 2 ^ 64 := by
  constructor
  · intro h
    refine ⟨h.hidesNoFile horder, ?_⟩
    rw [← h.total]
    exact (dirSize order tree dir).toNat_lt
  · rintro ⟨hfree, hsize⟩
    exact hfree.countsOnce horder hlocate hroot hsize

end Sum

def dataPath : FilePath := [.normal (osString "data")]

def programPath : FilePath := dataPath ++ [.normal (osString "fw")]

/-- The bundle directory with a program in a directory of its own, and a link to `target`. -/
def linked (target : FilePath) : FsTree :=
  ((do
    let tree ← downloaded.put (osString "data" :: trezorLoc) .dir
    let tree ← tree.put (osString "fw" :: osString "data" :: trezorLoc) (.leaf (.file program))
    tree.put (osString "latest" :: trezorLoc) (.leaf (.symlink target)) :
      Option FsTree)).getD .empty

/-- A link to the program is not counted. -/
theorem dirSize_countsOnce_iff_linked :
    CountsOnce id (linked programPath) trezorDir trezorLoc := by
  have horder : ListsOnce id := fun names => List.Perm.refl names
  refine (dirSize_countsOnce_iff horder (by decide +kernel) (by decide +kernel)).2
    ⟨hidesNoFile_of_isDir ?_, by decide +kernel⟩
  intro names target hlink
  have hall : ∀ l ∈ (linked programPath).nodes.keys,
      l = osString "latest" :: trezorLoc ∨
        isFileAt (linked programPath) l = true ∨
          (linked programPath).get l = some .dir := by
    decide +kernel
  have hmem := Tree.mem_keys.2 (Option.ne_none_iff_exists'.2 ⟨_, hlink⟩)
  rcases hall _ hmem with heq | hfile | hdir
  · obtain rfl : names = [osString "latest"] := by
      rw [← List.singleton_append, List.append_cancel_right_eq] at heq
      simpa using congrArg List.reverse heq
    decide +kernel
  · rw [isFileAt, hlink] at hfile
    cases hfile
  · exact absurd (hdir.symm.trans hlink) (by simp)

/-- A link to the directory of the program is gone into, and the program is counted again. -/
theorem dirSize_counts_again :
    locate (linked dataPath) trezorDir = some trezorLoc ∧
      (linked dataPath).get trezorLoc = some .dir ∧
      dirSize id (linked dataPath) trezorDir = 8 ∧
      ((regularFiles (linked dataPath) trezorLoc).map (sizeAt (linked dataPath))).sum = 4 ∧
      ¬ CountsOnce id (linked dataPath) trezorDir trezorLoc := by
  have hdirSize : dirSize id (linked dataPath) trezorDir = 8 := by
    decide +kernel
  have hsum : ((regularFiles (linked dataPath) trezorLoc).map (sizeAt (linked dataPath))).sum =
      4 := by
    decide +kernel
  refine ⟨by decide +kernel, by decide +kernel, hdirSize, hsum, ?_⟩
  intro h
  have htotal := h.total
  rw [hdirSize, hsum] at htotal
  exact absurd htotal (by decide)

-- Behind a link to the bundle directory itself the program is found again and again.
example : dirSize id (linked [.curDir]) trezorDir = 164 := by decide +kernel

end Hwwctl.Bundler
