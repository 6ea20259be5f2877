import Hwwctl.Library.Links
import Mathlib.Data.List.Perm.Subperm

/-!
# Paths of names

A path that goes on by names alone goes down the tree, until it comes to a link. The system resolves
none that is longer than the tree is deep, as often as it follows links and once more.
-/

namespace FileTree

variable {N D : Type}

section Lists

variable {n : N} {x ns : List N} {loc : Loc N}

theorem reverse_cons_append (n : N) (x : List N) (loc : Loc N) :
    (n :: x).reverse ++ loc = x.reverse ++ n :: loc := by
  rw [List.reverse_cons, List.append_assoc, List.singleton_append]

theorem prefix_cons_iff : x <+: n :: ns ↔ x = [] ∨ ∃ y, x = n :: y ∧ y <+: ns := by
  cases x with
  | nil => simp
  | cons m x => simp [List.cons_prefix_cons]

theorem nodup_tails (loc : Loc N) : loc.tails.Nodup := by
  induction loc with
  | nil => simp
  | cons n loc ih =>
    rw [List.tails_cons, List.nodup_cons]
    refine ⟨?_, ih⟩
    intro hmem
    have hlength := ((List.mem_tails _ _).1 hmem).length_le
    rw [List.length_cons] at hlength
    omega

/-- A place in a directory or below it is named from there. -/
theorem below_iff {root : Loc N} : Below root loc ↔ ∃ x, x ≠ [] ∧ loc = x.reverse ++ root := by
  constructor
  · rintro ⟨⟨x, rfl⟩, hne⟩
    refine ⟨x.reverse, ?_, by rw [List.reverse_reverse]⟩
    intro hnil
    rw [List.reverse_eq_nil_iff] at hnil
    exact hne (by rw [hnil, List.nil_append])
  · rintro ⟨x, hx, rfl⟩
    refine ⟨List.suffix_append _ _, ?_⟩
    intro heq
    rw [List.append_left_eq_self, List.reverse_eq_nil_iff] at heq
    exact hx heq

/-- The places on the way from `loc` to one below `n :: loc`. -/
theorem below_suffix_cons {l : Loc N} :
    Below loc l ∧ l <:+ ns ++ n :: loc ↔
      l = n :: loc ∨ Below (n :: loc) l ∧ l <:+ ns ++ n :: loc := by
  have hself : Below loc (n :: loc) := ⟨List.suffix_cons n loc, List.cons_ne_self n loc⟩
  constructor
  · rintro ⟨⟨hsuffix, hne⟩, hway⟩
    rcases List.suffix_or_suffix_of_suffix hway (List.suffix_append ns (n :: loc)) with hl | hl
    · rcases List.suffix_cons_iff.1 hl with rfl | hl
      · exact .inl rfl
      · exact absurd (hl.eq_of_length (le_antisymm hl.length_le hsuffix.length_le)) hne
    · by_cases heq : l = n :: loc
      · exact .inl heq
      · exact .inr ⟨⟨hl, heq⟩, hway⟩
  · rintro (rfl | ⟨⟨hsuffix, _⟩, hway⟩)
    · exact ⟨hself, List.suffix_append ns _⟩
    · refine ⟨⟨hself.1.trans hsuffix, ?_⟩, hway⟩
      rintro rfl
      have hlength := hsuffix.length_le
      rw [List.length_cons] at hlength
      omega

end Lists

variable [DecidableEq N]

section Trees

variable {t : Tree N D} {loc : Loc N}

/-- Whatever something stands below is a directory. -/
theorem Tree.get_above {x : List N} (hx : x ≠ []) (h : t.get (x ++ loc) ≠ none) :
    t.get loc = some .dir := by
  induction x with
  | nil => exact absurd rfl hx
  | cons n x ih =>
    have hdir : t.get (x ++ loc) = some .dir := Tree.get_tail h
    by_cases hnil : x = []
    · rw [hnil] at hdir
      exact hdir
    · exact ih hnil (by rw [hdir]; simp)

/-- The tree is not deeper than it has nodes. -/
theorem Tree.length_lt {loc : Loc N} (h : t.get loc ≠ none) :
    loc.length < t.nodes.keys.length := by
  have hkeys : loc.tails ⊆ t.nodes.keys := by
    intro above habove
    obtain ⟨x, rfl⟩ := (List.mem_tails _ _).1 habove
    have hthere : t.get above ≠ none := by
      by_cases hx : x = []
      · rwa [hx] at h
      · rw [Tree.get_above hx h]
        simp
    exact Tree.mem_keys.2 hthere
  have hlength := ((nodup_tails loc).subperm hkeys).length_le
  rwa [List.length_tails] at hlength

end Trees

/-! ## How far names lead -/

section Length

variable {t : Tree N D} {links : Nat} {loc loc' : Loc N} {name : N} {p : Path N} {names : List N}

/-- The first name of a path is that of a directory or of a link. -/
theorem walk_normal (hdir : t.get loc' = some .dir)
    (h : walk t.get links loc (.normal name :: p) = some loc') :
    (t.get (name :: loc) = some .dir ∧ walk t.get links (name :: loc) p = some loc') ∨
      ∃ links' < links, ∃ target, walk t.get links' loc (target ++ p) = some loc' := by
  cases links with
  | zero =>
    simp only [walk, follow] at h
    split at h
    · next hget => exact .inl ⟨hget, h⟩
    · cases h
    · next hget => exact absurd h (last_ne (by rw [hget]; simp) hdir)
    · next hget => exact absurd h (last_ne (by rw [hget]; simp) hdir)
  | succ links =>
    simp only [walk, follow] at h
    split at h
    · next hget => exact .inl ⟨hget, h⟩
    · exact .inr ⟨links, Nat.lt_succ_self _, _, h⟩
    · next hget => exact absurd h (last_ne (by rw [hget]; simp) hdir)
    · next hget => exact absurd h (last_ne (by rw [hget]; simp) hdir)

/-- Between two links names lead down, which they cannot do for longer than the tree is deep. -/
theorem length_le_of_walk (hloc : t.get loc = some .dir) (hdir : t.get loc' = some .dir)
    (h : walk t.get links loc (names.map .normal) = some loc') :
    names.length + loc.length + 1 ≤ (links + 1) * t.nodes.keys.length := by
  induction links using Nat.strong_induction_on generalizing loc names with
  | _ links ih =>
    have hdepth : ∀ {loc : Loc N}, t.get loc = some .dir →
        loc.length + 1 ≤ t.nodes.keys.length := fun hloc =>
      Tree.length_lt (by rw [hloc]; simp)
    induction names generalizing loc with
    | nil =>
      have hone : t.nodes.keys.length ≤ (links + 1) * t.nodes.keys.length :=
        Nat.le_mul_of_pos_left _ (Nat.succ_pos links)
      have hlt := hdepth hloc
      rw [List.length_nil]
      omega
    | cons name names ihn =>
      rw [List.map_cons] at h
      rcases walk_normal hdir h with ⟨hget, hrest⟩ | ⟨links', hlt, target, hjump⟩
      · have hle := ihn hget hrest
        rw [List.length_cons] at hle ⊢
        omega
      · -- Behind the link the names go on from somewhere else.
        obtain ⟨mid, hmid, hmiddir⟩ := walk_ancestor hloc hdir hjump
        obtain ⟨links'', hle, hq⟩ := walk_append_le hmiddir hmid
        rw [hq] at hjump
        have hrest := ih links'' (Nat.lt_of_le_of_lt hle hlt) hmiddir hjump
        have hfewer : (links'' + 1) * t.nodes.keys.length ≤ links * t.nodes.keys.length :=
          Nat.mul_le_mul_right _ (by omega)
        have hlast := hdepth hloc
        rw [List.length_cons, Nat.succ_mul]
        omega

/-- As many names at the end of a path that leads to a directory are too many. -/
theorem length_lt_of_isDir [DecidableEq D] (h : isDir t (p ++ names.map .normal) = true) :
    names.length < (maxLinks + 1) * t.nodes.keys.length := by
  obtain ⟨loc', hlocate, hdir⟩ := isDir_iff.1 h
  obtain ⟨mid, hmid, hmiddir⟩ := walk_ancestor Tree.get_nil hdir hlocate
  obtain ⟨links, hle, hq⟩ := walk_append_le hmiddir hmid
  rw [locate, hq] at hlocate
  have hlength := length_le_of_walk hmiddir hdir hlocate
  have hmost : (links + 1) * t.nodes.keys.length ≤ (maxLinks + 1) * t.nodes.keys.length :=
    Nat.mul_le_mul_right _ (by omega)
  omega

end Length

/-! ## Where names lead -/

section Names

variable {t : Tree N D} {root loc : Loc N} {p : Path N} {names : List N}

theorem locate_names (hp : locate t p = some root) (hroot : t.get root = some .dir)
    (hdirs : ∀ x, x <+: names → x ≠ names → t.get (x.reverse ++ root) = some .dir)
    (hlast : ∀ target, t.get (names.reverse ++ root) ≠ some (.leaf (.symlink target))) :
    locate t (p ++ names.map .normal) = some (names.reverse ++ root) := by
  induction names generalizing p root with
  | nil => simpa using hp
  | cons n names ih =>
    rw [reverse_cons_append] at hlast ⊢
    by_cases hnames : names = []
    · subst hnames
      exact locate_normal hp hroot hlast
    · have hdir : t.get (n :: root) = some .dir := hdirs [n] (by simp) (by simpa using hnames)
      rw [List.map_cons, List.append_cons]
      refine ih (locate_normal hp hroot (by rw [hdir]; simp)) hdir ?_ hlast
      intro x hx hne
      rw [← reverse_cons_append]
      exact hdirs (n :: x) (prefix_cons_iff.2 (.inr ⟨x, rfl, hx⟩)) (by simpa using hne)

/-- What stands in the tree is found under its own names. -/
theorem place_names [DecidableEq D] (hp : locate t p = some root) (hroot : t.get root = some .dir)
    (hnames : names ≠ []) (h : t.get (names.reverse ++ root) ≠ none) :
    place t (p ++ names.map .normal) = some (names.reverse ++ root) := by
  obtain hnil | ⟨above, n, rfl⟩ := List.eq_nil_or_concat' names
  · exact absurd hnil hnames
  rw [List.reverse_append, List.reverse_singleton, List.singleton_append, List.cons_append] at h ⊢
  have hdirs : ∀ x, x <+: above → t.get (x.reverse ++ root) = some .dir := by
    rintro x ⟨rest, rfl⟩
    refine Tree.get_above (List.cons_ne_nil n rest.reverse) ?_
    rwa [List.reverse_append, List.append_assoc] at h
  have habove := hdirs above (List.prefix_refl _)
  have hlocate := locate_names hp hroot (fun x hx _ => hdirs x hx) (by rw [habove]; simp)
  rw [List.map_append, List.map_singleton, ← List.append_assoc]
  exact place_normal hlocate habove

/-- Names lead down the tree or come to a link. -/
theorem locate_names_cases [DecidableEq D] (hp : locate t p = some root) (hroot : t.get root = some .dir)
    (h : locate t (p ++ names.map .normal) = some loc) :
    loc = names.reverse ++ root ∨ ∃ x n rest target, names = x ++ n :: rest ∧
      t.get (n :: (x.reverse ++ root)) = some (.leaf (.symlink target)) := by
  induction names generalizing p root with
  | nil =>
    rw [List.map_nil, List.append_nil] at h
    exact .inl (Option.some.inj (h.symm.trans hp))
  | cons n names ih =>
    by_cases hlink : ∃ target, t.get (n :: root) = some (.leaf (.symlink target))
    · obtain ⟨target, hlink⟩ := hlink
      exact .inr ⟨[], n, names, target, rfl, hlink⟩
    · rw [not_exists] at hlink
      have hnext := locate_normal hp hroot hlink
      rw [List.map_cons, List.append_cons] at h
      by_cases hnames : names = []
      · subst hnames
        rw [List.map_nil, List.append_nil] at h
        exact .inl (Option.some.inj (h.symm.trans hnext))
      · obtain ⟨loc', hloc', hdir⟩ := isDir_iff.1 (isDir_of_locate (by simpa using hnames) h)
        obtain rfl := Option.some.inj (hnext.symm.trans hloc')
        rcases ih hnext hdir h with heq | ⟨x, m, rest, target, rfl, hget⟩
        · exact .inl (by rw [heq, reverse_cons_append])
        · refine .inr ⟨n :: x, m, rest, target, rfl, ?_⟩
          rwa [reverse_cons_append]

end Names

end FileTree
