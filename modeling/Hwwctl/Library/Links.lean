import Hwwctl.Library.FileTree

/-!
# Walks through links

How many links a walk has left makes no difference once it arrives, and a walk from where a link
points that arrives does not come by that link again. So a link that is moved within its directory
leads where it led.
-/

namespace FileTree

variable {N D : Type}

section More

variable {look : Loc N → Option (Node N D)} {jump jump' : Loc N → Path N → Option (Loc N)}
  {n m : Nat} {loc loc' : Loc N} {p : Path N}

theorem follow_mono (hjump : ∀ loc p, jump loc p = some loc' → jump' loc p = some loc')
    (h : follow look jump loc p = some loc') : follow look jump' loc p = some loc' := by
  induction p generalizing loc with
  | nil => exact h
  | cons c p ih =>
    cases c with
    | rootDir => exact ih h
    | curDir => exact ih h
    | parentDir => exact ih h
    | normal name =>
      simp only [follow] at h ⊢
      split at h
      · exact ih h
      · exact hjump _ _ h
      · exact h
      · exact h

theorem walk_succ (h : walk look n loc p = some loc') : walk look (n + 1) loc p = some loc' := by
  induction n generalizing loc p with
  | zero =>
    refine follow_mono ?_ h
    intro _ _ hnone
    cases hnone
  | succ n ih => exact follow_mono (fun _ _ hjump => ih hjump) h

theorem walk_mono (hle : n ≤ m) (h : walk look n loc p = some loc') :
    walk look m loc p = some loc' := by
  induction hle with
  | refl => exact h
  | step _ ih => exact walk_succ ih

/-- Two walks along one path that arrive arrive at the same place. -/
theorem walk_unique {loc₁ loc₂ : Loc N} (h₁ : walk look n loc p = some loc₁)
    (h₂ : walk look m loc p = some loc₂) : loc₁ = loc₂ :=
  Option.some.inj ((walk_mono (Nat.le_max_left n m) h₁).symm.trans
    (walk_mono (Nat.le_max_right n m) h₂))

end More

variable [DecidableEq N]

/-- What is found when `b` is passed over. -/
def hide (look : Loc N → Option (Node N D)) (b : Loc N) : Loc N → Option (Node N D) :=
  fun loc => if loc = b then none else look loc

section Look

variable {look : Loc N → Option (Node N D)} {jump jump' : Loc N → Path N → Option (Loc N)}
  {n : Nat} {loc loc' b : Loc N} {p : Path N}

theorem follow_of_hide (hne : loc' ≠ b)
    (hjump : ∀ loc p, jump loc p = some loc' → jump' loc p = some loc')
    (h : follow (hide look b) jump loc p = some loc') : follow look jump' loc p = some loc' := by
  induction p generalizing loc with
  | nil => exact h
  | cons c p ih =>
    cases c with
    | rootDir => exact ih h
    | curDir => exact ih h
    | parentDir => exact ih h
    | normal name =>
      by_cases hb : name :: loc = b
      · simp only [follow, hide, if_pos hb] at h
        split at h
        · exact absurd ((Option.some.inj h).symm.trans hb) hne
        · cases h
      · simp only [follow, hide, if_neg hb] at h ⊢
        split at h
        · exact ih h
        · exact hjump _ _ h
        · exact h
        · exact h

/-- A walk that arrives elsewhere when `b` is passed over does not come by `b`. -/
theorem walk_of_hide (hne : loc' ≠ b) (h : walk (hide look b) n loc p = some loc') :
    walk look n loc p = some loc' := by
  induction n generalizing loc p with
  | zero => exact follow_of_hide hne (fun _ _ h => h) h
  | succ n ih => exact follow_of_hide hne (fun _ _ hjump => ih hjump) h

end Look

section Links

variable {t : Tree N D} {jump jump' : Loc N → Path N → Option (Loc N)} {n : Nat}
  {loc loc' root : Loc N} {name : N} {p q target : Path N}

theorem isDir_of_locate [DecidableEq D] (hq : q ≠ []) (h : locate t (p ++ q) = some loc) :
    isDir t p = true :=
  isDir_iff.2 (walk_through (.inl hq) Tree.get_nil h)

theorem follow_hide (hnodir : t.get (name :: root) ≠ some .dir)
    (hjump : ∀ loc p, jump loc p = some loc' →
      jump' loc p = some loc' ∨ ∃ target, t.get (name :: root) = some (.leaf (.symlink target)) ∧
        ∃ m, m < n ∧ ∃ rest, walk t.get m root (target ++ rest) = some loc')
    (hlast : ∀ p, jump root p = some loc' → ∃ m, m < n ∧ walk t.get m root p = some loc')
    (h : follow t.get jump loc p = some loc') :
    follow (hide t.get (name :: root)) jump' loc p = some loc' ∨
      ∃ target, t.get (name :: root) = some (.leaf (.symlink target)) ∧
        ∃ m, m < n ∧ ∃ rest, walk t.get m root (target ++ rest) = some loc' := by
  induction p generalizing loc with
  | nil => exact .inl h
  | cons c p ih =>
    cases c with
    | rootDir => exact ih h
    | curDir => exact ih h
    | parentDir => exact ih h
    | normal other =>
      by_cases hb : other :: loc = name :: root
      · obtain ⟨rfl, rfl⟩ := List.cons.inj hb
        simp only [follow] at h ⊢
        split at h
        · next hget => exact absurd hget hnodir
        · next target hget =>
          obtain ⟨m, hm, hwalk⟩ := hlast _ h
          exact .inr ⟨target, hget, m, hm, p, hwalk⟩
        · simp only [hide, if_true]
          exact .inl h
        · simp only [hide, if_true]
          exact .inl h
      · simp only [follow, hide, if_neg hb] at h ⊢
        split at h
        · exact ih h
        · exact hjump _ _ h
        · exact .inl h
        · exact .inl h

/-- A walk arrives without a name that no directory has, or there is a link behind that name and it
goes on from where that points. -/
theorem walk_hide_or (hnodir : t.get (name :: root) ≠ some .dir)
    (h : walk t.get n loc p = some loc') :
    walk (hide t.get (name :: root)) n loc p = some loc' ∨
      ∃ target, t.get (name :: root) = some (.leaf (.symlink target)) ∧
        ∃ m, m < n ∧ ∃ rest, walk t.get m root (target ++ rest) = some loc' := by
  induction n generalizing loc p with
  | zero =>
    refine follow_hide hnodir ?_ ?_ h
    · intro _ _ hnone
      cases hnone
    · intro _ hnone
      cases hnone
  | succ n ih =>
    refine follow_hide hnodir ?_ ?_ h
    · intro loc p hjump
      rcases ih hjump with hfree | ⟨target, hlink, m, hm, hrest⟩
      · exact .inl hfree
      · exact .inr ⟨target, hlink, m, Nat.lt_succ_of_lt hm, hrest⟩
    · intro p hjump
      exact ⟨n, Nat.lt_succ_self n, hjump⟩

/-- A walk from where a link points that arrives can do without the link. -/
theorem walk_hide (hlink : t.get (name :: root) = some (.leaf (.symlink target)))
    (h : walk t.get n root target = some loc') :
    ∃ m, walk (hide t.get (name :: root)) m root target = some loc' := by
  have hroot : t.get root = some .dir := Tree.get_tail (by rw [hlink]; simp)
  -- by induction on the links left: a walk that comes by the link again is a shorter one
  induction n using Nat.strongRecOn generalizing loc' with
  | ind n ih =>
    rcases walk_hide_or (by rw [hlink]; simp) h with hfree | ⟨target', hlink', m, hm, rest, hrest⟩
    · exact ⟨n, hfree⟩
    · rw [hlink] at hlink'
      cases hlink'
      cases rest with
      | nil =>
        rw [List.append_nil] at hrest
        exact ih m hm hrest
      | cons c rest =>
        obtain ⟨mid, hmid, -⟩ := walk_through (.inl (List.cons_ne_nil c rest)) hroot hrest
        obtain rfl := walk_unique hmid h
        exact ih m hm hmid

/-- Behind a link at the end of a path the walk goes on from where the link points. -/
theorem walk_link_of_locate (hp : locate t p = some root) (hroot : t.get root = some .dir)
    (hlink : t.get (name :: root) = some (.leaf (.symlink target)))
    (h : locate t (p ++ [.normal name]) = some loc) : ∃ n, walk t.get n root target = some loc := by
  obtain ⟨links, hq⟩ := walk_append hroot hp
  rw [locate, hq] at h
  cases links with
  | zero =>
    simp only [walk, follow, hlink] at h
    cases h
  | succ links =>
    simp only [walk, follow, hlink, List.append_nil] at h
    exact ⟨links, h⟩

end Links

/-! ## Moving -/

namespace Tree

variable [DecidableEq D]

/-- The tree in which what stands at `a`, if anything does, has taken the place of what stood at
`b`. -/
def move (t : Tree N D) (a b : Loc N) : Tree N D :=
  match t.get a with
  | some (.leaf leaf) => ((t.drop a).bind (·.put b (.leaf leaf))).getD t
  | _ => (t.drop b).getD t

theorem get_move {t : Tree N D} {a b : Loc N} (hne : a ≠ b) (ha : t.get a ≠ some .dir)
    (hb : t.get b ≠ some .dir) (hdir : t.get b.tail = some .dir) (loc : Loc N) :
    (t.move a b).get loc =
      if loc = b then t.get a else if loc = a then none else t.get loc := by
  unfold move
  cases hget : t.get a with
  | none =>
    dsimp only
    cases hdrop : t.drop b with
    | none =>
      have hfree : t.get b = none := by
        by_contra hthere
        obtain ⟨node, hnode⟩ := Option.ne_none_iff_exists'.1 hthere
        cases node with
        | dir => exact hb hnode
        | leaf leaf =>
          have hsome := drop_isSome.2 ⟨leaf, hnode⟩
          rw [hdrop] at hsome
          cases hsome
      rw [Option.getD_none]
      split
      · next heq => rw [heq, hfree]
      · split
        · next heq => rw [heq, hget]
        · rfl
    | some t' =>
      rw [Option.getD_some, get_drop hdrop]
      split
      · rfl
      · split
        · next heq => rw [heq, hget]
        · rfl
  | some node =>
    cases node with
    | dir => exact absurd hget ha
    | leaf leaf =>
      dsimp only
      obtain ⟨t₁, hdrop⟩ := Option.isSome_iff_exists.1 (drop_isSome.2 ⟨leaf, hget⟩)
      have hdir₁ : t₁.get b.tail = some .dir := by
        rw [get_drop hdrop, if_neg, hdir]
        rintro heq
        rw [heq, hget] at hdir
        cases hdir
      have hb₁ : t₁.get b ≠ some .dir := by
        rw [get_drop hdrop, if_neg hne.symm]
        exact hb
      cases b with
      | nil => exact absurd get_nil hb
      | cons name b =>
        obtain ⟨t₂, hput⟩ := Option.isSome_iff_exists.1
          (put_isSome.2 ⟨hdir₁, hb₁⟩ : (t₁.put (name :: b) (.leaf leaf)).isSome)
        rw [hdrop, Option.bind_some, hput, Option.getD_some, get_put hput, get_drop hdrop]

end Tree

section Moved

variable [DecidableEq D] {t : Tree N D} {root loc file : Loc N} {a b : N} {p target : Path N}
  {n m : Nat}

/-- Both places are passed over alike. -/
theorem hide_move (hne : a ≠ b) (ha : t.get (a :: root) ≠ some .dir)
    (hb : t.get (b :: root) ≠ some .dir) (hroot : t.get root = some .dir) :
    hide (t.move (a :: root) (b :: root)).get (b :: root) =
      hide (hide t.get (a :: root)) (b :: root) := by
  have hne' : a :: root ≠ b :: root := fun heq => hne (List.cons.inj heq).1
  funext loc
  unfold hide
  rw [Tree.get_move hne' ha hb hroot]
  split
  · rfl
  · split <;> rfl

/-- A link that is moved to another name in its directory leads where it led, if anywhere. -/
theorem link_move (hne : a ≠ b) (ha : t.get (a :: root) = some (.leaf (.symlink target)))
    (hb : t.get (b :: root) ≠ some .dir) (hfile : walk t.get n root target = some file)
    (h : walk (t.move (a :: root) (b :: root)).get m root target = some loc) : loc = file := by
  have hroot : t.get root = some .dir := Tree.get_tail (by rw [ha]; simp)
  have hnodir : t.get (a :: root) ≠ some .dir := by rw [ha]; simp
  have hne' : a :: root ≠ b :: root := fun heq => hne (List.cons.inj heq).1
  have hlink : (t.move (a :: root) (b :: root)).get (b :: root) =
      some (.leaf (.symlink target)) := by
    rw [Tree.get_move hne' hnodir hb hroot, if_pos rfl, ha]
  obtain ⟨m₁, hfree⟩ := walk_hide hlink h
  obtain ⟨n₁, hfree'⟩ := walk_hide ha hfile
  rw [hide_move hne hnodir hb hroot] at hfree
  have hloc : loc ≠ b :: root := by
    rintro rfl
    exact (walk_ends (Tree.get_tail (by rw [hlink]; simp)) h).1 target hlink
  exact walk_unique (walk_of_hide hloc hfree) hfree'

/-- Where a path leads when something has been moved: where it led before, or to what has been
moved or, if that is a link, to where it leads. -/
theorem locate_of_move (hne : a ≠ b) (ha : t.get (a :: root) ≠ some .dir)
    (hb : t.get (b :: root) ≠ some .dir) (hroot : t.get root = some .dir)
    (hlink : ∀ target, t.get (a :: root) = some (.leaf (.symlink target)) →
      (∃ n, walk t.get n root target = some file) ∧
        (t.move (a :: root) (b :: root)).get file ≠ some .dir)
    (h : locate (t.move (a :: root) (b :: root)) p = some loc) :
    locate t p = some loc ∨ loc = a :: root ∨ loc = b :: root ∨
      (∃ target, t.get (a :: root) = some (.leaf (.symlink target))) ∧ loc = file := by
  have hne' : a :: root ≠ b :: root := fun heq => hne (List.cons.inj heq).1
  have hget := Tree.get_move hne' ha hb hroot
  have hmoved : (t.move (a :: root) (b :: root)).get (b :: root) = t.get (a :: root) := by
    rw [hget, if_pos rfl]
  rcases walk_hide_or (by rw [hmoved]; exact ha) h with
    hfree | ⟨target, htarget, m, -, rest, hrest⟩
  · by_cases hloc : loc = b :: root
    · exact .inr (.inr (.inl hloc))
    · by_cases hloc' : loc = a :: root
      · exact .inr (.inl hloc')
      · rw [hide_move hne ha hb hroot] at hfree
        exact .inl (walk_of_hide hloc' (walk_of_hide hloc hfree))
  · have hroot' : (t.move (a :: root) (b :: root)).get root = some .dir :=
      Tree.get_tail (by rw [htarget]; simp)
    rw [hmoved] at htarget
    obtain ⟨⟨n, hfile⟩, hnodir⟩ := hlink target htarget
    refine .inr (.inr (.inr ⟨⟨target, htarget⟩, ?_⟩))
    cases rest with
    | nil =>
      rw [List.append_nil] at hrest
      exact link_move hne htarget hb hfile hrest
    | cons c rest =>
      -- nothing is behind a file
      obtain ⟨mid, hmid, hmiddir⟩ := walk_through (.inl (List.cons_ne_nil c rest)) hroot' hrest
      obtain rfl := link_move hne htarget hb hfile hmid
      exact absurd hmiddir hnodir

end Moved

end FileTree
