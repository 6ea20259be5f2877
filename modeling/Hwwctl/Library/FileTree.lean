import Mathlib.Data.List.AList
import Mathlib.Data.List.Infix
import Mathlib.Tactic.Common

/-!
# File trees

A file tree is a finite map from locations to what stands there. A location lists the names from a
node up to the root, so its tail is the directory the node stands in. Paths are resolved as a Unix
system resolves them: `..` leads to the directory above, symbolic links are followed, and a path
that meets more than `maxLinks` of them leads nowhere.
-/

namespace FileTree

variable {N D : Type}

inductive Component (N : Type) where
  | rootDir
  | curDir
  | parentDir
  | normal (name : N)
deriving DecidableEq, Repr

abbrev Path (N : Type) := List (Component N)

/-- What is not a directory. -/
inductive Leaf (N D : Type) where
  | file (data : D)
  | symlink (target : Path N)
deriving DecidableEq, Repr

inductive Node (N D : Type) where
  | dir
  | leaf (leaf : Leaf N D)
deriving DecidableEq, Repr

abbrev Loc (N : Type) := List N

/-- `loc` is a proper descendant of `root`. -/
def Below (root loc : Loc N) : Prop := root <:+ loc ∧ loc ≠ root

instance [DecidableEq N] (root loc : Loc N) : Decidable (Below root loc) :=
  inferInstanceAs (Decidable (_ ∧ _))

/-- The root is a directory, and so is everything that something stands in. -/
structure Tree (N D : Type) [DecidableEq N] where
  nodes : AList fun _ : Loc N => Node N D
  rooted : nodes.lookup [] = some .dir
  closed : ∀ name loc, nodes.lookup (name :: loc) ≠ none → nodes.lookup loc = some .dir

namespace Tree

variable [DecidableEq N]

def get (t : Tree N D) (loc : Loc N) : Option (Node N D) := t.nodes.lookup loc

/-- The names in the directory `loc`. -/
def names (t : Tree N D) (loc : Loc N) : List N :=
  t.nodes.keys.filterMap fun
    | name :: dir => if dir = loc then some name else none
    | [] => none

/-- The tree of an empty root directory. -/
def empty : Tree N D where
  nodes := AList.singleton [] .dir
  rooted := List.dlookup_cons_eq _ _ _
  closed := by
    intro name loc h
    exact absurd (List.dlookup_cons_ne [] ⟨[], .dir⟩ (List.cons_ne_nil name loc)) h

theorem mem_keys {t : Tree N D} {loc : Loc N} : loc ∈ t.nodes.keys ↔ t.get loc ≠ none := by
  rw [← Option.isSome_iff_ne_none]
  exact AList.mem_keys.symm.trans AList.lookup_isSome.symm

theorem mem_names {t : Tree N D} {loc : Loc N} {name : N} :
    name ∈ t.names loc ↔ t.get (name :: loc) ≠ none := by
  rw [← mem_keys, names, List.mem_filterMap]
  constructor
  · rintro ⟨key, hkey, hname⟩
    cases key with
    | nil => cases hname
    | cons other dir =>
      dsimp only at hname
      split at hname
      · next hdir =>
        cases hname
        exact hdir ▸ hkey
      · cases hname
  · intro hkey
    exact ⟨name :: loc, hkey, by simp⟩

theorem get_nil {t : Tree N D} : t.get [] = some .dir := t.rooted

theorem get_tail {t : Tree N D} {name : N} {loc : Loc N} (h : t.get (name :: loc) ≠ none) :
    t.get loc = some .dir :=
  t.closed name loc h

/-- The directory above a directory. -/
theorem get_tail_dir {t : Tree N D} {loc : Loc N} (h : t.get loc = some .dir) :
    t.get loc.tail = some .dir := by
  cases loc with
  | nil => exact get_nil
  | cons name loc =>
    have hthere : t.get (name :: loc) ≠ none := by
      rw [h]
      simp
    exact get_tail hthere

/-- Nothing stands below a place where nothing stands. -/
theorem nothing_below {t : Tree N D} {root loc : Loc N} (hroot : t.get root = none)
    (h : Below root loc) : t.get loc = none := by
  obtain ⟨⟨names, rfl⟩, hne⟩ := h
  induction names with
  | nil => exact absurd rfl hne
  | cons name names ih =>
    by_contra hthere
    have hdir : t.get (names ++ root) = some .dir := get_tail hthere
    have hnone : t.get (names ++ root) = none := by
      by_cases hnil : names ++ root = root
      · rw [hnil]
        exact hroot
      · exact ih hnil
    rw [hnone] at hdir
    cases hdir

theorem dlookup_filter {α : Type} {β : α → Type} [DecidableEq α] (p : α → Bool)
    (l : List (Sigma β)) (a : α) :
    (l.filter fun e => p e.1).dlookup a = if p a then l.dlookup a else none := by
  induction l with
  | nil => simp
  | cons e l ih =>
    obtain ⟨a', b⟩ := e
    by_cases heq : a = a'
    · subst heq
      cases hp : p a with
      | true => simp [hp]
      | false =>
        rw [hp] at ih
        simpa [hp] using ih
    · have hother : ∀ l' : List (Sigma β), (⟨a', b⟩ :: l').dlookup a = l'.dlookup a :=
        fun l' => List.dlookup_cons_ne l' ⟨a', b⟩ heq
      cases hp : p a' with
      | true => simpa [hp, hother] using ih
      | false => simpa [hp, hother] using ih

theorem lookup_below (t : Tree N D) (root loc : Loc N) :
    (t.nodes.entries.filter fun e => !decide (Below root e.1)).dlookup loc =
      if Below root loc then none else t.nodes.lookup loc := by
  rw [dlookup_filter fun loc => !decide (Below root loc)]
  by_cases h : Below root loc <;> simp [h, AList.lookup]

/-- The tree without what stands below `root`. -/
def clear (t : Tree N D) (root : Loc N) : Tree N D where
  nodes := ⟨t.nodes.entries.filter fun e => !decide (Below root e.1),
    t.nodes.nodupKeys.sublist List.filter_sublist⟩
  rooted := by
    have hnil : ¬ Below root [] := by
      rintro ⟨hsuffix, hne⟩
      exact hne (List.suffix_nil.1 hsuffix).symm
    exact (t.lookup_below root []).trans ((if_neg hnil).trans t.rooted)
  closed := by
    intro name loc h
    rw [AList.lookup, lookup_below] at h ⊢
    by_cases hbelow : Below root (name :: loc)
    · rw [if_pos hbelow] at h
      exact absurd rfl h
    · rw [if_neg hbelow] at h
      have hparent : ¬ Below root loc := by
        rintro ⟨hsuffix, -⟩
        refine hbelow ⟨hsuffix.trans (List.suffix_cons name loc), ?_⟩
        rintro rfl
        have hlength := hsuffix.length_le
        rw [List.length_cons] at hlength
        omega
      rw [if_neg hparent]
      exact t.closed name loc h

theorem get_clear (t : Tree N D) (root loc : Loc N) :
    (t.clear root).get loc = if Below root loc then none else t.get loc :=
  t.lookup_below root loc

variable [DecidableEq D]

/-- Put `node` at `loc`. A directory is not replaced, and nothing is put where there is none. -/
def put (t : Tree N D) (loc : Loc N) (node : Node N D) : Option (Tree N D) :=
  match loc with
  | [] => none
  | name :: dir =>
    if h : t.nodes.lookup dir = some .dir ∧ t.nodes.lookup (name :: dir) ≠ some .dir then
      some
        { nodes := t.nodes.insert (name :: dir) node
          rooted := by rw [AList.lookup_insert_ne (by simp)]; exact t.rooted
          closed := by
            intro name' loc hloc
            have hkeep : loc ≠ name :: dir → t.nodes.lookup loc = some .dir →
                (t.nodes.insert (name :: dir) node).lookup loc = some .dir := by
              intro hne hdir
              rw [AList.lookup_insert_ne hne]
              exact hdir
            by_cases hsame : name' :: loc = name :: dir
            · obtain ⟨rfl, rfl⟩ := List.cons.inj hsame
              exact hkeep (by simp) h.1
            · rw [AList.lookup_insert_ne hsame] at hloc
              have hdir := t.closed name' loc hloc
              refine hkeep ?_ hdir
              rintro rfl
              exact h.2 hdir }
    else none

/-- Remove the file or link at `loc`. -/
def drop (t : Tree N D) (loc : Loc N) : Option (Tree N D) :=
  match loc with
  | [] => none
  | name :: dir =>
    if h : t.nodes.lookup (name :: dir) ≠ none ∧ t.nodes.lookup (name :: dir) ≠ some .dir then
      some
        { nodes := t.nodes.erase (name :: dir)
          rooted := by rw [AList.lookup_erase_ne (by simp)]; exact t.rooted
          closed := by
            intro name' loc hloc
            by_cases hsame : name' :: loc = name :: dir
            · rw [hsame, AList.lookup_erase] at hloc
              exact absurd rfl hloc
            · rw [AList.lookup_erase_ne hsame] at hloc
              have hdir := t.closed name' loc hloc
              have hne : loc ≠ name :: dir := by
                rintro rfl
                exact h.2 hdir
              rw [AList.lookup_erase_ne hne]
              exact hdir }
    else none

/-- Remove the empty directory at `loc`. -/
def dropDir (t : Tree N D) (loc : Loc N) : Option (Tree N D) :=
  match loc with
  | [] => none
  | name :: dir =>
    if h : t.nodes.lookup (name :: dir) = some .dir ∧ t.names (name :: dir) = [] then
      some
        { nodes := t.nodes.erase (name :: dir)
          rooted := by rw [AList.lookup_erase_ne (by simp)]; exact t.rooted
          closed := by
            intro name' loc hloc
            by_cases hsame : name' :: loc = name :: dir
            · rw [hsame, AList.lookup_erase] at hloc
              exact absurd rfl hloc
            · rw [AList.lookup_erase_ne hsame] at hloc
              have hne : loc ≠ name :: dir := by
                rintro rfl
                have hmem : name' ∈ t.names (name :: dir) := mem_names.2 hloc
                rw [h.2] at hmem
                cases hmem
              rw [AList.lookup_erase_ne hne]
              exact t.closed name' loc hloc }
    else none

variable {t t' : Tree N D} {loc loc' : Loc N} {name : N} {node : Node N D}

theorem get_put (h : t.put loc node = some t') :
    t'.get loc' = if loc' = loc then some node else t.get loc' := by
  unfold put at h
  split at h
  · cases h
  · split at h
    · obtain rfl := Option.some.inj h
      split
      · next heq =>
        subst heq
        exact AList.lookup_insert t.nodes
      · next hne => exact AList.lookup_insert_ne hne
    · cases h

theorem put_isSome :
    (t.put (name :: loc) node).isSome ↔
      t.get loc = some .dir ∧ t.get (name :: loc) ≠ some .dir := by
  unfold put get
  dsimp only
  split
  · next h => simp [h]
  · next h => simp [h]

theorem not_dir_of_put (h : t.put loc node = some t') : t.get loc ≠ some .dir := by
  cases loc with
  | nil => cases h
  | cons name loc => exact (put_isSome.1 (Option.isSome_of_mem h)).2

theorem get_drop (h : t.drop loc = some t') :
    t'.get loc' = if loc' = loc then none else t.get loc' := by
  unfold drop at h
  split at h
  · cases h
  · split at h
    · obtain rfl := Option.some.inj h
      split
      · next heq =>
        subst heq
        exact AList.lookup_erase _ t.nodes
      · next hne => exact AList.lookup_erase_ne hne
    · cases h

theorem drop_isSome :
    (t.drop loc).isSome ↔ ∃ leaf, t.get loc = some (.leaf leaf) := by
  cases loc with
  | nil => simp [drop, get_nil]
  | cons name loc =>
    unfold drop
    dsimp only
    cases hget : t.get (name :: loc) with
    | none => simp [show t.nodes.lookup (name :: loc) = none from hget]
    | some node =>
      have hlookup : t.nodes.lookup (name :: loc) = some node := hget
      cases node <;> simp [hlookup]

end Tree

/-! ## Resolving paths -/

variable [DecidableEq N]

/-- Walk from the directory `loc`; `jump` goes on behind a link. The last name need not be there. -/
def follow (look : Loc N → Option (Node N D)) (jump : Loc N → Path N → Option (Loc N)) :
    Loc N → Path N → Option (Loc N)
  | loc, [] => some loc
  | _, .rootDir :: rest => follow look jump [] rest
  | loc, .curDir :: rest => follow look jump loc rest
  | loc, .parentDir :: rest => follow look jump loc.tail rest
  | loc, .normal name :: rest =>
    match look (name :: loc) with
    | some .dir => follow look jump (name :: loc) rest
    | some (.leaf (.symlink target)) => jump loc (target ++ rest)
    | some (.leaf (.file _)) => if rest.isEmpty then some (name :: loc) else none
    | none => if rest.isEmpty then some (name :: loc) else none

/-- Walk with `links` links left to follow. -/
def walk (look : Loc N → Option (Node N D)) : Nat → Loc N → Path N → Option (Loc N)
  | 0 => follow look fun _ _ => none
  | links + 1 => follow look (walk look links)

def maxLinks : Nat := 40

/-- Where a path leads; whether something stands there is for `get` to say. -/
def locate (t : Tree N D) (path : Path N) : Option (Loc N) := walk t.get maxLinks [] path

def stat (t : Tree N D) (path : Path N) : Option (Node N D) := (locate t path).bind t.get

def isDir [DecidableEq D] (t : Tree N D) (path : Path N) : Bool := stat t path = some .dir

/-- Where the last name of a path stands; a link there is not followed. -/
def place [DecidableEq D] (t : Tree N D) (path : Path N) : Option (Loc N) :=
  match path.getLast? with
  | some (.normal name) =>
    (locate t path.dropLast).bind fun dir =>
      if t.get dir = some .dir then some (name :: dir) else none
  | _ => none

section Lemmas

variable {t t' : Tree N D} {jump : Loc N → Path N → Option (Loc N)} {links : Nat}
  {loc loc' : Loc N} {p q : Path N} {name : N}

/-- A path that leads to a directory does not end at anything else. -/
theorem last_ne {ends : Bool} (hne : t.get loc ≠ some .dir) (hdir : t.get loc' = some .dir) :
    (if ends then some loc else none) ≠ some loc' := by
  intro h
  split at h
  · obtain rfl := Option.some.inj h
    exact hne hdir
  · cases h

theorem follow_append (hlinks : walk t.get links = follow t.get jump)
    (hjump : ∀ loc p, jump loc p = some loc' →
      ∃ links' ≤ links, ∀ q, jump loc (p ++ q) = walk t.get links' loc' q)
    (hdir : t.get loc' = some .dir) (h : follow t.get jump loc p = some loc') :
    ∃ links' ≤ links, ∀ q, follow t.get jump loc (p ++ q) = walk t.get links' loc' q := by
  induction p generalizing loc with
  | nil =>
    obtain rfl := Option.some.inj h
    exact ⟨links, le_refl _, fun q => by rw [hlinks]; rfl⟩
  | cons c p ih =>
    cases c with
    | rootDir => exact ih h
    | curDir => exact ih h
    | parentDir => exact ih h
    | normal name =>
      simp only [follow, List.cons_append] at h ⊢
      split at h
      · exact ih h
      · obtain ⟨links', hle, hq⟩ := hjump _ _ h
        exact ⟨links', hle, fun q => by rw [← List.append_assoc]; exact hq q⟩
      · next hget => exact absurd h (last_ne (by rw [hget]; simp) hdir)
      · next hget => exact absurd h (last_ne (by rw [hget]; simp) hdir)

/-- A path that leads to a directory is walked before what follows it, with no more links left. -/
theorem walk_append_le (hdir : t.get loc' = some .dir) (h : walk t.get links loc p = some loc') :
    ∃ links' ≤ links, ∀ q, walk t.get links loc (p ++ q) = walk t.get links' loc' q := by
  induction links generalizing loc p with
  | zero =>
    have hlinks : walk t.get 0 = follow t.get fun _ _ => none := rfl
    exact follow_append hlinks (fun _ _ h => by cases h) hdir h
  | succ links ih =>
    have hlinks : walk t.get (links + 1) = follow t.get (walk t.get links) := rfl
    refine follow_append hlinks ?_ hdir h
    intro loc p hjump
    obtain ⟨links', hle, hq⟩ := ih hjump
    exact ⟨links', Nat.le_succ_of_le hle, hq⟩

theorem walk_append (hdir : t.get loc' = some .dir) (h : walk t.get links loc p = some loc') :
    ∃ links', ∀ q, walk t.get links loc (p ++ q) = walk t.get links' loc' q := by
  obtain ⟨links', -, hq⟩ := walk_append_le hdir h
  exact ⟨links', hq⟩

theorem follow_through (hend : q ≠ [] ∨ t.get loc' = some .dir)
    (hjump : ∀ loc p, t.get loc = some .dir → jump loc (p ++ q) = some loc' →
      ∃ mid, jump loc p = some mid ∧ t.get mid = some .dir)
    (hloc : t.get loc = some .dir) (h : follow t.get jump loc (p ++ q) = some loc') :
    ∃ mid, follow t.get jump loc p = some mid ∧ t.get mid = some .dir := by
  induction p generalizing loc with
  | nil => exact ⟨loc, rfl, hloc⟩
  | cons c p ih =>
    cases c with
    | rootDir => exact ih Tree.get_nil h
    | curDir => exact ih hloc h
    | parentDir => exact ih (Tree.get_tail_dir hloc) h
    | normal name =>
      have hleaf : t.get (name :: loc) ≠ some .dir →
          ¬ ((p ++ q).isEmpty = true ∧ name :: loc = loc') := by
        rintro hne ⟨hempty, rfl⟩
        rcases hend with hq | hdir
        · exact hq (List.append_eq_nil_iff.1 (List.isEmpty_iff.1 hempty)).2
        · exact hne hdir
      simp only [follow, List.cons_append] at h ⊢
      split at h
      · next hget => exact ih hget h
      · rw [← List.append_assoc] at h
        exact hjump _ _ hloc h
      · next data hget =>
        refine absurd ?_ (hleaf (by rw [hget]; simp))
        simpa using h
      · next hget =>
        refine absurd ?_ (hleaf (by rw [hget]; simp))
        simpa using h

/-- What has something behind it on a path is a directory. -/
theorem walk_through (hend : q ≠ [] ∨ t.get loc' = some .dir) (hloc : t.get loc = some .dir)
    (h : walk t.get links loc (p ++ q) = some loc') :
    ∃ mid, walk t.get links loc p = some mid ∧ t.get mid = some .dir := by
  induction links generalizing loc p with
  | zero =>
    refine follow_through hend ?_ hloc h
    intro _ _ _ hnone
    cases hnone
  | succ links ih =>
    refine follow_through hend ?_ hloc h
    intro loc p hloc hjump
    exact ih hloc hjump

/-- A path that leads to a directory leads through directories. -/
theorem walk_ancestor (hloc : t.get loc = some .dir) (hdir : t.get loc' = some .dir)
    (h : walk t.get links loc (p ++ q) = some loc') :
    ∃ mid, walk t.get links loc p = some mid ∧ t.get mid = some .dir :=
  walk_through (.inr hdir) hloc h

/-- No link stands where a walk ends, and the directory it would stand in is there. -/
def Ends (t : Tree N D) (loc : Loc N) : Prop :=
  (∀ target, t.get loc ≠ some (.leaf (.symlink target))) ∧ t.get loc.tail = some .dir

theorem follow_ends
    (hjump : ∀ loc p, t.get loc = some .dir → jump loc p = some loc' → Ends t loc')
    (hloc : t.get loc = some .dir) (h : follow t.get jump loc p = some loc') : Ends t loc' := by
  induction p generalizing loc with
  | nil =>
    obtain rfl := Option.some.inj h
    refine ⟨?_, Tree.get_tail_dir hloc⟩
    rw [hloc]
    simp
  | cons c p ih =>
    cases c with
    | rootDir => exact ih Tree.get_nil h
    | curDir => exact ih hloc h
    | parentDir => exact ih (Tree.get_tail_dir hloc) h
    | normal name =>
      have hend : (∀ target, t.get (name :: loc) ≠ some (.leaf (.symlink target))) →
          (if p.isEmpty then some (name :: loc) else none) = some loc' → Ends t loc' := by
        intro hlink hsome
        split at hsome
        · obtain rfl := Option.some.inj hsome
          exact ⟨hlink, hloc⟩
        · cases hsome
      simp only [follow] at h
      split at h
      · next hget => exact ih hget h
      · exact hjump _ _ hloc h
      · next data hget => exact hend (by rw [hget]; simp) h
      · next hget => exact hend (by rw [hget]; simp) h

theorem walk_ends (hloc : t.get loc = some .dir) (h : walk t.get links loc p = some loc') :
    Ends t loc' := by
  induction links generalizing loc p with
  | zero => exact follow_ends (fun _ _ _ hnone => by cases hnone) hloc h
  | succ links ih => exact follow_ends (fun _ _ hloc hjump => ih hloc hjump) hloc h

theorem locate_ends (h : locate t p = some loc) : Ends t loc := walk_ends Tree.get_nil h

/-- The directories and links of `t` are in `t'`. -/
def Retains (t t' : Tree N D) : Prop :=
  ∀ loc node, t.get loc = some node → (∀ data, node ≠ .leaf (.file data)) → t'.get loc = some node

theorem follow_retained {jump' : Loc N → Path N → Option (Loc N)} (hkeep : Retains t t')
    (hjump : ∀ loc p, jump loc p = some loc' → jump' loc p = some loc')
    (hdir : t.get loc' = some .dir) (h : follow t.get jump loc p = some loc') :
    follow t'.get jump' loc p = some loc' := by
  induction p generalizing loc with
  | nil => exact h
  | cons c p ih =>
    cases c with
    | rootDir => exact ih h
    | curDir => exact ih h
    | parentDir => exact ih h
    | normal name =>
      simp only [follow] at h ⊢
      split at h
      · next hget => simpa only [hkeep _ _ hget (by simp)] using ih h
      · next target hget => simpa only [hkeep _ _ hget (by simp)] using hjump _ _ h
      · next hget => exact absurd h (last_ne (by rw [hget]; simp) hdir)
      · next hget => exact absurd h (last_ne (by rw [hget]; simp) hdir)

/-- Where files are put or removed makes no difference to a path that leads to a directory. -/
theorem locate_retained (hkeep : Retains t t') (hdir : t.get loc = some .dir)
    (h : locate t p = some loc) : locate t' p = some loc := by
  have hwalk : ∀ links loc₀ p, walk t.get links loc₀ p = some loc →
      walk t'.get links loc₀ p = some loc := by
    intro links
    induction links with
    | zero =>
      intro loc₀ p hp
      exact follow_retained hkeep (fun _ _ hnone => by cases hnone) hdir hp
    | succ links ih =>
      intro loc₀ p hp
      exact follow_retained hkeep ih hdir hp
  exact hwalk _ _ _ h

/-- Nothing or a file, where no path goes on. -/
def Blocks (t : Tree N D) (loc : Loc N) : Prop :=
  t.get loc = none ∨ ∃ data, t.get loc = some (.leaf (.file data))

theorem follow_alike {jump' : Loc N → Path N → Option (Loc N)}
    (h : ∀ loc, t'.get loc = t.get loc ∨ Blocks t loc ∧ Blocks t' loc)
    (hjump : ∀ loc p, jump' loc p = jump loc p) :
    follow t'.get jump' loc p = follow t.get jump loc p := by
  induction p generalizing loc with
  | nil => rfl
  | cons c p ih =>
    cases c with
    | rootDir => exact ih
    | curDir => exact ih
    | parentDir => exact ih
    | normal name =>
      have hblocked : ∀ (u : Tree N D) jump, Blocks u (name :: loc) →
          follow u.get jump loc (.normal name :: p) =
            if p.isEmpty then some (name :: loc) else none := by
        intro u jump hu
        rcases hu with hu | ⟨data, hu⟩ <;> simp only [follow, hu]
      rcases h (name :: loc) with hsame | ⟨hblocks, hblocks'⟩
      · simp only [follow, hsame, ih, hjump]
      · rw [hblocked t jump hblocks, hblocked t' jump' hblocks']

/-- Files that come, go or change make no difference to where a path leads. -/
theorem locate_alike (h : ∀ loc, t'.get loc = t.get loc ∨ Blocks t loc ∧ Blocks t' loc) :
    locate t' p = locate t p := by
  have hwalk : ∀ links loc₀ p, walk t'.get links loc₀ p = walk t.get links loc₀ p := by
    intro links
    induction links with
    | zero => exact fun loc₀ p => follow_alike h fun _ _ => rfl
    | succ links ih => exact fun loc₀ p => follow_alike h ih
  exact hwalk _ _ _

/-- Paths only depend on what is found where. -/
theorem locate_congr (h : ∀ loc, t'.get loc = t.get loc) : locate t' p = locate t p :=
  locate_alike fun loc => Or.inl (h loc)

theorem stat_congr (h : ∀ loc, t'.get loc = t.get loc) : stat t' p = stat t p := by
  have hget : t'.get = t.get := funext h
  rw [stat, stat, locate_congr h, hget]

theorem isDir_iff [DecidableEq D] :
    isDir t p = true ↔ ∃ loc, locate t p = some loc ∧ t.get loc = some .dir := by
  simp [isDir, stat, Option.bind_eq_some_iff]

theorem isDir_ancestor [DecidableEq D] (h : isDir t (p ++ q) = true) : isDir t p = true := by
  obtain ⟨loc, hlocate, hdir⟩ := isDir_iff.1 h
  exact isDir_iff.2 (walk_ancestor Tree.get_nil hdir hlocate)

/-! One more component behind a directory. -/

variable (hp : locate t p = some loc) (hdir : t.get loc = some .dir)

include hp hdir

theorem locate_parentDir : locate t (p ++ [.parentDir]) = some loc.tail := by
  obtain ⟨links, hq⟩ := walk_append hdir hp
  rw [locate, hq]
  cases links <;> rfl

theorem locate_curDir : locate t (p ++ [.curDir]) = some loc := by
  obtain ⟨links, hq⟩ := walk_append hdir hp
  rw [locate, hq]
  cases links <;> rfl

theorem locate_rootDir : locate t (p ++ [.rootDir]) = some [] := by
  obtain ⟨links, hq⟩ := walk_append hdir hp
  rw [locate, hq]
  cases links <;> rfl

theorem locate_normal (hlink : ∀ target, t.get (name :: loc) ≠ some (.leaf (.symlink target))) :
    locate t (p ++ [.normal name]) = some (name :: loc) := by
  obtain ⟨links, hq⟩ := walk_append hdir hp
  have hfollow : ∀ jump, follow t.get jump loc [.normal name] = some (name :: loc) := by
    intro jump
    simp only [follow]
    split
    · rfl
    · next target hget => exact absurd hget (hlink target)
    · rfl
    · rfl
  rw [locate, hq]
  cases links <;> exact hfollow _

theorem place_normal [DecidableEq D] : place t (p ++ [.normal name]) = some (name :: loc) := by
  simp [place, hp, hdir]

omit hp hdir

/-- A path that is placed among directories and links is placed alike where these are kept. -/
theorem place_retained [DecidableEq D] (hkeep : Retains t t') (h : place t p = some loc) :
    place t' p = some loc := by
  unfold place at h ⊢
  split at h
  · next name _ =>
    obtain ⟨dir, hlocate, hloc⟩ := Option.bind_eq_some_iff.1 h
    split at hloc
    · next hdir =>
      rw [locate_retained hkeep hdir hlocate]
      simp only [Option.bind_some, hkeep dir .dir hdir (by simp), if_true]
      exact hloc
    · cases hloc
  · cases h

theorem place_eq_none [DecidableEq D] {c : Component N} (h : ∀ name, c ≠ .normal name) :
    place t (p ++ [c]) = none := by
  cases c with
  | normal name => exact absurd rfl (h name)
  | rootDir => simp [place]
  | curDir => simp [place]
  | parentDir => simp [place]

theorem place_eq_some [DecidableEq D] (h : place t (p ++ [.normal name]) = some loc) :
    ∃ dir, loc = name :: dir := by
  simp only [place, List.getLast?_concat, List.dropLast_concat] at h
  obtain ⟨dir, _, h⟩ := Option.bind_eq_some_iff.1 h
  split at h
  · exact ⟨dir, (Option.some.inj h).symm⟩
  · cases h

/-! Trees in which the same is found everywhere. -/

theorem keys_perm (h : ∀ loc, t'.get loc = t.get loc) : t'.nodes.keys.Perm t.nodes.keys := by
  refine (List.perm_ext_iff_of_nodup t'.nodes.keys_nodup t.nodes.keys_nodup).2 ?_
  intro loc
  rw [Tree.mem_keys, Tree.mem_keys, h]

theorem names_perm (h : ∀ loc, t'.get loc = t.get loc) (loc : Loc N) :
    (t'.names loc).Perm (t.names loc) :=
  (keys_perm h).filterMap _

end Lemmas

end FileTree
