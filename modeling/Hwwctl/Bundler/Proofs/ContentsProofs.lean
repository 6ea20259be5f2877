import Hwwctl.Bundler.Contents
import Hwwctl.Bundler.Proofs.LandingProofs

/-!
# What extraction leaves behind

Where no entry's way leads through a link, an extraction that succeeds leaves at every place what
the entries tell.
-/

namespace Hwwctl.Bundler

open FileTree Io

section Directories

variable {disk disk' : Disk} {done : FilePath} {loc : FsLoc} {ns : List OsString}
  {grants : FilePath → Bool}

/-- A directory that is ensured at a name where there is no link. -/
theorem ensureDir_leaves {granted : Bool} {n : OsString} (hdone : locate disk.tree done = some loc)
    (hdir : disk.tree.get loc = some .dir)
    (hlink : ∀ target, disk.tree.get (n :: loc) ≠ some (.leaf (.symlink target)))
    (h : ensureDir granted (done ++ [.normal n]) disk = (.ok (), disk')) :
    locate disk'.tree (done ++ [.normal n]) = some (n :: loc) ∧
      ∀ l, disk'.tree.get l = if l = n :: loc then some .dir else disk.tree.get l := by
  have hthere : locate disk.tree (done ++ [.normal n]) = some (n :: loc) :=
    locate_normal hdone hdir hlink
  rcases ensureDir_ok h with ⟨hisDir, rfl⟩ | ⟨-, new, tree, hplace, hfree, hput, rfl⟩
  · refine ⟨hthere, fun l => ?_⟩
    split
    · next heq =>
      obtain ⟨loc', hlocate, hget⟩ := isDir_iff.1 hisDir
      obtain rfl := Option.some.inj (hthere.symm.trans hlocate)
      rw [heq, hget]
    · rfl
  · obtain rfl : n :: loc = new :=
      Option.some.inj ((place_normal hdone hdir).symm.trans hplace)
    exact ⟨(locate_made hdone hdir hfree hput).1, fun l => Tree.get_put hput⟩

theorem ensureDirs_leaves (hdone : locate disk.tree done = some loc)
    (hdir : disk.tree.get loc = some .dir)
    (hlinks : ∀ l, Below loc l → l <:+ ns.reverse ++ loc →
      ∀ target, disk.tree.get l ≠ some (.leaf (.symlink target)))
    (h : ensureDirs grants done (ns.map .normal) disk = (.ok (), disk')) :
    locate disk'.tree (done ++ ns.map .normal) = some (ns.reverse ++ loc) ∧
      ∀ l, disk'.tree.get l =
        if Below loc l ∧ l <:+ ns.reverse ++ loc then some .dir else disk.tree.get l := by
  induction ns generalizing done loc disk with
  | nil =>
    cases h
    refine ⟨by simpa using hdone, fun l => (if_neg ?_).symm⟩
    rintro ⟨hbelow, hsuffix⟩
    exact hbelow.2 (hsuffix.eq_of_length (le_antisymm hsuffix.length_le hbelow.1.length_le))
  | cons n ns ih =>
    obtain ⟨_, disk₁, hfirst, hrest⟩ := Act.bind_ok h
    rw [reverse_cons_append] at hlinks ⊢
    have hlink := hlinks (n :: loc) (below_cons n) (List.suffix_append _ _)
    obtain ⟨hlocate, hget⟩ := ensureDir_leaves hdone hdir hlink hfirst
    have hdir₁ : disk₁.tree.get (n :: loc) = some .dir := by rw [hget, if_pos rfl]
    have hlinks₁ : ∀ l, Below (n :: loc) l → l <:+ ns.reverse ++ n :: loc →
        ∀ target, disk₁.tree.get l ≠ some (.leaf (.symlink target)) := by
      intro l hbelow hsuffix target
      rw [hget, if_neg hbelow.2]
      obtain ⟨hfar, -⟩ := below_suffix_cons.2 (.inr ⟨hbelow, hsuffix⟩)
      exact hlinks l hfar hsuffix target
    obtain ⟨hend, hleaves⟩ := ih hlocate hdir₁ hlinks₁ hrest
    refine ⟨by simpa using hend, fun l => ?_⟩
    simp only [hleaves, hget, below_suffix_cons]
    by_cases heq : l = n :: loc <;> simp [heq]

end Directories

section Entries

variable {disk disk' : Disk} {dest : FilePath} {root : FsLoc} {e : Entry}
  {look look' : FsLoc → Option FsNode} {entries : List Entry}

/-- The way of an entry goes by names, none of which is a link. -/
structure Entry.Straight (root : FsLoc) (look : FsLoc → Option FsNode) (e : Entry) : Prop where
  names : ∀ path, e.path = some path → (components path).drop 1 = (landing path).map .normal
  noLink : ∀ loc, Below root loc → loc <:+ e.goal root → (loc = e.goal root → e.isDir = true) →
    ∀ target, look loc ≠ some (.leaf (.symlink target))

/-- So do the ways of all, each in what the entries before it leave. -/
def Straight (root : FsLoc) (look : FsLoc → Option FsNode) (entries : List Entry) : Prop :=
  ∀ before e after, entries = before ++ e :: after → e.Straight root (leftBy root before look)

theorem leftBy_cons (root : FsLoc) (e : Entry) (entries : List Entry)
    (look : FsLoc → Option FsNode) :
    leftBy root (e :: entries) look =
      leftBy root entries fun loc => e.leaves root loc (look loc) := rfl

theorem Straight.head (h : Straight root look (e :: entries)) : e.Straight root look :=
  h [] e entries rfl

theorem Straight.tail (h : Straight root look (e :: entries)) :
    Straight root (fun loc => e.leaves root loc (look loc)) entries := by
  rintro before e' after rfl
  exact h (e :: before) e' after rfl

theorem Entry.leaves_outside {loc : FsLoc} (hloc : ¬ Below root loc) (standing : Option FsNode) :
    e.leaves root loc standing = standing := if_neg fun h => hloc h.1

theorem leftBy_outside {loc : FsLoc} (hloc : ¬ Below root loc) :
    leftBy root entries look loc = look loc := by
  induction entries generalizing look with
  | nil => rfl
  | cons e entries ih => rw [leftBy_cons, ih, Entry.leaves_outside hloc]

/-- An entry that the loop skips. -/
theorem Entry.leaves_skipped {loc : FsLoc} (hgoal : e.goal root = root) (standing : Option FsNode) :
    e.leaves root loc standing = standing := by
  refine if_neg ?_
  rintro ⟨hbelow, hsuffix⟩
  rw [hgoal] at hsuffix
  exact hbelow.2 (hsuffix.eq_of_length (le_antisymm hsuffix.length_le hbelow.1.length_le))

/-- An entry that makes a directory. -/
theorem extractEntry_leaves_dir {ns : List OsString} {msg : String}
    (hdest : Leads disk.tree dest root) (hstraight : e.Straight root disk.tree.get)
    (hgoal : e.goal root = ns.reverse ++ root) (hisDir : e.isDir = true)
    (h : (createDirAll e.grants (dest ++ ns.map .normal)).context msg disk = (.ok (), disk')) :
    ∀ loc, disk'.tree.get loc = e.leaves root loc (disk.tree.get loc) := by
  have hmade := Act.context_ok h
  rw [createDirAll_below hdest.locate hdest.dir] at hmade
  have hlinks : ∀ l, Below root l → l <:+ ns.reverse ++ root →
      ∀ target, disk.tree.get l ≠ some (.leaf (.symlink target)) := by
    rw [← hgoal]
    exact fun l hbelow hsuffix => hstraight.noLink l hbelow hsuffix fun _ => hisDir
  obtain ⟨-, hleaves⟩ := ensureDirs_leaves hdest.locate hdest.dir hlinks hmade
  intro loc
  rw [hleaves, ← hgoal]
  simp [Entry.leaves, hisDir]

/-- The goal of an entry comes behind the directories on its way. -/
theorem below_goal {n : OsString} {ns : List OsString} {l : FsLoc} :
    Below root l ∧ l <:+ n :: (ns.reverse ++ root) ↔
      l = n :: (ns.reverse ++ root) ∨ Below root l ∧ l <:+ ns.reverse ++ root := by
  rw [List.suffix_cons_iff, and_or_left]
  refine or_congr_left (and_iff_right_of_imp ?_)
  rintro rfl
  exact below_iff.2 ⟨ns ++ [n], by simp, by simp⟩

/-- An entry that is unpacked behind the directories on its way. -/
theorem extractEntry_leaves_file {ns : List OsString} {n : OsString} {msg msg' : String}
    (hdest : Leads disk.tree dest root) (hstraight : e.Straight root disk.tree.get)
    (hgoal : e.goal root = n :: (ns.reverse ++ root)) (hisDir : e.isDir = false)
    (h : ((createDirAll e.grants (dest ++ ns.map .normal)).context msg >>= fun _ =>
      (unpack e.unpack (dest ++ ns.map .normal ++ [.normal n])).context msg') disk =
        (.ok (), disk')) :
    ∀ loc, disk'.tree.get loc = e.leaves root loc (disk.tree.get loc) := by
  obtain ⟨_, disk₁, hparent, hunpack⟩ := Act.bind_ok h
  have hmade := Act.context_ok hparent
  rw [createDirAll_below hdest.locate hdest.dir] at hmade
  have hne : ∀ {l}, l <:+ ns.reverse ++ root → l ≠ n :: (ns.reverse ++ root) := by
    rintro l hsuffix rfl
    have hlength := hsuffix.length_le
    rw [List.length_cons] at hlength
    omega
  have hlinks : ∀ l, Below root l → l <:+ ns.reverse ++ root →
      ∀ target, disk.tree.get l ≠ some (.leaf (.symlink target)) := by
    intro l hbelow hsuffix
    refine hstraight.noLink l hbelow ?_ fun heq => ?_
    · rw [hgoal]
      exact hsuffix.trans (List.suffix_cons n _)
    · exact absurd (heq.trans hgoal) (hne hsuffix)
  obtain ⟨hlocate, hleaves⟩ := ensureDirs_leaves hdest.locate hdest.dir hlinks hmade
  have hparentDir : disk₁.tree.get (ns.reverse ++ root) = some .dir := by
    rw [hleaves]
    split
    · rfl
    · next hout =>
      have hself : ns.reverse ++ root = root := by
        by_contra hne'
        exact hout ⟨⟨List.suffix_append _ _, hne'⟩, List.suffix_rfl⟩
      rw [hself, hdest.dir]
  have hplace : place disk₁.tree (dest ++ ns.map .normal ++ [.normal n]) =
      some (n :: (ns.reverse ++ root)) := place_normal hlocate hparentDir
  have hold : disk₁.tree.get (n :: (ns.reverse ++ root)) =
      disk.tree.get (n :: (ns.reverse ++ root)) := by
    rw [hleaves, if_neg]
    exact fun hway => hne hway.2 rfl
  -- Below the root, the goal and its way are all that the entry comes to.
  have hentry : ∀ l, e.leaves root l (disk.tree.get l) =
      if l = n :: (ns.reverse ++ root) then (e.unpack (disk.tree.get l)).leaves (disk.tree.get l)
      else disk₁.tree.get l := by
    intro l
    simp only [Entry.leaves, hgoal, hisDir, below_goal, hleaves]
    by_cases heq : l = n :: (ns.reverse ++ root) <;> simp [heq]
  intro l
  rw [hentry]
  rcases unpack_ok (Act.context_ok hunpack) with
    ⟨hanswer, rfl⟩ | ⟨loc, node, tree, hplace', hanswer, hput, rfl⟩
  · rw [hplace, Option.bind_some, hold] at hanswer
    split
    · next heq =>
      rw [heq, hanswer, hold]
      rfl
    · rfl
  · obtain rfl := Option.some.inj (hplace.symm.trans hplace')
    rw [hold] at hanswer
    show tree.get l = _
    rw [Tree.get_put hput]
    split
    · next heq =>
      rw [heq, hanswer]
      rfl
    · rfl

/-- An entry that is extracted leaves what it tells. -/
theorem extractEntry_leaves (hdest : Leads disk.tree dest root)
    (hstraight : e.Straight root disk.tree.get)
    (h : extractEntry dest (some e) disk = (.ok (), disk')) :
    ∀ loc, disk'.tree.get loc = e.leaves root loc (disk.tree.get loc) := by
  cases hpath : e.path with
  | none =>
    simp only [extractEntry, hpath] at h
    cases h
  | some path =>
    have hgoal : e.goal root = (landing path).reverse ++ root := by rw [Entry.goal, hpath]; rfl
    have hout := outPathOf_of_names (hstraight.names path hpath) dest
    by_cases hlanding : landing path = []
    · rw [if_pos hlanding] at hout
      simp only [extractEntry, hpath, hout] at h
      cases h
      rw [hlanding] at hgoal
      exact fun loc => (Entry.leaves_skipped hgoal _).symm
    · rw [if_neg hlanding] at hout
      simp only [extractEntry, hpath, hout] at h
      cases hisDir : e.isDir with
      | true =>
        rw [hisDir, if_pos rfl] at h
        exact extractEntry_leaves_dir hdest hstraight hgoal hisDir h
      | false =>
        obtain ⟨ns, n, hsplit⟩ : ∃ ns n, landing path = ns ++ [n] :=
          ⟨_, _, (List.dropLast_append_getLast hlanding).symm⟩
        have hparent : parent (dest ++ (landing path).map .normal) = dest ++ ns.map .normal := by
          rw [parent, hsplit, List.map_append, ← List.append_assoc]
          exact List.dropLast_concat
        rw [hisDir, if_neg (by simp), hparent] at h
        rw [hsplit, List.map_append, ← List.append_assoc] at h
        rw [hsplit, List.reverse_append] at hgoal
        exact extractEntry_leaves_file hdest hstraight hgoal hisDir h

theorem extractEntries_leave {entries : List (Option Entry)} (hdest : Leads disk.tree dest root)
    (hstraight : Straight root disk.tree.get entries.reduceOption)
    (h : entries.forM (extractEntry dest) disk = (.ok (), disk')) :
    ∀ loc, disk'.tree.get loc = leftBy root entries.reduceOption disk.tree.get loc := by
  induction entries generalizing disk with
  | nil =>
    cases h
    exact fun loc => rfl
  | cons entry entries ih =>
    obtain ⟨_, disk₁, hfirst, hrest⟩ := Act.bind_ok h
    cases entry with
    | none => cases hfirst
    | some e =>
      rw [List.reduceOption_cons_of_some] at hstraight ⊢
      have hleaves := extractEntry_leaves hdest hstraight.head hfirst
      have hdest₁ : Leads disk₁.tree dest root := hdest.of_outside fun l hl => by
        rw [hleaves, Entry.leaves_outside hl]
      have hget : disk₁.tree.get = fun loc => e.leaves root loc (disk.tree.get loc) :=
        funext hleaves
      rw [leftBy_cons, ← hget]
      refine ih hdest₁ ?_ hrest
      rw [hget]
      exact hstraight.tail

end Entries

end Hwwctl.Bundler
