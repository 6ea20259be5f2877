import Hwwctl.Bundler.Manager
import Hwwctl.Bundler.Proofs.LandingProofs
import Hwwctl.Library.Links

/-!
# Staying below a directory

As long as no link stands below a directory, what is made, written and removed at paths of names
below it stays below it, under the names that the paths begin with, however the system answers and
wherever an operation is broken off.
-/

namespace Hwwctl.Bundler

open FileTree Io Emulators

/-- The path leads to the directory `root` from outside, and there is no link below it. -/
structure Sealed (tree : FsTree) (dest : FilePath) (root : FsLoc) : Prop where
  leads : Leads tree dest root
  linkFree : LinkFree tree root

/-- Nothing has changed but what stands in `root` under one of the names `F`, and no link is new. -/
def Edits (root : FsLoc) (F : OsString → Prop) (disk disk' : Disk) : Prop :=
  ∀ l, disk'.tree.get l ≠ disk.tree.get l →
    (∃ first, F first ∧ first :: root <:+ l) ∧
      ∀ target, disk'.tree.get l ≠ some (.leaf (.symlink target))

section Edits

variable {root l : FsLoc} {first n : OsString} {F F' : OsString → Prop} {disk disk' disk'' : Disk}
  {dest : FilePath}

theorem below_of_suffix (h : first :: root <:+ l) : Below root l := by
  refine ⟨(List.suffix_cons first root).trans h, ?_⟩
  rintro rfl
  have hlength := h.length_le
  rw [List.length_cons] at hlength
  omega

theorem first_unique {first' : OsString} (h : first :: root <:+ l) (h' : first' :: root <:+ l) :
    first = first' := by
  have hsuffix : first :: root <:+ first' :: root :=
    List.suffix_of_suffix_length_le h h' (by simp)
  exact (List.cons.inj (hsuffix.eq_of_length (by simp))).1

theorem Edits.refl (root : FsLoc) (F : OsString → Prop) (disk : Disk) : Edits root F disk disk := by
  intro l hl
  exact absurd rfl hl

theorem Edits.trans (h : Edits root F disk disk') (h' : Edits root F disk' disk'') :
    Edits root F disk disk'' := by
  intro l hl
  by_cases hsame : disk''.tree.get l = disk'.tree.get l
  · rw [hsame] at hl ⊢
    exact h l hl
  · exact h' l hsame

theorem Edits.mono (h : Edits root F disk disk') (hF : ∀ first, F first → F' first) :
    Edits root F' disk disk' := by
  intro l hl
  obtain ⟨⟨first, hfirst, hsuffix⟩, hlink⟩ := h l hl
  exact ⟨⟨first, hF first hfirst, hsuffix⟩, hlink⟩

theorem Edits.up (h : Edits (n :: root) F disk disk') : Edits root (· = n) disk disk' := by
  intro l hl
  obtain ⟨⟨first, _, hsuffix⟩, hlink⟩ := h l hl
  exact ⟨⟨n, rfl, (List.suffix_cons first _).trans hsuffix⟩, hlink⟩

/-- What stands under another name is the same. -/
theorem Edits.same (h : Edits root F disk disk') (hfirst : ¬ F first) (hl : first :: root <:+ l) :
    disk'.tree.get l = disk.tree.get l := by
  by_contra hne
  obtain ⟨⟨first', hfirst', hsuffix⟩, _⟩ := h l hne
  rw [first_unique hl hsuffix] at hfirst
  exact hfirst hfirst'

theorem Edits.outside (h : Edits root F disk disk') (hl : ¬ Below root l) :
    disk'.tree.get l = disk.tree.get l := by
  by_contra hne
  obtain ⟨⟨first, _, hsuffix⟩, _⟩ := h l hne
  exact hl (below_of_suffix hsuffix)

theorem Edits.linkFree {root' : FsLoc} (h : Edits root F disk disk')
    (hlinks : LinkFree disk.tree root') : LinkFree disk'.tree root' := by
  intro l target hl
  by_cases hsame : disk'.tree.get l = disk.tree.get l
  · rw [hsame]
    exact hlinks l target hl
  · exact (h l hsame).2 target

theorem Edits.isSealed (h : Edits root F disk disk') (hs : Sealed disk.tree dest root) :
    Sealed disk'.tree dest root where
  leads := hs.leads.of_outside fun _ hl => h.outside hl
  linkFree := h.linkFree hs.linkFree

theorem edits_of_change (node : Option FsNode) (hfirst : F first) (hsuffix : first :: root <:+ l)
    (hlink : ∀ target, node ≠ some (.leaf (.symlink target)))
    (hget : ∀ l', disk'.tree.get l' = if l' = l then node else disk.tree.get l') :
    Edits root F disk disk' := by
  intro l' hne
  rw [hget] at hne ⊢
  split at hne
  · next heq =>
    rw [if_pos heq, heq]
    exact ⟨⟨first, hfirst, hsuffix⟩, hlink⟩
  · exact absurd rfl hne

end Edits

/-! ## Paths of names -/

section Sealed

variable {tree : FsTree} {dest : FilePath} {root loc : FsLoc} {ns : List OsString} {n : OsString}

theorem Leads.down (h : Leads tree dest root) (hdir : tree.get (n :: root) = some .dir) :
    Leads tree (dest ++ [.normal n]) (n :: root) := by
  have hout : ∀ l, ¬ Below root l → (tree.clear (n :: root)).get l = tree.get l := by
    intro l hl
    rw [Tree.get_clear, if_neg]
    exact fun hbelow => hl (below_of_suffix hbelow.1)
  have hleads := h.of_outside hout
  have hself : (tree.clear (n :: root)).get (n :: root) = some .dir := by
    rw [Tree.get_clear, if_neg (not_below_self _), hdir]
  refine ⟨locate_normal hleads.locate hleads.dir ?_, hdir⟩
  rw [hself]
  simp

theorem Sealed.down (h : Sealed tree dest root) (hdir : tree.get (n :: root) = some .dir) :
    Sealed tree (dest ++ [.normal n]) (n :: root) where
  leads := h.leads.down hdir
  linkFree l target hl := h.linkFree l target (below_of_suffix hl.1)

/-- A path of names that leads somewhere leads to the place with these names. -/
theorem Sealed.locate_eq (h : Sealed tree dest root)
    (hlocate : locate tree (dest ++ ns.map .normal) = some loc) : loc = ns.reverse ++ root := by
  induction ns using List.reverseRecOn generalizing loc with
  | nil =>
    rw [List.map_nil, List.append_nil, h.leads.locate] at hlocate
    exact (Option.some.inj hlocate).symm
  | append_singleton ns n ih =>
    rw [List.map_append, ← List.append_assoc, List.map_singleton] at hlocate
    have hdir : isDir tree (dest ++ ns.map .normal) = true :=
      isDir_of_locate (List.cons_ne_nil _ _) hlocate
    obtain ⟨loc', hlocate', hdir'⟩ := isDir_iff.1 hdir
    obtain rfl := ih hlocate'
    have hlink : ∀ target, tree.get (n :: (ns.reverse ++ root)) ≠ some (.leaf (.symlink target)) := by
      intro target
      refine h.linkFree _ target ⟨⟨n :: ns.reverse, rfl⟩, fun heq => ?_⟩
      have hlength := congrArg List.length heq
      simp only [List.length_cons, List.length_append] at hlength
      omega
    rw [locate_normal hlocate' hdir' hlink] at hlocate
    obtain rfl := Option.some.inj hlocate
    simp

/-- A path of names that is placed somewhere is placed under these names. -/
theorem Sealed.place_eq (h : Sealed tree dest root)
    (hplace : place tree (dest ++ (ns ++ [n]).map .normal) = some loc) :
    loc = n :: (ns.reverse ++ root) := by
  rw [List.map_append, ← List.append_assoc, List.map_singleton] at hplace
  simp only [place, List.getLast?_concat, List.dropLast_concat] at hplace
  obtain ⟨dir, hlocate, hdir⟩ := Option.bind_eq_some_iff.1 hplace
  split at hdir
  · rw [← Option.some.inj hdir, h.locate_eq hlocate]
  · cases hdir

end Sealed

/-! ## Operations at such paths -/

/-- From a disk whose `dest` is sealed. -/
def KeptIn (dest : FilePath) (root : FsLoc) (F : OsString → Prop) (disk disk' : Disk) : Prop :=
  Sealed disk.tree dest root → Edits root F disk disk'

section KeptIn

variable {dest : FilePath} {root : FsLoc} {F : OsString → Prop} {first : OsString}
  {ns ms : List OsString}

theorem KeptIn.refl (disk : Disk) : KeptIn dest root F disk disk :=
  fun _ => Edits.refl root F disk

theorem KeptIn.trans (a b c : Disk) (hab : KeptIn dest root F a b)
    (hbc : KeptIn dest root F b c) : KeptIn dest root F a c := by
  intro ha
  have hab := hab ha
  exact hab.trans (hbc (hab.isSealed ha))

theorem suffix_of_names (first : OsString) (ns : List OsString) (root : FsLoc) :
    first :: root <:+ (first :: ns).reverse ++ root :=
  ⟨ns.reverse, by simp⟩

/-- The place of a path of names is under the first of them. -/
theorem Sealed.under {tree : FsTree} {loc : FsLoc} (h : Sealed tree dest root)
    (hplace : place tree (dest ++ (first :: ns).map .normal) = some loc) :
    first :: root <:+ loc := by
  rcases List.eq_nil_or_concat (first :: ns) with hnil | ⟨front, n, hconcat⟩
  · cases hnil
  · rw [List.concat_eq_append] at hconcat
    rw [hconcat] at hplace
    have hloc : loc = (first :: ns).reverse ++ root := by
      rw [h.place_eq hplace, hconcat]
      simp
    rw [hloc]
    exact suffix_of_names first ns root

theorem Sealed.under_name {tree : FsTree} {loc : FsLoc} (h : Sealed tree dest root)
    (hplace : place tree (dest ++ [.normal first]) = some loc) : first :: root <:+ loc := by
  have hnames : place tree (dest ++ [first].map .normal) = some loc := hplace
  exact h.under hnames

theorem ensureDir_keptIn (hfirst : F first) (granted : Bool) (ns : List OsString) :
    Act.Within (KeptIn dest root F)
      (ensureDir granted (dest ++ (first :: ns).map .normal)) := by
  intro disk hs
  rw [ensureDir]
  split
  · exact Edits.refl root F disk
  · rw [createDir]
    split
    · exact Edits.refl root F disk
    · next loc hplace =>
      split
      · cases hput : disk.tree.put loc .dir with
        | none => exact Edits.refl root F disk
        | some tree =>
          exact edits_of_change _ hfirst (hs.under hplace) (by simp) fun l => Tree.get_put hput
      · exact Edits.refl root F disk

theorem ensureDirs_keptIn (hfirst : ∀ first, (ns ++ ms).head? = some first → F first)
    (grants : FilePath → Bool) :
    Act.Within (KeptIn dest root F)
      (ensureDirs grants (dest ++ ns.map .normal) (ms.map .normal)) := by
  induction ms generalizing ns with
  | nil => exact Act.Within.pure KeptIn.refl
  | cons m ms ih =>
    have hnext : dest ++ ns.map .normal ++ [.normal m] = dest ++ (ns ++ [m]).map .normal := by simp
    have hrest : Act.Within (KeptIn dest root F)
        (ensureDirs grants (dest ++ (ns ++ [m]).map .normal) (ms.map .normal)) :=
      ih (by simpa using hfirst)
    rw [List.map_cons, ensureDirs, hnext]
    refine Act.Within.bind KeptIn.trans ?_ fun _ => hrest
    cases hns : ns ++ [m] with
    | nil => simp at hns
    | cons first rest =>
      refine ensureDir_keptIn (hfirst first ?_) _ _
      have hall : ns ++ m :: ms = first :: (rest ++ ms) := by
        rw [List.append_cons, hns, List.cons_append]
      rw [hall, List.head?_cons]

theorem createDirAll_keptIn (hfirst : ∀ first, ns.head? = some first → F first)
    (grants : FilePath → Bool) :
    Act.Within (KeptIn dest root F) (createDirAll grants (dest ++ ns.map .normal)) := by
  intro disk hs
  have hempty : ∀ first, (([] : List OsString) ++ ns).head? = some first → F first := hfirst
  have hdirs : Edits root F disk
      (ensureDirs grants (dest ++ ([] : List OsString).map .normal) (ns.map .normal) disk).2 :=
    ensureDirs_keptIn hempty grants disk hs
  rw [createDirAll_below hs.leads.locate hs.leads.dir]
  simpa using hdirs

/-- Whatever the answer is, it is no link. -/
def WritesFiles (answer : Option FsNode → Unpacked) : Prop :=
  ∀ standing node ok target, answer standing = .wrote node ok → node ≠ .leaf (.symlink target)

theorem unpack_keptIn {answer : Option FsNode → Unpacked} (hanswer : WritesFiles answer)
    (hfirst : F first) (ns : List OsString) :
    Act.Within (KeptIn dest root F) (unpack answer (dest ++ (first :: ns).map .normal)) := by
  intro disk hs
  rw [unpack]
  split
  · split <;> exact Edits.refl root F disk
  · next loc hplace =>
    split
    · exact Edits.refl root F disk
    · next node ok hwrote =>
      split
      · exact Edits.refl root F disk
      · next tree hput =>
        refine edits_of_change _ hfirst (hs.under hplace) ?_ fun l => Tree.get_put hput
        intro target heq
        exact hanswer _ _ _ target hwrote (Option.some.inj heq)

/-- What an entry brings is under a name in `F`: its path is plain, and it is no link. -/
structure Tame (F : OsString → Prop) (entry : Entry) : Prop where
  plain : ∀ path, entry.path = some path → Plain path
  first : ∀ path first, entry.path = some path → (landing path).head? = some first → F first
  files : WritesFiles entry.unpack

theorem extractEntry_keptIn {entry : Option Entry} (htame : ∀ e, entry = some e → Tame F e) :
    Act.Within (KeptIn dest root F) (extractEntry dest entry) := by
  have hrefl : ∀ disk, KeptIn dest root F disk disk := KeptIn.refl
  cases entry with
  | none => exact Act.Within.fail hrefl
  | some e =>
    have htame := htame e rfl
    cases hpath : e.path with
    | none =>
      simp only [extractEntry, hpath]
      exact Act.Within.fail hrefl
    | some path =>
      have hfirst := htame.first path
      have hout := (htame.plain path hpath).outPathOf_eq dest
      cases hlanding : landing path with
      | nil =>
        rw [hlanding, if_pos rfl] at hout
        simp only [extractEntry, hpath, hout]
        exact Act.Within.pure hrefl
      | cons first ns =>
        rw [hlanding, if_neg (List.cons_ne_nil _ _)] at hout
        have hF : F first := hfirst first hpath (by rw [hlanding, List.head?_cons])
        have hdir : ∀ (ms : List OsString) grants, ms <+: first :: ns →
            Act.Within (KeptIn dest root F) (createDirAll grants (dest ++ ms.map .normal)) := by
          intro ms grants hprefix
          refine createDirAll_keptIn ?_ grants
          intro first' hfirst'
          cases ms with
          | nil => cases hfirst'
          | cons m ms =>
            obtain rfl := Option.some.inj hfirst'
            rw [(List.cons_prefix_cons.1 hprefix).1]
            exact hF
        simp only [extractEntry, hpath, hout]
        split
        · exact (hdir _ _ List.prefix_rfl).context _
        · have hparent : parent (dest ++ (first :: ns).map .normal) =
              dest ++ (first :: ns).dropLast.map .normal := by
            rw [parent, List.dropLast_append_of_ne_nil (by simp), List.map_dropLast]
          rw [hparent]
          refine Act.Within.bind KeptIn.trans ((hdir _ _ (List.dropLast_prefix _)).context _) ?_
          exact fun _ => (unpack_keptIn htame.files hF ns).context _

theorem extractTarball_keptIn {env : ExtractEnv} {archivePath : FilePath}
    (htame : ∀ bytes entries, env.entries bytes = some entries →
      ∀ e, some e ∈ entries → Tame F e) :
    Act.Within (KeptIn dest root F) (extractTarball env archivePath dest) := by
  have hdest : Act.Within (KeptIn dest root F) (createDirAll env.grants dest) := by
    have h : Act.Within (KeptIn dest root F)
        (createDirAll env.grants (dest ++ ([] : List OsString).map .normal)) :=
      createDirAll_keptIn (by simp) env.grants
    simpa using h
  refine Act.Within.bind KeptIn.trans (hdest.context _) fun _ => ?_
  intro disk hs
  rw [Act.run_bind]
  have hopen : openArchive env archivePath disk = ((openArchive env archivePath disk).1, disk) ∧
      ∀ entries, (openArchive env archivePath disk).1 = .ok entries →
        ∃ bytes, env.entries bytes = some entries := by
    rw [openArchive]
    split
    · exact ⟨rfl, by simp⟩
    · next data _ =>
      split
      · exact ⟨rfl, by simp⟩
      · next entries hentries =>
        refine ⟨rfl, ?_⟩
        rintro entries' ⟨⟩
        exact ⟨data.bytes, hentries⟩
  rw [hopen.1]
  split
  · next entries s' heq =>
    obtain ⟨hr, rfl⟩ := Prod.mk.inj heq
    obtain ⟨bytes, hbytes⟩ := hopen.2 entries hr
    have hall : Act.Within (KeptIn dest root F) (entries.forM (extractEntry dest)) := by
      refine Act.Within.forM KeptIn.refl KeptIn.trans fun entry hentry => ?_
      refine extractEntry_keptIn ?_
      rintro e rfl
      exact htame bytes entries hbytes e hentry
    exact hall _ hs
  · next e s' heq =>
    obtain ⟨_, rfl⟩ := Prod.mk.inj heq
    exact Edits.refl root F _

end KeptIn

end Hwwctl.Bundler
