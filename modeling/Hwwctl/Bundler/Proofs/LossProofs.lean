import Hwwctl.Bundler.Proofs.LandingProofs
import Mathlib.Algebra.Order.BigOperators.Group.List
import Mathlib.Algebra.Order.Group.Nat
import Mathlib.Data.List.Perm.Subperm

/-!
# What extraction loses

An archive that has one top-level directory is to be unpacked without it, and any other archive as it
is. The loop takes every first component for that directory, also a leading `.`; a regular file that
has no other component it passes over. So nothing is lost just where that makes no difference.
-/

namespace Hwwctl.Bundler

open FileTree Io

/-! ## Where members belong -/

section Homes

variable {members : List Member} {m : Member} {top : OsString}

theorem home_of_top (htop : commonTop members = some top) (hm : m ∈ members) :
    names (components m.path) = top :: home members m ∧
      (m.content ≠ none → home members m ≠ []) := by
  have hbelow : liesBelow top m = true := by
    have hall := (Option.filter_eq_some_iff.1 htop).2
    exact List.all_eq_true.1 hall m hm
  have hhome : home members m = (names (components m.path)).tail := by
    rw [home, htop, Option.isSome_some, if_pos rfl]
  rw [hhome]
  unfold liesBelow at hbelow
  split at hbelow
  · cases hbelow
  · next name rest hnames =>
    rw [hnames, List.tail_cons]
    simp only [Bool.and_eq_true, decide_eq_true_eq, Bool.or_eq_true, Option.isNone_iff_eq_none,
      Bool.not_eq_true', List.isEmpty_eq_false_iff] at hbelow
    refine ⟨by rw [hbelow.1], ?_⟩
    intro hfile
    exact hbelow.2.resolve_left hfile

theorem home_of_none (htop : commonTop members = none) :
    home members m = names (components m.path) := by
  rw [home, htop, Option.isSome_none, if_neg (by simp)]

/-- Where the leading `.` stands for the top-level directory a file lands where it belongs. -/
theorem landing_eq_home (hplain : Plain m.path) (hm : m ∈ members)
    (hdotted : Dotted m.path ↔ commonTop members = none) :
    landing m.path = home members m := by
  rw [hplain.landing_eq]
  cases htop : commonTop members with
  | none => rw [if_pos (hdotted.2 htop), home_of_none htop]
  | some top =>
    have hnot : ¬ Dotted m.path := by
      rw [hdotted, htop]
      simp
    rw [if_neg hnot, (home_of_top htop hm).1, List.tail_cons]

theorem mem_files : m ∈ files members ↔ m ∈ members ∧ m.content ≠ none := by
  rw [files, List.mem_filter, Option.isSome_iff_ne_none]

/-- Lists that are the same but for their order, one with the shorter ones. -/
theorem length_eq_of_perm {α β : Type} {f g : α → List β} {l : List α}
    (hperm : (l.map f).Perm (l.map g)) (hle : ∀ a ∈ l, (f a).length ≤ (g a).length) :
    ∀ a ∈ l, (f a).length = (g a).length := by
  have hsum : (l.map fun a => (f a).length).sum = (l.map fun a => (g a).length).sum := by
    have hlengths := (hperm.map List.length).sum_eq
    rwa [List.map_map, List.map_map] at hlengths
  intro a ha
  by_contra hne
  have hlt := List.sum_lt_sum (fun a => (f a).length) (fun a => (g a).length) hle
    ⟨a, ha, lt_of_le_of_ne (hle a ha) hne⟩
  omega

end Homes

/-! ## Paths below a directory -/

section Below

variable {tree : FsTree} {dest : FilePath} {root l : FsLoc} {ns : List OsString}

/-- Where no link stands names lead nowhere else. -/
theorem eq_of_locate_names (hdest : locate tree dest = some root)
    (hroot : tree.get root = some .dir) (hlinks : LinkFree tree root)
    (h : locate tree (dest ++ ns.map .normal) = some l) : l = ns.reverse ++ root := by
  rcases locate_names_cases hdest hroot h with heq | ⟨x, n, rest, target, -, hlink⟩
  · exact heq
  · refine absurd hlink (hlinks _ target (below_iff.2 ⟨x ++ [n], by simp, ?_⟩))
    rw [List.reverse_append]
    rfl

end Below

/-! ## Nothing is lost -/

section Loss

variable {env : ExtractEnv} {archivePath dest : FilePath} {tree : FsTree} {opened disk' : Disk}
  {root l : FsLoc} {members : List Member} {m : Member} {archive : FileData}

/-- Every regular file has been written where it belongs, no two at the same place. -/
structure WritesAll (dest : FilePath) (members : List Member) (disk' : Disk) : Prop where
  written : ∀ m ∈ members, ∀ data, m.content = some data → ∃ l ∈ disk'.touched,
    locate disk'.tree (dest ++ (home members m).map .normal) = some l ∧
      disk'.tree.get l = some (.leaf (.file data))
  apart : ((files members).map fun m =>
    locate disk'.tree (dest ++ (home members m).map .normal)).Nodup

def LosesNothing (env : ExtractEnv) (archivePath dest : FilePath) (tree : FsTree)
    (members : List Member) : Prop :=
  ∃ disk', extractTarball env archivePath dest ⟨tree, []⟩ = (.ok (), disk') ∧
    WritesAll dest members disk'

/-- A regular file is written with a leading `./` exactly where there is no common top-level
directory, no two have the same path but for that, and nothing is in the way of anything. -/
structure Suits (tree : FsTree) (root : FsLoc) (members : List Member) : Prop where
  dotted : ∀ m ∈ members, m.content ≠ none → (Dotted m.path ↔ commonTop members = none)
  distinct : ((files members).map fun m => names (components m.path)).Nodup
  pass : AllPass tree root members

/-- Only directories are made on the way to the destination. -/
theorem ensureDirs_touched {grants : FilePath → Bool} {done rest : FilePath} {disk : Disk}
    (h : ensureDirs grants done rest disk = (.ok (), disk')) (hl : l ∈ disk'.touched) :
    l ∈ disk.touched ∨ disk'.tree.get l = some .dir := by
  induction rest generalizing done disk with
  | nil =>
    cases h
    exact .inl hl
  | cons c rest ih =>
    obtain ⟨_, disk₁, hfirst, hrest⟩ := Act.bind_ok h
    rcases ensureDir_ok hfirst with ⟨-, rfl⟩ | ⟨-, loc, tree, -, -, hput, rfl⟩
    · exact ih hrest
    · rcases ih hrest with hl | hl
      · rcases List.mem_cons.1 hl with rfl | hl
        · have hkinds := ensureDirs_keepsKinds grants (done ++ [c]) rest ⟨tree, [l] ++ disk.touched⟩
          rw [hrest] at hkinds
          refine .inr (hkinds.dir ?_)
          show tree.get l = _
          rw [Tree.get_put hput, if_pos rfl]
        · exact .inl hl
      · exact .inr hl

theorem extractTarball_members {disk : Disk}
    (hopened : createDirAll env.grants dest disk = (.ok (), opened)) (hopens : env.opens = true)
    (hread : readFile opened.tree archivePath = some archive)
    (hentries : env.entries archive.bytes = some (members.map fun m => some m.entry)) :
    extractTarball env archivePath dest disk = extractMembers dest members opened := by
  simp only [extractTarball, openArchive, Act.run_bind, Act.run_context, hopened, hopens, hread,
    hentries, if_true, extractMembers]

/-- A file that nothing is in the way of has a place of its own. -/
theorem AllPass.landing_ne_nil (h : AllPass tree root members) (hroot : tree.get root = some .dir)
    (hm : m ∈ members) (hfile : m.content ≠ none) : landing m.path ≠ [] := by
  intro hnil
  refine (h.passes m hm).file hfile ?_
  rw [Member.loc, hnil, List.reverse_nil, List.nil_append, hroot]

theorem Suits.writesAll (hsuits : Suits opened.tree root members)
    (hplain : ∀ m ∈ members, Plain m.path) (hdest : Leads opened.tree dest root)
    (hall : LandsAll root opened members disk') : WritesAll dest members disk' := by
  have hdest' := hdest.of_outside fun l hl => hall.outside hdest.dir hl
  have hsame : ∀ m ∈ members, m.content ≠ none → ∀ m' ∈ members, m'.content ≠ none →
      m'.loc root = m.loc root → m' = m := by
    intro m hm _ m' hm' hfile' hloc
    rw [Member.loc, Member.loc, List.append_left_inj, List.reverse_inj] at hloc
    exact hsuits.pass.within m hm m' hm' hfile' (by rw [hloc])
  have hplace : ∀ m ∈ members, ∀ data, m.content = some data →
      m.loc root ∈ disk'.touched ∧
        locate disk'.tree (dest ++ (home members m).map .normal) = some (m.loc root) ∧
        disk'.tree.get (m.loc root) = some (.leaf (.file data)) := by
    intro m hm data hdata
    have hfile : m.content ≠ none := by
      rw [hdata]
      simp
    have hne := hsuits.pass.landing_ne_nil hdest.dir hm hfile
    have hget := hall.holds hm hdata hne fun m' hm' hfile' => hsame m hm hfile m' hm' hfile'
    refine ⟨(hall.written hm hfile hne).1, ?_, hget⟩
    rw [← landing_eq_home (hplain m hm) hm (hsuits.dotted m hm hfile)]
    refine locate_names hdest'.locate hdest'.dir ?_ ?_
    · exact fun x hx hproper => hall.dirs hdest.dir hm hx fun heq => absurd heq hproper
    · intro target
      rw [← Member.loc, hget]
      simp
  constructor
  · intro m hm data hdata
    obtain ⟨htouched, hlocate, hget⟩ := hplace m hm data hdata
    exact ⟨m.loc root, htouched, hlocate, hget⟩
  · refine List.Nodup.map_on ?_ hsuits.distinct.of_map
    intro m hm m' hm' heq
    obtain ⟨hm, hfile⟩ := mem_files.1 hm
    obtain ⟨hm', hfile'⟩ := mem_files.1 hm'
    obtain ⟨data, hdata⟩ := Option.ne_none_iff_exists'.1 hfile
    obtain ⟨data', hdata'⟩ := Option.ne_none_iff_exists'.1 hfile'
    rw [(hplace m hm data hdata).2.1, (hplace m' hm' data' hdata').2.1] at heq
    exact hsame m' hm' hfile' m hm hfile (Option.some.inj heq)

/-- A file that is where it belongs has landed there. -/
theorem WritesAll.lands (hwrites : WritesAll dest members disk')
    (hall : LandsAll root opened members disk') (hdest : Leads opened.tree dest root)
    (hlinks : LinkFree opened.tree root)
    (hdirs : ∀ l ∈ opened.touched, opened.tree.get l = some .dir) (hm : m ∈ files members) :
    ∃ m' ∈ files members, landing m'.path = home members m ∧ landing m'.path ≠ [] := by
  obtain ⟨hm, hfile⟩ := mem_files.1 hm
  obtain ⟨data, hdata⟩ := Option.ne_none_iff_exists'.1 hfile
  obtain ⟨l, htouched, hlocate, hget⟩ := hwrites.written m hm data hdata
  have hdest' := hdest.of_outside fun l hl => hall.outside hdest.dir hl
  have hl := eq_of_locate_names hdest'.locate hdest'.dir (hall.linkFree hlinks) hlocate
  have hleaf : disk'.tree.get l ≠ some .dir := by
    rw [hget]
    simp
  rcases hall.touched htouched with hold | hdir | ⟨m', hm', hfile', hne, hloc⟩
  · exact absurd (hall.keepsKinds.dir (hdirs l hold)) hleaf
  · exact absurd hdir hleaf
  · rw [hl, Member.loc, List.append_left_inj, List.reverse_inj] at hloc
    exact ⟨m', mem_files.2 ⟨hm', hfile'⟩, hloc.symm, hne⟩

theorem WritesAll.homes_nodup (hwrites : WritesAll dest members disk') :
    ((files members).map (home members)).Nodup := by
  have hapart := hwrites.apart
  have hmap : ((files members).map fun m =>
      locate disk'.tree (dest ++ (home members m).map .normal)) =
      ((files members).map (home members)).map fun ns =>
        locate disk'.tree (dest ++ ns.map .normal) := by
    rw [List.map_map]
    rfl
  rw [hmap] at hapart
  exact hapart.of_map

/-- Stripped paths are shorter, so that all must have been stripped for the places to be the same. -/
theorem dotted_of_perm (hplain : ∀ m ∈ members, Plain m.path)
    (hne : ∀ m ∈ files members, home members m ≠ [])
    (hperm : ((files members).map (home members)).Perm
      ((files members).map fun m => landing m.path)) :
    ∀ m ∈ members, m.content ≠ none → (Dotted m.path ↔ commonTop members = none) := by
  intro m hm hfile
  cases htop : commonTop members with
  | none =>
    have hle : ∀ m ∈ files members, (landing m.path).length ≤ (home members m).length := by
      intro m hm
      rw [(hplain m (mem_files.1 hm).1).landing_eq, home_of_none htop]
      split
      · exact le_refl _
      · rw [List.length_tail]
        omega
    have heq := length_eq_of_perm hperm.symm hle m (mem_files.2 ⟨hm, hfile⟩)
    rw [(hplain m hm).landing_eq, home_of_none htop] at heq
    refine iff_of_true ?_ rfl
    by_contra hdotted
    rw [if_neg hdotted, List.length_tail] at heq
    have hhome := hne m (mem_files.2 ⟨hm, hfile⟩)
    rw [home_of_none htop, ← List.length_pos_iff] at hhome
    omega
  | some top =>
    have hle : ∀ m ∈ files members, (home members m).length ≤ (landing m.path).length := by
      intro m hm
      rw [(hplain m (mem_files.1 hm).1).landing_eq, (home_of_top htop (mem_files.1 hm).1).1]
      split
      · exact Nat.le_succ _
      · exact le_refl _
    have heq := length_eq_of_perm hperm hle m (mem_files.2 ⟨hm, hfile⟩)
    rw [(hplain m hm).landing_eq, (home_of_top htop hm).1] at heq
    refine iff_of_false ?_ (by simp)
    intro hdotted
    rw [if_pos hdotted, List.length_cons] at heq
    omega

theorem WritesAll.suits (hwrites : WritesAll dest members disk')
    (hplain : ∀ m ∈ members, Plain m.path) (hdest : Leads opened.tree dest root)
    (hall : LandsAll root opened members disk') (hlinks : LinkFree opened.tree root)
    (hdirs : ∀ l ∈ opened.touched, opened.tree.get l = some .dir) :
    Suits opened.tree root members := by
  have hlands := fun m hm => hwrites.lands (m := m) hall hdest hlinks hdirs hm
  have hnodup := hwrites.homes_nodup
  have hne : ∀ m ∈ files members, home members m ≠ [] := by
    intro m hm
    obtain ⟨m', -, heq, hne⟩ := hlands m hm
    rwa [heq] at hne
  have hsub : (files members).map (home members) ⊆
      (files members).map fun m => landing m.path := by
    intro ns hns
    obtain ⟨m, hm, rfl⟩ := List.mem_map.1 hns
    obtain ⟨m', hm', heq, -⟩ := hlands m hm
    exact List.mem_map.2 ⟨m', hm', heq⟩
  have hperm : ((files members).map (home members)).Perm
      ((files members).map fun m => landing m.path) :=
    (hnodup.subperm hsub).perm_of_length_le (by simp)
  have hdotted := dotted_of_perm hplain hne hperm
  have hhome : ∀ m ∈ members, m.content ≠ none → landing m.path = home members m :=
    fun m hm hfile => landing_eq_home (hplain m hm) hm (hdotted m hm hfile)
  have hnil : ∀ m ∈ members, m.content ≠ none → landing m.path ≠ [] := by
    intro m hm hfile
    rw [hhome m hm hfile]
    exact hne m (mem_files.2 ⟨hm, hfile⟩)
  refine ⟨hdotted, ?_, ?_, ?_⟩
  · have hmap : (files members).map (home members) =
        ((files members).map fun m => names (components m.path)).map fun ns =>
          if (commonTop members).isSome then ns.tail else ns := by
      rw [List.map_map]
      rfl
    rw [hmap] at hnodup
    exact hnodup.of_map
  · exact fun m hm => hall.passes hdest.dir hm (hnil m hm)
  · intro m hm m' hm' hfile' hpre
    obtain ⟨hfile, heq⟩ := hall.landing_eq hdest.dir hm hm' hfile' (hnil m' hm' hfile') hpre
    rw [hhome m hm hfile, hhome m' hm' hfile'] at heq
    exact List.inj_on_of_nodup_map hnodup (mem_files.2 ⟨hm', hfile'⟩) (mem_files.2 ⟨hm, hfile⟩) heq

/-- Extraction into a directory loses nothing where the archive suits it, and, unless there are links
in the directory, only there. -/
theorem extractTarball_losesNothing_iff (hplain : ∀ m ∈ members, Plain m.path)
    (hopened : createDirAll env.grants dest ⟨tree, []⟩ = (.ok (), opened))
    (hdest : Leads opened.tree dest root) (hopens : env.opens = true)
    (hread : readFile opened.tree archivePath = some archive)
    (hentries : env.entries archive.bytes = some (members.map fun m => some m.entry)) :
    (Suits opened.tree root members → LosesNothing env archivePath dest tree members) ∧
      (LinkFree opened.tree root → LosesNothing env archivePath dest tree members →
        Suits opened.tree root members) := by
  have hrun := extractTarball_members hopened hopens hread hentries
  constructor
  · intro hsuits
    obtain ⟨disk', hextract, hall⟩ := extractMembers_landsAll hplain hdest hsuits.pass
    exact ⟨disk', hrun.trans hextract, hsuits.writesAll hplain hdest hall⟩
  · rintro hlinks ⟨disk', hextract, hwrites⟩
    have hall := landsAll_of_ok hplain hdest hlinks (hrun.symm.trans hextract)
    refine hwrites.suits hplain hdest hall hlinks ?_
    intro l hl
    rcases ensureDirs_touched hopened hl with hl | hl
    · cases hl
    · exact hl

theorem passes_of_vacant (hroot : tree.get root = some .dir)
    (hne : m.content ≠ none → landing m.path ≠ [])
    (hvacant : ∀ x ∈ (landing m.path).inits, x ≠ [] → tree.get (x.reverse ++ root) = none) :
    Passes tree root m where
  dirs x hx _ leaf hleaf := by
    by_cases hnil : x = []
    · rw [hnil, List.reverse_nil, List.nil_append, hroot] at hleaf
      cases hleaf
    · rw [hvacant x ((List.mem_inits _ _).2 hx) hnil] at hleaf
      cases hleaf
  file hfile hdir := by
    have hnone := hvacant _ ((List.mem_inits _ _).2 (List.prefix_refl _)) (hne hfile)
    rw [← Member.loc, hdir] at hnone
    cases hnone

/-- The system refuses nothing. -/
def holding (members : List Member) : ExtractEnv where
  grants := fun _ => true
  opens := true
  entries := fun _ => some (members.map fun m => some m.entry)

/-- A program in a top-level directory. -/
def packed : List Member :=
  [⟨osString "trezor", none⟩, ⟨osString "trezor/trezor-emu-core", some program⟩]

/-- The program alone. -/
def flat : List Member := [⟨osString "trezor-emu-core", some program⟩]

theorem downloaded_linkFree : LinkFree downloaded trezorLoc := by
  intro l target _ hlink
  have hall : ∀ l ∈ downloaded.nodes.keys, downloaded.get l = some .dir ∨
      downloaded.get l = some (.leaf (.file archiveData)) := by
    decide +kernel
  have hmem : l ∈ downloaded.nodes.keys := by
    rw [Tree.mem_keys, hlink]
    simp
  rcases hall l hmem with hget | hget
  · rw [hget] at hlink
    cases hlink
  · rw [hget] at hlink
    cases hlink

theorem packed_suits : Suits downloaded trezorLoc packed where
  dotted := by
    decide +kernel
  distinct := by
    decide +kernel
  pass :=
    { passes := fun m hm =>
        passes_of_vacant (by decide +kernel)
          ((by decide +kernel : ∀ m ∈ packed, m.content ≠ none → landing m.path ≠ []) m hm)
          ((by decide +kernel : ∀ m ∈ packed, ∀ x ∈ (landing m.path).inits, x ≠ [] →
            downloaded.get (x.reverse ++ trezorLoc) = none) m hm)
      within := by
        decide +kernel }

theorem extractTarball_losesNothing_iff_packed :
    LinkFree downloaded trezorLoc ∧ Suits downloaded trezorLoc packed ∧
      LosesNothing (holding packed) trezorArchive trezorDir downloaded packed := by
  have hplain : ∀ m ∈ packed, Plain m.path := by
    unfold Plain
    decide +kernel
  have hopened : createDirAll (holding packed).grants trezorDir ⟨downloaded, []⟩ =
      (.ok (), ⟨downloaded, []⟩) := ensureDirs_of_isDir (by decide +kernel)
  have hread : readFile downloaded trezorArchive = some archiveData := by decide +kernel
  have hdest : Leads downloaded trezorDir trezorLoc := ⟨by decide +kernel, by decide +kernel⟩
  have h := extractTarball_losesNothing_iff hplain hopened hdest rfl hread rfl
  exact ⟨downloaded_linkFree, packed_suits, h.1 packed_suits⟩

/-- A program that is alone in its archive is skipped. -/
theorem extractTarball_flat_lost :
    (∀ m ∈ flat, Plain m.path) ∧ (flat.map (·.path)).Nodup ∧
      readFile downloaded trezorArchive = some archiveData ∧
      (extractTarball (holding flat) trezorArchive trezorDir ⟨downloaded, []⟩).1 = .ok () ∧
      ¬ LosesNothing (holding flat) trezorArchive trezorDir downloaded flat := by
  refine ⟨by unfold Plain; decide +kernel, by decide +kernel, by decide +kernel, by decide +kernel,
    ?_⟩
  rintro ⟨disk', hrun, hwrites⟩
  obtain ⟨l, hl, -⟩ := hwrites.written _ List.mem_cons_self program rfl
  have hnothing :
      (extractTarball (holding flat) trezorArchive trezorDir ⟨downloaded, []⟩).2.touched = [] := by
    decide +kernel
  rw [hrun] at hnothing
  rw [hnothing] at hl
  cases hl

end Loss

end Hwwctl.Bundler
