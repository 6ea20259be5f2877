import Hwwctl.Bundler.Extract
import Hwwctl.Bundler.Proofs.DiskProofs

/-!
# What extraction touches

`extract_tarball` joins what is left of an entry's path to the destination without looking at it.
Walking that path through the tree as it stands, component by component, tells where each missing
name is made and where the entry is written; everything the extraction touches lies below the
destination exactly when these walks meet all such names there.
-/

namespace Hwwctl.Bundler

open FileTree Io

/-! ## What stays as it is -/

/-- What the entry is unpacked into is put in the tree, or nothing is done. -/
theorem unpack_within {R : Disk → Disk → Prop} {answer : Option FsNode → Unpacked}
    (hrefl : ∀ disk, R disk disk)
    (hwrote : ∀ {disk : Disk} {loc node ok tree}, answer (disk.tree.get loc) = .wrote node ok →
      disk.tree.put loc node = some tree → R disk ⟨tree, [loc] ++ disk.touched⟩)
    (path : FilePath) : Act.Within R (unpack answer path) := by
  intro disk
  unfold unpack
  split
  · split <;> exact hrefl disk
  · next loc _ =>
    split
    · exact hrefl disk
    · next node ok hanswer =>
      cases hput : disk.tree.put loc node with
      | none => exact hrefl disk
      | some tree => exact hwrote hanswer hput

theorem unpack_builds (answer : Option FsNode → Unpacked) (path : FilePath) :
    Act.Within Builds (unpack answer path) :=
  unpack_within Builds.refl (fun _ hput => put_builds hput) path

theorem extractEntry_builds (dest : FilePath) (entry : Option Entry) :
    Act.Within Builds (extractEntry dest entry) := by
  unfold extractEntry
  split
  · exact .fail Builds.refl
  · split
    · exact .fail Builds.refl
    · split
      · exact .pure Builds.refl
      · split
        · exact (createDirAll_builds _ _).context _
        · exact ((createDirAll_builds _ _).context _).bind Builds.trans
            fun _ => (unpack_builds _ _).context _

theorem openArchive_disk (env : ExtractEnv) (archivePath : FilePath) (disk : Disk) :
    (openArchive env archivePath disk).2 = disk := by
  unfold openArchive
  split
  · rfl
  · split <;> rfl

/-- Extraction removes nothing, and whatever it has not touched is as it was before. -/
theorem extractTarball_builds (env : ExtractEnv) (archivePath dest : FilePath) :
    Act.Within Builds (extractTarball env archivePath dest) := by
  have hopen : Act.Within Builds (openArchive env archivePath) := by
    intro disk
    rw [openArchive_disk]
    exact .refl disk
  refine ((createDirAll_builds _ _).context _).bind Builds.trans fun _ => ?_
  refine hopen.bind Builds.trans fun entries => ?_
  exact .forM Builds.refl Builds.trans fun entry _ => extractEntry_builds dest entry

/-! ## Walking an entry's path -/

/-- The walk along `rest`, from `loc` to which `done` leads: every name that is not there and that
the system would make is met in a place that `P` allows, and `last` holds where the walk ends. -/
def Meets (P : FsLoc → Prop) (grants : FilePath → Bool) (last : FsTree → FsLoc → Prop) :
    FsTree → FsLoc → FilePath → FilePath → Prop
  | tree, loc, _, [] => last tree loc
  | tree, _, done, .rootDir :: rest => Meets P grants last tree [] (done ++ [.rootDir]) rest
  | tree, loc, done, .curDir :: rest => Meets P grants last tree loc (done ++ [.curDir]) rest
  | tree, loc, done, .parentDir :: rest =>
    Meets P grants last tree loc.tail (done ++ [.parentDir]) rest
  | tree, loc, done, .normal name :: rest =>
    match tree.get (name :: loc) with
    | some .dir => Meets P grants last tree (name :: loc) (done ++ [.normal name]) rest
    | some (.leaf _) =>
      -- a link to a directory is walked through; anything else ends the walk
      ∀ loc', locate tree (done ++ [.normal name]) = some loc' → tree.get loc' = some .dir →
        Meets P grants last tree loc' (done ++ [.normal name]) rest
    | none =>
      grants (done ++ [.normal name]) = true → P (name :: loc) ∧
        ∀ tree', tree.put (name :: loc) .dir = some tree' →
          Meets P grants last tree' (name :: loc) (done ++ [.normal name]) rest

section Walk

variable {P : FsLoc → Prop} {grants : FilePath → Bool} {last : FsTree → FsLoc → Prop} {disk : Disk}
  {loc : FsLoc} {done rest path : FilePath} {c : Component OsString} {name : OsString} {m : Io Unit}

theorem ensureDirs_go (h : isDir disk.tree (done ++ [c]) = true) :
    (ensureDirs grants done (c :: rest) >>= fun _ => m) disk =
      (ensureDirs grants (done ++ [c]) rest >>= fun _ => m) disk := by
  rw [ensureDirs, bind_assoc, Act.run_bind, ensureDir_of_isDir h]

theorem ensureDirs_stop (hdir : isDir disk.tree (done ++ [c]) = false)
    (hplace : place disk.tree (done ++ [c]) = some loc)
    (h : grants (done ++ [c]) = true → disk.tree.get loc ≠ none) :
    ((ensureDirs grants done (c :: rest) >>= fun _ => m) disk).2 = disk := by
  rw [ensureDirs, bind_assoc, Act.run_bind, ensureDir_refused hdir hplace h]

theorem ensureDirs_made {tree : FsTree} (hdir : isDir disk.tree (done ++ [c]) = false)
    (hplace : place disk.tree (done ++ [c]) = some loc) (hgrants : grants (done ++ [c]) = true)
    (hfree : disk.tree.get loc = none) (hput : disk.tree.put loc .dir = some tree) :
    (ensureDirs grants done (c :: rest) >>= fun _ => m) disk =
      (ensureDirs grants (done ++ [c]) rest >>= fun _ => m) ⟨tree, [loc] ++ disk.touched⟩ := by
  rw [ensureDirs, bind_assoc, Act.run_bind, hgrants, ensureDir_made hdir hplace hfree hput]

/-- What `create_dir_all` and `m` behind it touch is allowed exactly when what the walk meets is. -/
theorem ensureDirs_touches_iff (hm : Act.Within Builds m)
    (hlast : ∀ disk loc, locate disk.tree path = some loc → disk.tree.get loc = some .dir →
      (Touches P disk (m disk).2 ↔ last disk.tree loc))
    (hpath : done ++ rest = path) (hlocate : locate disk.tree done = some loc)
    (hdir : disk.tree.get loc = some .dir) :
    Touches P disk ((ensureDirs grants done rest >>= fun _ => m) disk).2 ↔
      Meets P grants last disk.tree loc done rest := by
  induction rest generalizing disk loc done with
  | nil =>
    rw [List.append_nil] at hpath
    subst hpath
    exact hlast disk loc hlocate hdir
  | cons c rest ih =>
    rw [List.append_cons] at hpath
    have hgo : ∀ loc', locate disk.tree (done ++ [c]) = some loc' →
        disk.tree.get loc' = some .dir →
        (Touches P disk ((ensureDirs grants done (c :: rest) >>= fun _ => m) disk).2 ↔
          Meets P grants last disk.tree loc' (done ++ [c]) rest) := by
      intro loc' hlocate' hdir'
      rw [ensureDirs_go (isDir_iff.2 ⟨loc', hlocate', hdir'⟩)]
      exact ih hpath hlocate' hdir'
    cases c with
    | rootDir => exact hgo [] (locate_rootDir hlocate hdir) Tree.get_nil
    | curDir => exact hgo loc (locate_curDir hlocate hdir) hdir
    | parentDir => exact hgo loc.tail (locate_parentDir hlocate hdir) (Tree.get_tail_dir hdir)
    | normal name =>
      have hplace : place disk.tree (done ++ [.normal name]) = some (name :: loc) :=
        place_normal hlocate hdir
      simp only [Meets]
      cases hget : disk.tree.get (name :: loc) with
      | none =>
        have hlocate' : locate disk.tree (done ++ [.normal name]) = some (name :: loc) :=
          locate_normal hlocate hdir (by rw [hget]; simp)
        have hisDir := isDir_eq_false hlocate' (by rw [hget]; simp)
        cases hgrants : grants (done ++ [.normal name]) with
        | false =>
          rw [ensureDirs_stop hisDir hplace (by rw [hgrants]; simp)]
          exact iff_of_true (Touches.self P disk) (by simp)
        | true =>
          have hsome : (disk.tree.put (name :: loc) .dir).isSome :=
            Tree.put_isSome.2 ⟨hdir, by rw [hget]; simp⟩
          obtain ⟨tree, hput⟩ := Option.isSome_iff_exists.1 hsome
          -- the new directory is part of the tree for what follows
          obtain ⟨hlocate'', hdir'⟩ := locate_made hlocate hdir hget hput
          have hrest : Act.Within Builds
              (ensureDirs grants (done ++ [.normal name]) rest >>= fun _ => m) :=
            (ensureDirs_builds _ _ _).bind Builds.trans fun _ => hm
          rw [ensureDirs_made hisDir hplace hgrants hget hput,
            touches_trans_iff (put_builds hput) (hrest _), touches_cons_iff,
            ih hpath hlocate'' hdir']
          constructor
          · rintro ⟨hallowed, hmeets⟩ _
            refine ⟨hallowed, ?_⟩
            intro tree' hput'
            obtain rfl := Option.some.inj (hput.symm.trans hput')
            exact hmeets
          · intro hmeets
            obtain ⟨hallowed, hmeets⟩ := hmeets rfl
            exact ⟨hallowed, hmeets tree hput⟩
      | some node =>
        cases node with
        | dir =>
          have hlink : ∀ target, disk.tree.get (name :: loc) ≠ some (.leaf (.symlink target)) := by
            rw [hget]
            simp
          exact hgo (name :: loc) (locate_normal hlocate hdir hlink) hget
        | leaf leaf =>
          cases hisDir : isDir disk.tree (done ++ [.normal name]) with
          | true =>
            obtain ⟨loc', hlocate', hdir'⟩ := isDir_iff.1 hisDir
            rw [hgo loc' hlocate' hdir']
            constructor
            · intro hmeets loc'' hlocate'' _
              obtain rfl := Option.some.inj (hlocate'.symm.trans hlocate'')
              exact hmeets
            · intro hmeets
              exact hmeets loc' hlocate' hdir'
          | false =>
            rw [ensureDirs_stop hisDir hplace (by rw [hget]; simp)]
            refine iff_of_true (Touches.self P disk) ?_
            intro loc' hlocate' hdir'
            rw [isDir_iff.2 ⟨loc', hlocate', hdir'⟩] at hisDir
            cases hisDir

end Walk

/-! ## Entries and archives -/

/-- If `unpack` writes at the last name of `path`, which stands in `loc`, `P` allows it. -/
def WrittenWhere (P : FsLoc → Prop) (path : FilePath) (answer : Option FsNode → Unpacked)
    (tree : FsTree) (loc : FsLoc) : Prop :=
  ∀ name, path.getLast? = some (.normal name) → tree.get (name :: loc) ≠ some .dir →
    ∀ node ok, answer (tree.get (name :: loc)) = .wrote node ok → P (name :: loc)

/-- The walk of an entry's path meets every name that the entry makes or writes where `P` allows
it. -/
def Confined (P : FsLoc → Prop) (dest : FilePath) (tree : FsTree) (entry : Option Entry) : Prop :=
  match entry with
  | none => True
  | some entry =>
    match entry.path.bind (outPathOf dest) with
    | none => True
    | some outPath =>
      if entry.isDir then Meets P entry.grants (fun _ _ => True) tree [] [] outPath
      else
        Meets P entry.grants (WrittenWhere P outPath entry.unpack) tree [] [] (parent outPath)

/-- Every entry is confined in the tree that the entries before it have left. -/
def ConfinedFrom (P : FsLoc → Prop) (dest : FilePath) : Disk → List (Option Entry) → Prop
  | _, [] => True
  | disk, entry :: entries =>
    Confined P dest disk.tree entry ∧
      ∀ disk', extractEntry dest entry disk = (.ok (), disk') → ConfinedFrom P dest disk' entries

section Extract

variable {P : FsLoc → Prop} {disk : Disk} {dest : FilePath}

theorem createDirAll_touches_iff (grants : FilePath → Bool) (path : FilePath) :
    Touches P disk (createDirAll grants path disk).2 ↔
      Meets P grants (fun _ _ => True) disk.tree [] [] path := by
  have hbind : createDirAll grants path = (ensureDirs grants [] path >>= fun _ => pure ()) := by
    rw [createDirAll]
    exact (bind_pure _).symm
  rw [hbind]
  refine ensureDirs_touches_iff (.pure Builds.refl) ?_ (List.nil_append path) rfl Tree.get_nil
  intro disk loc _ _
  exact iff_of_true (Touches.self P disk) trivial

theorem unpack_touches_iff (P : FsLoc → Prop) (answer : Option FsNode → Unpacked)
    (c : Component OsString) {path : FilePath} {loc : FsLoc} (hlocate : locate disk.tree path = some loc)
    (hdir : disk.tree.get loc = some .dir) :
    Touches P disk (unpack answer (path ++ [c]) disk).2 ↔
      WrittenWhere P (path ++ [c]) answer disk.tree loc := by
  have hlast : (path ++ [c]).getLast? = some c := List.getLast?_concat
  have hnothing : (unpack answer (path ++ [c]) disk).2 = disk →
      WrittenWhere P (path ++ [c]) answer disk.tree loc →
      (Touches P disk (unpack answer (path ++ [c]) disk).2 ↔
        WrittenWhere P (path ++ [c]) answer disk.tree loc) := by
    intro hsame hwhere
    rw [hsame]
    exact iff_of_true (Touches.self P disk) hwhere
  by_cases hc : ∃ name, c = .normal name
  · obtain ⟨name, rfl⟩ := hc
    have hplace : place disk.tree (path ++ [.normal name]) = some (name :: loc) :=
      place_normal hlocate hdir
    cases hanswer : answer (disk.tree.get (name :: loc)) with
    | untouched ok =>
      apply hnothing
      · simp only [unpack, hplace, hanswer]
      · intro name' hname' _ node ok' hwrote
        obtain rfl : name = name' := by simpa using hlast.symm.trans hname'
        rw [hanswer] at hwrote
        cases hwrote
    | wrote node ok =>
      cases hput : disk.tree.put (name :: loc) node with
      | none =>
        -- a directory stands there
        apply hnothing
        · simp only [unpack, hplace, hanswer, hput]
        · intro name' hname' hfree
          obtain rfl : name = name' := by simpa using hlast.symm.trans hname'
          have hsome : (disk.tree.put (name :: loc) node).isSome := Tree.put_isSome.2 ⟨hdir, hfree⟩
          rw [hput] at hsome
          cases hsome
      | some tree =>
        have hrun : (unpack answer (path ++ [.normal name]) disk).2 =
            ⟨tree, [name :: loc] ++ disk.touched⟩ := by
          simp only [unpack, hplace, hanswer, hput]
        rw [hrun, touches_cons_iff]
        constructor
        · intro hallowed name' hname' _ _ _ _
          obtain rfl : name = name' := by simpa using hlast.symm.trans hname'
          exact hallowed
        · intro hwhere
          exact hwhere name hlast (Tree.not_dir_of_put hput) node ok hanswer
  · have hnormal : ∀ name, c ≠ .normal name := fun name hname => hc ⟨name, hname⟩
    apply hnothing
    · simp only [unpack, place_eq_none hnormal]
      split <;> rfl
    · intro name hname
      exact absurd (Option.some.inj (hlast.symm.trans hname)) (hnormal name)

theorem outPathOf_ne_nil {path : OsString} {outPath : FilePath}
    (h : outPathOf dest path = some outPath) : outPath ≠ [] := by
  simp only [outPathOf] at h
  split at h
  · split at h
    · cases h
    · next hstripped =>
      obtain rfl := Option.some.inj h
      exact List.append_ne_nil_of_right_ne_nil _ hstripped
  · cases h

theorem writeEntry_touches_iff (e : Entry) {outPath : FilePath} (hne : outPath ≠ []) :
    Touches P disk
        ((createDirAll e.grants (parent outPath) >>= fun _ => unpack e.unpack outPath) disk).2 ↔
      Meets P e.grants (WrittenWhere P outPath e.unpack) disk.tree [] [] (parent outPath) := by
  have hout : parent outPath ++ [outPath.getLast hne] = outPath := List.dropLast_append_getLast hne
  refine ensureDirs_touches_iff (unpack_builds e.unpack outPath) ?_
    (List.nil_append (parent outPath)) rfl Tree.get_nil
  intro disk loc hlocate hdir
  have hunpack := unpack_touches_iff P e.unpack (outPath.getLast hne) hlocate hdir
  rw [hout] at hunpack
  exact hunpack

/-- One pass of the loop. -/
theorem extractEntry_touches_iff (P : FsLoc → Prop) (dest : FilePath) (disk : Disk)
    (entry : Option Entry) :
    Touches P disk (extractEntry dest entry disk).2 ↔ Confined P dest disk.tree entry := by
  cases entry with
  | none => exact iff_of_true (Touches.self P disk) trivial
  | some e =>
    cases hpath : e.path with
    | none =>
      simp only [extractEntry, Confined, hpath, Option.bind_none]
      exact iff_of_true (Touches.self P disk) trivial
    | some path =>
      cases hout : outPathOf dest path with
      | none =>
        simp only [extractEntry, Confined, hpath, hout, Option.bind_some]
        exact iff_of_true (Touches.self P disk) trivial
      | some outPath =>
        simp only [extractEntry, Confined, hpath, hout, Option.bind_some]
        cases e.isDir with
        | true =>
          rw [if_pos rfl, if_pos rfl, Act.context_state]
          exact createDirAll_touches_iff e.grants outPath
        | false =>
          rw [if_neg (by simp), if_neg (by simp), Act.context_bind_state]
          exact writeEntry_touches_iff e (outPathOf_ne_nil hout)

theorem extractEntries_touches_iff (P : FsLoc → Prop) (dest : FilePath) (disk : Disk)
    (entries : List (Option Entry)) :
    Touches P disk (entries.forM (extractEntry dest) disk).2 ↔
      ConfinedFrom P dest disk entries := by
  induction entries generalizing disk with
  | nil => exact iff_of_true (Touches.self P disk) trivial
  | cons entry entries ih =>
    have hcons : (entry :: entries).forM (extractEntry dest) =
        (extractEntry dest entry >>= fun _ => entries.forM (extractEntry dest)) := rfl
    have hentry := extractEntry_builds dest entry disk
    rw [hcons, Act.run_bind, ConfinedFrom, ← extractEntry_touches_iff]
    cases hrun : extractEntry dest entry disk with
    | mk r disk' =>
      rw [hrun] at hentry
      cases r with
      | error e =>
        refine (and_iff_left ?_).symm
        intro disk'' hok
        cases hok
      | ok u =>
        have hrest : Builds disk' (entries.forM (extractEntry dest) disk').2 :=
          Act.Within.forM Builds.refl Builds.trans (fun e _ => extractEntry_builds dest e) disk'
        rw [touches_trans_iff hentry hrest, ih disk']
        apply and_congr_right
        intro _
        constructor
        · rintro hconfined _ ⟨⟩
          exact hconfined
        · intro hconfined
          exact hconfined disk' rfl

/-- The entries that the file at `archivePath` holds, if it can be opened. -/
def archiveEntries (env : ExtractEnv) (archivePath : FilePath) (tree : FsTree) :
    List (Option Entry) :=
  if env.opens then
    ((readFile tree archivePath).bind fun data => env.entries data.bytes).getD []
  else []

/-- Extraction into a directory that is there goes through these entries. -/
theorem extractTarball_disk (env : ExtractEnv) (archivePath : FilePath)
    (hdest : isDir disk.tree dest = true) :
    (extractTarball env archivePath dest disk).2 =
      ((archiveEntries env archivePath disk.tree).forM (extractEntry dest) disk).2 := by
  have hcreate : createDirAll env.grants dest disk = (.ok (), disk) := ensureDirs_of_isDir hdest
  rw [extractTarball, Act.run_bind, Act.run_context, hcreate]
  dsimp only
  rw [Act.run_bind]
  unfold openArchive archiveEntries
  cases env.opens with
  | false => rfl
  | true =>
    simp only [if_true]
    cases readFile disk.tree archivePath with
    | none => rfl
    | some data =>
      simp only [Option.bind_some]
      cases env.entries data.bytes <;> rfl

theorem extractTarball_touches_iff (P : FsLoc → Prop) (env : ExtractEnv) (archivePath : FilePath)
    (hdest : isDir disk.tree dest = true) :
    Touches P disk (extractTarball env archivePath dest disk).2 ↔
      ConfinedFrom P dest disk (archiveEntries env archivePath disk.tree) := by
  rw [extractTarball_disk env archivePath hdest, extractEntries_touches_iff]

end Extract

/-- Everything that extraction creates or overwrites lies below the destination directory exactly
when every entry, in the tree that the entries before it have left, is confined to it. -/
theorem extractTarball_below_iff (env : ExtractEnv) (archivePath dest : FilePath) (tree : FsTree)
    (root : FsLoc) (hdest : locate tree dest = some root) (hroot : tree.get root = some .dir) :
    (∀ loc ∈ (extractTarball env archivePath dest ⟨tree, []⟩).2.touched, Below root loc) ↔
      ConfinedFrom (Below root) dest ⟨tree, []⟩ (archiveEntries env archivePath tree) := by
  have hdir : isDir tree dest = true := isDir_iff.2 ⟨root, hdest, hroot⟩
  rw [← extractTarball_touches_iff (Below root) env archivePath hdir, touches_fresh_iff]

def trezorDir : FilePath := components (osString "/bundles/trezor")

def trezorLoc : FsLoc := [osString "trezor", osString "bundles"]

def trezorArchive : FilePath := components (osString "/bundles/trezor/a.tar.gz")

def archiveData : FileData where
  bytes := []
  executable := false

/-- An empty bundle directory with the archive in it. -/
def downloaded : FsTree :=
  ((do
    let tree ← Tree.empty.put [osString "bundles"] .dir
    let tree ← tree.put trezorLoc .dir
    tree.put (osString "a.tar.gz" :: trezorLoc) (.leaf (.file archiveData)) :
      Option FsTree)).getD .empty

/-- An archive of one regular file; the system refuses nothing. -/
def oneFile (path : String) : ExtractEnv where
  grants := fun _ => true
  opens := true
  entries := fun _ =>
    some
      [some
        { path := some (osString path)
          isDir := false
          grants := fun _ => true
          unpack := fun _ => .wrote (.leaf (.file archiveData)) true }]

theorem extractTarball_below_iff_plain :
    ConfinedFrom (Below trezorLoc) trezorDir ⟨downloaded, []⟩
      (archiveEntries (oneFile "top/data/fw") trezorArchive downloaded) := by
  refine (extractTarball_below_iff (oneFile "top/data/fw") trezorArchive trezorDir downloaded
    trezorLoc rfl rfl).1 ?_
  decide

theorem extractTarball_dotDot :
    locate downloaded trezorDir = some trezorLoc ∧ downloaded.get trezorLoc = some .dir ∧
      ∃ loc ∈ (extractTarball (oneFile "top/../../evil") trezorArchive trezorDir
        ⟨downloaded, []⟩).2.touched, ¬ Below trezorLoc loc :=
  ⟨rfl, rfl, [osString "evil"], by decide, by decide⟩

end Hwwctl.Bundler
