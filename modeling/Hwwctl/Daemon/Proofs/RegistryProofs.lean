import Hwwctl.Daemon.Registry
import Hwwctl.Daemon.Proofs.SpawnProofs
import Mathlib.Data.List.Induction

/-!
# The registry's history

Beside the registry runs a book: a started instance is entered with the summary its client got, a
stopped one is struck out, a shutdown clears the page. The registry agrees with the book for as
long as no start draws the suffix of an instance that is in the map, and no longer.
-/

namespace Hwwctl.Daemon

open Control Emulators Bridge Runtime

/-! ## One start, one stop -/

/-- The start is for a wallet the daemon supports, and nothing stands in its way. -/
def Starts (env : SpawnEnv) (req : StartRequest) : Prop :=
  req.wallet = .bitBox02 ∧ letsThrough env req = true

theorem start_cases (env : SpawnEnv) (req : StartRequest) (s : RegistryState) :
    (∃ summary s', start env req s = (.ok summary, s') ∧ Registers env s summary s' ∧
        Starts env req) ∨
      ∃ e s', start env req s = (.error e, s') ∧ Clean s s' ∧ ¬ Starts env req := by
  unfold start
  by_cases hwallet : req.wallet = .bitBox02
  · rw [hwallet]
    have hpost := startBitbox02_post env req s
    dsimp only
    cases hstart : startBitbox02 env req s with
    | mk r s' =>
      cases r with
      | ok summary =>
        obtain ⟨⟨hreg, -⟩, hok⟩ := hpost.ok hstart
        exact .inl ⟨summary, s', rfl, hreg, hwallet, hok⟩
      | error e =>
        obtain ⟨hclean, hfail⟩ := hpost.error hstart
        refine .inr ⟨e, s', rfl, hclean, ?_⟩
        rintro ⟨-, hok⟩
        rw [hfail] at hok
        cases hok
  · refine .inr ?_
    have hno : ¬ Starts env req := fun h => hwallet h.1
    cases h : req.wallet with
    | bitBox02 => exact absurd h hwallet
    | _ => exact ⟨_, s, rfl, Clean.refl s, hno⟩

theorem stopInstance_instances (env : CommandEnv) (id : InstanceId) (s : RegistryState) :
    (stopInstance env id s).instances = s.instances.erase id := by
  unfold stopInstance
  cases h : s.instances.lookup id with
  | none =>
    have hnot : id ∉ s.instances := AList.lookup_eq_none.1 h
    exact (AList.ext (List.kerase_of_notMem_keys hnot)).symm
  | some inst => rfl

theorem mem_stopAll {env : CommandEnv} {ids : List InstanceId} {s : RegistryState}
    {id : InstanceId} :
    id ∈ (ids.foldl (fun s id => stopInstance env id s) s).instances ↔
      id ∉ ids ∧ id ∈ s.instances := by
  induction ids generalizing s with
  | nil => simp
  | cons id' ids ih =>
    rw [List.foldl_cons, ih, stopInstance_instances, AList.mem_erase, List.mem_cons, not_or]
    tauto

/-- A shutdown leaves the map empty. -/
theorem serve_shutdown_instances (env : CommandEnv) (s : RegistryState) :
    (serve env .shutdown s).2.instances = ∅ := by
  have hall : ∀ id, id ∉ (serve env .shutdown s).2.instances := by
    intro id hid
    obtain ⟨hnot, hmem⟩ := mem_stopAll.1 hid
    have hperm := ((env.iterate s.instances).2.map (·.1)).mem_iff (a := id)
    exact hnot (hperm.2 hmem)
  refine AList.ext (List.eq_nil_iff_forall_not_mem.2 ?_)
  intro e he
  exact hall e.1 (AList.mem_keys.2 (List.mem_map_of_mem he))

/-! ## Names -/

/-- Every entry stands under its instance's id, and id and serial carry the same suffix. -/
def Named (m : InstanceMap) : Prop :=
  ∀ e ∈ m.entries, e.2.id = e.1 ∧
    ∃ suffix : String, e.1 = ⟨s!"bitbox02-{suffix}"⟩ ∧ e.2.serial = s!"hwwctl-bb02-{suffix}"

theorem Named.empty : Named ∅ := by
  intro e he
  cases he

theorem Named.erase {m : InstanceMap} (h : Named m) (id : InstanceId) : Named (m.erase id) := by
  intro e he
  exact h e ((List.kerase_sublist id m.entries).subset he)

theorem Named.insert {m : InstanceMap} (h : Named m) {env : SpawnEnv} {inst : Instance}
    (hid : inst.id = instanceId env) (hserial : inst.serial = hidSerial env) :
    Named (m.insert (instanceId env) inst) := by
  intro e he
  rw [AList.entries_insert, List.mem_cons] at he
  rcases he with rfl | he
  · exact ⟨hid, randomSuffix env, rfl, hserial⟩
  · exact h.erase (instanceId env) e he

theorem serve_named {env : CommandEnv} {cmd : Command} {s : RegistryState} (h : Named s.instances) :
    Named (serve env cmd s).2.instances := by
  cases cmd with
  | start req =>
    rcases start_cases env.spawn req s with ⟨summary, s', hstart, hreg, -⟩ | ⟨e, s', hstart, hclean, -⟩
    · obtain ⟨⟨inst, hinsert, hid, hserial, -⟩, -⟩ := hreg
      simp only [serve, hstart, hinsert]
      exact h.insert hid hserial
    · simp only [serve, hstart, hclean.1]
      exact h
  | stop id =>
    simp only [serve, stopInstance_instances]
    exact h.erase id
  | status id =>
    cases id with
    | none => exact h
    | some id =>
      simp only [serve]
      split <;> exact h
  | logs req =>
    simp only [serve]
    split <;> exact h
  | bridgeStats id =>
    simp only [serve]
    split <;> exact h
  | shutdown =>
    rw [serve_shutdown_instances]
    exact Named.empty

/-- Distinct ids have distinct serials. -/
theorem Named.serial_ne {m : InstanceMap} (h : Named m) {e e' : Sigma fun _ : InstanceId => Instance}
    (he : e ∈ m.entries) (he' : e' ∈ m.entries) (hne : e.1 ≠ e'.1) :
    e.2.serial ≠ e'.2.serial := by
  obtain ⟨-, suffix, hid, hserial⟩ := h e he
  obtain ⟨-, suffix', hid', hserial'⟩ := h e' he'
  intro heq
  rw [hserial, hserial'] at heq
  have hsuffix : suffix = suffix' := (String.append_right_inj _).1 heq
  exact hne (by rw [hid, hid', hsuffix])

/-! ## The book -/

/-- What one served command changes in the book. -/
def account (book : List InstanceSummary) : Command → Reply → List InstanceSummary
  | .start _, .start (.ok summary) => summary :: book
  | .stop id, _ => book.filter (·.inst ≠ id)
  | .shutdown, _ => []
  | _, _ => book

/-- One command, served and entered in the book. -/
def bookkeep (l : RegistryState × List InstanceSummary) (c : CommandEnv × Command) :
    RegistryState × List InstanceSummary :=
  ((serve c.1 c.2 l.1).2, account l.2 c.2 (serve c.1 c.2 l.1).1)

/-- The registry and the book after the commands, from a daemon that has just been started. -/
def history (cmds : List (CommandEnv × Command)) : RegistryState × List InstanceSummary :=
  cmds.foldl bookkeep (.init, [])

/-- `Status(None)` shows what the book says, each instance once, and the instances can be told
apart by their ids and by their serials. -/
structure Truthful (l : RegistryState × List InstanceSummary) : Prop where
  shown : ∀ env, ∃ shown, (serve env (.status none) l.1).1 = .status (.ok shown) ∧ shown.Perm l.2
  ids : (l.2.map (·.inst)).Nodup
  serials : (l.2.map (·.serial)).Nodup

/-- The instances of `s`, their processes, channels and jobs are in `s'` as they were. -/
def Undisturbed (s s' : RegistryState) : Prop :=
  (∀ id inst, s.instances.lookup id = some inst → s'.instances.lookup id = some inst) ∧
    Untouched s.world s'.world

/-- The book holds exactly the summaries of the map. -/
def Booked (l : RegistryState × List InstanceSummary) : Prop :=
  (l.1.instances.entries.map (·.2.summary)).Perm l.2

theorem history_append (cmds : List (CommandEnv × Command)) (c : CommandEnv × Command) :
    history (cmds ++ [c]) = bookkeep (history cmds) c := by
  simp only [history, List.foldl_append, List.foldl_cons, List.foldl_nil]

theorem history_named (cmds : List (CommandEnv × Command)) : Named (history cmds).1.instances := by
  induction cmds using List.reverseRecOn with
  | nil => exact Named.empty
  | append_singleton cmds c ih =>
    rw [history_append]
    exact serve_named ih

theorem Booked.truthful {l : RegistryState × List InstanceSummary} (h : Booked l)
    (hnamed : Named l.1.instances) : Truthful l := by
  have hkeys : l.1.instances.entries.Pairwise fun e e' => e.1 ≠ e'.1 :=
    List.pairwise_map.1 l.1.instances.keys_nodup
  refine ⟨?_, ?_, ?_⟩
  · intro env
    exact ⟨_, rfl, ((env.iterate l.1.instances).2.map _).trans h⟩
  · refine ((h.map (·.inst)).nodup_iff).1 ?_
    rw [List.map_map]
    refine List.pairwise_map.2 (hkeys.imp_of_mem ?_)
    intro e e' he he' hne heq
    exact hne ((hnamed e he).1 ▸ (hnamed e' he').1 ▸ heq)
  · refine ((h.map (·.serial)).nodup_iff).1 ?_
    rw [List.map_map]
    refine List.pairwise_map.2 (hkeys.imp_of_mem ?_)
    intro e e' he he' hne
    exact hnamed.serial_ne he he' hne

theorem Truthful.booked {l : RegistryState × List InstanceSummary} (h : Truthful l)
    (env : CommandEnv) : Booked l := by
  obtain ⟨shown, hshown, hperm⟩ := h.shown env
  simp only [serve, Reply.status.injEq, Except.ok.injEq] at hshown
  subst hshown
  exact ((env.iterate l.1.instances).2.map _).symm.trans hperm

/-! ## One command -/

theorem kerase_eq_filter {id : InstanceId} {l : List (Sigma fun _ : InstanceId => Instance)}
    (h : l.NodupKeys) : l.kerase id = l.filter (·.1 ≠ id) := by
  induction l with
  | nil => rfl
  | cons e l ih =>
    obtain ⟨hnot, hl⟩ := List.nodupKeys_cons.1 h
    by_cases heq : id = e.1
    · have hfilter : l.filter (·.1 ≠ id) = l := by
        refine List.filter_eq_self.2 ?_
        intro e' he'
        have hne : e'.1 ≠ e.1 := fun h' => hnot (h' ▸ List.mem_map_of_mem he')
        simpa [heq] using hne
      rw [List.kerase_cons_eq heq, List.filter_cons_of_neg (by simp [heq]), hfilter]
    · rw [List.kerase_cons_ne heq, List.filter_cons_of_pos (by simpa using Ne.symm heq), ih hl]

theorem Booked.stop {l : RegistryState × List InstanceSummary} {env : CommandEnv} {id : InstanceId}
    (h : Booked l) (hnamed : Named l.1.instances) : Booked (bookkeep l (env, .stop id)) := by
  have hmap : (l.1.instances.entries.filter (·.1 ≠ id)).map (·.2.summary) =
      (l.1.instances.entries.map (·.2.summary)).filter (·.inst ≠ id) := by
    rw [List.filter_map]
    congr 1
    refine List.filter_congr ?_
    intro e he
    have hid : e.2.summary.inst = e.1 := (hnamed e he).1
    simp only [Function.comp_apply, hid]
  unfold Booked bookkeep
  simp only [serve, account, stopInstance_instances]
  show ((l.1.instances.entries.kerase id).map _).Perm _
  rw [kerase_eq_filter l.1.instances.nodupKeys, hmap]
  exact h.filter _

theorem Booked.start {l : RegistryState × List InstanceSummary} {env : CommandEnv}
    {req : StartRequest} (h : Booked l)
    (hfresh : Starts env.spawn req → instanceId env.spawn ∉ l.1.instances) :
    Booked (bookkeep l (env, .start req)) := by
  unfold Booked bookkeep
  rcases start_cases env.spawn req l.1 with
    ⟨summary, s', hstart, hreg, hok⟩ | ⟨e, s', hstart, hclean, -⟩
  · obtain ⟨⟨inst, hinsert, -, -, rfl⟩, -⟩ := hreg
    simp only [serve, hstart, account, hinsert]
    rw [AList.entries_insert_of_notMem (hfresh hok), List.map_cons]
    exact h.cons _
  · simp only [serve, hstart, account, hclean.1]
    exact h

theorem Booked.bookkeep {l : RegistryState × List InstanceSummary} {c : CommandEnv × Command}
    (h : Booked l) (hnamed : Named l.1.instances)
    (hfresh : ∀ req, c.2 = .start req → Starts c.1.spawn req →
      instanceId c.1.spawn ∉ l.1.instances) : Booked (bookkeep l c) := by
  obtain ⟨env, cmd⟩ := c
  cases cmd with
  | start req => exact h.start (hfresh req rfl)
  | stop id => exact h.stop hnamed
  | status id =>
    cases id with
    | none => exact h
    | some id =>
      unfold Booked Hwwctl.Daemon.bookkeep
      simp only [serve, account]
      split <;> exact h
  | logs req =>
    unfold Booked Hwwctl.Daemon.bookkeep
    simp only [serve, account]
    split <;> exact h
  | bridgeStats id =>
    unfold Booked Hwwctl.Daemon.bookkeep
    simp only [serve, account]
    split <;> exact h
  | shutdown =>
    unfold Booked Hwwctl.Daemon.bookkeep
    rw [serve_shutdown_instances]
    exact List.Perm.nil

theorem serve_start_undisturbed {env : CommandEnv} {req : StartRequest} {s : RegistryState}
    (hfresh : Starts env.spawn req → instanceId env.spawn ∉ s.instances) :
    Undisturbed s (serve env (.start req) s).2 := by
  rcases start_cases env.spawn req s with
    ⟨summary, s', hstart, ⟨⟨inst, hinsert, -⟩, hw⟩, hok⟩ | ⟨e, s', hstart, hclean, -⟩
  · have hnone := AList.lookup_eq_none.2 (hfresh hok)
    simp only [serve, hstart]
    refine ⟨?_, hw hnone⟩
    intro id inst' hlookup
    have hne : id ≠ instanceId env.spawn := by
      rintro rfl
      rw [hnone] at hlookup
      cases hlookup
    rw [hinsert, AList.lookup_insert_ne hne]
    exact hlookup
  · simp only [serve, hstart]
    refine ⟨?_, hclean.2.untouched⟩
    intro id inst hlookup
    rw [hclean.1]
    exact hlookup

/-- A start that draws the suffix of an instance in the map leaves two entries of one id in the
book, where the map has only one. -/
theorem Truthful.fresh {l : RegistryState × List InstanceSummary} {env : CommandEnv}
    {req : StartRequest} (h : Truthful l) (hnamed : Named l.1.instances)
    (h' : Truthful (Hwwctl.Daemon.bookkeep l (env, .start req))) (hok : Starts env.spawn req) :
    instanceId env.spawn ∉ l.1.instances := by
  intro hmem
  obtain ⟨e, he, hid⟩ := List.mem_map.1 (AList.mem_keys.1 hmem)
  have hold : e.2.summary ∈ l.2 :=
    (h.booked env).subset (List.mem_map_of_mem he)
  have hnodup := h'.ids
  unfold Hwwctl.Daemon.bookkeep at hnodup
  rcases start_cases env.spawn req l.1 with
    ⟨summary, s', hstart, ⟨⟨inst, -, hinst, -, rfl⟩, -⟩, -⟩ | ⟨e, s', -, -, hno⟩
  · simp only [serve, hstart, account, List.map_cons, List.nodup_cons] at hnodup
    refine hnodup.1 (List.mem_map.2 ⟨e.2.summary, hold, ?_⟩)
    show e.2.id = inst.id
    rw [(hnamed e he).1, hid, hinst]
  · exact hno hok

/-! ## The history -/

/-- The registry tells the truth after every command, and no start disturbs a running instance,
exactly when every start that succeeds draws a suffix that no instance in the map has. -/
theorem history_truthful_iff (cmds : List (CommandEnv × Command)) :
    ((∀ p, p <+: cmds → Truthful (history p)) ∧
      ∀ p env req, p ++ [(env, .start req)] <+: cmds →
        Undisturbed (history p).1 (history (p ++ [(env, .start req)])).1) ↔
    ∀ p env req, p ++ [(env, .start req)] <+: cmds → Starts env.spawn req →
      instanceId env.spawn ∉ (history p).1.instances := by
  constructor
  · rintro ⟨htruth, -⟩ p env req hp hok
    have hbefore := htruth p ((List.prefix_append _ _).trans hp)
    have hafter := htruth _ hp
    rw [history_append] at hafter
    exact hbefore.fresh (history_named p) hafter hok
  · intro hfresh
    refine ⟨?_, ?_⟩
    · have hbooked : ∀ p, p <+: cmds → Booked (history p) := by
        intro p
        induction p using List.reverseRecOn with
        | nil => exact fun _ => List.Perm.nil
        | append_singleton p c ih =>
          intro hp
          rw [history_append]
          refine (ih ((List.prefix_append _ _).trans hp)).bookkeep (history_named p) ?_
          rintro req hreq hok
          obtain ⟨env, cmd⟩ := c
          obtain rfl : cmd = .start req := hreq
          exact hfresh p env req hp hok
      exact fun p hp => (hbooked p hp).truthful (history_named p)
    · intro p env req hp
      rw [history_append]
      exact serve_start_undisturbed (hfresh p env req hp)

def readyEnv : CommandEnv where
  spawn := { refusingEnv with bridge := ⟨.ok (), .ok ()⟩ }
  stopWait := fun _ => .exited
  now := 0
  iterate := fun m => ⟨m.entries, .refl _⟩
  buffers := fun _ => ⟨[], [], ⟨0, 0, 0, 0⟩⟩

/-- Two starts for which `random_suffix` happens to return the same value. -/
def twoStarts : List (CommandEnv × Command) :=
  [(readyEnv, .start ⟨.bitBox02, false, none, none⟩),
    (readyEnv, .start ⟨.bitBox02, false, none, none⟩)]

/-- The second start replaces the first instance: the book has two, the map one. -/
theorem history_suffixTaken :
    ¬ ((∀ p, p <+: twoStarts → Truthful (history p)) ∧
      ∀ p env req, p ++ [(env, .start req)] <+: twoStarts →
        Undisturbed (history p).1 (history (p ++ [(env, .start req)])).1) := by
  rintro ⟨htruth, -⟩
  have hone : [(readyEnv, Command.start ⟨.bitBox02, false, none, none⟩)] <+: twoStarts :=
    List.prefix_append _ _
  have hok : Starts readyEnv.spawn ⟨.bitBox02, false, none, none⟩ := ⟨rfl, rfl⟩
  refine (htruth _ hone).fresh (history_named _) (htruth _ (List.prefix_refl _)) hok ?_
  rcases start_cases readyEnv.spawn ⟨.bitBox02, false, none, none⟩ .init with
    ⟨summary, s', hstart, ⟨⟨inst, hinsert, -⟩, -⟩, -⟩ | ⟨e, s', -, -, hno⟩
  · show _ ∈ (serve readyEnv _ RegistryState.init).2.instances
    simp only [serve, hstart, hinsert]
    exact (AList.mem_insert _).2 (.inl rfl)
  · exact absurd hok hno

end Hwwctl.Daemon
