import Hwwctl.Daemon.Run
import Hwwctl.Daemon.Proofs.RegistryProofs

/-!
# What a step of the daemon does

`Steps` lists the steps with their guards and effects; every invariant of the daemon is proved by
cases on it.
-/

namespace Hwwctl.Daemon

open Control

/-- The steps of a daemon whose `run` has not returned. -/
inductive Steps (d : DaemonState) : Act → DaemonState → Prop where
  | select (h : d.loop = .between) : Steps d .select { d with loop := .selecting false }
  | notified (h : d.loop = .selecting true) : Steps d .notified { d with loop := .leaving }
  | accept {n : Bool} (h : d.loop = .selecting n) :
    Steps d .accept { d with loop := .between, tasks := d.tasks ++ [⟨.client, .reading⟩] }
  | acceptFails {n : Bool} (h : d.loop = .selecting n) :
    Steps d .acceptFails { d with loop := .leaving }
  | returns (h : d.loop = .leaving) : Steps d .returns { d with loop := .returned }
  | request {i : Nat} {req : Request} {cmd : Command} (h : d.tasks[i]? = some ⟨.client, .reading⟩)
    (hreq : toCommand req = some cmd) : Steps d (.request i req) (d.setPhase i (.sending cmd))
  | ping {i : Nat} {req : Request} (h : d.tasks[i]? = some ⟨.client, .reading⟩)
    (hreq : toCommand req = none) : Steps d (.request i req) (d.setPhase i (.writing false (.pong d.info)))
  | hangUp {i : Nat} (h : d.tasks[i]? = some ⟨.client, .reading⟩) :
    Steps d (.hangUp i) (d.setPhase i (.done false))
  | signal {i : Nat} (h : d.tasks[i]? = some ⟨.signal, .reading⟩) :
    Steps d (.signal i) (d.setPhase i (.sending .shutdown))
  | send {i : Nat} {origin : Origin} {cmd : Command} (h : d.tasks[i]? = some ⟨origin, .sending cmd⟩)
    (hroom : d.queue.length < queueCapacity) :
    Steps d (.send i) { d.setPhase i (.awaiting cmd) with queue := d.queue ++ [(i, cmd)] }
  | take {c : Nat × Command} {queue : List (Nat × Command)} (hidle : d.current = none)
    (hqueue : d.queue = c :: queue) :
    Steps d .take { d with current := some c, queue := queue }
  | finish {env : CommandEnv} {i : Nat} {cmd asked : Command} {origin : Origin}
    (hcurrent : d.current = some (i, cmd)) (h : d.tasks[i]? = some ⟨origin, .awaiting asked⟩) :
    Steps d (.finish env)
      { d.setPhase i (afterReply origin asked (serve env cmd d.registry).1) with
        current := none, registry := (serve env cmd d.registry).2 }
  | finishUnheard {env : CommandEnv} {i : Nat} {cmd : Command} (hcurrent : d.current = some (i, cmd))
    (h : ∀ origin asked, d.tasks[i]? ≠ some ⟨origin, .awaiting asked⟩) :
    Steps d (.finish env) { d with current := none, registry := (serve env cmd d.registry).2 }
  | write {i : Nat} {origin : Origin} {isShutdown : Bool} {response : Response}
    (h : d.tasks[i]? = some ⟨origin, .writing isShutdown response⟩) :
    Steps d (.write i) (d.setPhase i (if isShutdown then .notifying else .done false))
  | writeFails {i : Nat} {origin : Origin} {isShutdown : Bool} {response : Response}
    (h : d.tasks[i]? = some ⟨origin, .writing isShutdown response⟩) :
    Steps d (.writeFails i) (d.setPhase i (.done isShutdown))
  | notify {i : Nat} {origin : Origin} (h : d.tasks[i]? = some ⟨origin, .notifying⟩) :
    Steps d (.notify i) { d.setPhase i (.done true) with loop := notifyWaiters d.loop }

theorem stepRunning_cases {d d' : DaemonState} {a : Act} (h : d.stepRunning a = some d') :
    Steps d a d' := by
  cases a with
  | select =>
    simp only [DaemonState.stepRunning] at h
    split at h <;> cases h
    exact .select ‹_›
  | notified =>
    simp only [DaemonState.stepRunning] at h
    split at h <;> cases h
    exact .notified ‹_›
  | accept =>
    simp only [DaemonState.stepRunning] at h
    split at h <;> cases h
    exact .accept ‹_›
  | acceptFails =>
    simp only [DaemonState.stepRunning] at h
    split at h <;> cases h
    exact .acceptFails ‹_›
  | returns =>
    simp only [DaemonState.stepRunning] at h
    split at h <;> cases h
    exact .returns ‹_›
  | request i req =>
    simp only [DaemonState.stepRunning] at h
    split at h
    · split at h <;> cases h
      · exact .request ‹_› ‹_›
      · exact .ping ‹_› ‹_›
    · cases h
  | hangUp i =>
    simp only [DaemonState.stepRunning] at h
    split at h <;> cases h
    exact .hangUp ‹_›
  | signal i =>
    simp only [DaemonState.stepRunning] at h
    split at h <;> cases h
    exact .signal ‹_›
  | send i =>
    simp only [DaemonState.stepRunning] at h
    split at h
    · split at h <;> cases h
      exact .send ‹_› ‹_›
    · cases h
  | take =>
    simp only [DaemonState.stepRunning] at h
    split at h <;> cases h
    exact .take ‹_› ‹_›
  | finish env =>
    simp only [DaemonState.stepRunning] at h
    split at h
    · split at h <;> cases h
      · exact .finish ‹_› ‹_›
      · exact .finishUnheard ‹_› ‹_›
    · cases h
  | write i =>
    simp only [DaemonState.stepRunning] at h
    split at h <;> cases h
    exact .write ‹_›
  | writeFails i =>
    simp only [DaemonState.stepRunning] at h
    split at h <;> cases h
    exact .writeFails ‹_›
  | notify i =>
    simp only [DaemonState.stepRunning] at h
    split at h <;> cases h
    exact .notify ‹_›

/-- A step of the daemon is one of the list, and `run` has not returned before it. -/
theorem step_cases {d d' : DaemonState} {a : Act} (h : d.step a = some d') :
    d.loop ≠ .returned ∧ Steps d a d' := by
  unfold DaemonState.step at h
  split at h
  · cases h
  · exact ⟨‹_›, stepRunning_cases h⟩

/-! ## Tasks -/

theorem setPhase_self {d : DaemonState} {i : Nat} {t : Task} (h : d.tasks[i]? = some t)
    (phase : Phase) : (d.setPhase i phase).tasks[i]? = some { t with phase := phase } := by
  simp only [DaemonState.setPhase, List.getElem?_modify_eq, h]
  rfl

theorem setPhase_ne {d : DaemonState} {i j : Nat} (h : i ≠ j) (phase : Phase) :
    (d.setPhase i phase).tasks[j]? = d.tasks[j]? := by
  exact List.getElem?_modify_ne _ _ h

/-- After a task moved on, what stands at `j` is that task or stood there before. -/
theorem setPhase_some {d : DaemonState} {i j : Nat} {t u : Task} {phase : Phase}
    (h : d.tasks[i]? = some t) (hu : (d.setPhase i phase).tasks[j]? = some u) :
    (i = j ∧ u = { t with phase := phase }) ∨ (i ≠ j ∧ d.tasks[j]? = some u) := by
  by_cases hij : i = j
  · subst hij
    rw [setPhase_self h] at hu
    exact .inl ⟨rfl, (Option.some.inj hu).symm⟩
  · rw [setPhase_ne hij] at hu
    exact .inr ⟨hij, hu⟩

/-- After a task moved on, a task is in a phase if it is the one that came to it, or is another
that was in it before. -/
theorem exists_phase_setPhase {d : DaemonState} {i : Nat} {t : Task} {phase : Phase}
    {P : Nat → Task → Prop} (h : d.tasks[i]? = some t) :
    (∃ j u, (d.setPhase i phase).tasks[j]? = some u ∧ P j u) ↔
      P i { t with phase := phase } ∨ ∃ j u, i ≠ j ∧ d.tasks[j]? = some u ∧ P j u := by
  constructor
  · rintro ⟨j, u, hu, hP⟩
    rcases setPhase_some h hu with ⟨rfl, rfl⟩ | ⟨hij, hu⟩
    · exact .inl hP
    · exact .inr ⟨j, u, hij, hu, hP⟩
  · rintro (hP | ⟨j, u, hij, hu, hP⟩)
    · exact ⟨i, _, setPhase_self h phase, hP⟩
    · exact ⟨j, u, by rw [setPhase_ne hij, hu], hP⟩

/-! ## Commands under way -/

/-- The commands that were sent and not yet served, the one being served first. -/
def pending (d : DaemonState) : List (Nat × Command) := d.current.toList ++ d.queue

/-- Every command under way is awaited by its own task, and the signal task only asks for a
shutdown. -/
structure Consistent (d : DaemonState) : Prop where
  awaited : ∀ c ∈ pending d, ∃ origin : Origin, d.tasks[c.1]? = some ⟨origin, .awaiting c.2⟩
  distinct : (pending d).Pairwise (·.1 ≠ ·.1)
  signal : ∀ (i : Nat) (cmd : Command), d.tasks[i]? = some ⟨.signal, .sending cmd⟩ ∨
    d.tasks[i]? = some ⟨.signal, .awaiting cmd⟩ → cmd = .shutdown

variable {d d' : DaemonState} {a : Act}

theorem pending_take {c : Nat × Command} {queue : List (Nat × Command)} (hidle : d.current = none)
    (hqueue : d.queue = c :: queue) :
    pending { d with current := some c, queue := queue } = pending d := by
  simp [pending, hidle, hqueue]

theorem pending_finish {c : Nat × Command} (hcurrent : d.current = some c) :
    pending d = c :: d.queue := by
  simp [pending, hcurrent]

/-- A task that was not awaiting anything moves on without disturbing the commands under way. -/
theorem Consistent.setPhase (h : Consistent d) {i : Nat} {t : Task} {phase : Phase}
    (ht : d.tasks[i]? = some t) (hbefore : ∀ cmd, t.phase ≠ .awaiting cmd)
    (hsignal : t.origin = .signal → ∀ cmd, phase = .sending cmd ∨ phase = .awaiting cmd →
      cmd = .shutdown) : Consistent (d.setPhase i phase) := by
  refine ⟨?_, h.distinct, ?_⟩
  · intro c hc
    obtain ⟨origin, hawait⟩ := h.awaited c hc
    have hne : i ≠ c.1 := by
      rintro rfl
      rw [ht] at hawait
      cases hawait
      exact hbefore _ rfl
    exact ⟨origin, by rw [setPhase_ne hne, hawait]⟩
  · rintro j cmd (hj | hj)
    · rcases setPhase_some ht hj with ⟨rfl, heq⟩ | ⟨_, hj⟩
      · obtain ⟨horigin, hphase⟩ := Task.mk.inj heq
        exact hsignal horigin.symm cmd (.inl hphase.symm)
      · exact h.signal j cmd (.inl hj)
    · rcases setPhase_some ht hj with ⟨rfl, heq⟩ | ⟨_, hj⟩
      · obtain ⟨horigin, hphase⟩ := Task.mk.inj heq
        exact hsignal horigin.symm cmd (.inr hphase.symm)
      · exact h.signal j cmd (.inr hj)

theorem Consistent.init (info : PongInfo) : Consistent (.init info) := by
  refine ⟨?_, List.Pairwise.nil, ?_⟩
  · intro c hc
    cases hc
  · intro i cmd h
    rcases h with h | h
    · cases List.mem_singleton.1 (List.mem_of_getElem? h)
    · cases List.mem_singleton.1 (List.mem_of_getElem? h)

theorem Steps.consistent (h : Steps d a d') (hc : Consistent d) : Consistent d' := by
  cases h with
  | select | notified | acceptFails | returns => exact ⟨hc.awaited, hc.distinct, hc.signal⟩
  | accept =>
    refine ⟨?_, hc.distinct, ?_⟩
    · intro c hmem
      obtain ⟨origin, hawait⟩ := hc.awaited c hmem
      have hlt : c.1 < d.tasks.length := (List.getElem?_eq_some_iff.1 hawait).1
      exact ⟨origin, by rw [List.getElem?_append_left hlt, hawait]⟩
    · intro i cmd hi
      refine hc.signal i cmd ?_
      rcases hi with hi | hi
      · rcases Runtime.getElem?_concat_some hi with hi | hi
        · exact .inl hi
        · cases hi
      · rcases Runtime.getElem?_concat_some hi with hi | hi
        · exact .inr hi
        · cases hi
  | request ht | ping ht | hangUp ht => exact hc.setPhase ht (by simp) (by simp)
  | signal ht => exact hc.setPhase ht (by simp) (by simp)
  | write ht =>
    refine hc.setPhase ht (by simp) ?_
    intro _ cmd
    split <;> simp
  | writeFails ht => exact hc.setPhase ht (by simp) (by simp)
  | notify ht =>
    have hset : Consistent (d.setPhase _ (.done true)) := hc.setPhase ht (by simp) (by simp)
    exact ⟨hset.awaited, hset.distinct, hset.signal⟩
  | @send i origin cmd ht hroom =>
    have hset : Consistent (d.setPhase i (.awaiting cmd)) := hc.setPhase ht (by simp) ?_
    · have hpending : pending { d.setPhase i (.awaiting cmd) with queue := d.queue ++ [(i, cmd)] } =
          pending d ++ [(i, cmd)] := by
        simp [pending, DaemonState.setPhase]
      have hother : ∀ c ∈ pending d, c.1 ≠ i := by
        rintro c hmem rfl
        obtain ⟨origin', hawait⟩ := hc.awaited c hmem
        rw [ht] at hawait
        cases hawait
      refine ⟨?_, ?_, hset.signal⟩
      · rw [hpending]
        intro c hmem
        rcases List.mem_append.1 hmem with hmem | hmem
        · exact hset.awaited c hmem
        · obtain rfl := List.mem_singleton.1 hmem
          exact ⟨origin, setPhase_self ht _⟩
      · rw [hpending, List.pairwise_append]
        refine ⟨hc.distinct, List.pairwise_singleton _ _, ?_⟩
        intro c hmem c' hmem'
        obtain rfl := List.mem_singleton.1 hmem'
        exact hother c hmem
    · rintro horigin cmd' (h | h)
      · cases h
      · cases h
        exact hc.signal i cmd (.inl (by rw [ht, ← horigin]))
  | take hidle hqueue =>
    refine ⟨?_, ?_, hc.signal⟩
    · rw [pending_take hidle hqueue]
      exact hc.awaited
    · rw [pending_take hidle hqueue]
      exact hc.distinct
  | @finish env i cmd asked origin hcurrent ht =>
    have hpending := pending_finish hcurrent
    have hdistinct := hpending ▸ hc.distinct
    have hawaited := hpending ▸ hc.awaited
    refine ⟨?_, (List.pairwise_cons.1 hdistinct).2, ?_⟩
    · intro c hmem
      have hne : i ≠ c.1 := (List.pairwise_cons.1 hdistinct).1 c hmem
      obtain ⟨origin', hawait⟩ := hawaited c (List.mem_cons_of_mem _ hmem)
      exact ⟨origin', (setPhase_ne hne _).trans hawait⟩
    · rintro j cmd' (hj | hj)
      · rcases setPhase_some ht hj with ⟨rfl, heq⟩ | ⟨_, hj⟩
        · cases origin <;> cases heq
        · exact hc.signal j cmd' (.inl hj)
      · rcases setPhase_some ht hj with ⟨rfl, heq⟩ | ⟨_, hj⟩
        · cases origin <;> cases heq
        · exact hc.signal j cmd' (.inr hj)
  | finishUnheard hcurrent hno =>
    have hpending := pending_finish hcurrent
    refine ⟨?_, (List.pairwise_cons.1 (hpending ▸ hc.distinct)).2, hc.signal⟩
    intro c hmem
    exact hc.awaited c (hpending ▸ List.mem_cons_of_mem _ hmem)

/-- The task whose command is being served awaits that very command. -/
theorem Consistent.current (h : Consistent d) {i : Nat} {cmd : Command}
    (hcurrent : d.current = some (i, cmd)) :
    ∃ origin, d.tasks[i]? = some ⟨origin, .awaiting cmd⟩ ∧ (origin = .signal → cmd = .shutdown) := by
  obtain ⟨origin, hawait⟩ := h.awaited (i, cmd) (by simp [pending_finish hcurrent])
  refine ⟨origin, hawait, ?_⟩
  rintro rfl
  exact h.signal i cmd (.inr hawait)

end Hwwctl.Daemon
