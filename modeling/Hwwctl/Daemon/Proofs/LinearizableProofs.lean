import Hwwctl.Daemon.Observed
import Hwwctl.Daemon.Proofs.RunProofs

/-!
# The daemon is linearizable

A request takes effect when the registry is done with its command, a `Ping` when it is read. The
phase of a task says how far its operation is.
-/

namespace Hwwctl.Daemon

open Control Linearizable

/-- How far the operation of a task is. After the response was written, or could not be, the
status does not matter any more. -/
def Matches : Option Task → Status Request Response → Prop
  | none, st => st = .fresh
  | some t, st =>
    match t.phase with
    | .reading => st = .fresh
    | .sending cmd | .awaiting cmd => ∃ req, st = .pending req ∧ toCommand req = some cmd
    | .writing _ response => st = .answered response
    | .notifying | .done _ => True

/-- The atomic object stands where the daemon stands. -/
structure Mirrors (info : PongInfo) (d : DaemonState)
    (x : Atomic RegistryState Request Response) : Prop where
  info : d.info = info
  registry : x.obj = d.registry
  status : ∀ i, Matches d.tasks[i]? (x.status i)
  consistent : Consistent d

variable {info : PongInfo} {d d' : DaemonState} {x : Atomic RegistryState Request Response}

theorem Mirrors.init (info : PongInfo) : Mirrors info (.init info) (.start .init) := by
  refine ⟨rfl, rfl, ?_, Consistent.init info⟩
  intro i
  cases i with
  | zero => exact rfl
  | succ i => exact rfl

/-- A task and its operation move on together. -/
theorem matches_setPhase {i : Nat} {t : Task} {phase : Phase} {st : Status Request Response}
    (h : ∀ j, Matches d.tasks[j]? (x.status j)) (ht : d.tasks[i]? = some t)
    (hst : Matches (some { t with phase := phase }) st) (j : Nat) :
    Matches (d.setPhase i phase).tasks[j]? ((x.setStatus i st).status j) := by
  by_cases hij : i = j
  · subst hij
    rw [setPhase_self ht, x.setStatus_self]
    exact hst
  · rw [setPhase_ne hij, x.setStatus_ne (Ne.symm hij)]
    exact h j

/-- A task moves on and its operation stays as far as it is. -/
theorem matches_setPhase_stay {i : Nat} {t : Task} {phase : Phase}
    (h : ∀ j, Matches d.tasks[j]? (x.status j)) (ht : d.tasks[i]? = some t)
    (hst : Matches (some { t with phase := phase }) (x.status i)) (j : Nat) :
    Matches (d.setPhase i phase).tasks[j]? (x.status j) := by
  by_cases hij : i = j
  · subst hij
    rw [setPhase_self ht]
    exact hst
  · rw [setPhase_ne hij]
    exact h j

theorem matches_append {tasks : List Task} {origin : Origin}
    (h : ∀ j, Matches tasks[j]? (x.status j)) (j : Nat) :
    Matches (tasks ++ [⟨origin, .reading⟩])[j]? (x.status j) := by
  have hj := h j
  rcases Nat.lt_trichotomy j tasks.length with hlt | rfl | hgt
  · rw [List.getElem?_append_left hlt]
    exact hj
  · rw [List.getElem?_eq_none le_rfl] at hj
    rw [List.getElem?_concat_length]
    exact hj
  · rw [List.getElem?_eq_none (by omega)] at hj
    rw [List.getElem?_eq_none (by simp; omega)]
    exact hj

/-- What the registry answers settles the operation whose command it served. -/
theorem Mirrors.finish {env : CommandEnv} {i : Nat} {cmd asked : Command} {origin : Origin}
    (h : Mirrors info d x) (hcurrent : d.current = some (i, cmd))
    (ht : d.tasks[i]? = some ⟨origin, .awaiting asked⟩)
    (hc : Consistent { d.setPhase i (afterReply origin asked (serve env cmd d.registry).1) with
      current := none, registry := (serve env cmd d.registry).2 }) :
    ∃ ms x', Atomic.Runs (Serves info) x ms x' ∧ events ms = [] ∧
      Mirrors info { d.setPhase i (afterReply origin asked (serve env cmd d.registry).1) with
        current := none, registry := (serve env cmd d.registry).2 } x' := by
  -- the reply is to the very command that the task awaits
  obtain ⟨origin', hawait, -⟩ := h.consistent.current hcurrent
  rw [ht] at hawait
  cases hawait
  obtain ⟨req, hpending, hreq⟩ : ∃ req, x.status i = .pending req ∧ toCommand req = some cmd := by
    have hmatch := h.status i
    rw [ht] at hmatch
    exact hmatch
  have hserves : Serves info req x.obj (respond (serve env cmd d.registry).1)
      (serve env cmd d.registry).2 := h.registry ▸ Serves.command hreq env
  refine ⟨[.effect i req _], _, (Atomic.Moves.effect hpending hserves).runs, rfl, ?_⟩
  refine ⟨h.info, rfl, ?_, hc⟩
  refine matches_setPhase h.status ht ?_
  cases origin with
  | signal => exact trivial
  | client => exact rfl

theorem Mirrors.fresh {i : Nat} {origin : Origin} (h : Mirrors info d x)
    (ht : d.tasks[i]? = some ⟨origin, .reading⟩) : x.status i = .fresh := by
  have hmatch := h.status i
  rw [ht] at hmatch
  exact hmatch

theorem Steps.mirrors {a : Act} (hstep : Steps d a d') (h : Mirrors info d x) :
    ∃ ms x', Atomic.Runs (Serves info) x ms x' ∧ events ms = shown d a ∧ Mirrors info d' x' := by
  have hc := hstep.consistent h.consistent
  cases hstep with
  | select | notified | acceptFails | returns | take =>
    exact ⟨[], x, .nil, rfl, h.info, h.registry, h.status, hc⟩
  | accept => exact ⟨[], x, .nil, rfl, h.info, h.registry, matches_append h.status, hc⟩
  | @request i req cmd ht hreq =>
    have hcall : Atomic.Moves (Serves info) x (.call i req) _ := .call (h.fresh ht)
    refine ⟨[.call i req], _, hcall.runs, rfl, h.info, h.registry, ?_, hc⟩
    exact matches_setPhase h.status ht ⟨req, rfl, hreq⟩
  | @ping i req ht hreq =>
    -- the daemon answers on the spot: call and effect are one step
    have hcall : Atomic.Moves (Serves info) x (.call i req) _ := .call (h.fresh ht)
    have heffect := Atomic.Moves.effect (x.setStatus_self i (.pending req))
      (.ping hreq : Serves info req x.obj _ _)
    rw [x.setStatus_setStatus] at heffect
    have hruns := hcall.runs.append heffect.runs
    refine ⟨_, _, hruns, rfl, h.info, h.registry, ?_, hc⟩
    exact matches_setPhase h.status ht (congrArg _ (congrArg _ h.info.symm))
  | signal ht =>
    have hcall : Atomic.Moves (Serves info) x (.call _ .shutdown) _ := .call (h.fresh ht)
    refine ⟨[.call _ .shutdown], _, hcall.runs, rfl, h.info, h.registry, ?_, hc⟩
    exact matches_setPhase h.status ht ⟨.shutdown, rfl, rfl⟩
  | @send i origin cmd ht hroom =>
    have hmatch := h.status i
    rw [ht] at hmatch
    exact ⟨[], x, .nil, rfl, h.info, h.registry, matches_setPhase_stay h.status ht hmatch, hc⟩
  | finish hcurrent ht => exact h.finish hcurrent ht hc
  | finishUnheard hcurrent hno =>
    obtain ⟨origin, hawait, -⟩ := h.consistent.current hcurrent
    exact absurd hawait (hno _ _)
  | @write i origin isShutdown response ht =>
    have hanswered : x.status i = .answered response := by
      have hmatch := h.status i
      rw [ht] at hmatch
      exact hmatch
    have hret : Atomic.Moves (Serves info) x (.ret i response) _ := .ret hanswered
    refine ⟨[.ret i response], _, hret.runs, ?_, h.info, h.registry, ?_, hc⟩
    · simp only [shown, ht]
      rfl
    · refine matches_setPhase h.status ht ?_
      cases isShutdown <;> exact trivial
  | hangUp ht | writeFails ht | notify ht =>
    exact ⟨[], x, .nil, rfl, h.info, h.registry, matches_setPhase_stay h.status ht trivial, hc⟩

theorem simulates_atomic (info : PongInfo) :
    Simulates (Serves info) DaemonState.step shown (Mirrors info) := by
  intro d a d' x h hstep
  exact (step_cases hstep).2.mirrors h

/-- Whatever the tasks, the queue and the registry do in whatever order, the clients see a daemon
that serves their requests one at a time, each at some moment between its call and its return, and
the registry is where these requests lead it. -/
theorem observed_linearizes {info : PongInfo} {acts : List Act} {d : DaemonState}
    (hrun : Transition.run DaemonState.step (.init info) acts = some d) :
    ∃ lin, Linearizes (Serves info) .init (DaemonState.observed (.init info) acts) lin
      d.registry := by
  obtain ⟨lin, x, hlin, hmirrors⟩ := (simulates_atomic info).linearizes (Mirrors.init info) hrun
  exact ⟨lin, hmirrors.registry ▸ hlin⟩

def quietInfo : PongInfo := ⟨"0.1.0", 1, 4242⟩

/-- The second client asks later and is served first. -/
def overtaking : List Act :=
  [.select, .accept, .select, .accept, .request 1 .shutdown, .request 2 (.status none), .send 2,
    .send 1, .take, .finish readyEnv, .take, .finish readyEnv, .write 1, .write 2]

theorem observed_linearizes_overtaking :
    ∃ d lin, Linearizes (Serves quietInfo) .init (DaemonState.observed (.init quietInfo) overtaking)
      lin d.registry ∧ Transition.run DaemonState.step (.init quietInfo) overtaking = some d := by
  have hruns : (Transition.run DaemonState.step (.init quietInfo) overtaking).isSome := by
    decide +kernel
  have hrun := (Option.some_get hruns).symm
  obtain ⟨lin, hlin⟩ := observed_linearizes hrun
  exact ⟨_, lin, hlin, hrun⟩

end Hwwctl.Daemon
