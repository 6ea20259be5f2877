import Hwwctl.Daemon.Proofs.RunProofs

/-!
# Is the shutdown notification heard?

A task that handles a `Shutdown` or the termination signal ends by notifying the loop, or, when the
reply cannot be written, without. The loop hears of it when a `Notified` exists at that moment and
the round it belongs to is not decided for the accept branch.
-/

namespace Hwwctl.Daemon

open Control Transition

/-- Some task has handled a `Shutdown` or the signal, and is done. -/
def Handled (d : DaemonState) : Prop := ∃ (i : Nat) (t : Task), d.tasks[i]? = some t ∧ t.phase = .done true

/-- The loop waits on, with no notification on its way to it. -/
def Lost (d : DaemonState) : Prop := Handled d ∧ d.loop = .selecting false

/-- The step ends the task of a `Shutdown` or of the signal. -/
def EndsHandling (d : DaemonState) : Act → Prop
  | .notify _ => True
  | .writeFails i => ∃ origin response, d.tasks[i]? = some ⟨origin, .writing true response⟩
  | _ => False

/-- What keeps the notification from getting lost. -/
def Heard (d : DaemonState) : Act → Prop
  | .notify _ => d.loop ≠ .between
  | .writeFails i => ∀ origin response, d.tasks[i]? = some ⟨origin, .writing true response⟩ →
      d.loop ≠ .between ∧ d.loop ≠ .selecting false
  | .accept => d.loop ≠ .selecting true
  | _ => True

variable {d d' : DaemonState} {a : Act} {i : Nat} {phase : Phase} {t : Task}

theorem handled_setPhase (h : d.tasks[i]? = some t) (hbefore : t.phase ≠ .done true)
    (htasks : d'.tasks = (d.setPhase i phase).tasks) :
    Handled d' ↔ Handled d ∨ phase = .done true := by
  unfold Handled
  rw [htasks, exists_phase_setPhase h]
  constructor
  · rintro (hP | ⟨j, u, -, hu, hP⟩)
    · exact .inr hP
    · exact .inl ⟨j, u, hu, hP⟩
  · rintro (⟨j, u, hu, hP⟩ | hP)
    · refine .inr ⟨j, u, ?_, hu, hP⟩
      rintro rfl
      rw [h] at hu
      cases hu
      exact hbefore hP
    · exact .inl hP

theorem afterReply_ne_done {origin : Origin} {cmd : Command} {reply : Reply} {b : Bool} :
    afterReply origin cmd reply ≠ .done b := by
  cases origin <;> simp [afterReply]

theorem handled_accept (h : t.phase ≠ .done true) (htasks : d'.tasks = d.tasks ++ [t]) :
    Handled d' ↔ Handled d := by
  unfold Handled
  rw [htasks]
  constructor
  · rintro ⟨j, u, hu, hP⟩
    rcases Runtime.getElem?_concat_some hu with hu | rfl
    · exact ⟨j, u, hu, hP⟩
    · exact absurd hP h
  · rintro ⟨j, u, hu, hP⟩
    have hj : j < d.tasks.length := (List.getElem?_eq_some_iff.1 hu).1
    exact ⟨j, u, by rw [List.getElem?_append_left hj, hu], hP⟩

/-- A step changes the tasks that are done with a shutdown by the one it ends. -/
theorem Steps.handled (h : Steps d a d') : Handled d' ↔ Handled d ∨ EndsHandling d a := by
  cases h with
  | select | notified | acceptFails | returns | take | finishUnheard =>
    simp [Handled, EndsHandling]
  | accept =>
    refine (handled_accept (t := ⟨.client, .reading⟩) (by simp) rfl).trans ?_
    simp [EndsHandling]
  | request ht _ | ping ht | hangUp ht | signal ht | send ht _ =>
    refine (handled_setPhase ht (by simp) rfl).trans ?_
    simp [EndsHandling]
  | finish _ ht =>
    refine (handled_setPhase ht (by simp) rfl).trans ?_
    simp [EndsHandling, afterReply_ne_done]
  | @write i _ isShutdown _ ht =>
    refine (handled_setPhase ht (by simp) rfl).trans ?_
    cases isShutdown <;> simp [EndsHandling]
  | @writeFails i _ isShutdown _ ht =>
    refine (handled_setPhase ht (by simp) rfl).trans ?_
    cases isShutdown <;> simp [EndsHandling, ht]
  | notify ht =>
    refine (handled_setPhase ht (by simp) rfl).trans ?_
    simp [EndsHandling]

/-- While a shutdown has been handled, the loop is out or on its way out. -/
def Informed (d : DaemonState) : Prop :=
  Handled d → d.loop ≠ .between ∧ d.loop ≠ .selecting false

theorem Steps.informed (h : Steps d a d') (hinf : Informed d) (hheard : Heard d a) :
    Informed d' := by
  intro hhandled
  have hcases := h.handled.1 hhandled
  cases h with
  | select hloop =>
    rcases hcases with hold | hno
    · exact absurd hloop (hinf hold).1
    · exact hno.elim
  | notified | acceptFails | returns => exact ⟨by simp, by simp⟩
  | @accept n hloop =>
    rcases hcases with hold | hno
    · cases n with
      | false => exact absurd hloop (hinf hold).2
      | true => exact absurd hloop hheard
    · exact hno.elim
  | request | ping | hangUp | signal | send | take | finish | finishUnheard | write =>
    rcases hcases with hold | hno
    · exact hinf hold
    · exact hno.elim
  | writeFails ht =>
    rcases hcases with hold | ⟨origin, response, hwriting⟩
    · exact hinf hold
    · exact hheard origin response hwriting
  | notify =>
    cases hloop : d.loop with
    | between => exact absurd hloop hheard
    | selecting n | leaving | returned => exact ⟨by simp [notifyWaiters], by simp [notifyWaiters]⟩

/-- A notification that is on its way comes from a handled shutdown. -/
theorem Steps.notified_handled (h : Steps d a d') (hinv : d.loop = .selecting true → Handled d) :
    d'.loop = .selecting true → Handled d' := by
  intro hloop
  rw [h.handled]
  cases h with
  | select | notified | acceptFails | returns | accept => cases hloop
  | notify => exact .inr trivial
  | _ => exact .inl (hinv hloop)

/-- A step that is not heard leaves the loop listening for a shutdown that has been handled. -/
theorem Steps.unheard (h : Steps d a d') (hinv : d.loop = .selecting true → Handled d)
    (hheard : ¬ Heard d a) : Handled d' ∧ (d'.loop = .between ∨ d'.loop = .selecting false) := by
  rw [h.handled]
  cases h with
  | @accept n hloop =>
    have hnotified : d.loop = .selecting true := not_not.1 hheard
    exact ⟨.inl (hinv hnotified), .inl rfl⟩
  | @writeFails i origin isShutdown response ht =>
    simp only [Heard, not_forall] at hheard
    obtain ⟨origin, response, hwriting, hloop⟩ := hheard
    refine ⟨.inr ⟨origin, response, hwriting⟩, ?_⟩
    by_cases hbetween : d.loop = .between
    · exact .inl hbetween
    · refine .inr (not_not.1 ?_)
      intro hsel
      exact hloop ⟨hbetween, hsel⟩
  | notify =>
    have hbetween : d.loop = .between := not_not.1 hheard
    exact ⟨.inr trivial, .inl (by simp [notifyWaiters, hbetween])⟩
  | _ => exact absurd trivial hheard

/-- In no state of a run, nor when the loop goes on from there to its next round, does the loop wait
for a shutdown that has been handled, exactly when every step of the run is heard. -/
theorem never_lost_iff (info : PongInfo) (acts : List Act) :
    Always DaemonState.step
      (fun d => ¬ Lost d ∧ ∀ d', d.step .select = some d' → ¬ Lost d') (.init info) acts ↔
    Guarded DaemonState.step Heard (.init info) acts := by
  constructor
  · intro hnever p a hp d d' hrun hstep
    have hinv : Always DaemonState.step (fun d => d.loop = .selecting true → Handled d)
        (.init info) acts :=
      always_of_step (fun h => by cases h) fun d a d' hd hstep =>
        (step_cases hstep).2.notified_handled hd
    by_contra hheard
    obtain ⟨hreturned, hsteps⟩ := step_cases hstep
    obtain ⟨hhandled, hloop⟩ :=
      hsteps.unheard (hinv p ((List.prefix_append _ _).trans hp) d hrun) hheard
    have hrun' : run DaemonState.step (.init info) (p ++ [a]) = some d' := by
      rw [run_concat, hrun]
      exact hstep
    obtain ⟨hnow, hnext⟩ := hnever _ hp d' hrun'
    rcases hloop with hbetween | hselecting
    · refine hnext { d' with loop := .selecting false } ?_ ⟨hhandled, rfl⟩
      simp [DaemonState.step, DaemonState.stepRunning, hbetween]
    · exact hnow ⟨hhandled, hselecting⟩
  · intro hguard
    have hinf : Always DaemonState.step Informed (.init info) acts := by
      refine hguard.always ?_ ?_
      · rintro ⟨i, t, ht, hphase⟩
        obtain rfl := List.mem_singleton.1 (List.mem_of_getElem? ht)
        cases hphase
      · intro d a d' hd hheard hstep
        exact (step_cases hstep).2.informed hd hheard
    refine hinf.mono ?_
    intro d hd
    refine ⟨fun hlost => (hd hlost.1).2 hlost.2, ?_⟩
    rintro d' hstep ⟨hhandled, -⟩
    obtain ⟨-, hsteps⟩ := step_cases hstep
    cases hsteps with
    | select hloop => exact (hd hhandled).1 hloop

/-- The client that asked for the shutdown is gone before its reply is written. -/
def goneClient : List Act :=
  [.select, .accept, .select, .request 1 .shutdown, .send 1, .take, .finish readyEnv, .writeFails 1]

theorem lost_goneClient :
    ∃ d, run DaemonState.step (.init ⟨"0.1.4", 1, 1⟩) goneClient = some d ∧ Lost d :=
  ⟨_, rfl, ⟨1, _, rfl, rfl⟩, rfl⟩

end Hwwctl.Daemon
