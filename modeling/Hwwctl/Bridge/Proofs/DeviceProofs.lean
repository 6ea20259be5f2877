import Hwwctl.Bridge.Device

/-!
# What a step of the device thread does

`ThreadSteps` lists the steps with their guards and effects.
-/

namespace Hwwctl.Bridge

open Transition

/-- The steps of the device thread. -/
inductive ThreadSteps (receiving : Bool) (t : UhidThread) : ThreadAct → UhidThread → Prop where
  | leave (h : t.phase = .checking) (hshutdown : t.shutdown = true) :
    ThreadSteps receiving t .check { t with phase := .exited }
  | goOn (h : t.phase = .checking) (hshutdown : t.shutdown = false) :
    ThreadSteps receiving t .check { t with phase := .draining }
  | write {report : Report} {queue : List Report} (h : t.phase = .draining)
    (hqueue : t.writeQueue = report :: queue) :
    ThreadSteps receiving t .write
      { t with writeQueue := queue, inputs := t.inputs ++ [report] }
  | writeFails (h : t.phase = .draining) :
    ThreadSteps receiving t .writeFails { t with phase := .exited }
  | drained (h : t.phase = .draining) (hqueue : t.writeQueue = []) :
    ThreadSteps receiving t .drained { t with phase := .polling }
  | nothing (h : t.phase = .polling) :
    ThreadSteps receiving t (.poll none) { t with phase := .sleeping }
  | output {report : Report} (h : t.phase = .polling) (hreceiving : receiving = true) :
    ThreadSteps receiving t (.poll (some report))
      { t with
        phase := .sleeping
        readQueue := t.readQueue ++ [report]
        outputs := t.outputs ++ [report] }
  | unheard {report : Report} (h : t.phase = .polling) (hreceiving : receiving = false) :
    ThreadSteps receiving t (.poll (some report))
      { t with phase := .exited, outputs := t.outputs ++ [report] }
  | pollFails (h : t.phase = .polling) :
    ThreadSteps receiving t .pollFails { t with phase := .exited }
  | wake (h : t.phase = .sleeping) : ThreadSteps receiving t .wake { t with phase := .checking }

variable {receiving : Bool} {t t' : UhidThread} {a : ThreadAct}

theorem thread_step_cases (h : t.step receiving a = some t') : ThreadSteps receiving t a t' := by
  cases a with
  | check =>
    simp only [UhidThread.step] at h
    split at h
    · cases hshutdown : t.shutdown with
      | true =>
        simp only [hshutdown, if_true, Option.some.injEq] at h
        subst h
        exact hshutdown ▸ .leave ‹_› hshutdown
      | false =>
        simp only [hshutdown, Bool.false_eq_true, if_false, Option.some.injEq] at h
        subst h
        exact hshutdown ▸ .goOn ‹_› hshutdown
    · cases h
  | write =>
    simp only [UhidThread.step] at h
    split at h <;> cases h
    exact .write ‹_› ‹_›
  | writeFails =>
    simp only [UhidThread.step] at h
    split at h <;> cases h
    exact .writeFails ‹_›
  | drained =>
    simp only [UhidThread.step] at h
    split at h <;> cases h
    exact .drained ‹_› ‹_›
  | poll output =>
    simp only [UhidThread.step] at h
    split at h
    · cases output with
      | none =>
        cases h
        exact .nothing ‹_›
      | some report =>
        cases receiving with
        | true =>
          cases h
          exact .output ‹_› rfl
        | false =>
          cases h
          exact .unheard ‹_› rfl
    · cases h
  | pollFails =>
    simp only [UhidThread.step] at h
    split at h <;> cases h
    exact .pollFails ‹_›
  | wake =>
    simp only [UhidThread.step] at h
    split at h <;> cases h
    exact .wake ‹_›

/-- A thread that has exited does nothing more. -/
theorem ThreadSteps.alive (h : ThreadSteps receiving t a t') : t.phase ≠ .exited := by
  cases h with
  | leave h | goOn h | write h | writeFails h | drained h | nothing h | output h | unheard h
  | pollFails h | wake h => simp [h]

theorem ThreadSteps.was_alive (h : ThreadSteps receiving t a t') : t.alive = true :=
  decide_eq_true h.alive

/-- The thread does not change what it is told. -/
theorem ThreadSteps.shutdown (h : ThreadSteps receiving t a t') : t'.shutdown = t.shutdown := by
  cases h with
  | _ => rfl

theorem push_phase (t : UhidThread) (data : Report) : ((t.push data).getD t).phase = t.phase := by
  rw [UhidThread.push]
  split <;> rfl

theorem push_alive (t : UhidThread) (data : Report) : ((t.push data).getD t).alive = t.alive := by
  rw [UhidThread.alive, UhidThread.alive, push_phase]

theorem push_shutdown (t : UhidThread) (data : Report) :
    ((t.push data).getD t).shutdown = t.shutdown := by
  rw [UhidThread.push]
  split <;> rfl

theorem push_outputs (t : UhidThread) (data : Report) :
    ((t.push data).getD t).outputs = t.outputs := by
  rw [UhidThread.push]
  split <;> rfl

theorem push_readQueue (t : UhidThread) (data : Report) :
    ((t.push data).getD t).readQueue = t.readQueue := by
  rw [UhidThread.push]
  split <;> rfl

/-- A thread moves reports from its queue to the device, and hands on those of the host. -/
theorem ThreadSteps.kept (h : ThreadSteps receiving t a t') :
    t'.inputs ++ t'.writeQueue = t.inputs ++ t.writeQueue ∧
      t.readQueue.length ≤ t'.readQueue.length := by
  cases h with
  | write _ hqueue => simp [hqueue]
  | output => simp
  | _ => exact ⟨rfl, Nat.le_refl _⟩

theorem push_queued (t : UhidThread) (data : Report) :
    ((t.push data).getD t).inputs ++ ((t.push data).getD t).writeQueue =
      t.inputs ++ t.writeQueue ++ if t.alive = true then [data] else [] := by
  rw [UhidThread.push]
  split
  · simp
  · simp

/-! ## What the device is given -/

/-- Of the reports that were given to the thread, in this order, it holds a beginning; while it is
alive it holds all of them. -/
structure UhidThread.Carries (t : UhidThread) (reports : List Report) : Prop where
  before : t.inputs ++ t.writeQueue <+: reports
  whole : t.alive = true → t.inputs ++ t.writeQueue = reports

theorem UhidThread.Carries.spawn : UhidThread.spawn.Carries [] :=
  ⟨List.prefix_refl _, fun _ => rfl⟩

theorem UhidThread.Carries.step {reports : List Report} (ht : t.Carries reports)
    (h : ThreadSteps receiving t a t') : t'.Carries reports := by
  have hkept := h.kept.1
  have hwhole := ht.whole h.was_alive
  exact ⟨hkept ▸ ht.before, fun _ => hkept.trans hwhole⟩

theorem UhidThread.Carries.push {reports : List Report} (ht : t.Carries reports) (data : Report) :
    ((t.push data).getD t).Carries (reports ++ [data]) := by
  have hqueued := push_queued t data
  by_cases halive : t.alive = true
  · rw [if_pos halive, ht.whole halive] at hqueued
    exact ⟨hqueued ▸ List.prefix_refl _, fun _ => hqueued⟩
  · rw [if_neg halive, List.append_nil] at hqueued
    refine ⟨hqueued ▸ ht.before.trans (List.prefix_append _ _), ?_⟩
    intro halive'
    rw [push_alive] at halive'
    exact absurd halive' halive

/-- The host takes no part in what goes to the device. -/
theorem UhidThread.Carries.readQueue {reports : List Report} (ht : t.Carries reports)
    (queue : List Report) : UhidThread.Carries { t with readQueue := queue } reports :=
  ⟨ht.before, ht.whole⟩

/-! ## The thread gets on -/

/-- How far a thread whose channel is closed is from the end of its loop. -/
def UhidThread.toExit (t : UhidThread) : Nat :=
  match t.phase with
  | .exited => 0
  | .checking => 1
  | .sleeping => 2
  | .polling => 3
  | .draining => 4 + t.writeQueue.length

/-- The next step of a thread whose device works and whose host is silent. -/
def UhidThread.next (t : UhidThread) : ThreadAct :=
  match t.phase, t.writeQueue with
  | .exited, _ | .checking, _ => .check
  | .sleeping, _ => .wake
  | .polling, _ => .poll none
  | .draining, [] => .drained
  | .draining, _ :: _ => .write

/-- Between two looks at its channel the thread gets on, and neither closes nor hands on anything. -/
theorem UhidThread.step_next (hexited : t.phase ≠ .exited) (hchecking : t.phase ≠ .checking) :
    ∃ t', t.step receiving t.next = some t' ∧ t'.phase ≠ .exited ∧ t'.toExit < t.toExit ∧
      t'.shutdown = t.shutdown ∧ t'.readQueue = t.readQueue := by
  obtain ⟨phase, shutdown, writeQueue, readQueue, inputs, outputs⟩ := t
  cases phase with
  | exited => exact absurd rfl hexited
  | checking => exact absurd rfl hchecking
  | sleeping => exact ⟨_, rfl, by simp, by simp [toExit], rfl, rfl⟩
  | polling => exact ⟨_, rfl, by simp, by simp [toExit], rfl, rfl⟩
  | draining =>
    cases writeQueue with
    | nil => exact ⟨_, rfl, by simp, by simp [toExit], rfl, rfl⟩
    | cons report queue => exact ⟨_, rfl, by simp, by simp [toExit], rfl, rfl⟩

/-- A thread whose channel is closed can get to its end. -/
theorem UhidThread.exits (receiving : Bool) (h : t.shutdown = true) : ∃ acts t',
    run (step receiving) t acts = some t' ∧ t'.phase = .exited ∧ t'.readQueue = t.readQueue := by
  obtain ⟨acts, t', -, hrun, ⟨-, hqueue⟩, hexited⟩ := exists_run_of_work
    (P := fun t' => t'.shutdown = true ∧ t'.readQueue = t.readQueue)
    (Q := fun t' => t'.phase = .exited) (fun _ => True) toExit ⟨h, rfl⟩ (by
      intro u ⟨hu, huqueue⟩ hleft
      by_cases hchecking : u.phase = .checking
      · have hstep : u.step receiving .check = some { u with phase := .exited } := by
          simp only [step, hchecking, hu, if_true]
        refine ⟨ThreadAct.check, _, trivial, hstep, ⟨hu, huqueue⟩, ?_⟩
        simp [toExit, hchecking]
      · obtain ⟨u', hstep, -, hlt, hshutdown, hqueue⟩ := u.step_next hleft hchecking
        exact ⟨_, u', trivial, hstep, ⟨hshutdown.trans hu, hqueue.trans huqueue⟩, hlt⟩)
  exact ⟨acts, t', hrun, hexited, hqueue⟩

/-- A thread that is past its look at the channel can get to its poll. -/
theorem UhidThread.polls (receiving : Bool) (h : t.phase = .draining ∨ t.phase = .polling) :
    ∃ acts t', run (step receiving) t acts = some t' ∧ t'.phase = .polling ∧
      t'.shutdown = t.shutdown := by
  obtain ⟨acts, t', -, hrun, ⟨-, hshutdown⟩, hpolling⟩ := exists_run_of_work
    (P := fun t' => (t'.phase = .draining ∨ t'.phase = .polling) ∧ t'.shutdown = t.shutdown)
    (Q := fun t' => t'.phase = .polling) (fun _ => True) toExit ⟨h, rfl⟩ (by
      intro u ⟨hu, hushutdown⟩ hleft
      have hdraining : u.phase = .draining := hu.resolve_right hleft
      cases hqueue : u.writeQueue with
      | nil =>
        have hstep : u.step receiving .drained = some { u with phase := .polling } := by
          simp only [step, hdraining, hqueue]
        refine ⟨ThreadAct.drained, _, trivial, hstep, ⟨.inr rfl, hushutdown⟩, ?_⟩
        simp [toExit, hdraining, hqueue]
      | cons report queue =>
        have hstep : u.step receiving .write =
            some { u with writeQueue := queue, inputs := u.inputs ++ [report] } := by
          simp only [step, hdraining, hqueue]
        refine ⟨ThreadAct.write, _, trivial, hstep, ⟨.inl hdraining, hushutdown⟩, ?_⟩
        simp [toExit, hdraining, hqueue])
  exact ⟨acts, t', hrun, hpolling, hshutdown⟩

end Hwwctl.Bridge
