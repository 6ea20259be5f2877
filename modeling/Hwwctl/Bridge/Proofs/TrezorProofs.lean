import Hwwctl.Bridge.Proofs.SessionsProofs
import Hwwctl.Bridge.Trezor
import Hwwctl.Library.Execution

/-!
# What goes on after the Trezor bridge is stopped

The thread goes round its loop whether its channel is closed or not, so `stop` closes the device
only when the thread had ended by itself. The tasks follow the thread.
-/

namespace Hwwctl.Bridge

open Transition

variable {decode : Report → Option String}

/-! ## The thread -/

theorem trezorStep_eq {receiving : Bool} {t : UhidThread} {a : ThreadAct} (h : a ≠ .check) :
    t.trezorStep receiving a = t.step receiving a := by
  cases a with
  | check => exact absurd rfl h
  | _ => rfl

/-- A dropped sender does not end the loop. -/
theorem trezorStep_check {receiving : Bool} {t t' : UhidThread}
    (h : t.trezorStep receiving .check = some t') :
    t.phase = .checking ∧ t' = { t with phase := .draining } := by
  simp only [UhidThread.trezorStep] at h
  split at h
  · have hrecv : t.tryRecv ≠ .ok := by
      rw [UhidThread.tryRecv]
      split <;> simp
    rw [if_neg hrecv] at h
    exact ⟨‹_›, (Option.some.inj h).symm⟩
  · cases h

/-- The steps of the thread. -/
inductive TrezorThreadSteps (receiving : Bool) (t : UhidThread) : ThreadAct → UhidThread → Prop where
  | check (h : t.phase = .checking) :
    TrezorThreadSteps receiving t .check { t with phase := .draining }
  | works {a : ThreadAct} {t' : UhidThread} (ha : a ≠ .check) (h : ThreadSteps receiving t a t') :
    TrezorThreadSteps receiving t a t'

theorem trezorThread_step_cases {receiving : Bool} {t t' : UhidThread} {a : ThreadAct}
    (h : t.trezorStep receiving a = some t') : TrezorThreadSteps receiving t a t' := by
  by_cases ha : a = .check
  · subst ha
    obtain ⟨hphase, rfl⟩ := trezorStep_check h
    exact .check hphase
  · rw [trezorStep_eq ha] at h
    exact .works ha (thread_step_cases h)

theorem TrezorThreadSteps.alive {receiving : Bool} {t t' : UhidThread} {a : ThreadAct}
    (h : TrezorThreadSteps receiving t a t') : t.phase ≠ .exited := by
  cases h with
  | check h => simp [h]
  | works _ h => exact h.alive

/-- How far the thread is from its next poll. -/
def UhidThread.toPoll (t : UhidThread) : Nat :=
  match t.phase with
  | .polling => 0
  | .draining => 1 + t.writeQueue.length
  | .checking => 2 + t.writeQueue.length
  | .sleeping | .exited => 3 + t.writeQueue.length

/-- A thread whose device works and whose host is silent comes back to its poll for ever. -/
theorem trezorStep_next (receiving : Bool) {t : UhidThread} (h : t.phase ≠ .exited) :
    ∃ t', t.trezorStep receiving t.next = some t' ∧ t'.phase ≠ .exited ∧
      (t.next = .poll none ∨ t'.toPoll < t.toPoll) := by
  obtain ⟨phase, shutdown, writeQueue, readQueue, inputs, outputs⟩ := t
  cases phase with
  | exited => exact absurd rfl h
  | checking =>
    cases shutdown with
    | false | true =>
      refine ⟨_, rfl, by simp [UhidThread.tryRecv], .inr ?_⟩
      simp [UhidThread.toPoll, UhidThread.tryRecv]
  | sleeping => exact ⟨_, rfl, by simp, .inr (by simp [UhidThread.toPoll])⟩
  | polling => exact ⟨_, rfl, by simp, .inl rfl⟩
  | draining =>
    cases writeQueue with
    | nil => exact ⟨_, rfl, by simp, .inr (by simp [UhidThread.toPoll])⟩
    | cons report queue => exact ⟨_, rfl, by simp, .inr (by simp [UhidThread.toPoll])⟩

/-! ## The relay -/

/-- The thread polls the device. -/
def TrezorAct.Polls : TrezorAct → Prop
  | .thread (.poll _) => True
  | _ => False

/-- Task B sends a report to the emulator. -/
def TrezorAct.Forwards : TrezorAct → Prop
  | .sent => True
  | _ => False

/-- There is no execution in which the thread keeps polling or task B keeps forwarding. -/
def TrezorRelay.Closes (decode : Report → Option String) (s : TrezorRelay) : Prop :=
  ¬ Keeps (step decode) TrezorAct.Polls s ∧ ¬ Keeps (step decode) TrezorAct.Forwards s

/-- The report in task B's hands. -/
def TrezorTaskB.left : TrezorTaskB → Nat
  | .sending _ => 1
  | _ => 0

/-- How much task B has to do once the thread has ended. -/
def TrezorRelay.left (s : TrezorRelay) : Nat := 2 * s.thread.readQueue.length + s.taskB.left

variable {s s' : TrezorRelay} {a : TrezorAct}

/-- The steps of the relay. -/
inductive TrezorSteps (decode : Report → Option String) (s : TrezorRelay) :
    TrezorAct → TrezorRelay → Prop where
  | thread {a : ThreadAct} {t : UhidThread}
    (h : TrezorThreadSteps (s.taskB ≠ .ended) s.thread a t) :
    TrezorSteps decode s (.thread a) { s with thread := t }
  | received {datagram : List UInt8} (h : s.taskA = .receiving) :
    TrezorSteps decode s (.received datagram)
      { s.emit decode .deviceToHost (datagram.take trezorReportSize) with
        thread := (s.thread.push (datagram.take trezorReportSize)).getD s.thread }
  | recvFails (h : s.taskA = .receiving) :
    TrezorSteps decode s .recvFails { s with taskA := .ended }
  | shutdownA (h : s.taskA = .receiving) (hclosed : s.shutdownA = true) :
    TrezorSteps decode s .shutdownA { s with taskA := .ended }
  | take {report : Report} {queue : List Report} (h : s.taskB = .waiting)
    (hqueue : s.thread.readQueue = report :: queue) :
    TrezorSteps decode s .take { s.emit decode .hostToDevice report with
      taskB := .sending report, thread := { s.thread with readQueue := queue } }
  | sent {report : Report} (h : s.taskB = .sending report) :
    TrezorSteps decode s .sent { s with taskB := .waiting, sent := s.sent ++ [report] }
  | sendFails {report : Report} (h : s.taskB = .sending report) :
    TrezorSteps decode s .sendFails { s with taskB := .waiting }
  | closed (h : s.taskB = .waiting) (hqueue : s.thread.readQueue = [])
    (hexited : s.thread.alive = false) :
    TrezorSteps decode s .closed { s with taskB := .ended }

theorem trezor_step_cases (h : s.step decode a = some s') : TrezorSteps decode s a s' := by
  cases a with
  | thread a =>
    obtain ⟨t, ht, rfl⟩ := Option.map_eq_some_iff.1 h
    exact .thread (trezorThread_step_cases ht)
  | received datagram =>
    simp only [TrezorRelay.step] at h
    split at h <;> cases h
    exact .received ‹_›
  | recvFails =>
    simp only [TrezorRelay.step] at h
    split at h <;> cases h
    exact .recvFails ‹_›
  | shutdownA =>
    simp only [TrezorRelay.step] at h
    split at h
    · split at h <;> cases h
      exact .shutdownA ‹_› ‹_›
    · cases h
  | take =>
    simp only [TrezorRelay.step] at h
    split at h <;> cases h
    exact .take ‹_› ‹_›
  | sent =>
    simp only [TrezorRelay.step] at h
    split at h <;> cases h
    exact .sent ‹_›
  | sendFails =>
    simp only [TrezorRelay.step] at h
    split at h <;> cases h
    exact .sendFails ‹_›
  | closed =>
    simp only [TrezorRelay.step] at h
    split at h
    · split at h
      · cases h
      · rename_i hexited
        cases h
        exact .closed ‹_› ‹_› (Bool.eq_false_iff.2 hexited)
    · cases h

/-- Once the thread has ended, task B runs out of reports. -/
theorem TrezorSteps.exited (h : TrezorSteps decode s a s') (hs : s.thread.phase = .exited) :
    s'.thread.phase = .exited ∧ s'.left ≤ s.left ∧ ¬ a.Polls ∧ (a.Forwards → s'.left < s.left) := by
  cases h with
  | thread h => exact absurd hs h.alive
  | received =>
    refine ⟨(push_phase _ _).trans hs, ?_, id, False.elim⟩
    simp only [TrezorRelay.left, push_readQueue, TrezorRelay.emit, Nat.le_refl]
  | recvFails | shutdownA => exact ⟨hs, Nat.le_refl _, id, False.elim⟩
  | take h hqueue =>
    refine ⟨hs, ?_, id, False.elim⟩
    simp only [TrezorRelay.left, TrezorTaskB.left, h, hqueue, List.length_cons]
    omega
  | sent h =>
    have hlt : 2 * s.thread.readQueue.length + 0 < s.left := by
      simp only [TrezorRelay.left, TrezorTaskB.left, h]
      omega
    exact ⟨hs, Nat.le_of_lt hlt, id, fun _ => hlt⟩
  | sendFails h | closed h =>
    refine ⟨hs, ?_, id, False.elim⟩
    simp only [TrezorRelay.left, TrezorTaskB.left, h]
    omega

theorem closes_of_exited (hs : s.thread.phase = .exited) : s.Closes decode :=
  ⟨not_keeps_of_measure (I := fun s => s.thread.phase = .exited) TrezorRelay.left hs
      fun _ _ _ hs ha => by
        obtain ⟨hexited, hle, hpolls, -⟩ := (trezor_step_cases ha).exited hs
        exact ⟨hexited, hle, fun h => absurd h hpolls⟩,
    not_keeps_of_measure (I := fun s => s.thread.phase = .exited) TrezorRelay.left hs
      fun _ _ _ hs ha => by
        obtain ⟨hexited, hle, -, hforwards⟩ := (trezor_step_cases ha).exited hs
        exact ⟨hexited, hle, hforwards⟩⟩

theorem keeps_polling (hs : s.thread.phase ≠ .exited) :
    Keeps (TrezorRelay.step decode) TrezorAct.Polls s := by
  refine keeps_of_scheduler (I := fun s => s.thread.phase ≠ .exited)
    (fun s => .thread s.thread.next) (fun s => s.thread.toPoll) hs fun s hs => ?_
  obtain ⟨t, ht, hexited, hnext⟩ := trezorStep_next (s.taskB ≠ .ended) hs
  have hstep : s.step decode (.thread s.thread.next) = some { s with thread := t } := by
    rw [TrezorRelay.step, ht]
    rfl
  refine ⟨_, hstep, hexited, ?_⟩
  rcases hnext with hpoll | hlt
  · refine .inl ?_
    rw [hpoll]
    trivial
  · exact .inr hlt

/-- Stopping a start closes its device exactly when the device's thread had ended by itself. -/
theorem closes_stop_iff : s.stop.Closes decode ↔ s.thread.phase = .exited := by
  constructor
  · intro h
    by_contra hs
    exact h.1 (keeps_polling hs)
  · exact fun hs => closes_of_exited hs

/-! ## The bridge -/

theorem TrezorBridge.kind_lawful (decode : Report → Option String) :
    (TrezorBridge.kind decode).Lawful where
  start := rfl
  step := by
    intro s a s' h hs'
    by_contra hnot
    have hs : ¬ s.thread.alive = true := hnot
    have hexited : s.thread.phase = .exited := by simpa [UhidThread.alive] using hs
    have hexited' := ((trezor_step_cases h).exited hexited).1
    have halive : s'.thread.alive = true := hs'
    simp [UhidThread.alive, hexited'] at halive
  stop _ := rfl

/-- What the steps of a relay tell of its device; no stop waits for it. -/
def TrezorBridge.events : DeviceEvents TrezorAct where
  thread
    | .thread a => some a
    | _ => none
  unheard _ := false
  closes := false

theorem TrezorThreadSteps.ends_iff {receiving : Bool} {t t' : UhidThread} {a : ThreadAct}
    (h : TrezorThreadSteps receiving t a t') :
    t'.alive = false ↔ a = .writeFails ∨ a = .pollFails ∨
      ∃ report, a = .poll (some report) ∧ receiving = false := by
  cases h with
  | check => simp [UhidThread.alive]
  | works ha h =>
    cases h with
    | leave | goOn => exact absurd rfl ha
    | writeFails | pollFails => simp [UhidThread.alive]
    | unheard _ hreceiving | output _ hreceiving => simp [UhidThread.alive, hreceiving]
    | drained | nothing | wake => simp [UhidThread.alive]
    | write hphase => simp [UhidThread.alive, hphase]

theorem TrezorSteps.unheard_iff (h : TrezorSteps decode s a s') (halive : s'.thread.alive = true) :
    s'.taskB = .ended ↔ s.taskB = .ended := by
  cases h with
  | take h | sent h | sendFails h => simp [h]
  | closed _ _ hexited =>
    rw [hexited] at halive
    cases halive
  | _ => rfl

theorem TrezorSteps.alive_iff (h : TrezorSteps decode s a s') (halive : s.thread.alive = true) :
    s'.thread.alive = false ↔ TrezorBridge.events.thread a = some .writeFails ∨
      TrezorBridge.events.thread a = some .pollFails ∨
      ∃ report, TrezorBridge.events.thread a = some (.poll (some report)) ∧ s.taskB = .ended := by
  cases h with
  | thread h => simpa [TrezorBridge.events] using h.ends_iff
  | received => simp [TrezorBridge.events, push_alive, halive]
  | take => simpa [TrezorBridge.events, UhidThread.alive] using halive
  | _ => simp [TrezorBridge.events, halive]

/-- The events of the Trezor bridge bear on its relays; nothing tells their threads to end. -/
def TrezorBridge.told (decode : Report → Option String) :
    (TrezorBridge.kind decode).Told TrezorBridge.events where
  told _ := False
  unheard s := s.taskB = .ended
  start_told := id
  start_unheard := by simp [kind, TrezorRelay.start]
  awaited hcloses := by cases hcloses
  stop _ _ := ⟨Iff.rfl, Iff.rfl⟩
  step_told _ _ _ _ := id
  step_unheard := by
    intro s a s' h _ halive
    rw [(trezor_step_cases h).unheard_iff halive]
    simp [events]
  step_alive := by
    intro s a s' h _ halive
    exact (trezor_step_cases h).alive_iff halive

/-- In every state of a bridge, `stop` closes the devices of all starts so far exactly when their
threads had ended by themselves; and along every run of starts, stops and other steps the bridge has
at most one device exactly when, whenever a start passes the flag, the thread of each device created
before has ended by itself. -/
theorem trezor_stop_iff (decode : Report → Option String) (b : BridgeState TrezorRelay)
    (acts : List (BridgeAct TrezorAct)) :
    ((∀ s ∈ b.sessions, s.stop.Closes decode) ↔ ∀ s ∈ b.sessions, s.thread.phase = .exited) ∧
      ((run (BridgeState.step (TrezorBridge.kind decode)) .new acts).isSome →
        (Always (BridgeState.step (TrezorBridge.kind decode))
            (fun b => b.live (TrezorBridge.kind decode) ≤ 1) .new acts ↔
          ∀ p, p ++ [.start true] <+: acts → Passes TrezorAct.clearsRunning p →
            ∀ i < devices TrezorAct.clearsRunning p, ∃ c, .session i c ∈ p ∧
              (c = .thread .writeFails ∨ c = .thread .pollFails))) := by
  refine ⟨forall₂_congr fun s _ => closes_stop_iff, fun hrun => ?_⟩
  obtain ⟨b', hb'⟩ := Option.isSome_iff_exists.1 hrun
  rw [live_le_one_iff_replacesEnded (TrezorBridge.kind_lawful decode) (TrezorBridge.told decode)
    hb']
  have hitself : ∀ p i, (ClosedByStop TrezorAct.clearsRunning TrezorBridge.events p i ∨
      EndsItself TrezorBridge.events p i) ↔ ∃ c, .session i c ∈ p ∧
        (c = .thread .writeFails ∨ c = .thread .pollFails) := by
    intro p i
    have hthread : ∀ (c : TrezorAct) (a : ThreadAct),
        TrezorBridge.events.thread c = some a ↔ c = .thread a := by
      intro c a
      cases c <;> simp [TrezorBridge.events]
    simp only [ClosedByStop, EndsItself, hthread]
    simp [TrezorBridge.events]
  exact forall₃_congr fun p _ _ => forall₂_congr fun i _ => hitself p i

/-- A device breaks before the bridge is started again. -/
def brokenAndStarted : List (BridgeAct TrezorAct) :=
  [.start true, .session 0 (.thread .check), .session 0 (.thread .drained),
    .session 0 (.thread .pollFails), .stop, .stopEnds, .start true]

theorem trezor_stop_iff_brokenAndStarted : ∃ b,
    run (BridgeState.step (TrezorBridge.kind fun _ => none)) .new brokenAndStarted = some b ∧
      Always (BridgeState.step (TrezorBridge.kind fun _ => none))
        (fun b => b.live (TrezorBridge.kind fun _ => none) ≤ 1) .new brokenAndStarted := by
  obtain ⟨b, hrun⟩ : ∃ b, run (BridgeState.step (TrezorBridge.kind fun _ => none)) .new
      brokenAndStarted = some b := ⟨_, rfl⟩
  refine ⟨b, hrun, ((trezor_stop_iff (fun _ => none) b brokenAndStarted).2 ?_).2 ?_⟩
  · rw [hrun]
    rfl
  · intro p hp hpasses i hi
    have hcases : p = [] ∨ p = brokenAndStarted.take 6 := by
      obtain ⟨r, hr⟩ := hp
      rcases p with _ | ⟨a₁, _ | ⟨a₂, _ | ⟨a₃, _ | ⟨a₄, _ | ⟨a₅, _ | ⟨a₆, _ | ⟨a₇, p⟩⟩⟩⟩⟩⟩⟩ <;>
        simp [brokenAndStarted] at hr ⊢
      tauto
    rcases hcases with rfl | rfl
    · cases hi
    · have hone : i < 1 := hi
      obtain rfl : i = 0 := by omega
      exact ⟨.thread .pollFails, by simp [brokenAndStarted], .inr rfl⟩

/-- The bridge is started, stopped and started again. -/
def stoppedAndStarted : List (BridgeAct TrezorAct) := [.start true, .stop, .stopEnds, .start true]

theorem not_trezor_closes_stoppedAndStarted :
    ¬ ∀ decode acts b, run (BridgeState.step (TrezorBridge.kind decode)) .new acts = some b →
      (∀ s ∈ b.sessions, s.stop.Closes decode) ∧ b.live (TrezorBridge.kind decode) ≤ 1 := by
  intro h
  have hrun : run (BridgeState.step (TrezorBridge.kind fun _ => none)) .new stoppedAndStarted =
      some ⟨true, false, [TrezorRelay.start.stop, .start]⟩ := rfl
  obtain ⟨hcloses, hlive⟩ := h (fun _ => none) stoppedAndStarted _ hrun
  exact absurd hlive (by decide)

end Hwwctl.Bridge
