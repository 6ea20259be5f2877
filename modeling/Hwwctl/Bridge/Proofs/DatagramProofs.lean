import Hwwctl.Bridge.Proofs.TcpProofs
import Hwwctl.Bridge.Proofs.TrezorProofs

/-!
# Every datagram is one report

The Trezor emulator speaks in datagrams. Each one becomes one input report and one message; each
report of the host becomes one message and one attempt to send it, and is lost exactly if that
attempt fails.
-/

namespace Hwwctl.Bridge

open Transition

variable {decode : Report → Option String} {s s' : TrezorRelay} {a : TrezorAct}

/-! ## What the emulator and the host gave -/

/-- The datagrams of the emulator, cut to the size of a report. -/
def TrezorAct.datagrams (acts : List TrezorAct) : List Report :=
  acts.filterMap fun
    | .received datagram => some (datagram.take trezorReportSize)
    | _ => none

/-- The reports the device handed out. -/
def TrezorAct.reports (acts : List TrezorAct) : List Report :=
  acts.filterMap fun
    | .thread (.poll output) => output
    | _ => none

/-- Which of the attempts to send came through. -/
def TrezorAct.attempts (acts : List TrezorAct) : List Bool :=
  acts.filterMap fun
    | .sent => some true
    | .sendFails => some false
    | _ => none

/-- The reports whose attempts came through. -/
def delivered (tried : List Report) (attempts : List Bool) : List Report :=
  ((tried.zip attempts).filter (·.2)).map (·.1)

namespace TrezorRelay

/-- The report in task B's hands. -/
def inHand (s : TrezorRelay) : List Report :=
  match s.taskB with
  | .sending report => [report]
  | _ => []

end TrezorRelay

/-- Where everything is that the emulator and the host gave. -/
structure TrezorRelayed (decode : Report → Option String) (datagrams reports : List Report)
    (attempts : List Bool) (s : TrezorRelay) : Prop where
  toDevice : s.thread.Carries datagrams
  deviceMessages : messages .deviceToHost s.intercepted =
    datagrams.map fun d => .new .deviceToHost d (decode d)
  hostMessages : messages .hostToDevice s.intercepted ++
      s.thread.readQueue.map (fun r => .new .hostToDevice r (decode r)) =
    reports.map fun r => .new .hostToDevice r (decode r)
  toEmulator : ∃ tried, tried ++ (s.inHand ++ s.thread.readQueue) = reports ∧
    tried.length = attempts.length ∧ s.sent = delivered tried attempts

/-- Task B ends after the thread, with its queue empty. -/
def TrezorRelay.Orderly (s : TrezorRelay) : Prop :=
  s.taskB = .ended → s.thread.alive = false ∧ s.thread.readQueue = []

theorem delivered_concat {tried : List Report} {attempts : List Bool} (report : Report) (ok : Bool)
    (h : tried.length = attempts.length) :
    delivered (tried ++ [report]) (attempts ++ [ok]) =
      delivered tried attempts ++ if ok then [report] else [] := by
  rw [delivered, List.zip_append h, List.filter_append, List.map_append]
  cases ok <;> rfl

theorem messages_emit (direction : Direction) (data : Report) (d : Direction) :
    messages d (s.emit decode direction data).intercepted =
      messages d s.intercepted ++
        if direction = d then [.new direction data (decode data)] else [] := by
  by_cases h : direction = d
  · simp [messages, TrezorRelay.emit, InterceptedMessage.new, h]
  · simp [messages, TrezorRelay.emit, InterceptedMessage.new, h]

/-! ## One step -/

theorem TrezorThreadSteps.carries {receiving : Bool} {t t' : UhidThread} {a : ThreadAct}
    {reports : List Report} (h : TrezorThreadSteps receiving t a t') (ht : t.Carries reports) :
    t'.Carries reports := by
  cases h with
  | check hphase =>
    have halive : t.alive = true := by simp [UhidThread.alive, hphase]
    exact ⟨ht.before, fun _ => ht.whole halive⟩
  | works _ h => exact ht.step h

/-- A report that somebody receives is queued. -/
theorem TrezorThreadSteps.readQueue {t t' : UhidThread} {a : ThreadAct}
    (h : TrezorThreadSteps true t a t') :
    t'.readQueue = t.readQueue ++ TrezorAct.reports [.thread a] := by
  cases h with
  | check => exact (List.append_nil _).symm
  | works _ h =>
    cases h with
    | output => rfl
    | unheard _ hreceiving => cases hreceiving
    | _ => exact (List.append_nil _).symm

theorem TrezorSteps.orderly (h : TrezorSteps decode s a s') (hs : s.Orderly) : s'.Orderly := by
  cases h with
  | thread h =>
    intro hended
    have hexited := (hs hended).1
    have halive : s.thread.alive = true := decide_eq_true h.alive
    rw [halive] at hexited
    cases hexited
  | received =>
    intro hended
    have hended' : s.taskB = .ended := hended
    rw [push_alive, push_readQueue]
    exact hs hended'
  | recvFails | shutdownA => exact hs
  | take | sent | sendFails =>
    intro hended
    cases hended
  | closed _ hqueue hexited => exact fun _ => ⟨hexited, hqueue⟩

variable {datagrams reports : List Report} {attempts : List Bool}

theorem TrezorRelayed.start : TrezorRelayed decode [] [] [] .start :=
  ⟨.spawn, rfl, rfl, [], rfl, rfl, rfl⟩

/-- Nothing comes in, and everything stays where it is. -/
theorem TrezorRelayed.still (hs : TrezorRelayed decode datagrams reports attempts s)
    (hthread : s'.thread = s.thread) (hmessages : s'.intercepted = s.intercepted)
    (hhand : s'.inHand = s.inHand) (hsent : s'.sent = s.sent) :
    TrezorRelayed decode datagrams reports attempts s' := by
  refine ⟨?_, ?_, ?_, ?_⟩
  · rw [hthread]
    exact hs.toDevice
  · rw [hmessages]
    exact hs.deviceMessages
  · rw [hmessages, hthread]
    exact hs.hostMessages
  · rw [hhand, hthread, hsent]
    exact hs.toEmulator

theorem TrezorRelayed.thread {b : ThreadAct} {t : UhidThread}
    (hs : TrezorRelayed decode datagrams reports attempts s)
    (h : TrezorThreadSteps true s.thread b t) :
    TrezorRelayed decode datagrams (reports ++ TrezorAct.reports [.thread b]) attempts
      { s with thread := t } := by
  have hqueue := h.readQueue
  refine ⟨h.carries hs.toDevice, hs.deviceMessages, ?_, ?_⟩
  · rw [List.map_append, ← hs.hostMessages, List.append_assoc, ← List.map_append, ← hqueue]
  · obtain ⟨tried, hall, hrest⟩ := hs.toEmulator
    refine ⟨tried, ?_, hrest⟩
    rw [← hall, List.append_assoc, List.append_assoc, ← hqueue]
    rfl

/-- A datagram is announced and goes to the device's queue. -/
theorem TrezorRelayed.received (hs : TrezorRelayed decode datagrams reports attempts s)
    (data : Report) :
    TrezorRelayed decode (datagrams ++ [data]) reports attempts
      { s.emit decode .deviceToHost data with thread := (s.thread.push data).getD s.thread } := by
  refine ⟨hs.toDevice.push data, ?_, ?_, ?_⟩
  · rw [messages_emit, if_pos rfl, hs.deviceMessages, List.map_append]
    rfl
  · rw [messages_emit, if_neg (by simp), List.append_nil, push_readQueue]
    exact hs.hostMessages
  · obtain ⟨tried, hall, hrest⟩ := hs.toEmulator
    refine ⟨tried, ?_, hrest⟩
    rw [push_readQueue]
    exact hall

/-- The next report is announced and comes into task B's hands. -/
theorem TrezorRelayed.take {report : Report} {queue : List Report}
    (hs : TrezorRelayed decode datagrams reports attempts s) (h : s.taskB = .waiting)
    (hqueue : s.thread.readQueue = report :: queue) :
    TrezorRelayed decode datagrams reports attempts { s.emit decode .hostToDevice report with
      taskB := .sending report, thread := { s.thread with readQueue := queue } } := by
  refine ⟨hs.toDevice.readQueue queue, ?_, ?_, ?_⟩
  · rw [messages_emit, if_neg (by simp), List.append_nil]
    exact hs.deviceMessages
  · have hmessages := hs.hostMessages
    rw [hqueue, List.map_cons] at hmessages
    rw [messages_emit, if_pos rfl, List.append_assoc]
    exact hmessages
  · obtain ⟨tried, hall, hrest⟩ := hs.toEmulator
    refine ⟨tried, ?_, hrest⟩
    rw [TrezorRelay.inHand, h, hqueue] at hall
    exact hall

/-- An attempt to send, whether it comes through or not, empties task B's hands. -/
theorem TrezorRelayed.attempt {report : Report} {sent : List Report} (ok : Bool)
    (hs : TrezorRelayed decode datagrams reports attempts s) (h : s.taskB = .sending report)
    (hsent : sent = s.sent ++ if ok then [report] else []) :
    TrezorRelayed decode datagrams reports (attempts ++ [ok])
      { s with taskB := .waiting, sent := sent } := by
  refine ⟨hs.toDevice, hs.deviceMessages, hs.hostMessages, ?_⟩
  obtain ⟨tried, hall, hlength, hdelivered⟩ := hs.toEmulator
  rw [TrezorRelay.inHand, h] at hall
  refine ⟨tried ++ [report], ?_, ?_, ?_⟩
  · rw [List.append_assoc]
    exact hall
  · rw [List.length_append, List.length_append, hlength]
    rfl
  · rw [delivered_concat report ok hlength, ← hdelivered]
    exact hsent

theorem TrezorSteps.relayed (h : TrezorSteps decode s a s') (horderly : s.Orderly)
    (hs : TrezorRelayed decode datagrams reports attempts s) :
    TrezorRelayed decode (datagrams ++ TrezorAct.datagrams [a]) (reports ++ TrezorAct.reports [a])
      (attempts ++ TrezorAct.attempts [a]) s' := by
  cases h with
  | @thread b t h =>
    have hreceiving : decide (s.taskB ≠ .ended) = true := by
      refine decide_eq_true ?_
      intro hended
      have hexited := (horderly hended).1
      have halive : s.thread.alive = true := decide_eq_true h.alive
      rw [halive] at hexited
      cases hexited
    rw [hreceiving] at h
    simpa [TrezorAct.datagrams, TrezorAct.attempts] using hs.thread h
  | @received datagram =>
    simpa [TrezorAct.datagrams, TrezorAct.reports, TrezorAct.attempts] using
      hs.received (datagram.take trezorReportSize)
  | recvFails | shutdownA =>
    simp only [TrezorAct.datagrams, TrezorAct.reports, TrezorAct.attempts, List.filterMap_cons,
      List.filterMap_nil, List.append_nil]
    exact hs.still rfl rfl rfl rfl
  | take h hqueue =>
    simpa [TrezorAct.datagrams, TrezorAct.reports, TrezorAct.attempts] using hs.take h hqueue
  | sent h =>
    simpa [TrezorAct.datagrams, TrezorAct.reports, TrezorAct.attempts] using
      hs.attempt true h rfl
  | sendFails h =>
    simpa [TrezorAct.datagrams, TrezorAct.reports, TrezorAct.attempts] using
      hs.attempt false h (List.append_nil _).symm
  | closed h hqueue hexited =>
    simp only [TrezorAct.datagrams, TrezorAct.reports, TrezorAct.attempts, List.filterMap_cons,
      List.filterMap_nil, List.append_nil]
    refine hs.still rfl rfl ?_ rfl
    rw [TrezorRelay.inHand, TrezorRelay.inHand, h]

/-! ## Every schedule -/

/-- The steps with which task B gets the reports to an emulator that takes them. -/
def TrezorAct.Sends : TrezorAct → Prop
  | .take | .sent => True
  | _ => False

/-- Task B can send all that it was given. -/
theorem TrezorRelay.Orderly.sends (hs : s.Orderly) :
    ∃ acts s', (∀ a ∈ acts, a.Sends) ∧ run (TrezorRelay.step decode) s acts = some s' ∧
      s'.sent = s.sent ++ (s.inHand ++ s.thread.readQueue) := by
  have hnext : ∀ u : TrezorRelay, (u.Orderly ∧
      u.sent ++ (u.inHand ++ u.thread.readQueue) = s.sent ++ (s.inHand ++ s.thread.readQueue)) →
      ¬ (u.inHand = [] ∧ u.thread.readQueue = []) →
      ∃ a u', a.Sends ∧ u.step decode a = some u' ∧ (u'.Orderly ∧
        u'.sent ++ (u'.inHand ++ u'.thread.readQueue) =
          s.sent ++ (s.inHand ++ s.thread.readQueue)) ∧ u'.left < u.left := by
    rintro u ⟨hu, hkept⟩ hleft
    cases hB : u.taskB with
    | waiting =>
      cases hqueue : u.thread.readQueue with
      | nil => exact absurd ⟨by rw [inHand, hB], hqueue⟩ hleft
      | cons report queue =>
        have hstep : u.step decode .take = some { u.emit decode .hostToDevice report with
            taskB := .sending report, thread := { u.thread with readQueue := queue } } := by
          rw [step, hB, hqueue]
        rw [inHand, hB, hqueue] at hkept
        refine ⟨.take, _, trivial, hstep, ⟨(trezor_step_cases hstep).orderly hu, hkept⟩, ?_⟩
        simp only [left, hB, hqueue, TrezorTaskB.left, List.length_cons]
        omega
    | sending report =>
      have hstep : u.step decode .sent =
          some { u with taskB := .waiting, sent := u.sent ++ [report] } := by
        rw [step, hB]
      refine ⟨.sent, _, trivial, hstep, ⟨(trezor_step_cases hstep).orderly hu, ?_⟩, ?_⟩
      · rw [← hkept, inHand, inHand, hB]
        exact List.append_assoc ..
      · simp only [left, hB, TrezorTaskB.left]
        omega
    | ended => exact absurd ⟨by rw [inHand, hB], (hu hB).2⟩ hleft
  obtain ⟨acts, s', hsends, hrun, ⟨-, hkept⟩, hhand, hqueue⟩ := exists_run_of_work
    (P := fun u => u.Orderly ∧
      u.sent ++ (u.inHand ++ u.thread.readQueue) = s.sent ++ (s.inHand ++ s.thread.readQueue))
    (Q := fun u => u.inHand = [] ∧ u.thread.readQueue = []) TrezorAct.Sends TrezorRelay.left
    ⟨hs, rfl⟩ hnext
  rw [hhand, hqueue, List.append_nil, List.append_nil] at hkept
  exact ⟨acts, s', hsends, hrun, hkept⟩

/-- One report of the host is lost, one comes through, and a datagram crosses them. -/
def crossing : List TrezorAct :=
  [.thread .check, .thread .drained, .thread (.poll (some [0x3f, 1])), .take, .received [0x3f, 7],
    .sendFails, .thread .wake, .thread .check, .thread .write, .thread .drained,
    .thread (.poll (some [0x3f, 2])), .take, .sent]

end Hwwctl.Bridge
