import Hwwctl.Bridge.Proofs.PathsProofs

/-!
# The alignment of the emulator's stream

The emulator cuts the TCP stream into reports of a fixed size. Task B strips a first byte `0x00`
whatever the length, and neither fills up nor cuts off what it writes.
-/

namespace Hwwctl.Bridge

open Transition

variable {reportSize : Nat}

/-- A full report with the report-ID byte, or a full report without one that does not begin like
it. -/
def WholeReport (reportSize : Nat) (event : Report) : Prop :=
  if event.head? = some 0x00 then event.length = reportSize + 1 else event.length = reportSize

theorem length_payload_iff (event : Report) :
    (payload event).length = reportSize ↔ WholeReport reportSize event := by
  cases event with
  | nil => rfl
  | cons b rest =>
    by_cases hb : b = 0x00
    · simp [payload, WholeReport, hb]
    · simp [payload, WholeReport, hb]

/-- Between two reports the stream is as long as the reports that were announced are to be. -/
def TcpRelay.Aligned (reportSize : Nat) (s : TcpRelay) : Prop :=
  s.taskB = .waiting →
    s.sent.length = reportSize * (messages .hostToDevice s.intercepted).length

/-- The same with the payload in hand, and whole reports only are to come. -/
structure TcpRelay.Whole (reportSize : Nat) (s : TcpRelay) : Prop where
  filling : s.taskB ≠ .ended → s.sent.length + s.inHand.length =
    reportSize * (messages .hostToDevice s.intercepted).length
  queued : ∀ event ∈ s.thread.readQueue, WholeReport reportSize event

theorem TcpRelay.Whole.aligned {s : TcpRelay} (h : s.Whole reportSize) : s.Aligned reportSize := by
  intro hwaiting
  have hfilling := h.filling (by simp [hwaiting])
  rwa [TcpRelay.inHand, hwaiting] at hfilling

/-- If the step brings an output event, it is a whole report. -/
def TcpAct.Whole (reportSize : Nat) (a : TcpAct) : Prop :=
  ∀ event, a = .thread (.poll (some event)) → WholeReport reportSize event

theorem TcpSteps.whole {s s' : TcpRelay} {a : TcpAct} (h : TcpSteps reportSize s a s')
    (hs : s.Whole reportSize) (ha : a.Whole reportSize) : s'.Whole reportSize := by
  cases h with
  | thread h =>
    cases h with
    | @output event =>
      refine ⟨hs.filling, fun event' hevent => ?_⟩
      rcases List.mem_append.1 hevent with hevent | hevent
      · exact hs.queued event' hevent
      · rw [List.mem_singleton.1 hevent]
        exact ha event rfl
    | _ => exact ⟨hs.filling, hs.queued⟩
  | emulatorSends | read | readFails | shutdownA => exact ⟨hs.filling, hs.queued⟩
  | deliver =>
    refine ⟨fun htaskB => ?_, by rw [push_readQueue]; exact hs.queued⟩
    show _ = reportSize * (messages _ (s.intercepted ++ _)).length
    rw [messages_concat, if_neg (by simp), List.append_nil]
    exact hs.filling htaskB
  | @take event queue h hqueue =>
    refine ⟨fun _ => ?_, fun event' hevent => ?_⟩
    · have hfilling := hs.filling (by simp [h])
      have hwhole := (length_payload_iff event).2 (hs.queued event (by simp [hqueue]))
      rw [TcpRelay.inHand, h] at hfilling
      show s.sent.length + (payload event).length =
        reportSize * (messages _ (s.intercepted ++ _)).length
      rw [messages_concat, if_pos rfl, List.length_append, List.length_singleton, Nat.mul_succ,
        ← hfilling, hwhole]
      rfl
    · exact hs.queued event' (by simp [hqueue, hevent])
  | @write n rest h hn =>
    refine ⟨fun _ => ?_, hs.queued⟩
    have hfilling := hs.filling (by simp [h])
    simp only [TcpRelay.inHand, h] at hfilling
    show (s.sent ++ rest.take n).length + (rest.drop n).length =
      reportSize * (messages _ s.intercepted).length
    rw [← hfilling, List.length_append, List.length_take, List.length_drop]
    omega
  | written h =>
    refine ⟨fun _ => ?_, hs.queued⟩
    have hfilling := hs.filling (by simp [h])
    rw [TcpRelay.inHand, h] at hfilling
    exact hfilling
  | writeFails | closed => exact ⟨fun htaskB => absurd rfl htaskB, hs.queued⟩

/-- Whole reports keep the stream aligned in every run. -/
theorem aligned_of_whole {acts : List TcpAct}
    (hwhole : ∀ event ∈ hostReports acts, WholeReport reportSize event) :
    Always (TcpRelay.step reportSize) (TcpRelay.Aligned reportSize) .connected acts := by
  have hguard : Guarded (TcpRelay.step reportSize) (fun _ a => a.Whole reportSize) .connected
      acts := by
    refine .of_forall fun a ha _ event heq => hwhole event ?_
    exact List.mem_filterMap.2 ⟨a, ha, by rw [heq]⟩
  have hall : Always (TcpRelay.step reportSize) (TcpRelay.Whole reportSize) .connected acts :=
    hguard.always ⟨fun _ => rfl, by simp [TcpRelay.connected, UhidThread.spawn]⟩
      fun _ _ _ hs hC ha => (tcp_step_cases ha).whole hs hC
  exact hall.mono fun _ => TcpRelay.Whole.aligned

/-- Some run relays any events, and it is aligned for whole reports only. -/
theorem exists_aligned_run (reportSize : Nat) (events : List Report) : ∃ acts s,
    run (TcpRelay.step reportSize) .connected acts = some s ∧ hostReports acts = events ∧
      s.taskB = .waiting ∧ s.thread.Fresh ∧
      (Always (TcpRelay.step reportSize) (TcpRelay.Aligned reportSize) .connected acts →
        ∀ event ∈ events, WholeReport reportSize event) := by
  induction events using List.reverseRecOn with
  | nil => exact ⟨[], .connected, rfl, rfl, rfl, ⟨rfl, rfl, rfl, rfl⟩, fun _ => by simp⟩
  | append_singleton events event ih =>
    obtain ⟨acts, s, hrun, hevents, hwaiting, hfresh, hwhole⟩ := ih
    have hcarries := TcpRelay.carries reportSize hwaiting hfresh event
    have hrun' := (run_append.trans (congrArg (Option.bind · _) hrun)).trans hcarries
    refine ⟨_, _, hrun', ?_, hwaiting,
      ⟨hfresh.phase, hfresh.shutdown, hfresh.writeQueue, hfresh.readQueue⟩, fun hall => ?_⟩
    · rw [hostReports_append, hevents]
      rfl
    · have hbefore : s.Aligned reportSize := hall acts (List.prefix_append _ _) s hrun
      have hafter := hall.of_run hrun' hwaiting
      have hlength : (payload event).length = reportSize := by
        have hsent := hbefore hwaiting
        simp only [TcpRelay.emit, messages_concat, if_true, List.length_append,
          List.length_singleton, Nat.mul_succ] at hafter
        omega
      intro event' hevent
      rcases List.mem_append.1 hevent with hevent | hevent
      · refine hwhole (fun p hp => hall p (hp.trans (List.prefix_append _ _))) event' hevent
      · rw [List.mem_singleton.1 hevent]
        exact (length_payload_iff event).1 hlength

/-- For any sequence of output events, every report is exactly `reportSize` bytes of the stream in
every run exactly when every event is a whole report. -/
theorem stream_aligned_iff (reportSize : Nat) (events : List Report) :
    (∀ acts, hostReports acts = events →
      Always (TcpRelay.step reportSize) (TcpRelay.Aligned reportSize) .connected acts) ↔
      ∀ event ∈ events, WholeReport reportSize event := by
  constructor
  · intro hall
    obtain ⟨acts, s, -, hevents, -, -, hwhole⟩ := exists_aligned_run reportSize events
    exact hwhole (hall acts hevents)
  · rintro hwhole acts rfl
    exact aligned_of_whole hwhole

/-- A host writes a report ID and one byte less than a report of four bytes. -/
def shortReport : Report := [0x00, 1, 2, 3]

theorem not_stream_aligned_shortReport :
    ¬ ∀ reportSize events, (∀ event ∈ events, 1 ≤ event.length ∧ event.length ≤ reportSize + 1) →
      ∀ acts, hostReports acts = events →
        Always (TcpRelay.step reportSize) (TcpRelay.Aligned reportSize) .connected acts := by
  intro h
  have hall := h 4 [shortReport] (by simp [shortReport])
    ((turn shortReport).map .thread ++ [.take, .write 3, .written]) rfl
  have haligned := hall.of_run rfl
  exact absurd (haligned rfl) (by decide)

end Hwwctl.Bridge
