import Hwwctl.Bridge.Proofs.DeviceProofs
import Hwwctl.Bridge.Unix

/-!
# What the Unix relays do with the host's reports

A report is taken, carried to a connection and written there. It is lost exactly when a write fails,
which the relay answers by dropping the report.
-/

namespace Hwwctl.Bridge

open Transition

variable {kind : SocketKind} {reportSize : Nat} {s s' : UnixRelay} {a : UnixAct}

/-! ## Readers -/

namespace UnixRelay

@[simp] theorem forward_task (s : UnixRelay) (c : Nat) (data : Report) :
    (s.forward c data).task = s.task := by
  rw [forward]
  split <;> rfl

@[simp] theorem forward_taken (s : UnixRelay) (c : Nat) (data : Report) :
    (s.forward c data).taken = s.taken := by
  rw [forward]
  split <;> rfl

@[simp] theorem forward_sent (s : UnixRelay) (c : Nat) (data : Report) :
    (s.forward c data).sent = s.sent := by
  rw [forward]
  split <;> rfl

theorem forward_shutdown (s : UnixRelay) (c : Nat) (data : Report) :
    (s.forward c data).shutdown = s.shutdown := by
  rw [forward]
  split <;> rfl

theorem forward_thread (s : UnixRelay) (c : Nat) (data : Report) :
    (s.forward c data).thread = (s.thread.push data).getD s.thread := by
  rw [forward]
  split
  · rename_i hpush
    exact (congrArg (·.getD s.thread) hpush).symm
  · rename_i hpush
    exact (congrArg (·.getD s.thread) hpush).symm

variable {c c' : Nat} {f : UnixConn → UnixConn}

theorem reader_modify (s : UnixRelay) (hf : ∀ conn, (f conn).reader = conn.reader) :
    reader { s with conns := s.conns.modify c f } c' = s.reader c' := by
  unfold reader
  rw [List.getElem?_modify]
  cases s.conns[c']? with
  | none => rfl
  | some conn =>
    by_cases hc : c = c'
    · simp [hc, hf]
    · simp [hc]

end UnixRelay

/-! ## The steps of the relay -/

/-- The task is in one of its selects. -/
def UnixTask.Selecting (t : UnixTask) : Prop := t = .unconnected ∨ ∃ c, t = .connected c

/-- After its look at the read task, the task is in a select. -/
theorem UnixTask.selecting_of_look (reader : UnixReader) (c : Nat) :
    UnixTask.Selecting (if reader = .finished then .unconnected else .connected c) := by
  split
  · exact .inl rfl
  · exact .inr ⟨c, rfl⟩

/-- The steps of the relay. -/
inductive UnixSteps (kind : SocketKind) (reportSize : Nat) (s : UnixRelay) :
    UnixAct → UnixRelay → Prop where
  | thread {a : ThreadAct} {t : UhidThread} (h : ThreadSteps (s.task ≠ .returned) s.thread a t) :
    UnixSteps kind reportSize s (.thread a) { s with thread := t }
  | takeFirst {report : Report} {queue : List Report} (h : s.task = .unconnected)
    (hqueue : s.thread.readQueue = report :: queue) :
    UnixSteps kind reportSize s .take { s with
      thread := { s.thread with readQueue := queue }
      taken := s.taken ++ [report]
      task := .connecting report }
  | takeNext {c : Nat} {report : Report} {queue : List Report} (h : s.task = .connected c)
    (hqueue : s.thread.readQueue = report :: queue) :
    UnixSteps kind reportSize s .take { s.emit .hostToDevice report with
      thread := { s.thread with readQueue := queue }
      taken := s.taken ++ [report]
      task := .writing c report }
  | connects {first : Report} (h : s.task = .connecting first) :
    UnixSteps kind reportSize s .connects { s.emit .hostToDevice first with
      conns := s.conns ++ [⟨true, .unspawned⟩], task := .writingFirst s.conns.length first }
  | connectFails {first : Report} (h : s.task = .connecting first) :
    UnixSteps kind reportSize s .connectFails { s with task := .returned }
  | firstWritten {c : Nat} {first : Report} (h : s.task = .writingFirst c first)
    (hopen : s.peerOpen c = true) :
    UnixSteps kind reportSize s .written { s.setReader c (.reading []) with
      sent := s.sent ++ [(c, payload first)], task := .looking c }
  | written {c : Nat} {report : Report} (h : s.task = .writing c report)
    (hopen : s.peerOpen c = true) :
    UnixSteps kind reportSize s .written { s with
      sent := s.sent ++ [(c, payload report)]
      task := if s.reader c = .finished then .unconnected else .connected c }
  | firstFails {c : Nat} {first : Report} (h : s.task = .writingFirst c first) :
    UnixSteps kind reportSize s .writeFails { s with task := .unconnected }
  | writeFails {c : Nat} {report : Report} (h : s.task = .writing c report) :
    UnixSteps kind reportSize s .writeFails { s with task := .unconnected }
  | looks {c : Nat} (h : s.task = .looking c) : UnixSteps kind reportSize s .looks { s with
      task := if s.reader c = .finished then .unconnected else .connected c }
  | closed (h : s.task.Selecting) (hqueue : s.thread.readQueue = [])
    (hexited : s.thread.alive = false) :
    UnixSteps kind reportSize s .closed { s with task := .returned }
  | shutdown (h : s.task.Selecting) (hshutdown : s.shutdown = true) :
    UnixSteps kind reportSize s .shutdown { s with task := .returned }
  | emulatorCloses {c : Nat} : UnixSteps kind reportSize s (.emulatorCloses c)
      { s with conns := s.conns.modify c fun conn => { conn with peerOpen := false } }
  | fills {c : Nat} {filled data : List UInt8} (hkind : kind = .stream)
    (h : s.reader c = .reading filled) (hroom : (filled ++ data).length < reportSize) :
    UnixSteps kind reportSize s (.reads c data) (s.setReader c (.reading (filled ++ data)))
  | block {c : Nat} {filled data : List UInt8} (hkind : kind = .stream)
    (h : s.reader c = .reading filled) (hfull : (filled ++ data).length = reportSize) :
    UnixSteps kind reportSize s (.reads c data) (s.forward c (filled ++ data))
  | datagram {c : Nat} {filled data : List UInt8} (hkind : kind = .dgram)
    (h : s.reader c = .reading filled) :
    UnixSteps kind reportSize s (.reads c data) (s.forward c (padded reportSize data))
  | readEnds {c : Nat} {filled : List UInt8} (h : s.reader c = .reading filled) :
    UnixSteps kind reportSize s (.readEnds c) (s.setReader c .finished)

theorem unix_step_cases (h : s.step kind reportSize a = some s') :
    UnixSteps kind reportSize s a s' := by
  cases a with
  | thread a =>
    obtain ⟨t, ht, rfl⟩ := Option.map_eq_some_iff.1 h
    exact .thread (thread_step_cases ht)
  | take =>
    simp only [UnixRelay.step] at h
    split at h
    · cases h
    · split at h <;> cases h
      · exact .takeFirst ‹_› ‹_›
      · exact .takeNext ‹_› ‹_›
  | connects =>
    simp only [UnixRelay.step] at h
    split at h <;> cases h
    exact .connects ‹_›
  | connectFails =>
    simp only [UnixRelay.step] at h
    split at h <;> cases h
    exact .connectFails ‹_›
  | written =>
    simp only [UnixRelay.step] at h
    split at h
    · split at h <;> cases h
      exact .firstWritten ‹_› ‹_›
    · split at h <;> cases h
      exact .written ‹_› ‹_›
    · cases h
  | writeFails =>
    simp only [UnixRelay.step] at h
    split at h <;> cases h
    · exact .firstFails ‹_›
    · exact .writeFails ‹_›
  | looks =>
    simp only [UnixRelay.step] at h
    split at h <;> cases h
    exact .looks ‹_›
  | closed =>
    simp only [UnixRelay.step] at h
    split at h
    · split at h
      · cases h
      · rename_i htask hqueue hexited
        cases h
        exact .closed (.inl htask) hqueue (Bool.eq_false_iff.2 hexited)
    · split at h
      · cases h
      · rename_i htask hqueue hexited
        cases h
        exact .closed (.inr ⟨_, htask⟩) hqueue (Bool.eq_false_iff.2 hexited)
    · cases h
  | shutdown =>
    simp only [UnixRelay.step] at h
    split at h
    · split at h <;> cases h
      exact .shutdown (.inl ‹_›) ‹_›
    · split at h <;> cases h
      exact .shutdown (.inr ⟨_, ‹_›⟩) ‹_›
    · cases h
  | emulatorCloses c =>
    obtain rfl := Option.some.inj h
    exact .emulatorCloses
  | reads c data =>
    simp only [UnixRelay.step] at h
    split at h
    · cases kind with
      | stream =>
        simp only at h
        split at h
        · cases h
        · split at h
          · rename_i hfull
            cases h
            exact .block rfl ‹_› hfull
          · rename_i hle hne
            cases h
            exact .fills rfl ‹_› (by omega)
      | dgram =>
        cases h
        exact .datagram rfl ‹_›
    · cases h
  | readEnds c =>
    simp only [UnixRelay.step] at h
    split at h <;> cases h
    exact .readEnds ‹_›

/-! ## No report is lost -/

/-- The report the task carries. -/
def UnixTask.inHand : UnixTask → List Report
  | .connecting report | .writingFirst _ report | .writing _ report => [report]
  | _ => []

/-- Every report that was taken is written once, in its turn, but for the one in hand. -/
def WrittenOnce (s : UnixRelay) : Prop :=
  s.sent.map (·.2) ++ s.task.inHand.map payload = s.taken.map payload

/-- No report that was taken is lost, and the reports are in the order of the host. -/
structure NoneLost (s : UnixRelay) : Prop where
  written : WrittenOnce s
  inOrder : s.taken <+: s.thread.outputs

/-- What was taken and what is queued are the host's reports, all of them while the task runs. -/
structure InOrder (s : UnixRelay) : Prop where
  before : s.taken ++ s.thread.readQueue <+: s.thread.outputs
  whole : s.task ≠ .returned → s.taken ++ s.thread.readQueue = s.thread.outputs

theorem InOrder.start : InOrder .start := ⟨List.prefix_refl _, fun _ => rfl⟩

theorem InOrder.thread {a : ThreadAct} {t : UhidThread} (hs : InOrder s)
    (h : ThreadSteps (s.task ≠ .returned) s.thread a t) : InOrder { s with thread := t } := by
  cases h with
  | @output report _ hreceiving =>
    have htask : s.task ≠ .returned := of_decide_eq_true hreceiving
    have hwhole : s.taken ++ (s.thread.readQueue ++ [report]) = s.thread.outputs ++ [report] := by
      rw [← List.append_assoc, hs.whole htask]
    exact ⟨hwhole ▸ List.prefix_refl _, fun _ => hwhole⟩
  | unheard _ hreceiving =>
    have htask : s.task = .returned := by simpa using hreceiving
    exact ⟨hs.before.trans (List.prefix_append _ _), fun h => absurd htask h⟩
  | _ => exact ⟨hs.before, hs.whole⟩

/-- The task takes the oldest report of its queue. -/
theorem InOrder.take {report : Report} {queue : List Report} (hs : InOrder s)
    (htask : s.task ≠ .returned) (hqueue : s.thread.readQueue = report :: queue) :
    s.taken ++ [report] ++ queue = s.thread.outputs := by
  rw [← hs.whole htask, hqueue, List.append_assoc]
  rfl

theorem UnixSteps.inOrder (h : UnixSteps kind reportSize s a s') (hs : InOrder s) : InOrder s' := by
  cases h with
  | thread h => exact hs.thread h
  | takeFirst h hqueue | takeNext h hqueue =>
    have htaken := hs.take (by rw [h]; simp) hqueue
    exact ⟨htaken ▸ List.prefix_refl _, fun _ => htaken⟩
  | connects h | firstWritten h | firstFails h | writeFails h | written h | looks h =>
    exact ⟨hs.before, fun _ => hs.whole (by rw [h]; simp)⟩
  | connectFails | closed | shutdown => exact ⟨hs.before, fun h => absurd rfl h⟩
  | emulatorCloses | fills | readEnds => exact ⟨hs.before, hs.whole⟩
  | datagram | block =>
    refine ⟨?_, fun h => ?_⟩
    · rw [UnixRelay.forward_taken, UnixRelay.forward_thread, push_readQueue, push_outputs]
      exact hs.before
    · rw [UnixRelay.forward_task] at h
      rw [UnixRelay.forward_taken, UnixRelay.forward_thread, push_readQueue, push_outputs]
      exact hs.whole h

/-- A step that neither drops a report at a failed write nor at a failed connection loses none. -/
theorem UnixSteps.writtenOnce (h : UnixSteps kind reportSize s a s') (hs : WrittenOnce s)
    (hwrite : a ≠ .writeFails) (hconnect : a.clearsRunning = false) : WrittenOnce s' := by
  unfold WrittenOnce at hs ⊢
  cases h with
  | thread | emulatorCloses | fills | readEnds => exact hs
  | datagram | block =>
    rw [UnixRelay.forward_sent, UnixRelay.forward_task, UnixRelay.forward_taken]
    exact hs
  | takeFirst h | takeNext h =>
    rw [h] at hs
    simp only [UnixTask.inHand, List.map_nil, List.append_nil] at hs
    simp only [UnixTask.inHand, UnixRelay.emit, List.map_append, hs]
  | connects h =>
    rw [h] at hs
    exact hs
  | firstWritten h =>
    rw [h] at hs
    simp only [UnixTask.inHand, List.map_append, List.map_cons, List.map_nil, List.append_nil]
    exact hs
  | @written c report h =>
    rw [h] at hs
    have hsent : (s.sent ++ [(c, payload report)]).map (·.2) = s.taken.map payload :=
      List.map_append.trans hs
    split
    all_goals
      rw [hsent]
      exact List.append_nil _
  | looks h =>
    rw [h] at hs
    split
    · exact hs
    · exact hs
  | connectFails => cases hconnect
  | firstFails | writeFails => exact absurd rfl hwrite
  | closed h | shutdown h =>
    rcases h with h | ⟨c, h⟩
    all_goals
      rw [h] at hs
      exact hs

/-- A failed write drops the report the task carries. -/
theorem UnixSteps.lost (h : UnixSteps kind reportSize s .writeFails s') (hs : WrittenOnce s) :
    ¬ WrittenOnce s' := by
  unfold WrittenOnce at hs ⊢
  intro hs'
  cases h with
  | firstFails h | writeFails h =>
    have hbefore := congrArg List.length hs
    have hafter := congrArg List.length hs'
    rw [h] at hbefore
    simp only [UnixTask.inHand, List.map_cons, List.map_nil, List.length_append, List.length_cons,
      List.length_nil, List.length_map] at hbefore hafter
    omega

theorem inOrder_of_run {acts : List UnixAct}
    (hrun : run (UnixRelay.step kind reportSize) .start acts = some s) : InOrder s :=
  (always_of_step .start fun _ _ _ hs ha => (unix_step_cases ha).inOrder hs).of_run hrun

/-- While no attempt to connect has failed, so that the bridge counts as running, whatever the
schedule, the reports are written once and in their order in every state exactly when no write
fails. -/
theorem none_lost_iff {acts : List UnixAct} (hrunning : ∀ a ∈ acts, a.clearsRunning = false)
    (hrun : run (UnixRelay.step kind reportSize) .start acts = some s) :
    Always (UnixRelay.step kind reportSize) NoneLost .start acts ↔ .writeFails ∉ acts := by
  constructor
  · intro hall hmem
    obtain ⟨p, q, rfl⟩ := List.append_of_mem hmem
    rw [List.append_cons] at hrun hall
    obtain ⟨s₂, hrun₂, -⟩ := Option.bind_eq_some_iff.1 (run_append.symm.trans hrun)
    obtain ⟨s₁, hrun₁, hfails⟩ := run_concat_some hrun₂
    have hprefix : p <+: p ++ [.writeFails] ++ q := by
      rw [List.append_assoc]
      exact List.prefix_append _ _
    have hbefore := hall p hprefix s₁ hrun₁
    have hafter := hall _ (List.prefix_append _ _) s₂ hrun₂
    exact (unix_step_cases hfails).lost hbefore.written hafter.written
  · intro hnone
    have hguard : Guarded (UnixRelay.step kind reportSize)
        (fun _ a => a ≠ .writeFails ∧ a.clearsRunning = false) .start acts :=
      .of_forall fun a ha _ => ⟨fun h => hnone (h ▸ ha), hrunning a ha⟩
    have hwritten : Always (UnixRelay.step kind reportSize) WrittenOnce .start acts :=
      hguard.always rfl fun _ _ _ hs hC ha => (unix_step_cases ha).writtenOnce hs hC.1 hC.2
    intro p hp s' hrun'
    have hinOrder := inOrder_of_run hrun'
    exact ⟨hwritten p hp s' hrun', (List.prefix_append _ _).trans hinOrder.before⟩

/-- The host sends a report, which reaches the emulator over a new connection. -/
def firstReport : List UnixAct := [.thread .check, .thread .drained,
  .thread (.poll (some [0x00, 1])), .take, .connects, .written, .looks]

/-- The read task ends while the second report is on its way, so that the third one goes over a new
connection. -/
def reconnection : List UnixAct := firstReport ++ [.thread .wake, .thread .check, .thread .drained,
  .thread (.poll (some [0x00, 2])), .take, .readEnds 0, .written, .thread .wake, .thread .check,
  .thread .drained, .thread (.poll (some [0x00, 3])), .take, .connects, .written, .looks]

theorem none_lost_iff_reconnection :
    Always (UnixRelay.step .stream 1) NoneLost .start reconnection ↔
      .writeFails ∉ reconnection :=
  none_lost_iff (by simp [reconnection, firstReport, UnixAct.clearsRunning]) rfl

/-- The emulator closes its socket, the read task ends, and the relay, in its select, takes the next
report for the dead connection. -/
def closedEmulator : List UnixAct :=
  firstReport ++ [.emulatorCloses 0, .readEnds 0, .thread .wake, .thread .check, .thread .drained,
    .thread (.poll (some [0x00, 2])), .take, .writeFails]

def afterClosedEmulator : UnixRelay where
  thread := ⟨.sleeping, false, [], [], [], [[0x00, 1], [0x00, 2]]⟩
  task := .unconnected
  shutdown := false
  conns := [⟨false, .finished⟩]
  taken := [[0x00, 1], [0x00, 2]]
  sent := [(0, [1])]
  intercepted := [.new .hostToDevice [0x00, 1] none, .new .hostToDevice [0x00, 2] none]

theorem not_none_lost_closedEmulator :
    ¬ ∀ kind reportSize acts s, (∀ a ∈ acts, UnixAct.clearsRunning a = false) →
      run (UnixRelay.step kind reportSize) .start acts = some s → NoneLost s := by
  intro h
  have hrun : run (UnixRelay.step .stream 1) .start closedEmulator = some afterClosedEmulator := rfl
  have hlost := h .stream 1 closedEmulator afterClosedEmulator
    (by simp [closedEmulator, firstReport, UnixAct.clearsRunning]) hrun
  have hlength := congrArg List.length hlost.written
  simp [afterClosedEmulator, UnixTask.inHand] at hlength

end Hwwctl.Bridge
