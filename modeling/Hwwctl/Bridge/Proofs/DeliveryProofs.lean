import Hwwctl.Bridge.Proofs.TcpProofs
import Hwwctl.Library.Fairness

/-!
# What is given to the relay over TCP arrives

While the connection is up and the device works, nothing stays on its way for ever: each report of
the host gets to the emulator, and each block of the emulator's stream to the device, when neither
of the two tasks nor the device thread is passed over for ever.
-/

namespace Hwwctl.Bridge

open Transition

/-- The connection holds and the device works. -/
def TcpAct.Works : TcpAct → Prop
  | .readFails | .writeFails | .thread .writeFails | .thread .pollFails => False
  | _ => True

/-- Task A reads something or queues a block. -/
def ReadsOn (a : TcpAct) : Prop := (∃ n, 0 < n ∧ a = .read n) ∨ a = .deliver

/-- Task B takes a report, writes something of it, or is done with it. -/
def WritesOn (a : TcpAct) : Prop := a = .take ∨ (∃ n, 0 < n ∧ a = .write n) ∨ a = .written

/-- Neither of the tasks nor the thread is passed over for ever. -/
structure TcpFair {reportSize : Nat} {s : TcpRelay} (e : Execution (TcpRelay.step reportSize) s) :
    Prop where
  taskA : e.WeaklyFair ReadsOn
  taskB : e.WeaklyFair WritesOn
  thread : e.WeaklyFair fun a => ∃ b, a = .thread b

variable {reportSize : Nat} {s s' : TcpRelay} {a : TcpAct}

theorem TcpAct.Works.up (h : a.Works) : a.Up := by
  cases a with
  | readFails | writeFails => exact h
  | _ => trivial

/-! ## The invariant -/

/-- The thread runs, and what task B has taken is written or in its hands. -/
structure Running (s : TcpRelay) : Prop where
  alive : s.thread.alive = true
  watching : s.thread.shutdown = false
  taskB : s.taskB ≠ .ended
  taken : ∃ taken, s.thread.outputs = taken ++ s.thread.readQueue ∧
    s.sent ++ s.inHand = (taken.map payload).flatten

theorem Running.connected : Running .connected :=
  ⟨rfl, rfl, by simp [TcpRelay.connected], [], rfl, rfl⟩

theorem Running.thread {b : ThreadAct} {t : UhidThread} (hs : Running s)
    (h : ThreadSteps (s.taskB ≠ .ended) s.thread b t) (hworks : (TcpAct.thread b).Works) :
    Running { s with thread := t } := by
  obtain ⟨taken, houtputs, hsent⟩ := hs.taken
  cases h with
  | leave _ hshutdown =>
    rw [hs.watching] at hshutdown
    cases hshutdown
  | writeFails | pollFails => exact hworks.elim
  | unheard _ hreceiving => exact absurd hs.taskB (by simpa using hreceiving)
  | goOn | drained | nothing | wake => exact ⟨rfl, hs.watching, hs.taskB, taken, houtputs, hsent⟩
  | write hphase =>
    have halive : (decide (s.thread.phase ≠ .exited)) = true := by simp [hphase]
    exact ⟨halive, hs.watching, hs.taskB, taken, houtputs, hsent⟩
  | @output report =>
    refine ⟨rfl, hs.watching, hs.taskB, taken, ?_, hsent⟩
    show s.thread.outputs ++ [report] = taken ++ (s.thread.readQueue ++ [report])
    rw [houtputs, List.append_assoc]

theorem TcpSteps.running (h : TcpSteps reportSize s a s') (hs : Running s) (hworks : a.Works)
    (hshutdown : s.shutdownA = false) : Running s' := by
  obtain ⟨taken, houtputs, hsent⟩ := hs.taken
  cases h with
  | thread h => exact hs.thread h hworks
  | emulatorSends | read => exact ⟨hs.alive, hs.watching, hs.taskB, taken, houtputs, hsent⟩
  | readFails | writeFails => exact hworks.elim
  | shutdownA _ hclosed =>
    rw [hshutdown] at hclosed
    cases hclosed
  | @deliver data =>
    have hkept : ((s.thread.push data).getD s.thread).shutdown = s.thread.shutdown := by
      rw [UhidThread.push]
      split <;> rfl
    refine ⟨(push_alive _ _).trans hs.alive, hkept.trans hs.watching, hs.taskB, taken, ?_, hsent⟩
    rw [push_outputs, push_readQueue]
    exact houtputs
  | @take report queue h hqueue =>
    refine ⟨hs.alive, hs.watching, by simp, taken ++ [report], ?_, ?_⟩
    · rw [houtputs, hqueue, List.append_assoc]
      rfl
    · rw [TcpRelay.inHand, h, List.append_nil] at hsent
      show s.sent ++ payload report = _
      rw [hsent, List.map_append, List.flatten_append]
      simp
  | @write n rest h hn =>
    refine ⟨hs.alive, hs.watching, by simp, taken, houtputs, ?_⟩
    rw [TcpRelay.inHand, h] at hsent
    show s.sent ++ rest.take n ++ rest.drop n = _
    rw [List.append_assoc, List.take_append_drop, hsent]
  | written h =>
    refine ⟨hs.alive, hs.watching, by simp, taken, houtputs, ?_⟩
    rw [TcpRelay.inHand, h] at hsent
    exact hsent
  | closed _ _ hexited =>
    rw [hs.alive] at hexited
    cases hexited

variable {e : Execution (TcpRelay.step reportSize) .connected}

theorem tcp_steps_of_execution (n : Nat) :
    TcpSteps reportSize (e.states n) (e.acts n) (e.states (n + 1)) :=
  tcp_step_cases (e.next n)

theorem transparent_of_execution (hworks : ∀ n, (e.acts n).Works) (n : Nat) :
    ∃ blocks, Transparent reportSize blocks (e.states n) :=
  Execution.invariant (P := fun s => ∃ blocks, Transparent reportSize blocks s)
    ⟨[], .connected reportSize⟩
    (fun n ⟨_, hs⟩ => (tcp_steps_of_execution n).transparent hs (hworks n).up) n

theorem running_of_execution (hworks : ∀ n, (e.acts n).Works) (n : Nat) : Running (e.states n) :=
  Execution.invariant (P := Running) Running.connected
    (fun n hs => by
      obtain ⟨blocks, htransparent⟩ := transparent_of_execution hworks n
      exact (tcp_steps_of_execution n).running hs (hworks n) htransparent.watching.2) n

/-! ## The host's reports -/

namespace TcpRelay

/-- How many of the host's reports task B has taken. -/
def handled (s : TcpRelay) : Nat := s.thread.outputs.length - s.thread.readQueue.length

/-- How much task B has to do before these reports, the host's first ones, are written. -/
def toWrite (reports : List Report) (s : TcpRelay) : Nat :=
  2 * (reports.length - s.handled) + ((reports.map payload).flatten.length - s.sent.length) +
    match s.taskB with
    | .writing _ => 1
    | _ => 0

end TcpRelay

variable {reports : List Report}

theorem length_payloads_le {reports' : List Report} (h : reports <+: reports') :
    (reports.map payload).flatten.length ≤ (reports'.map payload).flatten.length := by
  obtain ⟨rest, rfl⟩ := h
  rw [List.map_append, List.flatten_append, List.length_append]
  exact Nat.le_add_right _ _

/-- A task B that waits for a report has not taken all of these. -/
theorem Running.handled_lt (hs : Running s) (hreports : reports <+: s.thread.outputs)
    (hleft : s.sent.length < (reports.map payload).flatten.length) (hwaiting : s.taskB = .waiting) :
    s.handled < reports.length := by
  obtain ⟨taken, houtputs, hsent⟩ := hs.taken
  have hhandled : s.handled = taken.length := by
    rw [TcpRelay.handled, houtputs, List.length_append]
    omega
  by_contra hge
  have hfirst : reports <+: taken := by
    refine List.prefix_of_prefix_length_le hreports ?_ (by omega)
    rw [houtputs]
    exact List.prefix_append _ _
  have hwritten : s.sent.length = (taken.map payload).flatten.length := by
    rw [← hsent, TcpRelay.inHand, hwaiting, List.append_nil]
  have hle := length_payloads_le hfirst
  omega

theorem ThreadSteps.handled {t : UhidThread} {b : ThreadAct}
    (h : ThreadSteps (s.taskB ≠ .ended) s.thread b t) (hs : Running s) :
    TcpRelay.handled { s with thread := t } = s.handled := by
  cases h with
  | output =>
    simp only [TcpRelay.handled, List.length_append, List.length_singleton]
    omega
  | unheard _ hreceiving => exact absurd hs.taskB (by simpa using hreceiving)
  | _ => rfl

/-- Nothing adds to what task B has to do for these reports, and each of its steps does a part. -/
theorem TcpSteps.toWrite_le (h : TcpSteps reportSize s a s') (hs : Running s) (hworks : a.Works)
    (hreports : reports <+: s.thread.outputs)
    (hleft : s.sent.length < (reports.map payload).flatten.length) :
    s'.toWrite reports ≤ s.toWrite reports ∧
      (WritesOn a → s'.toWrite reports < s.toWrite reports) := by
  cases h with
  | thread h =>
    have hhandled := h.handled hs
    refine ⟨?_, by simp [WritesOn]⟩
    rw [TcpRelay.toWrite, TcpRelay.toWrite, hhandled]
  | emulatorSends | read | shutdownA => exact ⟨le_rfl, by simp [WritesOn]⟩
  | readFails | writeFails => exact hworks.elim
  | deliver =>
    refine ⟨?_, by simp [WritesOn]⟩
    simp only [TcpRelay.toWrite, TcpRelay.handled, TcpRelay.emit, push_outputs, push_readQueue]
    exact le_rfl
  | @take report queue hwaiting hqueue =>
    have hbehind := hs.handled_lt hreports hleft hwaiting
    have hlt : TcpRelay.toWrite reports { s.emit .hostToDevice report with
        taskB := .writing (payload report)
        thread := { s.thread with readQueue := queue } } < s.toWrite reports := by
      simp only [TcpRelay.handled, hqueue, List.length_cons] at hbehind
      simp only [TcpRelay.toWrite, TcpRelay.handled, TcpRelay.emit, hwaiting, hqueue,
        List.length_cons]
      obtain ⟨taken, houtputs, -⟩ := hs.taken
      have hlength := congrArg List.length houtputs
      simp only [hqueue, List.length_append, List.length_cons] at hlength
      omega
    exact ⟨hlt.le, fun _ => hlt⟩
  | @write n rest hwriting hn =>
    have hsent : (s.sent ++ rest.take n).length = s.sent.length + n := by
      rw [List.length_append, List.length_take, Nat.min_eq_left hn]
    refine ⟨?_, ?_⟩
    · simp only [TcpRelay.toWrite, TcpRelay.handled, hwriting, hsent]
      omega
    · rintro (hact | ⟨k, hk, hact⟩ | hact)
      · cases hact
      · cases hact
        simp only [TcpRelay.toWrite, TcpRelay.handled, hwriting, hsent]
        omega
      · cases hact
  | written hwriting =>
    have hlt : TcpRelay.toWrite reports { s with taskB := .waiting } < s.toWrite reports := by
      simp only [TcpRelay.toWrite, TcpRelay.handled, hwriting]
      omega
    exact ⟨hlt.le, fun _ => hlt⟩
  | closed _ _ hexited =>
    rw [hs.alive] at hexited
    cases hexited

/-- While these reports are not written task B can go on. -/
theorem Running.writes_enabled (hs : Running s) (hreports : reports <+: s.thread.outputs)
    (hleft : s.sent.length < (reports.map payload).flatten.length) :
    Enabled (TcpRelay.step reportSize) WritesOn s := by
  cases hB : s.taskB with
  | waiting =>
    have hbehind := hs.handled_lt hreports hleft hB
    have hle := hreports.length_le
    cases hqueue : s.thread.readQueue with
    | nil =>
      rw [TcpRelay.handled, hqueue, List.length_nil] at hbehind
      omega
    | cons report queue => exact ⟨.take, _, .inl rfl, by rw [TcpRelay.step, hB, hqueue]⟩
  | writing rest =>
    cases rest with
    | nil => exact ⟨.written, _, .inr (.inr rfl), by rw [TcpRelay.step, hB]⟩
    | cons b rest =>
      exact ⟨.write 1, _, .inr (.inl ⟨1, Nat.one_pos, rfl⟩), by
        rw [TcpRelay.step, hB]
        exact if_pos (by simp)⟩
  | ended => exact absurd hB hs.taskB

theorem TcpSteps.outputs_grow (h : TcpSteps reportSize s a s') :
    s.thread.outputs <+: s'.thread.outputs := by
  cases h with
  | thread h =>
    rw [h.outputs]
    exact List.prefix_append _ _
  | deliver => exact ⟨[], (List.append_nil _).trans (push_outputs _ _).symm⟩
  | _ => exact List.prefix_refl _

/-- The reports the host has given so far are written at some time. -/
theorem TcpFair.writes (hfair : TcpFair e) (hworks : ∀ n, (e.acts n).Works) :
    e.LeadsTo (fun s => reports <+: s.thread.outputs)
      (fun s => (reports.map payload).flatten.length ≤ s.sent.length) := by
  refine hfair.taskB.leadsTo (TcpRelay.toWrite reports) ?_ ?_
  · intro n hreports hleft
    have hstep := tcp_steps_of_execution (e := e) n
    refine .inr ⟨hreports.trans hstep.outputs_grow, ?_⟩
    exact hstep.toWrite_le (running_of_execution hworks n) (hworks n) hreports (by omega)
  · intro n hreports hleft
    exact (running_of_execution hworks n).writes_enabled hreports (by omega)

/-! ## The emulator's blocks -/

namespace TcpRelay

/-- How many bytes of the emulator's stream task A has read. -/
def consumed (reportSize : Nat) (s : TcpRelay) : Nat :=
  s.queued.length * reportSize + s.unfinished.length

/-- How much task A has to do before this many blocks are queued. -/
def toQueue (reportSize count : Nat) (s : TcpRelay) : Nat :=
  (count * reportSize - s.consumed reportSize) + (count - s.queued.length)

end TcpRelay

variable {blocks : List Report} {count : Nat}

theorem length_flatten_of_sized (h : ∀ b ∈ blocks, b.length = reportSize) :
    blocks.flatten.length = blocks.length * reportSize := by
  induction blocks with
  | nil => rw [List.flatten_nil, List.length_nil, List.length_nil, Nat.zero_mul]
  | cons b blocks ih =>
    have hhead := h b List.mem_cons_self
    have htail := ih fun b' hb' => h b' (List.mem_cons_of_mem _ hb')
    rw [List.flatten_cons, List.length_append, hhead, htail, List.length_cons, Nat.succ_mul,
      Nat.add_comm]

/-- What the emulator has sent is read or waits to be read. -/
theorem Transparent.length_received (hs : Transparent reportSize blocks s)
    (halive : s.thread.alive = true) :
    s.consumed reportSize + s.incoming.length = s.received.length := by
  rw [← hs.toHost, TcpRelay.consumed, hs.toDevice.2 halive, List.length_append, List.length_append,
    length_flatten_of_sized hs.sized]

theorem TcpSteps.received_grow (h : TcpSteps reportSize s a s') : s.received <+: s'.received := by
  cases h with
  | emulatorSends => exact List.prefix_append _ _
  | _ => exact List.prefix_refl _

theorem TcpSteps.queued_le (h : TcpSteps reportSize s a s') : s.queued.length ≤ s'.queued.length := by
  cases h with
  | thread h =>
    rw [TcpRelay.queued, TcpRelay.queued, h.kept.1]
  | deliver =>
    rw [TcpRelay.queued, TcpRelay.queued, push_queued]
    exact (List.prefix_append _ _).length_le
  | _ => exact le_rfl

/-- A buffer with room is not the last of so many blocks. -/
theorem consumed_lt {queued filled count : Nat} (hleft : queued < count)
    (hroom : filled < reportSize) : queued * reportSize + filled < count * reportSize := by
  have hnext : (queued + 1) * reportSize ≤ count * reportSize := Nat.mul_le_mul_right _ hleft
  rw [Nat.succ_mul] at hnext
  omega

/-- Nothing adds to what task A has to do for these blocks, and each of its steps does a part. -/
theorem TcpSteps.toQueue_le (h : TcpSteps reportSize s a s') (hs : Running s) (hworks : a.Works)
    (hshutdown : s.shutdownA = false) (hleft : s.queued.length < count) :
    s'.toQueue reportSize count ≤ s.toQueue reportSize count ∧
      (ReadsOn a → s'.toQueue reportSize count < s.toQueue reportSize count) := by
  cases h with
  | thread h =>
    refine ⟨?_, by simp [ReadsOn]⟩
    simp only [TcpRelay.toQueue, TcpRelay.consumed, TcpRelay.queued, h.kept.1]
    exact le_rfl
  | emulatorSends | take | write | written => exact ⟨le_rfl, by simp [ReadsOn]⟩
  | readFails | writeFails => exact hworks.elim
  | shutdownA _ hclosed =>
    rw [hshutdown] at hclosed
    cases hclosed
  | closed _ _ hexited =>
    rw [hs.alive] at hexited
    cases hexited
  | @read n filled hreading hn hroom =>
    have hfilled : (filled ++ s.incoming.take n).length = filled.length + n := by
      rw [List.length_append, List.length_take, Nat.min_eq_left hn]
    refine ⟨?_, ?_⟩
    · simp only [TcpRelay.toQueue, TcpRelay.consumed, TcpRelay.unfinished, TcpRelay.queued,
        hreading, hfilled]
      omega
    · rintro (⟨k, hk, hact⟩ | hact)
      · cases hact
        have hlt := consumed_lt hleft (show filled.length < reportSize by omega)
        simp only [TcpRelay.queued] at hlt
        simp only [TcpRelay.toQueue, TcpRelay.consumed, TcpRelay.unfinished, TcpRelay.queued,
          hreading, hfilled]
        omega
      · cases hact
  | @deliver data hreading hfull =>
    have hqueued := push_queued s.thread data
    rw [if_pos hs.alive] at hqueued
    have hlt : TcpRelay.toQueue reportSize count { s.emit .deviceToHost data with
        taskA := .reading [], thread := (s.thread.push data).getD s.thread } <
          s.toQueue reportSize count := by
      have hmul := Nat.add_one_mul s.queued.length reportSize
      simp only [TcpRelay.queued] at hleft hmul
      simp only [TcpRelay.toQueue, TcpRelay.consumed, TcpRelay.unfinished, TcpRelay.queued,
        hreading, hfull, hqueued, List.length_append, List.length_singleton,
        List.length_nil] at hleft hmul ⊢
      omega
    exact ⟨hlt.le, fun _ => hlt⟩

/-- While these blocks are not queued task A can go on. -/
theorem Transparent.reads_enabled (hs : Transparent reportSize blocks s)
    (halive : s.thread.alive = true) (hsent : count * reportSize ≤ s.received.length)
    (hleft : s.queued.length < count) : Enabled (TcpRelay.step reportSize) ReadsOn s := by
  obtain ⟨filled, hreading, hle⟩ := hs.taskA
  by_cases hfull : filled.length = reportSize
  · exact ⟨.deliver, _, .inr rfl, by
      rw [TcpRelay.step, hreading]
      exact if_pos hfull⟩
  · have hlt := consumed_lt hleft (show filled.length < reportSize by omega)
    have hlength := hs.length_received halive
    simp only [TcpRelay.consumed, TcpRelay.unfinished, hreading] at hlength
    exact ⟨.read 1, _, .inl ⟨1, Nat.one_pos, rfl⟩, by
      rw [TcpRelay.step, hreading]
      exact if_pos (by omega)⟩

theorem TcpFair.queues (hfair : TcpFair e) (hworks : ∀ n, (e.acts n).Works) :
    e.LeadsTo (fun s => count * reportSize ≤ s.received.length)
      (fun s => count ≤ s.queued.length) := by
  refine hfair.taskA.leadsTo (TcpRelay.toQueue reportSize count) ?_ ?_
  · intro n hsent hleft
    have hstep := tcp_steps_of_execution (e := e) n
    obtain ⟨blocks, hs⟩ := transparent_of_execution hworks n
    refine .inr ⟨hsent.trans hstep.received_grow.length_le, ?_⟩
    exact hstep.toQueue_le (running_of_execution hworks n) (hworks n) hs.watching.2 (by omega)
  · intro n hsent hleft
    obtain ⟨blocks, hs⟩ := transparent_of_execution hworks n
    exact hs.reads_enabled (running_of_execution hworks n).alive hsent (by omega)

/-! ## The device -/

namespace UhidThread

/-- How far the thread is from writing to the device. -/
def toDraining (t : UhidThread) : Nat :=
  match t.phase with
  | .checking => 1
  | .sleeping => 2
  | .polling => 3
  | .draining | .exited => 0

/-- How far the thread is from having written so many reports. -/
def toWrite (count : Nat) (t : UhidThread) : Nat := 4 * (count - t.inputs.length) + t.toDraining

end UhidThread

theorem push_inputs (t : UhidThread) (data : Report) :
    ((t.push data).getD t).inputs = t.inputs := by
  rw [UhidThread.push]
  split <;> rfl

/-- Every step of a thread that works brings the next report of its queue nearer to the device. -/
theorem ThreadSteps.toWrite_lt {receiving : Bool} {t t' : UhidThread} {b : ThreadAct}
    (h : ThreadSteps receiving t b t') (hworks : (TcpAct.thread b).Works)
    (hshutdown : t.shutdown = false) (hreceiving : receiving = true)
    (hqueued : count ≤ (t.inputs ++ t.writeQueue).length) (hleft : t.inputs.length < count) :
    t'.toWrite count < t.toWrite count := by
  cases h with
  | leave _ hclosed =>
    rw [hshutdown] at hclosed
    cases hclosed
  | writeFails | pollFails => exact hworks.elim
  | unheard _ hunheard =>
    rw [hreceiving] at hunheard
    cases hunheard
  | drained _ hqueue =>
    rw [hqueue, List.append_nil] at hqueued
    omega
  | write hphase hqueue =>
    simp only [UhidThread.toWrite, UhidThread.toDraining, hphase, List.length_append,
      List.length_singleton]
    omega
  | goOn hphase | nothing hphase | output hphase | wake hphase =>
    simp only [UhidThread.toWrite, UhidThread.toDraining, hphase]
    omega

/-- A thread that is alive can go on. -/
theorem thread_enabled (halive : s.thread.alive = true) :
    Enabled (TcpRelay.step reportSize) (fun a => ∃ b, a = .thread b) s := by
  have hstep : ∃ t, s.thread.step (s.taskB ≠ .ended) s.thread.next = some t := by
    have hphase : s.thread.phase ≠ .exited := by simpa [UhidThread.alive] using halive
    by_cases hchecking : s.thread.phase = .checking
    · exact ⟨_, by rw [UhidThread.next, hchecking, UhidThread.step, hchecking]⟩
    · exact (UhidThread.step_next hphase hchecking).imp fun _ h => h.1
  obtain ⟨t, ht⟩ := hstep
  refine ⟨.thread s.thread.next, { s with thread := t }, ⟨_, rfl⟩, ?_⟩
  rw [TcpRelay.step, ht]
  rfl

theorem TcpFair.reaches (hfair : TcpFair e) (hworks : ∀ n, (e.acts n).Works) :
    e.LeadsTo (fun s => count ≤ s.queued.length) (fun s => count ≤ s.thread.inputs.length) := by
  refine hfair.thread.leadsTo (fun s => s.thread.toWrite count) ?_ ?_
  · intro n hqueued hleft
    have hstep := tcp_steps_of_execution (e := e) n
    have hs := running_of_execution hworks n
    refine .inr ⟨hqueued.trans hstep.queued_le, ?_⟩
    have hworks := hworks n
    generalize e.acts n = a at hstep hworks
    generalize e.states (n + 1) = s' at hstep
    cases hstep with
    | thread h =>
      have hlt := h.toWrite_lt hworks hs.watching (by simpa using hs.taskB) hqueued (by omega)
      exact ⟨hlt.le, fun _ => hlt⟩
    | deliver =>
      refine ⟨?_, by simp⟩
      simp only [UhidThread.toWrite, UhidThread.toDraining, push_inputs, push_phase]
      exact le_rfl
    | _ => exact ⟨le_rfl, by simp⟩
  · intro n _ _
    exact thread_enabled (running_of_execution hworks n).alive

/-! ## Delivery -/

theorem outputs_of_execution {n m : Nat} (hnm : n ≤ m) :
    (e.states n).thread.outputs <+: (e.states m).thread.outputs :=
  e.grows (fun s => s.thread.outputs) (fun k => (tcp_steps_of_execution k).outputs_grow) hnm

theorem received_of_execution {n m : Nat} (hnm : n ≤ m) :
    (e.states n).received <+: (e.states m).received :=
  e.grows TcpRelay.received (fun k => (tcp_steps_of_execution k).received_grow) hnm

/-- Once as many bytes are written as the first reports of the host hold, they are those reports. -/
theorem Transparent.sent_reports (hs : Transparent reportSize blocks s)
    (hreports : reports <+: s.thread.outputs)
    (hwritten : (reports.map payload).flatten.length ≤ s.sent.length) :
    (reports.map payload).flatten <+: s.sent := by
  have hall : (reports.map payload).flatten <+: s.sent ++ s.unsent := by
    rw [hs.toEmulator]
    obtain ⟨rest, hrest⟩ := hreports
    rw [← hrest, List.map_append, List.flatten_append]
    exact List.prefix_append _ _
  exact List.prefix_of_prefix_length_le hall (List.prefix_append _ _) hwritten

/-- Once the device has as many reports as the beginning of the emulator's stream has complete
blocks, its reports begin with those blocks. -/
theorem Transparent.input_blocks {stream : List UInt8} (hs : Transparent reportSize blocks s)
    (hstream : stream <+: s.received) (hcount : count * reportSize ≤ stream.length)
    (hin : count ≤ s.thread.inputs.length) :
    ∃ first rest, first.length = count ∧ (∀ b ∈ first, b.length = reportSize) ∧
      stream = first.flatten ++ rest ∧ first <+: s.thread.inputs := by
  have hinputs : s.thread.inputs <+: blocks := (List.prefix_append _ _).trans hs.toDevice.1
  have hlength : (blocks.take count).length = count := by
    have hle := hinputs.length_le
    rw [List.length_take]
    omega
  have hsized : ∀ b ∈ blocks.take count, b.length = reportSize := by
    intro b hb
    exact hs.sized b (List.mem_of_mem_take hb)
  have hflatten : (blocks.take count).flatten.length = count * reportSize := by
    rw [length_flatten_of_sized hsized, hlength]
  have hread : (blocks.take count).flatten <+: s.received := by
    refine List.IsPrefix.trans ?_ ⟨_, (List.append_assoc _ _ _).symm.trans hs.toHost⟩
    exact ⟨(blocks.drop count).flatten, by rw [← List.flatten_append, List.take_append_drop]⟩
  obtain ⟨rest, hsplit⟩ := List.prefix_of_prefix_length_le hread hstream (by omega)
  have htake : blocks.take count <+: blocks := ⟨_, List.take_append_drop count blocks⟩
  exact ⟨blocks.take count, rest, hlength, hsized, hsplit.symm,
    List.prefix_of_prefix_length_le htake hinputs (by omega)⟩

/-- In every fair execution in which the connection holds and the device works, what the host has
given at any moment is written to the emulator at some time, and the complete blocks of what the
emulator has sent are written to the device, each of them in order and nothing before them but what
came before. -/
theorem tcp_delivers (hfair : TcpFair e) (hworks : ∀ n, (e.acts n).Works) (hsize : 0 < reportSize)
    (n : Nat) :
    (∃ m, n ≤ m ∧ ((hostReports (e.schedule n)).map payload).flatten <+: (e.states m).sent) ∧
      ∃ m blocks rest, n ≤ m ∧ (∀ b ∈ blocks, b.length = reportSize) ∧ rest.length < reportSize ∧
        emulatorBytes (e.schedule n) = blocks.flatten ++ rest ∧
        blocks <+: (e.states m).thread.inputs := by
  have hgiven := given_of_run (e.run_schedule n)
  constructor
  · rw [← hgiven.outputs]
    obtain ⟨m, hnm, hwritten⟩ := hfair.writes hworks n (List.prefix_refl _)
    obtain ⟨blocks, hs⟩ := transparent_of_execution hworks m
    exact ⟨m, hnm, hs.sent_reports (outputs_of_execution hnm) hwritten⟩
  · rw [← hgiven.received]
    have hcount := Nat.div_mul_le_self (e.states n).received.length reportSize
    have hrest : (e.states n).received.length <
        (e.states n).received.length / reportSize * reportSize + reportSize :=
      Nat.lt_div_mul_add hsize
    obtain ⟨m, hnm, hin⟩ := (hfair.queues hworks).trans (hfair.reaches hworks) n hcount
    generalize (e.states n).received.length / reportSize = count at hcount hrest hin
    obtain ⟨blocks, hs⟩ := transparent_of_execution hworks m
    obtain ⟨first, rest, hlength, hsized, hsplit, hinputs⟩ :=
      hs.input_blocks (received_of_execution hnm) hcount hin
    refine ⟨m, first, rest, hnm, hsized, ?_, hsplit, hinputs⟩
    -- The blocks are all that are complete, so less than one block is left.
    rw [hsplit, List.length_append, length_flatten_of_sized hsized, hlength] at hrest
    omega

/-! ## A relay with nothing to do -/

/-- Everything that was given is delivered but the beginning of a block. -/
structure TcpIdle (reportSize : Nat) (s : TcpRelay) : Prop where
  alive : s.thread.alive = true
  watching : s.thread.shutdown = false
  writeQueue : s.thread.writeQueue = []
  settled : s.Settled reportSize
  taskA : ∃ filled, s.taskA = .reading filled
  taskB : s.taskB = .waiting

/-- The device thread goes around its loop. -/
def threadNext (s : TcpRelay) : TcpAct := .thread s.thread.next

theorem threadNext_works (s : TcpRelay) : (threadNext s).Works := by
  rw [threadNext, UhidThread.next]
  split <;> exact trivial

theorem UhidThread.step_idle (receiving : Bool) {t : UhidThread} (halive : t.alive = true)
    (hwatching : t.shutdown = false) (hqueue : t.writeQueue = []) :
    ∃ phase, phase ≠ .exited ∧ t.step receiving t.next = some { t with phase := phase } := by
  obtain ⟨phase, shutdown, writeQueue, readQueue, inputs, outputs⟩ := t
  subst hwatching hqueue
  cases phase with
  | exited => cases halive
  | checking => exact ⟨.draining, by simp, rfl⟩
  | draining => exact ⟨.polling, by simp, rfl⟩
  | polling => exact ⟨.sleeping, by simp, rfl⟩
  | sleeping => exact ⟨.checking, by simp, rfl⟩

theorem TcpIdle.threadNext (h : TcpIdle reportSize s) :
    ∃ s', s.step reportSize (threadNext s) = some s' ∧ TcpIdle reportSize s' := by
  obtain ⟨phase, hphase, hstep⟩ :=
    UhidThread.step_idle (s.taskB ≠ .ended) h.alive h.watching h.writeQueue
  have hsettled := h.settled
  refine ⟨{ s with thread := { s.thread with phase := phase } }, ?_, decide_eq_true hphase,
    h.watching, h.writeQueue, ?_, h.taskA, h.taskB⟩
  · rw [Bridge.threadNext, TcpRelay.step, hstep]
    rfl
  · exact ⟨hsettled.incoming, hsettled.unfinished, hsettled.inHand, hsettled.readQueue⟩

theorem TcpFair.of_idle {e : Execution (TcpRelay.step reportSize) s}
    (h : ∀ n, TcpIdle reportSize (e.states n)) (hacts : ∀ n, ∃ b, e.acts n = .thread b) :
    TcpFair e := by
  refine ⟨?_, ?_, Execution.WeaklyFair.of_acts hacts⟩
  · refine (Execution.StronglyFair.of_never ?_).weaklyFair
    rintro n ⟨a, s', ⟨k, hk, rfl⟩ | rfl, hstep⟩
    · cases tcp_step_cases hstep with
      | read _ hle _ =>
        rw [(h n).settled.incoming, List.length_nil] at hle
        omega
    · cases tcp_step_cases hstep with
      | deliver hreading hfull =>
        have hlt := (h n).settled.unfinished
        simp only [TcpRelay.unfinished, hreading] at hlt
        omega
  · refine (Execution.StronglyFair.of_never ?_).weaklyFair
    rintro n ⟨a, s', rfl | ⟨k, hk, rfl⟩ | rfl, hstep⟩
    · cases tcp_step_cases hstep with
      | take _ hqueue =>
        rw [(h n).settled.readQueue] at hqueue
        cases hqueue
    · cases tcp_step_cases hstep with
      | write hwriting _ =>
        rw [(h n).taskB] at hwriting
        cases hwriting
    · cases tcp_step_cases hstep with
      | written hwriting =>
        rw [(h n).taskB] at hwriting
        cases hwriting

theorem tcp_delivers_bothWays : ∃ e : Execution (TcpRelay.step 2) .connected, TcpFair e ∧
    (∃ m, [7, 8] <+: (e.states m).sent) ∧
      ∃ m blocks rest, (∀ b ∈ blocks, b.length = 2) ∧ rest.length < 2 ∧
        [1, 2, 3] = blocks.flatten ++ rest ∧ blocks <+: (e.states m).thread.inputs := by
  obtain ⟨s, hrun, hidle⟩ :
      ∃ s, run (TcpRelay.step 2) .connected bothWays = some s ∧ TcpIdle 2 s :=
    ⟨_, rfl, rfl, rfl, rfl, ⟨rfl, by decide, rfl, rfl⟩, ⟨_, rfl⟩, rfl⟩
  obtain ⟨e', hidle'⟩ := Execution.exists_scheduled threadNext hidle fun _ h => h.threadNext
  have hthread : ∀ n, ∃ b, e'.acts n = .thread b := fun n => ⟨_, (hidle' n).2⟩
  have hfair' : TcpFair e' := .of_idle (fun n => (hidle' n).1) hthread
  obtain ⟨e, hbegin, hthen, hweak, -⟩ := Execution.exists_after hrun e'
  have hfair : TcpFair e :=
    ⟨hweak _ hfair'.taskA, hweak _ hfair'.taskB, hweak _ hfair'.thread⟩
  have hworks : ∀ n, (e.acts n).Works := by
    intro n
    by_cases hn : n < bothWays.length
    · have hall : ∀ a ∈ bothWays, a.Works := by simp [bothWays, TcpAct.Works]
      rw [hbegin n _ (List.getElem?_eq_getElem hn)]
      exact hall _ (List.getElem_mem hn)
    · obtain ⟨k, rfl⟩ := Nat.exists_eq_add_of_le (Nat.le_of_not_lt hn)
      rw [hthen, (hidle' k).2]
      exact threadNext_works _
  have hdelivers := tcp_delivers hfair hworks (by decide) bothWays.length
  rw [Execution.schedule_of_begin hbegin] at hdelivers
  obtain ⟨⟨m, -, hsent⟩, m', blocks, rest, -, hsized, hrest, hstream, hinputs⟩ := hdelivers
  exact ⟨e, hfair, ⟨m, hsent⟩, m', blocks, rest, hsized, hrest, hstream, hinputs⟩

end Hwwctl.Bridge
