import Hwwctl.Bridge.Proofs.DatagramProofs
import Hwwctl.Bridge.Proofs.UnixProofs
import Hwwctl.Bridge.Uhid

/-!
# What the host does at the device

One poll takes one event from the kernel's queue. Whatever the kernel puts between them, the host's
reports come to the relay in their order and each request is answered once; seen from the relay, a
device is a thread that polls.
-/

namespace Hwwctl.Bridge

open Transition

/-! ## One poll -/

/-- The report an event carries. -/
def KernelEvent.report : KernelEvent → Option Report
  | .known (.output data) => some data
  | _ => none

/-- The answer that an event asks for: an empty report, or that the report is set. -/
def KernelEvent.reply : KernelEvent → Option Reply
  | .known (.getReport id) => some (.getReport id 0 [])
  | .known (.setReport id) => some (.setReport id 0)
  | _ => none

namespace VirtualHidDevice

/-- The device after the first of its events was handled. -/
def handle (dev : VirtualHidDevice) (event : KernelEvent) (events : List KernelEvent)
    (taken : Bool) : VirtualHidDevice where
  events := events
  replies := dev.replies ++ event.reply.toList.map (·, taken)

variable {dev : VirtualHidDevice} {env : PollEnv}

theorem poll_fault {e : String} (h : env.fault = some e) :
    dev.pollOutputReport env = (.error s!"UHID read I/O error: {e}", dev) := by
  simp only [pollOutputReport, read, h]

theorem poll_idle (h : env.fault = none) (hevents : dev.events = []) :
    dev.pollOutputReport env = (.ok none, dev) := by
  simp only [pollOutputReport, read, h, hevents]

/-- An event is taken from the queue whether or not it says anything to the relay. -/
theorem poll_event {event : KernelEvent} {events : List KernelEvent} (h : env.fault = none)
    (hevents : dev.events = event :: events) :
    dev.pollOutputReport env = (.ok event.report, dev.handle event events env.replyTaken) := by
  simp only [pollOutputReport, read, h, hevents]
  cases event with
  | unknown t => simp [KernelEvent.report, KernelEvent.reply, handle]
  | known event =>
    cases event with
    | getReport id | setReport id =>
      simp [KernelEvent.report, KernelEvent.reply, handle, writeReply]
    | _ => simp [KernelEvent.report, KernelEvent.reply, handle]

end VirtualHidDevice

/-! ## The relays -/

def TrezorAct.threadAct : TrezorAct → Option ThreadAct
  | .thread b => some b
  | _ => none

/-- The Trezor relay; no look at its channel ends the thread. -/
def TrezorRelay.threaded (decode : Report → Option String) : Threaded TrezorRelay TrezorAct where
  step := step decode
  thread := thread
  setThread s t := { s with thread := t }
  act := .thread
  threadAct := TrezorAct.threadAct
  receiving s := s.taskB ≠ .ended
  leaves _ := false
  threadAct_act _ := rfl
  act_of_threadAct a b h := by
    cases a with
    | thread c => rw [Option.some.inj h]
    | _ => cases h
  step_act s b := by
    have hthread : s.thread.trezorStep (s.taskB ≠ .ended) b =
        s.thread.stepWith (fun _ => false) (s.taskB ≠ .ended) b := by
      cases b with
      | check =>
        have hrecv : s.thread.tryRecv ≠ .ok := by
          rw [UhidThread.tryRecv]
          split <;> simp
        cases hphase : s.thread.phase with
        | _ => simp [UhidThread.trezorStep, UhidThread.stepWith, hphase, hrecv]
      | _ => rfl
    show (s.thread.trezorStep (s.taskB ≠ .ended) b).map _ = _
    rw [hthread]
  thread_setThread _ _ := rfl
  setThread_thread _ := rfl
  setThread_setThread _ _ _ := rfl
  receiving_setThread _ _ := rfl
  outputs_apart s a s' ha h := by
    cases trezor_step_cases h with
    | thread => cases ha
    | received => exact push_outputs _ _
    | _ => rfl

def TcpAct.threadAct : TcpAct → Option ThreadAct
  | .thread b => some b
  | _ => none

theorem stepWith_shutdown (receiving : Bool) (t : UhidThread) (b : ThreadAct) :
    t.stepWith (fun shutdown => shutdown) receiving b = t.step receiving b := by
  cases b with
  | check => rfl
  | _ => rfl

def TcpRelay.threaded (reportSize : Nat) : Threaded TcpRelay TcpAct where
  step := step reportSize
  thread := thread
  setThread s t := { s with thread := t }
  act := .thread
  threadAct := TcpAct.threadAct
  receiving s := s.taskB ≠ .ended
  leaves shutdown := shutdown
  threadAct_act _ := rfl
  act_of_threadAct a b h := by
    cases a with
    | thread c => rw [Option.some.inj h]
    | _ => cases h
  step_act s b := by
    rw [stepWith_shutdown]
    rfl
  thread_setThread _ _ := rfl
  setThread_thread _ := rfl
  setThread_setThread _ _ _ := rfl
  receiving_setThread _ _ := rfl
  outputs_apart s a s' ha h := by
    cases tcp_step_cases h with
    | thread => cases ha
    | deliver => exact push_outputs _ _
    | _ => rfl

def UnixAct.threadAct : UnixAct → Option ThreadAct
  | .thread b => some b
  | _ => none

def UnixRelay.threaded (kind : SocketKind) (reportSize : Nat) : Threaded UnixRelay UnixAct where
  step := step kind reportSize
  thread := thread
  setThread s t := { s with thread := t }
  act := .thread
  threadAct := UnixAct.threadAct
  receiving s := s.task ≠ .returned
  leaves shutdown := shutdown
  threadAct_act _ := rfl
  act_of_threadAct a b h := by
    cases a with
    | thread c => rw [Option.some.inj h]
    | _ => cases h
  step_act s b := by
    rw [stepWith_shutdown]
    rfl
  thread_setThread _ _ := rfl
  setThread_thread _ := rfl
  setThread_setThread _ _ _ := rfl
  receiving_setThread _ _ := rfl
  outputs_apart s a s' ha h := by
    cases unix_step_cases h with
    | thread => cases ha
    | block | datagram =>
      rw [forward_thread]
      exact push_outputs _ _
    | _ => rfl

/-! ## One step -/

section Attached

variable {σ α : Type} {m : Threaded σ α} {s₀ s s' : Attached σ} {a : DeviceAct α}

/-- The steps at a device. -/
inductive DeviceSteps (m : Threaded σ α) (s : Attached σ) : DeviceAct α → Attached σ → Prop where
  | kernel {event : KernelEvent} :
    DeviceSteps m s (.kernel event) { s with device := s.device.queue event }
  | fault {env : PollEnv} {relay : σ} (hfault : env.fault ≠ none)
    (h : m.step s.relay (m.act .pollFails) = some relay) :
    DeviceSteps m s (.poll env) { s with relay := relay }
  | idle {env : PollEnv} {relay : σ} (hevents : s.device.events = [])
    (h : m.step s.relay (m.act (.poll none)) = some relay) :
    DeviceSteps m s (.poll env) { s with relay := relay }
  | event {env : PollEnv} {relay : σ} {event : KernelEvent} {events : List KernelEvent}
    (hevents : s.device.events = event :: events)
    (h : m.step s.relay (m.act (.poll event.report)) = some relay) :
    DeviceSteps m s (.poll env) ⟨s.device.handle event events env.replyTaken, relay⟩
  | relay {b : α} {relay : σ} (hpolls : ∀ c, m.threadAct b = some c → c.polls = false)
    (h : m.step s.relay b = some relay) : DeviceSteps m s (.relay b) { s with relay := relay }

theorem device_step_cases (h : s.step m a = some s') : DeviceSteps m s a s' := by
  cases a with
  | kernel event =>
    cases h
    exact .kernel
  | poll env =>
    cases hfault : env.fault with
    | some e =>
      simp only [Attached.step, VirtualHidDevice.poll_fault hfault] at h
      obtain ⟨relay, hrelay, rfl⟩ := Option.map_eq_some_iff.1 h
      exact .fault (by simp [hfault]) hrelay
    | none =>
      cases hevents : s.device.events with
      | nil =>
        simp only [Attached.step, VirtualHidDevice.poll_idle hfault hevents] at h
        obtain ⟨relay, hrelay, rfl⟩ := Option.map_eq_some_iff.1 h
        exact .idle hevents hrelay
      | cons event events =>
        simp only [Attached.step, VirtualHidDevice.poll_event hfault hevents] at h
        obtain ⟨relay, hrelay, rfl⟩ := Option.map_eq_some_iff.1 h
        exact .event hevents hrelay
  | relay b =>
    simp only [Attached.step] at h
    split at h
    · cases h
    · obtain ⟨relay, hrelay, rfl⟩ := Option.map_eq_some_iff.1 h
      refine .relay ?_ hrelay
      intro c hc
      have hany : (m.threadAct b).any ThreadAct.polls ≠ true := ‹_›
      rw [hc] at hany
      exact Bool.eq_false_iff.2 hany

/-! ## Every event is handled once -/

/-- The events that the kernel queued. -/
def DeviceAct.queued (acts : List (DeviceAct α)) : List KernelEvent :=
  acts.filterMap fun
    | .kernel event => some event
    | _ => none

/-- The steps of the relay other than the polls. -/
def DeviceAct.relayed (acts : List (DeviceAct α)) : List α :=
  acts.filterMap fun
    | .relay a => some a
    | _ => none

/-- The report that the thread takes from the device. -/
def ThreadAct.output : ThreadAct → Option Report
  | .poll output => output
  | _ => none

/-- The report that a step of a relay takes from its device. -/
def Threaded.polled (m : Threaded σ α) (a : α) : Option Report :=
  (m.threadAct a).bind ThreadAct.output

def Threaded.apart (m : Threaded σ α) (a : α) : Bool := !(m.threadAct a).any ThreadAct.polls

/-- What was queued is handled from its beginning on, and what is handled was done: its reports are
with the relay, its requests are answered, and all the relay saw of it is polls. -/
structure Served (m : Threaded σ α) (s₀ s : Attached σ) (acts : List (DeviceAct α))
    (handled : List KernelEvent) : Prop where
  events : handled ++ s.device.events = s₀.device.events ++ DeviceAct.queued acts
  outputs : (m.thread s.relay).outputs =
    (m.thread s₀.relay).outputs ++ handled.filterMap KernelEvent.report
  replies : s.device.replies.map Prod.fst =
    s₀.device.replies.map Prod.fst ++ handled.filterMap KernelEvent.reply
  relay : ∃ inner, run m.step s₀.relay inner = some s.relay ∧
    inner.filterMap m.polled = handled.filterMap KernelEvent.report ∧
    inner.filter m.apart = DeviceAct.relayed acts

theorem stepWith_outputs {leaves : Bool → Bool} {receiving : Bool} {t t' : UhidThread}
    {b : ThreadAct} (h : t.stepWith leaves receiving b = some t') :
    t'.outputs = t.outputs ++ b.output.toList := by
  by_cases hb : b = .check
  · subst hb
    simp only [UhidThread.stepWith] at h
    split at h
    · cases h
      exact (List.append_nil _).symm
    · cases h
  · have hstep : t.step receiving b = some t' := by
      cases b with
      | check => exact absurd rfl hb
      | _ => exact h
    cases thread_step_cases hstep with
    | output | unheard => rfl
    | _ => exact (List.append_nil _).symm

/-- A relay takes reports from its device only in the polls of its thread. -/
theorem Threaded.outputs {r r' : σ} {b : α} (h : m.step r b = some r') :
    (m.thread r').outputs = (m.thread r).outputs ++ (m.polled b).toList := by
  cases hb : m.threadAct b with
  | none =>
    rw [m.outputs_apart r b r' hb h, polled, hb]
    exact (List.append_nil _).symm
  | some c =>
    obtain rfl := m.act_of_threadAct b c hb
    rw [m.step_act] at h
    obtain ⟨t', ht', rfl⟩ := Option.map_eq_some_iff.1 h
    rw [m.thread_setThread, stepWith_outputs ht', polled, hb]
    rfl

theorem queued_concat (acts : List (DeviceAct α)) (a : DeviceAct α) :
    DeviceAct.queued (acts ++ [a]) = DeviceAct.queued acts ++ DeviceAct.queued [a] :=
  List.filterMap_append

theorem relayed_concat (acts : List (DeviceAct α)) (a : DeviceAct α) :
    DeviceAct.relayed (acts ++ [a]) = DeviceAct.relayed acts ++ DeviceAct.relayed [a] :=
  List.filterMap_append

theorem Served.start : Served m s₀ s₀ [] [] := by
  refine ⟨(List.append_nil _).symm, (List.append_nil _).symm, (List.append_nil _).symm, ?_⟩
  exact ⟨[], run_nil, rfl, rfl⟩

theorem filterMap_singleton {β γ : Type} (f : β → Option γ) (b : β) :
    [b].filterMap f = (f b).toList := by
  cases hb : f b with
  | none => simp [hb]
  | some c => simp [hb]

variable {acts : List (DeviceAct α)} {handled : List KernelEvent}

/-- The relay takes a step, and `events` are handled in it. -/
theorem Served.step {events : List KernelEvent} {b : α} (hs : Served m s₀ s acts handled)
    (h : m.step s.relay b = some s'.relay)
    (hevents : events ++ s'.device.events = s.device.events)
    (hpolled : (m.polled b).toList = events.filterMap KernelEvent.report)
    (hreplies : s'.device.replies.map Prod.fst =
      s.device.replies.map Prod.fst ++ events.filterMap KernelEvent.reply)
    (hqueued : DeviceAct.queued [a] = [])
    (hrelayed : DeviceAct.relayed [a] = [b].filter m.apart) :
    Served m s₀ s' (acts ++ [a]) (handled ++ events) := by
  refine ⟨?_, ?_, ?_, ?_⟩
  · rw [List.append_assoc, hevents, queued_concat, hqueued, List.append_nil]
    exact hs.events
  · rw [m.outputs h, hs.outputs, hpolled, List.filterMap_append, List.append_assoc]
  · rw [hreplies, hs.replies, List.filterMap_append, List.append_assoc]
  · obtain ⟨inner, hrun, hinner, hapart⟩ := hs.relay
    refine ⟨inner ++ [b], ?_, ?_, ?_⟩
    · rw [run_concat, hrun]
      exact h
    · rw [List.filterMap_append, hinner, filterMap_singleton, hpolled, List.filterMap_append]
    · rw [List.filter_append, hapart, relayed_concat, hrelayed]

theorem polled_act (b : ThreadAct) : m.polled (m.act b) = b.output := by
  rw [Threaded.polled, m.threadAct_act]
  rfl

theorem apart_poll {b : ThreadAct} (hb : b.polls = true) : [m.act b].filter m.apart = [] := by
  have hapart : m.apart (m.act b) = false := by
    rw [Threaded.apart, m.threadAct_act, Option.any_some, hb]
    rfl
  rw [List.filter_cons_of_neg (by simp [hapart]), List.filter_nil]

theorem DeviceSteps.served (h : DeviceSteps m s a s') (hs : Served m s₀ s acts handled) :
    ∃ events, Served m s₀ s' (acts ++ [a]) (handled ++ events) := by
  cases h with
  | @kernel event =>
    refine ⟨[], ?_⟩
    rw [List.append_nil]
    refine ⟨?_, hs.outputs, hs.replies, ?_⟩
    · show handled ++ (s.device.events ++ [event]) = _
      rw [← List.append_assoc, hs.events, List.append_assoc, queued_concat]
      rfl
    · rw [relayed_concat]
      exact (List.append_nil (DeviceAct.relayed acts)).symm ▸ hs.relay
  | fault _ h | idle _ h =>
    refine ⟨[], hs.step h rfl ?_ (List.append_nil _).symm rfl (apart_poll rfl).symm⟩
    rw [polled_act]
    rfl
  | @event env relay event events hevents h =>
    refine ⟨[event], hs.step h hevents.symm ?_ ?_ rfl (apart_poll rfl).symm⟩
    · rw [polled_act, filterMap_singleton]
      rfl
    · have hreply : (event.reply.toList.map (·, env.replyTaken)).map Prod.fst =
          event.reply.toList := by
        rw [List.map_map]
        exact List.map_id _
      show (s.device.replies ++ event.reply.toList.map (·, env.replyTaken)).map Prod.fst = _
      rw [filterMap_singleton, List.map_append, hreply]
  | @relay b relay hpolls h =>
    have hcases : (m.polled b).toList = [] ∧ m.apart b = true := by
      rw [Threaded.polled, Threaded.apart]
      cases hb : m.threadAct b with
      | none => exact ⟨rfl, rfl⟩
      | some c =>
        have hc := hpolls c hb
        rw [Option.any_some, hc]
        cases c with
        | poll => cases hc
        | _ => exact ⟨rfl, rfl⟩
    refine ⟨[], hs.step h rfl hcases.1 (List.append_nil _).symm rfl ?_⟩
    rw [List.filter_cons_of_pos hcases.2]
    rfl

theorem served_of_run (hrun : run (Attached.step m) s₀ acts = some s) :
    ∃ handled, Served m s₀ s acts handled := by
  refine history_of_step (R := fun acts s => ∃ handled, Served m s₀ s acts handled)
    ⟨[], .start⟩ ?_ hrun
  rintro p s a s' ⟨handled, hs⟩ ha
  obtain ⟨events, hserved⟩ := (device_step_cases ha).served hs
  exact ⟨handled ++ events, hserved⟩

/-! ## The thread gets to every event -/

/-- The thread is alive, its channel does not end it, and its reports are taken. -/
structure Threaded.Works (m : Threaded σ α) (r : σ) : Prop where
  alive : (m.thread r).phase ≠ .exited
  stays : m.leaves (m.thread r).shutdown = false
  receiving : m.receiving r = true

/-- The steps of the thread at a device that works. -/
def DeviceAct.Own (m : Threaded σ α) : DeviceAct α → Prop
  | .kernel _ => False
  | .poll env => env.fault = none ∧ env.replyTaken = true
  | .relay a => ∃ b, m.threadAct a = some b ∧ b ≠ .writeFails

/-- Between its polls a thread that stays gets on, and takes nothing from the device. -/
theorem stepWith_next {leaves : Bool → Bool} (receiving : Bool) {t : UhidThread}
    (halive : t.phase ≠ .exited) (hpolling : t.phase ≠ .polling)
    (hstays : leaves t.shutdown = false) : ∃ t', t.stepWith leaves receiving t.next = some t' ∧
      t'.phase ≠ .exited ∧ t'.shutdown = t.shutdown ∧ t'.readQueue = t.readQueue ∧
      t'.writeQueue.length ≤ t.writeQueue.length ∧ t'.toPoll < t.toPoll ∧
      t.next.polls = false ∧ t.next ≠ .writeFails := by
  obtain ⟨phase, shutdown, writeQueue, readQueue, inputs, outputs⟩ := t
  cases phase with
  | exited => exact absurd rfl halive
  | polling => exact absurd rfl hpolling
  | checking =>
    have hleaves : leaves shutdown = false := hstays
    refine ⟨_, rfl, ?_, rfl, rfl, Nat.le_refl _, ?_, rfl, by simp [UhidThread.next]⟩
    · simp [hleaves]
    · simp [UhidThread.toPoll, hleaves]
  | sleeping =>
    exact ⟨_, rfl, by simp, rfl, rfl, Nat.le_refl _, by simp [UhidThread.toPoll], rfl,
      by simp [UhidThread.next]⟩
  | draining =>
    cases writeQueue with
    | nil =>
      exact ⟨_, rfl, by simp, rfl, rfl, Nat.le_refl _, by simp [UhidThread.toPoll], rfl,
        by simp [UhidThread.next]⟩
    | cons report queue =>
      exact ⟨_, rfl, by simp, rfl, rfl, by simp, by simp [UhidThread.toPoll], rfl,
        by simp [UhidThread.next]⟩

/-- How much a thread has to do until the kernel's queue is empty. -/
def Threaded.work (m : Threaded σ α) (s : Attached σ) : Nat :=
  s.device.events.length * (4 + (m.thread s.relay).writeQueue.length) + (m.thread s.relay).toPoll

/-- What the relay has and will have of the host's reports. -/
def Threaded.toTake (m : Threaded σ α) (s : Attached σ) : List Report :=
  (m.thread s.relay).readQueue ++ s.device.events.filterMap KernelEvent.report

theorem Threaded.Works.next (hw : m.Works s.relay) (hevents : s.device.events ≠ []) :
    ∃ a s', a.Own m ∧ s.step m a = some s' ∧ m.Works s'.relay ∧ m.work s' < m.work s ∧
      m.toTake s' = m.toTake s ∧ s'.relay = m.setThread s.relay (m.thread s'.relay) := by
  by_cases hpolling : (m.thread s.relay).phase = .polling
  · obtain ⟨event, events, hqueue⟩ := List.exists_cons_of_ne_nil hevents
    let t : UhidThread := { m.thread s.relay with
      phase := .sleeping
      readQueue := (m.thread s.relay).readQueue ++ event.report.toList
      outputs := (m.thread s.relay).outputs ++ event.report.toList }
    have hthread : (m.thread s.relay).stepWith m.leaves (m.receiving s.relay)
        (.poll event.report) = some t := by
      cases hreport : event.report with
      | none => simp [UhidThread.stepWith, UhidThread.step, hpolling, t, hreport]
      | some report =>
        simp [UhidThread.stepWith, UhidThread.step, hpolling, t, hreport, hw.receiving]
    have hstep : s.step m (.poll ⟨none, true⟩) =
        some ⟨s.device.handle event events true, m.setThread s.relay t⟩ := by
      have hpoll : s.device.pollOutputReport ⟨none, true⟩ =
          (.ok event.report, s.device.handle event events true) :=
        VirtualHidDevice.poll_event rfl hqueue
      simp only [Attached.step, hpoll, ThreadAct.ofPoll, m.step_act, hthread, Option.map_some]
    have hown : (DeviceAct.poll ⟨none, true⟩).Own m := ⟨rfl, rfl⟩
    refine ⟨_, _, hown, hstep, ⟨?_, ?_, ?_⟩, ?_, ?_, ?_⟩
    · simp [m.thread_setThread, t]
    · rw [m.thread_setThread]
      exact hw.stays
    · rw [m.receiving_setThread]
      exact hw.receiving
    · simp only [Threaded.work, m.thread_setThread, VirtualHidDevice.handle, hqueue, t,
        UhidThread.toPoll, hpolling, List.length_cons, Nat.succ_mul]
      omega
    · simp only [Threaded.toTake, m.thread_setThread, VirtualHidDevice.handle, hqueue, t]
      rw [List.append_assoc, ← filterMap_singleton, ← List.filterMap_append]
      rfl
    · rw [m.thread_setThread]
  · obtain ⟨t, hthread, halive, hshutdown, hread, hwrite, htoPoll, hpolls, hfails⟩ :=
      stepWith_next (m.receiving s.relay) hw.alive hpolling hw.stays
    have hstep : s.step m (.relay (m.act (m.thread s.relay).next)) =
        some { s with relay := m.setThread s.relay t } := by
      simp only [Attached.step, m.threadAct_act, Option.any_some, hpolls, Bool.false_eq_true,
        if_false, m.step_act, hthread, Option.map_some]
    have hown : (DeviceAct.relay (m.act (m.thread s.relay).next)).Own m :=
      ⟨_, m.threadAct_act _, hfails⟩
    refine ⟨_, _, hown, hstep, ⟨?_, ?_, ?_⟩, ?_, ?_, ?_⟩
    · rw [m.thread_setThread]
      exact halive
    · rw [m.thread_setThread, hshutdown]
      exact hw.stays
    · rw [m.receiving_setThread]
      exact hw.receiving
    · have hle := Nat.mul_le_mul_left s.device.events.length (Nat.add_le_add_left hwrite 4)
      simp only [Threaded.work, m.thread_setThread]
      omega
    · rw [Threaded.toTake, m.thread_setThread, hread]
      rfl
    · rw [m.thread_setThread]

/-- A thread that works gets to the end of the kernel's queue. -/
theorem Threaded.Works.serves (hw : m.Works s.relay) : ∃ acts s', (∀ a ∈ acts, a.Own m) ∧
    run (Attached.step m) s acts = some s' ∧ m.Works s'.relay ∧ s'.device.events = [] ∧
    m.toTake s' = m.toTake s ∧ s'.relay = m.setThread s.relay (m.thread s'.relay) := by
  obtain ⟨acts, s', hown, hrun, ⟨hworks, htake, hrelay⟩, hevents⟩ := exists_run_of_work
    (P := fun u => m.Works u.relay ∧ m.toTake u = m.toTake s ∧
      u.relay = m.setThread s.relay (m.thread u.relay))
    (Q := fun u => u.device.events = []) (DeviceAct.Own m) m.work
    ⟨hw, rfl, (m.setThread_thread _).symm⟩ (by
      rintro u ⟨hu, htake, hrelay⟩ hleft
      obtain ⟨a, u', hown, hstep, hu', hlt, htake', hrelay'⟩ := hu.next hleft
      refine ⟨a, u', hown, hstep, ⟨hu', htake'.trans htake, ?_⟩, hlt⟩
      rw [hrelay, m.setThread_setThread] at hrelay'
      exact hrelay')
  exact ⟨acts, s', hown, hrun, hworks, hevents, htake, hrelay⟩

/-- The thread's own steps queue nothing. -/
theorem queued_own (hown : ∀ a ∈ acts, a.Own m) : DeviceAct.queued acts = [] := by
  refine List.filterMap_eq_nil_iff.2 ?_
  intro a ha
  cases a with
  | kernel event => exact absurd (hown _ ha) id
  | _ => rfl

/-- Whatever the kernel queues and in whatever order the steps come, the events are handled in
their order and each of them once; the relay gets the reports among them, the kernel one answer to
each request, and nothing else of them is seen. A thread that works gets through all of them. -/
theorem device_serves (hrun : run (Attached.step m) s₀ acts = some s) :
    (∃ handled, Served m s₀ s acts handled) ∧
      (m.Works s.relay → ∃ acts' s', (∀ a ∈ acts', a.Own m) ∧
        run (Attached.step m) s acts' = some s' ∧
        Served m s₀ s' (acts ++ acts') (s₀.device.events ++ DeviceAct.queued acts)) := by
  refine ⟨served_of_run hrun, ?_⟩
  intro hworks
  obtain ⟨acts', s', hown, hrun', -, hevents, -⟩ := hworks.serves
  have hall : run (Attached.step m) s₀ (acts ++ acts') = some s' := by
    rw [run_append, hrun]
    exact hrun'
  obtain ⟨handled, hserved⟩ := served_of_run hall
  have hhandled := hserved.events
  have hqueued : DeviceAct.queued (acts ++ acts') = DeviceAct.queued acts := by
    rw [DeviceAct.queued, List.filterMap_append]
    exact (congrArg _ (queued_own hown)).trans (List.append_nil _)
  rw [hevents, List.append_nil, hqueued] at hhandled
  exact ⟨acts', s', hown, hrun', hhandled ▸ hserved⟩

/-- The host opens the device, writes a report, asks for one, and writes another; the kernel adds
an event of a new type. -/
def hostOpens : List (DeviceAct TrezorAct) :=
  [.kernel (.known .start), .kernel (.known .opened), .kernel (.known (.output [0x00, 1])),
    .relay (.thread .check), .relay (.thread .drained), .poll ⟨none, true⟩,
    .kernel (.unknown 99), .kernel (.known (.getReport 7)), .relay (.thread .wake),
    .relay (.thread .check), .relay (.thread .drained), .poll ⟨none, true⟩,
    .kernel (.known (.output [0x00, 2]))]

theorem device_serves_hostOpens : ∃ s,
    run (Attached.step (TrezorRelay.threaded fun _ => none)) ⟨.created, .start⟩ hostOpens = some s ∧
      ∃ acts' s', run (Attached.step (TrezorRelay.threaded fun _ => none)) s acts' = some s' ∧
        Served (TrezorRelay.threaded fun _ => none) ⟨.created, .start⟩ s' (hostOpens ++ acts')
          [.known .start, .known .opened, .known (.output [0x00, 1]), .unknown 99,
            .known (.getReport 7), .known (.output [0x00, 2])] := by
  obtain ⟨s, hrun, hphase, htask⟩ : ∃ s, run (Attached.step (TrezorRelay.threaded fun _ => none))
      ⟨.created, .start⟩ hostOpens = some s ∧ s.relay.thread.phase = .sleeping ∧
        s.relay.taskB = .waiting := ⟨_, rfl, rfl, rfl⟩
  have hworks : (TrezorRelay.threaded fun _ => none).Works s.relay := by
    refine ⟨?_, rfl, ?_⟩
    · show s.relay.thread.phase ≠ .exited
      rw [hphase]
      simp
    · show decide (s.relay.taskB ≠ .ended) = true
      rw [htask]
      rfl
  obtain ⟨acts', s', -, hrun', hserved⟩ := (device_serves hrun).2 hworks
  exact ⟨s, hrun, acts', s', hrun', hserved⟩

end Attached

/-! ## From the host to the Trezor emulator -/

variable {decode : Report → Option String} {s : Attached TrezorRelay}
  {acts : List (DeviceAct TrezorAct)}

/-- The steps with which the host's reports get to an emulator that takes them. -/
def DeviceAct.Forwards (decode : Report → Option String) (a : DeviceAct TrezorAct) : Prop :=
  a.Own (TrezorRelay.threaded decode) ∨ ∃ b : TrezorAct, a = .relay b ∧ b.Sends

end Hwwctl.Bridge
