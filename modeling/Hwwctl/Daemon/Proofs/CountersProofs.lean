import Hwwctl.Daemon.Proofs.LogDrainProofs

/-!
# The counters and the traffic

A message of a host report holds the report as UHID gave it, of which task B writes a byte less; a
message of an emulator's report is made whether or not the device's thread is there to take it.
-/

namespace Hwwctl.Daemon

open Transition Control Bridge

/-- The steps of a relay and its drain. -/
inductive TapSteps (reportSize : Nat) (s : TappedRelay) : TapAct → TappedRelay → Prop where
  | relay {a : TcpAct} {r : TcpRelay} (h : TcpSteps reportSize s.relay a r) :
    TapSteps reportSize s (.relay a) { s with relay := r }
  | stop : TapSteps reportSize s .stop { s with relay := s.relay.stop }
  | drain {now : Nat} {msg : InterceptedMessage} (h : s.relay.intercepted[s.drained]? = some msg) :
    TapSteps reportSize s (.drain now)
      { s with drained := s.drained + 1, log := s.log.take now msg }

variable {reportSize : Nat} {s s' : TappedRelay} {a : TapAct}

theorem tap_step_cases (h : s.step reportSize a = some s') : TapSteps reportSize s a s' := by
  cases a with
  | relay a =>
    obtain ⟨r, hr, rfl⟩ := Option.map_eq_some_iff.1 h
    exact .relay (tcp_step_cases hr)
  | stop =>
    obtain rfl := Option.some.inj h
    exact .stop
  | drain now =>
    obtain ⟨msg, hmsg, rfl⟩ := Option.map_eq_some_iff.1 h
    exact .drain hmsg

/-- Nothing is on its way to task B or to the drain task. -/
structure TappedRelay.Quiet (s : TappedRelay) : Prop where
  readQueue : s.relay.thread.readQueue = []
  drained : s.drained = s.relay.intercepted.length

def TapAct.isWritten : TapAct → Bool
  | .relay .written => true
  | _ => false

/-- How many payloads task B has written. -/
def payloadsWritten (acts : List TapAct) : Nat := acts.countP TapAct.isWritten

/-- The counters give what was written to the emulator and what was queued for the device. -/
structure TappedRelay.CountersReal (acts : List TapAct) (s : TappedRelay) : Prop where
  payloads : s.log.bridgeStats.hostToDeviceReports.toNat = payloadsWritten acts
  payloadBytes : s.log.bridgeStats.hostToDeviceBytes.toNat = s.relay.sent.length
  inputs : s.log.bridgeStats.deviceToHostReports.toNat = s.relay.queued.length
  inputBytes : s.log.bridgeStats.deviceToHostBytes.toNat = (s.relay.queued.map List.length).sum

/-- 64 bits hold the numbers of messages that the relay has made, and of their bytes. -/
structure TappedRelay.InRange (s : TappedRelay) : Prop where
  reports : ∀ direction, (messages direction s.relay.intercepted).length < 2 ^ 64
  bytes : ∀ direction, bytesOf direction s.relay.intercepted < 2 ^ 64

/-- No host report comes while task B is there to take it, and no block is complete when the
device's thread is gone. -/
def TapAct.Exact (s : TappedRelay) : TapAct → Prop
  | .relay (.thread (.poll (some _))) => s.relay.taskB = .ended
  | .relay .deliver => s.relay.thread.alive = true
  | _ => True

/-- If the step brings a host report, it has its report-ID byte. -/
def TapAct.Prefixed (a : TapAct) : Prop :=
  ∀ report, a = .relay (.thread (.poll (some report))) → report.head? = some 0x00

/-! ## The drain -/

theorem bytesOf_concat {direction direction' : Direction} {msgs : List InterceptedMessage}
    {data : Report} :
    bytesOf direction (msgs ++ [.new direction' data none]) =
      bytesOf direction msgs + if direction' = direction then data.length else 0 := by
  rw [bytesOf, messages_concat, List.map_append, List.sum_append, ← bytesOf]
  by_cases h : direction' = direction
  · rw [if_pos h, if_pos h, List.map_singleton, List.sum_singleton, byteCount_new]
  · rw [if_neg h, if_neg h, List.map_nil, List.sum_nil]

/-- Messages are only added. -/
theorem tcp_messages_grow {r r' : TcpRelay} {a : TcpAct} (h : TcpSteps reportSize r a r') :
    r.intercepted <+: r'.intercepted := by
  cases h with
  | deliver | take => exact List.prefix_append _ _
  | _ => exact List.prefix_refl _

/-- The counters are those of the messages the task has taken. -/
structure TappedRelay.Counted (s : TappedRelay) : Prop where
  drained : s.drained ≤ s.relay.intercepted.length
  stats : s.log.bridgeStats = statsOf (s.relay.intercepted.take s.drained)

theorem TapSteps.counted (h : TapSteps reportSize s a s') (hs : s.Counted) : s'.Counted := by
  cases h with
  | relay h =>
    obtain ⟨added, hadded⟩ := tcp_messages_grow h
    refine ⟨?_, ?_⟩
    · rw [← hadded, List.length_append]
      exact hs.drained.trans (Nat.le_add_right _ _)
    · rw [← hadded, List.take_append_of_le_length hs.drained]
      exact hs.stats
  | stop => exact ⟨hs.drained, hs.stats⟩
  | @drain now msg h =>
    refine ⟨(List.getElem?_eq_some_iff.1 h).1, ?_⟩
    rw [List.take_add_one, h]
    show s.log.bridgeStats.add msg = statsOf (s.relay.intercepted.take s.drained ++ [msg])
    rw [statsOf_concat, hs.stats]

theorem TappedRelay.Counted.quiet (hs : s.Counted) (hquiet : s.Quiet) :
    s.log.bridgeStats = statsOf s.relay.intercepted := by
  rw [hs.stats, hquiet.drained, List.take_length]

/-! ## Where the counters are wrong -/

/-- The messages of the host's reports are longer than what is written of them, by a byte each. -/
structure Stripped (r : TcpRelay) : Prop where
  bytes : r.sent.length + r.inHand.length + (messages .hostToDevice r.intercepted).length ≤
    bytesOf .hostToDevice r.intercepted
  queued : ∀ report ∈ r.thread.readQueue, report.head? = some 0x00

theorem Stripped.bytes_written {r : TcpRelay} (hr : Stripped r) :
    r.sent.length + 0 + (messages .hostToDevice r.intercepted).length ≤
      bytesOf .hostToDevice r.intercepted := by
  have hbytes := hr.bytes
  omega

theorem length_payload_of_prefixed {report : Report} (h : report.head? = some 0x00) :
    report.length = (payload report).length + 1 := by
  cases report with
  | nil => cases h
  | cons b rest =>
    obtain rfl : b = 0x00 := Option.some.inj h
    rfl

theorem tcp_stripped {r r' : TcpRelay} {a : TcpAct} (h : TcpSteps reportSize r a r')
    (hr : Stripped r)
    (ha : ∀ report, a = .thread (.poll (some report)) → report.head? = some 0x00) :
    Stripped r' := by
  cases h with
  | thread h =>
    refine ⟨hr.bytes, fun report hreport => ?_⟩
    cases h with
    | output =>
      rcases List.mem_append.1 hreport with hreport | hreport
      · exact hr.queued report hreport
      · rw [List.mem_singleton.1 hreport]
        exact ha _ rfl
    | _ => exact hr.queued report hreport
  | emulatorSends | read | readFails | shutdownA => exact ⟨hr.bytes, hr.queued⟩
  | deliver =>
    refine ⟨?_, by rw [push_readQueue]; exact hr.queued⟩
    show _ + (messages _ (r.intercepted ++ _)).length ≤ bytesOf _ (r.intercepted ++ _)
    rw [messages_concat, bytesOf_concat, if_neg (by simp), if_neg (by simp), List.append_nil]
    exact hr.bytes
  | @take report queue h hqueue =>
    refine ⟨?_, fun report' hreport => hr.queued report' (by simp [hqueue, hreport])⟩
    have hbytes := hr.bytes
    have hlength := length_payload_of_prefixed (hr.queued report (by simp [hqueue]))
    rw [TcpRelay.inHand, h, List.length_nil] at hbytes
    show r.sent.length + (payload report).length + (messages _ (r.intercepted ++ _)).length ≤
      bytesOf _ (r.intercepted ++ _)
    rw [messages_concat, bytesOf_concat, if_pos rfl, if_pos rfl, List.length_append,
      List.length_singleton]
    omega
  | @write n rest h hn =>
    refine ⟨?_, hr.queued⟩
    have hbytes := hr.bytes
    simp only [TcpRelay.inHand, h] at hbytes
    show (r.sent ++ rest.take n).length + (rest.drop n).length +
      (messages .hostToDevice r.intercepted).length ≤ bytesOf .hostToDevice r.intercepted
    rw [List.length_append, List.length_take, List.length_drop]
    omega
  | written | writeFails | closed => exact ⟨hr.bytes_written, hr.queued⟩

theorem TapSteps.stripped (h : TapSteps reportSize s a s') (hs : Stripped s.relay)
    (ha : a.Prefixed) : Stripped s'.relay := by
  cases h with
  | relay h => exact tcp_stripped h hs fun report hreport => ha report (by rw [hreport])
  | stop => exact ⟨hs.bytes_written, hs.queued⟩
  | drain => exact hs

/-- A report of the host has come to task B, or one of the emulator is counted that the device's
queue never got. -/
def Miscounted (r : TcpRelay) : Prop :=
  0 < (messages .hostToDevice r.intercepted).length + r.thread.readQueue.length ∨
    r.queued.length < (messages .deviceToHost r.intercepted).length

/-- What task A has counted beyond the device's queue stays counted. -/
theorem tcp_excess {r r' : TcpRelay} {a : TcpAct} (h : TcpSteps reportSize r a r') :
    r'.queued.length + (messages .deviceToHost r.intercepted).length ≤
      r.queued.length + (messages .deviceToHost r'.intercepted).length := by
  cases h with
  | thread h =>
    rw [TcpRelay.queued, h.kept.1]
    exact Nat.le_refl _
  | @deliver data =>
    rw [TcpRelay.queued, TcpRelay.queued]
    simp only [TcpRelay.emit, messages_concat, push_queued, if_true, List.length_append,
      List.length_singleton]
    split
    · rw [List.length_singleton]
      omega
    · rw [List.length_nil]
      omega
  | take =>
    rw [TcpRelay.queued, TcpRelay.queued]
    simp [TcpRelay.emit, messages_concat]
  | _ => exact Nat.le_refl _

/-- A host report that has come to task B is in its queue or has its message. -/
theorem tcp_heard {r r' : TcpRelay} {a : TcpAct} (h : TcpSteps reportSize r a r') :
    (messages .hostToDevice r.intercepted).length + r.thread.readQueue.length ≤
      (messages .hostToDevice r'.intercepted).length + r'.thread.readQueue.length := by
  cases h with
  | thread h => exact Nat.add_le_add_left h.kept.2 _
  | deliver =>
    simp [TcpRelay.emit, messages_concat, push_readQueue]
  | take _ hqueue =>
    simp only [TcpRelay.emit, messages_concat, hqueue, if_true, List.length_append,
      List.length_cons]
    omega
  | _ => exact Nat.le_refl _

theorem TapSteps.excess (h : TapSteps reportSize s a s') :
    s'.relay.queued.length + (messages .deviceToHost s.relay.intercepted).length ≤
      s.relay.queued.length + (messages .deviceToHost s'.relay.intercepted).length := by
  cases h with
  | relay h => exact tcp_excess h
  | stop | drain => exact Nat.le_refl _

theorem TapSteps.heard (h : TapSteps reportSize s a s') :
    (messages .hostToDevice s.relay.intercepted).length + s.relay.thread.readQueue.length ≤
      (messages .hostToDevice s'.relay.intercepted).length +
        s'.relay.thread.readQueue.length := by
  cases h with
  | relay h => exact tcp_heard h
  | stop | drain => exact Nat.le_refl _

theorem TapSteps.miscounted (h : TapSteps reportSize s a s') (hs : Miscounted s.relay) :
    Miscounted s'.relay := by
  have hheard := h.heard
  have hexcess := h.excess
  exact hs.imp (fun hhost => by omega) fun hdevice => by omega

/-- What is not exact is miscounted from then on. -/
theorem TapSteps.miscounted_of_inexact (h : TapSteps reportSize s a s')
    (hqueued : s.relay.queued.length ≤ (messages .deviceToHost s.relay.intercepted).length)
    (ha : ¬ a.Exact s) : Miscounted s'.relay := by
  cases h with
  | relay h =>
    cases h with
    | thread h =>
      cases h with
      | output =>
        refine .inl (Nat.add_pos_right _ ?_)
        simp
      | unheard _ hreceiving =>
        have hended : s.relay.taskB = .ended := by simpa using hreceiving
        exact absurd hended ha
      | _ => exact absurd trivial ha
    | @deliver data h =>
      have hexited : ¬ s.relay.thread.alive = true := ha
      right
      rw [TcpRelay.queued] at hqueued ⊢
      simp only [TcpRelay.emit, messages_concat, push_queued, if_neg hexited, if_true,
        List.length_append, List.length_singleton, List.length_nil] at hqueued ⊢
      omega
    | _ => exact absurd trivial ha
  | stop | drain => exact absurd trivial ha

/-- A miscounted state without a report on its way shows it, unless a counter has overflowed. -/
theorem not_countersReal {acts : List TapAct} (hs : s.Counted) (hstripped : Stripped s.relay)
    (hquiet : s.Quiet) (hrange : s.InRange) (hmis : Miscounted s.relay) :
    ¬ s.CountersReal acts := by
  intro hreal
  have hstats := hs.quiet hquiet
  rcases hmis with hhost | hdevice
  · have hbytes := hstripped.bytes
    have hsame := hreal.payloadBytes
    rw [hquiet.readQueue, List.length_nil] at hhost
    rw [hstats, statsOf, UInt64.toNat_ofNat', Nat.mod_eq_of_lt (hrange.bytes _)] at hsame
    omega
  · have hsame := hreal.inputs
    rw [hstats, statsOf, UInt64.toNat_ofNat', Nat.mod_eq_of_lt (hrange.reports _)] at hsame
    omega

/-! ## Where they are right -/

/-- Nothing has come from the host, and everything of the emulator is queued. -/
structure OneWay (acts : List TapAct) (r : TcpRelay) : Prop where
  taskB : ∀ rest, r.taskB ≠ .writing rest
  sent : r.sent = []
  readQueue : r.thread.readQueue = []
  written : payloadsWritten acts = 0
  host : messages .hostToDevice r.intercepted = []
  device : messages .deviceToHost r.intercepted =
    r.queued.map fun data => .new .deviceToHost data none

theorem tcp_oneWay {r r' : TcpRelay} {a : TcpAct} {acts : List TapAct} {t : TappedRelay}
    (ht : t.relay = r) (h : TcpSteps reportSize r a r') (hr : OneWay acts r)
    (ha : (TapAct.relay a).Exact t) : OneWay (acts ++ [.relay a]) r' := by
  subst ht
  have hwritten : a ≠ .written → payloadsWritten (acts ++ [.relay a]) = 0 := by
    intro hne
    rw [payloadsWritten, List.countP_append, ← payloadsWritten, hr.written]
    cases a with
    | written => exact absurd rfl hne
    | _ => rfl
  cases h with
  | @thread a u h =>
    obtain ⟨hqueued, -⟩ := h.kept
    have hqueue : u.readQueue = [] := by
      cases h with
      | output _ hreceiving =>
        have htaken : t.relay.taskB = .ended := ha
        simp [htaken] at hreceiving
      | _ => exact hr.readQueue
    refine ⟨hr.taskB, hr.sent, hqueue, hwritten (by simp), hr.host, ?_⟩
    rw [TcpRelay.queued, hqueued]
    exact hr.device
  | emulatorSends | read | readFails | shutdownA =>
    exact ⟨hr.taskB, hr.sent, hr.readQueue, hwritten (by simp), hr.host, hr.device⟩
  | @deliver data =>
    have halive : t.relay.thread.alive = true := ha
    refine ⟨hr.taskB, hr.sent, (push_readQueue _ _).trans hr.readQueue, hwritten (by simp), ?_, ?_⟩
    · simp only [TcpRelay.emit, messages_concat, hr.host]
      simp
    · have hdevice := hr.device
      rw [TcpRelay.queued] at hdevice ⊢
      simp only [TcpRelay.emit, messages_concat, push_queued, if_pos halive, if_true, hdevice,
        List.map_append, List.map_singleton]
  | take _ hqueue =>
    rw [hr.readQueue] at hqueue
    cases hqueue
  | write h | written h | writeFails h => exact absurd h (hr.taskB _)
  | closed =>
    exact ⟨by simp, hr.sent, hr.readQueue, hwritten (by simp), hr.host, hr.device⟩

theorem TapSteps.oneWay {acts : List TapAct} (h : TapSteps reportSize s a s')
    (hs : OneWay acts s.relay) (ha : a.Exact s) : OneWay (acts ++ [a]) s'.relay := by
  have hwritten : a.isWritten = false → payloadsWritten (acts ++ [a]) = 0 := by
    intro hnot
    rw [payloadsWritten, List.countP_append, ← payloadsWritten, hs.written, List.countP_singleton,
      hnot]
    rfl
  cases h with
  | relay h => exact tcp_oneWay rfl h hs ha
  | stop =>
    exact ⟨by simp [TcpRelay.stop], hs.sent, hs.readQueue, hwritten rfl, hs.host, hs.device⟩
  | drain => exact ⟨hs.taskB, hs.sent, hs.readQueue, hwritten rfl, hs.host, hs.device⟩

theorem OneWay.bytesOf_host {acts : List TapAct} {r : TcpRelay} (h : OneWay acts r) :
    bytesOf .hostToDevice r.intercepted = 0 := by
  rw [bytesOf, h.host]
  rfl

theorem OneWay.bytesOf_device {acts : List TapAct} {r : TcpRelay} (h : OneWay acts r) :
    bytesOf .deviceToHost r.intercepted = (r.queued.map List.length).sum := by
  rw [bytesOf, h.device, List.map_map]
  congr 1
  exact List.map_congr_left fun data _ => byteCount_new .deviceToHost data none

/-- The counters of a state that is one way are right as long as they hold the numbers. -/
theorem countersReal_iff_of_oneWay {acts : List TapAct} (hs : s.Counted) (hquiet : s.Quiet)
    (hone : OneWay acts s.relay) : s.CountersReal acts ↔ s.InRange := by
  have hstats := hs.quiet hquiet
  have hdevice : (messages .deviceToHost s.relay.intercepted).length = s.relay.queued.length := by
    rw [hone.device, List.length_map]
  constructor
  · intro hreal
    have hreports := s.log.bridgeStats.deviceToHostReports.toNat_lt
    have hbytes := s.log.bridgeStats.deviceToHostBytes.toNat_lt
    rw [hreal.inputs] at hreports
    rw [hreal.inputBytes] at hbytes
    refine ⟨fun direction => ?_, fun direction => ?_⟩
    · cases direction with
      | hostToDevice =>
        rw [hone.host]
        decide
      | deviceToHost => rwa [hdevice]
    · cases direction with
      | hostToDevice =>
        rw [hone.bytesOf_host]
        decide
      | deviceToHost => rwa [hone.bytesOf_device]
  · intro hrange
    refine ⟨?_, ?_, ?_, ?_⟩
    · rw [hstats, hone.written, statsOf, hone.host]
      rfl
    · rw [hstats, hone.sent, statsOf, hone.bytesOf_host]
      rfl
    · rw [hstats, statsOf, UInt64.toNat_ofNat', Nat.mod_eq_of_lt (hrange.reports _), hdevice]
    · rw [hstats, statsOf, UInt64.toNat_ofNat', Nat.mod_eq_of_lt (hrange.bytes _),
        hone.bytesOf_device]

/-! ## Runs -/

/-- A run is exact so far, or something of it is miscounted. -/
def Tally (reportSize : Nat) (acts : List TapAct) (s : TappedRelay) : Prop :=
  Guarded (TappedRelay.step reportSize) (fun s a => a.Exact s) .start acts ∧ OneWay acts s.relay ∨
    ¬ Guarded (TappedRelay.step reportSize) (fun s a => a.Exact s) .start acts ∧
      Miscounted s.relay

/-- What holds of every run. -/
structure Tallied (reportSize : Nat) (acts : List TapAct) (s : TappedRelay) : Prop where
  run : run (TappedRelay.step reportSize) .start acts = some s
  counted : s.Counted
  queued : s.relay.queued.length ≤ (messages .deviceToHost s.relay.intercepted).length
  tally : Tally reportSize acts s

theorem tallied_of_run {acts : List TapAct}
    (hrun : run (TappedRelay.step reportSize) .start acts = some s) :
    Tallied reportSize acts s := by
  refine history_of_step (R := Tallied reportSize) ?_ ?_ hrun
  · refine ⟨rfl, ⟨Nat.le_refl _, rfl⟩, Nat.le_refl _, .inl ⟨?_, ?_⟩⟩
    · exact .of_forall (by simp)
    · exact ⟨by simp [TappedRelay.start, TcpRelay.connected], rfl, rfl, rfl, rfl, rfl⟩
  · intro acts s a s' hs ha
    have hstep := tap_step_cases ha
    have hexcess := hstep.excess
    have hqueued := hs.queued
    refine ⟨run_concat.trans (by rw [hs.run]; exact ha), hstep.counted hs.counted, by omega, ?_⟩
    rcases hs.tally with ⟨hguard, hone⟩ | ⟨hguard, hmis⟩
    · by_cases hexact : a.Exact s
      · refine .inl ⟨hguard.append fun s₁ hrun₁ => ?_, hstep.oneWay hone hexact⟩
        obtain rfl := Option.some.inj (hs.run.symm.trans hrun₁)
        exact .single hexact
      · refine .inr ⟨fun hguard' => ?_, hstep.miscounted_of_inexact hqueued hexact⟩
        exact hexact (hguard' acts a (List.prefix_refl _) s s' hs.run ha)
    · exact .inr ⟨fun hguard' => hguard (hguard'.of_prefix (List.prefix_append _ _)),
        hstep.miscounted hmis⟩

theorem stripped_of_run {acts : List TapAct} (hprefixed : ∀ a ∈ acts, a.Prefixed)
    (hrun : run (TappedRelay.step reportSize) .start acts = some s) : Stripped s.relay := by
  have hguard : Guarded (TappedRelay.step reportSize) (fun _ a => a.Prefixed) .start acts :=
    .of_forall fun a ha _ => hprefixed a ha
  have hall := hguard.always (P := fun s => Stripped s.relay)
    ⟨Nat.le_refl _, by simp [TappedRelay.start, TcpRelay.connected, UhidThread.spawn]⟩
    fun _ _ _ hs hC ha => (tap_step_cases ha).stripped hs hC
  exact hall.of_run hrun

/-- When the queues of the relay and of the drain are empty and no counter has overflowed, the
counters are those of the traffic exactly when every step so far was exact; and when every step was
exact, they are exactly when none has overflowed. -/
theorem counters_real_iff {acts : List TapAct} (hprefixed : ∀ a ∈ acts, a.Prefixed)
    (hrun : run (TappedRelay.step reportSize) .start acts = some s) (hquiet : s.Quiet) :
    (s.InRange → (s.CountersReal acts ↔
      Guarded (TappedRelay.step reportSize) (fun s a => a.Exact s) .start acts)) ∧
    (Guarded (TappedRelay.step reportSize) (fun s a => a.Exact s) .start acts →
      (s.CountersReal acts ↔ s.InRange)) := by
  have hs := tallied_of_run hrun
  rcases hs.tally with ⟨hguard, hone⟩ | ⟨hguard, hmis⟩
  · have hiff := countersReal_iff_of_oneWay hs.counted hquiet hone
    exact ⟨fun hrange => ⟨fun _ => hguard, fun _ => hiff.2 hrange⟩, fun _ => hiff⟩
  · refine ⟨fun hrange => ?_, fun hguard' => absurd hguard' hguard⟩
    have hnot : ¬ s.CountersReal acts :=
      not_countersReal hs.counted (stripped_of_run hprefixed hrun) hquiet hrange hmis
    exact ⟨fun hreal => absurd hreal hnot, fun hguard' => absurd hguard' hguard⟩

/-- The emulator sends a report of two bytes, and the drain takes its message. -/
def answered : List TapAct :=
  [.relay (.emulatorSends [5, 6]), .relay (.read 2), .relay .deliver, .drain 40]

theorem counters_real_iff_answered : ∃ s, run (TappedRelay.step 2) .start answered = some s ∧
    s.CountersReal answered ∧
      Guarded (TappedRelay.step 2) (fun s a => a.Exact s) .start answered := by
  have hprefixed : ∀ a ∈ answered, a.Prefixed := by simp [answered, TapAct.Prefixed]
  obtain ⟨s, hrun, hquiet, hmessages⟩ : ∃ s, run (TappedRelay.step 2) .start answered = some s ∧
      s.Quiet ∧ s.relay.intercepted = [] ++ [.new .deviceToHost [5, 6] none] :=
    ⟨_, rfl, ⟨rfl, rfl⟩, rfl⟩
  have hrange : s.InRange := by
    refine ⟨fun direction => ?_, fun direction => ?_⟩
    · rw [hmessages]
      cases direction <;> decide
    · rw [hmessages, bytesOf_concat]
      cases direction <;> decide
  have hguard : Guarded (TappedRelay.step 2) (fun s a => a.Exact s) .start answered := by
    refine .cons trivial fun s₁ h₁ => .cons trivial fun s₂ h₂ => .cons ?_ fun _ _ => .single trivial
    obtain rfl : _ = s₁ := Option.some.inj h₁
    obtain rfl : _ = s₂ := Option.some.inj h₂
    rfl
  exact ⟨s, hrun, ((counters_real_iff hprefixed hrun hquiet).1 hrange).2 hguard, hguard⟩

/-- A host writes a report of 64 bytes. -/
def hostReport : Report := 0x00 :: List.replicate 64 0x3F

/-- The report is relayed as a whole, and the drain takes its message. -/
def relayedReport : List TapAct :=
  [TcpAct.thread .check, .thread .drained, .thread (.poll (some hostReport)), .take, .write 64,
    .written].map TapAct.relay ++ [.drain 40]

theorem not_counters_real_relayedReport :
    ¬ ∀ reportSize acts s, (∀ a ∈ acts, TapAct.Prefixed a) →
      run (TappedRelay.step reportSize) .start acts = some s → s.Quiet → s.CountersReal acts := by
  intro h
  have hprefixed : ∀ a ∈ relayedReport, a.Prefixed := by
    intro a ha report hreport
    subst hreport
    simp only [relayedReport, List.map_cons, List.map_nil, List.mem_append, List.mem_cons,
      TapAct.relay.injEq, TcpAct.thread.injEq, ThreadAct.poll.injEq, reduceCtorEq,
      Option.some.injEq, List.not_mem_nil, or_false, false_or] at ha
    rw [ha]
    rfl
  obtain ⟨s, hrun, hquiet, hsent, hmessages⟩ : ∃ s,
      run (TappedRelay.step 64) .start relayedReport = some s ∧ s.Quiet ∧
        s.relay.sent.length = 64 ∧
          s.relay.intercepted = [] ++ [.new .hostToDevice hostReport none] :=
    ⟨_, rfl, ⟨rfl, rfl⟩, rfl, rfl⟩
  have hreal := h 64 relayedReport s hprefixed hrun hquiet
  have hbytes : bytesOf .hostToDevice s.relay.intercepted = 64 := by
    have hsame := hreal.payloadBytes
    rw [(tallied_of_run hrun).counted.quiet hquiet, hsent] at hsame
    rw [statsOf, UInt64.toNat_ofNat', hmessages, bytesOf_concat] at hsame
    exact absurd hsame (by decide)
  rw [hmessages, bytesOf_concat] at hbytes
  exact absurd hbytes (by decide)

end Hwwctl.Daemon
