import Hwwctl.Bridge.Proofs.DeviceProofs
import Hwwctl.Bridge.Tcp

/-!
# Nothing is lost between a TCP emulator and the device

Every report of the host is in one place: in the queue to task B, in its hands, or written. Every
byte of the emulator is in one place too: unread, in task A's buffer, or in a block that was queued.
-/

namespace Hwwctl.Bridge

open Transition

/-- The steps of the relay. -/
inductive TcpSteps (reportSize : Nat) (s : TcpRelay) : TcpAct → TcpRelay → Prop where
  | thread {a : ThreadAct} {t : UhidThread} (h : ThreadSteps (s.taskB ≠ .ended) s.thread a t) :
    TcpSteps reportSize s (.thread a) { s with thread := t }
  | emulatorSends {bytes : List UInt8} : TcpSteps reportSize s (.emulatorSends bytes)
      { s with incoming := s.incoming ++ bytes, received := s.received ++ bytes }
  | read {n : Nat} {filled : List UInt8} (h : s.taskA = .reading filled)
    (hn : n ≤ s.incoming.length) (hroom : filled.length + n ≤ reportSize) :
    TcpSteps reportSize s (.read n) { s with
      taskA := .reading (filled ++ s.incoming.take n), incoming := s.incoming.drop n }
  | deliver {data : List UInt8} (h : s.taskA = .reading data) (hfull : data.length = reportSize) :
    TcpSteps reportSize s .deliver { s.emit .deviceToHost data with
      taskA := .reading [], thread := (s.thread.push data).getD s.thread }
  | readFails {filled : List UInt8} (h : s.taskA = .reading filled) :
    TcpSteps reportSize s .readFails { s with taskA := .ended }
  | shutdownA {filled : List UInt8} (h : s.taskA = .reading filled) (hclosed : s.shutdownA = true) :
    TcpSteps reportSize s .shutdownA { s with taskA := .ended }
  | take {report : Report} {queue : List Report} (h : s.taskB = .waiting)
    (hqueue : s.thread.readQueue = report :: queue) :
    TcpSteps reportSize s .take { s.emit .hostToDevice report with
      taskB := .writing (payload report), thread := { s.thread with readQueue := queue } }
  | write {n : Nat} {rest : List UInt8} (h : s.taskB = .writing rest) (hn : n ≤ rest.length) :
    TcpSteps reportSize s (.write n)
      { s with taskB := .writing (rest.drop n), sent := s.sent ++ rest.take n }
  | written (h : s.taskB = .writing []) : TcpSteps reportSize s .written { s with taskB := .waiting }
  | writeFails {rest : List UInt8} (h : s.taskB = .writing rest) :
    TcpSteps reportSize s .writeFails { s with taskB := .ended }
  | closed (h : s.taskB = .waiting) (hqueue : s.thread.readQueue = [])
    (hexited : s.thread.alive = false) : TcpSteps reportSize s .closed { s with taskB := .ended }

variable {reportSize : Nat} {s s' : TcpRelay} {a : TcpAct}

theorem tcp_step_cases (h : s.step reportSize a = some s') : TcpSteps reportSize s a s' := by
  cases a with
  | thread a =>
    obtain ⟨t, ht, rfl⟩ := Option.map_eq_some_iff.1 h
    exact .thread (thread_step_cases ht)
  | emulatorSends bytes =>
    obtain rfl := Option.some.inj h
    exact .emulatorSends
  | read n =>
    simp only [TcpRelay.step] at h
    split at h
    · split at h
      · rename_i hroom
        cases h
        exact .read ‹_› hroom.1 hroom.2
      · cases h
    · cases h
  | deliver =>
    simp only [TcpRelay.step] at h
    split at h
    · split at h <;> cases h
      exact .deliver ‹_› ‹_›
    · cases h
  | readFails =>
    simp only [TcpRelay.step] at h
    split at h <;> cases h
    exact .readFails ‹_›
  | shutdownA =>
    simp only [TcpRelay.step] at h
    split at h
    · split at h <;> cases h
      exact .shutdownA ‹_› ‹_›
    · cases h
  | take =>
    simp only [TcpRelay.step] at h
    split at h <;> cases h
    exact .take ‹_› ‹_›
  | write n =>
    simp only [TcpRelay.step] at h
    split at h
    · split at h <;> cases h
      exact .write ‹_› ‹_›
    · cases h
  | written =>
    simp only [TcpRelay.step] at h
    split at h <;> cases h
    exact .written ‹_›
  | writeFails =>
    simp only [TcpRelay.step] at h
    split at h <;> cases h
    exact .writeFails ‹_›
  | closed =>
    simp only [TcpRelay.step] at h
    split at h
    · split at h
      · cases h
      · rename_i hexited
        cases h
        exact .closed ‹_› ‹_› (Bool.eq_false_iff.2 hexited)
    · cases h

/-! ## Where everything is -/

/-- The messages of one direction, in their order. -/
def messages (direction : Direction) (log : List InterceptedMessage) : List InterceptedMessage :=
  log.filter (·.direction = direction)

namespace TcpRelay

/-- What was queued for the device, what it took first. -/
def queued (s : TcpRelay) : List Report := s.thread.inputs ++ s.thread.writeQueue

/-- The part of a block that task A has read. -/
def unfinished (s : TcpRelay) : List UInt8 :=
  match s.taskA with
  | .reading filled => filled
  | .ended => []

/-- The part of a payload that task B has not written. -/
def inHand (s : TcpRelay) : List UInt8 :=
  match s.taskB with
  | .writing rest => rest
  | _ => []

/-- The host's payloads, or what is left of them, that are not written. -/
def unsent (s : TcpRelay) : List UInt8 := s.inHand ++ (s.thread.readQueue.map payload).flatten

end TcpRelay

/-- The invariant of a relay whose connection is up, with the blocks that task A has read. -/
structure Transparent (reportSize : Nat) (blocks : List Report) (s : TcpRelay) : Prop where
  watching : s.thread.shutdown = false ∧ s.shutdownA = false
  taskA : ∃ filled, s.taskA = .reading filled ∧ filled.length ≤ reportSize
  taskB : s.taskB = .ended → s.thread.alive = false ∧ s.thread.readQueue = []
  sized : ∀ b ∈ blocks, b.length = reportSize
  toHost : blocks.flatten ++ s.unfinished ++ s.incoming = s.received
  toDevice : s.queued <+: blocks ∧ (s.thread.alive = true → s.queued = blocks)
  toEmulator : s.sent ++ s.unsent = (s.thread.outputs.map payload).flatten
  deviceMessages : messages .deviceToHost s.intercepted =
    blocks.map fun b => .new .deviceToHost b none
  hostMessages : messages .hostToDevice s.intercepted ++
      s.thread.readQueue.map (fun r => .new .hostToDevice r none) =
    s.thread.outputs.map fun r => .new .hostToDevice r none

/-- The connection is not broken. -/
def TcpAct.Up : TcpAct → Prop
  | .readFails | .writeFails => False
  | _ => True

theorem Transparent.connected (reportSize : Nat) : Transparent reportSize [] .connected where
  watching := ⟨rfl, rfl⟩
  taskA := ⟨[], rfl, Nat.zero_le _⟩
  taskB := by simp [TcpRelay.connected]
  sized := by simp
  toHost := rfl
  toDevice := ⟨List.prefix_refl _, fun _ => rfl⟩
  toEmulator := rfl
  deviceMessages := rfl
  hostMessages := rfl

theorem messages_concat {direction direction' : Direction} {log : List InterceptedMessage}
    {data : Report} :
    messages direction (log ++ [.new direction' data none]) =
      messages direction log ++
        if direction' = direction then [.new direction' data none] else [] := by
  by_cases h : direction' = direction
  · simp [messages, InterceptedMessage.new, h]
  · simp [messages, InterceptedMessage.new, h]

variable {blocks : List Report}

/-- A thread that leaves its loop keeps everything where it is. -/
theorem Transparent.exited (hs : Transparent reportSize blocks s) :
    Transparent reportSize blocks { s with thread := { s.thread with phase := .exited } } where
  watching := hs.watching
  taskA := hs.taskA
  taskB := fun h => ⟨rfl, (hs.taskB h).2⟩
  sized := hs.sized
  toHost := hs.toHost
  toDevice := ⟨hs.toDevice.1, fun h => by cases h⟩
  toEmulator := hs.toEmulator
  deviceMessages := hs.deviceMessages
  hostMessages := hs.hostMessages

/-- A step of the thread moves reports along. -/
theorem Transparent.thread {a : ThreadAct} {t : UhidThread} (hs : Transparent reportSize blocks s)
    (h : ThreadSteps (s.taskB ≠ .ended) s.thread a t) :
    Transparent reportSize blocks { s with thread := t } := by
  have halive : s.thread.alive = true := decide_eq_true h.alive
  have htaskB : s.taskB ≠ .ended := by
    intro hended
    rw [(hs.taskB hended).1] at halive
    cases halive
  have hqueued : s.queued = blocks := hs.toDevice.2 halive
  cases h with
  | leave | writeFails | pollFails => exact hs.exited
  | goOn | drained | nothing | wake =>
    exact ⟨hs.watching, hs.taskA, fun h => absurd h htaskB, hs.sized, hs.toHost,
      ⟨hs.toDevice.1, fun _ => hqueued⟩, hs.toEmulator, hs.deviceMessages, hs.hostMessages⟩
  | @write report queue _ hqueue =>
    have hmoved : s.thread.inputs ++ [report] ++ queue = blocks := by
      rw [← hqueued, TcpRelay.queued, hqueue, List.append_assoc]
      rfl
    exact ⟨hs.watching, hs.taskA, fun h => absurd h htaskB, hs.sized, hs.toHost,
      ⟨hmoved ▸ List.prefix_refl _, fun _ => hmoved⟩, hs.toEmulator, hs.deviceMessages,
      hs.hostMessages⟩
  | @output report =>
    refine ⟨hs.watching, hs.taskA, fun h => absurd h htaskB, hs.sized, hs.toHost,
      ⟨hs.toDevice.1, fun _ => hqueued⟩, ?_, hs.deviceMessages, ?_⟩
    · have hsent := hs.toEmulator
      simp only [TcpRelay.unsent] at hsent
      simp only [TcpRelay.unsent, TcpRelay.inHand, List.map_append, List.flatten_append, ← hsent,
        List.append_assoc]
    · have hmessages := hs.hostMessages
      simp only [List.map_append, ← hmessages, List.append_assoc]
  | unheard _ hreceiving =>
    have hended : s.taskB = .ended := by simpa using hreceiving
    exact absurd hended htaskB

/-- A full buffer becomes the next block. -/
theorem Transparent.deliver {data : List UInt8} (hs : Transparent reportSize blocks s)
    (h : s.taskA = .reading data) (hfull : data.length = reportSize) :
    Transparent reportSize (blocks ++ [data]) { s.emit .deviceToHost data with
      taskA := .reading [], thread := (s.thread.push data).getD s.thread } := by
  have hunfinished : s.unfinished = data := by rw [TcpRelay.unfinished, h]
  have hsized : ∀ b ∈ blocks ++ [data], b.length = reportSize := by
    intro b hb
    rcases List.mem_append.1 hb with hb | hb
    · exact hs.sized b hb
    · rw [List.mem_singleton.1 hb, hfull]
  have htoHost : (blocks ++ [data]).flatten ++ [] ++ s.incoming = s.received := by
    rw [← hs.toHost, hunfinished]
    simp only [List.flatten_append, List.flatten_cons, List.flatten_nil, List.append_nil]
  have hdevice : messages .deviceToHost (s.emit .deviceToHost data).intercepted =
      (blocks ++ [data]).map fun b => .new .deviceToHost b none := by
    rw [TcpRelay.emit, messages_concat, if_pos rfl, hs.deviceMessages, List.map_append]
    rfl
  have hhost : messages .hostToDevice (s.emit .deviceToHost data).intercepted =
      messages .hostToDevice s.intercepted := by
    rw [TcpRelay.emit, messages_concat, if_neg (by simp), List.append_nil]
  by_cases halive : s.thread.alive = true
  · have hpush : s.thread.push data =
        some { s.thread with writeQueue := s.thread.writeQueue ++ [data] } := if_pos halive
    have hqueued : s.thread.inputs ++ (s.thread.writeQueue ++ [data]) = blocks ++ [data] := by
      rw [← List.append_assoc]
      exact congrArg (· ++ [data]) (hs.toDevice.2 halive)
    rw [hpush]
    refine ⟨hs.watching, ⟨[], rfl, Nat.zero_le _⟩, hs.taskB, hsized, htoHost, ?_, hs.toEmulator,
      hdevice, ?_⟩
    · exact ⟨hqueued ▸ List.prefix_refl _, fun _ => hqueued⟩
    · exact hhost ▸ hs.hostMessages
  · have hpush : s.thread.push data = none := if_neg halive
    rw [hpush]
    refine ⟨hs.watching, ⟨[], rfl, Nat.zero_le _⟩, hs.taskB, hsized, htoHost, ?_, hs.toEmulator,
      hdevice, ?_⟩
    · exact ⟨hs.toDevice.1.trans (List.prefix_append _ _), fun h => absurd h halive⟩
    · exact hhost ▸ hs.hostMessages

/-- The next report is announced and its payload comes into task B's hands. -/
theorem Transparent.take {report : Report} {queue : List Report}
    (hs : Transparent reportSize blocks s) (h : s.taskB = .waiting)
    (hqueue : s.thread.readQueue = report :: queue) :
    Transparent reportSize blocks { s.emit .hostToDevice report with
      taskB := .writing (payload report), thread := { s.thread with readQueue := queue } } := by
  refine ⟨hs.watching, hs.taskA, by simp, hs.sized, hs.toHost, hs.toDevice, ?_, ?_, ?_⟩
  · have hsent := hs.toEmulator
    simp only [TcpRelay.unsent, TcpRelay.inHand, h, hqueue, List.map_cons, List.flatten_cons,
      List.nil_append] at hsent
    exact hsent
  · show messages _ (s.intercepted ++ _) = _
    rw [messages_concat, if_neg (by simp), List.append_nil]
    exact hs.deviceMessages
  · have hmessages := hs.hostMessages
    rw [hqueue, List.map_cons] at hmessages
    show messages _ (s.intercepted ++ _) ++ _ = _
    rw [messages_concat, if_pos rfl, List.append_assoc]
    exact hmessages

/-- A step of an up connection keeps the invariant. -/
theorem TcpSteps.transparent (h : TcpSteps reportSize s a s')
    (hs : Transparent reportSize blocks s) (hup : a.Up) :
    ∃ blocks', Transparent reportSize blocks' s' := by
  cases h with
  | thread h => exact ⟨_, hs.thread h⟩
  | emulatorSends =>
    refine ⟨blocks, hs.watching, hs.taskA, hs.taskB, hs.sized, ?_, hs.toDevice, hs.toEmulator,
      hs.deviceMessages, hs.hostMessages⟩
    simp only [← hs.toHost, List.append_assoc]
    rfl
  | @read n filled h hn hroom =>
    refine ⟨blocks, hs.watching, ⟨_, rfl, ?_⟩, hs.taskB, hs.sized, ?_, hs.toDevice, hs.toEmulator,
      hs.deviceMessages, hs.hostMessages⟩
    · rw [List.length_append, List.length_take]
      omega
    · have htoHost := hs.toHost
      simp only [TcpRelay.unfinished, h] at htoHost
      simp only [TcpRelay.unfinished, ← htoHost, List.append_assoc, List.take_append_drop]
  | deliver h hfull => exact ⟨_, hs.deliver h hfull⟩
  | shutdownA _ hclosed =>
    rw [hs.watching.2] at hclosed
    cases hclosed
  | take h hqueue => exact ⟨_, hs.take h hqueue⟩
  | @write n rest h hn =>
    refine ⟨blocks, hs.watching, hs.taskA, by simp, hs.sized, hs.toHost, hs.toDevice, ?_,
      hs.deviceMessages, hs.hostMessages⟩
    have hsent := hs.toEmulator
    simp only [TcpRelay.unsent, TcpRelay.inHand, h] at hsent
    simp only [TcpRelay.unsent, TcpRelay.inHand, ← hsent]
    rw [List.append_assoc, ← List.append_assoc (rest.take n), List.take_append_drop]
  | written h =>
    refine ⟨blocks, hs.watching, hs.taskA, by simp, hs.sized, hs.toHost, hs.toDevice, ?_,
      hs.deviceMessages, hs.hostMessages⟩
    have hsent := hs.toEmulator
    simp only [TcpRelay.unsent, TcpRelay.inHand, h] at hsent
    exact hsent
  | readFails | writeFails => exact hup.elim
  | closed h hqueue hexited =>
    refine ⟨blocks, hs.watching, hs.taskA, fun _ => ⟨hexited, hqueue⟩, hs.sized, hs.toHost,
      hs.toDevice, ?_, hs.deviceMessages, hs.hostMessages⟩
    have hsent := hs.toEmulator
    simp only [TcpRelay.unsent, TcpRelay.inHand, h] at hsent
    exact hsent

/-! ## What the host and the emulator gave -/

/-- The reports the device handed out. -/
def hostReports (acts : List TcpAct) : List Report :=
  acts.filterMap fun
    | .thread (.poll output) => output
    | _ => none

/-- The byte stream of the emulator. -/
def emulatorBytes (acts : List TcpAct) : List UInt8 :=
  acts.flatMap fun
    | .emulatorSends bytes => bytes
    | _ => []

theorem hostReports_append (acts acts' : List TcpAct) :
    hostReports (acts ++ acts') = hostReports acts ++ hostReports acts' :=
  List.filterMap_append

theorem emulatorBytes_append (acts acts' : List TcpAct) :
    emulatorBytes (acts ++ acts') = emulatorBytes acts ++ emulatorBytes acts' :=
  List.flatMap_append

/-- The state keeps what the host and the emulator gave. -/
structure Given (acts : List TcpAct) (s : TcpRelay) : Prop where
  outputs : s.thread.outputs = hostReports acts
  received : s.received = emulatorBytes acts

theorem ThreadSteps.outputs {receiving : Bool} {t t' : UhidThread} {a : ThreadAct}
    (h : ThreadSteps receiving t a t') : t'.outputs = t.outputs ++ hostReports [.thread a] := by
  cases h with
  | output | unheard => rfl
  | _ => exact (List.append_nil _).symm

theorem TcpSteps.given {acts : List TcpAct} (h : TcpSteps reportSize s a s') (hs : Given acts s) :
    Given (acts ++ [a]) s' := by
  have hout : s'.thread.outputs = s.thread.outputs ++ hostReports [a] := by
    cases h with
    | thread h => exact h.outputs
    | deliver => exact (push_outputs _ _).trans (List.append_nil _).symm
    | _ => exact (List.append_nil _).symm
  have hin : s'.received = s.received ++ emulatorBytes [a] := by
    cases h with
    | @emulatorSends bytes =>
      show s.received ++ bytes = s.received ++ (bytes ++ [])
      rw [List.append_nil]
    | _ => exact (List.append_nil _).symm
  exact ⟨by rw [hout, hs.outputs, hostReports_append],
    by rw [hin, hs.received, emulatorBytes_append]⟩

theorem given_of_run {acts : List TcpAct}
    (hrun : run (TcpRelay.step reportSize) .connected acts = some s) : Given acts s :=
  history_of_step (R := Given) ⟨rfl, rfl⟩ (fun _ _ _ _ hs ha => (tcp_step_cases ha).given hs) hrun

/-! ## The relay gets to the end of what it was given -/

/-- Nothing is left to relay but the beginning of a block. -/
structure TcpRelay.Settled (reportSize : Nat) (s : TcpRelay) : Prop where
  incoming : s.incoming = []
  unfinished : s.unfinished.length < reportSize
  inHand : s.inHand = []
  readQueue : s.thread.readQueue = []

/-- The steps the two tasks take by themselves. -/
def TcpAct.Own : TcpAct → Prop
  | .read _ | .deliver | .take | .write _ | .written => True
  | _ => False

/-- A complete block is still to be queued. -/
def TaskA.work (reportSize : Nat) : TaskA → Nat
  | .reading filled => if filled.length = reportSize then 1 else 0
  | .ended => 0

/-- What is in task B's hands is to be written. -/
def TaskB.work : TaskB → Nat
  | .writing rest => 1 + rest.length
  | _ => 0

/-- How much the two tasks have to do. -/
def TcpRelay.work (reportSize : Nat) (s : TcpRelay) : Nat :=
  2 * s.incoming.length + s.taskA.work reportSize + s.taskB.work +
    2 * s.thread.readQueue.length + (s.thread.readQueue.flatMap payload).length

theorem TcpAct.Own.up {a : TcpAct} (h : a.Own) : a.Up := by
  cases a with
  | read | deliver | take | write | written => trivial
  | _ => exact h.elim

/-- Where the host's `reports` and the emulator's `stream` are: a beginning is relayed, the rest is
on its way. -/
structure Relayed (reportSize : Nat) (reports : List Report) (stream : List UInt8)
    (s : TcpRelay) : Prop where
  toEmulator : s.sent ++ s.unsent = reports.flatten
  hostMessages : messages .hostToDevice s.intercepted ++
      s.thread.readQueue.map (fun r => .new .hostToDevice r none) =
    reports.map fun p => .new .hostToDevice (0x00 :: p) none
  toDevice : ∃ blocks : List Report, (∀ b ∈ blocks, b.length = reportSize) ∧
    blocks.flatten ++ s.unfinished ++ s.incoming = stream ∧ s.unfinished.length ≤ reportSize ∧
    s.queued <+: blocks ∧ (s.thread.alive = true → s.queued = blocks) ∧
    messages .deviceToHost s.intercepted = blocks.map fun b => .new .deviceToHost b none

/-- Everything but the beginning of a block is relayed. -/
structure RelayedAll (reportSize : Nat) (reports : List Report) (stream : List UInt8)
    (s : TcpRelay) : Prop where
  toEmulator : s.sent = reports.flatten
  hostMessages : messages .hostToDevice s.intercepted =
    reports.map fun p => .new .hostToDevice (0x00 :: p) none
  toDevice : ∃ (blocks : List Report) (rest : List UInt8), (∀ b ∈ blocks, b.length = reportSize) ∧
    stream = blocks.flatten ++ rest ∧ rest.length < reportSize ∧
    s.queued <+: blocks ∧ (s.thread.alive = true → s.queued = blocks) ∧
    messages .deviceToHost s.intercepted = blocks.map fun b => .new .deviceToHost b none

theorem payload_of_report (p : Report) : payload (0x00 :: p) = p := by simp [payload]

theorem Relayed.all {reports : List Report} {stream : List UInt8}
    (h : Relayed reportSize reports stream s) (hsettled : s.Settled reportSize) :
    RelayedAll reportSize reports stream s := by
  have hunsent : s.unsent = [] := by
    rw [TcpRelay.unsent, hsettled.inHand, hsettled.readQueue]
    rfl
  have htoEmulator := h.toEmulator
  have hhost := h.hostMessages
  obtain ⟨blocks, hsized, hstream, _, hqueued, halive, hmessages⟩ := h.toDevice
  rw [hunsent, List.append_nil] at htoEmulator
  rw [hsettled.readQueue, List.map_nil, List.append_nil] at hhost
  rw [hsettled.incoming, List.append_nil] at hstream
  exact ⟨htoEmulator, hhost, blocks, s.unfinished, hsized, hstream.symm, hsettled.unfinished,
    hqueued, halive, hmessages⟩

/-- Reports of two bytes, one from the host, one and a half from the emulator, cut and interleaved. -/
def bothWays : List TcpAct :=
  [.thread .check, .thread .drained, .thread (.poll (some [0x00, 7, 8])), .emulatorSends [1, 2, 3],
    .take, .read 1, .write 1, .read 1, .deliver, .write 1, .read 1, .written, .thread .wake,
    .thread .check, .thread .write]

end Hwwctl.Bridge
