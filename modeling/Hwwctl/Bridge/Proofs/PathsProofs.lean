import Hwwctl.Bridge.Paths
import Hwwctl.Bridge.Proofs.TrezorProofs
import Hwwctl.Protocol.Proofs.ReassemblyProofs

/-!
# What the paths make of a report

Over all its transports the generic bridge forwards the payload of an output event; the Trezor
bridge forwards the event as the device gave it, with the report-ID byte.
-/

namespace Hwwctl.Bridge

open Transition Protocol

namespace HostPath

variable {σ α : Type} {p : HostPath σ α}

theorem Reaches.refl (s : σ) : p.Reaches s s := ⟨[], by simp, run_nil⟩

theorem Reaches.trans {s s' s'' : σ} (h : p.Reaches s s') (h' : p.Reaches s' s'') :
    p.Reaches s s'' := by
  obtain ⟨acts, hup, hrun⟩ := h
  obtain ⟨acts', hup', hrun'⟩ := h'
  refine ⟨acts ++ acts', ?_, by rw [run_append, hrun]; exact hrun'⟩
  intro a ha
  rcases List.mem_append.1 ha with ha | ha
  · exact hup a ha
  · exact hup' a ha

/-- A property of the start that the steps of an up connection keep. -/
theorem Reaches.invariant {P : σ → Prop} {s : σ} (h : p.Reaches p.start s) (h0 : P p.start)
    (hstep : ∀ s a s', P s → p.Up a → p.step s a = some s' → P s') : P s := by
  obtain ⟨acts, hup, hrun⟩ := h
  have hguard : Guarded p.step (fun _ a => p.Up a) p.start acts := .of_forall fun a ha _ => hup a ha
  exact (hguard.always h0 hstep).of_run hrun

/-- What was sent is, write by write, what `f` makes of the events. -/
theorem Carries.sent {f : Report → List UInt8} {s s' : σ} {events : List Report}
    (h : p.Carries s events s')
    (hlaw : ∀ s, p.Reaches p.start s → p.Idle s → p.sent s = (p.events s).map f) :
    p.sent s' = p.sent s ++ events.map f := by
  rw [hlaw s' (h.reached.trans h.goesOn) h.idleAgain, hlaw s h.reached h.idle, h.taken,
    List.map_append]

/-- It is enough to know what all events together become. -/
theorem forwards_of_idle {f : Report → List UInt8}
    (hlaw : ∀ s, p.Reaches p.start s → p.Idle s → p.forwarded s = (p.events s).flatMap f) :
    p.Forwards f := by
  intro s events s' h
  rw [hlaw s' (h.reached.trans h.goesOn) h.idleAgain, hlaw s h.reached h.idle, h.taken,
    List.flatMap_append]

/-- A path that can carry one more event from every ready state, and is ready again, carries any
events. -/
theorem exists_carries (Ready : σ → Prop) (hidle : ∀ s, Ready s → p.Idle s)
    (hstart : ∃ s, p.Reaches p.start s ∧ Ready s)
    (hnext : ∀ s event, Ready s →
      ∃ s', p.Reaches s s' ∧ Ready s' ∧ p.events s' = p.events s ++ [event])
    (events : List Report) : ∃ s s', p.Carries s events s' := by
  obtain ⟨s, hreached, hready⟩ := hstart
  obtain ⟨s', hgoesOn, hready', htaken⟩ :
      ∃ s', p.Reaches s s' ∧ Ready s' ∧ p.events s' = p.events s ++ events := by
    induction events using List.reverseRecOn with
    | nil => exact ⟨s, .refl s, hready, (List.append_nil _).symm⟩
    | append_singleton events event ih =>
      obtain ⟨s₁, hgoesOn, hready₁, htaken⟩ := ih
      obtain ⟨s', hreaches, hready', htaken'⟩ := hnext s₁ event hready₁
      exact ⟨s', hgoesOn.trans hreaches, hready', by rw [htaken', htaken, List.append_assoc]⟩
  exact ⟨s, s', hreached, hidle s hready, hgoesOn, hidle s' hready', htaken⟩

theorem Forwards.single {f : Report → List UInt8} (h : p.Forwards f) {s s' : σ} {event : Report}
    (hs : p.Carries s [event] s') : p.forwarded s' = p.forwarded s ++ f event := by
  rw [h s [event] s' hs, List.flatMap_singleton]

end HostPath

/-! ## The generic bridge -/

variable {reportSize : Nat}

/-- While task B runs, the payloads are written, in hand or queued, in the order of the events. -/
def TcpRelay.InTurn (s : TcpRelay) : Prop :=
  s.taskB ≠ .ended → s.sent ++ s.unsent = (s.thread.outputs.map payload).flatten

theorem TcpSteps.inTurn {s s' : TcpRelay} {a : TcpAct} (h : TcpSteps reportSize s a s')
    (hs : s.InTurn) : s'.InTurn := by
  intro htaskB
  cases h with
  | thread h =>
    have hbefore := hs htaskB
    cases h with
    | output =>
      simp only [TcpRelay.unsent] at hbefore
      simp only [TcpRelay.unsent, TcpRelay.inHand, List.map_append, List.flatten_append, ← hbefore,
        List.append_assoc]
    | unheard _ hreceiving => exact absurd (by simpa using hreceiving) htaskB
    | _ => exact hbefore
  | emulatorSends | read | readFails | shutdownA => exact hs htaskB
  | deliver =>
    have hbefore := hs htaskB
    simp only [TcpRelay.unsent] at hbefore
    simp only [TcpRelay.unsent, TcpRelay.inHand, push_readQueue, push_outputs]
    exact hbefore
  | take h hqueue =>
    have hbefore := hs (by simp [h])
    simp only [TcpRelay.unsent, TcpRelay.inHand, h, hqueue, List.map_cons, List.flatten_cons,
      List.nil_append] at hbefore
    exact hbefore
  | @write n rest h hn =>
    have hbefore := hs (by simp [h])
    simp only [TcpRelay.unsent, TcpRelay.inHand, h] at hbefore
    simp only [TcpRelay.unsent, TcpRelay.inHand, ← hbefore]
    rw [List.append_assoc, ← List.append_assoc (rest.take n), List.take_append_drop]
  | written h =>
    have hbefore := hs (by simp [h])
    simp only [TcpRelay.unsent, TcpRelay.inHand, h] at hbefore
    exact hbefore
  | writeFails | closed => exact absurd rfl htaskB

/-- What the relay of a transport keeps: the payloads go to the emulator in the order of the
events. -/
def Relay.InTurn : Relay → Prop
  | .connecting t => t.readQueue = t.outputs
  | .tcp s => s.InTurn
  | .unix _ s => InOrder s ∧ (s.task ≠ .returned → WrittenOnce s)

theorem Relay.InTurn.step {r r' : Relay} {a : RelayAct} (hr : r.InTurn) (hup : a.Up)
    (h : r.step reportSize a = some r') : r'.InTurn := by
  cases r with
  | connecting t =>
    have hqueue : t.readQueue = t.outputs := hr
    cases a with
    | connecting a =>
      obtain ⟨t', ht, rfl⟩ := Option.map_eq_some_iff.1 h
      show t'.readQueue = t'.outputs
      cases thread_step_cases ht with
      | output => exact congrArg (· ++ _) hqueue
      | unheard _ hreceiving => cases hreceiving
      | _ => exact hqueue
    | connects =>
      obtain rfl := Option.some.inj h
      intro _
      rw [TcpRelay.unsent, hqueue]
      rfl
    | connectFails =>
      obtain rfl := Option.some.inj h
      exact fun hended => absurd rfl hended
    | tcp | unix => cases h
  | tcp s =>
    obtain ⟨b, s', -, rfl, hstep⟩ := Relay.tcp_step h
    exact hstep.inTurn hr
  | unix kind s =>
    obtain ⟨b, s', rfl, rfl, hstep⟩ := Relay.unix_step h
    obtain ⟨hinOrder, hwritten⟩ := hr
    refine ⟨hstep.inOrder hinOrder, fun hs' => ?_⟩
    have hs := hwritten fun hreturned => hs' (hstep.returned hreturned)
    refine hstep.writtenOnce hs ?_ ?_
    · rintro rfl
      exact hup
    · cases b with
      | connectFails =>
        cases hstep
        exact absurd rfl hs'
      | _ => rfl

/-- Over every transport what was forwarded is what the payloads of the events make up. -/
theorem GenericBridge.forwards_payload (reportSize : Nat) (transport : BridgeTransport) :
    (GenericBridge.hostPath reportSize transport).Forwards payload := by
  refine HostPath.forwards_of_idle fun s hreached hidle => ?_
  have hinTurn : s.InTurn := by
    refine hreached.invariant (P := Relay.InTurn) ?_ fun _ _ _ hs hup h => hs.step hup h
    cases transport with
    | tcp => exact rfl
    | unix | unixDgram => exact ⟨.start, fun _ => rfl⟩
  show (s.toEmulator.map (·.2)).flatten = s.thread.outputs.flatMap payload
  cases s with
  | connecting t =>
    have hqueue : t.readQueue = t.outputs := hinTurn
    have hempty : t.readQueue = [] := hidle
    show ([] : List UInt8) = t.outputs.flatMap payload
    rw [← hqueue, hempty]
    rfl
  | tcp s =>
    obtain ⟨hwaiting, hempty⟩ := hidle
    have hsent := hinTurn (by simp [hwaiting])
    simp only [TcpRelay.unsent, TcpRelay.inHand, hwaiting, hempty, List.map_nil, List.flatten_nil,
      List.append_nil] at hsent
    show [s.sent].flatten = s.thread.outputs.flatMap payload
    rw [List.flatten_singleton, hsent, List.flatMap_def]
  | unix kind s =>
    obtain ⟨hselecting, hempty⟩ := hidle
    obtain ⟨hinOrder, hwritten⟩ := hinTurn
    have htask : s.task ≠ .returned ∧ s.task.inHand = [] := by
      rcases hselecting with h | ⟨c, h⟩ <;> simp [h, UnixTask.inHand]
    have hsent := hwritten htask.1
    have htaken := hinOrder.whole htask.1
    rw [WrittenOnce, htask.2, List.map_nil, List.append_nil] at hsent
    rw [hempty, List.append_nil] at htaken
    show (s.sent.map (·.2)).flatten = s.thread.outputs.flatMap payload
    rw [hsent, htaken, List.flatMap_def]

/-! ## The Trezor bridge -/

/-- The report task B is sending. -/
def TrezorTaskB.inHand : TrezorTaskB → List Report
  | .sending report => [report]
  | .waiting | .ended => []

/-- While task B runs, the events are sent, in hand or queued, in their order. -/
def TrezorRelay.InTurn (s : TrezorRelay) : Prop :=
  s.taskB ≠ .ended → s.sent ++ s.taskB.inHand ++ s.thread.readQueue = s.thread.outputs

variable {decode : Report → Option String}

theorem TrezorSteps.inTurn {s s' : TrezorRelay} {a : TrezorAct} (h : TrezorSteps decode s a s')
    (hs : s.InTurn) (hup : a.Up) : s'.InTurn := by
  intro htaskB
  cases h with
  | thread h =>
    have hbefore := hs htaskB
    cases h with
    | check => exact hbefore
    | works _ h =>
      cases h with
      | output =>
        rw [← hbefore]
        exact (List.append_assoc ..).symm
      | unheard _ hreceiving => exact absurd (by simpa using hreceiving) htaskB
      | _ => exact hbefore
  | received =>
    simp only [push_readQueue, push_outputs]
    exact hs htaskB
  | recvFails | shutdownA => exact hs htaskB
  | take h hqueue =>
    have hbefore := hs (by simp [h])
    rw [h, hqueue, TrezorTaskB.inHand, List.append_nil] at hbefore
    rw [TrezorTaskB.inHand, List.append_assoc]
    exact hbefore
  | sent h =>
    have hbefore := hs (by simp [h])
    rw [h] at hbefore
    rw [TrezorTaskB.inHand, List.append_nil]
    exact hbefore
  | sendFails => exact hup.elim
  | closed => exact absurd rfl htaskB

/-- Every event goes out as the device gave it, in a datagram of its own. -/
theorem TrezorBridge.sent_idle {s : TrezorRelay}
    (hreached : (TrezorBridge.hostPath decode).Reaches .start s)
    (hidle : (TrezorBridge.hostPath decode).Idle s) : s.sent = s.thread.outputs := by
  have hinTurn : s.InTurn :=
    hreached.invariant (P := TrezorRelay.InTurn) (fun _ => rfl) fun _ _ _ hs hup h =>
      (trezor_step_cases h).inTurn hs hup
  obtain ⟨hwaiting, hempty⟩ := hidle
  have hsent := hinTurn (by simp [hwaiting])
  rwa [hwaiting, hempty, TrezorTaskB.inHand, List.append_nil, List.append_nil] at hsent

theorem TrezorBridge.carries_sent {s s' : TrezorRelay} {events : List Report}
    (h : (TrezorBridge.hostPath decode).Carries s events s') : s'.sent = s.sent ++ events := by
  have hsent := h.sent (f := id) fun s hreached hidle =>
    (sent_idle hreached hidle).trans (List.map_id _).symm
  rwa [List.map_id] at hsent

theorem TrezorBridge.forwards_whole (decode : Report → Option String) :
    (TrezorBridge.hostPath decode).Forwards id := by
  refine HostPath.forwards_of_idle fun s hreached hidle => ?_
  show s.sent.flatten = s.thread.outputs.flatMap id
  rw [sent_idle hreached hidle, List.flatMap_id]

/-! ## Every path carries every event -/

/-- The thread is about to look at its channel, which is open, and has nothing to do. -/
structure UhidThread.Fresh (t : UhidThread) : Prop where
  phase : t.phase = .checking
  shutdown : t.shutdown = false
  writeQueue : t.writeQueue = []
  readQueue : t.readQueue = []

/-- A turn of the thread that brings an output event. -/
def turn (event : Report) : List ThreadAct := [.check, .drained, .poll (some event)]

theorem UhidThread.Fresh.turn {t : UhidThread} (h : t.Fresh) (event : Report) :
    run (UhidThread.step true) t (turn event) =
      some { t with phase := .sleeping, readQueue := [event], outputs := t.outputs ++ [event] } := by
  obtain ⟨phase, shutdown, writeQueue, readQueue, inputs, outputs⟩ := t
  obtain ⟨hphase, hshutdown, hwrite, hread⟩ := h
  simp only at hphase hshutdown hwrite hread
  subst hphase hshutdown hwrite hread
  rfl

/-- The relay is ready for an event. -/
def Relay.Ready : Relay → Prop
  | .connecting _ => False
  | .tcp s => s.taskB = .waiting ∧ s.thread.Fresh
  | .unix _ s => (s.task = .unconnected ∨ ∃ c, s.task = .connected c ∧ s.peerOpen c = true) ∧
    s.thread.Fresh

theorem TcpRelay.carries (reportSize : Nat) {s : TcpRelay} (hwaiting : s.taskB = .waiting)
    (hfresh : s.thread.Fresh) (event : Report) : run (TcpRelay.step reportSize) s
      ((turn event).map .thread ++
        [.take, .write (payload event).length, .written, .thread .wake]) =
      some { s.emit .hostToDevice event with
        thread := { s.thread with outputs := s.thread.outputs ++ [event] }
        sent := s.sent ++ payload event } := by
  have hturn : run (UhidThread.step (s.taskB ≠ .ended)) s.thread (turn event) = some
      { s.thread with
        phase := .sleeping, readQueue := [event], outputs := s.thread.outputs ++ [event] } := by
    rw [hwaiting]
    exact hfresh.turn event
  rw [run_append, run_tcp_thread hturn]
  simp [run_cons, run_nil, TcpRelay.step, UhidThread.step, TcpRelay.emit, hwaiting, hfresh.phase,
    hfresh.readQueue]

theorem UnixRelay.run_turn {kind : SocketKind} {s : UnixRelay} (htask : s.task ≠ .returned)
    (hfresh : s.thread.Fresh) (event : Report) :
    run (UnixRelay.step kind reportSize) s ((turn event).map .thread) =
      some { s with thread := { s.thread with
        phase := .sleeping, readQueue := [event], outputs := s.thread.outputs ++ [event] } } := by
  refine run_unix_thread ?_
  rw [decide_eq_true htask]
  exact hfresh.turn event

theorem UnixRelay.carriesFirst {kind : SocketKind} {s : UnixRelay} (htask : s.task = .unconnected)
    (hfresh : s.thread.Fresh) (event : Report) : run (UnixRelay.step kind reportSize) s
      ((turn event).map .thread ++ [.take, .connects, .written, .looks, .thread .wake]) =
      some { s.emit .hostToDevice event with
        thread := { s.thread with outputs := s.thread.outputs ++ [event] }
        task := .connected s.conns.length
        conns := s.conns ++ [⟨true, .reading []⟩]
        taken := s.taken ++ [event]
        sent := s.sent ++ [(s.conns.length, payload event)] } := by
  rw [run_append, UnixRelay.run_turn (by rw [htask]; nofun) hfresh]
  simp [run_cons, run_nil, UnixRelay.step, UhidThread.step, UnixRelay.emit, UnixRelay.peerOpen,
    UnixRelay.reader, UnixRelay.setReader, htask, hfresh.phase, hfresh.readQueue]
  exact Runtime.modify_length_append _ s.conns _ []

theorem UnixRelay.carriesNext {kind : SocketKind} {s : UnixRelay} {c : Nat}
    (htask : s.task = .connected c) (hopen : s.peerOpen c = true) (hfresh : s.thread.Fresh)
    (event : Report) : run (UnixRelay.step kind reportSize) s
      ((turn event).map .thread ++ [.take, .written, .thread .wake]) =
      some { s.emit .hostToDevice event with
        thread := { s.thread with outputs := s.thread.outputs ++ [event] }
        task := if s.reader c = .finished then .unconnected else .connected c
        taken := s.taken ++ [event]
        sent := s.sent ++ [(c, payload event)] } := by
  rw [run_append, UnixRelay.run_turn (by rw [htask]; nofun) hfresh]
  simp only [UnixRelay.peerOpen] at hopen
  simp [run_cons, run_nil, UnixRelay.step, UhidThread.step, UnixRelay.emit, UnixRelay.peerOpen,
    UnixRelay.reader, htask, hopen, hfresh.phase, hfresh.readQueue]
  rfl

theorem TrezorRelay.carries {s : TrezorRelay} (hwaiting : s.taskB = .waiting)
    (hfresh : s.thread.Fresh) (event : Report) : run (TrezorRelay.step decode) s
      ((turn event).map .thread ++ [.take, .sent, .thread .wake]) =
      some { s.emit decode .hostToDevice event with
        thread := { s.thread with outputs := s.thread.outputs ++ [event] }
        sent := s.sent ++ [event] } := by
  obtain ⟨hphase, hshutdown, hwrite, hread⟩ := hfresh
  simp [turn, run_cons, run_nil, TrezorRelay.step, UhidThread.trezorStep, UhidThread.tryRecv,
    UhidThread.step, TrezorRelay.emit, hwaiting, hphase, hshutdown, hwrite, hread]

/-- The generic bridge carries any events over any transport. -/
theorem GenericBridge.exists_carries (reportSize : Nat) (transport : BridgeTransport)
    (events : List Report) :
    ∃ s s', (GenericBridge.hostPath reportSize transport).Carries s events s' := by
  refine HostPath.exists_carries Relay.Ready ?_ ?_ ?_ events
  · intro s hs
    cases s with
    | connecting => exact hs.elim
    | tcp s => exact ⟨hs.1, hs.2.readQueue⟩
    | unix kind s => exact ⟨hs.1.imp id fun ⟨c, hc, _⟩ => ⟨c, hc⟩, hs.2.readQueue⟩
  · cases transport with
    | tcp =>
      exact ⟨.tcp .connected, ⟨[.connects], by simp [hostPath, RelayAct.Up], rfl⟩, rfl, rfl, rfl,
        rfl, rfl⟩
    | unix => exact ⟨.unix .stream .start, .refl _, .inl rfl, rfl, rfl, rfl, rfl⟩
    | unixDgram => exact ⟨.unix .dgram .start, .refl _, .inl rfl, rfl, rfl, rfl, rfl⟩
  · intro s event hs
    cases s with
    | connecting => exact hs.elim
    | tcp s =>
      obtain ⟨hwaiting, hfresh⟩ := hs
      refine ⟨_, ⟨_, ?_, run_tcp (TcpRelay.carries reportSize hwaiting hfresh event)⟩,
        ⟨hwaiting, ?_⟩, rfl⟩
      · simp [turn, hostPath, RelayAct.Up]
      · exact ⟨hfresh.phase, hfresh.shutdown, hfresh.writeQueue, hfresh.readQueue⟩
    | unix kind s =>
      obtain ⟨htask, hfresh⟩ := hs
      have hfresh' : UhidThread.Fresh { s.thread with outputs := s.thread.outputs ++ [event] } :=
        ⟨hfresh.phase, hfresh.shutdown, hfresh.writeQueue, hfresh.readQueue⟩
      rcases htask with htask | ⟨c, htask, hopen⟩
      · refine ⟨_, ⟨_, ?_, run_unix (UnixRelay.carriesFirst htask hfresh event)⟩,
          ⟨.inr ⟨_, rfl, ?_⟩, hfresh'⟩, rfl⟩
        · simp [turn, hostPath, RelayAct.Up]
        · simp [UnixRelay.peerOpen]
      · refine ⟨_, ⟨_, ?_, run_unix (UnixRelay.carriesNext htask hopen hfresh event)⟩,
          ⟨?_, hfresh'⟩, rfl⟩
        · simp [turn, hostPath, RelayAct.Up]
        · by_cases hfinished : s.reader c = .finished
          · exact .inl (if_pos hfinished)
          · exact .inr ⟨c, if_neg hfinished, hopen⟩

/-- The Trezor bridge does too. -/
theorem TrezorBridge.exists_carries (decode : Report → Option String) (events : List Report) :
    ∃ s s', (TrezorBridge.hostPath decode).Carries s events s' := by
  refine HostPath.exists_carries (fun s : TrezorRelay => s.taskB = .waiting ∧ s.thread.Fresh)
    ?_ ?_ ?_ events
  · rintro s ⟨hwaiting, hfresh⟩
    exact ⟨hwaiting, hfresh.readQueue⟩
  · exact ⟨.start, .refl _, rfl, rfl, rfl, rfl, rfl⟩
  · rintro s event ⟨hwaiting, hfresh⟩
    refine ⟨_, ⟨_, ?_, TrezorRelay.carries hwaiting hfresh event⟩, ⟨hwaiting, ?_⟩, rfl⟩
    · simp [turn, hostPath, TrezorAct.Up]
    · exact ⟨hfresh.phase, hfresh.shutdown, hfresh.writeQueue, hfresh.readQueue⟩

/-! ## The same payload, and another one -/

/-- Two paths that treat an event alike forward the same. -/
theorem HostPath.same_of_forwards {σ α τ β : Type} {p : HostPath σ α} {q : HostPath τ β}
    {f g : Report → List UInt8} {event : Report} (hp : p.Forwards f) (hq : q.Forwards g)
    (h : f event = g event) : p.Same q event :=
  fun _ _ _ _ hs ht => ⟨f event, hp.single hs, h ▸ hq.single ht⟩

/-- Two paths that do not, and do carry the event, never forward the same. -/
theorem HostPath.not_same_of_forwards {σ α τ β : Type} {p : HostPath σ α} {q : HostPath τ β}
    {f g : Report → List UInt8} {event : Report} (hp : p.Forwards f) (hq : q.Forwards g)
    (hs : ∃ s s', p.Carries s [event] s') (ht : ∃ t t', q.Carries t [event] t')
    (h : f event ≠ g event) : ¬ p.Same q event := by
  intro hsame
  obtain ⟨s, s', hs⟩ := hs
  obtain ⟨t, t', ht⟩ := ht
  obtain ⟨bytes, hbytes, hbytes'⟩ := hsame s s' t t' hs ht
  rw [hp.single hs, List.append_cancel_left_eq] at hbytes
  rw [hq.single ht, List.append_cancel_left_eq] at hbytes'
  exact h (hbytes.trans hbytes'.symm)

theorem TrezorBridge.not_same (decode : Report → Option String) (reportSize : Nat)
    (transport : BridgeTransport) (report : Report) :
    ¬ (GenericBridge.hostPath reportSize transport).Same (TrezorBridge.hostPath decode)
      (0x00 :: report) := by
  refine HostPath.not_same_of_forwards (GenericBridge.forwards_payload reportSize transport)
    (forwards_whole decode) (GenericBridge.exists_carries reportSize transport _)
    (exists_carries decode _) ?_
  rw [payload_of_report]
  exact (List.cons_ne_self _ _).symm

/-- No receiving loop takes a datagram with the report-ID byte for a first packet. -/
theorem opening_reportId (c : Receiver) (bytes : List UInt8) :
    ∃ message, c.opening (0x00 :: bytes) = .error (.err message) := by
  have hhead : (recvInto (Machine.Buf.zero 64) (0x00 :: bytes)).2.get 0 = 0x00 :=
    Receiver.recvInto_head
  have hmarker : (recvInto (Machine.Buf.zero 64) (0x00 :: bytes)).2.get 0 ≠ 0x3F := by
    rw [hhead]
    decide
  exact ⟨_, if_pos (.inr (.inl hmarker))⟩

theorem TrezorBridge.not_reassembles (decode : Report → Option String) (m : RawMessage) :
    ¬ TrezorBridge.Reassembles decode m := by
  intro h
  obtain ⟨s, s', hs⟩ := exists_carries decode (outputEvents m)
  obtain ⟨c, datagrams, hsent, hreceived⟩ := h s s' hs
  obtain rfl : outputEvents m = datagrams :=
    List.append_cancel_left ((carries_sent hs).symm.trans hsent)
  rw [outputEvents, frameMessage, List.map_cons] at hreceived
  obtain ⟨message, hopening⟩ := opening_reportId c (firstPacket m.msgType m.payload).bytes
  have hfails : ∀ ds, c.receive (deliveries (_ :: ds)) = (.error (.err message), deliveries ds) :=
    fun ds => Receiver.receive_of_opening_error hopening
  simp only [deliveries] at hfails
  rw [hfails] at hreceived
  cases hreceived

/-- Over each of its transports the generic bridge forwards the same bytes for a report of the host;
the Trezor bridge never does, and what it forwards for a message is never reassembled to it. -/
theorem trezor_forwards_reportId (decode : Report → Option String) (reportSize : Nat) :
    (∀ transport transport' report, (GenericBridge.hostPath reportSize transport).Same
      (GenericBridge.hostPath reportSize transport') (0x00 :: report)) ∧
    (∀ transport report, ¬ (GenericBridge.hostPath reportSize transport).Same
      (TrezorBridge.hostPath decode) (0x00 :: report)) ∧
    ∀ m, ¬ TrezorBridge.Reassembles decode m :=
  ⟨fun transport transport' _ => HostPath.same_of_forwards
      (GenericBridge.forwards_payload reportSize transport)
      (GenericBridge.forwards_payload reportSize transport') rfl,
    TrezorBridge.not_same decode reportSize, TrezorBridge.not_reassembles decode⟩

/-- `Initialize`, a message without fields. -/
def initializeMessage : RawMessage := ⟨0, []⟩

theorem not_same_payload_initialize :
    ¬ ∀ decode reportSize transport report, (GenericBridge.hostPath reportSize transport).Same
      (TrezorBridge.hostPath decode) (0x00 :: report) := by
  intro h
  exact TrezorBridge.not_same (fun _ => none) 64 (.tcp "127.0.0.1" 21324)
    (firstPacket initializeMessage.msgType initializeMessage.payload).bytes (h _ _ _ _)

end Hwwctl.Bridge
