import Hwwctl.Protocol.Proofs.FramingProofs
import Hwwctl.Protocol.Session

/-!
# Whose response does a call return?

Nothing tells the packets of one response from those of another, so a call gets its own response
when no earlier one is outstanding, and from any other state some calls get the wrong one.
-/

namespace Hwwctl.Protocol

open Machine Transition

/-! ## Receiving -/

namespace Receiver

variable {c : Receiver} {payloadLen : Nat} {socket rest more : List Delivery} {buf : Packet}
  {data d : List UInt8} {o : Except Fail (List UInt8)}

theorem continuations_done (h : ¬ data.length < payloadLen) :
    c.continuations payloadLen socket buf data = (.ok data, socket) := by
  cases socket with
  | nil => rw [continuations, if_neg h]
  | cons x socket => cases x <;> rw [continuations, if_neg h]

/-- What comes behind a complete payload stays. -/
theorem continuations_append (h : c.continuations payloadLen socket buf data = (.ok d, rest)) :
    c.continuations payloadLen (socket ++ more) buf data = (.ok d, rest ++ more) := by
  induction socket generalizing buf data with
  | nil =>
    by_cases hlt : data.length < payloadLen
    · rw [continuations, if_pos hlt] at h
      cases h
    · rw [continuations, if_neg hlt] at h
      cases h
      exact continuations_done hlt
  | cons x socket ih =>
    by_cases hlt : data.length < payloadLen
    · cases x with
      | failed =>
        rw [continuations, if_pos hlt] at h
        cases h
      | datagram bytes =>
        rw [continuations, if_pos hlt] at h
        rw [List.cons_append, continuations, if_pos hlt]
        cases hpacket : c.continuation buf bytes with
        | error e =>
          rw [hpacket] at h
          cases h
        | ok p =>
          rw [hpacket] at h
          exact ih h
    · rw [continuations_done hlt] at h ⊢
      cases h
      rfl

theorem opening_unchecked {c' : Receiver} {first : Opening} (h : c.opening d = .ok first) :
    c'.opening d = .ok first := by
  unfold opening at h ⊢
  simp only [] at h ⊢
  split at h
  · cases h
  · rename_i hno
    rw [if_neg hno]
    exact h

/-- A loop that checks less collects the same payload. -/
theorem continuations_unchecked {c' : Receiver} (hc : c'.checksContinuations = false)
    (h : c.continuations payloadLen socket buf data = (.ok d, rest)) :
    c'.continuations payloadLen socket buf data = (.ok d, rest) := by
  induction socket generalizing buf data with
  | nil =>
    by_cases hlt : data.length < payloadLen
    · rw [continuations, if_pos hlt] at h
      cases h
    · rw [continuations_done hlt] at h ⊢
      exact h
  | cons x socket ih =>
    by_cases hlt : data.length < payloadLen
    · cases x with
      | failed =>
        rw [continuations, if_pos hlt] at h
        cases h
      | datagram bytes =>
        rw [continuations, if_pos hlt] at h ⊢
        cases hpacket : c.continuation buf bytes with
        | error e =>
          rw [hpacket] at h
          cases h
        | ok p =>
          have hpacket' : c'.continuation buf bytes = .ok p := by
            unfold continuation at hpacket ⊢
            simp only [hc, Bool.false_eq_true, false_and, if_false]
            simp only [] at hpacket
            split at hpacket
            · cases hpacket
            · exact hpacket
          rw [hpacket] at h
          rw [hpacket']
          exact ih h
    · rw [continuations_done hlt] at h ⊢
      exact h

variable {m : RawMessage} {bytes : List UInt8}

/-- A message is a first packet and its continuations. -/
theorem receive_ok_iff :
    c.receive (.datagram bytes :: socket) = (.ok m, rest) ↔
      ∃ first data, c.opening bytes = .ok first ∧
        c.continuations first.payloadLen socket first.buf first.chunk = (.ok data, rest) ∧
        m = ⟨first.msgType, data.take first.payloadLen⟩ := by
  rw [receive]
  cases c.opening bytes with
  | error e => simp
  | ok first =>
    cases hcont : c.continuations first.payloadLen socket first.buf first.chunk with
    | mk o rest' =>
      cases o with
      | error e => simp [hcont]
      | ok data =>
        simp only [hcont]
        constructor
        · intro h
          cases h
          exact ⟨first, data, rfl, hcont, rfl⟩
        · rintro ⟨first', data', hfirst, hcont', rfl⟩
          cases hfirst
          rw [hcont] at hcont'
          cases hcont'
          rfl

theorem receive_append (h : c.receive socket = (.ok m, rest)) :
    c.receive (socket ++ more) = (.ok m, rest ++ more) := by
  cases socket with
  | nil => cases h
  | cons x socket =>
    cases x with
    | failed => cases h
    | datagram bytes =>
      obtain ⟨first, data, hopen, hcont, hm⟩ := receive_ok_iff.1 h
      exact receive_ok_iff.2 ⟨first, data, hopen, continuations_append hcont, hm⟩

theorem receive_unchecked {c' : Receiver} (hc : c'.checksContinuations = false)
    (h : c.receive socket = (.ok m, rest)) : c'.receive socket = (.ok m, rest) := by
  cases socket with
  | nil => cases h
  | cons x socket =>
    cases x with
    | failed => cases h
    | datagram bytes =>
      obtain ⟨first, data, hopen, hcont, hm⟩ := receive_ok_iff.1 h
      exact receive_ok_iff.2
        ⟨first, data, opening_unchecked hopen, continuations_unchecked hc hcont, hm⟩

end Receiver

theorem recvContinuations_eq (payloadLen : Nat) (socket : List Delivery) (buf : Packet)
    (data : List UInt8) :
    recvContinuations payloadLen socket buf data =
      debugReceiver.continuations payloadLen socket buf data := by
  induction socket generalizing buf data with
  | nil => rfl
  | cons x socket ih =>
    cases x with
    | failed => rfl
    | datagram bytes =>
      rw [recvContinuations, Receiver.continuations, Receiver.continuation]
      simp only [show debugReceiver.checksContinuations = true from rfl, true_and]
      split_ifs with hlt hbad
      · rfl
      · cases slice (recvInto buf bytes).2.bytes 1 (min (recvInto buf bytes).1 64) with
        | error p => rfl
        | ok chunk => exact ih _ _
      · rfl

/-- `recv_message` is the receiving loop with its check. -/
theorem recvMessage_eq : recvMessage = debugReceiver.receive := by
  funext socket
  cases socket with
  | nil => rfl
  | cons x socket =>
    cases x with
    | failed => rfl
    | datagram bytes =>
      rw [recvMessage, Receiver.receive, Receiver.opening]
      simp only [recvContinuations_eq]
      split_ifs with hbad
      · rfl
      · cases slice (recvInto (Buf.zero 64) bytes).2.bytes 9
          (min (recvInto (Buf.zero 64) bytes).1 64) with
        | error p => rfl
        | ok chunk => rfl

/-! ## Calls -/

/-- What both clients' receiving has in common. -/
structure Client.Lawful {β : Type} (c : Client β) : Prop where
  nil : c.recv [] = (.error .pending, [])
  wire : ∀ m socket, m.payload.length < 2 ^ 32 →
    c.recv (Protocol.wire m ++ socket) = (.ok m, socket)
  append : ∀ socket more m rest, c.recv socket = (.ok m, rest) →
    c.recv (socket ++ more) = (.ok m, rest ++ more)

theorem wireClient_lawful : wireClient.Lawful where
  nil := rfl
  wire m socket hlen := by
    have h := recvMessage_wire m hlen socket
    rw [recvMessage_eq] at h
    exact Receiver.receive_unchecked rfl h
  append _ _ _ _ h := Receiver.receive_append h

theorem debugLink_lawful (b : Build) (fuel : Nat) : (debugLink b fuel).Lawful where
  nil := rfl
  wire m socket hlen := recvMessage_wire m hlen socket
  append _ _ _ _ h := by
    simp only [debugLink, recvMessage_eq] at h ⊢
    exact Receiver.receive_append h

namespace Client

variable {β : Type} {c : Client β} {l : Link} {call : Call}

/-- A call with nothing of an earlier response before it receives its own, or nothing. -/
theorem own_of_undisturbed (hc : c.Lawful) (h : Undisturbed l call) : c.Own l call := by
  intro r hr
  rcases h with houtstanding | hnothing
  · obtain ⟨hbuffered, hcoming⟩ := List.append_eq_nil_iff.1 houtstanding
    have harrived : ((l.send call.response).arrive call.arrivals).buffered =
        (wire call.response).take call.arrivals := by
      simp [Link.arrive, Link.send, hbuffered, hcoming]
    unfold Client.call at hr
    simp only [harrived] at hr
    split at hr
    · cases hr
    · cases hr
    · rename_i m rest hrecv
      have hall := hc.append _ ((wire call.response).drop call.arrivals) _ _ hrecv
      have hwhole := hc.wire call.response [] call.fits
      rw [List.take_append_drop] at hall
      rw [List.append_nil] at hwhole
      rw [hwhole] at hall
      obtain rfl := Except.ok.inj (Prod.mk.inj hall).1
      exact hr
  · unfold Client.call at hr
    simp only [hnothing, hc.nil] at hr
    cases hr

/-- A response that comes in time leaves nothing outstanding. -/
theorem outstanding_call (hc : c.Lawful) (h : l.outstanding = [])
    (harrivals : (wire call.response).length ≤ call.arrivals) :
    (c.call l call).2.outstanding = [] := by
  obtain ⟨hbuffered, hcoming⟩ := List.append_eq_nil_iff.1 h
  have harrived : (l.send call.response).arrive call.arrivals = ⟨wire call.response, []⟩ := by
    simp [Link.arrive, Link.send, hbuffered, hcoming, List.take_of_length_le harrivals,
      List.drop_of_length_le harrivals]
  have hrecv := hc.wire call.response [] call.fits
  rw [List.append_nil] at hrecv
  unfold Client.call
  simp only [harrived, hrecv]
  rfl

/-- A call that finds a whole response before its own returns that one. -/
theorem call_late {l : Link} {call : Call} (hc : c.Lawful) {m : RawMessage}
    (hfits : m.payload.length < 2 ^ 32)
    {more : List Delivery}
    (h : ((l.send call.response).arrive call.arrivals).buffered = wire m ++ more) :
    (c.call l call).1 = c.result m := by
  have hrecv := hc.wire m more hfits
  unfold Client.call
  simp only [h, hrecv]

end Client

/-- On one debug link and on one wire client, every call that succeeds gets its own response when no
call receives a packet of an earlier one. -/
theorem own_response_of_undisturbed (b : Build) (fuel : Nat) (calls : List Call) :
    (Guarded (debugLink b fuel).step Undisturbed .fresh calls →
      Guarded (debugLink b fuel).step (debugLink b fuel).Own .fresh calls) ∧
    (Guarded wireClient.step Undisturbed .fresh calls →
      Guarded wireClient.step wireClient.Own .fresh calls) := by
  constructor
  · intro hguard
    exact hguard.mono fun _ _ h => Client.own_of_undisturbed (debugLink_lawful b fuel) h
  · intro hguard
    exact hguard.mono fun _ _ h => Client.own_of_undisturbed wireClient_lawful h

/-- A `Ping`, and a `GetFeatures` behind it. -/
def pingThenFeatures (arrivals : Nat) : List Call :=
  [⟨⟨2, []⟩, by decide, arrivals⟩, ⟨⟨17, [0x0A, 0]⟩, by decide, 1⟩]

/-- When the first response comes in time, both calls get their own. -/
theorem own_response_pingThenFeatures :
    Guarded wireClient.step wireClient.Own .fresh (pingThenFeatures 1) := by
  refine (own_response_of_undisturbed .checked 0 (pingThenFeatures 1)).2 ?_
  refine .cons (.inl rfl) fun l h => .cons (.inl ?_) fun _ _ => .of_forall (by simp)
  obtain rfl := Option.some.inj h
  exact Client.outstanding_call wireClient_lawful rfl (by rw [wire_length]; decide)

/-- When it comes late, the second call returns the response to the `Ping`. -/
theorem not_own_pingThenFeatures :
    ¬ Guarded wireClient.step wireClient.Own .fresh (pingThenFeatures 0) := by
  intro hguard
  -- the second call starts with the late response on its way
  have hown : wireClient.Own ⟨[], wire ⟨2, []⟩⟩ ⟨⟨17, [0x0A, 0]⟩, by decide, 1⟩ :=
    (hguard.tail rfl).head rfl
  have hbuffered : (((⟨[], wire ⟨2, []⟩⟩ : Link).send ⟨17, [0x0A, 0]⟩).arrive 1).buffered =
      wire ⟨2, []⟩ ++ [] := by
    have hlength : (wire ⟨2, []⟩).length = 1 := wire_length _
    rw [List.append_nil]
    exact List.take_left' hlength
  have hstale : (wireClient.call ⟨[], wire ⟨2, []⟩⟩ ⟨⟨17, [0x0A, 0]⟩, by decide, 1⟩).1 =
      wireClient.result ⟨2, []⟩ := Client.call_late wireClient_lawful (by decide) hbuffered
  cases hown [] hstale

end Hwwctl.Protocol
