import Hwwctl.Protocol.Proofs.FieldsProofs
import Hwwctl.Protocol.Proofs.WireClientProofs
import Hwwctl.Protocol.Requests

/-!
# What the device is told

Whatever the device answers, and whenever, the packets that the clients send are those of their
requests and of the confirmations it asked for. They can be read in no other way, neither as
messages nor, message by message, as fields.
-/

namespace Hwwctl.Protocol

open Machine Protobuf

/-! ## Reading packets as messages -/

/-- The packets are those of these messages, one after the other. -/
structure Frames (packets : List Packet) (msgs : List RawMessage) : Prop where
  fits : ∀ m ∈ msgs, m.payload.length < 2 ^ 32
  packets_eq : msgs.flatMap (fun m => frameMessage m.msgType m.payload) = packets

theorem flatMap_wire (msgs : List RawMessage) :
    (msgs.flatMap fun m => frameMessage m.msgType m.payload).map (fun p => .datagram p.bytes) =
      msgs.flatMap wire := by
  rw [List.map_flatMap]
  rfl

/-- Messages that come in the same packets are the same. -/
theorem flatMap_wire_inj {msgs msgs' : List RawMessage} (h : ∀ m ∈ msgs, m.payload.length < 2 ^ 32)
    (h' : ∀ m ∈ msgs', m.payload.length < 2 ^ 32) (heq : msgs.flatMap wire = msgs'.flatMap wire) :
    msgs = msgs' := by
  have hne : ∀ (m : RawMessage) (ms : List RawMessage), (m :: ms).flatMap wire ≠ [] := by
    intro m ms hnil
    have hlength := congrArg List.length hnil
    simp [wire_length, packetCount] at hlength
  induction msgs generalizing msgs' with
  | nil =>
    cases msgs' with
    | nil => rfl
    | cons m' msgs' => exact absurd heq.symm (hne m' msgs')
  | cons m msgs ih =>
    cases msgs' with
    | nil => exact absurd heq (hne m msgs)
    | cons m' msgs' =>
      rw [List.flatMap_cons, List.flatMap_cons] at heq
      have hm := recvMessage_wire m (h m List.mem_cons_self) (msgs.flatMap wire)
      have hm' := recvMessage_wire m' (h' m' List.mem_cons_self) (msgs'.flatMap wire)
      rw [heq, hm'] at hm
      obtain ⟨hmsg, hrest⟩ := Prod.mk.inj hm
      obtain rfl : m' = m := Except.ok.inj hmsg
      have htail := ih (fun x hx => h x (List.mem_cons_of_mem _ hx))
        (fun x hx => h' x (List.mem_cons_of_mem _ hx)) hrest.symm
      rw [htail]

theorem Frames.unique {packets : List Packet} {msgs msgs' : List RawMessage}
    (h : Frames packets msgs) (h' : Frames packets msgs') : msgs = msgs' := by
  refine flatMap_wire_inj h.fits h'.fits ?_
  rw [← flatMap_wire, ← flatMap_wire, h.packets_eq, h'.packets_eq]

theorem Frames.append {packets packets' : List Packet} {msgs msgs' : List RawMessage}
    (h : Frames packets msgs) (h' : Frames packets' msgs') :
    Frames (packets ++ packets') (msgs ++ msgs') := by
  refine ⟨?_, ?_⟩
  · intro m hm
    rcases List.mem_append.1 hm with hm | hm
    · exact h.fits m hm
    · exact h'.fits m hm
  · rw [List.flatMap_append, h.packets_eq, h'.packets_eq]

theorem Frames.nil : Frames [] [] := ⟨by simp, rfl⟩

theorem Frames.single {m : RawMessage} (h : m.payload.length < 2 ^ 32) :
    Frames (frameMessage m.msgType m.payload) [m] := by
  refine ⟨?_, ?_⟩
  · intro m' hm'
    rw [List.mem_singleton.1 hm']
    exact h
  · rw [List.flatMap_cons, List.flatMap_nil, List.append_nil]

/-! ## Reading messages as fields -/

theorem encodeFieldVarint_says {number : UInt32} (hpos : 0 < number.toNat)
    (hlt : number.toNat < 2 ^ 29) (value : UInt64) :
    Says (encodeFieldVarint number value) [⟨number.toNat, .varint value.toNat⟩] := by
  obtain ⟨tag, htag, htagv⟩ := exists_encodeVarint (number.toUInt64 <<< 3)
  obtain ⟨v, hv, hvalue⟩ := exists_encodeVarint value
  have htype : tag.value = 8 * number.toNat + (Content.varint v).wireType := by
    rw [htagv, toNat_varintTag]
    rfl
  refine ⟨[⟨number.toNat, tag, .varint v, hpos, hlt, htype⟩], ?_, ?_⟩
  · show (tag.bytes ++ v.bytes) ++ [] = encodeFieldVarint number value
    rw [List.append_nil, htag, hv, encodeFieldVarint]
  · show [(⟨number.toNat, .varint v.value⟩ : Field)] = _
    rw [hvalue]

theorem encodeFieldString_says {number : UInt32} (hpos : 0 < number.toNat)
    (hlt : number.toNat < 2 ^ 29) {s : String} (hs : (asBytes s).length < 2 ^ 64) :
    Says (encodeFieldString number s) [⟨number.toNat, .delimited (asBytes s)⟩] := by
  obtain ⟨tag, htag, htagv⟩ := exists_encodeVarint (stringTag number)
  obtain ⟨len, hl, hlv⟩ := exists_encodeVarint (UInt64.ofNat (asBytes s).length)
  have hlen : len.value = (asBytes s).length := by
    rw [hlv, UInt64.toNat_ofNat', Nat.mod_eq_of_lt hs]
  have htype : tag.value = 8 * number.toNat + (Content.delimited len (asBytes s) hlen).wireType := by
    rw [htagv, toNat_stringTag]
    rfl
  refine ⟨[⟨number.toNat, tag, .delimited len (asBytes s) hlen, hpos, hlt, htype⟩], ?_, rfl⟩
  show (tag.bytes ++ (len.bytes ++ asBytes s)) ++ [] = encodeFieldString number s
  rw [List.append_nil, htag, hl, encodeFieldString, List.append_assoc]
  rfl

namespace DeviceRequest

/-- The message that asks for it. -/
def message : DeviceRequest → RawMessage
  | sendInitialize => ⟨msgInitialize, []⟩
  | ping => ⟨msgPing, []⟩
  | getFeatures => ⟨msgGetFeatures, []⟩
  | getPublicKey path _ => ⟨msgGetPublicKey,
      path.flatMap (fun component => encodeFieldVarint 1 component.toUInt64) ++
        encodeFieldString 4 "Bitcoin"⟩
  | loadDevice mnemonic label _ => ⟨msgLoadDevice,
      encodeFieldString 1 mnemonic ++ (if label = "" then [] else encodeFieldString 6 label)⟩
  | getLayout => ⟨msgDebugLinkGetState, encodeFieldVarint 3 0⟩
  | pressButton button => ⟨msgDebugLinkDecision, encodeFieldVarint 1 button.code⟩
  | swipe direction => ⟨msgDebugLinkDecision, encodeFieldVarint 2 direction.code⟩
  | inputText text => ⟨msgDebugLinkDecision, encodeFieldString 3 text⟩

/-- What the request says to the device. -/
def fields : DeviceRequest → List Field
  | sendInitialize | ping | getFeatures => []
  | getPublicKey path _ =>
    path.map (fun component => ⟨1, .varint component.toNat⟩) ++ [⟨4, .delimited (asBytes "Bitcoin")⟩]
  | loadDevice mnemonic label _ =>
    ⟨1, .delimited (asBytes mnemonic)⟩ ::
      if label = "" then [] else [⟨6, .delimited (asBytes label)⟩]
  | getLayout => [⟨3, .varint 0⟩]
  | pressButton button => [⟨1, .varint button.code.toNat⟩]
  | swipe direction => [⟨2, .varint direction.code.toNat⟩]
  | inputText text => [⟨3, .delimited (asBytes text)⟩]

theorem says_path (path : List UInt32) :
    Says (path.flatMap fun component => encodeFieldVarint 1 component.toUInt64)
      (path.map fun component => ⟨1, .varint component.toNat⟩) := by
  induction path with
  | nil => exact .nil
  | cons component path ih =>
    have hone : Says (encodeFieldVarint 1 component.toUInt64) [⟨1, .varint component.toNat⟩] := by
      rw [← UInt32.toNat_toUInt64]
      exact encodeFieldVarint_says (by decide) (by decide) component.toUInt64
    exact hone.append ih

theorem says_message {request : DeviceRequest} (h : request.message.payload.length < 2 ^ 32) :
    Says request.message.payload request.fields := by
  have hstring : ∀ (number : UInt32) (s : String), 0 < number.toNat → number.toNat < 2 ^ 29 →
      (encodeFieldString number s).length < 2 ^ 32 →
      Says (encodeFieldString number s) [⟨number.toNat, .delimited (asBytes s)⟩] := by
    intro number s hpos hlt hlength
    have hle := asBytes_length_le number s
    exact encodeFieldString_says hpos hlt (by omega)
  cases request with
  | sendInitialize | ping | getFeatures => exact .nil
  | getPublicKey path debugLink =>
    have hlength := (List.length_append.symm.trans_lt h)
    exact (says_path path).append (hstring 4 "Bitcoin" (by decide) (by decide) (by omega))
  | loadDevice mnemonic label debugLink =>
    have hlength := (List.length_append.symm.trans_lt h)
    have hmnemonic := hstring 1 mnemonic (by decide) (by decide) (by omega)
    by_cases hlabel : label = ""
    · simp only [message, fields, if_pos hlabel, List.append_nil]
      exact hmnemonic
    · simp only [if_neg hlabel] at hlength
      simp only [message, fields, if_neg hlabel]
      exact hmnemonic.append (hstring 6 label (by decide) (by decide) (by omega))
  | getLayout => exact encodeFieldVarint_says (by decide) (by decide) 0
  | pressButton button => exact encodeFieldVarint_says (by decide) (by decide) button.code
  | swipe direction => exact encodeFieldVarint_says (by decide) (by decide) direction.code
  | inputText text => exact hstring 3 text (by decide) (by decide) h

end DeviceRequest

/-! ## What a call sends -/

def Event.wirePacket : Event → Option Packet
  | .sent packet => some packet
  | _ => none

def Event.debugPacket : Event → Option Packet
  | .debugSent packet => some packet
  | _ => none

/-- From `s` to `s'` these packets are sent on the client's socket and on the debug link's. -/
structure Sends (s s' : Sockets) (wirePackets debugPackets : List Packet) : Prop where
  wire : s'.events.filterMap Event.wirePacket =
    s.events.filterMap Event.wirePacket ++ wirePackets
  debug : s'.events.filterMap Event.debugPacket =
    s.events.filterMap Event.debugPacket ++ debugPackets
  refuses : s'.refuses = s.refuses

namespace Sends

variable {s s' s'' : Sockets} {packets packets' debugs debugs' : List Packet}

theorem refl (s : Sockets) : Sends s s [] [] := ⟨by simp, by simp, rfl⟩

theorem trans (h : Sends s s' packets debugs) (h' : Sends s' s'' packets' debugs') :
    Sends s s'' (packets ++ packets') (debugs ++ debugs') := by
  refine ⟨?_, ?_, h'.refuses.trans h.refuses⟩
  · rw [h'.wire, h.wire, List.append_assoc]
  · rw [h'.debug, h.debug, List.append_assoc]

theorem sent (s : Sockets) (packets : List Packet) :
    Sends s { s with events := s.events ++ packets.map .sent } packets [] := by
  refine ⟨?_, ?_, rfl⟩
  · simp [Event.wirePacket, Function.comp_def]
  · simp [Event.debugPacket, Function.comp_def]

theorem debugSent (s : Sockets) (packets : List Packet) :
    Sends s { s with events := s.events ++ packets.map .debugSent } [] packets := by
  refine ⟨?_, ?_, rfl⟩
  · simp [Event.wirePacket, Function.comp_def]
  · simp [Event.debugPacket, Function.comp_def]

end Sends

theorem recvWithin_sends (timedOut : String)
    (fut : List Delivery → Except Fail RawMessage × List Delivery) (s : Sockets) :
    Sends s (Wire.recvWithin timedOut fut s).2 [] [] := by
  obtain ⟨taken, hevents, hrefuses⟩ : ∃ taken : List Delivery,
      (Wire.recvWithin timedOut fut s).2.events = s.events ++ taken.map .received ∧
        (Wire.recvWithin timedOut fut s).2.refuses = s.refuses := by
    refine ⟨s.incoming.take (s.incoming.length - (fut s.incoming).2.length), ?_⟩
    unfold Wire.recvWithin
    rcases fut s.incoming with ⟨r, rest⟩
    dsimp only
    split
    · exact ⟨rfl, rfl⟩
    · exact ⟨rfl, rfl⟩
    · exact ⟨rfl, rfl⟩
  refine ⟨?_, ?_, hrefuses⟩
  · rw [hevents]
    simp [Event.wirePacket, Function.comp_def]
  · rw [hevents]
    simp [Event.debugPacket, Function.comp_def]

/-- The messages by which a button request is confirmed. -/
def buttonAck : RawMessage := ⟨msgButtonAck, []⟩

def yesDecision : RawMessage := (DeviceRequest.pressButton .yes).message

def framed (msgs : List RawMessage) : List Packet :=
  msgs.flatMap fun m => frameMessage m.msgType m.payload

theorem framed_cons (m : RawMessage) (msgs : List RawMessage) :
    framed (m :: msgs) = frameMessage m.msgType m.payload ++ framed msgs := List.flatMap_cons

theorem framed_append (msgs msgs' : List RawMessage) :
    framed (msgs ++ msgs') = framed msgs ++ framed msgs' := List.flatMap_append

variable {s : Sockets}

theorem confirm_sends (debugLink : Bool) (h : ∀ n, s.refuses n = false) :
    ∃ s', confirm debugLink s = (.ok (), s') ∧
      Sends s s' (framed [buttonAck]) (framed (if debugLink then [yesDecision] else [])) := by
  refine ⟨_, confirm_sent debugLink h, ?_⟩
  have hack := Sends.sent s (frameMessage msgButtonAck [])
  have hpackets : framed [buttonAck] = frameMessage msgButtonAck [] := by simp [framed, buttonAck]
  cases debugLink with
  | false =>
    simp only [Bool.false_eq_true, if_false, List.append_nil, hpackets]
    exact hack
  | true =>
    have hyes := hack.trans (.debugSent _ (framed [yesDecision]))
    simp only [List.append_nil, List.nil_append] at hyes
    simp only [if_true, hpackets, ← List.append_assoc]
    have hframed : framed [yesDecision] =
        frameMessage msgDebugLinkDecision (encodeFieldVarint 1 DebugButton.yes.code) := by
      simp [framed, yesDecision, DeviceRequest.message]
    rw [hframed] at hyes ⊢
    exact hyes

/-- As often as the device has asked, up to the number of rounds, it is acknowledged, and the
debug link decides. -/
theorem recvRounds_sends (b : Build) (fuel : Nat) (debugLink : Bool) (rounds : Nat)
    (h : ∀ n, s.refuses n = false) :
    ∃ confirmed ≤ rounds, Sends s (recvRounds b fuel debugLink rounds s).2
      (framed (List.replicate confirmed buttonAck))
      (framed (if debugLink then List.replicate confirmed yesDecision else [])) := by
  induction rounds generalizing s with
  | zero =>
    refine ⟨0, Nat.le_refl 0, ?_⟩
    simp only [List.replicate_zero, ite_self]
    exact .refl s
  | succ rounds ih =>
    have hrecv := recvWithin_sends "Wire response timed out" roundFut s
    rw [recvRounds, Act.run_bind]
    rcases hround : Wire.recvWithin "Wire response timed out" roundFut s with ⟨r, s₁⟩
    rw [hround] at hrecv
    have hnone : Sends s s₁ (framed (List.replicate 0 buttonAck))
        (framed (if debugLink then List.replicate 0 yesDecision else [])) := by
      simp only [List.replicate_zero, ite_self]
      exact hrecv
    cases r with
    | error e => exact ⟨0, Nat.zero_le _, hnone⟩
    | ok response =>
      dsimp only
      by_cases hbutton : response.msgType = msgButtonRequest
      · have h₁ : ∀ n, s₁.refuses n = false := fun n => by rw [hrecv.refuses, h]
        obtain ⟨s₂, hconfirm, hsends⟩ := confirm_sends debugLink h₁
        have h₂ : ∀ n, s₂.refuses n = false := fun n => by rw [hsends.refuses, h₁]
        obtain ⟨confirmed, hle, hrest⟩ := ih h₂
        rw [if_pos hbutton, Act.run_bind, hconfirm]
        refine ⟨confirmed + 1, by omega, ?_⟩
        have hall := (hrecv.trans hsends).trans hrest
        simp only [List.nil_append, ← framed_append] at hall
        cases debugLink with
        | false => exact hall
        | true => exact hall
      · obtain ⟨r, hconclude, -⟩ := conclude_spec b fuel response
        rw [if_neg hbutton, hconclude]
        exact ⟨0, Nat.zero_le _, hnone⟩

/-! ## Sessions -/

/-- A request, and how often the device asked for a confirmation of it. -/
structure Told where
  request : DeviceRequest
  confirmed : Nat

namespace Told

/-- What comes on the wire port. -/
def wire (t : Told) : List RawMessage :=
  match t.request with
  | .sendInitialize | .ping | .getFeatures => [t.request.message]
  | .getPublicKey .. | .loadDevice .. => t.request.message :: List.replicate t.confirmed buttonAck
  | .getLayout | .pressButton _ | .swipe _ | .inputText _ => []

/-- What comes on the debug link. -/
def debug (t : Told) : List RawMessage :=
  match t.request with
  | .sendInitialize | .ping | .getFeatures => []
  | .getPublicKey _ debugLink | .loadDevice _ _ debugLink =>
    if debugLink then List.replicate t.confirmed yesDecision else []
  | .getLayout | .pressButton _ | .swipe _ | .inputText _ => [t.request.message]

end Told

theorem sendAndRecv_sends (msgType : UInt16) (payload : List UInt8)
    (h : ∀ n, s.refuses n = false) :
    Sends s (sendAndRecv msgType payload s).2 (framed [⟨msgType, payload⟩]) (framed []) := by
  have hsent := Sends.sent s (frameMessage msgType payload)
  rw [sendAndRecv, Act.run_bind, Wire.sendAll_sent _ _ _ h]
  dsimp only
  rw [Act.run_bind]
  have hrecv := recvWithin_sends "Wire response timed out" recvFut
    { s with events := s.events ++ (frameMessage msgType payload).map .sent }
  rcases hround : Wire.recvWithin "Wire response timed out" recvFut
    { s with events := s.events ++ (frameMessage msgType payload).map .sent } with ⟨r, s₁⟩
  rw [hround] at hrecv
  have hall := hsent.trans hrecv
  cases r with
  | error e => exact hall
  | ok response => exact hall

theorem confirmed_sends (b : Build) (fuel : Nat) (debugLink : Bool) (m : RawMessage)
    (h : ∀ n, s.refuses n = false) :
    ∃ confirmed ≤ 10, Sends s
      ((do
        Wire.sendAll .sent "Wire send failed" (frameMessage m.msgType m.payload)
        recvWithConfirm b fuel debugLink : Wire (List UInt8)) s).2
      (framed (m :: List.replicate confirmed buttonAck))
      (framed (if debugLink then List.replicate confirmed yesDecision else [])) := by
  have hsent := Sends.sent s (frameMessage m.msgType m.payload)
  obtain ⟨confirmed, hle, hrest⟩ := recvRounds_sends b fuel debugLink 10
    (s := { s with events := s.events ++ (frameMessage m.msgType m.payload).map .sent }) h
  refine ⟨confirmed, hle, ?_⟩
  rw [Act.run_bind, Wire.sendAll_sent _ _ _ h, framed_cons]
  exact hsent.trans hrest

theorem sendMessage_sends (m : RawMessage) (h : ∀ n, s.refuses n = false) :
    Sends s (sendMessage m.msgType m.payload s).2 (framed []) (framed [m]) := by
  rw [sendMessage, Wire.sendAll_sent _ _ _ h, framed_cons]
  have hsent := Sends.debugSent s (frameMessage m.msgType m.payload)
  simpa [framed] using hsent

/-- One call. -/
theorem perform_sends (b : Build) (fuel : Nat) (request : DeviceRequest)
    (h : ∀ n, s.refuses n = false) :
    ∃ t : Told, t.request = request ∧ t.confirmed ≤ 10 ∧
      Sends s (request.perform b fuel s) (framed t.wire) (framed t.debug) := by
  cases request with
  | sendInitialize =>
    exact ⟨⟨.sendInitialize, 0⟩, rfl, Nat.zero_le _, sendAndRecv_sends msgInitialize [] h⟩
  | ping => exact ⟨⟨.ping, 0⟩, rfl, Nat.zero_le _, sendAndRecv_sends msgPing [] h⟩
  | getFeatures => exact ⟨⟨.getFeatures, 0⟩, rfl, Nat.zero_le _, sendAndRecv_sends msgGetFeatures [] h⟩
  | getPublicKey path debugLink =>
    obtain ⟨confirmed, hle, hsends⟩ := confirmed_sends b fuel debugLink
      (DeviceRequest.getPublicKey path debugLink).message h
    exact ⟨⟨.getPublicKey path debugLink, confirmed⟩, rfl, hle, hsends⟩
  | loadDevice mnemonic label debugLink =>
    obtain ⟨confirmed, hle, hsends⟩ := confirmed_sends b fuel debugLink
      (DeviceRequest.loadDevice mnemonic label debugLink).message h
    exact ⟨⟨.loadDevice mnemonic label debugLink, confirmed⟩, rfl, hle, hsends⟩
  | getLayout =>
    exact ⟨⟨.getLayout, 0⟩, rfl, Nat.zero_le _, sendMessage_sends DeviceRequest.getLayout.message h⟩
  | pressButton button =>
    exact ⟨⟨.pressButton button, 0⟩, rfl, Nat.zero_le _,
      sendMessage_sends (DeviceRequest.pressButton button).message h⟩
  | swipe direction =>
    exact ⟨⟨.swipe direction, 0⟩, rfl, Nat.zero_le _,
      sendMessage_sends (DeviceRequest.swipe direction).message h⟩
  | inputText text =>
    exact ⟨⟨.inputText text, 0⟩, rfl, Nat.zero_le _,
      sendMessage_sends (DeviceRequest.inputText text).message h⟩

theorem session_sends (b : Build) (fuel : Nat) (calls : List (DeviceRequest × List Delivery))
    (h : ∀ n, s.refuses n = false) :
    ∃ told : List Told, told.map Told.request = calls.map Prod.fst ∧
      (∀ t ∈ told, t.confirmed ≤ 10) ∧
      Sends s (session b fuel calls s) (framed (told.flatMap Told.wire))
        (framed (told.flatMap Told.debug)) := by
  induction calls generalizing s with
  | nil => exact ⟨[], rfl, by simp, .refl s⟩
  | cons call calls ih =>
    obtain ⟨request, arrivals⟩ := call
    have harrive : Sends s { s with incoming := s.incoming ++ arrivals } [] [] :=
      ⟨by simp, by simp, rfl⟩
    obtain ⟨t, hrequest, hle, hsends⟩ := perform_sends b fuel request
      (s := { s with incoming := s.incoming ++ arrivals }) h
    have h₁ : ∀ n, (request.perform b fuel
        { s with incoming := s.incoming ++ arrivals }).refuses n = false := by
      intro n
      rw [hsends.refuses]
      exact h n
    obtain ⟨told, htold, hall, hrest⟩ := ih h₁
    refine ⟨t :: told, ?_, ?_, ?_⟩
    · rw [List.map_cons, List.map_cons, hrequest, htold]
    · intro t' ht'
      rcases List.mem_cons.1 ht' with rfl | ht'
      · exact hle
      · exact hall t' ht'
    · rw [List.flatMap_cons, List.flatMap_cons, framed_append, framed_append]
      exact (harrive.trans hsends).trans hrest

theorem yesDecision_fits : yesDecision.payload.length < 2 ^ 32 := by
  have hle : yesDecision.payload.length ≤ 20 := encodeFieldVarint_length_le 1 DebugButton.yes.code
  omega

theorem Told.fits {t : Told} (h : t.request.message.payload.length < 2 ^ 32) :
    (∀ m ∈ t.wire, m.payload.length < 2 ^ 32) ∧ ∀ m ∈ t.debug, m.payload.length < 2 ^ 32 := by
  have hacks : ∀ m ∈ List.replicate t.confirmed buttonAck, m.payload.length < 2 ^ 32 := by
    intro m hm
    rw [(List.mem_replicate.1 hm).2]
    decide
  have hyes : ∀ m ∈ List.replicate t.confirmed yesDecision, m.payload.length < 2 ^ 32 := by
    intro m hm
    rw [(List.mem_replicate.1 hm).2]
    exact yesDecision_fits
  obtain ⟨request, confirmed⟩ := t
  have hrequest : ∀ m ∈ [request.message], m.payload.length < 2 ^ 32 := by
    intro m hm
    rw [List.mem_singleton.1 hm]
    exact h
  have hconfirmed : ∀ m ∈ request.message :: List.replicate confirmed buttonAck,
      m.payload.length < 2 ^ 32 := by
    intro m hm
    rcases List.mem_cons.1 hm with rfl | hm
    · exact h
    · exact hacks m hm
  have hdecided : ∀ debugLink : Bool,
      ∀ m ∈ (if debugLink then List.replicate confirmed yesDecision else []),
        m.payload.length < 2 ^ 32 := by
    intro debugLink
    cases debugLink with
    | false => simp
    | true => exact hyes
  cases request with
  | sendInitialize | ping | getFeatures => exact ⟨hrequest, by simp [Told.debug]⟩
  | getPublicKey path debugLink => exact ⟨hconfirmed, hdecided debugLink⟩
  | loadDevice mnemonic label debugLink => exact ⟨hconfirmed, hdecided debugLink⟩
  | getLayout | pressButton button | swipe direction | inputText text =>
    exact ⟨by simp [Told.wire], hrequest⟩

/-- In every session the device is told each request once and in its turn, a confirmed one with at
most ten acknowledgements and, with a debug link, as many decisions; and it can understand nothing
else. -/
theorem device_told (b : Build) (fuel : Nat) (calls : List (DeviceRequest × List Delivery))
    (s : Sockets) (hsends : ∀ n, s.refuses n = false)
    (hfits : ∀ call ∈ calls, call.1.message.payload.length < 2 ^ 32) :
    ∃ told : List Told, told.map Told.request = calls.map Prod.fst ∧
      (∀ t ∈ told, t.confirmed ≤ 10) ∧
      ∃ wirePackets debugPackets, Sends s (session b fuel calls s) wirePackets debugPackets ∧
        (∀ msgs, Frames wirePackets msgs ↔ msgs = told.flatMap Told.wire) ∧
        (∀ msgs, Frames debugPackets msgs ↔ msgs = told.flatMap Told.debug) ∧
        ∀ t ∈ told, ∀ fields, Says t.request.message.payload fields ↔ fields = t.request.fields := by
  obtain ⟨told, hrequests, hle, hsent⟩ := session_sends b fuel calls hsends
  have hrequest : ∀ t ∈ told, t.request.message.payload.length < 2 ^ 32 := by
    intro t ht
    have hmem : t.request ∈ calls.map Prod.fst := hrequests ▸ List.mem_map_of_mem ht
    obtain ⟨call, hcall, heq⟩ := List.mem_map.1 hmem
    rw [← heq]
    exact hfits call hcall
  have hwire : Frames (framed (told.flatMap Told.wire)) (told.flatMap Told.wire) := by
    refine ⟨?_, rfl⟩
    intro m hm
    obtain ⟨t, ht, hmt⟩ := List.mem_flatMap.1 hm
    exact (Told.fits (hrequest t ht)).1 m hmt
  have hdebug : Frames (framed (told.flatMap Told.debug)) (told.flatMap Told.debug) := by
    refine ⟨?_, rfl⟩
    intro m hm
    obtain ⟨t, ht, hmt⟩ := List.mem_flatMap.1 hm
    exact (Told.fits (hrequest t ht)).2 m hmt
  refine ⟨told, hrequests, hle, _, _, hsent, ?_, ?_, ?_⟩
  · intro msgs
    exact ⟨fun h => h.unique hwire, fun h => h ▸ hwire⟩
  · intro msgs
    exact ⟨fun h => h.unique hdebug, fun h => h ▸ hdebug⟩
  · intro t ht fields
    have hsays := DeviceRequest.says_message (hrequest t ht)
    exact ⟨fun h => h.unique hsays, fun h => h ▸ hsays⟩

/-- A ping, and the request of a key, which is confirmed once before the device answers. -/
def pingAndKey : List (DeviceRequest × List Delivery) :=
  [(.ping, wire ⟨2, []⟩), (.getPublicKey [0x80000054] true, wire ⟨26, []⟩ ++ wire ⟨12, []⟩)]

theorem device_told_pingAndKey : ∃ told : List Told,
    told.map Told.request = [.ping, .getPublicKey [0x80000054] true] ∧
      (∀ t ∈ told, t.confirmed ≤ 10) ∧
      ∃ wirePackets debugPackets,
        Sends ⟨[], [], fun _ => false⟩
          (session .checked 0 pingAndKey ⟨[], [], fun _ => false⟩) wirePackets debugPackets ∧
        (∀ msgs, Frames wirePackets msgs ↔ msgs = told.flatMap Told.wire) ∧
        (∀ msgs, Frames debugPackets msgs ↔ msgs = told.flatMap Told.debug) ∧
        ∀ t ∈ told, ∀ fields,
          Says t.request.message.payload fields ↔ fields = t.request.fields := by
  refine device_told .checked 0 pingAndKey ⟨[], [], fun _ => false⟩ (fun _ => rfl) ?_
  intro call hcall
  rcases List.mem_cons.1 hcall with rfl | hcall
  · decide
  · have hpath := encodeFieldVarint_length_le 1 (0x80000054 : UInt32).toUInt64
    have hcoin := encodeFieldString_length_le 4 "Bitcoin"
    have hbytes : (asBytes "Bitcoin").length = 7 := rfl
    rw [List.mem_singleton.1 hcall]
    simp only [DeviceRequest.message, List.flatMap_cons, List.flatMap_nil, List.append_nil,
      List.length_append]
    omega

end Hwwctl.Protocol
