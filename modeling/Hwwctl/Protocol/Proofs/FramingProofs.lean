import Hwwctl.Protocol.Framing
import Mathlib.Data.Nat.Init
import Mathlib.Order.Basic
import Mathlib.Tactic.SplitIfs

/-!
# Proofs: reassembly undoes framing

`recv_message` reads back exactly the packets `frame_message` made of a message, whatever follows
them on the socket.
-/

namespace Hwwctl.Protocol

open Machine

/-! ## The layout of a packet -/

/-- The nine header bytes of a first packet. -/
def header (msgType : UInt16) (len : UInt32) : List UInt8 :=
  [0x3F, 0x23, 0x23] ++ be16 msgType ++ be32 len

/-- The bytes of a first packet: header, payload, padding. -/
theorem firstPacket_bytes (msgType : UInt16) (payload : List UInt8) :
    (firstPacket msgType payload).bytes =
      header msgType (UInt32.ofNat payload.length) ++
        (payload.take 55 ++ List.replicate (55 - payload.length) 0) := by
  have h0 : (Buf.zero 64).bytes = [] ++ List.replicate 64 0 := rfl
  have h1 := Buf.copyAt_padded h0 rfl [0x3F, 0x23, 0x23] (by decide)
  have h2 := Buf.copyAt_padded h1 rfl (be16 msgType) (by simp)
  have h3 := Buf.copyAt_padded h2 rfl (be32 (UInt32.ofNat payload.length)) (by simp)
  have h4 := Buf.copyAt_padded h3 rfl (payload.take (min payload.length 55))
    (by simp; omega)
  refine h4.trans ?_
  have ht : payload.take (min payload.length 55) = payload.take 55 := by
    rw [Nat.min_comm, ← List.take_eq_take_min]
  rw [ht]
  simp [header]
  omega

/-- The bytes of a continuation packet: marker, payload, padding. -/
theorem contPacket_bytes (payload : List UInt8) (offset : Nat) :
    (contPacket payload offset).bytes =
      [0x3F] ++ ((payload.drop offset).take 63 ++
        List.replicate (63 - (payload.length - offset)) 0) := by
  have h0 : (Buf.zero 64).bytes = [] ++ List.replicate 64 0 := rfl
  have h1 := Buf.copyAt_padded h0 rfl [0x3F] (by decide)
  have h2 := Buf.copyAt_padded h1 rfl
    ((payload.drop offset).take (min (payload.length - offset) 63)) (by simp; omega)
  refine h2.trans ?_
  have ht : (payload.drop offset).take (min (payload.length - offset) 63) =
      (payload.drop offset).take 63 := by
    rw [← List.length_drop, Nat.min_comm, ← List.take_eq_take_min]
  rw [ht]
  simp
  omega

/-! ## Receiving a packet -/

/-- Receiving a packet fills the buffer. -/
theorem recvInto_packet (buf p : Packet) : recvInto buf p.bytes = (64, p) := by
  have hp : p.bytes.take 64 = p.bytes := List.take_of_length_le (Nat.le_of_eq p.length_eq)
  have hb : ((recvInto buf p.bytes).2).bytes = p.bytes := by
    have hfits : 0 + (p.bytes.take 64).length ≤ 64 := by
      have := p.length_eq
      rw [hp]
      omega
    have := Buf.copyAt_full buf (p.bytes.take 64) (by rw [hp, p.length_eq]) hfits
    exact this.trans hp
  have hn : (recvInto buf p.bytes).1 = 64 := by simp [recvInto, p.length_eq]
  exact Prod.ext hn (Buf.ext hb)

/-- The payload part of a first packet. -/
theorem slice_firstPacket (msgType : UInt16) (payload : List UInt8) :
    slice (firstPacket msgType payload).bytes 9 (min 64 64) =
      .ok (payload.take 55 ++ List.replicate (55 - payload.length) 0) := by
  have hlen := (firstPacket msgType payload).length_eq
  rw [slice_of_le (by decide) (by rw [hlen]; decide),
    List.take_of_length_le (by rw [hlen]; decide), firstPacket_bytes]
  rfl

/-- The payload part of a continuation packet. -/
theorem slice_contPacket (payload : List UInt8) (offset : Nat) :
    slice (contPacket payload offset).bytes 1 (min 64 64) =
      .ok ((payload.drop offset).take 63 ++
        List.replicate (63 - (payload.length - offset)) 0) := by
  have hlen := (contPacket payload offset).length_eq
  rw [slice_of_le (by decide) (by rw [hlen]; decide),
    List.take_of_length_le (by rw [hlen]; decide), contPacket_bytes]
  rfl

theorem contPacket_get_zero (payload : List UInt8) (offset : Nat) :
    (contPacket payload offset).get 0 = 0x3F :=
  Buf.get_of_prefix (contPacket_bytes payload offset) 0 (by decide)

/-- The continuation loop takes one packet while the payload is incomplete. -/
theorem recvContinuations_cons {payloadLen : Nat} {acc : List UInt8}
    (h : acc.length < payloadLen) (payload : List UInt8) (offset : Nat) (socket : List Delivery)
    (buf : Packet) :
    recvContinuations payloadLen
        (.datagram (contPacket payload offset).bytes :: socket) buf acc =
      recvContinuations payloadLen socket (contPacket payload offset)
        (acc ++ ((payload.drop offset).take 63 ++
          List.replicate (63 - (payload.length - offset)) 0)) := by
  rw [recvContinuations, if_pos h]
  simp only [recvInto_packet, contPacket_get_zero, slice_contPacket]
  rfl

/-- The continuation loop takes nothing once the payload is complete. -/
theorem recvContinuations_done {payloadLen : Nat} {acc : List UInt8}
    (h : payloadLen ≤ acc.length) (socket : List Delivery) (buf : Packet) :
    recvContinuations payloadLen socket buf acc = (.ok acc, socket) := by
  have hn : ¬ acc.length < payloadLen := by omega
  cases socket with
  | nil => rw [recvContinuations, if_neg hn]
  | cons d socket => cases d <;> rw [recvContinuations, if_neg hn]

/-! ## Reassembly -/

/-- From `offset` on, the continuation loop collects what the chunking loop sent. While bytes are
missing the collected ones are exactly the first `offset`; afterwards padding may follow them. -/
theorem recvContinuations_contPackets (payload : List UInt8) (socket : List Delivery) :
    ∀ (offset : Nat) (acc : List UInt8) (buf : Packet), offset ≤ payload.length →
      acc.take offset = payload.take offset → offset ≤ acc.length →
      (offset < payload.length → acc.length = offset) →
      ∃ data, recvContinuations payload.length
          ((contPackets payload offset).map (fun p => .datagram p.bytes) ++ socket) buf acc =
            (.ok data, socket) ∧ data.take payload.length = payload := by
  intro offset
  induction h : payload.length - offset using Nat.strong_induction_on generalizing offset with
  | _ k ih =>
    intro acc buf hle hacc hlen hexact
    rw [contPackets]
    split_ifs with hlt
    · have hal := hexact hlt
      have hpre : acc = payload.take offset := by
        rw [← hacc, List.take_of_length_le (by omega)]
      set step := min (payload.length - offset) 63 with hstep
      set pad := List.replicate (63 - (payload.length - offset)) (0 : UInt8) with hpad
      have htake : acc ++ (payload.drop offset).take 63 = payload.take (offset + step) := by
        rw [hpre, List.take_add, hstep, ← List.length_drop, Nat.min_comm,
          ← List.take_eq_take_min]
      have hcons := recvContinuations_cons (by omega : acc.length < payload.length)
        payload offset ((contPackets payload (offset + step)).map (fun p => .datagram p.bytes) ++
          socket) buf
      rw [← hpad, ← List.append_assoc, htake] at hcons
      have hlen' : (payload.take (offset + step)).length = offset + step := by simp; omega
      obtain ⟨data, hdata, hd⟩ := ih (payload.length - (offset + step)) (by omega)
        (offset + step) rfl (payload.take (offset + step) ++ pad) (contPacket payload offset)
        (by omega)
        (by rw [List.take_append_of_le_length (by omega), List.take_take, Nat.min_self])
        (by simp; omega)
        (by
          intro hmore
          have hz : pad = [] := by rw [hpad]; simp; omega
          simp [hz, hlen'])
      exact ⟨data, by rw [List.map_cons, List.cons_append, hcons, hdata], hd⟩
    · have hoff : offset = payload.length := by omega
      subst hoff
      exact ⟨acc, recvContinuations_done hlen _ _, by rw [hacc, List.take_length]⟩

/-- `recv_message` reads back one framed message and leaves what follows it on the socket. -/
theorem recvMessage_wire (m : RawMessage) (hlen : m.payload.length < 2 ^ 32)
    (socket : List Delivery) : recvMessage (wire m ++ socket) = (.ok m, socket) := by
  obtain ⟨msgType, payload⟩ := m
  have hb := firstPacket_bytes msgType payload
  have hpl : (UInt32.ofNat payload.length).toNat = payload.length := by
    rw [UInt32.toNat_ofNat']
    exact Nat.mod_eq_of_lt hlen
  set first := firstPacket msgType payload with hfirst
  set len := UInt32.ofNat payload.length with hlenDef
  have hget : ∀ i : Fin 64, (hi : i.val < 9) → first.get i = (header msgType len)[i.val] :=
    fun i hi => Buf.get_of_prefix hb i hi
  have h0 : first.get 0 = 0x3F := hget 0 (by decide)
  have h1 : first.get 1 = 0x23 := hget 1 (by decide)
  have h2 : first.get 2 = 0x23 := hget 2 (by decide)
  have htype : ofBe16 (first.get 3) (first.get 4) = msgType := by
    rw [hget 3 (by decide), hget 4 (by decide)]
    exact ofBe16_be16 msgType
  have hlenField : ofBe32 (first.get 5) (first.get 6) (first.get 7) (first.get 8) = len := by
    rw [hget 5 (by decide), hget 6 (by decide), hget 7 (by decide), hget 8 (by decide)]
    exact ofBe32_be32 len
  obtain ⟨data, hdata, hd⟩ := recvContinuations_contPackets payload socket
    (min payload.length 55) (payload.take 55 ++ List.replicate (55 - payload.length) 0)
    first (by omega)
    (by rw [List.take_append_of_le_length (by rw [List.length_take]; omega), List.take_take,
      Nat.min_eq_left (by omega)])
    (by simp; omega)
    (by intro h; simp; omega)
  simp only [wire, frameMessage, List.map_cons, List.cons_append, recvMessage, recvInto_packet,
    ← hfirst]
  rw [if_neg (by rw [h0, h1, h2]; decide), hfirst, slice_firstPacket, ← hfirst]
  simp only [hlenField, hpl, hdata, htype, hd]

/-! ## Whole conversations -/

/-- Each continuation packet carries up to 63 bytes. -/
theorem contPackets_length (payload : List UInt8) (offset : Nat) :
    (contPackets payload offset).length = (payload.length - offset + 62) / 63 := by
  induction h : payload.length - offset using Nat.strong_induction_on generalizing offset with
  | _ k ih =>
    rw [contPackets]
    split_ifs with hlt
    · rw [List.length_cons, ih _ (by omega) _ rfl]
      omega
    · rw [List.length_nil]
      omega

theorem wire_length (m : RawMessage) : (wire m).length = packetCount m.payload.length := by
  simp only [wire, frameMessage, List.length_map, List.length_cons, contPackets_length,
    packetCount]
  omega

/-- Framed messages concatenated on the socket come back unchanged and in order; each call takes
the packets of its own message and none of the next one's. -/
theorem recvConversation_wire (msgs : List RawMessage)
    (hlen : ∀ m ∈ msgs, m.payload.length < 2 ^ 32) (socket : List Delivery) :
    recvConversation msgs.length (msgs.flatMap wire ++ socket) =
      (msgs.map fun m => (.ok m, packetCount m.payload.length), socket) := by
  induction msgs with
  | nil => rfl
  | cons m msgs ih =>
    have hm := recvMessage_wire m (hlen m (by simp)) (msgs.flatMap wire ++ socket)
    have hrest := ih fun m' hm' => hlen m' (by simp [hm'])
    simp only [List.flatMap_cons, List.append_assoc, List.length_cons, recvConversation, hm, hrest,
      List.map_cons, List.length_append, wire_length]
    congr 3
    omega

theorem recvConversation_two_messages :
    recvConversation 2 ([⟨13, List.replicate 56 0xAA⟩, ⟨27, []⟩].flatMap wire ++ [.failed]) =
      ([(.ok ⟨13, List.replicate 56 0xAA⟩, 2), (.ok ⟨27, []⟩, 1)], [.failed]) :=
  recvConversation_wire [⟨13, List.replicate 56 0xAA⟩, ⟨27, []⟩] (by decide) [.failed]

end Hwwctl.Protocol
