import Hwwctl.Protocol.Decode
import Hwwctl.Protocol.Proofs.FramingProofs
import Std.Data.String.ToNat

/-!
# Which packets pass for a first packet?

`frame_message` puts payload bytes where the two classifiers look for the magic, so what they say of
a continuation packet depends on the byte of the payload that it starts with.
-/

namespace Hwwctl.Protocol

open Machine

/-! ## Reading a packet -/

theorem decodePacket_continuation_iff {b0 b1 : UInt8} {rest : List UInt8} (h : 7 ≤ rest.length) :
    decodePacket (b0 :: b1 :: rest) = .error .continuationPacket ↔ b0 = 0x3F ∧ b1 ≠ 0x23 := by
  obtain ⟨b2, b3, b4, b5, b6, b7, b8, rest, rfl⟩ :
      ∃ b2 b3 b4 b5 b6 b7 b8 rest', rest = b2 :: b3 :: b4 :: b5 :: b6 :: b7 :: b8 :: rest' := by
    match rest, h with
    | b2 :: b3 :: b4 :: b5 :: b6 :: b7 :: b8 :: rest, _ =>
      exact ⟨b2, b3, b4, b5, b6, b7, b8, rest, rfl⟩
  unfold decodePacket
  dsimp only
  split_ifs with hcont hmagic
  · exact iff_of_true rfl hcont
  · exact iff_of_false (by simp) hcont
  · exact iff_of_false (by simp) hcont

theorem isContinuation_of_ne {b1 b2 : UInt8} {rest : List UInt8} (h : b1 ≠ 0x23) :
    isContinuation (0x3F :: b1 :: b2 :: rest) = true := by
  simp [isContinuation, h]

/-- A header is read back. -/
theorem decodePacket_header (msgType : UInt16) (len : UInt32) (rest : List UInt8) :
    ∃ m, decodePacket (header msgType len ++ rest) = .ok m ∧
      m.fields = [("type_id", toString msgType.toNat), ("payload_len", toString len.toNat)] := by
  have hread : decodePacket (header msgType len ++ rest) =
      .ok
        { walletType := "Trezor"
          messageType := messageTypeName msgType.toNat
          fields := [("type_id", toString msgType.toNat), ("payload_len", toString len.toNat)]
          rawHex := " ".intercalate ((header msgType len ++ rest).map hex02) } := by
    simp [header, be16, be32, decodePacket, ofBe16_be16, ofBe32_be32]
  exact ⟨_, hread, rfl⟩

/-! ## The packets of a message -/

/-- The continuation packets start 63 bytes after one another. -/
theorem mem_contPackets {payload : List UInt8} {offset : Nat} {p : Packet} :
    p ∈ contPackets payload offset ↔
      ∃ k, offset + 63 * k < payload.length ∧ p = contPacket payload (offset + 63 * k) := by
  induction h : payload.length - offset using Nat.strong_induction_on generalizing offset with
  | _ n ih =>
    rw [contPackets]
    split_ifs with hlt
    · rw [List.mem_cons, ih _ (by omega) rfl]
      constructor
      · rintro (rfl | ⟨k, hk, rfl⟩)
        · exact ⟨0, hlt, rfl⟩
        · have hstep : min (payload.length - offset) 63 = 63 := by omega
          rw [hstep] at hk ⊢
          refine ⟨k + 1, by omega, ?_⟩
          rw [show offset + 63 * (k + 1) = offset + 63 + 63 * k by omega]
      · rintro ⟨k, hk, rfl⟩
        cases k with
        | zero => exact Or.inl rfl
        | succ k =>
          have hstep : min (payload.length - offset) 63 = 63 := by omega
          rw [hstep]
          refine Or.inr ⟨k, by omega, ?_⟩
          rw [show offset + 63 * (k + 1) = offset + 63 + 63 * k by omega]
    · constructor
      · intro hnil
        cases hnil
      · rintro ⟨k, hk, -⟩
        omega

/-- A continuation packet: the marker, the first byte of its chunk, and 62 more. -/
theorem contPacket_cons {payload : List UInt8} {offset : Nat} (h : offset < payload.length) :
    ∃ rest, rest.length = 62 ∧ (contPacket payload offset).bytes = 0x3F :: payload[offset] :: rest := by
  have hbytes := contPacket_bytes payload offset
  rw [List.drop_eq_getElem_cons h] at hbytes
  refine ⟨_, ?_, hbytes⟩
  have hlen := congrArg List.length hbytes
  rw [(contPacket payload offset).length_eq] at hlen
  simp at hlen ⊢
  omega

/-- A continuation packet is taken for one when its chunk does not start with a `#`. -/
theorem contPacket_classified_iff {payload : List UInt8} {offset : Nat}
    (h : offset < payload.length) :
    (decodePacket (contPacket payload offset).bytes = .error .continuationPacket ∧
        isContinuation (contPacket payload offset).bytes = true) ↔ payload[offset] ≠ 0x23 := by
  obtain ⟨rest, hlen, hbytes⟩ := contPacket_cons h
  rw [hbytes, decodePacket_continuation_iff (by omega)]
  constructor
  · rintro ⟨⟨-, hne⟩, -⟩
    exact hne
  · intro hne
    refine ⟨⟨rfl, hne⟩, ?_⟩
    cases rest with
    | nil => cases hlen
    | cons b2 rest => exact isContinuation_of_ne hne

/-- The classifiers find the first packet of the message, with its header, and no other. -/
structure Classifies (msgType : UInt16) (payload : List UInt8) : Prop where
  first : ∃ p m, (frameMessage msgType payload).head? = some p ∧ decodePacket p.bytes = .ok m ∧
    m.fields = [("type_id", toString msgType.toNat), ("payload_len", toString payload.length)]
  later : ∀ p ∈ (frameMessage msgType payload).tail,
    decodePacket p.bytes = .error .continuationPacket ∧ isContinuation p.bytes = true

/-- The first packet shows the length of the payload when the length fits its field. -/
theorem first_classified_iff (msgType : UInt16) (payload : List UInt8) :
    (∃ p m, (frameMessage msgType payload).head? = some p ∧ decodePacket p.bytes = .ok m ∧
        m.fields = [("type_id", toString msgType.toNat), ("payload_len", toString payload.length)]) ↔
      payload.length < 2 ^ 32 := by
  obtain ⟨m, hm, hfields⟩ := decodePacket_header msgType (UInt32.ofNat payload.length)
    (payload.take 55 ++ List.replicate (55 - payload.length) 0)
  rw [← firstPacket_bytes] at hm
  have hnat : (UInt32.ofNat payload.length).toNat = payload.length % 2 ^ 32 := UInt32.toNat_ofNat'
  constructor
  · rintro ⟨p, m', hhead, hm', hfields'⟩
    obtain rfl := Option.some.inj hhead
    obtain rfl := Except.ok.inj (hm.symm.trans hm')
    have hrepr : (UInt32.ofNat payload.length).toNat.repr = payload.length.repr := by
      rw [hfields] at hfields'
      simpa using hfields'
    rw [Nat.repr_inj, hnat] at hrepr
    have := Nat.mod_lt payload.length (show 0 < 2 ^ 32 by decide)
    omega
  · intro hlen
    refine ⟨_, m, rfl, hm, ?_⟩
    rw [hfields, hnat, Nat.mod_eq_of_lt hlen]

/-- The packets of a message are classified rightly exactly when its length fits the header and no
chunk of a continuation packet starts with a `#`. -/
theorem classifies_iff (msgType : UInt16) (payload : List UInt8) :
    Classifies msgType payload ↔
      payload.length < 2 ^ 32 ∧ ∀ k, payload[55 + 63 * k]? ≠ some 0x23 := by
  have hlater : (∀ p ∈ (frameMessage msgType payload).tail,
      decodePacket p.bytes = .error .continuationPacket ∧ isContinuation p.bytes = true) ↔
        ∀ k, payload[55 + 63 * k]? ≠ some 0x23 := by
    have hstart : ∀ k, min payload.length 55 + 63 * k < payload.length →
        min payload.length 55 = 55 := by omega
    constructor
    · intro hall k hk
      obtain ⟨hlt, hbyte⟩ := List.getElem?_eq_some_iff.1 hk
      have hmem : contPacket payload (55 + 63 * k) ∈ (frameMessage msgType payload).tail := by
        refine mem_contPackets.2 ⟨k, by omega, ?_⟩
        rw [show min payload.length 55 = 55 by omega]
      exact (contPacket_classified_iff hlt).1 (hall _ hmem) hbyte
    · intro hall p hp
      obtain ⟨k, hlt, rfl⟩ := mem_contPackets.1 hp
      refine (contPacket_classified_iff hlt).2 ?_
      have hk := hall k
      rw [← hstart k hlt, List.getElem?_eq_getElem hlt] at hk
      exact fun hbyte => hk (congrArg some hbyte)
  rw [← first_classified_iff msgType payload, ← hlater]
  exact ⟨fun h => ⟨h.first, h.later⟩, fun h => ⟨h.1, h.2⟩⟩

/-- A payload that goes on with `##` in its second packet. -/
def hashPayload : List UInt8 := List.replicate 55 0 ++ [0x23, 0x23]

/-- The second packet of a message is decoded as an `Initialize` message that nobody sent. -/
theorem not_classifies_hashPayload :
    (decodePacket (contPacket hashPayload 55).bytes).toOption.map DecodedMessage.logLine =
        some "Initialize (type_id=0, payload_len=0)" ∧
      ¬ ∀ msgType payload, Classifies msgType payload := by
  refine ⟨by decide +kernel, fun hall => ?_⟩
  exact ((classifies_iff 13 hashPayload).1 (hall 13 hashPayload)).2 0 (by decide)

end Hwwctl.Protocol
