import Hwwctl.Protocol.Proofs.VarintProofs
import Mathlib.Algebra.Order.Floor.Div
import Mathlib.Data.Nat.Size
import Mathlib.GroupTheory.GroupAction.Ring

/-!
# Proofs: the varint codec

`decode_varint` undoes `encode_varint` and stops at the right byte whatever follows. It never shifts
by the width of the value or more, so that nothing depends on what such a shift would do.
-/

namespace Hwwctl.Protocol

open Protobuf

/-! ## Round trip -/

theorem decodeVarint_encodeVarint (value : UInt64) (rest : List UInt8) :
    decodeVarint (encodeVarint value ++ rest) = (value, (encodeVarint value).length) := by
  obtain ⟨v, hbytes, hvalue⟩ := exists_encodeVarint value
  have hread := decodeVarint_varint v rest
  rw [hbytes, hvalue, UInt64.ofNat_toNat] at hread
  exact hread

/-! ## Length -/

theorem encodeVarint_length_pos (value : UInt64) : 0 < (encodeVarint value).length := by
  obtain ⟨v, hbytes, -⟩ := exists_encodeVarint value
  rw [← hbytes]
  exact List.length_pos_iff.mpr v.bytes_ne_nil

/-- There are as many groups as the value needs. -/
theorem encodeVarint_length_le_iff (value : UInt64) (k : Nat) :
    (encodeVarint value).length ≤ k + 1 ↔ value.toNat < 2 ^ (7 * (k + 1)) := by
  constructor
  · intro hlen
    obtain ⟨v, hbytes, hvalue⟩ := exists_encodeVarint value
    have hlt : v.value < 2 ^ (7 * v.bytes.length) := groups_lt v.bytes
    rw [hbytes, hvalue] at hlt
    exact Nat.lt_of_lt_of_le hlt (Nat.pow_le_pow_right (by decide) (by omega))
  · intro hlt
    obtain ⟨more, last, hbytes, -, -, hlen, -⟩ := encodeVarint_groups value hlt
    rw [hbytes, List.length_append, List.length_singleton]
    omega

/-- One byte for every seven bits that are begun, and at least one. -/
theorem encodeVarint_length (value : UInt64) :
    (encodeVarint value).length = max 1 (value.toNat.size ⌈/⌉ 7) := by
  have hpos := encodeVarint_length_pos value
  have hsame : ∀ k, (encodeVarint value).length ≤ k + 1 ↔
      max 1 (value.toNat.size ⌈/⌉ 7) ≤ k + 1 := by
    intro k
    rw [encodeVarint_length_le_iff, ← Nat.size_le, ← ceilDiv_le_iff_le_mul (by decide)]
    omega
  have hle := (hsame ((encodeVarint value).length - 1)).mp (by omega)
  have hge := (hsame (max 1 (value.toNat.size ⌈/⌉ 7) - 1)).mpr (by omega)
  omega

/-! ## Shifts -/

/-- The loop shifts by seven bits more for every byte, and has stopped before it is 64. -/
theorem decodeVarintLoopWith_eq {shl : UInt64 → UInt32 → Option UInt64}
    (hshl : ∀ group shift, shift < 64 → shl group shift = some (group <<< shift.toUInt64))
    (len : Nat) (data : List UInt8) (i : Nat) (value : UInt64) {shift : UInt32}
    (hshift : shift < 64) :
    decodeVarintLoopWith shl len data i value shift =
      some (decodeVarintLoop len data i value shift) := by
  induction data generalizing i value shift with
  | nil => rfl
  | cons byte data ih =>
    rw [decodeVarintLoopWith, decodeVarintLoop, hshl _ _ hshift]
    dsimp only [Option.bind_eq_bind, Option.bind_some]
    by_cases hlast : byte &&& 0x80 = 0
    · rw [if_pos hlast, if_pos hlast]
    · rw [if_neg hlast, if_neg hlast]
      by_cases hover : shift + 7 ≥ 64
      · rw [if_pos hover, if_pos hover]
      · rw [if_neg hover, if_neg hover]
        exact ih _ _ (UInt32.not_le.mp hover)

/-- Varints are read back wherever they stand, are as short as they can be, and nothing that is read
as one makes the decoder shift too far or leave the data. -/
theorem varint_codec :
    (∀ value rest,
      decodeVarint (encodeVarint value ++ rest) = (value, (encodeVarint value).length)) ∧
    (∀ value, (encodeVarint value).length = max 1 (value.toNat.size ⌈/⌉ 7) ∧
      (encodeVarint value).length ≤ 10) ∧
    ∀ data : List UInt8,
      (∀ shl : UInt64 → UInt32 → Option UInt64,
        (∀ group shift, shift < 64 → shl group shift = some (group <<< shift.toUInt64)) →
          decodeVarintWith shl data = some (decodeVarint data)) ∧
      (decodeVarint data).2 ≤ data.length ∧ ((decodeVarint data).2 = 0 ↔ data = []) := by
  refine ⟨decodeVarint_encodeVarint, ?_, ?_⟩
  · intro value
    have hlt := value.toNat_lt
    exact ⟨encodeVarint_length value, (encodeVarint_length_le_iff value 9).mpr (by omega)⟩
  · intro data
    refine ⟨?_, decodeVarint_le data, ?_⟩
    · intro shl hshl
      exact decodeVarintLoopWith_eq hshl data.length data 0 0 (by decide)
    · constructor
      · intro hzero
        by_contra hne
        have hpos := decodeVarint_pos hne
        omega
      · rintro rfl
        rfl

end Hwwctl.Protocol
