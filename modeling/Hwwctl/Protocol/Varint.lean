import Hwwctl.Library.Machine

/-!
# LEB-128 varints

`encode_varint` and `decode_varint` of `crates/protocol/src/trezor_debug.rs`.
-/

namespace Hwwctl.Protocol

/-- `encode_varint`. -/
def encodeVarint (value : UInt64) : List UInt8 :=
  let byte := (value &&& 0x7F).toUInt8
  let rest := value >>> 7
  if rest ≠ 0 then (byte ||| 0x80) :: encodeVarint rest else [byte]
termination_by value.toNat
decreasing_by
  rename_i hne
  have hpos : (value >>> 7).toNat ≠ 0 := fun h => hne (UInt64.toNat_inj.mp h)
  simp only [UInt64.toNat_shiftRight, UInt64.reduceToNat, Nat.reduceMod,
    Nat.shiftRight_eq_div_pow] at hpos ⊢
  omega

/-- The loop of `decode_varint` over the bytes from index `i` on; `len` is the length of the whole
slice, which is what an unterminated or overlong varint is reported to consume. -/
def decodeVarintLoop (len : Nat) : List UInt8 → Nat → UInt64 → UInt32 → UInt64 × Nat
  | [], _, value, _ => (value, len)
  | byte :: data, i, value, shift =>
    let value := value ||| ((byte &&& 0x7F).toUInt64 <<< shift.toUInt64)
    if byte &&& 0x80 = 0 then (value, i + 1)
    else
      let shift := shift + 7
      if shift ≥ 64 then (value, len)
      else decodeVarintLoop len data (i + 1) value shift

/-- `decode_varint`: the value and the number of bytes consumed. -/
def decodeVarint (data : List UInt8) : UInt64 × Nat := decodeVarintLoop data.length data 0 0 0

/-- The same with `shl` for `<<`, which comes to nothing where the program stops at an overflow. -/
def decodeVarintLoopWith (shl : UInt64 → UInt32 → Option UInt64) (len : Nat) :
    List UInt8 → Nat → UInt64 → UInt32 → Option (UInt64 × Nat)
  | [], _, value, _ => some (value, len)
  | byte :: data, i, value, shift => do
    let group ← shl (byte &&& 0x7F).toUInt64 shift
    let value := value ||| group
    if byte &&& 0x80 = 0 then some (value, i + 1)
    else
      let shift := shift + 7
      if shift ≥ 64 then some (value, len)
      else decodeVarintLoopWith shl len data (i + 1) value shift

def decodeVarintWith (shl : UInt64 → UInt32 → Option UInt64) (data : List UInt8) :
    Option (UInt64 × Nat) :=
  decodeVarintLoopWith shl data.length data 0 0 0

theorem decodeVarintLoop_consumed (len : Nat) (data : List UInt8) (i : Nat) (value : UInt64)
    (shift : UInt32) (h : i + data.length = len) :
    (decodeVarintLoop len data i value shift).2 ≤ len ∧
      (data ≠ [] → i < (decodeVarintLoop len data i value shift).2) := by
  induction data generalizing i value shift with
  | nil => simp [decodeVarintLoop]
  | cons byte data ih =>
    have hlen : i + 1 + data.length = len := by simpa [Nat.add_comm, Nat.add_left_comm] using h
    unfold decodeVarintLoop
    simp only
    split
    · exact ⟨by omega, fun _ => by omega⟩
    · split
      · exact ⟨by omega, fun _ => by omega⟩
      · obtain ⟨h1, h2⟩ := ih (i + 1) (value ||| ((byte &&& 0x7F).toUInt64 <<< shift.toUInt64))
          (shift + 7) hlen
        refine ⟨h1, fun _ => ?_⟩
        by_cases hd : data = []
        · subst hd
          simp only [decodeVarintLoop]
          omega
        · have := h2 hd
          omega

/-- No more bytes are consumed than there are. -/
theorem decodeVarint_le (data : List UInt8) : (decodeVarint data).2 ≤ data.length :=
  (decodeVarintLoop_consumed data.length data 0 0 0 (by omega)).1

/-- A varint is at least one byte long, except at the end of the data. -/
theorem decodeVarint_pos {data : List UInt8} (h : data ≠ []) : 0 < (decodeVarint data).2 :=
  (decodeVarintLoop_consumed data.length data 0 0 0 (by omega)).2 h

end Hwwctl.Protocol
