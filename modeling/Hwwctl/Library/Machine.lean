import Mathlib.Algebra.Group.Nat.Defs
import Mathlib.Data.List.Basic
import Mathlib.Tactic.Common

/-!
# Machine words, byte buffers and slices

A 64-bit target as its compiled code sees it: `usize` additions under the two overflow
policies, range slicing that may be refused, fixed-size byte buffers and big-endian integers.
-/

namespace Machine

/-- One more than the largest `usize`. -/
def usizeSize : Nat := 2 ^ 64

/-- The largest length of a slice. -/
def isizeMax : Nat := 2 ^ 63 - 1

/-- What an addition that does not fit does: abort, or wrap around. -/
inductive Build where
  | checked
  | wrapping
deriving DecidableEq, Repr

/-- The reason for which a computation is aborted. -/
inductive Panic where
  | addOverflow
  | sliceRange
deriving DecidableEq, Repr

/-- `x + y` on `usize`. -/
def usizeAdd (b : Build) (x y : Nat) : Except Panic Nat :=
  if x + y < usizeSize then .ok (x + y)
  else match b with
    | .checked => .error .addOverflow
    | .wrapping => .ok ((x + y) % usizeSize)

theorem usizeAdd_of_lt (b : Build) {x y : Nat} (h : x + y < usizeSize) :
    usizeAdd b x y = .ok (x + y) := if_pos h

theorem usizeAdd_wrapping (x y : Nat) : usizeAdd .wrapping x y = .ok ((x + y) % usizeSize) := by
  unfold usizeAdd
  split_ifs with h
  · rw [Nat.mod_eq_of_lt h]
  · rfl

theorem usizeAdd_checked_of_le {x y : Nat} (h : usizeSize ≤ x + y) :
    usizeAdd .checked x y = .error .addOverflow := if_neg (by omega)

/-- `x + (y + z)` on `usize`. -/
def usizeAddSum (b : Build) (x y z : Nat) : Except Panic Nat := (usizeAdd b y z).bind (usizeAdd b x)

theorem usizeAddSum_of_lt (b : Build) {x y z : Nat} (h : x + y + z < usizeSize) :
    usizeAddSum b x y z = .ok (x + y + z) := by
  rw [usizeAddSum, usizeAdd_of_lt b (by omega)]
  show usizeAdd b x (y + z) = _
  rw [usizeAdd_of_lt b (by omega), Nat.add_assoc]

theorem usizeAddSum_wrapping (x y z : Nat) :
    usizeAddSum .wrapping x y z = .ok ((x + y + z) % usizeSize) := by
  rw [usizeAddSum, usizeAdd_wrapping]
  show usizeAdd .wrapping x ((y + z) % usizeSize) = _
  rw [usizeAdd_wrapping, Nat.add_mod_mod, Nat.add_assoc]

theorem usizeAddSum_checked_of_le {x y z : Nat} (h : usizeSize ≤ x + y + z) :
    usizeAddSum .checked x y z = .error .addOverflow := by
  unfold usizeAddSum
  by_cases hyz : y + z < usizeSize
  · rw [usizeAdd_of_lt _ hyz]
    exact usizeAdd_checked_of_le (by omega)
  · rw [usizeAdd_checked_of_le (by omega)]
    rfl

/-! ## Slices -/

/-- A slice: no slice is longer than `isizeMax`. -/
structure Slice (α : Type) where
  /-- The elements. -/
  val : List α
  /-- The bound every slice obeys. -/
  length_le : val.length ≤ isizeMax

variable {α : Type}

/-- `&l[i..j]`. -/
def slice (l : List α) (i j : Nat) : Except Panic (List α) :=
  if i ≤ j ∧ j ≤ l.length then .ok ((l.take j).drop i) else .error .sliceRange

/-- `&l[i..]`. -/
def sliceFrom (l : List α) (i : Nat) : Except Panic (List α) := slice l i l.length

theorem slice_of_le {l : List α} {i j : Nat} (hij : i ≤ j) (hj : j ≤ l.length) :
    slice l i j = .ok ((l.take j).drop i) := if_pos ⟨hij, hj⟩

theorem slice_of_gt {l : List α} {i j : Nat} (h : j < i) : slice l i j = .error .sliceRange :=
  if_neg (by omega)

theorem sliceFrom_of_le {l : List α} {i : Nat} (h : i ≤ l.length) :
    sliceFrom l i = .ok (l.drop i) := by
  rw [sliceFrom, slice_of_le h (Nat.le_refl _), List.take_length]

/-! ## Fixed-size buffers -/

/-- A `[u8; n]`. -/
@[ext] structure Buf (n : Nat) where
  /-- The content. -/
  bytes : List UInt8
  /-- The size never changes. -/
  length_eq : bytes.length = n
deriving DecidableEq, Repr

namespace Buf

variable {n : Nat}

/-- `[0u8; n]`. -/
def zero (n : Nat) : Buf n := ⟨List.replicate n 0, List.length_replicate⟩

/-- `b[i]`. -/
def get (b : Buf n) (i : Fin n) : UInt8 := b.bytes.get (i.cast b.length_eq.symm)

/-- `b[off..off + src.len()].copy_from_slice(src)`. -/
def copyAt (b : Buf n) (off : Nat) (src : List UInt8) (h : off + src.length ≤ n) : Buf n where
  bytes := b.bytes.take off ++ src ++ b.bytes.drop (off + src.length)
  length_eq := by
    have := b.length_eq
    simp
    omega

/-- Writing right behind a prefix of a zero-padded buffer extends the prefix. -/
theorem copyAt_padded {b : Buf n} {front : List UInt8} {k off : Nat}
    (hb : b.bytes = front ++ List.replicate k 0) (hoff : front.length = off) (src : List UInt8)
    (h : off + src.length ≤ n) :
    (b.copyAt off src h).bytes = (front ++ src) ++ List.replicate (k - src.length) 0 := by
  subst hoff
  simp only [copyAt, hb]
  rw [List.take_left', List.drop_append]
  · simp
  · rfl

/-- A full write replaces the content. -/
theorem copyAt_full (b : Buf n) (src : List UInt8) (hlen : src.length = n)
    (h : 0 + src.length ≤ n) : (b.copyAt 0 src h).bytes = src := by
  have := b.length_eq
  simp [copyAt, hlen, this]

/-- A cell inside a known prefix of the content. -/
theorem get_of_prefix {b : Buf n} {front back : List UInt8} (hb : b.bytes = front ++ back)
    (i : Fin n) (hi : i.val < front.length) : b.get i = front[i.val] := by
  have hlt : i.val < (front ++ back).length := by simp; omega
  have hget : b.get i = (front ++ back)[i.val] := by simp [get, hb]
  rw [hget, List.getElem_append_left hi]

end Buf

/-! ## Big-endian integers -/

/-- `v.to_be_bytes()` of a `u16`. -/
def be16 (v : UInt16) : List UInt8 := [(v >>> 8).toUInt8, v.toUInt8]

/-- `u16::from_be_bytes([a, b])`. -/
def ofBe16 (a b : UInt8) : UInt16 := UInt16.ofNat (a.toNat * 256 + b.toNat)

/-- `v.to_be_bytes()` of a `u32`. -/
def be32 (v : UInt32) : List UInt8 :=
  [(v >>> 24).toUInt8, (v >>> 16).toUInt8, (v >>> 8).toUInt8, v.toUInt8]

/-- `u32::from_be_bytes([a, b, c, d])`. -/
def ofBe32 (a b c d : UInt8) : UInt32 :=
  UInt32.ofNat (((a.toNat * 256 + b.toNat) * 256 + c.toNat) * 256 + d.toNat)

@[simp] theorem be16_length (v : UInt16) : (be16 v).length = 2 := rfl

@[simp] theorem be32_length (v : UInt32) : (be32 v).length = 4 := rfl

theorem ofBe16_be16 (v : UInt16) : ofBe16 (v >>> 8).toUInt8 v.toUInt8 = v := by
  apply UInt16.toNat_inj.mp
  have hv := v.toNat_lt
  simp only [ofBe16, UInt16.toNat_ofNat', UInt16.toNat_toUInt8, UInt16.toNat_shiftRight,
    UInt16.reduceToNat, Nat.reduceMod, Nat.shiftRight_eq_div_pow]
  omega

theorem ofBe32_be32 (v : UInt32) :
    ofBe32 (v >>> 24).toUInt8 (v >>> 16).toUInt8 (v >>> 8).toUInt8 v.toUInt8 = v := by
  apply UInt32.toNat_inj.mp
  have hv := v.toNat_lt
  simp only [ofBe32, UInt32.toNat_ofNat', UInt32.toNat_toUInt8, UInt32.toNat_shiftRight,
    UInt32.reduceToNat, Nat.reduceMod, Nat.shiftRight_eq_div_pow]
  omega

/-- Four bytes are the big-endian form of the number they stand for. -/
theorem be32_ofBe32 (a b c d : UInt8) : be32 (ofBe32 a b c d) = [a, b, c, d] := by
  have ha := a.toNat_lt
  have hb := b.toNat_lt
  have hc := c.toNat_lt
  have hd := d.toNat_lt
  have hn : (ofBe32 a b c d).toNat =
      ((a.toNat * 256 + b.toNat) * 256 + c.toNat) * 256 + d.toNat := by
    rw [ofBe32, UInt32.toNat_ofNat', Nat.mod_eq_of_lt]
    omega
  have hbyte : ∀ (v w : UInt8), v.toNat = w.toNat → v = w := fun v w => UInt8.toNat_inj.mp
  simp only [be32, List.cons.injEq, and_true]
  refine ⟨hbyte _ _ ?_, hbyte _ _ ?_, hbyte _ _ ?_, hbyte _ _ ?_⟩ <;>
    simp only [UInt32.toNat_toUInt8, UInt32.toNat_shiftRight, UInt32.reduceToNat, Nat.reduceMod,
      Nat.shiftRight_eq_div_pow, hn] <;> omega

end Machine
