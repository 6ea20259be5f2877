import Mathlib.Algebra.Group.Nat.Defs
import Mathlib.Data.List.Basic
import Mathlib.Tactic.Common

/-!
# Numbers with a fixed number of digits

Texts of one width are in the lexicographic order exactly when their numbers are in theirs, and a
row of such texts is compared number by number.
-/

namespace Decimal

/-- The last `width` decimal digits of a number. -/
def digits : Nat → Nat → List Char
  | 0, _ => []
  | width + 1, n => digits width (n / 10) ++ [Nat.digitChar (n % 10)]

theorem length_digits (width n : Nat) : (digits width n).length = width := by
  induction width generalizing n with
  | zero => rfl
  | succ width ih => rw [digits, List.length_append, ih, List.length_singleton]

theorem digits_zero (width : Nat) : digits width 0 = List.replicate width '0' := by
  induction width with
  | zero => rfl
  | succ width ih =>
    rw [digits, Nat.zero_div, ih, List.replicate_succ']
    rfl

/-- The usual digits, padded with zeros. -/
theorem replicate_append_toDigits {width n : Nat} (h : n < 10 ^ (width + 1)) :
    List.replicate (width + 1 - (Nat.toDigits 10 n).length) '0' ++ Nat.toDigits 10 n =
      digits (width + 1) n := by
  induction width generalizing n with
  | zero =>
    have hten : n < 10 := by simpa using h
    rw [Nat.toDigits_of_lt_base hten, digits, digits, Nat.mod_eq_of_lt hten]
    rfl
  | succ width ih =>
    by_cases hten : n < 10
    · rw [Nat.toDigits_of_lt_base hten, digits, Nat.div_eq_of_lt hten, digits_zero,
        Nat.mod_eq_of_lt hten]
      rfl
    · have hdiv : n / 10 < 10 ^ (width + 1) := by
        rw [Nat.pow_succ] at h
        omega
      rw [Nat.toDigits_of_base_le (by decide) (by omega), List.length_append, List.length_singleton,
        Nat.add_sub_add_right, ← List.append_assoc, ih hdiv]
      rfl

/-! ## Order -/

theorem append_lt_append_iff {α : Type} [LT α] {xs ys as bs : List α}
    (h : xs.length = ys.length) : xs ++ as < ys ++ bs ↔ xs < ys ∨ xs = ys ∧ as < bs := by
  induction xs generalizing ys with
  | nil =>
    rw [List.eq_nil_of_length_eq_zero h.symm]
    simp
  | cons x xs ih =>
    cases ys with
    | nil => cases h
    | cons y ys =>
      have hrest := ih (Nat.succ.inj h)
      rw [List.cons_append, List.cons_append, List.cons_lt_cons_iff, List.cons_lt_cons_iff, hrest,
        List.cons.injEq]
      tauto

theorem digitChar_lt_iff : ∀ a < 10, ∀ b < 10, (Nat.digitChar a < Nat.digitChar b ↔ a < b) ∧
    (Nat.digitChar a = Nat.digitChar b ↔ a = b) := by
  decide

theorem digits_inj {width a b : Nat} (ha : a < 10 ^ width) (hb : b < 10 ^ width) :
    digits width a = digits width b ↔ a = b := by
  induction width generalizing a b with
  | zero =>
    rw [Nat.pow_zero] at ha hb
    constructor
    · omega
    · rintro rfl
      rfl
  | succ width ih =>
    rw [Nat.pow_succ] at ha hb
    have hinit : a / 10 < 10 ^ width ∧ b / 10 < 10 ^ width := by omega
    have hlast := (digitChar_lt_iff (a % 10) (by omega) (b % 10) (by omega)).2
    constructor
    · intro h
      obtain ⟨hfront, hback⟩ := List.append_inj h (by rw [length_digits, length_digits])
      have hdiv := (ih hinit.1 hinit.2).mp hfront
      have hmod := hlast.mp (List.singleton_inj.mp hback)
      omega
    · rintro rfl
      rfl

theorem digits_lt_iff {width a b : Nat} (ha : a < 10 ^ width) (hb : b < 10 ^ width) :
    digits width a < digits width b ↔ a < b := by
  induction width generalizing a b with
  | zero =>
    rw [Nat.pow_zero] at ha hb
    have : ¬ a < b := by omega
    simp [digits, this]
  | succ width ih =>
    rw [Nat.pow_succ] at ha hb
    have hinit : a / 10 < 10 ^ width ∧ b / 10 < 10 ^ width := by omega
    have hlast := (digitChar_lt_iff (a % 10) (by omega) (b % 10) (by omega)).1
    rw [digits, digits, append_lt_append_iff (by rw [length_digits, length_digits]),
      ih hinit.1 hinit.2, digits_inj hinit.1 hinit.2, List.cons_lt_cons_iff]
    simp [hlast]
    omega

/-- A number of fixed width in front of other text is compared first. -/
theorem digits_append_lt_iff {width a b : Nat} {as bs : List Char} (ha : a < 10 ^ width)
    (hb : b < 10 ^ width) :
    digits width a ++ as < digits width b ++ bs ↔ a < b ∨ a = b ∧ as < bs := by
  rw [append_lt_append_iff (by rw [length_digits, length_digits]), digits_lt_iff ha hb,
    digits_inj ha hb]

end Decimal
