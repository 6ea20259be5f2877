import Mathlib.Data.List.Basic

/-!
# Hexadecimal numerals

Lower-case digits filled up with zeros to a width, and the reading of digits of either case.
-/

namespace Hex

/-- `n` in at least `width` lower-case digits. -/
def padded (width n : Nat) : List Char :=
  let digits := Nat.toDigits 16 n
  List.replicate (width - digits.length) '0' ++ digits

/-- The value of a digit. -/
def digit? (c : Char) : Option Nat :=
  if '0' ≤ c ∧ c ≤ '9' then some (c.toNat - '0'.toNat)
  else if 'a' ≤ c ∧ c ≤ 'f' then some (c.toNat - 'a'.toNat + 10)
  else if 'A' ≤ c ∧ c ≤ 'F' then some (c.toNat - 'A'.toNat + 10)
  else none

/-- The number that `cs` continue, with `acc` read so far. -/
def readDigits (acc : Nat) : List Char → Option Nat
  | [] => some acc
  | c :: cs => (digit? c).bind fun d => readDigits (16 * acc + d) cs

/-- An unsigned number below `bound`, perhaps with a plus sign. -/
def parse (bound : Nat) (cs : List Char) : Option Nat :=
  let digits := if cs.head? = some '+' then cs.tail else cs
  if digits = [] then none else (readDigits 0 digits).filter (· < bound)

/-! ## Reading what was written -/

theorem digit?_digitChar : ∀ d < 16, digit? d.digitChar = some d := by decide

theorem readDigits_append (acc : Nat) (cs cs' : List Char) :
    readDigits acc (cs ++ cs') = (readDigits acc cs).bind fun n => readDigits n cs' := by
  induction cs generalizing acc with
  | nil => rfl
  | cons c cs ih =>
    rw [List.cons_append, readDigits, readDigits]
    cases digit? c with
    | none => rfl
    | some d => exact ih _

theorem readDigits_zeros (k : Nat) : readDigits 0 (List.replicate k '0') = some 0 := by
  induction k with
  | zero => rfl
  | succ k ih => exact ih

theorem readDigits_toDigits (n : Nat) : readDigits 0 (Nat.toDigits 16 n) = some n := by
  induction n using Nat.strongRecOn with
  | ind n ih =>
    by_cases hn : n < 16
    · rw [Nat.toDigits_of_lt_base hn, readDigits, digit?_digitChar n hn]
      simp [readDigits]
    · have hd := Nat.mod_lt n (show 0 < 16 by omega)
      have hlast := Nat.toDigits_of_lt_base hd
      have hsplit := Nat.toDigits_append_toDigits (show 1 < 16 by omega)
        (show 0 < n / 16 by omega) hd
      rw [Nat.div_add_mod] at hsplit
      rw [← hsplit, hlast, readDigits_append, ih (n / 16) (by omega), Option.bind_some, readDigits,
        digit?_digitChar _ hd, Option.bind_some, readDigits, Nat.div_add_mod]

theorem readDigits_padded (width n : Nat) : readDigits 0 (padded width n) = some n := by
  rw [padded, readDigits_append, readDigits_zeros]
  exact readDigits_toDigits n

/-- A padded numeral is parsed to its number. -/
theorem parse_padded {bound n : Nat} (width : Nat) (hn : n < bound) :
    parse bound (padded width n) = some n := by
  have hread := readDigits_padded width n
  have hplus : ∀ cs, padded width n ≠ '+' :: cs := by
    intro cs heq
    rw [heq] at hread
    cases hread
  have hne : padded width n ≠ [] :=
    List.append_ne_nil_of_right_ne_nil _ Nat.toDigits_ne_nil
  have hhead : (padded width n).head? ≠ some '+' := by
    cases hcs : padded width n with
    | nil => exact fun h => by cases h
    | cons c cs =>
      intro hc
      rw [List.head?_cons, Option.some.injEq] at hc
      exact hplus cs (by rw [hcs, hc])
  rw [parse, if_neg hhead, if_neg hne, hread]
  simp [hn]

end Hex
