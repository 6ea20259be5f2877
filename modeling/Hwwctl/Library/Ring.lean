import Mathlib.Data.List.DropRight
import Mathlib.Tactic.Common

/-!
# Buffers of bounded length

A push onto a full buffer drops the oldest entry. What a buffer holds after any number of pushes is
the end of what was pushed.
-/

namespace Ring

variable {α β : Type}

def push (cap : Nat) (buf : List α) (a : α) : List α :=
  (if cap ≤ buf.length then buf.drop 1 else buf) ++ [a]

theorem length_rtake (n : Nat) (l : List α) : (l.rtake n).length = min n l.length := by
  rw [List.rtake, List.length_drop]
  omega

theorem map_rtake (f : α → β) (n : Nat) (l : List α) : (l.rtake n).map f = (l.map f).rtake n := by
  rw [List.rtake, List.rtake, List.map_drop, List.length_map]

theorem map_push (f : α → β) (cap : Nat) (buf : List α) (a : α) :
    (push cap buf a).map f = push cap (buf.map f) (f a) := by
  rw [push, push, List.map_append, List.length_map]
  split
  · rw [List.map_drop]
    rfl
  · rfl

theorem push_rtake {cap : Nat} (hcap : 0 < cap) (l : List α) (a : α) :
    push cap (l.rtake cap) a = (l ++ [a]).rtake cap := by
  obtain ⟨n, rfl⟩ : ∃ n, cap = n + 1 := ⟨cap - 1, by omega⟩
  rw [push, List.rtake_concat_succ, length_rtake]
  congr 1
  by_cases hfull : n + 1 ≤ l.length
  · rw [if_pos (by omega), List.rtake, List.rtake, List.drop_drop]
    congr 1
    omega
  · rw [if_neg (by omega), List.rtake, List.rtake]
    congr 1
    omega

/-- What was pushed in one go after the other. -/
theorem foldl_push {cap : Nat} (hcap : 0 < cap) (items : List α) :
    items.foldl (push cap) [] = items.rtake cap := by
  induction items using List.reverseRecOn with
  | nil => exact (List.rtake_nil cap).symm
  | append_singleton items a ih =>
    rw [List.foldl_append, ih, List.foldl_cons, List.foldl_nil, push_rtake hcap]

/-! ## Draining -/

inductive Op (α : Type) where
  | push (a : α)
  | drain

/-- A buffer, and what each drain so far has taken from it. -/
structure Drained (α : Type) where
  buf : List α
  taken : List (List α)

def Drained.apply (cap : Nat) (d : Drained α) : Op α → Drained α
  | .push a => { d with buf := push cap d.buf a }
  | .drain => ⟨[], d.taken ++ [d.buf]⟩

/-- What was pushed before each drain, and after the last one. -/
structure Windows (α : Type) where
  before : List (List α)
  since : List α

def Windows.apply (w : Windows α) : Op α → Windows α
  | .push a => { w with since := w.since ++ [a] }
  | .drain => ⟨w.before ++ [w.since], []⟩

def windows (ops : List (Op α)) : Windows α := ops.foldl Windows.apply ⟨[], []⟩

def Windows.all (w : Windows α) : List (List α) := w.before ++ [w.since]

def Op.pushed : Op α → Option α
  | .push a => some a
  | .drain => none

/-- A drain takes the end of what was pushed since the drain before it. -/
theorem foldl_apply {cap : Nat} (hcap : 0 < cap) (ops : List (Op α)) :
    ops.foldl (Drained.apply cap) ⟨[], []⟩ =
      ⟨(windows ops).since.rtake cap, (windows ops).before.map (·.rtake cap)⟩ := by
  unfold windows
  induction ops using List.reverseRecOn with
  | nil => simp
  | append_singleton ops op ih =>
    rw [List.foldl_append, List.foldl_append, ih]
    cases op with
    | push a =>
      show (⟨push cap _ a, _⟩ : Drained α) = _
      rw [push_rtake hcap]
      rfl
    | drain =>
      show (⟨[], _ ++ [_]⟩ : Drained α) = ⟨[].rtake cap, (_ ++ [_]).map _⟩
      rw [List.map_append, List.rtake_nil]
      rfl

theorem flatten_windows (ops : List (Op α)) :
    (windows ops).all.flatten = ops.filterMap Op.pushed := by
  unfold windows
  induction ops using List.reverseRecOn with
  | nil => rfl
  | append_singleton ops op ih =>
    rw [List.foldl_append, List.filterMap_append, ← ih]
    cases op with
    | push a => simp [Windows.apply, Windows.all, Op.pushed]
    | drain => simp [Windows.apply, Windows.all, Op.pushed]

theorem flatten_map_rtake_sublist (n : Nat) (ls : List (List α)) :
    (ls.map (·.rtake n)).flatten.Sublist ls.flatten := by
  induction ls with
  | nil => exact .refl []
  | cons l ls ih =>
    rw [List.map_cons, List.flatten_cons, List.flatten_cons]
    exact (List.drop_sublist _ l).append ih

/-- Cutting lists to a length loses nothing exactly when none is longer. -/
theorem flatten_map_rtake_eq_iff (n : Nat) (ls : List (List α)) :
    (ls.map (·.rtake n)).flatten = ls.flatten ↔ ∀ l ∈ ls, l.length ≤ n := by
  induction ls with
  | nil => simp
  | cons l ls ih =>
    rw [List.map_cons, List.flatten_cons, List.flatten_cons, List.forall_mem_cons]
    have hrest := (flatten_map_rtake_sublist n ls).length_le
    have hlength := length_rtake n l
    constructor
    · intro h
      have hsum := congrArg List.length h
      rw [List.length_append, List.length_append] at hsum
      have hfits : l.length ≤ n := by omega
      refine ⟨hfits, ih.1 ?_⟩
      exact (List.append_inj h (by omega)).2
    · rintro ⟨hfits, hall⟩
      rw [ih.2 hall]
      congr 1
      rw [List.rtake, Nat.sub_eq_zero_of_le hfits, List.drop_zero]

end Ring
