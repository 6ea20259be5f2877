import Mathlib.Data.List.TakeWhile
import Mathlib.Tactic.Common

/-!
# Lines of a stream

A line ends with a separator. What stands behind the last separator is no line yet.
-/

namespace Lines

variable {α : Type} [BEq α] [LawfulBEq α]

/-- The lines of a stream that are complete, without their separators. -/
def complete (sep : α) (stream : List α) : List (List α) := (stream.splitOn sep).dropLast

theorem complete_of_not_mem {sep : α} {stream : List α} (h : sep ∉ stream) :
    complete sep stream = [] := by
  have hno : ∀ a ∈ stream, (a == sep) = false := by
    intro a ha
    exact beq_eq_false_iff_ne.2 fun heq => h (heq ▸ ha)
  rw [complete, List.splitOn_eq_splitOnP, List.splitOnP_eq_singleton hno]
  rfl

theorem complete_cons {sep : α} {line rest : List α} (h : sep ∉ line) :
    complete sep (line ++ sep :: rest) = line :: complete sep rest := by
  have hno : ∀ a ∈ line, (a == sep) = false := by
    intro a ha
    exact beq_eq_false_iff_ne.2 fun heq => h (heq ▸ ha)
  have hsplit := List.splitOnP_append_cons_of_forall_mem hno sep (beq_self_eq_true sep) rest
  rw [complete, complete, List.splitOn_eq_splitOnP, List.splitOn_eq_splitOnP, hsplit,
    List.dropLast_cons_of_ne_nil (List.splitOnP_ne_nil _ _)]

/-- Lines that are joined, and what follows them. -/
theorem complete_joined {sep : α} {lines : List (List α)} (h : ∀ line ∈ lines, sep ∉ line)
    (rest : List α) :
    complete sep (lines.flatMap (· ++ [sep]) ++ rest) = lines ++ complete sep rest := by
  induction lines with
  | nil => rfl
  | cons line lines ih =>
    have hline : sep ∉ line := h line List.mem_cons_self
    have hlines := ih fun l hl => h l (List.mem_cons_of_mem _ hl)
    rw [List.flatMap_cons, List.append_assoc, List.append_assoc, List.singleton_append,
      complete_cons hline, hlines, List.cons_append]

/-- What follows the last separator. -/
def rest (sep : α) (stream : List α) : List α := (stream.splitOn sep).getLastD []

/-- The first line, and what follows its separator. -/
def next (sep : α) (stream : List α) : Option (List α × List α) :=
  match stream.dropWhile (· != sep) with
  | [] => none
  | _ :: rest => some (stream.takeWhile (· != sep), rest)

theorem next_some {sep : α} {stream line rest : List α} (h : next sep stream = some (line, rest)) :
    stream = line ++ sep :: rest ∧ sep ∉ line := by
  unfold next at h
  split at h
  · cases h
  · rename_i b rest' hdrop
    cases h
    have hb : b = sep := by
      have hhead := List.head_dropWhile_not (· != sep) (l := stream) (by rw [hdrop]; simp)
      simpa [hdrop] using hhead
    subst hb
    refine ⟨?_, fun hmem => ?_⟩
    · rw [← hdrop, List.takeWhile_append_dropWhile]
    · simpa using List.mem_takeWhile_imp hmem

theorem next_none {sep : α} {stream : List α} (h : next sep stream = none) : sep ∉ stream := by
  unfold next at h
  split at h
  · rename_i hdrop
    rw [List.dropWhile_eq_nil_iff] at hdrop
    intro hmem
    simpa using hdrop sep hmem
  · cases h

end Lines
