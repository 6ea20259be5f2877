import Mathlib.Data.List.Basic
import Mathlib.Order.Lattice
import Mathlib.Tactic.Common

/-!
# Sorting by a key

A stable sort keeps the order of entries whose keys are in order already.
-/

namespace StableSort

variable {α κ : Type} [LinearOrder κ] (key : α → κ)

def sortByKey (l : List α) : List α := l.mergeSort fun a b => decide (key a ≤ key b)

variable {key}

theorem key_trans (a b c : α) (hab : decide (key a ≤ key b) = true)
    (hbc : decide (key b ≤ key c) = true) : decide (key a ≤ key c) = true :=
  decide_eq_true ((of_decide_eq_true hab).trans (of_decide_eq_true hbc))

theorem key_total (a b : α) : (decide (key a ≤ key b) || decide (key b ≤ key a)) = true := by
  rw [Bool.or_eq_true, decide_eq_true_iff, decide_eq_true_iff]
  exact le_total _ _

theorem sorted_sortByKey (l : List α) : (sortByKey key l).Pairwise fun a b => key a ≤ key b :=
  (List.pairwise_mergeSort key_trans key_total l).imp of_decide_eq_true

theorem perm_sortByKey (l : List α) : (sortByKey key l).Perm l := List.mergeSort_perm l _

/-- Two entries in order stay in order. -/
theorem pair_sublist_sortByKey {l : List α} {a b : α} (hab : key a ≤ key b)
    (h : [a, b].Sublist l) : [a, b].Sublist (sortByKey key l) :=
  List.pair_sublist_mergeSort key_trans key_total (decide_eq_true hab) h

/-- What a filter leaves, if it is in order, is what it leaves of the sorted list. -/
theorem filter_sortByKey {l : List α} {p : α → Bool}
    (h : (l.filter p).Pairwise fun a b => key a ≤ key b) :
    (sortByKey key l).filter p = l.filter p := by
  have hsublist : (l.filter p).Sublist (sortByKey key l) :=
    List.sublist_mergeSort key_trans key_total (h.imp decide_eq_true) List.filter_sublist
  have hfilter : (l.filter p).Sublist ((sortByKey key l).filter p) := by
    have hboth := hsublist.filter p
    simpa only [List.filter_filter, Bool.and_self] using hboth
  exact (hfilter.eq_of_length ((perm_sortByKey l).filter p).length_eq.symm).symm

/-- Of two entries that a list in order holds, the one that comes before the other in that order
stands before it. -/
theorem pair_sublist_of_pairwise {R : α → α → Prop} {l : List α} (hl : l.Pairwise R) {a b : α}
    (ha : a ∈ l) (hb : b ∈ l) (hne : a ≠ b) (hba : ¬ R b a) : [a, b].Sublist l := by
  induction hl with
  | nil => cases ha
  | @cons c l hc _ ih =>
    rcases List.mem_cons.1 ha with rfl | hal
    · rcases List.mem_cons.1 hb with rfl | hbl
      · exact absurd rfl hne
      · exact (List.singleton_sublist.2 hbl).cons_cons a
    · rcases List.mem_cons.1 hb with rfl | hbl
      · exact absurd (hc a hal) hba
      · exact (ih hal hbl).cons c

end StableSort
