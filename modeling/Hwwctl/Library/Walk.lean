import Mathlib.Data.List.Basic
import Mathlib.Logic.Relation
import Mathlib.Tactic.Common

/-!
# Walks over finite trees

A type whose elements have children in order, each smaller than its parent. The pre-order sequence
below an element has every element that can be reached from it; a recursive procedure that treats an
element before its children, one after another, is a fold over that sequence.
-/

/-- `smaller` is what lets a recursion over the children end. -/
structure Descent (α : Type) where
  children : α → List α
  size : α → Nat
  smaller : ∀ a, ∀ b ∈ children a, size b < size a

namespace Descent

variable {α σ β : Type} (d : Descent α)

/-- What holds of an element when it holds of its children holds of all. -/
theorem induction {P : α → Prop} (h : ∀ a, (∀ b ∈ d.children a, P b) → P a) (a : α) : P a :=
  h a fun b _ => induction h b
termination_by d.size a
decreasing_by exact d.smaller a b ‹_›

/-- An element, then all below its first child, all below its second, and so on. -/
def preorder (a : α) : List α :=
  a :: (d.children a).attach.flatMap fun b => preorder b.1
termination_by d.size a
decreasing_by exact d.smaller a b.1 b.2

theorem preorder_eq (a : α) : d.preorder a = a :: (d.children a).flatMap d.preorder := by
  rw [preorder, List.flatMap_subtype (fun _ _ => rfl), List.unattach_attach]

def Child (a b : α) : Prop := b ∈ d.children a

theorem mem_preorder_iff {a b : α} : b ∈ d.preorder a ↔ Relation.ReflTransGen d.Child a b := by
  constructor
  · induction a using d.induction with
    | h a ih =>
      intro h
      rw [preorder_eq] at h
      rcases List.mem_cons.mp h with rfl | hbelow
      · exact .refl
      · obtain ⟨c, hc, hb⟩ := List.mem_flatMap.mp hbelow
        exact .head hc (ih c hc hb)
  · intro h
    induction h using Relation.ReflTransGen.head_induction_on with
    | refl =>
      rw [preorder_eq]
      exact List.mem_cons_self
    | head hc _ ih =>
      rw [preorder_eq]
      exact List.mem_cons_of_mem _ (List.mem_flatMap.mpr ⟨_, hc, ih⟩)

/-- A procedure that treats an element and then its children is a fold. -/
theorem foldl_preorder {visit own : α → σ → σ}
    (h : ∀ a s, visit a s = (d.children a).foldl (fun s b => visit b s) (own a s)) (a : α) (s : σ) :
    visit a s = (d.preorder a).foldl (fun s b => own b s) s := by
  induction a using d.induction generalizing s with
  | h a ih =>
    have hchildren := List.foldl_ext (fun s b => visit b s)
      (fun s b => (d.preorder b).foldl (fun s b => own b s) s) (own a s) fun s b hb => ih b hb s
    rw [h, preorder_eq, List.foldl_cons, List.foldl_flatMap, hchildren]

end Descent

/-- What a fold appends does not depend on what is there already. -/
theorem List.foldl_append_flatMap {α σ β : Type} {step : σ → α → σ} {out : σ → List β}
    {own : α → List β} (h : ∀ s a, out (step s a) = out s ++ own a) (as : List α) (s : σ) :
    out (as.foldl step s) = out s ++ as.flatMap own := by
  induction as generalizing s with
  | nil => simp
  | cons a as ih => rw [List.foldl_cons, ih, h, List.flatMap_cons, List.append_assoc]
