import Mathlib.Data.List.Basic
import Mathlib.Tactic.Common

/-!
# Words between separators

A list is cut into words by the elements that separate; `Spaced` says in which lists given words
stand, with any gaps around them. Cutting up finds the only words that a list is made of.
-/

namespace Words

variable {α : Type} (sep : α → Bool)

/-- A gap may be longer than one separator. -/
def words [DecidableEq α] (s : List α) : List (List α) := (s.splitOnP sep).filter (· ≠ [])

def Gap (g : List α) : Prop := ∀ c ∈ g, sep c = true

structure Word (w : List α) : Prop where
  ne_nil : w ≠ []
  solid : ∀ c ∈ w, sep c = false

/-- What a word can be followed by. -/
def Ends (s : List α) : Prop := ∀ c ∈ s.head?, sep c = true

inductive Spaced : List (List α) → List α → Prop
  | gap {g : List α} (hg : Gap sep g) : Spaced [] g
  | word {g w s : List α} {ws : List (List α)} (hg : Gap sep g) (hw : Word sep w)
      (hend : Ends sep s) (h : Spaced ws s) : Spaced (w :: ws) (g ++ w ++ s)

variable {sep} {w s : List α} {ws : List (List α)} {c : α}

theorem Spaced.cons (hc : sep c = true) (h : Spaced sep ws s) : Spaced sep ws (c :: s) := by
  have hgap : ∀ {g}, Gap sep g → Gap sep (c :: g) := fun hg => List.forall_mem_cons.mpr ⟨hc, hg⟩
  cases h with
  | gap hg => exact .gap (hgap hg)
  | word hg hw hend h => exact .word (hgap hg) hw hend h

/-- Every list is made of some words. -/
theorem exists_spaced (s : List α) : ∃ ws, Spaced sep ws s := by
  induction s with
  | nil => exact ⟨[], .gap nofun⟩
  | cons c s ih =>
    obtain ⟨ws, h⟩ := ih
    by_cases hc : sep c = true
    · exact ⟨ws, h.cons hc⟩
    · have hsolid : Word sep [c] := ⟨List.cons_ne_nil _ _, by simpa using hc⟩
      by_cases hend : Ends sep s
      · exact ⟨[c] :: ws, .word (g := []) nofun hsolid hend h⟩
      · -- The word that `s` starts with gets longer.
        cases h with
        | @gap g hg =>
          refine absurd (fun d hd => ?_) hend
          exact hg d (List.mem_of_mem_head? hd)
        | @word g w s ws hg hw hend' h =>
          cases g with
          | cons d g =>
            refine absurd (fun e he => ?_) hend
            cases he
            exact hg d List.mem_cons_self
          | nil =>
            refine ⟨(c :: w) :: ws, .word (g := []) nofun ⟨List.cons_ne_nil _ _, ?_⟩ hend' h⟩
            exact List.forall_mem_cons.mpr ⟨by simpa using hc, hw.solid⟩

section Cutting

variable [DecidableEq α]

theorem words_cons (hc : sep c = true) : words sep (c :: s) = words sep s := by
  rw [words, List.splitOnP_cons_eq_if_modifyHead, if_pos hc, List.filter_cons_of_neg (by simp), words]

theorem words_gap {g : List α} (hg : Gap sep g) : words sep (g ++ s) = words sep s := by
  induction g with
  | nil => rfl
  | cons c g ih =>
    rw [List.cons_append, words_cons (hg c List.mem_cons_self)]
    exact ih fun d hd => hg d (List.mem_cons_of_mem c hd)

theorem words_word (hw : Word sep w) (hend : Ends sep s) :
    words sep (w ++ s) = w :: words sep s := by
  cases s with
  | nil =>
    rw [List.append_nil, words, List.splitOnP_eq_singleton hw.solid,
      List.filter_cons_of_pos (by simpa using hw.ne_nil)]
    rfl
  | cons c s =>
    have hc : sep c = true := hend c rfl
    rw [words_cons hc, words, List.splitOnP_append_cons_of_forall_mem hw.solid c hc,
      List.filter_cons_of_pos (by simpa using hw.ne_nil), words]

theorem Spaced.words_eq (h : Spaced sep ws s) : words sep s = ws := by
  induction h with
  | @gap g hg => rw [← List.append_nil g, words_gap hg, words, List.splitOnP_nil]; rfl
  | @word g w s ws hg hw hend _ ih => rw [List.append_assoc, words_gap hg, words_word hw hend, ih]

/-- Cutting a list up finds the words it is made of. -/
theorem words_eq_iff : words sep s = ws ↔ Spaced sep ws s := by
  constructor
  · rintro rfl
    obtain ⟨ws, h⟩ : ∃ ws, Spaced sep ws s := exists_spaced s
    rwa [h.words_eq]
  · exact Spaced.words_eq

end Cutting

theorem Spaced.word_of_mem (h : Spaced sep ws s) (hw : w ∈ ws) : Word sep w := by
  induction h with
  | gap => cases hw
  | word _ hword _ _ ih =>
    rcases List.mem_cons.mp hw with rfl | hw
    · exact hword
    · exact ih hw

/-- Words with one separator between them. -/
theorem spaced_intercalate (hc : sep c = true) (h : ∀ w ∈ ws, Word sep w) :
    Spaced sep ws (List.intercalate [c] ws) := by
  induction ws with
  | nil => exact .gap nofun
  | cons w ws ih =>
    have hw := h w List.mem_cons_self
    have hrest := ih fun w' hw' => h w' (List.mem_cons_of_mem w hw')
    cases ws with
    | nil => simpa using Spaced.word (g := []) nofun hw (s := []) nofun hrest
    | cons w' ws =>
      have hjoin : List.intercalate [c] (w :: w' :: ws) =
          [] ++ w ++ c :: List.intercalate [c] (w' :: ws) := by
        simp [List.intercalate]
      rw [hjoin]
      exact .word nofun hw (fun d hd => by cases hd; exact hc) (hrest.cons hc)

end Words
