import Hwwctl.Control.Types
import Hwwctl.Library.Words

/-!
# Recovery words

`normalize_mnemonic` accepts sentences of the right shape and gives each one spelling, so two
sentences have the same words exactly when they are spelled the same afterwards.
-/

namespace Hwwctl.Control

open Words

/-! ## Cutting a text into words -/

theorem splitWhitespace_eq (s : String) :
    splitWhitespace s = (words isWhitespace s.toList).map String.ofList := rfl

/-- The words of a text that is made of them. -/
theorem splitWhitespace_spaced {ws : List String} {s : String}
    (h : Spaced isWhitespace (ws.map String.toList) s.toList) : splitWhitespace s = ws := by
  rw [splitWhitespace_eq, h.words_eq, List.map_map]
  simp

theorem spaced_splitWhitespace (s : String) :
    Spaced isWhitespace ((splitWhitespace s).map String.toList) s.toList := by
  rw [splitWhitespace_eq, List.map_map]
  simpa using words_eq_iff.mp rfl

/-- Words with single spaces between them. -/
theorem spaced_unwords {ws : List String} (h : ∀ w ∈ ws, Word isWhitespace w.toList) :
    Spaced isWhitespace (ws.map String.toList) (" ".intercalate ws).toList := by
  rw [String.toList_intercalate]
  exact spaced_intercalate rfl (by simpa using h)

/-- Words joined by single spaces are what `split_whitespace` finds. -/
theorem splitWhitespace_intercalate {ws : List String}
    (h : ∀ w ∈ ws, w.toList ≠ [] ∧ ∀ c ∈ w.toList, isWhitespace c = false) :
    splitWhitespace (" ".intercalate ws) = ws :=
  splitWhitespace_spaced (spaced_unwords fun w hw => ⟨(h w hw).1, (h w hw).2⟩)

/-! ## Sentences -/

/-- What `normalize_mnemonic` is meant to accept: `s` is made of these words. -/
structure Sentence (ws : List String) (s : String) : Prop where
  spaced : Spaced isWhitespace (ws.map String.toList) s.toList
  count : ws.length = 12 ∨ ws.length = 18 ∨ ws.length = 24
  lowercase : ∀ w ∈ ws, ∀ c ∈ w.toList, 'a' ≤ c ∧ c ≤ 'z'

theorem asciiLowercase_iff {w : String} :
    asciiLowercase w = true ↔ ∀ c ∈ w.toList, 'a' ≤ c ∧ c ≤ 'z' := by
  simp [asciiLowercase]

theorem normalizeMnemonic_ok {s r : String} (h : normalizeMnemonic s = .ok r) :
    Sentence (splitWhitespace s) s ∧ r = " ".intercalate (splitWhitespace s) := by
  unfold normalizeMnemonic at h
  dsimp only at h
  split_ifs at h with hcount
  cases hbad : (splitWhitespace s).find? (fun w => !asciiLowercase w) with
  | some bad =>
    rw [hbad] at h
    cases h
  | none =>
    rw [hbad] at h
    cases h
    refine ⟨⟨spaced_splitWhitespace s, hcount, fun w hw => asciiLowercase_iff.mp ?_⟩, rfl⟩
    simpa using List.find?_eq_none.mp hbad w hw

theorem Sentence.normalizeMnemonic {ws : List String} {s : String} (h : Sentence ws s) :
    normalizeMnemonic s = .ok (" ".intercalate ws) := by
  have hwords := splitWhitespace_spaced h.spaced
  have hbad : ws.find? (fun w => !asciiLowercase w) = none := by
    refine List.find?_eq_none.mpr fun w hw => ?_
    simpa using asciiLowercase_iff.mpr (h.lowercase w hw)
  unfold Control.normalizeMnemonic
  rw [hwords, if_pos h.count, hbad]

theorem Sentence.unwords {ws : List String} {s : String} (h : Sentence ws s) :
    Sentence ws (" ".intercalate ws) where
  spaced := spaced_unwords fun _ hw => h.spaced.word_of_mem (List.mem_map_of_mem hw)
  count := h.count
  lowercase := h.lowercase

/-- The words of a sentence can be read off its normal form. -/
theorem unwords_inj {ws ws' : List String} {s s' : String} (h : Sentence ws s)
    (h' : Sentence ws' s') : " ".intercalate ws = " ".intercalate ws' ↔ ws = ws' := by
  constructor
  · intro heq
    rw [← splitWhitespace_spaced h.unwords.spaced, heq, splitWhitespace_spaced h'.unwords.spaced]
  · rintro rfl
    rfl

theorem normalizeMnemonic_canonical (s : String) :
    ((∃ r, normalizeMnemonic s = .ok r) ↔ ∃ ws, Sentence ws s) ∧
    ∀ ws, Sentence ws s →
      normalizeMnemonic s = .ok (" ".intercalate ws) ∧ Sentence ws (" ".intercalate ws) ∧
      normalizeMnemonic (" ".intercalate ws) = .ok (" ".intercalate ws) ∧
      ∀ t ws', Sentence ws' t → (normalizeMnemonic s = normalizeMnemonic t ↔ ws = ws') := by
  constructor
  · constructor
    · rintro ⟨r, hr⟩
      exact ⟨_, (normalizeMnemonic_ok hr).1⟩
    · rintro ⟨ws, h⟩
      exact ⟨_, h.normalizeMnemonic⟩
  · intro ws h
    refine ⟨h.normalizeMnemonic, h.unwords, h.unwords.normalizeMnemonic, fun t ws' h' => ?_⟩
    rw [h.normalizeMnemonic, h'.normalizeMnemonic, Except.ok.injEq]
    exact unwords_inj h h'

end Hwwctl.Control
