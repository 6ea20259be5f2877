import Hwwctl.Library.Transition

/-!
# Executions that go on for ever

A machine keeps taking steps of a kind when some infinite execution takes infinitely many of them. A
scheduler that always brings such a step nearer gives one; a measure that such steps lessen and the
others do not raise excludes it.
-/

namespace Transition

variable {σ α : Type}

structure Execution (step : σ → α → Option σ) (s : σ) where
  states : Nat → σ
  acts : Nat → α
  start : states 0 = s
  next : ∀ n, step (states n) (acts n) = some (states (n + 1))

/-- Some execution takes steps of a kind again and again. -/
def Keeps (step : σ → α → Option σ) (P : α → Prop) (s : σ) : Prop :=
  ∃ e : Execution step s, ∀ n, ∃ m, n ≤ m ∧ P (e.acts m)

variable {step : σ → α → Option σ} {P : α → Prop} {I : σ → Prop} {s : σ}

/-- The states a scheduler leads through. -/
def scheduled (step : σ → α → Option σ) (next : σ → α) (s : σ) : Nat → σ
  | 0 => s
  | n + 1 => (step (scheduled step next s n) (next (scheduled step next s n))).getD s

/-- A scheduler that never gets stuck gives an execution, and one that always takes a step of the
kind or brings it nearer keeps taking them. -/
theorem keeps_of_scheduler (next : σ → α) (work : σ → Nat) (h0 : I s)
    (hstep : ∀ s, I s → ∃ s', step s (next s) = some s' ∧ I s' ∧ (P (next s) ∨ work s' < work s)) :
    Keeps step P s := by
  have hinv : ∀ n, I (scheduled step next s n) := by
    intro n
    induction n with
    | zero => exact h0
    | succ n ih =>
      obtain ⟨s', hs', hI, -⟩ := hstep _ ih
      rw [scheduled, hs']
      exact hI
  have hsucc : ∀ n, step (scheduled step next s n) (next (scheduled step next s n)) =
      some (scheduled step next s (n + 1)) := by
    intro n
    obtain ⟨s', hs', -⟩ := hstep _ (hinv n)
    rw [scheduled, hs']
    rfl
  refine ⟨⟨scheduled step next s, fun n => next (scheduled step next s n), rfl, hsucc⟩, fun n => ?_⟩
  -- by induction on the work that is left before a step of the kind
  induction hwork : work (scheduled step next s n) using Nat.strongRecOn generalizing n with
  | ind w ih =>
    obtain ⟨s', hs', -, hP | hlt⟩ := hstep _ (hinv n)
    · exact ⟨n, Nat.le_refl n, hP⟩
    · obtain rfl : scheduled step next s (n + 1) = s' := Option.some.inj ((hsucc n).symm.trans hs')
      obtain ⟨m, hm, hP⟩ := ih _ (hwork ▸ hlt) (n + 1) rfl
      exact ⟨m, Nat.le_of_succ_le hm, hP⟩

/-- What every step of the kind lessens and no step raises bounds how many of them there are. -/
theorem not_keeps_of_measure (left : σ → Nat) (h0 : I s)
    (hstep : ∀ s a s', I s → step s a = some s' → I s' ∧ left s' ≤ left s ∧ (P a → left s' < left s)) :
    ¬ Keeps step P s := by
  rintro ⟨e, hkeeps⟩
  have hinv : ∀ n, I (e.states n) := by
    intro n
    induction n with
    | zero =>
      rw [e.start]
      exact h0
    | succ n ih => exact (hstep _ _ _ ih (e.next n)).1
  have hmono : ∀ n m, n ≤ m → left (e.states m) ≤ left (e.states n) := by
    intro n m hnm
    induction hnm with
    | refl => exact Nat.le_refl _
    | step _ ih => exact Nat.le_trans (hstep _ _ _ (hinv _) (e.next _)).2.1 ih
  have hnever : ∀ w n, left (e.states n) ≠ w := by
    intro w
    induction w using Nat.strongRecOn with
    | ind w ih =>
      intro n hleft
      obtain ⟨m, hnm, hP⟩ := hkeeps n
      have hlt := (hstep _ _ _ (hinv m) (e.next m)).2.2 hP
      have hle := hmono n m hnm
      exact ih _ (by omega) (m + 1) rfl
  exact hnever _ 0 rfl

end Transition
