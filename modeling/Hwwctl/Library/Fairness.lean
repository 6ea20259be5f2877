import Hwwctl.Library.Execution
import Mathlib.Order.Nat

/-!
# Fair executions

A scheduler is weakly fair to a kind of steps if it does not pass over one that stays possible, and
strongly fair if it does not pass over one that is possible again and again. Under such a scheduler
something good comes of every state from which only these steps lead away, or from which every step
leaves a rank as it is that these steps lower.
-/

namespace Transition

variable {σ α : Type} {step : σ → α → Option σ} {s s' : σ}

/-- Some step of the kind is possible. -/
def Enabled (step : σ → α → Option σ) (A : α → Prop) (s : σ) : Prop :=
  ∃ a s', A a ∧ step s a = some s'

namespace Execution

/-- A step of the kind that stays possible is taken. -/
def WeaklyFair (e : Execution step s) (A : α → Prop) : Prop :=
  ∀ n, (∀ m, n ≤ m → Enabled step A (e.states m)) → ∃ m, n ≤ m ∧ A (e.acts m)

/-- A step of the kind that is possible again and again is taken. -/
def StronglyFair (e : Execution step s) (A : α → Prop) : Prop :=
  ∀ n, (∀ m, n ≤ m → ∃ k, m ≤ k ∧ Enabled step A (e.states k)) → ∃ m, n ≤ m ∧ A (e.acts m)

/-- Whenever `P` holds, `Q` holds then or later. -/
def LeadsTo (e : Execution step s) (P Q : σ → Prop) : Prop :=
  ∀ n, P (e.states n) → ∃ m, n ≤ m ∧ Q (e.states m)

variable {e : Execution step s} {A : α → Prop} {P Q R : σ → Prop}

theorem LeadsTo.trans (h : e.LeadsTo P Q) (h' : e.LeadsTo Q R) : e.LeadsTo P R := by
  intro n hP
  obtain ⟨m, hnm, hQ⟩ := h n hP
  obtain ⟨k, hmk, hR⟩ := h' m hQ
  exact ⟨k, hnm.trans hmk, hR⟩

/-- What holds at the start and is kept by the steps that are taken holds all along. -/
theorem invariant (h0 : P s) (hstep : ∀ n, P (e.states n) → P (e.states (n + 1))) (n : Nat) :
    P (e.states n) := by
  induction n with
  | zero =>
    rw [e.start]
    exact h0
  | succ n ih => exact hstep n ih

/-- What no step takes back goes on to hold. -/
theorem stable {n m : Nat} (hstep : ∀ k, n ≤ k → P (e.states k) → P (e.states (k + 1)))
    (hn : P (e.states n)) (hnm : n ≤ m) : P (e.states m) := by
  induction hnm with
  | refl => exact hn
  | step hle ih => exact hstep _ hle ih

/-- A list that each step only lengthens is at any time the beginning of what it comes to be. -/
theorem grows {β : Type*} (f : σ → List β)
    (hstep : ∀ k, f (e.states k) <+: f (e.states (k + 1))) {n m : Nat} (hnm : n ≤ m) :
    f (e.states n) <+: f (e.states m) := by
  refine stable (P := fun s => f (e.states n) <+: f s) ?_ (List.prefix_refl _) hnm
  intro k _ hk
  exact hk.trans (hstep k)

/-- The steps of an execution, up to some moment. -/
def schedule (e : Execution step s) (n : Nat) : List α := (List.range n).map e.acts

theorem schedule_succ (n : Nat) : e.schedule (n + 1) = e.schedule n ++ [e.acts n] := by
  simp only [schedule, List.range_succ, List.map_append, List.map_cons, List.map_nil]

theorem run_schedule (n : Nat) : run step s (e.schedule n) = some (e.states n) := by
  induction n with
  | zero => rw [e.start]; rfl
  | succ n ih => rw [schedule_succ, run_concat, ih, Option.bind_some, e.next]

/-! ## What fairness brings about -/

/-- While no step of the kind is taken, what only these steps end holds on. -/
theorem persists {n : Nat} (hkeep : ∀ m, P (e.states m) → A (e.acts m) ∨ P (e.states (m + 1)))
    (hno : ∀ m, n ≤ m → P (e.states m) → ¬ A (e.acts m)) (hn : P (e.states n)) {m : Nat}
    (hnm : n ≤ m) : P (e.states m) := by
  refine stable ?_ hn hnm
  intro k hnk hk
  exact (hkeep k hk).resolve_left (hno k hnk hk)

/-- What only a possible step of the kind ends is ended by one. -/
theorem WeaklyFair.taken (hfair : e.WeaklyFair A)
    (hkeep : ∀ m, P (e.states m) → A (e.acts m) ∨ P (e.states (m + 1)))
    (henabled : ∀ m, P (e.states m) → Enabled step A (e.states m)) {n : Nat}
    (hn : P (e.states n)) : ∃ m, n ≤ m ∧ P (e.states m) ∧ A (e.acts m) := by
  by_contra hnone
  have hno : ∀ m, n ≤ m → P (e.states m) → ¬ A (e.acts m) := by
    intro m hnm hP hA
    exact hnone ⟨m, hnm, hP, hA⟩
  have hP : ∀ m, n ≤ m → P (e.states m) := fun m => persists hkeep hno hn
  obtain ⟨m, hnm, hA⟩ := hfair n fun m hnm => henabled m (hP m hnm)
  exact hno m hnm (hP m hnm) hA

/-- What only a step of the kind ends is ended by one if such a step is possible again and again in
the meantime. -/
theorem StronglyFair.taken (hfair : e.StronglyFair A)
    (hkeep : ∀ m, P (e.states m) → A (e.acts m) ∨ P (e.states (m + 1)))
    (hagain : ∀ m, (∀ k, m ≤ k → P (e.states k)) →
      ∃ k, m ≤ k ∧ Enabled step A (e.states k)) {n : Nat}
    (hn : P (e.states n)) : ∃ m, n ≤ m ∧ P (e.states m) ∧ A (e.acts m) := by
  by_contra hnone
  have hno : ∀ m, n ≤ m → P (e.states m) → ¬ A (e.acts m) := by
    intro m hnm hP hA
    exact hnone ⟨m, hnm, hP, hA⟩
  have hP : ∀ m, n ≤ m → P (e.states m) := fun m => persists hkeep hno hn
  obtain ⟨m, hnm, hA⟩ := hfair n fun m hnm => hagain m fun k hmk => hP k (hnm.trans hmk)
  exact hno m hnm (hP m hnm) hA

/-- A rank that no step raises and every step of the kind lowers, while such a step is possible. -/
theorem WeaklyFair.leadsTo (hfair : e.WeaklyFair A) (rank : σ → Nat)
    (hstep : ∀ m, P (e.states m) → ¬ Q (e.states m) → Q (e.states (m + 1)) ∨
      P (e.states (m + 1)) ∧ rank (e.states (m + 1)) ≤ rank (e.states m) ∧
        (A (e.acts m) → rank (e.states (m + 1)) < rank (e.states m)))
    (henabled : ∀ m, P (e.states m) → ¬ Q (e.states m) → Enabled step A (e.states m)) :
    e.LeadsTo P Q := by
  intro n hP
  -- by induction on the rank; either the goal is reached or the next step of the kind lowers it
  induction hrank : rank (e.states n) using Nat.strongRecOn generalizing n with
  | ind k ih =>
    by_contra hnone
    have hno : ∀ m, n ≤ m → ¬ Q (e.states m) := by
      intro m hnm hQ
      exact hnone ⟨m, hnm, hQ⟩
    have hkept : ∀ m, n ≤ m → P (e.states m) ∧ rank (e.states m) ≤ k := by
      intro m hnm
      refine stable (P := fun s => P s ∧ rank s ≤ k) ?_ ⟨hP, hrank.le⟩ hnm
      rintro m' hnm' ⟨hP', hle⟩
      rcases hstep m' hP' (hno m' hnm') with hQ | ⟨hP'', hle', -⟩
      · exact absurd hQ (hno _ (by omega))
      · exact ⟨hP'', hle'.trans hle⟩
    obtain ⟨m, hnm, hA⟩ := hfair n fun m hnm => henabled m (hkept m hnm).1 (hno m hnm)
    rcases hstep m (hkept m hnm).1 (hno m hnm) with hQ | ⟨hP', -, hlt⟩
    · exact hno _ (by omega) hQ
    · have hlower : rank (e.states (m + 1)) < k := (hlt hA).trans_le (hkept m hnm).2
      obtain ⟨m', hmm', hQ⟩ := ih _ hlower (m + 1) hP' rfl
      exact hno m' (by omega) hQ

/-! ## Executions -/

/-- What a scheduler that never gets stuck does. -/
theorem exists_scheduled {I : σ → Prop} (next : σ → α) (h0 : I s)
    (hstep : ∀ s, I s → ∃ s', step s (next s) = some s' ∧ I s') :
    ∃ e : Execution step s, ∀ n, I (e.states n) ∧ e.acts n = next (e.states n) := by
  have hinv : ∀ n, I (scheduled step next s n) := by
    intro n
    induction n with
    | zero => exact h0
    | succ n ih =>
      obtain ⟨s', hs', hI⟩ := hstep _ ih
      rw [scheduled, hs']
      exact hI
  have hnext : ∀ n, step (scheduled step next s n) (next (scheduled step next s n)) =
      some (scheduled step next s (n + 1)) := by
    intro n
    obtain ⟨s', hs', -⟩ := hstep _ (hinv n)
    rw [scheduled, hs']
    rfl
  exact ⟨⟨scheduled step next s, fun n => next (scheduled step next s n), rfl, hnext⟩,
    fun n => ⟨hinv n, rfl⟩⟩


/-- One step, and then the execution. -/
def cons (a : α) (h : step s a = some s') (e : Execution step s') : Execution step s where
  states
    | 0 => s
    | n + 1 => e.states n
  acts
    | 0 => a
    | n + 1 => e.acts n
  start := rfl
  next
    | 0 => h.trans (congrArg some e.start.symm)
    | n + 1 => e.next n

variable {e' : Execution step s'}

theorem WeaklyFair.cons {a : α} {h : step s a = some s'} (hfair : e'.WeaklyFair A) :
    (cons a h e').WeaklyFair A := by
  intro n henabled
  obtain ⟨m, hnm, hA⟩ := hfair n fun m hnm => henabled (m + 1) (by omega)
  exact ⟨m + 1, by omega, hA⟩

theorem StronglyFair.cons {a : α} {h : step s a = some s'} (hfair : e'.StronglyFair A) :
    (cons a h e').StronglyFair A := by
  intro n hagain
  obtain ⟨m, hnm, hA⟩ := hfair n (by
    intro m hnm
    obtain ⟨k, hmk, henabled⟩ := hagain (m + 1) (by omega)
    cases k with
    | zero => omega
    | succ k => exact ⟨k, by omega, henabled⟩)
  exact ⟨m + 1, by omega, hA⟩

/-- An execution may begin with any schedule, which is no matter of fairness. -/
theorem exists_after {acts : List α} (hrun : run step s acts = some s') (e' : Execution step s') :
    ∃ e : Execution step s, (∀ n a, acts[n]? = some a → e.acts n = a) ∧
      (∀ n, e.acts (acts.length + n) = e'.acts n) ∧
      (∀ A, e'.WeaklyFair A → e.WeaklyFair A) ∧ ∀ A, e'.StronglyFair A → e.StronglyFair A := by
  induction acts generalizing s with
  | nil =>
    obtain rfl : s = s' := Option.some.inj (run_nil.symm.trans hrun)
    exact ⟨e', by simp, by simp, fun _ => id, fun _ => id⟩
  | cons b acts ih =>
    rw [run_cons] at hrun
    obtain ⟨s₁, hb, hrun⟩ := Option.bind_eq_some_iff.1 hrun
    obtain ⟨e, hbegin, hthen, hweak, hstrong⟩ := ih hrun
    refine ⟨.cons b hb e, ?_, ?_, fun A h => (hweak A h).cons, fun A h => (hstrong A h).cons⟩
    · intro n a ha
      cases n with
      | zero => exact Option.some.inj ha
      | succ n => exact hbegin n a ha
    · intro n
      rw [List.length_cons, Nat.add_right_comm]
      exact hthen n

/-- The schedule of the beginning is that of the execution. -/
theorem schedule_of_begin {acts : List α} (h : ∀ n a, acts[n]? = some a → e.acts n = a) :
    e.schedule acts.length = acts := by
  refine List.ext_getElem (by simp [schedule]) ?_
  intro n _ hn
  simp only [schedule, List.getElem_map, List.getElem_range]
  exact h n _ (List.getElem?_eq_getElem hn)

/-- Nobody is unfair to steps that are always taken. -/
theorem WeaklyFair.of_acts (h : ∀ n, A (e.acts n)) : e.WeaklyFair A := by
  intro n _
  exact ⟨n, le_rfl, h n⟩

/-- Nobody is unfair to steps that are never possible. -/
theorem StronglyFair.of_never (h : ∀ n, ¬ Enabled step A (e.states n)) : e.StronglyFair A := by
  intro n hagain
  obtain ⟨k, -, henabled⟩ := hagain n le_rfl
  exact absurd henabled (h k)

theorem StronglyFair.weaklyFair (h : e.StronglyFair A) : e.WeaklyFair A := by
  intro n henabled
  exact h n fun m hnm => ⟨m, le_rfl, henabled m hnm⟩

end Execution

end Transition
