import Mathlib.Data.List.Induction
import Mathlib.Tactic.Common

/-!
# Machines that take labelled steps

A machine is its step function: a label is either possible in a state, and leads to one state, or
it is not. A schedule is a list of labels. `Always` speaks about every state a schedule leads
through, `Guarded` about every step it takes; an invariant that guarded steps keep holds along every
guarded schedule.
-/

namespace Transition

variable {σ α : Type} (step : σ → α → Option σ)

def run (s : σ) (acts : List α) : Option σ := acts.foldlM step s

/-- `P` holds in every state the schedule leads through from `s`. -/
def Always (P : σ → Prop) (s : σ) (acts : List α) : Prop :=
  ∀ p, p <+: acts → ∀ s', run step s p = some s' → P s'

/-- `C` holds of every step the schedule takes from `s`, in the state before the step. -/
def Guarded (C : σ → α → Prop) (s : σ) (acts : List α) : Prop :=
  ∀ p a, p ++ [a] <+: acts → ∀ s' s'', run step s p = some s' → step s' a = some s'' → C s' a

variable {step} {s s' : σ} {acts : List α} {P Q : σ → Prop} {C : σ → α → Prop}

theorem run_nil : run step s [] = some s := rfl

theorem run_cons {a : α} : run step s (a :: acts) = (step s a).bind (run step · acts) := by
  rw [run, List.foldlM_cons]
  rfl

theorem run_append {acts' : List α} :
    run step s (acts ++ acts') = (run step s acts).bind (run step · acts') := by
  rw [run, List.foldlM_append]
  rfl

theorem run_concat {a : α} : run step s (acts ++ [a]) = (run step s acts).bind (step · a) := by
  simp [run_append, run_cons, run_nil]

/-- The last step of a run. -/
theorem run_concat_some {a : α} (h : run step s (acts ++ [a]) = some s') :
    ∃ s₁, run step s acts = some s₁ ∧ step s₁ a = some s' := by
  rw [run_concat] at h
  exact Option.bind_eq_some_iff.1 h

theorem Always.of_run (h : Always step P s acts) (hrun : run step s acts = some s') : P s' :=
  h acts (List.prefix_refl _) s' hrun

theorem Always.mono (h : Always step P s acts) (hPQ : ∀ s', P s' → Q s') : Always step Q s acts :=
  fun p hp s' hrun => hPQ s' (h p hp s' hrun)

/-- What holds at the start and is kept by the guarded steps always holds. -/
theorem Guarded.always (hguard : Guarded step C s acts) (h0 : P s)
    (hstep : ∀ s a s', P s → C s a → step s a = some s' → P s') : Always step P s acts := by
  intro p
  induction p using List.reverseRecOn with
  | nil =>
    intro _ s' hrun
    obtain rfl : s = s' := Option.some.inj (run_nil.symm.trans hrun)
    exact h0
  | append_singleton p a ih =>
    intro hp s' hrun
    obtain ⟨s₁, hrun₁, ha⟩ := run_concat_some hrun
    have hprev := ih ((List.prefix_append _ _).trans hp) s₁ hrun₁
    exact hstep s₁ a s' hprev (hguard p a hp s₁ s' hrun₁ ha) ha

/-- An invariant of all steps. -/
theorem always_of_step (h0 : P s) (hstep : ∀ s a s', P s → step s a = some s' → P s') :
    Always step P s acts :=
  Guarded.always (C := fun _ _ => True) (fun _ _ _ _ _ _ _ => trivial) h0
    fun s a s' hP _ ha => hstep s a s' hP ha

theorem Guarded.of_prefix {acts' : List α} (h : Guarded step C s acts) (hp : acts' <+: acts) :
    Guarded step C s acts' :=
  fun p a hpa => h p a (hpa.trans hp)

/-- What relates the steps taken so far to the state they lead to, kept by the guarded steps. -/
theorem Guarded.history {R : List α → σ → Prop} (hguard : Guarded step C s acts) (h0 : R [] s)
    (hstep : ∀ p s a s', R p s → C s a → step s a = some s' → R (p ++ [a]) s')
    (hrun : run step s acts = some s') : R acts s' := by
  induction acts using List.reverseRecOn generalizing s' with
  | nil =>
    obtain rfl : s = s' := Option.some.inj (run_nil.symm.trans hrun)
    exact h0
  | append_singleton p a ih =>
    obtain ⟨s₁, hrun₁, ha⟩ := run_concat_some hrun
    have hprev := ih (hguard.of_prefix (List.prefix_append _ _)) hrun₁
    exact hstep p s₁ a s' hprev (hguard p a (List.prefix_refl _) s₁ s' hrun₁ ha) ha

/-- What relates the steps taken so far to the state they lead to, kept by all steps. -/
theorem history_of_step {R : List α → σ → Prop} (h0 : R [] s)
    (hstep : ∀ p s a s', R p s → step s a = some s' → R (p ++ [a]) s')
    (hrun : run step s acts = some s') : R acts s' :=
  Guarded.history (C := fun _ _ => True) (fun _ _ _ _ _ _ _ => trivial) h0
    (fun p s a s' hR _ ha => hstep p s a s' hR ha) hrun

theorem Guarded.single {a : α} (h : C s a) : Guarded step C s [a] := by
  intro p b hp s' _ hrun _
  cases p with
  | nil =>
    obtain rfl : s = s' := Option.some.inj (run_nil.symm.trans hrun)
    obtain ⟨t, ht⟩ := hp
    obtain rfl : b = a := (List.cons.inj ht).1
    exact h
  | cons c p =>
    have hlength := hp.length_le
    simp at hlength

theorem Guarded.append {acts' : List α} (h : Guarded step C s acts)
    (h' : ∀ s', run step s acts = some s' → Guarded step C s' acts') :
    Guarded step C s (acts ++ acts') := by
  induction acts generalizing s with
  | nil => exact h' s rfl
  | cons a acts ih =>
    intro p b hp s₁ s₂ hrun hb
    cases p with
    | nil =>
      obtain ⟨t, ht⟩ := hp
      obtain rfl : b = a := (List.cons.inj ht).1
      exact h [] b ⟨acts, rfl⟩ s₁ s₂ hrun hb
    | cons c p =>
      obtain ⟨t, ht⟩ := hp
      obtain ⟨hca, hrest⟩ := List.cons.inj ht
      subst hca
      rw [run_cons] at hrun
      obtain ⟨s₀, hc, hrun₀⟩ := Option.bind_eq_some_iff.1 hrun
      refine ih ?_ ?_ p b ⟨t, hrest⟩ s₁ s₂ hrun₀ hb
      · intro q d hq s₃ s₄ hrun₃ hd
        obtain ⟨t, ht⟩ := hq
        refine h (c :: q) d ⟨t, by rw [← ht]; rfl⟩ s₃ s₄ ?_ hd
        rw [run_cons, hc]
        exact hrun₃
      · intro s' hrun'
        refine h' s' ?_
        rw [run_cons, hc]
        exact hrun'

/-- A schedule is guarded when its first step is and the rest is from there. -/
theorem Guarded.cons {a : α} (hC : C s a) (h : ∀ s', step s a = some s' → Guarded step C s' acts) :
    Guarded step C s (a :: acts) := by
  refine (Guarded.single hC).append ?_
  intro s' hrun
  rw [run_cons] at hrun
  obtain ⟨s₁, ha, hnil⟩ := Option.bind_eq_some_iff.1 hrun
  obtain rfl : s₁ = s' := Option.some.inj (run_nil.symm.trans hnil)
  exact h s₁ ha

theorem Guarded.head {a : α} (h : Guarded step C s (a :: acts)) (ha : step s a = some s') : C s a :=
  h [] a ⟨acts, rfl⟩ s s' rfl ha

theorem Guarded.tail {a : α} (h : Guarded step C s (a :: acts)) (ha : step s a = some s') :
    Guarded step C s' acts := by
  intro p b hp s₁ s₂ hrun hb
  obtain ⟨t, ht⟩ := hp
  refine h (a :: p) b ⟨t, by rw [← ht]; rfl⟩ s₁ s₂ ?_ hb
  rw [run_cons, ha]
  exact hrun

theorem Guarded.mono {D : σ → α → Prop} (h : Guarded step C s acts) (hCD : ∀ s a, C s a → D s a) :
    Guarded step D s acts :=
  fun p a hp s₁ s₂ hrun ha => hCD s₁ a (h p a hp s₁ s₂ hrun ha)

/-- A guard may use what always holds. -/
theorem Guarded.mono_of_always {D : σ → α → Prop} (h : Guarded step C s acts)
    (hP : Always step P s acts) (hCD : ∀ s a, P s → C s a → D s a) : Guarded step D s acts :=
  fun p a hp s₁ s₂ hrun ha =>
    hCD s₁ a (hP p ((List.prefix_append _ _).trans hp) s₁ hrun) (h p a hp s₁ s₂ hrun ha)

theorem Guarded.of_forall (h : ∀ a ∈ acts, ∀ s, C s a) : Guarded step C s acts := by
  intro p a hp s' _ _ _
  exact h a (hp.subset (List.mem_append_right p List.mem_cons_self)) s'

/-- A machine that another one simulates step by step runs alike. -/
theorem run_map {τ β : Type} {step' : τ → β → Option τ} {f : σ → τ} {g : α → β}
    (h : ∀ s a, step' (f s) (g a) = (step s a).map f) (s : σ) (acts : List α) :
    run step' (f s) (acts.map g) = (run step s acts).map f := by
  induction acts generalizing s with
  | nil => rfl
  | cons a acts ih =>
    rw [List.map_cons, run_cons, run_cons, h]
    cases step s a with
    | none => rfl
    | some s₁ => exact ih s₁

/-- While some step of a kind lessens the work that is left, steps of that kind end it. -/
theorem exists_run_of_work (Own : α → Prop) (work : σ → Nat) (h0 : P s)
    (hstep : ∀ s, P s → ¬ Q s → ∃ a s', Own a ∧ step s a = some s' ∧ P s' ∧ work s' < work s) :
    ∃ acts s', (∀ a ∈ acts, Own a) ∧ run step s acts = some s' ∧ P s' ∧ Q s' := by
  induction hwork : work s using Nat.strongRecOn generalizing s with
  | ind n ih =>
    by_cases hQ : Q s
    · exact ⟨[], s, by simp, run_nil, h0, hQ⟩
    · obtain ⟨a, s₁, ha, hs₁, hP₁, hlt⟩ := hstep s h0 hQ
      obtain ⟨acts, s', hown, hrun, hend⟩ := ih (work s₁) (hwork ▸ hlt) hP₁ rfl
      refine ⟨a :: acts, s', ?_, ?_, hend⟩
      · intro b hb
        rcases List.mem_cons.1 hb with rfl | hb
        · exact ha
        · exact hown b hb
      · rw [run_cons, hs₁]
        exact hrun

end Transition
