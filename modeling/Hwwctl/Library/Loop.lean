import Mathlib.Logic.Relation
import Mathlib.Tactic.Common

/-!
# Loops as step functions

A loop is given by its body: from the state at the head of an iteration the body fails, leaves the
loop with a result, or goes on with a new state. `run` executes a bounded number of iterations;
`Visits` relates the entry state to the states at the heads of the later iterations, which is what
invariants and termination arguments speak about.
-/

namespace Loop

/-- How one iteration ends. -/
inductive Flow (σ ρ : Type) where
  /-- On to the next iteration. -/
  | next (s : σ)
  /-- Out of the loop. -/
  | done (r : ρ)
deriving DecidableEq

variable {ε σ ρ : Type} (body : σ → Except ε (Flow σ ρ))

/-- At most `fuel` iterations from `s`; `none` when the loop is still running after them. -/
def run : Nat → σ → Option (Except ε ρ)
  | 0, _ => none
  | fuel + 1, s =>
    match body s with
    | .error e => some (.error e)
    | .ok (.done r) => some (.ok r)
    | .ok (.next s') => run fuel s'

/-- The loop entered at `s` ends, with outcome `o`. -/
def EndsWith (s : σ) (o : Except ε ρ) : Prop := ∃ fuel, run body fuel s = some o

/-- One iteration leads from `s` to `s'`. -/
def Continues (s s' : σ) : Prop := body s = .ok (.next s')

/-- The loop entered at `s` comes to `s'` after some iterations. -/
def Visits : σ → σ → Prop := Relation.ReflTransGen (Continues body)

variable {body} {s s' : σ} {o o' : Except ε ρ}

theorem run_succ_of_some {fuel : Nat} (h : run body fuel s = some o) :
    run body (fuel + 1) s = some o := by
  induction fuel generalizing s with
  | zero => cases h
  | succ fuel ih =>
    rw [run] at h ⊢
    cases hb : body s with
    | error e => simpa [hb] using h
    | ok f =>
      cases f with
      | done r => simpa [hb] using h
      | next s' => exact ih (by simpa [hb] using h)

theorem run_mono {n m : Nat} (hnm : n ≤ m) (h : run body n s = some o) : run body m s = some o := by
  induction hnm with
  | refl => exact h
  | step _ ih => exact run_succ_of_some ih

/-- The outcome does not depend on how much fuel it took. -/
theorem EndsWith.unique (h : EndsWith body s o) (h' : EndsWith body s o') : o = o' := by
  obtain ⟨n, hn⟩ := h
  obtain ⟨m, hm⟩ := h'
  have h1 := run_mono (Nat.le_max_left n m) hn
  have h2 := run_mono (Nat.le_max_right n m) hm
  exact Option.some.inj (h1.symm.trans h2)

theorem EndsWith.of_error {e : ε} (h : body s = .error e) : EndsWith body s (.error e) :=
  ⟨1, by simp [run, h]⟩

theorem EndsWith.of_done {r : ρ} (h : body s = .ok (.done r)) : EndsWith body s (.ok r) :=
  ⟨1, by simp [run, h]⟩

theorem EndsWith.of_continues (h : Continues body s s') (hs' : EndsWith body s' o) :
    EndsWith body s o := by
  obtain ⟨n, hn⟩ := hs'
  exact ⟨n + 1, by rw [run, show body s = .ok (.next s') from h]; exact hn⟩

theorem EndsWith.of_visits (hv : Visits body s s') (h : EndsWith body s' o) :
    EndsWith body s o := by
  induction hv using Relation.ReflTransGen.head_induction_on with
  | refl => exact h
  | head hstep _ ih => exact .of_continues hstep ih

/-- Where the loop ends, it ends from every state it comes by, with the same outcome. -/
theorem EndsWith.forward (h : EndsWith body s o) (hv : Visits body s s') : EndsWith body s' o := by
  induction hv with
  | refl => exact h
  | tail _ hstep ih =>
    obtain ⟨n, hn⟩ := ih
    cases n with
    | zero => cases hn
    | succ n =>
      refine ⟨n, ?_⟩
      rw [run, show body _ = .ok (.next _) from hstep] at hn
      exact hn

/-- A loop whose iterations all decrease a measure ends. -/
theorem ends_of_measure (μ : σ → Nat)
    (hdec : ∀ a b, Visits body s a → Continues body a b → μ b < μ a) : ∃ o, EndsWith body s o := by
  have main : ∀ k a, μ a = k → Visits body s a → ∃ o, EndsWith body a o := by
    intro k
    induction k using Nat.strongRecOn with
    | ind k ih =>
      intro a hk hv
      cases hb : body a with
      | error e => exact ⟨_, EndsWith.of_error hb⟩
      | ok f =>
        cases f with
        | done r => exact ⟨_, EndsWith.of_done hb⟩
        | next b =>
          obtain ⟨o, ho⟩ := ih (μ b) (by rw [← hk]; exact hdec a b hv hb) b rfl (hv.tail hb)
          exact ⟨o, EndsWith.of_continues hb ho⟩
  exact main _ s rfl .refl

/-- A loop that ends without failing has no failing iteration. -/
theorem EndsWith.no_error {r : ρ} (h : EndsWith body s (.ok r)) (hv : Visits body s s') (e : ε) :
    body s' ≠ .error e := by
  intro he
  have := (h.forward hv).unique (EndsWith.of_error he)
  cases this

/-- A loop that ends and has no failing iteration ends with a result. -/
theorem EndsWith.exists_ok (h : EndsWith body s o)
    (hno : ∀ a, Visits body s a → ∀ e, body a ≠ .error e) : ∃ r, EndsWith body s (.ok r) := by
  cases o with
  | ok r => exact ⟨r, h⟩
  | error e =>
    exfalso
    obtain ⟨n, hn⟩ := h
    induction n generalizing s with
    | zero => cases hn
    | succ n ih =>
      rw [run] at hn
      cases hb : body s with
      | error e' => exact hno s .refl e' hb
      | ok f =>
        cases f with
        | done r => simp [hb] at hn
        | next s' =>
          exact ih (fun a ha => hno a (.head hb ha)) (by simpa [hb] using hn)

end Loop
