import Mathlib.Tactic.Common

/-!
# Stateful code that may fail

An `Act` changes a state and ends with a value or an error; the state it leaves behind is there in
both cases, which is what clean-up code is about. `Post` is its weakest precondition, with one
postcondition for each way to end.
-/

abbrev Act (ε σ α : Type) := ExceptT ε (StateM σ) α

namespace Act

variable {ε σ α β : Type}

def fail (e : ε) : Act ε σ α := throw e

/-- An operation that cannot fail. -/
def update (f : σ → α × σ) : Act ε σ α := fun s =>
  let (a, s') := f s
  (.ok a, s')

/-- Whatever the error was, `e` is reported. -/
def context {ε' : Type} (x : Act ε σ α) (e : ε') : Act ε' σ α := fun s =>
  match x s with
  | (.ok a, s') => (.ok a, s')
  | (.error _, s') => (.error e, s')

/-- Go on with `h` behind an error. -/
def handle {ε' : Type} (x : Act ε σ α) (h : ε → Act ε' σ α) : Act ε' σ α := fun s =>
  match x s with
  | (.ok a, s') => (.ok a, s')
  | (.error e, s') => h e s'

/-- Go on whether `x` fails or not. -/
def ignore {ε' : Type} (x : Act ε σ Unit) : Act ε' σ Unit := fun s => (.ok (), (x s).2)

/-- Run `x` on a part of the state. -/
def within {τ : Type} (get : τ → σ) (set : σ → τ → τ) (x : Act ε σ α) : Act ε τ α := fun s =>
  let (r, part) := x (get s)
  (r, set part s)

theorem run_pure (a : α) (s : σ) : (pure a : Act ε σ α) s = (.ok a, s) := rfl

theorem run_bind (x : Act ε σ α) (f : α → Act ε σ β) (s : σ) :
    (x >>= f) s = match x s with
      | (.ok a, s') => f a s'
      | (.error e, s') => (.error e, s') := by
  simp only [bind, ExceptT.bind, ExceptT.mk, StateT.bind, ExceptT.bindCont]
  cases hx : x s with
  | mk r s' => cases r <;> rfl

theorem run_context {ε' : Type} (x : Act ε σ α) (e : ε') (s : σ) :
    (x.context e) s = match x s with
      | (.ok a, s') => (.ok a, s')
      | (.error _, s') => (.error e, s') := rfl

theorem context_state {ε' : Type} (x : Act ε σ α) (e : ε') (s : σ) :
    ((x.context e) s).2 = (x s).2 := by
  rw [run_context]
  generalize x s = out
  obtain ⟨_ | _, _⟩ := out <;> rfl

/-- Contexts make no difference to the state. -/
theorem context_bind_state {ε' : Type} (x : Act ε σ α) (y : α → Act ε σ β) (e e' : ε') (s : σ) :
    ((x.context e >>= fun a => (y a).context e') s).2 = ((x >>= y) s).2 := by
  rw [run_bind, run_bind, run_context]
  generalize x s = out
  obtain ⟨_ | a, s'⟩ := out
  · rfl
  · exact context_state (y a) e' s'

/-! A run that is known to end with an error. -/

theorem bind_error {x : Act ε σ α} {f : α → Act ε σ β} {s s' : σ} {e : ε}
    (h : (x >>= f) s = (.error e, s')) :
    x s = (.error e, s') ∨ ∃ a s₁, x s = (.ok a, s₁) ∧ f a s₁ = (.error e, s') := by
  rw [run_bind] at h
  generalize x s = out at h ⊢
  obtain ⟨_ | a, s₁⟩ := out
  · cases h
    exact Or.inl rfl
  · exact Or.inr ⟨a, s₁, rfl, h⟩

/-- A run that ends with a value. -/
theorem bind_ok {x : Act ε σ α} {f : α → Act ε σ β} {s s' : σ} {b : β}
    (h : (x >>= f) s = (.ok b, s')) : ∃ a s₁, x s = (.ok a, s₁) ∧ f a s₁ = (.ok b, s') := by
  rw [run_bind] at h
  generalize x s = out at h ⊢
  obtain ⟨_ | a, s₁⟩ := out
  · cases h
  · exact ⟨a, s₁, rfl, h⟩

/-- A run that ends in some way. -/
theorem bind_cases {x : Act ε σ α} {f : α → Act ε σ β} {s s' : σ} {r : Except ε β}
    (h : (x >>= f) s = (r, s')) :
    (∃ e, x s = (.error e, s') ∧ r = .error e) ∨ ∃ a s₁, x s = (.ok a, s₁) ∧ f a s₁ = (r, s') := by
  cases r with
  | error e =>
    rcases bind_error h with hx | hf
    · exact Or.inl ⟨e, hx, rfl⟩
    · exact Or.inr hf
  | ok b => exact Or.inr (bind_ok h)

theorem context_error {ε' : Type} {x : Act ε σ α} {s s' : σ} {e e' : ε'}
    (h : (x.context e) s = (.error e', s')) : ∃ e₁, x s = (.error e₁, s') := by
  rw [run_context] at h
  generalize x s = out at h ⊢
  obtain ⟨e₁ | a, s₁⟩ := out
  · cases h
    exact ⟨e₁, rfl⟩
  · cases h

theorem context_ok {ε' : Type} {x : Act ε σ α} {s s' : σ} {e : ε'} {a : α}
    (h : (x.context e) s = (.ok a, s')) : x s = (.ok a, s') := by
  rw [run_context] at h
  generalize x s = out at h ⊢
  obtain ⟨e₁ | a, s₁⟩ := out
  · cases h
  · cases h
    rfl

/-- Either `x` or what handles its error has ended so. -/
theorem handle_cases {ε' : Type} {x : Act ε σ α} {handler : ε → Act ε' σ α} {s s' : σ}
    {r : Except ε' α} (h : (x.handle handler) s = (r, s')) :
    (∃ a, x s = (.ok a, s') ∧ r = .ok a) ∨
      ∃ e s₁, x s = (.error e, s₁) ∧ handler e s₁ = (r, s') := by
  unfold handle at h
  generalize x s = out at h ⊢
  obtain ⟨e | a, s₁⟩ := out
  · exact Or.inr ⟨e, s₁, rfl, h⟩
  · cases h
    exact Or.inl ⟨a, rfl, rfl⟩

/-- From `s`, `x` ends with a value and a state in `Q` or with an error and a state in `E`. -/
def Post (x : Act ε σ α) (s : σ) (Q : α → σ → Prop) (E : ε → σ → Prop) : Prop :=
  match x s with
  | (.ok a, s') => Q a s'
  | (.error e, s') => E e s'

variable {x : Act ε σ α} {f : α → Act ε σ β} {s s' : σ} {Q Q' : α → σ → Prop} {R : β → σ → Prop}
  {E : ε → σ → Prop}

theorem Post.ok {a : α} (h : Post x s Q E) (hx : x s = (.ok a, s')) : Q a s' := by
  unfold Post at h
  rw [hx] at h
  exact h

theorem Post.error {e : ε} (h : Post x s Q E) (hx : x s = (.error e, s')) : E e s' := by
  unfold Post at h
  rw [hx] at h
  exact h

theorem Post.pure {a : α} (h : Q a s) : Post (Pure.pure a : Act ε σ α) s Q E := h

theorem Post.fail {e : ε} (h : E e s) : Post (Act.fail e : Act ε σ α) s Q E := h

theorem Post.update {g : σ → α × σ} (h : Q (g s).1 (g s).2) :
    Post (Act.update g : Act ε σ α) s Q E := h

theorem Post.bind (hx : Post x s Q E) (hf : ∀ a s', Q a s' → Post (f a) s' R E) :
    Post (x >>= f) s R E := by
  unfold Post at hx ⊢
  rw [run_bind]
  cases hr : x s with
  | mk r s' =>
    rw [hr] at hx
    cases r with
    | ok a => exact hf a s' hx
    | error e => exact hx

theorem Post.mono {E' : ε → σ → Prop} (h : Post x s Q E) (hQ : ∀ a s', Q a s' → Q' a s')
    (hE : ∀ e s', E e s' → E' e s') : Post x s Q' E' := by
  unfold Post at h ⊢
  split at h
  · exact hQ _ _ h
  · exact hE _ _ h

/-! ## What every run does to the state -/

/-- Every run of `x`, failed or not, leads from a state to one that `R` relates it to. -/
def Within (R : σ → σ → Prop) (x : Act ε σ α) : Prop := ∀ s, R s (x s).2

variable {R : σ → σ → Prop}

theorem Within.pure {a : α} (hrefl : ∀ s, R s s) : Within R (Pure.pure a : Act ε σ α) := hrefl

theorem Within.fail {e : ε} (hrefl : ∀ s, R s s) : Within R (Act.fail e : Act ε σ α) := hrefl

theorem Within.context {ε' : Type} (hx : Within R x) (e : ε') : Within R (x.context e) := by
  intro s
  have hs := hx s
  rw [run_context]
  generalize x s = out at hs ⊢
  obtain ⟨_ | _, _⟩ := out <;> exact hs

theorem Within.bind (htrans : ∀ a b c, R a b → R b c → R a c) (hx : Within R x)
    (hf : ∀ a, Within R (f a)) : Within R (x >>= f) := by
  intro s
  have hs := hx s
  rw [run_bind]
  generalize x s = out at hs ⊢
  obtain ⟨_ | a, s'⟩ := out
  · exact hs
  · exact htrans _ _ _ hs (hf a s')

theorem Within.forM {xs : List α} {g : α → Act ε σ Unit} (hrefl : ∀ s, R s s)
    (htrans : ∀ a b c, R a b → R b c → R a c) (hg : ∀ a ∈ xs, Within R (g a)) :
    Within R (xs.forM g) := by
  induction xs with
  | nil => exact .pure hrefl
  | cons a xs ih =>
    have hxs : Within R (xs.forM g) := ih fun b hb => hg b (List.mem_cons_of_mem a hb)
    exact (hg a List.mem_cons_self).bind htrans fun _ => hxs

/-! ## Runs from two states -/

/-- From states that `R` relates, `x` ends alike and in such states again. -/
def Respects (R : σ → σ → Prop) (x : Act ε σ α) : Prop :=
  ∀ s s', R s s' → (x s).1 = (x s').1 ∧ R (x s).2 (x s').2

theorem Respects.pure {a : α} : Respects R (Pure.pure a : Act ε σ α) := fun _ _ h => ⟨rfl, h⟩

theorem Respects.fail {e : ε} : Respects R (Act.fail e : Act ε σ α) := fun _ _ h => ⟨rfl, h⟩

theorem Respects.context {ε' : Type} (hx : Respects R x) (e : ε') : Respects R (x.context e) := by
  intro s s' h
  obtain ⟨hresult, hstate⟩ := hx s s' h
  rw [run_context, run_context]
  generalize x s = out at hresult hstate ⊢
  generalize x s' = out' at hresult hstate ⊢
  obtain ⟨_ | _, _⟩ := out <;> obtain ⟨_ | _, _⟩ := out' <;> cases hresult <;> exact ⟨rfl, hstate⟩

theorem Respects.bind (hx : Respects R x) (hf : ∀ a, Respects R (f a)) : Respects R (x >>= f) := by
  intro s s' h
  obtain ⟨hresult, hstate⟩ := hx s s' h
  rw [run_bind, run_bind]
  generalize x s = out at hresult hstate ⊢
  generalize x s' = out' at hresult hstate ⊢
  obtain ⟨_ | a, s₁⟩ := out
  · obtain ⟨_ | _, _⟩ := out' <;> cases hresult
    exact ⟨rfl, hstate⟩
  · obtain ⟨_ | _, s₁'⟩ := out' <;> cases hresult
    exact hf a s₁ s₁' hstate

theorem Respects.forM {xs : List α} {g : α → Act ε σ Unit} (hg : ∀ a, Respects R (g a)) :
    Respects R (xs.forM g) := by
  induction xs with
  | nil => exact .pure
  | cons a xs ih => exact (hg a).bind fun _ => ih

end Act
