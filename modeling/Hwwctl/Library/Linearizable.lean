import Hwwctl.Library.Transition
import Mathlib.Data.List.Nodup
import Mathlib.Data.List.Pairwise
import Mathlib.Logic.Function.Basic

/-!
# Linearizability

Many clients call the operations of one object at once. What they see is a history of calls and
returns. It is linearizable if the operations that took effect can be put in one order in which the
object, doing one at a time, gives the very replies the clients got, and in which no operation
stands before one that had returned before it was called. An object that does every operation in
one step between its call and its return is linearizable by the order of these steps, and so is
every machine that simulates such an object.
-/

namespace Linearizable

/-- What the clients see. The number names the operation. -/
inductive Event (ω ρ : Type) where
  | call (i : Nat) (op : ω)
  | ret (i : Nat) (reply : ρ)
deriving DecidableEq, Repr

/-- An operation that took effect. -/
structure Entry (ω ρ : Type) where
  id : Nat
  op : ω
  reply : ρ

variable {σ τ ω ρ α : Type} {spec : ω → σ → ρ → σ → Prop}

/-! ## Legal orders -/

/-- The entries, one after the other, lead from the first state to the second. -/
inductive Legal (spec : ω → σ → ρ → σ → Prop) (s : σ) : List (Entry ω ρ) → σ → Prop where
  | nil : Legal spec s [] s
  | concat {lin : List (Entry ω ρ)} {e : Entry ω ρ} {s' s'' : σ} (h : Legal spec s lin s')
    (he : spec e.op s' e.reply s'') : Legal spec s (lin ++ [e]) s''

theorem Legal.nil_inv {s s' : σ} (h : Legal spec s [] s') : s = s' := by
  generalize hl : ([] : List (Entry ω ρ)) = l at h
  cases h with
  | nil => rfl
  | concat => simp at hl

theorem Legal.concat_inv {s s'' : σ} {lin : List (Entry ω ρ)} {e : Entry ω ρ}
    (h : Legal spec s (lin ++ [e]) s'') :
    ∃ s', Legal spec s lin s' ∧ spec e.op s' e.reply s'' := by
  generalize hl : lin ++ [e] = l at h
  cases h with
  | nil => simp at hl
  | concat h he =>
    obtain ⟨rfl, heq⟩ := List.append_inj' hl rfl
    obtain rfl := List.singleton_inj.1 heq
    exact ⟨_, h, he⟩

/-- A legal order, cut in two. -/
theorem Legal.append_inv {s s'' : σ} {lin lin' : List (Entry ω ρ)}
    (h : Legal spec s (lin ++ lin') s'') :
    ∃ s', Legal spec s lin s' ∧ Legal spec s' lin' s'' := by
  induction lin' using List.reverseRecOn generalizing s'' with
  | nil => exact ⟨s'', by simpa using h, .nil⟩
  | append_singleton lin' e ih =>
    rw [← List.append_assoc] at h
    obtain ⟨s₁, hinit, he⟩ := h.concat_inv
    obtain ⟨s', hlin, hlin'⟩ := ih hinit
    exact ⟨s', hlin, hlin'.concat he⟩

theorem Legal.cons_inv {s s'' : σ} {lin : List (Entry ω ρ)} {e : Entry ω ρ}
    (h : Legal spec s (e :: lin) s'') :
    ∃ s', spec e.op s e.reply s' ∧ Legal spec s' lin s'' := by
  have hcut : Legal spec s ([e] ++ lin) s'' := h
  obtain ⟨s', hone, hlin⟩ := hcut.append_inv
  have hlast : Legal spec s ([] ++ [e]) s' := hone
  obtain ⟨s₁, hnil, he⟩ := hlast.concat_inv
  obtain rfl := hnil.nil_inv
  exact ⟨s', he, hlin⟩

theorem Legal.cons {s s' s'' : σ} {lin : List (Entry ω ρ)} {e : Entry ω ρ}
    (he : spec e.op s e.reply s') (h : Legal spec s' lin s'') : Legal spec s (e :: lin) s'' := by
  induction h with
  | nil => exact Legal.concat .nil he
  | concat _ he' ih => exact ih.concat he'

/-- What every operation keeps holds at the end of a legal order. -/
theorem Legal.invariant {P : σ → Prop} {s s' : σ} {lin : List (Entry ω ρ)}
    (h : Legal spec s lin s') (h0 : P s)
    (hspec : ∀ op s reply s', P s → spec op s reply s' → P s') : P s' := by
  induction h with
  | nil => exact h0
  | concat _ he ih => exact hspec _ _ _ _ ih he

/-- What changes between two states of a legal order is changed by one of its entries. -/
theorem Legal.exists_change {P Q : σ → Prop} {s s' : σ} {lin : List (Entry ω ρ)}
    (h : Legal spec s lin s') (hQ : Q s)
    (hkeep : ∀ op s reply s', Q s → spec op s reply s' → Q s') (hs : ¬ P s) (hs' : P s') :
    ∃ e ∈ lin, ∃ s₁ s₂, Q s₁ ∧ ¬ P s₁ ∧ spec e.op s₁ e.reply s₂ ∧ P s₂ := by
  induction h with
  | nil => exact absurd hs' hs
  | @concat lin e s₁ s₂ hlin he ih =>
    by_cases hP : P s₁
    · obtain ⟨e', hmem, hrest⟩ := ih hP
      exact ⟨e', List.mem_append_left _ hmem, hrest⟩
    · have hQ₁ : Q s₁ := hlin.invariant hQ hkeep
      exact ⟨e, List.mem_append_right _ List.mem_cons_self, s₁, s₂, hQ₁, hP, he, hs'⟩

/-! ## Histories -/

/-- `i` had returned before `j` was called. -/
def Precedes (h : List (Event ω ρ)) (i j : Nat) : Prop :=
  ∃ p q, h = p ++ q ∧ (∃ reply, .ret i reply ∈ p) ∧ ∃ op, .call j op ∈ q

def Event.callId : Event ω ρ → Option Nat
  | .call i _ => some i
  | .ret _ _ => none

def Event.retId : Event ω ρ → Option Nat
  | .call _ _ => none
  | .ret i _ => some i

/-- Every operation is called once, and returns at most once and after its call. -/
structure WellFormed (h : List (Event ω ρ)) : Prop where
  calls : (h.filterMap Event.callId).Nodup
  rets : (h.filterMap Event.retId).Nodup
  callFirst : ∀ p q i reply, h = p ++ .ret i reply :: q → ∃ op, .call i op ∈ p

/-- The order accounts for the history: it leads the object from `s₀` to `s`, every entry was
called, every operation that returned stands in it with the reply it returned, and no entry stands
before one that precedes it. -/
structure Linearizes (spec : ω → σ → ρ → σ → Prop) (s₀ : σ) (h : List (Event ω ρ))
    (lin : List (Entry ω ρ)) (s : σ) : Prop where
  wellFormed : WellFormed h
  legal : Legal spec s₀ lin s
  nodup : (lin.map (·.id)).Nodup
  called : ∀ e ∈ lin, .call e.id e.op ∈ h
  answered : ∀ i reply, .ret i reply ∈ h → ∃ e ∈ lin, e.id = i ∧ e.reply = reply
  ordered : lin.Pairwise fun e e' => ¬ Precedes h e'.id e.id

theorem WellFormed.call_inj {h : List (Event ω ρ)} (hw : WellFormed h) {i : Nat} {op op' : ω}
    (hcall : .call i op ∈ h) (hcall' : .call i op' ∈ h) : op = op' := by
  by_contra hne
  have hpair := List.pairwise_filterMap.1 hw.calls
  have hsymm : Std.Symm fun e e' : Event ω ρ =>
      ∀ j, e.callId = some j → ∀ j', e'.callId = some j' → j ≠ j' := by
    refine ⟨?_⟩
    intro e e' hdiff j hj j' hj'
    exact (hdiff j' hj' j hj).symm
  have hevents : (Event.call i op : Event ω ρ) ≠ .call i op' := by
    intro heq
    cases heq
    exact hne rfl
  exact hpair.forall hcall hcall' hevents i rfl i rfl rfl

theorem WellFormed.not_precedes_self {h : List (Event ω ρ)} (hw : WellFormed h) (i : Nat) :
    ¬ Precedes h i i := by
  rintro ⟨p, q, rfl, ⟨reply, hret⟩, op, hcall⟩
  obtain ⟨p₁, p₂, rfl⟩ := List.append_of_mem hret
  rw [List.append_assoc, List.cons_append] at hw
  obtain ⟨op', hcall'⟩ := hw.callFirst p₁ (p₂ ++ q) i reply rfl
  have hcalls := hw.calls
  rw [List.filterMap_append] at hcalls
  have hdisjoint := (List.nodup_append'.1 hcalls).2.2
  have hfirst : i ∈ p₁.filterMap Event.callId := List.mem_filterMap.2 ⟨_, hcall', rfl⟩
  have hsecond : i ∈ (Event.ret i reply :: (p₂ ++ q)).filterMap Event.callId :=
    List.mem_filterMap.2 ⟨_, List.mem_cons_of_mem _ (List.mem_append_right _ hcall), rfl⟩
  exact hdisjoint hfirst hsecond

/-- An entry that precedes another stands before it, and the object is in some state after the one
and before the other. -/
theorem Linearizes.between {s₀ s : σ} {h : List (Event ω ρ)} {lin : List (Entry ω ρ)}
    (hl : Linearizes spec s₀ h lin s) {e e' : Entry ω ρ} (he : e ∈ lin) (he' : e' ∈ lin)
    (hprec : Precedes h e.id e'.id) :
    ∃ l₁ l₂ l₃ s₁ s₂ s₃ s₄, lin = l₁ ++ e :: (l₂ ++ e' :: l₃) ∧ Legal spec s₀ l₁ s₁ ∧
      spec e.op s₁ e.reply s₂ ∧ Legal spec s₂ l₂ s₃ ∧ spec e'.op s₃ e'.reply s₄ := by
  obtain ⟨l₁, rest, rfl⟩ := List.append_of_mem he
  have hordered := hl.ordered
  have hrest : e' ∈ rest := by
    rcases List.mem_append.1 he' with hmem | hmem
    · have hno := (List.pairwise_append.1 hordered).2.2 e' hmem e List.mem_cons_self
      exact absurd hprec hno
    · rcases List.mem_cons.1 hmem with heq | hmem
      · rw [heq] at hprec
        exact absurd hprec (hl.wellFormed.not_precedes_self e.id)
      · exact hmem
  obtain ⟨l₂, l₃, rfl⟩ := List.append_of_mem hrest
  obtain ⟨s₁, h₁, htail⟩ := hl.legal.append_inv
  obtain ⟨s₂, h₂, htail⟩ := htail.cons_inv
  obtain ⟨s₃, h₃, htail⟩ := htail.append_inv
  obtain ⟨s₄, h₄, -⟩ := htail.cons_inv
  exact ⟨l₁, l₂, l₃, s₁, s₂, s₃, s₄, rfl, h₁, h₂, h₃, h₄⟩

/-- The entry of an operation that returned. -/
theorem Linearizes.entry_of_ret {s₀ s : σ} {h : List (Event ω ρ)} {lin : List (Entry ω ρ)}
    (hl : Linearizes spec s₀ h lin s) {i : Nat} {op : ω} {reply : ρ} (hcall : .call i op ∈ h)
    (hret : .ret i reply ∈ h) : ⟨i, op, reply⟩ ∈ lin := by
  obtain ⟨e, he, rfl, rfl⟩ := hl.answered i reply hret
  obtain rfl := hl.wellFormed.call_inj hcall (hl.called e he)
  exact he

/-- Where one operation leaves a property false and a later one finds it true, a third one that was
called before the later one returned, and did not return before the first one was called, has made
it true. -/
theorem Linearizes.exists_change {P Q : σ → Prop} {s₀ s : σ} {h : List (Event ω ρ)}
    {lin : List (Entry ω ρ)} (hl : Linearizes spec s₀ h lin s) {e e' : Entry ω ρ} (he : e ∈ lin)
    (he' : e' ∈ lin) (hprec : Precedes h e.id e'.id) (h0 : Q s₀)
    (hkeep : ∀ op s reply s', Q s → spec op s reply s' → Q s')
    (hafter : ∀ s s', Q s → spec e.op s e.reply s' → ¬ P s')
    (hbefore : ∀ s s', Q s → spec e'.op s e'.reply s' → P s) :
    ∃ k ∈ lin, ¬ Precedes h k.id e.id ∧ ¬ Precedes h e'.id k.id ∧
      ∃ s₁ s₂, Q s₁ ∧ ¬ P s₁ ∧ spec k.op s₁ k.reply s₂ ∧ P s₂ := by
  obtain ⟨l₁, l₂, l₃, s₁, s₂, s₃, s₄, rfl, hl₁, hspec, hl₂, hspec'⟩ :=
    hl.between he he' hprec
  have hQ₁ : Q s₁ := hl₁.invariant h0 hkeep
  have hQ₂ : Q s₂ := hkeep _ _ _ _ hQ₁ hspec
  have hQ₃ : Q s₃ := hl₂.invariant hQ₂ hkeep
  obtain ⟨k, hk, hchange⟩ :=
    hl₂.exists_change hQ₂ hkeep (hafter _ _ hQ₁ hspec) (hbefore _ _ hQ₃ hspec')
  have htail := (List.pairwise_append.1 hl.ordered).2.1
  have hfirst := (List.pairwise_cons.1 htail).1 k (List.mem_append_left _ hk)
  have hmiddle := (List.pairwise_append.1 (List.pairwise_cons.1 htail).2).2.2
  have hlast := hmiddle k hk e' List.mem_cons_self
  refine ⟨k, ?_, hfirst, hlast, hchange⟩
  exact List.mem_append_right _ (List.mem_cons_of_mem _ (List.mem_append_left _ hk))

/-! ## The atomic object -/

/-- How far an operation is. -/
inductive Status (ω ρ : Type) where
  | fresh
  | pending (op : ω)
  /-- It took effect and has not returned. -/
  | answered (reply : ρ)
  | over

structure Atomic (σ ω ρ : Type) where
  obj : σ
  status : Nat → Status ω ρ

inductive Move (ω ρ : Type) where
  | call (i : Nat) (op : ω)
  | effect (i : Nat) (op : ω) (reply : ρ)
  | ret (i : Nat) (reply : ρ)

def Move.event : Move ω ρ → Option (Event ω ρ)
  | .call i op => some (.call i op)
  | .effect _ _ _ => none
  | .ret i reply => some (.ret i reply)

def Move.entry : Move ω ρ → Option (Entry ω ρ)
  | .effect i op reply => some ⟨i, op, reply⟩
  | _ => none

def events (ms : List (Move ω ρ)) : List (Event ω ρ) := ms.filterMap Move.event

def effects (ms : List (Move ω ρ)) : List (Entry ω ρ) := ms.filterMap Move.entry

namespace Atomic

def start (s : σ) : Atomic σ ω ρ := ⟨s, fun _ => .fresh⟩

def setStatus (x : Atomic σ ω ρ) (i : Nat) (st : Status ω ρ) : Atomic σ ω ρ :=
  { x with status := Function.update x.status i st }

/-- An operation takes effect in one step, at some moment between its call and its return. -/
inductive Moves (spec : ω → σ → ρ → σ → Prop) (x : Atomic σ ω ρ) :
    Move ω ρ → Atomic σ ω ρ → Prop where
  | call {i : Nat} {op : ω} (h : x.status i = .fresh) :
    Moves spec x (.call i op) (x.setStatus i (.pending op))
  | effect {i : Nat} {op : ω} {reply : ρ} {s : σ} (h : x.status i = .pending op)
    (hspec : spec op x.obj reply s) :
    Moves spec x (.effect i op reply) { x.setStatus i (.answered reply) with obj := s }
  | ret {i : Nat} {reply : ρ} (h : x.status i = .answered reply) :
    Moves spec x (.ret i reply) (x.setStatus i .over)

inductive Runs (spec : ω → σ → ρ → σ → Prop) (x : Atomic σ ω ρ) :
    List (Move ω ρ) → Atomic σ ω ρ → Prop where
  | nil : Runs spec x [] x
  | concat {ms : List (Move ω ρ)} {m : Move ω ρ} {x' x'' : Atomic σ ω ρ} (h : Runs spec x ms x')
    (hm : Moves spec x' m x'') : Runs spec x (ms ++ [m]) x''

theorem Runs.append {x x' x'' : Atomic σ ω ρ} {ms ms' : List (Move ω ρ)} (h : Runs spec x ms x')
    (h' : Runs spec x' ms' x'') : Runs spec x (ms ++ ms') x'' := by
  induction h' with
  | nil => simpa using h
  | concat _ hm ih =>
    rw [← List.append_assoc]
    exact ih.concat hm

theorem Moves.runs {x x' : Atomic σ ω ρ} {m : Move ω ρ} (h : Moves spec x m x') :
    Runs spec x [m] x' :=
  Runs.concat .nil h

theorem setStatus_self (x : Atomic σ ω ρ) (i : Nat) (st : Status ω ρ) :
    (x.setStatus i st).status i = st := by
  simp only [setStatus, Function.update_self]

theorem setStatus_setStatus (x : Atomic σ ω ρ) (i : Nat) (st st' : Status ω ρ) :
    (x.setStatus i st).setStatus i st' = x.setStatus i st' := by
  simp only [setStatus, Function.update_idem]

theorem setStatus_ne (x : Atomic σ ω ρ) {i j : Nat} (h : j ≠ i) (st : Status ω ρ) :
    (x.setStatus i st).status j = x.status j := by
  simp only [setStatus, Function.update_of_ne h]

end Atomic

/-! ## The atomic object is linearizable -/

theorem events_concat (ms : List (Move ω ρ)) (m : Move ω ρ) :
    events (ms ++ [m]) = events ms ++ m.event.toList := by
  rw [events, List.filterMap_append]
  cases h : m.event <;> simp [events, h]

theorem effects_concat (ms : List (Move ω ρ)) (m : Move ω ρ) :
    effects (ms ++ [m]) = effects ms ++ m.entry.toList := by
  rw [effects, List.filterMap_append]
  cases h : m.entry <;> simp [effects, h]

theorem events_append (ms ms' : List (Move ω ρ)) : events (ms ++ ms') = events ms ++ events ms' :=
  List.filterMap_append

/-- A new call precedes nothing, and only what had returned precedes it. -/
theorem Precedes.of_call {h : List (Event ω ρ)} {i j k : Nat} {op : ω} (hk : k ≠ i)
    (hp : Precedes (h ++ [.call i op]) j k) : Precedes h j k := by
  obtain ⟨p, q, heq, hret, op', hcall⟩ := hp
  rcases List.eq_nil_or_concat q with rfl | ⟨q, x, rfl⟩
  · cases hcall
  · rw [List.concat_eq_append, ← List.append_assoc] at heq
    obtain ⟨rfl, hx⟩ := List.append_inj' heq rfl
    obtain rfl := List.singleton_inj.1 hx
    rw [List.concat_eq_append, List.mem_append] at hcall
    rcases hcall with hcall | hcall
    · exact ⟨p, q, rfl, hret, op', hcall⟩
    · cases List.mem_singleton.1 hcall
      exact absurd rfl hk

theorem Precedes.of_ret {h : List (Event ω ρ)} {i j k : Nat} {reply : ρ}
    (hp : Precedes (h ++ [.ret i reply]) j k) : Precedes h j k := by
  obtain ⟨p, q, heq, hret, op', hcall⟩ := hp
  rcases List.eq_nil_or_concat q with rfl | ⟨q, x, rfl⟩
  · cases hcall
  · rw [List.concat_eq_append, ← List.append_assoc] at heq
    obtain ⟨rfl, hx⟩ := List.append_inj' heq rfl
    obtain rfl := List.singleton_inj.1 hx
    rw [List.concat_eq_append, List.mem_append] at hcall
    rcases hcall with hcall | hcall
    · exact ⟨p, q, rfl, hret, op', hcall⟩
    · cases List.mem_singleton.1 hcall

theorem Precedes.ret_mem {h : List (Event ω ρ)} {i j : Nat} (hp : Precedes h i j) :
    ∃ reply, .ret i reply ∈ h := by
  obtain ⟨p, q, rfl, ⟨reply, hret⟩, -⟩ := hp
  exact ⟨reply, List.mem_append_left _ hret⟩

theorem WellFormed.nil : WellFormed ([] : List (Event ω ρ)) := by
  refine ⟨List.nodup_nil, List.nodup_nil, ?_⟩
  intro p q i reply h
  simp at h

theorem WellFormed.call {h : List (Event ω ρ)} {i : Nat} {op : ω} (hw : WellFormed h)
    (hno : ∀ op', .call i op' ∉ h) : WellFormed (h ++ [.call i op]) := by
  refine ⟨?_, ?_, ?_⟩
  · rw [List.filterMap_append]
    refine hw.calls.append (List.nodup_singleton i) ?_
    intro j hj hji
    obtain rfl := List.mem_singleton.1 hji
    obtain ⟨e, he, hid⟩ := List.mem_filterMap.1 hj
    cases e with
    | call k op' =>
      obtain rfl := Option.some.inj hid
      exact hno op' he
    | ret => cases hid
  · rw [List.filterMap_append]
    rw [show [Event.call i op].filterMap Event.retId = ([] : List Nat) from rfl, List.append_nil]
    exact hw.rets
  · intro p q j reply heq
    rcases List.eq_nil_or_concat q with rfl | ⟨q, e, rfl⟩
    · cases List.singleton_inj.1 (List.append_inj' heq rfl).2
    · rw [List.concat_eq_append, ← List.cons_append, ← List.append_assoc] at heq
      exact hw.callFirst p q j reply (List.append_inj' heq rfl).1

theorem WellFormed.ret {h : List (Event ω ρ)} {i : Nat} {reply : ρ} (hw : WellFormed h)
    (hcalled : ∃ op, .call i op ∈ h) (hno : ∀ reply', .ret i reply' ∉ h) :
    WellFormed (h ++ [.ret i reply]) := by
  refine ⟨?_, ?_, ?_⟩
  · rw [List.filterMap_append]
    rw [show [Event.ret i reply].filterMap Event.callId = ([] : List Nat) from rfl, List.append_nil]
    exact hw.calls
  · rw [List.filterMap_append]
    refine hw.rets.append (List.nodup_singleton i) ?_
    intro j hj hji
    obtain rfl := List.mem_singleton.1 hji
    obtain ⟨e, he, hid⟩ := List.mem_filterMap.1 hj
    cases e with
    | call => cases hid
    | ret k reply' =>
      obtain rfl := Option.some.inj hid
      exact hno reply' he
  · intro p q j reply' heq
    rcases List.eq_nil_or_concat q with rfl | ⟨q, e, rfl⟩
    · obtain ⟨rfl, hlast⟩ := List.append_inj' heq rfl
      cases List.singleton_inj.1 hlast
      exact hcalled
    · rw [List.concat_eq_append, ← List.cons_append, ← List.append_assoc] at heq
      exact hw.callFirst p q j reply' (List.append_inj' heq rfl).1

/-- The effects account for the events so far, and the status of an operation says which of its
events are among them. -/
structure Tracks (spec : ω → σ → ρ → σ → Prop) (s₀ : σ) (ms : List (Move ω ρ))
    (x : Atomic σ ω ρ) : Prop where
  linearizes : Linearizes spec s₀ (events ms) (effects ms) x.obj
  fresh : ∀ i, x.status i = .fresh → ∀ op, .call i op ∉ events ms
  pending : ∀ i op, x.status i = .pending op →
    .call i op ∈ events ms ∧ ∀ e ∈ effects ms, e.id ≠ i
  answered : ∀ i reply, x.status i = .answered reply →
    (∃ e ∈ effects ms, e.id = i ∧ e.reply = reply) ∧ ∀ reply', .ret i reply' ∉ events ms

theorem Tracks.start (s : σ) : Tracks spec s [] (Atomic.start s) := by
  refine ⟨⟨WellFormed.nil, .nil, List.nodup_nil, ?_, ?_, List.Pairwise.nil⟩, ?_, ?_, ?_⟩
  · intro e he
    cases he
  · intro i reply hret
    cases hret
  · intro i _ op hcall
    cases hcall
  · intro i op h
    cases h
  · intro i reply h
    cases h

variable {s₀ : σ} {ms : List (Move ω ρ)} {x x' : Atomic σ ω ρ}

theorem Tracks.call {i : Nat} {op : ω} (ht : Tracks spec s₀ ms x) (hi : x.status i = .fresh) :
    Tracks spec s₀ (ms ++ [.call i op]) (x.setStatus i (.pending op)) := by
  have hev : events (ms ++ [.call i op]) = events ms ++ [.call i op] := events_concat _ _
  have hef : effects (ms ++ [.call i op]) = effects ms := by
    rw [effects_concat]
    exact List.append_nil _
  have hnoCall : ∀ op', .call i op' ∉ events ms := ht.fresh i hi
  have hnoEntry : ∀ e ∈ effects ms, e.id ≠ i := by
    rintro e he rfl
    exact hnoCall e.op (ht.linearizes.called e he)
  refine ⟨?_, ?_, ?_, ?_⟩
  · rw [hev, hef]
    have hl := ht.linearizes
    refine ⟨hl.wellFormed.call hnoCall, hl.legal, hl.nodup, ?_, ?_, ?_⟩
    · intro e he
      exact List.mem_append_left _ (hl.called e he)
    · intro j reply hret
      rcases List.mem_append.1 hret with hret | hret
      · exact hl.answered j reply hret
      · cases List.mem_singleton.1 hret
    · refine hl.ordered.imp_of_mem ?_
      intro e e' he _ hno hp
      exact hno (hp.of_call (hnoEntry e he))
  · intro j hj op' hcall
    rw [hev, List.mem_append] at hcall
    by_cases hji : j = i
    · rw [hji, x.setStatus_self] at hj
      cases hj
    · rw [x.setStatus_ne hji] at hj
      rcases hcall with hcall | hcall
      · exact ht.fresh j hj op' hcall
      · cases List.mem_singleton.1 hcall
        exact hji rfl
  · intro j op' hj
    rw [hev, hef]
    by_cases hji : j = i
    · rw [hji, x.setStatus_self] at hj
      cases hj
      rw [hji]
      exact ⟨List.mem_append_right _ List.mem_cons_self, hnoEntry⟩
    · rw [x.setStatus_ne hji] at hj
      obtain ⟨hcall, hno⟩ := ht.pending j op' hj
      exact ⟨List.mem_append_left _ hcall, hno⟩
  · intro j reply hj
    rw [hev, hef]
    by_cases hji : j = i
    · rw [hji, x.setStatus_self] at hj
      cases hj
    · rw [x.setStatus_ne hji] at hj
      obtain ⟨hentry, hno⟩ := ht.answered j reply hj
      refine ⟨hentry, ?_⟩
      intro reply' hret
      rcases List.mem_append.1 hret with hret | hret
      · exact hno reply' hret
      · cases List.mem_singleton.1 hret

/-- An operation that is called and has not taken effect has not returned, so it may go last. -/
theorem Tracks.effect {i : Nat} {op : ω} {reply : ρ} {s : σ} (ht : Tracks spec s₀ ms x)
    (hi : x.status i = .pending op) (hspec : spec op x.obj reply s) :
    Tracks spec s₀ (ms ++ [.effect i op reply])
      { x.setStatus i (.answered reply) with obj := s } := by
  have hev : events (ms ++ [.effect i op reply]) = events ms := by
    rw [events_concat]
    exact List.append_nil _
  have hef : effects (ms ++ [.effect i op reply]) = effects ms ++ [⟨i, op, reply⟩] :=
    effects_concat _ _
  obtain ⟨hcalled, hnoEntry⟩ := ht.pending i op hi
  have hl := ht.linearizes
  have hnoRet : ∀ reply', .ret i reply' ∉ events ms := by
    intro reply' hret
    obtain ⟨e, he, hid, -⟩ := hl.answered i reply' hret
    exact hnoEntry e he hid
  refine ⟨?_, ?_, ?_, ?_⟩
  · rw [hev, hef]
    refine ⟨hl.wellFormed, hl.legal.concat hspec, ?_, ?_, ?_, ?_⟩
    · rw [List.map_append]
      refine hl.nodup.append (List.nodup_singleton _) ?_
      intro j hj hji
      obtain ⟨e, he, rfl⟩ := List.mem_map.1 hj
      exact hnoEntry e he (List.mem_singleton.1 hji)
    · intro e he
      rcases List.mem_append.1 he with he | he
      · exact hl.called e he
      · obtain rfl := List.mem_singleton.1 he
        exact hcalled
    · intro j reply' hret
      obtain ⟨e, he, hrest⟩ := hl.answered j reply' hret
      exact ⟨e, List.mem_append_left _ he, hrest⟩
    · refine List.pairwise_append.2 ⟨hl.ordered, List.pairwise_singleton _ _, ?_⟩
      intro e _ e' he' hp
      obtain rfl := List.mem_singleton.1 he'
      obtain ⟨reply', hret⟩ := hp.ret_mem
      exact hnoRet reply' hret
  · intro j hj
    rw [hev]
    by_cases hji : j = i
    · have hself := x.setStatus_self i (.answered reply)
      rw [hji] at hj
      cases hself.symm.trans hj
    · exact ht.fresh j ((x.setStatus_ne hji _).symm.trans hj)
  · intro j op' hj
    rw [hev, hef]
    by_cases hji : j = i
    · have hself := x.setStatus_self i (.answered reply)
      rw [hji] at hj
      cases hself.symm.trans hj
    · obtain ⟨hcall, hno⟩ := ht.pending j op' ((x.setStatus_ne hji _).symm.trans hj)
      refine ⟨hcall, ?_⟩
      intro e he
      rcases List.mem_append.1 he with he | he
      · exact hno e he
      · obtain rfl := List.mem_singleton.1 he
        exact Ne.symm hji
  · intro j reply' hj
    rw [hev, hef]
    by_cases hji : j = i
    · have hself := x.setStatus_self i (.answered reply)
      rw [hji] at hj
      cases hself.symm.trans hj
      rw [hji]
      exact ⟨⟨_, List.mem_append_right _ List.mem_cons_self, rfl, rfl⟩, hnoRet⟩
    · obtain ⟨⟨e, he, hrest⟩, hno⟩ := ht.answered j reply' ((x.setStatus_ne hji _).symm.trans hj)
      exact ⟨⟨e, List.mem_append_left _ he, hrest⟩, hno⟩

theorem Tracks.ret {i : Nat} {reply : ρ} (ht : Tracks spec s₀ ms x)
    (hi : x.status i = .answered reply) :
    Tracks spec s₀ (ms ++ [.ret i reply]) (x.setStatus i .over) := by
  have hev : events (ms ++ [.ret i reply]) = events ms ++ [.ret i reply] := events_concat _ _
  have hef : effects (ms ++ [.ret i reply]) = effects ms := by
    rw [effects_concat]
    exact List.append_nil _
  have hl := ht.linearizes
  obtain ⟨hentry, hnoRet⟩ := ht.answered i reply hi
  have hcalled : ∃ op, .call i op ∈ events ms := by
    obtain ⟨e, he, rfl, -⟩ := hentry
    exact ⟨e.op, hl.called e he⟩
  -- the status of the operation says nothing any more, that of the others is as before
  have hstatus : ∀ j st, (x.setStatus i .over).status j = st → st ≠ .over →
      j ≠ i ∧ x.status j = st := by
    intro j st hj hst
    by_cases hji : j = i
    · rw [hji, x.setStatus_self] at hj
      exact absurd hj.symm hst
    · rw [x.setStatus_ne hji] at hj
      exact ⟨hji, hj⟩
  refine ⟨?_, ?_, ?_, ?_⟩
  · rw [hev, hef]
    refine ⟨hl.wellFormed.ret hcalled hnoRet, hl.legal, hl.nodup, ?_, ?_, ?_⟩
    · intro e he
      exact List.mem_append_left _ (hl.called e he)
    · intro j reply' hret
      rcases List.mem_append.1 hret with hret | hret
      · exact hl.answered j reply' hret
      · cases List.mem_singleton.1 hret
        exact hentry
    · refine hl.ordered.imp ?_
      intro e e' hno hp
      exact hno hp.of_ret
  · intro j hj op hcall
    rw [hev, List.mem_append] at hcall
    rcases hcall with hcall | hcall
    · exact ht.fresh j (hstatus j _ hj (by simp)).2 op hcall
    · cases List.mem_singleton.1 hcall
  · intro j op hj
    rw [hev, hef]
    obtain ⟨hcall, hno⟩ := ht.pending j op (hstatus j _ hj (by simp)).2
    exact ⟨List.mem_append_left _ hcall, hno⟩
  · intro j reply' hj
    rw [hev, hef]
    obtain ⟨hji, hj⟩ := hstatus j _ hj (by simp)
    obtain ⟨hother, hno⟩ := ht.answered j reply' hj
    refine ⟨hother, ?_⟩
    intro reply'' hret
    rcases List.mem_append.1 hret with hret | hret
    · exact hno reply'' hret
    · cases List.mem_singleton.1 hret
      exact hji rfl

theorem Tracks.moves {m : Move ω ρ} (ht : Tracks spec s₀ ms x) (hm : Atomic.Moves spec x m x') :
    Tracks spec s₀ (ms ++ [m]) x' := by
  cases hm with
  | call hi => exact ht.call hi
  | effect hi hspec => exact ht.effect hi hspec
  | ret hi => exact ht.ret hi

/-- Every run of the atomic object linearizes by the order of its effects. -/
theorem Tracks.runs (h : Atomic.Runs spec (.start s₀) ms x) : Tracks spec s₀ ms x := by
  induction h with
  | nil => exact Tracks.start s₀
  | concat _ hm ih => exact ih.moves hm

/-! ## Simulation -/

variable {step : τ → α → Option τ} {shown : τ → α → List (Event ω ρ)}

/-- What the clients see of a schedule. -/
def history (step : τ → α → Option τ) (shown : τ → α → List (Event ω ρ)) (t : τ) :
    List α → List (Event ω ρ)
  | [] => []
  | a :: acts =>
    shown t a ++ match step t a with
      | some t' => history step shown t' acts
      | none => []

theorem history_concat {t t' : τ} {acts : List α} {a : α}
    (hrun : Transition.run step t acts = some t') :
    history step shown t (acts ++ [a]) = history step shown t acts ++ shown t' a := by
  induction acts generalizing t with
  | nil =>
    obtain rfl : t = t' := Option.some.inj (Transition.run_nil.symm.trans hrun)
    rw [List.nil_append, history, history, List.nil_append]
    cases step t a <;> exact List.append_nil _
  | cons b acts ih =>
    rw [Transition.run_cons] at hrun
    obtain ⟨t₁, hb, hrun⟩ := Option.bind_eq_some_iff.1 hrun
    simp only [List.cons_append, history, hb, ih hrun, List.append_assoc]

/-- Every step of the machine is some moves of the atomic object, of which the clients see the
same. -/
def Simulates (spec : ω → σ → ρ → σ → Prop) (step : τ → α → Option τ)
    (shown : τ → α → List (Event ω ρ)) (R : τ → Atomic σ ω ρ → Prop) : Prop :=
  ∀ t a t' x, R t x → step t a = some t' →
    ∃ ms x', Atomic.Runs spec x ms x' ∧ events ms = shown t a ∧ R t' x'

theorem Simulates.runs {R : τ → Atomic σ ω ρ → Prop} (hsim : Simulates spec step shown R) {t t' : τ}
    {acts : List α} (hR : R t x) (hrun : Transition.run step t acts = some t') :
    ∃ ms x', Atomic.Runs spec x ms x' ∧ events ms = history step shown t acts ∧ R t' x' := by
  induction acts generalizing t x with
  | nil =>
    obtain rfl : t = t' := Option.some.inj (Transition.run_nil.symm.trans hrun)
    exact ⟨[], x, .nil, rfl, hR⟩
  | cons a acts ih =>
    rw [Transition.run_cons] at hrun
    obtain ⟨t₁, ha, hrun⟩ := Option.bind_eq_some_iff.1 hrun
    obtain ⟨ms, x₁, hms, hev, hR₁⟩ := hsim t a t₁ x hR ha
    obtain ⟨ms', x', hms', hev', hR'⟩ := ih hR₁ hrun
    refine ⟨ms ++ ms', x', hms.append hms', ?_, hR'⟩
    rw [events_append, hev, hev', history, ha]

/-- A machine that simulates the atomic object is linearizable. -/
theorem Simulates.linearizes {R : τ → Atomic σ ω ρ → Prop} (hsim : Simulates spec step shown R)
    {t t' : τ} {acts : List α} (hR : R t (.start s₀))
    (hrun : Transition.run step t acts = some t') :
    ∃ lin x, Linearizes spec s₀ (history step shown t acts) lin x.obj ∧ R t' x := by
  obtain ⟨ms, x, hms, hev, hR'⟩ := hsim.runs hR hrun
  have htracks := Tracks.runs hms
  exact ⟨effects ms, x, hev ▸ htracks.linearizes, hR'⟩

end Linearizable
