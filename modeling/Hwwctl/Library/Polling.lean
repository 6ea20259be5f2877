import Mathlib.Data.List.Chain
import Mathlib.Tactic.Common

/-!
# Polling until a deadline

A loop asks, again and again, after something that changes by itself. It ends with the first answer,
or without one when its clock has come to a deadline; between two questions it sleeps. `askFirst`
looks at the clock after a question that had no answer, `lookFirst` before each question.
-/

namespace Polling

/-- One round of a loop. -/
structure Round (ω : Type) where
  /-- What the question finds. -/
  world : ω
  /-- When the question was asked. -/
  asked : Nat
  /-- What the clock showed in this round. -/
  clock : Nat
deriving DecidableEq, Repr

variable {ω ρ : Type} (probe : ω → Option ρ) (deadline : Nat)

/-- `none` when the loop goes on after these rounds. -/
def askFirst : List (Round ω) → Option (Option ρ)
  | [] => none
  | round :: rounds =>
    match probe round.world with
    | some answer => some (some answer)
    | none => if deadline ≤ round.clock then some none else askFirst rounds

/-- `none` when the loop goes on after these rounds. In the last one nothing may be asked. -/
def lookFirst : List (Round ω) → Option (Option ρ)
  | [] => none
  | round :: rounds =>
    if round.clock < deadline then
      match probe round.world with
      | some answer => some (some answer)
      | none => lookFirst rounds
    else some none

variable {probe : ω → Option ρ} {deadline : Nat} {round : Round ω} {rounds : List (Round ω)}
  {answer : ρ}

/-! ## How a loop ends -/

/-- The rounds after which a loop goes on: no answer, and the deadline is still to come. -/
def Vain (probe : ω → Option ρ) (deadline : Nat) (rounds : List (Round ω)) : Prop :=
  ∀ round ∈ rounds, probe round.world = none ∧ round.clock < deadline

theorem Vain.cons (hnone : probe round.world = none) (hclock : round.clock < deadline)
    (h : Vain probe deadline rounds) : Vain probe deadline (round :: rounds) := by
  intro r hr
  rcases List.mem_cons.1 hr with rfl | hr
  · exact ⟨hnone, hclock⟩
  · exact h r hr

theorem Vain.head (h : Vain probe deadline (round :: rounds)) :
    probe round.world = none ∧ round.clock < deadline :=
  h round List.mem_cons_self

theorem Vain.tail (h : Vain probe deadline (round :: rounds)) : Vain probe deadline rounds :=
  fun r hr => h r (List.mem_cons_of_mem round hr)

theorem askFirst_vain {later : List (Round ω)} (h : Vain probe deadline rounds) :
    askFirst probe deadline (rounds ++ later) = askFirst probe deadline later := by
  induction rounds with
  | nil => rfl
  | cons round rounds ih =>
    obtain ⟨hnone, hclock⟩ := h.head
    rw [List.cons_append, askFirst, hnone]
    exact (if_neg (Nat.not_le.2 hclock)).trans (ih h.tail)

theorem lookFirst_vain {later : List (Round ω)} (h : Vain probe deadline rounds) :
    lookFirst probe deadline (rounds ++ later) = lookFirst probe deadline later := by
  induction rounds with
  | nil => rfl
  | cons round rounds ih =>
    obtain ⟨hnone, hclock⟩ := h.head
    rw [List.cons_append, lookFirst, if_pos hclock, hnone]
    exact ih h.tail

/-- A round that the loop does not go on after. -/
def Ends (probe : ω → Option ρ) (deadline : Nat) (round : Round ω) : Prop :=
  ¬ (probe round.world = none ∧ round.clock < deadline)

/-- Either all the rounds were in vain, or there is a first one that ends the loop. -/
theorem vain_or_ends (probe : ω → Option ρ) (deadline : Nat) (rounds : List (Round ω)) :
    Vain probe deadline rounds ∨ ∃ before round after, rounds = before ++ round :: after ∧
      Vain probe deadline before ∧ Ends probe deadline round := by
  induction rounds with
  | nil => exact .inl (by simp [Vain])
  | cons round rounds ih =>
    by_cases hround : probe round.world = none ∧ round.clock < deadline
    · rcases ih with hvain | ⟨before, last, after, rfl, hvain, hlast⟩
      · exact .inl (hvain.cons hround.1 hround.2)
      · exact .inr ⟨round :: before, last, after, rfl, hvain.cons hround.1 hround.2, hlast⟩
    · exact .inr ⟨[], round, rounds, rfl, by simp [Vain], hround⟩

theorem askFirst_ends {after : List (Round ω)} (h : Ends probe deadline round) :
    askFirst probe deadline (round :: after) = some (probe round.world) := by
  rw [askFirst]
  cases hprobe : probe round.world with
  | some answer => rfl
  | none => exact if_pos (Nat.not_lt.1 fun hclock => h ⟨hprobe, hclock⟩)

theorem lookFirst_ends {after : List (Round ω)} (h : Ends probe deadline round) :
    lookFirst probe deadline (round :: after) =
      some (if round.clock < deadline then probe round.world else none) := by
  rw [lookFirst]
  by_cases hclock : round.clock < deadline
  · rw [if_pos hclock, if_pos hclock]
    cases hprobe : probe round.world with
    | some answer => rfl
    | none => exact absurd ⟨hprobe, hclock⟩ h
  · rw [if_neg hclock, if_neg hclock]

/-- A loop that goes on has had rounds in vain only. -/
theorem askFirst_eq_none_iff : askFirst probe deadline rounds = none ↔
    Vain probe deadline rounds := by
  constructor
  · intro h
    rcases vain_or_ends probe deadline rounds with hvain | ⟨before, round, after, rfl, hvain, hends⟩
    · exact hvain
    · rw [askFirst_vain hvain, askFirst_ends hends] at h
      cases h
  · intro h
    have happ : askFirst probe deadline (rounds ++ []) = none := askFirst_vain h
    rwa [List.append_nil] at happ

theorem lookFirst_eq_none_iff : lookFirst probe deadline rounds = none ↔
    Vain probe deadline rounds := by
  constructor
  · intro h
    rcases vain_or_ends probe deadline rounds with hvain | ⟨before, round, after, rfl, hvain, hends⟩
    · exact hvain
    · rw [lookFirst_vain hvain, lookFirst_ends hends] at h
      cases h
  · intro h
    have happ : lookFirst probe deadline (rounds ++ []) = none := lookFirst_vain h
    rwa [List.append_nil] at happ

/-- A loop that asks first ends with what its last question found; it gives up after a question
that was in vain, at the deadline or later. -/
theorem askFirst_eq_some_iff {result : Option ρ} : askFirst probe deadline rounds = some result ↔
    ∃ before round after, rounds = before ++ round :: after ∧ Vain probe deadline before ∧
      Ends probe deadline round ∧ result = probe round.world := by
  constructor
  · intro h
    rcases vain_or_ends probe deadline rounds with hvain | ⟨before, round, after, rfl, hvain, hends⟩
    · rw [askFirst_eq_none_iff.2 hvain] at h
      cases h
    · rw [askFirst_vain hvain, askFirst_ends hends, Option.some.injEq] at h
      exact ⟨before, round, after, rfl, hvain, hends, h.symm⟩
  · rintro ⟨before, round, after, rfl, hvain, hends, rfl⟩
    rw [askFirst_vain hvain, askFirst_ends hends]

/-- A loop that looks first asks nothing any more once it is late. -/
theorem lookFirst_eq_some_iff {result : Option ρ} : lookFirst probe deadline rounds = some result ↔
    ∃ before round after, rounds = before ++ round :: after ∧ Vain probe deadline before ∧
      Ends probe deadline round ∧
      result = if round.clock < deadline then probe round.world else none := by
  constructor
  · intro h
    rcases vain_or_ends probe deadline rounds with hvain | ⟨before, round, after, rfl, hvain, hends⟩
    · rw [lookFirst_eq_none_iff.2 hvain] at h
      cases h
    · rw [lookFirst_vain hvain, lookFirst_ends hends, Option.some.injEq] at h
      exact ⟨before, round, after, rfl, hvain, hends, h.symm⟩
  · rintro ⟨before, round, after, rfl, hvain, hends, rfl⟩
    rw [lookFirst_vain hvain, lookFirst_ends hends]

/-! ## It ends in time -/

/-- Between two looks at the clock the loop sleeps for `interval`, and is late by what it likes. -/
def Paced (interval : Nat) (rounds : List (Round ω)) : Prop :=
  rounds.IsChain fun r r' => r.clock + interval ≤ r'.clock

/-- Rounds that were in vain do not go on for longer than the timeout. -/
theorem Vain.length_le {start timeout interval : Nat} (hinterval : 0 < interval)
    (hpaced : Paced interval rounds) (hstart : ∀ r ∈ rounds.head?, start ≤ r.clock)
    (h : Vain probe (start + timeout) rounds) : rounds.length ≤ timeout / interval + 1 := by
  cases rounds with
  | nil => exact Nat.zero_le _
  | cons round rounds =>
    have hfirst : start ≤ round.clock := hstart round rfl
    -- the clock of the last of the rounds
    have hlast : ∀ (rounds : List (Round ω)) (round : Round ω), Paced interval (round :: rounds) →
        Vain probe (start + timeout) (round :: rounds) →
        round.clock + rounds.length * interval < start + timeout := by
      intro rounds
      induction rounds with
      | nil =>
        intro round _ hvain
        simpa using hvain.head.2
      | cons next rounds ih =>
        intro round hpaced hvain
        obtain ⟨hstep, hrest⟩ := List.isChain_cons_cons.1 hpaced
        have hnext := ih next hrest hvain.tail
        rw [List.length_cons, Nat.add_mul, Nat.one_mul]
        omega
    have hbound := hlast rounds round hpaced h
    have hmul : rounds.length * interval ≤ timeout := by omega
    rw [List.length_cons]
    exact Nat.succ_le_succ ((Nat.le_div_iff_mul_le hinterval).2 hmul)

/-! ## What is there in time is found -/

/-- From `since` on every question has an answer. -/
def Answers (probe : ω → Option ρ) (since : Nat) (rounds : List (Round ω)) : Prop :=
  ∀ round ∈ rounds, since ≤ round.asked → (probe round.world).isSome

/-- A loop that asks first misses nothing that was there when it began its last question. -/
theorem askFirst_found {since lag : Nat} (hanswers : Answers probe since rounds)
    (hlag : ∀ round ∈ rounds, round.clock ≤ round.asked + lag) (hsince : since + lag ≤ deadline) :
    askFirst probe deadline rounds ≠ some none := by
  intro h
  obtain ⟨before, round, after, rfl, -, hends, hprobe⟩ := askFirst_eq_some_iff.1 h
  have hmem : round ∈ before ++ round :: after := by simp
  have hclock : deadline ≤ round.clock := Nat.not_lt.1 fun hlt => hends ⟨hprobe.symm, hlt⟩
  have hasked : since ≤ round.asked := by
    have hround := hlag round hmem
    omega
  have hsome := hanswers round hmem hasked
  rw [← hprobe] at hsome
  cases hsome

/-- A loop that looks first misses nothing that was there a round before its last look. -/
theorem lookFirst_found {since lag : Nat} (hanswers : Answers probe since rounds)
    (hasked : ∀ round ∈ rounds, round.clock ≤ round.asked)
    (hstart : ∀ r ∈ rounds.head?, r.clock < deadline)
    (hlag : rounds.IsChain fun r r' => r'.clock ≤ r.clock + lag) (hsince : since + lag ≤ deadline) :
    lookFirst probe deadline rounds ≠ some none := by
  intro h
  obtain ⟨before, round, after, rfl, hvain, hends, hresult⟩ := lookFirst_eq_some_iff.1 h
  have hclock : deadline ≤ round.clock := by
    by_contra hlt
    rw [if_pos (Nat.not_le.1 hlt)] at hresult
    exact hends ⟨hresult.symm, Nat.not_le.1 hlt⟩
  rcases List.eq_nil_or_concat' before with rfl | ⟨before, last, rfl⟩
  · have hfirst := hstart round rfl
    omega
  · have hmem : last ∈ before ++ [last] ++ round :: after := by simp
    have hstep : round.clock ≤ last.clock + lag := by
      have hchain := hlag
      rw [List.append_assoc, List.singleton_append] at hchain
      exact (List.isChain_cons_cons.1 hchain.right_of_append).1
    have hlater : since ≤ last.asked := by
      have hlast := hasked last hmem
      omega
    have hsome := hanswers last hmem hlater
    rw [(hvain last (by simp)).1] at hsome
    cases hsome

end Polling
