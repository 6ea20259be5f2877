import Hwwctl.Protocol.Records
import Mathlib.Order.Basic
import Mathlib.Tactic.SplitIfs

/-!
# Proofs: when the scanners are safe and when they terminate

Each scanner takes the records of its data one by one (`TakesRecords`); what a run does follows
from the lengths those records announce.
-/

namespace Hwwctl.Protocol

open Machine Loop

/-- Whether an iteration is aborted: in both builds when the wanted field's length wraps around
(the slice is then refused), in the checked build also when a skipped one does. -/
def Aborts (b : Build) (c : Cut) : Prop :=
  ∃ l, (c.own = some l ∨ b = .checked ∧ c.skipped = some l) ∧ usizeSize ≤ l.stop

/-- What one iteration makes of the record `c`. -/
inductive Takes {σ ρ : Type} (b : Build) (c : Cut) (pos : σ → Nat) :
    Except Panic (Flow σ ρ) → Prop where
  | aborts (e : Panic) (h : Aborts b c) : Takes b c pos (.error e)
  | leaves (r : ρ) (h : ¬ Aborts b c) (hn : c.next = none) : Takes b c pos (.ok (.done r))
  | goesOn (s : σ) (h : ¬ Aborts b c) (hn : c.next = some (pos s)) : Takes b c pos (.ok (.next s))

/-- What one iteration makes of the record `c`, the result and the states included: it leaves the
loop with `r` unless there is a next record. -/
inductive Outcome {σ ρ : Type} (b : Build) (c : Cut) (r : ρ) (next : Nat → σ) :
    Except Panic (Flow σ ρ) → Prop where
  | aborts (e : Panic) (h : Aborts b c) : Outcome b c r next (.error e)
  | goes (h : ¬ Aborts b c) : Outcome b c r next (.ok (skipOr r next c.next))

theorem Outcome.takes {σ ρ : Type} {b : Build} {c : Cut} {r : ρ} {next : Nat → σ}
    {x : Except Panic (Flow σ ρ)} {pos : σ → Nat} (h : Outcome b c r next x)
    (hnext : ∀ p, pos (next p) = p) : Takes b c pos x := by
  cases h with
  | aborts e h => exact .aborts e h
  | goes h =>
    cases hn : c.next with
    | none => exact .leaves r h hn
    | some p => exact .goesOn (next p) h (by rw [hnext, hn])

theorem Outcome.eq_of_not_aborts {σ ρ : Type} {b : Build} {c : Cut} {r : ρ} {next : Nat → σ}
    {x : Except Panic (Flow σ ρ)} (h : Outcome b c r next x) (hab : ¬ Aborts b c) :
    x = .ok (skipOr r next c.next) := by
  cases h with
  | aborts e h => exact absurd h hab
  | goes h => rfl

/-- A loop with cursor `pos` that takes one record of `cut` per iteration. -/
structure TakesRecords {σ ρ : Type} (b : Build) (len : Nat) (cut : Nat → Cut)
    (body : σ → Except Panic (Flow σ ρ)) (pos : σ → Nat) : Prop where
  stops : ∀ s, len ≤ pos s → ∃ r, body s = .ok (.done r)
  takes : ∀ s, pos s < len → Takes b (cut (pos s)) pos (body s)

/-- Where the record after `p` lies: behind `p`, unless a skipped length wraps back; and nowhere
when the wanted field's own length wraps around. -/
structure Advances (len : Nat) (cut : Nat → Cut) : Prop where
  lt_next_iff : ∀ p, p < len → ((∀ p', (cut p).next = some p' → p < p') ↔
    ∀ l, (cut p).skipped = some l → l.stop < usizeSize ∨ usizeSize + p < l.stop)
  next_eq_none : ∀ p, p < len → Aborts .wrapping (cut p) → (cut p).next = none

namespace TakesRecords

variable {σ ρ : Type} {b : Build} {len : Nat} {cut : Nat → Cut}
  {body : σ → Except Panic (Flow σ ρ)} {pos : σ → Nat} {s s' s₀ : σ}

theorem aborts (h : TakesRecords b len cut body pos) (hlt : pos s < len)
    (hab : Aborts b (cut (pos s))) : ∃ e, body s = .error e := by
  rcases hb : body s with e | f
  · exact ⟨e, rfl⟩
  · have ht := h.takes s hlt
    rw [hb] at ht
    cases ht with
    | leaves r hno => exact absurd hab hno
    | goesOn s' hno => exact absurd hab hno

theorem goesOn (h : TakesRecords b len cut body pos) {p' : Nat} (hlt : pos s < len)
    (hab : ¬ Aborts b (cut (pos s))) (hn : (cut (pos s)).next = some p') :
    ∃ s', body s = .ok (.next s') ∧ pos s' = p' := by
  have ht := h.takes s hlt
  rcases hb : body s with e | ⟨s' | r⟩ <;> rw [hb] at ht
  · cases ht with
    | aborts _ ha => exact absurd ha hab
  · cases ht with
    | goesOn _ _ hn' => exact ⟨s', rfl, Option.some.inj (hn'.symm.trans hn)⟩
  · cases ht with
    | leaves _ _ hn' =>
      rw [hn] at hn'
      cases hn'

theorem no_error (h : TakesRecords b len cut body pos)
    (hab : pos s < len → ¬ Aborts b (cut (pos s))) (e : Panic) : body s ≠ .error e := by
  intro he
  by_cases hlt : pos s < len
  · have ht := h.takes s hlt
    rw [he] at ht
    cases ht with
    | aborts _ ha => exact hab hlt ha
  · obtain ⟨r, hr⟩ := h.stops s (by omega)
    rw [hr] at he
    cases he

/-- An iteration that goes on has taken a record. -/
theorem of_continues (h : TakesRecords b len cut body pos) (hc : Continues body s s') :
    pos s < len ∧ ¬ Aborts b (cut (pos s)) ∧ (cut (pos s)).next = some (pos s') := by
  unfold Continues at hc
  by_cases hlt : pos s < len
  · have ht := h.takes s hlt
    rw [hc] at ht
    cases ht with
    | goesOn _ hab hn => exact ⟨hlt, hab, hn⟩
  · obtain ⟨r, hr⟩ := h.stops s (by omega)
    rw [hr] at hc
    cases hc

/-- The cursor stands at records, and at last behind the data. -/
theorem recordAt_of_visits (h : TakesRecords b len cut body pos) (h0 : pos s₀ = 0)
    (hv : Visits body s₀ s) (hlt : pos s < len) : RecordAt len cut (pos s) := by
  induction hv with
  | refl => rw [h0] at hlt ⊢; exact .first hlt
  | tail _ hc ih =>
    obtain ⟨hl, -, hn⟩ := h.of_continues hc
    exact .next (ih hl) hn hlt

/-- Every record is taken where an aborted one has no successor. -/
theorem visits_of_recordAt (h : TakesRecords b len cut body pos) (h0 : pos s₀ = 0) {p : Nat}
    (hr : RecordAt len cut p)
    (hab : ∀ s, Visits body s₀ s → pos s < len → Aborts b (cut (pos s)) →
      (cut (pos s)).next = none) :
    ∃ s, Visits body s₀ s ∧ pos s = p ∧ p < len := by
  induction hr with
  | first hlen => exact ⟨s₀, .refl, h0, hlen⟩
  | next _ hn hp ih =>
    obtain ⟨s, hv, rfl, hl⟩ := ih
    have hno : ¬ Aborts b (cut (pos s)) := fun ha => by
      rw [hab s hv hl ha] at hn
      cases hn
    obtain ⟨s', hs', hpos⟩ := h.goesOn hl hno hn
    exact ⟨s', hv.tail hs', hpos, hp⟩

/-- A loop whose records lie one behind the other ends. -/
theorem ends_of_advancing (h : TakesRecords b len cut body pos)
    (hadv : ∀ s s', Visits body s₀ s → Continues body s s' → pos s < pos s') :
    ∃ o, EndsWith body s₀ o := by
  refine ends_of_measure (fun s => len - pos s) fun a a' hv hc => ?_
  have h1 := (h.of_continues hc).1
  have h2 := hadv a a' hv hc
  show len - pos a' < len - pos a
  omega

/-- In the checked build the loop runs to a result exactly when all announced lengths fit. -/
theorem checked_safe_iff (h : TakesRecords .checked len cut body pos) (h0 : pos s₀ = 0)
    (hadv : Advances len cut) :
    (∃ r, EndsWith body s₀ (.ok r)) ↔ LengthsFit len cut := by
  constructor
  · rintro ⟨r, hr⟩ p hp l hl
    have hno : ∀ s, Visits body s₀ s → pos s < len → ¬ Aborts .checked (cut (pos s)) := by
      intro s hv hlt hab
      obtain ⟨e, he⟩ := h.aborts hlt hab
      exact hr.no_error hv e he
    obtain ⟨s, hv, rfl, hlt⟩ := h.visits_of_recordAt h0 hp
      fun s hv hlt hab => absurd hab (hno s hv hlt)
    by_contra hbig
    refine hno s hv hlt ⟨l, ?_, by omega⟩
    rcases hl with hl | hl
    · exact Or.inl hl
    · exact Or.inr ⟨rfl, hl⟩
  · intro hfit
    have hno : ∀ s, Visits body s₀ s → pos s < len → ¬ Aborts .checked (cut (pos s)) := by
      rintro s hv hlt ⟨l, hl, hbig⟩
      have := hfit _ (h.recordAt_of_visits h0 hv hlt) l
        (hl.elim Or.inl fun hl => Or.inr hl.2)
      omega
    have hall : ∀ s s', Visits body s₀ s → Continues body s s' → pos s < pos s' := by
      intro s s' _ hc
      obtain ⟨hlt, hab, hn⟩ := h.of_continues hc
      refine (hadv.lt_next_iff _ hlt).mpr (fun l hl => Or.inl ?_) _ hn
      by_contra hbig
      exact hab ⟨l, Or.inr ⟨rfl, hl⟩, by omega⟩
    obtain ⟨o, ho⟩ := h.ends_of_advancing hall
    exact ho.exists_ok fun s hv e => h.no_error (hno s hv) e

/-- In the wrapping build the loop ends, the cursor advancing all the way, exactly when no skipped
length wraps back. -/
theorem wrapping_advances_iff (h : TakesRecords .wrapping len cut body pos) (h0 : pos s₀ = 0)
    (hadv : Advances len cut) :
    ((∃ o, EndsWith body s₀ o) ∧
        ∀ s s', Visits body s₀ s → Continues body s s' → pos s < pos s') ↔
      NoneWrapsBack len cut := by
  constructor
  · rintro ⟨-, hall⟩
    intro p hp
    obtain ⟨s, hv, rfl, hlt⟩ := h.visits_of_recordAt h0 hp fun s _ hlt hab =>
      hadv.next_eq_none _ hlt hab
    refine (hadv.lt_next_iff _ hlt).mp fun p' hn => ?_
    have hab : ¬ Aborts .wrapping (cut (pos s)) := fun hab => by
      rw [hadv.next_eq_none _ hlt hab] at hn
      cases hn
    obtain ⟨s', hs', hpos⟩ := h.goesOn hlt hab hn
    rw [← hpos]
    exact hall s s' hv hs'
  · intro hback
    have hall : ∀ s s', Visits body s₀ s → Continues body s s' → pos s < pos s' := by
      intro s s' hv hc
      obtain ⟨hlt, -, hn⟩ := h.of_continues hc
      exact (hadv.lt_next_iff _ hlt).mpr (hback _ (h.recordAt_of_visits h0 hv hlt)) _ hn
    exact ⟨h.ends_of_advancing hall, hall⟩

end TakesRecords

/-! ## The records of a byte string -/

section Records

variable {data : List UInt8} {p q : Nat}

theorem varintAt_bounds (hp : p ≤ data.length) :
    p ≤ (varintAt data p).2 ∧ (varintAt data p).2 ≤ data.length := by
  have := decodeVarint_le (data.drop p)
  rw [List.length_drop] at this
  simp only [varintAt]
  omega

theorem lt_varintAt (hp : p < data.length) : p < (varintAt data p).2 := by
  have hne : data.drop p ≠ [] := by simp; omega
  have := decodeVarint_pos hne
  simp only [varintAt]
  omega

theorem lt_usizeSize (hdata : data.length ≤ isizeMax) (hp : p ≤ data.length) :
    p < usizeSize := by
  unfold isizeMax at hdata
  unfold usizeSize
  omega

/-- The end of a varint is always computed. -/
theorem usizeAdd_varint (b : Build) (hdata : data.length ≤ isizeMax) (hp : p ≤ data.length) :
    usizeAdd b p (decodeVarint (data.drop p)).2 = .ok (varintAt data p).2 :=
  usizeAdd_of_lt b (lt_usizeSize hdata (varintAt_bounds hp).2)

/-- A length whose end does not fit wraps around to before its own bytes. -/
theorem wrapped_stop_lt (hdata : data.length ≤ isizeMax) (hp : p ≤ data.length)
    (hbig : usizeSize ≤ (spanAt data p).stop) :
    ((spanAt data p).start + (spanAt data p).size) % usizeSize < (spanAt data p).start := by
  have h1 : (spanAt data p).size < usizeSize := (decodeVarint (data.drop p)).1.toNat_lt
  have h2 : (spanAt data p).start < usizeSize := lt_usizeSize hdata (varintAt_bounds hp).2
  unfold Span.stop at hbig
  rw [Nat.mod_eq_sub_mod hbig, Nat.mod_eq_of_lt (by omega)]
  omega

end Records

/-! ## Skipping a field -/

section Skip

variable {b : Build} {data : List UInt8} {p : Nat} {wireType : UInt64}

/-- Skipping leads to the next record unless an addition overflows in the checked build. -/
theorem skipField_ok (hdata : data.length ≤ isizeMax) (hp : p ≤ data.length)
    (hfit : b = .wrapping ∨ ∀ l, (skipCut data wireType p).skipped = some l → l.stop < usizeSize) :
    skipField b data wireType p = .ok (skipCut data wireType p).next := by
  have hsmall : ∀ k, k ≤ 8 → p + k < usizeSize := fun k hk => by
    unfold isizeMax at hdata
    unfold usizeSize
    omega
  unfold skipField skipCut at *
  split
  · rw [sliceFrom_of_le hp]
    simp only [usizeAdd_varint b hdata hp, bind, Except.bind, pure, Except.pure]
  · rw [usizeAdd_of_lt b (hsmall 8 (by omega))]
    rfl
  · by_cases hlt : p < data.length
    · simp only [if_pos hlt, sliceFrom_of_le hp] at hfit ⊢
      have hsum : usizeAddSum b p (decodeVarint (data.drop p)).2
          (decodeVarint (data.drop p)).1.toNat = .ok ((spanAt data p).stop % usizeSize) := by
        rcases hfit with rfl | hfit
        · exact usizeAddSum_wrapping _ _ _
        · have hstop := hfit _ rfl
          rw [Nat.mod_eq_of_lt hstop]
          exact usizeAddSum_of_lt b hstop
      simp only [hsum, bind, Except.bind, pure, Except.pure]
    · rw [if_neg hlt, if_neg hlt]
      rfl
  · rw [usizeAdd_of_lt b (hsmall 4 (by omega))]
    rfl
  · simp

/-- An overflowing length aborts the skip in the checked build. -/
theorem skipField_error {l : Span} (hp : p ≤ data.length)
    (hl : (skipCut data wireType p).skipped = some l) (hbig : usizeSize ≤ l.stop) :
    skipField .checked data wireType p = .error .addOverflow := by
  unfold skipField skipCut at *
  split at hl
  · cases hl
  · cases hl
  · by_cases hlt : p < data.length
    · simp only [if_pos hlt, sliceFrom_of_le hp] at hl ⊢
      cases hl
      have hsum : usizeAddSum .checked p (decodeVarint (data.drop p)).2
          (decodeVarint (data.drop p)).1.toNat = .error .addOverflow :=
        usizeAddSum_checked_of_le hbig
      simp only [hsum, bind, Except.bind]
    · rw [if_neg hlt] at hl
      cases hl
  · cases hl
  · cases hl

/-- The end of an iteration that skips. -/
theorem skipField_outcome {σ ρ : Type} (wireType : UInt64) (r : ρ) (next : Nat → σ)
    (hdata : data.length ≤ isizeMax) (hp : p ≤ data.length) (own : Option Span)
    (hown : ∀ l, own = some l → l.stop < usizeSize) :
    Outcome b { skipCut data wireType p with own := own } r next
      ((skipField b data wireType p).map (skipOr r next)) := by
  have hown' : ¬ ∃ l, own = some l ∧ usizeSize ≤ l.stop := by
    rintro ⟨l, hl, hbig⟩
    have := hown l hl
    omega
  by_cases hfit : b = .wrapping ∨
      ∀ l, (skipCut data wireType p).skipped = some l → l.stop < usizeSize
  · rw [skipField_ok hdata hp hfit]
    refine .goes ?_
    rintro ⟨l, hl | ⟨rfl, hl⟩, hbig⟩
    · exact hown' ⟨l, hl, hbig⟩
    · rcases hfit with hfit | hfit
      · cases hfit
      · have := hfit l hl
        omega
  · obtain ⟨hb, hl⟩ := not_or.mp hfit
    have hc : b = .checked := by cases b <;> simp_all
    subst hc
    simp only [not_forall] at hl
    obtain ⟨l, hl, hbig⟩ := hl
    rw [skipField_error hp hl (by omega)]
    exact .aborts _ ⟨l, Or.inr ⟨rfl, hl⟩, by omega⟩

/-- A skipped record has no field of its own. -/
theorem skipCut_own (data : List UInt8) (wireType : UInt64) (p : Nat) :
    (skipCut data wireType p).own = none := by
  unfold skipCut
  split
  · rfl
  · rfl
  · split <;> rfl
  · rfl
  · rfl

theorem Cut.held_of_none {c : Cut} (h : c.own = none) : c.held data = none := by
  rw [Cut.held, h]

theorem Cut.held_of_le {c : Cut} {l : Span} (h : c.own = some l) (hle : l.stop ≤ data.length) :
    c.held data = some (l.bytes data) := by
  simp only [Cut.held, h, if_pos hle]

theorem Cut.held_of_gt {c : Cut} {l : Span} (h : c.own = some l) (hgt : ¬ l.stop ≤ data.length) :
    c.held data = none := by
  simp only [Cut.held, h, if_neg hgt]

theorem skipField_outcome_of_none {σ ρ : Type} (r : ρ) (next : Nat → σ)
    (hdata : data.length ≤ isizeMax) (hp : p ≤ data.length) :
    Outcome b (skipCut data wireType p) r next
      ((skipField b data wireType p).map (skipOr r next)) := by
  have h := skipField_outcome (b := b) wireType r next hdata hp none (by simp)
  rwa [← skipCut_own data wireType p] at h

end Skip

/-! ## The three scanners -/

section Scanners

variable {b : Build}

theorem ok_bind {ε α β : Type} (a : α) (f : α → Except ε β) : (Except.ok a >>= f) = f a := rfl

/-- The ways in which a scanner goes on behind the length varint at `q` of the field it wants. A
length that does not fit is refused, in the wrapping build by the slice: its end has wrapped around
to before its start and has passed the bound check. -/
theorem payload_cases {α : Type} {T : Except Panic α → Prop}
    {found : Nat → List UInt8 → Except Panic α} {overrun : Except Panic α} {data : Slice UInt8}
    {q : Nat} (hq : q ≤ data.val.length)
    (hrefused : usizeSize ≤ (spanAt data.val q).stop → ∀ e, T (.error e))
    (hfound : ¬ usizeSize ≤ (spanAt data.val q).stop →
      (spanAt data.val q).stop ≤ data.val.length →
      T (found (spanAt data.val q).stop ((spanAt data.val q).bytes data.val)))
    (hoverrun : ¬ usizeSize ≤ (spanAt data.val q).stop →
      ¬ (spanAt data.val q).stop ≤ data.val.length → T overrun) :
    T (do
      let stop ← usizeAdd b (spanAt data.val q).start (spanAt data.val q).size
      if stop ≤ data.val.length then
        let bytes ← slice data.val (spanAt data.val q).start stop
        found stop bytes
      else overrun) := by
  set l := spanAt data.val q
  by_cases hbig : usizeSize ≤ l.stop
  · cases b with
    | checked =>
      rw [usizeAdd_checked_of_le hbig]
      exact hrefused hbig _
    | wrapping =>
      have hwrap : (l.start + l.size) % usizeSize < l.start :=
        wrapped_stop_lt data.length_le hq hbig
      have hle : (l.start + l.size) % usizeSize ≤ data.val.length :=
        Nat.le_trans (Nat.le_of_lt hwrap) (varintAt_bounds hq).2
      rw [usizeAdd_wrapping, ok_bind, if_pos hle, slice_of_gt hwrap]
      exact hrefused hbig _
  · rw [usizeAdd_of_lt b (Nat.lt_of_not_le hbig), ok_bind, show l.start + l.size = l.stop from rfl]
    by_cases hle : l.stop ≤ data.val.length
    · have hslice : slice data.val l.start l.stop = .ok (l.bytes data.val) :=
        slice_of_le (Nat.le_add_right l.start l.size) hle
      rw [if_pos hle, hslice]
      exact hfound hbig hle
    · rw [if_neg hle]
      exact hoverrun hbig hle

/-- A wanted field whose length fits does not abort. -/
theorem not_aborts_own {l : Span} {next : Option Nat} (hfit : ¬ usizeSize ≤ l.stop) :
    ¬ Aborts b ⟨some l, none, next⟩ := by
  rintro ⟨l', hl' | ⟨-, hl'⟩, hbig⟩
  · cases hl'
    exact hfit hbig
  · cases hl'

/-- One iteration of `extract_string_field` or `extract_failure_message`. -/
theorem scanFieldBody_outcome {ρ : Type} (targetTag : UInt64) (found : List UInt8 → ρ)
    (notFound : ρ) (data : Slice UInt8) {p : Nat} (hp : p < data.val.length) :
    Outcome b (fieldCut targetTag data.val p)
      (((fieldCut targetTag data.val p).held data.val).elim notFound found) id
      (scanFieldBody b targetTag found notFound data.val p) := by
  have hq := varintAt_bounds (Nat.le_of_lt hp)
  set tag := (decodeVarint (data.val.drop p)).1 with htag
  have hadd := usizeAdd_varint b data.length_le (Nat.le_of_lt hp)
  unfold scanFieldBody fieldCut
  simp only [if_pos hp, sliceFrom_of_le (Nat.le_of_lt hp), ok_bind, hadd, ← htag]
  by_cases hcase : tag = targetTag ∧ tag &&& 0x7 = 2 ∧ (varintAt data.val p).2 < data.val.length
  · rw [if_pos hcase, if_pos hcase, sliceFrom_of_le hq.2]
    have hs := varintAt_bounds hq.2
    set q := (varintAt data.val p).2
    set l := spanAt data.val q with hl
    have hstart : usizeAdd b q (decodeVarint (data.val.drop q)).2 = .ok l.start :=
      usizeAdd_varint b data.length_le hq.2
    simp only [ok_bind, hstart]
    refine payload_cases hq.2 ?_ ?_ ?_
    · intro hbig e
      rw [if_pos (Or.inr hbig)]
      exact .aborts e ⟨l, Or.inl rfl, hbig⟩
    · intro hfit hle
      have hheld : Cut.held data.val ⟨some l, none, none⟩ = some (l.bytes data.val) :=
        Cut.held_of_le rfl hle
      rw [if_pos (Or.inl hle), hheld]
      exact .goes (not_aborts_own hfit)
    · intro hfit hle
      rw [if_neg (by rintro (h | h); exacts [hle h, hfit h]), Cut.held_of_gt (l := l) rfl hle]
      exact skipField_outcome _ notFound id data.length_le hs.2 (some l)
        fun l' hl' => by cases hl'; exact Nat.lt_of_not_le hfit
  · rw [if_neg hcase, if_neg hcase, Cut.held_of_none (skipCut_own ..)]
    exact skipField_outcome_of_none notFound id data.length_le hq.2

theorem scanField_takesRecords {ρ : Type} (targetTag : UInt64) (found : List UInt8 → ρ)
    (notFound : ρ) (data : Slice UInt8) :
    TakesRecords b data.val.length (fieldCut targetTag data.val)
      (scanFieldBody b targetTag found notFound data.val) id where
  stops _ hp := ⟨notFound, if_neg (Nat.not_lt.mpr hp)⟩
  takes _ hp := (scanFieldBody_outcome targetTag found notFound data hp).takes fun _ => rfl

/-- The tokens after the record `c`: a payload that is no UTF-8 is left out. -/
def withToken (data : List UInt8) (tokens : List String) (c : Cut) : List String :=
  tokens ++ ((c.held data).bind fromUtf8).toList

/-- One iteration of `parse_tokens_field`. -/
theorem parseTokensFieldBody_outcome (data : Slice UInt8) (tokens : List String) {p : Nat}
    (hp : p < data.val.length) :
    Outcome b (tokensCut data.val p) (withToken data.val tokens (tokensCut data.val p))
      (fun pos => (pos, withToken data.val tokens (tokensCut data.val p)))
      (parseTokensFieldBody b data (p, tokens)) := by
  have hq := varintAt_bounds (Nat.le_of_lt hp)
  have hnone : ∀ c : Cut, c.held data.val = none → withToken data.val tokens c = tokens := by
    intro c hc
    simp [withToken, hc]
  set tag := (decodeVarint (data.val.drop p)).1 with htag
  have hadd := usizeAdd_varint b data.length_le (Nat.le_of_lt hp)
  unfold parseTokensFieldBody tokensCut
  simp only [if_pos hp, sliceFrom_of_le (Nat.le_of_lt hp), ok_bind, hadd, ← htag]
  by_cases hcase : tag = tokensTag
  · rw [if_pos hcase, if_pos hcase]
    by_cases hlt : (varintAt data.val p).2 < data.val.length
    · rw [if_pos hlt, if_pos hlt, sliceFrom_of_le hq.2]
      set q := (varintAt data.val p).2
      set l := spanAt data.val q with hl
      have hstart : usizeAdd b q (decodeVarint (data.val.drop q)).2 = .ok l.start :=
        usizeAdd_varint b data.length_le hq.2
      simp only [ok_bind, hstart]
      refine payload_cases hq.2 ?_ ?_ ?_
      · intro hbig e
        exact .aborts e ⟨l, Or.inl rfl, hbig⟩
      · intro hfit hle
        rw [if_pos hle]
        have hheld : withToken data.val tokens ⟨some l, none, some l.stop⟩ =
            tokens ++ (fromUtf8 (l.bytes data.val)).toList := by
          rw [withToken, Cut.held_of_le (l := l) rfl hle, Option.bind_some]
        rw [hheld]
        exact .goes (not_aborts_own hfit)
      · intro hfit hle
        rw [if_neg hle, hnone _ (Cut.held_of_gt (l := l) rfl hle)]
        exact .goes (not_aborts_own hfit)
    · rw [if_neg hlt, if_neg hlt, hnone _ rfl]
      refine .goes ?_
      rintro ⟨l, hl | ⟨-, hl⟩, -⟩ <;> cases hl
  · rw [if_neg hcase, if_neg hcase, hnone _ (Cut.held_of_none (skipCut_own ..))]
    exact skipField_outcome_of_none tokens (fun p => (p, tokens)) data.length_le hq.2

theorem parseTokensField_takesRecords (data : Slice UInt8) :
    TakesRecords b data.val.length (tokensCut data.val) (parseTokensFieldBody b data)
      Prod.fst where
  stops s hp := ⟨s.2, if_neg (Nat.not_lt.mpr hp)⟩
  takes s hp := (parseTokensFieldBody_outcome data s.2 hp).takes fun _ => rfl

end Scanners

/-! ## Where the next record lies -/

section Advance

variable {data : List UInt8} {p q : Nat}

theorem skipCut_lt_next_iff (hdata : data.length ≤ isizeMax) (wireType : UInt64) (hpq : p < q)
    (hq : q ≤ data.length) :
    (∀ p', (skipCut data wireType q).next = some p' → p < p') ↔
      ∀ l, (skipCut data wireType q).skipped = some l →
        l.stop < usizeSize ∨ usizeSize + p < l.stop := by
  have hb := varintAt_bounds hq
  have hs := lt_usizeSize hdata hb.2
  unfold skipCut
  split
  · simp
    omega
  · simp
    omega
  · split_ifs
    · have h1 : (spanAt data q).start = (varintAt data q).2 := rfl
      have h2 : (spanAt data q).size < usizeSize := (decodeVarint (data.drop q)).1.toNat_lt
      have h3 : (spanAt data q).stop = (spanAt data q).start + (spanAt data q).size := rfl
      simp only [Option.some.injEq, forall_eq']
      by_cases hfit : (spanAt data q).stop < usizeSize
      · rw [Nat.mod_eq_of_lt hfit]
        omega
      · rw [Nat.mod_eq_sub_mod (by omega), Nat.mod_eq_of_lt (by omega)]
        omega
    · simp
  · simp
    omega
  · simp

theorem skipCut_not_aborts (wireType : UInt64) :
    ¬ Aborts .wrapping (skipCut data wireType q) := by
  rintro ⟨l, hl | ⟨hb, -⟩, -⟩
  · rw [skipCut_own] at hl
    cases hl
  · cases hb

theorem fieldCut_advances (targetTag : UInt64) (data : Slice UInt8) :
    Advances data.val.length (fieldCut targetTag data.val) where
  lt_next_iff p hp := by
    have hq := varintAt_bounds (Nat.le_of_lt hp)
    have hpq := lt_varintAt hp
    unfold fieldCut
    simp only
    split_ifs with hcase hend
    · simp
    · have hs := varintAt_bounds hq.2
      exact skipCut_lt_next_iff data.length_le _ (Nat.lt_of_lt_of_le hpq hs.1) hs.2
    · exact skipCut_lt_next_iff data.length_le _ hpq hq.2
  next_eq_none p hp := by
    unfold fieldCut
    simp only
    split_ifs with hcase hend
    · intro _
      rfl
    · rintro ⟨l, hl | ⟨hb, -⟩, hbig⟩
      · cases hl
        exact absurd (Or.inr hbig) hend
      · cases hb
    · exact fun hab => absurd hab (skipCut_not_aborts _)

theorem tokensCut_advances (data : Slice UInt8) :
    Advances data.val.length (tokensCut data.val) where
  lt_next_iff p hp := by
    have hq := varintAt_bounds (Nat.le_of_lt hp)
    have hpq := lt_varintAt hp
    unfold tokensCut
    simp only
    split_ifs with hcase hlt hend
    · have hs := varintAt_bounds hq.2
      have h1 : (spanAt data.val (varintAt data.val p).2).start =
        (varintAt data.val (varintAt data.val p).2).2 := rfl
      simp [Span.stop]
      omega
    · simp
    · simp
    · exact skipCut_lt_next_iff data.length_le _ hpq hq.2
  next_eq_none p hp := by
    unfold tokensCut
    simp only
    split_ifs with hcase hlt hend
    · rintro ⟨l, hl | ⟨hb, -⟩, hbig⟩
      · cases hl
        have := lt_usizeSize data.length_le hend
        omega
      · cases hb
    · intro _
      rfl
    · intro _
      rfl
    · exact fun hab => absurd hab (skipCut_not_aborts _)

end Advance

/-! ## The scanners on any byte string -/

/-- Some number of iterations leads to a result, no slice being refused on the way and, in the
checked build, no addition overflowing. -/
def Safe {ρ : Type} (scan : Nat → Option (Except Panic ρ)) : Prop := ∃ fuel r, scan fuel = some (.ok r)

/-- The loop entered at `s₀` ends, and every iteration that does not leave it moves the cursor
`pos` forward. -/
def Advancing {σ ρ : Type} (body : σ → Except Panic (Flow σ ρ)) (pos : σ → Nat) (s₀ : σ) : Prop :=
  (∃ o, EndsWith body s₀ o) ∧ ∀ s s', Visits body s₀ s → Continues body s s' → pos s < pos s'

theorem safe_iff_endsWith {σ ρ : Type} {body : σ → Except Panic (Flow σ ρ)} {s₀ : σ} :
    Safe (fun fuel => run body fuel s₀) ↔ ∃ r, EndsWith body s₀ (.ok r) := exists_comm

/-- The scanners run to a result without an overflowing addition and without a refused slice
exactly when no record reached announces a length that ends past the last `usize`. -/
theorem scanners_safe_iff (data : Slice UInt8) (fieldNum : UInt32) :
    (Safe (extractStringField .checked data fieldNum) ↔
        LengthsFit data.val.length (fieldCut (stringTag fieldNum) data.val)) ∧
      (Safe (extractFailureMessage .checked data) ↔
        LengthsFit data.val.length (fieldCut 0x12 data.val)) ∧
      (Safe (parseTokensField .checked data) ↔
        LengthsFit data.val.length (tokensCut data.val)) := by
  refine ⟨?_, ?_, ?_⟩
  · exact safe_iff_endsWith.trans ((scanField_takesRecords _ _ _ data).checked_safe_iff rfl
      (fieldCut_advances _ data))
  · exact safe_iff_endsWith.trans ((scanField_takesRecords _ _ _ data).checked_safe_iff rfl
      (fieldCut_advances _ data))
  · exact safe_iff_endsWith.trans ((parseTokensField_takesRecords data).checked_safe_iff rfl
      (tokensCut_advances data))

/-- Field 2 announcing `2 ^ 64 - 1` bytes. -/
def hugeLength : Slice UInt8 :=
  ⟨[0x12, 0xFF, 0xFF, 0xFF, 0xFF, 0xFF, 0xFF, 0xFF, 0xFF, 0xFF, 0x01], by decide⟩

/-- On a length of `2 ^ 64 - 1` the addition overflows, and where it wraps around the slice bounds
come out reversed. -/
theorem extractStringField_hugeLength :
    extractStringField .checked hugeLength 2 1 = some (.error .addOverflow) ∧
      extractStringField .wrapping hugeLength 2 1 = some (.error .sliceRange) ∧
      ¬ ∀ data fieldNum, Safe (extractStringField .checked data fieldNum) := by
  have hc : extractStringField .checked hugeLength 2 1 = some (.error .addOverflow) := by
    decide +kernel
  refine ⟨hc, by decide +kernel, fun hall => ?_⟩
  obtain ⟨fuel, r, hr⟩ := hall hugeLength 2
  have := EndsWith.unique ⟨1, hc⟩ ⟨fuel, hr⟩
  cases this

/-- In the wrapping build the scanners terminate with an advancing cursor exactly when no record
reached is skipped by a length that wraps back to the record's start or before. -/
theorem scanners_advancing_iff (data : Slice UInt8) (fieldNum : UInt32) :
    (Advancing (extractStringFieldBody .wrapping data fieldNum) id 0 ↔
        NoneWrapsBack data.val.length (fieldCut (stringTag fieldNum) data.val)) ∧
      (Advancing (extractFailureMessageBody .wrapping data) id 0 ↔
        NoneWrapsBack data.val.length (fieldCut 0x12 data.val)) ∧
      (Advancing (parseTokensFieldBody .wrapping data) Prod.fst (0, []) ↔
        NoneWrapsBack data.val.length (tokensCut data.val)) := by
  refine ⟨?_, ?_, ?_⟩
  · exact (scanField_takesRecords _ _ _ data).wrapping_advances_iff rfl (fieldCut_advances _ data)
  · exact (scanField_takesRecords _ _ _ data).wrapping_advances_iff rfl (fieldCut_advances _ data)
  · exact (parseTokensField_takesRecords data).wrapping_advances_iff rfl (tokensCut_advances data)

/-- Field 1 announcing `2 ^ 64 - 11` bytes, which lead back to offset 0. -/
def loopingLength : Slice UInt8 :=
  ⟨[0x0A, 0xF5, 0xFF, 0xFF, 0xFF, 0xFF, 0xFF, 0xFF, 0xFF, 0xFF, 0x01], by decide⟩

/-- Looking for field 2 behind a field 1 of `2 ^ 64 - 11` bytes never ends. -/
theorem extractStringField_loopingLength :
    (∀ fuel, extractStringField .wrapping loopingLength 2 fuel = none) ∧
      ¬ ∀ data fieldNum, Advancing (extractStringFieldBody .wrapping data fieldNum) id 0 := by
  have hc : Continues (extractStringFieldBody .wrapping loopingLength 2) 0 0 := by
    unfold Continues
    decide +kernel
  refine ⟨fun fuel => ?_, fun hall => ?_⟩
  · unfold extractStringField
    induction fuel with
    | zero => rfl
    | succ fuel ih =>
      rw [run, show extractStringFieldBody .wrapping loopingLength 2 0 = _ from hc]
      exact ih
  · exact absurd ((hall loopingLength 2).2 0 0 .refl hc) (Nat.lt_irrefl 0)

end Hwwctl.Protocol
