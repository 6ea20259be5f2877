import Hwwctl.Protocol.Proofs.ScanProofs
import Hwwctl.Protocol.Proofs.VarintProofs

/-!
# Proofs: the scanners on well-formed messages

On a complete record a scanner's cut is the record itself; so on a message the scanners report the
payloads of its records. With what the encoders write this is a round trip.
-/

namespace Hwwctl.Protocol

open Machine Loop Protobuf

/-- From offset `p` on the data is `bytes`. -/
structure Reads (data : List UInt8) (p : Nat) (bytes : List UInt8) : Prop where
  le : p ≤ data.length
  drop_eq : data.drop p = bytes

namespace Reads

variable {data bytes xs ys : List UInt8} {p : Nat}

theorem start (data : List UInt8) : Reads data 0 data := ⟨Nat.zero_le _, rfl⟩

theorem length_eq (h : Reads data p bytes) : data.length = p + bytes.length := by
  have := h.le
  rw [← h.drop_eq, List.length_drop]
  omega

theorem append (h : Reads data p (xs ++ ys)) : Reads data (p + xs.length) ys where
  le := by
    rw [h.length_eq, List.length_append]
    omega
  drop_eq := by rw [← List.drop_drop, h.drop_eq, List.drop_left]

theorem lt (h : Reads data p bytes) (hne : bytes ≠ []) : p < data.length := by
  have := List.length_pos_iff.mpr hne
  rw [h.length_eq]
  omega

theorem decodeVarint_eq {v : Varint} (h : Reads data p (v.bytes ++ ys)) :
    decodeVarint (data.drop p) = (UInt64.ofNat v.value, v.bytes.length) := by
  rw [h.drop_eq, decodeVarint_varint]

theorem varintAt_eq {v : Varint} (h : Reads data p (v.bytes ++ ys)) :
    varintAt data p = (v.value, p + v.bytes.length) := by
  rw [varintAt, h.decodeVarint_eq]
  simp only
  rw [UInt64.toNat_ofNat', Nat.mod_eq_of_lt v.value_lt]

theorem spanAt_varint {v : Varint} (h : Reads data p (v.bytes ++ ys)) :
    spanAt data p = ⟨p + v.bytes.length, v.value⟩ := by
  rw [spanAt, h.varintAt_eq]

theorem bytes_eq (h : Reads data p (xs ++ ys)) : Span.bytes data ⟨p, xs.length⟩ = xs := by
  show (data.take (p + xs.length)).drop p = xs
  rw [List.drop_take, h.drop_eq, Nat.add_sub_cancel_left, List.take_left]

end Reads

/-! ## Tags -/

section Tags

variable {r : Record}

theorem toNat_tag (r : Record) : (UInt64.ofNat r.tag.value).toNat = r.tag.value := by
  rw [UInt64.toNat_ofNat', Nat.mod_eq_of_lt r.tag.value_lt]

theorem tag_and_7 (r : Record) :
    UInt64.ofNat r.tag.value &&& 0x7 = UInt64.ofNat r.content.wireType := by
  have hlow : r.tag.value &&& 7 = r.tag.value % 8 := Nat.and_two_pow_sub_one_eq_mod r.tag.value 3
  have hwire := r.content.wireType_lt
  apply UInt64.toNat_inj.mp
  rw [UInt64.toNat_and, toNat_tag, show (0x7 : UInt64).toNat = 7 from rfl, hlow, r.tag_value,
    UInt64.toNat_ofNat']
  omega

theorem toNat_stringTag (fieldNum : UInt32) :
    (stringTag fieldNum).toNat = 8 * fieldNum.toNat + 2 := by
  have hlt := fieldNum.toNat_lt
  have hor : 8 * fieldNum.toNat + 2 = 8 * fieldNum.toNat ||| 2 :=
    Nat.two_pow_add_eq_or_of_lt (i := 3) (b := 2) (by omega) fieldNum.toNat
  have hshift : fieldNum.toNat <<< 3 % 2 ^ 64 = 8 * fieldNum.toNat := by
    rw [Nat.shiftLeft_eq]
    omega
  rw [hor, stringTag, UInt64.toNat_or, UInt64.toNat_shiftLeft, UInt32.toNat_toUInt64,
    show (3 : UInt64).toNat % 64 = 3 from rfl, hshift]
  rfl

theorem tokensTag_eq : tokensTag = stringTag 13 := rfl

/-- The tag that a scanner looks for is that of the length-delimited fields with its number. -/
theorem tag_eq_stringTag_iff (r : Record) (fieldNum : UInt32) :
    UInt64.ofNat r.tag.value = stringTag fieldNum ↔
      r.number = fieldNum.toNat ∧ r.content.wireType = 2 := by
  have hwire := r.content.wireType_lt
  rw [← UInt64.toNat_inj, toNat_tag, toNat_stringTag, r.tag_value]
  omega

theorem payload?_eq_none_iff (r : Record) (fieldNum : UInt32) :
    r.payload? fieldNum.toNat = none ↔ UInt64.ofNat r.tag.value ≠ stringTag fieldNum := by
  rw [Ne, tag_eq_stringTag_iff, Record.payload?]
  cases hc : r.content <;> simp [Content.payload?, Content.wireType]

theorem exists_of_payload? {fieldNum : UInt32} {payload : List UInt8}
    (h : r.payload? fieldNum.toNat = some payload) :
    UInt64.ofNat r.tag.value = stringTag fieldNum ∧
      ∃ len hlen, r.content = .delimited len payload hlen := by
  rw [tag_eq_stringTag_iff]
  unfold Record.payload? at h
  split_ifs at h with hnum
  cases hc : r.content with
  | delimited len payload' hlen =>
    rw [hc] at h
    cases h
    exact ⟨⟨hnum, rfl⟩, len, hlen, rfl⟩
  | varint _ => rw [hc] at h; cases h
  | fixed64 _ => rw [hc] at h; cases h
  | fixed32 _ => rw [hc] at h; cases h

end Tags

/-! ## A complete record -/

/-- The span of a record's payload when the record lies at offset `p`. -/
def spanOf (p : Nat) (r : Record) : Option Span :=
  match r.content with
  | .delimited len payload _ => some ⟨p + r.tag.bytes.length + len.bytes.length, payload.length⟩
  | _ => none

section Complete

variable {b : Build} {data : List UInt8} {back : List UInt8} {p : Nat} {r : Record}

theorem Reads.record (h : Reads data p (r.bytes ++ back)) :
    Reads data p (r.tag.bytes ++ (r.content.bytes ++ back)) := by
  rwa [Record.bytes, List.append_assoc] at h

theorem Reads.tag_eq (h : Reads data p (r.tag.bytes ++ back)) :
    (decodeVarint (data.drop p)).1 = UInt64.ofNat r.tag.value ∧
      (varintAt data p).2 = p + r.tag.bytes.length := by
  rw [h.varintAt_eq, h.decodeVarint_eq]
  exact ⟨rfl, rfl⟩

/-- Behind a tag that is not wanted, the value is skipped. -/
theorem fieldCut_of_other {fieldNum : UInt32} (h : Reads data p (r.tag.bytes ++ back))
    (hr : r.payload? fieldNum.toNat = none) :
    fieldCut (stringTag fieldNum) data p =
      skipCut data (UInt64.ofNat r.content.wireType) (p + r.tag.bytes.length) := by
  have htag := (payload?_eq_none_iff r fieldNum).mp hr
  unfold fieldCut
  simp only [h.tag_eq]
  rw [if_neg (fun hcase => htag hcase.1), tag_and_7]

theorem tokensCut_of_other (h : Reads data p (r.tag.bytes ++ back)) (hr : r.payload? 13 = none) :
    tokensCut data p =
      skipCut data (UInt64.ofNat r.content.wireType) (p + r.tag.bytes.length) := by
  have htag := (payload?_eq_none_iff r 13).mp hr
  unfold tokensCut
  simp only [h.tag_eq]
  rw [tokensTag_eq, if_neg htag, tag_and_7]

/-- Behind the wanted tag, the length counts. -/
theorem fieldCut_of_wanted {fieldNum : UInt32} {payload : List UInt8}
    (h : Reads data p (r.tag.bytes ++ back)) (hback : back ≠ [])
    (hr : r.payload? fieldNum.toNat = some payload) {l : Span}
    (hl : spanAt data (p + r.tag.bytes.length) = l) (hfit : l.stop < usizeSize) :
    fieldCut (stringTag fieldNum) data p =
      if l.stop ≤ data.length then ⟨some l, none, none⟩
      else { skipCut data 2 l.start with own := some l } := by
  obtain ⟨htag, len, hlen, hcontent⟩ := exists_of_payload? hr
  have hwire : UInt64.ofNat r.tag.value &&& 0x7 = 2 := by
    rw [tag_and_7, hcontent]
    rfl
  unfold fieldCut
  simp only [h.tag_eq, hwire]
  rw [if_pos ⟨htag, trivial, h.append.lt hback⟩, hl]
  simp only [Nat.not_le.mpr hfit, or_false]

theorem tokensCut_of_wanted {payload : List UInt8} (h : Reads data p (r.tag.bytes ++ back))
    (hback : back ≠ []) (hr : r.payload? 13 = some payload) {l : Span}
    (hl : spanAt data (p + r.tag.bytes.length) = l) :
    tokensCut data p = ⟨some l, none, if l.stop ≤ data.length then some l.stop else none⟩ := by
  have hr' : r.payload? (13 : UInt32).toNat = some payload := hr
  obtain ⟨htag, -⟩ := exists_of_payload? hr'
  unfold tokensCut
  simp only [h.tag_eq]
  rw [tokensTag_eq, if_pos htag, if_pos (h.append.lt hback), hl]

/-- The length of a delimited record. -/
theorem Reads.spanAt_eq {len : Varint} {payload : List UInt8} (hlen : len.value = payload.length)
    (h : Reads data p (len.bytes ++ payload ++ back)) :
    spanAt data p = ⟨p + len.bytes.length, payload.length⟩ := by
  rw [List.append_assoc] at h
  rw [h.spanAt_varint, hlen]

/-- A complete record is skipped whole. -/
theorem skipCut_record (hdata : data.length ≤ isizeMax) (h : Reads data p (r.bytes ++ back)) :
    skipCut data (UInt64.ofNat r.content.wireType) (p + r.tag.bytes.length) =
      ⟨none, spanOf p r, some (p + r.bytes.length)⟩ := by
  have hc := h.record.append
  have hend : p + r.bytes.length ≤ data.length := by
    rw [h.length_eq, List.length_append]
    omega
  rw [Record.length_bytes] at hend ⊢
  unfold spanOf
  cases hcontent : r.content with
  | varint value =>
    rw [hcontent] at hc
    show Cut.mk none none (some (varintAt data _).2) = _
    rw [hc.varintAt_eq, Nat.add_assoc]
    rfl
  | fixed64 buf =>
    show Cut.mk none none (some (_ + 8)) = _
    rw [Content.bytes, buf.length_eq, Nat.add_assoc]
  | delimited len payload hlen =>
    rw [hcontent] at hc hend
    have hlt := hc.lt (List.append_ne_nil_of_left_ne_nil (Content.bytes_ne_nil _) _)
    have hstop : p + r.tag.bytes.length + len.bytes.length + payload.length < usizeSize := by
      rw [Content.bytes, List.length_append] at hend
      unfold isizeMax at hdata
      unfold usizeSize
      omega
    show (if p + r.tag.bytes.length < data.length then
      Cut.mk none (some (spanAt data _)) (some ((spanAt data _).stop % usizeSize)) else _) = _
    rw [if_pos hlt, Reads.spanAt_eq hlen hc, Span.stop, Nat.mod_eq_of_lt hstop, Content.bytes,
      List.length_append]
    simp only [Nat.add_assoc]
  | fixed32 buf =>
    show Cut.mk none none (some (_ + 4)) = _
    rw [Content.bytes, buf.length_eq, Nat.add_assoc]

/-- The payload of a complete record ends with the record. -/
theorem spanOf_stop {l : Span} (h : spanOf p r = some l) : l.stop = p + r.bytes.length := by
  unfold spanOf at h
  cases hcontent : r.content with
  | delimited len payload hlen =>
    rw [hcontent] at h
    cases h
    rw [Record.length_bytes, hcontent, Content.bytes, List.length_append, Span.stop]
    simp only [Nat.add_assoc]
  | varint _ => rw [hcontent] at h; cases h
  | fixed64 _ => rw [hcontent] at h; cases h
  | fixed32 _ => rw [hcontent] at h; cases h

theorem spanOf_delimited {len : Varint} {payload : List UInt8} {hlen : len.value = payload.length}
    (hcontent : r.content = .delimited len payload hlen) :
    spanOf p r = some ⟨p + r.tag.bytes.length + len.bytes.length, payload.length⟩ := by
  rw [spanOf, hcontent]

/-- No complete record is too long. -/
theorem not_aborts_of_spanOf {own skipped : Option Span} {next : Option Nat}
    (hdata : data.length ≤ isizeMax) (h : Reads data p (r.bytes ++ back))
    (hown : own = none ∨ own = spanOf p r) (hskipped : skipped = none ∨ skipped = spanOf p r) :
    ¬ Aborts b ⟨own, skipped, next⟩ := by
  have hend : p + r.bytes.length < usizeSize := by
    rw [h.length_eq, List.length_append] at hdata
    unfold isizeMax at hdata
    unfold usizeSize
    omega
  have hfit : ∀ l, spanOf p r = some l → l.stop < usizeSize := fun l hl => by
    rw [spanOf_stop hl]
    exact hend
  rintro ⟨l, hl | ⟨-, hl⟩, hbig⟩
  · rcases hown with rfl | rfl
    · cases hl
    · have := hfit l hl
      omega
  · rcases hskipped with rfl | rfl
    · cases hl
    · have := hfit l hl
      omega

/-- A record that a scan for one field does not want. -/
theorem fieldCut_of_none {fieldNum : UInt32} (hdata : data.length ≤ isizeMax)
    (h : Reads data p (r.bytes ++ back)) (hr : r.payload? fieldNum.toNat = none) :
    fieldCut (stringTag fieldNum) data p = ⟨none, spanOf p r, some (p + r.bytes.length)⟩ := by
  rw [fieldCut_of_other h.record hr, skipCut_record hdata h]

/-- A record that the scan for tokens does not want. -/
theorem tokensCut_of_none (hdata : data.length ≤ isizeMax) (h : Reads data p (r.bytes ++ back))
    (hr : r.payload? 13 = none) :
    tokensCut data p = ⟨none, spanOf p r, some (p + r.bytes.length)⟩ := by
  rw [tokensCut_of_other h.record hr, skipCut_record hdata h]

/-- The payload of a complete record lies inside the data. -/
theorem exists_span {fieldNum : UInt32} {payload : List UInt8}
    (h : Reads data p (r.bytes ++ back)) (hr : r.payload? fieldNum.toNat = some payload) :
    ∃ l, spanOf p r = some l ∧ spanAt data (p + r.tag.bytes.length) = l ∧
      l.stop = p + r.bytes.length ∧ l.stop ≤ data.length ∧ l.bytes data = payload := by
  obtain ⟨-, len, hlen, hcontent⟩ := exists_of_payload? hr
  have hspan := spanOf_delimited (p := p) hcontent
  have hstop := spanOf_stop hspan
  have hc := h.record.append
  rw [hcontent] at hc
  refine ⟨_, hspan, Reads.spanAt_eq hlen hc, hstop, ?_, ?_⟩
  · rw [hstop, h.length_eq, List.length_append]
    omega
  · rw [Content.bytes, List.append_assoc] at hc
    exact hc.append.bytes_eq

/-- The record that a scan for one field wants. -/
theorem fieldCut_of_some {fieldNum : UInt32} {payload : List UInt8}
    (hdata : data.length ≤ isizeMax) (h : Reads data p (r.bytes ++ back))
    (hr : r.payload? fieldNum.toNat = some payload) :
    fieldCut (stringTag fieldNum) data p = ⟨spanOf p r, none, none⟩ ∧
      (fieldCut (stringTag fieldNum) data p).held data = some payload := by
  obtain ⟨l, hspan, hl, -, hle, hbytes⟩ := exists_span h hr
  have hne := List.append_ne_nil_of_left_ne_nil r.content.bytes_ne_nil back
  have hcut : fieldCut (stringTag fieldNum) data p = ⟨some l, none, none⟩ := by
    rw [fieldCut_of_wanted h.record hne hr hl (lt_usizeSize hdata hle), if_pos hle]
  refine ⟨by rw [hcut, hspan], ?_⟩
  rw [hcut, Cut.held_of_le rfl hle, hbytes]

/-- The record that the scan for tokens wants. -/
theorem tokensCut_of_some {payload : List UInt8} (h : Reads data p (r.bytes ++ back))
    (hr : r.payload? 13 = some payload) :
    tokensCut data p = ⟨spanOf p r, none, some (p + r.bytes.length)⟩ ∧
      (tokensCut data p).held data = some payload := by
  have hr' : r.payload? (13 : UInt32).toNat = some payload := hr
  obtain ⟨l, hspan, hl, hstop, hle, hbytes⟩ := exists_span h hr'
  have hne := List.append_ne_nil_of_left_ne_nil r.content.bytes_ne_nil back
  have hcut : tokensCut data p = ⟨some l, none, some l.stop⟩ := by
    rw [tokensCut_of_wanted h.record hne hr hl, if_pos hle]
  refine ⟨by rw [hcut, hspan, hstop], ?_⟩
  rw [hcut, Cut.held_of_le rfl hle, hbytes]

end Complete

/-! ## A message -/

section Message

variable {b : Build} {data : Slice UInt8} {back : List UInt8} {p : Nat} {rs : List Record}

/-- A loop that takes records goes from a complete one to the next. -/
theorem continues_of_outcome {σ ρ : Type} {body : σ → Except Panic (Flow σ ρ)} {s : σ} {c : Cut}
    {r : ρ} {next : Nat → σ} {p' : Nat} (h : Outcome b c r next (body s)) (hab : ¬ Aborts b c)
    (hn : c.next = some p') : Continues body s (next p') := by
  unfold Continues
  rw [h.eq_of_not_aborts hab, hn]
  rfl

/-- The scan for one field passes over the records without it. -/
theorem visits_of_payloads_nil {fieldNum : UInt32} (h : Reads data.val p (message rs ++ back))
    (hrs : payloads fieldNum.toNat rs = []) :
    Visits (extractStringFieldBody b data fieldNum) p (p + (message rs).length) := by
  induction rs generalizing p with
  | nil => exact .refl
  | cons r rs ih =>
    rw [message_cons, List.append_assoc] at h
    have hlt := h.lt (List.append_ne_nil_of_left_ne_nil r.bytes_ne_nil _)
    rw [payloads_cons, List.append_eq_nil_iff, Option.toList_eq_nil_iff] at hrs
    have hcut := fieldCut_of_none data.length_le h hrs.1
    have hab : ¬ Aborts b (fieldCut (stringTag fieldNum) data.val p) := by
      rw [hcut]
      exact not_aborts_of_spanOf data.length_le h (Or.inl rfl) (Or.inr rfl)
    have hout := scanFieldBody_outcome (b := b) (stringTag fieldNum) fromUtf8 none data hlt
    have hstep := continues_of_outcome hout hab (by rw [hcut])
    rw [message_cons, List.length_append, ← Nat.add_assoc]
    exact .head hstep (ih h.append hrs.2)

/-- The scan for one field ends at the first record with it. -/
theorem ends_of_payloads_cons {fieldNum : UInt32} {payload : List UInt8}
    {others : List (List UInt8)} (h : Reads data.val p (message rs ++ back))
    (hrs : payloads fieldNum.toNat rs = payload :: others) :
    EndsWith (extractStringFieldBody b data fieldNum) p (.ok (fromUtf8 payload)) := by
  induction rs generalizing p with
  | nil => cases hrs
  | cons r rs ih =>
    rw [message_cons, List.append_assoc] at h
    have hlt := h.lt (List.append_ne_nil_of_left_ne_nil r.bytes_ne_nil _)
    have hout := scanFieldBody_outcome (b := b) (stringTag fieldNum) fromUtf8 none data hlt
    rw [payloads_cons] at hrs
    cases hr : r.payload? fieldNum.toNat with
    | none =>
      rw [hr] at hrs
      have hcut := fieldCut_of_none data.length_le h hr
      have hab : ¬ Aborts b (fieldCut (stringTag fieldNum) data.val p) := by
        rw [hcut]
        exact not_aborts_of_spanOf data.length_le h (Or.inl rfl) (Or.inr rfl)
      exact .of_continues (continues_of_outcome hout hab (by rw [hcut])) (ih h.append hrs)
    | some payload' =>
      rw [hr] at hrs
      obtain ⟨rfl, -⟩ := List.cons.inj hrs
      obtain ⟨hcut, hheld⟩ := fieldCut_of_some data.length_le h hr
      have hab : ¬ Aborts b (fieldCut (stringTag fieldNum) data.val p) := by
        rw [hcut]
        exact not_aborts_of_spanOf data.length_le h (Or.inr rfl) (Or.inl rfl)
      have hbody := hout.eq_of_not_aborts hab
      rw [hheld, hcut] at hbody
      exact .of_done hbody

/-- The scan for tokens collects those of a message. -/
theorem visits_tokens (tokens : List String) (h : Reads data.val p (message rs ++ back)) :
    Visits (parseTokensFieldBody b data) (p, tokens)
      (p + (message rs).length, tokens ++ (payloads 13 rs).filterMap fromUtf8) := by
  induction rs generalizing p tokens with
  | nil =>
    simp only [message_nil, payloads_nil, List.filterMap_nil, List.append_nil, List.length_nil]
    exact .refl
  | cons r rs ih =>
    rw [message_cons, List.append_assoc] at h
    have hlt := h.lt (List.append_ne_nil_of_left_ne_nil r.bytes_ne_nil _)
    have hout := parseTokensFieldBody_outcome (b := b) data tokens hlt
    rw [message_cons, List.length_append, ← Nat.add_assoc, payloads_cons, List.filterMap_append,
      ← List.append_assoc]
    cases hr : r.payload? 13 with
    | none =>
      have hcut := tokensCut_of_none data.length_le h hr
      have hab : ¬ Aborts b (tokensCut data.val p) := by
        rw [hcut]
        exact not_aborts_of_spanOf data.length_le h (Or.inl rfl) (Or.inr rfl)
      have hstep := continues_of_outcome hout hab (by rw [hcut])
      rw [hcut, withToken, Cut.held_of_none rfl] at hstep
      exact .head hstep (ih _ h.append)
    | some payload =>
      obtain ⟨hcut, hheld⟩ := tokensCut_of_some h hr
      have hab : ¬ Aborts b (tokensCut data.val p) := by
        rw [hcut]
        exact not_aborts_of_spanOf data.length_le h (Or.inr rfl) (Or.inl rfl)
      have hstep := continues_of_outcome hout hab (by rw [hcut])
      rw [withToken, hheld] at hstep
      have htoken : (Option.some payload).toList.filterMap fromUtf8 =
          ((some payload).bind fromUtf8).toList := by
        cases hs : fromUtf8 payload <;> simp [hs]
      rw [htoken]
      exact .head hstep (ih _ h.append)

/-- Some number of iterations leads to the result `r`. -/
def Returns {ρ : Type} (scan : Nat → Option (Except Panic ρ)) (r : ρ) : Prop :=
  ∃ fuel, scan fuel = some (.ok r)

theorem Returns.unique {σ ρ : Type} {body : σ → Except Panic (Flow σ ρ)} {s : σ} {r r' : ρ}
    (h : Returns (fun fuel => run body fuel s) r) (h' : Returns (fun fuel => run body fuel s) r') :
    r = r' := by
  have heq := EndsWith.unique h h'
  exact Except.ok.inj heq

/-- Behind the data a scan is over. -/
theorem extractStringField_behind {fieldNum : UInt32} (hp : data.val.length ≤ p) :
    EndsWith (extractStringFieldBody b data fieldNum) p (.ok none) :=
  .of_done (if_neg (Nat.not_lt.mpr hp))

theorem parseTokensField_behind {tokens : List String} (hp : data.val.length ≤ p) :
    EndsWith (parseTokensFieldBody b data) (p, tokens) (.ok tokens) :=
  .of_done (if_neg (Nat.not_lt.mpr hp))

/-- On a message `extract_string_field` reports the first payload with the number, if it is
UTF-8. -/
theorem extractStringField_message (hdata : data.val = message rs) (fieldNum : UInt32) :
    Returns (extractStringField b data fieldNum)
      ((payloads fieldNum.toNat rs).head?.bind fromUtf8) := by
  have h : Reads data.val 0 (message rs ++ []) := by
    rw [List.append_nil, ← hdata]
    exact .start _
  cases hrs : payloads fieldNum.toNat rs with
  | nil =>
    exact EndsWith.of_visits (visits_of_payloads_nil h hrs)
      (extractStringField_behind (by rw [hdata]; omega))
  | cons payload others => exact ends_of_payloads_cons h hrs

/-- On a message `parse_tokens_field` reports the payloads with number 13 that are UTF-8. -/
theorem parseTokensField_message (hdata : data.val = message rs) :
    Returns (parseTokensField b data) ((payloads 13 rs).filterMap fromUtf8) := by
  have h : Reads data.val 0 (message rs ++ []) := by
    rw [List.append_nil, ← hdata]
    exact .start _
  exact EndsWith.of_visits (visits_tokens [] h) (parseTokensField_behind (by rw [hdata]; omega))

end Message

end Hwwctl.Protocol
