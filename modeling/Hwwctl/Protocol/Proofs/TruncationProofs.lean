import Hwwctl.Protocol.Proofs.MessageProofs

/-!
# Proofs: messages cut short

What the scanners make of the first part of a message. Up to the record that the cut falls into
they report what they report of the whole message; behind that record nothing is left. A cut inside
a tag, a number or a fixed-size value goes unnoticed. A cut inside a length makes it smaller, and
a cut inside a payload makes `extract_string_field` read fields out of the payload.
-/

namespace Hwwctl.Protocol

open Machine Loop Protobuf

/-! ## Scans that report nothing wrong -/

/-- Reading records from offset `p` on, the scan for the field tagged `targetTag` comes to an end,
without an abort, and reports no string but `wanted`. -/
inductive Quiet (b : Build) (data : List UInt8) (targetTag : UInt64) (wanted : Option String) :
    Nat → Prop where
  | behind {p : Nat} (hp : data.length ≤ p) : Quiet b data targetTag wanted p
  | last {p : Nat} (hp : p < data.length) (hab : ¬ Aborts b (fieldCut targetTag data p))
      (hn : (fieldCut targetTag data p).next = none)
      (hheld : ∀ bytes, (fieldCut targetTag data p).held data = some bytes →
        fromUtf8 bytes = none ∨ fromUtf8 bytes = wanted) :
      Quiet b data targetTag wanted p
  | next {p p' : Nat} (hp : p < data.length) (hab : ¬ Aborts b (fieldCut targetTag data p))
      (hn : (fieldCut targetTag data p).next = some p') (h : Quiet b data targetTag wanted p') :
      Quiet b data targetTag wanted p

section Quiet

variable {b : Build} {data : Slice UInt8} {fieldNum : UInt32} {wanted : Option String} {p p' : Nat}

theorem ends_of_quiet (h : Quiet b data.val (stringTag fieldNum) wanted p) :
    ∃ r, EndsWith (extractStringFieldBody b data fieldNum) p (.ok r) ∧ (r = none ∨ r = wanted) := by
  induction h with
  | behind hp => exact ⟨none, extractStringField_behind hp, Or.inl rfl⟩
  | @last p hp hab hn hheld =>
    have hout := scanFieldBody_outcome (b := b) (stringTag fieldNum) fromUtf8 none data hp
    have hbody := hout.eq_of_not_aborts hab
    rw [hn] at hbody
    refine ⟨_, .of_done hbody, ?_⟩
    cases hbytes : (fieldCut (stringTag fieldNum) data.val p).held data.val with
    | none => exact Or.inl rfl
    | some bytes => exact hheld bytes hbytes
  | next hp hab hn _ ih =>
    obtain ⟨r, hr, hw⟩ := ih
    have hout := scanFieldBody_outcome (b := b) (stringTag fieldNum) fromUtf8 none data hp
    exact ⟨r, .of_continues (continues_of_outcome hout hab hn) hr, hw⟩

theorem quiet_of_ends {r : Option String}
    (h : EndsWith (extractStringFieldBody b data fieldNum) p (.ok r)) (hr : r = none ∨ r = wanted) :
    Quiet b data.val (stringTag fieldNum) wanted p := by
  obtain ⟨fuel, h⟩ := h
  induction fuel generalizing p with
  | zero => cases h
  | succ fuel ih =>
    by_cases hp : p < data.val.length
    · have hout := scanFieldBody_outcome (b := b) (stringTag fieldNum) fromUtf8 none data hp
      rw [run] at h
      rcases hbody : extractStringFieldBody b data fieldNum p with e | f
      · rw [hbody] at h
        cases h
      · have hab : ¬ Aborts b (fieldCut (stringTag fieldNum) data.val p) := by
          intro hab
          unfold extractStringFieldBody at hbody
          rw [hbody] at hout
          cases hout with
          | goes hno => exact hno hab
        have hflow := hbody.symm.trans (hout.eq_of_not_aborts hab)
        rw [hbody, Except.ok.inj hflow] at h
        cases hn : (fieldCut (stringTag fieldNum) data.val p).next with
        | none =>
          rw [hn] at h
          cases h
          refine .last hp hab hn fun bytes hbytes => ?_
          rwa [hbytes] at hr
        | some p' =>
          rw [hn] at h
          exact .next hp hab hn (ih h)
    · exact .behind (Nat.le_of_not_lt hp)

end Quiet

/-! ## A record that is spent -/

/-- A record that holds nothing and behind which there is nothing. -/
structure Spent (b : Build) (data : List UInt8) (c : Cut) : Prop where
  not_aborts : ¬ Aborts b c
  held_eq : c.held data = none
  behind : ∀ p, c.next = some p → data.length ≤ p

section Spent

variable {b : Build} {data : Slice UInt8} {p : Nat}

theorem extractStringField_spent {fieldNum : UInt32} (hp : p < data.val.length)
    (h : Spent b data.val (fieldCut (stringTag fieldNum) data.val p)) :
    EndsWith (extractStringFieldBody b data fieldNum) p (.ok none) := by
  have hout := scanFieldBody_outcome (b := b) (stringTag fieldNum) fromUtf8 none data hp
  cases hn : (fieldCut (stringTag fieldNum) data.val p).next with
  | none =>
    have hbody := hout.eq_of_not_aborts h.not_aborts
    rw [h.held_eq, hn] at hbody
    exact .of_done hbody
  | some p' =>
    exact .of_continues (continues_of_outcome hout h.not_aborts hn)
      (extractStringField_behind (h.behind p' hn))

theorem parseTokensField_spent {tokens : List String} (hp : p < data.val.length)
    (h : Spent b data.val (tokensCut data.val p)) :
    EndsWith (parseTokensFieldBody b data) (p, tokens) (.ok tokens) := by
  have hout := parseTokensFieldBody_outcome (b := b) data tokens hp
  have htokens : withToken data.val tokens (tokensCut data.val p) = tokens := by
    rw [withToken, h.held_eq]
    simp
  rw [htokens] at hout
  cases hn : (tokensCut data.val p).next with
  | none =>
    have hbody := hout.eq_of_not_aborts h.not_aborts
    rw [hn] at hbody
    exact .of_done hbody
  | some p' =>
    exact .of_continues (continues_of_outcome hout h.not_aborts hn)
      (parseTokensField_behind (h.behind p' hn))

end Spent

/-! ## A record cut short -/

/-- Where a record is cut: what is left of it. -/
inductive CutOf (r : Record) : List UInt8 → Prop where
  /-- Nothing is left of the value. -/
  | tag {rest : List UInt8} (h : rest <+: r.tag.bytes) : CutOf r rest
  /-- A part is left of a number or of a value of fixed size. -/
  | value {part : List UInt8} (hr : r.content.payload? = none) (hpart : part ≠ [])
      (h : part <+: r.content.bytes) (hne : part ≠ r.content.bytes) : CutOf r (r.tag.bytes ++ part)
  /-- A part is left of the length of a payload. -/
  | length {len : Varint} {payload part : List UInt8} {hlen : len.value = payload.length}
      (hr : r.content = .delimited len payload hlen) (hpart : part ≠ []) (h : part <+: len.bytes)
      (hne : part ≠ len.bytes) : CutOf r (r.tag.bytes ++ part)
  /-- A part, perhaps empty, is left of a payload. -/
  | payload {len : Varint} {payload part : List UInt8} {hlen : len.value = payload.length}
      (hr : r.content = .delimited len payload hlen) (h : part <+: payload)
      (hne : part ≠ payload) : CutOf r (r.tag.bytes ++ (len.bytes ++ part))

theorem exists_cutOf {r : Record} {rest : List UInt8} (h : rest <+: r.bytes)
    (hne : rest ≠ r.bytes) : CutOf r rest := by
  rcases prefix_append_cases h hne with ⟨htag, -⟩ | ⟨part, rfl, hpart, hne'⟩
  · exact .tag htag
  · by_cases hnil : part = []
    · subst hnil
      rw [List.append_nil]
      exact .tag (List.prefix_refl _)
    · cases hr : r.content with
      | delimited len payload hlen =>
        rw [hr] at hpart hne'
        rcases prefix_append_cases hpart hne' with ⟨h', hne''⟩ | ⟨part', rfl, h', hne''⟩
        · exact .length hr hnil h' hne''
        · exact .payload hr h' hne''
      | varint value => exact .value (by rw [hr]; rfl) hnil hpart hne'
      | fixed64 buf => exact .value (by rw [hr]; rfl) hnil hpart hne'
      | fixed32 buf => exact .value (by rw [hr]; rfl) hnil hpart hne'

section Cut

variable {b : Build} {data part : List UInt8} {p q : Nat} {r : Record}

/-- A varint cut short, or with nothing behind it, is read up to the end of the data. -/
theorem Reads.varintAt_prefix {v : Varint} (h : Reads data p part) (hpart : part <+: v.bytes) :
    (varintAt data p).2 = data.length := by
  rw [varintAt, h.drop_eq, h.length_eq]
  by_cases hne : part = v.bytes
  · have hv := decodeVarint_varint v []
    rw [List.append_nil] at hv
    rw [hne, hv]
  · have hmore := v.prefix_more hpart hne
    rw [decodeVarint_cut (fun byte hb => v.more_ge byte (hmore.subset hb))
      (Nat.le_trans hmore.length_le v.short)]

/-- The span that a length cut short announces. -/
theorem Reads.spanAt_prefix {v : Varint} (h : Reads data p part) (hpart : part <+: v.bytes)
    (hne : part ≠ v.bytes) :
    spanAt data p = ⟨data.length, groups part⟩ ∧ groups part < 2 ^ 63 := by
  have hmore := v.prefix_more hpart hne
  have hshort : part.length ≤ 9 := Nat.le_trans hmore.length_le v.short
  have hlt : groups part < 2 ^ 63 :=
    Nat.lt_of_lt_of_le (groups_lt part) (Nat.pow_le_pow_right (by omega) (by omega))
  refine ⟨?_, hlt⟩
  rw [spanAt, varintAt, h.drop_eq, h.length_eq,
    decodeVarint_cut (fun byte hb => v.more_ge byte (hmore.subset hb)) hshort]
  simp only
  rw [UInt64.toNat_ofNat', Nat.mod_eq_of_lt (by omega)]

/-- A record of which only the tag is left, or less. -/
theorem spent_of_end (wireType : UInt64) (hq : data.length ≤ q) :
    Spent b data (skipCut data wireType q) := by
  have hvarint : q ≤ (varintAt data q).2 := Nat.le_add_right q _
  refine ⟨?_, Cut.held_of_none (skipCut_own ..), ?_⟩
  · rintro ⟨l, hl | ⟨-, hl⟩, -⟩
    · rw [skipCut_own] at hl
      cases hl
    · unfold skipCut at hl
      split at hl
      · cases hl
      · cases hl
      · rw [if_neg (by omega)] at hl
        cases hl
      · cases hl
      · cases hl
  · intro p' hp'
    unfold skipCut at hp'
    split at hp'
    · cases hp'
      omega
    · cases hp'
      omega
    · rw [if_neg (by omega)] at hp'
      cases hp'
    · cases hp'
      omega
    · cases hp'

/-- A cut that announces no span aborts nothing. -/
theorem spent_of_next {p' : Nat} (hp : data.length ≤ p') :
    Spent b data ⟨none, none, some p'⟩ := by
  refine ⟨?_, rfl, ?_⟩
  · rintro ⟨l, hl | ⟨-, hl⟩, -⟩ <;> cases hl
  · rintro _ ⟨⟩
    exact hp

/-- Neither does one whose span fits and ends behind the data. -/
theorem spent_of_span {l : Span} (hfit : l.stop < usizeSize) (hl : data.length ≤ l.stop) :
    Spent b data ⟨none, some l, some (l.stop % usizeSize)⟩ := by
  refine ⟨?_, rfl, ?_⟩
  · rintro ⟨l', hl' | ⟨-, hl'⟩, hbig⟩
    · cases hl'
    · cases hl'
      omega
  · rintro _ ⟨⟩
    rwa [Nat.mod_eq_of_lt hfit]

/-- The wanted field, when it is too long for the data. -/
theorem spent_of_own {l : Span} (hfit : l.stop < usizeSize) (hl : data.length < l.stop) :
    Spent b data ⟨some l, none, none⟩ := by
  refine ⟨not_aborts_own (by omega), Cut.held_of_gt (l := l) rfl (by omega), ?_⟩
  rintro _ ⟨⟩

/-- A number or a value of fixed size that is cut short is skipped to the end of the data. -/
theorem spent_of_value (h : Reads data q part) (hr : r.content.payload? = none)
    (hpart : part <+: r.content.bytes) :
    Spent b data (skipCut data (UInt64.ofNat r.content.wireType) q) := by
  have hlen := hpart.length_le
  have hdata := h.length_eq
  cases hcontent : r.content with
  | varint value =>
    rw [hcontent] at hpart
    show Spent b data ⟨none, none, some (varintAt data q).2⟩
    exact spent_of_next (Nat.le_of_eq (h.varintAt_prefix hpart).symm)
  | fixed64 buf =>
    rw [hcontent, Content.bytes, buf.length_eq] at hlen
    show Spent b data ⟨none, none, some (q + 8)⟩
    exact spent_of_next (by omega)
  | delimited len payload hlen =>
    rw [hcontent] at hr
    cases hr
  | fixed32 buf =>
    rw [hcontent, Content.bytes, buf.length_eq] at hlen
    show Spent b data ⟨none, none, some (q + 4)⟩
    exact spent_of_next (by omega)

/-! ### The cuts -/

theorem fieldCut_of_tag (targetTag : UInt64) (h : Reads data p part)
    (hpart : part <+: r.tag.bytes) : Spent b data (fieldCut targetTag data p) := by
  unfold fieldCut
  simp only [h.varintAt_prefix hpart]
  rw [if_neg (fun hcase => Nat.lt_irrefl _ hcase.2.2)]
  exact spent_of_end _ (Nat.le_refl _)

theorem tokensCut_of_tag (h : Reads data p part) (hpart : part <+: r.tag.bytes) :
    Spent b data (tokensCut data p) := by
  unfold tokensCut
  simp only [h.varintAt_prefix hpart]
  split_ifs with htag hlt
  · exact absurd hlt (Nat.lt_irrefl _)
  · exact absurd hlt (Nat.lt_irrefl _)
  · refine ⟨?_, rfl, ?_⟩
    · rintro ⟨l, hl | ⟨-, hl⟩, -⟩ <;> cases hl
    · rintro _ ⟨⟩
  · exact spent_of_end _ (Nat.le_refl _)

/-- Skipping a payload whose length is `l`. -/
theorem skipCut_span {l : Span} (hq : q < data.length) (hl : spanAt data q = l) :
    skipCut data 2 q = ⟨none, some l, some (l.stop % usizeSize)⟩ := by
  show (if q < data.length then
    Cut.mk none (some (spanAt data q)) (some ((spanAt data q).stop % usizeSize)) else _) = _
  rw [if_pos hq, hl]

/-- The span of a payload that is cut short ends where the record would, behind the data. -/
theorem payload_stop {len : Varint} {payload : List UInt8} {hlen : len.value = payload.length}
    (h : Reads data p (r.tag.bytes ++ (len.bytes ++ part)))
    (hr : r.content = .delimited len payload hlen) (hpart : part <+: payload)
    (hne : part ≠ payload) :
    Span.stop ⟨p + r.tag.bytes.length + len.bytes.length, len.value⟩ = p + r.bytes.length ∧
      data.length < Span.stop ⟨p + r.tag.bytes.length + len.bytes.length, len.value⟩ := by
  have hlt : part.length < payload.length :=
    Nat.lt_of_le_of_ne hpart.length_le fun heq => hne (hpart.eq_of_length heq)
  have hdata := h.length_eq
  rw [List.length_append, List.length_append] at hdata
  rw [Record.length_bytes, hr, Content.bytes, List.length_append, Span.stop, hlen]
  simp only
  omega

/-- What is left of a record that no scan wants is spent. -/
theorem spent_of_other (fieldNum : UInt32) {rest : List UInt8} (hdata : data.length ≤ isizeMax)
    (hfit : p + r.bytes.length < usizeSize) (h : Reads data p rest) (hcut : CutOf r rest) :
    (r.payload? fieldNum.toNat = none → Spent b data (fieldCut (stringTag fieldNum) data p)) ∧
      (r.payload? 13 = none → Spent b data (tokensCut data p)) := by
  have hskip : ∀ part, rest = r.tag.bytes ++ part →
      Spent b data (skipCut data (UInt64.ofNat r.content.wireType) (p + r.tag.bytes.length)) →
      (r.payload? fieldNum.toNat = none → Spent b data (fieldCut (stringTag fieldNum) data p)) ∧
        (r.payload? 13 = none → Spent b data (tokensCut data p)) := by
    rintro part rfl hspent
    constructor
    · intro hr
      rwa [fieldCut_of_other h hr]
    · intro hr
      rwa [tokensCut_of_other h hr]
  cases hcut with
  | tag htag => exact ⟨fun _ => fieldCut_of_tag _ h htag, fun _ => tokensCut_of_tag h htag⟩
  | value hr _ hpart _ => exact hskip _ rfl (spent_of_value h.append hr hpart)
  | length hr hnil hpart hne =>
    obtain ⟨hl, hlt⟩ := h.append.spanAt_prefix hpart hne
    refine hskip _ rfl ?_
    rw [hr]
    show Spent b data (skipCut data 2 _)
    rw [skipCut_span (h.append.lt hnil) hl]
    refine spent_of_span ?_ (Nat.le_add_right _ _)
    unfold isizeMax at hdata
    unfold Span.stop usizeSize
    simp only
    omega
  | @payload len payload part hlen hr hpart hne =>
    have hnil := List.append_ne_nil_of_left_ne_nil len.bytes_ne_nil part
    refine hskip _ rfl ?_
    rw [hr]
    show Spent b data (skipCut data 2 _)
    obtain ⟨hstop, hlt⟩ := payload_stop h hr hpart hne
    rw [skipCut_span (h.append.lt hnil) h.append.spanAt_varint]
    exact spent_of_span (by rw [hstop]; exact hfit) (Nat.le_of_lt hlt)

end Cut

/-! ## The scanners on what is left -/

section Left

variable {b : Build} {data : Slice UInt8} {rest part : List UInt8} {p : Nat} {r : Record}
  {fieldNum : UInt32} {tokens : List String}

theorem extractStringField_other (hfit : p + r.bytes.length < usizeSize)
    (h : Reads data.val p rest) (hcut : CutOf r rest) (hr : r.payload? fieldNum.toNat = none) :
    EndsWith (extractStringFieldBody b data fieldNum) p (.ok none) := by
  by_cases hp : p < data.val.length
  · exact extractStringField_spent hp ((spent_of_other fieldNum data.length_le hfit h hcut).1 hr)
  · exact extractStringField_behind (Nat.le_of_not_lt hp)

theorem parseTokensField_other (hfit : p + r.bytes.length < usizeSize)
    (h : Reads data.val p rest) (hcut : CutOf r rest) (hr : r.payload? 13 = none) :
    EndsWith (parseTokensFieldBody b data) (p, tokens) (.ok tokens) := by
  by_cases hp : p < data.val.length
  · exact parseTokensField_spent hp ((spent_of_other 13 data.length_le hfit h hcut).2 hr)
  · exact parseTokensField_behind (Nat.le_of_not_lt hp)

/-- A wanted record of which only the tag is left, or less. -/
theorem extractStringField_tag (h : Reads data.val p rest) (htag : rest <+: r.tag.bytes) :
    EndsWith (extractStringFieldBody b data fieldNum) p (.ok none) := by
  by_cases hp : p < data.val.length
  · exact extractStringField_spent hp (fieldCut_of_tag _ h htag)
  · exact extractStringField_behind (Nat.le_of_not_lt hp)

theorem parseTokensField_tag (h : Reads data.val p rest) (htag : rest <+: r.tag.bytes) :
    EndsWith (parseTokensFieldBody b data) (p, tokens) (.ok tokens) := by
  by_cases hp : p < data.val.length
  · exact parseTokensField_spent hp (tokensCut_of_tag h htag)
  · exact parseTokensField_behind (Nat.le_of_not_lt hp)

/-- A length cut short announces less than the slice's end is from the last `usize`. -/
theorem cutLength_fits (hlt : groups part < 2 ^ 63) :
    Span.stop ⟨data.val.length, groups part⟩ < usizeSize := by
  have := data.length_le
  unfold isizeMax at this
  unfold Span.stop usizeSize
  simp only
  omega

theorem cutLength_stop_le_iff {n size : Nat} : Span.stop ⟨n, size⟩ ≤ n ↔ size = 0 := by
  unfold Span.stop
  simp only
  omega

theorem bytes_of_end {data : List UInt8} {l : Span} (hl : data.length ≤ l.start) :
    l.bytes data = [] :=
  List.drop_eq_nil_of_le (Nat.le_trans (List.length_take_le' _ _) hl)

/-- A wanted record of whose length a part is left: an empty string is found where the groups left
are zero. -/
theorem extractStringField_length {len : Varint} {payload : List UInt8}
    (h : Reads data.val p (r.tag.bytes ++ part)) (hr : r.payload? fieldNum.toNat = some payload)
    (hnil : part ≠ []) (hpart : part <+: len.bytes) (hne : part ≠ len.bytes) :
    EndsWith (extractStringFieldBody b data fieldNum) p
      (.ok (if groups part = 0 then some "" else none)) := by
  obtain ⟨hl, hlt⟩ := h.append.spanAt_prefix hpart hne
  have hp := h.lt (List.append_ne_nil_of_left_ne_nil r.tag.bytes_ne_nil _)
  have hcut := fieldCut_of_wanted h hnil hr hl (cutLength_fits hlt)
  by_cases hzero : groups part = 0
  · have hle := cutLength_stop_le_iff (n := data.val.length).mpr hzero
    rw [if_pos hle] at hcut
    have hout := scanFieldBody_outcome (b := b) (stringTag fieldNum) fromUtf8 none data hp
    rw [hcut, Cut.held_of_le rfl hle] at hout
    rw [bytes_of_end (Nat.le_refl _)] at hout
    rw [if_pos hzero]
    exact .of_done (hout.eq_of_not_aborts (not_aborts_own (Nat.not_le.mpr (cutLength_fits hlt))))
  · have hgt := fun hle => hzero (cutLength_stop_le_iff (n := data.val.length).mp hle)
    rw [if_neg hgt] at hcut
    rw [if_neg hzero]
    refine extractStringField_spent hp ?_
    rw [hcut]
    have hskip : skipCut data.val 2 data.val.length = ⟨none, none, none⟩ :=
      if_neg (Nat.lt_irrefl _)
    rw [hskip]
    exact spent_of_own (cutLength_fits hlt) (Nat.lt_of_not_le hgt)

theorem parseTokensField_length (tokens : List String) {len : Varint} {payload : List UInt8}
    (h : Reads data.val p (r.tag.bytes ++ part)) (hr : r.payload? 13 = some payload)
    (hnil : part ≠ []) (hpart : part <+: len.bytes) (hne : part ≠ len.bytes) :
    EndsWith (parseTokensFieldBody b data) (p, tokens)
      (.ok (tokens ++ if groups part = 0 then [""] else [])) := by
  obtain ⟨hl, hlt⟩ := h.append.spanAt_prefix hpart hne
  have hp := h.lt (List.append_ne_nil_of_left_ne_nil r.tag.bytes_ne_nil _)
  have hcut := tokensCut_of_wanted h hnil hr hl
  by_cases hzero : groups part = 0
  · have hle := cutLength_stop_le_iff (n := data.val.length).mpr hzero
    rw [if_pos hle] at hcut
    have hout := parseTokensFieldBody_outcome (b := b) data tokens hp
    have hab : ¬ Aborts b (tokensCut data.val p) := by
      rw [hcut]
      exact not_aborts_own (Nat.not_le.mpr (cutLength_fits hlt))
    have hstep := continues_of_outcome hout hab (by rw [hcut])
    rw [hcut, withToken, Cut.held_of_le rfl hle, bytes_of_end (Nat.le_refl _)] at hstep
    rw [if_pos hzero]
    exact .of_continues hstep (parseTokensField_behind (Nat.le_add_right _ _))
  · have hgt := fun hle => hzero (cutLength_stop_le_iff (n := data.val.length).mp hle)
    rw [if_neg hgt] at hcut
    rw [if_neg hzero, List.append_nil]
    refine parseTokensField_spent hp ?_
    rw [hcut]
    exact spent_of_own (cutLength_fits hlt) (Nat.lt_of_not_le hgt)

/-- The token scan gives up on a payload cut short. -/
theorem parseTokensField_payload {len : Varint} {payload : List UInt8}
    {hlen : len.value = payload.length} (hfit : p + r.bytes.length < usizeSize)
    (h : Reads data.val p (r.tag.bytes ++ (len.bytes ++ part)))
    (hcontent : r.content = .delimited len payload hlen) (hr : r.payload? 13 = some payload)
    (hpart : part <+: payload) (hne : part ≠ payload) :
    EndsWith (parseTokensFieldBody b data) (p, tokens) (.ok tokens) := by
  have hp := h.lt (List.append_ne_nil_of_left_ne_nil r.tag.bytes_ne_nil _)
  have hnil := List.append_ne_nil_of_left_ne_nil len.bytes_ne_nil part
  obtain ⟨hstop, hlt⟩ := payload_stop h hcontent hpart hne
  have hcut := tokensCut_of_wanted h hnil hr h.append.spanAt_varint
  rw [if_neg (Nat.not_le.mpr hlt)] at hcut
  refine parseTokensField_spent hp ?_
  rw [hcut]
  exact spent_of_own (by rw [hstop]; exact hfit) hlt

/-- The scan for one field gives up on a payload of which nothing is left. Of one of which
something is left it takes the first bytes for another length, and goes on behind that. -/
theorem extractStringField_payload {len : Varint} {payload : List UInt8}
    {hlen : len.value = payload.length} (hfit : p + r.bytes.length < usizeSize)
    (h : Reads data.val p (r.tag.bytes ++ (len.bytes ++ part)))
    (hcontent : r.content = .delimited len payload hlen)
    (hr : r.payload? fieldNum.toNat = some payload) (hpart : part <+: payload)
    (hne : part ≠ payload) {wanted : Option String} {inner : Span}
    (hinner : spanAt data.val (p + r.tag.bytes.length + len.bytes.length) = inner) :
    Quiet b data.val (stringTag fieldNum) wanted p ↔
      (part ≠ [] → (b = .checked → inner.stop < usizeSize) ∧
        Quiet b data.val (stringTag fieldNum) wanted (inner.stop % usizeSize)) := by
  have hp := h.lt (List.append_ne_nil_of_left_ne_nil r.tag.bytes_ne_nil _)
  have hnil := List.append_ne_nil_of_left_ne_nil len.bytes_ne_nil part
  obtain ⟨hstop, hlt⟩ := payload_stop h hcontent hpart hne
  have hown : Span.stop ⟨p + r.tag.bytes.length + len.bytes.length, len.value⟩ < usizeSize := by
    rw [hstop]
    exact hfit
  have hcut := fieldCut_of_wanted h hnil hr h.append.spanAt_varint hown
  rw [if_neg (Nat.not_le.mpr hlt)] at hcut
  have hstart := h.append.append
  by_cases hpnil : part = []
  · subst hpnil
    have hend : skipCut data.val 2 (p + r.tag.bytes.length + len.bytes.length) =
        ⟨none, none, none⟩ := by
      refine if_neg ?_
      rw [hstart.length_eq]
      exact Nat.lt_irrefl _
    rw [hend] at hcut
    have hspent : Spent b data.val (fieldCut (stringTag fieldNum) data.val p) := by
      rw [hcut]
      exact spent_of_own hown hlt
    constructor
    · intro _ hne'
      exact absurd rfl hne'
    · intro _
      refine .last hp hspent.not_aborts (by rw [hcut]) fun bytes hbytes => ?_
      rw [hspent.held_eq] at hbytes
      cases hbytes
  · rw [skipCut_span (hstart.lt hpnil) hinner] at hcut
    constructor
    · intro hq _
      cases hq with
      | behind hbehind => exact absurd hp (Nat.not_lt.mpr hbehind)
      | last _ _ hn _ =>
        rw [hcut] at hn
        cases hn
      | next _ hab hn hq =>
        rw [hcut] at hab hn
        cases hn
        refine ⟨fun hb => Nat.lt_of_not_le fun hbig => hab ?_, hq⟩
        exact ⟨inner, Or.inr ⟨hb, rfl⟩, hbig⟩
    · intro hq
      obtain ⟨hinner', hq⟩ := hq hpnil
      refine .next hp ?_ (by rw [hcut]) hq
      rw [hcut]
      rintro ⟨l, hl | ⟨hb, hl⟩, hbig⟩
      · cases hl
        exact absurd hown (Nat.not_lt.mpr hbig)
      · cases hl
        exact absurd (hinner' hb) (Nat.not_lt.mpr hbig)

end Left

/-! ## When a cut is noticed -/

/-- Of the length of a payload some groups are left, all of them zero. -/
def ZeroLength (r : Record) (rest : List UInt8) : Prop :=
  ∃ len payload part, ∃ hlen : len.value = payload.length,
    r.content = .delimited len payload hlen ∧ rest = r.tag.bytes ++ part ∧ part ≠ [] ∧
      part <+: len.bytes ∧ part ≠ len.bytes ∧ groups part = 0

/-- The cut in the record `r` behind the records `before`, which leaves `rest` of it, misleads no
scanner. -/
structure CutSafe (b : Build) (data : List UInt8) (before : List Record) (r : Record)
    (after : List Record) (rest : List UInt8) : Prop where
  /-- An empty token that is found in place of a longer one is the next token anyway. -/
  token : r.number = 13 → ZeroLength r rest →
    [""] <+: (payloads 13 (r :: after)).filterMap fromUtf8
  /-- An empty string that is found in place of a payload is that payload, or an earlier field is
  found instead. -/
  length : payloads r.number before = [] → ZeroLength r rest → r.content.payload? = some []
  /-- Of a payload cut short the first bytes are read as a length once more, and what lies behind
  that many bytes as fields; nothing wrong is found there, or an earlier field is found instead. -/
  payload : payloads r.number before = [] → ∀ len payload part,
    ∀ hlen : len.value = payload.length, r.content = .delimited len payload hlen →
      rest = r.tag.bytes ++ (len.bytes ++ part) → part <+: payload → part ≠ payload → part ≠ [] →
      ∀ inner,
        spanAt data ((message before).length + r.tag.bytes.length + len.bytes.length) = inner →
        (b = .checked → inner.stop < usizeSize) ∧
          Quiet b data (stringTag (UInt32.ofNat r.number)) (fromUtf8 payload)
            (inner.stop % usizeSize)

/-- What the scanners report of `p` they report of `m`. -/
structure Truthful (b : Build) (m p : Slice UInt8) : Prop where
  tokens : ∃ short full, Returns (parseTokensField b p) short ∧
    Returns (parseTokensField b m) full ∧ short <+: full
  field : ∀ fieldNum, ∃ short full, Returns (extractStringField b p fieldNum) short ∧
    Returns (extractStringField b m fieldNum) full ∧ (short = none ∨ short = full)

theorem fromUtf8_eq_empty_iff {payload : List UInt8} :
    fromUtf8 payload = some "" ↔ payload = [] := by
  constructor
  · intro h
    unfold fromUtf8 String.fromUTF8? at h
    split at h
    · have hbytes := congrArg String.toByteArray (Option.some.inj h)
      have hsize := congrArg ByteArray.size hbytes
      have hlen : payload.length = 0 := by simpa [String.fromUTF8, ByteArray.size] using hsize
      exact List.length_eq_zero_iff.mp hlen
    · cases h
  · rintro rfl
    rfl

theorem toNat_number (r : Record) : (UInt32.ofNat r.number).toNat = r.number := by
  have := r.number_lt
  rw [UInt32.toNat_ofNat']
  omega

theorem payload?_number {r : Record} {len : Varint} {payload : List UInt8}
    {hlen : len.value = payload.length} (hr : r.content = .delimited len payload hlen) :
    r.payload? r.number = some payload := by
  rw [Record.payload?, if_pos rfl, hr]
  rfl

section Decomposed

variable {b : Build} {data : Slice UInt8} {before after : List Record} {r : Record}
  {rest : List UInt8} {fieldNum : UInt32}

theorem reads_rest (hdata : data.val = message before ++ rest) :
    Reads data.val 0 (message before ++ rest) ∧ Reads data.val (message before).length rest := by
  have h : Reads data.val 0 (message before ++ rest) := by
    rw [← hdata]
    exact .start _
  have hrest := h.append
  rw [Nat.zero_add] at hrest
  exact ⟨h, hrest⟩

/-- Behind records without the field, the scan is decided by what is left. -/
theorem reports_iff_quiet (hdata : data.val = message before ++ rest)
    (hbefore : payloads fieldNum.toNat before = []) {wanted : Option String} :
    (∃ short, Returns (extractStringField b data fieldNum) short ∧
        (short = none ∨ short = wanted)) ↔
      Quiet b data.val (stringTag fieldNum) wanted (message before).length := by
  have hvisits := visits_of_payloads_nil (b := b) (reads_rest hdata).1 hbefore
  rw [Nat.zero_add] at hvisits
  constructor
  · rintro ⟨short, hshort, hor⟩
    have hends : EndsWith (extractStringFieldBody b data fieldNum) 0 (.ok short) := hshort
    exact quiet_of_ends (hends.forward hvisits) hor
  · intro hq
    obtain ⟨short, hends, hor⟩ := ends_of_quiet hq
    exact ⟨short, EndsWith.of_visits hvisits hends, hor⟩

/-- The scan for the field whose record is cut. -/
theorem quiet_iff (hfit : (message before).length + r.bytes.length < usizeSize)
    (hdata : data.val = message before ++ rest) (hcut : CutOf r rest) {payload : List UInt8}
    (hr : r.payload? fieldNum.toNat = some payload) :
    Quiet b data.val (stringTag fieldNum) (fromUtf8 payload) (message before).length ↔
      (ZeroLength r rest → payload = []) ∧
      ∀ len part, ∀ hlen : len.value = payload.length, r.content = .delimited len payload hlen →
        rest = r.tag.bytes ++ (len.bytes ++ part) → part <+: payload → part ≠ payload →
        part ≠ [] → ∀ inner,
          spanAt data.val ((message before).length + r.tag.bytes.length + len.bytes.length) =
            inner →
          (b = .checked → inner.stop < usizeSize) ∧
            Quiet b data.val (stringTag fieldNum) (fromUtf8 payload)
              (inner.stop % usizeSize) := by
  have hreads := (reads_rest hdata).2
  constructor
  · intro hq
    obtain ⟨r', hends, hor⟩ := ends_of_quiet hq
    constructor
    · rintro ⟨len, payload', part, hlen, hcontent, rfl, hnil, hpart, hne, hzero⟩
      have hempty := extractStringField_length (b := b) hreads hr hnil hpart hne
      rw [if_pos hzero] at hempty
      have heq := hends.unique hempty
      cases heq
      rcases hor with hor | hor
      · cases hor
      · exact fromUtf8_eq_empty_iff.mp hor.symm
    · rintro len part hlen hcontent rfl hpart hne hnil inner hinner
      exact (extractStringField_payload hfit hreads hcontent hr hpart hne hinner).mp hq hnil
  · rintro ⟨hzero, hpayload⟩
    obtain ⟨-, len, hlen, hcontent⟩ := exists_of_payload? hr
    cases hcut with
    | tag htag => exact quiet_of_ends (extractStringField_tag hreads htag) (Or.inl rfl)
    | value hvalue =>
      rw [hcontent] at hvalue
      cases hvalue
    | @length len' payload' part hlen' hcontent' hnil hpart hne =>
      refine quiet_of_ends (extractStringField_length hreads hr hnil hpart hne) ?_
      split_ifs with hgroups
      · right
        rw [hzero ⟨len', payload', part, hlen', hcontent', rfl, hnil, hpart, hne, hgroups⟩]
        rfl
      · exact Or.inl rfl
    | @payload len' payload' part hlen' hcontent' hpart hne =>
      have heq := hcontent'.symm.trans hcontent
      cases heq
      refine (extractStringField_payload hfit hreads hcontent hr hpart hne rfl).mpr fun hnil => ?_
      exact hpayload len part hlen hcontent rfl hpart hne hnil _ rfl

/-- The tokens in front of the cut, and what may follow them. -/
theorem tokens_iff (hfit : (message before).length + r.bytes.length < usizeSize)
    (hdata : data.val = message before ++ rest) (hcut : CutOf r rest) (others : List String) :
    (∃ short, Returns (parseTokensField b data) short ∧
        short <+: (payloads 13 before).filterMap fromUtf8 ++ others) ↔
      (r.number = 13 → ZeroLength r rest → [""] <+: others) := by
  have hreads := (reads_rest hdata).2
  have hvisits := visits_tokens (b := b) [] (reads_rest hdata).1
  rw [Nat.zero_add, List.nil_append] at hvisits
  set tokens := (payloads 13 before).filterMap fromUtf8
  have hnone : EndsWith (parseTokensFieldBody b data) ((message before).length, tokens)
      (.ok tokens) → ∃ short, Returns (parseTokensField b data) short ∧ short <+: tokens ++ others :=
    fun hends => ⟨tokens, EndsWith.of_visits hvisits hends, List.prefix_append _ _⟩
  constructor
  · rintro ⟨short, hshort, hpre⟩ hnumber ⟨len, payload, part, hlen, hr, rfl, hnil, hpart, hne, hzero⟩
    have hpayload := payload?_number hr
    rw [hnumber] at hpayload
    have hends : EndsWith (parseTokensFieldBody b data) (0, []) (.ok short) := hshort
    have hlength := parseTokensField_length (b := b) tokens hreads hpayload hnil hpart hne
    rw [if_pos hzero] at hlength
    have heq := (hends.forward hvisits).unique hlength
    cases heq
    exact (List.prefix_append_right_inj tokens).mp hpre
  · intro hzero
    cases hr : r.payload? 13 with
    | none => exact hnone (parseTokensField_other hfit hreads hcut hr)
    | some payload =>
      have hr' : r.payload? (13 : UInt32).toNat = some payload := hr
      obtain ⟨htag, len, hlen, hcontent⟩ := exists_of_payload? hr'
      cases hcut with
      | tag htag => exact hnone (parseTokensField_tag hreads htag)
      | value hvalue =>
        rw [hcontent] at hvalue
        cases hvalue
      | @length len' payload' part hlen' hcontent' hnil hpart hne =>
        refine ⟨_, EndsWith.of_visits hvisits
          (parseTokensField_length tokens hreads hr hnil hpart hne), ?_⟩
        refine (List.prefix_append_right_inj tokens).mpr ?_
        split_ifs with hgroups
        · exact hzero ((tag_eq_stringTag_iff r 13).mp htag).1
            ⟨len', payload', part, hlen', hcontent', rfl, hnil, hpart, hne, hgroups⟩
        · exact List.nil_prefix
      | @payload len' payload' part hlen' hcontent' hpart hne =>
        have heq := hcontent'.symm.trans hcontent
        cases heq
        exact hnone (parseTokensField_payload hfit hreads hcontent hr hpart hne)

end Decomposed

section Whole

variable {b : Build} {m p : Slice UInt8} {before after : List Record} {r : Record}
  {rest : List UInt8}

theorem fits_of_message (hm : m.val = message (before ++ r :: after)) :
    (message before).length + r.bytes.length < usizeSize := by
  have := m.length_le
  rw [hm, message_append, message_cons, List.length_append, List.length_append] at this
  unfold isizeMax at this
  unfold usizeSize
  omega

/-- The tokens in front of the record that is cut are reported in any case. -/
theorem truthful_tokens_iff (hm : m.val = message (before ++ r :: after))
    (hdata : p.val = message before ++ rest) (hcut : CutOf r rest) :
    (∃ short full, Returns (parseTokensField b p) short ∧ Returns (parseTokensField b m) full ∧
        short <+: full) ↔
      (r.number = 13 → ZeroLength r rest →
        [""] <+: (payloads 13 (r :: after)).filterMap fromUtf8) := by
  have hfull := parseTokensField_message (b := b) hm
  rw [payloads_append, List.filterMap_append] at hfull
  rw [← tokens_iff (b := b) (fits_of_message hm) hdata hcut]
  constructor
  · rintro ⟨short, full, hshort, hfull', hpre⟩
    cases hfull'.unique hfull
    exact ⟨short, hshort, hpre⟩
  · rintro ⟨short, hshort, hpre⟩
    exact ⟨short, _, hshort, hfull, hpre⟩

/-- A field is reported rightly if it stands in front of the record that is cut, or if that record
does not have it. -/
theorem truthful_field_of_other {fieldNum : UInt32} (hm : m.val = message (before ++ r :: after))
    (hdata : p.val = message before ++ rest) (hcut : CutOf r rest)
    (hother : payloads fieldNum.toNat before ≠ [] ∨ r.payload? fieldNum.toNat = none) :
    ∃ short full, Returns (extractStringField b p fieldNum) short ∧
      Returns (extractStringField b m fieldNum) full ∧ (short = none ∨ short = full) := by
  have hfull := extractStringField_message (b := b) hm fieldNum
  cases hbefore : payloads fieldNum.toNat before with
  | nil =>
    have hr : r.payload? fieldNum.toNat = none := hother.resolve_left fun hne => hne hbefore
    have hends := extractStringField_other (b := b) (fits_of_message hm) (reads_rest hdata).2 hcut hr
    have hquiet : Quiet b p.val (stringTag fieldNum) none (message before).length :=
      quiet_of_ends hends (Or.inl rfl)
    obtain ⟨short, hshort, hor⟩ := (reports_iff_quiet hdata hbefore).mpr hquiet
    rw [or_self] at hor
    exact ⟨short, _, hshort, hfull, Or.inl hor⟩
  | cons payload others =>
    have hshort := ends_of_payloads_cons (b := b) (reads_rest hdata).1 hbefore
    rw [payloads_append, hbefore] at hfull
    exact ⟨_, _, hshort, hfull, Or.inr rfl⟩

/-- The field whose record is cut. -/
theorem truthful_field_iff {fieldNum : UInt32} {payload : List UInt8}
    (hm : m.val = message (before ++ r :: after)) (hdata : p.val = message before ++ rest)
    (hbefore : payloads fieldNum.toNat before = [])
    (hr : r.payload? fieldNum.toNat = some payload) :
    (∃ short full, Returns (extractStringField b p fieldNum) short ∧
        Returns (extractStringField b m fieldNum) full ∧ (short = none ∨ short = full)) ↔
      Quiet b p.val (stringTag fieldNum) (fromUtf8 payload) (message before).length := by
  have hfull := extractStringField_message (b := b) hm fieldNum
  rw [payloads_append, hbefore, payloads_cons, hr] at hfull
  rw [← reports_iff_quiet hdata hbefore]
  constructor
  · rintro ⟨short, full, hshort, hfull', hor⟩
    cases hfull'.unique hfull
    exact ⟨short, hshort, hor⟩
  · rintro ⟨short, hshort, hor⟩
    exact ⟨short, _, hshort, hfull, hor⟩

/-- One place where a message can be cut. -/
theorem truthful_iff_cutSafe (hm : m.val = message (before ++ r :: after))
    (hdata : p.val = message before ++ rest) (hcut : CutOf r rest) :
    Truthful b m p ↔ CutSafe b p.val before r after rest := by
  have htokens := truthful_tokens_iff (b := b) hm hdata hcut
  have hfit := fits_of_message hm
  constructor
  · rintro ⟨hT, hF⟩
    have hquiet : ∀ len payload, ∀ hlen : len.value = payload.length,
        r.content = .delimited len payload hlen → payloads r.number before = [] →
        Quiet b p.val (stringTag (UInt32.ofNat r.number)) (fromUtf8 payload)
          (message before).length := by
      intro len payload hlen hcontent hbefore
      have hr := payload?_number hcontent
      rw [← toNat_number r] at hbefore hr
      exact (truthful_field_iff hm hdata hbefore hr).mp (hF _)
    refine ⟨htokens.mp hT, ?_, ?_⟩
    · rintro hbefore ⟨len, payload, part, hlen, hcontent, hzero⟩
      have hr := payload?_number hcontent
      rw [← toNat_number r] at hr
      have hnil := ((quiet_iff hfit hdata hcut hr).mp (hquiet _ _ hlen hcontent hbefore)).1
        ⟨len, payload, part, hlen, hcontent, hzero⟩
      rw [hcontent, Content.payload?, hnil]
    · intro hbefore len payload part hlen hcontent
      have hr := payload?_number hcontent
      rw [← toNat_number r] at hr
      exact ((quiet_iff hfit hdata hcut hr).mp (hquiet _ _ hlen hcontent hbefore)).2 len part hlen
        hcontent
  · rintro ⟨htoken, hlength, hpayload⟩
    refine ⟨htokens.mpr htoken, fun fieldNum => ?_⟩
    by_cases hother : payloads fieldNum.toNat before ≠ [] ∨ r.payload? fieldNum.toNat = none
    · exact truthful_field_of_other hm hdata hcut hother
    · obtain ⟨hbefore, hr⟩ := not_or.mp hother
      have hbefore := not_not.mp hbefore
      obtain ⟨payload, hr⟩ := Option.ne_none_iff_exists'.mp hr
      obtain ⟨htag, len, hlen, hcontent⟩ := exists_of_payload? hr
      have hnumber := ((tag_eq_stringTag_iff r fieldNum).mp htag).1
      have hfieldNum : UInt32.ofNat r.number = fieldNum := by
        rw [hnumber, UInt32.ofNat_toNat]
      have hbefore' : payloads r.number before = [] := by
        rw [hnumber]
        exact hbefore
      refine (truthful_field_iff hm hdata hbefore hr).mpr
        ((quiet_iff hfit hdata hcut hr).mpr ⟨fun hzero => ?_, ?_⟩)
      · have hnil := hlength hbefore' hzero
        rw [hcontent] at hnil
        exact Option.some.inj hnil
      · rw [← hfieldNum]
        intro len' part hlen' hcontent'
        exact hpayload hbefore' len' payload part hlen' hcontent'

end Whole

/-- What the scanners report of the first part of a message they report of the whole message,
exactly when the cut is safe. -/
theorem truthful_iff (b : Build) (rs : List Record) (m p : Slice UInt8) (hm : m.val = message rs)
    (hp : p.val <+: m.val) :
    Truthful b m p ↔
      ∀ before r after rest, rs = before ++ r :: after → p.val = message before ++ rest →
        rest <+: r.bytes → rest ≠ r.bytes → CutSafe b p.val before r after rest := by
  constructor
  · rintro h before r after rest rfl hdata hrest hne
    exact (truthful_iff_cutSafe hm hdata (exists_cutOf hrest hne)).mp h
  · intro h
    rw [hm] at hp
    rcases prefix_message hp with hwhole | ⟨before, r, after, rest, rfl, hdata, hrest, hne⟩
    · refine ⟨⟨_, _, parseTokensField_message hwhole, parseTokensField_message hm,
        List.prefix_refl _⟩, fun fieldNum => ?_⟩
      exact ⟨_, _, extractStringField_message hwhole fieldNum,
        extractStringField_message hm fieldNum, Or.inr rfl⟩
    · exact (truthful_iff_cutSafe hm hdata (exists_cutOf hrest hne)).mpr
        (h before r after rest rfl hdata hrest hne)

/-- A token of 128 bytes. -/
def longToken : Record where
  number := 13
  tag := ⟨[], 0x6A, by simp, by decide, by decide, by decide⟩
  content := .delimited ⟨[0x80], 0x01, by simp, by decide, by decide, by decide⟩
    (List.replicate 128 0x78) (by rw [List.length_replicate]; decide)
  number_pos := by decide
  number_lt := by decide
  tag_value := by decide

/-- The message that holds the long token. -/
def longMessage : Slice UInt8 where
  val := message [longToken]
  length_le := by
    rw [message_cons, message_nil, List.append_nil, Record.length_bytes]
    have hcontent : longToken.content.bytes.length = 2 + 128 := by
      show ([0x80, 0x01] ++ List.replicate 128 0x78 : List UInt8).length = 2 + 128
      rw [List.length_append, List.length_replicate]
      rfl
    rw [hcontent]
    decide

theorem prefix_longMessage {front : List UInt8} (h : front <+: [0x6A, 0x80]) :
    front <+: longMessage.val :=
  h.trans ⟨0x01 :: (List.replicate 128 0x78 ++ []), rfl⟩

/-- A cut right behind the tag of the long token is safe. -/
theorem truthful_iff_longToken : Truthful .checked longMessage ⟨[0x6A], by decide⟩ := by
  refine (truthful_iff .checked [longToken] longMessage ⟨[0x6A], by decide⟩ rfl
    (prefix_longMessage ⟨[0x80], rfl⟩)).mpr ?_
  rintro before r after rest hrs hdata - -
  obtain ⟨rfl, rfl⟩ : before = [] ∧ r = longToken := by
    cases before with
    | nil => exact ⟨rfl, (List.cons.inj hrs).1.symm⟩
    | cons r' before =>
      have hnil := (List.cons.inj hrs).2
      simp at hnil
  have hrest : rest = [0x6A] := hdata.symm
  have hshort : ∀ part : List UInt8, part ≠ [] → rest ≠ longToken.tag.bytes ++ part := by
    rintro part hpart rfl
    exact hpart (List.cons.inj hrest).2
  refine ⟨?_, ?_, ?_⟩
  · rintro - ⟨len, payload, part, hlen, -, hpart, hnil, -⟩
    exact absurd hpart (hshort part hnil)
  · rintro - ⟨len, payload, part, hlen, -, hpart, hnil, -⟩
    exact absurd hpart (hshort part hnil)
  · rintro - len payload part hlen - hpart
    exact absurd hpart (hshort _ (List.append_ne_nil_of_left_ne_nil len.bytes_ne_nil _))

/-- Cut behind the first byte of its length, the long token is reported as an empty string. -/
theorem not_truthful_longToken :
    (⟨[0x6A, 0x80], by decide⟩ : Slice UInt8).val <+: longMessage.val ∧
      ¬ Truthful .checked longMessage ⟨[0x6A, 0x80], by decide⟩ := by
  refine ⟨prefix_longMessage (List.prefix_refl _), ?_⟩
  rintro ⟨-, hfield⟩
  obtain ⟨short, full, hshort, hfull, hor⟩ := hfield 13
  have hempty : Returns (extractStringField .checked ⟨[0x6A, 0x80], by decide⟩ 13) (some "") :=
    ⟨1, by decide +kernel⟩
  have hmessage : longMessage.val = message [longToken] := rfl
  have hpayload := extractStringField_message (b := .checked) hmessage 13
  have hlong : longToken.payload? (13 : UInt32).toNat = some (List.replicate 128 0x78) :=
    payload?_number rfl
  rw [payloads_cons, hlong, Option.toList_some, List.singleton_append, List.head?_cons,
    Option.bind_some] at hpayload
  rw [hshort.unique hempty, hfull.unique hpayload] at hor
  rcases hor with hor | hor
  · cases hor
  · have hnil := congrArg List.length (fromUtf8_eq_empty_iff.mp hor.symm)
    rw [List.length_replicate] at hnil
    cases hnil

end Hwwctl.Protocol
