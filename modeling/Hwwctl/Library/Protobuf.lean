import Hwwctl.Library.Machine

/-!
# The protobuf wire format

What a protobuf message is, apart from any program that reads or writes one: LEB-128 varints, the
records of the four wire types, and messages as records one after the other.
-/

namespace Protobuf

open Machine

/-! ## Varints -/

/-- The number that groups of seven bits stand for, the least significant group first. -/
def groups : List UInt8 → Nat
  | [] => 0
  | byte :: bytes => byte.toNat % 128 + 128 * groups bytes

@[simp] theorem groups_nil : groups [] = 0 := rfl

theorem groups_cons (byte : UInt8) (bytes : List UInt8) :
    groups (byte :: bytes) = byte.toNat % 128 + 128 * groups bytes := rfl

theorem two_pow_groups (n : Nat) : 2 ^ (7 * (n + 1)) = 128 * 2 ^ (7 * n) := by
  rw [Nat.mul_add, Nat.pow_add, Nat.mul_comm]

theorem groups_append (front back : List UInt8) :
    groups (front ++ back) = groups front + 2 ^ (7 * front.length) * groups back := by
  induction front with
  | nil => simp
  | cons byte front ih =>
    rw [List.cons_append, groups_cons, groups_cons, ih, List.length_cons, two_pow_groups,
      Nat.mul_add, Nat.mul_assoc]
    omega

theorem groups_lt (bytes : List UInt8) : groups bytes < 2 ^ (7 * bytes.length) := by
  induction bytes with
  | nil => simp
  | cons byte bytes ih =>
    have := Nat.mod_lt byte.toNat (show 0 < 128 by omega)
    rw [groups_cons, List.length_cons, two_pow_groups]
    omega

/-- A number of up to 64 bits, in up to ten bytes of which all but the last have their top bit
set. Leading zero groups are allowed. -/
structure Varint where
  /-- The bytes that announce another. -/
  more : List UInt8
  /-- The last byte. -/
  last : UInt8
  more_ge : ∀ byte ∈ more, 128 ≤ byte.toNat
  last_lt : last.toNat < 128
  short : more.length ≤ 9
  fits : groups (more ++ [last]) < 2 ^ 64

namespace Varint

/-- The bytes of the varint. -/
def bytes (v : Varint) : List UInt8 := v.more ++ [v.last]

/-- The number it stands for. -/
def value (v : Varint) : Nat := groups v.bytes

theorem value_lt (v : Varint) : v.value < 2 ^ 64 := v.fits

theorem bytes_ne_nil (v : Varint) : v.bytes ≠ [] := by simp [bytes]

theorem no_more : ∀ b ∈ ([] : List UInt8), 128 ≤ b.toNat := by simp

/-- The varint of one byte. -/
def single (n : Nat) (h : n < 128) : Varint where
  more := []
  last := .ofNat n
  more_ge := no_more
  last_lt := by
    rw [UInt8.toNat_ofNat']
    omega
  short := Nat.zero_le _
  fits := by
    have hlt := groups_lt [UInt8.ofNat n]
    exact Nat.lt_of_lt_of_le hlt (Nat.pow_le_pow_right (by decide) (by simp))

theorem value_single (n : Nat) (h : n < 128) : (single n h).value = n := by
  show (UInt8.ofNat n).toNat % 128 + 128 * 0 = n
  rw [UInt8.toNat_ofNat']
  omega

/-- A part cut off at the front has lost the last byte. -/
theorem prefix_more (v : Varint) {part : List UInt8} (h : part <+: v.bytes)
    (hne : part ≠ v.bytes) : part <+: v.more := by
  rcases List.prefix_concat_iff.mp h with h | h
  · exact absurd h hne
  · exact h

end Varint

/-! ## Records -/

/-- The value of a field, by its wire type. -/
inductive Content where
  | varint (value : Varint)
  | fixed64 (bytes : Buf 8)
  | delimited (len : Varint) (payload : List UInt8) (h : len.value = payload.length)
  | fixed32 (bytes : Buf 4)

namespace Content

/-- The wire type. -/
def wireType : Content → Nat
  | varint _ => 0
  | fixed64 _ => 1
  | delimited .. => 2
  | fixed32 _ => 5

/-- The bytes of the value. -/
def bytes : Content → List UInt8
  | varint value => value.bytes
  | fixed64 buf => buf.bytes
  | delimited len payload _ => len.bytes ++ payload
  | fixed32 buf => buf.bytes

/-- The bytes that a length announces. -/
def payload? : Content → Option (List UInt8)
  | delimited _ payload _ => some payload
  | _ => none

theorem wireType_lt (c : Content) : c.wireType < 8 := by
  cases c <;> simp [wireType]

theorem bytes_ne_nil (c : Content) : c.bytes ≠ [] := by
  cases c with
  | varint value => exact value.bytes_ne_nil
  | fixed64 buf =>
    intro h
    have := buf.length_eq
    simp only [bytes] at h
    simp [h] at this
  | delimited len payload h =>
    intro h
    exact len.bytes_ne_nil (List.append_eq_nil_iff.mp h).1
  | fixed32 buf =>
    intro h
    have := buf.length_eq
    simp only [bytes] at h
    simp [h] at this

end Content

/-- A field: its tag, which holds the number and the wire type, and its value. -/
structure Record where
  number : Nat
  tag : Varint
  content : Content
  number_pos : 0 < number
  number_lt : number < 2 ^ 29
  tag_value : tag.value = 8 * number + content.wireType

namespace Record

/-- The bytes of the record. -/
def bytes (r : Record) : List UInt8 := r.tag.bytes ++ r.content.bytes

theorem length_bytes (r : Record) :
    r.bytes.length = r.tag.bytes.length + r.content.bytes.length := List.length_append

theorem bytes_ne_nil (r : Record) : r.bytes ≠ [] :=
  List.append_ne_nil_of_left_ne_nil r.tag.bytes_ne_nil _

/-- A short length-delimited record. -/
def ofPayload (number : Nat) (payload : List UInt8) (hpos : 0 < number) (hlt : number < 15)
    (hshort : payload.length < 128) : Record where
  number := number
  tag := .single (8 * number + 2) (by omega)
  content := .delimited (.single payload.length hshort) payload (Varint.value_single _ hshort)
  number_pos := hpos
  number_lt := by omega
  tag_value := Varint.value_single _ _

/-- A record of a small number. -/
def ofNumber (number n : Nat) (hpos : 0 < number) (hlt : number < 15) (hn : n < 128) : Record where
  number := number
  tag := .single (8 * number) (by omega)
  content := .varint (.single n hn)
  number_pos := hpos
  number_lt := by omega
  tag_value := Varint.value_single _ _

/-- A record of eight bytes. -/
def ofFixed64 (number : Nat) (bytes : Buf 8) (hpos : 0 < number) (hlt : number < 15) : Record where
  number := number
  tag := .single (8 * number + 1) (by omega)
  content := .fixed64 bytes
  number_pos := hpos
  number_lt := by omega
  tag_value := Varint.value_single _ _

/-- The payload of a length-delimited record with the given number. -/
def payload? (number : Nat) (r : Record) : Option (List UInt8) :=
  if r.number = number then r.content.payload? else none

end Record

/-- The bytes of a message. -/
def message (rs : List Record) : List UInt8 := rs.flatMap Record.bytes

/-- The payloads of the length-delimited records with the given number, in order. -/
def payloads (number : Nat) (rs : List Record) : List (List UInt8) :=
  rs.filterMap (Record.payload? number)

@[simp] theorem message_nil : message [] = [] := rfl

@[simp] theorem message_cons (r : Record) (rs : List Record) :
    message (r :: rs) = r.bytes ++ message rs := rfl

@[simp] theorem message_append (rs rs' : List Record) :
    message (rs ++ rs') = message rs ++ message rs' := List.flatMap_append

@[simp] theorem payloads_nil (number : Nat) : payloads number [] = [] := rfl

@[simp] theorem payloads_append (number : Nat) (rs rs' : List Record) :
    payloads number (rs ++ rs') = payloads number rs ++ payloads number rs' :=
  List.filterMap_append

theorem payloads_cons (number : Nat) (r : Record) (rs : List Record) :
    payloads number (r :: rs) = (r.payload? number).toList ++ payloads number rs := by
  unfold payloads
  rw [List.filterMap_cons]
  cases r.payload? number <;> rfl

/-- A part of one list followed by another has either lost a piece of the first, or only a piece of
the second. -/
theorem prefix_append_cases {part xs ys : List UInt8} (h : part <+: xs ++ ys)
    (hne : part ≠ xs ++ ys) :
    (part <+: xs ∧ part ≠ xs) ∨ ∃ part', part = xs ++ part' ∧ part' <+: ys ∧ part' ≠ ys := by
  obtain ⟨back, hback⟩ := h
  rcases List.append_eq_append_iff.mp hback with ⟨cut, rfl, hys⟩ | ⟨part', rfl, rfl⟩
  · by_cases hcut : cut = []
    · subst hcut
      right
      refine ⟨[], by simp, List.nil_prefix, fun hnil => ?_⟩
      rw [← hnil, List.append_nil, List.append_nil] at hne
      exact hne rfl
    · left
      exact ⟨List.prefix_append part cut, fun heq => hcut (List.self_eq_append_right.mp heq)⟩
  · right
    exact ⟨part', rfl, List.prefix_append part' back, fun heq => hne (congrArg (xs ++ ·) heq)⟩

/-- A part of a message is a number of whole records and a part of the next one, unless it is
the whole message. -/
theorem prefix_message {rs : List Record} {part : List UInt8} (h : part <+: message rs) :
    part = message rs ∨ ∃ before r after rest, rs = before ++ r :: after ∧
      part = message before ++ rest ∧ rest <+: r.bytes ∧ rest ≠ r.bytes := by
  induction rs generalizing part with
  | nil =>
    left
    simpa using h
  | cons r rs ih =>
    by_cases hall : part = message (r :: rs)
    · left
      exact hall
    · right
      rcases prefix_append_cases h hall with ⟨hr, hne⟩ | ⟨part', rfl, hrs, hne⟩
      · exact ⟨[], r, rs, part, rfl, rfl, hr, hne⟩
      · rcases ih hrs with h | ⟨before, r', after, rest, rfl, rfl, h2, h3⟩
        · exact absurd h hne
        · refine ⟨r :: before, r', after, rest, rfl, ?_, h2, h3⟩
          rw [message_cons, List.append_assoc]

/-! ## A message is read in one way -/

/-- What a field says, however its numbers are written. -/
inductive Datum where
  | varint (value : Nat)
  | fixed64 (bytes : List UInt8)
  | delimited (payload : List UInt8)
  | fixed32 (bytes : List UInt8)
deriving DecidableEq, Repr

structure Field where
  number : Nat
  datum : Datum
deriving DecidableEq, Repr

def Content.datum : Content → Datum
  | varint value => .varint value.value
  | fixed64 buf => .fixed64 buf.bytes
  | delimited _ payload _ => .delimited payload
  | fixed32 buf => .fixed32 buf.bytes

def Record.field (r : Record) : Field := ⟨r.number, r.content.datum⟩

/-- The bytes are a message of these fields. -/
def Says (bytes : List UInt8) (fields : List Field) : Prop :=
  ∃ rs, message rs = bytes ∧ rs.map Record.field = fields

/-- The first byte that announces no other ends a varint. -/
theorem Varint.append_inj {v v' : Varint} {back back' : List UInt8}
    (h : v.bytes ++ back = v'.bytes ++ back') : v.bytes = v'.bytes ∧ back = back' := by
  have hsplit : ∀ {more more' : List UInt8} {last last' : UInt8},
      (∀ byte ∈ more, 128 ≤ byte.toNat) → (∀ byte ∈ more', 128 ≤ byte.toNat) →
      last.toNat < 128 → last'.toNat < 128 →
      more ++ last :: back = more' ++ last' :: back' → more = more' ∧ last = last' ∧ back = back' := by
    intro more
    induction more with
    | nil =>
      intro more' last last' _ hmore' hlast _ heq
      cases more' with
      | nil =>
        obtain ⟨rfl, rfl⟩ := List.cons.inj heq
        exact ⟨rfl, rfl, rfl⟩
      | cons byte more' =>
        obtain rfl : last = byte := (List.cons.inj heq).1
        have hge := hmore' last List.mem_cons_self
        omega
    | cons byte more ih =>
      intro more' last last' hmore hmore' hlast hlast' heq
      cases more' with
      | nil =>
        obtain rfl : byte = last' := (List.cons.inj heq).1
        have hge := hmore byte List.mem_cons_self
        omega
      | cons byte' more' =>
        obtain ⟨rfl, hrest⟩ := List.cons.inj heq
        obtain ⟨rfl, hlasts⟩ := ih (fun b hb => hmore b (List.mem_cons_of_mem _ hb))
          (fun b hb => hmore' b (List.mem_cons_of_mem _ hb)) hlast hlast' hrest
        exact ⟨rfl, hlasts⟩
  have heq : v.more ++ v.last :: back = v'.more ++ v'.last :: back' := by
    simpa [Varint.bytes] using h
  obtain ⟨hmore, hlast, hback⟩ := hsplit v.more_ge v'.more_ge v.last_lt v'.last_lt heq
  exact ⟨by rw [Varint.bytes, Varint.bytes, hmore, hlast], hback⟩

theorem Content.append_inj {c c' : Content} {back back' : List UInt8}
    (htype : c.wireType = c'.wireType) (h : c.bytes ++ back = c'.bytes ++ back') :
    c.datum = c'.datum ∧ back = back' := by
  cases c with
  | varint value =>
    cases c' with
    | varint value' =>
      obtain ⟨hbytes, hback⟩ := Varint.append_inj h
      refine ⟨?_, hback⟩
      rw [datum, datum, Varint.value, Varint.value, hbytes]
    | _ => cases htype
  | fixed64 buf =>
    cases c' with
    | fixed64 buf' =>
      have hlength : buf.bytes.length = buf'.bytes.length := by
        rw [buf.length_eq, buf'.length_eq]
      obtain ⟨hbytes, hback⟩ := List.append_inj h hlength
      exact ⟨congrArg Datum.fixed64 hbytes, hback⟩
    | _ => cases htype
  | delimited len payload hlen =>
    cases c' with
    | delimited len' payload' hlen' =>
      simp only [bytes, List.append_assoc] at h
      obtain ⟨hbytes, hrest⟩ := Varint.append_inj h
      have hlength : payload.length = payload'.length := by
        rw [← hlen, ← hlen', Varint.value, Varint.value, hbytes]
      obtain ⟨hpayload, hback⟩ := List.append_inj hrest hlength
      exact ⟨congrArg Datum.delimited hpayload, hback⟩
    | _ => cases htype
  | fixed32 buf =>
    cases c' with
    | fixed32 buf' =>
      have hlength : buf.bytes.length = buf'.bytes.length := by
        rw [buf.length_eq, buf'.length_eq]
      obtain ⟨hbytes, hback⟩ := List.append_inj h hlength
      exact ⟨congrArg Datum.fixed32 hbytes, hback⟩
    | _ => cases htype

theorem Record.append_inj {r r' : Record} {back back' : List UInt8}
    (h : r.bytes ++ back = r'.bytes ++ back') : r.field = r'.field ∧ back = back' := by
  simp only [bytes, List.append_assoc] at h
  obtain ⟨htag, hrest⟩ := Varint.append_inj h
  have hvalue : 8 * r.number + r.content.wireType = 8 * r'.number + r'.content.wireType := by
    rw [← r.tag_value, ← r'.tag_value, Varint.value, Varint.value, htag]
  have hlt := r.content.wireType_lt
  have hlt' := r'.content.wireType_lt
  have hnumber : r.number = r'.number := by omega
  obtain ⟨hdatum, hback⟩ := Content.append_inj (by omega) hrest
  refine ⟨?_, hback⟩
  rw [field, field, hnumber, hdatum]

/-- No bytes are messages of different fields. -/
theorem message_fields_inj {rs rs' : List Record} (h : message rs = message rs') :
    rs.map Record.field = rs'.map Record.field := by
  induction rs generalizing rs' with
  | nil =>
    cases rs' with
    | nil => rfl
    | cons r' rs' => exact absurd (List.append_eq_nil_iff.1 h.symm).1 r'.bytes_ne_nil
  | cons r rs ih =>
    cases rs' with
    | nil => exact absurd (List.append_eq_nil_iff.1 h).1 r.bytes_ne_nil
    | cons r' rs' =>
      obtain ⟨hfield, hrest⟩ := Record.append_inj h
      rw [List.map_cons, List.map_cons, hfield, ih hrest]

theorem Says.unique {bytes : List UInt8} {fields fields' : List Field} (h : Says bytes fields)
    (h' : Says bytes fields') : fields = fields' := by
  obtain ⟨rs, rfl, rfl⟩ := h
  obtain ⟨rs', hrs', rfl⟩ := h'
  exact (message_fields_inj hrs').symm

theorem Says.nil : Says [] [] := ⟨[], rfl, rfl⟩

theorem Says.append {bytes bytes' : List UInt8} {fields fields' : List Field} (h : Says bytes fields)
    (h' : Says bytes' fields') : Says (bytes ++ bytes') (fields ++ fields') := by
  obtain ⟨rs, rfl, rfl⟩ := h
  obtain ⟨rs', rfl, rfl⟩ := h'
  exact ⟨rs ++ rs', message_append rs rs', List.map_append⟩

end Protobuf
