import Hwwctl.Protocol.Proofs.MessageProofs

/-!
# Proofs: encoded fields are found again

Each encoder writes one complete record, so what the scanners report of a message written by them
is what went into it.
-/

namespace Hwwctl.Protocol

open Machine Protobuf

/-! ## Strings as bytes -/

theorem fromUtf8_asBytes (s : String) : fromUtf8 (asBytes s) = some s := by
  unfold fromUtf8 asBytes String.fromUTF8?
  simp only [Array.toArray_toList]
  exact dif_pos s.isValidUTF8

/-! ## One field -/

theorem encodeVarint_short (value : UInt64) : (encodeVarint value).length ≤ 10 := by
  obtain ⟨v, hv, -⟩ := exists_encodeVarint value
  have hmore := v.short
  rw [← hv, Varint.bytes, List.length_append, List.length_singleton]
  omega

theorem encodeFieldVarint_length_le (fieldNum : UInt32) (value : UInt64) :
    (encodeFieldVarint fieldNum value).length ≤ 20 := by
  have htag := encodeVarint_short (fieldNum.toUInt64 <<< 3)
  have hvalue := encodeVarint_short value
  rw [encodeFieldVarint, List.length_append]
  omega

theorem encodeFieldString_length_le (fieldNum : UInt32) (s : String) :
    (encodeFieldString fieldNum s).length ≤ 20 + (asBytes s).length := by
  have htag := encodeVarint_short ((fieldNum.toUInt64 <<< 3) ||| 2)
  have hlen := encodeVarint_short (UInt64.ofNat (asBytes s).length)
  rw [encodeFieldString]
  simp only [List.length_append]
  omega

theorem asBytes_length_le (fieldNum : UInt32) (s : String) :
    (asBytes s).length ≤ (encodeFieldString fieldNum s).length := by
  rw [encodeFieldString]
  simp only [List.length_append]
  omega

/-- What a field can be given. -/
inductive FieldValue where
  | varint (value : UInt64)
  | string (s : String)

/-- A field to be encoded. -/
structure Entry where
  number : UInt32
  value : FieldValue
  number_pos : 0 < number.toNat
  number_lt : number.toNat < 2 ^ 29

namespace Entry

/-- The encoding of the field. -/
def encode (e : Entry) : List UInt8 :=
  match e.value with
  | .varint value => encodeFieldVarint e.number value
  | .string s => encodeFieldString e.number s

/-- The string of a string field with the given number. -/
def string? (number : UInt32) (e : Entry) : Option String :=
  match e.value with
  | .varint _ => none
  | .string s => if e.number = number then some s else none

end Entry

/-- The strings of the fields with the given number, in order. -/
def strings (number : UInt32) (entries : List Entry) : List String :=
  entries.filterMap (Entry.string? number)

theorem toNat_varintTag {number : UInt32} :
    (number.toUInt64 <<< 3).toNat = 8 * number.toNat := by
  have hlt := number.toNat_lt
  rw [UInt64.toNat_shiftLeft, UInt32.toNat_toUInt64, show (3 : UInt64).toNat % 64 = 3 from rfl,
    Nat.shiftLeft_eq]
  omega

/-- Each encoder writes a record. -/
theorem Entry.exists_record (e : Entry) (hlen : e.encode.length ≤ isizeMax) :
    ∃ r : Record, r.bytes = e.encode ∧
      ∀ number : UInt32, r.payload? number.toNat = (e.string? number).map asBytes := by
  obtain ⟨number, value, hpos, hlt⟩ := e
  cases value with
  | varint value =>
    obtain ⟨tag, htag, htagv⟩ := exists_encodeVarint (number.toUInt64 <<< 3)
    obtain ⟨v, hv, -⟩ := exists_encodeVarint value
    refine ⟨⟨number.toNat, tag, .varint v, hpos, hlt, ?_⟩, ?_, ?_⟩
    · rw [htagv, toNat_varintTag]
      rfl
    · show tag.bytes ++ v.bytes = encodeFieldVarint number value
      rw [htag, hv, encodeFieldVarint]
    · intro number'
      show (if _ then none else none) = none
      rw [ite_self]
  | string s =>
    obtain ⟨tag, htag, htagv⟩ := exists_encodeVarint (stringTag number)
    obtain ⟨len, hl, hlv⟩ := exists_encodeVarint (UInt64.ofNat (asBytes s).length)
    have hfits : len.value = (asBytes s).length := by
      have hle : (asBytes s).length ≤ (encodeFieldString number s).length := by
        rw [encodeFieldString]
        simp only [List.length_append]
        omega
      have := Nat.le_trans hle hlen
      unfold isizeMax at this
      rw [hlv, UInt64.toNat_ofNat', Nat.mod_eq_of_lt (by omega)]
    refine ⟨⟨number.toNat, tag, .delimited len (asBytes s) hfits, hpos, hlt, ?_⟩, ?_, ?_⟩
    · rw [htagv, toNat_stringTag]
      rfl
    · show tag.bytes ++ (len.bytes ++ asBytes s) = encodeFieldString number s
      rw [htag, hl, encodeFieldString, List.append_assoc]
      rfl
    · intro number'
      show (if number.toNat = number'.toNat then some (asBytes s) else none) =
        Option.map asBytes (if number = number' then some s else none)
      simp only [UInt32.toNat_inj]
      split_ifs <;> rfl

/-- What the encoders write is a message. -/
theorem exists_message (entries : List Entry)
    (hlen : (entries.flatMap Entry.encode).length ≤ isizeMax) :
    ∃ rs, message rs = entries.flatMap Entry.encode ∧
      ∀ number : UInt32, payloads number.toNat rs = (strings number entries).map asBytes := by
  induction entries with
  | nil => exact ⟨[], rfl, fun _ => rfl⟩
  | cons e entries ih =>
    rw [List.flatMap_cons, List.length_append] at hlen
    obtain ⟨r, hr, hpayload⟩ := e.exists_record (by omega)
    obtain ⟨rs, hrs, hpayloads⟩ := ih (by omega)
    refine ⟨r :: rs, ?_, fun number => ?_⟩
    · rw [message_cons, hr, hrs, List.flatMap_cons]
    · rw [payloads_cons, hpayload, hpayloads, strings, strings, List.filterMap_cons]
      cases e.string? number <;> rfl

/-! ## Whole messages -/

/-- Of a concatenation of encoded fields, `extract_string_field` reports the first string with the
number asked for, and `parse_tokens_field` all strings with the number 13. -/
theorem fields_round_trip (b : Build) (entries : List Entry) (m : Slice UInt8)
    (hm : m.val = entries.flatMap Entry.encode) :
    (∀ fieldNum, Returns (extractStringField b m fieldNum) (strings fieldNum entries).head?) ∧
      Returns (parseTokensField b m) (strings 13 entries) := by
  obtain ⟨rs, hrs, hpayloads⟩ := exists_message entries (by rw [← hm]; exact m.length_le)
  rw [← hrs] at hm
  constructor
  · intro fieldNum
    have h := extractStringField_message (b := b) hm fieldNum
    rw [hpayloads, List.head?_map, Option.bind_map] at h
    have hid : fromUtf8 ∘ asBytes = some := funext fromUtf8_asBytes
    rwa [hid, Option.bind_fun_some] at h
  · have h := parseTokensField_message (b := b) hm
    rw [show payloads 13 rs = _ from hpayloads 13, List.filterMap_map] at h
    have hid : fromUtf8 ∘ asBytes = some := funext fromUtf8_asBytes
    rwa [hid, List.filterMap_some] at h

/-- A number and a token. -/
def numberAndToken : List Entry :=
  [⟨2, .varint 300, by decide, by decide⟩, ⟨13, .string "ok", by decide, by decide⟩]

/-- The bytes written for a number and a token. -/
def numberAndTokenBytes : Slice UInt8 := ⟨[0x10, 0xAC, 0x02, 0x6A, 0x02, 0x6F, 0x6B], by decide⟩

/-- A token behind a number of two bytes is found. -/
theorem fields_round_trip_numberAndToken :
    (∀ fieldNum, Returns (extractStringField .checked numberAndTokenBytes fieldNum)
        (strings fieldNum numberAndToken).head?) ∧
      Returns (parseTokensField .checked numberAndTokenBytes) ["ok"] := by
  have hm : numberAndTokenBytes.val = numberAndToken.flatMap Entry.encode := by
    have hone : ∀ v : UInt64, v >>> 7 = 0 → encodeVarint v = [(v &&& 0x7F).toUInt8] := by
      intro v hv
      rw [encodeVarint]
      simp [hv]
    have h300 : encodeVarint 300 = [0xAC, 0x02] := by
      rw [encodeVarint, hone _ rfl]
      rfl
    have hnumber : encodeFieldVarint 2 300 = [0x10, 0xAC, 0x02] := by
      rw [encodeFieldVarint, h300, hone _ rfl]
      rfl
    have htoken : encodeFieldString 13 "ok" = [0x6A, 0x02, 0x6F, 0x6B] := by
      rw [encodeFieldString, hone _ rfl, hone _ rfl]
      rfl
    show _ = encodeFieldVarint 2 300 ++ (encodeFieldString 13 "ok" ++ [])
    rw [hnumber, htoken]
    rfl
  exact fields_round_trip .checked numberAndToken numberAndTokenBytes hm

end Hwwctl.Protocol
