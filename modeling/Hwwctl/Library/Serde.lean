import Mathlib.Data.List.Basic
import Mathlib.Tactic.Common

/-!
# Values that types are serialized to

The data model of a self-describing format, and codecs between it and a type: primitive values,
options, lists, enumerations by name, structs by field names, and enums that carry their variant's
name in a field among the others. A codec carries the proof that it reads what it writes. Errors
are not told apart.
-/

namespace Serde

/-- A value of the format. Objects keep the order of their fields, and may repeat a name. -/
inductive Value where
  | null
  | bool (b : Bool)
  | number (n : Int)
  /-- A number with a fraction or an exponent, as it is written. -/
  | float (text : String)
  | string (s : String)
  | array (elems : List Value)
  | object (fields : List (String × Value))

def Value.isNull : Value → Bool
  | .null => true
  | _ => false

/-- The fields of an object. -/
abbrev Fields := List (String × Value)

/-! ## Looking into a value -/

namespace Value

def asStr : Value → Option String
  | .string s => some s
  | _ => none

def asArray : Value → Option (List Value)
  | .array elems => some elems
  | _ => none

def asObject : Value → Option Fields
  | .object fields => some fields
  | _ => none

end Value

/-- The value of a field. One that comes twice has the value given last. -/
def get (name : String) (fields : Fields) : Option Value :=
  (fields.reverse.find? fun f => f.1 = name).map Prod.snd

/-- How a type is written and read. -/
structure Codec (α : Type) where
  encode : α → Value
  decode : Value → Option α
  /-- The values that can be written. -/
  Valid : α → Prop
  decode_encode : ∀ a, Valid a → decode (encode a) = some a

namespace Codec

variable {α : Type}

/-! ## Primitive values -/

def bool : Codec Bool where
  encode b := .bool b
  decode
    | .bool b => some b
    | _ => none
  Valid _ := True
  decode_encode _ _ := rfl

def string : Codec String where
  encode s := .string s
  decode
    | .string s => some s
    | _ => none
  Valid _ := True
  decode_encode _ _ := rfl

/-- An unsigned integer below `bound`. -/
def uint (bound : Nat) : Codec Nat where
  encode n := .number n
  decode
    | .number n => if 0 ≤ n ∧ n < bound then some n.toNat else none
    | _ => none
  Valid n := n < bound
  decode_encode n h := by
    show (if 0 ≤ (n : Int) ∧ (n : Int) < bound then some (n : Int).toNat else none) = some n
    rw [if_pos ⟨Int.natCast_nonneg n, Int.ofNat_lt.mpr h⟩, Int.toNat_natCast]

/-- A type that is written as another. -/
def map {β : Type} (c : Codec α) (into : β → α) (of : α → β) (h : ∀ b, of (into b) = b) :
    Codec β where
  encode b := c.encode (into b)
  decode v := (c.decode v).map of
  Valid b := c.Valid (into b)
  decode_encode b hb := by
    rw [c.decode_encode _ hb, Option.map_some, h]

/-- An enumeration, by the names of its values. -/
def names (name : α → String) (all : List α)
    (h : ∀ a, all.find? (fun b => name b = name a) = some a) : Codec α where
  encode a := .string (name a)
  decode
    | .string s => all.find? fun b => name b = s
    | _ => none
  Valid _ := True
  decode_encode a _ := h a

/-! ## Options and lists -/

/-- `None` is written as null. -/
def option (c : Codec α) (hnull : ∀ a, (c.encode a).isNull = false) : Codec (Option α) where
  encode
    | none => .null
    | some a => c.encode a
  decode v := if v.isNull then some none else (c.decode v).map some
  Valid a := ∀ x ∈ a, c.Valid x
  decode_encode
    | none, _ => rfl
    | some a, h => by
      rw [hnull a, if_neg Bool.false_ne_true, c.decode_encode a (h a rfl), Option.map_some]

def list (c : Codec α) : Codec (List α) where
  encode as := .array (as.map c.encode)
  decode
    | .array vs => vs.mapM c.decode
    | _ => none
  Valid as := ∀ a ∈ as, c.Valid a
  decode_encode as h := by
    show (as.map c.encode).mapM c.decode = some as
    induction as with
    | nil => rfl
    | cons a as ih =>
      rw [List.map_cons, List.mapM_cons, c.decode_encode a (h a List.mem_cons_self),
        ih fun b hb => h b (List.mem_cons_of_mem a hb)]
      rfl

end Codec

/-! ## Structs -/

/-- The values of the fields with the given name. -/
def entries (name : String) (fields : Fields) : List Value :=
  (fields.filter fun f => f.1 = name).map Prod.snd

/-- The value of a field, if there is one. A field that comes twice is an error. -/
def member (name : String) (fields : Fields) : Option (Option Value) :=
  match entries name fields with
  | [] => some none
  | [v] => some (some v)
  | _ => none

section Member

variable {name : String} {v : Value} {fields : Fields}

theorem entries_cons_self : entries name ((name, v) :: fields) = v :: entries name fields := by
  simp [entries]

@[simp] theorem entries_nil : entries name [] = [] := rfl

theorem entries_eq_nil (h : ∀ f ∈ fields, f.1 ≠ name) : entries name fields = [] := by
  rw [entries, List.filter_eq_nil_iff.mpr (by simpa using h), List.map_nil]

end Member

/-- A field that must be there. -/
def required {α : Type} (c : Codec α) (name : String) (fields : Fields) : Option α :=
  (member name fields).bind fun
    | some v => c.decode v
    | none => none

/-- A field whose absence stands for `default`. -/
def defaulted {α : Type} (c : Codec α) (name : String) (default : α) (fields : Fields) :
    Option α :=
  (member name fields).bind fun
    | some v => c.decode v
    | none => some default

/-- A field that is left out when `skip` holds. -/
def skipIf (skip : Bool) (name : String) (v : Value) : Fields := if skip then [] else [(name, v)]

section Skipping

variable {name : String} {v : Value} {fields : Fields} {skip : Bool}

theorem entries_append_skipIf (h : other ≠ name) :
    entries name (fields ++ skipIf skip other v) = entries name fields := by
  cases skip with
  | true =>
    rw [skipIf, if_pos rfl, List.append_nil]
  | false => simp [skipIf, entries, h]

theorem entries_append_skipIf_self (h : entries name fields = []) :
    entries name (fields ++ skipIf skip name v) = if skip then [] else [v] := by
  have happ : entries name (fields ++ skipIf skip name v) =
      entries name fields ++ entries name (skipIf skip name v) := by
    simp only [entries, List.filter_append, List.map_append]
  rw [happ, h, List.nil_append]
  cases skip with
  | true => rfl
  | false => exact entries_cons_self

end Skipping

section Reading

variable {α : Type} {c : Codec α} {name : String} {a default : α} {fields : Fields}

theorem required_eq (h : entries name fields = [c.encode a]) (hvalid : c.Valid a) :
    required c name fields = some a := by
  rw [required, member, h]
  exact c.decode_encode a hvalid

theorem defaulted_eq (h : entries name fields = [c.encode a]) (hvalid : c.Valid a) :
    defaulted c name default fields = some a := by
  rw [defaulted, member, h]
  exact c.decode_encode a hvalid

/-- A field that is left out exactly when it has its default value is restored. -/
theorem defaulted_skipIf {skip : Bool} (h : entries name fields = (if skip then [] else [c.encode a]))
    (hskip : skip = true → a = default) (hvalid : c.Valid a) :
    defaulted c name default fields = some a := by
  cases skip with
  | true =>
    rw [defaulted, member, h, hskip rfl]
    rfl
  | false => exact defaulted_eq h hvalid

end Reading

/-- How the fields of a struct are written and read. -/
structure Struct (α : Type) where
  write : α → Fields
  read : Fields → Option α
  /-- The values that can be written. -/
  Valid : α → Prop
  read_write : ∀ a, Valid a → read (write a) = some a

/-- A struct on its own is an object. -/
def Struct.codec {α : Type} (s : Struct α) : Codec α where
  encode a := .object (s.write a)
  decode
    | .object fields => s.read fields
    | _ => none
  Valid := s.Valid
  decode_encode := s.read_write

/-! ## Enums with an internal tag -/

/-- A variant's name and fields as one object. -/
def tagged (tag variant : String) (fields : Fields) : Value :=
  .object ((tag, .string variant) :: fields)

/-- The variant's name, and the fields without it. -/
def untag (tag : String) : Value → Option (String × Fields)
  | .object fields =>
    (member tag fields).bind fun
      | some (.string variant) => some (variant, fields.filter fun f => f.1 ≠ tag)
      | _ => none
  | _ => none

/-- The readers of an enum's variants, by their names. -/
abbrev Variants (α : Type) := List (String × (Fields → Option α))

/-- An enum is read by the reader of the variant that the tag names. -/
def fromTagged {α : Type} (tag : String) (variants : Variants α) (v : Value) : Option α :=
  (untag tag v).bind fun (variant, fields) =>
    (variants.find? fun entry => entry.1 = variant).bind fun entry => entry.2 fields

section Tagged

variable {tag variant variant' : String} {fields fields' : Fields}

theorem untag_tagged (h : ∀ f ∈ fields, f.1 ≠ tag) :
    untag tag (tagged tag variant fields) = some (variant, fields) := by
  have hone : entries tag ((tag, Value.string variant) :: fields) = [.string variant] := by
    rw [entries_cons_self, entries_eq_nil h]
  have hrest : ((tag, Value.string variant) :: fields).filter (fun f => f.1 ≠ tag) = fields := by
    rw [List.filter_cons_of_neg (by simp), List.filter_eq_self.mpr (by simpa using h)]
  unfold untag tagged
  simp only [member, hone, hrest]
  rfl

theorem fromTagged_tagged {α : Type} {variants : Variants α} {read : Fields → Option α}
    (h : ∀ f ∈ fields, f.1 ≠ tag)
    (hread : variants.find? (fun entry => entry.1 = variant) = some (variant, read)) :
    fromTagged tag variants (tagged tag variant fields) = read fields := by
  rw [fromTagged, untag_tagged h]
  simp only [Option.bind_some, hread]

theorem tagged_inj :
    tagged tag variant fields = tagged tag variant' fields' ↔
      variant = variant' ∧ fields = fields' := by
  simp [tagged]

end Tagged

end Serde
