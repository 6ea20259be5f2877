import Hwwctl.Protocol.Scan

/-!
# How a byte string falls into records

The offsets at which the scanners find a record when they cut a byte string into consecutive
protobuf records, and the lengths those records announce. No cursor and no loop is involved: a
record is read off the bytes at its offset, in unbounded arithmetic, and only the offset of the
next record is reduced to a `usize`.
-/

namespace Hwwctl.Protocol

open Machine

/-- The varint at offset `p` and the offset behind it. -/
def varintAt (data : List UInt8) (p : Nat) : Nat × Nat :=
  ((decodeVarint (data.drop p)).1.toNat, p + (decodeVarint (data.drop p)).2)

/-- An announced length: `size` bytes from offset `start` on. -/
structure Span where
  start : Nat
  size : Nat
deriving DecidableEq

/-- The first offset behind a span. -/
def Span.stop (l : Span) : Nat := l.start + l.size

/-- The bytes of a span. -/
def Span.bytes (data : List UInt8) (l : Span) : List UInt8 := (data.take l.stop).drop l.start

/-- The span announced by the length varint at `p`. -/
def spanAt (data : List UInt8) (p : Nat) : Span := ⟨(varintAt data p).2, (varintAt data p).1⟩

/-- One record, as a scanner takes it. -/
structure Cut where
  /-- The span of the field that is looked for. -/
  own : Option Span
  /-- The span that is skipped. -/
  skipped : Option Span
  /-- The offset of the next record, unless the scan is over. -/
  next : Option Nat

/-- The bytes of the field that is looked for, if they are all there. -/
def Cut.held (data : List UInt8) (c : Cut) : Option (List UInt8) :=
  match c.own with
  | some l => if l.stop ≤ data.length then some (l.bytes data) else none
  | none => none

/-- A record whose value starts at `p` and is skipped. -/
def skipCut (data : List UInt8) (wireType : UInt64) (p : Nat) : Cut :=
  match wireType with
  | 0 => ⟨none, none, some (varintAt data p).2⟩
  | 1 => ⟨none, none, some (p + 8)⟩
  | 2 =>
    if p < data.length then
      ⟨none, some (spanAt data p), some ((spanAt data p).stop % usizeSize)⟩
    else ⟨none, none, none⟩
  | 5 => ⟨none, none, some (p + 4)⟩
  | _ => ⟨none, none, none⟩

/-- The record at `p` for a scan that returns the first field tagged `targetTag`. A payload of that
field that overruns the data is not the end: what follows its length is skipped as if it were a
length again. -/
def fieldCut (targetTag : UInt64) (data : List UInt8) (p : Nat) : Cut :=
  let tag := (decodeVarint (data.drop p)).1
  let q := (varintAt data p).2
  if tag = targetTag ∧ tag &&& 0x7 = 2 ∧ q < data.length then
    let l := spanAt data q
    if l.stop ≤ data.length ∨ usizeSize ≤ l.stop then ⟨some l, none, none⟩
    else { skipCut data (tag &&& 0x7) l.start with own := some l }
  else skipCut data (tag &&& 0x7) q

/-- The record at `p` for a scan that collects every field tagged `tokensTag`. -/
def tokensCut (data : List UInt8) (p : Nat) : Cut :=
  let tag := (decodeVarint (data.drop p)).1
  let q := (varintAt data p).2
  if tag = tokensTag then
    if q < data.length then
      let l := spanAt data q
      ⟨some l, none, if l.stop ≤ data.length then some l.stop else none⟩
    else ⟨none, none, none⟩
  else skipCut data (tag &&& 0x7) q

/-- The offsets below `len` at which a record starts. -/
inductive RecordAt (len : Nat) (cut : Nat → Cut) : Nat → Prop where
  | first (h : 0 < len) : RecordAt len cut 0
  | next {p p' : Nat} (h : RecordAt len cut p) (hn : (cut p).next = some p') (hp : p' < len) :
      RecordAt len cut p'

/-- No record announces a length that ends past the last `usize`. -/
def LengthsFit (len : Nat) (cut : Nat → Cut) : Prop :=
  ∀ p, RecordAt len cut p → ∀ l, (cut p).own = some l ∨ (cut p).skipped = some l →
    l.stop < usizeSize

/-- No record is skipped by a length so large that its end, wrapped around, comes to lie at or
before the record's own start. -/
def NoneWrapsBack (len : Nat) (cut : Nat → Cut) : Prop :=
  ∀ p, RecordAt len cut p → ∀ l, (cut p).skipped = some l →
    l.stop < usizeSize ∨ usizeSize + p < l.stop

end Hwwctl.Protocol
