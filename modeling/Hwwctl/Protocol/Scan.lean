import Hwwctl.Library.Loop
import Hwwctl.Protocol.Varint

/-!
# The protobuf scanners

`extract_string_field`, `extract_failure_message` and `parse_tokens_field` of
`crates/protocol/src/trezor_debug.rs`: hand-written loops that walk a cursor over the fields of a
protobuf message. Each is given by the body of its `while pos < data.len()` loop, over either
overflow policy; a `None` or a `break` leaves the loop.
-/

namespace Hwwctl.Protocol

open Machine Loop

/-- `std::str::from_utf8`. -/
def fromUtf8 (bytes : List UInt8) : Option String := String.fromUTF8? ⟨bytes.toArray⟩

/-- The `match wire_type` that skips a field's value: the cursor behind it, or `none` for its
`break`. -/
def skipField (b : Build) (data : List UInt8) (wireType : UInt64) (pos : Nat) :
    Except Panic (Option Nat) :=
  match wireType with
  | 0 => do
    let (_, n) := decodeVarint (← sliceFrom data pos)
    return some (← usizeAdd b pos n)
  | 1 => do return some (← usizeAdd b pos 8)
  | 2 => do
    if pos < data.length then
      let (len, n) := decodeVarint (← sliceFrom data pos)
      return some (← usizeAddSum b pos n len.toNat)
    else return none
  | 5 => do return some (← usizeAdd b pos 4)
  | _ => .ok none

/-- The end of an iteration: the rest of the loop after skipping, or out of it with `r`. -/
def skipOr {σ ρ : Type} (r : ρ) (next : Nat → σ) : Option Nat → Flow σ ρ
  | some pos => .next (next pos)
  | none => .done r

/-- One iteration of `extract_string_field` and of `extract_failure_message`. They look for
different tags, make different results of the bytes found, and end differently. -/
def scanFieldBody {ρ : Type} (b : Build) (targetTag : UInt64) (found : List UInt8 → ρ)
    (notFound : ρ) (data : List UInt8) (pos : Nat) : Except Panic (Flow Nat ρ) := do
  if pos < data.length then
    let (tag, tagLen) := decodeVarint (← sliceFrom data pos)
    let pos ← usizeAdd b pos tagLen
    let wireType := tag &&& 0x7
    if tag = targetTag ∧ wireType = 2 ∧ pos < data.length then
      let (strLen, lenBytes) := decodeVarint (← sliceFrom data pos)
      let pos ← usizeAdd b pos lenBytes
      let stop ← usizeAdd b pos strLen.toNat
      if stop ≤ data.length then
        return .done (found (← slice data pos stop))
      else
        -- The payload overruns the data: the cursor stays behind the length already read, and
        -- the skip below reads another length there.
        return skipOr notFound id (← skipField b data wireType pos)
    else return skipOr notFound id (← skipField b data wireType pos)
  else return .done notFound

/-- The tag `extract_string_field` looks for. -/
def stringTag (fieldNum : UInt32) : UInt64 := (fieldNum.toUInt64 <<< 3) ||| 2

/-- The loop of `extract_string_field`. -/
def extractStringFieldBody (b : Build) (data : Slice UInt8) (fieldNum : UInt32) :
    Nat → Except Panic (Flow Nat (Option String)) :=
  scanFieldBody b (stringTag fieldNum) fromUtf8 none data.val

/-- The loop of `extract_failure_message`. -/
def extractFailureMessageBody (b : Build) (data : Slice UInt8) :
    Nat → Except Panic (Flow Nat String) :=
  scanFieldBody b 0x12 (fun bytes => (fromUtf8 bytes).getD "(invalid utf8)") "(unknown error)"
    data.val

/-- The tag of the `tokens` field, `(13 << 3) | 2`. -/
def tokensTag : UInt64 := 0x6A

/-- The loop of `parse_tokens_field`, whose state is the cursor and the tokens collected. -/
def parseTokensFieldBody (b : Build) (data : Slice UInt8) (s : Nat × List String) :
    Except Panic (Flow (Nat × List String) (List String)) := do
  let (pos, tokens) := s
  if pos < data.val.length then
    let (tag, tagLen) := decodeVarint (← sliceFrom data.val pos)
    let pos ← usizeAdd b pos tagLen
    let wireType := tag &&& 0x7
    if tag = tokensTag then
      if pos < data.val.length then
        let (strLen, lenBytes) := decodeVarint (← sliceFrom data.val pos)
        let pos ← usizeAdd b pos lenBytes
        let stop ← usizeAdd b pos strLen.toNat
        if stop ≤ data.val.length then
          let token := fromUtf8 (← slice data.val pos stop)
          return .next (stop, tokens ++ token.toList)
        else return .done tokens
      else return .done tokens
    else return skipOr tokens (fun pos => (pos, tokens)) (← skipField b data.val wireType pos)
  else return .done tokens

/-- `extract_string_field`, given the number of iterations it may take. -/
def extractStringField (b : Build) (data : Slice UInt8) (fieldNum : UInt32) (fuel : Nat) :
    Option (Except Panic (Option String)) := run (extractStringFieldBody b data fieldNum) fuel 0

/-- `extract_failure_message`. -/
def extractFailureMessage (b : Build) (data : Slice UInt8) (fuel : Nat) :
    Option (Except Panic String) := run (extractFailureMessageBody b data) fuel 0

/-- `parse_tokens_field`. -/
def parseTokensField (b : Build) (data : Slice UInt8) (fuel : Nat) :
    Option (Except Panic (List String)) := run (parseTokensFieldBody b data) fuel (0, [])

def extractFeaturesLabel (b : Build) (data : Slice UInt8) (fuel : Nat) :
    Option (Except Panic (Option String)) := extractStringField b data 10 fuel

end Hwwctl.Protocol
