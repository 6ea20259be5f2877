import Hwwctl.Library.ByteStream
import Hwwctl.Library.Machine

/-!
# Control framing

One frame is a 4-byte big-endian length and that many bytes of JSON. Encoding and decoding the JSON
is left to `serde_json`.
-/

namespace Hwwctl.Control

open Machine ByteStream

/-- `serde_json` at one type. -/
structure Json (α : Type) where
  toVec : α → Except String (List UInt8)
  fromSlice : List UInt8 → Except String α

/-- What was encoded is decoded to the same value. -/
def Json.RoundTrips {α : Type} (json : Json α) : Prop :=
  ∀ a bytes, json.toVec a = .ok bytes → json.fromSlice bytes = .ok a

inductive FrameError where
  | json (message : String)
  /-- The frame is longer than `maxFrameBytes`. -/
  | limit (message : String)
  | io (e : IoError)
deriving DecidableEq, Repr

def maxFrameBytes : Nat := 16 * 1024 * 1024

variable {α : Type}

/-- The length of the payload is cast to `u32`, after it was compared with the limit. -/
def writeFrame (json : Json α) (w : Sink UInt8) (msg : α) : Except FrameError Unit × Sink UInt8 :=
  match json.toVec msg with
  | .error e => (.error (.json e), w)
  | .ok bytes =>
    if bytes.length > maxFrameBytes then
      (.error (.limit s!"frame size {bytes.length} exceeds limit {maxFrameBytes}"), w)
    else
      match w.writeAll (be32 (UInt32.ofNat bytes.length)) with
      | (.error e, w) => (.error (.io e), w)
      | (.ok (), w) =>
        match w.writeAll bytes with
        | (.error e, w) => (.error (.io e), w)
        | (.ok (), w) => (.ok (), w)

/-- `u32::from_be_bytes` of the four bytes of `len_buf`. -/
def frameLength (lenBuf : List UInt8) : UInt32 :=
  ofBe32 (lenBuf.getD 0 0) (lenBuf.getD 1 0) (lenBuf.getD 2 0) (lenBuf.getD 3 0)

/-- The end of the stream before the length is complete is no error. -/
def readFrame (json : Json α) (r : List (Read UInt8)) :
    Except FrameError (Option α) × List (Read UInt8) :=
  match readExact 4 r with
  | (.error .unexpectedEof, r) => (.ok none, r)
  | (.error e, r) => (.error (.io e), r)
  | (.ok lenBuf, r) =>
    let len := (frameLength lenBuf).toNat
    if len > maxFrameBytes then
      (.error (.limit s!"incoming frame length {len} exceeds limit {maxFrameBytes}"), r)
    else
      match readExact len r with
      | (.error e, r) => (.error (.io e), r)
      | (.ok buf, r) =>
        match json.fromSlice buf with
        | .error e => (.error (.json e), r)
        | .ok msg => (.ok (some msg), r)

/-- The bytes of one frame. -/
def frame (payload : List UInt8) : List UInt8 :=
  be32 (UInt32.ofNat payload.length) ++ payload

/-- `write_frame` of one message after the other. -/
def writeFrames (json : Json α) : List α → Sink UInt8 → List (Except FrameError Unit) × Sink UInt8
  | [], w => ([], w)
  | m :: msgs, w =>
    let (r, w) := writeFrame json w m
    let (rs, w) := writeFrames json msgs w
    (r :: rs, w)

/-- What `n` successive calls of `read_frame` come back with. -/
def readFrames (json : Json α) :
    Nat → List (Read UInt8) → List (Except FrameError (Option α)) × List (Read UInt8)
  | 0, r => ([], r)
  | n + 1, r =>
    let (m, r) := readFrame json r
    let (ms, r) := readFrames json n r
    (m :: ms, r)

/-- A call that came back because of the length of its frame. -/
def Refused {β : Type} (result : Except FrameError β) : Prop :=
  ∃ message, result = .error (.limit message)

end Hwwctl.Control
