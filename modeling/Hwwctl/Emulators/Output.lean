import Hwwctl.Emulators.Trezor
import Hwwctl.Library.Lines
import Hwwctl.Library.Ring
import Mathlib.Logic.Function.Basic

/-!
# What the child prints

Two tasks read the child's output line by line and push the lines onto the emulator's ring. A task
ends with its stream, and with the first line that `next_line` fails on; with the task the reading
end of the pipe is gone.
-/

namespace Hwwctl.Emulators

/-- `OUTPUT_RING_SIZE`. -/
def outputRingSize : Nat := 500

def GenericEmulator.pushLine (lines : List String) (line : String) : List String :=
  Ring.push outputRingSize lines line

/-- The reader tasks of `TrezorEmulator` push inline. -/
def TrezorEmulator.pushLine (lines : List String) (line : String) : List String :=
  Ring.push 500 lines line

inductive EmulatorKind where
  | generic
  | trezor
deriving DecidableEq, Repr

def EmulatorKind.pushLine : EmulatorKind → List String → String → List String
  | .generic => GenericEmulator.pushLine
  | .trezor => TrezorEmulator.pushLine

inductive Stream where
  | stdout
  | stderr
deriving DecidableEq, Repr

/-- A stream of the child and the task that reads it. -/
structure LineReader where
  /-- What the child wrote. -/
  written : List UInt8
  /-- The child has closed its end. -/
  closed : Bool
  pipe : List UInt8
  /-- What the task has read and `next_line` has not returned. -/
  buffer : List UInt8
  ended : Bool
deriving DecidableEq, Repr

structure Output where
  readers : Stream → LineReader
  /-- The lines that were pushed, the oldest first. -/
  pushed : List (Stream × String)
  ring : List String

inductive OutputAct where
  | writes (st : Stream) (bytes : List UInt8)
  | closes (st : Stream)
  /-- The task fills its buffer from the pipe. -/
  | reads (st : Stream) (n : Nat)
  /-- `next_line` with a newline in the buffer. -/
  | line (st : Stream)
  /-- `next_line` at the end of the stream. -/
  | rest (st : Stream)

def newline : UInt8 := 0x0A

namespace Output

def start : Output := ⟨fun _ => ⟨[], false, [], [], false⟩, [], []⟩

def set (s : Output) (st : Stream) (r : LineReader) : Output :=
  { s with readers := Function.update s.readers st r }

variable (kind : EmulatorKind) (nextLine : List UInt8 → Option String)

def push (s : Output) (st : Stream) (text : String) : Output :=
  { s with pushed := s.pushed ++ [(st, text)], ring := kind.pushLine s.ring text }

/-- `nextLine` is what `next_line` makes of the bytes up to a newline, which they include, or to the
end of the stream; where it is `none` the task's loop ends. -/
def step (s : Output) : OutputAct → Option Output
  | .writes st bytes =>
    let r := s.readers st
    if r.closed then none
    -- nobody reads the pipe: the write fails
    else if r.ended then some s
    else some (s.set st { r with written := r.written ++ bytes, pipe := r.pipe ++ bytes })
  | .closes st =>
    let r := s.readers st
    if r.closed then none else some (s.set st { r with closed := true })
  | .reads st n =>
    let r := s.readers st
    if r.ended ∨ r.pipe.length < n then none
    else some (s.set st { r with pipe := r.pipe.drop n, buffer := r.buffer ++ r.pipe.take n })
  | .line st =>
    let r := s.readers st
    if r.ended then none
    else match Lines.next newline r.buffer with
      | none => none
      | some (line, rest) =>
        match nextLine (line ++ [newline]) with
        | some text => some ((s.set st { r with buffer := rest }).push kind st text)
        | none => some (s.set st { r with ended := true })
  | .rest st =>
    let r := s.readers st
    if r.ended ∨ ¬ r.closed ∨ r.pipe ≠ [] ∨ newline ∈ r.buffer then none
    else if r.buffer = [] then some (s.set st { r with ended := true })
    else match nextLine r.buffer with
      | some text => some ((s.set st { r with buffer := [] }).push kind st text)
      | none => some (s.set st { r with ended := true })

/-- The lines of one stream that were pushed. -/
def linesOf (s : Output) (st : Stream) : List String :=
  s.pushed.filterMap fun p => if p.1 = st then some p.2 else none

/-- The child has closed both streams, and both tasks have ended. -/
def Done (s : Output) : Prop := ∀ st, (s.readers st).closed = true ∧ (s.readers st).ended = true

/-- `text` is what the line says; nothing is asked of a line that is no text. -/
def Says (line : List UInt8) (text : String) : Prop :=
  ∀ text', nextLine (line ++ [newline]) = some text' → text = text'

/-- Every line that the child completed on a stream was pushed, in the order of the stream. -/
def Captured (s : Output) : Prop :=
  ∀ st, ∃ texts : List String, texts.Sublist (s.linesOf st) ∧
    List.Forall₂ (Says nextLine) (Lines.complete newline (s.readers st).written) texts

end Output

/-- The steps the reader tasks take by themselves. -/
def OutputAct.Own : OutputAct → Prop
  | .reads _ _ | .line _ | .rest _ => True
  | _ => False

/-- The bytes are the UTF-8 form of a text. -/
def ValidUtf8 (bytes : List UInt8) : Prop := (ByteArray.mk bytes.toArray).IsValidUTF8

/-! ## Draining the ring -/

/-- The output of an emulator whose ring is drained. -/
structure DrainedOutput where
  output : Output
  /-- What each `drain_output` returned. -/
  returned : List (List String)

inductive DrainAct where
  | output (a : OutputAct)
  /-- `drain_output`, the same for both emulators. -/
  | drain

namespace DrainedOutput

def start : DrainedOutput := ⟨.start, []⟩

def step (kind : EmulatorKind) (nextLine : List UInt8 → Option String) (s : DrainedOutput) :
    DrainAct → Option DrainedOutput
  | .output a => (s.output.step kind nextLine a).map fun output => { s with output := output }
  | .drain => some ⟨{ s.output with ring := [] }, s.returned ++ [s.output.ring]⟩

end DrainedOutput

end Hwwctl.Emulators
