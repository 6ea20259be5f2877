import Hwwctl.Library.Transition

/-!
# The device thread at work

The thread that owns the UHID device looks at its shutdown channel, writes the pending input reports
to the device, polls the device for one output report, and sleeps. Two unbounded queues join it to
the relay tasks; a send fails when the other end is gone.
-/

namespace Hwwctl.Bridge

abbrev Report := List UInt8

inductive Direction where
  | hostToDevice
  | deviceToHost
deriving DecidableEq, Repr

/-- `Display for Direction`. -/
def Direction.display : Direction → String
  | .hostToDevice => ">>"
  | .deviceToHost => "<<"

structure InterceptedMessage where
  direction : Direction
  rawHex : String
  decoded : Option String
deriving DecidableEq, Repr

def hexByte (b : UInt8) : String :=
  String.ofList [Nat.digitChar (b.toNat / 16), Nat.digitChar (b.toNat % 16)]

def InterceptedMessage.new (direction : Direction) (data : Report) (decoded : Option String) :
    InterceptedMessage where
  direction := direction
  rawHex := " ".intercalate (data.map hexByte)
  decoded := decoded

/-- The payload of an output report: UHID prepends the report-ID byte `0x00`. -/
def payload : Report → Report
  | [] => []
  | b :: rest => if b = 0x00 then rest else b :: rest

/-- Where the thread is in its loop. -/
inductive ThreadPhase where
  /-- About to look at the shutdown channel. -/
  | checking
  /-- Writing the pending input reports. -/
  | draining
  | polling
  | sleeping
  /-- The device is closed and the thread's ends of the channels are dropped. -/
  | exited
deriving DecidableEq, Repr

structure UhidThread where
  phase : ThreadPhase
  /-- The sender of the shutdown channel was dropped. -/
  shutdown : Bool
  /-- Emulator to host: what `uhid_write_tx` sent and the thread has not taken. -/
  writeQueue : List Report
  /-- Host to emulator: what the thread sent and `uhid_read_rx` has not taken. -/
  readQueue : List Report
  /-- The input reports the device took, the oldest first. -/
  inputs : List Report
  /-- The output reports the host gave, the oldest first. -/
  outputs : List Report
deriving DecidableEq, Repr

inductive ThreadAct where
  | check
  | write
  | writeFails
  /-- The queue is empty. -/
  | drained
  | poll (output : Option Report)
  | pollFails
  | wake

namespace UhidThread

def spawn : UhidThread := ⟨.checking, false, [], [], [], []⟩

def alive (t : UhidThread) : Bool := t.phase ≠ .exited

/-- One step, given whether `uhid_read_rx` still exists. -/
def step (receiving : Bool) (t : UhidThread) : ThreadAct → Option UhidThread
  | .check =>
    match t.phase with
    | .checking => some { t with phase := if t.shutdown then .exited else .draining }
    | _ => none
  | .write =>
    match t.phase, t.writeQueue with
    | .draining, report :: queue =>
      some { t with writeQueue := queue, inputs := t.inputs ++ [report] }
    | _, _ => none
  | .writeFails =>
    match t.phase, t.writeQueue with
    | .draining, _ :: _ => some { t with phase := .exited }
    | _, _ => none
  | .drained =>
    match t.phase, t.writeQueue with
    | .draining, [] => some { t with phase := .polling }
    | _, _ => none
  | .poll output =>
    match t.phase with
    | .polling =>
      match output with
      | none => some { t with phase := .sleeping }
      | some report =>
        let t := { t with outputs := t.outputs ++ [report] }
        if receiving then
          some { t with phase := .sleeping, readQueue := t.readQueue ++ [report] }
        else some { t with phase := .exited }
    | _ => none
  | .pollFails =>
    match t.phase with
    | .polling => some { t with phase := .exited }
    | _ => none
  | .wake =>
    match t.phase with
    | .sleeping => some { t with phase := .checking }
    | _ => none

/-- `uhid_write_tx.send`. -/
def push (t : UhidThread) (report : Report) : Option UhidThread :=
  if t.alive then some { t with writeQueue := t.writeQueue ++ [report] } else none

/-- The sender of the shutdown channel is dropped. -/
def close (t : UhidThread) : UhidThread := { t with shutdown := true }

end UhidThread

end Hwwctl.Bridge
