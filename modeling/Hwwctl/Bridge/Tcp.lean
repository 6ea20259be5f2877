import Hwwctl.Bridge.Device

/-!
# The relay over TCP

Task A reads blocks of `report_size` bytes from the emulator and queues them for the device; task B
writes the payloads of the host's reports to the emulator. A read may bring any part of a block, a
write may take any part of a payload.
-/

namespace Hwwctl.Bridge

/-- Task A, emulator to host. -/
inductive TaskA where
  /-- In `read_exact`, with the part of the buffer that is filled. -/
  | reading (filled : List UInt8)
  | ended
deriving DecidableEq, Repr

/-- Task B, host to emulator. -/
inductive TaskB where
  | waiting
  /-- In `write_all`, with what is left of the payload. -/
  | writing (rest : List UInt8)
  | ended
deriving DecidableEq, Repr

structure TcpRelay where
  thread : UhidThread
  taskA : TaskA
  taskB : TaskB
  /-- The sender of task A's shutdown channel was dropped. -/
  shutdownA : Bool
  /-- What the emulator sent and task A has not read. -/
  incoming : List UInt8
  /-- Everything the emulator sent. -/
  received : List UInt8
  /-- Everything that was written to the emulator. -/
  sent : List UInt8
  intercepted : List InterceptedMessage
deriving DecidableEq, Repr

inductive TcpAct where
  | thread (a : ThreadAct)
  | emulatorSends (bytes : List UInt8)
  | read (n : Nat)
  /-- The buffer is full. -/
  | deliver
  /-- The emulator closed the connection, or it broke. -/
  | readFails
  /-- Task A sees its shutdown channel closed. -/
  | shutdownA
  | take
  | write (n : Nat)
  /-- The payload is written. -/
  | written
  | writeFails
  /-- Task B sees its queue closed. -/
  | closed

namespace TcpRelay

def connected : TcpRelay where
  thread := .spawn
  taskA := .reading []
  taskB := .waiting
  shutdownA := false
  incoming := []
  received := []
  sent := []
  intercepted := []

/-- Something still holds a half of the connection. -/
def connectionOpen (s : TcpRelay) : Prop := s.taskA ≠ .ended ∨ s.taskB ≠ .ended

def emit (s : TcpRelay) (direction : Direction) (data : Report) : TcpRelay :=
  { s with intercepted := s.intercepted ++ [.new direction data none] }

/-- What `GenericBridge::stop` does to the tasks of the start. -/
def stop (s : TcpRelay) : TcpRelay :=
  { s with thread := s.thread.close, shutdownA := true, taskA := .ended, taskB := .ended }

def step (reportSize : Nat) (s : TcpRelay) : TcpAct → Option TcpRelay
  | .thread a => (s.thread.step (s.taskB ≠ .ended) a).map fun t => { s with thread := t }
  | .emulatorSends bytes =>
    some { s with incoming := s.incoming ++ bytes, received := s.received ++ bytes }
  | .read n =>
    match s.taskA with
    | .reading filled =>
      if n ≤ s.incoming.length ∧ filled.length + n ≤ reportSize then
        some { s with
          taskA := .reading (filled ++ s.incoming.take n), incoming := s.incoming.drop n }
      else none
    | .ended => none
  | .deliver =>
    match s.taskA with
    | .reading data =>
      if data.length = reportSize then
        let s := s.emit .deviceToHost data
        -- a failed send is ignored
        some { s with taskA := .reading [], thread := (s.thread.push data).getD s.thread }
      else none
    | .ended => none
  | .readFails =>
    match s.taskA with
    | .reading _ => some { s with taskA := .ended }
    | .ended => none
  | .shutdownA =>
    match s.taskA with
    | .reading _ => if s.shutdownA then some { s with taskA := .ended } else none
    | .ended => none
  | .take =>
    match s.taskB, s.thread.readQueue with
    | .waiting, report :: queue =>
      let s := s.emit .hostToDevice report
      some { s with
        taskB := .writing (payload report), thread := { s.thread with readQueue := queue } }
    | _, _ => none
  | .write n =>
    match s.taskB with
    | .writing rest =>
      if n ≤ rest.length then
        some { s with taskB := .writing (rest.drop n), sent := s.sent ++ rest.take n }
      else none
    | _ => none
  | .written =>
    match s.taskB with
    | .writing [] => some { s with taskB := .waiting }
    | _ => none
  | .writeFails =>
    match s.taskB with
    | .writing _ => some { s with taskB := .ended }
    | _ => none
  | .closed =>
    match s.taskB, s.thread.readQueue with
    | .waiting, [] => if s.thread.alive then none else some { s with taskB := .ended }
    | _, _ => none

end TcpRelay

/-- `readFails` stores `false` in the bridge's flag. -/
def TcpAct.clearsRunning : TcpAct → Bool
  | .readFails => true
  | _ => false

end Hwwctl.Bridge
