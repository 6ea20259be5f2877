import Hwwctl.Bridge.Sessions

/-!
# The Trezor bridge

A thread that owns the device, a task that receives the emulator's datagrams and a task that sends
the host's reports to the emulator. The thread looks at its shutdown channel too, but only for a
value, which nothing ever sends.
-/

namespace Hwwctl.Bridge

open Runtime

/-- Task A, emulator to host. -/
inductive TrezorTaskA where
  | receiving
  | ended
deriving DecidableEq, Repr

/-- Task B, host to emulator. -/
inductive TrezorTaskB where
  | waiting
  | sending (report : Report)
  | ended
deriving DecidableEq, Repr

structure TrezorRelay where
  thread : UhidThread
  taskA : TrezorTaskA
  taskB : TrezorTaskB
  /-- The sender of task A's shutdown channel was dropped. -/
  shutdownA : Bool
  /-- The reports that were sent to the emulator. -/
  sent : List Report
  intercepted : List InterceptedMessage
deriving DecidableEq, Repr

inductive TrezorAct where
  | thread (a : ThreadAct)
  | received (data : List UInt8)
  | recvFails
  | shutdownA
  | take
  | sent
  /-- The failure is logged. -/
  | sendFails
  | closed

/-- `REPORT_SIZE`. -/
def trezorReportSize : Nat := 64

/-- What the thread's channel gives: its sender is there or dropped, and never sends. -/
def UhidThread.tryRecv (t : UhidThread) : TryRecv := if t.shutdown then .closed else .empty

/-- The thread's step; only the look at the channel is not that of the generic bridge. -/
def UhidThread.trezorStep (receiving : Bool) (t : UhidThread) : ThreadAct → Option UhidThread
  | .check =>
    match t.phase with
    | .checking => some { t with phase := if t.tryRecv = .ok then .exited else .draining }
    | _ => none
  | a => t.step receiving a

namespace TrezorRelay

def start : TrezorRelay where
  thread := .spawn
  taskA := .receiving
  taskB := .waiting
  shutdownA := false
  sent := []
  intercepted := []

variable (decode : Report → Option String)

def emit (s : TrezorRelay) (direction : Direction) (data : Report) : TrezorRelay :=
  { s with intercepted := s.intercepted ++ [.new direction data (decode data)] }

/-- `decode` is the line that `decode_packet` and `log_line` give for a report, if any. -/
def step (s : TrezorRelay) : TrezorAct → Option TrezorRelay
  | .thread a => (s.thread.trezorStep (s.taskB ≠ .ended) a).map fun t => { s with thread := t }
  | .received datagram =>
    match s.taskA with
    | .receiving =>
      let data := datagram.take trezorReportSize
      -- a failed send is ignored
      some { s.emit decode .deviceToHost data with
        thread := (s.thread.push data).getD s.thread }
    | .ended => none
  | .recvFails =>
    match s.taskA with
    | .receiving => some { s with taskA := .ended }
    | .ended => none
  | .shutdownA =>
    match s.taskA with
    | .receiving => if s.shutdownA then some { s with taskA := .ended } else none
    | .ended => none
  | .take =>
    match s.taskB, s.thread.readQueue with
    | .waiting, report :: queue =>
      some { s.emit decode .hostToDevice report with
        taskB := .sending report, thread := { s.thread with readQueue := queue } }
    | _, _ => none
  | .sent =>
    match s.taskB with
    | .sending report => some { s with taskB := .waiting, sent := s.sent ++ [report] }
    | _ => none
  | .sendFails =>
    match s.taskB with
    | .sending _ => some { s with taskB := .waiting }
    | _ => none
  | .closed =>
    match s.taskB, s.thread.readQueue with
    | .waiting, [] => if s.thread.alive then none else some { s with taskB := .ended }
    | _, _ => none

/-- What `TrezorBridge::stop` does: it drops the senders. -/
def stop (s : TrezorRelay) : TrezorRelay := { s with thread := s.thread.close, shutdownA := true }

end TrezorRelay

/-- `recvFails` stores `false` in the bridge's flag. -/
def TrezorAct.clearsRunning : TrezorAct → Bool
  | .recvFails => true
  | _ => false

/-- `stop` waits for a fixed time only. -/
def TrezorBridge.kind (decode : Report → Option String) : BridgeKind TrezorRelay TrezorAct where
  start := .start
  step := TrezorRelay.step decode
  stop := TrezorRelay.stop
  thread := TrezorRelay.thread
  starting _ := false
  clearsRunning := TrezorAct.clearsRunning
  awaited _ := true

end Hwwctl.Bridge
