import Hwwctl.Bridge.Device

/-!
# The relays over Unix sockets

One task takes the host's reports. It connects when the first of them comes, writes it, spawns a
read task for the connection, and goes on with the next ones; when it finds the read task finished
or a write fails, it waits for a first report again. The stream relay and the datagram relay differ
in what a read brings.
-/

namespace Hwwctl.Bridge

inductive SocketKind where
  | stream
  | dgram
deriving DecidableEq, Repr

/-- The read task of a connection. -/
inductive UnixReader where
  | unspawned
  /-- In its read, with the part of the buffer that is filled. -/
  | reading (filled : List UInt8)
  | finished
deriving DecidableEq, Repr

structure UnixConn where
  peerOpen : Bool
  reader : UnixReader
deriving DecidableEq, Repr

/-- Where the relay task is. The connections are numbered in the order they were made. -/
inductive UnixTask where
  /-- In the first select. -/
  | unconnected
  | connecting (first : Report)
  | writingFirst (c : Nat) (first : Report)
  /-- It has spawned the read task and comes to its inner loop. -/
  | looking (c : Nat)
  /-- In the second select. -/
  | connected (c : Nat)
  | writing (c : Nat) (report : Report)
  | returned
deriving DecidableEq, Repr

structure UnixRelay where
  thread : UhidThread
  task : UnixTask
  /-- The sender of the task's shutdown channel was dropped. -/
  shutdown : Bool
  conns : List UnixConn
  /-- The reports the task took from its queue. -/
  taken : List Report
  /-- The payloads that were written, each with the number of its connection. -/
  sent : List (Nat × List UInt8)
  intercepted : List InterceptedMessage
deriving DecidableEq, Repr

inductive UnixAct where
  | thread (a : ThreadAct)
  | take
  | connects
  /-- The socket cannot be bound or connected. -/
  | connectFails
  | written
  | writeFails
  /-- The task looks at the read task that it has spawned. -/
  | looks
  /-- The task sees its queue closed. -/
  | closed
  /-- The task sees its shutdown channel closed. -/
  | shutdown
  | emulatorCloses (c : Nat)
  /-- A read of connection `c` brings `data`. -/
  | reads (c : Nat) (data : List UInt8)
  | readEnds (c : Nat)

/-- The connection the task holds. -/
def UnixTask.conn : UnixTask → Option Nat
  | .writingFirst c _ | .looking c | .connected c | .writing c _ => some c
  | _ => none

/-- A datagram in a buffer of `size`, padded with zeros. -/
def padded (size : Nat) (data : List UInt8) : Report := (data.take size).rightpad size 0x00

namespace UnixRelay

def start : UnixRelay where
  thread := .spawn
  task := .unconnected
  shutdown := false
  conns := []
  taken := []
  sent := []
  intercepted := []

def reader (s : UnixRelay) (c : Nat) : UnixReader :=
  match s.conns[c]? with
  | some conn => conn.reader
  | none => .unspawned

def peerOpen (s : UnixRelay) (c : Nat) : Bool :=
  match s.conns[c]? with
  | some conn => conn.peerOpen
  | none => false

def setReader (s : UnixRelay) (c : Nat) (reader : UnixReader) : UnixRelay :=
  { s with conns := s.conns.modify c fun conn => { conn with reader := reader } }

def emit (s : UnixRelay) (direction : Direction) (data : Report) : UnixRelay :=
  { s with intercepted := s.intercepted ++ [.new direction data none] }

/-- A read task got a report: it ends when the device thread is gone. -/
def forward (s : UnixRelay) (c : Nat) (data : Report) : UnixRelay :=
  let s := s.emit .deviceToHost data
  match s.thread.push data with
  | some thread => { s with thread := thread }.setReader c (.reading [])
  | none => s.setReader c .finished

/-- Some task still holds a connection to the emulator. -/
def connectionOpen (s : UnixRelay) : Prop :=
  s.task.conn ≠ none ∨ ∃ c filled, s.reader c = .reading filled

/-- What `GenericBridge::stop` does to the task of the start. -/
def stop (s : UnixRelay) : UnixRelay := { s with thread := s.thread.close, shutdown := true }

def step (kind : SocketKind) (reportSize : Nat) (s : UnixRelay) : UnixAct → Option UnixRelay
  | .thread a => (s.thread.step (s.task ≠ .returned) a).map fun t => { s with thread := t }
  | .take =>
    match s.thread.readQueue with
    | [] => none
    | report :: queue =>
      let taking := { s with
        thread := { s.thread with readQueue := queue }, taken := s.taken ++ [report] }
      match s.task with
      | .unconnected => some { taking with task := .connecting report }
      | .connected c =>
        some { taking.emit .hostToDevice report with task := .writing c report }
      | _ => none
  | .connects =>
    match s.task with
    | .connecting first =>
      some { s.emit .hostToDevice first with
        conns := s.conns ++ [⟨true, .unspawned⟩], task := .writingFirst s.conns.length first }
    | _ => none
  | .connectFails =>
    match s.task with
    | .connecting _ => some { s with task := .returned }
    | _ => none
  | .written =>
    match s.task with
    | .writingFirst c first =>
      if s.peerOpen c then
        some { s.setReader c (.reading []) with
          sent := s.sent ++ [(c, payload first)], task := .looking c }
      else none
    | .writing c report =>
      if s.peerOpen c then
        some { s with
          sent := s.sent ++ [(c, payload report)]
          -- the loop starts over and looks at the read task
          task := if s.reader c = .finished then .unconnected else .connected c }
      else none
    | _ => none
  | .writeFails =>
    match s.task with
    | .writingFirst _ _ | .writing _ _ => some { s with task := .unconnected }
    | _ => none
  | .looks =>
    match s.task with
    | .looking c =>
      some { s with task := if s.reader c = .finished then .unconnected else .connected c }
    | _ => none
  | .closed =>
    match s.task, s.thread.readQueue with
    | .unconnected, [] | .connected _, [] =>
      if s.thread.alive then none else some { s with task := .returned }
    | _, _ => none
  | .shutdown =>
    match s.task with
    | .unconnected | .connected _ => if s.shutdown then some { s with task := .returned } else none
    | _ => none
  | .emulatorCloses c =>
    some { s with conns := s.conns.modify c fun conn => { conn with peerOpen := false } }
  | .reads c data =>
    match s.reader c with
    | .reading filled =>
      match kind with
      | .stream =>
        let filled := filled ++ data
        if reportSize < filled.length then none
        else if filled.length = reportSize then some (s.forward c filled)
        else some (s.setReader c (.reading filled))
      | .dgram => some (s.forward c (padded reportSize data))
    | _ => none
  | .readEnds c =>
    match s.reader c with
    | .reading _ => some (s.setReader c .finished)
    | _ => none

end UnixRelay

/-- `connectFails` stores `false` in the bridge's flag. -/
def UnixAct.clearsRunning : UnixAct → Bool
  | .connectFails => true
  | _ => false

end Hwwctl.Bridge
