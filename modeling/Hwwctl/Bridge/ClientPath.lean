import Hwwctl.Bridge.Unix
import Mathlib.Logic.Function.Basic

/-!
# The datagram bridges of one process

Every relay over `UnixDgram` removes and binds the same `client_path`, which is named after the
process. An emulator answers to the path its requests came from, and its datagrams reach whichever
socket is bound there.
-/

namespace Hwwctl.Bridge

/-- A bridge with its own emulator. -/
structure DgramBridge where
  relay : UnixRelay
  /-- The relay has removed the path and is about to bind it. -/
  removed : Bool
  /-- How many datagrams the emulator is still to send for the requests it got. -/
  owed : Nat

structure Datagram where
  bridge : Nat
  conn : Nat
  data : List UInt8
deriving DecidableEq, Repr

/-- What became of a datagram of the emulator of a bridge. -/
structure Arrival where
  emulator : Nat
  /-- The bridge whose socket it reached. -/
  reached : Option Nat
  /-- The bridge that had removed or bound the path last. -/
  touched : Option Nat
deriving DecidableEq, Repr

structure ClientPath where
  bridges : Nat → DgramBridge
  /-- The socket file: the bridge and the number of the connection it was bound for. -/
  file : Option (Nat × Nat)
  /-- The bridge that removed or bound the path last. -/
  touched : Option Nat
  /-- What the sockets hold, the oldest first. -/
  inbox : List Datagram
  arrivals : List Arrival

/-- The steps. A number names the bridge that takes the step. -/
inductive ClientPathAct where
  | relay (i : Nat) (a : UnixAct)
  /-- The result of the removal is ignored. -/
  | remove (i : Nat) (ok : Bool)
  /-- `bind`, and whether the `connect` after it succeeds. -/
  | bind (i : Nat) (connects : Bool)
  | bindFails (i : Nat)
  /-- A report is sent, for which the emulator will send `answers` datagrams. -/
  | request (i : Nat) (answers : Nat)
  | datagram (i : Nat) (data : List UInt8)
  | receive (i c : Nat)
  | stop (i : Nat)

/-- A task of the relay has the socket of connection `c`. -/
def UnixRelay.holds (s : UnixRelay) (c : Nat) : Bool :=
  s.task.conn = some c || match s.reader c with
    | .reading _ => true
    | _ => false

namespace ClientPath

def init : ClientPath where
  bridges _ := ⟨.start, false, 0⟩
  file := none
  touched := none
  inbox := []
  arrivals := []

def set (w : ClientPath) (i : Nat) (b : DgramBridge) : ClientPath :=
  { w with bridges := Function.update w.bridges i b }

/-- A datagram from the emulator of bridge `i` comes to the path. -/
def arrive (w : ClientPath) (i : Nat) (data : List UInt8) : ClientPath :=
  match w.file with
  | some (j, c) =>
    if (w.bridges j).relay.holds c then
      { w with
        inbox := w.inbox ++ [⟨j, c, data⟩], arrivals := w.arrivals ++ [⟨i, some j, w.touched⟩] }
    else { w with arrivals := w.arrivals ++ [⟨i, none, w.touched⟩] }
  | none => { w with arrivals := w.arrivals ++ [⟨i, none, w.touched⟩] }

def step (reportSize : Nat) (w : ClientPath) : ClientPathAct → Option ClientPath
  | .relay i a =>
    let b := w.bridges i
    match a with
    -- these are the steps below
    | .connects | .connectFails | .written | .reads _ _ => none
    | a => (b.relay.step .dgram reportSize a).map fun relay => w.set i { b with relay := relay }
  | .remove i ok =>
    let b := w.bridges i
    match b.relay.task, b.removed with
    | .connecting _, false =>
      let w := w.set i { b with removed := true }
      if ok then some { w with file := none, touched := some i } else some w
    | _, _ => none
  | .bind i connects =>
    let b := w.bridges i
    match b.removed, w.file with
    | true, none =>
      let a : UnixAct := if connects then .connects else .connectFails
      (b.relay.step .dgram reportSize a).map fun relay =>
        { w.set i { b with relay := relay, removed := false } with
          file := some (i, b.relay.conns.length), touched := some i }
    | _, _ => none
  | .bindFails i =>
    let b := w.bridges i
    match b.removed with
    | true => (b.relay.step .dgram reportSize .connectFails).map fun relay =>
      w.set i { b with relay := relay, removed := false }
    | false => none
  | .request i answers =>
    let b := w.bridges i
    (b.relay.step .dgram reportSize .written).map fun relay =>
      w.set i { b with relay := relay, owed := b.owed + answers }
  | .datagram i data =>
    let b := w.bridges i
    match b.owed with
    | 0 => none
    | owed + 1 => some ((w.set i { b with owed := owed }).arrive i data)
  | .receive i c =>
    let b := w.bridges i
    match w.inbox.find? fun d => d.bridge = i ∧ d.conn = c with
    | some d => (b.relay.step .dgram reportSize (.reads c d.data)).map fun relay =>
      { w.set i { b with relay := relay } with inbox := w.inbox.erase d }
    | none => none
  | .stop i =>
    let b := w.bridges i
    some (w.set i { b with relay := b.relay.stop })

end ClientPath

end Hwwctl.Bridge
