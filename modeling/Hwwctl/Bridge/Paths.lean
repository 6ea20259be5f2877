import Hwwctl.Bridge.Relay
import Hwwctl.Bridge.Trezor
import Hwwctl.Protocol.Framing

/-!
# The ways of a host report to the emulator

What the bridges and their transports have in common: output events of the device go in on one side,
bytes for the emulator come out on the other.
-/

namespace Hwwctl.Bridge

open Transition Protocol

structure HostPath (σ α : Type) where
  start : σ
  step : σ → α → Option σ
  /-- The output events of the device, the oldest first. -/
  events : σ → List Report
  /-- What was sent to the emulator, the oldest first; over a stream the pieces mean nothing. -/
  sent : σ → List (List UInt8)
  /-- Nothing is queued or in the relay's hands. -/
  Idle : σ → Prop
  /-- The step is not a send that fails. -/
  Up : α → Prop

namespace HostPath

variable {σ α : Type} (p : HostPath σ α)

def forwarded (s : σ) : List UInt8 := (p.sent s).flatten

def Reaches (s s' : σ) : Prop := ∃ acts, (∀ a ∈ acts, p.Up a) ∧ run p.step s acts = some s'

/-- The path takes output events through, from one idle state to the next. -/
structure Carries (s : σ) (events : List Report) (s' : σ) : Prop where
  reached : p.Reaches p.start s
  idle : p.Idle s
  goesOn : p.Reaches s s'
  idleAgain : p.Idle s'
  taken : p.events s' = p.events s ++ events

/-- For every output event the path forwards what `f` makes of it. -/
def Forwards (f : Report → List UInt8) : Prop :=
  ∀ s events s', p.Carries s events s' → p.forwarded s' = p.forwarded s ++ events.flatMap f

/-- Two paths forward the same bytes for an output event, whatever they carried before. -/
def Same {τ β : Type} (q : HostPath τ β) (event : Report) : Prop :=
  ∀ s s' t t', p.Carries s [event] s' → q.Carries t [event] t' →
    ∃ bytes, p.forwarded s' = p.forwarded s ++ bytes ∧ q.forwarded t' = q.forwarded t ++ bytes

end HostPath

def Relay.CaughtUp : Relay → Prop
  | .connecting t => t.readQueue = []
  | .tcp s => s.taskB = .waiting ∧ s.thread.readQueue = []
  | .unix _ s => (s.task = .unconnected ∨ ∃ c, s.task = .connected c) ∧ s.thread.readQueue = []

def RelayAct.Up : RelayAct → Prop
  | .tcp .writeFails | .unix .writeFails => False
  | _ => True

def GenericBridge.hostPath (reportSize : Nat) (transport : BridgeTransport) :
    HostPath Relay RelayAct where
  start := .start transport
  step := Relay.step reportSize
  events s := s.thread.outputs
  sent s := s.toEmulator.map (·.2)
  Idle := Relay.CaughtUp
  Up := RelayAct.Up

def TrezorAct.Up : TrezorAct → Prop
  | .sendFails => False
  | _ => True

def TrezorBridge.hostPath (decode : Report → Option String) : HostPath TrezorRelay TrezorAct where
  start := .start
  step := TrezorRelay.step decode
  events s := s.thread.outputs
  sent s := s.sent
  Idle s := s.taskB = .waiting ∧ s.thread.readQueue = []
  Up := TrezorAct.Up

/-- The output events of a host that frames a message, with the report-ID byte of the device. -/
def outputEvents (m : RawMessage) : List Report :=
  (frameMessage m.msgType m.payload).map fun p => 0x00 :: p.bytes

/-- The datagrams that the Trezor bridge sends for a message are reassembled to it. -/
def TrezorBridge.Reassembles (decode : Report → Option String) (m : RawMessage) : Prop :=
  ∀ s s', (TrezorBridge.hostPath decode).Carries s (outputEvents m) s' →
    ∃ (c : Receiver) (datagrams : List (List UInt8)), s'.sent = s.sent ++ datagrams ∧
      (c.receive (datagrams.map .datagram)).1 = .ok m

end Hwwctl.Bridge
