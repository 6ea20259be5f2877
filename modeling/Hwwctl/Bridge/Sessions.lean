import Hwwctl.Bridge.Relay

/-!
# A bridge over its starts and stops

A bridge is started and stopped any number of times. What every start left running goes on beside
the later ones, and all of them share the flag that `start` looks at. `start` and `stop` borrow the
bridge, so they follow one another.
-/

namespace Hwwctl.Bridge

/-- A kind of bridge: what a start leaves running. -/
structure BridgeKind (σ α : Type) where
  start : σ
  step : σ → α → Option σ
  stop : σ → σ
  thread : σ → UhidThread
  /-- `start` has not returned. -/
  starting : σ → Bool
  /-- The step stores `false` in the flag. -/
  clearsRunning : α → Bool
  /-- What the wait in `stop` is long enough for. -/
  awaited : σ → Bool

structure BridgeState (σ : Type) where
  running : Bool
  /-- `stop` is in its wait. -/
  stopping : Bool
  /-- What the starts left running, the oldest first. -/
  sessions : List σ
deriving DecidableEq, Repr

inductive BridgeAct (α : Type) where
  /-- `start`, and whether the device can be created. -/
  | start (created : Bool)
  | session (i : Nat) (a : α)
  | stop
  | stopEnds

namespace BridgeState

variable {σ α : Type}

def new : BridgeState σ := ⟨false, false, []⟩

/-- Neither `start` nor `stop` has the bridge. -/
def free (k : BridgeKind σ α) (b : BridgeState σ) : Bool :=
  !b.stopping && b.sessions.all fun x => !k.starting x

def step (k : BridgeKind σ α) (b : BridgeState σ) : BridgeAct α → Option (BridgeState σ)
  | .start created =>
    if b.free k then
      -- a refused start and one that cannot create the device change nothing
      if b.running ∨ ¬ created then some b
      else some { b with running := true, sessions := b.sessions ++ [k.start] }
    else none
  | .session i a =>
    match b.sessions[i]? with
    | some x => (k.step x a).map fun x' =>
      { b with running := b.running && !k.clearsRunning a, sessions := b.sessions.set i x' }
    | none => none
  | .stop =>
    if b.free k then some { b with stopping := true, sessions := b.sessions.map k.stop } else none
  | .stopEnds =>
    if b.stopping ∧ b.sessions.all k.awaited then
      some { b with stopping := false, running := false }
    else none

/-- How many device threads are alive. -/
def live (k : BridgeKind σ α) (b : BridgeState σ) : Nat :=
  b.sessions.countP fun x => (k.thread x).alive

end BridgeState

/-- `stop` waits long enough for the device threads to see their channels closed. -/
def GenericBridge.kind (reportSize : Nat) (transport : BridgeTransport) :
    BridgeKind Relay RelayAct where
  start := .start transport
  step := Relay.step reportSize
  stop := Relay.stop
  thread := Relay.thread
  starting := Relay.starting
  clearsRunning := RelayAct.clearsRunning
  awaited s := !s.thread.alive

end Hwwctl.Bridge
