import Hwwctl.Control.Types
import Hwwctl.Bridge.Device
import Hwwctl.Bridge.Generic
import Hwwctl.Library.Action
import Mathlib.Algebra.Group.Nat.Defs
import Mathlib.Data.List.AList

/-!
# The daemon's instances

An instance is an emulator, its bridge and what the two have said so far. Instants are nanoseconds
on the daemon's monotonic clock.
-/

namespace Hwwctl.Daemon

open Control Emulators Bridge

structure BridgeLog where
  takenAt : Nat
  direction : Direction
  rawHex : String
deriving DecidableEq, Repr

structure BridgeStatsCounters where
  hostToDeviceReports : UInt64
  hostToDeviceBytes : UInt64
  deviceToHostReports : UInt64
  deviceToHostBytes : UInt64
deriving DecidableEq, Repr

def BridgeStatsCounters.snapshot (c : BridgeStatsCounters) (inst : InstanceId) :
    BridgeStatsSnapshot where
  inst := inst
  hostToDeviceReports := c.hostToDeviceReports.toNat
  hostToDeviceBytes := c.hostToDeviceBytes.toNat
  deviceToHostReports := c.deviceToHostReports.toNat
  deviceToHostBytes := c.deviceToHostBytes.toNat

/-- The buffers that the source shares with the reader and drain tasks are values here; a task that
pushes to one changes the instance. The emulator's ring is `emulator.outputLines`. -/
structure Instance where
  id : InstanceId
  wallet : Wallet
  state : InstanceState
  vid : UInt16
  pid : UInt16
  serial : String
  hidraw : Option String
  transport : String
  error : Option String
  emulator : GenericEmulator
  bridge : Option GenericBridge
  logDrain : Option Nat
  startedAt : Nat
  bridgeLog : List BridgeLog
  bridgeStats : BridgeStatsCounters
deriving DecidableEq, Repr

/-- What the tasks of an instance have filled its buffers with. -/
structure Buffers where
  outputLines : List String
  bridgeLog : List BridgeLog
  bridgeStats : BridgeStatsCounters
deriving DecidableEq, Repr

namespace Instance

def withBuffers (inst : Instance) (buffers : Buffers) : Instance :=
  { inst with
    emulator := { inst.emulator with outputLines := buffers.outputLines }
    bridgeLog := buffers.bridgeLog
    bridgeStats := buffers.bridgeStats }

def summary (inst : Instance) : InstanceSummary where
  inst := inst.id
  wallet := inst.wallet
  state := inst.state
  vid := inst.vid
  pid := inst.pid
  serial := inst.serial
  hidraw := inst.hidraw
  transport := inst.transport
  error := inst.error

/-- `as_millis() as u64` of the time between two instants, 0 when they are the other way round. -/
def millisSince (t start : Nat) : Nat := (t - start) / 1000000 % 2 ^ 64

def collectLogs (inst : Instance) (now : Nat) (source : LogSource) (tail : Option Nat) :
    List LogEntry :=
  let emulator := if source = .emulator ∨ source = .all then
      inst.emulator.outputLines.map fun line =>
        { tsMs := millisSince now inst.startedAt, source := .emulator, message := line,
          direction := "", rawHex := "" }
    else []
  let bridge := if source = .bridge ∨ source = .all then
      inst.bridgeLog.map fun entry =>
        { tsMs := millisSince entry.takenAt inst.startedAt, source := .bridge, message := "",
          direction := entry.direction.display, rawHex := entry.rawHex }
    else []
  let out := (emulator ++ bridge).mergeSort fun a b => decide (a.tsMs ≤ b.tsMs)
  match tail with
  | some n => if out.length > n then out.drop (out.length - n) else out
  | none => out

/-- Dropping an instance drops its emulator's child handle and its bridge's senders; the drain task
is detached. -/
def drop (inst : Instance) (w : World) : World :=
  let w := inst.emulator.drop w
  inst.bridge.elim w (·.drop w)

end Instance

/-- The registry's `HashMap`. -/
abbrev InstanceMap := AList fun _ : InstanceId => Instance

/-- What the registry task works on: its map, and the processes, channels and jobs. -/
structure RegistryState where
  instances : InstanceMap
  world : World

/-- What the registry task does for a client: it may end with an error for it. -/
abbrev Action (α : Type) := Act Control.Error RegistryState α

namespace Action

variable {α : Type}

def onWorld (f : World → α × World) : Action α :=
  Act.update fun s => ((f s.world).1, { s with world := (f s.world).2 })

def fail (code : ErrorCode) (message : String) : Action α := Act.fail ⟨code, message⟩

end Action

end Hwwctl.Daemon
