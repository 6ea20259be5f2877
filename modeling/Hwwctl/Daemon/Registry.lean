import Hwwctl.Daemon.Spawn

/-!
# The registry actor

One task owns the instance map and serves one command after the other. `serve` is the body of its
loop; the loop itself is a fold over the commands in the order of the queue.
-/

namespace Hwwctl.Daemon

open Control Emulators

inductive Command where
  | start (req : StartRequest)
  | stop (inst : InstanceId)
  | status (inst : Option InstanceId)
  | logs (req : LogsRequest)
  | bridgeStats (inst : InstanceId)
  | shutdown
deriving DecidableEq, Repr

/-- What goes back over a command's reply channel. -/
inductive Reply where
  | start (result : Except Control.Error InstanceSummary)
  | stop (result : Except Control.Error Unit)
  | status (result : Except Control.Error (List InstanceSummary))
  | logs (result : Except Control.Error (List LogEntry))
  | bridgeStats (result : Except Control.Error BridgeStatsSnapshot)
  | shutdown

/-- An order in which a map's entries may be iterated. -/
abbrev Iteration (m : InstanceMap) := { l : List (Sigma fun _ : InstanceId => Instance) //
  l.Perm m.entries }

/-- What one command meets. -/
structure CommandEnv where
  spawn : SpawnEnv
  /-- How the emulators that are stopped take SIGTERM. -/
  stopWait : InstanceId → WaitOutcome
  now : Nat
  /-- The order of `HashMap::values` and `HashMap::keys`. -/
  iterate : (m : InstanceMap) → Iteration m
  /-- What the buffers of the instances hold by now; the map keeps them as `start` made them. -/
  buffers : InstanceId → Buffers

def notFound (id : InstanceId) : Control.Error :=
  ⟨.instanceNotFound, s!"no instance with id '{id.asStr}'"⟩

/-- Unknown ids are not an error. The instance leaves the map first; its drain task is aborted, its
bridge and its emulator stopped, and with the end of the function it is dropped. -/
def stopInstance (env : CommandEnv) (id : InstanceId) (s : RegistryState) : RegistryState :=
  match s.instances.lookup id with
  | none => s
  | some inst =>
    let inst := { inst with state := .stopping }
    let w := inst.logDrain.elim s.world s.world.abortJob
    let w := inst.bridge.elim w fun bridge =>
      let (bridge, w) := bridge.stop w
      bridge.drop w
    let (emulator, w) := inst.emulator.stop (env.stopWait id) w
    { instances := s.instances.erase id, world := emulator.drop w }

def serve (env : CommandEnv) (cmd : Command) (s : RegistryState) : Reply × RegistryState :=
  match cmd with
  | .start req =>
    let (result, s) := start env.spawn req s
    (.start result, s)
  | .stop id => (.stop (.ok ()), stopInstance env id s)
  | .status (some id) =>
    match s.instances.lookup id with
    | some inst => (.status (.ok [inst.summary]), s)
    | none => (.status (.error (notFound id)), s)
  | .status none => (.status (.ok ((env.iterate s.instances).1.map (·.2.summary))), s)
  | .logs req =>
    match s.instances.lookup req.inst with
    | some inst =>
      let inst := inst.withBuffers (env.buffers inst.id)
      (.logs (.ok (inst.collectLogs env.now req.source req.tail)), s)
    | none => (.logs (.error (notFound req.inst)), s)
  | .bridgeStats id =>
    match s.instances.lookup id with
    | some inst =>
      let inst := inst.withBuffers (env.buffers inst.id)
      (.bridgeStats (.ok (inst.bridgeStats.snapshot inst.id)), s)
    | none => (.bridgeStats (.error (notFound id)), s)
  | .shutdown =>
    let ids := (env.iterate s.instances).1.map (·.1)
    -- the loop goes on: a second Shutdown finds an empty map
    (.shutdown, ids.foldl (fun s id => stopInstance env id s) s)

/-- The registry before its first command. -/
def RegistryState.init : RegistryState := ⟨∅, .empty⟩

end Hwwctl.Daemon
