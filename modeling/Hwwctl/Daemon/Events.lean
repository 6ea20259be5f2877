import Hwwctl.Daemon.Registry

/-!
# What happens to the daemon

Between two commands the daemon's emulators and relays go their own way: a child exits, a relay task
ends on a failed read or a failed write. Of all that, `running` of the bridge is the only thing an
instance gets to know.
-/

namespace Hwwctl.Daemon

open Control Emulators Bridge

/-- A failure while a `Start` is being served is one right after it: the registry serves nothing in
between, and the start does not look at the child or the bridge again. -/
inductive Event where
  | command (env : CommandEnv) (cmd : Command)
  | childExits (c : Nat)
  | socketCloses (id : InstanceId)
  | writeFails (id : InstanceId)

/-- What a relay task of an instance does to its bridge when it ends. -/
def relayEnds (fails : GenericBridge → World → GenericBridge × World) (id : InstanceId)
    (s : RegistryState) : RegistryState :=
  match s.instances.lookup id with
  | none => s
  | some inst =>
    match inst.bridge with
    | none => s
    | some bridge =>
      let (bridge, w) := fails bridge s.world
      { instances := s.instances.insert id { inst with bridge := some bridge }, world := w }

def happen (s : RegistryState) : Event → RegistryState
  | .command env cmd => (serve env cmd s).2
  | .childExits c => { s with world := s.world.endChild c }
  | .socketCloses id => relayEnds GenericBridge.readFailed id s
  | .writeFails id => relayEnds GenericBridge.writeFailed id s

/-- Every event is possible in every state. -/
def RegistryState.step (s : RegistryState) (e : Event) : Option RegistryState := some (happen s e)

/-- The emulator's process and the bridge are both still running. -/
def Healthy (w : World) (inst : Instance) : Prop :=
  (∃ c, inst.emulator.child = some c ∧ w.Alive c) ∧
    ∃ bridge, inst.bridge = some bridge ∧ bridge.isRunning = true

/-- What `Status` answers, whoever it is asked about, shows only healthy instances as running. -/
def StatusTruthful (s : RegistryState) : Prop :=
  ∀ env id shown, (serve env (.status id) s).1 = .status (.ok shown) →
    ∀ summary ∈ shown, summary.state = .running →
      ∃ inst, s.instances.lookup summary.inst = some inst ∧ Healthy s.world inst

/-- The event is none of the failures that `Status` does not show: no emulator of an instance exits
or closes its socket while the instance is in the map. -/
def Spares (s : RegistryState) : Event → Prop
  | .command _ _ => True
  | .childExits c => ∀ id inst, s.instances.lookup id = some inst → inst.emulator.child ≠ some c
  | .socketCloses id => id ∉ s.instances
  | .writeFails _ => True

end Hwwctl.Daemon
