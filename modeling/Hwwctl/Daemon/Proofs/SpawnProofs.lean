import Hwwctl.Daemon.Spawn

/-!
# A failed start leaves nothing behind

Up to the point where the simulator runs a failing start has made nothing. From there on the child,
its output readers and, once the bridge has begun to start, the device thread are all the request
owns, and each exit ends them.
-/

namespace Hwwctl.Daemon

open Control Emulators Bridge Runtime

/-- Everything that was made since `w` is over, and what was there in `w` is as it was. -/
structure LeavesNothing (w w' : World) : Prop where
  untouched : Untouched w w'
  noChild : ∀ c ∈ newChildren w w', c.alive = false
  noJob : ∀ j ∈ newJobs w w', ¬ Survives w' j

theorem LeavesNothing.refl (w : World) : LeavesNothing w w :=
  ⟨.refl w, by simp, by simp⟩

theorem LeavesNothing.of_append {w w' : World} {cs os js}
    (hcs : w'.children = w.children ++ cs) (hos : w'.oneshots = w.oneshots ++ os)
    (hjs : w'.jobs = w.jobs ++ js) (hdead : ∀ c ∈ cs, c.alive = false)
    (hover : ∀ j ∈ js, ¬ Survives w' j) : LeavesNothing w w' := by
  refine ⟨.of_append hcs hos hjs, ?_, ?_⟩
  · rw [newChildren_of_append hcs]
    exact hdead
  · rw [newJobs_of_append hjs]
    exact hover

/-- A closed shutdown channel ends the device thread at its next turn, whatever the device does. -/
theorem uhidThread_not_survives {w : World} {ch : Nat} (h : w.tryRecv ch = .closed) :
    ¬ Survives w ⟨.uhidThread ch, true⟩ := by
  rintro ⟨-, turn, hturn⟩
  rw [h] at hturn
  cases hturn

theorem stdoutReader_not_survives {w : World} {c : Nat} {child : Child}
    (h : w.children[c]? = some child) (hdead : child.alive = false) :
    ¬ Survives w ⟨.stdoutReader c, true⟩ := by
  rintro ⟨-, child', hc, halive⟩
  obtain rfl : child = child' := Option.some.inj (h.symm.trans hc)
  rw [hdead] at halive
  cases halive

theorem stderrReader_not_survives {w : World} {c : Nat} {child : Child}
    (h : w.children[c]? = some child) (hdead : child.alive = false) :
    ¬ Survives w ⟨.stderrReader c, true⟩ :=
  stdoutReader_not_survives h hdead

/-! ## The simulator -/

/-- `w` with a simulator started in it. -/
def withSimulator (w : World) (command : Command) (alive : Bool) : World where
  children := w.children ++ [⟨command, alive⟩]
  oneshots := w.oneshots
  jobs := w.jobs ++ [⟨.stdoutReader w.children.length, true⟩, ⟨.stderrReader w.children.length, true⟩]

theorem endChild_withSimulator (w : World) (command : Command) :
    (withSimulator w command true).endChild w.children.length = withSimulator w command false := by
  simp [World.endChild, withSimulator, modify_length_append]

theorem withSimulator_leavesNothing (w : World) (command : Command) :
    LeavesNothing w (withSimulator w command false) := by
  have hchild : (withSimulator w command false).children[w.children.length]? =
      some ⟨command, false⟩ := by simp [withSimulator]
  refine .of_append rfl (List.append_nil w.oneshots).symm rfl ?_ ?_
  · intro c hc
    obtain rfl := List.mem_singleton.1 hc
    rfl
  · intro j hj
    rcases List.mem_pair.1 hj with rfl | rfl
    · exact stdoutReader_not_survives hchild rfl
    · exact stderrReader_not_survives hchild rfl

theorem spawn_withSimulator (w : World) (command : Command) :
    (((w.spawnChild command).2.spawnJob (.stdoutReader w.children.length)).2.spawnJob
      (.stderrReader w.children.length)).2 = withSimulator w command true := by
  simp only [World.spawnChild, World.spawnJob, withSimulator, List.append_assoc, List.cons_append,
    List.nil_append]

def spawnOk (env : Emulators.StartEnv) : Bool :=
  env.binaryExists && env.createProfileDir.isOk && env.spawn.isOk

/-- A fresh emulator that skips the readiness probe: either nothing was made, or it runs. -/
theorem emulator_start_cases {emu : GenericEmulator} (env : Emulators.StartEnv) (w : World)
    (hchild : emu.child = none) (hstatus : emu.status = .stopped)
    (hskip : emu.skipProbeDelayMs.isSome) :
    (spawnOk env = false ∧ ∃ e emu', emu.start env w = (.error e, emu', w) ∧ emu'.child = none) ∨
      (spawnOk env = true ∧ ∃ command, emu.start env w =
        (.ok (), { emu with child := some w.children.length, status := .running },
          withSimulator w command true)) := by
  obtain ⟨d, hd⟩ := Option.isSome_iff_exists.1 hskip
  unfold GenericEmulator.start spawnOk
  rw [if_neg (by simp [hstatus])]
  by_cases hbin : env.binaryExists = true
  · rw [if_neg (by simp [hbin])]
    cases env.createProfileDir with
    | error e => exact .inl ⟨by simp [Except.isOk, Except.toBool], e, emu, rfl, hchild⟩
    | ok u =>
      cases env.spawn with
      | error e =>
        exact .inl ⟨by simp [Except.isOk, Except.toBool], _, { emu with status := .starting }, rfl,
          hchild⟩
      | ok u =>
        refine .inr ⟨by simp [hbin, Except.isOk, Except.toBool],
          { emu with status := .starting }.command env, ?_⟩
        simp only [GenericEmulator.setChild, hd, hchild, Option.elim_none,
          ← spawn_withSimulator]
        rfl
  · rw [if_pos (by simp [hbin])]
    exact .inl ⟨by simp [hbin], _, emu, rfl, hchild⟩

/-- However the child takes SIGTERM, `stop` returns when it is gone. -/
theorem stop_eq {emu : GenericEmulator} {wait : WaitOutcome} {w : World} {c : Nat}
    (h : emu.child = some c) :
    emu.stop wait w = ({ emu with child := none, status := .stopped }, w.endChild c) := by
  unfold GenericEmulator.stop
  rw [h]
  cases wait <;> rfl

/-! ## The bridge -/

/-- `w` with a bridge that has a device thread and two shutdown channels in state `s`. -/
def withDevice (w : World) (s : TryRecv) : World where
  children := w.children
  oneshots := w.oneshots ++ [s, s]
  jobs := w.jobs ++ [⟨.uhidThread (w.oneshots.length + 1), true⟩]

theorem device_withDevice (w : World) :
    (w.oneshot.2.oneshot.2.spawnJob (.uhidThread (w.oneshots.length + 1))).2 =
      withDevice w .empty := by
  simp only [World.oneshot, World.spawnJob, withDevice, List.append_assoc, List.cons_append,
    List.nil_append]

theorem dropSenders_withDevice (w : World) :
    (withDevice w .empty).dropSenders [w.oneshots.length, w.oneshots.length + 1] =
      withDevice w .closed := by
  have hsecond : (w.oneshots ++ [TryRecv.closed, TryRecv.empty]).modify (w.oneshots.length + 1)
      (fun s => if s = .empty then .closed else s) = w.oneshots ++ [.closed, .closed] := by
    have := modify_length_append (fun s => if s = TryRecv.empty then .closed else s)
      (w.oneshots ++ [.closed]) .empty []
    simpa using this
  simp only [World.dropSenders, List.foldl_cons, List.foldl_nil, World.dropSender, withDevice,
    modify_length_append, if_true, hsecond]

def connectOk (env : GenericBridge.StartEnv) : Bool := env.createDevice.isOk && env.connect.isOk

theorem withDevice_untouched (w : World) (s : TryRecv) : Untouched w (withDevice w s) :=
  .of_append (List.append_nil _).symm rfl rfl

/-- A fresh bridge over TCP: no device, a device but no connection, or both and two relays. -/
theorem bridge_start_cases (cfg : GenericBridgeConfig) (env : GenericBridge.StartEnv) (w : World)
    {host : String} {port : UInt16} (htcp : cfg.transport = .tcp host port) :
    (connectOk env = false ∧ ∃ e, (GenericBridge.new cfg).start env w = (.error e, .new cfg, w)) ∨
      (connectOk env = false ∧ ∃ e, (GenericBridge.new cfg).start env w =
        (.error e, { GenericBridge.new cfg with
          shutdownTx := [w.oneshots.length, w.oneshots.length + 1], running := true },
          withDevice w .empty)) ∨
      (connectOk env = true ∧ ∃ bridge w', (GenericBridge.new cfg).start env w =
        (.ok (), bridge, w') ∧ Untouched w w' ∧ bridge.isRunning = true ∧
          w'.children = w.children) := by
  unfold GenericBridge.start connectOk
  rw [if_neg (by simp [GenericBridge.new])]
  cases env.createDevice with
  | error e => exact .inl ⟨rfl, _, rfl⟩
  | ok u =>
    refine .inr ?_
    simp only [GenericBridge.new, htcp]
    cases env.connect with
    | error e =>
      refine .inl ⟨rfl, s!"Failed to connect to emulator at {host}:{port}: {e}", ?_⟩
      rw [← device_withDevice]
      simp [World.oneshot]
    | ok u =>
      refine .inr ⟨rfl, _, _, rfl, ?_, rfl, rfl⟩
      have htasks : Untouched (withDevice w .empty) (((withDevice w .empty).spawnJob
          (.emulatorToHost w.oneshots.length)).2.spawnJob .hostToEmulator).2 :=
        (Untouched.spawnJob _ _).trans (.spawnJob _ _)
      rw [← device_withDevice] at htasks
      have hdevice := withDevice_untouched w .empty
      rw [← device_withDevice] at hdevice
      have hsecond : w.oneshot.2.oneshot.1 = w.oneshots.length + 1 := by simp [World.oneshot]
      rw [hsecond]
      exact hdevice.trans htasks

/-- Both shutdown channels closed and the simulator ended: nothing of either goes on. -/
theorem withDevice_leavesNothing (w : World) (command : Command) :
    LeavesNothing w (withDevice (withSimulator w command false) .closed) := by
  have hsim := withSimulator_leavesNothing w command
  have hchild : (withDevice (withSimulator w command false) .closed).children[w.children.length]? =
      some ⟨command, false⟩ := by simp [withDevice, withSimulator]
  have hclosed : (withDevice (withSimulator w command false) .closed).tryRecv
      (w.oneshots.length + 1) = .closed := by
    simp [World.tryRecv, withDevice, withSimulator]
  refine .of_append rfl rfl (List.append_assoc ..) ?_ ?_
  · intro c hc
    obtain rfl := List.mem_singleton.1 hc
    rfl
  · intro j hj
    simp only [List.cons_append, List.nil_append, List.mem_cons, List.not_mem_nil,
      or_false] at hj
    rcases hj with rfl | rfl | rfl
    · exact stdoutReader_not_survives hchild rfl
    · exact stderrReader_not_survives hchild rfl
    · exact uhidThread_not_survives hclosed

/-! ## The steps of a start -/

/-- A failure seen from the start of the request: same map, nothing left. -/
def Clean (s s' : RegistryState) : Prop :=
  s'.instances = s.instances ∧ LeavesNothing s.world s'.world

theorem Clean.refl (s : RegistryState) : Clean s s := ⟨rfl, .refl _⟩

/-- The simulator runs, and is all that was made since `s`. -/
def SimulatorRuns (s : RegistryState) (emu : GenericEmulator) (s' : RegistryState) : Prop :=
  s'.instances = s.instances ∧ emu.child = some s.world.children.length ∧
    ∃ command, s'.world = withSimulator s.world command true

def instanceId (env : SpawnEnv) : InstanceId := ⟨s!"bitbox02-{randomSuffix env}"⟩

def hidSerial (env : SpawnEnv) : String := s!"hwwctl-bb02-{randomSuffix env}"

/-- The request's only change to the map is the entry for its instance, and where no entry stood
under that id, nothing that was there is touched. -/
def Registers (env : SpawnEnv) (s : RegistryState) (summary : InstanceSummary)
    (s' : RegistryState) : Prop :=
  (∃ inst : Instance, s'.instances = s.instances.insert (instanceId env) inst ∧
    inst.id = instanceId env ∧ inst.serial = hidSerial env ∧ summary = inst.summary) ∧
  (s.instances.lookup (instanceId env) = none → Untouched s.world s'.world)

/-- The entry of a successful start is in state Running, its child is the newest there is and up, and
its bridge is running. Of what there was before, only the instance it may replace is dropped. -/
def Launched (env : SpawnEnv) (s s' : RegistryState) : Prop :=
  ∃ (inst : Instance) (bridge : GenericBridge) (command : Command) (w : World),
    s'.instances = s.instances.insert (instanceId env) inst ∧ inst.state = .running ∧
      inst.emulator.child = some s.world.children.length ∧
      inst.bridge = some bridge ∧ bridge.isRunning = true ∧
      w.children = s.world.children ++ [⟨command, true⟩] ∧
      s'.world = (s.instances.lookup (instanceId env)).elim w (·.drop w)

/-! What each step needs to be answered. -/

def mnemonicOk (req : StartRequest) : Bool := req.mnemonic.all fun m => (normalizeMnemonic m).isOk

def recoveryWords (req : StartRequest) : Option String :=
  req.mnemonic.bind fun m => (normalizeMnemonic m).toOption

def bundleOk (env : SpawnEnv) : Bool :=
  env.bundleManager.isOk && env.emulatorBinaryPath.isSome && env.binaryExists

def allocateOk (env : SpawnEnv) : Bool := env.pickFreeTcpPort.isOk && env.createProfileDir.isOk

def seedOk (env : SpawnEnv) (mnemonic : Option String) : Bool :=
  env.seed.toOption.any fun fingerprint => !ignoredMnemonic mnemonic fingerprint

/-- Every answer a BitBox02 start depends on is the good one. -/
def letsThrough (env : SpawnEnv) (req : StartRequest) : Bool :=
  mnemonicOk req && bundleOk env && allocateOk env && spawnOk env.emulator &&
    seedOk env (recoveryWords req) && connectOk env.bridge

/-- The postcondition of a step that fails because `ok` does not hold. -/
def Fails (s : RegistryState) (ok : Bool) : Control.Error → RegistryState → Prop :=
  fun _ s' => Clean s s' ∧ ok = false

variable {env : SpawnEnv} {req : StartRequest} {s s₀ : RegistryState} {emu : GenericEmulator}
  {alloc : Allocation} {mnemonic : Option String} {ok : Bool}

theorem Fails.refl (h : ok = false) (e : Control.Error) : Fails s ok e s := ⟨Clean.refl s, h⟩

theorem normalizedMnemonic_post :
    Act.Post (normalizedMnemonic req) s
      (fun mnemonic s' => s' = s ∧ mnemonic = recoveryWords req ∧ mnemonicOk req = true)
      (Fails s (mnemonicOk req)) := by
  unfold normalizedMnemonic recoveryWords mnemonicOk
  cases req.mnemonic with
  | none => exact .pure ⟨rfl, rfl, rfl⟩
  | some m =>
    simp only [Option.all_some, Option.bind_some]
    cases normalizeMnemonic m with
    | ok words => exact .pure ⟨rfl, rfl, rfl⟩
    | error e => exact .fail (Fails.refl rfl _)

theorem findBundle_post :
    Act.Post (findBundle env) s (fun _ s' => s' = s ∧ bundleOk env = true)
      (Fails s (bundleOk env)) := by
  unfold findBundle bundleOk
  cases env.bundleManager with
  | error e => exact .fail (Fails.refl rfl _)
  | ok u =>
    cases env.emulatorBinaryPath with
    | none => exact .fail (Fails.refl rfl _)
    | some binPath =>
      cases env.binaryExists with
      | false => exact .fail (Fails.refl rfl _)
      | true => exact .pure ⟨rfl, rfl⟩

theorem allocate_post :
    Act.Post (allocate env) s
      (fun alloc s' => s' = s ∧ alloc.id = instanceId env ∧ alloc.serial = hidSerial env ∧
        allocateOk env = true)
      (Fails s (allocateOk env)) := by
  unfold allocate allocateOk
  cases env.pickFreeTcpPort with
  | error e => exact .fail (Fails.refl rfl _)
  | ok port =>
    dsimp only
    cases env.createProfileDir with
    | error e => exact .fail (Fails.refl rfl _)
    | ok u => exact .pure ⟨rfl, rfl, rfl, rfl⟩

theorem stopAndFail_post {α : Type} {bridge : Option GenericBridge} {code : ErrorCode}
    {message : String} {Q : α → RegistryState → Prop} {c : Nat} (hok : ok = false)
    (hchild : emu.child = some c) (hmap : s.instances = s₀.instances)
    (hleft : LeavesNothing s₀.world (bridge.elim (s.world.endChild c) (·.drop (s.world.endChild c)))) :
    Act.Post (stopAndFail env emu bridge code message) s Q (Fails s₀ ok) := by
  unfold stopAndFail
  refine .bind (.update (Q := fun emu' s' => emu'.child = none ∧
    s' = { s with world := s.world.endChild c }) ?_) ?_
  · rw [stop_eq hchild]
    exact ⟨rfl, rfl⟩
  · rintro emu' s' ⟨hnone, rfl⟩
    refine .bind (.update (Q := fun _ => Clean s₀) ?_) (fun _ _ hclean => .fail ⟨hclean, hok⟩)
    simp only [GenericEmulator.drop, hnone, Option.elim_none]
    exact ⟨hmap, hleft⟩

/-- With nothing made but the simulator, stopping it is all there is to do. -/
theorem stopAndFail_post_of_runs {α : Type} {bridge : Option GenericBridge} {code : ErrorCode}
    {message : String} {Q : α → RegistryState → Prop} (hok : ok = false)
    (h : SimulatorRuns s₀ emu s) (hbridge : ∀ b ∈ bridge, b.shutdownTx = []) :
    Act.Post (stopAndFail env emu bridge code message) s Q (Fails s₀ ok) := by
  obtain ⟨hmap, hchild, command, hw⟩ := h
  refine stopAndFail_post hok hchild hmap ?_
  have hleft : LeavesNothing s₀.world (s.world.endChild s₀.world.children.length) := by
    rw [hw, endChild_withSimulator]
    exact withSimulator_leavesNothing _ command
  cases bridge with
  | none => exact hleft
  | some b =>
    simp only [Option.elim_some, GenericBridge.drop, hbridge b rfl]
    exact hleft

theorem simulator_fresh (req : StartRequest) (mnemonic : Option String) (binPath bundleDir : String)
    (alloc : Allocation) :
    (simulator req mnemonic binPath bundleDir alloc).child = none ∧
      (simulator req mnemonic binPath bundleDir alloc).status = .stopped ∧
      (simulator req mnemonic binPath bundleDir alloc).skipProbeDelayMs.isSome := by
  cases mnemonic with
  | none => exact ⟨rfl, rfl, rfl⟩
  | some words => exact ⟨rfl, rfl, rfl⟩

theorem startSimulator_post (hchild : emu.child = none) (hstatus : emu.status = .stopped)
    (hskip : emu.skipProbeDelayMs.isSome) :
    Act.Post (startSimulator env emu) s
      (fun emu' s' => SimulatorRuns s emu' s' ∧ spawnOk env.emulator = true)
      (Fails s (spawnOk env.emulator)) := by
  unfold startSimulator
  rcases emulator_start_cases env.emulator s.world hchild hstatus hskip with
    ⟨hok, e, emu', hstart, hnone⟩ | ⟨hok, command, hstart⟩
  · refine .bind (.update (Q := fun r s' => r = (.error e, emu') ∧ s' = s) ?_) ?_
    · simp only [hstart, and_self]
    · rintro _ s' ⟨rfl, rfl⟩
      refine .bind (.update (Q := fun _ => Clean s') ?_) (fun _ _ hclean => .fail ⟨hclean, hok⟩)
      simp only [GenericEmulator.drop, hnone, Option.elim_none]
      exact Clean.refl s'
  · refine .bind (.update (Q := fun r s' =>
      r = (.ok (), { emu with child := some s.world.children.length, status := .running }) ∧
        s'.instances = s.instances ∧ s'.world = withSimulator s.world command true) ?_) ?_
    · simp only [hstart, and_self]
    · rintro _ s' ⟨rfl, hmap, hw⟩
      exact .pure ⟨⟨hmap, rfl, command, hw⟩, hok⟩

theorem seedSimulator_post (h : SimulatorRuns s₀ emu s) :
    Act.Post (seedSimulator env mnemonic emu) s
      (fun _ s' => SimulatorRuns s₀ emu s' ∧ seedOk env mnemonic = true)
      (Fails s₀ (seedOk env mnemonic)) := by
  unfold seedSimulator seedOk
  cases env.seed with
  | error e => exact stopAndFail_post_of_runs rfl h (by simp)
  | ok fingerprint =>
    simp only [Except.toOption, Option.any_some]
    cases ignoredMnemonic mnemonic fingerprint with
    | true => exact stopAndFail_post_of_runs rfl h (by simp)
    | false => exact .pure ⟨h, rfl⟩

theorem startBridge_post (h : SimulatorRuns s₀ emu s) :
    Act.Post (startBridge env alloc emu) s
      (fun bridge s' => (s'.instances = s₀.instances ∧ Untouched s₀.world s'.world) ∧
        bridge.isRunning = true ∧
        (∃ command, s'.world.children = s₀.world.children ++ [⟨command, true⟩]) ∧
        connectOk env.bridge = true)
      (Fails s₀ (connectOk env.bridge)) := by
  obtain ⟨hmap, hchild, command, hw⟩ := h
  unfold startBridge
  rcases bridge_start_cases (bridgeConfig alloc) env.bridge s.world rfl with
    ⟨hok, e, hstart⟩ | ⟨hok, e, hstart⟩ | ⟨hok, bridge, w', hstart, hw', hrunning, hchildren⟩
  · -- no device: only the simulator has to go
    refine .bind (.update (Q := fun r s' => r = (.error e, .new (bridgeConfig alloc)) ∧ s' = s)
      ?_) ?_
    · simp only [hstart, and_self]
    · rintro _ s' ⟨rfl, rfl⟩
      refine stopAndFail_post_of_runs hok ⟨hmap, hchild, command, hw⟩ ?_
      rintro b ⟨⟩
      rfl
  · -- the device thread runs, and the channels it listens to are closed with the bridge
    refine .bind (.update (Q := fun r s' => r = (.error e, { GenericBridge.new (bridgeConfig alloc)
      with shutdownTx := [s.world.oneshots.length, s.world.oneshots.length + 1], running := true }) ∧
        s' = { s with world := withDevice s.world .empty }) ?_) ?_
    · simp only [hstart, and_self]
    · rintro _ s' ⟨rfl, rfl⟩
      refine stopAndFail_post hok hchild hmap ?_
      rw [hw]
      show LeavesNothing _ ((withDevice ((withSimulator s₀.world command true).endChild
        s₀.world.children.length) .empty).dropSenders [_, _])
      rw [endChild_withSimulator]
      have hclosed := dropSenders_withDevice (withSimulator s₀.world command false)
      exact hclosed ▸ withDevice_leavesNothing _ command
  · refine .bind (.update (Q := fun r s' => r = (.ok (), bridge) ∧ s'.instances = s.instances ∧
      s'.world = w') ?_) ?_
    · simp only [hstart, and_self]
    · rintro _ s' ⟨rfl, hmap', rfl⟩
      have hsim : Untouched s₀.world s.world :=
        hw ▸ .of_append rfl (List.append_nil _).symm rfl
      exact .pure ⟨⟨hmap'.trans hmap, hsim.trans hw'⟩, hrunning,
        ⟨command, hchildren.trans (congrArg _ hw)⟩, hok⟩

theorem register_post {bridge : GenericBridge} {command : Command}
    {E : Control.Error → RegistryState → Prop}
    (hid : alloc.id = instanceId env) (hserial : alloc.serial = hidSerial env)
    (hmap : s.instances = s₀.instances) (hw : Untouched s₀.world s.world)
    (hchild : emu.child = some s₀.world.children.length) (hrunning : bridge.isRunning = true)
    (hchildren : s.world.children = s₀.world.children ++ [⟨command, true⟩]) :
    Act.Post (register env req alloc emu bridge) s
      (fun summary s' => Registers env s₀ summary s' ∧ Launched env s₀ s') E := by
  unfold register
  refine .bind (.update (Q := fun _ s' => s'.instances = s₀.instances ∧
    Untouched s₀.world s'.world ∧ s'.world.children = s.world.children)
    ⟨hmap, hw.trans (.spawnJob _ _), rfl⟩) ?_
  rintro logDrain s' ⟨hmap', hw', hsame⟩
  refine ⟨⟨?_, ?_⟩, ?_⟩
  · rw [hmap', ← hid, ← hserial]
    exact ⟨_, rfl, rfl, rfl, rfl⟩
  · intro hnone
    rw [hmap', hid, hnone]
    exact hw'
  · rw [Launched, hmap', ← hid]
    exact ⟨_, bridge, command, s'.world, rfl, rfl, hchild, rfl, hrunning, hsame.trans hchildren, rfl⟩

/-- A BitBox02 start succeeds exactly when every answer is the good one, and then registers its
instance; otherwise it leaves nothing behind. -/
theorem startBitbox02_post (env : SpawnEnv) (req : StartRequest) (s : RegistryState) :
    Act.Post (startBitbox02 env req) s
      (fun summary s' => (Registers env s summary s' ∧ Launched env s s') ∧
        letsThrough env req = true)
      (Fails s (letsThrough env req)) := by
  unfold startBitbox02
  refine .bind (normalizedMnemonic_post.mono (fun _ _ h => h)
    fun _ _ h => ⟨h.1, by simp [letsThrough, h.2]⟩) ?_
  rintro _ _ ⟨rfl, rfl, h1⟩
  refine .bind (findBundle_post.mono (fun _ _ h => h)
    fun _ _ h => ⟨h.1, by simp [letsThrough, h.2]⟩) ?_
  rintro ⟨binPath, bundleDir⟩ _ ⟨rfl, h2⟩
  refine .bind (allocate_post.mono (fun _ _ h => h)
    fun _ _ h => ⟨h.1, by simp [letsThrough, h.2]⟩) ?_
  rintro alloc _ ⟨rfl, hid, hserial, h3⟩
  obtain ⟨hchild, hstatus, hskip⟩ := simulator_fresh req (recoveryWords req) binPath bundleDir alloc
  refine .bind ((startSimulator_post hchild hstatus hskip).mono (fun _ _ h => h)
    fun _ _ h => ⟨h.1, by simp [letsThrough, h.2]⟩) ?_
  rintro emu s₁ ⟨hrun, h4⟩
  refine .bind ((seedSimulator_post hrun).mono (fun _ _ h => h)
    fun _ _ h => ⟨h.1, by simp [letsThrough, h.2]⟩) ?_
  rintro _ s₂ ⟨hrun, h5⟩
  refine .bind ((startBridge_post hrun).mono (fun _ _ h => h)
    fun _ _ h => ⟨h.1, by simp [letsThrough, h.2]⟩) ?_
  rintro bridge s₃ ⟨⟨hmap, hw⟩, hrunning, ⟨command, hchildren⟩, h6⟩
  refine (register_post hid hserial hmap hw hrun.2.1 hrunning hchildren).mono
    (fun _ _ h => ⟨h, ?_⟩) (fun _ _ h => h)
  simp only [letsThrough, h1, h2, h3, h4, h5, h6, Bool.and_self]

/-- When `startBitbox02` returns an error, for whatever reason, the instance map is as it was, the
simulator it may have spawned is dead, and neither a device thread nor a task goes on. -/
theorem startBitbox02_error (env : SpawnEnv) (req : StartRequest) (s s' : RegistryState)
    (e : Control.Error) (h : startBitbox02 env req s = (.error e, s')) :
    s'.instances = s.instances ∧ LeavesNothing s.world s'.world :=
  ((startBitbox02_post env req s).error h).1

/-- The simulator is up and seeded, but does not accept the bridge's connection. -/
def refusingEnv : SpawnEnv where
  bundleManager := .ok ()
  emulatorBinaryPath := some "/b/bitbox02/simulator"
  binaryExists := true
  startedAt := 0
  hash := 0xa3f912
  pickFreeTcpPort := .ok 15423
  createProfileDir := .ok ()
  emulator :=
    { binaryExists := true
      createProfileDir := .ok ()
      ldLibraryPath := ""
      libIsDir := false
      spawn := .ok ()
      ready := true }
  seed := .ok "4c00739d"
  bridge := ⟨.ok (), .error "connection refused"⟩
  findHidrawBySerial := none
  stopWait := .timedOut

theorem startBitbox02_error_refused :
    ∃ e s', startBitbox02 refusingEnv ⟨.bitBox02, true, none, none⟩ ⟨∅, .empty⟩ = (.error e, s') ∧
      s'.world.children.length = 1 ∧ s'.world.jobs.length = 3 ∧
      s'.instances = ∅ ∧ LeavesNothing .empty s'.world := by
  obtain ⟨e, s', h, hchildren, hjobs⟩ : ∃ e s', startBitbox02 refusingEnv
      ⟨.bitBox02, true, none, none⟩ ⟨∅, .empty⟩ = (.error e, s') ∧
      s'.world.children.length = 1 ∧ s'.world.jobs.length = 3 := ⟨_, _, rfl, rfl, rfl⟩
  exact ⟨e, s', h, hchildren, hjobs, startBitbox02_error _ _ _ _ _ h⟩

end Hwwctl.Daemon
