import Hwwctl.Emulators.Trezor
import Hwwctl.Library.Transition

/-!
# What `start` answers and what it leaves behind

The two emulators start and stop their children alike. `start` sets the status before it spawns, so
that a failing spawn is remembered as a start that is under way.
-/

namespace Hwwctl.Emulators

open Transition Runtime

/-- What the calls on an emulator do, whatever its kind. -/
structure Launcher (ε Env : Type) where
  status : ε → EmulatorStatus
  child : ε → Option Nat
  start : ε → Env → World → Except String Unit × ε × World
  stop : ε → WaitOutcome → World → ε × World
  /-- `start` comes to its spawn, and the spawn fails. -/
  spawnFails : ε → Env → Prop

inductive LaunchCall (Env : Type) where
  | start (env : Env)
  | stop (wait : WaitOutcome)

namespace Launcher

variable {ε Env : Type} (L : Launcher ε Env)

def step (s : ε × World) : LaunchCall Env → Option (ε × World)
  | .start env => some (L.start s.1 env s.2).2
  | .stop wait => some (L.stop s.1 wait s.2)

/-- The emulator holds a child that was started when there were `n` children or more, and that has
not been stopped. -/
def Holds (n : Nat) (s : ε × World) : Prop :=
  ∃ c, L.child s.1 = some c ∧ n ≤ c ∧ s.2.Alive c

/-- A start that answers `Ok` leaves a child, and one that answers `Err` leaves the status. -/
def Honest (n : Nat) (s : ε × World) : LaunchCall Env → Prop
  | .start env =>
    ((L.start s.1 env s.2).1 = .ok () → L.Holds n (L.start s.1 env s.2).2) ∧
      ∀ e, (L.start s.1 env s.2).1 = .error e →
        L.status (L.start s.1 env s.2).2.1 = L.status s.1
  | .stop _ => True

/-- No spawn fails. -/
def Spawns (s : ε × World) : LaunchCall Env → Prop
  | .start env => ¬ L.spawnFails s.1 env
  | .stop _ => True

/-- What `start` can do. -/
inductive Starts (emu : ε) (env : Env) (w : World) : Except String Unit × ε × World → Prop where
  | already (h : L.status emu = .running ∨ L.status emu = .starting)
    (hspawns : ¬ L.spawnFails emu env) : Starts emu env w (.ok (), emu, w)
  | refused (e : String) (hspawns : ¬ L.spawnFails emu env) : Starts emu env w (.error e, emu, w)
  | fails {emu' : ε} (e : String) (hfails : L.spawnFails emu env)
    (hchild : L.child emu' = L.child emu) (hstatus : L.status emu' ≠ L.status emu) :
    Starts emu env w (.error e, emu', w)
  | spawned {emu' : ε} {w' : World} (hspawns : ¬ L.spawnFails emu env)
    (hchild : L.child emu' = some w.children.length) (halive : w'.Alive w.children.length) :
    Starts emu env w (.ok (), emu', w')

/-- What the two kinds of emulators have in common. -/
structure Lawful : Prop where
  start : ∀ emu env w, (∀ c, L.child emu = some c → c < w.children.length) →
    L.Starts emu env w (L.start emu env w)
  grows : ∀ emu env w, w.children.length ≤ (L.start emu env w).2.2.children.length
  stopped : ∀ emu wait w, L.status (L.stop emu wait w).1 = .stopped ∧
    L.child (L.stop emu wait w).1 = none
  stays : ∀ emu wait w, (L.stop emu wait w).2.children.length = w.children.length

/-- The child that is held is one of the world's. -/
structure Known (n : Nat) (s : ε × World) : Prop where
  room : n ≤ s.2.children.length
  child : ∀ c, L.child s.1 = some c → c < s.2.children.length

variable {L} {n : Nat} {s s' : ε × World} {a : LaunchCall Env}

theorem Known.step (hL : L.Lawful) (hs : L.Known n s) (h : L.step s a = some s') :
    L.Known n s' := by
  cases a with
  | start env =>
    obtain rfl := Option.some.inj h
    have hstarts := hL.start s.1 env s.2 hs.child
    have hgrows := hL.grows s.1 env s.2
    refine ⟨Nat.le_trans hs.room hgrows, ?_⟩
    generalize hresult : L.start s.1 env s.2 = result at hstarts
    cases hstarts with
    | already | refused => exact hs.child
    | fails _ _ hchild =>
      rw [hchild]
      exact hs.child
    | spawned _ hchild halive =>
      intro c hc
      obtain rfl := Option.some.inj (hchild.symm.trans hc)
      obtain ⟨child, hsome, -⟩ := halive
      exact (List.getElem?_eq_some_iff.1 hsome).1
  | stop wait =>
    obtain rfl := Option.some.inj h
    refine ⟨?_, fun c hc => ?_⟩
    · rw [hL.stays]
      exact hs.room
    · rw [(hL.stopped s.1 wait s.2).2] at hc
      cases hc

/-- While no spawn fails, an emulator that is running or starting has its child. -/
structure Held (L : Launcher ε Env) (n : Nat) (s : ε × World) : Prop where
  known : L.Known n s
  holds : L.status s.1 = .running ∨ L.status s.1 = .starting → L.Holds n s

theorem Held.step (hL : L.Lawful) (hs : L.Held n s) (hspawns : L.Spawns s a)
    (h : L.step s a = some s') : L.Held n s' := by
  refine ⟨hs.known.step hL h, ?_⟩
  cases a with
  | start env =>
    obtain rfl := Option.some.inj h
    have hstarts := hL.start s.1 env s.2 hs.known.child
    generalize hresult : L.start s.1 env s.2 = result at hstarts
    cases hstarts with
    | already | refused => exact hs.holds
    | fails _ hfails => exact absurd hfails hspawns
    | spawned _ hchild halive => exact fun _ => ⟨_, hchild, hs.known.room, halive⟩
  | stop wait =>
    obtain rfl := Option.some.inj h
    intro hstatus
    rw [(hL.stopped s.1 wait s.2).1] at hstatus
    simp at hstatus

/-- A start that comes to no failing spawn is honest. -/
theorem Held.honest (hL : L.Lawful) (hs : L.Held n s) (hspawns : L.Spawns s a) :
    L.Honest n s a := by
  cases a with
  | start env =>
    have hstarts := hL.start s.1 env s.2 hs.known.child
    rw [Honest]
    generalize L.start s.1 env s.2 = result at hstarts
    cases hstarts with
    | already hstatus => exact ⟨fun _ => hs.holds hstatus, fun _ _ => rfl⟩
    | refused => exact ⟨nofun, fun _ _ => rfl⟩
    | fails _ hfails => exact absurd hfails hspawns
    | spawned _ hchild halive =>
      exact ⟨fun _ => ⟨_, hchild, hs.known.room, halive⟩, nofun⟩
  | stop => trivial

/-- A start whose spawn fails answers `Err` and has changed the status. -/
theorem Known.spawns (hL : L.Lawful) (hs : L.Known n s) (hhonest : L.Honest n s a) :
    L.Spawns s a := by
  cases a with
  | start env =>
    have hstarts := hL.start s.1 env s.2 hs.child
    rw [Honest] at hhonest
    generalize L.start s.1 env s.2 = result at hstarts hhonest
    cases hstarts with
    | already _ h | refused _ h | spawned h => exact h
    | fails e _ _ hstatus => exact absurd (hhonest.2 e rfl) hstatus
  | stop => trivial

theorem honest_iff (hL : L.Lawful) {emu : ε} {w : World} (hstatus : L.status emu = .stopped)
    (hchild : L.child emu = none) (calls : List (LaunchCall Env)) :
    Guarded L.step (L.Honest w.children.length) (emu, w) calls ↔
      Guarded L.step L.Spawns (emu, w) calls := by
  have hknown : L.Known w.children.length (emu, w) :=
    ⟨Nat.le_refl _, fun c hc => by rw [hchild] at hc; cases hc⟩
  have hheld : L.Held w.children.length (emu, w) :=
    ⟨hknown, fun h => by rw [hstatus] at h; simp at h⟩
  constructor
  · intro hhonest
    exact hhonest.mono_of_always (always_of_step hknown fun _ _ _ hs h => hs.step hL h)
      fun _ _ hs => hs.spawns hL
  · intro hspawns
    exact hspawns.mono_of_always
      (hspawns.always hheld fun _ _ _ hs hC h => hs.step hL hC h)
      fun _ _ hs => hs.honest hL

end Launcher

/-! ## The two kinds -/

/-- `w` with a child that was just started and the two tasks that read its output. -/
def started (w : World) (command : Command) : World :=
  (((w.spawnChild command).2.spawnJob (.stdoutReader w.children.length)).2.spawnJob
    (.stderrReader w.children.length)).2

/-- The same when the handle of an older child is dropped for that of the new one. -/
def replaced (w : World) (command : Command) (old : Option Nat) : World :=
  old.elim (started w command) (started w command).endChild

theorem replaced_alive {w : World} {command : Command} {old : Option Nat}
    (hold : ∀ c, old = some c → c < w.children.length) :
    (replaced w command old).Alive w.children.length := by
  have halive : (started w command).Alive w.children.length := .newest rfl rfl
  cases old with
  | none => exact halive
  | some c => exact halive.endChild (Nat.ne_of_lt (hold c rfl))

theorem length_replaced (w : World) (command : Command) (old : Option Nat) :
    (replaced w command old).children.length = w.children.length + 1 := by
  have hlength : (started w command).children.length = w.children.length + 1 :=
    List.length_append
  cases old with
  | none => exact hlength
  | some c => exact (World.length_children_endChild _ c).trans hlength

/-- A start comes to its spawn, and the spawn fails. -/
def SpawnFails (status : EmulatorStatus) (binaryExists : Bool)
    (createProfileDir spawn : Except String Unit) : Prop :=
  ¬ (status = .running ∨ status = .starting) ∧ binaryExists = true ∧
    createProfileDir = .ok () ∧ ∃ e, spawn = .error e

/-- The order in which both kinds look at what a start meets: `starting` is the emulator with its
new status, `spawned` what becomes of a spawn that succeeds. -/
def launch {ε : Type} (emu starting : ε) (status : EmulatorStatus) (binaryExists : Bool)
    (createProfileDir spawn : Except String Unit) (missing : String) (failed : String → String)
    (spawned : Except String Unit × ε × World) (w : World) : Except String Unit × ε × World :=
  if status = .running ∨ status = .starting then (.ok (), emu, w)
  else if !binaryExists then (.error missing, emu, w)
  else match createProfileDir with
    | .error e => (.error e, emu, w)
    | .ok () =>
      match spawn with
      | .error e => (.error (failed e), starting, w)
      | .ok () => spawned

/-- `L` starts and stops a child as the two kinds do. -/
structure Launches {ε Env : Type} (L : Launcher ε Env) (binaryExists : Env → Bool)
    (createProfileDir spawn : Env → Except String Unit) : Prop where
  spawnFails : ∀ emu env, L.spawnFails emu env =
    SpawnFails (L.status emu) (binaryExists env) (createProfileDir env) (spawn env)
  start : ∀ emu env w, ∃ starting missing failed emu' command,
    (L.status starting = .starting ∧ L.child starting = L.child emu) ∧
      L.child emu' = some w.children.length ∧
      L.start emu env w = launch emu starting (L.status emu) (binaryExists env)
        (createProfileDir env) (spawn env) missing failed
        (.ok (), emu', replaced w command (L.child emu)) w
  stop : ∀ emu wait w, (L.status (L.stop emu wait w).1 = .stopped ∧
    L.child (L.stop emu wait w).1 = none) ∧
      (L.stop emu wait w).2.children.length = w.children.length

section

variable {ε Env : Type} {L : Launcher ε Env} {binaryExists : Env → Bool}
  {createProfileDir spawn : Env → Except String Unit}

theorem Launches.starts (h : Launches L binaryExists createProfileDir spawn) (emu : ε) (env : Env)
    (w : World) (hchild : ∀ c, L.child emu = some c → c < w.children.length) :
    L.Starts emu env w (L.start emu env w) := by
  obtain ⟨starting, missing, failed, emu', command, hstarting, hchild', hstart⟩ := h.start emu env w
  have hfails := h.spawnFails emu env
  rw [hstart]
  unfold launch
  by_cases hbusy : L.status emu = .running ∨ L.status emu = .starting
  · rw [if_pos hbusy]
    exact .already hbusy fun h => (hfails ▸ h).1 hbusy
  · rw [if_neg hbusy]
    generalize binaryExists env = binary, createProfileDir env = dir, spawn env = spawned at hfails
    cases binary with
    | false => exact .refused _ fun h => nomatch (hfails ▸ h).2.1
    | true =>
      cases dir with
      | error e => exact .refused _ fun h => nomatch (hfails ▸ h).2.2.1
      | ok =>
        cases spawned with
        | error e =>
          have hspawn : L.spawnFails emu env := hfails ▸ ⟨hbusy, rfl, rfl, e, rfl⟩
          refine .fails _ hspawn hstarting.2 fun hsame => hbusy (.inr ?_)
          rw [← hsame, hstarting.1]
        | ok =>
          refine .spawned (fun h => ?_) hchild' (replaced_alive hchild)
          obtain ⟨e, he⟩ := (hfails ▸ h).2.2.2
          cases he

theorem Launches.grows (h : Launches L binaryExists createProfileDir spawn) (emu : ε) (env : Env)
    (w : World) : w.children.length ≤ (L.start emu env w).2.2.children.length := by
  obtain ⟨starting, missing, failed, emu', command, -, -, hstart⟩ := h.start emu env w
  rw [hstart]
  unfold launch
  split
  · exact Nat.le_refl _
  · split
    · exact Nat.le_refl _
    · split
      · exact Nat.le_refl _
      · split
        · exact Nat.le_refl _
        · show _ ≤ (replaced w command _).children.length
          rw [length_replaced]
          exact Nat.le_succ _

theorem Launches.lawful (h : Launches L binaryExists createProfileDir spawn) : L.Lawful where
  start := h.starts
  grows := h.grows
  stopped emu wait w := (h.stop emu wait w).1
  stays emu wait w := (h.stop emu wait w).2

end

namespace GenericEmulator

def launcher : Launcher GenericEmulator StartEnv where
  status := GenericEmulator.status
  child := GenericEmulator.child
  start := start
  stop := stop
  spawnFails emu env := SpawnFails emu.status env.binaryExists env.createProfileDir env.spawn

theorem start_eq (emu : GenericEmulator) (env : StartEnv) (w : World) :
    ∃ missing failed status command, emu.start env w =
      launch emu { emu with status := .starting } emu.status env.binaryExists env.createProfileDir
        env.spawn missing failed (.ok (), { emu with
          child := some w.children.length, status := status }, replaced w command emu.child) w := by
  refine ⟨s!"{emu.walletType.display} emulator binary not found at {emu.binaryPath}", fun e =>
    s!"Failed to spawn {emu.walletType.display} emulator ({emu.binaryPath}): {e}", ?_⟩
  cases hskip : emu.skipProbeDelayMs with
  | some ms =>
    refine ⟨.running, { emu with status := .starting }.command env, ?_⟩
    simp only [start, setChild, hskip]
    rfl
  | none =>
    cases hready : env.ready with
    | true =>
      refine ⟨.running, { emu with status := .starting }.command env, ?_⟩
      simp only [start, setChild, hskip, hready]
      rfl
    | false =>
      refine ⟨.error s!"{emu.transport.display} not reachable after {emu.startupTimeoutSecs}s",
        { emu with status := .starting }.command env, ?_⟩
      simp only [start, setChild, hskip, hready]
      rfl

theorem launches :
    Launches launcher StartEnv.binaryExists StartEnv.createProfileDir StartEnv.spawn where
  spawnFails _ _ := rfl
  start emu env w := by
    obtain ⟨missing, failed, status, command, hstart⟩ := start_eq emu env w
    exact ⟨{ emu with status := .starting }, missing, failed,
      { emu with child := some w.children.length, status := status }, command, ⟨rfl, rfl⟩, rfl,
      hstart⟩
  stop emu wait w := by
    show ((stop emu wait w).1.status = .stopped ∧ (stop emu wait w).1.child = none) ∧
      (stop emu wait w).2.children.length = _
    rw [stop]
    split
    · cases wait <;> exact ⟨⟨rfl, rfl⟩, World.length_children_endChild _ _⟩
    · exact ⟨⟨rfl, ‹_›⟩, rfl⟩

end GenericEmulator

namespace TrezorEmulator

def launcher : Launcher TrezorEmulator StartEnv where
  status := TrezorEmulator.status
  child := TrezorEmulator.child
  start := start
  stop := stop
  spawnFails emu env := SpawnFails emu.status env.binaryExists env.createProfileDir env.spawn

theorem start_eq (emu : TrezorEmulator) (env : StartEnv) (w : World) :
    ∃ missing failed status command, emu.start env w =
      launch emu { emu with status := .starting } emu.status env.binaryExists env.createProfileDir
        env.spawn missing failed (.ok (), { emu with
          child := some w.children.length, status := status }, replaced w command emu.child) w := by
  refine ⟨s!"Trezor emulator binary not found at {emu.micropythonPath}. " ++
    "Build trezor-firmware first: cd core && make build_unix",
    fun e => s!"Failed to spawn Trezor emulator: {e}", ?_⟩
  cases hready : env.ready with
  | true =>
    refine ⟨.running, { emu with status := .starting }.command env, ?_⟩
    simp only [start, setChild, hready]
    rfl
  | false =>
    refine ⟨.error s!"UDP :{emu.port} not reachable after startup",
      { emu with status := .starting }.command env, ?_⟩
    simp only [start, setChild, hready]
    rfl

theorem launches :
    Launches launcher StartEnv.binaryExists StartEnv.createProfileDir StartEnv.spawn where
  spawnFails _ _ := rfl
  start emu env w := by
    obtain ⟨missing, failed, status, command, hstart⟩ := start_eq emu env w
    exact ⟨{ emu with status := .starting }, missing, failed,
      { emu with child := some w.children.length, status := status }, command, ⟨rfl, rfl⟩, rfl,
      hstart⟩
  stop emu wait w := by
    show ((stop emu wait w).1.status = .stopped ∧ (stop emu wait w).1.child = none) ∧
      (stop emu wait w).2.children.length = _
    rw [stop]
    split
    · cases wait <;> exact ⟨⟨rfl, rfl⟩, World.length_children_endChild _ _⟩
    · exact ⟨⟨rfl, ‹_›⟩, rfl⟩

end TrezorEmulator

/-- For either kind of emulator, made but not started, the starts of any sequence of calls are
honest exactly when none of them comes to a spawn that fails. -/
theorem starts_honest_iff {generic : GenericEmulator} {trezor : TrezorEmulator} (w : World)
    (hgeneric : generic.status = .stopped ∧ generic.child = none)
    (htrezor : trezor.status = .stopped ∧ trezor.child = none)
    (calls : List (LaunchCall StartEnv)) (calls' : List (LaunchCall TrezorEmulator.StartEnv)) :
    (Guarded GenericEmulator.launcher.step (GenericEmulator.launcher.Honest w.children.length)
        (generic, w) calls ↔
      Guarded GenericEmulator.launcher.step GenericEmulator.launcher.Spawns (generic, w) calls) ∧
    (Guarded TrezorEmulator.launcher.step (TrezorEmulator.launcher.Honest w.children.length)
        (trezor, w) calls' ↔
      Guarded TrezorEmulator.launcher.step TrezorEmulator.launcher.Spawns (trezor, w) calls') :=
  ⟨Launcher.honest_iff GenericEmulator.launches.lawful hgeneric.1 hgeneric.2 calls,
    Launcher.honest_iff TrezorEmulator.launches.lawful htrezor.1 htrezor.2 calls'⟩

def simulatorEmu : GenericEmulator :=
  .new .bitBox02 "/b/simulator" "/b" "/p" (.tcp "127.0.0.1" 15423)

def trezorEmu : TrezorEmulator := .new "/opt/trezor-firmware/core" "/p" 21324

/-- The binary is there but cannot be run. -/
def notExecutable : StartEnv := ⟨true, .ok (), "", false, .error "Permission denied", true⟩

/-- The emulator comes up, but not in time. -/
def slow : TrezorEmulator.StartEnv := ⟨true, .ok (), "", none, true, .ok (), false⟩

theorem starts_honest_iff_slow :
    (Guarded GenericEmulator.launcher.step (GenericEmulator.launcher.Honest 0)
        (simulatorEmu, .empty) [.stop .exited, .start notExecutable] ↔
      Guarded GenericEmulator.launcher.step GenericEmulator.launcher.Spawns (simulatorEmu, .empty)
        [.stop .exited, .start notExecutable]) ∧
    (Guarded TrezorEmulator.launcher.step (TrezorEmulator.launcher.Honest 0)
        (trezorEmu, .empty) [.start slow, .start slow, .stop .timedOut] ↔
      Guarded TrezorEmulator.launcher.step TrezorEmulator.launcher.Spawns (trezorEmu, .empty)
        [.start slow, .start slow, .stop .timedOut]) :=
  starts_honest_iff .empty ⟨rfl, rfl⟩ ⟨rfl, rfl⟩ _ _

/-- The second start answers `Ok` without a child. -/
theorem not_starts_honest_notExecutable :
    ¬ ∀ (emu : GenericEmulator) (w : World) calls, emu.status = .stopped → emu.child = none →
      Guarded GenericEmulator.launcher.step (GenericEmulator.launcher.Honest w.children.length)
        (emu, w) calls := by
  intro h
  have hguard := h simulatorEmu .empty [.start notExecutable, .start notExecutable] rfl rfl
  have hhonest := hguard [.start notExecutable] (.start notExecutable) (List.prefix_refl _) _ _ rfl
    rfl
  obtain ⟨c, hchild, -⟩ := hhonest.1 rfl
  cases hchild

end Hwwctl.Emulators
