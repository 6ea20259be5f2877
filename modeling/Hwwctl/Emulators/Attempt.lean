import Hwwctl.Emulators.Trezor

/-!
# The parts of a start

`start` up to its spawn, and what it does when the readiness probe is over. Between the two it keeps
the child, with `setChild`.
-/

namespace Hwwctl.Emulators

/-- What has become of a `start` by the time it would keep the child. -/
inductive Attempt (ε : Type) where
  | returned (result : Except String Unit) (emu : ε)
  | spawned (child : Nat) (emu : ε) (w : World)

/-- What comes of the whole `start`. -/
def Attempt.result {ε : Type} (setChild : ε → Nat → World → ε × World) (settle : ε → ε) (w : World) :
    Attempt ε → Except String Unit × ε × World
  | .returned result emu => (result, emu, w)
  | .spawned c emu w => (.ok (), settle (setChild emu c w).1, (setChild emu c w).2)

namespace GenericEmulator

def attempt (emu : GenericEmulator) (env : StartEnv) (w : World) : Attempt GenericEmulator :=
  if emu.status = .running ∨ emu.status = .starting then .returned (.ok ()) emu
  else if !env.binaryExists then
    .returned (.error s!"{emu.walletType.display} emulator binary not found at {emu.binaryPath}")
      emu
  else match env.createProfileDir with
    | .error e => .returned (.error e) emu
    | .ok () =>
      let emu := { emu with status := .starting }
      match env.spawn with
      | .error e =>
        .returned
          (.error s!"Failed to spawn {emu.walletType.display} emulator ({emu.binaryPath}): {e}") emu
      | .ok () =>
        let (c, w) := w.spawnChild (emu.command env)
        let (_, w) := w.spawnJob (.stdoutReader c)
        let (_, w) := w.spawnJob (.stderrReader c)
        .spawned c emu w

/-- From the assignment to `self.child` on. -/
def settle (emu : GenericEmulator) (env : StartEnv) : GenericEmulator :=
  match emu.skipProbeDelayMs with
  | some _ => { emu with status := .running }
  | none =>
    if env.ready then { emu with status := .running }
    else
      let msg := s!"{emu.transport.display} not reachable after {emu.startupTimeoutSecs}s"
      { emu with status := .error msg }

theorem start_eq_attempt (emu : GenericEmulator) (env : StartEnv) (w : World) :
    emu.start env w = (emu.attempt env w).result setChild (settle · env) w := by
  unfold start attempt
  by_cases hbusy : emu.status = .running ∨ emu.status = .starting
  · rw [if_pos hbusy, if_pos hbusy]
    rfl
  · rw [if_neg hbusy, if_neg hbusy]
    cases env.binaryExists with
    | false => rfl
    | true =>
      cases env.createProfileDir with
      | error e => rfl
      | ok =>
        cases env.spawn with
        | error e => rfl
        | ok =>
          cases emu.skipProbeDelayMs with
          | some ms => simp [settle, setChild, Attempt.result]
          | none => cases hready : env.ready <;> simp [settle, setChild, Attempt.result, hready]

end GenericEmulator

namespace TrezorEmulator

def attempt (emu : TrezorEmulator) (env : StartEnv) (w : World) : Attempt TrezorEmulator :=
  if emu.status = .running ∨ emu.status = .starting then .returned (.ok ()) emu
  else if !env.binaryExists then
    .returned (.error (s!"Trezor emulator binary not found at {emu.micropythonPath}. " ++
      "Build trezor-firmware first: cd core && make build_unix")) emu
  else match env.createProfileDir with
    | .error e => .returned (.error e) emu
    | .ok () =>
      let emu := { emu with status := .starting }
      match env.spawn with
      | .error e => .returned (.error s!"Failed to spawn Trezor emulator: {e}") emu
      | .ok () =>
        let (c, w) := w.spawnChild (emu.command env)
        let (_, w) := w.spawnJob (.stdoutReader c)
        let (_, w) := w.spawnJob (.stderrReader c)
        .spawned c emu w

/-- From the assignment to `self.child` on. -/
def settle (emu : TrezorEmulator) (env : StartEnv) : TrezorEmulator :=
  if env.ready then { emu with status := .running }
  else { emu with status := .error s!"UDP :{emu.port} not reachable after startup" }

theorem start_eq_attempt (emu : TrezorEmulator) (env : StartEnv) (w : World) :
    emu.start env w = (emu.attempt env w).result setChild (settle · env) w := by
  unfold start attempt
  by_cases hbusy : emu.status = .running ∨ emu.status = .starting
  · rw [if_pos hbusy, if_pos hbusy]
    rfl
  · rw [if_neg hbusy, if_neg hbusy]
    cases env.binaryExists with
    | false => rfl
    | true =>
      cases env.createProfileDir with
      | error e => rfl
      | ok =>
        cases env.spawn with
        | error e => rfl
        | ok =>
          cases hready : env.ready <;> simp [settle, setChild, Attempt.result, hready]

end TrezorEmulator

end Hwwctl.Emulators
