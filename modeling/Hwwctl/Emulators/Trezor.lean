import Hwwctl.Emulators.Generic

/-!
# The Trezor emulator's process

`TrezorEmulator` keeps its child as `GenericEmulator` does. It has no way past the readiness probe,
and it finds its binary in the firmware's build tree unless it is given one.
-/

namespace Hwwctl.Emulators

open Runtime

structure TrezorEmulator where
  firmwarePath : String
  binaryOverride : Option String
  profileDir : String
  port : UInt16
  child : Option Nat
  status : EmulatorStatus
  outputLines : List String
deriving DecidableEq, Repr

namespace TrezorEmulator

def new (firmwarePath profileDir : String) (port : UInt16) : TrezorEmulator where
  firmwarePath := firmwarePath
  binaryOverride := none
  profileDir := profileDir
  port := port
  child := none
  status := .stopped
  outputLines := []

def newWithBinary (binaryPath firmwarePath profileDir : String) (port : UInt16) : TrezorEmulator :=
  { new firmwarePath profileDir port with binaryOverride := some binaryPath }

def micropythonPath (emu : TrezorEmulator) : String :=
  emu.binaryOverride.getD (emu.firmwarePath ++ "/build/unix/trezor-emu-core")

/-- What one `start` meets. -/
structure StartEnv where
  binaryExists : Bool
  createProfileDir : Except String Unit
  ldLibraryPath : String
  /-- `lib` beside the binary, if that is a directory. -/
  libDir : Option String
  srcIsDir : Bool
  spawn : Except String Unit
  ready : Bool

def buildLdLibraryPath (env : StartEnv) : String :=
  match env.libDir with
  | some dir => if env.ldLibraryPath = "" then dir else s!"{dir}:{env.ldLibraryPath}"
  | none => env.ldLibraryPath

def command (emu : TrezorEmulator) (env : StartEnv) : Command where
  program := emu.micropythonPath
  currentDir := emu.firmwarePath
  env :=
    [("LD_LIBRARY_PATH", buildLdLibraryPath env),
      ("MICROPYPATH", if env.srcIsDir then emu.firmwarePath ++ "/src" else ""),
      ("TREZOR_PROFILE_DIR", emu.profileDir),
      ("SDL_VIDEODRIVER", "dummy"),
      ("TREZOR_UDP_PORT", s!"{emu.port}")]
  args := []

/-- Assigning to `self.child` drops the handle it held, and `kill_on_drop` kills that child. -/
def setChild (emu : TrezorEmulator) (c : Nat) (w : World) : TrezorEmulator × World :=
  ({ emu with child := some c }, emu.child.elim w w.endChild)

def start (emu : TrezorEmulator) (env : StartEnv) (w : World) :
    Except String Unit × TrezorEmulator × World :=
  if emu.status = .running ∨ emu.status = .starting then (.ok (), emu, w)
  else if !env.binaryExists then
    (.error (s!"Trezor emulator binary not found at {emu.micropythonPath}. " ++
      "Build trezor-firmware first: cd core && make build_unix"), emu, w)
  else match env.createProfileDir with
    | .error e => (.error e, emu, w)
    | .ok () =>
      let emu := { emu with status := .starting }
      match env.spawn with
      | .error e => (.error s!"Failed to spawn Trezor emulator: {e}", emu, w)
      | .ok () =>
        let (c, w) := w.spawnChild (emu.command env)
        let (_, w) := w.spawnJob (.stdoutReader c)
        let (_, w) := w.spawnJob (.stderrReader c)
        let (emu, w) := emu.setChild c w
        -- `wait_for_ready` probes until the port answers or ten seconds are over
        if env.ready then (.ok (), { emu with status := .running }, w)
        else
          (.ok (), { emu with status := .error s!"UDP :{emu.port} not reachable after startup" }, w)

/-- `wait` is how `child.wait()` ends within the two seconds after SIGTERM. -/
def stop (emu : TrezorEmulator) (wait : WaitOutcome) (w : World) : TrezorEmulator × World :=
  match emu.child with
  | some c =>
    let w := match wait with
      | .exited => w.endChild c
      -- SIGKILL
      | .failed | .timedOut => w.endChild c
    ({ emu with child := none, status := .stopped }, w)
  | none => ({ emu with status := .stopped }, w)

end TrezorEmulator

end Hwwctl.Emulators
