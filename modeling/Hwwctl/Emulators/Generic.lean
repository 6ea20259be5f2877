import Hwwctl.Library.Runtime

/-!
# The emulator process

A `GenericEmulator` owns at most one child process. What the outside world answers to a call (does
the binary exist, does the spawn succeed, does the transport come up, how does the child take the
termination signal) is an argument of the call.
-/

namespace Hwwctl.Emulators

open Runtime

inductive EmulatorStatus where
  | stopped
  | starting
  | running
  | error (msg : String)
deriving DecidableEq, Repr

/-- `Display for EmulatorStatus`. -/
def EmulatorStatus.display : EmulatorStatus → String
  | .stopped => "Stopped"
  | .starting => "Starting"
  | .running => "Running"
  | .error msg => "Error: " ++ msg

inductive WalletType where
  | trezor
  | bitBox02
  | coldcard
  | specter
  | ledger
  | jade
deriving DecidableEq, Repr

/-- `Display for WalletType`. -/
def WalletType.display : WalletType → String
  | .trezor => "Trezor"
  | .bitBox02 => "BitBox02"
  | .coldcard => "Coldcard"
  | .specter => "Specter"
  | .ledger => "Ledger"
  | .jade => "Jade"

inductive TransportConfig where
  | udp (host : String) (port : UInt16)
  | tcp (host : String) (port : UInt16)
  | unixSocket (path : String)
deriving DecidableEq, Repr

/-- `Display for TransportConfig`. -/
def TransportConfig.display : TransportConfig → String
  | .udp host port => s!"UDP {host}:{port}"
  | .tcp host port => s!"TCP {host}:{port}"
  | .unixSocket path => s!"Unix {path}"

structure GenericEmulator where
  walletType : WalletType
  binaryPath : String
  workingDir : String
  profileDir : String
  transport : TransportConfig
  envVars : List (String × String)
  args : List String
  startupTimeoutSecs : Nat
  skipProbeDelayMs : Option Nat
  child : Option Nat
  status : EmulatorStatus
  outputLines : List String
deriving DecidableEq, Repr

namespace GenericEmulator

/-- `DEFAULT_STARTUP_TIMEOUT`. -/
def defaultStartupTimeoutSecs : Nat := 15

def new (walletType : WalletType) (binaryPath workingDir profileDir : String)
    (transport : TransportConfig) : GenericEmulator where
  walletType := walletType
  binaryPath := binaryPath
  workingDir := workingDir
  profileDir := profileDir
  transport := transport
  envVars := []
  args := []
  startupTimeoutSecs := defaultStartupTimeoutSecs
  skipProbeDelayMs := none
  child := none
  status := .stopped
  outputLines := []

def withEnv (emu : GenericEmulator) (key value : String) : GenericEmulator :=
  { emu with envVars := emu.envVars ++ [(key, value)] }

def withArg (emu : GenericEmulator) (arg : String) : GenericEmulator :=
  { emu with args := emu.args ++ [arg] }

def withStartupTimeout (emu : GenericEmulator) (secs : Nat) : GenericEmulator :=
  { emu with startupTimeoutSecs := secs }

def withSkipProbeDelay (emu : GenericEmulator) (ms : Nat) : GenericEmulator :=
  { emu with skipProbeDelayMs := some ms }

end GenericEmulator

/-- The jobs that emulators, bridges and the daemon leave running. -/
inductive JobKind where
  | stdoutReader (child : Nat)
  | stderrReader (child : Nat)
  | uhidThread (shutdown : Nat)
  | emulatorToHost (shutdown : Nat)
  | hostToEmulator
  | unixRelay (shutdown : Nat)
  | unixDgramRelay (shutdown : Nat)
  | logDrain
deriving DecidableEq, Repr

abbrev World := Runtime.World JobKind

/-- What one `start` meets. -/
structure StartEnv where
  binaryExists : Bool
  createProfileDir : Except String Unit
  ldLibraryPath : String
  libIsDir : Bool
  spawn : Except String Unit
  ready : Bool

/-- How `child.wait()` ends within the three seconds after SIGTERM. -/
inductive WaitOutcome where
  | exited
  | failed
  | timedOut
deriving DecidableEq, Repr

namespace GenericEmulator

def buildLdLibraryPath (emu : GenericEmulator) (env : StartEnv) : String :=
  let libDir := emu.workingDir ++ "/lib"
  if env.libIsDir then
    if env.ldLibraryPath = "" then libDir else s!"{libDir}:{env.ldLibraryPath}"
  else env.ldLibraryPath

def command (emu : GenericEmulator) (env : StartEnv) : Command where
  program := emu.binaryPath
  currentDir := emu.workingDir
  env := ("LD_LIBRARY_PATH", emu.buildLdLibraryPath env) :: emu.envVars
  args := emu.args

/-- Assigning to `self.child` drops the handle it held, and `kill_on_drop` kills that child. -/
def setChild (emu : GenericEmulator) (c : Nat) (w : World) : GenericEmulator × World :=
  ({ emu with child := some c }, emu.child.elim w w.endChild)

def start (emu : GenericEmulator) (env : StartEnv) (w : World) :
    Except String Unit × GenericEmulator × World :=
  if emu.status = .running ∨ emu.status = .starting then (.ok (), emu, w)
  else if !env.binaryExists then
    (.error s!"{emu.walletType.display} emulator binary not found at {emu.binaryPath}", emu, w)
  else match env.createProfileDir with
    | .error e => (.error e, emu, w)
    | .ok () =>
      let emu := { emu with status := .starting }
      match env.spawn with
      | .error e =>
        (.error s!"Failed to spawn {emu.walletType.display} emulator ({emu.binaryPath}): {e}",
          emu, w)
      | .ok () =>
        let (c, w) := w.spawnChild (emu.command env)
        let (_, w) := w.spawnJob (.stdoutReader c)
        let (_, w) := w.spawnJob (.stderrReader c)
        let (emu, w) := emu.setChild c w
        match emu.skipProbeDelayMs with
        | some _ => (.ok (), { emu with status := .running }, w)
        | none =>
          -- `wait_for_ready` probes until the transport answers or the timeout is over
          if env.ready then (.ok (), { emu with status := .running }, w)
          else
            let msg := s!"{emu.transport.display} not reachable after {emu.startupTimeoutSecs}s"
            (.ok (), { emu with status := .error msg }, w)

def stop (emu : GenericEmulator) (wait : WaitOutcome) (w : World) : GenericEmulator × World :=
  match emu.child with
  | some c =>
    let w := match wait with
      | .exited => w.endChild c
      -- SIGKILL
      | .failed | .timedOut => w.endChild c
    ({ emu with child := none, status := .stopped }, w)
  | none => ({ emu with status := .stopped }, w)

/-- `kill_on_drop` of the child handle; `Drop for GenericEmulator` itself only warns. -/
def drop (emu : GenericEmulator) (w : World) : World := emu.child.elim w w.endChild

end GenericEmulator

end Hwwctl.Emulators
