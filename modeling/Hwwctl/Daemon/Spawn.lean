import Hwwctl.Daemon.Instance

/-!
# Starting an instance

`startBitbox02` in the steps its comments number: find the bundle, allocate, start the simulator,
seed it, start the bridge, register. Every step that fails after the simulator runs stops it again
before it returns.
-/

namespace Hwwctl.Daemon

open Control Emulators Bridge Runtime

def simulatorMnemonicEnv : String := "BITBOX02_SIMULATOR_MNEMONIC"

def defaultMnemonic : String :=
  "boring mistake dish oyster truth pigeon viable emerge sort crash " ++
    "wire portion cannon couple enact box walk height pull today solid off enable tide"

def defaultRootFingerprint : String := "4c00739d"

structure HidConfig where
  vid : UInt16
  pid : UInt16
  reportDescriptor : List UInt8

/-- The fields of `wallet_config::BITBOX02` that the daemon reads. -/
structure WalletConfig where
  displayName : String
  hid : HidConfig
  startupTimeoutSecs : Nat

def bitbox02 : WalletConfig where
  displayName := "BitBox02"
  hid :=
    { vid := 0x03EB
      pid := 0x2403
      reportDescriptor :=
        [0x06, 0xff, 0xff, 0x09, 0x01, 0xa1, 0x01, 0x09, 0x20, 0x15, 0x00, 0x26, 0xff, 0x00,
          0x75, 0x08, 0x95, 0x40, 0x81, 0x02, 0x09, 0x21, 0x15, 0x00, 0x26, 0xff, 0x00, 0x75,
          0x08, 0x95, 0x40, 0x91, 0x02, 0xc0] }
  startupTimeoutSecs := 15

/-- What one `Start` meets: the answers of the bundle, the system, the simulator and the clock. -/
structure SpawnEnv where
  bundleManager : Except String Unit
  emulatorBinaryPath : Option String
  binaryExists : Bool
  startedAt : Nat
  /-- `finish()` of the hasher in `random_suffix`. -/
  hash : UInt64
  pickFreeTcpPort : Except String UInt16
  createProfileDir : Except String Unit
  emulator : Emulators.StartEnv
  seed : Except String String
  bridge : GenericBridge.StartEnv
  findHidrawBySerial : Option String
  /-- How the simulator takes SIGTERM, if it comes to that. -/
  stopWait : WaitOutcome

/-- `format!("{:06x}", n)`. -/
def hex06 (n : Nat) : String :=
  let digits := Nat.toDigits 16 n
  String.ofList (List.replicate (6 - digits.length) '0' ++ digits)

def randomSuffix (env : SpawnEnv) : String := hex06 (env.hash.toUInt32 &&& 0xffffff).toNat

/-- `Path::parent`. -/
def parent (path : String) : Option String :=
  let name := path.toList.reverse.dropWhile (· = '/')
  if name = [] then none
  else match name.dropWhile (· ≠ '/') with
    | [] => some ""
    | rest =>
      match rest.dropWhile (· = '/') with
      | [] => some "/"
      | dir => some (String.ofList dir.reverse)

def normalizedMnemonic (req : StartRequest) : Action (Option String) :=
  match req.mnemonic with
  | none => pure none
  | some m =>
    match normalizeMnemonic m with
    | .ok words => pure (some words)
    | .error e => .fail .badRequest e

/-- Step 1: the simulator's binary and the directory it stands in. -/
def findBundle (env : SpawnEnv) : Action (String × String) :=
  match env.bundleManager with
  | .error e => .fail .internal e
  | .ok () =>
    match env.emulatorBinaryPath with
    | none =>
      .fail .bundleMissing
        ("BitBox02 simulator bundle is not installed. Run " ++
          "`just bundle-install bitbox02` (or pull a release from " ++
          "https://github.com/n1rna/hwwctl/releases).")
    | some binPath =>
      if env.binaryExists then pure (binPath, (parent binPath).getD ".")
      else
        .fail .bundleMissing
          (s!"BitBox02 simulator binary not found at {binPath} — bundle manifest references a " ++
            "missing file, reinstall the bundle.")

structure Allocation where
  id : InstanceId
  serial : String
  port : UInt16
  profileDir : String

/-- Step 2: names, port and profile directory of the instance. -/
def allocate (env : SpawnEnv) : Action Allocation :=
  let idSuffix := randomSuffix env
  let id : InstanceId := ⟨s!"bitbox02-{idSuffix}"⟩
  let serial := s!"hwwctl-bb02-{idSuffix}"
  match env.pickFreeTcpPort with
  | .error e =>
    .fail .resourceExhausted s!"could not find a free TCP port for the simulator: {e}"
  | .ok port =>
    let profileDir := s!"/tmp/hwwctl-{id.asStr}"
    match env.createProfileDir with
    | .error e => .fail .internal s!"could not create profile dir {profileDir}: {e}"
    | .ok () => pure ⟨id, serial, port, profileDir⟩

/-- Stop the simulator, then return the error; the emulator and the bridge, where there is one, are
local values and dropped on return. -/
def stopAndFail {α : Type} (env : SpawnEnv) (emu : GenericEmulator) (bridge : Option GenericBridge)
    (code : ErrorCode) (message : String) : Action α := do
  let emu ← .onWorld (emu.stop env.stopWait)
  .onWorld fun w => ((), emu.drop (bridge.elim w (·.drop w)))
  .fail code message

/-- The simulator as step 3 configures it. -/
def simulator (req : StartRequest) (mnemonic : Option String) (binPath bundleDir : String)
    (alloc : Allocation) : GenericEmulator :=
  let timeoutSecs := req.timeoutSecs.getD bitbox02.startupTimeoutSecs
  let emu := GenericEmulator.new .bitBox02 binPath bundleDir alloc.profileDir
    (.tcp "127.0.0.1" alloc.port)
  let emu := ((emu.withArg "--port").withArg s!"{alloc.port}").withStartupTimeout timeoutSecs
  let emu := emu.withSkipProbeDelay 1500
  match mnemonic with
  | some words => emu.withEnv simulatorMnemonicEnv words
  | none => emu

/-- Step 3: the simulator's process. -/
def startSimulator (env : SpawnEnv) (emu : GenericEmulator) : Action GenericEmulator := do
  let (started, emu) ← .onWorld fun w =>
    let (r, emu, w) := emu.start env.emulator w
    ((r, emu), w)
  match started with
  | .error e => do
    .onWorld fun w => ((), emu.drop w)
    .fail .spawnFailed s!"BitBox02 simulator failed to start: {e}"
  | .ok () =>
    match emu.status with
    | .running => pure emu
    | .error msg =>
      stopAndFail env emu none .startupTimeout s!"BitBox02 simulator never became reachable: {msg}"
    | other =>
      stopAndFail env emu none .internal
        s!"BitBox02 simulator in unexpected state after start: {other.display}"

/-- A bundle older than the simulator's mnemonic patch restores its built-in seed instead. -/
def ignoredMnemonic (mnemonic : Option String) (fingerprint : String) : Bool :=
  mnemonic.any (· ≠ defaultMnemonic) && fingerprint.toLower = defaultRootFingerprint.toLower

/-- Step 3b: seed the simulator, and check that it took the words it was given. -/
def seedSimulator (env : SpawnEnv) (mnemonic : Option String) (emu : GenericEmulator) :
    Action Unit :=
  match env.seed with
  | .error e => stopAndFail env emu none .internal s!"BitBox02 simulator seeding failed: {e}"
  | .ok fingerprint =>
    if ignoredMnemonic mnemonic fingerprint then
      stopAndFail env emu none .bundleMissing
        ("the installed BitBox02 simulator bundle ignored --mnemonic and restored its " ++
          "built-in seed. It predates custom-seed support; install the bundle from " ++
          "hwwctl 0.1.4 or later.")
    else pure ()

def bridgeConfig (alloc : Allocation) : GenericBridgeConfig :=
  (GenericBridgeConfig.new bitbox02.hid.vid bitbox02.hid.pid bitbox02.displayName
    bitbox02.hid.reportDescriptor (.tcp "127.0.0.1" alloc.port)).withSerial alloc.serial

/-- Step 4: the bridge. -/
def startBridge (env : SpawnEnv) (alloc : Allocation) (emu : GenericEmulator) :
    Action GenericBridge := do
  let (started, bridge) ← .onWorld fun w =>
    let (r, bridge, w) := (GenericBridge.new (bridgeConfig alloc)).start env.bridge w
    ((r, bridge), w)
  match started with
  | .ok () => pure bridge
  | .error e =>
    stopAndFail env emu (some bridge) .bridgeFailed
      (s!"UHID bridge for BitBox02 failed to start: {e}. Common cause: " ++
        "/dev/uhid is not writable (run `just setup-udev` once, or check group membership).")

/-- Steps 5 and 6: the drain task, the hidraw node, and the entry in the map. An entry that stood
under the same id is dropped by `HashMap::insert`. -/
def register (env : SpawnEnv) (req : StartRequest) (alloc : Allocation) (emu : GenericEmulator)
    (bridge : GenericBridge) : Action InstanceSummary := do
  let logDrain ← .onWorld (·.spawnJob .logDrain)
  let inst : Instance :=
    { id := alloc.id
      wallet := .bitBox02
      state := .running
      vid := bitbox02.hid.vid
      pid := bitbox02.hid.pid
      serial := alloc.serial
      hidraw := if req.waitReady then env.findHidrawBySerial else none
      transport := s!"tcp 127.0.0.1:{alloc.port}"
      error := none
      emulator := emu
      bridge := some bridge
      logDrain := some logDrain
      startedAt := env.startedAt
      bridgeLog := []
      bridgeStats := ⟨0, 0, 0, 0⟩ }
  fun s =>
    (.ok inst.summary,
      { instances := s.instances.insert alloc.id inst
        world := (s.instances.lookup alloc.id).elim s.world (·.drop s.world) })

def startBitbox02 (env : SpawnEnv) (req : StartRequest) : Action InstanceSummary := do
  let mnemonic ← normalizedMnemonic req
  let (binPath, bundleDir) ← findBundle env
  let alloc ← allocate env
  let emu ← startSimulator env (simulator req mnemonic binPath bundleDir alloc)
  seedSimulator env mnemonic emu
  let bridge ← startBridge env alloc emu
  register env req alloc emu bridge

def start (env : SpawnEnv) (req : StartRequest) : Action InstanceSummary :=
  match req.wallet with
  | .bitBox02 => startBitbox02 env req
  | _ =>
    .fail .walletUnsupported
      (s!"{req.wallet.asStr} is not wired into the daemon yet — currently only `bitbox02` is " ++
        "supported")

end Hwwctl.Daemon
