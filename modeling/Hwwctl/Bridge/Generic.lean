import Hwwctl.Emulators.Generic
import Hwwctl.Library.Loop

/-!
# The UHID bridge

`GenericBridge.start` creates the virtual device, the thread that owns it and, over TCP, the two
relay tasks once the connection stands. The device thread runs until its shutdown channel is closed
or the device fails.
-/

namespace Hwwctl.Bridge

open Runtime Emulators

inductive BridgeTransport where
  | tcp (host : String) (port : UInt16)
  | unix (path : String)
  | unixDgram (path : String)
deriving DecidableEq, Repr

structure GenericBridgeConfig where
  vid : UInt16
  pid : UInt16
  name : String
  serial : String
  reportDescriptor : List UInt8
  reportSize : Nat
  transport : BridgeTransport
deriving DecidableEq, Repr

namespace GenericBridgeConfig

def new (vid pid : UInt16) (name : String) (reportDescriptor : List UInt8)
    (transport : BridgeTransport) : GenericBridgeConfig where
  vid := vid
  pid := pid
  name := name
  serial := ""
  reportDescriptor := reportDescriptor
  reportSize := 64
  transport := transport

def withSerial (cfg : GenericBridgeConfig) (serial : String) : GenericBridgeConfig :=
  { cfg with serial := serial }

end GenericBridgeConfig

structure GenericBridge where
  config : GenericBridgeConfig
  running : Bool
  shutdownTx : List Nat
  taskHandles : List Nat
deriving DecidableEq, Repr

/-! ## The device thread -/

/-- What `poll_output_report` gives, and for a report whether the relay still takes it. -/
inductive UhidPoll where
  | output (relayed : Bool)
  | nothing
  | failed
deriving DecidableEq, Repr

/-- What one turn of the device thread meets after it looked at its shutdown channel. -/
structure UhidTurn where
  writeFails : Bool
  poll : UhidPoll

/-- One turn of the loop in `spawn_uhid_thread`. -/
def uhidThreadBody (shutdown : TryRecv) (turn : UhidTurn) : Loop.Flow Unit Unit :=
  match shutdown with
  | .ok | .closed => .done ()
  | .empty =>
    if turn.writeFails then .done ()
    else match turn.poll with
      | .output relayed => if relayed then .next () else .done ()
      | .nothing => .next ()
      | .failed => .done ()

namespace GenericBridge

def new (config : GenericBridgeConfig) : GenericBridge where
  config := config
  running := false
  shutdownTx := []
  taskHandles := []

/-- What one `start` meets. -/
structure StartEnv where
  createDevice : Except String Unit
  connect : Except String Unit

def start (bridge : GenericBridge) (env : StartEnv) (w : World) :
    Except String Unit × GenericBridge × World :=
  if bridge.running then (.error "GenericBridge is already running", bridge, w)
  else match env.createDevice with
    | .error e =>
      (.error s!"Failed to create UHID device '{bridge.config.name}': {e}", bridge, w)
    | .ok () =>
      let (shutdownA, w) := w.oneshot
      let (shutdownB, w) := w.oneshot
      let bridge := { bridge with
        shutdownTx := bridge.shutdownTx ++ [shutdownA, shutdownB], running := true }
      let (_, w) := w.spawnJob (.uhidThread shutdownB)
      match bridge.config.transport with
      | .tcp host port =>
        match env.connect with
        | .error e =>
          (.error s!"Failed to connect to emulator at {host}:{port}: {e}", bridge, w)
        | .ok () =>
          let (taskA, w) := w.spawnJob (.emulatorToHost shutdownA)
          let (taskB, w) := w.spawnJob .hostToEmulator
          (.ok (), { bridge with taskHandles := bridge.taskHandles ++ [taskA, taskB] }, w)
      | .unix _ =>
        let (_, w) := w.spawnJob (.unixRelay shutdownA)
        (.ok (), bridge, w)
      | .unixDgram _ =>
        let (_, w) := w.spawnJob (.unixDgramRelay shutdownA)
        (.ok (), bridge, w)

def stop (bridge : GenericBridge) (w : World) : GenericBridge × World :=
  let w := w.dropSenders bridge.shutdownTx
  let w := w.abortJobs bridge.taskHandles
  ({ bridge with shutdownTx := [], taskHandles := [], running := false }, w)

/-- Dropping the bridge drops its senders; the join handles detach their tasks. -/
def drop (bridge : GenericBridge) (w : World) : World := w.dropSenders bridge.shutdownTx

def isRunning (bridge : GenericBridge) : Bool := bridge.running

/-- How task A of a TCP bridge ends on a failed read. -/
def readFailed (bridge : GenericBridge) (w : World) : GenericBridge × World :=
  ({ bridge with running := false }, bridge.taskHandles[0]?.elim w w.abortJob)

/-- How task B of a TCP bridge ends on a failed write; it has no hold of `running`. -/
def writeFailed (bridge : GenericBridge) (w : World) : GenericBridge × World :=
  (bridge, bridge.taskHandles[1]?.elim w w.abortJob)

end GenericBridge

/-! ## What goes on running -/

/-- The job is there and may go on for ever: the device thread when some turn does not end it, an
output reader while its child has the other end of the pipe. -/
def Survives (w : World) (job : Job JobKind) : Prop :=
  job.running = true ∧
    match job.kind with
    | .uhidThread shutdown => ∃ turn, uhidThreadBody (w.tryRecv shutdown) turn = .next ()
    | .stdoutReader c | .stderrReader c => ∃ child, w.children[c]? = some child ∧ child.alive = true
    | _ => True

end Hwwctl.Bridge
