import Hwwctl.Daemon.SocketPath
import Hwwctl.Library.Polling

/-!
# Reaching a daemon, or spawning one

`connect_or_spawn` as one client runs it. What the system answers is given; the clock of
`wait_for_socket` runs in milliseconds.
-/

namespace Hwwctl.AutoSpawn

open Polling SocketPath Transition

/-- `io::ErrorKind`, as far as it is looked at. -/
inductive ErrorKind where
  | connectionRefused
  | notFound
  | other
deriving DecidableEq, Repr

structure IoError where
  kind : ErrorKind
  text : String
deriving DecidableEq, Repr

def wouldBenefitFromSpawn (e : IoError) : Bool :=
  match e.kind with
  | .connectionRefused | .notFound => true
  | .other => false

/-- `SPAWN_READY_TIMEOUT`, in seconds. -/
def spawnReadyTimeout : Nat := 5

/-- `SPAWN_POLL`. -/
def spawnPoll : Nat := 50

/-! ## Spawning -/

/-- What `spawn_detached_daemon` meets. -/
structure SpawnEnv where
  currentExe : Except String String
  /-- The environment variable `HWWCTL_LOG`. -/
  hwwctlLog : Option String
  spawn : Except String Unit

def SpawnEnv.logPath (env : SpawnEnv) : String := env.hwwctlLog.getD "/tmp/hwwctl.log"

structure Command where
  program : String
  args : List String
deriving DecidableEq, Repr

def spawnDetachedDaemon (socket : String) (env : SpawnEnv) : Except String Command :=
  match env.currentExe with
  | .error e => .error s!"locate current exe for daemon spawn: {e}"
  | .ok exe =>
    match env.spawn with
    | .error e => .error s!"failed to spawn daemon process: {e}"
    | .ok () => .ok ⟨exe, ["--socket", socket, "daemon", "--log-file", env.logPath]⟩

/-! ## Waiting -/

def notListening (socket logPath : String) (timeout : Nat) (lastErr : Option IoError) : String :=
  let detail := match lastErr with
    | some e => s!" (last error: {e.text})"
    | none => ""
  s!"daemon did not start listening at {socket} within {timeout}s{detail}. " ++
    s!"Check {logPath} for daemon-side errors."

/-- The loop of `wait_for_socket`. `none` while it is still waiting. -/
def waitLoop {δ : Type} (giveUp : Option IoError → String) (deadline : Nat) :
    Option IoError → List (Round (Except IoError δ)) → Option (Except String δ)
  | _, [] => none
  | lastErr, round :: rounds =>
    if round.clock < deadline then
      match round.world with
      | .ok stream => some (.ok stream)
      | .error e => waitLoop giveUp deadline (some e) rounds
    else some (.error (giveUp lastErr))

def waitForSocket {δ : Type} (socket logPath : String) (timeout began : Nat)
    (rounds : List (Round (Except IoError δ))) : Option (Except String δ) :=
  waitLoop (notListening socket logPath timeout) (began + 1000 * timeout) none rounds

/-! ## The whole call -/

/-- What `connect_or_spawn` meets. -/
structure Env (δ : Type) where
  first : Except IoError δ
  socketExists : Bool
  spawn : SpawnEnv
  /-- When `wait_for_socket` begins. -/
  began : Nat
  rounds : List (Round (Except IoError δ))

structure Attempt (δ : Type) where
  /-- It has tried to remove the socket file. -/
  unlinked : Bool
  spawned : Option Command
  /-- `none` while it is waiting. -/
  result : Option (Except String δ)

def connectOrSpawn {δ : Type} (socket : String) (env : Env δ) : Attempt δ :=
  match env.first with
  | .ok stream => ⟨false, none, some (.ok stream)⟩
  | .error e =>
    if wouldBenefitFromSpawn e then
      match spawnDetachedDaemon socket env.spawn with
      | .error e => ⟨env.socketExists, none,
          some (.error s!"auto-spawn of daemon for socket {socket} failed: {e}")⟩
      | .ok command => ⟨env.socketExists, some command,
          waitForSocket socket env.spawn.logPath spawnReadyTimeout env.began env.rounds⟩
    else ⟨false, none, some (.error s!"connect to {socket} failed: {e.text}")⟩

/-! ## At the path that it shares with others -/

/-- What a connect meets at the path. -/
def connectAt (path : Path) : Except IoError Nat :=
  match path.listener, path.file with
  | some d, _ => .ok d
  | none, some _ => .error ⟨.connectionRefused, "Connection refused (os error 111)"⟩
  | none, none => .error ⟨.notFound, "No such file or directory (os error 2)"⟩

/-- A round of the wait: what the others do before the connect, and the clock. -/
structure Turn where
  others : List Act
  asked : Nat
  clock : Nat

/-- The steps of the others and of client `i` in its turns. -/
def schedule (i : Nat) (turns : List Turn) : List Act :=
  turns.flatMap fun turn => turn.others ++ [.poll i]

/-- The path as client `i` finds it at its connects, and as it leaves it. -/
def visits (i : Nat) (path : Path) : List Turn → Option (List (Round Path) × Path)
  | [] => some ([], path)
  | turn :: turns => do
    let found ← run Path.step path turn.others
    let left ← found.step (.poll i)
    let (rounds, last) ← visits i left turns
    return (⟨found, turn.asked, turn.clock⟩ :: rounds, last)

/-- What the connects meet. -/
def connects (rounds : List (Round Path)) : List (Round (Except IoError Nat)) :=
  rounds.map fun round => { round with world := connectAt round.world }

end Hwwctl.AutoSpawn
