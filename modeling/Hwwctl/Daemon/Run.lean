import Hwwctl.Daemon.Registry
import Hwwctl.Library.Transition

/-!
# The daemon at work

The accept loop, the tasks it spawns, the task that waits for a termination signal, and the registry
run side by side; one step of any of them is one step of the daemon. `Notify` is as tokio documents
it: `notify_waiters` reaches the `Notified` that exists at that moment and leaves nothing for a
later one, so between two rounds of the `select!` nobody is listening.
-/

namespace Hwwctl.Daemon

open Control Emulators Bridge Runtime

/-- Where the accept loop is. -/
inductive LoopPhase where
  /-- Before the first round, or in the accept branch: no `Notified` exists. -/
  | between
  /-- In the `select!`. -/
  | selecting (notified : Bool)
  /-- Out of the loop, removing the socket file. -/
  | leaving
  | returned
deriving DecidableEq, Repr

/-- The signal task, or the task of a connection. -/
inductive Origin where
  | signal
  | client
deriving DecidableEq, Repr

/-- Where a task is. -/
inductive Phase where
  /-- Waits for the request frame or for the signal. -/
  | reading
  /-- Waits for room in the registry's queue. -/
  | sending (cmd : Command)
  /-- Waits for the registry's reply. -/
  | awaiting (cmd : Command)
  | writing (isShutdown : Bool) (response : Response)
  /-- About to call `notify_waiters`. -/
  | notifying
  | done (isShutdown : Bool)

structure Task where
  origin : Origin
  phase : Phase

structure DaemonState where
  loop : LoopPhase
  tasks : List Task
  /-- The registry's queue, the oldest command first, each with the task that awaits the reply. -/
  queue : List (Nat × Command)
  /-- The command the registry is serving. -/
  current : Option (Nat × Command)
  registry : RegistryState
  info : PongInfo

def queueCapacity : Nat := 64

/-- What `dispatch` sends to the registry; a `Ping` it answers itself. -/
def toCommand : Request → Option Command
  | .ping => none
  | .start req => some (.start req)
  | .stop id => some (.stop id)
  | .status id => some (.status id)
  | .logs req => some (.logs req)
  | .bridgeStats id => some (.bridgeStats id)
  | .shutdown => some .shutdown

/-- What `dispatch` makes of the registry's reply. -/
def respond : Reply → Response
  | .start (.ok summary) => .started summary
  | .start (.error e) => .error e
  | .stop (.ok ()) => .stopped
  | .stop (.error e) => .error e
  | .status (.ok list) => .status list
  | .status (.error e) => .error e
  | .logs (.ok entries) => .logs entries
  | .logs (.error e) => .error e
  | .bridgeStats (.ok snap) => .bridgeStats snap
  | .bridgeStats (.error e) => .error e
  | .shutdown => .shuttingDown

/-- The steps. A number names the task that takes the step. -/
inductive Act where
  /-- A new round of the `select!` creates its `Notified`. -/
  | select
  /-- The notification branch: `break`. -/
  | notified
  /-- The accept branch with a connection, whose task is spawned. -/
  | accept
  /-- The accept branch with an error: `break`. -/
  | acceptFails
  /-- The socket file is removed and `run` returns; `main` exits the process. -/
  | returns
  | request (i : Nat) (req : Request)
  /-- The client closed, or its frame cannot be read. -/
  | hangUp (i : Nat)
  | signal (i : Nat)
  | send (i : Nat)
  /-- The registry takes a command from the queue. -/
  | take
  /-- The registry is done with it and replies. -/
  | finish (env : CommandEnv)
  | write (i : Nat)
  | writeFails (i : Nat)
  | notify (i : Nat)

/-- `notify_waiters`. -/
def notifyWaiters : LoopPhase → LoopPhase
  | .selecting _ => .selecting true
  | loop => loop

/-- What a task does next when the registry has replied to it. -/
def afterReply (origin : Origin) (cmd : Command) (reply : Reply) : Phase :=
  match origin with
  | .signal => .notifying
  | .client => .writing (cmd = .shutdown) (respond reply)

namespace DaemonState

def setPhase (d : DaemonState) (i : Nat) (phase : Phase) : DaemonState :=
  { d with tasks := d.tasks.modify i ({ · with phase := phase }) }

def init (info : PongInfo) : DaemonState where
  loop := .between
  tasks := [⟨.signal, .reading⟩]
  queue := []
  current := none
  registry := .init
  info := info

/-- The steps of a daemon whose `run` has not returned. -/
def stepRunning (d : DaemonState) : Act → Option DaemonState
  | .select =>
    match d.loop with
    | .between => some { d with loop := .selecting false }
    | _ => none
  | .notified =>
    match d.loop with
    | .selecting true => some { d with loop := .leaving }
    | _ => none
  | .accept =>
    match d.loop with
    | .selecting _ => some { d with loop := .between, tasks := d.tasks ++ [⟨.client, .reading⟩] }
    | _ => none
  | .acceptFails =>
    match d.loop with
    | .selecting _ => some { d with loop := .leaving }
    | _ => none
  | .returns =>
    match d.loop with
    | .leaving => some { d with loop := .returned }
    | _ => none
  | .request i req =>
    match d.tasks[i]? with
    | some ⟨.client, .reading⟩ =>
      match toCommand req with
      | some cmd => some (d.setPhase i (.sending cmd))
      | none => some (d.setPhase i (.writing false (.pong d.info)))
    | _ => none
  | .hangUp i =>
    match d.tasks[i]? with
    | some ⟨.client, .reading⟩ => some (d.setPhase i (.done false))
    | _ => none
  | .signal i =>
    match d.tasks[i]? with
    | some ⟨.signal, .reading⟩ => some (d.setPhase i (.sending .shutdown))
    | _ => none
  | .send i =>
    match d.tasks[i]? with
    | some ⟨_, .sending cmd⟩ =>
      if d.queue.length < queueCapacity then
        some { d.setPhase i (.awaiting cmd) with queue := d.queue ++ [(i, cmd)] }
      else none
    | _ => none
  | .take =>
    match d.current, d.queue with
    | none, c :: queue => some { d with current := some c, queue := queue }
    | _, _ => none
  | .finish env =>
    match d.current with
    | some (i, cmd) =>
      let (reply, registry) := serve env cmd d.registry
      let d' := { d with current := none, registry := registry }
      match d.tasks[i]? with
      | some ⟨origin, .awaiting asked⟩ => some (d'.setPhase i (afterReply origin asked reply))
      | _ => some d'
    | none => none
  | .write i =>
    match d.tasks[i]? with
    | some ⟨_, .writing isShutdown _⟩ =>
      some (d.setPhase i (if isShutdown then .notifying else .done false))
    | _ => none
  | .writeFails i =>
    match d.tasks[i]? with
    | some ⟨_, .writing isShutdown _⟩ => some (d.setPhase i (.done isShutdown))
    | _ => none
  | .notify i =>
    match d.tasks[i]? with
    | some ⟨_, .notifying⟩ =>
      some { d.setPhase i (.done true) with loop := notifyWaiters d.loop }
    | _ => none

def step (d : DaemonState) (a : Act) : Option DaemonState :=
  if d.loop = .returned then none else d.stepRunning a

end DaemonState

end Hwwctl.Daemon
