import Hwwctl.Library.Transition

/-!
# Clients and daemons at one socket path

Clients run `connect_or_spawn`; the daemons they spawn remove a stale socket file, bind, serve, and
remove the file when they exit. Every check and every act at the path is a step of its own.
-/

namespace Hwwctl.SocketPath

/-- Where a client is in `connect_or_spawn`. -/
inductive ClientPhase where
  /-- About to connect. -/
  | connecting
  /-- Refused, or no such file; about to look whether the file exists. -/
  | checking
  /-- It exists; about to unlink it. -/
  | unlinking
  | spawning
  /-- In `wait_for_socket`. -/
  | polling
  | connected (d : Nat)
  | failed
deriving DecidableEq, Repr

/-- Where a daemon is in `run`. -/
inductive DaemonPhase where
  /-- About to look whether the socket file exists. -/
  | starting
  /-- It exists; about to remove it. -/
  | removing
  | binding
  /-- In `UnixListener::bind`, behind `bind` and before `listen`: the file is there, and a connect
  is refused. -/
  | bound
  /-- Accepting connections. -/
  | serving
  /-- Out of the accept loop, about to remove the socket file; the listener is still open. -/
  | leaving
  | done
deriving DecidableEq, Repr

/-- What stands at the path: a socket file, with the daemon that bound it unless it was there before
the first of them. -/
inductive Node where
  | stale
  | boundBy (d : Nat)
deriving DecidableEq, Repr

structure Path where
  file : Option Node
  clients : List ClientPhase
  daemons : List DaemonPhase
deriving DecidableEq, Repr

/-- The steps. A number names the client or the daemon that takes the step. -/
inductive Act where
  | newClient
  | connect (i : Nat)
  /-- An error that is neither `ConnectionRefused` nor `NotFound`. -/
  | connectFails (i : Nat)
  | check (i : Nat)
  /-- The result of the unlink is ignored. -/
  | unlink (i : Nat) (ok : Bool)
  | spawn (i : Nat)
  | spawnFails (i : Nat)
  | poll (i : Nat)
  | giveUp (i : Nat)
  | look (d : Nat)
  | remove (d : Nat)
  | removeFails (d : Nat)
  | bind (d : Nat)
  | bindFails (d : Nat)
  | listen (d : Nat)
  /-- The file stays. -/
  | listenFails (d : Nat)
  /-- A notification or a failing accept ends the loop. -/
  | leave (d : Nat)
  /-- The result of the removal is ignored. -/
  | cleanUp (d : Nat) (ok : Bool)
  | crash (d : Nat)
deriving DecidableEq, Repr

namespace Path

def init (stale : Bool) : Path where
  file := if stale then some .stale else none
  clients := []
  daemons := []

def setClient (s : Path) (i : Nat) (phase : ClientPhase) : Path :=
  { s with clients := s.clients.set i phase }

def setDaemon (s : Path) (d : Nat) (phase : DaemonPhase) : Path :=
  { s with daemons := s.daemons.set d phase }

/-- The daemon whose open listener a connect reaches. -/
def listener (s : Path) : Option Nat :=
  match s.file with
  | some (.boundBy d) =>
    if s.daemons[d]? = some .serving ∨ s.daemons[d]? = some .leaving then some d else none
  | _ => none

def step (s : Path) : Act → Option Path
  | .newClient => some { s with clients := s.clients ++ [.connecting] }
  | .connect i =>
    if s.clients[i]? = some .connecting then
      match s.listener with
      | some d => some (s.setClient i (.connected d))
      | none => some (s.setClient i .checking)
    else none
  | .connectFails i =>
    if s.clients[i]? = some .connecting then some (s.setClient i .failed) else none
  | .check i =>
    if s.clients[i]? = some .checking then
      some (s.setClient i (if s.file.isSome then .unlinking else .spawning))
    else none
  | .unlink i ok =>
    if s.clients[i]? = some .unlinking then
      some { s.setClient i .spawning with file := if ok then none else s.file }
    else none
  | .spawn i =>
    if s.clients[i]? = some .spawning then
      some { s.setClient i .polling with daemons := s.daemons ++ [.starting] }
    else none
  | .spawnFails i =>
    if s.clients[i]? = some .spawning then some (s.setClient i .failed) else none
  | .poll i =>
    if s.clients[i]? = some .polling then
      match s.listener with
      | some d => some (s.setClient i (.connected d))
      | none => some s
    else none
  | .giveUp i =>
    if s.clients[i]? = some .polling then some (s.setClient i .failed) else none
  | .look d =>
    if s.daemons[d]? = some .starting then
      some (s.setDaemon d (if s.file.isSome then .removing else .binding))
    else none
  | .remove d =>
    if s.daemons[d]? = some .removing then
      match s.file with
      | some _ => some { s.setDaemon d .binding with file := none }
      | none => some (s.setDaemon d .done)
    else none
  | .removeFails d =>
    if s.daemons[d]? = some .removing then some (s.setDaemon d .done) else none
  | .bind d =>
    if s.daemons[d]? = some .binding then
      match s.file with
      | none => some { s.setDaemon d .bound with file := some (.boundBy d) }
      | some _ => some (s.setDaemon d .done)
    else none
  | .bindFails d =>
    if s.daemons[d]? = some .binding then some (s.setDaemon d .done) else none
  | .listen d =>
    if s.daemons[d]? = some .bound then some (s.setDaemon d .serving) else none
  | .listenFails d =>
    if s.daemons[d]? = some .bound then some (s.setDaemon d .done) else none
  | .leave d =>
    if s.daemons[d]? = some .serving then some (s.setDaemon d .leaving) else none
  | .cleanUp d ok =>
    if s.daemons[d]? = some .leaving then
      some { s.setDaemon d .done with file := if ok then none else s.file }
    else none
  | .crash d =>
    if s.daemons[d]?.any (· ≠ .done) then some (s.setDaemon d .done) else none

end Path

end Hwwctl.SocketPath
