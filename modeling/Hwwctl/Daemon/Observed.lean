import Hwwctl.Daemon.Run
import Hwwctl.Library.Linearizable

/-!
# What the clients see of the daemon

A connection carries one request and one response, so the number of its task names the operation.
Taken one at a time, a request is served by the registry alone; nothing is left of the queue, the
reply channels and the tasks.
-/

namespace Hwwctl.Daemon

open Control Linearizable

/-- The daemon as an object that serves one request at a time. -/
inductive Serves (info : PongInfo) : Request → RegistryState → Response → RegistryState → Prop where
  | ping {req : Request} {s : RegistryState} (h : toCommand req = none) :
    Serves info req s (.pong info) s
  | command {req : Request} {cmd : Command} {s : RegistryState} (h : toCommand req = some cmd)
    (env : CommandEnv) :
    Serves info req s (respond (serve env cmd s).1) (serve env cmd s).2

/-- The calls and returns of a step. The signal task asks for a shutdown and returns nothing to
anybody; a response that cannot be written reaches nobody. -/
def shown (d : DaemonState) : Act → List (Linearizable.Event Request Response)
  | .request i req => [.call i req]
  | .signal i => [.call i .shutdown]
  | .write i =>
    match d.tasks[i]? with
    | some ⟨_, .writing _ response⟩ => [.ret i response]
    | _ => []
  | _ => []

/-- The calls and returns of a schedule, in the order of time. -/
abbrev DaemonState.observed (d : DaemonState) (acts : List Act) :
    List (Linearizable.Event Request Response) :=
  Linearizable.history DaemonState.step shown d acts

end Hwwctl.Daemon
