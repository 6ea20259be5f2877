import Hwwctl.Daemon.Connection

/-!
# The client

One connection, one request, one response, and an exit code. The connection is there or it is not;
what the client writes and reads on it is what the daemon reads and writes.
-/

namespace Hwwctl.Client

open Control Daemon ByteStream

/-- A subcommand with its arguments, as `clap` has parsed them. -/
inductive Cmd where
  | daemon (logFile : Option String)
  | ping
  | start (wallet : Wallet) (noWait : Bool) (timeout : Option Nat) (mnemonic : Option String)
  | stop (inst : String)
  | status (inst : Option String)
  | logs (inst : String) (tail : Option Nat) (source : String)
  | bridgeStats (inst : String)
  | shutdown

/-- `LogSource::from_str`. -/
def logSource (s : String) : Except String LogSource :=
  match s.toLower with
  | "emulator" | "emu" => .ok .emulator
  | "bridge" | "br" => .ok .bridge
  | "all" | "" => .ok .all
  | other => .error s!"unknown log source '{other}'"

def buildRequest : Cmd → Except String Request
  | .daemon _ => .error "`daemon` is not a client subcommand"
  | .ping => .ok .ping
  | .start wallet noWait timeout mnemonic => .ok (.start ⟨wallet, !noWait, timeout, mnemonic⟩)
  | .stop inst => .ok (.stop ⟨inst⟩)
  | .status inst => .ok (.status (inst.map InstanceId.mk))
  | .logs inst tail source => do
    let source ← logSource source
    return .logs ⟨⟨inst⟩, tail, source⟩
  | .bridgeStats inst => .ok (.bridgeStats ⟨inst⟩)
  | .shutdown => .ok .shutdown

/-- What `print_client_error` is called with. -/
inductive ClientError where
  | badArguments (message : String)
  | connect (message : String)
  | writeRequest (e : FrameError)
  /-- The daemon closed the connection before replying. -/
  | closed
  | readResponse (e : FrameError)

inductive Printed where
  | error (e : ClientError)
  | response (r : Response)

structure ClientEnd where
  code : Nat
  printed : Printed
  /-- What the client wrote on its connection. -/
  stream : Sink UInt8

def exitCode : Response → Nat
  | .error _ => 1
  | _ => 0

/-- `run`, on a connection that takes what is written to `w` and gives `r`. -/
def run (requests : Json Request) (responses : Json Response) (connect : Except String Unit)
    (r : List (Read UInt8)) (w : Sink UInt8) (cmd : Cmd) : ClientEnd :=
  match buildRequest cmd with
  | .error e => ⟨2, .error (.badArguments e), w⟩
  | .ok request =>
    match connect with
    | .error e => ⟨2, .error (.connect e), w⟩
    | .ok () =>
      match writeFrame requests w request with
      | (.error e, w) => ⟨2, .error (.writeRequest e), w⟩
      | (.ok (), w) =>
        match (readFrame responses r).1 with
        | .error e => ⟨2, .error (.readResponse e), w⟩
        | .ok none => ⟨2, .error .closed, w⟩
        | .ok (some response) => ⟨exitCode response, .response response, w⟩

/-- `print_response` with `--json`: the line on standard output, or a complaint on standard error. -/
def printJson (responses : Json Response) (r : Response) : Except String (List UInt8) :=
  responses.toVec r

end Hwwctl.Client
