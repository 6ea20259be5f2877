import Hwwctl.Control.Framing
import Hwwctl.Daemon.Run

/-!
# One connection

`handle_connection` from the bytes a client sends to the bytes it gets. What the registry answers is
a parameter; a reply channel is typed, so the answer is of its command's kind.
-/

namespace Hwwctl.Daemon

open Control ByteStream

/-- The reply is of the command's kind. -/
def Reply.Answers : Reply → Command → Prop
  | .start _, .start _ | .stop _, .stop _ | .status _, .status _ | .logs _, .logs _
  | .bridgeStats _, .bridgeStats _ | .shutdown, .shutdown => True
  | _, _ => False

/-- What the registry answers to each command. -/
def RegistryAnswers := (cmd : Command) → { reply : Reply // reply.Answers cmd }

def dispatch (info : PongInfo) (registry : RegistryAnswers) (request : Request) : Response :=
  match toCommand request with
  | none => .pong info
  | some cmd => respond (registry cmd).1

/-- How the handling of a connection ended. -/
structure ConnectionEnd where
  result : Except FrameError Unit
  stream : Sink UInt8
  /-- `notify_waiters` was called. -/
  notified : Bool

/-- A client that closed without a frame is no error. A frame that cannot be read, or a response
that cannot be written, ends the task with a warning in the log. -/
def handleConnection (requests : Json Request) (responses : Json Response) (info : PongInfo)
    (registry : RegistryAnswers) (r : List (Read UInt8)) (w : Sink UInt8) :
    ConnectionEnd :=
  match readFrame requests r with
  | (.error e, _) => ⟨.error e, w, false⟩
  | (.ok none, _) => ⟨.ok (), w, false⟩
  | (.ok (some request), _) =>
    let isShutdown := request = .shutdown
    let response := dispatch info registry request
    match writeFrame responses w response with
    | (.error e, w) => ⟨.error e, w, false⟩
    | (.ok (), w) => ⟨.ok (), w, isShutdown⟩

/-- The reply to a payload: a frame that holds a response the client can read, and a `BadRequest`
if the payload was no request. -/
structure AnsweredBy (requests : Json Request) (responses : Json Response)
    (payload reply : List UInt8) : Prop where
  length_le : reply.length ≤ maxFrameBytes
  badRequest : ∀ e, requests.fromSlice payload = .error e →
    ∃ message, responses.toVec (.error ⟨.badRequest, message⟩) = .ok reply
  decodes : ∃ response, responses.toVec response = .ok reply ∧
    ∀ r, Delivers r (frame reply) → (readFrame responses r).1 = .ok (some response)

/-- Each payload got one reply, in order, and nothing else was written. -/
def RepliesToEach (requests : Json Request) (responses : Json Response)
    (payloads : List (List UInt8)) (w w' : Sink UInt8) : Prop :=
  ∃ replies : List (List UInt8), List.Forall₂ (AnsweredBy requests responses) payloads replies ∧
    w'.written = w.written ++ (replies.map frame).flatten

end Hwwctl.Daemon
