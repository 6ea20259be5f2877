import Hwwctl.Library.Transition
import Hwwctl.Protocol.Framing
import Hwwctl.Protocol.Scan

/-!
# Calls on one socket

`TrezorDebugLink` and `TrezorWireClient` send a request and wait for a message until a deadline. The
emulator answers every request once, in order, after any delay; what is not read when a call gives
up stays on the socket or arrives later.
-/

namespace Hwwctl.Protocol

open Machine

/-- The loop of `TrezorDebugLink::recv_message`. -/
def debugReceiver : Receiver where
  recvFailed := "Debug-link recv failed"
  continuationFailed := "Debug-link recv continuation failed"
  invalidFirst n := s!"Debug-link: invalid first packet (n={n})"
  checksContinuations := true

/-- The loop of `TrezorWireClient::send_and_recv`: every packet counts as a continuation. -/
def wireReceiver : Receiver where
  recvFailed := "recv failed"
  continuationFailed := "recv failed"
  invalidFirst _ := "Invalid wire response"
  checksContinuations := false

/-! ## The two clients -/

/-- How a client receives a message and what it makes of it. -/
structure Client (β : Type) where
  recv : List Delivery → Except Fail RawMessage × List Delivery
  timedOut : String
  result : RawMessage → Except Fail β

def msgDebugLinkState : UInt16 := 102

/-- A `Vec` as a slice: it is never longer than the bound. -/
def asSlice {α : Type} (l : List α) : Slice α :=
  ⟨l.take isizeMax, by rw [List.length_take]; exact Nat.min_le_left _ _⟩

/-- What `get_layout` does with the response, given the iterations the parser may take. -/
def layoutResult (b : Build) (fuel : Nat) (response : RawMessage) : Except Fail (List String) :=
  if response.msgType ≠ msgDebugLinkState then
    .error (.err s!"Expected DebugLinkState (102), got {response.msgType}")
  else
    match parseTokensField b (asSlice response.payload) fuel with
    | none => .error .pending
    | some (.error p) => .error (.panic p)
    | some (.ok tokens) => .ok tokens

/-- `TrezorDebugLink::get_layout`. -/
def debugLink (b : Build) (fuel : Nat) : Client (List String) where
  recv := recvMessage
  timedOut := "Debug-link receive timed out"
  result := layoutResult b fuel

/-- `initialize`, `ping` and `get_features` of `TrezorWireClient`. -/
def wireClient : Client (List UInt8) where
  recv := wireReceiver.receive
  timedOut := "Wire response timed out"
  result response := .ok response.payload

/-! ## Calls -/

/-- One call: the emulator's response to its request, and how many packets reach the socket before
its deadline. -/
structure Call where
  response : RawMessage
  fits : response.payload.length < 2 ^ 32
  arrivals : Nat

/-- A client's socket. -/
structure Link where
  /-- What arrived and was not read. -/
  buffered : List Delivery
  /-- What the emulator sends in answer to the requests so far and has not arrived. -/
  coming : List Delivery

namespace Link

def fresh : Link := ⟨[], []⟩

def send (l : Link) (response : RawMessage) : Link :=
  { l with coming := l.coming ++ wire response }

def arrive (l : Link) (n : Nat) : Link := ⟨l.buffered ++ l.coming.take n, l.coming.drop n⟩

/-- What is still to be read of the responses so far. -/
def outstanding (l : Link) : List Delivery := l.buffered ++ l.coming

end Link

/-- A receive that is still waiting at the deadline is dropped, with the packets it has read. -/
def Client.call {β : Type} (c : Client β) (l : Link) (call : Call) : Except Fail β × Link :=
  let l := (l.send call.response).arrive call.arrivals
  match c.recv l.buffered with
  | (.error .pending, buffered) => (.error (.err c.timedOut), { l with buffered := buffered })
  | (.error e, buffered) => (.error e, { l with buffered := buffered })
  | (.ok response, buffered) => (c.result response, { l with buffered := buffered })

def Client.step {β : Type} (c : Client β) (l : Link) (call : Call) : Option Link :=
  some (c.call l call).2

/-- A call that succeeds gives what its own response says. -/
def Client.Own {β : Type} (c : Client β) (l : Link) (call : Call) : Prop :=
  ∀ r, (c.call l call).1 = .ok r → c.result call.response = .ok r

/-- The call receives no packet of an earlier response. -/
def Undisturbed (l : Link) (call : Call) : Prop :=
  l.outstanding = [] ∨ ((l.send call.response).arrive call.arrivals).buffered = []

end Hwwctl.Protocol
