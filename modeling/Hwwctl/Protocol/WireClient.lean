import Hwwctl.Library.Action
import Hwwctl.Protocol.Fields
import Hwwctl.Protocol.Session

/-!
# The wire client

`TrezorWireClient`: requests on the main port, and the confirmation of the device's button requests
over the debug link. A call works on the client's own socket and may send on the debug link's; what
it does on the two is recorded in order.
-/

namespace Hwwctl.Protocol

open Machine

/-- What a call does on its sockets. -/
inductive Event where
  | received (d : Delivery)
  | sent (packet : Packet)
  /-- On the debug link's socket. -/
  | debugSent (packet : Packet)
  /-- The system refuses to send a packet. -/
  | refused
deriving DecidableEq, Repr

structure Sockets where
  /-- What the future `recv` calls of the client's socket deliver. -/
  incoming : List Delivery
  events : List Event
  /-- Whether the system refuses a send that comes behind so many events. -/
  refuses : Nat → Bool

/-- What a client does on its sockets: it may end with no message to show. -/
abbrev Wire (α : Type) := Act Fail Sockets α

namespace Wire

def fail {α : Type} (message : String) : Wire α := Act.fail (.err message)

def send (event : Packet → Event) (message : String) (packet : Packet) : Wire Unit := fun s =>
  if s.refuses s.events.length then
    (.error (.err message), { s with events := s.events ++ [.refused] })
  else (.ok (), { s with events := s.events ++ [event packet] })

/-- `for pkt in &packets`. -/
def sendAll (event : Packet → Event) (message : String) (packets : List Packet) : Wire Unit :=
  packets.forM (send event message)

/-- One message, received with `fut` until a deadline; a `fut` that still waits then is dropped, with
the packets it has read. -/
def recvWithin (timedOut : String)
    (fut : List Delivery → Except Fail RawMessage × List Delivery) : Wire RawMessage := fun s =>
  let (r, rest) := fut s.incoming
  let taken := s.incoming.take (s.incoming.length - rest.length)
  let s := { s with incoming := rest, events := s.events ++ taken.map .received }
  match r with
  | .error .pending => (.error (.err timedOut), s)
  | .error e => (.error e, s)
  | .ok m => (.ok m, s)

end Wire

/-! ## The debug link -/

def msgDebugLinkDecision : UInt16 := 100

inductive DebugButton where
  | no
  | yes
  | info
deriving DecidableEq, Repr

def DebugButton.code : DebugButton → UInt64
  | .no => 0
  | .yes => 1
  | .info => 2

/-- `TrezorDebugLink::press_button`. -/
def pressButton (button : DebugButton) : Wire Unit :=
  let payload := encodeFieldVarint 1 button.code
  Wire.sendAll .debugSent "Debug-link send failed" (frameMessage msgDebugLinkDecision payload)

/-! ## The wire client -/

def msgInitialize : UInt16 := 0

def msgPing : UInt16 := 1

def msgSuccess : UInt16 := 2

def msgFailure : UInt16 := 3

def msgGetPublicKey : UInt16 := 11

def msgPublicKey : UInt16 := 12

def msgLoadDevice : UInt16 := 13

def msgButtonRequest : UInt16 := 26

def msgButtonAck : UInt16 := 27

def msgGetFeatures : UInt16 := 55

/-- `recv_fut` of `send_and_recv`; the type of the response is only logged. -/
def recvFut : List Delivery → Except Fail RawMessage × List Delivery := wireReceiver.receive

/-- `fut` of one round of `recv_with_confirm`. -/
def roundFut : List Delivery → Except Fail RawMessage × List Delivery := wireReceiver.receive

section Client

variable (b : Build) (fuel : Nat)

/-- The error of a `Failure` response, given the iterations the parser may take. -/
def deviceFailure (data : List UInt8) : Wire (List UInt8) :=
  match extractFailureMessage b (asSlice data) fuel with
  | none => Act.fail .pending
  | some (.error p) => Act.fail (.panic p)
  | some (.ok msg) => Wire.fail s!"Device failure: {msg}"

/-- What `recv_with_confirm` makes of a response that is no button request. -/
def conclude (response : RawMessage) : Wire (List UInt8) :=
  if response.msgType = msgSuccess then return response.payload
  else if response.msgType = msgFailure then deviceFailure b fuel response.payload
  else return response.payload

/-- A button request is acknowledged, and confirmed over the debug link if there is one; what becomes
of the confirmation is not looked at. -/
def confirm (debugLink : Bool) : Wire Unit := do
  Wire.sendAll .sent "send failed" (frameMessage msgButtonAck [])
  if debugLink then Act.ignore (pressButton .yes)

/-- The rounds of `recv_with_confirm` that are left. -/
def recvRounds (debugLink : Bool) : Nat → Wire (List UInt8)
  | 0 => Wire.fail "Too many ButtonRequests without resolution"
  | rounds + 1 => do
    let response ← Wire.recvWithin "Wire response timed out" roundFut
    if response.msgType = msgButtonRequest then do
      confirm debugLink
      recvRounds debugLink rounds
    else conclude b fuel response

def recvWithConfirm (debugLink : Bool) : Wire (List UInt8) := recvRounds b fuel debugLink 10

def sendAndRecv (msgType : UInt16) (payload : List UInt8) : Wire (List UInt8) := do
  Wire.sendAll .sent "Wire send failed" (frameMessage msgType payload)
  let response ← Wire.recvWithin "Wire response timed out" recvFut
  return response.payload

/-- `TrezorWireClient::initialize`, a word that Lean keeps for itself. -/
def sendInitialize : Wire (List UInt8) := sendAndRecv msgInitialize []

def ping : Wire (List UInt8) := sendAndRecv msgPing []

def getFeatures : Wire (List UInt8) := sendAndRecv msgGetFeatures []

def getPublicKey (path : List UInt32) (debugLink : Bool) : Wire (List UInt8) := do
  let payload := path.flatMap (fun component => encodeFieldVarint 1 component.toUInt64) ++
    encodeFieldString 4 "Bitcoin"
  Wire.sendAll .sent "Wire send failed" (frameMessage msgGetPublicKey payload)
  recvWithConfirm b fuel debugLink

def loadDevice (mnemonic label : String) (debugLink : Bool) : Wire (List UInt8) := do
  let payload := encodeFieldString 1 mnemonic ++
    (if label = "" then [] else encodeFieldString 6 label)
  Wire.sendAll .sent "Wire send failed" (frameMessage msgLoadDevice payload)
  recvWithConfirm b fuel debugLink

end Client

end Hwwctl.Protocol
