import Hwwctl.Protocol.WireClient

/-!
# Requests, call after call

What `TrezorDebugLink` and `TrezorWireClient` can ask the device for. Of `get_layout` it is the
request that counts here; its response comes in on the debug link's own socket.
-/

namespace Hwwctl.Protocol

open Machine

/-! ## The debug link -/

def msgDebugLinkGetState : UInt16 := 101

inductive SwipeDirection where
  | up
  | down
  | left
  | right
deriving DecidableEq, Repr

def SwipeDirection.code : SwipeDirection → UInt64
  | .up => 0
  | .down => 1
  | .left => 2
  | .right => 3

/-- `TrezorDebugLink::send_message`. -/
def sendMessage (msgType : UInt16) (payload : List UInt8) : Wire Unit :=
  Wire.sendAll .debugSent "Debug-link send failed" (frameMessage msgType payload)

/-- `TrezorDebugLink::swipe`. -/
def swipe (direction : SwipeDirection) : Wire Unit :=
  let payload := encodeFieldVarint 2 direction.code
  sendMessage msgDebugLinkDecision payload

/-- `TrezorDebugLink::input_text`. -/
def inputText (text : String) : Wire Unit :=
  let payload := encodeFieldString 3 text
  sendMessage msgDebugLinkDecision payload

/-- The request of `TrezorDebugLink::get_layout`. -/
def requestLayout : Wire Unit :=
  let payload := encodeFieldVarint 3 0
  sendMessage msgDebugLinkGetState payload

/-! ## Sessions -/

/-- A call of one of the two clients. -/
inductive DeviceRequest where
  | sendInitialize
  | ping
  | getFeatures
  | getPublicKey (path : List UInt32) (debugLink : Bool)
  | loadDevice (mnemonic label : String) (debugLink : Bool)
  | getLayout
  | pressButton (button : DebugButton)
  | swipe (direction : SwipeDirection)
  | inputText (text : String)
deriving DecidableEq

/-- The sockets when the call has returned, with a result or an error. -/
def DeviceRequest.perform (b : Build) (fuel : Nat) (s : Sockets) : DeviceRequest → Sockets
  | .sendInitialize => (Protocol.sendInitialize s).2
  | .ping => (Protocol.ping s).2
  | .getFeatures => (Protocol.getFeatures s).2
  | .getPublicKey path debugLink => (Protocol.getPublicKey b fuel path debugLink s).2
  | .loadDevice mnemonic label debugLink =>
    (Protocol.loadDevice b fuel mnemonic label debugLink s).2
  | .getLayout => (requestLayout s).2
  | .pressButton button => (Protocol.pressButton button s).2
  | .swipe direction => (Protocol.swipe direction s).2
  | .inputText text => (Protocol.inputText text s).2

/-- Call after call, each with what reaches the client's socket before its deadlines. -/
def session (b : Build) (fuel : Nat) : List (DeviceRequest × List Delivery) → Sockets → Sockets
  | [], s => s
  | (request, arrivals) :: calls, s =>
    session b fuel calls (request.perform b fuel { s with incoming := s.incoming ++ arrivals })

end Hwwctl.Protocol
