import Hwwctl.Bridge.Generic
import Hwwctl.Bridge.Tcp
import Hwwctl.Bridge.Unix

/-!
# What one start of the bridge leaves running

Over TCP the start waits for the connection while the device thread is at work already; over the
Unix sockets it returns and the relay task connects later. `GenericBridge::stop` closes the shutdown
channels of a start and aborts the tasks whose handles were kept, which are those of the TCP relay.
-/

namespace Hwwctl.Bridge

inductive Relay where
  /-- `start` awaits the TCP connection. -/
  | connecting (thread : UhidThread)
  | tcp (relay : TcpRelay)
  | unix (kind : SocketKind) (relay : UnixRelay)
deriving DecidableEq, Repr

inductive RelayAct where
  | connecting (a : ThreadAct)
  | connects
  | connectFails
  | tcp (a : TcpAct)
  | unix (a : UnixAct)

namespace Relay

def start : BridgeTransport → Relay
  | .tcp _ _ => .connecting .spawn
  | .unix _ => .unix .stream .start
  | .unixDgram _ => .unix .dgram .start

def step (reportSize : Nat) : Relay → RelayAct → Option Relay
  | .connecting t, .connecting a => (t.step true a).map .connecting
  | .connecting t, .connects => some (.tcp { TcpRelay.connected with thread := t })
  -- the tasks are not spawned, and `start` drops the channels
  | .connecting t, .connectFails =>
    some (.tcp { TcpRelay.connected with thread := t, taskA := .ended, taskB := .ended })
  | .tcp s, .tcp a => (s.step reportSize a).map .tcp
  | .unix kind s, .unix a => (s.step kind reportSize a).map (.unix kind)
  | _, _ => none

def stop : Relay → Relay
  | .connecting t => .connecting t.close
  | .tcp s => .tcp s.stop
  | .unix kind s => .unix kind s.stop

def thread : Relay → UhidThread
  | .connecting t => t
  | .tcp s => s.thread
  | .unix _ s => s.thread

/-- `start` has not returned. -/
def starting : Relay → Bool
  | .connecting _ => true
  | _ => false

/-- What was written to the emulator, with the number of the connection. -/
def toEmulator : Relay → List (Nat × List UInt8)
  | .connecting _ => []
  | .tcp s => [(0, s.sent)]
  | .unix _ s => s.sent

def intercepted : Relay → List InterceptedMessage
  | .connecting _ => []
  | .tcp s => s.intercepted
  | .unix _ s => s.intercepted

def connectionOpen : Relay → Prop
  | .connecting _ => False
  | .tcp s => s.connectionOpen
  | .unix _ s => s.connectionOpen

end Relay

/-- The step stores `false` in the bridge's flag. -/
def RelayAct.clearsRunning : RelayAct → Bool
  | .tcp a => a.clearsRunning
  | .unix a => a.clearsRunning
  | _ => false

end Hwwctl.Bridge
