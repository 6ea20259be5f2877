import Hwwctl.Bridge.Tcp
import Hwwctl.Daemon.Instance
import Hwwctl.Library.Ring

/-!
# The drain of a bridge's messages

`startBitbox02` gives the receiver of the bridge's messages to a task of its own, which counts them
and keeps the newest for `Logs`. The number of bytes of a message is read off its hexadecimal text.
-/

namespace Hwwctl.Daemon

open Control Bridge

/-- `LOG_BUFFER_CAP`. -/
def logBufferCap : Nat := 500

/-- `msg.raw_hex.split_whitespace().count()`; a count fits `u64`. -/
def byteCount (msg : InterceptedMessage) : Nat := (splitWhitespace msg.rawHex).length

/-- `fetch_add` wraps around. -/
def BridgeStatsCounters.add (c : BridgeStatsCounters) (msg : InterceptedMessage) :
    BridgeStatsCounters :=
  match msg.direction with
  | .hostToDevice => { c with
      hostToDeviceReports := c.hostToDeviceReports + 1
      hostToDeviceBytes := c.hostToDeviceBytes + .ofNat (byteCount msg) }
  | .deviceToHost => { c with
      deviceToHostReports := c.deviceToHostReports + 1
      deviceToHostBytes := c.deviceToHostBytes + .ofNat (byteCount msg) }

/-- What the drain task shares with its instance. -/
structure LogDrain where
  bridgeLog : List BridgeLog
  bridgeStats : BridgeStatsCounters
deriving DecidableEq, Repr

namespace LogDrain

def new : LogDrain := ⟨[], ⟨0, 0, 0, 0⟩⟩

/-- One turn of the task; `now` is `Instant::now()` at the entry's making. -/
def take (d : LogDrain) (now : Nat) (msg : InterceptedMessage) : LogDrain where
  bridgeLog := Ring.push logBufferCap d.bridgeLog
    { takenAt := now, direction := msg.direction, rawHex := msg.rawHex }
  bridgeStats := d.bridgeStats.add msg

end LogDrain

/-! ## A relay and its drain -/

/-- A bridge over TCP with the task that drains its messages. -/
structure TappedRelay where
  relay : TcpRelay
  /-- How many of the relay's messages the task has taken. -/
  drained : Nat
  log : LogDrain
deriving DecidableEq, Repr

inductive TapAct where
  | relay (a : TcpAct)
  /-- `Instance::stop` stops the bridge. -/
  | stop
  /-- The task takes the next message, at the instant `now`. -/
  | drain (now : Nat)

namespace TappedRelay

def start : TappedRelay := ⟨.connected, 0, .new⟩

def step (reportSize : Nat) (s : TappedRelay) : TapAct → Option TappedRelay
  | .relay a => (s.relay.step reportSize a).map fun relay => { s with relay := relay }
  | .stop => some { s with relay := s.relay.stop }
  | .drain now =>
    (s.relay.intercepted[s.drained]?).map fun msg =>
      { s with drained := s.drained + 1, log := s.log.take now msg }

end TappedRelay

end Hwwctl.Daemon
