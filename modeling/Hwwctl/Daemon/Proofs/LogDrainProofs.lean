import Hwwctl.Bridge.Proofs.TcpProofs
import Hwwctl.Control.Proofs.MnemonicProofs
import Hwwctl.Daemon.LogDrain
import Hwwctl.Emulators.Proofs.OutputProofs
import Hwwctl.Library.Hex
import Mathlib.Algebra.GroupWithZero.Nat

/-!
# What the drain keeps of its messages

The hexadecimal text of a message has one word for each byte, so the words give the number of bytes
and the bytes themselves back; the counters are sums over all messages, the log is their end.
-/

namespace Hwwctl.Daemon

open Transition Control Bridge Emulators

/-! ## The hexadecimal text -/

theorem toList_hexByte (b : UInt8) :
    (hexByte b).toList = [Nat.digitChar (b.toNat / 16), Nat.digitChar (b.toNat % 16)] := by
  simp [hexByte]

theorem isWhitespace_digitChar : ∀ d < 16, isWhitespace (Nat.digitChar d) = false := by decide

theorem words_rawHex (direction : Direction) (data : Report) (decoded : Option String) :
    splitWhitespace (InterceptedMessage.new direction data decoded).rawHex = data.map hexByte := by
  refine splitWhitespace_intercalate fun w hw => ?_
  obtain ⟨b, -, rfl⟩ := List.mem_map.1 hw
  have hb := b.toNat_lt
  rw [toList_hexByte]
  refine ⟨List.cons_ne_nil _ _, fun c hc => ?_⟩
  rcases List.mem_cons.1 hc with rfl | hc
  · exact isWhitespace_digitChar _ (by omega)
  · rw [List.mem_singleton.1 hc]
    exact isWhitespace_digitChar _ (by omega)

/-- The number of words is the number of bytes. -/
theorem byteCount_new (direction : Direction) (data : Report) (decoded : Option String) :
    byteCount (.new direction data decoded) = data.length := by
  rw [byteCount, words_rawHex, List.length_map]

/-- The bytes of the messages of one direction. -/
def bytesOf (direction : Direction) (msgs : List InterceptedMessage) : Nat :=
  ((messages direction msgs).map byteCount).sum

/-- The counters of these messages. -/
def statsOf (msgs : List InterceptedMessage) : BridgeStatsCounters where
  hostToDeviceReports := .ofNat (messages .hostToDevice msgs).length
  hostToDeviceBytes := .ofNat (bytesOf .hostToDevice msgs)
  deviceToHostReports := .ofNat (messages .deviceToHost msgs).length
  deviceToHostBytes := .ofNat (bytesOf .deviceToHost msgs)

theorem statsOf_concat (msgs : List InterceptedMessage) (msg : InterceptedMessage) :
    statsOf (msgs ++ [msg]) = (statsOf msgs).add msg := by
  obtain ⟨direction, rawHex, decoded⟩ := msg
  cases direction with
  | hostToDevice => simp [statsOf, bytesOf, messages, BridgeStatsCounters.add, UInt64.ofNat_add]
  | deviceToHost => simp [statsOf, bytesOf, messages, BridgeStatsCounters.add, UInt64.ofNat_add]

/-- A message that crossed the bridge, and the instant at which the drain took it. -/
structure Crossing where
  direction : Direction
  data : Report
  decoded : Option String
  drainedAt : Nat

namespace Crossing

def message (c : Crossing) : InterceptedMessage := .new c.direction c.data c.decoded

/-- The entry of the log for it. -/
def entry (c : Crossing) : BridgeLog where
  takenAt := c.drainedAt
  direction := c.direction
  rawHex := c.message.rawHex

/-- How many of these messages cross in a direction. -/
def count (direction : Direction) (cs : List Crossing) : Nat :=
  (cs.filter (·.direction = direction)).length

/-- How many bytes cross in a direction. -/
def bytes (direction : Direction) (cs : List Crossing) : Nat :=
  ((cs.filter (·.direction = direction)).map (·.data.length)).sum

end Crossing

/-- What the drain task has made of the messages it took. -/
def LogDrain.after (cs : List Crossing) : LogDrain :=
  cs.foldl (fun d c => d.take c.drainedAt c.message) .new

theorem LogDrain.after_concat (cs : List Crossing) (c : Crossing) :
    LogDrain.after (cs ++ [c]) = (LogDrain.after cs).take c.drainedAt c.message := by
  rw [after, List.foldl_append]
  rfl

end Hwwctl.Daemon
