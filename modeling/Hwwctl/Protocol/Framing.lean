import Hwwctl.Library.Machine

/-!
# Trezor wire framing

The 64-byte packet format of `crates/protocol/src/trezor_debug.rs`. A message travels as a first
packet `3F 23 23`, `u16` type, `u32` length and up to 55 payload bytes, followed by continuation
packets `3F` with up to 63 payload bytes each; every packet is padded with zeros.

A connected UDP socket is the list of what its future `recv` calls deliver. Where that list ends,
a further `recv` is still waiting.
-/

namespace Hwwctl.Protocol

open Machine

/-- `struct RawMessage`. -/
structure RawMessage where
  msgType : UInt16
  payload : List UInt8
deriving DecidableEq, Repr

/-- One UDP packet, `[u8; 64]`. -/
abbrev Packet := Buf 64

/-! ## Sending -/

/-- The first packet of `frame_message`. -/
def firstPacket (msgType : UInt16) (payload : List UInt8) : Packet :=
  let first := Buf.zero 64
  let first := first.copyAt 0 [0x3F, 0x23, 0x23] (by decide)
  let first := first.copyAt 3 (be16 msgType) (by simp)
  let first := first.copyAt 5 (be32 (UInt32.ofNat payload.length)) (by simp)
  first.copyAt 9 (payload.take (min payload.length 55)) (by rw [List.length_take]; omega)

/-- The continuation packet of `frame_message` that starts at `offset`. -/
def contPacket (payload : List UInt8) (offset : Nat) : Packet :=
  let cont := Buf.zero 64
  let cont := cont.copyAt 0 [0x3F] (by decide)
  let chunkLen := min (payload.length - offset) 63
  cont.copyAt 1 ((payload.drop offset).take chunkLen) (by rw [List.length_take]; omega)

/-- The `while offset < payload.len()` loop of `frame_message`. -/
def contPackets (payload : List UInt8) (offset : Nat) : List Packet :=
  if offset < payload.length then
    contPacket payload offset :: contPackets payload (offset + min (payload.length - offset) 63)
  else []
termination_by payload.length - offset

/-- `frame_message`. -/
def frameMessage (msgType : UInt16) (payload : List UInt8) : List Packet :=
  firstPacket msgType payload :: contPackets payload (min payload.length 55)

/-! ## Receiving -/

/-- What one `recv` on the socket comes back with. -/
inductive Delivery where
  /-- A datagram, longer than the buffer or not. -/
  | datagram (bytes : List UInt8)
  /-- An I/O error. -/
  | failed
deriving DecidableEq, Repr

/-- Why a receiving call has no message to show. -/
inductive Fail where
  /-- It returned `Err`. -/
  | err (message : String)
  | panic (reason : Panic)
  /-- It is still waiting for a datagram. -/
  | pending
deriving DecidableEq, Repr

/-- `recv(&mut buf)` of a datagram: what does not fit is cut off, and what the datagram does not
cover keeps its old content. -/
def recvInto (buf : Packet) (datagram : List UInt8) : Nat × Packet :=
  (min datagram.length 64,
    buf.copyAt 0 (datagram.take 64) (by rw [List.length_take]; omega))

/-- The continuation loop of `TrezorDebugLink::recv_message`. -/
def recvContinuations (payloadLen : Nat) :
    List Delivery → Packet → List UInt8 → Except Fail (List UInt8) × List Delivery
  | [], _, payload =>
    if payload.length < payloadLen then (.error .pending, []) else (.ok payload, [])
  | .failed :: socket, _, payload =>
    if payload.length < payloadLen then
      (.error (.err "Debug-link recv continuation failed"), socket)
    else (.ok payload, .failed :: socket)
  | .datagram d :: socket, buf, payload =>
    if payload.length < payloadLen then
      let (n, buf) := recvInto buf d
      if n < 1 ∨ buf.get 0 ≠ 0x3F then
        (.error (.err "Debug-link: invalid continuation packet"), socket)
      else match slice buf.bytes 1 (min n 64) with
        | .error p => (.error (.panic p), socket)
        | .ok chunk => recvContinuations payloadLen socket buf (payload ++ chunk)
    else (.ok payload, .datagram d :: socket)

/-- `TrezorDebugLink::recv_message`, with what is left of the socket. -/
def recvMessage : List Delivery → Except Fail RawMessage × List Delivery
  | [] => (.error .pending, [])
  | .failed :: socket => (.error (.err "Debug-link recv failed"), socket)
  | .datagram d :: socket =>
    let (n, buf) := recvInto (Buf.zero 64) d
    if n < 9 ∨ buf.get 0 ≠ 0x3F ∨ buf.get 1 ≠ 0x23 ∨ buf.get 2 ≠ 0x23 then
      (.error (.err s!"Debug-link: invalid first packet (n={n})"), socket)
    else
      let msgType := ofBe16 (buf.get 3) (buf.get 4)
      let payloadLen := (ofBe32 (buf.get 5) (buf.get 6) (buf.get 7) (buf.get 8)).toNat
      match slice buf.bytes 9 (min n 64) with
      | .error p => (.error (.panic p), socket)
      | .ok firstChunk =>
        match recvContinuations payloadLen socket buf firstChunk with
        | (.error e, socket) => (.error e, socket)
        | (.ok payload, socket) => (.ok ⟨msgType, payload.take payloadLen⟩, socket)

/-! ## Receiving with and without a look at the continuations -/

/-- What a receiving loop says when it fails, and whether it looks at the first byte of a
continuation packet. -/
structure Receiver where
  recvFailed : String
  continuationFailed : String
  invalidFirst : Nat → String
  checksContinuations : Bool

namespace Receiver

/-- What a first packet brings: the buffer as it is then, the header and the start of the payload. -/
structure Opening where
  buf : Packet
  msgType : UInt16
  payloadLen : Nat
  chunk : List UInt8

def opening (c : Receiver) (d : List UInt8) : Except Fail Opening :=
  let (n, buf) := recvInto (Buf.zero 64) d
  if n < 9 ∨ buf.get 0 ≠ 0x3F ∨ buf.get 1 ≠ 0x23 ∨ buf.get 2 ≠ 0x23 then
    .error (.err (c.invalidFirst n))
  else
    let msgType := ofBe16 (buf.get 3) (buf.get 4)
    let payloadLen := (ofBe32 (buf.get 5) (buf.get 6) (buf.get 7) (buf.get 8)).toNat
    match slice buf.bytes 9 (min n 64) with
    | .error p => .error (.panic p)
    | .ok chunk => .ok ⟨buf, msgType, payloadLen, chunk⟩

/-- What one continuation packet brings: the buffer as it is then, and a chunk of the payload. -/
def continuation (c : Receiver) (buf : Packet) (d : List UInt8) :
    Except Fail (Packet × List UInt8) :=
  let (n, buf) := recvInto buf d
  if c.checksContinuations ∧ (n < 1 ∨ buf.get 0 ≠ 0x3F) then
    .error (.err "Debug-link: invalid continuation packet")
  else match slice buf.bytes 1 (min n 64) with
    | .error p => .error (.panic p)
    | .ok chunk => .ok (buf, chunk)

/-- The continuation loop. -/
def continuations (c : Receiver) (payloadLen : Nat) :
    List Delivery → Packet → List UInt8 → Except Fail (List UInt8) × List Delivery
  | [], _, data => if data.length < payloadLen then (.error .pending, []) else (.ok data, [])
  | .failed :: socket, _, data =>
    if data.length < payloadLen then (.error (.err c.continuationFailed), socket)
    else (.ok data, .failed :: socket)
  | .datagram d :: socket, buf, data =>
    if data.length < payloadLen then
      match c.continuation buf d with
      | .error e => (.error e, socket)
      | .ok (buf, chunk) => c.continuations payloadLen socket buf (data ++ chunk)
    else (.ok data, .datagram d :: socket)

/-- One message, with what is left of the socket. -/
def receive (c : Receiver) : List Delivery → Except Fail RawMessage × List Delivery
  | [] => (.error .pending, [])
  | .failed :: socket => (.error (.err c.recvFailed), socket)
  | .datagram d :: socket =>
    match c.opening d with
    | .error e => (.error e, socket)
    | .ok first =>
      match c.continuations first.payloadLen socket first.buf first.chunk with
      | (.error e, socket) => (.error e, socket)
      | (.ok data, socket) => (.ok ⟨first.msgType, data.take first.payloadLen⟩, socket)

end Receiver

/-! ## Conversations -/

/-- The packets of one message, delivered one per `recv`. -/
def wire (m : RawMessage) : List Delivery :=
  (frameMessage m.msgType m.payload).map fun p => .datagram p.bytes

/-- What `k` successive calls of `recv_message` come back with, each with the number of packets it
took from the socket, and what is left of the socket. -/
def recvConversation : Nat → List Delivery → List (Except Fail RawMessage × Nat) × List Delivery
  | 0, socket => ([], socket)
  | k + 1, socket =>
    let (m, socket') := recvMessage socket
    let (ms, socket'') := recvConversation k socket'
    ((m, socket.length - socket'.length) :: ms, socket'')

/-- The number of packets a payload of `len` bytes takes. -/
def packetCount (len : Nat) : Nat := 1 + (len - 55 + 62) / 63

end Hwwctl.Protocol
