import Hwwctl.Library.Hex
import Hwwctl.Protocol.Framing

/-!
# Decoding packet headers

`decode_packet` and `is_continuation` of `crates/protocol/src/trezor.rs`. Neither knows what packets
came before, so both tell a first packet from a continuation by its first bytes.
-/

namespace Hwwctl.Protocol

open Machine

def messageTypeName : Nat → String
  | 0 => "Initialize"
  | 1 => "Ping"
  | 2 => "Success"
  | 3 => "Failure"
  | 4 => "ChangePin"
  | 5 => "WipeDevice"
  | 9 => "GetEntropy"
  | 10 => "Entropy"
  | 16 => "LoadDevice"
  | 17 => "ResetDevice"
  | 18 => "Features"
  | 19 => "GetFeatures"
  | 20 => "ButtonRequest"
  | 21 => "ButtonAck"
  | 22 => "SetBusy"
  | 23 => "ApplySettings"
  | 24 => "ApplyFlags"
  | 26 => "BackupDevice"
  | 27 => "EntropyRequest"
  | 28 => "EntropyAck"
  | 29 => "RecoveryDevice"
  | 30 => "WordRequest"
  | 31 => "WordAck"
  | 35 => "GetPublicKey"
  | 36 => "PublicKey"
  | 37 => "SignTx"
  | 38 => "TxRequest"
  | 39 => "TxAck"
  | 40 => "GetAddress"
  | 41 => "Address"
  | 42 => "SignMessage"
  | 43 => "VerifyMessage"
  | 44 => "MessageSignature"
  | 45 => "PassphraseRequest"
  | 46 => "PassphraseAck"
  | 50 => "Cancel"
  | 55 => "PinMatrixRequest"
  | 56 => "PinMatrixAck"
  | 100 => "CipherKeyValue"
  | 101 => "CipheredKeyValue"
  | 110 => "GetOwnershipId"
  | 111 => "OwnershipId"
  | 112 => "GetOwnershipProof"
  | 113 => "OwnershipProof"
  | _ => "Unknown"

structure DecodedMessage where
  walletType : String
  messageType : String
  fields : List (String × String)
  rawHex : String
deriving DecidableEq, Repr

def DecodedMessage.logLine (m : DecodedMessage) : String :=
  if m.fields.isEmpty then m.messageType
  else
    let f := ", ".intercalate (m.fields.map fun (k, v) => s!"{k}={v}")
    s!"{m.messageType} ({f})"

inductive DecodeError where
  | tooShort (len : Nat)
  | badMagic (a b c : UInt8)
  | continuationPacket
deriving DecidableEq, Repr

/-- A byte in two hexadecimal digits. -/
def hex02 (byte : UInt8) : String := String.ofList (Hex.padded 2 byte.toNat)

/-- `Display for DecodeError`. -/
def DecodeError.display : DecodeError → String
  | .tooShort len => s!"packet too short: need at least 9 bytes, got {len}"
  | .badMagic a b c =>
    s!"invalid magic bytes: expected 3f 23 23, got {hex02 a} {hex02 b} {hex02 c}"
  | .continuationPacket => "continuation packet passed to first-packet decoder"

def decodePacket (data : List UInt8) : Except DecodeError DecodedMessage :=
  match data with
  | b0 :: b1 :: b2 :: b3 :: b4 :: b5 :: b6 :: b7 :: b8 :: _ =>
    if b0 = 0x3F ∧ b1 ≠ 0x23 then .error .continuationPacket
    else if b0 ≠ 0x3F ∨ b1 ≠ 0x23 ∨ b2 ≠ 0x23 then .error (.badMagic b0 b1 b2)
    else
      let msgTypeId := ofBe16 b3 b4
      let payloadLen := ofBe32 b5 b6 b7 b8
      .ok
        { walletType := "Trezor"
          messageType := messageTypeName msgTypeId.toNat
          fields := [("type_id", toString msgTypeId.toNat), ("payload_len", toString payloadLen.toNat)]
          rawHex := " ".intercalate (data.map hex02) }
  | _ => .error (.tooShort data.length)

def isContinuation (data : List UInt8) : Bool :=
  match data with
  | b0 :: b1 :: b2 :: _ => b0 = 0x3F && !(b1 = 0x23 && b2 = 0x23)
  | _ => false

/-- The log line of a relayed report, as the Trezor bridge has it decoded. -/
def decodedLine (report : List UInt8) : Option String :=
  (decodePacket report).toOption.map DecodedMessage.logLine

end Hwwctl.Protocol
