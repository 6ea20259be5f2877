import Hwwctl.Protocol.Varint

/-!
# Encoding protobuf fields

`encode_field_varint` and `encode_field_string` of `crates/protocol/src/trezor_debug.rs`.
-/

namespace Hwwctl.Protocol

/-- `str::as_bytes`. -/
def asBytes (s : String) : List UInt8 := s.toUTF8.data.toList

/-- A field of wire type 0. -/
def encodeFieldVarint (fieldNum : UInt32) (value : UInt64) : List UInt8 :=
  let tag := fieldNum.toUInt64 <<< 3
  encodeVarint tag ++ encodeVarint value

/-- A field of wire type 2. -/
def encodeFieldString (fieldNum : UInt32) (s : String) : List UInt8 :=
  let tag := (fieldNum.toUInt64 <<< 3) ||| 2
  let bytes := asBytes s
  encodeVarint tag ++ encodeVarint (UInt64.ofNat bytes.length) ++ bytes

end Hwwctl.Protocol
