import Mathlib.Data.List.Basic

/-!
# The control protocol's types

The values that client and daemon exchange, and the check of a `--mnemonic` value.
-/

namespace Hwwctl.Control

inductive Wallet where
  | trezor
  | bitBox02
  | coldcard
  | specter
  | ledger
  | jade
deriving DecidableEq, Repr

def Wallet.asStr : Wallet → String
  | .trezor => "trezor"
  | .bitBox02 => "bitbox02"
  | .coldcard => "coldcard"
  | .specter => "specter"
  | .ledger => "ledger"
  | .jade => "jade"

structure InstanceId where
  asStr : String
deriving DecidableEq, Repr

structure StartRequest where
  wallet : Wallet
  waitReady : Bool
  timeoutSecs : Option Nat
  mnemonic : Option String
deriving DecidableEq, Repr

inductive LogSource where
  | emulator
  | bridge
  | all
deriving DecidableEq, Repr

structure LogsRequest where
  inst : InstanceId
  tail : Option Nat
  source : LogSource
deriving DecidableEq, Repr

structure LogEntry where
  tsMs : Nat
  source : LogSource
  message : String
  direction : String
  rawHex : String
deriving DecidableEq, Repr

structure BridgeStatsSnapshot where
  inst : InstanceId
  hostToDeviceReports : Nat
  hostToDeviceBytes : Nat
  deviceToHostReports : Nat
  deviceToHostBytes : Nat
deriving DecidableEq, Repr

inductive InstanceState where
  | starting
  | running
  | stopping
  | error
deriving DecidableEq, Repr

structure InstanceSummary where
  inst : InstanceId
  wallet : Wallet
  state : InstanceState
  vid : UInt16
  pid : UInt16
  serial : String
  hidraw : Option String
  transport : String
  error : Option String
deriving DecidableEq, Repr

inductive ErrorCode where
  | badRequest
  | walletUnsupported
  | bundleMissing
  | spawnFailed
  | startupTimeout
  | bridgeFailed
  | instanceNotFound
  | resourceExhausted
  | internal
deriving DecidableEq, Repr

structure Error where
  code : ErrorCode
  message : String
deriving DecidableEq, Repr

inductive Request where
  | ping
  | start (req : StartRequest)
  | stop (inst : InstanceId)
  | status (inst : Option InstanceId)
  | logs (req : LogsRequest)
  | bridgeStats (inst : InstanceId)
  | shutdown
deriving DecidableEq, Repr

structure PongInfo where
  daemonVersion : String
  protocolVersion : Nat
  pid : Nat
deriving DecidableEq, Repr

inductive Response where
  | pong (info : PongInfo)
  | started (summary : InstanceSummary)
  | stopped
  | status (instances : List InstanceSummary)
  | logs (entries : List LogEntry)
  | bridgeStats (snapshot : BridgeStatsSnapshot)
  | shuttingDown
  | error (e : Error)
deriving DecidableEq, Repr

/-! ## Recovery words -/

/-- Unicode's `White_Space` property. -/
def isWhitespace (c : Char) : Bool :=
  let n := c.toNat
  (9 ≤ n && n ≤ 13) || n == 0x20 || n == 0x85 || n == 0xA0 || n == 0x1680 ||
    (0x2000 ≤ n && n ≤ 0x200A) || n == 0x2028 || n == 0x2029 || n == 0x202F || n == 0x205F ||
    n == 0x3000

/-- `str::split_whitespace`. -/
def splitWhitespace (s : String) : List String :=
  ((s.toList.splitOnP isWhitespace).filter (· ≠ [])).map String.ofList

/-- `u8::is_ascii_lowercase` of every byte: a multi-byte character has a byte from `0x80` on. -/
def asciiLowercase (w : String) : Bool := w.toList.all fun c => 'a' ≤ c && c ≤ 'z'

def normalizeMnemonic (mnemonic : String) : Except String String :=
  let words := splitWhitespace mnemonic
  if words.length = 12 ∨ words.length = 18 ∨ words.length = 24 then
    match words.find? (fun w => !asciiLowercase w) with
    | some bad => .error s!"mnemonic words must be lowercase a-z, got {bad.quote}"
    | none => .ok (" ".intercalate words)
  else
    .error s!"mnemonic must be 12, 18 or 24 words, got {words.length}"

end Hwwctl.Control
