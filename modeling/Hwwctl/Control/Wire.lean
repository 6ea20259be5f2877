import Hwwctl.Control.Types
import Hwwctl.Library.Hex
import Hwwctl.Library.Serde
import Mathlib.Algebra.Group.Nat.Defs

/-!
# The control protocol's encoding

What `#[derive(Serialize, Deserialize)]` makes of the types of `crates/control/src/lib.rs` under
their `#[serde(..)]` attributes. The positional form, in which serde also reads a struct from an
array, is left out.
-/

namespace Hwwctl.Control

open Serde

/-! ## Primitive and enumerated types -/

def u32 : Codec Nat := .uint (2 ^ 32)

def u64 : Codec Nat := .uint (2 ^ 64)

/-- `usize` on a 64-bit target. -/
def usize : Codec Nat := .uint (2 ^ 64)

/-- `hex_u16`. -/
def hexU16 : Codec UInt16 where
  encode v := .string (String.ofList ('0' :: 'x' :: Hex.padded 4 v.toNat))
  decode
    | .string raw =>
      let body := match raw.toList with
        | '0' :: 'x' :: body => body
        | cs => cs
      (Hex.parse (2 ^ 16) body).map UInt16.ofNat
    | _ => none
  Valid _ := True
  decode_encode v _ := by
    simp only [String.toList_ofList]
    rw [Hex.parse_padded 4 v.toNat_lt, Option.map_some, UInt16.ofNat_toNat]

/-- `#[serde(transparent)]`. -/
def instanceId : Codec InstanceId := Codec.string.map InstanceId.asStr .mk fun _ => rfl

/-- `#[serde(rename_all = "lowercase")]`, with `rename` for `BitBox02`. -/
def Wallet.serdeName : Wallet → String
  | .trezor => "trezor"
  | .bitBox02 => "bitbox02"
  | .coldcard => "coldcard"
  | .specter => "specter"
  | .ledger => "ledger"
  | .jade => "jade"

def wallet : Codec Wallet :=
  .names Wallet.serdeName [.trezor, .bitBox02, .coldcard, .specter, .ledger, .jade]
    fun a => by cases a <;> rfl

def LogSource.serdeName : LogSource → String
  | .emulator => "emulator"
  | .bridge => "bridge"
  | .all => "all"

def logSource : Codec LogSource :=
  .names LogSource.serdeName [.emulator, .bridge, .all] fun a => by cases a <;> rfl

def InstanceState.serdeName : InstanceState → String
  | .starting => "starting"
  | .running => "running"
  | .stopping => "stopping"
  | .error => "error"

def instanceState : Codec InstanceState :=
  .names InstanceState.serdeName [.starting, .running, .stopping, .error]
    fun a => by cases a <;> rfl

/-- `#[serde(rename_all = "SCREAMING_SNAKE_CASE")]`. -/
def ErrorCode.serdeName : ErrorCode → String
  | .badRequest => "BAD_REQUEST"
  | .walletUnsupported => "WALLET_UNSUPPORTED"
  | .bundleMissing => "BUNDLE_MISSING"
  | .spawnFailed => "SPAWN_FAILED"
  | .startupTimeout => "STARTUP_TIMEOUT"
  | .bridgeFailed => "BRIDGE_FAILED"
  | .instanceNotFound => "INSTANCE_NOT_FOUND"
  | .resourceExhausted => "RESOURCE_EXHAUSTED"
  | .internal => "INTERNAL"

def errorCode : Codec ErrorCode :=
  .names ErrorCode.serdeName
    [.badRequest, .walletUnsupported, .bundleMissing, .spawnFailed, .startupTimeout, .bridgeFailed,
      .instanceNotFound, .resourceExhausted, .internal]
    fun a => by cases a <;> rfl

def optionU64 : Codec (Option Nat) := u64.option fun _ => rfl

def optionUsize : Codec (Option Nat) := usize.option fun _ => rfl

def optionString : Codec (Option String) := Codec.string.option fun _ => rfl

def optionInstanceId : Codec (Option InstanceId) := instanceId.option fun _ => rfl

/-! ## Requests -/

def startRequest : Struct StartRequest where
  write req :=
    [("wallet", wallet.encode req.wallet),
      ("wait_ready", Codec.bool.encode req.waitReady),
      ("timeout_secs", optionU64.encode req.timeoutSecs),
      ("mnemonic", optionString.encode req.mnemonic)]
  read fields := do
    let wallet ← required wallet "wallet" fields
    let waitReady ← defaulted .bool "wait_ready" true fields
    let timeoutSecs ← defaulted optionU64 "timeout_secs" none fields
    let mnemonic ← defaulted optionString "mnemonic" none fields
    return { wallet, waitReady, timeoutSecs, mnemonic }
  Valid req := optionU64.Valid req.timeoutSecs
  read_write req h := by
    rw [required_eq (a := req.wallet) rfl trivial, defaulted_eq (a := req.waitReady) rfl trivial,
      defaulted_eq (a := req.timeoutSecs) rfl h, defaulted_eq (a := req.mnemonic) rfl fun _ _ => trivial]
    rfl

/-- `StopRequest`. -/
def stopRequest : Struct InstanceId where
  write inst := [("instance", instanceId.encode inst)]
  read fields := required instanceId "instance" fields
  Valid _ := True
  read_write inst _ := required_eq (a := inst) rfl trivial

/-- `StatusRequest`. -/
def statusRequest : Struct (Option InstanceId) where
  write inst := [("instance", optionInstanceId.encode inst)]
  read fields := defaulted optionInstanceId "instance" none fields
  Valid _ := True
  read_write inst _ := defaulted_eq (a := inst) rfl fun _ _ => trivial

def logsRequest : Struct LogsRequest where
  write req :=
    [("instance", instanceId.encode req.inst),
      ("tail", optionUsize.encode req.tail),
      ("source", logSource.encode req.source)]
  read fields := do
    let inst ← required instanceId "instance" fields
    let tail ← defaulted optionUsize "tail" none fields
    let source ← defaulted logSource "source" .all fields
    return { inst, tail, source }
  Valid req := optionUsize.Valid req.tail
  read_write req h := by
    rw [required_eq (a := req.inst) rfl trivial, defaulted_eq (a := req.tail) rfl h,
      defaulted_eq (a := req.source) rfl trivial]
    rfl

/-- `BridgeStatsRequest`. -/
def bridgeStatsRequest : Struct InstanceId where
  write inst := [("instance", instanceId.encode inst)]
  read fields := required instanceId "instance" fields
  Valid _ := True
  read_write inst _ := required_eq (a := inst) rfl trivial

/-- `#[serde(tag = "kind", rename_all = "snake_case")]`. -/
def Request.encode : Request → Value
  | .ping => tagged "kind" "ping" []
  | .start req => tagged "kind" "start" (startRequest.write req)
  | .stop inst => tagged "kind" "stop" (stopRequest.write inst)
  | .status inst => tagged "kind" "status" (statusRequest.write inst)
  | .logs req => tagged "kind" "logs" (logsRequest.write req)
  | .bridgeStats inst => tagged "kind" "bridge_stats" (bridgeStatsRequest.write inst)
  | .shutdown => tagged "kind" "shutdown" []

def Request.variants : Variants Request :=
  [("ping", fun _ => some .ping),
    ("start", fun fields => (startRequest.read fields).map .start),
    ("stop", fun fields => (stopRequest.read fields).map .stop),
    ("status", fun fields => (statusRequest.read fields).map .status),
    ("logs", fun fields => (logsRequest.read fields).map .logs),
    ("bridge_stats", fun fields => (bridgeStatsRequest.read fields).map .bridgeStats),
    ("shutdown", fun _ => some .shutdown)]

def Request.decode (v : Value) : Option Request := fromTagged "kind" Request.variants v

/-! ## Responses -/

def pongInfo : Struct PongInfo where
  write info :=
    [("daemon_version", Codec.string.encode info.daemonVersion),
      ("protocol_version", u32.encode info.protocolVersion),
      ("pid", u32.encode info.pid)]
  read fields := do
    let daemonVersion ← required .string "daemon_version" fields
    let protocolVersion ← required u32 "protocol_version" fields
    let pid ← required u32 "pid" fields
    return { daemonVersion, protocolVersion, pid }
  Valid info := u32.Valid info.protocolVersion ∧ u32.Valid info.pid
  read_write info h := by
    rw [required_eq (a := info.daemonVersion) rfl trivial,
      required_eq (a := info.protocolVersion) rfl h.1, required_eq (a := info.pid) rfl h.2]
    rfl

def instanceSummary : Struct InstanceSummary where
  write summary :=
    [("instance", instanceId.encode summary.inst),
      ("wallet", wallet.encode summary.wallet),
      ("state", instanceState.encode summary.state),
      ("vid", hexU16.encode summary.vid),
      ("pid", hexU16.encode summary.pid),
      ("serial", Codec.string.encode summary.serial),
      ("hidraw", optionString.encode summary.hidraw),
      ("transport", Codec.string.encode summary.transport)] ++
    skipIf summary.error.isNone "error" (optionString.encode summary.error)
  read fields := do
    let inst ← required instanceId "instance" fields
    let wallet ← required wallet "wallet" fields
    let state ← required instanceState "state" fields
    let vid ← required hexU16 "vid" fields
    let pid ← required hexU16 "pid" fields
    let serial ← required .string "serial" fields
    let hidraw ← defaulted optionString "hidraw" none fields
    let transport ← required .string "transport" fields
    let error ← defaulted optionString "error" none fields
    return { inst, wallet, state, vid, pid, serial, hidraw, transport, error }
  Valid _ := True
  read_write summary _ := by
    have hbase : ∀ name, "error" ≠ name → ∀ fields skip v,
        entries name (fields ++ skipIf skip "error" v) = entries name fields :=
      fun _ hne _ _ _ => entries_append_skipIf hne
    rw [required_eq (a := summary.inst) (hbase _ (by decide) _ _ _) trivial,
      required_eq (a := summary.wallet) (hbase _ (by decide) _ _ _) trivial,
      required_eq (a := summary.state) (hbase _ (by decide) _ _ _) trivial,
      required_eq (a := summary.vid) (hbase _ (by decide) _ _ _) trivial,
      required_eq (a := summary.pid) (hbase _ (by decide) _ _ _) trivial,
      required_eq (a := summary.serial) (hbase _ (by decide) _ _ _) trivial,
      defaulted_eq (a := summary.hidraw) (hbase _ (by decide) _ _ _) fun _ _ => trivial,
      required_eq (a := summary.transport) (hbase _ (by decide) _ _ _) trivial,
      defaulted_skipIf (a := summary.error) (entries_append_skipIf_self rfl)
        (fun hnone => Option.isNone_iff_eq_none.mp hnone) fun _ _ => trivial]
    rfl

def logEntry : Struct LogEntry where
  write entry :=
    [("ts_ms", u64.encode entry.tsMs),
      ("source", logSource.encode entry.source),
      ("message", Codec.string.encode entry.message)] ++
    skipIf entry.direction.isEmpty "direction" (Codec.string.encode entry.direction) ++
    skipIf entry.rawHex.isEmpty "raw_hex" (Codec.string.encode entry.rawHex)
  read fields := do
    let tsMs ← required u64 "ts_ms" fields
    let source ← required logSource "source" fields
    let message ← required .string "message" fields
    let direction ← defaulted .string "direction" "" fields
    let rawHex ← defaulted .string "raw_hex" "" fields
    return { tsMs, source, message, direction, rawHex }
  Valid entry := u64.Valid entry.tsMs
  read_write entry h := by
    have hbase : ∀ name, "direction" ≠ name → "raw_hex" ≠ name → ∀ fields skip v skip' v',
        entries name (fields ++ skipIf skip "direction" v ++ skipIf skip' "raw_hex" v') =
          entries name fields := by
      intro name hdirection hraw fields skip v skip' v'
      rw [entries_append_skipIf hraw, entries_append_skipIf hdirection]
    have hdirection : ∀ fields skip v skip' v', entries "direction" fields = [] →
        entries "direction"
          (fields ++ skipIf skip "direction" v ++ skipIf skip' "raw_hex" v') =
          if skip then [] else [v] := by
      intro fields skip v skip' v' hnil
      rw [entries_append_skipIf (by decide), entries_append_skipIf_self hnil]
    have hraw : ∀ fields skip v skip' v', entries "raw_hex" fields = [] →
        entries "raw_hex" (fields ++ skipIf skip "direction" v ++ skipIf skip' "raw_hex" v') =
          if skip' then [] else [v'] := by
      intro fields skip v skip' v' hnil
      rw [entries_append_skipIf_self]
      rw [entries_append_skipIf (by decide), hnil]
    rw [required_eq (a := entry.tsMs) (hbase _ (by decide) (by decide) _ _ _ _ _) h,
      required_eq (a := entry.source) (hbase _ (by decide) (by decide) _ _ _ _ _) trivial,
      required_eq (a := entry.message) (hbase _ (by decide) (by decide) _ _ _ _ _) trivial,
      defaulted_skipIf (a := entry.direction) (hdirection _ _ _ _ _ rfl)
        (fun hempty => String.isEmpty_iff.mp hempty) trivial,
      defaulted_skipIf (a := entry.rawHex) (hraw _ _ _ _ _ rfl)
        (fun hempty => String.isEmpty_iff.mp hempty) trivial]
    rfl

def bridgeStatsSnapshot : Struct BridgeStatsSnapshot where
  write snapshot :=
    [("instance", instanceId.encode snapshot.inst),
      ("host_to_device_reports", u64.encode snapshot.hostToDeviceReports),
      ("host_to_device_bytes", u64.encode snapshot.hostToDeviceBytes),
      ("device_to_host_reports", u64.encode snapshot.deviceToHostReports),
      ("device_to_host_bytes", u64.encode snapshot.deviceToHostBytes)]
  read fields := do
    let inst ← required instanceId "instance" fields
    let hostToDeviceReports ← required u64 "host_to_device_reports" fields
    let hostToDeviceBytes ← required u64 "host_to_device_bytes" fields
    let deviceToHostReports ← required u64 "device_to_host_reports" fields
    let deviceToHostBytes ← required u64 "device_to_host_bytes" fields
    return { inst, hostToDeviceReports, hostToDeviceBytes, deviceToHostReports, deviceToHostBytes }
  Valid snapshot :=
    u64.Valid snapshot.hostToDeviceReports ∧ u64.Valid snapshot.hostToDeviceBytes ∧
      u64.Valid snapshot.deviceToHostReports ∧ u64.Valid snapshot.deviceToHostBytes
  read_write snapshot h := by
    rw [required_eq (a := snapshot.inst) rfl trivial,
      required_eq (a := snapshot.hostToDeviceReports) rfl h.1,
      required_eq (a := snapshot.hostToDeviceBytes) rfl h.2.1,
      required_eq (a := snapshot.deviceToHostReports) rfl h.2.2.1,
      required_eq (a := snapshot.deviceToHostBytes) rfl h.2.2.2]
    rfl

def controlError : Struct Error where
  write e :=
    [("code", errorCode.encode e.code),
      ("message", Codec.string.encode e.message)]
  read fields := do
    let code ← required errorCode "code" fields
    let message ← required .string "message" fields
    return { code, message }
  Valid _ := True
  read_write e _ := by
    rw [required_eq (a := e.code) rfl trivial, required_eq (a := e.message) rfl trivial]
    rfl

/-- The struct variant `Status`. -/
def statusReply : Struct (List InstanceSummary) where
  write instances := [("instances", instanceSummary.codec.list.encode instances)]
  read fields := required instanceSummary.codec.list "instances" fields
  Valid _ := True
  read_write instances _ := required_eq (a := instances) rfl fun _ _ => trivial

/-- The struct variant `Logs`. -/
def logsReply : Struct (List LogEntry) where
  write entries := [("entries", logEntry.codec.list.encode entries)]
  read fields := required logEntry.codec.list "entries" fields
  Valid entries := logEntry.codec.list.Valid entries
  read_write entries h := required_eq (a := entries) rfl h

/-- `#[serde(tag = "kind", rename_all = "snake_case")]`. -/
def Response.encode : Response → Value
  | .pong info => tagged "kind" "pong" (pongInfo.write info)
  | .started summary => tagged "kind" "started" (instanceSummary.write summary)
  | .stopped => tagged "kind" "stopped" []
  | .status instances => tagged "kind" "status" (statusReply.write instances)
  | .logs entries => tagged "kind" "logs" (logsReply.write entries)
  | .bridgeStats snapshot => tagged "kind" "bridge_stats" (bridgeStatsSnapshot.write snapshot)
  | .shuttingDown => tagged "kind" "shutting_down" []
  | .error e => tagged "kind" "error" (controlError.write e)

def Response.variants : Variants Response :=
  [("pong", fun fields => (pongInfo.read fields).map .pong),
    ("started", fun fields => (instanceSummary.read fields).map .started),
    ("stopped", fun _ => some .stopped),
    ("status", fun fields => (statusReply.read fields).map .status),
    ("logs", fun fields => (logsReply.read fields).map .logs),
    ("bridge_stats", fun fields => (bridgeStatsSnapshot.read fields).map .bridgeStats),
    ("shutting_down", fun _ => some .shuttingDown),
    ("error", fun fields => (controlError.read fields).map .error)]

def Response.decode (v : Value) : Option Response := fromTagged "kind" Response.variants v

end Hwwctl.Control
