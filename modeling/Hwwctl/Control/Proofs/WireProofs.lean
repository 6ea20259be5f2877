import Hwwctl.Control.Wire

/-!
# Proofs: the control protocol's encoding is read back

Each variant is written under its own name, none of its fields has the name of the tag, and each
struct reads what it writes.
-/

namespace Hwwctl.Control

open Serde

/-! ## The tag -/

theorem skipIf_names {skip : Bool} {name tag : String} {v : Value} (h : name ≠ tag) :
    ∀ f ∈ skipIf skip name v, f.1 ≠ tag := by
  intro f hf
  cases skip with
  | true => cases hf
  | false =>
    obtain rfl := List.mem_singleton.mp hf
    exact h

theorem instanceSummary_names (summary : InstanceSummary) :
    ∀ f ∈ instanceSummary.write summary, f.1 ≠ "kind" := by
  intro f hf
  rcases List.mem_append.mp hf with hf | hf
  · have hbase : f.1 ∈ ["instance", "wallet", "state", "vid", "pid", "serial", "hidraw", "transport"] :=
      List.mem_map_of_mem (f := Prod.fst) hf
    rintro hkind
    rw [hkind] at hbase
    revert hbase
    decide
  · exact skipIf_names (by decide) f hf

/-- The name under which a request is written. -/
def Request.kind : Request → String
  | .ping => "ping"
  | .start _ => "start"
  | .stop _ => "stop"
  | .status _ => "status"
  | .logs _ => "logs"
  | .bridgeStats _ => "bridge_stats"
  | .shutdown => "shutdown"

theorem Request.encode_kind (r : Request) : ∃ fields, r.encode = tagged "kind" r.kind fields := by
  cases r <;> exact ⟨_, rfl⟩

def Request.kinds : List String :=
  ["ping", "start", "stop", "status", "logs", "bridge_stats", "shutdown"]

/-- No two variants have one name. -/
theorem Request.idxOf_kind (r : Request) : kinds.idxOf r.kind = r.ctorIdx := by
  cases r <;> rfl

/-- The name under which a response is written. -/
def Response.kind : Response → String
  | .pong _ => "pong"
  | .started _ => "started"
  | .stopped => "stopped"
  | .status _ => "status"
  | .logs _ => "logs"
  | .bridgeStats _ => "bridge_stats"
  | .shuttingDown => "shutting_down"
  | .error _ => "error"

theorem Response.encode_kind (r : Response) : ∃ fields, r.encode = tagged "kind" r.kind fields := by
  cases r <;> exact ⟨_, rfl⟩

def Response.kinds : List String :=
  ["pong", "started", "stopped", "status", "logs", "bridge_stats", "shutting_down", "error"]

theorem Response.idxOf_kind (r : Response) : kinds.idxOf r.kind = r.ctorIdx := by
  cases r <;> rfl

/-! ## Decoding what was encoded -/

/-- The numbers in a request are values of their types. -/
def Request.Valid : Request → Prop
  | .start req => startRequest.Valid req
  | .logs req => logsRequest.Valid req
  | _ => True

/-- The numbers in a response are values of their types. -/
def Response.Valid : Response → Prop
  | .pong info => pongInfo.Valid info
  | .logs entries => logsReply.Valid entries
  | .bridgeStats snapshot => bridgeStatsSnapshot.Valid snapshot
  | _ => True

theorem Request.decode_encode {r : Request} (h : r.Valid) : Request.decode r.encode = some r := by
  cases r with
  | ping => rw [encode, decode, fromTagged_tagged (by simp) rfl]
  | start req =>
    rw [encode, decode, fromTagged_tagged (by simp [startRequest]) rfl]
    rw [startRequest.read_write req h, Option.map_some]
  | stop inst =>
    rw [encode, decode, fromTagged_tagged (by simp [stopRequest]) rfl]
    rw [stopRequest.read_write inst trivial, Option.map_some]
  | status inst =>
    rw [encode, decode, fromTagged_tagged (by simp [statusRequest]) rfl]
    rw [statusRequest.read_write inst trivial, Option.map_some]
  | logs req =>
    rw [encode, decode, fromTagged_tagged (by simp [logsRequest]) rfl]
    rw [logsRequest.read_write req h, Option.map_some]
  | bridgeStats inst =>
    rw [encode, decode, fromTagged_tagged (by simp [bridgeStatsRequest]) rfl]
    rw [bridgeStatsRequest.read_write inst trivial, Option.map_some]
  | shutdown => rw [encode, decode, fromTagged_tagged (by simp) rfl]

theorem Response.decode_encode {r : Response} (h : r.Valid) :
    Response.decode r.encode = some r := by
  cases r with
  | pong info =>
    rw [encode, decode, fromTagged_tagged (by simp [pongInfo]) rfl]
    rw [pongInfo.read_write info h, Option.map_some]
  | started summary =>
    rw [encode, decode, fromTagged_tagged (instanceSummary_names summary) rfl]
    rw [instanceSummary.read_write summary trivial, Option.map_some]
  | stopped => rw [encode, decode, fromTagged_tagged (by simp) rfl]
  | status instances =>
    rw [encode, decode, fromTagged_tagged (by simp [statusReply]) rfl]
    rw [statusReply.read_write instances trivial, Option.map_some]
  | logs entries =>
    rw [encode, decode, fromTagged_tagged (by simp [logsReply]) rfl]
    rw [logsReply.read_write entries h, Option.map_some]
  | bridgeStats snapshot =>
    rw [encode, decode, fromTagged_tagged (by simp [bridgeStatsSnapshot]) rfl]
    rw [bridgeStatsSnapshot.read_write snapshot h, Option.map_some]
  | shuttingDown => rw [encode, decode, fromTagged_tagged (by simp) rfl]
  | error e =>
    rw [encode, decode, fromTagged_tagged (by simp [controlError]) rfl]
    rw [controlError.read_write e trivial, Option.map_some]

/-! ## Telling encodings apart -/

theorem Request.encode_ne {r r' : Request} (h : r.ctorIdx ≠ r'.ctorIdx) : r.encode ≠ r'.encode := by
  obtain ⟨fields, hr⟩ := r.encode_kind
  obtain ⟨fields', hr'⟩ := r'.encode_kind
  intro heq
  rw [hr, hr', tagged_inj] at heq
  refine h ?_
  rw [← idxOf_kind, ← idxOf_kind, heq.1]

theorem Response.encode_ne {r r' : Response} (h : r.ctorIdx ≠ r'.ctorIdx) :
    r.encode ≠ r'.encode := by
  obtain ⟨fields, hr⟩ := r.encode_kind
  obtain ⟨fields', hr'⟩ := r'.encode_kind
  intro heq
  rw [hr, hr', tagged_inj] at heq
  refine h ?_
  rw [← idxOf_kind, ← idxOf_kind, heq.1]

/-- The three names that requests and responses share come with different fields. -/
theorem request_ne_response (r : Request) (r' : Response) : r.encode ≠ r'.encode := by
  intro heq
  have hkind : r.kind = r'.kind := by
    obtain ⟨fields, hr⟩ := r.encode_kind
    obtain ⟨fields', hr'⟩ := r'.encode_kind
    rw [hr, hr', tagged_inj] at heq
    exact heq.1
  cases r <;> cases r' <;> simp [Request.kind, Response.kind] at hkind
  case status.status inst instances =>
    have hfields := (tagged_inj.mp heq).2
    simp [statusRequest, statusReply] at hfields
  case logs.logs req entries =>
    have hfields := congrArg List.length (tagged_inj.mp heq).2
    simp [logsRequest, logsReply] at hfields
  case bridgeStats.bridgeStats inst snapshot =>
    have hfields := congrArg List.length (tagged_inj.mp heq).2
    simp [bridgeStatsRequest, bridgeStatsSnapshot] at hfields

/-- What is encoded is decoded to the same value, and no two variants have an encoding in common. -/
theorem wire_round_trip :
    (∀ r : Request, r.Valid → Request.decode r.encode = some r) ∧
      (∀ r : Response, r.Valid → Response.decode r.encode = some r) ∧
      (∀ r r' : Request, r.ctorIdx ≠ r'.ctorIdx → r.encode ≠ r'.encode) ∧
      (∀ r r' : Response, r.ctorIdx ≠ r'.ctorIdx → r.encode ≠ r'.encode) ∧
      ∀ (r : Request) (r' : Response), r.encode ≠ r'.encode :=
  ⟨fun _ => Request.decode_encode, fun _ => Response.decode_encode, fun _ _ => Request.encode_ne,
    fun _ _ => Response.encode_ne, request_ne_response⟩

/-- A log entry of the emulator, whose last two fields are left out. -/
theorem wire_round_trip_emulatorEntry :
    Response.decode (Response.encode (.logs [⟨7, .emulator, "ready", "", ""⟩])) =
      some (.logs [⟨7, .emulator, "ready", "", ""⟩]) := by
  refine wire_round_trip.2.1 _ ?_
  intro entry hentry
  obtain rfl := List.mem_singleton.mp hentry
  show 7 < 2 ^ 64
  decide

end Hwwctl.Control
