import Hwwctl.Protocol.Proofs.FieldsProofs
import Hwwctl.Protocol.Proofs.ScreenProofs
import Hwwctl.Protocol.Proofs.WireClientProofs

/-!
# From the device's fields to the caller

A response that comes in time is read through all its layers: packets, message, fields and, for a
screen, the tree that its tokens describe.
-/

namespace Hwwctl.Protocol

open Machine Serde

/-! ## Calls whose responses come in time -/

namespace Client

variable {β : Type} {c : Client β}

/-- What the calls of a session return. -/
def results (c : Client β) : Link → List Call → List (Except Fail β)
  | _, [] => []
  | l, call :: calls => (c.call l call).1 :: c.results (c.call l call).2 calls

theorem results_in_time (hc : c.Lawful) {l : Link} (hl : l.outstanding = []) {calls : List Call}
    (h : ∀ call ∈ calls, (wire call.response).length ≤ call.arrivals) :
    c.results l calls = calls.map fun call => c.result call.response := by
  induction calls generalizing l with
  | nil => rfl
  | cons call calls ih =>
    have hcall := h call List.mem_cons_self
    obtain ⟨hbuffered, hcoming⟩ := List.append_eq_nil_iff.1 hl
    have harrived : ((l.send call.response).arrive call.arrivals).buffered =
        wire call.response ++ [] := by
      simp [Link.arrive, Link.send, hbuffered, hcoming, List.take_of_length_le hcall]
    rw [results, call_late hc call.fits harrived, List.map_cons,
      ih (outstanding_call hc hl hcall) fun other hother => h other (List.mem_cons_of_mem _ hother)]

end Client

/-! ## Fields -/

/-- A response of the device: records of any wire types, one after the other. -/
structure Answer where
  msgType : UInt16
  records : List Protobuf.Record
  fits : (Protobuf.message records).length < 2 ^ 32

namespace Answer

def message (a : Answer) : RawMessage := ⟨a.msgType, Protobuf.message a.records⟩

/-- The texts of the fields with a number, those that are not UTF-8 left out. -/
def texts (a : Answer) (number : Nat) : List String :=
  (Protobuf.payloads number a.records).filterMap fromUtf8

theorem asSlice_payload (a : Answer) :
    (asSlice a.message.payload).val = Protobuf.message a.records := by
  have hle : (Protobuf.message a.records).length ≤ isizeMax := by
    have hfits := a.fits
    unfold isizeMax
    omega
  exact List.take_of_length_le hle

end Answer

variable {b : Build}

/-- With enough iterations, the tokens of an answer are found. -/
theorem parseTokensField_answer (b : Build) (a : Answer) :
    ∃ fuel₀, ∀ fuel ≥ fuel₀,
      parseTokensField b (asSlice a.message.payload) fuel = some (.ok (a.texts 13)) := by
  obtain ⟨fuel₀, hfuel₀⟩ := parseTokensField_message a.asSlice_payload (b := b)
  exact ⟨fuel₀, fun fuel hfuel => Loop.run_mono hfuel hfuel₀⟩

/-! ## Screens -/

/-- A screen of the device, and the answer that describes it in tokens among other fields. -/
structure Screen where
  value : Value
  answer : Answer
  typed : answer.msgType = msgDebugLinkState

namespace Screen

def tokens (sc : Screen) : List String := sc.answer.texts 13

/-- The layout shows the texts of the objects of the screen, in their order. -/
structure ShownBy (sc : Screen) (layout : ParsedLayout) : Prop where
  title : layout.title = firstName ((reachable sc.value).flatMap ownNames)
  lines : layout.lines = (reachable sc.value).flatMap ownLines
  buttons : layout.buttons = (reachable sc.value).flatMap ownButtons

theorem shownBy_parse {fromStr : String → Option Value} (hempty : fromStr "" = none) {sc : Screen}
    (h : fromStr (String.join sc.tokens) = some sc.value) :
    sc.ShownBy (parseLayoutTokens fromStr sc.tokens) := by
  rw [parseLayoutTokens_eq hempty h]
  exact ⟨title_extractFromValue sc.value, lines_extractFromValue sc.value {},
    buttons_extractFromValue sc.value {}⟩

/-- The call of `get_layout` that it answers. -/
def call (sc : Screen) (late : Nat) : Call :=
  ⟨sc.answer.message, sc.answer.fits, (wire sc.answer.message).length + late⟩

theorem result_eq {sc : Screen} {fuel : Nat}
    (h : parseTokensField b (asSlice sc.answer.message.payload) fuel = some (.ok sc.tokens)) :
    (debugLink b fuel).result sc.answer.message = .ok sc.tokens := by
  have htype : sc.answer.message.msgType = msgDebugLinkState := sc.typed
  show layoutResult b fuel sc.answer.message = _
  rw [layoutResult, if_neg (not_not.2 htype), h]

end Screen

/-- One number of iterations is enough for all the screens of a session. -/
theorem exists_fuel (b : Build) (screens : List Screen) :
    ∃ fuel₀, ∀ fuel ≥ fuel₀, ∀ sc ∈ screens,
      (debugLink b fuel).result sc.answer.message = .ok sc.tokens := by
  induction screens with
  | nil => exact ⟨0, by simp⟩
  | cons sc screens ih =>
    obtain ⟨fuel₁, h₁⟩ := parseTokensField_answer b sc.answer
    obtain ⟨fuel₂, h₂⟩ := ih
    refine ⟨max fuel₁ fuel₂, ?_⟩
    intro fuel hfuel sc' hsc'
    rcases List.mem_cons.1 hsc' with rfl | hsc'
    · exact Screen.result_eq (h₁ fuel (by omega))
    · exact h₂ fuel (by omega) sc' hsc'

/-- Of a session whose responses come in time, every call returns the tokens of its own screen, and
these show the whole screen. -/
theorem screens_shown (b : Build) {fromStr : String → Option Value} (hempty : fromStr "" = none)
    (screens : List Screen) (lates : Screen → Nat)
    (hparse : ∀ sc ∈ screens, fromStr (String.join sc.tokens) = some sc.value) :
    ∃ fuel₀, ∀ fuel ≥ fuel₀,
      (debugLink b fuel).results .fresh (screens.map fun sc => sc.call (lates sc)) =
        screens.map (fun sc => .ok sc.tokens) ∧
      ∀ sc ∈ screens, sc.ShownBy (parseLayoutTokens fromStr sc.tokens) := by
  obtain ⟨fuel₀, hfuel₀⟩ := exists_fuel b screens
  refine ⟨fuel₀, ?_⟩
  intro fuel hfuel
  refine ⟨?_, fun sc hsc => Screen.shownBy_parse hempty (hparse sc hsc)⟩
  have hin : ∀ call ∈ screens.map (fun sc => sc.call (lates sc)),
      (wire call.response).length ≤ call.arrivals := by
    intro call hcall
    obtain ⟨sc, -, rfl⟩ := List.mem_map.1 hcall
    exact Nat.le_add_right _ _
  rw [Client.results_in_time (debugLink_lawful b fuel) rfl hin, List.map_map]
  refine List.map_congr_left ?_
  intro sc hsc
  exact hfuel₀ fuel hfuel sc hsc

theorem tokens_field_pos : 0 < 13 := by decide

/-- A text in two tokens, behind a number, bytes that are no text and a field of eight bytes. -/
def twoTokens : List Protobuf.Record :=
  [.ofNumber 2 100 (by decide) (by decide) (by decide),
    .ofPayload 4 [0xFF, 0x00] (by decide) (by decide) (by decide),
    .ofFixed64 5 ⟨[1, 2, 3, 4, 5, 6, 7, 8], rfl⟩ (by decide) (by decide),
    .ofPayload 13 (asBytes "\x7b\"text\":") tokens_field_pos (by decide) (by decide),
    .ofPayload 13 (asBytes "\"a\"\x7d") tokens_field_pos (by decide) (by decide)]

def textScreen : Screen where
  value := .object textOnly
  answer := ⟨msgDebugLinkState, twoTokens, by decide⟩
  typed := rfl

/-- A parser that knows this text. -/
def parseText (s : String) : Option Value :=
  if s = "\x7b\"text\":\"a\"\x7d" then some (.object textOnly) else none

theorem screens_shown_twice : ∃ fuel₀, ∀ fuel ≥ fuel₀,
    (debugLink .checked fuel).results .fresh [textScreen.call 0, textScreen.call 0] =
      [.ok ["\x7b\"text\":", "\"a\"\x7d"], .ok ["\x7b\"text\":", "\"a\"\x7d"]] ∧
    (parseLayoutTokens parseText textScreen.tokens).lines = ["a"] := by
  have htokens : textScreen.tokens = ["\x7b\"text\":", "\"a\"\x7d"] := by decide
  have hparse : ∀ sc ∈ [textScreen, textScreen],
      parseText (String.join sc.tokens) = some sc.value := by
    intro sc hsc
    obtain rfl : sc = textScreen := by simpa using hsc
    rw [htokens]
    rfl
  obtain ⟨fuel₀, h⟩ := screens_shown .checked rfl [textScreen, textScreen] (fun _ => 0) hparse
  refine ⟨fuel₀, ?_⟩
  intro fuel hfuel
  obtain ⟨hresults, hshown⟩ := h fuel hfuel
  rw [← htokens]
  refine ⟨hresults, ?_⟩
  have hlines := (hshown textScreen List.mem_cons_self).lines
  rw [hlines]
  show (reachable (.object textOnly)).flatMap ownLines = _
  rw [reachable_textOnly]
  decide

/-! ## Keys -/

variable {s : Sockets}

end Hwwctl.Protocol
