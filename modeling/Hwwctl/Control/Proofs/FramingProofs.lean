import Hwwctl.Control.Framing
import Hwwctl.Control.Types

/-!
# What is written as frames is read back

`read_frame` recovers a frame from every way its bytes may arrive, and both sides refuse the same
lengths.
-/

namespace Hwwctl.Control

open Machine ByteStream

variable {α : Type} {json : Json α}

/-- The limit fits a `u32`, so the cast in `write_frame` changes no length that passes it. -/
theorem toNat_ofNat_of_le {n : Nat} (h : n ≤ maxFrameBytes) : (UInt32.ofNat n).toNat = n := by
  have hmax : maxFrameBytes = 16777216 := rfl
  rw [UInt32.toNat_ofNat', Nat.mod_eq_of_lt]
  omega

theorem frameLength_be32 (v : UInt32) : frameLength (be32 v) = v := ofBe32_be32 v

/-! ## One frame -/

theorem writeFrame_of_fits {w : Sink UInt8} {m : α} {bytes : List UInt8} (hroom : w.room = none)
    (hm : json.toVec m = .ok bytes) (hlen : bytes.length ≤ maxFrameBytes) :
    writeFrame json w m = (.ok (), ⟨w.written ++ frame bytes, none⟩) := by
  have hnot : ¬ bytes.length > maxFrameBytes := by omega
  simp only [writeFrame, hm, if_neg hnot, Sink.writeAll_of_room_none hroom]
  rw [Sink.writeAll_of_room_none rfl, frame, List.append_assoc]

theorem writeFrame_of_long {w : Sink UInt8} {m : α} {bytes : List UInt8}
    (hm : json.toVec m = .ok bytes) (hlen : maxFrameBytes < bytes.length) :
    writeFrame json w m =
      (.error (.limit s!"frame size {bytes.length} exceeds limit {maxFrameBytes}"), w) := by
  simp only [writeFrame, hm, if_pos (show bytes.length > maxFrameBytes from hlen)]

/-- An encoded message that is not too long is not refused, even if the writing fails. -/
theorem not_refused_writeFrame {w : Sink UInt8} {m : α} {bytes : List UInt8}
    (hm : json.toVec m = .ok bytes) (hlen : bytes.length ≤ maxFrameBytes) :
    ¬ Refused (writeFrame json w m).1 := by
  rintro ⟨message, h⟩
  have hnot : ¬ bytes.length > maxFrameBytes := by omega
  simp only [writeFrame, hm, if_neg hnot] at h
  split at h
  · cases h
  · split at h
    · cases h
    · cases h

/-- A stream that starts with a length, and the reads behind that length. -/
theorem readExact_header {r : List (Read UInt8)} {len : UInt32} {back : List UInt8}
    (h : Delivers r (be32 len ++ back)) :
    ∃ r', readExact 4 r = (.ok (be32 len), r') ∧ Delivers r' back :=
  h.readExact

theorem readFrame_of_long (json : Json α) {r : List (Read UInt8)} {len : UInt32} {back : List UInt8}
    (h : Delivers r (be32 len ++ back)) (hlen : maxFrameBytes < len.toNat) :
    Refused (readFrame json r).1 := by
  obtain ⟨r', hread, -⟩ := readExact_header h
  refine ⟨s!"incoming frame length {len.toNat} exceeds limit {maxFrameBytes}", ?_⟩
  simp only [readFrame, hread, frameLength_be32,
    if_pos (show len.toNat > maxFrameBytes from hlen)]

theorem not_refused_readFrame {r : List (Read UInt8)} {len : UInt32} {back : List UInt8}
    (h : Delivers r (be32 len ++ back)) (hlen : len.toNat ≤ maxFrameBytes) :
    ¬ Refused (readFrame json r).1 := by
  rintro ⟨message, hrefused⟩
  obtain ⟨r', hread, -⟩ := readExact_header h
  have hnot : ¬ len.toNat > maxFrameBytes := by omega
  simp only [readFrame, hread, frameLength_be32, if_neg hnot] at hrefused
  split at hrefused
  · cases hrefused
  · split at hrefused
    · cases hrefused
    · cases hrefused

/-- A complete frame is read as its payload is decoded, and the rest of the stream stays. -/
theorem readFrame_frame (json : Json α) {r : List (Read UInt8)} {payload back : List UInt8}
    (h : Delivers r (frame payload ++ back)) (hlen : payload.length ≤ maxFrameBytes) :
    ∃ r', Delivers r' back ∧
      (∀ m, json.fromSlice payload = .ok m → readFrame json r = (.ok (some m), r')) ∧
      ∀ e, json.fromSlice payload = .error e → readFrame json r = (.error (.json e), r') := by
  rw [frame, List.append_assoc] at h
  obtain ⟨r₁, hread₁, h₁⟩ := readExact_header h
  obtain ⟨r₂, hread₂, h₂⟩ := h₁.readExact
  have hnot : ¬ payload.length > maxFrameBytes := by omega
  refine ⟨r₂, h₂, ?_, ?_⟩
  · intro m hm
    simp only [readFrame, hread₁, frameLength_be32, toNat_ofNat_of_le hlen, if_neg hnot, hread₂, hm]
  · intro e he
    simp only [readFrame, hread₁, frameLength_be32, toNat_ofNat_of_le hlen, if_neg hnot, hread₂, he]

/-! ## Many frames -/

/-- Every message has an encoding that fits a frame. -/
def Fits (json : Json α) (m : α) : Prop :=
  ∃ bytes, json.toVec m = .ok bytes ∧ bytes.length ≤ maxFrameBytes

/-- The frames of some messages, one behind the other. -/
inductive Frames (json : Json α) : List α → List UInt8 → Prop where
  | nil : Frames json [] []
  | cons {m : α} {msgs : List α} {bytes stream : List UInt8} (hm : json.toVec m = .ok bytes)
      (hlen : bytes.length ≤ maxFrameBytes) (h : Frames json msgs stream) :
      Frames json (m :: msgs) (frame bytes ++ stream)

theorem writeFrames_of_fits {w : Sink UInt8} {msgs : List α} (hroom : w.room = none)
    (hfits : ∀ m ∈ msgs, Fits json m) :
    ∃ stream, Frames json msgs stream ∧
      writeFrames json msgs w = (msgs.map fun _ => .ok (), ⟨w.written ++ stream, none⟩) := by
  induction msgs generalizing w with
  | nil =>
    refine ⟨[], .nil, ?_⟩
    rw [writeFrames, List.append_nil, ← hroom]
    rfl
  | cons m msgs ih =>
    obtain ⟨bytes, hm, hlen⟩ := hfits m List.mem_cons_self
    obtain ⟨stream, hstream, hwrite⟩ := ih (w := ⟨w.written ++ frame bytes, none⟩) rfl
      fun m' hm' => hfits m' (List.mem_cons_of_mem m hm')
    refine ⟨frame bytes ++ stream, .cons hm hlen hstream, ?_⟩
    simp only [writeFrames, writeFrame_of_fits hroom hm hlen, hwrite, List.map_cons,
      List.append_assoc]

/-- A stream of frames is read as its messages, and then as the end of the stream. -/
theorem Frames.readFrames (hjson : json.RoundTrips) {msgs : List α} {stream : List UInt8}
    (h : Frames json msgs stream) {r : List (Read UInt8)} (hr : Delivers r stream) :
    (Control.readFrames json (msgs.length + 1) r).1 =
      msgs.map (fun m => .ok (some m)) ++ [.ok none] := by
  induction h generalizing r with
  | nil =>
    rw [hr.eq_nil]
    rfl
  | @cons m msgs bytes stream hm hlen h ih =>
    obtain ⟨r', hr', hok, -⟩ := readFrame_frame json hr hlen
    have hread := hok m (hjson m bytes hm)
    rw [List.length_cons, Control.readFrames]
    simp only [hread, ih hr', List.map_cons, List.cons_append]

/-- Framing is a round trip, and the two sides refuse the same lengths. -/
theorem frames_round_trip (json : Json α) (hjson : json.RoundTrips) (msgs : List α)
    (hfits : ∀ m ∈ msgs, Fits json m) :
    (writeFrames json msgs ⟨[], none⟩).1 = msgs.map (fun _ => .ok ()) ∧
    (∀ r, Delivers r (writeFrames json msgs ⟨[], none⟩).2.written →
      (readFrames json (msgs.length + 1) r).1 = msgs.map (fun m => .ok (some m)) ++ [.ok none]) ∧
    (∀ w m bytes, json.toVec m = .ok bytes →
      (Refused (writeFrame json w m).1 ↔ maxFrameBytes < bytes.length) ∧
      (Refused (writeFrame json w m).1 → (writeFrame json w m).2 = w)) ∧
    ∀ (len : UInt32) back r, Delivers r (be32 len ++ back) →
      (Refused (readFrame json r).1 ↔ maxFrameBytes < len.toNat) := by
  obtain ⟨stream, hstream, hwrite⟩ := writeFrames_of_fits (w := ⟨[], none⟩) rfl hfits
  refine ⟨?_, ?_, ?_, ?_⟩
  · rw [hwrite]
  · intro r hr
    rw [hwrite] at hr
    exact hstream.readFrames hjson hr
  · intro w m bytes hm
    by_cases hlen : maxFrameBytes < bytes.length
    · rw [writeFrame_of_long hm hlen]
      exact ⟨iff_of_true ⟨_, rfl⟩ hlen, fun _ => rfl⟩
    · have hno := not_refused_writeFrame (w := w) hm (Nat.le_of_not_lt hlen)
      exact ⟨iff_of_false hno hlen, fun h => absurd h hno⟩
  · intro len back r hr
    by_cases hlen : maxFrameBytes < len.toNat
    · exact iff_of_true (readFrame_of_long json hr hlen) hlen
    · exact iff_of_false (not_refused_readFrame hr (Nat.le_of_not_lt hlen)) hlen

/-- The bytes of an ASCII text. -/
def asciiBytes (text : String) : List UInt8 := text.toList.map fun c => UInt8.ofNat c.toNat

/-- The JSON of an enum variant that carries nothing. -/
def bareJson (kind : String) : List UInt8 :=
  asciiBytes "\x7b\"kind\":\"" ++ asciiBytes kind ++ asciiBytes "\"\x7d"

/-- `serde_json` on the requests that carry nothing. -/
def bareRequests : Json Request where
  toVec
    | .ping => .ok (bareJson "ping")
    | .shutdown => .ok (bareJson "shutdown")
    | _ => .error "unsupported"
  fromSlice bytes :=
    if bytes = bareJson "ping" then .ok .ping
    else if bytes = bareJson "shutdown" then .ok .shutdown
    else .error "unsupported"

theorem bareRequests_roundTrips : bareRequests.RoundTrips := by
  intro a bytes h
  cases a with
  | ping =>
    obtain rfl := Except.ok.inj h
    decide
  | shutdown =>
    obtain rfl := Except.ok.inj h
    decide
  | _ => cases h

/-- A `Ping` and a `Shutdown` that arrive at once. -/
def bareStream : Chunk UInt8 where
  elems := (writeFrames bareRequests [.ping, .shutdown] ⟨[], none⟩).2.written
  nonempty := by decide

theorem frames_round_trip_bare :
    (readFrames bareRequests 3 [.data bareStream]).1 =
      [.ok (some .ping), .ok (some .shutdown), .ok none] := by
  have hfits : ∀ m ∈ [Request.ping, .shutdown], Fits bareRequests m := by
    intro m hm
    rcases List.mem_cons.1 hm with rfl | hm
    · exact ⟨_, rfl, by decide⟩
    · obtain rfl := List.mem_singleton.1 hm
      exact ⟨_, rfl, by decide⟩
  have hdelivers : Delivers [.data bareStream] bareStream.elems :=
    ⟨[bareStream], rfl, List.append_nil _⟩
  exact (frames_round_trip bareRequests bareRequests_roundTrips [.ping, .shutdown] hfits).2.1 _
    hdelivers

/-! ## Where a stream ends -/

/-- The call came back with an error. -/
def Failed {β : Type} (result : Except FrameError β) : Prop := ∃ e, result = .error e

/-- What `read_frame` is to come back with on a stream: nothing only when the client hung up before
the first byte, an error wherever else the stream falls short of a message. -/
structure Classified (json : Json α) (stream : List UInt8) (result : Except FrameError (Option α)) :
    Prop where
  clean : result = .ok none ↔ stream = []
  header : 1 ≤ stream.length → stream.length ≤ 3 → Failed result
  limit : ∀ (len : UInt32) back, stream = be32 len ++ back → maxFrameBytes < len.toNat →
    Failed result
  payload : ∀ (len : UInt32) back, stream = be32 len ++ back → back.length < len.toNat →
    Failed result
  undecoded : ∀ payload back e, stream = frame payload ++ back →
    payload.length ≤ maxFrameBytes → json.fromSlice payload = .error e → Failed result
  decoded : ∀ payload back m, stream = frame payload ++ back →
    payload.length ≤ maxFrameBytes → json.fromSlice payload = .ok m → result = .ok (some m)

/-- Four bytes are the length of a frame. -/
theorem exists_header {stream : List UInt8} (h : 4 ≤ stream.length) :
    ∃ (len : UInt32) (back : List UInt8), stream = be32 len ++ back := by
  obtain ⟨a, b, c, d, back, rfl⟩ : ∃ a b c d back, stream = a :: b :: c :: d :: back := by
    match stream, h with
    | a :: b :: c :: d :: back, _ => exact ⟨a, b, c, d, back, rfl⟩
  exact ⟨ofBe32 a b c d, back, by rw [be32_ofBe32]; rfl⟩

/-- The end of the stream inside the length is taken for a hang-up. -/
theorem readFrame_of_short (json : Json α) {r : List (Read UInt8)} {stream : List UInt8}
    (h : Delivers r stream)
    (hlen : stream.length < 4) : (readFrame json r).1 = .ok none := by
  simp only [readFrame, h.readExact_eof hlen]

/-- The end of the stream inside the payload is an error. -/
theorem readFrame_of_cut {r : List (Read UInt8)} {len : UInt32} {back : List UInt8}
    (h : Delivers r (be32 len ++ back)) (hcut : back.length < len.toNat) :
    Failed (readFrame json r).1 := by
  by_cases hlimit : maxFrameBytes < len.toNat
  · obtain ⟨message, hrefused⟩ := readFrame_of_long json h hlimit
    exact ⟨_, hrefused⟩
  · obtain ⟨r', hread, hback⟩ := readExact_header h
    refine ⟨.io .unexpectedEof, ?_⟩
    simp only [readFrame, hread, frameLength_be32,
      if_neg (show ¬ len.toNat > maxFrameBytes from hlimit), hback.readExact_eof hcut]

/-- With a complete length there is a message or an error. -/
theorem readFrame_ne_none {r : List (Read UInt8)} {len : UInt32} {back : List UInt8}
    (h : Delivers r (be32 len ++ back)) : (readFrame json r).1 ≠ .ok none := by
  intro hnone
  obtain ⟨r', hread, -⟩ := readExact_header h
  simp only [readFrame, hread, frameLength_be32] at hnone
  split at hnone
  · cases hnone
  · split at hnone
    · cases hnone
    · split at hnone
      · cases hnone
      · cases hnone

theorem classified_of_header {r : List (Read UInt8)} {stream : List UInt8} (h : Delivers r stream)
    (hlen : 4 ≤ stream.length) : Classified json stream (readFrame json r).1 where
  clean := by
    obtain ⟨len, back, rfl⟩ := exists_header hlen
    exact iff_of_false (readFrame_ne_none h) (by simp [be32])
  header _ hshort := by omega
  limit len back heq hlimit := by
    obtain ⟨message, hrefused⟩ := readFrame_of_long json (heq ▸ h) hlimit
    exact ⟨_, hrefused⟩
  payload len back heq hcut := readFrame_of_cut (heq ▸ h) hcut
  undecoded payload back e heq hfits he := by
    obtain ⟨r', -, -, herror⟩ := readFrame_frame json (heq ▸ h) hfits
    exact ⟨_, congrArg Prod.fst (herror e he)⟩
  decoded payload back m heq hfits hm := by
    obtain ⟨r', -, hok, -⟩ := readFrame_frame json (heq ▸ h) hfits
    exact congrArg Prod.fst (hok m hm)

/-- `read_frame` tells the ends of a stream apart exactly when the stream does not end inside the
length of a frame. -/
theorem readFrame_classified_iff (json : Json α) (stream : List UInt8) (r : List (Read UInt8))
    (h : Delivers r stream) :
    Classified json stream (readFrame json r).1 ↔ stream = [] ∨ 4 ≤ stream.length := by
  by_cases hlen : 4 ≤ stream.length
  · exact iff_of_true (classified_of_header h hlen) (Or.inr hlen)
  · have hnone := readFrame_of_short json h (Nat.lt_of_not_le hlen)
    constructor
    · intro hclass
      exact Or.inl (hclass.clean.1 hnone)
    · rintro (rfl | hlong)
      · refine ⟨iff_of_true hnone rfl, ?_, ?_, ?_, ?_, ?_⟩
        · intro hpos
          cases hpos
        · intro len back heq
          cases heq
        · intro len back heq
          cases heq
        · intro payload back e heq
          cases heq
        · intro payload back m heq
          cases heq
      · exact absurd hlong hlen

/-- The client hangs up inside the length of a frame. -/
def halfLength : List (Read UInt8) := [.data ⟨[0, 0], by decide⟩]

theorem halfLength_delivers : Delivers halfLength [0, 0] :=
  ⟨[⟨[0, 0], by decide⟩], rfl, rfl⟩

/-- A stream of four bytes, which announce a payload that does not come. -/
theorem readFrame_classified_noPayload :
    Classified bareRequests [0, 0, 0, 1] (readFrame bareRequests [.data ⟨[0, 0, 0, 1], by decide⟩]).1 :=
  (readFrame_classified_iff bareRequests [0, 0, 0, 1] [.data ⟨[0, 0, 0, 1], by decide⟩]
    ⟨[⟨[0, 0, 0, 1], by decide⟩], rfl, rfl⟩).2 (by decide)

/-- Two bytes and the end of the stream count as a clean end. -/
theorem not_classified_halfLength :
    ¬ ∀ (json : Json Request) stream r, Delivers r stream →
      Classified json stream (readFrame json r).1 := by
  intro hall
  have hclean := (hall bareRequests [0, 0] halfLength halfLength_delivers).clean
  have hnone : (readFrame bareRequests halfLength).1 = .ok none := rfl
  cases hclean.1 hnone

end Hwwctl.Control
