import Hwwctl.Control.Proofs.FramingProofs
import Hwwctl.Daemon.Connection

/-!
# When a client gets its reply

A connection whose request cannot be parsed, or whose response does not fit a frame, is closed
without a reply; every other one gets exactly one frame.
-/

namespace Hwwctl.Daemon

open Control ByteStream Machine

variable {requests : Json Request} {responses : Json Response} {info : PongInfo}
  {registry : RegistryAnswers} {r : List (Read UInt8)} {w : Sink UInt8}

theorem frame_ne_nil (payload : List UInt8) : frame payload ≠ [] := by
  intro h
  have hlen := congrArg List.length h
  rw [frame, List.length_append, be32_length, List.length_nil] at hlen
  omega

theorem frame_length (payload : List UInt8) : (frame payload).length = 4 + payload.length := by
  rw [frame, List.length_append, be32_length]

/-- A frame that starts another frame is that frame. -/
theorem frame_append_eq {payload payload' back : List UInt8}
    (h : frame payload ++ back = frame payload') (hlen : payload.length ≤ maxFrameBytes)
    (hlen' : payload'.length ≤ maxFrameBytes) : back = [] := by
  have hheader : be32 (UInt32.ofNat payload.length) = be32 (UInt32.ofNat payload'.length) := by
    have htake := congrArg (List.take 4) h
    rw [frame, frame, List.append_assoc] at htake
    exact htake
  have hsame : payload.length = payload'.length := by
    have hlength := congrArg (fun l => (frameLength l).toNat) hheader
    simpa only [frameLength_be32, toNat_ofNat_of_le hlen, toNat_ofNat_of_le hlen'] using hlength
  have htotal := congrArg List.length h
  rw [List.length_append, frame_length, frame_length] at htotal
  exact List.length_eq_zero_iff.1 (by omega)

/-- Who was not written to was not answered. -/
theorem not_repliesToEach_of_silent {payload : List UInt8} {more : List (List UInt8)}
    {w' : Sink UInt8} (h : w'.written = w.written) :
    ¬ RepliesToEach requests responses (payload :: more) w w' := by
  rintro ⟨replies, hreplies, hwritten⟩
  cases hreplies with
  | @cons _ reply _ replies _ _ =>
    rw [h, List.self_eq_append_right] at hwritten
    exact frame_ne_nil reply (List.append_eq_nil_iff.1 hwritten).1

/-- One frame answers one payload at most. -/
theorem RepliesToEach.eq_nil {payload reply : List UInt8} {more : List (List UInt8)}
    {w' : Sink UInt8} (h : RepliesToEach requests responses (payload :: more) w w')
    (hwritten : w'.written = w.written ++ frame reply) (hlen : reply.length ≤ maxFrameBytes) :
    more = [] := by
  obtain ⟨replies, hreplies, hframes⟩ := h
  cases hreplies with
  | @cons _ first _ replies hfirst hrest =>
    rw [hwritten] at hframes
    have hback := frame_append_eq (List.append_cancel_left hframes).symm hfirst.length_le hlen
    cases hrest with
    | nil => rfl
    | @cons _ second _ replies _ _ =>
      exact absurd (List.append_eq_nil_iff.1 hback).1 (frame_ne_nil second)

/-! ## The three ways a request goes -/

theorem handleConnection_of_error {e : FrameError} {r' : List (Read UInt8)}
    (h : readFrame requests r = (.error e, r')) :
    handleConnection requests responses info registry r w = ⟨.error e, w, false⟩ := by
  rw [handleConnection, h]

/-- A response that fits is written as one frame. -/
theorem handleConnection_of_fits {request : Request} {r' : List (Read UInt8)} {reply : List UInt8}
    (h : readFrame requests r = (.ok (some request), r')) (hroom : w.room = none)
    (hreply : responses.toVec (dispatch info registry request) = .ok reply)
    (hlen : reply.length ≤ maxFrameBytes) :
    handleConnection requests responses info registry r w =
      ⟨.ok (), ⟨w.written ++ frame reply, none⟩, request = .shutdown⟩ := by
  simp only [handleConnection, h, writeFrame_of_fits hroom hreply hlen]

/-- A response that does not fit leaves the stream as it was. -/
theorem handleConnection_of_not_fits {request : Request} {r' : List (Read UInt8)}
    (h : readFrame requests r = (.ok (some request), r'))
    (hfits : ¬ Fits responses (dispatch info registry request)) :
    (handleConnection requests responses info registry r w).stream = w := by
  cases hreply : responses.toVec (dispatch info registry request) with
  | error e =>
    simp only [handleConnection, h, writeFrame, hreply]
  | ok reply =>
    have hlen : maxFrameBytes < reply.length := by
      by_contra hle
      exact hfits ⟨reply, hreply, Nat.le_of_not_lt hle⟩
    simp only [handleConnection, h, writeFrame_of_long hreply hlen]

/-- The frames of a connection are answered one by one if and only if there is one frame, its
payload is a request, and the response with the registry's answer fits a frame. -/
theorem repliesToEach_iff (hjson : responses.RoundTrips) {payload back : List UInt8}
    {more : List (List UInt8)} (hlen : payload.length ≤ maxFrameBytes)
    (hr : Delivers r (((payload :: more).map frame).flatten ++ back)) (hroom : w.room = none) :
    RepliesToEach requests responses (payload :: more) w
        (handleConnection requests responses info registry r w).stream ↔
      more = [] ∧ ∃ request, requests.fromSlice payload = .ok request ∧
        Fits responses (dispatch info registry request) := by
  rw [List.map_cons, List.flatten_cons, List.append_assoc] at hr
  obtain ⟨r', -, hok, herror⟩ := readFrame_frame requests hr hlen
  cases hparse : requests.fromSlice payload with
  | error e =>
    rw [handleConnection_of_error (herror e hparse)]
    constructor
    · intro heach
      exact absurd heach (not_repliesToEach_of_silent rfl)
    · rintro ⟨-, request, hrequest, -⟩
      cases hrequest
  | ok request =>
    by_cases hfits : Fits responses (dispatch info registry request)
    · obtain ⟨reply, hreply, hreplyLen⟩ := hfits
      rw [handleConnection_of_fits (hok request hparse) hroom hreply hreplyLen]
      constructor
      · intro heach
        exact ⟨heach.eq_nil rfl hreplyLen, request, rfl, reply, hreply, hreplyLen⟩
      · rintro ⟨rfl, -⟩
        have hanswered : AnsweredBy requests responses payload reply := by
          refine ⟨hreplyLen, ?_, _, hreply, ?_⟩
          · intro e he
            cases hparse.symm.trans he
          · intro r hreads
            rw [← List.append_nil (frame reply)] at hreads
            obtain ⟨r', -, hread, -⟩ := readFrame_frame responses hreads hreplyLen
            rw [hread _ (hjson _ reply hreply)]
        refine ⟨[reply], .cons hanswered .nil, ?_⟩
        rw [List.map_singleton, List.flatten_singleton]
    · constructor
      · intro heach
        refine absurd heach (not_repliesToEach_of_silent ?_)
        rw [handleConnection_of_not_fits (hok request hparse) hfits]
      · rintro ⟨-, request', hrequest, hfits'⟩
        obtain rfl := Except.ok.inj hrequest
        exact absurd hfits' hfits

def unknownRequest : Error := ⟨.badRequest, "unknown request"⟩

def unknownRequestJson : List UInt8 :=
  asciiBytes "\x7b\"kind\":\"error\",\"code\":\"BAD_REQUEST\",\"message\":\"unknown request\"\x7d"

/-- `serde_json` on the response to a `Shutdown` and on an error that could answer what is no
request. -/
def bareResponses : Json Response where
  toVec
    | .shuttingDown => .ok (bareJson "shutting_down")
    | .error e => if e = unknownRequest then .ok unknownRequestJson else .error "unsupported"
    | _ => .error "unsupported"
  fromSlice bytes :=
    if bytes = bareJson "shutting_down" then .ok .shuttingDown
    else if bytes = unknownRequestJson then .ok (.error unknownRequest)
    else .error "unsupported"

theorem bareResponses_roundTrips : bareResponses.RoundTrips := by
  intro a bytes h
  cases a with
  | shuttingDown =>
    obtain rfl := Except.ok.inj h
    decide
  | error e =>
    have hbytes : (if e = unknownRequest then .ok unknownRequestJson else .error "unsupported" :
        Except String (List UInt8)) = .ok bytes := h
    split at hbytes
    · next he =>
      obtain rfl := Except.ok.inj hbytes
      rw [he]
      decide
    · cases hbytes
  | _ => cases h

/-- A registry without instances. -/
def emptyAnswers : RegistryAnswers
  | .start _ => ⟨.start (.error ⟨.internal, "registry task is gone"⟩), trivial⟩
  | .stop _ => ⟨.stop (.ok ()), trivial⟩
  | .status _ => ⟨.status (.ok []), trivial⟩
  | .logs req => ⟨.logs (.error (notFound req.inst)), trivial⟩
  | .bridgeStats id => ⟨.bridgeStats (.error (notFound id)), trivial⟩
  | .shutdown => ⟨.shutdown, trivial⟩

/-- A frame that arrives in one chunk. -/
theorem delivers_frame (payload : List UInt8) :
    Delivers [.data ⟨frame payload, frame_ne_nil payload⟩] (([payload].map frame).flatten ++ []) :=
  ⟨[⟨frame payload, frame_ne_nil payload⟩], rfl, (List.append_nil _).symm⟩

/-- A `Shutdown` gets its reply. -/
theorem repliesToEach_shutdown :
    RepliesToEach bareRequests bareResponses [bareJson "shutdown"] ⟨[], none⟩
      (handleConnection bareRequests bareResponses ⟨"0.1.4", 1, 4711⟩ emptyAnswers
        [.data ⟨frame (bareJson "shutdown"), frame_ne_nil _⟩] ⟨[], none⟩).stream :=
  (repliesToEach_iff bareResponses_roundTrips (by decide) (delivers_frame _) rfl).2
    ⟨rfl, .shutdown, by decide, _, rfl, by decide⟩

/-- A frame whose payload names no request gets no reply at all. -/
theorem not_repliesToEach_unknown :
    ¬ RepliesToEach bareRequests bareResponses [bareJson "reboot"] ⟨[], none⟩
      (handleConnection bareRequests bareResponses ⟨"0.1.4", 1, 4711⟩ emptyAnswers
        [.data ⟨frame (bareJson "reboot"), frame_ne_nil _⟩] ⟨[], none⟩).stream := by
  have hdelivers := delivers_frame (bareJson "reboot")
  rw [List.map_cons, List.flatten_cons, List.append_assoc] at hdelivers
  obtain ⟨r', -, -, herror⟩ := readFrame_frame bareRequests hdelivers (by decide)
  rw [handleConnection_of_error (herror "unsupported" (by decide))]
  exact not_repliesToEach_of_silent rfl

end Hwwctl.Daemon
