import Hwwctl.Protocol.Proofs.SessionProofs
import Hwwctl.Protocol.WireClient

/-!
# What the wire client does with the device's responses

The trace of a confirmed call, and which responses the five operations return as a success.
-/

namespace Hwwctl.Protocol

open Machine

variable {s : Sockets} {rest : List Delivery} {m : RawMessage}

/-! ## Sending and receiving -/

namespace Wire

/-- What comes in and what the system refuses is as before. -/
structure Kept (s s' : Sockets) : Prop where
  incoming : s'.incoming = s.incoming
  refuses : s'.refuses = s.refuses

theorem Kept.refl (s : Sockets) : Kept s s := ⟨rfl, rfl⟩

theorem Kept.trans (s s' s'' : Sockets) (h : Kept s s') (h' : Kept s' s'') : Kept s s'' :=
  ⟨h'.incoming.trans h.incoming, h'.refuses.trans h.refuses⟩

theorem send_kept (event : Packet → Event) (message : String) (packet : Packet) :
    Act.Within Kept (send event message packet) := by
  intro s
  unfold send
  split <;> exact ⟨rfl, rfl⟩

theorem sendAll_kept (event : Packet → Event) (message : String) (packets : List Packet) :
    Act.Within Kept (sendAll event message packets) :=
  .forM Kept.refl Kept.trans fun packet _ => send_kept event message packet

/-- Where nothing is refused, everything is sent. -/
theorem sendAll_sent (event : Packet → Event) (message : String) (packets : List Packet)
    (h : ∀ n, s.refuses n = false) :
    sendAll event message packets s =
      (.ok (), { s with events := s.events ++ packets.map event }) := by
  induction packets generalizing s with
  | nil =>
    show (pure () : Wire Unit) s = _
    rw [Act.run_pure, List.map_nil, List.append_nil]
  | cons packet packets ih =>
    have hsend : send event message packet s =
        (.ok (), { s with events := s.events ++ [event packet] }) := by
      simp only [send, h, Bool.false_eq_true, if_false]
    have hrest := ih (s := { s with events := s.events ++ [event packet] }) h
    show (send event message packet >>= fun _ => sendAll event message packets) s = _
    rw [Act.run_bind, hsend, List.map_cons]
    simp only [hrest, List.append_assoc, List.singleton_append]

/-- A complete response is received and leaves what follows it. -/
theorem recvWithin_wire (timedOut : String) (hlen : m.payload.length < 2 ^ 32)
    (h : s.incoming = wire m ++ rest) :
    recvWithin timedOut wireReceiver.receive s =
      (.ok m, { s with incoming := rest, events := s.events ++ (wire m).map .received }) := by
  have hrecv : wireReceiver.receive (wire m ++ rest) = (.ok m, rest) :=
    wireClient_lawful.wire m rest hlen
  have htaken : (wire m ++ rest).take ((wire m ++ rest).length - rest.length) = wire m := by
    rw [List.length_append, Nat.add_sub_cancel, List.take_left' rfl]
  simp only [recvWithin, h, hrecv, htaken]

/-- With nothing to come the deadline passes. -/
theorem recvWithin_nil (timedOut : String) (h : s.incoming = []) :
    recvWithin timedOut wireReceiver.receive s = (.error (.err timedOut), s) := by
  simp only [recvWithin, h, Receiver.receive, List.take_nil, List.map_nil, List.append_nil]
  rw [← h]

end Wire

/-! ## The rounds of a confirmed call -/

def IsButtonRequest (m : RawMessage) : Bool := m.msgType = msgButtonRequest

/-- What a call does on its sockets for a button request: it reads it, acknowledges it once and, with
a debug link, decides once for yes. -/
def confirmedRound (debugLink : Bool) (m : RawMessage) : List Event :=
  (wire m).map .received ++ (frameMessage msgButtonAck []).map .sent ++
    if debugLink then
      (frameMessage msgDebugLinkDecision (encodeFieldVarint 1 DebugButton.yes.code)).map .debugSent
    else []

section Rounds

variable {b : Build} {fuel rounds : Nat} {debugLink : Bool} {responses : List RawMessage}

theorem confirm_kept (debugLink : Bool) : Act.Within Wire.Kept (confirm debugLink) := by
  refine (Wire.sendAll_kept _ _ _).bind Wire.Kept.trans fun _ => ?_
  cases debugLink with
  | false => exact .pure Wire.Kept.refl
  | true => exact Wire.sendAll_kept .debugSent _ _

theorem confirm_sent (debugLink : Bool) (h : ∀ n, s.refuses n = false) :
    confirm debugLink s =
      (.ok (), { s with events := s.events ++ ((frameMessage msgButtonAck []).map .sent ++
        if debugLink then
          (frameMessage msgDebugLinkDecision (encodeFieldVarint 1 DebugButton.yes.code)).map
            .debugSent
        else []) }) := by
  rw [confirm, Act.run_bind, Wire.sendAll_sent _ _ _ h]
  cases debugLink with
  | false =>
    dsimp only
    rw [if_neg Bool.false_ne_true, if_neg Bool.false_ne_true, Act.run_pure, List.append_nil]
  | true =>
    have hpress := Wire.sendAll_sent .debugSent "Debug-link send failed"
      (frameMessage msgDebugLinkDecision (encodeFieldVarint 1 DebugButton.yes.code))
      (s := { s with events := s.events ++ (frameMessage msgButtonAck []).map .sent }) h
    simp only [if_true, Act.ignore, pressButton, hpress, List.append_assoc]

/-- A button request is confirmed before anything else is read. -/
theorem recvRounds_button (hsends : ∀ n, s.refuses n = false) (hm : IsButtonRequest m = true)
    (hlen : m.payload.length < 2 ^ 32) (h : s.incoming = wire m ++ rest) :
    recvRounds b fuel debugLink (rounds + 1) s =
      recvRounds b fuel debugLink rounds
        { s with incoming := rest, events := s.events ++ confirmedRound debugLink m } := by
  have hbutton : m.msgType = msgButtonRequest := by simpa [IsButtonRequest] using hm
  rw [recvRounds, Act.run_bind, roundFut, Wire.recvWithin_wire _ hlen h]
  dsimp only
  have hconfirm := confirm_sent debugLink hsends
    (s := { s with incoming := rest, events := s.events ++ (wire m).map .received })
  rw [if_pos hbutton, Act.run_bind, hconfirm]
  simp only [confirmedRound, List.append_assoc]

/-- Any other response ends the call. -/
theorem recvRounds_answer (hm : IsButtonRequest m = false) (hlen : m.payload.length < 2 ^ 32)
    (h : s.incoming = wire m ++ rest) :
    recvRounds b fuel debugLink (rounds + 1) s =
      conclude b fuel m
        { s with incoming := rest, events := s.events ++ (wire m).map .received } := by
  have hbutton : m.msgType ≠ msgButtonRequest := by simpa [IsButtonRequest] using hm
  rw [recvRounds, Act.run_bind, roundFut, Wire.recvWithin_wire _ hlen h]
  dsimp only
  rw [if_neg hbutton]

theorem recvRounds_waiting (h : s.incoming = []) :
    recvRounds b fuel debugLink (rounds + 1) s =
      (.error (.err "Wire response timed out"), s) := by
  rw [recvRounds, Act.run_bind, roundFut, Wire.recvWithin_nil _ h]

/-- The button requests that a call of some rounds comes by before any other response. -/
def confirmedResponses (rounds : Nat) (responses : List RawMessage) : List RawMessage :=
  (responses.take rounds).takeWhile IsButtonRequest

/-- The response that ends it. -/
def answerOf (rounds : Nat) (responses : List RawMessage) : Option RawMessage :=
  ((responses.take rounds).dropWhile IsButtonRequest).head?

theorem confirmedResponses_button (hm : IsButtonRequest m = true) :
    confirmedResponses (rounds + 1) (m :: responses) =
      m :: confirmedResponses rounds responses := by
  rw [confirmedResponses, List.take_succ_cons, List.takeWhile_cons_of_pos hm]
  rfl

theorem confirmedResponses_answer (hm : IsButtonRequest m = false) :
    confirmedResponses (rounds + 1) (m :: responses) = [] := by
  rw [confirmedResponses, List.take_succ_cons, List.takeWhile_cons_of_neg (by simp [hm])]

theorem answerOf_button (hm : IsButtonRequest m = true) :
    answerOf (rounds + 1) (m :: responses) = answerOf rounds responses := by
  rw [answerOf, List.take_succ_cons, List.dropWhile_cons_of_pos hm]
  rfl

theorem answerOf_answer (hm : IsButtonRequest m = false) :
    answerOf (rounds + 1) (m :: responses) = some m := by
  rw [answerOf, List.take_succ_cons, List.dropWhile_cons_of_neg (by simp [hm])]
  rfl

def tooManyRequests : Except Fail (List UInt8) :=
  .error (.err "Too many ButtonRequests without resolution")

theorem deviceFailure_ne_tooMany (msg : String) :
    (.error (.err s!"Device failure: {msg}") : Except Fail (List UInt8)) ≠ tooManyRequests := by
  intro h
  have htext : "Device failure: " ++ msg = "Too many ButtonRequests without resolution" :=
    Fail.err.inj (Except.error.inj h)
  have hhead := congrArg (fun t => t.toList.head?) htext
  simp [String.toList_append] at hhead

/-- A response that is no button request does not change the sockets, and it is a success unless it
is a `Failure`. -/
theorem conclude_spec (b : Build) (fuel : Nat) (m : RawMessage) :
    ∃ r, (∀ s, conclude b fuel m s = (r, s)) ∧ r ≠ tooManyRequests ∧
      ∀ data, r = .ok data ↔ m.msgType ≠ msgFailure ∧ data = m.payload := by
  by_cases hfailure : m.msgType = msgFailure
  · have hsuccess : m.msgType ≠ msgSuccess := by
      rw [hfailure]
      decide
    have hrun : conclude b fuel m = deviceFailure b fuel m.payload := by
      rw [conclude, if_neg hsuccess, if_pos hfailure]
    rw [hrun]
    unfold deviceFailure
    have hno : ∀ e : Fail, ∀ data, (.error e : Except Fail (List UInt8)) = .ok data ↔
        m.msgType ≠ msgFailure ∧ data = m.payload :=
      fun e data => iff_of_false (by simp) fun h => h.1 hfailure
    rcases extractFailureMessage b (asSlice m.payload) fuel with _ | p | msg
    · exact ⟨_, fun s => rfl, by simp [tooManyRequests], hno _⟩
    · exact ⟨_, fun s => rfl, by simp [tooManyRequests], hno _⟩
    · exact ⟨_, fun s => rfl, deviceFailure_ne_tooMany msg, hno _⟩
  · have hrun : conclude b fuel m = pure m.payload := by
      rw [conclude, if_neg hfailure, ite_self]
    rw [hrun]
    refine ⟨.ok m.payload, fun s => rfl, by simp [tooManyRequests], fun data => ?_⟩
    constructor
    · intro h
      exact ⟨hfailure, (Except.ok.inj h).symm⟩
    · rintro ⟨-, rfl⟩
      rfl

/-- How a call of some rounds ends on a sequence of responses, and what it leaves. -/
structure RoundsSpec (debugLink : Bool) (rounds : Nat) (responses : List RawMessage) (s : Sockets)
    (out : Except Fail (List UInt8) × Sockets) : Prop where
  events : out.2.events = s.events ++
    (confirmedResponses rounds responses).flatMap (confirmedRound debugLink) ++
      ((answerOf rounds responses).toList.flatMap wire).map .received
  incoming : out.2.incoming = (responses.drop ((confirmedResponses rounds responses).length +
    (answerOf rounds responses).toList.length)).flatMap wire
  tooMany : out.1 = tooManyRequests ↔
    rounds ≤ responses.length ∧ ∀ m ∈ responses.take rounds, IsButtonRequest m = true
  ok : ∀ data, out.1 = .ok data ↔
    ∃ m, answerOf rounds responses = some m ∧ m.msgType ≠ msgFailure ∧ data = m.payload

/-- Where every packet is sent, the rounds take the responses one by one. -/
theorem recvRounds_spec (b : Build) (fuel : Nat) (debugLink : Bool) (rounds : Nat)
    (responses : List RawMessage) (hfits : ∀ m ∈ responses, m.payload.length < 2 ^ 32)
    (hsends : ∀ n, s.refuses n = false) (h : s.incoming = responses.flatMap wire) :
    RoundsSpec debugLink rounds responses s (recvRounds b fuel debugLink rounds s) := by
  induction rounds generalizing responses s with
  | zero =>
    have hrun : recvRounds b fuel debugLink 0 s = (tooManyRequests, s) := rfl
    rw [hrun]
    refine ⟨by simp [confirmedResponses, answerOf], ?_, ?_, ?_⟩
    · simpa [confirmedResponses, answerOf] using h
    · exact iff_of_true rfl ⟨Nat.zero_le _, by simp⟩
    · exact fun data => iff_of_false (by rintro ⟨⟩) (by simp [answerOf])
  | succ rounds ih =>
    cases responses with
    | nil =>
      rw [List.flatMap_nil] at h
      rw [recvRounds_waiting h]
      refine ⟨by simp [confirmedResponses, answerOf], by simpa using h, ?_, ?_⟩
      · exact iff_of_false (by simp [tooManyRequests]) (by simp)
      · exact fun data => iff_of_false (by simp) (by simp [answerOf])
    | cons m responses =>
      rw [List.flatMap_cons] at h
      have hlen := hfits m List.mem_cons_self
      cases hm : IsButtonRequest m with
      | true =>
        rw [recvRounds_button hsends hm hlen h]
        have hrest := ih responses
          (s := { s with incoming := responses.flatMap wire,
                         events := s.events ++ confirmedRound debugLink m })
          (fun m' hm' => hfits m' (List.mem_cons_of_mem m hm')) hsends rfl
        refine ⟨?_, ?_, ?_, ?_⟩
        · rw [hrest.events, confirmedResponses_button hm, answerOf_button hm, List.flatMap_cons]
          simp only [List.append_assoc]
        · rw [hrest.incoming, confirmedResponses_button hm, answerOf_button hm, List.length_cons,
            Nat.add_right_comm, List.drop_succ_cons]
        · rw [hrest.tooMany, List.take_succ_cons, List.length_cons]
          simp [hm]
        · intro data
          rw [hrest.ok, answerOf_button hm]
      | false =>
        obtain ⟨r, hrun, htooMany, hok⟩ := conclude_spec b fuel m
        rw [recvRounds_answer hm hlen h, hrun]
        refine ⟨?_, ?_, ?_, ?_⟩
        · simp [confirmedResponses_answer hm, answerOf_answer hm]
        · simp [confirmedResponses_answer hm, answerOf_answer hm]
        · refine iff_of_false htooMany ?_
          rintro ⟨-, hall⟩
          have := hall m (by simp)
          rw [hm] at this
          cases this
        · intro data
          rw [hok, answerOf_answer hm]
          simp

/-- A confirmed call acknowledges and confirms each button request before it reads on, and ends at
the tenth of them or at the first other response. -/
theorem recvWithConfirm_disciplined (b : Build) (fuel : Nat) (debugLink : Bool)
    (responses : List RawMessage) (hfits : ∀ m ∈ responses, m.payload.length < 2 ^ 32) (s : Sockets)
    (hsends : ∀ n, s.refuses n = false) (h : s.incoming = responses.flatMap wire) :
    (recvWithConfirm b fuel debugLink s).2.events = s.events ++
        (confirmedResponses 10 responses).flatMap (confirmedRound debugLink) ++
          ((answerOf 10 responses).toList.flatMap wire).map .received ∧
    (recvWithConfirm b fuel debugLink s).2.incoming =
      (responses.drop ((confirmedResponses 10 responses).length +
        (answerOf 10 responses).toList.length)).flatMap wire ∧
    ((recvWithConfirm b fuel debugLink s).1 = tooManyRequests ↔
      10 ≤ responses.length ∧ ∀ m ∈ responses.take 10, IsButtonRequest m = true) := by
  have hspec := recvRounds_spec b fuel debugLink 10 _ hfits hsends h
  exact ⟨hspec.events, hspec.incoming, hspec.tooMany⟩

/-- A button request, and the success of the call behind it. -/
def oneRequest : List RawMessage := [⟨26, []⟩, ⟨2, [7]⟩]

theorem recvWithConfirm_oneRequest :
    (recvWithConfirm .checked 0 true ⟨oneRequest.flatMap wire, [], fun _ => false⟩).2.incoming = [] :=
  (recvWithConfirm_disciplined .checked 0 true oneRequest (by decide)
    ⟨oneRequest.flatMap wire, [], fun _ => false⟩ (fun _ => rfl) rfl).2.1

/-! ## Which responses count as a success -/

/-- Whatever is refused on the way, a confirmed call that succeeds returns the first response that is
no button request. -/
theorem answerOf_of_recvRounds_ok {data : List UInt8}
    (hfits : ∀ m ∈ responses, m.payload.length < 2 ^ 32) (h : s.incoming = responses.flatMap wire)
    (hok : (recvRounds b fuel debugLink rounds s).1 = .ok data) :
    ∃ m, answerOf rounds responses = some m ∧ m.msgType ≠ msgFailure ∧ data = m.payload := by
  induction rounds generalizing responses s with
  | zero => cases hok
  | succ rounds ih =>
    cases responses with
    | nil =>
      rw [recvRounds_waiting h] at hok
      cases hok
    | cons m responses =>
      rw [List.flatMap_cons] at h
      have hlen := hfits m List.mem_cons_self
      cases hm : IsButtonRequest m with
      | true =>
        have hbutton : m.msgType = msgButtonRequest := by simpa [IsButtonRequest] using hm
        rw [recvRounds, Act.run_bind, roundFut, Wire.recvWithin_wire _ hlen h] at hok
        dsimp only at hok
        rw [if_pos hbutton, Act.run_bind] at hok
        have hkept := confirm_kept debugLink
          { s with incoming := responses.flatMap wire, events := s.events ++ (wire m).map .received }
        generalize confirm debugLink
          { s with incoming := responses.flatMap wire,
                   events := s.events ++ (wire m).map .received } = out at hok hkept
        obtain ⟨_ | _, s₁⟩ := out
        · cases hok
        · rw [answerOf_button hm]
          exact ih (fun m' hm' => hfits m' (List.mem_cons_of_mem m hm')) hkept.incoming hok
      | false =>
        obtain ⟨r, hrun, -, hresult⟩ := conclude_spec b fuel m
        rw [recvRounds_answer hm hlen h, hrun] at hok
        exact ⟨m, answerOf_answer hm, (hresult data).1 hok⟩

end Rounds

/-- On the responses of the device, `op` returns only the payload of the response that `pick` names,
and only if its type is allowed. -/
def ReturnsOnly (op : Wire (List UInt8)) (responses : List RawMessage)
    (pick : List RawMessage → Option RawMessage) (allowed : UInt16 → Prop) : Prop :=
  ∀ s : Sockets, s.incoming = responses.flatMap wire → ∀ data, (op s).1 = .ok data →
    ∃ m, pick responses = some m ∧ allowed m.msgType ∧ data = m.payload

/-- How an operation decides on a success: by the response that `pick` names and a condition on its
type; and it does succeed where every packet is sent. -/
structure Decides (op : Wire (List UInt8)) (responses : List RawMessage)
    (pick : List RawMessage → Option RawMessage) (accepted : UInt16 → Prop) : Prop where
  sound : ReturnsOnly op responses pick accepted
  complete : ∀ m, pick responses = some m → accepted m.msgType →
    ∃ s : Sockets, s.incoming = responses.flatMap wire ∧ (op s).1 = .ok m.payload

/-- What such an operation returns is allowed when it accepts the allowed types only. -/
theorem Decides.checks_iff {op : Wire (List UInt8)} {responses : List RawMessage}
    {pick : List RawMessage → Option RawMessage} {accepted allowed : UInt16 → Prop}
    (h : Decides op responses pick accepted) :
    ReturnsOnly op responses pick allowed ↔
      ∀ m, pick responses = some m → accepted m.msgType → allowed m.msgType := by
  constructor
  · intro honly m hm hacc
    obtain ⟨s, hs, hrun⟩ := h.complete m hm hacc
    obtain ⟨m', hm', hallowed, -⟩ := honly s hs _ hrun
    obtain rfl := Option.some.inj (hm.symm.trans hm')
    exact hallowed
  · intro himp s hs data hrun
    obtain ⟨m, hm, hacc, hdata⟩ := h.sound s hs data hrun
    exact ⟨m, hm, himp m hm hacc, hdata⟩

section Operations

variable {responses : List RawMessage}

/-- Sockets that bring the responses and refuse nothing. -/
def answering (responses : List RawMessage) : Sockets := ⟨responses.flatMap wire, [], fun _ => false⟩

/-- A request whose response is not looked at. -/
theorem sendAndRecv_decides (msgType : UInt16) (payload : List UInt8)
    (hfits : ∀ m ∈ responses, m.payload.length < 2 ^ 32) :
    Decides (sendAndRecv msgType payload) responses List.head? fun _ => True where
  sound s hs data hrun := by
    have hkept := Wire.sendAll_kept .sent "Wire send failed" (frameMessage msgType payload) s
    rw [sendAndRecv, Act.run_bind] at hrun
    generalize Wire.sendAll .sent "Wire send failed" (frameMessage msgType payload) s = out
      at hrun hkept
    obtain ⟨_ | _, s₁⟩ := out
    · cases hrun
    · dsimp only at hrun
      have hincoming : s₁.incoming = responses.flatMap wire := hkept.incoming.trans hs
      cases responses with
      | nil =>
        rw [Act.run_bind, recvFut, Wire.recvWithin_nil _ hincoming] at hrun
        cases hrun
      | cons m responses =>
        rw [Act.run_bind, recvFut,
          Wire.recvWithin_wire _ (hfits m List.mem_cons_self) hincoming] at hrun
        exact ⟨m, rfl, trivial, (Except.ok.inj hrun).symm⟩
  complete m hm _ := by
    refine ⟨answering responses, rfl, ?_⟩
    cases responses with
    | nil => cases hm
    | cons m' responses =>
      obtain rfl := Option.some.inj hm
      have hsent := Wire.sendAll_sent (s := answering (m' :: responses)) .sent "Wire send failed"
        (frameMessage msgType payload) fun _ => rfl
      rw [sendAndRecv, Act.run_bind, hsent]
      dsimp only
      rw [Act.run_bind, recvFut,
        Wire.recvWithin_wire _ (hfits m' List.mem_cons_self) (List.flatMap_cons ..)]
      rfl

/-- A request that is confirmed: any response that is no button request and no failure will do. -/
theorem confirmed_decides (b : Build) (fuel : Nat) (debugLink : Bool) (packets : List Packet)
    (hfits : ∀ m ∈ responses, m.payload.length < 2 ^ 32) :
    Decides (Wire.sendAll .sent "Wire send failed" packets >>= fun _ =>
      recvWithConfirm b fuel debugLink) responses (answerOf 10) (· ≠ msgFailure) where
  sound s hs data hrun := by
    have hkept := Wire.sendAll_kept .sent "Wire send failed" packets s
    rw [Act.run_bind] at hrun
    generalize Wire.sendAll .sent "Wire send failed" packets s = out at hrun hkept
    obtain ⟨_ | _, s₁⟩ := out
    · cases hrun
    · exact answerOf_of_recvRounds_ok hfits (hkept.incoming.trans hs) hrun
  complete m hm hacc := by
    refine ⟨answering responses, rfl, ?_⟩
    rw [Act.run_bind, Wire.sendAll_sent (s := answering responses) _ _ packets fun _ => rfl]
    have hspec := recvRounds_spec b fuel debugLink 10 responses
      (s := { answering responses with events := packets.map .sent }) hfits (fun _ => rfl) rfl
    exact (hspec.ok m.payload).2 ⟨m, hm, hacc, rfl⟩

/-- The operations check what they return exactly when the response that ends the call is no
`Failure`, for `load_device` a `Success` or a `Failure`, for `get_public_key` a `PublicKey` or a
`Failure`. -/
theorem returnsOnly_iff (b : Build) (fuel : Nat) (responses : List RawMessage)
    (hfits : ∀ m ∈ responses, m.payload.length < 2 ^ 32) :
    (∀ op ∈ [sendInitialize, ping, getFeatures],
      ReturnsOnly op responses List.head? (· ≠ msgFailure) ↔
        ∀ m, responses.head? = some m → m.msgType ≠ msgFailure) ∧
    (∀ mnemonic label debugLink,
      ReturnsOnly (loadDevice b fuel mnemonic label debugLink) responses (answerOf 10)
          (· = msgSuccess) ↔
        ∀ m, answerOf 10 responses = some m → m.msgType = msgSuccess ∨ m.msgType = msgFailure) ∧
    ∀ path debugLink,
      ReturnsOnly (getPublicKey b fuel path debugLink) responses (answerOf 10)
          (· = msgPublicKey) ↔
        ∀ m, answerOf 10 responses = some m →
          m.msgType = msgPublicKey ∨ m.msgType = msgFailure := by
  have himp : ∀ P Q : Prop, (¬ P → Q) ↔ Q ∨ P := by
    intro P Q
    tauto
  refine ⟨?_, ?_, ?_⟩
  · intro op hop
    have hdecides : Decides op responses List.head? fun _ => True := by
      simp only [List.mem_cons, List.not_mem_nil, or_false] at hop
      rcases hop with rfl | rfl | rfl
      · exact sendAndRecv_decides _ _ hfits
      · exact sendAndRecv_decides _ _ hfits
      · exact sendAndRecv_decides _ _ hfits
    rw [hdecides.checks_iff]
    simp
  · intro mnemonic label debugLink
    rw [loadDevice, (confirmed_decides b fuel debugLink _ hfits).checks_iff]
    simp only [ne_eq, himp]
  · intro path debugLink
    rw [getPublicKey, (confirmed_decides b fuel debugLink _ hfits).checks_iff]
    simp only [ne_eq, himp]

/-- A `Success` ends the call of `load_device`. -/
theorem returnsOnly_oneRequest :
    ReturnsOnly (loadDevice .checked 0 "" "" false) oneRequest (answerOf 10) (· = msgSuccess) :=
  ((returnsOnly_iff .checked 0 oneRequest (by decide)).2.1 "" "" false).2 (by decide)

/-- `ping` returns a failure as a success, and `get_public_key` takes any message for a key. -/
theorem not_returnsOnly_failure :
    (∃ s : Sockets, s.incoming = wire ⟨msgFailure, [9]⟩ ∧ (ping s).1 = .ok [9]) ∧
      ¬ ∀ responses : List RawMessage, (∀ m ∈ responses, m.payload.length < 2 ^ 32) →
        ReturnsOnly ping responses List.head? (· ≠ msgFailure) ∧
          ReturnsOnly (getPublicKey .checked 0 [] false) responses (answerOf 10)
            (· = msgPublicKey) := by
  have hfits : ∀ m ∈ [(⟨msgFailure, [9]⟩ : RawMessage)], m.payload.length < 2 ^ 32 := by decide
  obtain ⟨s, hs, hrun⟩ := (sendAndRecv_decides msgPing [] hfits).complete ⟨msgFailure, [9]⟩ rfl trivial
  refine ⟨⟨s, by simpa using hs, hrun⟩, fun hall => ?_⟩
  obtain ⟨m, hm, hne, -⟩ := (hall _ hfits).1 s hs _ hrun
  obtain rfl := Option.some.inj hm
  exact hne rfl

end Operations

end Hwwctl.Protocol
