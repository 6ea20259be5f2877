import Hwwctl.Protocol.Proofs.SessionProofs
import Hwwctl.Protocol.WireClient
import Mathlib.Algebra.GroupWithZero.Nat

/-!
# Do the three reassemblers agree?

Only the debug link's loop looks at the marker of a continuation packet. The other two take any
datagram for one, and cannot take an empty one at all.
-/

namespace Hwwctl.Protocol

open Machine

/-- The datagrams on a socket, one per `recv`. -/
def deliveries (ds : List (List UInt8)) : List Delivery := ds.map .datagram

/-- The continuations that a receiver that has `got` bytes takes: up to the one that completes the
payload. -/
def continuationsTaken (payloadLen : Nat) : Nat → List (List UInt8) → List (List UInt8)
  | _, [] => []
  | got, d :: ds =>
    if got < payloadLen then
      d :: continuationsTaken payloadLen (got + (min d.length 64 - 1)) ds
    else []

/-- The bytes they bring, each datagram all but its marker. -/
def broughtBy (ds : List (List UInt8)) : Nat := (ds.map fun d => min d.length 64 - 1).sum

/-- The marker of a continuation packet. -/
def Marked (d : List UInt8) : Prop := d.head? = some 0x3F

theorem Marked.ne_nil {d : List UInt8} (h : Marked d) : d ≠ [] := by
  rintro rfl
  cases h

namespace Receiver

variable {c : Receiver} {payloadLen : Nat} {buf : Packet} {data d : List UInt8}

/-! ## One datagram -/

/-- A datagram that is not empty overwrites the first byte of the buffer. -/
theorem recvInto_head {b0 : UInt8} {rest : List UInt8} :
    (recvInto buf (b0 :: rest)).2.get 0 = b0 := by
  have hbytes : (recvInto buf (b0 :: rest)).2.bytes =
      [b0] ++ (rest.take 63 ++ buf.bytes.drop (0 + ((b0 :: rest).take 64).length)) := rfl
  exact Buf.get_of_prefix hbytes 0 (by simp)

theorem continuation_chunk (buf : Packet) (hd : d ≠ [])
    (hc : c.checksContinuations = true → Marked d) :
    ∃ buf' chunk, c.continuation buf d = .ok (buf', chunk) ∧ chunk.length = min d.length 64 - 1 := by
  cases d with
  | nil => exact absurd rfl hd
  | cons b0 rest =>
    have hgood : ¬ (c.checksContinuations = true ∧ ((recvInto buf (b0 :: rest)).1 < 1 ∨
        (recvInto buf (b0 :: rest)).2.get 0 ≠ 0x3F)) := by
      rintro ⟨hchecks, hn | hmarker⟩
      · simp [recvInto] at hn
      · rw [recvInto_head] at hmarker
        exact hmarker (Option.some.inj (hc hchecks))
    set r := recvInto buf (b0 :: rest) with hr
    have hn : r.1 = min (b0 :: rest).length 64 := rfl
    have hpos : 1 ≤ (b0 :: rest).length := by simp
    have hlen := r.2.length_eq
    have hslice : slice r.2.bytes 1 (min r.1 64) = .ok ((r.2.bytes.take (min r.1 64)).drop 1) :=
      slice_of_le (by omega) (by omega)
    refine ⟨r.2, (r.2.bytes.take (min r.1 64)).drop 1, ?_, ?_⟩
    · rw [continuation]
      simp only [← hr, if_neg hgood, hslice]
    · rw [List.length_drop, List.length_take]
      omega

theorem continuation_unmarked (hc : c.checksContinuations = true) (hd : ¬ Marked d) :
    ∃ message, c.continuation buf d = .error (.err message) := by
  have hbad : c.checksContinuations = true ∧
      ((recvInto buf d).1 < 1 ∨ (recvInto buf d).2.get 0 ≠ 0x3F) := by
    refine ⟨hc, ?_⟩
    cases d with
    | nil => exact Or.inl (by simp [recvInto])
    | cons b0 rest =>
      refine Or.inr ?_
      rw [recvInto_head]
      exact fun heq => hd (congrArg some heq)
  refine ⟨"Debug-link: invalid continuation packet", ?_⟩
  rw [continuation]
  simp only [if_pos hbad]

/-- `&buf[1..0]`. -/
theorem continuation_empty (hc : c.checksContinuations = false) :
    c.continuation buf [] = .error (.panic .sliceRange) := by
  rw [continuation]
  simp only [hc, Bool.false_eq_true, false_and, if_false]
  rw [slice_of_gt (by simp [recvInto])]

/-! ## The loop over the continuations -/

/-- Every continuation taken is accepted: the payload is completed, or its rest is waited for. -/
theorem continuations_accepted (buf : Packet) {ds : List (List UInt8)}
    (hne : ∀ d ∈ continuationsTaken payloadLen data.length ds, d ≠ [])
    (hmarked : c.checksContinuations = true →
      ∀ d ∈ continuationsTaken payloadLen data.length ds, Marked d) :
    (payloadLen ≤ data.length + broughtBy (continuationsTaken payloadLen data.length ds) ∧
      ∃ full rest, c.continuations payloadLen (deliveries ds) buf data = (.ok full, rest)) ∨
    (data.length + broughtBy (continuationsTaken payloadLen data.length ds) < payloadLen ∧
      c.continuations payloadLen (deliveries ds) buf data = (.error .pending, [])) := by
  induction ds generalizing buf data with
  | nil =>
    by_cases hlt : data.length < payloadLen
    · exact Or.inr ⟨hlt, by rw [deliveries, List.map_nil, continuations, if_pos hlt]⟩
    · exact Or.inl ⟨Nat.le_of_not_lt hlt, data, [], continuations_done hlt⟩
  | cons d ds ih =>
    by_cases hlt : data.length < payloadLen
    · have htaken : continuationsTaken payloadLen data.length (d :: ds) =
          d :: continuationsTaken payloadLen (data.length + (min d.length 64 - 1)) ds := by
        rw [continuationsTaken, if_pos hlt]
      rw [htaken] at hne hmarked ⊢
      obtain ⟨buf', chunk, hchunk, hlen⟩ := continuation_chunk (c := c) buf
        (hne d List.mem_cons_self) fun hc => hmarked hc d List.mem_cons_self
      have hdata : data.length + (min d.length 64 - 1) = (data ++ chunk).length := by
        rw [List.length_append, hlen]
      have hstep : c.continuations payloadLen (deliveries (d :: ds)) buf data =
          c.continuations payloadLen (deliveries ds) buf' (data ++ chunk) := by
        rw [deliveries, List.map_cons, continuations, if_pos hlt, hchunk]
        rfl
      have hsum : data.length + broughtBy
            (d :: continuationsTaken payloadLen (data.length + (min d.length 64 - 1)) ds) =
          (data ++ chunk).length +
            broughtBy (continuationsTaken payloadLen (data ++ chunk).length ds) := by
        rw [← hdata, broughtBy, List.map_cons, List.sum_cons, broughtBy, Nat.add_assoc]
      rw [hstep, hsum]
      rw [hdata] at hne hmarked
      exact ih buf' (fun d' hd' => hne d' (List.mem_cons_of_mem d hd'))
        fun hc d' hd' => hmarked hc d' (List.mem_cons_of_mem d hd')
    · exact Or.inl ⟨by omega, data, _, continuations_done hlt⟩

/-- The first continuation that is not accepted decides how the loop ends. -/
theorem continuations_refused (buf : Packet) {ds : List (List UInt8)} {P : Fail → Prop}
    {bad : List UInt8 → Prop}
    (hbad : ∀ buf d, bad d → ∃ e, c.continuation buf d = .error e ∧ P e)
    (hgood : ∀ d, ¬ bad d → d ≠ [] ∧ (c.checksContinuations = true → Marked d))
    (h : ∃ d ∈ continuationsTaken payloadLen data.length ds, bad d) :
    ∃ e rest, c.continuations payloadLen (deliveries ds) buf data = (.error e, rest) ∧ P e := by
  induction ds generalizing buf data with
  | nil =>
    obtain ⟨d, hd, -⟩ := h
    cases hd
  | cons d ds ih =>
    by_cases hlt : data.length < payloadLen
    · rw [continuationsTaken, if_pos hlt] at h
      rw [deliveries, List.map_cons, continuations, if_pos hlt]
      by_cases hd : bad d
      · obtain ⟨e, he, hP⟩ := hbad buf d hd
        exact ⟨e, _, by rw [he], hP⟩
      · obtain ⟨buf', chunk, hchunk, hlen⟩ := continuation_chunk (c := c) buf (hgood d hd).1
          (hgood d hd).2
        rw [hchunk]
        obtain ⟨d', hd', hbad'⟩ := h
        rcases List.mem_cons.1 hd' with rfl | hd'
        · exact absurd hbad' hd
        · refine ih buf' ⟨d', ?_, hbad'⟩
          rwa [List.length_append, hlen]
    · rw [continuationsTaken, if_neg hlt] at h
      obtain ⟨d', hd', -⟩ := h
      cases hd'

/-! ## The first packet -/

/-- No receiver panics on a first packet, and all take the same ones. -/
theorem opening_cases (d : List UInt8) :
    (∃ first, ∀ c : Receiver, c.opening d = .ok first) ∨
      ∀ c : Receiver, ∃ message, c.opening d = .error (.err message) := by
  by_cases hbad : (recvInto (Buf.zero 64) d).1 < 9 ∨ (recvInto (Buf.zero 64) d).2.get 0 ≠ 0x3F ∨
      (recvInto (Buf.zero 64) d).2.get 1 ≠ 0x23 ∨ (recvInto (Buf.zero 64) d).2.get 2 ≠ 0x23
  · refine Or.inr fun c => ⟨c.invalidFirst (recvInto (Buf.zero 64) d).1, ?_⟩
    rw [opening]
    simp only [if_pos hbad]
  · have hn : 9 ≤ (recvInto (Buf.zero 64) d).1 := by
      by_contra hlt
      exact hbad (Or.inl (Nat.lt_of_not_le hlt))
    have hslice := slice_of_le (l := (recvInto (Buf.zero 64) d).2.bytes) (i := 9)
      (j := min (recvInto (Buf.zero 64) d).1 64) (by omega) (by
        rw [(recvInto (Buf.zero 64) d).2.length_eq]
        omega)
    obtain ⟨first, hfirst⟩ : ∃ first, debugReceiver.opening d = .ok first := by
      rw [opening]
      simp only [if_neg hbad, hslice]
      exact ⟨_, rfl⟩
    exact Or.inl ⟨first, fun c => opening_unchecked hfirst⟩

theorem receive_of_opening_error {e : Fail} {ds : List (List UInt8)} (h : c.opening d = .error e) :
    c.receive (deliveries (d :: ds)) = (.error e, deliveries ds) := by
  rw [deliveries, List.map_cons, receive, h]
  rfl

end Receiver

/-! ## The three of them -/

/-- A receiving call that returns `Err`; one that still waits for a datagram does so at its
deadline. -/
def FailsToReceive (r : Except Fail RawMessage × List Delivery) : Prop :=
  (∃ message, r.1 = .error (.err message)) ∨ r.1 = .error .pending

/-- Two receivers give the same message after the same datagrams, or both fail. -/
def SameOutcome (r r' : Except Fail RawMessage × List Delivery) : Prop :=
  (∃ m rest, r = (.ok m, rest) ∧ r' = (.ok m, rest)) ∨ FailsToReceive r ∧ FailsToReceive r'

/-- What the receive code of `send_and_recv` and of a round of `recv_with_confirm` is to make of some
datagrams: what `recv_message` makes of them. -/
def Agree (ds : List (List UInt8)) : Prop :=
  SameOutcome (recvMessage (deliveries ds)) (recvFut (deliveries ds)) ∧
    SameOutcome (recvMessage (deliveries ds)) (roundFut (deliveries ds))

/-- No empty datagram comes where a continuation is expected; and when the continuations complete
the payload, each has its marker. -/
def WellMarked (ds : List (List UInt8)) : Prop :=
  ∀ d rest, ds = d :: rest → ∀ first, debugReceiver.opening d = .ok first →
    (∀ d' ∈ continuationsTaken first.payloadLen first.chunk.length rest, d' ≠ []) ∧
    (first.payloadLen ≤ first.chunk.length +
        broughtBy (continuationsTaken first.payloadLen first.chunk.length rest) →
      ∀ d' ∈ continuationsTaken first.payloadLen first.chunk.length rest, Marked d')

section Agreement

variable {c : Receiver} {d : List UInt8} {ds : List (List UInt8)} {first : Receiver.Opening}

theorem receive_of_opening_ok {full : List UInt8} {rest : List Delivery}
    (h : c.opening d = .ok first)
    (hcont : c.continuations first.payloadLen (deliveries ds) first.buf first.chunk =
      (.ok full, rest)) :
    c.receive (deliveries (d :: ds)) = (.ok ⟨first.msgType, full.take first.payloadLen⟩, rest) :=
  Receiver.receive_ok_iff.2 ⟨first, full, h, hcont, rfl⟩

theorem receive_of_continuations_error {e : Fail} {rest : List Delivery}
    (h : c.opening d = .ok first)
    (hcont : c.continuations first.payloadLen (deliveries ds) first.buf first.chunk =
      (.error e, rest)) :
    c.receive (deliveries (d :: ds)) = (.error e, rest) := by
  rw [deliveries, List.map_cons, Receiver.receive, h]
  simp only [show ds.map Delivery.datagram = deliveries ds from rfl, hcont]

/-- What `WellMarked` asks for behind a valid first packet. -/
theorem wellMarked_cons_iff (hopen : debugReceiver.opening d = .ok first) :
    WellMarked (d :: ds) ↔
      (∀ d' ∈ continuationsTaken first.payloadLen first.chunk.length ds, d' ≠ []) ∧
      (first.payloadLen ≤ first.chunk.length +
          broughtBy (continuationsTaken first.payloadLen first.chunk.length ds) →
        ∀ d' ∈ continuationsTaken first.payloadLen first.chunk.length ds, Marked d') := by
  constructor
  · intro h
    exact h d ds rfl first hopen
  · intro h d' rest hcons first' hopen'
    cases hcons
    cases hopen.symm.trans hopen'
    exact h

theorem not_failsToReceive_ok {m : RawMessage} {rest : List Delivery} :
    ¬ FailsToReceive (.ok m, rest) := by
  rintro (⟨message, herr⟩ | hpending)
  · cases herr
  · cases hpending

/-- On an empty continuation the unchecked loop panics. -/
theorem not_sameOutcome_of_empty (hc : c.checksContinuations = false)
    (hopen : ∀ c : Receiver, c.opening d = .ok first)
    (hempty : ∃ d' ∈ continuationsTaken first.payloadLen first.chunk.length ds, d' = []) :
    ¬ SameOutcome (debugReceiver.receive (deliveries (d :: ds)))
      (c.receive (deliveries (d :: ds))) := by
  have hpanics : ∀ buf d', d' = [] →
      ∃ e, c.continuation buf d' = .error e ∧ e = .panic .sliceRange := by
    rintro buf d' rfl
    exact ⟨_, Receiver.continuation_empty hc, rfl⟩
  have hgood : ∀ d' : List UInt8, ¬ d' = [] → d' ≠ [] ∧ (c.checksContinuations = true → Marked d') :=
    fun d' hd' => ⟨hd', by simp [hc]⟩
  obtain ⟨e, rest, hcont, rfl⟩ := Receiver.continuations_refused first.buf hpanics hgood hempty
  rw [receive_of_continuations_error (hopen c) hcont]
  rintro (⟨m, rest, -, hok⟩ | ⟨-, hfails⟩)
  · cases hok
  · rcases hfails with ⟨message, herr⟩ | hpending
    · cases herr
    · cases hpending

/-- Where every continuation has its marker, the checks change nothing. -/
theorem sameOutcome_of_marked (hc : c.checksContinuations = false)
    (hopen : ∀ c : Receiver, c.opening d = .ok first)
    (hmarked : ∀ d' ∈ continuationsTaken first.payloadLen first.chunk.length ds, Marked d') :
    SameOutcome (debugReceiver.receive (deliveries (d :: ds)))
      (c.receive (deliveries (d :: ds))) := by
  have hne : ∀ d' ∈ continuationsTaken first.payloadLen first.chunk.length ds, d' ≠ [] :=
    fun d' hd' => (hmarked d' hd').ne_nil
  have hwire := Receiver.continuations_accepted (c := c) first.buf hne (by simp [hc])
  rcases Receiver.continuations_accepted (c := debugReceiver) first.buf hne (fun _ => hmarked) with
    ⟨-, full, rest, hcont⟩ | ⟨hshort, hcont⟩
  · have hok := receive_of_opening_ok (hopen debugReceiver) hcont
    exact Or.inl ⟨_, _, hok, Receiver.receive_unchecked hc hok⟩
  · rcases hwire with ⟨hfull, -⟩ | ⟨-, hcont'⟩
    · exact absurd hfull (Nat.not_le.2 hshort)
    · rw [receive_of_continuations_error (hopen _) hcont,
        receive_of_continuations_error (hopen c) hcont']
      exact Or.inr ⟨Or.inr rfl, Or.inr rfl⟩

/-- On a wrong marker the checked loop fails; the unchecked one does not, unless it is still
waiting for the rest of the payload. -/
theorem sameOutcome_of_unmarked (hc : c.checksContinuations = false)
    (hopen : ∀ c : Receiver, c.opening d = .ok first)
    (hne : ∀ d' ∈ continuationsTaken first.payloadLen first.chunk.length ds, d' ≠ [])
    (hmarked : ¬ ∀ d' ∈ continuationsTaken first.payloadLen first.chunk.length ds, Marked d') :
    SameOutcome (debugReceiver.receive (deliveries (d :: ds)))
        (c.receive (deliveries (d :: ds))) ↔
      ¬ first.payloadLen ≤ first.chunk.length +
        broughtBy (continuationsTaken first.payloadLen first.chunk.length ds) := by
  have hrefuses : ∀ buf d', ¬ Marked d' →
      ∃ e, debugReceiver.continuation buf d' = .error e ∧ ∃ message, e = .err message := by
    intro buf d' hd'
    obtain ⟨message, he⟩ := Receiver.continuation_unmarked (c := debugReceiver) rfl hd'
    exact ⟨_, he, message, rfl⟩
  have hgood : ∀ d' : List UInt8, ¬ ¬ Marked d' →
      d' ≠ [] ∧ (debugReceiver.checksContinuations = true → Marked d') :=
    fun d' hd' => ⟨(not_not.1 hd').ne_nil, fun _ => not_not.1 hd'⟩
  have hbad : ∃ d' ∈ continuationsTaken first.payloadLen first.chunk.length ds, ¬ Marked d' := by
    simpa using hmarked
  obtain ⟨_, rest, hcont, message, rfl⟩ :=
    Receiver.continuations_refused first.buf hrefuses hgood hbad
  rw [receive_of_continuations_error (hopen _) hcont]
  rcases Receiver.continuations_accepted (c := c) first.buf hne (by simp [hc]) with
    ⟨hfull, full, rest', hcont'⟩ | ⟨hshort, hcont'⟩
  · rw [receive_of_opening_ok (hopen c) hcont']
    refine iff_of_false ?_ (not_not.2 hfull)
    rintro (⟨m, rest, hok, -⟩ | ⟨-, hfails⟩)
    · cases hok
    · exact not_failsToReceive_ok hfails
  · rw [receive_of_continuations_error (hopen c) hcont']
    exact iff_of_true (Or.inr ⟨Or.inl ⟨message, rfl⟩, Or.inr rfl⟩) (Nat.not_le.2 hshort)

/-- Against a receiver that looks at no marker, the debug link's agrees on well-marked datagrams
only. -/
theorem sameOutcome_iff (hc : c.checksContinuations = false) (ds : List (List UInt8)) :
    SameOutcome (debugReceiver.receive (deliveries ds)) (c.receive (deliveries ds)) ↔
      WellMarked ds := by
  cases ds with
  | nil =>
    refine iff_of_true (Or.inr ⟨Or.inr rfl, Or.inr rfl⟩) ?_
    intro d rest h
    cases h
  | cons d ds =>
    rcases Receiver.opening_cases d with ⟨first, hopen⟩ | hbad
    · rw [wellMarked_cons_iff (hopen debugReceiver)]
      by_cases hempty : ∃ d' ∈ continuationsTaken first.payloadLen first.chunk.length ds, d' = []
      · refine iff_of_false (not_sameOutcome_of_empty hc hopen hempty) ?_
        rintro ⟨hne, -⟩
        obtain ⟨d', hd', hnil⟩ := hempty
        exact hne d' hd' hnil
      · have hne : ∀ d' ∈ continuationsTaken first.payloadLen first.chunk.length ds, d' ≠ [] :=
          fun d' hd' hnil => hempty ⟨d', hd', hnil⟩
        by_cases hmarked : ∀ d' ∈ continuationsTaken first.payloadLen first.chunk.length ds, Marked d'
        · exact iff_of_true (sameOutcome_of_marked hc hopen hmarked) ⟨hne, fun _ => hmarked⟩
        · rw [sameOutcome_of_unmarked hc hopen hne hmarked]
          constructor
          · intro hshort
            exact ⟨hne, fun hfull => absurd hfull hshort⟩
          · rintro ⟨-, hfull⟩ hle
            exact hmarked (hfull hle)
    · obtain ⟨message, hopen⟩ := hbad debugReceiver
      obtain ⟨message', hopen'⟩ := hbad c
      refine iff_of_true ?_ ?_
      · rw [Receiver.receive_of_opening_error hopen, Receiver.receive_of_opening_error hopen']
        exact Or.inr ⟨Or.inl ⟨message, rfl⟩, Or.inl ⟨message', rfl⟩⟩
      · intro d' rest hcons first hfirst
        cases hcons
        rw [hopen] at hfirst
        cases hfirst

end Agreement

/-- The three reassemblers agree on exactly the well-marked sequences of datagrams. -/
theorem agree_iff (ds : List (List UInt8)) : Agree ds ↔ WellMarked ds := by
  have h := sameOutcome_iff (c := wireReceiver) rfl ds
  rw [Agree, recvMessage_eq, recvFut, roundFut, h, and_self]

/-- A first packet that announces 56 bytes, and a continuation without its marker. -/
def unmarkedContinuation : List (List UInt8) :=
  [[0x3F, 0x23, 0x23, 0, 2, 0, 0, 0, 56] ++ List.replicate 55 0, [0, 0xAA]]

/-- Behind the same first packet, an empty datagram. -/
def emptyContinuation : List (List UInt8) :=
  [[0x3F, 0x23, 0x23, 0, 2, 0, 0, 0, 56] ++ List.replicate 55 0, []]

/-- The wire client takes a continuation without its marker, and panics on an empty datagram. -/
theorem not_agree_unmarkedContinuation :
    (recvFut (deliveries unmarkedContinuation)).1 = .ok ⟨2, List.replicate 55 0 ++ [0xAA]⟩ ∧
      (recvFut (deliveries emptyContinuation)).1 = .error (.panic .sliceRange) ∧
      ¬ ∀ ds, (∀ d ∈ ds, d.length ≤ 64) → Agree ds := by
  have hok : (recvFut (deliveries unmarkedContinuation)).1 =
      .ok ⟨2, List.replicate 55 0 ++ [0xAA]⟩ := by decide +kernel
  have hpanic : (recvFut (deliveries emptyContinuation)).1 = .error (.panic .sliceRange) := by
    decide +kernel
  refine ⟨hok, hpanic, fun hall => ?_⟩
  rcases (hall emptyContinuation (by decide)).1 with ⟨m, rest, -, hfut⟩ | ⟨-, hfails⟩
  · rw [hfut] at hpanic
    cases hpanic
  · rw [FailsToReceive, hpanic] at hfails
    rcases hfails with ⟨message, herr⟩ | hpending
    · cases herr
    · cases hpending

end Hwwctl.Protocol
