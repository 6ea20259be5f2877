import Hwwctl.Bridge.Proofs.StopProofs
import Hwwctl.Bridge.Sessions

/-!
# How many devices a bridge has

A start adds a device; nothing else does. The flag that is to keep a second start away is cleared by
a task that ends while the device thread of its start goes on, and then a start passes. Where the
flag is and which devices are closed can be read off the starts, the stops and what the tasks and
threads have met, so it is these that say whether there is ever a second device.
-/

namespace Hwwctl.Bridge

open Transition

variable {σ α : Type} {k : BridgeKind σ α} {b b' : BridgeState σ} {a : BridgeAct α}

/-- What a kind of bridge keeps to: a thread that has exited stays so. -/
structure BridgeKind.Lawful (k : BridgeKind σ α) : Prop where
  start : (k.thread k.start).alive = true
  step : ∀ x a x', k.step x a = some x' → (k.thread x').alive = true → (k.thread x).alive = true
  stop : ∀ x, (k.thread (k.stop x)).alive = (k.thread x).alive

/-- The steps of a bridge. -/
inductive BridgeSteps (k : BridgeKind σ α) (b : BridgeState σ) :
    BridgeAct α → BridgeState σ → Prop where
  | refused {created : Bool} (h : b.running = true ∨ created = false) :
    BridgeSteps k b (.start created) b
  | start (h : b.running = false) : BridgeSteps k b (.start true)
      { b with running := true, sessions := b.sessions ++ [k.start] }
  | session {i : Nat} {a : α} {x x' : σ} (hget : b.sessions[i]? = some x)
    (h : k.step x a = some x') : BridgeSteps k b (.session i a)
      { b with running := b.running && !k.clearsRunning a, sessions := b.sessions.set i x' }
  | stop : BridgeSteps k b .stop { b with stopping := true, sessions := b.sessions.map k.stop }
  | stopEnds (h : ∀ x ∈ b.sessions, k.awaited x = true) :
    BridgeSteps k b .stopEnds { b with stopping := false, running := false }

theorem bridge_step_cases (h : b.step k a = some b') : BridgeSteps k b a b' := by
  cases a with
  | start created =>
    simp only [BridgeState.step] at h
    split at h
    · split at h
      · rename_i hrefused
        cases h
        exact .refused (hrefused.imp id Bool.eq_false_iff.2)
      · rename_i hpasses
        cases h
        obtain ⟨hrunning, hcreated⟩ := not_or.1 hpasses
        obtain rfl : created = true := not_not.1 hcreated
        exact .start (Bool.eq_false_iff.2 hrunning)
    · cases h
  | session i a =>
    simp only [BridgeState.step] at h
    split at h
    · obtain ⟨x', hstep, rfl⟩ := Option.map_eq_some_iff.1 h
      exact .session ‹_› hstep
    · cases h
  | stop =>
    simp only [BridgeState.step] at h
    split at h <;> cases h
    exact .stop
  | stopEnds =>
    simp only [BridgeState.step] at h
    split at h
    · rename_i hwaited
      cases h
      exact .stopEnds (List.all_eq_true.1 hwaited.2)
    · cases h

/-- Replacing an element by one that counts no more. -/
theorem countP_set_le {p : σ → Bool} {l : List σ} {i : Nat} {x x' : σ} (hget : l[i]? = some x)
    (h : p x' = true → p x = true) : (l.set i x').countP p ≤ l.countP p := by
  obtain ⟨hi, rfl⟩ := List.getElem?_eq_some_iff.1 hget
  rw [List.countP_set hi]
  by_cases hx' : p x' = true
  · have hx := h hx'
    have hpos : 0 < l.countP p := List.countP_pos_iff.2 ⟨_, List.getElem_mem hi, hx⟩
    rw [if_pos hx, if_pos hx']
    omega
  · rw [if_neg hx']
    omega

/-- A start that passes adds a device. -/
theorem BridgeSteps.start_live (hk : k.Lawful) (h : BridgeSteps k b (.start true) b')
    (hrunning : b.running = false) : b'.live k = b.live k + 1 := by
  cases h with
  | refused h =>
    rw [hrunning] at h
    simp at h
  | start =>
    rw [BridgeState.live, List.countP_append, List.countP_singleton, if_pos hk.start]
    rfl

/-- Nothing else does. -/
theorem BridgeSteps.live_le (hk : k.Lawful) (h : BridgeSteps k b a b')
    (hstart : ¬ (a = .start true ∧ b.running = false)) : b'.live k ≤ b.live k := by
  cases h with
  | refused => exact Nat.le_refl _
  | start h => exact absurd ⟨rfl, h⟩ hstart
  | session hget h => exact countP_set_le hget (hk.step _ _ _ h)
  | stop =>
    refine Nat.le_of_eq ?_
    rw [BridgeState.live, List.countP_map]
    exact List.countP_congr fun x _ => by rw [Function.comp_apply, hk.stop]
  | stopEnds => exact Nat.le_refl _

/-- A start that passes finds no device thread alive. -/
def StartsAlone (k : BridgeKind σ α) (b : BridgeState σ) (a : BridgeAct α) : Prop :=
  a = .start true ∧ b.running = false → b.live k = 0

/-- There is at most one device in every state exactly when every start that passes the flag finds
no device thread alive. -/
theorem live_le_one_iff_startsAlone (hk : k.Lawful) {acts : List (BridgeAct α)} :
    Always (BridgeState.step k) (fun b => b.live k ≤ 1) .new acts ↔
      Guarded (BridgeState.step k) (StartsAlone k) .new acts := by
  constructor
  · rintro hall p a hp b b' hrun ha ⟨rfl, hrunning⟩
    have hrun' : run (BridgeState.step k) .new (p ++ [.start true]) = some b' := by
      rw [run_concat, hrun]
      exact ha
    have hafter : b'.live k ≤ 1 := hall _ hp b' hrun'
    have hlive := (bridge_step_cases ha).start_live hk hrunning
    omega
  · intro hguard
    refine hguard.always (Nat.zero_le 1) fun b a b' hb hC ha => ?_
    have hstep := bridge_step_cases ha
    by_cases hstart : a = .start true ∧ b.running = false
    · have hlive := hC hstart
      obtain ⟨rfl, hrunning⟩ := hstart
      exact Nat.le_of_eq (by rw [hstep.start_live hk hrunning, hlive])
    · exact Nat.le_trans (hstep.live_le hk hstart) hb

/-! ## What the events say -/

/-- What the steps of a kind of bridge tell of its devices. -/
structure DeviceEvents (α : Type) where
  /-- The device thread's part in a step. -/
  thread : α → Option ThreadAct
  /-- From the step on nobody takes the host's reports. -/
  unheard : α → Bool
  /-- The wait in `stop` lasts until the device threads have ended. -/
  closes : Bool

/-- Where the flag is after these events, and how many devices they have created. -/
def flagAndDevices (clears : α → Bool) (p : List (BridgeAct α)) : Bool × Nat :=
  p.foldl (fun (up, n) a =>
    match a with
    | .start true => (true, if up then n else n + 1)
    | .start false => (up, n)
    | .session _ c => (up && !clears c, n)
    | .stop => (up, n)
    | .stopEnds => (false, n)) (false, 0)

/-- A start passes after these events. -/
def Passes (clears : α → Bool) (p : List (BridgeAct α)) : Prop :=
  (flagAndDevices clears p).1 = false

def devices (clears : α → Bool) (p : List (BridgeAct α)) : Nat := (flagAndDevices clears p).2

/-- The thread of device `i` ended by itself: writing to or polling the device failed, or a report
of the host came when nobody took it any more. -/
def EndsItself (E : DeviceEvents α) (p : List (BridgeAct α)) (i : Nat) : Prop :=
  (∃ c, .session i c ∈ p ∧ (E.thread c = some .writeFails ∨ E.thread c = some .pollFails)) ∨
    ∃ q c report, q ++ [.session i c] <+: p ∧ E.thread c = some (.poll (some report)) ∧
      ∃ c', .session i c' ∈ q ∧ E.unheard c' = true

/-- A stop that waits for the devices has come to its end after device `i` was created. -/
def ClosedByStop (clears : α → Bool) (E : DeviceEvents α) (p : List (BridgeAct α)) (i : Nat) :
    Prop :=
  E.closes = true ∧ ∃ q, q ++ [.stopEnds] <+: p ∧ i < devices clears q

/-- Whenever a start passes, each device created before has been closed by a stop or has ended by
itself. -/
def ReplacesEnded (clears : α → Bool) (E : DeviceEvents α) (acts : List (BridgeAct α)) : Prop :=
  ∀ p, p ++ [.start true] <+: acts → Passes clears p → ∀ i < devices clears p,
    ClosedByStop clears E p i ∨ EndsItself E p i

/-- How the events of a kind of bridge bear on what a start leaves running. -/
structure BridgeKind.Told (k : BridgeKind σ α) (E : DeviceEvents α) where
  /-- A stop has reached it. -/
  told : σ → Prop
  /-- Nobody takes the host's reports. -/
  unheard : σ → Prop
  start_told : ¬ told k.start
  start_unheard : ¬ unheard k.start
  awaited : E.closes = true → ∀ x, k.awaited x = true → (k.thread x).alive = false
  stop : E.closes = false → ∀ x, (told (k.stop x) ↔ told x) ∧ (unheard (k.stop x) ↔ unheard x)
  step_told : ∀ x a x', k.step x a = some x' → ¬ told x → ¬ told x'
  step_unheard : ∀ x a x', k.step x a = some x' → ¬ told x → (k.thread x').alive = true →
    (unheard x' ↔ unheard x ∨ E.unheard a = true)
  step_alive : ∀ x a x', k.step x a = some x' → ¬ told x → (k.thread x).alive = true →
    ((k.thread x').alive = false ↔ E.thread a = some .writeFails ∨ E.thread a = some .pollFails ∨
      ∃ report, E.thread a = some (.poll (some report)) ∧ unheard x)

section Events

variable {E : DeviceEvents α} {clears : α → Bool} {p : List (BridgeAct α)} {i : Nat}

theorem flagAndDevices_concat (a : BridgeAct α) : flagAndDevices clears (p ++ [a]) =
    match a with
    | .start true => (true, if (flagAndDevices clears p).1 then devices clears p
        else devices clears p + 1)
    | .start false => flagAndDevices clears p
    | .session _ c => ((flagAndDevices clears p).1 && !clears c, devices clears p)
    | .stop => flagAndDevices clears p
    | .stopEnds => (false, devices clears p) := by
  rw [flagAndDevices, List.foldl_append]
  cases a with
  | start created => cases created <;> rfl
  | _ => rfl

theorem mem_session_concat {a : BridgeAct α} {c : α} :
    .session i c ∈ p ++ [a] ↔ .session i c ∈ p ∨ a = .session i c := by
  rw [List.mem_append, List.mem_singleton, eq_comm (a := a)]

theorem concat_prefix_concat {q : List (BridgeAct α)} {a b : BridgeAct α} :
    q ++ [b] <+: p ++ [a] ↔ q ++ [b] <+: p ∨ q = p ∧ b = a := by
  rw [List.prefix_concat_iff]
  simp only [List.append_singleton_inj, or_comm]

theorem endsItself_concat (a : BridgeAct α) : EndsItself E (p ++ [a]) i ↔ EndsItself E p i ∨
    ∃ c, a = .session i c ∧ (E.thread c = some .writeFails ∨ E.thread c = some .pollFails ∨
      ∃ report, E.thread c = some (.poll (some report)) ∧
        ∃ c', .session i c' ∈ p ∧ E.unheard c' = true) := by
  constructor
  · rintro (⟨c, hc, hfails⟩ | ⟨q, c, report, hq, hpoll, hunheard⟩)
    · rcases mem_session_concat.1 hc with hc | rfl
      · exact .inl (.inl ⟨c, hc, hfails⟩)
      · exact .inr ⟨c, rfl, by tauto⟩
    · rcases concat_prefix_concat.1 hq with hq | ⟨rfl, rfl⟩
      · exact .inl (.inr ⟨q, c, report, hq, hpoll, hunheard⟩)
      · exact .inr ⟨c, rfl, .inr (.inr ⟨report, hpoll, hunheard⟩)⟩
  · rintro ((⟨c, hc, hfails⟩ | ⟨q, c, report, hq, hpoll, hunheard⟩) |
      ⟨c, rfl, hfails | hfails | ⟨report, hpoll, hunheard⟩⟩)
    · exact .inl ⟨c, mem_session_concat.2 (.inl hc), hfails⟩
    · exact .inr ⟨q, c, report, hq.trans (List.prefix_append _ _), hpoll, hunheard⟩
    · exact .inl ⟨c, mem_session_concat.2 (.inr rfl), .inl hfails⟩
    · exact .inl ⟨c, mem_session_concat.2 (.inr rfl), .inr hfails⟩
    · exact .inr ⟨p, c, report, List.prefix_refl _, hpoll, hunheard⟩

theorem closedByStop_concat (a : BridgeAct α) : ClosedByStop clears E (p ++ [a]) i ↔
    ClosedByStop clears E p i ∨ E.closes = true ∧ a = .stopEnds ∧ i < devices clears p := by
  simp only [ClosedByStop, concat_prefix_concat]
  constructor
  · rintro ⟨hcloses, q, hq | ⟨rfl, rfl⟩, hi⟩
    · exact .inl ⟨hcloses, q, hq, hi⟩
    · exact .inr ⟨hcloses, rfl, hi⟩
  · rintro (⟨hcloses, q, hq, hi⟩ | ⟨hcloses, rfl, hi⟩)
    · exact ⟨hcloses, q, .inl hq, hi⟩
    · exact ⟨hcloses, p, .inr ⟨rfl, rfl⟩, hi⟩

/-! ## The events and the states -/

/-- What the events say of what start `i` left running. -/
structure Follows (k : BridgeKind σ α) (E : DeviceEvents α) (T : k.Told E) (stopping : Bool)
    (p : List (BridgeAct α)) (i : Nat) (x : σ) : Prop where
  closed : ClosedByStop k.clearsRunning E p i → (k.thread x).alive = false
  untold : (E.closes = true ∧ (stopping = true ∨ ClosedByStop k.clearsRunning E p i)) ∨
    ¬ T.told x ∧
      ((k.thread x).alive = true → (T.unheard x ↔ ∃ c, .session i c ∈ p ∧ E.unheard c = true)) ∧
      ((k.thread x).alive = false ↔ EndsItself E p i)

variable {T : k.Told E} {x x' : σ} {stopping : Bool}

/-- A step of another part says nothing of it. -/
theorem Follows.aside (h : Follows k E T stopping p i x) {a : BridgeAct α}
    (hsession : ∀ c, a ≠ .session i c) (hends : a ≠ .stopEnds) :
    Follows k E T stopping (p ++ [a]) i x := by
  have hclosed : ClosedByStop k.clearsRunning E (p ++ [a]) i ↔
      ClosedByStop k.clearsRunning E p i := by
    rw [closedByStop_concat]
    exact or_iff_left fun h => hends h.2.1
  have hitself : EndsItself E (p ++ [a]) i ↔ EndsItself E p i := by
    rw [endsItself_concat]
    exact or_iff_left fun ⟨c, hc, _⟩ => hsession c hc
  have hmem : ∀ c, .session i c ∈ p ++ [a] ↔ .session i c ∈ p := by
    intro c
    rw [mem_session_concat]
    exact or_iff_left (hsession c)
  refine ⟨fun hc => h.closed (hclosed.1 hc), ?_⟩
  simp only [hclosed, hitself, hmem]
  exact h.untold

/-- What its own step says. -/
theorem Follows.own (hk : k.Lawful) (h : Follows k E T stopping p i x) {c : α}
    (hstep : k.step x c = some x') : Follows k E T stopping (p ++ [.session i c]) i x' := by
  have hclosed : ClosedByStop k.clearsRunning E (p ++ [.session i c]) i ↔
      ClosedByStop k.clearsRunning E p i := by
    rw [closedByStop_concat]
    exact or_iff_left fun h => by simp at h
  have hdead : (k.thread x).alive = false → (k.thread x').alive = false := by
    intro hx
    by_contra hx'
    have halive := hk.step _ _ _ hstep (by simpa using hx')
    rw [hx] at halive
    cases halive
  refine ⟨fun hc => hdead (h.closed (hclosed.1 hc)), ?_⟩
  rw [hclosed]
  rcases h.untold with hleft | ⟨htold, hunheard, halive⟩
  · exact .inl hleft
  · refine .inr ⟨T.step_told _ _ _ hstep htold, fun hx' => ?_, ?_⟩
    · have hx : (k.thread x).alive = true := hk.step _ _ _ hstep hx'
      rw [T.step_unheard _ _ _ hstep htold hx', hunheard hx]
      simp only [mem_session_concat, BridgeAct.session.injEq, true_and]
      constructor
      · rintro (⟨c', hc', hun⟩ | hun)
        · exact ⟨c', .inl hc', hun⟩
        · exact ⟨c, .inr rfl, hun⟩
      · rintro ⟨c', hc' | rfl, hun⟩
        · exact .inl ⟨c', hc', hun⟩
        · exact .inr hun
    · rw [endsItself_concat]
      cases hx : (k.thread x).alive with
      | false => exact ⟨fun _ => .inl (halive.1 hx), fun _ => hdead hx⟩
      | true =>
        have hnot : ¬ EndsItself E p i := by
          rw [← halive, hx]
          simp
        rw [T.step_alive _ _ _ hstep htold hx, hunheard hx]
        simp only [hnot, false_or, BridgeAct.session.injEq, true_and]
        exact ⟨fun h => ⟨c, rfl, h⟩, fun ⟨_, hc, h⟩ => hc ▸ h⟩

/-- `stop` tells it to end, if the bridge waits for that. -/
theorem Follows.stopped (hk : k.Lawful) (h : Follows k E T stopping p i x) :
    Follows k E T true (p ++ [.stop]) i (k.stop x) := by
  have hlater := h.aside (a := .stop) (by simp) (by simp)
  refine ⟨fun hc => (hk.stop x).trans (hlater.closed hc), ?_⟩
  rcases hlater.untold with ⟨hcloses, -⟩ | ⟨htold, hunheard, halive⟩
  · exact .inl ⟨hcloses, .inl rfl⟩
  · cases hcloses : E.closes with
    | true => exact .inl ⟨rfl, .inl rfl⟩
    | false =>
      obtain ⟨htold', hunheard'⟩ := T.stop hcloses x
      rw [hk.stop, htold', hunheard']
      exact .inr ⟨htold, hunheard, halive⟩

/-- At the end of a stop that waited for it, it has ended. -/
theorem Follows.waited (h : Follows k E T stopping p i x) (hi : i < devices k.clearsRunning p)
    (hawaited : k.awaited x = true) : Follows k E T false (p ++ [.stopEnds]) i x := by
  have hitself : EndsItself E (p ++ [.stopEnds]) i ↔ EndsItself E p i := by
    rw [endsItself_concat]
    exact or_iff_left fun ⟨c, hc, _⟩ => by simp at hc
  have hmem : ∀ c, .session i c ∈ p ++ [.stopEnds] ↔ .session i c ∈ p := by
    intro c
    rw [mem_session_concat]
    exact or_iff_left (by simp)
  cases hcloses : E.closes with
  | true =>
    have hclosed : ClosedByStop k.clearsRunning E (p ++ [.stopEnds]) i :=
      (closedByStop_concat _).2 (.inr ⟨hcloses, rfl, hi⟩)
    exact ⟨fun _ => T.awaited hcloses x hawaited, .inl ⟨hcloses, .inr hclosed⟩⟩
  | false =>
    refine ⟨fun hc => absurd hc.1 (by rw [hcloses]; simp), .inr ?_⟩
    simp only [hitself, hmem]
    exact h.untold.resolve_left fun hleft => absurd hleft.1 (by rw [hcloses]; simp)

theorem devices_mono {q : List (BridgeAct α)} (h : q <+: p) :
    devices clears q ≤ devices clears p := by
  obtain ⟨r, rfl⟩ := h
  induction r using List.reverseRecOn with
  | nil => simp only [List.append_nil, Nat.le_refl]
  | append_singleton r a ih =>
    refine Nat.le_trans ih ?_
    rw [← List.append_assoc, devices, devices, flagAndDevices_concat]
    cases a with
    | start created =>
      cases created with
      | false => exact Nat.le_refl _
      | true =>
        simp only [devices]
        split <;> omega
    | _ => exact Nat.le_refl _

theorem EndsItself.mem (h : EndsItself E p i) : ∃ c, .session i c ∈ p := by
  rcases h with ⟨c, hc, -⟩ | ⟨q, c, -, hq, -⟩
  · exact ⟨c, hc⟩
  · exact ⟨c, hq.subset (List.mem_append_right _ List.mem_cons_self)⟩

/-- What is known after some events. -/
structure Followed (k : BridgeKind σ α) (E : DeviceEvents α) (T : k.Told E) (p : List (BridgeAct α))
    (b : BridgeState σ) : Prop where
  running : b.running = (flagAndDevices k.clearsRunning p).1
  created : b.sessions.length = devices k.clearsRunning p
  known : ∀ i c, .session i c ∈ p → i < b.sessions.length
  sessions : ∀ i x, b.sessions[i]? = some x → Follows k E T b.stopping p i x

/-- The device of a start that passes is new. -/
theorem Followed.fresh (hk : k.Lawful) (hb : Followed k E T p b) :
    Follows k E T stopping (p ++ [.start true]) b.sessions.length k.start := by
  have hnone : ¬ ∃ c, .session b.sessions.length c ∈ p :=
    fun ⟨c, hc⟩ => Nat.lt_irrefl _ (hb.known _ c hc)
  have hmem : ∀ c, .session b.sessions.length c ∉ p ++ [.start true] := by
    intro c hc
    exact hnone ⟨c, (mem_session_concat.1 hc).resolve_right (by simp)⟩
  refine ⟨fun hc => ?_, .inr ⟨T.start_told, fun _ => ?_, ?_⟩⟩
  · obtain ⟨-, q, hq, hlt⟩ := ((closedByStop_concat _).1 hc).resolve_right (by simp)
    have hle : devices k.clearsRunning q ≤ devices k.clearsRunning p :=
      devices_mono ((List.prefix_append _ _).trans hq)
    rw [hb.created] at hlt
    omega
  · exact ⟨fun h => absurd h T.start_unheard, fun ⟨c, hc, _⟩ => absurd hc (hmem c)⟩
  · rw [hk.start]
    refine ⟨fun h => by simp at h, fun h => ?_⟩
    obtain ⟨c, hc⟩ := h.mem
    exact absurd hc (hmem c)

theorem BridgeSteps.followed (hk : k.Lawful) (h : BridgeSteps k b a b')
    (hfree : a = .start true → b.stopping = false) (hb : Followed k E T p b) :
    Followed k E T (p ++ [a]) b' := by
  have hcreated := hb.created
  have hknown : (∀ j c, a ≠ .session j c) →
      ∀ j c, .session j c ∈ p ++ [a] → j < b.sessions.length := by
    intro ha j c hc
    exact hb.known j c ((mem_session_concat.1 hc).resolve_right (ha j c))
  cases h with
  | @refused created h =>
    have hflag : flagAndDevices k.clearsRunning (p ++ [.start created]) =
        flagAndDevices k.clearsRunning p := by
      rw [flagAndDevices_concat]
      cases created with
      | false => rfl
      | true =>
        have hup : (flagAndDevices k.clearsRunning p).1 = true := by
          rw [← hb.running]
          simpa using h
        simp only [hup, if_true]
        exact Prod.ext hup.symm rfl
    refine ⟨by rw [hflag, hb.running], by rw [devices, hflag, hcreated]; rfl, hknown (by simp), ?_⟩
    exact fun i x hx => (hb.sessions i x hx).aside (by simp) (by simp)
  | start h =>
    have hdown : (flagAndDevices k.clearsRunning p).1 = false := by rw [← hb.running, h]
    refine ⟨by rw [flagAndDevices_concat], ?_, ?_, ?_⟩
    · rw [devices, flagAndDevices_concat, hdown, List.length_append, hcreated]
      rfl
    · intro j c hc
      rw [List.length_append]
      exact Nat.lt_add_right _ (hknown (by simp) j c hc)
    · intro i x hx
      rcases Nat.lt_or_ge i b.sessions.length with hi | hi
      · rw [List.getElem?_append_left hi] at hx
        exact (hb.sessions i x hx).aside (by simp) (by simp)
      · rw [List.getElem?_append_right hi] at hx
        rw [List.getElem?_singleton] at hx
        split at hx
        · obtain rfl := Option.some.inj hx
          obtain rfl : i = b.sessions.length := by omega
          exact hb.fresh hk
        · cases hx
  | @session j c x x' hget h =>
    refine ⟨?_, ?_, ?_, ?_⟩
    · rw [flagAndDevices_concat, hb.running]
    · rw [devices, flagAndDevices_concat, List.length_set, hcreated]
    · intro j' c' hc
      rw [List.length_set]
      rcases mem_session_concat.1 hc with hc | heq
      · exact hb.known j' c' hc
      · obtain ⟨rfl, -⟩ := BridgeAct.session.inj heq
        exact (List.getElem?_eq_some_iff.1 hget).1
    · intro i y hy
      by_cases hij : j = i
      · subst hij
        rw [List.getElem?_set_self (List.getElem?_eq_some_iff.1 hget).1] at hy
        obtain rfl := Option.some.inj hy
        exact (hb.sessions j x hget).own hk h
      · rw [List.getElem?_set_ne hij] at hy
        exact (hb.sessions i y hy).aside (fun c' heq => hij (BridgeAct.session.inj heq).1) (by simp)
  | stop =>
    refine ⟨?_, ?_, ?_, ?_⟩
    · rw [flagAndDevices_concat, hb.running]
    · rw [devices, flagAndDevices_concat, List.length_map, hcreated]
      rfl
    · rw [List.length_map]
      exact hknown (by simp)
    · intro i y hy
      rw [List.getElem?_map] at hy
      obtain ⟨x, hx, rfl⟩ := Option.map_eq_some_iff.1 hy
      exact (hb.sessions i x hx).stopped hk
  | stopEnds h =>
    refine ⟨by rw [flagAndDevices_concat], by rw [devices, flagAndDevices_concat, hcreated],
      hknown (by simp), ?_⟩
    intro i x hx
    obtain ⟨hi, -⟩ := List.getElem?_eq_some_iff.1 hx
    exact (hb.sessions i x hx).waited (hcreated ▸ hi) (h x (List.mem_of_getElem? hx))

theorem stopping_of_start {created : Bool} (h : b.step k (.start created) = some b') :
    b.stopping = false := by
  simp only [BridgeState.step] at h
  split at h
  · next hfree =>
    have hboth : (!b.stopping) = true ∧ _ := Bool.and_eq_true_iff.1 hfree
    simpa using hboth.1
  · cases h

theorem followed_of_run (hk : k.Lawful) (T : k.Told E) {acts : List (BridgeAct α)}
    (hrun : run (BridgeState.step k) .new acts = some b) : Followed k E T acts b := by
  refine history_of_step (R := Followed k E T) ?_ ?_ hrun
  · exact ⟨rfl, rfl, by simp, by simp [BridgeState.new]⟩
  · intro p b a b' hb ha
    exact (bridge_step_cases ha).followed hk (fun h => stopping_of_start (h ▸ ha)) hb

/-- When a start is possible, a device is gone exactly when a stop has closed it or it has ended by
itself. -/
theorem Follows.gone_iff (h : Follows k E T false p i x) : (k.thread x).alive = false ↔
    ClosedByStop k.clearsRunning E p i ∨ EndsItself E p i := by
  rcases h.untold with ⟨-, hstopping | hclosed⟩ | ⟨-, -, halive⟩
  · cases hstopping
  · exact ⟨fun _ => .inl hclosed, fun _ => h.closed hclosed⟩
  · rw [halive]
    refine ⟨.inr, fun hor => hor.elim (fun hclosed => ?_) id⟩
    exact halive.1 (h.closed hclosed)

/-- There is at most one device in every state of a run exactly when, whenever a start passes, the
devices before it have been closed by a stop or have ended by themselves. -/
theorem live_le_one_iff_replacesEnded (hk : k.Lawful) (T : k.Told E) {acts : List (BridgeAct α)}
    (hrun : run (BridgeState.step k) .new acts = some b) :
    Always (BridgeState.step k) (fun b => b.live k ≤ 1) .new acts ↔
      ReplacesEnded k.clearsRunning E acts := by
  rw [live_le_one_iff_startsAlone hk]
  have hstarts : ∀ p, p ++ [.start true] <+: acts → ∃ b₁ b₂,
      run (BridgeState.step k) .new p = some b₁ ∧ b₁.step k (.start true) = some b₂ ∧
        (b₁.live k = 0 ↔ ∀ i < devices k.clearsRunning p,
          ClosedByStop k.clearsRunning E p i ∨ EndsItself E p i) := by
    rintro p ⟨r, rfl⟩
    rw [run_append] at hrun
    obtain ⟨b₂, hrun₂, -⟩ := Option.bind_eq_some_iff.1 hrun
    obtain ⟨b₁, hrun₁, hstart⟩ := run_concat_some hrun₂
    have hb := followed_of_run hk T hrun₁
    refine ⟨b₁, b₂, hrun₁, hstart, ?_⟩
    rw [BridgeState.live, List.countP_eq_zero, ← hb.created]
    have hgone : ∀ i (hi : i < b₁.sessions.length), (k.thread b₁.sessions[i]).alive = false ↔
        ClosedByStop k.clearsRunning E p i ∨ EndsItself E p i := by
      intro i hi
      have hfollows := hb.sessions i _ (List.getElem?_eq_getElem hi)
      rw [stopping_of_start hstart] at hfollows
      exact hfollows.gone_iff
    constructor
    · intro hdead i hi
      exact (hgone i hi).1 (by simpa using hdead _ (List.getElem_mem hi))
    · intro hall x hx
      obtain ⟨i, hi, rfl⟩ := List.getElem_of_mem hx
      simp [(hgone i hi).2 (hall i hi)]
  constructor
  · intro hguard p hp hpasses
    obtain ⟨b₁, b₂, hrun₁, hstart, hlive⟩ := hstarts p hp
    have hrunning : b₁.running = false := (followed_of_run hk T hrun₁).running.trans hpasses
    exact hlive.1 (hguard p _ hp b₁ b₂ hrun₁ hstart ⟨rfl, hrunning⟩)
  · rintro hends p a hp b₁ b₂ hrun₁ - ⟨rfl, hrunning⟩
    obtain ⟨b₁', -, hrun₁', -, hlive⟩ := hstarts p hp
    obtain rfl := Option.some.inj (hrun₁.symm.trans hrun₁')
    exact hlive.2 (hends p hp ((followed_of_run hk T hrun₁).running.symm.trans hrunning))

end Events

/-! ## The generic bridge -/

theorem TcpSteps.alive {reportSize : Nat} {s s' : TcpRelay} {a : TcpAct}
    (h : TcpSteps reportSize s a s') (hs : s'.thread.alive = true) : s.thread.alive = true := by
  cases h with
  | thread h => exact h.was_alive
  | deliver => rwa [push_alive] at hs
  | _ => exact hs

theorem UnixSteps.alive {kind : SocketKind} {reportSize : Nat} {s s' : UnixRelay} {a : UnixAct}
    (h : UnixSteps kind reportSize s a s') (hs : s'.thread.alive = true) :
    s.thread.alive = true := by
  cases h with
  | thread h => exact h.was_alive
  | datagram | block => rwa [UnixRelay.forward_thread, push_alive] at hs
  | _ => exact hs

theorem GenericBridge.kind_lawful (reportSize : Nat) (transport : BridgeTransport) :
    (GenericBridge.kind reportSize transport).Lawful where
  start := by cases transport <;> rfl
  step := by
    intro x a x' h hx'
    cases x with
    | connecting t =>
      cases a with
      | connecting a =>
        obtain ⟨t', ht, rfl⟩ := Option.map_eq_some_iff.1 h
        exact (thread_step_cases ht).was_alive
      | connects | connectFails =>
        obtain rfl := Option.some.inj h
        exact hx'
      | _ => cases h
    | tcp s =>
      obtain ⟨b, s', -, rfl, hstep⟩ := Relay.tcp_step h
      exact hstep.alive hx'
    | unix kind s =>
      obtain ⟨b, s', -, rfl, hstep⟩ := Relay.unix_step h
      exact hstep.alive hx'
  stop := by
    intro x
    cases x <;> rfl

variable {reportSize : Nat} {transport : BridgeTransport}

/-- What the steps of a relay tell of its device. -/
def GenericBridge.events : DeviceEvents RelayAct where
  thread
    | .connecting a | .tcp (.thread a) | .unix (.thread a) => some a
    | _ => none
  unheard
    | .connectFails | .tcp .writeFails | .unix .connectFails => true
    | _ => false
  closes := true

/-- How a thread that is not told to end does end. -/
theorem ThreadSteps.ends_iff {receiving : Bool} {t t' : UhidThread} {a : ThreadAct}
    (h : ThreadSteps receiving t a t') (hshutdown : ¬ t.shutdown = true) :
    t'.alive = false ↔ a = .writeFails ∨ a = .pollFails ∨
      ∃ report, a = .poll (some report) ∧ receiving = false := by
  cases h with
  | leave _ htold => exact absurd htold hshutdown
  | writeFails | pollFails => simp [UhidThread.alive]
  | unheard _ hreceiving => simp [UhidThread.alive, hreceiving]
  | output _ hreceiving => simp [UhidThread.alive, hreceiving]
  | goOn | drained | nothing | wake => simp [UhidThread.alive]
  | write hphase => simp [UhidThread.alive, hphase]

namespace Relay

/-- A stop has reached the relay. -/
def Told : Relay → Prop
  | .connecting t => t.shutdown = true
  | .tcp s => s.thread.shutdown = true
  | .unix _ s => s.thread.shutdown = true ∨ s.shutdown = true

/-- No task takes the host's reports. -/
def Unheard : Relay → Prop
  | .connecting _ => False
  | .tcp s => s.taskB = .ended
  | .unix _ s => s.task = .returned

end Relay

theorem TcpSteps.shutdown {s s' : TcpRelay} {a : TcpAct} (h : TcpSteps reportSize s a s') :
    s'.thread.shutdown = s.thread.shutdown := by
  cases h with
  | thread h => exact h.shutdown
  | deliver => exact push_shutdown _ _
  | _ => rfl

theorem UnixSteps.shutdown_eq {kind : SocketKind} {s s' : UnixRelay} {a : UnixAct}
    (h : UnixSteps kind reportSize s a s') :
    s'.thread.shutdown = s.thread.shutdown ∧ s'.shutdown = s.shutdown := by
  cases h with
  | thread h => exact ⟨h.shutdown, rfl⟩
  | datagram | block =>
    rw [UnixRelay.forward_thread, UnixRelay.forward_shutdown, push_shutdown]
    exact ⟨rfl, rfl⟩
  | _ => exact ⟨rfl, rfl⟩

theorem TcpSteps.unheard_iff {s s' : TcpRelay} {a : TcpAct} (h : TcpSteps reportSize s a s')
    (halive : s'.thread.alive = true) :
    s'.taskB = .ended ↔ s.taskB = .ended ∨ GenericBridge.events.unheard (.tcp a) = true := by
  cases h with
  | take h | write h | written h => simp [h, GenericBridge.events]
  | writeFails => simp [GenericBridge.events]
  | closed _ _ hexited =>
    rw [hexited] at halive
    cases halive
  | _ => simp [GenericBridge.events, TcpRelay.emit]

theorem UnixSteps.unheard_iff {kind : SocketKind} {s s' : UnixRelay} {a : UnixAct}
    (h : UnixSteps kind reportSize s a s') (htold : ¬ s.shutdown = true)
    (halive : s'.thread.alive = true) :
    s'.task = .returned ↔ s.task = .returned ∨ GenericBridge.events.unheard (.unix a) = true := by
  cases h with
  | takeFirst h | takeNext h | connects h | firstWritten h | firstFails h | writeFails h =>
    simp [h, GenericBridge.events]
  | written h | looks h =>
    rw [h]
    split <;> simp [GenericBridge.events]
  | connectFails => simp [GenericBridge.events]
  | closed _ _ hexited =>
    rw [hexited] at halive
    cases halive
  | shutdown _ hshutdown => exact absurd hshutdown htold
  | datagram | block =>
    rw [UnixRelay.forward_task]
    simp [GenericBridge.events]
  | _ => simp [GenericBridge.events, UnixRelay.setReader]

theorem TcpSteps.alive_iff {s s' : TcpRelay} {a : TcpAct} (h : TcpSteps reportSize s a s')
    (htold : ¬ s.thread.shutdown = true) (halive : s.thread.alive = true) :
    s'.thread.alive = false ↔ GenericBridge.events.thread (.tcp a) = some .writeFails ∨
      GenericBridge.events.thread (.tcp a) = some .pollFails ∨
      ∃ report, GenericBridge.events.thread (.tcp a) = some (.poll (some report)) ∧
        s.taskB = .ended := by
  cases h with
  | thread h => simpa [GenericBridge.events] using h.ends_iff htold
  | deliver => simp [GenericBridge.events, push_alive, halive]
  | take => simpa [GenericBridge.events, UhidThread.alive] using halive
  | _ => simp [GenericBridge.events, halive]

theorem UnixSteps.alive_iff {kind : SocketKind} {s s' : UnixRelay} {a : UnixAct}
    (h : UnixSteps kind reportSize s a s') (htold : ¬ s.thread.shutdown = true)
    (halive : s.thread.alive = true) :
    s'.thread.alive = false ↔ GenericBridge.events.thread (.unix a) = some .writeFails ∨
      GenericBridge.events.thread (.unix a) = some .pollFails ∨
      ∃ report, GenericBridge.events.thread (.unix a) = some (.poll (some report)) ∧
        s.task = .returned := by
  cases h with
  | thread h => simpa [GenericBridge.events] using h.ends_iff htold
  | datagram | block =>
    rw [UnixRelay.forward_thread, push_alive]
    simp [GenericBridge.events, halive]
  | takeFirst | takeNext => simpa [GenericBridge.events, UhidThread.alive] using halive
  | _ => simp [GenericBridge.events, UnixRelay.setReader, UnixRelay.emit, halive]

/-- The events of the generic bridge bear on its relays. -/
def GenericBridge.told (reportSize : Nat) (transport : BridgeTransport) :
    (GenericBridge.kind reportSize transport).Told GenericBridge.events where
  told := Relay.Told
  unheard := Relay.Unheard
  start_told := by
    cases transport <;> simp [kind, Relay.start, Relay.Told, UhidThread.spawn, UnixRelay.start]
  start_unheard := by cases transport <;> simp [kind, Relay.start, Relay.Unheard, UnixRelay.start]
  awaited _ x hx := by simpa [kind] using hx
  stop hcloses := by cases hcloses
  step_told := by
    intro x a x' h hx
    cases x with
    | connecting t =>
      cases a with
      | connecting a =>
        obtain ⟨t', ht, rfl⟩ := Option.map_eq_some_iff.1 h
        rw [Relay.Told, (thread_step_cases ht).shutdown]
        exact hx
      | connects | connectFails =>
        obtain rfl := Option.some.inj h
        exact hx
      | _ => cases h
    | tcp s =>
      obtain ⟨b, s', -, rfl, hstep⟩ := Relay.tcp_step h
      rw [Relay.Told, hstep.shutdown]
      exact hx
    | unix kind s =>
      obtain ⟨b, s', -, rfl, hstep⟩ := Relay.unix_step h
      obtain ⟨hthread, htask⟩ := hstep.shutdown_eq
      rw [Relay.Told, hthread, htask]
      exact hx
  step_unheard := by
    intro x a x' h hx halive
    cases x with
    | connecting t =>
      cases a with
      | connecting a =>
        obtain ⟨t', ht, rfl⟩ := Option.map_eq_some_iff.1 h
        simp [Relay.Unheard, events]
      | connects | connectFails =>
        obtain rfl := Option.some.inj h
        simp [Relay.Unheard, events, TcpRelay.connected]
      | _ => cases h
    | tcp s =>
      obtain ⟨b, s', rfl, rfl, hstep⟩ := Relay.tcp_step h
      exact hstep.unheard_iff halive
    | unix kind s =>
      obtain ⟨b, s', rfl, rfl, hstep⟩ := Relay.unix_step h
      exact hstep.unheard_iff (fun htold => hx (.inr htold)) halive
  step_alive := by
    intro x a x' h hx halive
    cases x with
    | connecting t =>
      cases a with
      | connecting a =>
        obtain ⟨t', ht, rfl⟩ := Option.map_eq_some_iff.1 h
        simpa [kind, Relay.thread, Relay.Unheard, events] using
          (thread_step_cases ht).ends_iff hx
      | connects | connectFails =>
        obtain rfl := Option.some.inj h
        have hsame : t.alive = true := halive
        simp [kind, Relay.thread, events, hsame]
      | _ => cases h
    | tcp s =>
      obtain ⟨b, s', rfl, rfl, hstep⟩ := Relay.tcp_step h
      exact hstep.alive_iff hx halive
    | unix kind s =>
      obtain ⟨b, s', rfl, rfl, hstep⟩ := Relay.unix_step h
      exact hstep.alive_iff (fun htold => hx (.inl htold)) halive

/-- Along every run of starts, stops and other steps a generic bridge has at most one device exactly
when, whenever a start passes the flag, each device created before has been closed by a stop or has
ended by itself. -/
theorem one_device_iff (reportSize : Nat) (transport : BridgeTransport)
    (acts : List (BridgeAct RelayAct)) {b : BridgeState Relay}
    (hrun : run (BridgeState.step (GenericBridge.kind reportSize transport)) .new acts = some b) :
    Always (BridgeState.step (GenericBridge.kind reportSize transport))
        (fun b => b.live (GenericBridge.kind reportSize transport) ≤ 1) .new acts ↔
      ReplacesEnded RelayAct.clearsRunning GenericBridge.events acts :=
  live_le_one_iff_replacesEnded (GenericBridge.kind_lawful reportSize transport)
    (GenericBridge.told reportSize transport) hrun

/-- The bridge is stopped before it is started again. -/
def startedAgain : List (BridgeAct RelayAct) :=
  [.start true, .session 0 .connects, .stop, .session 0 (.tcp (.thread .check)), .stopEnds,
    .start true]

theorem one_device_iff_startedAgain :
    Always (BridgeState.step (GenericBridge.kind 64 (.tcp "127.0.0.1" 9999)))
        (fun b => b.live (GenericBridge.kind 64 (.tcp "127.0.0.1" 9999)) ≤ 1) .new startedAgain ∧
      ReplacesEnded RelayAct.clearsRunning GenericBridge.events startedAgain := by
  have hrun : ∃ b, run (BridgeState.step (GenericBridge.kind 64 (.tcp "127.0.0.1" 9999))) .new
      startedAgain = some b := ⟨_, rfl⟩
  obtain ⟨b, hb⟩ := hrun
  have hends : ReplacesEnded RelayAct.clearsRunning GenericBridge.events startedAgain := by
    intro p hp hpasses i hi
    have hcases : p = [] ∨ p = startedAgain.take 5 := by
      obtain ⟨r, hr⟩ := hp
      rcases p with _ | ⟨a₁, _ | ⟨a₂, _ | ⟨a₃, _ | ⟨a₄, _ | ⟨a₅, _ | ⟨a₆, p⟩⟩⟩⟩⟩⟩ <;>
        simp [startedAgain] at hr ⊢
      tauto
    rcases hcases with rfl | rfl
    · cases hi
    · have hzero : i < 1 := hi
      exact .inl ⟨rfl, startedAgain.take 4, List.prefix_refl _, hzero⟩
  exact ⟨(one_device_iff 64 _ _ hb).2 hends, hends⟩

/-- The emulator closes the connection, and the bridge is started again. -/
def restarted : List (BridgeAct RelayAct) :=
  [.start true, .session 0 .connects, .session 0 (.tcp .readFails), .start true]

theorem not_one_device_restarted :
    ¬ ∀ reportSize transport acts, Always (BridgeState.step (GenericBridge.kind reportSize transport))
      (fun b => b.live (GenericBridge.kind reportSize transport) ≤ 1) .new acts := by
  intro h
  have hrun : run (BridgeState.step (GenericBridge.kind 64 (.tcp "127.0.0.1" 9999))) .new restarted =
      some ⟨true, false, [.tcp { TcpRelay.connected with taskA := .ended }, .connecting .spawn]⟩ := rfl
  have hlive := (h 64 (.tcp "127.0.0.1" 9999) restarted).of_run hrun
  exact absurd hlive (by decide)

end Hwwctl.Bridge
