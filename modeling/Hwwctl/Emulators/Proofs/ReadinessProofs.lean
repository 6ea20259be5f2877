import Hwwctl.Emulators.Readiness

/-!
# An emulator is reported as it was probed

A start that has spawned its child succeeds whether or not the child comes up: the status tells.
It is running if a probe got an answer before the loop ended, and an error if the last one, which
was over at the deadline or later, was in vain too.
-/

namespace Hwwctl.Emulators

open Polling

/-- What a start reports: its result, and the status and child it leaves. -/
abbrev StartReport := Except String Unit × EmulatorStatus × Option Nat

/-- The probes `before` were in vain and over before the deadline. -/
def InVain (probe : ProbeEnv → Bool) (deadline : Nat) (before : List (Round ProbeEnv)) : Prop :=
  ∀ r ∈ before, probe r.world = false ∧ r.clock < deadline

/-- How a start that has spawned the child `c` comes out of its wait. -/
structure WaitedFor (probe : ProbeEnv → Bool) (interval timeout began : Nat)
    (rounds : List (Round ProbeEnv)) (msg : String) (c : Nat) (result : Option StartReport) : Prop where
  only : ∀ r, result = some r → r = (.ok (), .running, some c) ∨ r = (.ok (), .error msg, some c)
  running : result = some (.ok (), .running, some c) ↔ ∃ before round after,
    rounds = before ++ round :: after ∧ InVain probe (began + timeout) before ∧
      probe round.world = true
  unreachable : result = some (.ok (), .error msg, some c) ↔ ∃ before round after,
    rounds = before ++ round :: after ∧ InVain probe (began + timeout) before ∧
      probe round.world = false ∧ began + timeout ≤ round.clock
  /-- The probes come to an end. -/
  ends : Paced interval rounds → (∀ r ∈ rounds.head?, began ≤ r.clock) →
    timeout / interval + 1 < rounds.length → result.isSome
  /-- Who answers in time, and goes on answering, is not reported unreachable. -/
  inTime : ∀ since lag, (∀ r ∈ rounds, since ≤ r.asked → probe r.world = true) →
    (∀ r ∈ rounds, r.clock ≤ r.asked + lag) → since + lag ≤ began + timeout →
    result ≠ some (.ok (), .error msg, some c)

/-! ## The wait -/

section Wait

variable {probe : ProbeEnv → Bool} {timeout began : Nat} {rounds : List (Round ProbeEnv)}

def answer (probe : ProbeEnv → Bool) (env : ProbeEnv) : Option Unit :=
  if probe env then some () else none

theorem answer_none_iff {env : ProbeEnv} : answer probe env = none ↔ probe env = false := by
  rw [answer]
  cases probe env with
  | true => simp
  | false => simp

theorem answer_some_iff {env : ProbeEnv} : answer probe env = some () ↔ probe env = true := by
  rw [answer]
  cases probe env with
  | true => simp
  | false => simp

theorem vain_answer_iff {deadline : Nat} {before : List (Round ProbeEnv)} :
    Vain (answer probe) deadline before ↔ InVain probe deadline before := by
  refine forall₂_congr ?_
  intro r _
  rw [answer_none_iff]

theorem waitForReady_true_iff : waitForReady probe timeout began rounds = some true ↔
    ∃ before round after, rounds = before ++ round :: after ∧
      InVain probe (began + timeout) before ∧ probe round.world = true := by
  have hpoll : waitForReady probe timeout began rounds = some true ↔
      askFirst (answer probe) (began + timeout) rounds = some (some ()) := by
    rw [waitForReady, Option.map_eq_some_iff]
    constructor
    · rintro ⟨found, hfound, hsome⟩
      obtain ⟨⟨⟩, rfl⟩ := Option.isSome_iff_exists.1 hsome
      exact hfound
    · intro hfound
      exact ⟨some (), hfound, rfl⟩
  rw [hpoll, askFirst_eq_some_iff]
  constructor
  · rintro ⟨before, round, after, hrounds, hvain, -, hanswer⟩
    exact ⟨before, round, after, hrounds, vain_answer_iff.1 hvain, answer_some_iff.1 hanswer.symm⟩
  · rintro ⟨before, round, after, hrounds, hvain, hprobe⟩
    have hanswer := answer_some_iff.2 hprobe
    refine ⟨before, round, after, hrounds, vain_answer_iff.2 hvain, ?_, hanswer.symm⟩
    rintro ⟨hnone, -⟩
    rw [hanswer] at hnone
    cases hnone

theorem waitForReady_false_iff : waitForReady probe timeout began rounds = some false ↔
    ∃ before round after, rounds = before ++ round :: after ∧
      InVain probe (began + timeout) before ∧ probe round.world = false ∧
      began + timeout ≤ round.clock := by
  have hpoll : waitForReady probe timeout began rounds = some false ↔
      askFirst (answer probe) (began + timeout) rounds = some none := by
    rw [waitForReady, Option.map_eq_some_iff]
    constructor
    · rintro ⟨found, hfound, hnone⟩
      obtain rfl : found = none := by simpa using hnone
      exact hfound
    · intro hfound
      exact ⟨none, hfound, rfl⟩
  rw [hpoll, askFirst_eq_some_iff]
  constructor
  · rintro ⟨before, round, after, hrounds, hvain, hends, hanswer⟩
    refine ⟨before, round, after, hrounds, vain_answer_iff.1 hvain,
      answer_none_iff.1 hanswer.symm, ?_⟩
    exact Nat.not_lt.1 fun hclock => hends ⟨hanswer.symm, hclock⟩
  · rintro ⟨before, round, after, hrounds, hvain, hprobe, hclock⟩
    refine ⟨before, round, after, hrounds, vain_answer_iff.2 hvain, ?_,
      (answer_none_iff.2 hprobe).symm⟩
    rintro ⟨-, hlt⟩
    omega

/-- A start that ends as its wait does. -/
theorem WaitedFor.of_wait {interval : Nat} (hinterval : 0 < interval) {msg : String} {c : Nat}
    {result : Option StartReport}
    (h : result = (waitForReady probe timeout began rounds).map fun ready =>
      (.ok (), if ready then .running else .error msg, some c)) :
    WaitedFor probe interval timeout began rounds msg c result := by
  have hstatus : EmulatorStatus.error msg ≠ .running := by simp
  have hready : ∀ ready, result = some (.ok (), if ready then .running else .error msg, some c) ↔
      waitForReady probe timeout began rounds = some ready := by
    intro ready
    rw [h, Option.map_eq_some_iff]
    constructor
    · rintro ⟨ready', hwait, heq⟩
      have hsame : (if ready' = true then EmulatorStatus.running else .error msg) =
          if ready = true then .running else .error msg := (Prod.mk.inj (Prod.mk.inj heq).2).1
      cases ready with
      | true =>
        cases ready' with
        | true => exact hwait
        | false => exact absurd hsame hstatus
      | false =>
        cases ready' with
        | true => exact absurd hsame.symm hstatus
        | false => exact hwait
    · intro hwait
      exact ⟨ready, hwait, rfl⟩
  refine ⟨?_, ?_, ?_, ?_, ?_⟩
  · intro r hr
    rw [h] at hr
    obtain ⟨ready, -, rfl⟩ := Option.map_eq_some_iff.1 hr
    cases ready with
    | true => exact .inl rfl
    | false => exact .inr rfl
  · exact (hready true).trans waitForReady_true_iff
  · exact (hready false).trans waitForReady_false_iff
  · intro hpaced hstart hlong
    rw [h, Option.isSome_map, waitForReady, Option.isSome_map, Option.isSome_iff_ne_none]
    intro hnone
    have hvain := askFirst_eq_none_iff.1 hnone
    have hle := hvain.length_le hinterval hpaced hstart
    omega
  · intro since lag hanswers hlag hsince hunreachable
    have hfalse := (hready false).1 hunreachable
    rw [waitForReady, Option.map_eq_some_iff] at hfalse
    obtain ⟨found, hfound, hnone⟩ := hfalse
    obtain rfl : found = none := by simpa using hnone
    have hthere : Answers (answer probe) since rounds := by
      intro r hr hasked
      rw [answer_some_iff.2 (hanswers r hr hasked)]
      rfl
    exact askFirst_found hthere hlag hsince hfound

end Wait

/-! ## The emulators -/

/-- What `start` reports when it is left to probe. -/
def GenericEmulator.report (emu : GenericEmulator) (env : StartEnv) (began : Nat)
    (rounds : List (Round ProbeEnv)) (w : World) : Option StartReport :=
  (emu.startPolling env began rounds w).map fun out => (out.1, out.2.1.status, out.2.1.child)

def TrezorEmulator.report (emu : TrezorEmulator) (env : TrezorEmulator.StartEnv) (began : Nat)
    (rounds : List (Round ProbeEnv)) (w : World) : Option StartReport :=
  (emu.startPolling env began rounds w).map fun out => (out.1, out.2.1.status, out.2.1.child)

theorem GenericEmulator.attempt_config {emu emu' : GenericEmulator} {env : StartEnv} {w w' : World}
    {c : Nat} (h : emu.attempt env w = .spawned c emu' w') :
    emu' = { emu with status := .starting } := by
  unfold attempt at h
  split at h
  · cases h
  · split at h
    · cases h
    · split at h
      · cases h
      · dsimp only at h
        split at h
        · cases h
        · cases h
          rfl

theorem TrezorEmulator.attempt_config {emu emu' : TrezorEmulator} {env : TrezorEmulator.StartEnv}
    {w w' : World} {c : Nat} (h : emu.attempt env w = .spawned c emu' w') :
    emu' = { emu with status := .starting } := by
  unfold attempt at h
  split at h
  · cases h
  · split at h
    · cases h
    · split at h
      · cases h
      · dsimp only at h
        split at h
        · cases h
        · cases h
          rfl

/-- Probing gives what `start` says of the outcome. -/
theorem GenericEmulator.startPolling_start {emu : GenericEmulator} {env : StartEnv} {began : Nat}
    {rounds : List (Round ProbeEnv)} {w : World} {out : Except String Unit × GenericEmulator × World}
    (h : emu.startPolling env began rounds w = some out) :
    ∃ ready, out = emu.start { env with ready := ready } w := by
  have hattempt : ∀ ready, emu.attempt { env with ready := ready } w = emu.attempt env w :=
    fun _ => rfl
  unfold startPolling at h
  cases hspawn : emu.attempt env w with
  | returned result emu' =>
    rw [hspawn] at h
    refine ⟨false, ?_⟩
    rw [start_eq_attempt, hattempt, hspawn]
    exact (Option.some.inj h).symm
  | spawned c emu' w' =>
    rw [hspawn] at h
    dsimp only at h
    have hskip : (emu'.setChild c w').1.skipProbeDelayMs = emu'.skipProbeDelayMs := rfl
    cases hms : emu'.skipProbeDelayMs with
    | some ms =>
      rw [hskip, hms] at h
      refine ⟨false, ?_⟩
      rw [start_eq_attempt, hattempt, hspawn, Attempt.result, settle, hskip, hms]
      exact (Option.some.inj h).symm
    | none =>
      rw [hskip, hms] at h
      obtain ⟨ready, -, hout⟩ := Option.map_eq_some_iff.1 h
      refine ⟨ready, ?_⟩
      rw [start_eq_attempt, hattempt, hspawn, Attempt.result, settle, hskip, hms, ← hout]
      cases ready with
      | true => rfl
      | false => rfl

theorem TrezorEmulator.startPolling_start {emu : TrezorEmulator} {env : TrezorEmulator.StartEnv}
    {began : Nat} {rounds : List (Round ProbeEnv)} {w : World}
    {out : Except String Unit × TrezorEmulator × World}
    (h : emu.startPolling env began rounds w = some out) :
    ∃ ready, out = emu.start { env with ready := ready } w := by
  have hattempt : ∀ ready, emu.attempt { env with ready := ready } w = emu.attempt env w :=
    fun _ => rfl
  unfold startPolling at h
  cases hspawn : emu.attempt env w with
  | returned result emu' =>
    rw [hspawn] at h
    refine ⟨false, ?_⟩
    rw [start_eq_attempt, hattempt, hspawn]
    exact (Option.some.inj h).symm
  | spawned c emu' w' =>
    rw [hspawn] at h
    obtain ⟨ready, -, hout⟩ := Option.map_eq_some_iff.1 h
    refine ⟨ready, ?_⟩
    rw [start_eq_attempt, hattempt, hspawn, Attempt.result, settle, ← hout]
    cases ready with
    | true => rfl
    | false => rfl

section Reports

variable {began : Nat} {rounds : List (Round ProbeEnv)} {w w' : World} {c : Nat}

theorem GenericEmulator.report_skip {emu emu' : GenericEmulator} {env : StartEnv} {ms : Nat}
    (h : emu.attempt env w = .spawned c emu' w') (hms : emu.skipProbeDelayMs = some ms) :
    emu.report env began rounds w = some (.ok (), .running, some c) := by
  obtain rfl := attempt_config h
  simp only [report, startPolling, h, setChild, hms, Option.map_some]

theorem GenericEmulator.report_waits {emu emu' : GenericEmulator} {env : StartEnv}
    (h : emu.attempt env w = .spawned c emu' w') (hms : emu.skipProbeDelayMs = none) :
    WaitedFor emu.probeOnce startupPollInterval (1000 * emu.startupTimeoutSecs) began rounds
      s!"{emu.transport.display} not reachable after {emu.startupTimeoutSecs}s" c
      (emu.report env began rounds w) := by
  obtain rfl := attempt_config h
  refine .of_wait (by decide) ?_
  simp only [report, startPolling, h, setChild, hms, Option.map_map]
  congr 1
  funext ready
  cases ready with
  | true => rfl
  | false => rfl

theorem TrezorEmulator.report_waits {emu emu' : TrezorEmulator} {env : TrezorEmulator.StartEnv}
    (h : emu.attempt env w = .spawned c emu' w') :
    WaitedFor probeUdp startupPollInterval startupTimeout began rounds
      s!"UDP :{emu.port} not reachable after startup" c (emu.report env began rounds w) := by
  obtain rfl := attempt_config h
  refine .of_wait (by decide) ?_
  simp only [report, startPolling, h, setChild, Option.map_map]
  congr 1
  funext ready
  cases ready with
  | true => rfl
  | false => rfl

end Reports

/-- A start that spawns its child keeps it and succeeds, and reports it running exactly if a probe
was answered before the wait ended, or if it was told not to probe. -/
theorem start_waits (began : Nat) (rounds : List (Round ProbeEnv)) (w : World) :
    (∀ (emu emu' : GenericEmulator) (env : StartEnv) (c : Nat) (w' : World),
      emu.attempt env w = .spawned c emu' w' →
      (∀ out, emu.startPolling env began rounds w = some out →
        ∃ ready, out = emu.start { env with ready := ready } w) ∧
      (∀ ms, emu.skipProbeDelayMs = some ms →
        emu.report env began rounds w = some (.ok (), .running, some c)) ∧
      (emu.skipProbeDelayMs = none →
        WaitedFor emu.probeOnce GenericEmulator.startupPollInterval
          (1000 * emu.startupTimeoutSecs) began rounds
          s!"{emu.transport.display} not reachable after {emu.startupTimeoutSecs}s" c
          (emu.report env began rounds w))) ∧
    (∀ (emu emu' : TrezorEmulator) (env : TrezorEmulator.StartEnv) (c : Nat) (w' : World),
      emu.attempt env w = .spawned c emu' w' →
      (∀ out, emu.startPolling env began rounds w = some out →
        ∃ ready, out = emu.start { env with ready := ready } w) ∧
      WaitedFor probeUdp TrezorEmulator.startupPollInterval TrezorEmulator.startupTimeout began
        rounds s!"UDP :{emu.port} not reachable after startup" c
        (emu.report env began rounds w)) := by
  refine ⟨?_, ?_⟩
  · intro emu emu' env c w' h
    exact ⟨fun _ => GenericEmulator.startPolling_start, fun _ => GenericEmulator.report_skip h,
      GenericEmulator.report_waits h⟩
  · intro emu emu' env c w' h
    exact ⟨fun _ => TrezorEmulator.startPolling_start, TrezorEmulator.report_waits h⟩

def socketEmu : GenericEmulator := .new .coldcard "/b/simulator" "/b" "/p" (.unixSocket "/p/sim.sock")

def spawning : StartEnv where
  binaryExists := true
  createProfileDir := .ok ()
  ldLibraryPath := ""
  libIsDir := false
  spawn := .ok ()
  ready := false

def noSocket : ProbeEnv := ⟨false, false, false, false, false, false, false, false, .failed⟩

/-- The socket comes after the first probe, and takes datagrams. -/
def lateSocket : List (Round ProbeEnv) :=
  [⟨noSocket, 0, 2⟩,
    ⟨{ noSocket with socketExists := true, dgramUnbound := true, dgramConnects := true }, 303, 305⟩]

theorem start_waits_lateSocket : ∃ emu w, socketEmu.attempt spawning .empty = .spawned 0 emu w ∧
    socketEmu.report spawning 0 lateSocket .empty = some (.ok (), .running, some 0) ∧
      WaitedFor socketEmu.probeOnce 300 15000 0 lateSocket "Unix /p/sim.sock not reachable after 15s"
        0 (socketEmu.report spawning 0 lateSocket .empty) := by
  obtain ⟨emu, w, h⟩ : ∃ emu w, socketEmu.attempt spawning .empty = .spawned 0 emu w := ⟨_, _, rfl⟩
  exact ⟨emu, w, h, rfl, ((start_waits 0 lateSocket .empty).1 socketEmu emu spawning 0 w h).2.2 rfl⟩

end Hwwctl.Emulators
