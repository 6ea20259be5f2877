import Hwwctl.Client.AutoSpawn
import Hwwctl.Daemon.Proofs.SocketPathProofs

/-!
# Does a client find the daemon that it has spawned?

While nobody takes a serving daemon its file, a client that waits misses no daemon that serves when
it connects. It gives up only when there was none at any of its connects, and a daemon that serves
in time is found.
-/

namespace Hwwctl.AutoSpawn

open Polling SocketPath Transition

/-! ## The wait as a polling loop -/

section Wait

variable {δ : Type} {giveUp : Option IoError → String} {deadline : Nat} {lastErr : Option IoError}
  {rounds : List (Round (Except IoError δ))}

/-- The loop ends as one that looks at its clock first. -/
theorem waitLoop_toOption (giveUp : Option IoError → String) (lastErr : Option IoError) :
    (waitLoop giveUp deadline lastErr rounds).map Except.toOption =
      lookFirst Except.toOption deadline rounds := by
  induction rounds generalizing lastErr with
  | nil => rfl
  | cons round rounds ih =>
    rw [waitLoop, lookFirst]
    by_cases hclock : round.clock < deadline
    · rw [if_pos hclock, if_pos hclock]
      cases hworld : round.world with
      | ok stream => rfl
      | error e => exact ih (some e)
    · rw [if_neg hclock, if_neg hclock]
      rfl

/-- The error of the last connect. -/
def lastError (rounds : List (Round (Except IoError δ))) : Option IoError :=
  rounds.getLast?.bind fun round =>
    match round.world with
    | .ok _ => none
    | .error e => some e

theorem waitLoop_vain {later : List (Round (Except IoError δ))}
    (h : Vain Except.toOption deadline rounds) :
    waitLoop giveUp deadline lastErr (rounds ++ later) =
      waitLoop giveUp deadline (if rounds = [] then lastErr else lastError rounds) later := by
  induction rounds generalizing lastErr with
  | nil => rfl
  | cons round rounds ih =>
    obtain ⟨hnone, hclock⟩ := h.head
    rw [List.cons_append, waitLoop, if_pos hclock, if_neg (List.cons_ne_nil _ _)]
    cases hworld : round.world with
    | ok stream =>
      rw [hworld] at hnone
      cases hnone
    | error e =>
      refine (ih h.tail).trans ?_
      cases rounds with
      | nil => simp [lastError, hworld]
      | cons next rounds => simp [lastError]

theorem waitLoop_ok {stream : δ}
    (h : waitLoop giveUp deadline lastErr rounds = some (.ok stream)) :
    ∃ before round after, rounds = before ++ round :: after ∧ round.clock < deadline ∧
      round.world = .ok stream := by
  have hlook : lookFirst Except.toOption deadline rounds = some (some stream) := by
    rw [← waitLoop_toOption giveUp lastErr, h]
    rfl
  obtain ⟨before, round, after, hrounds, -, -, hresult⟩ := lookFirst_eq_some_iff.1 hlook
  refine ⟨before, round, after, hrounds, ?_⟩
  by_cases hclock : round.clock < deadline
  · refine ⟨hclock, ?_⟩
    rw [if_pos hclock] at hresult
    cases hworld : round.world with
    | ok stream' =>
      rw [hworld] at hresult
      cases hresult
      rfl
    | error e =>
      rw [hworld] at hresult
      cases hresult
  · rw [if_neg hclock] at hresult
    cases hresult

/-- It gives up at the deadline, after connects that all failed. -/
theorem waitLoop_error {msg : String}
    (h : waitLoop giveUp deadline none rounds = some (.error msg)) :
    ∃ before round after, rounds = before ++ round :: after ∧ Vain Except.toOption deadline before ∧
      deadline ≤ round.clock ∧ msg = giveUp (lastError before) := by
  have hlook : lookFirst Except.toOption deadline rounds = some none := by
    rw [← waitLoop_toOption giveUp none, h]
    rfl
  obtain ⟨before, round, after, rfl, hvain, hends, hresult⟩ := lookFirst_eq_some_iff.1 hlook
  have hclock : deadline ≤ round.clock := by
    by_contra hlt
    rw [if_pos (Nat.not_le.1 hlt)] at hresult
    exact hends ⟨hresult.symm, Nat.not_le.1 hlt⟩
  refine ⟨before, round, after, rfl, hvain, hclock, ?_⟩
  have hlast : (if before = [] then none else lastError before) = lastError before := by
    split
    · next hnil =>
      rw [hnil]
      rfl
    · rfl
  rw [waitLoop_vain hvain, hlast, waitLoop, if_neg (Nat.not_lt.2 hclock)] at h
  cases h
  rfl

end Wait

/-! ## The client's turns -/

variable {i : Nat} {path last : Path} {turns : List Turn} {rounds : List (Round Path)}

theorem visits_cons {turn : Turn} (h : visits i path (turn :: turns) = some (rounds, last)) :
    ∃ found left rest, run Path.step path turn.others = some found ∧
      found.step (.poll i) = some left ∧ visits i left turns = some (rest, last) ∧
      rounds = ⟨found, turn.asked, turn.clock⟩ :: rest := by
  obtain ⟨found, hfound, h⟩ := Option.bind_eq_some_iff.1 h
  obtain ⟨left, hleft, h⟩ := Option.bind_eq_some_iff.1 h
  obtain ⟨⟨rest, last'⟩, hrest, h⟩ := Option.bind_eq_some_iff.1 h
  cases h
  exact ⟨found, left, rest, hfound, hleft, hrest, rfl⟩

/-- What always holds holds when the client connects. -/
theorem visits_always {P : Path → Prop} (h : Always Path.step P path (schedule i turns))
    (hvisits : visits i path turns = some (rounds, last)) : ∀ round ∈ rounds, P round.world := by
  induction turns generalizing path rounds with
  | nil =>
    cases hvisits
    simp
  | cons turn turns ih =>
    obtain ⟨found, left, rest, hfound, hleft, hrest, rfl⟩ := visits_cons hvisits
    have hleftRun : run Path.step path (turn.others ++ [.poll i]) = some left := by
      rw [run_concat, hfound]
      exact hleft
    intro round hround
    rcases List.mem_cons.1 hround with rfl | hround
    · refine h turn.others ?_ found hfound
      rw [schedule, List.flatMap_cons, List.append_assoc]
      exact List.prefix_append _ _
    · refine ih ?_ hrest round hround
      intro p hp s' hrun
      refine h ((turn.others ++ [.poll i]) ++ p) ?_ s' ?_
      · rw [schedule, List.flatMap_cons]
        exact (List.prefix_append_right_inj _).2 hp
      · rw [run_append, hleftRun]
        exact hrun

theorem poll_step {s s' : Path} (h : s.step (.poll i) = some s') :
    s.clients[i]? = some .polling ∧
      ∀ d, s.listener = some d → s'.clients[i]? = some (.connected d) := by
  simp only [Path.step, Option.ite_none_right_eq_some] at h
  obtain ⟨hpolling, h⟩ := h
  refine ⟨hpolling, ?_⟩
  intro d hd
  rw [hd] at h
  cases h
  exact setClient_self hpolling

/-- A client that has its stream is done. -/
theorem step_connected {s s' : Path} {a : Act} {d : Nat} (h : s.clients[i]? = some (.connected d))
    (hstep : s.step a = some s') : s'.clients[i]? = some (.connected d) := by
  have hother : ∀ {j : Nat} {was now : ClientPhase}, s.clients[j]? = some was →
      (∀ e, was ≠ .connected e) → (s.setClient j now).clients[i]? = some (.connected d) := by
    intro j was now hj hwas
    have hne : j ≠ i := by
      rintro rfl
      exact hwas d (Option.some.inj (hj.symm.trans h))
    exact (List.getElem?_set_ne hne).trans h
  cases a with
  | newClient =>
    cases hstep
    exact (List.getElem?_append_left (List.getElem?_eq_some_iff.1 h).1).trans h
  | connect j =>
    simp only [Path.step, Option.ite_none_right_eq_some] at hstep
    obtain ⟨hj, hstep⟩ := hstep
    split at hstep <;> cases hstep
    · exact hother hj (by simp)
    · exact hother hj (by simp)
  | poll j =>
    simp only [Path.step, Option.ite_none_right_eq_some] at hstep
    obtain ⟨hj, hstep⟩ := hstep
    split at hstep <;> cases hstep
    · exact hother hj (by simp)
    · exact h
  | connectFails j | check j | unlink j ok | spawn j | spawnFails j | giveUp j =>
    simp only [Path.step, Option.ite_none_right_eq_some, Option.some.injEq] at hstep
    obtain ⟨hj, rfl⟩ := hstep
    exact hother hj (by simp)
  | look e | removeFails e | bindFails e | listen e | listenFails e | leave e | cleanUp e ok
  | crash e =>
    simp only [Path.step, Option.ite_none_right_eq_some, Option.some.injEq] at hstep
    obtain ⟨-, rfl⟩ := hstep
    exact h
  | remove e | bind e =>
    simp only [Path.step, Option.ite_none_right_eq_some] at hstep
    obtain ⟨-, hstep⟩ := hstep
    split at hstep <;> cases hstep
    · exact h
    · exact h

theorem run_connected {s s' : Path} {acts : List Act} {d : Nat}
    (h : s.clients[i]? = some (.connected d)) (hrun : run Path.step s acts = some s') :
    s'.clients[i]? = some (.connected d) := by
  have halways : Always Path.step (fun s => s.clients[i]? = some (.connected d)) s acts :=
    always_of_step h fun _ _ _ hs hstep => step_connected hs hstep
  exact halways.of_run hrun

/-- The connect that succeeds is the last one. -/
theorem visits_connected {before after : List (Round Path)} {round : Round Path} {d : Nat}
    (hvisits : visits i path turns = some (before ++ round :: after, last))
    (hd : round.world.listener = some d) : last.clients[i]? = some (.connected d) := by
  induction turns generalizing path before with
  | nil =>
    have hnil := congrArg Prod.fst (Option.some.inj hvisits)
    simp at hnil
  | cons turn turns ih =>
    obtain ⟨found, left, rest, -, hleft, hrest, hrounds⟩ := visits_cons hvisits
    cases before with
    | cons first before =>
      obtain ⟨-, rfl⟩ := List.cons.inj hrounds
      exact ih hrest
    | nil =>
      obtain ⟨rfl, rfl⟩ := List.cons.inj hrounds
      have hconnected := (poll_step hleft).2 d hd
      cases turns with
      | nil =>
        cases hrest
        exact hconnected
      | cons next turns =>
        obtain ⟨found', left', -, hfound', hleft', -, -⟩ := visits_cons hrest
        have hpolling := (poll_step hleft').1
        rw [run_connected hconnected hfound'] at hpolling
        cases hpolling

/-! ## What a connect meets -/

theorem connectAt_eq_ok {d : Nat} : connectAt path = .ok d ↔ path.listener = some d := by
  unfold connectAt
  cases path.listener with
  | some e => simp
  | none =>
    cases path.file with
    | some node => simp
    | none => simp

/-! ## The wait at the path -/

/-- What the wait of a client comes to that meets this at its connects. -/
def waitAt (socket logPath : String) (began : Nat) (rounds : List (Round Path)) :
    Option (Except String Nat) :=
  waitForSocket socket logPath spawnReadyTimeout began (connects rounds)

/-- When the wait that begins then is over. -/
def deadline (began : Nat) : Nat := began + 1000 * spawnReadyTimeout

/-- A wait that begins in time and lets no more than `lag` pass between two looks at its clock. -/
structure Prompt (began lag : Nat) (rounds : List (Round Path)) : Prop where
  start : ∀ round ∈ rounds.head?, round.clock < deadline began
  asked : ∀ round ∈ rounds, round.clock ≤ round.asked
  steady : rounds.IsChain fun r r' => r'.clock ≤ r.clock + lag

variable {socket logPath : String} {began : Nat}

theorem waitAt_toOption : (waitAt socket logPath began rounds).map Except.toOption =
    lookFirst Except.toOption (deadline began) (connects rounds) :=
  waitLoop_toOption (notListening socket logPath spawnReadyTimeout) none

theorem connects_append {before after : List (Round (Except IoError Nat))}
    (h : connects rounds = before ++ after) :
    ∃ before' after', rounds = before' ++ after' ∧ before = connects before' ∧
      after = connects after' := by
  obtain ⟨before', after', hrounds, hbefore, hafter⟩ := List.map_eq_append_iff.1 h
  exact ⟨before', after', hrounds, hbefore.symm, hafter.symm⟩

theorem connects_split {before after : List (Round (Except IoError Nat))}
    {round : Round (Except IoError Nat)} (h : connects rounds = before ++ round :: after) :
    ∃ before' round' after', rounds = before' ++ round' :: after' ∧ before = connects before' ∧
      round = { round' with world := connectAt round'.world } := by
  obtain ⟨before', rest, hrounds, hbefore, hrest⟩ := connects_append h
  obtain ⟨round', after', rfl, hround, -⟩ := List.map_eq_cons_iff.1 hrest.symm
  exact ⟨before', round', after', hrounds, hbefore, hround.symm⟩

/-- The stream that the wait returns is the client's. -/
theorem waitAt_ok {d : Nat} (hvisits : visits i path turns = some (rounds, last))
    (h : waitAt socket logPath began rounds = some (.ok d)) :
    last.clients[i]? = some (.connected d) ∧ ∃ round ∈ rounds, round.world.listener = some d := by
  obtain ⟨before, round, after, hrounds, -, hworld⟩ := waitLoop_ok h
  obtain ⟨before, round, after, rfl, -, rfl⟩ := connects_split hrounds
  have hlistener := connectAt_eq_ok.1 hworld
  exact ⟨visits_connected hvisits hlistener, round, by simp, hlistener⟩

/-- It gives up when no daemon has served at any of its connects. -/
theorem waitAt_error {msg : String} (hreach : ∀ round ∈ rounds, Reachable round.world)
    (h : waitAt socket logPath began rounds = some (.error msg)) :
    ∃ before round after, rounds = before ++ round :: after ∧ deadline began ≤ round.clock ∧
      msg = notListening socket logPath spawnReadyTimeout (lastError (connects before)) ∧
        ∀ round ∈ before, ∀ d, ¬ Serving round.world d := by
  obtain ⟨before, round, after, hrounds, hvain, hclock, hmsg⟩ := waitLoop_error h
  obtain ⟨before, round, after, rfl, rfl, rfl⟩ := connects_split hrounds
  refine ⟨before, round, after, rfl, hclock, hmsg, ?_⟩
  intro r hr d hd
  have hlistener := (hreach r (List.mem_append_left _ hr)).listener hd
  have hnone := (hvain _ (List.mem_map_of_mem hr)).1
  dsimp only at hnone
  rw [connectAt_eq_ok.2 hlistener] at hnone
  cases hnone

/-- A daemon that serves in time is found. -/
theorem waitAt_found {since lag : Nat} (hreach : ∀ round ∈ rounds, Reachable round.world)
    (hserve : ∀ round ∈ rounds, since ≤ round.asked → ∃ d, Serving round.world d)
    (hprompt : Prompt began lag rounds) (hsince : since + lag ≤ deadline began) (msg : String) :
    waitAt socket logPath began rounds ≠ some (.error msg) := by
  intro h
  have hlook : lookFirst Except.toOption (deadline began) (connects rounds) = some none := by
    rw [← waitAt_toOption, h]
    rfl
  refine lookFirst_found ?_ ?_ ?_ ?_ hsince hlook
  · intro round hround hasked
    obtain ⟨r, hr, rfl⟩ := List.mem_map.1 hround
    obtain ⟨d, hd⟩ := hserve r hr hasked
    have hok := connectAt_eq_ok.2 ((hreach r hr).listener hd)
    simp only [hok]
    rfl
  · intro round hround
    obtain ⟨r, hr, rfl⟩ := List.mem_map.1 hround
    exact hprompt.asked r hr
  · intro round hround
    rw [connects, List.head?_map] at hround
    obtain ⟨r, hr, rfl⟩ := Option.map_eq_some_iff.1 hround
    exact hprompt.start r hr
  · exact (List.isChain_map _).2 hprompt.steady

/-- A client does not wait for longer than its timeout. -/
theorem waitAt_ends (h : waitAt socket logPath began rounds = none)
    (hpaced : Paced spawnPoll rounds) (hstart : ∀ round ∈ rounds.head?, began ≤ round.clock) :
    rounds.length ≤ 101 := by
  have hlook : lookFirst Except.toOption (deadline began) (connects rounds) = none := by
    rw [← waitAt_toOption, h]
    rfl
  have hvain := lookFirst_eq_none_iff.1 hlook
  have hpaced' : Paced spawnPoll (connects rounds) := (List.isChain_map _).2 hpaced
  have hstart' : ∀ round ∈ (connects rounds).head?, began ≤ round.clock := by
    intro round hround
    rw [connects, List.head?_map] at hround
    obtain ⟨r, hr, rfl⟩ := Option.map_eq_some_iff.1 hround
    exact hstart r hr
  have hlength : (connects rounds).length ≤ 1000 * spawnReadyTimeout / spawnPoll + 1 :=
    hvain.length_le (by decide) hpaced' hstart'
  rwa [connects, List.length_map] at hlength

/-- A call that has spawned a daemon waits for it. -/
theorem connectOrSpawn_waits {env : Env Nat} {command : Command}
    (hspawned : (connectOrSpawn socket env).spawned = some command)
    (hrounds : env.rounds = connects rounds) :
    (connectOrSpawn socket env).result = waitAt socket env.spawn.logPath env.began rounds := by
  unfold connectOrSpawn at hspawned ⊢
  cases hfirst : env.first with
  | ok stream =>
    rw [hfirst] at hspawned
    cases hspawned
  | error e =>
    rw [hfirst] at hspawned
    dsimp only at hspawned ⊢
    by_cases hbenefit : wouldBenefitFromSpawn e = true
    · rw [if_pos hbenefit] at hspawned ⊢
      cases hspawn : spawnDetachedDaemon socket env.spawn with
      | error e =>
        rw [hspawn] at hspawned
        cases hspawned
      | ok command => rw [hrounds, waitAt]
    · rw [if_neg hbenefit] at hspawned
      cases hspawned

/-- A client that waits for the daemon it has spawned, beside any number of other clients and
daemons that keep clear of each other, gets a stream to the daemon at the path. It gives up only
when none has served at any of its connects, and not when one serves in time. -/
theorem wait_finds_daemon (stale : Bool) (acts : List Act) (turns : List Turn) (i : Nat)
    (socket : String) (env : Env Nat) {command : Command} {path last : Path}
    {rounds : List (Round Path)}
    (hrun : run Path.step (.init stale) acts = some path)
    (hclear : Guarded Path.step Clear (.init stale) (acts ++ schedule i turns))
    (hvisits : visits i path turns = some (rounds, last))
    (hspawned : (connectOrSpawn socket env).spawned = some command)
    (hrounds : env.rounds = connects rounds) :
    (∀ d, (connectOrSpawn socket env).result = some (.ok d) →
      last.clients[i]? = some (.connected d) ∧ ∃ round ∈ rounds, round.world.listener = some d) ∧
    (∀ msg, (connectOrSpawn socket env).result = some (.error msg) →
      ∃ before round after, rounds = before ++ round :: after ∧
        deadline env.began ≤ round.clock ∧
        msg = notListening socket env.spawn.logPath spawnReadyTimeout
          (lastError (connects before)) ∧
        ∀ round ∈ before, ∀ d, ¬ Serving round.world d) ∧
    (∀ since lag, Prompt env.began lag rounds → since + lag ≤ deadline env.began →
      (∀ round ∈ rounds, since ≤ round.asked → ∃ d, Serving round.world d) →
        ∀ msg, (connectOrSpawn socket env).result ≠ some (.error msg)) ∧
    (Paced spawnPoll rounds → (∀ round ∈ rounds.head?, env.began ≤ round.clock) →
      (connectOrSpawn socket env).result = none → rounds.length ≤ 101) := by
  have hinv : Always Path.step Undisputed (.init stale) (acts ++ schedule i turns) :=
    hclear.always (.of_none fun d hd => by cases hd)
      fun _ _ _ hs hc hstep => step_undisputed hs hc hstep
  have hreach : ∀ round ∈ rounds, Reachable round.world := by
    refine visits_always (P := Reachable) ?_ hvisits
    intro p hp s' hrun'
    refine (hinv (acts ++ p) ((List.prefix_append_right_inj _).2 hp) s' ?_).reachable
    rw [run_append, hrun]
    exact hrun'
  rw [connectOrSpawn_waits hspawned hrounds]
  refine ⟨fun d => waitAt_ok hvisits, fun msg => waitAt_error hreach, ?_, ?_⟩
  · intro since lag hprompt hsince hserve msg
    exact waitAt_found hreach hserve hprompt hsince msg
  · intro hpaced hstart h
    exact waitAt_ends h hpaced hstart

/-- The client finds the file of a daemon that crashed, removes it and spawns another. -/
def afterCrash : List Act := [.newClient, .connect 0, .check 0, .unlink 0 true, .spawn 0]

/-- The daemon binds and listens between the client's first connect and its second. -/
def bindsLate : List Turn := [⟨[], 1, 1⟩, ⟨[.look 0, .bind 0, .listen 0], 52, 52⟩]

theorem bindsLate_clear :
    Guarded Path.step Clear (.init true) (afterCrash ++ schedule 0 bindsLate) := by
  refine Guarded.append (.of_forall ?_) ?_
  · intro a ha s
    simp only [afterCrash, List.mem_cons, List.not_mem_nil, or_false] at ha
    rcases ha with rfl | rfl | rfl | rfl | rfl <;> trivial
  · rintro s ⟨⟩
    refine .cons trivial ?_
    rintro s ⟨⟩
    refine .cons ?_ ?_
    · intro e he
      cases e with
      | zero => cases he
      | succ e => cases he
    · rintro s ⟨⟩
      refine .cons trivial ?_
      rintro s ⟨⟩
      refine .cons ?_ ?_
      · refine ⟨rfl, ?_⟩
        rintro (⟨j, hj⟩ | ⟨e, he⟩)
        · cases j with
          | zero => rcases hj with hj | hj <;> cases hj
          | succ j => rcases hj with hj | hj <;> cases hj
        · cases e with
          | zero => rcases he with he | he <;> cases he
          | succ e => rcases he with he | he <;> cases he
      · rintro s ⟨⟩
        exact .single trivial

/-- What the client meets: two refusals of the path, and the daemon. -/
def bindsLateEnv : Env Nat where
  first := .error ⟨.connectionRefused, "Connection refused (os error 111)"⟩
  socketExists := true
  spawn := ⟨.ok "/bin/hwwctl", none, .ok ()⟩
  began := 0
  rounds := [⟨.error ⟨.notFound, "No such file or directory (os error 2)"⟩, 1, 1⟩, ⟨.ok 0, 52, 52⟩]

theorem wait_finds_daemon_bindsLate : ∃ path rounds last,
    run Path.step (.init true) afterCrash = some path ∧
      visits 0 path bindsLate = some (rounds, last) ∧ bindsLateEnv.rounds = connects rounds ∧
      (connectOrSpawn "/tmp/s" bindsLateEnv).result = some (.ok 0) ∧
      last.clients[0]? = some (.connected 0) := by
  have hwait := wait_finds_daemon true afterCrash bindsLate 0 "/tmp/s" bindsLateEnv rfl
    bindsLate_clear rfl rfl rfl
  have hresult : (connectOrSpawn "/tmp/s" bindsLateEnv).result = some (.ok 0) := by
    simp [connectOrSpawn, bindsLateEnv, wouldBenefitFromSpawn, spawnDetachedDaemon, waitForSocket,
      waitLoop, spawnReadyTimeout]
  exact ⟨_, _, _, rfl, rfl, rfl, hresult, (hwait.1 0 hresult).1⟩

end Hwwctl.AutoSpawn
