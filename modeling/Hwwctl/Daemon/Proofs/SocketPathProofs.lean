import Hwwctl.Daemon.SocketPath
import Hwwctl.Library.Runtime

/-!
# Who removes a live daemon's socket file?

A client or a daemon that is about to remove the file has looked at the path before, and a daemon
may have come to serve there since. As long as nobody is in that position when a daemon begins to
listen, its own file is there by then, and no daemon looks at the path of a daemon that serves, the
file of a serving daemon stays, and clients find it.
-/

namespace Hwwctl.SocketPath

open Transition Runtime

def Serving (s : Path) (d : Nat) : Prop := s.daemons[d]? = some .serving

/-- Every serving daemon can be reached at the path; so there is at most one. -/
def Reachable (s : Path) : Prop := ∀ d, Serving s d → s.file = some (.boundBy d)

/-- No daemon that serves before and after loses its file. -/
def KeepsFiles (s s' : Path) : Prop :=
  ∀ d, s.file = some (.boundBy d) → Serving s d → Serving s' d → s'.file = some (.boundBy d)

/-- A client that connects while a daemon serves is connected to it. -/
def FindsDaemon (s : Path) (a : Act) (s' : Path) : Prop :=
  ∀ i d, a = .connect i ∨ a = .poll i → Serving s d → s'.clients[i]? = some (.connected d)

/-- The clients of serving daemons are clients of the same one. -/
def OneDaemon (s : Path) : Prop :=
  ∀ i j d e : Nat, s.clients[i]? = some (.connected d) → s.clients[j]? = some (.connected e) →
    Serving s d → Serving s e → d = e

/-- Somebody has looked at the path and is on its way to removing what stands there by then. -/
def Hazard (s : Path) : Prop :=
  (∃ i : Nat, s.clients[i]? = some .checking ∨ s.clients[i]? = some .unlinking) ∨
    ∃ d : Nat, s.daemons[d]? = some .removing ∨ s.daemons[d]? = some .leaving

/-- The steps that may make the file of a serving daemon one to be removed. -/
def Clear (s : Path) : Act → Prop
  | .look _ => ∀ e, ¬ Serving s e
  | .listen d => s.file = some (.boundBy d) ∧ ¬ Hazard s
  | _ => True

/-- The steps on which `Clear` puts no condition. -/
def Free : Act → Prop
  | .look _ => False
  | .listen _ => False
  | _ => True

theorem Reachable.unique {s : Path} (h : Reachable s) {d e : Nat} (hd : Serving s d)
    (he : Serving s e) : d = e := by
  have hfile := (h d hd).symm.trans (h e he)
  simpa using hfile

structure Undisputed (s : Path) : Prop where
  reachable : Reachable s
  calm : ∀ d, Serving s d → ¬ Hazard s

variable {s s' : Path} {a : Act}

theorem Undisputed.of_none (h : ∀ d, ¬ Serving s d) : Undisputed s :=
  ⟨fun d hd => absurd hd (h d), fun d hd => absurd hd (h d)⟩

theorem Undisputed.none_of_hazard (h : Undisputed s) (hz : Hazard s) : ∀ d, ¬ Serving s d :=
  fun d hd => h.calm d hd hz

/-- With a daemon serving, a connect reaches it. -/
theorem Reachable.listener {d : Nat} (h : Reachable s) (hd : Serving s d) :
    s.listener = some d := by
  unfold Path.listener
  rw [h d hd]
  exact if_pos (.inl hd)

theorem Undisputed.none_of_listener (h : Undisputed s) (hnone : s.listener = none) :
    ∀ d, ¬ Serving s d := by
  intro d hd
  rw [h.reachable.listener hd] at hnone
  cases hnone

theorem Reachable.oneDaemon (h : Reachable s) : OneDaemon s :=
  fun _ _ _ _ _ _ hd he => h.unique hd he

/-! ## Phases -/

theorem clients_of_setClient {i j : Nat} {phase phase' : ClientPhase}
    (h : (s.setClient i phase).clients[j]? = some phase') :
    phase' = phase ∨ s.clients[j]? = some phase' := by
  simp only [Path.setClient, List.getElem?_set] at h
  split at h
  · split at h
    · exact .inl (Option.some.inj h).symm
    · cases h
  · exact .inr h

theorem daemons_of_setDaemon {d e : Nat} {phase phase' : DaemonPhase}
    (h : (s.setDaemon d phase).daemons[e]? = some phase') :
    (e = d ∧ phase' = phase) ∨ (e ≠ d ∧ s.daemons[e]? = some phase') := by
  simp only [Path.setDaemon, List.getElem?_set] at h
  split at h
  · rename_i hde
    split at h
    · exact .inl ⟨hde.symm, (Option.some.inj h).symm⟩
    · cases h
  · rename_i hde
    exact .inr ⟨fun he => hde he.symm, h⟩

theorem setDaemon_self {d : Nat} {phase phase' : DaemonPhase} (h : s.daemons[d]? = some phase') :
    (s.setDaemon d phase).daemons[d]? = some phase := by
  have hlt : d < s.daemons.length := (List.getElem?_eq_some_iff.1 h).1
  simp only [Path.setDaemon, List.getElem?_set, if_true, hlt]

theorem setDaemon_ne {d e : Nat} {phase : DaemonPhase} (h : d ≠ e) :
    (s.setDaemon d phase).daemons[e]? = s.daemons[e]? := by
  simp only [Path.setDaemon, List.getElem?_set, if_neg h]

theorem setClient_self {i : Nat} {phase phase' : ClientPhase} (h : s.clients[i]? = some phase') :
    (s.setClient i phase).clients[i]? = some phase := by
  have hlt : i < s.clients.length := (List.getElem?_eq_some_iff.1 h).1
  simp only [Path.setClient, List.getElem?_set, if_true, hlt]

/-- A client that moves on without looking at the path changes nothing that matters. -/
theorem Undisputed.setClient (h : Undisputed s) (i : Nat) {phase : ClientPhase}
    (hphase : phase ≠ .checking ∧ phase ≠ .unlinking) : Undisputed (s.setClient i phase) := by
  refine ⟨h.reachable, ?_⟩
  rintro d hd (⟨j, hj | hj⟩ | hz)
  · rcases clients_of_setClient hj with hnew | hold
    · exact hphase.1 hnew.symm
    · exact h.calm d hd (.inl ⟨j, .inl hold⟩)
  · rcases clients_of_setClient hj with hnew | hold
    · exact hphase.2 hnew.symm
    · exact h.calm d hd (.inl ⟨j, .inr hold⟩)
  · exact h.calm d hd (.inr hz)

/-- A daemon that is done, or goes on to bind, changes nothing that matters. -/
theorem Undisputed.setDaemon (h : Undisputed s) (d : Nat) {phase : DaemonPhase}
    (hphase : phase ≠ .serving ∧ phase ≠ .removing ∧ phase ≠ .leaving) :
    Undisputed (s.setDaemon d phase) := by
  have hserving : ∀ e, Serving (s.setDaemon d phase) e → Serving s e := by
    intro e he
    rcases daemons_of_setDaemon he with ⟨-, hnew⟩ | ⟨-, hold⟩
    · exact absurd hnew.symm hphase.1
    · exact hold
  refine ⟨fun e he => h.reachable e (hserving e he), ?_⟩
  rintro e he (hz | ⟨f, hf | hf⟩)
  · exact h.calm e (hserving e he) (.inl hz)
  · rcases daemons_of_setDaemon hf with ⟨-, hnew⟩ | ⟨-, hold⟩
    · exact hphase.2.1 hnew.symm
    · exact h.calm e (hserving e he) (.inr ⟨f, .inl hold⟩)
  · rcases daemons_of_setDaemon hf with ⟨-, hnew⟩ | ⟨-, hold⟩
    · exact hphase.2.2 hnew.symm
    · exact h.calm e (hserving e he) (.inr ⟨f, .inr hold⟩)

theorem Undisputed.addDaemon (h : Undisputed s) :
    Undisputed { s with daemons := s.daemons ++ [.starting] } := by
  have hold : ∀ {d : Nat} {phase : DaemonPhase}, phase ≠ .starting →
      (s.daemons ++ [.starting])[d]? = some phase → s.daemons[d]? = some phase := by
    intro d phase hphase hd
    rcases getElem?_concat_some hd with hold | hnew
    · exact hold
    · exact absurd hnew hphase
  refine ⟨fun d hd => h.reachable d (hold (by simp) hd), ?_⟩
  rintro d hd (hz | ⟨e, he | he⟩)
  · exact h.calm d (hold (by simp) hd) (.inl hz)
  · exact h.calm d (hold (by simp) hd) (.inr ⟨e, .inl (hold (by simp) he)⟩)
  · exact h.calm d (hold (by simp) hd) (.inr ⟨e, .inr (hold (by simp) he)⟩)

/-- No daemon serves that did not serve before, except one that moves to `serving`. -/
theorem not_serving_setDaemon {d : Nat} {phase : DaemonPhase} (hphase : phase ≠ .serving)
    (h : ∀ e, ¬ Serving s e) : ∀ e, ¬ Serving (s.setDaemon d phase) e := by
  intro e he
  rcases daemons_of_setDaemon he with ⟨-, hnew⟩ | ⟨-, hold⟩
  · exact hphase hnew.symm
  · exact h e hold

/-! ## One step -/

theorem Undisputed.listen (h : Undisputed s) {d : Nat} (hd : s.daemons[d]? = some .bound)
    (hfile : s.file = some (.boundBy d)) (hclear : ¬ Hazard s) :
    Undisputed (s.setDaemon d .serving) := by
  refine ⟨?_, ?_⟩
  · intro e he
    rcases daemons_of_setDaemon he with ⟨rfl, -⟩ | ⟨-, hold⟩
    · exact hfile
    · exact h.reachable e hold
  · rintro e - (hz | ⟨f, hf | hf⟩)
    · exact hclear (.inl hz)
    · rcases daemons_of_setDaemon hf with ⟨-, hnew⟩ | ⟨-, hold⟩
      · cases hnew
      · exact hclear (.inr ⟨f, .inl hold⟩)
    · rcases daemons_of_setDaemon hf with ⟨-, hnew⟩ | ⟨-, hold⟩
      · cases hnew
      · exact hclear (.inr ⟨f, .inr hold⟩)

theorem step_undisputed (h : Undisputed s) (hclear : Clear s a) (hstep : s.step a = some s') :
    Undisputed s' := by
  cases a with
  | newClient =>
    cases hstep
    refine ⟨h.reachable, ?_⟩
    rintro d hd (⟨i, hi⟩ | hz)
    · refine h.calm d hd (.inl ⟨i, ?_⟩)
      rcases hi with hi | hi
      · rcases getElem?_concat_some hi with hold | hnew
        · exact .inl hold
        · cases hnew
      · rcases getElem?_concat_some hi with hold | hnew
        · exact .inr hold
        · cases hnew
    · exact h.calm d hd (.inr hz)
  | connect i =>
    simp only [Path.step, Option.ite_none_right_eq_some] at hstep
    obtain ⟨-, hstep⟩ := hstep
    split at hstep <;> cases hstep
    · exact h.setClient i (by simp)
    · rename_i hnone
      exact .of_none (h.none_of_listener hnone)
  | connectFails i | spawnFails i | giveUp i =>
    simp only [Path.step, Option.ite_none_right_eq_some, Option.some.injEq] at hstep
    obtain ⟨-, rfl⟩ := hstep
    exact h.setClient i (by simp)
  | check i =>
    simp only [Path.step, Option.ite_none_right_eq_some, Option.some.injEq] at hstep
    obtain ⟨hi, rfl⟩ := hstep
    exact .of_none (h.none_of_hazard (.inl ⟨i, .inl hi⟩))
  | unlink i ok =>
    simp only [Path.step, Option.ite_none_right_eq_some, Option.some.injEq] at hstep
    obtain ⟨hi, rfl⟩ := hstep
    exact .of_none (h.none_of_hazard (.inl ⟨i, .inr hi⟩))
  | spawn i =>
    simp only [Path.step, Option.ite_none_right_eq_some, Option.some.injEq] at hstep
    obtain ⟨-, rfl⟩ := hstep
    exact (h.setClient i (by simp)).addDaemon
  | poll i =>
    simp only [Path.step, Option.ite_none_right_eq_some] at hstep
    obtain ⟨-, hstep⟩ := hstep
    split at hstep <;> cases hstep
    · exact h.setClient i (by simp)
    · exact h
  | look d =>
    simp only [Path.step, Option.ite_none_right_eq_some, Option.some.injEq] at hstep
    obtain ⟨-, rfl⟩ := hstep
    refine .of_none (not_serving_setDaemon ?_ hclear)
    split <;> simp
  | remove d =>
    simp only [Path.step, Option.ite_none_right_eq_some] at hstep
    obtain ⟨hd, hstep⟩ := hstep
    have hnone := h.none_of_hazard (.inr ⟨d, .inl hd⟩)
    split at hstep <;> cases hstep
    · exact .of_none (not_serving_setDaemon (by simp) hnone)
    · exact .of_none (not_serving_setDaemon (by simp) hnone)
  | removeFails d | bindFails d | listenFails d =>
    simp only [Path.step, Option.ite_none_right_eq_some, Option.some.injEq] at hstep
    obtain ⟨-, rfl⟩ := hstep
    exact h.setDaemon d (by simp)
  | bind d =>
    simp only [Path.step, Option.ite_none_right_eq_some] at hstep
    obtain ⟨-, hstep⟩ := hstep
    split at hstep <;> cases hstep
    · -- The place is free, so that no daemon serves there.
      rename_i hfile
      refine .of_none (not_serving_setDaemon (by simp) fun e he => ?_)
      have hbound := h.reachable e he
      rw [hfile] at hbound
      cases hbound
    · exact h.setDaemon d (by simp)
  | listen d =>
    simp only [Path.step, Option.ite_none_right_eq_some, Option.some.injEq] at hstep
    obtain ⟨hd, rfl⟩ := hstep
    exact h.listen hd hclear.1 hclear.2
  | leave d =>
    simp only [Path.step, Option.ite_none_right_eq_some, Option.some.injEq] at hstep
    obtain ⟨hd, rfl⟩ := hstep
    refine .of_none ?_
    intro e he
    rcases daemons_of_setDaemon he with ⟨-, hnew⟩ | ⟨hne, hold⟩
    · cases hnew
    · exact hne (h.reachable.unique hold hd)
  | cleanUp d ok =>
    simp only [Path.step, Option.ite_none_right_eq_some, Option.some.injEq] at hstep
    obtain ⟨hd, rfl⟩ := hstep
    have hnone := h.none_of_hazard (.inr ⟨d, .inr hd⟩)
    exact .of_none (not_serving_setDaemon (by simp) hnone)
  | crash d =>
    simp only [Path.step, Option.ite_none_right_eq_some, Option.some.injEq] at hstep
    obtain ⟨-, rfl⟩ := hstep
    exact h.setDaemon d (by simp)

/-! ## A step that is not clear -/

theorem serving_setDaemon {d e : Nat} {phase phase' : DaemonPhase}
    (hd : s.daemons[d]? = some phase') (hphase' : phase' ≠ .serving) (he : Serving s e) :
    Serving (s.setDaemon d phase) e := by
  have hne : d ≠ e := by
    rintro rfl
    exact hphase' (Option.some.inj (hd.symm.trans he))
  exact (setDaemon_ne hne).trans he

/-- Whoever is on its way to removing the file removes it, whatever it is by now. -/
theorem Hazard.removes (hz : Hazard s) (hfile : s.file.isSome) :
    ∃ q s', (∀ b ∈ q, Free b) ∧ run Path.step s q = some s' ∧ s'.file = none ∧
      ∀ e, Serving s e → Serving s' e := by
  have hone : ∀ {b : Act} {s' : Path}, s.step b = some s' → run Path.step s [b] = some s' := by
    intro b s' hb
    rw [run_cons, hb]
    rfl
  rcases hz with ⟨i, hi | hi⟩ | ⟨d, hd | hd⟩
  · refine ⟨[.check i, .unlink i true], { (s.setClient i .unlinking).setClient i .spawning with
      file := none }, by simp [Free], ?_, rfl, fun e he => he⟩
    have hunlinking : (s.setClient i .unlinking).clients[i]? = some .unlinking := setClient_self hi
    simp only [run_cons, run_nil, Path.step, hi, if_true, hfile, Option.bind_some, hunlinking]
  · refine ⟨[.unlink i true], { s.setClient i .spawning with file := none }, by simp [Free],
      hone ?_, rfl, fun e he => he⟩
    simp only [Path.step, hi, if_true]
  · obtain ⟨n, hn⟩ := Option.isSome_iff_exists.1 hfile
    refine ⟨[.remove d], { s.setDaemon d .binding with file := none }, by simp [Free], hone ?_, rfl,
      fun e he => serving_setDaemon hd (by simp) he⟩
    simp only [Path.step, hd, if_true, hn]
  · refine ⟨[.cleanUp d true], { s.setDaemon d .done with file := none }, by simp [Free], hone ?_,
      rfl, fun e he => serving_setDaemon hd (by simp) he⟩
    simp only [Path.step, hd, if_true]

/-- After a step that is not clear, a serving daemon's file is gone, or somebody is about to remove
it. -/
theorem hazard_of_not_clear (h : Reachable s) (hclear : ¬ Clear s a) (hstep : s.step a = some s') :
    ¬ Reachable s' ∨ Hazard s' ∧ s'.file.isSome ∧ ∃ e, Serving s' e := by
  cases a with
  | look d =>
    simp only [Clear, not_forall, not_not] at hclear
    obtain ⟨e, he⟩ := hclear
    simp only [Path.step, Option.ite_none_right_eq_some, Option.some.injEq] at hstep
    obtain ⟨hd, rfl⟩ := hstep
    have hfile := h e he
    refine .inr ⟨.inr ⟨d, .inl ?_⟩, by simp [Path.setDaemon, hfile], e,
      serving_setDaemon hd (by simp) he⟩
    simp only [hfile, Option.isSome_some, if_true]
    exact setDaemon_self hd
  | listen d =>
    simp only [Path.step, Option.ite_none_right_eq_some, Option.some.injEq] at hstep
    obtain ⟨hd, rfl⟩ := hstep
    by_cases hfile : s.file = some (.boundBy d)
    · have hz : Hazard s := not_not.1 fun hcalm => hclear ⟨hfile, hcalm⟩
      have hother : ∀ {e : Nat} {phase : DaemonPhase}, phase ≠ .bound →
          s.daemons[e]? = some phase → (s.setDaemon d .serving).daemons[e]? = some phase := by
        intro e phase hphase he
        have hne : d ≠ e := by
          rintro rfl
          exact hphase (Option.some.inj (he.symm.trans hd))
        exact (setDaemon_ne hne).trans he
      refine .inr ⟨?_, by simp [Path.setDaemon, hfile], d, setDaemon_self hd⟩
      rcases hz with hclient | ⟨e, he | he⟩
      · exact .inl hclient
      · exact .inr ⟨e, .inl (hother (by simp) he)⟩
      · exact .inr ⟨e, .inr (hother (by simp) he)⟩
    · exact .inl fun hreach => hfile (hreach d (setDaemon_self hd))
  | _ => exact absurd trivial hclear

/-! ## Runs -/

/-- A schedule that takes no serving daemon its file, and in which clients find it. -/
structure Unharmed (s : Path) (acts : List Act) : Prop where
  reachable : Always Path.step Reachable s acts
  keeps : Guarded Path.step (fun s a => ∀ s', s.step a = some s' → KeepsFiles s s') s acts
  finds : Guarded Path.step (fun s a => ∀ s', s.step a = some s' → FindsDaemon s a s') s acts
  one : Always Path.step OneDaemon s acts

/-- A connect meets the daemon that serves. -/
theorem findsDaemon_of_reachable (h : Reachable s) (hstep : s.step a = some s') :
    FindsDaemon s a s' := by
  rintro i d (rfl | rfl) hd
  · simp only [Path.step, Option.ite_none_right_eq_some, h.listener hd, Option.some.injEq] at hstep
    obtain ⟨hi, rfl⟩ := hstep
    exact setClient_self hi
  · simp only [Path.step, Option.ite_none_right_eq_some, h.listener hd, Option.some.injEq] at hstep
    obtain ⟨hi, rfl⟩ := hstep
    exact setClient_self hi

theorem unharmed_of_guarded {acts : List Act} (h : Undisputed s)
    (hclear : Guarded Path.step Clear s acts) : Unharmed s acts := by
  have hinv : Always Path.step Undisputed s acts :=
    hclear.always h fun _ _ _ hs hc hstep => step_undisputed hs hc hstep
  refine ⟨hinv.mono fun _ hs => hs.reachable, ?_, ?_, hinv.mono fun _ hs => hs.reachable.oneDaemon⟩
  · intro p a hp s₁ _ hrun _ s₂ hstep d _ _ hserving
    have hrun₂ : run Path.step s (p ++ [a]) = some s₂ := by
      rw [run_concat, hrun]
      exact hstep
    exact (hinv _ hp s₂ hrun₂).reachable d hserving
  · intro p a hp s₁ _ hrun _ s₂ hstep
    exact findsDaemon_of_reachable
      (hinv p ((List.prefix_append p [a]).trans hp) s₁ hrun).reachable hstep

/-- A run takes no serving daemon its file, and cannot come to do so by steps of processes that have
already looked, exactly when its looks and listens are clear. -/
theorem unharmed_iff (stale : Bool) (acts : List Act) :
    (∀ p q, p <+: acts → (∀ a ∈ q, Free a) → Unharmed (.init stale) (p ++ q)) ↔
      Guarded Path.step Clear (.init stale) acts := by
  constructor
  · intro hall p a hp s s' hrun hstep
    by_contra hclear
    have hrun' : run Path.step (.init stale) (p ++ [a]) = some s' := by
      rw [run_concat, hrun]
      exact hstep
    have hreach : Reachable s := by
      have hbefore := (hall p [] ((List.prefix_append _ _).trans hp) (by simp)).reachable
      rw [List.append_nil] at hbefore
      exact hbefore.of_run hrun
    rcases hazard_of_not_clear hreach hclear hstep with hlost | ⟨hz, hfile, e, he⟩
    · have hafter := (hall (p ++ [a]) [] hp (by simp)).reachable
      rw [List.append_nil] at hafter
      exact hlost (hafter.of_run hrun')
    · obtain ⟨q, s'', hfree, hremoves, hnone, hserving⟩ := hz.removes hfile
      have hrun'' : run Path.step (.init stale) ((p ++ [a]) ++ q) = some s'' := by
        rw [run_append, hrun']
        exact hremoves
      have hafter := (hall (p ++ [a]) q hp hfree).reachable.of_run hrun'' e (hserving e he)
      rw [hnone] at hafter
      cases hafter
  · intro hclear p q hp hfree
    refine unharmed_of_guarded (.of_none fun d hd => by cases hd) ?_
    refine (hclear.of_prefix hp).append fun s' _ => .of_forall ?_
    intro a ha s
    have hfreeA := hfree a ha
    cases a with
    | look | listen => exact hfreeA.elim
    | _ => trivial

/-- Two first commands at once: both clients find no file and spawn, and the second daemon looks at
the path when the first serves there. -/
def twoFirstCommands : List Act :=
  [.newClient, .newClient, .connect 0, .connect 1, .check 0, .check 1, .spawn 0, .spawn 1, .look 0,
    .bind 0, .listen 0, .look 1]

theorem twoFirstCommands_unlinks :
    ∃ s s', run Path.step (.init false) twoFirstCommands = some s ∧ s.step (.remove 1) = some s' ∧
      s.file = some (.boundBy 0) ∧ Serving s 0 ∧ Serving s' 0 ∧ s'.file = none :=
  ⟨_, _, rfl, rfl, rfl, rfl, rfl, rfl⟩

end Hwwctl.SocketPath
