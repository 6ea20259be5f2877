import Hwwctl.Daemon.Proofs.DrainProofs

/-!
# Is a `Shutdown` acknowledged before the daemon returns?

A task writes its reply before it notifies the loop, but the loop ends with the first notification,
or with a failing accept, whoever else is still owed a reply.
-/

namespace Hwwctl.Daemon

open Control Transition

/-- A `Shutdown` was read and the reply to it is not written. -/
def Owes : Phase → Prop
  | .sending cmd | .awaiting cmd => cmd = .shutdown
  | .writing isShutdown _ => isShutdown = true
  | _ => False

/-- The client of the task is owed the reply to its `Shutdown`. -/
def Owed (d : DaemonState) (i : Nat) : Prop :=
  ∃ t : Task, d.tasks[i]? = some t ∧ t.origin = .client ∧ Owes t.phase

/-- Every client whose `Shutdown` was read had its reply written. -/
def Acknowledged (acts : List Act) : Prop := ∀ i, .request i .shutdown ∈ acts → .write i ∈ acts

/-- What keeps a client from being left behind: the loop is told to end only when no reply is owed,
and once it was told, no further `Shutdown` is read; and the client stays until it has the reply. -/
def AckKept (d : DaemonState) : Act → Prop
  | .notify _ => d.loop = .between ∨ ∀ i, ¬ Owed d i
  | .acceptFails => ∀ i, ¬ Owed d i
  | .request _ .shutdown => ¬ Ending d.loop
  | .writeFails i => ¬ Owed d i
  | _ => True

variable {d d' : DaemonState} {a : Act} {i j : Nat}

/-! ## Who is owed a reply -/

theorem owed_of_tasks (h : d'.tasks = d.tasks) : Owed d' j ↔ Owed d j := by
  unfold Owed
  rw [h]

theorem owed_accept {t : Task} (ht : t.phase = .reading) (htasks : d'.tasks = d.tasks ++ [t]) :
    Owed d' j ↔ Owed d j := by
  unfold Owed
  rw [htasks]
  constructor
  · rintro ⟨u, hu, horigin, howes⟩
    rcases Runtime.getElem?_concat_some hu with hu | rfl
    · exact ⟨u, hu, horigin, howes⟩
    · rw [ht] at howes
      exact howes.elim
  · rintro ⟨u, hu, hrest⟩
    have hj : j < d.tasks.length := (List.getElem?_eq_some_iff.1 hu).1
    exact ⟨u, by rw [List.getElem?_append_left hj, hu], hrest⟩

/-- A task that moves on is owed what its new phase says, the others what they were owed. -/
theorem owed_setPhase {t : Task} {phase : Phase} (h : d.tasks[i]? = some t)
    (htasks : d'.tasks = (d.setPhase i phase).tasks) :
    Owed d' j ↔ (j = i ∧ t.origin = .client ∧ Owes phase) ∨ (j ≠ i ∧ Owed d j) := by
  unfold Owed
  rw [htasks]
  by_cases hij : j = i
  · subst hij
    rw [setPhase_self h]
    simp
  · rw [setPhase_ne (Ne.symm hij)]
    simp [hij]

theorem owed_iff {t : Task} (h : d.tasks[i]? = some t) :
    Owed d i ↔ t.origin = .client ∧ Owes t.phase := by
  unfold Owed
  rw [h]
  simp

/-- The step writes the reply of task `i`, or fails to. -/
def EndsReply (i : Nat) (a : Act) : Prop := a = .write i ∨ a = .writeFails i

theorem owed_stays (h : Owed d' j ↔ Owed d j) (hends : ¬ EndsReply j a)
    (hrequest : a ≠ .request j .shutdown) :
    Owed d' j ↔ (Owed d j ∧ ¬ EndsReply j a) ∨ a = .request j .shutdown := by
  rw [h]
  simp [hends, hrequest]

/-- What a step owes whom, from what it does to the one task it moves. -/
theorem owed_moves {t : Task} {phase : Phase} (h : d.tasks[i]? = some t)
    (htasks : d'.tasks = (d.setPhase i phase).tasks)
    (hself : (t.origin = .client ∧ Owes phase) ↔
      ((t.origin = .client ∧ Owes t.phase) ∧ ¬ EndsReply i a) ∨ a = .request i .shutdown)
    (hother : ∀ k, k ≠ i → ¬ EndsReply k a ∧ a ≠ .request k .shutdown) :
    Owed d' j ↔ (Owed d j ∧ ¬ EndsReply j a) ∨ a = .request j .shutdown := by
  rw [owed_setPhase h htasks]
  by_cases hij : j = i
  · subst hij
    rw [owed_iff h, ← hself]
    simp
  · obtain ⟨hends, hrequest⟩ := hother j hij
    simp [hij, hends, hrequest]

/-- A `Shutdown` that is read is owed a reply, until the reply is written or fails to be. -/
theorem Steps.owed (h : Steps d a d') :
    Owed d' j ↔ (Owed d j ∧ ¬ EndsReply j a) ∨ a = .request j .shutdown := by
  cases h with
  | select | notified | acceptFails | returns | take | finishUnheard =>
    exact owed_stays (owed_of_tasks rfl) (by simp [EndsReply]) (by simp)
  | accept => exact owed_stays (owed_accept rfl rfl) (by simp [EndsReply]) (by simp)
  | @request i req cmd ht hreq =>
    refine owed_moves ht rfl ?_ ?_
    · cases req <;> cases hreq <;> simp [Owes, EndsReply]
    · intro k hk
      simp [EndsReply, Ne.symm hk]
  | @ping i req ht hreq =>
    refine owed_moves ht rfl ?_ ?_
    · cases req <;> cases hreq
      simp [Owes, EndsReply]
    · intro k hk
      simp [EndsReply, Ne.symm hk]
  | hangUp ht | signal ht | notify ht =>
    refine owed_moves ht rfl ?_ ?_
    · simp [Owes, EndsReply]
    · intro k _
      simp [EndsReply]
  | send ht _ =>
    refine owed_moves ht rfl ?_ ?_
    · simp [Owes, EndsReply]
    · intro k _
      simp [EndsReply]
  | @finish env i cmd asked origin _ ht =>
    refine owed_moves ht rfl ?_ ?_
    · cases origin <;> simp [Owes, EndsReply, afterReply]
    · intro k _
      simp [EndsReply]
  | @write i origin isShutdown response ht =>
    refine owed_moves ht rfl ?_ ?_
    · cases isShutdown <;> simp [Owes, EndsReply]
    · intro k hk
      simp [EndsReply, Ne.symm hk]
  | writeFails ht =>
    refine owed_moves ht rfl ?_ ?_
    · simp [Owes, EndsReply]
    · intro k hk
      simp [EndsReply, Ne.symm hk]

/-! ## The history of a run -/

/-- The task has no reply left to write. -/
def Past : Phase → Prop
  | .notifying | .done _ => True
  | _ => False

def PastReply (d : DaemonState) (i : Nat) : Prop :=
  ∃ t : Task, d.tasks[i]? = some t ∧ Past t.phase

theorem pastReply_setPhase {t : Task} {phase : Phase} (h : d.tasks[i]? = some t)
    (htasks : d'.tasks = (d.setPhase i phase).tasks) (hphase : Past t.phase → Past phase)
    (hj : PastReply d j) : PastReply d' j := by
  obtain ⟨u, hu, hpast⟩ := hj
  unfold PastReply
  rw [htasks]
  by_cases hij : i = j
  · subst hij
    obtain rfl := Option.some.inj (h.symm.trans hu)
    exact ⟨_, setPhase_self h phase, hphase hpast⟩
  · exact ⟨u, (setPhase_ne hij phase).trans hu, hpast⟩

theorem Steps.pastReply (h : Steps d a d') (hj : PastReply d j) : PastReply d' j := by
  cases h with
  | select | notified | acceptFails | returns | take | finishUnheard => exact hj
  | accept =>
    obtain ⟨t, ht, hpast⟩ := hj
    have hlt : j < d.tasks.length := (List.getElem?_eq_some_iff.1 ht).1
    exact ⟨t, by rw [List.getElem?_append_left hlt, ht], hpast⟩
  | request ht | ping ht | hangUp ht | signal ht | send ht | finish _ ht | write ht
  | writeFails ht => exact pastReply_setPhase ht rfl (fun hpast => hpast.elim) hj
  | notify ht => exact pastReply_setPhase ht rfl (fun _ => trivial) hj

/-- A reply that is written is no longer owed. -/
theorem Steps.write_pastReply (h : Steps d (.write i) d') : PastReply d' i := by
  cases h with
  | @write i origin isShutdown response ht =>
    refine ⟨_, setPhase_self ht _, ?_⟩
    cases isShutdown <;> exact trivial

theorem not_owed_of_pastReply (h : PastReply d i) : ¬ Owed d i := by
  obtain ⟨t, ht, hpast⟩ := h
  rw [owed_iff ht]
  rintro ⟨-, howes⟩
  revert hpast howes
  cases t.phase <;> simp [Past, Owes]

/-- Who is owed a reply asked for it and did not get it. -/
structure Outstanding (acts : List Act) (d : DaemonState) : Prop where
  asked : ∀ i, Owed d i → .request i .shutdown ∈ acts
  written : ∀ i, .write i ∈ acts → PastReply d i

theorem Steps.outstanding {acts : List Act} (h : Steps d a d') (ho : Outstanding acts d) :
    Outstanding (acts ++ [a]) d' := by
  constructor
  · intro i howed
    rcases h.owed.1 howed with ⟨howed, -⟩ | rfl
    · exact List.mem_append_left _ (ho.asked i howed)
    · exact List.mem_append_right _ List.mem_cons_self
  · intro i hwrite
    rcases List.mem_append.1 hwrite with hwrite | hwrite
    · exact h.pastReply (ho.written i hwrite)
    · obtain rfl := List.mem_singleton.1 hwrite
      exact h.write_pastReply

theorem Outstanding.init (info : PongInfo) : Outstanding [] (.init info) := by
  constructor
  · rintro i ⟨t, ht, horigin, -⟩
    obtain rfl := List.mem_singleton.1 (List.mem_of_getElem? ht)
    cases horigin
  · intro i hwrite
    cases hwrite

theorem outstanding_of_run {info : PongInfo} {acts : List Act}
    (hrun : run DaemonState.step (.init info) acts = some d) : Outstanding acts d :=
  history_of_step (R := Outstanding) (Outstanding.init info)
    (fun _ _ _ _ ho hstep => (step_cases hstep).2.outstanding ho) hrun

/-! ## Runs that acknowledge -/

/-- Every client that asked has its reply or is owed it, and when the loop is told to end, nobody is
owed one. -/
structure Acknowledging (acts : List Act) (d : DaemonState) : Prop where
  answered : ∀ i, .request i .shutdown ∈ acts → .write i ∈ acts ∨ Owed d i
  settled : Ending d.loop → ∀ i, ¬ Owed d i

theorem Steps.acknowledging {acts : List Act} (h : Steps d a d') (hack : Acknowledging acts d)
    (hkept : AckKept d a) : Acknowledging (acts ++ [a]) d' := by
  constructor
  · intro i hrequest
    rcases List.mem_append.1 hrequest with hrequest | hrequest
    · rcases hack.answered i hrequest with hwrite | howed
      · exact .inl (List.mem_append_left _ hwrite)
      · by_cases hends : EndsReply i a
        · rcases hends with rfl | rfl
          · exact .inl (List.mem_append_right _ List.mem_cons_self)
          · exact absurd howed hkept
        · exact .inr (h.owed.2 (.inl ⟨howed, hends⟩))
    · obtain rfl := List.mem_singleton.1 hrequest
      exact .inr (h.owed.2 (.inr rfl))
  · intro hending i howed
    rcases h.owed.1 howed with ⟨hbefore, -⟩ | rfl
    · cases h with
      | select => exact hending.2 rfl
      | accept => exact hending.1 rfl
      | notified hloop => exact hack.settled ⟨by simp [hloop], by simp [hloop]⟩ i hbefore
      | returns hloop => exact hack.settled ⟨by simp [hloop], by simp [hloop]⟩ i hbefore
      | acceptFails => exact hkept i hbefore
      | notify =>
        rcases hkept with hbetween | hnone
        · exact hending.1 (by simp [notifyWaiters, hbetween])
        · exact hnone i hbefore
      | _ => exact hack.settled hending i hbefore
    · cases h with
      | request => exact hkept hending
      | ping _ hreq => cases hreq

theorem Acknowledging.init (info : PongInfo) : Acknowledging [] (.init info) :=
  ⟨fun _ h => absurd h List.not_mem_nil, fun h => absurd rfl h.1⟩

/-- From every state the loop can come to its end without another step of a task. -/
theorem can_return (h : d.loop ≠ .returned) :
    ∃ more d', run DaemonState.step d more = some d' ∧ d'.loop = .returned ∧
      ∀ i, .write i ∉ more := by
  have hleaving : ∀ d : DaemonState, d.loop = .leaving → run DaemonState.step d [.returns] =
      some { d with loop := .returned } := by
    intro d hloop
    simp [run_cons, run_nil, DaemonState.step, DaemonState.stepRunning, hloop]
  have hselecting : ∀ d : DaemonState, d.loop = .selecting false →
      run DaemonState.step d [.acceptFails, .returns] = some { d with loop := .returned } := by
    intro d hloop
    rw [run_cons]
    simp [DaemonState.step, DaemonState.stepRunning, hloop, hleaving]
  cases hloop : d.loop with
  | between =>
    refine ⟨[.select, .acceptFails, .returns], { d with loop := .returned }, ?_, rfl, by simp⟩
    rw [run_cons]
    simp [DaemonState.step, DaemonState.stepRunning, hloop, hselecting]
  | selecting notified =>
    cases notified with
    | false => exact ⟨_, _, hselecting d hloop, rfl, by simp⟩
    | true =>
      refine ⟨[.notified, .returns], { d with loop := .returned }, ?_, rfl, by simp⟩
      rw [run_cons]
      simp [DaemonState.step, DaemonState.stepRunning, hloop, hleaving]
  | leaving => exact ⟨_, _, hleaving d hloop, rfl, by simp⟩
  | returned => exact absurd hloop h

/-- A step that is not kept leaves a client without its reply, or fails to write it. -/
theorem Steps.left_behind (h : Steps d a d') (hkept : ¬ AckKept d a) :
    ∃ i, Owed d' i ∨ (Owed d i ∧ a = .writeFails i) := by
  cases h with
  | @notify i origin ht =>
    simp only [AckKept, not_or, not_forall, not_not] at hkept
    obtain ⟨-, j, howed⟩ := hkept
    exact ⟨j, .inl ((Steps.notify ht).owed.2 (.inl ⟨howed, by simp [EndsReply]⟩))⟩
  | acceptFails hloop =>
    simp only [AckKept, not_forall, not_not] at hkept
    obtain ⟨j, howed⟩ := hkept
    exact ⟨j, .inl ((Steps.acceptFails hloop).owed.2 (.inl ⟨howed, by simp [EndsReply]⟩))⟩
  | @request i req cmd ht hreq =>
    cases req with
    | shutdown => exact ⟨i, .inl ((Steps.request ht hreq).owed.2 (.inr rfl))⟩
    | _ => exact absurd trivial hkept
  | @ping i req ht hreq =>
    cases req with
    | ping => exact absurd trivial hkept
    | _ => cases hreq
  | @writeFails i origin isShutdown response ht => exact ⟨i, .inr ⟨not_not.1 hkept, rfl⟩⟩
  | _ => exact absurd trivial hkept

theorem Steps.not_returned (h : Steps d a d') (hkept : ¬ AckKept d a) (hd : d.loop ≠ .returned) :
    d'.loop ≠ .returned := by
  cases h with
  | notify =>
    cases hloop : d.loop with
    | returned => exact absurd hloop hd
    | _ => simp [notifyWaiters]
  | acceptFails => simp
  | request | ping | writeFails => exact hd
  | _ => exact absurd trivial hkept

/-- In every run in which nobody is owed a reply when the loop is told to end, no `Shutdown` is read
behind that, and no reply to one fails, `run` returns with every `Shutdown` acknowledged; and every
step that breaks this can be followed by a return without the acknowledgement. -/
theorem acknowledged_before_return (info : PongInfo) (acts : List Act) :
    (Guarded DaemonState.step AckKept (.init info) acts →
      ∀ d, run DaemonState.step (.init info) acts = some d → d.loop = .returned →
        Acknowledged acts) ∧
    ∀ d a d', run DaemonState.step (.init info) acts = some d → d.step a = some d' →
      ¬ AckKept d a →
      ∃ more d'', run DaemonState.step (.init info) (acts ++ a :: more) = some d'' ∧
        d''.loop = .returned ∧ ¬ Acknowledged (acts ++ a :: more) := by
  constructor
  · intro hguard d hrun hreturned i hrequest
    have hack : Acknowledging acts d :=
      hguard.history (Acknowledging.init info)
        (fun _ _ _ _ hack hkept hstep => (step_cases hstep).2.acknowledging hack hkept) hrun
    rcases hack.answered i hrequest with hwrite | howed
    · exact hwrite
    · exact absurd howed (hack.settled ⟨by simp [hreturned], by simp [hreturned]⟩ i)
  · intro d a d' hrun hstep hkept
    obtain ⟨hnot, hsteps⟩ := step_cases hstep
    obtain ⟨more, d'', hmore, hreturned, hno⟩ := can_return (hsteps.not_returned hkept hnot)
    have hrun' : run DaemonState.step (.init info) (acts ++ [a]) = some d' := by
      rw [run_concat, hrun]
      exact hstep
    refine ⟨more, d'', ?_, hreturned, ?_⟩
    · rw [List.append_cons, run_append, hrun']
      exact hmore
    · intro hack
      obtain ⟨i, howed⟩ := hsteps.left_behind hkept
      have hasked : .request i .shutdown ∈ acts ++ [a] ∧ .write i ∉ acts ++ [a] := by
        rcases howed with howed | ⟨howed, rfl⟩
        · have ho := outstanding_of_run hrun'
          exact ⟨ho.asked i howed, fun hw => not_owed_of_pastReply (ho.written i hw) howed⟩
        · have ho := outstanding_of_run hrun
          refine ⟨List.mem_append_left _ (ho.asked i howed), ?_⟩
          intro hw
          rcases List.mem_append.1 hw with hw | hw
          · exact not_owed_of_pastReply (ho.written i hw) howed
          · cases List.mem_singleton.1 hw
      have hrequest : .request i .shutdown ∈ acts ++ a :: more := by
        rw [List.append_cons]
        exact List.mem_append_left _ hasked.1
      have hwrite := hack i hrequest
      rw [List.append_cons] at hwrite
      rcases List.mem_append.1 hwrite with hwrite | hwrite
      · exact hasked.2 hwrite
      · exact hno i hwrite

/-- Two clients ask for the shutdown at once, and both have their replies when the first of them
tells the loop to end. -/
def twoShutdowns : List Act :=
  [.select, .accept, .select, .accept, .select] ++
    .request 1 .shutdown :: .request 2 .shutdown ::
      ([.send 1, .send 2, .take, .finish readyEnv, .take, .finish readyEnv, .write 1, .write 2] ++
        .notify 1 :: .notify 2 :: [.notified, .returns])

theorem acknowledged_twoShutdowns :
    ∃ d, run DaemonState.step (.init ⟨"0.1.4", 1, 1⟩) twoShutdowns = some d ∧
      d.loop = .returned ∧ Acknowledged twoShutdowns := by
  obtain ⟨d, hrun, hreturned⟩ : ∃ d, run DaemonState.step (.init ⟨"0.1.4", 1, 1⟩) twoShutdowns =
      some d ∧ d.loop = .returned := ⟨_, rfl, rfl⟩
  refine ⟨d, hrun, hreturned,
    (acknowledged_before_return ⟨"0.1.4", 1, 1⟩ twoShutdowns).1 ?_ d hrun hreturned⟩
  -- only the requests and the notifications have a condition
  refine .append (.of_forall (by simp [AckKept])) fun d₁ h₁ => ?_
  obtain rfl := Option.some.inj h₁
  refine .cons (fun hending => hending.2 rfl) fun d₂ h₂ => ?_
  obtain rfl := Option.some.inj h₂
  refine .cons (fun hending => hending.2 rfl) fun d₃ h₃ => ?_
  obtain rfl := Option.some.inj h₃
  refine .append (.of_forall (by simp [AckKept])) fun d₄ h₄ => ?_
  obtain rfl := Option.some.inj h₄
  refine .cons (.inr ?_) fun d₅ h₅ => ?_
  · rintro i ⟨t, ht, -, howes⟩
    have hmem : t ∈ [⟨.signal, .reading⟩, ⟨.client, .notifying⟩, ⟨.client, .notifying⟩] :=
      List.mem_of_getElem? ht
    simp only [List.mem_cons, List.not_mem_nil, or_false] at hmem
    rcases hmem with rfl | rfl | rfl <;> exact howes
  · obtain rfl := Option.some.inj h₅
    refine .cons (.inr ?_) fun d₆ _ => .of_forall (by simp [AckKept])
    rintro i ⟨t, ht, -, howes⟩
    have hmem : t ∈ [⟨.signal, .reading⟩, ⟨.client, .done true⟩, ⟨.client, .notifying⟩] :=
      List.mem_of_getElem? ht
    simp only [List.mem_cons, List.not_mem_nil, or_false] at hmem
    rcases hmem with rfl | rfl | rfl <;> exact howes

/-- Two clients ask for the shutdown; the notification of the first ends the loop while the second
waits for the registry. -/
def secondLeftBehind : List Act :=
  [.select, .accept, .select, .accept, .select, .request 1 .shutdown, .request 2 .shutdown,
    .send 1, .send 2, .take, .finish readyEnv, .write 1, .notify 1, .notified, .returns]

theorem returns_secondLeftBehind :
    ∃ d, run DaemonState.step (.init ⟨"0.1.4", 1, 1⟩) secondLeftBehind = some d ∧
      d.loop = .returned ∧ ¬ Acknowledged secondLeftBehind := by
  refine ⟨_, rfl, rfl, ?_⟩
  intro hack
  have hwrite : .write 2 ∈ secondLeftBehind := hack 2 (by simp [secondLeftBehind])
  simp [secondLeftBehind] at hwrite

end Hwwctl.Daemon
