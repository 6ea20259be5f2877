import Hwwctl.Daemon.Proofs.AcknowledgeProofs
import Hwwctl.Daemon.Proofs.VisibilityProofs
import Hwwctl.Library.Fairness

/-!
# Every request is answered

A task may have to wait for room in the queue, and then for the commands before its own. Both come
to an end when nobody who can go on is passed over for ever: the registry empties the queue from the
front, and new commands stand behind.
-/

namespace Hwwctl.Daemon

open Control Linearizable Transition

/-- The registry takes a command from the queue or is done with one. -/
def RegistryActs (a : Act) : Prop := a = .take ∨ ∃ env, a = .finish env

/-- The registry, and every task that can write or notify, goes on at some time. The queue gives its
room to those that wait for it in their order, so a task that finds room again and again sends. -/
structure Fair {d : DaemonState} (e : Execution DaemonState.step d) : Prop where
  registry : e.WeaklyFair RegistryActs
  send : ∀ i, e.StronglyFair (· = .send i)
  reply : ∀ i, e.WeaklyFair (EndsReply i)
  notify : ∀ i, e.WeaklyFair (· = .notify i)

variable {d d' : DaemonState} {a : Act} {i : Nat}

/-! ## One task -/

/-- A step that moves the task on to the phase. -/
inductive MovesOn (d : DaemonState) (i : Nat) (t : Task) : Act → Phase → Prop where
  | request {req : Request} {phase : Phase} (h : t.phase = .reading) :
    MovesOn d i t (.request i req) phase
  | hangUp (h : t.phase = .reading) : MovesOn d i t (.hangUp i) (.done false)
  | signal (h : t.phase = .reading) : MovesOn d i t (.signal i) (.sending .shutdown)
  | send {cmd : Command} (h : t.phase = .sending cmd) : MovesOn d i t (.send i) (.awaiting cmd)
  | finish {env : CommandEnv} {cmd asked : Command} (hcurrent : d.current = some (i, cmd))
    (h : t.phase = .awaiting asked) :
    MovesOn d i t (.finish env) (afterReply t.origin asked (serve env cmd d.registry).1)
  | write {isShutdown : Bool} {response : Response} (h : t.phase = .writing isShutdown response) :
    MovesOn d i t (.write i) (if isShutdown then .notifying else .done false)
  | writeFails {isShutdown : Bool} {response : Response}
    (h : t.phase = .writing isShutdown response) :
    MovesOn d i t (.writeFails i) (.done isShutdown)
  | notify (h : t.phase = .notifying) : MovesOn d i t (.notify i) (.done true)

/-- A task is left where it is, or is the one that the step moves on. -/
theorem task_of_setPhase {j : Nat} {t u : Task} {phase : Phase} (ht : d.tasks[i]? = some t)
    (hu : d.tasks[j]? = some u) (htasks : d'.tasks = (d.setPhase j phase).tasks)
    (hmoves : j = i → u = t → MovesOn d i t a phase) :
    d'.tasks[i]? = some t ∨
      ∃ phase, d'.tasks[i]? = some { t with phase := phase } ∧ MovesOn d i t a phase := by
  rw [htasks]
  by_cases hij : j = i
  · subst hij
    have hut : u = t := Option.some.inj (hu.symm.trans ht)
    exact .inr ⟨phase, setPhase_self ht phase, hmoves rfl hut⟩
  · exact .inl ((setPhase_ne hij phase).trans ht)

/-- A step leaves a task where it is or moves it on. -/
theorem Steps.task {t : Task} (h : Steps d a d') (ht : d.tasks[i]? = some t) :
    d'.tasks[i]? = some t ∨
      ∃ phase, d'.tasks[i]? = some { t with phase := phase } ∧ MovesOn d i t a phase := by
  cases h with
  | select | notified | acceptFails | returns | take | finishUnheard => exact .inl ht
  | accept =>
    refine .inl ?_
    exact (List.getElem?_append_left (List.getElem?_eq_some_iff.1 ht).1).trans ht
  | request hu hreq | ping hu hreq =>
    refine task_of_setPhase ht hu rfl ?_
    rintro rfl rfl
    exact .request rfl
  | hangUp hu =>
    refine task_of_setPhase ht hu rfl ?_
    rintro rfl rfl
    exact .hangUp rfl
  | signal hu =>
    refine task_of_setPhase ht hu rfl ?_
    rintro rfl rfl
    exact .signal rfl
  | send hu hroom =>
    refine task_of_setPhase ht hu rfl ?_
    rintro rfl rfl
    exact .send rfl
  | finish hcurrent hu =>
    refine task_of_setPhase ht hu rfl ?_
    rintro rfl rfl
    exact .finish hcurrent rfl
  | write hu =>
    refine task_of_setPhase ht hu rfl ?_
    rintro rfl rfl
    exact .write rfl
  | writeFails hu =>
    refine task_of_setPhase ht hu rfl ?_
    rintro rfl rfl
    exact .writeFails rfl
  | notify hu =>
    refine task_of_setPhase ht hu rfl ?_
    rintro rfl rfl
    exact .notify rfl

/-- A task stays where it is until a step of the kind that moves it on. -/
theorem Steps.stays {t : Task} {A : Act → Prop} (h : Steps d a d') (ht : d.tasks[i]? = some t)
    (hA : ∀ a phase, MovesOn d i t a phase → A a) : A a ∨ d'.tasks[i]? = some t := by
  rcases h.task ht with hsame | ⟨phase, -, hmoves⟩
  · exact .inr hsame
  · exact .inl (hA a phase hmoves)

/-! ## The queue -/

/-- What a step does to the commands under way: one may come in at the end if there is room, and
only the registry takes the first one and is done with it. -/
theorem Steps.queue (h : Steps d a d') :
    (¬ RegistryActs a ∧ d'.current = d.current ∧ ∃ new, d'.queue = d.queue ++ new ∧
        (new = [] ∨ d.queue.length < queueCapacity)) ∨
      (d.current = none ∧ ∃ c, d'.current = some c ∧ d.queue = c :: d'.queue) ∨
      (d'.current = none ∧ (∃ c, d.current = some c) ∧ d'.queue = d.queue) := by
  cases h with
  | take hidle hqueue => exact .inr (.inl ⟨hidle, _, rfl, hqueue⟩)
  | finish hcurrent _ => exact .inr (.inr ⟨rfl, ⟨_, hcurrent⟩, rfl⟩)
  | finishUnheard hcurrent _ => exact .inr (.inr ⟨rfl, ⟨_, hcurrent⟩, rfl⟩)
  | send _ hroom => exact .inl ⟨by simp [RegistryActs], rfl, _, rfl, .inr hroom⟩
  | _ => exact .inl ⟨by simp [RegistryActs], rfl, [], (List.append_nil _).symm, .inl rfl⟩

/-- A task that awaits a reply has its command under way. -/
def Waits (d : DaemonState) : Prop :=
  ∀ (i : Nat) (origin : Origin) (cmd : Command), d.tasks[i]? = some ⟨origin, .awaiting cmd⟩ →
    (i, cmd) ∈ pending d

theorem Waits.init (info : PongInfo) : Waits (.init info) := by
  intro i origin cmd ht
  cases List.mem_singleton.1 (List.mem_of_getElem? ht)

theorem Waits.setPhase {t : Task} {phase : Phase} (hw : Waits d) (ht : d.tasks[i]? = some t)
    (hphase : ∀ cmd, phase ≠ .awaiting cmd) : Waits (d.setPhase i phase) := by
  intro j origin cmd hj
  rcases setPhase_some ht hj with ⟨rfl, heq⟩ | ⟨_, hj⟩
  · exact absurd (congrArg Task.phase heq).symm (hphase cmd)
  · exact hw j origin cmd hj

theorem afterReply_ne_awaiting {origin : Origin} {asked cmd : Command} {reply : Reply} :
    afterReply origin asked reply ≠ .awaiting cmd := by
  cases origin <;> simp [afterReply]

theorem Steps.waits (h : Steps d a d') (hw : Waits d) : Waits d' := by
  cases h with
  | select | notified | acceptFails | returns => exact hw
  | accept =>
    intro j origin cmd hj
    rcases Runtime.getElem?_concat_some hj with hj | hj
    · exact hw j origin cmd hj
    · cases hj
  | request ht _ | ping ht _ | hangUp ht | signal ht | writeFails ht | notify ht =>
    exact hw.setPhase ht (by simp)
  | @write i origin isShutdown response ht =>
    refine hw.setPhase ht ?_
    intro cmd
    split <;> simp
  | @send i origin cmd ht hroom =>
    intro j origin' cmd' hj
    have hmem : ∀ c, c ∈ pending d ∨ c = (i, cmd) →
        c ∈ pending { d.setPhase i (.awaiting cmd) with queue := d.queue ++ [(i, cmd)] } := by
      intro c hc
      show c ∈ d.current.toList ++ (d.queue ++ [(i, cmd)])
      rw [← List.append_assoc]
      exact List.mem_append.2 (hc.imp_right List.mem_singleton.2)
    rcases setPhase_some ht hj with ⟨rfl, heq⟩ | ⟨_, hj⟩
    · cases heq
      exact hmem _ (.inr rfl)
    · exact hmem _ (.inl (hw j origin' cmd' hj))
  | take hidle hqueue =>
    intro j origin cmd hj
    rw [pending_take hidle hqueue]
    exact hw j origin cmd hj
  | @finish env i cmd asked origin hcurrent ht =>
    intro j origin' cmd' hj
    rcases setPhase_some ht hj with ⟨rfl, heq⟩ | ⟨hij, hj⟩
    · exact absurd (congrArg Task.phase heq).symm afterReply_ne_awaiting
    · have hpending := hw j origin' cmd' hj
      rw [pending_finish hcurrent] at hpending
      refine (List.mem_cons.1 hpending).resolve_left ?_
      intro heq
      exact hij (congrArg Prod.fst heq).symm
  | @finishUnheard env i cmd hcurrent hno =>
    intro j origin cmd' hj
    have hpending := hw j origin cmd' hj
    rw [pending_finish hcurrent] at hpending
    refine (List.mem_cons.1 hpending).resolve_left ?_
    intro heq
    cases heq
    exact hno _ _ hj

/-- How many commands are served before that of the task. -/
def ahead (i : Nat) (d : DaemonState) : Nat := ((pending d).map (·.1)).idxOf i

/-- How many steps the registry takes before it is done with them. -/
def turns (i : Nat) (d : DaemonState) : Nat := 2 * ahead i d + if d.current = none then 1 else 0

/-- While a task awaits its reply nobody gets before it, and each step of the registry brings the
reply nearer. -/
theorem Steps.turns_le {t : Task} {asked : Command} (h : Steps d a d') (hc : Consistent d)
    (hw : Waits d) (ht : d.tasks[i]? = some t) (hphase : t.phase = .awaiting asked)
    (ht' : d'.tasks[i]? = some t) :
    turns i d' ≤ turns i d ∧ (RegistryActs a → turns i d' < turns i d) := by
  have hmem : i ∈ (pending d).map (·.1) := by
    refine List.mem_map.2 ⟨(i, asked), hw i t.origin asked ?_, rfl⟩
    rw [ht, ← hphase]
  rcases h.queue with ⟨hother, hcurrent, new, hqueue, -⟩ | ⟨hidle, c, hcurrent, hqueue⟩ |
    ⟨hidle, ⟨c, hcurrent⟩, hqueue⟩
  · have hsame : ahead i d' = ahead i d := by
      have hpending : pending d' = pending d ++ new := by
        rw [pending, hcurrent, hqueue, ← List.append_assoc]
        rfl
      rw [ahead, hpending, List.map_append, List.idxOf_append_of_mem hmem]
      rfl
    refine ⟨?_, fun hreg => absurd hreg hother⟩
    rw [turns, turns, hsame, hcurrent]
  · have hsame : ahead i d' = ahead i d := by
      rw [ahead, ahead, pending, pending, hcurrent, hidle, hqueue]
      rfl
    have hlt : turns i d' < turns i d := by
      rw [turns, turns, hsame, hcurrent, hidle, if_pos rfl, if_neg (by simp)]
      omega
    exact ⟨hlt.le, fun _ => hlt⟩
  · -- the command that was served is another task's
    have hne : c.1 ≠ i := by
      have hleft : (i, asked) ∈ d.queue := by
        have hpending := h.waits hw i t.origin asked (by rw [ht', ← hphase])
        rwa [pending, hidle, hqueue] at hpending
      have hdistinct := pending_finish hcurrent ▸ hc.distinct
      exact (List.pairwise_cons.1 hdistinct).1 _ hleft
    have hsucc : ahead i d = ahead i d' + 1 := by
      rw [ahead, ahead, pending_finish hcurrent, pending, hidle, hqueue, List.map_cons,
        List.idxOf_cons_ne _ hne]
      rfl
    have hlt : turns i d' < turns i d := by
      rw [turns, turns, hsucc, hidle, hcurrent, if_pos rfl, if_neg (by simp)]
      omega
    exact ⟨hlt.le, fun _ => hlt⟩

/-! ## Every fair execution -/

variable {info : PongInfo} {e : Execution DaemonState.step (.init info)}

theorem steps_of_execution (n : Nat) :
    (e.states n).loop ≠ .returned ∧ Steps (e.states n) (e.acts n) (e.states (n + 1)) :=
  step_cases (e.next n)

theorem consistent_of_execution (n : Nat) : Consistent (e.states n) :=
  Execution.invariant (P := Consistent) (Consistent.init info)
    (fun n hc => (steps_of_execution n).2.consistent hc) n

theorem waits_of_execution (n : Nat) : Waits (e.states n) :=
  Execution.invariant (P := Waits) (Waits.init info)
    (fun n hw => (steps_of_execution n).2.waits hw) n

theorem enabled_of_running {A : Act → Prop} (hloop : d.loop ≠ .returned) {a : Act} (ha : A a)
    (hstep : (d.stepRunning a).isSome) : Enabled DaemonState.step A d := by
  obtain ⟨d', hd'⟩ := Option.isSome_iff_exists.1 hstep
  refine ⟨a, d', ha, ?_⟩
  rw [DaemonState.step, if_neg hloop, hd']

/-- While a command is under way the registry can go on. -/
theorem registry_enabled (hloop : d.loop ≠ .returned) (hpending : pending d ≠ []) :
    Enabled DaemonState.step RegistryActs d := by
  cases hcurrent : d.current with
  | some c =>
    refine enabled_of_running hloop (a := .finish readyEnv) (.inr ⟨readyEnv, rfl⟩) ?_
    simp only [DaemonState.stepRunning, hcurrent]
    split <;> rfl
  | none =>
    cases hqueue : d.queue with
    | nil => exact absurd (by rw [pending, hcurrent, hqueue]; rfl) hpending
    | cons c queue =>
      refine enabled_of_running hloop (a := .take) (.inl rfl) ?_
      simp only [DaemonState.stepRunning, hcurrent, hqueue]
      rfl

/-- There is room in the queue again and again. -/
theorem Fair.room (hfair : Fair e) :
    e.LeadsTo (fun _ => True) (fun d => d.queue.length < queueCapacity) := by
  refine hfair.registry.leadsTo
    (fun d => 2 * d.queue.length + if d.current = none then 0 else 1) ?_ ?_
  · intro n _ hfull
    rcases (steps_of_execution n).2.queue with ⟨hother, hcurrent, new, hqueue, hroom⟩ |
      ⟨hidle, c, hcurrent, hqueue⟩ | ⟨hidle, ⟨c, hcurrent⟩, hqueue⟩
    · obtain rfl := hroom.resolve_right hfull
      refine .inr ⟨trivial, ?_, fun hreg => absurd hreg hother⟩
      rw [hcurrent, hqueue, List.append_nil]
    · refine .inr ⟨trivial, ?_, fun _ => ?_⟩ <;>
        simp only [hidle, hcurrent, hqueue, List.length_cons, if_true, reduceCtorEq, if_false] <;>
        omega
    · refine .inr ⟨trivial, ?_, fun _ => ?_⟩ <;>
        simp only [hidle, hcurrent, hqueue, if_true, reduceCtorEq, if_false] <;>
        omega
  · intro n _ hfull
    refine registry_enabled (steps_of_execution n).1 ?_
    intro hnil
    have hempty := (List.append_eq_nil_iff.1 hnil).2
    exact hfull (by rw [hempty]; decide)

theorem Steps.sent {origin : Origin} {cmd : Command} (h : Steps d (.send i) d')
    (ht : d.tasks[i]? = some ⟨origin, .sending cmd⟩) :
    d'.tasks[i]? = some ⟨origin, .awaiting cmd⟩ := by
  cases h with
  | send hu hroom =>
    cases hu.symm.trans ht
    exact setPhase_self ht _

/-- A task that has a command to send sends it. -/
theorem Fair.sends (hfair : Fair e) {origin : Origin} {cmd : Command} :
    e.LeadsTo (fun d => d.tasks[i]? = some ⟨origin, .sending cmd⟩)
      (fun d => d.tasks[i]? = some ⟨origin, .awaiting cmd⟩) := by
  intro n hn
  have hstays : ∀ m, (e.states m).tasks[i]? = some ⟨origin, .sending cmd⟩ →
      e.acts m = .send i ∨ (e.states (m + 1)).tasks[i]? = some ⟨origin, .sending cmd⟩ := by
    intro m hm
    refine (steps_of_execution m).2.stays hm (A := (· = .send i)) ?_
    intro a phase hmoves
    cases hmoves with
    | send => rfl
    | request hphase | hangUp hphase | signal hphase | finish _ hphase | write hphase
    | writeFails hphase | notify hphase => cases hphase
  have hagain : ∀ m, (∀ k, m ≤ k → (e.states k).tasks[i]? = some ⟨origin, .sending cmd⟩) →
      ∃ k, m ≤ k ∧ Enabled DaemonState.step (· = .send i) (e.states k) := by
    intro m hsending
    obtain ⟨k, hmk, hroom⟩ := hfair.room m trivial
    refine ⟨k, hmk, enabled_of_running (steps_of_execution k).1 (a := .send i) rfl ?_⟩
    simp only [DaemonState.stepRunning, hsending k hmk, if_pos hroom]
    rfl
  obtain ⟨m, hnm, hm, hsend⟩ := (hfair.send i).taken
    (P := fun d => d.tasks[i]? = some ⟨origin, .sending cmd⟩) hstays hagain hn
  have hstep := (steps_of_execution (e := e) m).2
  rw [hsend] at hstep
  exact ⟨m + 1, by omega, hstep.sent hm⟩

/-- A task that awaits the registry's reply gets one. -/
theorem Fair.gets (hfair : Fair e) {origin : Origin} {cmd : Command} :
    e.LeadsTo (fun d => d.tasks[i]? = some ⟨origin, .awaiting cmd⟩)
      (fun d => ∃ reply, d.tasks[i]? = some ⟨origin, afterReply origin cmd reply⟩) := by
  refine hfair.registry.leadsTo (turns i) ?_ ?_
  · intro n hn _
    have hstep := (steps_of_execution (e := e) n).2
    rcases hstep.task hn with hsame | ⟨phase, hnew, hmoves⟩
    · have hturns := hstep.turns_le (consistent_of_execution n) (waits_of_execution n) hn rfl hsame
      exact .inr ⟨hsame, hturns⟩
    · generalize hact : e.acts n = a at hmoves
      cases hmoves with
      | finish _ hphase =>
        cases hphase
        exact .inl ⟨_, hnew⟩
      | request hphase | hangUp hphase | signal hphase | send hphase | write hphase
      | writeFails hphase | notify hphase => cases hphase
  · intro n hn _
    refine registry_enabled (steps_of_execution n).1 ?_
    intro hnil
    have hmem := waits_of_execution n i origin cmd hn
    rw [hnil] at hmem
    cases hmem

/-- A response that is ready is written, unless it cannot be. -/
theorem Fair.replies (hfair : Fair e) {isShutdown : Bool} {response : Response} {n : Nat}
    (hn : (e.states n).tasks[i]? = some ⟨.client, .writing isShutdown response⟩) :
    ∃ m, n ≤ m ∧ (e.states m).tasks[i]? = some ⟨.client, .writing isShutdown response⟩ ∧
      EndsReply i (e.acts m) := by
  refine (hfair.reply i).taken
    (P := fun d => d.tasks[i]? = some ⟨.client, .writing isShutdown response⟩) ?_ ?_ hn
  · intro m hm
    refine (steps_of_execution m).2.stays hm ?_
    intro a phase hmoves
    cases hmoves with
    | write => exact .inl rfl
    | writeFails => exact .inr rfl
    | request hphase | hangUp hphase | signal hphase | send hphase | finish _ hphase
    | notify hphase => cases hphase
  · intro m hm
    refine enabled_of_running (steps_of_execution m).1 (a := .write i) (.inl rfl) ?_
    simp only [DaemonState.stepRunning, hm]
    rfl

/-- A task that is to notify the accept loop does. -/
theorem Fair.notifies (hfair : Fair e) {origin : Origin} {n : Nat}
    (hn : (e.states n).tasks[i]? = some ⟨origin, .notifying⟩) :
    ∃ m, n ≤ m ∧ e.acts m = .notify i := by
  have hstays : ∀ m, (e.states m).tasks[i]? = some ⟨origin, .notifying⟩ →
      e.acts m = .notify i ∨ (e.states (m + 1)).tasks[i]? = some ⟨origin, .notifying⟩ := by
    intro m hm
    refine (steps_of_execution m).2.stays hm (A := (· = .notify i)) ?_
    intro a phase hmoves
    cases hmoves with
    | notify => rfl
    | request hphase | hangUp hphase | signal hphase | send hphase | finish _ hphase
    | write hphase | writeFails hphase => cases hphase
  have henabled : ∀ m, (e.states m).tasks[i]? = some ⟨origin, .notifying⟩ →
      Enabled DaemonState.step (· = .notify i) (e.states m) := by
    intro m hm
    refine enabled_of_running (steps_of_execution m).1 (a := .notify i) rfl ?_
    simp only [DaemonState.stepRunning, hm]
    rfl
  obtain ⟨m, hnm, -, hnotify⟩ := (hfair.notify i).taken
    (P := fun d => d.tasks[i]? = some ⟨origin, .notifying⟩) hstays henabled hn
  exact ⟨m, hnm, hnotify⟩

/-! ## From a request to its response -/

/-- A request that was read is sent to the registry, or its response is ready. -/
theorem Steps.read {req : Request} (h : Steps d (.request i req) d') :
    (∃ cmd, toCommand req = some cmd ∧ d'.tasks[i]? = some ⟨.client, .sending cmd⟩) ∨
      (toCommand req = none ∧ d'.tasks[i]? = some ⟨.client, .writing false (.pong d.info)⟩) := by
  cases h with
  | request ht hreq => exact .inl ⟨_, hreq, setPhase_self ht _⟩
  | ping ht hreq => exact .inr ⟨hreq, setPhase_self ht _⟩

theorem Steps.signalled (h : Steps d (.signal i) d') :
    d'.tasks[i]? = some ⟨.signal, .sending .shutdown⟩ := by
  cases h with
  | signal ht => exact setPhase_self ht _

theorem Steps.written {origin : Origin} {response : Response} (h : Steps d (.write i) d')
    (ht : d.tasks[i]? = some ⟨origin, .writing true response⟩) :
    d'.tasks[i]? = some ⟨origin, .notifying⟩ := by
  cases h with
  | write hu =>
    cases hu.symm.trans ht
    exact setPhase_self ht _

/-- The response to every request comes to be ready. -/
theorem Fair.ready (hfair : Fair e) {n : Nat} {req : Request} (hreq : e.acts n = .request i req) :
    ∃ m isShutdown response, n < m ∧ (req = .shutdown → isShutdown = true) ∧
      (e.states m).tasks[i]? = some ⟨.client, .writing isShutdown response⟩ := by
  have hstep := (steps_of_execution (e := e) n).2
  rw [hreq] at hstep
  rcases hstep.read with ⟨cmd, hcmd, hsending⟩ | ⟨hping, hwriting⟩
  · obtain ⟨m, hnm, reply, hm⟩ := hfair.sends.trans hfair.gets (n + 1) hsending
    refine ⟨m, _, _, by omega, ?_, hm⟩
    rintro rfl
    cases hcmd
    rfl
  · refine ⟨n + 1, false, _, by omega, ?_, hwriting⟩
    rintro rfl
    cases hping

theorem observed_schedule_succ (n : Nat) :
    DaemonState.observed (.init info) (e.schedule (n + 1)) =
      DaemonState.observed (.init info) (e.schedule n) ++ shown (e.states n) (e.acts n) := by
  rw [Execution.schedule_succ]
  exact history_concat (e.run_schedule n)

/-- A request that was read is in the history from then on. -/
theorem call_mem_observed {n m : Nat} {req : Request} (hreq : e.acts n = .request i req)
    (hnm : n < m) : .call i req ∈ DaemonState.observed (.init info) (e.schedule m) := by
  induction hnm with
  | refl =>
    rw [observed_schedule_succ, hreq]
    exact List.mem_append_right _ List.mem_cons_self
  | step _ ih =>
    rw [observed_schedule_succ]
    exact List.mem_append_left _ ih

/-- The response that is ready is the one the request gets in a legal order of the requests. -/
theorem entry_of_writing {n m : Nat} {req : Request} (hreq : e.acts n = .request i req)
    (hnm : n < m) {isShutdown : Bool} {response : Response}
    (hm : (e.states m).tasks[i]? = some ⟨.client, .writing isShutdown response⟩) :
    ∃ lin, Linearizes (Serves info) .init (DaemonState.observed (.init info) (e.schedule m)) lin
      (e.states m).registry ∧ ⟨i, req, response⟩ ∈ lin := by
  obtain ⟨ms, x, hms, hev, hmirrors⟩ :=
    (simulates_atomic info).runs (Mirrors.init info) (e.run_schedule m)
  have htracks := Tracks.runs hms
  have hanswered : x.status i = .answered response := by
    have hmatch := hmirrors.status i
    rw [hm] at hmatch
    exact hmatch
  have hcall : .call i req ∈ events ms := by
    rw [hev]
    exact call_mem_observed hreq hnm
  obtain ⟨⟨entry, hentry, rfl, rfl⟩, -⟩ := htracks.answered i response hanswered
  have hlin := htracks.linearizes
  obtain rfl := hlin.wellFormed.call_inj hcall (hlin.called entry hentry)
  refine ⟨effects ms, ?_, hentry⟩
  rw [hev, hmirrors.registry] at hlin
  exact hlin

/-- In every fair execution of a daemon that does not return, every request that is read gets a
response that is written, unless the client cannot take it: the very response that it gets in a
legal order of the requests. After a shutdown whose response was written, and after a signal, the
accept loop is notified. -/
theorem requests_answered (hfair : Fair e) :
    (∀ n i req, e.acts n = .request i req → ∃ m response lin, n < m ∧ EndsReply i (e.acts m) ∧
      (∃ isShutdown, (e.states m).tasks[i]? = some ⟨.client, .writing isShutdown response⟩) ∧
      Linearizes (Serves info) .init (DaemonState.observed (.init info) (e.schedule m)) lin
        (e.states m).registry ∧ ⟨i, req, response⟩ ∈ lin ∧
      (req = .shutdown → e.acts m = .write i → ∃ k, m < k ∧ e.acts k = .notify i)) ∧
    ∀ n i, e.acts n = .signal i → ∃ m, n < m ∧ e.acts m = .notify i := by
  constructor
  · intro n i req hreq
    obtain ⟨m₁, isShutdown, response, hnm₁, hshutdown, hready⟩ := hfair.ready hreq
    obtain ⟨m, hm₁m, hm, hends⟩ := hfair.replies hready
    have hnm : n < m := by omega
    obtain ⟨lin, hlin, hentry⟩ := entry_of_writing hreq hnm hm
    refine ⟨m, response, lin, hnm, hends, ⟨isShutdown, hm⟩, hlin, hentry, ?_⟩
    intro hreq hwrite
    rw [hshutdown hreq] at hm
    have hstep := (steps_of_execution (e := e) m).2
    rw [hwrite] at hstep
    obtain ⟨k, hmk, hnotify⟩ := hfair.notifies (hstep.written hm)
    exact ⟨k, by omega, hnotify⟩
  · intro n i hsignal
    have hstep := (steps_of_execution (e := e) n).2
    rw [hsignal] at hstep
    obtain ⟨m₁, hnm₁, reply, hm₁⟩ := hfair.sends.trans hfair.gets (n + 1) hstep.signalled
    obtain ⟨m, hm₁m, hnotify⟩ := hfair.notifies hm₁
    exact ⟨m, by omega, hnotify⟩

/-! ## A daemon that goes on accepting -/

/-- Nobody asks for anything. -/
structure Idle (d : DaemonState) : Prop where
  loop : d.loop = .between ∨ ∃ n, d.loop = .selecting n
  current : d.current = none
  queue : d.queue = []
  tasks : ∀ t ∈ d.tasks, t.phase = .reading ∨ ∃ b, t.phase = .done b

/-- The accept loop takes the next connection. -/
def acceptNext (d : DaemonState) : Act := if d.loop = .between then .select else .accept

theorem Idle.acceptNext (h : Idle d) : ∃ d', d.step (acceptNext d) = some d' ∧ Idle d' := by
  rcases h.loop with hloop | ⟨n, hloop⟩
  · refine ⟨{ d with loop := .selecting false }, ?_, .inr ⟨false, rfl⟩, h.current, h.queue, h.tasks⟩
    simp [Daemon.acceptNext, DaemonState.step, DaemonState.stepRunning, hloop]
  · refine ⟨{ d with loop := .between, tasks := d.tasks ++ [⟨.client, .reading⟩] }, ?_, .inl rfl,
      h.current, h.queue, ?_⟩
    · simp [Daemon.acceptNext, DaemonState.step, DaemonState.stepRunning, hloop]
    · intro t ht
      rcases List.mem_append.1 ht with ht | ht
      · exact h.tasks t ht
      · obtain rfl := List.mem_singleton.1 ht
        exact .inl rfl

theorem Fair.of_idle {e : Execution DaemonState.step d} (h : ∀ n, Idle (e.states n)) : Fair e := by
  have htask : ∀ (n i : Nat) (t : Task), (e.states n).tasks[i]? = some t →
      t.phase = .reading ∨ ∃ b, t.phase = .done b := by
    intro n i t ht
    exact (h n).tasks t (List.mem_of_getElem? ht)
  refine ⟨?_, ?_, ?_, ?_⟩
  · refine (Execution.StronglyFair.of_never ?_).weaklyFair
    rintro n ⟨a, d', ha, hstep⟩
    rcases (step_cases hstep).2.queue with ⟨hother, -⟩ | ⟨-, c, -, hqueue⟩ | ⟨-, ⟨c, hcurrent⟩, -⟩
    · exact hother ha
    · rw [(h n).queue] at hqueue
      cases hqueue
    · rw [(h n).current] at hcurrent
      cases hcurrent
  · intro i
    refine Execution.StronglyFair.of_never ?_
    rintro n ⟨a, d', rfl, hstep⟩
    cases (step_cases hstep).2 with
    | send ht hroom => simpa using htask n i _ ht
  · intro i
    refine (Execution.StronglyFair.of_never ?_).weaklyFair
    rintro n ⟨a, d', rfl | rfl, hstep⟩
    · cases (step_cases hstep).2 with
      | write ht => simpa using htask n i _ ht
    · cases (step_cases hstep).2 with
      | writeFails ht => simpa using htask n i _ ht
  · intro i
    refine (Execution.StronglyFair.of_never ?_).weaklyFair
    rintro n ⟨a, d', rfl, hstep⟩
    cases (step_cases hstep).2 with
    | notify ht => simpa using htask n i _ ht

/-- A client asks for the list and gets it. -/
def oneList : List Act := [.select, .accept] ++ roundTrip 1 (.status none)

theorem requests_answered_oneList : ∃ e : Execution DaemonState.step (.init quietInfo), Fair e ∧
    ∃ m response lin, EndsReply 1 (e.acts m) ∧
      Linearizes (Serves quietInfo) .init (DaemonState.observed (.init quietInfo) (e.schedule m)) lin
        (e.states m).registry ∧ ⟨1, .status none, response⟩ ∈ lin := by
  obtain ⟨d, hrun, hidle⟩ :
      ∃ d, run DaemonState.step (.init quietInfo) oneList = some d ∧ Idle d := by
    refine ⟨_, rfl, .inl rfl, rfl, rfl, ?_⟩
    intro t ht
    rcases List.mem_pair.1 (show t ∈ [⟨.signal, .reading⟩, ⟨.client, .done false⟩] from ht) with
      rfl | rfl
    · exact .inl rfl
    · exact .inr ⟨false, rfl⟩
  obtain ⟨e', hidle'⟩ := Execution.exists_scheduled acceptNext hidle fun _ h => h.acceptNext
  have hfair' : Fair e' := Fair.of_idle fun n => (hidle' n).1
  obtain ⟨e, hacts, -, hweak, hstrong⟩ := Execution.exists_after hrun e'
  have hfair : Fair e := ⟨hweak _ hfair'.registry, fun i => hstrong _ (hfair'.send i),
    fun i => hweak _ (hfair'.reply i), fun i => hweak _ (hfair'.notify i)⟩
  obtain ⟨m, response, lin, -, hends, -, hlin, hentry, -⟩ :=
    (requests_answered hfair).1 2 1 (.status none) (hacts 2 _ rfl)
  exact ⟨e, hfair, m, response, lin, hends, hlin, hentry⟩

end Hwwctl.Daemon
