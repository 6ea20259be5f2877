import Hwwctl.Daemon.Proofs.RunProofs

/-!
# Does an instance outlive the daemon?

A served `Shutdown` empties the instance map, but the registry goes on with its queue. The drain
lasts until `run` returns when no `Start` is sent behind a `Shutdown` whose notification may still
reach the loop, and when a failing accept finds nothing to drain.
-/

namespace Hwwctl.Daemon

open Control Transition

def IsStart (cmd : Command) : Prop := ∃ req, cmd = .start req

/-- No instance, and no `Start` queued or in progress. -/
def Quiet (d : DaemonState) : Prop :=
  d.registry.instances = ∅ ∧ ∀ c ∈ pending d, ¬ IsStart c.2

/-- The task has drained the registry, or the signal task has, and is yet to notify the loop. -/
def Drained : Phase → Prop
  | .writing isShutdown _ => isShutdown = true
  | .notifying => True
  | _ => False

/-- The loop has been told to end, or is past its end. -/
def Ending (loop : LoopPhase) : Prop := loop ≠ .between ∧ loop ≠ .selecting false

/-- A shutdown was sent to the registry and the loop may yet end because of it, or it is ending. -/
def ShutdownUnderWay (d : DaemonState) : Prop :=
  (∃ c ∈ pending d, c.2 = .shutdown) ∨
    (∃ (i : Nat) (t : Task), d.tasks[i]? = some t ∧ Drained t.phase) ∨ Ending d.loop

/-- What keeps the drain from being undone. -/
def DrainKept (d : DaemonState) : Act → Prop
  | .acceptFails => Quiet d
  | .send i => ∀ origin req, d.tasks[i]? = some ⟨origin, .sending (.start req)⟩ →
      ¬ ShutdownUnderWay d
  | _ => True

/-- The invariant: no `Start` stands behind a `Shutdown` in the queue, and from the drain on the
registry stays quiet. -/
structure Draining (d : DaemonState) : Prop where
  behind : (pending d).Pairwise fun c c' => c.2 = .shutdown → ¬ IsStart c'.2
  drained : ∀ (i : Nat) (t : Task), d.tasks[i]? = some t → Drained t.phase → Quiet d
  ending : Ending d.loop → Quiet d

variable {d d' : DaemonState} {a : Act}

theorem serve_instances_empty {env : CommandEnv} {cmd : Command} {s : RegistryState}
    (hcmd : ¬ IsStart cmd) (hempty : s.instances = ∅) : (serve env cmd s).2.instances = ∅ := by
  cases cmd with
  | start req => exact absurd ⟨req, rfl⟩ hcmd
  | stop id =>
    simp only [serve, stopInstance_instances, hempty]
    rfl
  | status id =>
    cases id with
    | none => exact hempty
    | some id =>
      simp only [serve]
      split <;> exact hempty
  | logs req =>
    simp only [serve]
    split <;> exact hempty
  | bridgeStats id =>
    simp only [serve]
    split <;> exact hempty
  | shutdown => exact serve_shutdown_instances env s

/-- Once a shutdown or a command that is no `Start` has been served from a quiet registry, the
registry is quiet. -/
theorem Quiet.serve {env : CommandEnv} {c : Nat × Command} (hcurrent : d.current = some c)
    (hquiet : Quiet d) {d' : DaemonState} (hqueue : pending d' = d.queue)
    (hregistry : d'.registry = (serve env c.2 d.registry).2) : Quiet d' := by
  obtain ⟨hempty, hstarts⟩ := hquiet
  rw [pending_finish hcurrent] at hstarts
  refine ⟨?_, ?_⟩
  · rw [hregistry]
    exact serve_instances_empty (hstarts c List.mem_cons_self) hempty
  · rw [hqueue]
    exact fun c' hc' => hstarts c' (List.mem_cons_of_mem _ hc')

theorem drained_afterReply {origin : Origin} {cmd : Command} {reply : Reply}
    (h : Drained (afterReply origin cmd reply)) : origin = .signal ∨ cmd = .shutdown := by
  cases origin with
  | signal => exact .inl rfl
  | client => exact .inr (by simpa [afterReply, Drained] using h)

/-- A task that moves on keeps the invariant unless it comes to have drained the registry. -/
theorem Draining.setPhase (h : Draining d) {i : Nat} {t : Task} {phase : Phase}
    (ht : d.tasks[i]? = some t) (hphase : Drained phase → Drained t.phase) :
    Draining (d.setPhase i phase) := by
  refine ⟨h.behind, ?_, h.ending⟩
  intro j u hu hdrained
  rcases setPhase_some ht hu with ⟨rfl, rfl⟩ | ⟨_, hu⟩
  · exact h.drained i t ht (hphase hdrained)
  · exact h.drained j u hu hdrained

theorem Steps.draining (h : Steps d a d') (hc : Consistent d) (hd : Draining d)
    (hkept : DrainKept d a) : Draining d' := by
  cases h with
  | select hloop => exact ⟨hd.behind, hd.drained, fun hend => absurd rfl hend.2⟩
  | notified hloop => exact ⟨hd.behind, hd.drained, fun _ => hd.ending ⟨by simp [hloop], by simp [hloop]⟩⟩
  | @accept n hloop =>
    refine ⟨hd.behind, ?_, fun hend => absurd rfl hend.1⟩
    intro j u hu hdrained
    rcases Runtime.getElem?_concat_some hu with hu | rfl
    · exact hd.drained j u hu hdrained
    · exact hdrained.elim
  | acceptFails hloop => exact ⟨hd.behind, hd.drained, fun _ => hkept⟩
  | returns hloop => exact ⟨hd.behind, hd.drained, fun _ => hd.ending ⟨by simp [hloop], by simp [hloop]⟩⟩
  | request ht | ping ht | hangUp ht | signal ht | writeFails ht =>
    exact hd.setPhase ht (by simp [Drained])
  | @write i origin isShutdown response ht =>
    refine hd.setPhase ht ?_
    cases isShutdown <;> simp [Drained]
  | notify ht =>
    have hset : Draining (d.setPhase _ (.done true)) := hd.setPhase ht (by simp [Drained])
    exact ⟨hset.behind, hset.drained, fun _ => hd.drained _ _ ht trivial⟩
  | @send i origin cmd ht hroom =>
    have hpending : pending { d.setPhase i (.awaiting cmd) with queue := d.queue ++ [(i, cmd)] } =
        pending d ++ [(i, cmd)] := by
      simp [pending, DaemonState.setPhase]
    have hset : Draining (d.setPhase i (.awaiting cmd)) := hd.setPhase ht (by simp [Drained])
    by_cases hstart : IsStart cmd
    · -- nothing is under way that the new `Start` could undo
      obtain ⟨req, rfl⟩ := hstart
      have hnone := hkept origin req ht
      refine ⟨?_, ?_, fun hend => absurd (.inr (.inr hend)) hnone⟩
      · rw [hpending, List.pairwise_append]
        refine ⟨hd.behind, List.pairwise_singleton _ _, ?_⟩
        intro c hc _ _ hshutdown
        exact absurd (.inl ⟨c, hc, hshutdown⟩) hnone
      · intro j u hu hdrained
        rcases setPhase_some ht hu with ⟨rfl, rfl⟩ | ⟨_, hu⟩
        · exact hdrained.elim
        · exact absurd (.inr (.inl ⟨j, u, hu, hdrained⟩)) hnone
    · have hquiet : Quiet d → Quiet { d.setPhase i (.awaiting cmd) with
          queue := d.queue ++ [(i, cmd)] } := by
        rintro ⟨hempty, hstarts⟩
        refine ⟨hempty, ?_⟩
        rw [hpending]
        intro c hc
        rcases List.mem_append.1 hc with hc | hc
        · exact hstarts c hc
        · obtain rfl := List.mem_singleton.1 hc
          exact hstart
      refine ⟨?_, fun j u hu hdrained => hquiet (hset.drained j u hu hdrained),
        fun hend => hquiet (hd.ending hend)⟩
      rw [hpending, List.pairwise_append]
      refine ⟨hd.behind, List.pairwise_singleton _ _, ?_⟩
      intro c hc c' hc' _
      obtain rfl := List.mem_singleton.1 hc'
      exact hstart
  | take hidle hqueue =>
    have hpending := pending_take hidle hqueue
    have hquiet : Quiet d → Quiet { d with current := some _, queue := _ } :=
      fun h => ⟨h.1, hpending ▸ h.2⟩
    exact ⟨hpending ▸ hd.behind, fun j u hu hdrained => hquiet (hd.drained j u hu hdrained),
      fun hend => hquiet (hd.ending hend)⟩
  | @finish env i cmd asked origin hcurrent ht =>
    obtain ⟨origin', hawait, hsignal⟩ := hc.current hcurrent
    obtain ⟨rfl, rfl⟩ : origin = origin' ∧ asked = cmd := by
      have heq := Option.some.inj (ht.symm.trans hawait)
      simpa using heq
    have hbehind := List.pairwise_cons.1 (pending_finish hcurrent ▸ hd.behind)
    refine ⟨hbehind.2, ?_, fun hend => (hd.ending hend).serve hcurrent rfl rfl⟩
    intro j u hu hdrained
    rcases setPhase_some ht hu with ⟨rfl, rfl⟩ | ⟨_, hu⟩
    · obtain rfl : asked = .shutdown := by
        rcases drained_afterReply hdrained with horigin | hshutdown
        · exact hsignal horigin
        · exact hshutdown
      exact ⟨serve_shutdown_instances env d.registry, fun c hc => hbehind.1 c hc rfl⟩
    · exact (hd.drained j u hu hdrained).serve hcurrent rfl rfl
  | finishUnheard hcurrent hno =>
    obtain ⟨origin, hawait, -⟩ := hc.current hcurrent
    exact absurd hawait (hno origin _)

theorem Draining.init (info : PongInfo) : Draining (.init info) := by
  refine ⟨List.Pairwise.nil, ?_, fun hend => absurd rfl hend.1⟩
  intro i t ht hdrained
  obtain rfl := List.mem_singleton.1 (List.mem_of_getElem? ht)
  exact hdrained.elim

/-- In every run in which no `Start` is sent while a shutdown is under way and `accept` fails only
with nothing to drain, `run` returns with an empty map and no `Start` queued or in progress. -/
theorem returns_quiet (info : PongInfo) (acts : List Act)
    (hkept : Guarded DaemonState.step DrainKept (.init info) acts) :
    Always DaemonState.step (fun d => d.loop = .returned → Quiet d) (.init info) acts := by
  have hinv : Always DaemonState.step (fun d => Consistent d ∧ Draining d) (.init info) acts := by
    refine hkept.always ⟨Consistent.init info, Draining.init info⟩ ?_
    rintro d a d' ⟨hc, hd⟩ hstepKept hstep
    have hsteps := (step_cases hstep).2
    exact ⟨hsteps.consistent hc, hsteps.draining hc hd hstepKept⟩
  refine hinv.mono ?_
  rintro d ⟨-, hd⟩ hreturned
  exact hd.ending ⟨by simp [hreturned], by simp [hreturned]⟩

/-- Two clients are connected; one asks for an instance, the other for the shutdown. -/
def twoRequests : List Act :=
  [.select, .accept, .select, .accept, .select, .request 1 (.start ⟨.bitBox02, false, none, none⟩),
    .request 2 .shutdown]

/-- Both are served, and the notification ends the loop. -/
def servedInTurn : List Act :=
  [.finish readyEnv, .take, .finish readyEnv, .write 2, .notify 2, .notified, .returns]

/-- The shutdown is sent while the start is in progress. -/
def startThenShutdown : List Act := twoRequests ++ .send 1 :: .take :: .send 2 :: servedInTurn

theorem returns_quiet_startThenShutdown :
    ∃ d, run DaemonState.step (.init ⟨"0.1.4", 1, 1⟩) startThenShutdown = some d ∧
      d.registry.world.children.length = 1 ∧ d.loop = .returned ∧ Quiet d := by
  obtain ⟨d, hrun, hchildren, hreturned⟩ :
      ∃ d, run DaemonState.step (.init ⟨"0.1.4", 1, 1⟩) startThenShutdown = some d ∧
        d.registry.world.children.length = 1 ∧ d.loop = .returned := ⟨_, rfl, rfl, rfl⟩
  have hfree : ∀ a ∈ twoRequests ++ servedInTurn, ∀ d, DrainKept d a := by
    simp [twoRequests, servedInTurn, DrainKept]
  refine ⟨d, hrun, hchildren, hreturned,
    (returns_quiet ⟨"0.1.4", 1, 1⟩ startThenShutdown ?_).of_run hrun hreturned⟩
  -- only the two sends have a condition: nothing is under way at the first, the second is no start
  refine .append (.of_forall fun a ha => hfree a (List.mem_append_left _ ha)) fun d₁ h₁ => ?_
  obtain rfl := Option.some.inj h₁
  refine .cons ?_ fun d₂ h₂ => ?_
  · rintro origin req - (⟨c, hc, -⟩ | ⟨i, t, ht, hdrained⟩ | hend)
    · cases hc
    · have hmem : t ∈ [⟨.signal, .reading⟩, ⟨.client, .sending (.start ⟨.bitBox02, false, none, none⟩)⟩,
          ⟨.client, .sending .shutdown⟩] := List.mem_of_getElem? ht
      simp only [List.mem_cons, List.not_mem_nil, or_false] at hmem
      rcases hmem with rfl | rfl | rfl <;> exact hdrained
    · exact hend.2 rfl
  · obtain rfl := Option.some.inj h₂
    refine .cons trivial fun d₃ h₃ => .cons ?_ fun d₄ _ => ?_
    · obtain rfl := Option.some.inj h₃
      intro origin req hreq
      cases hreq
    · exact .of_forall fun a ha => hfree a (List.mem_append_right _ ha)

/-- A `Start` that comes in while the reply to a `Shutdown` is written. -/
def startBehindShutdown : List Act :=
  [.select, .accept, .select, .accept, .select, .request 1 .shutdown, .send 1, .take,
    .finish readyEnv, .request 2 (.start ⟨.bitBox02, false, none, none⟩), .send 2, .write 1,
    .notify 1, .notified, .returns]

theorem returns_startBehindShutdown :
    ∃ d, run DaemonState.step (.init ⟨"0.1.4", 1, 1⟩) startBehindShutdown = some d ∧
      d.loop = .returned ∧ ¬ Quiet d := by
  refine ⟨_, rfl, rfl, ?_⟩
  rintro ⟨-, hstarts⟩
  exact hstarts (2, .start ⟨.bitBox02, false, none, none⟩) List.mem_cons_self ⟨_, rfl⟩

end Hwwctl.Daemon
