import Hwwctl.Daemon.Proofs.LinearizableProofs

/-!
# What a client may rely on

A stop that was acknowledged is final and a start that was acknowledged lasts, whatever the other
clients do at the same time: only an operation that overlaps with what lies between can undo
it.
-/

namespace Hwwctl.Daemon

open Control Linearizable

/-! ## One command -/

/-- A command other than a start, a stop and a shutdown leaves the map alone. -/
theorem serve_instances {env : CommandEnv} {cmd : Command} {s : RegistryState}
    (hstart : ∀ req, cmd ≠ .start req) (hstop : ∀ id, cmd ≠ .stop id)
    (hshutdown : cmd ≠ .shutdown) : (serve env cmd s).2 = s := by
  cases cmd with
  | start req => exact absurd rfl (hstart req)
  | stop id => exact absurd rfl (hstop id)
  | status id =>
    cases id with
    | none => rfl
    | some id =>
      simp only [serve]
      split <;> rfl
  | logs req =>
    simp only [serve]
    split <;> rfl
  | bridgeStats id =>
    simp only [serve]
    split <;> rfl
  | shutdown => exact absurd rfl hshutdown

/-- A start shows its instance to its client and keeps all ids there were, or changes nothing. -/
theorem serve_start_instances (env : CommandEnv) (req : StartRequest) (s : RegistryState) :
    (∃ summary, (serve env (.start req) s).1 = .start (.ok summary) ∧
      ∀ id, id ∈ (serve env (.start req) s).2.instances ↔ id = summary.inst ∨ id ∈ s.instances) ∨
    ∃ e, (serve env (.start req) s).1 = .start (.error e) ∧
      (serve env (.start req) s).2.instances = s.instances := by
  rcases start_cases env.spawn req s with
    ⟨summary, s', hstart, ⟨⟨inst, hinsert, hid, -, rfl⟩, -⟩, -⟩ | ⟨e, s', hstart, hclean, -⟩
  · refine .inl ⟨inst.summary, by simp only [serve, hstart], ?_⟩
    intro id
    simp only [serve, hstart, hinsert, AList.mem_insert, ← hid]
    rfl
  · refine .inr ⟨e, by simp only [serve, hstart], ?_⟩
    simp only [serve, hstart, hclean.1]

/-! ## One request -/

variable {info : PongInfo} {req : Request} {reply : Response} {s s' : RegistryState}
  {id : InstanceId}

theorem Serves.named (h : Serves info req s reply s') (hs : Named s.instances) :
    Named s'.instances := by
  cases h with
  | ping => exact hs
  | command _ env => exact serve_named hs

/-- Only a stop of the id or a shutdown takes it out of the map. -/
theorem Serves.disappears (h : Serves info req s reply s') (hs : id ∈ s.instances)
    (hs' : id ∉ s'.instances) : req = .stop id ∨ req = .shutdown := by
  cases h with
  | ping => exact absurd hs hs'
  | command hcmd env =>
    cases req with
    | start r =>
      cases hcmd
      rcases serve_start_instances env r s with ⟨summary, -, hmem⟩ | ⟨e, -, hsame⟩
      · exact absurd ((hmem id).2 (.inr hs)) hs'
      · rw [hsame] at hs'
        exact absurd hs hs'
    | stop id' =>
      cases hcmd
      simp only [serve, stopInstance_instances, AList.mem_erase, not_and] at hs'
      by_cases hid : id = id'
      · exact .inl (by rw [hid])
      · exact absurd hs (hs' hid)
    | shutdown => exact .inr rfl
    | ping => cases hcmd
    | status | logs | bridgeStats =>
      cases hcmd
      rw [serve_instances (by simp) (by simp) (by simp)] at hs'
      exact absurd hs hs'

theorem Serves.gone (h : Serves info req s reply s') (hreq : req = .stop id ∨ req = .shutdown) :
    id ∉ s'.instances := by
  rcases hreq with rfl | rfl
  · cases h with
    | ping hping => cases hping
    | command hcmd env =>
      cases hcmd
      simp only [serve, stopInstance_instances, AList.mem_erase, not_and]
      exact fun hne => absurd rfl hne
  · cases h with
    | ping hping => cases hping
    | command hcmd env =>
      cases hcmd
      rw [serve_shutdown_instances]
      exact AList.notMem_empty id

/-- Whoever is told that an instance has started finds it in the map. -/
theorem Serves.started {summary : InstanceSummary} (h : Serves info req s (.started summary) s') :
    summary.inst ∈ s'.instances := by
  generalize hreply : Response.started summary = reply at h
  cases h with
  | ping => cases hreply
  | @command cmd _ hcmd env =>
    cases cmd with
    | start r =>
      rcases serve_start_instances env r s with ⟨summary', hserve, hmem⟩ | ⟨e, hserve, -⟩
      · rw [hserve] at hreply
        cases hreply
        exact (hmem summary.inst).2 (.inl rfl)
      · rw [hserve] at hreply
        cases hreply
    | status id =>
      cases id with
      | none => cases hreply
      | some id =>
        simp only [serve] at hreply
        split at hreply <;> cases hreply
    | logs r =>
      simp only [serve] at hreply
      split at hreply <;> cases hreply
    | bridgeStats id =>
      simp only [serve] at hreply
      split at hreply <;> cases hreply
    | stop id | shutdown => cases hreply

/-- A list shows what is in the map under the ids it shows. -/
theorem Serves.listed {list : List InstanceSummary} (h : Serves info req s (.status list) s') :
    (∃ id inst, req = .status (some id) ∧ s.instances.lookup id = some inst ∧
        list = [inst.summary]) ∨
      req = .status none ∧ list.Perm (s.instances.entries.map (·.2.summary)) := by
  generalize hreply : Response.status list = reply at h
  cases h with
  | ping => cases hreply
  | command hcmd env =>
    cases req with
    | ping => cases hcmd
    | start r =>
      cases hcmd
      rcases serve_start_instances env r s with ⟨summary', hserve, -⟩ | ⟨e, hserve, -⟩ <;>
        rw [hserve] at hreply <;> cases hreply
    | status id =>
      cases hcmd
      cases id with
      | none =>
        cases hreply
        exact .inr ⟨rfl, (env.iterate s.instances).2.map _⟩
      | some id =>
        simp only [serve] at hreply
        split at hreply
        · cases hreply
          exact .inl ⟨id, _, rfl, ‹_›, rfl⟩
        · cases hreply
    | logs r =>
      cases hcmd
      simp only [serve] at hreply
      split at hreply <;> cases hreply
    | bridgeStats id =>
      cases hcmd
      simp only [serve] at hreply
      split at hreply <;> cases hreply
    | stop id | shutdown =>
      cases hcmd
      cases hreply

/-- In a map whose entries stand under their ids the summaries show the keys. -/
theorem Named.mem_summaries (hs : Named s.instances) :
    id ∈ (s.instances.entries.map (·.2.summary)).map (·.inst) ↔ id ∈ s.instances := by
  have hkeys : (s.instances.entries.map (·.2.summary)).map (·.inst) = s.instances.keys := by
    rw [List.map_map]
    refine List.map_congr_left ?_
    intro e he
    exact (hs e he).1
  rw [hkeys]
  exact AList.mem_keys.symm

theorem Serves.listed_of_mem {list : List InstanceSummary}
    (h : Serves info (.status none) s (.status list) s') (hs : Named s.instances)
    (hid : id ∈ s.instances) : id ∈ list.map (·.inst) := by
  rcases h.listed with ⟨id', inst, hreq, -⟩ | ⟨-, hperm⟩
  · cases hreq
  · exact (hperm.map _).symm.subset (hs.mem_summaries.2 hid)

/-! ## Every schedule -/

variable {acts : List Act} {d : DaemonState} {i j : Nat}

/-- One client's request, served from its frame to its response. -/
def roundTrip (i : Nat) (req : Request) : List Act :=
  [.request i req, .send i, .take, .finish readyEnv, .write i]

def threeClients : List Act := [.select, .accept, .select, .accept, .select, .accept]

def startBitBox : Request := .start ⟨.bitBox02, false, none, none⟩

/-- The instance is stopped before it is started. -/
def startedAgain : List Act :=
  threeClients ++ (roundTrip 1 (.stop ⟨"bitbox02-a3f912"⟩) ++ roundTrip 2 startBitBox ++
    roundTrip 3 (.status none))

def shownBitBox : InstanceSummary :=
  ⟨⟨"bitbox02-a3f912"⟩, .bitBox02, .running, 0x03eb, 0x2403, "hwwctl-bb02-a3f912", none,
    "tcp 127.0.0.1:15423", none⟩

/-- After a start that was acknowledged, a list misses the instance only if some stop of it or some
shutdown that is not over before the start begins, and begins before the list is returned, has
stopped it. -/
theorem unlisted_after_start (hrun : Transition.run DaemonState.step (.init info) acts = some d)
    {summary : InstanceSummary} {list : List InstanceSummary}
    (hstarted : .ret i (.started summary) ∈ DaemonState.observed (.init info) acts)
    (hprec : Precedes (DaemonState.observed (.init info) acts) i j)
    (hcall : .call j (.status none) ∈ DaemonState.observed (.init info) acts)
    (hret : .ret j (.status list) ∈ DaemonState.observed (.init info) acts)
    (hid : summary.inst ∉ list.map (·.inst)) :
    ∃ k req, .call k req ∈ DaemonState.observed (.init info) acts ∧
      (req = .stop summary.inst ∨ req = .shutdown) ∧
      ¬ Precedes (DaemonState.observed (.init info) acts) k i ∧
      ¬ Precedes (DaemonState.observed (.init info) acts) j k := by
  obtain ⟨lin, x, hlin, -⟩ := (simulates_atomic info).linearizes (Mirrors.init info) hrun
  obtain ⟨e, he, rfl, hreply⟩ := hlin.answered i _ hstarted
  have hlist := hlin.entry_of_ret hcall hret
  obtain ⟨k, hk, hfirst, hlast, s₁, s₂, -, hbefore, hspec, hafter⟩ :=
    hlin.exists_change (P := fun s => summary.inst ∉ s.instances) (Q := fun s => Named s.instances)
      he hlist hprec Named.empty (fun _ _ _ _ hs h => h.named hs)
      (fun _ _ _ h => not_not_intro (Serves.started (hreply ▸ h)))
      (fun _ _ hs h hmem => hid (h.listed_of_mem hs hmem))
  exact ⟨k.id, k.op, hlin.called k hk, hspec.disappears (not_not.1 hbefore) hafter, hfirst, hlast⟩

def stoppedAgain : List Act :=
  threeClients ++ (roundTrip 1 startBitBox ++ roundTrip 2 (.stop ⟨"bitbox02-a3f912"⟩) ++
    roundTrip 3 (.status none))

theorem unlisted_after_start_stoppedAgain :
    ∃ k req, .call k req ∈ DaemonState.observed (.init quietInfo) stoppedAgain ∧
      (req = .stop shownBitBox.inst ∨ req = .shutdown) ∧
      ¬ Precedes (DaemonState.observed (.init quietInfo) stoppedAgain) k 1 ∧
      ¬ Precedes (DaemonState.observed (.init quietInfo) stoppedAgain) 3 k := by
  have hruns : (Transition.run DaemonState.step (.init quietInfo) stoppedAgain).isSome := by
    decide +kernel
  have hprec : Precedes (DaemonState.observed (.init quietInfo) stoppedAgain) 1 3 :=
    ⟨_, _, (List.take_append_drop 2 _).symm, ⟨.started shownBitBox, by decide +kernel⟩,
      ⟨.status none, by decide +kernel⟩⟩
  have hlist : shownBitBox.inst ∉ ([] : List InstanceSummary).map (·.inst) := by simp
  exact unlisted_after_start (Option.some_get hruns).symm (by decide +kernel) hprec
    (by decide +kernel) (by decide +kernel) hlist

end Hwwctl.Daemon
