import Hwwctl.Daemon.Events
import Hwwctl.Daemon.Proofs.RegistryProofs
import Hwwctl.Library.Transition

/-!
# What Status shows

An instance enters the map in state Running and stays in it until it leaves the map: no failure
changes its entry. So `Status` is right in every state of a run exactly when no step of the run is a
failure of an instance in the map, a failed write apart, which leaves `running` alone.
-/

namespace Hwwctl.Daemon

open Control Emulators Bridge Runtime Transition

variable {s s' : RegistryState} {id id' : InstanceId} {inst : Instance} {w : World}

/-! ## What a command does -/

/-- What serving a command does to the map and the children. -/
inductive Effect (s s' : RegistryState) : Prop
  | same (hmap : s'.instances = s.instances) (hw : s.world.children <+: s'.world.children)
  | launched (env : SpawnEnv) (h : Launched env s s')
  | stopped (id : InstanceId) (inst : Instance) (hinst : s.instances.lookup id = some inst)
      (hmap : s'.instances = s.instances.erase id)
      (hw : s'.world.children = (inst.emulator.drop s.world).children)
  | emptied (hmap : s'.instances = ∅)

theorem Effect.refl (s : RegistryState) : Effect s s := .same rfl (List.prefix_refl _)

theorem start_effect (env : SpawnEnv) (req : StartRequest) (s : RegistryState) :
    Effect s (start env req s).2 := by
  unfold start
  by_cases hwallet : req.wallet = .bitBox02
  · rw [hwallet]
    dsimp only
    have hpost := startBitbox02_post env req s
    cases hstart : startBitbox02 env req s with
    | mk r s' =>
      cases r with
      | ok summary => exact .launched env (hpost.ok hstart).1.2
      | error e =>
        have hclean := (hpost.error hstart).1
        exact .same hclean.1 hclean.2.untouched.children
  · cases h : req.wallet with
    | bitBox02 => exact absurd h hwallet
    | _ => exact .refl s

theorem children_bridge_stop (bridge : GenericBridge) (w : World) :
    (bridge.stop w).2.children = w.children := by
  simp [GenericBridge.stop]

theorem children_bridge_drop (bridge : GenericBridge) (w : World) :
    (bridge.drop w).children = w.children := by
  simp [GenericBridge.drop]

/-- Stopping an emulator and dropping it ends what dropping it would have ended. -/
theorem children_stop_drop (emu : GenericEmulator) (wait : WaitOutcome) (w w' : World)
    (h : w'.children = w.children) :
    ((emu.stop wait w').1.drop (emu.stop wait w').2).children = (emu.drop w).children := by
  unfold GenericEmulator.drop
  cases hchild : emu.child with
  | none => simp [GenericEmulator.stop, hchild, h]
  | some c => simp [stop_eq hchild, World.endChild, h]

theorem stopInstance_effect (env : CommandEnv) (id : InstanceId) (s : RegistryState) :
    Effect s (stopInstance env id s) := by
  have hmap := stopInstance_instances env id s
  unfold stopInstance at hmap ⊢
  cases hinst : s.instances.lookup id with
  | none => exact .refl s
  | some inst =>
    rw [hinst] at hmap
    refine .stopped id inst hinst hmap ?_
    refine children_stop_drop inst.emulator (env.stopWait id) s.world _ ?_
    cases inst.logDrain <;> cases inst.bridge <;>
      simp [children_bridge_stop, children_bridge_drop]

/-- Every command but the three that start or stop leaves the state as it is. -/
theorem serve_effect (env : CommandEnv) (cmd : Command) (s : RegistryState) :
    Effect s (serve env cmd s).2 := by
  cases cmd with
  | start req => exact start_effect env.spawn req s
  | stop id => exact stopInstance_effect env id s
  | status id =>
    cases id with
    | none => exact .refl s
    | some id =>
      simp only [serve]
      split <;> exact .refl s
  | logs req =>
    simp only [serve]
    split <;> exact .refl s
  | bridgeStats id =>
    simp only [serve]
    split <;> exact .refl s
  | shutdown => exact .emptied (serve_shutdown_instances env s)

theorem children_instance_drop (inst : Instance) (w : World) :
    (inst.drop w).children = (inst.emulator.drop w).children := by
  unfold Instance.drop
  cases inst.bridge with
  | none => rfl
  | some bridge => exact children_bridge_drop bridge _

/-! ## Who owns which child -/

/-- Every instance in the map is shown as running, and has a bridge and a child of its own. -/
structure Owned (s : RegistryState) : Prop where
  running : ∀ id inst, s.instances.lookup id = some inst → inst.state = .running
  bridge : ∀ id inst, s.instances.lookup id = some inst → inst.bridge.isSome
  child : ∀ id inst, s.instances.lookup id = some inst →
    ∃ c, inst.emulator.child = some c ∧ c < s.world.children.length
  apart : ∀ id id' inst inst', s.instances.lookup id = some inst →
    s.instances.lookup id' = some inst' → inst.emulator.child = inst'.emulator.child → id = id'

/-- Every instance in the map is healthy. -/
def AllHealthy (s : RegistryState) : Prop :=
  ∀ id inst, s.instances.lookup id = some inst → Healthy s.world inst

theorem Owned.of_empty (h : s.instances = ∅) : Owned s := by
  have hnone : ∀ id inst, s.instances.lookup id ≠ some inst := by
    intro id inst hinst
    rw [h, AList.lookup_empty] at hinst
    cases hinst
  exact ⟨fun id inst h => absurd h (hnone id inst), fun id inst h => absurd h (hnone id inst),
    fun id inst h => absurd h (hnone id inst), fun id _ inst _ h => absurd h (hnone id inst)⟩

theorem AllHealthy.of_empty (h : s.instances = ∅) : AllHealthy s := by
  intro id inst hinst
  rw [h, AList.lookup_empty] at hinst
  cases hinst

/-- Entries that were there before, and at least as many children. -/
theorem Owned.of_sub (h : Owned s)
    (hmap : ∀ id inst, s'.instances.lookup id = some inst → s.instances.lookup id = some inst)
    (hw : s.world.children.length ≤ s'.world.children.length) : Owned s' := by
  refine ⟨?_, ?_, ?_, ?_⟩
  · intro id inst hinst
    exact h.running id inst (hmap id inst hinst)
  · intro id inst hinst
    exact h.bridge id inst (hmap id inst hinst)
  · intro id inst hinst
    obtain ⟨c, hc, hlt⟩ := h.child id inst (hmap id inst hinst)
    exact ⟨c, hc, Nat.lt_of_lt_of_le hlt hw⟩
  · intro id id' inst inst' hinst hinst' heq
    exact h.apart id id' inst inst' (hmap id inst hinst) (hmap id' inst' hinst') heq

theorem lookup_erase_some (h : (s.instances.erase id).lookup id' = some inst) :
    id' ≠ id ∧ s.instances.lookup id' = some inst := by
  by_cases heq : id' = id
  · subst heq
    rw [AList.lookup_erase] at h
    cases h
  · rw [AList.lookup_erase_ne heq] at h
    exact ⟨heq, h⟩

theorem lookup_insert_some {inst' : Instance}
    (h : (s.instances.insert id inst).lookup id' = some inst') :
    (id' = id ∧ inst' = inst) ∨ (id' ≠ id ∧ s.instances.lookup id' = some inst') := by
  by_cases heq : id' = id
  · subst heq
    rw [AList.lookup_insert] at h
    exact .inl ⟨rfl, (Option.some.inj h).symm⟩
  · rw [AList.lookup_insert_ne heq] at h
    exact .inr ⟨heq, h⟩

theorem length_children_drop (emu : GenericEmulator) (w : World) :
    (emu.drop w).children.length = w.children.length := by
  unfold GenericEmulator.drop
  cases emu.child <;> simp

/-- Dropping an emulator leaves the children of others alone. -/
theorem alive_drop {emu : GenericEmulator} {c : Nat} (h : w.Alive c)
    (hne : emu.child ≠ some c) : (emu.drop w).Alive c := by
  unfold GenericEmulator.drop
  cases hchild : emu.child with
  | none => exact h
  | some c' =>
    rw [hchild] at hne
    exact h.endChild (fun heq => hne (congrArg some heq))

theorem Owned.effect (h : Owned s) (he : Effect s s') : Owned s' := by
  cases he with
  | same hmap hw => exact h.of_sub (fun id inst hinst => hmap ▸ hinst) hw.length_le
  | stopped id inst hinst hmap hw =>
    refine h.of_sub ?_ ?_
    · intro id' inst' hinst'
      rw [hmap] at hinst'
      exact (lookup_erase_some hinst').2
    · rw [hw, length_children_drop]
  | emptied hmap => exact .of_empty hmap
  | launched env hlaunched =>
    obtain ⟨inst, bridge, command, w, hmap, hstate, hchild, hbridge, -, hw, hw'⟩ := hlaunched
    have hlength : s'.world.children.length = s.world.children.length + 1 := by
      rw [hw']
      cases s.instances.lookup (instanceId env) with
      | none => simp [hw]
      | some old =>
        rw [Option.elim_some, children_instance_drop, length_children_drop]
        simp [hw]
    -- an old instance has an old child, so the newest child is no one else's
    have hnewest : ∀ id' inst', s.instances.lookup id' = some inst' →
        inst'.emulator.child ≠ inst.emulator.child := by
      intro id' inst' hinst' heq
      obtain ⟨c, hc, hlt⟩ := h.child id' inst' hinst'
      rw [hc, hchild] at heq
      exact absurd (Option.some.inj heq) (Nat.ne_of_lt hlt)
    refine ⟨?_, ?_, ?_, ?_⟩
    · intro id' inst' hinst'
      rcases lookup_insert_some (hmap ▸ hinst') with ⟨rfl, rfl⟩ | ⟨-, hold⟩
      · exact hstate
      · exact h.running id' inst' hold
    · intro id' inst' hinst'
      rcases lookup_insert_some (hmap ▸ hinst') with ⟨rfl, rfl⟩ | ⟨-, hold⟩
      · rw [hbridge]
        rfl
      · exact h.bridge id' inst' hold
    · intro id' inst' hinst'
      rcases lookup_insert_some (hmap ▸ hinst') with ⟨rfl, rfl⟩ | ⟨-, hold⟩
      · exact ⟨_, hchild, by omega⟩
      · obtain ⟨c, hc, hlt⟩ := h.child id' inst' hold
        exact ⟨c, hc, by omega⟩
    · intro id₁ id₂ inst₁ inst₂ h₁ h₂ heq
      rcases lookup_insert_some (hmap ▸ h₁) with ⟨rfl, rfl⟩ | ⟨-, hold₁⟩
      · rcases lookup_insert_some (hmap ▸ h₂) with ⟨rfl, -⟩ | ⟨-, hold₂⟩
        · rfl
        · exact absurd heq.symm (hnewest id₂ inst₂ hold₂)
      · rcases lookup_insert_some (hmap ▸ h₂) with ⟨rfl, rfl⟩ | ⟨-, hold₂⟩
        · exact absurd heq (hnewest id₁ inst₁ hold₁)
        · exact h.apart id₁ id₂ inst₁ inst₂ hold₁ hold₂ heq

theorem AllHealthy.effect (hall : AllHealthy s) (h : Owned s) (he : Effect s s') :
    AllHealthy s' := by
  cases he with
  | same hmap hw =>
    intro id inst hinst
    obtain ⟨⟨c, hc, halive⟩, hbridge⟩ := hall id inst (hmap ▸ hinst)
    exact ⟨⟨c, hc, halive.mono hw⟩, hbridge⟩
  | stopped id inst hinst hmap hw =>
    intro id' inst' hinst'
    rw [hmap] at hinst'
    obtain ⟨hne, hold⟩ := lookup_erase_some hinst'
    obtain ⟨⟨c, hc, halive⟩, hbridge⟩ := hall id' inst' hold
    have hother : inst.emulator.child ≠ some c := by
      intro heq
      exact hne (h.apart id' id inst' inst hold hinst (hc.trans heq.symm))
    exact ⟨⟨c, hc, (alive_drop halive hother).mono (hw ▸ List.prefix_refl _)⟩, hbridge⟩
  | emptied hmap => exact .of_empty hmap
  | launched env hlaunched =>
    obtain ⟨inst, bridge, command, w, hmap, -, hchild, hbridge, hrunning, hw, hw'⟩ := hlaunched
    -- the start ends no child but that of the instance it replaces
    have hkeeps : ∀ c, w.Alive c → (∀ old, s.instances.lookup (instanceId env) = some old →
        old.emulator.child ≠ some c) → s'.world.Alive c := by
      intro c halive hother
      rw [hw']
      cases hold : s.instances.lookup (instanceId env) with
      | none => exact halive
      | some old =>
        refine (alive_drop halive (hother old hold)).mono ?_
        simp only [Option.elim_some, children_instance_drop, List.prefix_rfl]
    intro id' inst' hinst'
    rcases lookup_insert_some (hmap ▸ hinst') with ⟨rfl, rfl⟩ | ⟨hne, hold⟩
    · refine ⟨⟨_, hchild, hkeeps _ (.newest hw rfl) ?_⟩, bridge, hbridge, hrunning⟩
      intro old hold heq
      obtain ⟨c, hc, hlt⟩ := h.child _ old hold
      rw [heq] at hc
      exact absurd (Option.some.inj hc) (Nat.ne_of_gt hlt)
    · obtain ⟨⟨c, hc, halive⟩, hbridge'⟩ := hall id' inst' hold
      refine ⟨⟨c, hc, hkeeps c (halive.mono ⟨_, hw.symm⟩) ?_⟩, hbridge'⟩
      intro old hold' heq
      exact hne (h.apart id' _ inst' old hold hold' (hc.trans heq.symm))

/-! ## What an event does -/

theorem relayEnds_cases (fails : GenericBridge → World → GenericBridge × World) (id : InstanceId)
    (s : RegistryState) :
    relayEnds fails id s = s ∨ ∃ inst bridge, s.instances.lookup id = some inst ∧
      inst.bridge = some bridge ∧ relayEnds fails id s =
        { instances := s.instances.insert id { inst with bridge := some (fails bridge s.world).1 }
          world := (fails bridge s.world).2 } := by
  unfold relayEnds
  cases hinst : s.instances.lookup id with
  | none => exact .inl rfl
  | some inst =>
    dsimp only
    cases hbridge : inst.bridge with
    | none => exact .inl rfl
    | some bridge => exact .inr ⟨inst, bridge, rfl, hbridge, rfl⟩

theorem children_readFailed (bridge : GenericBridge) (w : World) :
    (bridge.readFailed w).2.children = w.children := by
  unfold GenericBridge.readFailed
  cases bridge.taskHandles[0]? <;> rfl

theorem children_writeFailed (bridge : GenericBridge) (w : World) :
    (bridge.writeFailed w).2.children = w.children := by
  unfold GenericBridge.writeFailed
  cases bridge.taskHandles[1]? <;> rfl

/-- An end of a relay task that touches nothing but the bridge keeps who owns what. -/
theorem Owned.relayEnds (h : Owned s) {fails : GenericBridge → World → GenericBridge × World}
    (hfails : ∀ bridge w, (fails bridge w).2.children = w.children) (id : InstanceId) :
    Owned (relayEnds fails id s) := by
  rcases relayEnds_cases fails id s with heq | ⟨inst, bridge, hinst, -, heq⟩
  · rw [heq]
    exact h
  · rw [heq]
    -- whoever is in the map now was there before, with the same state and the same child
    have hold : ∀ id' inst', (s.instances.insert id
        { inst with bridge := some (fails bridge s.world).1 }).lookup id' = some inst' →
        ∃ inst₀, s.instances.lookup id' = some inst₀ ∧ inst'.state = inst₀.state ∧
          inst'.emulator = inst₀.emulator ∧ (inst₀.bridge.isSome → inst'.bridge.isSome) := by
      intro id' inst' hinst'
      rcases lookup_insert_some hinst' with ⟨rfl, rfl⟩ | ⟨-, hinst₀⟩
      · exact ⟨inst, hinst, rfl, rfl, fun _ => rfl⟩
      · exact ⟨inst', hinst₀, rfl, rfl, fun h => h⟩
    refine ⟨?_, ?_, ?_, ?_⟩
    · intro id' inst' hinst'
      obtain ⟨inst₀, hinst₀, hstate, -, -⟩ := hold id' inst' hinst'
      exact hstate.trans (h.running id' inst₀ hinst₀)
    · intro id' inst' hinst'
      obtain ⟨inst₀, hinst₀, -, -, hbridge⟩ := hold id' inst' hinst'
      exact hbridge (h.bridge id' inst₀ hinst₀)
    · intro id' inst' hinst'
      obtain ⟨inst₀, hinst₀, -, hemu, -⟩ := hold id' inst' hinst'
      rw [hemu, hfails]
      exact h.child id' inst₀ hinst₀
    · intro id₁ id₂ inst₁ inst₂ h₁ h₂ hsame
      obtain ⟨old₁, hold₁, -, hemu₁, -⟩ := hold id₁ inst₁ h₁
      obtain ⟨old₂, hold₂, -, hemu₂, -⟩ := hold id₂ inst₂ h₂
      rw [hemu₁, hemu₂] at hsame
      exact h.apart id₁ id₂ old₁ old₂ hold₁ hold₂ hsame

theorem Owned.happen (h : Owned s) (e : Event) : Owned (happen s e) := by
  cases e with
  | command env cmd => exact h.effect (serve_effect env cmd s)
  | childExits c =>
    refine h.of_sub (fun id inst hinst => hinst) ?_
    show _ ≤ (s.world.endChild c).children.length
    rw [World.length_children_endChild]
  | socketCloses id => exact h.relayEnds children_readFailed id
  | writeFails id => exact h.relayEnds children_writeFailed id

/-- A failed write is no failure of what `Status` shows. -/
theorem AllHealthy.writeFails (hall : AllHealthy s) (id : InstanceId) :
    AllHealthy (relayEnds GenericBridge.writeFailed id s) := by
  rcases relayEnds_cases GenericBridge.writeFailed id s with heq | ⟨inst, bridge, hinst, hbridge, heq⟩
  · rw [heq]
    exact hall
  · rw [heq]
    intro id' inst' hinst'
    have hsame : ∃ inst₀, s.instances.lookup id' = some inst₀ ∧
        inst'.emulator = inst₀.emulator ∧ inst'.bridge = inst₀.bridge := by
      rcases lookup_insert_some hinst' with ⟨rfl, rfl⟩ | ⟨-, hinst₀⟩
      · exact ⟨inst, hinst, rfl, hbridge.symm⟩
      · exact ⟨inst', hinst₀, rfl, rfl⟩
    obtain ⟨inst₀, hinst₀, hemu, hbridge₀⟩ := hsame
    obtain ⟨⟨c, hc, halive⟩, hrunning⟩ := hall id' inst₀ hinst₀
    refine ⟨⟨c, hemu ▸ hc, halive.mono ?_⟩, hbridge₀ ▸ hrunning⟩
    simp only [children_writeFailed, List.prefix_rfl]

theorem AllHealthy.happen (hall : AllHealthy s) (h : Owned s) {e : Event} (hspares : Spares s e) :
    AllHealthy (happen s e) := by
  cases e with
  | command env cmd => exact hall.effect h (serve_effect env cmd s)
  | childExits c =>
    intro id inst hinst
    obtain ⟨⟨c', hc', halive⟩, hbridge⟩ := hall id inst hinst
    refine ⟨⟨c', hc', halive.endChild ?_⟩, hbridge⟩
    rintro rfl
    exact hspares id inst hinst hc'
  | socketCloses id =>
    have hnone : s.instances.lookup id = none := AList.lookup_eq_none.2 hspares
    show AllHealthy (relayEnds GenericBridge.readFailed id s)
    rw [relayEnds, hnone]
    exact hall
  | writeFails id => exact hall.writeFails id

/-! ## Status along a run -/

theorem happen_named (h : Named s.instances) (e : Event) : Named (happen s e).instances := by
  have hrelay : ∀ fails id, Named (relayEnds fails id s).instances := by
    intro fails id
    rcases relayEnds_cases fails id s with heq | ⟨inst, bridge, hinst, -, heq⟩
    · rw [heq]
      exact h
    · rw [heq]
      intro e he
      rw [AList.entries_insert, List.mem_cons] at he
      rcases he with rfl | he
      · exact h ⟨id, inst⟩ (AList.mem_lookup_iff.1 hinst)
      · exact h.erase id e he
  cases e with
  | command env cmd => exact serve_named h
  | childExits c => exact h
  | socketCloses id => exact hrelay _ id
  | writeFails id => exact hrelay _ id

/-- What `Status` shows is the summary of an instance that stands in the map under its id. -/
theorem shown_of_status {env : CommandEnv} {asked : Option InstanceId} {shown : List InstanceSummary}
    {summary : InstanceSummary} (hnamed : Named s.instances)
    (h : (serve env (.status asked) s).1 = .status (.ok shown)) (hmem : summary ∈ shown) :
    ∃ inst, s.instances.lookup summary.inst = some inst ∧ summary = inst.summary := by
  cases asked with
  | none =>
    simp only [serve, Reply.status.injEq, Except.ok.injEq] at h
    subst h
    obtain ⟨e, he, rfl⟩ := List.mem_map.1 hmem
    have hentry : e ∈ s.instances.entries := (env.iterate s.instances).2.mem_iff.1 he
    have hid : e.2.summary.inst = e.1 := (hnamed e hentry).1
    exact ⟨e.2, by rw [hid]; exact AList.mem_lookup_iff.2 hentry, rfl⟩
  | some id =>
    simp only [serve] at h
    cases hinst : s.instances.lookup id with
    | none =>
      rw [hinst] at h
      cases h
    | some inst =>
      rw [hinst] at h
      simp only [Reply.status.injEq, Except.ok.injEq] at h
      subst h
      obtain rfl := List.mem_singleton.1 hmem
      have hid : inst.id = id := (hnamed ⟨id, inst⟩ (AList.mem_lookup_iff.1 hinst)).1
      exact ⟨inst, by rw [← hid] at hinst; exact hinst, rfl⟩

theorem AllHealthy.statusTruthful (hall : AllHealthy s) (hnamed : Named s.instances) :
    StatusTruthful s := by
  intro env asked shown hshown summary hmem _
  obtain ⟨inst, hinst, -⟩ := shown_of_status hnamed hshown hmem
  exact ⟨inst, hinst, hall summary.inst inst hinst⟩

/-- As every entry is in state Running, `Status` is right only if every instance is healthy. -/
theorem StatusTruthful.allHealthy (h : StatusTruthful s) (howned : Owned s)
    (hnamed : Named s.instances) (env : CommandEnv) : AllHealthy s := by
  intro id inst hinst
  have hshown : (serve env (.status (some id)) s).1 = .status (.ok [inst.summary]) := by
    simp only [serve, hinst]
  have hstate : inst.summary.state = .running := howned.running id inst hinst
  obtain ⟨inst', hinst', hhealthy⟩ := h env (some id) _ hshown inst.summary
    (List.mem_singleton.2 rfl) hstate
  have hid : inst.summary.inst = id := (hnamed ⟨id, inst⟩ (AList.mem_lookup_iff.1 hinst)).1
  rw [hid, hinst] at hinst'
  obtain rfl := Option.some.inj hinst'
  exact hhealthy

/-- A failure of an instance in the map leaves it unhealthy. -/
theorem spares_of_allHealthy {e : Event} (howned : Owned s) (h : AllHealthy (happen s e)) :
    Spares s e := by
  cases e with
  | command env cmd => trivial
  | childExits c =>
    intro id inst hinst hc
    obtain ⟨⟨c', hc', halive⟩, -⟩ := h id inst hinst
    obtain rfl : c = c' := Option.some.inj (hc.symm.trans hc')
    exact World.not_alive_endChild s.world c halive
  | socketCloses id =>
    intro hmem
    obtain ⟨inst, hinst⟩ := Option.isSome_iff_exists.1 (AList.lookup_isSome.2 hmem)
    obtain ⟨bridge, hbridge⟩ := Option.isSome_iff_exists.1 (howned.bridge id inst hinst)
    have hclosed : (happen s (.socketCloses id)).instances.lookup id =
        some { inst with bridge := some { bridge with running := false } } := by
      simp only [happen, relayEnds, hinst, hbridge, GenericBridge.readFailed,
        AList.lookup_insert]
    obtain ⟨-, bridge', hbridge', hrunning⟩ := h id _ hclosed
    obtain rfl := Option.some.inj hbridge'
    cases hrunning
  | writeFails id => trivial

/-- What holds in every state of every run. -/
def Kept (s : RegistryState) : Prop := Owned s ∧ Named s.instances

theorem Kept.init : Kept .init := ⟨.of_empty rfl, Named.empty⟩

theorem Kept.step {e : Event} (h : Kept s) (he : s.step e = some s') : Kept s' := by
  obtain rfl : happen s e = s' := Option.some.inj he
  exact ⟨h.1.happen e, happen_named h.2 e⟩

/-- In a run of commands and failures, in any order, `Status` shows an instance as running only
while its emulator and its bridge are running in every state exactly when no emulator of an instance
exits or closes its socket while the instance is in the map. -/
theorem statusTruthful_iff (events : List Event) :
    Always RegistryState.step StatusTruthful .init events ↔
      Guarded RegistryState.step Spares .init events := by
  constructor
  · intro htruthful p e hp s s' hrun he
    have hkept : Always RegistryState.step Kept .init events :=
      always_of_step Kept.init fun _ _ _ h he => h.step he
    have hs := hkept p ((List.prefix_append _ _).trans hp) s hrun
    have hrun' : run RegistryState.step .init (p ++ [e]) = some s' := by
      rw [run_concat, hrun]
      exact he
    have hs' := hkept (p ++ [e]) hp s' hrun'
    have hall := (htruthful (p ++ [e]) hp s' hrun').allHealthy hs'.1 hs'.2 readyEnv
    obtain rfl : happen s e = s' := Option.some.inj he
    exact spares_of_allHealthy hs.1 hall
  · intro hguard
    have hinv : Always RegistryState.step (fun s => Kept s ∧ AllHealthy s) .init events := by
      refine hguard.always ⟨Kept.init, .of_empty rfl⟩ ?_
      rintro s e s' ⟨hkept, hall⟩ hspares he
      refine ⟨hkept.step he, ?_⟩
      obtain rfl : happen s e = s' := Option.some.inj he
      exact hall.happen hkept.1 hspares
    exact hinv.mono fun s h => h.2.statusTruthful h.1.2

/-- A start that succeeds, and then its simulator exits. -/
def emulatorExits : List Event :=
  [.command readyEnv (.start ⟨.bitBox02, false, none, none⟩), .childExits 0]

theorem not_statusTruthful_emulatorExits :
    ¬ Always RegistryState.step StatusTruthful .init emulatorExits := by
  intro h
  obtain ⟨s, summary, inst, hrun, hshown, hstate, hinst, hchild, hdead⟩ :
      ∃ s summary inst, run RegistryState.step .init emulatorExits = some s ∧
        (serve readyEnv (.status none) s).1 = .status (.ok [summary]) ∧
        summary.state = .running ∧ s.instances.lookup summary.inst = some inst ∧
        inst.emulator.child = some 0 ∧ s.world.children.map (·.alive) = [false] :=
    ⟨_, _, _, rfl, rfl, rfl, rfl, rfl, rfl⟩
  obtain ⟨inst', hinst', ⟨c, hc, child, hget, halive⟩, -⟩ :=
    h.of_run hrun readyEnv none [summary] hshown summary (List.mem_singleton.2 rfl) hstate
  obtain rfl : inst = inst' := Option.some.inj (hinst.symm.trans hinst')
  obtain rfl : 0 = c := Option.some.inj (hchild.symm.trans hc)
  have hmem : child.alive ∈ s.world.children.map (·.alive) :=
    List.mem_map_of_mem (List.mem_of_getElem? hget)
  rw [hdead, halive] at hmem
  cases List.mem_singleton.1 hmem

end Hwwctl.Daemon
