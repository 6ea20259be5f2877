import Hwwctl.Emulators.Attempt
import Hwwctl.Emulators.Proofs.HonestProofs

/-!
# One child per emulator

A start that finds an older child keeps both for a moment: the handle of the older one is dropped
only when the new one takes its place.
-/

namespace Hwwctl.Emulators

open Transition Runtime

/-- How an emulator of either kind gets its child and loses it. -/
structure Keeper (ε Env : Type) where
  child : ε → Option Nat
  /-- `start` comes to its spawn, and the spawn succeeds. -/
  spawns : ε → Env → Prop
  start : ε → Env → World → Except String Unit × ε × World
  attempt : ε → Env → World → Attempt ε
  setChild : ε → Nat → World → ε × World
  settle : ε → Env → ε
  stop : ε → WaitOutcome → World → ε × World

/-- How far a start has come. -/
inductive Stage (Env : Type) where
  | idle
  | spawned (env : Env) (c : Nat)
  | probing (env : Env)

structure Moment (ε Env : Type) where
  emu : ε
  world : World
  stage : Stage Env
  /-- The children that the emulator has started. -/
  mine : List Nat

inductive Event (Env : Type) where
  | start (env : Env)
  | keep
  | settle
  | stop (wait : WaitOutcome)
  /-- A child exits, or something else kills it. -/
  | ends (c : Nat)
  /-- Something else starts a child. -/
  | other (command : Command)

namespace Keeper

variable {ε Env : Type} (K : Keeper ε Env)

/-- A stop is one step: while it waits for the child, what is alive is what was alive before. -/
def step (s : Moment ε Env) : Event Env → Option (Moment ε Env)
  | .start env =>
    match s.stage with
    | .idle =>
      match K.attempt s.emu env s.world with
      | .returned _ emu => some { s with emu := emu }
      | .spawned c emu w => some ⟨emu, w, .spawned env c, c :: s.mine⟩
    | _ => none
  | .keep =>
    match s.stage with
    | .spawned env c =>
      let (emu, w) := K.setChild s.emu c s.world
      some { s with emu := emu, world := w, stage := .probing env }
    | _ => none
  | .settle =>
    match s.stage with
    | .probing env => some { s with emu := K.settle s.emu env, stage := .idle }
    | _ => none
  | .stop wait =>
    match s.stage with
    | .idle =>
      let (emu, w) := K.stop s.emu wait s.world
      some { s with emu := emu, world := w }
    | _ => none
  | .ends c => some { s with world := s.world.endChild c }
  | .other command => some { s with world := (s.world.spawnChild command).2 }

/-- At most one of the emulator's children is alive. -/
def OneAlive (s : Moment ε Env) : Prop :=
  ∀ c ∈ s.mine, ∀ c' ∈ s.mine, s.world.Alive c → s.world.Alive c' → c = c'

/-- No spawn succeeds while the child that is held is alive. -/
def Alone (s : Moment ε Env) : Event Env → Prop
  | .start env => K.spawns s.emu env → ∀ c, K.child s.emu = some c → ¬ s.world.Alive c
  | _ => True

/-- What an attempt can come to. -/
inductive Attempts (emu : ε) (env : Env) (w : World) : Attempt ε → Prop where
  | returned (result : Except String Unit) (emu' : ε) (hspawns : ¬ K.spawns emu env)
    (hchild : K.child emu' = K.child emu) : Attempts emu env w (.returned result emu')
  | spawned (emu' : ε) (w' : World) (command : Command) (hspawns : K.spawns emu env)
    (hchild : K.child emu' = K.child emu)
    (hchildren : w'.children = w.children ++ [⟨command, true⟩]) :
    Attempts emu env w (.spawned w.children.length emu' w')

structure Lawful : Prop where
  start : ∀ emu env w, K.start emu env w =
    (K.attempt emu env w).result K.setChild (K.settle · env) w
  attempt : ∀ emu env w, K.Attempts emu env w (K.attempt emu env w)
  setChild : ∀ emu c w, K.child (K.setChild emu c w).1 = some c ∧
    (K.setChild emu c w).2 = (K.child emu).elim w w.endChild
  settle : ∀ emu env, K.child (K.settle emu env) = K.child emu
  stop : ∀ emu wait w, K.child (K.stop emu wait w).1 = none ∧
    (K.stop emu wait w).2 = (K.child emu).elim w w.endChild

/-- A start that nothing comes between goes through the stages. -/
theorem start_moments {K : Keeper ε Env} (hK : K.Lawful) (emu : ε) (env : Env) (w : World)
    (mine : List Nat) :
    ∃ events mine', (∀ e ∈ events, e = .keep ∨ e = .settle) ∧
      run K.step ⟨emu, w, .idle, mine⟩ (.start env :: events) =
        some ⟨(K.start emu env w).2.1, (K.start emu env w).2.2, .idle, mine'⟩ := by
  have hstart := hK.start emu env w
  cases hattempt : K.attempt emu env w with
  | returned result emu' =>
    rw [hattempt] at hstart
    refine ⟨[], mine, by simp, ?_⟩
    rw [hstart, run_cons]
    simp [step, hattempt, run_nil, Attempt.result]
  | spawned c emu' w' =>
    rw [hattempt] at hstart
    refine ⟨[.keep, .settle], c :: mine, by simp, ?_⟩
    rw [hstart, run_cons]
    simp [step, hattempt, run_cons, run_nil, Attempt.result]

/-- The children that may be alive: the one that is held, and the one that is about to be. -/
def Kept (s : Moment ε Env) (c : Nat) : Prop :=
  match s.stage with
  | .spawned _ new => c = new ∨ K.child s.emu = some c
  | _ => K.child s.emu = some c

structure Accounted (s : Moment ε Env) : Prop where
  known : ∀ c ∈ s.mine, c < s.world.children.length
  held : ∀ c, K.child s.emu = some c → c ∈ s.mine
  spawned : ∀ env c, s.stage = .spawned env c → c ∈ s.mine
  alive : ∀ c ∈ s.mine, s.world.Alive c → K.Kept s c

/-- What a start makes of a moment. -/
inductive Starts (s : Moment ε Env) (env : Env) : Moment ε Env → Prop where
  | returned (emu' : ε) (hspawns : ¬ K.spawns s.emu env) (hchild : K.child emu' = K.child s.emu) :
    Starts s env ⟨emu', s.world, .idle, s.mine⟩
  | spawned (emu' : ε) (w' : World) (command : Command) (hspawns : K.spawns s.emu env)
    (hchild : K.child emu' = K.child s.emu)
    (hchildren : w'.children = s.world.children ++ [⟨command, true⟩]) :
    Starts s env ⟨emu', w', .spawned env s.world.children.length,
      s.world.children.length :: s.mine⟩

variable {K} {s s' : Moment ε Env} {a : Event Env}

theorem start_cases (hK : K.Lawful) {env : Env} (h : K.step s (.start env) = some s') :
    s.stage = .idle ∧ K.Starts s env s' := by
  have hattempts := hK.attempt s.emu env s.world
  cases hstage : s.stage with
  | spawned | probing => simp [step, hstage] at h
  | idle =>
    refine ⟨rfl, ?_⟩
    simp only [step, hstage] at h
    cases hattempt : K.attempt s.emu env s.world with
    | returned result emu =>
      rw [hattempt] at h hattempts
      obtain rfl := Option.some.inj h
      cases hattempts with
      | returned _ _ hspawns hchild => exact .returned emu hspawns hchild
    | spawned new emu w =>
      rw [hattempt] at h hattempts
      obtain rfl := Option.some.inj h
      cases hattempts with
      | spawned _ _ command hspawns hchild hchildren =>
        exact .spawned emu w command hspawns hchild hchildren

theorem Accounted.start (hK : K.Lawful) (hs : K.Accounted s) {env : Env}
    (h : K.step s (.start env) = some s') : K.Accounted s' := by
  obtain ⟨hstage, hstarts⟩ := start_cases hK h
  have hkept : ∀ c ∈ s.mine, s.world.Alive c → K.child s.emu = some c := by
    intro c hc halive
    simpa only [Kept, hstage] using hs.alive c hc halive
  cases hstarts with
  | returned emu _ hchild =>
    refine ⟨hs.known, fun c hc => hs.held c (hchild ▸ hc), nofun, ?_⟩
    intro c hc halive
    exact hchild.trans (hkept c hc halive)
  | spawned emu w command _ hchild hchildren =>
    have hlength : w.children.length = s.world.children.length + 1 := by simp [hchildren]
    refine ⟨?_, ?_, ?_, ?_⟩
    · intro c hc
      rcases List.mem_cons.1 hc with rfl | hc
      · exact hlength ▸ Nat.lt_succ_self _
      · exact hlength ▸ Nat.lt_succ_of_lt (hs.known c hc)
    · intro c hc
      exact List.mem_cons_of_mem _ (hs.held c (hchild ▸ hc))
    · rintro _ _ ⟨⟩
      exact List.mem_cons_self
    · intro c hc halive
      rcases (World.alive_of_children hchildren).1 halive with hold | hnew
      · rcases List.mem_cons.1 hc with rfl | hc
        · exact .inl rfl
        · exact .inr (hchild.trans (hkept c hc hold))
      · exact .inl hnew

/-- What becomes of the children when the child that is held is ended. -/
theorem alive_elim_endChild {w : World} {old : Option Nat} {c : Nat}
    (h : (old.elim w w.endChild).Alive c) : w.Alive c ∧ old ≠ some c := by
  cases old with
  | none => exact ⟨h, nofun⟩
  | some c' =>
    obtain ⟨halive, hne⟩ := World.alive_endChild.1 h
    exact ⟨halive, fun heq => hne (Option.some.inj heq).symm⟩

theorem length_elim_endChild (w : World) (old : Option Nat) :
    (old.elim w w.endChild).children.length = w.children.length := by
  cases old with
  | none => rfl
  | some c => exact World.length_children_endChild w c

theorem Accounted.keep (hK : K.Lawful) (hs : K.Accounted s) (h : K.step s .keep = some s') :
    K.Accounted s' := by
  cases hstage : s.stage with
  | idle | probing => simp [step, hstage] at h
  | spawned env new =>
    obtain ⟨hchild, hworld⟩ := hK.setChild s.emu new s.world
    simp only [step, hstage] at h
    obtain rfl := Option.some.inj h
    refine ⟨?_, ?_, nofun, ?_⟩
    · intro c hc
      rw [hworld, length_elim_endChild]
      exact hs.known c hc
    · intro c hc
      obtain rfl := Option.some.inj (hchild.symm.trans hc)
      exact hs.spawned env new hstage
    · intro c hc halive
      rw [hworld] at halive
      obtain ⟨hbefore, hother⟩ := alive_elim_endChild halive
      have hkept := hs.alive c hc hbefore
      simp only [Kept, hstage] at hkept
      rw [hkept.resolve_right hother]
      exact hchild

theorem Accounted.settle (hK : K.Lawful) (hs : K.Accounted s) (h : K.step s .settle = some s') :
    K.Accounted s' := by
  cases hstage : s.stage with
  | idle | spawned => simp [step, hstage] at h
  | probing env =>
    have hchild := hK.settle s.emu env
    simp only [step, hstage] at h
    obtain rfl := Option.some.inj h
    refine ⟨hs.known, fun c hc => hs.held c (hchild ▸ hc), nofun, ?_⟩
    intro c hc halive
    have hkept := hs.alive c hc halive
    simp only [Kept, hstage] at hkept
    exact hchild.trans hkept

theorem Accounted.stop (hK : K.Lawful) (hs : K.Accounted s) {wait : WaitOutcome}
    (h : K.step s (.stop wait) = some s') : K.Accounted s' := by
  cases hstage : s.stage with
  | spawned | probing => simp [step, hstage] at h
  | idle =>
    obtain ⟨hchild, hworld⟩ := hK.stop s.emu wait s.world
    simp only [step, hstage] at h
    obtain rfl := Option.some.inj h
    refine ⟨?_, ?_, nofun, ?_⟩
    · intro c hc
      rw [hworld, length_elim_endChild]
      exact hs.known c hc
    · intro c hc
      cases hchild.symm.trans hc
    · intro c hc halive
      rw [hworld] at halive
      obtain ⟨hbefore, hother⟩ := alive_elim_endChild halive
      have hkept := hs.alive c hc hbefore
      simp only [Kept, hstage] at hkept
      exact absurd hkept hother

theorem Accounted.step (hK : K.Lawful) (hs : K.Accounted s) (h : K.step s a = some s') :
    K.Accounted s' := by
  cases a with
  | start env => exact hs.start hK h
  | keep => exact hs.keep hK h
  | settle => exact hs.settle hK h
  | stop wait => exact hs.stop hK h
  | ends c =>
    obtain rfl := Option.some.inj h
    refine ⟨?_, hs.held, hs.spawned, ?_⟩
    · intro c' hc'
      rw [World.length_children_endChild]
      exact hs.known c' hc'
    · intro c' hc' halive
      exact hs.alive c' hc' (World.alive_endChild.1 halive).1
  | other command =>
    obtain rfl := Option.some.inj h
    refine ⟨?_, hs.held, hs.spawned, ?_⟩
    · intro c hc
      have hlt := hs.known c hc
      simp only [World.spawnChild, List.length_append]
      omega
    · intro c hc halive
      refine hs.alive c hc ((World.alive_of_children rfl).1 halive |>.resolve_right ?_)
      exact Nat.ne_of_lt (hs.known c hc)

/-- While a new child is about to be held, the old one is not alive. -/
structure Lone (K : Keeper ε Env) (s : Moment ε Env) : Prop where
  accounted : K.Accounted s
  replaces : ∀ env new, s.stage = .spawned env new →
    ∀ c, K.child s.emu = some c → ¬ s.world.Alive c

theorem Lone.oneAlive (hs : K.Lone s) : OneAlive s := by
  intro c hc c' hc' halive halive'
  have hkept := hs.accounted.alive c hc halive
  have hkept' := hs.accounted.alive c' hc' halive'
  cases hstage : s.stage with
  | idle | probing =>
    simp only [Kept, hstage] at hkept hkept'
    exact Option.some.inj (hkept.symm.trans hkept')
  | spawned env new =>
    simp only [Kept, hstage] at hkept hkept'
    have hdead := hs.replaces env new hstage
    rw [hkept.resolve_right fun hheld => hdead c hheld halive,
      hkept'.resolve_right fun hheld => hdead c' hheld halive']

theorem Lone.step (hK : K.Lawful) (hs : K.Lone s) (halone : K.Alone s a)
    (h : K.step s a = some s') : K.Lone s' := by
  refine ⟨hs.accounted.step hK h, ?_⟩
  cases a with
  | start env =>
    obtain ⟨-, hstarts⟩ := start_cases hK h
    cases hstarts with
    | returned => nofun
    | spawned emu w command hspawns hchild hchildren =>
      rintro _ _ - c hc halive
      have hc' : K.child s.emu = some c := hchild.symm.trans hc
      have hlt := hs.accounted.known c (hs.accounted.held c hc')
      refine halone hspawns c hc' ?_
      exact ((World.alive_of_children hchildren).1 halive).resolve_right (Nat.ne_of_lt hlt)
  | keep | settle | stop =>
    -- No new child is waiting behind these.
    cases hstage : s.stage <;> simp only [Keeper.step, hstage, reduceCtorEq] at h
    obtain rfl := Option.some.inj h
    nofun
  | ends c =>
    obtain rfl := Option.some.inj h
    intro env new hstage c' hc' halive
    exact hs.replaces env new hstage c' hc' (World.alive_endChild.1 halive).1
  | other command =>
    obtain rfl := Option.some.inj h
    intro env new hstage c hc halive
    have hlt := hs.accounted.known c (hs.accounted.held c hc)
    refine hs.replaces env new hstage c hc ?_
    exact ((World.alive_of_children rfl).1 halive).resolve_right (Nat.ne_of_lt hlt)

/-- A start that spawns beside a living child is seen right behind its spawn. -/
theorem Accounted.alone (hK : K.Lawful) (hs : K.Accounted s) (h : K.step s a = some s')
    (hone : OneAlive s') : K.Alone s a := by
  cases a with
  | start env =>
    intro hspawns c hc halive
    obtain ⟨-, hstarts⟩ := start_cases hK h
    cases hstarts with
    | returned _ hno => exact hno hspawns
    | spawned emu w command _ _ hchildren =>
      have hheld := hs.held c hc
      have hold : w.Alive c := (World.alive_of_children hchildren).2 (.inl halive)
      have hnew : w.Alive s.world.children.length :=
        (World.alive_of_children hchildren).2 (.inr rfl)
      have hsame := hone c (List.mem_cons_of_mem _ hheld) _ List.mem_cons_self hold hnew
      exact Nat.ne_of_lt (hs.known c hheld) hsame
  | _ => trivial

theorem always_oneAlive_iff (hK : K.Lawful) {emu : ε} (hchild : K.child emu = none) (w : World)
    (events : List (Event Env)) :
    Always K.step OneAlive ⟨emu, w, .idle, []⟩ events ↔
      Guarded K.step K.Alone ⟨emu, w, .idle, []⟩ events := by
  have haccounted : K.Accounted ⟨emu, w, .idle, []⟩ := by
    refine ⟨nofun, fun c hc => ?_, nofun, nofun⟩
    cases hchild.symm.trans hc
  constructor
  · intro hone p a hp s s' hrun hstep
    have hs : K.Accounted s :=
      (always_of_step haccounted fun _ _ _ hs h => hs.step hK h).of_run hrun
    refine hs.alone hK hstep (hone (p ++ [a]) hp s' ?_)
    rw [run_concat, hrun]
    exact hstep
  · intro halone
    have hlone : K.Lone ⟨emu, w, .idle, []⟩ := ⟨haccounted, nofun⟩
    exact (halone.always hlone fun _ _ _ hs hC h => hs.step hK hC h).mono fun _ => Lone.oneAlive

end Keeper

/-! ## The two kinds -/

/-- A start comes to its spawn, and the spawn succeeds. -/
def SpawnSucceeds (status : EmulatorStatus) (binaryExists : Bool)
    (createProfileDir spawn : Except String Unit) : Prop :=
  ¬ (status = .running ∨ status = .starting) ∧ binaryExists = true ∧
    createProfileDir = .ok () ∧ spawn = .ok ()

/-- What both kinds check on the way to the spawn. -/
theorem checks_cases {α : Type} {P : α → Prop} (status : EmulatorStatus) (binaryExists : Bool)
    (createProfileDir spawn : Except String Unit) {busy missing spawned : α}
    {noDir noSpawn : String → α} :
    (¬ SpawnSucceeds status binaryExists createProfileDir spawn →
      P busy ∧ P missing ∧ (∀ e, P (noDir e)) ∧ ∀ e, P (noSpawn e)) →
    (SpawnSucceeds status binaryExists createProfileDir spawn → P spawned) →
    P (if status = .running ∨ status = .starting then busy
      else if !binaryExists then missing
      else match createProfileDir with
        | .error e => noDir e
        | .ok () =>
          match spawn with
          | .error e => noSpawn e
          | .ok () => spawned) := by
  intro hno hspawned
  by_cases hbusy : status = .running ∨ status = .starting
  · rw [if_pos hbusy]
    exact (hno fun h => h.1 hbusy).1
  · rw [if_neg hbusy]
    cases binaryExists with
    | false => exact (hno fun h => nomatch h.2.1).2.1
    | true =>
      cases createProfileDir with
      | error e => exact (hno fun h => nomatch h.2.2.1).2.2.1 e
      | ok =>
        cases spawn with
        | error e => exact (hno fun h => nomatch h.2.2.2).2.2.2 e
        | ok => exact hspawned ⟨hbusy, rfl, rfl, rfl⟩

namespace GenericEmulator

def keeper : Keeper GenericEmulator StartEnv where
  child := GenericEmulator.child
  spawns emu env := SpawnSucceeds emu.status env.binaryExists env.createProfileDir env.spawn
  start := start
  attempt := attempt
  setChild := setChild
  settle := settle
  stop := stop

theorem attempts (emu : GenericEmulator) (env : StartEnv) (w : World) :
    keeper.Attempts emu env w (emu.attempt env w) := by
  unfold attempt
  refine checks_cases emu.status env.binaryExists env.createProfileDir env.spawn ?_ ?_
  · intro hno
    exact ⟨.returned _ _ hno rfl, .returned _ _ hno rfl, fun e => .returned _ _ hno rfl,
      fun e => .returned _ _ hno rfl⟩
  · intro hspawns
    exact .spawned _ _ _ hspawns rfl rfl

theorem keeper_lawful : keeper.Lawful where
  start := start_eq_attempt
  attempt := attempts
  setChild _ _ _ := ⟨rfl, rfl⟩
  settle emu env := by
    show (settle emu env).child = emu.child
    unfold settle
    cases emu.skipProbeDelayMs with
    | some ms => rfl
    | none => cases env.ready <;> rfl
  stop emu wait w := by
    show (stop emu wait w).1.child = none ∧ (stop emu wait w).2 = emu.child.elim w w.endChild
    cases hchild : emu.child with
    | none => simp [stop, hchild]
    | some c => cases wait <;> simp [stop, hchild]

end GenericEmulator

namespace TrezorEmulator

def keeper : Keeper TrezorEmulator StartEnv where
  child := TrezorEmulator.child
  spawns emu env := SpawnSucceeds emu.status env.binaryExists env.createProfileDir env.spawn
  start := start
  attempt := attempt
  setChild := setChild
  settle := settle
  stop := stop

theorem attempts (emu : TrezorEmulator) (env : StartEnv) (w : World) :
    keeper.Attempts emu env w (emu.attempt env w) := by
  unfold attempt
  refine checks_cases emu.status env.binaryExists env.createProfileDir env.spawn ?_ ?_
  · intro hno
    exact ⟨.returned _ _ hno rfl, .returned _ _ hno rfl, fun e => .returned _ _ hno rfl,
      fun e => .returned _ _ hno rfl⟩
  · intro hspawns
    exact .spawned _ _ _ hspawns rfl rfl

theorem keeper_lawful : keeper.Lawful where
  start := start_eq_attempt
  attempt := attempts
  setChild _ _ _ := ⟨rfl, rfl⟩
  settle emu env := by
    show (settle emu env).child = emu.child
    unfold settle
    cases env.ready <;> rfl
  stop emu wait w := by
    show (stop emu wait w).1.child = none ∧ (stop emu wait w).2 = emu.child.elim w w.endChild
    cases hchild : emu.child with
    | none => simp [stop, hchild]
    | some c => cases wait <;> simp [stop, hchild]

end TrezorEmulator

/-- At every moment of a run at most one child is alive, exactly when no start of the run spawns
one beside the living child that the emulator holds. -/
theorem one_child_iff {generic : GenericEmulator} {trezor : TrezorEmulator} (w : World)
    (hgeneric : generic.child = none) (htrezor : trezor.child = none)
    (events : List (Event StartEnv)) (events' : List (Event TrezorEmulator.StartEnv)) :
    (Always GenericEmulator.keeper.step Keeper.OneAlive ⟨generic, w, .idle, []⟩ events ↔
      Guarded GenericEmulator.keeper.step GenericEmulator.keeper.Alone ⟨generic, w, .idle, []⟩
        events) ∧
    (Always TrezorEmulator.keeper.step Keeper.OneAlive ⟨trezor, w, .idle, []⟩ events' ↔
      Guarded TrezorEmulator.keeper.step TrezorEmulator.keeper.Alone ⟨trezor, w, .idle, []⟩
        events') :=
  ⟨Keeper.always_oneAlive_iff GenericEmulator.keeper_lawful hgeneric w events,
    Keeper.always_oneAlive_iff TrezorEmulator.keeper_lawful htrezor w events'⟩

/-- The first start gives up waiting, and the second one comes to its spawn. -/
def restarted : List (Event TrezorEmulator.StartEnv) :=
  [.start slow, .keep, .settle, .start slow]

theorem one_child_iff_restarted :
    (Always GenericEmulator.keeper.step Keeper.OneAlive ⟨simulatorEmu, .empty, .idle, []⟩
        [.start notExecutable, .stop .exited] ↔
      Guarded GenericEmulator.keeper.step GenericEmulator.keeper.Alone
        ⟨simulatorEmu, .empty, .idle, []⟩ [.start notExecutable, .stop .exited]) ∧
    (Always TrezorEmulator.keeper.step Keeper.OneAlive ⟨trezorEmu, .empty, .idle, []⟩ restarted ↔
      Guarded TrezorEmulator.keeper.step TrezorEmulator.keeper.Alone ⟨trezorEmu, .empty, .idle, []⟩
        restarted) :=
  one_child_iff .empty rfl rfl _ _

theorem two_children_restarted :
    ¬ Always TrezorEmulator.keeper.step Keeper.OneAlive ⟨trezorEmu, .empty, .idle, []⟩
      restarted := by
  intro h
  have hone := h.of_run rfl
  have hsame : 1 = 0 :=
    hone 1 List.mem_cons_self 0 (List.mem_cons_of_mem _ List.mem_cons_self) ⟨_, rfl, rfl⟩
      ⟨_, rfl, rfl⟩
  cases hsame

end Hwwctl.Emulators
