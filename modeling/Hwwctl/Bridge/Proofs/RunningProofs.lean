import Hwwctl.Bridge.Proofs.SessionsProofs

/-!
# What the flag says about the bridge

A task that ends clears the flag in three places only: a failed read over TCP, and a failed bind or
connect over the Unix sockets. Every other end of a piece of the bridge leaves the flag up; while
none happens, a bridge whose flag is up carries reports both ways.
-/

namespace Hwwctl.Bridge

open Transition

variable {reportSize : Nat} {transport : BridgeTransport}

/-- The device thread and the relay of both directions are at work. Over the Unix sockets the relay
task connects when a report comes, and a connection has a read task from its first report on. -/
def Relay.Carrying (x : Relay) : Prop :=
  x.thread.alive = true ∧
    match x with
    | .connecting _ => False
    | .tcp s => s.taskA ≠ .ended ∧ s.taskB ≠ .ended
    | .unix _ s => s.task ≠ .returned ∧ ∀ c, s.task.conn = some c → s.reader c ≠ .finished

/-- The flag is up after a start that succeeded only while the pieces of that start are at work. -/
def SoundFlag (reportSize : Nat) (transport : BridgeTransport) (acts : List (BridgeAct RelayAct))
    (b : BridgeState Relay) : Prop :=
  b.running = true → b.free (GenericBridge.kind reportSize transport) = true →
    .session (b.sessions.length - 1) .connectFails ∉ acts →
      ∃ x, b.sessions.getLast? = some x ∧ x.Carrying

/-- The device fails. -/
def ThreadAct.Fails : ThreadAct → Prop
  | .writeFails | .pollFails => True
  | _ => False

/-- With the step a piece of the bridge ends, or `start` returns without one, and the flag stays. -/
def Relay.Silent : Relay → RelayAct → Prop
  | .connecting t, .connects => t.alive = false
  | .tcp s, .tcp (.thread a) => a.Fails ∧ s.taskB ≠ .ended
  | .tcp _, .tcp .writeFails => True
  | .unix _ _, .unix (.thread a) => a.Fails
  | .unix _ s, .unix (.readEnds c) => s.task.conn = some c
  | _, _ => False

/-- No step of the newest start is silent while the flag is up, unless `stop` is at work. -/
def Loud (b : BridgeState Relay) (a : BridgeAct RelayAct) : Prop :=
  ∀ i x c, a = .session i c → b.sessions.getLast? = some x → i + 1 = b.sessions.length →
    b.running = true → b.stopping = false → ¬ x.Silent c

/-! ## One start -/

/-- The thread is alive and not told to end. -/
structure UhidThread.Working (t : UhidThread) : Prop where
  alive : t.alive = true
  untold : t.shutdown = false

/-- A start that did not fail to connect, and whose pieces are at work and not told to end. -/
def Relay.Working : Relay → Prop
  | .connecting t => t.shutdown = false
  | .tcp s => s.thread.Working ∧ s.shutdownA = false ∧ s.taskA ≠ .ended ∧ s.taskB ≠ .ended
  | .unix _ s => s.thread.Working ∧ s.shutdown = false ∧ s.task ≠ .returned ∧
    ∀ c, s.task.conn = some c → s.reader c ≠ .finished

theorem ThreadSteps.working {t t' : UhidThread} {a : ThreadAct} (h : ThreadSteps true t a t')
    (ht : t.Working) (hfails : ¬ a.Fails) : t'.Working := by
  refine ⟨?_, h.shutdown.trans ht.untold⟩
  cases h with
  | leave _ hshutdown =>
    rw [ht.untold] at hshutdown
    cases hshutdown
  | writeFails | pollFails => exact absurd trivial hfails
  | unheard _ hreceiving => cases hreceiving
  | write => exact ht.alive
  | _ => rfl

theorem push_working {t : UhidThread} (ht : t.Working) (data : Report) :
    ((t.push data).getD t).Working := by
  refine ⟨(push_alive t data).trans ht.alive, ?_⟩
  rw [UhidThread.push]
  split <;> exact ht.untold

theorem TcpSteps.working {s s' : TcpRelay} {a : TcpAct} (h : TcpSteps reportSize s a s')
    (hs : (Relay.tcp s).Working) (hsilent : ¬ (Relay.tcp s).Silent (.tcp a))
    (hclears : a.clearsRunning = false) : (Relay.tcp s').Working := by
  obtain ⟨hthread, hwatching, htaskA, htaskB⟩ := hs
  cases h with
  | thread h =>
    rw [decide_eq_true htaskB] at h
    exact ⟨h.working hthread fun hfails => hsilent ⟨hfails, htaskB⟩, hwatching, htaskA, htaskB⟩
  | emulatorSends => exact ⟨hthread, hwatching, htaskA, htaskB⟩
  | read => exact ⟨hthread, hwatching, by simp, htaskB⟩
  | deliver => exact ⟨push_working hthread _, hwatching, by simp, htaskB⟩
  | readFails => cases hclears
  | shutdownA _ hclosed =>
    rw [hwatching] at hclosed
    cases hclosed
  | take => exact ⟨⟨hthread.alive, hthread.untold⟩, hwatching, htaskA, by simp⟩
  | write | written => exact ⟨hthread, hwatching, htaskA, by simp⟩
  | writeFails => exact absurd trivial hsilent
  | closed _ _ hexited =>
    rw [hthread.alive] at hexited
    cases hexited

theorem UnixRelay.reader_setReader (s : UnixRelay) (c : Nat) (r : UnixReader) (c' : Nat) :
    (s.setReader c r).reader c' = s.reader c' ∨
      c = c' ∧ (s.setReader c r).reader c' = r := by
  unfold UnixRelay.reader UnixRelay.setReader
  rw [List.getElem?_modify]
  by_cases hc : c = c'
  · cases s.conns[c']? with
    | none => exact .inl rfl
    | some conn => exact .inr ⟨hc, by simp [hc]⟩
  · simp [hc]

/-- A read task that hands a report to a living thread goes on. -/
theorem UnixRelay.reader_forward {c c' : Nat} (s : UnixRelay) (halive : s.thread.alive = true)
    (data : Report) (h : s.reader c' ≠ .finished) : (s.forward c data).reader c' ≠ .finished := by
  rw [UnixRelay.forward]
  split
  · rename_i thread _
    rcases UnixRelay.reader_setReader { s.emit .deviceToHost data with thread := thread } c
      (.reading []) c' with hsame | ⟨-, hnew⟩
    · rw [hsame]
      exact h
    · simp [hnew]
  · rename_i hpush
    exact absurd (hpush.symm.trans (if_pos halive)) (by simp)

theorem UnixSteps.working {kind : SocketKind} {s s' : UnixRelay} {a : UnixAct}
    (h : UnixSteps kind reportSize s a s') (hs : (Relay.unix kind s).Working)
    (hsilent : ¬ (Relay.unix kind s).Silent (.unix a)) (hclears : a.clearsRunning = false) :
    (Relay.unix kind s').Working := by
  obtain ⟨hthread, hwatching, htask, hreader⟩ := hs
  cases h with
  | thread h =>
    rw [decide_eq_true htask] at h
    exact ⟨h.working hthread hsilent, hwatching, htask, hreader⟩
  | takeFirst => exact ⟨⟨hthread.alive, hthread.untold⟩, hwatching, by simp, by simp [UnixTask.conn]⟩
  | @takeNext c report queue h =>
    exact ⟨⟨hthread.alive, hthread.untold⟩, hwatching, by simp, fun c' hc' => hreader c' (h ▸ hc')⟩
  | connects =>
    refine ⟨hthread, hwatching, by simp, fun c hc => ?_⟩
    obtain rfl := Option.some.inj hc
    simp [UnixRelay.reader]
  | connectFails => cases hclears
  | @firstWritten c first h =>
    refine ⟨hthread, hwatching, by simp, fun c' hc' => ?_⟩
    obtain rfl := Option.some.inj hc'
    show (s.setReader c (.reading [])).reader c ≠ .finished
    rcases s.reader_setReader c (.reading []) c with hsame | ⟨-, hnew⟩
    · rw [hsame]
      exact hreader c (by rw [h]; rfl)
    · simp [hnew]
  | @written c _ h | @looks c h =>
    have hcurrent : s.reader c ≠ .finished := hreader c (by rw [h]; rfl)
    simp only [Relay.Working, if_neg hcurrent]
    exact ⟨hthread, hwatching, by simp, fun c' hc' => hreader c' (h ▸ hc')⟩
  | firstFails | writeFails => exact ⟨hthread, hwatching, by simp, by simp [UnixTask.conn]⟩
  | closed _ _ hexited =>
    rw [hthread.alive] at hexited
    cases hexited
  | shutdown _ hshutdown =>
    rw [hwatching] at hshutdown
    cases hshutdown
  | emulatorCloses =>
    refine ⟨hthread, hwatching, htask, fun c hc => ?_⟩
    rw [s.reader_modify (f := fun conn => { conn with peerOpen := false }) fun _ => rfl]
    exact hreader c hc
  | @fills c filled data =>
    refine ⟨hthread, hwatching, htask, fun c' hc' => ?_⟩
    rcases s.reader_setReader c (.reading (filled ++ data)) c' with hsame | ⟨-, hnew⟩
    · rw [hsame]
      exact hreader c' hc'
    · simp [hnew]
  | @readEnds c filled =>
    refine ⟨hthread, hwatching, htask, fun c' hc' => ?_⟩
    rcases s.reader_setReader c .finished c' with hsame | ⟨rfl, -⟩
    · rw [hsame]
      exact hreader c' hc'
    · exact absurd hc' hsilent
  | datagram | block =>
    refine ⟨?_, ?_, ?_, fun c' hc' => ?_⟩
    · rw [UnixRelay.forward_thread]
      exact push_working hthread _
    · rw [UnixRelay.forward_shutdown]
      exact hwatching
    · rw [UnixRelay.forward_task]
      exact htask
    · rw [UnixRelay.forward_task] at hc'
      exact s.reader_forward hthread.alive _ (hreader c' hc')

/-- A step of a working start that is not silent and does not clear the flag leaves it working. -/
theorem Relay.Working.step {x x' : Relay} {a : RelayAct} (hx : x.Working)
    (h : x.step reportSize a = some x') (hsilent : ¬ x.Silent a) (hclears : a.clearsRunning = false)
    (hconnects : a ≠ .connectFails) : x'.Working := by
  cases x with
  | connecting t =>
    cases a with
    | connecting a =>
      obtain ⟨t', ht, rfl⟩ := Option.map_eq_some_iff.1 h
      exact (thread_step_cases ht).shutdown.trans hx
    | connects =>
      obtain rfl := Option.some.inj h
      exact ⟨⟨by simpa [Relay.Silent] using hsilent, hx⟩, rfl, by simp [TcpRelay.connected],
        by simp [TcpRelay.connected]⟩
    | connectFails => exact absurd rfl hconnects
    | tcp | unix => cases h
  | tcp s =>
    obtain ⟨b, s', rfl, rfl, hstep⟩ := Relay.tcp_step h
    exact hstep.working hx hsilent hclears
  | unix kind s =>
    obtain ⟨b, s', rfl, rfl, hstep⟩ := Relay.unix_step h
    exact hstep.working hx hsilent hclears

theorem Relay.Working.carrying {x : Relay} (hx : x.Working) (hstarted : x.starting = false) :
    x.Carrying := by
  cases x with
  | connecting => cases hstarted
  | tcp s => exact ⟨hx.1.alive, hx.2.2⟩
  | unix kind s => exact ⟨hx.1.alive, hx.2.2⟩

theorem Relay.working_start (transport : BridgeTransport) : (Relay.start transport).Working := by
  cases transport with
  | tcp => exact rfl
  | unix | unixDgram =>
    exact ⟨⟨rfl, rfl⟩, rfl, by simp [UnixRelay.start], by simp [UnixRelay.start, UnixTask.conn]⟩

/-! ## All the starts and stops -/

/-- While the flag is up and `stop` is not at work, the newest start works, unless it failed to
connect; and the schedule names no start that is still to come. -/
structure FlagKept (acts : List (BridgeAct RelayAct)) (b : BridgeState Relay) : Prop where
  working : b.running = true → b.stopping = false →
    .session (b.sessions.length - 1) .connectFails ∉ acts →
      ∃ x, b.sessions.getLast? = some x ∧ x.Working
  known : ∀ i c, .session i c ∈ acts → i < b.sessions.length

theorem BridgeSteps.flagKept {acts : List (BridgeAct RelayAct)} {b b' : BridgeState Relay}
    {a : BridgeAct RelayAct}
    (h : BridgeSteps (GenericBridge.kind reportSize transport) b a b') (hb : FlagKept acts b)
    (hloud : Loud b a) : FlagKept (acts ++ [a]) b' := by
  cases h with
  | @refused created =>
    refine ⟨fun hrunning hstopping hstarted => hb.working hrunning hstopping ?_, fun i c hmem => ?_⟩
    · exact fun hmem => hstarted (List.mem_append_left _ hmem)
    · exact hb.known i c (by simpa using hmem)
  | start =>
    refine ⟨fun _ _ _ => ⟨_, List.getLast?_concat .., Relay.working_start transport⟩, ?_⟩
    intro i c hmem
    have hlt := hb.known i c (by simpa using hmem)
    rw [List.length_append]
    exact Nat.lt_add_right _ hlt
  | @session i c x x' hget hstep =>
    obtain ⟨hi, hx⟩ := List.getElem?_eq_some_iff.1 hget
    refine ⟨fun hrunning hstopping hstarted => ?_, fun j d hmem => ?_⟩
    · simp only [Bool.and_eq_true, Bool.not_eq_true'] at hrunning
      obtain ⟨hrunning, hclears⟩ := hrunning
      rw [List.length_set] at hstarted
      have hbefore := hb.working hrunning hstopping fun hmem =>
        hstarted (List.mem_append_left _ hmem)
      obtain ⟨y, hy, hworking⟩ := hbefore
      by_cases hlast : i + 1 = b.sessions.length
      · have hxy : x = y := by
          rw [List.getLast?_eq_getElem?, ← hlast, Nat.add_sub_cancel, hget] at hy
          exact Option.some.inj hy
        subst hxy
        refine ⟨x', ?_, hworking.step hstep (hloud i x c rfl hy hlast hrunning hstopping) hclears ?_⟩
        · rw [List.getLast?_eq_getElem?, List.length_set, ← hlast, Nat.add_sub_cancel]
          exact List.getElem?_set_self hi
        · rintro rfl
          refine hstarted (List.mem_append_right _ ?_)
          rw [← hlast, Nat.add_sub_cancel]
          exact List.mem_singleton_self _
      · refine ⟨y, ?_, hworking⟩
        rw [List.getLast?_eq_getElem?, List.length_set, List.getElem?_set_ne (by omega),
          ← List.getLast?_eq_getElem?]
        exact hy
    · rw [List.length_set]
      rcases List.mem_append.1 hmem with hmem | hmem
      · exact hb.known j d hmem
      · obtain ⟨rfl, -⟩ := BridgeAct.session.inj (List.mem_singleton.1 hmem)
        exact hi
  | stop =>
    refine ⟨fun _ hstopping => ?_, fun i c hmem => ?_⟩
    · cases hstopping
    · rw [List.length_map]
      exact hb.known i c (by simpa using hmem)
  | stopEnds =>
    refine ⟨fun hrunning => ?_, fun i c hmem => hb.known i c (by simpa using hmem)⟩
    cases hrunning

/-- In every run whose steps are loud the flag is sound in every state. -/
theorem flag_sound_of_loud {acts p : List (BridgeAct RelayAct)} {b : BridgeState Relay}
    (hloud : Guarded (BridgeState.step (GenericBridge.kind reportSize transport)) Loud .new acts)
    (hp : p <+: acts)
    (hrun : run (BridgeState.step (GenericBridge.kind reportSize transport)) .new p = some b) :
    SoundFlag reportSize transport p b := by
  have hkept : FlagKept p b :=
    (hloud.of_prefix hp).history (R := FlagKept) ⟨by simp [BridgeState.new], by simp⟩
      (fun _ _ _ _ hb hC ha => (bridge_step_cases ha).flagKept hb hC) hrun
  intro hrunning hfree hstarted
  simp only [BridgeState.free, Bool.and_eq_true, Bool.not_eq_true', List.all_eq_true] at hfree
  obtain ⟨hstopping, hsettled⟩ := hfree
  obtain ⟨x, hx, hworking⟩ := hkept.working hrunning hstopping hstarted
  exact ⟨x, hx, hworking.carrying (hsettled x (List.mem_of_getLast? hx))⟩

/-- A report goes to the emulator over a Unix socket, an answer comes back, and the bridge is
stopped. -/
def stoppedAfterAnswer : List (BridgeAct RelayAct) :=
  [.start true] ++
    [UnixAct.thread .check, .thread .drained, .thread (.poll (some [0x00, 7])), .take, .connects,
      .written, .looks, .reads 0 [8]].map (fun a => .session 0 (.unix a)) ++ [.stop]

theorem flag_sound_of_loud_answered :
    SoundFlag 1 (.unix "/tmp/bb02.sock") stoppedAfterAnswer.dropLast
      ⟨true, false, [.unix .stream
        { thread := ⟨.sleeping, false, [[8]], [], [], [[0x00, 7]]⟩
          task := .connected 0
          shutdown := false
          conns := [⟨true, .reading []⟩]
          taken := [[0x00, 7]]
          sent := [(0, [7])]
          intercepted := [.new .hostToDevice [0x00, 7] none, .new .deviceToHost [8] none] }]⟩ := by
  have hloud : Guarded (BridgeState.step (GenericBridge.kind 1 (.unix "/tmp/bb02.sock"))) Loud .new
      stoppedAfterAnswer := by
    refine .of_forall fun a ha b i x c hac _ _ _ _ => ?_
    subst hac
    simp only [stoppedAfterAnswer, List.map_cons, List.map_nil, List.mem_append, List.mem_cons,
      BridgeAct.session.injEq, reduceCtorEq, List.not_mem_nil, or_false, false_or] at ha
    rcases ha with ⟨-, rfl⟩ | ⟨-, rfl⟩ | ⟨-, rfl⟩ | ⟨-, rfl⟩ | ⟨-, rfl⟩ | ⟨-, rfl⟩ | ⟨-, rfl⟩ |
      ⟨-, rfl⟩
    all_goals cases x <;> simp [Relay.Silent, ThreadAct.Fails]
  exact flag_sound_of_loud hloud ⟨[.stop], rfl⟩ rfl

/-- The write of a report to the emulator fails. -/
def writeFailed : List (BridgeAct RelayAct) :=
  [.start true, .session 0 .connects] ++
    [TcpAct.thread .check, .thread .drained, .thread (.poll (some [0x00, 7])), .take,
      .writeFails].map (fun a => .session 0 (.tcp a))

theorem not_flag_sound_writeFailed :
    ¬ ∀ reportSize transport acts b,
      run (BridgeState.step (GenericBridge.kind reportSize transport)) .new acts = some b →
        SoundFlag reportSize transport acts b := by
  intro h
  have hsound := h 64 (.tcp "127.0.0.1" 9999) writeFailed _ rfl rfl rfl (by simp [writeFailed])
  obtain ⟨x, hx, hcarrying⟩ := hsound
  obtain rfl := Option.some.inj hx
  exact hcarrying.2.2 rfl

end Hwwctl.Bridge
