import Hwwctl.Bridge.Proofs.RelayProofs

/-!
# What goes on after `stop`

The tasks of a TCP relay are aborted. The task of a Unix relay is only told to end, which it sees in
its selects, and its read tasks are neither told nor aborted: the bridge comes to rest exactly when
no read task is at work and the relay task has nothing to do but to see its channel closed.
-/

namespace Hwwctl.Bridge

open Transition

variable {reportSize : Nat}

/-- No read task is at work. -/
def UnixRelay.NoReader (s : UnixRelay) : Prop := ∀ c filled, s.reader c ≠ .reading filled

/-- The task is in one of its selects or looks at its read task before one. -/
def UnixTask.Free (t : UnixTask) : Prop := t.Selecting ∨ ∃ c, t = .looking c

/-- The task has returned, or it comes to a select or waits in one while no report is queued and the
thread is not between its look at the channel and its poll. -/
def UnixRelay.NothingToDo (s : UnixRelay) : Prop :=
  s.task = .returned ∨ s.task.Free ∧ s.thread.readQueue = [] ∧
    s.thread.phase ≠ .draining ∧ s.thread.phase ≠ .polling

namespace Relay

/-- What was handed to the device's thread. -/
def toDevice (s : Relay) : List Report := s.thread.inputs ++ s.thread.writeQueue

/-- After `stop`, every task and the thread have come to their next await or poll: the thread has
looked at its channel, no task is on its way to a select or in one that is ready, and none is about
to bind a socket, which does not wait. -/
def AtRest : Relay → Prop
  | .connecting t => t.phase = .exited
  | .tcp s => s.thread.phase = .exited
  | .unix kind s => s.thread.phase = .exited ∧ ¬ s.task.Free ∧
      (kind = .dgram → ∀ first, s.task ≠ .connecting first)

/-- Whatever the emulator and the host do, nothing is forwarded or emitted any more, and no
connection is open. -/
def Quiet (reportSize : Nat) (s : Relay) : Prop :=
  ∀ acts s', run (step reportSize) s acts = some s' → ¬ s'.connectionOpen ∧
    s'.toEmulator = s.toEmulator ∧ s'.toDevice = s.toDevice ∧ s'.intercepted = s.intercepted

/-- A stopped relay is quiet once it is at rest. -/
def Quiesces (reportSize : Nat) (s : Relay) : Prop :=
  ∀ acts s', run (step reportSize) s acts = some s' → s'.AtRest → s'.Quiet reportSize

/-- What `stop` has to find: over TCP nothing, over the Unix sockets no read task at work and a relay
task with nothing to do. -/
def Idle : Relay → Prop
  | .connecting _ | .tcp _ => True
  | .unix _ s => s.NoReader ∧ s.NothingToDo

variable {s s' : Relay}

theorem Quiesces.of_run {acts : List RelayAct} (h : s.Quiesces reportSize)
    (hrun : run (step reportSize) s acts = some s') : s'.Quiesces reportSize := by
  intro acts' s'' hrun' hrest
  refine h (acts ++ acts') s'' ?_ hrest
  rw [run_append, hrun]
  exact hrun'

/-- A relay of which an invariant says that it is quiet. -/
theorem quiet_of_step {P : Relay → Prop} (h0 : P s)
    (hstep : ∀ s a s', P s → s.step reportSize a = some s' → P s' ∧
      s'.toEmulator = s.toEmulator ∧ s'.toDevice = s.toDevice ∧ s'.intercepted = s.intercepted)
    (hclosed : ∀ s, P s → ¬ s.connectionOpen) : s.Quiet reportSize := by
  intro acts s' hrun
  have hall : Always (step reportSize) (fun s' => P s' ∧ s'.toEmulator = s.toEmulator ∧
      s'.toDevice = s.toDevice ∧ s'.intercepted = s.intercepted) s acts :=
    always_of_step ⟨h0, rfl, rfl, rfl⟩ fun s₁ a s₂ ⟨hP, he, hd, hi⟩ ha => by
      obtain ⟨hP', he', hd', hi'⟩ := hstep s₁ a s₂ hP ha
      exact ⟨hP', he'.trans he, hd'.trans hd, hi'.trans hi⟩
  obtain ⟨hP, hsame⟩ := hall.of_run hrun
  exact ⟨hclosed s' hP, hsame⟩

end Relay

/-! ## Over TCP -/

/-- Both tasks have ended. -/
structure TcpRelay.Aborted (s : TcpRelay) : Prop where
  taskA : s.taskA = .ended
  taskB : s.taskB = .ended

theorem TcpSteps.aborted {s s' : TcpRelay} {a : TcpAct} (h : TcpSteps reportSize s a s')
    (hs : s.Aborted) : s'.Aborted ∧ s'.sent = s.sent ∧ s'.intercepted = s.intercepted ∧
      (s.thread.phase = .exited → s'.thread = s.thread) := by
  have hA := hs.taskA
  have hB := hs.taskB
  cases h with
  | thread h => exact ⟨⟨hA, hB⟩, rfl, rfl, fun hexited => absurd hexited h.alive⟩
  | emulatorSends => exact ⟨⟨hA, hB⟩, rfl, rfl, fun _ => rfl⟩
  | read h | deliver h | readFails h | shutdownA h =>
    rw [hA] at h
    cases h
  | take h | write h | written h | writeFails h | closed h =>
    rw [hB] at h
    cases h

theorem tcp_quiesces (s : TcpRelay) : (Relay.tcp s.stop).Quiesces reportSize := by
  intro acts s' hrun hrest
  have hall : Always (Relay.step reportSize) (fun r => ∃ t, r = .tcp t ∧ t.Aborted)
      (.tcp s.stop) acts := by
    refine always_of_step ⟨_, rfl, ⟨rfl, rfl⟩⟩ ?_
    rintro _ a r' ⟨t, rfl, ht⟩ ha
    obtain ⟨b, t', -, rfl, hstep⟩ := Relay.tcp_step ha
    exact ⟨t', rfl, (hstep.aborted ht).1⟩
  obtain ⟨t, rfl, ht⟩ := hall.of_run hrun
  refine Relay.quiet_of_step (P := fun r => ∃ t, r = .tcp t ∧ t.Aborted ∧ t.thread.phase = .exited)
    ⟨t, rfl, ht, hrest⟩ ?_ ?_
  · rintro _ a r' ⟨t, rfl, ht, hexited⟩ ha
    obtain ⟨b, t', -, rfl, hstep⟩ := Relay.tcp_step ha
    obtain ⟨ht', hsent, hintercepted, hthread⟩ := hstep.aborted ht
    have hthread := hthread hexited
    refine ⟨⟨t', rfl, ht', by rw [hthread, hexited]⟩, ?_, ?_, hintercepted⟩
    · rw [Relay.toEmulator, hsent]
      rfl
    · rw [Relay.toDevice, Relay.thread, hthread]
      rfl
  · rintro _ ⟨t, rfl, ht, _⟩ hopen
    rcases hopen with hA | hB
    · exact hA ht.taskA
    · exact hB ht.taskB

/-! ## Over the Unix sockets -/

namespace UnixRelay

/-- What stays as it is after the relay is stopped with nothing to do. -/
structure Stopped (s : UnixRelay) : Prop where
  watching : s.thread.shutdown = true
  noReader : s.NoReader
  nothingToDo : s.NothingToDo

end UnixRelay

theorem ThreadSteps.nothingToDo {s : UnixRelay} {a : ThreadAct} {t : UhidThread}
    (h : ThreadSteps (s.task ≠ .returned) s.thread a t) (hwatching : s.thread.shutdown = true)
    (hs : s.NothingToDo) : UnixRelay.NothingToDo { s with thread := t } := by
  rcases hs with hreturned | ⟨hfree, hqueue, hdraining, hpolling⟩
  · exact .inl hreturned
  · cases h with
    | leave => exact .inr ⟨hfree, hqueue, by simp, by simp⟩
    | goOn _ hshutdown =>
      rw [hwatching] at hshutdown
      cases hshutdown
    | write h | writeFails h | drained h => exact absurd h hdraining
    | nothing h | output h | unheard h | pollFails h => exact absurd h hpolling
    | wake => exact .inr ⟨hfree, hqueue, by simp, by simp⟩

theorem UnixSteps.stopped {kind : SocketKind} {s s' : UnixRelay} {a : UnixAct}
    (h : UnixSteps kind reportSize s a s') (hs : s.Stopped) :
    s'.Stopped ∧ s'.sent = s.sent ∧ s'.intercepted = s.intercepted ∧
      (s.thread.phase = .exited → s'.thread = s.thread) := by
  have hcarries : ∀ {r}, s.task.inHand = [r] → False := by
    intro r hr
    rcases hs.nothingToDo with htask | ⟨(htask | ⟨c, htask⟩) | ⟨c, htask⟩, -⟩
    all_goals
      rw [htask] at hr
      cases hr
  have hempty : ∀ {r queue}, s.task ≠ .returned → s.thread.readQueue = r :: queue → False := by
    intro r queue htask hqueue
    rcases hs.nothingToDo with hreturned | ⟨-, hnil, -⟩
    · exact htask hreturned
    · rw [hnil] at hqueue
      cases hqueue
  cases h with
  | thread h =>
    exact ⟨⟨h.shutdown.trans hs.watching, hs.noReader, h.nothingToDo hs.watching hs.nothingToDo⟩,
      rfl, rfl, fun hexited => absurd hexited h.alive⟩
  | takeFirst h hqueue | takeNext h hqueue => exact (hempty (by rw [h]; simp) hqueue).elim
  | connects h | connectFails h | firstWritten h | written h | firstFails h | writeFails h =>
    exact (hcarries (congrArg UnixTask.inHand h)).elim
  | looks h =>
    obtain ⟨-, hqueue, hphase⟩ := hs.nothingToDo.resolve_left (by rw [h]; nofun)
    exact ⟨⟨hs.watching, hs.noReader, .inr ⟨.inl (UnixTask.selecting_of_look _ _), hqueue, hphase⟩⟩,
      rfl, rfl, fun _ => rfl⟩
  | closed | shutdown =>
    exact ⟨⟨hs.watching, hs.noReader, .inl rfl⟩, rfl, rfl, fun _ => rfl⟩
  | emulatorCloses =>
    refine ⟨⟨hs.watching, fun c filled hreader => hs.noReader c filled ?_, hs.nothingToDo⟩, rfl, rfl,
      fun _ => rfl⟩
    rw [← hreader]
    exact (s.reader_modify (f := fun conn => { conn with peerOpen := false }) fun _ => rfl).symm
  | fills _ h | block _ h | datagram _ h | readEnds h => exact absurd h (hs.noReader _ _)

/-- The task returns once. -/
theorem UnixSteps.returned {kind : SocketKind} {s s' : UnixRelay} {a : UnixAct}
    (h : UnixSteps kind reportSize s a s') (hs : s.task = .returned) : s'.task = .returned := by
  cases h with
  | takeFirst h | takeNext h | connects h | firstWritten h | written h | firstFails h
  | writeFails h | looks h =>
    rw [hs] at h
    cases h
  | connectFails | closed | shutdown => rfl
  | datagram | block => exact (s.forward_task _ _).trans hs
  | _ => exact hs

theorem unix_quiesces {kind : SocketKind} {s : UnixRelay} (hreader : s.NoReader)
    (hnothing : s.NothingToDo) : (Relay.unix kind s.stop).Quiesces reportSize := by
  intro acts s' hrun hrest
  have hall : Always (Relay.step reportSize) (fun r => ∃ t, r = .unix kind t ∧ t.Stopped)
      (.unix kind s.stop) acts := by
    refine always_of_step ⟨_, rfl, ⟨rfl, hreader, hnothing⟩⟩ ?_
    rintro _ a r' ⟨t, rfl, ht⟩ ha
    obtain ⟨b, t', -, rfl, hstep⟩ := Relay.unix_step ha
    exact ⟨t', rfl, (hstep.stopped ht).1⟩
  obtain ⟨t, rfl, ht⟩ := hall.of_run hrun
  obtain ⟨hexited, hfree, -⟩ := hrest
  have hreturned : t.task = .returned := ht.nothingToDo.resolve_right fun h => hfree h.1
  refine Relay.quiet_of_step (P := fun r => ∃ t, r = .unix kind t ∧ t.Stopped ∧
    t.thread.phase = .exited ∧ t.task = .returned) ⟨t, rfl, ht, hexited, hreturned⟩ ?_ ?_
  · rintro _ a r' ⟨t, rfl, ht, hexited, hreturned⟩ ha
    obtain ⟨b, t', -, rfl, hstep⟩ := Relay.unix_step ha
    obtain ⟨ht', hsent, hintercepted, hthread⟩ := hstep.stopped ht
    have hthread := hthread hexited
    refine ⟨⟨t', rfl, ht', by rw [hthread, hexited], hstep.returned hreturned⟩, hsent, ?_,
      hintercepted⟩
    rw [Relay.toDevice, Relay.thread, hthread]
    rfl
  · rintro _ ⟨t, rfl, ht, _, hreturned⟩ hopen
    rcases hopen with htask | ⟨c, filled, hreader⟩
    · rw [hreturned] at htask
      exact htask rfl
    · exact ht.noReader c filled hreader

/-! ## What keeps a stopped relay from coming to rest -/

/-- The task awaits the end of a write. -/
def UnixTask.Writing (t : UnixTask) : Prop :=
  (∃ c first, t = .writingFirst c first) ∨ ∃ c report, t = .writing c report

theorem UnixTask.Writing.not_free {t : UnixTask} (h : t.Writing) : ¬ t.Free := by
  rcases h with ⟨c, first, rfl⟩ | ⟨c, report, rfl⟩
  all_goals simp [Free, Selecting]

theorem UnixTask.Free.not_returned {t : UnixTask} (h : t.Free) : t ≠ .returned := by
  rcases h with (rfl | ⟨c, rfl⟩) | ⟨c, rfl⟩
  all_goals simp

/-- Both shutdown channels of the start are closed. -/
structure UnixRelay.Told (s : UnixRelay) : Prop where
  thread : s.thread.shutdown = true
  task : s.shutdown = true

variable {kind : SocketKind} {s : UnixRelay}

/-- A task that looks at its read task comes to a select. -/
theorem UnixRelay.comesToSelect (kind : SocketKind) (reportSize : Nat) (hfree : s.task.Free) :
    ∃ acts task, run (UnixRelay.step kind reportSize) s acts = some { s with task := task } ∧
      task.Selecting := by
  rcases hfree with hselecting | ⟨c, htask⟩
  · exact ⟨[], s.task, run_nil, hselecting⟩
  · refine ⟨[.looks], if s.reader c = .finished then .unconnected else .connected c, ?_,
      UnixTask.selecting_of_look _ _⟩
    rw [run_cons]
    simp only [UnixRelay.step, htask]
    exact run_nil

/-- A task that is told to end can come to its end or is in a write. -/
theorem UnixRelay.Told.returns (kind : SocketKind) (reportSize : Nat) (htold : s.Told)
    (hwriting : ¬ s.task.Writing) : ∃ acts,
    run (UnixRelay.step kind reportSize) s acts = some { s with task := .returned } := by
  have hreturns : s.task.Free → ∃ acts,
      run (UnixRelay.step kind reportSize) s acts = some { s with task := .returned } := by
    intro hfree
    obtain ⟨acts, task, hrun, hselecting⟩ := s.comesToSelect kind reportSize hfree
    refine ⟨acts ++ [.shutdown], ?_⟩
    rw [run_concat, hrun]
    rcases hselecting with rfl | ⟨c, rfl⟩
    all_goals exact if_pos htold.task
  cases htask : s.task with
  | unconnected => exact hreturns (.inl (.inl htask))
  | connected c => exact hreturns (.inl (.inr ⟨c, htask⟩))
  | looking c => exact hreturns (.inr ⟨c, htask⟩)
  | connecting =>
    have hstep : s.step kind reportSize .connectFails = some { s with task := .returned } := by
      simp only [UnixRelay.step, htask]
    exact ⟨[.connectFails], by rw [run_cons, hstep]; exact run_nil⟩
  | writingFirst c first => exact absurd (.inl ⟨c, first, htask⟩) hwriting
  | writing c report => exact absurd (.inr ⟨c, report, htask⟩) hwriting
  | returned => exact ⟨[], by rw [← htask]; exact run_nil⟩

/-- A stopped relay can come to rest while its read tasks and a task in a write stay there. -/
theorem exists_atRest (kind : SocketKind) (reportSize : Nat) (htold : s.Told) : ∃ acts s',
    run (UnixRelay.step kind reportSize) s acts = some s' ∧ (Relay.unix kind s').AtRest ∧
      s'.conns = s.conns ∧ (s.task.Writing → s'.task = s.task) := by
  by_cases hwriting : s.task.Writing
  · obtain ⟨acts, t, hrun, hexited, -⟩ := UhidThread.exits (s.task ≠ .returned) htold.thread
    refine ⟨acts.map .thread, { s with thread := t }, run_unix_thread hrun, ⟨hexited, ?_, ?_⟩, rfl,
      fun _ => rfl⟩
    · exact hwriting.not_free
    · intro _ first hs
      rw [show s.task = _ from hs] at hwriting
      simp [UnixTask.Writing] at hwriting
  · obtain ⟨acts, hrun⟩ := htold.returns kind reportSize hwriting
    obtain ⟨acts', t, hrun', hexited, -⟩ :=
      UhidThread.exits (UnixTask.returned ≠ .returned) htold.thread
    have hthread : run (UnixRelay.step kind reportSize) { s with task := .returned }
        (acts'.map .thread) = some { s with task := .returned, thread := t } :=
      run_unix_thread hrun'
    refine ⟨acts ++ acts'.map .thread, { s with task := .returned, thread := t }, ?_, ?_, rfl, ?_⟩
    · rw [run_append, hrun]
      exact hthread
    · exact ⟨hexited, fun hfree => hfree.not_returned rfl, by simp⟩
    · exact fun h => absurd h hwriting

/-- Every stopped relay can come to rest. -/
theorem stop_atRest {s : Relay} (hstarted : s.starting = false) :
    ∃ acts s', run (Relay.step reportSize) s.stop acts = some s' ∧ s'.AtRest := by
  cases s with
  | connecting => cases hstarted
  | tcp t =>
    obtain ⟨acts, thread, hrun, hexited, -⟩ :=
      UhidThread.exits (t.stop.taskB ≠ .ended) (t := t.stop.thread) rfl
    exact ⟨_, _, run_tcp (run_tcp_thread hrun), hexited⟩
  | unix kind t =>
    obtain ⟨acts, t', hrun, hrest, -⟩ :=
      exists_atRest kind reportSize (s := t.stop) ⟨rfl, rfl⟩
    exact ⟨_, _, run_unix hrun, hrest⟩

/-- A read task that is at work holds its connection. -/
theorem not_quiesces_of_reader (htold : s.Told) {c : Nat} {filled : List UInt8}
    (hreader : s.reader c = .reading filled) : ¬ (Relay.unix kind s).Quiesces reportSize := by
  intro h
  obtain ⟨acts, s', hrun, hrest, hconns, -⟩ := exists_atRest kind reportSize htold
  have hreader' : s'.reader c = .reading filled := by
    rw [UnixRelay.reader, hconns]
    exact hreader
  have hquiet := h _ _ (run_unix hrun) hrest
  exact (hquiet [] _ run_nil).1 (.inr ⟨c, filled, hreader'⟩)

/-- A task in a write holds its connection. -/
theorem not_quiesces_of_writing (htold : s.Told) (hwriting : s.task.Writing) :
    ¬ (Relay.unix kind s).Quiesces reportSize := by
  intro h
  obtain ⟨acts, s', hrun, hrest, -, htask⟩ := exists_atRest kind reportSize htold
  have hquiet := h _ _ (run_unix hrun) hrest
  refine (hquiet [] _ run_nil).1 (.inl ?_)
  rw [htask hwriting]
  rcases hwriting with ⟨c, first, hs⟩ | ⟨c, report, hs⟩
  all_goals
    rw [hs]
    simp [UnixTask.conn]

/-- A task that carries a report is in a write, or goes on to one. -/
theorem not_quiesces_of_carrying (htold : s.Told) (hcarries : s.task.inHand ≠ []) :
    ¬ (Relay.unix kind s).Quiesces reportSize := by
  intro h
  cases htask : s.task with
  | connecting first =>
    obtain ⟨s', hstep, htold', hwriting⟩ : ∃ s', s.step kind reportSize .connects = some s' ∧
        s'.Told ∧ s'.task.Writing := by
      refine ⟨{ s.emit .hostToDevice first with
        conns := s.conns ++ [⟨true, .unspawned⟩]
        task := .writingFirst s.conns.length first }, ?_, ⟨htold.thread, htold.task⟩, ?_⟩
      · simp only [UnixRelay.step, htask]
      · exact .inl ⟨_, _, rfl⟩
    have hrun : run (UnixRelay.step kind reportSize) s [.connects] = some s' := by
      rw [run_cons, hstep]
      exact run_nil
    exact not_quiesces_of_writing htold' hwriting (h.of_run (run_unix hrun))
  | writingFirst c first => exact not_quiesces_of_writing htold (.inl ⟨c, first, htask⟩) h
  | writing c report => exact not_quiesces_of_writing htold (.inr ⟨c, report, htask⟩) h
  | unconnected | connected | looking | returned =>
    rw [htask] at hcarries
    exact hcarries rfl

/-- A queued report is taken, even by a task whose channel is closed. -/
theorem not_quiesces_of_queued (htold : s.Told) (hfree : s.task.Free)
    (hqueue : s.thread.readQueue ≠ []) : ¬ (Relay.unix kind s).Quiesces reportSize := by
  intro h
  obtain ⟨report, queue, hqueue⟩ := List.exists_cons_of_ne_nil hqueue
  obtain ⟨acts, task, hrun, hselecting⟩ := s.comesToSelect kind reportSize hfree
  obtain ⟨s', hstep, htold', hcarries⟩ : ∃ s',
      UnixRelay.step kind reportSize { s with task := task } .take = some s' ∧ s'.Told ∧
        s'.task.inHand ≠ [] := by
    rcases hselecting with rfl | ⟨c, rfl⟩
    · have hstep : UnixRelay.step kind reportSize { s with task := .unconnected } .take = some {
          s with
          thread := { s.thread with readQueue := queue }
          taken := s.taken ++ [report]
          task := .connecting report } := by simp only [UnixRelay.step, hqueue]
      exact ⟨_, hstep, ⟨htold.thread, htold.task⟩, by simp [UnixTask.inHand]⟩
    · have hstep : UnixRelay.step kind reportSize { s with task := .connected c } .take = some {
          s.emit .hostToDevice report with
          thread := { s.thread with readQueue := queue }
          taken := s.taken ++ [report]
          task := .writing c report } := by
        simp only [UnixRelay.step, hqueue]
        rfl
      exact ⟨_, hstep, ⟨htold.thread, htold.task⟩, by simp [UnixTask.inHand]⟩
  have hrun' : run (UnixRelay.step kind reportSize) s (acts ++ [.take]) = some s' := by
    rw [run_concat, hrun]
    exact hstep
  exact not_quiesces_of_carrying htold' hcarries (h.of_run (run_unix hrun'))

/-- A thread that is past its look at the channel can still poll a report. -/
theorem not_quiesces_of_polling (htold : s.Told) (hfree : s.task.Free)
    (hphase : s.thread.phase = .draining ∨ s.thread.phase = .polling) :
    ¬ (Relay.unix kind s).Quiesces reportSize := by
  intro h
  obtain ⟨acts, t, hrun, hpolling, hshutdown⟩ := UhidThread.polls (s.task ≠ .returned) hphase
  have hreceiving : decide (s.task ≠ .returned) = true := decide_eq_true hfree.not_returned
  have hstep : t.step (s.task ≠ .returned) (.poll (some [])) = some { t with
      phase := .sleeping, readQueue := t.readQueue ++ [[]], outputs := t.outputs ++ [[]] } := by
    rw [hreceiving]
    simp only [UhidThread.step, hpolling, if_true]
  have hrun' : run (UhidThread.step (s.task ≠ .returned)) s.thread (acts ++ [.poll (some [])]) =
      some { t with
        phase := .sleeping, readQueue := t.readQueue ++ [[]], outputs := t.outputs ++ [[]] } := by
    rw [run_concat, hrun]
    exact hstep
  refine not_quiesces_of_queued ?_ ?_ ?_ (h.of_run (run_unix (run_unix_thread hrun')))
  · exact ⟨hshutdown.trans htold.thread, htold.task⟩
  · exact hfree
  · simp

/-- What `stop` stops can come to rest, and it is quiet whenever it does exactly when `stop` found it
idle: always over TCP, over the Unix sockets when no read task was at work and the relay task had
nothing to do. -/
theorem stop_quiesces_iff {s : Relay} (hstarted : s.starting = false) :
    (∃ acts s', run (Relay.step reportSize) s.stop acts = some s' ∧ s'.AtRest) ∧
      (s.stop.Quiesces reportSize ↔ s.Idle) := by
  refine ⟨stop_atRest hstarted, ?_⟩
  cases s with
  | connecting => cases hstarted
  | tcp t => exact ⟨fun _ => trivial, fun _ => tcp_quiesces t⟩
  | unix kind t =>
    have htold : t.stop.Told := ⟨rfl, rfl⟩
    constructor
    · intro h
      refine ⟨fun c filled hreader => not_quiesces_of_reader htold hreader h, ?_⟩
      by_cases hfree : t.task.Free
      · refine .inr ⟨hfree, ?_, ?_, ?_⟩
        · by_contra hqueue
          exact not_quiesces_of_queued htold hfree hqueue h
        · exact fun hphase => not_quiesces_of_polling htold hfree (.inl hphase) h
        · exact fun hphase => not_quiesces_of_polling htold hfree (.inr hphase) h
      · by_contra hnothing
        refine not_quiesces_of_carrying htold ?_ h
        show t.task.inHand ≠ []
        cases htask : t.task with
        | unconnected => exact absurd (.inl (.inl htask)) hfree
        | connected c => exact absurd (.inl (.inr ⟨c, htask⟩)) hfree
        | looking c => exact absurd (.inr ⟨c, htask⟩) hfree
        | returned => exact absurd (.inl htask) hnothing
        | connecting | writingFirst | writing => simp [UnixTask.inHand]
    · exact fun h => unix_quiesces h.1 h.2

def afterFirstReport : UnixRelay where
  thread := ⟨.sleeping, false, [], [], [], [[0x00, 1]]⟩
  task := .connected 0
  shutdown := false
  conns := [⟨true, .reading []⟩]
  taken := [[0x00, 1]]
  sent := [(0, [1])]
  intercepted := [.new .hostToDevice [0x00, 1] none]

theorem stop_quiesces_iff_afterFirstReport :
    (∃ acts s', run (Relay.step 64) (Relay.unix .stream afterFirstReport).stop acts = some s' ∧
      s'.AtRest) ∧
    ((Relay.unix .stream afterFirstReport).stop.Quiesces 64 ↔
      (Relay.unix .stream afterFirstReport).Idle) :=
  stop_quiesces_iff rfl

/-- The read task of a connection is at work when the bridge is stopped. -/
theorem not_stop_quiesces_firstReport :
    ¬ ∀ reportSize transport acts s, run (Relay.step reportSize) (.start transport) acts = some s →
      s.starting = false → s.stop.Quiesces reportSize := by
  intro h
  have hrun : run (Relay.step 64) (.start (.unix "/tmp/simulator.sock")) (firstReport.map .unix) =
      some (.unix .stream afterFirstReport) := rfl
  have htold : afterFirstReport.stop.Told := ⟨rfl, rfl⟩
  have hreader : afterFirstReport.stop.reader 0 = .reading [] := rfl
  exact not_quiesces_of_reader htold hreader (h 64 _ _ _ hrun rfl)

end Hwwctl.Bridge
