import Hwwctl.Bridge.Generic

/-!
# What a failed start leaves behind

The flag is raised and the device thread is spawned before the connection is tried, and a failure to
connect takes neither back.
-/

namespace Hwwctl.Bridge

open Runtime Emulators

namespace GenericBridge

/-- The calls that have the bridge for themselves. -/
inductive Call where
  | start (env : StartEnv)
  | stop

def call (s : GenericBridge × World) : Call → GenericBridge × World
  | .start env => (s.1.start env s.2).2
  | .stop => s.1.stop s.2

/-- The device can be created, and the emulator reached. -/
structure StartEnv.Available (env : StartEnv) (transport : BridgeTransport) : Prop where
  device : env.createDevice = .ok ()
  emulator : ∀ host port, transport = .tcp host port → env.connect = .ok ()

/-- A call that leaves the flag down: `stop`, or a start that has no device. -/
def Call.Idle : Call → Prop
  | .start env => ∃ e, env.createDevice = .error e
  | .stop => True

/-- The start leaves a device thread that goes on. -/
def LeavesThread (w w' : World) : Prop :=
  ∃ job ∈ newJobs w w', (∃ shutdown, job.kind = .uhidThread shutdown) ∧ Survives w' job

/-- What a start that returns an error is to leave: the flag down, no device thread, and a bridge
that can be started later. -/
structure FailsCleanly (bridge : GenericBridge) (env : StartEnv) (w : World) : Prop where
  flag : (bridge.start env w).2.1.isRunning = false
  noThread : ¬ LeavesThread w (bridge.start env w).2.2
  startsLater : ∀ calls : List Call, (∀ c ∈ calls, c.Idle) → ∀ env' : StartEnv,
    env'.Available bridge.config.transport →
      let s := calls.foldl call (bridge.start env w).2
      (s.1.start env' s.2).1 = .ok ()

variable {bridge : GenericBridge} {env : StartEnv} {w : World}

theorem start_no_device {e : String} (hrunning : bridge.isRunning = false)
    (hdevice : env.createDevice = .error e) : (bridge.start env w).2 = (bridge, w) := by
  rw [start, if_neg (by rw [isRunning] at hrunning; simp [hrunning]), hdevice]

theorem start_available (hrunning : bridge.isRunning = false)
    (h : env.Available bridge.config.transport) : (bridge.start env w).1 = .ok () := by
  rw [start, if_neg (by rw [isRunning] at hrunning; simp [hrunning]), h.device]
  cases htransport : bridge.config.transport with
  | tcp host port => simp only [htransport, h.emulator host port htransport]
  | unix path => simp only [htransport]
  | unixDgram path => simp only [htransport]

/-- Idle calls on a bridge whose flag is down leave it so. -/
theorem call_idle {c : Call} (hc : c.Idle) (hrunning : bridge.isRunning = false) :
    (call (bridge, w) c).1.isRunning = false ∧ (call (bridge, w) c).1.config = bridge.config := by
  cases c with
  | start env =>
    obtain ⟨e, hdevice⟩ := hc
    rw [call, start_no_device hrunning hdevice]
    exact ⟨hrunning, rfl⟩
  | stop => exact ⟨rfl, rfl⟩

theorem calls_idle {calls : List Call} (hcalls : ∀ c ∈ calls, c.Idle)
    (hrunning : bridge.isRunning = false) :
    (calls.foldl call (bridge, w)).1.isRunning = false ∧
      (calls.foldl call (bridge, w)).1.config = bridge.config := by
  induction calls generalizing bridge w with
  | nil => exact ⟨hrunning, rfl⟩
  | cons c calls ih =>
    obtain ⟨hflag, hconfig⟩ := call_idle (w := w) (hcalls c List.mem_cons_self) hrunning
    obtain ⟨hflag', hconfig'⟩ := ih (w := (call (bridge, w) c).2)
      (fun c' hc' => hcalls c' (List.mem_cons_of_mem _ hc')) hflag
    exact ⟨hflag', hconfig'.trans hconfig⟩

/-- A start that finds no device changes nothing. -/
theorem fails_cleanly_of_no_device {e : String} (hrunning : bridge.isRunning = false)
    (hdevice : env.createDevice = .error e) : FailsCleanly bridge env w := by
  have hsame := start_no_device (w := w) hrunning hdevice
  refine ⟨by rw [hsame]; exact hrunning, ?_, fun calls hcalls env' havailable => ?_⟩
  · rintro ⟨job, hjob, -⟩
    rw [hsame, newJobs_self] at hjob
    cases hjob
  · rw [hsame]
    obtain ⟨hflag, hconfig⟩ := calls_idle (w := w) hcalls hrunning
    exact start_available hflag (hconfig ▸ havailable)

/-- A start that fails with a device leaves the flag up and the device's thread running. -/
theorem start_fails_with_device {e : String} (hrunning : bridge.isRunning = false)
    (hdevice : env.createDevice = .ok ()) (hfails : (bridge.start env w).1 = .error e) :
    (bridge.start env w).2.1.isRunning = true ∧ LeavesThread w (bridge.start env w).2.2 := by
  have hflag : ¬ bridge.running = true := by
    rw [isRunning] at hrunning
    simp [hrunning]
  rw [start, if_neg hflag, hdevice] at hfails ⊢
  cases htransport : bridge.config.transport with
  | unix path => simp [htransport] at hfails
  | unixDgram path => simp [htransport] at hfails
  | tcp host port =>
    cases hconnect : env.connect with
    | ok => simp [htransport, hconnect] at hfails
    | error e' =>
      simp only [htransport]
      refine ⟨rfl, ⟨.uhidThread (w.oneshots.length + 1), true⟩, ?_, ⟨_, rfl⟩, rfl,
        ⟨false, .nothing⟩, ?_⟩
      · simp [newJobs, World.oneshot, World.spawnJob]
      · simp [World.oneshot, World.spawnJob, World.tryRecv, uhidThreadBody]

/-- A start that fails on a bridge that is not running fails cleanly exactly when it is the device
that cannot be created. -/
theorem start_fails_cleanly_iff {e : String} (hrunning : bridge.isRunning = false)
    (hfails : (bridge.start env w).1 = .error e) :
    FailsCleanly bridge env w ↔ ∃ e', env.createDevice = .error e' := by
  constructor
  · intro hclean
    cases hdevice : env.createDevice with
    | error e' => exact ⟨e', rfl⟩
    | ok =>
      have hleft := (start_fails_with_device hrunning hdevice hfails).1
      rw [hclean.flag] at hleft
      cases hleft
  · rintro ⟨e', hdevice⟩
    exact fails_cleanly_of_no_device hrunning hdevice

/-- A bridge as the daemon makes them. -/
def tcpBridge : GenericBridge := .new (.new 0x03EB 0x2403 "BitBox02" [] (.tcp "127.0.0.1" 9999))

def noDevice : StartEnv := ⟨.error "Permission denied", .ok ()⟩

theorem start_fails_cleanly_iff_noDevice :
    FailsCleanly tcpBridge noDevice .empty ↔ ∃ e', noDevice.createDevice = .error e' :=
  start_fails_cleanly_iff rfl rfl

/-- The device is created, but nothing listens on the emulator's port. -/
def noEmulator : StartEnv := ⟨.ok (), .error "Connection refused"⟩

theorem not_start_fails_cleanly_noEmulator :
    ¬ ∀ (bridge : GenericBridge) (env : StartEnv) (w : World) (e : String),
      bridge.isRunning = false → (bridge.start env w).1 = .error e → FailsCleanly bridge env w := by
  intro h
  have hclean := h tcpBridge noEmulator .empty _ rfl rfl
  have hleft : (tcpBridge.start noEmulator .empty).2.1.isRunning = true := rfl
  rw [hclean.flag] at hleft
  cases hleft

end GenericBridge

end Hwwctl.Bridge
