import Hwwctl.Bridge.Trezor

/-!
# The virtual HID device

`VirtualHidDevice` over the queue of events that the kernel keeps for `/dev/uhid`, and the relays
at work at such a device. The queue is read without waiting, one event at a time. A host that asks
for a report, or sets one, waits until the request is answered.
-/

namespace Hwwctl.Bridge

/-- An event as `uhid_virt` gives it, with what the device looks at. -/
inductive OutputEvent where
  | start
  | stop
  | opened
  | closed
  | output (data : Report)
  | getReport (id : Nat)
  | setReport (id : Nat)
deriving DecidableEq, Repr

/-- An event in the kernel's queue; `uhid_virt` does not know all of their types. -/
inductive KernelEvent where
  | known (event : OutputEvent)
  | unknown (type : Nat)
deriving DecidableEq, Repr

inductive StreamError where
  /-- `Io` with the kind `WouldBlock`. -/
  | wouldBlock
  | io (e : String)
  | unknownEventType (t : Nat)
deriving DecidableEq, Repr

/-- What is written to answer a request, with the error code `err`. -/
inductive Reply where
  | getReport (id err : Nat) (data : List UInt8)
  | setReport (id err : Nat)
deriving DecidableEq, Repr

structure VirtualHidDevice where
  /-- What the kernel has queued, the oldest first. -/
  events : List KernelEvent
  /-- The answers in the order they were written, and whether the kernel took them. -/
  replies : List (Reply × Bool)
deriving DecidableEq, Repr

/-- What one poll meets. -/
structure PollEnv where
  /-- Reading `/dev/uhid` fails. -/
  fault : Option String
  replyTaken : Bool
deriving DecidableEq, Repr

namespace VirtualHidDevice

def created : VirtualHidDevice := ⟨[], []⟩

/-- The kernel queues an event. -/
def queue (dev : VirtualHidDevice) (event : KernelEvent) : VirtualHidDevice :=
  { dev with events := dev.events ++ [event] }

/-- `UHIDDevice::read`. -/
def read (fault : Option String) (dev : VirtualHidDevice) :
    Except StreamError OutputEvent × VirtualHidDevice :=
  match fault, dev.events with
  | some e, _ => (.error (.io e), dev)
  | none, [] => (.error .wouldBlock, dev)
  | none, .known event :: events => (.ok event, { dev with events := events })
  | none, .unknown t :: events => (.error (.unknownEventType t), { dev with events := events })

def writeReply (taken : Bool) (dev : VirtualHidDevice) (reply : Reply) : VirtualHidDevice :=
  { dev with replies := dev.replies ++ [(reply, taken)] }

def pollOutputReport (env : PollEnv) (dev : VirtualHidDevice) :
    Except String (Option Report) × VirtualHidDevice :=
  let (result, dev) := dev.read env.fault
  match result with
  | .ok (.output data) => (.ok (some data), dev)
  | .ok .opened | .ok .closed | .ok .start | .ok .stop => (.ok none, dev)
  -- whether the answer is taken is not looked at
  | .ok (.getReport id) => (.ok none, dev.writeReply env.replyTaken (.getReport id 0 []))
  | .ok (.setReport id) => (.ok none, dev.writeReply env.replyTaken (.setReport id 0))
  | .error .wouldBlock => (.ok none, dev)
  | .error (.io e) => (.error s!"UHID read I/O error: {e}", dev)
  | .error (.unknownEventType _) => (.ok none, dev)

end VirtualHidDevice

/-! ## At work at a device -/

/-- What the device thread makes of a poll. -/
def ThreadAct.ofPoll : Except String (Option Report) → ThreadAct
  | .ok output => .poll output
  | .error _ => .pollFails

def ThreadAct.polls : ThreadAct → Bool
  | .poll _ | .pollFails => true
  | _ => false

/-- The thread's step, where `leaves` says which look at the shutdown channel ends it. -/
def UhidThread.stepWith (leaves : Bool → Bool) (receiving : Bool) (t : UhidThread) :
    ThreadAct → Option UhidThread
  | .check =>
    match t.phase with
    | .checking => some { t with phase := if leaves t.shutdown then .exited else .draining }
    | _ => none
  | a => t.step receiving a

/-- A machine in which a device thread is at work. -/
structure Threaded (σ α : Type) where
  step : σ → α → Option σ
  thread : σ → UhidThread
  setThread : σ → UhidThread → σ
  act : ThreadAct → α
  /-- The thread's step that a step is, if any. -/
  threadAct : α → Option ThreadAct
  /-- Somebody still takes the reports of the thread. -/
  receiving : σ → Bool
  leaves : Bool → Bool
  threadAct_act : ∀ b, threadAct (act b) = some b
  act_of_threadAct : ∀ a b, threadAct a = some b → a = act b
  step_act : ∀ s b,
    step s (act b) = ((thread s).stepWith leaves (receiving s) b).map (setThread s)
  thread_setThread : ∀ s t, thread (setThread s t) = t
  setThread_thread : ∀ s, setThread s (thread s) = s
  setThread_setThread : ∀ s t t', setThread (setThread s t) t' = setThread s t'
  receiving_setThread : ∀ s t, receiving (setThread s t) = receiving s
  /-- Only the thread takes reports from the device. -/
  outputs_apart : ∀ s a s', threadAct a = none → step s a = some s' →
    (thread s').outputs = (thread s).outputs

structure Attached (σ : Type) where
  device : VirtualHidDevice
  relay : σ
deriving DecidableEq, Repr

inductive DeviceAct (α : Type) where
  | kernel (event : KernelEvent)
  | poll (env : PollEnv)
  /-- A step other than a poll. -/
  | relay (a : α)

variable {σ α : Type}

def Attached.step (m : Threaded σ α) (s : Attached σ) : DeviceAct α → Option (Attached σ)
  | .kernel event => some { s with device := s.device.queue event }
  | .poll env =>
    let (result, device) := s.device.pollOutputReport env
    (m.step s.relay (m.act (.ofPoll result))).map fun relay => { device, relay }
  | .relay a =>
    if (m.threadAct a).any ThreadAct.polls then none
    else (m.step s.relay a).map fun relay => { s with relay := relay }

end Hwwctl.Bridge
