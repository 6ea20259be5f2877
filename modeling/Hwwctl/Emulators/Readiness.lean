import Hwwctl.Emulators.Attempt
import Hwwctl.Library.Polling

/-!
# Waiting until an emulator is ready

`wait_for_ready` probes the transport until it answers or the startup timeout is over. What a probe
comes to is up to the system; `startPolling` is `start` with the probes in the place of their
outcome.
-/

namespace Hwwctl.Emulators

open Polling

/-- How the receive on a probe's UDP socket ends. -/
inductive UdpRecv where
  | received
  /-- `WouldBlock` or `TimedOut`. -/
  | timedOut
  | failed
deriving DecidableEq, Repr

/-- What one probe meets. -/
structure ProbeEnv where
  /-- `host:port` is the text of a socket address. -/
  addressParses : Bool
  tcpConnects : Bool
  socketExists : Bool
  streamConnects : Bool
  dgramUnbound : Bool
  dgramConnects : Bool
  udpBinds : Bool
  udpSends : Bool
  udpRecv : UdpRecv
deriving DecidableEq, Repr

/-- The probe of a UDP port; silence is an answer. -/
def probeUdp (env : ProbeEnv) : Bool :=
  if !env.udpBinds then false
  else if !env.udpSends then false
  else match env.udpRecv with
    | .received | .timedOut => true
    | .failed => false

/-- `wait_for_ready`, with the clock in milliseconds. `none` while it is still probing. -/
def waitForReady (probe : ProbeEnv → Bool) (timeout began : Nat) (rounds : List (Round ProbeEnv)) :
    Option Bool :=
  (askFirst (fun env => if probe env then some () else none) (began + timeout) rounds).map
    Option.isSome

namespace GenericEmulator

/-- `STARTUP_POLL_INTERVAL`. -/
def startupPollInterval : Nat := 300

def probeOnce (emu : GenericEmulator) (env : ProbeEnv) : Bool :=
  match emu.transport with
  -- an address that does not parse ends the blocking task with a panic, which counts as `false`
  | .tcp _ _ => env.addressParses && env.tcpConnects
  | .unixSocket _ =>
    if !env.socketExists then false
    else if env.streamConnects then true
    else if !env.dgramUnbound then false
    else env.dgramConnects
  | .udp _ _ => probeUdp env

def startPolling (emu : GenericEmulator) (env : StartEnv) (began : Nat)
    (rounds : List (Round ProbeEnv)) (w : World) :
    Option (Except String Unit × GenericEmulator × World) :=
  match emu.attempt env w with
  | .returned result emu => some (result, emu, w)
  | .spawned c emu w =>
    let (emu, w) := emu.setChild c w
    match emu.skipProbeDelayMs with
    | some _ => some (.ok (), { emu with status := .running }, w)
    | none =>
      (waitForReady emu.probeOnce (1000 * emu.startupTimeoutSecs) began rounds).map fun ready =>
        if ready then (.ok (), { emu with status := .running }, w)
        else
          let msg := s!"{emu.transport.display} not reachable after {emu.startupTimeoutSecs}s"
          (.ok (), { emu with status := .error msg }, w)

end GenericEmulator

namespace TrezorEmulator

/-- `STARTUP_TIMEOUT` and `STARTUP_POLL_INTERVAL`. -/
def startupTimeout : Nat := 10000

def startupPollInterval : Nat := 200

def startPolling (emu : TrezorEmulator) (env : StartEnv) (began : Nat)
    (rounds : List (Round ProbeEnv)) (w : World) :
    Option (Except String Unit × TrezorEmulator × World) :=
  match emu.attempt env w with
  | .returned result emu => some (result, emu, w)
  | .spawned c emu w =>
    let (emu, w) := emu.setChild c w
    (waitForReady probeUdp startupTimeout began rounds).map fun ready =>
      if ready then (.ok (), { emu with status := .running }, w)
      else (.ok (), { emu with status := .error s!"UDP :{emu.port} not reachable after startup" }, w)

end TrezorEmulator

end Hwwctl.Emulators
