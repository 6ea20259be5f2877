import Hwwctl.Bridge.Proofs.TcpProofs
import Hwwctl.Bridge.Proofs.UnixProofs
import Hwwctl.Bridge.Relay

/-!
# The relays of the transports as parts of one

A step of what a start leaves running is a step of the relay of its transport, and runs of the parts
are runs of the whole.
-/

namespace Hwwctl.Bridge

open Transition

variable {reportSize : Nat}

/-! ## Steps -/

namespace Relay

variable {s' : Relay}

theorem tcp_step {t : TcpRelay} {a : RelayAct} (h : (tcp t).step reportSize a = some s') :
    ∃ b t', a = .tcp b ∧ s' = .tcp t' ∧ TcpSteps reportSize t b t' := by
  cases a with
  | tcp b =>
    obtain ⟨t', hstep, rfl⟩ := Option.map_eq_some_iff.1 h
    exact ⟨b, t', rfl, rfl, tcp_step_cases hstep⟩
  | _ => cases h

theorem unix_step {kind : SocketKind} {t : UnixRelay} {a : RelayAct}
    (h : (unix kind t).step reportSize a = some s') :
    ∃ b t', a = .unix b ∧ s' = .unix kind t' ∧ UnixSteps kind reportSize t b t' := by
  cases a with
  | unix b =>
    obtain ⟨t', hstep, rfl⟩ := Option.map_eq_some_iff.1 h
    exact ⟨b, t', rfl, rfl, unix_step_cases hstep⟩
  | _ => cases h

end Relay

/-! ## Runs -/

/-- Runs of the parts are runs of the relay. -/
theorem run_unix {kind : SocketKind} {s s' : UnixRelay} {acts : List UnixAct}
    (h : run (UnixRelay.step kind reportSize) s acts = some s') :
    run (Relay.step reportSize) (.unix kind s) (acts.map .unix) = some (.unix kind s') := by
  have hmap : run (Relay.step reportSize) (.unix kind s) (acts.map .unix) =
      (run (UnixRelay.step kind reportSize) s acts).map (.unix kind) :=
    run_map (fun _ _ => rfl) s acts
  rw [hmap, h]
  rfl

theorem run_tcp {s s' : TcpRelay} {acts : List TcpAct}
    (h : run (TcpRelay.step reportSize) s acts = some s') :
    run (Relay.step reportSize) (.tcp s) (acts.map .tcp) = some (.tcp s') := by
  have hmap : run (Relay.step reportSize) (.tcp s) (acts.map .tcp) =
      (run (TcpRelay.step reportSize) s acts).map .tcp :=
    run_map (fun _ _ => rfl) s acts
  rw [hmap, h]
  rfl

theorem run_tcp_thread {s : TcpRelay} {t : UhidThread} {acts : List ThreadAct}
    (h : run (UhidThread.step (s.taskB ≠ .ended)) s.thread acts = some t) :
    run (TcpRelay.step reportSize) s (acts.map .thread) = some { s with thread := t } := by
  have hmap : run (TcpRelay.step reportSize) s (acts.map .thread) =
      (run (UhidThread.step (s.taskB ≠ .ended)) s.thread acts).map
        fun t => { s with thread := t } :=
    run_map (f := fun t => { s with thread := t }) (fun _ _ => rfl) s.thread acts
  rw [hmap, h]
  rfl

theorem run_unix_thread {kind : SocketKind} {s : UnixRelay} {t : UhidThread} {acts : List ThreadAct}
    (h : run (UhidThread.step (s.task ≠ .returned)) s.thread acts = some t) :
    run (UnixRelay.step kind reportSize) s (acts.map .thread) = some { s with thread := t } := by
  have hmap : run (UnixRelay.step kind reportSize) s (acts.map .thread) =
      (run (UhidThread.step (s.task ≠ .returned)) s.thread acts).map
        fun t => { s with thread := t } :=
    run_map (f := fun t => { s with thread := t }) (fun _ _ => rfl) s.thread acts
  rw [hmap, h]
  rfl

/-- The steps of the TCP relay in the schedule of a start: those of the thread before the connection
stands, and those after. -/
def tcpActs (acts : List RelayAct) : List TcpAct :=
  acts.filterMap fun
    | .connecting a => some (.thread a)
    | .tcp a => some a
    | _ => none

theorem tcpActs_connecting (acts : List RelayAct) (a : ThreadAct) :
    tcpActs (acts ++ [.connecting a]) = tcpActs acts ++ [.thread a] := List.filterMap_append

theorem tcpActs_connects (acts : List RelayAct) : tcpActs (acts ++ [.connects]) = tcpActs acts :=
  List.filterMap_append.trans (List.append_nil _)

theorem tcpActs_tcp (acts : List RelayAct) (a : TcpAct) :
    tcpActs (acts ++ [.tcp a]) = tcpActs acts ++ [a] := List.filterMap_append

/-- Where a TCP start is after a schedule without a failure to connect. -/
def TcpStart (reportSize : Nat) (acts : List RelayAct) : Relay → Prop
  | .connecting t => run (TcpRelay.step reportSize) .connected (tcpActs acts) =
    some { TcpRelay.connected with thread := t }
  | .tcp s => run (TcpRelay.step reportSize) .connected (tcpActs acts) = some s
  | .unix _ _ => False

theorem TcpStart.step {acts : List RelayAct} {r r' : Relay} {a : RelayAct}
    (hr : TcpStart reportSize acts r) (h : r.step reportSize a = some r') (ha : a ≠ .connectFails) :
    TcpStart reportSize (acts ++ [a]) r' := by
  cases r with
  | connecting t =>
    simp only [TcpStart] at hr
    cases a with
    | connecting a =>
      obtain ⟨t', ht, rfl⟩ := Option.map_eq_some_iff.1 h
      have hstep : TcpRelay.step reportSize { TcpRelay.connected with thread := t } (.thread a) =
          some { TcpRelay.connected with thread := t' } := by
        rw [TcpRelay.step]
        exact congrArg (Option.map _) ht
      simp only [TcpStart, tcpActs_connecting, run_concat, hr]
      exact hstep
    | connects =>
      obtain rfl := Option.some.inj h
      simp only [TcpStart, tcpActs_connects, hr]
    | connectFails => exact absurd rfl ha
    | tcp | unix => cases h
  | tcp t =>
    simp only [TcpStart] at hr
    cases a with
    | tcp a =>
      obtain ⟨t', ht, rfl⟩ := Option.map_eq_some_iff.1 h
      simp only [TcpStart, tcpActs_tcp, run_concat, hr]
      exact ht
    | connecting | connects | connectFails | unix => cases h
  | unix => exact hr.elim

/-- A start whose connection stands is where the TCP relay comes to from the beginning. -/
theorem tcp_start_runs {host : String} {port : UInt16} {acts : List RelayAct} {s : TcpRelay}
    (hrun : run (Relay.step reportSize) (.start (.tcp host port)) acts = some (.tcp s))
    (hconnects : .connectFails ∉ acts) :
    run (TcpRelay.step reportSize) .connected (tcpActs acts) = some s := by
  have hguard : Guarded (Relay.step reportSize) (fun _ a => a ≠ .connectFails)
      (.start (.tcp host port)) acts :=
    .of_forall fun a ha _ h => hconnects (h ▸ ha)
  exact hguard.history (R := TcpStart reportSize) rfl (fun _ _ _ _ hr ha h => hr.step h ha) hrun

end Hwwctl.Bridge
