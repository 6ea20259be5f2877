import Hwwctl.Emulators.Proofs.OutputProofs

/-!
# What `drain_output` returns

The two reader tasks push while somebody drains. Between two drains the ring keeps the newest lines
only, so a line is returned once and in its turn unless 500 others come behind it before the next
drain.
-/

namespace Hwwctl.Emulators

open Transition Ring

variable {kind : EmulatorKind} {nextLine : List UInt8 → Option String}

/-- What a step does to the ring. -/
def DrainAct.ops (s s' : DrainedOutput) : DrainAct → List (Op String)
  | .output _ => (s'.output.pushed.drop s.output.pushed.length).map fun line => .push line.2
  | .drain => [.drain]

/-- What a run does to the ring. -/
def DrainedOutput.opsOf (kind : EmulatorKind) (nextLine : List UInt8 → Option String) :
    DrainedOutput → List DrainAct → List (Op String)
  | _, [] => []
  | s, a :: acts =>
    match s.step kind nextLine a with
    | none => []
    | some s' => a.ops s s' ++ opsOf kind nextLine s' acts

namespace DrainedOutput

def drained (s : DrainedOutput) : Drained String := ⟨s.output.ring, s.returned⟩

def lines (s : DrainedOutput) : List String := s.output.pushed.map Prod.snd

variable {s s' : DrainedOutput} {a : DrainAct} {acts : List DrainAct}

theorem step_ops (h : s.step kind nextLine a = some s') :
    (a.ops s s').foldl (Drained.apply outputRingSize) s.drained = s'.drained ∧
      s'.lines = s.lines ++ (a.ops s s').filterMap Op.pushed := by
  cases a with
  | drain =>
    cases h
    exact ⟨rfl, (List.append_nil _).symm⟩
  | output a =>
    obtain ⟨output, houtput, rfl⟩ := Option.map_eq_some_iff.1 h
    rcases output_step_cases houtput with rfl | ⟨st, r, pushed, -, rfl⟩
    · have hnone : s.output.pushed.drop s.output.pushed.length = [] := List.drop_length
      simp only [DrainAct.ops, hnone, List.map_nil]
      exact ⟨rfl, (List.append_nil _).symm⟩
    · cases pushed with
      | none =>
        have hsame : (s.output.moved kind st r none).pushed = s.output.pushed := rfl
        have hnone : s.output.pushed.drop s.output.pushed.length = [] := List.drop_length
        simp only [DrainAct.ops, hsame, hnone, List.map_nil]
        exact ⟨rfl, (List.append_nil _).symm⟩
      | some text =>
        have hpushed : (s.output.moved kind st r (some text)).pushed =
            s.output.pushed ++ [(st, text)] := rfl
        have hnew : (s.output.pushed ++ [(st, text)]).drop s.output.pushed.length =
            [(st, text)] := List.drop_left
        simp only [DrainAct.ops, hpushed, hnew, List.map_cons, List.map_nil]
        refine ⟨?_, ?_⟩
        · show (⟨Ring.push outputRingSize s.output.ring text, s.returned⟩ : Drained String) =
            ⟨kind.pushLine s.output.ring text, s.returned⟩
          rw [kind.pushLine_eq]
        · show (s.output.pushed ++ [(st, text)]).map Prod.snd = _
          rw [List.map_append]
          rfl

theorem run_ops (h : run (step kind nextLine) s acts = some s') :
    (s.opsOf kind nextLine acts).foldl (Drained.apply outputRingSize) s.drained = s'.drained ∧
      s'.lines = s.lines ++ (s.opsOf kind nextLine acts).filterMap Op.pushed := by
  induction acts generalizing s with
  | nil =>
    obtain rfl : s = s' := Option.some.inj (run_nil.symm.trans h)
    exact ⟨rfl, (List.append_nil _).symm⟩
  | cons a acts ih =>
    rw [run_cons] at h
    obtain ⟨s₁, hstep, hrest⟩ := Option.bind_eq_some_iff.1 h
    obtain ⟨hring, hlines⟩ := step_ops hstep
    obtain ⟨hrings, hall⟩ := ih hrest
    rw [opsOf, hstep]
    dsimp only
    rw [List.foldl_append, hring, List.filterMap_append, hall, hlines, List.append_assoc]
    exact ⟨hrings, rfl⟩

end DrainedOutput

/-- In every run each drain returns the last 500 of the lines pushed since the drain before it, and
the ring holds the last 500 of those since; no line is missing exactly when never more than 500
lines came between two drains. -/
theorem drained_windows {s : DrainedOutput} {acts : List DrainAct}
    (hrun : run (DrainedOutput.step kind nextLine) .start acts = some s) :
    let w := windows (DrainedOutput.start.opsOf kind nextLine acts)
    w.all.flatten = s.lines ∧
      s.returned = w.before.map (·.rtake 500) ∧ s.output.ring = w.since.rtake 500 ∧
      (s.returned ++ [s.output.ring]).flatten.Sublist s.lines ∧
      ((s.returned ++ [s.output.ring]).flatten = s.lines ↔ ∀ lines ∈ w.all, lines.length ≤ 500) := by
  intro w
  obtain ⟨hring, hlines⟩ := DrainedOutput.run_ops hrun
  have hall : w.all.flatten = s.lines := by
    rw [hlines]
    exact flatten_windows _
  have hdrained : s.drained = ⟨w.since.rtake 500, w.before.map (·.rtake 500)⟩ :=
    hring.symm.trans (foldl_apply (by decide) _)
  obtain ⟨hsince, hbefore⟩ := Drained.mk.inj hdrained
  have hcut : s.returned ++ [s.output.ring] = w.all.map (·.rtake 500) := by
    rw [hsince, hbefore, Windows.all, List.map_append]
    rfl
  refine ⟨hall, hbefore, hsince, ?_, ?_⟩
  · rw [hcut, ← hall]
    exact flatten_map_rtake_sublist 500 w.all
  · rw [hcut, ← hall]
    exact flatten_map_rtake_eq_iff 500 w.all

/-- A line, a drain, and another line on the other stream. -/
def drainBetween : List DrainAct :=
  [.output (.writes .stdout [0x61, 0x0A]), .output (.reads .stdout 2), .output (.line .stdout), .drain,
    .output (.writes .stderr [0x62, 0x0A]), .output (.reads .stderr 2), .output (.line .stderr)]

def aOrB (bytes : List UInt8) : Option String := if bytes = [0x61, 0x0A] then some "a" else some "b"

theorem drained_windows_drainBetween : ∃ s,
    run (DrainedOutput.step .generic aOrB) .start drainBetween = some s ∧
      s.returned = [["a"]] ∧ s.output.ring = ["b"] ∧
      (s.returned ++ [s.output.ring]).flatten = s.lines := by
  obtain ⟨s, hrun, hreturned, hring⟩ : ∃ s,
      run (DrainedOutput.step .generic aOrB) .start drainBetween = some s ∧
        s.returned = [["a"]] ∧ s.output.ring = ["b"] := ⟨_, rfl, rfl, rfl⟩
  have hshort : ∀ lines ∈ (windows (DrainedOutput.start.opsOf .generic aOrB drainBetween)).all,
      lines.length ≤ 500 := by
    intro lines hlines
    have hall : (windows (DrainedOutput.start.opsOf .generic aOrB drainBetween)).all =
        [["a"], ["b"]] := rfl
    rw [hall] at hlines
    simp only [List.mem_cons, List.not_mem_nil, or_false] at hlines
    rcases hlines with rfl | rfl
    · decide
    · decide
  exact ⟨s, hrun, hreturned, hring, (drained_windows hrun).2.2.2.2.2 hshort⟩

end Hwwctl.Emulators
