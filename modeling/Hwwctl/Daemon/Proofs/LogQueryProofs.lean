import Hwwctl.Daemon.LogDrain
import Hwwctl.Library.StableSort

/-!
# What `collect_logs` answers

The answer is a stable sort of the entries of the selected buffers by their time stamps, or the end
of it.
-/

namespace Hwwctl.Daemon

open Control Emulators StableSort

namespace Instance

variable {inst : Instance} {now : Nat} {source : LogSource}

/-- The lines of the emulator's ring; all are given the time of the query. -/
def emulatorEntries (inst : Instance) (now : Nat) : List LogEntry :=
  inst.emulator.outputLines.map fun line =>
    { tsMs := millisSince now inst.startedAt, source := .emulator, message := line,
      direction := "", rawHex := "" }

def bridgeEntries (inst : Instance) : List LogEntry :=
  inst.bridgeLog.map fun entry =>
    { tsMs := millisSince entry.takenAt inst.startedAt, source := .bridge, message := "",
      direction := entry.direction.display, rawHex := entry.rawHex }

/-- The entries of the selected buffers, the emulator's first. -/
def selected (inst : Instance) (now : Nat) : LogSource → List LogEntry
  | .emulator => inst.emulatorEntries now
  | .bridge => inst.bridgeEntries
  | .all => inst.emulatorEntries now ++ inst.bridgeEntries

/-- The bridge's entries were appended in the order of their times. -/
def TimeOrder (inst : Instance) : Prop :=
  inst.bridgeLog.Pairwise fun a b =>
    millisSince a.takenAt inst.startedAt ≤ millisSince b.takenAt inst.startedAt

/-- Instants in order have time stamps in order, while the stamps have room for the milliseconds. -/
theorem timeOrder_of_instants
    (horder : inst.bridgeLog.Pairwise fun a b => a.takenAt ≤ b.takenAt)
    (hroom : ∀ a ∈ inst.bridgeLog, (a.takenAt - inst.startedAt) / 1000000 < 2 ^ 64) :
    inst.TimeOrder := by
  refine horder.imp_of_mem fun {a b} ha hb hab => ?_
  rw [millisSince, millisSince, Nat.mod_eq_of_lt (hroom a ha), Nat.mod_eq_of_lt (hroom b hb)]
  exact Nat.div_le_div_right (Nat.sub_le_sub_right hab _)

theorem collectLogs_none :
    inst.collectLogs now source none = sortByKey LogEntry.tsMs (inst.selected now source) := by
  cases source with
  | emulator =>
    show sortByKey LogEntry.tsMs (inst.emulatorEntries now ++ []) = _
    rw [List.append_nil]
    rfl
  | bridge => rfl
  | all => rfl

/-- `tail` keeps the end, which may be all. -/
theorem drain_eq_rtake {α : Type} (n : Nat) (out : List α) :
    (if out.length > n then out.drop (out.length - n) else out) = out.rtake n := by
  rw [List.rtake]
  split
  · rfl
  · rw [Nat.sub_eq_zero_of_le (by omega), List.drop_zero]

theorem collectLogs_some (n : Nat) :
    inst.collectLogs now source (some n) = (inst.collectLogs now source none).rtake n :=
  drain_eq_rtake n (inst.collectLogs now source none)

/-- Entries of one source are kept or dropped together. -/
theorem filter_of_source {entries : List LogEntry} {own : LogSource}
    (h : ∀ e ∈ entries, e.source = own) (src : LogSource) :
    entries.filter (·.source = src) = if src = own then entries else [] := by
  split
  · rename_i hsrc
    exact List.filter_eq_self.2 fun e he => decide_eq_true ((h e he).trans hsrc.symm)
  · rename_i hsrc
    refine List.filter_eq_nil_iff.2 fun e he => ?_
    rw [h e he, decide_eq_true_iff]
    exact Ne.symm hsrc

theorem source_emulatorEntries : ∀ e ∈ inst.emulatorEntries now, e.source = .emulator := by
  intro e he
  obtain ⟨line, -, rfl⟩ := List.mem_map.1 he
  rfl

theorem source_bridgeEntries : ∀ e ∈ inst.bridgeEntries, e.source = .bridge := by
  intro e he
  obtain ⟨entry, -, rfl⟩ := List.mem_map.1 he
  rfl

theorem filter_emulatorEntries (src : LogSource) :
    (inst.emulatorEntries now).filter (·.source = src) =
      if src = .emulator then inst.emulatorEntries now else [] :=
  filter_of_source source_emulatorEntries src

theorem filter_bridgeEntries (src : LogSource) : inst.bridgeEntries.filter (·.source = src) =
    if src = .bridge then inst.bridgeEntries else [] :=
  filter_of_source source_bridgeEntries src

theorem selected_emulator (h : source ≠ .bridge) :
    (inst.selected now source).filter (·.source = .emulator) = inst.emulatorEntries now := by
  cases source with
  | emulator => exact filter_emulatorEntries .emulator
  | bridge => exact absurd rfl h
  | all =>
    rw [selected, List.filter_append, filter_emulatorEntries, filter_bridgeEntries]
    exact List.append_nil _

theorem selected_bridge (h : source ≠ .emulator) :
    (inst.selected now source).filter (·.source = .bridge) = inst.bridgeEntries := by
  cases source with
  | emulator => exact absurd rfl h
  | bridge => exact filter_bridgeEntries .bridge
  | all =>
    rw [selected, List.filter_append, filter_emulatorEntries, filter_bridgeEntries]
    rfl

/-- The lines of one query have one time. -/
theorem emulatorEntries_in_order :
    (inst.emulatorEntries now).Pairwise fun a b => a.tsMs ≤ b.tsMs := by
  rw [emulatorEntries, List.pairwise_map]
  exact List.pairwise_of_forall fun _ _ => Nat.le_refl _

theorem bridgeEntries_in_order (horder : inst.TimeOrder) :
    inst.bridgeEntries.Pairwise fun a b => a.tsMs ≤ b.tsMs := by
  rw [bridgeEntries, List.pairwise_map]
  exact horder

/-- An answer without `tail` is the selected buffers' entries in the order of their times, those of
one buffer in the order of the buffer; with `tail` it is the end of that. -/
theorem collectLogs_algebra (inst : Instance) (now : Nat) (source : LogSource)
    (horder : inst.TimeOrder) :
    ((inst.collectLogs now source none).Pairwise fun a b => a.tsMs ≤ b.tsMs) ∧
      (inst.collectLogs now source none).Perm (inst.selected now source) ∧
      (source ≠ .bridge → (inst.collectLogs now source none).filter (·.source = .emulator) =
        inst.emulatorEntries now) ∧
      (source ≠ .emulator → (inst.collectLogs now source none).filter (·.source = .bridge) =
        inst.bridgeEntries) ∧
      ∀ n, inst.collectLogs now source (some n) = (inst.collectLogs now source none).rtake n ∧
        (inst.collectLogs now source (some n)).length =
          min n (inst.collectLogs now source none).length := by
  refine ⟨?_, ?_, fun hsource => ?_, fun hsource => ?_, fun n => ⟨collectLogs_some n, ?_⟩⟩
  · rw [collectLogs_none]
    exact sorted_sortByKey _
  · rw [collectLogs_none]
    exact perm_sortByKey _
  · have hselected : (inst.selected now source).filter (·.source = .emulator) =
        inst.emulatorEntries now := selected_emulator hsource
    rw [collectLogs_none, filter_sortByKey, hselected]
    rw [hselected]
    exact emulatorEntries_in_order
  · have hselected : (inst.selected now source).filter (·.source = .bridge) =
        inst.bridgeEntries := selected_bridge hsource
    rw [collectLogs_none, filter_sortByKey, hselected]
    rw [hselected]
    exact bridgeEntries_in_order horder
  · rw [collectLogs_some, Ring.length_rtake]

/-- An instance as it is inserted into the map. -/
def booted : Instance where
  id := ⟨"bb02-000001"⟩
  wallet := .bitBox02
  state := .running
  vid := 0x03EB
  pid := 0x2403
  serial := "bb02-000001"
  hidraw := none
  transport := "tcp 127.0.0.1:9999"
  error := none
  emulator := .new .bitBox02 "/b/simulator" "/b" "/p" (.tcp "127.0.0.1" 9999)
  bridge := none
  logDrain := some 0
  startedAt := 1000000
  bridgeLog := []
  bridgeStats := ⟨0, 0, 0, 0⟩

/-- Its emulator printed a line and its bridge carried a report and the answer. -/
def answering : Instance :=
  { booted with
    emulator := { booted.emulator with outputLines := ["listening"] }
    bridgeLog := [⟨3000000, .hostToDevice, "3f"⟩, ⟨5000000, .deviceToHost, "3f"⟩]
    bridgeStats := ⟨1, 1, 1, 1⟩ }

theorem collectLogs_algebra_answering :
    ((answering.collectLogs 9000000 .all none).Pairwise fun a b => a.tsMs ≤ b.tsMs) ∧
      answering.collectLogs 9000000 .all (some 2) =
        (answering.collectLogs 9000000 .all none).rtake 2 := by
  have horder : answering.TimeOrder :=
    timeOrder_of_instants (by simp [answering]) (by simp [answering, booted])
  obtain ⟨hsorted, -, -, -, htail⟩ := collectLogs_algebra answering 9000000 .all horder
  exact ⟨hsorted, (htail 2).1⟩

end Instance

end Hwwctl.Daemon
