import Hwwctl.Daemon.Proofs.LogDrainProofs
import Hwwctl.Daemon.Proofs.LogQueryProofs

/-!
# The order of events and the order of the log

A report is stamped when it is drained, once and for all; a line is stamped by each query with the
query's own time.
-/

namespace Hwwctl.Daemon

open Control Emulators StableSort

/-- Something an instance said, in the order in which the buffers got it. -/
inductive LogEvent where
  | line (pushedAt : Nat) (text : String)
  | report (interceptedAt : Nat) (crossing : Crossing)

namespace LogEvent

def isLine : LogEvent → Bool
  | .line _ _ => true
  | .report _ _ => false

def isReport : LogEvent → Bool
  | .line _ _ => false
  | .report _ _ => true

def occurredAt : LogEvent → Nat
  | .line pushedAt _ => pushedAt
  | .report interceptedAt _ => interceptedAt

/-- When the buffer got it. -/
def enteredAt : LogEvent → Nat
  | .line pushedAt _ => pushedAt
  | .report _ crossing => crossing.drainedAt

/-- The millisecond of the instance in which it occurred. -/
def millis (startedAt : Nat) (e : LogEvent) : Nat := (e.occurredAt - startedAt) / 1000000

/-- Its entry in the answer to a query at `now`. -/
def entry (startedAt now : Nat) : LogEvent → LogEntry
  | .line _ text =>
    { tsMs := Instance.millisSince now startedAt, source := .emulator, message := text,
      direction := "", rawHex := "" }
  | .report _ crossing =>
    { tsMs := Instance.millisSince crossing.drainedAt startedAt, source := .bridge, message := "",
      direction := crossing.entry.direction.display, rawHex := crossing.message.rawHex }

/-- The events that are in the buffers after these. -/
def buffered (h : List LogEvent) : List LogEvent :=
  (h.filter isLine).rtake outputRingSize ++ (h.filter isReport).rtake logBufferCap

/-- The queue hands the reports on in the order in which they were intercepted. -/
def InOrder (h : List LogEvent) : Prop :=
  (h.filter isReport).Pairwise fun a b => a.occurredAt ≤ b.occurredAt

/-- A query at `now`, when the buffers have got the events of `p`. -/
structure Query (h p : List LogEvent) (now : Nat) : Prop where
  sofar : p <+: h
  later : ∀ e ∈ p, e.enteredAt ≤ now

/-- The buffered events of one millisecond have no later stamp than those of a later one. -/
def Stamped (startedAt : Nat) (h : List LogEvent) : Prop :=
  ∀ a ∈ buffered h, ∀ b ∈ buffered h, a.millis startedAt < b.millis startedAt →
    Instance.millisSince a.enteredAt startedAt ≤ Instance.millisSince b.enteredAt startedAt

end LogEvent

namespace Instance

open LogEvent

def occur (inst : Instance) : LogEvent → Instance
  | .line _ text => { inst with
      emulator := { inst.emulator with
        outputLines := GenericEmulator.pushLine inst.emulator.outputLines text } }
  | .report _ crossing =>
    let drain := LogDrain.take ⟨inst.bridgeLog, inst.bridgeStats⟩ crossing.drainedAt
      crossing.message
    { inst with bridgeLog := drain.bridgeLog, bridgeStats := drain.bridgeStats }

def after (inst : Instance) (h : List LogEvent) : Instance := h.foldl occur inst

/-- Nothing is buffered yet. -/
structure Silent (inst : Instance) : Prop where
  outputLines : inst.emulator.outputLines = []
  bridgeLog : inst.bridgeLog = []

/-- The answers to the queries for all logs give the events in the order of their milliseconds, each
with the same stamp in every answer. -/
structure Chronological (inst : Instance) (h : List LogEvent) : Prop where
  listed : ∀ p now, Query h p now → ((inst.after p).collectLogs now .all none).Perm
    ((buffered p).map (LogEvent.entry inst.startedAt now))
  ordered : ∀ p now, Query h p now → ∀ a ∈ buffered p, ∀ b ∈ buffered p,
    a.millis inst.startedAt < b.millis inst.startedAt →
      [a.entry inst.startedAt now, b.entry inst.startedAt now].Sublist
        ((inst.after p).collectLogs now .all none)
  stamps : ∀ p p' now now', Query h p now → Query h p' now' → ∀ e ∈ buffered p, e ∈ buffered p' →
    (e.entry inst.startedAt now).tsMs = (e.entry inst.startedAt now').tsMs
  recent : ∀ p now, Query h p now → ∀ n, (inst.after p).collectLogs now .all (some n) =
    ((inst.after p).collectLogs now .all none).rtake n

variable {inst : Instance} {h p : List LogEvent} {now : Nat}

theorem after_concat (e : LogEvent) : inst.after (h ++ [e]) = (inst.after h).occur e := by
  rw [after, List.foldl_append]
  rfl

theorem startedAt_after : (inst.after h).startedAt = inst.startedAt := by
  induction h using List.reverseRecOn with
  | nil => rfl
  | append_singleton h e ih =>
    rw [after_concat, ← ih]
    cases e <;> rfl

/-- A buffer that takes the entries of one kind of events holds the last of them. -/
theorem entries_after (buffer : Instance → List LogEntry) {mine : LogEvent → Bool} {cap : Nat}
    (hcap : 0 < cap) (hempty : buffer inst = [])
    (hpush : ∀ (inst : Instance) e, mine e = true →
      buffer (inst.occur e) = Ring.push cap (buffer inst) (e.entry inst.startedAt now))
    (hkeep : ∀ (inst : Instance) e, mine e = false → buffer (inst.occur e) = buffer inst)
    (h : List LogEvent) : buffer (inst.after h) =
      ((h.filter mine).map (LogEvent.entry inst.startedAt now)).rtake cap := by
  induction h using List.reverseRecOn with
  | nil =>
    rw [after, List.foldl_nil, hempty]
    exact (List.rtake_nil cap).symm
  | append_singleton h e ih =>
    rw [after_concat, List.filter_append]
    cases hmine : mine e with
    | true =>
      rw [hpush _ e hmine, ih, Ring.push_rtake hcap, startedAt_after,
        List.filter_cons_of_pos hmine, List.filter_nil, List.map_append, List.map_singleton]
    | false =>
      rw [hkeep _ e hmine, ih, List.filter_cons_of_neg (by simp [hmine]), List.filter_nil,
        List.append_nil]

theorem emulatorEntries_after (hsilent : inst.Silent) : (inst.after h).emulatorEntries now =
    ((h.filter isLine).map (LogEvent.entry inst.startedAt now)).rtake outputRingSize := by
  refine entries_after (fun inst => inst.emulatorEntries now) (by decide) ?_ ?_ ?_ h
  · rw [emulatorEntries, hsilent.outputLines, List.map_nil]
  · intro inst e hline
    cases e with
    | line t text => exact Ring.map_push _ _ _ _
    | report => cases hline
  · intro inst e hline
    cases e with
    | line => cases hline
    | report => rfl

theorem bridgeEntries_after (hsilent : inst.Silent) (now : Nat) : (inst.after h).bridgeEntries =
    ((h.filter isReport).map (LogEvent.entry inst.startedAt now)).rtake logBufferCap := by
  refine entries_after bridgeEntries (by decide) ?_ ?_ ?_ h
  · rw [bridgeEntries, hsilent.bridgeLog, List.map_nil]
  · intro inst e hreport
    cases e with
    | line => cases hreport
    | report t crossing => exact Ring.map_push _ _ _ _
  · intro inst e hreport
    cases e with
    | line => rfl
    | report => cases hreport

/-- What a query for all logs selects. -/
theorem selected_after (hsilent : inst.Silent) : (inst.after h).selected now .all =
    (buffered h).map (LogEvent.entry inst.startedAt now) := by
  rw [selected, emulatorEntries_after hsilent, bridgeEntries_after hsilent now, buffered,
    List.map_append, Ring.map_rtake, Ring.map_rtake]

theorem mem_of_buffered {e : LogEvent} (he : e ∈ buffered p) : e ∈ p := by
  rcases List.mem_append.1 he with he | he
  · exact List.mem_of_mem_filter (List.mem_of_mem_drop he)
  · exact List.mem_of_mem_filter (List.mem_of_mem_drop he)

theorem tsMs_entry {e : LogEvent} (he : e.isLine = false) (startedAt now : Nat) :
    (e.entry startedAt now).tsMs = millisSince e.enteredAt startedAt := by
  cases e with
  | line => cases he
  | report => rfl

theorem exists_later (p : List LogEvent) : ∃ n, ∀ e ∈ p, e.enteredAt ≤ n := by
  induction p with
  | nil => exact ⟨0, by simp⟩
  | cons e p ih =>
    obtain ⟨n, hn⟩ := ih
    refine ⟨e.enteredAt + n, fun e' he' => ?_⟩
    rcases List.mem_cons.1 he' with rfl | he'
    · exact Nat.le_add_right _ _
    · exact (hn e' he').trans (Nat.le_add_left _ _)

/-- Reports alone are buffered in the order in which they occurred. -/
theorem buffered_in_order (horder : InOrder h) (hreports : ∀ e ∈ h, e.isLine = false)
    (hp : p <+: h) : (buffered p).Pairwise fun a b => a.occurredAt ≤ b.occurredAt := by
  have hlines : p.filter isLine = [] := by
    refine List.filter_eq_nil_iff.2 fun e he => ?_
    rw [hreports e (hp.subset he)]
    exact Bool.false_ne_true
  rw [buffered, hlines, List.rtake_nil, List.nil_append]
  exact (horder.sublist (hp.sublist.filter _)).sublist (List.drop_sublist _ _)

theorem chronological_of_reports (hsilent : inst.Silent) (horder : InOrder h)
    (hreports : ∀ e ∈ h, e.isLine = false) (hstamped : ∀ p, p <+: h → Stamped inst.startedAt p) :
    inst.Chronological h where
  listed p now _ := by
    rw [collectLogs_none, selected_after hsilent]
    exact perm_sortByKey _
  ordered p now hq a ha b hb hab := by
    have hlt : a.occurredAt < b.occurredAt := by
      rw [millis, millis] at hab
      omega
    have hpair : [a, b].Sublist (buffered p) :=
      pair_sublist_of_pairwise (buffered_in_order horder hreports hq.sofar) ha hb
        (fun hab => by rw [hab] at hlt; exact lt_irrefl _ hlt) (Nat.not_le.2 hlt)
    rw [collectLogs_none, selected_after hsilent]
    refine pair_sublist_sortByKey ?_ (hpair.map _)
    rw [tsMs_entry (hreports a (hq.sofar.subset (mem_of_buffered ha))),
      tsMs_entry (hreports b (hq.sofar.subset (mem_of_buffered hb)))]
    exact hstamped p hq.sofar a ha b hb hab
  stamps p p' now now' hq _ e he _ := by
    have hreport := hreports e (hq.sofar.subset (mem_of_buffered he))
    rw [tsMs_entry hreport, tsMs_entry hreport]
  recent p now _ n := collectLogs_some n

/-- The stamps of a buffered line tell the time of the query. -/
theorem no_line_of_chronological (hchron : inst.Chronological h) :
    ∀ e ∈ h, e.isLine = false := by
  intro e he
  by_contra hline
  rw [Bool.not_eq_false] at hline
  obtain ⟨p, rest, rfl⟩ := List.append_of_mem he
  have hp : p ++ [e] <+: p ++ e :: rest := ⟨rest, by simp⟩
  obtain ⟨n, hn⟩ := exists_later (p ++ [e])
  have hbuffered : e ∈ buffered (p ++ [e]) := by
    refine List.mem_append_left _ ?_
    rw [List.filter_append, List.filter_cons_of_pos hline, List.filter_nil]
    show e ∈ List.rtake _ (499 + 1)
    rw [List.rtake_concat_succ]
    exact List.mem_append_right _ (List.mem_singleton_self e)
  have hsame := hchron.stamps (p ++ [e]) (p ++ [e]) (inst.startedAt + n)
    (inst.startedAt + n + 1000000) ⟨hp, fun e he => (hn e he).trans (by omega)⟩
    ⟨hp, fun e he => (hn e he).trans (by omega)⟩ e hbuffered hbuffered
  cases e with
  | line t text =>
    simp only [LogEvent.entry, millisSince] at hsame
    omega
  | report => cases hline

theorem stamped_of_chronological (hchron : inst.Chronological h)
    (hreports : ∀ e ∈ h, e.isLine = false) (hp : p <+: h) : Stamped inst.startedAt p := by
  intro a ha b hb hab
  obtain ⟨n, hn⟩ := exists_later p
  have hpair := hchron.ordered p n ⟨hp, hn⟩ a ha b hb hab
  rw [collectLogs_none] at hpair
  have hstamps := (sorted_sortByKey _).sublist hpair
  rw [← tsMs_entry (hreports a (hp.subset (mem_of_buffered ha))) inst.startedAt n,
    ← tsMs_entry (hreports b (hp.subset (mem_of_buffered hb))) inst.startedAt n]
  exact List.rel_of_pairwise_cons hstamps (List.mem_singleton_self _)

/-- The log of a history is chronological exactly when no line was pushed and the stamps of the
reports do not run backwards. -/
theorem chronological_iff (hsilent : inst.Silent) (horder : InOrder h) :
    inst.Chronological h ↔
      (∀ e ∈ h, e.isLine = false) ∧ ∀ p, p <+: h → Stamped inst.startedAt p := by
  constructor
  · intro hchron
    have hreports := no_line_of_chronological hchron
    exact ⟨hreports, fun p hp => stamped_of_chronological hchron hreports hp⟩
  · rintro ⟨hreports, hstamped⟩
    exact chronological_of_reports hsilent horder hreports hstamped

/-- A report after ten milliseconds and its answer after twenty, drained with some delay. -/
def twoReports : List LogEvent :=
  [.report 11000000 ⟨.hostToDevice, [0x00, 7], none, 11500000⟩,
    .report 21000000 ⟨.deviceToHost, [7], none, 22500000⟩]

theorem chronological_iff_twoReports :
    booted.Chronological twoReports ↔
      (∀ e ∈ twoReports, e.isLine = false) ∧ ∀ p, p <+: twoReports → Stamped 1000000 p :=
  chronological_iff ⟨rfl, rfl⟩ (List.pairwise_pair.2 (by decide))

/-- A line after ten milliseconds and a report after twenty. -/
def lineThenReport : List LogEvent :=
  [.line 11000000 "listening", .report 21000000 ⟨.hostToDevice, [0x00, 7], none, 21000000⟩]

/-- A query after a hundred milliseconds puts the report before the line. -/
theorem not_chronological_lineThenReport :
    ¬ ∀ (inst : Instance) (h : List LogEvent), inst.Silent → InOrder h → inst.Chronological h := by
  intro h
  have hchron := h booted lineThenReport ⟨rfl, rfl⟩ (List.pairwise_singleton _ _)
  have hquery : Query lineThenReport lineThenReport 101000000 :=
    ⟨List.prefix_refl _, by simp [lineThenReport, enteredAt]⟩
  have hpair := hchron.ordered lineThenReport 101000000 hquery
    _ (List.mem_append_left _ (List.mem_singleton_self _))
    _ (List.mem_append_right _ (List.mem_singleton_self _)) (by decide)
  rw [collectLogs_none] at hpair
  have hstamps := List.rel_of_pairwise_cons ((sorted_sortByKey _).sublist hpair)
    (List.mem_singleton_self _)
  exact absurd hstamps (by decide)

end Instance

end Hwwctl.Daemon
