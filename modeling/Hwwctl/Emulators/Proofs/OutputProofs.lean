import Hwwctl.Emulators.Output
import Hwwctl.Library.Transition
import Mathlib.Data.List.Forall2

/-!
# Which lines are captured

A reader task pushes the lines of its stream one by one until the first that is no text. The line
itself and everything behind it are lost.
-/

namespace Hwwctl.Emulators

open Transition

variable {kind : EmulatorKind} {nextLine : List UInt8 → Option String}

theorem EmulatorKind.pushLine_eq (kind : EmulatorKind) :
    kind.pushLine = Ring.push outputRingSize := by
  cases kind <;> rfl

/-- The steps of a stream and its task, with the text that is pushed. -/
inductive ReaderSteps (nextLine : List UInt8 → Option String) (r : LineReader) :
    LineReader → Option String → Prop where
  | writes (bytes : List UInt8) (hopen : r.closed = false) (hended : r.ended = false) :
    ReaderSteps nextLine r { r with written := r.written ++ bytes, pipe := r.pipe ++ bytes } none
  | closes (hopen : r.closed = false) : ReaderSteps nextLine r { r with closed := true } none
  | reads {n : Nat} (hended : r.ended = false) (hn : n ≤ r.pipe.length) :
    ReaderSteps nextLine r
      { r with pipe := r.pipe.drop n, buffer := r.buffer ++ r.pipe.take n } none
  | line {line rest : List UInt8} {text : String} (hended : r.ended = false)
    (hnext : Lines.next newline r.buffer = some (line, rest))
    (htext : nextLine (line ++ [newline]) = some text) :
    ReaderSteps nextLine r { r with buffer := rest } (some text)
  | refuses {line rest : List UInt8} (hended : r.ended = false)
    (hnext : Lines.next newline r.buffer = some (line, rest))
    (htext : nextLine (line ++ [newline]) = none) :
    ReaderSteps nextLine r { r with ended := true } none
  | finishes (hclosed : r.closed = true) (hpipe : r.pipe = []) (hbuffer : newline ∉ r.buffer) :
    ReaderSteps nextLine r { r with ended := true } none
  | rest {text : String} (hended : r.ended = false) (hclosed : r.closed = true)
    (hpipe : r.pipe = []) (hbuffer : newline ∉ r.buffer) :
    ReaderSteps nextLine r { r with buffer := [] } (some text)

namespace Output

/-- A stream has taken a step, and its task has pushed what it has to push. -/
def moved (kind : EmulatorKind) (s : Output) (st : Stream) (r : LineReader) : Option String → Output
  | none => s.set st r
  | some text => (s.set st r).push kind st text

variable {s : Output} {st st' : Stream} {r : LineReader}

theorem readers_moved (pushed : Option String) :
    (s.moved kind st r pushed).readers = Function.update s.readers st r := by
  cases pushed <;> rfl

theorem linesOf_moved (pushed : Option String) : (s.moved kind st r pushed).linesOf st' =
    s.linesOf st' ++ if st = st' then pushed.toList else [] := by
  cases pushed with
  | none => simp [moved, linesOf, set]
  | some text =>
    by_cases h : st = st' <;> simp [moved, linesOf, set, push, h]

end Output

/-- The steps of the child's output: one stream moves, or a write to a pipe without a reader
fails. -/
theorem output_step_cases {s s' : Output} {a : OutputAct} (h : s.step kind nextLine a = some s') :
    s' = s ∨ ∃ st r pushed, ReaderSteps nextLine (s.readers st) r pushed ∧
      s' = s.moved kind st r pushed := by
  cases a with
  | writes st bytes =>
    simp only [Output.step] at h
    split at h
    · cases h
    · split at h
      · cases h
        exact .inl rfl
      · cases h
        refine .inr ⟨st, _, none, .writes bytes ?_ ?_, rfl⟩
        · simpa using ‹¬ (s.readers st).closed = true›
        · simpa using ‹¬ (s.readers st).ended = true›
  | closes st =>
    simp only [Output.step] at h
    split at h
    · cases h
    · cases h
      refine .inr ⟨st, _, none, .closes ?_, rfl⟩
      simpa using ‹¬ (s.readers st).closed = true›
  | reads st n =>
    simp only [Output.step] at h
    split at h
    · cases h
    · rename_i hfree
      cases h
      rw [not_or, Bool.not_eq_true, Nat.not_lt] at hfree
      exact .inr ⟨st, _, none, .reads hfree.1 hfree.2, rfl⟩
  | line st =>
    simp only [Output.step] at h
    split at h
    · cases h
    · rename_i hended
      rw [Bool.not_eq_true] at hended
      split at h
      · cases h
      · rename_i line rest hnext
        split at h
        · rename_i text htext
          cases h
          exact .inr ⟨st, _, some text, .line hended hnext htext, rfl⟩
        · rename_i htext
          cases h
          exact .inr ⟨st, _, none, .refuses hended hnext htext, rfl⟩
  | rest st =>
    simp only [Output.step] at h
    split at h
    · cases h
    · rename_i hend
      simp only [not_or, Bool.not_eq_true, not_not] at hend
      obtain ⟨hended, hclosed, hpipe, hbuffer⟩ := hend
      rw [Bool.not_eq_false] at hclosed
      split at h
      · cases h
        exact .inr ⟨st, _, none, .finishes hclosed hpipe hbuffer, rfl⟩
      · split at h
        · rename_i text htext
          cases h
          exact .inr ⟨st, _, some text, .rest hended hclosed hpipe hbuffer, rfl⟩
        · cases h
          exact .inr ⟨st, _, none, .finishes hclosed hpipe hbuffer, rfl⟩

/-! ## What a stream's task has pushed -/

/-- The line ends at its newline, and the text is what `next_line` makes of it. -/
def IsRead (nextLine : List UInt8 → Option String) (line : List UInt8) (text : String) : Prop :=
  newline ∉ line ∧ nextLine (line ++ [newline]) = some text

def joined (lines : List (List UInt8)) : List UInt8 := lines.flatMap (· ++ [newline])

theorem joined_concat (lines : List (List UInt8)) (line : List UInt8) :
    joined (lines ++ [line]) = joined lines ++ (line ++ [newline]) := by
  simp [joined]

/-- What a stream and its task have come to, given what the task has pushed. -/
inductive Kept (nextLine : List UInt8 → Option String) (r : LineReader) : List String → Prop where
  | reading {lines : List (List UInt8)} {texts : List String} (hended : r.ended = false)
    (hwritten : r.written = joined lines ++ (r.buffer ++ r.pipe))
    (htexts : List.Forall₂ (IsRead nextLine) lines texts) : Kept nextLine r texts
  /-- All lines are read, and the rest may be pushed as well. -/
  | whole {lines : List (List UInt8)} {last : List UInt8} {texts extra : List String}
    (hclosed : r.closed = true) (hover : r.ended = true ∨ r.buffer = [] ∧ r.pipe = [])
    (hlast : newline ∉ last) (hwritten : r.written = joined lines ++ last)
    (htexts : List.Forall₂ (IsRead nextLine) lines texts) : Kept nextLine r (texts ++ extra)
  /-- A line was no text. -/
  | refused {lines : List (List UInt8)} {bad rest : List UInt8} {texts : List String}
    (hended : r.ended = true) (hbad : newline ∉ bad) (hrefused : nextLine (bad ++ [newline]) = none)
    (hwritten : r.written = joined lines ++ (bad ++ newline :: rest))
    (htexts : List.Forall₂ (IsRead nextLine) lines texts) : Kept nextLine r texts

theorem next_nil : Lines.next newline [] = none := rfl

theorem ReaderSteps.kept {r r' : LineReader} {pushed : Option String} {texts : List String}
    (h : ReaderSteps nextLine r r' pushed) (hr : Kept nextLine r texts) :
    Kept nextLine r' (texts ++ pushed.toList) := by
  cases hr with
  | @reading lines texts _ hwritten htexts =>
    cases h with
    | writes bytes hopen hended =>
      rw [Option.toList_none, List.append_nil]
      exact .reading hended (by simp [hwritten]) htexts
    | closes =>
      rw [Option.toList_none, List.append_nil]
      exact .reading ‹_› hwritten htexts
    | reads hended hn =>
      rw [Option.toList_none, List.append_nil]
      exact .reading hended (by simp [hwritten]) htexts
    | @line line rest text hended hnext htext =>
      obtain ⟨hbuffer, hline⟩ := Lines.next_some hnext
      have hwritten' : r.written = joined (lines ++ [line]) ++ (rest ++ r.pipe) := by
        rw [hwritten, hbuffer, joined_concat]
        simp
      have htexts' : List.Forall₂ (IsRead nextLine) (lines ++ [line]) (texts ++ [text]) :=
        List.rel_append htexts (.cons ⟨hline, htext⟩ .nil)
      exact .reading hended hwritten' htexts'
    | @refuses line rest hended hnext htext =>
      obtain ⟨hbuffer, hline⟩ := Lines.next_some hnext
      have hwritten' : r.written = joined lines ++ (line ++ newline :: (rest ++ r.pipe)) := by
        rw [hwritten, hbuffer]
        simp
      rw [Option.toList_none, List.append_nil]
      exact .refused rfl hline htext hwritten' htexts
    | finishes hclosed hpipe hbuffer =>
      exact .whole hclosed (.inl rfl) hbuffer (by rw [hwritten, hpipe, List.append_nil]) htexts
    | rest hended hclosed hpipe hbuffer =>
      exact .whole hclosed (.inr ⟨rfl, hpipe⟩) hbuffer (by rw [hwritten, hpipe, List.append_nil])
        htexts
  | @whole lines last texts extra hclosed hover hlast hwritten htexts =>
    rw [List.append_assoc]
    cases h with
    | writes _ hopen | closes hopen =>
      rw [hclosed] at hopen
      cases hopen
    | reads hended =>
      obtain ⟨hbuffer, hpipe⟩ := hover.resolve_left (by simp [hended])
      exact .whole hclosed (.inr (by simp [hbuffer, hpipe])) hlast hwritten htexts
    | line hended hnext | refuses hended hnext =>
      obtain ⟨hbuffer, -⟩ := hover.resolve_left (by simp [hended])
      rw [hbuffer, next_nil] at hnext
      cases hnext
    | finishes => exact .whole hclosed (.inl rfl) hlast hwritten htexts
    | rest hended _ hpipe => exact .whole hclosed (.inr ⟨rfl, hpipe⟩) hlast hwritten htexts
  | refused hended hbad hrefused hwritten htexts =>
    cases h with
    | writes _ _ hnot | reads hnot | line hnot | refuses hnot | rest hnot =>
      rw [hended] at hnot
      cases hnot
    | closes =>
      rw [Option.toList_none, List.append_nil]
      exact .refused hended hbad hrefused hwritten htexts
    | finishes =>
      rw [Option.toList_none, List.append_nil]
      exact .refused rfl hbad hrefused hwritten htexts

theorem IsRead.of_mem {lines : List (List UInt8)} {texts : List String}
    (h : List.Forall₂ (IsRead nextLine) lines texts) :
    ∀ line ∈ lines, newline ∉ line ∧ nextLine (line ++ [newline]) ≠ none := by
  induction h with
  | nil => simp
  | cons hread _ ih =>
    intro line hline
    rcases List.mem_cons.1 hline with rfl | hline
    · exact ⟨hread.1, by simp [hread.2]⟩
    · exact ih line hline

/-- Lines that were read are complete. -/
theorem complete_joined_of_read {lines : List (List UInt8)} {texts : List String}
    (h : List.Forall₂ (IsRead nextLine) lines texts) (rest : List UInt8) :
    Lines.complete newline (joined lines ++ rest) = lines ++ Lines.complete newline rest :=
  Lines.complete_joined (fun line hline => (IsRead.of_mem h line hline).1) rest

/-- When the task has ended, its stream's lines were pushed exactly when all of them are texts. -/
theorem Kept.captured_iff {r : LineReader} {texts : List String}
    (hnext : ∀ bytes, nextLine bytes = none ↔ ¬ ValidUtf8 bytes) (hr : Kept nextLine r texts)
    (hended : r.ended = true) :
    (∃ received : List String, received.Sublist texts ∧
        List.Forall₂ (Output.Says nextLine) (Lines.complete newline r.written) received) ↔
      ∀ line ∈ Lines.complete newline r.written, ValidUtf8 (line ++ [newline]) := by
  cases hr with
  | reading hnot =>
    rw [hended] at hnot
    cases hnot
  | @whole lines last texts extra hclosed hover hlast hwritten htexts =>
    have hcomplete : Lines.complete newline r.written = lines := by
      rw [hwritten, complete_joined_of_read htexts, Lines.complete_of_not_mem hlast,
        List.append_nil]
    rw [hcomplete]
    refine ⟨fun _ line hline => ?_, fun _ => ⟨texts, List.sublist_append_left _ _, ?_⟩⟩
    · by_contra hinvalid
      exact (IsRead.of_mem htexts line hline).2 ((hnext _).2 hinvalid)
    · exact htexts.imp fun line text hread text' htext' =>
        Option.some.inj (hread.2.symm.trans htext')
  | @refused lines bad rest _ _ hbad hrefused hwritten htexts =>
    have hcomplete : Lines.complete newline r.written =
        lines ++ bad :: Lines.complete newline rest := by
      rw [hwritten, complete_joined_of_read htexts, Lines.complete_cons hbad]
    rw [hcomplete]
    constructor
    · rintro ⟨received, hsublist, hreceived⟩
      -- one text is missing: that of the refused line
      have hshort := hsublist.length_le
      have hlines := htexts.length_eq
      have hall := hreceived.length_eq
      rw [List.length_append, List.length_cons] at hall
      omega
    · intro hvalid
      exact absurd (hvalid bad (by simp)) ((hnext _).1 hrefused)

/-! ## Runs -/

/-- The invariant of both streams and of the ring. -/
structure Output.Sound (kind : EmulatorKind) (nextLine : List UInt8 → Option String) (s : Output) :
    Prop where
  kept : ∀ st, Kept nextLine (s.readers st) (s.linesOf st)
  ring : s.ring = (s.pushed.map Prod.snd).rtake 500

theorem Output.sound_start : Output.start.Sound kind nextLine where
  kept _ := .reading rfl rfl .nil
  ring := (List.rtake_nil _).symm

theorem Output.Sound.moved {s : Output} {st : Stream} {r : LineReader} {pushed : Option String}
    (hs : s.Sound kind nextLine) (h : ReaderSteps nextLine (s.readers st) r pushed) :
    (s.moved kind st r pushed).Sound kind nextLine where
  kept st' := by
    rw [readers_moved, linesOf_moved]
    by_cases hst : st = st'
    · subst hst
      rw [Function.update_self, if_pos rfl]
      exact h.kept (hs.kept st)
    · rw [Function.update_of_ne (Ne.symm hst), if_neg hst, List.append_nil]
      exact hs.kept st'
  ring := by
    cases pushed with
    | none => exact hs.ring
    | some text =>
      show kind.pushLine s.ring text = ((s.pushed ++ [(st, text)]).map Prod.snd).rtake 500
      rw [hs.ring, List.map_append]
      rw [kind.pushLine_eq]
      exact Ring.push_rtake (by decide) _ _

theorem output_sound_of_run {s : Output} {acts : List OutputAct}
    (hrun : run (Output.step kind nextLine) .start acts = some s) : s.Sound kind nextLine := by
  have hall : Always (Output.step kind nextLine) (Output.Sound kind nextLine) .start acts :=
    always_of_step Output.sound_start fun s a s' hs ha => by
      obtain rfl | ⟨st, r, pushed, hstep, rfl⟩ := output_step_cases ha
      · exact hs
      · exact hs.moved hstep
  exact hall.of_run hrun

/-- How much a task has to do. -/
def LineReader.work (r : LineReader) : Nat :=
  if r.ended then 0 else 1 + 2 * r.pipe.length + r.buffer.length

theorem LineReader.work_of_ended {r : LineReader} (h : r.ended = true) (n m : Nat) :
    r.work < 1 + n + m := by
  rw [work, if_pos h]
  omega

/-- A task that has not ended gets on when its stream is closed. -/
theorem task_goes_on {s : Output} {st : Stream} {written pipe buffer : List UInt8}
    (hr : s.readers st = ⟨written, true, pipe, buffer, false⟩) : ∃ a r pushed, OutputAct.Own a ∧
      s.step kind nextLine a = some (s.moved kind st r pushed) ∧ r.closed = true ∧
        r.work < 1 + 2 * pipe.length + buffer.length := by
  by_cases hpipe : pipe = []
  · subst hpipe
    cases hnext : Lines.next newline buffer with
    | some cut =>
      obtain ⟨line, rest⟩ := cut
      obtain ⟨rfl, -⟩ := Lines.next_some hnext
      cases htext : nextLine (line ++ [newline]) with
      | some text =>
        refine ⟨.line st, ⟨written, true, [], rest, false⟩, some text, trivial, ?_, rfl, ?_⟩
        · simp [Output.step, hr, hnext, htext, Output.moved]
        · simp [LineReader.work]
          omega
      | none =>
        refine ⟨.line st, ⟨written, true, [], line ++ newline :: rest, true⟩, none, trivial, ?_,
          rfl, LineReader.work_of_ended rfl _ _⟩
        simp [Output.step, hr, hnext, htext, Output.moved]
    | none =>
      have hline := Lines.next_none hnext
      by_cases hbuffer : buffer = []
      · refine ⟨.rest st, ⟨written, true, [], buffer, true⟩, none, trivial, ?_, rfl,
          LineReader.work_of_ended rfl _ _⟩
        simp [Output.step, hr, hbuffer, Output.moved]
      · cases htext : nextLine buffer with
        | some text =>
          refine ⟨.rest st, ⟨written, true, [], [], false⟩, some text, trivial, ?_, rfl, ?_⟩
          · simp [Output.step, hr, hline, hbuffer, htext, Output.moved]
          · simp [LineReader.work]
            exact List.length_pos_iff.2 hbuffer
        | none =>
          refine ⟨.rest st, ⟨written, true, [], buffer, true⟩, none, trivial, ?_, rfl,
            LineReader.work_of_ended rfl _ _⟩
          simp [Output.step, hr, hline, hbuffer, htext, Output.moved]
  · have hlength : 0 < pipe.length := List.length_pos_iff.2 hpipe
    refine ⟨.reads st pipe.length, ⟨written, true, [], buffer ++ pipe, false⟩, none, trivial, ?_,
      rfl, ?_⟩
    · simp [Output.step, hr, Output.moved]
    · simp [LineReader.work]
      omega

def Output.work (s : Output) : Nat := (s.readers .stdout).work + (s.readers .stderr).work

/-- Some task gets on while not both have ended. -/
theorem output_goes_on {s : Output} (hclosed : ∀ st, (s.readers st).closed = true)
    (hleft : ¬ s.Done) : ∃ a s', OutputAct.Own a ∧ s.step kind nextLine a = some s' ∧
      (∀ st, (s'.readers st).closed = true) ∧ s'.work < s.work := by
  obtain ⟨st, hst⟩ : ∃ st, (s.readers st).ended = false := by
    by_contra hnone
    refine hleft fun st => ⟨hclosed st, ?_⟩
    rw [← Bool.not_eq_false]
    exact fun hst => hnone ⟨st, hst⟩
  obtain ⟨written, pipe, buffer, hr⟩ : ∃ written pipe buffer,
      s.readers st = ⟨written, true, pipe, buffer, false⟩ :=
    ⟨_, _, _, by rw [← hclosed st, ← hst]⟩
  obtain ⟨a, r, pushed, hown, hstep, hr', hlt⟩ := task_goes_on hr
  refine ⟨a, _, hown, hstep, fun st' => ?_, ?_⟩
  · rw [Output.readers_moved]
    by_cases hst' : st' = st
    · rw [hst', Function.update_self, hr']
    · rw [Function.update_of_ne hst', hclosed]
  · have hwork : (s.readers st).work = 1 + 2 * pipe.length + buffer.length := by
      rw [hr]
      rfl
    rw [Output.work, Output.work, Output.readers_moved]
    cases st with
    | stdout =>
      rw [Function.update_self, Function.update_of_ne (by simp), hwork]
      omega
    | stderr =>
      rw [Function.update_self, Function.update_of_ne (by simp), hwork]
      omega

/-- When the child has closed both streams the tasks can get to their ends. -/
theorem tasks_end {s : Output} (hclosed : ∀ st, (s.readers st).closed = true) : ∃ acts s',
    (∀ a ∈ acts, OutputAct.Own a) ∧ run (Output.step kind nextLine) s acts = some s' ∧ s'.Done := by
  have hstep : ∀ s : Output, (∀ st, (s.readers st).closed = true) → ¬ s.Done →
      ∃ a s', OutputAct.Own a ∧ s.step kind nextLine a = some s' ∧
        (∀ st, (s'.readers st).closed = true) ∧ s'.work < s.work :=
    fun s => output_goes_on
  obtain ⟨acts, s', hown, hrun, -, hdone⟩ :=
    exists_run_of_work (Q := Output.Done) OutputAct.Own Output.work hclosed hstep
  exact ⟨acts, s', hown, hrun, hdone⟩

/-- Once the child has closed both streams, the tasks get to their ends; and at their ends, however
they got there, every line of each stream was pushed in its order exactly when every line is a text.
The ring holds the last of what was pushed. -/
theorem output_captured_iff (hnext : ∀ bytes, nextLine bytes = none ↔ ¬ ValidUtf8 bytes)
    {acts : List OutputAct} {s : Output}
    (hrun : run (Output.step kind nextLine) .start acts = some s)
    (hclosed : ∀ st, (s.readers st).closed = true) :
    (∃ acts' s', (∀ a ∈ acts', OutputAct.Own a) ∧
        run (Output.step kind nextLine) s acts' = some s' ∧ s'.Done) ∧
      ∀ acts' s', run (Output.step kind nextLine) s acts' = some s' → s'.Done →
        (s'.Captured nextLine ↔ ∀ st, ∀ line ∈ Lines.complete newline (s'.readers st).written,
          ValidUtf8 (line ++ [newline])) ∧
        s'.ring = (s'.pushed.map Prod.snd).rtake 500 := by
  refine ⟨tasks_end hclosed, fun acts' s' hrun' hdone => ?_⟩
  have hwhole : run (Output.step kind nextLine) .start (acts ++ acts') = some s' := by
    rw [run_append, hrun]
    exact hrun'
  have hs := output_sound_of_run hwhole
  exact ⟨forall_congr' fun st => (hs.kept st).captured_iff hnext (hdone st).2, hs.ring⟩

/-- A line's text is without its newline, and without the carriage return before that. -/
def stripNewline (text : List Char) : List Char :=
  if text.getLast? = some '\n' then
    if text.dropLast.getLast? = some '\r' then text.dropLast.dropLast else text.dropLast
  else text

def nextLineUtf8 (bytes : List UInt8) : Option String :=
  (String.fromUTF8? (ByteArray.mk bytes.toArray)).map fun text =>
    .ofList (stripNewline text.toList)

theorem nextLineUtf8_none (bytes : List UInt8) :
    nextLineUtf8 bytes = none ↔ ¬ ValidUtf8 bytes := by
  rw [nextLineUtf8, Option.map_eq_none_iff, String.fromUTF8?, ValidUtf8]
  split
  · simp [*]
  · simp [*]

/-- The child prints a line on each stream, the second without its newline. -/
def twoLines : List OutputAct :=
  [.writes .stdout [0x61, 0x0A], .reads .stdout 1, .writes .stderr [0x62], .reads .stdout 1,
    .line .stdout, .closes .stderr, .closes .stdout]

theorem output_captured_iff_twoLines : ∃ s,
    run (Output.step .generic nextLineUtf8) .start twoLines = some s ∧
      ∃ acts' s', (∀ a ∈ acts', OutputAct.Own a) ∧
        run (Output.step .generic nextLineUtf8) s acts' = some s' ∧ s'.Done := by
  obtain ⟨s, hrun, hclosed⟩ : ∃ s,
      run (Output.step .generic nextLineUtf8) .start twoLines = some s ∧
        ∀ st, (s.readers st).closed = true := by
    refine ⟨_, rfl, fun st => ?_⟩
    cases st <;> rfl
  exact ⟨s, hrun, (output_captured_iff nextLineUtf8_none hrun hclosed).1⟩

/-- The child prints a byte that is no text, and a line behind it. -/
def badLine : List OutputAct :=
  [.writes .stdout [0xFF, 0x0A, 0x61, 0x0A], .closes .stdout, .closes .stderr, .reads .stdout 4,
    .line .stdout, .rest .stderr]

theorem not_output_captured_badLine :
    ¬ ∀ kind nextLine acts s, (∀ bytes, nextLine bytes = none ↔ ¬ ValidUtf8 bytes) →
      run (Output.step kind nextLine) .start acts = some s → s.Done → s.Captured nextLine := by
  intro h
  obtain ⟨s, hrun, hdone, hwritten, hlines⟩ : ∃ s,
      run (Output.step .generic nextLineUtf8) .start badLine = some s ∧ s.Done ∧
        (s.readers .stdout).written = [0xFF, 0x0A, 0x61, 0x0A] ∧ s.linesOf .stdout = [] := by
    refine ⟨_, rfl, fun st => ?_, rfl, rfl⟩
    cases st <;> exact ⟨rfl, rfl⟩
  obtain ⟨texts, hsublist, htexts⟩ := h .generic nextLineUtf8 badLine s nextLineUtf8_none hrun hdone
    .stdout
  rw [hlines] at hsublist
  obtain rfl := List.sublist_nil.1 hsublist
  rw [hwritten] at htexts
  cases htexts

end Hwwctl.Emulators
