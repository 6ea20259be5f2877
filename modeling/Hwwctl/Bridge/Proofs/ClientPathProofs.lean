import Hwwctl.Bridge.ClientPath

/-!
# Whose datagrams reach whom

A datagram is due to the bridge that touched the path last, or to nobody. So bridges do not
interfere exactly as long as none of them touches the path while datagrams are due to another one,
and none sends a request after another one has touched the path.
-/

namespace Hwwctl.Bridge

open Transition

variable {reportSize : Nat} {w w' : ClientPath} {a : ClientPathAct}

/-- The bridge that removes or binds the path. -/
def ClientPathAct.touches : ClientPathAct → Option Nat
  | .remove i true | .bind i _ => some i
  | _ => none

/-- How many datagrams the step makes an emulator send. -/
def ClientPathAct.answers (j : Nat) : ClientPathAct → Nat
  | .request i answers => if i = j then answers else 0
  | _ => 0

/-- The steps, as far as the path and the datagrams go. -/
inductive ClientPathSteps (w : ClientPath) : ClientPathAct → ClientPath → Prop where
  | moves {a : ClientPathAct} {i : Nat} {b : DgramBridge} {inbox : List Datagram}
    (ha : a.touches = none ∧ ∀ j, a.answers j = 0) (howed : b.owed = (w.bridges i).owed) :
    ClientPathSteps w a { w.set i b with inbox := inbox }
  | touches {a : ClientPathAct} {i : Nat} {b : DgramBridge} {file : Option (Nat × Nat)}
    (ha : a.touches = some i ∧ ∀ j, a.answers j = 0) (howed : b.owed = (w.bridges i).owed)
    (hfile : ∀ j c, file = some (j, c) → j = i) :
    ClientPathSteps w a { w.set i b with file := file, touched := some i }
  | request {i answers : Nat} {b : DgramBridge} (howed : b.owed = (w.bridges i).owed + answers) :
    ClientPathSteps w (.request i answers) (w.set i b)
  | datagram {i owed : Nat} {b : DgramBridge} {data : List UInt8}
    (howed : (w.bridges i).owed = owed + 1) (hb : b.owed = owed) :
    ClientPathSteps w (.datagram i data) ((w.set i b).arrive i data)

theorem clientPath_step_cases (h : w.step reportSize a = some w') : ClientPathSteps w a w' := by
  cases a with
  | relay i a =>
    simp only [ClientPath.step] at h
    split at h
    · cases h
    · cases h
    · cases h
    · cases h
    · obtain ⟨relay, -, rfl⟩ := Option.map_eq_some_iff.1 h
      exact .moves ⟨rfl, fun _ => rfl⟩ rfl
  | remove i ok =>
    simp only [ClientPath.step] at h
    split at h
    · cases ok with
      | true =>
        cases h
        exact .touches ⟨rfl, fun _ => rfl⟩ rfl (by simp)
      | false =>
        cases h
        exact .moves ⟨rfl, fun _ => rfl⟩ rfl
    · cases h
  | bind i connects =>
    simp only [ClientPath.step] at h
    split at h
    · obtain ⟨relay, -, rfl⟩ := Option.map_eq_some_iff.1 h
      refine .touches ⟨rfl, fun _ => rfl⟩ rfl fun j c hfile => ?_
      exact (congrArg Prod.fst (Option.some.inj hfile)).symm
    · cases h
  | bindFails i =>
    simp only [ClientPath.step] at h
    split at h
    · obtain ⟨relay, -, rfl⟩ := Option.map_eq_some_iff.1 h
      exact .moves ⟨rfl, fun _ => rfl⟩ rfl
    · cases h
  | request i answers =>
    obtain ⟨relay, -, rfl⟩ := Option.map_eq_some_iff.1 h
    exact .request rfl
  | datagram i data =>
    simp only [ClientPath.step] at h
    split at h <;> cases h
    exact .datagram ‹_› rfl
  | receive i c =>
    simp only [ClientPath.step] at h
    split at h
    · obtain ⟨relay, -, rfl⟩ := Option.map_eq_some_iff.1 h
      exact .moves ⟨rfl, fun _ => rfl⟩ rfl
    · cases h
  | stop i =>
    obtain rfl := Option.some.inj h
    exact .moves ⟨rfl, fun _ => rfl⟩ rfl

/-! ## Arrivals -/

/-- The datagram reached its own bridge, or that bridge itself had removed or bound the path. -/
structure Arrival.Undisturbed (d : Arrival) : Prop where
  own : ∀ j, d.reached = some j → j = d.emulator
  lost : d.reached = none → d.touched = some d.emulator

/-- No datagram was lost or misdirected because of another bridge. -/
def ClientPath.Undisturbed (w : ClientPath) : Prop := ∀ d ∈ w.arrivals, d.Undisturbed

/-- The same, and for the next datagram whichever it is. -/
def ClientPath.Separate (reportSize : Nat) (w : ClientPath) : Prop :=
  w.Undisturbed ∧
    ∀ i data w', w.step reportSize (.datagram i data) = some w' → w'.Undisturbed

/-- What an arrival tells is where the file leads. -/
theorem arrive_cases (w : ClientPath) (i : Nat) (data : List UInt8) : ∃ reached,
    (w.arrive i data).arrivals = w.arrivals ++ [⟨i, reached, w.touched⟩] ∧
      (∀ j, reached = some j → ∃ c, w.file = some (j, c)) ∧
      (w.arrive i data).bridges = w.bridges ∧ (w.arrive i data).file = w.file ∧
      (w.arrive i data).touched = w.touched := by
  unfold ClientPath.arrive
  split
  · rename_i j c hfile
    split
    · exact ⟨some j, rfl, fun j' hj => ⟨c, by rw [hfile, Option.some.inj hj]⟩, rfl, rfl, rfl⟩
    · exact ⟨none, rfl, by simp, rfl, rfl, rfl⟩
  · exact ⟨none, rfl, by simp, rfl, rfl, rfl⟩

/-- The file is the one that was bound last. -/
def FileTouched (w : ClientPath) : Prop := ∀ j c, w.file = some (j, c) → w.touched = some j

/-- Datagrams are due to the bridge only that touched the path last. -/
def Due (w : ClientPath) : Prop := ∀ j, 0 < (w.bridges j).owed → w.touched = some j

theorem ClientPathSteps.fileTouched (h : ClientPathSteps w a w') (hw : FileTouched w) :
    FileTouched w' := by
  cases h with
  | moves | request => exact hw
  | touches _ _ hfile =>
    intro j c hj
    rw [hfile j c hj]
  | @datagram i owed b data =>
    obtain ⟨reached, -, -, -, hfile, htouched⟩ := arrive_cases (w.set i b) i data
    intro j c hj
    rw [hfile] at hj
    rw [htouched]
    exact hw j c hj

/-- A datagram is undisturbed when it comes for the bridge that touched the path last. -/
theorem arrive_undisturbed_iff {i : Nat} {data : List UInt8} (hfile : FileTouched w)
    (hw : w.Undisturbed) : (w.arrive i data).Undisturbed ↔ w.touched = some i := by
  obtain ⟨reached, harrivals, hreached, -⟩ := arrive_cases w i data
  constructor
  · intro h
    have hlast : Arrival.Undisturbed ⟨i, reached, w.touched⟩ :=
      h _ (by rw [harrivals]; exact List.mem_append_right _ List.mem_cons_self)
    cases hr : reached with
    | none => exact hlast.lost hr
    | some j =>
      obtain ⟨c, hj⟩ := hreached j hr
      obtain rfl : j = i := hlast.own j hr
      exact hfile j c hj
  · intro htouched d hd
    rw [harrivals] at hd
    rcases List.mem_append.1 hd with hd | hd
    · exact hw d hd
    · obtain rfl := List.mem_singleton.1 hd
      refine ⟨fun j hj => ?_, fun _ => htouched⟩
      obtain ⟨c, hjc⟩ := hreached j hj
      exact Option.some.inj ((hfile j c hjc).symm.trans htouched)

theorem separate_iff (hfile : FileTouched w) : w.Separate reportSize ↔ w.Undisturbed ∧ Due w := by
  constructor
  · rintro ⟨hw, hnext⟩
    refine ⟨hw, fun i howed => ?_⟩
    obtain ⟨owed, hsucc⟩ := Nat.exists_eq_succ_of_ne_zero (Nat.ne_of_gt howed)
    have hstep : w.step reportSize (.datagram i []) =
        some ((w.set i { w.bridges i with owed := owed }).arrive i []) := by
      simp only [ClientPath.step, hsucc]
    have hset : FileTouched (w.set i { w.bridges i with owed := owed }) := hfile
    exact (arrive_undisturbed_iff hset hw).1 (hnext i [] _ hstep)
  · rintro ⟨hw, hdue⟩
    refine ⟨hw, fun i data w' hstep => ?_⟩
    cases clientPath_step_cases hstep with
    | moves => exact hw
    | touches ha => cases ha.1
    | @datagram i owed b data howed =>
      have hset : FileTouched (w.set i b) := hfile
      exact (arrive_undisturbed_iff hset hw).2 (hdue i (by omega))

/-- A bridge touches the path only while no datagram is due to another one, and sends a request to
be answered only while no other one has touched the path. -/
structure InTurn (w : ClientPath) (a : ClientPathAct) : Prop where
  touches : ∀ i, a.touches = some i → ∀ j, j ≠ i → (w.bridges j).owed = 0
  request : ∀ i, 0 < a.answers i → w.touched = some i

theorem set_self (w : ClientPath) (i : Nat) (b : DgramBridge) : (w.set i b).bridges i = b :=
  Function.update_self ..

theorem set_ne (w : ClientPath) (b : DgramBridge) {i j : Nat} (h : j ≠ i) :
    (w.set i b).bridges j = w.bridges j :=
  Function.update_of_ne h ..

/-- What is due after an update of one bridge. -/
theorem due_set {i : Nat} {b : DgramBridge} (hw : Due w) (hb : 0 < b.owed → w.touched = some i) :
    Due (w.set i b) := by
  intro j hj
  by_cases hji : j = i
  · subst hji
    rw [set_self] at hj
    exact hb hj
  · rw [set_ne w b hji] at hj
    exact hw j hj

theorem ClientPathSteps.due (h : ClientPathSteps w a w') (hw : Due w) (hC : InTurn w a) : Due w' := by
  cases h with
  | moves _ howed => exact due_set hw fun hb => hw _ (howed ▸ hb)
  | @touches _ i b file ha howed =>
    intro j hj
    by_cases hji : j = i
    · rw [hji]
    · have hzero := hC.touches i ha.1 j hji
      have hj' : 0 < ((w.set i b).bridges j).owed := hj
      rw [set_ne w b hji] at hj'
      omega
  | @request i answers b howed =>
    refine due_set hw fun hb => ?_
    by_cases hanswers : 0 < answers
    · exact hC.request i (by rw [ClientPathAct.answers, if_pos rfl]; exact hanswers)
    · exact hw i (by omega)
  | @datagram i owed b data howed hb =>
    obtain ⟨-, -, -, hbridges, -, htouched⟩ := arrive_cases (w.set i b) i data
    have hset : Due (w.set i b) := due_set hw fun _ => hw i (by omega)
    intro j hj
    rw [hbridges] at hj
    rw [htouched]
    exact hset j hj

theorem ClientPathSteps.undisturbed (h : ClientPathSteps w a w') (hfile : FileTouched w)
    (hdue : Due w) (hw : w.Undisturbed) : w'.Undisturbed := by
  cases h with
  | moves | touches | request => exact hw
  | @datagram i owed b data howed =>
    have hset : FileTouched (w.set i b) := hfile
    exact (arrive_undisturbed_iff hset hw).2 (hdue i (by omega))

/-- A step out of turn leaves a datagram due to a bridge that did not touch the path last. -/
theorem ClientPathSteps.inTurn (h : ClientPathSteps w a w') (hdue' : Due w') : InTurn w a := by
  constructor
  · intro i hi j hji
    cases h with
    | moves ha =>
      rw [ha.1] at hi
      cases hi
    | @touches _ i' b file ha howed =>
      obtain rfl : i' = i := Option.some.inj (ha.1.symm.trans hi)
      by_contra hne
      have hj : 0 < ((w.set i' b).bridges j).owed := by
        rw [set_ne w b hji]
        omega
      have htouched : some i' = some j := hdue' j hj
      exact hji (Option.some.inj htouched).symm
    | request | datagram => cases hi
  · intro i hi
    cases h with
    | moves ha | touches ha =>
      rw [ha.2 i] at hi
      cases hi
    | @request i' answers b howed =>
      by_cases hii : i' = i
      · subst hii
        rw [ClientPathAct.answers, if_pos rfl] at hi
        exact hdue' i' (by rw [set_self]; omega)
      · rw [ClientPathAct.answers, if_neg hii] at hi
        cases hi
    | datagram => cases hi

theorem fileTouched_of_run {acts : List ClientPathAct}
    (hrun : run (ClientPath.step reportSize) .init acts = some w) : FileTouched w :=
  (always_of_step (P := FileTouched) (by simp [FileTouched, ClientPath.init]) fun _ _ _ hw ha =>
    (clientPath_step_cases ha).fileTouched hw).of_run hrun

/-- For any number of bridges and every interleaving, in every state passed no datagram has been
lost or misdirected because of another bridge and neither would the next one be, exactly when every
step is in turn. -/
theorem separate_iff_inTurn (reportSize : Nat) (acts : List ClientPathAct) :
    Always (ClientPath.step reportSize) (ClientPath.Separate reportSize) .init acts ↔
      Guarded (ClientPath.step reportSize) InTurn .init acts := by
  constructor
  · intro hall p a hp w w' hrun ha
    have hrun' : run (ClientPath.step reportSize) .init (p ++ [a]) = some w' := by
      rw [run_concat, hrun]
      exact ha
    have hdue' := ((separate_iff (fileTouched_of_run hrun')).1 (hall _ hp w' hrun')).2
    exact (clientPath_step_cases ha).inTurn hdue'
  · intro hguard
    have hinv : Always (ClientPath.step reportSize)
        (fun w => FileTouched w ∧ Due w ∧ w.Undisturbed) .init acts := by
      refine hguard.always ⟨by simp [FileTouched, ClientPath.init], ?_, ?_⟩ ?_
      · intro j hj
        cases hj
      · intro d hd
        cases hd
      · intro w a w' ⟨hfile, hdue, hw⟩ hC ha
        have hstep := clientPath_step_cases ha
        exact ⟨hstep.fileTouched hfile, hstep.due hdue hC, hstep.undisturbed hfile hdue hw⟩
    exact hinv.mono fun w ⟨hfile, hdue, hw⟩ => (separate_iff hfile).2 ⟨hw, hdue⟩

/-- Bridge 0 sends a request; bridge 1 is started and binds the path; the answer comes. -/
def secondBridge : List ClientPathAct :=
  let first (i : Nat) : List ClientPathAct :=
    [.relay i (.thread .check), .relay i (.thread .drained),
      .relay i (.thread (.poll (some [0x00, 1]))), .relay i .take, .remove i true, .bind i true]
  first 0 ++ [.request 0 1] ++ first 1 ++ [.datagram 0 [2]]

theorem not_undisturbed_secondBridge :
    ¬ ∀ reportSize acts w, run (ClientPath.step reportSize) .init acts = some w → w.Undisturbed := by
  intro h
  obtain ⟨w, hrun, harrivals⟩ : ∃ w, run (ClientPath.step 64) .init secondBridge = some w ∧
      w.arrivals = [⟨0, some 1, some 1⟩] := ⟨_, rfl, rfl⟩
  have hlast : Arrival.Undisturbed ⟨0, some 1, some 1⟩ :=
    h 64 secondBridge w hrun _ (by rw [harrivals]; exact List.mem_cons_self)
  cases hlast.own 1 rfl

end Hwwctl.Bridge
