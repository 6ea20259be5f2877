import Mathlib.Data.List.Basic

/-!
# Processes, one-shot channels and background jobs

What a program with an asynchronous runtime holds outside its own values: child processes, one-shot
channels, and jobs (threads and runtime tasks). Each is named by its position in the order of
creation, so a handle is a number and everything created since a moment `w` has a name from the
lengths in `w` on.
-/

namespace Runtime

/-- What a child process is started with. -/
structure Command where
  program : String
  currentDir : String
  env : List (String × String)
  args : List String
deriving DecidableEq, Repr

structure Child where
  command : Command
  alive : Bool
deriving DecidableEq, Repr

/-- What the receiver of a one-shot channel finds without waiting. -/
inductive TryRecv where
  | ok
  | empty
  | closed
deriving DecidableEq, Repr

structure Job (κ : Type) where
  kind : κ
  running : Bool
deriving DecidableEq, Repr

structure World (κ : Type) where
  children : List Child
  oneshots : List TryRecv
  jobs : List (Job κ)

variable {κ : Type}

namespace World

def empty : World κ := ⟨[], [], []⟩

def spawnChild (w : World κ) (command : Command) : Nat × World κ :=
  (w.children.length, { w with children := w.children ++ [⟨command, true⟩] })

/-- The child is gone: it exited, or SIGKILL ended it. -/
def endChild (w : World κ) (child : Nat) : World κ :=
  { w with children := w.children.modify child ({ · with alive := false }) }

def oneshot (w : World κ) : Nat × World κ :=
  (w.oneshots.length, { w with oneshots := w.oneshots ++ [.empty] })

/-- Dropping the sender closes the channel, unless a value was sent before. -/
def dropSender (w : World κ) (ch : Nat) : World κ :=
  { w with oneshots := w.oneshots.modify ch fun s => if s = .empty then .closed else s }

def tryRecv (w : World κ) (ch : Nat) : TryRecv := w.oneshots[ch]?.getD .closed

def spawnJob (w : World κ) (kind : κ) : Nat × World κ :=
  (w.jobs.length, { w with jobs := w.jobs ++ [⟨kind, true⟩] })

def abortJob (w : World κ) (job : Nat) : World κ :=
  { w with jobs := w.jobs.modify job ({ · with running := false }) }

def dropSenders (w : World κ) (chs : List Nat) : World κ := chs.foldl dropSender w

def abortJobs (w : World κ) (jobs : List Nat) : World κ := jobs.foldl abortJob w

/-- The child was started and has not ended. -/
def Alive (w : World κ) (c : Nat) : Prop :=
  ∃ child, w.children[c]? = some child ∧ child.alive = true

end World

/-! ## What was created since -/

/-- Everything there was in `w` is in `w'` as it was. -/
structure Untouched (w w' : World κ) : Prop where
  children : w.children <+: w'.children
  oneshots : w.oneshots <+: w'.oneshots
  jobs : w.jobs <+: w'.jobs

/-- The children of `w'` that `w` did not have. -/
def newChildren (w w' : World κ) : List Child := w'.children.drop w.children.length

/-- The jobs of `w'` that `w` did not have. -/
def newJobs (w w' : World κ) : List (Job κ) := w'.jobs.drop w.jobs.length

theorem Untouched.refl (w : World κ) : Untouched w w :=
  ⟨List.prefix_refl _, List.prefix_refl _, List.prefix_refl _⟩

theorem Untouched.trans {w w' w'' : World κ} (h : Untouched w w') (h' : Untouched w' w'') :
    Untouched w w'' :=
  ⟨h.children.trans h'.children, h.oneshots.trans h'.oneshots, h.jobs.trans h'.jobs⟩

theorem Untouched.of_append {w w' : World κ} {cs : List Child} {os : List TryRecv}
    {js : List (Job κ)} (hcs : w'.children = w.children ++ cs)
    (hos : w'.oneshots = w.oneshots ++ os) (hjs : w'.jobs = w.jobs ++ js) : Untouched w w' :=
  ⟨⟨cs, hcs.symm⟩, ⟨os, hos.symm⟩, ⟨js, hjs.symm⟩⟩

theorem Untouched.spawnJob (w : World κ) (kind : κ) : Untouched w (w.spawnJob kind).2 :=
  .of_append (List.append_nil _).symm (List.append_nil _).symm rfl

@[simp] theorem newChildren_self (w : World κ) : newChildren w w = [] := List.drop_length

@[simp] theorem newJobs_self (w : World κ) : newJobs w w = [] := List.drop_length

theorem newChildren_of_append {w w' : World κ} {cs : List Child}
    (h : w'.children = w.children ++ cs) : newChildren w w' = cs := by
  rw [newChildren, h, List.drop_left]

theorem newJobs_of_append {w w' : World κ} {js : List (Job κ)} (h : w'.jobs = w.jobs ++ js) :
    newJobs w w' = js := by
  rw [newJobs, h, List.drop_left]

/-- A change to the newest entry of a table is a change to what was appended. -/
theorem modify_length_append {α : Type} (f : α → α) (l : List α) (a : α) (l' : List α) :
    (l ++ a :: l').modify l.length f = l ++ f a :: l' := by
  induction l with
  | nil => rfl
  | cons b l ih => simp [ih]

/-- What stands in a table with one entry more is the new entry or stood there before. -/
theorem getElem?_concat_some {α : Type} {l : List α} {a b : α} {i : Nat}
    (h : (l ++ [a])[i]? = some b) : l[i]? = some b ∨ b = a := by
  rw [List.getElem?_append] at h
  split at h
  · exact .inl h
  · exact .inr (List.mem_singleton.1 (List.mem_of_getElem? h))

/-! ## Who is alive -/

namespace World

theorem Alive.mono {w w' : World κ} {c : Nat} (h : w.Alive c)
    (hw : w.children <+: w'.children) : w'.Alive c := by
  obtain ⟨child, hchild, halive⟩ := h
  obtain ⟨cs, hcs⟩ := hw
  refine ⟨child, ?_, halive⟩
  have hlt := (List.getElem?_eq_some_iff.1 hchild).1
  rw [← hcs, List.getElem?_append_left hlt]
  exact hchild

theorem Alive.newest {w : World κ} {cs : List Child} {child : Child}
    (h : w.children = cs ++ [child]) (halive : child.alive = true) : w.Alive cs.length :=
  ⟨child, by simp [h], halive⟩

/-- The end of one child is not the end of another. -/
theorem Alive.endChild {w : World κ} {c c' : Nat} (h : w.Alive c) (hne : c' ≠ c) :
    (w.endChild c').Alive c := by
  obtain ⟨child, hchild, halive⟩ := h
  refine ⟨child, ?_, halive⟩
  rw [World.endChild, List.getElem?_modify_ne _ _ hne]
  exact hchild

theorem not_alive_endChild (w : World κ) (c : Nat) : ¬ (w.endChild c).Alive c := by
  rintro ⟨child, hchild, halive⟩
  rw [World.endChild, List.getElem?_modify_eq] at hchild
  obtain ⟨child', -, rfl⟩ := Option.map_eq_some_iff.1 hchild
  cases halive

theorem alive_endChild {w : World κ} {c c' : Nat} :
    (w.endChild c').Alive c ↔ w.Alive c ∧ c ≠ c' := by
  by_cases hc : c = c'
  · subst hc
    simp [not_alive_endChild]
  · simp only [ne_eq, hc, not_false_eq_true, and_true]
    constructor
    · rintro ⟨child, hchild, halive⟩
      rw [World.endChild, List.getElem?_modify_ne _ _ (Ne.symm hc)] at hchild
      exact ⟨child, hchild, halive⟩
    · intro h
      exact h.endChild (Ne.symm hc)

/-- A child that has just been started is alive, and no other becomes so. -/
theorem alive_of_children {w w' : World κ} {command : Command} {c : Nat}
    (h : w'.children = w.children ++ [⟨command, true⟩]) :
    w'.Alive c ↔ w.Alive c ∨ c = w.children.length := by
  constructor
  · rintro ⟨child, hchild, halive⟩
    rw [h] at hchild
    rcases Nat.lt_trichotomy c w.children.length with hlt | heq | hgt
    · rw [List.getElem?_append_left hlt] at hchild
      exact .inl ⟨child, hchild, halive⟩
    · exact .inr heq
    · rw [List.getElem?_eq_none (by simp; omega)] at hchild
      cases hchild
  · rintro (halive | rfl)
    · exact halive.mono ⟨_, h.symm⟩
    · exact .newest h rfl

@[simp] theorem length_children_endChild (w : World κ) (c : Nat) :
    (w.endChild c).children.length = w.children.length := List.length_modify ..

@[simp] theorem children_dropSenders (w : World κ) (chs : List Nat) :
    (w.dropSenders chs).children = w.children := by
  induction chs generalizing w with
  | nil => rfl
  | cons ch chs ih => exact ih (w.dropSender ch)

@[simp] theorem children_abortJobs (w : World κ) (jobs : List Nat) :
    (w.abortJobs jobs).children = w.children := by
  induction jobs generalizing w with
  | nil => rfl
  | cons job jobs ih => exact ih (w.abortJob job)

@[simp] theorem children_abortJob (w : World κ) (job : Nat) :
    (w.abortJob job).children = w.children := rfl

end World

end Runtime
