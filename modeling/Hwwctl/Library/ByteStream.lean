import Mathlib.Data.List.Basic
import Mathlib.Tactic.Common

/-!
# Byte streams

The reading end of a stream is the list of what its future reads come back with: chunks that are
never empty, or failures; after the last of them the stream is at its end. A read takes from one
chunk at most, so every way of cutting a stream into reads is such a list. The writing end keeps
what was written and may give out after a number of elements.
-/

namespace ByteStream

variable {α : Type}

/-- What one read can deliver. -/
structure Chunk (α : Type) where
  elems : List α
  nonempty : elems ≠ []

/-- What a read comes back with. -/
inductive Read (α : Type) where
  | data (chunk : Chunk α)
  | failed

/-- Why elements could not be read or written. -/
inductive IoError where
  | unexpectedEof
  | other
deriving DecidableEq, Repr

/-- What is left of a chunk after a read of `n` elements that does not exhaust it. -/
def Chunk.rest (c : Chunk α) (n : Nat) (h : n < c.elems.length) : Chunk α where
  elems := c.elems.drop n
  nonempty := by
    intro hnil
    have := List.drop_eq_nil_iff.1 hnil
    omega

/-- `read_exact` into a buffer of `n`. -/
def readExact : Nat → List (Read α) → Except IoError (List α) × List (Read α)
  | 0, reads => (.ok [], reads)
  | _ + 1, [] => (.error .unexpectedEof, [])
  | _ + 1, .failed :: reads => (.error .other, reads)
  | n + 1, .data c :: reads =>
    if h : n + 1 < c.elems.length then
      (.ok (c.elems.take (n + 1)), .data (c.rest (n + 1) h) :: reads)
    else match readExact (n + 1 - c.elems.length) reads with
      | (.ok l, reads) => (.ok (c.elems ++ l), reads)
      | (.error e, reads) => (.error e, reads)

/-- A stream that delivers `l`, in some chunks, and is then at its end. -/
def Delivers (reads : List (Read α)) (l : List α) : Prop :=
  ∃ chunks : List (Chunk α), reads = chunks.map .data ∧ (chunks.map (·.elems)).flatten = l

/-- A writing end: what was written, and how much more it takes if it gives out. -/
structure Sink (α : Type) where
  written : List α
  room : Option Nat
deriving DecidableEq, Repr

/-- `write_all`. -/
def Sink.writeAll (sink : Sink α) (l : List α) : Except IoError Unit × Sink α :=
  match sink.room with
  | none => (.ok (), { sink with written := sink.written ++ l })
  | some n =>
    if l.length ≤ n then (.ok (), ⟨sink.written ++ l, some (n - l.length)⟩)
    else (.error .other, ⟨sink.written ++ l.take n, some 0⟩)

/-! ## What is read -/

theorem Delivers.nil : Delivers ([] : List (Read α)) [] := ⟨[], rfl, rfl⟩

theorem Delivers.cons {reads : List (Read α)} {l : List α} (c : Chunk α) (h : Delivers reads l) :
    Delivers (.data c :: reads) (c.elems ++ l) := by
  obtain ⟨chunks, rfl, rfl⟩ := h
  exact ⟨c :: chunks, rfl, rfl⟩

/-- A stream at its end delivers no chunk. -/
theorem Delivers.eq_nil {reads : List (Read α)} (h : Delivers reads []) : reads = [] := by
  obtain ⟨chunks, rfl, hflat⟩ := h
  cases chunks with
  | nil => rfl
  | cons c chunks =>
    have hempty : c.elems = [] := (List.append_eq_nil_iff.1 hflat).1
    exact absurd hempty c.nonempty

/-- The next elements arrive however they are cut, and the rest of the stream stays. -/
theorem Delivers.readExact {reads : List (Read α)} {front back : List α}
    (h : Delivers reads (front ++ back)) :
    ∃ reads', ByteStream.readExact front.length reads = (.ok front, reads') ∧
      Delivers reads' back := by
  obtain ⟨chunks, rfl, hflat⟩ := h
  induction chunks generalizing front with
  | nil =>
    obtain ⟨rfl, rfl⟩ := List.append_eq_nil_iff.1 hflat.symm
    exact ⟨[], rfl, .nil⟩
  | cons c chunks ih =>
    cases front with
    | nil => exact ⟨_, rfl, c :: chunks, rfl, hflat⟩
    | cons a front =>
      rw [List.map_cons, List.flatten_cons] at hflat
      rw [List.map_cons, List.length_cons, ByteStream.readExact]
      by_cases hlt : front.length + 1 < c.elems.length
      · have hle : (a :: front).length ≤ c.elems.length := by rw [List.length_cons]; omega
        have htake : c.elems.take (front.length + 1) = a :: front := by
          have := congrArg (List.take (front.length + 1)) hflat
          rwa [List.take_append_of_le_length (by omega), List.take_left' List.length_cons] at this
        have hdrop : c.elems.drop (front.length + 1) ++ (chunks.map (·.elems)).flatten = back := by
          have := congrArg (List.drop (front.length + 1)) hflat
          rwa [List.drop_append_of_le_length (by omega), List.drop_left' List.length_cons] at this
        rw [dif_pos hlt, htake]
        exact ⟨_, rfl, c.rest _ hlt :: chunks, rfl, hdrop⟩
      · obtain ⟨front', hfront, hrest⟩ : ∃ front', a :: front = c.elems ++ front' ∧
            (chunks.map (·.elems)).flatten = front' ++ back := by
          rcases List.append_eq_append_iff.1 hflat with ⟨l, hl, hr⟩ | ⟨l, hl, hr⟩
          · exact ⟨l, hl, hr⟩
          · have hlen := congrArg List.length hl
            rw [List.length_append, List.length_cons] at hlen
            have hnil : l = [] := List.length_eq_zero_iff.1 (by omega)
            subst hnil
            exact ⟨[], by simpa using hl.symm, by simpa using hr.symm⟩
        obtain ⟨reads', hread, hdel⟩ := ih hrest
        have hlen : front.length + 1 - c.elems.length = front'.length := by
          have := congrArg List.length hfront
          rw [List.length_append, List.length_cons] at this
          omega
        rw [dif_neg hlt, hlen, hread]
        exact ⟨reads', by rw [hfront], hdel⟩

/-- A stream that ends before the buffer is full. -/
theorem Delivers.readExact_eof {reads : List (Read α)} {l : List α} (h : Delivers reads l) {n : Nat}
    (hn : l.length < n) : ByteStream.readExact n reads = (.error .unexpectedEof, []) := by
  obtain ⟨chunks, rfl, rfl⟩ := h
  induction chunks generalizing n with
  | nil =>
    obtain ⟨n, rfl⟩ := Nat.exists_eq_succ_of_ne_zero (Nat.ne_of_gt hn)
    rfl
  | cons c chunks ih =>
    rw [List.map_cons, List.flatten_cons, List.length_append] at hn
    obtain ⟨n, rfl⟩ := Nat.exists_eq_succ_of_ne_zero (show n ≠ 0 by omega)
    have hlt : ¬ n + 1 < c.elems.length := by omega
    have hrest := ih (n := n + 1 - c.elems.length) (by omega)
    rw [List.map_cons, ByteStream.readExact, dif_neg hlt, hrest]

/-! ## What is written -/

/-- A sink that never gives out takes everything. -/
theorem Sink.writeAll_of_room_none {sink : Sink α} (h : sink.room = none) (l : List α) :
    sink.writeAll l = (.ok (), ⟨sink.written ++ l, none⟩) := by
  rw [writeAll, h]

end ByteStream
