import Hwwctl.Bridge.Proofs.TcpProofs
import Hwwctl.Bridge.Proofs.UnixProofs

/-!
# What the Unix relays bring from the emulator

Every connection has a read task of its own, and an old one may still be reading when the next
connection is up. Each cuts what it reads into reports by itself.
-/

namespace Hwwctl.Bridge

open Transition

variable {kind : SocketKind} {reportSize : Nat} {s s' : UnixRelay} {a : UnixAct}

/-! ## What was read -/

/-- The bytes that were read from connection `c`. -/
def UnixAct.readFrom (c : Nat) (acts : List UnixAct) : List UInt8 :=
  acts.flatMap fun
    | .reads c' data => if c' = c then data else []
    | _ => []

/-- The datagrams that were read, each filled up to a report. -/
def UnixAct.datagrams (reportSize : Nat) (acts : List UnixAct) : List (Nat × Report) :=
  acts.filterMap fun
    | .reads c data => some (c, padded reportSize data)
    | _ => none

/-- The reports of one connection. -/
def ofConn (c : Nat) (blocks : List (Nat × Report)) : List Report :=
  (blocks.filter (·.1 = c)).map (·.2)

/-- The report of which the host's side has not been told yet. -/
def UnixTask.unannounced : UnixTask → List Report
  | .connecting first => [first]
  | _ => []

/-- What a read task of a stream has read is the reports it handed on, and less than one more. -/
def CutFrom (reportSize : Nat) (read : List UInt8) (blocks : List Report) (reader : UnixReader) :
    Prop :=
  match reader with
  | .unspawned => read = [] ∧ blocks = []
  | .reading filled =>
    read = blocks.flatten ++ filled ∧ (0 < reportSize → filled.length < reportSize)
  | .finished => ∃ rest, read = blocks.flatten ++ rest ∧ (0 < reportSize → rest.length < reportSize)

/-- The reports the read tasks handed on, each with the number of its connection, and where they
are; `read` is what was read from each connection, `datagrams` what came as datagrams. -/
structure Forwarded (kind : SocketKind) (reportSize : Nat) (read : Nat → List UInt8)
    (datagrams blocks : List (Nat × Report)) (s : UnixRelay) : Prop where
  toDevice : s.thread.Carries (blocks.map (·.2))
  sized : ∀ b ∈ blocks, b.2.length = reportSize
  deviceMessages : messages .deviceToHost s.intercepted =
    blocks.map fun b => .new .deviceToHost b.2 none
  stream : kind = .stream → ∀ c, CutFrom reportSize (read c) (ofConn c blocks) (s.reader c)
  dgram : kind = .dgram → blocks = datagrams

/-- A connection whose first report is being written has no read task. -/
def UnixRelay.SpawnsLate (s : UnixRelay) : Prop :=
  ∀ c first, s.task = .writingFirst c first → s.reader c = .unspawned

/-! ## Readers -/

namespace UnixRelay

theorem reader_setReader_of_lt (s : UnixRelay) {c : Nat} (hc : c < s.conns.length)
    (reader : UnixReader) (c' : Nat) :
    (s.setReader c reader).reader c' = if c' = c then reader else s.reader c' := by
  unfold setReader UnixRelay.reader
  rw [List.getElem?_modify]
  by_cases hcc : c' = c
  · subst hcc
    simp [List.getElem?_eq_getElem hc]
  · rw [if_neg hcc]
    cases s.conns[c']? with
    | none => rfl
    | some conn => simp [Ne.symm hcc]

theorem lt_of_reading {c : Nat} {filled : List UInt8} (h : s.reader c = .reading filled) :
    c < s.conns.length := by
  by_contra hge
  rw [reader, List.getElem?_eq_none (by omega)] at h
  cases h

theorem lt_of_peerOpen {c : Nat} (h : s.peerOpen c = true) : c < s.conns.length := by
  by_contra hge
  rw [peerOpen, List.getElem?_eq_none (by omega)] at h
  cases h

/-- A new connection has no read task yet. -/
theorem reader_connects (s : UnixRelay) (peerOpen : Bool) (c : Nat) :
    reader { s with conns := s.conns ++ [⟨peerOpen, .unspawned⟩] } c = s.reader c := by
  unfold reader
  rcases Nat.lt_trichotomy c s.conns.length with hlt | heq | hgt
  · rw [List.getElem?_append_left hlt]
  · rw [heq, List.getElem?_concat_length, List.getElem?_eq_none (Nat.le_refl _)]
  · rw [List.getElem?_eq_none (by simp; omega), List.getElem?_eq_none (by omega)]

/-- After a report was handed on, its read task goes on or is finished. -/
theorem reader_forward_of_lt (s : UnixRelay) {c : Nat} (hc : c < s.conns.length) (data : Report) :
    ∃ reader, (reader = .reading [] ∨ reader = .finished) ∧
      ∀ c', (s.forward c data).reader c' = if c' = c then reader else s.reader c' := by
  rw [forward]
  split
  · exact ⟨.reading [], .inl rfl, fun c' => reader_setReader_of_lt _ hc _ c'⟩
  · exact ⟨.finished, .inr rfl, fun c' => reader_setReader_of_lt _ hc _ c'⟩

theorem forward_intercepted (s : UnixRelay) (c : Nat) (data : Report) :
    (s.forward c data).intercepted = s.intercepted ++ [.new .deviceToHost data none] := by
  rw [forward]
  split <;> rfl

end UnixRelay

variable {read : Nat → List UInt8} {datagrams blocks : List (Nat × Report)}

theorem Forwarded.start : Forwarded kind reportSize (fun _ => []) [] [] .start := by
  refine ⟨.spawn, ?_, rfl, ?_, fun _ => rfl⟩
  · intro b hb
    cases hb
  · intro _ c
    exact ⟨rfl, rfl⟩

/-- No read task hands anything on. -/
theorem Forwarded.still (hs : Forwarded kind reportSize read datagrams blocks s)
    (hthread : s'.thread.Carries (blocks.map (·.2)))
    (hmessages : messages .deviceToHost s'.intercepted = messages .deviceToHost s.intercepted)
    (hreader : ∀ c, s'.reader c = s.reader c) :
    Forwarded kind reportSize read datagrams blocks s' := by
  refine ⟨hthread, hs.sized, hmessages.trans hs.deviceMessages, ?_, hs.dgram⟩
  intro hkind c
  rw [hreader c]
  exact hs.stream hkind c

/-- One read task goes on without handing anything on. -/
theorem Forwarded.setReader (hs : Forwarded kind reportSize read datagrams blocks s) {c : Nat}
    {reader : UnixReader} {read' : Nat → List UInt8} {datagrams' : List (Nat × Report)}
    (hc : c < s.conns.length) (hread : ∀ c', c' ≠ c → read' c' = read c')
    (hcut : kind = .stream → CutFrom reportSize (read' c) (ofConn c blocks) reader)
    (hdgram : kind = .dgram → datagrams' = datagrams) :
    Forwarded kind reportSize read' datagrams' blocks (s.setReader c reader) := by
  refine ⟨hs.toDevice, hs.sized, hs.deviceMessages, ?_, ?_⟩
  · intro hkind c'
    rw [s.reader_setReader_of_lt hc]
    by_cases hcc : c' = c
    · rw [if_pos hcc, hcc]
      exact hcut hkind
    · rw [if_neg hcc, hread c' hcc]
      exact hs.stream hkind c'
  · intro hkind
    rw [hs.dgram hkind, hdgram hkind]

/-- A read task hands on a report. -/
theorem Forwarded.forward (hs : Forwarded kind reportSize read datagrams blocks s) {c : Nat}
    {data : Report} {read' : Nat → List UInt8} {datagrams' : List (Nat × Report)}
    (hc : c < s.conns.length) (hsize : data.length = reportSize)
    (hread : ∀ c', c' ≠ c → read' c' = read c')
    (hcut : kind = .stream → read' c = (ofConn c (blocks ++ [(c, data)])).flatten)
    (hdgram : kind = .dgram → datagrams' = datagrams ++ [(c, data)]) :
    Forwarded kind reportSize read' datagrams' (blocks ++ [(c, data)]) (s.forward c data) := by
  refine ⟨?_, ?_, ?_, ?_, ?_⟩
  · rw [UnixRelay.forward_thread, List.map_append]
    exact hs.toDevice.push data
  · intro b hb
    rcases List.mem_append.1 hb with hb | hb
    · exact hs.sized b hb
    · rw [List.mem_singleton.1 hb]
      exact hsize
  · rw [UnixRelay.forward_intercepted, messages_concat, if_pos rfl, hs.deviceMessages,
      List.map_append]
    rfl
  · intro hkind c'
    obtain ⟨reader, hnext, hreader⟩ := s.reader_forward_of_lt hc data
    rw [hreader]
    by_cases hcc : c' = c
    · subst hcc
      rw [if_pos rfl]
      have hread' := hcut hkind
      rcases hnext with rfl | rfl
      · exact ⟨by rw [hread', List.append_nil], id⟩
      · exact ⟨[], by rw [hread', List.append_nil], id⟩
    · have hother : ofConn c' (blocks ++ [(c, data)]) = ofConn c' blocks := by
        rw [ofConn, List.filter_append]
        simp [ofConn, Ne.symm hcc]
      rw [if_neg hcc, hread c' hcc, hother]
      exact hs.stream hkind c'
  · intro hkind
    rw [hs.dgram hkind, hdgram hkind]

theorem padded_length (size : Nat) (data : List UInt8) : (padded size data).length = size := by
  rw [padded, List.rightpad, List.length_append, List.length_replicate, List.length_take]
  omega

/-- Only a read reads. -/
theorem readFrom_single (c c' : Nat) (data : List UInt8) :
    UnixAct.readFrom c' [.reads c data] = if c = c' then data else [] := by
  simp [UnixAct.readFrom]

theorem UnixSteps.forwarded (h : UnixSteps kind reportSize s a s') (hlate : s.SpawnsLate)
    (hs : Forwarded kind reportSize read datagrams blocks s) :
    ∃ blocks', Forwarded kind reportSize (fun c => read c ++ UnixAct.readFrom c [a])
      (datagrams ++ UnixAct.datagrams reportSize [a]) blocks' s' := by
  have hnothing : (∀ c data, a ≠ .reads c data) →
      (fun c => read c ++ UnixAct.readFrom c [a]) = read ∧
        datagrams ++ UnixAct.datagrams reportSize [a] = datagrams := by
    intro hno
    cases a with
    | reads c data => exact absurd rfl (hno c data)
    | _ => exact ⟨funext fun c => List.append_nil _, List.append_nil _⟩
  have hother : ∀ c data c', c' ≠ c → read c' ++ UnixAct.readFrom c' [.reads c data] = read c' := by
    intro c data c' hcc
    rw [readFrom_single, if_neg (Ne.symm hcc), List.append_nil]
  have hself : ∀ c data, read c ++ UnixAct.readFrom c [.reads c data] = read c ++ data := by
    intro c data
    rw [readFrom_single, if_pos rfl]
  cases h with
  | thread h =>
    obtain ⟨hread, hdgram⟩ := hnothing (by simp)
    rw [hread, hdgram]
    exact ⟨blocks, hs.still (hs.toDevice.step h) rfl fun _ => rfl⟩
  | takeFirst | connectFails | firstFails | writeFails | closed | shutdown | written | looks =>
    obtain ⟨hread, hdgram⟩ := hnothing (by simp)
    rw [hread, hdgram]
    exact ⟨blocks, hs.still ⟨hs.toDevice.before, hs.toDevice.whole⟩ rfl fun _ => rfl⟩
  | takeNext =>
    obtain ⟨hread, hdgram⟩ := hnothing (by simp)
    rw [hread, hdgram]
    refine ⟨blocks, hs.still ⟨hs.toDevice.before, hs.toDevice.whole⟩ ?_ fun _ => rfl⟩
    refine messages_concat.trans ?_
    rw [if_neg (by simp), List.append_nil]
  | connects =>
    obtain ⟨hread, hdgram⟩ := hnothing (by simp)
    rw [hread, hdgram]
    refine ⟨blocks, hs.still ⟨hs.toDevice.before, hs.toDevice.whole⟩ ?_ fun c => ?_⟩
    · refine messages_concat.trans ?_
      rw [if_neg (by simp), List.append_nil]
    · exact s.reader_connects true c
  | emulatorCloses =>
    obtain ⟨hread, hdgram⟩ := hnothing (by simp)
    rw [hread, hdgram]
    exact ⟨blocks, hs.still hs.toDevice rfl fun c => s.reader_modify fun _ => rfl⟩
  | @firstWritten c first h hopen =>
    -- the first read of a connection comes after the first write
    obtain ⟨hread, hdgram⟩ := hnothing (by simp)
    rw [hread, hdgram]
    have hcut : kind = .stream → CutFrom reportSize (read c) (ofConn c blocks) (.reading []) := by
      intro hkind
      have hbefore := hs.stream hkind c
      rw [hlate c first h] at hbefore
      exact ⟨by rw [hbefore.1, hbefore.2]; rfl, id⟩
    have hset := hs.setReader (UnixRelay.lt_of_peerOpen hopen) (fun _ _ => rfl) hcut fun _ => rfl
    exact ⟨blocks, hset.still hset.toDevice rfl fun _ => rfl⟩
  | @fills c filled data hkind h hroom =>
    refine ⟨blocks, hs.setReader (UnixRelay.lt_of_reading h) (hother c data) ?_ ?_⟩
    · intro _
      have hcut := hs.stream hkind c
      rw [h] at hcut
      rw [hself c data, hcut.1, List.append_assoc]
      exact ⟨rfl, fun _ => hroom⟩
    · intro hdgram
      rw [hkind] at hdgram
      cases hdgram
  | @block c filled data hkind h hfull =>
    refine ⟨blocks ++ [(c, filled ++ data)],
      hs.forward (UnixRelay.lt_of_reading h) hfull (hother c data) ?_ ?_⟩
    · intro _
      have hcut := hs.stream hkind c
      rw [h] at hcut
      have hblocks : ofConn c (blocks ++ [(c, filled ++ data)]) =
          ofConn c blocks ++ [filled ++ data] := by
        rw [ofConn, List.filter_append, List.map_append]
        simp [ofConn]
      rw [hself c data, hcut.1, hblocks, List.flatten_append, List.append_assoc]
      exact congrArg _ (List.append_nil _).symm
    · intro hdgram
      rw [hkind] at hdgram
      cases hdgram
  | @datagram c filled data hkind h =>
    refine ⟨blocks ++ [(c, padded reportSize data)],
      hs.forward (UnixRelay.lt_of_reading h) (padded_length reportSize data) (hother c data) ?_
        fun _ => rfl⟩
    intro hstream
    rw [hkind] at hstream
    cases hstream
  | @readEnds c filled h =>
    obtain ⟨hread, hdgram⟩ := hnothing (by simp)
    rw [hread, hdgram]
    refine ⟨blocks, hs.setReader (UnixRelay.lt_of_reading h) (fun _ _ => rfl) ?_ fun _ => rfl⟩
    intro hkind
    have hcut := hs.stream hkind c
    rw [h] at hcut
    exact ⟨filled, hcut⟩

/-! ## The host's reports -/

/-- Every report that was taken is announced once, in its turn, but for one whose connection is not
made. -/
structure Announced (s : UnixRelay) : Prop where
  before : messages .hostToDevice s.intercepted <+: s.taken.map fun r => .new .hostToDevice r none
  whole : s.task ≠ .returned → messages .hostToDevice s.intercepted ++
    s.task.unannounced.map (fun r => .new .hostToDevice r none) =
      s.taken.map fun r => .new .hostToDevice r none

theorem Announced.start : Announced .start := ⟨List.prefix_refl _, fun _ => rfl⟩

/-- Everything that was taken is announced, and stays so while no other report is taken. -/
theorem Announced.still (hs : Announced s) (htask : s.task ≠ .returned)
    (hnone : s.task.unannounced = []) (htaken : s'.taken = s.taken)
    (hmessages : messages .hostToDevice s'.intercepted = messages .hostToDevice s.intercepted)
    (hnone' : s'.task.unannounced = []) : Announced s' := by
  have hall := hs.whole htask
  rw [hnone, List.map_nil, List.append_nil] at hall
  refine ⟨?_, fun _ => ?_⟩
  · rw [hmessages, htaken]
    exact hs.before
  · rw [hmessages, htaken, hnone', List.map_nil, List.append_nil]
    exact hall

/-- The task stays where it is, and nothing is said about the host's reports. -/
theorem Announced.same (hs : Announced s) (htask : s'.task = s.task) (htaken : s'.taken = s.taken)
    (hmessages : messages .hostToDevice s'.intercepted = messages .hostToDevice s.intercepted) :
    Announced s' := by
  refine ⟨?_, ?_⟩
  · rw [hmessages, htaken]
    exact hs.before
  · rw [hmessages, htaken, htask]
    exact hs.whole

end Hwwctl.Bridge
