import CharcoalOS.Kernel.Reading

/-!
# Editing a line

`edit` is what the characters typed come to. `readLineStep_edits` is one iteration of
`console_read_line` over it, `readLoop_edits` are the iterations over all characters that are
processed before the line ends or the buffer is full, and `line_editing` is the call.
-/

namespace CharcoalOS.Kernel

open Effect Effect.Program

/-- A backspace or DEL. -/
def IsErase (c : UInt8) : Prop := c = 8 ∨ c = 127

/-- A CR or LF. -/
def IsEnd (c : UInt8) : Prop := c = 10 ∨ c = 13

instance (c : UInt8) : Decidable (IsErase c) := inferInstanceAs (Decidable (_ ∨ _))

instance (c : UInt8) : Decidable (IsEnd c) := inferInstanceAs (Decidable (_ ∨ _))

/-- One character removes the last one, if there is one, or is appended. -/
def editStep (line : List UInt8) (c : UInt8) : List UInt8 :=
  if IsErase c then line.dropLast else line ++ [c]

/-- The edited line. -/
def edit (cs : List UInt8) : List UInt8 := cs.foldl editStep []

/-- What is echoed of a character. -/
def echoed (line : List UInt8) (c : UInt8) : List UInt8 :=
  if IsErase c then if line = [] then [] else [8, 32, 8] else [c]

/-- The events of processing `cs` after `line`. -/
def editEvents (echo : Bool) : List UInt8 → List UInt8 → List Event
  | _, [] => []
  | line, c :: cs =>
      .getc c :: ((if echo then (echoed line c).map .putc else []) ++
        editEvents echo (editStep line c) cs)

/-- The buffer holds the line, and nothing from `size` on has changed. -/
structure Holds (before : List UInt8) (size : ℕ) (line text : List UInt8) : Prop where
  length : text.length = before.length
  line : text.take line.length = line
  kept : text.drop size = before.drop size

variable {before text line cs rest : List UInt8} {size : ℕ} {c : UInt8} {s : State}

/-! ## One iteration -/

theorem not_end_of_erase (erase : c = 8 ∨ c = 127) : ¬ (c = 10 ∨ c = 13) := by
  rcases erase with rfl | rfl
  · decide
  · decide

theorem readLineStep_erase (echo : Bool) {i : ℕ} (room : i + 1 < size) (erase : c = 8 ∨ c = 127)
    (some_ : 0 < i) (received : s.received = c :: rest) :
    (readLineStep size echo text i).run s = ⟨.ok (.next (text, i - 1)),
      { s with received := rest },
      .getc c :: if echo then [.putc 8, .putc 32, .putc 8] else []⟩ := by
  rw [readLineStep, if_pos room, Code.run_bind, bind_ok (run_consoleGetc received),
    if_neg (not_end_of_erase erase), if_pos erase, if_neg (Nat.ne_of_gt some_)]
  cases echo <;> rfl

/-- At the start of the line nothing is removed, written or echoed. -/
theorem readLineStep_floor (echo : Bool) (room : 1 < size) (erase : c = 8 ∨ c = 127)
    (received : s.received = c :: rest) :
    (readLineStep size echo text 0).run s =
      ⟨.ok (.next (text, 0)), { s with received := rest }, [.getc c]⟩ := by
  rw [readLineStep, if_pos (by omega), Code.run_bind, bind_ok (run_consoleGetc received),
    if_neg (not_end_of_erase erase), if_pos erase, if_pos rfl]
  rfl

theorem Holds.set (holds : Holds before size line text) (room : line.length < size)
    (inside : size ≤ text.length) (c : UInt8) :
    (text.set line.length c).length = before.length ∧
      (text.set line.length c).take (line.length + 1) = line ++ [c] ∧
      (text.set line.length c).drop size = before.drop size := by
  refine ⟨by rw [List.length_set, holds.length], ?_, ?_⟩
  · rw [List.take_succ_eq_append_getElem (by rw [List.length_set]; omega), List.getElem_set_self,
      List.take_set_of_le le_rfl, holds.line]
  · rw [List.drop_set_of_lt room, holds.kept]

/-- **One character** is processed as `editStep` says. -/
theorem readLineStep_edits (echo : Bool) (holds : Holds before size line text)
    (room : line.length + 1 < size) (inside : size ≤ text.length) (other : ¬ IsEnd c)
    (received : s.received = c :: rest) :
    ∃ text', (readLineStep size echo text line.length).run s =
        ⟨.ok (.next (text', (editStep line c).length)), { s with received := rest },
          .getc c :: if echo then (echoed line c).map .putc else []⟩ ∧
      Holds before size (editStep line c) text' := by
  by_cases erase : IsErase c
  · rw [editStep, if_pos erase, echoed, if_pos erase]
    rcases List.eq_nil_or_concat line with rfl | ⟨init, d, rfl⟩
    · refine ⟨text, ?_, holds⟩
      rw [if_pos rfl, List.map_nil, ite_self]
      exact readLineStep_floor echo (by simpa using room) erase received
    · rw [List.concat_eq_append] at holds room ⊢
      refine ⟨text, ?_, holds.length, ?_, holds.kept⟩
      · have some_ : init ++ [d] ≠ [] := by simp
        have one : (init ++ [d]).length - 1 = init.length := by simp
        rw [readLineStep_erase echo room erase (by simp) received, if_neg some_,
          List.dropLast_concat, one]
        rfl
      · have front := congrArg (List.take init.length) holds.line
        rw [List.take_take, List.length_append, Nat.min_eq_left (Nat.le_add_right _ _),
          List.take_left] at front
        rw [List.dropLast_concat, front]
  · rw [editStep, if_neg erase, echoed, if_neg erase]
    obtain ⟨length, stored, kept⟩ := holds.set (by omega) inside c
    have plain : IsPlain c := ⟨not_or.mp other, not_or.mp erase⟩
    refine ⟨text.set line.length c, ?_, length, ?_, kept⟩
    · rw [List.length_append, List.length_singleton]
      exact readLineStep_plain echo room (by omega) plain received
    · rw [List.length_append, List.length_singleton, stored]

/-! ## All characters that are processed -/

/-- None of the characters ends the line, and there is room for each after those before. -/
def Processed (size : ℕ) : List UInt8 → List UInt8 → Prop
  | _, [] => True
  | line, c :: cs => (line.length + 1 < size ∧ ¬ IsEnd c) ∧ Processed size (editStep line c) cs

theorem readLoop_edits (echo : Bool) (holds : Holds before size line text)
    (inside : size ≤ before.length) (processed : Processed size line cs) (fuel : ℕ)
    (received : s.received = cs ++ rest) :
    ∃ text', (readLoop size echo (cs.length + fuel) (text, line.length)).run s =
        ((readLoop size echo fuel (text', (cs.foldl editStep line).length)).run
          { s with received := rest }).after (editEvents echo line cs) ∧
      Holds before size (cs.foldl editStep line) text' := by
  induction cs generalizing line text s with
  | nil =>
      refine ⟨text, ?_, holds⟩
      rw [List.length_nil, Nat.zero_add, ← show s.received = rest from received]
      rfl
  | cons c cs ih =>
      obtain ⟨⟨room, other⟩, processed⟩ := processed
      obtain ⟨text', step, holds'⟩ :=
        readLineStep_edits echo holds room (by rwa [holds.length]) other
          (show s.received = c :: (cs ++ rest) from received)
      obtain ⟨text'', later, holds''⟩ := ih holds' processed
        (s := { s with received := cs ++ rest }) rfl
      refine ⟨text'', ?_, holds''⟩
      rw [readLoop] at later
      rw [List.length_cons, Nat.succ_add, readLoop, Code.run_loop_next step, later, editEvents]
      simp only [Result.after, List.append_assoc, List.cons_append, readLoop]
      rfl

/-- Every input is characters that are processed, and then the buffer is full, the line ends, or
there is nothing left to read. -/
theorem exists_processed (size : ℕ) (line cs : List UInt8) :
    ∃ p rest, cs = p ++ rest ∧ Processed size line p ∧
      (size ≤ (p.foldl editStep line).length + 1 ∨
        (p.foldl editStep line).length + 1 < size ∧
          (rest = [] ∨ ∃ c rest', rest = c :: rest' ∧ IsEnd c)) := by
  induction cs generalizing line with
  | nil =>
      refine ⟨[], [], rfl, trivial, ?_⟩
      exact (Nat.lt_or_ge (line.length + 1) size).symm.imp_right fun room => ⟨room, Or.inl rfl⟩
  | cons c cs ih =>
      rcases Nat.lt_or_ge (line.length + 1) size with room | full
      · by_cases ends : IsEnd c
        · exact ⟨[], c :: cs, rfl, trivial, Or.inr ⟨room, Or.inr ⟨c, cs, rfl, ends⟩⟩⟩
        · obtain ⟨p, rest, rfl, processed, stop⟩ := ih (editStep line c)
          exact ⟨c :: p, rest, rfl, ⟨⟨room, ends⟩, processed⟩, stop⟩
      · exact ⟨[], c :: cs, rfl, trivial, Or.inl full⟩

/-! ## The call -/

/-- The characters end with a CR or LF, or the edited line fills the buffer. -/
def Stops (size : ℕ) (cs : List UInt8) : Prop :=
  (∃ c, cs.getLast? = some c ∧ IsEnd c) ∨ size ≤ (edit cs).length + 1

/-- The characters without the CR or LF. -/
def withoutEnd (cs : List UInt8) : List UInt8 := cs.filter fun c => ¬ IsEnd c

/-- What `console_read_line` has done once it returns `text`, after reading `consumed`. -/
structure LineRead (size : ℕ) (before : List UInt8) (s : State) (consumed rest text : List UInt8)
    (evs : List Event) : Prop where
  input : s.received = consumed ++ rest
  reads : reads evs = consumed
  stops : Stops size consumed
  /-- No shorter input would have been enough. -/
  shortest : ∀ q, q <+: consumed → q ≠ consumed → ¬ Stops size q
  line : text.take ((edit (withoutEnd consumed)).length + 1) = edit (withoutEnd consumed) ++ [0]
  fits : (edit (withoutEnd consumed)).length < size
  length : text.length = before.length
  kept : text.drop size = before.drop size

theorem Processed.room {line q r : List UInt8} (processed : Processed size line (q ++ c :: r)) :
    (q.foldl editStep line).length + 1 < size ∧ ¬ IsEnd c := by
  induction q generalizing line with
  | nil => exact processed.1
  | cons d q ih => exact ih processed.2

theorem Processed.not_isEnd {line p : List UInt8} (processed : Processed size line p) :
    ∀ c ∈ p, ¬ IsEnd c := by
  intro c member
  obtain ⟨q, r, rfl⟩ := List.append_of_mem member
  exact processed.room.2

theorem Processed.withoutEnd {line p : List UInt8} (processed : Processed size line p) :
    withoutEnd p = p :=
  List.filter_eq_self.mpr fun c member => decide_eq_true (processed.not_isEnd c member)

theorem length_editStep (line : List UInt8) (c : UInt8) :
    (editStep line c).length ≤ line.length + 1 := by
  rw [editStep]
  split
  · rw [List.length_dropLast]
    omega
  · rw [List.length_append, List.length_singleton]

theorem Processed.lt {line p : List UInt8} (processed : Processed size line p)
    (less : line.length < size) : (p.foldl editStep line).length < size := by
  induction p generalizing line with
  | nil => exact less
  | cons c p ih => exact ih processed.2 ((length_editStep line c).trans_lt processed.1.1)

/-- Characters that are processed do not stop the reading before the last. -/
theorem Processed.not_stops {p q : List UInt8} (processed : Processed size [] p) (front : q <+: p)
    (room : q ≠ p ∨ (edit p).length + 1 < size) : ¬ Stops size q := by
  have more : (edit q).length + 1 < size := by
    obtain ⟨r, rfl⟩ := front
    rcases r with _ | ⟨c, r⟩
    · rw [List.append_nil] at room
      exact room.resolve_left (not_not.mpr rfl)
    · exact processed.room.1
  rintro (⟨c, last, ends⟩ | full)
  · exact processed.not_isEnd c (front.subset (List.mem_of_getLast? last)) ends
  · omega

theorem reads_editEvents (echo : Bool) (line cs : List UInt8) :
    reads (editEvents echo line cs) = cs := by
  induction cs generalizing line with
  | nil => rfl
  | cons c cs ih =>
      have silent : reads (if echo then (echoed line c).map .putc else []) = [] := by
        refine reads_eq_nil fun e member => ?_
        split at member
        · obtain ⟨d, -, rfl⟩ := List.mem_map.mp member
          exact not_false
        · cases member
      rw [editEvents]
      show c :: reads _ = _
      rw [reads_append, silent, ih, List.nil_append]

/-- The loop of the call, from the first index on. -/
theorem run_consoleReadLine (echo : Bool) (some_ : 1 ≤ size) (s : State) :
    (consoleReadLine before size echo).run s =
      (readLoop size echo (s.received.length + 1) (before, 0)).run s := by
  rw [consoleReadLine, if_neg (Nat.ne_of_gt some_), Code.run_bind]
  rfl

/-- After the characters that are processed, the loop is at the index behind the line. -/
theorem consoleReadLine_processed (echo : Bool) (some_ : 1 ≤ size)
    (inside : size ≤ before.length) (processed : Processed size [] cs)
    (received : s.received = cs ++ rest) :
    ∃ text', (consoleReadLine before size echo).run s =
        ((readLoop size echo (rest.length + 1) (text', (edit cs).length)).run
          { s with received := rest }).after (editEvents echo [] cs) ∧
      Holds before size (edit cs) text' := by
  have empty : Holds before size [] before := ⟨rfl, rfl, rfl⟩
  obtain ⟨text', run, holds⟩ :=
    readLoop_edits echo empty inside processed (rest.length + 1) received
  refine ⟨text', ?_, holds⟩
  rw [run_consoleReadLine echo some_, received, List.length_append, Nat.add_assoc]
  exact run

theorem Holds.lineRead {line : List UInt8} {consumed : List UInt8} {evs : List Event}
    (holds : Holds before size line text) (less : line.length < size)
    (inside : size ≤ before.length) (input : s.received = consumed ++ rest)
    (read : reads evs = consumed) (stops : Stops size consumed)
    (shortest : ∀ q, q <+: consumed → q ≠ consumed → ¬ Stops size q)
    (edited : edit (withoutEnd consumed) = line) :
    LineRead size before s consumed rest (text.set line.length 0) evs := by
  obtain ⟨length, stored, kept⟩ := holds.set less (by rwa [holds.length]) 0
  refine ⟨input, read, stops, shortest, ?_, ?_, length, kept⟩
  · rw [edited, stored]
  · rwa [edited]

/-- **The call** reads a line, or waits for more input than there is. -/
theorem consoleReadLine_cases (echo : Bool) (some_ : 1 ≤ size) (inside : size ≤ before.length)
    (s : State) :
    (∃ consumed rest text evs, (consoleReadLine before size echo).run s =
        ⟨.ok text, { s with received := rest }, evs⟩ ∧
      LineRead size before s consumed rest text evs) ∨
    ((consoleReadLine before size echo).run s).outcome = .error .waiting ∧
      ∀ q, q <+: s.received → ¬ Stops size q := by
  obtain ⟨p, rest, received, processed, stop⟩ := exists_processed size [] s.received
  obtain ⟨text, run, holds⟩ := consoleReadLine_processed echo some_ inside processed received
  have less : (edit p).length < size := processed.lt some_
  have here : (edit p).length < text.length := by
    rw [holds.length]
    omega
  rcases stop with full | ⟨room, rfl | ⟨c, rest', rfl, ends⟩⟩
  · have last := readLineStep_full echo (s := { s with received := rest }) full here
    refine Or.inl ⟨p, rest, text.set (edit p).length 0, editEvents echo [] p ++ [], ?_,
      holds.lineRead less inside received ?_ (Or.inr full) ?_ ?_⟩
    · rw [run, readLoop, Code.run_loop_done last]
      rfl
    · rw [List.append_nil, reads_editEvents]
    · exact fun q front shorter => processed.not_stops front (Or.inl shorter)
    · rw [processed.withoutEnd]
  · have last : (readLineStep size echo text (edit p).length).run { s with received := [] } = _ :=
      readLineStep_waiting echo room rfl
    refine Or.inr ⟨?_, fun q front => ?_⟩
    · rw [run, readLoop, Code.run_loop_error last]
      rfl
    · rw [received, List.append_nil] at front
      exact processed.not_stops front (Or.inr room)
  · have last := readLineStep_end echo (s := { s with received := c :: rest' }) room here ends rfl
    have input : s.received = (p ++ [c]) ++ rest' := by rw [received, List.append_assoc]; rfl
    refine Or.inl ⟨p ++ [c], rest', text.set (edit p).length 0,
      editEvents echo [] p ++ .getc c :: if echo then [.putc 13, .putc 10] else [], ?_,
      holds.lineRead less inside input ?_ (Or.inl ⟨c, by simp, ends⟩) ?_ ?_⟩
    · rw [run, readLoop, Code.run_loop_done last]
      rfl
    · rw [reads_append, reads_editEvents]
      cases echo <;> rfl
    · intro q front shorter
      refine processed.not_stops ?_ (Or.inr room)
      rcases List.prefix_concat_iff.mp front with rfl | front
      · exact absurd rfl shorter
      · exact front
    · rw [withoutEnd, List.filter_append, ← withoutEnd, processed.withoutEnd,
        List.filter_singleton]
      simp [ends]

/-- **Line editing computes the edited line**: a call returns if what is received ends a line or
fills the buffer, stores the edited line of what it has read and a terminator, leaves the rest of
both alone, and never stores outside. -/
theorem line_editing (echo : Bool) (some_ : 1 ≤ size) (inside : size ≤ before.length)
    (s : State) :
    (∀ text s' evs, (consoleReadLine before size echo).run s = ⟨.ok text, s', evs⟩ →
      ∃ consumed rest, s' = { s with received := rest } ∧
        LineRead size before s consumed rest text evs) ∧
    -- it returns if there is enough input, and otherwise waits for more
    ((∃ q, q <+: s.received ∧ Stops size q) →
      ∃ text, ((consoleReadLine before size echo).run s).outcome = .ok text) ∧
    ((consoleReadLine before size echo).run s).outcome ≠ .error .outOfBounds ∧
    -- a backspace or DEL on an empty line
    ∀ c rest text, 1 < size → s.received = c :: rest → IsErase c →
      (readLineStep size echo text 0).run s =
        ⟨.ok (.next (text, 0)), { s with received := rest }, [.getc c]⟩ := by
  refine ⟨?_, ?_, ?_, fun c rest text room received erase =>
    readLineStep_floor echo room erase received⟩
  · intro text s' evs run
    rcases consoleReadLine_cases echo some_ inside s with
      ⟨consumed, rest, text', evs', run', read⟩ | waits
    · rw [run'] at run
      cases run
      exact ⟨consumed, rest, rfl, read⟩
    · rw [run] at waits
      cases waits.1
  · rintro ⟨q, front, stops⟩
    rcases consoleReadLine_cases echo some_ inside s with ⟨_, _, text, _, run, -⟩ | waits
    · exact ⟨text, by rw [run]⟩
    · exact absurd stops (waits.2 q front)
  · rcases consoleReadLine_cases echo some_ inside s with ⟨_, _, text, _, run, -⟩ | waits
    · rw [run]
      simp
    · rw [waits.1]
      simp

/-- `ab`, both erased and one erase more, then `c` and a CR: 4 bytes are enough. -/
theorem line_editing_erased :
    ∃ consumed rest, State.boot [10] = { State.boot [97, 98, 127, 8, 8, 99, 13, 10] with
        received := rest } ∧
      LineRead 4 [7, 7, 7, 7, 7] (State.boot [97, 98, 127, 8, 8, 99, 13, 10]) consumed rest
        [99, 0, 7, 7, 7]
        [.getc 97, .getc 98, .getc 127, .getc 8, .getc 8, .getc 99, .getc 13] :=
  (line_editing false (by decide) (by decide) _).1 _ _ _ rfl

end CharcoalOS.Kernel
