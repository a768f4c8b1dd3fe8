import CharcoalOS.Kernel.Handlers

/-!
# What reading a line does

`readLineStep_plain`, `readLineStep_end`, `readLineStep_full` and `readLineStep_waiting` are the
iterations of `console_read_line`; over a run of plain characters they add up to
`readLoop_plain`. So a line that leaves room for its terminator is read to its end, and one
that does not is read as far as the buffer goes.
-/

namespace CharcoalOS.Kernel

open Effect Effect.Program

/-- Not the end of a line, and not a character that removes another. -/
def IsPlain (c : UInt8) : Prop := (c ≠ 10 ∧ c ≠ 13) ∧ c ≠ 8 ∧ c ≠ 127

instance (c : UInt8) : Decidable (IsPlain c) := inferInstanceAs (Decidable ((_ ∧ _) ∧ _ ∧ _))

def readChar : Event → Option UInt8
  | .getc c => some c
  | _ => none

def dispatchedCommand : Event → Option (List UInt8)
  | .dispatch command => some command
  | _ => none

/-- The characters read, in order. -/
def reads (evs : List Event) : List UInt8 := evs.filterMap readChar

/-- The commands dispatched, in order. -/
def dispatches (evs : List Event) : List (List UInt8) := evs.filterMap dispatchedCommand

section Projections

variable {evs evs' : List Event}

@[simp] theorem reads_append : reads (evs ++ evs') = reads evs ++ reads evs' :=
  List.filterMap_append

@[simp] theorem dispatches_append : dispatches (evs ++ evs') = dispatches evs ++ dispatches evs' :=
  List.filterMap_append

theorem reads_eq_nil (none : ∀ e ∈ evs, ¬ IsInput e) : reads evs = [] := by
  refine List.filterMap_eq_nil_iff.mpr fun e member => ?_
  have other := none e member
  cases e <;> first | rfl | exact (other trivial).elim

theorem dispatches_eq_nil (none : ∀ e ∈ evs, ¬ IsInput e) : dispatches evs = [] := by
  refine List.filterMap_eq_nil_iff.mpr fun e member => ?_
  have other := none e member
  cases e <;> first | rfl | exact (other trivial).elim

end Projections

/-! ## One iteration -/

section Step

variable {size : Nat} (echo : Bool) {text : List UInt8} {i : Nat} {c : UInt8} {line : List UInt8}
  {s : State}

theorem run_consoleGetc (received : s.received = c :: line) :
    consoleGetc.run s = ⟨.ok c, { s with received := line }, [.getc c]⟩ := by
  rw [consoleGetc, platformConsoleGetc, Code.run_step, received]
  rfl

theorem storeChar_inside (inside : i < text.length) : storeChar text i c = pure (text.set i c) :=
  if_pos inside

theorem readLineStep_plain (room : i + 1 < size) (inside : i < text.length) (plain : IsPlain c)
    (received : s.received = c :: line) :
    (readLineStep size echo text i).run s = ⟨.ok (.next (text.set i c, i + 1)),
      { s with received := line }, .getc c :: if echo then [.putc c] else []⟩ := by
  rw [readLineStep, if_pos room, Code.run_bind, bind_ok (run_consoleGetc received),
    if_neg (not_or.mpr plain.1), if_neg (not_or.mpr plain.2), storeChar_inside inside]
  cases echo <;> rfl

theorem readLineStep_end (room : i + 1 < size) (inside : i < text.length)
    (ends : c = 10 ∨ c = 13) (received : s.received = c :: line) :
    (readLineStep size echo text i).run s = ⟨.ok (.done (text.set i 0)),
      { s with received := line }, .getc c :: if echo then [.putc 13, .putc 10] else []⟩ := by
  rw [readLineStep, if_pos room, Code.run_bind, bind_ok (run_consoleGetc received), if_pos ends,
    storeChar_inside inside]
  cases echo <;> rfl

theorem readLineStep_full (full : size ≤ i + 1) (inside : i < text.length) :
    (readLineStep size echo text i).run s = ⟨.ok (.done (text.set i 0)), s, []⟩ := by
  rw [readLineStep, if_neg (Nat.not_lt.mpr full), storeChar_inside inside]
  rfl

theorem readLineStep_waiting (room : i + 1 < size) (received : s.received = []) :
    (readLineStep size echo text i).run s = ⟨.error .waiting, s, []⟩ := by
  have get : consoleGetc.run s = ⟨.error .waiting, s, []⟩ := by
    obtain ⟨_, progress, ticks⟩ := s
    cases received
    rfl
  rw [readLineStep, if_pos room, Code.run_bind, bind_error get]

end Step

/-! ## A run of plain characters -/

/-- The loop of `console_read_line`. -/
def readLoop (size : Nat) (echo : Bool) (fuel : Nat) (b : List UInt8 × Nat) :
    Routine (List UInt8) :=
  Code.loop .exhausted (fun b => readLineStep size echo b.1 b.2) fuel b

variable {size : Nat} (echo : Bool) {cs line : List UInt8} {s : State}

/-- Plain characters are stored one after the other, as long as there is room. -/
theorem readLoop_plain (plain : ∀ c ∈ cs, IsPlain c) (fuel i : Nat) (text : List UInt8)
    (length : text.length = size) (room : i + cs.length < size)
    (received : s.received = cs ++ line) :
    ∃ text' evs, (readLoop size echo (cs.length + fuel) (text, i)).run s =
        ((readLoop size echo fuel (text', i + cs.length)).run
          { s with received := line }).after evs ∧
      text'.length = size ∧ text'.take (i + cs.length) = text.take i ++ cs ∧
      reads evs = cs ∧ dispatches evs = [] := by
  induction cs generalizing i text s with
  | nil =>
      refine ⟨text, [], ?_, length, by simp, rfl, rfl⟩
      rw [List.length_nil, Nat.zero_add, Nat.add_zero, ← show s.received = line from received]
      rfl
  | cons c cs ih =>
      obtain ⟨first, plain⟩ := List.forall_mem_cons.mp plain
      rw [List.length_cons] at room
      have inside : i < text.length := by omega
      obtain ⟨text', evs, run, length', stored, read, dispatched⟩ := ih
        (s := { s with received := cs ++ line }) plain (i + 1) (text.set i c)
        (by rw [List.length_set, length]) (by omega) rfl
      have front : s.received = c :: (cs ++ line) := received
      have iteration := readLineStep_plain echo (show i + 1 < size by omega) inside first front
      refine ⟨text', (.getc c :: if echo then [.putc c] else []) ++ evs, ?_, length', ?_, ?_, ?_⟩
      · rw [List.length_cons, Nat.succ_add, readLoop, Code.run_loop_next iteration]
        rw [readLoop] at run
        rw [run, Nat.add_comm cs.length 1, ← Nat.add_assoc]
        simp only [Result.after, List.append_assoc, readLoop]
      · rw [List.length_cons, Nat.add_comm cs.length 1, ← Nat.add_assoc, stored,
          List.take_succ_eq_append_getElem (by rw [List.length_set]; exact inside),
          List.getElem_set_self, List.take_set_of_le (Nat.le_refl i), List.append_assoc]
        rfl
      · rw [reads_append, read]
        cases echo <;> rfl
      · rw [dispatches_append, dispatched]
        cases echo <;> rfl

/-- What a buffer reads as, once the terminator is stored. -/
theorem readsAs_set {text : List UInt8} (clean : 0 ∉ cs) (stored : text.take cs.length = cs)
    (inside : cs.length < text.length) : ReadsAs cs (text.set cs.length 0) := by
  refine ⟨clean, text.drop (cs.length + 1), ?_⟩
  rw [List.set_eq_take_append_cons_drop, if_pos inside, stored]

/-! ## A line -/

/-- A line with its terminator, if there is room for it. -/
theorem consoleReadLine_line {text : List UInt8} {c : UInt8} (plain : ∀ c ∈ cs, IsPlain c)
    (clean : 0 ∉ cs) (length : text.length = size) (room : cs.length + 1 < size)
    (ends : c = 10 ∨ c = 13) (received : s.received = cs ++ c :: line) :
    ∃ text' evs, (consoleReadLine text size echo).run s =
        ⟨.ok text', { s with received := line }, evs⟩ ∧
      text'.length = size ∧ ReadsAs cs text' ∧ reads evs = cs ++ [c] ∧ dispatches evs = [] := by
  obtain ⟨text', evs, run, length', stored, read, dispatched⟩ :=
    readLoop_plain echo plain (line.length + 2) 0 text length (by omega) received
  rw [Nat.zero_add] at run stored
  have inside : cs.length < text'.length := by omega
  have iteration := readLineStep_end echo (s := { s with received := c :: line }) room inside ends
    rfl
  have fuel : s.received.length + 1 = cs.length + (line.length + 2) := by
    rw [received, List.length_append, List.length_cons]
    omega
  refine ⟨text'.set cs.length 0, evs ++ .getc c :: if echo then [.putc 13, .putc 10] else [],
    ?_, by rw [List.length_set, length'], readsAs_set clean (by simpa using stored) (by omega),
    ?_, ?_⟩
  · rw [consoleReadLine, if_neg (by omega), Code.run_bind]
    show ((readLoop size echo (s.received.length + 1) (text, 0)).run s).after [] = _
    rw [fuel, run, readLoop, Code.run_loop_done iteration]
    rfl
  · rw [reads_append, read]
    cases echo <;> rfl
  · rw [dispatches_append, dispatched]
    cases echo <;> rfl

/-- Characters without an end, as many as the buffer holds. -/
theorem consoleReadLine_full {text : List UInt8} (plain : ∀ c ∈ cs, IsPlain c) (clean : 0 ∉ cs)
    (length : text.length = size) (full : cs.length + 1 = size)
    (received : s.received = cs ++ line) :
    ∃ text' evs, (consoleReadLine text size echo).run s =
        ⟨.ok text', { s with received := line }, evs⟩ ∧
      text'.length = size ∧ ReadsAs cs text' ∧ reads evs = cs ∧ dispatches evs = [] := by
  obtain ⟨text', evs, run, length', stored, read, dispatched⟩ :=
    readLoop_plain echo plain (line.length + 1) 0 text length (by omega) received
  rw [Nat.zero_add] at run stored
  have inside : cs.length < text'.length := by omega
  have iteration := readLineStep_full echo (s := { s with received := line }) full.ge inside
  have fuel : s.received.length + 1 = cs.length + (line.length + 1) := by
    rw [received, List.length_append]
    omega
  refine ⟨text'.set cs.length 0, evs, ?_, by rw [List.length_set, length'],
    readsAs_set clean (by simpa using stored) (by omega), read, dispatched⟩
  rw [consoleReadLine, if_neg (by omega), Code.run_bind]
  show ((readLoop size echo (s.received.length + 1) (text, 0)).run s).after [] = _
  rw [fuel, run, readLoop, Code.run_loop_done iteration]
  simp [Result.after]

/-- With nothing to read. -/
theorem consoleReadLine_waiting {text : List UInt8} (room : 1 < size)
    (received : s.received = []) :
    (consoleReadLine text size echo).run s = ⟨.error .waiting, s, []⟩ := by
  have iteration : (readLineStep size echo text 0).run s = ⟨.error .waiting, s, []⟩ :=
    readLineStep_waiting echo room received
  rw [consoleReadLine, if_neg (by omega), Code.run_bind]
  show ((readLoop size echo (s.received.length + 1) (text, 0)).run s).after [] = _
  rw [readLoop, Code.run_loop_error iteration]
  rfl

end CharcoalOS.Kernel
