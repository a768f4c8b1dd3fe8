import CharcoalOS.Kernel.Editing

/-!
# What the screen shows

A terminal is its cells and the column of its cursor. `shows_echoed` says what the echo of one
character does to a terminal that shows the line, and `screen_shows_line` what all of them do.
-/

namespace CharcoalOS.Kernel

open Effect Effect.Program

/-- One line of a terminal, which does not wrap. -/
structure Terminal : Type where
  cells : ℤ → UInt8
  cursor : ℤ

namespace Terminal

/-- A printable byte is written at the cursor, and a backspace moves it. -/
def put (t : Terminal) (c : UInt8) : Terminal :=
  if c = 8 then { t with cursor := t.cursor - 1 }
  else if 32 ≤ c ∧ c ≤ 126 then ⟨Function.update t.cells t.cursor c, t.cursor + 1⟩
  else t

def event (t : Terminal) : Event → Terminal
  | .putc c => t.put c
  | _ => t

/-- The terminal after some events. -/
def after (t : Terminal) (evs : List Event) : Terminal := evs.foldl event t

variable (t : Terminal)

/-- `u` shows the line from where the cursor of `t` is on, and then blanks. -/
structure Shows (text : List UInt8) (u : Terminal) : Prop where
  written : ∀ (i : ℕ) c, text[i]? = some c → u.cells (t.cursor + i) = c
  blank : ∀ k, t.cursor + text.length ≤ k → u.cells k = 32
  cursor : u.cursor = t.cursor + text.length

/-- What is left of the cursor of `t` is as it was, and the cursor of `u` is not there. -/
structure Spares (u : Terminal) : Prop where
  cursor : t.cursor ≤ u.cursor
  cells : ∀ k < t.cursor, u.cells k = t.cells k

/-- `u` spares it, and does so after each of the events. -/
def SparesAll (u : Terminal) : List Event → Prop
  | [] => t.Spares u
  | e :: evs => t.Spares u ∧ SparesAll (u.event e) evs

variable {t} {u : Terminal} {text : List UInt8} {c : UInt8} {evs evs' : List Event}

theorem after_append : u.after (evs ++ evs') = (u.after evs).after evs' := List.foldl_append

theorem SparesAll.append (first : t.SparesAll u evs) (second : t.SparesAll (u.after evs) evs') :
    t.SparesAll u (evs ++ evs') := by
  induction evs generalizing u with
  | nil => exact second
  | cons e evs ih => exact ⟨first.1, ih first.2 second⟩

theorem SparesAll.front (all : t.SparesAll u (evs ++ evs')) : t.Spares (u.after evs) := by
  induction evs generalizing u with
  | nil =>
      cases evs' with
      | nil => exact all
      | cons e evs' => exact all.1
  | cons e evs ih => exact ih all.2

/-- Writing and moving back do no harm at the cursor or right of it. -/
theorem Spares.put (spares : t.Spares u) (room : c = 8 → t.cursor < u.cursor) :
    t.Spares (u.put c) := by
  rw [Terminal.put]
  split
  · exact ⟨by have := room ‹_›; show t.cursor ≤ u.cursor - 1; omega, spares.cells⟩
  · split
    · refine ⟨by have := spares.cursor; show t.cursor ≤ u.cursor + 1; omega, fun k left => ?_⟩
      have other : k ≠ u.cursor := (left.trans_le spares.cursor).ne
      exact (Function.update_of_ne other _ _).trans (spares.cells k left)
    · exact spares

/-- A printable character appears behind the line. -/
theorem Shows.type (shows_ : t.Shows text u) (printable : 32 ≤ c ∧ c ≤ 126) :
    t.Shows (text ++ [c]) (u.put c) := by
  have other : c ≠ 8 := by
    rintro rfl
    exact absurd printable (by decide)
  have put : u.put c = ⟨Function.update u.cells u.cursor c, u.cursor + 1⟩ := by
    rw [Terminal.put, if_neg other, if_pos printable]
  rw [put]
  have column := shows_.cursor
  refine ⟨fun i d here => ?_, fun k behind => ?_, ?_⟩
  · by_cases less : i < text.length
    · rw [List.getElem?_append_left less] at here
      have before : t.cursor + i ≠ u.cursor := by omega
      exact (Function.update_of_ne before _ _).trans (shows_.written i d here)
    · have inside := (List.getElem?_eq_some_iff.mp here).1
      rw [List.length_append, List.length_singleton] at inside
      obtain rfl : i = text.length := by omega
      rw [List.getElem?_append_right le_rfl, Nat.sub_self, List.getElem?_cons_zero] at here
      rw [← column, ← Option.some.inj here]
      exact Function.update_self _ _ _
  · rw [List.length_append, List.length_singleton] at behind
    have other : k ≠ u.cursor := by omega
    exact (Function.update_of_ne other _ _).trans (shows_.blank k (by omega))
  · rw [List.length_append, List.length_singleton]
    show u.cursor + 1 = _
    omega

/-- A backspace, a blank and a backspace erase the last character of the line. -/
theorem Shows.erase {d : UInt8} (shows_ : t.Shows (text ++ [d]) u) :
    t.Shows text (((u.put 8).put 32).put 8) := by
  have column : u.cursor - 1 = t.cursor + text.length := by
    rw [shows_.cursor, List.length_append, List.length_singleton]
    omega
  have put : ((u.put 8).put 32).put 8 =
      ⟨Function.update u.cells (t.cursor + text.length) 32, t.cursor + text.length⟩ := by
    have back : u.put 8 = ⟨u.cells, t.cursor + text.length⟩ := by
      rw [← column]
      rfl
    rw [back]
    show (⟨_, t.cursor + text.length + 1 - 1⟩ : Terminal) = _
    rw [add_sub_cancel_right]
    rfl
  rw [put]
  refine ⟨fun i e here => ?_, fun k behind => ?_, rfl⟩
  · have less := (List.getElem?_eq_some_iff.mp here).1
    have other : t.cursor + i ≠ t.cursor + text.length := by omega
    refine (Function.update_of_ne other _ _).trans (shows_.written i e ?_)
    rwa [List.getElem?_append_left less]
  · by_cases erased : k = t.cursor + text.length
    · rw [erased]
      exact Function.update_self _ _ _
    · refine (Function.update_of_ne erased _ _).trans (shows_.blank k ?_)
      rw [List.length_append, List.length_singleton]
      omega

end Terminal

/-! ## The echo -/

open Terminal

/-- A printable ASCII character, or one that erases. -/
def IsTyped (c : UInt8) : Prop := (32 ≤ c ∧ c ≤ 126) ∨ IsErase c

instance (c : UInt8) : Decidable (IsTyped c) := inferInstanceAs (Decidable (_ ∨ _))

theorem IsTyped.not_isEnd {c : UInt8} (typed : IsTyped c) : ¬ IsEnd c := by
  rintro (rfl | rfl)
  · exact absurd typed (by decide)
  · exact absurd typed (by decide)

variable {t u : Terminal} {text cs : List UInt8} {c : UInt8}

/-- **The echo of one character** makes the screen show the line after it. -/
theorem shows_echoed (shows_ : t.Shows text u) (spares : t.Spares u) (typed : IsTyped c) :
    t.Shows (editStep text c) (u.after ((echoed text c).map .putc)) ∧
      t.SparesAll u ((echoed text c).map .putc) := by
  by_cases erase : IsErase c
  · rw [editStep, if_pos erase, echoed, if_pos erase]
    rcases List.eq_nil_or_concat text with rfl | ⟨init, d, rfl⟩
    · rw [if_pos rfl]
      exact ⟨shows_, spares⟩
    · rw [List.concat_eq_append] at shows_ ⊢
      have some_ : init ++ [d] ≠ [] := by simp
      have column : u.cursor = t.cursor + init.length + 1 := by
        rw [shows_.cursor, List.length_append, List.length_singleton]
        omega
      rw [if_neg some_, List.dropLast_concat]
      -- the cursor is right of where the last character is, and goes no further back
      have back : t.Spares (u.put 8) := spares.put fun _ => by omega
      have blank : t.Spares ((u.put 8).put 32) := back.put fun same => by simp at same
      have again : t.Spares (((u.put 8).put 32).put 8) := blank.put fun _ => by
        show t.cursor < u.cursor - 1 + 1
        omega
      exact ⟨shows_.erase, spares, back, blank, again⟩
  · have printable := typed.resolve_right erase
    rw [editStep, if_neg erase, echoed, if_neg erase]
    have other : c ≠ 8 := fun same => erase (Or.inl same)
    exact ⟨shows_.type printable, spares, spares.put fun same => absurd same other⟩

/-- So the screen shows the line after all that are processed. -/
theorem shows_edited (shows_ : t.Shows text u) (spares : t.Spares u)
    (typed : ∀ c ∈ cs, IsTyped c) :
    t.Shows (cs.foldl editStep text) (u.after (editEvents true text cs)) ∧
      t.SparesAll u (editEvents true text cs) := by
  induction cs generalizing text u with
  | nil => exact ⟨shows_, spares⟩
  | cons c cs ih =>
      obtain ⟨first, typed⟩ := List.forall_mem_cons.mp typed
      obtain ⟨shown, spared⟩ := shows_echoed shows_ spares first
      have spares' : t.Spares (u.after ((echoed text c).map .putc)) := by
        rw [← List.append_nil ((echoed text c).map Event.putc)] at spared
        exact spared.front
      obtain ⟨shown', spared'⟩ := ih shown spares' typed
      rw [editEvents, if_pos rfl]
      refine ⟨?_, spares, spared.append spared'⟩
      show t.Shows _ (u.after (_ ++ _))
      rw [after_append]
      exact shown'

/-- The next event, if there is one, is that a character is read. -/
def BeforeChar (evs : List Event) : Prop := evs = [] ∨ ∃ c rest, evs = .getc c :: rest

/-- Between two characters, some have been processed. -/
theorem exists_between {text : List UInt8} {front back : List Event}
    (split : editEvents true text cs = front ++ back) (between : BeforeChar back) :
    ∃ q r, cs = q ++ r ∧ front = editEvents true text q := by
  induction cs generalizing text front with
  | nil => exact ⟨[], [], rfl, (List.append_eq_nil_iff.mp split.symm).1⟩
  | cons c cs ih =>
      rcases front with _ | ⟨e, front⟩
      · exact ⟨[], c :: cs, rfl, rfl⟩
      · rw [editEvents, if_pos rfl, List.cons_append] at split
        obtain ⟨rfl, tail⟩ := List.cons.inj split
        have whole : ∃ front', front = (echoed text c).map .putc ++ front' ∧
            editEvents true (editStep text c) cs = front' ++ back := by
          rcases List.append_eq_append_iff.mp tail with ⟨front', same, rest⟩ | ⟨back', same, rest⟩
          · exact ⟨front', same, rest⟩
          · -- what is between two characters is not part of an echo
            rcases back' with _ | ⟨e, back'⟩
            · exact ⟨[], by simpa using same.symm, by simpa using rest.symm⟩
            · have echo : e ∈ (echoed text c).map Event.putc := by rw [same]; simp
              obtain ⟨d, -, rfl⟩ := List.mem_map.mp echo
              rcases between with none | ⟨c', rest', next⟩
              · rw [none] at rest
                cases rest
              · rw [next] at rest
                cases rest
        obtain ⟨front', rfl, rest⟩ := whole
        obtain ⟨q, r, rfl, rfl⟩ := ih rest
        exact ⟨c :: q, r, rfl, by rw [editEvents, if_pos rfl]⟩

variable {size : ℕ} {before : List UInt8} {s : State}

/-- With only such characters, a call processes some, and then the buffer is full or it waits. -/
theorem events_consoleReadLine (some_ : 1 ≤ size) (inside : size ≤ before.length)
    (typed : ∀ c ∈ s.received, IsTyped c) :
    ∃ p rest, s.received = p ++ rest ∧ Processed size [] p ∧
      ((consoleReadLine before size true).run s).events = editEvents true [] p := by
  obtain ⟨p, rest, received, processed, stop⟩ := exists_processed size [] s.received
  obtain ⟨text, run, holds⟩ := consoleReadLine_processed true some_ inside processed received
  have here : (edit p).length < text.length := by
    rw [holds.length]
    exact (processed.lt some_).trans_le inside
  refine ⟨p, rest, received, processed, ?_⟩
  rcases stop with full | ⟨room, rfl | ⟨c, rest', rfl, ends⟩⟩
  · have last := readLineStep_full true (s := { s with received := rest }) full here
    rw [run, readLoop, Code.run_loop_done last]
    exact List.append_nil _
  · have last : (readLineStep size true text (edit p).length).run { s with received := [] } = _ :=
      readLineStep_waiting true room rfl
    rw [run, readLoop, Code.run_loop_error last]
    exact List.append_nil _
  · have member : c ∈ s.received := by rw [received]; simp
    exact absurd ends (typed c member).not_isEnd

theorem Processed.front {line q r : List UInt8} (processed : Processed size line (q ++ r)) :
    Processed size line q := by
  induction q generalizing line with
  | nil => trivial
  | cons c q ih => exact ⟨processed.1, ih processed.2⟩

/-- The call has processed the characters of the events `evs`: what is left of its run is the
loop, at an index up to which the buffer holds the edited line. -/
def HeldAfter (before : List UInt8) (size : ℕ) (s : State) (evs : List Event) : Prop :=
  ∃ text fuel s', (consoleReadLine before size true).run s =
      ((readLoop size true fuel (text, (edit (reads evs)).length)).run s').after evs ∧
    text.take (edit (reads evs)).length = edit (reads evs)

/-- **What the screen shows is what the buffer holds**, whenever the next character is taken, for
typed input on a terminal that is blank from its cursor on; and no event touches what is left of
that cursor. -/
theorem screen_shows_buffer (inside : size ≤ before.length)
    (blank : ∀ k, t.cursor ≤ k → t.cells k = 32) (typed : ∀ c ∈ s.received, IsTyped c)
    (evs evs' : List Event)
    (run : ((consoleReadLine before size true).run s).events = evs ++ evs') :
    t.Spares (t.after evs) ∧
      (BeforeChar evs' → t.Shows (edit (reads evs)) (t.after evs) ∧
        (0 < size → HeldAfter before size s evs)) := by
  have empty : t.Shows [] t := ⟨nofun, fun k behind => blank k (by simpa using behind), by simp⟩
  have none : t.Spares t := ⟨le_rfl, fun _ _ => rfl⟩
  rcases Nat.eq_zero_or_pos size with rfl | some_
  · have nothing : evs = [] := (List.append_eq_nil_iff.mp run.symm).1
    rw [nothing]
    exact ⟨none, fun _ => ⟨empty, fun positive => absurd positive (Nat.lt_irrefl 0)⟩⟩
  · obtain ⟨p, rest, received, processed, events⟩ := events_consoleReadLine some_ inside typed
    have part : ∀ c ∈ p, IsTyped c := by
      intro c member
      exact typed c (by rw [received]; exact List.mem_append_left _ member)
    rw [events] at run
    have spared := (shows_edited empty none part).2
    rw [run] at spared
    refine ⟨spared.front, fun between => ?_⟩
    obtain ⟨q, r, rfl, rfl⟩ := exists_between run between
    rw [reads_editEvents]
    refine ⟨(shows_edited empty none fun c member => part c (List.mem_append_left _ member)).1,
      fun _ => ?_⟩
    rw [List.append_assoc] at received
    obtain ⟨text, run', holds⟩ :=
      consoleReadLine_processed true some_ inside processed.front received
    rw [HeldAfter, reads_editEvents]
    exact ⟨text, _, _, run', holds.line⟩

/-- The prompt, in the first two columns. -/
def Terminal.prompt : Terminal := ⟨fun k => if k = 0 then 62 else 32, 2⟩

/-- One character typed, erased, and another erase at the prompt. -/
theorem screen_shows_buffer_prompt :
    let evs := [.getc 97, .putc 97, .getc 127, .putc 8, .putc 32, .putc 8, .getc 8]
    prompt.Spares (prompt.after evs) ∧
      (BeforeChar [] → prompt.Shows (edit (reads evs)) (prompt.after evs) ∧
        (0 < 4 → HeldAfter [7, 7, 7, 7] 4 (State.boot [97, 127, 8]) evs)) :=
  screen_shows_buffer (by decide)
    (fun k (right : 2 ≤ k) => if_neg (show k ≠ 0 by omega))
    (by simp [State.boot, IsTyped, IsErase]) _ [] rfl

end CharcoalOS.Kernel
