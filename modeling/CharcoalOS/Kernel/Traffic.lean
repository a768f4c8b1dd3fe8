import CharcoalOS.Kernel.Session
import CharcoalOS.Lib.Account

/-!
# What the shell takes from the serial line, and how it halts

Two facts about the events of the shell, whenever timer interrupts are taken, told in one account
(`serial`): the characters it has read and those that the line still brings are what the line
brought, and if the processor halts, then the last thing done is a flush of the console.
`serial_shell` is the account of the whole shell.
-/

namespace CharcoalOS.Kernel

open Effect Effect.Code

/-- The timer interrupt handler takes nothing from the line. -/
theorem stable_received {platform : Platform} (line : List UInt8) :
    Stable (TimerTaken platform) (·.received = line) := by
  intro e s s' taken same
  rcases timerTaken_iff.mp taken with ⟨-, rfl⟩
  exact same

/-- What has been read, and what the line still brings, is what it brought; and what halts the
processor has flushed the console. -/
def serial (platform : Platform) : Account (TimerTaken platform) Stop Event where
  links evs s s' := reads evs ++ s'.received = s.received
  fails evs why := why = .halted → evs.getLast? = some .txFlush
  refl _ := rfl
  move e s _ taken := stable_received s.received e _ _ taken rfl
  append first rest := by rw [reads_append, List.append_assoc, rest, first]
  later evs flushes halted := by
    rw [List.getLast?_append, flushes halted]
    rfl

section Serial

variable {α : Type} {platform : Platform} {c : Routine α}

/-- Events without input. -/
theorem serial_links {evs : List Event} {s s' : State} (other : ∀ e ∈ evs, ¬ IsInput e)
    (same : s'.received = s.received) : (serial platform).links evs s s' := by
  show reads evs ++ s'.received = s.received
  rw [reads_eq_nil other, List.nil_append, same]

theorem serial_fails {evs : List Event} {why : Stop} (other : why ≠ .halted) :
    (serial platform).fails evs why :=
  fun halted => absurd halted other

theorem Prints.serial {c : Routine Unit} (prints : Prints c) :
    (serial platform).Covers (fun _ => True) c := by
  refine .of_safe (P := fun s s' => s'.received = s.received) (E := fun e => ¬ IsInput e)
    (F := fun _ => False) (fun s => prints.safe (fun _ => id) trivial) (fun _ => rfl)
    (fun s => stable_received s.received) (fun _ _ _ => serial_links) fun _ _ => False.elim

/-- **A routine without input** keeps to the account, whatever it is made of. -/
theorem Inputless.serial (inputless : Inputless c) :
    (serial platform).Covers (fun _ => True) c := by
  induction inputless with
  | pure a => exact .pure trivial
  | bind _ _ first then_ => exact first.bind fun a _ => then_ a
  | prints prints => exact prints.serial
  | emit other =>
      exact .emit fun _ => serial_links (List.forall_mem_singleton.mpr other) rfl
  | current => exact .current
  | update same => exact .update fun s => serial_links (List.forall_mem_nil _) (same s)
  | storeInProgress value => exact .store fun _ => rfl
  | halt => exact .emit_fail (fun _ => rfl) fun _ => rfl
  | reboot => exact .fail (serial_fails Stop.noConfusion)
  | faulted => exact .fail (serial_fails Stop.noConfusion)

/-! ## The shell -/

theorem serial_outOfBounds : (serial platform).Covers (fun _ => True)
    (Code.fail .outOfBounds : Routine α) := .fail (serial_fails Stop.noConfusion)

theorem serial_dispatch (command : List UInt8) :
    (serial platform).Covers (fun _ => True) (Code.emit (.dispatch command)) :=
  .emit fun _ => rfl

theorem serial_getc : (serial platform).Covers (fun _ => True) consoleGetc := by
  refine .step (fun s => ?_) fun s => .ofOption (serial_fails Stop.noConfusion) _
  show reads (s.received.head?.toList.map .getc) ++ s.received.tail = s.received
  cases s.received <;> rfl

theorem serial_readLineStep (size : ℕ) (echo : Bool) (text : List UInt8) (i : ℕ) :
    (serial platform).Covers (fun _ => True) (readLineStep size echo text i) := by
  have store (text : List UInt8) (i : ℕ) (c : UInt8) :
      (serial platform).Covers (fun _ => True) (storeChar text i c) :=
    .ite (.pure trivial) serial_outOfBounds
  have putc (c : UInt8) : (serial platform).Covers (fun _ => True) (consolePutc c) :=
    (prints_putc c).serial
  refine .ite (.bind serial_getc fun c _ => .ite ?ends (.ite ?erase ?plain))
    (.bind (store _ _ _) fun _ _ => .pure trivial)
  case ends =>
    exact .bind (store _ _ _) fun _ _ =>
      .ite (.bind (putc _) fun _ _ => .bind (putc _) fun _ _ => .pure trivial) (.pure trivial)
  case erase =>
    exact .ite (.pure trivial) (.bind
      (.ite (prints_literal _).serial (.pure trivial)) fun _ _ => .pure trivial)
  case plain =>
    exact .bind (store _ _ _) fun _ _ => .bind (.ite (putc _) (.pure trivial)) fun _ _ =>
      .pure trivial

/-- A line of the shell is terminated. -/
theorem serial_readLine {buffer : List UInt8} (length : buffer.length = commandLength) :
    (serial platform).Covers (fun text => text.length = commandLength ∧ 0 ∈ text)
      (consoleReadLine buffer commandLength true) := by
  have covers : (serial platform).Covers (fun _ => True)
      (consoleReadLine buffer commandLength true) := by
    refine .ite (.pure trivial) (.bind .current fun s _ => ?_)
    refine .loop (serial_fails Stop.noConfusion) (fun _ => True) (fun b _ => ?_) _ _ trivial
    exact (serial_readLineStep _ _ _ _).value fun _ _ _ _ _ _ _ => trivial
  refine covers.value fun s r runs text returns => ?_
  rcases (commutes_readLine buffer commandLength true).runs runs with ⟨outcome, -, -⟩
  rw [returns] at outcome
  rcases consoleReadLine_session platform length s with ⟨text', input, typed⟩ | ⟨waits, -⟩
  · rw [typed.outcome] at outcome
    cases outcome
    exact ⟨typed.length, typed.terminated⟩
  · rw [waits] at outcome
    cases outcome

/-- **The shell reads what the line brings**, in order and nothing twice, and when it halts the
processor, the console has been flushed, and nothing has been printed since. -/
theorem serial_shell (command : Vector UInt8 commandLength) :
    (serial platform).Covers (fun _ => True) (runShellLoop platform command) := by
  have prompt : (serial platform).Covers (fun _ => True) printPrompt := (prints_literal _).serial
  refine .bind prompt fun _ _ => .bind .current fun s _ => ?_
  refine .loop (serial_fails Stop.noConfusion) (fun buffer => buffer.length = commandLength)
    (fun buffer length => ?_) _ _ Vector.length_toList
  refine .bind (serial_readLine length) fun text typed => ?_
  rcases inputless_dispatched platform typed.2 with ⟨rest, text', dispatch, inputless, length'⟩
  rw [dispatch]
  have dispatched : (serial platform).Covers (fun text => text.length = commandLength) (do
      Code.emit (.dispatch (chars text))
      rest
      pure text') :=
    .bind (serial_dispatch _) fun _ _ => .bind inputless.serial fun _ _ =>
      .pure (length'.trans typed.1)
  refine .bind dispatched fun text' length' => .bind prompt fun _ _ => .pure fun buffer' next => ?_
  cases next
  exact length'

end Serial

end CharcoalOS.Kernel
