import CharcoalOS.Kernel.Replies
import CharcoalOS.Kernel.Ticks
import CharcoalOS.Lib.Runs

/-!
# The shell replies

`Answers c reply` connects a routine to what it is for: it prints the reply, leaves the flag and
ends as the reply says, touches nothing else, and no timer interrupt disturbs it. It holds of
every part of the shell but `uptime`, which reads the clock; `replies_dispatch` says of every
command, in every interleaving with timer interrupts, that its reply is what the user gets.
-/

namespace CharcoalOS.Kernel

open Effect Effect.Code

/-! ## Timer interrupts -/

/-- A timer interrupt is taken and returned from. Interrupts are masked until then. -/
def TimerTaken (platform : Platform) (e : Exception) (s s' : State) : Prop :=
  e.Timer ∧ ((takeException platform e).run s).outcome = .ok () ∧
    ((takeException platform e).run s).state = s'

section Timer

variable {platform : Platform} {e : Exception} {es : List Exception} {s s' : State}

theorem run_takeException_timer (timer : e.Timer) (s : State) :
    (takeException platform e).run s = ⟨.ok (),
      { s with ticksSinceBoot := s.ticksSinceBoot + 1 }, interruptProtocol platform e⟩ := by
  rw [takeException, handleException_irq timer.1, handleInterruptException_timer timer.2,
    interruptProtocol, if_pos timer]
  rfl

/-- All that it does to the kernel is to count. -/
theorem timerTaken_iff : TimerTaken platform e s s' ↔
    e.Timer ∧ s' = { s with ticksSinceBoot := s.ticksSinceBoot + 1 } := by
  unfold TimerTaken
  constructor
  · rintro ⟨timer, -, state⟩
    rw [run_takeException_timer timer] at state
    exact ⟨timer, state.symm⟩
  · rintro ⟨timer, rfl⟩
    rw [run_takeException_timer timer]
    exact ⟨timer, rfl, rfl⟩

theorem moves_ticks (moves : Moves (TimerTaken platform) es s s') :
    s' = { s with ticksSinceBoot := s.ticksSinceBoot + UInt64.ofNat es.length } := by
  induction moves with
  | nil => simp
  | @cons e es s s' s'' first _ ih =>
      obtain ⟨-, rfl⟩ := timerTaken_iff.mp first
      rw [ih, List.length_cons, UInt64.ofNat_add, UInt64.add_comm (UInt64.ofNat es.length),
        ← UInt64.add_assoc]
      rfl

end Timer

/-! ## Routines and replies -/

section Printed

variable {evs evs' : List Event} {text : List UInt8}

@[simp] theorem printed_nil : printed [] = [] := rfl

@[simp] theorem printed_append : printed (evs ++ evs') = printed evs ++ printed evs' :=
  List.filterMap_append

@[simp] theorem printed_map_putc : printed (text.map .putc) = text := by
  induction text with
  | nil => rfl
  | cons c text ih => exact congrArg (List.cons c) ih

theorem onLine_cons (c : UInt8) :
    onLine (c :: text) = (if c = 10 then [13] else []) ++ ([c] ++ onLine text) := by
  unfold onLine
  rw [List.flatMap_cons]
  split
  · rfl
  · rfl

end Printed

/-- The routine comes to the reply, and no timer interrupt disturbs it. -/
structure Answers {α : Type} (platform : Platform) (c : Routine α) (reply : Reply α) : Prop where
  commutes : c.Commutes (TimerTaken platform)
  outcome : ∀ s, (c.run s).outcome = (reply s.exceptionInProgress).outcome
  text : ∀ s, printed (c.run s).events = (reply s.exceptionInProgress).events
  state : ∀ s, (c.run s).state =
    { s with exceptionInProgress := (reply s.exceptionInProgress).state }

/-- The routine prints the text. -/
abbrev Writes (platform : Platform) (c : Routine Unit) (text : List UInt8) : Prop :=
  Answers platform c (.text text)

section Answers

variable {α β : Type} {platform : Platform} {c d : Routine α} {f : α → Routine β}
  {p q : Reply α} {g : α → Reply β} {text text' : List UInt8} {why : Stop}

theorem Answers.congr (answers : Answers platform c p) (same : ∀ flag, p flag = q flag) :
    Answers platform c q := by
  rwa [← show p = q from funext same]

theorem Answers.pure (a : α) : Answers platform (Pure.pure a) (.answer [] a) :=
  ⟨.pure a, fun _ => rfl, fun _ => rfl, fun _ => rfl⟩

theorem Answers.fail (why : Stop) : Answers platform (Code.fail why : Routine α) (.stop [] why) :=
  ⟨.fail why, fun _ => rfl, fun _ => rfl, fun _ => rfl⟩

theorem Answers.bind (first : Answers platform c p) (then_ : ∀ a, Answers platform (f a) (g a)) :
    Answers platform (c >>= f) (p >>= g) := by
  have both (s : State) :
      ((c >>= f).run s).outcome = ((p >>= g) s.exceptionInProgress).outcome ∧
        printed ((c >>= f).run s).events = ((p >>= g) s.exceptionInProgress).events ∧
        ((c >>= f).run s).state =
          { s with exceptionInProgress := ((p >>= g) s.exceptionInProgress).state } := by
    have outcome := first.outcome s
    have text := first.text s
    have state := first.state s
    rcases run : c.run s with ⟨o, s', evs⟩
    rcases reply : p s.exceptionInProgress with ⟨o', flag, text'⟩
    rw [run, reply] at outcome text state
    dsimp only at outcome text state
    subst outcome text state
    rw [Code.run_bind]
    cases o with
    | error e =>
        rw [Program.bind_error run, Program.bind_error reply]
        exact ⟨rfl, rfl, rfl⟩
    | ok a =>
        rw [Program.bind_ok run, Program.bind_ok reply]
        refine ⟨(then_ a).outcome _, ?_, (then_ a).state _⟩
        rw [printed_append]
        exact congrArg (printed evs ++ ·) ((then_ a).text _)
  exact ⟨.bind first.commutes fun a => (then_ a).commutes, fun s => (both s).1,
    fun s => (both s).2.1, fun s => (both s).2.2⟩

theorem Answers.ite {b : Prop} [Decidable b] (left : b → Answers platform c p)
    (right : ¬ b → Answers platform d q) :
    Answers platform (if b then c else d) (if b then p else q) := by
  split
  · exact left ‹_›
  · exact right ‹_›

/-- Something is printed first. -/
theorem Answers.write {e : Routine Unit} {a : α} (first : Writes platform e text)
    (then_ : Answers platform c (.answer text' a)) :
    Answers platform (e >>= fun _ => c) (.answer (text ++ text') a) :=
  Answers.bind first fun _ => then_

theorem Answers.writeStop {e : Routine Unit} (first : Writes platform e text)
    (then_ : Answers platform c (.stop text' why)) :
    Answers platform (e >>= fun _ => c) (.stop (text ++ text') why) :=
  Answers.bind first fun _ => then_

/-! ### What is printed -/

theorem writes_putc (c : UInt8) : Writes platform (consolePutc c) [c] :=
  ⟨.emit _, fun _ => rfl, fun _ => rfl, fun _ => rfl⟩

theorem writes_write (text behind : List UInt8) :
    Writes platform (consoleWrite (text ++ behind) text.length) (onLine text) := by
  induction text with
  | nil => cases behind <;> exact .pure ()
  | cons c text ih =>
      have return_ : Writes platform (if c = 10 then consolePutc 13 else Pure.pure ())
          (if c = 10 then [13] else []) := by
        split
        · exact writes_putc 13
        · exact .pure ()
      rw [List.length_cons, List.cons_append, consoleWrite, onLine_cons]
      exact .write return_ (.write (writes_putc c) ih)

/-- A string prints as it reads. -/
theorem writes_string {string : List UInt8} (reads : ReadsAs text string) :
    Writes platform (consolePrint string) (onLine text) := by
  rw [consolePrint, reads.stringLength]
  obtain ⟨-, behind, rfl⟩ := reads
  exact writes_write text (0 :: behind)

theorem writes_literal (text : String) :
    Writes platform (consolePrint (cString text)) (lineOf text) :=
  writes_string (readsAs_chars (zero_mem_cString text))

theorem writes_hexByte (byte : UInt8) : Writes platform (printHexByte byte) (hexOfByte byte) :=
  .write (writes_putc _) (writes_putc _)

theorem commutes_hexBytes (data : List UInt8) (size : Nat) :
    (consolePrintHexBytes data size).Commutes (TimerTaken platform) := by
  induction data generalizing size with
  | nil => cases size <;> trivial
  | cons byte data ih =>
      cases size with
      | zero => trivial
      | succ size => exact .bind (writes_hexByte byte).commutes fun _ => ih size

theorem commutes_hexDown (data : List UInt8) (i : Nat) :
    (printHexDown data i).Commutes (TimerTaken platform) := by
  induction i with
  | zero => trivial
  | succ i ih =>
      exact .bind (.ofOption _ _) fun byte => .bind (writes_hexByte byte).commutes fun _ => ih

/-- A value prints as its digits. -/
theorem writes_value (size value : Nat) :
    Writes platform (consolePrintHexValue platform (hostBytes platform size value) size)
      (hexText (2 * size) value) := by
  have run (s : State) := run_consolePrintHexValue platform size value s
  refine ⟨.ite (commutes_hexBytes _ _) (commutes_hexDown _ _), fun s => ?_, fun s => ?_,
    fun s => ?_⟩
  · rw [run]
    rfl
  · rw [run]
    exact printed_map_putc
  · rw [run]
    rfl

theorem writes_hex (value : UInt64) : Writes platform (printHex platform value) (digitsOf value) :=
  writes_value 8 value.toNat

/-- A byte is laid out the same in both byte orders. -/
theorem writes_hexChar (value : UInt8) :
    Writes platform (printHexChar platform value) (byteDigitsOf value) := by
  have bytes : hostBytes platform 1 value.toNat = [value] := by
    have digits : Digits.fixed 256 1 value.toNat = [value.toNat] := by
      simp [Digits.fixed, Nat.mod_eq_of_lt value.toNat_lt]
    simp [hostBytes, digits]
  have writes : Writes platform
      (consolePrintHexValue platform (hostBytes platform 1 value.toNat) 1)
      (hexText (2 * 1) value.toNat) := writes_value 1 value.toNat
  rwa [bytes] at writes

/-! ### What else the routines do -/

theorem answers_emit {event : Event} (silent : printed [event] = []) :
    Answers platform (Code.emit event) (.answer [] ()) :=
  ⟨.emit _, fun _ => rfl, fun _ => silent, fun _ => rfl⟩

theorem answers_halt : Answers platform (halt : Routine α) (.stop [] .halted) :=
  Answers.bind (answers_emit rfl) fun _ => .fail .halted

theorem halt_bind (f : α → Routine β) : (halt >>= f) = halt := rfl

theorem answers_reboot : Answers platform (platformReboot : Routine α) (.stop [] .restarted) :=
  .fail .restarted

theorem answers_storeInProgress (value : UInt64) :
    Answers platform (storeInProgress value) fun _ => ⟨.ok (), value, []⟩ := by
  refine ⟨.store _ fun e s s' taken => ?_, fun _ => rfl, fun _ => rfl, fun _ => rfl⟩
  obtain ⟨timer, rfl⟩ := timerTaken_iff.mp taken
  exact timerTaken_iff.mpr ⟨timer, rfl⟩

/-- A routine that looks at the flag, and at nothing else. -/
theorem Answers.flag {f : UInt64 → Routine α}
    (each : ∀ flag, ∃ q, Answers platform (f flag) q ∧ q flag = p flag) :
    Answers platform (Code.current >>= fun s => f s.exceptionInProgress) p := by
  constructor
  case commutes =>
    refine .current (fun e s s' taken => ?_) fun s => ?_
    · obtain ⟨-, rfl⟩ := timerTaken_iff.mp taken
      rfl
    · obtain ⟨q, answers, -⟩ := each s.exceptionInProgress
      exact answers.commutes
  case outcome =>
    intro s
    obtain ⟨q, answers, same⟩ := each s.exceptionInProgress
    rw [← same]
    exact answers.outcome s
  case text =>
    intro s
    obtain ⟨q, answers, same⟩ := each s.exceptionInProgress
    rw [← same]
    exact answers.text s
  case state =>
    intro s
    obtain ⟨q, answers, same⟩ := each s.exceptionInProgress
    rw [← same]
    exact answers.state s

/-! ### Exceptions -/

variable {e : Exception}

theorem writes_registersFrom (savedRegisters : Vector UInt64 32) (n : ℕ) (room : n ≤ 32) :
    Writes platform (printSavedRegisters platform savedRegisters n)
      (((savedRegisters.toList.drop (32 - n)).zipIdx (32 - n)).map
        fun p => registerText p.1 p.2).flatten := by
  induction n with
  | zero =>
      rw [List.drop_eq_nil_of_le (Nat.le_of_eq Vector.length_toList)]
      exact .pure ()
  | succ n ih =>
      have index : 32 - (n + 1) = 31 - n := by omega
      have next : 31 - n + 1 = 32 - n := by omega
      have inside : 31 - n < savedRegisters.toList.length := by
        rw [Vector.length_toList]
        omega
      rw [index, List.drop_eq_getElem_cons inside, List.zipIdx_cons, List.map_cons,
        List.flatten_cons, next, printSavedRegisters]
      have line (rest : Routine Unit) (behind : List UInt8) (later : Writes platform rest behind) :
          Writes platform (do
            consolePrint (cString "0x")
            printHex platform (UInt64.ofNat (31 - n))
            consolePrint (cString " 0x")
            printHex platform (getElem savedRegisters (31 - n) (register_saved n))
            consolePrint (cString "\n")
            rest) (registerText savedRegisters.toList[31 - n] (31 - n) ++ behind) := by
        unfold registerText
        simp only [List.append_assoc, Vector.getElem_toList]
        exact .write (writes_literal _) (.write (writes_hex _) (.write (writes_literal _)
          (.write (writes_hex _) (.write (writes_literal _) later))))
      exact line _ _ (ih (Nat.le_of_succ_le room))

theorem writes_registers (savedRegisters : Vector UInt64 32) :
    Writes platform (printSavedRegisters platform savedRegisters 32)
      (registersText savedRegisters) :=
  writes_registersFrom savedRegisters 32 le_rfl

theorem writes_diagnostics (e : Exception) :
    Writes platform (printDiagnostics platform e) (diagnosticsText e) := by
  unfold printDiagnostics diagnosticsText
  simp only [List.flatten_cons, List.flatten_nil, List.append_nil]
  have text (text : String) : Writes platform (consolePrint (cString text)) _ := writes_literal text
  have hex (value : UInt64) : Writes platform (printHex platform value) _ := writes_hex value
  refine .write (text _) (.write (text _) (.write (hex _) (.write (text _) (.write (text _)
    (.write (text _) ?_)))))
  refine .write (text _) (.write (hex _) (.write (text _) (.write (text _) ?_)))
  refine .write (text _) (.write (hex _) (.write (text _) ?_))
  refine .write (text _) (.write (hex _) (.write (text _) (.write (hex _) ?_)))
  refine .write (text _) (.write (hex _) (.write (text _) (.write (hex _) ?_)))
  exact .write (text _) (.write (text _) (.write (writes_registers _) (text _)))

/-- **An exception gets its reply**, if it is not an interrupt. -/
theorem answers_exception (sync : ¬ e.Irq) :
    Answers platform (takeException platform e) (exceptionReply e) := by
  unfold takeException exceptionReply
  by_cases restart : e.RestartCall
  · simp only [if_pos restart]
    rw [handleException_restart restart, bind_assoc]
    simp only [pure_bind, performAction_restart]
    exact .congr (.writeStop (writes_literal _) answers_reboot) fun _ =>
      congrArg (Result.mk _ _) (List.append_nil _)
  · simp only [if_neg restart]
    by_cases resumed : e.ResumedCall
    · simp only [if_pos resumed]
      rw [handleException_resumed resumed]
      simp only [bind_assoc, pure_bind, performAction_resume]
      refine .congr (.bind (writes_literal _) fun _ => .bind (writes_hex _) fun _ =>
        .bind (writes_literal _) fun _ => .bind (answers_storeInProgress 0) fun _ => .pure ())
        fun flag => congrArg (Result.mk (.ok ()) 0) ?_
      show _ ++ (_ ++ (_ ++ ([] ++ []))) = _
      rw [List.append_nil, List.append_nil, List.append_assoc]
    · simp only [if_neg resumed]
      have unhandled : e.Unhandled := ⟨fun timer => sync timer.1, restart, resumed⟩
      rw [handleException_unhandled sync unhandled, handleUnhandled, bind_assoc]
      let first : Routine UInt64 := do
        storeInProgress 1
        Code.emit .maskExceptions
        printDiagnostics platform e
        Pure.pure exceptionActionPanic
      have dump : Answers platform (first >>= performAction)
          fun _ => ⟨.error .halted, 1, diagnosticsText e⟩ := by
        simp only [first, bind_assoc, pure_bind, performAction_panic]
        exact .congr (.bind (answers_storeInProgress 1) fun _ => .bind (answers_emit rfl) fun _ =>
          .bind (writes_diagnostics e) fun _ => answers_halt) fun _ =>
            congrArg (Result.mk _ _) (List.append_nil _)
      refine Answers.flag (f := fun flag => (if flag ≠ 0 then halt else first) >>= performAction)
        fun flag => ?_
      by_cases set : flag ≠ 0
      · rw [if_pos set, if_pos set]
        exact ⟨_, answers_halt, rfl⟩
      · rw [if_neg set, if_neg set]
        exact ⟨_, dump, rfl⟩

end Answers

end CharcoalOS.Kernel
