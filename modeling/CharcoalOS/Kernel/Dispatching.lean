import CharcoalOS.Kernel.Answering

/-!
# Every command gets its reply

`answers_handler` goes through the table of commands, and `command_replies` concludes what
`dispatch_command` does with any command, whenever timer interrupts are taken. Only `uptime`
can tell: it reads the tick counter once, before it prints.
-/

namespace CharcoalOS.Kernel

open Effect Effect.Code Words

/-- No load raises an interrupt: the exceptions that it can raise are synchronous. -/
def Platform.Synchronous (platform : Platform) : Prop :=
  ∀ address e, platform.load address = .error e → ¬ e.Irq

section Handlers

variable {platform : Platform} {argv : Argv} {words : List (List UInt8)} {word string : List UInt8}

/-- A number is read as far as the word spells one. -/
theorem consoleUint64FromHex_reads (reads : ReadsAs word string) :
    consoleUint64FromHex string = some (numberOf word) := by
  obtain ⟨-, behind, rfl⟩ := reads
  obtain ⟨c, after, whole, split⟩ := exists_hexSplit word behind
  rw [whole]
  exact split.reads after

theorem answers_newline {a : Int} :
    Answers platform (consolePrint (cString "\n") >>= fun _ => Pure.pure a)
      (.answer (lineOf "\n") a) :=
  .congr (.write (writes_literal _) (.pure a)) fun _ => congrArg (Result.mk _ _) (List.append_nil _)

theorem answers_add (reads : List.Forall₂ ReadsAs words argv) :
    Answers platform (addHandler platform argv) (addReply words) := by
  have usage : Answers platform (do
      consolePrint (cString "Usage: add 0x1234 0xdbca\n")
      Pure.pure (1 : Int)) (.answer (lineOf "Usage: add 0x1234 0xdbca\n") 1) :=
    .congr (.write (writes_literal _) (.pure 1)) fun _ =>
      congrArg (Result.mk _ _) (List.append_nil _)
  rcases reads with _ | @⟨name, name', _, _, _, _ | @⟨a, a', _, _, first, _ | @⟨b, b', _, _, second,
    _ | _⟩⟩⟩
  · exact usage
  · exact usage
  · exact usage
  · have three : ¬ ([name', a', b'] : Argv).length ≠ 3 := not_not.mpr rfl
    unfold addHandler
    rw [if_neg three]
    simp only [Argv.hex, Argv.get, List.getElem?_cons_zero, List.getElem?_cons_succ,
      ofOption_some, pure_bind, consoleUint64FromHex_reads first,
      consoleUint64FromHex_reads second]
    exact .write (writes_hex _) answers_newline
  · unfold addHandler
    rw [if_pos (by simp)]
    exact usage

theorem writes_commands (commands : List ShellCommand) :
    Writes platform (printCommands commands) (commands.flatMap fun command =>
      lineOf command.name ++ lineOf "\t\t" ++ lineOf command.helpText ++ lineOf "\n") := by
  induction commands with
  | nil => exact .pure ()
  | cons command commands ih =>
      rw [printCommands, List.flatMap_cons]
      simp only [List.append_assoc] at ih ⊢
      exact .write (writes_literal _) (.write (writes_literal _) (.write (writes_literal _)
        (.write (writes_literal _) ih)))

theorem answers_help : Answers platform helpHandler (.answer helpText 0) := by
  unfold helpHandler helpText
  rw [List.append_assoc]
  exact .write (writes_literal _) (.write (writes_commands _) answers_newline)

/-- A line with a value. -/
theorem Answers.line {c : Routine Int} {text value : List UInt8} {a : Int} (name : String)
    {d : Routine Unit} (shows_ : Writes platform d value)
    (then_ : Answers platform c (.answer text a)) :
    Answers platform (do
      consolePrint (cString name)
      d
      consolePrint (cString "\n")
      c) (.answer (lineOf name ++ (value ++ (lineOf "\n" ++ text))) a) :=
  .write (writes_literal name) (.write shows_ (.write (writes_literal "\n") then_))

theorem answers_info : Answers platform (infoHandler platform) (.answer (infoText platform) 0) := by
  unfold infoHandler infoText
  simp only [List.flatten_cons, List.flatten_nil]
  have text (text : String) : Writes platform (consolePrint (cString text)) _ := writes_literal text
  have hex (value : UInt64) : Writes platform (printHex platform value) _ := writes_hex value
  have byte (value : UInt8) : Writes platform (printHexChar platform value) _ :=
    writes_hexChar value
  refine .write (text _) (.write (text _) (.line _ (text _) (.write (text _) (.write (text _) ?_))))
  refine .line _ (byte _) (.write (text _) (.write (text _) ?_))
  refine .line _ (hex _) (.line _ (hex _) (.line _ (hex _) (.line _ (byte _) ?_)))
  refine .line _ (hex _) (.line _ (hex _) (.line _ (text _) (.line _ (text _) ?_)))
  exact .line _ (hex _) (.line _ (hex _) (.line _ (hex _) (.line _ (hex _) (.pure 0))))

theorem answers_load (synchronous : platform.Synchronous) (address : UInt64) :
    Answers platform (loadMemory platform address) (loadReply platform address) := by
  unfold loadMemory loadReply
  cases load : platform.load address with
  | ok contents => exact .pure contents
  | error e => exact .bind (answers_exception (synchronous address e load)) fun _ => .fail .faulted

theorem answers_addresses (synchronous : platform.Synchronous)
    (reads : List.Forall₂ ReadsAs words argv) :
    Answers platform (readAddresses platform argv) (memreadReply platform words) := by
  induction reads with
  | nil => exact .pure ()
  | @cons word string words argv first _ ih =>
      unfold readAddresses memreadReply
      simp only [consoleUint64FromHex_reads first, ofOption_some, pure_bind]
      have front : Writes platform _ (digitsOf (numberOf word) ++ lineOf "    ") :=
        .write (writes_hex (numberOf word)) (writes_literal "    ")
      have line (contents : UInt64) : Writes platform _ (digitsOf contents ++ lineOf "\n") :=
        .write (writes_hex contents) (writes_literal "\n")
      have whole := Answers.bind front fun _ =>
        Answers.bind (answers_load synchronous (numberOf word)) fun contents =>
          Answers.bind (line contents) fun _ => ih
      simp only [bind_assoc] at whole
      exact whole

theorem answers_memread (synchronous : platform.Synchronous)
    (reads : List.Forall₂ ReadsAs words argv) :
    Answers platform (memreadHandler platform argv)
      (memreadReply platform words.tail >>= fun _ => pure 0) := by
  have rest : List.Forall₂ ReadsAs words.tail argv.tail := by
    cases reads with
    | nil => exact .nil
    | cons _ rest => exact rest
  exact .bind (answers_addresses synchronous rest) fun _ => .pure 0

theorem kernelPanic_bind {α : Type} (message : List UInt8) (rest : Unit → Routine α) :
    (kernelPanic (some message) >>= rest) =
      (consolePrint message >>= fun _ => consolePrint (cString "\n\n") >>= fun _ => halt) := by
  unfold kernelPanic
  simp only [bind_assoc, halt_bind]

theorem answers_panic (reads : List.Forall₂ ReadsAs words argv) :
    Answers platform (panicHandler argv) (.stop (panicText words) .halted) := by
  have panic {message string : List UInt8} (reads : ReadsAs message string) :
      Answers platform (consolePrint (cString "Kernel panic\n\n") >>= fun _ =>
          kernelPanic (some string) >>= fun _ => pure 0)
        (.stop (lineOf "Kernel panic\n\n" ++ (onLine message ++ lineOf "\n\n")) (α := Int)
          .halted) := by
    rw [kernelPanic_bind]
    refine .congr (.writeStop (writes_literal _) (.writeStop (writes_string reads)
      (.writeStop (writes_literal _) answers_halt))) fun _ => ?_
    rw [List.append_nil]
  unfold panicHandler panicText
  rcases reads with _ | ⟨name, _ | ⟨message, _⟩⟩
  · exact .writeStop (writes_literal _) answers_halt
  · exact panic name
  · exact panic message

theorem answers_trapsvc (reads : List.Forall₂ ReadsAs words argv) :
    Answers platform (trapsvcHandler platform argv) (trapsvcReply platform words) := by
  have call (number : UInt64) : Answers platform (svc platform number >>= fun _ => pure 0)
      (exceptionReply (shellCall platform number) >>= fun _ => pure (0 : Int)) := by
    have sync : ¬ (shellCall platform number).Irq := by
      intro irq
      exact absurd (show exceptionTypeSyncEl1Spx = exceptionTypeIrqEl1Spx from irq) (by decide)
    exact .bind (answers_exception sync) fun _ => .pure 0
  unfold trapsvcHandler trapsvcReply
  rcases reads with _ | ⟨name, _ | ⟨number, _⟩⟩
  · exact call 4
  · exact call 4
  · rw [if_neg (by simp)]
    simp only [Argv.hex, Argv.get, List.getElem?_cons_zero, List.getElem?_cons_succ,
      ofOption_some, pure_bind, consoleUint64FromHex_reads number]
    exact call _

/-- **Every handler** but the one that tells the time. -/
theorem answers_handler (synchronous : platform.Synchronous)
    (reads : List.Forall₂ ReadsAs words argv) {handler : Handler} (other : handler ≠ .uptime)
    (ticksSinceBoot : UInt64) :
    Answers platform (callHandler platform handler argv)
      (handlerReply platform ticksSinceBoot handler words) := by
  have call {c : Routine Int} {p : Reply Int} (answers : Answers platform c p) :
      Answers platform (Code.emit (.handler handler) >>= fun _ => c) p :=
    .bind (answers_emit rfl) fun _ => answers
  cases handler with
  | add => exact call (answers_add reads)
  | help => exact call answers_help
  | info => exact call answers_info
  | memread => exact call (answers_memread synchronous reads)
  | panic => exact call (answers_panic reads)
  | reboot => exact call answers_reboot
  | trapsvc => exact call (answers_trapsvc reads)
  | uptime => exact absurd rfl other

end Handlers

/-! ## The time -/

/-- How many timer interrupts there are in a trace. -/
def ticksIn (trace : List (Event ⊕ Exception)) : UInt64 := UInt64.ofNat (met trace).length

/-- A run comes to the reply at a time, which is when the run has come as far as `before`; until
then it has printed nothing. -/
structure RepliesAt {α : Type} (reply : UInt64 → Reply α) (s : State)
    (before after : List (Event ⊕ Exception)) (r : Result State Stop (Event ⊕ Exception) α) :
    Prop where
  events : r.events = before ++ after
  silent : printed (own before) = []
  outcome : r.outcome =
    (reply (s.ticksSinceBoot + ticksIn before) s.exceptionInProgress).outcome
  text : printed (own r.events) =
    (reply (s.ticksSinceBoot + ticksIn before) s.exceptionInProgress).events
  received : r.state.received = s.received
  flag : r.state.exceptionInProgress =
    (reply (s.ticksSinceBoot + ticksIn before) s.exceptionInProgress).state
  ticks : r.state.ticksSinceBoot = s.ticksSinceBoot + ticksIn r.events

/-- Whenever timer interrupts are taken, the routine comes to the reply at some time meanwhile. -/
def Replies {α : Type} (platform : Platform) (c : Routine α) (reply : UInt64 → Reply α) : Prop :=
  ∀ s r, Runs (TimerTaken platform) c s r → ∃ before after, RepliesAt reply s before after r

section Replies

variable {α β : Type} {platform : Platform} {c : Routine α} {f : α → Routine β} {p : Reply α}
  {reply : UInt64 → Reply α} {g : α → Reply β} {trace trace' : List (Event ⊕ Exception)}

theorem ticksIn_append : ticksIn (trace ++ trace') = ticksIn trace + ticksIn trace' := by
  unfold ticksIn
  rw [met_append, List.length_append, UInt64.ofNat_add]

/-- What does not depend on the time. -/
theorem Answers.replies (answers : Answers platform c p) : Replies platform c fun _ => p := by
  intro s r runs
  obtain ⟨outcome, own_, moves⟩ := answers.commutes.runs runs
  have state := moves_ticks moves
  rw [answers.state] at state
  refine ⟨[], r.events, rfl, rfl, outcome.trans (answers.outcome s), ?_, ?_, ?_, ?_⟩
  · rw [own_]
    exact answers.text s
  · rw [state]
  · rw [state]
  · rw [state]
    rfl

/-- What is done first must be silent, or the time would be told too late. -/
theorem Replies.after {a : α} {reply : UInt64 → Reply β}
    (first : Answers platform c (.answer [] a)) (then_ : Replies platform (f a) reply) :
    Replies platform (c >>= f) reply := by
  intro s r runs
  obtain ⟨r₁, runs₁, rest⟩ := runs_bind_iff.mp runs
  obtain ⟨_, _, at₁⟩ := first.replies s r₁ runs₁
  obtain ⟨r₂, runs₂, rfl⟩ := runs_bind_ok rest at₁.outcome
  obtain ⟨before, after, at₂⟩ := then_ r₁.state r₂ runs₂
  have ticks : r₁.state.ticksSinceBoot + ticksIn before =
      s.ticksSinceBoot + ticksIn (r₁.events ++ before) := by
    rw [at₁.ticks, ticksIn_append, UInt64.add_assoc]
  have flag : r₁.state.exceptionInProgress = s.exceptionInProgress := at₁.flag
  have silent : printed (own r₁.events) = [] := at₁.text
  have outcome := at₂.outcome
  have text := at₂.text
  have flag₂ := at₂.flag
  rw [ticks, flag] at outcome text flag₂
  refine ⟨r₁.events ++ before, after, ?_, ?_, outcome, ?_, ?_, flag₂, ?_⟩
  · rw [Result.after_events, at₂.events, List.append_assoc]
  · rw [own_append, printed_append, silent, at₂.silent]
    rfl
  · rw [Result.after_events, own_append, printed_append, silent]
    exact text
  · exact at₂.received.trans at₁.received
  · rw [Result.after_state, at₂.ticks, at₁.ticks, Result.after_events, ticksIn_append,
      UInt64.add_assoc]

theorem Replies.bind (first : Replies platform c reply)
    (then_ : ∀ a, Answers platform (f a) (g a)) :
    Replies platform (c >>= f) fun time => reply time >>= g := by
  intro s r runs
  obtain ⟨r₁, runs₁, rest⟩ := runs_bind_iff.mp runs
  obtain ⟨before, after, at₁⟩ := first s r₁ runs₁
  rcases told : reply (s.ticksSinceBoot + ticksIn before) s.exceptionInProgress with
    ⟨o, flag, text⟩
  have outcome := at₁.outcome
  have text₁ := at₁.text
  have flag₁ := at₁.flag
  rw [told] at outcome text₁ flag₁
  dsimp only at outcome text₁ flag₁
  cases o with
  | error why =>
      obtain rfl := runs_bind_error rest outcome
      refine ⟨before, after, at₁.events, at₁.silent, ?_, ?_, at₁.received, ?_, at₁.ticks⟩
      · rw [Program.bind_error told]
      · rw [Program.bind_error told]
        exact text₁
      · rw [Program.bind_error told]
        exact flag₁
  | ok a =>
      obtain ⟨r₂, runs₂, rfl⟩ := runs_bind_ok rest outcome
      obtain ⟨_, _, at₂⟩ := (then_ a).replies r₁.state r₂ runs₂
      have outcome₂ := at₂.outcome
      have text₂ := at₂.text
      have flag₂ := at₂.flag
      rw [flag₁] at outcome₂ text₂ flag₂
      refine ⟨before, after ++ r₂.events, ?_, at₁.silent, ?_, ?_, ?_, ?_, ?_⟩
      · rw [Result.after_events, at₁.events, List.append_assoc]
      · rw [Program.bind_ok told]
        exact outcome₂
      · rw [Program.bind_ok told, Result.after_events, own_append, printed_append, text₁, text₂]
      · exact at₂.received.trans at₁.received
      · rw [Program.bind_ok told]
        exact flag₂
      · rw [Result.after_state, at₂.ticks, at₁.ticks, Result.after_events, ticksIn_append,
          UInt64.add_assoc]

theorem Replies.congr {reply' : UInt64 → Reply α} (replies : Replies platform c reply)
    (same : ∀ time flag, reply time flag = reply' time flag) : Replies platform c reply' := by
  rwa [← show reply = reply' from funext fun time => funext (same time)]

/-- The counter is read. -/
theorem Replies.tick {f : UInt64 → Routine α}
    (each : ∀ time, Answers platform (f time) (reply time)) :
    Replies platform (Code.current >>= fun s => f s.ticksSinceBoot) reply := by
  intro s r runs
  obtain ⟨es, s', r', moves, runs', rfl⟩ := runs_current_iff.mp runs
  have state := moves_ticks moves
  obtain ⟨_, _, told⟩ := (each s'.ticksSinceBoot).replies s' r' runs'
  have time : s'.ticksSinceBoot = s.ticksSinceBoot + ticksIn (es.map .inr) := by
    rw [state]
    unfold ticksIn
    rw [met_map_inr]
  have flag : s'.exceptionInProgress = s.exceptionInProgress := by rw [state]
  have outcome := told.outcome
  have text := told.text
  have flag' := told.flag
  rw [time, flag] at outcome text flag'
  refine ⟨es.map .inr, r'.events, rfl, ?_, outcome, ?_, ?_, flag', ?_⟩
  · rw [own_map_inr]
    rfl
  · rw [Result.after_events, own_append, own_map_inr]
    exact text
  · exact told.received.trans (by rw [state])
  · rw [Result.after_state, told.ticks, time, Result.after_events, ticksIn_append,
      UInt64.add_assoc]

/-- **`uptime` tells a time between its call and its return.** -/
theorem replies_uptime :
    Replies platform (uptimeHandler platform) fun time => .answer (uptimeText time) 0 := by
  unfold uptimeHandler uptime
  simp only [bind_assoc, pure_bind]
  refine Replies.tick (f := fun time => (do
    consolePrint (cString "0x")
    printHex platform (1000 * time / interruptFrequencyInHz)
    consolePrint (cString "\n")
    Pure.pure 0)) fun time => ?_
  unfold uptimeText
  rw [List.append_assoc]
  exact .write (writes_literal _) (.write (writes_hex _) answers_newline)

variable {argv : Argv} {words : List (List UInt8)}

theorem replies_handler (synchronous : platform.Synchronous)
    (reads : List.Forall₂ ReadsAs words argv) (handler : Handler) :
    Replies platform (callHandler platform handler argv)
      fun time => handlerReply platform time handler words := by
  by_cases tells : handler = .uptime
  · rw [tells]
    exact .after (a := ()) (answers_emit rfl) replies_uptime
  · have answers (time : UInt64) := answers_handler synchronous reads tells time
    exact (answers 0).replies.congr fun time flag =>
      congrFun (handlerReply_timeless tells 0 time) flag

variable {name string : List UInt8}

/-- The loop finds the first entry that has the name. -/
theorem replies_dispatchLoop (synchronous : platform.Synchronous) (first : ReadsAs name string)
    (reads : List.Forall₂ ReadsAs words argv) (commands : List ShellCommand) :
    Replies platform (dispatchLoop platform (string :: argv) commands) fun time =>
      entryReply platform time name words
        (commands.find? fun command => name = chars (cString command.name)) := by
  induction commands with
  | nil =>
      refine Answers.replies ?_
      unfold dispatchLoop
      simp only [Argv.get, List.getElem?_cons_zero, ofOption_some, pure_bind]
      exact .write (writes_literal _) (.write (writes_string first) (writes_literal _))
  | cons command commands ih =>
      have table := readsAs_chars (zero_mem_cString command.name)
      unfold dispatchLoop
      simp only [Argv.get, List.getElem?_cons_zero, ofOption_some, pure_bind,
        first.stringCompare table, List.find?_cons]
      by_cases found : name = chars (cString command.name)
      · simp only [decide_eq_true found, if_true]
        refine .bind (replies_handler synchronous (.cons first reads) command.handler)
          fun result => ?_
        refine .ite (fun _ => ?_) fun _ => .pure ()
        exact .write (writes_literal _) (.write (writes_string first) (writes_literal _))
      · simp only [decide_eq_false found, if_false, Bool.false_eq_true]
        exact ih

end Replies

/-! ## Commands -/

section Commands

variable {platform : Platform} {command : List UInt8}

/-- The storage of a command when it has been tokenized. -/
def tokenized (command : List UInt8) : List UInt8 :=
  scannedTo (scanEnd (chars command) maxShellArgs) command

/-- The handler gets the words of the command. -/
theorem readsAs_arguments (terminated : 0 ∈ command) :
    List.Forall₂ ReadsAs (argumentsOf (chars command))
      (((tokenStarts (chars command)).take maxShellArgs).map (tokenized command).drop) := by
  unfold argumentsOf
  rw [List.forall₂_map_left_iff, List.forall₂_map_right_iff, List.forall₂_same]
  intro t member
  obtain ⟨k, token⟩ := List.mem_iff_getElem?.mp member
  have less : k < maxShellArgs := by
    have inside := (List.getElem?_eq_some_iff.mp token).1
    rw [List.length_take] at inside
    omega
  rw [List.getElem?_take_of_lt less] at token
  obtain ⟨clean, behind, whole⟩ := readsAs_chars terminated
  have reads := readsAs_token clean behind token less
  rwa [← whole] at reads

theorem replies_dispatch (synchronous : platform.Synchronous) (terminated : 0 ∈ command) :
    Replies platform (dispatchCommand platform command) fun time =>
      commandReply platform (chars command) time >>= fun _ => pure (tokenized command) := by
  obtain ⟨clean, behind, whole⟩ := readsAs_chars terminated
  have scanned := tokenizeCommand_scanned clean behind maxShellArgs
  rw [← whole] at scanned
  have arguments := readsAs_arguments terminated
  unfold dispatchCommand
  refine .after (a := ()) (answers_emit rfl) ?_
  rw [scanned]
  simp only [ofOption_some, pure_bind]
  unfold commandReply
  rcases words : argumentsOf (chars command) with _ | ⟨name, words⟩
  · rw [words] at arguments
    have none := List.map_eq_nil_iff.mp (List.forall₂_nil_left_iff.mp arguments)
    rw [none, List.length_nil, if_pos rfl]
    exact (Answers.pure _).replies
  · rw [words] at arguments
    obtain ⟨string, argv, first, reads, storages⟩ := List.forall₂_cons_left_iff.mp arguments
    have some_ : ((tokenStarts (chars command)).take maxShellArgs).length ≠ 0 := by
      rw [← List.length_map (tokenized command).drop, storages]
      exact Nat.succ_ne_zero _
    have loop := (replies_dispatchLoop synchronous first reads commands).bind
      fun _ => (Answers.pure (tokenized command) : Answers platform _ _)
    rw [if_neg some_]
    unfold tokenized at storages loop
    rw [storages]
    exact loop

/-- **Every command gets its reply**, whenever timer interrupts are taken, and the call returns
but for the commands that stop the processor. -/
theorem command_replies (synchronous : platform.Synchronous) (terminated : 0 ∈ command) :
    (Replies platform (dispatchCommand platform command) fun time =>
      commandReply platform (chars command) time >>= fun _ => pure (tokenized command)) ∧
    ∀ s r, Runs (TimerTaken platform) (dispatchCommand platform command) s r →
      ((∃ why, r.outcome = .error why) ↔ StopsSystem platform (chars command)) := by
  have replies := replies_dispatch synchronous terminated
  refine ⟨replies, fun s r runs => ?_⟩
  obtain ⟨before, _, told⟩ := replies s r runs
  rw [told.outcome]
  have last (u : Unit) (flag : UInt64) :
      ¬ Fails (pure (tokenized command) : Reply (List UInt8)) flag := not_fails_answer [] _ flag
  exact (fails_bind_iff last _).trans (fails_command_iff _ _)

/-- There is no memory at address 0. -/
def loadUnlessZero (address : UInt64) : Except Exception UInt64 :=
  if address = 0 then .error (.plain exceptionTypeSyncEl1Spx 0x96000010 0 0) else .ok address

def withoutZero : Platform := { Platform.virt with load := loadUnlessZero }

theorem synchronous_withoutZero : withoutZero.Synchronous := by
  intro address e load
  have load : loadUnlessZero address = .error e := load
  unfold loadUnlessZero at load
  split at load
  · rw [← Except.error.inj load]
    decide
  · cases load

/-- Two loads, and the second faults. -/
theorem command_replies_memread :
    (Replies withoutZero (dispatchCommand withoutZero (cString "memread 10 0")) fun time =>
      commandReply withoutZero (chars (cString "memread 10 0")) time >>= fun _ =>
        pure (tokenized (cString "memread 10 0"))) ∧
    ∀ s r,
      Runs (TimerTaken withoutZero) (dispatchCommand withoutZero (cString "memread 10 0")) s r →
      ((∃ why, r.outcome = .error why) ↔
        StopsSystem withoutZero (chars (cString "memread 10 0"))) :=
  command_replies synchronous_withoutZero (by decide)

end Commands

end CharcoalOS.Kernel
