import CharcoalOS.Kernel.Handlers
import CharcoalOS.Kernel.HexReference
import CharcoalOS.Kernel.Splitting

/-!
# What the shell is for

The commands of the shell as a user sees them: what each prints, and whether another command can
follow. A `Reply` says so without a console, a buffer or a step: it is a function of the words
of the command, of `g_exception_in_progress`, and for `uptime` of the time.
-/

namespace CharcoalOS.Kernel

open Effect

/-! ## Texts -/

/-- The characters that events print. -/
def printed (evs : List Event) : List UInt8 :=
  evs.filterMap fun
    | .putc c => some c
    | _ => none

/-- A text as it goes over the line, with a carriage return before each line feed. -/
def onLine (text : List UInt8) : List UInt8 :=
  text.flatMap fun c => if c = 10 then [13, c] else [c]

/-- So does a literal. -/
def lineOf (text : String) : List UInt8 := onLine (chars (cString text))

/-- All digits of a value, the most significant first. -/
def digitsOf (value : UInt64) : List UInt8 := hexText 16 value.toNat

/-- `g_exception_in_progress` as it is found and left, what is printed, and the result, unless
the processor stops. -/
abbrev Reply (α : Type) : Type := Program UInt64 Stop UInt8 α

namespace Reply

variable {α : Type}

def text (text : List UInt8) : Reply Unit := fun flag => ⟨.ok (), flag, text⟩

/-- The result, after a text. -/
def answer (text : List UInt8) (a : α) : Reply α := fun flag => ⟨.ok a, flag, text⟩

def stop (text : List UInt8) (why : Stop) : Reply α := fun flag => ⟨.error why, flag, text⟩

end Reply

/-! ## Exceptions -/

/-- The line for a saved register. -/
def registerText (value : UInt64) (i : ℕ) : List UInt8 :=
  lineOf "0x" ++ (digitsOf (UInt64.ofNat i) ++ (lineOf " 0x" ++ (digitsOf value ++ lineOf "\n")))

def registersText (savedRegisters : Vector UInt64 32) : List UInt8 :=
  (savedRegisters.toList.zipIdx.map fun p => registerText p.1 p.2).flatten

def diagnosticsText (e : Exception) : List UInt8 :=
  let exceptionClass := exceptionClassFromEsrEl1 e.esrEl1
  List.flatten [lineOf "\n\nSorry, a system error has occurred.\n",
    lineOf "Type =  0x", digitsOf e.kindOfException, lineOf " = ",
    lineOf (exceptionTypeString e.kindOfException), lineOf "\n",
    lineOf "Class = 0x", digitsOf exceptionClass, lineOf " = ",
    lineOf (exceptionClassToString exceptionClass),
    lineOf "\nISS   = 0x", digitsOf (issFromEsrEl1 e.esrEl1), lineOf "\n\n",
    lineOf "ESR_EL1:  0x", digitsOf e.esrEl1, lineOf "\nELR_EL1:  0x", digitsOf e.elrEl1,
    lineOf "\nSPSR_EL1: 0x", digitsOf e.spsrEl1, lineOf "\nFAR_EL1:  0x", digitsOf e.farEl1,
    lineOf "\n\n", lineOf "Saved registers (Register Value): \n", registersText e.savedRegisters,
    lineOf "Kernel panic: your computer must be restarted.\n"]

/-- What becomes of an exception that is not an interrupt. -/
def exceptionReply (e : Exception) : Reply Unit := fun flag =>
  if e.RestartCall then
    Reply.stop (lineOf "System call received: 0x4444 ... restart\n") .restarted flag
  else if e.ResumedCall then
    ⟨.ok (), 0, lineOf "System call received: 0x" ++ digitsOf e.systemCallNumber ++ lineOf "\n"⟩
  else if flag ≠ 0 then Reply.stop [] .halted flag
  else ⟨.error .halted, 1, diagnosticsText e⟩

/-! ## Commands -/

/-- The words of a command that its handler gets. If the command begins with a blank, the first
of them is empty. -/
def argumentsOf (command : List UInt8) : List (List UInt8) :=
  ((tokenStarts command).take maxShellArgs).map (Words.wordAt isBlank command)

/-- The number that a word spells, as far as it does. -/
def numberOf (word : List UInt8) : UInt64 := UInt64.ofNat (hexNumber (hexDigits word))

def addReply : List (List UInt8) → Reply Int
  | [_, a, b] => .answer (digitsOf (numberOf a + numberOf b) ++ lineOf "\n") 0
  | _ => .answer (lineOf "Usage: add 0x1234 0xdbca\n") 1

def helpText : List UInt8 :=
  lineOf "CharcoalOS available commands:\n\n" ++
    (commands.flatMap fun command =>
      lineOf command.name ++ lineOf "\t\t" ++ lineOf command.helpText ++ lineOf "\n") ++
    lineOf "\n"

/-- The two digits of a byte. -/
def byteDigitsOf (value : UInt8) : List UInt8 := hexText 2 value.toNat

def infoText (platform : Platform) : List UInt8 :=
  let info := platform.info
  List.flatten [lineOf "CharcoalOS built and linked on ", lineOf info.date, lineOf " ",
    lineOf info.time, lineOf "\n", lineOf "Compiler: ", lineOf info.compiler.name,
    lineOf "Pointer size (bytes): 0x", byteDigitsOf 8, lineOf "\n",
    lineOf "Hosted C environment: ", lineOf (if info.hosted then "yes\n" else "no\n"),
    lineOf "MMIO base address: 0x", digitsOf info.mmioBaseAddress, lineOf "\n",
    lineOf "UART base address: 0x", digitsOf info.uartBaseAddress, lineOf "\n",
    lineOf "Stack pointer: 0x", digitsOf info.stackPointerAddress, lineOf "\n",
    lineOf "Current exception level: 0x", byteDigitsOf info.currentExceptionLevel.toUInt8,
    lineOf "\n", lineOf "MPIDR_EL1: 0x", digitsOf info.mpidrEl1, lineOf "\n",
    lineOf "SCTLR_EL1: 0x", digitsOf info.sctlrEl1, lineOf "\n",
    lineOf "Architecture: ", lineOf archName, lineOf "\n",
    lineOf "Platform: ", lineOf info.platformName, lineOf "\n",
    lineOf "System clock frequency (Hz): 0x", digitsOf platform.timerFrequency, lineOf "\n",
    lineOf "Interrupt timer ticks per second: 0x", digitsOf interruptFrequencyInHz, lineOf "\n",
    lineOf "3.125 (hex): 0x", digitsOf 0x4009000000000000, lineOf "\n",
    lineOf "sqrt(2): 0x", digitsOf 0x3ff6a09e667f3bcd, lineOf "\n"]

/-- A load that resumes is tried again, and faults again. -/
def loadReply (platform : Platform) (address : UInt64) : Reply UInt64 :=
  match platform.load address with
  | .ok contents => pure contents
  | .error e => exceptionReply e >>= fun _ => Program.fail .faulted

/-- One line for each address, up to one that cannot be read. -/
def memreadReply (platform : Platform) : List (List UInt8) → Reply Unit
  | [] => pure ()
  | word :: words => do
      Reply.text (digitsOf (numberOf word) ++ lineOf "    ")
      let contents ← loadReply platform (numberOf word)
      Reply.text (digitsOf contents ++ lineOf "\n")
      memreadReply platform words

/-- The message is the word after the name, or the name. -/
def panicText (arguments : List (List UInt8)) : List UInt8 :=
  lineOf "Kernel panic\n\n" ++
    match arguments with
    | _ :: message :: _ => onLine message ++ lineOf "\n\n"
    | [message] => onLine message ++ lineOf "\n\n"
    | [] => []

/-- A system call of the shell. -/
def shellCall (platform : Platform) (number : UInt64) : Exception :=
  { platform.atSvc with
    kindOfException := exceptionTypeSyncEl1Spx
    savedRegisters := platform.atSvc.savedRegisters.set 8 number eight_saved
    esrEl1 := 0x56000000 }

def trapsvcReply (platform : Platform) (arguments : List (List UInt8)) : Reply Int := do
  let number := match arguments with
    | _ :: number :: _ => numberOf number
    | _ => 4
  exceptionReply (shellCall platform number)
  pure 0

/-- Ten milliseconds a tick, as far as 64 bits go. -/
def uptimeText (ticksSinceBoot : UInt64) : List UInt8 :=
  lineOf "0x" ++ digitsOf (1000 * ticksSinceBoot / interruptFrequencyInHz) ++ lineOf "\n"

def handlerReply (platform : Platform) (ticksSinceBoot : UInt64) (handler : Handler)
    (arguments : List (List UInt8)) : Reply Int :=
  match handler with
  | .add => addReply arguments
  | .help => .answer helpText 0
  | .info => .answer (infoText platform) 0
  | .memread => memreadReply platform arguments.tail >>= fun _ => pure 0
  | .panic => .stop (panicText arguments) .halted
  | .reboot => .stop [] .restarted
  | .trapsvc => trapsvcReply platform arguments
  | .uptime => .answer (uptimeText ticksSinceBoot) 0

def unknownText (name : List UInt8) : List UInt8 :=
  lineOf "Error: the command " ++
    (onLine name ++ lineOf " could not be recognized. Type help for a list of commands.\n")

def failedText (name : List UInt8) : List UInt8 :=
  lineOf "Error: an error occurred in the command " ++ (onLine name ++ lineOf "\n")

/-- The reply of what a name has been found to be. -/
def entryReply (platform : Platform) (ticksSinceBoot : UInt64) (name : List UInt8)
    (arguments : List (List UInt8)) : Option ShellCommand → Reply Unit
  | none => .text (unknownText name)
  | some entry => do
      let result ← handlerReply platform ticksSinceBoot entry.handler (name :: arguments)
      if result ≠ 0 then Reply.text (failedText name) else pure ()

/-- The entry of the table with the name. -/
def commandNamed (name : List UInt8) : Option ShellCommand :=
  commands.find? fun command => name = chars (cString command.name)

/-- The reply to a command, at a time. -/
def commandReply (platform : Platform) (command : List UInt8) (ticksSinceBoot : UInt64) :
    Reply Unit :=
  match argumentsOf command with
  | [] => pure ()
  | name :: arguments =>
      entryReply platform ticksSinceBoot name arguments (commandNamed name)

/-! ## What stops the processor, and what tells the time -/

/-- The command is `uptime`. -/
def AsksTime (command : List UInt8) : Prop :=
  (argumentsOf command).head? = some (chars (cString "uptime"))

/-- The handler of a command does not return, with these words behind the name. -/
def HandlerStops (platform : Platform) : Handler → List (List UInt8) → Prop
  | .memread, words => ∃ word ∈ words, ∃ e, platform.load (numberOf word) = .error e
  | .panic, _ => True
  | .reboot, _ => True
  | .trapsvc, number :: _ => numberOf number = 0x4444 ∨ numberOf number = 0x7777
  | _, _ => False

/-- No command can follow. -/
def StopsSystem (platform : Platform) (command : List UInt8) : Prop :=
  ∃ name words entry, argumentsOf command = name :: words ∧ commandNamed name = some entry ∧
    HandlerStops platform entry.handler words

section Replies

variable {α β : Type} {platform : Platform} {p : Reply α} {f : α → Reply β} {handler : Handler}
  {arguments : List (List UInt8)} {command : List UInt8}

/-- If the reply stops the processor, it does so for good. -/
def EndsForGood (p : Reply α) : Prop := ∀ flag why, (p flag).outcome = .error why → Final why

theorem EndsForGood.answer (text : List UInt8) (a : α) : EndsForGood (.answer text a) := by
  intro flag why stops
  cases stops

theorem EndsForGood.stop (text : List UInt8) {why : Stop} (final : Final why) :
    EndsForGood (.stop text why : Reply α) := by
  intro flag why' stops
  cases stops
  exact final

theorem EndsForGood.bind (first : EndsForGood p) (then_ : ∀ a, EndsForGood (f a)) :
    EndsForGood (p >>= f) := by
  intro flag why stops
  rcases reply : p flag with ⟨o, flag', text⟩
  cases o with
  | error why' =>
      rw [Program.bind_error reply] at stops
      cases stops
      exact first flag why (congrArg Result.outcome reply)
  | ok a =>
      rw [Program.bind_ok reply] at stops
      exact then_ a flag' why stops

/-- Only `uptime` asks for the time. -/
theorem handlerReply_timeless (other : handler ≠ .uptime) (time time' : UInt64) :
    handlerReply platform time handler arguments =
      handlerReply platform time' handler arguments := by
  unfold handlerReply
  cases handler with
  | uptime => exact absurd rfl other
  | _ => rfl

theorem name_of_uptime : ∀ entry ∈ commands, entry.handler = .uptime → entry.name = "uptime" := by
  decide

theorem commandNamed_some {name : List UInt8} {entry : ShellCommand}
    (found : commandNamed name = some entry) :
    entry ∈ commands ∧ name = chars (cString entry.name) := by
  unfold commandNamed at found
  obtain ⟨named, -⟩ := List.find?_eq_some_iff_append.mp found
  exact ⟨List.mem_of_find?_eq_some found, of_decide_eq_true named⟩

theorem entryReply_timeless {name : List UInt8} {found : Option ShellCommand}
    (other : ∀ entry, found = some entry → entry.handler ≠ .uptime) (time time' : UInt64) :
    entryReply platform time name arguments found =
      entryReply platform time' name arguments found := by
  cases found with
  | none => rw [entryReply, entryReply]
  | some entry => rw [entryReply, entryReply, handlerReply_timeless (other entry rfl) time time']

theorem commandReply_timeless (timeless : ¬ AsksTime command) (time time' : UInt64) :
    commandReply platform command time = commandReply platform command time' := by
  unfold commandReply
  cases words : argumentsOf command with
  | nil => rfl
  | cons name arguments =>
      refine entryReply_timeless (fun entry found tells => ?_) time time'
      obtain ⟨member, named⟩ := commandNamed_some found
      rw [name_of_uptime entry member tells] at named
      refine timeless ?_
      unfold AsksTime
      rw [words, named]
      rfl

/-! ### Which commands stop the processor -/

/-- There is no result. -/
def Fails (p : Reply α) (flag : UInt64) : Prop := ∃ why, (p flag).outcome = .error why

theorem not_fails_answer (text : List UInt8) (a : α) (flag : UInt64) :
    ¬ Fails (Reply.answer text a) flag := by
  rintro ⟨why, stops⟩
  cases stops

theorem fails_bind_of_fails {flag : UInt64} (fails : Fails p flag) : Fails (p >>= f) flag := by
  obtain ⟨why, stops⟩ := fails
  rcases reply : p flag with ⟨o, flag', text⟩
  rw [reply] at stops
  cases stops
  exact ⟨why, by rw [Program.bind_error reply]⟩

/-- What cannot fail at the end does not matter. -/
theorem fails_bind_iff (last : ∀ a flag, ¬ Fails (f a) flag) (flag : UInt64) :
    Fails (p >>= f) flag ↔ Fails p flag := by
  refine ⟨fun fails => ?_, fails_bind_of_fails⟩
  obtain ⟨why, stops⟩ := fails
  rcases reply : p flag with ⟨o, flag', text⟩
  cases o with
  | error why' => exact ⟨why', congrArg Result.outcome reply⟩
  | ok a =>
      rw [Program.bind_ok reply] at stops
      exact absurd ⟨why, stops⟩ (last a flag')

theorem fails_text_iff {q : Reply α} (text : List UInt8) (flag : UInt64) :
    Fails (Reply.text text >>= fun _ => q) flag ↔ Fails q flag := Iff.rfl

theorem fails_pure_iff (a : α) (flag : UInt64) :
    Fails ((pure a : Reply α) >>= f) flag ↔ Fails (f a) flag := Iff.rfl

theorem svc_shellCall (number : UInt64) : (shellCall platform number).Svc := by
  constructor
  · rfl
  · show exceptionClassFromEsrEl1 0x56000000 = exceptionClassSvcAarch64
    decide

/-- A system call of the shell fails if it asks for a restart or a panic. -/
theorem fails_call_iff (number flag : UInt64) :
    Fails (exceptionReply (shellCall platform number)) flag ↔
      number = 0x4444 ∨ number = 0x7777 := by
  have svc : (shellCall platform number).Svc := svc_shellCall number
  have number_ : (shellCall platform number).systemCallNumber = number :=
    Vector.getElem_set_self eight_saved
  unfold Fails exceptionReply
  by_cases restart : number = 0x4444
  · rw [if_pos ⟨svc, number_.trans restart⟩]
    exact ⟨fun _ => Or.inl restart, fun _ => ⟨_, rfl⟩⟩
  · rw [if_neg fun call => restart (number_.symm.trans call.2)]
    by_cases panic : number = 0x7777
    · have other : ¬ (shellCall platform number).ResumedCall :=
        fun call => call.2.2 (number_.trans panic)
      rw [if_neg other]
      refine ⟨fun _ => Or.inr panic, fun _ => ?_⟩
      split
      · exact ⟨_, rfl⟩
      · exact ⟨_, rfl⟩
    · have resumed : (shellCall platform number).ResumedCall :=
        ⟨svc, fun same => restart (number_.symm.trans same),
          fun same => panic (number_.symm.trans same)⟩
      rw [if_pos resumed]
      constructor
      · rintro ⟨why, stops⟩
        cases stops
      · rintro (same | same)
        · exact absurd same restart
        · exact absurd same panic

theorem loadReply_error {address : UInt64} {e : Exception}
    (load : platform.load address = .error e) :
    loadReply platform address = exceptionReply e >>= fun _ => Program.fail .faulted := by
  unfold loadReply
  rw [load]

/-- A load that faults never succeeds. -/
theorem fails_load_of_error {address : UInt64} {e : Exception}
    (load : platform.load address = .error e) (flag : UInt64) :
    Fails (loadReply platform address) flag := by
  rw [loadReply_error load]
  rcases reply : exceptionReply e flag with ⟨o, flag', text⟩
  cases o with
  | error why => exact fails_bind_of_fails ⟨why, congrArg Result.outcome reply⟩
  | ok _ => exact ⟨.faulted, by rw [Program.bind_ok reply]; rfl⟩

theorem fails_memread_iff (words : List (List UInt8)) (flag : UInt64) :
    Fails (memreadReply platform words) flag ↔
      ∃ word ∈ words, ∃ e, platform.load (numberOf word) = .error e := by
  induction words with
  | nil =>
      constructor
      · intro fails
        exact absurd fails (not_fails_answer [] () flag)
      · rintro ⟨word, member, -⟩
        cases member
  | cons word words ih =>
      unfold memreadReply
      rw [fails_text_iff]
      cases load : platform.load (numberOf word) with
      | error e =>
          refine ⟨fun _ => ⟨word, List.mem_cons_self, e, load⟩, fun _ => ?_⟩
          exact fails_bind_of_fails (fails_load_of_error load flag)
      | ok contents =>
          have goes : loadReply platform (numberOf word) = pure contents := by
            unfold loadReply
            rw [load]
          rw [goes, fails_pure_iff, fails_text_iff, ih]
          constructor
          · rintro ⟨word', member, faults⟩
            exact ⟨word', List.mem_cons_of_mem _ member, faults⟩
          · rintro ⟨word', member, e, faults⟩
            rcases List.mem_cons.mp member with rfl | later
            · rw [load] at faults
              cases faults
            · exact ⟨word', later, e, faults⟩

theorem fails_handler_iff (name : List UInt8) (time flag : UInt64) :
    Fails (handlerReply platform time handler (name :: arguments)) flag ↔
      HandlerStops platform handler arguments := by
  have never {text : List UInt8} {a : Int} :
      Fails (Reply.answer text a) flag ↔ False := iff_false_intro (not_fails_answer text a flag)
  have zero (u : Unit) (flag : UInt64) : ¬ Fails (pure 0 : Reply Int) flag :=
    not_fails_answer [] 0 flag
  cases handler with
  | add =>
      show Fails (addReply _) flag ↔ False
      unfold addReply
      split
      · exact never
      · exact never
  | help => exact never
  | info => exact never
  | memread => exact (fails_bind_iff zero flag).trans (fails_memread_iff arguments flag)
  | panic => exact iff_of_true ⟨_, rfl⟩ trivial
  | reboot => exact iff_of_true ⟨_, rfl⟩ trivial
  | trapsvc =>
      refine (fails_bind_iff zero flag).trans ((fails_call_iff _ flag).trans ?_)
      cases arguments with
      | nil =>
          have default_ : ¬ ((4 : UInt64) = 0x4444 ∨ (4 : UInt64) = 0x7777) := by decide
          exact iff_of_false default_ id
      | cons number arguments => exact Iff.rfl
  | uptime => exact never

/-- **Which commands stop the processor.** -/
theorem fails_command_iff (time flag : UInt64) :
    Fails (commandReply platform command time) flag ↔ StopsSystem platform command := by
  unfold commandReply StopsSystem
  cases words : argumentsOf command with
  | nil =>
      constructor
      · intro fails
        exact absurd fails (not_fails_answer [] () flag)
      · rintro ⟨name, words', entry, none, -⟩
        cases none
  | cons name arguments =>
      have named : (∃ name' words' entry, name :: arguments = name' :: words' ∧
          commandNamed name' = some entry ∧ HandlerStops platform entry.handler words') ↔
          ∃ entry, commandNamed name = some entry ∧
            HandlerStops platform entry.handler arguments := by
        constructor
        · rintro ⟨name', words', entry, same, found, stops⟩
          obtain ⟨rfl, rfl⟩ := List.cons.inj same
          exact ⟨entry, found, stops⟩
        · rintro ⟨entry, found, stops⟩
          exact ⟨name, arguments, entry, rfl, found, stops⟩
      rw [named]
      dsimp only
      cases found : commandNamed name with
      | none =>
          constructor
          · intro fails
            exact absurd fails (not_fails_answer _ () flag)
          · rintro ⟨entry, none, -⟩
            cases none
      | some entry =>
          have last (result : Int) (flag : UInt64) : ¬ Fails
              (if result ≠ 0 then Reply.text (failedText name) else pure () : Reply Unit) flag := by
            split
            · exact not_fails_answer _ () flag
            · exact not_fails_answer [] () flag
          refine (fails_bind_iff last flag).trans ((fails_handler_iff name time flag).trans ?_)
          constructor
          · exact fun stops => ⟨entry, rfl, stops⟩
          · rintro ⟨entry', same, stops⟩
            cases same
            exact stops

end Replies

end CharcoalOS.Kernel
