import CharcoalOS.Kernel.Handling
import CharcoalOS.Kernel.Tokenizing

/-!
# What the command handlers leave alone

A handler takes nothing from the serial line and dispatches nothing; if it does not return,
then the processor has halted or reset, or is stuck at a load. `Inputless` says what such a
routine is made of, and `inputless_dispatched` that what follows the entry of `dispatch_command`
is. What holds of all handlers is then an induction on the pieces, as `Inputless.safe` is.
-/

namespace CharcoalOS.Kernel

open Effect

/-- Input, and what is done with it. -/
def IsInput : Event → Prop
  | .getc _ => True
  | .dispatch _ => True
  | _ => False

/-- The processor stops for good. -/
def Final (stop : Stop) : Prop := stop = .halted ∨ stop = .restarted ∨ stop = .faulted

/-- The routine is made of pieces that leave the serial line alone, and fails only for good. -/
inductive Inputless : {α : Type} → Routine α → Prop
  | pure {α : Type} (a : α) : Inputless (Pure.pure a)
  | bind {α β : Type} {c : Routine α} {f : α → Routine β} :
    Inputless c → (∀ a, Inputless (f a)) → Inputless (c >>= f)
  | prints {c : Routine Unit} : Prints c → Inputless c
  | emit {event : Event} : ¬ IsInput event → Inputless (Code.emit event)
  | current : Inputless (Code.current : Routine State)
  | update {g : State → State} : (∀ s, (g s).received = s.received) → Inputless (Code.update g)
  | storeInProgress (value : UInt64) : Inputless (storeInProgress value)
  | halt {α : Type} : Inputless (halt : Routine α)
  | reboot {α : Type} : Inputless (platformReboot : Routine α)
  | faulted {α : Type} : Inputless (Code.fail .faulted : Routine α)

section Inputless

variable {α β : Type} {c d : Routine α} {platform : Platform} {text : List UInt8} {argv : Argv}

theorem Inputless.ite {b : Prop} [Decidable b] (left : b → Inputless c)
    (right : ¬ b → Inputless d) : Inputless (if b then c else d) := by
  split
  · exact left ‹_›
  · exact right ‹_›

/-- However the line is left to other code, it stays as it is. -/
theorem Inputless.safe (inputless : Inputless c) (line : List UInt8) :
    c.Safe (·.received = line) (fun e => ¬ IsInput e) (fun _ => True) Final := by
  induction inputless with
  | pure a => trivial
  | bind _ _ first then_ => exact first.bind fun a _ => then_ a
  | prints prints => exact prints.safe (fun _ => id) trivial
  | emit other => exact .emit other trivial
  | current => exact .current fun _ _ => trivial
  | update same => exact .update (fun s holds => (same s).trans holds) trivial
  | storeInProgress value => exact .store id (fun _ holds => holds) trivial
  | halt => exact .bind (Q := fun _ => True) (.emit id trivial) fun _ _ => .fail (Or.inl rfl)
  | reboot => exact .fail (Or.inr (Or.inl rfl))
  | faulted => exact .fail (Or.inr (Or.inr rfl))

theorem inputless_ofOption {value : Option α} (there : value ≠ none) :
    Inputless (Code.ofOption .outOfBounds value : Routine α) := by
  cases value with
  | none => exact absurd rfl there
  | some a => exact .pure a

theorem inputless_print (terminated : 0 ∈ text) : Inputless (consolePrint text) :=
  .prints (prints_print terminated)

theorem inputless_literal (text : String) : Inputless (consolePrint (cString text)) :=
  .prints (prints_literal text)

theorem inputless_hex (value : UInt64) : Inputless (printHex platform value) :=
  .prints (prints_hex platform value)

/-! ## Exceptions -/

theorem inputless_interrupt (iar : UInt32) :
    Inputless (handleInterruptException platform iar) := by
  refine .bind (.emit id) fun _ => .bind (.ite (fun _ => ?_) fun _ => .pure _)
    fun handled => .bind (.emit id) fun _ => .pure handled
  refine .bind (.bind .current fun s => ?_) fun _ =>
    .bind (.emit id) fun _ => .pure true
  exact .update fun _ => rfl

theorem inputless_unhandled (e : Exception) : Inputless (handleUnhandled platform e) := by
  refine .bind .current fun s => .ite (fun _ => .halt) fun _ => ?_
  exact .bind (.storeInProgress 1) fun _ => .bind (.emit id) fun _ =>
    .bind (.prints (prints_diagnostics platform e)) fun _ => .pure _

theorem inputless_exception (e : Exception) : Inputless (takeException platform e) := by
  refine .bind ?_ fun action => .ite (fun _ => .pure ()) fun _ =>
    .ite (fun _ => .reboot) fun _ => .halt
  by_cases irq : e.Irq
  · rw [handleException_irq irq]
    exact .bind (inputless_interrupt e.iar) fun handled =>
      .ite (fun _ => .pure _) fun _ => inputless_unhandled e
  · by_cases restart : e.RestartCall
    · rw [handleException_restart restart]
      exact .bind (inputless_literal _) fun _ => .pure _
    · by_cases resumed : e.ResumedCall
      · rw [handleException_resumed resumed]
        refine .bind (inputless_literal _) fun _ => .bind (inputless_hex _) fun _ => ?_
        exact .bind (inputless_literal _) fun _ =>
          .bind (.storeInProgress 0) fun _ => .pure _
      · rw [handleException_unhandled irq ⟨fun timer => irq timer.1, restart, resumed⟩]
        exact inputless_unhandled e

/-! ## Numbers -/

theorem fromHexLoop_ne_none (terminated : 0 ∈ text) (n : Nat) (result : UInt64) :
    fromHexLoop text n result ≠ none := by
  induction text generalizing n result with
  | nil => cases terminated
  | cons c text ih =>
      rw [fromHexLoop]
      split
      · have later : 0 ∈ text :=
          (List.mem_cons.mp terminated).resolve_left (Ne.symm ‹c ≠ 0 ∧ _›.1)
        split
        · exact ih later _ _
        · split
          · exact ih later _ _
          · split
            · exact ih later _ _
            · exact Option.some_ne_none _
      · exact Option.some_ne_none _

theorem consoleUint64FromHex_ne_none (terminated : 0 ∈ text) :
    consoleUint64FromHex text ≠ none := by
  refine fromHexLoop_ne_none ?_ 16 0
  match text with
  | [] => exact terminated
  | [_] => exact terminated
  | d :: x :: digits =>
      rw [skipHexPrefix]
      split
      · obtain ⟨rfl, x⟩ := ‹d = 48 ∧ _›
        rcases List.mem_cons.mp terminated with absurd_ | later
        · cases absurd_
        · rcases List.mem_cons.mp later with rfl | later
          · exact absurd x (by decide)
          · exact later
      · exact terminated

/-! ## Handlers -/

/-- Every argument is terminated. -/
def Terminated (argv : Argv) : Prop := ∀ text ∈ argv, 0 ∈ text

theorem inputless_hexArgument {i : Nat} (terminated : Terminated argv) (there : i < argv.length) :
    Inputless (argv.hex i) := by
  rw [Argv.hex, Argv.get, List.getElem?_eq_getElem there]
  exact inputless_ofOption
    (consoleUint64FromHex_ne_none (terminated _ (List.getElem_mem there)))

theorem inputless_add (terminated : Terminated argv) : Inputless (addHandler platform argv) := by
  refine .ite (fun _ => ?_) fun three => ?_
  · exact .bind (inputless_literal _) fun _ => .pure _
  · have length : argv.length = 3 := not_not.mp three
    refine .bind (inputless_hexArgument terminated (by omega)) fun a => ?_
    refine .bind (inputless_hexArgument terminated (by omega)) fun b => ?_
    exact .bind (inputless_hex _) fun _ => .bind (inputless_literal _) fun _ => .pure _

theorem inputless_printCommands (commands : List ShellCommand) :
    Inputless (printCommands commands) := by
  induction commands with
  | nil => exact .pure ()
  | cons command commands ih =>
      rw [printCommands]
      exact .bind (inputless_literal _) fun _ => .bind (inputless_literal _) fun _ =>
        .bind (inputless_literal _) fun _ => .bind (inputless_literal _) fun _ => ih

theorem inputless_help : Inputless helpHandler :=
  .bind (inputless_literal _) fun _ => .bind (inputless_printCommands commands) fun _ =>
    .bind (inputless_literal _) fun _ => .pure _

theorem inputless_hexChar (c : UInt8) : Inputless (printHexChar platform c) :=
  .ite (fun _ => .prints (prints_hexBytes (Nat.le_refl 1)))
    fun _ => .prints (prints_hexDown (Nat.le_refl 1))

theorem inputless_info : Inputless (infoHandler platform) := by
  have text := inputless_literal
  have hex (value : UInt64) : Inputless (printHex platform value) := inputless_hex value
  have char (c : UInt8) : Inputless (printHexChar platform c) := inputless_hexChar c
  rw [infoHandler]
  refine .bind (text _) fun _ => .bind (text _) fun _ => .bind (text _) fun _ =>
    .bind (text _) fun _ => .bind (text _) fun _ => ?_
  refine .bind (text _) fun _ => .bind (text _) fun _ => ?_
  refine .bind (text _) fun _ => .bind (char _) fun _ => .bind (text _) fun _ => ?_
  refine .bind (text _) fun _ => .bind (text _) fun _ => ?_
  refine .bind (text _) fun _ => .bind (hex _) fun _ => .bind (text _) fun _ => ?_
  refine .bind (text _) fun _ => .bind (hex _) fun _ => .bind (text _) fun _ => ?_
  refine .bind (text _) fun _ => .bind (hex _) fun _ => .bind (text _) fun _ => ?_
  refine .bind (text _) fun _ => .bind (char _) fun _ => .bind (text _) fun _ => ?_
  refine .bind (text _) fun _ => .bind (hex _) fun _ => .bind (text _) fun _ => ?_
  refine .bind (text _) fun _ => .bind (hex _) fun _ => .bind (text _) fun _ => ?_
  refine .bind (text _) fun _ => .bind (text _) fun _ => .bind (text _) fun _ => ?_
  refine .bind (text _) fun _ => .bind (text _) fun _ => .bind (text _) fun _ => ?_
  refine .bind (text _) fun _ => .bind (hex _) fun _ => .bind (text _) fun _ => ?_
  refine .bind (text _) fun _ => .bind (hex _) fun _ => .bind (text _) fun _ => ?_
  refine .bind (text _) fun _ => .bind (hex _) fun _ => .bind (text _) fun _ => ?_
  refine .bind (text _) fun _ => .bind (hex _) fun _ => .bind (text _) fun _ => ?_
  exact .pure _

theorem inputless_load (address : UInt64) : Inputless (loadMemory platform address) := by
  rw [loadMemory]
  split
  · exact .pure _
  · exact .bind (inputless_exception _) fun _ => .faulted

theorem inputless_readAddresses (terminated : Terminated argv) :
    Inputless (readAddresses platform argv) := by
  induction argv with
  | nil => exact .pure ()
  | cons digits argv ih =>
      obtain ⟨first, rest⟩ := List.forall_mem_cons.mp terminated
      rw [readAddresses]
      refine .bind (inputless_ofOption (consoleUint64FromHex_ne_none first)) fun address => ?_
      exact .bind (inputless_hex _) fun _ => .bind (inputless_literal _) fun _ =>
        .bind (inputless_load _) fun _ => .bind (inputless_hex _) fun _ =>
        .bind (inputless_literal _) fun _ => ih rest

theorem inputless_memread (terminated : Terminated argv) :
    Inputless (memreadHandler platform argv) :=
  .bind (inputless_readAddresses fun text member => terminated text (List.mem_of_mem_tail member))
    fun _ => .pure _

theorem inputless_kernelPanic {message : Option (List UInt8)}
    (terminated : ∀ text, message = some text → 0 ∈ text) : Inputless (kernelPanic message) := by
  cases message with
  | none => exact .halt
  | some text =>
      exact .bind (inputless_print (terminated text rfl)) fun _ =>
        .bind (inputless_literal _) fun _ => .halt

theorem inputless_panic (terminated : Terminated argv) : Inputless (panicHandler argv) := by
  refine .bind (inputless_literal _) fun _ => .bind (inputless_kernelPanic fun text there => ?_)
    fun _ => .pure _
  split at there
  · exact terminated text (List.mem_of_getElem? there)
  · split at there
    · exact terminated text (List.mem_of_getElem? there)
    · cases there

theorem inputless_trapsvc (terminated : Terminated argv) :
    Inputless (trapsvcHandler platform argv) := by
  refine .ite (fun _ => ?_) fun more => ?_
  · exact .bind (inputless_exception _) fun _ => .pure _
  · exact .bind (inputless_hexArgument terminated (by omega)) fun _ =>
      .bind (inputless_exception _) fun _ => .pure _

theorem inputless_uptime : Inputless (uptimeHandler platform) :=
  .bind (.bind .current fun _ => .pure _) fun _ => .bind (inputless_literal _) fun _ =>
    .bind (inputless_hex _) fun _ => .bind (inputless_literal _) fun _ => .pure _

theorem inputless_callHandler (handler : Handler) (terminated : Terminated argv) :
    Inputless (callHandler platform handler argv) := by
  refine .bind (.emit id) fun _ => ?_
  cases handler with
  | add => exact inputless_add terminated
  | help => exact inputless_help
  | info => exact inputless_info
  | memread => exact inputless_memread terminated
  | panic => exact inputless_panic terminated
  | reboot => exact .bind .reboot fun _ => .pure _
  | trapsvc => exact inputless_trapsvc terminated
  | uptime => exact inputless_uptime

/-! ## Dispatch -/

theorem stringCompare_ne_none {other : List UInt8} (left : 0 ∈ text) (right : 0 ∈ other) :
    stringCompare text other ≠ none := by
  rw [(readsAs_chars left).stringCompare (readsAs_chars right)]
  exact Option.some_ne_none _

theorem inputless_dispatchLoop (terminated : Terminated argv) (some_ : 0 < argv.length)
    (commands : List ShellCommand) : Inputless (dispatchLoop platform argv commands) := by
  have name : argv[0]? = some argv[0] := List.getElem?_eq_getElem some_
  have nul : 0 ∈ argv[0] := terminated _ (List.getElem_mem some_)
  have get : argv.get 0 = pure argv[0] := by
    rw [Argv.get, name]
    rfl
  induction commands with
  | nil =>
      rw [dispatchLoop, get, pure_bind]
      exact .bind (inputless_literal _) fun _ => .bind (inputless_print nul) fun _ =>
        inputless_literal _
  | cons command commands ih =>
      rw [dispatchLoop, get, pure_bind]
      refine .bind (inputless_ofOption (stringCompare_ne_none nul (zero_mem_cString _)))
        fun found => .ite (fun _ => ?_) fun _ => ih
      refine .bind (inputless_callHandler _ terminated) fun result => .ite (fun _ => ?_)
        fun _ => .pure ()
      exact .bind (inputless_literal _) fun _ => .bind (inputless_print nul) fun _ =>
        inputless_literal _

/-- What follows the entry of `dispatch_command`, and the length of what it leaves. -/
theorem inputless_dispatched (platform : Platform) {command : List UInt8}
    (terminated : 0 ∈ command) :
    ∃ (rest : Routine Unit) (command' : List UInt8), dispatchCommand platform command = (do
        Code.emit (.dispatch (chars command))
        rest
        pure command') ∧
      Inputless rest ∧ command'.length = command.length := by
  obtain ⟨command', tokens, run, length, nul⟩ := tokenizeCommand_terminated terminated maxShellArgs
  rw [dispatchCommand, run]
  by_cases some_ : tokens.length = 0
  · exact ⟨pure (), command', by simp only [Code.ofOption_some, pure_bind, if_pos some_],
      .pure (), length⟩
  · have terminated' : Terminated (tokens.map command'.drop) := by
      intro text member
      obtain ⟨t, token, rfl⟩ := List.mem_map.mp member
      exact nul t token
    have first : 0 < (tokens.map command'.drop).length := by
      rw [List.length_map]
      omega
    exact ⟨dispatchLoop platform (tokens.map command'.drop) commands, command',
      by simp only [Code.ofOption_some, pure_bind, if_neg some_],
      inputless_dispatchLoop terminated' first commands, length⟩

end Inputless

end CharcoalOS.Kernel
