import CharcoalOS.Kernel.Hex
import CharcoalOS.Kernel.Tokenizing

/-!
# The command `add`

A command line `add a b` is followed from its characters to what is printed: through the
tokenizer, the table of commands, the two spellings and the sum. `add_command` states all that
the dispatch does.
-/

namespace CharcoalOS.Kernel

open Effect Effect.Program

/-- The characters of `add`. -/
def addName : List UInt8 := [97, 100, 100]

/-- The command adds `a` and `b`: the name and a spelling of each, with blanks between them, and
perhaps after them. -/
def Adds (command : List UInt8) (a b : UInt64) : Prop :=
  ∃ gap first gap' second tail, command = addName ++ gap ++ first ++ gap' ++ second ++ tail ∧
    Spells first a ∧ Spells second b ∧ gap ≠ [] ∧ gap' ≠ [] ∧
    (∀ c ∈ gap, isBlank c) ∧ (∀ c ∈ gap', isBlank c) ∧ ∀ c ∈ tail, isBlank c

theorem isWordChar_of_isHex {c : UInt8} (hex : IsHex c) : IsWordChar c := by
  have all : ∀ d : Fin 256, IsHex (UInt8.ofNat d) → IsWordChar (UInt8.ofNat d) := by
    decide +kernel
  have here := all ⟨c.toNat, c.toNat_lt⟩
  rw [UInt8.ofNat_toNat] at here
  exact here hex

/-- A spelling is a word. -/
theorem Spells.word {text : List UInt8} {value : UInt64} (spells : Spells text value) :
    text ≠ [] ∧ ∀ c ∈ text, IsWordChar c := by
  obtain ⟨start, ds, rfl, front, atLeast, _, hex, _⟩ := spells
  have digits : ∀ c ∈ ds, IsWordChar c := fun c member => isWordChar_of_isHex (hex c member)
  constructor
  · intro none
    have empty := (List.append_eq_nil_iff.mp none).2
    rw [empty] at atLeast
    cases atLeast
  · refine List.forall_mem_append.mpr ⟨?_, digits⟩
    rcases front with rfl | rfl | rfl <;> simp [IsWordChar, isBlank]

/-! ## The handler -/

theorem run_newline (s : State) :
    (consolePrint (cString "\n")).run s = ⟨.ok (), s, [.putc 13, .putc 10]⟩ := by
  rw [show cString "\n" = [10, 0] by decide]
  rfl

/-- What is printed of a sum. -/
def sumText (a b : UInt64) : List UInt8 :=
  hexText 16 ((a.toNat + b.toNat) % 2 ^ 64) ++ [13, 10]

variable {platform : Platform} {argv : Argv} {text text' name : List UInt8} {a b : UInt64}

theorem ReadsAs.hex {value : UInt64} (reads : ReadsAs text text') (spells : Spells text value) :
    consoleUint64FromHex text' = some value := by
  obtain ⟨_, behind, rfl⟩ := reads
  exact consoleUint64FromHex_of_spells spells behind

/-- The handler, with the two spellings for arguments. -/
theorem run_addHandler (first : consoleUint64FromHex text = some a)
    (second : consoleUint64FromHex text' = some b) (s : State) :
    (addHandler platform [name, text, text']).run s =
      ⟨.ok 0, s, (sumText a b).map .putc⟩ := by
  have three : ¬ ([name, text, text'] : Argv).length ≠ 3 := not_not.mpr rfl
  rw [addHandler, if_neg three]
  simp only [Argv.hex, Argv.get, List.getElem?_cons_zero, List.getElem?_cons_succ,
    Code.ofOption_some, pure_bind, first, second]
  rw [Code.run_bind, bind_ok (run_printHex platform (a + b) s), Code.run_bind,
    bind_ok (run_newline s), sumText, List.map_append, UInt64.toNat_add]
  rfl

theorem run_callHandler_add (first : consoleUint64FromHex text = some a)
    (second : consoleUint64FromHex text' = some b) (s : State) :
    (callHandler platform .add [name, text, text']).run s =
      ⟨.ok 0, s, .handler .add :: (sumText a b).map .putc⟩ := by
  have call : (Code.emit (.handler .add) : Routine Unit).run s = ⟨.ok (), s, [.handler .add]⟩ := rfl
  rw [callHandler, Code.run_bind, bind_ok call, run_addHandler first second,
    List.singleton_append]

/-! ## The command -/

/-- The loop of `dispatch_command` stops at the entry that has the name. -/
theorem run_dispatchLoop_found {args : Argv} {command : ShellCommand} {commands : List ShellCommand}
    {s s' : State} {events : List Event}
    (found : stringCompare name (cString command.name) = some true)
    (handler : (callHandler platform command.handler (name :: args)).run s =
      ⟨.ok 0, s', events⟩) :
    (dispatchLoop platform (name :: args) (command :: commands)).run s =
      ⟨.ok (), s', events⟩ := by
  simp only [dispatchLoop, Argv.get, List.getElem?_cons_zero, Code.ofOption_some, pure_bind, found,
    if_true]
  rw [Code.run_bind, bind_ok handler, if_neg (not_not.mpr rfl)]
  exact congrArg (Result.mk _ _) (List.append_nil _)

/-- `dispatch_command` runs its loop with the arguments that the tokens read as. -/
theorem run_dispatchCommand {command storage buffer : List UInt8} {tokens : List Nat}
    {s s' : State} {events : List Event} (reads : ReadsAs command storage)
    (run : tokenizeCommand storage maxShellArgs = some (buffer, tokens))
    (some_ : tokens.length ≠ 0)
    (loop : (dispatchLoop platform (tokens.map buffer.drop) commands).run s =
      ⟨.ok (), s', events⟩) :
    (dispatchCommand platform storage).run s = ⟨.ok buffer, s', .dispatch command :: events⟩ := by
  have dispatch : (Code.emit (.dispatch command) : Routine Unit).run s =
      ⟨.ok (), s, [.dispatch command]⟩ := rfl
  rw [dispatchCommand, reads.chars, run, Code.run_bind, bind_ok dispatch]
  simp only [Code.ofOption_some, pure_bind, if_neg some_]
  rw [Code.run_bind, bind_ok loop]
  exact congrArg (Result.mk _ _) (congrArg (List.cons _) (List.append_nil _))

/-- **`add` adds.** Dispatching the command prints the sum modulo 2^64 in 16 upper-case hex
digits and ends the line, calls the handler of `add` and no other, and does nothing else. -/
theorem add_command (platform : Platform) (s : State) {command : List UInt8} {a b : UInt64}
    (adds : Adds command a b) (behind : List UInt8) :
    ∃ buffer, (dispatchCommand platform (command ++ 0 :: behind)).run s =
      ⟨.ok buffer, s, .dispatch command :: .handler .add ::
        (hexText 16 ((a.toNat + b.toNat) % 2 ^ 64) ++ [13, 10]).map .putc⟩ := by
  obtain ⟨gap, first, gap', second, tail, whole, spells, spells', some_, some', blank, blank',
    blankTail⟩ := adds
  have proper : ∀ p ∈ [(gap, first), (gap', second)], GapWord.Proper p := by
    refine List.forall_mem_cons.mpr ⟨?_, List.forall_mem_singleton.mpr ?_⟩
    · exact ⟨some_, blank, spells.word.1, spells.word.2⟩
    · exact ⟨some', blank', spells'.word.1, spells'.word.2⟩
  have nameWord : ∀ c ∈ addName, IsWordChar c := by simp [addName, IsWordChar, isBlank]
  have nameSome : addName ≠ [] := List.cons_ne_nil _ _
  obtain ⟨buffer, tokens, run, words⟩ :=
    tokenizeCommand_words maxShellArgs nameSome nameWord proper blankTail behind
      (by simp [maxShellArgs])
  have storage : command ++ 0 :: behind =
      addName ++ (gapped [(gap, first), (gap', second)] ++ (tail ++ 0 :: behind)) := by
    rw [whole]
    simp [gapped]
  rw [← storage] at run
  have clean : 0 ∉ command := by
    have words := zero_notMem_words nameWord proper blankTail
    simpa [whole, gapped] using words
  have reads : ReadsAs command (command ++ 0 :: behind) := ⟨clean, behind, rfl⟩
  obtain ⟨name, argv, found, rest, storages⟩ := List.forall₂_cons_left_iff.mp words
  obtain ⟨text, argv', readsFirst, rest', rfl⟩ := List.forall₂_cons_left_iff.mp rest
  obtain ⟨text', argv'', readsSecond, rest'', rfl⟩ := List.forall₂_cons_left_iff.mp rest'
  obtain rfl := List.forall₂_nil_left_iff.mp rest''
  have some_ : tokens.length ≠ 0 := by
    rw [← List.length_map buffer.drop, storages]
    exact Nat.succ_ne_zero _
  have table : ReadsAs addName (cString "add") := ⟨by decide, [], by decide⟩
  have compare : stringCompare name (cString "add") = some true := found.stringCompare table
  have handler : (callHandler platform .add [name, text, text']).run s =
      ⟨.ok 0, s, .handler .add :: (sumText a b).map .putc⟩ :=
    run_callHandler_add (ReadsAs.hex readsFirst spells) (ReadsAs.hex readsSecond spells') s
  have loop : (dispatchLoop platform [name, text, text'] commands).run s =
      ⟨.ok (), s, .handler .add :: (sumText a b).map .putc⟩ :=
    run_dispatchLoop_found compare handler
  rw [← storages] at loop
  exact ⟨buffer, run_dispatchCommand ⟨clean, behind, rfl⟩ run some_ loop⟩

/-- `add 0x1 f`, with LF behind. -/
def addOneF : List UInt8 := addName ++ [32] ++ [48, 120, 49] ++ [32] ++ [102] ++ [10]

theorem adds_addOneF : Adds addOneF 1 15 := by
  refine ⟨[32], [48, 120, 49], [32], [102], [10], rfl, ⟨[48, 120], [49], rfl, ?_⟩,
    ⟨[], [102], rfl, ?_⟩, List.cons_ne_nil _ _, List.cons_ne_nil _ _, ?_, ?_, ?_⟩
  all_goals simp [isBlank, IsHex, hexValue, Digits.value]

theorem add_command_one_f :
    ∃ buffer, (dispatchCommand .virt (addOneF ++ [0])).run (.boot []) =
      ⟨.ok buffer, .boot [], .dispatch addOneF :: .handler .add ::
        (hexText 16 (((1 : UInt64).toNat + (15 : UInt64).toNat) % 2 ^ 64) ++ [13, 10]).map .putc⟩ :=
  add_command .virt (.boot []) adds_addOneF []

end CharcoalOS.Kernel
