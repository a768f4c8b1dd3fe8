import CharcoalOS.Kernel.Shell

/-!
# What the tokenizer does

The command is scanned from left to right. `tokenizeLoop_blanks`, `tokenizeLoop_word` and
`tokenizeLoop_start` take the scan over a run of blanks, over the inside of a word, and over
a word that begins a new token; `tokenizeLoop_kept` says what no scan touches.
-/

namespace CharcoalOS.Kernel

variable (maxTokens : Nat) {command : List UInt8}

/-- What a word may contain. -/
def IsWordChar (c : UInt8) : Prop := c ≠ 0 ∧ ¬ isBlank c

instance (c : UInt8) : Decidable (IsWordChar c) := inferInstanceAs (Decidable (_ ∧ _))

/-! ## Segments -/

/-- The character at the index of the scan. -/
theorem getElem?_at (before rest : List UInt8) (c : UInt8) :
    (before ++ c :: rest)[before.length]? = some c := by
  rw [List.getElem?_append_right (Nat.le_refl _), Nat.sub_self, List.getElem?_cons_zero]

theorem set_at (before rest : List UInt8) (c d : UInt8) :
    (before ++ c :: rest).set before.length d = before ++ d :: rest := by
  rw [List.set_append_right _ _ (Nat.le_refl _), Nat.sub_self, List.set_cons_zero]

/-- Blanks become terminators. -/
theorem tokenizeLoop_blanks {blanks : List UInt8} (all : ∀ c ∈ blanks, isBlank c)
    (some_ : blanks ≠ []) (n : Nat) (before after : List UInt8) (betweenTokens : Bool)
    (tokens : List Nat) :
    tokenizeLoop maxTokens (blanks.length + n) before.length (before ++ (blanks ++ after))
        betweenTokens tokens =
      tokenizeLoop maxTokens n (before.length + blanks.length)
        (before ++ (List.replicate blanks.length 0 ++ after)) true tokens := by
  induction blanks generalizing before betweenTokens with
  | nil => exact absurd rfl some_
  | cons c blanks ih =>
      obtain ⟨blank, all⟩ := List.forall_mem_cons.mp all
      have nul : c ≠ 0 := by
        intro nul
        rw [nul] at blank
        exact absurd blank (by decide)
      have first : tokenizeLoop maxTokens ((c :: blanks).length + n) before.length
          (before ++ (c :: blanks ++ after)) betweenTokens tokens =
            tokenizeLoop maxTokens (blanks.length + n) (before.length + 1)
              (before ++ (0 :: (blanks ++ after))) true tokens := by
        rw [List.length_cons, Nat.succ_add, tokenizeLoop, List.cons_append, getElem?_at]
        dsimp only
        rw [if_neg nul, if_pos blank, set_at]
      rw [first]
      cases blanks with
      | nil =>
          rw [List.length_nil, Nat.zero_add]
          rfl
      | cons d blanks =>
          have later := ih all (List.cons_ne_nil _ _) (before ++ [0]) true
          rw [List.length_append, List.length_singleton, List.append_assoc,
            List.singleton_append] at later
          rw [later, List.length_cons, List.append_assoc, List.singleton_append, Nat.add_assoc,
            Nat.add_comm 1]
          rfl

/-- The inside of a word is left as it is. -/
theorem tokenizeLoop_word {word : List UInt8} (clean : ∀ c ∈ word, IsWordChar c) (n : Nat)
    (before after : List UInt8) (tokens : List Nat) :
    tokenizeLoop maxTokens (word.length + n) before.length (before ++ (word ++ after)) false
        tokens =
      tokenizeLoop maxTokens n (before.length + word.length) (before ++ (word ++ after)) false
        tokens := by
  induction word generalizing before with
  | nil => rw [List.length_nil, Nat.zero_add, Nat.add_zero]
  | cons c word ih =>
      obtain ⟨first, clean⟩ := List.forall_mem_cons.mp clean
      have later := ih clean (before ++ [c])
      rw [List.length_append, List.length_singleton, List.append_assoc,
        List.singleton_append] at later
      rw [List.length_cons, Nat.succ_add, tokenizeLoop, List.cons_append, getElem?_at]
      dsimp only
      rw [if_neg first.1, if_neg first.2, if_neg Bool.false_ne_true, later, Nat.add_assoc,
        Nat.add_comm 1]

/-- A word after blanks is a new token. -/
theorem tokenizeLoop_start {word : List UInt8} (clean : ∀ c ∈ word, IsWordChar c)
    (some_ : word ≠ []) (n : Nat) (before after : List UInt8) (tokens : List Nat)
    (room : tokens.length < maxTokens) :
    tokenizeLoop maxTokens (word.length + n) before.length (before ++ (word ++ after)) true
        tokens =
      tokenizeLoop maxTokens n (before.length + word.length) (before ++ (word ++ after)) false
        (tokens ++ [before.length]) := by
  cases word with
  | nil => exact absurd rfl some_
  | cons c word =>
      obtain ⟨first, clean⟩ := List.forall_mem_cons.mp clean
      have later := tokenizeLoop_word maxTokens clean n (before ++ [c]) after
        (tokens ++ [before.length])
      rw [List.length_append, List.length_singleton, List.append_assoc,
        List.singleton_append] at later
      rw [List.length_cons, Nat.succ_add, tokenizeLoop, List.cons_append, getElem?_at]
      dsimp only
      rw [if_neg first.1, if_neg first.2, if_pos rfl, if_neg (Nat.not_le.mpr room), later,
        Nat.add_assoc, Nat.add_comm 1]

/-- Blanks at the end add no token. -/
theorem tokenizeLoop_tail {blanks : List UInt8} (all : ∀ c ∈ blanks, isBlank c)
    (before after : List UInt8) (betweenTokens : Bool) (tokens : List Nat) :
    tokenizeLoop maxTokens blanks.length before.length (before ++ (blanks ++ after)) betweenTokens
        tokens =
      some (before ++ (List.replicate blanks.length 0 ++ after), tokens) := by
  by_cases some_ : blanks = []
  · rw [some_]
    rfl
  · exact (tokenizeLoop_blanks maxTokens all some_ 0 before after betweenTokens tokens).trans rfl

/-! ## Words -/

/-- A word and the blanks before it. -/
abbrev GapWord : Type := List UInt8 × List UInt8

/-- There are blanks, and there is a word. -/
structure GapWord.Proper (p : GapWord) : Prop where
  gap : p.1 ≠ []
  blank : ∀ c ∈ p.1, isBlank c
  word : p.2 ≠ []
  clean : ∀ c ∈ p.2, IsWordChar c

/-- Words with the blanks before them, as they are typed. -/
def gapped (ps : List GapWord) : List UInt8 := ps.flatMap fun p => p.1 ++ p.2

/-- The same with terminators for blanks. -/
def cleared (ps : List GapWord) : List UInt8 :=
  ps.flatMap fun p => List.replicate p.1.length 0 ++ p.2

/-- Where the words begin, if the first gap begins at `i`. -/
def offsets : Nat → List GapWord → List Nat
  | _, [] => []
  | i, p :: ps => (i + p.1.length) :: offsets (i + p.1.length + p.2.length) ps

theorem length_cleared (ps : List GapWord) : (cleared ps).length = (gapped ps).length := by
  simp [cleared, gapped, List.length_flatMap]

theorem gapped_cons (p : GapWord) (ps : List GapWord) :
    gapped (p :: ps) = p.1 ++ (p.2 ++ gapped ps) := by
  rw [gapped, List.flatMap_cons, List.append_assoc, gapped]

theorem cleared_cons (p : GapWord) (ps : List GapWord) :
    cleared (p :: ps) = List.replicate p.1.length 0 ++ (p.2 ++ cleared ps) := by
  rw [cleared, List.flatMap_cons, List.append_assoc, cleared]

/-- Words that there is room for become tokens. -/
theorem tokenizeLoop_words {ps : List GapWord} (proper : ∀ p ∈ ps, p.Proper) (n : Nat)
    (before after : List UInt8) (tokens : List Nat) (room : tokens.length + ps.length ≤ maxTokens) :
    tokenizeLoop maxTokens ((gapped ps).length + n) before.length
        (before ++ (gapped ps ++ after)) false tokens =
      tokenizeLoop maxTokens n (before.length + (gapped ps).length)
        (before ++ (cleared ps ++ after)) false (tokens ++ offsets before.length ps) := by
  induction ps generalizing before tokens with
  | nil => simp [gapped, cleared, offsets]
  | cons p ps ih =>
      obtain ⟨first, proper⟩ := List.forall_mem_cons.mp proper
      rw [List.length_cons] at room
      have gap := tokenizeLoop_blanks maxTokens first.blank first.gap
        (p.2.length + ((gapped ps).length + n)) before (p.2 ++ (gapped ps ++ after)) false tokens
      have word := tokenizeLoop_start maxTokens first.clean first.word
        ((gapped ps).length + n) (before ++ List.replicate p.1.length 0) (gapped ps ++ after)
        tokens (by omega)
      have rest := ih proper (before ++ (List.replicate p.1.length 0 ++ p.2))
        (tokens ++ [before.length + p.1.length])
        (by rw [List.length_append, List.length_singleton]; omega)
      simp only [List.append_assoc, List.length_append, List.length_replicate, Nat.add_assoc,
        List.singleton_append] at gap word rest
      simp only [gapped_cons, cleared_cons, offsets, List.append_assoc, List.length_append,
        Nat.add_assoc]
      exact gap.trans (word.trans rest)

/-- Cleared blanks are terminators. -/
theorem replicate_terminated (n : Nat) (behind : List UInt8) :
    ∃ rest, List.replicate n 0 ++ 0 :: behind = 0 :: rest := by
  cases n with
  | zero => exact ⟨behind, rfl⟩
  | succ n => exact ⟨_, rfl⟩

/-- So a word is followed by a terminator, be it a cleared blank or the one of the command. -/
theorem cleared_terminated {ps : List GapWord} (proper : ∀ p ∈ ps, p.Proper)
    (behind : List UInt8) : ∃ rest, cleared ps ++ 0 :: behind = 0 :: rest := by
  cases ps with
  | nil => exact ⟨behind, rfl⟩
  | cons p ps =>
      obtain ⟨n, size⟩ := Nat.exists_eq_succ_of_ne_zero
        (mt List.eq_nil_of_length_eq_zero (proper p List.mem_cons_self).gap)
      rw [cleared_cons, size, List.replicate_succ]
      exact ⟨_, rfl⟩

/-- What the tokens of words read as. -/
theorem readsAs_offsets {ps : List GapWord} (proper : ∀ p ∈ ps, p.Proper)
    (before behind : List UInt8) :
    List.Forall₂ ReadsAs (ps.map Prod.snd)
      ((offsets before.length ps).map (before ++ (cleared ps ++ 0 :: behind)).drop) := by
  induction ps generalizing before with
  | nil => exact .nil
  | cons p ps ih =>
      obtain ⟨first, proper⟩ := List.forall_mem_cons.mp proper
      have whole : before ++ (cleared (p :: ps) ++ 0 :: behind) =
          (before ++ List.replicate p.1.length 0) ++ (p.2 ++ (cleared ps ++ 0 :: behind)) := by
        rw [cleared_cons]
        simp only [List.append_assoc]
      have length :
          (before ++ List.replicate p.1.length 0).length = before.length + p.1.length := by
        rw [List.length_append, List.length_replicate]
      have here : (before ++ (cleared (p :: ps) ++ 0 :: behind)).drop (before.length + p.1.length) =
          p.2 ++ (cleared ps ++ 0 :: behind) := by
        rw [whole, ← length, List.drop_left]
      have later := ih proper (before ++ List.replicate p.1.length 0 ++ p.2)
      rw [List.length_append, length, List.append_assoc _ p.2, ← whole] at later
      rw [List.map_cons, offsets, List.map_cons, here]
      refine .cons ⟨fun nul => (first.clean 0 nul).1 rfl, ?_⟩ later
      obtain ⟨rest, same⟩ := cleared_terminated proper behind
      exact ⟨rest, congrArg (p.2 ++ ·) same⟩

/-- A command of words has no terminator inside. -/
theorem zero_notMem_words {name tail : List UInt8} {ps : List GapWord}
    (clean : ∀ c ∈ name, IsWordChar c) (proper : ∀ p ∈ ps, p.Proper)
    (blank : ∀ c ∈ tail, isBlank c) : 0 ∉ name ++ (gapped ps ++ tail) := by
  intro nul
  rcases List.mem_append.mp nul with nul | nul
  · exact (clean 0 nul).1 rfl
  · rcases List.mem_append.mp nul with nul | nul
    · obtain ⟨p, member, nul⟩ := List.mem_flatMap.mp nul
      rcases List.mem_append.mp nul with nul | nul
      · exact absurd ((proper p member).blank 0 nul) (by decide)
      · exact ((proper p member).clean 0 nul).1 rfl
    · exact absurd (blank 0 nul) (by decide)

/-- **A command of words** has a token for each, which reads as that word. -/
theorem tokenizeCommand_words {name tail : List UInt8} {ps : List GapWord}
    (some_ : name ≠ []) (clean : ∀ c ∈ name, IsWordChar c) (proper : ∀ p ∈ ps, p.Proper)
    (blank : ∀ c ∈ tail, isBlank c) (behind : List UInt8) (room : ps.length < maxTokens) :
    ∃ buffer tokens, tokenizeCommand (name ++ (gapped ps ++ (tail ++ 0 :: behind))) maxTokens =
        some (buffer, tokens) ∧
      List.Forall₂ ReadsAs (name :: ps.map Prod.snd) (tokens.map buffer.drop) := by
  have chars := zero_notMem_words clean proper blank
  have length := stringLength_append chars behind
  have start := tokenizeLoop_word maxTokens clean ((gapped ps).length + tail.length)
    [] (gapped ps ++ (tail ++ 0 :: behind)) [0]
  have words := tokenizeLoop_words maxTokens proper tail.length name
    (tail ++ 0 :: behind) [0] (by rw [List.length_singleton]; omega)
  have ends := tokenizeLoop_tail maxTokens blank (name ++ cleared ps)
    (0 :: behind) false ([0] ++ offsets name.length ps)
  simp only [List.append_assoc, List.length_append, List.nil_append, List.length_nil,
    Nat.zero_add, length_cleared] at length start words ends
  have positive : name.length + ((gapped ps).length + tail.length) ≠ 0 := by
    have := List.length_pos_of_ne_nil some_
    omega
  refine ⟨name ++ (cleared ps ++ (List.replicate tail.length 0 ++ 0 :: behind)),
    [0] ++ offsets name.length ps, ?_, ?_⟩
  · rw [tokenizeCommand, if_neg (by omega), length, Option.bind_eq_bind, Option.bind_some,
      if_neg positive]
    exact start.trans (words.trans ends)
  · obtain ⟨rest, after⟩ := replicate_terminated tail.length behind
    rw [after, List.singleton_append, List.map_cons, List.drop_zero]
    refine .cons ⟨fun nul => (clean 0 nul).1 rfl, ?_⟩ (readsAs_offsets proper name rest)
    obtain ⟨rest', next⟩ := cleared_terminated proper rest
    exact ⟨rest', congrArg (name ++ ·) next⟩

/-! ## What is left alone -/

/-- A scan of `n` characters from index `i` on succeeds, changes nothing behind them, and
finds tokens only there. -/
theorem tokenizeLoop_kept (n i : Nat) (command : List UInt8) (betweenTokens : Bool)
    (tokens : List Nat) (inside : i + n ≤ command.length) :
    ∃ command' tokens', tokenizeLoop maxTokens n i command betweenTokens tokens =
        some (command', tokens') ∧ command'.length = command.length ∧
      (∀ j, i + n ≤ j → command'[j]? = command[j]?) ∧
      ∀ t ∈ tokens', t ∈ tokens ∨ t < i + n := by
  induction n generalizing i command betweenTokens tokens with
  | zero => exact ⟨command, tokens, rfl, rfl, fun _ _ => rfl, fun t member => Or.inl member⟩
  | succ n ih =>
      have less : i < command.length := by omega
      have here : command[i]? = some command[i] := List.getElem?_eq_getElem less
      rw [tokenizeLoop, here]
      dsimp only
      have stop : ∃ command' tokens', some (command, tokens) = some (command', tokens') ∧
          command'.length = command.length ∧
          (∀ j, i + (n + 1) ≤ j → command'[j]? = command[j]?) ∧
          ∀ t ∈ tokens', t ∈ tokens ∨ t < i + (n + 1) :=
        ⟨command, tokens, rfl, rfl, fun _ _ => rfl, fun t member => Or.inl member⟩
      have on : i + 1 + n = i + (n + 1) := by omega
      split
      · exact stop
      · split
        · obtain ⟨command', tokens', run, length, kept, found⟩ := ih (i + 1) (command.set i 0) true
            tokens (by rw [List.length_set]; omega)
          rw [List.length_set] at length
          refine ⟨command', tokens', run, length, fun j after => ?_, on ▸ found⟩
          rw [kept j (by omega), List.getElem?_set_ne (by omega)]
        · split
          · split
            · exact stop
            · obtain ⟨command', tokens', run, length, kept, found⟩ := ih (i + 1) command false
                (tokens ++ [i]) (by omega)
              refine ⟨command', tokens', run, length, on ▸ kept, fun t member => ?_⟩
              rcases found t member with old | new
              · rcases List.mem_append.mp old with old | here
                · exact Or.inl old
                · exact Or.inr (by rw [List.mem_singleton.mp here]; omega)
              · exact Or.inr (by omega)
          · obtain ⟨command', tokens', run, length, kept, found⟩ := ih (i + 1) command
              betweenTokens tokens (by omega)
            exact ⟨command', tokens', run, length, on ▸ kept, on ▸ found⟩

/-- Tokenizing a terminated command succeeds, keeps its storage, and every token reads as a
terminated string. -/
theorem tokenizeCommand_terminated (terminated : 0 ∈ command) (maxTokens : Nat) :
    ∃ command' tokens, tokenizeCommand command maxTokens = some (command', tokens) ∧
      command'.length = command.length ∧ ∀ t ∈ tokens, 0 ∈ command'.drop t := by
  rw [tokenizeCommand]
  split
  · exact ⟨command, [], rfl, rfl, List.forall_mem_nil _⟩
  · obtain ⟨n, length, nul⟩ := exists_stringLength terminated
    have less : n < command.length := (List.getElem?_eq_some_iff.mp nul).1
    rw [length, Option.bind_eq_bind, Option.bind_some]
    split
    · exact ⟨command, [], rfl, rfl, List.forall_mem_nil _⟩
    · obtain ⟨command', tokens, run, same, kept, found⟩ :=
        tokenizeLoop_kept maxTokens n 0 command false [0] (by omega)
      refine ⟨command', tokens, run, same, fun t member => ?_⟩
      have before : t ≤ n := by
        rcases found t member with first | later
        · rw [List.mem_singleton.mp first]
          exact Nat.zero_le n
        · omega
      refine List.mem_of_getElem? (i := n - t) ?_
      rw [List.getElem?_drop, Nat.add_sub_cancel' before, kept n (by omega), nul]

end CharcoalOS.Kernel
