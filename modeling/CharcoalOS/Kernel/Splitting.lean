import CharcoalOS.Kernel.Tokenizing
import CharcoalOS.Lib.Words

/-!
# Tokenizing is splitting into words

`tokenizeArray` is `tokenize_command` with the array of tokens as storage, as its callers provide
it; `tokenizeArray_eq` relates it to the list of tokens. `tokenizeCommand_scanned` says what a
scan leaves in the buffer and which tokens it finds: each is where a word begins, but for the
first, which is recorded before any character is looked at.
-/

namespace CharcoalOS.Kernel

open Words

/-! ## The array of tokens -/

/-- `tokens[i] = token`. -/
def storeToken (tokens : List Nat) (i token : Nat) : Option (List Nat) :=
  if i < tokens.length then some (tokens.set i token) else none

/-- The loop of `tokenize_command` at index `i`, with `n` characters to go. -/
def tokenizeArrayLoop (maxTokens : Nat) : Nat → Nat → List UInt8 → Bool → List Nat → Nat →
    Option (List UInt8 × List Nat × Nat)
  | 0, _, command, _, tokens, numberOfTokens => some (command, tokens, numberOfTokens)
  | n + 1, i, command, betweenTokens, tokens, numberOfTokens =>
      match command[i]? with
      | none => none
      | some c =>
          if c = 0 then some (command, tokens, numberOfTokens)
          else if isBlank c then
            tokenizeArrayLoop maxTokens n (i + 1) (command.set i 0) true tokens numberOfTokens
          else if betweenTokens then
            if maxTokens ≤ numberOfTokens then some (command, tokens, numberOfTokens)
            else do
              let tokens ← storeToken tokens numberOfTokens i
              tokenizeArrayLoop maxTokens n (i + 1) command false tokens (numberOfTokens + 1)
          else tokenizeArrayLoop maxTokens n (i + 1) command betweenTokens tokens numberOfTokens

/-- The command and the array as they are afterwards, and the number of tokens. -/
def tokenizeArray (command : List UInt8) (tokens : List Nat) (maxTokens : Nat) :
    Option (List UInt8 × List Nat × Nat) :=
  if maxTokens = 0 then some (command, tokens, 0)
  else do
    let commandLength ← stringLength command
    if commandLength = 0 then some (command, tokens, 0)
    else do
      let tokens ← storeToken tokens 0 0
      tokenizeArrayLoop maxTokens commandLength 0 command false tokens 1

/-- The array, with the tokens found so far at its front. -/
def filled (slots tokens : List Nat) : List Nat := tokens ++ slots.drop tokens.length

theorem storeToken_filled {slots tokens : List Nat} (room : tokens.length < slots.length)
    (token : Nat) :
    storeToken (filled slots tokens) tokens.length token =
      some (filled slots (tokens ++ [token])) := by
  have inside : tokens.length < (filled slots tokens).length := by
    rw [filled, List.length_append, List.length_drop]
    omega
  rw [storeToken, if_pos inside, filled, filled, List.set_append_right _ _ le_rfl, Nat.sub_self,
    List.drop_eq_getElem_cons room, List.set_cons_zero, List.length_append, List.length_singleton,
    List.append_assoc]
  rfl

/-- What the array holds, for a list of tokens. -/
def inArray (slots : List Nat) (r : List UInt8 × List Nat) : List UInt8 × List Nat × Nat :=
  (r.1, filled slots r.2, r.2.length)

theorem tokenizeArrayLoop_eq {maxTokens : Nat} {slots : List Nat} (room : maxTokens ≤ slots.length)
    (n i : Nat) (command : List UInt8) (betweenTokens : Bool) (tokens : List Nat) :
    tokenizeArrayLoop maxTokens n i command betweenTokens (filled slots tokens) tokens.length =
      (tokenizeLoop maxTokens n i command betweenTokens tokens).map (inArray slots) := by
  induction n generalizing i command betweenTokens tokens with
  | zero => rfl
  | succ n ih =>
      rw [tokenizeArrayLoop, tokenizeLoop]
      cases command[i]? with
      | none => rfl
      | some c =>
          dsimp only
          split
          · rfl
          · split
            · exact ih _ _ _ _
            · split
              · split
                · rfl
                · rw [storeToken_filled (by omega)]
                  have next := ih (i + 1) command false (tokens ++ [i])
                  rwa [List.length_append, List.length_singleton] at next
              · exact ih _ _ _ _

/-- The array version finds the same tokens. -/
theorem tokenizeArray_eq {maxTokens : Nat} {slots : List Nat} (room : maxTokens ≤ slots.length)
    (command : List UInt8) :
    tokenizeArray command slots maxTokens =
      (tokenizeCommand command maxTokens).map (inArray slots) := by
  rw [tokenizeArray, tokenizeCommand]
  split
  · rfl
  · cases stringLength command with
    | none => rfl
    | some n =>
        simp only [Option.bind_eq_bind, Option.bind_some]
        split
        · rfl
        · have first : storeToken slots 0 0 = some (filled slots [0]) :=
            storeToken_filled (show ([] : List ℕ).length < slots.length by simp; omega) 0
          rw [first, Option.bind_some]
          exact tokenizeArrayLoop_eq room n 0 command false [0]

/-! ## A scan -/

/-- A terminator for a blank. -/
def clear (c : UInt8) : UInt8 := if isBlank c then 0 else c

/-- The command with its first `e` characters scanned. -/
def scannedTo (e : ℕ) (command : List UInt8) : List UInt8 :=
  (command.take e).map clear ++ command.drop e

/-- The character before index `i` is blank. -/
def afterBlank (text : List UInt8) (i : ℕ) : Bool := decide (0 < i) && text[i - 1]?.any isBlank

/-- The tokens found before index `i`: one at the front, and one where a later word begins. -/
def tokensTo (text : List UInt8) (i : ℕ) : List ℕ :=
  0 :: (List.range i).filter fun j => decide (0 < j) && startsWord isBlank text j

/-- All tokens that there are room for, and where the scan stops. -/
def tokenStarts (text : List UInt8) : List ℕ :=
  if text = [] then [] else tokensTo text text.length

def scanEnd (text : List UInt8) (maxTokens : ℕ) : ℕ :=
  (tokenStarts text)[maxTokens]?.getD text.length

variable {text behind : List UInt8} {maxTokens i : ℕ}

theorem getElem?_scannedTo (e j : ℕ) (command : List UInt8) :
    (scannedTo e command)[j]? = if j < e then command[j]?.map clear else command[j]? := by
  by_cases inside : j < command.length
  · split
    · rw [scannedTo, List.getElem?_append_left (by simp; omega), List.getElem?_map,
        List.getElem?_take_of_lt ‹_›]
    · rw [scannedTo, List.getElem?_append_right (by simp; omega), List.getElem?_drop]
      congr 1
      simp
      omega
  · have length : (scannedTo e command).length = command.length := by
      simp [scannedTo]
      omega
    rw [List.getElem?_eq_none (by omega), List.getElem?_eq_none (by omega)]
    split
    · rfl
    · rfl

theorem length_scannedTo (e : ℕ) (command : List UInt8) :
    (scannedTo e command).length = command.length := by
  rw [scannedTo, List.length_append, List.length_map, ← List.length_append,
    List.take_append_drop]

/-- One more character. -/
theorem scannedTo_succ {command : List UInt8} {c : UInt8} (here : command[i]? = some c) :
    scannedTo (i + 1) command =
      if isBlank c then (scannedTo i command).set i 0 else scannedTo i command := by
  obtain ⟨inside, rfl⟩ := List.getElem?_eq_some_iff.mp here
  refine List.ext_getElem? fun j => ?_
  rw [getElem?_scannedTo]
  by_cases at_ : j = i
  · subst at_
    rw [if_pos (Nat.lt_succ_self j), here]
    split
    · rw [List.getElem?_set_self (by rwa [length_scannedTo]), Option.map_some, clear, if_pos ‹_›]
    · rw [getElem?_scannedTo, if_neg (Nat.lt_irrefl j), here, Option.map_some, clear, if_neg ‹_›]
  · have same : (if isBlank command[i] then (scannedTo i command).set i 0
        else scannedTo i command)[j]? = (scannedTo i command)[j]? := by
      split
      · exact List.getElem?_set_ne (Ne.symm at_)
      · rfl
    rw [same, getElem?_scannedTo]
    by_cases before : j < i
    · rw [if_pos before, if_pos (by omega)]
    · rw [if_neg before, if_neg (by omega)]

theorem tokensTo_succ (i : ℕ) : tokensTo text (i + 1) =
    if 0 < i ∧ startsWord isBlank text i = true then tokensTo text i ++ [i]
    else tokensTo text i := by
  rw [tokensTo, List.range_succ, List.filter_append, tokensTo]
  by_cases starts : 0 < i ∧ startsWord isBlank text i = true
  · simp [starts.1, starts.2]
  · rw [if_neg starts]
    simpa using starts

theorem tokensTo_prefix (inside : i ≤ text.length) :
    tokensTo text i <+: tokensTo text text.length := by
  refine List.cons_prefix_cons.mpr ⟨rfl, List.IsPrefix.filter _ ?_⟩
  rw [← Nat.add_sub_cancel' inside, List.range_add]
  exact List.prefix_append _ _

theorem afterBlank_succ {c : UInt8} (here : text[i]? = some c) :
    afterBlank text (i + 1) = isBlank c := by
  rw [afterBlank, Nat.add_sub_cancel, here]
  simp

/-- A later word begins at a character that is not blank after one that is. -/
theorem startsLater_iff {c : UInt8} (here : text[i]? = some c) :
    0 < i ∧ startsWord isBlank text i = true ↔ isBlank c = false ∧ afterBlank text i = true := by
  rw [startsWord, afterBlank, here]
  by_cases zero : i = 0
  · simp [zero]
  · simp [zero, Nat.pos_of_ne_zero zero]

/-- **A scan** from index `i` on clears the blanks up to where it stops, and adds the tokens
there. -/
theorem tokenizeLoop_scan (clean : 0 ∉ text) (n : ℕ) (rest : i + n = text.length)
    (room : (tokensTo text i).length ≤ maxTokens) :
    tokenizeLoop maxTokens n i (scannedTo i (text ++ 0 :: behind)) (afterBlank text i)
        (tokensTo text i) =
      some (scannedTo ((tokensTo text text.length)[maxTokens]?.getD text.length)
        (text ++ 0 :: behind), (tokensTo text text.length).take maxTokens) := by
  induction n generalizing i with
  | zero =>
      obtain rfl : i = text.length := rest
      rw [List.getElem?_eq_none room, List.take_of_length_le room]
      rfl
  | succ n ih =>
      have inside : i < text.length := by omega
      have here : text[i]? = some text[i] := List.getElem?_eq_getElem inside
      have char : (text ++ 0 :: behind)[i]? = some text[i] := by
        rw [List.getElem?_append_left inside, here]
      have nul : text[i] ≠ 0 := fun nul => clean (nul ▸ List.getElem_mem inside)
      have next := ih (i := i + 1) (by omega)
      rw [scannedTo_succ char, tokensTo_succ, afterBlank_succ here] at next
      simp only [startsLater_iff here] at next
      rw [tokenizeLoop, getElem?_scannedTo, if_neg (Nat.lt_irrefl i), char]
      dsimp only
      rw [if_neg nul]
      by_cases blank : isBlank text[i] = true
      · simp only [blank, if_true, Bool.true_eq_false, false_and, if_false] at next ⊢
        exact next room
      · rw [if_neg blank]
        rw [Bool.not_eq_true] at blank
        by_cases between : afterBlank text i = true
        · simp only [blank, between, true_and, if_true, Bool.false_eq_true, if_false] at next ⊢
          split
          · -- there is no room for the word that begins here
            have full : (tokensTo text i).length = maxTokens := by omega
            obtain ⟨more, all⟩ := tokensTo_prefix (Nat.succ_le_of_lt inside)
            rw [tokensTo_succ, if_pos ((startsLater_iff here).mpr ⟨blank, between⟩),
              List.append_assoc, List.singleton_append] at all
            rw [← all, ← full, List.getElem?_append_right le_rfl, Nat.sub_self, List.take_left]
            rfl
          · refine next ?_
            rw [List.length_append, List.length_singleton]
            omega
        · rw [if_neg between, (Bool.not_eq_true _).mp between]
          simp only [blank, between, and_false, if_false, Bool.false_eq_true] at next
          exact next room

/-- **Tokenizing** clears the blanks up to the first word that there is no room for. -/
theorem tokenizeCommand_scanned (clean : 0 ∉ text) (behind : List UInt8) (maxTokens : ℕ) :
    tokenizeCommand (text ++ 0 :: behind) maxTokens =
      some (scannedTo (scanEnd text maxTokens) (text ++ 0 :: behind),
        (tokenStarts text).take maxTokens) := by
  rw [tokenizeCommand, stringLength_append clean, Option.bind_eq_bind, Option.bind_some, scanEnd,
    tokenStarts]
  by_cases empty : text = []
  · subst empty
    simp [scannedTo]
  · rw [if_neg empty]
    rcases Nat.eq_zero_or_pos maxTokens with rfl | some_
    · rfl
    · rw [if_neg (Nat.ne_of_gt some_), if_neg (by simpa using empty)]
      exact tokenizeLoop_scan clean text.length (Nat.zero_add _) some_

/-! ## The tokens -/

theorem mem_tokenStarts {t : ℕ} (member : t ∈ tokenStarts text) :
    t < text.length ∧ (t = 0 ∨ startsWord isBlank text t = true) := by
  rw [tokenStarts] at member
  split at member
  · cases member
  · rcases List.mem_cons.mp member with rfl | later
    · exact ⟨List.length_pos_of_ne_nil ‹_›, Or.inl rfl⟩
    · obtain ⟨inside, starts⟩ := List.mem_filter.mp later
      exact ⟨List.mem_range.mp inside, Or.inr (Bool.and_eq_true_iff.mp starts).2⟩

theorem tokenStarts_sorted (text : List UInt8) : (tokenStarts text).Pairwise (· < ·) := by
  rw [tokenStarts]
  split
  · exact List.Pairwise.nil
  · refine List.pairwise_cons.mpr ⟨fun t member => ?_, List.pairwise_lt_range.filter _⟩
    exact of_decide_eq_true (Bool.and_eq_true_iff.mp (List.mem_filter.mp member).2).1

theorem scanEnd_le (text : List UInt8) (maxTokens : ℕ) : scanEnd text maxTokens ≤ text.length := by
  rw [scanEnd]
  cases beyond : (tokenStarts text)[maxTokens]? with
  | none => exact le_rfl
  | some t => exact (mem_tokenStarts (List.mem_of_getElem? beyond)).1.le

/-- A token that there is room for ends before the scan does, or where the command does. -/
theorem token_end {k t : ℕ} (token : (tokenStarts text)[k]? = some t) (room : k < maxTokens) :
    t + (wordAt isBlank text t).length < scanEnd text maxTokens ∨
      t + (wordAt isBlank text t).length = text.length := by
  have inside := (mem_tokenStarts (List.mem_of_getElem? token)).1
  rw [scanEnd]
  cases beyond : (tokenStarts text)[maxTokens]? with
  | none => exact Nat.lt_or_eq_of_le (wordAt_le inside.le)
  | some t' =>
      left
      obtain ⟨there, rfl⟩ := List.getElem?_eq_some_iff.mp token
      obtain ⟨there', rfl⟩ := List.getElem?_eq_some_iff.mp beyond
      have less :=
        List.pairwise_iff_getElem.mp (tokenStarts_sorted text) k maxTokens there there' room
      have starts := (mem_tokenStarts (List.getElem_mem there')).2
      exact wordAt_before less (starts.resolve_left (by omega))

/-- **A token reads as a word**, or as nothing. -/
theorem readsAs_token (clean : 0 ∉ text) (behind : List UInt8) {k t : ℕ}
    (token : (tokenStarts text)[k]? = some t) (room : k < maxTokens) :
    ReadsAs (wordAt isBlank text t)
      ((scannedTo (scanEnd text maxTokens) (text ++ 0 :: behind)).drop t) := by
  have stops := token_end token room
  have inside : t + (wordAt isBlank text t).length ≤ text.length :=
    wordAt_le (mem_tokenStarts (List.mem_of_getElem? token)).1.le
  have word : ∀ c ∈ wordAt isBlank text t, isBlank c = false := wordAt_clean t
  refine readsAs_of_getElem? ?_ ?_ ?_
  · intro nul
    have part := (List.takeWhile_prefix _).subset nul
    exact clean (List.mem_of_mem_drop part)
  · intro m less
    have char := getElem?_wordAt less
    have kept : clear (wordAt isBlank text t)[m] = (wordAt isBlank text t)[m] := by
      rw [clear, word _ (List.getElem_mem less), if_neg Bool.false_ne_true]
    rw [List.getElem?_drop, getElem?_scannedTo, List.getElem?_append_left (by omega), char,
      List.getElem?_eq_getElem less]
    split
    · rw [Option.map_some, kept]
    · rfl
  · rw [List.getElem?_drop, getElem?_scannedTo]
    by_cases ends : t + (wordAt isBlank text t).length = text.length
    · have none : scanEnd text maxTokens ≤ text.length := scanEnd_le text maxTokens
      rw [ends, if_neg (Nat.not_lt.mpr none), List.getElem?_append_right le_rfl, Nat.sub_self,
        List.getElem?_cons_zero]
    · have next : t + (wordAt isBlank text t).length < text.length := by omega
      have blank := wordAt_end (List.getElem?_eq_getElem next)
      rw [if_pos (stops.resolve_right ends), List.getElem?_append_left next,
        List.getElem?_eq_getElem next, Option.map_some, clear, if_pos blank]

/-! ## Splitting -/

/-- A command that begins with a word has its words for tokens. -/
theorem tokenStarts_of_word {c : UInt8} {text : List UInt8} (word : isBlank c = false) :
    tokenStarts (c :: text) = wordStarts isBlank (c :: text) := by
  have front (n : ℕ) : (List.range (n + 1)).filter (startsWord isBlank (c :: text)) =
      tokensTo (c :: text) (n + 1) := by
    induction n with
    | zero => simp [tokensTo, startsWord, word]
    | succ n ih =>
        rw [List.range_succ, List.filter_append, ih, tokensTo_succ (n + 1)]
        by_cases starts : startsWord isBlank (c :: text) (n + 1) = true
        · simp [starts]
        · simp [starts]
  rw [tokenStarts, if_neg (List.cons_ne_nil _ _), wordStarts, List.length_cons, front]

/-- One that begins with a blank has an empty one more. -/
theorem tokenStarts_of_blank {c : UInt8} {text : List UInt8} (blank : isBlank c = true) :
    tokenStarts (c :: text) = 0 :: wordStarts isBlank (c :: text) := by
  rw [tokenStarts, if_neg (List.cons_ne_nil _ _), tokensTo, wordStarts]
  refine congrArg (List.cons 0) (List.filter_congr fun j _ => ?_)
  by_cases zero : j = 0
  · simp [zero, startsWord, blank]
  · simp [Nat.pos_of_ne_zero zero]

/-- `tokenize_command` splits the command into words: with an array of `maxTokens`, it finds as
many tokens as there are words, or room, and each points to its word and reads as it. -/
def SplitsIntoWords (command : List UInt8) (maxTokens : ℕ) : Prop :=
  ∀ slots : List ℕ, slots.length = maxTokens → ∃ buffer slots' count,
    tokenizeArray command slots maxTokens = some (buffer, slots', count) ∧
      count = min (words isBlank (chars command)).length maxTokens ∧
      ∀ k < count, ∀ w, (words isBlank (chars command))[k]? = some w →
        slots'[k]? = some w.1 ∧ ReadsAs w.2 (buffer.drop w.1)

variable {command : List UInt8}

/-- What the array version computes. -/
theorem tokenizeArray_scanned (terminated : 0 ∈ command) {slots : List ℕ}
    (room : maxTokens ≤ slots.length) :
    tokenizeArray command slots maxTokens =
      some (scannedTo (scanEnd (chars command) maxTokens) command,
        filled slots ((tokenStarts (chars command)).take maxTokens),
        min maxTokens (tokenStarts (chars command)).length) := by
  obtain ⟨clean, behind, whole⟩ := readsAs_chars terminated
  have scan := tokenizeCommand_scanned clean behind maxTokens
  rw [← whole] at scan
  rw [tokenizeArray_eq room, scan, Option.map_some, inArray, List.length_take]

theorem filled_getElem? {slots tokens : List ℕ} {k : ℕ} (less : k < tokens.length) :
    (filled slots tokens)[k]? = tokens[k]? :=
  List.getElem?_append_left less

theorem words_getElem? {k : ℕ} {w : ℕ × List UInt8} (word : (words isBlank text)[k]? = some w) :
    (wordStarts isBlank text)[k]? = some w.1 ∧ w.2 = wordAt isBlank text w.1 := by
  rw [words, List.getElem?_map] at word
  obtain ⟨t, here, rfl⟩ := Option.map_eq_some_iff.mp word
  exact ⟨here, rfl⟩

theorem length_words : (words isBlank text).length = (wordStarts isBlank text).length :=
  List.length_map _

/-- The first character of a command. -/
theorem head?_chars {c : UInt8} :
    (chars command).head? = some c ↔ command.head? = some c ∧ c ≠ 0 := by
  rw [chars, List.head?_takeWhile, Option.filter_eq_some_iff, decide_eq_true_iff]

theorem tokenStarts_eq_words (word : ∀ c, command.head? = some c → isBlank c = false) :
    tokenStarts (chars command) = wordStarts isBlank (chars command) := by
  cases text : chars command with
  | nil => rfl
  | cons c rest => exact tokenStarts_of_word (word c (head?_chars.mp (by rw [text]; rfl)).1)

theorem splitsIntoWords_of_word (terminated : 0 ∈ command)
    (word : ∀ c, command.head? = some c → isBlank c = false) :
    SplitsIntoWords command maxTokens := by
  intro slots size
  refine ⟨_, _, _, tokenizeArray_scanned terminated size.ge, ?_, ?_⟩
  · rw [tokenStarts_eq_words word, length_words, Nat.min_comm]
  · intro k less w here
    obtain ⟨start, same⟩ := words_getElem? here
    rw [← tokenStarts_eq_words word] at start
    obtain ⟨clean, behind, whole⟩ := readsAs_chars terminated
    have reads := readsAs_token clean behind start (lt_min_iff.mp less).1
    rw [← whole, ← same] at reads
    refine ⟨?_, reads⟩
    rw [filled_getElem? (by rwa [List.length_take]),
      List.getElem?_take_of_lt (lt_min_iff.mp less).1, start]

theorem not_splitsIntoWords_of_blank (terminated : 0 ∈ command) (some_ : 0 < maxTokens) {c : UInt8}
    (first : command.head? = some c) (blank : isBlank c = true) :
    ¬ SplitsIntoWords command maxTokens := by
  have nul : c ≠ 0 := by
    rintro rfl
    cases blank
  obtain ⟨rest, text⟩ := List.head?_eq_some_iff.mp (head?_chars.mpr ⟨first, nul⟩)
  have starts : tokenStarts (chars command) = 0 :: wordStarts isBlank (chars command) := by
    rw [text]
    exact tokenStarts_of_blank blank
  intro splits
  obtain ⟨buffer, slots', count, run, counted, tokens⟩ :=
    splits (List.replicate maxTokens 0) List.length_replicate
  rw [tokenizeArray_scanned terminated List.length_replicate.ge] at run
  obtain ⟨-, rest⟩ := Prod.mk.inj (Option.some.inj run)
  obtain ⟨rfl, rfl⟩ := Prod.mk.inj rest
  rw [starts, List.length_cons, length_words] at counted
  -- the counts agree only where a word has no token, and then the first word has the wrong one
  have full : maxTokens ≤ (wordStarts isBlank (chars command)).length := by omega
  have there : 0 < (words isBlank (chars command)).length := by
    rw [length_words]
    omega
  obtain ⟨points, -⟩ := tokens 0 (by rw [starts, List.length_cons]; omega) _
    (List.getElem?_eq_getElem there)
  rw [starts, filled_getElem? (by simp; omega), List.getElem?_take_of_lt some_,
    List.getElem?_cons_zero] at points
  obtain ⟨start, -⟩ := words_getElem? (List.getElem?_eq_getElem there)
  have begins := mem_wordStarts.mp (List.mem_of_getElem? start)
  rw [← Option.some.inj points, text] at begins
  simp [startsWord, blank] at begins

/-- **Tokenizing is splitting into words** exactly if no blank comes first. The words are the
maximal runs of characters that are not blank, in the order in which they stand. -/
theorem splits_into_words_iff (terminated : 0 ∈ command) (some_ : 1 ≤ maxTokens) :
    (SplitsIntoWords command maxTokens ↔ ∀ c, command.head? = some c → isBlank c = false) ∧
      (∀ i w, (i, w) ∈ words isBlank (chars command) ↔ MaximalRun isBlank (chars command) i w) ∧
      (words isBlank (chars command)).Pairwise fun w w' => w.1 < w'.1 := by
  refine ⟨⟨fun splits c first => ?_, splitsIntoWords_of_word terminated⟩,
    fun i w => mem_words_iff, words_sorted⟩
  by_contra blank
  have blank := (Bool.not_eq_false _).mp blank
  exact not_splitsIntoWords_of_blank terminated some_ first blank splits

/-- Two words, and more blanks between them than one. -/
theorem splits_into_words_add :
    SplitsIntoWords (cString "add  1 ") 3 ∧
      words isBlank (chars (cString "add  1 ")) =
        [(0, chars (cString "add")), (5, chars (cString "1"))] := by
  obtain ⟨splits, -, -⟩ :=
    splits_into_words_iff (show 0 ∈ cString "add  1 " by decide) (show 1 ≤ 3 by decide)
  refine ⟨splits.mpr fun c first => ?_, by decide⟩
  cases first
  rfl

/-- A blank before a word is an empty token, and so is a line of one blank. -/
theorem empty_first_token :
    ¬ SplitsIntoWords (cString " help") 10 ∧
      tokenizeArray (cString " ") (List.replicate 10 7) 10 =
        some ([0, 0], 0 :: List.replicate 9 7, 1) ∧
      words isBlank (chars (cString " ")) = [] :=
  ⟨not_splitsIntoWords_of_blank (by decide) (by decide) rfl rfl, rfl, rfl⟩

/-! ## What is left alone -/

/-- What tokenizing may do to the buffer and to the array. -/
structure TouchesOnly (command : List UInt8) (slots : List ℕ) (maxTokens : ℕ)
    (buffer : List UInt8) (slots' : List ℕ) (count : ℕ) : Prop where
  length : buffer.length = command.length
  /-- A byte is as it was, or a terminator for a blank. -/
  bytes : ∀ (j : ℕ) c, command[j]? = some c →
    buffer[j]? = some c ∨ isBlank c = true ∧ buffer[j]? = some 0
  terminator : ∀ j : ℕ, (chars command).length ≤ j → buffer[j]? = command[j]?
  /-- The word at the limit and all behind it. -/
  limit : ∀ w, (words isBlank (chars command))[maxTokens]? = some w →
    ∀ j : ℕ, w.1 ≤ j → buffer[j]? = command[j]?
  /-- A word that has no token and all behind it. -/
  left : ∀ w ∈ words isBlank (chars command), w.1 ∉ slots'.take count →
    ∀ j : ℕ, w.1 ≤ j → buffer[j]? = command[j]?
  count_le : count ≤ maxTokens
  size : slots'.length = slots.length
  unwritten : ∀ k : ℕ, count ≤ k → slots'[k]? = slots[k]?
  tokens : (slots'.take count).length = count
  increasing : (slots'.take count).Pairwise (· < ·)
  inside : ∀ t ∈ slots'.take count, t < (chars command).length
  /-- A token reads as a string without blanks. -/
  reads : ∀ t ∈ slots'.take count, ∃ w, ReadsAs w (buffer.drop t) ∧ ∀ c ∈ w, isBlank c = false

/-- A word is a token, if there is room. -/
theorem exists_tokenStart {k t : ℕ} (start : (wordStarts isBlank text)[k]? = some t) :
    ∃ k', k ≤ k' ∧ (tokenStarts text)[k']? = some t := by
  cases text with
  | nil => cases start
  | cons c text =>
      by_cases blank : isBlank c = true
      · rw [tokenStarts_of_blank blank]
        exact ⟨k + 1, Nat.le_succ k, start⟩
      · rw [tokenStarts_of_word ((Bool.not_eq_true _).mp blank)]
        exact ⟨k, le_rfl, start⟩

theorem scanEnd_le_token {k t : ℕ} (token : (tokenStarts text)[k]? = some t)
    (beyond : maxTokens ≤ k) : scanEnd text maxTokens ≤ t := by
  obtain ⟨there, rfl⟩ := List.getElem?_eq_some_iff.mp token
  rw [scanEnd, List.getElem?_eq_getElem (by omega), Option.getD_some]
  rcases Nat.lt_or_eq_of_le beyond with less | rfl
  · exact (List.pairwise_iff_getElem.mp (tokenStarts_sorted text) maxTokens k (by omega) there
      less).le
  · exact le_rfl

theorem touchesOnly_scanned (terminated : 0 ∈ command) {slots : List ℕ}
    (room : maxTokens ≤ slots.length) :
    TouchesOnly command slots maxTokens (scannedTo (scanEnd (chars command) maxTokens) command)
      (filled slots ((tokenStarts (chars command)).take maxTokens))
      (min maxTokens (tokenStarts (chars command)).length) := by
  have size : ((tokenStarts (chars command)).take maxTokens).length =
      min maxTokens (tokenStarts (chars command)).length := List.length_take
  have tokens : (filled slots ((tokenStarts (chars command)).take maxTokens)).take
      (min maxTokens (tokenStarts (chars command)).length) =
        (tokenStarts (chars command)).take maxTokens := by
    rw [filled, ← size, List.take_left]
  have unscanned {j : ℕ} (behind : scanEnd (chars command) maxTokens ≤ j) :
      (scannedTo (scanEnd (chars command) maxTokens) command)[j]? = command[j]? := by
    rw [getElem?_scannedTo, if_neg (Nat.not_lt.mpr behind)]
  constructor
  case length => exact length_scannedTo _ _
  case bytes =>
    intro j c here
    rw [getElem?_scannedTo, here]
    split
    · rw [Option.map_some, clear]
      split
      · exact Or.inr ⟨‹_›, rfl⟩
      · exact Or.inl rfl
    · exact Or.inl rfl
  case terminator => exact fun j behind => unscanned ((scanEnd_le _ _).trans behind)
  case limit =>
    intro w word j behind
    obtain ⟨k, beyond, token⟩ := exists_tokenStart (words_getElem? word).1
    exact unscanned ((scanEnd_le_token token beyond).trans behind)
  case left =>
    intro w member other j behind
    rw [tokens] at other
    obtain ⟨k, word⟩ := List.mem_iff_getElem?.mp member
    obtain ⟨k', -, token⟩ := exists_tokenStart (words_getElem? word).1
    refine unscanned ((scanEnd_le_token token ?_).trans behind)
    by_contra early
    refine other (List.mem_of_getElem? (i := k') ?_)
    rw [List.getElem?_take_of_lt (Nat.not_le.mp early), token]
  case count_le => exact Nat.min_le_left _ _
  case size =>
    rw [filled, List.length_append, List.length_drop, size]
    omega
  case unwritten =>
    intro k behind
    rw [filled, List.getElem?_append_right (by omega), List.getElem?_drop, size]
    congr 1
    omega
  case tokens => rw [tokens, size]
  case increasing =>
    rw [tokens]
    exact (tokenStarts_sorted _).sublist (List.take_sublist _ _)
  case inside =>
    rw [tokens]
    exact fun t member => (mem_tokenStarts (List.mem_of_mem_take member)).1
  case reads =>
    rw [tokens]
    intro t member
    obtain ⟨k, token⟩ := List.mem_iff_getElem?.mp member
    have less : k < maxTokens := by
      have inside := (List.getElem?_eq_some_iff.mp token).1
      rw [List.length_take] at inside
      omega
    rw [List.getElem?_take_of_lt less] at token
    obtain ⟨clean, behind, whole⟩ := readsAs_chars terminated
    have reads := readsAs_token clean behind token less
    rw [← whole] at reads
    exact ⟨_, reads, wordAt_clean t⟩

/-- **Tokenizing touches only what it may**, whatever the limit, if the array has room for as many
tokens: it only writes terminators over blanks, and none from the terminator or a word without a
token on. -/
theorem tokenizing_touches (terminated : 0 ∈ command) {slots : List ℕ}
    (room : maxTokens ≤ slots.length) :
    ∃ buffer slots' count, tokenizeArray command slots maxTokens = some (buffer, slots', count) ∧
      TouchesOnly command slots maxTokens buffer slots' count :=
  ⟨_, _, _, tokenizeArray_scanned terminated room, touchesOnly_scanned terminated room⟩

/-- The limit cuts the line short. -/
theorem tokenizing_touches_cut :
    ∃ buffer slots' count,
      tokenizeArray (cString "help  a b") (List.replicate 4 7) 2 = some (buffer, slots', count) ∧
        TouchesOnly (cString "help  a b") (List.replicate 4 7) 2 buffer slots' count :=
  tokenizing_touches (by decide) (by decide)

end CharcoalOS.Kernel
