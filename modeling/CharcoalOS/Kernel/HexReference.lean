import CharcoalOS.Kernel.Hex

/-!
# What a number in hex is

`hexDigits` are the characters of a text that count, and `ReadsHex` lists what
`console_uint64_from_hex` makes of them. `HexSplit` is a string as the function scans it: the
prefix, the digits, and the character at which the scan stops.
-/

namespace CharcoalOS.Kernel

open Effect Effect.Program

/-- How many characters the prefix takes. -/
def prefixLength : List UInt8 → ℕ
  | d :: x :: _ => if d = 48 ∧ (x = 120 ∨ x = 88) then 2 else 0
  | _ => 0

/-- The longest run of hex digits after an optional prefix, cut to 16. -/
def hexDigits (text : List UInt8) : List UInt8 :=
  ((text.drop (prefixLength text)).takeWhile fun c => IsHex c).take 16

/-- The number that digits spell. -/
def hexNumber (ds : List UInt8) : ℕ := Digits.value 16 (ds.map hexValue)

/-- `value` is what is read from `string`. -/
structure ReadsHex (string : List UInt8) (value : UInt64) : Prop where
  result : consoleUint64FromHex string = some value
  /-- The base-16 value of the digits. -/
  exact : value.toNat = hexNumber (hexDigits (chars string))
  /-- So it is of the first digits, after as many iterations. -/
  lossless : ∀ front back, hexDigits (chars string) = front ++ back →
    ∃ r : UInt64, r.toNat = hexNumber front ∧
      consoleUint64FromHex string =
        fromHexLoop (string.drop (prefixLength (chars string) + front.length))
          (16 - front.length) r
  /-- The storage may end with the NUL. -/
  terminator : consoleUint64FromHex (chars string ++ [0]) = some value
  /-- What follows the first other character has no influence. -/
  other : ∀ behind, consoleUint64FromHex
    (string.take (prefixLength (chars string) + (hexDigits (chars string)).length + 1) ++ behind) =
      some value
  /-- Nor has what follows the 16th digit. -/
  sixteenth : (hexDigits (chars string)).length = 16 → ∀ c behind,
    consoleUint64FromHex (string.take (prefixLength (chars string) + 16) ++ c :: behind) =
      some value

/-! ## A scan -/

/-- A prefix or none, digits, and the character that is not read as one. -/
structure HexSplit (start ds : List UInt8) (c : UInt8) : Prop where
  mark : start = [] ∨ start = [48, 120] ∨ start = [48, 88]
  hex : ∀ d ∈ ds, IsHex d
  atMost : ds.length ≤ 16
  stop : ds.length = 16 ∨ ¬ IsHex c
  /-- There is no prefix that is not in `start`. -/
  noMark : start = [] → ds = [48] → c ≠ 120 ∧ c ≠ 88

theorem not_isHex_mark {x : UInt8} (mark : x = 120 ∨ x = 88) : ¬ IsHex x := by
  rcases mark with rfl | rfl
  · decide
  · decide

variable {start ds text string : List UInt8} {c : UInt8}

theorem HexSplit.skips (split : HexSplit start ds c) (behind : List UInt8) :
    skipHexPrefix (start ++ (ds ++ c :: behind)) = ds ++ c :: behind := by
  rcases split.mark with rfl | rfl | rfl
  · match ds with
    | [] =>
        have other : c ≠ 48 := by
          rintro rfl
          rcases split.stop with none | other
          · cases none
          · exact other (by decide)
        cases behind with
        | nil => rfl
        | cons x behind => exact if_neg fun both => other both.1
    | [d] =>
        refine if_neg fun both => ?_
        obtain ⟨lower, upper⟩ := split.noMark rfl (congrArg (fun d => [d]) both.1)
        exact both.2.elim lower upper
    | d :: x :: ds =>
        have second := split.hex x (List.mem_cons_of_mem _ List.mem_cons_self)
        exact if_neg fun both => not_isHex_mark both.2 second
  · exact skipHexPrefix_prefix (Or.inl rfl) _
  · exact skipHexPrefix_prefix (Or.inr rfl) _

/-- The loop ends at the limit, and at a character that is no digit. -/
theorem fromHexLoop_stop {n : ℕ} (stop : n = 0 ∨ ¬ IsHex c) (behind : List UInt8)
    (result : UInt64) : fromHexLoop (c :: behind) n result = some result := by
  rw [fromHexLoop]
  split
  · have other : ¬ IsHex c := stop.resolve_left (Nat.ne_of_gt (by tauto))
    rw [if_neg fun digit => other (Or.inl digit),
      if_neg fun digit => other (Or.inr (Or.inl digit)),
      if_neg fun digit => other (Or.inr (Or.inr digit))]
  · rfl

theorem hexNumber_lt (hex : ∀ d ∈ ds, IsHex d) (atMost : ds.length ≤ 16) :
    hexNumber ds < 2 ^ 64 := by
  have digits : ∀ d ∈ ds.map hexValue, d < 16 := by
    intro d member
    obtain ⟨c, at_, rfl⟩ := List.mem_map.mp member
    exact hexValue_lt (hex c at_)
  have less := Digits.value_lt (by decide) digits
  rw [List.length_map] at less
  exact less.trans_le (Nat.pow_le_pow_right (n := 16) (by decide) atMost)

/-- The loop after some of the digits. -/
theorem HexSplit.after {front back : List UInt8} (split : HexSplit start (front ++ back) c)
    (behind : List UInt8) :
    consoleUint64FromHex (start ++ (front ++ back ++ c :: behind)) =
      fromHexLoop (back ++ c :: behind) (16 - front.length) (UInt64.ofNat (hexNumber front)) := by
  have atMost := split.atMost
  rw [List.length_append] at atMost
  have run := fromHexLoop_digits (fun d member => split.hex d (List.mem_append_left _ member))
    (back ++ c :: behind) (k := 0) (m := 0) (n := 16) (by decide) (by omega) (by omega)
  rw [consoleUint64FromHex, split.skips, List.append_assoc]
  rw [Nat.zero_mul, Nat.zero_add] at run
  exact run

theorem HexSplit.reads (split : HexSplit start ds c) (behind : List UInt8) :
    consoleUint64FromHex (start ++ (ds ++ c :: behind)) = some (UInt64.ofNat (hexNumber ds)) := by
  have whole : HexSplit start (ds ++ []) c := by rwa [List.append_nil]
  have run := whole.after behind
  rw [List.append_nil, List.nil_append] at run
  rw [run]
  refine fromHexLoop_stop (split.stop.imp_left fun sixteen => ?_) behind _
  rw [sixteen]

/-! ## Every string is scanned so -/

theorem prefixLength_le (text : List UInt8) : prefixLength text ≤ text.length := by
  match text with
  | [] => exact Nat.zero_le _
  | [_] => exact Nat.zero_le _
  | d :: x :: text =>
      rw [prefixLength, List.length_cons, List.length_cons]
      split
      · omega
      · omega

/-- Either 16 digits count, or all that there are. -/
theorem hexDigits_stop (text behind : List UInt8) :
    ∃ c after, text.drop (prefixLength text) ++ 0 :: behind = hexDigits text ++ c :: after ∧
      ((hexDigits text).length = 16 ∨ ¬ IsHex c) := by
  let run := (text.drop (prefixLength text)).takeWhile fun c => IsHex c
  let rest := (text.drop (prefixLength text)).dropWhile fun c => IsHex c
  have whole : text.drop (prefixLength text) ++ 0 :: behind =
      hexDigits text ++ (run.drop 16 ++ (rest ++ 0 :: behind)) := by
    show _ = run.take 16 ++ _
    rw [← List.append_assoc (run.take 16), List.take_append_drop, ← List.append_assoc,
      List.takeWhile_append_dropWhile]
  rw [whole]
  by_cases long : 16 ≤ run.length
  · obtain ⟨c, after, same⟩ :=
      List.exists_cons_of_ne_nil (l := run.drop 16 ++ (rest ++ 0 :: behind)) (by simp)
    exact ⟨c, after, by rw [same], Or.inl (List.length_take_of_le long)⟩
  · rw [List.drop_eq_nil_of_le (by omega), List.nil_append]
    rcases ends : rest with _ | ⟨c, after⟩
    · exact ⟨0, behind, rfl, Or.inr (by decide)⟩
    · refine ⟨c, after ++ 0 :: behind, rfl, Or.inr ?_⟩
      have first := List.head?_dropWhile_not (fun c => decide (IsHex c))
        (text.drop (prefixLength text))
      rw [show (text.drop (prefixLength text)).dropWhile (fun c => decide (IsHex c)) = c :: after
        from ends] at first
      exact of_decide_eq_false first

theorem take_prefixLength (text : List UInt8) :
    text.take (prefixLength text) = [] ∨ text.take (prefixLength text) = [48, 120] ∨
      text.take (prefixLength text) = [48, 88] := by
  match text with
  | [] => exact Or.inl rfl
  | [_] => exact Or.inl rfl
  | d :: x :: text =>
      rw [prefixLength]
      split
      · obtain ⟨rfl, rfl | rfl⟩ := ‹d = 48 ∧ _›
        · exact Or.inr (Or.inl rfl)
        · exact Or.inr (Or.inr rfl)
      · exact Or.inl rfl

theorem isHex_of_mem_hexDigits (text : List UInt8) : ∀ d ∈ hexDigits text, IsHex d := by
  intro d member
  rw [hexDigits] at member
  have digit := List.mem_takeWhile_imp (List.mem_of_mem_take member)
  exact of_decide_eq_true digit

/-- **Every string is a prefix or none, the digits that count, and a character at which the
scan stops.** -/
theorem exists_hexSplit (text behind : List UInt8) :
    ∃ c after, text ++ 0 :: behind =
        text.take (prefixLength text) ++ (hexDigits text ++ c :: after) ∧
      HexSplit (text.take (prefixLength text)) (hexDigits text) c := by
  obtain ⟨c, after, rest, stop⟩ := hexDigits_stop text behind
  have whole : text ++ 0 :: behind =
      text.take (prefixLength text) ++ (hexDigits text ++ c :: after) := by
    rw [← rest, ← List.append_assoc, List.take_append_drop]
  refine ⟨c, after, whole, take_prefixLength text, isHex_of_mem_hexDigits text,
    List.length_take_le _ _, stop, fun none single => ?_⟩
  rw [none, single] at whole
  -- a mark in second place would have been taken for the prefix
  rcases text with _ | ⟨d, _ | ⟨x, text⟩⟩
  · cases whole
  · obtain ⟨rfl, -⟩ := List.cons.inj (List.cons.inj whole).2
    decide
  · obtain ⟨rfl, same⟩ := List.cons.inj whole
    obtain ⟨rfl, -⟩ := List.cons.inj same
    refine not_or.mp fun mark => ?_
    rw [prefixLength, if_pos ⟨rfl, mark⟩] at none
    cases none

/-- What the scan reads, if it is a scan of the string. -/
theorem HexSplit.readsHex {after : List UInt8} (split : HexSplit start ds c)
    (whole : string = start ++ (ds ++ c :: after))
    (mark : prefixLength (chars string) = start.length) (digits : hexDigits (chars string) = ds) :
    ReadsHex string (UInt64.ofNat (hexNumber ds)) := by
  have fits {front back : List UInt8} (same : ds = front ++ back) : hexNumber front < 2 ^ 64 := by
    have size := split.atMost
    rw [same, List.length_append] at size
    exact hexNumber_lt (fun d member => split.hex d (same ▸ List.mem_append_left _ member))
      (by omega)
  constructor
  case result => rw [whole, split.reads]
  case exact =>
    rw [digits]
    exact UInt64.toNat_ofNat_of_lt' (fits (List.append_nil ds).symm)
  case lossless =>
    intro front back same
    rw [digits] at same
    refine ⟨UInt64.ofNat (hexNumber front), UInt64.toNat_ofNat_of_lt' (fits same), ?_⟩
    subst same
    rw [mark, whole, split.after, List.drop_length_add_append, List.append_assoc, List.drop_left]
  case terminator =>
    obtain ⟨d, behind, same, scan⟩ := exists_hexSplit (chars string) []
    rw [same, scan.reads, digits]
  case other =>
    intro behind
    rw [mark, digits, whole, Nat.add_assoc, List.take_length_add_append,
      List.take_length_add_append, List.append_assoc, List.append_assoc]
    exact split.reads behind
  case sixteenth =>
    intro sixteen d behind
    rw [digits] at sixteen
    have scan : HexSplit start ds d :=
      ⟨split.mark, split.hex, split.atMost, Or.inl sixteen, fun _ single => by
        rw [single] at sixteen
        cases sixteen⟩
    rw [mark, whole, ← sixteen, List.take_length_add_append, List.take_left, List.append_assoc,
      scan.reads behind]

/-- **Hex parsing meets its reference**, on every string: it reads the number of at most 16 digits
behind an optional `0x`, up to the first other character, and what is behind that has no
influence. -/
theorem hex_reference (terminated : 0 ∈ string) : ∃ value, ReadsHex string value := by
  obtain ⟨-, behind, whole⟩ := readsAs_chars terminated
  obtain ⟨c, after, same, split⟩ := exists_hexSplit (chars string) behind
  exact ⟨_, split.readsHex (whole.trans same)
    (List.length_take_of_le (prefixLength_le _)).symm rfl⟩

/-- A prefix, then more than 16 digits. -/
theorem hex_reference_long :
    ∃ value, ReadsHex (cString "0xdeadbeefDEADBEEF99 ") value :=
  hex_reference (by decide)

end CharcoalOS.Kernel
