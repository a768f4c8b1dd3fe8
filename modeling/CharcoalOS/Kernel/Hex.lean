import CharcoalOS.Kernel.Printing

/-!
# Numbers in hex

`console_print_hex_value` prints `hexText` of the value, on both byte orders, and
`console_uint64_from_hex` reads every way to spell a number, as `Spells` lists them.
-/

namespace CharcoalOS.Kernel

open Effect Effect.Program

/-! ## Printing -/

/-- The character of a digit, in upper case. -/
def upperHex (d : ℕ) : UInt8 := if d ≤ 9 then UInt8.ofNat (48 + d) else UInt8.ofNat (55 + d)

/-- The last `w` hex digits of `n`. -/
def hexText (w n : ℕ) : List UInt8 := (Digits.fixed 16 w n).map upperHex

/-- What is printed of a byte. -/
def hexOfByte (byte : UInt8) : List UInt8 :=
  [hexDigit ((byte >>> 4) &&& 15), hexDigit (byte &&& 15)]

theorem hexOfByte_ofNat {d : ℕ} (less : d < 256) :
    hexOfByte (UInt8.ofNat d) = [d / 16, d % 16].map upperHex := by
  have all : ∀ d : Fin 256, hexOfByte (UInt8.ofNat d) = [d.val / 16, d.val % 16].map upperHex := by
    decide +kernel
  exact all ⟨d, less⟩

/-- Bytes print as their digits do. -/
theorem flatMap_hexOfByte {ds : List ℕ} (bytes : ∀ d ∈ ds, d < 256) :
    (ds.map UInt8.ofNat).flatMap hexOfByte =
      (ds.flatMap fun d => [d / 16, d % 16]).map upperHex := by
  induction ds with
  | nil => rfl
  | cons d ds ih =>
      obtain ⟨first, rest⟩ := List.forall_mem_cons.mp bytes
      rw [List.map_cons, List.flatMap_cons, List.flatMap_cons, List.map_append, ih rest,
        hexOfByte_ofNat first]

theorem run_printHexByte (byte : UInt8) (s : State) :
    (printHexByte byte).run s = ⟨.ok (), s, (hexOfByte byte).map .putc⟩ := rfl

theorem run_consolePrintHexBytes (data : List UInt8) (s : State) :
    (consolePrintHexBytes data data.length).run s =
      ⟨.ok (), s, (data.flatMap hexOfByte).map .putc⟩ := by
  induction data with
  | nil => rfl
  | cons byte data ih =>
      rw [List.length_cons, consolePrintHexBytes, Code.run_bind, bind_ok (run_printHexByte byte s),
        ih, List.flatMap_cons, List.map_append]

theorem run_printHexDown {data : List UInt8} {i : Nat} (inside : i ≤ data.length) (s : State) :
    (printHexDown data i).run s =
      ⟨.ok (), s, ((data.take i).reverse.flatMap hexOfByte).map .putc⟩ := by
  induction i with
  | zero => rfl
  | succ i ih =>
      rw [printHexDown, List.getElem?_eq_getElem inside, List.take_succ_eq_append_getElem inside,
        List.reverse_append, List.reverse_singleton, List.singleton_append, List.flatMap_cons,
        List.map_append]
      show ((printHexByte _ >>= fun _ => printHexDown data i).run s) = _
      rw [Code.run_bind, bind_ok (run_printHexByte _ s), ih (Nat.le_of_succ_le inside)]

/-- **A value prints as its digits**, whichever the byte order. -/
theorem run_consolePrintHexValue (platform : Platform) (size value : Nat) (s : State) :
    (consolePrintHexValue platform (hostBytes platform size value) size).run s =
      ⟨.ok (), s, (hexText (2 * size) value).map .putc⟩ := by
  have length := length_hostBytes platform size value
  have text : ((Digits.fixed 256 size value).map UInt8.ofNat).flatMap hexOfByte =
      hexText (2 * size) value := by
    rw [flatMap_hexOfByte (Digits.fixed_lt (by decide) size value), hexText]
    exact congrArg (List.map upperHex) (Digits.fixed_flatMap (b := 16) size value)
  by_cases big : platform.bigEndian
  · have bytes : hostBytes platform size value = (Digits.fixed 256 size value).map UInt8.ofNat :=
      if_pos big
    rw [consolePrintHexValue, if_pos big, ← text, ← bytes]
    have run := run_consolePrintHexBytes (hostBytes platform size value) s
    rwa [length] at run
  · have bytes : hostBytes platform size value =
        ((Digits.fixed 256 size value).map UInt8.ofNat).reverse := if_neg big
    rw [consolePrintHexValue, if_neg big, run_printHexDown length.ge,
      List.take_of_length_le length.le, bytes, List.reverse_reverse, text]

theorem run_printHex (platform : Platform) (value : UInt64) (s : State) :
    (printHex platform value).run s = ⟨.ok (), s, (hexText 16 value.toNat).map .putc⟩ :=
  run_consolePrintHexValue platform 8 value.toNat s

/-! ## Reading -/

/-- A hex digit, in either case. -/
def IsHex (c : UInt8) : Prop := (48 ≤ c ∧ c ≤ 57) ∨ (65 ≤ c ∧ c ≤ 70) ∨ 97 ≤ c ∧ c ≤ 102

/-- What it stands for. -/
def hexValue (c : UInt8) : ℕ :=
  if c ≤ 57 then c.toNat - 48 else if c ≤ 70 then c.toNat - 55 else c.toNat - 87

instance (c : UInt8) : Decidable (IsHex c) := inferInstanceAs (Decidable (_ ∨ _ ∨ _))

/-- The three branches of the loop agree on what a digit stands for. -/
theorem hexValue_branches (c : UInt8) :
    (48 ≤ c ∧ c ≤ 57 → (c - 48).toUInt64 = UInt64.ofNat (hexValue c)) ∧
      (65 ≤ c ∧ c ≤ 70 → (c - 65 + 10).toUInt64 = UInt64.ofNat (hexValue c)) ∧
      (97 ≤ c ∧ c ≤ 102 → (c - 97 + 10).toUInt64 = UInt64.ofNat (hexValue c)) ∧
      (IsHex c → hexValue c < 16) := by
  have all : ∀ d : Fin 256,
      (48 ≤ UInt8.ofNat d ∧ UInt8.ofNat d ≤ 57 →
        (UInt8.ofNat d - 48).toUInt64 = UInt64.ofNat (hexValue (UInt8.ofNat d))) ∧
      (65 ≤ UInt8.ofNat d ∧ UInt8.ofNat d ≤ 70 →
        (UInt8.ofNat d - 65 + 10).toUInt64 = UInt64.ofNat (hexValue (UInt8.ofNat d))) ∧
      (97 ≤ UInt8.ofNat d ∧ UInt8.ofNat d ≤ 102 →
        (UInt8.ofNat d - 97 + 10).toUInt64 = UInt64.ofNat (hexValue (UInt8.ofNat d))) ∧
      (IsHex (UInt8.ofNat d) → hexValue (UInt8.ofNat d) < 16) := by
    decide +kernel
  have here := all ⟨c.toNat, c.toNat_lt⟩
  rwa [UInt8.ofNat_toNat] at here

theorem hexValue_lt {c : UInt8} (hex : IsHex c) : hexValue c < 16 :=
  (hexValue_branches c).2.2.2 hex

/-- How the loop adds a digit to the number so far. -/
theorem fromHexLoop_cons {c : UInt8} (hex : IsHex c) {n : ℕ} (room : 0 < n) (digits : List UInt8)
    (result : UInt64) :
    fromHexLoop (c :: digits) n result =
      fromHexLoop digits (n - 1) ((result <<< 4) ||| UInt64.ofNat (hexValue c)) := by
  have nul : c ≠ 0 := by
    intro nul
    rw [nul] at hex
    revert hex
    decide
  obtain ⟨decimal, upper, lower, _⟩ := hexValue_branches c
  rw [fromHexLoop, if_pos ⟨nul, room⟩]
  split
  · rw [decimal ‹_›]
  · split
    · rw [upper ‹_›]
    · rw [if_pos ((hex.resolve_left ‹_›).resolve_left ‹_›),
        lower ((hex.resolve_left ‹_›).resolve_left ‹_›)]

/-- The loop stops at the terminator. -/
theorem fromHexLoop_nul (behind : List UInt8) (n : ℕ) (result : UInt64) :
    fromHexLoop (0 :: behind) n result = some result := by
  rw [fromHexLoop]
  exact if_neg fun both => both.1 rfl

theorem shiftLeft_or (m d : ℕ) (digit : d < 16) (small : m < 16 ^ 15) :
    (UInt64.ofNat m <<< 4) ||| UInt64.ofNat d = UInt64.ofNat (m * 16 + d) := by
  have fits {n : ℕ} (less : n < 2 ^ 64) : (UInt64.ofNat n).toNat = n :=
    UInt64.toNat_ofNat_of_lt' less
  have shifted : (UInt64.ofNat m <<< 4).toNat = m * 2 ^ 4 := by
    rw [UInt64.toNat_shiftLeft, fits (by omega)]
    show m <<< 4 % 2 ^ 64 = _
    rw [Nat.shiftLeft_eq, Nat.mod_eq_of_lt (by omega)]
  apply UInt64.toNat.inj
  rw [UInt64.toNat_or, shifted, fits (by omega), fits (by omega), Digits.or_eq 4 digit]
  rfl

/-- A run of digits, after at most as many that 16 are not exceeded. -/
theorem fromHexLoop_digits {ds : List UInt8} (hex : ∀ c ∈ ds, IsHex c) (rest : List UInt8)
    {k m n : ℕ} (small : m < 16 ^ k) (fits : k + ds.length ≤ 16) (room : ds.length ≤ n) :
    fromHexLoop (ds ++ rest) n (UInt64.ofNat m) =
      fromHexLoop rest (n - ds.length)
        (UInt64.ofNat (m * 16 ^ ds.length + Digits.value 16 (ds.map hexValue))) := by
  induction ds generalizing k m n with
  | nil => simp
  | cons c ds ih =>
      obtain ⟨first, hex⟩ := List.forall_mem_cons.mp hex
      rw [List.length_cons] at fits room
      have digit := hexValue_lt first
      have less : m < 16 ^ 15 :=
        Nat.lt_of_lt_of_le small (Nat.pow_le_pow_right (by decide) (by omega))
      have next : m * 16 + hexValue c < 16 ^ (k + 1) := by
        rw [Nat.pow_succ]
        omega
      rw [List.cons_append, fromHexLoop_cons first (by omega), shiftLeft_or m _ digit less,
        ih hex next (by omega) (by omega), List.map_cons, List.length_cons,
        show hexValue c :: ds.map hexValue = [hexValue c] ++ ds.map hexValue from rfl,
        Digits.value_append, Digits.value_singleton, List.length_map, Nat.sub_sub, Nat.add_comm 1,
        Nat.pow_succ]
      congr 2
      ring

/-- `text` is a way to spell `value`: up to 16 hex digits, perhaps after a prefix. -/
def Spells (text : List UInt8) (value : UInt64) : Prop :=
  ∃ start digits, text = start ++ digits ∧ (start = [] ∨ start = [48, 120] ∨ start = [48, 88]) ∧
    1 ≤ digits.length ∧ digits.length ≤ 16 ∧ (∀ c ∈ digits, IsHex c) ∧
    Digits.value 16 (digits.map hexValue) = value.toNat

/-- Without a prefix nothing is skipped. -/
theorem skipHexPrefix_digits {ds : List UInt8} (hex : ∀ c ∈ ds, IsHex c) (some_ : ds ≠ [])
    (behind : List UInt8) : skipHexPrefix (ds ++ 0 :: behind) = ds ++ 0 :: behind := by
  match ds with
  | [] => exact absurd rfl some_
  | [d] => exact if_neg fun both => absurd both.2 (by decide)
  | d :: x :: ds =>
      have second : IsHex x := hex x (List.mem_cons_of_mem _ List.mem_cons_self)
      refine if_neg fun both => ?_
      rcases both.2 with rfl | rfl
      · exact absurd second (by decide)
      · exact absurd second (by decide)

theorem skipHexPrefix_prefix {x : UInt8} (mark : x = 120 ∨ x = 88) (digits : List UInt8) :
    skipHexPrefix (48 :: x :: digits) = digits := by
  rw [skipHexPrefix]
  exact if_pos ⟨rfl, mark⟩

/-- **Every spelling is read.** -/
theorem consoleUint64FromHex_of_spells {text : List UInt8} {value : UInt64}
    (spells : Spells text value) (behind : List UInt8) :
    consoleUint64FromHex (text ++ 0 :: behind) = some value := by
  obtain ⟨start, ds, rfl, front, atLeast, atMost, hex, value_eq⟩ := spells
  have skipped : skipHexPrefix (start ++ ds ++ 0 :: behind) = ds ++ 0 :: behind := by
    rcases front with rfl | rfl | rfl
    · exact skipHexPrefix_digits hex (List.ne_nil_of_length_pos atLeast) behind
    · exact skipHexPrefix_prefix (Or.inl rfl) (ds ++ 0 :: behind)
    · exact skipHexPrefix_prefix (Or.inr rfl) (ds ++ 0 :: behind)
  have run := fromHexLoop_digits hex (0 :: behind) (k := 0) (m := 0) (n := 16) (by decide)
    (by omega) atMost
  rw [consoleUint64FromHex, skipped]
  refine run.trans ?_
  rw [fromHexLoop_nul, Nat.zero_mul, Nat.zero_add, value_eq, UInt64.ofNat_toNat]

end CharcoalOS.Kernel
