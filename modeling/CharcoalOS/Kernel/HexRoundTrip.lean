import CharcoalOS.Kernel.HexReference

/-!
# Numbers in hex, there and back

What `console_print_hex_value` prints of a buffer is read back as the number in the buffer, and
16 digits are what is printed of the number that they are read as: `hex_inverse`.
-/

namespace CharcoalOS.Kernel

open Effect Effect.Program

variable (platform : Platform)

/-- The number that a buffer holds, in the host's byte order. -/
def hostValue (data : List UInt8) : ℕ :=
  Digits.value 256 ((if platform.bigEndian then data else data.reverse).map UInt8.toNat)

theorem toNat_bytes_lt (data : List UInt8) : ∀ d ∈ data.map UInt8.toNat, d < 256 := by
  intro d member
  obtain ⟨c, -, rfl⟩ := List.mem_map.mp member
  exact c.toNat_lt

theorem hostValue_lt (data : List UInt8) : hostValue platform data < 256 ^ data.length := by
  rw [hostValue]
  split
  · have less := Digits.value_lt (by decide) (toNat_bytes_lt data)
    rwa [List.length_map] at less
  · have less := Digits.value_lt (by decide) (toNat_bytes_lt data.reverse)
    rwa [List.length_map, List.length_reverse] at less

/-- A buffer is what the host makes of its number. -/
theorem hostBytes_hostValue (data : List UInt8) :
    hostBytes platform data.length (hostValue platform data) = data := by
  have bytes (cs : List UInt8) :
      (Digits.fixed 256 cs.length (Digits.value 256 (cs.map UInt8.toNat))).map UInt8.ofNat =
        cs := by
    have digits := Digits.fixed_value (by decide) (toNat_bytes_lt cs)
    rw [List.length_map] at digits
    rw [digits, List.map_map]
    exact (List.map_congr_left fun c _ => UInt8.ofNat_toNat).trans (List.map_id cs)
  by_cases big : platform.bigEndian
  · rw [hostBytes, hostValue, if_pos big, if_pos big, bytes]
  · have backwards := bytes data.reverse
    rw [List.length_reverse] at backwards
    rw [hostBytes, hostValue, if_neg big, if_neg big, backwards, List.reverse_reverse]

/-! ## Digits -/

/-- A hex digit, in upper case. -/
def IsUpperHex (c : UInt8) : Prop := (48 ≤ c ∧ c ≤ 57) ∨ (65 ≤ c ∧ c ≤ 70)

instance (c : UInt8) : Decidable (IsUpperHex c) := inferInstanceAs (Decidable (_ ∨ _))

theorem IsUpperHex.isHex {c : UInt8} (upper : IsUpperHex c) : IsHex c :=
  upper.imp_right Or.inl

theorem upperHex_digit {d : ℕ} (less : d < 16) :
    IsUpperHex (upperHex d) ∧ hexValue (upperHex d) = d := by
  have all : ∀ d : Fin 16, IsUpperHex (upperHex d) ∧ hexValue (upperHex d) = d := by decide
  exact all ⟨d, less⟩

theorem upperHex_hexValue {c : UInt8} (upper : IsUpperHex c) : upperHex (hexValue c) = c := by
  have all : ∀ d : Fin 256, IsUpperHex (UInt8.ofNat d) →
      upperHex (hexValue (UInt8.ofNat d)) = UInt8.ofNat d := by
    decide +kernel
  have here := all ⟨c.toNat, c.toNat_lt⟩
  rw [UInt8.ofNat_toNat] at here
  exact here upper

theorem isHex_hexText (w n : ℕ) : ∀ c ∈ hexText w n, IsHex c := by
  intro c member
  obtain ⟨d, digit, rfl⟩ := List.mem_map.mp member
  exact (upperHex_digit (Digits.fixed_lt (by decide) w n d digit)).1.isHex

theorem length_hexText (w n : ℕ) : (hexText w n).length = w := by
  rw [hexText, List.length_map, Digits.length_fixed]

theorem hexNumber_hexText {w n : ℕ} (less : n < 16 ^ w) : hexNumber (hexText w n) = n := by
  have digits : (hexText w n).map hexValue = Digits.fixed 16 w n := by
    rw [hexText, List.map_map]
    refine (List.map_congr_left fun d digit => ?_).trans (List.map_id _)
    exact (upperHex_digit (Digits.fixed_lt (by decide) w n d digit)).2
  rw [hexNumber, digits, Digits.value_fixed less]

theorem hexText_hexNumber {ds : List UInt8} (upper : ∀ c ∈ ds, IsUpperHex c) :
    hexText ds.length (hexNumber ds) = ds := by
  have digits : ∀ d ∈ ds.map hexValue, d < 16 := by
    intro d member
    obtain ⟨c, at_, rfl⟩ := List.mem_map.mp member
    exact hexValue_lt (upper c at_).isHex
  have fixed := Digits.fixed_value (by decide) digits
  rw [List.length_map] at fixed
  rw [hexText, hexNumber, fixed, List.map_map]
  exact (List.map_congr_left fun c member => upperHex_hexValue (upper c member)).trans
    (List.map_id ds)

/-! ## There and back -/

/-- Without a prefix or with one, digits in front of a terminator are read. -/
theorem hexSplit_terminated {start ds : List UInt8}
    (mark : start = [] ∨ start = [48, 120] ∨ start = [48, 88]) (hex : ∀ c ∈ ds, IsHex c)
    (atMost : ds.length ≤ 16) : HexSplit start ds 0 :=
  ⟨mark, hex, atMost, Or.inr (by decide), fun _ _ => by decide⟩

/-- `text` is printed of a buffer, and read as the number in the buffer. -/
structure PrintedAs (data text : List UInt8) : Prop where
  prints : ∀ s, (consolePrintHexValue platform data data.length).run s =
    ⟨.ok (), s, text.map .putc⟩
  length : text.length = 2 * data.length
  /-- The same is printed of the same number, whatever the byte order. -/
  order : ∀ (platform' : Platform) (data' : List UInt8), data'.length = data.length →
    hostValue platform' data' = hostValue platform data → ∀ s,
      (consolePrintHexValue platform' data' data'.length).run s = ⟨.ok (), s, text.map .putc⟩
  /-- So it is by `console_print_hex_bytes`, the most significant byte first. -/
  bytes : ∀ s, (consolePrintHexBytes (if platform.bigEndian then data else data.reverse)
    data.length).run s = ⟨.ok (), s, text.map .putc⟩
  reads : ∀ start, start = [] ∨ start = [48, 120] ∨ start = [48, 88] → ∀ behind,
    ∃ value : UInt64, consoleUint64FromHex (start ++ (text ++ 0 :: behind)) = some value ∧
      value.toNat = hostValue platform data

theorem printedAs_hexText {data : List UInt8} (atMost : data.length ≤ 8) :
    PrintedAs platform data (hexText (2 * data.length) (hostValue platform data)) := by
  have prints (platform' : Platform) (data' : List UInt8) (s : State) :
      (consolePrintHexValue platform' data' data'.length).run s =
        ⟨.ok (), s, (hexText (2 * data'.length) (hostValue platform' data')).map .putc⟩ := by
    have run := run_consolePrintHexValue platform' data'.length (hostValue platform' data') s
    rwa [hostBytes_hostValue] at run
  have less : hostValue platform data < 16 ^ (2 * data.length) := by
    have bound := hostValue_lt platform data
    rwa [show 256 = 16 ^ 2 from rfl, ← pow_mul] at bound
  refine ⟨prints platform data, length_hexText _ _, ?_, ?_, ?_⟩
  · intro platform' data' length same s
    rw [prints, length, same]
  · intro s
    have length : (if platform.bigEndian then data else data.reverse).length = data.length := by
      split
      · rfl
      · exact List.length_reverse
    have run := prints { platform with bigEndian := true }
      (if platform.bigEndian then data else data.reverse) s
    rwa [length] at run
  · intro start mark behind
    have split := hexSplit_terminated mark
      (isHex_hexText (2 * data.length) (hostValue platform data))
      (by rw [length_hexText]; omega)
    refine ⟨_, split.reads behind, ?_⟩
    rw [hexNumber_hexText less]
    refine UInt64.toNat_ofNat_of_lt' (less.trans_le ?_)
    exact Nat.pow_le_pow_right (n := 16) (by decide) (show 2 * data.length ≤ 16 by omega)

/-- 16 digits are read as a number of which they are printed. -/
def ReadBack (ds : List UInt8) : Prop :=
  ∀ behind, ∃ value : UInt64, consoleUint64FromHex (ds ++ 0 :: behind) = some value ∧
    ∀ s, (printHex platform value).run s = ⟨.ok (), s, ds.map .putc⟩

theorem readBack_of_upper {ds : List UInt8} (upper : ∀ c ∈ ds, IsUpperHex c)
    (sixteen : ds.length = 16) : ReadBack platform ds := by
  intro behind
  have split : HexSplit [] ds 0 :=
    hexSplit_terminated (Or.inl rfl) (fun c member => (upper c member).isHex) sixteen.le
  refine ⟨UInt64.ofNat (hexNumber ds), split.reads behind, fun s => ?_⟩
  rw [run_printHex, UInt64.toNat_ofNat_of_lt' (hexNumber_lt split.hex split.atMost), ← sixteen,
    hexText_hexNumber upper]

/-- **Hex printing and hex parsing are inverse**, in either byte order: up to eight bytes are
printed as two digits each, which are read as the same number, and 16 upper-case digits are
printed again as they were read. -/
theorem hex_inverse :
    (∀ data : List UInt8, data.length ≤ 8 → ∃ text, PrintedAs platform data text) ∧
      ∀ ds : List UInt8, ds.length = 16 → (∀ c ∈ ds, IsUpperHex c) → ReadBack platform ds :=
  ⟨fun _ atMost => ⟨_, printedAs_hexText platform atMost⟩,
    fun _ sixteen upper => readBack_of_upper platform upper sixteen⟩

/-- `0x1234` in two bytes, and 16 digits that begin with 0. -/
theorem hex_inverse_1234 :
    (∃ text, PrintedAs .virt [0x34, 0x12] text) ∧
      ReadBack .virt [48, 49, 50, 51, 52, 53, 54, 55, 56, 57, 65, 66, 67, 68, 69, 70] :=
  ⟨(hex_inverse .virt).1 _ (by decide), (hex_inverse .virt).2 _ (by decide) (by decide +kernel)⟩

end CharcoalOS.Kernel
