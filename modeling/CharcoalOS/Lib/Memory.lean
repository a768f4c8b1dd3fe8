import CharcoalOS.Lib.Digits

/-!
# Memory of bytes

A 64-bit address space, whose addresses wrap around. `write` puts bytes one after another,
and `load64` and `store64` move words, the least significant byte first.
-/

/-- The byte at each address. -/
abbrev Memory : Type := UInt64 → UInt8

namespace Memory

variable {memory other : Memory} {a b : UInt64}

/-- The bytes, from an address on. -/
def write (memory : Memory) (a : UInt64) (bytes : List UInt8) : Memory :=
  fun b => bytes[(b - a).toNat]?.getD (memory b)

/-- The `n` bytes from an address on. -/
def read (memory : Memory) (a : UInt64) (n : ℕ) : List UInt8 :=
  (List.range n).map fun i => memory (a + UInt64.ofNat i)

/-- The bytes of a word. -/
def bytesOf (value : UInt64) : List UInt8 :=
  ((Digits.fixed 256 8 value.toNat).map UInt8.ofNat).reverse

/-- The word of these bytes. -/
def wordOf (bytes : List UInt8) : UInt64 :=
  UInt64.ofNat (Digits.value 256 (bytes.reverse.map UInt8.toNat))

def store64 (memory : Memory) (a value : UInt64) : Memory := memory.write a (bytesOf value)

def load64 (memory : Memory) (a : UInt64) : UInt64 := wordOf (memory.read a 8)

/-- How far one offset from an address is after another. -/
theorem offset_sub (a : UInt64) {i j : ℕ} (small : i < 2 ^ 64) (small' : j < 2 ^ 64) :
    (a + UInt64.ofNat i - (a + UInt64.ofNat j)).toNat = (2 ^ 64 - j + i) % 2 ^ 64 := by
  have bound := a.toNat_lt
  rw [UInt64.toNat_sub, UInt64.toNat_add, UInt64.toNat_add, UInt64.toNat_ofNat_of_lt' small,
    UInt64.toNat_ofNat_of_lt' small']
  omega

theorem offset_inj (a : UInt64) {i j : ℕ} (small : i < 2 ^ 64) (small' : j < 2 ^ 64)
    (same : a + UInt64.ofNat i = a + UInt64.ofNat j) : i = j := by
  have apart := offset_sub a small small'
  rw [same, UInt64.sub_self, UInt64.toNat_zero] at apart
  omega

/-- Up from below an address. -/
theorem sub_add_offset (a : UInt64) {i n : ℕ} (le : i ≤ n) :
    a - UInt64.ofNat n + UInt64.ofNat i = a - UInt64.ofNat (n - i) := by
  have split : UInt64.ofNat n = UInt64.ofNat (n - i) + UInt64.ofNat i := by
    rw [← UInt64.ofNat_add, Nat.sub_add_cancel le]
  rw [split]
  grind

/-- Below an address that is large enough. -/
theorem sub_offset_lt {n : ℕ} (positive : 0 < n) (room : n ≤ a.toNat) :
    a - UInt64.ofNat n < a := by
  have bound := a.toNat_lt
  rw [UInt64.lt_iff_toNat_lt, UInt64.toNat_sub,
    UInt64.toNat_ofNat_of_lt' (show n < 2 ^ 64 by omega)]
  omega

/-! ## Reading what was written -/

/-- Bytes outside are left. -/
theorem write_outside {bytes : List UInt8} (outside : bytes.length ≤ (b - a).toNat) :
    memory.write a bytes b = memory b := by
  rw [write, List.getElem?_eq_none outside]
  rfl

/-- A stretch of memory is cleared. -/
theorem write_replicate (memory : Memory) (a b : UInt64) (n : ℕ) :
    memory.write a (List.replicate n 0) b = if (b - a).toNat < n then 0 else memory b := by
  rw [write, List.getElem?_replicate]
  split
  · rfl
  · rfl

/-- The addresses of a stretch that does not wrap around. -/
theorem offset_lt_iff {n : ℕ} (fits : a.toNat + n ≤ 2 ^ 64) :
    (b - a).toNat < n ↔ a.toNat ≤ b.toNat ∧ b.toNat < a.toNat + n := by
  have bound := a.toNat_lt
  have bound' := b.toNat_lt
  rw [UInt64.toNat_sub]
  omega

theorem bytesOf_zero : bytesOf 0 = List.replicate 8 0 := by decide

theorem read_congr {n : ℕ}
    (same : ∀ i < n, memory (a + UInt64.ofNat i) = other (a + UInt64.ofNat i)) :
    memory.read a n = other.read a n :=
  List.map_congr_left fun i member => same i (List.mem_range.mp member)

theorem read_write (memory : Memory) (a : UInt64) {bytes : List UInt8}
    (fits : bytes.length < 2 ^ 64) : (memory.write a bytes).read a bytes.length = bytes := by
  have length : ((memory.write a bytes).read a bytes.length).length = bytes.length := by
    rw [read, List.length_map, List.length_range]
  refine List.ext_getElem length fun i _ inside => ?_
  have offset : (a + UInt64.ofNat i - a).toNat = i := by
    have from_ := offset_sub a (i := i) (j := 0) (by omega) (by decide)
    rw [show UInt64.ofNat 0 = 0 from rfl, UInt64.add_zero] at from_
    rw [from_]
    omega
  simp only [read, List.getElem_map, List.getElem_range]
  rw [write, offset, List.getElem?_eq_getElem inside]
  rfl

@[simp] theorem length_bytesOf (value : UInt64) : (bytesOf value).length = 8 := by
  rw [bytesOf, List.length_reverse, List.length_map, Digits.length_fixed]

/-- Words are bytes. -/
@[simp] theorem wordOf_bytesOf (value : UInt64) : wordOf (bytesOf value) = value := by
  have digits : ((Digits.fixed 256 8 value.toNat).map UInt8.ofNat).map UInt8.toNat =
      Digits.fixed 256 8 value.toNat := by
    rw [List.map_map, List.map_congr_left (g := id), List.map_id]
    exact fun d member =>
      UInt8.toNat_ofNat_of_lt' (Digits.fixed_lt (by decide) 8 value.toNat d member)
  have less : value.toNat < 256 ^ 8 := value.toNat_lt
  rw [wordOf, bytesOf, List.reverse_reverse, digits, Digits.value_fixed less, UInt64.ofNat_toNat]

/-- A word is loaded as it was stored. -/
@[simp] theorem load64_store64 (memory : Memory) (a value : UInt64) :
    (memory.store64 a value).load64 a = value := by
  have fits : (bytesOf value).length < 2 ^ 64 := by simp
  have read := read_write memory a fits
  rw [length_bytesOf] at read
  rw [load64, store64, read, wordOf_bytesOf]

/-- Two words are apart. -/
def Apart (i j : ℕ) : Prop := i + 8 ≤ j ∨ j + 8 ≤ i

instance (i j : ℕ) : Decidable (Apart i j) := inferInstanceAs (Decidable (_ ∨ _))

/-- A word apart from one that is stored keeps its value. -/
theorem load64_store64_of_apart (memory : Memory) (a value : UInt64) {i j : ℕ}
    (small : i + 8 < 2 ^ 64) (less : j + 8 < 2 ^ 64) (apart : Apart i j) :
    (memory.store64 (a + UInt64.ofNat i) value).load64 (a + UInt64.ofNat j) =
      memory.load64 (a + UInt64.ofNat j) := by
  refine congrArg wordOf (read_congr fun k within => write_outside ?_)
  rw [length_bytesOf, UInt64.add_assoc, ← UInt64.ofNat_add, offset_sub a (by omega) (by omega)]
  rcases apart with before | after
  all_goals omega

/-- Memories that agree on a word. -/
theorem load64_congr (same : ∀ i < 8, memory (a + UInt64.ofNat i) = other (a + UInt64.ofNat i)) :
    memory.load64 a = other.load64 a :=
  congrArg wordOf (read_congr same)

/-- The word of eight zeros. -/
theorem load64_of_zero (zero : ∀ i < 8, memory (a + UInt64.ofNat i) = 0) : memory.load64 a = 0 := by
  have bytes : memory.read a 8 = List.replicate 8 0 := by
    refine List.eq_replicate_iff.mpr ⟨?_, fun b member => ?_⟩
    · rw [read, List.length_map, List.length_range]
    · obtain ⟨i, inside, rfl⟩ := List.mem_map.mp member
      exact zero i (List.mem_range.mp inside)
  rw [load64, bytes]
  decide

end Memory
