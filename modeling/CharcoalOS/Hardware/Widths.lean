import CharcoalOS.Hardware.Encoding
import CharcoalOS.Hardware.DeviceTree

/-!
# A `reg` value read with other widths

How many cells an address and a size take is not in the `reg` value: the reader brings the
widths (`Widths`). Here one value is read with two widths, those that it was accepted with
and others that divide it too. `Widths.pairs_eq_iff` is when both find the same pairs, and
`Widths.append_pairs_ne` that the others never find just the last pairs of the first.
-/

namespace CharcoalOS

/-- The cells of 32 bits that an address and a size take. -/
structure Widths : Type where
  addressCells : UInt32
  sizeCells : UInt32
deriving DecidableEq

/-- The number in the `i`-th cell from `a` on. -/
def cellAt (mem : Memory) (a : UInt64) (i : Nat) : Nat :=
  (be32 mem (a + UInt64.ofNat (4 * i))).toNat

/-- The number that the `n` cells from the `i`-th on make, one or two. -/
def joined (x : Nat → Nat) (n i : Nat) : Nat := if n = 2 then x i * 2 ^ 32 + x (i + 1) else x i

namespace Widths

/-- The pairs in the value of `p`, read with these widths. -/
def pairs (mem : Memory) (w : Widths) (p : Property) : List MemoryRegion :=
  regPairs mem w.addressCells w.sizeCells p.data p.length.toUInt64

/-- Both numbers of a pair take one or two cells. -/
structure Supported (w : Widths) : Prop where
  addressWidth : w.addressCells = 1 ∨ w.addressCells = 2
  sizeWidth : w.sizeCells = 1 ∨ w.sizeCells = 2

/-- With these widths, the value of `p` is one pair after the other, and nothing else. -/
structure Divide (w : Widths) (p : Property) : Prop extends Supported w where
  nonempty : p.length.toUInt64 ≠ 0
  multiple : p.length.toUInt64 % regionSpecSize w.addressCells w.sizeCells = 0

/-- The widths the other way round. -/
def swap (w : Widths) : Widths := ⟨w.sizeCells, w.addressCells⟩

/-- The cells of one pair. -/
def cells (w : Widths) : Nat := w.addressCells.toNat + w.sizeCells.toNat

/-- The base of the `i`-th pair, from the numbers in the cells. -/
def base (x : Nat → Nat) (w : Widths) (i : Nat) : Nat :=
  joined x w.addressCells.toNat (w.cells * i)

/-- The size of the `i`-th pair. -/
def size (x : Nat → Nat) (w : Widths) (i : Nat) : Nat :=
  joined x w.sizeCells.toNat (w.cells * i + w.addressCells.toNat)

end Widths

/-! ## Cells -/

section Cells

variable {mem : Memory} {a : UInt64} {cells addressCells sizeCells : UInt32} {i n : Nat}

theorem cellAt_lt (mem : Memory) (a : UInt64) (i : Nat) : cellAt mem a i < 2 ^ 32 :=
  UInt32.toNat_lt _

theorem be64_eq_cells :
    (be64 mem a).toNat = (be32 mem a).toNat * 2 ^ 32 + (be32 mem (a + 4)).toNat := by
  rw [be64_toNat, be32_toNat, be32_toNat, show (8 : Nat) = 4 + 4 from rfl, bytesFrom_add,
    List.map_append, Digits.value_append, List.length_map, length_bytesFrom]
  rfl

theorem cellValue_toNat_eq (width : cells = 1 ∨ cells = 2) :
    (cellValue mem cells (a + UInt64.ofNat (4 * i))).toNat =
      joined (cellAt mem a) cells.toNat i := by
  rcases width with rfl | rfl
  · rw [cellValue, if_neg (by decide), UInt32.toNat_toUInt64]
    rfl
  · have next : a + UInt64.ofNat (4 * i) + 4 = a + UInt64.ofNat (4 * (i + 1)) := by
      rw [Nat.mul_succ, UInt64.ofNat_add, UInt64.add_assoc]
      rfl
    rw [cellValue, if_pos rfl, be64_eq_cells, next]
    rfl

theorem cellBytes_eq (width : cells = 1 ∨ cells = 2) :
    cellBytes cells = UInt64.ofNat (4 * cells.toNat) := by
  rw [← cellBytes_toNat width, UInt64.ofNat_toNat]

theorem getElem?_regionsFrom (addressWidth : addressCells = 1 ∨ addressCells = 2)
    (sizeWidth : sizeCells = 1 ∨ sizeCells = 2) (less : i < n) :
    (regionsFrom mem addressCells sizeCells a n)[i]? = some (regionAt mem addressCells sizeCells
      (a + UInt64.ofNat (4 * ((addressCells.toNat + sizeCells.toNat) * i)))) := by
  induction n generalizing a i with
  | zero => exact absurd less (Nat.not_lt_zero i)
  | succ n ih =>
      rw [regionsFrom]
      cases i with
      | zero =>
          rw [List.getElem?_cons_zero, Nat.mul_zero, Nat.mul_zero]
          exact congrArg (some ∘ regionAt mem addressCells sizeCells) (UInt64.add_zero a).symm
      | succ i =>
          rw [List.getElem?_cons_succ, ih (Nat.lt_of_succ_lt_succ less), cellBytes_eq addressWidth,
            cellBytes_eq sizeWidth, UInt64.add_assoc, UInt64.add_assoc, ← UInt64.ofNat_add,
            ← UInt64.ofNat_add]
          congr 4
          ring

end Cells

/-! ## Pairs -/

section Pairs

variable {mem : Memory} {p : Property} {w w' : Widths} {x : Nat → Nat} {i k n : Nat}

theorem Widths.Supported.cases (supported : w.Supported) :
    w = ⟨1, 1⟩ ∨ w = ⟨1, 2⟩ ∨ w = ⟨2, 1⟩ ∨ w = ⟨2, 2⟩ := by
  rcases w with ⟨address, size⟩
  rcases supported with ⟨rfl | rfl, rfl | rfl⟩
  · exact Or.inl rfl
  · exact Or.inr (Or.inl rfl)
  · exact Or.inr (Or.inr (Or.inl rfl))
  · exact Or.inr (Or.inr (Or.inr rfl))

theorem Widths.Supported.getElem?_pairs (supported : w.Supported) (mem : Memory)
    (less : i < (w.pairs mem p).length) :
    ∃ region, (w.pairs mem p)[i]? = some region ∧
      region.baseAddress.toNat = w.base (cellAt mem p.data) i ∧
      region.size.toNat = w.size (cellAt mem p.data) i := by
  rw [Widths.pairs, length_regPairs] at less
  refine ⟨_, getElem?_regionsFrom supported.addressWidth supported.sizeWidth less, ?_, ?_⟩
  · exact cellValue_toNat_eq supported.addressWidth
  · rw [regionAt, cellBytes_eq supported.addressWidth, UInt64.add_assoc, ← UInt64.ofNat_add,
      ← Nat.mul_add, cellValue_toNat_eq supported.sizeWidth]
    rfl

/-- The pairs take all cells of the value. -/
theorem Widths.Divide.bytes_eq (divide : w.Divide p) (mem : Memory) :
    4 * (w.cells * (w.pairs mem p).length) = p.length.toNat := by
  have spec := regionSpecSize_toNat divide.addressWidth divide.sizeWidth
  have multiple := congrArg UInt64.toNat divide.multiple
  rw [UInt64.toNat_mod, spec, pairBytes_eq divide.addressWidth divide.sizeWidth] at multiple
  rw [Widths.pairs, length_regPairs, UInt64.toNat_div, spec,
    pairBytes_eq divide.addressWidth divide.sizeWidth, ← Nat.mul_assoc]
  exact Nat.mul_div_cancel' (Nat.dvd_of_mod_eq_zero multiple)

theorem Widths.base_one {size : UInt32} : base x ⟨1, size⟩ i = x ((1 + size.toNat) * i) := rfl

theorem Widths.base_two {size : UInt32} : base x ⟨2, size⟩ i =
    x ((2 + size.toNat) * i) * 2 ^ 32 + x ((2 + size.toNat) * i + 1) := rfl

theorem Widths.size_one {address : UInt32} : size x ⟨address, 1⟩ i =
    x ((address.toNat + 1) * i + address.toNat) := rfl

theorem Widths.size_two {address : UInt32} : size x ⟨address, 2⟩ i =
    x ((address.toNat + 2) * i + address.toNat) * 2 ^ 32 +
      x ((address.toNat + 2) * i + address.toNat + 1) := rfl

/-- Where two cells make the number of one cell, the upper one is 0. -/
theorem upper_eq_zero (small : ∀ i, x i < 2 ^ 32) {i j : Nat}
    (same : x i * 2 ^ 32 + x (i + 1) = x j) : x i = 0 ∧ x (i + 1) = x j := by
  have := small j
  omega

theorem joined_inj (small : ∀ i, x i < 2 ^ 32) {i j : Nat}
    (same : x i * 2 ^ 32 + x (i + 1) = x j * 2 ^ 32 + x (j + 1)) :
    x i = x j ∧ x (i + 1) = x (j + 1) := by
  have := small (i + 1)
  have := small (j + 1)
  omega

/-- Pairs of wider widths are not the last of the pairs of narrower ones: the upper cell of a
wider number is 0, and so is then the size of a narrower pair. -/
theorem Widths.not_last_pairs (small : ∀ i, x i < 2 ^ 32) (supported : w.Supported)
    (supported' : w'.Supported) (earlier : 0 < k) (some : 0 < n)
    (cells : w.cells * (k + n) = w'.cells * n)
    (same : ∀ i < n, w'.base x i = w.base x (k + i) ∧ w'.size x i = w.size x (k + i))
    (positive : ∀ i < k + n, w.size x i ≠ 0) : False := by
  -- of the sixteen cases only those with more cells in the second widths are left
  rcases supported.cases with rfl | rfl | rfl | rfl <;>
    rcases supported'.cases with rfl | rfl | rfl | rfl <;>
    simp only [base_one, base_two, size_one, size_two, Widths.cells, UInt32.toNat_one,
      show UInt32.toNat 2 = 2 from rfl, Nat.reduceAdd] at cells same positive <;> try omega
  · -- one cell each, and sizes of two: cell 1 is an upper cell and a size
    exact positive 0 (by omega) (upper_eq_zero small (same 0 some).2).1
  · -- one cell each, and bases of two: so is cell 3
    exact positive 1 (by omega) (upper_eq_zero small (same 1 (by omega)).1).1
  · -- one cell each, and two cells each: even cells are upper cells, and cell 1 is equal to one
    have even : ∀ i < 2 * n, x (2 * i) = 0 := by
      intro i less
      rcases Nat.even_or_odd' i with ⟨j, rfl | rfl⟩
      · have upper := (upper_eq_zero small (same j (by omega)).1).1
        rwa [show 4 * j = 2 * (2 * j) by omega] at upper
      · have upper := (upper_eq_zero small (same j (by omega)).2).1
        rwa [show 4 * j + 2 = 2 * (2 * j + 1) by omega] at upper
    have lower := (upper_eq_zero small (same 0 some).1).2
    exact positive 0 (by omega) (lower.trans (even (k + 0) (by omega)))
  -- the wider pairs are four cells each, the last of them cells 12 j + 8 to 12 j + 11
  all_goals
    obtain ⟨j, rfl⟩ : ∃ j, k = j + 1 := ⟨k - 1, by omega⟩
    obtain rfl : n = 3 * j + 3 := by omega
    rcases same (3 * j + 1) (by omega) with ⟨base, size⟩
    rcases same (3 * j + 2) (by omega) with ⟨lastBase, lastSize⟩
    have nonzero := positive (4 * j + 2) (by omega)
    rw [show 4 * (3 * j + 1) = 12 * j + 4 by ring,
      show 3 * (j + 1 + (3 * j + 1)) = 12 * j + 6 by ring] at base size
    rw [show 4 * (3 * j + 2) = 12 * j + 8 by ring,
      show 3 * (j + 1 + (3 * j + 2)) = 12 * j + 9 by ring] at lastBase lastSize
    rw [show 3 * (4 * j + 2) = 12 * j + 6 by ring] at nonzero
  · -- sizes of two cells: the size in cells 12 j + 7 and 12 j + 8 is 0
    rcases upper_eq_zero small lastBase with ⟨upper, -⟩
    rcases joined_inj small size with ⟨-, lower⟩
    exact nonzero (by rw [lower, upper, Nat.zero_mul, Nat.add_zero])
  · -- bases of two cells: the size in cell 12 j + 8 is 0
    rcases upper_eq_zero small lastSize with ⟨upper, -⟩
    rcases joined_inj small lastBase with ⟨first, second⟩
    exact nonzero (first.trans (second.trans upper))

/-- A pair read with the widths swapped stays the same if its numbers start with empty cells. -/
theorem Widths.Supported.swap_iff (supported : w.Supported) (small : ∀ i, x i < 2 ^ 32) :
    (w.swap.base x i = w.base x i ∧ w.swap.size x i = w.size x i) ↔
      w.swap = w ∨ w.base x i = 0 ∧ w.size x i < 2 ^ 32 := by
  have := small (3 * i)
  have := small (3 * i + 1)
  have := small (3 * i + 2)
  rcases supported.cases with rfl | rfl | rfl | rfl
  · exact iff_of_true ⟨rfl, rfl⟩ (Or.inl rfl)
  · rw [or_iff_right (by decide)]
    simp only [swap, base_one, base_two, size_one, size_two, UInt32.toNat_one,
      show UInt32.toNat 2 = 2 from rfl, Nat.reduceAdd, Nat.add_assoc]
    omega
  · rw [or_iff_right (by decide)]
    simp only [swap, base_one, base_two, size_one, size_two, UInt32.toNat_one,
      show UInt32.toNat 2 = 2 from rfl, Nat.reduceAdd, Nat.add_assoc]
    omega
  · exact iff_of_true ⟨rfl, rfl⟩ (Or.inl rfl)

theorem Widths.Supported.eq_or_swap (supported : w.Supported) (supported' : w'.Supported)
    (cells : w.cells = w'.cells) : w' = w ∨ w' = w.swap := by
  rcases supported.cases with rfl | rfl | rfl | rfl <;>
    rcases supported'.cases with rfl | rfl | rfl | rfl <;>
    first | exact Or.inl rfl | exact Or.inr rfl | exact absurd cells (by decide)

/-- The numbers of the pairs read. -/
theorem Widths.Supported.pairs_eq_iff (supported : w.Supported) (supported' : w'.Supported)
    (count : (w'.pairs mem p).length = (w.pairs mem p).length) :
    w'.pairs mem p = w.pairs mem p ↔ ∀ i < (w.pairs mem p).length,
      w'.base (cellAt mem p.data) i = w.base (cellAt mem p.data) i ∧
        w'.size (cellAt mem p.data) i = w.size (cellAt mem p.data) i := by
  constructor
  · intro same i less
    rcases supported.getElem?_pairs mem less with ⟨region, here, base, size⟩
    rcases supported'.getElem?_pairs mem (same ▸ less) with ⟨region', here', base', size'⟩
    rw [same, here] at here'
    cases here'
    exact ⟨base'.symm.trans base, size'.symm.trans size⟩
  · intro same
    refine List.ext_getElem? fun i => ?_
    by_cases less : i < (w.pairs mem p).length
    · rcases supported.getElem?_pairs mem less with ⟨⟨_, _⟩, here, base, size⟩
      rcases supported'.getElem?_pairs mem (count ▸ less) with ⟨⟨_, _⟩, here', base', size'⟩
      rcases same i less with ⟨sameBase, sameSize⟩
      rw [here, here', Option.some_inj, MemoryRegion.mk.injEq]
      exact ⟨UInt64.toNat_inj.mp (base'.trans (sameBase.trans base.symm)),
        UInt64.toNat_inj.mp (size'.trans (sameSize.trans size.symm))⟩
    · rw [List.getElem?_eq_none (by omega), List.getElem?_eq_none (by omega)]

theorem Widths.cells_swap (w : Widths) : w.swap.cells = w.cells := Nat.add_comm _ _

theorem Widths.Supported.cells_pos (supported : w.Supported) : 0 < w.cells := by
  rcases supported.cases with rfl | rfl | rfl | rfl <;> decide

/-- Whatever the widths, the pairs take all cells of the value. -/
theorem Widths.Divide.cells_eq (divide : w.Divide p) (divide' : w'.Divide p)
    (mem : Memory) : w.cells * (w.pairs mem p).length = w'.cells * (w'.pairs mem p).length :=
  Nat.eq_of_mul_eq_mul_left (by decide) ((divide.bytes_eq mem).trans (divide'.bytes_eq mem).symm)

theorem Widths.Divide.length_pos (divide : w.Divide p) (mem : Memory) :
    0 < (w.pairs mem p).length := by
  refine Nat.pos_of_ne_zero fun zero => divide.nonempty (UInt64.toNat_inj.mp ?_)
  rw [UInt32.toNat_toUInt64, ← divide.bytes_eq mem, zero]
  rfl

theorem Widths.Divide.swap (divide : w.Divide p) : w.swap.Divide p where
  addressWidth := divide.sizeWidth
  sizeWidth := divide.addressWidth
  nonempty := divide.nonempty
  multiple := by
    have spec : regionSpecSize w.sizeCells w.addressCells =
        regionSpecSize w.addressCells w.sizeCells := by
      rw [regionSpecSize, UInt64.add_comm, regionSpecSize]
    exact spec ▸ divide.multiple

/-- **Two widths that divide a value find the same pairs in it** exactly if they are the same,
or swapped, with pairs of base 0 and a size that takes one cell. -/
theorem Widths.Divide.pairs_eq_iff (divide : w.Divide p) :
    w'.Divide p ∧ w'.pairs mem p = w.pairs mem p ↔
      w' = w ∨ w' = w.swap ∧
        ∀ region ∈ w.pairs mem p, region.baseAddress = 0 ∧ region.size.toNat < 2 ^ 32 := by
  have small : ∀ i, cellAt mem p.data i < 2 ^ 32 := cellAt_lt mem p.data
  have spare : (∀ region ∈ w.pairs mem p, region.baseAddress = 0 ∧ region.size.toNat < 2 ^ 32) ↔
      ∀ i < (w.pairs mem p).length, w.base (cellAt mem p.data) i = 0 ∧
        w.size (cellAt mem p.data) i < 2 ^ 32 := by
    rw [List.forall_mem_iff_forall_getElem]
    refine forall_congr' fun i => forall_congr' fun less => ?_
    rcases divide.getElem?_pairs mem less with ⟨region, here, base, size⟩
    rw [List.getElem?_eq_getElem less, Option.some_inj] at here
    rw [here, ← base, ← size, ← UInt64.toNat_inj]
    rfl
  rw [spare]
  constructor
  · rintro ⟨divide', same⟩
    have cells := divide.cells_eq divide' mem
    rw [same] at cells
    have cells := Nat.eq_of_mul_eq_mul_right (divide.length_pos mem) cells
    rcases divide.eq_or_swap divide'.toSupported cells with rfl | rfl
    · exact Or.inl rfl
    · by_cases own : w.swap = w
      · exact Or.inl own
      · have alike := (divide.toSupported.pairs_eq_iff divide'.toSupported (by rw [same])).mp same
        exact Or.inr ⟨rfl, fun i less =>
          ((divide.swap_iff small).mp (alike i less)).resolve_left own⟩
  · rintro (rfl | ⟨rfl, empty⟩)
    · exact ⟨divide, rfl⟩
    · refine ⟨divide.swap, (divide.toSupported.pairs_eq_iff divide.swap.toSupported ?_).mpr ?_⟩
      · have cells := divide.swap.cells_eq divide mem
        rw [w.cells_swap] at cells
        exact Nat.eq_of_mul_eq_mul_left divide.cells_pos cells
      · exact fun i less => (divide.swap_iff small).mpr (Or.inr (empty i less))

/-- **Other widths never find the last pairs only.** -/
theorem Widths.Divide.append_pairs_ne (divide : w.Divide p) (divide' : w'.Divide p)
    (positive : ∀ region ∈ w.pairs mem p, region.size ≠ 0) {earlier : List MemoryRegion}
    (some : earlier ≠ []) : earlier ++ w'.pairs mem p ≠ w.pairs mem p := by
  intro same
  have count := congrArg List.length same
  rw [List.length_append] at count
  have cells := divide.cells_eq divide' mem
  rw [← count] at cells
  refine Widths.not_last_pairs (cellAt_lt mem p.data) divide.toSupported divide'.toSupported
    (List.length_pos_iff.mpr some) (divide'.length_pos mem) cells (fun i less => ?_)
    fun i less => ?_
  · rcases divide'.getElem?_pairs mem less with ⟨region, here, base, size⟩
    obtain ⟨region', here', base', size'⟩ := divide.getElem?_pairs mem
      (show earlier.length + i < (w.pairs mem p).length by omega)
    rw [← same, List.getElem?_append_right (Nat.le_add_right _ _), Nat.add_sub_cancel_left,
      here] at here'
    cases here'
    exact ⟨base.symm.trans base', size.symm.trans size'⟩
  · rcases divide.getElem?_pairs mem (count ▸ less) with ⟨region, here, -, size⟩
    rw [← size]
    exact fun zero => positive region (List.mem_of_getElem? here) (UInt64.toNat_inj.mp zero)

end Pairs

end CharcoalOS
