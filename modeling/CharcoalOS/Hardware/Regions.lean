import CharcoalOS.Hardware.Endian

/-!
# `physical_memory_regions`

`kernel/Memory/Memory.c` decodes the `reg` value of a memory node: a sequence of
(base, size) pairs whose widths are given by the cell counts of the root node.
`AcceptedReg` is the exact set of inputs it decodes without a panic, and
`regPairs` the pairs it then stores.
-/

namespace CharcoalOS

open Effect Effect.Program

section Model

variable (env : Env)

/-- `UINT64_MAX`, which is also `UINTPTR_MAX` and `SIZE_MAX`. -/
def uint64Max : UInt64 := 0xFFFFFFFFFFFFFFFF

/-- One address or size of a region, and the cursor past it. -/
def readCells (cells : UInt32) (regCursor : Pointer) : Discovery (UInt64 × Pointer) := do
  if cells = 2 then
    let value ← readBe64FromAddress env regCursor
    pure (value, regCursor.offset 8)
  else
    -- the cell counts are 1 or 2 here
    let value ← readBe32FromAddress env regCursor
    pure (value.toUInt64, regCursor.offset 4)

/-- `out_memory_regions[i] = region`. -/
def storeRegion (i : Nat) (region : MemoryRegion) : Discovery Unit :=
  store (.physicalMemoryRegions i) fun info =>
    info.setRegions (info.physicalMemoryRegions.setIfInBounds i region)

/-- The decoding loop, from index `i` on with `remaining` regions to go. -/
def decodeLoop (addressCells sizeCells : UInt32) (i : Nat) (regCursor : Pointer) :
    Nat → Discovery Unit
  | 0 => pure ()
  | remaining + 1 => do
      let (base, regCursor) ← readCells env addressCells regCursor
      let (size, regCursor) ← readCells env sizeCells regCursor
      panicIf env (size = 0) "Physical memory region reported with zero size"
      panicIf env (uint64Max - size < base)
        "Physical memory region reported with addresses that overflow 64-bit address space"
      panicIf env (base > uint64Max) "Memory region base address cannot be cast to uintptr_t"
      panicIf env (size > uint64Max) "Memory region size cannot be cast to size_t"
      storeRegion i ⟨base, size⟩
      decodeLoop addressCells sizeCells (i + 1) regCursor remaining

/-- `physical_memory_regions`, writing to the record's own region array. -/
def physicalMemoryRegions (addressCells sizeCells : UInt32) (regBytes : Pointer)
    (regSize : UInt64) : Discovery Unit :=
  functionBody do
    emit (.decodeRegions addressCells sizeCells regBytes regSize)
    panicIf env (addressCells.toUInt64 > regSize ∨ sizeCells.toUInt64 > regSize)
      "Unable to determine physical memory regions: address_cells or size_cells are larger than reg size"
    panicIf env (addressCells < 1 ∨ sizeCells < 1 ∨ regSize < 1)
      "Unable to determin physical memory regions: address_cells, size_cells, and reg_size must be greater than 0."
    panicIf env (addressCells > 2 ∨ sizeCells > 2)
      "Unable to determin physical memory regions: address_cells and size_cells must be less than 3."
    let sizeOfOneRegionSpec : UInt64 := 4 * (addressCells.toUInt64 + sizeCells.toUInt64)
    let numberOfRegionsSpecified := regSize / sizeOfOneRegionSpec
    if regSize % sizeOfOneRegionSpec ≠ 0 then do
      consolePrint "reg_size: 0x"
      consolePrintHexValue regSize 8
      consolePrint "\nsize_of_one_region_spec: 0x"
      consolePrintHexValue sizeOfOneRegionSpec 8
      consolePrint "\n"
      panicReturn env
        "Unable to determine physical memory: reg size is not an integer multiple of region sizes"
    else do
      panicIf env (numberOfRegionsSpecified > 16)
        "Only up to 16 regions of physical memory supported"
      store .physicalMemoryRegionCount (·.setRegionCount numberOfRegionsSpecified)
      decodeLoop env addressCells sizeCells 0 regBytes numberOfRegionsSpecified.toNat

end Model

/-- The messages `physical_memory_regions` panics with. -/
def regPanics : List String :=
  ["Unable to determine physical memory regions: address_cells or size_cells are larger than reg size",
    "Unable to determin physical memory regions: address_cells, size_cells, and reg_size must be greater than 0.",
    "Unable to determin physical memory regions: address_cells and size_cells must be less than 3.",
    "Unable to determine physical memory: reg size is not an integer multiple of region sizes",
    "Only up to 16 regions of physical memory supported",
    "Physical memory region reported with zero size",
    "Physical memory region reported with addresses that overflow 64-bit address space",
    "Memory region base address cannot be cast to uintptr_t",
    "Memory region size cannot be cast to size_t"]

/-! ## The pairs of a `reg` value -/

/-- The bytes a value of one or two cells takes. -/
def cellBytes (cells : UInt32) : UInt64 := if cells = 2 then 8 else 4

/-- The value of `cells` cells at `a`. -/
def cellValue (mem : Memory) (cells : UInt32) (a : UInt64) : UInt64 :=
  if cells = 2 then be64 mem a else (be32 mem a).toUInt64

/-- The (base, size) pair at `a`. -/
def regionAt (mem : Memory) (addressCells sizeCells : UInt32) (a : UInt64) : MemoryRegion :=
  ⟨cellValue mem addressCells a, cellValue mem sizeCells (a + cellBytes addressCells)⟩

/-- The `n` pairs from `a` on. -/
def regionsFrom (mem : Memory) (addressCells sizeCells : UInt32) (a : UInt64) :
    Nat → List MemoryRegion
  | 0 => []
  | n + 1 =>
      regionAt mem addressCells sizeCells a ::
        regionsFrom mem addressCells sizeCells
          (a + cellBytes addressCells + cellBytes sizeCells) n

/-- The bytes of one pair, as the code computes them. -/
def regionSpecSize (addressCells sizeCells : UInt32) : UInt64 :=
  4 * (addressCells.toUInt64 + sizeCells.toUInt64)

/-- The pairs that a `reg` value of `regSize` bytes at `reg` holds in full. -/
def regPairs (mem : Memory) (addressCells sizeCells : UInt32) (reg regSize : UInt64) :
    List MemoryRegion :=
  regionsFrom mem addressCells sizeCells reg
    (regSize / regionSpecSize addressCells sizeCells).toNat

/-- A region that can be RAM: it has bytes, and its end does not pass 2^64 - 1. -/
def MemoryRegion.Valid (region : MemoryRegion) : Prop :=
  region.size ≠ 0 ∧ region.baseAddress.toNat + region.size.toNat ≤ 2 ^ 64 - 1

instance (region : MemoryRegion) : Decidable region.Valid := by
  unfold MemoryRegion.Valid; infer_instance

/-- The `reg` values that are decoded without a panic. -/
structure AcceptedReg (mem : Memory) (addressCells sizeCells : UInt32)
    (reg regSize : UInt64) : Prop where
  addressWidth : addressCells = 1 ∨ addressCells = 2
  sizeWidth : sizeCells = 1 ∨ sizeCells = 2
  nonempty : regSize ≠ 0
  multiple : regSize % regionSpecSize addressCells sizeCells = 0
  atMost : regSize / regionSpecSize addressCells sizeCells ≤ 16
  valid : ∀ region ∈ regPairs mem addressCells sizeCells reg regSize, region.Valid

@[simp] theorem length_regionsFrom {mem : Memory} {addressCells sizeCells : UInt32}
    {a : UInt64} {n : Nat} :
    (regionsFrom mem addressCells sizeCells a n).length = n := by
  induction n generalizing a with
  | zero => rfl
  | succ n ih => rw [regionsFrom, List.length_cons, ih]

theorem length_regPairs {mem : Memory} {addressCells sizeCells : UInt32}
    {reg regSize : UInt64} :
    (regPairs mem addressCells sizeCells reg regSize).length =
      (regSize / regionSpecSize addressCells sizeCells).toNat :=
  length_regionsFrom

/-- Write `regions` into the array from index `i` on. -/
def fillRegions (array : Vector MemoryRegion 16) (i : Nat) :
    List MemoryRegion → Vector MemoryRegion 16
  | [] => array
  | region :: regions => fillRegions (array.setIfInBounds i region) (i + 1) regions

/-- The record after `regions` have been stored. -/
def HardwareInfo.withRegions (info : HardwareInfo) (regions : List MemoryRegion) :
    HardwareInfo :=
  (info.setRegionCount (UInt64.ofNat regions.length)).setRegions
    (fillRegions info.physicalMemoryRegions 0 regions)

theorem fillRegions_getElem {array : Vector MemoryRegion 16} {i j : Nat}
    {regions : List MemoryRegion} (hj : j < 16) :
    (fillRegions array i regions)[j] =
      if h : i ≤ j ∧ j - i < regions.length then regions[j - i] else array[j] := by
  induction regions generalizing array i with
  | nil => simp [fillRegions]
  | cons region regions ih =>
      rw [fillRegions, ih, Vector.getElem_setIfInBounds hj]
      rcases Nat.lt_trichotomy j i with before | rfl | after
      · rw [dif_neg (by omega), dif_neg (by omega), if_neg (by omega)]
      · rw [dif_neg (by omega), dif_pos (by simp), if_pos rfl]
        simp
      · by_cases inside : j - i < regions.length + 1
        · rw [dif_pos (by omega), dif_pos ⟨by omega, by rw [List.length_cons]; omega⟩]
          obtain ⟨k, hk⟩ : ∃ k, j - i = k + 1 := ⟨j - i - 1, by omega⟩
          have hk' : j - (i + 1) = k := by omega
          simp only [hk, hk', List.getElem_cons_succ]
        · have outside : ¬ (i ≤ j ∧ j - i < (region :: regions).length) := by
            rw [List.length_cons]
            omega
          rw [dif_neg (by omega), dif_neg outside, if_neg (by omega)]

/-- The stored regions are the array up to their number. -/
theorem fillRegions_take {array : Vector MemoryRegion 16} {regions : List MemoryRegion}
    (fits : regions.length ≤ 16) :
    (fillRegions array 0 regions).toList.take regions.length = regions := by
  have length : ((fillRegions array 0 regions).toList.take regions.length).length =
      regions.length := by
    rw [List.length_take, Vector.length_toList, Nat.min_eq_left fits]
  apply List.ext_getElem length
  intro j hj hj'
  rw [List.getElem_take, Vector.getElem_toList, fillRegions_getElem (by omega),
    dif_pos ⟨Nat.zero_le j, by simpa using hj'⟩]
  simp

/-! ## What the decoder does -/

/-- What decoding a `reg` value of `regSize` bytes at `reg` emits: reads of that
value, stores to the region array and its count, and panics of its own. -/
inductive RegEvent (reg : Pointer) (regSize : Nat) : Event → Prop
  | read {k : Nat} : k < regSize → RegEvent reg regSize (.read (reg.offset (UInt64.ofNat k)))
  | storeRegion {j : Nat} : j < 16 → RegEvent reg regSize (.store (.physicalMemoryRegions j))
  | storeCount : RegEvent reg regSize (.store .physicalMemoryRegionCount)
  | print {text : String} : RegEvent reg regSize (.print text)
  | printHexValue {value : UInt64} {size : Nat} :
    RegEvent reg regSize (.printHexValue value size)
  | panic {message : String} : message ∈ regPanics → RegEvent reg regSize (.panic message)

theorem RegEvent.mono {reg : Pointer} {m n : Nat} {e : Event} (event : RegEvent reg m e)
    (le : m ≤ n) : RegEvent reg n e := by
  cases event with
  | read less => exact .read (by omega)
  | storeRegion less => exact .storeRegion less
  | storeCount => exact .storeCount
  | print => exact .print
  | printHexValue => exact .printHexValue
  | panic member => exact .panic member

/-- Reads from a later position of the value are reads of the value. -/
theorem RegEvent.shift {reg : Pointer} {k m : Nat} {e : Event}
    (event : RegEvent (reg.offset (UInt64.ofNat k)) m e) : RegEvent reg (k + m) e := by
  cases event with
  | @read j less =>
      have same : (reg.offset (UInt64.ofNat k)).offset (UInt64.ofNat j) =
          reg.offset (UInt64.ofNat (k + j)) := by
        simp only [Pointer.offset, UInt64.ofNat_add, UInt64.add_assoc]
      rw [same]
      exact .read (by omega)
  | storeRegion less => exact .storeRegion less
  | storeCount => exact .storeCount
  | print => exact .print
  | printHexValue => exact .printHexValue
  | panic member => exact .panic member

/-- What changes in the record while regions are decoded. -/
def SameButRegions (info info' : HardwareInfo) : Prop :=
  ∃ regions count, info' = (info.setRegionCount count).setRegions regions

theorem SameButRegions.refl (info : HardwareInfo) : SameButRegions info info :=
  ⟨info.physicalMemoryRegions, info.physicalMemoryRegionCount, rfl⟩

theorem SameButRegions.of_setRegions {info info' : HardwareInfo}
    {regions : Vector MemoryRegion 16} (same : SameButRegions (info.setRegions regions) info') :
    SameButRegions info info' := by
  obtain ⟨regions', count, rfl⟩ := same
  exact ⟨regions', count, rfl⟩

theorem SameButRegions.of_setRegionCount {info info' : HardwareInfo} {count : UInt64}
    (same : SameButRegions (info.setRegionCount count) info') : SameButRegions info info' := by
  obtain ⟨regions, count', rfl⟩ := same
  exact ⟨regions, count', rfl⟩

variable {env : Env} {info : HardwareInfo}

theorem readCells_spec (cells : UInt32) (p : Pointer) :
    wp (readCells env cells p)
      (fun o info' evs =>
        o = .ok (cellValue env.memory cells p.address, p.offset (cellBytes cells)) ∧
        info' = info ∧ ∀ e ∈ evs, RegEvent p (cellBytes cells).toNat e) info := by
  have reads : ∀ n, ∀ e ∈ byteReads p n, RegEvent p n e := by
    intro n e member
    obtain ⟨i, less, rfl⟩ := mem_byteReads.mp member
    exact .read less
  unfold readCells cellValue cellBytes
  by_cases two : cells = 2
  · simpa [two] using reads 8
  · simpa [two] using reads 4

theorem regEvent_of_panics {message : String} {e : Stop} {evs : List Event} {reg : Pointer}
    {n : Nat} (panics : Panics env message e evs) (known : message ∈ regPanics) :
    ∀ event ∈ evs, RegEvent reg n event := by
  intro event member
  rcases panics.output event member with rfl | rfl | rfl
  · exact .panic known
  · exact .print
  · exact .print

theorem uint64Max_sub_lt {base size : UInt64} :
    uint64Max - size < base ↔ 2 ^ 64 - 1 < base.toNat + size.toNat := by
  have bound := size.toNat_lt
  have max : uint64Max.toNat = 2 ^ 64 - 1 := rfl
  rw [UInt64.lt_iff_toNat_lt, UInt64.toNat_sub_of_le _ _ (by
    rw [UInt64.le_iff_toNat_le]; omega), max]
  omega

theorem not_uint64Max_lt (x : UInt64) : ¬ x > uint64Max := by
  have bound := x.toNat_lt
  have max : uint64Max.toNat = 2 ^ 64 - 1 := rfl
  rw [gt_iff_lt, UInt64.lt_iff_toNat_lt]
  omega

/-- How a run of the decoder ends: `accepted` says whether it had to panic, and
`decoded` is the record it leaves if not. -/
inductive DecodeEnd (env : Env) (info : HardwareInfo) (accepted : Prop)
    (decoded : HardwareInfo) : Except Stop Unit → HardwareInfo → List Event → Prop
  | decoded {evs : List Event} : accepted →
    DecodeEnd env info accepted decoded (.ok ()) decoded evs
  | rejected {message : String} {e : Stop} {info' : HardwareInfo} {evs : List Event} :
    ¬ accepted → message ∈ regPanics → .panic message ∈ evs → e ≠ .exhausted →
    (env.panicReturns = false → e = .halted) → SameButRegions info info' →
    DecodeEnd env info accepted decoded (.error e) info' evs

theorem DecodeEnd.of_panics {accepted : Prop} {info info' decoded : HardwareInfo}
    {message : String} {e : Stop} {evs evs' : List Event}
    (panics : Panics env message e evs) (known : message ∈ regPanics) (rejected : ¬ accepted)
    (same : SameButRegions info info') :
    DecodeEnd env info accepted decoded (.error e) info' (evs' ++ evs) :=
  .rejected rejected known (List.mem_append_right _ panics.panic_mem) panics.not_exhausted
    panics.halted same

/-- What `decodeLoop` does with the pairs `regions` under the cursor. -/
def DecodeLoopPost (env : Env) (info : HardwareInfo) (i : Nat) (cursor : Pointer)
    (size : Nat) (regions : List MemoryRegion) : Post HardwareInfo Stop Event Unit :=
  fun o info' evs =>
    (∀ e ∈ evs, RegEvent cursor size e) ∧
    DecodeEnd env info (∀ region ∈ regions, region.Valid)
      (info.setRegions (fillRegions info.physicalMemoryRegions i regions)) o info' evs

/-- One iteration: a panic on an invalid pair, else what the rest of the loop does
after the pair is stored. -/
theorem DecodeLoopPost.cons {i m n : Nat} {cursor : Pointer} {region : MemoryRegion}
    {regions : List MemoryRegion} {o : Except Stop Unit} {info' : HardwareInfo}
    {evs evs' : List Event} (reads : ∀ e ∈ evs, RegEvent cursor m e) (stored : i < 16)
    (valid : region.Valid)
    (rest : DecodeLoopPost env
      (info.setRegions (info.physicalMemoryRegions.setIfInBounds i region)) (i + 1)
      (cursor.offset (UInt64.ofNat m)) n regions o info' evs') :
    DecodeLoopPost env info i cursor (m + n) (region :: regions) o info'
      (evs ++ (.store (.physicalMemoryRegions i) :: evs')) := by
  obtain ⟨events, ending⟩ := rest
  constructor
  · intro e member
    rcases List.mem_append.mp member with first | later
    · exact (reads e first).mono (by omega)
    · rcases List.mem_cons.mp later with rfl | later
      · exact .storeRegion stored
      · exact (events e later).shift
  · cases ending with
    | decoded all => exact .decoded (List.forall_mem_cons.mpr ⟨valid, all⟩)
    | rejected some known panic live halted same =>
        refine .rejected (fun all => some (List.forall_mem_cons.mp all).2) known ?_ live halted
          same.of_setRegions
        exact List.mem_append_right _ (List.mem_cons_of_mem _ panic)

/-- One iteration that panics on the pair under the cursor. -/
theorem DecodeLoopPost.invalid {i m n : Nat} {cursor : Pointer} {region : MemoryRegion}
    {regions : List MemoryRegion} {message : String} {e : Stop} {evs evs' : List Event}
    (reads : ∀ e ∈ evs, RegEvent cursor m e) (panics : Panics env message e evs')
    (known : message ∈ regPanics) (invalid : ¬ region.Valid) :
    DecodeLoopPost env info i cursor (m + n) (region :: regions) (.error e) info
      (evs ++ evs') := by
  refine ⟨fun event member => ?_, .of_panics panics known
    (fun all => invalid (List.forall_mem_cons.mp all).1) (.refl _)⟩
  rcases List.mem_append.mp member with first | later
  · exact (reads event first).mono (by omega)
  · exact regEvent_of_panics panics known event later

/-- The bytes of one pair. -/
def pairBytes (addressCells sizeCells : UInt32) : Nat :=
  (cellBytes addressCells).toNat + (cellBytes sizeCells).toNat

theorem decodeLoop_spec (addressCells sizeCells : UInt32) (remaining : Nat) :
    ∀ (i : Nat) (cursor : Pointer) (info : HardwareInfo), i + remaining ≤ 16 →
      wp (decodeLoop env addressCells sizeCells i cursor remaining)
        (DecodeLoopPost env info i cursor (remaining * pairBytes addressCells sizeCells)
          (regionsFrom env.memory addressCells sizeCells cursor.address remaining)) info := by
  induction remaining with
  | zero =>
      intro i cursor info _
      rw [decodeLoop, wp_pure]
      exact ⟨List.forall_mem_nil _, .decoded (List.forall_mem_nil _)⟩
  | succ remaining ih =>
      intro i cursor info fits
      rw [decodeLoop, wp_bind]
      apply wp_mono (readCells_spec addressCells cursor)
      intro o info₁ evs₁ post
      obtain ⟨rfl, rfl, reads₁⟩ := post
      rw [seqPost_ok]
      dsimp only
      rw [wp_bind]
      apply wp_mono (readCells_spec sizeCells _)
      intro o info₂ evs₂ post
      obtain ⟨rfl, rfl, reads₂⟩ := post
      rw [seqPost_ok]
      dsimp only
      have reads : ∀ e ∈ evs₁ ++ evs₂,
          RegEvent cursor (pairBytes addressCells sizeCells) e := by
        intro e member
        rcases List.mem_append.mp member with first | second
        · exact (reads₁ e first).mono (Nat.le_add_right _ _)
        · exact RegEvent.shift (by rw [UInt64.ofNat_toNat]; exact reads₂ e second)
      have size : (remaining + 1) * pairBytes addressCells sizeCells =
          pairBytes addressCells sizeCells + remaining * pairBytes addressCells sizeCells := by
        rw [Nat.succ_mul, Nat.add_comm]
      simp only [← List.append_assoc]
      rw [size, regionsFrom, regionAt, Pointer.offset_address]
      generalize cellValue env.memory addressCells cursor.address = base
      generalize cellValue env.memory sizeCells (cursor.address + cellBytes addressCells) = size
      rw [wp_bind]
      refine wp_panicIf (fun zero e evs panics => ?_) (fun nonzero => ?_)
      · exact .invalid reads panics (by simp [regPanics]) fun valid => valid.1 zero
      rw [seqPost_ok, wp_bind]
      refine wp_panicIf (fun overflow e evs panics => ?_) (fun fitting => ?_)
      · rw [uint64Max_sub_lt] at overflow
        exact .invalid reads panics (by simp [regPanics]) fun valid =>
          absurd valid.2 (by dsimp only; omega)
      rw [uint64Max_sub_lt] at fitting
      rw [seqPost_ok, wp_bind]
      refine wp_panicIf (fun wide => absurd wide (not_uint64Max_lt base)) (fun _ => ?_)
      rw [seqPost_ok, wp_bind]
      refine wp_panicIf (fun wide => absurd wide (not_uint64Max_lt size)) (fun _ => ?_)
      rw [seqPost_ok, wp_bind, storeRegion, wp_store, seqPost_ok]
      have next : (cursor.offset (cellBytes addressCells)).offset (cellBytes sizeCells) =
          cursor.offset (UInt64.ofNat (pairBytes addressCells sizeCells)) := by
        simp only [Pointer.offset, pairBytes, UInt64.ofNat_add, UInt64.ofNat_toNat,
          UInt64.add_assoc]
      apply wp_mono (ih (i + 1) _ _ (by omega))
      intro o info' evs rest
      have past : (cursor.offset (UInt64.ofNat (pairBytes addressCells sizeCells))).address =
          cursor.address + cellBytes addressCells + cellBytes sizeCells := by
        rw [← next]
        rfl
      rw [next, past] at rest
      exact .cons reads (by omega) ⟨nonzero, by dsimp only; omega⟩ rest

section Widths

variable {mem : Memory} {addressCells sizeCells : UInt32} {reg regSize : UInt64}

/-- For one or two cells the code's size of a pair is the bytes the pair takes. -/
theorem regionSpecSize_toNat (addressWidth : addressCells = 1 ∨ addressCells = 2)
    (sizeWidth : sizeCells = 1 ∨ sizeCells = 2) :
    (regionSpecSize addressCells sizeCells).toNat = pairBytes addressCells sizeCells := by
  rcases addressWidth with rfl | rfl <;> rcases sizeWidth with rfl | rfl <;> rfl

theorem pairBytes_ge (addressCells sizeCells : UInt32) : 8 ≤ pairBytes addressCells sizeCells := by
  unfold pairBytes cellBytes
  split <;> split <;> decide

/-- A value that is decoded holds at least one pair. -/
theorem AcceptedReg.pairBytes_le
    (accepted : AcceptedReg mem addressCells sizeCells reg regSize) :
    pairBytes addressCells sizeCells ≤ regSize.toNat := by
  rw [← regionSpecSize_toNat accepted.addressWidth accepted.sizeWidth]
  have multiple := congrArg UInt64.toNat accepted.multiple
  rw [UInt64.toNat_mod] at multiple
  have positive : 0 < regSize.toNat := by
    rw [Nat.pos_iff_ne_zero]
    exact fun zero => accepted.nonempty (UInt64.toNat_inj.mp zero)
  exact Nat.le_of_dvd positive (Nat.dvd_of_mod_eq_zero multiple)

theorem AcceptedReg.length_pos
    (accepted : AcceptedReg mem addressCells sizeCells reg regSize) :
    0 < (regPairs mem addressCells sizeCells reg regSize).length := by
  rw [length_regPairs, UInt64.toNat_div,
    regionSpecSize_toNat accepted.addressWidth accepted.sizeWidth]
  exact Nat.div_pos accepted.pairBytes_le
    (Nat.lt_of_lt_of_le (by decide) (pairBytes_ge addressCells sizeCells))

theorem AcceptedReg.length_le
    (accepted : AcceptedReg mem addressCells sizeCells reg regSize) :
    (regPairs mem addressCells sizeCells reg regSize).length ≤ 16 := by
  rw [length_regPairs]
  exact UInt64.le_iff_toNat_le.mp accepted.atMost

/-- Between them, the checks on the cell counts leave one and two. -/
theorem cells_eq_of_checks {cells : UInt32} (low : ¬ cells < 1) (high : ¬ cells > 2) :
    cells = 1 ∨ cells = 2 := by
  rw [UInt32.lt_iff_toNat_lt] at low
  rw [gt_iff_lt, UInt32.lt_iff_toNat_lt] at high
  rw [← UInt32.toNat_inj, ← UInt32.toNat_inj]
  simp only [UInt32.reduceToNat] at low high ⊢
  omega

theorem not_lt_one_of_cells {cells : UInt32} (width : cells = 1 ∨ cells = 2) :
    ¬ cells < 1 ∧ ¬ cells > 2 := by
  rcases width with rfl | rfl <;> decide

theorem AcceptedReg.cells_le (accepted : AcceptedReg mem addressCells sizeCells reg regSize) :
    ¬ (addressCells.toUInt64 > regSize ∨ sizeCells.toUInt64 > regSize) := by
  have large := Nat.le_trans (pairBytes_ge addressCells sizeCells) accepted.pairBytes_le
  have small : ∀ {cells : UInt32}, cells = 1 ∨ cells = 2 → ¬ cells.toUInt64 > regSize := by
    intro cells width
    rw [gt_iff_lt, UInt64.lt_iff_toNat_lt, UInt32.toNat_toUInt64]
    rcases width with rfl | rfl
    · simp only [UInt32.reduceToNat]; omega
    · simp only [UInt32.reduceToNat]; omega
  exact fun either => either.elim (small accepted.addressWidth) (small accepted.sizeWidth)

end Widths

/-- How `physical_memory_regions` ends. After a panic that returns, the caller goes
on; the kernel's own `kernel_panic` halts. -/
inductive RegionsEnd (env : Env) (info : HardwareInfo) (addressCells sizeCells : UInt32)
    (reg regSize : UInt64) : Except Stop Unit → HardwareInfo → List Event → Prop
  | decoded {evs : List Event} :
    AcceptedReg env.memory addressCells sizeCells reg regSize →
    RegionsEnd env info addressCells sizeCells reg regSize (.ok ())
      (info.withRegions (regPairs env.memory addressCells sizeCells reg regSize)) evs
  | rejected {message : String} {o : Except Stop Unit} {info' : HardwareInfo}
    {evs : List Event} :
    ¬ AcceptedReg env.memory addressCells sizeCells reg regSize →
    message ∈ regPanics → .panic message ∈ evs → o = .ok () ∨ o = .error .halted →
    (env.panicReturns = false → o = .error .halted) → SameButRegions info info' →
    RegionsEnd env info addressCells sizeCells reg regSize o info' evs

/-- A panic in the body halts, or ends the call. -/
theorem RegionsEnd.of_stop {addressCells sizeCells : UInt32} {reg regSize : UInt64}
    {message : String} {e : Stop} {info' : HardwareInfo} {evs : List Event}
    (rejected : ¬ AcceptedReg env.memory addressCells sizeCells reg regSize)
    (known : message ∈ regPanics) (panic : .panic message ∈ evs) (live : e ≠ .exhausted)
    (halted : env.panicReturns = false → e = .halted) (same : SameButRegions info info') :
    RegionsEnd env info addressCells sizeCells reg regSize
      (if (Except.error e : Except Stop Unit) = .error .returned then .ok () else .error e)
      info' evs := by
  cases e with
  | halted => exact .rejected rejected known panic (Or.inr rfl) (fun _ => rfl) same
  | returned =>
      exact .rejected rejected known panic (Or.inl rfl) (fun halts => nomatch halted halts) same
  | exhausted => exact absurd rfl live

/-- What a call of `physical_memory_regions` does. -/
def RegionsPost (env : Env) (info : HardwareInfo) (addressCells sizeCells : UInt32)
    (reg : Pointer) (regSize : UInt64) : Post HardwareInfo Stop Event Unit :=
  fun o info' evs =>
    .decodeRegions addressCells sizeCells reg regSize ∈ evs ∧
    (∀ e ∈ evs, e = .decodeRegions addressCells sizeCells reg regSize ∨
      RegEvent reg regSize.toNat e) ∧
    RegionsEnd env info addressCells sizeCells reg.address regSize o info' evs

/-- A check of `physical_memory_regions` that fails. -/
theorem RegionsPost.of_panics {addressCells sizeCells : UInt32} {reg : Pointer}
    {regSize : UInt64} {message : String} {e : Stop} {evs' : List Event} (evs : List Event)
    (panics : Panics env message e evs') (known : message ∈ regPanics)
    (rejected : ¬ AcceptedReg env.memory addressCells sizeCells reg.address regSize)
    (printed : ∀ event ∈ evs, RegEvent reg regSize.toNat event) :
    RegionsPost env info addressCells sizeCells reg regSize
      (if (Except.error e : Except Stop Unit) = .error .returned then .ok () else .error e) info
      (.decodeRegions addressCells sizeCells reg regSize :: (evs ++ evs')) := by
  refine ⟨List.mem_cons_self, ?_, ?_⟩
  · intro event member
    refine (List.mem_cons.mp member).imp_right fun later => ?_
    exact (List.mem_append.mp later).elim (printed event)
      (regEvent_of_panics panics known event)
  · exact .of_stop rejected known
      (List.mem_cons_of_mem _ (List.mem_append_right evs panics.panic_mem))
      panics.not_exhausted panics.halted (.refl _)

/-- The pairs that a value holds in full take no more bytes than it has. -/
theorem pairs_fit {addressCells sizeCells : UInt32} {regSize : UInt64}
    (addressWidth : addressCells = 1 ∨ addressCells = 2)
    (sizeWidth : sizeCells = 1 ∨ sizeCells = 2) :
    (regSize / regionSpecSize addressCells sizeCells).toNat *
      pairBytes addressCells sizeCells ≤ regSize.toNat := by
  rw [UInt64.toNat_div, regionSpecSize_toNat addressWidth sizeWidth]
  exact Nat.div_mul_le_self _ _

/-- The decoding loop of `physical_memory_regions`, once all checks have passed: the value is
accepted if its pairs are valid. -/
theorem RegionsPost.of_decodeLoop {addressCells sizeCells : UInt32} {reg : Pointer}
    {regSize : UInt64} {o : Except Stop Unit} {info' : HardwareInfo} {evs : List Event}
    (accept : (∀ region ∈ regPairs env.memory addressCells sizeCells reg.address regSize,
      region.Valid) → AcceptedReg env.memory addressCells sizeCells reg.address regSize)
    (fits : (regSize / regionSpecSize addressCells sizeCells).toNat *
      pairBytes addressCells sizeCells ≤ regSize.toNat)
    (post : DecodeLoopPost env
      (info.setRegionCount (regSize / regionSpecSize addressCells sizeCells)) 0 reg
      ((regSize / regionSpecSize addressCells sizeCells).toNat * pairBytes addressCells sizeCells)
      (regPairs env.memory addressCells sizeCells reg.address regSize) o info' evs) :
    RegionsPost env info addressCells sizeCells reg regSize
      (if o = .error .returned then .ok () else o) info'
      ([.decodeRegions addressCells sizeCells reg regSize] ++
        ([.store .physicalMemoryRegionCount] ++ evs)) := by
  rcases post with ⟨events, ending⟩
  refine ⟨List.mem_cons_self, ?_, ?_⟩
  · intro e member
    refine (List.mem_cons.mp member).imp_right fun later => ?_
    rcases List.mem_cons.mp later with rfl | later
    · exact .storeCount
    · exact (events e later).mono fits
  · cases ending with
    | decoded valid =>
        have count : UInt64.ofNat
            (regPairs env.memory addressCells sizeCells reg.address regSize).length =
              regSize / regionSpecSize addressCells sizeCells := by
          rw [length_regPairs, UInt64.ofNat_toNat]
        have decoded : RegionsEnd env info addressCells sizeCells reg.address regSize (.ok ()) _
            ([.decodeRegions addressCells sizeCells reg regSize] ++
              ([.store .physicalMemoryRegionCount] ++ evs)) := .decoded (accept valid)
        rw [HardwareInfo.withRegions, count] at decoded
        exact decoded
    | rejected invalid known panic live halted same =>
        refine .of_stop (fun accepted => invalid accepted.valid) known ?_ live halted
          same.of_setRegionCount
        exact List.mem_cons_of_mem _ (List.mem_cons_of_mem _ panic)

theorem physicalMemoryRegions_spec (addressCells sizeCells : UInt32) (reg : Pointer)
    (regSize : UInt64) :
    wp (physicalMemoryRegions env addressCells sizeCells reg regSize)
      (RegionsPost env info addressCells sizeCells reg regSize) info := by
  unfold physicalMemoryRegions
  apply wp_functionBody
  have silent : ∀ event ∈ ([] : List Event), RegEvent reg regSize.toNat event :=
    List.forall_mem_nil _
  rw [wp_bind, wp_emit, seqPost_ok, wp_bind]
  refine wp_panicIf (fun large e evs panics => ?_) (fun _ => ?_)
  · exact .of_panics [] panics (by simp [regPanics])
      (fun accepted => accepted.cells_le large) silent
  rw [seqPost_ok, wp_bind]
  refine wp_panicIf (fun zero e evs panics => ?_) (fun positive => ?_)
  · refine .of_panics [] panics (by simp [regPanics]) (fun accepted => ?_) silent
    have nonempty : ¬ regSize < 1 := by
      rw [UInt64.lt_iff_toNat_lt]
      have := accepted.pairBytes_le
      have := pairBytes_ge addressCells sizeCells
      simp only [UInt64.reduceToNat]
      omega
    exact zero.elim (not_lt_one_of_cells accepted.addressWidth).1
      (Or.rec (not_lt_one_of_cells accepted.sizeWidth).1 nonempty)
  rw [seqPost_ok, wp_bind]
  refine wp_panicIf (fun wide e evs panics => ?_) (fun narrow => ?_)
  · exact .of_panics [] panics (by simp [regPanics]) (fun accepted =>
      wide.elim (not_lt_one_of_cells accepted.addressWidth).2
        (not_lt_one_of_cells accepted.sizeWidth).2) silent
  rw [not_or, not_or] at positive
  rw [not_or] at narrow
  have addressWidth := cells_eq_of_checks positive.1 narrow.1
  have sizeWidth := cells_eq_of_checks positive.2.1 narrow.2
  rw [seqPost_ok]
  dsimp only
  rw [wp_ite]
  split
  · rename_i remainder
    simp only [wp_bind, wp_consolePrint, wp_consolePrintHexValue, seqPost_ok]
    apply wp_mono (panicReturn_spec _)
    intro o info' evs post
    obtain ⟨e, rfl, rfl, panics⟩ := post
    refine .of_panics [.print "reg_size: 0x", .printHexValue regSize 8,
      .print "\nsize_of_one_region_spec: 0x", .printHexValue _ 8, .print "\n"] panics
      (by simp [regPanics]) (fun accepted => remainder accepted.multiple) ?_
    intro event member
    simp only [List.mem_cons, List.not_mem_nil, or_false] at member
    rcases member with rfl | rfl | rfl | rfl | rfl
    · exact .print
    · exact .printHexValue
    · exact .print
    · exact .printHexValue
    · exact .print
  rename_i multiple
  rw [wp_bind]
  refine wp_panicIf (fun many e evs panics => ?_) (fun few => ?_)
  · exact .of_panics [] panics (by simp [regPanics])
      (fun accepted => absurd accepted.atMost (UInt64.not_le.mpr many)) silent
  rw [seqPost_ok, wp_bind, wp_store, seqPost_ok]
  have atMost := UInt64.not_lt.mp few
  apply wp_mono (decodeLoop_spec addressCells sizeCells _ 0 reg _
    (by rw [Nat.zero_add]; exact UInt64.le_iff_toNat_le.mp atMost))
  intro o info' evs post
  have nonempty : regSize ≠ 0 := fun zero => positive.2.2 (by rw [zero]; decide)
  exact .of_decodeLoop
    (fun valid => ⟨addressWidth, sizeWidth, nonempty, not_ne_iff.mp multiple, atMost, valid⟩)
    (pairs_fit addressWidth sizeWidth) post

end CharcoalOS
