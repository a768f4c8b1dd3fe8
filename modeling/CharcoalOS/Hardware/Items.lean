import CharcoalOS.Hardware.Acceptance
import CharcoalOS.Hardware.Encoding
import CharcoalOS.Kernel.Comparison

/-!
# What the tokens say

An `Item` is what a token says: a node name and a property name as characters, a value as
bytes, and no address. `Discovered` is what is known after some items, and `Allows` which
items may come next. `Token.Spells` ties a token to its item, and `Context.Reads.step` is the
step of the refinement: the context of the tokens is what the items before have said.
-/

namespace CharcoalOS

open Effect Effect.Program

/-- What a token says. -/
inductive Item : Type
  | beginNode (name : List UInt8)
  | endNode
  | prop (name value : List UInt8)
  | nop
  | fdtEnd
deriving DecidableEq, Repr

/-- The property names the walk knows, by their characters. -/
def nameKind (name : List UInt8) : PropertyName :=
  if name = chars (cString "#address-cells") then .addressCells
  else if name = chars (cString "#size-cells") then .sizeCells
  else if name = chars (cString "device_type") then .deviceType
  else if name = chars (cString "reg") then .reg
  else .other

/-- The bytes of a value from address 0 on. -/
def valueMemory (value : List UInt8) : Memory := fun a => value.getD a.toNat 0

/-- What is known of the hardware, and of the node opened last. -/
structure Discovered : Type where
  depth : UInt64
  nameEmpty : Bool
  reg : Option (List UInt8)
  memory : Bool
  addressCells : Option UInt32
  sizeCells : Option UInt32
  regions : Option (List MemoryRegion)
deriving DecidableEq

namespace Discovered

/-- Nothing is known before the first item. -/
def initial : Discovered where
  depth := 0
  nameEmpty := true
  reg := none
  memory := false
  addressCells := none
  sizeCells := none
  regions := none

variable (d : Discovered)

def decodes : Bool := d.reg.isSome && d.memory

def pairs : List MemoryRegion :=
  match d.reg with
  | none => []
  | some value =>
      regPairs (valueMemory value) (d.addressCells.getD 0) (d.sizeCells.getD 0) 0
        (UInt64.ofNat value.length)

def withProperty (name value : List UInt8) : Discovered :=
  { d with
    reg := if nameKind name = .reg then some value else d.reg
    memory := d.memory || (nameKind name == .deviceType && value == cString "memory")
    addressCells :=
      if d.nameEmpty && nameKind name == .addressCells then some (be32 (valueMemory value) 0)
      else d.addressCells
    sizeCells :=
      if d.nameEmpty && nameKind name == .sizeCells then some (be32 (valueMemory value) 0)
      else d.sizeCells }

def decode : Discovered := if d.decodes then { d with regions := some d.pairs } else d

def step : Item → Discovered
  | .beginNode name =>
      { d with depth := d.depth + 1, nameEmpty := name.isEmpty, reg := none, memory := false }
  | .endNode => { d with depth := d.depth - 1 }
  | .prop name value => (d.withProperty name value).decode
  | .nop => d
  | .fdtEnd => d

/-- What is known after the items. -/
def after (items : List Item) : Discovered := items.foldl step d

/-- The `reg` can be decoded. -/
structure Decodable : Prop where
  known : d.addressCells.isSome = true ∧ d.sizeCells.isSome = true
  reg : ∀ value addressCells sizeCells, d.reg = some value → d.addressCells = some addressCells →
    d.sizeCells = some sizeCells →
    AcceptedReg (valueMemory value) addressCells sizeCells 0 (UInt64.ofNat value.length)

/-- The item raises no panic. -/
def Allows : Item → Prop
  | .endNode => d.depth ≠ 0
  | .prop name value =>
      (d.nameEmpty = true → (nameKind name).IsCells → value.length = 4) ∧
        ((d.withProperty name value).decodes = true → (d.withProperty name value).Decodable)
  | _ => True

/-- None of the items raises a panic. -/
def Accepts : Discovered → List Item → Prop
  | _, [] => True
  | d, item :: items => d.Allows item ∧ Accepts (d.step item) items

end Discovered

section Fold

variable {d : Discovered} {items items' : List Item} {item : Item}

@[simp] theorem Discovered.after_nil : d.after [] = d := rfl

@[simp] theorem Discovered.after_cons : d.after (item :: items) = (d.step item).after items := rfl

@[simp] theorem Discovered.after_append :
    d.after (items ++ items') = (d.after items).after items' := List.foldl_append

@[simp] theorem Discovered.accepts_nil : d.Accepts [] := trivial

@[simp] theorem Discovered.accepts_cons :
    d.Accepts (item :: items) ↔ d.Allows item ∧ (d.step item).Accepts items := Iff.rfl

@[simp] theorem Discovered.accepts_append :
    d.Accepts (items ++ items') ↔ d.Accepts items ∧ (d.after items).Accepts items' := by
  induction items generalizing d with
  | nil => simp
  | cons item items ih => simp [ih, and_assoc]

end Fold

/-! ## Bytes in memory -/

section Bytes

variable {mem mem' : Memory} {a a' : UInt64} {n i : Nat} {value : List UInt8}

theorem getElem?_bytesFrom (less : i < n) :
    (bytesFrom mem a n)[i]? = some (mem (a + UInt64.ofNat i)) := by
  induction n generalizing a i with
  | zero => cases less
  | succ n ih =>
      rw [bytesFrom]
      cases i with
      | zero => rw [List.getElem?_cons_zero, show UInt64.ofNat 0 = 0 from rfl, UInt64.add_zero]
      | succ i =>
          rw [List.getElem?_cons_succ, ih (Nat.lt_of_succ_lt_succ less), UInt64.ofNat_add,
            UInt64.add_comm (UInt64.ofNat i), ← UInt64.add_assoc]
          rfl

/-- The bytes at an address are given by their characters. -/
theorem bytesFrom_eq_iff :
    bytesFrom mem a value.length = value ↔
      ∀ i, (less : i < value.length) → mem (a + UInt64.ofNat i) = value[i] := by
  constructor
  · intro bytes i less
    have here : (bytesFrom mem a value.length)[i]? = _ := getElem?_bytesFrom less
    rw [bytes, List.getElem?_eq_getElem less] at here
    exact (Option.some.inj here).symm
  · intro bytes
    refine List.ext_getElem? fun i => ?_
    by_cases less : i < value.length
    · rw [getElem?_bytesFrom less, bytes i less, List.getElem?_eq_getElem less]
    · rw [List.getElem?_eq_none (Nat.not_lt.mp less),
        List.getElem?_eq_none (by rw [length_bytesFrom]; exact Nat.not_lt.mp less)]

theorem bytesFrom_valueMemory (value : List UInt8) (short : value.length < 2 ^ 64) :
    bytesFrom (valueMemory value) 0 value.length = value := by
  refine bytesFrom_eq_iff.mpr fun i less => ?_
  rw [UInt64.zero_add, valueMemory, UInt64.toNat_ofNat_of_lt' (Nat.lt_trans less short),
    List.getD_eq_getElem _ _ less]

/-- A number is a matter of its bytes. -/
theorem be32_congr (same : bytesFrom mem a 4 = bytesFrom mem' a' 4) :
    be32 mem a = be32 mem' a' := by
  rw [← UInt32.toNat_inj, be32_toNat, be32_toNat, same]

variable {addressCells sizeCells : UInt32} {size : UInt64} {regions : List MemoryRegion}

/-- So is a `reg`. -/
theorem EncodesReg.congr (same : bytesFrom mem a size.toNat = bytesFrom mem' a' size.toNat)
    (encodes : EncodesReg mem addressCells sizeCells a size regions) :
    EncodesReg mem' addressCells sizeCells a' size regions :=
  { encodes with bytes := same.symm.trans encodes.bytes }

theorem AcceptedReg.congr (same : bytesFrom mem a size.toNat = bytesFrom mem' a' size.toNat)
    (accepted : AcceptedReg mem addressCells sizeCells a size) :
    AcceptedReg mem' addressCells sizeCells a' size ∧
      regPairs mem' addressCells sizeCells a' size =
        regPairs mem addressCells sizeCells a size := by
  have encodes := accepted.encodes.congr same
  exact ⟨encodes.accepted, encodes.regPairs_eq⟩

end Bytes

/-! ## Names -/

section Names

variable {mem : Memory} {q : Pointer} {name : List UInt8} {n : Nat}

theorem holdsChars_bytesFrom {m : Nat} (less : n < m) :
    Kernel.HoldsChars (charValue mem (.pointer q)) n (bytesFrom mem q.address m) :=
  fun _ le => getElem?_bytesFrom (Nat.lt_of_le_of_lt le less)

/-- A name in memory equals a literal if it has the same characters, whatever is behind it. -/
theorem comparesEqual_name (text : String) (clean : 0 ∉ name)
    (there : bytesFrom mem q.address (name.length + 1) = name ++ [0])
    (literal : Kernel.HoldsChars (literalByte text) (chars (cString text)).length (cString text))
    (terminated : ReadsAs (chars (cString text)) (cString text)) :
    comparesEqual mem (.pointer q) text (chars (cString text)).length =
      decide (name = chars (cString text)) := by
  -- storage for the name, and for as many bytes as the comparison may read
  have storage : bytesFrom mem q.address (name.length + 1 + ((chars (cString text)).length + 1)) =
      _ := bytesFrom_add _ _
  rw [there] at storage
  have reads : ReadsAs name (bytesFrom mem q.address
      (name.length + 1 + ((chars (cString text)).length + 1))) :=
    ⟨clean, _, by rw [storage, List.append_assoc]; rfl⟩
  have inside : (0 : UInt8) ∈ bytesFrom mem q.address
      (name.length + 1 + ((chars (cString text)).length + 1)) :=
    List.mem_of_getElem? reads.terminator
  have equal := Kernel.stringCompareWithLength_eq inside terminated
    (by rw [length_bytesFrom]; omega)
  rw [Kernel.comparesEqual_eq (holdsChars_bytesFrom (by omega)) literal, reads.chars] at equal
  exact Option.some.inj equal

/-- The name the walk recognises is that of the characters. -/
theorem nameOf_eq (clean : 0 ∉ name)
    (there : bytesFrom mem q.address (name.length + 1) = name ++ [0]) :
    nameOf mem q = nameKind name := by
  have addressCells := comparesEqual_name "#address-cells" clean there
    (by unfold Kernel.HoldsChars; decide) (readsAs_chars (by decide))
  have sizeCells := comparesEqual_name "#size-cells" clean there
    (by unfold Kernel.HoldsChars; decide) (readsAs_chars (by decide))
  have deviceType := comparesEqual_name "device_type" clean there
    (by unfold Kernel.HoldsChars; decide) (readsAs_chars (by decide))
  have reg := comparesEqual_name "reg" clean there
    (by unfold Kernel.HoldsChars; decide) (readsAs_chars (by decide))
  rw [show (chars (cString "#address-cells")).length = 14 by decide] at addressCells
  rw [show (chars (cString "#size-cells")).length = 11 by decide] at sizeCells
  rw [show (chars (cString "device_type")).length = 11 by decide] at deviceType
  rw [show (chars (cString "reg")).length = 3 by decide] at reg
  simp only [nameOf, nameKind, addressCells, sizeCells, deviceType, reg, decide_eq_true_eq]

/-- A `device_type` of seven bytes is compared with all of "memory". -/
theorem comparesEqual_memory {a : UInt64} :
    comparesEqual mem (.pointer (structPointer a)) "memory" 6 =
      (bytesFrom mem a 7 == cString "memory") := by
  have literal : Kernel.HoldsChars (literalByte "memory") 6 (cString "memory") := by
    unfold Kernel.HoldsChars
    decide
  have equal : Kernel.stringCompareWithLength (bytesFrom mem a 7) (cString "memory") 6 true =
      some (comparesEqual mem (.pointer (structPointer a)) "memory" 6) :=
    Kernel.comparesEqual_eq (holdsChars_bytesFrom (by omega)) literal
  have ends : (bytesFrom mem a 7)[6]? = some (mem (a + UInt64.ofNat 6)) :=
    getElem?_bytesFrom (by omega)
  rw [Kernel.stringCompareWithLength_checked ends (d := 0) (by decide)] at equal
  have split : bytesFrom mem a 7 = (bytesFrom mem a 7).take 6 ++ [mem (a + UInt64.ofNat 6)] := by
    obtain ⟨inside, last⟩ := List.getElem?_eq_some_iff.mp ends
    rw [← last, ← List.take_succ_eq_append_getElem inside]
    exact (List.take_of_length_le (by rw [length_bytesFrom])).symm
  rw [← Option.some.inj equal, beq_eq_decide, decide_eq_decide]
  constructor
  · rintro ⟨nul, -, same⟩
    rw [split, nul, same]
    decide
  · intro same
    have nul : mem (a + UInt64.ofNat 6) = 0 := by
      rw [same] at ends
      exact (Option.some.inj ends).symm
    exact ⟨nul, rfl, by rw [same]⟩

theorem isMemoryType_eq {kind : PropertyName} {p : Property} :
    IsMemoryType mem kind p =
      (kind == .deviceType && bytesFrom mem p.data p.length.toNat == cString "memory") := by
  rw [IsMemoryType, Bool.and_assoc]
  congr 1
  by_cases seven : p.length = 7
  · rw [seven, Property.dataBytes, comparesEqual_memory, BEq.rfl, Bool.true_and]
    rfl
  · have other : bytesFrom mem p.data p.length.toNat ≠ cString "memory" := by
      intro same
      have length := congrArg List.length same
      rw [length_bytesFrom] at length
      exact seven (UInt32.toNat_inj.mp length)
    rw [beq_false_of_ne seven, beq_false_of_ne other, Bool.false_and]

end Names

/-! ## The refinement -/

/-- The bytes of a property value. -/
def Property.value (mem : Memory) (p : Property) : List UInt8 :=
  bytesFrom mem p.data p.length.toNat

/-- What the token says. Of a node name it matters only whether it is empty. -/
inductive Token.Spells (mem : Memory) (dtb : UInt64) : Token → Item → Prop
  | beginNode {a : UInt64} {name : List UInt8} : (mem a = 0 ↔ name = []) →
    Token.Spells mem dtb (.beginNode a) (.beginNode name)
  | endNode : Token.Spells mem dtb .endNode .endNode
  | prop {p : Property} {name : List UInt8} : propertyName mem dtb p = nameKind name →
    Token.Spells mem dtb (.prop p) (.prop name (p.value mem))
  | nop : Token.Spells mem dtb .nop .nop
  | fdtEnd : Token.Spells mem dtb .fdtEnd .fdtEnd

/-- The context is what the items said. -/
structure Context.Reads (mem : Memory) (c : Context) (d : Discovered) : Prop where
  nameEmpty : c.nameEmpty mem = d.nameEmpty
  reg : d.reg = c.reg.map (Property.value mem)
  memory : c.memory = d.memory
  addressCells : c.addressCells = d.addressCells
  sizeCells : c.sizeCells = d.sizeCells
  regions : c.regions = d.regions

section Steps

variable {mem : Memory} {dtb : UInt64} {c : Context} {d : Discovered} {p : Property}
  {name : List UInt8} {t : Token} {item : Item}

theorem Context.reads_initial : Context.initial.Reads mem .initial := ⟨rfl, rfl, rfl, rfl, rfl, rfl⟩

theorem Context.Reads.withProperty (reads : c.Reads mem d)
    (named : propertyName mem dtb p = nameKind name)
    (cells : d.nameEmpty = true → (nameKind name).IsCells → (p.value mem).length = 4) :
    (c.withProperty mem (propertyName mem dtb p) p).Reads mem
      (d.withProperty name (p.value mem)) := by
  -- a cell count that is saved is a 32-bit integer
  have count : d.nameEmpty = true → (nameKind name).IsCells →
      be32 mem p.data = be32 (valueMemory (p.value mem)) 0 := by
    intro empty isCells
    have four := cells empty isCells
    rw [Property.value, length_bytesFrom] at four
    refine be32_congr ?_
    have value := bytesFrom_valueMemory (p.value mem)
      (by rw [Property.value, length_bytesFrom, four]; decide)
    rw [Property.value, length_bytesFrom, four] at value
    rw [Property.value, four, value]
  rw [named]
  refine ⟨reads.nameEmpty, ?_, ?_, ?_, ?_, reads.regions⟩
  · rw [Context.withProperty, Discovered.withProperty]
    dsimp only
    split <;> [rfl; exact reads.reg]
  · rw [Context.withProperty, Discovered.withProperty]
    dsimp only
    rw [reads.memory, isMemoryType_eq, Property.value]
  · rw [Context.withProperty, Discovered.withProperty]
    dsimp only
    rw [reads.nameEmpty, reads.addressCells]
    split
    · rename_i saved
      rw [Bool.and_eq_true, beq_iff_eq] at saved
      rw [count saved.1 (Or.inl saved.2)]
    · rfl
  · rw [Context.withProperty, Discovered.withProperty]
    dsimp only
    rw [reads.nameEmpty, reads.sizeCells]
    split
    · rename_i saved
      rw [Bool.and_eq_true, beq_iff_eq] at saved
      rw [count saved.1 (Or.inr saved.2)]
    · rfl

theorem Context.Reads.decodes (reads : c.Reads mem d) (silent : nullReadsMemory mem = false) :
    c.decodes mem = d.decodes := by
  rw [Context.decodes, Discovered.decodes, reads.reg, reads.memory, silent, Bool.or_false,
    Option.isSome_map]

theorem Property.length_value : (p.value mem).length = p.length.toNat := length_bytesFrom _

theorem Property.size_eq : UInt64.ofNat (p.value mem).length = p.length.toUInt64 := by
  rw [Property.length_value, ← UInt32.toNat_toUInt64, UInt64.ofNat_toNat]

theorem Property.bytes_eq : bytesFrom mem p.data p.length.toUInt64.toNat =
    bytesFrom (valueMemory (p.value mem)) 0 p.length.toUInt64.toNat := by
  have short := p.length.toNat_lt
  have value := bytesFrom_valueMemory (p.value mem) (by rw [length_value]; omega)
  rw [length_value] at value
  rw [UInt32.toNat_toUInt64, value, Property.value]

/-- A value in memory is decoded as its bytes are. -/
theorem Property.acceptedReg_iff {addressCells sizeCells : UInt32} :
    AcceptedReg mem addressCells sizeCells p.data p.length.toUInt64 ↔
      AcceptedReg (valueMemory (p.value mem)) addressCells sizeCells 0
        (UInt64.ofNat (p.value mem).length) := by
  rw [size_eq]
  exact ⟨fun accepted => (accepted.congr bytes_eq).1,
    fun accepted => (accepted.congr bytes_eq.symm).1⟩

theorem Context.Reads.decodable_iff (reads : c.Reads mem d) : c.Decodable mem ↔ d.Decodable := by
  constructor
  · intro decodable
    refine ⟨by rw [← reads.addressCells, ← reads.sizeCells]; exact decodable.known, ?_⟩
    intro value address size reg addressEq sizeEq
    rw [reads.reg, Option.map_eq_some_iff] at reg
    obtain ⟨p, held, rfl⟩ := reg
    exact Property.acceptedReg_iff.mp (decodable.reg p address size held
      (reads.addressCells.trans addressEq) (reads.sizeCells.trans sizeEq))
  · intro decodable
    refine ⟨by rw [Context.CellsKnown, reads.addressCells, reads.sizeCells]; exact decodable.known,
      ?_⟩
    intro p address size held addressEq sizeEq
    refine Property.acceptedReg_iff.mpr (decodable.reg (p.value mem) address size ?_
      (reads.addressCells.symm.trans addressEq) (reads.sizeCells.symm.trans sizeEq))
    rw [reads.reg, held, Option.map_some]

/-- What can be decoded is decoded to the same pairs. -/
theorem Context.Reads.pairs (reads : c.Reads mem d) (decodes : c.decodes mem = true)
    (decodable : c.Decodable mem) : c.pairs mem = d.pairs := by
  rcases Context.exists_reg decodes with ⟨p, held⟩
  rcases Context.exists_cells decodable.known with ⟨address, size, addressEq, sizeEq⟩
  have accepted := decodable.reg p address size held addressEq sizeEq
  rw [Context.pairs, Discovered.pairs, reads.reg, held, ← reads.addressCells, ← reads.sizeCells,
    addressEq, sizeEq, Option.map_some]
  dsimp only
  rw [Property.size_eq]
  exact (accepted.congr Property.bytes_eq).2.symm

theorem Context.Reads.decode (reads : c.Reads mem d) (silent : nullReadsMemory mem = false)
    (decodable : d.decodes = true → d.Decodable) : (c.decode mem).Reads mem d.decode := by
  rw [Context.decode, Discovered.decode, reads.decodes silent]
  split
  · rename_i decodes
    exact { reads with
      regions := congrArg some (reads.pairs ((reads.decodes silent).trans decodes)
        (reads.decodable_iff.mpr (decodable decodes))) }
  · exact reads

/-- **An item that is allowed keeps what is known.** -/
theorem Context.Reads.step (reads : c.Reads mem d) (silent : nullReadsMemory mem = false)
    (spells : t.Spells mem dtb item) (allowed : d.Allows item) :
    (c.step mem dtb t).Reads mem (d.step item) := by
  cases spells with
  | beginNode empty =>
      refine ⟨?_, rfl, rfl, reads.addressCells, reads.sizeCells, reads.regions⟩
      rw [Bool.eq_iff_iff]
      simpa [Context.step, Context.nameEmpty, Discovered.step] using empty
  | endNode =>
      exact ⟨reads.nameEmpty, reads.reg, reads.memory, reads.addressCells, reads.sizeCells,
        reads.regions⟩
  | prop named => exact (reads.withProperty named allowed.1).decode silent allowed.2
  | nop => exact reads
  | fdtEnd => exact reads

/-- The property is allowed by the context exactly if its item is. -/
theorem Context.Reads.allowed_iff {ts : List Token} (reads : (contextOf mem dtb ts).Reads mem d)
    (silent : nullReadsMemory mem = false) (named : propertyName mem dtb p = nameKind name) :
    PropertyAllowed mem dtb ts p ↔ d.Allows (.prop name (p.value mem)) := by
  have four : p.length = 4 ↔ (p.value mem).length = 4 := by
    rw [Property.length_value, ← UInt32.toNat_inj]
    rfl
  have cells : ((contextOf mem dtb ts).nameEmpty mem = true →
      (propertyName mem dtb p).IsCells → p.length = 4) ↔
      (d.nameEmpty = true → (nameKind name).IsCells → (p.value mem).length = 4) := by
    rw [reads.nameEmpty, named, four]
  constructor
  · intro allowed
    have fits := cells.mp allowed.cells
    have saved := reads.withProperty named fits
    refine ⟨fits, fun decodes => ?_⟩
    rw [← saved.decodes silent] at decodes
    exact saved.decodable_iff.mp (allowed.decodable decodes)
  · intro allowed
    have saved := reads.withProperty named allowed.1
    refine ⟨cells.mpr allowed.1, fun decodes => saved.decodable_iff.mpr (allowed.2 ?_)⟩
    rw [← saved.decodes silent]
    exact decodes

end Steps

end CharcoalOS
