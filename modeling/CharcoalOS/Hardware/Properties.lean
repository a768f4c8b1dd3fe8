import CharcoalOS.Hardware.Tokens

/-!
# What the walk does with a property

The name of a property decides what becomes of it (`nameOf`): the cell counts of a
node with an empty name are saved, `device_type` and `reg` become the context of the
node, and a context that is complete is decoded. `handleProperty_spec` says this of
the `FDT_PROP` case of `parse_device_tree_blob`, with all it reads and emits.
-/

namespace CharcoalOS

open Effect Effect.Program

/-- The property names the walk knows. -/
inductive PropertyName : Type
  | addressCells
  | sizeCells
  | deviceType
  | reg
  | other
deriving DecidableEq, Repr

/-- The property name that starts at `name`. -/
def nameOf (mem : Memory) (name : Pointer) : PropertyName :=
  if comparesEqual mem (.pointer name) "#address-cells" 14 then .addressCells
  else if comparesEqual mem (.pointer name) "#size-cells" 11 then .sizeCells
  else if comparesEqual mem (.pointer name) "device_type" 11 then .deviceType
  else if comparesEqual mem (.pointer name) "reg" 3 then .reg
  else .other

/-- The name stands for a cell count. -/
def PropertyName.IsCells (name : PropertyName) : Prop :=
  name = .addressCells ∨ name = .sizeCells

instance (name : PropertyName) : Decidable name.IsCells := by
  unfold PropertyName.IsCells; infer_instance

section Names

variable {mem : Memory} {name : Pointer}

theorem comparesEqual_addressCells :
    comparesEqual mem (.pointer name) "#address-cells" 14 =
      decide (nameOf mem name = .addressCells) := by
  unfold nameOf
  split
  · rename_i equal
    simp [equal]
  · rename_i differ
    rw [Bool.eq_false_iff.mpr differ]
    split
    · simp
    · split
      · simp
      · split <;> simp

theorem comparesEqual_sizeCells
    (notAddress : comparesEqual mem (.pointer name) "#address-cells" 14 = false) :
    comparesEqual mem (.pointer name) "#size-cells" 11 =
      decide (nameOf mem name = .sizeCells) := by
  unfold nameOf
  rw [notAddress, if_neg Bool.false_ne_true]
  split
  · rename_i equal
    simp [equal]
  · rename_i differ
    rw [Bool.eq_false_iff.mpr differ]
    split
    · simp
    · split <;> simp

/-- No cell count is named like a node property: the first characters differ. -/
theorem comparesEqual_cells_false {text : String} {n : Nat} (positive : 0 < n)
    (first : literalByte text 0 ≠ literalByte "#address-cells" 0)
    (equal : comparesEqual mem (.pointer name) text n = true) :
    comparesEqual mem (.pointer name) "#address-cells" 14 = false ∧
      comparesEqual mem (.pointer name) "#size-cells" 11 = false := by
  have same : literalByte "#size-cells" 0 = literalByte "#address-cells" 0 := by decide
  constructor <;> rw [Bool.eq_false_iff] <;> intro cells
  · exact first (comparesEqual_exclusive equal cells positive (by decide))
  · exact first ((comparesEqual_exclusive equal cells positive (by decide)).trans same)

theorem comparesEqual_deviceType :
    comparesEqual mem (.pointer name) "device_type" 11 =
      decide (nameOf mem name = .deviceType) := by
  cases equal : comparesEqual mem (.pointer name) "device_type" 11 with
  | true =>
      obtain ⟨address, size⟩ := comparesEqual_cells_false (by decide) (by decide) equal
      simp [nameOf, address, size, equal]
  | false =>
      unfold nameOf
      rw [equal, if_neg Bool.false_ne_true]
      split
      · simp
      · split
        · simp
        · split <;> simp

theorem comparesEqual_reg :
    comparesEqual mem (.pointer name) "reg" 3 = decide (nameOf mem name = .reg) := by
  cases equal : comparesEqual mem (.pointer name) "reg" 3 with
  | true =>
      obtain ⟨address, size⟩ := comparesEqual_cells_false (by decide) (by decide) equal
      have device : comparesEqual mem (.pointer name) "device_type" 11 = false := by
        rw [Bool.eq_false_iff]
        intro device
        exact absurd (comparesEqual_exclusive equal device (by decide) (by decide)) (by decide)
      simp [nameOf, address, size, device, equal]
  | false =>
      unfold nameOf
      rw [equal, if_neg Bool.false_ne_true]
      split
      · simp
      · split
        · simp
        · split <;> simp

end Names

/-- The name of the node opened last is empty, which the walk takes for the root. -/
def Walk.nameEmpty (mem : Memory) (s : Walk) : Bool := comparesEqual mem s.nodeName "" 0

/-- A cell count is saved only if it is a 32-bit integer. -/
def CellsFit (mem : Memory) (kind : PropertyName) (p : Property) (s : Walk) : Prop :=
  s.nameEmpty mem = true → kind.IsCells → p.length = 4

instance (mem : Memory) (kind : PropertyName) (p : Property) (s : Walk) :
    Decidable (CellsFit mem kind p s) := by
  unfold CellsFit; infer_instance

/-- The walk after the cell counts of the root are saved. -/
def Walk.withCells (mem : Memory) (kind : PropertyName) (s : Walk) : Walk :=
  { s with
    addressCellsInitialized :=
      s.addressCellsInitialized || (s.nameEmpty mem && kind == .addressCells)
    sizeCellsInitialized :=
      s.sizeCellsInitialized || (s.nameEmpty mem && kind == .sizeCells) }

/-- The record after the cell counts of the root are saved. -/
def HardwareInfo.withCells (mem : Memory) (kind : PropertyName) (p : Property) (s : Walk)
    (info : HardwareInfo) : HardwareInfo :=
  if s.nameEmpty mem && kind == .addressCells then info.setAddressCells (be32 mem p.data)
  else if s.nameEmpty mem && kind == .sizeCells then info.setSizeCells (be32 mem p.data)
  else info

/-- Only a cell count under an empty node name is saved. -/
theorem withCells_of_not {mem : Memory} {kind : PropertyName} {p : Property} {s : Walk}
    {info : HardwareInfo} (unsaved : s.nameEmpty mem = true → ¬ kind.IsCells) :
    s.withCells mem kind = s ∧ info.withCells mem kind p s = info := by
  have address : (s.nameEmpty mem && kind == .addressCells) = false := by
    rw [Bool.eq_false_iff, ne_eq, Bool.and_eq_true, beq_iff_eq]
    exact fun ⟨empty, eq⟩ => unsaved empty (Or.inl eq)
  have size : (s.nameEmpty mem && kind == .sizeCells) = false := by
    rw [Bool.eq_false_iff, ne_eq, Bool.and_eq_true, beq_iff_eq]
    exact fun ⟨empty, eq⟩ => unsaved empty (Or.inr eq)
  simp [Walk.withCells, HardwareInfo.withCells, address, size]

/-- The property is a `device_type` whose value is "memory". -/
def IsMemoryType (mem : Memory) (kind : PropertyName) (p : Property) : Bool :=
  kind == .deviceType && p.length == 7 && comparesEqual mem (.pointer p.dataBytes) "memory" 6

/-- The walk after the node context is updated. -/
def Walk.withContext (mem : Memory) (kind : PropertyName) (p : Property) (s : Walk) : Walk :=
  if IsMemoryType mem kind p then
    { s with currentNodeDeviceType := .literal "memory" }
  else if kind = .reg then
    { s with currentNodeReg := p.dataBytes, currentNodeRegSize := p.length }
  else s

/-- The node context asks for its regions to be decoded. -/
def Walk.Decodes (mem : Memory) (s : Walk) : Prop :=
  s.currentNodeReg.address ≠ 0 ∧
    comparesEqual mem s.currentNodeDeviceType "memory" 6 = true

instance (mem : Memory) (s : Walk) : Decidable (s.Decodes mem) := by
  unfold Walk.Decodes; infer_instance

/-- The panics on a cell count that is not a 32-bit integer. -/
def widthPanics : List String :=
  ["Malformed DTB: #address-cells value is not 32-bit",
    "Malformed DTB: #size-cells value is not 32-bit"]

/-- The panic on a memory node that comes before the cell counts. -/
def cellsPanic : String :=
  "Malformed DTB: must initialize both address cells and size cells before reading memory reg"

/-- The last index of a property name that is certain to be read: the walk compares
with "#address-cells" first if the node name is empty, else with "device_type". -/
def nameReach (rootName : Bool) : Nat := if rootName then 14 else 11

/-- What saving a property emits. -/
inductive SaveEvent (mem : Memory) (name : Pointer) (p : Property) (s : Walk) : Event → Prop
  | nodeName {e : Event} : e ∈ charRead s.nodeName 0 → SaveEvent mem name p s e
  | name {i : Nat} : i ≤ nameReach (s.nameEmpty mem) →
    SaveEvent mem name p s (.read (name.offset (UInt64.ofNat i)))
  | value {i : Nat} : i < p.length.toNat →
    SaveEvent mem name p s (.read (p.dataBytes.offset (UInt64.ofNat i)))
  | storeAddressCells : SaveEvent mem name p s (.store .addressCells)
  | storeSizeCells : SaveEvent mem name p s (.store .sizeCells)
  | print {text : String} : SaveEvent mem name p s (.print text)
  | panic {message : String} : message ∈ widthPanics → SaveEvent mem name p s (.panic message)

section Save

variable {env : Env} {info : HardwareInfo} {name : Pointer} {p : Property} {s : Walk}

theorem saveEvent_of_panics {message : String} {e : Stop} {evs : List Event}
    (panics : Panics env message e evs) (known : message ∈ widthPanics) :
    ∀ event ∈ evs, SaveEvent env.memory name p s event := by
  intro event member
  rcases panics.output event member with rfl | rfl | rfl
  · exact .panic known
  · exact .print
  · exact .print

theorem saveEvent_of_name {n : Nat} {evs : List Event}
    (reads : ∀ e ∈ evs, ∃ j ≤ n, e ∈ charRead (.pointer name) j)
    (reach : n ≤ nameReach (s.nameEmpty env.memory)) :
    ∀ e ∈ evs, SaveEvent env.memory name p s e := by
  intro e member
  obtain ⟨j, le, read⟩ := reads e member
  rw [charRead, List.mem_singleton] at read
  subst read
  exact .name (Nat.le_trans le reach)

/-- How saving the cell counts ends. -/
inductive CellsEnd (env : Env) (kind : PropertyName) (p : Property) (s : Walk)
    (info : HardwareInfo) : Except Stop Walk → HardwareInfo → List Event → Prop
  | saved {evs : List Event} : CellsFit env.memory kind p s →
    CellsEnd env kind p s info (.ok (s.withCells env.memory kind))
      (info.withCells env.memory kind p s) evs
  | malformed {message : String} {e : Stop} {evs : List Event} :
    ¬ CellsFit env.memory kind p s → message ∈ widthPanics → .panic message ∈ evs →
    PanicStop env e → CellsEnd env kind p s info (.error e) info evs

theorem CellsEnd.mono {kind : PropertyName} {o : Except Stop Walk} {info' : HardwareInfo}
    {evs evs' : List Event} (ending : CellsEnd env kind p s info o info' evs)
    (sub : ∀ e ∈ evs, e ∈ evs') : CellsEnd env kind p s info o info' evs' := by
  cases ending with
  | saved fits => exact .saved fits
  | malformed wide known panic stop => exact .malformed wide known (sub _ panic) stop

theorem CellsEnd.unsaved {kind : PropertyName} {evs : List Event}
    (unsaved : s.nameEmpty env.memory = true → ¬ kind.IsCells) :
    CellsEnd env kind p s info (.ok s) info evs := by
  have same : s.withCells env.memory kind = s ∧ info.withCells env.memory kind p s = info :=
    withCells_of_not unsaved
  have saved : CellsEnd env kind p s info (.ok (s.withCells env.memory kind))
      (info.withCells env.memory kind p s) evs :=
    .saved fun empty cells => absurd cells (unsaved empty)
  rwa [same.1, same.2] at saved

/-- What `saveRootCells` does. -/
def CellsPost (env : Env) (name : Pointer) (p : Property) (s : Walk) (info : HardwareInfo) :
    Post HardwareInfo Stop Event Walk :=
  fun o info' evs =>
    CellsEnd env (nameOf env.memory name) p s info o info' evs ∧
    (∀ e ∈ evs, SaveEvent env.memory name p s e) ∧
    (s.nameEmpty env.memory = true → .read (name.offset (UInt64.ofNat 14)) ∈ evs)

/-- Saving one cell count, once its name has been recognised. -/
theorem saveCells_spec {message : String} {field : Field} {kind : PropertyName} {flags : Walk}
    (name : Pointer) (write : UInt32 → HardwareInfo → HardwareInfo)
    (rootName : s.nameEmpty env.memory = true) (known : message ∈ widthPanics)
    (cells : kind.IsCells)
    (stored : SaveEvent env.memory name p s (.store field))
    (saved : info.withCells env.memory kind p s = write (be32 env.memory p.data) info)
    (flagged : s.withCells env.memory kind = flags) :
    wp (do
        panicIf env (p.length ≠ 4) message
        let cells ← readBe32FromAddress env p.dataBytes
        store field (write cells)
        pure flags)
      (fun o info' evs => CellsEnd env kind p s info o info' evs ∧
        ∀ e ∈ evs, SaveEvent env.memory name p s e) info := by
  rw [wp_bind]
  refine wp_panicIf (fun wide e evs panics => ?_) (fun fits => ?_)
  · exact ⟨.malformed (fun fit => wide (fit rootName cells)) known panics.panic_mem
      panics.panicStop, saveEvent_of_panics panics known⟩
  have width : p.length = 4 := not_ne_iff.mp fits
  rw [seqPost_ok, wp_bind, wp_readBe32FromAddress, seqPost_ok, wp_bind, wp_store, seqPost_ok,
    wp_pure]
  constructor
  · rw [← flagged, show write (be32 env.memory p.dataBytes.address) info = _ from saved.symm]
    exact .saved fun _ _ => width
  · intro e member
    simp only [List.nil_append, List.append_nil, List.mem_append, List.mem_singleton] at member
    rcases member with read | rfl
    · obtain ⟨i, less, rfl⟩ := mem_byteReads.mp read
      exact .value (by rw [width]; exact less)
    · exact stored

theorem saveRootCells_spec :
    wp (saveRootCells env (.pointer name) p s) (CellsPost env name p s info) info := by
  rw [saveRootCells, wp_bind]
  apply wp_mono (stringCompareWithLength_spec _ _ _)
  intro o info' evs₀ post
  obtain ⟨rfl, rfl, -, nodeNameReads⟩ := post
  have nodeNameEvents : ∀ e ∈ evs₀, SaveEvent env.memory name p s e := by
    intro e member
    obtain ⟨j, le, read⟩ := nodeNameReads e member
    rw [Nat.le_zero.mp le] at read
    exact .nodeName read
  rw [seqPost_ok, wp_ite, ← Walk.nameEmpty]
  cases rootName : s.nameEmpty env.memory with
  | false =>
      rw [if_neg Bool.false_ne_true, wp_pure, List.append_nil]
      have named : s.nameEmpty env.memory ≠ true := by simp [rootName]
      exact ⟨.unsaved fun empty => absurd empty named, nodeNameEvents,
        fun empty => absurd empty named⟩
  | true =>
      have reach : nameReach (s.nameEmpty env.memory) = 14 := by rw [rootName]; rfl
      rw [if_pos rfl, wp_bind]
      apply wp_mono (stringCompareWithLength_spec _ _ _)
      intro o info₁ evs₁ post
      obtain ⟨rfl, rfl, last, nameReads⟩ := post
      have nameEvents := saveEvent_of_name (p := p) (s := s) nameReads (Nat.le_of_eq reach.symm)
      have lastRead : .read (name.offset (UInt64.ofNat 14)) ∈ evs₁ :=
        last _ List.mem_cons_self
      -- what is left to do after the comparison with "#address-cells"
      have combine : ∀ {o : Except Stop Walk} {info' : HardwareInfo} {evs : List Event},
          CellsEnd env (nameOf env.memory name) p s info₁ o info' evs →
          (∀ e ∈ evs, SaveEvent env.memory name p s e) →
          CellsPost env name p s info₁ o info' (evs₀ ++ (evs₁ ++ evs)) := by
        intro o info' evs ending events
        refine ⟨ending.mono fun e member => ?_, fun e member => ?_, fun _ => ?_⟩
        · exact List.mem_append_right _ (List.mem_append_right _ member)
        · rcases List.mem_append.mp member with first | later
          · exact nodeNameEvents e first
          · exact (List.mem_append.mp later).elim (nameEvents e) (events e)
        · exact List.mem_append_right _ (List.mem_append_left _ lastRead)
      rw [seqPost_ok, wp_ite]
      cases isAddress : comparesEqual env.memory (.pointer name) "#address-cells" 14 with
      | true =>
          have kind : nameOf env.memory name = .addressCells := by
            simpa [comparesEqual_addressCells] using isAddress
          rw [if_pos rfl]
          refine wp_mono (saveCells_spec name (fun cells info => info.setAddressCells cells)
            rootName (by simp [widthPanics]) (Or.inl rfl) .storeAddressCells
            (by simp [HardwareInfo.withCells, rootName])
            (by simp [Walk.withCells, rootName])) ?_
          intro o info' evs post
          obtain ⟨ending, events⟩ := post
          exact combine (kind ▸ ending) events
      | false =>
          rw [if_neg Bool.false_ne_true, wp_bind]
          apply wp_mono (stringCompareWithLength_spec _ _ _)
          intro o info₂ evs₂ post
          obtain ⟨rfl, rfl, -, sizeReads⟩ := post
          have sizeEvents := saveEvent_of_name (p := p) (s := s) sizeReads
            (by rw [reach]; decide)
          rw [seqPost_ok, wp_ite, comparesEqual_sizeCells isAddress]
          by_cases kind : nameOf env.memory name = .sizeCells
          · rw [decide_eq_true kind, if_pos rfl]
            refine wp_mono (saveCells_spec name (fun cells info => info.setSizeCells cells)
              rootName (by simp [widthPanics]) (Or.inr rfl) .storeSizeCells
              (by simp [HardwareInfo.withCells, rootName])
              (by simp [Walk.withCells, rootName])) ?_
            intro o info' evs post
            obtain ⟨ending, events⟩ := post
            refine combine ((kind ▸ ending).mono fun e => List.mem_append_right evs₂) ?_
            exact fun e member => (List.mem_append.mp member).elim (sizeEvents e) (events e)
          · rw [decide_eq_false kind, if_neg Bool.false_ne_true, wp_pure, List.append_nil]
            have notAddress : nameOf env.memory name ≠ .addressCells := by
              simpa [comparesEqual_addressCells] using isAddress
            exact combine (.unsaved fun _ cells => cells.elim notAddress kind) sizeEvents

/-- Saving the cell counts does not change the name of the node. -/
theorem SaveEvent.of_withCells {mem : Memory} {kind : PropertyName} {e : Event}
    (event : SaveEvent mem name p (s.withCells mem kind) e) : SaveEvent mem name p s e := by
  cases event with
  | nodeName read => exact .nodeName read
  | name le => exact .name le
  | value less => exact .value less
  | storeAddressCells => exact .storeAddressCells
  | storeSizeCells => exact .storeSizeCells
  | print => exact .print
  | panic known => exact .panic known

theorem saveNodeProperty_spec :
    wp (saveNodeProperty env (.pointer name) p s)
      (fun o info' evs =>
        o = .ok (s.withContext env.memory (nameOf env.memory name) p) ∧ info' = info ∧
        (∀ e ∈ evs, SaveEvent env.memory name p s e) ∧
        .read (name.offset (UInt64.ofNat 11)) ∈ evs) info := by
  rw [saveNodeProperty, wp_bind]
  apply wp_mono (stringCompareWithLength_spec _ _ _)
  intro o info' evs₀ post
  obtain ⟨rfl, rfl, last, nameReads⟩ := post
  have reach : 11 ≤ nameReach (s.nameEmpty env.memory) := by
    cases s.nameEmpty env.memory <;> decide
  have nameEvents := saveEvent_of_name (p := p) (s := s) nameReads reach
  have lastRead : .read (name.offset (UInt64.ofNat 11)) ∈ evs₀ := last _ List.mem_cons_self
  have combine : ∀ {evs : List Event}, (∀ e ∈ evs, SaveEvent env.memory name p s e) →
      ∀ e ∈ evs₀ ++ evs, SaveEvent env.memory name p s e := fun events e member =>
    (List.mem_append.mp member).elim (nameEvents e) (events e)
  rw [seqPost_ok, wp_ite, comparesEqual_deviceType]
  by_cases deviceType : nameOf env.memory name = .deviceType
  · rw [decide_eq_true deviceType, if_pos rfl, wp_ite]
    split
    · rename_i seven
      rw [wp_bind]
      apply wp_mono (stringCompareWithLength_spec _ _ _)
      intro o info₁ evs₁ post
      obtain ⟨rfl, rfl, -, valueReads⟩ := post
      have valueEvents : ∀ e ∈ evs₁, SaveEvent env.memory name p s e := by
        intro e member
        obtain ⟨j, le, read⟩ := valueReads e member
        rw [charRead, List.mem_singleton] at read
        subst read
        refine .value ?_
        rw [seven]
        exact Nat.lt_succ_of_le le
      rw [seqPost_ok, wp_ite]
      split
      · rename_i memory
        rw [wp_pure, List.append_nil]
        refine ⟨?_, rfl, combine valueEvents, List.mem_append_left _ lastRead⟩
        simp [Walk.withContext, IsMemoryType, deviceType, seven, memory]
      · rename_i other
        rw [wp_pure, List.append_nil]
        refine ⟨?_, rfl, combine valueEvents, List.mem_append_left _ lastRead⟩
        simp [Walk.withContext, IsMemoryType, deviceType, other]
    · rename_i notSeven
      rw [wp_pure, List.append_nil]
      refine ⟨?_, rfl, nameEvents, lastRead⟩
      simp [Walk.withContext, IsMemoryType, deviceType, notSeven]
  · rw [decide_eq_false deviceType, if_neg Bool.false_ne_true, wp_bind]
    apply wp_mono (stringCompareWithLength_spec _ _ _)
    intro o info₁ evs₁ post
    obtain ⟨rfl, rfl, -, regReads⟩ := post
    have regEvents := saveEvent_of_name (p := p) (s := s) regReads
      (Nat.le_trans (by decide) reach)
    rw [seqPost_ok, wp_ite, comparesEqual_reg]
    by_cases reg : nameOf env.memory name = .reg
    · rw [decide_eq_true reg, if_pos rfl, wp_pure, List.append_nil]
      refine ⟨?_, rfl, combine regEvents, List.mem_append_left _ lastRead⟩
      simp [Walk.withContext, IsMemoryType, reg]
    · rw [decide_eq_false reg, if_neg Bool.false_ne_true, wp_pure, List.append_nil]
      refine ⟨?_, rfl, combine regEvents, List.mem_append_left _ lastRead⟩
      simp [Walk.withContext, IsMemoryType, deviceType, reg]

end Save

/-! ## Decoding the node context -/

/-- What deciding on the node context emits. -/
inductive NodeEvent (mem : Memory) (s : Walk) (info : HardwareInfo) : Event → Prop
  | compare : s.currentNodeReg.address ≠ 0 →
    NodeEvent mem s info (.compareDeviceType s.currentNodeDeviceType)
  | deviceType {i : Nat} {e : Event} : s.currentNodeReg.address ≠ 0 → i ≤ 6 →
    e ∈ charRead s.currentNodeDeviceType i → NodeEvent mem s info e
  | decode : s.Decodes mem → s.addressCellsInitialized ∧ s.sizeCellsInitialized →
    NodeEvent mem s info (.decodeRegions info.addressCells info.sizeCells s.currentNodeReg
      s.currentNodeRegSize.toUInt64)
  | reg {e : Event} : s.Decodes mem → s.addressCellsInitialized ∧ s.sizeCellsInitialized →
    RegEvent s.currentNodeReg s.currentNodeRegSize.toNat e → NodeEvent mem s info e
  | print {text : String} : NodeEvent mem s info (.print text)
  | panic : NodeEvent mem s info (.panic cellsPanic)

/-- How deciding on the node context ends. -/
inductive NodeEnd (env : Env) (s : Walk) (info : HardwareInfo) :
    Except Stop Unit → HardwareInfo → List Event → Prop
  | skipped {evs : List Event} : ¬ s.Decodes env.memory → NodeEnd env s info (.ok ()) info evs
  | uninitialized {e : Stop} {evs : List Event} : s.Decodes env.memory →
    ¬ (s.addressCellsInitialized ∧ s.sizeCellsInitialized) → .panic cellsPanic ∈ evs →
    PanicStop env e → NodeEnd env s info (.error e) info evs
  | regions {o : Except Stop Unit} {info' : HardwareInfo} {evs : List Event} :
    s.Decodes env.memory → s.addressCellsInitialized ∧ s.sizeCellsInitialized →
    RegionsEnd env info info.addressCells info.sizeCells s.currentNodeReg.address
      s.currentNodeRegSize.toUInt64 o info' evs →
    NodeEnd env s info o info' evs

section Decode

variable {env : Env} {info : HardwareInfo} {s : Walk}

theorem RegionsEnd.mono {addressCells sizeCells : UInt32} {reg regSize : UInt64}
    {o : Except Stop Unit} {info' : HardwareInfo} {evs evs' : List Event}
    (ending : RegionsEnd env info addressCells sizeCells reg regSize o info' evs)
    (sub : ∀ e ∈ evs, e ∈ evs') :
    RegionsEnd env info addressCells sizeCells reg regSize o info' evs' := by
  cases ending with
  | decoded accepted => exact .decoded accepted
  | rejected bad known panic outcome halted same =>
      exact .rejected bad known (sub _ panic) outcome halted same

theorem NodeEnd.mono {o : Except Stop Unit} {info' : HardwareInfo} {evs evs' : List Event}
    (ending : NodeEnd env s info o info' evs) (sub : ∀ e ∈ evs, e ∈ evs') :
    NodeEnd env s info o info' evs' := by
  cases ending with
  | skipped skip => exact .skipped skip
  | uninitialized decodes bare panic stop => exact .uninitialized decodes bare (sub _ panic) stop
  | regions decodes cells ending => exact .regions decodes cells (ending.mono sub)

/-- What `decodeNode` does. -/
structure NodePost (env : Env) (s : Walk) (info : HardwareInfo) (o : Except Stop Unit)
    (info' : HardwareInfo) (evs : List Event) : Prop where
  ending : NodeEnd env s info o info' evs
  events : ∀ e ∈ evs, NodeEvent env.memory s info e
  compared : s.currentNodeReg.address ≠ 0 →
    .compareDeviceType s.currentNodeDeviceType ∈ evs
  decoded : s.Decodes env.memory → s.addressCellsInitialized ∧ s.sizeCellsInitialized →
    .decodeRegions info.addressCells info.sizeCells s.currentNodeReg
      s.currentNodeRegSize.toUInt64 ∈ evs

theorem decodeNode_spec : wp (decodeNode env s) (NodePost env s info) info := by
  rw [decodeNode, wp_ite]
  split
  rotate_left
  · rename_i noReg
    have skip : ¬ s.Decodes env.memory := fun decodes => noReg decodes.1
    exact ⟨.skipped skip, (List.forall_mem_nil _), fun reg => absurd reg noReg,
      fun decodes => absurd decodes skip⟩
  rename_i reg
  rw [wp_bind, wp_emit, seqPost_ok, wp_bind]
  apply wp_mono (stringCompareWithLength_spec _ _ _)
  intro o info' evs₀ post
  obtain ⟨rfl, rfl, -, reads⟩ := post
  have compared : ∀ {evs : List Event}, .compareDeviceType s.currentNodeDeviceType ∈
      [Event.compareDeviceType s.currentNodeDeviceType] ++ (evs₀ ++ evs) :=
    List.mem_append_left _ List.mem_cons_self
  have combine : ∀ {evs : List Event}, (∀ e ∈ evs, NodeEvent env.memory s info' e) →
      ∀ e ∈ [Event.compareDeviceType s.currentNodeDeviceType] ++ (evs₀ ++ evs),
        NodeEvent env.memory s info' e := by
    intro evs events e member
    rcases List.mem_append.mp member with first | later
    · rw [List.mem_singleton.mp first]
      exact .compare reg
    rcases List.mem_append.mp later with read | last
    · obtain ⟨i, le, read⟩ := reads e read
      exact .deviceType reg le read
    · exact events e last
  rw [seqPost_ok, wp_ite]
  split
  rotate_left
  · rename_i other
    have skip : ¬ s.Decodes env.memory := fun decodes => other decodes.2
    exact ⟨.skipped skip, combine (List.forall_mem_nil _), fun _ => compared,
      fun decodes => absurd decodes skip⟩
  rename_i memory
  have decodes : s.Decodes env.memory := ⟨reg, memory⟩
  rw [wp_ite]
  split
  · rename_i cells
    rw [wp_bind, wp_current, seqPost_ok]
    apply wp_mono (physicalMemoryRegions_spec _ _ _ _)
    intro o info₁ evs₁ post
    obtain ⟨decoded, events, ending⟩ := post
    refine ⟨.regions decodes cells (ending.mono fun e member => ?_), ?_, fun _ => compared,
      fun _ _ => ?_⟩
    · exact List.mem_append_right _ (List.mem_append_right _ member)
    · refine combine fun e member => ?_
      rcases events e member with rfl | inner
      · exact .decode decodes cells
      · exact .reg decodes cells (by rwa [UInt32.toNat_toUInt64] at inner)
    · exact List.mem_append_right _ (List.mem_append_right _ decoded)
  · rename_i bare
    apply wp_mono (panicReturn_spec _)
    intro o info₁ evs₁ post
    obtain ⟨e, rfl, rfl, panics⟩ := post
    refine ⟨.uninitialized decodes bare ?_ panics.panicStop, ?_, fun _ => compared,
      fun _ cells => absurd cells bare⟩
    · exact List.mem_append_right _ (List.mem_append_right _ panics.panic_mem)
    · refine combine fun event member => ?_
      rcases panics.output event member with rfl | rfl | rfl
      · exact .panic
      · exact .print
      · exact .print

end Decode

/-! ## The whole property -/

/-- The walk after a property of the given name. -/
def Walk.withProperty (mem : Memory) (kind : PropertyName) (p : Property) (s : Walk) : Walk :=
  (s.withCells mem kind).withContext mem kind p

section Fields

variable {mem : Memory} {kind : PropertyName} {p : Property} {s : Walk}

/-- A field that the node context does not touch. -/
theorem Walk.withContext_field {α : Type} (field : Walk → α)
    (deviceType : ∀ s text, field { s with currentNodeDeviceType := text } = field s)
    (reg : ∀ s reg size, field { s with currentNodeReg := reg, currentNodeRegSize := size } =
      field s) : field (s.withContext mem kind p) = field s := by
  unfold Walk.withContext
  split
  · exact deviceType s _
  · split
    · exact reg s _ _
    · rfl

@[simp] theorem Walk.nodeName_withProperty :
    (s.withProperty mem kind p).nodeName = s.nodeName :=
  withContext_field Walk.nodeName (fun _ _ => rfl) (fun _ _ _ => rfl)

@[simp] theorem Walk.nodeDepth_withProperty :
    (s.withProperty mem kind p).nodeDepth = s.nodeDepth :=
  withContext_field Walk.nodeDepth (fun _ _ => rfl) (fun _ _ _ => rfl)

@[simp] theorem Walk.endTokensEncountered_withProperty :
    (s.withProperty mem kind p).endTokensEncountered = s.endTokensEncountered :=
  withContext_field Walk.endTokensEncountered (fun _ _ => rfl) (fun _ _ _ => rfl)

@[simp] theorem Walk.dtbCursor_withProperty :
    (s.withProperty mem kind p).dtbCursor = s.dtbCursor :=
  withContext_field Walk.dtbCursor (fun _ _ => rfl) (fun _ _ _ => rfl)

@[simp] theorem Walk.addressCellsInitialized_withProperty :
    (s.withProperty mem kind p).addressCellsInitialized =
      (s.addressCellsInitialized || (s.nameEmpty mem && kind == .addressCells)) :=
  withContext_field Walk.addressCellsInitialized (fun _ _ => rfl) (fun _ _ _ => rfl)

@[simp] theorem Walk.sizeCellsInitialized_withProperty :
    (s.withProperty mem kind p).sizeCellsInitialized =
      (s.sizeCellsInitialized || (s.nameEmpty mem && kind == .sizeCells)) :=
  withContext_field Walk.sizeCellsInitialized (fun _ _ => rfl) (fun _ _ _ => rfl)

/-- A property is not both a `device_type` and a `reg`. -/
theorem kind_ne_reg_of_isMemoryType (memory : IsMemoryType mem kind p = true) :
    kind ≠ .reg := by
  simp only [IsMemoryType, Bool.and_eq_true, beq_iff_eq] at memory
  rw [memory.1.1]
  decide

@[simp] theorem Walk.currentNodeReg_withProperty :
    (s.withProperty mem kind p).currentNodeReg =
      if kind = .reg then p.dataBytes else s.currentNodeReg := by
  unfold Walk.withProperty Walk.withContext
  split
  · rename_i memory
    rw [if_neg (kind_ne_reg_of_isMemoryType memory)]
    rfl
  · split
    · rfl
    · rfl

@[simp] theorem Walk.currentNodeRegSize_withProperty :
    (s.withProperty mem kind p).currentNodeRegSize =
      if kind = .reg then p.length else s.currentNodeRegSize := by
  unfold Walk.withProperty Walk.withContext
  split
  · rename_i memory
    rw [if_neg (kind_ne_reg_of_isMemoryType memory)]
    rfl
  · split
    · rfl
    · rfl

@[simp] theorem Walk.currentNodeDeviceType_withProperty :
    (s.withProperty mem kind p).currentNodeDeviceType =
      if IsMemoryType mem kind p then .literal "memory" else s.currentNodeDeviceType := by
  unfold Walk.withProperty Walk.withContext
  split
  · rfl
  · split
    · rfl
    · rfl

end Fields

/-- The panics a property can raise once its token has been read. -/
def propertyPanics : List String := widthPanics ++ cellsPanic :: regPanics

/-- What handling a property emits. -/
def HandleEvent (mem : Memory) (name : Pointer) (p : Property) (s : Walk)
    (info : HardwareInfo) (e : Event) : Prop :=
  SaveEvent mem name p s e ∨
    CellsFit mem (nameOf mem name) p s ∧
      NodeEvent mem (s.withProperty mem (nameOf mem name) p)
        (info.withCells mem (nameOf mem name) p s) e

/-- How handling a property ends. -/
inductive HandleEnd (env : Env) (kind : PropertyName) (p : Property) (s : Walk)
    (info : HardwareInfo) : Except Stop Walk → HardwareInfo → List Event → Prop
  | malformed {message : String} {e : Stop} {evs : List Event} :
    ¬ CellsFit env.memory kind p s → message ∈ widthPanics → .panic message ∈ evs →
    PanicStop env e → HandleEnd env kind p s info (.error e) info evs
  | stopped {e : Stop} {info' : HardwareInfo} {evs : List Event} :
    CellsFit env.memory kind p s →
    NodeEnd env (s.withProperty env.memory kind p) (info.withCells env.memory kind p s)
      (.error e) info' evs →
    HandleEnd env kind p s info (.error e) info' evs
  | handled {info' : HardwareInfo} {evs : List Event} : CellsFit env.memory kind p s →
    NodeEnd env (s.withProperty env.memory kind p) (info.withCells env.memory kind p s)
      (.ok ()) info' evs →
    HandleEnd env kind p s info (.ok (s.withProperty env.memory kind p)) info' evs

/-- What `handleProperty` does. -/
structure HandlePost (env : Env) (name : Pointer) (p : Property) (s : Walk)
    (info : HardwareInfo) (o : Except Stop Walk) (info' : HardwareInfo) (evs : List Event) :
    Prop where
  ending : HandleEnd env (nameOf env.memory name) p s info o info' evs
  events : ∀ e ∈ evs, HandleEvent env.memory name p s info e
  nameRead :
    .read (name.offset (UInt64.ofNat (nameReach (s.nameEmpty env.memory)))) ∈ evs
  compared : CellsFit env.memory (nameOf env.memory name) p s →
    (s.withProperty env.memory (nameOf env.memory name) p).currentNodeReg.address ≠ 0 →
    .compareDeviceType
      (s.withProperty env.memory (nameOf env.memory name) p).currentNodeDeviceType ∈ evs
  decoded : CellsFit env.memory (nameOf env.memory name) p s →
    (s.withProperty env.memory (nameOf env.memory name) p).Decodes env.memory →
    (s.withProperty env.memory (nameOf env.memory name) p).addressCellsInitialized ∧
      (s.withProperty env.memory (nameOf env.memory name) p).sizeCellsInitialized →
    .decodeRegions (info.withCells env.memory (nameOf env.memory name) p s).addressCells
      (info.withCells env.memory (nameOf env.memory name) p s).sizeCells
      (s.withProperty env.memory (nameOf env.memory name) p).currentNodeReg
      (s.withProperty env.memory (nameOf env.memory name) p).currentNodeRegSize.toUInt64 ∈ evs

section Handle

variable {env : Env} {info : HardwareInfo} {dtb : UInt64} {p : Property} {s : Walk}

theorem handleProperty_spec :
    wp (handleProperty env dtb p s)
      (HandlePost env (propName dtb info.header p.nameOffset) p s info) info := by
  rw [handleProperty, wp_bind, wp_current, seqPost_ok]
  dsimp only
  rw [wp_bind]
  apply wp_mono saveRootCells_spec
  intro o info' evs₀ post
  obtain ⟨ending, cellsEvents, reach⟩ := post
  cases ending with
  | malformed wide known panic stop =>
      rw [seqPost_error]
      have empty : s.nameEmpty env.memory = true := by
        by_contra named
        exact wide fun empty => absurd empty named
      refine ⟨.malformed wide known panic stop, fun e member => Or.inl (cellsEvents e member),
        ?_, fun fits => absurd fits wide, fun fits => absurd fits wide⟩
      rw [empty]
      exact reach empty
  | saved fits =>
      rw [seqPost_ok, wp_bind]
      apply wp_mono saveNodeProperty_spec
      intro o info₁ evs₁ post
      obtain ⟨rfl, rfl, nodeEvents, nameRead⟩ := post
      have last : .read ((propName dtb info.header p.nameOffset).offset
          (UInt64.ofNat (nameReach (s.nameEmpty env.memory)))) ∈ evs₀ ++ evs₁ := by
        cases empty : s.nameEmpty env.memory with
        | true => exact List.mem_append_left _ (reach empty)
        | false => exact List.mem_append_right _ nameRead
      have events : ∀ e ∈ evs₀ ++ evs₁,
          SaveEvent env.memory (propName dtb info.header p.nameOffset) p s e := by
        intro e member
        rcases List.mem_append.mp member with first | later
        · exact cellsEvents e first
        · exact (nodeEvents e later).of_withCells
      rw [seqPost_ok, wp_bind, ← Walk.withProperty]
      apply wp_mono decodeNode_spec
      intro o info' evs₂ post
      have inner : ∀ e ∈ evs₂, e ∈ evs₀ ++ (evs₁ ++ evs₂) := fun e member =>
        List.mem_append_right _ (List.mem_append_right _ member)
      have whole : ∀ e ∈ evs₀ ++ (evs₁ ++ evs₂),
          HandleEvent env.memory (propName dtb info.header p.nameOffset) p s info e := by
        intro e member
        rw [← List.append_assoc] at member
        exact (List.mem_append.mp member).imp (events e) fun later =>
          ⟨fits, post.events e later⟩
      have nameRead' := List.mem_append_left evs₂ last
      rw [List.append_assoc] at nameRead'
      cases o with
      | error e =>
          rw [seqPost_error]
          exact ⟨.stopped fits (post.ending.mono inner), whole, nameRead',
            fun _ reg => inner _ (post.compared reg),
            fun _ decodes cells => inner _ (post.decoded decodes cells)⟩
      | ok =>
          rw [seqPost_ok, wp_pure, List.append_nil]
          exact ⟨.handled fits (post.ending.mono inner), whole, nameRead',
            fun _ reg => inner _ (post.compared reg),
            fun _ decodes cells => inner _ (post.decoded decodes cells)⟩

end Handle

end CharcoalOS
