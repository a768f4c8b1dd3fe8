import CharcoalOS.Hardware.Flattening

/-!
# A flattened tree is read back

What a `TreeSource` says of the hardware is said here without a parser: the cell counts of
its root, and the regions in the `reg` of a node that is memory. `flatten_round_trip` is the
parser on the tree as it is written: it accepts the trees that are understood, and no
others, and leaves in the record what the tree says.
-/

namespace CharcoalOS

open Effect Effect.Program Nesting

/-! ## What a tree says -/

/-- The number in a cell. -/
def cellOf (value : List UInt8) : UInt32 := be32 (valueMemory value) 0

namespace SourceNode

/-- The `reg` encodes the regions: 1 to 16 regions that fit the cells, have bytes, and end below
2^64. -/
structure Describes (node : SourceNode) (addressCells sizeCells : UInt32)
    (regions : List MemoryRegion) : Prop where
  addressWidth : addressCells = 1 ∨ addressCells = 2
  sizeWidth : sizeCells = 1 ∨ sizeCells = 2
  nonempty : regions ≠ []
  atMost : regions.length ≤ 16
  fits : ∀ region ∈ regions,
    FitsCells addressCells region.baseAddress ∧ FitsCells sizeCells region.size
  valid : ∀ region ∈ regions, region.Valid
  reg : node.value "reg" = some (encodeReg addressCells sizeCells regions)

/-- The cell counts are known, and the `reg` is one in these cells. -/
def Understood (addressCells sizeCells : Option UInt32) (node : SourceNode) : Prop :=
  ∃ a s regions, addressCells = some a ∧ sizeCells = some s ∧ node.Describes a s regions

end SourceNode

namespace TreeSource

def addressCells (t : TreeSource) : Option UInt32 := (t.root.value "#address-cells").map cellOf

def sizeCells (t : TreeSource) : Option UInt32 := (t.root.value "#size-cells").map cellOf

/-- The memory nodes, in the order in which they are written. -/
def memoryNodes (t : TreeSource) : List SourceNode := t.tree.preorder.filter SourceNode.isMemory

/-- The cell counts of the root are 32-bit numbers, and every memory node is understood. -/
structure Understood (t : TreeSource) : Prop where
  addressCells : ∀ value, t.root.value "#address-cells" = some value → value.length = 4
  sizeCells : ∀ value, t.root.value "#size-cells" = some value → value.length = 4
  memory : ∀ node ∈ t.memoryNodes, node.Understood t.addressCells t.sizeCells

/-- The record says what the tree says, and is as `prior` where the tree says nothing. Of more
memory nodes than one it has the last. -/
structure RecordedIn (t : TreeSource) (prior info : HardwareInfo) : Prop where
  addressCells : info.addressCells = t.addressCells.getD prior.addressCells
  sizeCells : info.sizeCells = t.sizeCells.getD prior.sizeCells
  regions : ∀ node a s regions, t.memoryNodes.getLast? = some node → t.addressCells = some a →
    t.sizeCells = some s → node.Describes a s regions →
    info.physicalMemoryRegionCount = UInt64.ofNat regions.length ∧
      info.physicalMemoryRegions.toList.take regions.length = regions
  noRegions : t.memoryNodes = [] → info.physicalMemoryRegions = prior.physicalMemoryRegions ∧
    info.physicalMemoryRegionCount = prior.physicalMemoryRegionCount
  reservedCount : info.reservedRegionsCount = UInt64.ofNat t.reserved.length
  reserved : ∀ i (lt : i < 255) (less : i < t.reserved.length),
    (info.reservedRegionBaseAddresses[i], info.reservedRegionSizes[i]) = t.reserved[i]

end TreeSource

/-! ## The properties of a node -/

section Properties

variable {d : Discovered} {ps : List (List UInt8 × List UInt8)} {name value : List UInt8}

theorem nameKind_iff :
    (nameKind name = .addressCells ↔ name = chars (cString "#address-cells")) ∧
      (nameKind name = .sizeCells ↔ name = chars (cString "#size-cells")) ∧
      (nameKind name = .deviceType ↔ name = chars (cString "device_type")) ∧
      (nameKind name = .reg ↔ name = chars (cString "reg")) := by
  have : chars (cString "#address-cells") ≠ chars (cString "#size-cells") := by decide
  have : chars (cString "#address-cells") ≠ chars (cString "device_type") := by decide
  have : chars (cString "#address-cells") ≠ chars (cString "reg") := by decide
  have : chars (cString "#size-cells") ≠ chars (cString "device_type") := by decide
  have : chars (cString "#size-cells") ≠ chars (cString "reg") := by decide
  have : chars (cString "device_type") ≠ chars (cString "reg") := by decide
  unfold nameKind
  grind

theorem lookup_eq_some_iff_mem (distinct : (ps.map Prod.fst).Nodup) :
    ps.lookup name = some value ↔ (name, value) ∈ ps := by
  induction ps with
  | nil => simp
  | cons p ps ih =>
      obtain ⟨absent, distinct⟩ := List.nodup_cons.mp distinct
      rw [List.lookup_cons, List.mem_cons]
      by_cases same : name = p.1
      · subst same
        rw [BEq.rfl]
        constructor
        · intro eq
          cases eq
          exact .inl rfl
        · rintro (eq | later)
          · rw [← eq]
          · exact absurd (List.mem_map_of_mem (f := Prod.fst) later) absent
      · rw [beq_false_of_ne same, ih distinct]
        refine ⟨.inr, fun either => either.resolve_left fun eq => same ?_⟩
        rw [← eq]

theorem saved_cons {p : List UInt8 × List UInt8} :
    d.saved (propertyItems (p :: ps)) =
      (d.withProperty p.1 p.2).saved (propertyItems ps) := rfl

/-- What one property sets, and others leave, is set by the property of that name. -/
theorem saved_field {β : Type} {f : Discovered → β} {g : List UInt8 → β → β} (key : List UInt8)
    (sets : ∀ d name value,
      f (Discovered.withProperty d name value) = if name = key then g value (f d) else f d)
    (distinct : (ps.map Prod.fst).Nodup) :
    f (d.saved (propertyItems ps)) = (ps.lookup key).elim (f d) (g · (f d)) := by
  induction ps generalizing d with
  | nil => rfl
  | cons p ps ih =>
      obtain ⟨absent, distinct⟩ := List.nodup_cons.mp distinct
      rw [saved_cons, ih distinct, sets, List.lookup_cons]
      by_cases same : p.1 = key
      · have none : ps.lookup key = none := by
          rw [List.lookup_eq_none_iff]
          intro q member
          refine bne_iff_ne.mpr fun eq => absent ?_
          rw [same, eq]
          exact List.mem_map_of_mem member
        rw [none, if_pos same, same, BEq.rfl]
        rfl
      · rw [if_neg same, beq_false_of_ne (Ne.symm same)]

variable (d) (distinct : (ps.map Prod.fst).Nodup)

/-- What no property sets is as it was. -/
theorem saved_rest (ps : List (List UInt8 × List UInt8)) :
    (d.saved (propertyItems ps)).depth = d.depth ∧
      (d.saved (propertyItems ps)).nameEmpty = d.nameEmpty ∧
      (d.saved (propertyItems ps)).regions = d.regions := by
  induction ps generalizing d with
  | nil => exact ⟨rfl, rfl, rfl⟩
  | cons p ps ih => exact ih (d.withProperty p.1 p.2)

include distinct

theorem saved_reg :
    (d.saved (propertyItems ps)).reg = (ps.lookup (chars (cString "reg"))).or d.reg := by
  rw [saved_field (f := Discovered.reg) (g := fun value _ => some value) _ ?_ distinct]
  · cases ps.lookup (chars (cString "reg")) <;> rfl
  · intro d name value
    simp only [Discovered.withProperty, nameKind_iff.2.2.2]

theorem saved_memory :
    (d.saved (propertyItems ps)).memory = (d.memory ||
      ps.lookup (chars (cString "device_type")) == some (cString "memory")) := by
  rw [saved_field (f := Discovered.memory)
    (g := fun value memory => memory || value == cString "memory") _ ?_ distinct]
  · cases ps.lookup (chars (cString "device_type")) with
    | none => exact (Bool.or_false _).symm
    | some value => rfl
  · intro d name value
    simp only [Discovered.withProperty, ← nameKind_iff.2.2.1]
    by_cases kind : nameKind name = .deviceType
    · simp [kind]
    · simp [kind]

theorem saved_addressCells :
    (d.saved (propertyItems ps)).addressCells =
      if d.nameEmpty then
        ((ps.lookup (chars (cString "#address-cells"))).map cellOf).or d.addressCells
      else d.addressCells := by
  have both := saved_field (d := d) (f := fun d => (d.nameEmpty, d.addressCells))
    (g := fun value (known : Bool × Option UInt32) =>
      (known.1, if known.1 then some (cellOf value) else known.2))
    (chars (cString "#address-cells")) ?_ distinct
  · refine (congrArg Prod.snd both).trans ?_
    cases ps.lookup (chars (cString "#address-cells")) with
    | none => exact (ite_self _).symm
    | some value => rfl
  · intro d name value
    simp only [Discovered.withProperty, ← nameKind_iff.1]
    by_cases kind : nameKind name = .addressCells
    · simp [kind, cellOf]
    · simp [kind]

theorem saved_sizeCells :
    (d.saved (propertyItems ps)).sizeCells =
      if d.nameEmpty then
        ((ps.lookup (chars (cString "#size-cells"))).map cellOf).or d.sizeCells
      else d.sizeCells := by
  have both := saved_field (d := d) (f := fun d => (d.nameEmpty, d.sizeCells))
    (g := fun value (known : Bool × Option UInt32) =>
      (known.1, if known.1 then some (cellOf value) else known.2))
    (chars (cString "#size-cells")) ?_ distinct
  · refine (congrArg Prod.snd both).trans ?_
    cases ps.lookup (chars (cString "#size-cells")) with
    | none => exact (ite_self _).symm
    | some value => rfl
  · intro d name value
    simp only [Discovered.withProperty, ← nameKind_iff.2.1]
    by_cases kind : nameKind name = .sizeCells
    · simp [kind, cellOf]
    · simp [kind]

end Properties

/-! ## The `reg` of a node -/

/-- What the `reg` is decoded to in these cells. -/
def SourceNode.pairs (addressCells sizeCells : Option UInt32) (node : SourceNode) :
    List MemoryRegion :=
  match node.value "reg" with
  | none => []
  | some value =>
      regPairs (valueMemory value) (addressCells.getD 0) (sizeCells.getD 0) 0
        (UInt64.ofNat value.length)

section Reg

variable {node : SourceNode} {value : List UInt8} {a s : UInt32} {regions : List MemoryRegion}
  {d : Discovered}

theorem SourceNode.value_short {name : String} (has : node.value name = some value) :
    value.length < 2 ^ 32 :=
  node.short _ ((lookup_eq_some_iff_mem node.distinct).mp has)

/-- The regions a node describes are those its `reg` encodes. -/
theorem SourceNode.describes_iff (reg : node.value "reg" = some value) :
    node.Describes a s regions ↔
      EncodesReg (valueMemory value) a s 0 (UInt64.ofNat value.length) regions := by
  have short := value_short reg
  have bytes : bytesFrom (valueMemory value) 0 (UInt64.ofNat value.length).toNat = value := by
    rw [UInt64.toNat_ofNat_of_lt' (Nat.lt_trans short (by decide))]
    exact bytesFrom_valueMemory value (by omega)
  constructor
  · intro describes
    refine ⟨describes.addressWidth, describes.sizeWidth, describes.nonempty, describes.atMost,
      describes.fits, describes.valid, ?_⟩
    rw [bytes]
    exact Option.some.inj (reg.symm.trans describes.reg)
  · intro encodes
    refine ⟨encodes.addressWidth, encodes.sizeWidth, encodes.nonempty, encodes.atMost,
      encodes.fits, encodes.valid, ?_⟩
    rw [reg, ← encodes.bytes, bytes]

theorem SourceNode.Describes.pairs_eq (describes : node.Describes a s regions) :
    node.pairs (some a) (some s) = regions := by
  rw [SourceNode.pairs, describes.reg]
  exact ((describes_iff describes.reg).mp describes).regPairs_eq

theorem SourceNode.decodable_iff (reg : node.value "reg" = some value) (held : d.reg = some value) :
    d.Decodable ↔ node.Understood d.addressCells d.sizeCells := by
  constructor
  · intro decodable
    obtain ⟨a, address⟩ := Option.isSome_iff_exists.mp decodable.known.1
    obtain ⟨s, size⟩ := Option.isSome_iff_exists.mp decodable.known.2
    have accepted := decodable.reg value a s held address size
    exact ⟨a, s, _, address, size, (describes_iff reg).mpr accepted.encodes⟩
  · rintro ⟨a, s, regions, address, size, describes⟩
    have accepted := ((describes_iff reg).mp describes).accepted
    refine ⟨by rw [address, size]; exact ⟨rfl, rfl⟩, fun value' a' s' held' address' size' => ?_⟩
    rw [held] at held'
    rw [address] at address'
    rw [size] at size'
    cases held'
    cases address'
    cases size'
    exact accepted

end Reg

/-! ## Nodes that are read -/

/-- The items of `nodes` leave the cell counts, and the regions of the last of them that is
memory; they are accepted if each that is memory is understood. -/
structure Discovered.Visits (d : Discovered) (items : List Item) (nodes : List SourceNode)
    (levels : UInt64) : Prop where
  depth : (d.after items).depth = d.depth + levels
  addressCells : (d.after items).addressCells = d.addressCells
  sizeCells : (d.after items).sizeCells = d.sizeCells
  regions : (d.after items).regions =
    ((nodes.filter SourceNode.isMemory).getLast?.map
      (SourceNode.pairs d.addressCells d.sizeCells)).or d.regions
  accepts : d.Accepts items ↔
    ∀ node ∈ nodes, node.isMemory = true → node.Understood d.addressCells d.sizeCells

section Visits

variable {d : Discovered} {items items' : List Item} {nodes nodes' : List SourceNode}
  {node : SourceNode} {m n : UInt64}

theorem Discovered.visits_nil : d.Visits [] [] 0 where
  depth := (UInt64.add_zero _).symm
  addressCells := rfl
  sizeCells := rfl
  regions := rfl
  accepts := by simp

theorem Discovered.Visits.append (first : d.Visits items nodes m)
    (second : (d.after items).Visits items' nodes' n) :
    d.Visits (items ++ items') (nodes ++ nodes') (m + n) := by
  refine ⟨?_, ?_, ?_, ?_, ?_⟩
  · rw [after_append, second.depth, first.depth, UInt64.add_assoc]
  · rw [after_append, second.addressCells, first.addressCells]
  · rw [after_append, second.sizeCells, first.sizeCells]
  · rw [after_append, second.regions, first.regions, first.addressCells, first.sizeCells,
      List.filter_append, List.getLast?_append, Option.map_or, Option.or_assoc]
  · rw [accepts_append, first.accepts, second.accepts, first.addressCells, first.sizeCells,
      List.forall_mem_append]

theorem Discovered.visits_endNode (inside : d.depth ≠ 0) : d.Visits [.endNode] [] (-1) where
  depth := UInt64.sub_eq_add_neg _ _
  addressCells := rfl
  sizeCells := rfl
  regions := rfl
  accepts := by simp [Allows, inside]

theorem propertyItems_inNode {ps : List (List UInt8 × List UInt8)} :
    ∀ item ∈ propertyItems ps, item.InNode := by
  intro item member
  obtain ⟨p, -, rfl⟩ := List.mem_map.mp member
  trivial

theorem propertyItems_names {ps : List (List UInt8 × List UInt8)} :
    (propertyItems ps).filterMap Item.propertyName = ps.map Prod.fst := by
  rw [propertyItems, List.filterMap_map, ← List.filterMap_eq_map]
  rfl

/-- A node is decoded if it is memory. -/
theorem decodes_saved (node : SourceNode) (clear : d.reg = none) (memory : d.memory = false) :
    (d.saved (propertyItems node.properties)).reg = node.value "reg" ∧
      (d.saved (propertyItems node.properties)).decodes = node.isMemory := by
  have reg := saved_reg d node.distinct
  rw [clear, Option.or_none] at reg
  refine ⟨reg, ?_⟩
  rw [Discovered.decodes, reg, saved_memory d node.distinct, memory, Bool.false_or, Bool.and_comm]
  rfl

/-- The properties of a node with a name. -/
theorem Discovered.visits_node (named : node.name ≠ []) : d.Visits node.items [node] 1 := by
  have entered : (d.step (.beginNode node.name)).Entered :=
    ⟨rfl, by simpa [Discovered.step] using named⟩
  have distinct := node.distinct
  rw [← propertyItems_names] at distinct
  have left : d.after node.items =
      ((d.step (.beginNode node.name)).saved (propertyItems node.properties)).decode :=
    after_eq entered propertyItems_inNode
  have accepts : d.Accepts node.items ↔ _ :=
    (and_iff_right trivial).trans (accepts_iff entered propertyItems_inNode distinct)
  obtain ⟨depth, -, regions⟩ :=
    saved_rest (d.step (.beginNode node.name)) node.properties
  obtain ⟨reg, decodes⟩ := decodes_saved node entered.reg (d := d.step _) rfl
  have address := saved_addressCells (d.step (.beginNode node.name)) node.distinct
  have size := saved_sizeCells (d.step (.beginNode node.name)) node.distinct
  rw [entered.named, if_neg Bool.false_ne_true] at address size
  generalize (d.step (.beginNode node.name)).saved (propertyItems node.properties) = e at *
  refine ⟨?_, ?_, ?_, ?_, ?_⟩
  · rw [left, depth_decode, depth]
    rfl
  · rw [left, decode]
    split <;> exact address
  · rw [left, decode]
    split <;> exact size
  · rw [left, decode, decodes]
    cases memory : node.isMemory with
    | false =>
        rw [if_neg Bool.false_ne_true, List.filter_cons_of_neg (by simp [memory])]
        exact regions
    | true =>
        have pairs : e.pairs = node.pairs d.addressCells d.sizeCells := by
          rw [Discovered.pairs, reg, address, size]
          rfl
        rw [if_pos rfl, List.filter_cons_of_pos memory, pairs]
        rfl
  · rw [accepts, decodes, List.forall_mem_singleton]
    refine imp_congr_right fun memory => ?_
    obtain ⟨value, has⟩ := Option.isSome_iff_exists.mp (Bool.and_eq_true_iff.mp memory).2
    rw [SourceNode.decodable_iff has (reg.trans has), address, size]
    exact Iff.rfl

/-- So it is of trees, one after the other: what is opened is closed. -/
theorem Discovered.visits_trees (trees : List (Outline SourceNode)) :
    ∀ d : Discovered, d.depth.toNat + (Outline.preorder.preorders trees).length < 2 ^ 64 →
      (∀ node ∈ Outline.preorder.preorders trees, node.name ≠ []) →
      d.Visits (Outline.write.writes SourceNode.items .endNode trees)
        (Outline.preorder.preorders trees) 0 := by
  refine Outline.writes_induct (P := fun items nodes => ∀ d : Discovered,
    d.depth.toNat + nodes.length < 2 ^ 64 → (∀ node ∈ nodes, node.name ≠ []) →
      d.Visits items nodes 0) ?_ ?_ ?_ trees
  · exact fun d _ _ => visits_nil
  · intro items items' nodes nodes' first second d room named
    rw [List.length_append] at room
    rw [List.forall_mem_append] at named
    have left := first d (by omega) named.1
    have depth := left.depth
    rw [UInt64.add_zero] at depth
    have both := left.append (second (d.after items) (by rw [depth]; omega) named.2)
    rwa [UInt64.add_zero] at both
  · intro node items nodes inside d room named
    rw [List.length_cons] at room
    rw [List.forall_mem_cons] at named
    have opened := visits_node (d := d) named.1
    have deeper : (d.after node.items).depth.toNat = d.depth.toNat + 1 := by
      rw [opened.depth]
      exact toNat_add_ofNat (k := 1) (by omega)
    have children := inside (d.after node.items) (by omega) named.2
    have open' : ((d.after node.items).after items).depth ≠ 0 := by
      rw [children.depth, UInt64.add_zero]
      intro zero
      rw [zero] at deeper
      cases deeper
    have closed := opened.append (children.append (visits_endNode open'))
    rwa [List.append_nil] at closed

end Visits

/-! ## The root -/

section Root

variable {d : Discovered} {ps : List (List UInt8 × List UInt8)} {items : List Item}

theorem Discovered.decodes_saved_of (decodes : d.decodes = true) :
    (d.saved (propertyItems ps)).decodes = true := by
  induction ps generalizing d with
  | nil => exact decodes
  | cons p ps ih => exact ih (decodes_withProperty p.1 p.2 decodes)

/-- Properties that leave nothing to decode are saved, and only the cell counts are checked. -/
theorem Discovered.visits_plain (empty : d.nameEmpty = true)
    (plain : (d.saved (propertyItems ps)).decodes = false) :
    d.after (propertyItems ps) = d.saved (propertyItems ps) ∧
      (d.Accepts (propertyItems ps) ↔
        ∀ p ∈ ps, (nameKind p.1).IsCells → p.2.length = 4) := by
  induction ps generalizing d with
  | nil => exact ⟨rfl, by simp [propertyItems]⟩
  | cons p ps ih =>
      have incomplete : (d.withProperty p.1 p.2).decodes = false := by
        by_contra complete
        rw [Bool.not_eq_false] at complete
        rw [saved_cons, decodes_saved_of complete] at plain
        cases plain
      have step : d.step (.prop p.1 p.2) = d.withProperty p.1 p.2 :=
        if_neg (by rw [incomplete]; exact Bool.false_ne_true)
      obtain ⟨after, accepts⟩ := ih (d := d.withProperty p.1 p.2) empty plain
      constructor
      · rw [saved_cons, ← after, ← step]
        rfl
      · have first : d.Allows (.prop p.1 p.2) ↔ ((nameKind p.1).IsCells → p.2.length = 4) := by
          simp [Allows, incomplete, empty]
        rw [List.forall_mem_cons, ← accepts, ← first, ← step]
        rfl

/-- The cell counts are those of the two names. -/
theorem cells_iff (distinct : (ps.map Prod.fst).Nodup) :
    (∀ p ∈ ps, (nameKind p.1).IsCells → p.2.length = 4) ↔
      (∀ value, ps.lookup (chars (cString "#address-cells")) = some value → value.length = 4) ∧
        ∀ value, ps.lookup (chars (cString "#size-cells")) = some value → value.length = 4 := by
  simp only [lookup_eq_some_iff_mem distinct, PropertyName.IsCells]
  constructor
  · intro all
    exact ⟨fun value member => all _ member (.inl (nameKind_iff.1.mpr rfl)),
      fun value member => all _ member (.inr (nameKind_iff.2.1.mpr rfl))⟩
  · rintro ⟨address, size⟩ p member (kind | kind)
    · exact address p.2 (nameKind_iff.1.mp kind ▸ member)
    · exact size p.2 (nameKind_iff.2.1.mp kind ▸ member)

/-- What is left of the root. -/
structure RootRead (t : TreeSource) (d : Discovered) : Prop where
  after : Discovered.initial.after t.root.items = d
  accepts : Discovered.initial.Accepts t.root.items ↔
    (∀ value, t.root.value "#address-cells" = some value → value.length = 4) ∧
      ∀ value, t.root.value "#size-cells" = some value → value.length = 4
  depth : d.depth = 1
  addressCells : d.addressCells = t.addressCells
  sizeCells : d.sizeCells = t.sizeCells
  regions : d.regions = none

theorem TreeSource.exists_rootRead (t : TreeSource) : ∃ d, RootRead t d := by
  have unnamed : t.root.name.isEmpty = true := by
    rw [t.unnamed]
    rfl
  have empty : (Discovered.initial.step (.beginNode t.root.name)).nameEmpty = true := unnamed
  obtain ⟨-, decodes⟩ :=
    decodes_saved t.root (d := Discovered.initial.step (.beginNode t.root.name)) rfl rfl
  rw [t.plain] at decodes
  obtain ⟨after, accepts⟩ := Discovered.visits_plain empty decodes
  obtain ⟨depth, -, regions⟩ :=
    saved_rest (Discovered.initial.step (.beginNode t.root.name)) t.root.properties
  have address :=
    saved_addressCells (Discovered.initial.step (.beginNode t.root.name)) t.root.distinct
  have size :=
    saved_sizeCells (Discovered.initial.step (.beginNode t.root.name)) t.root.distinct
  rw [empty, if_pos rfl] at address size
  refine ⟨_, after, ?_, depth, ?_, ?_, regions⟩
  · exact (and_iff_right trivial).trans (accepts.trans (cells_iff t.root.distinct))
  · exact address.trans (Option.or_none)
  · exact size.trans (Option.or_none)

/-- **Read item by item, a tree is understood or not accepted**, and leaves what it says. -/
theorem TreeSource.reads (t : TreeSource) (room : t.tree.preorder.length < 2 ^ 64) :
    (AcceptsItems (t.items ++ [.fdtEnd]) ↔ t.Understood) ∧
      (Discovered.initial.after (t.items ++ [.fdtEnd])).addressCells = t.addressCells ∧
      (Discovered.initial.after (t.items ++ [.fdtEnd])).sizeCells = t.sizeCells ∧
      (Discovered.initial.after (t.items ++ [.fdtEnd])).regions =
        t.memoryNodes.getLast?.map (SourceNode.pairs t.addressCells t.sizeCells) := by
  obtain ⟨d, root⟩ := t.exists_rootRead
  have nodes : t.memoryNodes =
      (Outline.preorder.preorders t.children).filter SourceNode.isMemory :=
    List.filter_cons_of_neg (by rw [t.plain]; exact Bool.false_ne_true)
  have count : (Outline.preorder.preorders t.children).length + 1 < 2 ^ 64 := room
  have children := Discovered.visits_trees t.children d
    (by rw [root.depth, show (1 : UInt64).toNat = 1 from rfl]; omega) t.named
  have depth := children.depth
  rw [root.depth, UInt64.add_zero] at depth
  have closed := children.append (Discovered.visits_endNode (by rw [depth]; decide))
  rw [List.append_nil, UInt64.zero_add] at closed
  have items : t.items ++ [.fdtEnd] = t.root.items ++
      (Outline.write.writes SourceNode.items .endNode t.children ++ [.endNode] ++ [.fdtEnd]) :=
    List.append_assoc _ _ _
  have after : Discovered.initial.after (t.items ++ [.fdtEnd]) =
      d.after (Outline.write.writes SourceNode.items .endNode t.children ++ [.endNode]) := by
    rw [items, Discovered.after_append, root.after, Discovered.after_append]
    rfl
  have accepts : Discovered.initial.Accepts (t.items ++ [.fdtEnd]) ↔
      Discovered.initial.Accepts t.root.items ∧
        d.Accepts (Outline.write.writes SourceNode.items .endNode t.children ++ [.endNode]) := by
    rw [items, Discovered.accepts_append, root.after, Discovered.accepts_append]
    exact and_congr_right' (and_iff_left ⟨trivial, trivial⟩)
  have level := closed.depth
  rw [root.depth, show (1 : UInt64) + -1 = 0 from rfl] at level
  refine ⟨?_, ?_, ?_, ?_⟩
  · rw [AcceptsItems, accepts, after, and_iff_left level, root.accepts, closed.accepts,
      root.addressCells, root.sizeCells]
    constructor
    · rintro ⟨⟨address, size⟩, memory⟩
      refine ⟨address, size, fun node member => ?_⟩
      rw [nodes] at member
      exact memory node (List.mem_filter.mp member).1 (List.mem_filter.mp member).2
    · intro understood
      refine ⟨⟨understood.addressCells, understood.sizeCells⟩, fun node member memory => ?_⟩
      refine understood.memory node ?_
      rw [nodes]
      exact List.mem_filter.mpr ⟨member, memory⟩
  · rw [after, closed.addressCells, root.addressCells]
  · rw [after, closed.sizeCells, root.sizeCells]
  · rw [after, closed.regions, root.addressCells, root.sizeCells, root.regions, Option.or_none,
      nodes]

end Root

/-! ## The round trip -/

/-- Every node takes bytes. -/
theorem TreeSource.length_preorder_le (t : TreeSource) :
    t.tree.preorder.length ≤ (piecesBytes t.pieces).length := by
  refine Outline.write_induct
    (P := fun ps nodes => nodes.length ≤ (piecesBytes ps).length) ?_ ?_ ?_ t.tree
  · exact Nat.le_refl 0
  · intro ps qs nodes nodes' left right
    rw [piecesBytes, List.flatMap_append, List.length_append, List.length_append]
    exact Nat.add_le_add left right
  · intro node ps nodes inside
    rw [piecesBytes, List.flatMap_append, List.flatMap_append, List.length_append,
      List.length_append, SourceNode.opening, List.flatMap_cons, List.length_append, Piece.bytes,
      List.length_append, length_word, List.length_cons]
    unfold piecesBytes at inside
    omega

section Parsed

variable {env : Env} {outHwInfo dtb : UInt64} {t : TreeSource}

theorem WrittenAt.few {mem : Memory} (written : WrittenAt mem dtb t) :
    t.tree.preorder.length < 2 ^ 64 := by
  have small := written.small
  have length := t.length_flatten
  have nodes := t.length_preorder_le
  rw [TreeSource.structBytes, List.length_append] at length
  omega

/-- The parser returns from the trees that are understood. -/
theorem WrittenAt.returned_iff (prior : HardwareInfo) (ready : env.Ready) (record : outHwInfo ≠ 0)
    (written : WrittenAt env.memory dtb t) :
    (parseDeviceTreeBlob env outHwInfo dtb prior).outcome = .ok () ↔ t.Understood :=
  (CharcoalOS.returned_iff ready written.noWrap (written.contents record)).trans
    (t.reads written.few).1

/-- And leaves what they say. -/
theorem WrittenAt.recorded (prior : HardwareInfo) (ready : env.Ready) (record : outHwInfo ≠ 0)
    (written : WrittenAt env.memory dtb t) (understood : t.Understood) :
    t.RecordedIn prior (parseDeviceTreeBlob env outHwInfo dtb prior).state := by
  obtain ⟨-, address, size, regions⟩ := t.reads written.few
  have report := reported ready (written.contents record)
    ((written.returned_iff prior ready record).mpr understood)
  refine ⟨?_, ?_, ?_, fun none => ?_, report.reservedCount, report.reserved⟩
  · rw [report.addressCells, address]
  · rw [report.sizeCells, size]
  · intro node a s describedRegions last knownAddress knownSize describes
    rw [last, Option.map_some, knownAddress, knownSize, describes.pairs_eq] at regions
    exact (report.regions describedRegions regions).2
  · rw [none] at regions
    exact report.noRegions regions

end Parsed

/-- **A flattened tree is read back.** The parser returns from it exactly if the tree is
understood, and then the record says what the tree says; what is not understood ends in a
panic. -/
theorem flatten_round_trip (env : Env) (outHwInfo dtb : UInt64) (prior : HardwareInfo)
    (t : TreeSource) (ready : env.Ready) (record : outHwInfo ≠ 0)
    (written : WrittenAt env.memory dtb t) :
    ((parseDeviceTreeBlob env outHwInfo dtb prior).outcome = .ok () ↔ t.Understood) ∧
      (¬ t.Understood → (parseDeviceTreeBlob env outHwInfo dtb prior).outcome = .error .halted) ∧
      (t.Understood →
        t.RecordedIn prior (parseDeviceTreeBlob env outHwInfo dtb prior).state) := by
  have returned := written.returned_iff prior ready record
  refine ⟨returned, fun misunderstood => ?_, written.recorded prior ready record⟩
  exact (outcome_of_ready ready written.noWrap).resolve_left (mt returned.mp misunderstood)

/-- A root with 32-bit cells. -/
def narrowSource : SourceNode where
  name := []
  properties := [(chars (cString "#address-cells"), word 1),
    (chars (cString "#size-cells"), word 1)]
  nameClean := List.not_mem_nil
  clean := by decide
  distinct := by decide
  short := by decide

def memorySource : SourceNode where
  name := chars (cString "memory")
  properties := [(chars (cString "device_type"), cString "memory"),
    (chars (cString "reg"), word 0x40000000 ++ word 0x1000)]
  nameClean := by decide
  clean := by decide
  distinct := by decide
  short := by decide

/-- A node without properties. -/
def emptySource : SourceNode where
  name := chars (cString "chosen")
  properties := []
  nameClean := by decide
  clean := List.forall_mem_nil _
  distinct := List.nodup_nil
  short := List.forall_mem_nil _

/-- One memory node with a node below it, and a reserved region. -/
def smallSource : TreeSource where
  root := narrowSource
  children := [.node memorySource [.node emptySource []]]
  reserved := [(0x40000000, 0x100)]
  unnamed := rfl
  plain := by decide
  named := by decide
  few := by decide
  real := by decide

/-- Memory with the tree in it, zero elsewhere, under a kernel whose panics halt. -/
def TreeSource.env (t : TreeSource) : Env where
  memory := fun a => t.flatten.getD (a - Blob.address).toNat 0
  panicReturns := false
  fuel := 2 ^ 64

theorem memorySource_describes : memorySource.Describes 1 1 [⟨0x40000000, 0x1000⟩] where
  addressWidth := .inl rfl
  sizeWidth := .inl rfl
  nonempty := List.cons_ne_nil _ _
  atMost := by decide
  fits := by unfold FitsCells; decide
  valid := by decide
  reg := by decide

theorem smallSource_understood : smallSource.Understood where
  addressCells := by
    intro value has
    cases has
    rfl
  sizeCells := by
    intro value has
    cases has
    rfl
  memory := by
    rw [show smallSource.memoryNodes = [memorySource] from rfl, List.forall_mem_singleton]
    exact ⟨1, 1, _, rfl, rfl, memorySource_describes⟩

theorem smallSource_written : WrittenAt smallSource.env.memory Blob.address smallSource where
  lies := by
    show bytesFrom _ _ _ = _
    decide +kernel
  present := by decide
  aligned := by decide
  small := by decide +kernel
  room := by decide +kernel

/-- It is for a tree with one memory node. -/
theorem flatten_round_trip_smallSource :
    (parseDeviceTreeBlob smallSource.env 1 Blob.address .zero).outcome = .ok () ∧
      smallSource.RecordedIn .zero
        (parseDeviceTreeBlob smallSource.env 1 Blob.address .zero).state := by
  have all := flatten_round_trip smallSource.env 1 Blob.address .zero smallSource
    ⟨rfl, Nat.le_refl _, by decide +kernel⟩ (by decide) smallSource_written
  exact ⟨all.1.mpr smallSource_understood, all.2.2 smallSource_understood⟩

end CharcoalOS
