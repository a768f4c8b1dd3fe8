import CharcoalOS.Hardware.Record
import CharcoalOS.Hardware.Grammar
import CharcoalOS.Lib.Nesting

/-!
# The node context as a function of the tokens

`Context` is what the local variables of the walk stand for: the name of the node
opened last, the `reg` and `device_type` seen since then, the cell counts saved, and
the regions decoded last. `contextOf` folds it over the tokens, without a cursor or a
record. `WalkHead.models` is the refinement: at every head the walk and the record are
what the context of the tokens handled so far says.
-/

namespace CharcoalOS

open Effect Effect.Program Nesting

/-- Tokens nest by their node tokens. -/
def Token.mark : Token → Mark
  | .beginNode _ => .opens
  | .endNode => .closes
  | _ => .inside

section Selectors

variable (mem : Memory) (dtb : UInt64)

/-- The token is a property of this name. -/
def isNamed (kind : PropertyName) : Token → Bool
  | .prop p => propertyName mem dtb p == kind
  | _ => false

/-- The token is a `device_type` property whose value is "memory". -/
def isMemoryType : Token → Bool
  | .prop p => IsMemoryType mem (propertyName mem dtb p) p
  | _ => false

end Selectors

/-- What the walk knows of the node it is in, and of the cell counts. -/
structure Context : Type where
  /-- Where the name of the node opened last starts. -/
  name : Option UInt64
  reg : Option Property
  memory : Bool
  addressCells : Option UInt32
  sizeCells : Option UInt32
  /-- The regions decoded last. -/
  regions : Option (List MemoryRegion)
deriving DecidableEq

/-- The context before the first token. -/
def Context.initial : Context where
  name := none
  reg := none
  memory := false
  addressCells := none
  sizeCells := none
  regions := none

section Steps

variable (mem : Memory)

/-- The node opened last has an empty name, or no node has been opened. -/
def Context.nameEmpty (c : Context) : Bool :=
  match c.name with
  | none => true
  | some a => mem a == 0

/-- The bytes at address 0 read as "memory": what the walk compares if it has no
`device_type`. -/
def nullReadsMemory : Bool := comparesEqual mem (.pointer .null) "memory" 6

/-- The walk decodes the `reg` of this context. -/
def Context.decodes (c : Context) : Bool := c.reg.isSome && (c.memory || nullReadsMemory mem)

/-- The pairs in the `reg` of this context. -/
def Context.pairs (c : Context) : List MemoryRegion :=
  match c.reg with
  | none => []
  | some p =>
      regPairs mem (c.addressCells.getD 0) (c.sizeCells.getD 0) p.data p.length.toUInt64

/-- The context once a property has been saved. A cell count is saved under an empty
node name only. -/
def Context.withProperty (kind : PropertyName) (p : Property) (c : Context) : Context :=
  { c with
    reg := if kind = .reg then some p else c.reg
    memory := c.memory || IsMemoryType mem kind p
    addressCells :=
      if c.nameEmpty mem && kind == .addressCells then some (be32 mem p.data) else c.addressCells
    sizeCells :=
      if c.nameEmpty mem && kind == .sizeCells then some (be32 mem p.data) else c.sizeCells }

/-- Decode the regions of a complete context. -/
def Context.decode (c : Context) : Context :=
  if c.decodes mem then { c with regions := some (c.pairs mem) } else c

/-- The context past a token. -/
def Context.step (dtb : UInt64) (c : Context) (t : Token) : Context :=
  match t with
  | .beginNode name => { c with name := some name, reg := none, memory := false }
  | .prop p => (c.withProperty mem (propertyName mem dtb p) p).decode mem
  | _ => c

/-- The context after the tokens `ts`. -/
def contextOf (dtb : UInt64) (ts : List Token) : Context :=
  ts.foldl (Context.step mem dtb) .initial

end Steps

section Fold

variable {mem : Memory} {dtb : UInt64} {ts : List Token} {t : Token}

@[simp] theorem contextOf_nil : contextOf mem dtb [] = .initial := rfl

@[simp] theorem contextOf_snoc :
    contextOf mem dtb (ts ++ [t]) = (contextOf mem dtb ts).step mem dtb t := by
  rw [contextOf, List.foldl_append]
  rfl

/-- Decoding changes the regions only. -/
theorem Context.decode_field {α : Type} (field : Context → α) (c : Context)
    (same : ∀ c regions, field { c with regions := regions } = field c) :
    field (c.decode mem) = field c := by
  unfold Context.decode
  split
  · exact same c _
  · rfl

/-- The `reg` of the context is the one set since the last node was opened. -/
theorem reg_contextOf :
    (contextOf mem dtb ts).reg.map Token.prop =
      held Token.mark (isNamed mem dtb .reg) ts := by
  induction ts using List.reverseRecOn with
  | nil => rfl
  | append_singleton ts t ih =>
      rw [contextOf_snoc, held_snoc]
      cases t with
      | beginNode name => rfl
      | prop p =>
          rw [if_neg (by exact nofun), ← ih, Context.step,
            Context.decode_field Context.reg _ fun _ _ => rfl]
          simp only [Context.withProperty, isNamed, beq_iff_eq]
          split <;> rfl
      | _ => exact ih

/-- The context has a memory type if a `device_type` "memory" has been seen since the last
node was opened. -/
theorem memory_contextOf :
    (contextOf mem dtb ts).memory = (held Token.mark (isMemoryType mem dtb) ts).isSome := by
  induction ts using List.reverseRecOn with
  | nil => rfl
  | append_singleton ts t ih =>
      rw [contextOf_snoc, held_snoc]
      cases t with
      | beginNode name => rfl
      | prop p =>
          rw [if_neg (by exact nofun), Context.step,
            Context.decode_field Context.memory _ fun _ _ => rfl]
          show ((contextOf mem dtb ts).memory || isMemoryType mem dtb (.prop p)) = _
          rw [ih]
          cases isMemoryType mem dtb (.prop p) <;> simp
      | _ => exact ih

end Fold

/-! ## The refinement -/

/-- The walk `s` and the record `info` are what the context says; `start` is the record
the walk started with. -/
structure Context.Models (mem : Memory) (start : HardwareInfo) (c : Context) (s : Walk)
    (info : HardwareInfo) : Prop where
  nodeName : s.nodeName =
    c.name.elim (.literal "") fun a => .pointer (structPointer a)
  reg : s.currentNodeReg = c.reg.elim .null Property.dataBytes
  regSize : ∀ p, c.reg = some p → s.currentNodeRegSize = p.length
  placed : ∀ p, c.reg = some p → p.data ≠ 0
  deviceType : s.currentNodeDeviceType = if c.memory then .literal "memory" else .pointer .null
  addressFlag : s.addressCellsInitialized = c.addressCells.isSome
  sizeFlag : s.sizeCellsInitialized = c.sizeCells.isSome
  addressCells : info.addressCells = c.addressCells.getD start.addressCells
  sizeCells : info.sizeCells = c.sizeCells.getD start.sizeCells

section Refinement

variable {mem : Memory} {start info info' : HardwareInfo} {c : Context} {s : Walk}

theorem Context.Models.nameEmpty (models : c.Models mem start s info) :
    s.nameEmpty mem = c.nameEmpty mem := by
  rw [Walk.nameEmpty, models.nodeName, Context.nameEmpty]
  cases c.name with
  | none => rfl
  | some a =>
      have terminated : literalByte "" 0 = 0 := by decide
      simp [comparesEqual, charValue, structPointer, terminated]

theorem Context.Models.decodes (models : c.Models mem start s info) :
    s.Decodes mem ↔ c.decodes mem = true := by
  have literal : comparesEqual mem (.literal "memory") "memory" 6 = true := rfl
  rw [Walk.Decodes, models.reg, models.deviceType, Context.decodes]
  cases reg : c.reg with
  | none => simp [Pointer.null]
  | some p =>
      have placed := models.placed p reg
      cases c.memory with
      | true => simp [Property.dataBytes, structPointer, placed, literal]
      | false => simp [Property.dataBytes, structPointer, placed, nullReadsMemory]

/-- The cell counts and the `reg` of the context are those of the record and the walk. -/
theorem Context.Models.values {q : Property} {addressCells sizeCells : UInt32}
    (models : c.Models mem start s info) (reg : c.reg = some q)
    (address : c.addressCells = some addressCells) (size : c.sizeCells = some sizeCells) :
    info.addressCells = addressCells ∧ info.sizeCells = sizeCells ∧
      s.currentNodeReg = q.dataBytes ∧ s.currentNodeRegSize = q.length := by
  refine ⟨?_, ?_, ?_, models.regSize q reg⟩
  · rw [models.addressCells, address, Option.getD_some]
  · rw [models.sizeCells, size, Option.getD_some]
  · rw [models.reg, reg, Option.elim_some]

/-- The refinement does not speak of the cursor and the two counters. -/
theorem Context.Models.of_cursor (models : c.Models mem start s info) (depth ends next : UInt64) :
    c.Models mem start
      { s with nodeDepth := depth, endTokensEncountered := ends, dtbCursor := next } info :=
  ⟨models.nodeName, models.reg, models.regSize, models.placed, models.deviceType,
    models.addressFlag, models.sizeFlag, models.addressCells, models.sizeCells⟩

/-- The refinement speaks of the cell counts of the record only. -/
theorem Context.Models.of_cells (models : c.Models mem start s info)
    (address : info'.addressCells = info.addressCells) (size : info'.sizeCells = info.sizeCells) :
    c.Models mem start s info' :=
  { models with
    addressCells := address.trans models.addressCells
    sizeCells := size.trans models.sizeCells }

theorem Context.Models.decode (models : c.Models mem start s info) :
    (c.decode mem).Models mem start s info := by
  unfold Context.decode
  split
  · exact ⟨models.nodeName, models.reg, models.regSize, models.placed, models.deviceType,
      models.addressFlag, models.sizeFlag, models.addressCells, models.sizeCells⟩
  · exact models

/-- The record after the cell counts of the root are saved, by field. -/
theorem addressCells_withCells {kind : PropertyName} {p : Property} :
    (info.withCells mem kind p s).addressCells =
      if s.nameEmpty mem && kind == .addressCells then be32 mem p.data
      else info.addressCells := by
  unfold HardwareInfo.withCells
  split
  · rfl
  · split <;> rfl

theorem sizeCells_withCells {kind : PropertyName} {p : Property} :
    (info.withCells mem kind p s).sizeCells =
      if s.nameEmpty mem && kind == .sizeCells then be32 mem p.data
      else info.sizeCells := by
  unfold HardwareInfo.withCells
  split
  · rename_i address
    rw [Bool.and_eq_true, beq_iff_eq] at address
    rw [if_neg (by simp [address.2])]
    rfl
  · split <;> rfl

/-- Saving a property keeps the refinement. -/
theorem Context.Models.withProperty {kind : PropertyName} {p : Property}
    (models : c.Models mem start s info) (placed : p.data ≠ 0) :
    (c.withProperty mem kind p).Models mem start (s.withProperty mem kind p)
      (info.withCells mem kind p s) := by
  refine ⟨?_, ?_, fun q eq => ?_, fun q eq => ?_, ?_, ?_, ?_, ?_, ?_⟩
  · rw [Walk.nodeName_withProperty]
    exact models.nodeName
  · rw [Walk.currentNodeReg_withProperty, Context.withProperty, models.reg]
    split <;> rfl
  · rw [Walk.currentNodeRegSize_withProperty]
    unfold Context.withProperty at eq
    split
    · rename_i reg
      simp only [if_pos reg, Option.some.injEq] at eq
      rw [eq]
    · rename_i other
      simp only [if_neg other] at eq
      exact models.regSize q eq
  · unfold Context.withProperty at eq
    dsimp only at eq
    split at eq
    · cases eq
      exact placed
    · exact models.placed q eq
  · rw [Walk.currentNodeDeviceType_withProperty, Context.withProperty, models.deviceType]
    cases IsMemoryType mem kind p <;> cases c.memory <;> rfl
  · rw [Walk.addressCellsInitialized_withProperty, Context.withProperty, models.addressFlag,
      models.nameEmpty]
    cases (c.nameEmpty mem && kind == .addressCells) <;> simp
  · rw [Walk.sizeCellsInitialized_withProperty, Context.withProperty, models.sizeFlag,
      models.nameEmpty]
    cases (c.nameEmpty mem && kind == .sizeCells) <;> simp
  · rw [addressCells_withCells, Context.withProperty, models.nameEmpty, models.addressCells]
    split <;> rfl
  · rw [sizeCells_withCells, Context.withProperty, models.nameEmpty, models.sizeCells]
    split <;> rfl

end Refinement

section Heads

variable {env : Env} {outHwInfo dtb : UInt64} {prior info info' : HardwareInfo}
  {ts : List Token} {s s' : Walk} {t : Token} {next : UInt64}

/-- The value of a property does not start at address 0. -/
theorem TokenAt.data_ne_zero {mem : Memory} {limit a : UInt64} {sizeDtStrings : UInt32}
    {p : Property} (token : TokenAt mem limit sizeDtStrings a (.prop p) next) : p.data ≠ 0 := by
  intro zero
  have data := token.toNat_data
  rw [zero] at data
  simp at data

theorem NodeEnd.cells_eq {evs : List Event} {o : Except Stop Unit}
    (ending : NodeEnd env s info o info' evs) :
    info'.addressCells = info.addressCells ∧ info'.sizeCells = info.sizeCells := by
  cases ending with
  | skipped => exact ⟨rfl, rfl⟩
  | uninitialized => exact ⟨rfl, rfl⟩
  | regions _ _ ending =>
      obtain ⟨_, _, rfl⟩ := ending.sameButRegions
      exact ⟨rfl, rfl⟩

/-- The context past a property, before its regions are decoded. -/
theorem Context.Models.past_prop {mem : Memory} {start : HardwareInfo} {c : Context}
    {p : Property} (models : c.Models mem start s info)
    (token : BlobToken mem dtb s.dtbCursor (.prop p) next) :
    (c.withProperty mem (propertyName mem dtb p) p).Models mem start
      (s.past mem dtb (.prop p) next) (info.withCells mem (propertyName mem dtb p) p s) := by
  exact (models.of_cursor _ _ next).withProperty token.data_ne_zero

/-- What one token does to the context. -/
theorem Context.Models.past {start : HardwareInfo} {c : Context}
    (models : c.Models env.memory start s info)
    (token : BlobToken env.memory dtb s.dtbCursor t next)
    (record : RecordStep env dtb s info (s.past env.memory dtb t next) t info') :
    (c.step env.memory dtb t).Models env.memory start (s.past env.memory dtb t next) info' := by
  cases record with
  | prop fits ending =>
      obtain ⟨address, size⟩ := ending.cells_eq
      exact ((models.past_prop token).of_cells address size).decode
  | other other =>
      cases t with
      | prop p => exact absurd rfl (other p)
      | beginNode name =>
          exact ⟨rfl, rfl, nofun, nofun, rfl, models.addressFlag, models.sizeFlag,
            models.addressCells, models.sizeCells⟩
      | endNode => exact models.of_cursor _ _ next
      | nop => exact models.of_cursor _ _ next
      | fdtEnd => exact models.of_cursor _ _ next

/-- **The walk refines the context of its tokens.** -/
theorem WalkHead.models (head : WalkHead env outHwInfo dtb prior ts s info) :
    (contextOf env.memory dtb ts).Models env.memory (walkRecord env outHwInfo dtb prior) s
      info := by
  refine head.induct (P := fun ts s info => (contextOf env.memory dtb ts).Models env.memory
    (walkRecord env outHwInfo dtb prior) s info) (fun _ => ?_) ?_
  · exact ⟨rfl, rfl, nofun, nofun, rfl, rfl, rfl, rfl, rfl⟩
  · intro ts s info t next s' info' _ models token same _ record
    subst same
    rw [contextOf_snoc]
    exact models.past token record

/-! ## The regions -/

/-- The region array of the record holds what the context says was decoded last. -/
def Context.HoldsRegions (c : Context) (start info : HardwareInfo) : Prop :=
  match c.regions with
  | none => info.physicalMemoryRegions = start.physicalMemoryRegions ∧
      info.physicalMemoryRegionCount = start.physicalMemoryRegionCount
  | some regions => regions.length ≤ 16 ∧
      info.physicalMemoryRegionCount = UInt64.ofNat regions.length ∧
      info.physicalMemoryRegions.toList.take regions.length = regions

theorem Context.exists_reg {mem : Memory} {c : Context} (decodes : c.decodes mem = true) :
    ∃ q, c.reg = some q := by
  rw [Context.decodes, Bool.and_eq_true] at decodes
  exact Option.isSome_iff_exists.mp decodes.1

theorem Context.exists_cells {c : Context}
    (known : c.addressCells.isSome = true ∧ c.sizeCells.isSome = true) :
    ∃ addressCells sizeCells, c.addressCells = some addressCells ∧
      c.sizeCells = some sizeCells := by
  rcases Option.isSome_iff_exists.mp known.1 with ⟨addressCells, address⟩
  rcases Option.isSome_iff_exists.mp known.2 with ⟨sizeCells, size⟩
  exact ⟨addressCells, sizeCells, address, size⟩

/-- With both cell counts known, the pairs the code decodes are those of the context. -/
theorem Context.Models.pairs_eq {mem : Memory} {start : HardwareInfo} {c : Context}
    (models : c.Models mem start s info) (decodes : c.decodes mem = true)
    (initialized : s.addressCellsInitialized ∧ s.sizeCellsInitialized) :
    contextPairs mem s info = c.pairs mem := by
  rw [models.addressFlag, models.sizeFlag] at initialized
  rcases Context.exists_cells initialized with ⟨address, size, addressEq, sizeEq⟩
  rcases Context.exists_reg decodes with ⟨p, reg⟩
  obtain ⟨addressValue, sizeValue, pointer, regSize⟩ := models.values reg addressEq sizeEq
  rw [contextPairs, Context.pairs, addressValue, sizeValue, pointer, regSize, reg, addressEq,
    sizeEq]
  rfl

theorem WalkHead.holdsRegions (halts : env.panicReturns = false)
    (head : WalkHead env outHwInfo dtb prior ts s info) :
    (contextOf env.memory dtb ts).HoldsRegions prior info := by
  refine head.induct (P := fun ts s info =>
    (contextOf env.memory dtb ts).HoldsRegions prior info) walkRecord_regions ?_
  intro ts s info t next s' info' head holds token same _ record
  subst same
  obtain ⟨rfl, accepted⟩ := record.halting halts
  rw [contextOf_snoc]
  cases t with
  | prop p =>
      have models := head.models.past_prop token
      have accepted := accepted p rfl
      simp only [HardwareInfo.past, HardwareInfo.withNode, Context.step, Context.decode,
        models.decodes]
      split
      · rename_i decodes
        have decoded := accepted.reg (models.decodes.mpr decodes)
        have fits := decoded.length_le
        rw [← models.pairs_eq decodes (accepted.initialized (models.decodes.mpr decodes))]
        exact ⟨fits, rfl, fillRegions_take fits⟩
      · have cells : (info.withCells env.memory (propertyName env.memory dtb p) p
            s).physicalMemoryRegions = info.physicalMemoryRegions ∧
            (info.withCells env.memory (propertyName env.memory dtb p) p
              s).physicalMemoryRegionCount = info.physicalMemoryRegionCount := by
          unfold HardwareInfo.withCells
          split <;> [exact ⟨rfl, rfl⟩; (split <;> exact ⟨rfl, rfl⟩)]
        unfold Context.HoldsRegions at holds ⊢
        rw [cells.1, cells.2]
        exact holds
  | _ => exact holds

end Heads

end CharcoalOS
