import CharcoalOS.Hardware.NodeContext

/-!
# The cell counts of the root

The widths of a `reg` are the cell counts of the root node. The walk takes a node for
the root if its name is empty, and looks at the name opened last, not at the depth.
`cells_of_root` is what holds where the two agree at every cell count.
-/

namespace CharcoalOS

open Effect Effect.Program Nesting

/-- The number of nodes open after `ts`. -/
def depth (ts : List Token) : Nat := (openBrackets Token.mark ts).length

/-- The value of a cell count. -/
def cellsValue (mem : Memory) : Token → UInt32
  | .prop p => be32 mem p.data
  | _ => 0

/-- The latest cell count of this name that belongs to the root, the only open node. -/
def rootCells (mem : Memory) (dtb : UInt64) (kind : PropertyName) (ts : List Token) :
    Option UInt32 :=
  (latest (fun us t => isNamed mem dtb kind t && depth us == 1) ts).map (cellsValue mem)

/-- The walk and the record have the cell counts of the root, and of no other node. -/
structure CellsOfRoot (mem : Memory) (dtb : UInt64) (prior : HardwareInfo) (ts : List Token)
    (s : Walk) (info : HardwareInfo) : Prop where
  addressFlag : s.addressCellsInitialized = (rootCells mem dtb .addressCells ts).isSome
  sizeFlag : s.sizeCellsInitialized = (rootCells mem dtb .sizeCells ts).isSome
  addressCells :
    info.addressCells = (rootCells mem dtb .addressCells ts).getD prior.addressCells
  sizeCells : info.sizeCells = (rootCells mem dtb .sizeCells ts).getD prior.sizeCells

section Context

variable {mem : Memory} {dtb : UInt64} {ts : List Token} {t : Token} {p : Property}
  {kind : PropertyName}

theorem rootCells_snoc :
    rootCells mem dtb kind (ts ++ [t]) =
      if isNamed mem dtb kind t && depth ts == 1 then some (cellsValue mem t)
      else rootCells mem dtb kind ts := by
  rw [rootCells, latest_snoc]
  split <;> rfl

/-- The context has the cell counts of the root. -/
def ContextOfRoot (mem : Memory) (dtb : UInt64) (ts : List Token) : Prop :=
  (contextOf mem dtb ts).addressCells = rootCells mem dtb .addressCells ts ∧
    (contextOf mem dtb ts).sizeCells = rootCells mem dtb .sizeCells ts

/-- Where an empty name means depth one, a cell count is saved exactly if it is the root's. -/
theorem savesCells_iff (cells : kind.IsCells)
    (agree : (propertyName mem dtb p).IsCells →
      ((contextOf mem dtb ts).nameEmpty mem = true ↔ depth ts = 1)) :
    ((contextOf mem dtb ts).nameEmpty mem && propertyName mem dtb p == kind) =
      (isNamed mem dtb kind (.prop p) && depth ts == 1) := by
  rw [isNamed, Bool.and_comm, Bool.eq_iff_iff, Bool.and_eq_true, Bool.and_eq_true]
  refine and_congr_right fun named => ?_
  rw [beq_iff_eq] at named
  rw [agree (by rw [named]; exact cells), beq_iff_eq]

theorem ContextOfRoot.contextAt (root : ContextOfRoot mem dtb ts)
    (agree : (propertyName mem dtb p).IsCells →
      ((contextOf mem dtb ts).nameEmpty mem = true ↔ depth ts = 1)) :
    (contextAt mem dtb ts p).addressCells = rootCells mem dtb .addressCells (ts ++ [.prop p]) ∧
      (contextAt mem dtb ts p).sizeCells = rootCells mem dtb .sizeCells (ts ++ [.prop p]) := by
  rw [rootCells_snoc, rootCells_snoc, ← savesCells_iff (Or.inl rfl) agree,
    ← savesCells_iff (Or.inr rfl) agree, ← root.1, ← root.2]
  exact ⟨rfl, rfl⟩

theorem ContextOfRoot.snoc (root : ContextOfRoot mem dtb ts)
    (agree : ∀ p, t = .prop p → (propertyName mem dtb p).IsCells →
      ((contextOf mem dtb ts).nameEmpty mem = true ↔ depth ts = 1)) :
    ContextOfRoot mem dtb (ts ++ [t]) := by
  cases t with
  | prop p =>
      rw [ContextOfRoot, contextOf_prop, Context.decode_field Context.addressCells _ fun _ _ => rfl,
        Context.decode_field Context.sizeCells _ fun _ _ => rfl]
      exact root.contextAt (agree p rfl)
  | _ =>
      rw [ContextOfRoot, contextOf_snoc, rootCells_snoc, rootCells_snoc]
      exact root

end Context

section Heads

variable {env : Env} {outHwInfo dtb : UInt64} {prior info : HardwareInfo} {ts : List Token}
  {s : Walk}

/-- At every cell count, the name opened last is empty exactly if one node is open. -/
def EmptyNameIsRoot (env : Env) (outHwInfo dtb : UInt64) (prior : HardwareInfo) : Prop :=
  ∀ ts s info, WalkHead env outHwInfo dtb prior ts s info →
    ∀ p next, BlobToken env.memory dtb s.dtbCursor (.prop p) next →
      (propertyName env.memory dtb p).IsCells → (s.nameEmpty env.memory = true ↔ depth ts = 1)

theorem WalkHead.contextOfRoot (emptyIsRoot : EmptyNameIsRoot env outHwInfo dtb prior)
    (head : WalkHead env outHwInfo dtb prior ts s info) : ContextOfRoot env.memory dtb ts := by
  refine head.induct (P := fun ts _ _ => ContextOfRoot env.memory dtb ts)
    (fun _ => ⟨rfl, rfl⟩) ?_
  intro ts s info t next s' info' head root token _ _ _
  refine root.snoc ?_
  intro p same cells
  subst same
  rw [← head.models.nameEmpty]
  exact emptyIsRoot ts s info head p next token cells

/-- Whether a token keeps an empty name to the root, given the tokens before it. -/
def EmptyNameAgrees (mem : Memory) (dtb : UInt64) (ts : List Token) : Token → Prop
  | .prop p => (propertyName mem dtb p).IsCells →
      ((contextOf mem dtb ts).nameEmpty mem = true ↔ depth ts = 1)
  | _ => True

instance (mem : Memory) (dtb : UInt64) (ts : List Token) (t : Token) :
    Decidable (EmptyNameAgrees mem dtb ts t) := by
  cases t <;> unfold EmptyNameAgrees <;> infer_instance

/-- On a blob it is enough to look at its tokens. -/
theorem emptyNameIsRoot_of_tokens {us : List Token} (tokens : BlobTokens env.memory dtb us)
    (agree : ∀ i (lt : i < us.length), EmptyNameAgrees env.memory dtb (us.take i) us[i]) :
    EmptyNameIsRoot env outHwInfo dtb prior := by
  intro ts s info head p next token
  obtain ⟨vs, rfl⟩ := head.tokens_eq tokens token
  rw [head.models.nameEmpty]
  have here := agree ts.length (by simp)
  simpa [EmptyNameAgrees] using here

theorem walkRecord_cells (passed : (readPrologue env outHwInfo dtb prior).outcome = .ok ()) :
    (walkRecord env outHwInfo dtb prior).addressCells = prior.addressCells ∧
      (walkRecord env outHwInfo dtb prior).sizeCells = prior.sizeCells := by
  obtain ⟨-, n, -, -, -, bases, sizes, count, same⟩ := prologue_passed passed
  rw [same]
  exact ⟨rfl, rfl⟩

/-- **The cell widths are the root's, in every run in which an empty name means the root at
every cell count.** -/
theorem cells_of_root (env : Env) (outHwInfo dtb : UInt64) (prior : HardwareInfo)
    (emptyIsRoot : EmptyNameIsRoot env outHwInfo dtb prior) :
    ∀ ts s info, WalkHead env outHwInfo dtb prior ts s info →
      CellsOfRoot env.memory dtb prior ts s info ∧
      ∀ addressCells sizeCells reg regSize,
        .decodeRegions addressCells sizeCells reg regSize ∈
          (walkStep env dtb (blobEnd env.memory dtb) s info).events →
        rootCells env.memory dtb .addressCells (ts ++ [headToken env.memory s]) =
            some addressCells ∧
          rootCells env.memory dtb .sizeCells (ts ++ [headToken env.memory s]) =
            some sizeCells := by
  intro ts s info head
  have models := head.models
  have root := head.contextOfRoot emptyIsRoot
  obtain ⟨address, size⟩ := walkRecord_cells head.passed
  constructor
  · constructor
    · rw [models.addressFlag, root.1]
    · rw [models.sizeFlag, root.2]
    · rw [models.addressCells, root.1, address]
    · rw [models.sizeCells, root.2, size]
  · intro addressCells sizeCells reg regSize decoded
    obtain ⟨p, next, q, token, -, -, -, -, -, -, addressEq, sizeEq⟩ :=
      head.decode_iff.mp decoded
    rw [headToken_eq token]
    have agree : (propertyName env.memory dtb p).IsCells →
        ((contextOf env.memory dtb ts).nameEmpty env.memory = true ↔ depth ts = 1) := by
      rw [← models.nameEmpty]
      exact emptyIsRoot ts s info head p next token
    rw [← (root.contextAt agree).1, ← (root.contextAt agree).2]
    exact ⟨addressEq, sizeEq⟩

/-- So they are in a blob that has one memory node. -/
theorem cells_of_root_memoryBlob :
    EmptyNameIsRoot memoryBlob.env 1 Blob.address .zero ∧
      ∀ ts s info, WalkHead memoryBlob.env 1 Blob.address .zero ts s info →
        CellsOfRoot memoryBlob.env.memory Blob.address .zero ts s info := by
  have emptyIsRoot : EmptyNameIsRoot memoryBlob.env 1 Blob.address .zero :=
    emptyNameIsRoot_of_tokens (blobTokens_walkTokens rfl memoryBlob_returned) (by decide +kernel)
  exact ⟨emptyIsRoot, fun ts s info head =>
    (cells_of_root memoryBlob.env 1 Blob.address .zero emptyIsRoot ts s info head).1⟩

/-- A root with an unnamed child that has a cell count. -/
def unnamedChildBlob : Blob where
  structBlock := Blob.beginNode "" ++ narrowCells ++ Blob.beginNode "" ++
    Blob.prop addressCellsOffset (word 2) ++ Blob.endNode ++ Blob.endNode ++ Blob.fdtEnd
  stringsBlock := savedNames

theorem unnamedChildBlob_returned :
    (parseDeviceTreeBlob unnamedChildBlob.env 1 Blob.address .zero).outcome = .ok () := by
  decide +kernel

/-- The cell count of the child takes the place of the root's. -/
theorem cells_of_child :
    (parseDeviceTreeBlob unnamedChildBlob.env 1 Blob.address .zero).outcome = .ok () ∧
      ¬ ∀ ts s info, WalkHead unnamedChildBlob.env 1 Blob.address .zero ts s info →
        CellsOfRoot unnamedChildBlob.env.memory Blob.address .zero ts s info := by
  refine ⟨unnamedChildBlob_returned, fun ofRoot => ?_⟩
  rcases exists_head_at_end rfl unnamedChildBlob_returned
    (blobTokens_walkTokens rfl unnamedChildBlob_returned) with ⟨s, head, -⟩
  exact absurd (ofRoot _ s _ head).addressCells (by decide +kernel)

end Heads

end CharcoalOS
