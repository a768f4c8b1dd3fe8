import CharcoalOS.Hardware.Context

/-!
# Whose properties the context holds

The walk keeps one `reg` and one `device_type` for all nodes, clears them where a node
opens and does not restore them where one closes. Here the calls it makes with them are
compared with the node that is open: `context_sound_iff` for the pointers it passes on,
`memory_per_node_iff` for the calls of `physical_memory_regions`.
-/

namespace CharcoalOS

open Effect Effect.Program Nesting

/-- The innermost node open after `ts`, named by the position of its `FDT_BEGIN_NODE`. -/
abbrev currentNode (ts : List Token) : Option Nat := innermost Token.mark ts

/-- The token is a `reg` property. -/
abbrev isReg (mem : Memory) (dtb : UInt64) : Token → Bool := isNamed mem dtb .reg

/-- The variable that the selected properties set was last set by the property `p` of the
node `n`, after `us`. -/
def SetByNode (sel : Token → Bool) (ts : List Token) (n : Nat) (p : Property) : Prop :=
  ∃ us, SetAfter Token.mark sel ts us (.prop p) ∧ currentNode us = some n

/-- A selected property has been seen since the last node opened or closed. -/
abbrev SeenHere (sel : Token → Bool) (ts : List Token) : Prop :=
  (sinceBracket Token.mark ts).any sel = true

/-- A selected property has been seen since the last node opened. -/
abbrev SeenSinceOpen (sel : Token → Bool) (ts : List Token) : Prop :=
  (held Token.mark sel ts).isSome = true

section Selected

variable {sel : Token → Bool} {ts : List Token} {n : Nat} {p : Property}

/-- Only properties are selected. -/
def SelectsProperties (sel : Token → Bool) : Prop := ∀ t, sel t = true → ∃ p, t = .prop p

theorem selects_isNamed {mem : Memory} {dtb : UInt64} {kind : PropertyName} :
    SelectsProperties (isNamed mem dtb kind) := by
  intro t named
  cases t <;> first | exact ⟨_, rfl⟩ | cases named

theorem selects_isMemoryType {mem : Memory} {dtb : UInt64} :
    SelectsProperties (isMemoryType mem dtb) := by
  intro t memory
  cases t <;> first | exact ⟨_, rfl⟩ | cases memory

theorem SelectsProperties.inside (selects : SelectsProperties sel) (t : Token)
    (selected : sel t = true) : t.mark = .inside := by
  obtain ⟨p, rfl⟩ := selects t selected
  rfl

theorem currentNode_prop : currentNode (ts ++ [.prop p]) = currentNode ts := by
  rw [currentNode, innermost, openBrackets_snoc]
  rfl

/-- What is set since the last bracket is set since the last node opened. -/
theorem seenSinceOpen_of_seenHere (seen : SeenHere sel ts) : SeenSinceOpen sel ts := by
  induction ts using List.reverseRecOn with
  | nil => cases seen
  | append_singleton ts t ih =>
      rw [SeenHere, sinceBracket, List.rtakeWhile_concat] at seen
      rw [SeenSinceOpen, held_snoc]
      split at seen
      · rename_i inside
        have inside : t.mark = .inside := by simpa using inside
        rw [List.any_append, Bool.or_eq_true] at seen
        rw [if_neg (by rw [inside]; decide)]
        split
        · rfl
        · rename_i other
          refine ih (seen.resolve_right ?_)
          simpa using other
      · cases seen

/-- Some property of the open node set the variable, exactly if one has been seen since
the last node opened or closed. -/
theorem exists_setByNode_iff (selects : SelectsProperties sel) (here : currentNode ts = some n) :
    (∃ p, SetByNode sel ts n p) ↔ SeenHere sel ts := by
  constructor
  · intro setHere
    obtain ⟨p, us, set, owner⟩ := setHere
    exact (set.innermost_iff selects.inside here).mp owner
  · intro seen
    obtain ⟨t, eq⟩ := Option.isSome_iff_exists.mp (seenSinceOpen_of_seenHere seen)
    obtain ⟨us, set⟩ := (held_eq_some_iff selects.inside).mp eq
    obtain ⟨p, rfl⟩ := selects t (by obtain ⟨_, _, selected, _⟩ := set; exact selected)
    exact ⟨p, us, set, (set.innermost_iff selects.inside here).mpr seen⟩

/-- The property that the variable is set by is one. -/
theorem setByNode_iff (selects : SelectsProperties sel) (here : currentNode ts = some n)
    (value : held Token.mark sel ts = some (.prop p)) :
    SetByNode sel ts n p ↔ SeenHere sel ts := by
  constructor
  · exact fun set => (exists_setByNode_iff selects here).mp ⟨p, set⟩
  · intro seen
    obtain ⟨us, set⟩ := (held_eq_some_iff selects.inside).mp value
    exact ⟨us, set, (set.innermost_iff selects.inside here).mpr seen⟩

end Selected

/-! ## The context at a property -/

section Heads

variable {env : Env} {outHwInfo dtb : UInt64} {prior info : HardwareInfo} {ts : List Token}
  {s : Walk} {p : Property} {next : UInt64}

/-- The context at the property `p` after the tokens `ts`, before it is decoded. -/
def contextAt (mem : Memory) (dtb : UInt64) (ts : List Token) (p : Property) : Context :=
  (contextOf mem dtb ts).withProperty mem (propertyName mem dtb p) p

/-- Both cell counts are known. -/
def Context.CellsKnown (c : Context) : Prop :=
  c.addressCells.isSome = true ∧ c.sizeCells.isSome = true

theorem contextOf_prop {mem : Memory} :
    contextOf mem dtb (ts ++ [.prop p]) = (contextAt mem dtb ts p).decode mem := contextOf_snoc

theorem reg_contextAt {mem : Memory} :
    (contextAt mem dtb ts p).reg.map Token.prop =
      held Token.mark (isReg mem dtb) (ts ++ [.prop p]) := by
  rw [← reg_contextOf, contextOf_prop, Context.decode_field Context.reg _ fun _ _ => rfl]

theorem memory_contextAt {mem : Memory} :
    (contextAt mem dtb ts p).memory =
      (held Token.mark (isMemoryType mem dtb) (ts ++ [.prop p])).isSome := by
  rw [← memory_contextOf, contextOf_prop, Context.decode_field Context.memory _ fun _ _ => rfl]

/-- The walk past a property is what the context says. -/
theorem WalkHead.modelsAt (head : WalkHead env outHwInfo dtb prior ts s info)
    (token : BlobToken env.memory dtb s.dtbCursor (.prop p) next) :
    (contextAt env.memory dtb ts p).Models env.memory (walkRecord env outHwInfo dtb prior)
      (s.past env.memory dtb (.prop p) next)
      (info.withCells env.memory (propertyName env.memory dtb p) p s) :=
  head.models.past_prop token

/-- Reading a character emits reads. -/
theorem read_of_mem_charRead {text : CharPointer} {i : Nat} {e : Event}
    (member : e ∈ charRead text i) : ∃ q, e = .read q := by
  cases text with
  | literal => exact absurd member List.not_mem_nil
  | pointer q => exact ⟨_, List.mem_singleton.mp member⟩

/-- The two calls that hand on the node context come from deciding on it. -/
theorem WalkHead.nodeEvent_of_call (head : WalkHead env outHwInfo dtb prior ts s info)
    {e : Event} (call : (∃ text, e = .compareDeviceType text) ∨
      ∃ addressCells sizeCells reg regSize, e = .decodeRegions addressCells sizeCells reg regSize)
    (member : e ∈ (walkStep env dtb (blobEnd env.memory dtb) s info).events) :
    ∃ p next, BlobToken env.memory dtb s.dtbCursor (.prop p) next ∧
      CellsFit env.memory (propertyName env.memory dtb p) p s ∧
      NodeEvent env.memory (s.past env.memory dtb (.prop p) next)
        (info.withCells env.memory (propertyName env.memory dtb p) p s) e := by
  cases (walkStep_post env dtb s info).2 _ member with
  | cursor event =>
      cases event <;> rcases call with ⟨_, eq⟩ | ⟨_, _, _, _, eq⟩ <;> cases eq
  | @handle p next _ token event =>
      rw [head.header_eq] at token event
      rcases event with save | ⟨fits, node⟩
      · cases save with
        | nodeName read =>
            obtain ⟨q, rfl⟩ := read_of_mem_charRead read
            rcases call with ⟨_, eq⟩ | ⟨_, _, _, _, eq⟩ <;> cases eq
        | _ => rcases call with ⟨_, eq⟩ | ⟨_, _, _, _, eq⟩ <;> cases eq
      · exact ⟨p, next, token, fits, node⟩

/-- The walk compares its `device_type` at the properties after a `reg`, and only there. -/
theorem WalkHead.compare_iff (head : WalkHead env outHwInfo dtb prior ts s info)
    {text : CharPointer} :
    .compareDeviceType text ∈ (walkStep env dtb (blobEnd env.memory dtb) s info).events ↔
      ∃ p next, BlobToken env.memory dtb s.dtbCursor (.prop p) next ∧
        CellsFit env.memory (propertyName env.memory dtb p) p s ∧
        (contextAt env.memory dtb ts p).reg.isSome = true ∧
        text = if (contextAt env.memory dtb ts p).memory then .literal "memory"
          else .pointer .null := by
  constructor
  · intro member
    obtain ⟨p, next, token, fits, event⟩ := head.nodeEvent_of_call (Or.inl ⟨text, rfl⟩) member
    have models := head.modelsAt token
    refine ⟨p, next, token, fits, ?_⟩
    cases event with
    | compare reg =>
        refine ⟨?_, models.deviceType⟩
        rw [Option.isSome_iff_ne_none]
        intro none
        rw [models.reg, none] at reg
        exact reg rfl
    | deviceType _ _ read => exact nomatch (read_of_mem_charRead read).choose_spec
    | reg _ _ event => cases event
  · intro compared
    obtain ⟨p, next, token, fits, reg, rfl⟩ := compared
    have models := head.modelsAt token
    obtain ⟨o, evs, post, inner, -⟩ := step_prop head.header_eq token
    obtain ⟨q, eq⟩ := Option.isSome_iff_exists.mp reg
    have address : (s.past env.memory dtb (.prop p) next).currentNodeReg.address ≠ 0 := by
      rw [models.reg, eq]
      exact models.placed q eq
    rw [← models.deviceType]
    exact inner _ (post.compared fits address)

/-- The walk calls `physical_memory_regions` at the properties at which its context is
complete and both cell counts are known, and only there. -/
theorem WalkHead.decode_iff (head : WalkHead env outHwInfo dtb prior ts s info)
    {addressCells sizeCells : UInt32} {reg : Pointer} {regSize : UInt64} :
    .decodeRegions addressCells sizeCells reg regSize ∈
        (walkStep env dtb (blobEnd env.memory dtb) s info).events ↔
      ∃ p next q, BlobToken env.memory dtb s.dtbCursor (.prop p) next ∧
        CellsFit env.memory (propertyName env.memory dtb p) p s ∧
        (contextAt env.memory dtb ts p).decodes env.memory = true ∧
        (contextAt env.memory dtb ts p).CellsKnown ∧
        (contextAt env.memory dtb ts p).reg = some q ∧ reg = q.dataBytes ∧
        regSize = q.length.toUInt64 ∧
        (contextAt env.memory dtb ts p).addressCells = some addressCells ∧
        (contextAt env.memory dtb ts p).sizeCells = some sizeCells := by
  constructor
  · intro member
    obtain ⟨p, next, token, fits, event⟩ :=
      head.nodeEvent_of_call (Or.inr ⟨_, _, _, _, rfl⟩) member
    have models := head.modelsAt token
    cases event with
    | deviceType _ _ read => exact nomatch (read_of_mem_charRead read).choose_spec
    | reg _ _ event => cases event
    | decode decodes cells =>
        have complete := models.decodes.mp decodes
        rw [models.addressFlag, models.sizeFlag] at cells
        rcases Context.exists_reg complete with ⟨q, eq⟩
        rcases Context.exists_cells cells with ⟨address, size, addressEq, sizeEq⟩
        obtain ⟨addressValue, sizeValue, pointer, regSize⟩ := models.values eq addressEq sizeEq
        refine ⟨p, next, q, token, fits, complete, cells, eq, pointer, ?_, ?_, ?_⟩
        · rw [regSize]
        · rw [addressValue, addressEq]
        · rw [sizeValue, sizeEq]
  · intro decoded
    obtain ⟨p, next, q, token, fits, complete, cells, eq, rfl, rfl, address, size⟩ := decoded
    have models := head.modelsAt token
    obtain ⟨o, evs, post, inner, -⟩ := step_prop head.header_eq token
    have flags : (s.past env.memory dtb (.prop p) next).addressCellsInitialized ∧
        (s.past env.memory dtb (.prop p) next).sizeCellsInitialized := by
      rw [models.addressFlag, models.sizeFlag]
      exact cells
    obtain ⟨addressValue, sizeValue, pointer, regSize⟩ := models.values eq address size
    rw [← addressValue, ← sizeValue, ← pointer, ← regSize]
    exact inner _ (post.decoded fits (models.decodes.mpr complete) flags)

theorem headToken_eq (token : BlobToken env.memory dtb s.dtbCursor (.prop p) next) :
    headToken env.memory s = .prop p := token.tokenOf_eq

theorem seenSinceOpen_reg {mem : Memory} :
    SeenSinceOpen (isReg mem dtb) (ts ++ [.prop p]) ↔
      (contextAt mem dtb ts p).reg.isSome = true := by
  rw [SeenSinceOpen, ← reg_contextAt, Option.isSome_map]

/-- The `reg` of the context is that of the property which set it. -/
theorem held_of_reg {mem : Memory} {q : Property} (eq : (contextAt mem dtb ts p).reg = some q) :
    held Token.mark (isReg mem dtb) (ts ++ [.prop p]) = some (.prop q) := by
  rw [← reg_contextAt, eq]
  rfl

/-! ## The pointers handed on -/

/-- The pointer is not null. -/
def CharPointer.NonNull : CharPointer → Prop
  | .literal _ => True
  | .pointer q => q.address ≠ 0

/-- The pointers that the iteration at the head `s` hands on are non-null, and were set by
properties of the node that is open. -/
structure CallSound (mem : Memory) (dtb : UInt64) (ts : List Token) (s : Walk) (e : Event) :
    Prop where
  deviceType : ∀ text, e = .compareDeviceType text → text.NonNull ∧
    ∃ n p, currentNode ts = some n ∧
      SetByNode (isMemoryType mem dtb) (ts ++ [headToken mem s]) n p
  reg : ∀ addressCells sizeCells reg regSize,
    e = .decodeRegions addressCells sizeCells reg regSize → reg.address ≠ 0 ∧
    ∃ n p, currentNode ts = some n ∧
      SetByNode (isReg mem dtb) (ts ++ [headToken mem s]) n p ∧ reg = p.dataBytes

/-- The context at the property `p` after `ts` is that of the node that is open: if it has a
`reg`, a node is open, a memory `device_type` has been seen since a node last opened or
closed, and so has a `reg` if it is going to be decoded. -/
structure ContextHere (mem : Memory) (dtb : UInt64) (ts : List Token) (p : Property) : Prop where
  inNode : (currentNode ts).isSome = true
  deviceType : SeenHere (isMemoryType mem dtb) (ts ++ [.prop p])
  reg : (contextAt mem dtb ts p).CellsKnown → SeenHere (isReg mem dtb) (ts ++ [.prop p])

/-- A sound iteration has its context from the node that is open. -/
theorem WalkHead.contextHere_of_sound (head : WalkHead env outHwInfo dtb prior ts s info)
    (sound : ∀ e ∈ (walkStep env dtb (blobEnd env.memory dtb) s info).events,
      CallSound env.memory dtb ts s e)
    (token : BlobToken env.memory dtb s.dtbCursor (.prop p) next)
    (fits : CellsFit env.memory (propertyName env.memory dtb p) p s)
    (seen : SeenSinceOpen (isReg env.memory dtb) (ts ++ [.prop p])) :
    ContextHere env.memory dtb ts p := by
  have regSet := seenSinceOpen_reg.mp seen
  have compared := head.compare_iff.mpr ⟨p, next, token, fits, regSet, rfl⟩
  obtain ⟨-, n, q, here, set⟩ := (sound _ compared).deviceType _ rfl
  rw [headToken_eq token] at set
  have here' : currentNode (ts ++ [.prop p]) = some n := currentNode_prop.trans here
  have memorySeen := (exists_setByNode_iff selects_isMemoryType here').mp ⟨q, set⟩
  refine ⟨by rw [here]; rfl, memorySeen, fun known => ?_⟩
  obtain ⟨q, eq⟩ := Option.isSome_iff_exists.mp regSet
  have memory : (contextAt env.memory dtb ts p).memory = true := by
    rw [memory_contextAt]
    exact seenSinceOpen_of_seenHere memorySeen
  have complete : (contextAt env.memory dtb ts p).decodes env.memory = true := by
    rw [Context.decodes, regSet, memory]
    rfl
  rcases Context.exists_cells known with ⟨address, size, addressEq, sizeEq⟩
  have decoded := head.decode_iff.mpr
    ⟨p, next, q, token, fits, complete, known, eq, rfl, rfl, addressEq, sizeEq⟩
  obtain ⟨-, m, q', here'', set', -⟩ := (sound _ decoded).reg _ _ _ _ rfl
  rw [headToken_eq token] at set'
  exact (exists_setByNode_iff selects_isNamed (currentNode_prop.trans here'')).mp ⟨q', set'⟩

/-- An iteration with its context from the node that is open is sound. -/
theorem WalkHead.sound_of_contextHere (head : WalkHead env outHwInfo dtb prior ts s info)
    (here : ∀ p next, BlobToken env.memory dtb s.dtbCursor (.prop p) next →
      CellsFit env.memory (propertyName env.memory dtb p) p s →
      SeenSinceOpen (isReg env.memory dtb) (ts ++ [.prop p]) → ContextHere env.memory dtb ts p)
    {e : Event} (member : e ∈ (walkStep env dtb (blobEnd env.memory dtb) s info).events) :
    CallSound env.memory dtb ts s e := by
  constructor
  · intro text same
    subst same
    obtain ⟨p, next, token, fits, regSet, rfl⟩ := head.compare_iff.mp member
    have context := here p next token fits (seenSinceOpen_reg.mpr regSet)
    obtain ⟨n, node⟩ := Option.isSome_iff_exists.mp context.inNode
    have memory : (contextAt env.memory dtb ts p).memory = true := by
      rw [memory_contextAt]
      exact seenSinceOpen_of_seenHere context.deviceType
    rw [memory, headToken_eq token]
    obtain ⟨q, set⟩ := (exists_setByNode_iff selects_isMemoryType
      (currentNode_prop.trans node)).mpr context.deviceType
    exact ⟨trivial, n, q, node, set⟩
  · intro addressCells sizeCells reg regSize same
    subst same
    obtain ⟨p, next, q, token, fits, -, known, eq, rfl, -⟩ := head.decode_iff.mp member
    have context := here p next token fits (seenSinceOpen_reg.mpr (by rw [eq]; rfl))
    obtain ⟨n, node⟩ := Option.isSome_iff_exists.mp context.inNode
    rw [headToken_eq token]
    have set := (setByNode_iff selects_isNamed (currentNode_prop.trans node)
      (held_of_reg eq)).mpr (context.reg known)
    exact ⟨(head.modelsAt token).placed q eq, n, q, node, set, rfl⟩

/-- **No null or foreign node context is handed on, exactly where every `reg` in the context
comes with a memory `device_type` of the same node.** -/
theorem context_sound_iff (env : Env) (outHwInfo dtb : UInt64) (prior : HardwareInfo) :
    (∀ ts s info, WalkHead env outHwInfo dtb prior ts s info →
      ∀ e ∈ (walkStep env dtb (blobEnd env.memory dtb) s info).events,
        CallSound env.memory dtb ts s e) ↔
    ∀ ts s info, WalkHead env outHwInfo dtb prior ts s info →
      ∀ p next, BlobToken env.memory dtb s.dtbCursor (.prop p) next →
        CellsFit env.memory (propertyName env.memory dtb p) p s →
        SeenSinceOpen (isReg env.memory dtb) (ts ++ [.prop p]) →
        ContextHere env.memory dtb ts p := by
  constructor
  · intro sound ts s info head p next token fits seen
    exact head.contextHere_of_sound (sound ts s info head) token fits seen
  · intro here ts s info head e member
    exact head.sound_of_contextHere (here ts s info head) member

/-- A root with a node that has a `reg` and no `device_type`. -/
def cpuBlob : Blob where
  structBlock := Blob.beginNode "" ++ Blob.beginNode "cpu" ++ Blob.prop regOffset (word 0) ++
    Blob.endNode ++ Blob.endNode ++ Blob.fdtEnd
  stringsBlock := savedNames

/-- In such a blob the `device_type` handed on is null. -/
theorem null_device_type :
    (parseDeviceTreeBlob cpuBlob.env 1 Blob.address .zero).outcome = .ok () ∧
      ¬ ∀ ts s info, WalkHead cpuBlob.env 1 Blob.address .zero ts s info →
        ∀ e ∈ (walkStep cpuBlob.env Blob.address (blobEnd cpuBlob.env.memory Blob.address) s
            info).events, CallSound cpuBlob.env.memory Blob.address ts s e := by
  refine ⟨by decide +kernel, fun sound => ?_⟩
  have compared : .compareDeviceType (.pointer .null) ∈
      (parseDeviceTreeBlob cpuBlob.env 1 Blob.address .zero).events := by decide +kernel
  rcases mem_events_parse compared with event | ⟨ts, s, info, head, member⟩
  · cases event
  · exact ((sound ts s info head _ member).deviceType _ rfl).1 rfl

/-! ## Memory nodes -/

/-- A selected property belongs to the node `n`. -/
def HasProperty (sel : Token → Bool) (ts : List Token) (n : Nat) : Prop :=
  ∃ us t vs, ts = us ++ t :: vs ∧ sel t = true ∧ currentNode us = some n

/-- The call of `physical_memory_regions` at the token `t` after `ts` is made with a `reg` and
a `device_type` "memory" of the node `n`, which is open. -/
structure MatchingCall (mem : Memory) (dtb : UInt64) (ts : List Token) (t : Token) (n : Nat)
    (reg : Pointer) (regSize : UInt64) : Prop where
  inNode : currentNode ts = some n
  reg : ∃ p, SetByNode (isReg mem dtb) (ts ++ [t]) n p ∧ reg = p.dataBytes ∧
    regSize = p.length.toUInt64
  deviceType : ∃ p, SetByNode (isMemoryType mem dtb) (ts ++ [t]) n p

/-- Memory is recognised per node: every call is made with the properties of the open node,
and every node with both properties leads to a call. -/
structure MemoryPerNode (env : Env) (outHwInfo dtb : UInt64) (prior : HardwareInfo)
    (us : List Token) : Prop where
  calls : ∀ ts s info, WalkHead env outHwInfo dtb prior ts s info →
    ∀ addressCells sizeCells reg regSize,
      .decodeRegions addressCells sizeCells reg regSize ∈
        (walkStep env dtb (blobEnd env.memory dtb) s info).events →
      ∃ n, MatchingCall env.memory dtb ts (headToken env.memory s) n reg regSize
  nodes : ∀ n, HasProperty (isReg env.memory dtb) us n →
    HasProperty (isMemoryType env.memory dtb) us n →
    ∃ ts s info, WalkHead env outHwInfo dtb prior ts s info ∧
      ∃ addressCells sizeCells reg regSize,
        .decodeRegions addressCells sizeCells reg regSize ∈
          (walkStep env dtb (blobEnd env.memory dtb) s info).events ∧
        MatchingCall env.memory dtb ts (headToken env.memory s) n reg regSize

/-- Both properties of a memory node have been seen since a node last opened or closed. -/
def BothSeenHere (mem : Memory) (dtb : UInt64) (ts : List Token) : Prop :=
  SeenHere (isReg mem dtb) ts ∧ SeenHere (isMemoryType mem dtb) ts

/-- The tokens keep to the order the single context can follow: where a `reg` and a memory
`device_type` have been seen since a node last opened, both have been seen since one last
opened or closed, inside a node; and each node with both has them in one run of properties,
with no child between. -/
structure ContextFollows (mem : Memory) (dtb : UInt64) (ts : List Token) : Prop where
  complete : ∀ us p vs, ts = us ++ .prop p :: vs →
    SeenSinceOpen (isReg mem dtb) (us ++ [.prop p]) →
    SeenSinceOpen (isMemoryType mem dtb) (us ++ [.prop p]) ∨ nullReadsMemory mem = true →
    (currentNode us).isSome = true ∧ BothSeenHere mem dtb (us ++ [.prop p])
  together : ∀ n, HasProperty (isReg mem dtb) ts n → HasProperty (isMemoryType mem dtb) ts n →
    ∃ us p vs, ts = us ++ .prop p :: vs ∧ currentNode us = some n ∧
      BothSeenHere mem dtb (us ++ [.prop p])

theorem decodes_contextAt {mem : Memory} :
    (contextAt mem dtb ts p).decodes mem = true ↔
      SeenSinceOpen (isReg mem dtb) (ts ++ [.prop p]) ∧
        (SeenSinceOpen (isMemoryType mem dtb) (ts ++ [.prop p]) ∨
          nullReadsMemory mem = true) := by
  rw [Context.decodes, Bool.and_eq_true, Bool.or_eq_true, ← seenSinceOpen_reg,
    memory_contextAt]

theorem MatchingCall.bothSeenHere {mem : Memory} {n : Nat} {reg : Pointer} {regSize : UInt64}
    (call : MatchingCall mem dtb ts (.prop p) n reg regSize) :
    BothSeenHere mem dtb (ts ++ [.prop p]) := by
  have here : currentNode (ts ++ [.prop p]) = some n := currentNode_prop.trans call.inNode
  obtain ⟨q, set, -⟩ := call.reg
  obtain ⟨q', set'⟩ := call.deviceType
  exact ⟨(exists_setByNode_iff selects_isNamed here).mp ⟨q, set⟩,
    (exists_setByNode_iff selects_isMemoryType here).mp ⟨q', set'⟩⟩

/-- A call after both properties have been seen here is made with those of the open node. -/
theorem matchingCall_of_bothSeenHere {mem : Memory} {n : Nat} {q : Property}
    (inNode : currentNode ts = some n) (both : BothSeenHere mem dtb (ts ++ [.prop p]))
    (eq : (contextAt mem dtb ts p).reg = some q) :
    MatchingCall mem dtb ts (.prop p) n q.dataBytes q.length.toUInt64 := by
  have here : currentNode (ts ++ [.prop p]) = some n := currentNode_prop.trans inNode
  exact ⟨inNode,
    ⟨q, (setByNode_iff selects_isNamed here (held_of_reg eq)).mpr both.1, rfl, rfl⟩,
    (exists_setByNode_iff selects_isMemoryType here).mpr both.2⟩

/-- An accepted property whose context is complete is decoded. -/
theorem WalkHead.decoded_of_accepted (halts : env.panicReturns = false)
    (head : WalkHead env outHwInfo dtb prior ts s info)
    (token : BlobToken env.memory dtb s.dtbCursor (.prop p) next) {s' : Walk}
    {info' : HardwareInfo}
    (edge : Continues (walkStep env dtb (blobEnd env.memory dtb)) (s, info) (s', info'))
    (complete : (contextAt env.memory dtb ts p).decodes env.memory = true) :
    ∃ q addressCells sizeCells, (contextAt env.memory dtb ts p).reg = some q ∧
      .decodeRegions addressCells sizeCells q.dataBytes q.length.toUInt64 ∈
        (walkStep env dtb (blobEnd env.memory dtb) s info).events := by
  obtain ⟨t, next', token', rfl, -, record⟩ := continues_inv head.header_eq edge
  obtain ⟨rfl, rfl⟩ := token.unique token'
  obtain ⟨-, accepted⟩ := record.halting halts
  have accepted := accepted p rfl
  have models := head.modelsAt token
  have known := accepted.initialized (models.decodes.mpr complete)
  rw [models.addressFlag, models.sizeFlag] at known
  rcases Context.exists_cells known with ⟨address, size, addressEq, sizeEq⟩
  rcases Context.exists_reg complete with ⟨q, eq⟩
  exact ⟨q, address, size, eq, head.decode_iff.mpr
    ⟨p, next, q, token, accepted.cells, complete, known, eq, rfl, rfl, addressEq, sizeEq⟩⟩

/-- Where memory is recognised per node, the tokens keep to that order. -/
theorem MemoryPerNode.follows {us : List Token} (halts : env.panicReturns = false)
    (returned : (parseDeviceTreeBlob env outHwInfo dtb prior).outcome = .ok ())
    (tokens : BlobTokens env.memory dtb us) (perNode : MemoryPerNode env outHwInfo dtb prior us) :
    ContextFollows env.memory dtb us := by
  refine ⟨fun ts p vs split regSeen memorySeen => ?_, fun n regs types => ?_⟩
  · rw [split] at tokens
    obtain ⟨s, info, next, s', info', head, token, edge⟩ :=
      exists_head_of_tokens halts returned tokens
    obtain ⟨q, address, size, -, decoded⟩ := head.decoded_of_accepted halts token edge
      (decodes_contextAt.mpr ⟨regSeen, memorySeen⟩)
    obtain ⟨n, call⟩ := perNode.calls ts s info head _ _ _ _ decoded
    rw [headToken_eq token] at call
    exact ⟨by rw [call.inNode]; rfl, call.bothSeenHere⟩
  · obtain ⟨ts, s, info, head, _, _, _, _, decoded, call⟩ := perNode.nodes n regs types
    obtain ⟨p, next, q, token, -⟩ := head.decode_iff.mp decoded
    rw [headToken_eq token] at call
    obtain ⟨vs, split⟩ := head.tokens_eq tokens token
    exact ⟨ts, p, vs, split, call.inNode, call.bothSeenHere⟩

/-- Where the tokens keep to that order, memory is recognised per node. -/
theorem ContextFollows.perNode {us : List Token} (halts : env.panicReturns = false)
    (returned : (parseDeviceTreeBlob env outHwInfo dtb prior).outcome = .ok ())
    (tokens : BlobTokens env.memory dtb us) (follows : ContextFollows env.memory dtb us) :
    MemoryPerNode env outHwInfo dtb prior us := by
  refine ⟨fun ts s info head _ _ _ _ decoded => ?_, fun n regs types => ?_⟩
  · obtain ⟨p, next, q, token, -, complete, -, eq, rfl, rfl, -⟩ := head.decode_iff.mp decoded
    obtain ⟨vs, split⟩ := head.tokens_eq tokens token
    obtain ⟨regSeen, memorySeen⟩ := decodes_contextAt.mp complete
    obtain ⟨inNode, both⟩ := follows.complete ts p vs split regSeen memorySeen
    obtain ⟨n, node⟩ := Option.isSome_iff_exists.mp inNode
    rw [headToken_eq token]
    exact ⟨n, matchingCall_of_bothSeenHere node both eq⟩
  · obtain ⟨ts, p, vs, split, inNode, both⟩ := follows.together n regs types
    rw [split] at tokens
    obtain ⟨s, info, next, s', info', head, token, edge⟩ :=
      exists_head_of_tokens halts returned tokens
    obtain ⟨q, address, size, eq, decoded⟩ := head.decoded_of_accepted halts token edge
      (decodes_contextAt.mpr ⟨seenSinceOpen_of_seenHere both.1,
        Or.inl (seenSinceOpen_of_seenHere both.2)⟩)
    refine ⟨ts, s, info, head, address, size, _, _, decoded, ?_⟩
    rw [headToken_eq token]
    exact matchingCall_of_bothSeenHere inNode both eq

/-- **Memory is recognised per node, exactly where the tokens keep to the order the single context
can follow**: in an accepted blob, each property that finds a `reg` and a memory `device_type` is
of the node that they are of, and no child stands between the two. -/
theorem memory_per_node_iff (env : Env) (outHwInfo dtb : UInt64) (prior : HardwareInfo)
    (us : List Token) (halts : env.panicReturns = false)
    (returned : (parseDeviceTreeBlob env outHwInfo dtb prior).outcome = .ok ())
    (tokens : BlobTokens env.memory dtb us) :
    MemoryPerNode env outHwInfo dtb prior us ↔ ContextFollows env.memory dtb us :=
  ⟨MemoryPerNode.follows halts returned tokens, ContextFollows.perNode halts returned tokens⟩

/-- The tokens of a root up to the end of its memory node, at the start of the struct block. -/
def tokensBeforeLate : List Token :=
  [.beginNode (Blob.address + 60), .prop ⟨4, addressCellsOffset, Blob.address + 76⟩,
    .prop ⟨4, sizeCellsOffset, Blob.address + 92⟩, .beginNode (Blob.address + 100),
    .prop ⟨7, deviceTypeOffset, Blob.address + 120⟩, .prop ⟨8, regOffset, Blob.address + 140⟩,
    .endNode]

/-- The tokens of `memoryBlob`. -/
def memoryTokens : List Token := tokensBeforeLate ++ [.endNode, .fdtEnd]

theorem memoryBlob_tokens : walkTokens memoryBlob.env 1 Blob.address .zero = memoryTokens := by
  decide +kernel

/-- What can be checked at every position of a token list. -/
theorem forall_split {P : List Token → Token → Prop}
    (each : ∀ i (lt : i < ts.length), P (ts.take i) ts[i]) :
    ∀ us t vs, ts = us ++ t :: vs → P us t := by
  rintro us t vs rfl
  simpa using each us.length (by simp)

theorem contextFollows_memoryTokens :
    ContextFollows memoryBlob.env.memory Blob.address memoryTokens := by
  constructor
  · intro us p vs split reg memory
    have here := forall_split (P := fun us t =>
      t ≠ .endNode → t ≠ .fdtEnd →
      SeenSinceOpen (isReg memoryBlob.env.memory Blob.address) (us ++ [t]) →
      SeenSinceOpen (isMemoryType memoryBlob.env.memory Blob.address) (us ++ [t]) ∨
        nullReadsMemory memoryBlob.env.memory = true →
      (currentNode us).isSome = true ∧
        SeenHere (isReg memoryBlob.env.memory Blob.address) (us ++ [t]) ∧
        SeenHere (isMemoryType memoryBlob.env.memory Blob.address) (us ++ [t]))
      (by decide +kernel) us (.prop p) vs split
    exact here Token.noConfusion Token.noConfusion reg memory
  · rintro n ⟨us, t, vs, split, selected, node⟩ -
    -- a `reg` is a property of the memory node, which the fourth token opens
    have here := forall_split (P := fun us t =>
      isReg memoryBlob.env.memory Blob.address t = true → currentNode us = some 3)
      (by decide +kernel) us t vs split selected
    cases node.symm.trans here
    exact ⟨tokensBeforeLate.take 5, ⟨8, regOffset, Blob.address + 140⟩,
      [.endNode, .endNode, .fdtEnd], rfl, rfl, by decide +kernel, by decide +kernel⟩

/-- The tokens of a blob that has one memory node keep to that order, and its memory is
recognised. -/
theorem memory_per_node_memoryBlob :
    BlobTokens memoryBlob.env.memory Blob.address memoryTokens ∧
      ContextFollows memoryBlob.env.memory Blob.address memoryTokens ∧
      MemoryPerNode memoryBlob.env 1 Blob.address .zero memoryTokens := by
  have tokens := blobTokens_walkTokens rfl memoryBlob_returned
  rw [memoryBlob_tokens] at tokens
  exact ⟨tokens, contextFollows_memoryTokens, (memory_per_node_iff memoryBlob.env 1 Blob.address
    .zero _ rfl memoryBlob_returned tokens).mpr contextFollows_memoryTokens⟩

/-- A root whose memory node is followed by a property of the root. -/
def latePropertyBlob : Blob where
  structBlock := Blob.beginNode "" ++ narrowCells ++ memoryNode 0x40000000 0x1000 ++
    Blob.prop deviceTypeOffset (cString "root") ++ Blob.endNode ++ Blob.fdtEnd
  stringsBlock := savedNames

theorem latePropertyBlob_returned :
    (parseDeviceTreeBlob latePropertyBlob.env 1 Blob.address .zero).outcome = .ok () := by
  decide +kernel

theorem latePropertyBlob_tokens :
    walkTokens latePropertyBlob.env 1 Blob.address .zero = tokensBeforeLate ++
      .prop ⟨5, deviceTypeOffset, Blob.address + 164⟩ :: [.endNode, .fdtEnd] := by
  decide +kernel

/-- At that property the `reg` of the child is decoded again, in the name of the root. -/
theorem stale_node_context :
    (parseDeviceTreeBlob latePropertyBlob.env 1 Blob.address .zero).outcome = .ok () ∧
      ¬ MemoryPerNode latePropertyBlob.env 1 Blob.address .zero
        (walkTokens latePropertyBlob.env 1 Blob.address .zero) := by
  refine ⟨latePropertyBlob_returned, fun perNode => ?_⟩
  have tokens := blobTokens_walkTokens rfl latePropertyBlob_returned
  have follows := perNode.follows rfl latePropertyBlob_returned tokens
  -- a `reg` and a memory `device_type` have been seen since the child opened, and it has closed
  have both := (follows.complete tokensBeforeLate _ _ latePropertyBlob_tokens (by decide +kernel)
    (Or.inl (by decide +kernel))).2
  exact absurd both.1 (by decide +kernel)

end Heads

end CharcoalOS
