import CharcoalOS.Hardware.Prior
import CharcoalOS.Hardware.Widths

/-!
# The regions of a device tree

A blob that keeps properties before children is a tree of nodes written out
(`HoldsTree`). The nodes leave the context behind one after the other (`nodeContexts`),
and each memory node leaves the regions of its `reg`, read with the widths saved by then.
What the tree says is in `memoryPairs`: all those `reg`s, read with the cell counts of the
root. The parser stores from the first entry of the array on each time, and saves the cell
counts of any node without a name, so `keeps_all_regions_iff` is when nothing is lost: there
is one memory node at most, and it reads alike with the widths saved and the root's.
-/

namespace CharcoalOS

open Effect Effect.Program Nesting

/-- What a node opens with: its name and its properties. -/
structure DeviceNode : Type where
  name : UInt64
  properties : List Property

/-- A device tree, properties before children. -/
abbrev DeviceTree : Type := Outline DeviceNode

/-- The tokens before the children of a node. -/
def DeviceNode.tokens (node : DeviceNode) : List Token :=
  .beginNode node.name :: node.properties.map .prop

/-- `us` are the tokens of the blob at `dtb`, and write one tree, with `FDT_NOP` tokens
anywhere between. -/
structure HoldsTree (mem : Memory) (dtb : UInt64) (us : List Token) (tree : DeviceTree) :
    Prop where
  tokens : BlobTokens mem dtb us
  written : us.filter (· ≠ .nop) = tree.write DeviceNode.tokens .endNode ++ [.fdtEnd]

/-- The node has both properties of a memory node. -/
def Context.isMemoryNode (c : Context) : Bool := c.reg.isSome && c.memory

section Contexts

variable (mem : Memory) (dtb : UInt64)

/-- The context past the properties of a node. -/
def Context.enter (c : Context) (node : DeviceNode) : Context :=
  node.tokens.foldl (Context.step mem dtb) c

/-- The contexts that the nodes leave, in the order of the struct block. -/
def nodeContexts : Context → List DeviceNode → List Context
  | _, [] => []
  | c, node :: nodes => c.enter mem dtb node :: nodeContexts (c.enter mem dtb node) nodes

/-- The contexts that the nodes of a tree leave. -/
def treeContexts (tree : DeviceTree) : List Context :=
  nodeContexts mem dtb .initial tree.preorder

/-- The memory nodes of a tree. -/
def memoryNodes (tree : DeviceTree) : List Context :=
  (treeContexts mem dtb tree).filter Context.isMemoryNode

/-- The `reg`s of all memory nodes. -/
def memoryRegs (tree : DeviceTree) : List Property :=
  (memoryNodes mem dtb tree).filterMap Context.reg

/-- The cell count of this name among the properties of a node, the last if there are more. -/
def cellsAmong (kind : PropertyName) (properties : List Property) : Option UInt32 :=
  (properties.filter (propertyName mem dtb · = kind)).getLast?.map fun p => be32 mem p.data

def DeviceTree.root : DeviceTree → DeviceNode
  | .node root _ => root

/-- The widths of a `reg` below the root: both cell counts of the root. -/
def rootWidths (tree : DeviceTree) : Option Widths :=
  match cellsAmong mem dtb .addressCells tree.root.properties,
    cellsAmong mem dtb .sizeCells tree.root.properties with
  | some addressCells, some sizeCells => some ⟨addressCells, sizeCells⟩
  | _, _ => none

/-- The `reg` of every memory node is made of pairs that have the widths of the root. -/
def RegsMade (tree : DeviceTree) : Prop :=
  ∀ p ∈ memoryRegs mem dtb tree, ∃ w, rootWidths mem dtb tree = some w ∧ w.Divide p

/-- The pairs in the `reg`s of all memory nodes, read with the widths of the root. -/
def memoryPairs (tree : DeviceTree) : List MemoryRegion :=
  match rootWidths mem dtb tree with
  | none => []
  | some w => (memoryRegs mem dtb tree).flatMap (w.pairs mem)

end Contexts

/-- No region of a memory node is lost: the `reg`s of the memory nodes can be read with the
widths of the root, and the record holds their pairs, all of them and no others. -/
structure KeepsAllRegions (mem : Memory) (dtb : UInt64) (tree : DeviceTree)
    (info : HardwareInfo) : Prop where
  made : RegsMade mem dtb tree
  count : info.physicalMemoryRegionCount.toNat = (memoryPairs mem dtb tree).length
  regions : info.physicalMemoryRegions.toList.take info.physicalMemoryRegionCount.toNat =
    memoryPairs mem dtb tree
  few : (memoryPairs mem dtb tree).length ≤ 16

/-- The widths saved when the node was read. -/
def Context.widths (c : Context) : Option Widths :=
  match c.addressCells, c.sizeCells with
  | some addressCells, some sizeCells => some ⟨addressCells, sizeCells⟩
  | _, _ => none

/-- The `reg` of this context says the same with the widths of the root as with those saved.
They are equal, or they are swapped, and every pair has base 0 and a size of one cell. -/
def Context.ReadsAlike (mem : Memory) (root : Option Widths) (c : Context) : Prop :=
  ∃ w, c.widths = some w ∧ (root = some w ∨ root = some w.swap ∧
    ∀ region ∈ c.pairs mem, region.baseAddress = 0 ∧ region.size.toNat < 2 ^ 32)

/-- The node decoded last is the only memory node, and reads alike with the widths of the
root. If it is none, which takes bytes at address 0 that read "memory", its `reg` holds the
pairs of all memory nodes. -/
def LastHasAll (mem : Memory) (dtb : UInt64) (tree : DeviceTree) : Prop :=
  ∀ c, ((treeContexts mem dtb tree).filter (Context.decodes mem)).getLast? = some c →
    if c.isMemoryNode then
      (memoryNodes mem dtb tree).length = 1 ∧ c.ReadsAlike mem (rootWidths mem dtb tree)
    else RegsMade mem dtb tree ∧ memoryPairs mem dtb tree = c.pairs mem

/-- No node but the root has an empty name. -/
def OnlyRootUnnamed (mem : Memory) (tree : DeviceTree) : Prop :=
  ∀ node ∈ tree.preorder.tail, mem node.name ≠ 0

instance (mem : Memory) (tree : DeviceTree) : Decidable (OnlyRootUnnamed mem tree) := by
  unfold OnlyRootUnnamed; infer_instance

/-! ## One node -/

section Nodes

variable {mem : Memory} {dtb : UInt64} {c : Context} {node : DeviceNode}
  {nodes : List DeviceNode} {kind : PropertyName} {p : Property}

theorem Context.decodes_decode : (c.decode mem).decodes mem = c.decodes mem :=
  Context.decode_field (Context.decodes mem) c fun _ _ => rfl

theorem Context.pairs_decode : (c.decode mem).pairs mem = c.pairs mem :=
  Context.decode_field (Context.pairs mem) c fun _ _ => rfl

/-- A complete context stays complete. -/
theorem Context.decodes_withProperty (decodes : c.decodes mem = true) :
    (c.withProperty mem kind p).decodes mem = true := by
  rw [Context.decodes, Bool.and_eq_true, Bool.or_eq_true] at decodes ⊢
  rcases decodes with ⟨reg, memory⟩
  refine ⟨?_, memory.imp_left fun memory => ?_⟩
  · rw [Context.withProperty]
    dsimp only
    split <;> [rfl; exact reg]
  · rw [Context.withProperty, memory]
    rfl

/-- The properties of a node decode its `reg` as it is at the end, or never. -/
theorem regions_properties (clear : c.reg = none) (properties : List Property) :
    let left := (properties.map Token.prop).foldl (Context.step mem dtb) c
    left.regions = if left.decodes mem then some (left.pairs mem) else c.regions := by
  induction properties using List.reverseRecOn with
  | nil => simp [Context.decodes, clear]
  | append_singleton properties p ih =>
      rw [List.map_append, List.foldl_append]
      generalize (properties.map Token.prop).foldl (Context.step mem dtb) c = before at ih
      dsimp only at ih
      show (Context.decode mem _).regions = if (Context.decode mem _).decodes mem then
        some ((Context.decode mem _).pairs mem) else _
      rw [Context.decodes_decode, Context.pairs_decode, Context.decode]
      split
      · rfl
      · -- not complete now, so not complete before
        rename_i incomplete
        rw [if_neg fun decodes => incomplete (Context.decodes_withProperty decodes)] at ih
        exact ih

theorem Context.regions_enter :
    (c.enter mem dtb node).regions =
      if (c.enter mem dtb node).decodes mem then some ((c.enter mem dtb node).pairs mem)
      else c.regions :=
  regions_properties (c := { c with name := some node.name, reg := none, memory := false }) rfl
    node.properties

/-! ## All nodes -/

/-- What is left of the regions of many nodes is those decoded last. -/
theorem regions_nodes :
    (nodes.foldl (Context.enter mem dtb) c).regions =
      (((nodeContexts mem dtb c nodes).filter (Context.decodes mem)).getLast?.map
        (Context.pairs mem)).or c.regions := by
  induction nodes generalizing c with
  | nil => rfl
  | cons node nodes ih =>
      rw [List.foldl_cons, ih, Context.regions_enter, nodeContexts, List.filter_cons]
      split
      · rw [List.getLast?_cons, Option.map_some, Option.some_or]
        cases ((nodeContexts mem dtb (c.enter mem dtb node) nodes).filter
          (Context.decodes mem)).getLast? <;> rfl
      · rfl

/-- The context a node leaves comes after the tokens of the nodes up to it. -/
theorem mem_nodeContexts {left : Context} (member : left ∈ nodeContexts mem dtb c nodes) :
    ∃ before after, nodes = before ++ after ∧
      left = (before.flatMap DeviceNode.tokens).foldl (Context.step mem dtb) c := by
  induction nodes generalizing c with
  | nil => cases member
  | cons node nodes ih =>
      rw [nodeContexts, List.mem_cons] at member
      rcases member with rfl | later
      · exact ⟨[node], nodes, rfl, by rw [List.flatMap_singleton]; rfl⟩
      · rcases ih later with ⟨before, after, rfl, eq⟩
        exact ⟨node :: before, after, rfl, by rw [List.flatMap_cons, List.foldl_append, eq]; rfl⟩

/-- Complete nodes among those complete without a `device_type` are the memory nodes. -/
theorem filter_decodes (silent : nullReadsMemory mem = false) (contexts : List Context) :
    contexts.filter (Context.decodes mem) = contexts.filter Context.isMemoryNode := by
  congr 1
  funext c
  rw [Context.decodes, silent, Bool.or_false, Context.isMemoryNode]

theorem decodes_of_isMemoryNode (memory : c.isMemoryNode = true) : c.decodes mem = true := by
  rw [Context.isMemoryNode, Bool.and_eq_true] at memory
  rw [Context.decodes, memory.1, memory.2]
  rfl

end Nodes

/-! ## The blob -/

/-- The token changes the context. -/
def Token.inContext : Token → Bool
  | .beginNode _ => true
  | .prop _ => true
  | _ => false

section Blob

variable {mem : Memory} {dtb : UInt64} {us ts : List Token} {tree : DeviceTree} {c : Context}

/-- The tokens that do not open a node or set a property may be left out. -/
theorem contextOf_filter :
    contextOf mem dtb (us.filter Token.inContext) = contextOf mem dtb us := by
  rw [contextOf, List.foldl_filter, contextOf]
  congr 1
  funext c t
  cases t <;> rfl

theorem HoldsTree.filter_inContext (holds : HoldsTree mem dtb us tree) :
    us.filter Token.inContext = tree.preorder.flatMap DeviceNode.tokens := by
  have keep : us.filter Token.inContext = (us.filter (· ≠ .nop)).filter Token.inContext := by
    rw [List.filter_filter]
    congr 1
    funext t
    cases t <;> rfl
  have kept : ∀ node : DeviceNode, ∀ t ∈ node.tokens, t.inContext = true := by
    intro node t member
    rcases List.mem_cons.mp member with rfl | property
    · rfl
    · rcases List.mem_map.mp property with ⟨p, -, rfl⟩
      rfl
  rw [keep, holds.written, List.filter_append, Outline.filter_write kept rfl]
  exact List.append_nil _

/-- The context at the end of the blob is that of its nodes. -/
theorem HoldsTree.contextOf_eq (holds : HoldsTree mem dtb us tree) :
    contextOf mem dtb us = tree.preorder.foldl (Context.enter mem dtb) .initial := by
  rw [← contextOf_filter, holds.filter_inContext, contextOf, List.foldl_flatMap]
  rfl

/-- The context that a node leaves is that of a part of the blob. -/
theorem HoldsTree.exists_prefix (holds : HoldsTree mem dtb us tree)
    (member : c ∈ treeContexts mem dtb tree) : ∃ ts, ts <+: us ∧ contextOf mem dtb ts = c := by
  rcases mem_nodeContexts member with ⟨before, after, split, rfl⟩
  have written := holds.filter_inContext
  rw [split, List.flatMap_append] at written
  rcases List.filter_eq_append_iff.mp written with ⟨ts, vs, rfl, kept, -⟩
  exact ⟨ts, List.prefix_append ts vs, by rw [← contextOf_filter, kept]; rfl⟩

theorem Context.Decodable.decode (decodable : c.Decodable mem) : (c.decode mem).Decodable mem := by
  rw [Context.decode]
  split
  · exact ⟨decodable.known, decodable.reg⟩
  · exact decodable

/-- In an accepted blob every complete context can be decoded. -/
theorem AcceptedTokens.decodable (accepted : AcceptedTokens mem dtb us) (isPrefix : ts <+: us)
    (complete : (contextOf mem dtb ts).decodes mem = true) :
    (contextOf mem dtb ts).Decodable mem := by
  induction ts using List.reverseRecOn with
  | nil => cases complete
  | append_singleton ts t ih =>
      rcases isPrefix with ⟨vs, split⟩
      rw [List.append_assoc, List.singleton_append] at split
      cases t with
      | prop p =>
          rw [contextOf_prop, Context.decodes_decode] at complete
          rw [contextOf_prop]
          exact ((accepted.properties ts p vs split.symm).decodable complete).decode
      | beginNode name =>
          rw [contextOf_snoc] at complete
          cases complete
      | _ =>
          rw [contextOf_snoc] at complete ⊢
          exact ih ⟨_ :: vs, split⟩ complete

theorem HoldsTree.decodable (holds : HoldsTree mem dtb us tree)
    (accepted : AcceptedTokens mem dtb us) (member : c ∈ treeContexts mem dtb tree)
    (decodes : c.decodes mem = true) : c.Decodable mem := by
  rcases holds.exists_prefix member with ⟨ts, isPrefix, rfl⟩
  exact accepted.decodable isPrefix decodes

/-- The widths saved divide the `reg` of a complete context into pairs that can be RAM. -/
structure Context.Divided (mem : Memory) (c : Context) (p : Property) (w : Widths) : Prop where
  reg : c.reg = some p
  widths : c.widths = some w
  divide : w.Divide p
  pairs : c.pairs mem = w.pairs mem p
  positive : ∀ region ∈ w.pairs mem p, region.size ≠ 0

theorem Context.Decodable.divided (decodable : c.Decodable mem) (decodes : c.decodes mem = true) :
    ∃ p w, c.Divided mem p w := by
  rcases Context.exists_cells decodable.known with ⟨address, size, addressEq, sizeEq⟩
  rcases Context.exists_reg decodes with ⟨p, eq⟩
  have accepted := decodable.reg p address size eq addressEq sizeEq
  refine ⟨p, ⟨address, size⟩, eq, ?_, ?_, ?_, ?_⟩
  · rw [Context.widths, addressEq, sizeEq]
  · exact ⟨⟨accepted.addressWidth, accepted.sizeWidth⟩, accepted.nonempty, accepted.multiple⟩
  · rw [Context.pairs, eq, addressEq, sizeEq]
    rfl
  · exact fun region member => (accepted.valid region member).1

theorem memoryPairs_of_root {root : Widths} (rootEq : rootWidths mem dtb tree = some root) :
    memoryPairs mem dtb tree = (memoryRegs mem dtb tree).flatMap (root.pairs mem) := by
  rw [memoryPairs, rootEq]

theorem Context.Divided.readsAlike_iff {p : Property} {w : Widths} {root : Option Widths}
    (divided : c.Divided mem p w) :
    c.ReadsAlike mem root ↔
      ∃ v, root = some v ∧ v.Divide p ∧ v.pairs mem p = w.pairs mem p := by
  constructor
  · rintro ⟨v, saved, alike⟩
    cases divided.widths.symm.trans saved
    rw [divided.pairs] at alike
    rcases alike with same | ⟨swapped, short⟩
    · exact ⟨w, same, divided.divide.pairs_eq_iff.mpr (Or.inl rfl)⟩
    · exact ⟨w.swap, swapped, divided.divide.pairs_eq_iff.mpr (Or.inr ⟨rfl, short⟩)⟩
  · rintro ⟨v, rootEq, same⟩
    refine ⟨w, divided.widths, ?_⟩
    rw [divided.pairs, rootEq]
    rcases divided.divide.pairs_eq_iff.mp same with rfl | ⟨rfl, short⟩
    · exact Or.inl rfl
    · exact Or.inr ⟨rfl, short⟩

/-- The memory node decoded last has the pairs of all and no others, exactly if it is the only
one and reads alike. -/
theorem memoryPairs_eq_iff {earlier : List Context} {last : Context} {p : Property} {w : Widths}
    (nodes : memoryNodes mem dtb tree = earlier ++ [last]) (divided : last.Divided mem p w)
    (regs : ∀ c ∈ earlier, ∃ q, c.reg = some q) :
    RegsMade mem dtb tree ∧ last.pairs mem = memoryPairs mem dtb tree ↔
      (memoryNodes mem dtb tree).length = 1 ∧ last.ReadsAlike mem (rootWidths mem dtb tree) := by
  have all : memoryRegs mem dtb tree = earlier.filterMap Context.reg ++ [p] := by
    rw [memoryRegs, nodes, List.filterMap_append, List.filterMap_cons_some divided.reg,
      List.filterMap_nil]
  have single : (memoryNodes mem dtb tree).length = 1 ↔ earlier = [] := by
    rw [nodes, List.length_append, List.length_singleton, ← List.length_eq_zero_iff]
    omega
  rw [single, divided.readsAlike_iff, divided.pairs, RegsMade, all]
  constructor
  · rintro ⟨made, same⟩
    rcases made p (by simp) with ⟨root, rootEq, divide⟩
    rw [memoryPairs_of_root rootEq, all, List.flatMap_append, List.flatMap_singleton] at same
    -- the last of the pairs read with other widths are never the root's
    have none : (earlier.filterMap Context.reg).flatMap (root.pairs mem) = [] :=
      by_contra fun some =>
        divided.divide.append_pairs_ne divide divided.positive some same.symm
    have alone : earlier = [] := by
      refine List.eq_nil_iff_forall_not_mem.mpr fun c member => ?_
      rcases regs c member with ⟨q, reg⟩
      have here : q ∈ earlier.filterMap Context.reg := List.mem_filterMap.mpr ⟨c, member, reg⟩
      rcases made q (List.mem_append_left _ here) with ⟨root', rootEq', divide'⟩
      cases rootEq.symm.trans rootEq'
      exact List.ne_nil_of_length_pos (divide'.length_pos mem)
        (List.flatMap_eq_nil_iff.mp none q here)
    rw [none, List.nil_append] at same
    exact ⟨alone, root, rootEq, divide, same.symm⟩
  · rintro ⟨rfl, root, rootEq, divide, same⟩
    rw [memoryPairs_of_root rootEq, all, List.filterMap_nil, List.nil_append,
      List.flatMap_singleton, same]
    exact ⟨fun q member => ⟨root, rootEq, List.mem_singleton.mp member ▸ divide⟩, rfl⟩

/-- The pairs of the node decoded last are those of all memory nodes, exactly if it has all. -/
theorem lastHasAll_iff (decodable : ∀ c ∈ treeContexts mem dtb tree, c.decodes mem = true →
      c.Decodable mem) :
    RegsMade mem dtb tree ∧ (((treeContexts mem dtb tree).filter (Context.decodes mem)).getLast?.map
        (Context.pairs mem)).getD [] = memoryPairs mem dtb tree ↔ LastHasAll mem dtb tree := by
  have among : memoryNodes mem dtb tree =
      ((treeContexts mem dtb tree).filter (Context.decodes mem)).filter Context.isMemoryNode := by
    rw [memoryNodes, List.filter_filter]
    refine List.filter_congr fun c _ => ?_
    cases memory : c.isMemoryNode with
    | false => rfl
    | true => rw [decodes_of_isMemoryNode memory, Bool.and_true]
  have divided : ∀ c ∈ (treeContexts mem dtb tree).filter (Context.decodes mem),
      ∃ p w, c.Divided mem p w := by
    intro c member
    rcases List.mem_filter.mp member with ⟨visited, decodes⟩
    exact (decodable c visited decodes).divided decodes
  rw [LastHasAll]
  generalize (treeContexts mem dtb tree).filter (Context.decodes mem) = decoded at among divided
  rcases List.eq_nil_or_concat decoded with rfl | ⟨earlier, last, rfl⟩
  · have none : memoryRegs mem dtb tree = [] := by rw [memoryRegs, among]; rfl
    refine iff_of_true ⟨fun p member => ?_, ?_⟩ nofun
    · rw [none] at member
      cases member
    · rw [memoryPairs, none]
      cases rootWidths mem dtb tree <;> rfl
  · rw [List.concat_eq_append] at among divided ⊢
    rw [List.getLast?_concat, Option.map_some, Option.getD_some]
    simp only [Option.some.injEq, forall_eq']
    cases memory : last.isMemoryNode with
    | false =>
        rw [if_neg Bool.false_ne_true]
        exact and_congr_right' eq_comm
    | true =>
        rcases divided last (by simp) with ⟨p, w, own⟩
        rw [List.filter_append, List.filter_cons_of_pos memory, List.filter_nil] at among
        rw [if_pos rfl]
        refine memoryPairs_eq_iff among own fun c member => ?_
        rcases divided c (List.mem_append_left _ (List.mem_filter.mp member).1) with ⟨q, v, divides⟩
        exact ⟨q, divides.reg⟩

/-- Where address 0 does not read "memory", the condition is that there is at most one memory
node, and that it reads alike. -/
theorem lastHasAll_iff_length (silent : nullReadsMemory mem = false) :
    LastHasAll mem dtb tree ↔ (memoryNodes mem dtb tree).length ≤ 1 ∧
      ∀ c ∈ memoryNodes mem dtb tree, c.ReadsAlike mem (rootWidths mem dtb tree) := by
  rw [LastHasAll, filter_decodes silent, memoryNodes]
  generalize nodes : (treeContexts mem dtb tree).filter Context.isMemoryNode = memory
  rcases List.eq_nil_or_concat memory with rfl | ⟨earlier, last, rfl⟩
  · exact ⟨fun _ => ⟨Nat.zero_le 1, List.forall_mem_nil _⟩, fun _ => nofun⟩
  · have own : last.isMemoryNode = true :=
      (List.mem_filter.mp (nodes ▸ (by simp : last ∈ earlier.concat last))).2
    rw [List.concat_eq_append, List.getLast?_concat]
    simp only [Option.some.injEq, forall_eq', own, if_pos]
    cases earlier with
    | nil => simp
    | cons c earlier => simp

/-! ## The widths saved -/

theorem cellsAmong_snoc {kind : PropertyName} {properties : List Property} {p : Property} :
    cellsAmong mem dtb kind (properties ++ [p]) =
      if propertyName mem dtb p = kind then some (be32 mem p.data)
      else cellsAmong mem dtb kind properties := by
  rw [cellsAmong, List.filter_append]
  split
  · rename_i named
    rw [List.filter_cons_of_pos (by simpa using named), List.filter_nil, List.getLast?_concat,
      Option.map_some]
  · rename_i other
    rw [List.filter_cons_of_neg (by simpa using other), List.filter_nil, List.append_nil,
      cellsAmong]

/-- The properties of a node change the cell counts only if its name is empty. -/
theorem cells_properties (properties : List Property) :
    let left := (properties.map Token.prop).foldl (Context.step mem dtb) c
    left.name = c.name ∧
      left.addressCells = (if c.nameEmpty mem then
        (cellsAmong mem dtb .addressCells properties).or c.addressCells else c.addressCells) ∧
      left.sizeCells = (if c.nameEmpty mem then
        (cellsAmong mem dtb .sizeCells properties).or c.sizeCells else c.sizeCells) := by
  induction properties using List.reverseRecOn with
  | nil => exact ⟨rfl, (ite_self _).symm, (ite_self _).symm⟩
  | append_singleton properties p ih =>
      rw [List.map_append, List.foldl_append]
      generalize (properties.map Token.prop).foldl (Context.step mem dtb) c = before at ih
      rcases ih with ⟨name, address, size⟩
      have empty : before.nameEmpty mem = c.nameEmpty mem := by
        rw [Context.nameEmpty, name, Context.nameEmpty]
      simp only [List.map_cons, List.map_nil, List.foldl_cons, List.foldl_nil, Context.step]
      rw [Context.decode_field Context.name _ fun _ _ => rfl,
        Context.decode_field Context.addressCells _ fun _ _ => rfl,
        Context.decode_field Context.sizeCells _ fun _ _ => rfl, cellsAmong_snoc, cellsAmong_snoc]
      simp only [Context.withProperty, name, address, size, empty]
      cases c.nameEmpty mem with
      | false => simp
      | true =>
          simp only [Bool.true_and, beq_iff_eq, if_true, true_and]
          constructor <;> split <;> rfl

theorem Context.cells_enter (mem : Memory) (dtb : UInt64) (c : Context) (node : DeviceNode) :
    (c.enter mem dtb node).addressCells = (if mem node.name == 0 then
        (cellsAmong mem dtb .addressCells node.properties).or c.addressCells
      else c.addressCells) ∧
      (c.enter mem dtb node).sizeCells = (if mem node.name == 0 then
        (cellsAmong mem dtb .sizeCells node.properties).or c.sizeCells
      else c.sizeCells) :=
  (cells_properties (c := { c with name := some node.name, reg := none, memory := false })
    node.properties).2

/-- Nodes with a name keep the cell counts. -/
theorem cells_named {nodes : List DeviceNode} (named : ∀ node ∈ nodes, mem node.name ≠ 0)
    {left : Context} (member : left ∈ nodeContexts mem dtb c nodes) :
    left.addressCells = c.addressCells ∧ left.sizeCells = c.sizeCells := by
  induction nodes generalizing c with
  | nil => cases member
  | cons node nodes ih =>
      rw [List.forall_mem_cons] at named
      rw [nodeContexts, List.mem_cons] at member
      rcases Context.cells_enter mem dtb c node with ⟨address, size⟩
      rw [if_neg (by simpa using named.1)] at address size
      rcases member with rfl | later
      · exact ⟨address, size⟩
      · rcases ih named.2 later with ⟨address', size'⟩
        exact ⟨address'.trans address, size'.trans size⟩

/-- Where only the root is without a name, the widths saved are those of the root. -/
theorem widths_of_root (unnamed : OnlyRootUnnamed mem tree)
    (member : c ∈ treeContexts mem dtb tree) (known : c.CellsKnown) :
    c.widths = rootWidths mem dtb tree := by
  rcases tree with ⟨root, children⟩
  rw [treeContexts, Outline.preorder, nodeContexts, List.mem_cons] at member
  rw [OnlyRootUnnamed, Outline.preorder, List.tail_cons] at unnamed
  have cells : c.addressCells = (Context.enter mem dtb .initial root).addressCells ∧
      c.sizeCells = (Context.enter mem dtb .initial root).sizeCells := by
    rcases member with rfl | later
    · exact ⟨rfl, rfl⟩
    · exact cells_named unnamed later
  rcases Context.cells_enter mem dtb .initial root with ⟨address, size⟩
  by_cases empty : mem root.name == 0
  · rw [if_pos empty] at address size
    rw [Context.widths, cells.1, cells.2, address, size, Context.initial, Option.or_none,
      Option.or_none]
    rfl
  · -- no node without a name, so no cell count was saved
    rw [if_neg empty] at address
    rw [Context.CellsKnown, cells.1, address] at known
    exact absurd known.1 Bool.false_ne_true

/-- Then one memory node reads alike. -/
theorem readsAlike_of_root (unnamed : OnlyRootUnnamed mem tree)
    (decodable : ∀ c ∈ treeContexts mem dtb tree, c.decodes mem = true → c.Decodable mem)
    (member : c ∈ memoryNodes mem dtb tree) : c.ReadsAlike mem (rootWidths mem dtb tree) := by
  rcases List.mem_filter.mp member with ⟨visited, memory⟩
  have decodes : c.decodes mem = true := decodes_of_isMemoryNode memory
  have decodable := decodable c visited decodes
  rcases decodable.divided decodes with ⟨p, w, divided⟩
  have same := widths_of_root unnamed visited decodable.known
  exact ⟨w, divided.widths, Or.inl (same.symm.trans divided.widths)⟩

end Blob

/-! ## The run -/

section Runs

variable {env : Env} {outHwInfo dtb : UInt64} {info : HardwareInfo} {us : List Token}
  {tree : DeviceTree} {mem : Memory} {c : Context}

/-- A record that held nothing before keeps all regions if those decoded last are all. -/
theorem Context.HoldsRegions.keepsAll_iff (holds : c.HoldsRegions .zero info) :
    KeepsAllRegions mem dtb tree info ↔
      RegsMade mem dtb tree ∧ c.regions.getD [] = memoryPairs mem dtb tree := by
  obtain ⟨few, count, regions⟩ : (c.regions.getD []).length ≤ 16 ∧
      info.physicalMemoryRegionCount.toNat = (c.regions.getD []).length ∧
      info.physicalMemoryRegions.toList.take (c.regions.getD []).length = c.regions.getD [] := by
    unfold Context.HoldsRegions at holds
    cases decoded : c.regions with
    | none =>
        rw [decoded] at holds
        exact ⟨Nat.zero_le 16, by rw [holds.2]; rfl, rfl⟩
    | some regions =>
        rw [decoded] at holds
        have small : regions.length < 2 ^ 64 := Nat.lt_of_le_of_lt holds.1 (by decide)
        refine ⟨holds.1, ?_, holds.2.2⟩
        rw [holds.2.1, UInt64.toNat_ofNat', Nat.mod_eq_of_lt small]
        rfl
  constructor
  · intro keeps
    exact ⟨keeps.made, by rw [← keeps.regions, count, regions]⟩
  · rintro ⟨made, same⟩
    rw [same] at few count regions
    exact ⟨made, count, by rw [count, regions], few⟩

/-- In an accepted tree every complete node can be decoded. -/
theorem HoldsTree.decodable_of_returned (holds : HoldsTree env.memory dtb us tree)
    (halts : env.panicReturns = false)
    (returned : (parseDeviceTreeBlob env outHwInfo dtb .zero).outcome = .ok ()) :
    ∀ c ∈ treeContexts env.memory dtb tree, c.decodes env.memory = true →
      c.Decodable env.memory := by
  have accepted := acceptedTokens_of_returned halts returned holds.tokens
  exact fun c member decodes => holds.decodable accepted member decodes

/-- What a run over a tree keeps is decided by the context at its end. -/
theorem keepsAll_iff_lastHasAll (halts : env.panicReturns = false)
    (returned : (parseDeviceTreeBlob env outHwInfo dtb .zero).outcome = .ok ())
    (holds : HoldsTree env.memory dtb us tree) :
    KeepsAllRegions env.memory dtb tree (parseDeviceTreeBlob env outHwInfo dtb .zero).state ↔
      LastHasAll env.memory dtb tree := by
  rcases exists_head_at_end halts returned holds.tokens with ⟨s, head, -⟩
  have regions := head.holdsRegions halts
  rw [regions.keepsAll_iff, holds.contextOf_eq, regions_nodes, Context.initial, Option.or_none]
  exact lastHasAll_iff (holds.decodable_of_returned halts returned)

/-- **All regions are kept, exactly if the node decoded last has all of them**: if address 0
does not read "memory", there is at most one memory node, which reads alike with the widths
saved and those of the root. It does where no other node than the root is without a name. -/
theorem keeps_all_regions_iff (env : Env) (outHwInfo dtb : UInt64) (us : List Token)
    (tree : DeviceTree) (halts : env.panicReturns = false)
    (returned : (parseDeviceTreeBlob env outHwInfo dtb .zero).outcome = .ok ())
    (holds : HoldsTree env.memory dtb us tree) :
    (KeepsAllRegions env.memory dtb tree (parseDeviceTreeBlob env outHwInfo dtb .zero).state ↔
        LastHasAll env.memory dtb tree) ∧
      (nullReadsMemory env.memory = false →
        (LastHasAll env.memory dtb tree ↔ (memoryNodes env.memory dtb tree).length ≤ 1 ∧
          ∀ c ∈ memoryNodes env.memory dtb tree,
            c.ReadsAlike env.memory (rootWidths env.memory dtb tree)) ∧
        (OnlyRootUnnamed env.memory tree →
          (LastHasAll env.memory dtb tree ↔
            (memoryNodes env.memory dtb tree).length ≤ 1))) := by
  refine ⟨keepsAll_iff_lastHasAll halts returned holds, fun silent => ?_⟩
  have length : LastHasAll env.memory dtb tree ↔ _ := lastHasAll_iff_length silent
  refine ⟨length, fun unnamed => length.trans (and_iff_left fun c member => ?_)⟩
  exact readsAlike_of_root unnamed (holds.decodable_of_returned halts returned) member

/-- A node of a tree with two cell counts and memory nodes below. -/
def memoryLeaf (name deviceType reg : UInt64) : DeviceTree :=
  .node ⟨name, [⟨7, deviceTypeOffset, deviceType⟩, ⟨8, regOffset, reg⟩]⟩ []

/-- The root that `narrowCells` are of, at the start of the struct block. -/
def narrowRoot (children : List DeviceTree) : DeviceTree :=
  .node ⟨Blob.address + 60, [⟨4, addressCellsOffset, Blob.address + 76⟩,
    ⟨4, sizeCellsOffset, Blob.address + 92⟩]⟩ children

/-- The tree of `memoryBlob`. -/
def memoryTree : DeviceTree :=
  narrowRoot [memoryLeaf (Blob.address + 100) (Blob.address + 120) (Blob.address + 140)]

/-- All regions are kept of a blob that has one memory node. -/
theorem keeps_all_regions_memoryBlob :
    HoldsTree memoryBlob.env.memory Blob.address (walkTokens memoryBlob.env 1 Blob.address .zero)
        memoryTree ∧
      memoryPairs memoryBlob.env.memory Blob.address memoryTree = [⟨0x40000000, 0x1000⟩] ∧
      KeepsAllRegions memoryBlob.env.memory Blob.address memoryTree
        (parseDeviceTreeBlob memoryBlob.env 1 Blob.address .zero).state := by
  have holds : HoldsTree memoryBlob.env.memory Blob.address
      (walkTokens memoryBlob.env 1 Blob.address .zero) memoryTree :=
    ⟨blobTokens_walkTokens rfl memoryBlob_returned, by decide +kernel⟩
  obtain ⟨keeps, silent⟩ := keeps_all_regions_iff memoryBlob.env 1 Blob.address _ memoryTree rfl
    memoryBlob_returned holds
  rcases silent (by decide +kernel) with ⟨-, single⟩
  refine ⟨holds, by decide +kernel, keeps.mpr ?_⟩
  exact (single (by decide +kernel)).mpr (by decide +kernel)

/-- A root, a child without a name that has two cells per address, and a memory node. -/
def childCellsBlob : Blob where
  structBlock := Blob.beginNode "" ++ narrowCells ++ Blob.beginNode "" ++
    Blob.prop addressCellsOffset (word 2) ++ Blob.endNode ++ Blob.beginNode "memory" ++
    Blob.prop deviceTypeOffset (cString "memory") ++ Blob.prop regOffset
      ([0x40000000, 0x1000, 0x80000000, 0x1000, 0xC0000000, 0x1000].flatMap word) ++
    Blob.endNode ++ Blob.endNode ++ Blob.fdtEnd
  stringsBlock := savedNames

/-- The tree of `childCellsBlob`. -/
def childCellsTree : DeviceTree :=
  narrowRoot [.node ⟨Blob.address + 100, [⟨4, addressCellsOffset, Blob.address + 116⟩]⟩ [],
    .node ⟨Blob.address + 128, [⟨7, deviceTypeOffset, Blob.address + 148⟩,
      ⟨24, regOffset, Blob.address + 168⟩]⟩ []]

-- one memory node is not enough: with the cells of the child its three pairs read as two
example : (parseDeviceTreeBlob childCellsBlob.env 1 Blob.address .zero).outcome = .ok () ∧
    (walkTokens childCellsBlob.env 1 Blob.address .zero).filter (· ≠ .nop) =
      childCellsTree.write DeviceNode.tokens .endNode ++ [.fdtEnd] ∧
    (memoryNodes childCellsBlob.env.memory Blob.address childCellsTree).length = 1 ∧
    memoryPairs childCellsBlob.env.memory Blob.address childCellsTree =
      [⟨0x40000000, 0x1000⟩, ⟨0x80000000, 0x1000⟩, ⟨0xC0000000, 0x1000⟩] ∧
    (parseDeviceTreeBlob childCellsBlob.env 1 Blob.address
      .zero).state.physicalMemoryRegionCount = 2 := by
  decide +kernel

/-- A root with two memory nodes of one region each. -/
def twoMemoriesBlob : Blob where
  structBlock := Blob.beginNode "" ++ narrowCells ++ memoryNode 0x40000000 0x1000 ++
    memoryNode 0x80000000 0x2000 ++ Blob.endNode ++ Blob.fdtEnd
  stringsBlock := savedNames

/-- The tree of `twoMemoriesBlob`. -/
def twoMemoriesTree : DeviceTree :=
  narrowRoot [memoryLeaf (Blob.address + 100) (Blob.address + 120) (Blob.address + 140),
    memoryLeaf (Blob.address + 156) (Blob.address + 176) (Blob.address + 196)]

theorem twoMemoriesBlob_returned :
    (parseDeviceTreeBlob twoMemoriesBlob.env 1 Blob.address .zero).outcome = .ok () := by
  decide +kernel

/-- The region of the first memory node is lost. -/
theorem second_memory_replaces_first :
    (parseDeviceTreeBlob twoMemoriesBlob.env 1 Blob.address .zero).outcome = .ok () ∧
      HoldsTree twoMemoriesBlob.env.memory Blob.address
        (walkTokens twoMemoriesBlob.env 1 Blob.address .zero) twoMemoriesTree ∧
      memoryPairs twoMemoriesBlob.env.memory Blob.address twoMemoriesTree =
        [⟨0x40000000, 0x1000⟩, ⟨0x80000000, 0x2000⟩] ∧
      (parseDeviceTreeBlob twoMemoriesBlob.env 1 Blob.address
        .zero).state.physicalMemoryRegionCount = 1 ∧
      ¬ KeepsAllRegions twoMemoriesBlob.env.memory Blob.address twoMemoriesTree
        (parseDeviceTreeBlob twoMemoriesBlob.env 1 Blob.address .zero).state := by
  refine ⟨twoMemoriesBlob_returned, ⟨blobTokens_walkTokens rfl twoMemoriesBlob_returned, ?_⟩, ?_,
    ?_, fun keeps => absurd keeps.count ?_⟩
  · decide +kernel
  · decide +kernel
  · decide +kernel
  · decide +kernel

end Runs

end CharcoalOS
