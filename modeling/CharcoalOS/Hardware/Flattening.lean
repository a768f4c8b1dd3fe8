import CharcoalOS.Hardware.PropertyOrder

/-!
# Device trees, flattened

A `TreeSource` is a device tree as its author has it: nodes, their properties by name, and the
memory to be reserved. `flatten` writes it out: the header, the reservation map, the struct
block, and a strings block with each property name once. `WrittenAt.contents` is what the
blob then holds: the items of the tree, and its reservation entries.
-/

namespace CharcoalOS

open Nesting

/-! ## Trees -/

/-- A node: a name, and the properties by name. The length of a value is a 32-bit number. -/
structure SourceNode : Type where
  name : List UInt8
  properties : List (List UInt8 × List UInt8)
  nameClean : 0 ∉ name
  clean : ∀ p ∈ properties, 0 ∉ p.1
  distinct : (properties.map Prod.fst).Nodup
  short : ∀ p ∈ properties, p.2.length < 2 ^ 32

/-- The items of properties. -/
def propertyItems (properties : List (List UInt8 × List UInt8)) : List Item :=
  properties.map fun p => .prop p.1 p.2

namespace SourceNode

/-- The value of the property of this name. -/
def value (node : SourceNode) (name : String) : Option (List UInt8) :=
  node.properties.lookup (chars (cString name))

/-- The node says that it is memory, and where. -/
def isMemory (node : SourceNode) : Bool :=
  node.value "device_type" == some (cString "memory") && (node.value "reg").isSome

def items (node : SourceNode) : List Item :=
  .beginNode node.name :: propertyItems node.properties

end SourceNode

/-- A root without a name, nodes with names below it, and the reserved regions. -/
structure TreeSource : Type where
  root : SourceNode
  children : List (Outline SourceNode)
  reserved : List (UInt64 × UInt64)
  unnamed : root.name = []
  plain : root.isMemory = false
  named : ∀ node ∈ Outline.preorder.preorders children, node.name ≠ []
  few : reserved.length < 255
  real : (0, 0) ∉ reserved

/-! ## Writing -/

/-- Names one after the other, each with its NUL. -/
def nameTable (names : List (List UInt8)) : List UInt8 := names.flatMap (· ++ [0])

/-- Where the table has the name. -/
def nameOffset (names : List (List UInt8)) (name : List UInt8) : Nat :=
  (nameTable (names.takeWhile (· != name))).length

/-- The padding behind `n` bytes. -/
def paddingOf (n : Nat) : List UInt8 := List.replicate ((4 - n % 4) % 4) 0

def SourceNode.opening (names : List (List UInt8)) (node : SourceNode) : List Piece :=
  .beginNode node.name (paddingOf (node.name.length + 1)) :: node.properties.map fun p =>
    .prop (UInt32.ofNat (nameOffset names p.1)) p.2 (paddingOf p.2.length)

/-- An entry of the reservation map. -/
def entryBytes (entry : UInt64 × UInt64) : List UInt8 :=
  encodeCells 2 entry.1 ++ encodeCells 2 entry.2

/-- The numbers of a header, in the order in which they are written. -/
def DTBHeader.words (header : DTBHeader) : List UInt32 :=
  [header.magic, header.totalSize, header.offDtStruct, header.offDtStrings, header.offMemRsvmap,
    header.version, header.lastCompVersion, header.bootCpuidPhys, header.sizeDtStrings,
    header.sizeDtStruct]

namespace TreeSource

def tree (t : TreeSource) : Outline SourceNode := .node t.root t.children

def items (t : TreeSource) : List Item := t.tree.write SourceNode.items .endNode

/-- The names of the properties, each once. -/
def names (t : TreeSource) : List (List UInt8) :=
  (t.tree.preorder.flatMap fun node => node.properties.map Prod.fst).dedup

def pieces (t : TreeSource) : List Piece := t.tree.write (SourceNode.opening t.names) .endNode

def structBytes (t : TreeSource) : List UInt8 := piecesBytes t.pieces ++ word fdtEnd

def stringBytes (t : TreeSource) : List UInt8 := nameTable t.names

/-- The map ends with (0, 0). -/
def mapBytes (t : TreeSource) : List UInt8 := (t.reserved ++ [(0, 0)]).flatMap entryBytes

/-- The header is 40 bytes long, and the blocks follow it. -/
def header (t : TreeSource) : DTBHeader where
  magic := 0xd00dfeed
  totalSize :=
    UInt32.ofNat (40 + t.mapBytes.length + t.structBytes.length + t.stringBytes.length)
  offDtStruct := UInt32.ofNat (40 + t.mapBytes.length)
  offDtStrings := UInt32.ofNat (40 + t.mapBytes.length + t.structBytes.length)
  offMemRsvmap := 40
  version := 17
  lastCompVersion := 16
  bootCpuidPhys := 0
  sizeDtStrings := UInt32.ofNat t.stringBytes.length
  sizeDtStruct := UInt32.ofNat t.structBytes.length

/-- The bytes of the blob. -/
def flatten (t : TreeSource) : List UInt8 :=
  t.header.words.flatMap word ++ (t.mapBytes ++ (t.structBytes ++ t.stringBytes))

end TreeSource

/-- The tree is written at `dtb`, where its tokens are aligned and its size is no wrap. -/
structure WrittenAt (mem : Memory) (dtb : UInt64) (t : TreeSource) : Prop where
  lies : LiesAt mem dtb t.flatten
  present : dtb ≠ 0
  aligned : dtb.toNat % 4 = 0
  small : t.flatten.length < 2 ^ 32
  room : dtb.toNat + t.flatten.length + 4 < 2 ^ 64

/-! ## Names in their table -/

section Names

variable {names : List (List UInt8)} {name : List UInt8}

/-- The table has each of its names where `nameOffset` says. -/
theorem drop_nameTable (member : name ∈ names) :
    ∃ behind, (nameTable names).drop (nameOffset names name) = name ++ 0 :: behind := by
  induction names with
  | nil => cases member
  | cons first names ih =>
      by_cases same : first = name
      · subst same
        refine ⟨nameTable names, ?_⟩
        simp [nameOffset, nameTable]
      · obtain ⟨behind, eq⟩ := ih ((List.mem_cons.mp member).resolve_left (Ne.symm same))
        refine ⟨behind, ?_⟩
        have offset : nameOffset (first :: names) name =
            (first ++ [0]).length + nameOffset names name := by
          simp [nameOffset, nameTable, same]
          omega
        rw [offset, nameTable, List.flatMap_cons, ← List.drop_drop, List.drop_left]
        exact eq

theorem nameOffset_lt (member : name ∈ names) :
    nameOffset names name < (nameTable names).length := by
  obtain ⟨behind, eq⟩ := drop_nameTable member
  by_contra past
  rw [List.drop_eq_nil_of_le (Nat.not_lt.mp past)] at eq
  exact absurd eq.symm (by simp)

end Names

/-! ## Pieces in their places -/

section Pieces

variable {strings : List UInt8} {a : Nat} {p : Piece} {ps : List Piece}

/-- A piece is a number of words. -/
theorem Piece.Fits.words (fits : p.Fits strings a) (aligned : a % 4 = 0) :
    (a + p.bytes.length) % 4 = 0 := by
  cases p with
  | beginNode name padding => exact aligned_past_beginNode fits
  | prop nameOffset value padding =>
      have multiple := fits.2.2.2
      simp only [Piece.bytes, List.length_append, length_word]
      omega
  | _ =>
      rw [Piece.bytes, length_word]
      omega

/-- Pieces that fit a multiple of 4 fit one after the other. -/
theorem piecesFit_of_forall (aligned : a % 4 = 0) (fits : ∀ p ∈ ps, p.Fits strings 0) :
    PiecesFit strings a ps := by
  induction ps generalizing a with
  | nil => trivial
  | cons p ps ih =>
      obtain ⟨first, rest⟩ := List.forall_mem_cons.mp fits
      have here : p.Fits strings a := first.congr (by omega)
      exact ⟨here, ih (here.words aligned) rest⟩

theorem length_paddingOf (n : Nat) :
    (paddingOf n).length < 4 ∧ (n + (paddingOf n).length) % 4 = 0 := by
  rw [paddingOf, List.length_replicate]
  omega

end Pieces

/-! ## Bytes in their places -/

section Bytes

variable {mem : Memory} {a : UInt64} {i k : Nat}

/-- Of things of one width, written one after the other, each lies in its place. -/
theorem LiesAt.flatMap {α : Type} {f : α → List UInt8} {xs : List α}
    (lies : LiesAt mem a (xs.flatMap f)) (width : ∀ x, (f x).length = k) (less : i < xs.length) :
    LiesAt mem (a + UInt64.ofNat (k * i)) (f xs[i]) := by
  have split : xs = xs.take i ++ xs[i] :: xs.drop (i + 1) := by
    rw [List.cons_getElem_drop_succ, List.take_append_drop]
  have before : ((xs.take i).flatMap f).length = k * i := by
    rw [List.length_flatMap, List.map_congr_left (fun x _ => width x), List.map_const',
      List.sum_replicate, List.length_take, Nat.min_eq_left (Nat.le_of_lt less), smul_eq_mul,
      Nat.mul_comm]
  rw [split, List.flatMap_append, List.flatMap_cons] at lies
  have there := (liesAt_append.mp (liesAt_append.mp lies).2).1
  rwa [before] at there

theorem LiesAt.words {ns : List UInt32} (lies : LiesAt mem a (ns.flatMap word))
    (less : i < ns.length) : be32 mem (a + UInt64.ofNat (4 * i)) = ns[i] :=
  (lies.flatMap (fun _ => length_word) less).be32_eq

theorem length_entryBytes (entry : UInt64 × UInt64) : (entryBytes entry).length = 16 := by
  rw [entryBytes, List.length_append, length_encodeCells, length_encodeCells]
  rfl

theorem LiesAt.be64_eq {v : UInt64} (lies : LiesAt mem a (encodeCells 2 v)) : be64 mem a = v := by
  have length : (encodeCells 2 v).length = 4 * (2 : UInt32).toNat := length_encodeCells v
  rw [LiesAt, length] at lies
  exact cellValue_of_bytes (.inr rfl) v.toNat_lt lies

/-- An entry is read back as it was written. -/
theorem LiesAt.entry {entry : UInt64 × UInt64} (lies : LiesAt mem a (entryBytes entry)) :
    (be64 mem a, be64 mem (a + 8)) = entry := by
  obtain ⟨base, size⟩ := liesAt_append.mp lies
  rw [length_encodeCells] at size
  exact Prod.ext base.be64_eq size.be64_eq

end Bytes

/-! ## A written tree -/

namespace TreeSource

variable (t : TreeSource)

theorem length_words : (t.header.words.flatMap word).length = 40 := rfl

theorem length_mapBytes : t.mapBytes.length = 16 * (t.reserved.length + 1) := by
  rw [mapBytes, List.length_flatMap, List.map_congr_left (fun x _ => length_entryBytes x),
    List.map_const', List.sum_replicate, List.length_append, List.length_singleton, smul_eq_mul,
    Nat.mul_comm]

theorem length_flatten : t.flatten.length =
    40 + t.mapBytes.length + t.structBytes.length + t.stringBytes.length := by
  rw [flatten, List.length_append, List.length_append, List.length_append, length_words]
  omega

end TreeSource

section Written

variable {mem : Memory} {dtb outHwInfo : UInt64} {t : TreeSource} (written : WrittenAt mem dtb t)
include written

/-- The header is read back. -/
theorem WrittenAt.header : headerAt mem dtb = t.header := by
  have lies : LiesAt mem dtb (t.header.words.flatMap word) := (liesAt_append.mp written.lies).1
  have number := fun i (less : i < 10) => lies.words (i := i) less
  simp only [headerAt]
  rw [show be32 mem (dtb + 0) = _ from number 0 (by decide),
    show be32 mem (dtb + 4) = _ from number 1 (by decide),
    show be32 mem (dtb + 8) = _ from number 2 (by decide),
    show be32 mem (dtb + 12) = _ from number 3 (by decide),
    show be32 mem (dtb + 16) = _ from number 4 (by decide),
    show be32 mem (dtb + 20) = _ from number 5 (by decide),
    show be32 mem (dtb + 24) = _ from number 6 (by decide),
    show be32 mem (dtb + 28) = _ from number 7 (by decide),
    show be32 mem (dtb + 32) = _ from number 8 (by decide),
    show be32 mem (dtb + 36) = _ from number 9 (by decide)]
  rfl

/-- Its numbers are no wraps of what they count. -/
theorem WrittenAt.sizes :
    t.header.totalSize.toNat = t.flatten.length ∧
      t.header.offDtStruct.toNat = 40 + t.mapBytes.length ∧
      t.header.offDtStrings.toNat = 40 + t.mapBytes.length + t.structBytes.length ∧
      t.header.sizeDtStrings.toNat = t.stringBytes.length ∧
      t.header.sizeDtStruct.toNat = t.structBytes.length := by
  have length := t.length_flatten
  have number : ∀ n, n ≤ t.flatten.length → (UInt32.ofNat n).toNat = n := fun n le =>
    UInt32.toNat_ofNat_of_lt' (Nat.lt_of_le_of_lt le written.small)
  refine ⟨?_, ?_, ?_, ?_, ?_⟩
  · exact (number _ (Nat.le_of_eq length.symm)).trans length.symm
  all_goals exact number _ (by omega)

theorem WrittenAt.noWrap : NoWrap mem dtb := by
  rw [NoWrap, written.header, written.sizes.1]
  exact written.room

theorem WrittenAt.accepted (record : outHwInfo ≠ 0) : HeaderAccepted mem outHwInfo dtb := by
  obtain ⟨total, structAt, stringsAt, stringsSize, structSize⟩ := written.sizes
  have length := t.length_flatten
  have map := t.length_mapBytes
  refine ⟨record, written.present, ?_, ?_, ?_, ?_, ?_⟩ <;> rw [written.header]
  · rfl
  · omega
  · have first : t.header.offMemRsvmap.toNat = 40 := rfl
    omega
  · omega
  · omega

theorem WrittenAt.stringsBlock : stringsBlock mem dtb = t.stringBytes := by
  obtain ⟨-, -, stringsAt, stringsSize, -⟩ := written.sizes
  have rest := (liesAt_append.mp (liesAt_append.mp (liesAt_append.mp written.lies).2).2).2
  have place : dtb + UInt64.ofNat (t.header.words.flatMap word).length +
      UInt64.ofNat t.mapBytes.length + UInt64.ofNat t.structBytes.length =
        dtb + t.header.offDtStrings.toUInt64 := by
    rw [UInt64.add_assoc, UInt64.add_assoc, ← UInt64.ofNat_add, ← UInt64.ofNat_add,
      ← UInt64.ofNat_toNat (x := t.header.offDtStrings.toUInt64), UInt32.toNat_toUInt64, stringsAt,
      t.length_words, Nat.add_assoc]
  rw [place] at rest
  rw [CharcoalOS.stringsBlock, written.header, stringsSize]
  exact rest

theorem WrittenAt.blobStart : blobStart mem dtb =
    dtb + UInt64.ofNat (t.header.words.flatMap word).length + UInt64.ofNat t.mapBytes.length := by
  obtain ⟨-, structAt, -⟩ := written.sizes
  rw [CharcoalOS.blobStart, structStart, written.header, UInt64.add_assoc, ← UInt64.ofNat_add,
    ← UInt64.ofNat_toNat (x := t.header.offDtStruct.toUInt64), UInt32.toNat_toUInt64, structAt,
    t.length_words]

theorem WrittenAt.structBlock : structBlock mem dtb = t.structBytes := by
  obtain ⟨-, -, -, -, structSize⟩ := written.sizes
  have lies :=
    (liesAt_append.mp (liesAt_append.mp (liesAt_append.mp written.lies).2).2).1
  rw [CharcoalOS.structBlock, written.blobStart, written.header, structSize]
  exact lies

/-- The reservation entries are read back, and then (0, 0). -/
theorem WrittenAt.entryAt_eq {i : Nat} (less : i < (t.reserved ++ [(0, 0)]).length) :
    entryAt mem dtb (UInt64.ofNat i) = (t.reserved ++ [(0, 0)])[i] := by
  have lies : LiesAt mem (dtb + 40) t.mapBytes :=
    (liesAt_append.mp (liesAt_append.mp written.lies).2).1
  have place : entryAddress mem dtb (UInt64.ofNat i) = dtb + 40 + UInt64.ofNat (16 * i) := by
    rw [entryAddress, written.header, UInt64.ofNat_mul]
    rfl
  rw [entryAt, place]
  exact (lies.flatMap length_entryBytes less).entry

theorem WrittenAt.terminates : Terminates mem dtb (UInt64.ofNat t.reserved.length) := by
  have few := t.few
  have count : (UInt64.ofNat t.reserved.length).toNat = t.reserved.length :=
    UInt64.toNat_ofNat_of_lt' (Nat.lt_trans few (by decide))
  refine ⟨?_, ?_, fun j less zero => t.real ?_⟩
  · have length := t.length_flatten
    have map := t.length_mapBytes
    rw [EntryFits, written.header, written.sizes.1, count, show t.header.offMemRsvmap.toNat = 40
      from rfl]
    omega
  · rw [written.entryAt_eq (by simp)]
    simp
  · rw [UInt64.lt_iff_toNat_lt, count] at less
    rw [← UInt64.ofNat_toNat (x := j), written.entryAt_eq (by simp; omega),
      List.getElem_append_left less] at zero
    rw [← zero]
    exact List.getElem_mem less

theorem WrittenAt.reservedEntries :
    reservedEntries mem dtb (UInt64.ofNat t.reserved.length) = t.reserved := by
  have few := t.few
  have count : (UInt64.ofNat t.reserved.length).toNat = t.reserved.length :=
    UInt64.toNat_ofNat_of_lt' (Nat.lt_trans few (by decide))
  refine List.ext_getElem (by simp [CharcoalOS.reservedEntries, count]) fun i _ less => ?_
  simp only [CharcoalOS.reservedEntries, List.getElem_map, List.getElem_range]
  rw [written.entryAt_eq (by simp; omega), List.getElem_append_left less]

end Written

/-! ## What the pieces say -/

section Contents

variable {t : TreeSource} {node : SourceNode} {names : List (List UInt8)}

/-- A node is written for its items, if the table has the names of its properties. -/
theorem SourceNode.items_opening (known : ∀ p ∈ node.properties, p.1 ∈ names)
    (small : (nameTable names).length < 2 ^ 32) :
    (node.opening names).map (Piece.item (nameTable names)) = node.items := by
  rw [opening, items, propertyItems, List.map_cons, List.map_map]
  refine congrArg _ (List.map_congr_left fun p member => ?_)
  obtain ⟨behind, eq⟩ := drop_nameTable (known p member)
  have less := nameOffset_lt (known p member)
  have reads : ReadsAs p.1 (p.1 ++ 0 :: behind) := ⟨node.clean p member, behind, rfl⟩
  show Item.prop (chars ((nameTable names).drop (UInt32.ofNat (nameOffset names p.1)).toNat)) p.2 =
    .prop p.1 p.2
  rw [UInt32.toNat_ofNat_of_lt' (Nat.lt_trans less small), eq, reads.chars]

/-- Its pieces fit any multiple of 4. -/
theorem SourceNode.opening_fits (known : ∀ p ∈ node.properties, p.1 ∈ names)
    (small : (nameTable names).length < 2 ^ 32) :
    ∀ p ∈ node.opening names, p.Fits (nameTable names) 0 := by
  rw [opening, List.forall_mem_cons, List.forall_mem_map]
  refine ⟨?_, fun p member => ?_⟩
  · obtain ⟨few, multiple⟩ := length_paddingOf (node.name.length + 1)
    exact ⟨node.nameClean, few, by omega⟩
  · obtain ⟨few, multiple⟩ := length_paddingOf p.2.length
    obtain ⟨behind, eq⟩ := drop_nameTable (known p member)
    have less := nameOffset_lt (known p member)
    refine ⟨?_, node.short p member, few, by omega⟩
    rw [UInt32.toNat_ofNat_of_lt' (Nat.lt_trans less small), eq]
    simp

namespace TreeSource

theorem mem_names (member : node ∈ t.tree.preorder) :
    ∀ p ∈ node.properties, p.1 ∈ t.names := by
  intro p inNode
  rw [names, List.mem_dedup, List.mem_flatMap]
  exact ⟨node, member, List.mem_map_of_mem inNode⟩

/-- The items of the tree are what its pieces say. -/
theorem map_pieces (small : t.stringBytes.length < 2 ^ 32) :
    t.pieces.map (Piece.item t.stringBytes) = t.items :=
  Outline.map_write t.tree fun _ member => SourceNode.items_opening (mem_names member) small

theorem piecesFit {a : Nat} (aligned : a % 4 = 0) (small : t.flatten.length < 2 ^ 32) :
    PiecesFit t.stringBytes a t.pieces := by
  have length := t.length_flatten
  refine piecesFit_of_forall aligned fun p member => ?_
  rcases Outline.mem_write member with rfl | ⟨node, inTree, opens⟩
  · trivial
  · have strings : t.stringBytes.length < 2 ^ 32 := by omega
    exact SourceNode.opening_fits (mem_names inTree) strings p opens

end TreeSource

/-- **The blob holds the items of the tree, and its reservation entries.** -/
theorem WrittenAt.contents {mem : Memory} {dtb outHwInfo : UInt64} (written : WrittenAt mem dtb t)
    (record : outHwInfo ≠ 0) :
    HoldsContents mem outHwInfo dtb (t.items ++ [.fdtEnd]) t.reserved := by
  have length := t.length_flatten
  have map := t.length_mapBytes
  have small := written.small
  have accepted : HeaderAccepted mem outHwInfo dtb := written.accepted record
  have start := blobStart_toNat accepted written.noWrap
  have aligned := written.aligned
  rw [written.header, written.sizes.2.1] at start
  have holds : HoldsPieces mem dtb t.pieces [] := by
    refine ⟨?_, ?_⟩
    · rw [written.structBlock, List.append_nil]
      rfl
    · rw [written.stringsBlock]
      exact TreeSource.piecesFit (by omega) small
  have few : UInt64.ofNat t.reserved.length < 255 := by
    rw [UInt64.lt_iff_toNat_lt, UInt64.toNat_ofNat_of_lt' (Nat.lt_trans t.few (by decide))]
    exact t.few
  have contents := holds.contents accepted written.noWrap
    (written.terminates.reservedEntries written.noWrap.endFits few)
  rw [written.reservedEntries, written.stringsBlock, piecesItems,
    TreeSource.map_pieces (by omega)] at contents
  exact contents

end Contents

end CharcoalOS
