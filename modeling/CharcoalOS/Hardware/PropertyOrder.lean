import CharcoalOS.Hardware.Rewriting

/-!
# The order of the properties of a node

The walk decodes the `reg` of a memory node at every property from the one on that makes
its context complete. `after_eq` says that this is as good as once at the end, and
`accepts_iff` that it is accepted where that is, if no two properties have one name. What
is saved by then is the same in every order, and so is the report: `property_order`.
-/

namespace CharcoalOS

open Effect Effect.Program

/-- The name, if the item is a property. -/
def Item.propertyName : Item → Option (List UInt8)
  | .prop name _ => some name
  | _ => none

/-- The item is a property or an `FDT_NOP`. -/
def Item.InNode : Item → Prop
  | .prop _ _ => True
  | .nop => True
  | _ => False

namespace Discovered

variable (d : Discovered)

/-- A property is saved and not decoded. -/
def save : Item → Discovered
  | .prop name value => d.withProperty name value
  | _ => d

def saved (items : List Item) : Discovered := items.foldl save d

/-- No property of the node has been seen, and the node has a name. -/
structure Entered : Prop where
  reg : d.reg = none
  named : d.nameEmpty = false

end Discovered

section Names

variable {items items' : List Item} {item item' : Item} {name name' value value' : List UInt8}
  {d : Discovered}

/-- Only one name is that of a saved property of its kind. -/
theorem nameKind_injective (same : nameKind name = nameKind name')
    (known : nameKind name ≠ .other) : name = name' := by
  unfold nameKind at same known
  grind

/-- Items of one name are one item, if the names are distinct. -/
theorem eq_of_names_nodup (distinct : (items.filterMap Item.propertyName).Nodup)
    (left : item ∈ items) (right : item' ∈ items) (leftName : item.propertyName = some name)
    (rightName : item'.propertyName = some name) : item = item' := by
  induction items with
  | nil => cases left
  | cons first items ih =>
      have later : ∀ item ∈ items, item.propertyName = some name →
          name ∈ items.filterMap Item.propertyName := fun item member named =>
        List.mem_filterMap.mpr ⟨item, member, named⟩
      rw [List.filterMap_cons] at distinct
      rcases List.mem_cons.mp left with rfl | inLeft
      · rw [leftName] at distinct
        rcases List.mem_cons.mp right with rfl | inRight
        · rfl
        · exact absurd (later item' inRight rightName) (List.nodup_cons.mp distinct).1
      · rcases List.mem_cons.mp right with rfl | inRight
        · rw [rightName] at distinct
          exact absurd (later item inLeft leftName) (List.nodup_cons.mp distinct).1
        · refine ih ?_ inLeft inRight
          cases named : first.propertyName with
          | none =>
              rw [named] at distinct
              exact distinct
          | some _ =>
              rw [named] at distinct
              exact (List.nodup_cons.mp distinct).2

/-- Properties of different names can be saved in either order. -/
theorem Discovered.withProperty_comm (different : name ≠ name') :
    (d.withProperty name value).withProperty name' value' =
      (d.withProperty name' value').withProperty name value := by
  have kinds : nameKind name = nameKind name' → nameKind name = .other := fun same => by
    by_contra known
    exact different (nameKind_injective same known)
  simp only [Discovered.withProperty, Discovered.mk.injEq, true_and, and_true]
  refine ⟨?_, ?_, ?_, ?_⟩ <;> grind

/-- Items of distinct names can be saved in either order. -/
theorem Discovered.save_comm (distinct : (items.filterMap Item.propertyName).Nodup)
    (left : item ∈ items) (right : item' ∈ items) :
    (d.save item).save item' = (d.save item').save item := by
  cases item with
  | prop name value =>
      cases item' with
      | prop name' value' =>
          by_cases same : name = name'
          · subst same
            rw [eq_of_names_nodup distinct left right rfl rfl]
          · exact Discovered.withProperty_comm same
      | _ => rfl
  | _ => rfl

/-- **What the properties of a node leave is the same in every order.** -/
theorem Discovered.saved_perm (distinct : (items.filterMap Item.propertyName).Nodup)
    (perm : items.Perm items') : d.saved items = d.saved items' :=
  perm.foldl_eq' (fun _ left _ right _ => Discovered.save_comm distinct left right) d

end Names

/-! ## Decoding again and again -/

namespace Discovered

variable {d d' : Discovered} {items items' : List Item} {item : Item} {name value : List UInt8}

theorem saved_snoc : d.saved (items ++ [item]) = (d.saved items).save item := List.foldl_append

theorem Decodable.congr (decodable : d.Decodable) (reg : d'.reg = d.reg)
    (address : d'.addressCells = d.addressCells) (size : d'.sizeCells = d.sizeCells) :
    d'.Decodable := by
  refine ⟨by rw [address, size]; exact decodable.known, ?_⟩
  rw [reg, address, size]
  exact decodable.reg

/-- What is complete stays complete. -/
theorem decodes_withProperty (name value : List UInt8) (decodes : d.decodes = true) :
    (d.withProperty name value).decodes = true := by
  rw [Discovered.decodes, Bool.and_eq_true] at decodes ⊢
  obtain ⟨reg, memory⟩ := decodes
  constructor
  · rw [withProperty]
    dsimp only
    split <;> [rfl; exact reg]
  · rw [withProperty, memory]
    rfl

/-- An earlier decoding is as good as none. -/
theorem withProperty_decode (d : Discovered) (name value : List UInt8) :
    (d.decode.withProperty name value).decodes = (d.withProperty name value).decodes ∧
      ((d.decode.withProperty name value).Decodable ↔ (d.withProperty name value).Decodable) ∧
      (d.decode.withProperty name value).decode = (d.withProperty name value).decode := by
  by_cases complete : d.decodes = true
  · rw [decode, if_pos complete]
    refine ⟨rfl, ⟨fun decodable => decodable.congr rfl rfl rfl,
      fun decodable => decodable.congr rfl rfl rfl⟩, ?_⟩
    have later := decodes_withProperty name value complete
    rw [decode, decode, if_pos later]
    exact if_pos later
  · rw [decode, if_neg complete]
    exact ⟨rfl, Iff.rfl, rfl⟩

theorem nameEmpty_saved : (d.saved items).nameEmpty = d.nameEmpty := by
  induction items using List.reverseRecOn with
  | nil => rfl
  | append_singleton items item ih =>
      rw [saved_snoc, ← ih]
      cases item <;> rfl

/-- A `reg` that has been seen is that of one of the items. -/
theorem exists_reg_of_saved (none : d.reg = none) (some : (d.saved items).reg.isSome = true) :
    ∃ name value, .prop name value ∈ items ∧ nameKind name = .reg := by
  induction items using List.reverseRecOn with
  | nil =>
      rw [show d.saved [] = d from rfl, none] at some
      cases some
  | append_singleton items item ih =>
      rw [saved_snoc] at some
      have later : (d.saved items).reg.isSome = true →
          ∃ name value, .prop name value ∈ items ++ [item] ∧ nameKind name = .reg := by
        intro before
        obtain ⟨name, value, member, kind⟩ := ih before
        exact ⟨name, value, List.mem_append_left _ member, kind⟩
      cases item with
      | prop name value =>
          by_cases kind : nameKind name = .reg
          · exact ⟨name, value, List.mem_append_right _ List.mem_cons_self, kind⟩
          · rw [save, withProperty, if_neg kind] at some
            exact later some
      | _ => exact later some

/-- The properties of a node decode its `reg` as it is at the end, or never. -/
theorem after_eq (entered : d.Entered) (inNode : ∀ item ∈ items, item.InNode) :
    d.after items = (d.saved items).decode := by
  induction items using List.reverseRecOn with
  | nil =>
      have incomplete : ¬ d.decodes = true := by
        rw [decodes, entered.reg]
        exact Bool.false_ne_true
      exact (if_neg incomplete).symm
  | append_singleton items item ih =>
      have ih := ih fun item member => inNode item (List.mem_append_left _ member)
      have here := inNode item (List.mem_append_right _ List.mem_cons_self)
      rw [after_append, ih, saved_snoc, after_cons, after_nil]
      cases item with
      | prop name value => exact (withProperty_decode _ name value).2.2
      | nop => rfl
      | _ => exact here.elim

/-- The properties of a node are accepted exactly if what they leave at the end is. -/
theorem accepts_iff (entered : d.Entered) (inNode : ∀ item ∈ items, item.InNode)
    (distinct : (items.filterMap Item.propertyName).Nodup) :
    d.Accepts items ↔ ((d.saved items).decodes = true → (d.saved items).Decodable) := by
  induction items using List.reverseRecOn with
  | nil =>
      refine iff_of_true trivial fun complete => ?_
      rw [show d.saved [] = d from rfl, decodes, entered.reg] at complete
      cases complete
  | append_singleton items item ih =>
      have inFront := fun item member => inNode item (List.mem_append_left _ member)
      have here := inNode item (List.mem_append_right _ List.mem_cons_self)
      rw [List.filterMap_append] at distinct
      have ih := ih inFront (List.nodup_append.mp distinct).1
      rw [accepts_append, after_eq entered inFront, ih, saved_snoc, accepts_cons,
        and_iff_left (accepts_nil (d := _))]
      cases item with
      | prop name value =>
          obtain ⟨decodesEq, decodableIff, -⟩ := withProperty_decode (d.saved items) name value
          have named : (d.saved items).decode.nameEmpty = false := by
            rw [decode]
            split <;> exact nameEmpty_saved.trans entered.named
          have last : (d.saved items).decode.Allows (.prop name value) ↔
              (((d.saved items).withProperty name value).decodes = true →
                ((d.saved items).withProperty name value).Decodable) := by
            rw [Allows, decodesEq, decodableIff, named]
            simp
          rw [last]
          refine and_iff_right_of_imp fun whole complete => ?_
          have decodable := whole (decodes_withProperty name value complete)
          -- the `reg` is among the items before, so the last one has another name
          have other : nameKind name ≠ .reg := by
            intro reg
            rw [decodes, Bool.and_eq_true] at complete
            obtain ⟨name', value', member, kind⟩ := exists_reg_of_saved entered.reg complete.1
            have same := nameKind_injective (reg.trans kind.symm) (by rw [reg]; decide)
            subst same
            exact (List.nodup_append.mp distinct).2.2 name
              (List.mem_filterMap.mpr ⟨_, member, rfl⟩) name List.mem_cons_self rfl
          refine decodable.congr ?_ ?_ ?_
          · rw [withProperty, if_neg other]
          · rw [withProperty, nameEmpty_saved, entered.named]
            rfl
          · rw [withProperty, nameEmpty_saved, entered.named]
            rfl
      | nop => exact and_iff_left trivial
      | _ => exact here.elim

/-- **In every order, the properties of a node are accepted alike, and leave the same.** -/
theorem perm (entered : d.Entered) (inNode : ∀ item ∈ items, item.InNode)
    (distinct : (items.filterMap Item.propertyName).Nodup) (perm : items.Perm items') :
    (d.Accepts items ↔ d.Accepts items') ∧ d.after items = d.after items' := by
  have inNode' : ∀ item ∈ items', item.InNode := fun item member =>
    inNode item (perm.mem_iff.mpr member)
  have distinct' : (items'.filterMap Item.propertyName).Nodup :=
    (perm.filterMap _).nodup_iff.mp distinct
  rw [accepts_iff entered inNode distinct, accepts_iff entered inNode' distinct',
    after_eq entered inNode, after_eq entered inNode', saved_perm distinct perm]
  exact ⟨Iff.rfl, rfl⟩

end Discovered

/-! ## Pieces -/

section Pieces

variable {strings : List UInt8} {a : Nat} {pieces pieces' before after ps qs : List Piece}
  {name padding : List UInt8} {d : Discovered}

/-- Properties can be at any multiple of 4. -/
theorem piecesFit_iff (aligned : a % 4 = 0) (inNode : ∀ p ∈ ps, (p.item strings).InNode) :
    PiecesFit strings a ps ↔ ∀ p ∈ ps, p.Fits strings 0 := by
  induction ps generalizing a with
  | nil => simp [PiecesFit]
  | cons p ps ih =>
      rw [List.forall_mem_cons] at inNode ⊢
      have first : p.Fits strings a ↔ p.Fits strings 0 :=
        ⟨fun fits => fits.congr (by omega), fun fits => fits.congr (by omega)⟩
      have words : p.Fits strings 0 → (a + p.bytes.length) % 4 = 0 := by
        intro fits
        cases p with
        | prop nameOffset value padding =>
            have multiple := fits.2.2.2
            simp only [Piece.bytes, List.length_append, length_word]
            omega
        | nop =>
            rw [Piece.bytes, length_word]
            omega
        | _ => exact inNode.1.elim
      rw [PiecesFit, first]
      exact and_congr_right fun fits => ih (words fits) inNode.2

theorem aligned_past_beginNode (fits : (Piece.beginNode name padding).Fits strings a) :
    (a + (Piece.beginNode name padding).bytes.length) % 4 = 0 := by
  have multiple := fits.2.2
  simp only [Piece.bytes, List.length_append, List.length_cons, length_word]
  omega

/-- The properties of a node fit in every order, and what is behind them stays in place. -/
theorem piecesFit_perm
    (fit : PiecesFit strings a (before ++ .beginNode name padding :: (ps ++ after)))
    (inNode : ∀ p ∈ ps, (p.item strings).InNode) (perm : ps.Perm qs) :
    PiecesFit strings a (before ++ .beginNode name padding :: (qs ++ after)) := by
  obtain ⟨fitBefore, fitNode, rest⟩ := piecesFit_append.mp fit
  obtain ⟨fitPs, fitAfter⟩ := piecesFit_append.mp rest
  have aligned := aligned_past_beginNode fitNode
  have inNode' : ∀ p ∈ qs, (p.item strings).InNode := fun p member =>
    inNode p (perm.mem_iff.mpr member)
  have fitQs := (piecesFit_iff aligned inNode').mpr fun p member =>
    (piecesFit_iff aligned inNode).mp fitPs p (perm.mem_iff.mpr member)
  have length : (piecesBytes ps).length = (piecesBytes qs).length :=
    (perm.flatMap_right Piece.bytes).length_eq
  rw [length] at fitAfter
  exact piecesFit_append.mpr ⟨fitBefore, fitNode, piecesFit_append.mpr ⟨fitQs, fitAfter⟩⟩

/-- The order of the properties is no matter of what is accepted and left. -/
theorem piecesItems_perm (d : Discovered) (before after : List Piece) (padding : List UInt8)
    (named : name ≠ []) (inNode : ∀ p ∈ ps, (p.item strings).InNode)
    (distinct : ((ps.map (Piece.item strings)).filterMap Item.propertyName).Nodup)
    (perm : ps.Perm qs) :
    (d.Accepts (piecesItems strings (before ++ .beginNode name padding :: (ps ++ after))) ↔
        d.Accepts (piecesItems strings (before ++ .beginNode name padding :: (qs ++ after)))) ∧
      d.after (piecesItems strings (before ++ .beginNode name padding :: (ps ++ after))) =
        d.after (piecesItems strings (before ++ .beginNode name padding :: (qs ++ after))) := by
  have entered : ((d.after (before.map (Piece.item strings))).step (.beginNode name)).Entered :=
    ⟨rfl, by simpa [Discovered.step] using named⟩
  have inNode' : ∀ item ∈ ps.map (Piece.item strings), item.InNode := by
    intro item member
    obtain ⟨p, inPs, rfl⟩ := List.mem_map.mp member
    exact inNode p inPs
  obtain ⟨accepts, same⟩ := Discovered.perm entered inNode' distinct (perm.map _)
  simp only [piecesItems, List.map_append, List.map_cons, List.append_assoc, List.cons_append,
    Discovered.accepts_append, Discovered.accepts_cons, Discovered.after_append,
    Discovered.after_cons, Piece.item]
  rw [accepts, same]
  exact ⟨Iff.rfl, rfl⟩

end Pieces

/-- **The order of the properties of a node is no matter.** An accepted blob with terminated
names is pieces; put the properties behind an `FDT_BEGIN_NODE` with a name in another order,
and it is accepted and reports the same hardware. -/
theorem property_order (env : Env) (outHwInfo dtb : UInt64) (prior : HardwareInfo)
    (ready : env.Ready) (noWrap : NoWrap env.memory dtb)
    (returned : (parseDeviceTreeBlob env outHwInfo dtb prior).outcome = .ok ())
    (terminated : NamesTerminated env.memory dtb) :
    (∃ pieces tail, HoldsPieces env.memory dtb pieces tail) ∧
    ∀ pieces tail, HoldsPieces env.memory dtb pieces tail →
      ∀ env' before name padding ps qs after, env'.Ready →
        pieces = before ++ .beginNode name padding :: (ps ++ after) → name ≠ [] →
        (∀ p ∈ ps, (p.item (stringsBlock env.memory dtb)).InNode) →
        ((ps.map (Piece.item (stringsBlock env.memory dtb))).filterMap Item.propertyName).Nodup →
        ps.Perm qs →
        Rewritten env.memory env'.memory dtb 0
          (before ++ .beginNode name padding :: (qs ++ after)) tail →
        (parseDeviceTreeBlob env' outHwInfo dtb prior).outcome = .ok () ∧
          SameHardware (parseDeviceTreeBlob env outHwInfo dtb prior).state
            (parseDeviceTreeBlob env' outHwInfo dtb prior).state := by
  obtain ⟨accepted, ⟨m, map⟩, us, tokens⟩ := parts_of_returned ready returned
  refine ⟨exists_pieces accepted noWrap tokens terminated, ?_⟩
  intro pieces tail holds env' before name padding ps qs after ready' split named inNode distinct
    perm rewritten
  have contents := holds.contents accepted noWrap map
  have fit := holds.fit
  rw [split] at contents fit
  have noWrap' := rewritten.noWrap noWrap
  have contents' := rewritten.contents accepted noWrap noWrap' map
    (piecesFit_perm fit inNode perm)
  obtain ⟨accepts, same⟩ :=
    piecesItems_perm .initial before after padding named inNode distinct perm
  obtain ⟨outcome, hardware⟩ := same_of_discovered prior ready ready' noWrap noWrap'
    contents contents' accepts fun _ => same
  exact ⟨outcome.trans returned, hardware returned⟩

/-- The properties of the memory node of `memoryBlob`. -/
def memoryProperties : List Piece :=
  [.prop deviceTypeOffset (cString "memory") [0],
    .prop regOffset (word 0x40000000 ++ word 0x1000) []]

/-- The pieces of `memoryBlob` before its memory node. -/
def rootPieces : List Piece :=
  [.beginNode [] [0, 0, 0], .prop addressCellsOffset (word 1) [],
    .prop sizeCellsOffset (word 1) []]

/-- The pieces of `memoryBlob`, with these properties in its memory node. -/
def memoryPiecesOf (properties : List Piece) : List Piece :=
  rootPieces ++ .beginNode (chars (cString "memory")) [0] :: (properties ++ piecesAfterReg)

/-- `memoryBlob` reports the same hardware with its `reg` in front of its `device_type`. -/
theorem property_order_memoryBlob :
    (parseDeviceTreeBlob (Blob.ofPieces (memoryPiecesOf memoryProperties.reverse)).env 1
        Blob.address .zero).outcome = .ok () ∧
      SameHardware (parseDeviceTreeBlob memoryBlob.env 1 Blob.address .zero).state
        (parseDeviceTreeBlob (Blob.ofPieces (memoryPiecesOf memoryProperties.reverse)).env 1
          Blob.address .zero).state := by
  obtain ⟨-, all⟩ := property_order memoryBlob.env 1 Blob.address .zero memoryBlob_ready
    (by decide +kernel) memoryBlob_returned memoryBlob_terminated
  have inNode : ∀ p ∈ memoryProperties,
      (p.item (stringsBlock memoryBlob.env.memory Blob.address)).InNode := by
    rw [memoryProperties, List.forall_mem_cons, List.forall_mem_singleton]
    exact ⟨trivial, trivial⟩
  refine all memoryPieces [] memoryBlob_pieces
    (Blob.ofPieces (memoryPiecesOf memoryProperties.reverse)).env rootPieces
    (chars (cString "memory")) [0] memoryProperties memoryProperties.reverse piecesAfterReg
    (Blob.ready (by decide +kernel)) rfl (by decide) inNode
    (by decide +kernel) (List.reverse_perm _).symm ?_
  refine ⟨?_, ?_, ?_, ?_, ?_, ?_, ?_, ?_, entries_of_empty ?_ ?_⟩ <;> decide +kernel

end CharcoalOS
