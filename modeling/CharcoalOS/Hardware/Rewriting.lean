import CharcoalOS.Hardware.Pieces
import CharcoalOS.Hardware.Reserved

/-!
# Blobs with a rewritten struct block

`Rewritten` says that one blob is another with other pieces in its struct block, larger by
some bytes: the blocks behind have moved, and are as they were. It is accepted by the
header checks and has the same reservation entries, so that the items of its pieces decide
(`Rewritten.contents`). With `FDT_NOP`s for pieces, that is `nops_transparent`.
-/

namespace CharcoalOS

open Effect Effect.Program

/-- An offset in a header whose struct block grows by `n` bytes: a block behind moves. -/
def shifted (header : DTBHeader) (n : Nat) (offset : UInt32) : Nat :=
  if header.offDtStruct.toNat + header.sizeDtStruct.toNat ≤ offset.toNat then offset.toNat + n
  else offset.toNat

/-- The blob in `mem'` is that in `mem`, its struct block larger by `n` bytes: the `pieces`,
`FDT_END` and the `tail`. -/
structure Rewritten (mem mem' : Memory) (dtb : UInt64) (n : Nat) (pieces : List Piece)
    (tail : List UInt8) : Prop where
  magic : (headerAt mem' dtb).magic = (headerAt mem dtb).magic
  totalSize : (headerAt mem' dtb).totalSize.toNat = (headerAt mem dtb).totalSize.toNat + n
  offDtStruct : (headerAt mem' dtb).offDtStruct = (headerAt mem dtb).offDtStruct
  sizeDtStruct :
    (headerAt mem' dtb).sizeDtStruct.toNat = (headerAt mem dtb).sizeDtStruct.toNat + n
  offDtStrings : (headerAt mem' dtb).offDtStrings.toNat =
    shifted (headerAt mem dtb) n (headerAt mem dtb).offDtStrings
  offMemRsvmap : (headerAt mem' dtb).offMemRsvmap.toNat =
    shifted (headerAt mem dtb) n (headerAt mem dtb).offMemRsvmap
  structBlock : structBlock mem' dtb = piecesBytes pieces ++ (word fdtEnd ++ tail)
  stringsBlock : stringsBlock mem' dtb = stringsBlock mem dtb
  entries : ∀ m, Terminates mem dtb m → ∀ i ≤ m, entryAt mem' dtb i = entryAt mem dtb i

section Blobs

variable {mem mem' : Memory} {outHwInfo dtb m : UInt64} {n : Nat} {pieces : List Piece}
  {tail : List UInt8}

theorem le_shifted (header : DTBHeader) (n : Nat) (offset : UInt32) :
    offset.toNat ≤ shifted header n offset ∧ shifted header n offset ≤ offset.toNat + n := by
  unfold shifted
  split <;> omega

theorem Rewritten.noWrap (rewritten : Rewritten mem mem' dtb 0 pieces tail)
    (noWrap : NoWrap mem dtb) : NoWrap mem' dtb := by
  unfold NoWrap at noWrap ⊢
  rw [rewritten.totalSize]
  exact noWrap

/-- The header checks pass again. -/
theorem Rewritten.header (rewritten : Rewritten mem mem' dtb n pieces tail)
    (accepted : HeaderAccepted mem outHwInfo dtb) : HeaderAccepted mem' outHwInfo dtb := by
  have total := rewritten.totalSize
  have strings := congrArg List.length rewritten.stringsBlock
  rw [CharcoalOS.stringsBlock, CharcoalOS.stringsBlock, length_bytesFrom,
    length_bytesFrom] at strings
  refine ⟨accepted.record, accepted.blob, rewritten.magic.trans accepted.magic, ?_, ?_, ?_, ?_⟩
  · have := accepted.totalSize
    omega
  · have := accepted.rsvmap
    have := le_shifted (headerAt mem dtb) n (headerAt mem dtb).offMemRsvmap
    rw [rewritten.offMemRsvmap]
    omega
  · have := accepted.structBlock
    rw [rewritten.offDtStruct, rewritten.sizeDtStruct]
    omega
  · have := accepted.stringsBlock
    have := le_shifted (headerAt mem dtb) n (headerAt mem dtb).offDtStrings
    rw [rewritten.offDtStrings]
    omega

theorem Terminates.reservedEntries (map : Terminates mem dtb m) (noWrap : EndFits mem dtb)
    (few : m < 255) : ReservedEntries mem dtb m := by
  refine ⟨few, map.inside, Or.inr map.terminator, fun j less => not_entryEnds_iff.mpr ⟨?_, ?_⟩⟩
  · exact (map.inside.le (UInt64.le_of_lt less)).beforeEnd noWrap
  · exact map.real j less

theorem NoWrap.endFits (noWrap : NoWrap mem dtb) : EndFits mem dtb := by
  unfold NoWrap at noWrap
  unfold EndFits
  omega

/-- The reservation entries are the same. -/
theorem Rewritten.map (rewritten : Rewritten mem mem' dtb n pieces tail)
    (noWrap : NoWrap mem dtb) (noWrap' : NoWrap mem' dtb) (map : ReservedEntries mem dtb m) :
    ReservedEntries mem' dtb m ∧ reservedEntries mem' dtb m = reservedEntries mem dtb m := by
  have terminates := map.terminates noWrap.endFits
  have same := rewritten.entries m terminates
  have inside : EntryFits mem' dtb m := by
    have fits := map.fits
    have := le_shifted (headerAt mem dtb) n (headerAt mem dtb).offMemRsvmap
    unfold EntryFits at fits ⊢
    rw [rewritten.offMemRsvmap, rewritten.totalSize]
    omega
  have terminates' : Terminates mem' dtb m := by
    refine ⟨inside, ?_, fun j less => ?_⟩
    · rw [same m (UInt64.le_refl m)]
      exact terminates.terminator
    · rw [same j (UInt64.le_of_lt less)]
      exact terminates.real j less
  refine ⟨terminates'.reservedEntries noWrap'.endFits map.few, ?_⟩
  refine List.map_congr_left fun i member => same (UInt64.ofNat i) ?_
  have less := List.mem_range.mp member
  have bound := m.toNat_lt
  rw [UInt64.le_iff_toNat_le, UInt64.toNat_ofNat_of_lt' (show i < 2 ^ 64 by omega)]
  omega

/-- **The pieces are the contents of the rewritten blob.** -/
theorem Rewritten.contents (rewritten : Rewritten mem mem' dtb n pieces tail)
    (accepted : HeaderAccepted mem outHwInfo dtb) (noWrap : NoWrap mem dtb)
    (noWrap' : NoWrap mem' dtb) (map : ReservedEntries mem dtb m)
    (fit : PiecesFit (CharcoalOS.stringsBlock mem dtb) (blobStart mem dtb).toNat pieces) :
    HoldsContents mem' outHwInfo dtb (piecesItems (CharcoalOS.stringsBlock mem dtb) pieces)
      (reservedEntries mem dtb m) := by
  have start : blobStart mem' dtb = blobStart mem dtb := by
    rw [blobStart, blobStart, structStart, structStart, rewritten.offDtStruct]
  obtain ⟨map', same⟩ := rewritten.map noWrap noWrap' map
  have holds : HoldsPieces mem' dtb pieces tail := by
    refine ⟨rewritten.structBlock, ?_⟩
    rw [rewritten.stringsBlock, start]
    exact fit
  rw [← same, ← rewritten.stringsBlock]
  exact holds.contents (rewritten.header accepted) noWrap' map'

end Blobs

/-! ## `FDT_NOP` -/

/-- The second list is the first with `FDT_NOP`s put in. -/
inductive NopsInserted : List Piece → List Piece → Prop
  | done : NopsInserted [] []
  | keep {p : Piece} {pieces pieces' : List Piece} : NopsInserted pieces pieces' →
    NopsInserted (p :: pieces) (p :: pieces')
  | insert {pieces pieces' : List Piece} : NopsInserted pieces pieces' →
    NopsInserted pieces (.nop :: pieces')

section Nops

variable {strings : List UInt8} {a b : Nat} {p : Piece} {pieces pieces' : List Piece}
  {d : Discovered} {items items' : List Item}

/-- Whether a piece fits is a matter of the last two bits of the address. -/
theorem Piece.Fits.congr (fits : p.Fits strings a) (same : a % 4 = b % 4) : p.Fits strings b := by
  cases p with
  | beginNode name padding => exact ⟨fits.1, fits.2.1, by have := fits.2.2; omega⟩
  | prop nameOffset value padding =>
      exact ⟨fits.1, fits.2.1, fits.2.2.1, by have := fits.2.2.2; omega⟩
  | _ => trivial

theorem PiecesFit.congr (fit : PiecesFit strings a pieces) (same : a % 4 = b % 4) :
    PiecesFit strings b pieces := by
  induction pieces generalizing a b with
  | nil => trivial
  | cons p pieces ih => exact ⟨fit.1.congr same, ih fit.2 (by omega)⟩

theorem piecesFit_append :
    PiecesFit strings a (pieces ++ pieces') ↔
      PiecesFit strings a pieces ∧ PiecesFit strings (a + (piecesBytes pieces).length) pieces' := by
  induction pieces generalizing a with
  | nil => simp [PiecesFit, piecesBytes]
  | cons p pieces ih =>
      simp only [List.cons_append, PiecesFit, ih, piecesBytes, List.flatMap_cons,
        List.length_append, ← Nat.add_assoc, and_assoc]

/-- What is put in moves the rest by whole words. -/
theorem NopsInserted.fit (inserted : NopsInserted pieces pieces')
    (fit : PiecesFit strings a pieces) : PiecesFit strings a pieces' := by
  induction inserted generalizing a with
  | done => trivial
  | keep _ ih => exact ⟨fit.1, ih fit.2⟩
  | insert _ ih =>
      exact ⟨trivial, ih (fit.congr (show a % 4 = (a + 4) % 4 by omega))⟩

theorem NopsInserted.filter_eq (inserted : NopsInserted pieces pieces') :
    (piecesItems strings pieces').filter (· ≠ .nop) =
      (piecesItems strings pieces).filter (· ≠ .nop) := by
  induction inserted with
  | done => rfl
  | keep _ ih =>
      unfold piecesItems at ih ⊢
      rw [List.map_cons, List.map_cons, List.cons_append, List.cons_append, List.filter_cons,
        List.filter_cons, ih]
  | insert _ ih => exact ih

/-- An `FDT_NOP` is allowed, and leaves nothing. -/
theorem Discovered.accepts_filter : d.Accepts (items.filter (· ≠ .nop)) ↔ d.Accepts items := by
  induction items generalizing d with
  | nil => exact Iff.rfl
  | cons item items ih =>
      by_cases nop : item = .nop
      · subst nop
        rw [List.filter_cons_of_neg (by simp), ih, Discovered.accepts_cons]
        exact (and_iff_right trivial).symm
      · rw [List.filter_cons_of_pos (by simpa using nop), Discovered.accepts_cons,
          Discovered.accepts_cons, ih]

theorem Discovered.after_filter : d.after (items.filter (· ≠ .nop)) = d.after items := by
  rw [Discovered.after, List.foldl_filter, Discovered.after]
  congr 1
  funext d item
  cases item <;> rfl

theorem piecesFit_replicate (k : Nat) : PiecesFit strings a (List.replicate k .nop) := by
  induction k generalizing a with
  | zero => trivial
  | succ k ih => exact ⟨trivial, ih⟩

theorem length_replicate_nop (k : Nat) :
    (piecesBytes (List.replicate k .nop)).length = 4 * k := by
  induction k with
  | zero => rfl
  | succ k ih =>
      rw [List.replicate_succ, piecesBytes, List.flatMap_cons, List.length_append, ← piecesBytes,
        ih, Piece.bytes, length_word]
      omega

theorem filter_replicate_nop {before after : List Piece} (k : Nat) :
    (piecesItems strings (before ++ (List.replicate k .nop ++ after))).filter (· ≠ .nop) =
      (piecesItems strings (before ++ after)).filter (· ≠ .nop) := by
  simp [piecesItems, Piece.item]

end Nops

/-- The blob at `dtb'` holds what the pieces say, but for `FDT_NOP`s, wherever it has it, and
the reservation entries of the blob at `dtb`. -/
def HoldsAs (mem mem' : Memory) (outHwInfo dtb dtb' : UInt64) (pieces : List Piece) : Prop :=
  ∃ m items, ReservedEntries mem dtb m ∧
    HoldsContents mem' outHwInfo dtb' items (reservedEntries mem dtb m) ∧
    items.filter (· ≠ .nop) =
      (piecesItems (stringsBlock mem dtb) pieces).filter (· ≠ .nop)

section Runs

variable {env env' : Env} {outHwInfo dtb dtb' m : UInt64} {prior : HardwareInfo}
  {items items' : List Item} {entries : List (UInt64 × UInt64)} {pieces : List Piece}
  {tail : List UInt8}

/-- Two blobs whose items are the same but for `FDT_NOP`s are the same to the parser. -/
theorem same_of_filter_eq (prior : HardwareInfo) (ready : env.Ready) (ready' : env'.Ready)
    (noWrap : NoWrap env.memory dtb) (noWrap' : NoWrap env'.memory dtb')
    (holds : HoldsContents env.memory outHwInfo dtb items entries)
    (holds' : HoldsContents env'.memory outHwInfo dtb' items' entries)
    (same : items'.filter (· ≠ .nop) = items.filter (· ≠ .nop)) :
    (parseDeviceTreeBlob env' outHwInfo dtb' prior).outcome =
        (parseDeviceTreeBlob env outHwInfo dtb prior).outcome ∧
      ((parseDeviceTreeBlob env outHwInfo dtb prior).outcome = .ok () →
        SameHardware (parseDeviceTreeBlob env outHwInfo dtb prior).state
          (parseDeviceTreeBlob env' outHwInfo dtb' prior).state) := by
  refine same_of_discovered prior ready ready' noWrap noWrap' holds holds' ?_ fun _ => ?_
  · rw [← Discovered.accepts_filter, ← same, Discovered.accepts_filter]
  · rw [← Discovered.after_filter, ← same, Discovered.after_filter]

/-- An accepted blob passes the header checks, and has reservation entries and tokens. -/
theorem parts_of_returned (ready : env.Ready)
    (returned : (parseDeviceTreeBlob env outHwInfo dtb prior).outcome = .ok ()) :
    HeaderAccepted env.memory outHwInfo dtb ∧ (∃ m, ReservedEntries env.memory dtb m) ∧
      ∃ us, BlobTokens env.memory dtb us := by
  have tokens := blobTokens_walkTokens ready.halts returned
  rcases exists_head_at_end ready.halts returned tokens with ⟨s, head, -⟩
  obtain ⟨accepted, m, map, -⟩ := prologue_passed head.passed
  exact ⟨accepted, ⟨m, map⟩, _, tokens⟩

/-- **`FDT_NOP` tokens are transparent.** An accepted blob with terminated names is pieces; put
`FDT_NOP`s between them, and it is accepted and reports the same hardware. Write them over a
property, and the outcome is that of any blob which holds the rest. -/
theorem nops_transparent (env : Env) (outHwInfo dtb : UInt64) (prior : HardwareInfo)
    (ready : env.Ready) (noWrap : NoWrap env.memory dtb)
    (returned : (parseDeviceTreeBlob env outHwInfo dtb prior).outcome = .ok ())
    (terminated : NamesTerminated env.memory dtb) :
    (∃ pieces tail, HoldsPieces env.memory dtb pieces tail) ∧
    ∀ pieces tail, HoldsPieces env.memory dtb pieces tail →
      (∀ env' n pieces', env'.Ready → NoWrap env'.memory dtb → NopsInserted pieces pieces' →
        Rewritten env.memory env'.memory dtb n pieces' tail →
        (parseDeviceTreeBlob env' outHwInfo dtb prior).outcome = .ok () ∧
          SameHardware (parseDeviceTreeBlob env outHwInfo dtb prior).state
            (parseDeviceTreeBlob env' outHwInfo dtb prior).state) ∧
      ∀ env' before nameOffset value padding after k, env'.Ready →
        pieces = before ++ .prop nameOffset value padding :: after →
        (Piece.prop nameOffset value padding).bytes.length = 4 * k →
        Rewritten env.memory env'.memory dtb 0 (before ++ (List.replicate k .nop ++ after)) tail →
        ∀ env'' dtb'', env''.Ready → NoWrap env''.memory dtb'' →
          HoldsAs env.memory env''.memory outHwInfo dtb dtb'' (before ++ after) →
          (parseDeviceTreeBlob env' outHwInfo dtb prior).outcome =
              (parseDeviceTreeBlob env'' outHwInfo dtb'' prior).outcome ∧
            ((parseDeviceTreeBlob env'' outHwInfo dtb'' prior).outcome = .ok () →
              SameHardware (parseDeviceTreeBlob env'' outHwInfo dtb'' prior).state
                (parseDeviceTreeBlob env' outHwInfo dtb prior).state) := by
  obtain ⟨accepted, ⟨m, map⟩, us, tokens⟩ := parts_of_returned ready returned
  refine ⟨exists_pieces accepted noWrap tokens terminated, fun pieces tail holds => ⟨?_, ?_⟩⟩
  · intro env' n pieces' ready' noWrap' inserted rewritten
    have contents := holds.contents accepted noWrap map
    have contents' := rewritten.contents accepted noWrap noWrap' map (inserted.fit holds.fit)
    obtain ⟨outcome, hardware⟩ := same_of_filter_eq prior ready ready' noWrap noWrap'
      contents contents' inserted.filter_eq
    exact ⟨outcome.trans returned, hardware returned⟩
  · intro env' before nameOffset value padding after k ready' split size rewritten env'' dtb''
      ready'' noWrap'' rest
    obtain ⟨m', items, map', contents'', same⟩ := rest
    obtain rfl := map.unique map'
    have fit := holds.fit
    rw [split] at fit
    obtain ⟨fitBefore, -, fitAfter⟩ := piecesFit_append.mp fit
    have noWrap' := rewritten.noWrap noWrap
    have contents' := rewritten.contents accepted noWrap noWrap' map
      (piecesFit_append.mpr ⟨fitBefore, piecesFit_append.mpr ⟨piecesFit_replicate k,
        by rw [length_replicate_nop, ← size]; exact fitAfter⟩⟩)
    exact same_of_filter_eq prior ready'' ready' noWrap'' noWrap' contents'' contents'
      ((filter_replicate_nop k).trans same.symm)

/-! ## Written out -/

/-- A blob whose struct block is the pieces and `FDT_END`. -/
def Blob.ofPieces (pieces : List Piece) : Blob where
  structBlock := piecesBytes pieces ++ Blob.fdtEnd
  stringsBlock := savedNames

/-- The name of the token, if it has one, ends in the strings block. -/
def Token.nameEnds (strings : List UInt8) : Token → Bool
  | .prop q => (strings.drop q.nameOffset.toNat).contains 0
  | _ => true

theorem namesTerminated_of_tokens (outHwInfo : UInt64) (prior : HardwareInfo) (ready : env.Ready)
    (returned : (parseDeviceTreeBlob env outHwInfo dtb prior).outcome = .ok ())
    (ends : (walkTokens env outHwInfo dtb prior).all
      (Token.nameEnds (stringsBlock env.memory dtb)) = true) : NamesTerminated env.memory dtb := by
  intro us tokens q member
  rw [tokens.unique (blobTokens_walkTokens ready.halts returned)] at member
  exact List.contains_iff_mem.mp (List.all_eq_true.mp ends _ member)

/-- Empty reservation maps are the same. -/
theorem entries_of_empty {mem mem' : Memory} (empty : entryAt mem dtb 0 = (0, 0))
    (empty' : entryAt mem' dtb 0 = (0, 0)) :
    ∀ m, Terminates mem dtb m → ∀ i ≤ m, entryAt mem' dtb i = entryAt mem dtb i := by
  intro m map i le
  have none : m = 0 := by
    by_contra some
    exact map.real 0 (UInt64.pos_iff_ne_zero.mpr some) empty
  have first : i = 0 := by
    rw [none] at le
    exact UInt64.toNat_inj.mp (Nat.le_zero.mp (UInt64.le_iff_toNat_le.mp le))
  rw [first, empty, empty']

/-- The pieces of `memoryBlob`. -/
def memoryPieces : List Piece :=
  [.beginNode [] [0, 0, 0], .prop addressCellsOffset (word 1) [],
    .prop sizeCellsOffset (word 1) [], .beginNode (chars (cString "memory")) [0],
    .prop deviceTypeOffset (cString "memory") [0],
    .prop regOffset (word 0x40000000 ++ word 0x1000) [], .endNode, .endNode]

/-- A blob on its own has fuel enough, and its panics do not return. -/
theorem Blob.ready {blob : Blob} (silent : nullReadsMemory blob.env.memory = false) :
    blob.env.Ready := ⟨rfl, Nat.le_refl _, silent⟩

theorem memoryBlob_ready : memoryBlob.env.Ready := Blob.ready (by decide +kernel)

theorem memoryBlob_terminated : NamesTerminated memoryBlob.env.memory Blob.address :=
  namesTerminated_of_tokens 1 .zero memoryBlob_ready memoryBlob_returned
    (by decide +kernel)

theorem memoryBlob_pieces : HoldsPieces memoryBlob.env.memory Blob.address memoryPieces [] :=
  ⟨by decide +kernel, by decide +kernel⟩

/-- The pieces of `memoryBlob`, with four `FDT_NOP`s between. -/
def nopsPieces : List Piece :=
  [.nop, .beginNode [] [0, 0, 0], .nop, .prop addressCellsOffset (word 1) [],
    .prop sizeCellsOffset (word 1) [], .beginNode (chars (cString "memory")) [0],
    .prop deviceTypeOffset (cString "memory") [0], .nop,
    .prop regOffset (word 0x40000000 ++ word 0x1000) [], .endNode, .endNode, .nop]

theorem nopsPieces_inserted : NopsInserted memoryPieces nopsPieces :=
  .insert <| .keep <| .insert <| .keep <| .keep <| .keep <| .keep <| .insert <| .keep <| .keep <|
    .keep <| .insert .done

/-- The pieces of `memoryBlob` before and after its `reg`. -/
def piecesBeforeReg : List Piece :=
  [.beginNode [] [0, 0, 0], .prop addressCellsOffset (word 1) [],
    .prop sizeCellsOffset (word 1) [], .beginNode (chars (cString "memory")) [0],
    .prop deviceTypeOffset (cString "memory") [0]]

def piecesAfterReg : List Piece := [.endNode, .endNode]

/-- `memoryBlob` with `FDT_NOP`s over its `reg`. -/
def overwrittenBlob : Blob :=
  .ofPieces (piecesBeforeReg ++ (List.replicate 5 .nop ++ piecesAfterReg))

/-- `memoryBlob` without its `reg`. -/
def withoutRegBlob : Blob := .ofPieces (piecesBeforeReg ++ piecesAfterReg)

theorem reservedEntries_zero {mem : Memory} : reservedEntries mem dtb 0 = [] := rfl

theorem reservedEntries_of_empty {mem : Memory} (inside : EntryFits mem dtb 0)
    (empty : entryAt mem dtb 0 = (0, 0)) (noWrap : NoWrap mem dtb) : ReservedEntries mem dtb 0 :=
  Terminates.reservedEntries ⟨inside, empty, fun _ less => absurd less UInt64.not_lt_zero⟩
    noWrap.endFits (by decide)

theorem withoutRegBlob_holds : HoldsAs memoryBlob.env.memory withoutRegBlob.env.memory 1
    Blob.address Blob.address (piecesBeforeReg ++ piecesAfterReg) := by
  have accepted : HeaderAccepted withoutRegBlob.env.memory 1 Blob.address := by
    constructor <;> decide +kernel
  have noWrap : NoWrap withoutRegBlob.env.memory Blob.address := by decide +kernel
  have pieces : HoldsPieces withoutRegBlob.env.memory Blob.address
      (piecesBeforeReg ++ piecesAfterReg) [] := ⟨by decide +kernel, by decide +kernel⟩
  have map : ReservedEntries memoryBlob.env.memory Blob.address 0 :=
    reservedEntries_of_empty (by unfold EntryFits; decide +kernel) (by decide +kernel)
      (by decide +kernel)
  have contents := pieces.contents accepted noWrap
    (reservedEntries_of_empty (by unfold EntryFits; decide +kernel) (by decide +kernel) noWrap)
  have strings : stringsBlock withoutRegBlob.env.memory Blob.address =
      stringsBlock memoryBlob.env.memory Blob.address := by decide +kernel
  rw [reservedEntries_zero, strings] at contents
  exact ⟨0, _, map, by rw [reservedEntries_zero]; exact contents, rfl⟩

/-- So it is for `memoryBlob`. -/
theorem nops_transparent_memoryBlob :
    ((parseDeviceTreeBlob (Blob.ofPieces nopsPieces).env 1 Blob.address .zero).outcome = .ok () ∧
      SameHardware (parseDeviceTreeBlob memoryBlob.env 1 Blob.address .zero).state
        (parseDeviceTreeBlob (Blob.ofPieces nopsPieces).env 1 Blob.address .zero).state) ∧
    (parseDeviceTreeBlob overwrittenBlob.env 1 Blob.address .zero).outcome =
      (parseDeviceTreeBlob withoutRegBlob.env 1 Blob.address .zero).outcome := by
  obtain ⟨-, all⟩ := nops_transparent memoryBlob.env 1 Blob.address .zero memoryBlob_ready
    (by decide +kernel) memoryBlob_returned memoryBlob_terminated
  obtain ⟨insert, overwrite⟩ := all memoryPieces [] memoryBlob_pieces
  have ready : (Blob.ofPieces nopsPieces).env.Ready := Blob.ready (by decide +kernel)
  have overwritten : overwrittenBlob.env.Ready := Blob.ready (by decide +kernel)
  have withoutReg : withoutRegBlob.env.Ready := Blob.ready (by decide +kernel)
  refine ⟨insert (Blob.ofPieces nopsPieces).env 16 nopsPieces ready (by decide +kernel)
    nopsPieces_inserted ?_, ?_⟩
  · refine ⟨?_, ?_, ?_, ?_, ?_, ?_, ?_, ?_, entries_of_empty ?_ ?_⟩ <;> decide +kernel
  · refine (overwrite overwrittenBlob.env piecesBeforeReg regOffset
      (word 0x40000000 ++ word 0x1000) [] piecesAfterReg 5 overwritten rfl rfl ?_
      withoutRegBlob.env Blob.address withoutReg (by decide +kernel) withoutRegBlob_holds).1
    refine ⟨?_, ?_, ?_, ?_, ?_, ?_, ?_, ?_, entries_of_empty ?_ ?_⟩ <;> decide +kernel

end Runs

end CharcoalOS
