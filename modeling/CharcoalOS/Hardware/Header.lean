import CharcoalOS.Hardware.DeviceTree

/-!
# The header and the memory reservation map

Everything `parse_device_tree_blob` does before the walk. `readPrologue_spec` says
which blobs get that far and what the record then holds: the header and the
reservation entries are those of the blob, and the other fields are as they were.
-/

namespace CharcoalOS

open Effect Effect.Program

/-- The header of the blob at `dtb`. -/
def headerAt (mem : Memory) (dtb : UInt64) : DTBHeader where
  magic := be32 mem (dtb + 0)
  totalSize := be32 mem (dtb + 4)
  offDtStruct := be32 mem (dtb + 8)
  offDtStrings := be32 mem (dtb + 12)
  offMemRsvmap := be32 mem (dtb + 16)
  version := be32 mem (dtb + 20)
  lastCompVersion := be32 mem (dtb + 24)
  bootCpuidPhys := be32 mem (dtb + 28)
  sizeDtStrings := be32 mem (dtb + 32)
  sizeDtStruct := be32 mem (dtb + 36)

/-- The checks on the header, each block inside the blob. -/
structure HeaderAccepted (mem : Memory) (outHwInfo dtb : UInt64) : Prop where
  record : outHwInfo ≠ 0
  blob : dtb ≠ 0
  magic : (headerAt mem dtb).magic = 0xd00dfeed
  totalSize : 40 ≤ (headerAt mem dtb).totalSize.toNat
  rsvmap : (headerAt mem dtb).offMemRsvmap.toNat < (headerAt mem dtb).totalSize.toNat
  structBlock : (headerAt mem dtb).offDtStruct.toNat + (headerAt mem dtb).sizeDtStruct.toNat ≤
    (headerAt mem dtb).totalSize.toNat
  stringsBlock :
    (headerAt mem dtb).offDtStrings.toNat + (headerAt mem dtb).sizeDtStrings.toNat ≤
      (headerAt mem dtb).totalSize.toNat

/-! ## Reservation entries -/

/-- The address of an entry of the reservation map. -/
def entryAddress (mem : Memory) (dtb : UInt64) (i : UInt64) : UInt64 :=
  dtb + (headerAt mem dtb).offMemRsvmap.toUInt64 + 16 * i

/-- The base address and size of an entry of the reservation map. -/
def entryAt (mem : Memory) (dtb : UInt64) (i : UInt64) : UInt64 × UInt64 :=
  (be64 mem (entryAddress mem dtb i), be64 mem (entryAddress mem dtb i + 8))

/-- The entry lies before the end of the blob. -/
def EntryFits (mem : Memory) (dtb i : UInt64) : Prop :=
  (headerAt mem dtb).offMemRsvmap.toNat + 16 * i.toNat + 16 ≤ (headerAt mem dtb).totalSize.toNat

/-- The scan ends at this entry: it is past the end, or it is the terminator. -/
def EntryEnds (mem : Memory) (dtb i : UInt64) : Prop :=
  entryAddress mem dtb i + 8 ≥ dtb + (headerAt mem dtb).totalSize.toUInt64 ∨
    entryAt mem dtb i = (0, 0)

/-- The map has `n` entries before the one that ends it. -/
structure ReservedEntries (mem : Memory) (dtb : UInt64) (n : UInt64) : Prop where
  few : n < 255
  fits : EntryFits mem dtb n
  ends : EntryEnds mem dtb n
  before : ∀ j < n, ¬ EntryEnds mem dtb j

/-- The record holds the first `n` entries of the map. -/
structure HoldsEntries (mem : Memory) (dtb n : UInt64) (info : HardwareInfo) : Prop where
  count : info.reservedRegionsCount = n
  entries : ∀ j (lt : j < 255), j < n.toNat →
    (info.reservedRegionBaseAddresses[j], info.reservedRegionSizes[j]) =
      entryAt mem dtb (UInt64.ofNat j)

theorem ReservedEntries.unique {mem : Memory} {dtb m n : UInt64}
    (left : ReservedEntries mem dtb m) (right : ReservedEntries mem dtb n) : m = n := by
  rcases Nat.lt_trichotomy m.toNat n.toNat with less | eq | more
  · exact absurd left.ends (right.before m (UInt64.lt_iff_toNat_lt.mpr less))
  · exact UInt64.toNat_inj.mp eq
  · exact absurd right.ends (left.before n (UInt64.lt_iff_toNat_lt.mpr more))

/-! ## What the prologue emits -/

/-- The prologue reads the header and the reservation map, and stores to their
fields of the record. -/
inductive PrologueEvent : Event → Prop
  | readHeader {a : UInt64} : PrologueEvent (.read ⟨.header, a⟩)
  | readMap {a : UInt64} : PrologueEvent (.read ⟨.reservationMap, a⟩)
  | storeHeader : PrologueEvent (.store .header)
  | storeBase {i : Nat} : i < 255 → PrologueEvent (.store (.reservedRegionBaseAddresses i))
  | storeSize {i : Nat} : i < 255 → PrologueEvent (.store (.reservedRegionSizes i))
  | storeCount : PrologueEvent (.store .reservedRegionsCount)
  | print {text : String} : PrologueEvent (.print text)
  | printHexValue {value : UInt64} {size : Nat} : PrologueEvent (.printHexValue value size)
  | panic {message : String} : PrologueEvent (.panic message)

/-- Before the reservation map it reads and stores the header only. -/
inductive HeaderEvent : Event → Prop
  | read {a : UInt64} : HeaderEvent (.read ⟨.header, a⟩)
  | store : HeaderEvent (.store .header)
  | print {text : String} : HeaderEvent (.print text)
  | printHexValue {value : UInt64} {size : Nat} : HeaderEvent (.printHexValue value size)
  | panic {message : String} : HeaderEvent (.panic message)

theorem HeaderEvent.prologue (e : Event) (event : HeaderEvent e) : PrologueEvent e := by
  cases event with
  | read => exact .readHeader
  | store => exact .storeHeader
  | print => exact .print
  | printHexValue => exact .printHexValue
  | panic => exact .panic

section Events

variable {env : Env}

theorem headerEvent_of_output {message : String} {e : Event}
    (output : IsPanicOutput message e) : HeaderEvent e := by
  rcases output with rfl | rfl | rfl
  · exact .panic
  · exact .print
  · exact .print

theorem emits_headerCheck {condition : Prop} [Decidable condition] {message : String} :
    Emits HeaderEvent (panicIf env condition message) :=
  emits_panicIf fun _ => headerEvent_of_output

theorem emits_check {condition : Prop} [Decidable condition] {message : String} :
    Emits PrologueEvent (panicIf env condition message) :=
  emits_headerCheck.mono HeaderEvent.prologue

theorem emits_readHeaderField {dtb offset : UInt64} {write : UInt32 → DTBHeader → DTBHeader} :
    Emits HeaderEvent (readHeaderField env dtb offset write) := by
  refine .bind (emits_readBe32FromAddress fun e member => ?_) fun _ => emits_store .store
  obtain ⟨i, -, rfl⟩ := mem_byteReads.mp member
  exact .read

theorem emits_readHeader {outHwInfo dtb : UInt64} :
    Emits HeaderEvent (readHeader env outHwInfo dtb) := by
  refine .bind emits_headerCheck fun _ => .bind emits_headerCheck fun _ =>
    .bind emits_readHeaderField fun _ => .bind .current fun _ => .bind emits_headerCheck fun _ =>
    .bind emits_readHeaderField fun _ => .bind .current fun _ => .bind emits_headerCheck fun _ => ?_
  exact .bind emits_readHeaderField fun _ => .bind emits_readHeaderField fun _ =>
    .bind emits_readHeaderField fun _ => .bind emits_readHeaderField fun _ =>
    .bind emits_readHeaderField fun _ => .bind emits_readHeaderField fun _ =>
    .bind emits_readHeaderField fun _ => emits_readHeaderField

theorem emits_printHeaderField {label : String} {value : UInt32} :
    Emits HeaderEvent (printHeaderField label value) :=
  .bind (.emit .print) fun _ => .bind (.emit .printHexValue) fun _ => .emit .print

theorem emits_printHeader : Emits HeaderEvent printHeader :=
  .bind .current fun _ => .bind emits_printHeaderField fun _ =>
    .bind emits_printHeaderField fun _ => .bind emits_printHeaderField fun _ =>
    .bind emits_printHeaderField fun _ => .bind emits_printHeaderField fun _ =>
    .bind emits_printHeaderField fun _ => .bind emits_printHeaderField fun _ =>
    .bind emits_printHeaderField fun _ => .bind emits_printHeaderField fun _ =>
    emits_printHeaderField

theorem emits_readCheckedHeader {outHwInfo dtb : UInt64} :
    Emits HeaderEvent (readCheckedHeader env outHwInfo dtb) :=
  .bind emits_readHeader fun _ => .bind emits_printHeader fun _ => .bind .current fun _ =>
    .bind emits_headerCheck fun _ => .bind emits_headerCheck fun _ => emits_headerCheck

theorem emits_readMap {a : UInt64} :
    Emits PrologueEvent (readBe64FromAddress env ⟨.reservationMap, a⟩) := by
  refine emits_readBe64FromAddress fun e member => ?_
  obtain ⟨i, -, rfl⟩ := mem_byteReads.mp member
  exact .readMap

theorem emits_reservedStep {dtb i : UInt64} : Emits PrologueEvent (reservedStep env dtb i) := by
  refine emits_iff.mpr fun info => ?_
  rw [reservedStep, wp_bind]
  refine wp_panicIf (fun _ e evs panics event member => HeaderEvent.prologue _
    (headerEvent_of_output (panics.output event member))) (fun small => ?_)
  have index : i.toNat < 255 := UInt64.lt_iff_toNat_lt.mp (UInt64.not_le.mp small)
  rw [seqPost_ok]
  refine (Emits.bind .current fun _ => .bind emits_check fun _ => .ite (fun _ => .pure _)
    fun _ => .bind emits_readMap fun _ => .bind (emits_store (.storeBase index)) fun _ =>
    .bind emits_readMap fun _ => .bind (emits_store (.storeSize index)) fun _ =>
    .ite (fun _ => .pure _) fun _ => .bind (emits_store .storeCount) fun _ => ?_) info
  exact .bind (.emit .print) fun _ => .bind (.emit .printHexValue) fun _ =>
    .bind (.emit .print) fun _ => .bind (.emit .printHexValue) fun _ =>
    .bind (.emit .print) fun _ => .pure _

theorem emits_readReservedRegions {dtb : UInt64} :
    Emits PrologueEvent (readReservedRegions env dtb) :=
  .bind (emits_store .storeCount) fun _ => .bind (.loop (fun _ => emits_reservedStep) _ _)
    fun _ => .bind .current fun _ => .bind (.emit .print) fun _ =>
    .bind (.emit .printHexValue) fun _ => .emit .print

theorem emits_readPrologue (env : Env) (outHwInfo dtb : UInt64) :
    Emits PrologueEvent (readPrologue env outHwInfo dtb) :=
  .bind (emits_readCheckedHeader.mono HeaderEvent.prologue) fun _ => emits_readReservedRegions

end Events

/-! ## Which blobs pass -/

section Values

variable {env : Env} {info prior : HardwareInfo} {outHwInfo dtb : UInt64}

@[simp] theorem wp_readHeaderField {offset : UInt64} {write : UInt32 → DTBHeader → DTBHeader}
    {Q : Post HardwareInfo Stop Event Unit} :
    wp (readHeaderField env dtb offset write) Q info ↔
      Q (.ok ()) (info.setHeader (write (be32 env.memory (dtb + offset)) info.header))
        (byteReads ⟨.header, dtb + offset⟩ 4 ++ [.store .header]) := by
  simp only [readHeaderField, wp_bind, wp_readBe32FromAddress, seqPost_ok, wp_store]

theorem readHeader_spec :
    wp (readHeader env outHwInfo dtb)
      (fun o info' _ => match o with
        | .ok _ => (outHwInfo ≠ 0 ∧ dtb ≠ 0 ∧ (headerAt env.memory dtb).magic = 0xd00dfeed ∧
            40 ≤ (headerAt env.memory dtb).totalSize.toNat) ∧
            info' = prior.setHeader (headerAt env.memory dtb)
        | .error e => PanicStop env e ∧ ¬ HeaderAccepted env.memory outHwInfo dtb) prior := by
  rw [readHeader, wp_bind]
  refine wp_panicIf (fun null e evs panics => ?_) (fun record => ?_)
  · exact ⟨panics.panicStop, fun accepted => accepted.record null⟩
  rw [seqPost_ok, wp_bind]
  refine wp_panicIf (fun null e evs panics => ?_) (fun blob => ?_)
  · exact ⟨panics.panicStop, fun accepted => accepted.blob null⟩
  rw [seqPost_ok, wp_bind, wp_readHeaderField, seqPost_ok, wp_bind, wp_current, seqPost_ok,
    wp_bind]
  refine wp_panicIf (fun unknown e evs panics => ?_) (fun magic => ?_)
  · exact ⟨panics.panicStop, fun accepted => unknown accepted.magic⟩
  rw [seqPost_ok, wp_bind, wp_readHeaderField, seqPost_ok, wp_bind, wp_current, seqPost_ok,
    wp_bind]
  refine wp_panicIf (fun small e evs panics => ?_) (fun large => ?_)
  · exact ⟨panics.panicStop, fun accepted =>
      absurd (UInt32.lt_iff_toNat_lt.mp small) (Nat.not_lt.mpr accepted.totalSize)⟩
  simp only [seqPost_ok, wp_bind, wp_readHeaderField]
  exact ⟨⟨record, blob, not_ne_iff.mp magic,
    Nat.not_lt.mp fun small => large (UInt32.lt_iff_toNat_lt.mpr small)⟩, rfl⟩

theorem printHeader_spec : wp printHeader (fun o info' _ => o = .ok () ∧ info' = info) info := by
  simp only [printHeader, printHeaderField, wp_bind, wp_current, seqPost_ok, wp_consolePrint,
    wp_consolePrintHexValue, and_self]

theorem toUInt64_add_toNat (a b : UInt32) :
    (a.toUInt64 + b.toUInt64).toNat = a.toNat + b.toNat := by
  have := a.toNat_lt
  have := b.toNat_lt
  rw [UInt64.toNat_add, UInt32.toNat_toUInt64, UInt32.toNat_toUInt64, Nat.mod_eq_of_lt]
  omega

/-- The block checks compare as they would without overflow. -/
theorem block_gt_iff (offset size total : UInt32) :
    offset.toUInt64 + size.toUInt64 > total.toUInt64 ↔
      total.toNat < offset.toNat + size.toNat := by
  rw [gt_iff_lt, UInt64.lt_iff_toNat_lt, toUInt64_add_toNat, UInt32.toNat_toUInt64]

theorem checkHeader_spec (outHwInfo : UInt64) (known : info.header = headerAt env.memory dtb) :
    wp (checkHeader env)
      (fun o info' _ => match o with
        | .ok _ =>
            ((headerAt env.memory dtb).offMemRsvmap.toNat <
                (headerAt env.memory dtb).totalSize.toNat ∧
              (headerAt env.memory dtb).offDtStruct.toNat +
                  (headerAt env.memory dtb).sizeDtStruct.toNat ≤
                (headerAt env.memory dtb).totalSize.toNat ∧
              (headerAt env.memory dtb).offDtStrings.toNat +
                  (headerAt env.memory dtb).sizeDtStrings.toNat ≤
                (headerAt env.memory dtb).totalSize.toNat) ∧
            info' = info
        | .error e => PanicStop env e ∧ ¬ HeaderAccepted env.memory outHwInfo dtb) info := by
  rw [checkHeader, wp_bind, wp_current, seqPost_ok, known, wp_bind]
  refine wp_panicIf (fun outside e evs panics => ?_) (fun rsvmap => ?_)
  · exact ⟨panics.panicStop, fun accepted =>
      absurd (UInt32.le_iff_toNat_le.mp outside) (Nat.not_le.mpr accepted.rsvmap)⟩
  rw [seqPost_ok, wp_bind]
  refine wp_panicIf (fun outside e evs panics => ?_) (fun structBlock => ?_)
  · exact ⟨panics.panicStop, fun accepted =>
      absurd ((block_gt_iff _ _ _).mp outside) (Nat.not_lt.mpr accepted.structBlock)⟩
  rw [seqPost_ok]
  refine wp_panicIf (fun outside e evs panics => ?_) (fun stringsBlock => ?_)
  · exact ⟨panics.panicStop, fun accepted =>
      absurd ((block_gt_iff _ _ _).mp outside) (Nat.not_lt.mpr accepted.stringsBlock)⟩
  rw [block_gt_iff, Nat.not_lt] at structBlock stringsBlock
  exact ⟨⟨UInt32.lt_iff_toNat_lt.mp (UInt32.not_le.mp rsvmap), structBlock, stringsBlock⟩, rfl⟩

/-- How the part before the reservation map ends. -/
def CheckedPost (env : Env) (outHwInfo dtb : UInt64) (prior : HardwareInfo) :
    Except Stop Unit → HardwareInfo → Prop
  | .ok _, info' => HeaderAccepted env.memory outHwInfo dtb ∧
      info' = prior.setHeader (headerAt env.memory dtb)
  | .error e, _ => PanicStop env e ∧ ¬ HeaderAccepted env.memory outHwInfo dtb

theorem readCheckedHeader_spec (env : Env) (outHwInfo dtb : UInt64) (prior : HardwareInfo) :
    wp (readCheckedHeader env outHwInfo dtb)
      (fun o info' _ => CheckedPost env outHwInfo dtb prior o info') prior := by
  rw [readCheckedHeader, wp_bind]
  apply wp_mono readHeader_spec
  intro o info₁ evs₁ post
  rcases o with e | _
  · exact post
  obtain ⟨⟨record, blob, magic, totalSize⟩, rfl⟩ := post
  rw [seqPost_ok, wp_bind]
  apply wp_mono printHeader_spec
  intro o info₂ evs₂ post
  obtain ⟨rfl, rfl⟩ := post
  rw [seqPost_ok]
  apply wp_mono (checkHeader_spec outHwInfo rfl)
  intro o info₃ evs₃ post
  rcases o with e | _
  · exact post
  obtain ⟨⟨rsvmap, structBlock, stringsBlock⟩, rfl⟩ := post
  exact ⟨⟨record, blob, magic, totalSize, rsvmap, structBlock, stringsBlock⟩, rfl⟩

/-! ## The scan of the reservation map -/

/-- The record after one entry has been stored. -/
def HardwareInfo.withEntry (info : HardwareInfo) (i : Nat) (entry : UInt64 × UInt64) :
    HardwareInfo :=
  (info.setReservedBases
    (info.reservedRegionBaseAddresses.setIfInBounds i entry.1)).setReservedSizes
    (info.reservedRegionSizes.setIfInBounds i entry.2)

/-- What changes in the record while the reservation map is read. -/
def SameButReserved (info info' : HardwareInfo) : Prop :=
  ∃ bases sizes count,
    info' = ((info.setReservedBases bases).setReservedSizes sizes).setReservedCount count

theorem SameButReserved.trans {info₁ info₂ info₃ : HardwareInfo}
    (left : SameButReserved info₁ info₂) (right : SameButReserved info₂ info₃) :
    SameButReserved info₁ info₃ := by
  obtain ⟨_, _, _, rfl⟩ := left
  obtain ⟨bases, sizes, count, rfl⟩ := right
  exact ⟨bases, sizes, count, rfl⟩

theorem SameButReserved.withEntry (info : HardwareInfo) (i : Nat) (entry : UInt64 × UInt64) :
    SameButReserved info (info.withEntry i entry) :=
  ⟨info.reservedRegionBaseAddresses.setIfInBounds i entry.1,
    info.reservedRegionSizes.setIfInBounds i entry.2, info.reservedRegionsCount, rfl⟩

theorem SameButReserved.header_eq {info info' : HardwareInfo}
    (same : SameButReserved info info') : info'.header = info.header := by
  obtain ⟨_, _, _, rfl⟩ := same
  rfl

/-- How one iteration of the scan ends. -/
inductive ReservedEnd (env : Env) (dtb i : UInt64) (info : HardwareInfo) :
    Except Stop (Control UInt64 Unit) → HardwareInfo → Prop
  | stopped {e : Stop} : ¬ (i < 255 ∧ EntryFits env.memory dtb i) → PanicStop env e →
    ReservedEnd env dtb i info (.error e) info
  | ended {info' : HardwareInfo} : i < 255 → EntryFits env.memory dtb i →
    EntryEnds env.memory dtb i → (info' = info ∨ info' = info.withEntry i.toNat (0, 0)) →
    ReservedEnd env dtb i info (.ok (.done ())) info'
  | entry : i < 255 → EntryFits env.memory dtb i → ¬ EntryEnds env.memory dtb i →
    ReservedEnd env dtb i info (.ok (.next (i + 1)))
      ((info.withEntry i.toNat (entryAt env.memory dtb i)).setReservedCount
        (info.reservedRegionsCount + 1))

theorem entryFits_iff {mem : Memory} {i : UInt64} (small : i < 255) :
    (headerAt mem dtb).offMemRsvmap.toUInt64 + (16 * i + 16) >
        (headerAt mem dtb).totalSize.toUInt64 ↔ ¬ EntryFits mem dtb i := by
  have := UInt64.lt_iff_toNat_lt.mp small
  have := (headerAt mem dtb).offMemRsvmap.toNat_lt
  rw [gt_iff_lt, UInt64.lt_iff_toNat_lt, UInt64.toNat_add, UInt64.toNat_add, UInt64.toNat_mul,
    UInt32.toNat_toUInt64, UInt32.toNat_toUInt64, EntryFits]
  simp only [UInt64.reduceToNat] at *
  omega

theorem reservedStep_spec {i : UInt64} (known : info.header = headerAt env.memory dtb) :
    wp (reservedStep env dtb i) (fun o info' _ => ReservedEnd env dtb i info o info') info := by
  rw [reservedStep, wp_bind]
  refine wp_panicIf (fun many e evs panics => ?_) (fun few => ?_)
  · exact .stopped (fun fits => absurd fits.1 (UInt64.not_lt.mpr many)) panics.panicStop
  have small : i < 255 := UInt64.not_le.mp few
  rw [seqPost_ok, wp_bind, wp_current, seqPost_ok, known, wp_bind]
  refine wp_panicIf (fun outside e evs panics => ?_) (fun inside => ?_)
  · exact .stopped (fun fits => (entryFits_iff small).mp outside fits.2) panics.panicStop
  have fits : EntryFits env.memory dtb i := by
    by_contra outside
    exact inside ((entryFits_iff small).mpr outside)
  rw [seqPost_ok]
  dsimp only
  rw [wp_ite]
  split
  · rename_i past
    exact .ended small fits (Or.inl past) (Or.inl rfl)
  rename_i before
  simp only [wp_bind, wp_readBe64FromAddress, seqPost_ok, wp_store, wp_ite, wp_pure,
    wp_consolePrint, wp_consolePrintHexValue]
  split
  · rename_i zero
    refine .ended small fits (Or.inr (Prod.ext zero.1 zero.2)) (Or.inr ?_)
    rw [zero.1, zero.2]
    rfl
  · rename_i nonzero
    refine .entry small fits (fun ends => ends.elim before fun zero => nonzero ?_)
    exact Prod.ext_iff.mp zero

/-- The entries stored so far stay when a later one is stored. -/
theorem HoldsEntries.withEntry {mem : Memory} {n : UInt64} (holds : HoldsEntries mem dtb n info)
    {i : Nat} (later : n.toNat ≤ i) (entry : UInt64 × UInt64) :
    HoldsEntries mem dtb n (info.withEntry i entry) := by
  refine ⟨holds.count, fun j lt less => ?_⟩
  rw [← holds.entries j lt less]
  simp only [HardwareInfo.withEntry, HardwareInfo.setReservedBases, HardwareInfo.setReservedSizes,
    Vector.getElem_setIfInBounds lt]
  rw [if_neg (by omega), if_neg (by omega)]

theorem HoldsEntries.succ {mem : Memory} {n : UInt64} (holds : HoldsEntries mem dtb n info)
    (few : n < 255) :
    HoldsEntries mem dtb (n + 1)
      ((info.withEntry n.toNat (entryAt mem dtb n)).setReservedCount
        (info.reservedRegionsCount + 1)) := by
  have bound := UInt64.lt_iff_toNat_lt.mp few
  simp only [UInt64.reduceToNat] at bound
  have succ : (n + 1).toNat = n.toNat + 1 := by
    rw [UInt64.toNat_add]
    simp only [UInt64.reduceToNat]
    omega
  refine ⟨congrArg (· + 1) holds.count, fun j lt less => ?_⟩
  rw [succ] at less
  rcases Nat.lt_succ_iff_lt_or_eq.mp less with earlier | rfl
  · exact (holds.withEntry (Nat.le_refl _) (entryAt mem dtb n)).entries j lt earlier
  · simp only [HardwareInfo.withEntry, HardwareInfo.setReservedBases,
      HardwareInfo.setReservedSizes, HardwareInfo.setReservedCount,
      Vector.getElem_setIfInBounds lt, if_true, UInt64.ofNat_toNat]

/-- What holds at the heads of the scan. -/
structure ReservedHead (mem : Memory) (dtb : UInt64) (start : HardwareInfo) (n : Nat)
    (i : UInt64) (info : HardwareInfo) : Prop where
  index : i.toNat = n
  few : n ≤ 255
  before : ∀ j < i, ¬ EntryEnds mem dtb j
  holds : HoldsEntries mem dtb i info
  same : SameButReserved start info

/-- The scan stands at entry `n` after `n` iterations. -/
theorem reservedHead_of_trail {label : UInt64 → Unit} {ts : List Unit}
    {i : UInt64} (known : prior.header = headerAt env.memory dtb)
    (trail : Trail (reservedStep env dtb) label (0, prior.setReservedCount 0) ts (i, info)) :
    ReservedHead env.memory dtb prior ts.length i info := by
  generalize head : (i, info) = c at trail
  induction trail generalizing i info with
  | start =>
      obtain ⟨rfl, rfl⟩ := Prod.mk.inj head
      exact ⟨rfl, by decide, fun j less => absurd less (UInt64.not_lt.mpr (UInt64.zero_le)),
        ⟨rfl, fun j _ less => absurd less (Nat.not_lt_zero j)⟩, _, _, 0, rfl⟩
  | @step ts b c trail edge ih =>
      subst head
      obtain ⟨j, info₁⟩ := b
      have head := ih rfl
      have known' : info₁.header = headerAt env.memory dtb :=
        head.same.header_eq.trans known
      have step := reservedStep_spec (i := j) known'
      rw [wp_iff] at step
      obtain ⟨next, state⟩ := edge
      dsimp only at next state
      rw [next, state] at step
      cases step with
      | entry few fits notEnd =>
          have bound := UInt64.lt_iff_toNat_lt.mp few
          simp only [UInt64.reduceToNat] at bound
          have succ : (j + 1).toNat = j.toNat + 1 := by
            rw [UInt64.toNat_add]
            simp only [UInt64.reduceToNat]
            omega
          refine ⟨?_, ?_, fun k less => ?_, head.holds.succ few, head.same.trans ?_⟩
          · rw [List.length_append, List.length_singleton, succ, head.index]
          · rw [List.length_append, List.length_singleton, ← head.index]
            exact bound
          · rw [UInt64.lt_iff_toNat_lt, succ] at less
            rcases Nat.lt_succ_iff_lt_or_eq.mp less with earlier | same
            · exact head.before k (UInt64.lt_iff_toNat_lt.mpr earlier)
            · rw [UInt64.toNat_inj.mp same]
              exact notEnd
          · exact ⟨_, _, _, rfl⟩

/-- The run comes to the top of an iteration of the scan, at the entry `i`. -/
structure ScanHead (env : Env) (outHwInfo dtb : UInt64) (prior : HardwareInfo)
    (ts : List Unit) (i : UInt64) (info : HardwareInfo) : Prop where
  checked : (readCheckedHeader env outHwInfo dtb prior).outcome = .ok ()
  trail : Trail (reservedStep env dtb) (fun _ => ())
    (0, (readCheckedHeader env outHwInfo dtb prior).state.setReservedCount 0) ts (i, info)

/-- The scan makes at most 256 iterations. -/
theorem ScanHead.length_le {ts : List Unit} {i : UInt64}
    (head : ScanHead env outHwInfo dtb prior ts i info) : ts.length + 1 ≤ 256 := by
  have post := wp_iff.mp (readCheckedHeader_spec env outHwInfo dtb prior)
  rw [head.checked] at post
  have known : (readCheckedHeader env outHwInfo dtb prior).state.header =
      headerAt env.memory dtb := by rw [post.2]; rfl
  exact Nat.succ_le_succ (reservedHead_of_trail known head.trail).few

/-- The scan reads entry `n` only if no entry before it ended the map. -/
theorem ReservedHead.not_ended {mem : Memory} {start : HardwareInfo} {m : Nat} {i n : UInt64}
    (head : ReservedHead mem dtb start m i info) (map : ReservedEntries mem dtb n) : i ≤ n := by
  by_contra later
  exact head.before n (UInt64.not_le.mp later) map.ends

/-- How reading the reservation map ends. -/
inductive MapEnd (env : Env) (dtb : UInt64) (prior : HardwareInfo) :
    Except Stop Unit → HardwareInfo → Prop
  | scanned {n : UInt64} {info' : HardwareInfo} : ReservedEntries env.memory dtb n →
    n.toNat < env.fuel → HoldsEntries env.memory dtb n info' → SameButReserved prior info' →
    MapEnd env dtb prior (.ok ()) info'
  | rejected {e : Stop} {info' : HardwareInfo} : (∀ n, ¬ ReservedEntries env.memory dtb n) →
    PanicStop env e → MapEnd env dtb prior (.error e) info'
  | exhausted {info' : HardwareInfo} : env.fuel ≤ 255 →
    (∀ n, n.toNat < env.fuel → ¬ ReservedEntries env.memory dtb n) →
    MapEnd env dtb prior (.error .exhausted) info'

theorem reservedLoop_spec (prior : HardwareInfo) (known : prior.header = headerAt env.memory dtb) :
    wp (loop .exhausted (reservedStep env dtb) env.fuel 0)
      (fun o info' _ => MapEnd env dtb prior o info') (prior.setReservedCount 0) := by
  rw [wp_iff]
  obtain ⟨ts, ⟨i, info⟩, trail, ending⟩ := loop_cases Stop.exhausted
    (reservedStep env dtb) (fun _ => ()) env.fuel 0 (prior.setReservedCount 0)
  have head := reservedHead_of_trail known trail
  have step := reservedStep_spec (i := i) (head.same.header_eq.trans known)
  rw [wp_iff] at step
  revert ending
  generalize (loop .exhausted (reservedStep env dtb) env.fuel 0
    (prior.setReservedCount 0)).outcome = o
  generalize (loop .exhausted (reservedStep env dtb) env.fuel 0
    (prior.setReservedCount 0)).state = info'
  intro ending
  cases ending with
  | done less stop =>
      dsimp only at stop ⊢
      rw [stop] at step
      generalize (reservedStep env dtb i info).state = info' at step
      cases step with
      | ended few fits ends stored =>
          have enough : i.toNat < env.fuel := by rw [head.index]; exact less
          refine .scanned ⟨few, fits, ends, head.before⟩ enough ?_ ?_
          · rcases stored with rfl | rfl
            · exact head.holds
            · exact head.holds.withEntry (Nat.le_refl _) _
          · rcases stored with rfl | rfl
            · exact head.same
            · exact head.same.trans (.withEntry _ _ _)
  | failed less stop =>
      dsimp only at stop ⊢
      rw [stop] at step
      generalize (reservedStep env dtb i info).state = info' at step
      cases step with
      | stopped unfit panicStop =>
          refine .rejected (fun n map => unfit ?_) panicStop
          have le := UInt64.le_iff_toNat_le.mp (head.not_ended map)
          refine ⟨UInt64.lt_of_le_of_lt (head.not_ended map) map.few, ?_⟩
          have fits := map.fits
          unfold EntryFits at fits ⊢
          omega
  | exhausted eq =>
      refine .exhausted (by rw [← eq]; exact head.few) fun n less map => ?_
      have le := UInt64.le_iff_toNat_le.mp (head.not_ended map)
      rw [head.index, eq] at le
      omega

/-- How the prologue ends. -/
inductive PrologueEnd (env : Env) (outHwInfo dtb : UInt64) (prior : HardwareInfo) :
    Except Stop Unit → HardwareInfo → Prop
  | passed {n : UInt64} {info' : HardwareInfo} : HeaderAccepted env.memory outHwInfo dtb →
    ReservedEntries env.memory dtb n → n.toNat < env.fuel →
    HoldsEntries env.memory dtb n info' →
    SameButReserved (prior.setHeader (headerAt env.memory dtb)) info' →
    PrologueEnd env outHwInfo dtb prior (.ok ()) info'
  | rejected {e : Stop} {info' : HardwareInfo} :
    ¬ (HeaderAccepted env.memory outHwInfo dtb ∧ ∃ n, ReservedEntries env.memory dtb n) →
    PanicStop env e → PrologueEnd env outHwInfo dtb prior (.error e) info'
  | exhausted {info' : HardwareInfo} : env.fuel ≤ 255 →
    (∀ n, n.toNat < env.fuel → ¬ ReservedEntries env.memory dtb n) →
    PrologueEnd env outHwInfo dtb prior (.error .exhausted) info'

theorem readPrologue_spec (env : Env) (outHwInfo dtb : UInt64) (prior : HardwareInfo) :
    wp (readPrologue env outHwInfo dtb)
      (fun o info' _ => PrologueEnd env outHwInfo dtb prior o info') prior := by
  rw [readPrologue, wp_bind]
  apply wp_mono (readCheckedHeader_spec env outHwInfo dtb prior)
  intro o info₁ evs₁ post
  rcases o with e | _
  · exact .rejected (fun both => post.2 both.1) post.1
  obtain ⟨accepted, rfl⟩ := post
  rw [seqPost_ok, readReservedRegions, wp_bind, wp_store, seqPost_ok, wp_bind]
  apply wp_mono (reservedLoop_spec (prior.setHeader (headerAt env.memory dtb)) rfl)
  intro o info' evs₄ ending
  cases ending with
  | rejected none stop => exact .rejected (fun ⟨_, n, map⟩ => none n map) stop
  | exhausted out none => exact .exhausted out none
  | scanned map less holds same =>
      simp only [seqPost_ok, wp_bind, wp_current, wp_consolePrint, wp_consolePrintHexValue]
      exact .passed accepted map less holds same

end Values

end CharcoalOS
