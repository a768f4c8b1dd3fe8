import CharcoalOS.Hardware.Items
import CharcoalOS.Hardware.Prior

/-!
# A blob is its contents

`HoldsContents` says which items and reservation entries a blob holds, wherever it has
them. `returned_iff` and `reported` are the parser on contents: it accepts the items that
raise no panic, and reports what they leave discovered. So two blobs whose items leave the
same discovered are the same to the parser, `same_of_discovered`.
-/

namespace CharcoalOS

open Effect Effect.Program

section Items

variable {mem : Memory} {dtb : UInt64} {ts us : List Token} {t : Token} {d : Discovered}
  {items : List Item} {item : Item}

/-- The token `t` after `ts` raises no panic. -/
def TokenAllowed (mem : Memory) (dtb : UInt64) (ts : List Token) : Token → Prop
  | .endNode => UInt64.ofNat (opens ts) ≠ UInt64.ofNat (closes ts)
  | .prop p => PropertyAllowed mem dtb ts p
  | _ => True

/-- None of the tokens `us` after `ts` does. -/
def AllowedAfter (mem : Memory) (dtb : UInt64) (ts us : List Token) : Prop :=
  ∀ vs t ws, us = vs ++ t :: ws → TokenAllowed mem dtb (ts ++ vs) t

theorem allowedAfter_nil : AllowedAfter mem dtb ts [] := by
  intro vs t ws split
  cases vs <;> cases split

theorem allowedAfter_cons :
    AllowedAfter mem dtb ts (t :: us) ↔
      TokenAllowed mem dtb ts t ∧ AllowedAfter mem dtb (ts ++ [t]) us := by
  constructor
  · intro allowed
    refine ⟨?_, fun vs u ws split => ?_⟩
    · have here := allowed [] t us rfl
      rwa [List.append_nil] at here
    · rw [List.append_assoc]
      exact allowed (t :: vs) u ws (congrArg (t :: ·) split)
  · intro allowed vs u ws split
    cases vs with
    | nil =>
        obtain ⟨rfl, -⟩ := List.cons.inj split
        rw [List.append_nil]
        exact allowed.1
    | cons v vs =>
        obtain ⟨rfl, later⟩ := List.cons.inj split
        have there := allowed.2 vs u ws later
        rwa [List.append_assoc] at there

theorem acceptedTokens_iff_allowed (tokens : BlobTokens mem dtb us) :
    AcceptedTokens mem dtb us ↔
      AllowedAfter mem dtb [] us ∧ UInt64.ofNat (opens us) = UInt64.ofNat (closes us) := by
  constructor
  · intro accepted
    refine ⟨fun vs t ws split => ?_, accepted.level⟩
    rw [List.nil_append]
    cases t with
    | endNode => exact accepted.nested vs ws split
    | prop p => exact accepted.properties vs p ws split
    | _ => exact trivial
  · intro allowed
    refine ⟨tokens, fun vs ws split => ?_, allowed.2, fun vs p ws split => ?_⟩
    · exact allowed.1 vs .endNode ws split
    · exact allowed.1 vs (.prop p) ws split

/-- After the tokens `ts`, what is known is `d`. -/
structure ReadTo (mem : Memory) (dtb : UInt64) (ts : List Token) (d : Discovered) : Prop where
  context : (contextOf mem dtb ts).Reads mem d
  depth : UInt64.ofNat (closes ts) + d.depth = UInt64.ofNat (opens ts)

theorem readTo_nil : ReadTo mem dtb [] .initial := ⟨Context.reads_initial, rfl⟩

theorem Discovered.depth_decode : d.decode.depth = d.depth := by
  rw [Discovered.decode]
  split <;> rfl

/-- The depth counts the nodes that are open. -/
theorem depth_step (spells : t.Spells mem dtb item) :
    UInt64.ofNat (closes [t]) + (d.step item).depth = d.depth + UInt64.ofNat (opens [t]) := by
  cases spells with
  | beginNode => exact UInt64.zero_add _
  | endNode =>
      show 1 + (d.depth - 1) = d.depth + 0
      grind
  | prop =>
      show 0 + (Discovered.decode _).depth = d.depth + 0
      rw [Discovered.depth_decode, UInt64.zero_add, UInt64.add_zero]
      rfl
  | nop => exact (UInt64.zero_add _).trans (UInt64.add_zero _).symm
  | fdtEnd => exact (UInt64.zero_add _).trans (UInt64.add_zero _).symm

theorem ReadTo.allowed_iff (read : ReadTo mem dtb ts d) (silent : nullReadsMemory mem = false)
    (spells : t.Spells mem dtb item) : TokenAllowed mem dtb ts t ↔ d.Allows item := by
  cases spells with
  | endNode =>
      have depth := read.depth
      show UInt64.ofNat (opens ts) ≠ UInt64.ofNat (closes ts) ↔ d.depth ≠ 0
      rw [← depth, not_iff_not]
      constructor
      · intro same
        grind
      · intro zero
        rw [zero, UInt64.add_zero]
  | prop named => exact read.context.allowed_iff silent named
  | _ => exact Iff.rfl

/-- **One token of an accepted blob is read as its item.** -/
theorem ReadTo.step (read : ReadTo mem dtb ts d) (silent : nullReadsMemory mem = false)
    (spells : t.Spells mem dtb item) (allowed : d.Allows item) :
    ReadTo mem dtb (ts ++ [t]) (d.step item) := by
  refine ⟨by rw [contextOf_snoc]; exact read.context.step silent spells allowed, ?_⟩
  rw [opens_append, closes_append, UInt64.ofNat_add, UInt64.ofNat_add, UInt64.add_assoc,
    depth_step spells, ← read.depth, UInt64.add_assoc]

/-- All of them are. -/
theorem ReadTo.run (read : ReadTo mem dtb ts d) (silent : nullReadsMemory mem = false)
    (spelled : List.Forall₂ (Token.Spells mem dtb) us items) :
    (AllowedAfter mem dtb ts us ↔ d.Accepts items) ∧
      (d.Accepts items → ReadTo mem dtb (ts ++ us) (d.after items)) := by
  induction spelled generalizing ts d with
  | nil =>
      rw [List.append_nil]
      exact ⟨iff_of_true allowedAfter_nil trivial, fun _ => read⟩
  | @cons t item us items spells _ ih =>
      rw [allowedAfter_cons, read.allowed_iff silent spells, Discovered.accepts_cons]
      constructor
      · refine and_congr_right fun allowed => ?_
        exact (ih (read.step silent spells allowed)).1
      · intro accepts
        have later := (ih (read.step silent spells accepts.1)).2 accepts.2
        rwa [List.append_assoc] at later

/-- The parser accepts the items: none raises a panic, and no node stays open. -/
def AcceptsItems (items : List Item) : Prop :=
  Discovered.initial.Accepts items ∧ (Discovered.initial.after items).depth = 0

theorem acceptedTokens_iff (silent : nullReadsMemory mem = false) (tokens : BlobTokens mem dtb us)
    (spelled : List.Forall₂ (Token.Spells mem dtb) us items) :
    AcceptedTokens mem dtb us ↔ AcceptsItems items := by
  obtain ⟨allowed, read⟩ := readTo_nil.run silent spelled
  rw [acceptedTokens_iff_allowed tokens, allowed, AcceptsItems]
  refine and_congr_right fun accepts => ?_
  have depth := (read accepts).depth
  rw [List.nil_append] at depth
  rw [← depth]
  constructor
  · intro same
    grind
  · intro zero
    rw [zero, UInt64.add_zero]

end Items

/-! ## The report of some contents -/

/-- The entries before the one that ends the map. -/
def reservedEntries (mem : Memory) (dtb n : UInt64) : List (UInt64 × UInt64) :=
  (List.range n.toNat).map fun i => entryAt mem dtb (UInt64.ofNat i)

/-- The blob at `dtb` holds the items and the reservation entries. -/
structure HoldsContents (mem : Memory) (outHwInfo dtb : UInt64) (items : List Item)
    (entries : List (UInt64 × UInt64)) : Prop where
  header : HeaderAccepted mem outHwInfo dtb
  map : ∃ n, ReservedEntries mem dtb n ∧ reservedEntries mem dtb n = entries
  items : ∃ us, BlobTokens mem dtb us ∧ List.Forall₂ (Token.Spells mem dtb) us items

/-- The record reports what has been discovered, and is as `prior` where nothing has. -/
structure Reports (d : Discovered) (entries : List (UInt64 × UInt64)) (prior info : HardwareInfo) :
    Prop where
  addressCells : info.addressCells = d.addressCells.getD prior.addressCells
  sizeCells : info.sizeCells = d.sizeCells.getD prior.sizeCells
  regions : ∀ regions, d.regions = some regions → regions.length ≤ 16 ∧
    info.physicalMemoryRegionCount = UInt64.ofNat regions.length ∧
    info.physicalMemoryRegions.toList.take regions.length = regions
  noRegions : d.regions = none → info.physicalMemoryRegions = prior.physicalMemoryRegions ∧
    info.physicalMemoryRegionCount = prior.physicalMemoryRegionCount
  reservedCount : info.reservedRegionsCount = UInt64.ofNat entries.length
  few : entries.length < 255
  reserved : ∀ i (lt : i < 255) (less : i < entries.length),
    (info.reservedRegionBaseAddresses[i], info.reservedRegionSizes[i]) = entries[i]

/-- The two records report the same hardware; their headers may differ. -/
structure SameHardware (left right : HardwareInfo) : Prop where
  addressCells : left.addressCells = right.addressCells
  sizeCells : left.sizeCells = right.sizeCells
  regionCount : left.physicalMemoryRegionCount = right.physicalMemoryRegionCount
  regions : ∀ i (lt : i < 16), i < left.physicalMemoryRegionCount.toNat →
    left.physicalMemoryRegions[i] = right.physicalMemoryRegions[i]
  reservedCount : left.reservedRegionsCount = right.reservedRegionsCount
  reserved : ∀ i (lt : i < 255), i < left.reservedRegionsCount.toNat →
    left.reservedRegionBaseAddresses[i] = right.reservedRegionBaseAddresses[i] ∧
      left.reservedRegionSizes[i] = right.reservedRegionSizes[i]

section Reports

variable {d : Discovered} {entries : List (UInt64 × UInt64)} {prior left right : HardwareInfo}

theorem Reports.same_regions (leftReports : Reports d entries prior left)
    (rightReports : Reports d entries prior right) :
    left.physicalMemoryRegionCount = right.physicalMemoryRegionCount ∧
      ∀ i (lt : i < 16), i < left.physicalMemoryRegionCount.toNat →
        left.physicalMemoryRegions[i] = right.physicalMemoryRegions[i] := by
  cases decoded : d.regions with
  | none =>
      obtain ⟨regions, count⟩ := leftReports.noRegions decoded
      obtain ⟨regions', count'⟩ := rightReports.noRegions decoded
      refine ⟨count.trans count'.symm, fun i lt _ => ?_⟩
      simp only [regions, regions']
  | some regions =>
      obtain ⟨few, count, held⟩ := leftReports.regions regions decoded
      obtain ⟨-, count', held'⟩ := rightReports.regions regions decoded
      refine ⟨count.trans count'.symm, fun i lt less => ?_⟩
      rw [count, UInt64.toNat_ofNat_of_lt' (Nat.lt_of_le_of_lt few (by decide))] at less
      have get := congrArg (fun l => l[i]?) (held.trans held'.symm)
      simpa [List.getElem?_take, less, lt] using get

/-- A report is one of the contents. -/
theorem Reports.same (leftReports : Reports d entries prior left)
    (rightReports : Reports d entries prior right) : SameHardware left right := by
  obtain ⟨count, regions⟩ := leftReports.same_regions rightReports
  refine ⟨leftReports.addressCells.trans rightReports.addressCells.symm,
    leftReports.sizeCells.trans rightReports.sizeCells.symm, count, regions,
    leftReports.reservedCount.trans rightReports.reservedCount.symm, fun i lt less => ?_⟩
  have few := leftReports.few
  rw [leftReports.reservedCount, UInt64.toNat_ofNat_of_lt' (Nat.lt_trans few (by decide))] at less
  exact Prod.mk.inj ((leftReports.reserved i lt less).trans (rightReports.reserved i lt less).symm)

end Reports

/-! ## Runs -/

/-- Panics halt, no loop is cut short, and no bytes at address 0 read "memory". -/
structure Env.Ready (env : Env) : Prop where
  halts : env.panicReturns = false
  enough : 2 ^ 64 ≤ env.fuel
  silent : nullReadsMemory env.memory = false

section Runs

variable {env : Env} {outHwInfo dtb n : UInt64} {prior info : HardwareInfo} {us : List Token}
  {items : List Item} {entries : List (UInt64 × UInt64)}

/-- Each token takes four bytes. -/
theorem Tokens.length_le {mem : Memory} {limit a : UInt64} {sizeDtStrings : UInt32}
    (tokens : Tokens mem limit sizeDtStrings a us) (room : limit.toNat + 4 < 2 ^ 64) :
    a.toNat + 4 * us.length ≤ limit.toNat := by
  induction tokens with
  | fdtEnd token =>
      have := token.room
      rw [List.length_singleton]
      omega
  | cons token _ _ ih =>
      have := token.progress room
      rw [List.length_cons]
      omega

theorem prologue_passes (enough : 2 ^ 64 ≤ env.fuel)
    (accepted : HeaderAccepted env.memory outHwInfo dtb) (map : ReservedEntries env.memory dtb n) :
    (readPrologue env outHwInfo dtb prior).outcome = .ok () := by
  have ending := wp_iff.mp (readPrologue_spec env outHwInfo dtb prior)
  generalize (readPrologue env outHwInfo dtb prior).outcome = o at ending ⊢
  cases ending with
  | passed => rfl
  | rejected rejected => exact absurd ⟨accepted, n, map⟩ rejected
  | exhausted few => omega

/-- **The parser accepts the contents, wherever they are written.** -/
theorem returned_iff (ready : env.Ready) (noWrap : NoWrap env.memory dtb)
    (holds : HoldsContents env.memory outHwInfo dtb items entries) :
    (parseDeviceTreeBlob env outHwInfo dtb prior).outcome = .ok () ↔ AcceptsItems items := by
  obtain ⟨us, tokens, spelled⟩ := holds.items
  obtain ⟨n, map, -⟩ := holds.map
  rw [← acceptedTokens_iff ready.silent tokens spelled]
  constructor
  · exact fun returned => acceptedTokens_of_returned ready.halts returned tokens
  · intro accepted
    have length := tokens.length_le (blobEnd_room holds.header noWrap)
    have short := (blobEnd env.memory dtb).toNat_lt
    have enough := ready.enough
    exact returned_of_acceptedTokens enough (prologue_passes enough holds.header map) (by omega)
      accepted

/-- What is rejected is stopped by a panic. -/
theorem outcome_of_ready (ready : env.Ready) (noWrap : NoWrap env.memory dtb) :
    (parseDeviceTreeBlob env outHwInfo dtb prior).outcome = .ok () ∨
      (parseDeviceTreeBlob env outHwInfo dtb prior).outcome = .error .halted := by
  have size := (headerAt env.memory dtb).sizeDtStruct.toNat_lt
  have enough := ready.enough
  exact outcome_of_enough outHwInfo prior noWrap (by unfold EnoughFuel; omega)

/-- **What the parser leaves in the record is what the items leave discovered.** -/
theorem reported (ready : env.Ready)
    (holds : HoldsContents env.memory outHwInfo dtb items entries)
    (returned : (parseDeviceTreeBlob env outHwInfo dtb prior).outcome = .ok ()) :
    Reports (Discovered.initial.after items) entries prior
      (parseDeviceTreeBlob env outHwInfo dtb prior).state := by
  obtain ⟨us, tokens, spelled⟩ := holds.items
  obtain ⟨n, map, rfl⟩ := holds.map
  have accepted := acceptedTokens_of_returned ready.halts returned tokens
  have accepts := ((acceptedTokens_iff ready.silent tokens spelled).mp accepted).1
  have read := ((readTo_nil.run ready.silent spelled).2 accepts).context
  rw [List.nil_append] at read
  rcases exists_head_at_end ready.halts returned tokens with ⟨s, head, -⟩
  have models := head.models
  have regions := head.holdsRegions ready.halts
  obtain ⟨-, _, _, _, _, bases, sizes, count, start⟩ := prologue_passed head.passed
  obtain ⟨n', map', held⟩ := head.holdsEntries
  obtain rfl := map.unique map'
  have length : (reservedEntries env.memory dtb n).length = n.toNat := by
    rw [reservedEntries, List.length_map, List.length_range]
  unfold Context.HoldsRegions at regions
  rw [read.regions] at regions
  refine ⟨?_, ?_, fun decoded eq => ?_, fun eq => ?_, ?_, ?_, fun i lt less => ?_⟩
  · rw [models.addressCells, read.addressCells, start]
    rfl
  · rw [models.sizeCells, read.sizeCells, start]
    rfl
  · rw [eq] at regions
    exact regions
  · rw [eq] at regions
    exact regions
  · rw [held.count, length, UInt64.ofNat_toNat]
  · rw [length]
    exact UInt64.lt_iff_toNat_lt.mp map.few
  · rw [length] at less
    rw [held.entries i lt less]
    simp only [reservedEntries, List.getElem_map, List.getElem_range]

/-- **Two blobs whose items leave the same discovered are the same to the parser.** -/
theorem same_of_discovered (prior : HardwareInfo) {env' : Env} {dtb' : UInt64} {items' : List Item}
    (ready : env.Ready) (ready' : env'.Ready) (noWrap : NoWrap env.memory dtb)
    (noWrap' : NoWrap env'.memory dtb')
    (holds : HoldsContents env.memory outHwInfo dtb items entries)
    (holds' : HoldsContents env'.memory outHwInfo dtb' items' entries)
    (accepts : Discovered.initial.Accepts items ↔ Discovered.initial.Accepts items')
    (same : Discovered.initial.Accepts items →
      Discovered.initial.after items = Discovered.initial.after items') :
    (parseDeviceTreeBlob env' outHwInfo dtb' prior).outcome =
        (parseDeviceTreeBlob env outHwInfo dtb prior).outcome ∧
      ((parseDeviceTreeBlob env outHwInfo dtb prior).outcome = .ok () →
        SameHardware (parseDeviceTreeBlob env outHwInfo dtb prior).state
          (parseDeviceTreeBlob env' outHwInfo dtb' prior).state) := by
  have acceptable : AcceptsItems items ↔ AcceptsItems items' := by
    rw [AcceptsItems, AcceptsItems, ← accepts]
    exact and_congr_right fun accepted => by rw [same accepted]
  have both : (parseDeviceTreeBlob env outHwInfo dtb prior).outcome = .ok () ↔
      (parseDeviceTreeBlob env' outHwInfo dtb' prior).outcome = .ok () := by
    rw [returned_iff ready noWrap holds, returned_iff ready' noWrap' holds', acceptable]
  constructor
  · by_cases returned : (parseDeviceTreeBlob env outHwInfo dtb prior).outcome = .ok ()
    · rw [returned, both.mp returned]
    · have halted := (outcome_of_ready ready noWrap).resolve_left returned
      have halted' := (outcome_of_ready ready' noWrap').resolve_left (mt both.mpr returned)
      rw [halted, halted']
  · intro returned
    have accepted := ((returned_iff ready noWrap holds).mp returned).1
    have report := reported ready holds returned
    rw [same accepted] at report
    exact report.same (reported ready' holds' (both.mp returned))

end Runs

end CharcoalOS
