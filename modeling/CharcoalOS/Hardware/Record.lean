import CharcoalOS.Hardware.Bounds

/-!
# The record that an accepted blob leaves

With a `kernel_panic` that halts, a completed iteration has one way to change the
record (`RecordStep.halting`): it saves a cell count and decodes the `reg` of a memory
node whose every pair is valid. `record_wellFormed` is the invariant that this keeps
over a whole run.
-/

namespace CharcoalOS

open Effect Effect.Program

/-- The regions below the count are valid. -/
structure RegionsValid (info : HardwareInfo) : Prop where
  count : info.physicalMemoryRegionCount.toNat ≤ 16
  valid : ∀ i (lt : i < 16), i < info.physicalMemoryRegionCount.toNat →
    (info.physicalMemoryRegions[i]).Valid

theorem regionsValid_zero : RegionsValid .zero :=
  ⟨by decide, fun i _ less => absurd less (Nat.not_lt_zero i)⟩

/-- The cell counts are not part of the regions. -/
theorem RegionsValid.withCells {mem : Memory} {kind : PropertyName} {p : Property} {s : Walk}
    {info : HardwareInfo} (valid : RegionsValid info) :
    RegionsValid (info.withCells mem kind p s) := by
  unfold HardwareInfo.withCells
  split
  · exact ⟨valid.count, valid.valid⟩
  · split
    · exact ⟨valid.count, valid.valid⟩
    · exact valid

theorem withRegions_count {info : HardwareInfo} {regions : List MemoryRegion}
    (fits : regions.length ≤ 16) :
    (info.withRegions regions).physicalMemoryRegionCount.toNat = regions.length := by
  show (UInt64.ofNat regions.length).toNat = regions.length
  rw [UInt64.toNat_ofNat', Nat.mod_eq_of_lt]
  omega

theorem withRegions_getElem {info : HardwareInfo} {regions : List MemoryRegion} {i : Nat}
    (less : i < regions.length) (lt : i < 16) :
    (info.withRegions regions).physicalMemoryRegions[i] = regions[i] := by
  show (fillRegions info.physicalMemoryRegions 0 regions)[i] = regions[i]
  rw [fillRegions_getElem lt, dif_pos ⟨Nat.zero_le i, by simpa using less⟩]
  rfl

/-- Whatever the record held before, decoded regions are valid. -/
theorem AcceptedReg.regionsValid {mem : Memory} {addressCells sizeCells : UInt32}
    {reg regSize : UInt64} (accepted : AcceptedReg mem addressCells sizeCells reg regSize)
    (info : HardwareInfo) :
    RegionsValid (info.withRegions (regPairs mem addressCells sizeCells reg regSize)) := by
  have fits := accepted.length_le
  refine ⟨by rw [withRegions_count fits]; exact fits, fun i lt less => ?_⟩
  rw [withRegions_count fits] at less
  rw [withRegions_getElem less lt]
  exact accepted.valid _ (List.getElem_mem less)

/-! ## Steps of a run whose panics halt -/

/-- The pairs in the `reg` of the node context. -/
def contextPairs (mem : Memory) (s : Walk) (info : HardwareInfo) : List MemoryRegion :=
  regPairs mem info.addressCells info.sizeCells s.currentNodeReg.address
    s.currentNodeRegSize.toUInt64

/-- The node context is decoded without a panic. -/
def ContextAccepted (mem : Memory) (s : Walk) (info : HardwareInfo) : Prop :=
  AcceptedReg mem info.addressCells info.sizeCells s.currentNodeReg.address
    s.currentNodeRegSize.toUInt64

/-- The record after the node context has been dealt with. -/
def HardwareInfo.withNode (mem : Memory) (s : Walk) (info : HardwareInfo) : HardwareInfo :=
  if s.Decodes mem then info.withRegions (contextPairs mem s info) else info

section Halting

variable {env : Env} {outHwInfo dtb : UInt64} {prior info info' : HardwareInfo}
  {ts : List Token} {s s' : Walk} {t : Token} {next : UInt64}

theorem NodeEnd.halting {evs : List Event} (halts : env.panicReturns = false)
    (ending : NodeEnd env s info (.ok ()) info' evs) :
    info' = info.withNode env.memory s ∧
      (s.Decodes env.memory → s.addressCellsInitialized ∧ s.sizeCellsInitialized ∧
        ContextAccepted env.memory s info) := by
  unfold HardwareInfo.withNode
  cases ending with
  | skipped skip => exact ⟨(if_neg skip).symm, fun decodes => absurd decodes skip⟩
  | regions decodes cells ending =>
      cases ending with
      | decoded accepted => exact ⟨(if_pos decodes).symm, fun _ => ⟨cells.1, cells.2, accepted⟩⟩
      | rejected _ _ _ _ halted => exact nomatch halted halts

/-- The record past the token `t`, if nothing panics. -/
def HardwareInfo.past (mem : Memory) (dtb : UInt64) (t : Token) (s s' : Walk)
    (info : HardwareInfo) : HardwareInfo :=
  match t with
  | .prop p => (info.withCells mem (propertyName mem dtb p) p s).withNode mem s'
  | _ => info

/-- A property that raises no panic. -/
structure PropertyAccepted (mem : Memory) (dtb : UInt64) (p : Property) (s s' : Walk)
    (info : HardwareInfo) : Prop where
  cells : CellsFit mem (propertyName mem dtb p) p s
  initialized : s'.Decodes mem → s'.addressCellsInitialized ∧ s'.sizeCellsInitialized
  reg : s'.Decodes mem →
    ContextAccepted mem s' (info.withCells mem (propertyName mem dtb p) p s)

/-- Where panics halt, a completed iteration changes the record in one way. -/
theorem RecordStep.halting (halts : env.panicReturns = false)
    (step : RecordStep env dtb s info s' t info') :
    info' = info.past env.memory dtb t s s' ∧
      ∀ p, t = .prop p → PropertyAccepted env.memory dtb p s s' info := by
  cases step with
  | other other =>
      refine ⟨?_, fun p eq => absurd eq (other p)⟩
      cases t with
      | prop p => exact absurd rfl (other p)
      | _ => rfl
  | prop fits ending =>
      obtain ⟨rfl, decoded⟩ := ending.halting halts
      refine ⟨rfl, fun p eq => ?_⟩
      cases eq
      exact ⟨fits, fun decodes => ⟨(decoded decodes).1, (decoded decodes).2.1⟩,
        fun decodes => (decoded decodes).2.2⟩

theorem RegionsValid.past (valid : RegionsValid info)
    (accepted : ∀ p, t = .prop p → PropertyAccepted env.memory dtb p s s' info) :
    RegionsValid (info.past env.memory dtb t s s') := by
  cases t with
  | prop p =>
      simp only [HardwareInfo.past, HardwareInfo.withNode]
      split
      · rename_i decodes
        exact ((accepted p rfl).reg decodes).regionsValid _
      · exact valid.withCells
  | _ => exact valid

/-! ## The invariant over a run -/

theorem walkRecord_regions (passed : (readPrologue env outHwInfo dtb prior).outcome = .ok ()) :
    (walkRecord env outHwInfo dtb prior).physicalMemoryRegions = prior.physicalMemoryRegions ∧
      (walkRecord env outHwInfo dtb prior).physicalMemoryRegionCount =
        prior.physicalMemoryRegionCount := by
  obtain ⟨-, n, -, -, -, bases, sizes, count, same⟩ := prologue_passed passed
  rw [same]
  exact ⟨rfl, rfl⟩

theorem WalkHead.regionsValid (halts : env.panicReturns = false) (start : RegionsValid prior)
    (head : WalkHead env outHwInfo dtb prior ts s info) : RegionsValid info := by
  refine head.induct (P := fun _ _ info => RegionsValid info) (fun passed => ?_) ?_
  · obtain ⟨regions, count⟩ := walkRecord_regions passed
    refine ⟨by rw [count]; exact start.count, fun i lt less => ?_⟩
    rw [count] at less
    simp only [regions]
    exact start.valid i lt less
  · intro ts s info t next s' info' _ valid _ _ _ record
    obtain ⟨rfl, accepted⟩ := record.halting halts
    exact valid.past accepted

/-- The walk leaves the reservation entries as the prologue read them. -/
theorem WalkHead.holdsEntries (head : WalkHead env outHwInfo dtb prior ts s info) :
    ∃ n, ReservedEntries env.memory dtb n ∧ HoldsEntries env.memory dtb n info := by
  obtain ⟨-, n, map, -, holds, -⟩ := prologue_passed head.passed
  obtain ⟨_, _, _, _, same⟩ := walkTrail_sameButMemory head.trail
  refine ⟨n, map, ?_⟩
  rw [same]
  exact ⟨holds.count, holds.entries⟩

/-- No entry before the one that ends the map is the pair (0, 0). -/
theorem ReservedEntries.entry_ne_zero {mem : Memory} {n : UInt64}
    (map : ReservedEntries mem dtb n) {i : Nat} (less : i < n.toNat) :
    entryAt mem dtb (UInt64.ofNat i) ≠ (0, 0) := by
  intro zero
  have bound := n.toNat_lt
  refine map.before (UInt64.ofNat i) ?_ (Or.inr zero)
  rw [UInt64.lt_iff_toNat_lt, UInt64.toNat_ofNat', Nat.mod_eq_of_lt]
  · exact less
  · omega

/-! ## Stores -/

/-- A store of the walk or the prologue is to an index its array has. -/
theorem store_inBounds {field : Field}
    (stored : .store field ∈ (parseDeviceTreeBlob env outHwInfo dtb prior).events) :
    field.InBounds := by
  rcases mem_events_parse stored with event | ⟨ts, s, info, head, member⟩
  · cases event with
    | storeBase less => exact less
    | storeSize less => exact less
    | _ => exact trivial
  · cases (walkStep_post env dtb s info).2 _ member with
    | cursor event => cases event
    | handle _ event =>
        rcases event with save | ⟨-, node⟩
        · cases save with
          | nodeName read => cases nodeName : s.nodeName <;> simp [nodeName, charRead] at read
          | _ => exact trivial
        · cases node with
          | deviceType _ _ read =>
              generalize Walk.currentNodeDeviceType _ = text at read
              cases text <;> simp [charRead] at read
          | reg _ _ event =>
              cases event with
              | storeRegion less => exact less
              | storeCount => exact trivial

/-- **Every normal return leaves a well-formed record**, from a record of zeros and where panics
halt: no store is outside it, the counts are in range, no region is empty or wraps, and no
reserved region below the count is zero. -/
theorem record_wellFormed (env : Env) (outHwInfo dtb : UInt64)
    (halts : env.panicReturns = false)
    (returned : (parseDeviceTreeBlob env outHwInfo dtb .zero).outcome = .ok ()) :
    (∀ field, .store field ∈ (parseDeviceTreeBlob env outHwInfo dtb .zero).events →
      field.InBounds) ∧
    (parseDeviceTreeBlob env outHwInfo dtb .zero).state.physicalMemoryRegionCount ≤ 16 ∧
    (∀ i (lt : i < 16),
      i < (parseDeviceTreeBlob env outHwInfo dtb .zero).state.physicalMemoryRegionCount.toNat →
      ((parseDeviceTreeBlob env outHwInfo dtb .zero).state.physicalMemoryRegions[i]).size > 0 ∧
      ((parseDeviceTreeBlob env outHwInfo dtb .zero).state.physicalMemoryRegions[i]).baseAddress.toNat +
          ((parseDeviceTreeBlob env outHwInfo dtb .zero).state.physicalMemoryRegions[i]).size.toNat ≤
        2 ^ 64 - 1) ∧
    (parseDeviceTreeBlob env outHwInfo dtb .zero).state.reservedRegionsCount ≤ 255 ∧
    ∀ i (lt : i < 255),
      i < (parseDeviceTreeBlob env outHwInfo dtb .zero).state.reservedRegionsCount.toNat →
      ((parseDeviceTreeBlob env outHwInfo dtb .zero).state.reservedRegionBaseAddresses[i],
        (parseDeviceTreeBlob env outHwInfo dtb .zero).state.reservedRegionSizes[i]) ≠ (0, 0) := by
  obtain ⟨ts, s, head, -⟩ := exists_last_head halts returned
  refine ⟨fun field => store_inBounds, ?_⟩
  generalize (parseDeviceTreeBlob env outHwInfo dtb .zero).state = info at head ⊢
  have regions := head.regionsValid halts regionsValid_zero
  obtain ⟨n, map, holds⟩ := head.holdsEntries
  refine ⟨UInt64.le_iff_toNat_le.mpr regions.count, fun i lt less => ?_, ?_, fun i lt less => ?_⟩
  · obtain ⟨nonempty, inside⟩ := regions.valid i lt less
    exact ⟨UInt64.pos_iff_ne_zero.mpr nonempty, inside⟩
  · rw [holds.count]
    exact UInt64.le_of_lt map.few
  · rw [holds.count] at less
    rw [holds.entries i lt less]
    exact map.entry_ne_zero less

/-- So does the return from a blob that has one memory node. -/
theorem record_wellFormed_memoryBlob :
    (parseDeviceTreeBlob memoryBlob.env 1 Blob.address .zero).outcome = .ok () ∧
      (parseDeviceTreeBlob memoryBlob.env 1 Blob.address .zero).state.physicalMemoryRegionCount ≤
        16 :=
  ⟨memoryBlob_returned,
    (record_wellFormed memoryBlob.env 1 Blob.address rfl memoryBlob_returned).2.1⟩

end Halting

end CharcoalOS
