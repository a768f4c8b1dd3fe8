import CharcoalOS.Hardware.Acceptance

/-!
# What is left of the record the parser was given

The prologue resets the count of reserved regions, and nothing resets the count of memory
regions or the cell counts. `report_of_blob_iff` says for which blobs the report is one of
the blob alone: those with a `reg` that is decoded.
-/

namespace CharcoalOS

open Effect Effect.Program Nesting

/-- The two records report the same hardware. -/
structure SameReport (left right : HardwareInfo) : Prop where
  header : left.header = right.header
  addressCells : left.addressCells = right.addressCells
  sizeCells : left.sizeCells = right.sizeCells
  regionCount : left.physicalMemoryRegionCount = right.physicalMemoryRegionCount
  regions : ∀ i (lt : i < 16), i < left.physicalMemoryRegionCount.toNat →
    left.physicalMemoryRegions[i] = right.physicalMemoryRegions[i]
  reservedCount : left.reservedRegionsCount = right.reservedRegionsCount
  reserved : ∀ i (lt : i < 255), i < left.reservedRegionsCount.toNat →
    left.reservedRegionBaseAddresses[i] = right.reservedRegionBaseAddresses[i] ∧
      left.reservedRegionSizes[i] = right.reservedRegionSizes[i]

/-- The outcome and the report depend on the blob alone. -/
def ReportOfBlob (env : Env) (outHwInfo dtb : UInt64) : Prop :=
  ∀ prior prior',
    (parseDeviceTreeBlob env outHwInfo dtb prior).outcome =
        (parseDeviceTreeBlob env outHwInfo dtb prior').outcome ∧
      SameReport (parseDeviceTreeBlob env outHwInfo dtb prior).state
        (parseDeviceTreeBlob env outHwInfo dtb prior').state

/-- At some property a `reg` and a memory `device_type` have been seen since a node last
opened. -/
def DecodesSomewhere (mem : Memory) (dtb : UInt64) (us : List Token) : Prop :=
  ∃ ts p vs, us = ts ++ .prop p :: vs ∧ SeenSinceOpen (isReg mem dtb) (ts ++ [.prop p]) ∧
    (SeenSinceOpen (isMemoryType mem dtb) (ts ++ [.prop p]) ∨ nullReadsMemory mem = true)

section Context

variable {mem : Memory} {dtb : UInt64} {ts us : List Token}

theorem regions_contextOf_isSome :
    (contextOf mem dtb ts).regions.isSome = true ↔ DecodesSomewhere mem dtb ts := by
  induction ts using List.reverseRecOn with
  | nil =>
      constructor
      · intro decoded
        cases decoded
      · intro decoded
        obtain ⟨us, p, vs, eq, -⟩ := decoded
        cases us <;> cases eq
  | append_singleton ts t ih =>
      have later : DecodesSomewhere mem dtb ts → DecodesSomewhere mem dtb (ts ++ [t]) := by
        intro decoded
        obtain ⟨us, p, vs, eq, seen⟩ := decoded
        exact ⟨us, p, vs ++ [t], by rw [eq, List.append_assoc]; rfl, seen⟩
      -- a decoding in `ts ++ [t]` is one in `ts`, or at `t`
      have split : DecodesSomewhere mem dtb (ts ++ [t]) → DecodesSomewhere mem dtb ts ∨
          ∃ p, t = .prop p ∧ (contextAt mem dtb ts p).decodes mem = true := by
        intro decoded
        obtain ⟨us, p, vs, eq, seen⟩ := decoded
        rcases List.eq_nil_or_concat vs with rfl | ⟨vs, v, rfl⟩
        · obtain ⟨rfl, last⟩ := List.append_inj' eq rfl
          cases last
          exact Or.inr ⟨p, rfl, decodes_contextAt.mpr seen⟩
        · rw [List.concat_eq_append, ← List.cons_append, ← List.append_assoc] at eq
          exact Or.inl ⟨us, p, vs, (List.append_inj' eq rfl).1, seen⟩
      cases t with
      | prop p =>
          rw [contextOf_prop, Context.decode]
          split
          · rename_i complete
            exact ⟨fun _ => ⟨ts, p, [], rfl, decodes_contextAt.mp complete⟩, fun _ => rfl⟩
          · rename_i incomplete
            refine ⟨fun some => later (ih.mp some), fun decodes => ih.mpr ?_⟩
            rcases split decodes with before | ⟨q, eq, complete⟩
            · exact before
            · cases eq
              exact absurd complete incomplete
      | _ =>
          rw [contextOf_snoc]
          refine ⟨fun some => later (ih.mp some), fun decodes => ih.mpr ?_⟩
          rcases split decodes with before | ⟨_, eq, -⟩
          · exact before
          · cases eq

theorem Context.CellsKnown.withProperty {c : Context} {kind : PropertyName} {p : Property}
    (known : c.CellsKnown) : (c.withProperty mem kind p).CellsKnown := by
  unfold Context.withProperty
  constructor
  · dsimp only
    split <;> [rfl; exact known.1]
  · dsimp only
    split <;> [rfl; exact known.2]

/-- Once regions have been decoded, both cell counts are known. -/
theorem AcceptedTokens.cellsKnown (accepted : AcceptedTokens mem dtb us) (isPrefix : ts <+: us)
    (decoded : (contextOf mem dtb ts).regions.isSome = true) :
    (contextOf mem dtb ts).CellsKnown := by
  induction ts using List.reverseRecOn with
  | nil => cases decoded
  | append_singleton ts t ih =>
      obtain ⟨vs, split⟩ := isPrefix
      rw [List.append_assoc, List.singleton_append] at split
      have ih := ih ⟨t :: vs, split⟩
      cases t with
      | prop p =>
          rw [contextOf_prop, Context.decode] at decoded ⊢
          split at decoded
          · rename_i complete
            rw [if_pos complete]
            exact ((accepted.properties ts p vs split.symm).decodable complete).known
          · rename_i incomplete
            rw [if_neg incomplete]
            exact (ih decoded).withProperty
      | beginNode name =>
          rw [contextOf_snoc] at decoded ⊢
          exact ih decoded
      | _ =>
          rw [contextOf_snoc] at decoded ⊢
          exact ih decoded

end Context

section Runs

variable {env : Env} {outHwInfo dtb : UInt64} {prior prior' info info' : HardwareInfo}
  {us : List Token} {s s' : Walk}

/-- Whether the prologue passes is no matter of the record. -/
theorem prologue_passed_of (passed : (readPrologue env outHwInfo dtb prior).outcome = .ok ()) :
    (readPrologue env outHwInfo dtb prior').outcome = .ok () := by
  obtain ⟨accepted, n, map, enough, -⟩ := prologue_passed passed
  have ending := wp_iff.mp (readPrologue_spec env outHwInfo dtb prior')
  generalize (readPrologue env outHwInfo dtb prior').outcome = o at ending ⊢
  cases ending with
  | passed => rfl
  | rejected rejected => exact absurd ⟨accepted, n, map⟩ rejected
  | exhausted _ none => exact absurd map (none n enough)

/-- With fuel for every address, a blob is accepted whatever the record, or with none. -/
theorem returned_of_returned (halts : env.panicReturns = false) (enough : 2 ^ 64 ≤ env.fuel)
    (returned : (parseDeviceTreeBlob env outHwInfo dtb prior).outcome = .ok ())
    (tokens : BlobTokens env.memory dtb us) :
    (parseDeviceTreeBlob env outHwInfo dtb prior').outcome = .ok () := by
  rcases exists_head_at_end halts returned tokens with ⟨s, head, -⟩
  have few := head.fuel
  exact returned_of_acceptedTokens enough (prologue_passed_of head.passed) few
    (acceptedTokens_of_returned halts returned tokens)

/-- Two runs over the same tokens report the same hardware, if those decode a `reg`. -/
theorem sameReport_of_heads (halts : env.panicReturns = false)
    (head : WalkHead env outHwInfo dtb prior us s info)
    (head' : WalkHead env outHwInfo dtb prior' us s' info')
    (accepted : AcceptedTokens env.memory dtb us)
    (decodes : DecodesSomewhere env.memory dtb us) : SameReport info info' := by
  have decoded := regions_contextOf_isSome.mpr decodes
  obtain ⟨regions, eq⟩ := Option.isSome_iff_exists.mp decoded
  have known := accepted.cellsKnown (List.prefix_refl us) decoded
  rcases Context.exists_cells known with ⟨address, size, addressEq, sizeEq⟩
  have models := head.models
  have models' := head'.models
  have holds := head.holdsRegions halts
  have holds' := head'.holdsRegions halts
  unfold Context.HoldsRegions at holds holds'
  rw [eq] at holds holds'
  obtain ⟨n, map, entries⟩ := head.holdsEntries
  obtain ⟨n', map', entries'⟩ := head'.holdsEntries
  have same := map.unique map'
  subst same
  refine ⟨head.header_eq.trans head'.header_eq.symm, ?_, ?_, ?_, fun i lt less => ?_, ?_,
    fun i lt less => ?_⟩
  · rw [models.addressCells, models'.addressCells, addressEq]
    rfl
  · rw [models.sizeCells, models'.sizeCells, sizeEq]
    rfl
  · rw [holds.2.1, holds'.2.1]
  · have few : regions.length < 2 ^ 64 := Nat.lt_of_le_of_lt holds.1 (by decide)
    rw [holds.2.1, UInt64.toNat_ofNat', Nat.mod_eq_of_lt few] at less
    have taken := holds.2.2.trans holds'.2.2.symm
    have get := congrArg (fun l => l[i]?) taken
    simpa [List.getElem?_take, less, lt] using get
  · rw [entries.count, entries'.count]
  · rw [entries.count] at less
    have pair := (entries.entries i lt less).trans (entries'.entries i lt less).symm
    exact Prod.mk.inj pair

/-- **The report is one of the blob alone, exactly if a `reg` is decoded**: what an accepted blob
leaves does not depend on what the record held before if and only if a `reg` and a memory
`device_type` come at some property with no node opened in between. -/
theorem report_of_blob_iff (env : Env) (outHwInfo dtb : UInt64) (prior : HardwareInfo)
    (us : List Token) (halts : env.panicReturns = false) (enough : 2 ^ 64 ≤ env.fuel)
    (returned : (parseDeviceTreeBlob env outHwInfo dtb prior).outcome = .ok ())
    (tokens : BlobTokens env.memory dtb us) :
    ReportOfBlob env outHwInfo dtb ↔ DecodesSomewhere env.memory dtb us := by
  have always : ∀ prior', (parseDeviceTreeBlob env outHwInfo dtb prior').outcome = .ok () :=
    fun prior' => returned_of_returned halts enough returned tokens
  have lastHead : ∀ prior', ∃ s, WalkHead env outHwInfo dtb prior' us s
      (parseDeviceTreeBlob env outHwInfo dtb prior').state := by
    intro prior'
    rcases exists_head_at_end halts (always prior') tokens with ⟨s, head, -⟩
    exact ⟨s, head⟩
  constructor
  · intro report
    by_contra silent
    -- without a decoding, the count of the prior record is left
    have kept : ∀ prior',
        (parseDeviceTreeBlob env outHwInfo dtb prior').state.physicalMemoryRegionCount =
          prior'.physicalMemoryRegionCount := by
      intro prior'
      obtain ⟨s, head⟩ := lastHead prior'
      have holds := head.holdsRegions halts
      unfold Context.HoldsRegions at holds
      rw [← regions_contextOf_isSome, Option.not_isSome_iff_eq_none] at silent
      rw [silent] at holds
      exact holds.2
    have counts := (report (prior.setRegionCount 0) (prior.setRegionCount 1)).2.regionCount
    rw [kept, kept] at counts
    exact absurd counts (show (0 : UInt64) ≠ 1 by decide)
  · intro decodes prior₁ prior₂
    obtain ⟨s₁, head₁⟩ := lastHead prior₁
    obtain ⟨s₂, head₂⟩ := lastHead prior₂
    exact ⟨(always prior₁).trans (always prior₂).symm, sameReport_of_heads halts head₁ head₂
      (acceptedTokens_of_returned halts returned tokens) decodes⟩

/-- The report is one of the blob alone for a blob that has one memory node. -/
theorem report_of_memoryBlob :
    DecodesSomewhere memoryBlob.env.memory Blob.address
        (walkTokens memoryBlob.env 1 Blob.address .zero) ∧
      ReportOfBlob memoryBlob.env 1 Blob.address := by
  have decodes : DecodesSomewhere memoryBlob.env.memory Blob.address
      (walkTokens memoryBlob.env 1 Blob.address .zero) :=
    regions_contextOf_isSome.mp (by decide +kernel)
  exact ⟨decodes, (report_of_blob_iff memoryBlob.env 1 Blob.address .zero _ rfl (by decide +kernel)
    memoryBlob_returned (blobTokens_walkTokens rfl memoryBlob_returned)).mpr decodes⟩

/-- A root without a memory node. -/
def bareBlob : Blob where
  structBlock := Blob.beginNode "" ++ narrowCells ++ Blob.endNode ++ Blob.fdtEnd
  stringsBlock := savedNames

/-- With no memory node, the region count of the record given to the parser stays. -/
theorem prior_region_count :
    (parseDeviceTreeBlob bareBlob.env 1 Blob.address .zero).outcome = .ok () ∧
      ¬ ReportOfBlob bareBlob.env 1 Blob.address := by
  refine ⟨by decide +kernel, fun report => ?_⟩
  have counts := (report .zero (HardwareInfo.zero.setRegionCount 1)).2.regionCount
  exact absurd counts (by decide +kernel)

end Runs

end CharcoalOS
