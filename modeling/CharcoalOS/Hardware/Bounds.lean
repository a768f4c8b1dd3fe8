import CharcoalOS.Hardware.Blob
import CharcoalOS.Hardware.Walk

/-!
# The walk stays in the struct block

`TokenAt.progress` is the arithmetic of the cursor: past a token it is at least four
bytes further and not past the block. From it follow `WalkHead.inBlock`, the invariant
of the cursor and of every pointer taken from it, and with that the bounds of all
reads through them (`struct_reads_in_block`) and of the number of iterations
(`parser_stops`).
-/

namespace CharcoalOS

open Effect Effect.Program

/-- No address of the blob, nor the four past it, wraps. -/
def NoWrap (mem : Memory) (dtb : UInt64) : Prop :=
  dtb.toNat + (headerAt mem dtb).totalSize.toNat + 4 < 2 ^ 64

instance (mem : Memory) (dtb : UInt64) : Decidable (NoWrap mem dtb) := by
  unfold NoWrap; infer_instance

/-- The address lies in the struct block, counted without wrapping. -/
def InStructBlock (mem : Memory) (dtb a : UInt64) : Prop :=
  dtb.toNat + (headerAt mem dtb).offDtStruct.toNat ≤ a.toNat ∧
    a.toNat < dtb.toNat + (headerAt mem dtb).offDtStruct.toNat +
      (headerAt mem dtb).sizeDtStruct.toNat

section Addresses

variable {mem : Memory} {outHwInfo dtb : UInt64}

theorem blobStart_toNat (accepted : HeaderAccepted mem outHwInfo dtb)
    (noWrap : NoWrap mem dtb) :
    (blobStart mem dtb).toNat = dtb.toNat + (headerAt mem dtb).offDtStruct.toNat := by
  have := accepted.structBlock
  unfold NoWrap at noWrap
  rw [blobStart, structStart, UInt64.toNat_add, UInt32.toNat_toUInt64, Nat.mod_eq_of_lt]
  omega

theorem blobEnd_toNat (accepted : HeaderAccepted mem outHwInfo dtb)
    (noWrap : NoWrap mem dtb) :
    (blobEnd mem dtb).toNat = dtb.toNat + (headerAt mem dtb).offDtStruct.toNat +
      (headerAt mem dtb).sizeDtStruct.toNat := by
  have := accepted.structBlock
  have start := blobStart_toNat accepted noWrap
  unfold NoWrap at noWrap
  rw [blobEnd, structEnd, UInt64.toNat_add, show dtb + (headerAt mem dtb).offDtStruct.toUInt64 =
    blobStart mem dtb from rfl, start, UInt32.toNat_toUInt64, Nat.mod_eq_of_lt]
  omega

theorem blobEnd_room (accepted : HeaderAccepted mem outHwInfo dtb) (noWrap : NoWrap mem dtb) :
    (blobEnd mem dtb).toNat + 4 < 2 ^ 64 := by
  have := accepted.structBlock
  have := blobEnd_toNat accepted noWrap
  unfold NoWrap at noWrap
  omega

theorem inStructBlock_iff (accepted : HeaderAccepted mem outHwInfo dtb)
    (noWrap : NoWrap mem dtb) (a : UInt64) :
    InStructBlock mem dtb a ↔
      (blobStart mem dtb).toNat ≤ a.toNat ∧ a.toNat < (blobEnd mem dtb).toNat := by
  rw [InStructBlock, blobStart_toNat accepted noWrap, blobEnd_toNat accepted noWrap]

end Addresses

section Progress

variable {mem : Memory} {limit a next : UInt64} {sizeDtStrings : UInt32} {t : Token}

/-- Padding moves the cursor forward. -/
theorem le_align4 (room : limit.toNat + 4 < 2 ^ 64) (le : a ≤ limit) :
    a.toNat ≤ (align4 a).toNat := by
  have := UInt64.le_iff_toNat_le.mp le
  rw [align4_toNat (by omega)]
  omega

/-- The value of a property is behind its metadata. -/
theorem TokenAt.toNat_data {p : Property}
    (token : TokenAt mem limit sizeDtStrings a (.prop p) next) :
    p.data.toNat = a.toNat + 12 := by
  cases token with
  | prop bytes _ eq =>
      rw [eq]
      exact toNat_add_of_room limit (by simp only [UInt64.reduceToNat]; omega)

/-- **Past a token the cursor is at least four bytes further, and inside the block.** -/
theorem TokenAt.progress (token : TokenAt mem limit sizeDtStrings a t next)
    (room : limit.toNat + 4 < 2 ^ 64) :
    a.toNat + 4 ≤ next.toNat ∧ next.toNat ≤ limit.toNat := by
  have fits := token.room
  have four : (a + 4).toNat = a.toNat + 4 := toNat_add_of_room limit fits
  have found := token
  cases token with
  | @beginNode z _ _ nul inside =>
      have above := UInt64.le_iff_toNat_le.mp nul.le
      have below := UInt64.lt_iff_toNat_lt.mp nul.lt
      have succ : (z + 1).toNat = z.toNat + 1 :=
        toNat_add_of_room limit (by simp only [UInt64.reduceToNat]; omega)
      have forward := le_align4 (a := z + 1) room (by rw [UInt64.le_iff_toNat_le]; omega)
      exact ⟨by omega, UInt64.le_iff_toNat_le.mp inside⟩
  | endNode => omega
  | @prop p bytes _ eq inside _ =>
      have data := found.toNat_data
      have sum : (p.data + p.length.toUInt64).toNat = p.data.toNat + p.length.toNat :=
        toNat_add_of_room limit (by rw [data, UInt32.toNat_toUInt64]; omega)
      have forward := le_align4 (a := p.data + p.length.toUInt64) room
        (by rw [UInt64.le_iff_toNat_le]; omega)
      exact ⟨by omega, UInt64.le_iff_toNat_le.mp inside⟩
  | nop => omega
  | fdtEnd => omega

/-- The value of a property lies between its metadata and the end of the block. -/
theorem TokenAt.value_room {p : Property}
    (token : TokenAt mem limit sizeDtStrings a (.prop p) next) :
    p.data.toNat = a.toNat + 12 ∧ p.data.toNat + p.length.toNat ≤ limit.toNat := by
  have data := token.toNat_data
  cases token with
  | prop bytes => omega

/-- A node name starts past its token and before the end of the block. -/
theorem TokenAt.name_room {name : UInt64}
    (token : TokenAt mem limit sizeDtStrings a (.beginNode name) next) :
    name.toNat = a.toNat + 4 ∧ name.toNat < limit.toNat := by
  cases token with
  | beginNode room _ nul =>
      have four : (a + 4).toNat = a.toNat + 4 := toNat_add_of_room limit room
      have above := UInt64.le_iff_toNat_le.mp nul.le
      have below := UInt64.lt_iff_toNat_lt.mp nul.lt
      omega

end Progress

/-! ## Pointers into the struct block -/

/-- The cursor is in the block or at its end, and the saved pointers are where the
walk found them. -/
structure InBlock (mem : Memory) (dtb : UInt64) (s : Walk) : Prop where
  above : (blobStart mem dtb).toNat ≤ s.dtbCursor.toNat
  below : s.dtbCursor.toNat ≤ (blobEnd mem dtb).toNat
  nodeName : s.nodeName = .literal "" ∨ ∃ a, s.nodeName = .pointer (structPointer a) ∧
    (blobStart mem dtb).toNat ≤ a.toNat ∧ a.toNat < (blobEnd mem dtb).toNat
  reg : s.currentNodeReg = .null ∨ ∃ a, s.currentNodeReg = structPointer a ∧
    (blobStart mem dtb).toNat ≤ a.toNat ∧
    a.toNat + s.currentNodeRegSize.toNat ≤ (blobEnd mem dtb).toNat
  deviceType : s.currentNodeDeviceType = .pointer .null ∨
    s.currentNodeDeviceType = .literal "memory"

section Invariant

variable {mem : Memory} {dtb next : UInt64} {s : Walk}

/-- What one token does to the pointers of the walk. -/
theorem InBlock.past {t : Token} (inBlock : InBlock mem dtb s)
    (room : (blobEnd mem dtb).toNat + 4 < 2 ^ 64)
    (token : BlobToken mem dtb s.dtbCursor t next) : InBlock mem dtb (s.past mem dtb t next) := by
  have progress := token.progress room
  have above : (blobStart mem dtb).toNat ≤ next.toNat := by
    have := inBlock.above
    omega
  cases t with
  | beginNode name =>
      refine ⟨above, progress.2, Or.inr ⟨name, rfl, ?_⟩, Or.inl rfl, Or.inl rfl⟩
      have := token.name_room
      have := inBlock.above
      omega
  | endNode => exact ⟨above, progress.2, inBlock.nodeName, inBlock.reg, inBlock.deviceType⟩
  | nop => exact ⟨above, progress.2, inBlock.nodeName, inBlock.reg, inBlock.deviceType⟩
  | fdtEnd => exact ⟨above, progress.2, inBlock.nodeName, inBlock.reg, inBlock.deviceType⟩
  | prop p =>
      refine ⟨?_, ?_, ?_, ?_, ?_⟩ <;> simp only [Walk.past, Walk.afterToken,
        Walk.dtbCursor_withProperty, Walk.nodeName_withProperty, Walk.currentNodeReg_withProperty,
        Walk.currentNodeRegSize_withProperty, Walk.currentNodeDeviceType_withProperty]
      · exact above
      · exact progress.2
      · exact inBlock.nodeName
      · split
        · refine Or.inr ⟨p.data, rfl, ?_⟩
          have := token.value_room
          have := inBlock.above
          omega
        · exact inBlock.reg
      · split
        · exact Or.inr rfl
        · exact inBlock.deviceType

end Invariant

/-! ## Reads -/

/-- The address is in the struct block. -/
def Between (mem : Memory) (dtb : UInt64) (a : UInt64) : Prop :=
  (blobStart mem dtb).toNat ≤ a.toNat ∧ a.toNat < (blobEnd mem dtb).toNat

/-- A read through a pointer into the struct block stays in it. -/
def ReadStays (mem : Memory) (dtb : UInt64) (e : Event) : Prop :=
  ∀ p, e = .read p → p.origin = .structBlock → Between mem dtb p.address

section Reads

variable {mem : Memory} {dtb : UInt64} {s : Walk} {info : HardwareInfo} {e : Event}

theorem between_offset {a : UInt64} {i n : Nat} (above : (blobStart mem dtb).toNat ≤ a.toNat)
    (less : i < n) (below : a.toNat + n ≤ (blobEnd mem dtb).toNat) :
    Between mem dtb (a + UInt64.ofNat i) := by
  have := (blobEnd mem dtb).toNat_lt
  have small : (UInt64.ofNat i).toNat = i := by
    rw [UInt64.toNat_ofNat', Nat.mod_eq_of_lt]
    omega
  have sum : (a + UInt64.ofNat i).toNat = a.toNat + i := by
    rw [toNat_add_of_room (blobEnd mem dtb) (by rw [small]; omega), small]
  unfold Between
  omega

theorem CursorEvent.stays (inBlock : InBlock mem dtb s)
    (event : CursorEvent s.dtbCursor (blobEnd mem dtb) e) : ReadStays mem dtb e := by
  intro p same _
  subst same
  cases event with
  | read above below =>
      have := UInt64.le_iff_toNat_le.mp above
      have := UInt64.lt_iff_toNat_lt.mp below
      have := inBlock.above
      show _ ≤ _ ∧ _ < _
      simp only [structPointer]
      omega

theorem SaveEvent.stays {name : Pointer} {p : Property} (inBlock : InBlock mem dtb s)
    (inStrings : name.origin = .stringsBlock)
    (above : (blobStart mem dtb).toNat ≤ p.data.toNat)
    (below : p.data.toNat + p.length.toNat ≤ (blobEnd mem dtb).toNat)
    (event : SaveEvent mem name p s e) : ReadStays mem dtb e := by
  intro q same origin
  subst same
  cases event with
  | nodeName read =>
      rcases inBlock.nodeName with literal | ⟨a, pointer, bounds⟩
      · rw [literal] at read
        exact absurd read List.not_mem_nil
      · rw [pointer, charRead, List.mem_singleton] at read
        cases read
        exact between_offset bounds.1 Nat.zero_lt_one bounds.2
  | name => cases inStrings.symm.trans origin
  | value less => exact between_offset above less below

theorem NodeEvent.stays (inBlock : InBlock mem dtb s) (event : NodeEvent mem s info e) :
    ReadStays mem dtb e := by
  intro q same origin
  subst same
  cases event with
  | deviceType _ _ read =>
      rcases inBlock.deviceType with null | literal
      · rw [null, charRead, List.mem_singleton] at read
        cases read
        cases origin
      · rw [literal] at read
        exact absurd read List.not_mem_nil
  | reg decodes _ read =>
      rcases inBlock.reg with null | ⟨a, pointer, above, below⟩
      · exact absurd (by rw [null]; rfl) decodes.1
      · cases read with
        | read less =>
            rw [pointer]
            exact between_offset above less below

/-- Every read of an iteration through the cursor, or a pointer derived from it, stays in
the struct block. -/
theorem StepEvent.stays (inBlock : InBlock mem dtb s)
    (room : (blobEnd mem dtb).toNat + 4 < 2 ^ 64) (known : info.header = headerAt mem dtb)
    (event : StepEvent mem dtb (blobEnd mem dtb) s info e) : ReadStays mem dtb e := by
  cases event with
  | cursor event => exact event.stays inBlock
  | @handle p next _ token event =>
      rw [known] at token event
      have value := token.value_room
      have := inBlock.above
      have past := inBlock.past room token
      rcases event with save | ⟨-, node⟩
      · have cursor : (s.past mem dtb (.prop p) next).dtbCursor = next := Walk.dtbCursor_afterToken
        have above := past.above
        have below := past.below
        rw [cursor] at above below
        have moved : InBlock mem dtb { s with dtbCursor := next } :=
          ⟨above, below, inBlock.nodeName, inBlock.reg, inBlock.deviceType⟩
        exact save.stays moved rfl (by omega) value.2
      · exact NodeEvent.stays (s := s.past mem dtb (.prop p) next) past node

end Reads

section Heads

variable {env : Env} {outHwInfo dtb : UInt64} {prior info : HardwareInfo} {ts : List Token}
  {s : Walk}

theorem WalkHead.accepted (head : WalkHead env outHwInfo dtb prior ts s info) :
    HeaderAccepted env.memory outHwInfo dtb := (prologue_passed head.passed).1

theorem WalkHead.inBlock (head : WalkHead env outHwInfo dtb prior ts s info)
    (noWrap : NoWrap env.memory dtb) : InBlock env.memory dtb s := by
  refine head.induct (P := fun _ s _ => InBlock env.memory dtb s) (fun passed => ?_) ?_
  · have accepted := (prologue_passed passed).1
    refine ⟨Nat.le_refl _, ?_, Or.inl rfl, Or.inl rfl, Or.inl rfl⟩
    have := blobStart_toNat accepted noWrap
    have := blobEnd_toNat accepted noWrap
    show (blobStart env.memory dtb).toNat ≤ _
    omega
  · intro ts s info t next s' info' head inBlock token walk _ _
    rw [walk]
    exact inBlock.past (blobEnd_room head.accepted noWrap) token

/-- **The parser reads no byte outside the struct block through the cursor or a pointer
derived from it.** The block lies in the blob, and the cursor never passes its end. -/
theorem struct_reads_in_block (env : Env) (outHwInfo dtb : UInt64) (prior : HardwareInfo)
    (noWrap : NoWrap env.memory dtb) :
    (∀ p, .read p ∈ (parseDeviceTreeBlob env outHwInfo dtb prior).events →
      p.origin = .structBlock →
        InStructBlock env.memory dtb p.address ∧
        dtb.toNat ≤ dtb.toNat + (headerAt env.memory dtb).offDtStruct.toNat ∧
        dtb.toNat + (headerAt env.memory dtb).offDtStruct.toNat +
            (headerAt env.memory dtb).sizeDtStruct.toNat ≤
          dtb.toNat + (headerAt env.memory dtb).totalSize.toNat) ∧
    ∀ ts s info, WalkHead env outHwInfo dtb prior ts s info →
      s.dtbCursor ≤ structEnd dtb info.header := by
  constructor
  · intro p member origin
    rcases mem_events_parse member with event | ⟨ts, s, info, head, member⟩
    · cases event with
      | readHeader => exact nomatch origin
      | readMap => exact nomatch origin
    · have stays := ((walkStep_post env dtb s info).2 _ member).stays (head.inBlock noWrap)
        (blobEnd_room head.accepted noWrap) head.header_eq
      refine ⟨(inStructBlock_iff head.accepted noWrap _).mpr (stays p rfl origin),
        Nat.le_add_right _ _, ?_⟩
      have := head.accepted.structBlock
      omega
  · intro ts s info head
    rw [head.header_eq, ← blobEnd, UInt64.le_iff_toNat_le]
    exact (head.inBlock noWrap).below

/-- So it is with a blob that has one memory node. -/
theorem struct_reads_in_block_memoryBlob :
    NoWrap memoryBlob.env.memory Blob.address ∧
      ∀ p, .read p ∈ (parseDeviceTreeBlob memoryBlob.env 1 Blob.address .zero).events →
        p.origin = .structBlock → InStructBlock memoryBlob.env.memory Blob.address p.address := by
  have noWrap : NoWrap memoryBlob.env.memory Blob.address := by decide +kernel
  refine ⟨noWrap, fun p read origin => ?_⟩
  exact ((struct_reads_in_block memoryBlob.env 1 Blob.address .zero noWrap).1 p read origin).1

/-! ## Progress -/

/-- A completed iteration moves the cursor at least four bytes towards the end of the
block. -/
theorem continues_progress {s' : Walk} {info' : HardwareInfo}
    (room : (blobEnd env.memory dtb).toNat + 4 < 2 ^ 64)
    (known : info.header = headerAt env.memory dtb)
    (edge : Continues (walkStep env dtb (blobEnd env.memory dtb)) (s, info) (s', info')) :
    s.dtbCursor.toNat + 4 ≤ s'.dtbCursor.toNat ∧
      s'.dtbCursor.toNat ≤ (blobEnd env.memory dtb).toNat := by
  obtain ⟨t, next, token, rfl, -, -⟩ := continues_inv known edge
  rw [Walk.past, Walk.dtbCursor_afterToken]
  exact token.progress room

/-- Each token handled has used up at least four bytes of the block. -/
theorem walkTrail_length (accepted : HeaderAccepted env.memory outHwInfo dtb)
    (start : (walkRecord env outHwInfo dtb prior).header = headerAt env.memory dtb)
    (noWrap : NoWrap env.memory dtb) (trail : WalkTrail env outHwInfo dtb prior ts s info) :
    (blobEnd env.memory dtb).toNat - s.dtbCursor.toNat + 4 * ts.length ≤
      (headerAt env.memory dtb).sizeDtStruct.toNat := by
  have bound := trail.variant (k := 4) (fun b => b.2.header = headerAt env.memory dtb)
    (fun b => (blobEnd env.memory dtb).toNat - b.1.dtbCursor.toNat) start ?_
  · have := blobStart_toNat accepted noWrap
    have := blobEnd_toNat accepted noWrap
    have size : (blobEnd env.memory dtb).toNat - (walkStart env dtb).dtbCursor.toNat =
        (headerAt env.memory dtb).sizeDtStruct.toNat := by
      show _ - (blobStart env.memory dtb).toNat = _
      omega
    rw [← size]
    exact bound
  · intro head next known edge
    obtain ⟨s₁, info₁⟩ := head
    obtain ⟨s₂, info₂⟩ := next
    have progress := continues_progress (blobEnd_room accepted noWrap) known edge
    refine ⟨?_, by dsimp only; omega⟩
    have post := (walkStep_post env dtb s₁ info₁).1
    rw [show _ = info₂ from edge.2] at post
    exact post.sameButMemory.header_eq.trans known

/-- Fuel for the bytes of the struct block and the entries of the reservation map. -/
def EnoughFuel (env : Env) (dtb : UInt64) : Prop :=
  (headerAt env.memory dtb).sizeDtStruct.toNat + 257 ≤ env.fuel

instance (env : Env) (dtb : UInt64) : Decidable (EnoughFuel env dtb) := by
  unfold EnoughFuel; infer_instance

/-- With fuel for every byte of the block and every reservation entry, a run never stops
for lack of it. -/
theorem body_not_exhausted (noWrap : NoWrap env.memory dtb)
    (enough : EnoughFuel env dtb) {e : Stop}
    (ending : BodyEnd env outHwInfo dtb prior (.error e) info) : e ≠ .exhausted := by
  unfold EnoughFuel at enough
  cases ending with
  | prologue failed =>
      have ending := wp_iff.mp (readPrologue_spec env outHwInfo dtb prior)
      rw [failed] at ending
      cases ending with
      | rejected _ stop => exact stop.1
      | exhausted few => omega
  | @stopped ts s info e head failed =>
      have post := (walkStep_post env dtb s info).1
      rw [failed] at post
      rcases post.error_inv with stop | ⟨-, room, short⟩
      · exact stop.1
      · have := walkTrail_length head.accepted (walkRecord_header head.passed) noWrap head.trail
        omega
  | exhausted passed trail length =>
      have := walkTrail_length (prologue_passed passed).1 (walkRecord_header passed) noWrap trail
      omega
  | unfinished _ _ _ _ stop => exact stop.1

theorem outcome_of_enough (outHwInfo : UInt64) (prior : HardwareInfo)
    (noWrap : NoWrap env.memory dtb) (enough : EnoughFuel env dtb) :
    (parseDeviceTreeBlob env outHwInfo dtb prior).outcome = .ok () ∨
      (parseDeviceTreeBlob env outHwInfo dtb prior).outcome = .error .halted := by
  obtain ⟨o, ending, outcome⟩ := parse_spec env outHwInfo dtb prior
  rw [outcome, settle]
  cases o with
  | ok => exact Or.inl rfl
  | error e =>
      have live := body_not_exhausted noWrap enough ending
      cases e with
      | halted => exact Or.inr rfl
      | returned => exact Or.inl rfl
      | exhausted => exact absurd rfl live

/-- **The parser stops.** The scan of the reservation map makes at most 256 iterations; an
iteration of the walk that goes on brings the cursor at least four bytes nearer to the end
of the block, so there are at most `size_dt_struct / 4` token reads; and with fuel for the
bytes of the block no loop is cut short. -/
theorem parser_stops (env : Env) (outHwInfo dtb : UInt64) (prior : HardwareInfo)
    (noWrap : NoWrap env.memory dtb) :
    (∀ ts i info, ScanHead env outHwInfo dtb prior ts i info → ts.length + 1 ≤ 256) ∧
    (∀ ts s info, WalkHead env outHwInfo dtb prior ts s info →
      (∀ s' info', Continues (walkStep env dtb (structEnd dtb info.header)) (s, info) (s', info') →
        (structEnd dtb info.header - s'.dtbCursor).toNat + 4 ≤
          (structEnd dtb info.header - s.dtbCursor).toNat) ∧
      (.read (structPointer s.dtbCursor) ∈
          (walkStep env dtb (structEnd dtb info.header) s info).events →
        4 * (ts.length + 1) ≤ (headerAt env.memory dtb).sizeDtStruct.toNat)) ∧
    (EnoughFuel env dtb →
      (parseDeviceTreeBlob env outHwInfo dtb prior).outcome = .ok () ∨
        (parseDeviceTreeBlob env outHwInfo dtb prior).outcome = .error .halted) := by
  refine ⟨fun ts i info head => head.length_le, fun ts s info head => ?_,
    outcome_of_enough outHwInfo prior noWrap⟩
  · rw [head.header_eq, ← blobEnd]
    have length := walkTrail_length head.accepted (walkRecord_header head.passed) noWrap head.trail
    have inBlock := head.inBlock noWrap
    refine ⟨fun s' info' edge => ?_, fun read => ?_⟩
    · have progress := continues_progress (blobEnd_room head.accepted noWrap) head.header_eq edge
      rw [UInt64.toNat_sub_of_le _ _ (UInt64.le_iff_toNat_le.mpr progress.2),
        UInt64.toNat_sub_of_le _ _ (UInt64.le_iff_toNat_le.mpr inBlock.below)]
      omega
    · have enough : ¬ blobEnd env.memory dtb - s.dtbCursor < 4 := fun short => by
        rw [(walkStep_tail (UInt64.le_iff_toNat_le.mpr inBlock.below) short).2] at read
        exact absurd read List.not_mem_nil
      rw [sub_lt_iff (UInt64.le_iff_toNat_le.mpr inBlock.below)] at enough
      simp only [UInt64.reduceToNat] at enough
      omega

/-- So it does on a blob that has one memory node. -/
theorem parser_stops_memoryBlob :
    EnoughFuel memoryBlob.env Blob.address ∧
      ((parseDeviceTreeBlob memoryBlob.env 1 Blob.address .zero).outcome = .ok () ∨
        (parseDeviceTreeBlob memoryBlob.env 1 Blob.address .zero).outcome = .error .halted) := by
  have enough : EnoughFuel memoryBlob.env Blob.address := by decide +kernel
  exact ⟨enough,
    (parser_stops memoryBlob.env 1 Blob.address .zero (by decide +kernel)).2.2 enough⟩

end Heads

end CharcoalOS
