import CharcoalOS.Hardware.Context

/-!
# Reads of the strings block

The walk checks that a property name starts in the strings block and then compares it
with literals, each time from the byte at the literal's length. `nameReach` is how far
past the start it reads for certain, so a name stays in the block exactly if that byte
does (`name_reads_in_block_iff`).
-/

namespace CharcoalOS

open Effect Effect.Program

/-- The address lies in the strings block of the blob at `dtb`. -/
def InStringsBlock (mem : Memory) (dtb a : UInt64) : Prop :=
  (a - (dtb + (headerAt mem dtb).offDtStrings.toUInt64)).toNat <
    (headerAt mem dtb).sizeDtStrings.toNat

instance (mem : Memory) (dtb a : UInt64) : Decidable (InStringsBlock mem dtb a) := by
  unfold InStringsBlock; infer_instance

theorem inStringsBlock_name {mem : Memory} {dtb : UInt64} {nameOffset : UInt32} {i : Nat}
    (small : i ≤ 14) :
    InStringsBlock mem dtb
        ((propName dtb (headerAt mem dtb) nameOffset).offset (UInt64.ofNat i)).address ↔
      nameOffset.toNat + i < (headerAt mem dtb).sizeDtStrings.toNat := by
  have offset : (propName dtb (headerAt mem dtb) nameOffset).address + UInt64.ofNat i -
      (dtb + (headerAt mem dtb).offDtStrings.toUInt64) =
        nameOffset.toUInt64 + UInt64.ofNat i := by
    simp only [propName]
    grind
  have := nameOffset.toNat_lt
  have index : (UInt64.ofNat i).toNat = i := by
    rw [UInt64.toNat_ofNat', Nat.mod_eq_of_lt (by omega)]
  rw [InStringsBlock, Pointer.offset_address, offset, UInt64.toNat_add, UInt32.toNat_toUInt64,
    index, Nat.mod_eq_of_lt (by omega)]

theorem nameReach_le (rootName : Bool) : nameReach rootName ≤ 14 := by
  cases rootName <;> decide

section Reads

variable {env : Env} {outHwInfo dtb : UInt64} {prior info start : HardwareInfo}
  {ts : List Token} {s : Walk} {c : Context} {q : Pointer}

/-- The node name, the `device_type` and the `reg` are not in the strings block. -/
theorem NodeEvent.not_strings {mem : Memory} (models : c.Models mem start s info)
    (event : NodeEvent mem s info (.read q)) : q.origin ≠ .stringsBlock := by
  intro origin
  cases event with
  | deviceType _ _ read =>
      rw [models.deviceType] at read
      split at read
      · exact absurd read List.not_mem_nil
      · rw [charRead, List.mem_singleton] at read
        cases read
        cases origin
  | reg _ _ event =>
      cases event with
      | read =>
          rw [models.reg] at origin
          cases reg : c.reg <;> rw [reg] at origin <;> cases origin

/-- A read of the strings block is one of the name of the property at the cursor, no
further than the walk reads for certain. -/
theorem WalkHead.strings_read (head : WalkHead env outHwInfo dtb prior ts s info)
    (origin : q.origin = .stringsBlock)
    (read : .read q ∈ (walkStep env dtb (blobEnd env.memory dtb) s info).events) :
    ∃ p next i, BlobToken env.memory dtb s.dtbCursor (.prop p) next ∧
      i ≤ nameReach (s.nameEmpty env.memory) ∧
      q = (propName dtb (headerAt env.memory dtb) p.nameOffset).offset (UInt64.ofNat i) := by
  cases (walkStep_post env dtb s info).2 _ read with
  | cursor event =>
      cases event with
      | read => exact nomatch origin
  | @handle p next _ token event =>
      rw [head.header_eq] at token event
      rcases event with save | ⟨-, node⟩
      · cases save with
        | nodeName read =>
            rw [head.models.nodeName] at read
            cases name : (contextOf env.memory dtb ts).name with
            | none =>
                rw [name] at read
                exact absurd read List.not_mem_nil
            | some a =>
                rw [name] at read
                rcases List.mem_singleton.mp read with ⟨⟩
                exact nomatch origin
        | @name i le => exact ⟨p, next, i, token, le, rfl⟩
        | value => exact nomatch origin
      · exact absurd origin (NodeEvent.not_strings (head.models.past_prop token) node)

/-- **Names stay in the strings block exactly where the byte that is certain to be read
does.** That is byte 14 of the name if the node opened last has an empty name, since the
first comparison is with "#address-cells", and byte 11 otherwise. -/
theorem name_reads_in_block_iff (env : Env) (outHwInfo dtb : UInt64) (prior : HardwareInfo) :
    (∀ q, .read q ∈ (parseDeviceTreeBlob env outHwInfo dtb prior).events →
      q.origin = .stringsBlock → InStringsBlock env.memory dtb q.address) ↔
    ∀ ts s info, WalkHead env outHwInfo dtb prior ts s info →
      ∀ p next, BlobToken env.memory dtb s.dtbCursor (.prop p) next →
        p.nameOffset.toNat + nameReach (s.nameEmpty env.memory) <
          (headerAt env.memory dtb).sizeDtStrings.toNat := by
  constructor
  · intro inBlock ts s info head p next token
    obtain ⟨o, evs, post, inner, -⟩ := step_prop head.header_eq token
    have read := head.mem_events (inner _ post.nameRead)
    exact (inStringsBlock_name (nameReach_le _)).mp (inBlock _ read rfl)
  · intro short q read origin
    rcases mem_events_parse read with event | ⟨ts, s, info, head, read⟩
    · cases event <;> exact nomatch origin
    · obtain ⟨p, next, i, token, le, rfl⟩ := head.strings_read origin read
      have reach := short ts s info head p next token
      exact (inStringsBlock_name (Nat.le_trans le (nameReach_le _))).mpr (by omega)

/-- They do not in a blob whose strings block ends in "reg": to compare that name with
"device_type" the walk reads its byte 11. -/
theorem name_read_past_block :
    (parseDeviceTreeBlob memoryBlob.env 1 Blob.address .zero).outcome = .ok () ∧
      ¬ ∀ q, .read q ∈ (parseDeviceTreeBlob memoryBlob.env 1 Blob.address .zero).events →
        q.origin = .stringsBlock →
          InStringsBlock memoryBlob.env.memory Blob.address q.address := by
  refine ⟨memoryBlob_returned, fun inBlock => ?_⟩
  -- the strings block is the 43 bytes from 160 on
  have read : .read ⟨.stringsBlock, Blob.address + 160 + 39 + 11⟩ ∈
      (parseDeviceTreeBlob memoryBlob.env 1 Blob.address .zero).events := by decide +kernel
  exact absurd (inBlock _ read rfl) (by decide +kernel)

end Reads

end CharcoalOS
