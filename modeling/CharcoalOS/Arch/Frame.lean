import CharcoalOS.Arch.ExceptionVectors
import CharcoalOS.Kernel.Machine

/-!
# The frame of an exception

What the handler of an exception saves and restores. The array that `handle_exception` gets is a
snapshot of the interrupted registers (`saved_registers`), but for the stack pointer, of which it
has the value below the frame. Resuming gets all registers back (`resume_restores`).
-/

namespace CharcoalOS.Arch

open Assembly Arm64

/-! ## Saving the registers -/

/-- The slot of a register in the frame. -/
def frameSlot (r : Reg) : Machine.Slot := (r, 8 * r.val)

theorem spill_slots : spill.flatMap Op.slots = ((List.finRange 31).take 30).map frameSlot := by
  decide

theorem reload_slots : reload.flatMap Op.slots = (List.finRange 31).map frameSlot := by
  decide

theorem spill_apart :
    (spill.flatMap Op.slots).Pairwise fun s t => Memory.Apart t.2 s.2 := by
  rw [spill_slots, List.pairwise_map]
  refine ((List.pairwise_lt_finRange 31).sublist (List.take_sublist 30 _)).imp fun less => ?_
  exact Or.inr (by simp only [frameSlot]; omega)

/-- The registers but for the last stores. -/
def spilled (m : Machine) : Machine :=
  { m with sp := m.sp - 256 }.storeAll (spill.flatMap Op.slots)

/-- The slots of the last stores. -/
def lastSlots : List Machine.Slot := [(30, 240), (9, 248)]

/-- The frame is filled. -/
def filled (m : Machine) : Machine := ((spilled m).setX 9 (m.sp - 256)).storeAll lastSlots

theorem execAll_saveRegisters (kindOfException : UInt64) (m : Machine) :
    execAll (saveRegisters kindOfException) m =
      ((filled m).setX 0 (m.sp - 256)).setX 1 kindOfException := by
  have spills : ∀ op ∈ spill, op.isSpill := by decide
  have sp : (spilled m).sp = m.sp - 256 := Machine.storeAll_sp
  rw [saveRegisters, List.cons_append, execAll_cons, execAll_append, execAll_spills spills, filled,
    ← sp]
  change execAll _ (spilled m) = _
  generalize spilled m = s
  rfl

theorem filled_sp (m : Machine) : (filled m).sp = m.sp - 256 := by
  simp [filled, spilled]

theorem spilled_slot (m : Machine) {r : Reg} (first : r.val < 30) :
    (spilled m).memory.load64 (m.sp - 256 + UInt64.ofNat (8 * r.val)) = m.x r := by
  have small : ∀ s ∈ spill.flatMap Op.slots, s.2 + 8 < 2 ^ 64 := by decide
  have member : frameSlot r ∈ spill.flatMap Op.slots := by
    have all : ∀ r : Reg, r.val < 30 → r ∈ (List.finRange 31).take 30 := by decide
    rw [spill_slots]
    exact List.mem_map_of_mem (all r first)
  exact Machine.storeAll_saved small spill_apart (frameSlot r) member

theorem slot_setX_spilled (m : Machine) (i : ℕ) :
    ((spilled m).setX 9 (m.sp - 256)).slot i = m.sp - 256 + UInt64.ofNat i := by
  rw [Machine.slot, Machine.setX_sp, spilled, Machine.storeAll_sp]

/-- The last stores. -/
theorem filled_last (m : Machine) :
    ∀ s ∈ lastSlots, (filled m).memory.load64 (m.sp - 256 + UInt64.ofNat s.2) =
      ((spilled m).setX 9 (m.sp - 256)).x s.1 := by
  have small : ∀ s ∈ lastSlots, s.2 + 8 < 2 ^ 64 := by decide
  have apart : lastSlots.Pairwise fun s t => Memory.Apart t.2 s.2 := by decide
  have saved := Machine.storeAll_saved (m := (spilled m).setX 9 (m.sp - 256)) small apart
  simp only [slot_setX_spilled] at saved
  exact saved

/-- Every register is in its slot. -/
theorem filled_slot (m : Machine) (r : Reg) :
    (filled m).memory.load64 (m.sp - 256 + UInt64.ofNat (8 * r.val)) = m.x r := by
  by_cases first : r.val < 30
  · have apart : ∀ s ∈ lastSlots, s.2 + 8 < 2 ^ 64 ∧ Memory.Apart s.2 (8 * r.val) := by
      refine List.forall_mem_cons.mpr ⟨⟨by decide, Or.inr ?_⟩,
        List.forall_mem_singleton.mpr ⟨by decide, Or.inr ?_⟩⟩
      all_goals dsimp only; omega
    have kept := Machine.storeAll_apart (m := (spilled m).setX 9 (m.sp - 256)) (by omega) apart
    rw [slot_setX_spilled, Machine.setX_memory, spilled_slot m first] at kept
    exact kept
  · obtain rfl : r = 30 := Fin.ext (show r.val = 30 by omega)
    have last := filled_last m (30, 240) List.mem_cons_self
    rw [Machine.setX_x_of_ne (by decide), spilled, Machine.storeAll_x] at last
    exact last

/-- The last slot has the address of the frame. -/
theorem filled_slot_sp (m : Machine) :
    (filled m).memory.load64 (m.sp - 256 + UInt64.ofNat 248) = m.sp - 256 := by
  have last := filled_last m (9, 248) (List.mem_cons_of_mem _ List.mem_cons_self)
  rwa [Machine.setX_x_same] at last

/-! ## The array -/

/-- The address of `saved_registers[k]`, for the function that gets the array in x0. -/
def savedAddress (m : Machine) (k : ℕ) : UInt64 := m.x 0 + UInt64.ofNat (8 * k)

/-- `saved_registers[k]` -/
def savedRegister (m : Machine) (k : ℕ) : UInt64 := m.memory.load64 (savedAddress m k)

/-- `handle_exception` finds a snapshot of the machine `m`. -/
structure Snapshot (kind : Fin 16) (m found : Machine) : Prop where
  kindOfException : found.x 1 = UInt64.ofNat kind
  registers : ∀ r : Reg, savedRegister found r = m.x r
  /-- The last element is the address of the array. -/
  stackPointer : savedRegister found 31 = m.sp - 256 ∧ found.x 0 = m.sp - 256
  disjoint : ∀ j k : Fin 32, j ≠ k → ∀ i i' : Fin 8,
    savedAddress found j + UInt64.ofNat i ≠ savedAddress found k + UInt64.ofNat i'
  /-- The array ends where the stack did. -/
  below : ∀ k : Fin 32, ∀ i : Fin 8,
    savedAddress found k + UInt64.ofNat i = m.sp - UInt64.ofNat (256 - (8 * k + i))
  /-- Addresses do not wrap around if there is room on the stack. -/
  less : 256 ≤ m.sp → ∀ k : Fin 32, ∀ i : Fin 8,
    savedAddress found k + UInt64.ofNat i < m.sp

theorem savedAddress_add (m : Machine) (k i : ℕ) :
    savedAddress m k + UInt64.ofNat i = m.x 0 + UInt64.ofNat (8 * k + i) := by
  rw [savedAddress, UInt64.add_assoc, UInt64.ofNat_add]

/-- A machine with the array at `sp - 256`. -/
theorem snapshot_of_array {kind : Fin 16} {m found : Machine}
    (kind_ : found.x 1 = UInt64.ofNat kind) (array : found.x 0 = m.sp - 256)
    (memory : found.memory = (filled m).memory) : Snapshot kind m found := by
  have element (k : ℕ) : savedRegister found k =
      (filled m).memory.load64 (m.sp - 256 + UInt64.ofNat (8 * k)) := by
    rw [savedRegister, savedAddress, array, memory]
  have below (k : Fin 32) (i : Fin 8) : savedAddress found k + UInt64.ofNat i =
      m.sp - UInt64.ofNat (256 - (8 * k + i)) := by
    rw [savedAddress_add, array]
    exact Memory.sub_add_offset m.sp (n := 256) (by omega)
  refine ⟨kind_, fun r => (element r).trans (filled_slot m r),
    ⟨(element 31).trans (filled_slot_sp m), array⟩, fun j k other i i' same => other ?_,
    below, fun room k i => ?_⟩
  · rw [savedAddress_add, savedAddress_add] at same
    have offsets := Memory.offset_inj _ (by omega) (by omega) same
    exact Fin.ext (by omega)
  · have room' : 256 ≤ m.sp.toNat := UInt64.le_iff_toNat_le.mp room
    rw [below]
    exact Memory.sub_offset_lt (by omega) (by omega)

/-- The machine as the handler has saved it, at the call that returns to `pc`. -/
theorem snapshot_saved (image : Image) (kind : Fin 16) (m : Machine) (pc : ℕ) :
    Snapshot kind m (image.environment.isa.link pc
      (execAll (saveRegisters (UInt64.ofNat kind)) m)) := by
  have link (n : Machine) : image.environment.isa.link pc n = n.setX 30 (image.address pc) := rfl
  rw [execAll_saveRegisters, link]
  refine snapshot_of_array ?_ ?_ ?_
  · rw [Machine.setX_x_of_ne (by decide), Machine.setX_x_same]
  · rw [Machine.setX_x_of_ne (by decide), Machine.setX_x_of_ne (by decide), Machine.setX_x_same]
  · rw [Machine.setX_memory, Machine.setX_memory, Machine.setX_memory]

/-- The handler calls `handle_exception`, and goes on with what that returns. -/
theorem comes_call (image : Image) (kind : Fin 16) (m : Machine) :
    ∃ found behind, image.Calls kind m .handleException found ∧ Snapshot kind m found ∧
      found.sp = m.sp - 256 ∧
      (∀ after, image.handleException found = some after →
        Comes image.environment.isa exceptionVectors (entry kind m)
          (takeAction ++ behind) after) := by
  obtain ⟨behind, comes⟩ := comes_handler image kind m
  rw [exceptionHandler, List.append_assoc] at comes
  have saved : Comes image.environment.isa exceptionVectors (entry kind m)
      (.call .handleException :: (takeAction ++ behind))
      (execAll (saveRegisters (UInt64.ofNat kind)) m) := comes_execAll comes
  have snapshot := snapshot_saved image kind m
  have sp : (execAll (saveRegisters (UInt64.ofNat kind)) m).sp = m.sp - 256 := by
    rw [execAll_saveRegisters, Machine.setX_sp, Machine.setX_sp, filled_sp]
  generalize execAll (saveRegisters (UInt64.ofNat kind)) m = m' at saved snapshot sp
  obtain ⟨pc, calls, returns, _⟩ := saved.call
  exact ⟨_, behind, calls, snapshot pc, sp, returns⟩

/-- **The saved registers** are those of the interrupted code, except that the place of the
stack pointer has its value below the frame. -/
theorem saved_registers (image : Image) (kind : Fin 16) (m : Machine) :
    ∃ found, image.Calls kind m .handleException found ∧ Snapshot kind m found := by
  obtain ⟨found, behind, calls, snapshot, _⟩ := comes_call image kind m
  exact ⟨found, calls, snapshot⟩

/-- An image whose functions do not return. -/
def Image.silent : Image := ⟨fun _ => none, fun _ => none, fun _ => 0⟩

/-- Registers and memory are zero, and the stack is somewhere. -/
def Machine.idle : Machine := ⟨fun _ => 0, 0x40100000, fun _ => 0, false, false⟩

/-- The place of the stack pointer does not have what the interrupted code had. -/
theorem stack_pointer_not_saved :
    ¬ ∀ found, Image.silent.Calls 4 Machine.idle .handleException found →
      (∀ r : Reg, savedRegister found r = Machine.idle.x r) ∧
        savedRegister found 31 = Machine.idle.sp := by
  intro claimed
  obtain ⟨found, _, calls, snapshot, _⟩ := comes_call Image.silent 4 Machine.idle
  have same := snapshot.stackPointer.1.symm.trans (claimed found calls).2
  exact absurd same (by decide)

/-- The exception that the C function finds, with the system registers as they are. -/
def exceptionOf (found : Machine) (esrEl1 elrEl1 spsrEl1 farEl1 : UInt64) (iar : UInt32) :
    Kernel.Exception where
  kindOfException := found.x 1
  savedRegisters := .ofFn fun k => savedRegister found k
  esrEl1 := esrEl1
  elrEl1 := elrEl1
  spsrEl1 := spsrEl1
  farEl1 := farEl1
  iar := iar

/-- Its array has the interrupted registers, x8 with the number of a system call among them. -/
theorem Snapshot.exceptionOf {kind : Fin 16} {m found : Machine} (snapshot : Snapshot kind m found)
    (esrEl1 elrEl1 spsrEl1 farEl1 : UInt64) (iar : UInt32) (r : Reg) :
    (exceptionOf found esrEl1 elrEl1 spsrEl1 farEl1 iar).kindOfException = UInt64.ofNat kind ∧
      (exceptionOf found esrEl1 elrEl1 spsrEl1 farEl1 iar).savedRegisters.get r.castSucc =
        m.x r := by
  refine ⟨snapshot.kindOfException, ?_⟩
  exact (Vector.getElem_ofFn _).trans (snapshot.registers r)

/-! ## Restoring the registers -/

theorem restored_x (m : Machine) (r : Reg) :
    (execAll restoreRegisters m).x r = m.memory.load64 (m.sp + UInt64.ofNat (8 * r.val)) := by
  have reloads : ∀ op ∈ reload, op.isReload := by decide
  have distinct : ((reload.flatMap Op.slots).map Prod.fst).Nodup := by decide
  have member : frameSlot r ∈ reload.flatMap Op.slots := by
    rw [reload_slots]
    exact List.mem_map_of_mem (List.mem_finRange r)
  have loaded := Machine.loadAll_x (m := m) distinct (frameSlot r) member
  rw [restoreRegisters, execAll_append, execAll_reloads reloads]
  exact loaded

theorem restored_sp (m : Machine) : (execAll restoreRegisters m).sp = m.sp + 256 := by
  have reloads : ∀ op ∈ reload, op.isReload := by decide
  rw [restoreRegisters, execAll_append, execAll_reloads reloads]
  exact congrArg (· + 256) Machine.loadAll_sp

/-- What the call leaves alone: the stack pointer, and the array. -/
structure Kept (found after : Machine) : Prop where
  sp : after.sp = found.sp
  array : ∀ i < 256,
    after.memory (found.sp + UInt64.ofNat i) = found.memory (found.sp + UInt64.ofNat i)

/-! ## After the call -/

section TakeAction

variable {image : Image} {c : Config Machine} {after : Machine} {behind : List Item}

/-- 0 resumes. -/
theorem exits_resume
    (comes : Comes image.environment.isa exceptionVectors c (takeAction ++ behind) after)
    (zero : after.x 0 = 0) :
    ∃ flags : Machine, flags.sp = after.sp ∧ flags.memory = after.memory ∧
      Exits image.environment.isa exceptionVectors c (execAll restoreRegisters flags) := by
  let ahead : List Item :=
    [.op (.cmpImm 0 1), .branch .eq (.forward 1), .branch .always (.forward 2)]
  have shape : takeAction ++ behind = .op (.cmpImm 0 0) :: (.branch .eq (.forward 0) :: ahead ++
      .label 0 :: (restoreRegisters.map .op ++ .exit :: .label 1 :: .call .platformReboot ::
        .label 2 :: .call .halt :: behind)) := by
    simp [takeAction, ahead]
  have nearest : ∀ i ∈ ahead, i.isLabel 0 = false := by
    simp [ahead, Item.isLabel]
  rw [shape] at comes
  have resume := comes.op.forward nearest (decide_eq_true zero)
  refine ⟨Op.exec (.cmpImm 0 0) after, rfl, rfl, ?_⟩
  exact (comes_execAll resume).exits

theorem calls_halt_of_comes {m : Machine}
    (comes : Comes image.environment.isa exceptionVectors c (.call .halt :: behind) m) :
    (∃ m', Calls image.environment.isa exceptionVectors c .halt m') ∧
      ∀ m', ¬ Exits image.environment.isa exceptionVectors c m' := by
  obtain ⟨pc, calls, _, never⟩ := comes.call
  exact ⟨⟨_, calls⟩, never rfl⟩

/-- 1 reboots, and halts if that returns. -/
theorem calls_reboot
    (comes : Comes image.environment.isa exceptionVectors c (takeAction ++ behind) after)
    (one : after.x 0 = 1) :
    (∃ m, Calls image.environment.isa exceptionVectors c .platformReboot m) ∧
      ∀ m, ¬ Exits image.environment.isa exceptionVectors c m := by
  let ahead : List Item :=
    .branch .always (.forward 2) :: .label 0 :: (restoreRegisters.map .op ++ [.exit])
  have shape : takeAction ++ behind = .op (.cmpImm 0 0) :: .branch .eq (.forward 0) ::
      .op (.cmpImm 0 1) :: (.branch .eq (.forward 1) :: ahead ++
        .label 1 :: .call .platformReboot :: .label 2 :: .call .halt :: behind) := by
    simp [takeAction, ahead]
  have nearest : ∀ i ∈ ahead, i.isLabel 1 = false := by
    refine List.forall_mem_cons.mpr ⟨rfl, List.forall_mem_cons.mpr ⟨rfl, ?_⟩⟩
    exact List.forall_mem_append.mpr ⟨isLabel_ops 1 _, List.forall_mem_singleton.mpr rfl⟩
  have other : after.x 0 ≠ 0 := by
    rw [one]
    decide
  rw [shape] at comes
  have compared := (comes.op.skip (decide_eq_false other)).op
  have reboot := compared.forward nearest (decide_eq_true one)
  obtain ⟨pc, calls, returns, never⟩ := reboot.call
  refine ⟨⟨_, calls⟩, ?_⟩
  cases result : image.environment.isa.call .platformReboot
      (image.environment.isa.link pc (Op.exec (.cmpImm 0 1) (Op.exec (.cmpImm 0 0) after))) with
  | none => exact never result
  | some m => exact (calls_halt_of_comes (returns m result).label).2

/-- Anything else halts. -/
theorem calls_halt
    (comes : Comes image.environment.isa exceptionVectors c (takeAction ++ behind) after)
    (resume : after.x 0 ≠ 0) (reboot : after.x 0 ≠ 1) :
    (∃ m, Calls image.environment.isa exceptionVectors c .halt m) ∧
      ∀ m, ¬ Exits image.environment.isa exceptionVectors c m := by
  let ahead : List Item :=
    .label 0 :: (restoreRegisters.map .op ++ [.exit, .label 1, .call .platformReboot])
  have shape : takeAction ++ behind = .op (.cmpImm 0 0) :: .branch .eq (.forward 0) ::
      .op (.cmpImm 0 1) :: .branch .eq (.forward 1) :: (.branch .always (.forward 2) :: ahead ++
        .label 2 :: .call .halt :: behind) := by
    simp [takeAction, ahead]
  have nearest : ∀ i ∈ ahead, i.isLabel 2 = false := by
    refine List.forall_mem_cons.mpr ⟨rfl, List.forall_mem_append.mpr ⟨isLabel_ops 2 _, ?_⟩⟩
    simp [Item.isLabel]
  rw [shape] at comes
  have compared := (comes.op.skip (decide_eq_false resume)).op
  exact calls_halt_of_comes ((compared.skip (decide_eq_false reboot)).forward nearest rfl)

end TakeAction

/-- A register comes back from the array that the call left alone. -/
theorem Kept.register {kind : Fin 16} {m found after flags : Machine} (kept : Kept found after)
    (snapshot : Snapshot kind m found) (sp : found.sp = m.sp - 256) (same : flags.sp = after.sp)
    (memory : flags.memory = after.memory) (r : Reg) :
    (execAll restoreRegisters flags).x r = m.x r := by
  have array : found.x 0 = found.sp := snapshot.stackPointer.2.trans sp.symm
  rw [restored_x, memory, same, kept.sp, ← snapshot.registers r, savedRegister, savedAddress, array]
  refine Memory.load64_congr fun i less => ?_
  rw [UInt64.add_assoc, ← UInt64.ofNat_add]
  exact kept.array _ (by omega)

/-- **Resuming restores the interrupted context**, and nothing but 0 resumes: for each of the 16
vectors, a handler that keeps the frame and returns 0 leads back with all registers as they were,
1 to the reboot, and anything else to the halt. -/
theorem resume_restores (image : Image) (kind : Fin 16) (m : Machine) :
    ∃ found, image.Calls kind m .handleException found ∧
      ∀ after, image.handleException found = some after →
        (after.x 0 = 0 → Kept found after →
          ∃ m', image.Returns kind m m' ∧ m'.x = m.x ∧ m'.sp = m.sp) ∧
        (after.x 0 = 1 → ∃ m', image.Calls kind m .platformReboot m') ∧
        (after.x 0 ≠ 0 → after.x 0 ≠ 1 → ∃ m', image.Calls kind m .halt m') ∧
        (after.x 0 ≠ 0 → ∀ m', ¬ image.Returns kind m m') := by
  obtain ⟨found, behind, calls, snapshot, sp, returns⟩ := comes_call image kind m
  refine ⟨found, calls, fun after result => ?_⟩
  have comes := returns after result
  refine ⟨fun zero kept => ?_, fun one => (calls_reboot comes one).1,
    fun resume reboot => (calls_halt comes resume reboot).1, fun resume => ?_⟩
  · obtain ⟨flags, same, memory, exits⟩ := exits_resume comes zero
    refine ⟨_, exits, funext (kept.register snapshot sp same memory), ?_⟩
    rw [restored_sp, same, kept.sp, sp, UInt64.sub_add_cancel]
  · by_cases one : after.x 0 = 1
    · exact (calls_reboot comes one).2
    · exact (calls_halt comes resume one).2

/-- An image whose `handle_exception` resumes, with other values in all other registers. -/
def Image.clobbering : Image where
  handleException m := some { m with x := fun r => if r = 0 then 0 else 0xdeadbeef }
  platformReboot := fun _ => none
  address := fun _ => 0

theorem resume_clobbered :
    ∃ m', Image.clobbering.Returns 4 Machine.idle m' ∧ m'.x = Machine.idle.x ∧
      m'.sp = Machine.idle.sp := by
  obtain ⟨found, _, after⟩ := resume_restores Image.clobbering 4 Machine.idle
  exact (after _ rfl).1 rfl ⟨rfl, fun _ _ => rfl⟩

end CharcoalOS.Arch
