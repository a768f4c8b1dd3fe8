import CharcoalOS.Lib.Assembly
import CharcoalOS.Lib.Memory

/-!
# AArch64

The instructions that spill the general registers to the stack and reload them, that clear
memory, and that compare and branch on the result. `storeAll` and `loadAll` are what rows of
spills and reloads come to: every slot holds its register, and every register gets its slot.
-/

namespace Arm64

open Assembly

/-- x0 to x30. -/
abbrev Reg : Type := Fin 31

instance registers_ne_zero : NeZero 31 := ⟨by decide⟩

/-- The general registers, the stack pointer, memory, and the flags Z and C. -/
structure Machine : Type where
  x : Reg → UInt64
  sp : UInt64
  memory : Memory
  zero : Bool
  carry : Bool

/-- Offsets are from `sp`. -/
inductive Op : Type
  /-- `sub sp, sp, #imm` -/
  | subSp (imm : UInt64)
  /-- `add sp, sp, #imm` -/
  | addSp (imm : UInt64)
  /-- `mov xd, sp` -/
  | movSp (d : Reg)
  /-- `mov xd, #imm` -/
  | movImm (d : Reg) (imm : UInt64)
  /-- `cmp xn, #imm` -/
  | cmpImm (n : Reg) (imm : UInt64)
  /-- `stp xa, xb, [sp, #offset]` -/
  | stp (a b : Reg) (offset : ℕ)
  /-- `ldp xa, xb, [sp, #offset]` -/
  | ldp (a b : Reg) (offset : ℕ)
  /-- `ldr xa, [sp, #offset]` -/
  | ldr (a : Reg) (offset : ℕ)
  /-- `ldr xd, =value` -/
  | ldrLiteral (d : Reg) (value : UInt64)
  /-- `mov sp, xn` -/
  | movToSp (n : Reg)
  /-- `mrs xd, reg`, of a register with this value -/
  | mrs (d : Reg) (value : UInt64)
  /-- `and xd, xn, #imm` -/
  | andImm (d n : Reg) (imm : UInt64)
  /-- `sub xd, xn, xm` -/
  | subReg (d n m : Reg)
  /-- `sub xd, xn, #imm` -/
  | subImm (d n : Reg) (imm : UInt64)
  /-- `cmp xn, xm` -/
  | cmpReg (n m : Reg)
  /-- `tst xn, #imm` -/
  | tstImm (n : Reg) (imm : UInt64)
  /-- `strb wzr, [xn], #imm` -/
  | strbZeroPost (n : Reg) (imm : UInt64)
  /-- `str xzr, [xn], #imm` -/
  | strZeroPost (n : Reg) (imm : UInt64)
  | wfe

inductive Condition : Type
  | always
  | eq
  | hs
  | lo
  /-- `cbz xn` -/
  | cbz (n : Reg)

def Condition.holds : Condition → Machine → Bool
  | .always, _ => true
  | .eq, m => m.zero
  | .hs, m => m.carry
  | .lo, m => !m.carry
  | .cbz n, m => m.x n = 0

namespace Machine

def setX (m : Machine) (r : Reg) (value : UInt64) : Machine :=
  { m with x := Function.update m.x r value }

/-- The address of a slot. -/
def slot (m : Machine) (offset : ℕ) : UInt64 := m.sp + UInt64.ofNat offset

def storeX (m : Machine) (r : Reg) (offset : ℕ) : Machine :=
  { m with memory := m.memory.store64 (m.slot offset) (m.x r) }

def loadX (m : Machine) (r : Reg) (offset : ℕ) : Machine :=
  m.setX r (m.memory.load64 (m.slot offset))

end Machine

def Op.exec : Op → Machine → Machine
  | .subSp imm, m => { m with sp := m.sp - imm }
  | .addSp imm, m => { m with sp := m.sp + imm }
  | .movSp d, m => m.setX d m.sp
  | .movImm d imm, m => m.setX d imm
  | .cmpImm n imm, m => { m with zero := m.x n = imm, carry := imm ≤ m.x n }
  | .stp a b offset, m => (m.storeX a offset).storeX b (offset + 8)
  | .ldp a b offset, m => (m.loadX a offset).loadX b (offset + 8)
  | .ldr a offset, m => m.loadX a offset
  | .ldrLiteral d value, m => m.setX d value
  | .movToSp n, m => { m with sp := m.x n }
  | .mrs d value, m => m.setX d value
  | .andImm d n imm, m => m.setX d (m.x n &&& imm)
  | .subReg d n n', m => m.setX d (m.x n - m.x n')
  | .subImm d n imm, m => m.setX d (m.x n - imm)
  | .cmpReg n n', m => { m with zero := m.x n = m.x n', carry := m.x n' ≤ m.x n }
  | .tstImm n imm, m => { m with zero := m.x n &&& imm = 0, carry := false }
  | .strbZeroPost n imm, m =>
      { m with memory := m.memory.write (m.x n) [0] }.setX n (m.x n + imm)
  | .strZeroPost n imm, m =>
      { m with memory := m.memory.store64 (m.x n) 0 }.setX n (m.x n + imm)
  | .wfe, m => m

/-- The addresses at which an instruction stores 8 bytes. -/
def Op.wordStores : Op → Machine → List UInt64
  | .stp _ _ offset, m => [m.slot offset, m.slot (offset + 8)]
  | .strZeroPost n _, m => [m.x n]
  | _, _ => []

/-- The functions that a program calls, and the addresses of its items. -/
structure Environment (φ : Type) : Type where
  call : φ → Machine → Option Machine
  address : ℕ → UInt64

/-- A call leaves the address to return to in x30. -/
def Environment.isa {φ : Type} (e : Environment φ) : Isa Op Condition φ Machine where
  exec := Op.exec
  holds := Condition.holds
  link := fun pc m => m.setX 30 (e.address pc)
  call := e.call

/-- Instructions in a row. -/
def execAll (ops : List Op) (m : Machine) : Machine := ops.foldl (fun m op => op.exec m) m

theorem execAll_cons (op : Op) (ops : List Op) (m : Machine) :
    execAll (op :: ops) m = execAll ops (op.exec m) := rfl

theorem execAll_append (ops ops' : List Op) (m : Machine) :
    execAll (ops ++ ops') m = execAll ops' (execAll ops m) :=
  List.foldl_append

/-- A run through instructions in a row. -/
theorem comes_execAll {ν φ : Type} [DecidableEq ν] {e : Environment φ}
    {p : Program Op Condition ν φ} {c : Config Machine} {ops : List Op}
    {code : List (Item Op Condition ν φ)} {m : Machine}
    (comes : Comes e.isa p c (ops.map .op ++ code) m) : Comes e.isa p c code (execAll ops m) :=
  comes.ops

/-! ## Runs with aligned stores -/

section Aligned

variable {ν φ : Type} [DecidableEq ν] (e : Environment φ) (p : Program Op Condition ν φ)

/-- The next instruction stores words at aligned addresses only. -/
def WordsAligned (c : Config Machine) : Prop :=
  ∀ op, p[c.pc]? = some (.op op) → ∀ a ∈ op.wordStores c.machine, a.toNat % 8 = 0

/-- A run in which all words are stored at aligned addresses. -/
abbrev AlignedRun : Config Machine → Config Machine → Prop :=
  ReachesWhile e.isa p (WordsAligned p)

variable {e p} {c : Config Machine} {i j : ℕ} {m : Machine} {o : Op} {condition : Condition}
  {target : Target ν}

theorem AlignedRun.op (run : AlignedRun e p c ⟨i, m⟩) (here : p[i]? = some (.op o))
    (aligned : ∀ a ∈ o.wordStores m, a.toNat % 8 = 0) :
    AlignedRun e p c ⟨i + 1, o.exec m⟩ := by
  refine ReachesWhile.op run here fun op' here' => ?_
  rw [here] at here'
  cases here'
  exact aligned

theorem AlignedRun.label {n : ℕ} (run : AlignedRun e p c ⟨i, m⟩)
    (here : p[i]? = some (.label n)) : AlignedRun e p c ⟨i + 1, m⟩ := by
  refine ReachesWhile.label run here fun op' here' => ?_
  rw [here] at here'
  cases here'

theorem AlignedRun.skip (run : AlignedRun e p c ⟨i, m⟩)
    (here : p[i]? = some (.branch condition target)) (fails : condition.holds m = false) :
    AlignedRun e p c ⟨i + 1, m⟩ := by
  refine ReachesWhile.skip run here fails fun op' here' => ?_
  rw [here] at here'
  cases here'

theorem AlignedRun.branch (run : AlignedRun e p c ⟨i, m⟩)
    (here : p[i]? = some (.branch condition target)) (holds : condition.holds m = true)
    (found : find p i target = some j) : AlignedRun e p c ⟨j, m⟩ := by
  refine ReachesWhile.branch run here holds found fun op' here' => ?_
  rw [here] at here'
  cases here'

/-- A run of local code is one of a program that has it. -/
theorem AlignedRun.within {front code rest : Program Op Condition ν φ}
    {d : Config Machine} (isLocal : ∀ item ∈ code, item.isLocal = true)
    (run : AlignedRun e code ⟨i, m⟩ d) :
    AlignedRun e (front ++ (code ++ rest)) ⟨front.length + i, m⟩
      ⟨front.length + d.pc, d.machine⟩ := by
  refine ReachesWhile.within isLocal (fun j n inside aligned op here => ?_) run
  rw [getElem?_within inside] at here
  exact aligned op here

end Aligned

/-! ## Registers and slots -/

namespace Machine

variable {m : Machine} {r s : Reg} {value : UInt64} {offset : ℕ}

@[simp] theorem setX_sp : (m.setX r value).sp = m.sp := rfl

@[simp] theorem setX_memory : (m.setX r value).memory = m.memory := rfl

@[simp] theorem setX_x_same : (m.setX r value).x r = value := by simp [setX]

theorem setX_x_of_ne (other : s ≠ r) : (m.setX r value).x s = m.x s := by
  simp [setX, other]

@[simp] theorem storeX_sp : (m.storeX r offset).sp = m.sp := by rw [storeX]

@[simp] theorem storeX_x : (m.storeX r offset).x = m.x := by rw [storeX]

theorem storeX_memory :
    (m.storeX r offset).memory = m.memory.store64 (m.slot offset) (m.x r) := by rw [storeX]

theorem loadX_memory : (m.loadX r offset).memory = m.memory := by rw [loadX, setX_memory]

/-- Storing and loading leave the slots where they are. -/
theorem slot_storeX {i : ℕ} : (m.storeX r offset).slot i = m.slot i := by
  rw [slot, storeX_sp, slot]

theorem slot_loadX {i : ℕ} : (m.loadX r offset).slot i = m.slot i := by
  rw [slot, loadX, setX_sp, slot]

/-- The slot of a register, and the offset of the slot. -/
abbrev Slot : Type := Reg × ℕ

def storeAll (m : Machine) (slots : List Slot) : Machine :=
  slots.foldl (fun m s => m.storeX s.1 s.2) m

def loadAll (m : Machine) (slots : List Slot) : Machine :=
  slots.foldl (fun m s => m.loadX s.1 s.2) m

variable {slots : List Slot}

theorem storeAll_cons (s : Slot) : m.storeAll (s :: slots) = (m.storeX s.1 s.2).storeAll slots :=
  List.foldl_cons ..

theorem loadAll_cons (s : Slot) : m.loadAll (s :: slots) = (m.loadX s.1 s.2).loadAll slots :=
  List.foldl_cons ..

@[simp] theorem storeAll_sp : (m.storeAll slots).sp = m.sp := by
  induction slots generalizing m with
  | nil => rfl
  | cons s slots ih => rw [storeAll_cons, ih, storeX_sp]

@[simp] theorem storeAll_x : (m.storeAll slots).x = m.x := by
  induction slots generalizing m with
  | nil => rfl
  | cons s slots ih => rw [storeAll_cons, ih, storeX_x]

/-- A word apart from the slots keeps its value. -/
theorem storeAll_apart {i : ℕ} (small : i + 8 < 2 ^ 64)
    (apart : ∀ s ∈ slots, s.2 + 8 < 2 ^ 64 ∧ Memory.Apart s.2 i) :
    (m.storeAll slots).memory.load64 (m.slot i) = m.memory.load64 (m.slot i) := by
  induction slots generalizing m with
  | nil => rfl
  | cons s slots ih =>
      obtain ⟨⟨small', first⟩, apart⟩ := List.forall_mem_cons.mp apart
      have rest := ih (m := m.storeX s.1 s.2) apart
      rw [slot_storeX] at rest
      rw [storeAll_cons, rest, storeX_memory]
      exact Memory.load64_store64_of_apart _ _ _ small' small first

/-- Every slot holds its register. -/
theorem storeAll_saved (small : ∀ s ∈ slots, s.2 + 8 < 2 ^ 64)
    (apart : slots.Pairwise fun s t => Memory.Apart t.2 s.2) :
    ∀ s ∈ slots, (m.storeAll slots).memory.load64 (m.slot s.2) = m.x s.1 := by
  induction slots generalizing m with
  | nil => exact List.forall_mem_nil _
  | cons s slots ih =>
      obtain ⟨small', small⟩ := List.forall_mem_cons.mp small
      obtain ⟨first, apart⟩ := List.pairwise_cons.mp apart
      have rest := ih (m := m.storeX s.1 s.2) small apart
      have kept := storeAll_apart (m := m.storeX s.1 s.2) small'
        fun t member => ⟨small t member, first t member⟩
      simp only [slot_storeX, storeX_x] at rest kept
      rw [storeAll_cons]
      refine List.forall_mem_cons.mpr ⟨?_, rest⟩
      rw [kept, storeX_memory]
      exact Memory.load64_store64 _ _ _

/-- Bytes that are in no slot are left. -/
theorem storeAll_outside {a : UInt64} (outside : ∀ s ∈ slots, 8 ≤ (a - m.slot s.2).toNat) :
    (m.storeAll slots).memory a = m.memory a := by
  induction slots generalizing m with
  | nil => rfl
  | cons s slots ih =>
      obtain ⟨first, rest⟩ := List.forall_mem_cons.mp outside
      have later := ih (m := m.storeX s.1 s.2)
      simp only [slot_storeX] at later
      rw [storeAll_cons, later rest, storeX_memory]
      refine Memory.write_outside ?_
      rw [Memory.length_bytesOf]
      exact first

@[simp] theorem loadAll_sp : (m.loadAll slots).sp = m.sp := by
  induction slots generalizing m with
  | nil => rfl
  | cons s slots ih => rw [loadAll_cons, ih, loadX, setX_sp]

@[simp] theorem loadAll_memory : (m.loadAll slots).memory = m.memory := by
  induction slots generalizing m with
  | nil => rfl
  | cons s slots ih => rw [loadAll_cons, ih, loadX_memory]

theorem loadAll_x_of_notMem (other : r ∉ slots.map Prod.fst) :
    (m.loadAll slots).x r = m.x r := by
  induction slots generalizing m with
  | nil => rfl
  | cons s slots ih =>
      obtain ⟨first, rest⟩ := List.ne_and_not_mem_of_not_mem_cons other
      rw [loadAll_cons, ih rest, loadX, setX_x_of_ne first]

/-- Every register gets its slot. -/
theorem loadAll_x (distinct : (slots.map Prod.fst).Nodup) :
    ∀ s ∈ slots, (m.loadAll slots).x s.1 = m.memory.load64 (m.slot s.2) := by
  induction slots generalizing m with
  | nil => exact List.forall_mem_nil _
  | cons s slots ih =>
      obtain ⟨first, distinct⟩ := List.nodup_cons.mp distinct
      have rest := ih (m := m.loadX s.1 s.2) distinct
      simp only [slot_loadX, loadX_memory] at rest
      rw [loadAll_cons]
      refine List.forall_mem_cons.mpr ⟨?_, rest⟩
      rw [loadAll_x_of_notMem first, loadX, setX_x_same]

end Machine

/-! ## Rows of spills and reloads -/

/-- The registers that a spill or reload moves, and their slots. -/
def Op.slots : Op → List Machine.Slot
  | .stp a b offset => [(a, offset), (b, offset + 8)]
  | .ldp a b offset => [(a, offset), (b, offset + 8)]
  | .ldr a offset => [(a, offset)]
  | _ => []

def Op.isSpill : Op → Bool
  | .stp _ _ _ => true
  | _ => false

def Op.isReload : Op → Bool
  | .ldp _ _ _ => true
  | .ldr _ _ => true
  | _ => false

theorem execAll_spills {ops : List Op} (spills : ∀ op ∈ ops, op.isSpill) (m : Machine) :
    execAll ops m = m.storeAll (ops.flatMap Op.slots) := by
  induction ops generalizing m with
  | nil => rfl
  | cons op ops ih =>
      obtain ⟨first, rest⟩ := List.forall_mem_cons.mp spills
      cases op with
      | stp a b offset =>
          rw [execAll_cons, ih rest, List.flatMap_cons, Op.slots, List.cons_append,
            List.singleton_append, Machine.storeAll_cons, Machine.storeAll_cons, Op.exec]
      | _ => cases first

theorem execAll_reloads {ops : List Op} (reloads : ∀ op ∈ ops, op.isReload) (m : Machine) :
    execAll ops m = m.loadAll (ops.flatMap Op.slots) := by
  induction ops generalizing m with
  | nil => rfl
  | cons op ops ih =>
      obtain ⟨first, rest⟩ := List.forall_mem_cons.mp reloads
      cases op with
      | ldp a b offset =>
          rw [execAll_cons, ih rest, List.flatMap_cons, Op.slots, List.cons_append,
            List.singleton_append, Machine.loadAll_cons, Machine.loadAll_cons, Op.exec]
      | ldr a offset =>
          rw [execAll_cons, ih rest, List.flatMap_cons, Op.slots, List.singleton_append,
            Machine.loadAll_cons, Op.exec]
      | _ => cases first

end Arm64
