import CharcoalOS.Arch.Boot
import CharcoalOS.Lib.Cores
import CharcoalOS.Lib.Embedding

/-!
# From the reset to `kmain`

All of `_start` in `platform/virt/boot.s` and `platform/rpi/boot.s`. Behind the code that clears
the bss, `rpi` leaves the hypervisor's exception level, and both boards set up the exception
vectors and floating point for EL1.

`first_core_starts`: the first core comes to `kmain` without a trap. `one_core_starts`: however
many cores there are, and in whatever order they do their steps, the others wait, and the first
one starts as it does alone.
-/

namespace CharcoalOS.Arch

open Arm64
open Assembly (Config Program Isa find ReachesWhile Embeds At)
open Effect (Lens)

/-! ## The processor -/

inductive SystemRegister : Type
  | vbarEl1
  | cpacrEl1
  | spEl1
  | cptrEl2
  | hcrEl2
  | cnthctlEl2
  | cntvoffEl2
  | elrEl2
  | spsrEl2
deriving DecidableEq, Repr

inductive Level : Type
  | el1
  | el2
deriving DecidableEq, Repr

structure Processor : Type where
  general : Machine
  system : SystemRegister → UInt64
  level : Level
  /-- The kinds of exceptions that are masked, four bits. -/
  daif : UInt64

/-- The symbols that code addresses are taken of. -/
inductive Symbol : Type
  | start
  | startEl1
deriving DecidableEq, Repr

/-- The C functions that are called. -/
inductive Entered : Type
  | kmain
  | halt
deriving DecidableEq, Repr

/-- The instructions of `boot.s`. -/
inductive StartOp : Type
  | general (op : Op)
  /-- `mrs xd, reg` -/
  | mrs (d : Reg) (register : SystemRegister)
  /-- `msr reg, xn` -/
  | msr (register : SystemRegister) (n : Reg)
  /-- `msr reg, xzr` -/
  | msrZero (register : SystemRegister)
  /-- `orr xd, xn, #imm` -/
  | orrImm (d n : Reg) (imm : UInt64)
  /-- `bic xd, xn, #imm` -/
  | bicImm (d n : Reg) (imm : UInt64)
  /-- `adr xd, symbol` -/
  | adr (d : Reg) (symbol : Symbol)
  | isb

/-- What `_start` is linked with. -/
structure Linked : Type where
  boot : Boot
  exceptionVectorsEl1 : UInt64
  symbol : Symbol → UInt64
  distinct : symbol .start ≠ symbol .startEl1
  /-- The addresses of the items. -/
  address : ℕ → UInt64
  kmain : Processor → Option Processor

/-- `1 << n` -/
def bit (n : UInt64) : UInt64 := 1 <<< n

/-- The field FPEN of CPACR_EL1. -/
def floatingBits : UInt64 := (3 : UInt64) <<< 20

namespace Processor

def setX (p : Processor) (r : Reg) (value : UInt64) : Processor :=
  { p with general := p.general.setX r value }

def setSystem (p : Processor) (r : SystemRegister) (value : UInt64) : Processor :=
  { p with system := Function.update p.system r value }

end Processor

/-- The part that the other instructions work on. -/
def general : Lens Processor Machine where
  get p := p.general
  set p m := { p with general := m }
  get_set _ _ := rfl
  set_get _ := rfl
  set_set _ _ _ := rfl

section Steps

variable (linked : Linked)

def StartOp.exec : StartOp → Processor → Processor
  | .general op, p => { p with general := op.exec p.general }
  | .mrs d register, p => p.setX d (p.system register)
  | .msr register n, p => p.setSystem register (p.general.x n)
  | .msrZero register, p => p.setSystem register 0
  | .orrImm d n imm, p => p.setX d (p.general.x n ||| imm)
  | .bicImm d n imm, p => p.setX d (p.general.x n &&& ~~~imm)
  | .adr d symbol, p => p.setX d (linked.symbol symbol)
  | .isb, p => p

/-- `halt` is an endless loop. -/
def Linked.isa : Isa StartOp Condition Entered Processor where
  exec := StartOp.exec linked
  holds condition p := condition.holds p.general
  link pc p := p.setX 30 (linked.address pc)
  call
    | .kmain => linked.kmain
    | .halt => fun _ => none

/-- What an exception return makes of the processor. -/
def Processor.returned (p : Processor) : Processor :=
  let spsr := p.system .spsrEl2
  { p with
    general := { p.general with
      sp := p.system .spEl1
      zero := spsr &&& bit 30 ≠ 0
      carry := spsr &&& bit 29 ≠ 0 }
    level := .el1
    daif := (spsr >>> 6) &&& 0xf }

/-- `eret`, from EL2 to the EL1 that has a stack pointer of its own and is in AArch64 state. All
other returns are left out. -/
def Linked.eret (p : Processor) : Option (Symbol × Processor) :=
  if p.level = .el2 ∧ p.system .spsrEl2 &&& 0x1f = 0x5 ∧ p.system .hcrEl2 &&& bit 31 ≠ 0 then
    if p.system .elrEl2 = linked.symbol .start then some (.start, p.returned)
    else if p.system .elrEl2 = linked.symbol .startEl1 then some (.startEl1, p.returned)
    else none
  else none

abbrev StartItem : Type := Assembly.Item StartOp Condition Symbol Entered

abbrev StartProgram : Type := Program StartOp Condition Symbol Entered

/-- One item; an exception return is an exit that goes on. -/
def Linked.step (program : StartProgram) (c : Config Processor) : Option (Config Processor) :=
  match program[c.pc]? with
  | some .exit => do
      let (symbol, p) ← linked.eret c.machine
      let pc ← find program c.pc (.symbol symbol)
      pure ⟨pc, p⟩
  | _ => Assembly.step linked.isa program c

end Steps

/-! ## The source -/

section Source

variable (linked : Linked)

/-- Up to where the bss is zero. -/
def Board.clear (board : Board) : Program Op Condition Symbol Entered :=
  board.start linked.boot []

/-- `rpi` drops to EL1. -/
def dropToEl1 : List StartOp :=
  [.mrs 5 .cptrEl2,
    .bicImm 5 5 (bit 10),
    .bicImm 5 5 (bit 31),
    .msr .cptrEl2 5,
    .general (.ldrLiteral 5 linked.boot.stackTop),
    .msr .spEl1 5,
    .mrs 5 .hcrEl2,
    .orrImm 5 5 (bit 31),
    .msr .hcrEl2 5,
    .mrs 5 .cnthctlEl2,
    .orrImm 5 5 3,
    .msr .cnthctlEl2 5,
    .msrZero .cntvoffEl2,
    .adr 5 .startEl1,
    .msr .elrEl2 5,
    .general (.movImm 5 0x3C5),
    .msr .spsrEl2 5,
    .isb]

def setUpEl1 : List StartOp :=
  [.general (.ldrLiteral 5 linked.exceptionVectorsEl1),
    .msr .vbarEl1 5,
    .mrs 5 .cpacrEl1,
    .orrImm 5 5 floatingBits,
    .msr .cpacrEl1 5,
    .isb]

/-- From EL1 on. -/
def enterKernel : StartProgram :=
  (setUpEl1 linked).map .op ++ [.call .kmain, .label 7, .call .halt]

/-- What follows the clearing. -/
def Board.enter : Board → StartProgram
  | .virt => enterKernel linked
  | .rpi => (dropToEl1 linked).map .op ++ (.exit :: .symbol .startEl1 :: enterKernel linked)

/-- `boot.s` -/
def Board.source (board : Board) : StartProgram :=
  [.symbol .start] ++
    ((board.clear linked).map (Assembly.Item.map .general id) ++ board.enter linked)

end Source

/-! ## Traps -/

/-- An access to the register does not trap. -/
def Processor.MayAccess (p : Processor) : SystemRegister → Prop
  | .vbarEl1 => True
  | .cpacrEl1 => p.level = .el1 → p.system .cptrEl2 &&& bit 31 = 0
  | _ => p.level = .el2

/-- The instruction does not trap: its words are aligned, and its register may be accessed. -/
def StartOp.Permitted (p : Processor) : StartOp → Prop
  | .general op => ∀ a ∈ op.wordStores p.general, a.toNat % 8 = 0
  | .mrs _ register => p.MayAccess register
  | .msr register _ => p.MayAccess register
  | .msrZero register => p.MayAccess register
  | _ => True

/-- The next instruction does not trap. -/
def NoTrap (program : StartProgram) (c : Config Processor) : Prop :=
  ∀ op, program[c.pc]? = some (.op op) → op.Permitted c.machine

/-- A run without a trap. -/
abbrev Linked.Reaches (linked : Linked) (board : Board) :
    Config Processor → Config Processor → Prop :=
  Relation.ReflTransGen fun c d =>
    NoTrap (board.source linked) c ∧ linked.step (board.source linked) c = some d

/-! ## Instructions in a row -/

section Rows

variable {linked : Linked} {board : Board} {program : StartProgram} {c d : Config Processor}

def execAll (linked : Linked) (ops : List StartOp) (p : Processor) : Processor :=
  ops.foldl (fun p op => op.exec linked p) p

/-- None of the instructions traps. -/
def PermittedAll (linked : Linked) : List StartOp → Processor → Prop
  | [], _ => True
  | op :: ops, p => op.Permitted p ∧ PermittedAll linked ops (op.exec linked p)

theorem step_of_isa (next : Assembly.step linked.isa program c = some d) :
    linked.step program c = some d := by
  rw [Linked.step]
  split
  · rename_i exit
    rw [Assembly.step, exit] at next
    cases next
  · exact next

theorem reaches_of_while
    (run : ReachesWhile linked.isa (board.source linked) (NoTrap (board.source linked)) c d) :
    linked.Reaches board c d :=
  Relation.ReflTransGen.mono (fun _ _ last => ⟨last.1, step_of_isa last.2⟩) _ _ run

theorem noTrap_of_not_op {item : StartItem} {pc : ℕ} {p : Processor}
    (here : program[pc]? = some item) (other : ∀ op, item ≠ .op op) : NoTrap program ⟨pc, p⟩ :=
  fun op at_ => absurd (Option.some.inj (here.symm.trans at_)) (other op)

theorem reaches_ops {ops : List StartOp} {code : StartProgram} {pc : ℕ} {p : Processor}
    (at_ : At (board.source linked) pc (ops.map .op ++ code))
    (permitted : PermittedAll linked ops p) :
    linked.Reaches board ⟨pc, p⟩ ⟨pc + ops.length, execAll linked ops p⟩ ∧
      At (board.source linked) (pc + ops.length) code := by
  induction ops generalizing pc p with
  | nil => exact ⟨.refl, at_⟩
  | cons op ops ih =>
      obtain ⟨now, later⟩ := permitted
      obtain ⟨run, there⟩ := ih at_.tail later
      have length : pc + (op :: ops).length = pc + 1 + ops.length := by
        rw [List.length_cons]
        omega
      rw [length]
      refine ⟨.head ⟨fun op' here => ?_, step_of_isa ?_⟩ run, there⟩
      · rw [show (board.source linked)[pc]? = some (.op op) from at_.head] at here
        cases here
        exact now
      · simp only [Assembly.step, show (board.source linked)[pc]? = some (.op op) from at_.head]
        rfl

theorem reaches_symbol {code : StartProgram} {pc : ℕ} {p : Processor} {symbol : Symbol}
    (at_ : At (board.source linked) pc (.symbol symbol :: code)) :
    linked.Reaches board ⟨pc, p⟩ ⟨pc + 1, p⟩ := by
  refine .single ⟨noTrap_of_not_op at_.head fun op same => ?_, step_of_isa ?_⟩
  · cases same
  · simp only [Assembly.step, at_.head]

end Rows

/-! ## The first core -/

section First

variable {linked : Linked} {board : Board} {p : Processor}

theorem embeds_general (linked : Linked) (e : Environment Entered) :
    Embeds e.isa linked.isa general StartOp.general :=
  ⟨fun _ _ => rfl, fun _ _ => rfl⟩

theorem clear_local : ∀ item ∈ board.clear linked, item.isLocal = true := by
  intro item member
  unfold Board.clear Board.start at member
  rw [List.append_nil] at member
  rcases List.mem_append.mp member with front | zero
  · exact front_local board item front
  · exact zeroBss_local item zero

theorem noTrap_map {code : Program Op Condition Symbol Entered} {i : ℕ} {m : Machine}
    (aligned : WordsAligned code ⟨i, m⟩) :
    NoTrap (code.map (Assembly.Item.map .general id)) ⟨i, general.set p m⟩ := by
  intro op here
  rw [List.getElem?_map] at here
  obtain ⟨item, there, same⟩ := Option.map_eq_some_iff.mp here
  cases item with
  | op o =>
      cases same
      exact aligned o there
  | _ => cases same

/-- The bss is cleared, on the processor's general part. -/
theorem reaches_clear (board : Board) (first : linked.boot.mpidrEl1 &&& 3 = 0) (p : Processor) :
    ∃ m : Machine,
      (∀ a, m.memory a =
        if linked.boot.bssStart ≤ a ∧ a < linked.boot.bssEnd then 0 else p.general.memory a) ∧
      (∀ r : Reg, r ≠ 5 → r ≠ 6 → r ≠ 7 → m.x r = p.general.x r) ∧
      m.sp = board.stack linked.boot p.general ∧
      linked.Reaches board ⟨0, p⟩ ⟨1 + (board.clear linked).length, { p with general := m }⟩ := by
  let e : Environment Entered := ⟨fun _ _ => none, linked.address⟩
  obtain ⟨m, memory, registers, stack, run⟩ := first_core_clears (e := e) board first
    ([] : Program Op Condition Symbol Entered) p.general
  refine ⟨m, memory, registers, stack, ?_⟩
  have start : At (board.source linked) 0 [.symbol .start] := ⟨_, rfl⟩
  refine (reaches_symbol start).trans (reaches_of_while ?_)
  have inner : ReachesWhile linked.isa ((board.clear linked).map (Assembly.Item.map .general id))
      (NoTrap _) ⟨0, general.set p p.general⟩ ⟨_, general.set p m⟩ :=
    run.embed (embeds_general linked e) clear_local fun i n _ aligned => noTrap_map aligned
  have whole : ReachesWhile linked.isa (board.source linked) (NoTrap (board.source linked))
      ⟨[Assembly.Item.symbol Symbol.start].length + 0, _⟩ _ :=
    inner.within (fun item member => ?_) fun i n inside allowed op here => ?_
  · have length : (board.clear linked).length = (board.front linked.boot :
        Program Op Condition Symbol Entered).length + (zeroBss linked.boot :
        Program Op Condition Symbol Entered).length := by
      rw [Board.clear, Board.start, List.append_nil, List.length_append]
    rw [length]
    exact whole
  · obtain ⟨item', member', rfl⟩ := List.mem_map.mp member
    rw [Assembly.isLocal_map]
    exact clear_local item' member'
  · rw [Board.source, Assembly.getElem?_within inside] at here
    exact allowed op here

theorem at_enter (board : Board) :
    At (board.source linked) (1 + (board.clear linked).length) (board.enter linked) := by
  let front : StartProgram :=
    [.symbol .start] ++ (board.clear linked).map (Assembly.Item.map .general id)
  have there : At (front ++ board.enter linked) front.length (board.enter linked) :=
    At.of_append front
  rw [List.length_append, List.length_map, List.append_assoc] at there
  exact there

/-- The system registers behind `_start`. -/
def Board.configured (linked : Linked) (p : Processor) : Board → SystemRegister → UInt64
  | _, .vbarEl1 => linked.exceptionVectorsEl1
  | _, .cpacrEl1 => p.system .cpacrEl1 ||| floatingBits
  | .rpi, .spEl1 => linked.boot.stackTop
  | .rpi, .cptrEl2 => p.system .cptrEl2 &&& ~~~bit 10 &&& ~~~bit 31
  | .rpi, .hcrEl2 => p.system .hcrEl2 ||| bit 31
  | .rpi, .cnthctlEl2 => p.system .cnthctlEl2 ||| 3
  | .rpi, .cntvoffEl2 => 0
  | .rpi, .elrEl2 => linked.symbol .startEl1
  | .rpi, .spsrEl2 => 0x3C5
  | .virt, r => p.system r

/-- The exceptions that are masked behind `_start`. -/
def Board.masked (p : Processor) : Board → UInt64
  | .virt => p.daif
  | .rpi => 0xf

/-- How a board's cores come out of reset: those of `virt` have no EL2 that could trap. -/
def Board.Reset (p : Processor) : Board → Prop
  | .virt => p.level = .el1 ∧ p.system .cptrEl2 &&& bit 31 = 0
  | .rpi => p.level = .el2

/-! ### At EL1 -/

theorem and_not_and (a b : UInt64) : a &&& ~~~b &&& b = 0 := by
  rw [UInt64.and_assoc, UInt64.not_and_self, UInt64.and_zero]

theorem permitted_setUp (open_ : p.system .cptrEl2 &&& bit 31 = 0) :
    PermittedAll linked (setUpEl1 linked) p :=
  ⟨List.forall_mem_nil _, trivial, fun _ => open_, trivial, fun _ => open_, trivial, trivial⟩

theorem permitted_drop (level : p.level = .el2) :
    PermittedAll linked (dropToEl1 linked) p :=
  ⟨level, trivial, trivial, level, List.forall_mem_nil _, level, level, trivial, level, level,
    trivial, level, level, trivial, level, List.forall_mem_nil _, level, trivial, trivial⟩

/-- What is left of the processor by code that only moves x5 and system registers. -/
structure Spared (p n : Processor) : Prop where
  memory : n.general.memory = p.general.memory
  registers : ∀ r : Reg, r ≠ 5 → n.general.x r = p.general.x r

theorem spared_setUp (p : Processor) : Spared p (execAll linked (setUpEl1 linked) p) := by
  refine ⟨rfl, fun r five => ?_⟩
  show (((p.general.setX 5 _).setX 5 _).setX 5 _).x r = _
  simp only [Machine.setX_x_of_ne five]

theorem spared_drop (p : Processor) : Spared p (execAll linked (dropToEl1 linked) p) := by
  refine ⟨rfl, fun r five => ?_⟩
  simp only [execAll, dropToEl1, List.foldl_cons, List.foldl_nil, StartOp.exec, Processor.setX,
    Processor.setSystem, Op.exec, Machine.setX_x_of_ne five]

/-- What `kmain` finds. -/
structure Started (linked : Linked) (board : Board) (p n : Processor) : Prop where
  memory : ∀ a, n.general.memory a =
    if linked.boot.bssStart ≤ a ∧ a < linked.boot.bssEnd then 0 else p.general.memory a
  registers : ∀ r : Reg, r ≠ 5 → r ≠ 6 → r ≠ 7 → n.general.x r = p.general.x r
  sp : n.general.sp = linked.boot.stackTop
  level : n.level = .el1
  system : ∀ r, n.system r = board.configured linked p r
  masked : n.daif = board.masked p

/-- The exception return of `rpi`. -/
theorem reaches_startEl1 {pc : ℕ} {n : Processor}
    (at_ : At (Board.rpi.source linked) pc (.exit :: .symbol .startEl1 :: enterKernel linked))
    (level : n.level = .el2) (spsr : n.system .spsrEl2 = 0x3C5)
    (wide : n.system .hcrEl2 &&& bit 31 ≠ 0) (elr : n.system .elrEl2 = linked.symbol .startEl1) :
    ∃ pc', linked.Reaches .rpi ⟨pc, n⟩ ⟨pc', n.returned⟩ ∧
      At (Board.rpi.source linked) pc' (enterKernel linked) := by
  have returns : linked.eret n = some (.startEl1, n.returned) := by
    unfold Linked.eret
    rw [if_pos ⟨level, by rw [spsr]; rfl, wide⟩, if_neg (elr ▸ linked.distinct.symm), if_pos elr]
  let front : StartProgram := [.symbol .start] ++
    ((Board.rpi.clear linked).map (Assembly.Item.map .general id) ++
      ((dropToEl1 linked).map .op ++ [.exit]))
  have whole : Board.rpi.source linked = front ++ .symbol .startEl1 :: enterKernel linked := by
    simp only [Board.source, Board.enter, front, List.append_assoc, List.cons_append,
      List.nil_append]
  have fresh : ∀ item ∈ front, item.isSymbol Symbol.startEl1 = false := by
    intro item member
    rcases List.mem_append.mp member with start | rest
    · rw [List.mem_singleton.mp start]
      rfl
    rcases List.mem_append.mp rest with clear | rest
    · obtain ⟨item', member', rfl⟩ := List.mem_map.mp clear
      exact Assembly.isSymbol_of_isLocal (Assembly.isLocal_map.trans (clear_local item' member')) _
    rcases List.mem_append.mp rest with drop | exit
    · exact Assembly.isSymbol_ops _ _ item drop
    · rw [List.mem_singleton.mp exit]
      rfl
  have found : find (Board.rpi.source linked) pc (.symbol .startEl1) = some front.length := by
    rw [whole]
    exact Assembly.find_symbol pc fresh
  have next : linked.step (Board.rpi.source linked) ⟨pc, n⟩ = some ⟨front.length, n.returned⟩ := by
    rw [Linked.step, at_.head]
    dsimp only
    rw [returns, Option.bind_eq_bind, Option.bind_some]
    dsimp only
    rw [found]
    rfl
  have there :
      At (Board.rpi.source linked) front.length (.symbol .startEl1 :: enterKernel linked) :=
    whole ▸ At.of_append front
  refine ⟨front.length + 1, .head ⟨noTrap_of_not_op at_.head fun op same => ?_, next⟩
    (reaches_symbol there), there.tail⟩
  cases same

/-- From EL1 on, up to the call. -/
theorem reaches_kmain {pc : ℕ} {n : Processor}
    (at_ : At (board.source linked) pc (enterKernel linked))
    (open_ : n.system .cptrEl2 &&& bit 31 = 0) :
    ∃ pc', linked.Reaches board ⟨pc, n⟩ ⟨pc', execAll linked (setUpEl1 linked) n⟩ ∧
      At (board.source linked) pc' [.call .kmain, .label 7, .call .halt] := by
  obtain ⟨run, there⟩ := reaches_ops at_ (permitted_setUp open_)
  exact ⟨_, run, there⟩

theorem or_and_self (a b : UInt64) : (a ||| b) &&& b = b := by
  refine UInt64.eq_of_toBitVec_eq (BitVec.eq_of_getElem_eq fun i inside => ?_)
  simpa using Or.inr

/-- **The first core comes to `kmain`** without a trap, and with a machine that `Started` says. -/
theorem first_core_reaches (first : linked.boot.mpidrEl1 &&& 3 = 0) (reset : board.Reset p) :
    ∃ pc n, Started linked board p n ∧ linked.Reaches board ⟨0, p⟩ ⟨pc, n⟩ ∧
      At (board.source linked) pc [.call .kmain, .label 7, .call .halt] := by
  obtain ⟨m, memory, registers, stack, cleared⟩ := reaches_clear board first p
  have enter : At (board.source linked) _ (board.enter linked) := at_enter board
  cases board with
  | virt =>
      obtain ⟨level, open_⟩ := reset
      obtain ⟨pc, run, there⟩ := reaches_kmain (n := { p with general := m }) enter open_
      have kept : Spared _ (execAll linked (setUpEl1 linked) { p with general := m }) :=
        spared_setUp _
      refine ⟨pc, execAll linked (setUpEl1 linked) { p with general := m },
        ⟨fun a => ?_, fun r five six seven => ?_, stack, level, fun r => ?_, rfl⟩,
        cleared.trans run, there⟩
      · rw [kept.memory, memory]
      · rw [kept.registers r five, registers r five six seven]
      · cases r <;> rfl
  | rpi =>
      let p₁ : Processor := { p with general := m }
      let p₂ := execAll linked (dropToEl1 linked) p₁
      obtain ⟨dropped, exit⟩ := reaches_ops enter (permitted_drop (p := p₁) reset)
      have wide : p₂.system .hcrEl2 &&& bit 31 ≠ 0 := by
        rw [show p₂.system .hcrEl2 = p.system .hcrEl2 ||| bit 31 from rfl, or_and_self]
        decide
      obtain ⟨pc₃, returned, kernel⟩ := reaches_startEl1 (n := p₂) exit reset rfl wide rfl
      have open_ : p₂.returned.system .cptrEl2 &&& bit 31 = 0 := and_not_and _ _
      obtain ⟨pc, run, there⟩ := reaches_kmain kernel open_
      have drop : Spared p₁ p₂ := spared_drop p₁
      have setUp : Spared p₂.returned (execAll linked (setUpEl1 linked) p₂.returned) :=
        spared_setUp _
      refine ⟨pc, execAll linked (setUpEl1 linked) p₂.returned,
        ⟨fun a => ?_, fun r five six seven => ?_, rfl, rfl, fun r => ?_, ?_⟩,
        ((cleared.trans dropped).trans returned).trans run, there⟩
      · rw [setUp.memory]
        exact (congrFun drop.memory a).trans (memory a)
      · rw [setUp.registers r five]
        exact (drop.registers r five).trans (registers r five six seven)
      · cases r <;> rfl
      · show ((0x3C5 : UInt64) >>> 6) &&& 0xf = 0xf
        decide

/-- What the kernel relies on. -/
structure KernelReady (linked : Linked) (board : Board) (n : Processor) : Prop where
  /-- The globals without an initial value are zero. -/
  globals : ∀ a : UInt64, linked.boot.bssStart.toNat ≤ a.toNat →
    a.toNat + 8 ≤ linked.boot.bssEnd.toNat → n.general.memory.load64 a = 0
  vectors : n.system .vbarEl1 = linked.exceptionVectorsEl1
  /-- Floating point does not trap. -/
  floating : n.system .cpacrEl1 &&& floatingBits = floatingBits
  hypervisor : board = .rpi → n.system .cptrEl2 &&& bit 10 = 0
  /-- EL1 may use the timer, which has no offset. -/
  timer : board = .rpi → n.system .cnthctlEl2 &&& 3 = 3 ∧ n.system .cntvoffEl2 = 0
  /-- No interrupt is taken before the kernel unmasks them. -/
  masked : board = .rpi → n.daif = 0xf

theorem configured_cpacr :
    board.configured linked p .cpacrEl1 = p.system .cpacrEl1 ||| floatingBits := by
  cases board <;> rfl

theorem Started.ready {n : Processor} (started : Started linked board p n) :
    KernelReady linked board n := by
  have system := started.system
  refine ⟨fun a above below => Memory.load64_of_zero fun i less => ?_, ?_, ?_, ?_, ?_, ?_⟩
  · have bound := linked.boot.bssEnd.toNat_lt
    have offset : (a + UInt64.ofNat i).toNat = a.toNat + i := by
      rw [UInt64.toNat_add, UInt64.toNat_ofNat_of_lt' (show i < 2 ^ 64 by omega)]
      omega
    rw [started.memory, if_pos]
    rw [UInt64.le_iff_toNat_le, UInt64.lt_iff_toNat_lt, offset]
    omega
  · rw [system]
    cases board <;> rfl
  · rw [system, configured_cpacr]
    exact or_and_self _ _
  · rintro rfl
    rw [system]
    show (_ &&& ~~~bit 10) &&& ~~~bit 31 &&& bit 10 = 0
    rw [UInt64.and_assoc (_ &&& ~~~bit 10), UInt64.and_comm (~~~bit 31), ← UInt64.and_assoc,
      and_not_and, UInt64.zero_and]
  · rintro rfl
    rw [system, system]
    exact ⟨or_and_self _ _, rfl⟩
  · rintro rfl
    exact started.masked

/-- **The first core enters the kernel**, and waits when it comes back: from every state after
reset, `_start` runs without a trap to the call of `kmain`, with the bss clear and EL1 set up. -/
theorem first_core_starts (first : linked.boot.mpidrEl1 &&& 3 = 0) (reset : board.Reset p) :
    ∃ pc n, linked.Reaches board ⟨0, p⟩ ⟨pc, n⟩ ∧
      (board.source linked)[pc]? = some (.call .kmain) ∧
      Started linked board p n ∧ KernelReady linked board n ∧
      ∀ n', linked.kmain (n.setX 30 (linked.address (pc + 1))) = some n' →
        ∃ pc', linked.Reaches board ⟨pc, n⟩ ⟨pc', n'⟩ ∧
          (board.source linked)[pc']? = some (.call .halt) ∧
          linked.step (board.source linked) ⟨pc', n'⟩ = none := by
  obtain ⟨pc, n, started, run, there⟩ := first_core_reaches first reset
  refine ⟨pc, n, run, there.head, started, started.ready, fun n' returns => ?_⟩
  have noTrap {item : StartItem} {pc : ℕ} (p : Processor)
      (here : (board.source linked)[pc]? = some item)
      (other : item.isLabel 7 ∨ item = .call .kmain) : NoTrap (board.source linked) ⟨pc, p⟩ := by
    refine noTrap_of_not_op here fun op same => ?_
    subst same
    rcases other with label | call
    · cases label
    · cases call
  have called : linked.step (board.source linked) ⟨pc, n⟩ = some ⟨pc + 1, n'⟩ := by
    refine step_of_isa ?_
    simp only [Assembly.step, there.head]
    exact congrArg (Option.map _) returns
  have label : linked.step (board.source linked) ⟨pc + 1, n'⟩ = some ⟨pc + 2, n'⟩ := by
    refine step_of_isa ?_
    simp only [Assembly.step, there.tail.head]
  refine ⟨pc + 2, .head ⟨noTrap n there.head (Or.inr rfl), called⟩
    (.single ⟨noTrap n' there.tail.head (Or.inl rfl), label⟩), there.tail.tail.head, ?_⟩
  rw [Linked.step, there.tail.tail.head]
  dsimp only
  rw [Assembly.step, there.tail.tail.head]
  rfl

/-- A kernel that comes back. -/
def returningKernel : Linked where
  boot := ⟨0x90000, 0, 0x81004, 0x81100⟩
  exceptionVectorsEl1 := 0x80800
  symbol
    | .start => 0x80000
    | .startEl1 => 0x800a0
  distinct := by decide
  address n := 0x80000 + 4 * UInt64.ofNat n
  kmain := some

/-- A processor after reset, at the level of the hypervisor. -/
def freshProcessor : Processor :=
  ⟨⟨fun _ => 0, 0, fun _ => 0xff, false, false⟩, fun _ => 0, .el2, 0⟩

/-- The first core of `rpi` comes back from the kernel. -/
theorem first_core_starts_rpi :
    ∃ pc n n', returningKernel.Reaches .rpi ⟨0, freshProcessor⟩ ⟨pc, n⟩ ∧
      KernelReady returningKernel .rpi n ∧ returningKernel.Reaches .rpi ⟨0, freshProcessor⟩ n' ∧
      (Board.rpi.source returningKernel)[n'.pc]? = some (.call .halt) := by
  obtain ⟨pc, n, run, -, -, ready, comesBack⟩ :=
    first_core_starts (show returningKernel.boot.mpidrEl1 &&& 3 = 0 by decide)
      (show Board.rpi.Reset freshProcessor from rfl)
  obtain ⟨pc', more, halts, -⟩ := comesBack _ rfl
  exact ⟨pc, n, _, run, ready, run.trans more, halts⟩

end First

/-! ## All cores -/

section Cores

variable {linked : Linked} {board : Board}

/-- The memory that the cores share. -/
def sharedMemory : Lens (Config Processor) (UInt64 → UInt8) where
  get c := c.machine.general.memory
  set c memory :=
    ⟨c.pc, { c.machine with general := { c.machine.general with memory := memory } }⟩
  get_set _ _ := rfl
  set_get _ := rfl
  set_set _ _ _ := rfl

/-- The core with this affinity register. -/
def Linked.onCore (linked : Linked) (mpidrEl1 : UInt64) : Linked :=
  { linked with boot := { linked.boot with mpidrEl1 := mpidrEl1 } }

/-- Where the core check begins. -/
def Board.check : Board → ℕ
  | .virt => 3
  | .rpi => 1

/-- A core that has not come past the check, and that will not. -/
structure Parked (linked : Linked) (board : Board) (c : Config Processor) : Prop where
  before : c.pc < board.check + 6
  affinity : c.pc = board.check + 1 → c.machine.general.x 7 = linked.boot.mpidrEl1
  number : c.pc = board.check + 2 → c.machine.general.x 7 = linked.boot.mpidrEl1 &&& 3

section Step

variable {c d : Config Processor} {p : Processor} {pc : ℕ}

/-- It goes on to an item where x7 does not matter. -/
theorem parked_goes (next : ℕ) {p : Processor}
    (known : linked.step (board.source linked) c = some ⟨next, p⟩)
    (before : next < board.check + 6) (affinity : next ≠ board.check + 1)
    (number : next ≠ board.check + 2) (same : p.general.memory = c.machine.general.memory) :
    ∃ d, linked.step (board.source linked) c = some d ∧ Parked linked board d ∧
      sharedMemory.get d = sharedMemory.get c :=
  ⟨⟨next, p⟩, known,
    ⟨before, fun here => absurd here affinity, fun here => absurd here number⟩, same⟩

/-- It reads the affinity register. -/
theorem Parked.reads (affinity : p.general.x 7 = linked.boot.mpidrEl1) :
    Parked linked board ⟨board.check + 1, p⟩ :=
  ⟨by dsimp only; omega, fun _ => affinity, fun here => by dsimp only at here; omega⟩

/-- It keeps the number of the core. -/
theorem Parked.masks (number : p.general.x 7 = linked.boot.mpidrEl1 &&& 3) :
    Parked linked board ⟨board.check + 2, p⟩ :=
  ⟨by dsimp only; omega, fun here => by dsimp only at here; omega, fun _ => number⟩

/-- `cbz` does not branch in the other cores. -/
theorem step_cbz (here : (board.source linked)[pc]? = some (.branch (.cbz 7) (.forward 0)))
    (other : linked.boot.mpidrEl1 &&& 3 ≠ 0)
    (number : p.general.x 7 = linked.boot.mpidrEl1 &&& 3) :
    linked.step (board.source linked) ⟨pc, p⟩ = some ⟨pc + 1, p⟩ := by
  have skips : linked.isa.holds (.cbz 7) p = false := decide_eq_false (number ▸ other)
  refine step_of_isa ?_
  simp only [Assembly.step, here, skips]
  rfl

/-- A core other than the first goes on in the check, and does not touch memory. -/
theorem Parked.step (parked : Parked linked board c) (other : linked.boot.mpidrEl1 &&& 3 ≠ 0) :
    ∃ d, linked.step (board.source linked) c = some d ∧ Parked linked board d ∧
      sharedMemory.get d = sharedMemory.get c := by
  obtain ⟨pc, p⟩ := c
  obtain ⟨before, affinity, number⟩ := parked
  cases board with
  | virt =>
      change pc < 9 at before
      interval_cases pc
      · exact parked_goes 1 rfl (by decide) (by decide) (by decide) rfl
      · exact parked_goes 2 rfl (by decide) (by decide) (by decide) rfl
      · exact parked_goes 3 rfl (by decide) (by decide) (by decide) rfl
      · exact ⟨_, rfl, .reads Machine.setX_x_same, rfl⟩
      · exact ⟨_, rfl, .masks (Machine.setX_x_same.trans (by rw [affinity rfl])), rfl⟩
      · exact parked_goes 6 (step_cbz rfl other (number rfl)) (by decide) (by decide)
          (by decide) rfl
      · exact parked_goes 7 rfl (by decide) (by decide) (by decide) rfl
      · exact parked_goes 8 rfl (by decide) (by decide) (by decide) rfl
      · exact parked_goes 6 rfl (by decide) (by decide) (by decide) rfl
  | rpi =>
      change pc < 7 at before
      interval_cases pc
      · exact parked_goes 1 rfl (by decide) (by decide) (by decide) rfl
      · exact ⟨_, rfl, .reads Machine.setX_x_same, rfl⟩
      · exact ⟨_, rfl, .masks (Machine.setX_x_same.trans (by rw [affinity rfl])), rfl⟩
      · exact parked_goes 4 (step_cbz rfl other (number rfl)) (by decide) (by decide)
          (by decide) rfl
      · exact parked_goes 5 rfl (by decide) (by decide) (by decide) rfl
      · exact parked_goes 6 rfl (by decide) (by decide) (by decide) rfl
      · exact parked_goes 4 rfl (by decide) (by decide) (by decide) rfl

/-- So it calls nothing. -/
theorem Parked.not_call (parked : Parked linked board c) (f : Entered) :
    (board.source linked)[c.pc]? ≠ some (.call f) := by
  obtain ⟨pc, p⟩ := c
  have before := parked.before
  intro call
  cases board with
  | virt =>
      change pc < 9 at before
      interval_cases pc <;> cases call
  | rpi =>
      change pc < 7 at before
      interval_cases pc <;> cases call

end Step

/-- What each core does. -/
def Linked.coreStep {ι : Type} (linked : Linked) (board : Board) (mpidr : ι → UInt64) (i : ι) :
    Config Processor → Option (Config Processor) :=
  (linked.onCore (mpidr i)).step (board.source (linked.onCore (mpidr i)))

variable {ι : Type} [DecidableEq ι] {mpidr : ι → UInt64} {first : ι}
  {c : Cores.Cluster ι (Config Processor) (UInt64 → UInt8)}

omit [DecidableEq ι] in
theorem handsOff_parked (unique : ∀ i, mpidr i &&& 3 = 0 ↔ i = first) :
    Cores.HandsOff sharedMemory (linked.coreStep board mpidr) first
      fun i => Parked (linked.onCore (mpidr i)) board :=
  ⟨fun _ _ _ _ parked => ⟨parked.before, parked.affinity, parked.number⟩,
    fun i _ others parked => parked.step (mt (unique i).mp others)⟩

/-- **One core starts**, if all are at `_start`, and one has affinity bits 0 and is as after the
reset: in any order of their steps, the others stay in the core check and write nothing, and the
one does what it does alone, and comes to the call of `kmain` with its `k`-th step. -/
theorem one_core_starts (unique : ∀ i, mpidr i &&& 3 = 0 ↔ i = first)
    (entry : ∀ i, (c.core i).pc = 0) (reset : board.Reset (c.core first).machine) :
    ∃ k pc n,
      Cores.solo (linked.coreStep board mpidr) first k (c.seen sharedMemory first) =
        some ⟨pc, n⟩ ∧
      (board.source (linked.onCore (mpidr first)))[pc]? = some (.call .kmain) ∧
      Started (linked.onCore (mpidr first)) board (c.seen sharedMemory first).machine n ∧
      KernelReady (linked.onCore (mpidr first)) board n ∧
      (∀ order : List ι, order.count first ≤ k →
        ∃ d, Cores.Runs sharedMemory (linked.coreStep board mpidr) order c d) ∧
      ∀ order d, Cores.Runs sharedMemory (linked.coreStep board mpidr) order c d →
        (∀ i, i ≠ first → Parked (linked.onCore (mpidr i)) board (d.core i) ∧
          ∀ f, (board.source (linked.onCore (mpidr i)))[(d.core i).pc]? ≠ some (.call f)) ∧
        (∃ e, Cores.solo (linked.coreStep board mpidr) first (order.count first)
            (c.seen sharedMemory first) = some e ∧
          d.seen sharedMemory first = e ∧ d.shared = e.machine.general.memory) ∧
        (order.count first = k → d.seen sharedMemory first = ⟨pc, n⟩ ∧
          d.shared = n.general.memory) := by
  let m := (c.seen sharedMemory first).machine
  have start : c.seen sharedMemory first = ⟨0, m⟩ :=
    congrArg (Config.mk · m) (entry first)
  have reset' : board.Reset m := by
    cases board with
    | virt => exact reset
    | rpi => exact reset
  have here : (linked.onCore (mpidr first)).boot.mpidrEl1 &&& 3 = 0 := (unique first).mpr rfl
  obtain ⟨pc, n, started, run, there⟩ := first_core_reaches here reset'
  have steps : Relation.ReflTransGen (fun s s' => linked.coreStep board mpidr first s = some s')
      ⟨0, m⟩ ⟨pc, n⟩ := Relation.ReflTransGen.mono (fun _ _ last => last.2) _ _ run
  obtain ⟨k, alone⟩ := Cores.solo_of_reaches steps
  rw [← start] at alone
  have parked : ∀ i, i ≠ first → Parked (linked.onCore (mpidr i)) board (c.core i) := fun i _ =>
    ⟨by rw [entry]; omega, fun here => by rw [entry] at here; omega,
      fun here => by rw [entry] at here; omega⟩
  have off : Cores.HandsOff sharedMemory (linked.coreStep board mpidr) first fun i =>
      Parked (linked.onCore (mpidr i)) board := handsOff_parked unique
  refine ⟨k, pc, n, alone, there.head, started, started.ready,
    fun order few => Cores.exists_runs off parked alone few, fun order d runs => ?_⟩
  obtain ⟨last, done⟩ := Cores.runs_solo off runs parked
  have shared : d.shared = (d.seen sharedMemory first).machine.general.memory :=
    (sharedMemory.get_set (d.core first) d.shared).symm
  refine ⟨fun i others => ⟨last i others, (last i others).not_call⟩,
    ⟨_, done, rfl, shared⟩, fun count => ?_⟩
  rw [count, alone] at done
  have seen := Option.some.inj done.symm
  exact ⟨seen, shared.trans (congrArg (·.machine.general.memory) seen)⟩

/-- Four cores, of which the last has number 0. -/
def fourCores (i : Fin 4) : UInt64 := UInt64.ofNat (i + 1).val

/-- The cores do steps in turn, and the last one comes to `kmain`. -/
theorem one_core_starts_four :
    ∃ k pc n d,
      Cores.Runs sharedMemory (returningKernel.coreStep .rpi fourCores)
        (List.replicate k [0, 1, 2, 3]).flatten ⟨fun _ => ⟨0, freshProcessor⟩, fun _ => 0xff⟩ d ∧
      d.seen sharedMemory 3 = ⟨pc, n⟩ ∧
      (Board.rpi.source (returningKernel.onCore (fourCores 3)))[pc]? = some (.call .kmain) ∧
      d.shared 0x81008 = 0 ∧ d.shared 0x81100 = 0xff := by
  have unique : ∀ i, fourCores i &&& 3 = 0 ↔ i = 3 := by decide
  let c : Cores.Cluster (Fin 4) (Config Processor) (UInt64 → UInt8) :=
    ⟨fun _ => ⟨0, freshProcessor⟩, fun _ => 0xff⟩
  have reset : Board.rpi.Reset (c.core 3).machine := rfl
  obtain ⟨k, pc, n, -, call, started, -, anyOrder, all⟩ :=
    @one_core_starts returningKernel .rpi (Fin 4) _ fourCores 3 c unique (fun _ => rfl) reset
  have count : (List.replicate k ([0, 1, 2, 3] : List (Fin 4))).flatten.count 3 = k := by
    rw [List.count_flatten, List.map_replicate, List.sum_replicate]
    exact Nat.mul_one k
  obtain ⟨d, runs⟩ := anyOrder _ count.le
  obtain ⟨-, -, last⟩ := all _ d runs
  obtain ⟨seen, shared⟩ := last count
  refine ⟨k, pc, n, d, runs, seen, call, ?_, ?_⟩
  · rw [shared, started.memory]
    decide
  · rw [shared, started.memory]
    decide

end Cores

end CharcoalOS.Arch
