import CharcoalOS.Lib.Arm64

/-!
# Clearing the bss

The start of `platform/virt/boot.s` and of `platform/rpi/boot.s`, up to where the bss is cleared.
The addresses are those that the linker script gives, and what follows is arbitrary.

The head loop stores bytes up to an aligned address, the bulk loop words, and the tail loop the
bytes that are left. All three keep `Clearing`, which is what the memory and the registers are
like at the write pointer.
-/

namespace CharcoalOS.Arch

open Assembly Arm64

/-! ## The source -/

/-- What the start depends on: symbols of the linker script, and the register that tells the
cores apart. -/
structure Boot : Type where
  stackTop : UInt64
  mpidrEl1 : UInt64
  bssStart : UInt64
  bssEnd : UInt64

/-- The platforms that have a file of their own. -/
inductive Board : Type
  | virt
  | rpi
deriving DecidableEq, Repr

section Source

variable {ν φ : Type} (boot : Boot)

/-- All cores but the first one wait for ever. -/
def coreCheck : Program Op Condition ν φ :=
  [.op (.mrs 7 boot.mpidrEl1),
    .op (.andImm 7 7 3),
    .branch (.cbz 7) (.forward 0),
    .label 1,
    .op .wfe,
    .branch .always (.backward 1),
    .label 0]

/-- x5 is the write pointer, x6 the end, and x7 the number of bytes that remain. -/
def zeroBss : Program Op Condition ν φ :=
  [.op (.ldrLiteral 5 boot.bssStart),
    .op (.ldrLiteral 6 boot.bssEnd),
    .label 2,
    .op (.cmpReg 5 6),
    .branch .hs (.forward 6),
    .op (.tstImm 5 7),
    .branch .eq (.forward 3),
    .op (.strbZeroPost 5 1),
    .branch .always (.backward 2),
    .label 3,
    .op (.subReg 7 6 5),
    .op (.cmpImm 7 8),
    .branch .lo (.forward 5),
    .label 4,
    .op (.strZeroPost 5 8),
    .op (.subImm 7 7 8),
    .op (.cmpImm 7 8),
    .branch .hs (.backward 4),
    .label 5,
    .op (.cmpReg 5 6),
    .branch .hs (.forward 6),
    .op (.strbZeroPost 5 1),
    .branch .always (.backward 5),
    .label 6]

/-- What precedes the clearing: only `virt` sets up its stack first. -/
def Board.front : Board → Program Op Condition ν φ
  | .virt => [.op (.ldrLiteral 5 boot.stackTop), .op (.movToSp 5)] ++ coreCheck boot
  | .rpi => coreCheck boot

/-- `_start`, with what follows the clearing. -/
def Board.start (board : Board) (rest : Program Op Condition ν φ) : Program Op Condition ν φ :=
  board.front boot ++ (zeroBss boot ++ rest)

end Source

/-! ## The write pointer -/

/-- From `m` on, the bss has been cleared up to the write pointer of `n`, and nothing else has
changed. -/
structure Clearing (boot : Boot) (m n : Machine) : Prop where
  start : boot.bssStart.toNat ≤ (n.x 5).toNat
  within : n.x 5 = boot.bssStart ∨ (n.x 5).toNat ≤ boot.bssEnd.toNat
  limit : n.x 6 = boot.bssEnd
  memory : ∀ a, n.memory a =
    if boot.bssStart.toNat ≤ a.toNat ∧ a.toNat < (n.x 5).toNat then 0 else m.memory a
  registers : ∀ r : Reg, r ≠ 5 → r ≠ 6 → r ≠ 7 → n.x r = m.x r
  sp : n.sp = m.sp

variable {boot : Boot} {m n : Machine}

/-- The rest of the machine is of no importance. -/
theorem Clearing.congr {n' : Machine} (clearing : Clearing boot m n) (x5 : n'.x 5 = n.x 5)
    (x6 : n'.x 6 = n.x 6) (memory : n'.memory = n.memory)
    (registers : ∀ r : Reg, r ≠ 5 → r ≠ 6 → r ≠ 7 → n'.x r = n.x r) (sp : n'.sp = n.sp) :
    Clearing boot m n' := by
  refine ⟨x5 ▸ clearing.start, x5 ▸ clearing.within, x6 ▸ clearing.limit, fun a => ?_,
    fun r five six seven => ?_, sp.trans clearing.sp⟩
  · rw [memory, x5]
    exact clearing.memory a
  · exact (registers r five six seven).trans (clearing.registers r five six seven)

/-- As many bytes as are left can be cleared. -/
theorem Clearing.store {n' : Machine} {k : ℕ} (clearing : Clearing boot m n)
    (room : (n.x 5).toNat + k ≤ boot.bssEnd.toNat) (x5 : n'.x 5 = n.x 5 + UInt64.ofNat k)
    (memory : n'.memory = n.memory.write (n.x 5) (List.replicate k 0))
    (others : ∀ r : Reg, r ≠ 5 → n'.x r = n.x r) (sp : n'.sp = n.sp) :
    Clearing boot m n' ∧ (n'.x 5).toNat = (n.x 5).toNat + k := by
  have bound := boot.bssEnd.toNat_lt
  have pointer : (n'.x 5).toNat = (n.x 5).toNat + k := by
    rw [x5, UInt64.toNat_add, UInt64.toNat_ofNat_of_lt' (show k < 2 ^ 64 by omega)]
    omega
  have start := clearing.start
  refine ⟨⟨by omega, Or.inr (by omega), (others 6 (by decide)).trans clearing.limit, fun a => ?_,
    fun r five six seven => (others r five).trans (clearing.registers r five six seven),
    sp.trans clearing.sp⟩, pointer⟩
  rw [memory, Memory.write_replicate, pointer]
  simp only [Memory.offset_lt_iff (show (n.x 5).toNat + k ≤ 2 ^ 64 by omega)]
  rw [clearing.memory]
  by_cases here : (n.x 5).toNat ≤ a.toNat ∧ a.toNat < (n.x 5).toNat + k
  · rw [if_pos here, if_pos (by omega)]
  · rw [if_neg here]
    by_cases before : boot.bssStart.toNat ≤ a.toNat ∧ a.toNat < (n.x 5).toNat
    · rw [if_pos before, if_pos (by omega)]
    · rw [if_neg before, if_neg (by omega)]

theorem Clearing.byte (clearing : Clearing boot m n)
    (less : (n.x 5).toNat < boot.bssEnd.toNat) :
    Clearing boot m (Op.exec (.strbZeroPost 5 1) n) ∧
      ((Op.exec (.strbZeroPost 5 1) n).x 5).toNat = (n.x 5).toNat + 1 :=
  clearing.store (k := 1) less Machine.setX_x_same rfl
    (fun _ other => Machine.setX_x_of_ne other) rfl

theorem Clearing.word (clearing : Clearing boot m n)
    (room : (n.x 5).toNat + 8 ≤ boot.bssEnd.toNat) :
    Clearing boot m (Op.exec (.strZeroPost 5 8) n) ∧
      ((Op.exec (.strZeroPost 5 8) n).x 5).toNat = (n.x 5).toNat + 8 :=
  clearing.store (k := 8) room Machine.setX_x_same
    (congrArg (n.memory.write (n.x 5)) Memory.bytesOf_zero)
    (fun _ other => Machine.setX_x_of_ne other) rfl

/-- The write pointer is compared with the end. -/
theorem Clearing.compared (clearing : Clearing boot m n) :
    Clearing boot m (Op.exec (.cmpReg 5 6) n) ∧
      (Condition.hs.holds (Op.exec (.cmpReg 5 6) n) = true ↔
        boot.bssEnd.toNat ≤ (n.x 5).toNat) := by
  refine ⟨clearing.congr rfl rfl rfl (fun _ _ _ _ => rfl) rfl, ?_⟩
  rw [← UInt64.le_iff_toNat_le, ← clearing.limit]
  exact decide_eq_true_iff

/-! ## The loops -/

section Loops

variable {ν φ : Type} [DecidableEq ν] {e : Environment φ} {c : Config Machine}

theorem and_seven_eq_zero (a : UInt64) : a &&& 7 = 0 ↔ a.toNat % 8 = 0 := by
  rw [← UInt64.toNat_inj, UInt64.toNat_and]
  exact (Nat.and_two_pow_sub_one_eq_mod a.toNat 3).symm ▸ Iff.rfl

/-- The head loop ends at the end, or at an aligned address before. -/
theorem head_loop (clearing : Clearing boot m n)
    (run : AlignedRun e (zeroBss boot : Program Op Condition ν φ) c ⟨2, n⟩) :
    ∃ n', Clearing boot m n' ∧
      (AlignedRun e (zeroBss boot : Program Op Condition ν φ) c ⟨23, n'⟩ ∧
          boot.bssEnd.toNat ≤ (n'.x 5).toNat ∨
        AlignedRun e (zeroBss boot : Program Op Condition ν φ) c ⟨9, n'⟩ ∧
          (n'.x 5).toNat < boot.bssEnd.toNat ∧ (n'.x 5).toNat % 8 = 0) := by
  induction left : boot.bssEnd.toNat - (n.x 5).toNat using Nat.strong_induction_on generalizing n
  rename_i left ih
  have compared := (run.label rfl).op rfl (List.forall_mem_nil _)
  obtain ⟨clearing', ends_iff⟩ := clearing.compared
  by_cases ends : boot.bssEnd.toNat ≤ (n.x 5).toNat
  · exact ⟨_, clearing', Or.inl ⟨compared.branch rfl (ends_iff.mpr ends) rfl, ends⟩⟩
  · have goesOn := Bool.eq_false_iff.mpr (mt ends_iff.mp ends)
    have tested := (compared.skip rfl goesOn).op rfl (List.forall_mem_nil _)
    have clearing'' : Clearing boot m (Op.exec (.tstImm 5 7) (Op.exec (.cmpReg 5 6) n)) :=
      clearing'.congr rfl rfl rfl (fun _ _ _ _ => rfl) rfl
    have less := Nat.lt_of_not_le ends
    by_cases aligned : n.x 5 &&& 7 = 0
    · exact ⟨_, clearing'', Or.inr ⟨tested.branch rfl (decide_eq_true aligned) rfl, less,
        (and_seven_eq_zero _).mp aligned⟩⟩
    · have stored := (tested.skip rfl (decide_eq_false aligned)).op rfl (List.forall_mem_nil _)
      have back := stored.branch rfl rfl rfl
      obtain ⟨next, pointer⟩ := clearing''.byte less
      exact ih _ (by rw [pointer]; show _ - ((n.x 5).toNat + 1) < _; omega) next back rfl

/-- The bulk loop ends with less than a word to go. -/
theorem bulk_loop (clearing : Clearing boot m n)
    (run : AlignedRun e (zeroBss boot : Program Op Condition ν φ) c ⟨13, n⟩)
    (remaining : (n.x 5).toNat + (n.x 7).toNat = boot.bssEnd.toNat) (eight : 8 ≤ (n.x 7).toNat)
    (aligned : (n.x 5).toNat % 8 = 0) :
    ∃ n', Clearing boot m n' ∧
      AlignedRun e (zeroBss boot : Program Op Condition ν φ) c ⟨18, n'⟩ := by
  induction left : (n.x 7).toNat using Nat.strong_induction_on generalizing n
  rename_i left ih
  obtain ⟨clearing', pointer⟩ := clearing.word (by omega)
  have stored := (run.label rfl).op rfl (List.forall_mem_singleton.mpr aligned)
  have compared := (stored.op rfl (List.forall_mem_nil _)).op rfl (List.forall_mem_nil _)
  let next := Op.exec (.cmpImm 7 8) (Op.exec (.subImm 7 7 8) (Op.exec (.strZeroPost 5 8) n))
  have kept : ∀ r : Reg, r ≠ 7 → next.x r = (Op.exec (.strZeroPost 5 8) n).x r := by
    intro r other
    show (Machine.setX _ 7 _).x r = _
    exact Machine.setX_x_of_ne other
  have clearing'' : Clearing boot m next :=
    clearing'.congr (kept 5 (by decide)) (kept 6 (by decide)) rfl
      (fun r _ _ seven => kept r seven) rfl
  have five : (next.x 5).toNat = (n.x 5).toNat + 8 := by rw [kept 5 (by decide), pointer]
  have counter : next.x 7 = n.x 7 - 8 := by
    have first : (Op.exec (.strZeroPost 5 8) n).x 7 = n.x 7 := by
      show (Machine.setX { n with memory := n.memory.store64 (n.x 5) 0 } 5 _).x 7 = _
      exact Machine.setX_x_of_ne (by decide)
    rw [← first]
    show (Machine.setX (Op.exec (.strZeroPost 5 8) n) 7 _).x 7 = _
    exact Machine.setX_x_same
  have seven : (next.x 7).toNat = (n.x 7).toNat - 8 := by
    have eight' : (8 : UInt64) ≤ n.x 7 := UInt64.le_iff_toNat_le.mpr eight
    rw [counter, UInt64.toNat_sub_of_le _ _ eight']
    rfl
  by_cases more : 8 ≤ next.x 7
  · exact ih _ (by omega) clearing'' (compared.branch rfl (decide_eq_true more) rfl) (by omega)
      (UInt64.le_iff_toNat_le.mp more) (by omega) rfl
  · exact ⟨next, clearing'', compared.skip rfl (decide_eq_false more)⟩

/-- The tail loop ends at the end. -/
theorem tail_loop (clearing : Clearing boot m n)
    (run : AlignedRun e (zeroBss boot : Program Op Condition ν φ) c ⟨18, n⟩) :
    ∃ n', Clearing boot m n' ∧ boot.bssEnd.toNat ≤ (n'.x 5).toNat ∧
      AlignedRun e (zeroBss boot : Program Op Condition ν φ) c ⟨23, n'⟩ := by
  induction left : boot.bssEnd.toNat - (n.x 5).toNat using Nat.strong_induction_on generalizing n
  rename_i left ih
  have compared := (run.label rfl).op rfl (List.forall_mem_nil _)
  obtain ⟨clearing', ends_iff⟩ := clearing.compared
  by_cases ends : boot.bssEnd.toNat ≤ (n.x 5).toNat
  · exact ⟨_, clearing', ends, compared.branch rfl (ends_iff.mpr ends) rfl⟩
  · have goesOn := Bool.eq_false_iff.mpr (mt ends_iff.mp ends)
    have stored := (compared.skip rfl goesOn).op rfl (List.forall_mem_nil _)
    obtain ⟨next, pointer⟩ := clearing'.byte (Nat.lt_of_not_le ends)
    exact ih _ (by rw [pointer]; show _ - ((n.x 5).toNat + 1) < _; omega) next
      (stored.branch rfl rfl rfl) rfl

/-- The code clears all of the bss. -/
theorem zeroBss_clears (boot : Boot) (m : Machine) :
    ∃ n, Clearing boot m n ∧ boot.bssEnd.toNat ≤ (n.x 5).toNat ∧
      AlignedRun e (zeroBss boot : Program Op Condition ν φ) ⟨0, m⟩
        ⟨(zeroBss boot : Program Op Condition ν φ).length, n⟩ := by
  have start : AlignedRun e (zeroBss boot : Program Op Condition ν φ) ⟨0, m⟩ ⟨0, m⟩ := .refl
  have loaded := (start.op rfl (List.forall_mem_nil _)).op rfl (List.forall_mem_nil _)
  have clearing : Clearing boot m (Op.exec (.ldrLiteral 6 boot.bssEnd)
      (Op.exec (.ldrLiteral 5 boot.bssStart) m)) := by
    refine ⟨le_rfl, Or.inl rfl, rfl, fun a => ?_, fun r five six _ => ?_, rfl⟩
    · rw [if_neg]
      · rfl
      · show ¬ (_ ∧ a.toNat < boot.bssStart.toNat)
        omega
    · show (Machine.setX _ 6 _).x r = _
      rw [Machine.setX_x_of_ne six]
      exact Machine.setX_x_of_ne five
  obtain ⟨n, clearing, ⟨run, ends⟩ | ⟨run, less, aligned⟩⟩ := head_loop clearing loaded
  · exact ⟨n, clearing, ends, run.label rfl⟩
  · have compared := ((run.label rfl).op rfl (List.forall_mem_nil _)).op rfl
      (List.forall_mem_nil _)
    let next := Op.exec (.cmpImm 7 8) (Op.exec (.subReg 7 6 5) n)
    have kept : ∀ r : Reg, r ≠ 7 → next.x r = n.x r := by
      intro r other
      show (Machine.setX _ 7 _).x r = _
      exact Machine.setX_x_of_ne other
    have clearing' : Clearing boot m next :=
      clearing.congr (kept 5 (by decide)) (kept 6 (by decide)) rfl
        (fun r _ _ seven => kept r seven) rfl
    have seven : (next.x 7).toNat = boot.bssEnd.toNat - (n.x 5).toNat := by
      have le : n.x 5 ≤ boot.bssEnd := UInt64.le_iff_toNat_le.mpr less.le
      have difference : next.x 7 = n.x 6 - n.x 5 := by
        show (Machine.setX n 7 _).x 7 = _
        exact Machine.setX_x_same
      rw [difference, clearing.limit, UInt64.toNat_sub_of_le _ _ le]
    have five : (next.x 5).toNat = (n.x 5).toNat := by rw [kept 5 (by decide)]
    have bytes : ∃ n', Clearing boot m n' ∧
        AlignedRun e (zeroBss boot : Program Op Condition ν φ) ⟨0, m⟩ ⟨18, n'⟩ := by
      by_cases eight : 8 ≤ next.x 7
      · have lower : Condition.lo.holds next = false := by
          show (!decide (8 ≤ next.x 7)) = false
          rw [decide_eq_true eight]
          rfl
        exact bulk_loop clearing' (compared.skip rfl lower) (by omega)
          (UInt64.le_iff_toNat_le.mp eight) (by omega)
      · have lower : Condition.lo.holds next = true := by
          show (!decide (8 ≤ next.x 7)) = true
          rw [decide_eq_false eight]
          rfl
        exact ⟨next, clearing', compared.branch rfl lower rfl⟩
    obtain ⟨n', clearing'', run'⟩ := bytes
    obtain ⟨last, all, ends, run''⟩ := tail_loop clearing'' run'
    exact ⟨last, all, ends, run''.label rfl⟩

/-! ## The start of a board -/

omit [DecidableEq ν] in
theorem zeroBss_local : ∀ i ∈ (zeroBss boot : Program Op Condition ν φ), i.isLocal = true := by
  simp [zeroBss, Item.isLocal]

omit [DecidableEq ν] in
theorem front_local (board : Board) :
    ∀ i ∈ (board.front boot : Program Op Condition ν φ), i.isLocal = true := by
  cases board with
  | virt => simp [Board.front, coreCheck, Item.isLocal]
  | rpi => simp [Board.front, coreCheck, Item.isLocal]

/-- The bss is zero, and nothing else has changed but x5, x6, x7 and the flags. -/
structure Cleared (boot : Boot) (m n : Machine) : Prop where
  memory : ∀ a, n.memory a = if boot.bssStart ≤ a ∧ a < boot.bssEnd then 0 else m.memory a
  registers : ∀ r : Reg, r ≠ 5 → r ≠ 6 → r ≠ 7 → n.x r = m.x r
  sp : n.sp = m.sp

theorem Clearing.cleared (clearing : Clearing boot m n)
    (ends : boot.bssEnd.toNat ≤ (n.x 5).toNat) : Cleared boot m n := by
  refine ⟨fun a => ?_, clearing.registers, clearing.sp⟩
  have start := clearing.start
  rw [clearing.memory]
  simp only [UInt64.le_iff_toNat_le, UInt64.lt_iff_toNat_lt]
  rcases clearing.within with same | le
  · -- the start is at the end or behind it
    rw [same] at ends ⊢
    rw [if_neg (by omega), if_neg (by omega)]
  · rw [Nat.le_antisymm le ends]

/-- **Boot clears exactly the bss**, on both boards, wherever it starts and ends: the loops end,
store words at aligned addresses only, and leave all other memory and registers as they were. -/
theorem bss_cleared (board : Board) (boot : Boot) (rest : Program Op Condition ν φ)
    (e : Environment φ) (m : Machine) :
    ∃ n, Cleared boot m n ∧
      AlignedRun e (board.start boot rest)
        ⟨(board.front boot : Program Op Condition ν φ).length, m⟩
        ⟨(board.front boot : Program Op Condition ν φ).length +
          (zeroBss boot : Program Op Condition ν φ).length, n⟩ := by
  obtain ⟨n, clearing, ends, run⟩ : ∃ n, Clearing boot m n ∧
      boot.bssEnd.toNat ≤ (n.x 5).toNat ∧
      AlignedRun e (zeroBss boot : Program Op Condition ν φ) ⟨0, m⟩ ⟨24, n⟩ :=
    zeroBss_clears boot m
  exact ⟨n, clearing.cleared ends, run.within zeroBss_local⟩

/-- The stack pointer behind the core check. -/
def Board.stack (boot : Boot) (m : Machine) : Board → UInt64
  | .virt => boot.stackTop
  | .rpi => m.sp

/-- The first core comes to the code that clears the bss, with its memory as it was. -/
theorem front_first_core (board : Board) (first : boot.mpidrEl1 &&& 3 = 0) (m : Machine) :
    ∃ n, n.memory = m.memory ∧ (∀ r : Reg, r ≠ 5 → r ≠ 7 → n.x r = m.x r) ∧
      n.sp = board.stack boot m ∧ AlignedRun e (board.front boot : Program Op Condition ν φ) ⟨0, m⟩
        ⟨(board.front boot : Program Op Condition ν φ).length, n⟩ := by
  have start : AlignedRun e (board.front boot : Program Op Condition ν φ) ⟨0, m⟩ ⟨0, m⟩ := .refl
  cases board with
  | virt =>
      have stack := (start.op rfl (List.forall_mem_nil _)).op rfl (List.forall_mem_nil _)
      have core := (stack.op rfl (List.forall_mem_nil _)).op rfl (List.forall_mem_nil _)
      have there := (core.branch rfl (decide_eq_true first) rfl).label rfl
      refine ⟨_, ?memory, fun r five seven => ?_, ?stack, there⟩
      case memory => rfl
      case stack => rfl
      show (Machine.setX (Machine.setX _ 7 _) 7 _).x r = _
      rw [Machine.setX_x_of_ne seven, Machine.setX_x_of_ne seven]
      exact Machine.setX_x_of_ne five
  | rpi =>
      have core := (start.op rfl (List.forall_mem_nil _)).op rfl (List.forall_mem_nil _)
      have there := (core.branch rfl (decide_eq_true first) rfl).label rfl
      refine ⟨_, ?memory, fun r five seven => ?_, ?stack, there⟩
      case memory => rfl
      case stack => rfl
      show (Machine.setX (Machine.setX _ 7 _) 7 _).x r = _
      rw [Machine.setX_x_of_ne seven, Machine.setX_x_of_ne seven]

/-- From the entry of the kernel on, the first core clears the bss. -/
theorem first_core_clears (board : Board) (first : boot.mpidrEl1 &&& 3 = 0)
    (rest : Program Op Condition ν φ) (m : Machine) :
    ∃ n, (∀ a, n.memory a = if boot.bssStart ≤ a ∧ a < boot.bssEnd then 0 else m.memory a) ∧
      (∀ r : Reg, r ≠ 5 → r ≠ 6 → r ≠ 7 → n.x r = m.x r) ∧ n.sp = board.stack boot m ∧
      AlignedRun e (board.start boot rest) ⟨0, m⟩
        ⟨(board.front boot : Program Op Condition ν φ).length +
          (zeroBss boot : Program Op Condition ν φ).length, n⟩ := by
  obtain ⟨there, memory, registers, stack, comes⟩ :=
    front_first_core (ν := ν) (φ := φ) (e := e) board first m
  obtain ⟨n, clearing, ends, run⟩ := zeroBss_clears (ν := ν) (φ := φ) (e := e) boot there
  have cleared := clearing.cleared ends
  have front : AlignedRun e (board.start boot rest) ⟨0, m⟩
      ⟨(board.front boot : Program Op Condition ν φ).length, there⟩ := by
    have whole : AlignedRun e
        (([] : Program Op Condition ν φ) ++ (board.front boot ++ (zeroBss boot ++ rest))) _ _ :=
      comes.within (front_local board)
    rwa [List.nil_append, List.length_nil, Nat.zero_add, Nat.zero_add] at whole
  have clear : AlignedRun e (board.start boot rest)
      ⟨(board.front boot : Program Op Condition ν φ).length, there⟩ _ :=
    run.within zeroBss_local
  refine ⟨n, fun a => ?_, fun r five six seven => ?_, cleared.sp.trans stack, front.trans clear⟩
  · rw [cleared.memory, memory]
  · exact (cleared.registers r five six seven).trans (registers r five seven)

end Loops

end CharcoalOS.Arch
