import CharcoalOS.Lib.FailStop
import CharcoalOS.Hardware.Encoding
import CharcoalOS.Hardware.DeviceTree

/-!
# Where a panic ends a run

`panicPolicy` makes `kernel_panic` the alarm of the parser. Every part of it stops at its
first panic, with the one exception that `FailStopsBut` allows:
`physical_memory_regions` returns to the walk after its own panics, so the walk may go on
after a `reg` value that is not accepted (`RejectedCall`).
-/

namespace CharcoalOS

open Effect Effect.Program

/-- What `kernel_panic(message)` leaves in the log. -/
def panicOutput (env : Env) (message : String) : List Event :=
  .panic message :: if env.panicReturns then [] else [.print message, .print "\n\n"]

/-- The event is a panic. -/
def IsPanic (e : Event) : Prop := ∃ message, e = .panic message

/-- A run of the parser may end early in a panic, or for want of fuel. -/
def panicPolicy (env : Env) : StopPolicy Stop Event where
  Alarm := IsPanic
  Quiet := fun e => e = .exhausted
  Final := fun e evs => e = (if env.panicReturns then .returned else .halted) ∧
    ∃ message, evs = panicOutput env message

/-- `physical_memory_regions` is called with a `reg` value that it does not accept. -/
def RejectedCall (env : Env) (e : Event) : Prop :=
  ∃ addressCells sizeCells reg regSize,
    e = .decodeRegions addressCells sizeCells reg regSize ∧
      ¬ AcceptedReg env.memory addressCells sizeCells reg.address regSize

section Stops

variable {env : Env} {info : HardwareInfo} {evs : List Event} {Swallows : Event → Prop}

theorem silent_iff : Silent (panicPolicy env) evs ↔ ¬ Panicked evs := by
  constructor
  · intro silent panicked
    obtain ⟨message, member⟩ := panicked
    exact silent _ member ⟨message, rfl⟩
  · intro quiet e member panic
    obtain ⟨message, rfl⟩ := panic
    exact quiet ⟨message, member⟩

@[simp] theorem panicked_panicOutput {message : String} : Panicked (panicOutput env message) :=
  ⟨message, List.mem_cons_self⟩

theorem panicReturn_run {α : Type} (message : String) :
    wp (panicReturn env message : Discovery α)
      (fun o info' evs => o = .error (if env.panicReturns then .returned else .halted) ∧
        info' = info ∧ evs = panicOutput env message) info := by
  simp only [panicReturn, kernelPanic, panicOutput, wp_bind, wp_emit, seqPost_ok, wp_ite, wp_pure,
    wp_consolePrint, wp_fail, seqPost_error]
  cases env.panicReturns with
  | false => exact ⟨rfl, trivial, rfl⟩
  | true => exact ⟨rfl, trivial, rfl⟩

theorem failStops_panicReturn {α : Type} {message : String} :
    FailStopsBut (panicPolicy env) Swallows (panicReturn env message : Discovery α) := by
  intro info
  have run : wp (panicReturn env message : Discovery α) _ info := panicReturn_run message
  obtain ⟨outcome, -, events⟩ := wp_iff.mp run
  rw [outcome, events]
  rw [← List.nil_append (panicOutput env message)]
  exact .alarmed silent_nil ⟨rfl, message, rfl⟩

theorem failStops_check {condition : Prop} [Decidable condition] {message : String} :
    FailStops (panicPolicy env) (panicIf env condition message) :=
  .ite (fun _ => failStops_panicReturn) fun _ => .pure _

theorem failStops_emit {event : Event} (other : ∀ message, event ≠ .panic message) :
    FailStops (panicPolicy env) (emit event : Discovery Unit) :=
  .emit fun panic => other _ panic.choose_spec

theorem failStops_print {text : String} : FailStops (panicPolicy env) (consolePrint text) :=
  failStops_emit nofun

theorem failStops_printHexValue {value : UInt64} {size : Nat} :
    FailStops (panicPolicy env) (consolePrintHexValue value size) :=
  failStops_emit nofun

theorem failStops_store {field : Field} {write : HardwareInfo → HardwareInfo} :
    FailStops (panicPolicy env) (store field write) :=
  .bind (.update write) fun _ => failStops_emit nofun

theorem failStops_readByte {p : Pointer} : FailStops (panicPolicy env) (readByte env p) :=
  .bind (failStops_emit nofun) fun _ => .pure _

theorem failStops_readBe32 {p : Pointer} :
    FailStops (panicPolicy env) (readBe32FromAddress env p) :=
  fun _ => .quiet (silent_iff.mpr (not_panicked_byteReads (p := p) (n := 4))) nofun

theorem failStops_readBe64 {p : Pointer} :
    FailStops (panicPolicy env) (readBe64FromAddress env p) :=
  fun _ => .quiet (silent_iff.mpr (not_panicked_byteReads (p := p) (n := 8))) nofun

/-! ## The prologue -/

theorem failStops_readHeaderField {dtb offset : UInt64} {write : UInt32 → DTBHeader → DTBHeader} :
    FailStops (panicPolicy env) (readHeaderField env dtb offset write) :=
  .bind failStops_readBe32 fun _ => failStops_store

theorem failStops_readHeader {outHwInfo dtb : UInt64} :
    FailStops (panicPolicy env) (readHeader env outHwInfo dtb) := by
  refine .bind failStops_check fun _ => .bind failStops_check fun _ =>
    .bind failStops_readHeaderField fun _ => .bind .current fun _ => .bind failStops_check fun _ =>
    .bind failStops_readHeaderField fun _ => .bind .current fun _ => .bind failStops_check
    fun _ => ?_
  exact .bind failStops_readHeaderField fun _ => .bind failStops_readHeaderField fun _ =>
    .bind failStops_readHeaderField fun _ => .bind failStops_readHeaderField fun _ =>
    .bind failStops_readHeaderField fun _ => .bind failStops_readHeaderField fun _ =>
    .bind failStops_readHeaderField fun _ => failStops_readHeaderField

theorem failStops_printHeaderField {label : String} {value : UInt32} :
    FailStops (panicPolicy env) (printHeaderField label value) :=
  .bind failStops_print fun _ => .bind failStops_printHexValue fun _ => failStops_print

theorem failStops_printHeader : FailStops (panicPolicy env) printHeader :=
  .bind .current fun _ => .bind failStops_printHeaderField fun _ =>
    .bind failStops_printHeaderField fun _ => .bind failStops_printHeaderField fun _ =>
    .bind failStops_printHeaderField fun _ => .bind failStops_printHeaderField fun _ =>
    .bind failStops_printHeaderField fun _ => .bind failStops_printHeaderField fun _ =>
    .bind failStops_printHeaderField fun _ => .bind failStops_printHeaderField fun _ =>
    failStops_printHeaderField

theorem failStops_readCheckedHeader {outHwInfo dtb : UInt64} :
    FailStops (panicPolicy env) (readCheckedHeader env outHwInfo dtb) :=
  .bind failStops_readHeader fun _ => .bind failStops_printHeader fun _ =>
    .bind .current fun _ => .bind failStops_check fun _ => .bind failStops_check fun _ =>
    failStops_check

theorem failStops_reservedStep {dtb i : UInt64} :
    FailStops (panicPolicy env) (reservedStep env dtb i) := by
  refine .bind failStops_check fun _ => .bind .current fun _ => .bind failStops_check fun _ =>
    .ite (fun _ => .pure _) fun _ => .bind failStops_readBe64 fun _ =>
    .bind failStops_store fun _ => .bind failStops_readBe64 fun _ =>
    .bind failStops_store fun _ => .ite (fun _ => .pure _) fun _ => ?_
  exact .bind failStops_store fun _ => .bind failStops_print fun _ =>
    .bind failStops_printHexValue fun _ => .bind failStops_print fun _ =>
    .bind failStops_printHexValue fun _ => .bind failStops_print fun _ => .pure _

theorem failStops_readReservedRegions {dtb : UInt64} :
    FailStops (panicPolicy env) (readReservedRegions env dtb) :=
  .bind failStops_store fun _ => .bind (.loop rfl (fun _ => failStops_reservedStep) _ _) fun _ =>
    .bind .current fun _ => .bind failStops_print fun _ => .bind failStops_printHexValue fun _ =>
    failStops_print

theorem failStops_readPrologue {outHwInfo dtb : UInt64} :
    FailStops (panicPolicy env) (readPrologue env outHwInfo dtb) :=
  .bind failStops_readCheckedHeader fun _ => failStops_readReservedRegions

/-! ## Tokens and comparisons -/

theorem failStops_alignCursor {a : UInt64} : FailStops (panicPolicy env) (alignCursor a) :=
  .loop rfl (fun _ => .ite (fun _ => .pure _) fun _ => .pure _) _ _

theorem failStops_skipNodeName {limit a : UInt64} :
    FailStops (panicPolicy env) (skipNodeName env limit a) := by
  refine .bind failStops_check fun _ => .bind (.loop rfl (fun _ => ?_) _ _) fun _ =>
    .bind failStops_alignCursor fun _ => .bind failStops_check fun _ => .pure _
  exact .bind failStops_readByte fun _ => .ite (fun _ => .pure _) fun _ =>
    .bind failStops_check fun _ => .bind failStops_check fun _ => .pure _

theorem failStops_readProperty {limit a : UInt64} :
    FailStops (panicPolicy env) (readProperty env limit a) :=
  .bind failStops_check fun _ => .bind failStops_readBe32 fun _ => .bind failStops_readBe32 fun _ =>
    .bind failStops_check fun _ => .bind failStops_alignCursor fun _ =>
    .bind failStops_check fun _ => .bind .current fun _ => .bind failStops_check fun _ => .pure _

theorem failStops_charAt {text : CharPointer} {i : Nat} :
    FailStops (panicPolicy env) (charAt env text i) := by
  cases text with
  | literal => exact .pure _
  | pointer => exact failStops_readByte

theorem failStops_compareChars {text other : CharPointer} (i remaining : Nat) :
    FailStops (panicPolicy env) (compareChars env text other i remaining) := by
  induction remaining generalizing i with
  | zero => exact .pure _
  | succ remaining ih =>
      exact .bind failStops_charAt fun _ => .bind failStops_charAt fun _ =>
        .ite (fun _ => .pure _) fun _ => ih (i + 1)

theorem failStops_compare {text other : CharPointer} {n : Nat} {check : Bool} :
    FailStops (panicPolicy env) (stringCompareWithLength env text other n check) :=
  .ite (fun _ => .bind failStops_charAt fun _ => .ite (fun _ => .pure _) fun _ =>
    .bind failStops_charAt fun _ => .ite (fun _ => .pure _) fun _ => failStops_compareChars _ _)
    fun _ => failStops_compareChars _ _

/-! ## Properties -/

theorem failStops_saveRootCells {name : CharPointer} {p : Property} {s : Walk} :
    FailStops (panicPolicy env) (saveRootCells env name p s) := by
  refine .bind failStops_compare fun _ => .ite (fun _ => .bind failStops_compare fun _ =>
    .ite (fun _ => ?_) fun _ => .bind failStops_compare fun _ => .ite (fun _ => ?_)
    fun _ => .pure _) fun _ => .pure _
  · exact .bind failStops_check fun _ => .bind failStops_readBe32 fun _ =>
      .bind failStops_store fun _ => .pure _
  · exact .bind failStops_check fun _ => .bind failStops_readBe32 fun _ =>
      .bind failStops_store fun _ => .pure _

theorem failStops_saveNodeProperty {name : CharPointer} {p : Property} {s : Walk} :
    FailStops (panicPolicy env) (saveNodeProperty env name p s) := by
  refine .bind failStops_compare fun _ => .ite (fun _ => .ite (fun _ => ?_) fun _ => .pure _)
    fun _ => .bind failStops_compare fun _ => .ite (fun _ => .pure _) fun _ => .pure _
  exact .bind failStops_compare fun _ => .ite (fun _ => .pure _) fun _ => .pure _

theorem failStops_readCells {cells : UInt32} {p : Pointer} :
    FailStops (panicPolicy env) (readCells env cells p) :=
  .ite (fun _ => .bind failStops_readBe64 fun _ => .pure _)
    fun _ => .bind failStops_readBe32 fun _ => .pure _

theorem failStops_decodeLoop (addressCells sizeCells : UInt32) (i : Nat) (p : Pointer)
    (remaining : Nat) :
    FailStops (panicPolicy env) (decodeLoop env addressCells sizeCells i p remaining) := by
  induction remaining generalizing i p with
  | zero => exact .pure _
  | succ remaining ih =>
      exact .bind failStops_readCells fun _ => .bind failStops_readCells fun _ =>
        .bind failStops_check fun _ => .bind failStops_check fun _ => .bind failStops_check fun _ =>
        .bind failStops_check fun _ => .bind failStops_store fun _ => ih _ _

/-- The last events of a panic, after which the run stops or the function returns. -/
def PanicLast (env : Env) (o : Except Stop Unit) (evs : List Event) : Prop :=
  ∃ before message, Silent (panicPolicy env) before ∧ evs = before ++ panicOutput env message ∧
    o = if env.panicReturns then .ok () else .error .halted

/-- A body that stops at its first panic ends there, and its `return` ends the function. -/
theorem functionBody_stops {body : Discovery Unit} (stops : FailStops (panicPolicy env) body) :
    wp (functionBody body) (fun o _ evs =>
      (Silent (panicPolicy env) evs ∧ ∀ e, o = .error e → e = .exhausted) ∨
        PanicLast env o evs) info := by
  apply wp_functionBody
  have ending := stops info
  rw [wp_iff]
  generalize (body info).outcome = o, (body info).events = evs at ending ⊢
  cases ending with
  | quiet silent failure =>
      refine Or.inl ⟨silent, fun e same => ?_⟩
      split at same
      · cases same
      · exact failure e same
  | alarmed silent final =>
      obtain ⟨rfl, message, rfl⟩ := final
      refine Or.inr ⟨_, message, silent, rfl, ?_⟩
      cases env.panicReturns <;> rfl
  | swallowed _ _ swallows => exact swallows.elim

theorem failStops_regionsBody (env : Env) (addressCells sizeCells : UInt32) (reg : Pointer)
    (regSize : UInt64) :
    ∃ body, physicalMemoryRegions env addressCells sizeCells reg regSize = functionBody body ∧
      FailStops (panicPolicy env) body := by
  refine ⟨_, rfl, ?_⟩
  refine .bind (failStops_emit nofun) fun _ => .bind failStops_check fun _ =>
    .bind failStops_check fun _ => .bind failStops_check fun _ => .ite (fun _ => ?_) fun _ => ?_
  · exact .bind failStops_print fun _ => .bind failStops_printHexValue fun _ =>
      .bind failStops_print fun _ => .bind failStops_printHexValue fun _ =>
      .bind failStops_print fun _ => failStops_panicReturn
  · exact .bind failStops_check fun _ => .bind failStops_store fun _ =>
      failStops_decodeLoop _ _ _ _ _

/-- `physical_memory_regions` stops at its first panic, but its caller does not. -/
theorem failStops_physicalMemoryRegions {addressCells sizeCells : UInt32} {reg : Pointer}
    {regSize : UInt64} :
    FailStopsBut (panicPolicy env) (RejectedCall env)
      (physicalMemoryRegions env addressCells sizeCells reg regSize) := by
  intro info
  obtain ⟨body, eq, stops⟩ := failStops_regionsBody env addressCells sizeCells reg regSize
  have run : wp (functionBody body) _ info := functionBody_stops stops
  have ending := wp_iff.mp run
  rw [← eq] at ending
  rcases ending with ⟨silent, failure⟩ | ⟨before, message, silent, events, outcome⟩
  · exact .quiet silent failure
  · have post : wp (physicalMemoryRegions env addressCells sizeCells reg regSize) _ info :=
      physicalMemoryRegions_spec addressCells sizeCells reg regSize
    obtain ⟨call, -, -⟩ := wp_iff.mp post
    have panicked : Panicked
        (physicalMemoryRegions env addressCells sizeCells reg regSize info).events := by
      rw [events]
      simp
    have rejected := panicked_iff_not_accepted.mp panicked
    rw [events] at call
    rw [events, outcome]
    have final : (panicPolicy env).Final (if env.panicReturns then .returned else .halted)
        (panicOutput env message) := ⟨rfl, message, rfl⟩
    cases mode : env.panicReturns with
    | false =>
        rw [mode] at final
        exact .alarmed silent final
    | true =>
        refine .swallowed silent ((List.mem_append.mp call).resolve_right ?_)
          ⟨addressCells, sizeCells, reg, regSize, rfl, rejected⟩ final nofun
        simp [panicOutput, mode]

theorem failStops_decodeNode {s : Walk} :
    FailStopsBut (panicPolicy env) (RejectedCall env) (decodeNode env s) :=
  .ite (fun _ => .bind (failStops_emit nofun) fun _ => .bind failStops_compare fun _ =>
    .ite (fun _ => .ite (fun _ => .bind .current fun _ => failStops_physicalMemoryRegions)
      fun _ => failStops_panicReturn) fun _ => .pure _) fun _ => .pure _

/-! ## The walk -/

theorem failStops_handleToken {dtb limit : UInt64} {s : Walk} {token : UInt32} {a : UInt64} :
    FailStopsBut (panicPolicy env) (RejectedCall env) (handleToken env dtb limit s token a) := by
  refine .ite (fun _ => .bind failStops_skipNodeName fun _ => .pure _) fun _ =>
    .ite (fun _ => .bind failStops_check fun _ => .pure _) fun _ =>
    .ite (fun _ => .bind failStops_readProperty fun _ => ?_) fun _ => .ite (fun _ => .pure _)
    fun _ => .ite (fun _ => .pure _) fun _ => failStops_panicReturn
  exact .bind .current fun _ => .bind failStops_saveRootCells fun _ =>
    .bind failStops_saveNodeProperty fun s' => failStops_decodeNode.map fun _ => s'

theorem failStops_walkStep {dtb limit : UInt64} {s : Walk} :
    FailStopsBut (panicPolicy env) (RejectedCall env) (walkStep env dtb limit s) :=
  .bind failStops_check fun _ => .ite (fun _ => .pure _) fun _ => .bind failStops_readBe32 fun _ =>
    .bind failStops_check fun _ => failStops_handleToken.map _

theorem failStops_finishWalk {s : Walk} : FailStops (panicPolicy env) (finishWalk env s) :=
  .bind failStops_check fun _ => .bind failStops_check fun _ => .bind .current fun _ =>
    .bind failStops_print fun _ => .bind failStops_printHexValue fun _ => .bind failStops_print
    fun _ => .bind failStops_printHexValue fun _ => failStops_print

end Stops

end CharcoalOS
