import CharcoalOS.Lib.Arm64

/-!
# The exception vectors

`arch/arm64/ExceptionVectors.s`. An exception of a type enters the table at the entry of that
type, which branches to the handler. The handler saves the general registers in a frame below
the stack pointer, calls `handle_exception`, and does what that returns.

The C functions that may return are arbitrary functions of the machine. `comes_handler` says
that an exception of every type comes to its own handler.
-/

namespace CharcoalOS.Arch

open Assembly Arm64

/-! ## The source -/

inductive Label : Type
  | exceptionVectorsEl1
  | syncEl1Sp0
  | irqEl1Sp0
  | fiqEl1Sp0
  | serrEl1Sp0
  | syncEl1Spx
  | irqEl1Spx
  | fiqEl1Spx
  | serrEl1Spx
  | syncEl0A64
  | irqEl0A64
  | fiqEl0A64
  | serrEl0A64
  | syncEl0A32
  | irqEl0A32
  | fiqEl0A32
  | serrEl0A32
deriving DecidableEq, Repr

/-- The C functions that are called. -/
inductive Callee : Type
  | handleException
  | platformReboot
  | halt
deriving DecidableEq, Repr

abbrev Item : Type := Assembly.Item Op Condition Label Callee

/-- `EXCEPTION_ENTRY`. The padding of an entry to 128 bytes is left out. -/
def exceptionEntry (label : Label) : List Item := [.branch .always (.symbol label)]

def spill : List Op :=
  [.stp 0 1 0, .stp 2 3 16, .stp 4 5 32, .stp 6 7 48, .stp 8 9 64, .stp 10 11 80,
    .stp 12 13 96, .stp 14 15 112, .stp 16 17 128, .stp 18 19 144, .stp 20 21 160,
    .stp 22 23 176, .stp 24 25 192, .stp 26 27 208, .stp 28 29 224]

/-- What `EXCEPTION_HANDLER` does before the call. -/
def saveRegisters (kindOfException : UInt64) : List Op :=
  .subSp 256 :: spill ++ [.movSp 9, .stp 30 9 240, .movSp 0, .movImm 1 kindOfException]

def reload : List Op :=
  [.ldp 0 1 0, .ldp 2 3 16, .ldp 4 5 32, .ldp 6 7 48, .ldp 8 9 64, .ldp 10 11 80,
    .ldp 12 13 96, .ldp 14 15 112, .ldp 16 17 128, .ldp 18 19 144, .ldp 20 21 160,
    .ldp 22 23 176, .ldp 24 25 192, .ldp 26 27 208, .ldp 28 29 224, .ldr 30 240]

/-- What `EXCEPTION_HANDLER` does before `eret`. -/
def restoreRegisters : List Op := reload ++ [.addSp 256]

/-- `EXCEPTION_HANDLER`, after the call. -/
def takeAction : List Item :=
  .op (.cmpImm 0 0) ::
  .branch .eq (.forward 0) ::
  .op (.cmpImm 0 1) ::
  .branch .eq (.forward 1) ::
  .branch .always (.forward 2) ::
  .label 0 ::
  (restoreRegisters.map .op ++
    [.exit,
      .label 1,
      .call .platformReboot,
      .label 2,
      .call .halt])

/-- `EXCEPTION_HANDLER` -/
def exceptionHandler (kindOfException : UInt64) : List Item :=
  (saveRegisters kindOfException).map .op ++ .call .handleException :: takeAction

/-- The labels of the table, in order. -/
def table : List Label :=
  [.syncEl1Sp0, .irqEl1Sp0, .fiqEl1Sp0, .serrEl1Sp0, .syncEl1Spx, .irqEl1Spx, .fiqEl1Spx,
    .serrEl1Spx, .syncEl0A64, .irqEl0A64, .fiqEl0A64, .serrEl0A64, .syncEl0A32, .irqEl0A32,
    .fiqEl0A32, .serrEl0A32]

/-- The handlers, with the types that they pass on. -/
def handlers : List (Label × UInt64) :=
  [(.syncEl1Sp0, 0), (.irqEl1Sp0, 1), (.fiqEl1Sp0, 2), (.serrEl1Sp0, 3), (.syncEl1Spx, 4),
    (.irqEl1Spx, 5), (.fiqEl1Spx, 6), (.serrEl1Spx, 7), (.syncEl0A64, 8), (.irqEl0A64, 9),
    (.fiqEl0A64, 10), (.serrEl0A64, 11), (.syncEl0A32, 12), (.irqEl0A32, 13),
    (.fiqEl0A32, 14), (.serrEl0A32, 15)]

def handlerSection (handler : Label × UInt64) : List Item :=
  .symbol handler.1 :: exceptionHandler handler.2

def exceptionVectors : Program Op Condition Label Callee :=
  .symbol .exceptionVectorsEl1 :: table.flatMap exceptionEntry ++
    handlers.flatMap handlerSection ++ [.label 4, .call .halt]

/-! ## Running it -/

/-- What the file is linked with. -/
structure Image : Type where
  handleException : Machine → Option Machine
  platformReboot : Machine → Option Machine
  address : ℕ → UInt64

/-- `halt` is an endless loop. -/
def Image.environment (image : Image) : Environment Callee where
  call
    | .handleException => image.handleException
    | .platformReboot => image.platformReboot
    | .halt => fun _ => none
  address := image.address

/-- The processor takes an exception of a type. -/
def entry (kind : Fin 16) (m : Machine) : Config Machine := ⟨kind + 1, m⟩

/-- The exception comes to a call of `f`, which finds `m'`. -/
def Image.Calls (image : Image) (kind : Fin 16) (m : Machine) (f : Callee) (m' : Machine) :
    Prop :=
  Assembly.Calls image.environment.isa exceptionVectors (entry kind m) f m'

/-- The exception returns by `eret`, with `m'`. -/
def Image.Returns (image : Image) (kind : Fin 16) (m m' : Machine) : Prop :=
  Exits image.environment.isa exceptionVectors (entry kind m) m'

/-! ## From the table to the handler -/

variable {image : Image}

theorem table_handlers (kind : Fin 16) :
    ∃ label, table[kind.val]? = some label ∧ (label, UInt64.ofNat kind) ∈ handlers := by
  fin_cases kind <;> exact ⟨_, rfl, by decide⟩

/-- No label is placed twice. -/
theorem labels_nodup : (.exceptionVectorsEl1 :: handlers.map Prod.fst).Nodup := by decide

/-- A handler places no names. -/
theorem exceptionHandler_noSymbol (kindOfException : UInt64) (label : Label) :
    ∀ i ∈ exceptionHandler kindOfException, i.isSymbol label = false := by
  refine List.forall_mem_append.mpr ⟨isSymbol_ops label _, List.forall_mem_cons.mpr ⟨rfl, ?_⟩⟩
  let last : List Item := [.exit, .label 1, .call .platformReboot, .label 2, .call .halt]
  have others : ∀ i ∈ restoreRegisters.map .op ++ last, i.isSymbol label = false :=
    List.forall_mem_append.mpr ⟨isSymbol_ops label _, by simp [last, Item.isSymbol]⟩
  simpa only [takeAction, List.forall_mem_cons, Item.isSymbol, true_and] using others

/-- What comes before a handler does not place its name. -/
theorem front_noSymbol {label : Label} {kindOfException : UInt64}
    {before after : List (Label × UInt64)}
    (split : handlers = before ++ (label, kindOfException) :: after) :
    ∀ i ∈ Item.symbol .exceptionVectorsEl1 :: table.flatMap exceptionEntry ++
      before.flatMap handlerSection, i.isSymbol label = false := by
  have distinct := labels_nodup
  rw [split, List.map_append, List.map_cons, ← List.cons_append] at distinct
  have other : ∀ name ∈ .exceptionVectorsEl1 :: before.map Prod.fst, name ≠ label :=
    fun name member => (List.nodup_append.mp distinct).2.2 name member label List.mem_cons_self
  obtain ⟨table_, before_⟩ := List.forall_mem_cons.mp other
  refine List.forall_mem_append.mpr ⟨List.forall_mem_cons.mpr ⟨decide_eq_false table_, ?_⟩, ?_⟩
  · intro i member
    obtain ⟨target, _, here⟩ := List.mem_flatMap.mp member
    rw [List.mem_singleton.mp here]
    rfl
  · intro i member
    obtain ⟨handler, earlier, here⟩ := List.mem_flatMap.mp member
    rcases List.mem_cons.mp here with rfl | inside
    · exact decide_eq_false (before_ handler.1 (List.mem_map_of_mem earlier))
    · exact exceptionHandler_noSymbol handler.2 label i inside

/-- An exception comes to the handler of its type, with the machine as it was. -/
theorem comes_handler (image : Image) (kind : Fin 16) (m : Machine) :
    ∃ behind, Comes image.environment.isa exceptionVectors (entry kind m)
      (exceptionHandler (UInt64.ofNat kind) ++ behind) m := by
  obtain ⟨label, placed, member⟩ := table_handlers kind
  obtain ⟨before, after, split⟩ := List.append_of_mem member
  let behind : List Item := after.flatMap handlerSection ++ [.label 4, .call .halt]
  have whole : exceptionVectors = .symbol .exceptionVectorsEl1 :: table.flatMap exceptionEntry ++
      before.flatMap handlerSection ++ .symbol label ::
        (exceptionHandler (UInt64.ofNat kind) ++ behind) := by
    rw [exceptionVectors, split]
    simp [handlerSection, behind]
  have branch : exceptionVectors[kind.val + 1]? = some (.branch .always (.symbol label)) := by
    have entries : table.flatMap exceptionEntry = table.map fun l => .branch .always (.symbol l) :=
      List.map_eq_flatMap.symm
    have inside : kind.val < (table.map fun l => (.branch .always (.symbol l) : Item)).length :=
      kind.isLt
    rw [exceptionVectors, entries, List.append_assoc, List.cons_append, List.getElem?_cons_succ,
      List.getElem?_append_left inside, List.getElem?_map, placed]
    rfl
  have start : Comes image.environment.isa exceptionVectors (entry kind m)
      [.branch .always (.symbol label)] m := ⟨kind + 1, .refl, .of_getElem? branch⟩
  exact ⟨_, start.jump whole (front_noSymbol split) rfl⟩

end CharcoalOS.Arch
