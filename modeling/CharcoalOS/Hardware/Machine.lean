import CharcoalOS.Lib.Loop

/-!
# Memory, pointers and the hardware record

The discovery code (`kernel/Hardware/DeviceTree.c`, `kernel/Memory/Memory.c`,
`kernel/String/String.c`, `kernel/Hardware/Endian.h`) reads untrusted bytes
through raw addresses and writes one `struct HardwareInfo`. Here memory is a
function of the 64-bit address, the record is the state of a `Discovery`
program, and everything the code does to the outside is an event: each byte
read, each store to the record, each call of the console and of `kernel_panic`.

A pointer carries the block it was derived from. The code cannot see this
`Origin`; it is there so that "read through the struct cursor" can be said of an
event.
-/

namespace CharcoalOS

open Effect Effect.Program

/-- The bytes at all addresses. Nothing the discovery code stores is read back
through it: the record lies outside the blob. -/
abbrev Memory : Type := UInt64 → UInt8

/-- The block of memory that an address was computed from. -/
inductive Origin : Type
  | null
  | header
  | reservationMap
  | structBlock
  | stringsBlock
deriving DecidableEq, Repr

/-- An address (`uintptr_t`, `void *`) with the block it was derived from. -/
structure Pointer : Type where
  origin : Origin
  address : UInt64
deriving DecidableEq, Repr

/-- `NULL`. Reading through it reads address 0. -/
def Pointer.null : Pointer := ⟨.null, 0⟩

/-- Pointer arithmetic on bytes; wraps at 2^64. -/
def Pointer.offset (p : Pointer) (n : UInt64) : Pointer := ⟨p.origin, p.address + n⟩

@[simp] theorem Pointer.offset_address (p : Pointer) (n : UInt64) :
    (p.offset n).address = p.address + n := rfl

/-- A `char *`: a string literal of the kernel image, or an address. -/
inductive CharPointer : Type
  | literal (text : String)
  | pointer (p : Pointer)
deriving DecidableEq, Repr

/-- `struct DTBHeader`, in host byte order. -/
structure DTBHeader : Type where
  magic : UInt32
  totalSize : UInt32
  offDtStruct : UInt32
  offDtStrings : UInt32
  offMemRsvmap : UInt32
  version : UInt32
  lastCompVersion : UInt32
  bootCpuidPhys : UInt32
  sizeDtStrings : UInt32
  sizeDtStruct : UInt32
deriving DecidableEq, Repr

/-- `struct MemoryRegion`. -/
structure MemoryRegion : Type where
  baseAddress : UInt64
  size : UInt64
deriving DecidableEq, Repr

/-- `struct HardwareInfo`. -/
structure HardwareInfo : Type where
  header : DTBHeader
  addressCells : UInt32
  sizeCells : UInt32
  physicalMemoryRegions : Vector MemoryRegion 16
  physicalMemoryRegionCount : UInt64
  reservedRegionBaseAddresses : Vector UInt64 255
  reservedRegionSizes : Vector UInt64 255
  reservedRegionsCount : UInt64
deriving DecidableEq

/-- `static struct HardwareInfo hw_info = {0}`, as `kernel_init` declares it. -/
def HardwareInfo.zero : HardwareInfo where
  header := ⟨0, 0, 0, 0, 0, 0, 0, 0, 0, 0⟩
  addressCells := 0
  sizeCells := 0
  physicalMemoryRegions := Vector.replicate 16 ⟨0, 0⟩
  physicalMemoryRegionCount := 0
  reservedRegionBaseAddresses := Vector.replicate 255 0
  reservedRegionSizes := Vector.replicate 255 0
  reservedRegionsCount := 0

section Setters

variable (info : HardwareInfo)

def HardwareInfo.setHeader (header : DTBHeader) : HardwareInfo :=
  { info with header := header }

def HardwareInfo.setAddressCells (cells : UInt32) : HardwareInfo :=
  { info with addressCells := cells }

def HardwareInfo.setSizeCells (cells : UInt32) : HardwareInfo :=
  { info with sizeCells := cells }

def HardwareInfo.setRegions (regions : Vector MemoryRegion 16) : HardwareInfo :=
  { info with physicalMemoryRegions := regions }

def HardwareInfo.setRegionCount (count : UInt64) : HardwareInfo :=
  { info with physicalMemoryRegionCount := count }

def HardwareInfo.setReservedBases (bases : Vector UInt64 255) : HardwareInfo :=
  { info with reservedRegionBaseAddresses := bases }

def HardwareInfo.setReservedSizes (sizes : Vector UInt64 255) : HardwareInfo :=
  { info with reservedRegionSizes := sizes }

def HardwareInfo.setReservedCount (count : UInt64) : HardwareInfo :=
  { info with reservedRegionsCount := count }

end Setters

/-- The part of the record a store goes to; an array store names its index. -/
inductive Field : Type
  | header
  | addressCells
  | sizeCells
  | physicalMemoryRegions (index : Nat)
  | physicalMemoryRegionCount
  | reservedRegionBaseAddresses (index : Nat)
  | reservedRegionSizes (index : Nat)
  | reservedRegionsCount
deriving DecidableEq, Repr

/-- An array store at an index the array has; any other store. -/
def Field.InBounds : Field → Prop
  | .physicalMemoryRegions index => index < 16
  | .reservedRegionBaseAddresses index => index < 255
  | .reservedRegionSizes index => index < 255
  | _ => True

instance (field : Field) : Decidable field.InBounds := by
  cases field <;> unfold Field.InBounds <;> infer_instance

/-- What the outside sees of a run. `compareDeviceType` and `decodeRegions` mark
the two places where `parse_device_tree_blob` hands on its node context. -/
inductive Event : Type
  | read (p : Pointer)
  | store (field : Field)
  | print (text : String)
  | printHexValue (value : UInt64) (size : Nat)
  | compareDeviceType (text : CharPointer)
  | decodeRegions (addressCells sizeCells : UInt32) (reg : Pointer) (regSize : UInt64)
  | panic (message : String)
deriving DecidableEq, Repr

/-- Why a run ended early: `kernel_panic` did not return, the C function executed
`return`, or a loop had no fuel left. -/
inductive Stop : Type
  | halted
  | returned
  | exhausted
deriving DecidableEq, Repr

/-- Code that fills in a hardware record. -/
abbrev Discovery : Type → Type := Program HardwareInfo Stop Event

/-- What a run depends on besides its arguments: the memory, whether
`kernel_panic` returns (it does in the unit tests; the kernel's does not), and the
fuel of its `while` loops. -/
structure Env : Type where
  memory : Memory
  panicReturns : Bool
  fuel : Nat

section Primitives

variable (env : Env)

/-- A store to the hardware record. -/
def store (field : Field) (write : HardwareInfo → HardwareInfo) : Discovery Unit := do
  update write
  emit (.store field)

/-- `console_print`. -/
def consolePrint (text : String) : Discovery Unit := emit (.print text)

/-- `console_print_hex_value` of a `size`-byte value. -/
def consolePrintHexValue (value : UInt64) (size : Nat) : Discovery Unit :=
  emit (.printHexValue value size)

/-- `kernel_panic`: print the message and halt. -/
def kernelPanic (message : String) : Discovery Unit := do
  emit (.panic message)
  if env.panicReturns then
    pure ()
  else do
    consolePrint message
    consolePrint "\n\n"
    fail .halted

/-- `kernel_panic(message); return;` -/
def panicReturn {α : Type} (message : String) : Discovery α := do
  kernelPanic env message
  fail .returned

/-- `if (condition) { kernel_panic(message); return; }` -/
def panicIf (condition : Prop) [Decidable condition] (message : String) : Discovery Unit :=
  if condition then
    panicReturn env message
  else
    pure ()

/-- The body of a `void` function: its `return` ends the function, not its caller. -/
def functionBody (body : Discovery Unit) : Discovery Unit :=
  handling
    (fun
      | .returned => some ()
      | _ => none)
    body

/-- The byte at `p`. -/
def readByte (p : Pointer) : Discovery UInt8 := do
  emit (.read p)
  pure (env.memory p.address)

end Primitives

/-! ## What the primitives do -/

section PrimitiveSpecs

variable {env : Env} {info : HardwareInfo}

/-- Panicking prints, and touches neither memory nor the record. -/
def IsPanicOutput (message : String) (e : Event) : Prop :=
  e = .panic message ∨ e = .print message ∨ e = .print "\n\n"

/-- A panic is among the events. -/
def Panicked (evs : List Event) : Prop := ∃ message, .panic message ∈ evs

@[simp] theorem not_panicked_nil : ¬ Panicked [] := nofun

@[simp] theorem panicked_append {evs evs' : List Event} :
    Panicked (evs ++ evs') ↔ Panicked evs ∨ Panicked evs' := by
  simp only [Panicked, List.mem_append, exists_or]

@[simp] theorem panicked_cons {e : Event} {evs : List Event} :
    Panicked (e :: evs) ↔ (∃ message, e = .panic message) ∨ Panicked evs := by
  simp only [Panicked, List.mem_cons, exists_or, eq_comm]

/-- How `kernel_panic(message); return;` ends. -/
structure Panics (env : Env) (message : String) (e : Stop) (evs : List Event) : Prop where
  not_exhausted : e ≠ .exhausted
  halted : env.panicReturns = false → e = .halted
  panic_mem : .panic message ∈ evs
  output : ∀ e ∈ evs, IsPanicOutput message e

/-- A stop in a panic: the kernel's own `kernel_panic` halts. -/
def PanicStop (env : Env) (e : Stop) : Prop :=
  e ≠ .exhausted ∧ (env.panicReturns = false → e = .halted)

theorem Panics.panicStop {message : String} {e : Stop} {evs : List Event}
    (panics : Panics env message e evs) : PanicStop env e :=
  ⟨panics.not_exhausted, panics.halted⟩

@[simp] theorem wp_store {field : Field} {write : HardwareInfo → HardwareInfo}
    {Q : Post HardwareInfo Stop Event Unit} :
    wp (store field write) Q info ↔ Q (.ok ()) (write info) [.store field] := Iff.rfl

@[simp] theorem wp_consolePrint {text : String} {Q : Post HardwareInfo Stop Event Unit} :
    wp (consolePrint text) Q info ↔ Q (.ok ()) info [.print text] := Iff.rfl

@[simp] theorem wp_consolePrintHexValue {value : UInt64} {size : Nat}
    {Q : Post HardwareInfo Stop Event Unit} :
    wp (consolePrintHexValue value size) Q info ↔
      Q (.ok ()) info [.printHexValue value size] := Iff.rfl

@[simp] theorem wp_readByte {p : Pointer} {Q : Post HardwareInfo Stop Event UInt8} :
    wp (readByte env p) Q info ↔ Q (.ok (env.memory p.address)) info [.read p] := Iff.rfl

theorem panicReturn_spec {α : Type} (message : String) :
    wp (panicReturn env message : Discovery α)
      (fun o info' evs => ∃ e, o = .error e ∧ info' = info ∧ Panics env message e evs)
      info := by
  simp only [panicReturn, kernelPanic, wp_bind, wp_emit, seqPost_ok, wp_ite, wp_pure,
    wp_consolePrint, wp_fail, seqPost_error]
  cases mode : env.panicReturns with
  | false =>
      exact ⟨_, rfl, trivial, ⟨by simp, fun _ => rfl, by simp, by simp [IsPanicOutput]⟩⟩
  | true =>
      exact ⟨_, rfl, trivial, ⟨by simp, by simp [mode], by simp, by simp [IsPanicOutput]⟩⟩

/-- A check either fails, and the run ends, or the run goes on. -/
theorem wp_panicIf {condition : Prop} [Decidable condition] {message : String}
    {Q : Post HardwareInfo Stop Event Unit}
    (failed : condition → ∀ e evs, Panics env message e evs → Q (.error e) info evs)
    (passed : ¬condition → Q (.ok ()) info []) :
    wp (panicIf env condition message) Q info := by
  rw [panicIf, wp_ite]
  split
  · rename_i bad
    apply wp_mono (panicReturn_spec message)
    intro o info' evs post
    obtain ⟨e, rfl, rfl, panics⟩ := post
    exact failed bad e evs panics
  · rename_i good
    exact passed good

theorem emits_store {P : Event → Prop} {field : Field} {write : HardwareInfo → HardwareInfo}
    (stored : P (.store field)) : Emits P (store field write) := by
  intro info e member
  rw [List.mem_singleton.mp member]
  exact stored

theorem emits_panicIf {P : Event → Prop} {condition : Prop} [Decidable condition]
    {message : String} (output : ∀ e, IsPanicOutput message e → P e) :
    Emits P (panicIf env condition message) := by
  refine emits_iff.mpr fun info => wp_panicIf (fun _ e evs panics => ?_) (fun _ => ?_)
  · exact fun event member => output event (panics.output event member)
  · exact List.forall_mem_nil _

/-- `return` ends the function body only. -/
theorem wp_functionBody {body : Discovery Unit} {Q : Post HardwareInfo Stop Event Unit}
    (run : wp body
      (fun o info' evs => Q (if o = .error .returned then .ok () else o) info' evs) info) :
    wp (functionBody body) Q info := by
  rw [functionBody, wp_handling]
  apply wp_mono run
  intro o info' evs post
  match o with
  | .ok () => simpa using post
  | .error .returned => simpa using post
  | .error .halted => simpa using post
  | .error .exhausted => simpa using post

end PrimitiveSpecs

end CharcoalOS
