import CharcoalOS.Lib.Code

/-!
# The running kernel

What the kernel does once it runs is a `Routine`: code over the few globals it keeps and
the characters that the serial line still brings, with every effect on the outside as an
event. Between two steps of a routine an exception can be taken.

The calls of `dispatch_command` and of the command handlers are events too, so that runs
can be asked about them; nothing reads them.
-/

namespace CharcoalOS.Kernel

open Effect

/-- The handlers in the table of shell commands. -/
inductive Handler : Type
  | add
  | help
  | info
  | memread
  | panic
  | reboot
  | trapsvc
  | uptime
deriving DecidableEq, Repr

/-- What the kernel does to the outside. -/
inductive Event : Type
  | getc (c : UInt8)
  | putc (c : UInt8)
  | txFlush
  | readIar (iar : UInt32)
  | writeEoir (iar : UInt32)
  /-- `msr CNTP_TVAL_EL0`: the clock ticks until the next timer interrupt. -/
  | setTimer (clockTicks : UInt64)
  | storeInProgress (value : UInt64)
  /-- `msr daifset, #0xf`. -/
  | maskExceptions
  | dispatch (command : List UInt8)
  | handler (handler : Handler)
deriving DecidableEq, Repr

/-- Why a routine does not return. -/
inductive Stop : Type
  /-- `halt` spins. -/
  | halted
  /-- `platform_reboot` resets the system. -/
  | restarted
  /-- `platform_console_getc` spins, for nothing more is received. -/
  | waiting
  /-- An access past the end of its object. -/
  | outOfBounds
  /-- A load that faults, whenever it is tried again. -/
  | faulted
  /-- Not a behaviour of the code: a loop of the model ran out of fuel. -/
  | exhausted
deriving DecidableEq, Repr

/-- The globals of the kernel, and what the serial line still brings. -/
structure State : Type where
  received : List UInt8
  /-- `g_exception_in_progress` -/
  exceptionInProgress : UInt64
  /-- `g_ticks_since_boot` -/
  ticksSinceBoot : UInt64
deriving DecidableEq, Repr

/-- The globals as the kernel starts. -/
def State.boot (received : List UInt8) : State := ⟨received, 0, 0⟩

/-- x8 is one of the saved registers. -/
theorem eight_saved : 8 < 32 := by decide

/-- An exception as its handler finds it: its type, the array of saved registers, the system
registers, and what `GICC_IAR` will read as. -/
structure Exception : Type where
  kindOfException : UInt64
  savedRegisters : Vector UInt64 32
  esrEl1 : UInt64
  elrEl1 : UInt64
  spsrEl1 : UInt64
  farEl1 : UInt64
  iar : UInt32
deriving DecidableEq, Repr

inductive Compiler : Type
  | clang
  | gnuc
  | other
deriving DecidableEq, Repr

/-- What the kernel finds out about itself for the command `info`. -/
structure Info : Type where
  date : String
  time : String
  compiler : Compiler
  hosted : Bool
  mmioBaseAddress : UInt64
  uartBaseAddress : UInt64
  stackPointerAddress : UInt64
  currentExceptionLevel : UInt64
  mpidrEl1 : UInt64
  sctlrEl1 : UInt64
  platformName : String

/-- The machine that the kernel was built for and runs on. -/
structure Platform : Type where
  /-- `CHARCOALOS_BIG_ENDIAN` -/
  bigEndian : Bool
  /-- `CNTFRQ_EL0` -/
  timerFrequency : UInt64
  /-- What is at an address of memory, or the exception that loading it raises: the same each
  time. Memory that changes, and device registers that a load has an effect on, are left out. -/
  load : UInt64 → Except Exception UInt64
  /-- The registers that an `svc` instruction of the shell would find. -/
  atSvc : Exception
  info : Info

/-- An exception of a type, class and interrupt, with all registers zero but x8. -/
def Exception.plain (kindOfException esrEl1 x8 : UInt64) (iar : UInt32) : Exception :=
  ⟨kindOfException, (Vector.replicate 32 0).set 8 x8 eight_saved, esrEl1, 0, 0, 0, iar⟩

/-- QEMU's virt machine, with memory that reads as zero. -/
def Platform.virt : Platform where
  bigEndian := false
  timerFrequency := 62500000
  load := fun _ => .ok 0
  atSvc := .plain 4 0x56000000 0 0
  info := ⟨"Jan  1 2026", "00:00:00", .gnuc, false, 0x08000000, 0x09000000, 0x40100000, 1,
    0x80000000, 0x30d00800, "QEMU virt"⟩

abbrev Routine (α : Type) : Type := Code State Stop Event α

/-! ## Primitives -/

def platformConsolePutc (c : UInt8) : Routine Unit := Code.emit (.putc c)

/-- Waits for a character. -/
def platformConsoleGetc : Routine UInt8 :=
  .step (fun s => s.received.head?.toList.map .getc)
    (fun s => { s with received := s.received.tail })
    fun s => Code.ofOption .waiting s.received.head?

def halt {α : Type} : Routine α := do
  Code.emit .txFlush
  .fail .halted

/-- The reset comes before the call could return. -/
def platformReboot {α : Type} : Routine α := .fail .restarted

end CharcoalOS.Kernel
