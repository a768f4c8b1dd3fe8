import CharcoalOS.Kernel.Console

/-!
# Exceptions

`arch/arm64/ExceptionHandler.c`, `arch/arm64/Interrupt.c` and `kernel/Time/Uptime.c`, and
what the vector table does with the answer of `handle_exception`.
-/

namespace CharcoalOS.Kernel

open Effect

/-! ## Uptime -/

def interruptFrequencyInHz : UInt64 := 100

def uptime : Routine UInt64 := do
  let s ← Code.current
  pure (1000 * s.ticksSinceBoot / interruptFrequencyInHz)

/-- The counter is volatile: it is loaded, and then stored. -/
def incrementUptimeByOneTick : Routine Unit := do
  let s ← Code.current
  Code.update fun t => { t with ticksSinceBoot := s.ticksSinceBoot + 1 }

/-! ## Interrupts -/

def timerInterruptId : UInt32 := 0x1e

/-- The interrupt's number in `GICC_IAR`. -/
def interruptId (iar : UInt32) : UInt32 := iar &&& 0x3ff

def handleInterruptException (platform : Platform) (iar : UInt32) : Routine Bool := do
  Code.emit (.readIar iar)
  let handled ← (if interruptId iar = timerInterruptId then (do
      incrementUptimeByOneTick
      Code.emit (.setTimer (platform.timerFrequency / interruptFrequencyInHz))
      pure true)
    else pure false)
  Code.emit (.writeEoir iar)
  pure handled

/-! ## Types and classes -/

def exceptionTypeSyncEl1Sp0 : UInt64 := 0
def exceptionTypeSyncEl1Spx : UInt64 := 4
def exceptionTypeIrqEl1Spx : UInt64 := 5
def exceptionTypeSyncEl064 : UInt64 := 8
def exceptionTypeSyncEl032 : UInt64 := 12

def exceptionClassSvcAarch64 : UInt64 := 0x15

def exceptionActionResume : UInt64 := 0
def exceptionActionRestart : UInt64 := 1
def exceptionActionPanic : UInt64 := 2

def exceptionTypeString (kindOfException : UInt64) : String :=
  match kindOfException.toNat with
  | 0 => "SYNC_EL1_SP0"
  | 1 => "IRQ_EL1_SP0"
  | 2 => "FIQ_EL1_SP0"
  | 3 => "SERROR_EL1_SP0"
  | 4 => "SYNC_EL1_SPX"
  | 5 => "IRQ_EL1_SPX"
  | 6 => "FIQ_EL1_SPX"
  | 7 => "SERROR_EL1_SPX"
  | 8 => "SYNC_EL0_64"
  | 9 => "IRQ_EL0_64"
  | 10 => "FIQ_EL0_64"
  | 11 => "SERROR_EL0_64"
  | 12 => "SYNC_EL0_32"
  | 13 => "IRQ_EL0_32"
  | 14 => "FIQ_EL0_32"
  | 15 => "SERROR_EL0_32"
  | _ => "UNKNOWN_EXCEPTION_TYPE"

def exceptionClassFromEsrEl1 (esrEl1Value : UInt64) : UInt64 := (esrEl1Value >>> 26) &&& 0x3f

def issFromEsrEl1 (esrEl1Value : UInt64) : UInt64 := esrEl1Value &&& 0x01ffffff

def exceptionClassToString (exceptionClass : UInt64) : String :=
  match exceptionClass.toNat with
  | 0x00 => "EXCEPTION_CLASS_UNKNOWN"
  | 0x01 => "EXCEPTION_CLASS_TRAPPED_WFI_WFE"
  | 0x03 => "EXCEPTION_CLASS_TRAPPED_MCR_MRC_CP15"
  | 0x04 => "EXCEPTION_CLASS_TRAPPED_MCRR_MRRC_CP15"
  | 0x05 => "EXCEPTION_CLASS_TRAPPED_MCR_MRC_CP14"
  | 0x06 => "EXCEPTION_CLASS_TRAPPED_LDC_STC"
  | 0x07 => "EXCEPTION_CLASS_TRAPPED_SIMD_FP_SVE_SME"
  | 0x09 => "EXCEPTION_CLASS_TRAPPED_POINTER_AUTHENTICATION"
  | 0x0A => "EXCEPTION_CLASS_TRAPPED_OTHER_INSTRUCTION"
  | 0x0C => "EXCEPTION_CLASS_TRAPPED_MRRC_CP14"
  | 0x0D => "EXCEPTION_CLASS_BRANCH_TARGET"
  | 0x0E => "EXCEPTION_CLASS_ILLEGAL_EXECUTION_STATE"
  | 0x11 => "EXCEPTION_CLASS_SVC_AARCH32"
  | 0x14 => "EXCEPTION_CLASS_TRAPPED_SYSREG128_SYSINSTR128"
  | 0x15 => "EXCEPTION_CLASS_SVC_AARCH64"
  | 0x18 => "EXCEPTION_CLASS_TRAPPED_MSR_MRS_SYSTEM_AARCH64"
  | 0x19 => "EXCEPTION_CLASS_TRAPPED_SVE"
  | 0x1A => "EXCEPTION_CLASS_TRAPPED_ERET_ERETAA_ERETAB"
  | 0x1C => "EXCEPTION_CLASS_PAC_FAIL"
  | 0x1D => "EXCEPTION_CLASS_TRAPPED_SME"
  | 0x20 => "EXCEPTION_CLASS_INSTRUCTION_ABORT_LOWER_EL"
  | 0x21 => "EXCEPTION_CLASS_INSTRUCTION_ABORT_SAME_EL"
  | 0x22 => "EXCEPTION_CLASS_PC_ALIGNMENT_FAULT"
  | 0x24 => "EXCEPTION_CLASS_DATA_ABORT_LOWER_EL"
  | 0x25 => "EXCEPTION_CLASS_DATA_ABORT_SAME_EL"
  | 0x26 => "EXCEPTION_CLASS_SP_ALIGNMENT_FAULT"
  | 0x27 => "EXCEPTION_CLASS_MEMORY_OPERATION"
  | 0x28 => "EXCEPTION_CLASS_TRAPPED_FP_EXCEPTION_AARCH32"
  | 0x2C => "EXCEPTION_CLASS_TRAPPED_FP_EXCEPTION_AARCH64"
  | 0x2D => "EXCEPTION_CLASS_GCS"
  | 0x2F => "EXCEPTION_CLASS_SERROR"
  | 0x30 => "EXCEPTION_CLASS_BREAKPOINT_LOWER_EL"
  | 0x31 => "EXCEPTION_CLASS_BREAKPOINT_SAME_EL"
  | 0x32 => "EXCEPTION_CLASS_SOFTWARE_STEP_LOWER_EL"
  | 0x33 => "EXCEPTION_CLASS_SOFTWARE_STEP_SAME_EL"
  | 0x34 => "EXCEPTION_CLASS_WATCHPOINT_LOWER_EL"
  | 0x35 => "EXCEPTION_CLASS_WATCHPOINT_SAME_EL"
  | 0x38 => "EXCEPTION_CLASS_BKPT_AARCH32"
  | 0x3C => "EXCEPTION_CLASS_BRK_AARCH64"
  | 0x3D => "EXCEPTION_CLASS_PROFILING"
  | _ => "EXCEPTION_CLASS_<unknown>"

def isSyncExceptionType (kindOfException : UInt64) : Bool :=
  kindOfException == exceptionTypeSyncEl1Sp0 || kindOfException == exceptionTypeSyncEl1Spx ||
    kindOfException == exceptionTypeSyncEl064 || kindOfException == exceptionTypeSyncEl032

/-! ## The handler -/

def storeInProgress (value : UInt64) : Routine Unit :=
  Code.store (.storeInProgress value) fun s => { s with exceptionInProgress := value }

theorem register_saved (n : Nat) : 31 - n < 32 := Nat.lt_succ_of_le (Nat.sub_le 31 n)

/-- The dump of the saved registers, with `n` of the 32 to go. -/
def printSavedRegisters (platform : Platform) (savedRegisters : Vector UInt64 32) :
    Nat → Routine Unit
  | 0 => pure ()
  | n + 1 => do
      let i := 31 - n
      consolePrint (cString "0x")
      printHex platform (UInt64.ofNat i)
      consolePrint (cString " 0x")
      printHex platform (getElem savedRegisters i (register_saved n))
      consolePrint (cString "\n")
      printSavedRegisters platform savedRegisters n

/-- What `handle_exception` prints about an exception that it cannot handle. -/
def printDiagnostics (platform : Platform) (exception : Exception) : Routine Unit := do
  let exceptionClass := exceptionClassFromEsrEl1 exception.esrEl1
  consolePrint (cString "\n\nSorry, a system error has occurred.\n")
  consolePrint (cString "Type =  0x")
  printHex platform exception.kindOfException
  consolePrint (cString " = ")
  consolePrint (cString (exceptionTypeString exception.kindOfException))
  consolePrint (cString "\n")
  consolePrint (cString "Class = 0x")
  printHex platform exceptionClass
  consolePrint (cString " = ")
  consolePrint (cString (exceptionClassToString exceptionClass))
  consolePrint (cString "\nISS   = 0x")
  printHex platform (issFromEsrEl1 exception.esrEl1)
  consolePrint (cString "\n\n")
  consolePrint (cString "ESR_EL1:  0x")
  printHex platform exception.esrEl1
  consolePrint (cString "\nELR_EL1:  0x")
  printHex platform exception.elrEl1
  consolePrint (cString "\nSPSR_EL1: 0x")
  printHex platform exception.spsrEl1
  consolePrint (cString "\nFAR_EL1:  0x")
  printHex platform exception.farEl1
  consolePrint (cString "\n\n")
  consolePrint (cString "Saved registers (Register Value): \n")
  printSavedRegisters platform exception.savedRegisters 32
  consolePrint (cString "Kernel panic: your computer must be restarted.\n")

/-- The rest of `handle_exception`, for an exception that it cannot handle. -/
def handleUnhandled (platform : Platform) (exception : Exception) : Routine UInt64 := do
  let s ← Code.current
  if s.exceptionInProgress ≠ 0 then halt
  else do
    storeInProgress 1
    Code.emit .maskExceptions
    printDiagnostics platform exception
    pure exceptionActionPanic

/-- The system registers are read on entry, before anything else can happen. -/
def handleException (platform : Platform) (exception : Exception) : Routine UInt64 :=
  let exceptionClass := exceptionClassFromEsrEl1 exception.esrEl1
  if exception.kindOfException = exceptionTypeIrqEl1Spx then do
    let handled ← handleInterruptException platform exception.iar
    if handled then pure exceptionActionResume else handleUnhandled platform exception
  else if isSyncExceptionType exception.kindOfException ∧
      exceptionClass = exceptionClassSvcAarch64 then
    let systemCallNumberRequested := getElem exception.savedRegisters 8 eight_saved
    if systemCallNumberRequested = 0x4444 then do
      consolePrint (cString "System call received: 0x4444 ... restart\n")
      pure exceptionActionRestart
    else if systemCallNumberRequested ≠ 0x7777 then do
      consolePrint (cString "System call received: 0x")
      printHex platform systemCallNumberRequested
      consolePrint (cString "\n")
      storeInProgress 0
      pure exceptionActionResume
    else handleUnhandled platform exception
  else handleUnhandled platform exception

/-- What the vector table does with the answer: it returns, reboots or halts. -/
def performAction (action : UInt64) : Routine Unit :=
  if action = exceptionActionResume then pure ()
  else if action = exceptionActionRestart then platformReboot
  else halt

/-- The whole activation, from the vector table on. -/
def takeException (platform : Platform) (exception : Exception) : Routine Unit := do
  let action ← handleException platform exception
  performAction action

end CharcoalOS.Kernel
