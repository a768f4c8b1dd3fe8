import CharcoalOS.Hardware.Contents
import CharcoalOS.Kernel.Session
import CharcoalOS.Lib.Lowering
import CharcoalOS.Lib.Zoom

/-!
# The life of the kernel

`kernel/Main/Main.c`, `kernel/Main/Lifecycle.c` and the set-up of the timer in
`arch/arm64/Interrupt.c`. The kernel starts with interrupts masked; `initialize_timer` unmasks
them, and from there on a timer interrupt can be taken between any two steps.

`parse_device_tree_blob` is run as modelled in `Hardware`: what it does to the outside comes one
event after the other, each line on the console, and its record is there when it returns.
-/

namespace CharcoalOS.Kernel

open Effect Effect.Code

/-! ## The machine -/

inductive Target : Type
  | virt
  | rpi
deriving DecidableEq, Repr

inductive SystemRegister : Type
  | cntfrqEl0
  | cntpTvalEl0
  | cntpCtlEl0
deriving DecidableEq, Repr

/-- An access to the interrupt controller, to a system register, or a barrier. -/
inductive BoardAccess : Type
  | load (address : UInt64) (value : UInt32)
  | store (address : UInt64) (value : UInt32)
  | storeByte (address : UInt64) (value : UInt8)
  | mrs (register : SystemRegister) (value : UInt64)
  | msr (register : SystemRegister) (value : UInt64)
  | dsb
  | isb
  | daifClr (bits : UInt8)
deriving DecidableEq, Repr

/-- What is done to the outside while the kernel starts and runs. -/
inductive BootEvent : Type
  | kernel (event : Event)
  | access (access : BoardAccess)
  | discovery (event : CharcoalOS.Event)
deriving DecidableEq, Repr

/-- The board, as the kernel finds it. -/
structure Board : Type where
  target : Target
  /-- What the registers of the interrupt controller read as. None of them is loaded again after
  it has been stored to. -/
  registers : UInt64 → UInt32
  /-- `CNTP_CTL_EL0` -/
  cntpCtl : UInt64
  /-- Where `hw_info` lies. -/
  hwInfoAddress : UInt64
  hwInfoPlaced : hwInfoAddress ≠ 0
  /-- What `run_shell_loop` finds in its buffer. -/
  buffer : Vector UInt8 commandLength

/-- The foreground clients that the source has. -/
inductive Client : Type
  | runDefaultForegroundClient
deriving DecidableEq, Repr

structure Machine : Type where
  globals : State
  /-- `hw_info` -/
  hwInfo : HardwareInfo
  /-- `g_foreground_client` -/
  foregroundClient : Option Client
  irqMasked : Bool

/-- The machine as `_start` leaves it. -/
def Machine.start (received : List UInt8) : Machine := ⟨.boot received, .zero, none, true⟩

/-- The globals that exception handlers see. -/
def globals : Lens Machine State where
  get m := m.globals
  set m s := { m with globals := s }
  get_set _ _ := rfl
  set_get _ := rfl
  set_set _ _ _ := rfl

/-- A timer interrupt is taken, for it is not masked. -/
def Interrupted (platform : Platform) (e : Exception) (m m' : Machine) : Prop :=
  m.irqMasked = false ∧ TimerTaken platform e m.globals m'.globals ∧
    m' = { m with globals := m'.globals }

abbrev Boot (α : Type) : Type := Code Machine Stop BootEvent α

def onGlobals {α : Type} (c : Routine α) : Boot α := c.zoom globals .kernel

def access (a : BoardAccess) : Boot Unit := Code.emit (.access a)

/-! ## The timer -/

section Timer

variable (platform : Platform) (board : Board)

def Target.gicdBase : Target → UInt64
  | .virt => 0x08000000
  | .rpi => 0xFF841000

def Target.giccBase : Target → UInt64
  | .virt => 0x08010000
  | .rpi => 0xFF842000

def Board.gicdCtlr : UInt64 := board.target.gicdBase + 0x000
def Board.gicdTyper : UInt64 := board.target.gicdBase + 0x004
def Board.gicdIidr : UInt64 := board.target.gicdBase + 0x008
def Board.gicdIgroupr0 : UInt64 := board.target.gicdBase + 0x080
def Board.gicdIsenabler0 : UInt64 := board.target.gicdBase + 0x100
def Board.gicdIpriorityr : UInt64 := board.target.gicdBase + 0x400
def Board.giccCtlr : UInt64 := board.target.giccBase + 0x000
def Board.giccPmr : UInt64 := board.target.giccBase + 0x004
def Board.giccIidr : UInt64 := board.target.giccBase + 0x0FC

def loadRegister (address : UInt64) : Boot UInt32 := do
  access (.load address (board.registers address))
  pure (board.registers address)

/-- `*address |= bits`. -/
def orRegister (address : UInt64) (bits : UInt32) : Boot Unit := do
  let value ← loadRegister board address
  access (.store address (value ||| bits))

/-- A value of four bytes. -/
def printHexWord (value : UInt32) : Routine Unit :=
  consolePrintHexValue platform (hostBytes platform 4 value.toNat) 4

def printTimerDiagnostics : Boot Unit := do
  let gicdTyper ← loadRegister board board.gicdTyper
  let gicdIidr ← loadRegister board board.gicdIidr
  let giccIidr ← loadRegister board board.giccIidr
  onGlobals (consolePrint (cString "Timer diagnostics\n  GICD_TYPER: 0x"))
  onGlobals (printHexWord platform gicdTyper)
  onGlobals (consolePrint (cString "\n  GICD_IIDR:  0x"))
  onGlobals (printHexWord platform gicdIidr)
  onGlobals (consolePrint (cString "\n  GICC_IIDR:  0x"))
  onGlobals (printHexWord platform giccIidr)
  onGlobals (consolePrint (cString "\n"))

/-- The timer's bit in the registers that have one for each interrupt. -/
def timerBit : UInt32 := 1 <<< timerInterruptId

def initializeTimer : Boot Unit := do
  access (.mrs .cntfrqEl0 platform.timerFrequency)
  let clockTicksPerInterrupt := platform.timerFrequency / interruptFrequencyInHz
  access (.msr .cntpTvalEl0 clockTicksPerInterrupt)
  access (.mrs .cntpCtlEl0 board.cntpCtl)
  access (.msr .cntpCtlEl0 ((board.cntpCtl &&& ~~~0x3) ||| 0x1))
  orRegister board board.gicdIsenabler0 timerBit
  access (.storeByte (board.gicdIpriorityr + timerInterruptId.toUInt64) 0x80)
  access (.store board.giccPmr 0xff)
  match board.target with
  | .rpi => do
      orRegister board board.gicdIgroupr0 timerBit
      orRegister board board.gicdCtlr 0x2
      orRegister board board.giccCtlr 0x2
  | .virt => do
      orRegister board board.gicdCtlr 0x1
      orRegister board board.giccCtlr 0x1
  access .dsb
  access .isb
  Code.store (.access (.daifClr 0x2)) fun m => { m with irqMasked := false }

end Timer

/-! ## Starting and running -/

section Lifecycle

variable (platform : Platform) (board : Board) (env : Env)

/-- What the parser does to the outside. -/
def carryOut : CharcoalOS.Event → Boot Unit
  | .print text => onGlobals (consolePrint (cString text))
  | .printHexValue value size =>
      onGlobals (consolePrintHexValue platform (hostBytes platform size value.toNat) size)
  | e => Code.emit (.discovery e)

/-- `parse_device_tree_blob(&hw_info, dtb)`. -/
def parseBlob (dtb : UInt64) : Boot Unit := do
  let m ← Code.current
  let parsed := parseDeviceTreeBlob env board.hwInfoAddress dtb m.hwInfo
  driveAll (carryOut platform) parsed.events
  Code.update fun m => { m with hwInfo := parsed.state }
  match parsed.outcome with
  | .ok _ => pure ()
  | .error .returned => pure ()
  | .error .halted => onGlobals halt
  | .error .exhausted => .fail .exhausted

/-- The loop of `kernel_init` at index `i`, with `n` regions to go. -/
def printRegions (info : HardwareInfo) : ℕ → ℕ → Routine Unit
  | 0, _ => pure ()
  | n + 1, i => do
      consolePrint (cString "Physical memory region at base address 0x")
      let region ← Code.ofOption .outOfBounds info.physicalMemoryRegions[i]?
      printHex platform region.baseAddress
      consolePrint (cString " with size 0x")
      printHex platform region.size
      consolePrint (cString " bytes\n")
      printRegions info n (i + 1)

def kernelSetForegroundClient (client : Option Client) : Boot Unit :=
  Code.update fun m => { m with foregroundClient := client }

def kernelInit (dtb : UInt64) : Boot Unit := do
  printTimerDiagnostics platform board
  onGlobals (consolePrint (cString "Initializing timer... "))
  initializeTimer platform board
  onGlobals (consolePrint (cString "done.\n"))
  onGlobals (consolePrint
    (cString "Parsing device tree blob for hardware information...\n"))
  parseBlob platform board env dtb
  let m ← Code.current
  onGlobals (printRegions platform m.hwInfo m.hwInfo.physicalMemoryRegionCount.toNat 0)
  onGlobals (consolePrint (cString "\nWelcome to CharcoalOS.\n"))
  let m ← Code.current
  if m.foregroundClient = none then
    kernelSetForegroundClient (some .runDefaultForegroundClient)
  else pure ()

def kernelHalt : Boot Unit := onGlobals halt

def kernelRun : Boot Unit := do
  let m ← Code.current
  match m.foregroundClient with
  | none => onGlobals halt
  | some .runDefaultForegroundClient => onGlobals (runShellLoop platform board.buffer)

def kmain (dtb : UInt64) : Boot Unit := do
  kernelInit platform board env dtb
  kernelRun platform board
  kernelHalt

end Lifecycle

end CharcoalOS.Kernel
