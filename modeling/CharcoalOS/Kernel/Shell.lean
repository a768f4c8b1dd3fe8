import CharcoalOS.Kernel.Exceptions

/-!
# The shell

`kernel/Console/Shell.c`. A token is the offset of its first character in the command. The
handlers get the storage from each token on, as it is after tokenizing; they only read it.
-/

namespace CharcoalOS.Kernel

open Effect

/-! ## Tokenizing -/

def maxShellArgs : Nat := 10

/-- The characters between tokens: tab, space, CR and LF. -/
def isBlank (c : UInt8) : Bool := c = 9 || c = 32 || c = 13 || c = 10

/-- The loop of `tokenize_command` at index `i`, with `n` characters to go. The tokens so
far are `tokens`. -/
def tokenizeLoop (maxTokens : Nat) :
    Nat → Nat → List UInt8 → Bool → List Nat → Option (List UInt8 × List Nat)
  | 0, _, command, _, tokens => some (command, tokens)
  | n + 1, i, command, betweenTokens, tokens =>
      match command[i]? with
      | none => none
      | some c =>
          if c = 0 then some (command, tokens)
          else if isBlank c then tokenizeLoop maxTokens n (i + 1) (command.set i 0) true tokens
          else if betweenTokens then
            if maxTokens ≤ tokens.length then some (command, tokens)
            else tokenizeLoop maxTokens n (i + 1) command false (tokens ++ [i])
          else tokenizeLoop maxTokens n (i + 1) command betweenTokens tokens

/-- The command as it is afterwards, and its tokens. -/
def tokenizeCommand (command : List UInt8) (maxTokens : Nat) :
    Option (List UInt8 × List Nat) :=
  if maxTokens = 0 then some (command, [])
  else do
    let commandLength ← stringLength command
    if commandLength = 0 then some (command, [])
    else tokenizeLoop maxTokens commandLength 0 command false [0]

/-! ## Handlers -/

/-- The arguments of a command, its name first: each is the storage that `argv[i]` points to. -/
abbrev Argv : Type := List (List UInt8)

/-- `argv[i]`. -/
def Argv.get (argv : Argv) (i : Nat) : Routine (List UInt8) :=
  Code.ofOption .outOfBounds argv[i]?

/-- `console_uint64_from_hex(argv[i])`. -/
def Argv.hex (argv : Argv) (i : Nat) : Routine UInt64 := do
  let digits ← argv.get i
  Code.ofOption .outOfBounds (consoleUint64FromHex digits)

structure ShellCommand : Type where
  name : String
  helpText : String
  handler : Handler

def commands : List ShellCommand :=
  [⟨"add", "Add two unsigned hex numbers", .add⟩,
    ⟨"help", "Display this help message", .help⟩,
    ⟨"info", "Display information for debugging", .info⟩,
    ⟨"memread", "Read memory at address", .memread⟩,
    ⟨"panic", "Panic the kernel", .panic⟩,
    ⟨"reboot", "Reboot the system", .reboot⟩,
    ⟨"trapsvc", "Trigger a svc exception", .trapsvc⟩,
    ⟨"uptime", "Display milliseconds since last restart", .uptime⟩]

def addHandler (platform : Platform) (argv : Argv) : Routine Int :=
  if argv.length ≠ 3 then do
    consolePrint (cString "Usage: add 0x1234 0xdbca\n")
    pure 1
  else do
    let a ← argv.hex 1
    let b ← argv.hex 2
    let result := a + b
    printHex platform result
    consolePrint (cString "\n")
    pure 0

/-- The loop of `help_handler`. -/
def printCommands : List ShellCommand → Routine Unit
  | [] => pure ()
  | command :: commands => do
      consolePrint (cString command.name)
      consolePrint (cString "\t\t")
      consolePrint (cString command.helpText)
      consolePrint (cString "\n")
      printCommands commands

def helpHandler : Routine Int := do
  consolePrint (cString "CharcoalOS available commands:\n\n")
  printCommands commands
  consolePrint (cString "\n")
  pure 0

def Compiler.name : Compiler → String
  | .clang => "clang\n"
  | .gnuc => "gcc\n"
  | .other => "Unknown"

def archName : String := "arm64"

/-- A value of one byte, from `data[0]`. -/
def printHexChar (platform : Platform) (c : UInt8) : Routine Unit :=
  consolePrintHexValue platform [c] 1

/-- Pointers have 8 bytes. The two doubles are 3.125 and the square root of 2. -/
def infoHandler (platform : Platform) : Routine Int := do
  let info := platform.info
  consolePrint (cString "CharcoalOS built and linked on ")
  consolePrint (cString info.date)
  consolePrint (cString " ")
  consolePrint (cString info.time)
  consolePrint (cString "\n")
  consolePrint (cString "Compiler: ")
  consolePrint (cString info.compiler.name)
  consolePrint (cString "Pointer size (bytes): 0x")
  printHexChar platform 8
  consolePrint (cString "\n")
  consolePrint (cString "Hosted C environment: ")
  consolePrint (cString (if info.hosted then "yes\n" else "no\n"))
  consolePrint (cString "MMIO base address: 0x")
  printHex platform info.mmioBaseAddress
  consolePrint (cString "\n")
  consolePrint (cString "UART base address: 0x")
  printHex platform info.uartBaseAddress
  consolePrint (cString "\n")
  consolePrint (cString "Stack pointer: 0x")
  printHex platform info.stackPointerAddress
  consolePrint (cString "\n")
  consolePrint (cString "Current exception level: 0x")
  printHexChar platform info.currentExceptionLevel.toUInt8
  consolePrint (cString "\n")
  consolePrint (cString "MPIDR_EL1: 0x")
  printHex platform info.mpidrEl1
  consolePrint (cString "\n")
  consolePrint (cString "SCTLR_EL1: 0x")
  printHex platform info.sctlrEl1
  consolePrint (cString "\n")
  consolePrint (cString "Architecture: ")
  consolePrint (cString archName)
  consolePrint (cString "\n")
  consolePrint (cString "Platform: ")
  consolePrint (cString info.platformName)
  consolePrint (cString "\n")
  consolePrint (cString "System clock frequency (Hz): 0x")
  printHex platform platform.timerFrequency
  consolePrint (cString "\n")
  consolePrint (cString "Interrupt timer ticks per second: 0x")
  printHex platform interruptFrequencyInHz
  consolePrint (cString "\n")
  consolePrint (cString "3.125 (hex): 0x")
  printHex platform 0x4009000000000000
  consolePrint (cString "\n")
  consolePrint (cString "sqrt(2): 0x")
  printHex platform 0x3ff6a09e667f3bcd
  consolePrint (cString "\n")
  pure 0

/-- A load from memory. One that faults takes an exception, and is tried again if that
resumes. -/
def loadMemory (platform : Platform) (address : UInt64) : Routine UInt64 :=
  match platform.load address with
  | .ok contents => pure contents
  | .error exception => do
      takeException platform exception
      .fail .faulted

/-- The loop of `memread_handler`. -/
def readAddresses (platform : Platform) : Argv → Routine Unit
  | [] => pure ()
  | digits :: argv => do
      let address ← Code.ofOption .outOfBounds (consoleUint64FromHex digits)
      printHex platform address
      consolePrint (cString "    ")
      let contents ← loadMemory platform address
      printHex platform contents
      consolePrint (cString "\n")
      readAddresses platform argv

def memreadHandler (platform : Platform) (argv : Argv) : Routine Int := do
  readAddresses platform argv.tail
  pure 0

/-- `kernel_panic`, without a message if there is none. -/
def kernelPanic (panicMessage : Option (List UInt8)) : Routine Unit :=
  match panicMessage with
  | some message => do
      consolePrint message
      consolePrint (cString "\n\n")
      halt
  | none => halt

def panicHandler (argv : Argv) : Routine Int := do
  consolePrint (cString "Kernel panic\n\n")
  let panicMessage :=
    if 1 < argv.length then argv[1]? else if argv.length = 1 then argv[0]? else none
  kernelPanic panicMessage
  pure 0

def rebootHandler : Routine Int := do
  platformReboot
  pure 0

/-- `svc #0` in the kernel, with the number of the call in x8. -/
def svc (platform : Platform) (number : UInt64) : Routine Unit :=
  takeException platform { platform.atSvc with
    kindOfException := exceptionTypeSyncEl1Spx
    savedRegisters := platform.atSvc.savedRegisters.set 8 number eight_saved
    esrEl1 := 0x56000000 }

def trapsvcHandler (platform : Platform) (argv : Argv) : Routine Int :=
  if argv.length < 2 then do
    svc platform 4
    pure 0
  else do
    let systemCallRequested ← argv.hex 1
    svc platform systemCallRequested
    pure 0

def uptimeHandler (platform : Platform) : Routine Int := do
  let uptimeSeconds ← uptime
  consolePrint (cString "0x")
  printHex platform uptimeSeconds
  consolePrint (cString "\n")
  pure 0

/-- `commands[i].handler(argc, cargv)`. -/
def callHandler (platform : Platform) (handler : Handler) (argv : Argv) : Routine Int := do
  Code.emit (.handler handler)
  match handler with
  | .add => addHandler platform argv
  | .help => helpHandler
  | .info => infoHandler platform
  | .memread => memreadHandler platform argv
  | .panic => panicHandler argv
  | .reboot => rebootHandler
  | .trapsvc => trapsvcHandler platform argv
  | .uptime => uptimeHandler platform

/-! ## Dispatch -/

/-- The loop of `dispatch_command` over the commands that are left, and what follows it. -/
def dispatchLoop (platform : Platform) (argv : Argv) : List ShellCommand → Routine Unit
  | [] => do
      consolePrint (cString "Error: the command ")
      let name ← argv.get 0
      consolePrint name
      consolePrint (cString " could not be recognized. Type help for a list of commands.\n")
  | command :: commands => do
      let name ← argv.get 0
      let found ← Code.ofOption .outOfBounds (stringCompare name (cString command.name))
      if found then do
        let result ← callHandler platform command.handler argv
        if result ≠ 0 then do
          consolePrint (cString "Error: an error occurred in the command ")
          consolePrint name
          consolePrint (cString "\n")
        else pure ()
      else dispatchLoop platform argv commands

/-- The command as it is afterwards. -/
def dispatchCommand (platform : Platform) (command : List UInt8) : Routine (List UInt8) := do
  Code.emit (.dispatch (chars command))
  let (command, tokens) ← Code.ofOption .outOfBounds (tokenizeCommand command maxShellArgs)
  if tokens.length = 0 then pure command
  else do
    dispatchLoop platform (tokens.map command.drop) commands
    pure command

def printPrompt : Routine Unit := consolePrint (cString "> ")

def commandLength : Nat := 255

/-- One iteration of `run_shell_loop`; `command` is what the buffer holds before. -/
def shellStep (platform : Platform) (command : List UInt8) :
    Routine (Control (List UInt8) Unit) := do
  let command ← consoleReadLine command commandLength true
  let command ← dispatchCommand platform command
  printPrompt
  pure (.next command)

/-- The buffer is not initialised. Every iteration takes a character from the line. -/
def runShellLoop (platform : Platform) (command : Vector UInt8 commandLength) :
    Routine Unit := do
  printPrompt
  let s ← Code.current
  Code.loop .exhausted (shellStep platform) (s.received.length + 1) command.toList

end CharcoalOS.Kernel
