import CharcoalOS.Kernel.Machine
import CharcoalOS.Kernel.String
import CharcoalOS.Lib.Digits

/-!
# The console

`kernel/Console/IO.c`. A buffer is the storage it points to; a function that writes to one
returns it as it is afterwards.
-/

namespace CharcoalOS.Kernel

open Effect

def consolePutc (c : UInt8) : Routine Unit := platformConsolePutc c

def consoleWrite : List UInt8 → Nat → Routine Unit
  | _, 0 => pure ()
  | [], _ + 1 => .fail .outOfBounds
  | character :: text, size + 1 => do
      (if character = 10 then consolePutc 13 else pure ())
      consolePutc character
      consoleWrite text size

def consolePrint (text : List UInt8) : Routine Unit := do
  let size ← Code.ofOption .outOfBounds (stringLength text)
  consoleWrite text size

def consoleGetc : Routine UInt8 := platformConsoleGetc

/-- `text[i] = c`. -/
def storeChar (text : List UInt8) (i : Nat) (c : UInt8) : Routine (List UInt8) :=
  if i < text.length then pure (text.set i c) else .fail .outOfBounds

/-- One iteration of `console_read_line`, at index `i` of the buffer. -/
def readLineStep (size : Nat) (echo : Bool) (text : List UInt8) (i : Nat) :
    Routine (Control (List UInt8 × Nat) (List UInt8)) :=
  if i + 1 < size then do
    let c ← consoleGetc
    if c = 10 ∨ c = 13 then do
      let text ← storeChar text i 0
      if echo then do
        consolePutc 13
        consolePutc 10
        pure (.done text)
      else pure (.done text)
    else if c = 8 ∨ c = 127 then
      if i = 0 then pure (.next (text, i))
      else do
        (if echo then consolePrint (cString "\x08 \x08") else pure ())
        pure (.next (text, i - 1))
    else do
      let text ← storeChar text i c
      (if echo then consolePutc c else pure ())
      pure (.next (text, i + 1))
  else do
    let text ← storeChar text i 0
    pure (.done text)

/-- Every iteration that completes takes a character from the line. -/
def consoleReadLine (text : List UInt8) (size : Nat) (echo : Bool) : Routine (List UInt8) :=
  if size = 0 then pure text
  else do
    let s ← Code.current
    Code.loop .exhausted (fun b => readLineStep size echo b.1 b.2) (s.received.length + 1)
      (text, 0)

/-! ## Numbers in hex -/

/-- The digit of a nibble, in upper case. -/
def hexDigit (nibble : UInt8) : UInt8 := if nibble > 9 then nibble + (65 - 10) else nibble + 48

def printHexByte (byte : UInt8) : Routine Unit := do
  let lo := hexDigit (byte &&& 15)
  let hi := hexDigit ((byte >>> 4) &&& 15)
  consolePutc hi
  consolePutc lo

def consolePrintHexBytes : List UInt8 → Nat → Routine Unit
  | _, 0 => pure ()
  | [], _ + 1 => .fail .outOfBounds
  | byte :: data, size + 1 => do
      printHexByte byte
      consolePrintHexBytes data size

/-- The loop of `console_print_hex_value`, down from index `i`. -/
def printHexDown (data : List UInt8) : Nat → Routine Unit
  | 0 => pure ()
  | i + 1 => do
      let byte ← Code.ofOption .outOfBounds data[i]?
      printHexByte byte
      printHexDown data i

def consolePrintHexValue (platform : Platform) (data : List UInt8) (size : Nat) : Routine Unit :=
  if platform.bigEndian then consolePrintHexBytes data size else printHexDown data size

/-- A value of `size` bytes as the host lays it out. -/
def hostBytes (platform : Platform) (size value : Nat) : List UInt8 :=
  let bytes := (Digits.fixed 256 size value).map UInt8.ofNat
  if platform.bigEndian then bytes else bytes.reverse

/-- `console_print_hex_value((void *)&value, 8)`. -/
def printHex (platform : Platform) (value : UInt64) : Routine Unit :=
  consolePrintHexValue platform (hostBytes platform 8 value.toNat) 8

/-- The loop of `console_uint64_from_hex`, with `n` characters to go at most. -/
def fromHexLoop : List UInt8 → Nat → UInt64 → Option UInt64
  | [], _, _ => none
  | c :: digits, n, result =>
      if c ≠ 0 ∧ 0 < n then
        if 48 ≤ c ∧ c ≤ 57 then
          fromHexLoop digits (n - 1) ((result <<< 4) ||| (c - 48).toUInt64)
        else if 65 ≤ c ∧ c ≤ 70 then
          fromHexLoop digits (n - 1) ((result <<< 4) ||| (c - 65 + 10).toUInt64)
        else if 97 ≤ c ∧ c ≤ 102 then
          fromHexLoop digits (n - 1) ((result <<< 4) ||| (c - 97 + 10).toUInt64)
        else some result
      else some result

/-- The optional prefix; 16 characters may follow it, as without it. -/
def skipHexPrefix : List UInt8 → List UInt8
  | d :: x :: digits => if d = 48 ∧ (x = 120 ∨ x = 88) then digits else d :: x :: digits
  | digits => digits

def consoleUint64FromHex (digits : List UInt8) : Option UInt64 :=
  fromHexLoop (skipHexPrefix digits) 16 0

end CharcoalOS.Kernel
