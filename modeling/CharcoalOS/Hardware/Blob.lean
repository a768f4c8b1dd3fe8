import CharcoalOS.Hardware.DeviceTree
import CharcoalOS.Kernel.String

/-!
# Blobs written out

The bytes of a flattened device tree: the header, an empty memory reservation map, the
struct block and the strings block, laid out in this order at an address of memory.
-/

namespace CharcoalOS

/-- A 32-bit integer, most significant byte first. -/
def word (n : UInt32) : List UInt8 :=
  [(n >>> 24).toUInt8, (n >>> 16).toUInt8, (n >>> 8).toUInt8, n.toUInt8]

/-- Padded to a multiple of 4 bytes. -/
def padded (bytes : List UInt8) : List UInt8 :=
  bytes ++ List.replicate ((4 - bytes.length % 4) % 4) 0

/-- A struct block and a strings block. -/
structure Blob : Type where
  structBlock : List UInt8
  stringsBlock : List UInt8

namespace Blob

def beginNode (name : String) : List UInt8 := word fdtBeginNode ++ padded (cString name)

def endNode : List UInt8 := word fdtEndNode

def prop (nameOffset : UInt32) (value : List UInt8) : List UInt8 :=
  word fdtProp ++ word (UInt32.ofNat value.length) ++ word nameOffset ++ padded value

def fdtEnd : List UInt8 := word CharcoalOS.fdtEnd

/-- The header is 40 bytes long, and the reservation map one entry. -/
def bytes (blob : Blob) : List UInt8 :=
  let offDtStrings := 56 + blob.structBlock.length
  word 0xd00dfeed ++ word (UInt32.ofNat (offDtStrings + blob.stringsBlock.length)) ++
    word 56 ++ word (UInt32.ofNat offDtStrings) ++ word 40 ++ word 17 ++ word 16 ++ word 0 ++
    word (UInt32.ofNat blob.stringsBlock.length) ++ word (UInt32.ofNat blob.structBlock.length) ++
    List.replicate 16 0 ++ blob.structBlock ++ blob.stringsBlock

/-- Where a blob is put in memory. -/
def address : UInt64 := 0x1000

/-- Memory with the blob in it, zero elsewhere, under a kernel whose panics halt. -/
def env (blob : Blob) : Env where
  memory := fun a => blob.bytes.getD (a - address).toNat 0
  panicReturns := false
  fuel := 2 ^ 64

end Blob

/-- The names of the properties that the parser saves. -/
def savedNames : List UInt8 :=
  cString "#address-cells" ++ cString "#size-cells" ++ cString "device_type" ++ cString "reg"

/-- Where `savedNames` has them. -/
def addressCellsOffset : UInt32 := 0
def sizeCellsOffset : UInt32 := 15
def deviceTypeOffset : UInt32 := 27
def regOffset : UInt32 := 39

/-- The cell counts of a root whose addresses and sizes are 32 bits wide. -/
def narrowCells : List UInt8 :=
  Blob.prop addressCellsOffset (word 1) ++ Blob.prop sizeCellsOffset (word 1)

/-- A memory node with one region. -/
def memoryNode (base size : UInt32) : List UInt8 :=
  Blob.beginNode "memory" ++ Blob.prop deviceTypeOffset (cString "memory") ++
    Blob.prop regOffset (word base ++ word size) ++ Blob.endNode

/-- A root with one memory node. -/
def memoryBlob : Blob where
  structBlock := Blob.beginNode "" ++ narrowCells ++ memoryNode 0x40000000 0x1000 ++
    Blob.endNode ++ Blob.fdtEnd
  stringsBlock := savedNames

theorem memoryBlob_returned :
    (parseDeviceTreeBlob memoryBlob.env 1 Blob.address .zero).outcome = .ok () := by
  decide +kernel

end CharcoalOS
