import CharcoalOS.Hardware.Regions
import CharcoalOS.Hardware.StringCompare

/-!
# `parse_device_tree_blob`

The function of `kernel/Hardware/DeviceTree.c`, cut where its comments cut it: the
header, the sanity checks, the memory reservation map, the walk over the struct
block, and the final checks. The walk is one loop over a record of its local
variables (`Walk`); `walkStep` is its body.

`node_name_length` is left out: the code computes it and never reads it.
-/

namespace CharcoalOS

open Effect Effect.Program

def fdtBeginNode : UInt32 := 0x1
def fdtEndNode : UInt32 := 0x2
def fdtProp : UInt32 := 0x3
def fdtNop : UInt32 := 0x4
def fdtEnd : UInt32 := 0x9

/-- An address in the struct block. -/
def structPointer (address : UInt64) : Pointer := ⟨.structBlock, address⟩

/-- The length and name offset of a property, and the address of its value. -/
structure Property : Type where
  length : UInt32
  nameOffset : UInt32
  data : UInt64
deriving DecidableEq, Repr

/-- `current_data_bytes`. -/
def Property.dataBytes (p : Property) : Pointer := structPointer p.data

/-- `prop_name`: an address in the strings block. -/
def propName (dtb : UInt64) (header : DTBHeader) (nameOffset : UInt32) : Pointer :=
  ⟨.stringsBlock, dtb + header.offDtStrings.toUInt64 + nameOffset.toUInt64⟩

/-- The local variables of the walk. -/
structure Walk : Type where
  addressCellsInitialized : Bool
  sizeCellsInitialized : Bool
  currentNodeReg : Pointer
  currentNodeRegSize : UInt32
  currentNodeDeviceType : CharPointer
  nodeName : CharPointer
  nodeDepth : UInt64
  endTokensEncountered : UInt64
  dtbCursor : UInt64
deriving DecidableEq, Repr

/-- The walk at the start of the struct block. -/
def Walk.initial (dtbCursor : UInt64) : Walk where
  addressCellsInitialized := false
  sizeCellsInitialized := false
  currentNodeReg := .null
  currentNodeRegSize := 0
  currentNodeDeviceType := .pointer .null
  nodeName := .literal ""
  nodeDepth := 0
  endTokensEncountered := 0
  dtbCursor := dtbCursor

section Model

variable (env : Env)

/-! ## Header -/

/-- `out_hw_info->header.field = read_be32_from_address(dtb + offset)`. -/
def readHeaderField (dtb offset : UInt64) (write : UInt32 → DTBHeader → DTBHeader) :
    Discovery Unit := do
  let value ← readBe32FromAddress env ⟨.header, dtb + offset⟩
  store .header fun info => info.setHeader (write value info.header)

/-- The null checks, the magic number and the header fields. `outHwInfo` is the
address of the record. -/
def readHeader (outHwInfo dtb : UInt64) : Discovery Unit := do
  panicIf env (outHwInfo = 0) "The hardware info output pointer is null"
  panicIf env (dtb = 0)
    "The hardware could not be recognized because the device table blob is null"
  readHeaderField env dtb 0 fun value header => { header with magic := value }
  let info ← current
  panicIf env (info.header.magic ≠ 0xd00dfeed)
    "The hardware could not be recognized because the device table blob is not in the expected format."
  readHeaderField env dtb 4 fun value header => { header with totalSize := value }
  let info ← current
  -- sizeof(struct DTBHeader) is 40
  panicIf env (info.header.totalSize < 40) "dtb table size smaller than expected header size"
  readHeaderField env dtb 8 fun value header => { header with offDtStruct := value }
  readHeaderField env dtb 12 fun value header => { header with offDtStrings := value }
  readHeaderField env dtb 16 fun value header => { header with offMemRsvmap := value }
  readHeaderField env dtb 20 fun value header => { header with version := value }
  readHeaderField env dtb 24 fun value header => { header with lastCompVersion := value }
  readHeaderField env dtb 28 fun value header => { header with bootCpuidPhys := value }
  readHeaderField env dtb 32 fun value header => { header with sizeDtStrings := value }
  readHeaderField env dtb 36 fun value header => { header with sizeDtStruct := value }

/-- One line of the header report. -/
def printHeaderField (label : String) (value : UInt32) : Discovery Unit := do
  consolePrint label
  consolePrintHexValue value.toUInt64 4
  consolePrint "\n"

def printHeader : Discovery Unit := do
  let info ← current
  printHeaderField "Device table blob (DTB) recognized with magic " info.header.magic
  printHeaderField "  Size:               0x" info.header.totalSize
  printHeaderField "  Struct offset:      0x" info.header.offDtStruct
  printHeaderField "  Strings offset:     0x" info.header.offDtStrings
  printHeaderField "  Memory rsv map:     0x" info.header.offMemRsvmap
  printHeaderField "  Version:            0x" info.header.version
  printHeaderField "  Last comp version:  0x" info.header.lastCompVersion
  printHeaderField "  Boot cpuid phys:    0x" info.header.bootCpuidPhys
  printHeaderField "  Strings size:       0x" info.header.sizeDtStrings
  printHeaderField "  Struct size:        0x" info.header.sizeDtStruct

/-- The sanity checks on the block offsets, in 64-bit arithmetic. -/
def checkHeader : Discovery Unit := do
  let info ← current
  panicIf env (info.header.offMemRsvmap ≥ info.header.totalSize)
    "Memory reservation map is out of bounds"
  panicIf env
    (info.header.offDtStruct.toUInt64 + info.header.sizeDtStruct.toUInt64 >
      info.header.totalSize.toUInt64)
    "DTB struct offset is out of bounds"
  panicIf env
    (info.header.offDtStrings.toUInt64 + info.header.sizeDtStrings.toUInt64 >
      info.header.totalSize.toUInt64)
    "DTB string offset is out of bounds"

/-! ## Memory reservation map -/

/-- One entry of the reservation map: a pair of 64-bit integers. -/
def reservedStep (dtb i : UInt64) : Discovery (Control UInt64 Unit) := do
  panicIf env (i ≥ 255) "Insufficient space to store reserved memory regions"
  let info ← current
  panicIf env
    (info.header.offMemRsvmap.toUInt64 + (16 * i + 16) > info.header.totalSize.toUInt64)
    "Reserved memory region would overflow header"
  let start := dtb + info.header.offMemRsvmap.toUInt64 + 16 * i
  let «end» := start + 8
  if «end» ≥ dtb + info.header.totalSize.toUInt64 then
    pure (.done ())
  else do
    let base ← readBe64FromAddress env ⟨.reservationMap, start⟩
    store (.reservedRegionBaseAddresses i.toNat) fun info =>
      info.setReservedBases (info.reservedRegionBaseAddresses.setIfInBounds i.toNat base)
    let size ← readBe64FromAddress env ⟨.reservationMap, «end»⟩
    store (.reservedRegionSizes i.toNat) fun info =>
      info.setReservedSizes (info.reservedRegionSizes.setIfInBounds i.toNat size)
    if base = 0 ∧ size = 0 then
      pure (.done ())
    else do
      store .reservedRegionsCount fun info =>
        info.setReservedCount (info.reservedRegionsCount + 1)
      consolePrint "Reserved memory region at base address 0x"
      consolePrintHexValue base 8
      consolePrint " of size 0x"
      consolePrintHexValue size 8
      consolePrint "\n"
      pure (.next (i + 1))

def readReservedRegions (dtb : UInt64) : Discovery Unit := do
  store .reservedRegionsCount (·.setReservedCount 0)
  loop .exhausted (reservedStep env dtb) env.fuel 0
  let info ← current
  consolePrint "Read 0x"
  consolePrintHexValue info.reservedRegionsCount 8
  consolePrint " reserved memory regions.\n"

/-! ## Tokens of the struct block -/

/-- `while (dtb_cursor % 4) { ++dtb_cursor; }` -/
def alignStep (dtbCursor : UInt64) : Discovery (Control UInt64 UInt64) :=
  if dtbCursor % 4 ≠ 0 then
    pure (.next (dtbCursor + 1))
  else
    pure (.done dtbCursor)

/-- Align to 4 bytes. Four runs of the condition are enough (`alignCursor_spec`). -/
def alignCursor (dtbCursor : UInt64) : Discovery UInt64 :=
  loop .exhausted alignStep 4 dtbCursor

/-- `while (*(char *)(dtb_cursor) != '\0')`: one byte of a node name. -/
def nodeNameStep (structEnd dtbCursor : UInt64) : Discovery (Control UInt64 UInt64) := do
  let byte ← readByte env (structPointer dtbCursor)
  if byte = 0 then
    pure (.done dtbCursor)
  else do
    panicIf env (dtbCursor + 1 > structEnd) "Malformed DTB: immediate node name overflow"
    panicIf env (dtbCursor + 1 = structEnd) "Malformed DTB: node name overflow"
    pure (.next (dtbCursor + 1))

/-- Move past a node name, its terminator and the padding. -/
def skipNodeName (structEnd dtbCursor : UInt64) : Discovery UInt64 := do
  panicIf env (dtbCursor = structEnd) "Malformed DTB: cannot parse node name"
  let terminator ← loop .exhausted (nodeNameStep env structEnd) env.fuel dtbCursor
  let dtbCursor ← alignCursor (terminator + 1)
  panicIf env (dtbCursor > structEnd) "Malformed DTB: token overflow after align"
  pure dtbCursor

/-- Read the metadata of a property and move past its value and the padding. -/
def readProperty (structEnd dtbCursor : UInt64) : Discovery (Property × UInt64) := do
  panicIf env (structEnd - dtbCursor < 8) "Malformed DTB: property metadata overflow"
  let propLength ← readBe32FromAddress env (structPointer dtbCursor)
  let propNameOffset ← readBe32FromAddress env (structPointer (dtbCursor + 4))
  let currentDataBytes := dtbCursor + 4 + 4
  panicIf env (propLength.toUInt64 > structEnd - currentDataBytes)
    "Malformed DTB: property length overflow"
  let dtbCursor ← alignCursor (currentDataBytes + propLength.toUInt64)
  panicIf env (dtbCursor > structEnd) "Malformed DTB: property value overflow"
  let info ← current
  panicIf env (propNameOffset ≥ info.header.sizeDtStrings)
    "Malformed DTB: property name overflow"
  pure (⟨propLength, propNameOffset, currentDataBytes⟩, dtbCursor)

/-! ## Properties -/

/-- Save `#address-cells` and `#size-cells` of a node whose name is empty. -/
def saveRootCells (name : CharPointer) (p : Property) (s : Walk) : Discovery Walk := do
  let isRoot ← stringCompareWithLength env s.nodeName (.literal "") 0 true
  if isRoot then do
    let isAddressCells ← stringCompareWithLength env name (.literal "#address-cells") 14 true
    if isAddressCells then do
      panicIf env (p.length ≠ 4) "Malformed DTB: #address-cells value is not 32-bit"
      let cells ← readBe32FromAddress env p.dataBytes
      store .addressCells (·.setAddressCells cells)
      pure { s with addressCellsInitialized := true }
    else do
      let isSizeCells ← stringCompareWithLength env name (.literal "#size-cells") 11 true
      if isSizeCells then do
        panicIf env (p.length ≠ 4) "Malformed DTB: #size-cells value is not 32-bit"
        let cells ← readBe32FromAddress env p.dataBytes
        store .sizeCells (·.setSizeCells cells)
        pure { s with sizeCellsInitialized := true }
      else
        pure s
  else
    pure s

/-- Save `device_type` and `reg` as the context of the current node. -/
def saveNodeProperty (name : CharPointer) (p : Property) (s : Walk) : Discovery Walk := do
  let isDeviceType ← stringCompareWithLength env name (.literal "device_type") 11 true
  if isDeviceType then
    if p.length = 7 then do
      let isMemory ←
        stringCompareWithLength env (.pointer p.dataBytes) (.literal "memory") 6 true
      if isMemory then
        pure { s with currentNodeDeviceType := .literal "memory" }
      else
        pure s
    else
      pure s
  else do
    let isReg ← stringCompareWithLength env name (.literal "reg") 3 true
    if isReg then
      pure { s with currentNodeReg := p.dataBytes, currentNodeRegSize := p.length }
    else
      pure s

/-- Decode the regions of the current node if it is a memory node. The null check is
on `current_node_reg` only. -/
def decodeNode (s : Walk) : Discovery Unit := do
  if s.currentNodeReg.address ≠ 0 then do
    emit (.compareDeviceType s.currentNodeDeviceType)
    let isMemory ←
      stringCompareWithLength env s.currentNodeDeviceType (.literal "memory") 6 true
    if isMemory then
      if s.addressCellsInitialized ∧ s.sizeCellsInitialized then do
        let info ← current
        physicalMemoryRegions env info.addressCells info.sizeCells s.currentNodeReg
          s.currentNodeRegSize.toUInt64
      else
        panicReturn env
          "Malformed DTB: must initialize both address cells and size cells before reading memory reg"
    else
      pure ()
  else
    pure ()

/-- The rest of the `FDT_PROP` case, once the cursor is past the property. -/
def handleProperty (dtb : UInt64) (p : Property) (s : Walk) : Discovery Walk := do
  let info ← current
  let name := CharPointer.pointer (propName dtb info.header p.nameOffset)
  let s ← saveRootCells env name p s
  let s ← saveNodeProperty env name p s
  decodeNode env s
  pure s

/-! ## The walk -/

/-- `switch (token)`, with the cursor past the token. -/
def handleToken (dtb structEnd : UInt64) (s : Walk) (token : UInt32) (dtbCursor : UInt64) :
    Discovery Walk := do
  if token = fdtBeginNode then do
    let next ← skipNodeName env structEnd dtbCursor
    pure { s with
      nodeDepth := s.nodeDepth + 1
      nodeName := .pointer (structPointer dtbCursor)
      currentNodeDeviceType := .pointer .null
      currentNodeReg := .null
      dtbCursor := next }
  else if token = fdtEndNode then do
    panicIf env (s.nodeDepth = 0)
      "Malformed DTB: end node token without matching begin node token"
    pure { s with nodeDepth := s.nodeDepth - 1, dtbCursor := dtbCursor }
  else if token = fdtProp then do
    let (p, next) ← readProperty env structEnd dtbCursor
    handleProperty env dtb p { s with dtbCursor := next }
  else if token = fdtNop then
    pure { s with dtbCursor := dtbCursor }
  else if token = fdtEnd then
    pure { s with
      endTokensEncountered := s.endTokensEncountered + 1
      dtbCursor := structEnd }
  else
    panicReturn env "Malformed DTB: Unrecognized DTB token"

/-- One iteration of the walk. -/
def walkStep (dtb structEnd : UInt64) (s : Walk) : Discovery (Control Walk Walk) := do
  panicIf env (s.dtbCursor > structEnd) "Malformed DTB: cursor out of bounds"
  if structEnd - s.dtbCursor < 4 then
    pure (.done s)
  else do
    let token ← readBe32FromAddress env (structPointer s.dtbCursor)
    panicIf env (s.dtbCursor + 4 > structEnd) "Malformed DTB: token overflow"
    let s ← handleToken env dtb structEnd s token (s.dtbCursor + 4)
    pure (.next s)

/-- The first address of the struct block. -/
def structStart (dtb : UInt64) (header : DTBHeader) : UInt64 :=
  dtb + header.offDtStruct.toUInt64

/-- `struct_end`. -/
def structEnd (dtb : UInt64) (header : DTBHeader) : UInt64 :=
  dtb + header.offDtStruct.toUInt64 + header.sizeDtStruct.toUInt64

def walkStruct (dtb : UInt64) : Discovery Walk := do
  let info ← current
  loop .exhausted (walkStep env dtb (structEnd dtb info.header)) env.fuel
    (Walk.initial (structStart dtb info.header))

/-- The checks after the walk, and the report. -/
def finishWalk (s : Walk) : Discovery Unit := do
  panicIf env (s.nodeDepth ≠ 0) "Malformed DTB: node begin / end token mismatch"
  panicIf env (s.endTokensEncountered ≠ 1)
    "Malformed DTB: DTB did not include exactly one FDT_END token"
  let info ← current
  consolePrint "Memory addresses are 0x"
  consolePrintHexValue (32 * info.addressCells).toUInt64 4
  consolePrint " bits\nMemory region sizes are 0x"
  consolePrintHexValue (32 * info.sizeCells).toUInt64 4
  consolePrint " bits \n"

/-- Everything before the memory reservation map. -/
def readCheckedHeader (outHwInfo dtb : UInt64) : Discovery Unit := do
  readHeader env outHwInfo dtb
  printHeader
  checkHeader env

/-- Everything before the walk. -/
def readPrologue (outHwInfo dtb : UInt64) : Discovery Unit := do
  readCheckedHeader env outHwInfo dtb
  readReservedRegions env dtb

/-- `parse_device_tree_blob`. -/
def parseDeviceTreeBlob (outHwInfo dtb : UInt64) : Discovery Unit :=
  functionBody do
    readPrologue env outHwInfo dtb
    let s ← walkStruct env dtb
    finishWalk env s

end Model

end CharcoalOS
