import CharcoalOS.Hardware.Machine

/-!
# Big-endian loads

`kernel/Hardware/Endian.h` assembles a big-endian integer from bytes read one at
a time, so the value does not depend on the host byte order.
-/

namespace CharcoalOS

open Effect Effect.Program

variable (env : Env)

/-- `read_be32_from_address`. -/
def readBe32FromAddress (address : Pointer) : Discovery UInt32 := do
  let byte0 ← readByte env (address.offset 0)
  let byte1 ← readByte env (address.offset 1)
  let byte2 ← readByte env (address.offset 2)
  let byte3 ← readByte env (address.offset 3)
  pure ((byte0.toUInt32 <<< 24) ||| (byte1.toUInt32 <<< 16) |||
    (byte2.toUInt32 <<< 8) ||| byte3.toUInt32)

/-- `read_be64_from_address`. -/
def readBe64FromAddress (address : Pointer) : Discovery UInt64 := do
  let byte0 ← readByte env (address.offset 0)
  let byte1 ← readByte env (address.offset 1)
  let byte2 ← readByte env (address.offset 2)
  let byte3 ← readByte env (address.offset 3)
  let byte4 ← readByte env (address.offset 4)
  let byte5 ← readByte env (address.offset 5)
  let byte6 ← readByte env (address.offset 6)
  let byte7 ← readByte env (address.offset 7)
  pure ((byte0.toUInt64 <<< 56) ||| (byte1.toUInt64 <<< 48) |||
    (byte2.toUInt64 <<< 40) ||| (byte3.toUInt64 <<< 32) |||
    (byte4.toUInt64 <<< 24) ||| (byte5.toUInt64 <<< 16) |||
    (byte6.toUInt64 <<< 8) ||| byte7.toUInt64)

/-! ## The values and reads of a load -/

/-- The big-endian 32-bit integer at `a`. -/
def be32 (mem : Memory) (a : UInt64) : UInt32 :=
  ((mem (a + 0)).toUInt32 <<< 24) ||| ((mem (a + 1)).toUInt32 <<< 16) |||
    ((mem (a + 2)).toUInt32 <<< 8) ||| (mem (a + 3)).toUInt32

/-- The big-endian 64-bit integer at `a`. -/
def be64 (mem : Memory) (a : UInt64) : UInt64 :=
  ((mem (a + 0)).toUInt64 <<< 56) ||| ((mem (a + 1)).toUInt64 <<< 48) |||
    ((mem (a + 2)).toUInt64 <<< 40) ||| ((mem (a + 3)).toUInt64 <<< 32) |||
    ((mem (a + 4)).toUInt64 <<< 24) ||| ((mem (a + 5)).toUInt64 <<< 16) |||
    ((mem (a + 6)).toUInt64 <<< 8) ||| (mem (a + 7)).toUInt64

/-- The reads of the `n` bytes from `p` on, in order. -/
def byteReads (p : Pointer) (n : Nat) : List Event :=
  (List.range n).map fun i => .read (p.offset (UInt64.ofNat i))

@[simp] theorem mem_byteReads {p : Pointer} {n : Nat} {e : Event} :
    e ∈ byteReads p n ↔ ∃ i < n, e = .read (p.offset (UInt64.ofNat i)) := by
  simp only [byteReads, List.mem_map, List.mem_range, eq_comm]

@[simp] theorem not_panicked_byteReads {p : Pointer} {n : Nat} : ¬ Panicked (byteReads p n) := by
  intro panicked
  obtain ⟨message, member⟩ := panicked
  obtain ⟨i, -, eq⟩ := mem_byteReads.mp member
  cases eq

variable {env} {info : HardwareInfo}

@[simp] theorem wp_readBe32FromAddress {p : Pointer}
    {Q : Post HardwareInfo Stop Event UInt32} :
    wp (readBe32FromAddress env p) Q info ↔
      Q (.ok (be32 env.memory p.address)) info (byteReads p 4) := Iff.rfl

@[simp] theorem wp_readBe64FromAddress {p : Pointer}
    {Q : Post HardwareInfo Stop Event UInt64} :
    wp (readBe64FromAddress env p) Q info ↔
      Q (.ok (be64 env.memory p.address)) info (byteReads p 8) := Iff.rfl

theorem emits_readBe32FromAddress {P : Event → Prop} {p : Pointer}
    (reads : ∀ e ∈ byteReads p 4, P e) : Emits P (readBe32FromAddress env p) :=
  fun _ => reads

theorem emits_readBe64FromAddress {P : Event → Prop} {p : Pointer}
    (reads : ∀ e ∈ byteReads p 8, P e) : Emits P (readBe64FromAddress env p) :=
  fun _ => reads

end CharcoalOS
