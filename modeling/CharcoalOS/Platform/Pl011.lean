import CharcoalOS.Lib.Rely

/-!
# The serial port

`platform/virt/IO.c` and `platform/rpi/IO.c` drive a PL011 by polling its flag register. The
device is modelled with its two FIFOs, the byte in its shift register, and the line on either
side; it moves between any two accesses of the driver.

The driver functions are the same on both platforms. A poll loop that is run out of its fuel is
`spinning`: the flag has been up at each poll.

* `ensures_uartPutc`: whatever the device does meanwhile, `uart_putc` never overflows the FIFO,
  and the byte goes behind everything accepted before.
* `ensures_uartGetc`: `uart_getc` returns the next byte that the line brings, unless the device
  has dropped one.
* `ensures_txFlush`: after the flush everything accepted is on the line.
-/

namespace CharcoalOS.Platform

open Effect Effect.Code

/-! ## FIFOs -/

/-- A queue of at most `depth` entries. -/
structure Fifo (α : Type) (depth : ℕ) : Type where
  contents : List α
  fits : contents.length ≤ depth
deriving DecidableEq, Repr

namespace Fifo

variable {α : Type} {depth : ℕ} (q : Fifo α depth) (a : α)

def Full : Prop := depth ≤ q.contents.length

instance : Decidable q.Full := inferInstanceAs (Decidable (depth ≤ q.contents.length))

theorem fits_tail : q.contents.tail.length ≤ depth :=
  (List.tail_sublist q.contents).length_le.trans q.fits

theorem fits_append (room : ¬ q.Full) : (q.contents ++ [a]).length ≤ depth := by
  rw [List.length_append, List.length_singleton]
  exact Nat.lt_of_not_le room

def pop : Fifo α depth := ⟨q.contents.tail, q.fits_tail⟩

/-- What is pushed into a full queue is gone. -/
def push : Fifo α depth := if room : q.Full then q else ⟨q.contents ++ [a], q.fits_append a room⟩

@[simp] theorem contents_pop : q.pop.contents = q.contents.tail := rfl

theorem contents_push (room : ¬ q.Full) : (q.push a).contents = q.contents ++ [a] := by
  rw [push, dif_neg room]

theorem not_full_pop (room : ¬ q.Full) : ¬ q.pop.Full := by
  have shorter := (List.tail_sublist q.contents).length_le
  simp only [Full, contents_pop] at room ⊢
  omega

end Fifo

/-! ## The device -/

/-- A PL011 with FIFOs of `depth` entries, and the line on either side of it. -/
structure Pl011 (depth : ℕ) : Type where
  transmit : Fifo UInt8 depth
  /-- The shift register. -/
  shifting : Option UInt8
  /-- What has been sent. -/
  line : List UInt8
  /-- What was written to the full transmit FIFO. -/
  lost : List UInt8
  /-- Bytes received, with their error bits. -/
  receive : Fifo UInt32 depth
  /-- What the other side still sends. -/
  incoming : List UInt8
  /-- What came while the receive FIFO was full. -/
  dropped : List UInt8
  /-- The bits of the flag register that the driver does not look at. -/
  lines : UInt32
deriving DecidableEq, Repr

/-- What the device, or the other side, does by itself. -/
inductive Move : Type
  /-- The next byte goes to the shift register. -/
  | start
  /-- The byte in the shift register has been sent. -/
  | finish
  /-- A byte comes in, perhaps with errors. -/
  | arrive (errors : UInt32)
  | setLines (lines : UInt32)
deriving DecidableEq, Repr

def uartFrTxff : UInt32 := (1 : UInt32) <<< 5
def uartFrRxfe : UInt32 := (1 : UInt32) <<< 4
def uartFrBusy : UInt32 := (1 : UInt32) <<< 3
def uartFrTxfe : UInt32 := (1 : UInt32) <<< 7

/-- A bit of the flag register. -/
def flag (up : Prop) [Decidable up] (mask : UInt32) : UInt32 := if up then mask else 0

namespace Pl011

variable {depth : ℕ} (u : Pl011 depth)

/-- Not all is sent. -/
def Busy : Prop := u.transmit.contents ≠ [] ∨ u.shifting ≠ none

instance : Decidable u.Busy :=
  inferInstanceAs (Decidable (u.transmit.contents ≠ [] ∨ u.shifting ≠ none))

/-- `UART0_FR` -/
def flags : UInt32 :=
  (u.lines &&& 0xffffff47) ||| flag (u.transmit.contents = []) uartFrTxfe |||
    flag u.transmit.Full uartFrTxff ||| flag (u.receive.contents = []) uartFrRxfe |||
    flag u.Busy uartFrBusy

/-- A store to `UART0_DR`. -/
def write (value : UInt32) : Pl011 depth :=
  if u.transmit.Full then { u with lost := u.lost ++ [value.toUInt8] }
  else { u with transmit := u.transmit.push value.toUInt8 }

/-- What a load of `UART0_DR` reads. -/
def data : UInt32 := u.receive.contents.headD 0

/-- After a load of `UART0_DR`. -/
def read : Pl011 depth := { u with receive := u.receive.pop }

def move : Move → Pl011 depth
  | .start =>
      match u.shifting, u.transmit.contents with
      | none, b :: _ => { u with transmit := u.transmit.pop, shifting := some b }
      | _, _ => u
  | .finish =>
      match u.shifting with
      | some b => { u with line := u.line ++ [b], shifting := none }
      | none => u
  | .arrive errors =>
      match u.incoming with
      | [] => u
      | b :: bs =>
          if u.receive.Full then { u with incoming := bs, dropped := u.dropped ++ [b] }
          else { u with
            incoming := bs
            receive := u.receive.push (b.toUInt32 ||| errors <<< 8) }
  | .setLines lines => { u with lines := lines }

/-- What has been taken from the driver, in order. -/
def accepted : List UInt8 := u.line ++ u.shifting.toList ++ u.transmit.contents

/-- What the line brings that the driver has not read, as long as nothing is dropped. -/
def brought : List UInt8 := u.receive.contents.map UInt32.toUInt8 ++ u.incoming

/-- The device as one of the others. -/
def Moved (m : Move) (u u' : Pl011 depth) : Prop := u' = u.move m

end Pl011

/-! ## The driver -/

/-- An access to a register. -/
inductive Access : Type
  | readFr (value : UInt32)
  | writeDr (value : UInt32)
  | readDr (value : UInt32)
deriving DecidableEq, Repr

/-- Why the driver does not return. -/
inductive Stuck : Type
  /-- The flag has been up at each poll. -/
  | spinning
  /-- Not a behaviour of the driver: it has read something else than the kernel is told. -/
  | misread
deriving DecidableEq, Repr

abbrev Driver (depth : ℕ) (α : Type) : Type := Code (Pl011 depth) Stuck Access α

section Driver

variable {depth : ℕ}

def platformUart0Flags : Driver depth UInt32 :=
  .step (fun u => [.readFr u.flags]) id fun u => .done u.flags

def storeUart0Dr (value : UInt32) : Driver depth Unit :=
  Code.store (.writeDr value) fun u => u.write value

def loadUart0Dr : Driver depth UInt32 :=
  .step (fun u => [.readDr u.data]) Pl011.read fun u => .done u.data

/-- `while (UART0_FR is up) {}`, with `fuel` polls. -/
def pollWhile (up : UInt32 → Bool) (fuel : ℕ) : Driver depth Unit :=
  Code.loop .spinning (fun _ => do
    let flags ← platformUart0Flags
    pure (if up flags then .next () else .done ())) fuel ()

def uartPutc (fuel : ℕ) (c : UInt8) : Driver depth Unit := do
  pollWhile (fun flags => flags &&& uartFrTxff ≠ 0) fuel
  storeUart0Dr c.toUInt32

def uartGetc (fuel : ℕ) : Driver depth UInt8 := do
  pollWhile (fun flags => flags &&& uartFrRxfe ≠ 0) fuel
  let value ← loadUart0Dr
  pure value.toUInt8

def platformConsoleTxFlush (fuel : ℕ) : Driver depth Unit := do
  pollWhile (fun flags => flags &&& uartFrTxfe = 0) fuel
  pollWhile (fun flags => flags &&& uartFrBusy ≠ 0) fuel

end Driver

/-! ## What the flags tell -/

section Flags

variable {depth : ℕ} (u : Pl011 depth)

theorem flag_and (up : Prop) [Decidable up] (mask mask' : UInt32) :
    flag up mask &&& mask' = flag up (mask &&& mask') := by
  unfold flag
  split
  · rfl
  · exact UInt32.zero_and

theorem flag_zero (up : Prop) [Decidable up] : flag up 0 = 0 := ite_self 0

theorem flag_eq_zero {up : Prop} [Decidable up] {mask : UInt32} (bit : mask ≠ 0) :
    flag up mask = 0 ↔ ¬ up := by
  unfold flag
  split
  · exact iff_of_false bit (not_not.mpr ‹up›)
  · exact iff_of_true rfl ‹¬ up›

theorem or_and_mask (a b mask : UInt32) : (a ||| b) &&& mask = (a &&& mask) ||| (b &&& mask) :=
  UInt32.toBitVec_inj.mp BitVec.and_or_distrib_right

/-- One mask, bit by bit. -/
theorem flags_and (mask : UInt32) :
    u.flags &&& mask = (u.lines &&& (0xffffff47 &&& mask)) |||
      flag (u.transmit.contents = []) (uartFrTxfe &&& mask) |||
      flag u.transmit.Full (uartFrTxff &&& mask) |||
      flag (u.receive.contents = []) (uartFrRxfe &&& mask) |||
      flag u.Busy (uartFrBusy &&& mask) := by
  unfold Pl011.flags
  simp only [or_and_mask, flag_and, UInt32.and_assoc]

/-- A mask of one bit: the other bits do not matter. -/
theorem flags_and_eq_zero {mask a b c d : UInt32} (lines : 0xffffff47 &&& mask = 0)
    (txfe : uartFrTxfe &&& mask = a) (txff : uartFrTxff &&& mask = b)
    (rxfe : uartFrRxfe &&& mask = c) (busy : uartFrBusy &&& mask = d) :
    u.flags &&& mask = flag (u.transmit.contents = []) a ||| flag u.transmit.Full b |||
      flag (u.receive.contents = []) c ||| flag u.Busy d := by
  rw [flags_and, lines, txfe, txff, rxfe, busy, UInt32.and_zero, UInt32.zero_or]

theorem txff_iff : u.flags &&& uartFrTxff = 0 ↔ ¬ u.transmit.Full := by
  rw [flags_and_eq_zero u (a := 0) (b := uartFrTxff) (c := 0) (d := 0) rfl rfl rfl rfl rfl]
  simp only [flag_zero, UInt32.zero_or, UInt32.or_zero]
  exact flag_eq_zero (by decide)

theorem rxfe_iff : u.flags &&& uartFrRxfe = 0 ↔ u.receive.contents ≠ [] := by
  rw [flags_and_eq_zero u (a := 0) (b := 0) (c := uartFrRxfe) (d := 0) rfl rfl rfl rfl rfl]
  simp only [flag_zero, UInt32.zero_or, UInt32.or_zero]
  exact flag_eq_zero (by decide)

theorem txfe_iff : u.flags &&& uartFrTxfe = 0 ↔ u.transmit.contents ≠ [] := by
  rw [flags_and_eq_zero u (a := uartFrTxfe) (b := 0) (c := 0) (d := 0) rfl rfl rfl rfl rfl]
  simp only [flag_zero, UInt32.or_zero]
  exact flag_eq_zero (by decide)

theorem busy_iff : u.flags &&& uartFrBusy = 0 ↔ ¬ u.Busy := by
  rw [flags_and_eq_zero u (a := 0) (b := 0) (c := 0) (d := uartFrBusy) rfl rfl rfl rfl rfl]
  simp only [flag_zero, UInt32.zero_or]
  exact flag_eq_zero (by decide)

end Flags

/-! ## What the device does by itself -/

section Moves

variable {depth : ℕ} {u v : Pl011 depth} {m : Move}

/-- The character of a data word. -/
theorem toUInt8_word (b : UInt8) (errors : UInt32) :
    (b.toUInt32 ||| errors <<< 8).toUInt8 = b := by
  apply UInt8.toBitVec_inj.mp
  ext i below
  simp

theorem move_start {b : UInt8} {bs : List UInt8} (idle : u.shifting = none)
    (next : u.transmit.contents = b :: bs) :
    u.move .start = { u with transmit := u.transmit.pop, shifting := some b } := by
  simp only [Pl011.move, idle, next]

/-- What a move keeps. -/
structure Kept (u v : Pl011 depth) : Prop where
  accepted : v.accepted = u.accepted
  lost : v.lost = u.lost
  dropped : u.dropped <+: v.dropped
  brought : v.dropped = u.dropped → v.brought = u.brought
  room : ¬ u.transmit.Full → ¬ v.transmit.Full
  empty : u.transmit.contents = [] → v.transmit.contents = []
  idle : ¬ u.Busy → ¬ v.Busy
  waiting : u.receive.contents ≠ [] → v.receive.contents ≠ []

theorem Kept.refl (u : Pl011 depth) : Kept u u :=
  ⟨rfl, rfl, List.prefix_rfl, fun _ => rfl, id, id, id, id⟩

theorem kept_start (u : Pl011 depth) : Kept u (u.move .start) := by
  rcases shifting : u.shifting with _ | b
  · rcases contents : u.transmit.contents with _ | ⟨b, bs⟩
    · have same : u.move .start = u := by simp only [Pl011.move, shifting, contents]
      rw [same]
      exact .refl u
    · rw [move_start shifting contents]
      refine ⟨?_, rfl, List.prefix_rfl, fun _ => rfl, u.transmit.not_full_pop, ?_, ?_, id⟩
      · simp [Pl011.accepted, shifting, contents]
      · intro empty
        rw [contents] at empty
        cases empty
      · intro idle
        exact absurd (Or.inl (contents ▸ List.cons_ne_nil b bs)) idle
  · have same : u.move .start = u := by simp only [Pl011.move, shifting]
    rw [same]
    exact .refl u

theorem kept_finish (u : Pl011 depth) : Kept u (u.move .finish) := by
  rcases shifting : u.shifting with _ | b
  · have same : u.move .finish = u := by simp only [Pl011.move, shifting]
    rw [same]
    exact .refl u
  · have sent : u.move .finish = { u with line := u.line ++ [b], shifting := none } := by
      simp only [Pl011.move, shifting]
    rw [sent]
    refine ⟨?_, rfl, List.prefix_rfl, fun _ => rfl, id, id, ?_, id⟩
    · simp [Pl011.accepted, shifting]
    · intro idle
      exact absurd (Or.inr (shifting ▸ Option.some_ne_none b)) idle

theorem kept_arrive (u : Pl011 depth) (errors : UInt32) : Kept u (u.move (.arrive errors)) := by
  rcases incoming : u.incoming with _ | ⟨b, bs⟩
  · have same : u.move (.arrive errors) = u := by simp only [Pl011.move, incoming]
    rw [same]
    exact .refl u
  · by_cases full : u.receive.Full
    · have overrun : u.move (.arrive errors) =
          { u with incoming := bs, dropped := u.dropped ++ [b] } := by
        simp only [Pl011.move, incoming, if_pos full]
      rw [overrun]
      refine ⟨rfl, rfl, List.prefix_append _ _, ?_, id, id, id, id⟩
      intro same
      exact absurd (List.append_right_eq_self.mp same) (List.cons_ne_nil b [])
    · have taken : u.move (.arrive errors) = { u with
            incoming := bs
            receive := u.receive.push (b.toUInt32 ||| errors <<< 8) } := by
        simp only [Pl011.move, incoming, if_neg full]
      rw [taken]
      refine ⟨rfl, rfl, List.prefix_rfl, fun _ => ?_, id, id, id, fun _ => ?_⟩
      · simp only [Pl011.brought, Fifo.contents_push _ _ full, List.map_append, List.map_cons,
          List.map_nil, toUInt8_word, incoming, List.append_assoc, List.singleton_append]
      · rw [Fifo.contents_push _ _ full]
        exact List.append_ne_nil_of_right_ne_nil _ (List.cons_ne_nil _ _)

/-- **A move loses and reorders nothing**, other than what it drops. -/
theorem kept_move (u : Pl011 depth) (m : Move) : Kept u (u.move m) := by
  cases m with
  | start => exact kept_start u
  | finish => exact kept_finish u
  | arrive errors => exact kept_arrive u errors
  | setLines lines => exact ⟨rfl, rfl, List.prefix_rfl, fun _ => rfl, id, id, id, id⟩

end Moves

/-! ## What the driver does -/

section Between

variable {depth : ℕ} {u v : Pl011 depth} {out inn : List UInt8}

/-- From `u` on the driver has put out `out` and read `inn`. -/
structure Between (u : Pl011 depth) (out inn : List UInt8) (v : Pl011 depth) : Prop where
  accepted : v.accepted = u.accepted ++ out
  lost : v.lost = u.lost
  dropped : u.dropped <+: v.dropped
  brought : v.dropped = u.dropped → u.brought = inn ++ v.brought

theorem Between.refl (u : Pl011 depth) : Between u [] [] u :=
  ⟨(List.append_nil _).symm, rfl, List.prefix_rfl, fun _ => rfl⟩

theorem Between.kept {w : Pl011 depth} (between : Between u out inn v) (kept : Kept v w) :
    Between u out inn w := by
  refine ⟨kept.accepted.trans between.accepted, kept.lost.trans between.lost,
    between.dropped.trans kept.dropped, fun same => ?_⟩
  have shorter : v.dropped <+: u.dropped := same ▸ kept.dropped
  have same' : v.dropped = u.dropped := shorter.eq_of_length_le between.dropped.length_le
  rw [between.brought same', kept.brought (same.trans same'.symm)]

theorem stable_between (u : Pl011 depth) (out inn : List UInt8) :
    Stable Pl011.Moved (Between u out inn) := by
  rintro m v _ rfl between
  exact between.kept (kept_move v m)

theorem stable_room : Stable Pl011.Moved fun v : Pl011 depth => ¬ v.transmit.Full := by
  rintro m v _ rfl room
  exact (kept_move v m).room room

theorem stable_empty : Stable Pl011.Moved fun v : Pl011 depth => v.transmit.contents = [] := by
  rintro m v _ rfl empty
  exact (kept_move v m).empty empty

theorem stable_idle : Stable Pl011.Moved fun v : Pl011 depth => ¬ v.Busy := by
  rintro m v _ rfl idle
  exact (kept_move v m).idle idle

theorem stable_waiting :
    Stable Pl011.Moved fun v : Pl011 depth => v.receive.contents ≠ [] := by
  rintro m v _ rfl waiting
  exact (kept_move v m).waiting waiting

/-- A poll loop changes nothing. Once a flag has been seen down, what it tells holds on. -/
theorem ensures_pollWhile {P R : Pl011 depth → Prop} {up : UInt32 → Bool}
    (stable : Stable Pl011.Moved P) (stays : Stable Pl011.Moved R)
    (told : ∀ v : Pl011 depth, up v.flags = false → R v) (fuel : ℕ) :
    Ensures Pl011.Moved P (pollWhile up fuel) (fun _ v => P v ∧ R v)
      fun e v => e = .spinning ∧ P v := by
  refine Ensures.loop (fun _ => P) (fun _ => stable) (fun _ => stable.and stays)
    (fun _ => ?_) (fun _ v holds => ⟨rfl, holds⟩) fuel ()
  -- what one poll has seen is the flag register as it was
  refine Ensures.step stable (fun v v' => P v' ∧ (up v.flags = false → R v'))
    (fun v holds => ⟨holds, told v⟩) fun v holds => ?_
  cases seen : up v.flags with
  | false =>
      refine .done (stable.and fun m w w' move before _ => stays m w w' move (before rfl))
        fun w both => ⟨fun _ again => ?_, fun _ _ => ⟨both.1, both.2 rfl⟩⟩
      rw [seen] at again
      cases again
  | true =>
      refine .done (stable.and fun m w w' move _ down => Bool.noConfusion down)
        fun w both => ⟨fun _ _ => both.1, fun _ ended => ?_⟩
      rw [seen] at ended
      cases ended

theorem between_write {c : UInt8} (between : Between u out inn v) (room : ¬ v.transmit.Full) :
    Between u (out ++ [c]) inn (v.write c.toUInt32) := by
  have written : v.write c.toUInt32 = { v with transmit := v.transmit.push c } := by
    simp only [Pl011.write, if_neg room, UInt8.toUInt8_toUInt32]
  rw [written]
  refine ⟨?_, between.lost, between.dropped, between.brought⟩
  have accepted := between.accepted
  simp only [Pl011.accepted, Fifo.contents_push _ _ room] at accepted ⊢
  rw [← List.append_assoc, accepted, List.append_assoc]

/-- Whatever the device does meanwhile. -/
theorem ensures_uartPutc (u : Pl011 depth) (out inn : List UInt8) (fuel : ℕ) (c : UInt8) :
    Ensures Pl011.Moved (Between u out inn) (uartPutc fuel c)
      (fun _ => Between u (out ++ [c]) inn) fun e v => e = .spinning ∧ Between u out inn v := by
  refine .bind _ (ensures_pollWhile (stable_between u out inn) stable_room ?_ fuel) fun _ => ?_
  · exact fun v down => (txff_iff v).mp (not_not.mp (of_decide_eq_false down))
  · exact Ensures.step ((stable_between u out inn).and stable_room)
      (fun _ => Between u (out ++ [c]) inn) (fun v both => between_write both.1 both.2)
      fun _ _ => .done (stable_between u _ inn) fun v between => between

theorem between_read (between : Between u out inn v) (waiting : v.receive.contents ≠ []) :
    Between u out (inn ++ [v.data.toUInt8]) v.read := by
  refine ⟨between.accepted, between.lost, between.dropped, fun same => ?_⟩
  obtain ⟨word, words, contents⟩ := List.exists_cons_of_ne_nil waiting
  have brought := between.brought same
  simp only [Pl011.brought, Pl011.data, Pl011.read, Fifo.contents_pop, contents, List.map_cons,
    List.headD_cons, List.tail_cons] at brought ⊢
  rw [brought]
  simp

/-- Whatever the device does meanwhile. -/
theorem ensures_uartGetc (u : Pl011 depth) (out inn : List UInt8) (fuel : ℕ) :
    Ensures Pl011.Moved (Between u out inn) (uartGetc fuel)
      (fun c => Between u out (inn ++ [c])) fun e v => e = .spinning ∧ Between u out inn v := by
  refine .bind _ (ensures_pollWhile (stable_between u out inn) stable_waiting ?_ fuel)
    fun _ => ?_
  · exact fun v down => (rxfe_iff v).mp (not_not.mp (of_decide_eq_false down))
  · exact Ensures.step ((stable_between u out inn).and stable_waiting)
      (fun v => Between u out (inn ++ [v.data.toUInt8]))
      (fun v both => between_read both.1 both.2)
      fun v _ => .done (stable_between u out _) fun w between => between

/-- Everything accepted is on the line. -/
def Pl011.Drained (v : Pl011 depth) : Prop := v.line = v.accepted

theorem drained_of_idle (idle : ¬ v.Busy) : v.Drained := by
  obtain ⟨empty, shifting⟩ := not_or.mp idle
  unfold Pl011.Drained Pl011.accepted
  rw [not_not.mp empty, not_not.mp shifting]
  simp

/-- Whatever the device does meanwhile. -/
theorem ensures_txFlush (u : Pl011 depth) (out inn : List UInt8) (fuel : ℕ) :
    Ensures Pl011.Moved (Between u out inn) (platformConsoleTxFlush fuel)
      (fun _ v => Between u out inn v ∧ ¬ v.Busy)
      fun e v => e = .spinning ∧ Between u out inn v := by
  have stable := stable_between u out inn
  refine .bind _ (ensures_pollWhile stable stable_empty ?_ fuel) fun _ => ?_
  · exact fun v down => not_not.mp (mt (txfe_iff v).mpr (of_decide_eq_false down))
  · refine (ensures_pollWhile (stable.and stable_empty) stable_idle ?_ fuel).mono ?_ ?_
    · exact fun v down => (busy_iff v).mp (not_not.mp (of_decide_eq_false down))
    · exact fun _ v both => ⟨both.1.1, both.2⟩
    · exact fun e v both => ⟨both.1, both.2.1⟩

end Between

end CharcoalOS.Platform
