import CharcoalOS.Kernel.Traffic
import CharcoalOS.Lib.Lowering
import CharcoalOS.Platform.Pl011

/-!
# The shell on the wire

The kernel's console calls, carried out by the driver on the device: three parties that move in
any order, the shell, the timer interrupts and the serial port.

`shell_on_the_wire`: whatever the order, what goes out on the line is the session's transcript as
far as it goes, byte for byte; nothing overflows; what the shell reads is what the line brings,
unless the device has dropped some of it; and when the shell halts the processor, the whole
transcript has been sent.
-/

namespace CharcoalOS.Platform

open Effect Effect.Code CharcoalOS.Kernel

/-! ## The driver under the kernel -/

section Drive

variable {depth : ℕ}

/-- The driver's part of an event of the kernel. -/
def drive (fuel : ℕ) : Kernel.Event → Driver depth Unit
  | .putc c => uartPutc fuel c
  | .getc c => do
      let c' ← uartGetc fuel
      if c' = c then pure () else .fail .misread
  | .txFlush => platformConsoleTxFlush fuel
  | _ => pure ()

variable {u v : Pl011 depth} {out inn : List UInt8} {evs : List Kernel.Event} {why : Stuck}

/-- How the driver gets stuck on the way through `evs`. -/
inductive Stops (u : Pl011 depth) (out inn : List UInt8) (evs : List Kernel.Event) :
    Stuck → Pl011 depth → Prop
  | spinning {front : List Kernel.Event} {v : Pl011 depth} : front <+: evs →
    Between u (out ++ printed front) (inn ++ reads front) v → Stops u out inn evs .spinning v
  | misread {front back : List Kernel.Event} {c c' : UInt8} {v : Pl011 depth} :
    evs = front ++ .getc c :: back → c' ≠ c →
    Between u (out ++ printed front) (inn ++ reads front ++ [c']) v →
    Stops u out inn evs .misread v

theorem Stops.append (stops : Stops u out inn evs why v) (more : List Kernel.Event) :
    Stops u out inn (evs ++ more) why v := by
  cases stops with
  | spinning front between => exact .spinning (front.trans (List.prefix_append _ _)) between
  | @misread front back c c' v split other between =>
      have whole : evs ++ more = front ++ .getc c :: (back ++ more) := by
        rw [split, List.append_assoc]
        rfl
      exact .misread whole other between

/-- From `u` on the driver has carried out `evs`. -/
abbrev After (u : Pl011 depth) (out inn : List UInt8) (evs : List Kernel.Event) :
    Pl011 depth → Prop :=
  Between u (out ++ printed evs) (inn ++ reads evs)

theorem after_nil : After u out inn [] = Between u out inn := by
  unfold After
  rw [printed_nil, List.append_nil, show reads [] = [] from rfl, List.append_nil]

theorem after_putc (c : UInt8) : After u out inn [.putc c] = Between u (out ++ [c]) inn :=
  congrArg (Between u (out ++ [c])) (List.append_nil inn)

theorem after_getc (c : UInt8) : After u out inn [.getc c] = Between u out (inn ++ [c]) :=
  congrArg (Between u · (inn ++ [c])) (List.append_nil out)

theorem Stops.spins (e : Kernel.Event) (between : Between u out inn v) :
    Stops u out inn [e] .spinning v := by
  refine .spinning (List.nil_prefix : [] <+: [e]) ?_
  rwa [← after_nil] at between

/-- One event. -/
theorem ensures_drive (u : Pl011 depth) (out inn : List UInt8) (fuel : ℕ) (e : Kernel.Event) :
    Ensures Pl011.Moved (Between u out inn) (drive fuel e)
      (fun _ v => After u out inn [e] v ∧ (e = .txFlush → ¬ v.Busy)) (Stops u out inn [e]) := by
  have silent {e : Kernel.Event} (same : After u out inn [e] = Between u out inn)
      (other : e ≠ .txFlush) :
      Ensures Pl011.Moved (Between u out inn) (Pure.pure () : Driver depth Unit)
        (fun _ v => After u out inn [e] v ∧ (e = .txFlush → ¬ v.Busy)) (Stops u out inn [e]) := by
    rw [same]
    exact .done (stable_between u out inn) fun v between =>
      ⟨between, fun same => absurd same other⟩
  cases e with
  | putc c =>
      rw [after_putc]
      refine (ensures_uartPutc u out inn fuel c).mono (fun _ v between => ?_) ?_
      · exact ⟨between, fun same => by cases same⟩
      · rintro _ v ⟨rfl, between⟩
        exact .spins _ between
  | getc c =>
      refine .bind (fun c' => Between u out (inn ++ [c']))
        ((ensures_uartGetc u out inn fuel).mono (fun _ _ => id) ?_) fun c' => ?_
      · rintro _ v ⟨rfl, between⟩
        exact .spins _ between
      · by_cases same : c' = c
        · rw [if_pos same, after_getc, same]
          exact .done (stable_between u out _) fun v between => ⟨between, fun same => by cases same⟩
        · rw [if_neg same]
          refine .fail (stable_between u out _) fun v between => ?_
          refine .misread (show [Kernel.Event.getc c] = [] ++ .getc c :: [] from rfl) same ?_
          rwa [printed_nil, List.append_nil, show reads [] = [] from rfl, List.append_nil]
  | txFlush =>
      have one : After u out inn [.txFlush] = Between u out inn := after_nil
      rw [one]
      refine (ensures_txFlush u out inn fuel).mono (fun _ v both => ⟨both.1, fun _ => both.2⟩) ?_
      rintro _ v ⟨rfl, between⟩
      exact .spins _ between
  | readIar | writeEoir | setTimer | storeInProgress | maskExceptions | dispatch | handler =>
      exact silent after_nil Kernel.Event.noConfusion

theorem after_after {evs' : List Kernel.Event} :
    After u (out ++ printed evs) (inn ++ reads evs) evs' = After u out inn (evs ++ evs') := by
  unfold After
  rw [printed_append, reads_append, List.append_assoc, List.append_assoc]

theorem Stops.after {evs' : List Kernel.Event}
    (stops : Stops u (out ++ printed evs) (inn ++ reads evs) evs' why v) :
    Stops u out inn (evs ++ evs') why v := by
  cases stops with
  | @spinning front v begins between =>
      refine .spinning ((List.prefix_append_right_inj evs).mpr begins) ?_
      rwa [printed_append, reads_append, ← List.append_assoc, ← List.append_assoc]
  | @misread front back c c' v split other between =>
      have whole : evs ++ evs' = (evs ++ front) ++ .getc c :: back := by
        rw [split, List.append_assoc]
      refine .misread whole other ?_
      rwa [printed_append, reads_append, ← List.append_assoc out, ← List.append_assoc inn]

/-- **The driver carries out the events in order**, each completely before the next. -/
theorem ensures_driveAll (u : Pl011 depth) (fuel : ℕ) (evs : List Kernel.Event) :
    Ensures Pl011.Moved (Between u [] []) (driveAll (drive fuel) evs)
      (fun _ v => After u [] [] evs v ∧ (evs.getLast? = some .txFlush → ¬ v.Busy))
      (Stops u [] [] evs) := by
  induction evs using List.reverseRecOn with
  | nil =>
      rw [after_nil]
      exact .done (stable_between u [] []) fun v between => ⟨between, fun last => by cases last⟩
  | append_singleton evs e ih =>
      rw [driveAll_append]
      refine .bind (fun _ => After u [] [] evs) (ih.mono (fun _ v both => both.1) ?_) fun _ => ?_
      · exact fun _ v stops => stops.append [e]
      · have one : driveAll (drive fuel) [e] = (drive fuel e : Driver depth Unit) := andThen_done _
        rw [one]
        refine (ensures_drive u (printed evs) (reads evs) fuel e).mono (fun _ v both => ?_) ?_
        · refine ⟨?_, fun last => both.2 ?_⟩
          · rw [← after_after]
            exact both.1
          · rw [List.getLast?_concat] at last
            exact Option.some.inj last
        · exact fun _ v stops => Stops.after stops

/-- If nothing is dropped, then the driver reads what the line brings. -/
theorem dropped_of_misread (read : reads evs <+: u.brought) (stops : Stops u [] [] evs .misread v) :
    v.dropped ≠ u.dropped := by
  intro same
  cases stops with
  | @misread front back c c' v split other between =>
      have brought := between.brought same
      have here : reads evs = reads front ++ c :: reads back := by
        rw [split, reads_append]
        rfl
      obtain ⟨rest, line⟩ := read
      rw [brought, here, List.nil_append, List.append_assoc, List.append_assoc,
        List.append_cancel_left_eq] at line
      exact other (List.cons.inj line).1.symm

end Drive

/-! ## The whole -/

/-- An idle device, and what is typed. -/
def Pl011.idle (depth : ℕ) (typed : List UInt8) : Pl011 depth :=
  ⟨⟨[], Nat.zero_le depth⟩, none, [], [], ⟨[], Nat.zero_le depth⟩, typed, [], 0⟩

/-- What a run of the shell over the device comes to. -/
abbrev DeviceResult (depth : ℕ) : Type :=
  Result (State × Pl011 depth) (Kernel.Stop ⊕ Stuck) (Access ⊕ (Kernel.Exception ⊕ Move)) Unit

/-- The runs of the shell over the device, with timer interrupts. -/
abbrev OnDevice (platform : Platform) (fuel depth : ℕ) (command : Vector UInt8 commandLength) :
    State × Pl011 depth → DeviceResult depth → Prop :=
  Runs (beside (TimerTaken platform) Pl011.Moved)
    (lower (drive fuel) (runShellLoop platform command))

/-- What a run comes to on the wire, for a session with the transcript `text` that ends with
`why`. -/
structure OnTheWire {depth : ℕ} (u : Pl011 depth) (text : List UInt8) (why : Kernel.Stop)
    (r : DeviceResult depth) : Prop where
  /-- The transmit FIFO never overflows. -/
  lost : r.state.2.lost = u.lost
  /-- The device gets the transcript, in order, as far as the run goes. -/
  accepted : ∃ out, out <+: text ∧ r.state.2.accepted = u.accepted ++ out
  /-- The session ends, unless the driver spins or the device has dropped input. -/
  ends : r.outcome = .error (.inl why) ∧ r.state.2.accepted = u.accepted ++ text ∨
    r.outcome = .error (.inr .spinning) ∨
    r.outcome = .error (.inr .misread) ∧ r.state.2.dropped ≠ u.dropped
  /-- A halted processor has sent everything. -/
  halted : r.outcome = .error (.inl .halted) → r.state.2.line = u.accepted ++ text
  /-- What is not read is still there. -/
  unread : r.outcome = .error (.inl why) → r.state.2.dropped = u.dropped →
    r.state.2.brought = r.state.1.received

/-- The events of the kernel, carried out as far as the driver comes. -/
theorem onTheWire_of_driven {fuel depth : ℕ} {u : Pl011 depth} {evs : List Kernel.Event}
    {rest : List UInt8} {why : Kernel.Stop} {low : Result (Pl011 depth) Stuck (Access ⊕ Move) Unit}
    {r : DeviceResult depth} (runs : Runs Pl011.Moved (driveAll (drive fuel) evs) u low)
    (account : reads evs ++ rest = u.brought)
    (last : why = .halted → evs.getLast? = some .txFlush) (state : r.state.2 = low.state)
    (ends : low.outcome = .ok () ∧ r.outcome = .error (.inl why) ∧ r.state.1.received = rest ∨
      ∃ stuck, low.outcome = .error stuck ∧ r.outcome = .error (.inr stuck)) :
    OnTheWire u (printed evs) why r := by
  obtain ⟨done, gets_stuck⟩ := ensures_driveAll u fuel evs u low (.refl u) runs
  rcases ends with ⟨completes, outcome, received⟩ | ⟨stuck, error, outcome⟩
  · obtain ⟨between, flushed⟩ := done () completes
    have accepted : r.state.2.accepted = u.accepted ++ printed evs := by
      rw [state]
      exact between.accepted
    refine ⟨?_, ⟨_, List.prefix_rfl, accepted⟩, Or.inl ⟨outcome, accepted⟩, fun halted => ?_,
      fun _ same => ?_⟩
    · rw [state]
      exact between.lost
    · rw [outcome] at halted
      have halts : why = .halted := Sum.inl.inj (Except.error.inj halted)
      rw [← accepted, state]
      exact drained_of_idle (flushed (last halts))
    · rw [state] at same ⊢
      have brought := between.brought same
      rw [← account, List.nil_append, List.append_cancel_left_eq] at brought
      rw [received, brought]
  · have stopped := gets_stuck stuck error
    have other {why' : Kernel.Stop} : r.outcome ≠ .error (.inl why') := by
      rw [outcome]
      intro same
      cases same
    refine ⟨?_, ?_, Or.inr ?_, fun halted => absurd halted other,
      fun ended => absurd ended other⟩
    · rw [state]
      cases stopped with
      | spinning _ between => exact between.lost
      | misread _ _ between => exact between.lost
    · rw [state]
      cases stopped with
      | @spinning front v begins between =>
          obtain ⟨more, whole⟩ := begins
          refine ⟨printed front, ⟨printed more, ?_⟩, between.accepted⟩
          rw [← whole, printed_append]
      | @misread front back c c' v whole other between =>
          refine ⟨printed front, ⟨printed (.getc c :: back), ?_⟩, between.accepted⟩
          rw [whole, printed_append]
    · cases stuck with
      | spinning => exact Or.inl outcome
      | misread =>
          refine Or.inr ⟨outcome, ?_⟩
          rw [state]
          exact dropped_of_misread ⟨rest, account⟩ stopped

/-- **The shell on the wire**: however the device moves between two accesses of the driver, what
it accepts is a prefix of the session's transcript, and all of it unless the driver spins or the
device has dropped input. -/
theorem shell_on_the_wire {platform : Platform} (synchronous : platform.Synchronous)
    (command : Vector UInt8 commandLength) {fuel depth : ℕ} (s : State) {u : Pl011 depth}
    (typed : u.brought = s.received) {r} (runs : OnDevice platform fuel depth command (s, u) r) :
    ∃ ks : List ℕ, ks.Pairwise (· ≤ ·) ∧ (∀ k ∈ ks, k ≤ (own (met r.events)).length) ∧
      let ended := session platform (timesAt s ks) s.exceptionInProgress [] s.received
      OnTheWire u (promptText ++ ended.1) ended.2 r := by
  obtain ⟨high, low, split⟩ := lower_runs runs
  obtain ⟨ks, comes⟩ := runs_shell synchronous command split.runs_high
  obtain ⟨account, -, flushes⟩ := serial_shell command s high split.runs_high
  have inside : ∀ k ∈ ks, k ≤ (own (met r.events)).length := by
    rw [← split.met_high]
    exact comes.inside
  refine ⟨ks, comes.increasing, inside, ?_⟩
  have text := comes.text
  have stops := comes.stops
  generalize session platform (timesAt s ks) s.exceptionInProgress [] s.received = transcript at *
  intro ended
  rw [← text]
  refine onTheWire_of_driven split.runs_low (account.trans typed.symm) (fun halts => ?_)
    split.state ?_
  · rw [halts] at stops
    exact flushes _ stops rfl
  · rcases split.ends with ⟨completes, outcome, state⟩ | stuck
    · rw [stops] at outcome
      exact Or.inl ⟨completes, outcome, congrArg _ state⟩
    · exact Or.inr stuck

/-- `help`, without any help from the device. -/
theorem shell_on_the_wire_help :
    let s : State := .boot [104, 101, 108, 112, 13]
    let u : Pl011 16 := .idle 16 [104, 101, 108, 112, 13]
    let r : DeviceResult 16 :=
      alone ((lower (drive 3) (runShellLoop withoutZero (.replicate _ 7))).run (s, u))
    ∃ ks : List ℕ, ks.Pairwise (· ≤ ·) ∧ (∀ k ∈ ks, k ≤ (own (met r.events)).length) ∧
      let ended := session withoutZero (timesAt s ks) s.exceptionInProgress [] s.received
      OnTheWire u (promptText ++ ended.1) ended.2 r :=
  shell_on_the_wire synchronous_withoutZero _ _ rfl (runs_alone _ _ _)

/-! ## A device that keeps up -/

section KeepingUp

variable {depth fuel : ℕ} {u : Pl011 depth} {line incoming : List UInt8}

/-- Everything so far has been sent and read, without a loss. -/
structure Ready (u : Pl011 depth) (line incoming : List UInt8) : Prop where
  idle : ¬ u.Busy
  empty : u.receive.contents = []
  line : u.line = line
  incoming : u.incoming = incoming
  lost : u.lost = []
  dropped : u.dropped = []

/-- The driver does its part, and the device is ready again. -/
def Serves (c : Driver depth Unit) (u : Pl011 depth) (line incoming : List UInt8) : Prop :=
  ∃ low, Runs Pl011.Moved c u low ∧ low.outcome = .ok () ∧ Ready low.state line incoming

theorem ready_idle (typed : List UInt8) : Ready (.idle depth typed) [] typed :=
  ⟨not_or.mpr ⟨not_not.mpr rfl, not_not.mpr rfl⟩, rfl, rfl, rfl, rfl, rfl⟩

theorem run_pollWhile {up : UInt32 → Bool} (down : up u.flags = false) (polls : 0 < fuel) :
    (pollWhile up fuel).run u = ⟨.ok (), u, [.readFr u.flags]⟩ := by
  obtain ⟨fuel, rfl⟩ := Nat.exists_eq_succ_of_ne_zero polls.ne'
  refine run_loop_done (b := ()) ?_
  show Result.after [.readFr u.flags] ((Code.done _ : Driver depth _).run u) = _
  rw [down]
  rfl

theorem Ready.transmit (ready : Ready u line incoming) : u.transmit.contents = [] :=
  not_not.mp (not_or.mp ready.idle).1

theorem Ready.shifting (ready : Ready u line incoming) : u.shifting = none :=
  not_not.mp (not_or.mp ready.idle).2

theorem Ready.room (ready : Ready u line incoming) (fifo : 0 < depth) : ¬ u.transmit.Full := by
  unfold Fifo.Full
  rw [ready.transmit]
  exact Nat.not_le.mpr fifo

/-- The byte goes through the FIFO and the shift register. -/
theorem moves_sent (ready : Ready u line incoming) (fifo : 0 < depth) (c : UInt8) :
    ∃ v, Moves Pl011.Moved [.start, .finish] (u.write c.toUInt32) v ∧
      Ready v (line ++ [c]) incoming := by
  have room := ready.room fifo
  have written : u.write c.toUInt32 = { u with transmit := u.transmit.push c } := by
    simp only [Pl011.write, if_neg room, UInt8.toUInt8_toUInt32]
  have queued : (u.transmit.push c).contents = [c] := by
    rw [Fifo.contents_push _ _ room, ready.transmit]
    rfl
  refine ⟨_, .cons rfl (.cons rfl .nil), ?_⟩
  rw [written, move_start (u := { u with transmit := u.transmit.push c }) ready.shifting queued]
  refine ⟨not_or.mpr ⟨not_not.mpr ?_, not_not.mpr rfl⟩, ready.empty, ?_, ready.incoming,
    ready.lost, ready.dropped⟩
  · show (u.transmit.push c).contents.tail = []
    rw [queued]
    rfl
  · rw [← ready.line]
    rfl

theorem serves_putc (ready : Ready u line incoming) (fifo : 0 < depth) (polls : 0 < fuel)
    (c : UInt8) : Serves (uartPutc fuel c) u (line ++ [c]) incoming := by
  have down : decide (u.flags &&& uartFrTxff ≠ 0) = false :=
    decide_eq_false (not_not.mpr ((txff_iff u).mpr (ready.room fifo)))
  have run : (uartPutc fuel c).run u =
      ⟨.ok (), u.write c.toUInt32, [.readFr u.flags, .writeDr c.toUInt32]⟩ := by
    rw [uartPutc, run_bind, Program.bind_ok (run_pollWhile down polls)]
    rfl
  obtain ⟨v, moves, ready'⟩ := moves_sent ready fifo c
  have alone_ := runs_alone Pl011.Moved (uartPutc fuel c) u
  rw [run] at alone_
  obtain ⟨low, runs, outcome, state⟩ := alone_.movesOn moves
  exact ⟨low, runs, outcome, state ▸ ready'⟩

/-- The character comes in before the driver looks. -/
theorem serves_getc {c : UInt8} (ready : Ready u line (c :: incoming)) (fifo : 0 < depth)
    (polls : 0 < fuel) :
    ∃ low, Runs Pl011.Moved (uartGetc fuel) u low ∧ low.outcome = .ok c ∧
      Ready low.state line incoming := by
  have room : ¬ u.receive.Full := by
    unfold Fifo.Full
    rw [ready.empty]
    exact Nat.not_le.mpr fifo
  let word := c.toUInt32 ||| (0 : UInt32) <<< 8
  let v : Pl011 depth := { u with
    incoming := incoming
    receive := u.receive.push word }
  have move : u.move (.arrive 0) = v := by
    simp only [Pl011.move, ready.incoming, if_neg room, v, word]
  have there : v.receive.contents = [word] := by
    show (u.receive.push _).contents = _
    rw [Fifo.contents_push _ _ room, ready.empty]
    rfl
  have down : decide (v.flags &&& uartFrRxfe ≠ 0) = false :=
    decide_eq_false (not_not.mpr ((rxfe_iff v).mpr (there ▸ List.cons_ne_nil _ _)))
  have value : v.data.toUInt8 = c := by
    rw [Pl011.data, there]
    exact toUInt8_word c 0
  have run : (uartGetc fuel).run v = ⟨.ok c, v.read, [.readFr v.flags, .readDr v.data]⟩ := by
    rw [uartGetc, run_bind, Program.bind_ok (run_pollWhile down polls)]
    show Result.mk (.ok v.data.toUInt8) v.read _ = _
    rw [value]
    rfl
  have alone_ := runs_alone Pl011.Moved (uartGetc fuel) v
  rw [run] at alone_
  refine ⟨_, .other move.symm alone_, rfl, ready.idle, ?_, ready.line, rfl, ready.lost,
    ready.dropped⟩
  show v.receive.contents.tail = []
  rw [there]
  rfl

theorem serves_flush (ready : Ready u line incoming) (polls : 0 < fuel) :
    Serves (platformConsoleTxFlush fuel) u line incoming := by
  have empty : decide (u.flags &&& uartFrTxfe = 0) = false :=
    decide_eq_false fun up => (txfe_iff u).mp up ready.transmit
  have idle : decide (u.flags &&& uartFrBusy ≠ 0) = false :=
    decide_eq_false (not_not.mpr ((busy_iff u).mpr ready.idle))
  have run : (platformConsoleTxFlush fuel).run u =
      ⟨.ok (), u, [.readFr u.flags, .readFr u.flags]⟩ := by
    rw [platformConsoleTxFlush, run_bind, Program.bind_ok (run_pollWhile empty polls),
      run_pollWhile idle polls]
    rfl
  have alone_ := runs_alone Pl011.Moved (platformConsoleTxFlush fuel) u
  rw [run] at alone_
  exact ⟨_, alone_, rfl, ready⟩

/-- Whatever the kernel asks for, the device can do, if what is typed is what is read. -/
theorem serves_events (fifo : 0 < depth) (polls : 0 < fuel) (evs : List Kernel.Event)
    (ready : Ready u line (reads evs ++ incoming)) :
    Serves (driveAll (drive fuel) evs) u (line ++ printed evs) incoming := by
  induction evs generalizing u line with
  | nil =>
      rw [printed_nil, List.append_nil]
      exact ⟨_, .done, rfl, ready⟩
  | cons e evs ih =>
      have first : ∃ low, Runs Pl011.Moved (drive fuel e) u low ∧ low.outcome = .ok () ∧
          Ready low.state (line ++ printed [e]) (reads evs ++ incoming) := by
        cases e with
        | putc c => exact serves_putc ready fifo polls c
        | getc c =>
            obtain ⟨low, runs, outcome, ready'⟩ := serves_getc ready fifo polls
            let low' : Result (Pl011 depth) Stuck (Access ⊕ Move) Unit :=
              ⟨.ok (), low.state, low.events ++ []⟩
            refine ⟨low', runs_bind_iff.mpr ⟨low, runs, ?_⟩, rfl, ?_⟩
            · unfold RunsThen
              rw [outcome]
              refine ⟨⟨.ok (), low.state, []⟩, ?_, rfl⟩
              show Runs _ (if c = c then pure () else .fail Stuck.misread) _ _
              rw [if_pos rfl]
              exact .done
            · rwa [show printed [Kernel.Event.getc c] = [] from rfl, List.append_nil]
        | txFlush =>
            rw [show printed [Kernel.Event.txFlush] = [] from rfl, List.append_nil]
            exact serves_flush ready polls
        | readIar | writeEoir | setTimer | storeInProgress | maskExceptions | dispatch | handler =>
            refine ⟨_, .done, rfl, ?_⟩
            show Ready u (line ++ []) (reads evs ++ incoming)
            rwa [List.append_nil]
      obtain ⟨low₁, runs₁, outcome₁, ready₁⟩ := first
      obtain ⟨low₂, runs₂, outcome₂, ready₂⟩ := ih ready₁
      refine ⟨low₂.after low₁.events, runs_bind_iff.mpr ⟨low₁, runs₁, ?_⟩, outcome₂, ?_⟩
      · unfold RunsThen
        rw [outcome₁]
        exact ⟨low₂, runs₂, rfl⟩
      · rw [← List.singleton_append, printed_append, ← List.append_assoc]
        exact ready₂

/-- **The device can keep up**: whatever is typed, there is a way for it to move in which the
session is carried out to its end, each character is read, and all of the transcript is sent. -/
theorem device_keeps_up {platform : Platform} (synchronous : platform.Synchronous)
    (command : Vector UInt8 commandLength) {fuel depth : ℕ} (polls : 0 < fuel) (fifo : 0 < depth)
    (s : State) :
    ∃ r ks, OnDevice platform fuel depth command (s, .idle depth s.received) r ∧
      let ended := session platform (timesAt s ks) s.exceptionInProgress [] s.received
      r.outcome = .error (.inl ended.2) ∧
        Ready r.state.2 (promptText ++ ended.1) r.state.1.received := by
  have undisturbed := runs_alone (TimerTaken platform) (runShellLoop platform command) s
  obtain ⟨ks, comes⟩ := runs_shell synchronous command undisturbed
  obtain ⟨account, -, -⟩ := serial_shell command s _ undisturbed
  simp only [alone, own_map_inl] at account
  have ready : Ready (.idle depth s.received) []
      (reads ((runShellLoop platform command).run s).events ++
        ((runShellLoop platform command).run s).state.received) := by
    rw [account]
    exact ready_idle s.received
  obtain ⟨low, runs, completes, ready'⟩ := serves_events fifo polls _ ready
  obtain ⟨r, whole, outcome, state⟩ := runs_lower (TimerTaken platform) runs completes
  refine ⟨r, ks, whole, ?_, ?_⟩
  · rw [outcome]
    have stops := comes.stops
    simp only [alone] at stops
    rw [stops]
    rfl
  · have text := comes.text
    simp only [alone, own_map_inl] at text
    rw [state, ← text]
    exact ready'

/-- The least that will do. -/
theorem device_keeps_up_help :
    let s : State := .boot [104, 101, 108, 112, 13]
    ∃ r ks, OnDevice withoutZero 1 1 (.replicate _ 7) (s, .idle 1 s.received) r ∧
      let ended := session withoutZero (timesAt s ks) s.exceptionInProgress [] s.received
      r.outcome = .error (.inl ended.2) ∧
        Ready r.state.2 (promptText ++ ended.1) r.state.1.received :=
  device_keeps_up synchronous_withoutZero _ Nat.one_pos Nat.one_pos _

end KeepingUp

end CharcoalOS.Platform
