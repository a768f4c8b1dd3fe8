import CharcoalOS.Arch.Frame
import CharcoalOS.Kernel.Answering

/-!
# Taking an exception

`Kernel.takeException` is the whole activation as the kernel sees it: `handle_exception`, and
what the vector code does with the answer. `vectors_take` connects it with the vector code: on
a machine with `handle_exception` compiled, an exception is taken as `takeException` says, with
the interrupted registers as its saved registers, and where that resumes, the interrupted code
goes on as if nothing had happened.
-/

namespace CharcoalOS.Arch

open Assembly Arm64

/-- The system registers that the handler reads, and `GICC_IAR`. -/
structure Cause : Type where
  esrEl1 : UInt64
  elrEl1 : UInt64
  spsrEl1 : UInt64
  farEl1 : UInt64
  iar : UInt32

/-- The exception that interrupts `m`. -/
def Cause.exception (cause : Cause) (kind : Fin 16) (m : Machine) : Kernel.Exception where
  kindOfException := UInt64.ofNat kind
  savedRegisters := .ofFn fun k : Fin 32 =>
    if inside : k.val < 31 then m.x ⟨k, inside⟩ else m.sp - 256
  esrEl1 := cause.esrEl1
  elrEl1 := cause.elrEl1
  spsrEl1 := cause.spsrEl1
  farEl1 := cause.farEl1
  iar := cause.iar

/-- Where the globals of the kernel lie. -/
structure Globals : Type where
  exceptionInProgress : UInt64
  ticksSinceBoot : UInt64

/-- The address is not in the 256 bytes at `frame`. -/
def OutOfFrame (frame a : UInt64) : Prop := 256 ≤ (a - frame).toNat

namespace Globals

variable (g : Globals)

/-- The memory holds the globals of `s`. -/
structure Hold (memory : UInt64 → UInt8) (s : Kernel.State) : Prop where
  exceptionInProgress : Memory.load64 memory g.exceptionInProgress = s.exceptionInProgress
  ticksSinceBoot : Memory.load64 memory g.ticksSinceBoot = s.ticksSinceBoot

def Apart (frame : UInt64) : Prop :=
  ∀ i < 8, OutOfFrame frame (g.exceptionInProgress + UInt64.ofNat i) ∧
    OutOfFrame frame (g.ticksSinceBoot + UInt64.ofNat i)

variable {g} {memory other : UInt64 → UInt8} {s : Kernel.State} {frame : UInt64}

theorem Hold.congr (hold : g.Hold memory s) (apart : g.Apart frame)
    (same : ∀ a, OutOfFrame frame a → other a = memory a) : g.Hold other s := by
  refine ⟨?_, ?_⟩
  · rw [← hold.exceptionInProgress]
    exact Memory.load64_congr fun i less => same _ (apart i less).1
  · rw [← hold.ticksSinceBoot]
    exact Memory.load64_congr fun i less => same _ (apart i less).2

end Globals

/-- What a call of `handle_exception` that returns leaves; `scratch` is the memory that it may
write, given its stack pointer. -/
structure Answered (g : Globals) (scratch : UInt64 → UInt64 → Prop) (found after : Machine)
    (action : UInt64) (s : Kernel.State) : Prop where
  action : after.x 0 = action
  kept : Kept found after
  globals : g.Hold after.memory s
  elsewhere : ∀ a, ¬ scratch found.sp a → after.memory a = found.memory a

/-- The exception that `handle_exception` finds. -/
def Cause.found (cause : Cause) (found : Machine) : Kernel.Exception :=
  exceptionOf found cause.esrEl1 cause.elrEl1 cause.spsrEl1 cause.farEl1 cause.iar

/-- For exceptions of this type and cause, the image's `handle_exception` does what the
function in C does. -/
def Image.Compiled (image : Image) (platform : Kernel.Platform) (g : Globals)
    (scratch : UInt64 → UInt64 → Prop) (kind : Fin 16) (cause : Cause) : Prop :=
  ∀ found s, found.x 1 = UInt64.ofNat kind → g.Hold found.memory s → g.Apart found.sp →
    (∀ action, ((Kernel.handleException platform (cause.found found)).run s).outcome =
        .ok action →
      ∃ after, image.handleException found = some after ∧ Answered g scratch found after action
        ((Kernel.handleException platform (cause.found found)).run s).state) ∧
    ∀ why, ((Kernel.handleException platform (cause.found found)).run s).outcome = .error why →
      image.handleException found = none

/-! ## What the handler finds -/

section Found

variable {kind : Fin 16} {m found : Machine} {cause : Cause}

/-- The handler finds the exception that interrupts the machine. -/
theorem found_eq (snapshot : Snapshot kind m found) :
    cause.found found = cause.exception kind m := by
  have saved : (.ofFn fun k : Fin 32 => savedRegister found k : Vector UInt64 32) =
      (cause.exception kind m).savedRegisters := by
    refine Vector.ext fun k less => ?_
    simp only [Cause.exception, Vector.getElem_ofFn]
    split
    · rename_i inside
      exact snapshot.registers ⟨k, inside⟩
    · rename_i last
      obtain rfl : k = 31 := by omega
      exact snapshot.stackPointer.1
  rw [Cause.found, exceptionOf, saved, snapshot.kindOfException]
  rfl

theorem slot_outside {a : UInt64} {n : ℕ} (outside : OutOfFrame m.sp a) (inside : n + 8 ≤ 256) :
    8 ≤ (a - m.slot n).toNat := by
  unfold OutOfFrame at outside
  have bound := (a - m.sp).toNat_lt
  have place : a - m.slot n = a - m.sp - UInt64.ofNat n := by
    rw [Machine.slot]
    grind
  rw [place, UInt64.toNat_sub, UInt64.toNat_ofNat_of_lt' (show n < 2 ^ 64 by omega)]
  omega

/-- Saving the registers leaves what is outside of the frame. -/
theorem saved_outside (kindOfException : UInt64) (m : Machine) {a : UInt64}
    (outside : OutOfFrame (m.sp - 256) a) :
    (execAll (saveRegisters kindOfException) m).memory a = m.memory a := by
  have slots : ∀ s ∈ spill.flatMap Op.slots, s.2 + 8 ≤ 256 := by decide
  have last : ∀ s ∈ lastSlots, s.2 + 8 ≤ 256 := by decide
  have sp : (spilled m).sp = m.sp - 256 := Machine.storeAll_sp
  rw [execAll_saveRegisters, Machine.setX_memory, Machine.setX_memory, filled,
    Machine.storeAll_outside, Machine.setX_memory, spilled, Machine.storeAll_outside]
  · exact fun s member => slot_outside (m := { m with sp := m.sp - 256 }) outside (slots s member)
  · refine fun s member => slot_outside ?_ (last s member)
    rw [Machine.setX_sp, sp]
    exact outside

/-- The call of `handle_exception`, with all that is known of it. -/
theorem comes_handleException (image : Image) (kind : Fin 16) (m : Machine) :
    ∃ found behind, image.Calls kind m .handleException found ∧ Snapshot kind m found ∧
      found.sp = m.sp - 256 ∧
      (∀ a, OutOfFrame (m.sp - 256) a → found.memory a = m.memory a) ∧
      (∀ after, image.handleException found = some after →
        Comes image.environment.isa exceptionVectors (entry kind m)
          (takeAction ++ behind) after) ∧
      (image.handleException found = none → ∀ m', ¬ image.Returns kind m m') := by
  obtain ⟨behind, comes⟩ := comes_handler image kind m
  rw [exceptionHandler, List.append_assoc] at comes
  have saved : Comes image.environment.isa exceptionVectors (entry kind m)
      (.call .handleException :: (takeAction ++ behind))
      (execAll (saveRegisters (UInt64.ofNat kind)) m) := comes_execAll comes
  have snapshot := snapshot_saved image kind m
  have sp : (execAll (saveRegisters (UInt64.ofNat kind)) m).sp = m.sp - 256 := by
    rw [execAll_saveRegisters, Machine.setX_sp, Machine.setX_sp, filled_sp]
  have outside := fun a => saved_outside (UInt64.ofNat kind) m (a := a)
  generalize execAll (saveRegisters (UInt64.ofNat kind)) m = m' at saved snapshot sp outside
  obtain ⟨pc, calls, returns, never⟩ := saved.call
  exact ⟨_, behind, calls, snapshot pc, sp, outside, returns, never⟩

/-- Restoring only reads the frame. -/
theorem restored_memory (m : Machine) : (execAll restoreRegisters m).memory = m.memory := by
  have reloads : ∀ op ∈ reload, op.isReload := by decide
  rw [restoreRegisters, execAll_append, execAll_reloads reloads]
  exact Machine.loadAll_memory

end Found

/-! ## What comes of the call -/

section Stops

open Effect Effect.Code Kernel

variable {platform : Kernel.Platform} {e : Kernel.Exception}

theorem safe_handleUnhandled :
    (handleUnhandled platform e).Safe (fun _ => True) (fun _ => True) (fun _ => True)
      (· = .halted) := by
  refine .bind (.current (Q := fun _ => True) fun _ _ => trivial) fun s _ => .ite (fun _ => ?_)
    fun _ => ?_
  · exact safe_halt trivial rfl
  · refine .bind (Q := fun _ => True) (.store trivial (fun _ kept => kept) trivial)
      fun _ _ => .bind (Q := fun _ => True) (.emit trivial trivial) fun _ _ => ?_
    have prints : (printDiagnostics platform e).Safe (fun _ => True) (fun _ => True)
        (fun _ => True) (fun _ => False) :=
      (prints_diagnostics platform e).safe (fun _ => trivial) trivial
    exact .bind (prints.mono (fun _ => id) (fun _ => id) fun _ => False.elim) fun _ _ =>
      .pure trivial

variable (platform e) in
/-- The handler stops by halting, if it does not return. -/
theorem safe_handleException :
    (handleException platform e).Safe (fun _ => True) (fun _ => True) (fun _ => True)
      (· = .halted) := by
  have prints {c : Routine Unit} (prints : Prints c) :
      c.Safe (fun _ => True) (fun _ => True) (fun _ => True) (· = .halted) :=
    Safe.mono (prints.safe (fun _ => trivial) trivial) (fun _ => id) (fun _ => id)
      fun _ => False.elim
  by_cases irq : e.Irq
  · rw [handleException_irq irq]
    by_cases timer : interruptId e.iar = timerInterruptId
    · rw [handleInterruptException_timer timer]
      simp only [incrementUptimeByOneTick, bind_assoc, pure_bind, if_true]
      refine .bind (Q := fun _ => True) (.emit trivial trivial) fun _ _ =>
        .bind (Q := fun _ => True) (.current fun _ _ => trivial) fun s _ =>
        .bind (Q := fun _ => True) (.update (fun _ _ => trivial) trivial) fun _ _ =>
        .bind (Q := fun _ => True) (.emit trivial trivial) fun _ _ =>
        .bind (Q := fun _ => True) (.emit trivial trivial) fun _ _ => .pure trivial
    · rw [handleInterruptException_other timer]
      simp only [bind_assoc, pure_bind, Bool.false_eq_true, if_false]
      exact .bind (Q := fun _ => True) (.emit trivial trivial) fun _ _ =>
        .bind (Q := fun _ => True) (.emit trivial trivial) fun _ _ => safe_handleUnhandled
  · by_cases unhandled : e.Unhandled
    · rw [handleException_unhandled irq unhandled]
      exact safe_handleUnhandled
    · rcases Exception.not_unhandled unhandled with timer | restart | resumed
      · exact absurd timer.1 irq
      · rw [handleException_restart restart]
        exact .bind (prints (prints_literal _)) fun _ _ => .pure trivial
      · rw [handleException_resumed resumed]
        refine .bind (prints (prints_literal _)) fun _ _ =>
          .bind (prints (prints_hex platform _)) fun _ _ =>
          .bind (prints (prints_literal _)) fun _ _ => ?_
        exact .bind (Q := fun _ => True) (.store trivial (fun _ kept => kept) trivial)
          fun _ _ => .pure trivial

end Stops

/-- The vector code does with the exception what the kernel comes to. -/
structure Taken (image : Image) (g : Globals) (scratch : UInt64 → UInt64 → Prop) (kind : Fin 16)
    (m : Machine) (r : Effect.Result Kernel.State Kernel.Stop Kernel.Event Unit) : Prop where
  /-- The interrupted code goes on, with its registers, its stack and its memory. -/
  resumed : r.outcome = .ok () → ∃ m', image.Returns kind m m' ∧ m'.x = m.x ∧ m'.sp = m.sp ∧
    g.Hold m'.memory r.state ∧
    ∀ a, OutOfFrame (m.sp - 256) a → ¬ scratch (m.sp - 256) a → m'.memory a = m.memory a
  restarted : r.outcome = .error .restarted → ∃ m', image.Calls kind m .platformReboot m'
  /-- The processor halts, in the handler or after it. -/
  halted : r.outcome = .error .halted →
    (∃ found, image.Calls kind m .handleException found ∧ image.handleException found = none) ∨
      ∃ m', image.Calls kind m .halt m'
  stopped : ∀ why, r.outcome = .error why → why = .restarted ∨ why = .halted
  never : ∀ why, r.outcome = .error why → ∀ m', ¬ image.Returns kind m m'

section Take

variable {image : Image} {platform : Kernel.Platform} {g : Globals}
  {scratch : UInt64 → UInt64 → Prop} {kind : Fin 16} {cause : Cause} {m : Machine}
  {s : Kernel.State}

open Effect in
/-- The result of the handler, and what becomes of it. -/
theorem run_takeException {e : Kernel.Exception} {action : UInt64} {s' : Kernel.State}
    {evs : List Kernel.Event}
    (run : (Kernel.handleException platform e).run s = ⟨.ok action, s', evs⟩) :
    ((Kernel.takeException platform e).run s).state = s' ∧
      ((Kernel.takeException platform e).run s).outcome =
        if action = 0 then .ok () else if action = 1 then .error .restarted
          else .error .halted := by
  rw [Kernel.takeException, Code.run_bind, Program.bind_ok run, Kernel.performAction]
  by_cases resume : action = 0
  · subst resume
    exact ⟨rfl, rfl⟩
  · by_cases restart : action = 1
    · subst restart
      exact ⟨rfl, rfl⟩
    · rw [if_neg (show action ≠ Kernel.exceptionActionResume from resume),
        if_neg (show action ≠ Kernel.exceptionActionRestart from restart), if_neg resume,
        if_neg restart]
      exact ⟨rfl, rfl⟩

open Effect in
/-- A handler that does not return has halted. -/
theorem run_takeException_error {e : Kernel.Exception} {why : Kernel.Stop} {s' : Kernel.State}
    {evs : List Kernel.Event}
    (run : (Kernel.handleException platform e).run s = ⟨.error why, s', evs⟩) :
    ((Kernel.takeException platform e).run s).outcome = .error .halted := by
  obtain ⟨_, _, _, halts⟩ := (safe_handleException platform e).run (s := s) trivial
  have halted : why = .halted := halts why (congrArg Result.outcome run)
  rw [Kernel.takeException, Code.run_bind, Program.bind_error run, halted]

/-- What the handler answers is done. -/
theorem taken_of_answered {found after : Machine} {behind : List Item} {action : UInt64}
    {r : Effect.Result Kernel.State Kernel.Stop Kernel.Event Unit}
    (snapshot : Snapshot kind m found) (sp : found.sp = m.sp - 256)
    (outside : ∀ a, OutOfFrame (m.sp - 256) a → found.memory a = m.memory a)
    (comes : Comes image.environment.isa exceptionVectors (entry kind m) (takeAction ++ behind)
      after)
    (answered : Answered g scratch found after action r.state)
    (outcome : r.outcome =
      if action = 0 then .ok () else if action = 1 then .error .restarted else .error .halted) :
    Taken image g scratch kind m r := by
  have x0 := answered.action
  by_cases resume : action = 0
  · rw [if_pos resume] at outcome
    obtain ⟨flags, same, memory, exits⟩ := exits_resume comes (x0.trans resume)
    have restored : (execAll restoreRegisters flags).memory = after.memory := by
      rw [restored_memory, memory]
    constructor
    case resumed =>
      intro _
      refine ⟨_, exits, funext (answered.kept.register snapshot sp same memory), ?_, ?_, ?_⟩
      · rw [restored_sp, same, answered.kept.sp, sp, UInt64.sub_add_cancel]
      · rw [restored]
        exact answered.globals
      · intro a out untouched
        rw [restored, answered.elsewhere a (sp ▸ untouched), outside a out]
    case restarted => simp [outcome]
    case halted => simp [outcome]
    case stopped => simp [outcome]
    case never => simp [outcome]
  · rw [if_neg resume] at outcome
    by_cases restart : action = 1
    · rw [if_pos restart] at outcome
      obtain ⟨calls, never⟩ := calls_reboot comes (x0.trans restart)
      exact ⟨by simp [outcome], fun _ => calls, by simp [outcome],
        fun why same => .inl (by simpa using outcome.symm.trans same |>.symm),
        fun _ _ => never⟩
    · rw [if_neg restart] at outcome
      obtain ⟨calls, never⟩ := calls_halt comes (x0 ▸ resume) (x0 ▸ restart)
      exact ⟨by simp [outcome], by simp [outcome], fun _ => .inr calls,
        fun why same => .inr (by simpa using outcome.symm.trans same |>.symm),
        fun _ _ => never⟩

/-- **The vector code takes an exception as the kernel does**, if `handle_exception` is compiled
to do what it does in C, memory holds the kernel's globals, and these are not in the frame: it
resumes, reboots or halts where the kernel's account does. -/
theorem vectors_take (compiled : image.Compiled platform g scratch kind cause)
    (hold : g.Hold m.memory s) (apart : g.Apart (m.sp - 256)) :
    Taken image g scratch kind m
      ((Kernel.takeException platform (cause.exception kind m)).run s) := by
  obtain ⟨found, behind, calls, snapshot, sp, outside, returns, never⟩ :=
    comes_handleException image kind m
  have handler := compiled found s snapshot.kindOfException (hold.congr apart outside)
    (sp ▸ apart)
  rw [found_eq snapshot] at handler
  obtain ⟨answers, stops⟩ := handler
  rcases run : (Kernel.handleException platform (cause.exception kind m)).run s with
    ⟨outcome, s', evs⟩
  rw [run] at answers stops
  cases outcome with
  | error why =>
      have halted := run_takeException_error run
      have none := stops why rfl
      exact ⟨by simp [halted], by simp [halted], fun _ => .inl ⟨found, calls, none⟩,
        fun why same => .inr (by simpa using halted.symm.trans same |>.symm),
        fun _ _ => never none⟩
  | ok action =>
      obtain ⟨state, outcome⟩ := run_takeException run
      obtain ⟨after, result, answered⟩ := answers action rfl
      exact taken_of_answered snapshot sp outside (returns after result) (state ▸ answered)
        outcome

end Take

/-! ## A tick -/

def tickGlobals : Globals := ⟨0x1000, 0x1008⟩

/-- The bytes of the counter. -/
def tickBytes (_ a : UInt64) : Prop := (a - 0x1008).toNat < 8

/-- What a handler of the timer does to the machine. -/
def ticked (m : Machine) : Machine :=
  ⟨(m.setX 0 0).x, m.sp,
    Memory.store64 m.memory 0x1008 (Memory.load64 m.memory 0x1008 + 1), m.zero, m.carry⟩

theorem ticked_memory (m : Machine) : (ticked m).memory =
    Memory.store64 m.memory 0x1008 (Memory.load64 m.memory 0x1008 + 1) := rfl

theorem ticked_outside (m : Machine) {a : UInt64} (other : ¬ tickBytes m.sp a) :
    (ticked m).memory a = m.memory a := by
  rw [ticked_memory]
  refine Memory.write_outside ?_
  rw [Memory.length_bytesOf]
  exact Nat.le_of_not_lt other

/-- An image that handles the timer, and nothing else. -/
def Image.ticking : Image := ⟨fun m => some (ticked m), fun _ => none, fun _ => 0⟩

/-- The cause of a timer interrupt. -/
def tick : Cause := ⟨0, 0, 0, 0, 30⟩

theorem compiled_ticking (platform : Kernel.Platform) :
    Image.ticking.Compiled platform tickGlobals tickBytes 5 tick := by
  intro found s kind hold apart
  have interrupt : Kernel.interruptId tick.iar = Kernel.timerInterruptId := by decide
  have timer : (tick.found found).Timer := ⟨kind, interrupt⟩
  have run : (Kernel.handleException platform (tick.found found)).run s =
      ⟨.ok 0, { s with ticksSinceBoot := s.ticksSinceBoot + 1 },
        Kernel.interruptProtocol platform (tick.found found)⟩ := by
    rw [Kernel.handleException_irq timer.1, Kernel.handleInterruptException_timer timer.2,
      Kernel.interruptProtocol, if_pos timer]
    rfl
  rw [run]
  refine ⟨fun action same => ⟨ticked found, rfl, ?_⟩, fun why other => by cases other⟩
  cases same
  constructor
  case action =>
    show (found.setX 0 0).x 0 = 0
    exact Machine.setX_x_same
  case kept =>
    refine ⟨rfl, fun i less => ticked_outside found fun inside => ?_⟩
    have out : OutOfFrame found.sp
        (0x1008 + UInt64.ofNat (found.sp + UInt64.ofNat i - 0x1008).toNat) := (apart _ inside).2
    have small : i < 2 ^ 64 := by omega
    rw [UInt64.ofNat_toNat, UInt64.add_comm, UInt64.sub_add_cancel, OutOfFrame,
      UInt64.add_comm, UInt64.add_sub_cancel, UInt64.toNat_ofNat_of_lt' small] at out
    omega
  case globals =>
    refine ⟨?_, ?_⟩
    · rw [← hold.exceptionInProgress]
      refine Memory.load64_congr fun i less => ticked_outside found ?_
      have all : ∀ i < 8,
          ¬ tickBytes found.sp (tickGlobals.exceptionInProgress + UInt64.ofNat i) := by
        unfold tickBytes
        decide
      exact all i less
    · rw [← hold.ticksSinceBoot, ticked_memory]
      exact Memory.load64_store64 _ _ _
  case elsewhere =>
    intro a other
    exact ticked_outside found other

/-- A timer interrupt is taken, and all that is left of it is a tick. -/
theorem tick_taken :
    Taken Image.ticking tickGlobals tickBytes 5 Machine.idle
      ((Kernel.takeException .virt (tick.exception 5 Machine.idle)).run (.boot [])) := by
  refine vectors_take (compiled_ticking .virt) ⟨?_, ?_⟩ ?_
  · exact Memory.load64_of_zero fun _ _ => rfl
  · exact Memory.load64_of_zero fun _ _ => rfl
  · unfold Globals.Apart OutOfFrame
    decide

end CharcoalOS.Arch
