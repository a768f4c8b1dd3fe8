import CharcoalOS.Kernel.Handling
import CharcoalOS.Lib.Interrupt

/-!
# Fatal exceptions while a fatal exception is handled

`g_exception_in_progress` is a latch: the first exception that cannot be handled sets it,
and those that find it set halt without a word. It opens again when a system call resumes,
also one that was taken after the flag was set; as long as there is none of these,
`no_cascade` holds of every interleaving.
-/

namespace CharcoalOS.Kernel

open Effect Effect.Interrupt

/-- The flag is clear. -/
def Clear (s : State) : Prop := s.exceptionInProgress = 0

/-- The flag is set. -/
def InProgress (s : State) : Prop := s.exceptionInProgress ≠ 0

/-- A character is printed. -/
def Printed (e : Event) : Prop := ∃ b, e = .putc b

section Steps

variable {platform : Platform} {e : Exception}

theorem not_printed {e : Event} (other : ∀ b, e ≠ .putc b) : ¬ Printed e := by
  intro printed
  obtain ⟨b, same⟩ := printed
  exact other b same

/-- A timer interrupt leaves the flag as it is. -/
theorem safe_timer (timer : e.Timer) {P : State → Prop}
    (keeps : ∀ s n, P s → P { s with ticksSinceBoot := n }) :
    (takeException platform e).Safe P (fun _ => True) (fun _ => True) fun _ => True := by
  rw [takeException, handleException_irq timer.1, handleInterruptException_timer timer.2]
  simp only [incrementUptimeByOneTick, bind_assoc, pure_bind, if_true, performAction_resume]
  refine .bind (Q := fun _ => True) (.emit trivial trivial) fun _ _ =>
    .bind (Q := fun _ => True) (.current fun _ _ => trivial) fun s _ =>
    .bind (Q := fun _ => True) (.update (fun t => keeps t _) trivial) fun _ _ =>
    .bind (Q := fun _ => True) (.emit trivial trivial) fun _ _ =>
    .bind (Q := fun _ => True) (.emit trivial trivial) fun _ _ => ?_
  exact .done trivial

theorem safe_restart (call : e.RestartCall) (P : State → Prop) :
    (takeException platform e).Safe P (fun _ => True) (fun _ => True) fun _ => True := by
  rw [takeException, handleException_restart call, bind_assoc, pure_bind,
    performAction_restart]
  have prints := prints_literal "System call received: 0x4444 ... restart\n"
  exact .bind (Q := fun _ => True) (prints.safe (fun _ => trivial) trivial)
    fun _ _ => .fail trivial

theorem safe_resumed (call : e.ResumedCall) :
    (takeException platform e).Safe Clear (fun _ => True) (fun _ => True) fun _ => True := by
  have prints {c : Routine Unit} (prints : Prints c) :
      c.Safe Clear (fun _ => True) (fun _ => True) fun _ => True :=
    prints.safe (fun _ => trivial) trivial
  rw [takeException, handleException_resumed call]
  simp only [bind_assoc, pure_bind, performAction_resume]
  refine .bind (prints (prints_literal _)) fun _ _ => .bind (prints (prints_hex platform _))
    fun _ _ => .bind (prints (prints_literal _)) fun _ _ => ?_
  exact .bind (Q := fun _ => True) (.store trivial (fun _ _ => rfl) trivial)
    fun _ _ => .done trivial

/-- What an exception that cannot be handled comes to. -/
theorem takeException_unhandled (unhandled : e.Unhandled) :
    takeException platform e =
      if e.Irq then do
        Code.emit (.readIar e.iar)
        Code.emit (.writeEoir e.iar)
        handleUnhandled platform e >>= performAction
      else handleUnhandled platform e >>= performAction := by
  rw [takeException]
  by_cases irq : e.Irq
  · have other : interruptId e.iar ≠ timerInterruptId := fun timer => unhandled.1 ⟨irq, timer⟩
    rw [if_pos irq, handleException_irq irq, handleInterruptException_other other]
    simp
  · rw [if_neg irq, handleException_unhandled irq unhandled]

/-- The dump is printed with the flag set, and then the processor halts. -/
theorem safe_dump :
    (do
      Code.emit .maskExceptions
      printDiagnostics platform e
      halt : Routine Unit).Safe InProgress (fun _ => True)
        (fun _ => False) (· = .halted) := by
  refine .bind (Q := fun _ => True) (.emit trivial trivial) fun _ _ =>
    .bind (Q := fun _ => True) ((prints_diagnostics platform e).safe (fun _ => trivial) trivial)
    fun _ _ => .bind (Q := fun _ => True) (.emit trivial trivial) fun _ _ => .fail rfl

theorem arms_unhandled :
    (handleUnhandled platform e >>= performAction).Arms Clear InProgress
      (fun e => ¬ Printed e) (· = .halted) := by
  rw [handleUnhandled, bind_assoc]
  refine .after (Q := Clear) (.current fun _ clear => clear) fun s clear => ?_
  have zero : s.exceptionInProgress = 0 := clear
  rw [if_neg (not_not.mpr zero), bind_assoc]
  refine .store (not_printed nofun) (fun _ _ => UInt64.zero_ne_one.symm) ?_
  simp only [bind_assoc, pure_bind, performAction_panic]
  exact safe_dump

theorem silent_unhandled :
    (handleUnhandled platform e >>= performAction).Safe InProgress
      (fun e => ¬ Printed e) (fun _ => False) (· = .halted) := by
  rw [handleUnhandled, bind_assoc]
  refine .bind (Q := InProgress) (.current fun _ set => set) fun s set => ?_
  have nonzero : s.exceptionInProgress ≠ 0 := set
  rw [if_pos nonzero]
  exact .bind (Q := fun _ => False) (.bind (Q := fun _ => True)
    (.emit (not_printed nofun) trivial) fun _ _ => .fail rfl) fun _ => False.elim

end Steps

/-! ## Interleavings -/

/-- The processor, with an activation for every exception taken and not yet resumed. -/
abbrev Processor : Type := Machine Exception State Stop Event

/-- No system call that resumes is taken while the flag is set. -/
def CallsWhileClear (e : Exception) (s : State) : Prop := e.ResumedCall → Clear s

/-- The flag is a latch for the exceptions that cannot be handled. -/
theorem latch (platform : Platform) :
    Latch (takeException platform) CallsWhileClear Clear InProgress Exception.Unhandled Printed
      (· = .halted) where
  openOther := by
    intro e s handled _ _
    rcases Exception.not_unhandled handled with timer | restart | resumed
    · exact safe_timer timer fun _ _ => id
    · exact safe_restart restart _
    · exact safe_resumed resumed
  closedOther := by
    intro e s handled allowed set
    rcases Exception.not_unhandled handled with timer | restart | resumed
    · exact safe_timer timer fun _ _ => id
    · exact safe_restart restart _
    · exact absurd (allowed resumed) set
  openGrave := by
    intro e unhandled
    rw [takeException_unhandled unhandled]
    split
    · exact .after (Q := fun _ => True) (.emit (not_printed nofun) trivial) fun _ _ =>
        .after (Q := fun _ => True) (.emit (not_printed nofun) trivial) fun _ _ => arms_unhandled
    · exact arms_unhandled
  closedGrave := by
    intro e unhandled
    rw [takeException_unhandled unhandled]
    split
    · exact .bind (Q := fun _ => True) (.emit (not_printed nofun) trivial) fun _ _ =>
        .bind (Q := fun _ => True) (.emit (not_printed nofun) trivial) fun _ _ => silent_unhandled
    · exact silent_unhandled

/-- Activation `i` is for an exception that cannot be handled, and has printed. -/
def Dumps (m : Processor) (i : Nat) : Prop :=
  GraveAt Exception.Unhandled m.taken i ∧ ∃ b, (i, .putc b) ∈ m.log

/-- Activation `i` has printed nothing and has not returned; left alone it halts without
printing, whatever happened since it was interrupted, if only the flag is still set. -/
def HaltsSilently (m : Processor) (i : Nat) : Prop :=
  (∀ b, (i, .putc b) ∉ m.log) ∧ ∃ fr ∈ m.stack, fr.owner = i ∧ ∀ s, InProgress s →
    (fr.code.run s).outcome = .error .halted ∧ ∀ b, .putc b ∉ (fr.code.run s).events

/-- There is no cascade of fatal exceptions in the interleavings that `may` allows, from boot. -/
structure NoCascade (platform : Platform) (may : Exception → State → Prop)
    (received : List UInt8) : Prop where
  /-- One dump is started at most. -/
  once : ∀ m, Reaches (takeException platform) may (.boot received) m →
    ∀ i j, Dumps m i → Dumps m j → i = j
  /-- Once the flag is set, all later exceptions that cannot be handled halt silently. -/
  later : ∀ m m', Reaches (takeException platform) may (.boot received) m →
    InProgress m.state → Relation.ReflTransGen (Step (takeException platform) may) m m' →
    ∀ i, m.taken.length ≤ i → GraveAt Exception.Unhandled m'.taken i → HaltsSilently m' i

/-- A silent activation halts. -/
theorem halts_of_safe {c : Routine Unit}
    (safe : c.Safe InProgress (fun e => ¬ Printed e) (fun _ => False) (· = .halted)) {s : State}
    (set : InProgress s) :
    (c.run s).outcome = .error .halted ∧ ∀ b, .putc b ∉ (c.run s).events := by
  obtain ⟨_, silent, value, failure⟩ := safe.run set
  refine ⟨?_, fun b member => silent _ member ⟨b, rfl⟩⟩
  rcases ends : (c.run s).outcome with stop | a
  · rw [failure stop ends]
  · exact (value a ends).elim

/-- **No cascade of fatal exceptions**, unless a system call opens the latch: however exceptions
interrupt one another from boot on, if none that is a resumed system call is taken while the flag
is set, one dump is started at most, and all later ones halt silently. -/
theorem no_cascade (platform : Platform) (received : List UInt8) :
    NoCascade platform CallsWhileClear received := by
  have inv {m : Processor}
      (reaches : Reaches (takeException platform) CallsWhileClear (.boot received) m) :=
    (latch platform).reaches (show Clear (.boot received) from rfl) reaches
  refine ⟨fun m reaches i j dumps dumps' => ?_, fun m m' reaches set run i later grave => ?_⟩
  · obtain ⟨grave, b, printed⟩ := dumps
    obtain ⟨grave', b', printed'⟩ := dumps'
    obtain ⟨_, open_ | closed⟩ := inv reaches
    · exact absurd grave (open_.silent i _ printed ⟨b, rfl⟩)
    · obtain ⟨d, closed⟩ := closed
      exact (closed.silent i _ printed ⟨b, rfl⟩ grave).trans
        (closed.silent j _ printed' ⟨b', rfl⟩ grave').symm
  · obtain ⟨orderly, open_ | closed⟩ := inv reaches
    · exact absurd open_.state set
    · obtain ⟨d, closed⟩ := closed
      obtain ⟨_, closed'⟩ : Orderly m' ∧ Latched InProgress Exception.Unhandled Printed
          (· = .halted) d m' := by
        clear later grave
        induction run with
        | refl => exact ⟨orderly, closed⟩
        | tail _ last ih =>
            exact ⟨ih.1.step last, ih.2.step (latch platform) ih.1 last⟩
      have after : d < i := Nat.lt_of_lt_of_le closed.closer.lt later
      refine ⟨fun b printed => ?_, ?_⟩
      · exact absurd (closed'.silent i _ printed ⟨b, rfl⟩ grave) (Nat.ne_of_gt after)
      · obtain ⟨above, code, below, stack, _, frames, graves⟩ := closed'.stack
        obtain ⟨fr, member, owner⟩ := graves i after grave
        refine ⟨fr, stack ▸ List.mem_append_left _ member, owner, fun s set => ?_⟩
        exact halts_of_safe ((frames fr member).grave (owner ▸ grave)) set

/-! ## A cascade -/

/-- A data abort. -/
def dataAbort : Exception := .plain exceptionTypeSyncEl1Spx 0x96000045 0 0

/-- The system call that the shell makes by default. -/
def systemCall : Exception := .plain exceptionTypeSyncEl1Spx 0x56000000 4 0

/-- A data abort, a system call while its dump has begun, and another data abort after the
call has resumed. -/
def cascadeSchedule : List (Action Exception) :=
  .deliver dataAbort :: List.replicate 4 .proceed ++
    .deliver systemCall :: List.replicate 44 .proceed ++
    .deliver dataAbort :: List.replicate 4 .proceed

/-- The processor at the end of the schedule. -/
def cascadeEnd : Processor :=
  cascadeSchedule.foldl (Machine.next (takeException .virt)) (.idle (.boot []))

/-- The call clears the flag, and a second dump begins. -/
theorem cascade : ¬ NoCascade .virt (fun _ _ => True) [] := by
  intro never
  have reached : Reaches (takeException .virt) (fun _ _ => True) (.boot []) cascadeEnd :=
    reaches_schedule _ _ _
  have taken : cascadeEnd.taken = [dataAbort, systemCall, dataAbort] := by decide +kernel
  have unhandled : dataAbort.Unhandled := by decide
  have first : Dumps cascadeEnd 0 :=
    ⟨⟨dataAbort, by rw [taken]; rfl, unhandled⟩, 13, by decide +kernel⟩
  have third : Dumps cascadeEnd 2 :=
    ⟨⟨dataAbort, by rw [taken]; rfl, unhandled⟩, 13, by decide +kernel⟩
  exact absurd (never.once cascadeEnd reached 0 2 first third) (by decide)

end CharcoalOS.Kernel
