import CharcoalOS.Kernel.Handling

/-!
# The uptime

The exceptions of a run are taken one after the other, until one does not resume. `TickAccount`
keeps the accounts of such a run: the tick counter, what the interrupt controller and the
timer see, and what `uptime` answers. `takeException_account` is the entry for one exception,
and `tick_accounting` the sum over the run.
-/

namespace CharcoalOS.Kernel

open Effect Effect.Program

/-- Exceptions taken one after the other; one that does not resume is the last. -/
def serve (platform : Platform) : List Exception → Routine Unit
  | [] => pure ()
  | e :: es => do
      takeException platform e
      serve platform es

/-- Those of the exceptions that are taken. -/
def served : List Exception → List Exception
  | [] => []
  | e :: es => if e.Resumed then e :: served es else [e]

/-- How many of them are the timer's. -/
def ticks (es : List Exception) : Nat := es.countP (·.Timer)

/-- The accesses to the interrupt controller and to the timer. -/
def isInterruptEvent : Event → Bool
  | .readIar _ => true
  | .writeEoir _ => true
  | .setTimer _ => true
  | _ => false

/-- The accesses that an exception asks for: an IRQ is acknowledged and ended with the same
value, and the timer is armed again when it has ticked. -/
def interruptProtocol (platform : Platform) (e : Exception) : List Event :=
  if e.Timer then
    [.readIar e.iar, .setTimer (platform.timerFrequency / interruptFrequencyInHz),
      .writeEoir e.iar]
  else if e.Irq then [.readIar e.iar, .writeEoir e.iar]
  else []

/-! ## One exception -/

/-- The routine leaves the counter, the interrupt controller and the timer alone. -/
def OffTheClock {α : Type} (Q : α → Prop) (F : Stop → Prop) (c : Routine α) : Prop :=
  ∀ t, c.Safe (·.ticksSinceBoot = t) (fun e => ¬ isInterruptEvent e) Q F

section OffTheClock

variable {α : Type} {Q : α → Prop} {F : Stop → Prop} {c : Routine α} {platform : Platform}
  {e : Exception}

theorem OffTheClock.run (off : OffTheClock Q F c) (s : State) :
    (c.run s).state.ticksSinceBoot = s.ticksSinceBoot ∧
      (c.run s).events.filter isInterruptEvent = [] ∧
      (∀ a, (c.run s).outcome = .ok a → Q a) ∧ ∀ e, (c.run s).outcome = .error e → F e := by
  obtain ⟨kept, events, value, failure⟩ := (off s.ticksSinceBoot).run (s := s) rfl
  exact ⟨kept, List.filter_eq_nil_iff.mpr events, value, failure⟩

theorem Prints.offTheClock {c : Routine Unit} (prints : Prints c) :
    OffTheClock (fun _ => True) (fun _ => False) c :=
  fun _ => prints.safe (fun _ => Bool.false_ne_true) trivial

theorem safe_halt {P : State → Prop} {E : Event → Prop} {Q : α → Prop} (flush : E .txFlush)
    (failure : F .halted) : (halt : Routine α).Safe P E Q F :=
  Code.Safe.bind (Q := fun _ => True) (.emit flush trivial) fun _ _ => failure

theorem offTheClock_unhandled :
    OffTheClock (· = exceptionActionPanic) (fun _ => True) (handleUnhandled platform e) := by
  intro t
  refine .bind (.current (Q := fun _ => True) fun _ _ => trivial) fun s _ => .ite (fun _ => ?_)
    fun _ => ?_
  · exact safe_halt Bool.false_ne_true trivial
  · refine .bind (Q := fun _ => True) (.store Bool.false_ne_true (fun _ kept => kept) trivial)
      fun _ _ => .bind (Q := fun _ => True) (.emit Bool.false_ne_true trivial) fun _ _ => ?_
    exact .bind ((prints_diagnostics platform e).offTheClock t |>.mono (fun _ => id)
      (fun _ => id) fun _ => False.elim) fun _ _ => .pure rfl

theorem offTheClock_restart (call : e.RestartCall) :
    OffTheClock (· = exceptionActionRestart) (fun _ => False) (handleException platform e) := by
  intro t
  rw [handleException_restart call]
  exact .bind ((prints_literal _).offTheClock t) fun _ _ => .pure rfl

theorem offTheClock_resumed (call : e.ResumedCall) :
    OffTheClock (· = exceptionActionResume) (fun _ => False) (handleException platform e) := by
  intro t
  have prints {c : Routine Unit} (prints : Prints c) := prints.offTheClock t
  rw [handleException_resumed call]
  refine .bind (prints (prints_literal _)) fun _ _ => .bind (prints (prints_hex platform _))
    fun _ _ => .bind (prints (prints_literal _)) fun _ _ => ?_
  exact .bind (Q := fun _ => True) (.store Bool.false_ne_true (fun _ kept => kept) trivial)
    fun _ _ => .pure rfl

end OffTheClock

/-- The entry for one exception. -/
structure Entry (platform : Platform) (e : Exception) (s : State)
    (r : Result State Stop Event Unit) : Prop where
  resumes : r.outcome = .ok () ↔ e.Resumed
  counts : r.state.ticksSinceBoot = s.ticksSinceBoot + if e.Timer then 1 else 0
  protocol : r.events.filter isInterruptEvent = interruptProtocol platform e

variable {platform : Platform} {e : Exception}

/-- An answer other than to resume. -/
theorem offTheClock_take {c : Routine UInt64} {Q : UInt64 → Prop} {F : Stop → Prop}
    (off : OffTheClock Q F c) (fatal : ∀ a, Q a → a ≠ exceptionActionResume) :
    OffTheClock (fun _ => False) (fun _ => True) (c >>= performAction) := by
  intro t
  refine .bind ((off t).mono (fun _ => id) (fun _ => id) fun _ _ => trivial) fun a holds => ?_
  refine .ite (fun resume => absurd resume (fatal a holds)) fun _ => .ite (fun _ => trivial)
    fun _ => safe_halt Bool.false_ne_true trivial

/-- A routine off the clock makes the entry of an exception that is not an IRQ. -/
theorem entry_of_off {Q : Unit → Prop} {F : Stop → Prop} (irq : ¬ e.Irq)
    (off : OffTheClock Q F (takeException platform e)) (s : State)
    (resumes : ((takeException platform e).run s).outcome = .ok () ↔ e.Resumed) :
    Entry platform e s ((takeException platform e).run s) := by
  obtain ⟨kept, events, _⟩ := off.run s
  have timer : ¬ e.Timer := fun timer => irq timer.1
  refine ⟨resumes, ?_, ?_⟩
  · rw [kept, if_neg timer, UInt64.add_zero]
  · rw [events, interruptProtocol, if_neg timer, if_neg irq]

theorem entry_timer (timer : e.Timer) (s : State) :
    Entry platform e s ((takeException platform e).run s) := by
  have run : (takeException platform e).run s = ⟨.ok (),
      { s with ticksSinceBoot := s.ticksSinceBoot + 1 }, interruptProtocol platform e⟩ := by
    rw [takeException, handleException_irq timer.1, handleInterruptException_timer timer.2,
      interruptProtocol, if_pos timer]
    rfl
  rw [run]
  refine ⟨⟨fun _ => Or.inl timer, fun _ => rfl⟩, ?_, ?_⟩
  · rw [if_pos timer]
  · rw [interruptProtocol, if_pos timer]
    rfl

/-- An interrupt that is not the timer's: acknowledged, ended, and fatal. -/
theorem entry_irq (irq : e.Irq) (other : interruptId e.iar ≠ timerInterruptId) (s : State) :
    Entry platform e s ((takeException platform e).run s) := by
  have timer : ¬ e.Timer := fun timer => other timer.2
  have run : (takeException platform e).run s =
      ((handleUnhandled platform e >>= performAction).run s).after
        [.readIar e.iar, .writeEoir e.iar] := by
    rw [takeException, handleException_irq irq, handleInterruptException_other other]
    rfl
  have off : OffTheClock (fun _ => False) (fun _ => True)
      (handleUnhandled platform e >>= performAction) :=
    offTheClock_take offTheClock_unhandled (by intro a panic; rw [panic]; decide)
  obtain ⟨kept, events, value, _⟩ := off.run s
  rw [run]
  refine ⟨⟨fun ends => (value () ends).elim, fun resumed => ?_⟩, ?_, ?_⟩
  · exact resumed.elim (fun timer' => absurd timer' timer) fun call => absurd irq call.1.not_irq
  · rw [if_neg timer, UInt64.add_zero]
    exact kept
  · rw [Result.after, List.filter_append, events, interruptProtocol, if_neg timer, if_pos irq]
    rfl

theorem entry_resumed (call : e.ResumedCall) (s : State) :
    Entry platform e s ((takeException platform e).run s) := by
  have off : OffTheClock (fun _ => True) (fun _ => False) (takeException platform e) :=
    fun t => (offTheClock_resumed call t).bind fun a resume =>
      .ite (fun _ => trivial) fun other => absurd resume other
  refine entry_of_off call.1.not_irq off s ⟨fun _ => Or.inr call, fun _ => ?_⟩
  obtain ⟨_, _, _, failure⟩ := off.run s
  rcases ends : ((takeException platform e).run s).outcome with stop | value
  · exact (failure stop ends).elim
  · rfl

/-- An exception that neither is an IRQ nor resumes. -/
theorem entry_fatal {Q : UInt64 → Prop} {F : Stop → Prop} (irq : ¬ e.Irq) (resumed : ¬ e.Resumed)
    (off : OffTheClock Q F (handleException platform e))
    (fatal : ∀ a, Q a → a ≠ exceptionActionResume) (s : State) :
    Entry platform e s ((takeException platform e).run s) := by
  have off' := offTheClock_take off fatal
  exact entry_of_off irq off' s ⟨fun ends => ((off'.run s).2.2.1 () ends).elim,
    fun resumed' => absurd resumed' resumed⟩

/-- **One exception**, from whatever state. -/
theorem takeException_account (platform : Platform) (e : Exception) (s : State) :
    Entry platform e s ((takeException platform e).run s) := by
  by_cases irq : e.Irq
  · by_cases timer : interruptId e.iar = timerInterruptId
    · exact entry_timer ⟨irq, timer⟩ s
    · exact entry_irq irq timer s
  · have timer : ¬ e.Timer := fun timer => irq timer.1
    by_cases unhandled : e.Unhandled
    · refine entry_fatal irq (fun resumed => resumed.not_unhandled unhandled)
        (handleException_unhandled irq unhandled ▸ offTheClock_unhandled) ?_ s
      intro a panic
      rw [panic]
      decide
    · rcases (Exception.not_unhandled unhandled).resolve_left timer with restart | resumed
      · refine entry_fatal irq (fun resumed => resumed.elim timer fun call => ?_)
          (offTheClock_restart restart) ?_ s
        · exact call.2.1 restart.2
        · intro a action
          rw [action]
          decide
      · exact entry_resumed resumed s

/-! ## The run -/

theorem ticks_cons (e : Exception) (es : List Exception) :
    ticks (e :: es) = ticks es + if e.Timer then 1 else 0 := by
  simp [ticks, List.countP_cons]

theorem served_cons_resumed {es : List Exception} (resumed : e.Resumed) :
    served (e :: es) = e :: served es := if_pos resumed

theorem served_cons_fatal {es : List Exception} (fatal : ¬ e.Resumed) :
    served (e :: es) = [e] := if_neg fatal

/-- Nothing is left out as long as everything resumes. -/
theorem served_eq {es : List Exception} (resumed : ∀ e ∈ es, e.Resumed) : served es = es := by
  induction es with
  | nil => rfl
  | cons e es ih =>
      obtain ⟨first, rest⟩ := List.forall_mem_cons.mp resumed
      rw [served_cons_resumed first, ih rest]

/-- What is taken of a run is taken of a longer run too. -/
theorem served_append_starts (es es' : List Exception) : served es <+: served (es ++ es') := by
  induction es with
  | nil => exact List.nil_prefix
  | cons e es ih =>
      rw [List.cons_append]
      by_cases resumed : e.Resumed
      · rw [served_cons_resumed resumed, served_cons_resumed resumed]
        exact List.prefix_cons_inj e |>.mpr ih
      · rw [served_cons_fatal resumed, served_cons_fatal resumed]

theorem ticks_served_append (es es' : List Exception) :
    ticks (served es) ≤ ticks (served (es ++ es')) :=
  (served_append_starts es es').sublist.countP_le

/-- The entries of a run, summed up. -/
structure Sum (platform : Platform) (es : List Exception) (s : State)
    (r : Result State Stop Event Unit) : Prop where
  resumes : r.outcome = .ok () ↔ ∀ e ∈ es, e.Resumed
  counts : r.state.ticksSinceBoot = s.ticksSinceBoot + UInt64.ofNat (ticks (served es))
  protocol : r.events.filter isInterruptEvent =
    (served es).flatMap (interruptProtocol platform)

/-- **The whole run**, from whatever state. -/
theorem serve_sum (platform : Platform) (es : List Exception) (s : State) :
    Sum platform es s ((serve platform es).run s) := by
  induction es generalizing s with
  | nil => exact ⟨by simp [serve, pure, ret], (UInt64.add_zero _).symm, rfl⟩
  | cons e es ih =>
      obtain ⟨resumes, counts, protocol⟩ := takeException_account platform e s
      rw [serve, Code.run_bind]
      rcases first : (takeException platform e).run s with ⟨o, s', evs⟩
      rw [first] at resumes counts protocol
      dsimp only at resumes counts protocol
      cases o with
      | error stop =>
          have fatal : ¬ e.Resumed := by
            intro resumed
            cases resumes.mpr resumed
          rw [bind_error first]
          refine ⟨⟨?_, fun all => absurd (all e List.mem_cons_self) fatal⟩, ?_, ?_⟩
          · intro normal
            cases normal
          · rw [served_cons_fatal fatal, ticks_cons, counts]
            split <;> rfl
          · rw [served_cons_fatal fatal, List.flatMap_singleton]
            exact protocol
      | ok _ =>
          have resumed : e.Resumed := resumes.mp rfl
          obtain ⟨resumes', counts', protocol'⟩ := ih s'
          rw [bind_ok first]
          refine ⟨?_, ?_, ?_⟩
          · rw [List.forall_mem_cons]
            exact resumes'.trans ⟨fun rest => ⟨resumed, rest⟩, fun all => all.2⟩
          · rw [served_cons_resumed resumed, ticks_cons]
            dsimp only
            rw [counts', counts, UInt64.add_assoc, UInt64.add_comm (ite _ _ _), UInt64.ofNat_add]
            split <;> rfl
          · rw [served_cons_resumed resumed, List.flatMap_cons]
            dsimp only
            rw [List.filter_append, protocol, protocol']

/-! ## The uptime -/

/-- What `uptime` answers after the exceptions of a run. -/
def uptimeAfter (platform : Platform) (received : List UInt8) (es : List Exception) :
    Except Stop UInt64 :=
  (uptime.run ((serve platform es).run (.boot received)).state).outcome

theorem uptimeAfter_eq (platform : Platform) (received : List UInt8) (es : List Exception) :
    uptimeAfter platform received es =
      .ok (1000 * UInt64.ofNat (ticks (served es)) / interruptFrequencyInHz) := by
  have counts := (serve_sum platform es (.boot received)).counts
  show Except.ok (1000 * State.ticksSinceBoot _ / interruptFrequencyInHz) = _
  rw [counts]
  exact congrArg (fun t => Except.ok (1000 * t / interruptFrequencyInHz)) (UInt64.zero_add _)

/-- Milliseconds, as long as they fit. -/
theorem milliseconds {n : Nat} (fits : 1000 * n < 2 ^ 64) :
    (1000 * UInt64.ofNat n / interruptFrequencyInHz).toNat = 1000 * n / 100 := by
  have small : n < 2 ^ 64 := by omega
  rw [UInt64.toNat_div, UInt64.toNat_mul, UInt64.toNat_ofNat_of_lt' small]
  show 1000 * n % 2 ^ 64 / 100 = _
  rw [Nat.mod_eq_of_lt fits]

/-- The accounts of the runs from boot. -/
structure TickAccount (platform : Platform) (received : List UInt8) (es : List Exception) :
    Prop where
  /-- The run ends with the first exception that does not resume, if there is one. -/
  ends : ((serve platform es).run (.boot received)).outcome = .ok () ↔ ∀ e ∈ es, e.Resumed
  count : ((serve platform es).run (.boot received)).state.ticksSinceBoot.toNat =
    ticks (served es) % 2 ^ 64
  /-- No other exception changes the counter, whatever the state. -/
  others : ∀ e : Exception, ¬ e.Timer → ∀ s,
    ((takeException platform e).run s).state.ticksSinceBoot = s.ticksSinceBoot
  protocol : ((serve platform es).run (.boot received)).events.filter isInterruptEvent =
    (served es).flatMap (interruptProtocol platform)
  uptime : 1000 * ticks (served es) < 2 ^ 64 → ∃ ms, uptimeAfter platform received es = .ok ms ∧
    ms.toNat = 1000 * ticks (served es) / 100
  /-- `uptime` never decreases between two reads. -/
  monotone : ∀ es', 1000 * ticks (served (es ++ es')) < 2 ^ 64 → ∃ ms ms',
    uptimeAfter platform received es = .ok ms ∧
      uptimeAfter platform received (es ++ es') = .ok ms' ∧ ms ≤ ms'

/-- **The tick counter is the number of timer interrupts**, modulo 2^64, over any exceptions that
are taken from boot on: each timer interrupt is acknowledged, re-armed and ended once, nothing
else changes the counter, and `uptime` follows it as long as 1000 times as much fits. -/
theorem tick_accounting (platform : Platform) (received : List UInt8) (es : List Exception) :
    TickAccount platform received es := by
  obtain ⟨ends, counts, protocol⟩ := serve_sum platform es (.boot received)
  have answer (es : List Exception) := uptimeAfter_eq platform received es
  refine ⟨ends, ?_, fun e timer s => ?_, protocol, fun fits => ⟨_, answer es, milliseconds fits⟩,
    fun es' fits => ⟨_, _, answer es, answer (es ++ es'), ?_⟩⟩
  · rw [counts]
    exact (congrArg UInt64.toNat (UInt64.zero_add _)).trans (UInt64.toNat_ofNat' ..)
  · rw [(takeException_account platform e s).counts, if_neg timer, UInt64.add_zero]
  · have more := ticks_served_append es es'
    rw [UInt64.le_iff_toNat_le, milliseconds fits, milliseconds (by omega)]
    exact Nat.div_le_div_right (Nat.mul_le_mul_left _ more)

/-- An interrupt of the timer. -/
def timerTick : Exception := .plain exceptionTypeIrqEl1Spx 0 0 timerInterruptId

/-- The counter has 64 bits. -/
theorem tick_counter_wraps :
    ((serve .virt (List.replicate (2 ^ 64) timerTick)).run (.boot [])).outcome = .ok () ∧
      ((serve .virt (List.replicate (2 ^ 64) timerTick)).run
        (.boot [])).state.ticksSinceBoot.toNat ≠ ticks (List.replicate (2 ^ 64) timerTick) := by
  have timer : timerTick.Timer := by decide
  have resumed : ∀ e ∈ List.replicate (2 ^ 64) timerTick, e.Resumed :=
    fun e member => Or.inl ((List.eq_of_mem_replicate member) ▸ timer)
  have many : ticks (List.replicate (2 ^ 64) timerTick) = 2 ^ 64 := by
    rw [ticks, List.countP_replicate, if_pos (decide_eq_true timer)]
  obtain ⟨ends, counts, _⟩ := serve_sum .virt (List.replicate (2 ^ 64) timerTick) (.boot [])
  refine ⟨ends.mpr resumed, ?_⟩
  rw [counts, served_eq resumed, many]
  decide

end CharcoalOS.Kernel
