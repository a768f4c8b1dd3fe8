import CharcoalOS.Kernel.Printing

/-!
# Which exceptions are handled

`handle_exception` handles timer interrupts and system calls, and nothing else. Each kind
has its own equation for `handleException`, so that no later proof splits its branches.
-/

namespace CharcoalOS.Kernel

open Effect Effect.Program

namespace Exception

variable (e : Exception)

/-- An IRQ of EL1 on its own stack pointer. -/
def Irq : Prop := e.kindOfException = exceptionTypeIrqEl1Spx

/-- The timer's interrupt. -/
def Timer : Prop := e.Irq ∧ interruptId e.iar = timerInterruptId

/-- A system call. -/
def Svc : Prop :=
  isSyncExceptionType e.kindOfException ∧
    exceptionClassFromEsrEl1 e.esrEl1 = exceptionClassSvcAarch64

/-- By convention, x8 has the system call number. -/
def systemCallNumber : UInt64 := getElem e.savedRegisters 8 eight_saved

/-- The system call that reboots. -/
def RestartCall : Prop := e.Svc ∧ e.systemCallNumber = 0x4444

/-- The system calls that resume. -/
def ResumedCall : Prop := e.Svc ∧ e.systemCallNumber ≠ 0x4444 ∧ e.systemCallNumber ≠ 0x7777

/-- What `handle_exception` resumes from. -/
def Resumed : Prop := e.Timer ∨ e.ResumedCall

/-- What `handle_exception` cannot handle. -/
def Unhandled : Prop := ¬ e.Timer ∧ ¬ e.RestartCall ∧ ¬ e.ResumedCall

instance : Decidable e.Irq := inferInstanceAs (Decidable (_ = _))

instance : Decidable e.Timer := inferInstanceAs (Decidable (_ ∧ _))

instance : Decidable e.Svc := inferInstanceAs (Decidable (_ ∧ _))

instance : Decidable e.RestartCall := inferInstanceAs (Decidable (_ ∧ _))

instance : Decidable e.ResumedCall := inferInstanceAs (Decidable (_ ∧ _ ∧ _))

instance : Decidable e.Resumed := inferInstanceAs (Decidable (_ ∨ _))

instance : Decidable e.Unhandled := inferInstanceAs (Decidable (_ ∧ _ ∧ _))

variable {e}

/-- No interrupt is synchronous. -/
theorem Svc.not_irq (svc : e.Svc) : ¬ e.Irq := by
  intro irq
  have sync := svc.1
  rw [irq] at sync
  revert sync
  decide

theorem not_unhandled (handled : ¬ e.Unhandled) : e.Timer ∨ e.RestartCall ∨ e.ResumedCall := by
  by_contra none
  exact handled ⟨fun timer => none (Or.inl timer), fun restart => none (Or.inr (Or.inl restart)),
    fun resumed => none (Or.inr (Or.inr resumed))⟩

theorem Resumed.not_unhandled (resumed : e.Resumed) : ¬ e.Unhandled :=
  fun unhandled => resumed.elim unhandled.1 unhandled.2.2

end Exception

/-! ## The equations -/

variable {platform : Platform} {e : Exception}

theorem performAction_resume : performAction exceptionActionResume = pure () := if_pos rfl

theorem performAction_restart : performAction exceptionActionRestart = platformReboot :=
  (if_neg (by decide)).trans (if_pos rfl)

theorem performAction_panic : performAction exceptionActionPanic = halt :=
  (if_neg (by decide)).trans (if_neg (by decide))

theorem handleException_irq (irq : e.Irq) :
    handleException platform e = (do
      let handled ← handleInterruptException platform e.iar
      if handled then pure exceptionActionResume else handleUnhandled platform e) :=
  if_pos irq

theorem handleException_restart (call : e.RestartCall) :
    handleException platform e = (do
      consolePrint (cString "System call received: 0x4444 ... restart\n")
      pure exceptionActionRestart) := by
  obtain ⟨svc, number⟩ := call
  exact (if_neg svc.not_irq).trans ((if_pos svc).trans (if_pos number))

theorem handleException_resumed (call : e.ResumedCall) :
    handleException platform e = (do
      consolePrint (cString "System call received: 0x")
      printHex platform e.systemCallNumber
      consolePrint (cString "\n")
      storeInProgress 0
      pure exceptionActionResume) := by
  obtain ⟨svc, restart, panic⟩ := call
  exact (if_neg svc.not_irq).trans ((if_pos svc).trans ((if_neg restart).trans (if_pos panic)))

theorem handleException_unhandled (irq : ¬ e.Irq) (unhandled : e.Unhandled) :
    handleException platform e = handleUnhandled platform e := by
  refine (if_neg irq).trans ?_
  by_cases svc : e.Svc
  · have number : e.systemCallNumber = 0x7777 := by
      by_contra other
      by_cases restart : e.systemCallNumber = 0x4444
      · exact unhandled.2.1 ⟨svc, restart⟩
      · exact unhandled.2.2 ⟨svc, restart, other⟩
    have other : e.systemCallNumber ≠ 0x4444 := by
      rw [number]
      decide
    exact (if_pos svc).trans ((if_neg other).trans (if_neg (not_not.mpr number)))
  · exact if_neg svc

/-- What an interrupt amounts to, up to the answer. -/
theorem handleInterruptException_timer (timer : interruptId e.iar = timerInterruptId) :
    handleInterruptException platform e.iar = (do
      Code.emit (.readIar e.iar)
      incrementUptimeByOneTick
      Code.emit (.setTimer (platform.timerFrequency / interruptFrequencyInHz))
      Code.emit (.writeEoir e.iar)
      pure true) := by
  rw [handleInterruptException, if_pos timer]
  rfl

theorem handleInterruptException_other (other : interruptId e.iar ≠ timerInterruptId) :
    handleInterruptException platform e.iar = (do
      Code.emit (.readIar e.iar)
      Code.emit (.writeEoir e.iar)
      pure false) := by
  rw [handleInterruptException, if_neg other]
  rfl

end CharcoalOS.Kernel
