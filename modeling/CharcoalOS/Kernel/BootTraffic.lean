import CharcoalOS.Kernel.Booting
import CharcoalOS.Kernel.Traffic

/-!
# What the start-up takes from the serial line, and how it halts

The account of `Kernel.Traffic`, of the whole of `kmain`: what has been read and what the line
still brings is what it brought, and a flush of the console is the last thing before the
processor halts, be it after a panic of the parser or in the shell.
-/

namespace CharcoalOS.Kernel

open Effect Effect.Code

/-! ## What the console is asked for -/

def BootEvent.kernelEvent : BootEvent → Option Event
  | .kernel e => some e
  | _ => none

/-- The events that are the kernel's own, without the set-up of the timer and the parser's. -/
def asked (evs : List BootEvent) : List Event := evs.filterMap BootEvent.kernelEvent

section Asked

variable {evs evs' : List BootEvent}

@[simp] theorem asked_append : asked (evs ++ evs') = asked evs ++ asked evs' :=
  List.filterMap_append

theorem asked_eq_nil (silent : ∀ e ∈ evs, e.kernelEvent = none) : asked evs = [] :=
  List.filterMap_eq_nil_iff.mpr silent

/-- Nothing else prints. -/
theorem printed_asked : printed (asked evs) = shown evs := by
  induction evs with
  | nil => rfl
  | cons e evs ih =>
      have one : printed (asked [e]) = shown [e] := by
        cases e with
        | kernel e => cases e <;> rfl
        | access | discovery => rfl
      rw [← List.singleton_append, asked_append, printed_append, shown_append, one, ih]

end Asked

/-! ## Pieces of the start-up -/

/-- The account of the serial line, in the events that the console is asked for. -/
def bootSerial (platform : Platform) : Account (Interrupted platform) Stop BootEvent :=
  (serial platform).viewed BootEvent.kernelEvent within_globals

section BootSerial

variable {α : Type} {platform : Platform} {board : Board} {env : Env} {c : Boot α} {dtb : UInt64}

/-- An event that asks for nothing. -/
theorem bootSerial_links {event : BootEvent} {m m' : Machine} (silent : event.kernelEvent = none)
    (same : m'.globals.received = m.globals.received) :
    (bootSerial platform).links [event] m m' := by
  show reads (asked [event]) ++ m'.globals.received = m.globals.received
  rw [asked_eq_nil (List.forall_mem_singleton.mpr silent)]
  exact same

/-- A routine does as a piece what it does by itself. -/
theorem bootSerial_onGlobals {c : Routine α} (covers : (serial platform).Covers (fun _ => True) c) :
    (bootSerial platform).Covers (fun _ => True) (onGlobals c) :=
  covers.zoom fun _ => rfl

theorem bootSerial_literal (text : String) :
    (bootSerial platform).Covers (fun _ => True) (onGlobals (consolePrint (cString text))) :=
  bootSerial_onGlobals (prints_literal text).serial

theorem SetsUp.serial (setsUp : SetsUp c) :
    (bootSerial platform).Covers (fun _ => True) c := by
  induction setsUp with
  | pure a => exact .pure trivial
  | bind _ _ first then_ => exact first.bind fun a _ => then_ a
  | access a => exact .emit fun _ => bootSerial_links rfl rfl
  | prints prints => exact bootSerial_onGlobals prints.serial

theorem bootSerial_halt :
    (bootSerial platform).Covers (fun _ => True) (onGlobals (halt : Routine α)) :=
  bootSerial_onGlobals Inputless.halt.serial

/-! ### The parser and the regions -/

theorem bootSerial_carryOut (e : CharcoalOS.Event) :
    (bootSerial platform).Covers (fun _ => True) (carryOut platform e) := by
  cases e with
  | print text => exact bootSerial_literal text
  | printHexValue value size =>
      exact bootSerial_onGlobals (prints_value platform size value.toNat).serial
  | read | store | compareDeviceType | decodeRegions | panic =>
      exact .emit fun _ => bootSerial_links rfl rfl

theorem bootSerial_report (evs : List CharcoalOS.Event) :
    (bootSerial platform).Covers (fun _ => True) (driveAll (carryOut platform) evs) := by
  induction evs with
  | nil => exact .pure trivial
  | cons e evs ih =>
      exact .bind (bootSerial_carryOut e) fun _ _ => ih

theorem bootSerial_parseBlob :
    (bootSerial platform).Covers (fun _ => True) (parseBlob platform board env dtb) := by
  refine .bind .current fun m _ => .bind (bootSerial_report _) fun _ _ =>
    .bind (.update fun _ => rfl) fun _ _ => ?_
  split
  · exact .pure trivial
  · exact .pure trivial
  · exact bootSerial_halt
  · exact .fail nofun

theorem serial_regions (info : HardwareInfo) (n i : ℕ) :
    (serial platform).Covers (fun _ => True) (printRegions platform info n i) := by
  induction n generalizing i with
  | zero => exact .pure trivial
  | succ n ih =>
      exact .bind (prints_literal _).serial fun _ _ =>
        .bind (.ofOption (serial_fails Stop.noConfusion) _) fun _ _ =>
        .bind (prints_hex _ _).serial fun _ _ => .bind (prints_literal _).serial fun _ _ =>
        .bind (prints_hex _ _).serial fun _ _ => .bind (prints_literal _).serial fun _ _ =>
        ih (i + 1)

/-! ### The whole -/

theorem bootSerial_run :
    (bootSerial platform).Covers (fun _ => True) (kernelRun platform board) := by
  refine .bind .current fun m _ => ?_
  cases m.foregroundClient with
  | none => exact bootSerial_halt
  | some client => exact bootSerial_onGlobals (serial_shell _)

theorem bootSerial_finish :
    (bootSerial platform).Covers (fun _ => True) (finish platform board) := by
  refine .bind .current fun m _ => .bind (bootSerial_onGlobals (serial_regions _ _ _)) fun _ _ =>
    .bind (bootSerial_literal _) fun _ _ => .bind .current fun _ _ => ?_
  refine .bind (Q := fun _ => True) (.ite ?_ (.pure trivial)) fun _ _ =>
    .bind bootSerial_run fun _ _ => bootSerial_halt
  exact .update fun _ => rfl

theorem bootSerial_unmask : (bootSerial platform).Covers (fun _ => True) unmaskInterrupts :=
  .store fun _ => bootSerial_links rfl rfl

/-- **The whole of `kmain`** reads what the line brings, and flushes before it halts. -/
theorem bootSerial_kmain :
    (bootSerial platform).Covers (fun _ => True) (kmain platform board env dtb) := by
  rw [kmain_eq]
  exact .bind (setsUp_prepare platform board).serial fun _ _ => .bind bootSerial_unmask fun _ _ =>
    .bind (bootSerial_literal _) fun _ _ => .bind (bootSerial_literal _) fun _ _ =>
    .bind bootSerial_parseBlob fun _ _ => bootSerial_finish

end BootSerial

end CharcoalOS.Kernel
