import CharcoalOS.Kernel.BootTraffic
import CharcoalOS.Platform.Wire

/-!
# The kernel on the wire

All of `kmain`, from the first line of the diagnostics on, with its console calls carried out by
the driver: `kmain_on_the_wire` is `Platform.Wire` for the kernel's whole run. A panic of the
parser is on the line, to the last byte of its message, before the processor halts.
-/

namespace CharcoalOS.Platform

open Effect Effect.Code CharcoalOS.Kernel

/-! ## The driver under the start-up -/

section Drive

variable {depth : ℕ}

/-- The driver's part of an event. -/
def driveBoot (fuel : ℕ) : BootEvent → Driver depth Unit
  | .kernel e => drive fuel e
  | .access _ => pure ()
  | .discovery _ => pure ()

/-- The driver has to do with what it is asked for, and with nothing else. -/
theorem driveAll_boot (fuel : ℕ) (evs : List BootEvent) :
    driveAll (driveBoot fuel : BootEvent → Driver depth Unit) evs =
      driveAll (drive fuel) (asked evs) := by
  induction evs with
  | nil => rfl
  | cons e evs ih =>
      rw [driveAll, ih]
      cases e with
      | kernel e => rfl
      | access | discovery => rfl

end Drive

/-! ## The whole -/

/-- What a run of `kmain` over the device comes to. -/
abbrev BootResult (depth : ℕ) : Type :=
  Result (Kernel.Machine × Pl011 depth) (Kernel.Stop ⊕ Stuck)
    (Access ⊕ (Kernel.Exception ⊕ Move)) Unit

/-- The runs of `kmain` over the device, with timer interrupts where they are not masked. -/
abbrev BootOnDevice (platform : Platform) (board : Kernel.Board) (env : Env) (dtb : UInt64)
    (fuel depth : ℕ) : Kernel.Machine × Pl011 depth → BootResult depth → Prop :=
  Runs (beside (Interrupted platform) Pl011.Moved)
    (lower (driveBoot fuel) (kmain platform board env dtb))

/-- The kernel's globals, and the device. -/
def deviceResult {depth : ℕ} (r : BootResult depth) : DeviceResult depth :=
  ⟨r.outcome, (r.state.1.globals, r.state.2), r.events⟩

/-- What a run of `kmain` comes to on the wire. -/
structure BootsOnTheWire {depth : ℕ} (platform : Platform) (board : Kernel.Board) (env : Env)
    (dtb : UInt64) (received : List UInt8) (u : Pl011 depth) (r : BootResult depth) : Prop where
  /-- An accepted blob: the diagnostics, the report, the memory regions, and the session. -/
  accepted : (parsed board env dtb).outcome = .ok () → ∃ ks : List ℕ, ks.Pairwise (· ≤ ·) ∧
    (∀ k ∈ ks, k ≤ (own (met r.events)).length) ∧
    let ended := session platform (timesAt (.boot received) ks) 0 [] received
    OnTheWire u (acceptedText board env dtb ++ ended.1) ended.2 (deviceResult r)
  /-- A blob that is refused: the message of the panic is the last that is sent. -/
  refused : (parsed board env dtb).outcome ≠ .ok () → ∃ text message,
    OnTheWire u (startText board ++ parsingText ++ text ++ (lineOf message ++ lineOf "\n\n"))
      .halted (deviceResult r)

section Boot

variable {platform : Platform} {board : Kernel.Board} {env : Env} {dtb : UInt64}
  {fuel depth : ℕ} {received : List UInt8} {u : Pl011 depth} {r : BootResult depth}

/-- A run of `kmain` on the wire, for what it prints and how it ends above. -/
theorem onTheWire_of_kmain {why : Kernel.Stop} {high low} (typed : u.brought = received)
    (split : Splits (Interrupted platform) Pl011.Moved (driveBoot fuel)
      (kmain platform board env dtb) (.start received, u) r high low)
    (stops : high.outcome = .error why) :
    OnTheWire u (shown (own high.events)) why (deviceResult r) := by
  have covered : (bootSerial platform).Holds (fun _ => True) (.start received) high :=
    bootSerial_kmain _ _ split.runs_high
  have account : reads (asked (own high.events)) ++ high.state.globals.received = received :=
    covered.links
  have driven := split.runs_low
  rw [driveAll_boot] at driven
  rw [← printed_asked]
  refine onTheWire_of_driven driven (account.trans typed.symm) (fun halts => ?_) split.state ?_
  · exact covered.fails _ stops halts
  · rcases split.ends with ⟨completes, outcome, state⟩ | stuck
    · rw [stops] at outcome
      exact Or.inl ⟨completes, outcome, congrArg (·.globals.received) state⟩
    · exact Or.inr stuck

/-- **The kernel on the wire**, whatever the device does, if address 0 does not read "memory" and
no address of the blob wraps: one transcript for a blob that is accepted, which ends in a session,
and one that ends with a panic message for a blob that is not. -/
theorem kmain_on_the_wire (synchronous : platform.Synchronous) (ready : env.Ready)
    (noWrap : NoWrap env.memory dtb) (typed : u.brought = received)
    (runs : BootOnDevice platform board env dtb fuel depth (.start received, u) r) :
    BootsOnTheWire platform board env dtb received u r := by
  obtain ⟨high, low, split⟩ := lower_runs runs
  have boots := boots_of_runs synchronous ready noWrap split.runs_high
  constructor
  case accepted =>
    intro ok
    obtain ⟨ks, increasing, inside, both⟩ := boots.accepted ok
    obtain ⟨text, stops⟩ := Prod.ext_iff.mp both
    rw [split.met_high] at inside
    refine ⟨ks, increasing, inside, ?_⟩
    intro ended
    rw [← show shown (own high.events) = acceptedText board env dtb ++ ended.1 from text]
    exact onTheWire_of_kmain typed split stops
  case refused =>
    intro not
    obtain ⟨stops, text, message, shows⟩ := boots.refused not
    refine ⟨text, message, ?_⟩
    rw [← shows]
    exact onTheWire_of_kmain typed split stops

end Boot

/-- The blob with one memory node, and `help`. -/
theorem kmain_on_the_wire_help :
    let received : List UInt8 := [104, 101, 108, 112, 13]
    let u : Pl011 16 := .idle 16 received
    BootsOnTheWire withoutZero quietBoard memoryBlob.env Blob.address received u
      (alone ((lower (driveBoot 3)
        (kmain withoutZero quietBoard memoryBlob.env Blob.address)).run (.start received, u))) :=
  kmain_on_the_wire synchronous_withoutZero ⟨rfl, Nat.le_refl _, by decide +kernel⟩
    (by decide +kernel) rfl (runs_alone _ _ _)

end CharcoalOS.Platform
