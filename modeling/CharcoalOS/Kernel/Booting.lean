import CharcoalOS.Hardware.FailStop
import CharcoalOS.Kernel.Lifecycle
import CharcoalOS.Lib.Rely

/-!
# From the entry to the shell

`Tells` says what a piece of the start-up prints and which registers it accesses, whenever timer
interrupts are taken. The pieces add up to `kmain_boots`: no interrupt is taken before the timer
and the interrupt controller are set up; then, if the device tree blob is accepted, the memory
regions that it describes are listed and the session begins; if not, the kernel halts.
-/

namespace CharcoalOS.Kernel

open Effect Effect.Code

/-! ## What is seen of a run -/

def BootEvent.printedChar : BootEvent → Option UInt8
  | .kernel (.putc c) => some c
  | _ => none

def BootEvent.boardAccess : BootEvent → Option BoardAccess
  | .access a => some a
  | _ => none

/-- The characters printed. -/
def shown (evs : List BootEvent) : List UInt8 := evs.filterMap BootEvent.printedChar

/-- The registers accessed. -/
def accesses (evs : List BootEvent) : List BoardAccess := evs.filterMap BootEvent.boardAccess

section Seen

variable {evs evs' : List BootEvent} {es : List Event}

@[simp] theorem shown_append : shown (evs ++ evs') = shown evs ++ shown evs' :=
  List.filterMap_append

@[simp] theorem accesses_append : accesses (evs ++ evs') = accesses evs ++ accesses evs' :=
  List.filterMap_append

@[simp] theorem shown_map_kernel : shown (es.map .kernel) = printed es := by
  induction es with
  | nil => rfl
  | cons e es ih =>
      have one : shown [BootEvent.kernel e] = printed [e] := by cases e <;> rfl
      rw [List.map_cons, ← List.singleton_append, shown_append, ih, one, ← printed_append]
      rfl

@[simp] theorem accesses_map_kernel : accesses (es.map .kernel) = [] := by
  induction es with
  | nil => rfl
  | cons e es ih => exact ih

end Seen

/-! ## Pieces of the start-up -/

/-- The machine after as many timer interrupts. -/
def Machine.ticked (m : Machine) (n : ℕ) : Machine :=
  { m with globals := { m.globals with
      ticksSinceBoot := m.globals.ticksSinceBoot + UInt64.ofNat n } }

/-- The piece returns `a`, prints the text and does the accesses, and leaves the machine alone. -/
def Tells {α : Type} (platform : Platform) (c : Boot α) (a : α) (text : List UInt8)
    (accessed : List BoardAccess) : Prop :=
  ∀ m r, Runs (Interrupted platform) c m r → r.outcome = .ok a ∧
    shown (own r.events) = text ∧ accesses (own r.events) = accessed ∧
    r.state = m.ticked (met r.events).length

section Tells

variable {α β : Type} {platform : Platform} {c : Boot α} {f : α → Boot β} {a : α} {b : β}
  {text text' : List UInt8} {accessed accessed' : List BoardAccess} {m m' : Machine}
  {es : List Exception}

theorem ticked_zero : m.ticked 0 = m := by
  unfold Machine.ticked
  rw [show UInt64.ofNat 0 = 0 from rfl, UInt64.add_zero]

theorem ticked_ticked (n n' : ℕ) : (m.ticked n).ticked n' = m.ticked (n + n') := by
  unfold Machine.ticked
  rw [UInt64.ofNat_add, ← UInt64.add_assoc]

theorem within_globals : Within globals (TimerTaken platform) (Interrupted platform) :=
  fun _ _ _ interrupted => interrupted.2

theorem moves_ticked (moves : Moves (Interrupted platform) es m m') :
    m' = m.ticked es.length := by
  induction moves with
  | nil => exact ticked_zero.symm
  | @cons e es m m' m'' first _ ih =>
      obtain ⟨-, taken, only⟩ := first
      obtain ⟨-, ticks⟩ := timerTaken_iff.mp taken
      have one : m' = m.ticked 1 := by
        rw [only, ticks]
        rfl
      rw [ih, one, ticked_ticked, List.length_cons, Nat.add_comm]

theorem Tells.pure (a : α) : Tells platform (Pure.pure a) a [] [] := by
  intro m r runs
  obtain ⟨ks, m', moves, rfl⟩ := runs_done_iff.mp runs
  refine ⟨rfl, ?_, ?_, ?_⟩
  · rw [own_map_inr]
    rfl
  · rw [own_map_inr]
    rfl
  · rw [met_map_inr]
    exact moves_ticked moves

theorem Tells.bind (first : Tells platform c a text accessed)
    (then_ : Tells platform (f a) b text' accessed') :
    Tells platform (c >>= f) b (text ++ text') (accessed ++ accessed') := by
  intro m r runs
  obtain ⟨r₁, runs₁, rest⟩ := runs_bind_iff.mp runs
  obtain ⟨outcome, text₁, accessed₁, state⟩ := first m r₁ runs₁
  obtain ⟨r₂, runs₂, rfl⟩ := runs_bind_ok rest outcome
  obtain ⟨outcome₂, text₂, accessed₂, state₂⟩ := then_ _ r₂ runs₂
  refine ⟨outcome₂, ?_, ?_, ?_⟩
  · rw [Result.after_events, own_append, shown_append, text₁, text₂]
  · rw [Result.after_events, own_append, accesses_append, accessed₁, accessed₂]
  · rw [Result.after_state, state₂, state, ticked_ticked, Result.after_events, met_append,
      List.length_append]

/-- What the kernel prints as a routine. -/
theorem Writes.tells {c : Routine Unit} (writes : Writes platform c text) :
    Tells platform (onGlobals c) () text [] := by
  intro m r runs
  obtain ⟨part, zooms⟩ := runs_zoom within_globals runs
  obtain ⟨outcome, own_, moves⟩ := writes.commutes.runs zooms.runs
  have state := moves_ticks moves
  rw [writes.state] at state
  refine ⟨zooms.outcome.trans (outcome.trans (writes.outcome _)), ?_, ?_, ?_⟩
  · rw [zooms.own, shown_map_kernel, own_]
    exact writes.text _
  · rw [zooms.own, accesses_map_kernel]
  · rw [zooms.state, state, zooms.met]
    rfl

theorem tells_literal (text : String) :
    Tells platform (onGlobals (consolePrint (cString text))) () (lineOf text) [] :=
  (writes_literal text).tells

theorem tells_emit {event : BootEvent} (silent : event.printedChar = none) :
    Tells platform (Code.emit event) () [] event.boardAccess.toList := by
  intro m r runs
  obtain ⟨es, m', r', moves, later, rfl⟩ := runs_step_iff.mp runs
  obtain ⟨es', m'', moves', rfl⟩ := runs_done_iff.mp later
  have state := moves_ticked moves'
  rw [id_eq, moves_ticked moves, ticked_ticked] at state
  have events : own ((Result.after (es.map Sum.inr) (Result.after ([event].map Sum.inl)
      (⟨.ok (), m'', es'.map .inr⟩ : Result Machine Stop (BootEvent ⊕ Exception) Unit))).events) =
      [event] := by
    simp only [Result.after_events, own_append, own_map_inr, own_map_inl, List.nil_append,
      List.append_nil]
  refine ⟨rfl, ?_, ?_, ?_⟩
  · rw [events, shown, List.filterMap_cons, silent]
    rfl
  · rw [events, accesses, List.filterMap_cons]
    cases event.boardAccess <;> rfl
  · simp only [Result.after_events, Result.after_state, met_append, met_map_inr, met_map_inl,
      List.nil_append, List.length_append, state]

theorem tells_access (a : BoardAccess) : Tells platform (access a) () [] [a] := by
  show Tells platform (Code.emit (.access a)) () [] (BootEvent.access a).boardAccess.toList
  exact tells_emit rfl

/-! ### The timer -/

section Timer

variable (platform : Platform) (board : Board)

theorem tells_load (address : UInt64) :
    Tells platform (loadRegister board address) (board.registers address) []
      [.load address (board.registers address)] :=
  .bind (tells_access _) (.pure _)

theorem tells_or (address : UInt64) (bits : UInt32) :
    Tells platform (orRegister board address bits) () []
      [.load address (board.registers address),
        .store address (board.registers address ||| bits)] :=
  .bind (tells_load platform board address) (tells_access _)

/-- The identification registers. -/
def diagnosticsAccesses : List BoardAccess :=
  [.load board.gicdTyper (board.registers board.gicdTyper),
    .load board.gicdIidr (board.registers board.gicdIidr),
    .load board.giccIidr (board.registers board.giccIidr)]

/-- The eight digits of a value of four bytes. -/
def wordDigitsOf (value : UInt32) : List UInt8 := hexText 8 value.toNat

def timerText : List UInt8 :=
  lineOf "Timer diagnostics
  GICD_TYPER: 0x" ++
    (wordDigitsOf (board.registers board.gicdTyper) ++
    (lineOf "
  GICD_IIDR:  0x" ++ (wordDigitsOf (board.registers board.gicdIidr) ++
    (lineOf "
  GICC_IIDR:  0x" ++ (wordDigitsOf (board.registers board.giccIidr) ++
    lineOf "
")))))

theorem tells_word (value : UInt32) :
    Tells platform (onGlobals (printHexWord platform value)) () (wordDigitsOf value) [] :=
  Writes.tells (writes_value 4 value.toNat)

theorem tells_diagnostics :
    Tells platform (printTimerDiagnostics platform board) () (timerText board)
      (diagnosticsAccesses board) := by
  refine .bind (tells_load platform board _) (.bind (tells_load platform board _)
    (.bind (tells_load platform board _) ?_))
  exact .bind (tells_literal _) (.bind (tells_word platform _) (.bind (tells_literal _)
    (.bind (tells_word platform _) (.bind (tells_literal _) (.bind (tells_word platform _)
    (tells_literal _))))))

/-- A load of a register, and its store with more bits. -/
def orAccesses (address : UInt64) (bits : UInt32) : List BoardAccess :=
  [.load address (board.registers address), .store address (board.registers address ||| bits)]

/-- What depends on the target. -/
def targetAccesses : List BoardAccess :=
  match board.target with
  | .virt => orAccesses board board.gicdCtlr 0x1 ++ orAccesses board board.giccCtlr 0x1
  | .rpi =>
      orAccesses board board.gicdIgroupr0 timerBit ++
        (orAccesses board board.gicdCtlr 0x2 ++ orAccesses board board.giccCtlr 0x2)

/-- All that is accessed before interrupts are unmasked. -/
def timerAccesses : List BoardAccess :=
  [.mrs .cntfrqEl0 platform.timerFrequency,
    .msr .cntpTvalEl0 (platform.timerFrequency / interruptFrequencyInHz),
    .mrs .cntpCtlEl0 board.cntpCtl,
    .msr .cntpCtlEl0 ((board.cntpCtl &&& ~~~0x3) ||| 0x1)] ++
  (orAccesses board board.gicdIsenabler0 timerBit ++
    ([.storeByte (board.gicdIpriorityr + timerInterruptId.toUInt64) 0x80,
      .store board.giccPmr 0xff] ++ (targetAccesses board ++ [.dsb, .isb])))

/-- `initialize_timer` for the target. -/
def configureTarget : Boot Unit :=
  match board.target with
  | .rpi => do
      orRegister board board.gicdIgroupr0 timerBit
      orRegister board board.gicdCtlr 0x2
      orRegister board board.giccCtlr 0x2
  | .virt => do
      orRegister board board.gicdCtlr 0x1
      orRegister board board.giccCtlr 0x1

/-- `initialize_timer` up to its last instruction. -/
def configureTimer : Boot Unit := do
  access (.mrs .cntfrqEl0 platform.timerFrequency)
  access (.msr .cntpTvalEl0 (platform.timerFrequency / interruptFrequencyInHz))
  access (.mrs .cntpCtlEl0 board.cntpCtl)
  access (.msr .cntpCtlEl0 ((board.cntpCtl &&& ~~~0x3) ||| 0x1))
  orRegister board board.gicdIsenabler0 timerBit
  access (.storeByte (board.gicdIpriorityr + timerInterruptId.toUInt64) 0x80)
  access (.store board.giccPmr 0xff)
  configureTarget board
  access .dsb
  access .isb

/-- `msr daifclr, #0b0010`. -/
def unmaskInterrupts : Boot Unit :=
  Code.store (.access (.daifClr 0x2)) fun m => { m with irqMasked := false }

theorem initializeTimer_eq : initializeTimer platform board = (do
    configureTimer platform board
    unmaskInterrupts) := by
  unfold initializeTimer configureTimer unmaskInterrupts configureTarget
  cases board.target with
  | virt => simp only [bind_assoc]
  | rpi => simp only [bind_assoc]

theorem tells_target : Tells platform (configureTarget board) () [] (targetAccesses board) := by
  have or (address : UInt64) (bits : UInt32) :
      Tells platform (orRegister board address bits) () [] (orAccesses board address bits) :=
    tells_or platform board address bits
  unfold configureTarget targetAccesses
  cases board.target with
  | virt => exact .bind (or _ _) (or _ _)
  | rpi => exact .bind (or _ _) (.bind (or _ _) (or _ _))

theorem tells_timer :
    Tells platform (configureTimer platform board) () [] (timerAccesses platform board) := by
  have step {a : BoardAccess} {c : Boot Unit} {accessed : List BoardAccess}
      (then_ : Tells platform c () [] accessed) :
      Tells platform (access a >>= fun _ => c) () [] (a :: accessed) :=
    .bind (tells_access a) then_
  have ends : Tells platform (do access .dsb; access .isb) () [] [.dsb, .isb] :=
    step (tells_access _)
  refine step (step (step (step ?_)))
  exact .bind (tells_or platform board _ _) (step (step (.bind (tells_target platform board) ends)))

/-- Everything up to the unmasking. -/
def prepare : Boot Unit := do
  printTimerDiagnostics platform board
  onGlobals (consolePrint (cString "Initializing timer... "))
  configureTimer platform board

theorem tells_prepare :
    Tells platform (prepare platform board) () (timerText board ++ lineOf "Initializing timer... ")
      (diagnosticsAccesses board ++ timerAccesses platform board) := by
  have whole : Tells platform (prepare platform board) ()
      (timerText board ++ (lineOf "Initializing timer... " ++ []))
      (diagnosticsAccesses board ++ ([] ++ timerAccesses platform board)) :=
    .bind (tells_diagnostics platform board) (.bind (tells_literal _) (tells_timer platform board))
  rwa [List.append_nil, List.nil_append] at whole

/-! ### Masked -/

/-- The piece is made of accesses to registers and of printing. -/
inductive SetsUp : {α : Type} → Boot α → Prop
  | pure {α : Type} (a : α) : SetsUp (Pure.pure a)
  | bind {α β : Type} {c : Boot α} {f : α → Boot β} :
    SetsUp c → (∀ a, SetsUp (f a)) → SetsUp (c >>= f)
  | access (a : BoardAccess) : SetsUp (access a)
  | prints {c : Routine Unit} : Prints c → SetsUp (onGlobals c)

/-- It does not unmask interrupts. -/
theorem SetsUp.masked {α : Type} {c : Boot α} (setsUp : SetsUp c) :
    c.Safe (·.irqMasked = true) (fun _ => True) (fun _ => True) fun _ => True := by
  induction setsUp with
  | pure a => trivial
  | bind _ _ first then_ => exact first.bind fun a _ => then_ a
  | access a => exact .emit trivial trivial
  | prints _ => exact safe_zoom (fun _ _ masked => masked) _

/-- No interrupt is taken meanwhile. -/
theorem SetsUp.alone {α : Type} {c : Boot α} (setsUp : SetsUp c) {m : Machine}
    {r : Result Machine Stop (BootEvent ⊕ Exception) α} (masked : m.irqMasked = true)
    (runs : Runs (Interrupted platform) c m r) : r = Code.alone (c.run m) := by
  refine setsUp.masked.alone (fun e m m' masked taken => ?_) masked runs
  have unmasked := taken.1
  rw [masked] at unmasked
  cases unmasked

theorem prints_value (platform : Platform) (size value : ℕ) :
    Prints (consolePrintHexValue platform (hostBytes platform size value) size) :=
  .ite (prints_hexBytes (length_hostBytes platform size value).ge)
    (prints_hexDown (length_hostBytes platform size value).ge)

theorem setsUp_literal (text : String) : SetsUp (onGlobals (consolePrint (cString text))) :=
  .prints (prints_literal text)

theorem setsUp_load (address : UInt64) : SetsUp (loadRegister board address) :=
  .bind (.access _) fun _ => .pure _

theorem setsUp_or (address : UInt64) (bits : UInt32) : SetsUp (orRegister board address bits) :=
  .bind (setsUp_load board _) fun _ => .access _

theorem setsUp_diagnostics : SetsUp (printTimerDiagnostics platform board) := by
  have word (value : UInt32) : SetsUp (onGlobals (printHexWord platform value)) :=
    .prints (prints_value platform 4 value.toNat)
  refine .bind (setsUp_load board _) fun _ => .bind (setsUp_load board _) fun _ =>
    .bind (setsUp_load board _) fun _ => ?_
  exact .bind (setsUp_literal _) fun _ => .bind (word _) fun _ =>
    .bind (setsUp_literal _) fun _ => .bind (word _) fun _ =>
    .bind (setsUp_literal _) fun _ => .bind (word _) fun _ => setsUp_literal _

theorem setsUp_target : SetsUp (configureTarget board) := by
  unfold configureTarget
  cases board.target with
  | virt => exact .bind (setsUp_or board _ _) fun _ => setsUp_or board _ _
  | rpi =>
      exact .bind (setsUp_or board _ _) fun _ => .bind (setsUp_or board _ _) fun _ =>
        setsUp_or board _ _

theorem setsUp_prepare : SetsUp (prepare platform board) := by
  refine .bind (setsUp_diagnostics platform board) fun _ => .bind (setsUp_literal _) fun _ => ?_
  refine .bind (.access _) fun _ => .bind (.access _) fun _ => .bind (.access _) fun _ =>
    .bind (.access _) fun _ => .bind (setsUp_or board _ _) fun _ => ?_
  exact .bind (.access _) fun _ => .bind (.access _) fun _ => .bind (setsUp_target board) fun _ =>
    .bind (.access _) fun _ => .access _

end Timer

/-! ### The report -/

section Report

variable (platform : Platform)

/-- What an event of the parser puts on the console. -/
def reportOf : CharcoalOS.Event → List UInt8
  | .print text => lineOf text
  | .printHexValue value size => hexText (2 * size) value.toNat
  | _ => []

theorem tells_carryOut (e : CharcoalOS.Event) :
    Tells platform (carryOut platform e) () (reportOf e) [] := by
  cases e with
  | print text => exact tells_literal text
  | printHexValue value size => exact (writes_value size value.toNat).tells
  | read | store | compareDeviceType | decodeRegions | panic => exact tells_emit rfl

theorem tells_report (evs : List CharcoalOS.Event) :
    Tells platform (driveAll (carryOut platform) evs) () (evs.flatMap reportOf) [] := by
  induction evs with
  | nil => exact .pure ()
  | cons e evs ih =>
      rw [List.flatMap_cons]
      exact .bind (tells_carryOut platform e) ih

/-- A line for a memory region. -/
def regionText (region : MemoryRegion) : List UInt8 :=
  lineOf "Physical memory region at base address 0x" ++ (digitsOf region.baseAddress ++
    (lineOf " with size 0x" ++ (digitsOf region.size ++ lineOf " bytes
")))

theorem writes_regions (info : HardwareInfo) (n i : ℕ) (room : i + n ≤ 16) :
    Writes platform (printRegions platform info n i)
      (((info.physicalMemoryRegions.toList.drop i).take n).flatMap regionText) := by
  induction n generalizing i with
  | zero => exact .pure ()
  | succ n ih =>
      have here : i < 16 := by omega
      have inside : i < info.physicalMemoryRegions.toList.length := by
        rw [Vector.length_toList]
        exact here
      have region : info.physicalMemoryRegions[i]? = some info.physicalMemoryRegions[i] :=
        Vector.getElem?_eq_getElem here
      rw [printRegions, region, List.drop_eq_getElem_cons inside, List.take_succ_cons,
        List.flatMap_cons, Vector.getElem_toList]
      unfold regionText
      simp only [List.append_assoc]
      refine .write (writes_literal _) (.write (writes_hex _) ?_)
      exact .write (writes_literal _) (.write (writes_hex _) (.write (writes_literal _)
        (ih (i + 1) (by omega))))

end Report

end Tells

/-! ## The whole -/

section Runs

variable {α β : Type} {platform : Platform} {m : Machine} {c : Boot α} {f : α → Boot β} {a : α}
  {text : List UInt8} {accessed : List BoardAccess}
  {r : Result Machine Stop (BootEvent ⊕ Exception) β}

/-- The run has come to `r'` on the machine `m'`, and until then printed the text and done the
accesses. -/
structure Reaches (d : Boot β) (platform : Platform)
    (r : Result Machine Stop (BootEvent ⊕ Exception) β) (m' : ℕ → Machine) (text : List UInt8)
    (accessed : List BoardAccess) (trace : List (BootEvent ⊕ Exception))
    (r' : Result Machine Stop (BootEvent ⊕ Exception) β) : Prop where
  runs : Runs (Interrupted platform) d (m' (met trace).length) r'
  whole : r = r'.after trace
  text : shown (own trace) = text
  accessed : accesses (own trace) = accessed

theorem Tells.reaches (tells : Tells platform c a text accessed)
    (runs : Runs (Interrupted platform) (c >>= f) m r) :
    ∃ trace r', Reaches (f a) platform r m.ticked text accessed trace r' := by
  obtain ⟨r₁, runs₁, rest⟩ := runs_bind_iff.mp runs
  obtain ⟨outcome, text₁, accessed₁, state⟩ := tells m r₁ runs₁
  obtain ⟨r₂, runs₂, rfl⟩ := runs_bind_ok rest outcome
  rw [state] at runs₂
  exact ⟨_, _, runs₂, rfl, text₁, accessed₁⟩

theorem reaches_current {f : Machine → Boot β}
    (runs : Runs (Interrupted platform) (Code.current >>= f) m r) :
    ∃ n trace r', Reaches (f (m.ticked n)) platform r m.ticked [] [] trace r' := by
  obtain ⟨es, m', r', moves, later, rfl⟩ := runs_current_iff.mp runs
  obtain rfl := moves_ticked moves
  refine ⟨es.length, _, r', ?_, rfl, ?_, ?_⟩
  · rwa [met_map_inr]
  · rw [own_map_inr]
    rfl
  · rw [own_map_inr]
    rfl

/-- A step that the interrupts do not care about. -/
theorem reaches_update {g : Machine → Machine} {f : Unit → Boot β}
    (commutes : ∀ n, g (m.ticked n) = (g m).ticked n)
    (runs : Runs (Interrupted platform) (Code.update g >>= f) m r) :
    ∃ trace r', Reaches (f ()) platform r (g m).ticked [] [] trace r' := by
  obtain ⟨es, m', r', moves, later, rfl⟩ := runs_step_iff.mp runs
  obtain rfl := moves_ticked moves
  rw [commutes] at later
  refine ⟨es.map .inr, r', ?_, rfl, ?_, ?_⟩
  · rwa [met_map_inr]
  · rw [own_map_inr]
    rfl
  · rw [own_map_inr]
    rfl

/-- The run prints `front`, and then is a session that begins on the machine `m`, or later. -/
structure EntersSession (platform : Platform) (m : Machine) (front : List UInt8)
    (r : Result Machine Stop (BootEvent ⊕ Exception) β) (ks : List ℕ) : Prop where
  increasing : ks.Pairwise (· ≤ ·)
  inside : ∀ k ∈ ks, k ≤ (met r.events).length
  accessed : accesses (own r.events) = []
  text : shown (own r.events) = front ++
    (session platform (timesAt m.globals ks) m.globals.exceptionInProgress []
      m.globals.received).1
  stops : r.outcome = .error (session platform (timesAt m.globals ks)
    m.globals.exceptionInProgress [] m.globals.received).2

theorem timesAt_ticked (n : ℕ) (ks : List ℕ) :
    timesAt (m.ticked n).globals ks = timesAt m.globals (ks.map (n + ·)) := by
  unfold timesAt
  rw [List.map_map]
  refine List.map_congr_left fun k _ => ?_
  show m.globals.ticksSinceBoot + UInt64.ofNat n + UInt64.ofNat k =
    m.globals.ticksSinceBoot + UInt64.ofNat (n + k)
  rw [UInt64.ofNat_add, UInt64.add_assoc]

/-- What is printed on the way to it comes first. -/
theorem Reaches.entersSession {d : Boot β} {m' : ℕ → Machine} {front : List UInt8}
    {trace : List (BootEvent ⊕ Exception)} {r' : Result Machine Stop (BootEvent ⊕ Exception) β}
    {ks : List ℕ} (reaches : Reaches d platform r m' text [] trace r')
    (same : (m' (met trace).length).globals = (m.ticked (met trace).length).globals)
    (enters : EntersSession platform (m' (met trace).length) front r' ks) :
    EntersSession platform m (text ++ front) r (ks.map ((met trace).length + ·)) := by
  have text' := enters.text
  have stops := enters.stops
  rw [same, timesAt_ticked] at text' stops
  obtain rfl := reaches.whole
  refine ⟨List.pairwise_map.mpr (enters.increasing.imp fun le => Nat.add_le_add_left le _),
    fun k member => ?_, ?_, ?_, stops⟩
  · obtain ⟨k', member', rfl⟩ := List.mem_map.mp member
    rw [Result.after_events, met_append, List.length_append]
    exact Nat.add_le_add_left (enters.inside k' member') _
  · rw [Result.after_events, own_append, accesses_append, reaches.accessed, enters.accessed]
    rfl
  · rw [Result.after_events, own_append, shown_append, reaches.text, text', List.append_assoc]
    rfl

/-- The shell itself. -/
theorem entersSession_shell (synchronous : platform.Synchronous)
    (command : Vector UInt8 commandLength) {f : Unit → Boot β}
    (runs : Runs (Interrupted platform) (onGlobals (runShellLoop platform command) >>= f) m r) :
    ∃ ks, EntersSession platform m promptText r ks := by
  obtain ⟨r₁, runs₁, rest⟩ := runs_bind_iff.mp runs
  obtain ⟨part, zooms⟩ := runs_zoom within_globals runs₁
  obtain ⟨ks, comes⟩ := runs_shell synchronous command zooms.runs
  have outcome := zooms.outcome.trans comes.stops
  obtain rfl := runs_bind_error rest outcome
  refine ⟨ks, comes.increasing, ?_, ?_, ?_, rfl⟩
  · rw [zooms.met]
    exact comes.inside
  · rw [zooms.own, accesses_map_kernel]
  · rw [zooms.own, shown_map_kernel]
    exact comes.text

end Runs

/-! ### After the blob -/

section Finish

variable {platform : Platform} {board : Board} {m : Machine}
  {r : Result Machine Stop (BootEvent ⊕ Exception) Unit}

/-- The memory regions of a record. -/
def recordedRegions (info : HardwareInfo) : List MemoryRegion :=
  info.physicalMemoryRegions.toList.take info.physicalMemoryRegionCount.toNat

def welcomeText : List UInt8 := lineOf "\nWelcome to CharcoalOS.\n"

/-- What `kmain` does once the blob is accepted. -/
def finish (platform : Platform) (board : Board) : Boot Unit := do
  let m ← Code.current
  onGlobals (printRegions platform m.hwInfo m.hwInfo.physicalMemoryRegionCount.toNat 0)
  onGlobals (consolePrint (cString "\nWelcome to CharcoalOS.\n"))
  let m ← Code.current
  (if m.foregroundClient = none then
      kernelSetForegroundClient (some .runDefaultForegroundClient)
    else pure ())
  kernelRun platform board
  kernelHalt

theorem entersSession_run (synchronous : platform.Synchronous)
    (client : m.foregroundClient ≠ none)
    (runs : Runs (Interrupted platform) (kernelRun platform board >>= fun _ => kernelHalt) m r) :
    ∃ ks, EntersSession platform m promptText r ks := by
  unfold kernelRun at runs
  rw [bind_assoc] at runs
  obtain ⟨n, trace, r', reaches⟩ := reaches_current runs
  have later := reaches.runs
  obtain ⟨c, some_⟩ := Option.ne_none_iff_exists'.mp client
  rw [show (m.ticked n).foregroundClient = some c from some_] at later
  cases c with
  | runDefaultForegroundClient =>
      obtain ⟨ks, enters⟩ := entersSession_shell synchronous board.buffer later
      exact ⟨_, reaches.entersSession rfl enters⟩

/-- The default client is set, unless there is one. -/
theorem entersSession_client {client : Option Client} (synchronous : platform.Synchronous)
    (runs : Runs (Interrupted platform) (do
      (if client = none then kernelSetForegroundClient (some .runDefaultForegroundClient)
        else pure ())
      kernelRun platform board
      kernelHalt) m r)
    (same : m.foregroundClient = client) : ∃ ks, EntersSession platform m promptText r ks := by
  by_cases unset : client = none
  · rw [if_pos unset] at runs
    obtain ⟨trace, r', reaches⟩ := reaches_update (fun _ => rfl) runs
    obtain ⟨ks, enters⟩ := entersSession_run synchronous (Option.some_ne_none _) reaches.runs
    exact ⟨_, reaches.entersSession rfl enters⟩
  · rw [if_neg unset] at runs
    exact entersSession_run synchronous (same ▸ unset) runs

theorem entersSession_finish (synchronous : platform.Synchronous)
    (count : m.hwInfo.physicalMemoryRegionCount.toNat ≤ 16)
    (runs : Runs (Interrupted platform) (finish platform board) m r) :
    ∃ ks, EntersSession platform m
      ((recordedRegions m.hwInfo).flatMap regionText ++ (welcomeText ++ promptText)) r ks := by
  obtain ⟨n₁, t₁, r₁, reaches₁⟩ := reaches_current runs
  have regions := (writes_regions platform m.hwInfo _ 0 ((Nat.zero_add _).trans_le count)).tells
  obtain ⟨t₂, r₂, reaches₂⟩ := regions.reaches reaches₁.runs
  obtain ⟨t₃, r₃, reaches₃⟩ := (tells_literal _).reaches reaches₂.runs
  obtain ⟨n₄, t₄, r₄, reaches₄⟩ := reaches_current reaches₃.runs
  obtain ⟨ks, enters⟩ := entersSession_client synchronous reaches₄.runs rfl
  have enters₃ := reaches₄.entersSession rfl enters
  have enters₂ := reaches₃.entersSession rfl enters₃
  have enters₁ := reaches₂.entersSession rfl enters₂
  exact ⟨_, reaches₁.entersSession rfl enters₁⟩

end Finish

/-! ### The blob -/

section Blob

variable {platform : Platform} {board : Board} {env : Env} {dtb : UInt64} {m : Machine}

/-- The parser's run. -/
def parsed (board : Board) (env : Env) (dtb : UInt64) :
    Result HardwareInfo CharcoalOS.Stop CharcoalOS.Event Unit :=
  parseDeviceTreeBlob env board.hwInfoAddress dtb .zero

def reportText (board : Board) (env : Env) (dtb : UInt64) : List UInt8 :=
  (parsed board env dtb).events.flatMap reportOf

theorem kmain_eq : kmain platform board env dtb = (do
    prepare platform board
    unmaskInterrupts
    onGlobals (consolePrint (cString "done.\n"))
    onGlobals (consolePrint
      (cString "Parsing device tree blob for hardware information...\n"))
    parseBlob platform board env dtb
    finish platform board) := by
  unfold kmain kernelInit prepare finish
  simp only [initializeTimer_eq, bind_assoc]

/-- A blob that is refused is refused by a panic. -/
theorem parsed_refused (refused : (parsed board env dtb).outcome = .error .halted) :
    ∃ evs message, (parsed board env dtb).events = evs ++ panicOutput env message := by
  let body : Discovery Unit := do
    readPrologue env board.hwInfoAddress dtb
    let s ← walkStruct env dtb
    finishWalk env s
  have loud : Program.FailsLoudly (panicPolicy env) body := by
    refine .bind failStops_readPrologue.failsLoudly fun _ => .bind ?_ fun s =>
      failStops_finishWalk.failsLoudly
    refine .bind .current fun info => ?_
    exact .loop rfl (fun s => failStops_walkStep.failsLoudly) _ _
  have ends : (body .zero).outcome = .error .halted := by
    have run : Program.wp (functionBody body)
        (fun o _ _ => o = .error .halted → (body .zero).outcome = .error .halted) .zero := by
      refine wp_functionBody (Program.wp_iff.mpr fun same => ?_)
      split at same
      · cases same
      · exact same
    exact run refused
  obtain ⟨evs, last, ⟨-, message, rfl⟩, events⟩ :=
    loud .zero .halted ends fun quiet => by cases quiet
  exact ⟨evs, message, functionBody_events.trans events⟩

/-- One stretch after the other. -/
theorem Reaches.trans {β : Type} {d e : Boot β} {m m' : Machine} (m'' : Machine)
    {text text' : List UInt8}
    {accessed accessed' : List BoardAccess} {trace trace' : List (BootEvent ⊕ Exception)}
    {r r' r'' : Result Machine Stop (BootEvent ⊕ Exception) β}
    (first : Reaches d platform r m'.ticked text accessed trace r')
    (second : Reaches e platform r' m.ticked text' accessed' trace' r'')
    (same : ∀ n, m.ticked n = m''.ticked ((met trace).length + n)) :
    Reaches e platform r m''.ticked (text ++ text') (accessed ++ accessed') (trace ++ trace')
      r'' := by
  obtain rfl := first.whole
  obtain rfl := second.whole
  refine ⟨?_, (Result.after_after _ _ _), ?_, ?_⟩
  · rw [met_append, List.length_append, ← same]
    exact second.runs
  · rw [own_append, shown_append, first.text, second.text]
  · rw [own_append, accesses_append, first.accessed, second.accessed]

variable {r : Result Machine Stop (BootEvent ⊕ Exception) Unit}

/-- What the parser has done once its report is printed. -/
theorem reaches_report {f : Unit → Boot Unit} (zero : m.hwInfo = .zero)
    (runs : Runs (Interrupted platform) (parseBlob platform board env dtb >>= f) m r) :
    ∃ trace r', Reaches (do
        (match (parsed board env dtb).outcome with
          | .ok _ => pure ()
          | .error .returned => pure ()
          | .error .halted => onGlobals halt
          | .error .exhausted => .fail .exhausted)
        f ()) platform r ({ m with hwInfo := (parsed board env dtb).state }).ticked
      (reportText board env dtb) [] trace r' := by
  unfold parseBlob at runs
  rw [bind_assoc] at runs
  obtain ⟨n, t₁, r₁, reaches₁⟩ := reaches_current runs
  have later := reaches₁.runs
  rw [bind_assoc, show (m.ticked n).hwInfo = .zero from zero] at later
  obtain ⟨t₂, r₂, reaches₂⟩ := (tells_report platform (parsed board env dtb).events).reaches later
  have later₂ := reaches₂.runs
  rw [bind_assoc] at later₂
  obtain ⟨t₃, r₃, reaches₃⟩ := reaches_update (fun _ => rfl) later₂
  have reaches := reaches₁.trans m reaches₂ fun _ => ticked_ticked _ _
  have whole := reaches.trans { m with hwInfo := (parsed board env dtb).state } reaches₃
    fun n => ?_
  · rw [List.nil_append, List.append_nil] at whole
    exact ⟨_, _, whole⟩
  · rw [met_append, List.length_append, ← ticked_ticked, ← ticked_ticked]
    rfl

/-- What has been accessed when interrupts are unmasked. -/
def startAccesses (platform : Platform) (board : Board) : List BoardAccess :=
  diagnosticsAccesses board ++ timerAccesses platform board ++ [.daifClr 0x2]

/-- What is printed until then. -/
def startText (board : Board) : List UInt8 := timerText board ++ lineOf "Initializing timer... "

/-- No interrupt is taken until then. -/
theorem runs_start {after : Boot Unit} (masked : m.irqMasked = true)
    (runs : Runs (Interrupted platform) (do
      prepare platform board
      unmaskInterrupts
      after) m r) :
    ∃ front r', Runs (Interrupted platform) after { m with irqMasked := false } r' ∧
      r = r'.after (front.map .inl) ∧ shown front = startText board ∧
      accesses front = startAccesses platform board := by
  obtain ⟨r₁, runs₁, rest⟩ := runs_bind_iff.mp runs
  obtain ⟨outcome, text, accessed, state⟩ := tells_prepare platform board m r₁ runs₁
  have alone_ := (setsUp_prepare platform board).alone platform masked runs₁
  obtain ⟨r₂, runs₂, rfl⟩ := runs_bind_ok rest outcome
  have events : r₁.events = ((prepare platform board).run m).events.map .inl := by rw [alone_]; rfl
  rw [events] at text accessed
  rw [state, events, met_map_inl, List.length_nil, ticked_zero] at runs₂
  rw [own_map_inl] at text accessed
  obtain ⟨es, m', r₃, moves, later, rfl⟩ := runs_step_iff.mp runs₂
  cases moves with
  | cons first _ =>
      have unmasked := first.1
      rw [masked] at unmasked
      cases unmasked
  | nil =>
      refine ⟨((prepare platform board).run m).events ++ [.access (.daifClr 0x2)], r₃, later,
        ?_, ?_, ?_⟩
      · rw [events, List.map_append, ← Result.after_after]
        rfl
      · rw [shown_append, text]
        exact List.append_nil _
      · rw [accesses_append, accessed]
        rfl

/-- What comes between the unmasking and the report of the parser. -/
def parsingText : List UInt8 :=
  lineOf "done.\n" ++ lineOf "Parsing device tree blob for hardware information...\n"

/-- The halt after a panic. -/
theorem stops_halted {f : Unit → Boot Unit}
    (runs : Runs (Interrupted platform) (onGlobals halt >>= f) m r) :
    r.outcome = .error .halted ∧ shown (own r.events) = [] ∧ accesses (own r.events) = [] := by
  have halts : Answers platform (halt : Routine Unit) (.stop [] .halted) := answers_halt
  obtain ⟨r₁, runs₁, rest⟩ := runs_bind_iff.mp runs
  obtain ⟨part, zooms⟩ := runs_zoom within_globals runs₁
  obtain ⟨outcome, own_, -⟩ := halts.commutes.runs zooms.runs
  have halted : r₁.outcome = .error .halted :=
    zooms.outcome.trans (outcome.trans (halts.outcome _))
  obtain rfl := runs_bind_error rest halted
  refine ⟨rfl, ?_, ?_⟩
  · rw [zooms.own, shown_map_kernel, own_]
    exact halts.text _
  · rw [zooms.own, accesses_map_kernel]

/-- The panic closes the report. -/
theorem reportText_refused (halts : env.panicReturns = false)
    (refused : (parsed board env dtb).outcome = .error .halted) :
    ∃ text message, reportText board env dtb = text ++ (lineOf message ++ lineOf "\n\n") := by
  obtain ⟨evs, message, events⟩ := parsed_refused refused
  refine ⟨evs.flatMap reportOf, message, ?_⟩
  rw [reportText, events, List.flatMap_append, panicOutput, halts]
  show _ ++ (lineOf message ++ (lineOf "\n\n" ++ [])) = _
  rw [List.append_nil]

/-- At most as many regions are recorded as there is room for. -/
theorem regionCount_le (halts : env.panicReturns = false)
    (accepted : (parsed board env dtb).outcome = .ok ()) :
    (parsed board env dtb).state.physicalMemoryRegionCount.toNat ≤ 16 := by
  obtain ⟨ts, s, head, -⟩ := exists_last_head halts accepted
  exact (head.regionsValid halts regionsValid_zero).count

/-- What the user sees of an accepted blob, before the session. -/
def acceptedText (board : Board) (env : Env) (dtb : UInt64) : List UInt8 :=
  startText board ++ parsingText ++ reportText board env dtb ++
    ((recordedRegions (parsed board env dtb).state).flatMap regionText ++
      (welcomeText ++ promptText))

/-- What is seen of a run of `kmain`. -/
structure Boots (platform : Platform) (board : Board) (env : Env) (dtb : UInt64)
    (received : List UInt8) (r : Result Machine Stop (BootEvent ⊕ Exception) Unit) : Prop where
  /-- Every register is accessed before the first interrupt is taken. -/
  setUp : ∃ front back, r.events = front.map .inl ++ back ∧
    accesses front = startAccesses platform board ∧ accesses (own back) = []
  /-- An accepted blob is followed by a session. -/
  accepted : (parsed board env dtb).outcome = .ok () → ∃ ks : List ℕ, ks.Pairwise (· ≤ ·) ∧
    (∀ k ∈ ks, k ≤ (met r.events).length) ∧
    (shown (own r.events), r.outcome) =
      ((acceptedText board env dtb ++
          (session platform (timesAt (.boot received) ks) 0 [] received).1),
        .error (session platform (timesAt (.boot received) ks) 0 [] received).2)
  /-- A blob that is refused halts the kernel, and its message is the last thing printed. -/
  refused : (parsed board env dtb).outcome ≠ .ok () → r.outcome = .error .halted ∧
    ∃ text message, shown (own r.events) =
      startText board ++ parsingText ++ text ++ (lineOf message ++ lineOf "\n\n")

/-- The run up to the report of the parser. -/
theorem reaches_parsed {received : List UInt8}
    (runs : Runs (Interrupted platform) (kmain platform board env dtb) (.start received) r) :
    ∃ front trace r', r = r'.after (front.map .inl ++ trace) ∧
      shown front = startText board ∧ accesses front = startAccesses platform board ∧
      Reaches (do
        (match (parsed board env dtb).outcome with
          | .ok _ => pure ()
          | .error .returned => pure ()
          | .error .halted => onGlobals halt
          | .error .exhausted => .fail .exhausted)
        finish platform board) platform (r'.after trace)
          ({ Machine.start received with
            irqMasked := false, hwInfo := (parsed board env dtb).state }).ticked
          (parsingText ++ reportText board env dtb) [] trace r' := by
  rw [kmain_eq] at runs
  obtain ⟨front, r₀, runs₀, rfl, text, accessed⟩ := runs_start rfl runs
  obtain ⟨t₁, r₁, reaches₁⟩ := (tells_literal _).reaches runs₀
  obtain ⟨t₂, r₂, reaches₂⟩ := (tells_literal _).reaches reaches₁.runs
  obtain ⟨t₃, r₃, reaches₃⟩ := reaches_report rfl reaches₂.runs
  have parsing := reaches₁.trans _ reaches₂ fun _ => ticked_ticked _ _
  have report := parsing.trans { Machine.start received with
      irqMasked := false, hwInfo := (parsed board env dtb).state } reaches₃ fun n => ?_
  · refine ⟨front, _, r₃, ?_, text, accessed, report.runs, rfl, report.text, report.accessed⟩
    rw [report.whole, Result.after_after]
  · rw [met_append, List.length_append, ← ticked_ticked, ← ticked_ticked]
    rfl

/-- An accepted blob is followed by a session, and one that is refused by the panic. -/
theorem boots_of_runs (synchronous : platform.Synchronous) (ready : env.Ready)
    (noWrap : NoWrap env.memory dtb) {received : List UInt8}
    (runs : Runs (Interrupted platform) (kmain platform board env dtb) (.start received) r) :
    Boots platform board env dtb received r := by
  obtain ⟨front, trace, r', rfl, text, accessed, reaches⟩ := reaches_parsed runs
  have before := reaches.text
  have later := reaches.runs
  have whole : own (r'.after (front.map .inl ++ trace)).events =
      front ++ (own trace ++ own r'.events) := by
    rw [Result.after_events, own_append, own_append, own_map_inl, List.append_assoc]
  have ends : (parsed board env dtb).outcome = .ok () ∨
      (parsed board env dtb).outcome = .error .halted := outcome_of_ready ready noWrap
  rcases ends with outcome | outcome
  · rw [outcome] at later
    have count : (parsed board env dtb).state.physicalMemoryRegionCount.toNat ≤ 16 :=
      regionCount_le ready.halts outcome
    obtain ⟨ks, enters⟩ := entersSession_finish synchronous count later
    have session := reaches.entersSession (m := { Machine.start received with
      irqMasked := false, hwInfo := (parsed board env dtb).state }) rfl enters
    refine ⟨⟨front, trace ++ r'.events, List.append_assoc _ _ _, accessed, session.accessed⟩,
      fun _ => ⟨_, session.increasing, fun k member => ?_, Prod.ext ?_ session.stops⟩,
      fun not => absurd outcome not⟩
    · have inside := session.inside k member
      rwa [Result.after_events, met_append, List.length_append, met_append, met_map_inl] at *
    · have text' := session.text
      rw [Result.after_events, own_append] at text'
      rw [whole, shown_append, text, text', acceptedText]
      simp only [List.append_assoc]
      rfl
  · rw [outcome] at later
    obtain ⟨stops, silent, untouched⟩ := stops_halted later
    obtain ⟨report, message, panics⟩ := reportText_refused ready.halts outcome
    refine ⟨⟨front, trace ++ r'.events, List.append_assoc _ _ _, accessed, ?_⟩,
      fun ok => ?_, fun _ => ⟨stops, report, message, ?_⟩⟩
    · rw [own_append, accesses_append, reaches.accessed, untouched]
      rfl
    · rw [outcome] at ok
      cases ok
    · rw [whole, shown_append, shown_append, text, before, silent, panics]
      simp only [List.append_assoc, List.append_nil]

end Blob

/-- A `virt` board whose interrupt controller reads as zero. -/
def quietBoard : Board := ⟨.virt, fun _ => 0, 0, 1, by decide, .replicate _ 0⟩

end CharcoalOS.Kernel
