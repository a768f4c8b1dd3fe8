import CharcoalOS.Hardware.Blob
import CharcoalOS.Hardware.Header
import CharcoalOS.Hardware.Panics

/-!
# The reservation map as a list

The map of a blob is a list of pairs that ends at the first (0, 0). A scan that passes
has read that list in full and stored it (`reserved_entries_exact`); it passes on every
map that fits the arrays of the record but the longest (`full_capacity_iff`).
-/

namespace CharcoalOS

open Effect Effect.Program

/-- The end of the blob does not wrap. -/
def EndFits (mem : Memory) (dtb : UInt64) : Prop :=
  dtb.toNat + (headerAt mem dtb).totalSize.toNat < 2 ^ 64

instance (mem : Memory) (dtb : UInt64) : Decidable (EndFits mem dtb) := by
  unfold EndFits; infer_instance

/-- The map is `n` entries other than (0, 0), and then (0, 0), all inside the blob. -/
structure Terminates (mem : Memory) (dtb n : UInt64) : Prop where
  inside : EntryFits mem dtb n
  terminator : entryAt mem dtb n = (0, 0)
  real : ∀ j < n, entryAt mem dtb j ≠ (0, 0)

/-- The entry lies in the blob and is not the terminator. -/
def RealEntry (mem : Memory) (dtb i : UInt64) : Prop :=
  EntryFits mem dtb i ∧ entryAt mem dtb i ≠ (0, 0)

instance (mem : Memory) (dtb i : UInt64) : Decidable (RealEntry mem dtb i) := by
  unfold RealEntry EntryFits; infer_instance

/-- The entry lies before the end of the blob, as the code computes that end. -/
def BeforeEnd (mem : Memory) (dtb i : UInt64) : Prop :=
  entryAddress mem dtb i + 8 < dtb + (headerAt mem dtb).totalSize.toUInt64

/-- The address is one of the sixteen bytes of an entry that lies in the blob. -/
def InEntry (mem : Memory) (dtb a : UInt64) : Prop :=
  ∃ i, EntryFits mem dtb i ∧
    dtb.toNat + (headerAt mem dtb).offMemRsvmap.toNat + 16 * i.toNat ≤ a.toNat ∧
    a.toNat < dtb.toNat + (headerAt mem dtb).offMemRsvmap.toNat + 16 * i.toNat + 16

section Entries

variable {mem : Memory} {dtb i j n : UInt64}

theorem EntryFits.le (fits : EntryFits mem dtb i) (le : j ≤ i) : EntryFits mem dtb j := by
  have := UInt64.le_iff_toNat_le.mp le
  unfold EntryFits at fits ⊢
  omega

theorem toNat_add_of_lt {a b : UInt64} (less : a.toNat + b.toNat < 2 ^ 64) :
    (a + b).toNat = a.toNat + b.toNat := by
  rw [UInt64.toNat_add, Nat.mod_eq_of_lt less]

/-- An entry that lies in the blob is where its index says. -/
theorem EntryFits.address (fits : EntryFits mem dtb i) (noWrap : EndFits mem dtb) :
    (entryAddress mem dtb i).toNat =
      dtb.toNat + (headerAt mem dtb).offMemRsvmap.toNat + 16 * i.toNat := by
  have total := (headerAt mem dtb).totalSize.toNat_lt
  unfold EntryFits at fits
  unfold EndFits at noWrap
  have map : (dtb + (headerAt mem dtb).offMemRsvmap.toUInt64).toNat =
      dtb.toNat + (headerAt mem dtb).offMemRsvmap.toNat :=
    toNat_add_of_lt (by rw [UInt32.toNat_toUInt64]; omega)
  have index : (16 * i).toNat = 16 * i.toNat := by
    rw [UInt64.toNat_mul]
    simp only [UInt64.reduceToNat]
    omega
  rw [entryAddress, toNat_add_of_lt (by omega), map, index]

theorem EntryFits.offset_toNat (fits : EntryFits mem dtb i) (noWrap : EndFits mem dtb)
    {k : Nat} (less : k < 16) :
    (entryAddress mem dtb i + UInt64.ofNat k).toNat =
      dtb.toNat + (headerAt mem dtb).offMemRsvmap.toNat + 16 * i.toNat + k := by
  have address := fits.address noWrap
  have small : (UInt64.ofNat k).toNat = k :=
    UInt64.toNat_ofNat_of_lt' (Nat.lt_trans less (by decide))
  unfold EntryFits at fits
  unfold EndFits at noWrap
  rw [toNat_add_of_lt (by omega), address, small]

/-- An entry of a blob whose end does not wrap lies before that end: the code's second bounds
test never breaks out of the scan. -/
theorem EntryFits.beforeEnd (fits : EntryFits mem dtb i) (noWrap : EndFits mem dtb) :
    BeforeEnd mem dtb i := by
  have second : (entryAddress mem dtb i + 8).toNat = _ :=
    fits.offset_toNat noWrap (k := 8) (by decide)
  have bound : (dtb + (headerAt mem dtb).totalSize.toUInt64).toNat =
      dtb.toNat + (headerAt mem dtb).totalSize.toNat :=
    toNat_add_of_lt (by rw [UInt32.toNat_toUInt64]; exact noWrap)
  rw [BeforeEnd, UInt64.lt_iff_toNat_lt, bound, second]
  unfold EntryFits at fits
  omega

theorem not_entryEnds_iff :
    ¬ EntryEnds mem dtb i ↔ BeforeEnd mem dtb i ∧ entryAt mem dtb i ≠ (0, 0) := by
  rw [EntryEnds, not_or, ge_iff_le, UInt64.not_le, BeforeEnd]

theorem ReservedEntries.terminates (map : ReservedEntries mem dtb n) (noWrap : EndFits mem dtb) :
    Terminates mem dtb n := by
  refine ⟨map.fits, ?_, fun j less => (not_entryEnds_iff.mp (map.before j less)).2⟩
  by_contra nonzero
  exact not_entryEnds_iff.mpr ⟨map.fits.beforeEnd noWrap, nonzero⟩ map.ends

/-- What the scan reads of the map are bytes of entries in the blob. -/
theorem inEntry_of_read {k : Nat} (fits : EntryFits mem dtb i) (noWrap : EndFits mem dtb)
    (less : k < 16) : InEntry mem dtb (entryAddress mem dtb i + UInt64.ofNat k) := by
  refine ⟨i, fits, ?_⟩
  rw [fits.offset_toNat noWrap less]
  omega

end Entries

/-! ## Reads of the map -/

/-- What the scan panics with when its arrays are full. -/
def capacityPanic : String := "Insufficient space to store reserved memory regions"

section Scan

variable {env : Env} {info prior : HardwareInfo} {outHwInfo dtb : UInt64}

/-- A read of the map stays in entries that lie in the blob. -/
def MapRead (mem : Memory) (dtb : UInt64) (e : Event) : Prop :=
  ∀ a, e = .read ⟨.reservationMap, a⟩ → InEntry mem dtb a

theorem mapRead_of_header {mem : Memory} (e : Event) (event : HeaderEvent e) :
    MapRead mem dtb e := by
  intro a same
  subst same
  cases event

theorem mapRead_store {mem : Memory} {field : Field} : MapRead mem dtb (.store field) :=
  fun _ same => nomatch same

theorem mapRead_print {mem : Memory} {text : String} : MapRead mem dtb (.print text) :=
  fun _ same => nomatch same

theorem mapRead_printHexValue {mem : Memory} {value : UInt64} {size : Nat} :
    MapRead mem dtb (.printHexValue value size) := fun _ same => nomatch same

theorem mapRead_of_reads {mem : Memory} {i : UInt64} {m : Nat} (fits : EntryFits mem dtb i)
    (noWrap : EndFits mem dtb) (less : m + 8 ≤ 16) :
    ∀ e ∈ byteReads ⟨.reservationMap, entryAddress mem dtb i + UInt64.ofNat m⟩ 8,
      MapRead mem dtb e := by
  intro e member a same
  obtain ⟨k, small, rfl⟩ := mem_byteReads.mp member
  cases same
  simp only [UInt64.add_assoc, ← UInt64.ofNat_add]
  exact inEntry_of_read fits noWrap (by omega)

/-- An iteration of the scan reads its own entry only. -/
theorem reservedStep_reads {i : UInt64} (known : info.header = headerAt env.memory dtb)
    (noWrap : EndFits env.memory dtb) :
    wp (reservedStep env dtb i) (fun _ _ evs => ∀ e ∈ evs, MapRead env.memory dtb e) info := by
  rw [reservedStep, wp_bind]
  refine wp_panicIf (fun _ e evs panics e' member =>
    mapRead_of_header e' (headerEvent_of_output (panics.output e' member))) (fun few => ?_)
  rw [seqPost_ok, wp_bind, wp_current, seqPost_ok, known, wp_bind]
  refine wp_panicIf (fun _ e evs panics e' member =>
    mapRead_of_header e' (headerEvent_of_output (panics.output e' member))) (fun inside => ?_)
  have fits : EntryFits env.memory dtb i := by
    by_contra outside
    exact inside ((entryFits_iff (UInt64.not_le.mp few)).mpr outside)
  have base := mapRead_of_reads (m := 0) fits noWrap (by decide)
  have size := mapRead_of_reads (m := 8) fits noWrap (by decide)
  rw [show UInt64.ofNat 0 = 0 from rfl, UInt64.add_zero] at base
  rw [seqPost_ok]
  dsimp only
  rw [wp_ite]
  split
  · exact List.forall_mem_nil _
  refine (Emits.bind (emits_readBe64FromAddress base) fun _ => .bind (emits_store mapRead_store)
    fun _ => .bind (emits_readBe64FromAddress size) fun _ => .bind (emits_store mapRead_store)
    fun _ => .ite (fun _ => .pure _) fun _ => ?_) info
  exact .bind (emits_store mapRead_store) fun _ => .bind (.emit mapRead_print) fun _ =>
    .bind (.emit mapRead_printHexValue) fun _ => .bind (.emit mapRead_print) fun _ =>
    .bind (.emit mapRead_printHexValue) fun _ => .bind (.emit mapRead_print) fun _ => .pure _

/-- An iteration of the scan complains about space only where there is none left. -/
theorem reservedStep_capacity {i : UInt64} :
    wp (reservedStep env dtb i) (fun _ _ evs => .panic capacityPanic ∈ evs ↔ 255 ≤ i) info := by
  rw [reservedStep, wp_bind]
  refine wp_panicIf (fun many e evs panics => iff_of_true panics.panic_mem many) (fun few => ?_)
  rw [seqPost_ok]
  have quiet : ∀ p, Emits (fun e => e ≠ .panic capacityPanic) (readBe64FromAddress env p) := by
    refine fun p => emits_readBe64FromAddress fun e member => ?_
    obtain ⟨k, -, rfl⟩ := mem_byteReads.mp member
    intro same
    cases same
  have other : ∀ e, IsPanicOutput "Reserved memory region would overflow header" e →
      e ≠ .panic capacityPanic := by
    intro e output same
    subst same
    simp [IsPanicOutput, capacityPanic] at output
  have store : ∀ field write, Emits (fun e => e ≠ .panic capacityPanic) (store field write) :=
    fun field write => emits_store (by simp)
  refine wp_mono (Q := fun _ _ evs => ∀ e ∈ evs, e ≠ .panic capacityPanic) ?_
    fun o info' evs events => iff_of_false (fun member => events _ member rfl) few
  refine (Emits.bind .current fun _ => .bind (emits_panicIf other) fun _ =>
    .ite (fun _ => .pure _) fun _ => .bind (quiet _) fun _ => .bind (store _ _) fun _ =>
    .bind (quiet _) fun _ => .bind (store _ _) fun _ => .ite (fun _ => .pure _) fun _ => ?_) info
  have print : ∀ text, Event.print text ≠ .panic capacityPanic := by simp
  have value : ∀ v n, Event.printHexValue v n ≠ .panic capacityPanic := by simp
  exact .bind (store _ _) fun _ => .bind (.emit (print _)) fun _ =>
    .bind (.emit (value _ _)) fun _ => .bind (.emit (print _)) fun _ =>
    .bind (.emit (value _ _)) fun _ => .bind (.emit (print _)) fun _ => .pure _

/-- The run of the scan, after the header of the blob has been stored. -/
def scanRun (env : Env) (dtb : UInt64) (prior : HardwareInfo) :
    Result HardwareInfo Stop Event Unit :=
  loop .exhausted (reservedStep env dtb) env.fuel 0
    ((prior.setHeader (headerAt env.memory dtb)).setReservedCount 0)

/-- The head at which the scan stands when it emits an event. -/
theorem exists_head_of_scan {e : Event}
    (member : e ∈ (scanRun env dtb prior).events) :
    ∃ ts i info, Trail (reservedStep env dtb) (fun _ => ())
        (0, (prior.setHeader (headerAt env.memory dtb)).setReservedCount 0) ts (i, info) ∧
      info.header = headerAt env.memory dtb ∧ e ∈ (reservedStep env dtb i info).events := by
  obtain ⟨ts, ⟨i, info⟩, trail, -, emitted⟩ := (mem_events_loop fun _ => ()).mp member
  exact ⟨ts, i, info, trail, (reservedHead_of_trail rfl trail).same.header_eq, emitted⟩

/-- Around the scan, the prologue on an accepted header neither panics nor reads the map. -/
theorem readPrologue_events (prior : HardwareInfo)
    (accepted : HeaderAccepted env.memory outHwInfo dtb) :
    ∃ before report, (readPrologue env outHwInfo dtb prior).events =
        before ++ .store .reservedRegionsCount :: ((scanRun env dtb prior).events ++ report) ∧
      ∀ e ∈ before ++ report, HeaderEvent e ∧ ¬ IsPanic e := by
  have ending := wp_iff.mp (readCheckedHeader_spec env outHwInfo dtb prior)
  have failStops : FailStops (panicPolicy env) (readCheckedHeader env outHwInfo dtb) :=
    failStops_readCheckedHeader
  have emits : Emits HeaderEvent (readCheckedHeader env outHwInfo dtb) := emits_readCheckedHeader
  have stops := failStops prior
  have header := emits prior
  rcases run : readCheckedHeader env outHwInfo dtb prior with ⟨o, info, before⟩
  rw [run] at ending stops header
  cases o with
  | error e => exact absurd accepted ending.2
  | ok _ =>
      obtain ⟨-, rfl⟩ := ending
      have quiet := stops.silent_of_ok
      have events : ∀ e ∈ before, HeaderEvent e ∧ ¬ IsPanic e := fun e member =>
        ⟨header e member, quiet e member⟩
      have stored : store .reservedRegionsCount (·.setReservedCount 0)
          (prior.setHeader (headerAt env.memory dtb)) =
        ⟨.ok (), (prior.setHeader (headerAt env.memory dtb)).setReservedCount 0,
          [.store .reservedRegionsCount]⟩ := rfl
      rw [readPrologue, bind_ok run, readReservedRegions, bind_ok stored, scanRun]
      rcases scan : loop .exhausted (reservedStep env dtb) env.fuel 0
        ((prior.setHeader (headerAt env.memory dtb)).setReservedCount 0) with ⟨o, info, evs⟩
      cases o with
      | error e =>
          rw [bind_error scan, scan]
          exact ⟨before, [], by simp, by simpa using events⟩
      | ok _ =>
          rw [bind_ok scan, scan]
          refine ⟨before, _, rfl, fun e member => ?_⟩
          refine (List.mem_append.mp member).elim (events e) fun member => ?_
          have report : Emits (fun e => HeaderEvent e ∧ ¬ IsPanic e) (do
              let info ← current
              consolePrint "Read 0x"
              consolePrintHexValue info.reservedRegionsCount 8
              consolePrint " reserved memory regions.\n") :=
            .bind .current fun _ => .bind (.emit ⟨.print, by simp [IsPanic]⟩) fun _ =>
              .bind (.emit ⟨.printHexValue, by simp [IsPanic]⟩) fun _ =>
                .emit ⟨.print, by simp [IsPanic]⟩
          exact report info e member

/-- The prologue on an accepted header panics where its scan does, and reads the map there. -/
theorem mem_events_prologue (accepted : HeaderAccepted env.memory outHwInfo dtb) {e : Event}
    (other : ¬ HeaderEvent e ∨ IsPanic e) (stored : e ≠ .store .reservedRegionsCount) :
    e ∈ (readPrologue env outHwInfo dtb prior).events ↔ e ∈ (scanRun env dtb prior).events := by
  obtain ⟨before, report, events, around⟩ := readPrologue_events prior accepted
  have outside : e ∉ before ++ report := fun member =>
    other.elim (fun no => no (around e member).1) (around e member).2
  rw [List.mem_append, not_or] at outside
  rw [events, List.mem_append, List.mem_cons, List.mem_append]
  tauto

/-! ## What a scan that passes has read -/

/-- Within the fuel of the arrays, the prologue on an accepted header passes or panics. -/
theorem readPrologue_passes (prior : HardwareInfo)
    (accepted : HeaderAccepted env.memory outHwInfo dtb)
    (enough : 255 < env.fuel) :
    (¬ Panicked (readPrologue env outHwInfo dtb prior).events ∧
        ∃ n, ReservedEntries env.memory dtb n ∧
          (readPrologue env outHwInfo dtb prior).outcome = .ok () ∧
          HoldsEntries env.memory dtb n (readPrologue env outHwInfo dtb prior).state) ∨
      (Panicked (readPrologue env outHwInfo dtb prior).events ∧
        (∀ n, ¬ ReservedEntries env.memory dtb n) ∧
        (readPrologue env outHwInfo dtb prior).outcome ≠ .ok ()) := by
  have ending := wp_iff.mp (readPrologue_spec env outHwInfo dtb prior)
  have failStops : FailStops (panicPolicy env) (readPrologue env outHwInfo dtb) :=
    failStops_readPrologue
  have stops := failStops prior
  generalize (readPrologue env outHwInfo dtb prior).outcome = o,
    (readPrologue env outHwInfo dtb prior).state = info,
    (readPrologue env outHwInfo dtb prior).events = evs at ending stops
  cases ending with
  | passed _ map _ holds => exact Or.inl ⟨silent_iff.mp stops.silent_of_ok, _, map, rfl, holds⟩
  | exhausted few => omega
  | rejected none stop =>
      obtain ⟨before, last, -, final, rfl⟩ := stops.final_of_error stop.1
      obtain ⟨-, message, rfl⟩ := final
      exact Or.inr ⟨by simp, fun n map => none ⟨accepted, n, map⟩, nofun⟩

/-- **Reserved entries are never truncated or invented.** What is read of the map lies in
entries inside the blob. A scan that does not panic has stored exactly the entries before
the first (0, 0), which is inside the blob too; where no entry of the blob is (0, 0), the
scan panics. -/
theorem reserved_entries_exact (env : Env) (outHwInfo dtb : UInt64) (prior : HardwareInfo)
    (accepted : HeaderAccepted env.memory outHwInfo dtb) (noWrap : EndFits env.memory dtb)
    (enough : 255 < env.fuel) :
    (∀ a, .read ⟨.reservationMap, a⟩ ∈ (readPrologue env outHwInfo dtb prior).events →
      InEntry env.memory dtb a) ∧
    (¬ Panicked (readPrologue env outHwInfo dtb prior).events →
      (readPrologue env outHwInfo dtb prior).outcome = .ok () ∧
      ∃ n, n < 255 ∧ Terminates env.memory dtb n ∧
        (∀ i ≤ n, (entryAddress env.memory dtb i).toNat =
          dtb.toNat + (headerAt env.memory dtb).offMemRsvmap.toNat + 16 * i.toNat) ∧
        HoldsEntries env.memory dtb n (readPrologue env outHwInfo dtb prior).state) ∧
    ((∀ n, EntryFits env.memory dtb n → entryAt env.memory dtb n ≠ (0, 0)) →
      Panicked (readPrologue env outHwInfo dtb prior).events ∧
      (readPrologue env outHwInfo dtb prior).outcome ≠ .ok ()) := by
  refine ⟨fun a member => ?_, fun quiet => ?_, fun endless => ?_⟩
  · have ofMap : ¬ HeaderEvent (.read ⟨.reservationMap, a⟩) := fun event => nomatch event
    obtain ⟨ts, i, info, -, known, emitted⟩ := exists_head_of_scan
      ((mem_events_prologue accepted (Or.inl ofMap) (fun same => nomatch same)).mp member)
    exact wp_iff.mp (reservedStep_reads known noWrap) _ emitted a rfl
  · rcases readPrologue_passes prior accepted enough with
      ⟨-, n, map, outcome, holds⟩ | ⟨panicked, -⟩
    · refine ⟨outcome, n, map.few, map.terminates noWrap, fun i le => ?_, holds⟩
      exact (map.fits.le le).address noWrap
    · exact absurd panicked quiet
  · rcases readPrologue_passes prior accepted enough with
      ⟨-, n, map, -⟩ | ⟨panicked, -, stop⟩
    · exact absurd (map.terminates noWrap).terminator (endless n map.fits)
    · exact ⟨panicked, stop⟩

/-- A blob that is a header and a map of three entries, one of them with base 0. -/
def threeEntriesEnv : Env where
  memory := fun a =>
    ([0xd00dfeed, 104, 40, 40, 40, 17, 16, 0, 0, 0, 0, 0x40000000, 0, 0x1000, 0, 0x48000000, 0,
      0x200, 0, 0, 0, 0x80000000, 0, 0, 0, 0].flatMap word).getD (a - Blob.address).toNat 0
  panicReturns := false
  fuel := 2 ^ 64

/-- The three entries, and no others, are stored. -/
theorem reserved_entries_exact_threeEntries :
    Terminates threeEntriesEnv.memory Blob.address 3 ∧
      (List.range 3).map (fun j => entryAt threeEntriesEnv.memory Blob.address (UInt64.ofNat j)) =
        [(0x40000000, 0x1000), (0x48000000, 0x200), (0, 0x80000000)] ∧
      HoldsEntries threeEntriesEnv.memory Blob.address 3
        (readPrologue threeEntriesEnv 1 Blob.address .zero).state := by
  have accepted : HeaderAccepted threeEntriesEnv.memory 1 Blob.address := by
    constructor <;> decide +kernel
  have noWrap : EndFits threeEntriesEnv.memory Blob.address := by decide +kernel
  have passed : (readPrologue threeEntriesEnv 1 Blob.address .zero).outcome = .ok () := by
    decide +kernel
  have quiet : ¬ Panicked (readPrologue threeEntriesEnv 1 Blob.address .zero).events := by
    rcases readPrologue_passes .zero accepted (by decide) with ⟨quiet, -⟩ | ⟨-, -, stopped⟩
    · exact quiet
    · exact absurd passed stopped
  obtain ⟨-, stored, -⟩ :=
    reserved_entries_exact threeEntriesEnv 1 Blob.address .zero accepted noWrap (by decide)
  obtain ⟨-, n, -, map, -, holds⟩ := stored quiet
  have three : n = 3 := holds.count.symm.trans (by decide +kernel)
  subst three
  exact ⟨map, by decide +kernel, holds⟩

/-! ## The capacity of the record -/

/-- The storage for reserved regions is used in full: every map of at most 255 entries is
stored, and the complaint about space is made only over a 256th. -/
structure FullCapacity (env : Env) (outHwInfo dtb : UInt64) (prior : HardwareInfo) : Prop where
  stored : ∀ n ≤ 255, Terminates env.memory dtb n →
    (readPrologue env outHwInfo dtb prior).outcome = .ok () ∧
      (readPrologue env outHwInfo dtb prior).state.reservedRegionsCount = n
  refused : .panic capacityPanic ∈ (readPrologue env outHwInfo dtb prior).events →
    ∀ j ≤ 255, RealEntry env.memory dtb j

/-- The scan goes on after this entry. -/
def Passes (mem : Memory) (dtb i : UInt64) : Prop := RealEntry mem dtb i ∧ BeforeEnd mem dtb i

/-- What an iteration of the scan that goes on has found. -/
theorem continues_reserved {i j : UInt64} {info' : HardwareInfo}
    (known : info.header = headerAt env.memory dtb)
    (edge : Continues (reservedStep env dtb) (i, info) (j, info')) :
    EntryFits env.memory dtb i ∧ j = i + 1 ∧ i < 255 := by
  have step := wp_iff.mp (reservedStep_spec (i := i) known)
  obtain ⟨next, state⟩ := edge
  dsimp only at next state
  rw [next, state] at step
  cases step with
  | entry few fits => exact ⟨fits, rfl, few⟩

/-- The scan has gone on after each entry before the one it stands at. -/
theorem passes_of_trail {ts : List Unit} {i : UInt64}
    (known : prior.header = headerAt env.memory dtb)
    (trail :
      Trail (reservedStep env dtb) (fun _ => ()) (0, prior.setReservedCount 0) ts (i, info)) :
    ∀ j < i, Passes env.memory dtb j := by
  have head := reservedHead_of_trail known trail
  have inside : ∀ j < i, EntryFits env.memory dtb j := by
    intro j less
    cases trail with
    | start => exact absurd (UInt64.lt_iff_toNat_lt.mp less) (Nat.not_lt_zero _)
    | @step ts b _ trail edge =>
        obtain ⟨k, info₁⟩ := b
        have before := reservedHead_of_trail known trail
        obtain ⟨fits, rfl, few⟩ := continues_reserved (before.same.header_eq.trans known) edge
        have few := UInt64.lt_iff_toNat_lt.mp few
        rw [UInt64.lt_iff_toNat_lt, UInt64.toNat_add] at less
        refine fits.le (UInt64.le_iff_toNat_le.mpr ?_)
        simp only [UInt64.reduceToNat] at few less
        omega
  intro j less
  obtain ⟨before, nonzero⟩ := not_entryEnds_iff.mp (head.before j less)
  exact ⟨⟨inside j less, nonzero⟩, before⟩

/-- Past 255 such entries the scan stands at the index 255. -/
theorem exists_last_of_passes (prior : HardwareInfo) (enough : 255 < env.fuel)
    (known : prior.header = headerAt env.memory dtb)
    (passes : ∀ j < 255, Passes env.memory dtb j) :
    ∃ ts i info, Trail (reservedStep env dtb) (fun _ => ()) (0, prior.setReservedCount 0) ts
        (i, info) ∧ ts.length < env.fuel ∧ 255 ≤ i := by
  obtain ⟨ts, ⟨i, info⟩, trail, ending⟩ := loop_cases Stop.exhausted (reservedStep env dtb)
    (fun _ => ()) env.fuel 0 (prior.setReservedCount 0)
  have head := reservedHead_of_trail known trail
  have step := wp_iff.mp (reservedStep_spec (i := i) (head.same.header_eq.trans known))
  refine ⟨ts, i, info, trail, Nat.lt_of_le_of_lt head.few enough, ?_⟩
  by_contra few
  have few : i < 255 := UInt64.not_le.mp few
  obtain ⟨⟨fits, nonzero⟩, before⟩ := passes i few
  generalize (reservedStep env dtb i info).state = info' at step
  generalize out : (reservedStep env dtb i info).outcome = o at step
  generalize (loop .exhausted (reservedStep env dtb) env.fuel 0
    (prior.setReservedCount 0)).outcome = o', (loop .exhausted (reservedStep env dtb) env.fuel 0
    (prior.setReservedCount 0)).state = info'' at ending
  cases step with
  | stopped unfit => exact unfit ⟨few, fits⟩
  | ended _ _ ends => exact not_entryEnds_iff.mpr ⟨before, nonzero⟩ ends
  | entry =>
      cases ending with
      | done _ stop => exact nomatch out.symm.trans stop
      | failed _ stop => exact nomatch out.symm.trans stop
      | exhausted eq =>
          have := head.few
          omega

/-- **The scan complains about space exactly when it goes on after the first 255 entries.** -/
theorem capacityPanic_iff (accepted : HeaderAccepted env.memory outHwInfo dtb)
    (enough : 255 < env.fuel) :
    .panic capacityPanic ∈ (readPrologue env outHwInfo dtb prior).events ↔
      ∀ j < 255, Passes env.memory dtb j := by
  rw [mem_events_prologue accepted (Or.inr ⟨_, rfl⟩) nofun]
  constructor
  · intro member
    obtain ⟨ts, i, info, trail, known, emitted⟩ := exists_head_of_scan member
    have last := (wp_iff.mp reservedStep_capacity).mp emitted
    exact fun j less => passes_of_trail rfl trail j (UInt64.lt_of_lt_of_le less last)
  · intro passes
    obtain ⟨ts, i, info, trail, less, last⟩ := exists_last_of_passes
      (prior.setHeader (headerAt env.memory dtb)) enough rfl passes
    exact (mem_events_loop fun _ => ()).mpr ⟨ts, (i, info), trail, less,
      (wp_iff.mp reservedStep_capacity).mpr last⟩

/-- With 255 entries and no more, the scan wrongly complains. -/
theorem not_fullCapacity (accepted : HeaderAccepted env.memory outHwInfo dtb)
    (enough : 255 < env.fuel) (passes : ∀ j < 255, Passes env.memory dtb j)
    (last : ¬ RealEntry env.memory dtb 255) : ¬ FullCapacity env outHwInfo dtb prior := fun full =>
  last (full.refused ((capacityPanic_iff accepted enough).mpr passes) 255 (by decide))

/-- **The storage is used in full, exactly where the map is not 255 entries and no 256th, and
no entry before its terminator lies past the end of the blob**, as it can where that end
wraps. -/
theorem full_capacity_iff (env : Env) (outHwInfo dtb : UInt64) (prior : HardwareInfo)
    (accepted : HeaderAccepted env.memory outHwInfo dtb) (enough : 255 < env.fuel) :
    FullCapacity env outHwInfo dtb prior ↔
      ¬ ((∀ j < 255, Passes env.memory dtb j) ∧ ¬ RealEntry env.memory dtb 255) ∧
        ∀ n ≤ 255, Terminates env.memory dtb n → ∀ j < n, BeforeEnd env.memory dtb j := by
  constructor
  · intro full
    refine ⟨fun both => not_fullCapacity accepted enough both.1 both.2 full, ?_⟩
    intro n le map j less
    obtain ⟨outcome, count⟩ := full.stored n le map
    rcases readPrologue_passes prior accepted enough with
      ⟨-, m, map', -, holds⟩ | ⟨-, -, stop⟩
    · have same : m = n := holds.count.symm.trans count
      exact (not_entryEnds_iff.mp (map'.before j (same ▸ less))).1
    · exact absurd outcome stop
  · intro both
    obtain ⟨other, before⟩ := both
    refine ⟨fun n le map => ?_, fun refused j le => ?_⟩
    · have passes : ∀ j < n, Passes env.memory dtb j := fun j less =>
        ⟨⟨map.inside.le (UInt64.le_of_lt less), map.real j less⟩, before n le map j less⟩
      have few : n < 255 := by
        by_contra many
        have eq : n = 255 := UInt64.le_antisymm le (UInt64.not_lt.mp many)
        subst eq
        exact other ⟨passes, fun real => real.2 map.terminator⟩
      have entries : ReservedEntries env.memory dtb n :=
        ⟨few, map.inside, Or.inr map.terminator, fun j less =>
          not_entryEnds_iff.mpr ⟨(passes j less).2, map.real j less⟩⟩
      rcases readPrologue_passes prior accepted enough with
        ⟨-, m, map', outcome, holds⟩ | ⟨-, none, -⟩
      · rw [entries.unique map']
        exact ⟨outcome, holds.count⟩
      · exact absurd entries (none n)
    · have passes := (capacityPanic_iff accepted enough).mp refused
      by_cases eq : j = 255
      · by_contra last
        exact other ⟨passes, eq ▸ last⟩
      · exact (passes j (UInt64.lt_of_le_of_ne le eq)).1

/-- It is used in full on a blob whose map has three entries, which are stored. -/
theorem full_capacity_threeEntries :
    FullCapacity threeEntriesEnv 1 Blob.address .zero ∧
      (readPrologue threeEntriesEnv 1 Blob.address .zero).outcome = .ok () ∧
      (readPrologue threeEntriesEnv 1 Blob.address .zero).state.reservedRegionsCount = 3 := by
  have accepted : HeaderAccepted threeEntriesEnv.memory 1 Blob.address := by
    constructor <;> decide +kernel
  have real : ∀ j < 3, entryAt threeEntriesEnv.memory Blob.address j ≠ (0, 0) := by
    have each : ∀ j < 3, entryAt threeEntriesEnv.memory Blob.address (UInt64.ofNat j) ≠ (0, 0) := by
      decide +kernel
    intro j less
    simpa using each j.toNat (UInt64.lt_iff_toNat_lt.mp less)
  have three : Terminates threeEntriesEnv.memory Blob.address 3 :=
    ⟨by unfold EntryFits; decide +kernel, by decide +kernel, real⟩
  have full : FullCapacity threeEntriesEnv 1 Blob.address .zero := by
    refine (full_capacity_iff threeEntriesEnv 1 Blob.address .zero accepted (by decide)).mpr
      ⟨fun both => (both.1 3 (by decide)).1.2 three.terminator, fun n _ map j less => ?_⟩
    exact map.inside.le (UInt64.le_of_lt less) |>.beforeEnd (by decide +kernel)
  exact ⟨full, full.stored 3 (by decide) three⟩

/-- A blob with a full map: a header, 255 entries of ones, and the terminator. -/
def fullMapEnv : Env where
  memory := fun a =>
    let i := (a - Blob.address).toNat
    if i < 40 then
      (word 0xd00dfeed ++ word 4136 ++ word 40 ++ word 40 ++ word 40 ++ word 17 ++ word 16 ++
        word 0 ++ word 0 ++ word 0).getD i 0
    else if i < 4120 then 1 else 0
  panicReturns := false
  fuel := 2 ^ 64

/-- Its 255 entries fit the arrays of the record, and are refused. -/
theorem full_map_refused :
    HeaderAccepted fullMapEnv.memory 1 Blob.address ∧
      EndFits fullMapEnv.memory Blob.address ∧ Terminates fullMapEnv.memory Blob.address 255 ∧
      ¬ FullCapacity fullMapEnv 1 Blob.address .zero := by
  have accepted : HeaderAccepted fullMapEnv.memory 1 Blob.address := by
    constructor <;> decide +kernel
  have noWrap : EndFits fullMapEnv.memory Blob.address := by decide +kernel
  have real : ∀ j < 255, RealEntry fullMapEnv.memory Blob.address j := by
    have each : ∀ j < 255, RealEntry fullMapEnv.memory Blob.address (UInt64.ofNat j) := by
      decide +kernel
    intro j less
    have bound := UInt64.lt_iff_toNat_lt.mp less
    simpa using each j.toNat bound
  have map : Terminates fullMapEnv.memory Blob.address 255 :=
    ⟨by unfold EntryFits; decide +kernel, by decide +kernel, fun j less => (real j less).2⟩
  exact ⟨accepted, noWrap, map, not_fullCapacity accepted (by decide)
    (fun j less => ⟨real j less, (real j less).1.beforeEnd noWrap⟩)
    fun real => real.2 map.terminator⟩

end Scan

end CharcoalOS
