import CharcoalOS.Hardware.Header
import CharcoalOS.Hardware.WalkStep

/-!
# Runs of the parser

A run passes the prologue and then moves from head to head: `WalkHead` is the state
at the top of an iteration of the walk, with the tokens handled before it.

* `WalkHead.induct` is the induction over these heads, one token at a time. Every
  invariant of the walk is proved with it.
* `parse_spec` and `mem_events_parse` say how a run ends and what it emits, in terms
  of its heads.
-/

namespace CharcoalOS

open Effect Effect.Program

/-! ## The blob -/

/-- The first address of the struct block of the blob at `dtb`. -/
def blobStart (mem : Memory) (dtb : UInt64) : UInt64 := structStart dtb (headerAt mem dtb)

/-- The address past the struct block of the blob at `dtb`. -/
def blobEnd (mem : Memory) (dtb : UInt64) : UInt64 := structEnd dtb (headerAt mem dtb)

/-- A token of the struct block of the blob at `dtb`. -/
abbrev BlobToken (mem : Memory) (dtb a : UInt64) (t : Token) (next : UInt64) : Prop :=
  TokenAt mem (blobEnd mem dtb) (headerAt mem dtb).sizeDtStrings a t next

/-- The name of a property of the blob at `dtb`, as the walk recognises it. -/
def propertyName (mem : Memory) (dtb : UInt64) (p : Property) : PropertyName :=
  kindOf mem dtb (headerAt mem dtb) p

/-- The walk past a token of the blob at `dtb`. -/
def Walk.past (mem : Memory) (dtb : UInt64) (t : Token) (next : UInt64) (s : Walk) : Walk :=
  s.afterToken mem dtb (headerAt mem dtb) t next

/-! ## What the walk changes in the record -/

/-- The walk writes the cell counts and the memory regions only. -/
def SameButMemory (info info' : HardwareInfo) : Prop :=
  ∃ addressCells sizeCells regions count,
    info' = (((info.setAddressCells addressCells).setSizeCells sizeCells).setRegionCount
      count).setRegions regions

theorem SameButMemory.refl (info : HardwareInfo) : SameButMemory info info :=
  ⟨info.addressCells, info.sizeCells, info.physicalMemoryRegions,
    info.physicalMemoryRegionCount, rfl⟩

theorem SameButMemory.trans {info₁ info₂ info₃ : HardwareInfo}
    (left : SameButMemory info₁ info₂) (right : SameButMemory info₂ info₃) :
    SameButMemory info₁ info₃ := by
  obtain ⟨_, _, _, _, rfl⟩ := left
  obtain ⟨addressCells, sizeCells, regions, count, rfl⟩ := right
  exact ⟨addressCells, sizeCells, regions, count, rfl⟩

theorem SameButMemory.header_eq {info info' : HardwareInfo} (same : SameButMemory info info') :
    info'.header = info.header := by
  obtain ⟨_, _, _, _, rfl⟩ := same
  rfl

theorem SameButRegions.sameButMemory {info info' : HardwareInfo}
    (same : SameButRegions info info') : SameButMemory info info' := by
  obtain ⟨regions, count, rfl⟩ := same
  exact ⟨info.addressCells, info.sizeCells, regions, count, rfl⟩

theorem SameButMemory.withCells (mem : Memory) (kind : PropertyName) (p : Property) (s : Walk)
    (info : HardwareInfo) : SameButMemory info (info.withCells mem kind p s) := by
  unfold HardwareInfo.withCells
  split
  · exact ⟨be32 mem p.data, info.sizeCells, info.physicalMemoryRegions,
      info.physicalMemoryRegionCount, rfl⟩
  · split
    · exact ⟨info.addressCells, be32 mem p.data, info.physicalMemoryRegions,
        info.physicalMemoryRegionCount, rfl⟩
    · exact .refl info

theorem RegionsEnd.sameButRegions {env : Env} {info info' : HardwareInfo}
    {addressCells sizeCells : UInt32} {reg regSize : UInt64} {o : Except Stop Unit}
    {evs : List Event}
    (ending : RegionsEnd env info addressCells sizeCells reg regSize o info' evs) :
    SameButRegions info info' := by
  cases ending with
  | decoded => exact ⟨_, _, rfl⟩
  | rejected _ _ _ _ _ same => exact same

theorem NodeEnd.sameButMemory {env : Env} {s : Walk} {info info' : HardwareInfo}
    {o : Except Stop Unit} {evs : List Event} (ending : NodeEnd env s info o info' evs) :
    SameButMemory info info' := by
  cases ending with
  | skipped => exact .refl info
  | uninitialized => exact .refl info
  | regions _ _ ending => exact ending.sameButRegions.sameButMemory

/-- Only a panic stops the decoding of a node. -/
theorem NodeEnd.panicStop {env : Env} {s : Walk} {info info' : HardwareInfo} {e : Stop}
    {evs : List Event} (ending : NodeEnd env s info (.error e) info' evs) : PanicStop env e := by
  cases ending with
  | uninitialized _ _ _ stop => exact stop
  | regions _ _ ending =>
      cases ending with
      | rejected _ _ _ outcome =>
          rcases outcome with returned | halted
          · cases returned
          · cases halted
            exact ⟨by decide, fun _ => rfl⟩

theorem StepEnd.sameButMemory {env : Env} {dtb limit : UInt64} {s : Walk}
    {info info' : HardwareInfo} {o : Except Stop (Control Walk Walk)} {evs : List Event}
    (ending : StepEnd env dtb limit s info o info' evs) : SameButMemory info info' := by
  cases ending with
  | outOfBounds => exact .refl info
  | tail => exact .refl info
  | malformed => exact .refl info
  | exhausted => exact .refl info
  | unmatched => exact .refl info
  | moved => exact .refl info
  | prop _ post _ =>
      cases post.ending with
      | malformed => exact .refl info
      | stopped _ ending => exact (SameButMemory.withCells ..).trans ending.sameButMemory
      | handled _ ending => exact (SameButMemory.withCells ..).trans ending.sameButMemory

/-- What a completed iteration past the token `t` leaves in the record; `s'` is the
walk then. -/
inductive RecordStep (env : Env) (dtb : UInt64) (s : Walk) (info : HardwareInfo) (s' : Walk) :
    Token → HardwareInfo → Prop
  | other {t : Token} : (∀ p, t ≠ .prop p) → RecordStep env dtb s info s' t info
  | prop {p : Property} {info' : HardwareInfo} {evs : List Event} :
    CellsFit env.memory (propertyName env.memory dtb p) p s →
    NodeEnd env s' (info.withCells env.memory (propertyName env.memory dtb p) p s) (.ok ())
      info' evs →
    (∀ e ∈ evs, e ∈ (walkStep env dtb (blobEnd env.memory dtb) s info).events) →
    RecordStep env dtb s info s' (.prop p) info'

/-! ## Heads -/

/-- The record when the walk starts. -/
def walkRecord (env : Env) (outHwInfo dtb : UInt64) (prior : HardwareInfo) : HardwareInfo :=
  (readPrologue env outHwInfo dtb prior).state

/-- The walk when it starts. -/
def walkStart (env : Env) (dtb : UInt64) : Walk := Walk.initial (blobStart env.memory dtb)

/-- The token at the cursor. -/
def headToken (mem : Memory) (s : Walk) : Token := tokenOf mem s.dtbCursor

/-- A trail of the walk from its start. -/
abbrev WalkTrail (env : Env) (outHwInfo dtb : UInt64) (prior : HardwareInfo) (ts : List Token)
    (s : Walk) (info : HardwareInfo) : Prop :=
  Trail (walkStep env dtb (blobEnd env.memory dtb)) (headToken env.memory)
    (walkStart env dtb, walkRecord env outHwInfo dtb prior) ts (s, info)

/-- The run comes to the top of an iteration of the walk with the local variables `s`
and the record `info`, after the tokens `ts`. -/
structure WalkHead (env : Env) (outHwInfo dtb : UInt64) (prior : HardwareInfo)
    (ts : List Token) (s : Walk) (info : HardwareInfo) : Prop where
  passed : (readPrologue env outHwInfo dtb prior).outcome = .ok ()
  trail : WalkTrail env outHwInfo dtb prior ts s info
  fuel : ts.length < env.fuel

section Heads

variable {env : Env} {outHwInfo dtb : UInt64} {prior info info' : HardwareInfo}
  {ts : List Token} {s s' : Walk}

/-- What is known of the record once the prologue has passed. -/
theorem prologue_passed (passed : (readPrologue env outHwInfo dtb prior).outcome = .ok ()) :
    HeaderAccepted env.memory outHwInfo dtb ∧ ∃ n, ReservedEntries env.memory dtb n ∧
      n.toNat < env.fuel ∧
      HoldsEntries env.memory dtb n (walkRecord env outHwInfo dtb prior) ∧
      SameButReserved (prior.setHeader (headerAt env.memory dtb))
        (walkRecord env outHwInfo dtb prior) := by
  have ending := wp_iff.mp (readPrologue_spec env outHwInfo dtb prior)
  rw [passed, ← walkRecord] at ending
  cases ending with
  | passed accepted map less holds same => exact ⟨accepted, _, map, less, holds, same⟩

theorem walkRecord_header (passed : (readPrologue env outHwInfo dtb prior).outcome = .ok ()) :
    (walkRecord env outHwInfo dtb prior).header = headerAt env.memory dtb := by
  obtain ⟨-, n, -, -, -, same⟩ := prologue_passed passed
  exact same.header_eq

/-- What the iteration from `s` and `info` does. -/
theorem walkStep_post (env : Env) (dtb : UInt64) (s : Walk) (info : HardwareInfo) :
    StepEnd env dtb (blobEnd env.memory dtb) s info
        (walkStep env dtb (blobEnd env.memory dtb) s info).outcome
        (walkStep env dtb (blobEnd env.memory dtb) s info).state
        (walkStep env dtb (blobEnd env.memory dtb) s info).events ∧
      ∀ e ∈ (walkStep env dtb (blobEnd env.memory dtb) s info).events,
        StepEvent env.memory dtb (blobEnd env.memory dtb) s info e :=
  wp_iff.mp walkStep_spec

/-- The walk ends where fewer than four bytes are left, and reads no token there. -/
theorem walkStep_tail {limit : UInt64} (le : s.dtbCursor ≤ limit)
    (short : limit - s.dtbCursor < 4) :
    (walkStep env dtb limit s info).outcome = .ok (.done s) ∧
      (walkStep env dtb limit s info).events = [] := by
  have run : wp (walkStep env dtb limit s) (fun o _ evs => o = .ok (.done s) ∧ evs = []) info := by
    rw [walkStep, wp_bind]
    refine wp_panicIf (fun past => absurd past (UInt64.not_lt.mpr le)) (fun _ => ?_)
    rw [seqPost_ok, if_pos short]
    exact ⟨rfl, rfl⟩
  exact run

/-- The inversion of a completed iteration. -/
theorem continues_inv (known : info.header = headerAt env.memory dtb)
    (edge : Continues (walkStep env dtb (blobEnd env.memory dtb)) (s, info) (s', info')) :
    ∃ t next, BlobToken env.memory dtb s.dtbCursor t next ∧ s' = s.past env.memory dtb t next ∧
      (t = .endNode → s.nodeDepth ≠ 0) ∧ RecordStep env dtb s info s' t info' := by
  have post := walkStep_post env dtb s info
  obtain ⟨outcome, state⟩ := edge
  dsimp only at outcome state
  rw [outcome, state] at post
  obtain ⟨ending, -⟩ := post
  generalize out : (Except.ok (Control.next s') : Except Stop (Control Walk Walk)) = o at ending
  cases ending with
  | outOfBounds => cases out
  | tail => cases out
  | malformed => cases out
  | exhausted => cases out
  | unmatched => cases out
  | moved token other depth =>
      cases out
      rw [known] at token ⊢
      exact ⟨_, _, token, rfl, depth, .other other⟩
  | @prop p next o info' evs evs' token post inner =>
      rw [known] at token post
      cases o with
      | error e => cases out
      | ok s₁ =>
          cases out
          cases post.ending with
          | handled fits ending =>
              exact ⟨_, _, token, rfl, nofun, .prop fits ending fun e member =>
                inner e member⟩

/-- The iteration at a property token handles that property. -/
theorem step_prop {p : Property} {next : UInt64} (known : info.header = headerAt env.memory dtb)
    (token : BlobToken env.memory dtb s.dtbCursor (.prop p) next) :
    ∃ o evs, HandlePost env (propName dtb (headerAt env.memory dtb) p.nameOffset) p
        { s with dtbCursor := next } info o
        (walkStep env dtb (blobEnd env.memory dtb) s info).state evs ∧
      (∀ e ∈ evs, e ∈ (walkStep env dtb (blobEnd env.memory dtb) s info).events) ∧
      (walkStep env dtb (blobEnd env.memory dtb) s info).outcome = o.map .next := by
  have post := (walkStep_post env dtb s info).1
  have room := token.room
  generalize (walkStep env dtb (blobEnd env.memory dtb) s info).outcome = o,
    (walkStep env dtb (blobEnd env.memory dtb) s info).state = info',
    (walkStep env dtb (blobEnd env.memory dtb) s info).events = evs at post ⊢
  cases post with
  | outOfBounds past =>
      have := UInt64.lt_iff_toNat_lt.mp past
      omega
  | tail _ short => omega
  | malformed _ none =>
      rw [known] at none
      exact absurd token (none _ next)
  | exhausted _ kind =>
      exact absurd (token.code_eq.symm.trans kind) (show ¬ fdtProp = fdtBeginNode by decide)
  | unmatched token' =>
      rw [known] at token'
      exact nomatch (token.unique token').1
  | moved token' other =>
      rw [known] at token'
      exact absurd (token.unique token').1.symm (other p)
  | prop token' post inner =>
      rw [known] at token' post
      obtain ⟨same, rfl⟩ := token.unique token'
      cases same
      exact ⟨_, _, post, inner, rfl⟩

theorem walkTrail_sameButMemory (trail : WalkTrail env outHwInfo dtb prior ts s info) :
    SameButMemory (walkRecord env outHwInfo dtb prior) info := by
  refine trail.invariant (fun b =>
    SameButMemory (walkRecord env outHwInfo dtb prior) b.2) (.refl _) ?_
  intro head next same edge
  obtain ⟨s₁, info₁⟩ := head
  obtain ⟨s₂, info₂⟩ := next
  obtain ⟨-, state⟩ := edge
  have post := walkStep_post env dtb s₁ info₁
  rw [show _ = info₂ from state] at post
  exact same.trans post.1.sameButMemory

theorem WalkHead.header_eq (head : WalkHead env outHwInfo dtb prior ts s info) :
    info.header = headerAt env.memory dtb :=
  (walkTrail_sameButMemory head.trail).header_eq.trans (walkRecord_header head.passed)

/-- **Induction over the heads of a run.** -/
theorem WalkHead.induct {P : List Token → Walk → HardwareInfo → Prop}
    (start : (readPrologue env outHwInfo dtb prior).outcome = .ok () →
      P [] (walkStart env dtb) (walkRecord env outHwInfo dtb prior))
    (step : ∀ {ts s info t next s' info'}, WalkHead env outHwInfo dtb prior ts s info →
      P ts s info → BlobToken env.memory dtb s.dtbCursor t next →
      s' = s.past env.memory dtb t next → (t = .endNode → s.nodeDepth ≠ 0) →
      RecordStep env dtb s info s' t info' → P (ts ++ [t]) s' info')
    (head : WalkHead env outHwInfo dtb prior ts s info) : P ts s info := by
  obtain ⟨passed, trail, fuel⟩ := head
  unfold WalkTrail at trail
  generalize stop : (s, info) = c at trail
  induction trail generalizing s info with
  | start =>
      obtain ⟨rfl, rfl⟩ := Prod.mk.inj stop
      exact start passed
  | @step ts b c trail edge ih =>
      subst stop
      obtain ⟨s₁, info₁⟩ := b
      have fuel' : ts.length < env.fuel := by
        rw [List.length_append, List.length_singleton] at fuel
        omega
      have head : WalkHead env outHwInfo dtb prior ts s₁ info₁ := ⟨passed, trail, fuel'⟩
      obtain ⟨t, next, token, walk, depth, record⟩ := continues_inv head.header_eq edge
      rw [headToken, token.tokenOf_eq]
      exact step head (ih fuel' rfl) token walk depth record

/-- The head after a completed iteration. -/
theorem WalkHead.next (head : WalkHead env outHwInfo dtb prior ts s info)
    (edge : Continues (walkStep env dtb (blobEnd env.memory dtb)) (s, info) (s', info'))
    (fuel : ts.length + 1 < env.fuel) :
    WalkHead env outHwInfo dtb prior (ts ++ [headToken env.memory s]) s' info' :=
by
  refine ⟨head.passed, .step (b := (s, info)) head.trail edge, ?_⟩
  rw [List.length_append, List.length_singleton]
  exact fuel

/-! ## How a run ends -/

/-- The walk breaks out of its loop only where no token fits any more. -/
theorem StepEnd.done_inv {limit : UInt64} {v : Walk} {evs : List Event}
    (ending : StepEnd env dtb limit s info (.ok (.done v)) info' evs) :
    v = s ∧ info' = info ∧ s.dtbCursor ≤ limit ∧ limit.toNat < s.dtbCursor.toNat + 4 := by
  generalize out : (Except.ok (Control.done v) : Except Stop (Control Walk Walk)) = o at ending
  cases ending with
  | tail le short =>
      cases out
      exact ⟨rfl, rfl, le, short⟩
  | @prop _ _ o =>
      cases o with
      | error e => cases out
      | ok s' => cases out
  | _ => cases out

/-- An iteration that fails has panicked, or its name scan ran out of fuel. -/
theorem StepEnd.error_inv {limit : UInt64} {e : Stop} {evs : List Event}
    (ending : StepEnd env dtb limit s info (.error e) info' evs) :
    PanicStop env e ∨ e = .exhausted ∧ s.dtbCursor.toNat + 4 ≤ limit.toNat ∧
      env.fuel ≤ limit.toNat - (s.dtbCursor.toNat + 4) := by
  generalize out : (Except.error e : Except Stop (Control Walk Walk)) = o at ending
  cases ending with
  | outOfBounds _ stop => cases out; exact Or.inl stop
  | tail => cases out
  | malformed _ _ stop => cases out; exact Or.inl stop
  | exhausted room _ short => cases out; exact Or.inr ⟨rfl, room, short⟩
  | unmatched _ _ stop => cases out; exact Or.inl stop
  | moved => cases out
  | @prop _ _ o _ _ _ _ post _ =>
      cases o with
      | ok s' => cases out
      | error e' =>
          cases out
          refine Or.inl ?_
          cases post.ending with
          | malformed _ _ _ stop => exact stop
          | stopped _ ending => exact ending.panicStop

/-- How the body of the parser ends, before its own `return` is settled. -/
inductive BodyEnd (env : Env) (outHwInfo dtb : UInt64) (prior : HardwareInfo) :
    Except Stop Unit → HardwareInfo → Prop
  | prologue {e : Stop} : (readPrologue env outHwInfo dtb prior).outcome = .error e →
    BodyEnd env outHwInfo dtb prior (.error e) (walkRecord env outHwInfo dtb prior)
  | stopped {ts : List Token} {s : Walk} {info : HardwareInfo} {e : Stop} :
    WalkHead env outHwInfo dtb prior ts s info →
    (walkStep env dtb (blobEnd env.memory dtb) s info).outcome = .error e →
    BodyEnd env outHwInfo dtb prior (.error e)
      (walkStep env dtb (blobEnd env.memory dtb) s info).state
  | exhausted {ts : List Token} {s : Walk} {info : HardwareInfo} :
    (readPrologue env outHwInfo dtb prior).outcome = .ok () →
    WalkTrail env outHwInfo dtb prior ts s info → ts.length = env.fuel →
    BodyEnd env outHwInfo dtb prior (.error .exhausted) info
  | unfinished {ts : List Token} {s : Walk} {info : HardwareInfo} {e : Stop} :
    WalkHead env outHwInfo dtb prior ts s info →
    s.dtbCursor ≤ blobEnd env.memory dtb →
    (blobEnd env.memory dtb).toNat < s.dtbCursor.toNat + 4 →
    ¬ (s.nodeDepth = 0 ∧ s.endTokensEncountered = 1) → PanicStop env e →
    BodyEnd env outHwInfo dtb prior (.error e) info
  | finished {ts : List Token} {s : Walk} {info : HardwareInfo} :
    WalkHead env outHwInfo dtb prior ts s info →
    s.dtbCursor ≤ blobEnd env.memory dtb →
    (blobEnd env.memory dtb).toNat < s.dtbCursor.toNat + 4 →
    s.nodeDepth = 0 → s.endTokensEncountered = 1 →
    BodyEnd env outHwInfo dtb prior (.ok ()) info

theorem finishWalk_spec :
    wp (finishWalk env s)
      (fun o info' _ => info' = info ∧ (match o with
        | .ok _ => s.nodeDepth = 0 ∧ s.endTokensEncountered = 1
        | .error e => PanicStop env e ∧ ¬ (s.nodeDepth = 0 ∧ s.endTokensEncountered = 1)))
      info := by
  rw [finishWalk, wp_bind]
  refine wp_panicIf (fun nested e evs panics => ?_) (fun level => ?_)
  · exact ⟨rfl, panics.panicStop, fun both => nested both.1⟩
  rw [seqPost_ok, wp_bind]
  refine wp_panicIf (fun other e evs panics => ?_) (fun one => ?_)
  · exact ⟨rfl, panics.panicStop, fun both => other both.2⟩
  simp only [seqPost_ok, wp_bind, wp_current, wp_consolePrint, wp_consolePrintHexValue]
  exact ⟨trivial, not_ne_iff.mp level, not_ne_iff.mp one⟩

/-- A `return` of the body ends the parser normally. -/
def settle (o : Except Stop Unit) : Except Stop Unit := if o = .error .returned then .ok () else o

theorem wp_walkStruct {Q : Post HardwareInfo Stop Event Walk}
    (known : info.header = headerAt env.memory dtb) :
    wp (walkStruct env dtb) Q info ↔
      wp (loop .exhausted (walkStep env dtb (blobEnd env.memory dtb)) env.fuel
        (walkStart env dtb)) Q info := by
  rw [walkStruct, wp_bind, wp_current, seqPost_ok, known]
  rfl

/-- **How a run of the parser ends.** -/
theorem parse_spec (env : Env) (outHwInfo dtb : UInt64) (prior : HardwareInfo) :
    ∃ o, BodyEnd env outHwInfo dtb prior o (parseDeviceTreeBlob env outHwInfo dtb prior).state ∧
      (parseDeviceTreeBlob env outHwInfo dtb prior).outcome = settle o := by
  refine (wp_iff (c := parseDeviceTreeBlob env outHwInfo dtb) (Q := fun o info' _ =>
    ∃ o', BodyEnd env outHwInfo dtb prior o' info' ∧ o = settle o')).mp ?_
  refine wp_functionBody (wp_mono (Q := fun o info' _ =>
    BodyEnd env outHwInfo dtb prior o info') ?_ fun o info' _ ending => ⟨o, ending, rfl⟩)
  rw [wp_bind, wp_iff]
  cases passed : (readPrologue env outHwInfo dtb prior).outcome with
  | error e => exact .prologue passed
  | ok _ =>
      rw [seqPost_ok, ← walkRecord, wp_bind, wp_walkStruct (walkRecord_header passed), wp_iff]
      obtain ⟨ts, ⟨s, info⟩, trail, ending⟩ := loop_cases Stop.exhausted
        (walkStep env dtb (blobEnd env.memory dtb))
        (headToken env.memory) env.fuel (walkStart env dtb)
        (walkRecord env outHwInfo dtb prior)
      have step := walkStep_post env dtb s info
      generalize (loop Stop.exhausted (walkStep env dtb (blobEnd env.memory dtb)) env.fuel
        (walkStart env dtb) (walkRecord env outHwInfo dtb prior)).outcome = o at ending ⊢
      generalize (loop Stop.exhausted (walkStep env dtb (blobEnd env.memory dtb)) env.fuel
        (walkStart env dtb) (walkRecord env outHwInfo dtb prior)).state = info' at ending ⊢
      cases ending with
      | failed less stop => exact .stopped ⟨passed, trail, less⟩ stop
      | exhausted eq => exact .exhausted passed trail eq
      | done less stop =>
          have head : WalkHead env outHwInfo dtb prior ts s info := ⟨passed, trail, less⟩
          dsimp only at stop ⊢
          rw [stop] at step
          generalize (walkStep env dtb (blobEnd env.memory dtb) s info).state = info'
            at step ⊢
          obtain ⟨rfl, rfl, le, short⟩ := step.1.done_inv
          rw [seqPost_ok]
          apply wp_mono finishWalk_spec
          intro o info' evs finished
          obtain ⟨rfl, post⟩ := finished
          rcases o with e | _
          · exact .unfinished head le short post.2 post.1
          · exact .finished head le short post.1 post.2

/-- A run that does not end normally has panicked, or is out of fuel. -/
theorem BodyEnd.error_inv {e : Stop} (ending : BodyEnd env outHwInfo dtb prior (.error e) info) :
    PanicStop env e ∨ e = .exhausted := by
  cases ending with
  | prologue failed =>
      have ending := wp_iff.mp (readPrologue_spec env outHwInfo dtb prior)
      rw [failed] at ending
      cases ending with
      | rejected _ stop => exact Or.inl stop
      | exhausted => exact Or.inr rfl
  | @stopped ts s info e head failed =>
      have post := (walkStep_post env dtb s info).1
      rw [failed] at post
      exact post.error_inv.imp_right And.left
  | exhausted => exact Or.inr rfl
  | unfinished _ _ _ _ stop => exact Or.inl stop

/-- A run that returns to a kernel whose panics halt has finished its walk. -/
theorem finished_of_returned (halts : env.panicReturns = false)
    (returned : (parseDeviceTreeBlob env outHwInfo dtb prior).outcome = .ok ()) :
    BodyEnd env outHwInfo dtb prior (.ok ())
      (parseDeviceTreeBlob env outHwInfo dtb prior).state := by
  obtain ⟨o, ending, outcome⟩ := parse_spec env outHwInfo dtb prior
  rw [returned, settle] at outcome
  cases o with
  | ok => exact ending
  | error e =>
      rcases ending.error_inv with stop | rfl
      · rw [stop.2 halts] at outcome
        cases outcome
      · cases outcome

/-- The last head of a run that returns to a kernel whose panics halt. -/
theorem exists_last_head (halts : env.panicReturns = false)
    (returned : (parseDeviceTreeBlob env outHwInfo dtb prior).outcome = .ok ()) :
    ∃ ts s, WalkHead env outHwInfo dtb prior ts s
        (parseDeviceTreeBlob env outHwInfo dtb prior).state ∧
      s.dtbCursor ≤ blobEnd env.memory dtb ∧
      (blobEnd env.memory dtb).toNat < s.dtbCursor.toNat + 4 ∧
      s.nodeDepth = 0 ∧ s.endTokensEncountered = 1 := by
  have ending := finished_of_returned halts returned
  generalize (parseDeviceTreeBlob env outHwInfo dtb prior).state = info at ending
  cases ending with
  | finished head le short depth one => exact ⟨_, _, head, le, short, depth, one⟩

/-! ## What a run emits -/

theorem emits_finishWalk : Emits PrologueEvent (finishWalk env s) :=
  .bind emits_check fun _ => .bind emits_check fun _ => .bind .current fun _ =>
    .bind (.emit .print) fun _ => .bind (.emit .printHexValue) fun _ =>
    .bind (.emit .print) fun _ => .bind (.emit .printHexValue) fun _ => .emit .print

/-- An event of a run comes from an iteration of the walk, unless the prologue or the
final checks emit events of its kind. -/
theorem mem_events_parse {e : Event}
    (member : e ∈ (parseDeviceTreeBlob env outHwInfo dtb prior).events) :
    PrologueEvent e ∨ ∃ ts s info, WalkHead env outHwInfo dtb prior ts s info ∧
      e ∈ (walkStep env dtb (blobEnd env.memory dtb) s info).events := by
  revert member
  refine (wp_iff (c := parseDeviceTreeBlob env outHwInfo dtb) (Q := fun _ _ evs => e ∈ evs →
    PrologueEvent e ∨ ∃ ts s info, WalkHead env outHwInfo dtb prior ts s info ∧
      e ∈ (walkStep env dtb (blobEnd env.memory dtb) s info).events)).mp ?_
  apply wp_functionBody
  rw [wp_bind, wp_iff]
  have before := emits_readPrologue env outHwInfo dtb prior
  cases passed : (readPrologue env outHwInfo dtb prior).outcome with
  | error _ => exact fun member => Or.inl (before e member)
  | ok _ =>
      rw [seqPost_ok, ← walkRecord, wp_bind, wp_walkStruct (walkRecord_header passed), wp_iff]
      have walk : e ∈ (loop Stop.exhausted (walkStep env dtb (blobEnd env.memory dtb)) env.fuel
            (walkStart env dtb) (walkRecord env outHwInfo dtb prior)).events →
          ∃ ts s info, WalkHead env outHwInfo dtb prior ts s info ∧
            e ∈ (walkStep env dtb (blobEnd env.memory dtb) s info).events := by
        intro member
        obtain ⟨ts, ⟨s, info⟩, trail, less, member⟩ :=
          (mem_events_loop (headToken env.memory)).mp member
        exact ⟨ts, s, info, ⟨passed, trail, less⟩, member⟩
      generalize (loop Stop.exhausted (walkStep env dtb (blobEnd env.memory dtb)) env.fuel
        (walkStart env dtb) (walkRecord env outHwInfo dtb prior)).outcome = o
      cases o with
      | error _ => exact fun member => (List.mem_append.mp member).imp (before e) walk
      | ok s =>
          rw [seqPost_ok]
          apply wp_mono (emits_iff.mp emits_finishWalk _)
          intro o info' evs finish member
          rcases List.mem_append.mp member with first | later
          · exact Or.inl (before e first)
          · exact (List.mem_append.mp later).symm.imp (finish e) walk

/-- A run emits what the iterations at its heads emit. -/
theorem WalkHead.mem_events {e : Event} (head : WalkHead env outHwInfo dtb prior ts s info)
    (member : e ∈ (walkStep env dtb (blobEnd env.memory dtb) s info).events) :
    e ∈ (parseDeviceTreeBlob env outHwInfo dtb prior).events := by
  refine (wp_iff (c := parseDeviceTreeBlob env outHwInfo dtb)
    (Q := fun _ _ evs => e ∈ evs)).mp ?_
  apply wp_functionBody
  rw [wp_bind, wp_iff, head.passed, seqPost_ok, ← walkRecord, wp_bind,
    wp_walkStruct (walkRecord_header head.passed), wp_iff]
  have walk : e ∈ (loop Stop.exhausted (walkStep env dtb (blobEnd env.memory dtb)) env.fuel
      (walkStart env dtb) (walkRecord env outHwInfo dtb prior)).events :=
    (mem_events_loop (headToken env.memory)).mpr ⟨ts, (s, info), head.trail, head.fuel, member⟩
  generalize (loop Stop.exhausted (walkStep env dtb (blobEnd env.memory dtb)) env.fuel
    (walkStart env dtb) (walkRecord env outHwInfo dtb prior)).outcome = o
  cases o with
  | error _ => exact List.mem_append_right _ walk
  | ok s' =>
      rw [seqPost_ok]
      exact List.mem_append_right _ (List.mem_append_left _ walk)

end Heads

end CharcoalOS
