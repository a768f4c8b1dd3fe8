import CharcoalOS.Hardware.Acceptance
import CharcoalOS.Hardware.Panics

/-!
# A panic that returns

Where `kernel_panic` returns, as it does in the unit tests, a run of the parser still ends
with its first panic, unless that panic is one of `physical_memory_regions`: the walk goes
on after it. `fail_stop_iff` says so exactly.
-/

namespace CharcoalOS

open Effect Effect.Program

/-- The event only marks a place in the run: it is no read, store, print or panic. -/
def Event.IsMark : Event → Prop
  | .compareDeviceType _ => True
  | .decodeRegions _ _ _ _ => True
  | _ => False

/-- Nothing is read, stored, printed or reported after the first panic. -/
def FailStop (evs : List Event) : Prop :=
  ∀ before message after, evs = before ++ .panic message :: after → ∀ e ∈ after, e.IsMark

/-- The iteration at the walk `s` after the tokens `ts` hands `physical_memory_regions` a `reg`
value that it does not accept. -/
def RejectsReg (mem : Memory) (dtb : UInt64) (ts : List Token) (s : Walk) : Prop :=
  ∃ p next q addressCells sizeCells, BlobToken mem dtb s.dtbCursor (.prop p) next ∧
    CellsFit mem (propertyName mem dtb p) p s ∧
    (contextAt mem dtb ts p).decodes mem = true ∧ (contextAt mem dtb ts p).reg = some q ∧
    (contextAt mem dtb ts p).addressCells = some addressCells ∧
    (contextAt mem dtb ts p).sizeCells = some sizeCells ∧
    ¬ AcceptedReg mem addressCells sizeCells q.data q.length.toUInt64

section Heads

variable {env : Env} {outHwInfo dtb : UInt64} {prior info : HardwareInfo} {ts : List Token}
  {s : Walk}

/-- What `parse_device_tree_blob` does up to its own `return`. -/
def parseBody (env : Env) (outHwInfo dtb : UInt64) : Discovery Unit := do
  readPrologue env outHwInfo dtb
  let s ← walkStruct env dtb
  finishWalk env s

theorem functionBody_events {body : Discovery Unit} :
    (functionBody body info).events = (body info).events := by
  have run : wp (functionBody body) (fun _ _ evs => evs = (body info).events) info :=
    wp_functionBody (wp_iff.mpr rfl)
  exact run

/-- The events of a run that passes the prologue: those of the prologue, then those of the
walk and the final checks. -/
theorem parse_events (passed : (readPrologue env outHwInfo dtb prior).outcome = .ok ()) :
    (parseDeviceTreeBlob env outHwInfo dtb prior).events =
      (readPrologue env outHwInfo dtb prior).events ++
        ((loop .exhausted (walkStep env dtb (blobEnd env.memory dtb)) env.fuel
          (walkStart env dtb) >>= finishWalk env) (walkRecord env outHwInfo dtb prior)).events := by
  have known := walkRecord_header passed
  have body : (parseDeviceTreeBlob env outHwInfo dtb prior).events =
      (parseBody env outHwInfo dtb prior).events := functionBody_events
  rw [body, parseBody]
  rcases run : readPrologue env outHwInfo dtb prior with ⟨o, info, evs⟩
  rw [run] at passed
  dsimp only at passed
  subst passed
  rw [walkRecord, run] at known ⊢
  rw [bind_ok run]
  have current : (current : Discovery HardwareInfo) info = ⟨.ok info, info, []⟩ := rfl
  have walk : walkStruct env dtb info = loop .exhausted (walkStep env dtb (blobEnd env.memory dtb))
      env.fuel (walkStart env dtb) info := by
    rw [walkStruct, bind_ok current, known]
    rfl
  show evs ++ _ = evs ++ _
  rw [bind_congr_left walk]

/-- A panic swallowed by an iteration is one of `physical_memory_regions`. -/
theorem WalkHead.rejects_of_panicked (head : WalkHead env outHwInfo dtb prior ts s info)
    {v : Control Walk Walk}
    (goesOn : (walkStep env dtb (blobEnd env.memory dtb) s info).outcome = .ok v)
    (panicked : Panicked (walkStep env dtb (blobEnd env.memory dtb) s info).events) :
    RejectsReg env.memory dtb ts s := by
  have stops : StopEnd (panicPolicy env) (RejectedCall env)
      (walkStep env dtb (blobEnd env.memory dtb) s info).outcome
      (walkStep env dtb (blobEnd env.memory dtb) s info).events := failStops_walkStep info
  rw [goesOn] at stops
  obtain ⟨e, member, addressCells, sizeCells, reg, regSize, rfl, rejected⟩ :=
    stops.swallows_of_ok fun silent => silent_iff.mp silent panicked
  obtain ⟨p, next, q, token, fits, complete, -, regEq, rfl, rfl, address, size⟩ :=
    head.decode_iff.mp member
  exact ⟨p, next, q, addressCells, sizeCells, token, fits, complete, regEq, address, size, rejected⟩

/-- Where panics return, an iteration with a rejected `reg` goes on after its panic. -/
theorem WalkHead.goesOn_of_rejects (head : WalkHead env outHwInfo dtb prior ts s info)
    (returns : env.panicReturns = true) (rejects : RejectsReg env.memory dtb ts s) :
    (∃ s', (walkStep env dtb (blobEnd env.memory dtb) s info).outcome = .ok (.next s')) ∧
      Panicked (walkStep env dtb (blobEnd env.memory dtb) s info).events := by
  obtain ⟨p, next, q, addressCells, sizeCells, token, fits, complete, regEq, address, size,
    rejected⟩ := rejects
  have models := head.modelsAt token
  have known : (contextAt env.memory dtb ts p).CellsKnown := by
    rw [Context.CellsKnown, address, size]
    exact ⟨rfl, rfl⟩
  have stops : StopEnd (panicPolicy env) (RejectedCall env)
      (walkStep env dtb (blobEnd env.memory dtb) s info).outcome
      (walkStep env dtb (blobEnd env.memory dtb) s info).events := failStops_walkStep info
  obtain ⟨o, evs, post, inner, outcome⟩ := step_prop head.header_eq token
  obtain ⟨addressValue, sizeValue, reg, regSize⟩ := models.values regEq address size
  have node : NodeEnd env (s.past env.memory dtb (.prop p) next)
      (info.withCells env.memory (propertyName env.memory dtb p) p s) (o.map fun _ => ())
      (walkStep env dtb (blobEnd env.memory dtb) s info).state evs := by
    have ending := post.ending
    generalize (walkStep env dtb (blobEnd env.memory dtb) s info).state = info' at ending ⊢
    cases ending with
    | malformed unfit => exact absurd fits unfit
    | stopped _ ending => exact ending
    | handled _ ending => exact ending
  have live : o ≠ .error .halted := by
    intro halted
    subst halted
    rw [outcome] at stops
    generalize (walkStep env dtb (blobEnd env.memory dtb) s info).events = evs' at stops
    cases stops with
    | quiet _ failure => exact nomatch failure _ rfl
    | alarmed _ final => exact nomatch (final.1.trans (if_pos returns))
    | swallowed _ _ _ _ failure => exact nomatch failure _ rfl
  generalize settled : (o.map fun _ => ()) = o',
    (walkStep env dtb (blobEnd env.memory dtb) s info).state = info' at node
  cases node with
  | skipped skip => exact absurd (models.decodes.mpr complete) skip
  | uninitialized _ bare =>
      rw [models.addressFlag, models.sizeFlag] at bare
      exact absurd known bare
  | regions _ _ ending =>
      rw [addressValue, sizeValue, reg, regSize] at ending
      cases ending with
      | decoded accepted => exact absurd accepted rejected
      | rejected _ _ panic result =>
          refine ⟨?_, _, inner _ panic⟩
          cases o with
          | ok s' => exact ⟨s', outcome⟩
          | error e =>
              subst settled
              rcases result with returned | halted
              · cases returned
              · cases halted
                exact absurd rfl live

/-! ## Where the run stops -/

/-- The last panic is the last event where panics return. -/
theorem failStop_of_alarmLast {evs : List Event} (returns : env.panicReturns = true)
    (last : AlarmLast (panicPolicy env) evs) : FailStop evs := by
  intro before message after eq
  rcases last with silent | ⟨quiet, e, last, silent, ⟨-, message', rfl⟩, events⟩
  · refine absurd ⟨message, ?_⟩ (silent_iff.mp silent)
    rw [eq]
    simp
  · rw [panicOutput, returns, if_pos rfl] at events
    rw [events] at eq
    -- the panic that `eq` names is the last event, since those before it are silent
    rcases List.eq_nil_or_concat after with rfl | ⟨init, e, rfl⟩
    · exact List.forall_mem_nil _
    · rw [List.concat_eq_append, ← List.cons_append, ← List.append_assoc] at eq
      obtain ⟨front, -⟩ := List.append_inj' eq rfl
      refine absurd ⟨message, rfl⟩ (silent (.panic message) ?_)
      rw [front]
      simp

/-- Where every `reg` value is accepted before the loop goes on, the walk and the final checks
stop at their first panic. -/
theorem walk_alarmLast (passed : (readPrologue env outHwInfo dtb prior).outcome = .ok ())
    (accepted : ∀ ts s info, WalkHead env outHwInfo dtb prior ts s info →
      ts.length + 1 < env.fuel → ¬ RejectsReg env.memory dtb ts s) :
    AlarmLast (panicPolicy env) ((loop .exhausted (walkStep env dtb (blobEnd env.memory dtb))
      env.fuel (walkStart env dtb) >>= finishWalk env)
        (walkRecord env outHwInfo dtb prior)).events := by
  have iteration : ∀ s, FailStopsBut (panicPolicy env) (RejectedCall env)
      (walkStep env dtb (blobEnd env.memory dtb) s) := fun _ => failStops_walkStep
  have quiet : (panicPolicy env).Quiet .exhausted := rfl
  have heeds := loop_heeds quiet (headToken env.memory) iteration env.fuel (walkStart env dtb)
    (walkRecord env outHwInfo dtb prior) ?_
  · obtain ⟨ending, quiet⟩ := heeds
    rcases run : loop .exhausted (walkStep env dtb (blobEnd env.memory dtb)) env.fuel
      (walkStart env dtb) (walkRecord env outHwInfo dtb prior) with ⟨o, info, evs⟩
    rw [run] at ending quiet
    cases o with
    | error e =>
        rw [bind_error run]
        exact ending.alarmLast
    | ok s =>
        rw [bind_ok run]
        exact ((failStops_finishWalk info).after (quiet ⟨s, rfl⟩)).alarmLast
  · intro ts c v trail goesOn more
    obtain ⟨s, info⟩ := c
    refine silent_iff.mpr fun panicked => ?_
    rcases more with less | ⟨w, rfl⟩
    · have head : WalkHead env outHwInfo dtb prior ts s info := ⟨passed, trail, by omega⟩
      exact accepted ts s info head less (head.rejects_of_panicked goesOn panicked)
    · have post := (walkStep_post env dtb s info).1
      dsimp only at goesOn panicked
      rw [goesOn] at post
      obtain ⟨-, -, le, short⟩ := post.done_inv
      have tail : (walkStep env dtb (blobEnd env.memory dtb) s info).events = [] :=
        (walkStep_tail le (by rw [sub_lt_iff le]; exact short)).2
      rw [tail] at panicked
      exact not_panicked_nil panicked

/-- An iteration that does not end the walk emits more than marks. -/
theorem walkStep_speaks (env : Env) (dtb limit : UInt64) (s : Walk) (info : HardwareInfo) :
    wp (walkStep env dtb limit s)
      (fun o _ evs => (∃ e ∈ evs, ¬ e.IsMark) ∨ o = .ok (.done s)) info := by
  rw [walkStep, wp_bind]
  refine wp_panicIf (fun _ e evs panics => Or.inl ⟨_, panics.panic_mem, not_false⟩) (fun _ => ?_)
  rw [seqPost_ok, wp_ite]
  split
  · exact Or.inr rfl
  · rw [wp_bind, wp_readBe32FromAddress, seqPost_ok, wp_iff]
    exact Or.inl ⟨.read ((structPointer s.dtbCursor).offset 0), List.mem_cons_self, not_false⟩

theorem finishWalk_speaks (env : Env) (s : Walk) (info : HardwareInfo) :
    wp (finishWalk env s) (fun _ _ evs => ∃ e ∈ evs, ¬ e.IsMark) info := by
  rw [finishWalk, wp_bind]
  refine wp_panicIf (fun _ e evs panics => ⟨_, panics.panic_mem, not_false⟩) (fun _ => ?_)
  rw [seqPost_ok, wp_bind]
  refine wp_panicIf (fun _ e evs panics => ⟨_, panics.panic_mem, not_false⟩) (fun _ => ?_)
  simp only [seqPost_ok, wp_bind, wp_current, wp_consolePrint, wp_consolePrintHexValue]
  exact ⟨.print "Memory addresses are 0x", by simp, not_false⟩

/-- Whatever the walk finds at its next head, it emits more than marks. -/
theorem rest_speaks (env : Env) (dtb : UInt64) (fuel : Nat) (s : Walk) (info : HardwareInfo) :
    ∃ e ∈ ((loop .exhausted (walkStep env dtb (blobEnd env.memory dtb)) (fuel + 1) s >>=
      finishWalk env) info).events, ¬ e.IsMark := by
  have speaks := wp_iff.mp (walkStep_speaks env dtb (blobEnd env.memory dtb) s info)
  rw [loop, bind_assoc]
  rcases speaks with ⟨e, member, speaks⟩ | done
  · exact ⟨e, mem_events_bind _ member, speaks⟩
  · rcases run : walkStep env dtb (blobEnd env.memory dtb) s info with ⟨o, info', evs⟩
    rw [run] at done
    dsimp only at done
    subst done
    obtain ⟨e, member, speaks⟩ := wp_iff.mp (finishWalk_speaks env s info')
    rw [bind_ok run]
    exact ⟨e, List.mem_append_right _ member, speaks⟩

/-- A panic that the walk goes on past is followed by more than marks. -/
theorem not_failStop (returns : env.panicReturns = true)
    (head : WalkHead env outHwInfo dtb prior ts s info) (less : ts.length + 1 < env.fuel)
    (rejects : RejectsReg env.memory dtb ts s) :
    ¬ FailStop (parseDeviceTreeBlob env outHwInfo dtb prior).events := by
  intro stop
  obtain ⟨⟨s', goesOn⟩, message, panic⟩ := head.goesOn_of_rejects returns rejects
  obtain ⟨fuel, enough⟩ : ∃ fuel, env.fuel = ts.length + (fuel + 1 + 1) :=
    ⟨env.fuel - ts.length - 2, by omega⟩
  obtain ⟨before, events⟩ := loop_bind_of_trail Stop.exhausted head.trail (fuel + 1 + 1)
    (finishWalk env)
  rcases run : walkStep env dtb (blobEnd env.memory dtb) s info with ⟨o, info', evs⟩
  rw [run] at goesOn panic
  dsimp only at goesOn panic
  subst goesOn
  obtain ⟨left, right, rfl⟩ := List.append_of_mem panic
  obtain ⟨e, member, speaks⟩ := rest_speaks env dtb fuel s' info'
  have whole : (parseDeviceTreeBlob env outHwInfo dtb prior).events =
      ((readPrologue env outHwInfo dtb prior).events ++ (before ++ left)) ++ .panic message ::
        (right ++ ((loop .exhausted (walkStep env dtb (blobEnd env.memory dtb)) (fuel + 1) s' >>=
          finishWalk env) info').events) := by
    rw [parse_events head.passed, enough, events, loop, bind_assoc, bind_ok run]
    simp only [List.append_assoc, List.cons_append]
  exact speaks (stop _ message _ whole e (List.mem_append_right right member))

/-- **A run stops at its first panic, exactly where the walk never goes on past a `reg` value
that `physical_memory_regions` rejects.** -/
theorem fail_stop_iff (env : Env) (outHwInfo dtb : UInt64) (prior : HardwareInfo)
    (returns : env.panicReturns = true) :
    FailStop (parseDeviceTreeBlob env outHwInfo dtb prior).events ↔
      ∀ ts s info, WalkHead env outHwInfo dtb prior ts s info → ts.length + 1 < env.fuel →
        ¬ RejectsReg env.memory dtb ts s := by
  constructor
  · intro stop ts s info head less rejects
    exact not_failStop returns head less rejects stop
  · intro accepted
    refine failStop_of_alarmLast returns ?_
    have stops : FailStops (panicPolicy env) (readPrologue env outHwInfo dtb) :=
      failStops_readPrologue
    have prologue := stops prior
    cases passed : (readPrologue env outHwInfo dtb prior).outcome with
    | ok _ =>
        rw [parse_events passed]
        rw [passed] at prologue
        exact (walk_alarmLast passed accepted).after prologue.silent_of_ok
    | error e =>
        have body : (parseDeviceTreeBlob env outHwInfo dtb prior).events =
            (parseBody env outHwInfo dtb prior).events := functionBody_events
        rcases run : readPrologue env outHwInfo dtb prior with ⟨o, info, evs⟩
        rw [run] at passed prologue
        dsimp only at passed
        subst passed
        rw [body, parseBody, bind_error run]
        exact prologue.alarmLast

/-- The walk over an accepted blob never meets a `reg` value that is rejected. -/
theorem WalkHead.not_rejectsReg {us : List Token}
    (head : WalkHead env outHwInfo dtb prior ts s info)
    (accepted : AcceptedTokens env.memory dtb us) : ¬ RejectsReg env.memory dtb ts s := by
  rintro ⟨p, next, q, addressCells, sizeCells, token, -, decodes, reg, address, size, rejected⟩
  obtain ⟨vs, split⟩ := head.tokens_eq accepted.tokens token
  have decodable := (accepted.properties ts p vs split).decodable decodes
  exact rejected (decodable.reg q addressCells sizeCells reg address size)

/-- The unit tests' kernel, whose panics return, on a blob that has one memory node: no `reg`
is rejected, so a run stops at its first panic. -/
theorem fail_stop_memoryBlob :
    (∀ ts s info, WalkHead { memoryBlob.env with panicReturns := true } 1 Blob.address .zero ts s
        info → ¬ RejectsReg memoryBlob.env.memory Blob.address ts s) ∧
      FailStop (parseDeviceTreeBlob { memoryBlob.env with panicReturns := true } 1 Blob.address
        .zero).events := by
  have tokens := blobTokens_walkTokens rfl memoryBlob_returned
  have accepted := acceptedTokens_of_returned rfl memoryBlob_returned tokens
  refine ⟨fun ts s info head => head.not_rejectsReg accepted, ?_⟩
  exact (fail_stop_iff { memoryBlob.env with panicReturns := true } 1 Blob.address .zero rfl).mpr
    fun ts s info head _ => head.not_rejectsReg accepted

/-- A root with a memory node whose one region is empty. -/
def emptyRegionBlob : Blob where
  structBlock := Blob.beginNode "" ++ narrowCells ++ memoryNode 0x40000000 0 ++ Blob.endNode ++
    Blob.fdtEnd
  stringsBlock := savedNames

theorem FailStop.mark_of_later {evs : List Event} (stop : FailStop evs) {message : String}
    {i j : Nat} {e : Event} (panic : evs[i]? = some (.panic message)) (later : i < j)
    (event : evs[j]? = some e) : e.IsMark := by
  obtain ⟨inside, at_i⟩ := List.getElem?_eq_some_iff.mp panic
  have split : evs = evs.take i ++ .panic message :: evs.drop (i + 1) := by
    rw [← at_i, ← List.drop_eq_getElem_cons inside, List.take_append_drop]
  refine stop _ message _ split e (List.mem_of_getElem? (i := j - (i + 1)) ?_)
  rw [List.getElem?_drop, ← event]
  congr 1
  omega

/-- The parser goes on after the panic over that region, and reads the next token. -/
theorem panic_not_final :
    ¬ FailStop (parseDeviceTreeBlob { emptyRegionBlob.env with panicReturns := true } 1
      Blob.address .zero).events := by
  intro stop
  have panic : (parseDeviceTreeBlob { emptyRegionBlob.env with panicReturns := true } 1
      Blob.address .zero).events[249]? =
        some (.panic "Physical memory region reported with zero size") := by decide +kernel
  have read : (parseDeviceTreeBlob { emptyRegionBlob.env with panicReturns := true } 1
      Blob.address .zero).events[250]? = some (.read (structPointer 4244)) := by decide +kernel
  exact stop.mark_of_later panic (by decide) read

end Heads

end CharcoalOS
