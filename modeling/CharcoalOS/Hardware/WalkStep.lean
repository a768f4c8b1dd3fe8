import CharcoalOS.Hardware.Properties

/-!
# One iteration of the walk

`walkStep_spec` is the inversion of the loop body of `parse_device_tree_blob`:
`StepEnd` lists every way an iteration can end, in terms of the token that stands at
the cursor, and `StepEvent` everything it can read and emit.
`Continues.tokenStep` restates the case in which the walk goes on.
-/

namespace CharcoalOS

open Effect Effect.Program

/-- The name of a property, as the walk recognises it. -/
def kindOf (mem : Memory) (dtb : UInt64) (header : DTBHeader) (p : Property) : PropertyName :=
  nameOf mem (propName dtb header p.nameOffset)

/-- The walk past the token `t`, with the cursor at the next one. -/
def Walk.afterToken (mem : Memory) (dtb : UInt64) (header : DTBHeader) (t : Token)
    (next : UInt64) (s : Walk) : Walk :=
  match t with
  | .beginNode name =>
      { s with
        nodeDepth := s.nodeDepth + 1
        nodeName := .pointer (structPointer name)
        currentNodeDeviceType := .pointer .null
        currentNodeReg := .null
        dtbCursor := next }
  | .endNode => { s with nodeDepth := s.nodeDepth - 1, dtbCursor := next }
  | .prop p => { s with dtbCursor := next }.withProperty mem (kindOf mem dtb header p) p
  | .nop => { s with dtbCursor := next }
  | .fdtEnd =>
      { s with endTokensEncountered := s.endTokensEncountered + 1, dtbCursor := next }

@[simp] theorem Walk.dtbCursor_afterToken {mem : Memory} {dtb next : UInt64}
    {header : DTBHeader} {t : Token} {s : Walk} :
    (s.afterToken mem dtb header t next).dtbCursor = next := by
  cases t with
  | prop p => exact Walk.dtbCursor_withProperty
  | beginNode name => rfl
  | endNode => rfl
  | nop => rfl
  | fdtEnd => rfl

/-- How an iteration at the walk `s` ends; `limit` is the end of the struct block. -/
inductive StepEnd (env : Env) (dtb limit : UInt64) (s : Walk) (info : HardwareInfo) :
    Except Stop (Control Walk Walk) → HardwareInfo → List Event → Prop
  | outOfBounds {e : Stop} {evs : List Event} : limit < s.dtbCursor → PanicStop env e →
    StepEnd env dtb limit s info (.error e) info evs
  | tail {evs : List Event} : s.dtbCursor ≤ limit → limit.toNat < s.dtbCursor.toNat + 4 →
    StepEnd env dtb limit s info (.ok (.done s)) info evs
  | malformed {e : Stop} {evs : List Event} : s.dtbCursor.toNat + 4 ≤ limit.toNat →
    (∀ t next, ¬ TokenAt env.memory limit info.header.sizeDtStrings s.dtbCursor t next) →
    PanicStop env e → StepEnd env dtb limit s info (.error e) info evs
  | exhausted {evs : List Event} : s.dtbCursor.toNat + 4 ≤ limit.toNat →
    be32 env.memory s.dtbCursor = fdtBeginNode →
    env.fuel ≤ limit.toNat - (s.dtbCursor.toNat + 4) →
    StepEnd env dtb limit s info (.error .exhausted) info evs
  | unmatched {next : UInt64} {e : Stop} {evs : List Event} :
    TokenAt env.memory limit info.header.sizeDtStrings s.dtbCursor .endNode next →
    s.nodeDepth = 0 → PanicStop env e → StepEnd env dtb limit s info (.error e) info evs
  | moved {t : Token} {next : UInt64} {evs : List Event} :
    TokenAt env.memory limit info.header.sizeDtStrings s.dtbCursor t next →
    (∀ p, t ≠ .prop p) → (t = .endNode → s.nodeDepth ≠ 0) →
    StepEnd env dtb limit s info
      (.ok (.next (s.afterToken env.memory dtb info.header t next))) info evs
  | prop {p : Property} {next : UInt64} {o : Except Stop Walk} {info' : HardwareInfo}
    {evs evs' : List Event} :
    TokenAt env.memory limit info.header.sizeDtStrings s.dtbCursor (.prop p) next →
    HandlePost env (propName dtb info.header p.nameOffset) p { s with dtbCursor := next } info
      o info' evs' →
    (∀ e ∈ evs', e ∈ evs) → StepEnd env dtb limit s info (o.map .next) info' evs

/-- What an iteration emits. -/
inductive StepEvent (mem : Memory) (dtb limit : UInt64) (s : Walk) (info : HardwareInfo) :
    Event → Prop
  | cursor {e : Event} : CursorEvent s.dtbCursor limit e → StepEvent mem dtb limit s info e
  | handle {p : Property} {next : UInt64} {e : Event} :
    TokenAt mem limit info.header.sizeDtStrings s.dtbCursor (.prop p) next →
    HandleEvent mem (propName dtb info.header p.nameOffset) p { s with dtbCursor := next } info
      e →
    StepEvent mem dtb limit s info e

/-- What `walkStep` does. -/
def StepPost (env : Env) (dtb limit : UInt64) (s : Walk) (info : HardwareInfo) :
    Post HardwareInfo Stop Event (Control Walk Walk) :=
  fun o info' evs =>
    StepEnd env dtb limit s info o info' evs ∧
      ∀ e ∈ evs, StepEvent env.memory dtb limit s info e

section Step

variable {env : Env} {info : HardwareInfo} {dtb limit : UInt64} {s : Walk}

theorem StepEnd.mono {o : Except Stop (Control Walk Walk)} {info' : HardwareInfo}
    {evs evs' : List Event} (ending : StepEnd env dtb limit s info o info' evs)
    (sub : ∀ e ∈ evs, e ∈ evs') : StepEnd env dtb limit s info o info' evs' := by
  cases ending with
  | outOfBounds past stop => exact .outOfBounds past stop
  | tail le short => exact .tail le short
  | malformed room none stop => exact .malformed room none stop
  | exhausted room kind out => exact .exhausted room kind out
  | unmatched token depth stop => exact .unmatched token depth stop
  | moved token other depth => exact .moved token other depth
  | prop token post inner => exact .prop token post fun e member => sub e (inner e member)

theorem propertyAt_add_four {mem : Memory} {a : UInt64} :
    propertyAt mem (a + 4) = ⟨be32 mem (a + 4), be32 mem (a + 8), a + 12⟩ := by
  simp only [propertyAt, UInt64.add_assoc, UInt64.reduceAdd]

/-- The property token at `a` is complete if its metadata is fitting. -/
theorem tokenAt_prop_iff {mem : Memory} {sizeDtStrings : UInt32} {a : UInt64}
    (kind : be32 mem a = fdtProp) (room : a.toNat + 4 ≤ limit.toNat) :
    PropertyFits mem limit sizeDtStrings (a + 4) ↔
      ∃ p next, TokenAt mem limit sizeDtStrings a (.prop p) next := by
  have four : (a + 4).toNat = a.toNat + 4 := toNat_add_of_room limit room
  constructor
  · intro fits
    obtain ⟨bytes, padded, named⟩ := fits
    rw [four, Nat.add_assoc _ 4 8] at bytes
    exact ⟨_, _, .prop bytes kind propertyAt_add_four padded named⟩
  · intro parsed
    obtain ⟨p, next, token⟩ := parsed
    cases token with
    | prop bytes _ eq padded named =>
        rw [← propertyAt_add_four] at eq
        subst eq
        exact ⟨by rw [four]; exact bytes, padded, named⟩

/-- What handling the token at the cursor does, once its four bytes have been read. -/
def TokenPost (env : Env) (dtb limit : UInt64) (s : Walk) (info : HardwareInfo) :
    Post HardwareInfo Stop Event Walk :=
  fun o info' evs => StepPost env dtb limit s info (o.map .next) info' evs

theorem room_past_token (room : s.dtbCursor.toNat + 4 ≤ limit.toNat) :
    (s.dtbCursor + 4).toNat = s.dtbCursor.toNat + 4 ∧ s.dtbCursor + 4 ≤ limit := by
  have four : (s.dtbCursor + 4).toNat = s.dtbCursor.toNat + 4 :=
    toNat_add_of_room limit room
  rw [UInt64.le_iff_toNat_le, four]
  exact ⟨rfl, room⟩

/-- Past its first four bytes a token emits what it emits through the cursor. -/
theorem stepEvent_past {mem : Memory} {evs : List Event}
    (room : s.dtbCursor.toNat + 4 ≤ limit.toNat)
    (events : ∀ e ∈ evs, CursorEvent (s.dtbCursor + 4) limit e) :
    ∀ e ∈ evs, StepEvent mem dtb limit s info e := by
  intro e member
  refine .cursor ((events e member).mono ?_)
  rw [UInt64.le_iff_toNat_le, (room_past_token room).1]
  omega

theorem handleToken_beginNode (room : s.dtbCursor.toNat + 4 ≤ limit.toNat)
    (kind : be32 env.memory s.dtbCursor = fdtBeginNode) :
    wp (handleToken env dtb limit s (be32 env.memory s.dtbCursor) (s.dtbCursor + 4))
      (TokenPost env dtb limit s info) info := by
  obtain ⟨four, le⟩ := room_past_token room
  rw [handleToken, wp_ite, if_pos kind, wp_bind]
  apply wp_mono (skipNodeName_spec le)
  intro o info' evs post
  obtain ⟨ending, rfl, events⟩ := post
  cases ending with
  | named nul inside =>
      rw [seqPost_ok, wp_pure, List.append_nil]
      exact ⟨.moved (.beginNode room kind nul inside) (by simp) (by simp),
        stepEvent_past room events⟩
  | malformed none stop =>
      refine ⟨.malformed room (fun t next token => ?_) stop, stepEvent_past room events⟩
      have same := token.code_eq.symm.trans kind
      cases token with
      | beginNode _ _ nul inside => exact none _ nul inside
      | _ => exact absurd same (by simp only [Token.code]; decide)
  | exhausted out =>
      exact ⟨.exhausted room kind (by rwa [four] at out), stepEvent_past room events⟩

theorem handleToken_endNode (room : s.dtbCursor.toNat + 4 ≤ limit.toNat)
    (kind : be32 env.memory s.dtbCursor = fdtEndNode) :
    wp (handleToken env dtb limit s (be32 env.memory s.dtbCursor) (s.dtbCursor + 4))
      (TokenPost env dtb limit s info) info := by
  have token : TokenAt env.memory limit info.header.sizeDtStrings s.dtbCursor .endNode
      (s.dtbCursor + 4) := .endNode room kind
  rw [handleToken, kind, wp_ite, if_neg (by decide), wp_ite, if_pos rfl, wp_bind]
  apply wp_panicIf
  · intro zero e evs panics
    exact ⟨.unmatched token zero panics.panicStop,
      stepEvent_past room (cursorEvent_of_panics panics)⟩
  · intro nonzero
    rw [seqPost_ok, wp_pure]
    exact ⟨.moved token (by simp) (fun _ => nonzero), List.forall_mem_nil _⟩

theorem handleToken_prop (room : s.dtbCursor.toNat + 4 ≤ limit.toNat)
    (kind : be32 env.memory s.dtbCursor = fdtProp) :
    wp (handleToken env dtb limit s (be32 env.memory s.dtbCursor) (s.dtbCursor + 4))
      (TokenPost env dtb limit s info) info := by
  obtain ⟨four, le⟩ := room_past_token room
  rw [handleToken, kind, wp_ite, if_neg (by decide), wp_ite, if_neg (by decide), wp_ite,
    if_pos rfl, wp_bind]
  apply wp_mono (readProperty_spec le)
  intro o info' evs post
  obtain ⟨ending, rfl, events⟩ := post
  cases ending with
  | malformed unfit stop =>
      refine ⟨.malformed room (fun t next token => unfit ?_) stop, stepEvent_past room events⟩
      have same := token.code_eq.symm.trans kind
      cases t with
      | prop p => exact (tokenAt_prop_iff kind room).mpr ⟨p, next, token⟩
      | _ => exact absurd same (by simp only [Token.code]; decide)
  | read fits =>
      obtain ⟨bytes, padded, named⟩ := fits
      rw [four, Nat.add_assoc _ 4 8] at bytes
      have token := TokenAt.prop bytes kind propertyAt_add_four padded named
      rw [seqPost_ok]
      apply wp_mono handleProperty_spec
      intro o info₁ evs₁ post
      refine ⟨.prop token post fun e => List.mem_append_right evs, fun e member => ?_⟩
      rcases List.mem_append.mp member with cursor | later
      · exact stepEvent_past room events e cursor
      · exact .handle token (post.events e later)

theorem handleToken_nop (room : s.dtbCursor.toNat + 4 ≤ limit.toNat)
    (kind : be32 env.memory s.dtbCursor = fdtNop) :
    wp (handleToken env dtb limit s (be32 env.memory s.dtbCursor) (s.dtbCursor + 4))
      (TokenPost env dtb limit s info) info := by
  rw [handleToken, kind, wp_ite, if_neg (by decide), wp_ite, if_neg (by decide), wp_ite,
    if_neg (by decide), wp_ite, if_pos rfl, wp_pure]
  exact ⟨.moved (.nop room kind) (by simp) (by simp), List.forall_mem_nil _⟩

theorem handleToken_fdtEnd (room : s.dtbCursor.toNat + 4 ≤ limit.toNat)
    (kind : be32 env.memory s.dtbCursor = fdtEnd) :
    wp (handleToken env dtb limit s (be32 env.memory s.dtbCursor) (s.dtbCursor + 4))
      (TokenPost env dtb limit s info) info := by
  rw [handleToken, kind, wp_ite, if_neg (by decide), wp_ite, if_neg (by decide), wp_ite,
    if_neg (by decide), wp_ite, if_neg (by decide), wp_ite, if_pos rfl, wp_pure]
  exact ⟨.moved (.fdtEnd room kind) (by simp) (by simp), List.forall_mem_nil _⟩

theorem handleToken_unrecognized (room : s.dtbCursor.toNat + 4 ≤ limit.toNat)
    (other : ∀ t : Token, be32 env.memory s.dtbCursor ≠ t.code) :
    wp (handleToken env dtb limit s (be32 env.memory s.dtbCursor) (s.dtbCursor + 4))
      (TokenPost env dtb limit s info) info := by
  have notBegin : be32 env.memory s.dtbCursor ≠ fdtBeginNode := other (.beginNode 0)
  have notEndNode : be32 env.memory s.dtbCursor ≠ fdtEndNode := other .endNode
  have notProp : be32 env.memory s.dtbCursor ≠ fdtProp := other (.prop ⟨0, 0, 0⟩)
  have notNop : be32 env.memory s.dtbCursor ≠ fdtNop := other .nop
  have notEnd : be32 env.memory s.dtbCursor ≠ fdtEnd := other .fdtEnd
  rw [handleToken, wp_ite, if_neg notBegin, wp_ite, if_neg notEndNode, wp_ite, if_neg notProp,
    wp_ite, if_neg notNop, wp_ite, if_neg notEnd]
  apply wp_mono (panicReturn_spec _)
  intro o info' evs post
  obtain ⟨e, rfl, rfl, panics⟩ := post
  exact ⟨.malformed room (fun t _ token => other t token.code_eq) panics.panicStop,
    stepEvent_past room (cursorEvent_of_panics panics)⟩

theorem handleToken_spec (room : s.dtbCursor.toNat + 4 ≤ limit.toNat) :
    wp (handleToken env dtb limit s (be32 env.memory s.dtbCursor) (s.dtbCursor + 4))
      (TokenPost env dtb limit s info) info := by
  by_cases known : ∃ t : Token, be32 env.memory s.dtbCursor = t.code
  · rcases known with ⟨t, kind⟩
    cases t with
    | beginNode => exact handleToken_beginNode room kind
    | endNode => exact handleToken_endNode room kind
    | prop => exact handleToken_prop room kind
    | nop => exact handleToken_nop room kind
    | fdtEnd => exact handleToken_fdtEnd room kind
  · exact handleToken_unrecognized room fun t kind => known ⟨t, kind⟩

theorem walkStep_spec : wp (walkStep env dtb limit s) (StepPost env dtb limit s info) info := by
  rw [walkStep, wp_bind]
  refine wp_panicIf (fun past e evs panics => ?_) (fun inside => ?_)
  · exact ⟨.outOfBounds past panics.panicStop, fun event member =>
      .cursor (cursorEvent_of_panics panics event member)⟩
  have le : s.dtbCursor ≤ limit := UInt64.not_lt.mp inside
  rw [seqPost_ok, wp_ite]
  split
  · rename_i short
    rw [sub_lt_iff le] at short
    exact ⟨.tail le short, List.forall_mem_nil _⟩
  rename_i enough
  have room : s.dtbCursor.toNat + 4 ≤ limit.toNat := by
    rw [sub_lt_iff le] at enough
    exact Nat.not_lt.mp enough
  have tokenReads : ∀ e ∈ byteReads (structPointer s.dtbCursor) 4,
      StepEvent env.memory dtb limit s info e := fun e member =>
    .cursor (cursorEvent_of_byteReads room e member)
  rw [wp_bind, wp_readBe32FromAddress, seqPost_ok, wp_bind]
  refine wp_panicIf (fun past e evs panics => ?_) (fun _ => ?_)
  · have four : (s.dtbCursor + 4).toNat = s.dtbCursor.toNat + 4 :=
      toNat_add_of_room limit room
    rw [gt_iff_lt, UInt64.lt_iff_toNat_lt] at past
    omega
  rw [seqPost_ok, wp_bind]
  apply wp_mono (handleToken_spec room)
  intro o info' evs post
  obtain ⟨ending, events⟩ := post
  have whole : ∀ e ∈ byteReads (structPointer s.dtbCursor) 4 ++ evs,
      StepEvent env.memory dtb limit s info e := fun e member =>
    (List.mem_append.mp member).elim (tokenReads e) (events e)
  cases o with
  | error e => exact ⟨ending.mono fun e => List.mem_append_right _, whole⟩
  | ok s' =>
      rw [seqPost_ok, wp_pure, List.append_nil]
      exact ⟨ending.mono fun e => List.mem_append_right _, whole⟩

end Step

end CharcoalOS
