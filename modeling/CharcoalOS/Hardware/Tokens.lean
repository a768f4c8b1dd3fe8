import CharcoalOS.Hardware.DeviceTree

/-!
# The token grammar of the struct block

`TokenAt` says which token stands at an address of the struct block and where the
next one starts: the grammar of the flattened device tree, with every byte of the
token and its padding inside the block. `skipNodeName_spec` and
`readProperty_spec` show that the cursor moves of `parse_device_tree_blob` are
exactly these, and that they read no byte outside the block.
-/

namespace CharcoalOS

open Effect Effect.Program

/-- A token of the struct block. A node carries the address of its name. -/
inductive Token : Type
  | beginNode (name : UInt64)
  | endNode
  | prop (p : Property)
  | nop
  | fdtEnd
deriving DecidableEq, Repr

/-- The 32-bit integer a token starts with. -/
def Token.code : Token → UInt32
  | .beginNode _ => fdtBeginNode
  | .endNode => fdtEndNode
  | .prop _ => fdtProp
  | .nop => fdtNop
  | .fdtEnd => CharcoalOS.fdtEnd

/-- The next address that is a multiple of 4; wraps at 2^64. -/
def align4 (a : UInt64) : UInt64 := UInt64.ofNat ((a.toNat + 3) / 4 * 4)

/-- The first NUL at or after `a`, before `limit`, is at `z`. -/
structure NulAt (mem : Memory) (limit a z : UInt64) : Prop where
  le : a ≤ z
  lt : z < limit
  nul : mem z = 0
  first : ∀ y, a ≤ y → y < z → mem y ≠ 0

/-- The token at `a`, and the address of the next one. -/
inductive TokenAt (mem : Memory) (limit : UInt64) (sizeDtStrings : UInt32) (a : UInt64) :
    Token → UInt64 → Prop
  | beginNode {z : UInt64} :
    a.toNat + 4 ≤ limit.toNat → be32 mem a = fdtBeginNode → NulAt mem limit (a + 4) z →
    align4 (z + 1) ≤ limit →
    TokenAt mem limit sizeDtStrings a (.beginNode (a + 4)) (align4 (z + 1))
  | endNode :
    a.toNat + 4 ≤ limit.toNat → be32 mem a = fdtEndNode →
    TokenAt mem limit sizeDtStrings a .endNode (a + 4)
  | prop {p : Property} :
    a.toNat + 12 + p.length.toNat ≤ limit.toNat → be32 mem a = fdtProp →
    p = ⟨be32 mem (a + 4), be32 mem (a + 8), a + 12⟩ →
    align4 (p.data + p.length.toUInt64) ≤ limit → p.nameOffset < sizeDtStrings →
    TokenAt mem limit sizeDtStrings a (.prop p) (align4 (p.data + p.length.toUInt64))
  | nop :
    a.toNat + 4 ≤ limit.toNat → be32 mem a = fdtNop →
    TokenAt mem limit sizeDtStrings a .nop (a + 4)
  | fdtEnd :
    a.toNat + 4 ≤ limit.toNat → be32 mem a = CharcoalOS.fdtEnd →
    TokenAt mem limit sizeDtStrings a .fdtEnd limit

/-- `ts` are the tokens from `a` on, up to the first `FDT_END`. -/
inductive Tokens (mem : Memory) (limit : UInt64) (sizeDtStrings : UInt32) :
    UInt64 → List Token → Prop
  | fdtEnd {a b : UInt64} :
    TokenAt mem limit sizeDtStrings a .fdtEnd b →
    Tokens mem limit sizeDtStrings a [.fdtEnd]
  | cons {a b : UInt64} {t : Token} {ts : List Token} :
    TokenAt mem limit sizeDtStrings a t b → t ≠ .fdtEnd →
    Tokens mem limit sizeDtStrings b ts →
    Tokens mem limit sizeDtStrings a (t :: ts)

/-- The token that starts at `a`, read off its first bytes. -/
def tokenOf (mem : Memory) (a : UInt64) : Token :=
  if be32 mem a = fdtBeginNode then .beginNode (a + 4)
  else if be32 mem a = fdtEndNode then .endNode
  else if be32 mem a = fdtProp then .prop ⟨be32 mem (a + 4), be32 mem (a + 8), a + 12⟩
  else if be32 mem a = fdtNop then .nop
  else .fdtEnd

section Grammar

variable {mem : Memory} {limit a b c z z' : UInt64} {sizeDtStrings : UInt32} {t u : Token}
  {ts us : List Token}

theorem NulAt.unique (left : NulAt mem limit a z) (right : NulAt mem limit a z') : z = z' := by
  rcases Nat.lt_trichotomy z.toNat z'.toNat with less | eq | more
  · exact absurd left.nul (right.first z left.le (UInt64.lt_iff_toNat_lt.mpr less))
  · exact UInt64.toNat_inj.mp eq
  · exact absurd right.nul (left.first z' right.le (UInt64.lt_iff_toNat_lt.mpr more))

theorem TokenAt.code_eq (token : TokenAt mem limit sizeDtStrings a t b) :
    be32 mem a = t.code := by
  cases token with
  | beginNode _ kind => exact kind
  | endNode _ kind => exact kind
  | prop _ kind => exact kind
  | nop _ kind => exact kind
  | fdtEnd _ kind => exact kind

theorem TokenAt.tokenOf_eq (token : TokenAt mem limit sizeDtStrings a t b) :
    tokenOf mem a = t := by
  have code := token.code_eq
  cases token with
  | beginNode => simp [tokenOf, code, Token.code]
  | endNode => simp [tokenOf, code, Token.code, fdtBeginNode, fdtEndNode]
  | prop _ _ eq =>
      simp [tokenOf, code, Token.code, eq, fdtBeginNode, fdtEndNode, fdtProp]
  | nop => simp [tokenOf, code, Token.code, fdtBeginNode, fdtEndNode, fdtProp, fdtNop]
  | fdtEnd =>
      simp [tokenOf, code, Token.code, fdtBeginNode, fdtEndNode, fdtProp, fdtNop,
        CharcoalOS.fdtEnd]

/-- The grammar is unambiguous. -/
theorem TokenAt.unique (left : TokenAt mem limit sizeDtStrings a t b)
    (right : TokenAt mem limit sizeDtStrings a u c) : t = u ∧ b = c := by
  have same : t = u := left.tokenOf_eq.symm.trans right.tokenOf_eq
  subst same
  refine ⟨rfl, ?_⟩
  cases left with
  | beginNode _ _ nul =>
      cases right with
      | beginNode _ _ nul' => rw [nul.unique nul']
  | endNode => cases right; rfl
  | prop => cases right; rfl
  | nop => cases right; rfl
  | fdtEnd => cases right; rfl

theorem TokenAt.room (token : TokenAt mem limit sizeDtStrings a t b) :
    a.toNat + 4 ≤ limit.toNat := by
  cases token with
  | beginNode room => exact room
  | endNode room => exact room
  | prop room => omega
  | nop room => exact room
  | fdtEnd room => exact room

theorem Tokens.unique (left : Tokens mem limit sizeDtStrings a ts)
    (right : Tokens mem limit sizeDtStrings a us) : ts = us := by
  induction left generalizing us with
  | fdtEnd token =>
      cases right with
      | fdtEnd => rfl
      | cons token' notEnd => exact absurd (token.unique token').1.symm notEnd
  | cons token notEnd _ ih =>
      cases right with
      | fdtEnd token' => exact absurd (token.unique token').1 notEnd
      | cons token' _ rest =>
          obtain ⟨rfl, rfl⟩ := token.unique token'
          rw [ih rest]

end Grammar

/-! ## Alignment -/

theorem align4_toNat {a : UInt64} (room : a.toNat + 3 < 2 ^ 64) :
    (align4 a).toNat = (a.toNat + 3) / 4 * 4 := by
  rw [align4, UInt64.toNat_ofNat', Nat.mod_eq_of_lt]
  omega

theorem align4_succ {a : UInt64} (unaligned : a % 4 ≠ 0) : align4 (a + 1) = align4 a := by
  have := a.toNat_lt
  rw [ne_eq, ← UInt64.toNat_inj, UInt64.toNat_mod] at unaligned
  simp only [UInt64.reduceToNat] at unaligned
  rw [← UInt64.toNat_inj, align4, align4, UInt64.toNat_ofNat', UInt64.toNat_ofNat',
    UInt64.toNat_add]
  simp only [UInt64.reduceToNat]
  omega

theorem align4_of_aligned {a : UInt64} (aligned : a % 4 = 0) : align4 a = a := by
  have := a.toNat_lt
  rw [← UInt64.toNat_inj, UInt64.toNat_mod] at aligned
  simp only [UInt64.reduceToNat] at aligned
  rw [← UInt64.toNat_inj, align4, UInt64.toNat_ofNat']
  omega

variable {env : Env} {info : HardwareInfo}

theorem alignCursor_spec (a : UInt64) :
    wp (alignCursor a)
      (fun o info' evs => o = .ok (align4 a) ∧ info' = info ∧ evs = []) info := by
  have run : wp (alignCursor a)
      (LoopPost (fun b info' => b = align4 a ∧ info' = info) (fun _ _ => False)
        (fun _ => False) .exhausted fun info' => 4 ≤ (4 - a.toNat % 4) % 4 ∧
          ∃ b, align4 b = align4 a ∧ info' = info) info := by
    refine wp_loop (fun b info' => align4 b = align4 a ∧ info' = info)
      (fun b => (4 - b.toNat % 4) % 4) ?_ ⟨rfl, rfl⟩
    intro b info' post
    obtain ⟨same, rfl⟩ := post
    rw [alignStep, wp_ite]
    split
    · rename_i unaligned
      refine ⟨⟨(align4_succ unaligned).trans same, rfl⟩, ?_, List.forall_mem_nil _⟩
      have := b.toNat_lt
      rw [ne_eq, ← UInt64.toNat_inj, UInt64.toNat_mod] at unaligned
      simp only [UInt64.reduceToNat] at unaligned
      simp only [UInt64.toNat_add, UInt64.reduceToNat]
      omega
    · rename_i aligned
      exact ⟨⟨(align4_of_aligned (not_ne_iff.mp aligned)).symm.trans same, rfl⟩,
        List.forall_mem_nil _⟩
  apply wp_mono run
  intro o info' evs post
  match o, post with
  | .ok b, ⟨⟨eq, same⟩, silent⟩ =>
      exact ⟨congrArg Except.ok eq, same, List.eq_nil_iff_forall_not_mem.mpr silent⟩
  | .error e, ⟨ended, _⟩ =>
      rcases ended with impossible | ⟨_, out, _⟩
      · exact impossible.elim
      · omega

/-! ## Node names -/

/-- What moving the cursor emits: reads of the struct block from `lo` up to `hi`, and
the output of a panic. -/
inductive CursorEvent (lo hi : UInt64) : Event → Prop
  | read {a : UInt64} : lo ≤ a → a < hi → CursorEvent lo hi (.read (structPointer a))
  | print {text : String} : CursorEvent lo hi (.print text)
  | panic {message : String} : CursorEvent lo hi (.panic message)

theorem CursorEvent.mono {lo lo' hi : UInt64} {e : Event} (event : CursorEvent lo hi e)
    (le : lo' ≤ lo) : CursorEvent lo' hi e := by
  cases event with
  | read above below => exact .read (UInt64.le_trans le above) below
  | print => exact .print
  | panic => exact .panic

theorem cursorEvent_of_panics {message : String} {e : Stop} {evs : List Event}
    {lo hi : UInt64} (panics : Panics env message e evs) :
    ∀ event ∈ evs, CursorEvent lo hi event := by
  intro event member
  rcases panics.output event member with rfl | rfl | rfl
  · exact .panic
  · exact .print
  · exact .print

/-- How moving past the node name at `a` ends. -/
inductive NameEnd (env : Env) (limit a : UInt64) : Except Stop UInt64 → Prop
  | named {z : UInt64} : NulAt env.memory limit a z → align4 (z + 1) ≤ limit →
    NameEnd env limit a (.ok (align4 (z + 1)))
  | malformed {e : Stop} : (∀ z, NulAt env.memory limit a z → ¬ align4 (z + 1) ≤ limit) →
    PanicStop env e → NameEnd env limit a (.error e)
  | exhausted : env.fuel ≤ limit.toNat - a.toNat → NameEnd env limit a (.error .exhausted)

/-- The name scan stops at the first NUL before `limit`, or panics if there is
none. -/
theorem nodeNameLoop_spec {limit a : UInt64} (less : a < limit) :
    wp (loop .exhausted (nodeNameStep env limit) env.fuel a)
      (fun o info' evs => (match o with
        | .ok z => NulAt env.memory limit a z
        | .error e => (PanicStop env e ∧ ∀ z, ¬ NulAt env.memory limit a z) ∨
            (e = .exhausted ∧ env.fuel ≤ limit.toNat - a.toNat)) ∧
        info' = info ∧ ∀ e ∈ evs, CursorEvent a limit e) info := by
  have run : wp (loop .exhausted (nodeNameStep env limit) env.fuel a)
      (LoopPost (fun z info' => NulAt env.memory limit a z ∧ info' = info)
        (fun e info' => (PanicStop env e ∧ ∀ z, ¬ NulAt env.memory limit a z) ∧ info' = info)
        (CursorEvent a limit) .exhausted fun info' => env.fuel ≤ limit.toNat - a.toNat ∧
          ∃ b, (a ≤ b ∧ b < limit ∧ ∀ y, a ≤ y → y < b → env.memory y ≠ 0) ∧ info' = info)
      info := by
    refine wp_loop
      (fun b info' => (a ≤ b ∧ b < limit ∧ ∀ y, a ≤ y → y < b → env.memory y ≠ 0) ∧
        info' = info)
      (fun b => limit.toNat - b.toNat) ?_
      ⟨⟨UInt64.le_refl a, less, fun y le lt => absurd lt (UInt64.not_lt.mpr le)⟩, rfl⟩
    intro b info' post
    obtain ⟨⟨above, below, before⟩, rfl⟩ := post
    have read : CursorEvent a limit (.read (structPointer b)) := .read above below
    rw [nodeNameStep, wp_bind, wp_readByte, seqPost_ok, wp_ite]
    split
    · rename_i nul
      rw [wp_pure]
      exact ⟨⟨⟨above, below, nul, before⟩, rfl⟩, by simpa using read⟩
    rename_i char
    rw [UInt64.lt_iff_toNat_lt] at below
    have bound := limit.toNat_lt
    have succ : (b + 1).toNat = b.toNat + 1 := by
      simp only [UInt64.toNat_add, UInt64.reduceToNat]
      omega
    -- the bytes up to and including `b` are no terminators
    have upTo : ∀ y, a ≤ y → y < b + 1 → env.memory y ≠ 0 := by
      intro y le lt
      rw [UInt64.lt_iff_toNat_lt, succ] at lt
      rcases Nat.lt_succ_iff_lt_or_eq.mp lt with earlier | same
      · exact before y le (UInt64.lt_iff_toNat_lt.mpr earlier)
      · rw [UInt64.toNat_inj.mp same]
        exact char
    rw [wp_bind]
    refine wp_panicIf (fun past => ?_) (fun _ => ?_)
    · rw [gt_iff_lt, UInt64.lt_iff_toNat_lt, succ] at past
      omega
    rw [seqPost_ok, wp_bind]
    refine wp_panicIf (fun atEnd e evs panics => ?_) (fun inside => ?_)
    · refine ⟨⟨⟨panics.panicStop, fun z nulAt => ?_⟩, rfl⟩, ?_⟩
      · exact upTo z nulAt.le (by rw [atEnd]; exact nulAt.lt) nulAt.nul
      · intro event member
        rcases List.mem_cons.mp member with rfl | later
        · exact read
        · exact cursorEvent_of_panics panics event later
    · rw [← UInt64.toNat_inj, succ] at inside
      have aboveNat := UInt64.le_iff_toNat_le.mp above
      rw [seqPost_ok, wp_pure]
      refine ⟨⟨⟨?_, ?_, upTo⟩, rfl⟩, ?_, by simpa using read⟩
      · rw [UInt64.le_iff_toNat_le, succ]
        omega
      · rw [UInt64.lt_iff_toNat_lt, succ]
        omega
      · simp only [succ]
        omega
  apply wp_mono run
  intro o info' evs post
  rcases o with e | z
  · rcases post with ⟨⟨bad, same⟩ | ⟨out, short, _, _, same⟩, reads⟩
    · exact ⟨Or.inl bad, same, reads⟩
    · exact ⟨Or.inr ⟨out, short⟩, same, reads⟩
  · rcases post with ⟨⟨nulAt, same⟩, reads⟩
    exact ⟨nulAt, same, reads⟩

theorem skipNodeName_spec {limit a : UInt64} (le : a ≤ limit) :
    wp (skipNodeName env limit a)
      (fun o info' evs => NameEnd env limit a o ∧ info' = info ∧
        ∀ e ∈ evs, CursorEvent a limit e) info := by
  rw [skipNodeName, wp_bind]
  refine wp_panicIf (fun empty e evs panics => ?_) (fun nonempty => ?_)
  · refine ⟨.malformed (fun z nulAt => ?_) panics.panicStop, rfl, cursorEvent_of_panics panics⟩
    exact absurd nulAt.lt (UInt64.not_lt.mpr (empty ▸ nulAt.le))
  have less : a < limit := UInt64.lt_of_le_of_ne le nonempty
  rw [seqPost_ok, wp_bind]
  apply wp_mono (nodeNameLoop_spec less)
  intro o info' evs post
  obtain ⟨ended, rfl, reads⟩ := post
  match o, ended with
  | .error e, Or.inl ⟨stop, unterminated⟩ =>
      exact ⟨.malformed (fun z nulAt => absurd nulAt (unterminated z)) stop, rfl, reads⟩
  | .error _, Or.inr ⟨rfl, out⟩ => exact ⟨.exhausted out, rfl, reads⟩
  | .ok z, nulAt =>
      rw [seqPost_ok, wp_bind]
      apply wp_mono (alignCursor_spec (z + 1))
      intro o info₂ evs₂ post
      obtain ⟨rfl, rfl, rfl⟩ := post
      rw [seqPost_ok, wp_bind]
      refine wp_panicIf (fun past e evs' panics => ?_) (fun inside => ?_)
      · refine ⟨.malformed (fun z' nulAt' => ?_) panics.panicStop, rfl, fun event member => ?_⟩
        · rw [← NulAt.unique nulAt nulAt']
          exact UInt64.not_le.mpr past
        · have parts : event ∈ evs ++ evs' := member
          exact (List.mem_append.mp parts).elim (reads event)
            (cursorEvent_of_panics panics event)
      · rw [seqPost_ok, wp_pure]
        exact ⟨.named nulAt (UInt64.not_lt.mp inside), rfl, by simpa using reads⟩

/-! ## Property metadata -/

/-- The property whose metadata is at `a`. -/
def propertyAt (mem : Memory) (a : UInt64) : Property :=
  ⟨be32 mem a, be32 mem (a + 4), a + 4 + 4⟩

/-- The property at `a` and its padding are inside the block, and its name starts
inside the strings block. -/
structure PropertyFits (mem : Memory) (limit : UInt64) (sizeDtStrings : UInt32)
    (a : UInt64) : Prop where
  room : a.toNat + 8 + (propertyAt mem a).length.toNat ≤ limit.toNat
  padded : align4 ((propertyAt mem a).data + (propertyAt mem a).length.toUInt64) ≤ limit
  name : (propertyAt mem a).nameOffset < sizeDtStrings

/-- How reading the property whose metadata is at `a` ends. -/
inductive PropertyEnd (env : Env) (limit : UInt64) (sizeDtStrings : UInt32) (a : UInt64) :
    Except Stop (Property × UInt64) → Prop
  | read : PropertyFits env.memory limit sizeDtStrings a →
    PropertyEnd env limit sizeDtStrings a (.ok (propertyAt env.memory a,
      align4 ((propertyAt env.memory a).data + (propertyAt env.memory a).length.toUInt64)))
  | malformed {e : Stop} : ¬ PropertyFits env.memory limit sizeDtStrings a →
    PanicStop env e → PropertyEnd env limit sizeDtStrings a (.error e)

theorem toNat_add_of_room {a b : UInt64} (limit : UInt64) (room : a.toNat + b.toNat ≤ limit.toNat) :
    (a + b).toNat = a.toNat + b.toNat := by
  have := limit.toNat_lt
  rw [UInt64.toNat_add]
  omega

/-- A difference of addresses is a distance if the addresses are in order. -/
theorem sub_lt_iff {a limit n : UInt64} (le : a ≤ limit) :
    limit - a < n ↔ limit.toNat < a.toNat + n.toNat := by
  rw [UInt64.lt_iff_toNat_lt, UInt64.toNat_sub_of_le _ _ le]
  have := UInt64.le_iff_toNat_le.mp le
  omega

/-- Reads of `n` bytes that fit before `limit`. -/
theorem cursorEvent_of_byteReads {a limit : UInt64} {n : Nat}
    (room : a.toNat + n ≤ limit.toNat) :
    ∀ e ∈ byteReads (structPointer a) n, CursorEvent a limit e := by
  intro e member
  obtain ⟨i, less, rfl⟩ := mem_byteReads.mp member
  have bound := limit.toNat_lt
  have small : (UInt64.ofNat i).toNat = i := by
    rw [UInt64.toNat_ofNat', Nat.mod_eq_of_lt]
    omega
  have sum := toNat_add_of_room (a := a) (b := UInt64.ofNat i) limit
    (by rw [small]; omega)
  refine .read (a := a + UInt64.ofNat i) ?_ ?_
  · rw [UInt64.le_iff_toNat_le, sum]
    omega
  · rw [UInt64.lt_iff_toNat_lt, sum, small]
    omega

theorem readProperty_spec {limit a : UInt64} (le : a ≤ limit) :
    wp (readProperty env limit a)
      (fun o info' evs => PropertyEnd env limit info.header.sizeDtStrings a o ∧ info' = info ∧
        ∀ e ∈ evs, CursorEvent a limit e) info := by
  rw [readProperty, wp_bind]
  refine wp_panicIf (fun short e evs panics => ?_) (fun metadata => ?_)
  · refine ⟨.malformed (fun fits => ?_) panics.panicStop, rfl, cursorEvent_of_panics panics⟩
    have := fits.room
    rw [sub_lt_iff le] at short
    simp only [UInt64.reduceToNat] at short
    omega
  rw [sub_lt_iff le] at metadata
  simp only [UInt64.reduceToNat] at metadata
  have four : (a + 4).toNat = a.toNat + 4 :=
    toNat_add_of_room limit (by simp only [UInt64.reduceToNat]; omega)
  have eight : (a + 4 + 4).toNat = a.toNat + 8 := by
    rw [toNat_add_of_room limit (by rw [four]; simp only [UInt64.reduceToNat]; omega),
      four]
    rfl
  have reads : ∀ e ∈ byteReads (structPointer a) 4 ++ byteReads (structPointer (a + 4)) 4,
      CursorEvent a limit e := by
    intro e member
    rcases List.mem_append.mp member with first | second
    · exact cursorEvent_of_byteReads (by omega) e first
    · refine (cursorEvent_of_byteReads (by omega) e second).mono ?_
      rw [UInt64.le_iff_toNat_le]
      omega
  have output : ∀ {message : String} {e : Stop} {evs : List Event},
      Panics env message e evs →
      ∀ event ∈ byteReads (structPointer a) 4 ++ (byteReads (structPointer (a + 4)) 4 ++ evs),
        CursorEvent a limit event := by
    intro message e evs panics event member
    rw [← List.append_assoc] at member
    exact (List.mem_append.mp member).elim (reads event) (cursorEvent_of_panics panics event)
  rw [seqPost_ok, wp_bind, wp_readBe32FromAddress, seqPost_ok, wp_bind, wp_readBe32FromAddress,
    seqPost_ok]
  dsimp only
  rw [wp_bind]
  have atEnd : a + 4 + 4 ≤ limit := by
    rw [UInt64.le_iff_toNat_le]
    omega
  refine wp_panicIf (fun long e evs panics => ?_) (fun inside => ?_)
  · refine ⟨.malformed (fun fits => ?_) panics.panicStop, rfl, output panics⟩
    have room := fits.room
    rw [gt_iff_lt, sub_lt_iff atEnd, UInt32.toNat_toUInt64] at long
    exact absurd room (by rw [← eight]; exact Nat.not_le.mpr long)
  rw [gt_iff_lt, sub_lt_iff atEnd, UInt32.toNat_toUInt64, eight] at inside
  rw [seqPost_ok, wp_bind]
  apply wp_mono (alignCursor_spec _)
  intro o info' evs post
  obtain ⟨rfl, rfl, rfl⟩ := post
  rw [seqPost_ok, wp_bind]
  refine wp_panicIf (fun past e evs panics => ?_) (fun padded => ?_)
  · exact ⟨.malformed (fun fits => absurd fits.padded (UInt64.not_le.mpr past))
      panics.panicStop, rfl, output panics⟩
  rw [seqPost_ok, wp_bind, wp_current, seqPost_ok, wp_bind]
  refine wp_panicIf (fun outside e evs panics => ?_) (fun named => ?_)
  · exact ⟨.malformed (fun fits => absurd fits.name (UInt32.not_lt.mpr outside))
      panics.panicStop, rfl, output panics⟩
  rw [seqPost_ok, wp_pure]
  refine ⟨.read ⟨Nat.not_lt.mp inside, UInt64.not_lt.mp padded, UInt32.not_le.mp named⟩, rfl, ?_⟩
  simpa using reads

end CharcoalOS
