import CharcoalOS.Hardware.Bounds

/-!
# The parser recognises the token grammar

`Tokens` and `Balanced` are the language: complete tokens up to the first `FDT_END`,
with matching node tokens. `WalkHead.grammar` is the invariant that ties a head to it:
the tokens handled so far lead to the cursor, and the two counters of the walk count
them. `accepts_iff_grammar` is the recogniser equivalence.
-/

namespace CharcoalOS

open Effect Effect.Program

/-- The number of `FDT_BEGIN_NODE` tokens. -/
def opens (ts : List Token) : Nat :=
  ts.countP fun
    | .beginNode _ => true
    | _ => false

/-- The number of `FDT_END_NODE` tokens. -/
def closes (ts : List Token) : Nat := ts.count .endNode

/-- No node is closed before it is opened. -/
def NeverBelow (ts : List Token) : Prop := ∀ us, us <+: ts → closes us ≤ opens us

/-- The node tokens of `ts` match. -/
structure Balanced (ts : List Token) : Prop where
  neverBelow : NeverBelow ts
  level : opens ts = closes ts

theorem opens_append (ts us : List Token) : opens (ts ++ us) = opens ts + opens us :=
  List.countP_append

theorem closes_append (ts us : List Token) : closes (ts ++ us) = closes ts + closes us :=
  List.count_append

theorem opens_le_length (ts : List Token) : opens ts ≤ ts.length := List.countP_le_length

/-- A list that never closes too much stays so if the next token does not either. -/
theorem NeverBelow.snoc {ts : List Token} {t : Token} (below : NeverBelow ts)
    (last : closes (ts ++ [t]) ≤ opens (ts ++ [t])) : NeverBelow (ts ++ [t]) := by
  intro us isPrefix
  rcases List.prefix_concat_iff.mp isPrefix with whole | shorter
  · rw [whole]
    exact last
  · exact below us shorter

/-! ## Paths of tokens -/

/-- The tokens `ts` lead from the address `a` to the address `b`. -/
inductive TokenPath (mem : Memory) (limit : UInt64) (sizeDtStrings : UInt32) :
    UInt64 → List Token → UInt64 → Prop
  | nil {a : UInt64} : TokenPath mem limit sizeDtStrings a [] a
  | cons {a b c : UInt64} {t : Token} {ts : List Token} :
    TokenAt mem limit sizeDtStrings a t b → TokenPath mem limit sizeDtStrings b ts c →
    TokenPath mem limit sizeDtStrings a (t :: ts) c

section Paths

variable {mem : Memory} {limit a b c : UInt64} {sizeDtStrings : UInt32} {t : Token}
  {ts us : List Token}

theorem TokenPath.snoc (path : TokenPath mem limit sizeDtStrings a ts b)
    (token : TokenAt mem limit sizeDtStrings b t c) :
    TokenPath mem limit sizeDtStrings a (ts ++ [t]) c := by
  induction path with
  | nil => exact .cons token .nil
  | cons first _ ih => exact .cons first (ih token)

/-- A path that ends in the first `FDT_END` spells a token list. -/
theorem TokenPath.tokens (path : TokenPath mem limit sizeDtStrings a ts b)
    (open' : Token.fdtEnd ∉ ts) (last : TokenAt mem limit sizeDtStrings b .fdtEnd c) :
    Tokens mem limit sizeDtStrings a (ts ++ [.fdtEnd]) := by
  induction path with
  | nil => exact .fdtEnd last
  | cons token _ ih =>
      rw [List.mem_cons, not_or] at open'
      exact .cons token (Ne.symm open'.1) (ih open'.2 last)

/-- The end of the block is past every token. -/
theorem TokenPath.eq_nil (path : TokenPath mem limit sizeDtStrings limit ts b) :
    ts = [] ∧ b = limit := by
  cases path with
  | nil => exact ⟨rfl, rfl⟩
  | cons token =>
      have := token.room
      omega

theorem Tokens.fdtEnd_mem (tokens : Tokens mem limit sizeDtStrings a ts) :
    Token.fdtEnd ∈ ts := by
  induction tokens with
  | fdtEnd => exact List.mem_cons_self
  | cons _ _ _ ih => exact List.mem_cons_of_mem _ ih

/-- A path through a block whose tokens are `ts` is a part of `ts`. -/
theorem Tokens.split (tokens : Tokens mem limit sizeDtStrings a ts)
    (path : TokenPath mem limit sizeDtStrings a us b) :
    (∃ t vs next, ts = us ++ t :: vs ∧ TokenAt mem limit sizeDtStrings b t next) ∨
      us = ts ∧ b = limit := by
  induction path generalizing ts with
  | nil =>
      cases tokens with
      | fdtEnd token => exact Or.inl ⟨_, [], _, rfl, token⟩
      | cons token _ _ => exact Or.inl ⟨_, _, _, rfl, token⟩
  | @cons a b c t us token rest ih =>
      cases tokens with
      | fdtEnd token' =>
          obtain ⟨rfl, rfl⟩ := token.unique token'
          cases token'
          obtain ⟨rfl, rfl⟩ := rest.eq_nil
          exact Or.inr ⟨rfl, rfl⟩
      | cons token' _ tokens =>
          obtain ⟨rfl, rfl⟩ := token.unique token'
          rcases ih tokens with ⟨u, vs, next, rfl, token⟩ | ⟨rfl, rfl⟩
          · exact Or.inl ⟨u, vs, next, rfl, token⟩
          · exact Or.inr ⟨rfl, rfl⟩

end Paths

/-! ## The counters of the walk -/

/-- The tokens of the blob at `dtb`. -/
abbrev BlobTokens (mem : Memory) (dtb : UInt64) (ts : List Token) : Prop :=
  Tokens mem (blobEnd mem dtb) (headerAt mem dtb).sizeDtStrings (blobStart mem dtb) ts

/-- What the walk knows of the tokens handled so far. -/
structure GrammarHead (mem : Memory) (dtb : UInt64) (ts : List Token) (s : Walk) : Prop where
  path : TokenPath mem (blobEnd mem dtb) (headerAt mem dtb).sizeDtStrings (blobStart mem dtb) ts
    s.dtbCursor
  neverBelow : NeverBelow ts
  depth : UInt64.ofNat (closes ts) + s.nodeDepth = UInt64.ofNat (opens ts)
  ended : (Token.fdtEnd ∉ ts ∧ s.endTokensEncountered = 0) ∨
    (BlobTokens mem dtb ts ∧ s.endTokensEncountered = 1 ∧ s.dtbCursor = blobEnd mem dtb)

section Heads

variable {env : Env} {outHwInfo dtb : UInt64} {prior info : HardwareInfo} {ts : List Token}
  {s : Walk}

/-- The counters of the walk past a token. -/
theorem nodeDepth_past {mem : Memory} {next : UInt64} {t : Token} :
    UInt64.ofNat (closes [t]) + (s.past mem dtb t next).nodeDepth =
      s.nodeDepth + UInt64.ofNat (opens [t]) := by
  cases t with
  | beginNode name => exact UInt64.zero_add _
  | endNode =>
      show 1 + (s.nodeDepth - 1) = s.nodeDepth + 0
      grind
  | prop p =>
      show 0 + (Walk.withProperty mem _ p _).nodeDepth = s.nodeDepth + 0
      rw [Walk.nodeDepth_withProperty, UInt64.zero_add, UInt64.add_zero]
  | nop => exact (UInt64.zero_add _).trans (UInt64.add_zero _).symm
  | fdtEnd => exact (UInt64.zero_add _).trans (UInt64.add_zero _).symm

theorem endTokens_past {mem : Memory} {next : UInt64} {t : Token} :
    (s.past mem dtb t next).endTokensEncountered =
      s.endTokensEncountered + if t = .fdtEnd then 1 else 0 := by
  cases t with
  | prop p => simp [Walk.past, Walk.afterToken]
  | fdtEnd => rfl
  | _ => exact (UInt64.add_zero _).symm

theorem WalkHead.grammar (head : WalkHead env outHwInfo dtb prior ts s info) :
    GrammarHead env.memory dtb ts s := by
  refine head.induct (P := fun ts s _ => GrammarHead env.memory dtb ts s) (fun _ => ?_) ?_
  · refine ⟨.nil, fun us isPrefix => ?_, UInt64.zero_add _, Or.inl ⟨List.not_mem_nil, rfl⟩⟩
    rw [List.prefix_nil.mp isPrefix]
    exact Nat.le_refl 0
  · intro ts s info t next s' info' head grammar token same nonzero _
    obtain ⟨path, neverBelow, depth, ended⟩ := grammar
    subst same
    have open' : Token.fdtEnd ∉ ts ∧ s.endTokensEncountered = 0 := by
      refine ended.resolve_right fun ⟨_, _, atEnd⟩ => ?_
      have := token.room
      rw [atEnd] at this
      omega
    have path' : TokenPath env.memory (blobEnd env.memory dtb)
        (headerAt env.memory dtb).sizeDtStrings (blobStart env.memory dtb) (ts ++ [t])
        (s.past env.memory dtb t next).dtbCursor := by
      rw [Walk.past, Walk.dtbCursor_afterToken]
      exact path.snoc token
    refine ⟨path', neverBelow.snoc ?_, ?_, ?_⟩
    · have whole := neverBelow ts (List.prefix_refl ts)
      rw [opens_append, closes_append]
      by_cases close : t = .endNode
      · -- the walk has an open node, so fewer nodes are closed than opened
        have fewer : closes ts ≠ opens ts := fun same => by
          rw [same] at depth
          exact nonzero close (by grind)
        rw [close]
        show closes ts + 1 ≤ opens ts + 0
        omega
      · have none : closes [t] = 0 := by
          rw [closes, List.count_eq_zero, List.mem_singleton]
          exact fun same => close same.symm
        omega
    · have step : UInt64.ofNat (closes [t]) + (s.past env.memory dtb t next).nodeDepth =
          s.nodeDepth + UInt64.ofNat (opens [t]) := nodeDepth_past
      rw [opens_append, closes_append, UInt64.ofNat_add, UInt64.ofNat_add, UInt64.add_assoc, step,
        ← depth, UInt64.add_assoc]
    · rw [endTokens_past, open'.2]
      by_cases last : t = .fdtEnd
      · subst last
        refine Or.inr ⟨path.tokens open'.1 token, rfl, ?_⟩
        rw [Walk.past, Walk.dtbCursor_afterToken]
        cases token with
        | fdtEnd => rfl
      · rw [if_neg last]
        refine Or.inl ⟨?_, rfl⟩
        rw [List.mem_append, List.mem_singleton, not_or]
        exact ⟨open'.1, Ne.symm last⟩

/-- The depth is zero where as many nodes are closed as opened. -/
theorem GrammarHead.level {mem : Memory} (grammar : GrammarHead mem dtb ts s)
    (few : ts.length < 2 ^ 64) (zero : s.nodeDepth = 0) : opens ts = closes ts := by
  have depth := grammar.depth
  have below := grammar.neverBelow ts (List.prefix_refl ts)
  have opened := opens_le_length ts
  rw [zero, UInt64.add_zero, ← UInt64.toNat_inj, UInt64.toNat_ofNat', UInt64.toNat_ofNat',
    Nat.mod_eq_of_lt (by omega), Nat.mod_eq_of_lt (by omega)] at depth
  exact depth.symm

theorem GrammarHead.level_of_eq {mem : Memory} (grammar : GrammarHead mem dtb ts s)
    (same : opens ts = closes ts) : s.nodeDepth = 0 := by
  have depth := grammar.depth
  rw [same] at depth
  grind

/-- Where one `FDT_END` has been met, the tokens are those of the blob. -/
theorem GrammarHead.tokens {mem : Memory} (grammar : GrammarHead mem dtb ts s)
    (one : s.endTokensEncountered = 1) : BlobTokens mem dtb ts := by
  rcases grammar.ended with ⟨-, zero⟩ | ⟨tokens, -, -⟩
  · rw [zero] at one
    exact absurd one (by decide)
  · exact tokens

/-- A blob that does not wrap has few tokens. -/
theorem WalkHead.length_lt (head : WalkHead env outHwInfo dtb prior ts s info)
    (noWrap : NoWrap env.memory dtb) : ts.length < 2 ^ 64 := by
  have := walkTrail_length head.accepted (walkRecord_header head.passed) noWrap head.trail
  have := (headerAt env.memory dtb).sizeDtStruct.toNat_lt
  omega

/-! ## The recogniser -/

/-- No property has raised a panic of its own. -/
def PropertiesQuiet (env : Env) (outHwInfo dtb : UInt64) (prior : HardwareInfo) : Prop :=
  ∀ message ∈ propertyPanics,
    .panic message ∉ (parseDeviceTreeBlob env outHwInfo dtb prior).events

/-- A failing property raises one of the panics of a property. -/
theorem HandlePost.panic_mem {name : Pointer} {p : Property} {e : Stop} {info' : HardwareInfo}
    {evs : List Event} (post : HandlePost env name p s info (.error e) info' evs) :
    ∃ message ∈ propertyPanics, .panic message ∈ evs := by
  cases post.ending with
  | malformed _ known panic =>
      exact ⟨_, List.mem_append_left _ known, panic⟩
  | stopped _ ending =>
      cases ending with
      | uninitialized _ _ panic =>
          exact ⟨_, List.mem_append_right _ List.mem_cons_self, panic⟩
      | regions _ _ ending =>
          cases ending with
          | rejected _ known panic =>
              exact ⟨_, List.mem_append_right _ (List.mem_cons_of_mem _ known), panic⟩

/-- At a token of the blob the walk fails only for a node that is not open, for lack of fuel,
or for a property. -/
theorem WalkHead.error_inv {t : Token} {next : UInt64} {e : Stop}
    (head : WalkHead env outHwInfo dtb prior ts s info)
    (token : BlobToken env.memory dtb s.dtbCursor t next)
    (failed : (walkStep env dtb (blobEnd env.memory dtb) s info).outcome = .error e) :
    t = .endNode ∧ s.nodeDepth = 0 ∨
      e = .exhausted ∧ env.fuel ≤ (blobEnd env.memory dtb).toNat ∨ ∃ p, t = .prop p := by
  have post := (walkStep_post env dtb s info).1
  rw [failed] at post
  generalize (walkStep env dtb (blobEnd env.memory dtb) s info).state = info' at post
  generalize out : (Except.error e : Except Stop (Control Walk Walk)) = o at post
  cases post with
  | outOfBounds past =>
      have := UInt64.lt_iff_toNat_lt.mp past
      have := token.room
      omega
  | tail => cases out
  | malformed _ none =>
      rw [head.header_eq] at none
      exact absurd token (none t next)
  | exhausted _ _ short =>
      cases out
      exact Or.inr (Or.inl ⟨rfl, by omega⟩)
  | unmatched end' level =>
      rw [head.header_eq] at end'
      exact Or.inl ⟨(token.unique end').1, level⟩
  | moved => cases out
  | @prop p _ _ _ _ _ token' =>
      rw [head.header_eq] at token'
      exact Or.inr (Or.inr ⟨p, (token.unique token').1⟩)

/-- Where a token of a balanced blob stands, the walk goes on. -/
theorem step_not_error {t : Token} {next : UInt64} {e : Stop}
    (head : WalkHead env outHwInfo dtb prior ts s info)
    (token : BlobToken env.memory dtb s.dtbCursor t next) (below : NeverBelow (ts ++ [t]))
    (few : ts.length < 2 ^ 64) (quiet : PropertiesQuiet env outHwInfo dtb prior)
    (live : e ≠ .exhausted) :
    (walkStep env dtb (blobEnd env.memory dtb) s info).outcome ≠ .error e := by
  intro failed
  rcases head.error_inv token failed with ⟨rfl, level⟩ | ⟨out, -⟩ | ⟨p, rfl⟩
  · have same := head.grammar.level few level
    have closed := below _ (List.prefix_refl _)
    rw [opens_append, closes_append, same] at closed
    exact absurd closed (Nat.not_le.mpr (Nat.lt_succ_self _))
  · exact live out
  · obtain ⟨o, evs, post, inner, outcome⟩ := step_prop head.header_eq token
    rw [failed] at outcome
    cases o with
    | ok => cases outcome
    | error e' =>
        obtain ⟨message, known, panic⟩ := post.panic_mem
        exact quiet message known (head.mem_events (inner _ panic))

/-- Where the tokens of the blob are used up, the walk ends. -/
theorem step_not_error_at_end {e : Stop} (atEnd : s.dtbCursor = blobEnd env.memory dtb) :
    (walkStep env dtb (blobEnd env.memory dtb) s info).outcome ≠ .error e := by
  intro failed
  have post := (walkStep_post env dtb s info).1
  rw [failed] at post
  have noRoom : ¬ s.dtbCursor.toNat + 4 ≤ (blobEnd env.memory dtb).toNat := by
    rw [atEnd]
    omega
  generalize (walkStep env dtb (blobEnd env.memory dtb) s info).state = info' at post
  generalize out : (Except.error e : Except Stop (Control Walk Walk)) = o at post
  cases post with
  | outOfBounds past => exact UInt64.lt_irrefl _ (atEnd ▸ past)
  | tail => cases out
  | malformed room => exact noRoom room
  | exhausted room => exact noRoom room
  | unmatched token => exact noRoom token.room
  | moved => cases out
  | prop token => exact noRoom token.room

/-- A balanced blob is accepted: no head of its run can fail, and the last one satisfies the
final checks. -/
theorem body_of_balanced {us : List Token} {o : Except Stop Unit}
    (passed : (readPrologue env outHwInfo dtb prior).outcome = .ok ())
    (noWrap : NoWrap env.memory dtb) (quiet : PropertiesQuiet env outHwInfo dtb prior)
    (enough : EnoughFuel env dtb) (tokens : BlobTokens env.memory dtb us) (balanced : Balanced us)
    (ending : BodyEnd env outHwInfo dtb prior o info) : o = .ok () := by
  cases o with
  | ok => rfl
  | error e =>
      have live := body_not_exhausted noWrap enough ending
      exfalso
      cases ending with
      | prologue failed =>
          rw [passed] at failed
          cases failed
      | @stopped ts s info e head failed =>
          rcases tokens.split head.grammar.path with ⟨t, vs, next, rfl, token⟩ | ⟨rfl, atEnd⟩
          · have below : NeverBelow (ts ++ [t]) := fun ws isPrefix => balanced.neverBelow ws
              (isPrefix.trans ⟨vs, by rw [List.append_assoc, List.singleton_append]⟩)
            exact step_not_error head token below (head.length_lt noWrap) quiet live failed
          · exact step_not_error_at_end atEnd failed
      | exhausted => exact live rfl
      | @unfinished ts s info e head le short unfinished stop =>
          rcases tokens.split head.grammar.path with ⟨t, vs, next, rfl, token⟩ | ⟨rfl, atEnd⟩
          · have := token.room
            omega
          · refine unfinished ⟨head.grammar.level_of_eq balanced.level, ?_⟩
            rcases head.grammar.ended with ⟨open', -⟩ | ⟨-, one, -⟩
            · exact absurd tokens.fdtEnd_mem open'
            · exact one

/-- **Exact acceptance of the token grammar**: if the header and the reservation map pass, no
property raises a panic of its own, and no address wraps, then the parser returns for tokens whose
nodes match, and halts for all others. -/
theorem accepts_iff_grammar (env : Env) (outHwInfo dtb : UInt64) (prior : HardwareInfo)
    (halts : env.panicReturns = false) (noWrap : NoWrap env.memory dtb)
    (enough : EnoughFuel env dtb)
    (passed : (readPrologue env outHwInfo dtb prior).outcome = .ok ())
    (quiet : PropertiesQuiet env outHwInfo dtb prior) :
    ((parseDeviceTreeBlob env outHwInfo dtb prior).outcome = .ok () ↔
      ∃ ts, BlobTokens env.memory dtb ts ∧ Balanced ts) ∧
    ((¬ ∃ ts, BlobTokens env.memory dtb ts ∧ Balanced ts) →
      (parseDeviceTreeBlob env outHwInfo dtb prior).outcome = .error .halted) := by
  have accepts : (parseDeviceTreeBlob env outHwInfo dtb prior).outcome = .ok () ↔
      ∃ ts, BlobTokens env.memory dtb ts ∧ Balanced ts := by
    constructor
    · intro returned
      obtain ⟨ts, s, head, -, -, level, one⟩ := exists_last_head halts returned
      exact ⟨ts, head.grammar.tokens one, head.grammar.neverBelow,
        head.grammar.level (head.length_lt noWrap) level⟩
    · intro generated
      obtain ⟨ts, tokens, balanced⟩ := generated
      obtain ⟨o, ending, outcome⟩ := parse_spec env outHwInfo dtb prior
      rw [outcome, body_of_balanced passed noWrap quiet enough tokens balanced ending]
      rfl
  refine ⟨accepts, fun rejected => ?_⟩
  rcases outcome_of_enough outHwInfo prior noWrap enough with
    returned | halted
  · exact absurd (accepts.mp returned) rejected
  · exact halted

/-- A blob that has one memory node is accepted for its grammar. -/
theorem accepts_iff_grammar_memoryBlob :
    PropertiesQuiet memoryBlob.env 1 Blob.address .zero ∧
      ∃ ts, BlobTokens memoryBlob.env.memory Blob.address ts ∧ Balanced ts := by
  have quiet : PropertiesQuiet memoryBlob.env 1 Blob.address .zero := by
    unfold PropertiesQuiet
    decide +kernel
  have accepts := accepts_iff_grammar memoryBlob.env 1 Blob.address .zero rfl (by decide +kernel)
    (by decide +kernel) (by decide +kernel) quiet
  exact ⟨quiet, accepts.1.mp memoryBlob_returned⟩

/-! ## Accepted blobs -/

/-- The tokens that the walk handles, by running it. -/
def walkTokens (env : Env) (outHwInfo dtb : UInt64) (prior : HardwareInfo) : List Token :=
  labels (walkStep env dtb (blobEnd env.memory dtb)) (headToken env.memory) env.fuel
    (walkStart env dtb) (walkRecord env outHwInfo dtb prior)

theorem blobTokens_walkTokens (halts : env.panicReturns = false)
    (returned : (parseDeviceTreeBlob env outHwInfo dtb prior).outcome = .ok ()) :
    BlobTokens env.memory dtb (walkTokens env outHwInfo dtb prior) := by
  obtain ⟨ts, s, head, le, short, -, one⟩ := exists_last_head halts returned
  have tail : blobEnd env.memory dtb - s.dtbCursor < 4 := by
    rw [sub_lt_iff le]
    exact short
  rw [walkTokens, head.trail.labels_of_done head.fuel (walkStep_tail le tail).1]
  exact head.grammar.tokens one

/-- A run that accepts a blob ends at a head past all of its tokens. -/
theorem exists_head_at_end {us : List Token} (halts : env.panicReturns = false)
    (returned : (parseDeviceTreeBlob env outHwInfo dtb prior).outcome = .ok ())
    (tokens : BlobTokens env.memory dtb us) :
    ∃ s, WalkHead env outHwInfo dtb prior us s
      (parseDeviceTreeBlob env outHwInfo dtb prior).state ∧ s.nodeDepth = 0 := by
  rcases exists_last_head halts returned with ⟨ts, s, head, -, -, level, one⟩
  rw [← (head.grammar.tokens one).unique tokens]
  exact ⟨s, head, level⟩

/-- The tokens handled before a head are a part of the tokens of the blob. -/
theorem WalkHead.tokens_eq {us : List Token} {t : Token} {next : UInt64}
    (head : WalkHead env outHwInfo dtb prior ts s info) (tokens : BlobTokens env.memory dtb us)
    (token : BlobToken env.memory dtb s.dtbCursor t next) : ∃ vs, us = ts ++ t :: vs := by
  rcases tokens.split head.grammar.path with ⟨u, vs, next', eq, token'⟩ | ⟨-, atEnd⟩
  · obtain ⟨rfl, -⟩ := token.unique token'
    exact ⟨vs, eq⟩
  · have := token.room
    rw [atEnd] at this
    omega

/-- A run that accepts a blob comes by each of its tokens. -/
theorem exists_head_of_tokens {us vs : List Token} {t : Token}
    (halts : env.panicReturns = false)
    (returned : (parseDeviceTreeBlob env outHwInfo dtb prior).outcome = .ok ())
    (tokens : BlobTokens env.memory dtb (us ++ t :: vs)) :
    ∃ s info next s' info', WalkHead env outHwInfo dtb prior us s info ∧
      BlobToken env.memory dtb s.dtbCursor t next ∧
      Continues (walkStep env dtb (blobEnd env.memory dtb)) (s, info) (s', info') := by
  rcases exists_head_at_end halts returned tokens with ⟨s, head, -⟩
  have fuel := head.fuel
  rcases head.trail.split with ⟨⟨s₁, info₁⟩, ⟨s₂, info₂⟩, before, label, edge⟩
  rw [List.length_append, List.length_cons] at fuel
  have head' : WalkHead env outHwInfo dtb prior us s₁ info₁ :=
    ⟨head.passed, before, by omega⟩
  obtain ⟨t', next, token, -⟩ := continues_inv head'.header_eq edge
  have same : t' = t := token.tokenOf_eq.symm.trans label
  subst same
  exact ⟨s₁, info₁, next, s₂, info₂, head', token, edge⟩

end Heads

end CharcoalOS
