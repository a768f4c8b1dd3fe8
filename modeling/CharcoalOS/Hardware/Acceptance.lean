import CharcoalOS.Hardware.NodeContext

/-!
# Accepted blobs

`AcceptedTokens` says which token lists the parser accepts, without a cursor, a record or
a run: the nodes match, and every property is one the context of the tokens before it can
take. `acceptedTokens_of_returned` and `returned_of_acceptedTokens` show that this is what
a normal return means. Whether a blob is accepted is therefore no matter of the record the
parser is given.
-/

namespace CharcoalOS

open Effect Effect.Program Nesting

/-- The `reg` of the context can be decoded. -/
structure Context.Decodable (mem : Memory) (c : Context) : Prop where
  known : c.CellsKnown
  reg : ∀ q addressCells sizeCells, c.reg = some q → c.addressCells = some addressCells →
    c.sizeCells = some sizeCells →
    AcceptedReg mem addressCells sizeCells q.data q.length.toUInt64

/-- The property `p` after the tokens `ts` raises no panic. -/
structure PropertyAllowed (mem : Memory) (dtb : UInt64) (ts : List Token) (p : Property) :
    Prop where
  cells : (contextOf mem dtb ts).nameEmpty mem = true → (propertyName mem dtb p).IsCells →
    p.length = 4
  decodable : (contextAt mem dtb ts p).decodes mem = true → (contextAt mem dtb ts p).Decodable mem

/-- The parser accepts these tokens. Its depth counter is a 64-bit one. -/
structure AcceptedTokens (mem : Memory) (dtb : UInt64) (us : List Token) : Prop where
  tokens : BlobTokens mem dtb us
  nested : ∀ ts vs, us = ts ++ .endNode :: vs → UInt64.ofNat (opens ts) ≠ UInt64.ofNat (closes ts)
  level : UInt64.ofNat (opens us) = UInt64.ofNat (closes us)
  properties : ∀ ts p vs, us = ts ++ .prop p :: vs → PropertyAllowed mem dtb ts p

section Heads

variable {env : Env} {outHwInfo dtb : UInt64} {prior info : HardwareInfo} {ts us : List Token}
  {s : Walk} {p : Property} {next : UInt64}

theorem GrammarHead.level_iff {mem : Memory} (grammar : GrammarHead mem dtb ts s) :
    s.nodeDepth = 0 ↔ UInt64.ofNat (opens ts) = UInt64.ofNat (closes ts) := by
  have depth := grammar.depth
  constructor
  · intro zero
    rw [← depth, zero, UInt64.add_zero]
  · intro same
    rw [same] at depth
    grind

theorem WalkHead.cellsFit_iff (head : WalkHead env outHwInfo dtb prior ts s info) :
    CellsFit env.memory (propertyName env.memory dtb p) p s ↔
      ((contextOf env.memory dtb ts).nameEmpty env.memory = true →
        (propertyName env.memory dtb p).IsCells → p.length = 4) := by
  rw [CellsFit, head.models.nameEmpty]

/-- With both cell counts known, the code accepts the `reg` that the context has. -/
theorem Context.Models.accepted_iff {mem : Memory} {start : HardwareInfo} {c : Context}
    {q : Property} {addressCells sizeCells : UInt32} (models : c.Models mem start s info)
    (reg : c.reg = some q) (address : c.addressCells = some addressCells)
    (size : c.sizeCells = some sizeCells) :
    ContextAccepted mem s info ↔
      AcceptedReg mem addressCells sizeCells q.data q.length.toUInt64 := by
  obtain ⟨addressValue, sizeValue, pointer, regSize⟩ := models.values reg address size
  rw [ContextAccepted, addressValue, sizeValue, pointer, regSize]
  rfl

theorem Context.Models.decodable_iff {mem : Memory} {start : HardwareInfo} {c : Context}
    (models : c.Models mem start s info) (complete : c.decodes mem = true) :
    c.Decodable mem ↔
      (s.addressCellsInitialized ∧ s.sizeCellsInitialized) ∧ ContextAccepted mem s info := by
  rcases Context.exists_reg complete with ⟨q, eq⟩
  rw [models.addressFlag, models.sizeFlag]
  constructor
  · intro decodable
    rcases Context.exists_cells decodable.known with ⟨address, size, addressEq, sizeEq⟩
    exact ⟨decodable.known, (models.accepted_iff eq addressEq sizeEq).mpr
      (decodable.reg q address size eq addressEq sizeEq)⟩
  · intro decodes
    obtain ⟨known, accepted⟩ := decodes
    exact ⟨known, fun q' address size eq' addressEq sizeEq =>
      (models.accepted_iff eq' addressEq sizeEq).mp accepted⟩

/-- Each property of an accepted blob is allowed. -/
theorem WalkHead.propertyAllowed (halts : env.panicReturns = false)
    (head : WalkHead env outHwInfo dtb prior ts s info)
    (token : BlobToken env.memory dtb s.dtbCursor (.prop p) next) {s' : Walk}
    {info' : HardwareInfo}
    (edge : Continues (walkStep env dtb (blobEnd env.memory dtb)) (s, info) (s', info')) :
    PropertyAllowed env.memory dtb ts p := by
  obtain ⟨t, next', token', rfl, -, record⟩ := continues_inv head.header_eq edge
  obtain ⟨rfl, rfl⟩ := token.unique token'
  have accepted := (record.halting halts).2 p rfl
  have models := head.modelsAt token
  refine ⟨head.cellsFit_iff.mp accepted.cells, fun complete => ?_⟩
  have decodes := models.decodes.mpr complete
  exact (models.decodable_iff complete).mpr ⟨accepted.initialized decodes, accepted.reg decodes⟩

/-- A normal return accepts the tokens of the blob. -/
theorem acceptedTokens_of_returned (halts : env.panicReturns = false)
    (returned : (parseDeviceTreeBlob env outHwInfo dtb prior).outcome = .ok ())
    (tokens : BlobTokens env.memory dtb us) : AcceptedTokens env.memory dtb us := by
  refine ⟨tokens, fun ts vs split => ?_, ?_, fun ts p vs split => ?_⟩
  · rw [split] at tokens
    obtain ⟨s, info, next, s', info', head, token, edge⟩ :=
      exists_head_of_tokens halts returned tokens
    obtain ⟨t, next', token', -, nonzero, -⟩ := continues_inv head.header_eq edge
    obtain ⟨rfl, -⟩ := token.unique token'
    exact fun same => nonzero rfl (head.grammar.level_iff.mpr same)
  · rcases exists_head_at_end halts returned tokens with ⟨s, head, level⟩
    exact head.grammar.level_iff.mp level
  · rw [split] at tokens
    obtain ⟨s, info, next, s', info', head, token, edge⟩ :=
      exists_head_of_tokens halts returned tokens
    exact head.propertyAllowed halts token edge

/-- An allowed property is handled without a panic. -/
theorem WalkHead.not_error_of_allowed
    (head : WalkHead env outHwInfo dtb prior ts s info)
    (token : BlobToken env.memory dtb s.dtbCursor (.prop p) next)
    (allowed : PropertyAllowed env.memory dtb ts p) {e : Stop} :
    (walkStep env dtb (blobEnd env.memory dtb) s info).outcome ≠ .error e := by
  obtain ⟨o, evs, post, -, outcome⟩ := step_prop head.header_eq token
  have models := head.modelsAt token
  have ending := post.ending
  rw [outcome]
  generalize (walkStep env dtb (blobEnd env.memory dtb) s info).state = info' at ending
  cases ending with
  | handled => exact nofun
  | malformed unfit => exact absurd (head.cellsFit_iff.mpr allowed.cells) unfit
  | stopped _ ending =>
      cases ending with
      | uninitialized decodes bare =>
          have complete := models.decodes.mp decodes
          exact absurd ((models.decodable_iff complete).mp (allowed.decodable complete)).1 bare
      | regions decodes _ ending =>
          have complete := models.decodes.mp decodes
          have accepted := ((models.decodable_iff complete).mp (allowed.decodable complete)).2
          cases ending with
          | rejected rejected => exact absurd accepted rejected

/-- With fuel for every address, accepted tokens lead to a normal return, whatever record the
parser is given. -/
theorem returned_of_acceptedTokens (enough : 2 ^ 64 ≤ env.fuel)
    (passed : (readPrologue env outHwInfo dtb prior).outcome = .ok ())
    (few : us.length < env.fuel) (accepted : AcceptedTokens env.memory dtb us) :
    (parseDeviceTreeBlob env outHwInfo dtb prior).outcome = .ok () := by
  obtain ⟨o, ending, outcome⟩ := parse_spec env outHwInfo dtb prior
  generalize (parseDeviceTreeBlob env outHwInfo dtb prior).state = final at ending
  cases o with
  | ok => exact outcome
  | error e =>
      exfalso
      cases ending with
      | prologue failed =>
          rw [passed] at failed
          cases failed
      | @stopped ts s info e head failed =>
          rcases accepted.tokens.split head.grammar.path with
            ⟨t, vs, next, split, token⟩ | ⟨-, atEnd⟩
          · rcases head.error_inv token failed with ⟨rfl, level⟩ | ⟨-, out⟩ | ⟨p, rfl⟩
            · exact accepted.nested ts vs split (head.grammar.level_iff.mp level)
            · have := (blobEnd env.memory dtb).toNat_lt
              omega
            · exact head.not_error_of_allowed token (accepted.properties ts p vs split) failed
          · exact step_not_error_at_end atEnd failed
      | exhausted _ trail length =>
          cases trail with
          | start =>
              rw [List.length_nil] at length
              omega
          | @step ts b _ trail edge =>
              rw [List.length_append, List.length_singleton] at length
              have head : WalkHead env outHwInfo dtb prior ts b.1 b.2 :=
                ⟨passed, trail, by omega⟩
              obtain ⟨t, next, token, -⟩ := continues_inv head.header_eq edge
              obtain ⟨vs, split⟩ := head.tokens_eq accepted.tokens token
              rw [split, List.length_append, List.length_cons] at few
              omega
      | @unfinished ts s info e head le short unfinished =>
          rcases accepted.tokens.split head.grammar.path with ⟨t, vs, next, -, token⟩ | ⟨rfl, -⟩
          · have := token.room
            omega
          · refine unfinished ⟨head.grammar.level_iff.mpr accepted.level, ?_⟩
            rcases head.grammar.ended with ⟨open', -⟩ | ⟨-, one, -⟩
            · exact absurd accepted.tokens.fdtEnd_mem open'
            · exact one

end Heads

end CharcoalOS
