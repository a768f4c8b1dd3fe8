import CharcoalOS.Hardware.Contents

/-!
# The struct block in pieces

A `Piece` is a token as it is written, with its padding. `Piece.tokenAt` is the way from
bytes to tokens: a piece that fits the address is read as its item, wherever the bytes
are. `exists_pieces` is the way back, for every blob whose property names end in the
strings block.
-/

namespace CharcoalOS

/-- A token as it is written; `FDT_END` is not one of them. -/
inductive Piece : Type
  | beginNode (name padding : List UInt8)
  | endNode
  | prop (nameOffset : UInt32) (value padding : List UInt8)
  | nop
deriving DecidableEq, Repr

namespace Piece

def bytes : Piece → List UInt8
  | .beginNode name padding => word fdtBeginNode ++ (name ++ 0 :: padding)
  | .endNode => word fdtEndNode
  | .prop nameOffset value padding =>
      word fdtProp ++ (word (UInt32.ofNat value.length) ++ (word nameOffset ++ (value ++ padding)))
  | .nop => word fdtNop

/-- What the piece says; `strings` is the strings block. -/
def item (strings : List UInt8) : Piece → Item
  | .beginNode name _ => .beginNode name
  | .endNode => .endNode
  | .prop nameOffset value _ => .prop (chars (strings.drop nameOffset.toNat)) value
  | .nop => .nop

/-- The piece can be at the address `a`: names are terminated, and the padding leads to a
multiple of 4. -/
def Fits (strings : List UInt8) (a : Nat) : Piece → Prop
  | .beginNode name padding =>
      0 ∉ name ∧ padding.length < 4 ∧ (a + 4 + name.length + 1 + padding.length) % 4 = 0
  | .prop nameOffset value padding =>
      0 ∈ strings.drop nameOffset.toNat ∧ value.length < 2 ^ 32 ∧ padding.length < 4 ∧
        (a + 12 + value.length + padding.length) % 4 = 0
  | _ => True

end Piece

instance decidableFits (strings : List UInt8) (a : Nat) : (p : Piece) → Decidable (p.Fits strings a)
  | .beginNode _ _ => inferInstanceAs (Decidable (_ ∧ _ ∧ _))
  | .endNode => isTrue trivial
  | .prop _ _ _ => inferInstanceAs (Decidable (_ ∧ _ ∧ _ ∧ _))
  | .nop => isTrue trivial

/-- The bytes of pieces, one after the other. -/
def piecesBytes (pieces : List Piece) : List UInt8 := pieces.flatMap Piece.bytes

/-- Each of the pieces can be where the ones before it end. -/
def PiecesFit (strings : List UInt8) : Nat → List Piece → Prop
  | _, [] => True
  | a, p :: pieces => p.Fits strings a ∧ PiecesFit strings (a + p.bytes.length) pieces

instance decidablePiecesFit (strings : List UInt8) :
    (a : Nat) → (pieces : List Piece) → Decidable (PiecesFit strings a pieces)
  | _, [] => isTrue trivial
  | a, p :: pieces =>
      have := decidablePiecesFit strings (a + p.bytes.length) pieces
      inferInstanceAs (Decidable (p.Fits strings a ∧ PiecesFit strings (a + p.bytes.length) pieces))

/-- The strings block of the blob at `dtb`. -/
def stringsBlock (mem : Memory) (dtb : UInt64) : List UInt8 :=
  bytesFrom mem (dtb + (headerAt mem dtb).offDtStrings.toUInt64)
    (headerAt mem dtb).sizeDtStrings.toNat

/-- The struct block of the blob at `dtb`. -/
def structBlock (mem : Memory) (dtb : UInt64) : List UInt8 :=
  bytesFrom mem (blobStart mem dtb) (headerAt mem dtb).sizeDtStruct.toNat

/-- The struct block is the pieces, then `FDT_END`, then the `tail`. -/
structure HoldsPieces (mem : Memory) (dtb : UInt64) (pieces : List Piece) (tail : List UInt8) :
    Prop where
  bytes : structBlock mem dtb = piecesBytes pieces ++ (word fdtEnd ++ tail)
  fit : PiecesFit (stringsBlock mem dtb) (blobStart mem dtb).toNat pieces

/-! ## Bytes at an address -/

/-- The bytes are at the address `a`. -/
def LiesAt (mem : Memory) (a : UInt64) (bytes : List UInt8) : Prop :=
  bytesFrom mem a bytes.length = bytes

section Bytes

variable {mem : Memory} {a b limit : UInt64} {left right : List UInt8} {n : UInt32} {k : Nat}

theorem liesAt_append :
    LiesAt mem a (left ++ right) ↔
      LiesAt mem a left ∧ LiesAt mem (a + UInt64.ofNat left.length) right := by
  rw [LiesAt, List.length_append, bytesFrom_add]
  exact ⟨fun both => List.append_inj both (length_bytesFrom _),
    fun both => by rw [both.1, both.2]⟩

theorem liesAt_cons {c : UInt8} :
    LiesAt mem a (c :: right) ↔ mem a = c ∧ LiesAt mem (a + 1) right := by
  rw [LiesAt, List.length_cons, bytesFrom]
  exact List.cons_eq_cons

theorem liesAt_bytesFrom : LiesAt mem a (bytesFrom mem a k) := by
  rw [LiesAt, length_bytesFrom]

theorem toNat_add_ofNat (room : a.toNat + k < 2 ^ 64) :
    (a + UInt64.ofNat k).toNat = a.toNat + k := by
  rw [UInt64.toNat_add, UInt64.toNat_ofNat', Nat.mod_eq_of_lt (a := k) (by omega),
    Nat.mod_eq_of_lt room]

@[simp] theorem length_word : (word n).length = 4 := rfl

/-- The bytes of a number, by their values. -/
theorem word_toNat : (word n).map UInt8.toNat =
    [n.toNat / 2 ^ 24 % 2 ^ 8, n.toNat / 2 ^ 16 % 2 ^ 8, n.toNat / 2 ^ 8 % 2 ^ 8,
      n.toNat % 2 ^ 8] := by
  simp [word, Nat.shiftRight_eq_div_pow]

/-- A number is read back as it was written. -/
theorem LiesAt.be32_eq (lies : LiesAt mem a (word n)) : be32 mem a = n := by
  have bound := n.toNat_lt
  rw [← UInt32.toNat_inj, be32_toNat, show bytesFrom mem a 4 = word n from lies, word_toNat]
  simp only [Digits.value, List.reverse_cons, List.reverse_nil, List.nil_append, List.cons_append,
    Nat.ofDigits_cons, Nat.ofDigits_nil]
  omega

/-- And written as it was read. -/
theorem liesAt_word : LiesAt mem a (word (be32 mem a)) := by
  have value := be32_toNat mem a
  have digits := word_toNat (n := be32 mem a)
  rw [value] at digits
  refine List.map_injective_iff.mpr (fun _ _ => UInt8.toNat_inj.mp) ?_
  rw [digits]
  have := (mem a).toNat_lt
  have := (mem (a + 1)).toNat_lt
  have := (mem (a + 1 + 1)).toNat_lt
  have := (mem (a + 1 + 1 + 1)).toNat_lt
  simp only [length_word, bytesFrom, List.map_cons, List.map_nil, Digits.value, List.reverse_cons,
    List.reverse_nil, List.nil_append, List.cons_append, Nat.ofDigits_cons, Nat.ofDigits_nil,
    List.cons.injEq, and_true]
  omega

/-- Each byte there is one of the bytes. -/
theorem LiesAt.byte_mem {bytes : List UInt8} (lies : LiesAt mem a bytes)
    (room : a.toNat + bytes.length < 2 ^ 64) (above : a ≤ b)
    (below : b.toNat < a.toNat + bytes.length) : mem b ∈ bytes := by
  have above := UInt64.le_iff_toNat_le.mp above
  have less : b.toNat - a.toNat < bytes.length := by omega
  have there := bytesFrom_eq_iff.mp lies _ less
  have address : a + UInt64.ofNat (b.toNat - a.toNat) = b := by
    rw [← UInt64.toNat_inj, toNat_add_ofNat (by omega)]
    omega
  rw [address] at there
  rw [there]
  exact List.getElem_mem less

/-- Padding to the next multiple of 4 is at most three bytes. -/
theorem align4_eq (le : a.toNat ≤ b.toNat) (less : b.toNat < a.toNat + 4)
    (multiple : b.toNat % 4 = 0) (room : b.toNat + 4 < 2 ^ 64) : align4 a = b := by
  rw [← UInt64.toNat_inj, align4_toNat (by omega)]
  omega

end Bytes

/-! ## From bytes to tokens -/

section Tokens

variable {mem : Memory} {dtb a limit : UInt64} {sizeDtStrings : UInt32} {strings : List UInt8}
  {p : Piece} {name padding value : List UInt8} {nameOffset : UInt32}

theorem tokenAt_beginNode (fits : (Piece.beginNode name padding).Fits strings a.toNat)
    (lies : LiesAt mem a (Piece.beginNode name padding).bytes)
    (inside : a.toNat + (Piece.beginNode name padding).bytes.length ≤ limit.toNat)
    (room : limit.toNat + 4 < 2 ^ 64) :
    TokenAt mem limit sizeDtStrings a (.beginNode (a + 4))
      (a + UInt64.ofNat (Piece.beginNode name padding).bytes.length) := by
  obtain ⟨clean, few, aligned⟩ := fits
  obtain ⟨kind, rest⟩ := liesAt_append.mp lies
  obtain ⟨chars, rest⟩ := liesAt_append.mp rest
  obtain ⟨nul, -⟩ := liesAt_cons.mp rest
  have length : (Piece.beginNode name padding).bytes.length =
      4 + (name.length + (padding.length + 1)) := by
    simp [Piece.bytes]
  rw [length] at inside ⊢
  have four : (a + 4).toNat = a.toNat + 4 := toNat_add_ofNat (k := 4) (by omega)
  have z : (a + 4 + UInt64.ofNat name.length).toNat = a.toNat + 4 + name.length := by
    rw [toNat_add_ofNat (by omega), four]
  have past : (a + 4 + UInt64.ofNat name.length + 1).toNat = a.toNat + 4 + name.length + 1 := by
    rw [← z]
    exact toNat_add_ofNat (k := 1) (by omega)
  have next : (a + UInt64.ofNat (4 + (name.length + (padding.length + 1)))).toNat =
      a.toNat + (4 + (name.length + (padding.length + 1))) := toNat_add_ofNat (by omega)
  have ends : NulAt mem limit (a + 4) (a + 4 + UInt64.ofNat name.length) := by
    refine ⟨?_, ?_, nul, fun y above below zero => clean ?_⟩
    · rw [UInt64.le_iff_toNat_le]
      omega
    · rw [UInt64.lt_iff_toNat_lt]
      omega
    · rw [← zero]
      have below := UInt64.lt_iff_toNat_lt.mp below
      exact LiesAt.byte_mem chars (by show (a + 4).toNat + _ < _; omega) above
        (by show _ < (a + 4).toNat + _; omega)
  have align : align4 (a + 4 + UInt64.ofNat name.length + 1) =
      a + UInt64.ofNat (4 + (name.length + (padding.length + 1))) :=
    align4_eq (by omega) (by omega) (by omega) (by omega)
  rw [← align]
  refine .beginNode (by omega) kind.be32_eq ends ?_
  rw [align, UInt64.le_iff_toNat_le]
  omega

theorem tokenAt_prop (fits : (Piece.prop nameOffset value padding).Fits strings a.toNat)
    (lies : LiesAt mem a (Piece.prop nameOffset value padding).bytes)
    (inside : a.toNat + (Piece.prop nameOffset value padding).bytes.length ≤ limit.toNat)
    (room : limit.toNat + 4 < 2 ^ 64) (short : strings.length ≤ sizeDtStrings.toNat) :
    TokenAt mem limit sizeDtStrings a (.prop ⟨UInt32.ofNat value.length, nameOffset, a + 12⟩)
        (a + UInt64.ofNat (Piece.prop nameOffset value padding).bytes.length) ∧
      LiesAt mem (a + 12) value := by
  obtain ⟨terminated, small, few, aligned⟩ := fits
  obtain ⟨kind, rest⟩ := liesAt_append.mp lies
  obtain ⟨size, rest⟩ := liesAt_append.mp rest
  obtain ⟨offset, rest⟩ := liesAt_append.mp rest
  obtain ⟨data, -⟩ := liesAt_append.mp rest
  have length : (Piece.prop nameOffset value padding).bytes.length =
      4 + (4 + (4 + (value.length + padding.length))) := by
    simp [Piece.bytes]
  rw [length] at inside ⊢
  have eight : a + UInt64.ofNat (word fdtProp).length +
      UInt64.ofNat (word (UInt32.ofNat value.length)).length = a + 8 := UInt64.add_assoc a 4 4
  have twelve : a + UInt64.ofNat (word fdtProp).length +
      UInt64.ofNat (word (UInt32.ofNat value.length)).length +
      UInt64.ofNat (word nameOffset).length = a + 12 := by
    rw [eight]
    exact UInt64.add_assoc a 8 4
  rw [eight] at offset
  rw [twelve] at data
  refine ⟨?_, data⟩
  have count : (UInt32.ofNat value.length).toNat = value.length := UInt32.toNat_ofNat_of_lt' small
  have data12 : (a + 12).toNat = a.toNat + 12 := toNat_add_ofNat (k := 12) (by omega)
  have past : (a + 12 + (UInt32.ofNat value.length).toUInt64).toNat =
      a.toNat + 12 + value.length := by
    rw [toNat_add_of_room limit (by rw [UInt32.toNat_toUInt64, count]; omega),
      UInt32.toNat_toUInt64, count, data12]
  have next : (a + UInt64.ofNat (4 + (4 + (4 + (value.length + padding.length))))).toNat =
      a.toNat + (4 + (4 + (4 + (value.length + padding.length)))) := toNat_add_ofNat (by omega)
  have align : align4 (a + 12 + (UInt32.ofNat value.length).toUInt64) =
      a + UInt64.ofNat (4 + (4 + (4 + (value.length + padding.length)))) :=
    align4_eq (by omega) (by omega) (by omega) (by omega)
  have name : nameOffset.toNat < strings.length := by
    by_contra past
    rw [List.drop_eq_nil_of_le (Nat.not_lt.mp past)] at terminated
    cases terminated
  rw [← align]
  refine .prop ?_ kind.be32_eq ?_ ?_ ?_
  · rw [count]
    omega
  · rw [show be32 mem (a + 4) = _ from size.be32_eq, offset.be32_eq]
  · rw [align, UInt64.le_iff_toNat_le]
    omega
  · rw [UInt32.lt_iff_toNat_lt]
    exact Nat.lt_of_lt_of_le name short

/-- The name of a property, by the characters in the strings block. -/
theorem propertyName_eq {q : Property}
    (terminated : 0 ∈ (stringsBlock mem dtb).drop q.nameOffset.toNat) :
    propertyName mem dtb q =
      nameKind (chars ((stringsBlock mem dtb).drop q.nameOffset.toNat)) := by
  have inside : q.nameOffset.toNat ≤ (headerAt mem dtb).sizeDtStrings.toNat := by
    by_contra past
    rw [List.drop_eq_nil_of_le (by rw [stringsBlock, length_bytesFrom]; omega)] at terminated
    cases terminated
  have rest : (stringsBlock mem dtb).drop q.nameOffset.toNat =
      bytesFrom mem (propName dtb (headerAt mem dtb) q.nameOffset).address
        ((headerAt mem dtb).sizeDtStrings.toNat - q.nameOffset.toNat) := by
    have offset : q.nameOffset.toUInt64 = UInt64.ofNat q.nameOffset.toNat := by
      rw [← UInt32.toNat_toUInt64, UInt64.ofNat_toNat]
    rw [stringsBlock, propName, offset]
    nth_rewrite 1 [← Nat.add_sub_cancel' inside]
    rw [bytesFrom_add]
    exact List.drop_left' (length_bytesFrom _)
  obtain ⟨clean, behind, eq⟩ := readsAs_chars terminated
  have lies : LiesAt mem (propName dtb (headerAt mem dtb) q.nameOffset).address
      ((stringsBlock mem dtb).drop q.nameOffset.toNat) := by
    rw [rest]
    exact liesAt_bytesFrom
  rw [eq, List.append_cons] at lies
  have name := (liesAt_append.mp lies).1
  rw [LiesAt, List.length_append, List.length_singleton] at name
  exact nameOf_eq clean name

/-- **A piece is read as its item.** -/
theorem Piece.tokenAt (fits : p.Fits (stringsBlock mem dtb) a.toNat) (lies : LiesAt mem a p.bytes)
    (inside : a.toNat + p.bytes.length ≤ limit.toNat) (room : limit.toNat + 4 < 2 ^ 64) :
    ∃ t, TokenAt mem limit (headerAt mem dtb).sizeDtStrings a t
        (a + UInt64.ofNat p.bytes.length) ∧ t ≠ .fdtEnd ∧
      t.Spells mem dtb (p.item (stringsBlock mem dtb)) := by
  cases p with
  | beginNode name padding =>
      refine ⟨_, tokenAt_beginNode fits lies inside room, by simp, .beginNode ?_⟩
      have rest := (liesAt_append.mp lies).2
      cases name with
      | nil => exact ⟨fun _ => rfl, fun _ => (liesAt_cons.mp rest).1⟩
      | cons c name =>
          have first : mem (a + 4) = c := (liesAt_cons.mp rest).1
          rw [first]
          refine ⟨fun zero => absurd ?_ fits.1, fun nil => by cases nil⟩
          rw [zero]
          exact List.mem_cons_self
  | endNode => exact ⟨_, .endNode inside lies.be32_eq, by simp, .endNode⟩
  | prop nameOffset value padding =>
      have short : (stringsBlock mem dtb).length ≤ (headerAt mem dtb).sizeDtStrings.toNat := by
        rw [stringsBlock, length_bytesFrom]
      obtain ⟨token, data⟩ := tokenAt_prop fits lies inside room short
      refine ⟨_, token, by simp, ?_⟩
      have held : (⟨UInt32.ofNat value.length, nameOffset, a + 12⟩ : Property).value mem =
          value := by
        rw [Property.value, UInt32.toNat_ofNat_of_lt' fits.2.1]
        exact data
      have spells : Token.Spells mem dtb
          (.prop ⟨UInt32.ofNat value.length, nameOffset, a + 12⟩) _ :=
        .prop (propertyName_eq fits.1)
      rwa [held] at spells
  | nop => exact ⟨_, .nop inside lies.be32_eq, by simp, .nop⟩

/-- So are many, up to `FDT_END`. -/
theorem tokens_of_pieces {pieces : List Piece} {tail : List UInt8}
    (fit : PiecesFit (stringsBlock mem dtb) a.toNat pieces)
    (lies : LiesAt mem a (piecesBytes pieces ++ (word fdtEnd ++ tail)))
    (inside : a.toNat + (piecesBytes pieces ++ (word fdtEnd ++ tail)).length ≤ limit.toNat)
    (room : limit.toNat + 4 < 2 ^ 64) :
    ∃ us, Tokens mem limit (headerAt mem dtb).sizeDtStrings a us ∧
      List.Forall₂ (Token.Spells mem dtb) us
        (pieces.map (Piece.item (stringsBlock mem dtb)) ++ [.fdtEnd]) := by
  induction pieces generalizing a with
  | nil =>
      have kind := (liesAt_append.mp (show LiesAt mem a (word fdtEnd ++ tail) from lies)).1.be32_eq
      have four : a.toNat + 4 ≤ limit.toNat := by
        refine le_trans ?_ inside
        simp [piecesBytes]
      exact ⟨[.fdtEnd], .fdtEnd (.fdtEnd four kind), .cons .fdtEnd .nil⟩
  | cons p pieces ih =>
      obtain ⟨fits, fit⟩ := fit
      rw [piecesBytes, List.flatMap_cons, List.append_assoc] at lies inside
      obtain ⟨here, rest⟩ := liesAt_append.mp lies
      rw [List.length_append] at inside
      obtain ⟨t, token, open', spells⟩ := p.tokenAt fits here (by omega) room
      have next := toNat_add_ofNat (a := a) (k := p.bytes.length) (by omega)
      rw [← next] at fit
      obtain ⟨us, tokens, spelled⟩ := ih fit rest (by rw [next]; unfold piecesBytes; omega)
      exact ⟨t :: us, .cons token open' tokens, .cons spells spelled⟩

/-! ## From tokens to bytes -/

/-- The bytes up to a later address, as a list of their own. -/
theorem exists_liesAt (mem : Memory) {a b : UInt64} (le : a.toNat ≤ b.toNat) :
    ∃ bytes, bytes.length = b.toNat - a.toNat ∧ LiesAt mem a bytes ∧
      a + UInt64.ofNat bytes.length = b := by
  have bound := b.toNat_lt
  refine ⟨bytesFrom mem a (b.toNat - a.toNat), length_bytesFrom _, liesAt_bytesFrom, ?_⟩
  rw [length_bytesFrom, ← UInt64.toNat_inj, toNat_add_ofNat (by omega)]
  omega

/-- **A token is written as a piece.** -/
theorem TokenAt.exists_piece {t : Token} {b : UInt64}
    (token : TokenAt mem limit sizeDtStrings a t b) (open' : t ≠ .fdtEnd)
    (room : limit.toNat + 4 < 2 ^ 64)
    (terminated : ∀ q, t = .prop q → 0 ∈ strings.drop q.nameOffset.toNat) :
    ∃ p : Piece, p.Fits strings a.toNat ∧ LiesAt mem a p.bytes ∧
      a.toNat + p.bytes.length = b.toNat := by
  have four : (a + 4).toNat = a.toNat + 4 := toNat_add_of_room limit token.room
  cases token with
  | @beginNode z _ kind nul inside =>
      have above := UInt64.le_iff_toNat_le.mp nul.le
      have below := UInt64.lt_iff_toNat_lt.mp nul.lt
      have succ : (z + 1).toNat = z.toNat + 1 := toNat_add_ofNat (k := 1) (by omega)
      have next := align4_toNat (a := z + 1) (by omega)
      obtain ⟨name, nameLength, nameLies, nameEnd⟩ := exists_liesAt mem above
      obtain ⟨padding, paddingLength, paddingLies, paddingEnd⟩ :=
        exists_liesAt mem (a := z + 1) (b := align4 (z + 1)) (by omega)
      have clean : 0 ∉ name := by
        intro member
        obtain ⟨i, less, zero⟩ := List.mem_iff_getElem.mp member
        have there := bytesFrom_eq_iff.mp nameLies i less
        have address : (a + 4 + UInt64.ofNat i).toNat = a.toNat + 4 + i := by
          rw [toNat_add_ofNat (by omega), four]
        refine nul.first (a + 4 + UInt64.ofNat i) ?_ ?_ (there.trans zero)
        · rw [UInt64.le_iff_toNat_le]
          omega
        · rw [UInt64.lt_iff_toNat_lt]
          omega
      refine ⟨.beginNode name padding, ⟨clean, by omega, by omega⟩, ?_, ?_⟩
      · rw [Piece.bytes, ← kind]
        refine liesAt_append.mpr ⟨liesAt_word, liesAt_append.mpr ⟨nameLies, ?_⟩⟩
        exact liesAt_cons.mpr ⟨(congrArg mem nameEnd).trans nul.nul,
          (show a + 4 + UInt64.ofNat name.length + 1 = z + 1 by rw [nameEnd]) ▸ paddingLies⟩
      · rw [Piece.bytes, List.length_append, List.length_append, List.length_cons, length_word]
        omega
  | endNode _ kind =>
      exact ⟨.endNode, trivial, by rw [Piece.bytes, ← kind]; exact liesAt_word, four.symm⟩
  | @prop q inside kind eq padded named =>
      have data : q.data.toNat = a.toNat + 12 := by
        rw [eq]
        exact toNat_add_ofNat (k := 12) (by omega)
      have past : (q.data + q.length.toUInt64).toNat = a.toNat + 12 + q.length.toNat := by
        rw [toNat_add_of_room limit (by rw [UInt32.toNat_toUInt64]; omega),
          UInt32.toNat_toUInt64, data]
      have next := align4_toNat (a := q.data + q.length.toUInt64) (by omega)
      obtain ⟨value, valueLength, valueLies, valueEnd⟩ := exists_liesAt mem
        (a := q.data) (b := q.data + q.length.toUInt64) (by omega)
      obtain ⟨padding, paddingLength, paddingLies, paddingEnd⟩ := exists_liesAt mem
        (a := q.data + q.length.toUInt64) (b := align4 (q.data + q.length.toUInt64)) (by omega)
      have small := q.length.toNat_lt
      have count : UInt32.ofNat value.length = q.length := by
        rw [valueLength, past, data, Nat.add_sub_cancel_left, UInt32.ofNat_toNat]
      have length : q.length = be32 mem (a + 4) := congrArg Property.length eq
      have offset : q.nameOffset = be32 mem (a + 8) := congrArg Property.nameOffset eq
      have start : q.data = a + 12 := congrArg Property.data eq
      refine ⟨.prop q.nameOffset value padding,
        ⟨terminated q rfl, by omega, by omega, by omega⟩, ?_, ?_⟩
      · rw [Piece.bytes, ← kind, count, length, offset]
        refine liesAt_append.mpr ⟨liesAt_word, liesAt_append.mpr ⟨liesAt_word, ?_⟩⟩
        rw [show a + UInt64.ofNat (word (be32 mem a)).length +
          UInt64.ofNat (word (be32 mem (a + 4))).length = a + 8 from UInt64.add_assoc a 4 4]
        refine liesAt_append.mpr ⟨liesAt_word, ?_⟩
        rw [show a + 8 + UInt64.ofNat (word (be32 mem (a + 8))).length = a + 12 from
          UInt64.add_assoc a 8 4, ← start]
        exact liesAt_append.mpr ⟨valueLies, valueEnd ▸ paddingLies⟩
      · simp only [Piece.bytes, List.length_append, length_word]
        omega
  | nop _ kind =>
      exact ⟨.nop, trivial, by rw [Piece.bytes, ← kind]; exact liesAt_word, four.symm⟩
  | fdtEnd => exact absurd rfl open'

theorem Tokens.exists_pieces {us : List Token} (tokens : Tokens mem limit sizeDtStrings a us)
    (room : limit.toNat + 4 < 2 ^ 64)
    (terminated : ∀ q, .prop q ∈ us → 0 ∈ strings.drop q.nameOffset.toNat) :
    ∃ pieces tail, PiecesFit strings a.toNat pieces ∧
      LiesAt mem a (piecesBytes pieces ++ (word CharcoalOS.fdtEnd ++ tail)) ∧
      a.toNat + (piecesBytes pieces ++ (word CharcoalOS.fdtEnd ++ tail)).length =
        limit.toNat := by
  induction tokens with
  | @fdtEnd a b token =>
      cases token with
      | fdtEnd inside kind =>
          have four : (a + 4).toNat = a.toNat + 4 := toNat_add_of_room limit inside
          obtain ⟨tail, length, lies, -⟩ := exists_liesAt mem (a := a + 4) (b := limit)
            (by omega)
          refine ⟨[], tail, trivial, ?_, ?_⟩
          · rw [← kind, piecesBytes, List.flatMap_nil, List.nil_append]
            exact liesAt_append.mpr ⟨liesAt_word, lies⟩
          · simp only [piecesBytes, List.flatMap_nil, List.nil_append, List.length_append,
              length_word, length]
            omega
  | @cons a b t us token open' _ ih =>
      obtain ⟨p, fits, here, size⟩ := token.exists_piece open' room
        fun q eq => terminated q (List.mem_cons.mpr (Or.inl eq.symm))
      obtain ⟨pieces, tail, fit, lies, length⟩ :=
        ih fun q member => terminated q (List.mem_cons_of_mem _ member)
      have bound := b.toNat_lt
      have next : a + UInt64.ofNat p.bytes.length = b := by
        rw [← UInt64.toNat_inj, toNat_add_ofNat (by omega)]
        exact size
      rw [← size] at fit
      rw [← next] at lies
      refine ⟨p :: pieces, tail, ⟨fits, fit⟩, ?_, ?_⟩
      · rw [piecesBytes, List.flatMap_cons, List.append_assoc]
        exact liesAt_append.mpr ⟨here, lies⟩
      · rw [piecesBytes, List.flatMap_cons, List.append_assoc, List.length_append]
        unfold piecesBytes at length
        omega

end Tokens

/-! ## Blobs -/

section Blobs

variable {mem : Memory} {outHwInfo dtb n : UInt64} {pieces : List Piece} {tail : List UInt8}

/-- The items of the pieces of a struct block. -/
def piecesItems (strings : List UInt8) (pieces : List Piece) : List Item :=
  pieces.map (Piece.item strings) ++ [.fdtEnd]

/-- Each property name ends in the strings block. -/
def NamesTerminated (mem : Memory) (dtb : UInt64) : Prop :=
  ∀ us, BlobTokens mem dtb us → ∀ q, .prop q ∈ us →
    0 ∈ (stringsBlock mem dtb).drop q.nameOffset.toNat

/-- **Every blob with tokens and terminated names is pieces.** -/
theorem exists_pieces {us : List Token} (accepted : HeaderAccepted mem outHwInfo dtb)
    (noWrap : NoWrap mem dtb) (tokens : BlobTokens mem dtb us)
    (terminated : NamesTerminated mem dtb) : ∃ pieces tail, HoldsPieces mem dtb pieces tail := by
  have start := blobStart_toNat accepted noWrap
  have stop := blobEnd_toNat accepted noWrap
  obtain ⟨pieces, tail, fit, lies, length⟩ :=
    tokens.exists_pieces (blobEnd_room accepted noWrap) (terminated us tokens)
  refine ⟨pieces, tail, ?_, fit⟩
  rw [structBlock, ← lies]
  congr 1
  omega

/-- The pieces are the contents. -/
theorem HoldsPieces.contents (holds : HoldsPieces mem dtb pieces tail)
    (accepted : HeaderAccepted mem outHwInfo dtb) (noWrap : NoWrap mem dtb)
    (map : ReservedEntries mem dtb n) :
    HoldsContents mem outHwInfo dtb (piecesItems (stringsBlock mem dtb) pieces)
      (reservedEntries mem dtb n) := by
  refine ⟨accepted, ⟨n, map, rfl⟩, ?_⟩
  have start := blobStart_toNat accepted noWrap
  have stop := blobEnd_toNat accepted noWrap
  have length := congrArg List.length holds.bytes
  rw [structBlock, length_bytesFrom] at length
  have lies : LiesAt mem (blobStart mem dtb) (piecesBytes pieces ++ (word fdtEnd ++ tail)) := by
    rw [← holds.bytes]
    exact liesAt_bytesFrom
  exact tokens_of_pieces holds.fit lies (by omega) (blobEnd_room accepted noWrap)

end Blobs

end CharcoalOS
