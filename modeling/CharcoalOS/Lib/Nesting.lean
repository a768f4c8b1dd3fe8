import Mathlib

/-!
# Brackets in a token list

Some tokens open a bracket and some close one. `openBrackets mark ts` are the
positions of the tokens that opened the brackets open after `ts`, innermost first: a
position names a bracket, since no two brackets are opened by one token.

A reader that keeps one variable for all brackets, set by selected tokens and cleared
where a bracket opens, holds what `SetAfter` says. `SetAfter.innermost_iff` is when that
belongs to the bracket the reader is in: no bracket may have closed since.
-/

namespace Nesting

/-- What a token does to the brackets. -/
inductive Mark : Type
  | opens
  | closes
  | inside
deriving DecidableEq, Repr

variable {τ : Type} (mark : τ → Mark)

/-- The open brackets and the number of tokens past `t`. -/
def openStep (state : List Nat × Nat) (t : τ) : List Nat × Nat :=
  match mark t with
  | .opens => (state.2 :: state.1, state.2 + 1)
  | .closes => (state.1.tail, state.2 + 1)
  | .inside => (state.1, state.2 + 1)

/-- The brackets open after `ts`, innermost first. -/
def openBrackets (ts : List τ) : List Nat := (ts.foldl (openStep mark) ([], 0)).1

/-- The innermost bracket open after `ts`. -/
def innermost (ts : List τ) : Option Nat := (openBrackets mark ts).head?

/-- The tokens since the last bracket opened or closed. -/
def sinceBracket (ts : List τ) : List τ := ts.rtakeWhile fun t => mark t = .inside

variable {mark} {ts us vs : List τ} {t : τ}

theorem openStep_length : (ts.foldl (openStep mark) ([], 0)).2 = ts.length := by
  induction ts using List.reverseRecOn with
  | nil => rfl
  | append_singleton ts t ih =>
      rw [List.foldl_append, List.length_append, ← ih]
      simp only [List.foldl_cons, List.foldl_nil, openStep]
      cases mark t <;> rfl

theorem openBrackets_snoc :
    openBrackets mark (ts ++ [t]) =
      match mark t with
      | .opens => ts.length :: openBrackets mark ts
      | .closes => (openBrackets mark ts).tail
      | .inside => openBrackets mark ts := by
  rw [openBrackets, List.foldl_append, List.foldl_cons, List.foldl_nil, openStep, openStep_length]
  cases mark t <;> rfl

/-- Where no bracket opens, the closing tokens take the innermost brackets away. -/
theorem openBrackets_append (closed : ∀ v ∈ vs, mark v ≠ .opens) :
    openBrackets mark (us ++ vs) =
      (openBrackets mark us).drop (vs.countP fun v => mark v = .closes) := by
  induction vs using List.reverseRecOn with
  | nil => simp
  | append_singleton vs v ih =>
      have last := closed v (List.mem_append_right _ List.mem_cons_self)
      rw [← List.append_assoc, openBrackets_snoc,
        ih fun w member => closed w (List.mem_append_left _ member), List.countP_append]
      cases kind : mark v with
      | opens => exact absurd kind last
      | closes => simp [kind]
      | inside => simp [kind]

/-- The open brackets were opened one after the other, before the end. -/
theorem openBrackets_decreasing :
    (openBrackets mark ts).Pairwise (· > ·) ∧ ∀ n ∈ openBrackets mark ts, n < ts.length := by
  induction ts using List.reverseRecOn with
  | nil => exact ⟨.nil, List.forall_mem_nil _⟩
  | append_singleton ts t ih =>
      obtain ⟨decreasing, before⟩ := ih
      rw [openBrackets_snoc, List.length_append, List.length_singleton]
      cases mark t with
      | opens =>
          refine ⟨List.pairwise_cons.mpr ⟨before, decreasing⟩, fun n member => ?_⟩
          rcases List.mem_cons.mp member with rfl | older
          · exact Nat.lt_succ_self _
          · exact Nat.lt_succ_of_lt (before n older)
      | closes =>
          refine ⟨decreasing.tail, fun n member => ?_⟩
          exact Nat.lt_succ_of_lt (before n (List.mem_of_mem_tail member))
      | inside => exact ⟨decreasing, fun n member => Nat.lt_succ_of_lt (before n member)⟩

/-- In a decreasing list the first element does not come again. -/
theorem eq_zero_of_head_drop {ns : List Nat} {n k : Nat} (decreasing : ns.Pairwise (· > ·))
    (first : ns.head? = some n) (again : (ns.drop k).head? = some n) : k = 0 := by
  cases ns with
  | nil => cases first
  | cons m ns =>
      cases first
      cases k with
      | zero => rfl
      | succ k =>
          have member : n ∈ ns := List.mem_of_mem_drop (List.mem_of_mem_head? again)
          exact absurd ((List.pairwise_cons.mp decreasing).1 n member) (Nat.lt_irrefl n)

/-! ## One variable for all brackets -/

/-- The variable that every selected token sets, and every opening token clears, was
last set by `t`, right after `us`. -/
def SetAfter (mark : τ → Mark) (sel : τ → Bool) (ts us : List τ) (t : τ) : Prop :=
  ∃ vs, ts = us ++ t :: vs ∧ sel t = true ∧ ∀ v ∈ vs, mark v ≠ .opens ∧ sel v = false

/-- The token that the variable is set by. -/
def held (mark : τ → Mark) (sel : τ → Bool) (ts : List τ) : Option τ :=
  ts.foldl (fun value t => if mark t = .opens then none else if sel t then some t else value) none

theorem held_snoc {sel : τ → Bool} :
    held mark sel (ts ++ [t]) =
      if mark t = .opens then none else if sel t then some t else held mark sel ts := by
  rw [held, List.foldl_append]
  rfl

/-- The variable is set if and only if some token set it. -/
theorem held_eq_some_iff {sel : τ → Bool} (inside : ∀ t, sel t = true → mark t = .inside) :
    held mark sel ts = some t ↔ ∃ us, SetAfter mark sel ts us t := by
  induction ts using List.reverseRecOn with
  | nil =>
      refine ⟨nofun, fun ⟨us, vs, eq, _⟩ => ?_⟩
      cases us <;> cases eq
  | append_singleton ts u ih =>
      rw [held_snoc]
      constructor
      · intro set
        split at set
        · cases set
        · rename_i notOpen
          split at set
          · rename_i selected
            cases set
            exact ⟨ts, [], rfl, selected, List.forall_mem_nil _⟩
          · rename_i other
            obtain ⟨us, vs, rfl, selected, later⟩ := ih.mp set
            refine ⟨us, vs ++ [u], by simp, selected, fun v member => ?_⟩
            rcases List.mem_append.mp member with earlier | last
            · exact later v earlier
            · rw [List.mem_singleton.mp last]
              exact ⟨notOpen, Bool.eq_false_iff.mpr other⟩
      · intro set
        obtain ⟨us, vs, eq, selected, later⟩ := set
        rcases List.eq_nil_or_concat vs with rfl | ⟨vs, v, rfl⟩
        · obtain ⟨rfl, last⟩ := List.append_inj' eq rfl
          cases last
          rw [if_neg (by rw [inside t selected]; decide), if_pos selected]
        · rw [List.concat_eq_append, ← List.cons_append, ← List.append_assoc] at eq
          obtain ⟨rfl, last⟩ := List.append_inj' eq rfl
          cases last
          obtain ⟨notOpen, other⟩ := later u (by simp)
          rw [if_neg notOpen, if_neg (by simp [other])]
          exact ih.mpr ⟨us, vs, rfl, selected, fun w member => later w (by simp [member])⟩

/-- A variable set in the bracket the reader is in was set since the last bracket, and
conversely. -/
theorem SetAfter.innermost_iff {sel : τ → Bool} (inside : ∀ t, sel t = true → mark t = .inside)
    (set : SetAfter mark sel ts us t) {n : Nat} (here : innermost mark ts = some n) :
    innermost mark us = some n ↔ (sinceBracket mark ts).any sel = true := by
  obtain ⟨vs, rfl, selected, later⟩ := set
  have kind := inside t selected
  have before : openBrackets mark (us ++ [t]) = openBrackets mark us := by
    rw [openBrackets_snoc, kind]
  have drop : openBrackets mark (us ++ [t] ++ vs) = _ :=
    openBrackets_append fun v member => (later v member).1
  rw [before, List.append_assoc, List.singleton_append] at drop
  rw [innermost, drop] at here
  by_cases quiet : ∀ v ∈ vs, mark v = .inside
  · -- no bracket since: the variable was set in this one
    have none : (vs.countP fun v => mark v = .closes) = 0 := by
      rw [List.countP_eq_zero]
      intro v member
      simp [quiet v member]
    rw [none, List.drop_zero] at here
    refine ⟨fun _ => ?_, fun _ => here⟩
    rw [List.any_eq_true]
    refine ⟨t, ?_, selected⟩
    rw [sinceBracket, List.rtakeWhile, List.mem_reverse, List.reverse_append, List.reverse_cons,
      List.append_assoc, List.takeWhile_append_of_pos (by simpa using quiet)]
    simp [kind]
  · obtain ⟨v, member, outside⟩ : ∃ v ∈ vs, mark v ≠ .inside := by simpa using quiet
    refine ⟨fun same => ?_, fun found => ?_⟩
    · -- a bracket has closed since, so the innermost one is another
      have zero := eq_zero_of_head_drop openBrackets_decreasing.1 same here
      rw [List.countP_eq_zero] at zero
      have closes : mark v = .closes := by
        cases kind' : mark v with
        | opens => exact absurd kind' (later v member).1
        | closes => rfl
        | inside => exact absurd kind' outside
      exact absurd (zero v member) (by simp [closes])
    · obtain ⟨u, since, selected'⟩ := List.any_eq_true.mp found
      have inVs : u ∈ vs := by
        rw [sinceBracket, List.rtakeWhile, List.mem_reverse, List.reverse_append,
          List.reverse_cons, List.append_assoc, List.takeWhile_append] at since
        split at since
        · rename_i whole
          have all := List.takeWhile_eq_self_iff.mp
            ((List.takeWhile_prefix _).eq_of_length whole) v (List.mem_reverse.mpr member)
          exact absurd (by simpa using all) outside
        · exact List.mem_reverse.mp ((List.takeWhile_prefix _).subset since)
      exact absurd selected' (by simp [(later u inVs).2])

/-! ## The latest token of a kind -/

/-- The last token that is selected, given the tokens before it. -/
def latest (sel : List τ → τ → Bool) (ts : List τ) : Option τ :=
  (ts.foldl (fun (state : List τ × Option τ) t =>
    (state.1 ++ [t], if sel state.1 t then some t else state.2)) ([], none)).2

theorem latest_fold {sel : List τ → τ → Bool} :
    (ts.foldl (fun (state : List τ × Option τ) t =>
      (state.1 ++ [t], if sel state.1 t then some t else state.2)) ([], none)).1 = ts := by
  induction ts using List.reverseRecOn with
  | nil => rfl
  | append_singleton ts t ih =>
      rw [List.foldl_append, List.foldl_cons, List.foldl_nil, ih]

theorem latest_snoc {sel : List τ → τ → Bool} :
    latest sel (ts ++ [t]) = if sel ts t then some t else latest sel ts := by
  rw [latest, List.foldl_append, List.foldl_cons, List.foldl_nil, latest_fold]
  rfl

/-! ## Labelled trees -/

/-- A tree of labelled nodes, children in order. -/
inductive Outline (α : Type) : Type
  | node (label : α) (children : List (Outline α))

section Outlines

variable {α : Type}

/-- The labels in the order in which the nodes open. -/
def Outline.preorder : Outline α → List α
  | .node label children => label :: preorders children
where
  preorders : List (Outline α) → List α
    | [] => []
    | t :: ts => t.preorder ++ preorders ts

/-- The tokens of a tree: those of a label, then the children, then `close`. -/
def Outline.write (opening : α → List τ) (close : τ) : Outline α → List τ
  | .node label children => opening label ++ (writes opening close children ++ [close])
where
  writes (opening : α → List τ) (close : τ) : List (Outline α) → List τ
    | [] => []
    | t :: ts => t.write opening close ++ writes opening close ts

variable {opening : α → List τ} {close : τ} {keep : τ → Bool}

mutual

/-- Without the closing tokens a tree is the list of its labels. -/
theorem Outline.filter_write (kept : ∀ a, ∀ t ∈ opening a, keep t = true)
    (dropped : keep close = false) : ∀ tree : Outline α,
    (tree.write opening close).filter keep = tree.preorder.flatMap opening
  | .node label children => by
      rw [Outline.write, Outline.preorder, List.filter_append, List.filter_append,
        List.filter_eq_self.mpr (kept label), Outline.filter_writes kept dropped children]
      simp [dropped]

theorem Outline.filter_writes (kept : ∀ a, ∀ t ∈ opening a, keep t = true)
    (dropped : keep close = false) : ∀ trees : List (Outline α),
    (Outline.write.writes opening close trees).filter keep =
      (Outline.preorder.preorders trees).flatMap opening
  | [] => rfl
  | tree :: trees => by
      rw [Outline.write.writes, Outline.preorder.preorders, List.filter_append,
        List.flatMap_append, Outline.filter_write kept dropped tree,
        Outline.filter_writes kept dropped trees]

end

mutual

/-- What holds of no tokens, of tokens one after the other, and of those of a node around
those of its children, holds of every tree and its labels. -/
theorem Outline.write_induct {P : List τ → List α → Prop} (nil : P [] [])
    (append : ∀ {ts us as bs}, P ts as → P us bs → P (ts ++ us) (as ++ bs))
    (node : ∀ label {ts as}, P ts as → P (opening label ++ (ts ++ [close])) (label :: as)) :
    ∀ tree : Outline α, P (tree.write opening close) tree.preorder
  | .node label children => node label (Outline.writes_induct nil append node children)

theorem Outline.writes_induct {P : List τ → List α → Prop} (nil : P [] [])
    (append : ∀ {ts us as bs}, P ts as → P us bs → P (ts ++ us) (as ++ bs))
    (node : ∀ label {ts as}, P ts as → P (opening label ++ (ts ++ [close])) (label :: as)) :
    ∀ trees : List (Outline α),
      P (Outline.write.writes opening close trees) (Outline.preorder.preorders trees)
  | [] => nil
  | tree :: trees =>
      append (Outline.write_induct nil append node tree)
        (Outline.writes_induct nil append node trees)

end

/-- Every token of a tree is that of a label, or closes. -/
theorem Outline.mem_write {tree : Outline α} {t : τ} (member : t ∈ tree.write opening close) :
    t = close ∨ ∃ label ∈ tree.preorder, t ∈ opening label := by
  refine Outline.write_induct
    (P := fun ts as => ∀ t ∈ ts, t = close ∨ ∃ label ∈ as, t ∈ opening label) ?_ ?_ ?_
    tree t member
  · exact List.forall_mem_nil _
  · intro ts us as bs left right t member
    rcases List.mem_append.mp member with inLeft | inRight
    · exact (left t inLeft).imp_right fun ⟨a, inAs, there⟩ =>
        ⟨a, List.mem_append_left _ inAs, there⟩
    · exact (right t inRight).imp_right fun ⟨a, inBs, there⟩ =>
        ⟨a, List.mem_append_right _ inBs, there⟩
  · intro label ts as inside t member
    rcases List.mem_append.mp member with opens | rest
    · exact .inr ⟨label, List.mem_cons_self, opens⟩
    · rcases List.mem_append.mp rest with inTs | closes
      · exact (inside t inTs).imp_right fun ⟨a, inAs, there⟩ =>
          ⟨a, List.mem_cons_of_mem _ inAs, there⟩
      · exact .inl (List.mem_singleton.mp closes)

mutual

/-- A tree is read token by token as it is read label by label. -/
theorem Outline.map_write {β : Type} {f : τ → β} {opening' : α → List β} : ∀ tree : Outline α,
    (∀ label ∈ tree.preorder, (opening label).map f = opening' label) →
      (tree.write opening close).map f = tree.write opening' (f close)
  | .node label children => by
      intro same
      rw [Outline.preorder, List.forall_mem_cons] at same
      rw [Outline.write, Outline.write, List.map_append, List.map_append, same.1,
        Outline.map_writes children same.2]
      rfl

theorem Outline.map_writes {β : Type} {f : τ → β} {opening' : α → List β} :
    ∀ trees : List (Outline α),
      (∀ label ∈ Outline.preorder.preorders trees, (opening label).map f = opening' label) →
        (Outline.write.writes opening close trees).map f =
          Outline.write.writes opening' (f close) trees
  | [] => fun _ => rfl
  | tree :: trees => by
      intro same
      rw [Outline.preorder.preorders, List.forall_mem_append] at same
      rw [Outline.write.writes, Outline.write.writes, List.map_append,
        Outline.map_write tree same.1, Outline.map_writes trees same.2]

end

end Outlines

end Nesting
