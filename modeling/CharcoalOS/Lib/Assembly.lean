import Mathlib

/-!
# Assembly files

The items of an assembly file, for any instruction set: instructions that go on to the next
one, branches on a condition, calls of functions from elsewhere, and labels. A local label is a
number that may be placed many times; a branch to it names the nearest one ahead or behind.

A call is a partial function of the machine: what it makes of the machine by the time it
returns, or nothing if it does not return. `Calls` and `Exits` are what can be seen of a run
from outside: the calls with the machine that the function finds, and the machine that is
left behind.
-/

namespace Assembly

variable {ο κ ν φ σ : Type}

/-- Where a branch goes: `0f`, `0b`, or a name. -/
inductive Target (ν : Type) : Type
  | forward (label : ℕ)
  | backward (label : ℕ)
  | symbol (name : ν)

inductive Item (ο κ ν φ : Type) : Type
  | op (instruction : ο)
  | label (label : ℕ)
  | symbol (name : ν)
  | branch (condition : κ) (target : Target ν)
  | call (function : φ)
  | exit

abbrev Program (ο κ ν φ : Type) : Type := List (Item ο κ ν φ)

/-- What the instructions of a machine do. -/
structure Isa (ο κ φ σ : Type) : Type where
  exec : ο → σ → σ
  holds : κ → σ → Bool
  /-- How a call keeps the place to return to. -/
  link : ℕ → σ → σ
  call : φ → σ → Option σ

def Item.isLabel (n : ℕ) : Item ο κ ν φ → Bool
  | .label m => m = n
  | _ => false

def Item.isSymbol [DecidableEq ν] (name : ν) : Item ο κ ν φ → Bool
  | .symbol other => other = name
  | _ => false

theorem isLabel_ops (n : ℕ) (ops : List ο) :
    ∀ i ∈ (ops.map .op : List (Item ο κ ν φ)), i.isLabel n = false :=
  List.forall_mem_map.mpr fun _ _ => rfl

theorem isSymbol_ops [DecidableEq ν] (name : ν) (ops : List ο) :
    ∀ i ∈ (ops.map .op : List (Item ο κ ν φ)), i.isSymbol name = false :=
  List.forall_mem_map.mpr fun _ _ => rfl

section Steps

variable [DecidableEq ν] (isa : Isa ο κ φ σ) (p : Program ο κ ν φ)

/-- The place of a target, as seen from the item at `pc`. -/
def find (pc : ℕ) : Target ν → Option ℕ
  | .forward n => ((p.drop pc).findIdx? (Item.isLabel n)).map (pc + ·)
  | .backward n => ((p.take pc).reverse.findIdx? (Item.isLabel n)).map (pc - 1 - ·)
  | .symbol name => p.findIdx? (Item.isSymbol name)

/-- The next item, and the machine. -/
structure Config (σ : Type) : Type where
  pc : ℕ
  machine : σ

/-- One item. Nothing follows an exit, a call that does not return, or the end. -/
def step (c : Config σ) : Option (Config σ) :=
  match p[c.pc]? with
  | none => none
  | some (.op o) => some ⟨c.pc + 1, isa.exec o c.machine⟩
  | some (.label _) => some ⟨c.pc + 1, c.machine⟩
  | some (.symbol _) => some ⟨c.pc + 1, c.machine⟩
  | some (.branch condition target) =>
      if isa.holds condition c.machine then (find p c.pc target).map (⟨·, c.machine⟩)
      else some ⟨c.pc + 1, c.machine⟩
  | some (.call f) => (isa.call f (isa.link (c.pc + 1) c.machine)).map (⟨c.pc + 1, ·⟩)
  | some .exit => none

abbrev Reaches : Config σ → Config σ → Prop :=
  Relation.ReflTransGen fun c d => step isa p c = some d

/-- A run calls `f`, which finds the machine `m`. -/
def Calls (c : Config σ) (f : φ) (m : σ) : Prop :=
  ∃ d, Reaches isa p c d ∧ p[d.pc]? = some (.call f) ∧ m = isa.link (d.pc + 1) d.machine

/-- A run leaves the program with the machine `m`. -/
def Exits (c : Config σ) (m : σ) : Prop :=
  ∃ pc, Reaches isa p c ⟨pc, m⟩ ∧ p[pc]? = some .exit

end Steps

/-! ## The code at a place -/

section At

variable {p : Program ο κ ν φ} {pc : ℕ} {item : Item ο κ ν φ} {code : List (Item ο κ ν φ)}

/-- From `pc` on the program goes on with `code`. -/
def At (p : Program ο κ ν φ) (pc : ℕ) (code : List (Item ο κ ν φ)) : Prop :=
  ∃ rest, p.drop pc = code ++ rest

theorem At.head (at_ : At p pc (item :: code)) : p[pc]? = some item := by
  obtain ⟨rest, same⟩ := at_
  rw [← Nat.add_zero pc, ← List.getElem?_drop, same]
  rfl

theorem At.tail (at_ : At p pc (item :: code)) : At p (pc + 1) code := by
  obtain ⟨rest, same⟩ := at_
  refine ⟨rest, ?_⟩
  rw [← List.drop_drop, same]
  rfl

theorem At.right {front : List (Item ο κ ν φ)} (at_ : At p pc (front ++ code)) :
    At p (pc + front.length) code := by
  obtain ⟨rest, same⟩ := at_
  refine ⟨rest, ?_⟩
  rw [← List.drop_drop, same, List.append_assoc, List.drop_left]

theorem At.of_getElem? (there : p[pc]? = some item) : At p pc [item] := by
  obtain ⟨inside, same⟩ := List.getElem?_eq_some_iff.mp there
  exact ⟨p.drop (pc + 1), by rw [List.drop_eq_getElem_cons inside, same]; rfl⟩

theorem At.of_append (front : List (Item ο κ ν φ)) : At (front ++ code) front.length code :=
  ⟨[], by rw [List.drop_left, List.append_nil]⟩

end At

/-! ## Runs -/

variable [DecidableEq ν] {isa : Isa ο κ φ σ} {p : Program ο κ ν φ} {pc : ℕ}
  {code : List (Item ο κ ν φ)} {m m' : σ} {c d : Config σ}

/-- A run comes to `code`, with the machine `m`. -/
def Comes (isa : Isa ο κ φ σ) (p : Program ο κ ν φ) (c : Config σ) (code : List (Item ο κ ν φ))
    (m : σ) : Prop :=
  ∃ pc, Reaches isa p c ⟨pc, m⟩ ∧ At p pc code

/-- One step on. -/
theorem Comes.of_step (run : Reaches isa p c ⟨pc, m⟩) {pc' : ℕ}
    (next : step isa p ⟨pc, m⟩ = some ⟨pc', m'⟩) (there : At p pc' code) :
    Comes isa p c code m' :=
  ⟨pc', run.tail next, there⟩

theorem Comes.op {o : ο} (comes : Comes isa p c (.op o :: code) m) :
    Comes isa p c code (isa.exec o m) := by
  obtain ⟨pc, run, here⟩ := comes
  exact .of_step run (by simp only [step, here.head]) here.tail

/-- Instructions in a row. -/
theorem Comes.ops {os : List ο} (comes : Comes isa p c (os.map .op ++ code) m) :
    Comes isa p c code (os.foldl (fun m o => isa.exec o m) m) := by
  induction os generalizing m with
  | nil => exact comes
  | cons o os ih => exact ih comes.op

theorem Comes.label {n : ℕ} (comes : Comes isa p c (.label n :: code) m) :
    Comes isa p c code m := by
  obtain ⟨pc, run, here⟩ := comes
  exact .of_step run (by simp only [step, here.head]) here.tail

theorem Comes.symbol {name : ν} (comes : Comes isa p c (.symbol name :: code) m) :
    Comes isa p c code m := by
  obtain ⟨pc, run, here⟩ := comes
  exact .of_step run (by simp only [step, here.head]) here.tail

theorem Comes.skip {condition : κ} {target : Target ν}
    (comes : Comes isa p c (.branch condition target :: code) m)
    (fails : isa.holds condition m = false) : Comes isa p c code m := by
  obtain ⟨pc, run, here⟩ := comes
  exact .of_step run (by simp [step, here.head, fails]) here.tail

/-- A branch to the nearest label ahead. -/
theorem Comes.forward {condition : κ} {n : ℕ} {ahead : List (Item ο κ ν φ)}
    (comes : Comes isa p c (.branch condition (.forward n) :: ahead ++ .label n :: code) m)
    (nearest : ∀ i ∈ ahead, i.isLabel n = false) (holds : isa.holds condition m) :
    Comes isa p c code m := by
  obtain ⟨pc, run, here⟩ := comes
  obtain ⟨rest, same⟩ := here
  have found : (p.drop pc).findIdx? (Item.isLabel n) = some (ahead.length + 1) := by
    rw [same, List.cons_append, List.cons_append, List.findIdx?_cons, List.append_assoc,
      List.findIdx?_append, List.findIdx?_eq_none_iff.mpr nearest]
    simp [Item.isLabel, List.findIdx?_cons]
  have next : step isa p ⟨pc, m⟩ = some ⟨pc + (ahead.length + 1), m⟩ := by
    simp [step, At.head ⟨rest, same⟩, holds, find, found]
  exact (Comes.of_step run next (At.right ⟨rest, same⟩)).label

/-- A branch to a name, which is not placed before. -/
theorem Comes.jump {condition : κ} {name : ν} {front behind : List (Item ο κ ν φ)}
    (comes : Comes isa p c (.branch condition (.symbol name) :: behind) m)
    (whole : p = front ++ .symbol name :: code)
    (fresh : ∀ i ∈ front, i.isSymbol name = false) (holds : isa.holds condition m) :
    Comes isa p c code m := by
  obtain ⟨pc, run, here⟩ := comes
  have found : p.findIdx? (Item.isSymbol name) = some front.length := by
    rw [whole, List.findIdx?_append, List.findIdx?_eq_none_iff.mpr fresh]
    simp [Item.isSymbol, List.findIdx?_cons]
  have next : step isa p ⟨pc, m⟩ = some ⟨front.length, m⟩ := by
    simp [step, here.head, holds, find, found]
  exact (Comes.of_step run next (whole ▸ At.of_append front)).symbol

theorem Comes.exits (comes : Comes isa p c (.exit :: code) m) : Exits isa p c m := by
  obtain ⟨pc, run, here⟩ := comes
  exact ⟨pc, run, here.head⟩

/-! ## Code inside a program -/

/-- The item needs nothing but the code around it: local labels, no calls and no names. -/
def Item.isLocal : Item ο κ ν φ → Bool
  | .op _ => true
  | .label _ => true
  | .branch _ (.forward _) => true
  | .branch _ (.backward _) => true
  | _ => false

/-- Every configuration that is left on the way is as `Q` says. -/
abbrev ReachesWhile (isa : Isa ο κ φ σ) (p : Program ο κ ν φ) (Q : Config σ → Prop) :
    Config σ → Config σ → Prop :=
  Relation.ReflTransGen fun c d => Q c ∧ step isa p c = some d

section While

variable {Q : Config σ → Prop} {condition : κ} {target : Target ν} {i j n : ℕ}

theorem ReachesWhile.op {o : ο} (run : ReachesWhile isa p Q c ⟨i, m⟩)
    (here : p[i]? = some (.op o)) (allowed : Q ⟨i, m⟩) :
    ReachesWhile isa p Q c ⟨i + 1, isa.exec o m⟩ :=
  run.tail ⟨allowed, by simp only [step, here]⟩

theorem ReachesWhile.label (run : ReachesWhile isa p Q c ⟨i, m⟩)
    (here : p[i]? = some (.label n)) (allowed : Q ⟨i, m⟩) :
    ReachesWhile isa p Q c ⟨i + 1, m⟩ :=
  run.tail ⟨allowed, by simp only [step, here]⟩

theorem ReachesWhile.skip (run : ReachesWhile isa p Q c ⟨i, m⟩)
    (here : p[i]? = some (.branch condition target)) (fails : isa.holds condition m = false)
    (allowed : Q ⟨i, m⟩) : ReachesWhile isa p Q c ⟨i + 1, m⟩ :=
  run.tail ⟨allowed, by simp [step, here, fails]⟩

theorem ReachesWhile.branch (run : ReachesWhile isa p Q c ⟨i, m⟩)
    (here : p[i]? = some (.branch condition target)) (holds : isa.holds condition m = true)
    (found : find p i target = some j) (allowed : Q ⟨i, m⟩) :
    ReachesWhile isa p Q c ⟨j, m⟩ :=
  run.tail ⟨allowed, by simp [step, here, holds, found]⟩

end While

section Within

variable {front rest : List (Item ο κ ν φ)} {i j n : ℕ}

theorem find_forward_within (inside : i < code.length)
    (found : find code i (.forward n) = some j) :
    find (front ++ (code ++ rest)) (front.length + i) (.forward n) = some (front.length + j) := by
  rw [find] at found ⊢
  obtain ⟨k, first, rfl⟩ := Option.map_eq_some_iff.mp found
  rw [List.drop_length_add_append, List.drop_append_of_le_length inside.le, List.findIdx?_append,
    first]
  simp [Nat.add_assoc]

theorem find_backward_within (inside : i < code.length)
    (found : find code i (.backward n) = some j) :
    find (front ++ (code ++ rest)) (front.length + i) (.backward n) = some (front.length + j) := by
  rw [find] at found ⊢
  obtain ⟨k, first, rfl⟩ := Option.map_eq_some_iff.mp found
  have less : k < i := by
    have bound := (List.findIdx?_eq_some_iff_findIdx_eq.mp first).1
    rw [List.length_reverse, List.length_take] at bound
    omega
  rw [List.take_length_add_append, List.take_append_of_le_length inside.le, List.reverse_append,
    List.findIdx?_append, first]
  simp
  omega

omit [DecidableEq ν] in
theorem getElem?_within (inside : i < code.length) :
    (front ++ (code ++ rest))[front.length + i]? = code[i]? := by
  rw [List.getElem?_append_right (Nat.le_add_right _ _), Nat.add_sub_cancel_left,
    List.getElem?_append_left inside]

/-- Nothing follows behind the end. -/
theorem step_inside (next : step isa code ⟨i, m⟩ = some d) : i < code.length := by
  by_contra outside
  rw [step, List.getElem?_eq_none (Nat.not_lt.mp outside)] at next
  cases next

/-- A step of local code is one of the program that it is in. -/
theorem step_within (isLocal : ∀ item ∈ code, item.isLocal = true)
    (next : step isa code ⟨i, m⟩ = some ⟨j, m'⟩) :
    step isa (front ++ (code ++ rest)) ⟨front.length + i, m⟩ = some ⟨front.length + j, m'⟩ := by
  have inside := step_inside next
  rw [step] at next ⊢
  rw [getElem?_within inside]
  have here := isLocal code[i] (List.getElem_mem inside)
  rw [List.getElem?_eq_getElem inside] at next ⊢
  cases item : code[i] with
  | op o =>
      rw [item] at next
      cases next
      rfl
  | label k =>
      rw [item] at next
      cases next
      rfl
  | branch condition target =>
      rw [item] at next here
      dsimp only at next ⊢
      by_cases holds : isa.holds condition m = true
      · rw [if_pos holds] at next ⊢
        obtain ⟨j', found, same⟩ := Option.map_eq_some_iff.mp next
        cases same
        cases target with
        | forward k => rw [find_forward_within inside found]; rfl
        | backward k => rw [find_backward_within inside found]; rfl
        | symbol name => cases here
      · rw [if_neg holds] at next ⊢
        cases next
        rfl
  | symbol name => rw [item] at here; cases here
  | call f => rw [item] at here; cases here
  | exit => rw [item] at here; cases here

/-- So is a run. -/
theorem ReachesWhile.within {Q R : Config σ → Prop}
    (isLocal : ∀ item ∈ code, item.isLocal = true)
    (same : ∀ i m, i < code.length → Q ⟨i, m⟩ → R ⟨front.length + i, m⟩)
    (run : ReachesWhile isa code Q ⟨i, m⟩ d) :
    ReachesWhile isa (front ++ (code ++ rest)) R ⟨front.length + i, m⟩
      ⟨front.length + d.pc, d.machine⟩ := by
  induction run with
  | refl => exact .refl
  | tail _ last ih =>
      obtain ⟨allowed, next⟩ := last
      exact ih.tail ⟨same _ _ (step_inside next) allowed, step_within isLocal next⟩

end Within

/-! ## Calls -/

/-- A run ends where nothing follows, and nowhere else. -/
theorem Reaches.last_unique (run : Reaches isa p c d) (last : step isa p d = none)
    {e : Config σ} (other : Reaches isa p c e) (stop : step isa p e = none) : d = e := by
  have unique : Relator.RightUnique fun c d => step isa p c = some d :=
    fun _ _ _ left right => Option.some.inj (left.symm.trans right)
  have stays {a b : Config σ} (end_ : step isa p a = none) (onward : Reaches isa p a b) :
      a = b := by
    rcases onward.cases_head with same | ⟨next, go, _⟩
    · exact same
    · rw [end_] at go
      cases go
  rcases Relation.ReflTransGen.total_of_right_unique unique run other with forth | back
  · exact stays last forth
  · exact (stays stop back).symm

/-- The call is seen, the run goes on with what it returns, and does not leave if it does not
return. -/
theorem Comes.call {f : φ} (comes : Comes isa p c (.call f :: code) m) :
    ∃ pc, Calls isa p c f (isa.link pc m) ∧
      (∀ m', isa.call f (isa.link pc m) = some m' → Comes isa p c code m') ∧
      (isa.call f (isa.link pc m) = none → ∀ m', ¬ Exits isa p c m') := by
  obtain ⟨pc, run, here⟩ := comes
  refine ⟨pc + 1, ⟨⟨pc, m⟩, run, here.head, rfl⟩, fun m' returns => ?_, fun never m' exits => ?_⟩
  · exact .of_step run (by simp [step, here.head, returns]) here.tail
  · obtain ⟨pc', other, exit⟩ := exits
    have last : step isa p ⟨pc, m⟩ = none := by simp [step, here.head, never]
    have stop : step isa p ⟨pc', m'⟩ = none := by simp [step, exit]
    obtain rfl : pc = pc' := congrArg Config.pc (Reaches.last_unique run last other stop)
    rw [here.head] at exit
    cases exit

end Assembly
