import CharcoalOS.Lib.Assembly
import CharcoalOS.Lib.Zoom

/-!
# Code for a part of the machine

`Embeds`: a larger instruction set has the instructions of a smaller one, which there work on a
part of the machine. Local code of the smaller one then runs in the larger one as it does alone,
and leaves the rest of the machine as it is.
-/

namespace Assembly

open Effect (Lens)

variable {ο ο' κ ν φ φ' σ σ' : Type}

/-- The item with another instruction. Calls keep their place only. -/
def Item.map (f : ο → ο') (g : φ → φ') : Item ο κ ν φ → Item ο' κ ν φ'
  | .op o => .op (f o)
  | .label n => .label n
  | .symbol name => .symbol name
  | .branch condition target => .branch condition target
  | .call h => .call (g h)
  | .exit => .exit

structure Embeds (isa : Isa ο κ φ σ) (isa' : Isa ο' κ φ' σ') (l : Lens σ' σ) (f : ο → ο') :
    Prop where
  exec : ∀ o s, isa'.exec (f o) s = l.set s (isa.exec o (l.get s))
  holds : ∀ condition s, isa'.holds condition s = isa.holds condition (l.get s)

section Map

variable {f : ο → ο'} {g : φ → φ'} {code : Program ο κ ν φ} {i : ℕ}

theorem isLabel_map (n : ℕ) : Item.isLabel n ∘ Item.map f g =
    (Item.isLabel n : Item ο κ ν φ → Bool) := by
  funext item
  cases item <;> rfl

theorem isSymbol_map [DecidableEq ν] (name : ν) : Item.isSymbol name ∘ Item.map f g =
    (Item.isSymbol name : Item ο κ ν φ → Bool) := by
  funext item
  cases item <;> rfl

theorem find_map [DecidableEq ν] (target : Target ν) :
    find (code.map (Item.map f g)) i target = find code i target := by
  cases target with
  | forward n => rw [find, find, ← List.map_drop, List.findIdx?_map, isLabel_map]
  | backward n =>
      rw [find, find, ← List.map_take, ← List.map_reverse, List.findIdx?_map, isLabel_map]
  | symbol name => rw [find, find, List.findIdx?_map, isSymbol_map]

theorem isLocal_map {item : Item ο κ ν φ} : (item.map f g).isLocal = item.isLocal := by
  cases item with
  | branch condition target => cases target <;> rfl
  | _ => rfl

/-- A name that is not placed before. -/
theorem find_symbol [DecidableEq ν] {front : Program ο κ ν φ} {name : ν} (pc : ℕ)
    (fresh : ∀ item ∈ front, item.isSymbol name = false) :
    find (front ++ .symbol name :: code) pc (.symbol name) = some front.length := by
  rw [find, List.findIdx?_append, List.findIdx?_eq_none_iff.mpr fresh]
  simp [Item.isSymbol, List.findIdx?_cons]

theorem isSymbol_of_isLocal [DecidableEq ν] {item : Item ο κ ν φ} (isLocal : item.isLocal = true)
    (name : ν) : item.isSymbol name = false := by
  cases item with
  | symbol other => cases isLocal
  | _ => rfl

end Map

variable [DecidableEq ν] {isa : Isa ο κ φ σ} {isa' : Isa ο' κ φ' σ'} {l : Lens σ' σ} {f : ο → ο'}
  {g : φ → φ'} {code : Program ο κ ν φ} {i j : ℕ} {m' : σ'} {n : σ}

/-- A step on the part is a step. -/
theorem Embeds.step (embeds : Embeds isa isa' l f)
    (isLocal : ∀ item ∈ code, item.isLocal = true)
    (next : step isa code ⟨i, l.get m'⟩ = some ⟨j, n⟩) :
    Assembly.step isa' (code.map (Item.map f g)) ⟨i, m'⟩ = some ⟨j, l.set m' n⟩ := by
  have inside := step_inside next
  have here := isLocal code[i] (List.getElem_mem inside)
  rw [Assembly.step] at next ⊢
  rw [List.getElem?_map]
  rw [List.getElem?_eq_getElem inside] at next ⊢
  cases item : code[i] with
  | op o =>
      rw [item] at next
      cases next
      exact congrArg (fun s => some (Config.mk (i + 1) s)) (embeds.exec o m')
  | label k =>
      rw [item] at next
      cases next
      exact congrArg (fun s => some (Config.mk (i + 1) s)) (l.set_get m').symm
  | branch condition target =>
      rw [item] at next
      dsimp only [Option.map_some, Item.map] at next ⊢
      rw [embeds.holds]
      by_cases holds : isa.holds condition (l.get m') = true
      · rw [if_pos holds] at next ⊢
        obtain ⟨k, found, same⟩ := Option.map_eq_some_iff.mp next
        cases same
        rw [find_map, found, l.set_get]
        rfl
      · rw [if_neg holds] at next ⊢
        cases next
        rw [l.set_get]
  | symbol name => rw [item] at here; cases here
  | call h => rw [item] at here; cases here
  | exit => rw [item] at here; cases here

/-- A run on the part is a run. -/
theorem ReachesWhile.embed {Q : Config σ → Prop} {R : Config σ' → Prop} {c d : Config σ}
    (embeds : Embeds isa isa' l f) (isLocal : ∀ item ∈ code, item.isLocal = true)
    (same : ∀ i n, i < code.length → Q ⟨i, n⟩ → R ⟨i, l.set m' n⟩)
    (run : ReachesWhile isa code Q c d) :
    ReachesWhile isa' (code.map (Item.map f g)) R ⟨c.pc, l.set m' c.machine⟩
      ⟨d.pc, l.set m' d.machine⟩ := by
  induction run with
  | refl => exact .refl
  | @tail d e _ last ih =>
      obtain ⟨allowed, next⟩ := last
      have there : step isa code ⟨d.pc, l.get (l.set m' d.machine)⟩ = some e := by
        rw [l.get_set]
        exact next
      have onward := embeds.step (g := g) isLocal there
      rw [l.set_set] at onward
      exact ih.tail ⟨same _ _ (step_inside next) allowed, onward⟩

end Assembly
