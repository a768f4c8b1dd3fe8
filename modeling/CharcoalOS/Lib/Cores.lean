import CharcoalOS.Lib.Zoom

/-!
# Cores that share a part of their state

Each core has a state of its own, and what they share lies in a part of it. `runs_solo`: if all
cores but one keep their hands off what is shared, whatever it is, then that one does as many of
its own steps as it would alone, in any order of the steps of all of them. `exists_runs`: and the
others do not get stuck, so there is such a run in every order.
-/

namespace Cores

open Effect (Lens)

variable {ι σ μ : Type}

structure Cluster (ι σ μ : Type) : Type where
  core : ι → σ
  shared : μ

section Runs

variable (l : Lens σ μ) (step : ι → σ → Option σ)

/-- The core, with what is shared. -/
def Cluster.seen (c : Cluster ι σ μ) (i : ι) : σ := l.set (c.core i) c.shared

/-- One core does a step. -/
def Steps [DecidableEq ι] (i : ι) (c d : Cluster ι σ μ) : Prop :=
  ∃ s, step i (c.seen l i) = some s ∧ d = ⟨Function.update c.core i s, l.get s⟩

/-- The cores do steps, in this order. -/
inductive Runs [DecidableEq ι] : List ι → Cluster ι σ μ → Cluster ι σ μ → Prop
  | nil {c : Cluster ι σ μ} : Runs [] c c
  | cons {i : ι} {order : List ι} {c d e : Cluster ι σ μ} :
      Steps l step i c d → Runs order d e → Runs (i :: order) c e

/-- A core alone, after as many steps. -/
def solo (i : ι) : ℕ → σ → Option σ
  | 0, s => some s
  | n + 1, s => (step i s).bind (solo i n)

end Runs

section Solo

variable [DecidableEq ι] {l : Lens σ μ} {step : ι → σ → Option σ} {first : ι} {P : ι → σ → Prop}
  {order : List ι} {c d : Cluster ι σ μ}

/-- A core that is as `P` says can do a step, stays so, and leaves what is shared alone. -/
structure HandsOff (l : Lens σ μ) (step : ι → σ → Option σ) (first : ι) (P : ι → σ → Prop) :
    Prop where
  shared : ∀ i s t, i ≠ first → P i s → P i (l.set s t)
  step : ∀ i s, i ≠ first → P i s → ∃ s', step i s = some s' ∧ P i s' ∧ l.get s' = l.get s

theorem HandsOff.steps_other {i : ι} (off : HandsOff l step first P)
    (holds : ∀ i, i ≠ first → P i (c.core i)) (other : i ≠ first) (next : Steps l step i c d) :
    (∀ i, i ≠ first → P i (d.core i)) ∧ d.seen l first = c.seen l first := by
  rcases next with ⟨s, done, rfl⟩
  rcases off.step i _ other (off.shared i _ _ other (holds i other)) with ⟨s', done', stays, same⟩
  obtain rfl := Option.some.inj (done'.symm.trans done)
  refine ⟨fun j others => ?_, ?_⟩
  · show P j (Function.update c.core i s' j)
    by_cases this : j = i
    · subst this
      rw [Function.update_self]
      exact stays
    · rw [Function.update_of_ne this]
      exact holds j others
  · show l.set (Function.update c.core i s' first) (l.get s') = l.set (c.core first) c.shared
    rw [Function.update_of_ne other.symm, same, l.get_set]

theorem steps_first (holds : ∀ i, i ≠ first → P i (c.core i)) (next : Steps l step first c d) :
    (∀ i, i ≠ first → P i (d.core i)) ∧ step first (c.seen l first) = some (d.seen l first) := by
  rcases next with ⟨s, done, rfl⟩
  refine ⟨fun j others => ?_, ?_⟩
  · show P j (Function.update c.core first s j)
    rw [Function.update_of_ne others]
    exact holds j others
  · show _ = some (l.set (Function.update c.core first s first) (l.get s))
    rw [Function.update_self, l.set_get]
    exact done

/-- **One core is alone** among cores that keep their hands off. -/
theorem runs_solo (off : HandsOff l step first P) (runs : Runs l step order c d)
    (holds : ∀ i, i ≠ first → P i (c.core i)) :
    (∀ i, i ≠ first → P i (d.core i)) ∧
      solo step first (order.count first) (c.seen l first) = some (d.seen l first) := by
  induction runs with
  | nil => exact ⟨holds, rfl⟩
  | @cons i order c d e next _ ih =>
      by_cases this : i = first
      · subst this
        rcases steps_first holds next with ⟨holds', done⟩
        rcases ih holds' with ⟨last, rest⟩
        refine ⟨last, ?_⟩
        rw [List.count_cons_self, solo, done]
        exact rest
      · rcases off.steps_other holds this next with ⟨holds', same⟩
        rcases ih holds' with ⟨last, rest⟩
        refine ⟨last, ?_⟩
        rw [List.count_cons_of_ne this, ← same]
        exact rest

/-- **The cores can do their steps in any order**, if the one has steps to do. -/
theorem exists_runs (off : HandsOff l step first P) (holds : ∀ i, i ≠ first → P i (c.core i))
    {n : ℕ} {e : σ} (alone : solo step first n (c.seen l first) = some e)
    (few : order.count first ≤ n) : ∃ d, Runs l step order c d := by
  induction order generalizing c n with
  | nil => exact ⟨c, .nil⟩
  | cons i order ih =>
      by_cases this : i = first
      · subst this
        rw [List.count_cons_self] at few
        obtain ⟨n, rfl⟩ : ∃ m, n = m + 1 := ⟨n - 1, by omega⟩
        rcases Option.bind_eq_some_iff.mp alone with ⟨s, done, rest⟩
        have next : Steps l step i c ⟨Function.update c.core i s, l.get s⟩ := ⟨s, done, rfl⟩
        rcases steps_first holds next with ⟨holds', same⟩
        rw [Option.some.inj (done.symm.trans same)] at rest
        rcases ih holds' rest (by omega) with ⟨d, runs⟩
        exact ⟨d, .cons next runs⟩
      · rw [List.count_cons_of_ne this] at few
        rcases off.step i _ this (off.shared i _ _ this (holds i this)) with ⟨s, done, -⟩
        have next : Steps l step i c ⟨Function.update c.core i s, l.get s⟩ := ⟨s, done, rfl⟩
        rcases off.steps_other holds this next with ⟨holds', same⟩
        rw [← same] at alone
        rcases ih holds' alone few with ⟨d, runs⟩
        exact ⟨d, .cons next runs⟩

end Solo

/-! ## Runs of one core -/

section Alone

variable {step : ι → σ → Option σ} {i : ι} {s s' : σ}

/-- A run of one core is as many of its steps. -/
theorem solo_of_reaches (run : Relation.ReflTransGen (fun s s' => step i s = some s') s s') :
    ∃ n, solo step i n s = some s' := by
  induction run using Relation.ReflTransGen.head_induction_on with
  | refl => exact ⟨0, rfl⟩
  | head next _ ih =>
      rcases ih with ⟨n, rest⟩
      refine ⟨n + 1, ?_⟩
      rw [solo, next]
      exact rest

end Alone

end Cores
