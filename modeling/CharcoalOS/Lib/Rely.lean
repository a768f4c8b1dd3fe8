import CharcoalOS.Lib.Runs

/-!
# Relying on the others

`Ensures others P c Q F`: if `c` starts where `P` holds, then it returns as `Q` says, or fails
as `F` says, however the others move meanwhile. The rules are those of sequential programs; what
one step leaves for the next must be `Stable` under the moves of the others.
-/

namespace Effect.Code

variable {σ ε ω κ α β γ : Type}

/-- The others keep `P`. -/
def Stable (others : κ → σ → σ → Prop) (P : σ → Prop) : Prop :=
  ∀ k s s', others k s s' → P s → P s'

/-- Whatever the others do, `c` leads from `P` to `Q`, or to a failure in `F`. -/
def Ensures (others : κ → σ → σ → Prop) (P : σ → Prop) (c : Code σ ε ω α) (Q : α → σ → Prop)
    (F : ε → σ → Prop) : Prop :=
  ∀ s r, P s → Runs others c s r →
    (∀ a, r.outcome = .ok a → Q a r.state) ∧ ∀ e, r.outcome = .error e → F e r.state

section Ensures

variable {others : κ → σ → σ → Prop} {P R : σ → Prop} {c : Code σ ε ω α}
  {Q S : α → σ → Prop} {F G : ε → σ → Prop}

theorem Stable.and (left : Stable others P) (right : Stable others R) :
    Stable others fun s => P s ∧ R s :=
  fun k s s' move both => ⟨left k s s' move both.1, right k s s' move both.2⟩

theorem Stable.moves (stable : Stable others P) {ks : List κ} {s s' : σ}
    (moves : Moves others ks s s') (holds : P s) : P s' := by
  induction moves with
  | nil => exact holds
  | cons first _ ih => exact ih (stable _ _ _ first holds)

/-- What holds of every step holds of every run. -/
theorem Safe.runs {E : ω → Prop} {Q : α → Prop} {F : ε → Prop} (safe : Safe P E Q F c)
    (stable : Stable others P) {s : σ} {r : Result σ ε (ω ⊕ κ) α} (holds : P s)
    (runs : Runs others c s r) :
    P r.state ∧ (∀ e ∈ own r.events, E e) ∧ (∀ a, r.outcome = .ok a → Q a) ∧
      ∀ e, r.outcome = .error e → F e := by
  induction runs with
  | done =>
      refine ⟨holds, List.forall_mem_nil _, fun a same => ?_, fun e error => ?_⟩
      · cases same
        exact safe
      · cases error
  | fail =>
      refine ⟨holds, List.forall_mem_nil _, fun a ok => ?_, fun e same => ?_⟩
      · cases ok
      · cases same
        exact safe
  | step _ ih =>
      obtain ⟨emits, keeps, later⟩ := safe _ holds
      obtain ⟨kept, emits', ends⟩ := ih later keeps
      refine ⟨kept, ?_, ends⟩
      rw [Result.after_events, own_append, own_map_inl]
      exact List.forall_mem_append.mpr ⟨emits, emits'⟩
  | other move _ ih =>
      obtain ⟨kept, emits, ends⟩ := ih safe (stable _ _ _ move holds)
      refine ⟨kept, ?_, ends⟩
      rwa [Result.after_events, own_append, own_inr, List.nil_append]

/-- Where the others cannot move, the undisturbed run is the only one. -/
theorem Safe.alone {E : ω → Prop} {Q : α → Prop} {F : ε → Prop} (safe : Safe P E Q F c)
    (still : ∀ k s s', P s → ¬ others k s s') {s : σ} {r : Result σ ε (ω ⊕ κ) α} (holds : P s)
    (runs : Runs others c s r) : r = Code.alone (c.run s) := by
  induction runs with
  | done => rfl
  | fail => rfl
  | step _ ih =>
      obtain ⟨-, keeps, later⟩ := safe _ holds
      rw [run_step, alone_after, ih later keeps]
  | other move _ _ => exact absurd move (still _ _ _ holds)

theorem Ensures.mono (ensures : Ensures others P c Q F) (values : ∀ a s, Q a s → S a s)
    (failures : ∀ e s, F e s → G e s) : Ensures others P c S G := by
  intro s r holds runs
  obtain ⟨value, failure⟩ := ensures s r holds runs
  exact ⟨fun a ok => values a _ (value a ok), fun e error => failures e _ (failure e error)⟩

theorem Ensures.done {a : α} (stable : Stable others P) (value : ∀ s, P s → Q a s) :
    Ensures others P (.done a : Code σ ε ω α) Q F := by
  intro s r holds runs
  obtain ⟨ks, s', moves, rfl⟩ := runs_done_iff.mp runs
  refine ⟨fun b same => ?_, fun e error => ?_⟩
  · cases same
    exact value s' (stable.moves moves holds)
  · cases error

theorem Ensures.fail {e : ε} (stable : Stable others P) (failure : ∀ s, P s → F e s) :
    Ensures others P (.fail e : Code σ ε ω α) Q F := by
  intro s r holds runs
  obtain ⟨ks, s', moves, rfl⟩ := runs_fail_iff.mp runs
  refine ⟨fun b ok => ?_, fun e' same => ?_⟩
  · cases ok
  · cases same
    exact failure s' (stable.moves moves holds)

/-- A step, and what it leaves for the rest. -/
theorem Ensures.step {events : σ → List ω} {next : σ → σ} {rest : σ → Code σ ε ω α}
    (stable : Stable others P) (R : σ → σ → Prop) (leads : ∀ s, P s → R s (next s))
    (later : ∀ s, P s → Ensures others (R s) (rest s) Q F) :
    Ensures others P (.step events next rest) Q F := by
  intro s r holds runs
  obtain ⟨ks, s', r', moves, runs', rfl⟩ := runs_step_iff.mp runs
  have holds' := stable.moves moves holds
  exact later s' holds' (next s') r' (leads s' holds') runs'

theorem Ensures.bind {c : Code σ ε ω β} {f : β → Code σ ε ω α} (R : β → σ → Prop)
    (first : Ensures others P c R F) (then_ : ∀ b, Ensures others (R b) (f b) Q F) :
    Ensures others P (c >>= f) Q F := by
  intro s r holds runs
  obtain ⟨r₁, runs₁, rest⟩ := runs_bind_iff.mp runs
  obtain ⟨value, failure⟩ := first s r₁ holds runs₁
  cases outcome : r₁.outcome with
  | error e =>
      obtain rfl := runs_bind_error rest outcome
      refine ⟨fun a ok => ?_, fun e' same => ?_⟩
      · cases ok
      · cases same
        exact failure e outcome
  | ok b =>
      obtain ⟨r₂, runs₂, rfl⟩ := runs_bind_ok rest outcome
      exact then_ b r₁.state r₂ (value b outcome) runs₂

/-- **Invariant rule.** -/
theorem Ensures.loop {exhausted : ε} {body : β → Code σ ε ω (Control β α)} (Inv : β → σ → Prop)
    (stable : ∀ b, Stable others (Inv b)) (ends : ∀ a, Stable others (Q a))
    (iteration : ∀ b, Ensures others (Inv b) (body b)
      (fun control s =>
        (∀ b', control = .next b' → Inv b' s) ∧ ∀ a, control = .done a → Q a s) F)
    (out : ∀ b s, Inv b s → F exhausted s) (fuel : ℕ) (b : β) :
    Ensures others (Inv b) (Code.loop exhausted body fuel b) Q F := by
  induction fuel generalizing b with
  | zero => exact .fail (stable b) (out b)
  | succ fuel ih =>
      refine Ensures.bind _ (iteration b) fun control => ?_
      cases control with
      | next b' =>
          intro s r holds runs
          exact ih b' s r (holds.1 b' rfl) runs
      | done a =>
          -- the others may move on after the loop
          intro s r holds runs
          exact Ensures.done (ends a) (fun _ => id) s r (holds.2 a rfl) runs

end Ensures

end Effect.Code
