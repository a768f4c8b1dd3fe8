import CharcoalOS.Lib.Code

/-!
# Runs with others in between

`Code.run` takes all steps of a program in a row. In `Runs others c s r`, others move between
any two of them: `others k s s'` is one of their moves, named `k`, and the events of `r` are
the trace of the run, `.inl` for what `c` emits and `.inr` for a move of the others.

* `runs_bind_iff`: a sequence runs as its parts do.
* `Commutes others c`: the steps of `c` commute with the moves of the others. Then the others do
  not disturb `c`: each of its runs emits what the undisturbed one does and ends as it does, and
  the state is the one it ends in, after the moves (`Commutes.runs`).
-/

namespace Effect

/-! ## Traces -/

section Trace

variable {ω κ : Type}

/-- What the program itself has emitted. -/
def own (trace : List (ω ⊕ κ)) : List ω := trace.filterMap Sum.getLeft?

/-- The moves of the others. -/
def met (trace : List (ω ⊕ κ)) : List κ := trace.filterMap Sum.getRight?

variable {trace trace' : List (ω ⊕ κ)} {evs : List ω} {ks : List κ}

@[simp] theorem own_nil : own ([] : List (ω ⊕ κ)) = [] := rfl

@[simp] theorem met_nil : met ([] : List (ω ⊕ κ)) = [] := rfl

@[simp] theorem own_append : own (trace ++ trace') = own trace ++ own trace' :=
  List.filterMap_append

@[simp] theorem met_append : met (trace ++ trace') = met trace ++ met trace' :=
  List.filterMap_append

@[simp] theorem own_inr (k : κ) : own ([.inr k] : List (ω ⊕ κ)) = [] := rfl

@[simp] theorem met_inr (k : κ) : met ([.inr k] : List (ω ⊕ κ)) = [k] := rfl

@[simp] theorem own_map_inl : own (evs.map .inl : List (ω ⊕ κ)) = evs := by
  induction evs with
  | nil => rfl
  | cons e evs ih => exact congrArg (List.cons e) ih

@[simp] theorem met_map_inl : met (evs.map .inl : List (ω ⊕ κ)) = [] := by
  induction evs with
  | nil => rfl
  | cons e evs ih => exact ih

@[simp] theorem own_map_inr : own (ks.map .inr : List (ω ⊕ κ)) = [] := by
  induction ks with
  | nil => rfl
  | cons k ks ih => exact ih

@[simp] theorem met_map_inr : met (ks.map .inr : List (ω ⊕ κ)) = ks := by
  induction ks with
  | nil => rfl
  | cons k ks ih => exact congrArg (List.cons k) ih

end Trace

namespace Result

variable {σ ε ω α : Type} (r : Result σ ε ω α) (evs evs' : List ω)

@[simp] theorem after_outcome : (r.after evs).outcome = r.outcome := rfl

@[simp] theorem after_state : (r.after evs).state = r.state := rfl

@[simp] theorem after_events : (r.after evs).events = evs ++ r.events := rfl

theorem after_nil : r.after [] = r := rfl

theorem after_after : (r.after evs').after evs = r.after (evs ++ evs') := by
  unfold Result.after
  rw [List.append_assoc]

end Result

namespace Code

variable {σ ε ω κ α β γ : Type}

/-- The moves `ks`, one after the other, lead from the first state to the second. -/
inductive Moves (others : κ → σ → σ → Prop) : List κ → σ → σ → Prop
  | nil {s : σ} : Moves others [] s s
  | cons {k : κ} {ks : List κ} {s s' s'' : σ} :
    others k s s' → Moves others ks s' s'' → Moves others (k :: ks) s s''

/-- `r` is what a run of `c` from `s` may come to, with the others moving in between. -/
inductive Runs (others : κ → σ → σ → Prop) :
    Code σ ε ω α → σ → Result σ ε (ω ⊕ κ) α → Prop
  | done {a : α} {s : σ} : Runs others (.done a) s ⟨.ok a, s, []⟩
  | fail {e : ε} {s : σ} : Runs others (.fail e) s ⟨.error e, s, []⟩
  | step {events : σ → List ω} {next : σ → σ} {rest : σ → Code σ ε ω α} {s : σ}
      {r : Result σ ε (ω ⊕ κ) α} :
    Runs others (rest s) (next s) r →
    Runs others (.step events next rest) s (r.after ((events s).map .inl))
  | other {c : Code σ ε ω α} {k : κ} {s s' : σ} {r : Result σ ε (ω ⊕ κ) α} :
    others k s s' → Runs others c s' r → Runs others c s (r.after [.inr k])

section Runs

variable {others : κ → σ → σ → Prop} {c : Code σ ε ω α} {f : α → Code σ ε ω β} {s s' : σ}
  {ks : List κ} {r : Result σ ε (ω ⊕ κ) α}

/-- The result of an undisturbed run, as one of the runs. -/
def alone (r : Result σ ε ω α) : Result σ ε (ω ⊕ κ) α := ⟨r.outcome, r.state, r.events.map .inl⟩

theorem alone_after (r : Result σ ε ω α) (evs : List ω) :
    (alone (r.after evs) : Result σ ε (ω ⊕ κ) α) = (alone r).after (evs.map .inl) := by
  unfold alone
  rw [Result.after_events, List.map_append]
  rfl

/-- The others need not move. -/
theorem runs_alone (others : κ → σ → σ → Prop) (c : Code σ ε ω α) (s : σ) :
    Runs others c s (alone (c.run s)) := by
  induction c generalizing s with
  | done a => exact .done
  | fail e => exact .fail
  | step events next rest ih =>
      rw [run_step, alone_after]
      exact .step (ih s (next s))

theorem Moves.runs (moves : Moves others ks s s') (runs : Runs others c s' r) :
    Runs others c s (r.after (ks.map .inr)) := by
  induction moves with
  | nil => exact runs
  | cons first _ ih =>
      have whole := Runs.other first (ih runs)
      rwa [Result.after_after] at whole

/-- The others may move on at the end. -/
theorem Runs.movesOn (runs : Runs others c s r) {s'' : σ} (moves : Moves others ks r.state s'') :
    ∃ r', Runs others c s r' ∧ r'.outcome = r.outcome ∧ r'.state = s'' := by
  induction runs with
  | done => exact ⟨_, moves.runs .done, rfl, rfl⟩
  | fail => exact ⟨_, moves.runs .fail, rfl, rfl⟩
  | step _ ih =>
      obtain ⟨r', runs', outcome, state⟩ := ih moves
      exact ⟨_, .step runs', outcome, state⟩
  | other move _ ih =>
      obtain ⟨r', runs', outcome, state⟩ := ih moves
      exact ⟨_, .other move runs', outcome, state⟩

/-! ### Inversion -/

theorem runs_done_iff {a : α} :
    Runs others (.done a : Code σ ε ω α) s r ↔
      ∃ ks s', Moves others ks s s' ∧ r = ⟨.ok a, s', ks.map .inr⟩ := by
  constructor
  · intro runs
    generalize whole : (Code.done a : Code σ ε ω α) = c at runs
    induction runs with
    | done =>
        cases whole
        exact ⟨[], _, .nil, rfl⟩
    | fail => cases whole
    | step _ _ => cases whole
    | other first _ ih =>
        obtain ⟨ks, s', moves, rfl⟩ := ih whole
        exact ⟨_ :: ks, s', .cons first moves, rfl⟩
  · rintro ⟨ks, s', moves, rfl⟩
    have whole := moves.runs (ε := ε) (ω := ω) (Runs.done (a := a))
    rwa [Result.after, List.append_nil] at whole

theorem runs_fail_iff {e : ε} :
    Runs others (.fail e : Code σ ε ω α) s r ↔
      ∃ ks s', Moves others ks s s' ∧ r = ⟨.error e, s', ks.map .inr⟩ := by
  constructor
  · intro runs
    generalize whole : (Code.fail e : Code σ ε ω α) = c at runs
    induction runs with
    | done => cases whole
    | fail =>
        cases whole
        exact ⟨[], _, .nil, rfl⟩
    | step _ _ => cases whole
    | other first _ ih =>
        obtain ⟨ks, s', moves, rfl⟩ := ih whole
        exact ⟨_ :: ks, s', .cons first moves, rfl⟩
  · rintro ⟨ks, s', moves, rfl⟩
    have whole := moves.runs (α := α) (ω := ω) (Runs.fail (e := e))
    rwa [Result.after, List.append_nil] at whole

theorem runs_step_iff {events : σ → List ω} {next : σ → σ} {rest : σ → Code σ ε ω α} :
    Runs others (.step events next rest) s r ↔
      ∃ ks s' r', Moves others ks s s' ∧ Runs others (rest s') (next s') r' ∧
        r = (r'.after ((events s').map .inl)).after (ks.map .inr) := by
  constructor
  · intro runs
    generalize whole : Code.step events next rest = c at runs
    induction runs with
    | done => cases whole
    | fail => cases whole
    | step later _ =>
        cases whole
        exact ⟨[], _, _, .nil, later, rfl⟩
    | other first _ ih =>
        obtain ⟨ks, s', r', moves, later, rfl⟩ := ih whole
        refine ⟨_ :: ks, s', r', .cons first moves, later, ?_⟩
        rw [Result.after_after]
        rfl
  · rintro ⟨ks, s', r', moves, later, rfl⟩
    exact moves.runs (.step later)

/-- What becomes of `c >>= f` after `c`. -/
def RunsThen (others : κ → σ → σ → Prop) (f : α → Code σ ε ω β) (first : Result σ ε (ω ⊕ κ) α)
    (r : Result σ ε (ω ⊕ κ) β) : Prop :=
  match first.outcome with
  | .ok a => ∃ second, Runs others (f a) first.state second ∧ r = second.after first.events
  | .error e => r = ⟨.error e, first.state, first.events⟩

theorem runsThen_after_iff {first : Result σ ε (ω ⊕ κ) α} {r : Result σ ε (ω ⊕ κ) β}
    {trace : List (ω ⊕ κ)} :
    RunsThen others f (first.after trace) r ↔
      ∃ r', RunsThen others f first r' ∧ r = r'.after trace := by
  unfold RunsThen
  rw [Result.after_outcome]
  cases first.outcome with
  | error e =>
      constructor
      · rintro rfl
        exact ⟨_, rfl, rfl⟩
      · rintro ⟨r', rfl, rfl⟩
        rfl
  | ok a =>
      constructor
      · rintro ⟨second, runs, rfl⟩
        exact ⟨_, ⟨second, runs, rfl⟩, (Result.after_after _ _ _).symm⟩
      · rintro ⟨_, ⟨second, runs, rfl⟩, rfl⟩
        exact ⟨second, runs, Result.after_after _ _ _⟩

/-- **A sequence runs as its parts do.** -/
theorem runs_bind_iff {r : Result σ ε (ω ⊕ κ) β} :
    Runs others (c >>= f) s r ↔ ∃ first, Runs others c s first ∧ RunsThen others f first r := by
  constructor
  · intro runs
    induction c generalizing s r with
    | done a => exact ⟨_, .done, r, runs, rfl⟩
    | fail e =>
        have both : Runs others (.fail e : Code σ ε ω β) s r := runs
        obtain ⟨ks, s', moves, rfl⟩ := runs_fail_iff.mp both
        exact ⟨_, runs_fail_iff.mpr ⟨ks, s', moves, rfl⟩, rfl⟩
    | step events next rest ih =>
        have both : Runs others (.step events next fun s => rest s >>= f) s r := runs
        obtain ⟨ks, s', r', moves, later, rfl⟩ := runs_step_iff.mp both
        obtain ⟨first, runs', then_⟩ := ih s' later
        refine ⟨_, runs_step_iff.mpr ⟨ks, s', first, moves, runs', rfl⟩, ?_⟩
        exact runsThen_after_iff.mpr ⟨_, runsThen_after_iff.mpr ⟨r', then_, rfl⟩, rfl⟩
  · rintro ⟨first, runs, then_⟩
    induction runs generalizing r with
    | done =>
        obtain ⟨second, later, rfl⟩ := then_
        exact later
    | fail =>
        rw [show r = _ from then_]
        exact .fail
    | step _ ih =>
        obtain ⟨r', then', rfl⟩ := runsThen_after_iff.mp then_
        exact .step (ih then')
    | other move _ ih =>
        obtain ⟨r', then', rfl⟩ := runsThen_after_iff.mp then_
        exact .other move (ih then')

theorem runs_bind_ok {a : α} {first : Result σ ε (ω ⊕ κ) α} {r : Result σ ε (ω ⊕ κ) β}
    (then_ : RunsThen others f first r) (outcome : first.outcome = .ok a) :
    ∃ second, Runs others (f a) first.state second ∧ r = second.after first.events := by
  unfold RunsThen at then_
  rwa [outcome] at then_

theorem runs_bind_error {e : ε} {first : Result σ ε (ω ⊕ κ) α} {r : Result σ ε (ω ⊕ κ) β}
    (then_ : RunsThen others f first r) (outcome : first.outcome = .error e) :
    r = ⟨.error e, first.state, first.events⟩ := by
  unfold RunsThen at then_
  rwa [outcome] at then_

/-- A program that looks at the state first. -/
theorem runs_current_iff {f : σ → Code σ ε ω β} {r : Result σ ε (ω ⊕ κ) β} :
    Runs others (current >>= f) s r ↔
      ∃ ks s' r', Moves others ks s s' ∧ Runs others (f s') s' r' ∧ r = r'.after (ks.map .inr) :=
  runs_step_iff

/-! ### Programs that the others do not disturb -/

theorem Moves.snoc {s'' : σ} {k : κ} (moves : Moves others ks s s') (last : others k s' s'') :
    Moves others (ks ++ [k]) s s'' := by
  induction moves with
  | nil => exact .cons last .nil
  | cons first _ ih => exact .cons first (ih last)

theorem Moves.append {s'' : σ} {ks' : List κ} (moves : Moves others ks s s')
    (moves' : Moves others ks' s' s'') : Moves others (ks ++ ks') s s'' := by
  induction moves with
  | nil => exact moves'
  | cons first _ ih => exact .cons first (ih moves')

/-- The steps of `c` commute with the moves of the others: a step does the same after a move
as before it, and the move is then possible after the step. -/
def Commutes (others : κ → σ → σ → Prop) : Code σ ε ω α → Prop
  | .done _ => True
  | .fail _ => True
  | .step events next rest =>
      (∀ k s s', others k s s' →
        events s' = events s ∧ others k (next s) (next s') ∧ rest s' = rest s) ∧
      ∀ s, (rest s).Commutes others

theorem Commutes.pure (a : α) : Commutes others (Pure.pure a : Code σ ε ω α) := trivial

theorem Commutes.fail (e : ε) : Commutes others (Code.fail e : Code σ ε ω α) := trivial

theorem Commutes.emit (event : ω) : Commutes others (Code.emit event : Code σ ε ω Unit) :=
  ⟨fun _ _ _ move => ⟨rfl, move, rfl⟩, fun _ => trivial⟩

theorem Commutes.store {g : σ → σ} (event : ω)
    (commutes : ∀ k s s', others k s s' → others k (g s) (g s')) :
    Commutes others (Code.store event g : Code σ ε ω Unit) :=
  ⟨fun k s s' move => ⟨rfl, commutes k s s' move, rfl⟩, fun _ => trivial⟩

theorem Commutes.ofOption (missing : ε) (value : Option α) :
    Commutes others (Code.ofOption missing value : Code σ ε ω α) := by
  cases value with
  | none => exact .fail missing
  | some a => exact .pure a

theorem Commutes.bind (first : Commutes others c) (then_ : ∀ a, Commutes others (f a)) :
    Commutes others (c >>= f) := by
  induction c with
  | done a => exact then_ a
  | fail e => exact .fail e
  | step events next rest ih =>
      refine ⟨fun k s s' move => ?_, fun s => ih s (first.2 s)⟩
      obtain ⟨same, commutes, same'⟩ := first.1 k s s' move
      exact ⟨same, commutes, congrArg (· >>= f) same'⟩

/-- What is looked at must not change. -/
theorem Commutes.current {f : σ → Code σ ε ω β} (same : ∀ k s s', others k s s' → f s' = f s)
    (then_ : ∀ s, Commutes others (f s)) : Commutes others (Code.current >>= f) :=
  ⟨fun k s s' move => ⟨rfl, move, same k s s' move⟩, then_⟩

theorem Commutes.ite {b : Prop} [Decidable b] {d : Code σ ε ω α} (left : Commutes others c)
    (right : Commutes others d) : Commutes others (if b then c else d) := by
  split
  · exact left
  · exact right

theorem Commutes.loop {exhausted : ε} {body : β → Code σ ε ω (Control β γ)}
    (iteration : ∀ b, Commutes others (body b)) (fuel : ℕ) (b : β) :
    Commutes others (Code.loop exhausted body fuel b) := by
  induction fuel generalizing b with
  | zero => exact .fail exhausted
  | succ fuel ih =>
      refine .bind (iteration b) fun control => ?_
      cases control with
      | next b' => exact ih b'
      | done v => exact .pure v

/-- An undisturbed run does the same after a move, which is then possible after the run. -/
theorem Commutes.run {k : κ} (commutes : Commutes others c) (move : others k s s') :
    (c.run s').outcome = (c.run s).outcome ∧ (c.run s').events = (c.run s).events ∧
      others k (c.run s).state (c.run s').state := by
  induction c generalizing s s' with
  | done a => exact ⟨rfl, rfl, move⟩
  | fail e => exact ⟨rfl, rfl, move⟩
  | step events next rest ih =>
      obtain ⟨same, move', same'⟩ := commutes.1 k s s' move
      obtain ⟨outcome, later, state⟩ := ih s (commutes.2 s) move'
      rw [run_step, run_step, same, same']
      exact ⟨outcome, congrArg (events s ++ ·) later, state⟩

/-- **The others do not disturb it**: each run is the undisturbed one, and then the moves. -/
theorem Commutes.runs (commutes : Commutes others c) (runs : Runs others c s r) :
    r.outcome = (c.run s).outcome ∧ own r.events = (c.run s).events ∧
      Moves others (met r.events) (c.run s).state r.state := by
  induction runs with
  | done => exact ⟨rfl, rfl, .nil⟩
  | fail => exact ⟨rfl, rfl, .nil⟩
  | @step events next rest s r _ ih =>
      obtain ⟨outcome, own_, moves⟩ := ih (commutes.2 s)
      refine ⟨outcome, ?_, ?_⟩
      · rw [Result.after_events, own_append, own_map_inl, own_]
        rfl
      · rwa [Result.after_events, met_append, met_map_inl]
  | @other c k s s' r move _ ih =>
      obtain ⟨outcome, own_, moves⟩ := ih commutes
      obtain ⟨outcome', events', state⟩ := commutes.run move
      refine ⟨outcome.trans outcome', ?_, ?_⟩
      · rw [Result.after_events, own_append, own_inr, List.nil_append, own_, events']
      · rw [Result.after_events, met_append, met_inr, List.singleton_append]
        exact .cons state moves

end Runs

end Code

end Effect
