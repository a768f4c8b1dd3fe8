import CharcoalOS.Lib.Rely

/-!
# Events carried out below

A program shows its effects as events. `lower drive c` is `c` over a second machine: the events
of each step are carried out there, one after the other, by the code `drive` gives for them.
Others may move between any two steps, on either side.

`lower_runs`: a run of `lower drive c` is a run of `c`, and a run below of what `drive` makes of
its events. The run below may get stuck; then so does the whole.
-/

namespace Effect

namespace Code

variable {σ υ ε δ ω μ κ ι α : Type}

/-! ## Both sides -/

/-- `c` on the second machine. -/
def onSecond : Code υ δ μ α → Code (σ × υ) (ε ⊕ δ) μ α
  | .done a => .done a
  | .fail e => .fail (.inr e)
  | .step events next rest =>
      .step (fun s => events s.2) (fun s => (s.1, next s.2)) fun s => onSecond (rest s.2)

/-- The events `evs`, carried out. -/
def driveAll (drive : ω → Code υ δ μ Unit) : List ω → Code υ δ μ Unit
  | [] => pure ()
  | e :: evs => do
      drive e
      driveAll drive evs

/-- `c`, with its events carried out on the second machine. -/
def lower (drive : ω → Code υ δ μ Unit) : Code σ ε ω α → Code (σ × υ) (ε ⊕ δ) μ α
  | .done a => .done a
  | .fail e => .fail (.inl e)
  | .step events next rest =>
      .step (fun _ => []) (fun s => (next s.1, s.2)) fun s =>
        (onSecond (driveAll drive (events s.1))).andThen fun _ => lower drive (rest s.1)

/-- The others of each machine. -/
def beside (above : κ → σ → σ → Prop) (below : ι → υ → υ → Prop) :
    κ ⊕ ι → σ × υ → σ × υ → Prop
  | .inl k, s, s' => above k s.1 s'.1 ∧ s'.2 = s.2
  | .inr k, s, s' => below k s.2 s'.2 ∧ s'.1 = s.1

section Lower

variable {above : κ → σ → σ → Prop} {below : ι → υ → υ → Prop} {drive : ω → Code υ δ μ Unit}

theorem driveAll_append (evs evs' : List ω) :
    driveAll drive (evs ++ evs') = driveAll drive evs >>= fun _ => driveAll drive evs' := by
  induction evs with
  | nil => rfl
  | cons e evs ih =>
      rw [List.cons_append, driveAll, driveAll, ih, bind_assoc]

theorem beside_moves {ks : List (κ ⊕ ι)} {s s' : σ × υ}
    (moves : Moves (beside above below) ks s s') :
    Moves above (own ks) s.1 s'.1 ∧ Moves below (met ks) s.2 s'.2 := by
  induction moves with
  | nil => exact ⟨.nil, .nil⟩
  | @cons k ks s s' s'' first _ ih =>
      cases k with
      | inl k =>
          obtain ⟨move, same⟩ := first
          exact ⟨.cons move ih.1, same ▸ ih.2⟩
      | inr k =>
          obtain ⟨move, same⟩ := first
          exact ⟨same ▸ ih.1, .cons move ih.2⟩

/-- What a run of `onSecond c` is: one of `c` below, and moves above. -/
structure SplitsSecond (above : κ → σ → σ → Prop) (below : ι → υ → υ → Prop) (c : Code υ δ μ α)
    (s : σ × υ) (r : Result (σ × υ) (ε ⊕ δ) (μ ⊕ (κ ⊕ ι)) α) (low : Result υ δ (μ ⊕ ι) α) :
    Prop where
  runs : Runs below c s.2 low
  moves : Moves above (own (met r.events)) s.1 r.state.1
  state : r.state.2 = low.state
  emitted : own r.events = own low.events
  met_low : met low.events = met (met r.events)
  outcome : r.outcome = low.outcome.mapError .inr

theorem onSecond_runs {c : Code υ δ μ α} {s : σ × υ}
    {r : Result (σ × υ) (ε ⊕ δ) (μ ⊕ (κ ⊕ ι)) α}
    (runs : Runs (beside above below) (onSecond c) s r) :
    ∃ low, SplitsSecond above below c s r low := by
  induction c generalizing s r with
  | done a =>
      obtain ⟨ks, s', moves, rfl⟩ := runs_done_iff.mp runs
      obtain ⟨moves₁, moves₂⟩ := beside_moves moves
      refine ⟨_, runs_done_iff.mpr ⟨_, _, moves₂, rfl⟩, ?_, rfl, ?_, ?_, rfl⟩
      · rwa [met_map_inr]
      · rw [own_map_inr, own_map_inr]
      · rw [met_map_inr, met_map_inr]
  | fail e =>
      obtain ⟨ks, s', moves, rfl⟩ := runs_fail_iff.mp runs
      obtain ⟨moves₁, moves₂⟩ := beside_moves moves
      refine ⟨_, runs_fail_iff.mpr ⟨_, _, moves₂, rfl⟩, ?_, rfl, ?_, ?_, rfl⟩
      · rwa [met_map_inr]
      · rw [own_map_inr, own_map_inr]
      · rw [met_map_inr, met_map_inr]
  | step events next rest ih =>
      obtain ⟨ks, s', r', moves, later, rfl⟩ := runs_step_iff.mp runs
      obtain ⟨moves₁, moves₂⟩ := beside_moves moves
      obtain ⟨low, split⟩ := ih s'.2 later
      refine ⟨_, runs_step_iff.mpr ⟨_, _, low, moves₂, split.runs, rfl⟩, ?_, split.state, ?_, ?_,
        split.outcome⟩
      · simp only [Result.after_events, Result.after_state, met_append, met_map_inr, met_map_inl,
          List.nil_append, own_append]
        exact moves₁.append split.moves
      · simp only [Result.after_events, own_append, own_map_inr, own_map_inl, split.emitted]
      · simp only [Result.after_events, met_append, met_map_inr, met_map_inl, List.nil_append,
          split.met_low]

/-- What a run of `lower drive c` is: one of `c`, and one below of what is made of its events. -/
structure Splits (above : κ → σ → σ → Prop) (below : ι → υ → υ → Prop)
    (drive : ω → Code υ δ μ Unit) (c : Code σ ε ω α) (s : σ × υ)
    (r : Result (σ × υ) (ε ⊕ δ) (μ ⊕ (κ ⊕ ι)) α) (high : Result σ ε (ω ⊕ κ) α)
    (low : Result υ δ (μ ⊕ ι) Unit) : Prop where
  runs_high : Runs above c s.1 high
  runs_low : Runs below (driveAll drive (own high.events)) s.2 low
  state : r.state.2 = low.state
  emitted : own r.events = own low.events
  met_high : met high.events = own (met r.events)
  met_low : met low.events = met (met r.events)
  /-- The run below completes, or the whole gets stuck there. -/
  ends : low.outcome = .ok () ∧ r.outcome = high.outcome.mapError .inl ∧ r.state.1 = high.state ∨
    ∃ e, low.outcome = .error e ∧ r.outcome = .error (.inr e)

theorem Splits.moves {c : Code σ ε ω α} {s s' : σ × υ} {ks : List (κ ⊕ ι)}
    {r : Result (σ × υ) (ε ⊕ δ) (μ ⊕ (κ ⊕ ι)) α} {high : Result σ ε (ω ⊕ κ) α}
    {low : Result υ δ (μ ⊕ ι) Unit} (moves : Moves (beside above below) ks s s')
    (split : Splits above below drive c s' r high low) :
    Splits above below drive c s (r.after (ks.map .inr)) (high.after ((own ks).map .inr))
      (low.after ((met ks).map .inr)) := by
  obtain ⟨moves₁, moves₂⟩ := beside_moves moves
  refine ⟨moves₁.runs split.runs_high, ?_, split.state, ?_, ?_, ?_, split.ends⟩
  · rw [Result.after_events, own_append, own_map_inr, List.nil_append]
    exact moves₂.runs split.runs_low
  · simp only [Result.after_events, own_append, own_map_inr, split.emitted]
  · simp only [Result.after_events, met_append, met_map_inr, own_append, split.met_high]
  · simp only [Result.after_events, met_append, met_map_inr, split.met_low]

/-- **A run of the lowered program is a run of the program, and a run below of its events.** -/
theorem lower_runs {c : Code σ ε ω α} {s : σ × υ} {r : Result (σ × υ) (ε ⊕ δ) (μ ⊕ (κ ⊕ ι)) α}
    (runs : Runs (beside above below) (lower drive c) s r) :
    ∃ high low, Splits above below drive c s r high low := by
  induction c generalizing s r with
  | done a =>
      obtain ⟨ks, s', moves, rfl⟩ := runs_done_iff.mp runs
      have ended : Splits above below drive (.done a : Code σ ε ω α) s'
          ⟨.ok a, s', []⟩ ⟨.ok a, s'.1, []⟩ ⟨.ok (), s'.2, []⟩ :=
        ⟨.done, .done, rfl, rfl, rfl, rfl, Or.inl ⟨rfl, rfl, rfl⟩⟩
      have whole := ended.moves moves
      rw [Result.after, List.append_nil] at whole
      exact ⟨_, _, whole⟩
  | fail e =>
      obtain ⟨ks, s', moves, rfl⟩ := runs_fail_iff.mp runs
      have ended : Splits above below drive (.fail e : Code σ ε ω α) s'
          ⟨.error (.inl e), s', []⟩ ⟨.error e, s'.1, []⟩ ⟨.ok (), s'.2, []⟩ :=
        ⟨.fail, .done, rfl, rfl, rfl, rfl, Or.inl ⟨rfl, rfl, rfl⟩⟩
      have whole := ended.moves moves
      rw [Result.after, List.append_nil] at whole
      exact ⟨_, _, whole⟩
  | step events next rest ih =>
      obtain ⟨ks, s', r', moves, later, rfl⟩ := runs_step_iff.mp runs
      suffices here : ∃ high low,
          Splits above below drive (.step events next rest) s' r' high low by
        obtain ⟨high, low, split⟩ := here
        exact ⟨_, _, split.moves moves⟩
      obtain ⟨r₁, runs₁, then_⟩ := runs_bind_iff.mp later
      obtain ⟨low₁, split₁⟩ := onSecond_runs runs₁
      let moved := (own (met r₁.events)).map (Sum.inr (α := ω))
      have moves₁ : Moves above (own (met r₁.events)) (next s'.1) r₁.state.1 := split₁.moves
      cases stuck : low₁.outcome with
      | error e =>
          -- the rest of the program is not reached: let it run undisturbed
          have outcome : r₁.outcome = .error (.inr e) := by rw [split₁.outcome, stuck]; rfl
          obtain rfl := runs_bind_error then_ outcome
          let high := (alone ((rest s'.1).run r₁.state.1)).after moved
          refine ⟨high.after ((events s'.1).map .inl),
            ⟨.error e, low₁.state, low₁.events⟩, .step (moves₁.runs (runs_alone _ _ _)), ?_,
            split₁.state, split₁.emitted, ?_, split₁.met_low, Or.inr ⟨e, rfl, rfl⟩⟩
          · rw [Result.after_events, own_append, own_map_inl, driveAll_append]
            refine runs_bind_iff.mpr ⟨low₁, split₁.runs, ?_⟩
            unfold RunsThen
            rw [stuck]
          · simp only [high, moved, alone, Result.after_events, met_append, met_map_inl,
              met_map_inr, List.nil_append, List.append_nil]
      | ok _ =>
          have outcome : r₁.outcome = .ok () := by rw [split₁.outcome, stuck]; rfl
          obtain ⟨r₂, runs₂, rfl⟩ := runs_bind_ok then_ outcome
          obtain ⟨high₂, low₂, split₂⟩ := ih s'.1 runs₂
          refine ⟨(high₂.after moved).after ((events s'.1).map .inl), low₂.after low₁.events,
            .step (moves₁.runs split₂.runs_high), ?_, split₂.state, ?_, ?_, ?_, split₂.ends⟩
          · simp only [moved, Result.after_events, own_append, own_map_inl, own_map_inr,
              List.nil_append]
            rw [driveAll_append]
            refine runs_bind_iff.mpr ⟨low₁, split₁.runs, ?_⟩
            unfold RunsThen
            rw [stuck]
            refine ⟨low₂, ?_, rfl⟩
            rw [← split₁.state]
            exact split₂.runs_low
          · simp only [Result.after_events, own_append, split₁.emitted, split₂.emitted]
          · simp only [moved, Result.after_events, met_append, met_map_inl, met_map_inr,
              List.nil_append, own_append, split₂.met_high]
          · simp only [Result.after_events, met_append, split₁.met_low, split₂.met_low]

/-! ### Putting two runs together -/

theorem Moves.beside {ks : List ι} {s : σ} {t t' : υ} (moves : Moves below ks t t') :
    Moves (Code.beside above below) (ks.map .inr) (s, t) (s, t') := by
  induction moves with
  | nil => exact .nil
  | @cons k ks t t' t'' first _ ih =>
      have move : Code.beside above below (.inr k) (s, t) (s, t') := ⟨first, rfl⟩
      exact .cons move ih

variable (above) in
theorem runs_onSecond {c : Code υ δ μ α} {s : σ} {t : υ} {low : Result υ δ (μ ⊕ ι) α}
    (runs : Runs below c t low) :
    ∃ r : Result (σ × υ) (ε ⊕ δ) (μ ⊕ (κ ⊕ ι)) α,
      Runs (beside above below) (onSecond c) (s, t) r ∧
        r.outcome = low.outcome.mapError .inr ∧ r.state = (s, low.state) := by
  induction runs with
  | done => exact ⟨_, .done, rfl, rfl⟩
  | fail => exact ⟨_, .fail, rfl, rfl⟩
  | step _ ih =>
      obtain ⟨r, runs, outcome, state⟩ := ih
      exact ⟨_, .step runs, outcome, state⟩
  | @other c k t t' low move _ ih =>
      obtain ⟨r, runs, outcome, state⟩ := ih
      have lifted : beside above below (.inr k) (s, t) (s, t') := ⟨move, rfl⟩
      exact ⟨_, .other lifted runs, outcome, state⟩

variable (above) in
/-- An undisturbed run, and a run below of its events, make a run of the lowered program. -/
theorem runs_lower {c : Code σ ε ω α} {s : σ} {t : υ} {low : Result υ δ (μ ⊕ ι) Unit}
    (runs : Runs below (driveAll drive (c.run s).events) t low) (completes : low.outcome = .ok ()) :
    ∃ r : Result (σ × υ) (ε ⊕ δ) (μ ⊕ (κ ⊕ ι)) α,
      Runs (beside above below) (lower drive c) (s, t) r ∧
        r.outcome = (c.run s).outcome.mapError .inl ∧ r.state = ((c.run s).state, low.state) := by
  induction c generalizing s t low with
  | done a =>
      obtain ⟨ks, t', moves, rfl⟩ := runs_done_iff.mp runs
      exact ⟨_, moves.beside.runs .done, rfl, rfl⟩
  | fail e =>
      obtain ⟨ks, t', moves, rfl⟩ := runs_done_iff.mp runs
      exact ⟨_, moves.beside.runs .fail, rfl, rfl⟩
  | step events next rest ih =>
      rw [run_step, Result.after_events, driveAll_append] at runs
      obtain ⟨low₁, runs₁, then_⟩ := runs_bind_iff.mp runs
      cases first : low₁.outcome with
      | error e =>
          obtain rfl := runs_bind_error then_ first
          cases completes
      | ok _ =>
          obtain ⟨low₂, runs₂, rfl⟩ := runs_bind_ok then_ first
          obtain ⟨r₁, lifted, outcome₁, state₁⟩ :=
            runs_onSecond (ε := ε) above (s := next s) runs₁
          obtain ⟨r₂, later, outcome₂, state₂⟩ := ih s runs₂ completes
          rw [← state₁] at later
          refine ⟨_, .step (r := r₂.after r₁.events) (runs_bind_iff.mpr ⟨r₁, lifted, ?_⟩),
            outcome₂, state₂⟩
          unfold RunsThen
          rw [outcome₁, first]
          exact ⟨r₂, later, rfl⟩

end Lower

end Code

end Effect
