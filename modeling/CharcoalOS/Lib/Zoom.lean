import CharcoalOS.Lib.Runs

/-!
# Programs on a part of the state

A `Lens` looks at a part of a larger state. `zoom l shown c` runs `c` on that part and shows its
events as `shown` says; `runs_zoom`: its runs are those of `c`, as long as the others move only
that part, and there as the others of `c` do.
-/

namespace Effect

/-- A part of a state that can be read and replaced. -/
structure Lens (σ τ : Type) : Type where
  get : σ → τ
  set : σ → τ → σ
  get_set : ∀ s t, get (set s t) = t
  set_get : ∀ s, set s (get s) = s
  set_set : ∀ s t t', set (set s t) t' = set s t'

namespace Code

variable {σ τ ε ω μ κ α β : Type}

def zoom (l : Lens σ τ) (shown : ω → μ) : Code τ ε ω α → Code σ ε μ α
  | .done a => .done a
  | .fail e => .fail e
  | .step events next rest =>
      .step (fun s => (events (l.get s)).map shown) (fun s => l.set s (next (l.get s)))
        fun s => (rest (l.get s)).zoom l shown

section Zoom

variable {l : Lens σ τ} {shown : ω → μ}

@[simp] theorem zoom_pure (a : α) : (pure a : Code τ ε ω α).zoom l shown = pure a := rfl

@[simp] theorem zoom_bind (c : Code τ ε ω α) (f : α → Code τ ε ω β) :
    (c >>= f).zoom l shown = c.zoom l shown >>= fun a => (f a).zoom l shown := by
  induction c with
  | done a => rfl
  | fail e => rfl
  | step events next rest ih => exact congrArg (Code.step _ _) (funext fun s => ih (l.get s))

/-- The others move the part only, as `inner` does. -/
def Within (l : Lens σ τ) (inner : κ → τ → τ → Prop) (others : κ → σ → σ → Prop) : Prop :=
  ∀ k s s', others k s s' → inner k (l.get s) (l.get s') ∧ s' = l.set s (l.get s')

/-- What a run of `zoom l shown c` is. -/
structure Zooms (l : Lens σ τ) (shown : ω → μ) (inner : κ → τ → τ → Prop) (c : Code τ ε ω α)
    (s : σ) (r : Result σ ε (μ ⊕ κ) α) (part : Result τ ε (ω ⊕ κ) α) : Prop where
  runs : Runs inner c (l.get s) part
  outcome : r.outcome = part.outcome
  state : r.state = l.set s part.state
  own : own r.events = (own part.events).map shown
  met : met r.events = met part.events

theorem runs_zoom {inner : κ → τ → τ → Prop} {others : κ → σ → σ → Prop} {c : Code τ ε ω α}
    (within : Within l inner others) {s : σ} {r : Result σ ε (μ ⊕ κ) α}
    (runs : Runs others (c.zoom l shown) s r) : ∃ part, Zooms l shown inner c s r part := by
  generalize whole : c.zoom l shown = d at runs
  induction runs generalizing c with
  | done =>
      cases c with
      | done a =>
          cases whole
          exact ⟨_, .done, rfl, (l.set_get _).symm, rfl, rfl⟩
      | fail e => cases whole
      | step events next rest => cases whole
  | fail =>
      cases c with
      | done a => cases whole
      | fail e =>
          cases whole
          exact ⟨_, .fail, rfl, (l.set_get _).symm, rfl, rfl⟩
      | step events next rest => cases whole
  | @step _ _ _ s r _ ih =>
      cases c with
      | done a => cases whole
      | fail e => cases whole
      | step events next rest =>
          cases whole
          obtain ⟨part, zooms⟩ := ih rfl
          have runs := zooms.runs
          rw [l.get_set] at runs
          refine ⟨_, .step runs, zooms.outcome, ?_, ?_, ?_⟩
          · exact zooms.state.trans (l.set_set _ _ _)
          · simp only [Result.after_events, own_append, own_map_inl, zooms.own, List.map_append]
          · simp only [Result.after_events, met_append, met_map_inl, zooms.met]
  | @other _ k s s' r move _ ih =>
      obtain ⟨part, zooms⟩ := ih whole
      obtain ⟨inside, only⟩ := within k s s' move
      refine ⟨_, .other inside zooms.runs, zooms.outcome, ?_, ?_, ?_⟩
      · rw [Result.after_state, zooms.state, only, l.set_set]
        rfl
      · simp only [Result.after_events, own_append, own_inr, List.nil_append, zooms.own]
      · simp only [Result.after_events, met_append, met_inr, zooms.met]

/-- What `set` keeps, every step keeps. -/
theorem safe_zoom {P : σ → Prop} (keeps : ∀ s t, P s → P (l.set s t)) (c : Code τ ε ω α) :
    (c.zoom l shown).Safe P (fun _ => True) (fun _ => True) fun _ => True := by
  induction c with
  | done a => trivial
  | fail e => trivial
  | step events next rest ih =>
      exact fun s holds => ⟨fun _ _ => trivial, keeps s _ holds, ih (l.get s)⟩

end Zoom

end Code

end Effect
