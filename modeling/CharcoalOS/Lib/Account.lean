import CharcoalOS.Lib.Rely
import CharcoalOS.Lib.Zoom

/-!
# Accounts of a run

An `Account` is what may be said of a run from its own events: that they lead from the state
before to the state after (`links`), and that a run with these events may fail so (`fails`). What
it says of the pieces of a run it says of the whole. `A.Covers Q c`: it is true of every run of
`c`, however the others move meanwhile, and what `c` returns is in `Q`.

`Account.viewed` is the account of a part of the state, told of the whole, and `Covers.zoom` is
the rule for programs on that part.
-/

namespace Effect.Code

variable {σ τ ε ω μ κ α β γ : Type}

structure Account (others : κ → σ → σ → Prop) (ε ω : Type) : Type where
  links : List ω → σ → σ → Prop
  fails : List ω → ε → Prop
  refl : ∀ s, links [] s s
  move : ∀ k s s', others k s s' → links [] s s'
  append : ∀ {evs evs' s s' s''}, links evs s s' → links evs' s' s'' → links (evs ++ evs') s s''
  /-- What comes before does not matter. -/
  later : ∀ {evs' e} evs, fails evs' e → fails (evs ++ evs') e

namespace Account

variable {others : κ → σ → σ → Prop} {A : Account others ε ω} {Q : α → Prop} {S : β → Prop}
  {c d : Code σ ε ω α} {f : α → Code σ ε ω β} {s s' : σ} {ks : List κ}

/-- The account is true of a run from `s` to `r`, which returns a value in `Q`. -/
structure Holds (A : Account others ε ω) (Q : α → Prop) (s : σ) (r : Result σ ε (ω ⊕ κ) α) :
    Prop where
  links : A.links (own r.events) s r.state
  value : ∀ a, r.outcome = .ok a → Q a
  fails : ∀ e, r.outcome = .error e → A.fails (own r.events) e

/-- The account is true of every run. -/
def Covers (A : Account others ε ω) (Q : α → Prop) (c : Code σ ε ω α) : Prop :=
  ∀ s r, Runs others c s r → A.Holds Q s r

theorem links_moves (A : Account others ε ω) (moves : Moves others ks s s') : A.links [] s s' := by
  induction moves with
  | nil => exact A.refl _
  | cons first _ ih => exact A.append (A.move _ _ _ first) ih

/-- A run after a piece that the account is true of. -/
theorem Holds.after {trace : List (ω ⊕ κ)} {r : Result σ ε (ω ⊕ κ) α}
    (rest : A.Holds Q s' r) (first : A.links (own trace) s s') : A.Holds Q s (r.after trace) := by
  refine ⟨?_, rest.value, fun e error => ?_⟩
  · rw [Result.after_events, own_append]
    exact A.append first rest.links
  · rw [Result.after_events, own_append]
    exact A.later _ (rest.fails e error)

theorem Holds.after_moves {r : Result σ ε (ω ⊕ κ) α} (rest : A.Holds Q s' r)
    (moves : Moves others ks s s') : A.Holds Q s (r.after (ks.map .inr)) := by
  refine rest.after ?_
  rw [own_map_inr]
  exact A.links_moves moves

/-! ## Rules -/

theorem Covers.pure {a : α} (value : Q a) : A.Covers Q (Pure.pure a) := by
  intro s r runs
  rcases runs_done_iff.mp runs with ⟨ks, s', moves, rfl⟩
  refine ⟨?_, fun b same => ?_, nofun⟩
  · rw [own_map_inr]
    exact A.links_moves moves
  · cases same
    exact value

theorem Covers.fail {e : ε} (may : A.fails [] e) : A.Covers Q (Code.fail e) := by
  intro s r runs
  rcases runs_fail_iff.mp runs with ⟨ks, s', moves, rfl⟩
  refine ⟨?_, nofun, fun e' same => ?_⟩
  · rw [own_map_inr]
    exact A.links_moves moves
  · cases same
    rw [own_map_inr]
    exact may

theorem Covers.step {events : σ → List ω} {next : σ → σ} {rest : σ → Code σ ε ω α}
    (links : ∀ s, A.links (events s) s (next s)) (later : ∀ s, A.Covers Q (rest s)) :
    A.Covers Q (.step events next rest) := by
  intro s r runs
  rcases runs_step_iff.mp runs with ⟨ks, s', r', moves, runs', rfl⟩
  refine ((later s' _ _ runs').after ?_).after_moves moves
  rw [own_map_inl]
  exact links s'

theorem Covers.emit {event : ω} (links : ∀ s, A.links [event] s s) :
    A.Covers (fun _ => True) (Code.emit event) :=
  .step links fun _ => .pure trivial

theorem Covers.current : A.Covers (fun _ => True) Code.current :=
  .step A.refl fun _ => .pure trivial

theorem Covers.update {g : σ → σ} (links : ∀ s, A.links [] s (g s)) :
    A.Covers (fun _ => True) (Code.update g) :=
  .step links fun _ => .pure trivial

theorem Covers.store {event : ω} {g : σ → σ} (links : ∀ s, A.links [event] s (g s)) :
    A.Covers (fun _ => True) (Code.store event g) :=
  .step links fun _ => .pure trivial

/-- A failure that must come after an event. -/
theorem Covers.emit_fail {event : ω} {e : ε} (links : ∀ s, A.links [event] s s)
    (may : A.fails [event] e) : A.Covers Q (Code.emit event >>= fun _ => Code.fail e) := by
  intro s r runs
  rcases runs_step_iff.mp runs with ⟨ks, s', r', moves, later, rfl⟩
  rcases runs_fail_iff.mp later with ⟨ks', s'', moves', rfl⟩
  refine Holds.after_moves ⟨?_, nofun, fun e' same => ?_⟩ moves
  · rw [Result.after_events, own_append, own_map_inl, own_map_inr]
    exact A.append (links s') (A.links_moves moves')
  · cases same
    rw [Result.after_events, own_append, own_map_inl, own_map_inr]
    exact may

theorem Covers.bind (first : A.Covers Q c) (then_ : ∀ a, Q a → A.Covers S (f a)) :
    A.Covers S (c >>= f) := by
  intro s r runs
  rcases runs_bind_iff.mp runs with ⟨r₁, runs₁, rest⟩
  have holds := first s r₁ runs₁
  cases outcome : r₁.outcome with
  | error e =>
      obtain rfl := runs_bind_error rest outcome
      refine ⟨holds.links, nofun, fun e' same => ?_⟩
      cases same
      exact holds.fails e outcome
  | ok a =>
      rcases runs_bind_ok rest outcome with ⟨r₂, runs₂, rfl⟩
      exact (then_ a (holds.value a outcome) _ _ runs₂).after holds.links

theorem Covers.ite {b : Prop} [Decidable b] (left : A.Covers Q c) (right : A.Covers Q d) :
    A.Covers Q (if b then c else d) := by
  split
  · exact left
  · exact right

theorem Covers.ofOption {missing : ε} (may : A.fails [] missing) (value : Option α) :
    A.Covers (fun _ => True) (Code.ofOption missing value) := by
  cases value with
  | none => exact .fail may
  | some a => exact .pure trivial

theorem Covers.loop {out : ε} {body : β → Code σ ε ω (Control β γ)} (may : A.fails [] out)
    (Inv : β → Prop)
    (iteration : ∀ b, Inv b → A.Covers (fun control => ∀ b', control = .next b' → Inv b') (body b))
    (fuel : ℕ) (b : β) (inv : Inv b) : A.Covers (fun _ => True) (Code.loop out body fuel b) := by
  induction fuel generalizing b with
  | zero => exact .fail may
  | succ fuel ih =>
      refine .bind (iteration b inv) fun control goes => ?_
      cases control with
      | next b' => exact ih b' (goes b' rfl)
      | done v => exact .pure trivial

/-- The values may be known otherwise. -/
theorem Covers.value {Q' : α → Prop} (covers : A.Covers Q c)
    (value : ∀ s r, Runs others c s r → ∀ a, r.outcome = .ok a → Q' a) : A.Covers Q' c := by
  intro s r runs
  have holds := covers s r runs
  exact ⟨holds.links, value s r runs, holds.fails⟩

/-- A program whose steps all keep a relation to the first state. -/
theorem Covers.of_safe {P : σ → σ → Prop} {E : ω → Prop} {F : ε → Prop}
    (safe : ∀ s, c.Safe (P s) E Q F) (refl : ∀ s, P s s) (stable : ∀ s, Stable others (P s))
    (links : ∀ evs s s', (∀ e ∈ evs, E e) → P s s' → A.links evs s s')
    (fails : ∀ evs e, F e → A.fails evs e) : A.Covers Q c := by
  intro s r runs
  rcases (safe s).runs (stable s) (refl s) runs with ⟨kept, emits, value, failure⟩
  exact ⟨links _ s _ emits kept, value, fun e error => fails _ e (failure e error)⟩

/-! ## Parts of the state -/

section Viewed

variable {inner : κ → τ → τ → Prop} {others : κ → σ → σ → Prop} {l : Lens σ τ}
  {A : Account inner ε ω} {seen : μ → Option ω} {within : Within l inner others}

/-- The account of a part, of the events that are seen there. -/
def viewed (A : Account inner ε ω) (seen : μ → Option ω) (within : Within l inner others) :
    Account others ε μ where
  links evs s s' := A.links (evs.filterMap seen) (l.get s) (l.get s')
  fails evs e := A.fails (evs.filterMap seen) e
  refl s := A.refl (l.get s)
  move k s s' move := A.move k _ _ (within k s s' move).1
  append first rest := by
    rw [List.filterMap_append]
    exact A.append first rest
  later evs may := by
    rw [List.filterMap_append]
    exact A.later _ may

/-- **A program on the part** is covered as it is by itself. -/
theorem Covers.zoom {c : Code τ ε ω α} {shown : ω → μ} (covers : A.Covers Q c)
    (sees : ∀ e, seen (shown e) = some e) :
    (A.viewed seen within).Covers Q (c.zoom l shown) := by
  intro s r runs
  rcases runs_zoom within runs with ⟨part, zooms⟩
  have holds := covers _ _ zooms.runs
  have same : (own r.events).filterMap seen = own part.events := by
    rw [zooms.own, List.filterMap_map, show seen ∘ shown = some from funext sees]
    exact List.filterMap_some
  refine ⟨?_, fun a ok => holds.value a (zooms.outcome.symm.trans ok), fun e error => ?_⟩
  · show A.links ((own r.events).filterMap seen) (l.get s) (l.get r.state)
    rw [same, zooms.state, l.get_set]
    exact holds.links
  · show A.fails ((own r.events).filterMap seen) e
    rw [same]
    exact holds.fails e (zooms.outcome.symm.trans error)

end Viewed

end Account

end Effect.Code
