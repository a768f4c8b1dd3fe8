import Mathlib

/-!
# Programs with a state, a failure and an event log

`Program σ ε ω α` runs from a state of type `σ`, ends with a value of type `α` or
a failure of type `ε`, and emits events of type `ω` on the way. The log is
write-only: no program can read what it has emitted, so the events of a
sequence are the events of its parts in order.

`wp c Q s` says that `c`, run from `s`, ends in a result that satisfies `Q`,
whether by value or by failure. The `wp` equations below run a program
symbolically; `wp_mono` replaces a callee by its specification.
-/

namespace Effect

/-- What a run leaves: its value or failure, its state, and its events in
order. -/
structure Result (σ ε ω α : Type) where
  outcome : Except ε α
  state : σ
  events : List ω

/-- The result of a run that had emitted `evs` before. -/
def Result.after {σ ε ω α : Type} (evs : List ω) (r : Result σ ε ω α) : Result σ ε ω α :=
  ⟨r.outcome, r.state, evs ++ r.events⟩

/-- A deterministic program over states `σ`, failures `ε` and events `ω`. -/
def Program (σ ε ω α : Type) : Type := σ → Result σ ε ω α

/-- A condition on the result of a run. -/
abbrev Post (σ ε ω α : Type) : Type := Except ε α → σ → List ω → Prop

namespace Program

variable {σ ε ω α β : Type}

/-- Finish with the value `a`. -/
def ret (a : α) : Program σ ε ω α := fun s => ⟨.ok a, s, []⟩

/-- Run `c`, then `f` on its value; a failure of `c` skips `f`. -/
def andThen (c : Program σ ε ω α) (f : α → Program σ ε ω β) : Program σ ε ω β :=
  fun s =>
    match c s with
    | ⟨.ok a, s', evs⟩ =>
        let r := f a s'
        ⟨r.outcome, r.state, evs ++ r.events⟩
    | ⟨.error e, s', evs⟩ => ⟨.error e, s', evs⟩

instance : Monad (Program σ ε ω) where
  pure := ret
  bind := andThen

/-- Fail with `e`. -/
def fail (e : ε) : Program σ ε ω α := fun s => ⟨.error e, s, []⟩

/-- Emit one event. -/
def emit (event : ω) : Program σ ε ω Unit := fun s => ⟨.ok (), s, [event]⟩

/-- The current state. -/
def current : Program σ ε ω σ := fun s => ⟨.ok s, s, []⟩

/-- Replace the state by its image under `f`. -/
def update (f : σ → σ) : Program σ ε ω Unit := fun s => ⟨.ok (), f s, []⟩

/-- Run `c`; turn a failure that `handler` accepts into a value. -/
def handling (handler : ε → Option α) (c : Program σ ε ω α) : Program σ ε ω α :=
  fun s =>
    match c s with
    | ⟨.ok a, s', evs⟩ => ⟨.ok a, s', evs⟩
    | ⟨.error e, s', evs⟩ =>
        match handler e with
        | some a => ⟨.ok a, s', evs⟩
        | none => ⟨.error e, s', evs⟩

/-! ## Weakest preconditions -/

/-- The run of `c` from `s` ends in `Q`. -/
def wp (c : Program σ ε ω α) (Q : Post σ ε ω α) (s : σ) : Prop :=
  Q (c s).outcome (c s).state (c s).events

/-- What `c` has to establish for `c >>= f` to end in `Q`. -/
def seqPost (f : α → Program σ ε ω β) (Q : Post σ ε ω β) : Post σ ε ω α
  | .ok a, s, evs => wp (f a) (fun o s' evs' => Q o s' (evs ++ evs')) s
  | .error e, s, evs => Q (.error e) s evs

theorem wp_iff {c : Program σ ε ω α} {Q : Post σ ε ω α} {s : σ} :
    wp c Q s ↔ Q (c s).outcome (c s).state (c s).events := Iff.rfl

theorem wp_mono {c : Program σ ε ω α} {Q R : Post σ ε ω α} {s : σ}
    (run : wp c Q s) (weaken : ∀ o s' evs, Q o s' evs → R o s' evs) : wp c R s :=
  weaken _ _ _ run

@[simp] theorem wp_pure {a : α} {Q : Post σ ε ω α} {s : σ} :
    wp (pure a : Program σ ε ω α) Q s ↔ Q (.ok a) s [] := Iff.rfl

@[simp] theorem wp_fail {e : ε} {Q : Post σ ε ω α} {s : σ} :
    wp (fail e : Program σ ε ω α) Q s ↔ Q (.error e) s [] := Iff.rfl

@[simp] theorem wp_emit {event : ω} {Q : Post σ ε ω Unit} {s : σ} :
    wp (emit event : Program σ ε ω Unit) Q s ↔ Q (.ok ()) s [event] := Iff.rfl

@[simp] theorem wp_current {Q : Post σ ε ω σ} {s : σ} :
    wp (current : Program σ ε ω σ) Q s ↔ Q (.ok s) s [] := Iff.rfl

@[simp] theorem wp_update {f : σ → σ} {Q : Post σ ε ω Unit} {s : σ} :
    wp (update f : Program σ ε ω Unit) Q s ↔ Q (.ok ()) (f s) [] := Iff.rfl

theorem bind_ok {c : Program σ ε ω α} {f : α → Program σ ε ω β} {s s' : σ} {a : α}
    {evs : List ω} (run : c s = ⟨.ok a, s', evs⟩) :
    (c >>= f) s = ⟨(f a s').outcome, (f a s').state, evs ++ (f a s').events⟩ := by
  show andThen c f s = _
  simp only [andThen, run]

theorem bind_error {c : Program σ ε ω α} {f : α → Program σ ε ω β} {s s' : σ} {e : ε}
    {evs : List ω} (run : c s = ⟨.error e, s', evs⟩) :
    (c >>= f) s = ⟨.error e, s', evs⟩ := by
  show andThen c f s = _
  simp only [andThen, run]

theorem bind_congr_left {c d : Program σ ε ω α} {f : α → Program σ ε ω β} {s : σ}
    (same : c s = d s) : (c >>= f) s = (d >>= f) s := by
  show andThen c f s = andThen d f s
  simp only [andThen, same]

/-- A first part that starts as `d` does, after some events. -/
theorem bind_after {c d : Program σ ε ω α} {f : α → Program σ ε ω β} {s s' : σ} {evs : List ω}
    (starts : c s = (d s').after evs) : (c >>= f) s = ((d >>= f) s').after evs := by
  rcases run : d s' with ⟨o, s'', evs'⟩
  rw [run, Result.after] at starts
  cases o with
  | error e => rw [bind_error starts, bind_error run, Result.after]
  | ok a => rw [bind_ok starts, bind_ok run, Result.after, List.append_assoc]

theorem bind_assoc {γ : Type} (c : Program σ ε ω α) (f : α → Program σ ε ω β)
    (g : β → Program σ ε ω γ) (s : σ) :
    (c >>= f >>= g) s = (c >>= fun a => f a >>= g) s := by
  rcases run : c s with ⟨o, s', evs⟩
  cases o with
  | error e => rw [bind_error (bind_error run), bind_error run]
  | ok a =>
      rw [bind_ok run]
      rcases rest : f a s' with ⟨o', s'', evs'⟩
      cases o' with
      | error e =>
          have both : (c >>= f) s = ⟨.error e, s'', evs ++ evs'⟩ := by rw [bind_ok run, rest]
          rw [bind_error both, bind_error rest]
      | ok b =>
          have both : (c >>= f) s = ⟨.ok b, s'', evs ++ evs'⟩ := by rw [bind_ok run, rest]
          rw [bind_ok both, bind_ok rest, List.append_assoc]

/-- What `c` emits comes first. -/
theorem mem_events_bind {c : Program σ ε ω α} (f : α → Program σ ε ω β) {s : σ} {e : ω}
    (member : e ∈ (c s).events) : e ∈ ((c >>= f) s).events := by
  rcases run : c s with ⟨o, s', evs⟩
  rw [run] at member
  cases o with
  | error => rwa [bind_error run]
  | ok =>
      rw [bind_ok run]
      exact List.mem_append_left _ member

@[simp] theorem wp_bind {c : Program σ ε ω α} {f : α → Program σ ε ω β}
    {Q : Post σ ε ω β} {s : σ} :
    wp (c >>= f) Q s ↔ wp c (seqPost f Q) s := by
  simp only [wp]
  rcases run : c s with ⟨o, s', evs⟩
  cases o with
  | ok a => rw [bind_ok run]; rfl
  | error e => rw [bind_error run]; rfl

@[simp] theorem seqPost_ok {f : α → Program σ ε ω β} {Q : Post σ ε ω β} {a : α} {s : σ}
    {evs : List ω} :
    seqPost f Q (.ok a) s evs ↔ wp (f a) (fun o s' evs' => Q o s' (evs ++ evs')) s :=
  Iff.rfl

@[simp] theorem seqPost_error {f : α → Program σ ε ω β} {Q : Post σ ε ω β} {e : ε} {s : σ}
    {evs : List ω} : seqPost f Q (.error e) s evs ↔ Q (.error e) s evs := Iff.rfl

@[simp] theorem wp_ite {b : Prop} [Decidable b] {c d : Program σ ε ω α}
    {Q : Post σ ε ω α} {s : σ} :
    wp (if b then c else d) Q s ↔ if b then wp c Q s else wp d Q s := by
  split <;> rfl

theorem wp_handling {handler : ε → Option α} {c : Program σ ε ω α} {Q : Post σ ε ω α} {s : σ} :
    wp (handling handler c) Q s ↔
      wp c (fun o s' evs =>
        match o with
        | .ok a => Q (.ok a) s' evs
        | .error e =>
            match handler e with
            | some a => Q (.ok a) s' evs
            | none => Q (.error e) s' evs) s := by
  simp only [wp, handling]
  rcases c s with ⟨o, s', evs⟩
  cases o with
  | ok a => rfl
  | error e => dsimp only; cases handler e <;> rfl

/-! ## Programs that emit only certain events -/

/-- Every event that `c` emits satisfies `P`, from whatever state it runs. -/
def Emits (P : ω → Prop) (c : Program σ ε ω α) : Prop := ∀ s, ∀ e ∈ (c s).events, P e

section Emits

variable {P Q : ω → Prop} {c d : Program σ ε ω α} {f : α → Program σ ε ω β}

theorem emits_iff : Emits P c ↔ ∀ s, wp c (fun _ _ evs => ∀ e ∈ evs, P e) s := Iff.rfl

theorem Emits.mono (emits : Emits P c) (weaken : ∀ e, P e → Q e) : Emits Q c :=
  fun s e member => weaken e (emits s e member)

theorem Emits.pure (a : α) : Emits P (Pure.pure a : Program σ ε ω α) :=
  fun _ => List.forall_mem_nil _

theorem Emits.fail (e : ε) : Emits P (Program.fail e : Program σ ε ω α) :=
  fun _ => List.forall_mem_nil _

theorem Emits.current : Emits P (Program.current : Program σ ε ω σ) :=
  fun _ => List.forall_mem_nil _

theorem Emits.emit {event : ω} (holds : P event) :
    Emits P (Program.emit event : Program σ ε ω Unit) := by
  intro s e member
  rw [List.mem_singleton.mp member]
  exact holds

theorem Emits.bind (first : Emits P c) (rest : ∀ a, Emits P (f a)) : Emits P (c >>= f) := by
  refine emits_iff.mpr fun s => wp_bind.mpr (wp_mono (emits_iff.mp first s) ?_)
  intro o s' evs events
  cases o with
  | error e => exact events
  | ok a => exact fun e member => (List.mem_append.mp member).elim (events e) (rest a s' e)

theorem Emits.ite {b : Prop} [Decidable b] (left : b → Emits P c) (right : ¬ b → Emits P d) :
    Emits P (if b then c else d) := by
  split
  · exact left ‹_›
  · exact right ‹_›

end Emits

end Program

end Effect
