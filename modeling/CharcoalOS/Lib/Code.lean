import CharcoalOS.Lib.Loop

/-!
# Programs step by step

A `Program` is known by its runs only. `Code` is the same kind of program as the tree of
its atomic steps, so that something else can happen between two of them; `Code.run` is the
program that takes all its steps in a row.

Two judgements speak of the steps whatever happens in between:

* `Safe P E Q F c`: as long as the others keep `P`, so does `c`; it emits only `E`, and it
  ends with a value in `Q` or a failure in `F`;
* `Arms P R E F c`: `c` keeps `P` and emits only `E` until one of its steps leads to `R`,
  and from there on it keeps `R`, never returns, and fails only as `F` allows.

`Safe.run` carries the first over to undisturbed runs.
-/

namespace Effect

/-- A program as its steps. A step emits its events, and leads to the next state and to the
rest of the program; all three may depend on the state it is taken in. -/
inductive Code (σ ε ω α : Type) : Type
  | done (value : α)
  | fail (error : ε)
  | step (events : σ → List ω) (next : σ → σ) (rest : σ → Code σ ε ω α)

namespace Code

variable {σ ε ω α β γ : Type}

/-- Run `c`, then `f` on its value. -/
def andThen : Code σ ε ω α → (α → Code σ ε ω β) → Code σ ε ω β
  | .done a, f => f a
  | .fail e, _ => .fail e
  | .step events next rest, f => .step events next fun s => (rest s).andThen f

instance : Monad (Code σ ε ω) where
  pure := done
  bind := andThen

theorem andThen_done (c : Code σ ε ω α) : c.andThen .done = c := by
  induction c with
  | done a => rfl
  | fail e => rfl
  | step events next rest ih => exact congrArg (step events next) (funext ih)

theorem andThen_assoc (c : Code σ ε ω α) (f : α → Code σ ε ω β) (g : β → Code σ ε ω γ) :
    (c.andThen f).andThen g = c.andThen fun a => (f a).andThen g := by
  induction c with
  | done a => rfl
  | fail e => rfl
  | step events next rest ih => exact congrArg (step events next) (funext ih)

instance : LawfulMonad (Code σ ε ω) :=
  LawfulMonad.mk' (Code σ ε ω) andThen_done (fun _ _ => rfl) andThen_assoc

/-- One step that emits an event. -/
def emit (event : ω) : Code σ ε ω Unit := .step (fun _ => [event]) id fun _ => .done ()

/-- One step that reads the state. -/
def current : Code σ ε ω σ := .step (fun _ => []) id .done

/-- One step that changes the state. -/
def update (f : σ → σ) : Code σ ε ω Unit := .step (fun _ => []) f fun _ => .done ()

/-- One step that changes the state, and shows it. -/
def store (event : ω) (f : σ → σ) : Code σ ε ω Unit :=
  .step (fun _ => [event]) f fun _ => .done ()

/-- The value, if there is one. -/
def ofOption (missing : ε) : Option α → Code σ ε ω α
  | some a => .done a
  | none => .fail missing

@[simp] theorem ofOption_some (missing : ε) (a : α) :
    (ofOption missing (some a) : Code σ ε ω α) = pure a := rfl

/-- Iterate `body`, at most `fuel` times. -/
def loop (exhausted : ε) (body : β → Code σ ε ω (Control β γ)) : Nat → β → Code σ ε ω γ
  | 0, _ => .fail exhausted
  | fuel + 1, b =>
      body b >>= fun
        | .next b' => loop exhausted body fuel b'
        | .done c => pure c

/-! ## Undisturbed runs -/

/-- All steps of `c` in a row. -/
def run : Code σ ε ω α → Program σ ε ω α
  | .done a => Program.ret a
  | .fail e => Program.fail e
  | .step events next rest => fun s => ((rest s).run (next s)).after (events s)

theorem run_step (events : σ → List ω) (next : σ → σ) (rest : σ → Code σ ε ω α) (s : σ) :
    (step events next rest).run s = ((rest s).run (next s)).after (events s) := rfl

@[simp] theorem run_pure (a : α) : (pure a : Code σ ε ω α).run = pure a := rfl

@[simp] theorem run_done (a : α) : (done a : Code σ ε ω α).run = pure a := rfl

@[simp] theorem run_fail (e : ε) : (fail e : Code σ ε ω α).run = Program.fail e := rfl

@[simp] theorem run_emit (event : ω) :
    (emit event : Code σ ε ω Unit).run = Program.emit event := rfl

@[simp] theorem run_current : (current : Code σ ε ω σ).run = Program.current := rfl

@[simp] theorem run_update (f : σ → σ) :
    (update f : Code σ ε ω Unit).run = Program.update f := rfl

@[simp] theorem run_ite {b : Prop} [Decidable b] (c d : Code σ ε ω α) :
    (if b then c else d).run = if b then c.run else d.run := by
  split <;> rfl

@[simp] theorem run_bind (c : Code σ ε ω α) (f : α → Code σ ε ω β) :
    (c >>= f).run = c.run >>= fun a => (f a).run := by
  funext s
  induction c generalizing s with
  | done a => rfl
  | fail e => rfl
  | step events next rest ih =>
      rw [Program.bind_after (run_step events next rest s), ← ih]
      rfl

section Loop

variable {exhausted : ε} {body : β → Code σ ε ω (Control β γ)} {fuel : Nat} {b b' : β} {s s' : σ}
  {evs : List ω}

theorem run_loop_next (iteration : (body b).run s = ⟨.ok (.next b'), s', evs⟩) :
    (loop exhausted body (fuel + 1) b).run s =
      ((loop exhausted body fuel b').run s').after evs := by
  rw [loop, run_bind, Program.bind_ok iteration]
  rfl

theorem run_loop_done {c : γ} (iteration : (body b).run s = ⟨.ok (.done c), s', evs⟩) :
    (loop exhausted body (fuel + 1) b).run s = ⟨.ok c, s', evs⟩ := by
  rw [loop, run_bind, Program.bind_ok iteration]
  exact congrArg (Result.mk _ _) (List.append_nil _)

theorem run_loop_error {e : ε} (iteration : (body b).run s = ⟨.error e, s', evs⟩) :
    (loop exhausted body (fuel + 1) b).run s = ⟨.error e, s', evs⟩ := by
  rw [loop, run_bind, Program.bind_error iteration]

end Loop

/-! ## What every step keeps -/

/-- `c` keeps `P` as long as the others do, emits only `E`, and ends with a value in `Q` or
a failure in `F`. -/
def Safe (P : σ → Prop) (E : ω → Prop) (Q : α → Prop) (F : ε → Prop) :
    Code σ ε ω α → Prop
  | .done a => Q a
  | .fail e => F e
  | .step events next rest =>
      ∀ s, P s → (∀ e ∈ events s, E e) ∧ P (next s) ∧ (rest s).Safe P E Q F

section Safe

variable {P R : σ → Prop} {E E' : ω → Prop} {Q Q' : α → Prop} {F F' : ε → Prop}
  {c d : Code σ ε ω α} {f : α → Code σ ε ω β} {S : β → Prop}

theorem Safe.done {a : α} (value : Q a) : Safe P E Q F (.done a : Code σ ε ω α) := value

theorem Safe.pure {a : α} (value : Q a) : Safe P E Q F (Pure.pure a : Code σ ε ω α) := value

theorem Safe.fail {e : ε} (failure : F e) : Safe P E Q F (.fail e : Code σ ε ω α) := failure

theorem Safe.emit {event : ω} {Q : Unit → Prop} (allowed : E event) (value : Q ()) :
    Safe P E Q F (Code.emit event) :=
  fun _ holds => ⟨List.forall_mem_singleton.mpr allowed, holds, value⟩

theorem Safe.current {Q : σ → Prop} (value : ∀ s, P s → Q s) :
    Safe P E Q F (Code.current : Code σ ε ω σ) :=
  fun s holds => ⟨List.forall_mem_nil _, holds, value s holds⟩

theorem Safe.update {g : σ → σ} {Q : Unit → Prop} (keeps : ∀ s, P s → P (g s)) (value : Q ()) :
    Safe P E Q F (Code.update g) :=
  fun s holds => ⟨List.forall_mem_nil _, keeps s holds, value⟩

theorem Safe.store {event : ω} {g : σ → σ} {Q : Unit → Prop} (allowed : E event)
    (keeps : ∀ s, P s → P (g s)) (value : Q ()) : Safe P E Q F (Code.store event g) :=
  fun s holds => ⟨List.forall_mem_singleton.mpr allowed, keeps s holds, value⟩

theorem Safe.ofOption {missing : ε} {value : Option α} (there : ∀ a, value = some a → Q a)
    (failure : value = none → F missing) : Safe P E Q F (Code.ofOption missing value) := by
  cases value with
  | none => exact failure rfl
  | some a => exact there a rfl

theorem Safe.mono (safe : Safe P E Q F c) (events : ∀ e, E e → E' e) (values : ∀ a, Q a → Q' a)
    (failures : ∀ e, F e → F' e) : Safe P E' Q' F' c := by
  induction c with
  | done a => exact values a safe
  | fail e => exact failures e safe
  | step _ _ rest ih =>
      intro s holds
      obtain ⟨emits, keeps, later⟩ := safe s holds
      exact ⟨fun e member => events e (emits e member), keeps, ih s later⟩

theorem Safe.bind (first : Safe P E Q F c) (then_ : ∀ a, Q a → Safe P E S F (f a)) :
    Safe P E S F (c >>= f) := by
  induction c with
  | done a => exact then_ a first
  | fail e => exact first
  | step _ _ rest ih =>
      intro s holds
      obtain ⟨emits, keeps, later⟩ := first s holds
      exact ⟨emits, keeps, ih s later⟩

theorem Safe.ite {b : Prop} [Decidable b] (left : b → Safe P E Q F c)
    (right : ¬ b → Safe P E Q F d) : Safe P E Q F (if b then c else d) := by
  split
  · exact left ‹_›
  · exact right ‹_›

theorem Safe.loop {exhausted : ε} {body : β → Code σ ε ω (Control β γ)} {Q : γ → Prop}
    (out : F exhausted)
    (iteration : ∀ b, Safe P E (fun control => ∀ c, control = .done c → Q c) F (body b))
    (fuel : Nat) (b : β) : Safe P E Q F (Code.loop exhausted body fuel b) := by
  induction fuel generalizing b with
  | zero => exact out
  | succ fuel ih =>
      refine .bind (iteration b) fun control ends => ?_
      cases control with
      | next b' => exact ih b'
      | done c => exact ends c rfl

/-- An undisturbed run is one in which the others keep everything. -/
theorem Safe.run (safe : Safe P E Q F c) {s : σ} (holds : P s) :
    Program.wp c.run (fun o s' evs => P s' ∧ (∀ e ∈ evs, E e) ∧
      (∀ a, o = .ok a → Q a) ∧ ∀ e, o = .error e → F e) s := by
  induction c generalizing s with
  | done a =>
      refine ⟨holds, List.forall_mem_nil _, fun b same => ?_, nofun⟩
      cases same
      exact safe
  | fail e =>
      refine ⟨holds, List.forall_mem_nil _, nofun, fun e' same => ?_⟩
      cases same
      exact safe
  | step _ _ rest ih =>
      obtain ⟨emits, keeps, later⟩ := safe s holds
      obtain ⟨kept, emits', value, failure⟩ := ih s later keeps
      exact ⟨kept, List.forall_mem_append.mpr ⟨emits, emits'⟩, value, failure⟩

end Safe

/-! ## Going over from one invariant to another -/

/-- `c` keeps `P` and emits only `E` until a step of its own leads to `R`; after that step it
keeps `R`, never returns, and fails only as `F` allows. -/
def Arms (P R : σ → Prop) (E : ω → Prop) (F : ε → Prop) : Code σ ε ω α → Prop
  | .done _ => False
  | .fail _ => False
  | .step events next rest =>
      ∀ s, P s → (∀ e ∈ events s, E e) ∧
        (P (next s) ∧ (rest s).Arms P R E F ∨
          R (next s) ∧ (rest s).Safe R (fun _ => True) (fun _ => False) F)

section Arms

variable {P R : σ → Prop} {E : ω → Prop} {Q : α → Prop} {F : ε → Prop}
  {c : Code σ ε ω α} {f : α → Code σ ε ω β}

/-- What comes before may keep `P`, provided that it does not fail. -/
theorem Arms.after (first : Safe P E Q (fun _ => False) c)
    (then_ : ∀ a, Q a → Arms P R E F (f a)) : Arms P R E F (c >>= f) := by
  induction c with
  | done a => exact then_ a first
  | fail e => exact first.elim
  | step _ _ rest ih =>
      intro s holds
      obtain ⟨emits, keeps, later⟩ := first s holds
      exact ⟨emits, Or.inl ⟨keeps, ih s later⟩⟩

/-- What comes after does not matter: it is never reached. -/
theorem Arms.bind (first : Arms P R E F c) : Arms P R E F (c >>= f) := by
  induction c with
  | done a => exact first.elim
  | fail e => exact first.elim
  | step _ _ rest ih =>
      intro s holds
      obtain ⟨emits, later⟩ := first s holds
      refine ⟨emits, later.imp (And.imp_right (ih s)) (And.imp_right fun safe => ?_)⟩
      exact safe.bind nofun

/-- The step itself. -/
theorem Arms.store {event : ω} {g : σ → σ} {f : Unit → Code σ ε ω β} (allowed : E event)
    (leads : ∀ s, P s → R (g s))
    (then_ : (f ()).Safe R (fun _ => True) (fun _ => False) F) :
    Arms P R E F (Code.store event g >>= f) :=
  fun s holds => ⟨List.forall_mem_singleton.mpr allowed, Or.inr ⟨leads s holds, then_⟩⟩

end Arms

end Code

end Effect
