import CharcoalOS.Lib.Program

/-!
# Fuelled loops and their iterations

`loop exhausted body fuel b` iterates `body` from the loop variable `b` until it
reports `done`, fails, or has been run `fuel` times.

* `wp_loop` is the invariant rule: what one iteration preserves, a run preserves,
  and a variant bounds the fuel a run can use up.
* `Trail body label a ts b` names the iterations themselves: completed
  iterations of `body` lead from the head `a` to the head `b`, and `ts` are the
  labels of the heads left on the way. `loop_cases` and `mem_events_loop` say that
  a loop is exactly its trail; `Trail.invariant` and `Trail.variant` are the
  induction rules over it.
-/

namespace Effect

/-- What one iteration asks for: another one, or the end of the loop. -/
inductive Control (β γ : Type) : Type
  | next (head : β)
  | done (value : γ)

namespace Program

variable {σ ε ω β γ τ : Type}

/-- Iterate `body`, at most `fuel` times. -/
def loop (exhausted : ε) (body : β → Program σ ε ω (Control β γ)) :
    Nat → β → Program σ ε ω γ
  | 0, _ => fail exhausted
  | fuel + 1, b =>
      body b >>= fun
        | .next b' => loop exhausted body fuel b'
        | .done c => pure c

section Invariant

variable {exhausted : ε} {body : β → Program σ ε ω (Control β γ)}

/-- What an iteration has to establish for the loop rule: the invariant `Inv` with
a smaller variant `μ` before another iteration, `Done` at the end, `Bad` on
failure, and `Event` for all it emits. -/
def IterationPost (Inv : β → σ → Prop) (μ : β → Nat) (Done : γ → σ → Prop)
    (Bad : ε → σ → Prop) (Event : ω → Prop) (b : β) : Post σ ε ω (Control β γ)
  | .ok (.next b'), s, evs => Inv b' s ∧ μ b' < μ b ∧ ∀ e ∈ evs, Event e
  | .ok (.done c), s, evs => Done c s ∧ ∀ e ∈ evs, Event e
  | .error e, s, evs => Bad e s ∧ ∀ e ∈ evs, Event e

/-- What a loop establishes: it is out of fuel only as `OutOfFuel` allows. -/
def LoopPost (Done : γ → σ → Prop) (Bad : ε → σ → Prop) (Event : ω → Prop)
    (exhausted : ε) (OutOfFuel : σ → Prop) : Post σ ε ω γ
  | .ok c, s, evs => Done c s ∧ ∀ e ∈ evs, Event e
  | .error e, s, evs =>
      (Bad e s ∨ e = exhausted ∧ OutOfFuel s) ∧ ∀ e ∈ evs, Event e

/-- **Invariant rule.** -/
theorem wp_loop (Inv : β → σ → Prop) (μ : β → Nat) {Done : γ → σ → Prop}
    {Bad : ε → σ → Prop} {Event : ω → Prop}
    (iteration : ∀ b s, Inv b s →
      wp (body b) (IterationPost Inv μ Done Bad Event b) s) :
    ∀ {fuel : Nat} {b : β} {s : σ}, Inv b s →
      wp (loop exhausted body fuel b)
        (LoopPost Done Bad Event exhausted fun s' => fuel ≤ μ b ∧ ∃ b', Inv b' s') s := by
  intro fuel
  induction fuel with
  | zero =>
      intro b s inv
      rw [loop, wp_fail]
      exact ⟨Or.inr ⟨rfl, Nat.zero_le _, b, inv⟩, List.forall_mem_nil _⟩
  | succ fuel ih =>
      intro b s inv
      rw [loop, wp_bind]
      apply wp_mono (iteration b s inv)
      intro o s' evs post
      match o, post with
      | .ok (.next b'), ⟨inv', smaller, events⟩ =>
          rw [seqPost_ok]
          apply wp_mono (ih inv')
          intro o' s'' evs' post'
          match o', post' with
          | .ok c, ⟨done, events'⟩ =>
              exact ⟨done, fun e member =>
                (List.mem_append.mp member).elim (events e) (events' e)⟩
          | .error e, ⟨bad, events'⟩ =>
              refine ⟨bad.imp_right fun ⟨eq, out, kept⟩ => ⟨eq, ?_, kept⟩, fun e member =>
                (List.mem_append.mp member).elim (events e) (events' e)⟩
              omega
      | .ok (.done c), ⟨done, events⟩ =>
          rw [seqPost_ok, wp_pure, List.append_nil]
          exact ⟨done, events⟩
      | .error e, ⟨bad, events⟩ => exact ⟨Or.inl bad, events⟩

end Invariant

/-- A loop emits only what every iteration may emit. -/
theorem Emits.loop {P : ω → Prop} {exhausted : ε} {body : β → Program σ ε ω (Control β γ)}
    (iteration : ∀ b, Emits P (body b)) (fuel : Nat) (b : β) :
    Emits P (loop exhausted body fuel b) := by
  induction fuel generalizing b with
  | zero => exact .fail exhausted
  | succ fuel ih =>
      refine .bind (iteration b) fun
        | .next b' => ih b'
        | .done c => .pure c

/-! ## Trails -/

/-- The iteration at the head `a` completes and leaves the head `b`. -/
def Continues (body : β → Program σ ε ω (Control β γ)) (a b : β × σ) : Prop :=
  (body a.1 a.2).outcome = .ok (.next b.1) ∧ (body a.1 a.2).state = b.2

/-- Completed iterations lead from the head `a` to the head `b`; `ts` are the
labels of the heads left, oldest first. -/
inductive Trail (body : β → Program σ ε ω (Control β γ)) (label : β → τ) (a : β × σ) :
    List τ → β × σ → Prop
  | start : Trail body label a [] a
  | step {ts : List τ} {b c : β × σ} :
    Trail body label a ts b → Continues body b c →
    Trail body label a (ts ++ [label b.1]) c

variable {body : β → Program σ ε ω (Control β γ)} {label : β → τ} {a b c : β × σ}
  {ts : List τ} {exhausted : ε}

/-- An invariant that every completed iteration keeps holds along a trail. -/
theorem Trail.invariant (Inv : β × σ → Prop) (trail : Trail body label a ts b)
    (start : Inv a) (step : ∀ b c, Inv b → Continues body b c → Inv c) : Inv b := by
  induction trail with
  | start => exact start
  | step _ edge ih => exact step _ _ ih edge

/-- A variant that every completed iteration lowers by `k` bounds the length of a
trail. -/
theorem Trail.variant (Inv : β × σ → Prop) (μ : β × σ → Nat) {k : Nat}
    (trail : Trail body label a ts b) (start : Inv a)
    (step : ∀ b c, Inv b → Continues body b c → Inv c ∧ μ c + k ≤ μ b) :
    μ b + k * ts.length ≤ μ a := by
  have both : Inv b ∧ μ b + k * ts.length ≤ μ a := by
    induction trail with
    | start => exact ⟨start, by simp⟩
    | step _ edge ih =>
        obtain ⟨inv, bound⟩ := ih
        obtain ⟨inv', lower⟩ := step _ _ inv edge
        refine ⟨inv', ?_⟩
        rw [List.length_append, List.length_singleton, Nat.mul_add, Nat.mul_one]
        omega
  exact both.2

/-- A trail can be extended at its front. -/
theorem Trail.cons (edge : Continues body a b) (trail : Trail body label b ts c) :
    Trail body label a (label a.1 :: ts) c := by
  induction trail with
  | start => exact .step .start edge
  | step _ last ih => exact .step ih last

/-- A trail is empty, or starts with an iteration. -/
theorem Trail.uncons (trail : Trail body label a ts c) :
    (ts = [] ∧ c = a) ∨
      ∃ b us, ts = label a.1 :: us ∧ Continues body a b ∧ Trail body label b us c := by
  induction trail with
  | start => exact Or.inl ⟨rfl, rfl⟩
  | step _ last ih =>
      refine Or.inr ?_
      rcases ih with ⟨rfl, rfl⟩ | ⟨b, us, rfl, edge, trail⟩
      · exact ⟨_, [], rfl, last, .start⟩
      · exact ⟨b, _, rfl, edge, .step trail last⟩

/-- An iteration leads to one head. -/
theorem Continues.unique {b' : β × σ} (edge : Continues body a b) (edge' : Continues body a b') :
    b = b' := by
  have head : b.1 = b'.1 := by
    injection edge.1.symm.trans edge'.1 with control
    injection control
  exact Prod.ext head (edge.2.symm.trans edge'.2)

/-- The head a trail passes after `ts`, and the label it goes on with. -/
theorem Trail.split {t : τ} {ts us : List τ} (trail : Trail body label a (ts ++ t :: us) c) :
    ∃ b d, Trail body label a ts b ∧ label b.1 = t ∧ Continues body b d := by
  generalize whole : ts ++ t :: us = labels at trail
  induction trail generalizing us with
  | start => simp at whole
  | @step labels b c trail edge ih =>
      rcases List.eq_nil_or_concat us with rfl | ⟨us, u, rfl⟩
      · obtain ⟨rfl, last⟩ := List.append_inj' whole rfl
        cases last
        exact ⟨b, c, trail, rfl, edge⟩
      · rw [List.concat_eq_append, ← List.cons_append, ← List.append_assoc] at whole
        exact ih (List.append_inj' whole rfl).1

/-- The labels of the iterations that complete, run with `fuel`. -/
def labels (body : β → Program σ ε ω (Control β γ)) (label : β → τ) : ℕ → β → σ → List τ
  | 0, _, _ => []
  | fuel + 1, b, s =>
      match (body b s).outcome with
      | .ok (.next b') => label b :: labels body label fuel b' (body b s).state
      | _ => []

/-- The labels of a trail come first. -/
theorem Trail.labels_eq (trail : Trail body label a ts b) (fuel : Nat) :
    labels body label (ts.length + fuel) a.1 a.2 = ts ++ labels body label fuel b.1 b.2 := by
  induction trail generalizing fuel with
  | start => simp
  | step _ edge ih =>
      have once := ih (fuel + 1)
      rw [labels, edge.1, edge.2] at once
      rw [List.length_append, List.length_singleton, Nat.add_assoc, Nat.add_comm 1, once,
        List.append_assoc]
      rfl

/-- A trail to the head at which the loop ends has all the labels. -/
theorem Trail.labels_of_done {fuel : Nat} {v : γ} (trail : Trail body label a ts b)
    (less : ts.length < fuel) (stop : (body b.1 b.2).outcome = .ok (.done v)) :
    labels body label fuel a.1 a.2 = ts := by
  obtain ⟨more, rfl⟩ : ∃ more, fuel = ts.length + (more + 1) := ⟨fuel - ts.length - 1, by omega⟩
  rw [trail.labels_eq, labels, stop, List.append_nil]

/-- How a loop can end, told by its last head. -/
inductive LoopEnd (body : β → Program σ ε ω (Control β γ)) (exhausted : ε) (fuel : Nat)
    (n : Nat) (b : β × σ) : Except ε γ → σ → Prop
  | done {v : γ} : n < fuel → (body b.1 b.2).outcome = .ok (.done v) →
    LoopEnd body exhausted fuel n b (.ok v) (body b.1 b.2).state
  | failed {e : ε} : n < fuel → (body b.1 b.2).outcome = .error e →
    LoopEnd body exhausted fuel n b (.error e) (body b.1 b.2).state
  | exhausted : n = fuel → LoopEnd body exhausted fuel n b (.error exhausted) b.2

theorem LoopEnd.succ {fuel n : Nat} {o : Except ε γ} {s : σ}
    (ending : LoopEnd body exhausted fuel n b o s) :
    LoopEnd body exhausted (fuel + 1) (n + 1) b o s := by
  cases ending with
  | done less stop => exact .done (by omega) stop
  | failed less stop => exact .failed (by omega) stop
  | exhausted eq => exact .exhausted (by omega)

/-- **A loop is its trail.** Some trail from the start leads to the head at which
the loop ends. -/
theorem loop_cases (exhausted : ε) (body : β → Program σ ε ω (Control β γ)) (label : β → τ)
    (fuel : Nat) (b : β) (s : σ) :
    ∃ ts c, Trail body label (b, s) ts c ∧
      LoopEnd body exhausted fuel ts.length c (loop exhausted body fuel b s).outcome
        (loop exhausted body fuel b s).state := by
  induction fuel generalizing b s with
  | zero => exact ⟨[], _, .start, .exhausted rfl⟩
  | succ fuel ih =>
      rcases run : body b s with ⟨o, s', evs⟩
      match o with
      | .ok (.next b') =>
          obtain ⟨ts, c, trail, ending⟩ := ih b' s'
          refine ⟨_, c, .cons (a := (b, s)) ⟨by rw [run], by rw [run]⟩ trail, ?_⟩
          rw [loop, bind_ok run]
          exact ending.succ
      | .ok (.done v) =>
          refine ⟨[], (b, s), .start, ?_⟩
          rw [loop, bind_ok run]
          have ending : LoopEnd body exhausted (fuel + 1) 0 (b, s) (.ok v) (body b s).state :=
            .done (Nat.succ_pos fuel) (by rw [run])
          rwa [run] at ending
      | .error e =>
          refine ⟨[], (b, s), .start, ?_⟩
          rw [loop, bind_error run]
          have ending : LoopEnd body exhausted (fuel + 1) 0 (b, s) (.error e) (body b s).state :=
            .failed (Nat.succ_pos fuel) (by rw [run])
          rwa [run] at ending

/-- A trail shorter than the fuel is a prefix of the loop: the loop goes on from
its last head. -/
theorem loop_of_trail (exhausted : ε) (trail : Trail body label a ts b) (fuel : Nat) :
    (loop exhausted body (ts.length + fuel) a.1 a.2).outcome =
        (loop exhausted body fuel b.1 b.2).outcome ∧
      (loop exhausted body (ts.length + fuel) a.1 a.2).state =
        (loop exhausted body fuel b.1 b.2).state ∧
      ∃ before, (loop exhausted body (ts.length + fuel) a.1 a.2).events =
        before ++ (loop exhausted body fuel b.1 b.2).events := by
  induction trail generalizing fuel with
  | start => exact ⟨by simp, by simp, [], by simp⟩
  | @step ts b c _ edge ih =>
      obtain ⟨outcome, state, before, events⟩ := ih (fuel + 1)
      rcases run : body b.1 b.2 with ⟨o, s', evs⟩
      obtain ⟨head, state'⟩ := edge
      rw [run] at head state'
      dsimp only at head state'
      subst head state'
      rw [loop, bind_ok run] at outcome state events
      rw [List.length_append, List.length_singleton, Nat.add_assoc, Nat.add_comm 1]
      exact ⟨outcome, state, before ++ evs, by rw [events, List.append_assoc]⟩

/-- So it is with what follows the loop. -/
theorem loop_bind_of_trail (exhausted : ε) (trail : Trail body label a ts b) (fuel : Nat)
    {δ : Type} (f : γ → Program σ ε ω δ) :
    ∃ before, ((loop exhausted body (ts.length + fuel) a.1 >>= f) a.2).events =
      before ++ ((loop exhausted body fuel b.1 >>= f) b.2).events := by
  obtain ⟨outcome, state, before, events⟩ := loop_of_trail exhausted trail fuel
  refine ⟨before, ?_⟩
  rcases whole : loop exhausted body (ts.length + fuel) a.1 a.2 with ⟨o, s, evs⟩
  rcases rest : loop exhausted body fuel b.1 b.2 with ⟨o', s', evs'⟩
  rw [whole, rest] at outcome state events
  dsimp only at outcome state events
  subst outcome state events
  cases o with
  | ok v => rw [bind_ok whole, bind_ok rest, List.append_assoc]
  | error e => rw [bind_error whole, bind_error rest]

/-- **A loop emits what its iterations emit.** -/
theorem mem_events_loop (label : β → τ) {fuel : Nat} {b : β} {s : σ} {e : ω} :
    e ∈ (loop exhausted body fuel b s).events ↔
      ∃ ts c, Trail body label (b, s) ts c ∧ ts.length < fuel ∧
        e ∈ (body c.1 c.2).events := by
  constructor
  · intro member
    induction fuel generalizing b s with
    | zero => simp [loop, fail] at member
    | succ fuel ih =>
        rcases run : body b s with ⟨o, s', evs⟩
        have here : e ∈ evs → ∃ ts c, Trail body label (b, s) ts c ∧
            ts.length < fuel + 1 ∧ e ∈ (body c.1 c.2).events := fun member =>
          ⟨[], (b, s), .start, Nat.succ_pos _, by rw [run]; exact member⟩
        match o with
        | .ok (.next b') =>
            rw [loop, bind_ok run] at member
            rcases List.mem_append.mp member with first | later
            · exact here first
            · obtain ⟨ts, c, trail, less, member⟩ := ih later
              exact ⟨_, c, .cons (a := (b, s)) ⟨by rw [run], by rw [run]⟩ trail,
                by simpa using less, member⟩
        | .ok (.done v) =>
            rw [loop, bind_ok run] at member
            exact here (by simpa [pure, ret] using member)
        | .error _ =>
            rw [loop, bind_error run] at member
            exact here member
  · intro emitted
    obtain ⟨ts, c, trail, less, member⟩ := emitted
    obtain ⟨more, rfl⟩ : ∃ more, fuel = ts.length + (more + 1) :=
      ⟨fuel - ts.length - 1, by omega⟩
    obtain ⟨before, events⟩ := (loop_of_trail exhausted trail (more + 1)).2.2
    rw [events]
    refine List.mem_append_right before ?_
    rcases run : body c.1 c.2 with ⟨o, s', evs⟩
    rw [run] at member
    match o with
    | .ok (.next b') =>
        rw [loop, bind_ok run]
        exact List.mem_append_left _ member
    | .ok (.done v) =>
        rw [loop, bind_ok run]
        exact List.mem_append_left _ member
    | .error _ =>
        rw [loop, bind_error run]
        exact member

end Program

end Effect
