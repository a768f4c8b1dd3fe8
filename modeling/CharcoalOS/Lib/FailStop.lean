import CharcoalOS.Lib.Loop

/-!
# Programs that stop at their first alarm

Some events are alarms. A program fail-stops if a run that raises an alarm fails there,
with nothing after it but the final events of that alarm, and a run that raises none
fails quietly at most. `FailStopsBut policy Swallows` allows one exception: after an
event that `Swallows` accepts, the run may end with the alarm and without failing.

The closure lemmas follow the constructs of `Program`; `loop_heeds` is the rule for a
loop whose iterations may swallow an alarm, but do so only where the loop ends.
-/

namespace Effect

/-- Which events are alarms, which failures need none, and how an alarm ends: by
which failure, and with which last events. -/
structure StopPolicy (ε ω : Type) where
  Alarm : ω → Prop
  Quiet : ε → Prop
  Final : ε → List ω → Prop

namespace Program

variable {σ ε ω α β γ τ : Type}

/-- No alarm is among the events. -/
def Silent (policy : StopPolicy ε ω) (evs : List ω) : Prop := ∀ e ∈ evs, ¬ policy.Alarm e

/-- How a run ends that stops at its first alarm, or swallows it. -/
inductive StopEnd (policy : StopPolicy ε ω) (Swallows : ω → Prop) :
    Except ε α → List ω → Prop
  | quiet {o : Except ε α} {evs : List ω} : Silent policy evs →
    (∀ e, o = .error e → policy.Quiet e) → StopEnd policy Swallows o evs
  | alarmed {e : ε} {before last : List ω} : Silent policy before → policy.Final e last →
    StopEnd policy Swallows (.error e) (before ++ last)
  | swallowed {o : Except ε α} {f : ω} {e : ε} {before last : List ω} :
    Silent policy before → f ∈ before → Swallows f → policy.Final e last →
    (∀ e, o = .error e → policy.Quiet e) → StopEnd policy Swallows o (before ++ last)

/-- Every run of `c` stops at its first alarm, or swallows it. -/
def FailStopsBut (policy : StopPolicy ε ω) (Swallows : ω → Prop) (c : Program σ ε ω α) : Prop :=
  ∀ s, StopEnd policy Swallows (c s).outcome (c s).events

/-- Every run of `c` stops at its first alarm. -/
abbrev FailStops (policy : StopPolicy ε ω) (c : Program σ ε ω α) : Prop :=
  FailStopsBut policy (fun _ => False) c

/-- Only the final events of an alarm come after the silent ones. -/
def AlarmLast (policy : StopPolicy ε ω) (evs : List ω) : Prop :=
  Silent policy evs ∨
    ∃ before e last, Silent policy before ∧ policy.Final e last ∧ evs = before ++ last

section FailStop

variable {policy : StopPolicy ε ω} {Swallows : ω → Prop} {c d : Program σ ε ω α}
  {f : α → Program σ ε ω β} {o : Except ε α} {evs evs' : List ω}

@[simp] theorem silent_nil : Silent policy [] := List.forall_mem_nil _

@[simp] theorem silent_append :
    Silent policy (evs ++ evs') ↔ Silent policy evs ∧ Silent policy evs' := List.forall_mem_append

theorem StopEnd.alarmLast (ending : StopEnd policy Swallows o evs) : AlarmLast policy evs := by
  cases ending with
  | quiet silent => exact Or.inl silent
  | alarmed silent final => exact Or.inr ⟨_, _, _, silent, final, rfl⟩
  | swallowed silent _ _ final _ => exact Or.inr ⟨_, _, _, silent, final, rfl⟩

/-- A fail-stop run that ends normally is silent. -/
theorem StopEnd.silent_of_ok {a : α} (ending : StopEnd policy (fun _ => False) (.ok a) evs) :
    Silent policy evs := by
  cases ending with
  | quiet silent => exact silent
  | swallowed _ _ swallows => exact swallows.elim

/-- A run that ends normally after an alarm has swallowed it. -/
theorem StopEnd.swallows_of_ok {a : α} (ending : StopEnd policy Swallows (.ok a) evs)
    (loud : ¬ Silent policy evs) : ∃ f ∈ evs, Swallows f := by
  cases ending with
  | quiet silent => exact absurd silent loud
  | swallowed _ member swallows => exact ⟨_, List.mem_append_left _ member, swallows⟩

/-- A fail-stop run that fails otherwise than quietly has raised its alarm. -/
theorem StopEnd.final_of_error {e : ε}
    (ending : StopEnd policy (fun _ => False) (.error e : Except ε α) evs)
    (loud : ¬ policy.Quiet e) :
    ∃ before last, Silent policy before ∧ policy.Final e last ∧ evs = before ++ last := by
  cases ending with
  | quiet _ quiet => exact absurd (quiet e rfl) loud
  | alarmed silent final => exact ⟨_, _, silent, final, rfl⟩
  | swallowed _ _ swallows => exact swallows.elim

/-- A run may be preceded by silent events. -/
theorem StopEnd.after (before : Silent policy evs) (ending : StopEnd policy Swallows o evs') :
    StopEnd policy Swallows o (evs ++ evs') := by
  cases ending with
  | quiet silent failure => exact .quiet (silent_append.mpr ⟨before, silent⟩) failure
  | alarmed silent final =>
      rw [← List.append_assoc]
      exact .alarmed (silent_append.mpr ⟨before, silent⟩) final
  | swallowed silent member swallows final failure =>
      rw [← List.append_assoc]
      exact .swallowed (silent_append.mpr ⟨before, silent⟩) (List.mem_append_right _ member)
        swallows final failure

/-- A failure has no value. -/
theorem StopEnd.of_error {e : ε} (ending : StopEnd policy Swallows (.error e : Except ε α) evs) :
    StopEnd policy Swallows (.error e : Except ε β) evs := by
  cases ending with
  | quiet silent failure => exact .quiet silent fun e' same => failure e' (by cases same; rfl)
  | alarmed silent final => exact .alarmed silent final
  | swallowed silent member swallows final failure =>
      exact .swallowed silent member swallows final fun e' same => failure e' (by cases same; rfl)

theorem StopEnd.mono (ending : StopEnd policy (fun _ => False) o evs) :
    StopEnd policy Swallows o evs := by
  cases ending with
  | quiet silent failure => exact .quiet silent failure
  | alarmed silent final => exact .alarmed silent final
  | swallowed _ _ swallows => exact swallows.elim

theorem AlarmLast.after (before : Silent policy evs) (last : AlarmLast policy evs') :
    AlarmLast policy (evs ++ evs') := by
  rcases last with silent | ⟨before', e, last, silent, final, rfl⟩
  · exact Or.inl (silent_append.mpr ⟨before, silent⟩)
  · exact Or.inr ⟨evs ++ before', e, last, silent_append.mpr ⟨before, silent⟩, final,
      (List.append_assoc ..).symm⟩

theorem FailStopsBut.pure (a : α) :
    FailStopsBut policy Swallows (Pure.pure a : Program σ ε ω α) :=
  fun _ => .quiet silent_nil nofun

theorem FailStopsBut.current :
    FailStopsBut policy Swallows (Program.current : Program σ ε ω σ) :=
  fun _ => .quiet silent_nil nofun

theorem FailStopsBut.update (g : σ → σ) :
    FailStopsBut policy Swallows (Program.update g : Program σ ε ω Unit) :=
  fun _ => .quiet silent_nil nofun

theorem FailStopsBut.fail {e : ε} (quiet : policy.Quiet e) :
    FailStopsBut policy Swallows (Program.fail e : Program σ ε ω α) := by
  refine fun _ => .quiet silent_nil fun e' same => ?_
  cases same
  exact quiet

theorem FailStopsBut.emit {event : ω} (silent : ¬ policy.Alarm event) :
    FailStopsBut policy Swallows (Program.emit event : Program σ ε ω Unit) := by
  refine fun _ => .quiet (fun e member => ?_) nofun
  rw [List.mem_singleton.mp member]
  exact silent

theorem FailStopsBut.bind (first : FailStops policy c)
    (rest : ∀ a, FailStopsBut policy Swallows (f a)) :
    FailStopsBut policy Swallows (c >>= f) := by
  intro s
  have ending := first s
  rcases run : c s with ⟨o, s', evs⟩
  rw [run] at ending
  cases o with
  | ok a =>
      rw [bind_ok run]
      exact (rest a s').after ending.silent_of_ok
  | error e =>
      rw [bind_error run]
      exact ending.of_error.mono

/-- The value of a program that may swallow an alarm can be passed on. -/
theorem FailStopsBut.map (first : FailStopsBut policy Swallows c) (g : α → β) :
    FailStopsBut policy Swallows (c >>= fun a => Pure.pure (g a)) := by
  intro s
  have ending := first s
  rcases run : c s with ⟨o, s', evs⟩
  rw [run] at ending
  cases o with
  | ok a =>
      rw [bind_ok run]
      show StopEnd policy Swallows (.ok (g a)) (evs ++ [])
      rw [List.append_nil]
      cases ending with
      | quiet silent => exact .quiet silent nofun
      | swallowed silent member swallows final =>
          exact .swallowed silent member swallows final nofun
  | error e =>
      rw [bind_error run]
      exact ending.of_error

theorem FailStopsBut.ite {b : Prop} [Decidable b] (left : b → FailStopsBut policy Swallows c)
    (right : ¬ b → FailStopsBut policy Swallows d) :
    FailStopsBut policy Swallows (if b then c else d) := by
  split
  · exact left ‹_›
  · exact right ‹_›

variable {exhausted : ε} {body : β → Program σ ε ω (Control β γ)} {label : β → τ}

theorem FailStops.loop (quiet : policy.Quiet exhausted)
    (iteration : ∀ b, FailStops policy (body b)) (fuel : Nat) (b : β) :
    FailStops policy (loop exhausted body fuel b) := by
  induction fuel generalizing b with
  | zero => exact .fail quiet
  | succ fuel ih =>
      refine .bind (iteration b) fun
        | .next b' => ih b'
        | .done c => .pure c

/-- Where every iteration after which the loop has more to do heeds its alarms, the loop
stops at the first, and is silent if it ends normally. -/
theorem loop_heeds (quiet : policy.Quiet exhausted) (label : β → τ)
    (iteration : ∀ b, FailStopsBut policy Swallows (body b)) (fuel : Nat) (b : β) (s : σ)
    (heeds : ∀ ts c v, Trail body label (b, s) ts c → (body c.1 c.2).outcome = .ok v →
      (ts.length + 1 < fuel ∨ ∃ w, v = .done w) → Silent policy (body c.1 c.2).events) :
    StopEnd policy Swallows (loop exhausted body fuel b s).outcome
        (loop exhausted body fuel b s).events ∧
      ((∃ w, (loop exhausted body fuel b s).outcome = .ok w) →
        Silent policy (loop exhausted body fuel b s).events) := by
  induction fuel generalizing b s with
  | zero =>
      refine ⟨FailStopsBut.fail quiet s, ?_⟩
      rintro ⟨w, same⟩
      cases same
  | succ fuel ih =>
      have ending := iteration b s
      have here := fun v => heeds [] (b, s) v .start
      rcases run : body b s with ⟨o, s', evs⟩
      rw [run] at ending
      simp only [run] at here
      rcases o with e | b' | w
      · rw [Program.loop, bind_error run]
        refine ⟨ending.of_error, ?_⟩
        rintro ⟨w, same⟩
        cases same
      · rw [Program.loop, bind_ok run]
        cases fuel with
        | zero =>
            show StopEnd policy Swallows (.error exhausted) (evs ++ []) ∧ (_ → _)
            rw [List.append_nil]
            refine ⟨?_, by rintro ⟨w, same⟩; cases same⟩
            have failure :
                ∀ e, (Except.error exhausted : Except ε γ) = .error e → policy.Quiet e := by
              intro e same
              cases same
              exact quiet
            cases ending with
            | quiet silent => exact .quiet silent failure
            | swallowed silent member swallows final =>
                exact .swallowed silent member swallows final failure
        | succ fuel =>
            have silent := here _ rfl (Or.inl (by simp))
            obtain ⟨ending', silent'⟩ := ih b' s' fun ts c v trail outcome more =>
              heeds _ c v (.cons (a := (b, s)) ⟨by rw [run], by rw [run]⟩ trail) outcome
                (more.imp_left fun less => by rw [List.length_cons]; omega)
            exact ⟨ending'.after silent, fun normal =>
              silent_append.mpr ⟨silent, silent' normal⟩⟩
      · have silent := here _ rfl (Or.inr ⟨w, rfl⟩)
        rw [Program.loop, bind_ok run]
        show StopEnd policy Swallows (.ok w) (evs ++ []) ∧ (_ → Silent policy (evs ++ []))
        rw [List.append_nil]
        refine ⟨.quiet silent ?_, fun _ => silent⟩
        intro e same
        cases same

/-! ## How a run ends that fails loudly -/

/-- A failure that is not quiet comes with the final events of an alarm, and nothing after
them. -/
def FailsLoudly (policy : StopPolicy ε ω) (c : Program σ ε ω α) : Prop :=
  ∀ s e, (c s).outcome = .error e → ¬ policy.Quiet e →
    ∃ before last, policy.Final e last ∧ (c s).events = before ++ last

theorem FailStopsBut.failsLoudly (stops : FailStopsBut policy Swallows c) :
    FailsLoudly policy c := by
  intro s e fails loud
  have ending := stops s
  rw [fails] at ending
  generalize (c s).events = evs at ending
  cases ending with
  | quiet _ failure => exact absurd (failure e rfl) loud
  | alarmed _ final => exact ⟨_, _, final, rfl⟩
  | swallowed _ _ _ _ failure => exact absurd (failure e rfl) loud

theorem FailsLoudly.pure (a : α) : FailsLoudly policy (Pure.pure a : Program σ ε ω α) := by
  intro s e fails
  cases fails

theorem FailsLoudly.current : FailsLoudly policy (Program.current : Program σ ε ω σ) := by
  intro s e fails
  cases fails

theorem FailsLoudly.fail {e : ε} (quiet : policy.Quiet e) :
    FailsLoudly policy (Program.fail e : Program σ ε ω α) := by
  intro s e' fails loud
  cases fails
  exact absurd quiet loud

theorem FailsLoudly.bind (first : FailsLoudly policy c) (then_ : ∀ a, FailsLoudly policy (f a)) :
    FailsLoudly policy (c >>= f) := by
  intro s e fails loud
  rcases run : c s with ⟨o, s', evs⟩
  have first' := first s
  rw [run] at first'
  cases o with
  | error e' =>
      rw [bind_error run] at fails ⊢
      cases fails
      exact first' e rfl loud
  | ok a =>
      rw [bind_ok run] at fails ⊢
      obtain ⟨before, last, final, events⟩ := then_ a s' e fails loud
      exact ⟨evs ++ before, last, final, by rw [events, List.append_assoc]⟩

theorem FailsLoudly.loop (quiet : policy.Quiet exhausted)
    (iteration : ∀ b, FailsLoudly policy (body b)) (fuel : Nat) (b : β) :
    FailsLoudly policy (loop exhausted body fuel b) := by
  induction fuel generalizing b with
  | zero => exact .fail quiet
  | succ fuel ih =>
      refine .bind (iteration b) fun control => ?_
      cases control with
      | next b' => exact ih b'
      | done c => exact .pure c

end FailStop

end Program

end Effect
