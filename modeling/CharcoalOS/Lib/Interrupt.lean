import CharcoalOS.Lib.Code

/-!
# Activations that interrupt one another

One processor with a stack of activations. Each is entered for a cause, and runs its
`Code`; the one on top takes its steps on the shared state, until a new cause enters
another one above it. An activation that is done gives way to the one below; one that has
failed stays where it is for good.

`Reaches entry may` are the runs from an empty stack in which a cause is only delivered in
states that `may` allows. `Latched` is the invariant of a latch: in the states `P` nothing
is latched, and the first activation that leads to `R` keeps everything below it from
running again.
-/

namespace Effect

namespace Interrupt

variable {κ σ ε ω : Type}

/-- An activation: whose it is, and what it still has to run. -/
structure Frame (σ ε ω : Type) : Type where
  owner : Nat
  code : Code σ ε ω Unit

/-- The processor: its stack with the running activation first, the shared state, the causes
delivered so far (an activation is named by its place among them), and all events with the
activation that emitted them. -/
structure Machine (κ σ ε ω : Type) : Type where
  stack : List (Frame σ ε ω)
  state : σ
  taken : List κ
  log : List (Nat × ω)

/-- Nothing has happened yet. -/
def Machine.idle (s : σ) : Machine κ σ ε ω := ⟨[], s, [], []⟩

variable (entry : κ → Code σ ε ω Unit) (may : κ → σ → Prop)

/-- One step of the processor. -/
inductive Step : Machine κ σ ε ω → Machine κ σ ε ω → Prop
  | act {i : Nat} {events : σ → List ω} {next : σ → σ} {rest : σ → Code σ ε ω Unit}
      {below : List (Frame σ ε ω)} {s : σ} {taken : List κ} {log : List (Nat × ω)} :
    Step ⟨⟨i, .step events next rest⟩ :: below, s, taken, log⟩
      ⟨⟨i, rest s⟩ :: below, next s, taken, log ++ (events s).map (Prod.mk i)⟩
  | leave {i : Nat} {below : List (Frame σ ε ω)} {s : σ} {taken : List κ}
      {log : List (Nat × ω)} :
    Step ⟨⟨i, .done ()⟩ :: below, s, taken, log⟩ ⟨below, s, taken, log⟩
  | enter {x : κ} {stack : List (Frame σ ε ω)} {s : σ} {taken : List κ}
      {log : List (Nat × ω)} : may x s →
    Step ⟨stack, s, taken, log⟩ ⟨⟨taken.length, entry x⟩ :: stack, s, taken ++ [x], log⟩

/-- The machines that runs from the state `s` reach. -/
abbrev Reaches (s : σ) : Machine κ σ ε ω → Prop :=
  Relation.ReflTransGen (Step entry may) (.idle s)

/-! ## Running a machine -/

/-- What happens next: a cause is delivered, or the processor goes on. -/
inductive Action (κ : Type) : Type
  | deliver (x : κ)
  | proceed

/-- The step that an action asks for; a failed activation cannot go on. -/
def Machine.next (m : Machine κ σ ε ω) : Action κ → Machine κ σ ε ω
  | .deliver x => { m with
      stack := ⟨m.taken.length, entry x⟩ :: m.stack
      taken := m.taken ++ [x] }
  | .proceed =>
      match m.stack with
      | ⟨i, .step events next rest⟩ :: below => { m with
          stack := ⟨i, rest m.state⟩ :: below
          state := next m.state
          log := m.log ++ (events m.state).map (Prod.mk i) }
      | ⟨_, .done ()⟩ :: below => { m with stack := below }
      | _ => m

/-- A schedule is a run, where nothing restricts deliveries. -/
theorem reaches_schedule (s : σ) (schedule : List (Action κ)) :
    Reaches entry (fun _ _ => True) s
      (schedule.foldl (Machine.next entry) (.idle s)) := by
  induction schedule using List.reverseRecOn with
  | nil => exact .refl
  | append_singleton schedule a ih =>
      rw [List.foldl_append, List.foldl_cons, List.foldl_nil]
      refine ih.trans ?_
      generalize schedule.foldl (Machine.next entry) (.idle s) = m
      obtain ⟨stack, state, taken, log⟩ := m
      cases a with
      | deliver x => exact .single (.enter trivial)
      | proceed =>
          match stack with
          | [] => exact .refl
          | ⟨i, .step events next rest⟩ :: below => exact .single .act
          | ⟨i, .done ()⟩ :: below => exact .single .leave
          | ⟨i, .fail e⟩ :: below => exact .refl

/-! ## Latches -/

section Latch

/-- In the states `P` the latch is open, in the states `R` it is closed. The causes in
`Grave` close it without an event in `Loud` before, those that find it closed are not loud at
all, and the others leave it as it is. -/
structure Latch (P R : σ → Prop) (Grave : κ → Prop) (Loud : ω → Prop) (F : ε → Prop) :
    Prop where
  openOther : ∀ x s, ¬ Grave x → may x s → P s →
    (entry x).Safe P (fun _ => True) (fun _ => True) fun _ => True
  closedOther : ∀ x s, ¬ Grave x → may x s → R s →
    (entry x).Safe R (fun _ => True) (fun _ => True) fun _ => True
  openGrave : ∀ x, Grave x → (entry x).Arms P R (fun e => ¬ Loud e) F
  closedGrave : ∀ x, Grave x → (entry x).Safe R (fun e => ¬ Loud e) (fun _ => False) F

variable {entry may} {P R : σ → Prop} {Grave : κ → Prop} {Loud : ω → Prop} {F : ε → Prop}

/-- Activation `i` was entered for a cause in `Grave`. -/
def GraveAt (Grave : κ → Prop) (taken : List κ) (i : Nat) : Prop :=
  ∃ x, taken[i]? = some x ∧ Grave x

theorem GraveAt.lt {taken : List κ} {i : Nat} (grave : GraveAt Grave taken i) :
    i < taken.length := by
  obtain ⟨x, there, _⟩ := grave
  exact (List.getElem?_eq_some_iff.mp there).1

theorem graveAt_append {taken : List κ} {x : κ} {i : Nat} (before : i < taken.length) :
    GraveAt Grave (taken ++ [x]) i ↔ GraveAt Grave taken i := by
  rw [GraveAt, List.getElem?_append_left before, GraveAt]

theorem graveAt_last {taken : List κ} {x : κ} :
    GraveAt Grave (taken ++ [x]) taken.length ↔ Grave x := by
  simp [GraveAt]

/-- The owners on the stack, and in the log, have been delivered; the newest is on top. -/
structure Orderly (m : Machine κ σ ε ω) : Prop where
  newest : (m.stack.map Frame.owner).Pairwise (· > ·)
  known : ∀ fr ∈ m.stack, fr.owner < m.taken.length
  logged : ∀ i e, (i, e) ∈ m.log → i < m.taken.length

theorem orderly_idle (s : σ) : Orderly (.idle s : Machine κ σ ε ω) :=
  ⟨.nil, List.forall_mem_nil _, nofun⟩

theorem Orderly.step {m m' : Machine κ σ ε ω} (orderly : Orderly m)
    (step : Step entry may m m') : Orderly m' := by
  obtain ⟨newest, known, logged⟩ := orderly
  cases step with
  | @act i events next rest below s taken log =>
      obtain ⟨top, known⟩ := List.forall_mem_cons.mp known
      refine ⟨newest, List.forall_mem_cons.mpr ⟨top, known⟩, fun j e member => ?_⟩
      rcases List.mem_append.mp member with old | new
      · exact logged j e old
      · obtain ⟨e', _, same⟩ := List.mem_map.mp new
        cases same
        exact top
  | leave => exact ⟨newest.of_cons, (List.forall_mem_cons.mp known).2, logged⟩
  | @enter x stack s taken log _ =>
      have longer : (taken ++ [x]).length = taken.length + 1 := by simp
      refine ⟨?_, ?_, fun j e member => ?_⟩
      · refine List.pairwise_cons.mpr ⟨fun j member => ?_, newest⟩
        obtain ⟨fr, on, rfl⟩ := List.mem_map.mp member
        exact known fr on
      · refine List.forall_mem_cons.mpr ⟨?_, fun fr member => ?_⟩
        · exact longer ▸ Nat.lt_succ_self _
        · exact longer ▸ (known fr member).trans (Nat.lt_succ_self _)
      · exact longer ▸ (logged j e member).trans (Nat.lt_succ_self _)

/-- What is left of an activation while the latch is open. -/
structure OpenFrame (P R : σ → Prop) (Grave : κ → Prop) (Loud : ω → Prop) (F : ε → Prop)
    (taken : List κ) (fr : Frame σ ε ω) : Prop where
  grave : GraveAt Grave taken fr.owner → fr.code.Arms P R (fun e => ¬ Loud e) F
  other : ¬ GraveAt Grave taken fr.owner →
    fr.code.Safe P (fun _ => True) (fun _ => True) fun _ => True

/-- What is left of an activation that was entered when the latch was closed. -/
structure ClosedFrame (R : σ → Prop) (Grave : κ → Prop) (Loud : ω → Prop) (F : ε → Prop)
    (taken : List κ) (fr : Frame σ ε ω) : Prop where
  grave : GraveAt Grave taken fr.owner →
    fr.code.Safe R (fun e => ¬ Loud e) (fun _ => False) F
  other : ¬ GraveAt Grave taken fr.owner →
    fr.code.Safe R (fun _ => True) (fun _ => True) fun _ => True

/-- The latch is open: the activations for grave causes are all on the stack, and none has
been loud. -/
structure Unlatched (P R : σ → Prop) (Grave : κ → Prop) (Loud : ω → Prop) (F : ε → Prop)
    (m : Machine κ σ ε ω) : Prop where
  state : P m.state
  frames : ∀ fr ∈ m.stack, OpenFrame P R Grave Loud F m.taken fr
  graves : ∀ i, GraveAt Grave m.taken i → ∃ fr ∈ m.stack, fr.owner = i
  silent : ∀ i e, (i, e) ∈ m.log → Loud e → ¬ GraveAt Grave m.taken i

/-- The latch has been closed by the activation `d`: it is still there and nothing below it
runs, the activations for later grave causes are above it, and none but `d` has been
loud. -/
structure Latched (R : σ → Prop) (Grave : κ → Prop) (Loud : ω → Prop) (F : ε → Prop)
    (d : Nat) (m : Machine κ σ ε ω) : Prop where
  state : R m.state
  closer : GraveAt Grave m.taken d
  stack : ∃ above code below, m.stack = above ++ ⟨d, code⟩ :: below ∧
    code.Safe R (fun _ => True) (fun _ => False) F ∧
    (∀ fr ∈ above, ClosedFrame R Grave Loud F m.taken fr) ∧
    ∀ i, d < i → GraveAt Grave m.taken i → ∃ fr ∈ above, fr.owner = i
  silent : ∀ i e, (i, e) ∈ m.log → Loud e → GraveAt Grave m.taken i → i = d

/-- What is left of an activation stays so when another cause is delivered. -/
theorem OpenFrame.append {taken : List κ} {fr : Frame σ ε ω} (x : κ)
    (frame : OpenFrame P R Grave Loud F taken fr) (known : fr.owner < taken.length) :
    OpenFrame P R Grave Loud F (taken ++ [x]) fr :=
  ⟨fun grave => frame.grave ((graveAt_append known).mp grave),
    fun other => frame.other fun grave => other ((graveAt_append known).mpr grave)⟩

theorem ClosedFrame.append {taken : List κ} {fr : Frame σ ε ω} (x : κ)
    (frame : ClosedFrame R Grave Loud F taken fr) (known : fr.owner < taken.length) :
    ClosedFrame R Grave Loud F (taken ++ [x]) fr :=
  ⟨fun grave => frame.grave ((graveAt_append known).mp grave),
    fun other => frame.other fun grave => other ((graveAt_append known).mpr grave)⟩

/-- **One step with the latch open** leaves it open, or closes it. -/
theorem Unlatched.step (latch : Latch entry may P R Grave Loud F) {m m' : Machine κ σ ε ω}
    (orderly : Orderly m) (open_ : Unlatched P R Grave Loud F m) (step : Step entry may m m') :
    Unlatched P R Grave Loud F m' ∨ ∃ d, Latched R Grave Loud F d m' := by
  obtain ⟨holds, frames, graves, silent⟩ := open_
  cases step with
  | @act i events next rest below s taken log =>
      obtain ⟨top, frames⟩ := List.forall_mem_cons.mp frames
      have graves' : ∀ j, GraveAt Grave taken j → ∃ fr ∈ ⟨i, rest s⟩ :: below, fr.owner = j := by
        intro j grave
        obtain ⟨fr, member, same⟩ := graves j grave
        rcases List.mem_cons.mp member with here | later
        · exact ⟨_, List.mem_cons_self, by rw [← same, here]⟩
        · exact ⟨fr, List.mem_cons_of_mem _ later, same⟩
      by_cases grave : GraveAt Grave taken i
      · obtain ⟨quiet, ends⟩ := top.grave grave s holds
        have silent' : ∀ j e, (j, e) ∈ log ++ (events s).map (Prod.mk i) → Loud e →
            ¬ GraveAt Grave taken j := by
          intro j e member loud
          rcases List.mem_append.mp member with old | new
          · exact silent j e old loud
          · obtain ⟨e', emitted, same⟩ := List.mem_map.mp new
            cases same
            exact absurd loud (quiet e emitted)
        rcases ends with armed | closed
        · refine Or.inl ⟨armed.1, List.forall_mem_cons.mpr ⟨⟨fun _ => armed.2, ?_⟩, frames⟩,
            graves', silent'⟩
          exact fun other => absurd grave other
        · refine Or.inr ⟨i, closed.1, grave, ⟨[], rest s, below, rfl, closed.2,
            List.forall_mem_nil _, fun j later grave' => ?_⟩, fun j e member loud grave' =>
            absurd grave' (silent' j e member loud)⟩
          -- every other activation for a grave cause is further down
          obtain ⟨fr, member, same⟩ := graves j grave'
          rcases List.mem_cons.mp member with here | below'
          · rw [here] at same
            exact absurd same (Nat.ne_of_lt later)
          · have older := List.rel_of_pairwise_cons orderly.newest
              (List.mem_map.mpr ⟨fr, below', rfl⟩)
            exact absurd (same ▸ older) (Nat.lt_asymm later)
      · obtain ⟨_, kept, later⟩ := top.other grave s holds
        refine Or.inl ⟨kept, List.forall_mem_cons.mpr ⟨⟨fun there => absurd there grave,
          fun _ => later⟩, frames⟩, graves', fun j e member loud => ?_⟩
        rcases List.mem_append.mp member with old | new
        · exact silent j e old loud
        · obtain ⟨e', _, same⟩ := List.mem_map.mp new
          cases same
          exact grave
  | @leave i below s taken log =>
      obtain ⟨top, frames⟩ := List.forall_mem_cons.mp frames
      refine Or.inl ⟨holds, frames, fun j grave => ?_, silent⟩
      obtain ⟨fr, member, same⟩ := graves j grave
      rcases List.mem_cons.mp member with here | later
      · rw [here] at same
        exact (top.grave (same ▸ grave)).elim
      · exact ⟨fr, later, same⟩
  | @enter x stack s taken log allowed =>
      refine Or.inl ⟨holds, List.forall_mem_cons.mpr ⟨⟨fun grave => ?_, fun other => ?_⟩,
        fun fr member => (frames fr member).append x (orderly.known fr member)⟩,
        fun j grave => ?_, fun j e member loud grave => ?_⟩
      · exact latch.openGrave x (graveAt_last.mp grave)
      · exact latch.openOther x s (fun grave => other (graveAt_last.mpr grave)) allowed holds
      · rcases Nat.lt_or_ge j taken.length with before | here
        · obtain ⟨fr, member, same⟩ := graves j ((graveAt_append before).mp grave)
          exact ⟨fr, List.mem_cons_of_mem _ member, same⟩
        · have less := grave.lt
          rw [List.length_append, List.length_singleton] at less
          exact ⟨_, List.mem_cons_self, by dsimp only; omega⟩
      · exact silent j e member loud
          ((graveAt_append (orderly.logged j e member)).mp grave)

/-- **One step with the latch closed** leaves it closed. -/
theorem Latched.step (latch : Latch entry may P R Grave Loud F) {m m' : Machine κ σ ε ω}
    {d : Nat} (orderly : Orderly m) (closed : Latched R Grave Loud F d m)
    (step : Step entry may m m') : Latched R Grave Loud F d m' := by
  obtain ⟨holds, closer, ⟨above, code, under, stack, keeps, frames, graves⟩, silent⟩ := closed
  cases step with
  | @act i events next rest below s taken log =>
      cases above with
      | nil =>
          cases stack
          obtain ⟨_, kept, later⟩ := keeps s holds
          refine ⟨kept, closer, ⟨[], rest s, under, rfl, later, List.forall_mem_nil _, graves⟩,
            fun j e member loud grave => ?_⟩
          rcases List.mem_append.mp member with old | new
          · exact silent j e old loud grave
          · obtain ⟨e', _, same⟩ := List.mem_map.mp new
            cases same
            rfl
      | cons fr above =>
          cases stack
          obtain ⟨top, frames⟩ := List.forall_mem_cons.mp frames
          have graves' : ∀ j, d < j → GraveAt Grave taken j →
              ∃ fr ∈ ⟨i, rest s⟩ :: above, fr.owner = j := by
            intro j later grave
            obtain ⟨fr, member, same⟩ := graves j later grave
            rcases List.mem_cons.mp member with here | later
            · exact ⟨_, List.mem_cons_self, by rw [← same, here]⟩
            · exact ⟨fr, List.mem_cons_of_mem _ later, same⟩
          by_cases grave : GraveAt Grave taken i
          · obtain ⟨quiet, kept, later⟩ := top.grave grave s holds
            refine ⟨kept, closer, ⟨_, code, under, rfl, keeps, List.forall_mem_cons.mpr
              ⟨⟨fun _ => later, fun other => absurd grave other⟩, frames⟩, graves'⟩,
              fun j e member loud there => ?_⟩
            rcases List.mem_append.mp member with old | new
            · exact silent j e old loud there
            · obtain ⟨e', emitted, same⟩ := List.mem_map.mp new
              cases same
              exact absurd loud (quiet e emitted)
          · obtain ⟨_, kept, later⟩ := top.other grave s holds
            refine ⟨kept, closer, ⟨_, code, under, rfl, keeps, List.forall_mem_cons.mpr
              ⟨⟨fun there => absurd there grave, fun _ => later⟩, frames⟩, graves'⟩,
              fun j e member loud there => ?_⟩
            rcases List.mem_append.mp member with old | new
            · exact silent j e old loud there
            · obtain ⟨e', _, same⟩ := List.mem_map.mp new
              cases same
              exact absurd there grave
  | @leave i below s taken log =>
      cases above with
      | nil =>
          cases stack
          exact keeps.elim
      | cons fr above =>
          cases stack
          obtain ⟨top, frames⟩ := List.forall_mem_cons.mp frames
          refine ⟨holds, closer, ⟨above, code, under, rfl, keeps, frames,
            fun j later grave => ?_⟩, silent⟩
          obtain ⟨fr, member, same⟩ := graves j later grave
          rcases List.mem_cons.mp member with here | there
          · rw [here] at same
            exact (top.grave (same ▸ grave)).elim
          · exact ⟨fr, there, same⟩
  | @enter x old s taken log allowed =>
      cases stack
      have top : ClosedFrame R Grave Loud F (taken ++ [x]) ⟨taken.length, entry x⟩ :=
        ⟨fun grave => latch.closedGrave x (graveAt_last.mp grave), fun other =>
          latch.closedOther x s (fun grave => other (graveAt_last.mpr grave)) allowed holds⟩
      have graves' : ∀ j, d < j → GraveAt Grave (taken ++ [x]) j →
          ∃ fr ∈ ⟨taken.length, entry x⟩ :: above, fr.owner = j := by
        intro j later grave
        rcases Nat.lt_or_ge j taken.length with before | here
        · obtain ⟨fr, member, same⟩ := graves j later ((graveAt_append before).mp grave)
          exact ⟨fr, List.mem_cons_of_mem _ member, same⟩
        · have less := grave.lt
          rw [List.length_append, List.length_singleton] at less
          exact ⟨_, List.mem_cons_self, by dsimp only; omega⟩
      refine ⟨holds, (graveAt_append closer.lt).mpr closer, ⟨_, code, under, rfl, keeps,
        List.forall_mem_cons.mpr ⟨top, fun fr member => ?_⟩, graves'⟩,
        fun j e member loud grave => ?_⟩
      · exact (frames fr member).append x (orderly.known fr (List.mem_append_left _ member))
      · exact silent j e member loud ((graveAt_append (orderly.logged j e member)).mp grave)

/-- **Every machine that a run reaches** is unlatched or latched. -/
theorem Latch.reaches (latch : Latch entry may P R Grave Loud F) {s : σ}
    {m : Machine κ σ ε ω} (start : P s) (reaches : Reaches entry may s m) :
    Orderly m ∧ (Unlatched P R Grave Loud F m ∨ ∃ d, Latched R Grave Loud F d m) := by
  have start : Unlatched P R Grave Loud F (.idle s : Machine κ σ ε ω) :=
    ⟨start, List.forall_mem_nil _, fun i grave => absurd grave.lt (Nat.not_lt_zero i), nofun⟩
  induction reaches with
  | refl => exact ⟨orderly_idle s, Or.inl start⟩
  | tail _ last ih =>
      obtain ⟨orderly, open_ | closed⟩ := ih
      · exact ⟨orderly.step last, open_.step latch orderly last⟩
      · obtain ⟨d, closed⟩ := closed
        exact ⟨orderly.step last, Or.inr ⟨d, closed.step latch orderly last⟩⟩

end Latch

end Interrupt

end Effect
