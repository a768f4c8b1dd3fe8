import CharcoalOS.Kernel.Dispatching
import CharcoalOS.Kernel.Editing

/-!
# A session at the console

`session` is a whole session as the user sees it: a line is edited on the screen, and when it
ends, or is as long as a command can be, the reply to it and a prompt follow. It is a machine
that takes one character after the other; the times are those that the commands see.

`shell_session` says that the shell is this machine, whatever is typed, and whenever timer
interrupts are taken. So nobody who does not ask for the time can tell when they were:
`interrupts_invisible`.
-/

namespace CharcoalOS.Kernel

open Effect Effect.Code

/-- All that is printed, and why nothing more follows. -/
abbrev Transcript : Type := List UInt8 × Stop

def Transcript.behind (text : List UInt8) (t : Transcript) : Transcript := (text ++ t.1, t.2)

/-- The prompt. -/
def promptText : List UInt8 := lineOf "> "

/-- The reply to a command, and then, if it has not stopped the processor, the prompt and what
comes next. -/
def answered (reply : Result UInt64 Stop UInt8 Unit) (next : UInt64 → Transcript) : Transcript :=
  match reply.outcome with
  | .error why => (reply.events, why)
  | .ok _ => (next reply.state).behind (reply.events ++ promptText)

/-- What follows the prompt, if `line` is on the screen behind it, and the input is still to
come. -/
def session (platform : Platform) : List UInt64 → UInt64 → List UInt8 → List UInt8 → Transcript
  | _, _, _, [] => ([], .waiting)
  | times, flag, line, c :: input =>
      if IsEnd c then
        (answered (commandReply platform (chars line) (times.headD 0) flag) fun flag =>
          session platform times.tail flag [] input).behind [13, 10]
      else if (editStep line c).length + 1 < commandLength then
        (session platform times flag (editStep line c) input).behind (echoed line c)
      else
        (answered (commandReply platform (chars (editStep line c)) (times.headD 0) flag) fun flag =>
          session platform times.tail flag [] input).behind (echoed line c)

section Session

variable {platform : Platform} {times : List UInt64} {flag : UInt64} {line p rest : List UInt8}
  {c : UInt8}

theorem behind_behind (text text' : List UInt8) (t : Transcript) :
    (t.behind text').behind text = t.behind (text ++ text') := by
  unfold Transcript.behind
  rw [List.append_assoc]

/-- What goes on when a command is complete. -/
def completed (platform : Platform) (times : List UInt64) (flag : UInt64)
    (line input : List UInt8) : Transcript :=
  answered (commandReply platform (chars line) (times.headD 0) flag) fun flag =>
    session platform times.tail flag [] input

theorem session_end (ends : IsEnd c) (input : List UInt8) :
    session platform times flag line (c :: input) =
      (completed platform times flag line input).behind [13, 10] := by
  rw [session, if_pos ends]
  rfl

theorem session_more (other : ¬ IsEnd c) (room : (editStep line c).length + 1 < commandLength)
    (input : List UInt8) : session platform times flag line (c :: input) =
      (session platform times flag (editStep line c) input).behind (echoed line c) := by
  rw [session, if_neg other, if_pos room]

theorem session_last (other : ¬ IsEnd c) (full : commandLength ≤ (editStep line c).length + 1)
    (input : List UInt8) : session platform times flag line (c :: input) =
      (completed platform times flag (editStep line c) input).behind (echoed line c) := by
  rw [session, if_neg other, if_neg (Nat.not_lt.mpr full)]
  rfl

theorem printed_editEvents_cons (c : UInt8) (p : List UInt8) :
    printed (editEvents true line (c :: p)) =
      echoed line c ++ printed (editEvents true (editStep line c) p) := by
  rw [editEvents, if_pos rfl]
  show printed ((echoed line c).map .putc ++ editEvents true (editStep line c) p) = _
  rw [printed_append, printed_map_putc]

/-- Characters that leave room are on the screen behind the others. -/
theorem session_processed (processed : Processed commandLength line p)
    (room : (p.foldl editStep line).length + 1 < commandLength) :
    session platform times flag line (p ++ rest) =
      (session platform times flag (p.foldl editStep line) rest).behind
        (printed (editEvents true line p)) := by
  induction p generalizing line with
  | nil => rfl
  | cons c p ih =>
      obtain ⟨⟨-, other⟩, processed⟩ := processed
      have next : (editStep line c).length + 1 < commandLength := by
        cases p with
        | nil => exact room
        | cons d p => exact processed.1.1
      rw [List.cons_append, session_more other next, ih processed room, behind_behind,
        printed_editEvents_cons]
      rfl

/-- The last of them may leave none. -/
theorem session_full (processed : Processed commandLength line p) (some_ : p ≠ [])
    (full : commandLength ≤ (p.foldl editStep line).length + 1) :
    session platform times flag line (p ++ rest) =
      (completed platform times flag (p.foldl editStep line) rest).behind
        (printed (editEvents true line p)) := by
  induction p generalizing line with
  | nil => exact absurd rfl some_
  | cons c p ih =>
      obtain ⟨⟨-, other⟩, processed⟩ := processed
      rw [List.cons_append, printed_editEvents_cons]
      cases p with
      | nil =>
          rw [List.nil_append, session_last other full]
          exact congrArg (Transcript.behind · _) (List.append_nil _).symm
      | cons d p =>
          rw [session_more other processed.1.1, ih processed (List.cons_ne_nil _ _) full,
            behind_behind]
          rfl

end Session

/-! ## A line -/

section Line

variable {platform : Platform} {buffer : List UInt8}

theorem chars_terminated (line behind : List UInt8) : chars (line ++ 0 :: behind) = chars line := by
  induction line with
  | nil => rfl
  | cons c line ih =>
      rw [List.cons_append, chars, chars, List.takeWhile_cons, List.takeWhile_cons]
      split
      · exact congrArg (List.cons c) ih
      · rfl

/-- What a call of `console_read_line` brings. -/
structure Typed (platform : Platform) (s : State) (r : Result State Stop Event (List UInt8))
    (text input : List UInt8) : Prop where
  outcome : r.outcome = .ok text
  state : r.state = { s with received := input }
  length : text.length = commandLength
  terminated : 0 ∈ text
  less : input.length < s.received.length
  session : ∀ times flag, session platform times flag [] s.received =
    (completed platform times flag text input).behind (printed r.events)

/-- It returns with a command, or the session ends with an incomplete line. -/
theorem consoleReadLine_session (platform : Platform) (length : buffer.length = commandLength)
    (s : State) :
    (∃ text input,
      Typed platform s ((consoleReadLine buffer commandLength true).run s) text input) ∨
      ((consoleReadLine buffer commandLength true).run s).outcome = .error .waiting ∧
        ∀ times flag, session platform times flag [] s.received =
          (printed ((consoleReadLine buffer commandLength true).run s).events, .waiting) := by
  have some_ : 1 ≤ commandLength := by decide
  obtain ⟨p, rest, received, processed, stop⟩ := exists_processed commandLength [] s.received
  obtain ⟨text, run, holds⟩ := consoleReadLine_processed true some_ length.ge processed received
  have here : (edit p).length < text.length := by
    rw [holds.length, length]
    exact processed.lt some_
  have size : (text.set (edit p).length 0).length = commandLength := by
    rw [List.length_set, holds.length, length]
  have stored : text.set (edit p).length 0 =
      edit p ++ 0 :: text.drop ((edit p).length + 1) := by
    rw [List.set_eq_take_append_cons_drop, if_pos here]
    exact congrArg (· ++ _) holds.line
  have done (input : List UInt8) (times : List UInt64) (flag : UInt64) :
      completed platform times flag (text.set (edit p).length 0) input =
        completed platform times flag (edit p) input := by
    unfold completed
    rw [stored, chars_terminated]
  rcases stop with full | ⟨room, rfl | ⟨c, rest', rfl, ends⟩⟩
  · have last := readLineStep_full true (s := { s with received := rest }) full here
    have whole : (consoleReadLine buffer commandLength true).run s =
        ⟨.ok (text.set (edit p).length 0), { s with received := rest },
          editEvents true [] p ++ []⟩ := by
      rw [run, readLoop, Code.run_loop_done last]
      rfl
    have some' : p ≠ [] := by
      rintro rfl
      exact absurd full (by decide)
    refine Or.inl ⟨_, rest, congrArg Result.outcome whole, congrArg Result.state whole, size,
      List.mem_set here 0, ?_, fun times flag => ?_⟩
    · have positive := List.length_pos_of_ne_nil some'
      rw [received, List.length_append]
      omega
    · rw [whole, List.append_nil, done, received]
      exact session_full processed some' full
  · have last : (readLineStep commandLength true text (edit p).length).run
        { s with received := [] } = _ := readLineStep_waiting true room rfl
    have whole : (consoleReadLine buffer commandLength true).run s = ⟨.error .waiting,
        { s with received := [] }, editEvents true [] p ++ []⟩ := by
      rw [run, readLoop, Code.run_loop_error last]
      rfl
    refine Or.inr ⟨congrArg Result.outcome whole, fun times flag => ?_⟩
    rw [whole, received, session_processed processed room, List.append_nil]
    exact Prod.ext (List.append_nil _) rfl
  · have last := readLineStep_end true (s := { s with received := c :: rest' }) room here ends rfl
    have whole : (consoleReadLine buffer commandLength true).run s =
        ⟨.ok (text.set (edit p).length 0), { s with received := rest' },
          editEvents true [] p ++ [.getc c, .putc 13, .putc 10]⟩ := by
      rw [run, readLoop, Code.run_loop_done last]
      rfl
    refine Or.inl ⟨_, rest', congrArg Result.outcome whole, congrArg Result.state whole, size,
      List.mem_set here 0, ?_, fun times flag => ?_⟩
    · rw [received, List.length_append, List.length_cons]
      omega
    · rw [whole, done, received, session_processed processed room, session_end ends,
        behind_behind, printed_append]
      rfl

end Line

/-! ## The shell -/

section Shell

variable {platform : Platform} {buffer : List UInt8} {s : State}

theorem commutes_getc : consoleGetc.Commutes (TimerTaken platform) := by
  refine ⟨fun e s s' taken => ?_, fun s => .ofOption _ _⟩
  obtain ⟨timer, rfl⟩ := timerTaken_iff.mp taken
  exact ⟨rfl, timerTaken_iff.mpr ⟨timer, rfl⟩, rfl⟩

theorem commutes_storeChar (text : List UInt8) (i : ℕ) (c : UInt8) :
    (storeChar text i c).Commutes (TimerTaken platform) := .ite (.pure _) (.fail _)

theorem commutes_readLineStep (size : ℕ) (echo : Bool) (text : List UInt8) (i : ℕ) :
    (readLineStep size echo text i).Commutes (TimerTaken platform) := by
  have store (text : List UInt8) (i : ℕ) (c : UInt8) :
      (storeChar text i c).Commutes (TimerTaken platform) := commutes_storeChar text i c
  have putc (c : UInt8) : (consolePutc c).Commutes (TimerTaken platform) := .emit _
  unfold readLineStep
  refine .ite (.bind commutes_getc fun c => .ite ?ends (.ite ?erase ?plain))
    (.bind (store _ _ _) fun _ => .pure _)
  case ends =>
    exact .bind (store _ _ _) fun _ =>
      .ite (.bind (putc 13) fun _ => .bind (putc 10) fun _ => .pure _) (.pure _)
  case erase =>
    exact .ite (.pure _) (.bind (.ite (writes_literal _).commutes (.pure _)) fun _ => .pure _)
  case plain =>
    exact .bind (store _ _ _) fun _ => .bind (.ite (putc c) (.pure _)) fun _ => .pure _

theorem commutes_readLine (buffer : List UInt8) (size : ℕ) (echo : Bool) :
    (consoleReadLine buffer size echo).Commutes (TimerTaken platform) := by
  unfold consoleReadLine
  refine .ite (.pure _) (.current (fun e s s' taken => ?_) fun s =>
    .loop (fun b => commutes_readLineStep size echo b.1 b.2) _ _)
  obtain ⟨-, rfl⟩ := timerTaken_iff.mp taken
  rfl

/-- What follows a line: its dispatch, the prompt, and another iteration. -/
theorem replies_afterLine (synchronous : platform.Synchronous) {text : List UInt8}
    (terminated : 0 ∈ text) :
    Replies platform (do
      let command ← dispatchCommand platform text
      printPrompt
      pure (Control.next command : Control (List UInt8) Unit)) fun time =>
        commandReply platform (chars text) time >>= fun _ =>
          .answer promptText (.next (tokenized text)) := by
  have prompt (command : List UInt8) : Answers platform (do
      printPrompt
      pure (Control.next command : Control (List UInt8) Unit))
      (.answer promptText (.next command)) :=
    .congr (.write (writes_literal _) (.pure _)) fun _ =>
      congrArg (Result.mk _ _) (List.append_nil _)
  refine ((replies_dispatch synchronous terminated).bind prompt).congr fun time flag => ?_
  exact Program.bind_assoc _ _ _ flag

/-- **One iteration** of the shell: the session ends in it, or goes on behind it. -/
theorem runs_shellStep (synchronous : platform.Synchronous) (length : buffer.length = commandLength)
    {r : Result State Stop (Event ⊕ Exception) (Control (List UInt8) Unit)}
    (runs : Runs (TimerTaken platform) (shellStep platform buffer) s r) :
    ∃ k ≤ (met r.events).length,
      (∃ why, r.outcome = .error why ∧ ∀ times : List UInt64,
        times.headD 0 = s.ticksSinceBoot + UInt64.ofNat k →
        session platform times s.exceptionInProgress [] s.received =
          (printed (own r.events), why)) ∨
      ∃ buffer', buffer'.length = commandLength ∧ r.outcome = .ok (.next buffer') ∧
        r.state.received.length < s.received.length ∧
        r.state.ticksSinceBoot = s.ticksSinceBoot + ticksIn r.events ∧ ∀ times : List UInt64,
        times.headD 0 = s.ticksSinceBoot + UInt64.ofNat k →
        session platform times s.exceptionInProgress [] s.received =
          (session platform times.tail r.state.exceptionInProgress [] r.state.received).behind
            (printed (own r.events)) := by
  obtain ⟨r₁, runs₁, rest⟩ := runs_bind_iff.mp runs
  obtain ⟨outcome, own₁, moves⟩ := (commutes_readLine _ _ _).runs runs₁
  have state := moves_ticks moves
  rcases consoleReadLine_session platform length s with ⟨text, input, typed⟩ | ⟨waits, ends⟩
  · obtain ⟨r₂, runs₂, rfl⟩ := runs_bind_ok rest (outcome.trans typed.outcome)
    obtain ⟨before, after, told⟩ := replies_afterLine synchronous typed.terminated r₁.state r₂ runs₂
    rw [typed.state] at state
    have time : r₁.state.ticksSinceBoot + ticksIn before =
        s.ticksSinceBoot + UInt64.ofNat (met (r₁.events ++ before)).length := by
      rw [state, met_append, List.length_append, UInt64.ofNat_add, ← UInt64.add_assoc]
      rfl
    have flag : r₁.state.exceptionInProgress = s.exceptionInProgress := by rw [state]
    have outcome₂ := told.outcome
    have text₂ := told.text
    have flag₂ := told.flag
    have received₂ := told.received
    have ticks₂ := told.ticks
    rw [time, flag] at outcome₂ text₂ flag₂
    rw [state] at received₂ ticks₂
    refine ⟨(met (r₁.events ++ before)).length, ?_, ?_⟩
    · rw [Result.after_events, told.events]
      simp only [met_append, List.length_append]
      omega
    · simp only [typed.session, Result.after_events, own_append, printed_append, own₁]
      rcases reply : commandReply platform (chars text)
        (s.ticksSinceBoot + UInt64.ofNat (met (r₁.events ++ before)).length)
        s.exceptionInProgress with ⟨o, flag', text'⟩
      cases o with
      | error why =>
          rw [Program.bind_error reply] at outcome₂ text₂
          refine Or.inl ⟨why, outcome₂, fun times now => ?_⟩
          rw [completed, now, reply, text₂]
          rfl
      | ok _ =>
          rw [Program.bind_ok reply] at outcome₂ text₂ flag₂
          refine Or.inr ⟨tokenized text, ?_, outcome₂, ?_, ?_, fun times now => ?_⟩
          · rw [tokenized, length_scannedTo, typed.length]
          · rw [Result.after_state, received₂]
            exact typed.less
          · rw [Result.after_state, ticks₂, ticksIn_append, ← UInt64.add_assoc]
            rfl
          · rw [completed, now, reply, text₂, Result.after_state, received₂, flag₂]
            exact behind_behind _ _ _
  · have stops : r = ⟨.error .waiting, r₁.state, r₁.events⟩ :=
      runs_bind_error rest (outcome.trans waits)
    refine ⟨0, Nat.zero_le _, Or.inl ⟨.waiting, by rw [stops], fun times _ => ?_⟩⟩
    rw [ends, stops, own₁]

/-- The times at which the commands of a session are told the time: at `k`, as many timer
interrupts have been taken. -/
def timesAt (s : State) (ks : List ℕ) : List UInt64 :=
  ks.map fun k => s.ticksSinceBoot + UInt64.ofNat k

/-- The run comes to the session, and its commands see the time go on while it runs. -/
structure ComesTo (platform : Platform) (s : State)
    (r : Result State Stop (Event ⊕ Exception) Unit) (ks : List ℕ) (front : List UInt8) :
    Prop where
  increasing : ks.Pairwise (· ≤ ·)
  inside : ∀ k ∈ ks, k ≤ (met r.events).length
  text : printed (own r.events) =
    front ++ (session platform (timesAt s ks) s.exceptionInProgress [] s.received).1
  stops : r.outcome =
    .error (session platform (timesAt s ks) s.exceptionInProgress [] s.received).2

/-- Later commands see the interrupts of what comes first, too. -/
theorem timesAt_after {s' : State} {trace : List (Event ⊕ Exception)}
    (ticks : s'.ticksSinceBoot = s.ticksSinceBoot + ticksIn trace) (ks : List ℕ) :
    timesAt s (ks.map ((met trace).length + ·)) = timesAt s' ks := by
  unfold timesAt
  rw [List.map_map, ticks]
  refine List.map_congr_left fun k _ => ?_
  show s.ticksSinceBoot + UInt64.ofNat ((met trace).length + k) = _
  rw [UInt64.ofNat_add, ← UInt64.add_assoc]
  rfl

theorem ComesTo.increasing_after {r : Result State Stop (Event ⊕ Exception) Unit} {ks : List ℕ}
    {front : List UInt8} (later : ComesTo platform s r ks front) (n : ℕ) :
    (ks.map (n + ·)).Pairwise (· ≤ ·) :=
  List.pairwise_map.mpr (later.increasing.imp fun le => Nat.add_le_add_left le n)

theorem ComesTo.inside_after {r : Result State Stop (Event ⊕ Exception) Unit} {ks : List ℕ}
    {front : List UInt8} (later : ComesTo platform s r ks front)
    (trace : List (Event ⊕ Exception)) :
    ∀ k ∈ ks.map ((met trace).length + ·), k ≤ (met (r.after trace).events).length := by
  intro k member
  obtain ⟨k', member', rfl⟩ := List.mem_map.mp member
  rw [Result.after_events, met_append, List.length_append]
  exact Nat.add_le_add_left (later.inside k' member') _

/-- The loop, with enough fuel for what is received. -/
theorem runs_shellIterations (synchronous : platform.Synchronous) {fuel : ℕ}
    (length : buffer.length = commandLength) (enough : s.received.length < fuel)
    {r : Result State Stop (Event ⊕ Exception) Unit}
    (runs :
      Runs (TimerTaken platform) (Code.loop .exhausted (shellStep platform) fuel buffer) s r) :
    ∃ ks, ComesTo platform s r ks [] := by
  induction fuel generalizing buffer s r with
  | zero => exact absurd enough (Nat.not_lt_zero _)
  | succ fuel ih =>
      obtain ⟨r₁, runs₁, rest⟩ := runs_bind_iff.mp runs
      obtain ⟨k, early, ⟨why, outcome, ends⟩ | ⟨buffer', length', outcome, less, ticks, goes⟩⟩ :=
        runs_shellStep synchronous length runs₁
      · obtain rfl := runs_bind_error rest outcome
        have whole := ends (timesAt s [k]) rfl
        refine ⟨[k], List.pairwise_singleton _ _, List.forall_mem_singleton.mpr early, ?_, ?_⟩
        · rw [whole]
          rfl
        · rw [whole]
      · obtain ⟨r₂, runs₂, rfl⟩ := runs_bind_ok rest outcome
        obtain ⟨ks, later⟩ := ih length' (by omega) runs₂
        let n := (met r₁.events).length
        have whole := goes (timesAt s (k :: ks.map (n + ·))) rfl
        have tail : (timesAt s (k :: ks.map (n + ·))).tail = timesAt r₁.state ks :=
          timesAt_after ticks ks
        rw [tail] at whole
        refine ⟨k :: ks.map (n + ·), ?_, ?_, ?_, ?_⟩
        · refine List.pairwise_cons.mpr ⟨fun k' member => ?_, later.increasing_after n⟩
          obtain ⟨k'', -, rfl⟩ := List.mem_map.mp member
          exact early.trans (Nat.le_add_right _ _)
        · refine List.forall_mem_cons.mpr ⟨early.trans ?_, later.inside_after r₁.events⟩
          rw [Result.after_events, met_append, List.length_append]
          exact Nat.le_add_right _ _
        · rw [whole, Result.after_events, own_append, printed_append, later.text]
          rfl
        · rw [whole]
          exact later.stops

/-- **The shell is the session**, whatever is typed, and whenever timer interrupts are taken. -/
theorem runs_shell (synchronous : platform.Synchronous) (command : Vector UInt8 commandLength)
    {r : Result State Stop (Event ⊕ Exception) Unit}
    (runs : Runs (TimerTaken platform) (runShellLoop platform command) s r) :
    ∃ ks, ComesTo platform s r ks promptText := by
  obtain ⟨r₁, runs₁, rest⟩ := runs_bind_iff.mp runs
  have prompt : Writes platform printPrompt promptText := writes_literal _
  obtain ⟨_, _, told⟩ := prompt.replies s r₁ runs₁
  have outcome : r₁.outcome = .ok () := told.outcome
  have text : printed (own r₁.events) = promptText := told.text
  have flag : r₁.state.exceptionInProgress = s.exceptionInProgress := told.flag
  obtain ⟨r₂, runs₂, rfl⟩ := runs_bind_ok rest outcome
  obtain ⟨es, s', r₃, moves, runs₃, rfl⟩ := runs_current_iff.mp runs₂
  have state := moves_ticks moves
  have length : command.toList.length = commandLength := Vector.length_toList
  obtain ⟨ks, later⟩ := runs_shellIterations synchronous length (Nat.lt_succ_self _) runs₃
  let front := r₁.events ++ es.map .inr
  have received : s'.received = s.received := by
    rw [state]
    exact told.received
  have flag' : s'.exceptionInProgress = s.exceptionInProgress := by
    rw [state]
    exact flag
  have ticks : s'.ticksSinceBoot = s.ticksSinceBoot + ticksIn front := by
    rw [state, ticksIn_append, ← UInt64.add_assoc, ← told.ticks]
    unfold ticksIn
    rw [met_map_inr]
  have text' := later.text
  have stops := later.stops
  rw [← timesAt_after ticks, received, flag'] at text' stops
  have printed_ : printed (own front) = promptText := by
    rw [own_append, own_map_inr, List.append_nil, text]
  refine ⟨ks.map ((met front).length + ·), later.increasing_after _, ?_, ?_, stops⟩
  · rw [Result.after_after]
    exact later.inside_after front
  · rw [Result.after_after, Result.after_events, own_append, printed_append, printed_, text']
    rfl

end Shell

/-! ## How a session ends -/

section Ends

variable {platform : Platform}

end Ends

/-! ## What does not depend on the time -/

section Timeless

variable {platform : Platform}

/-- The commands that an input completes, after a line. -/
def commandsIn : List UInt8 → List UInt8 → List (List UInt8)
  | _, [] => []
  | line, c :: input =>
      if IsEnd c then chars line :: commandsIn [] input
      else if (editStep line c).length + 1 < commandLength then commandsIn (editStep line c) input
      else chars (editStep line c) :: commandsIn [] input

/-- Without `uptime`, a session is the same at all times. -/
theorem session_timeless {line input : List UInt8} (times times' : List UInt64) (flag : UInt64)
    (timeless : ∀ command ∈ commandsIn line input, ¬ AsksTime command) :
    session platform times flag line input = session platform times' flag line input := by
  induction input generalizing times times' flag line with
  | nil => rfl
  | cons c input ih =>
      have complete (line : List UInt8) (first : ¬ AsksTime (chars line))
          (later : ∀ command ∈ commandsIn [] input, ¬ AsksTime command) :
          completed platform times flag line input = completed platform times' flag line input := by
        unfold completed
        rw [commandReply_timeless first (times.headD 0) (times'.headD 0)]
        exact congrArg _ (funext fun flag => ih times.tail times'.tail flag later)
      rw [commandsIn] at timeless
      by_cases ends : IsEnd c
      · rw [if_pos ends] at timeless
        obtain ⟨first, later⟩ := List.forall_mem_cons.mp timeless
        rw [session_end ends, session_end ends, complete line first later]
      · rw [if_neg ends] at timeless
        rcases Nat.lt_or_ge ((editStep line c).length + 1) commandLength with room | full
        · rw [if_pos room] at timeless
          rw [session_more ends room, session_more ends room, ih times times' flag timeless]
        · rw [if_neg (Nat.not_lt.mpr full)] at timeless
          obtain ⟨first, later⟩ := List.forall_mem_cons.mp timeless
          rw [session_last ends full, session_last ends full, complete _ first later]

/-- **Timer interrupts are invisible** to a user who does not ask for the time: two runs of the
shell on the same input print the same and end alike, whatever the tick counter is when they
start, whatever the buffer holds, and whenever interrupts are taken in each. -/
theorem interrupts_invisible (synchronous : platform.Synchronous) {s s' : State}
    (received : s'.received = s.received) (flag : s'.exceptionInProgress = s.exceptionInProgress)
    (timeless : ∀ command ∈ commandsIn [] s.received, ¬ AsksTime command)
    (command command' : Vector UInt8 commandLength)
    {r r' : Result State Stop (Event ⊕ Exception) Unit}
    (runs : Runs (TimerTaken platform) (runShellLoop platform command) s r)
    (runs' : Runs (TimerTaken platform) (runShellLoop platform command') s' r') :
    printed (own r'.events) = printed (own r.events) ∧ r'.outcome = r.outcome := by
  obtain ⟨ks, comes⟩ := runs_shell synchronous command runs
  obtain ⟨ks', comes'⟩ := runs_shell synchronous command' runs'
  have same : session platform (timesAt s' ks') s.exceptionInProgress [] s.received =
      session platform (timesAt s ks) s.exceptionInProgress [] s.received :=
    session_timeless _ _ _ timeless
  rw [comes.text, comes'.text, comes.stops, comes'.stops, received, flag, same]
  exact ⟨rfl, rfl⟩

theorem not_asksTime_help : ¬ AsksTime [104, 101, 108, 112] := by
  unfold AsksTime
  decide +kernel

theorem commandsIn_help : commandsIn [] [104, 101, 108, 112, 13] = [[104, 101, 108, 112]] := by
  decide +kernel

/-- `help`, at two times. -/
theorem interrupts_invisible_help :
    let s : State := .boot [104, 101, 108, 112, 13]
    let s' : State := ⟨[104, 101, 108, 112, 13], 0, 5⟩
    let r : Result State Stop (Event ⊕ Exception) Unit :=
      alone ((runShellLoop withoutZero (.replicate _ 7)).run s)
    let r' : Result State Stop (Event ⊕ Exception) Unit :=
      alone ((runShellLoop withoutZero (.replicate _ 8)).run s')
    printed (own r'.events) = printed (own r.events) ∧ r'.outcome = r.outcome := by
  intro s s' r r'
  have timeless : ∀ command ∈ commandsIn [] s.received, ¬ AsksTime command := by
    rw [show s.received = [104, 101, 108, 112, 13] from rfl, commandsIn_help]
    exact List.forall_mem_singleton.mpr not_asksTime_help
  have runs : Runs (TimerTaken withoutZero) (runShellLoop withoutZero (.replicate _ 7)) s r :=
    runs_alone _ _ _
  have runs' : Runs (TimerTaken withoutZero) (runShellLoop withoutZero (.replicate _ 8)) s' r' :=
    runs_alone _ _ _
  have received : s'.received = s.received := rfl
  have flag : s'.exceptionInProgress = s.exceptionInProgress := rfl
  exact interrupts_invisible synchronous_withoutZero received flag timeless _ _ runs runs'

end Timeless

end CharcoalOS.Kernel
