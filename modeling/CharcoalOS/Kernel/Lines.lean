import CharcoalOS.Kernel.Reading

/-!
# One command for each line

What is typed is a list of lines. `OneCommandPerLine` says of a run of the shell that its
commands are the lines, each dispatched after its terminator has been read. A line that fills
the buffer is dispatched before: `console_read_line` returns without looking at what follows.
`one_command_per_line_iff` says that this is the only way to miss it.
-/

namespace CharcoalOS.Kernel

open Effect Effect.Program

/-- A typed line. -/
structure Line : Type where
  text : List UInt8
  terminator : UInt8
  ordinary : ∀ c ∈ text, c ≠ 0 ∧ IsPlain c
  ends : terminator = 10 ∨ terminator = 13

namespace Line

variable (l : Line)

def bytes : List UInt8 := l.text ++ [l.terminator]

/-- The line as the buffer holds it. -/
def command : List UInt8 := l.text.take (commandLength - 1)

/-- The buffer has room for the line, and is not full after it. -/
def Fits : Prop := l.text.length < commandLength - 1

instance : Decidable l.Fits := inferInstanceAs (Decidable (_ < _))

end Line

/-- What the serial line brings when the lines are typed. -/
def typed (lines : List Line) : List UInt8 := lines.flatMap Line.bytes

/-- The commands of a run are the lines, as far as the run goes. -/
structure OneCommandPerLine (lines : List Line) (r : Result State Stop Event Unit) : Prop where
  commands : dispatches r.events <+: lines.map Line.command
  /-- A line is read to its end before it is dispatched. -/
  terminated : ∀ before command after, r.events = before ++ .dispatch command :: after →
    typed (lines.take ((dispatches before).length + 1)) <+: reads before
  /-- All lines are dispatched, unless a command stops the processor. -/
  ends : ∃ stop, r.outcome = .error stop ∧
    (Final stop ∨ stop = .waiting ∧ dispatches r.events = lines.map Line.command)

variable {platform : Platform} {lines : List Line} {l : Line} {s : State}

theorem Line.plain (l : Line) : ∀ c ∈ l.text, IsPlain c := fun c member => (l.ordinary c member).2

theorem Line.clean (l : Line) : 0 ∉ l.text := fun nul => (l.ordinary 0 nul).1 rfl

theorem Line.command_of_fits (fits : l.Fits) : l.command = l.text :=
  List.take_of_length_le (Nat.le_of_lt fits)

theorem typed_cons (l : Line) (lines : List Line) :
    typed (l :: lines) = l.bytes ++ typed lines := List.flatMap_cons

/-! ## One iteration of the shell -/

/-- After reading a line the shell dispatches it, and goes on or stops for good. -/
theorem shellStep_dispatch (platform : Platform) {buffer text cmd : List UInt8} {s' : State}
    {evs : List Event}
    (read : (consoleReadLine buffer commandLength true).run s = ⟨.ok text, s', evs⟩)
    (length : text.length = commandLength) (holds : ReadsAs cmd text) :
    ∃ o s'' evs', (shellStep platform buffer).run s =
        ⟨o, s'', evs ++ .dispatch cmd :: evs'⟩ ∧
      s''.received = s'.received ∧ (∀ e ∈ evs', ¬ IsInput e) ∧
      ((∃ text', text'.length = commandLength ∧ o = .ok (.next text')) ∨
        ∃ stop, Final stop ∧ o = .error stop) := by
  have terminated : 0 ∈ text := by
    obtain ⟨_, behind, rfl⟩ := holds
    exact List.mem_append_right _ List.mem_cons_self
  obtain ⟨rest, text', dispatch, inputless, same⟩ := inputless_dispatched platform terminated
  let tail : Routine (Control (List UInt8) Unit) := do
    rest
    printPrompt
    pure (.next text')
  have dispatched : (do
      let command ← dispatchCommand platform text
      printPrompt
      pure (Control.next command)) = (do Code.emit (.dispatch (chars text)); tail) := by
    rw [dispatch, LawfulMonad.bind_assoc, LawfulMonad.bind_assoc, LawfulMonad.pure_bind]
  have whole : tail.Safe (·.received = s'.received) (fun e => ¬ IsInput e)
      (fun control => ∃ text', text'.length = commandLength ∧ control = .next text') Final :=
    (inputless.safe s'.received).bind fun _ _ =>
      ((inputless_literal "> ").safe s'.received).bind fun _ _ =>
      .pure ⟨text', same.trans length, rfl⟩
  obtain ⟨received, events, value, failure⟩ := whole.run (s := s') rfl
  have run : (shellStep platform buffer).run s =
      ((tail.run s').after [.dispatch (chars text)]).after evs := by
    rw [shellStep, Code.run_bind, bind_ok read]
    exact congrArg (fun c => (Code.run c s').after evs) dispatched
  rcases ends : tail.run s' with ⟨o, s'', evs'⟩
  rw [ends] at received events value failure
  rw [ends, holds.chars] at run
  refine ⟨o, s'', evs', run, received, events, ?_⟩
  cases o with
  | ok control =>
      obtain ⟨text', length, same⟩ := value control rfl
      exact Or.inl ⟨text', length, congrArg Except.ok same⟩
  | error stop => exact Or.inr ⟨stop, failure stop rfl, rfl⟩

/-- An iteration that finds a line: what it reads of it, and that it dispatches just that. -/
structure Dispatched (platform : Platform) (got cmd rest : List UInt8) (buffer : List UInt8)
    (s : State) (o : Except Stop (Control (List UInt8) Unit)) (s' : State)
    (before after : List Event) : Prop where
  run : (shellStep platform buffer).run s = ⟨o, s', before ++ .dispatch cmd :: after⟩
  read : reads before = got
  first : dispatches before = []
  later : ∀ e ∈ after, ¬ IsInput e
  received : s'.received = rest
  ends : (∃ text', text'.length = commandLength ∧ o = .ok (.next text')) ∨
    ∃ stop, Final stop ∧ o = .error stop

/-- A line that fits is read to its end. -/
theorem shellStep_fits (platform : Platform) {buffer rest : List UInt8}
    (length : buffer.length = commandLength) (fits : l.Fits)
    (received : s.received = l.bytes ++ rest) :
    ∃ o s' before after, Dispatched platform l.bytes l.command rest buffer s o s' before after := by
  have front : s.received = l.text ++ l.terminator :: rest := by
    rw [received, Line.bytes, List.append_assoc, List.singleton_append]
  obtain ⟨text, before, read, same, holds, got, first⟩ :=
    consoleReadLine_line true l.plain l.clean length (Nat.add_lt_of_lt_sub fits) l.ends
      front
  obtain ⟨o, s', after, run, kept, later, ends⟩ :=
    shellStep_dispatch platform read same holds
  refine ⟨o, s', before, after, ?_, got, first, later, kept, ends⟩
  rw [run, Line.command_of_fits fits]

/-- Of a longer line as much is read as fits. -/
theorem shellStep_long (platform : Platform) {buffer rest : List UInt8}
    (length : buffer.length = commandLength) (long : ¬ l.Fits)
    (received : s.received = l.bytes ++ rest) :
    ∃ o s' before after rest',
      Dispatched platform l.command l.command rest' buffer s o s' before after := by
  have enough : commandLength - 1 ≤ l.text.length := Nat.not_lt.mp long
  have front : s.received = l.command ++
      (l.text.drop (commandLength - 1) ++ [l.terminator] ++ rest) := by
    rw [received, Line.bytes, Line.command, ← List.append_assoc, ← List.append_assoc,
      List.take_append_drop]
  have full : l.command.length + 1 = commandLength := by
    rw [Line.command, List.length_take_of_le enough]
    rfl
  obtain ⟨text, before, read, same, holds, got, first⟩ :=
    consoleReadLine_full true (fun c member => l.plain c (List.mem_of_mem_take member))
      (fun nul => l.clean (List.mem_of_mem_take nul)) length full front
  obtain ⟨o, s', after, run, kept, later, ends⟩ :=
    shellStep_dispatch platform read same holds
  exact ⟨o, s', before, after, _, run, got, first, later, kept, ends⟩

/-- With no line left the shell waits. -/
theorem shellStep_waiting {buffer : List UInt8} (received : s.received = []) :
    (shellStep platform buffer).run s = ⟨.error .waiting, s, []⟩ := by
  rw [shellStep, Code.run_bind, bind_error (consoleReadLine_waiting true (by decide) received)]

/-! ## Runs -/

/-- An event of two lists in a row is in the second list, or in the first. -/
theorem in_second_or_first {as bs b a : List Event} {e : Event} (same : as ++ bs = b ++ e :: a) :
    (∃ x, b = as ++ x ∧ bs = x ++ e :: a) ∨ ∃ x, as = b ++ e :: x := by
  rcases List.append_eq_append_iff.mp same with ⟨x, longer, rest⟩ | ⟨x, shorter, rest⟩
  · exact Or.inl ⟨x, longer, rest⟩
  · rcases x with _ | ⟨e', x⟩
    · rw [List.append_nil] at shorter
      exact Or.inl ⟨[], by rw [shorter, List.append_nil], rest.symm⟩
    · obtain ⟨rfl, -⟩ := List.cons.inj rest
      exact Or.inr ⟨x, shorter⟩

/-- Where the events of an iteration dispatch something. -/
theorem eq_before {before after b a : List Event} {cmd command : List UInt8}
    (same : before ++ .dispatch cmd :: after = b ++ .dispatch command :: a)
    (first : dispatches before = []) (later : ∀ e ∈ after, ¬ IsInput e) : b = before := by
  rcases in_second_or_first same with ⟨x, longer, rest⟩ | ⟨x, earlier⟩
  · rcases x with _ | ⟨e, x⟩
    · rw [longer, List.append_nil]
    · obtain ⟨-, tail⟩ := List.cons.inj rest
      have member : Event.dispatch command ∈ after :=
        tail ▸ List.mem_append_right _ List.mem_cons_self
      exact absurd trivial (later _ member)
  · have member : Event.dispatch command ∈ before :=
      earlier ▸ List.mem_append_right _ List.mem_cons_self
    cases List.filterMap_eq_nil_iff.mp first _ member

variable {buffer rest : List UInt8} {o : Except Stop (Control (List UInt8) Unit)} {s' : State}
  {before after : List Event}

/-- An iteration that reads a line and dispatches it adds the line to those of the run. -/
theorem oneCommandPerLine_cons (r : Result State Stop Event Unit)
    (d : Dispatched platform l.bytes l.command rest buffer s o s' before after) :
    OneCommandPerLine (l :: lines) (r.after (before ++ .dispatch l.command :: after)) ↔
      OneCommandPerLine lines r := by
  have read : reads (before ++ .dispatch l.command :: after) = l.bytes := by
    rw [reads_append, d.read, show reads (.dispatch l.command :: after) = reads after from rfl,
      reads_eq_nil d.later, List.append_nil]
  have one : dispatches (before ++ .dispatch l.command :: after) = [l.command] := by
    rw [dispatches_append, d.first, List.nil_append]
    exact congrArg (List.cons l.command) (dispatches_eq_nil d.later)
  have all : dispatches (r.after (before ++ .dispatch l.command :: after)).events =
      l.command :: dispatches r.events := by
    rw [Result.after, dispatches_append, one]
    rfl
  have prefix_iff (b : List Event) :
      typed ((l :: lines).take ((dispatches ((before ++ .dispatch l.command :: after) ++
          b)).length + 1)) <+: reads ((before ++ .dispatch l.command :: after) ++ b) ↔
        typed (lines.take ((dispatches b).length + 1)) <+: reads b := by
    rw [dispatches_append, reads_append, one, read, List.length_append, List.length_singleton,
      Nat.add_comm 1, List.take_succ_cons, typed_cons, List.prefix_append_right_inj]
  constructor
  · intro holds
    obtain ⟨commands, terminated, stop, outcome, ends⟩ := holds
    rw [all, List.map_cons] at commands ends
    refine ⟨(List.prefix_cons_inj l.command).mp commands, fun b command a same => ?_, stop,
      outcome, ends.imp_right (And.imp_right fun same => (List.cons.inj same).2)⟩
    refine (prefix_iff b).mp (terminated _ command a ?_)
    exact (congrArg (_ ++ ·) same).trans (List.append_assoc ..).symm
  · intro holds
    obtain ⟨commands, terminated, stop, outcome, ends⟩ := holds
    refine ⟨?_, fun b command a same => ?_, stop, outcome, ?_⟩
    · rw [all, List.map_cons]
      exact (List.prefix_cons_inj l.command).mpr commands
    · rcases in_second_or_first same with ⟨x, longer, rest⟩ | ⟨x, here⟩
      · rw [longer]
        exact (prefix_iff x).mpr (terminated x command a rest)
      · rw [eq_before here d.first d.later, d.first, d.read]
        show typed [l] <+: l.bytes
        rw [typed_cons, typed, List.flatMap_nil, List.append_nil]
    · rw [all, List.map_cons]
      exact ends.imp_right (And.imp_right (congrArg _))

/-- An iteration that dispatches a longer line does so before its terminator is read. -/
theorem not_oneCommandPerLine (lines : List Line) (r : Result State Stop Event Unit)
    (d : Dispatched platform l.command l.command rest buffer s o s' before after) :
    ¬ OneCommandPerLine (l :: lines) (r.after (before ++ .dispatch l.command :: after)) := by
  intro holds
  have whole := holds.terminated before l.command (after ++ r.events) (by
    rw [Result.after, List.append_assoc, List.cons_append])
  rw [d.first, d.read] at whole
  have line : typed [l] <+: l.command := whole
  have bytes : typed [l] = l.text ++ [l.terminator] := by
    rw [typed_cons, typed, List.flatMap_nil, List.append_nil, Line.bytes]
  have length := line.length_le
  rw [bytes, List.length_append, List.length_singleton, Line.command, List.length_take] at length
  omega

/-- Every line that the shell comes to read fits: `b` is where a run starts, and a head of
the loop after `n` iterations is about to read line `n`. -/
def FitsWhereRead (platform : Platform) (lines : List Line) (b : List UInt8 × State) : Prop :=
  ∀ ts h, Trail (fun c => (shellStep platform c).run) (fun _ => ()) b ts h →
    ∀ l, lines[ts.length]? = some l → l.Fits

/-- The first line is read at the start. -/
theorem FitsWhereRead.first (fit : FitsWhereRead platform (l :: lines) (buffer, s)) : l.Fits :=
  fit [] _ .start l rfl

theorem fitsWhereRead_next {text' : List UInt8} {evs : List Event}
    (run : (shellStep platform buffer).run s = ⟨.ok (.next text'), s', evs⟩) (fits : l.Fits) :
    FitsWhereRead platform (l :: lines) (buffer, s) ↔
      FitsWhereRead platform lines (text', s') := by
  have edge : Continues (fun c => (shellStep platform c).run) (buffer, s) (text', s') :=
    ⟨congrArg Result.outcome run, congrArg Result.state run⟩
  constructor
  · intro fit ts h trail l' there
    exact fit _ h (.cons edge trail) l' there
  · intro fit ts h trail l' there
    rcases trail.uncons with ⟨rfl, rfl⟩ | ⟨b, us, rfl, edge', trail'⟩
    · cases there
      exact fits
    · rw [← edge.unique edge'] at trail'
      exact fit us h trail' l' there

theorem fitsWhereRead_error {stop : Stop} {evs : List Event}
    (run : (shellStep platform buffer).run s = ⟨.error stop, s', evs⟩) (fits : l.Fits) :
    FitsWhereRead platform (l :: lines) (buffer, s) := by
  intro ts h trail l' there
  rcases trail.uncons with ⟨rfl, rfl⟩ | ⟨b, us, rfl, edge, trail'⟩
  · cases there
    exact fits
  · cases (congrArg Result.outcome run).symm.trans edge.1

/-- The loop of the shell, from any of its heads. -/
theorem oneCommandPerLine_loop {fuel : Nat} (length : buffer.length = commandLength)
    (received : s.received = typed lines) (enough : lines.length < fuel) :
    OneCommandPerLine lines ((Code.loop .exhausted (shellStep platform) fuel buffer).run s) ↔
      FitsWhereRead platform lines (buffer, s) := by
  obtain ⟨fuel, rfl⟩ : ∃ n, fuel = n + 1 := ⟨fuel - 1, by omega⟩
  induction lines generalizing fuel buffer s with
  | nil =>
      rw [Code.run_loop_error (shellStep_waiting received)]
      refine ⟨fun _ ts h _ l there => ?_, fun _ => ⟨List.nil_prefix, fun b command a same => ?_,
        .waiting, rfl, Or.inr ⟨rfl, rfl⟩⟩⟩
      · cases there
      · cases b <;> cases same
  | cons l lines ih =>
      rw [typed_cons] at received
      by_cases fits : l.Fits
      · obtain ⟨o, s', before, after, d⟩ :=
          shellStep_fits platform length fits received
        have run := d.run
        rcases d.ends with ⟨text', length', rfl⟩ | ⟨stop, final, rfl⟩
        · rw [Code.run_loop_next run, oneCommandPerLine_cons _ d, fitsWhereRead_next run fits]
          obtain ⟨fuel, rfl⟩ : ∃ n, fuel = n + 1 :=
            ⟨fuel - 1, by rw [List.length_cons] at enough; omega⟩
          exact ih length' d.received fuel (by rw [List.length_cons] at enough; omega)
        · rw [Code.run_loop_error run]
          refine iff_of_true ?_ (fitsWhereRead_error run fits)
          have here : OneCommandPerLine lines ⟨.error stop, s', []⟩ := by
            refine ⟨List.nil_prefix, fun b command a same => ?_, stop, rfl, Or.inl final⟩
            cases b <;> cases same
          have whole := (oneCommandPerLine_cons _ d).mpr here
          rwa [Result.after, List.append_nil] at whole
      · obtain ⟨o, s', before, after, rest', d⟩ :=
          shellStep_long platform length fits received
        refine iff_of_false ?_ fun fit => fits fit.first
        have run := d.run
        rcases d.ends with ⟨text', _, rfl⟩ | ⟨stop, _, rfl⟩
        · rw [Code.run_loop_next run]
          exact not_oneCommandPerLine lines _ d
        · rw [Code.run_loop_error run]
          have never := not_oneCommandPerLine lines ⟨.error stop, s', []⟩ d
          rwa [Result.after, List.append_nil] at never

/-! ## The shell -/

/-- What comes before the first line does not count. -/
theorem oneCommandPerLine_after (r : Result State Stop Event Unit) {evs : List Event}
    (none : ∀ e ∈ evs, ¬ IsInput e) :
    OneCommandPerLine lines (r.after evs) ↔ OneCommandPerLine lines r := by
  have read (b : List Event) : reads (evs ++ b) = reads b := by
    rw [reads_append, reads_eq_nil none, List.nil_append]
  have dispatched (b : List Event) : dispatches (evs ++ b) = dispatches b := by
    rw [dispatches_append, dispatches_eq_nil none, List.nil_append]
  constructor
  · intro holds
    obtain ⟨commands, terminated, ends⟩ := holds
    rw [Result.after, dispatched] at commands ends
    refine ⟨commands, fun b command a same => ?_, ends⟩
    have whole := terminated (evs ++ b) command a
      ((congrArg (evs ++ ·) same).trans (List.append_assoc ..).symm)
    rwa [read, dispatched] at whole
  · intro holds
    obtain ⟨commands, terminated, ends⟩ := holds
    refine ⟨?_, fun b command a same => ?_, ?_⟩
    · rwa [Result.after, dispatched]
    · rcases in_second_or_first same with ⟨x, longer, rest⟩ | ⟨x, earlier⟩
      · rw [longer, read, dispatched]
        exact terminated x command a rest
      · have member : Event.dispatch command ∈ evs :=
          earlier ▸ List.mem_append_right _ List.mem_cons_self
        exact absurd trivial (none _ member)
    · rwa [Result.after, dispatched]

/-- The shell is its loop, after the prompt. -/
theorem oneCommandPerLine_shell (buffer : Vector UInt8 commandLength) (s : State) :
    OneCommandPerLine lines ((runShellLoop platform buffer).run s) ↔
      OneCommandPerLine lines ((Code.loop .exhausted (shellStep platform) (s.received.length + 1)
        buffer.toList).run s) := by
  obtain ⟨evs, prompt, putcs⟩ := (prints_literal "> ").run s
  have run : (runShellLoop platform buffer).run s =
      ((Code.loop .exhausted (shellStep platform) (s.received.length + 1)
        buffer.toList).run s).after evs := by
    rw [runShellLoop, printPrompt, Code.run_bind, bind_ok prompt]
    rfl
  rw [run]
  refine oneCommandPerLine_after _ fun e member input => ?_
  obtain ⟨b, rfl⟩ := putcs e member
  exact input

theorem length_le_typed (lines : List Line) : lines.length ≤ (typed lines).length := by
  induction lines with
  | nil => exact Nat.zero_le _
  | cons l lines ih =>
      rw [typed_cons, List.length_append, Line.bytes, List.length_append, List.length_singleton,
        List.length_cons]
      omega

theorem oneCommandPerLine_run (buffer : Vector UInt8 commandLength)
    (received : s.received = typed lines) :
    OneCommandPerLine lines ((runShellLoop platform buffer).run s) ↔
      FitsWhereRead platform lines (buffer.toList, s) := by
  rw [oneCommandPerLine_shell]
  refine oneCommandPerLine_loop Vector.length_toList received (Nat.lt_succ_of_le ?_)
  exact received ▸ length_le_typed lines

/-- **One command for each line**, exactly when every line that the shell comes to read
leaves room in the buffer. -/
theorem one_command_per_line_iff (platform : Platform) (buffer : Vector UInt8 commandLength)
    (s : State) (lines : List Line) :
    OneCommandPerLine lines
        ((runShellLoop platform buffer).run { s with received := typed lines }) ↔
      FitsWhereRead platform lines (buffer.toList, { s with received := typed lines }) :=
  oneCommandPerLine_run buffer rfl

/-- A line of 254 characters. -/
def fullLine : Line where
  text := List.replicate 254 97
  terminator := 10
  ordinary := by
    intro c member
    rw [List.eq_of_mem_replicate member]
    decide
  ends := Or.inl rfl

/-- It is dispatched before its terminator is read. -/
theorem full_line_early :
    ¬ OneCommandPerLine [fullLine]
      ((runShellLoop .virt (Vector.replicate commandLength 0)).run
        (.boot (typed [fullLine]))) := by
  intro holds
  have fits : (List.replicate 254 (97 : UInt8)).length < 254 :=
    ((oneCommandPerLine_run _ rfl).mp holds).first
  rw [List.length_replicate] at fits
  exact absurd fits (Nat.lt_irrefl 254)

end CharcoalOS.Kernel
