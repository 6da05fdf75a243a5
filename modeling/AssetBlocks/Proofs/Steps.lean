import AssetBlocks.Processor

/-! What one step of a processor can do, and the runs that its steps make up. A run goes
through all directives and then finishes, or stops at the step whose handler fails. -/
namespace AssetBlocks.Processor
open Text

variable {p : Processor} {tag : BeginTag} {contents : Option String}

/-- What the handler of a block does, if its kind has a handler. -/
def handling? (p : Processor) (tag : BeginTag) (contents : Option String) :
    Option (Trace HandlerError Replacement) :=
  (p.registry.get? tag.kind).map fun handler =>
    handler.process ⟨tag.kind, tag.args, contents, tag.indent⟩ p.context

def reports (p : Processor) (tag : BeginTag) (contents : Option String) : List Report :=
  ((p.handling? tag contents).map Log.events).getD []

/-- The text that stands for a block behind its indent: what its handler makes of it, or
nothing where there is no handler. -/
def Becomes (p : Processor) (tag : BeginTag) (contents : Option String) (text : String) : Prop :=
  match p.handling? tag contents with
  | none => text = ""
  | some handling => ∃ replacement,
      handling.outcome = .ok replacement ∧ text = replacement.render tag.indent

def Fails (p : Processor) (tag : BeginTag) (contents : Option String) (e : HandlerError) : Prop :=
  ∃ handling, p.handling? tag contents = some handling ∧ handling.outcome = .error e

theorem Becomes.unique {text text' : String} (h : p.Becomes tag contents text)
    (h' : p.Becomes tag contents text') : text = text' := by
  cases found : p.handling? tag contents with
  | none =>
    simp only [Becomes, found] at h h'
    exact h.trans h'.symm
  | some handling =>
    simp only [Becomes, found] at h h'
    obtain ⟨replacement, made, rfl⟩ := h
    obtain ⟨replacement', made', rfl⟩ := h'
    rw [Except.ok.inj (made.symm.trans made')]

theorem Fails.unique {e e' : HandlerError} (h : p.Fails tag contents e)
    (h' : p.Fails tag contents e') : e = e' := by
  obtain ⟨handling, found, failed⟩ := h
  obtain ⟨handling', found', failed'⟩ := h'
  obtain rfl := Option.some.inj (found.symm.trans found')
  exact Except.error.inj (failed.symm.trans failed')

theorem Becomes.not_fails {text : String} {e : HandlerError} (h : p.Becomes tag contents text) :
    ¬ p.Fails tag contents e := by
  rintro ⟨handling, found, failed⟩
  simp only [Becomes, found] at h
  obtain ⟨replacement, made, _⟩ := h
  cases made.symm.trans failed

theorem dispatch_events (p : Processor) (tag : BeginTag) (contents : Option String) :
    (p.dispatch tag contents).events = (p.reports tag contents).map Report.event := by
  unfold dispatch reports handling?
  cases p.registry.get? tag.kind with
  | none => rfl
  | some handler =>
    simp only [Option.map_some, Option.getD_some, Log.map]
    cases made : (handler.process ⟨tag.kind, tag.args, contents, tag.indent⟩ p.context).outcome with
    | error e => rw [Log.bind_of_error made]
    | ok replacement =>
      rw [Log.bind_of_ok made]
      simp [pure, Log.ok]

/-- A block becomes a text, or its handler fails; there is no third. -/
theorem dispatch_outcome (p : Processor) (tag : BeginTag) (contents : Option String) :
    (∃ text, p.Becomes tag contents text ∧ (p.dispatch tag contents).outcome = .ok text) ∨
    (∃ e, p.Fails tag contents e ∧
      (p.dispatch tag contents).outcome = .error (.handler tag.kind e)) := by
  cases found : p.registry.get? tag.kind with
  | none =>
    refine Or.inl ⟨"", by simp [Becomes, handling?, found], ?_⟩
    simp only [dispatch, found]
    rfl
  | some handler =>
    have handled : p.handling? tag contents =
        some (handler.process ⟨tag.kind, tag.args, contents, tag.indent⟩ p.context) := by
      simp [handling?, found]
    simp only [dispatch, found, Log.map]
    cases made : (handler.process ⟨tag.kind, tag.args, contents, tag.indent⟩ p.context).outcome with
    | error e => exact Or.inr ⟨e, ⟨_, handled, made⟩, by rw [Log.bind_of_error made]; rfl⟩
    | ok replacement =>
      refine Or.inl ⟨replacement.render tag.indent, ?_, by rw [Log.bind_of_ok made]; rfl⟩
      simp only [Becomes, handled]
      exact ⟨replacement, made, rfl⟩

theorem Becomes.dispatch {text : String} (becomes : p.Becomes tag contents text) :
    (p.dispatch tag contents).outcome = .ok text := by
  rcases p.dispatch_outcome tag contents with ⟨text', becomes', made⟩ | ⟨e, fails, _⟩
  · rw [becomes.unique becomes', made]
  · exact absurd fails becomes.not_fails

theorem Fails.dispatch {e : HandlerError} (fails : p.Fails tag contents e) :
    (p.dispatch tag contents).outcome = .error (.handler tag.kind e) := by
  rcases p.dispatch_outcome tag contents with ⟨_, becomes, _⟩ | ⟨e', fails', made⟩
  · exact absurd fails becomes.not_fails
  · rw [fails.unique fails', made]

namespace State
variable {top : Open} {rest : List Open} {output : String} {line : Nat}

@[simp] theorem write_line (s : State) (text : String) : (s.write text).line = s.line := by
  unfold write
  split <;> rfl

@[simp] theorem advance_line (s : State) (text : List Char) :
    (s.advance text).line = s.line + lineFeeds text := rfl

@[simp] theorem write_depth (s : State) (text : String) :
    (s.write text).stack.length = s.stack.length := by
  obtain ⟨_ | ⟨top, rest⟩, output, line⟩ := s <;> rfl

@[simp] theorem advance_depth (s : State) (text : List Char) :
    (s.advance text).stack.length = s.stack.length := s.write_depth _

theorem write_outside (text : String) :
    write ⟨[], output, line⟩ text = ⟨[], output ++ text, line⟩ := rfl

theorem write_inside (text : String) : write ⟨top :: rest, output, line⟩ text =
    ⟨{ top with contents := top.contents ++ text } :: rest, output, line⟩ := rfl

theorem advance_inside (text : List Char) : advance ⟨top :: rest, output, line⟩ text =
    ⟨{ top with contents := top.contents ++ String.ofList text } :: rest, output,
      line + lineFeeds text⟩ := rfl

/-- The state in a block that has just been opened. -/
def enter (s : State) (m : Match Directive) (tag : BeginTag) : State :=
  { s.advance m.before with
    stack := ⟨tag, String.ofList m.text, s.line + lineFeeds m.before, ""⟩ ::
      (s.advance m.before).stack }

@[simp] theorem enter_line (s : State) (m : Match Directive) :
    (s.enter m tag).line = s.line + lineFeeds m.before := rfl

end State

/-- All that a step over a directive can do: what it reports, and how it ends. -/
inductive Move (p : Processor) (s : State) (m : Match Directive) :
    List Event → Except DocumentError State → Prop
  | opened {tag : BeginTag} (value : m.value = .opening tag) (more : tag.selfClosing = false) :
      Move p s m [.blockBegin tag.kind tag.args (String.ofList m.text)] (.ok (s.enter m tag))
  | single {tag : BeginTag} {text : String} (value : m.value = .opening tag)
      (alone : tag.selfClosing = true) (becomes : p.Becomes tag none text) :
      Move p s m (.blockSingle tag.kind tag.args (String.ofList m.text) ::
          (p.reports tag none).map Report.event)
        (.ok ((s.advance m.before).write (tag.indent ++ text)))
  | singleFailed {tag : BeginTag} {e : HandlerError} (value : m.value = .opening tag)
      (alone : tag.selfClosing = true) (fails : p.Fails tag none e) :
      Move p s m (.blockSingle tag.kind tag.args (String.ofList m.text) ::
          (p.reports tag none).map Report.event)
        (.error (.handler tag.kind e))
  | stray (value : m.value = .closing) (outside : s.stack = []) :
      Move p s m
        [.warning (strayMessage (s.line + lineFeeds m.before) (String.ofList m.text))]
        (.ok ((s.advance m.before).write (String.ofList m.text)))
  | closed {top : Open} {rest : List Open} {text : String} (value : m.value = .closing)
      (inside : s.stack = top :: rest)
      (becomes : p.Becomes top.tag (some (top.contents ++ String.ofList m.before)) text) :
      Move p s m ((p.reports top.tag (some (top.contents ++ String.ofList m.before))).map
          Report.event ++ [.blockEnd top.tag.kind top.tag.args top.text
          (top.contents ++ String.ofList m.before)])
        (.ok (State.write { s with stack := rest, line := s.line + lineFeeds m.before }
          (top.tag.indent ++ text)))
  | closeFailed {top : Open} {rest : List Open} {e : HandlerError} (value : m.value = .closing)
      (inside : s.stack = top :: rest)
      (fails : p.Fails top.tag (some (top.contents ++ String.ofList m.before)) e) :
      Move p s m ((p.reports top.tag (some (top.contents ++ String.ofList m.before))).map
          Report.event)
        (.error (.handler top.tag.kind e))

theorem step_move (p : Processor) (s : State) (m : Match Directive) :
    Move p s m (p.step s m).events (p.step s m).outcome := by
  cases value : m.value with
  | opening tag =>
    simp only [step, value, openBlock]
    cases alone : tag.selfClosing with
    | false => exact .opened value alone
    | true =>
      rw [if_pos rfl, Log.emit_bind]
      have said := p.dispatch_events tag none
      rcases p.dispatch_outcome tag none with ⟨text, becomes, made⟩ | ⟨e, fails, made⟩
      · rw [Log.bind_of_ok made]
        simpa [said, pure, Log.ok] using Move.single (s := s) value alone becomes
      · rw [Log.bind_of_error made]
        simpa [said] using Move.singleFailed (s := s) value alone fails
  | closing =>
    obtain ⟨stack, output, line⟩ := s
    cases stack with
    | nil =>
      simp only [step, value]
      exact .stray value rfl
    | cons top rest =>
      simp only [step, value, State.advance_inside, closeBlock]
      have said := p.dispatch_events top.tag (some (top.contents ++ String.ofList m.before))
      rcases p.dispatch_outcome top.tag (some (top.contents ++ String.ofList m.before)) with
        ⟨text, becomes, made⟩ | ⟨e, fails, made⟩
      · rw [Log.bind_of_ok made]
        simpa [said, Log.emit_bind, pure, Log.ok] using Move.closed value rfl becomes
      · rw [Log.bind_of_error made]
        simpa [said] using Move.closeFailed value rfl fails

theorem Move.eq_step {s : State} {m : Match Directive} {events : List Event}
    {outcome : Except DocumentError State} (move : Move p s m events outcome) :
    outcome = (p.step s m).outcome := by
  obtain ⟨stack, output, line⟩ := s
  cases move with
  | opened value more =>
    simp only [step, value, openBlock, more]
    rfl
  | single value alone becomes =>
    simp only [step, value, openBlock, alone, if_true, Log.emit_bind]
    rw [Log.bind_of_ok becomes.dispatch]
    rfl
  | singleFailed value alone fails =>
    simp only [step, value, openBlock, alone, if_true, Log.emit_bind]
    rw [Log.bind_of_error fails.dispatch]
  | stray value outside =>
    change stack = [] at outside
    subst outside
    simp only [step, value]
    rfl
  | closed value inside becomes =>
    change stack = _ at inside
    subst inside
    simp only [step, value, State.advance_inside, closeBlock]
    rw [Log.bind_of_ok becomes.dispatch]
    rfl
  | closeFailed value inside fails =>
    change stack = _ at inside
    subst inside
    simp only [step, value, State.advance_inside, closeBlock]
    rw [Log.bind_of_error fails.dispatch]

theorem Move.run {s s' : State} {m : Match Directive} {events : List Event}
    (move : Move p s m events (.ok s')) (ms : List (Match Directive)) (tail : List Char) :
    (p.run s (m :: ms) tail).outcome = (p.run s' ms tail).outcome := by
  rw [Processor.run, Log.bind_of_ok move.eq_step.symm]

/-- The states that a run gets to, with the directives behind it and its reports so far. -/
inductive Reaches (p : Processor) : List (Match Directive) → List Event → State → Prop
  | start : Reaches p [] [] State.start
  | step {done : List (Match Directive)} {events events' : List Event} {s s' : State}
      {m : Match Directive} (before : Reaches p done events s)
      (move : Move p s m events' (.ok s')) : Reaches p (done ++ [m]) (events ++ events') s'

/-- How a run over directives and the text behind them ends. -/
inductive Ends (p : Processor) (ms : List (Match Directive)) (tail : List Char) :
    List Event → Except DocumentError String → Prop
  | finished {events : List Event} {s : State} (all : Reaches p ms events s) :
      Ends p ms tail events (finish s tail).outcome
  | stopped {done rest : List (Match Directive)} {m : Match Directive} {events events' : List Event}
      {s : State} {e : DocumentError} (split : ms = done ++ m :: rest)
      (before : Reaches p done events s) (move : Move p s m events' (.error e)) :
      Ends p ms tail (events ++ events') (.error e)

theorem Ends.of_ok {ms : List (Match Directive)} {tail : List Char} {events : List Event}
    {output : String} (h : Ends p ms tail events (.ok output)) :
    ∃ s, Reaches p ms events s ∧ s.stack = [] ∧ output = s.output ++ String.ofList tail := by
  generalize ended : Except.ok output = outcome at h
  cases h with
  | stopped => cases ended
  | @finished _ s all =>
    refine ⟨s, all, ?_⟩
    unfold finish at ended
    split at ended
    · next outside => exact ⟨outside, Except.ok.inj ended⟩
    · cases ended

theorem run_ends {done : List (Match Directive)} {events : List Event} {s : State}
    (before : Reaches p done events s) (ms : List (Match Directive)) (tail : List Char) :
    Ends p (done ++ ms) tail (events ++ (p.run s ms tail).events) (p.run s ms tail).outcome := by
  induction ms generalizing done events s with
  | nil =>
    have silent : (finish s tail).events = [] := by
      unfold finish
      split <;> rfl
    simpa [run, silent] using (Ends.finished before : Ends p done tail events _)
  | cons m ms ih =>
    have move := p.step_move s m
    cases made : (p.step s m).outcome with
    | error e =>
      rw [made] at move
      rw [run, Log.bind_of_error made]
      exact .stopped rfl before move
    | ok s' =>
      rw [made] at move
      rw [run, Log.bind_of_ok made]
      simpa using ih (before.step move)

theorem process_ends (p : Processor) (document : String) :
    Ends p (p.tag.scan document).1 (p.tag.scan document).2
      (p.process document).events (p.process document).outcome :=
  run_ends .start _ _

end AssetBlocks.Processor
