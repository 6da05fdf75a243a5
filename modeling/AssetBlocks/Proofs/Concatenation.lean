import AssetBlocks.Proofs.Failure
import AssetBlocks.Proofs.Lines
import AssetBlocks.Proofs.Report

/-! Documents one behind the other. Where a document of whole lines becomes a text, what
is put behind it is processed as if it stood alone: its text and its reports are added,
and only its lines are counted on from those before it. -/
namespace AssetBlocks

namespace Log
variable {ρ σ ε δ α β : Type}

def expand (tell : ρ → List σ) (t : Log ρ ε α) : Log σ ε α :=
  ⟨t.events.flatMap tell, t.asked, t.outcome⟩

theorem expand_bind (tell : ρ → List σ) (t : Log ρ ε α) (next : α → Log ρ ε β) :
    (t >>= next).expand tell = t.expand tell >>= fun a => (next a).expand tell := by
  cases made : t.outcome with
  | error e =>
    have told : (t.expand tell).outcome = .error e := made
    rw [bind_of_error made, bind_of_error told]
    rfl
  | ok a =>
    have told : (t.expand tell).outcome = .ok a := made
    rw [bind_of_ok made, bind_of_ok told]
    simp only [expand, List.flatMap_append]

theorem map_bind (f : ρ → σ) (g : ε → δ) (t : Log ρ ε α) (next : α → Log ρ ε β) :
    (t >>= next).map f g = t.map f g >>= fun a => (next a).map f g := by
  cases made : t.outcome with
  | error e =>
    have mapped : (t.map f g).outcome = .error (g e) := by rw [map, made]; rfl
    rw [bind_of_error made, bind_of_error mapped]
    rfl
  | ok a =>
    have mapped : (t.map f g).outcome = .ok a := by rw [map, made]; rfl
    rw [bind_of_ok made, bind_of_ok mapped]
    simp only [map, List.map_append]

end Log

def DocumentError.later (lines : Nat) : DocumentError → DocumentError
  | missingEndTag line beginTag => missingEndTag (line + lines) beginTag
  | e => e

namespace Processor
open Text

variable {p : Processor} {s : State} {m : Match Directive}

/-- The entry where so many lines come before the document: only an end tag that is left
over is reported with its line. -/
def Entry.later (lines : Nat) : Entry → Entry
  | stray line text => stray (line + lines) text
  | entry => entry

/-- What a step reports, with who reports it. -/
def entries (p : Processor) (s : State) (m : Match Directive) : List Entry :=
  match m.value, s.stack with
  | .opening tag, _ =>
    if tag.selfClosing then [.single tag (String.ofList m.text), .handled tag none]
    else [.opened tag (String.ofList m.text)]
  | .closing, [] => [.stray (s.line + lineFeeds m.before) (String.ofList m.text)]
  | .closing, top :: _ =>
    let contents := top.contents ++ String.ofList m.before
    .handled top.tag (some contents) ::
      if (p.step s m).outcome.isOk then [.closed top.tag top.text contents] else []

def note (p : Processor) (s : State) (m : Match Directive) : Log Entry DocumentError State :=
  ⟨p.entries s m, (p.step s m).asked, (p.step s m).outcome⟩

/-- A run with who reports what. -/
def tell (p : Processor) :
    State → List (Match Directive) → List Char → Log Entry DocumentError String
  | s, [], tail => ⟨[], [], (finish s tail).outcome⟩
  | s, m :: ms, tail => do
    let next ← p.note s m
    tell p next ms tail

def account (p : Processor) (document : String) : Log Entry DocumentError String :=
  p.tell State.start (p.tag.scan document).1 (p.tag.scan document).2

theorem step_note (p : Processor) (s : State) (m : Match Directive) :
    p.step s m = (p.note s m).expand (Entry.events p) := by
  suffices said : (p.step s m).events = (p.entries s m).flatMap (Entry.events p) by
    rw [note, Log.expand, ← said]
  have move := p.step_move s m
  unfold entries
  generalize (p.step s m).events = events at move ⊢
  generalize (p.step s m).outcome = outcome at move ⊢
  cases move with
  | opened value more => simp [value, more, Entry.events]
  | single value alone becomes => simp [value, alone, Entry.events]
  | singleFailed value alone fails => simp [value, alone, Entry.events]
  | stray value outside => simp [value, outside, Entry.events]
  | closed value inside becomes => simp [value, inside, Entry.events, Except.isOk, Except.toBool]
  | closeFailed value inside fails =>
    simp [value, inside, Entry.events, Except.isOk, Except.toBool]

theorem run_tell (p : Processor) (s : State) (ms : List (Match Directive)) (tail : List Char) :
    p.run s ms tail = (p.tell s ms tail).expand (Entry.events p) := by
  induction ms generalizing s with
  | nil =>
    rw [run, tell, finish]
    cases s.stack <;> rfl
  | cons m ms ih =>
    rw [run, tell, Log.expand_bind, ← step_note]
    congr 1
    funext next
    exact ih next

theorem process_account (p : Processor) (document : String) :
    p.process document = (p.account document).expand (Entry.events p) := p.run_tell _ _ _

def through (p : Processor) (s : State) (ms : List (Match Directive)) :
    Log Entry DocumentError State := ms.foldlM p.note s

theorem tell_append (p : Processor) (s : State) (ms more : List (Match Directive))
    (tail : List Char) :
    p.tell s (ms ++ more) tail = p.through s ms >>= fun next => p.tell next more tail := by
  induction ms generalizing s with
  | nil => rfl
  | cons m ms ih =>
    rw [List.cons_append, tell, through, List.foldlM_cons, Log.bind_assoc]
    congr 1
    funext next
    exact ih next

theorem through_append (p : Processor) (s : State) (ms more : List (Match Directive)) :
    p.through s (ms ++ more) = p.through s ms >>= fun next => p.through next more := by
  induction ms generalizing s with
  | nil => rfl
  | cons m ms ih =>
    rw [List.cons_append, through, through, List.foldlM_cons, List.foldlM_cons, Log.bind_assoc]
    congr 1
    funext next
    exact ih next

theorem tell_through (p : Processor) (s : State) (ms : List (Match Directive)) (tail : List Char) :
    p.tell s ms tail =
      p.through s ms >>= fun next => ⟨[], [], (finish next tail).outcome⟩ := by
  have whole := p.tell_append s ms [] tail
  rwa [List.append_nil] at whole

def Open.later (lines : Nat) (block : Open) : Open := { block with line := block.line + lines }

/-- The state where a text and so many lines come before all of it. -/
def State.behind (output : String) (lines : Nat) (s : State) : State :=
  ⟨s.stack.map (Open.later lines), output ++ s.output, s.line + lines⟩

section behind
variable (output : String) (lines : Nat)

theorem write_behind (s : State) (text : String) :
    (s.behind output lines).write text = (s.write text).behind output lines := by
  obtain ⟨_ | ⟨top, rest⟩, written, line⟩ := s
  · simp [State.behind, State.write, String.append_assoc]
  · simp [State.behind, State.write, Open.later]

theorem advance_behind (s : State) (text : List Char) :
    (s.behind output lines).advance text = (s.advance text).behind output lines := by
  rw [State.advance, write_behind]
  simp only [State.behind, State.advance, State.mk.injEq, true_and]
  omega

theorem step_behind (p : Processor) (s : State) (m : Match Directive) :
    (p.step (s.behind output lines) m).asked = (p.step s m).asked ∧
    (p.step (s.behind output lines) m).outcome =
      ((p.step s m).outcome.mapError (DocumentError.later lines)).map
        (State.behind output lines) := by
  simp only [step, advance_behind]
  generalize s.advance m.before = s
  cases value : m.value with
  | opening tag =>
    simp only [openBlock]
    cases alone : tag.selfClosing with
    | false => exact ⟨rfl, rfl⟩
    | true =>
      simp only [if_true, Log.emit_bind]
      rcases p.dispatch_outcome tag none with ⟨text, _, made⟩ | ⟨e, _, made⟩
      · rw [Log.bind_of_ok made, Log.bind_of_ok made, write_behind]
        exact ⟨rfl, rfl⟩
      · rw [Log.bind_of_error made, Log.bind_of_error made]
        exact ⟨rfl, rfl⟩
  | closing =>
    obtain ⟨_ | ⟨top, rest⟩, written, line⟩ := s
    · simp [closeBlock, State.behind, State.write, Log.emit_bind, pure, Log.ok, Except.mapError,
        Except.map, String.append_assoc]
    · simp only [closeBlock, State.behind, List.map_cons, Open.later]
      rcases p.dispatch_outcome top.tag (some top.contents) with ⟨text, _, made⟩ | ⟨e, _, made⟩
      · rw [Log.bind_of_ok made, Log.bind_of_ok made]
        have left := write_behind output lines ⟨rest, written, line⟩ (top.tag.indent ++ text)
        simp only [State.behind] at left
        simp only [Log.emit_bind, pure, Log.ok, left]
        exact ⟨trivial, rfl⟩
      · rw [Log.bind_of_error made, Log.bind_of_error made]
        exact ⟨rfl, rfl⟩

theorem entries_behind (p : Processor) (s : State) (m : Match Directive) :
    p.entries (s.behind output lines) m = (p.entries s m).map (Entry.later lines) := by
  have ends := (step_behind output lines p s m).2
  unfold entries
  rw [ends]
  obtain ⟨stack, written, line⟩ := s
  generalize (p.step ⟨stack, written, line⟩ m).outcome = outcome
  cases m.value with
  | opening tag => cases alone : tag.selfClosing <;> simp [alone, Entry.later]
  | closing =>
    cases stack with
    | nil =>
      simp [State.behind, Entry.later]
      omega
    | cons top rest =>
      cases outcome <;> simp [State.behind, Open.later, Entry.later, Except.mapError, Except.map,
        Except.isOk, Except.toBool]

theorem finish_behind (s : State) (tail : List Char) :
    (finish (s.behind output lines) tail).outcome =
      ((finish s tail).outcome.mapError (DocumentError.later lines)).map (output ++ ·) := by
  obtain ⟨_ | ⟨top, rest⟩, written, line⟩ := s
  · simp [finish, State.behind, pure, Log.ok, Except.mapError, Except.map, String.append_assoc]
  · rfl

theorem note_behind (p : Processor) (s : State) (m : Match Directive) :
    p.note (s.behind output lines) m =
      (p.note s m).map (Entry.later lines) (DocumentError.later lines) >>=
        fun next => pure (next.behind output lines) := by
  obtain ⟨asked, ends⟩ := step_behind output lines p s m
  simp only [note, entries_behind, asked, ends, Log.map]
  cases (p.step s m).outcome <;> simp [bind, Log.andThen, pure, Log.ok, Except.mapError, Except.map]

/-- A run from a state with more before it is the run from the state alone, with that text
before what it makes and its lines counted on. -/
theorem tell_behind (p : Processor) (s : State) (ms : List (Match Directive)) (tail : List Char) :
    p.tell (s.behind output lines) ms tail =
      (p.tell s ms tail).map (Entry.later lines) (DocumentError.later lines) >>=
        fun text => pure (output ++ text) := by
  induction ms generalizing s with
  | nil =>
    simp only [tell, finish_behind, Log.map]
    cases (finish s tail).outcome <;>
      simp [bind, Log.andThen, pure, Log.ok, Except.mapError, Except.map]
  | cons m ms ih =>
    rw [tell, tell, note_behind, Log.map_bind, Log.bind_assoc, Log.bind_assoc]
    congr 1
    funext next
    rw [Log.pure_bind, ih]

end behind

theorem glue_eq (ms : List (Match Directive)) (tail : List Char)
    (second : List (Match Directive) × List Char) :
    glue (ms, tail) second = (ms ++ (glue ([], tail) second).1, (glue ([], tail) second).2) := by
  obtain ⟨found, left⟩ := second
  cases found <;> simp [glue]

theorem entries_advance (p : Processor) (s : State) (text : List Char) (m : Match Directive) :
    p.note s { m with before := text ++ m.before } = p.note (s.advance text) m := by
  have further : s.advance (text ++ m.before) = (s.advance text).advance m.before := by
    obtain ⟨_ | ⟨top, rest⟩, written, line⟩ := s <;>
      simp [State.advance, State.write, lineFeeds_append, String.append_assoc, Nat.add_assoc]
  have steps : p.step s { m with before := text ++ m.before } = p.step (s.advance text) m := by
    simp only [step, further]
  simp only [note, steps, Log.mk.injEq, and_true]
  unfold entries
  rw [steps]
  obtain ⟨_ | ⟨top, rest⟩, written, line⟩ := s <;> cases value : m.value <;>
    simp [State.advance, State.write, lineFeeds_append, String.append_assoc, Nat.add_assoc]

theorem tell_glue (p : Processor) (s : State) (text : List Char)
    (second : List (Match Directive) × List Char) :
    p.tell s (glue ([], text) second).1 (glue ([], text) second).2 =
      p.tell (s.advance text) second.1 second.2 := by
  obtain ⟨_ | ⟨m, ms⟩, tail⟩ := second
  · obtain ⟨_ | ⟨top, rest⟩, written, line⟩ := s <;>
      simp [glue, tell, finish, State.advance, State.write, String.append_assoc]
  · simp only [glue, List.nil_append, tell, entries_advance]

theorem through_line {s s' : State} {ms : List (Match Directive)}
    (made : (p.through s ms).outcome = .ok s') : s'.line = s.line + linesBefore ms := by
  induction ms generalizing s with
  | nil =>
    obtain rfl := Except.ok.inj made
    rfl
  | cons m ms ih =>
    have move := p.step_move s m
    rw [through, List.foldlM_cons] at made
    cases stepped : (p.step s m).outcome with
    | error e =>
      rw [Log.bind_of_error (t := p.note s m) stepped] at made
      cases made
    | ok next =>
      rw [Log.bind_of_ok (t := p.note s m) stepped] at made
      have lines : next.line = s.line + lineFeeds m.before := by
        rw [stepped] at move
        generalize (p.step s m).events = events at move
        cases move <;> simp
      have rest := ih made
      rw [lines] at rest
      simp [rest, linesBefore, lineFeeds_append, Nat.add_assoc]

theorem account_append (p : Processor) {first : String} (ended : EndsLine first.toList)
    (second : String) :
    p.account (first ++ second) = p.through State.start (p.tag.scan first).1 >>= fun next =>
      p.tell (next.advance (p.tag.scan first).2) (p.tag.scan second).1 (p.tag.scan second).2 := by
  rw [account, p.tag.scan_append ended, glue_eq, tell_append]
  simp only [tell_glue]

/-- The state behind a document of whole lines is the one that a document starts with,
with that text and those lines before it. -/
theorem advance_of_finish {first output : String} {next : State}
    (gone : (p.through State.start (p.tag.scan first).1).outcome = .ok next)
    (made : (finish next (p.tag.scan first).2).outcome = .ok output) :
    next.advance (p.tag.scan first).2 = State.start.behind output (lineFeeds first.toList) := by
  have line := through_line gone
  have lines : lineFeeds first.toList =
      linesBefore (p.tag.scan first).1 + lineFeeds (p.tag.scan first).2 := by
    conv_lhs => rw [p.tag.scan_covered first]
    rw [lineFeeds_append, lineFeeds_covered fun m inside => Tag.scan_inline inside]
  obtain ⟨_ | ⟨top, rest⟩, written, count⟩ := next
  · obtain rfl := Except.ok.inj made
    simp only [State.advance, State.write, State.behind, State.start, List.map_nil,
      String.append_empty, State.mk.injEq, true_and]
    change count = 1 + linesBefore _ at line
    omega
  · cases made

theorem account_of_ok {first output : String} (ended : EndsLine first.toList)
    (made : (p.account first).outcome = .ok output) (second : String) :
    p.account (first ++ second) = p.account first >>= fun output =>
      (p.account second).map (Entry.later (lineFeeds first.toList))
        (DocumentError.later (lineFeeds first.toList)) >>= fun text => pure (output ++ text) := by
  have whole := p.tell_through State.start (p.tag.scan first).1 (p.tag.scan first).2
  change p.account first = _ at whole
  rw [whole] at made ⊢
  rw [p.account_append ended, Log.bind_assoc]
  cases gone : (p.through State.start (p.tag.scan first).1).outcome with
  | error e =>
    rw [Log.bind_of_error gone] at made
    cases made
  | ok next =>
    rw [Log.bind_of_ok gone] at made
    have state := advance_of_finish gone made
    have here : (⟨[], [], (finish next (p.tag.scan first).2).outcome⟩ :
        Log Entry DocumentError String) = pure output := by
      rw [show (finish next (p.tag.scan first).2).outcome = .ok output from made]
      rfl
    rw [Log.bind_of_ok gone, Log.bind_of_ok gone, state, here, Log.pure_bind, tell_behind]
    rfl

theorem account_of_stop {first kind : String} {e : HandlerError} (ended : EndsLine first.toList)
    (stops : (p.account first).outcome = .error (.handler kind e)) (second : String) :
    p.account (first ++ second) = p.account first := by
  have whole := p.tell_through State.start (p.tag.scan first).1 (p.tag.scan first).2
  change p.account first = _ at whole
  rw [whole] at stops ⊢
  rw [p.account_append ended]
  cases gone : (p.through State.start (p.tag.scan first).1).outcome with
  | error e => rw [Log.bind_of_error gone, Log.bind_of_error gone]
  | ok next =>
    rw [Log.bind_of_ok gone] at stops
    obtain ⟨_ | ⟨top, rest⟩, written, line⟩ := next
    · cases stops
    · cases stops

/-- A document of whole lines that becomes a text, and what is put behind it: the texts and
the reports of the two follow one another, and so do the failures of the second. Its lines
alone are counted on, in what the processor itself says of end tags. A handler that stops the
first document stops them both. -/
theorem process_append (p : Processor) {first : String} (ended : EndsLine first.toList)
    (second : String) :
    (∀ document, p.process document = (p.account document).expand (Entry.events p)) ∧
    (∀ output, (p.process first).outcome = .ok output →
      (p.process (first ++ second)).events = (p.process first).events ++
        ((p.account second).events.map (Entry.later (first.toList.count '\n'))).flatMap
          (Entry.events p) ∧
      (p.process (first ++ second)).asked = (p.process first).asked ++ (p.process second).asked ∧
      (p.process (first ++ second)).outcome = match (p.process second).outcome with
        | .ok text => .ok (output ++ text)
        | .error e => .error (e.later (first.toList.count '\n'))) ∧
    ∀ kind e, (p.process first).outcome = .error (.handler kind e) →
      p.process (first ++ second) = p.process first := by
  have lines : first.toList.count '\n' = lineFeeds first.toList := rfl
  refine ⟨p.process_account, ?_, ?_⟩
  · intro output made
    rw [lines]
    simp only [process_account, Log.expand] at made ⊢
    rw [account_of_ok ended made, Log.bind_of_ok made]
    cases ends : (p.account second).outcome with
    | ok text =>
      simp [Log.map, bind, Log.andThen, ends, pure, Log.ok, Except.mapError, List.flatMap_append]
    | error e =>
      simp [Log.map, bind, Log.andThen, ends, Except.mapError, List.flatMap_append]
  · intro kind e stops
    simp only [process_account, Log.expand] at stops ⊢
    rw [account_of_stop ended stops]

/-- An end tag that is left over on the second line of the second document. -/
theorem process_append_stray :
    ∃ p : Processor, ∃ first second : String, EndsLine first.toList ∧
      first = "<p>\n  <!--build:note/-->\n" ∧ second = "\n<!--endbuild-->" ∧
      (p.process (first ++ second)).outcome = .ok "<p>\n  \n\n<!--endbuild-->" ∧
      Event.warnings (p.process (first ++ second)).events =
        [strayMessage 4 "<!--endbuild-->"] := by
  have ended : EndsLine "<p>\n  <!--build:note/-->\n".toList := by decide
  obtain ⟨_, appended, _⟩ := process_append (standard fun _ => true) ended "\n<!--endbuild-->"
  obtain ⟨events, _, outcome⟩ := appended "<p>\n  \n" (by decide +kernel)
  refine ⟨standard fun _ => true, _, _, by decide, rfl, rfl, ?_, ?_⟩
  · rw [outcome]
    decide +kernel
  · rw [events]
    decide +kernel

end Processor
end AssetBlocks
