import AssetBlocks.Proofs.Steps

/-! The structure of blocks does not depend on handlers. A run in which no kind has a
handler has the structure of the document; every other run goes beside it, and shows the
same structure up to where one of its handlers fails. -/
namespace AssetBlocks

/-- What an event says about the structure of blocks: not their contents. -/
def Event.outline? : Event → Option Event
  | .blockBegin kind args beginTag => some (.blockBegin kind args beginTag)
  | .blockSingle kind args beginTag => some (.blockSingle kind args beginTag)
  | .blockEnd kind args beginTag _ => some (.blockEnd kind args beginTag "")
  | _ => none

namespace Log
variable {ε α β : Type}

def outline (t : Log Event ε α) : List Event := t.events.filterMap Event.outline?

theorem outline_bind_of_ok {first : Log Event ε α} {a : α} (made : first.outcome = .ok a)
    (next : α → Log Event ε β) : (first >>= next).outline = first.outline ++ (next a).outline := by
  rw [bind_of_ok made]
  exact List.filterMap_append

theorem outline_prefix_bind (first : Log Event ε α) (next : α → Log Event ε β) :
    first.outline <+: (first >>= next).outline := by
  cases made : first.outcome with
  | error e =>
    rw [bind_of_error made]
    exact List.prefix_rfl
  | ok a =>
    rw [outline_bind_of_ok made]
    exact List.prefix_append _ _

end Log

def HandlerStops {α : Type} (outcome : Except DocumentError α) : Prop :=
  ∃ kind e, outcome = .error (.handler kind e)

namespace Processor
open Text

variable {p : Processor} {tag : Tag} {s t : State} {m : Match Directive}

/-- A processor for which no kind has a handler. -/
def unhandled (tag : Tag) : Processor := ⟨tag, .empty, ⟨⟨""⟩, ⟨""⟩, "", fun _ => false⟩⟩

def Open.outline (block : Open) : Open := { block with contents := "" }

/-- States that differ in texts only: the same blocks are open, on the same line. -/
structure Alike (s t : State) : Prop where
  stack : s.stack.map Open.outline = t.stack.map Open.outline
  line : s.line = t.line

theorem outline_reports (reports : List Report) :
    (reports.map Report.event).filterMap Event.outline? = [] := by
  apply List.filterMap_eq_nil_iff.mpr
  intro event inside
  obtain ⟨report, _, rfl⟩ := List.mem_map.mp inside
  cases report <;> rfl

theorem Open.outline_eq {a b : Open} (same : a.outline = b.outline) :
    a.tag = b.tag ∧ a.text = b.text ∧ a.line = b.line := by
  simpa [outline] using same

namespace Alike

theorem write (same : Alike s t) (text text' : String) : Alike (s.write text) (t.write text') := by
  refine ⟨?_, by rw [State.write_line, State.write_line, same.line]⟩
  have blocks := same.stack
  obtain ⟨stack, _, _⟩ := s
  obtain ⟨stack', _, _⟩ := t
  cases stack with
  | nil =>
    obtain rfl : stack' = [] := by simpa using blocks.symm
    rfl
  | cons top rest =>
    cases stack' with
    | nil => cases blocks
    | cons top' rest' => simpa [State.write, Open.outline] using blocks

theorem advance (same : Alike s t) (text : List Char) : Alike (s.advance text) (t.advance text) :=
  ⟨(same.write _ _).stack, by rw [State.advance_line, State.advance_line, same.line]⟩

theorem enter (same : Alike s t) (m : Match Directive) (tag : BeginTag) :
    Alike (s.enter m tag) (t.enter m tag) := by
  refine ⟨?_, (same.advance m.before).line⟩
  simp only [State.enter, List.map_cons, (same.advance m.before).stack, same.line, Open.outline]

theorem outside (same : Alike s t) (empty : s.stack = []) : t.stack = [] := by
  simpa [empty] using same.stack.symm

theorem inside (same : Alike s t) {top : Open} {rest : List Open} (opened : s.stack = top :: rest) :
    ∃ top' rest', t.stack = top' :: rest' ∧ top.outline = top'.outline ∧
      rest.map Open.outline = rest'.map Open.outline := by
  have blocks := same.stack
  rw [opened] at blocks
  cases inside : t.stack with
  | nil => simp [inside] at blocks
  | cons top' rest' =>
    rw [inside, List.map_cons, List.map_cons, List.cons.injEq] at blocks
    exact ⟨top', rest', rfl, blocks⟩

end Alike

section unhandled
variable {t : State} {b : BeginTag}

theorem unhandled_opened (value : m.value = .opening b) (more : b.selfClosing = false) :
    (unhandled tag).step t m =
      ⟨[.blockBegin b.kind b.args (String.ofList m.text)], [], .ok (t.enter m b)⟩ := by
  simp only [step, value, openBlock, more]
  rfl

theorem unhandled_single (value : m.value = .opening b) (alone : b.selfClosing = true) :
    (unhandled tag).step t m = ⟨[.blockSingle b.kind b.args (String.ofList m.text)], [],
      .ok ((t.advance m.before).write (b.indent ++ ""))⟩ := by
  simp only [step, value, openBlock, alone]
  rfl

theorem unhandled_stray (value : m.value = .closing) (outside : t.stack = []) :
    (unhandled tag).step t m =
      ⟨[.warning (strayMessage (t.line + lineFeeds m.before) (String.ofList m.text))], [],
        .ok ((t.advance m.before).write (String.ofList m.text))⟩ := by
  obtain ⟨stack, output, line⟩ := t
  change stack = [] at outside
  subst outside
  simp only [step, value]
  rfl

theorem unhandled_closed (value : m.value = .closing) {top : Open} {rest : List Open}
    (inside : t.stack = top :: rest) :
    (unhandled tag).step t m =
      ⟨[.blockEnd top.tag.kind top.tag.args top.text (top.contents ++ String.ofList m.before)], [],
        .ok (State.write { t with stack := rest, line := t.line + lineFeeds m.before }
          (top.tag.indent ++ ""))⟩ := by
  obtain ⟨stack, output, line⟩ := t
  change stack = top :: rest at inside
  subst inside
  simp only [step, value, State.advance_inside, closeBlock]
  rfl

end unhandled

/-- One step beside one without handlers: the same structure and the same blocks open
behind it, or a part of the structure and a handler that fails. -/
theorem step_alike (p : Processor) (tag : Tag) (same : Alike s t) (m : Match Directive) :
    (p.step s m).outline <+: ((unhandled tag).step t m).outline ∧
    (HandlerStops (p.step s m).outcome ∨
      (p.step s m).outline = ((unhandled tag).step t m).outline ∧
      ∃ s' t', (p.step s m).outcome = .ok s' ∧ ((unhandled tag).step t m).outcome = .ok t' ∧
        Alike s' t') := by
  have move := p.step_move s m
  simp only [Log.outline]
  generalize (p.step s m).events = events at move ⊢
  generalize (p.step s m).outcome = outcome at move ⊢
  cases move with
  | opened value more =>
    rw [unhandled_opened value more]
    exact ⟨List.prefix_rfl, Or.inr ⟨rfl, _, _, rfl, rfl, same.enter m _⟩⟩
  | single value alone becomes =>
    rw [unhandled_single value alone]
    simp only [List.filterMap_cons, outline_reports, List.filterMap_nil, true_and]
    exact ⟨List.prefix_rfl, Or.inr ⟨_, _, rfl, rfl, (same.advance _).write _ _⟩⟩
  | singleFailed value alone fails =>
    rw [unhandled_single value alone]
    simp only [List.filterMap_cons, outline_reports, List.filterMap_nil]
    exact ⟨List.prefix_rfl, Or.inl ⟨_, _, rfl⟩⟩
  | stray value outside =>
    rw [unhandled_stray value (same.outside outside)]
    exact ⟨List.prefix_rfl, Or.inr ⟨rfl, _, _, rfl, rfl, (same.advance _).write _ _⟩⟩
  | closed value inside becomes =>
    obtain ⟨top', rest', inside', tops, rests⟩ := same.inside inside
    obtain ⟨tags, texts, _⟩ := Open.outline_eq tops
    have left : Alike ⟨_, s.output, s.line + lineFeeds m.before⟩
        ⟨rest', t.output, t.line + lineFeeds m.before⟩ := ⟨rests, by rw [same.line]⟩
    rw [unhandled_closed value inside']
    simp only [List.filterMap_append, outline_reports, List.filterMap_cons, Event.outline?,
      List.filterMap_nil, List.nil_append, tags, texts, true_and]
    exact ⟨List.prefix_rfl, Or.inr ⟨_, _, rfl, rfl, left.write _ _⟩⟩
  | closeFailed value inside fails =>
    obtain ⟨top', rest', inside', _, _⟩ := same.inside inside
    rw [unhandled_closed value inside', outline_reports]
    exact ⟨List.nil_prefix, Or.inl ⟨_, _, rfl⟩⟩

theorem finish_alike (same : Alike s t) (tail : List Char) :
    (finish s tail).outline = (finish t tail).outline ∧ ∀ line text,
      (finish s tail).outcome = .error (.missingEndTag line text) ↔
        (finish t tail).outcome = .error (.missingEndTag line text) := by
  unfold finish
  cases opened : s.stack with
  | nil =>
    rw [same.outside opened]
    exact ⟨rfl, fun _ _ => iff_of_false (fun h => by cases h) (fun h => by cases h)⟩
  | cons top rest =>
    obtain ⟨top', rest', inside, tops, _⟩ := same.inside opened
    obtain ⟨_, texts, lines⟩ := Open.outline_eq tops
    simp only [inside, texts, lines, implies_true, and_self]

/-- A run beside the one without handlers, from states that differ in texts only. -/
theorem run_alike (p : Processor) (tag : Tag) (same : Alike s t) (ms : List (Match Directive))
    (tail : List Char) :
    (p.run s ms tail).outline <+: ((unhandled tag).run t ms tail).outline ∧
    (HandlerStops (p.run s ms tail).outcome ∨
      (p.run s ms tail).outline = ((unhandled tag).run t ms tail).outline ∧
      ∀ line text, (p.run s ms tail).outcome = .error (.missingEndTag line text) ↔
        ((unhandled tag).run t ms tail).outcome = .error (.missingEndTag line text)) := by
  induction ms generalizing s t with
  | nil =>
    obtain ⟨outlines, missing⟩ := finish_alike same tail
    simp only [run, outlines]
    exact ⟨List.prefix_rfl, Or.inr ⟨trivial, missing⟩⟩
  | cons m ms ih =>
    obtain ⟨within, stops | ⟨outlines, s', t', made, made', further⟩⟩ := p.step_alike tag same m
    · obtain ⟨kind, e, failed⟩ := stops
      rw [run, Log.bind_of_error failed]
      exact ⟨within.trans (Log.outline_prefix_bind _ _), Or.inl ⟨kind, e, rfl⟩⟩
    · have runs : (p.run s (m :: ms) tail).outcome = (p.run s' ms tail).outcome := by
        rw [run, Log.bind_of_ok made]
      have runs' : ((unhandled tag).run t (m :: ms) tail).outcome =
          ((unhandled tag).run t' ms tail).outcome := by
        rw [run, Log.bind_of_ok made']
      rw [runs, runs', run, run, Log.outline_bind_of_ok made, Log.outline_bind_of_ok made',
        outlines, List.prefix_append_right_inj, List.append_cancel_left_eq]
      exact ih further

/-- Two processors of one tag find the same structure in a document, whatever their
handlers do with it: each shows a part of it, and the whole of it unless a handler stops
the run. Missing end tags are part of the structure too. -/
theorem process_outline (tag : Tag) (registry registry' : Registry) (context context' : Context)
    (document : String) :
    let first := Processor.process ⟨tag, registry, context⟩ document
    let second := Processor.process ⟨tag, registry', context'⟩ document
    (first.outline <+: second.outline ∨ second.outline <+: first.outline) ∧
    (¬ HandlerStops first.outcome → ¬ HandlerStops second.outcome →
      first.outline = second.outline) ∧
    (∀ line text, first.outcome = .error (.missingEndTag line text) →
      second.outcome = .error (.missingEndTag line text) ∨ HandlerStops second.outcome) ∧
    (∀ output, first.outcome = .ok output →
      ∀ line text, second.outcome ≠ .error (.missingEndTag line text)) := by
  intro first second
  -- The two runs are not compared with each other: both go beside the one without handlers.
  have start : Alike State.start State.start := ⟨rfl, rfl⟩
  obtain ⟨within, ends⟩ := run_alike ⟨tag, registry, context⟩ tag start
    (tag.scan document).1 (tag.scan document).2
  obtain ⟨within', ends'⟩ := run_alike ⟨tag, registry', context'⟩ tag start
    (tag.scan document).1 (tag.scan document).2
  change first.outline <+: _ at within
  change second.outline <+: _ at within'
  change HandlerStops first.outcome ∨ first.outline = _ ∧
    ∀ line text, first.outcome = _ ↔ _ at ends
  change HandlerStops second.outcome ∨ second.outline = _ ∧
    ∀ line text, second.outcome = _ ↔ _ at ends'
  refine ⟨List.prefix_or_prefix_of_prefix within within', ?_, ?_, ?_⟩
  · intro runs runs'
    obtain ⟨outlines, _⟩ := ends.resolve_left runs
    obtain ⟨outlines', _⟩ := ends'.resolve_left runs'
    rw [outlines, outlines']
  · intro line text missed
    rcases ends with ⟨_, _, stops⟩ | ⟨_, missing⟩
    · cases missed.symm.trans stops
    · rcases ends' with stops' | ⟨_, missing'⟩
      · exact Or.inr stops'
      · exact Or.inl ((missing' line text).mpr ((missing line text).mp missed))
  · intro output made line text missed'
    rcases ends with ⟨_, _, stops⟩ | ⟨_, missing⟩
    · cases made.symm.trans stops
    · rcases ends' with ⟨_, _, stops'⟩ | ⟨_, missing'⟩
      · cases missed'.symm.trans stops'
      · have missed := (missing line text).mpr ((missing' line text).mp missed')
        cases made.symm.trans missed

end Processor
end AssetBlocks
