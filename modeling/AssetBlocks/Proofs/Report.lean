import AssetBlocks.Proofs.Resolution

/-! What is reported of a document, in order. The reports of the processor about blocks
stand in one another like the blocks themselves, and what a handler reports stands in one
place: behind the blocks inside its own, and before the end of that. -/
namespace AssetBlocks
open Text Pairing

namespace Event

def beginsBlock : Event → Bool
  | blockBegin .. => true
  | blockSingle .. => true
  | _ => false

def endsBlock : Event → Bool
  | blockEnd .. => true
  | _ => false

def ofBlock (event : Event) : Bool := event.beginsBlock || event.endsBlock

/-- Blocks one behind the other. A block that is begun is ended with the same kind,
arguments and begin tag, with whole blocks between. -/
inductive Balanced : List Event → Prop
  | nil : Balanced []
  | append {events more : List Event} (first : Balanced events) (second : Balanced more) :
      Balanced (events ++ more)
  | single {kind beginTag : String} {args : Option String} :
      Balanced [.blockSingle kind args beginTag]
  | block {kind beginTag contents : String} {args : Option String} {inner : List Event}
      (inside : Balanced inner) :
      Balanced (.blockBegin kind args beginTag ::
        (inner ++ [.blockEnd kind args beginTag contents]))

theorem beginsBlock_report (report : Report) : report.event.beginsBlock = false := by
  cases report <;> rfl

theorem endsBlock_report (report : Report) : report.event.endsBlock = false := by
  cases report <;> rfl

theorem filter_reports {test : Event → Bool} (silent : ∀ report : Report, test report.event = false)
    (reports : List Report) : (reports.map Report.event).filter test = [] := by
  rw [List.filter_eq_nil_iff]
  intro event inside
  obtain ⟨report, _, rfl⟩ := List.mem_map.mp inside
  simp [silent]

@[simp] theorem filter_beginsBlock_reports (reports : List Report) :
    (reports.map Report.event).filter beginsBlock = [] :=
  filter_reports beginsBlock_report reports

@[simp] theorem filter_ofBlock_reports (reports : List Report) :
    (reports.map Report.event).filter ofBlock = [] :=
  filter_reports (fun report => by simp [ofBlock, beginsBlock_report, endsBlock_report]) reports

theorem countP_endsBlock_reports (reports : List Report) :
    (reports.map Report.event).countP endsBlock = 0 := by
  rw [List.countP_eq_length_filter, filter_reports endsBlock_report, List.length_nil]

end Event

namespace Processor
variable {p : Processor}

/-- A part of what is reported, with who reports it. -/
inductive Entry
  | opened (tag : BeginTag) (text : String)
  | closed (tag : BeginTag) (text contents : String)
  | single (tag : BeginTag) (text : String)
  /-- An end tag that is left over. -/
  | stray (line : Nat) (text : String)
  /-- All that the handler of a block reports, with the contents it is given. -/
  | handled (tag : BeginTag) (contents : Option String)

namespace Entry

def events (p : Processor) : Entry → List Event
  | opened tag text => [.blockBegin tag.kind tag.args text]
  | closed tag text contents => [.blockEnd tag.kind tag.args text contents]
  | single tag text => [.blockSingle tag.kind tag.args text]
  | stray line text => [.warning (strayMessage line text)]
  | handled tag contents => (p.reports tag contents).map Report.event

def isStray : Entry → Bool
  | stray .. => true
  | _ => false

end Entry

/-- The form that reports have, outside of all blocks or in one. The reports of a handler
come behind those of the blocks inside its own, right before its end, or right behind a
self-closing tag. Only outside of all blocks are end tags left over. -/
inductive Word : Bool → List Entry → Prop
  | nil {outside : Bool} : Word outside []
  | append {outside : Bool} {entries more : List Entry} (first : Word outside entries)
      (second : Word outside more) : Word outside (entries ++ more)
  | stray (line : Nat) (text : String) : Word true [.stray line text]
  | single {outside : Bool} {tag : BeginTag} (text : String) (alone : tag.selfClosing = true) :
      Word outside [.single tag text, .handled tag none]
  | block {outside : Bool} {tag : BeginTag} {inner : List Entry} (text contents : String)
      (more : tag.selfClosing = false) (inside : Word false inner) :
      Word outside (.opened tag text ::
        (inner ++ [.handled tag (some contents), .closed tag text contents]))

theorem Word.anywhere {outside : Bool} {entries : List Entry} (word : Word false entries) :
    Word outside entries := by
  generalize inside : false = flag at word
  induction word with
  | nil => exact .nil
  | append _ _ ihFirst ihSecond => exact .append (ihFirst inside) (ihSecond inside)
  | stray => cases inside
  | single text alone => exact .single text alone
  | block text contents more inner _ => exact .block text contents more inner

theorem Word.balanced {outside : Bool} {entries : List Entry} (word : Word outside entries) :
    Event.Balanced ((entries.flatMap (Entry.events p)).filter Event.ofBlock) := by
  induction word with
  | nil => exact .nil
  | append _ _ ihFirst ihSecond =>
    rw [List.flatMap_append, List.filter_append]
    exact .append ihFirst ihSecond
  | stray => exact .nil
  | @single _ tag text _ =>
    have one : Event.Balanced [.blockSingle tag.kind tag.args text] := .single
    simpa [Entry.events, Event.ofBlock, Event.beginsBlock, Event.endsBlock] using one
  | @block _ tag _ text contents _ _ ih =>
    have whole : Event.Balanced (.blockBegin tag.kind tag.args text ::
        (_ ++ [.blockEnd tag.kind tag.args text contents])) := .block ih
    simpa [Entry.events, Event.ofBlock, Event.beginsBlock, Event.endsBlock] using whole

/-- What is reported of directives that are all resolved. The contents that a handler is
given are those that its block has in the document. -/
inductive Reported (p : Processor) : Bool → List (Match Directive) → List Entry → Prop
  | nil {outside : Bool} : Reported p outside [] []
  | append {outside : Bool} {ms more : List (Match Directive)} {entries entries' : List Entry}
      (first : Reported p outside ms entries) (second : Reported p outside more entries') :
      Reported p outside (ms ++ more) (entries ++ entries')
  | stray {m : Match Directive} (line : Nat) (value : m.value = .closing) :
      Reported p true [m] [.stray line (String.ofList m.text)]
  | single {outside : Bool} {m : Match Directive} {tag : BeginTag}
      (value : m.value = .opening tag) (alone : tag.selfClosing = true) :
      Reported p outside [m] [.single tag (String.ofList m.text), .handled tag none]
  | block {outside : Bool} {m close : Match Directive} {inner : List (Match Directive)}
      {tag : BeginTag} {contents : String} {entries : List Entry}
      (value : m.value = .opening tag) (paired : Paired m inner close)
      (inside : Reported p false inner entries) (rewritten : Rewritten p inner contents) :
      Reported p outside (m :: (inner ++ [close])) (.opened tag (String.ofList m.text) ::
        (entries ++ [.handled tag (some (contents ++ String.ofList close.before)),
          .closed tag (String.ofList m.text) (contents ++ String.ofList close.before)]))

namespace Reported
variable {outside : Bool} {ms : List (Match Directive)} {entries : List Entry}

theorem word (reported : Reported p outside ms entries) : Word outside entries := by
  induction reported with
  | nil => exact .nil
  | append _ _ ihFirst ihSecond => exact .append ihFirst ihSecond
  | stray line => exact .stray line _
  | single _ alone => exact .single _ alone
  | block value paired _ _ ih => exact .block _ _ (selfClosing_of_opens paired.opens value) ih

theorem anywhere (reported : Reported p false ms entries) : Reported p outside ms entries := by
  generalize inside : false = flag at reported
  induction reported with
  | nil => exact .nil
  | append _ _ ihFirst ihSecond => exact .append (ihFirst inside) (ihSecond inside)
  | stray => cases inside
  | single value alone => exact .single value alone
  | block value paired inner rewritten _ => exact .block value paired inner rewritten

end Reported

def beginEvent? (m : Match Directive) : Option Event :=
  match m.value with
  | .opening tag =>
    if tag.selfClosing then some (.blockSingle tag.kind tag.args (String.ofList m.text))
    else some (.blockBegin tag.kind tag.args (String.ofList m.text))
  | .closing => none

/-- What is reported of directives while the blocks of a stack are open: resolved ones, and
behind them each begin tag that is still to be closed, with resolved ones behind it. -/
inductive Told (p : Processor) : List (Match Directive) → List Entry → List Open → Prop
  | outside {ms : List (Match Directive)} {entries : List Entry}
      (reported : Reported p true ms entries) : Told p ms entries []
  | inside {outer inner : List (Match Directive)} {m : Match Directive}
      {entries entries' : List Entry} (top : Open) {stack : List Open}
      (around : Told p outer entries stack) (value : m.value = .opening top.tag)
      (opened : opens m = true) (text : top.text = String.ofList m.text) (level : Level inner)
      (reported : Reported p false inner entries') :
      Told p (outer ++ m :: inner) (entries ++ .opened top.tag top.text :: entries') (top :: stack)

namespace Told
variable {done : List (Match Directive)} {entries : List Entry} {stack : List Open}

theorem of_outside (told : Told p done entries []) : Reported p true done entries := by
  cases told with
  | outside reported => exact reported

theorem write {s : State} (told : Told p done entries s.stack) (text : String) :
    Told p done entries (s.write text).stack := by
  obtain ⟨stack, output, line⟩ := s
  change Told p done entries stack at told
  cases told with
  | outside reported => exact .outside reported
  | inside top around value opened same level reported =>
    exact .inside { top with contents := top.contents ++ text } around value opened same level
      reported

theorem extend {ms : List (Match Directive)} {new : List Entry} (told : Told p done entries stack)
    (reported : Reported p false ms new) (level : Level ms) :
    Told p (done ++ ms) (entries ++ new) stack := by
  cases told with
  | outside before => exact .outside (before.append reported.anywhere)
  | inside top around value opened text level' before =>
    rw [List.append_assoc, List.append_assoc, List.cons_append, List.cons_append]
    exact .inside top around value opened text (level'.append level) (before.append reported)

theorem completes {new : List Entry} (told : Told p done entries stack) (word : Word false new) :
    ∃ rest, Word true (entries ++ new ++ rest) := by
  induction told generalizing new with
  | outside before => exact ⟨[], by simpa using before.word.append word.anywhere⟩
  | inside top _ value opened _ _ before ih =>
    have more := selfClosing_of_opens opened value
    obtain ⟨rest, whole⟩ := ih (.block top.text "" more (before.word.append word))
    refine ⟨.handled top.tag (some "") :: .closed top.tag top.text "" :: rest, ?_⟩
    simpa using whole

/-- The block that an end tag closes, and what is reported before it. -/
theorem closing {s : State} {top : Open} {m : Match Directive} (told : Told p done entries s.stack)
    (follows : Follows p done s) (inside : s.stack = top :: stack) (value : m.value = .closing) :
    ∃ outer block before inner, done ++ [m] = outer ++ block ∧
      entries = before ++ .opened top.tag top.text :: inner ∧ Told p outer before stack ∧
      Level block ∧ Reported p false block (.opened top.tag top.text ::
        (inner ++ [.handled top.tag (some (top.contents ++ String.ofList m.before)),
          .closed top.tag top.text (top.contents ++ String.ofList m.before)])) := by
  have frames := follows.frames
  rw [inside] at told frames
  obtain ⟨outer', first', inner', contents, split, _, value', opened', level', rewritten, made⟩ :=
    frames.of_inside
  cases told with
  | @inside outer ms first before entries' _ _ around value'' opened text level reported =>
    obtain ⟨rfl, rfl, rfl⟩ := level.begin_unique level' opened opened' split
    have c := closes_of_value value
    have block : Reported p false _ _ :=
      .block value'' (paired_iff.mpr ⟨opened, c, level⟩) reported rewritten
    refine ⟨outer, first :: (ms ++ [m]), before, entries', by simp, rfl, around,
      level.block opened c, ?_⟩
    rw [text]
    rw [made]
    simpa using block

/-- What a step that succeeds adds to the reports. Each end tag ends a block, or it is
left over. -/
theorem step {events : List Event} {s s' : State} {m : Match Directive}
    (told : Told p done entries s.stack) (follows : Follows p done s)
    (move : Move p s m events (.ok s')) :
    ∃ new, events = new.flatMap (Entry.events p) ∧ Told p (done ++ [m]) (entries ++ new) s'.stack ∧
      events.countP Event.endsBlock + new.countP Entry.isStray = [m].countP closes := by
  have passed : Told p done entries (s.advance m.before).stack := told.write _
  cases move with
  | @opened tag value more =>
    refine ⟨[.opened tag (String.ofList m.text)], rfl, ?_, ?_⟩
    · exact .inside ⟨tag, String.ofList m.text, _, ""⟩ passed value (by simp [opens, value, more])
        rfl .nil .nil
    · simp [closes, value, Event.endsBlock, Entry.isStray]
  | @single tag _ value alone _ =>
    have neither : opens m = false ∧ closes m = false := by simp [opens, closes, value, alone]
    have further := passed.extend (.single value alone) (.single neither.1 neither.2)
    refine ⟨[.single tag (String.ofList m.text), .handled tag none], by simp [Entry.events],
      further.write _, ?_⟩
    rw [List.countP_cons, Event.countP_endsBlock_reports]
    simp [neither.2, Event.endsBlock, Entry.isStray]
  | stray value outside =>
    have left : Told p (done ++ [m])
        (entries ++ [.stray (s.line + lineFeeds m.before) (String.ofList m.text)]) s.stack := by
      rw [outside] at told ⊢
      exact .outside (told.of_outside.append (.stray _ value))
    have further : Told p _ _ (s.advance m.before).stack := left.write _
    refine ⟨[.stray (s.line + lineFeeds m.before) (String.ofList m.text)], rfl, further.write _, ?_⟩
    simp [closes, value, Event.endsBlock, Entry.isStray]
  | @closed top stack text value inside _ =>
    obtain ⟨outer, block, before, inner, split, rfl, around, level, reported⟩ :=
      told.closing follows inside value
    generalize top.contents ++ String.ofList m.before = contents at reported ⊢
    have whole := around.extend reported level
    have left : Told p _ _ (State.mk stack s.output (s.line + lineFeeds m.before)).stack := whole
    refine ⟨[.handled top.tag (some contents), .closed top.tag top.text contents],
      by simp [Entry.events], ?_, ?_⟩
    · rw [split]
      simpa using left.write (top.tag.indent ++ text)
    · rw [List.countP_append, Event.countP_endsBlock_reports]
      simp [closes, value, Event.endsBlock, Entry.isStray]

theorem stop {events : List Event} {s : State} {m : Match Directive} {e : DocumentError}
    (told : Told p done entries s.stack) (follows : Follows p done s)
    (move : Move p s m events (.error e)) :
    ∃ new rest, events = new.flatMap (Entry.events p) ∧ Word true (entries ++ new ++ rest) := by
  cases move with
  | @singleFailed tag _ value alone _ =>
    obtain ⟨rest, whole⟩ := told.completes (.single (String.ofList m.text) alone)
    exact ⟨[.single tag (String.ofList m.text), .handled tag none], rest, by simp [Entry.events],
      whole⟩
  | @closeFailed top _ _ value inside _ =>
    obtain ⟨_, _, _, _, _, rfl, around, _, reported⟩ := told.closing follows inside value
    generalize top.contents ++ String.ofList m.before = contents at reported ⊢
    obtain ⟨rest, whole⟩ := around.completes reported.word
    refine ⟨[.handled top.tag (some contents)], .closed top.tag top.text contents :: rest,
      by simp [Entry.events], ?_⟩
    simpa using whole

end Told

theorem Move.begins {events : List Event} {s : State} {m : Match Directive}
    {outcome : Except DocumentError State} (move : Move p s m events outcome) :
    events.filter Event.beginsBlock = [m].filterMap beginEvent? := by
  cases move with
  | opened value more => simp [beginEvent?, value, more, Event.beginsBlock]
  | single value alone _ => simp [beginEvent?, value, alone, Event.beginsBlock, List.filter_cons]
  | singleFailed value alone _ =>
    simp [beginEvent?, value, alone, Event.beginsBlock, List.filter_cons]
  | stray value _ => simp [beginEvent?, value, Event.beginsBlock]
  | closed value _ _ => simp [beginEvent?, value, Event.beginsBlock]
  | closeFailed value _ _ => simp [beginEvent?, value]

theorem Reaches.begins {done : List (Match Directive)} {events : List Event} {s : State}
    (h : Reaches p done events s) :
    events.filter Event.beginsBlock = done.filterMap beginEvent? := by
  induction h with
  | start => rfl
  | step _ move ih => rw [List.filter_append, List.filterMap_append, ih, move.begins]

theorem Reaches.told {done : List (Match Directive)} {events : List Event} {s : State}
    (h : Reaches p done events s) :
    ∃ entries, events = entries.flatMap (Entry.events p) ∧ Told p done entries s.stack ∧
      events.countP Event.endsBlock + entries.countP Entry.isStray = done.countP closes := by
  induction h with
  | start => exact ⟨[], rfl, .outside .nil, rfl⟩
  | step before move ih =>
    obtain ⟨entries, rfl, told, ends⟩ := ih
    obtain ⟨new, rfl, further, one⟩ := told.step before.follows move
    refine ⟨entries ++ new, by rw [List.flatMap_append], further, ?_⟩
    rw [List.countP_append, List.countP_append, List.countP_append, ← ends, ← one]
    omega

theorem Ends.reported {ms : List (Match Directive)} {tail : List Char} {events : List Event}
    {outcome : Except DocumentError String} (ends : Ends p ms tail events outcome) :
    ∃ entries rest, Word true (entries ++ rest) ∧ events = entries.flatMap (Entry.events p) ∧
      events.filter Event.beginsBlock <+: ms.filterMap beginEvent? := by
  cases ends with
  | finished all =>
    obtain ⟨entries, same, told, _⟩ := all.told
    obtain ⟨rest, whole⟩ := told.completes .nil
    rw [List.append_nil] at whole
    exact ⟨entries, rest, whole, same, [], by rw [all.begins, List.append_nil]⟩
  | @stopped done later m _ _ _ _ split before move =>
    obtain ⟨entries, rfl, told, _⟩ := before.told
    obtain ⟨new, rest, rfl, whole⟩ := told.stop before.follows move
    refine ⟨entries ++ new, rest, whole, by rw [List.flatMap_append], ?_⟩
    refine ⟨later.filterMap beginEvent?, ?_⟩
    rw [List.filter_append, before.begins, move.begins, split, List.append_cons]
    simp only [List.filterMap_append]

/-- The reports of a document. Where it becomes a text, whole blocks are reported one behind
the other, the begin tags among them are those of the document in order, and each end tag
ends a block or is reported to be left over. Where it fails, the reports stop before what
would make them such ones. -/
theorem process_events (p : Processor) (document : String) :
    (∀ output, (p.process document).outcome = .ok output →
      ∃ entries, Reported p true (p.tag.scan document).1 entries ∧ Word true entries ∧
        (p.process document).events = entries.flatMap (Entry.events p) ∧
        Event.Balanced ((p.process document).events.filter Event.ofBlock) ∧
        (p.process document).events.filter Event.beginsBlock =
          (p.tag.scan document).1.filterMap beginEvent? ∧
        (p.process document).events.countP Event.endsBlock + entries.countP Entry.isStray =
          (p.tag.scan document).1.countP closes) ∧
    (∀ e, (p.process document).outcome = .error e →
      ∃ entries rest, Word true (entries ++ rest) ∧
        (p.process document).events = entries.flatMap (Entry.events p) ∧
        Event.Balanced (((entries ++ rest).flatMap (Entry.events p)).filter Event.ofBlock) ∧
        (p.process document).events.filter Event.beginsBlock <+:
          (p.tag.scan document).1.filterMap beginEvent?) := by
  constructor
  · intro output processed
    have ends := p.process_ends document
    rw [processed] at ends
    obtain ⟨s, all, outside, _⟩ := ends.of_ok
    obtain ⟨entries, same, told, count⟩ := all.told
    rw [outside] at told
    have reported := told.of_outside
    refine ⟨entries, reported, reported.word, same, ?_, all.begins, count⟩
    rw [same]
    exact reported.word.balanced
  · intro e _
    obtain ⟨entries, rest, word, same, begins⟩ := (p.process_ends document).reported
    exact ⟨entries, rest, word, same, word.balanced, begins⟩

end Processor
end AssetBlocks
