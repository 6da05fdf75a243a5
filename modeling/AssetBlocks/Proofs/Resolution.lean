import AssetBlocks.Proofs.Pairing
import AssetBlocks.Proofs.Scan
import AssetBlocks.Proofs.Steps

/-! The text that a document becomes. It is said from the pairs of begin and end tags
alone: a block is resolved once all that is between its two tags is. While a run is under
way, the stack holds what the directives between unpaired begin tags have become, and what
can be resolved is resolved by a run in any state. -/
namespace AssetBlocks.Processor
open Text Pairing

variable {p : Processor}

/-- What directives become with the text before each. An end tag that no begin tag is
paired with stays; a block becomes its indent and the text that stands for it. Contents
are what becomes of the directives between the two tags, and the text before the end tag. -/
inductive Rewritten (p : Processor) : List (Match Directive) → String → Prop
  | nil : Rewritten p [] ""
  | stray {m : Match Directive} {ms : List (Match Directive)} {result : String}
      (value : m.value = .closing) (rest : Rewritten p ms result) :
      Rewritten p (m :: ms) (String.ofList m.before ++ String.ofList m.text ++ result)
  | single {m : Match Directive} {ms : List (Match Directive)} {tag : BeginTag}
      {text result : String} (value : m.value = .opening tag) (alone : tag.selfClosing = true)
      (becomes : p.Becomes tag none text) (rest : Rewritten p ms result) :
      Rewritten p (m :: ms) (String.ofList m.before ++ (tag.indent ++ text) ++ result)
  | block {m close : Match Directive} {ms inner behind : List (Match Directive)} {tag : BeginTag}
      {contents text result : String} (value : m.value = .opening tag)
      (split : ms = inner ++ close :: behind) (paired : Paired m inner close)
      (inside : Rewritten p inner contents)
      (becomes : p.Becomes tag (some (contents ++ String.ofList close.before)) text)
      (rest : Rewritten p behind result) :
      Rewritten p (m :: ms) (String.ofList m.before ++ (tag.indent ++ text) ++ result)

theorem Rewritten.append {ms more : List (Match Directive)} {result result' : String}
    (first : Rewritten p ms result) (second : Rewritten p more result') :
    Rewritten p (ms ++ more) (result ++ result') := by
  induction first with
  | nil => simpa using second
  | stray value _ ih =>
    rw [List.cons_append, String.append_assoc]
    exact .stray value ih
  | single value alone becomes _ ih =>
    rw [List.cons_append, String.append_assoc]
    exact .single value alone becomes ih
  | block value split paired inside becomes _ _ ih =>
    rw [List.cons_append, String.append_assoc]
    exact .block value (by rw [split, List.append_assoc, List.cons_append]) paired inside becomes ih

theorem Rewritten.unique {ms : List (Match Directive)} {result result' : String}
    (h : Rewritten p ms result) (h' : Rewritten p ms result') : result = result' := by
  induction h generalizing result' with
  | nil =>
    cases h'
    rfl
  | stray value _ ih =>
    cases h' with
    | stray _ rest => rw [ih rest]
    | single value' => cases value.symm.trans value'
    | block value' => cases value.symm.trans value'
  | single value alone becomes _ ih =>
    cases h' with
    | stray value' => cases value.symm.trans value'
    | single value' _ becomes' rest =>
      cases value.symm.trans value'
      rw [becomes.unique becomes', ih rest]
    | block value' _ paired =>
      cases value.symm.trans value'
      exact absurd paired.opens (by simp [opens, value, alone])
  | block value split paired _ becomes _ ihInside ihRest =>
    cases h' with
    | stray value' => cases value.symm.trans value'
    | single value' alone =>
      cases value.symm.trans value'
      exact absurd paired.opens (by simp [opens, value, alone])
    | block value' split' paired' inside' becomes' rest' =>
      cases value.symm.trans value'
      obtain ⟨_, c, level⟩ := paired_iff.mp paired
      obtain ⟨_, c', level'⟩ := paired_iff.mp paired'
      obtain ⟨rfl, rfl, rfl⟩ := level.end_unique level' c c' (split.symm.trans split')
      obtain rfl := ihInside inside'
      rw [becomes.unique becomes', ihRest rest']

/-- The lines that end before the directives of a list, none of which spans lines. -/
def linesBefore (ms : List (Match Directive)) : Nat := lineFeeds (ms.flatMap Match.before)

/-- What the directives gone through have become, if a text is pending behind them: it is
spread over the open blocks, the innermost first, and the document around them. -/
inductive Frames (p : Processor) : List (Match Directive) → String → List Open → String → Prop
  | outside {ms : List (Match Directive)} {result : String} (pending : String)
      (rewritten : Rewritten p ms result) (closed : Closed ms) :
      Frames p ms pending [] (result ++ pending)
  | inside {outer inner : List (Match Directive)} {m : Match Directive} {tag : BeginTag}
      {contents output : String} {stack : List Open} (pending : String)
      (around : Frames p outer (String.ofList m.before) stack output)
      (value : m.value = .opening tag) (opened : opens m = true) (level : Level inner)
      (rewritten : Rewritten p inner contents) :
      Frames p (outer ++ m :: inner) pending
        (⟨tag, String.ofList m.text, 1 + linesBefore outer + lineFeeds m.before,
          contents ++ pending⟩ :: stack) output

theorem Frames.of_outside {done : List (Match Directive)} {pending output : String}
    (frames : Frames p done pending [] output) :
    ∃ result, Rewritten p done result ∧ Closed done ∧ output = result ++ pending := by
  cases frames with
  | outside _ rewritten closed => exact ⟨_, rewritten, closed, rfl⟩

theorem Frames.of_inside {done : List (Match Directive)} {pending output : String} {top : Open}
    {stack : List Open} (frames : Frames p done pending (top :: stack) output) :
    ∃ outer m inner contents, done = outer ++ m :: inner ∧
      Frames p outer (String.ofList m.before) stack output ∧ m.value = .opening top.tag ∧
      opens m = true ∧ Level inner ∧ Rewritten p inner contents ∧
      top = ⟨top.tag, String.ofList m.text, 1 + linesBefore outer + lineFeeds m.before,
        contents ++ pending⟩ := by
  cases frames with
  | inside _ around value opened level rewritten =>
    exact ⟨_, _, _, _, rfl, around, value, opened, level, rewritten, rfl⟩

theorem Frames.write {done : List (Match Directive)} {s : State}
    (frames : Frames p done "" s.stack s.output) (text : String) :
    Frames p done text (s.write text).stack (s.write text).output := by
  obtain ⟨stack, output, line⟩ := s
  change Frames p done _ stack output at frames
  cases frames with
  | outside _ rewritten closed =>
    simpa [State.write_outside] using Frames.outside text rewritten closed
  | inside _ around value opened level rewritten =>
    simpa [State.write_inside] using Frames.inside text around value opened level rewritten

theorem Frames.extend {done ms : List (Match Directive)} {pending text : String} {s : State}
    (frames : Frames p done pending s.stack s.output) (rewritten : Rewritten p ms (pending ++ text))
    (level : Level ms) :
    Frames p (done ++ ms) "" (s.write text).stack (s.write text).output := by
  obtain ⟨stack, output, line⟩ := s
  change Frames p done _ stack output at frames
  cases frames with
  | outside _ before closed =>
    have all := Frames.outside "" (before.append rewritten) (closed.append (.of_level level))
    simpa [State.write_outside, String.append_assoc] using all
  | inside _ around value opened level' before =>
    have all := Frames.inside "" around value opened (level'.append level) (before.append rewritten)
    simpa [State.write_inside, String.append_assoc] using all

/-- What holds behind every step of a run: the stack is what the directives have become,
and the line is known. -/
structure Follows (p : Processor) (done : List (Match Directive)) (s : State) : Prop where
  frames : Frames p done "" s.stack s.output
  line : s.line = 1 + linesBefore done

theorem Follows.step {done : List (Match Directive)} {s s' : State} {m : Match Directive}
    {events : List Event} (h : Follows p done s) (move : Move p s m events (.ok s')) :
    Follows p (done ++ [m]) s' := by
  have further : linesBefore (done ++ [m]) = linesBefore done + lineFeeds m.before := by
    simp [linesBefore, lineFeeds_append]
  have passed := h.frames.write (String.ofList m.before)
  cases move with
  | opened value more =>
    have o : opens m = true := by simp [opens, value, more]
    refine ⟨?_, by simp [h.line, further, Nat.add_assoc]⟩
    have entered := Frames.inside "" passed value o .nil .nil
    rw [← h.line] at entered
    exact entered
  | single value alone becomes =>
    have neither : opens m = false ∧ closes m = false := by simp [opens, closes, value, alone]
    refine ⟨?_, by simp [h.line, further, Nat.add_assoc]⟩
    have alone := Rewritten.single value alone becomes .nil
    rw [String.append_empty] at alone
    exact Frames.extend (s := s.advance m.before) passed alone (.single neither.1 neither.2)
  | stray value outside =>
    refine ⟨?_, by simp [h.line, further, Nat.add_assoc]⟩
    have frames := h.frames
    rw [outside] at frames
    obtain ⟨result, rewritten, closed, made⟩ := frames.of_outside
    have stays := Rewritten.stray (p := p) value .nil
    rw [String.append_empty] at stays
    have all := Frames.outside "" (rewritten.append stays)
      (closed.append (.of_closes (closes_of_value value)))
    obtain ⟨stack, output, line⟩ := s
    change stack = [] at outside
    change output = result ++ "" at made
    subst outside made
    simpa [State.advance, State.write_outside, String.append_assoc] using all
  | closed value inside becomes =>
    refine ⟨?_, by simp [h.line, further, Nat.add_assoc]⟩
    have frames := h.frames
    rw [inside] at frames
    obtain ⟨outer, first, inner, contents, rfl, around, value', opened, level, rewritten, made⟩ :=
      frames.of_inside
    have c := closes_of_value value
    rw [made] at becomes
    have block := Rewritten.block value' rfl (paired_iff.mpr ⟨opened, c, level⟩) rewritten
      (by simpa using becomes) .nil
    rw [String.append_empty] at block
    have left := Frames.extend (s := { s with stack := _, line := s.line + lineFeeds m.before })
      around block (level.block opened c)
    simpa using left

theorem Reaches.follows {done : List (Match Directive)} {events : List Event} {s : State}
    (h : Reaches p done events s) : Follows p done s := by
  induction h with
  | start => exact ⟨.outside "" .nil (.of_level .nil), rfl⟩
  | step _ move ih => exact ih.step move

/-- The state behind directives that have become a text. -/
def State.past (s : State) (ms : List (Match Directive)) (result : String) : State :=
  { s.write result with line := s.line + linesBefore ms }

theorem State.past_nil (s : State) : s.past [] "" = s := by
  obtain ⟨_ | ⟨top, stack⟩, output, line⟩ := s <;>
    simp [State.past, State.write, linesBefore, lineFeeds]

theorem State.past_append (s : State) (ms more : List (Match Directive)) (result text : String) :
    (s.past ms result).past more text = s.past (ms ++ more) (result ++ text) := by
  obtain ⟨_ | ⟨top, stack⟩, output, line⟩ := s <;>
    simp [State.past, State.write, linesBefore, lineFeeds_append, String.append_assoc, Nat.add_assoc]

theorem State.past_single (s : State) (m : Match Directive) (text : String) :
    s.past [m] (String.ofList m.before ++ text) = (s.advance m.before).write text := by
  obtain ⟨_ | ⟨top, stack⟩, output, line⟩ := s <;>
    simp [State.past, State.write, State.advance, linesBefore, String.append_assoc]

theorem State.past_outside {s : State} (outside : s.stack = []) (ms : List (Match Directive))
    (result : String) : (s.past ms result).stack = [] := by
  simp [State.past, State.write, outside]

theorem State.past_fits {s : State} {first rest : List (Match Directive)}
    (fits : s.stack = [] ∨ Level (first ++ rest)) (level : Level first) (result : String) :
    (s.past first result).stack = [] ∨ Level rest :=
  fits.imp (fun outside => State.past_outside outside first result) fun all => all.of_append level

theorem run_block {s : State} {tag : BeginTag} {m close : Match Directive}
    {inner : List (Match Directive)} {text result : String} {tail : List Char}
    (value : m.value = .opening tag) (paired : Paired m inner close)
    (inside : ∀ (s : State) more, (p.run s (inner ++ more) tail).outcome =
      (p.run (s.past inner result) more tail).outcome)
    (becomes : p.Becomes tag (some (result ++ String.ofList close.before)) text)
    (more : List (Match Directive)) :
    (p.run s (m :: (inner ++ close :: more)) tail).outcome =
      (p.run (s.past (m :: (inner ++ [close])) (String.ofList m.before ++ (tag.indent ++ text)))
        more tail).outcome := by
  have self := selfClosing_of_opens paired.opens value
  have top : ((s.enter m tag).past inner result).stack =
      ⟨tag, String.ofList m.text, s.line + lineFeeds m.before, "" ++ result⟩ ::
        (s.advance m.before).stack := rfl
  have closed := Move.closed (value_of_closes paired.closes) top (by simpa using becomes)
  rw [(Move.opened value self).run, inside, closed.run]
  congr 2
  obtain ⟨_ | ⟨around, stack⟩, output, line⟩ := s <;>
    simp [State.enter, State.past, State.write, State.advance, linesBefore, lineFeeds_append,
      String.append_assoc, Nat.add_assoc]

/-- Where directives can become a text, a run makes them that. -/
theorem Rewritten.run {ms : List (Match Directive)} {result : String} (h : Rewritten p ms result)
    {s : State} (fits : s.stack = [] ∨ Level ms) (more : List (Match Directive)) (tail : List Char) :
    (p.run s (ms ++ more) tail).outcome = (p.run (s.past ms result) more tail).outcome := by
  induction h generalizing s more with
  | nil => rw [State.past_nil, List.nil_append]
  | @stray m ms _ value _ ih =>
    have outside : s.stack = [] := by
      refine fits.resolve_right fun level => ?_
      cases level.not_closes.symm.trans (closes_of_value value)
    rw [List.cons_append, (Move.stray value outside).run, ← State.past_single,
      ih (Or.inl (State.past_outside outside _ _)), State.past_append, List.singleton_append]
  | @single m ms _ _ _ value alone becomes _ ih =>
    have self : Level [m] := .single (by simp [opens, value, alone]) (by simp [closes, value])
    rw [List.cons_append, (Move.single value alone becomes).run, ← State.past_single,
      ih (State.past_fits fits self _), State.past_append, List.singleton_append]
  | @block m close ms inner behind _ _ _ _ value split paired inside becomes rest ihInside ihRest =>
    subst split
    obtain ⟨o, c, level⟩ := paired_iff.mp paired
    have same : m :: (inner ++ close :: behind) = m :: (inner ++ [close]) ++ behind := by simp
    rw [same] at fits ⊢
    have whole : m :: (inner ++ [close]) ++ behind ++ more =
        m :: (inner ++ close :: (behind ++ more)) := by simp
    rw [whole, run_block value paired (fun s => ihInside (Or.inr level)) becomes,
      ihRest (State.past_fits fits (level.block o c) _), State.past_append]

theorem rewritten_of_ok {document output : String}
    (processed : (p.process document).outcome = .ok output) :
    ∃ result, Rewritten p (p.tag.scan document).1 result ∧
      output = result ++ String.ofList (p.tag.scan document).2 := by
  have ends := p.process_ends document
  rw [processed] at ends
  obtain ⟨s, all, outside, rfl⟩ := ends.of_ok
  have frames := all.follows.frames
  rw [outside] at frames
  obtain ⟨result, rewritten, _, made⟩ := frames.of_outside
  exact ⟨result, rewritten, by rw [made, String.append_empty]⟩

/-- What a document becomes: the directives of its scan are resolved, and the text behind
the last one stays. It becomes a text wherever they can be resolved, and no other one. -/
theorem process_output (p : Processor) (document : String) :
    document.toList = covered (p.tag.scan document).1 ++ (p.tag.scan document).2 ∧
    ∀ output, (p.process document).outcome = .ok output ↔
      ∃ result, Rewritten p (p.tag.scan document).1 result ∧
        output = result ++ String.ofList (p.tag.scan document).2 := by
  refine ⟨p.tag.scan_covered document, fun output => ⟨rewritten_of_ok, ?_⟩⟩
  rintro ⟨result, rewritten, rfl⟩
  have ended := rewritten.run (s := State.start) (Or.inl rfl) [] (p.tag.scan document).2
  rw [List.append_nil] at ended
  rw [process, ended]
  simp [run, finish, State.past, State.start, State.write, pure, Log.ok]

/-- An end tag that is left over, a block in a block, and a self-closing tag in that. -/
theorem process_output_nested :
    ∃ p : Processor, ∃ document result : String,
      document = "a<!--endbuild-->\n  <!--build:uncomment--><!-- x <!--build:uncomment-->y" ++
        "<!--build:other/--><!--endbuild--> --><!--endbuild-->z" ∧
      Rewritten p (p.tag.scan document).1 result ∧
      "a<!--endbuild-->\n   x y z" = result ++ String.ofList (p.tag.scan document).2 := by
  have processed : ((standard fun _ => true).process
      ("a<!--endbuild-->\n  <!--build:uncomment--><!-- x <!--build:uncomment-->y" ++
        "<!--build:other/--><!--endbuild--> --><!--endbuild-->z")).outcome =
      .ok "a<!--endbuild-->\n   x y z" := by decide +kernel
  obtain ⟨result, rewritten, same⟩ := ((process_output _ _).2 _).mp processed
  exact ⟨_, _, result, rfl, rewritten, same⟩

end AssetBlocks.Processor
