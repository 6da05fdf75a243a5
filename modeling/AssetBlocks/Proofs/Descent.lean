import AssetBlocks.Proofs.Concatenation
import AssetBlocks.Proofs.Cursor

/-! A document resolved by descent instead of with a stack. One cursor is handed on from call
to call; every call keeps the byte up to which it has taken its text, and cuts the next piece
out from there. The descent comes to an end on every document, whatever it cuts is there to
be cut, and it reports and makes what the processor does. -/
namespace AssetBlocks
open Text

/-- Why a descent ends without a text. -/
inductive Halt
  | document (e : DocumentError)
  /-- A text was to be cut out of bounds, backwards or through a character. -/
  | cut (start stop : Nat)
  /-- More calls than are allowed. -/
  | limit

namespace Descent

def cut (document : String) (start stop : Nat) : Log Event Halt String :=
  match cut? document start stop with
  | some text => pure text
  | none => Log.fail (.cut start stop)

/-- The line of a byte, counted from one. -/
def line (document : String) (offset : Nat) : Log Event Halt Nat := do
  let passed ← cut document 0 offset
  pure (1 + lineFeeds passed.toList)

end Descent

namespace Processor
open Descent

def handled (p : Processor) (tag : BeginTag) (contents : Option String) : Log Event Halt String :=
  (p.dispatch tag contents).map id Halt.document

/-- What becomes of the block of a begin tag that has just been found. The cursor is left
behind the block; `inside` goes through the contents. -/
def resolve (p : Processor) (inside : Cursor → Nat → String → Log Event Halt (String × Cursor))
    (c : Cursor) (found : Place) (tag : BeginTag) : Log Event Halt (String × Cursor) :=
  if tag.selfClosing then do
    Log.emit (.blockSingle tag.kind tag.args found.text)
    let text ← p.handled tag none
    pure (text, c)
  else do
    Log.emit (.blockBegin tag.kind tag.args found.text)
    let (contents, c) ← inside c found.stop ""
    let text ← p.handled tag (some contents)
    Log.emit (.blockEnd tag.kind tag.args found.text contents)
    pure (text, c)

/-- The contents of a block from a byte on, up to its end tag. -/
def contents (p : Processor) : Nat → Place → BeginTag → Cursor → Nat → String →
    Log Event Halt (String × Cursor)
  | 0, _, _, _, _, _ => Log.fail .limit
  | limit + 1, opened, tag, c, last, text =>
    match c.next? p.tag with
    | none => do
      let line ← line c.document (opened.start + tag.indent.utf8ByteSize)
      Log.fail (.document (.missingEndTag line opened.text))
    | some (found, c) => do
      let piece ← cut c.document last found.start
      match found.value with
      | .closing => pure (text ++ piece, c)
      | .opening child => do
        let (made, c) ← p.resolve (contents p limit found child) c found child
        contents p limit opened tag c c.position (text ++ piece ++ child.indent ++ made)

/-- The document from a byte on. -/
def outside (p : Processor) : Nat → Cursor → Nat → String → Log Event Halt String
  | 0, _, _, _ => Log.fail .limit
  | limit + 1, c, last, text =>
    match c.next? p.tag with
    | none => do
      let piece ← cut c.document last c.document.utf8ByteSize
      pure (text ++ piece)
    | some (found, c) => do
      let piece ← cut c.document last found.start
      match found.value with
      | .opening tag => do
        let (made, c) ← p.resolve (p.contents limit found tag) c found tag
        outside p limit c c.position (text ++ piece ++ tag.indent ++ made)
      | .closing => do
        let line ← line c.document found.start
        Log.emit (.warning (strayMessage line found.text))
        outside p limit c c.position (text ++ piece ++ found.text)

/-- A document by descent, with so many calls at most one in the other or behind the other. -/
def descend (p : Processor) (limit : Nat) (document : String) : Log Event Halt String :=
  p.outside limit ⟨document, 0⟩ 0 ""

end Processor

namespace Log
variable {ρ ε α β : Type}

theorem Makes.bind_congr {t : Log ρ ε α} {f g : α → Log ρ ε β} {post : α → Prop}
    (makes : t.Makes post) (same : ∀ a, post a → f a = g a) : (t >>= f) = (t >>= g) := by
  cases made : t.outcome with
  | error e => rw [bind_of_error made, bind_of_error made]
  | ok a => rw [bind_of_ok made, bind_of_ok made, same a (makes a made)]

theorem Makes.map {σ δ : Type} {t : Log ρ ε α} {post : α → Prop} (makes : t.Makes post)
    (f : ρ → σ) (g : ε → δ) : (t.map f g).Makes post := by
  intro a made
  cases ended : t.outcome with
  | error e => simp [Log.map, ended, Except.mapError] at made
  | ok b =>
    simp only [Log.map, ended, Except.mapError, Except.ok.injEq] at made
    exact made ▸ makes b ended

end Log

namespace Cursor
variable {tag : Tag} {document : String} {pre post : List (Match Directive)}

/-- The directives ahead of the cursor, and the text behind the last one. -/
def ahead (tag : Tag) (c : Cursor) : List (Match Directive) × List Char :=
  match cut? c.document 0 c.position, cut? c.document c.position c.document.utf8ByteSize with
  | some passed, some left => tag.pattern.all (fresh true passed.toList) left.toList
  | _, _ => ([], [])

def line (c : Cursor) : Nat :=
  1 + ((cut? c.document 0 c.position).map fun passed => lineFeeds passed.toList).getD 0

theorem ahead_behind (split : (tag.scan document).1 = pre ++ post) :
    (behind document pre).ahead tag = (post, (tag.scan document).2) := by
  simp only [ahead, behind, cut?_passed split, cut?_ahead split, String.toList_ofList]
  exact all_ahead split

theorem line_behind (split : (tag.scan document).1 = pre ++ post) :
    (behind document pre).line = 1 + lineFeeds (covered pre) := by
  simp only [line, behind, cut?_passed split, Option.map_some, Option.getD_some,
    String.toList_ofList]

/-- The cursor stands behind directives of the document, with fewer than so many ahead. -/
def Within (tag : Tag) (document : String) (n : Nat) (c : Cursor) : Prop :=
  ∃ pre post, (tag.scan document).1 = pre ++ post ∧ c = behind document pre ∧ post.length < n

theorem Within.mono {n k : Nat} {c : Cursor} (within : Within tag document n c) (le : n ≤ k) :
    Within tag document k c := by
  obtain ⟨pre, post, split, same, less⟩ := within
  exact ⟨pre, post, split, same, Nat.lt_of_lt_of_le less le⟩

theorem next?_nil (split : (tag.scan document).1 = pre) :
    (behind document pre).next? tag = none :=
  next?_behind (split.trans (List.append_nil pre).symm)

theorem next?_cons {m : Match Directive} (split : (tag.scan document).1 = pre ++ m :: post) :
    (behind document pre).next? tag =
      some (Place.of (byteLength (covered pre)) m, behind document (pre ++ [m])) :=
  next?_behind split

theorem within_cons {n : Nat} {m : Match Directive}
    (split : (tag.scan document).1 = pre ++ m :: post) (less : (m :: post).length < n + 1) :
    Within tag document n (behind document (pre ++ [m])) :=
  ⟨pre ++ [m], post, by simp [split], rfl, Nat.lt_of_succ_lt_succ less⟩

theorem Within.next {n : Nat} {c c' : Cursor} {f : Place} (within : Within tag document (n + 1) c)
    (found : c.next? tag = some (f, c')) : Within tag document n c' := by
  obtain ⟨pre, post, split, rfl, less⟩ := within
  cases post with
  | nil =>
    rw [List.append_nil] at split
    cases (next?_nil split).symm.trans found
  | cons m post =>
    obtain ⟨_, rfl⟩ := Prod.mk.inj (Option.some.inj ((next?_cons split).symm.trans found))
    exact within_cons split less

end Cursor

namespace Processor
open Descent

variable {p : Processor} {s : State} {document : String} {pre post : List (Match Directive)}
  {m : Match Directive} {tag : BeginTag}

theorem step_line (p : Processor) (s : State) (m : Match Directive) :
    (p.step s m).Makes fun next => next.line = s.line + lineFeeds m.before := by
  intro next made
  have move := p.step_move s m
  rw [made] at move
  generalize (p.step s m).events = events at move
  cases move <;> simp

/-- What the processor does from the cursor on, in a state that is on the line of the cursor. -/
def resume (p : Processor) (c : Cursor) (s : State) : Log Event Halt String :=
  (p.run { s with line := c.line } (c.ahead p.tag).1 (c.ahead p.tag).2).map id .document

theorem resume_nil (split : (p.tag.scan document).1 = pre) (s : State) :
    p.resume (.behind document pre) s = (finish s (p.tag.scan document).2).map id .document := by
  have all : (p.tag.scan document).1 = pre ++ [] := split.trans (List.append_nil _).symm
  rw [resume, Cursor.ahead_behind all]
  rfl

theorem resume_cons (split : (p.tag.scan document).1 = pre ++ m :: post) (s : State) :
    p.resume (.behind document pre) s =
      (p.step { s with line := 1 + lineFeeds (covered pre) } m).map id .document >>=
        p.resume (.behind document (pre ++ [m])) := by
  have further : (p.tag.scan document).1 = pre ++ [m] ++ post := by simp [split]
  have unbroken : lineFeeds m.text = 0 :=
    List.count_eq_zero.mpr (Tag.scan_inline (by rw [split]; simp))
  rw [resume, Cursor.ahead_behind split, Cursor.line_behind split, run, Log.map_bind]
  refine ((p.step_line _ m).map id Halt.document).bind_congr fun next line => ?_
  have same : next = { next with line := (Cursor.behind document (pre ++ [m])).line } := by
    have text : covered [m] = m.before ++ m.text := by simp [covered]
    rw [Cursor.line_behind further, covered_append, text, lineFeeds_append, lineFeeds_append,
      unbroken, Nat.add_zero, ← Nat.add_assoc, ← line]
  rw [resume, Cursor.ahead_behind further, ← same]

theorem resume_single (split : (p.tag.scan document).1 = pre ++ m :: post)
    (value : m.value = .opening tag) (alone : tag.selfClosing = true) (s : State) :
    p.resume (.behind document pre) s = (do
      Log.emit (.blockSingle tag.kind tag.args (String.ofList m.text))
      let text ← p.handled tag none
      p.resume (.behind document (pre ++ [m]))
        ((s.advance m.before).write (tag.indent ++ text))) := by
  rw [resume_cons split]
  simp only [step, value, openBlock, alone, if_true, Log.map_bind, Log.bind_assoc]
  obtain ⟨_ | ⟨top, stack⟩, output, line⟩ := s <;> rfl

theorem resume_opened (split : (p.tag.scan document).1 = pre ++ m :: post)
    (value : m.value = .opening tag) (more : tag.selfClosing = false) (s : State) :
    p.resume (.behind document pre) s = (do
      Log.emit (.blockBegin tag.kind tag.args (String.ofList m.text))
      p.resume (.behind document (pre ++ [m])) { s.advance m.before with
        stack := ⟨tag, String.ofList m.text, 1 + lineFeeds (covered pre ++ m.before), ""⟩ ::
          (s.advance m.before).stack }) := by
  rw [resume_cons split]
  simp only [step, value, openBlock, more, lineFeeds_append, ← Nat.add_assoc]
  obtain ⟨_ | ⟨top, stack⟩, output, line⟩ := s <;> rfl

theorem resume_stray (split : (p.tag.scan document).1 = pre ++ m :: post)
    (value : m.value = .closing) (output : String) (n : Nat) :
    p.resume (.behind document pre) ⟨[], output, n⟩ = (do
      Log.emit (.warning (strayMessage (1 + lineFeeds (covered pre ++ m.before))
        (String.ofList m.text)))
      p.resume (.behind document (pre ++ [m]))
        ⟨[], output ++ String.ofList m.before ++ String.ofList m.text, n⟩) := by
  rw [resume_cons split]
  simp only [step, value, closeBlock, lineFeeds_append, ← Nat.add_assoc]
  rfl

theorem resume_closed (split : (p.tag.scan document).1 = pre ++ m :: post)
    (value : m.value = .closing) (top : Open) (stack : List Open) (output : String) (n : Nat) :
    p.resume (.behind document pre) ⟨top :: stack, output, n⟩ = (do
      let text ← p.handled top.tag (some (top.contents ++ String.ofList m.before))
      Log.emit (.blockEnd top.tag.kind top.tag.args top.text
        (top.contents ++ String.ofList m.before))
      p.resume (.behind document (pre ++ [m]))
        (State.write ⟨stack, output, n⟩ (top.tag.indent ++ text))) := by
  rw [resume_cons split]
  simp only [step, value, closeBlock, State.advance_inside, Log.map_bind, Log.bind_assoc]
  cases stack <;> rfl

theorem cut_eq {start stop : Nat} {text : String} (found : cut? document start stop = some text) :
    cut document start stop = pure text := by rw [cut, found]

theorem cut_before (split : (p.tag.scan document).1 = pre ++ m :: post) :
    cut document (byteLength (covered pre)) (Place.of (byteLength (covered pre)) m).start =
      pure (String.ofList m.before) := cut_eq (Tag.cut?_before split)

theorem resolve_makes {n : Nat} {c : Cursor} {found : Place}
    {inside : Cursor → Nat → String → Log Event Halt (String × Cursor)}
    (within : Cursor.Within p.tag document n c)
    (makes : ∀ last text, (inside c last text).Makes fun made =>
      Cursor.Within p.tag document n made.2) :
    (p.resolve inside c found tag).Makes fun made => Cursor.Within p.tag document n made.2 := by
  unfold resolve
  split
  · exact Log.makes_bind fun _ => Log.makes_bind fun _ => Log.makes_pure within
  · refine Log.makes_bind fun _ => (makes found.stop "").bind fun made within => ?_
    exact Log.makes_bind fun _ => Log.makes_bind fun _ => Log.makes_pure within

theorem contents_makes {n limit : Nat} {opened : Place} {c : Cursor} {last : Nat} {text : String}
    (within : Cursor.Within p.tag document n c) :
    (p.contents limit opened tag c last text).Makes fun made =>
      Cursor.Within p.tag document n made.2 := by
  induction limit generalizing opened tag c last text with
  | zero => exact fun _ made => by cases made
  | succ limit ih =>
    rw [contents]
    split
    · exact Log.makes_bind fun _ _ made => by cases made
    · next found c' next =>
      have within' : Cursor.Within p.tag document n c' :=
        ((within.mono (Nat.le_succ n)).next next)
      refine Log.makes_bind fun piece => ?_
      split
      · exact Log.makes_pure within'
      · exact (resolve_makes within' fun _ _ => ih within').bind fun made within => ih within

theorem line_parts {front rest : List Char} (whole : document.toList = front ++ rest) :
    line document (byteLength front) = pure (1 + lineFeeds front) := by
  have passed : cut? document 0 (byteLength front) = some (String.ofList front) :=
    cut?_parts (whole.trans (List.nil_append _).symm)
  rw [line, cut_eq passed, Log.pure_bind, String.toList_ofList]

theorem line_start (split : (p.tag.scan document).1 = pre ++ m :: post) :
    line document (Place.of (byteLength (covered pre)) m).start =
      pure (1 + lineFeeds (covered pre ++ m.before)) := by
  have whole := Tag.split_toList split
  rw [← List.append_assoc] at whole
  rw [Tag.start_of]
  exact line_parts whole

theorem line_marker (split : (p.tag.scan document).1 = pre ++ m :: post)
    (value : m.value = .opening tag) :
    line document ((Place.of (byteLength (covered pre)) m).start + tag.indent.utf8ByteSize) =
      pure (1 + lineFeeds (covered pre ++ m.before)) := by
  obtain ⟨more, _, text, _⟩ := Tag.scan_indent split value
  have inside : m ∈ (p.tag.scan document).1 := by simp [split]
  have indent : lineFeeds tag.indent.toList = 0 := by
    refine List.count_eq_zero.mpr fun found => Tag.scan_inline inside ?_
    rw [text]
    exact List.mem_append_left _ found
  have whole := Tag.split_toList split
  rw [text, List.append_assoc, ← List.append_assoc, ← List.append_assoc] at whole
  rw [Tag.start_of, ← byteLength_toList, ← byteLength_append, line_parts whole,
    lineFeeds_append _ tag.indent.toList, indent, Nat.add_zero]

theorem resume_advance {c : Cursor} {before : List Char} {indent made : String} :
    p.resume c ((s.advance before).write (indent ++ made)) =
      p.resume c (((s.write (String.ofList before)).write indent).write made) := by
  obtain ⟨_ | ⟨top, stack⟩, output, line⟩ := s <;>
  · simp only [State.advance, State.write, ← String.append_assoc]
    rfl

/-- A begin tag by descent is a begin tag with the stack, if its contents are. -/
theorem resume_opening {inside : Cursor → Nat → String → Log Event Halt (String × Cursor)}
    (split : (p.tag.scan document).1 = pre ++ m :: post) (value : m.value = .opening tag)
    (contents : ∀ stack output n, p.resume (.behind document (pre ++ [m]))
      ⟨⟨tag, String.ofList m.text, 1 + lineFeeds (covered pre ++ m.before), ""⟩ :: stack, output, n⟩
        = (do
      let (contents, c) ← inside (.behind document (pre ++ [m]))
        (Cursor.behind document (pre ++ [m])).position ""
      let made ← p.handled tag (some contents)
      Log.emit (.blockEnd tag.kind tag.args (String.ofList m.text) contents)
      p.resume c (State.write ⟨stack, output, n⟩ (tag.indent ++ made)))) (s : State) :
    p.resume (.behind document pre) s = (do
      let (made, c) ← p.resolve inside (.behind document (pre ++ [m]))
        (.of (byteLength (covered pre)) m) tag
      p.resume c ((s.advance m.before).write (tag.indent ++ made))) := by
  cases alone : tag.selfClosing with
  | true =>
    rw [resume_single split value alone, resolve, if_pos alone]
    simp only [Log.bind_assoc, Log.pure_bind]
    rfl
  | false =>
    rw [resume_opened split value alone, contents, Cursor.behind_append, resolve,
      if_neg (by simp [alone])]
    simp only [Log.bind_assoc, Log.pure_bind]
    rfl

theorem contents_nil {limit n : Nat} {opened : Place} {last : Nat} {text : String}
    (split : (p.tag.scan document).1 = pre)
    (marker : line document (opened.start + tag.indent.utf8ByteSize) = pure n) :
    p.contents (limit + 1) opened tag (.behind document pre) last text =
      Log.fail (.document (.missingEndTag n opened.text)) := by
  rw [contents, Cursor.next?_nil split]
  exact congrArg (· >>= _) marker

theorem contents_cons {limit : Nat} {opened : Place} {text : String}
    (split : (p.tag.scan document).1 = pre ++ m :: post) :
    p.contents (limit + 1) opened tag (.behind document pre)
      (Cursor.behind document pre).position text =
      (match m.value with
      | .closing => pure (text ++ String.ofList m.before, .behind document (pre ++ [m]))
      | .opening child => do
        let (made, c) ← p.resolve (p.contents limit (.of (byteLength (covered pre)) m) child)
          (.behind document (pre ++ [m])) (.of (byteLength (covered pre)) m) child
        p.contents limit opened tag c c.position
          (text ++ String.ofList m.before ++ child.indent ++ made)) := by
  rw [contents, Cursor.next?_cons split]
  exact congrArg (· >>= _) (cut_before split)

theorem outside_nil {limit : Nat} {output : String} (split : (p.tag.scan document).1 = pre) :
    p.outside (limit + 1) (.behind document pre) (Cursor.behind document pre).position output =
      pure (output ++ String.ofList (p.tag.scan document).2) := by
  have tail := cut_eq (Cursor.cut?_ahead (split.trans (List.append_nil pre).symm))
  rw [outside, Cursor.next?_nil split]
  exact congrArg (· >>= _) tail

theorem outside_cons {limit : Nat} {output : String}
    (split : (p.tag.scan document).1 = pre ++ m :: post) :
    p.outside (limit + 1) (.behind document pre) (Cursor.behind document pre).position output =
      (match m.value with
      | .opening tag => do
        let (made, c) ← p.resolve (p.contents limit (.of (byteLength (covered pre)) m) tag)
          (.behind document (pre ++ [m])) (.of (byteLength (covered pre)) m) tag
        p.outside limit c c.position (output ++ String.ofList m.before ++ tag.indent ++ made)
      | .closing => do
        let line ← line document (Place.of (byteLength (covered pre)) m).start
        Log.emit (.warning (strayMessage line (String.ofList m.text)))
        p.outside limit (.behind document (pre ++ [m]))
          (Cursor.behind document (pre ++ [m])).position
          (output ++ String.ofList m.before ++ String.ofList m.text)) := by
  rw [outside, Cursor.next?_cons split]
  exact congrArg (· >>= _) (cut_before split)

/-- The contents of a block, gone through by descent, are those that its frame comes to. What
follows the end tag is up to the frames below. -/
theorem contents_run {limit : Nat} {opened : Place} {n : Nat} {stack : List Open}
    {output text : String} {c : Cursor} {k : Nat}
    (within : Cursor.Within p.tag document limit c)
    (marker : line document (opened.start + tag.indent.utf8ByteSize) = pure n) :
    p.resume c ⟨⟨tag, opened.text, n, text⟩ :: stack, output, k⟩ = (do
      let (contents, c) ← p.contents limit opened tag c c.position text
      let made ← p.handled tag (some contents)
      Log.emit (.blockEnd tag.kind tag.args opened.text contents)
      p.resume c (State.write ⟨stack, output, k⟩ (tag.indent ++ made))) := by
  induction limit generalizing opened n stack output text tag c k with
  | zero =>
    obtain ⟨_, _, _, _, less⟩ := within
    exact absurd less (Nat.not_lt_zero _)
  | succ limit ih =>
    obtain ⟨pre, post, split, rfl, less⟩ := within
    cases post with
    | nil =>
      rw [List.append_nil] at split
      rw [resume_nil split, contents_nil split marker]
      rfl
    | cons m post =>
      have further := Cursor.within_cons split less
      rw [contents_cons split]
      cases value : m.value with
      | closing =>
        rw [resume_closed split value, Log.pure_bind]
      | opening child =>
        rw [resume_opening split value fun _ _ _ => ih further (line_marker split value),
          Log.bind_assoc]
        refine Log.Makes.bind_congr (resolve_makes further fun _ _ => contents_makes further)
          fun made within => ?_
        obtain ⟨made, c⟩ := made
        exact resume_advance.trans (ih within marker)

/-- Outside all blocks the processor does what the descent does. -/
theorem outside_run {limit : Nat} {output : String} {c : Cursor} {n : Nat}
    (within : Cursor.Within p.tag document limit c) :
    p.resume c ⟨[], output, n⟩ = p.outside limit c c.position output := by
  induction limit generalizing output c n with
  | zero =>
    obtain ⟨_, _, _, _, less⟩ := within
    exact absurd less (Nat.not_lt_zero _)
  | succ limit ih =>
    obtain ⟨pre, post, split, rfl, less⟩ := within
    cases post with
    | nil =>
      rw [List.append_nil] at split
      rw [resume_nil split, outside_nil split]
      rfl
    | cons m post =>
      have further := Cursor.within_cons split less
      rw [outside_cons split]
      cases value : m.value with
      | closing =>
        rw [resume_stray split value, ih further, line_start split, Log.pure_bind]
      | opening child =>
        rw [resume_opening split value fun _ _ _ => contents_run further (line_marker split value)]
        refine Log.Makes.bind_congr (resolve_makes further fun _ _ => contents_makes further)
          fun made within => ?_
        obtain ⟨made, c⟩ := made
        exact resume_advance.trans (ih within)

theorem descend_eq {limit : Nat} (many : (p.tag.places document).length < limit) :
    p.descend limit document = (p.process document).map id .document := by
  have split : (p.tag.scan document).1 = [] ++ (p.tag.scan document).1 := rfl
  have all : (Cursor.behind document []).ahead p.tag = p.tag.scan document :=
    Cursor.ahead_behind split
  have first : (Cursor.behind document []).line = 1 := Cursor.line_behind split
  rw [Tag.places_length] at many
  have within : Cursor.Within p.tag document limit (.behind document []) :=
    ⟨[], _, split, rfl, many⟩
  have run : p.resume (.behind document []) ⟨[], "", 1⟩ =
      p.outside limit (.behind document []) 0 "" := outside_run within
  rw [resume, all, first] at run
  exact run.symm

/-- The directives that the calls of a cursor meet take a document up; and a descent that
goes from one to the next comes to an end, cuts out only what is there to be cut out, and
reports, asks for and makes what the processor does. -/
theorem process_descends (p : Processor) (document : String) :
    p.tag.Tiles document (p.tag.places document) ∧
    ∀ limit, (p.tag.places document).length < limit →
      p.descend limit document = (p.process document).map id .document ∧
      ∀ halt, (p.descend limit document).outcome = .error halt →
        ∃ e, halt = .document e ∧ (p.process document).outcome = .error e := by
  refine ⟨p.tag.tiles document, fun limit many => ⟨descend_eq many, fun halt halted => ?_⟩⟩
  rw [descend_eq many] at halted
  cases ended : (p.process document).outcome with
  | ok output =>
    simp only [Log.map, ended, Except.mapError] at halted
    cases halted
  | error e =>
    simp only [Log.map, ended, Except.mapError, Except.error.injEq] at halted
    exact ⟨e, halted.symm, rfl⟩

/-- A block inside a block, behind a character of two bytes. -/
theorem process_descends_nested :
    ∃ p : Processor, ∃ document : String,
      document = "é<!--build:a--> <!--build:b/-->\n<!--endbuild-->" ∧
      (p.tag.places document).map (fun f => (f.start, f.stop)) = [(2, 16), (17, 32), (33, 48)] ∧
      ((Cursor.after p.tag document 1).next? p.tag).map (fun found => found.1.text) =
        some "<!--build:b/-->" ∧
      ((Cursor.after p.tag document 3).next? p.tag).map Prod.fst = none ∧
      (p.descend 4 document).outcome = .ok "é" := by
  let p := standard fun _ => true
  let document := "é<!--build:a--> <!--build:b/-->\n<!--endbuild-->"
  have three : (p.tag.places document).length = 3 := by decide +kernel
  have text : (p.tag.places document)[1]?.map Place.text = some "<!--build:b/-->" := by
    decide +kernel
  have ended : (p.process document).outcome = .ok "é" := by decide +kernel
  obtain ⟨tiles, descent⟩ := process_descends p document
  obtain ⟨same, _⟩ := descent 4 (by rw [three]; decide)
  refine ⟨p, document, rfl, by decide +kernel, ?_, ?_, ?_⟩
  · have called := congrArg (Option.map Place.text) (tiles.calls 1)
    rwa [text, Option.map_map] at called
  · rw [tiles.calls, List.getElem?_eq_none (Nat.le_of_eq three)]
  · rw [same, Log.map, ended]
    rfl

end Processor
end AssetBlocks
