import AssetBlocks.Proofs.Concatenation
import AssetBlocks.Proofs.Printing
import Mathlib.Data.List.Infix

/-! End tags put behind a document in which some are missing. The blocks that a document
leaves open are its unpaired begin tags, and each end tag behind it closes the last of them
that is left; the end tags beyond these are left over. What the document reported by itself
is reported first, whatever comes behind it. -/
namespace AssetBlocks
namespace Pairing
open Text

variable {m n close : Match Directive} {ms behind inner outer : List (Match Directive)}
  {earlier : List (Match Directive)}

theorem unpaired_iff : Unpaired m behind ↔
    opens m = true ∧ ∀ front rest, behind = front ++ rest → 0 ≤ depth front := by
  refine and_congr_right fun o => ⟨fun alone => ?_, ?_⟩
  · rcases above_or_return behind with above | ⟨inner, close, rest, split, c, level⟩
    · exact above
    · exact absurd (paired_iff.mpr ⟨o, c, level⟩) (alone inner close rest split)
  · rintro above inner close rest rfl paired
    obtain ⟨_, c, level⟩ := paired_iff.mp paired
    have below := above (inner ++ [close]) rest (by simp)
    rw [depth_append_close c, level.total] at below
    omega

instance (m : Match Directive) (behind : List (Match Directive)) : Decidable (Unpaired m behind) :=
  decidable_of_iff (opens m = true ∧ ∀ front ∈ behind.inits, 0 ≤ depth front) <| by
    simp only [unpaired_iff, List.mem_inits, List.IsPrefix, forall_exists_index,
      eq_comm (a := behind)]

theorem Unpaired.of_append (h : Unpaired m (ms ++ behind)) : Unpaired m ms := by
  obtain ⟨o, above⟩ := unpaired_iff.mp h
  refine unpaired_iff.mpr ⟨o, ?_⟩
  rintro front rest rfl
  exact above front (rest ++ behind) (by simp)

theorem unpaired_append_iff (o : opens n = true) (level : Level inner) :
    Unpaired m (ms ++ n :: inner) ↔ Unpaired m ms := by
  refine ⟨Unpaired.of_append, fun h => ?_⟩
  obtain ⟨opened, above⟩ := unpaired_iff.mp h
  refine unpaired_iff.mpr ⟨opened, fun front rest split => ?_⟩
  rcases List.append_eq_append_iff.mp split with ⟨_ | ⟨x, d⟩, rfl, behind⟩ | ⟨d, rfl, _⟩
  · exact above _ [] (by simp)
  · obtain ⟨rfl, same⟩ := List.cons.inj behind
    have start := above ms [] (by simp)
    have further := level.above d rest same
    rw [depth_append, depth_of_opens o]
    omega
  · exact above front d rfl

/-- The unpaired begin tags, each with the directives before it. -/
def unpairedFrom (earlier : List (Match Directive)) :
    List (Match Directive) → List (List (Match Directive) × Match Directive)
  | [] => []
  | m :: later =>
    if Unpaired m later then (earlier, m) :: unpairedFrom (earlier ++ [m]) later
    else unpairedFrom (earlier ++ [m]) later

def unpaired (ms : List (Match Directive)) : List (List (Match Directive) × Match Directive) :=
  unpairedFrom [] ms

theorem mem_unpairedFrom : (outer, n) ∈ unpairedFrom earlier ms ↔
    ∃ between later, outer = earlier ++ between ∧ ms = between ++ n :: later ∧
      Unpaired n later := by
  induction ms generalizing earlier with
  | nil => simp [unpairedFrom]
  | cons m ms ih =>
    have here : (outer, n) ∈ unpairedFrom earlier (m :: ms) ↔
        (outer = earlier ∧ n = m ∧ Unpaired m ms) ∨
          (outer, n) ∈ unpairedFrom (earlier ++ [m]) ms := by
      rw [unpairedFrom]
      split
      · next alone => simp [alone]
      · next paired => simp [paired]
    rw [here, ih]
    constructor
    · rintro (⟨rfl, rfl, alone⟩ | ⟨between, later, rfl, rfl, alone⟩)
      · exact ⟨[], ms, by simp, rfl, alone⟩
      · exact ⟨m :: between, later, by simp, rfl, alone⟩
    · rintro ⟨_ | ⟨x, between⟩, later, rfl, split, alone⟩
      · obtain ⟨rfl, rfl⟩ := List.cons.inj split
        exact Or.inl ⟨by simp, rfl, alone⟩
      · obtain ⟨rfl, rfl⟩ := List.cons.inj split
        exact Or.inr ⟨between, later, by simp, rfl, alone⟩

theorem mem_unpaired : (outer, n) ∈ unpaired ms ↔
    ∃ later, ms = outer ++ n :: later ∧ Unpaired n later := by
  simp [unpaired, mem_unpairedFrom]

theorem unpairedFrom_of_closed (closed : Closed ms) : unpairedFrom earlier ms = [] := by
  apply List.eq_nil_iff_forall_not_mem.mpr
  rintro ⟨outer, n⟩ inside
  obtain ⟨between, later, _, rfl, alone⟩ := mem_unpairedFrom.mp inside
  exact closed.not_unpaired alone

theorem unpairedFrom_append (o : opens n = true) (level : Level inner) :
    unpairedFrom earlier (outer ++ n :: inner) =
      unpairedFrom earlier outer ++ [(earlier ++ outer, n)] := by
  induction outer generalizing earlier with
  | nil => simp [unpairedFrom, level.unpaired o, unpairedFrom_of_closed (.of_level level)]
  | cons m outer ih =>
    simp only [List.cons_append, unpairedFrom, unpaired_append_iff o level, ih, List.append_assoc,
      List.nil_append]
    split <;> rfl

/-- The blocks that are open behind directives, the outermost first. -/
inductive Unclosed : List (Match Directive) → List (List (Match Directive) × Match Directive) → Prop
  | outside {ms : List (Match Directive)} (closed : Closed ms) : Unclosed ms []
  | inside {outer inner : List (Match Directive)} {m : Match Directive}
      {blocks : List (List (Match Directive) × Match Directive)} (around : Unclosed outer blocks)
      (opened : opens m = true) (level : Level inner) :
      Unclosed (outer ++ m :: inner) (blocks ++ [(outer, m)])

namespace Unclosed
variable {blocks : List (List (Match Directive) × Match Directive)}

theorem eq (unclosed : Unclosed ms blocks) : unpaired ms = blocks := by
  induction unclosed with
  | outside closed => exact unpairedFrom_of_closed closed
  | inside around opened level ih =>
    rw [unpaired, unpairedFrom_append opened level, List.nil_append, ← ih]
    rfl

theorem extend (unclosed : Unclosed ms blocks) (level : Level inner) :
    Unclosed (ms ++ inner) blocks := by
  cases unclosed with
  | outside closed => exact .outside (closed.append (.of_level level))
  | inside around opened before =>
    rw [List.append_assoc, List.cons_append]
    exact .inside around opened (before.append level)

/-- An end tag closes the innermost of the blocks that are open. -/
theorem append_close (unclosed : Unclosed ms blocks) (c : closes close = true) :
    Unclosed (ms ++ [close]) blocks.dropLast := by
  cases unclosed with
  | outside closed => exact .outside (closed.append (.of_closes c))
  | @inside outer inner m blocks around opened level =>
    have whole : outer ++ m :: inner ++ [close] = outer ++ (m :: (inner ++ [close])) := by simp
    rw [whole, List.dropLast_concat]
    exact around.extend (level.block opened c)

theorem append_closes (unclosed : Unclosed ms blocks) {added : List (Match Directive)}
    (all : ∀ m ∈ added, closes m = true) :
    Unclosed (ms ++ added) (blocks.take (blocks.length - added.length)) := by
  induction added using List.reverseRecOn with
  | nil => simpa using unclosed
  | append_singleton added last ih =>
    have before := ih fun m inside => all m (by simp [inside])
    have further := before.append_close (all last (by simp))
    rw [List.dropLast_eq_take, List.take_take, List.length_take] at further
    rw [← List.append_assoc, List.length_append, List.length_singleton]
    convert further using 2
    omega

theorem last_left (unclosed : Unclosed ms blocks) {added : List (Match Directive)}
    (all : ∀ m ∈ added, closes m = true) (fewer : added.length < blocks.length) :
    ∃ front earlier m, blocks[blocks.length - added.length - 1]? = some (earlier, m) ∧
      unpaired (ms ++ added) = front ++ [(earlier, m)] := by
  have within : blocks.length - added.length - 1 < blocks.length := by omega
  have last := List.take_succ_eq_append_getElem within
  rw [Nat.sub_add_cancel (by omega), ← (unclosed.append_closes all).eq] at last
  exact ⟨_, _, _, List.getElem?_eq_getElem within, last⟩

end Unclosed
end Pairing

namespace Tag
open Text Pairing

def endTag (tag : Tag) : String := "<!--end" ++ tag.name ++ "-->"

def endTags (tag : Tag) (j : Nat) : String := String.join (List.replicate j tag.endTag)

/-- The begin tags of a document that have no end tag, each with the directives before it. -/
def unclosed (tag : Tag) (document : String) : List (List (Match Directive) × Match Directive) :=
  unpaired (tag.scan document).1

/-- A document with so many end tags on a new line behind it. -/
def repaired (tag : Tag) (document : String) (j : Nat) : String :=
  document ++ "\n" ++ tag.endTags j

theorem toList_endTag (tag : Tag) : tag.endTag.toList = tag.printEnd [] [] := by
  simp [endTag, printEnd, commentEnd]

theorem toList_endTags (tag : Tag) (j : Nat) :
    (tag.endTags j).toList = (List.replicate j (tag.printEnd [] [])).flatten := by
  rw [endTags, String.toList_join, List.flatMap_replicate, toList_endTag]

theorem all_endTags (tag : Tag) (lineStart : Bool) (j : Nat) :
    tag.pattern.all lineStart (List.replicate j (tag.printEnd [] [])).flatten =
      (List.replicate j ⟨[], tag.printEnd [] [], .closing⟩, []) := by
  induction j generalizing lineStart with
  | zero => exact Pattern.all_none rfl
  | succ j ih =>
    have blank : ∀ c ∈ ([] : List Char), isGap c = true := by simp
    generalize rest : (List.replicate j (tag.printEnd [] [])).flatten = behind at ih
    have found : tag.pattern.next? lineStart ([] ++ (tag.printEnd [] [] ++ behind)) = _ :=
      next?_printEnd blank blank blank lineStart behind
    rw [List.nil_append] at found
    rw [List.replicate_succ, List.flatten_cons, rest, Pattern.all_some found, ih,
      List.replicate_succ]

theorem scan_repaired (tag : Tag) (document : String) (j : Nat) :
    ∃ added tail, tag.scan (tag.repaired document j) = ((tag.scan document).1 ++ added, tail) ∧
      added.length = j ∧ ∀ m ∈ added, closes m = true := by
  have whole : (tag.repaired document j).toList = document.toList ++ '\n' ::
      (List.replicate j (tag.printEnd [] [])).flatten := by
    simp [repaired, toList_endTags]
  rw [scan, whole, Pattern.all_newline tag.pattern_lineBound, all_endTags]
  cases j with
  | zero => exact ⟨[], (tag.scan document).2 ++ ['\n'], by simp [glue, scan], rfl, by simp⟩
  | succ j =>
    refine ⟨_, _, rfl, by simp, ?_⟩
    intro m inside
    rcases List.mem_cons.mp inside with rfl | inside
    · rfl
    · rw [List.eq_of_mem_replicate inside]
      rfl

end Tag

namespace Processor
open Text Pairing

variable {p : Processor} {s s' : State} {m : Match Directive}
  {ms added done : List (Match Directive)} {events : List Event}

/-- The line of a begin tag and its text, where the directives before it are known. -/
def place (block : List (Match Directive) × Match Directive) : Nat × String :=
  (1 + linesBefore block.1 + lineFeeds block.2.before, String.ofList block.2.text)

/-- The stack has the blocks that are open, the innermost first. -/
theorem Frames.unclosed {pending output : String} {stack : List Open}
    (frames : Frames p done pending stack output) :
    Unclosed done (unpaired done) ∧
    stack.map (fun block => (block.line, block.text)) = ((unpaired done).map place).reverse := by
  induction frames with
  | outside _ _ closed =>
    rw [unpaired, unpairedFrom_of_closed closed]
    exact ⟨.outside closed, rfl⟩
  | inside _ _ _ opened level _ ih =>
    have all := Unclosed.inside ih.1 opened level
    rw [all.eq]
    refine ⟨all, ?_⟩
    rw [List.map_cons, ih.2, List.map_append, List.reverse_append]
    rfl

/-- The number of end tags that are left over and reported. -/
def strays (p : Processor) (document : String) : Nat :=
  (p.account document).events.countP Entry.isStray

theorem entries_strays (stepped : (p.step s m).outcome = .ok s') :
    (p.entries s m).countP Entry.isStray + [m].countP opens + s.stack.length =
      [m].countP closes + s'.stack.length := by
  have move := p.step_move s m
  unfold entries
  rw [stepped] at move ⊢
  generalize (p.step s m).events = events at move
  cases move with
  | opened value more =>
    have o : [m].countP opens = 1 := by simp [opens, value, more]
    have c : [m].countP closes = 0 := by simp [closes, value]
    have depth : (s.advance m.before).stack.length = s.stack.length := s.advance_depth _
    simp only [value, more, Bool.false_eq_true, if_false, o, c, State.enter, List.length_cons,
      depth]
    simp [Entry.isStray, Nat.add_comm]
  | single value alone becomes =>
    have o : [m].countP opens = 0 := by simp [opens, value, alone]
    have c : [m].countP closes = 0 := by simp [closes, value]
    simp only [value, alone, if_true, o, c, State.write_depth, State.advance_depth]
    simp [Entry.isStray]
  | stray value outside =>
    have o : [m].countP opens = 0 := by simp [opens, value]
    have c : [m].countP closes = 1 := by simp [closes, value]
    simp only [value, outside, o, c, State.write_depth, State.advance_depth]
    simp [Entry.isStray]
  | closed value inside becomes =>
    have o : [m].countP opens = 0 := by simp [opens, value]
    have c : [m].countP closes = 1 := by simp [closes, value]
    simp only [value, inside, o, c, State.write_depth, List.length_cons]
    simp [Entry.isStray, Except.isOk, Except.toBool, Nat.add_comm]

theorem through_strays (made : (p.through s ms).outcome = .ok s') :
    (p.through s ms).events.countP Entry.isStray + ms.countP opens + s.stack.length =
      ms.countP closes + s'.stack.length := by
  induction ms generalizing s with
  | nil =>
    obtain rfl := Except.ok.inj made
    simp [through, pure, Log.ok]
  | cons m ms ih =>
    rw [through, List.foldlM_cons] at made ⊢
    cases stepped : (p.step s m).outcome with
    | error e =>
      rw [Log.bind_of_error (t := p.note s m) stepped] at made
      cases made
    | ok next =>
      rw [Log.bind_of_ok (t := p.note s m) stepped] at made ⊢
      have first := entries_strays stepped
      have rest := ih made
      have entries : (p.note s m).events = p.entries s m := rfl
      rw [← List.singleton_append, List.countP_append, List.countP_append, List.countP_append,
        entries]
      change _ + List.countP _ (p.through next ms).events + _ + _ = _
      omega

theorem Reaches.through (reached : Reaches p done events s) :
    (p.through State.start done).outcome = .ok s := by
  induction reached with
  | start => rfl
  | @step done _ _ s s' m _ move ih =>
    have stepped : (p.note s m).outcome = .ok s' := move.eq_step.symm
    rw [through_append, Log.bind_of_ok ih]
    change (p.note s m >>= fun next => pure next).outcome = _
    rw [Log.bind_of_ok stepped]
    rfl

/-- A block that is open behind directives and that end tags behind these close, with what it
has for contents then. -/
inductive NewlyClosed (p : Processor) :
    List (Match Directive) → List (Match Directive) → BeginTag → String → Prop
  | intro {earlier later front rest : List (Match Directive)} {m close : Match Directive}
      {tag : BeginTag} {result : String} (value : m.value = .opening tag)
      (unpaired : Unpaired m later) (paired : Paired m (later ++ front) close)
      (inside : Rewritten p (later ++ front) result) :
      NewlyClosed p (earlier ++ m :: later) (front ++ close :: rest) tag
        (result ++ String.ofList close.before)

theorem NewlyClosed.completes {tag : BeginTag} {contents : String}
    (newly : NewlyClosed p ms added tag contents) :
    ∃ upto, upto <+: ms ++ added ∧ Completes p upto tag (some contents) := by
  cases newly with
  | @intro earlier later front rest m close _ _ value _ paired inside =>
    exact ⟨earlier ++ m :: (later ++ front) ++ [close], ⟨rest, by simp⟩,
      .block rfl value paired inside⟩

theorem split_append {rest : List (Match Directive)} (split : ms ++ added = done ++ m :: rest) :
    (∃ later, ms = done ++ m :: later) ∨
      ∃ front, done = ms ++ front ∧ added = front ++ m :: rest := by
  rcases List.append_eq_append_iff.mp split with
    ⟨front, same, behind⟩ | ⟨_ | ⟨n, later⟩, same, behind⟩
  · exact Or.inr ⟨front, same, behind⟩
  · exact Or.inr ⟨[], by simpa using same.symm, behind.symm⟩
  · obtain ⟨rfl, _⟩ := List.cons.inj behind
    exact Or.inl ⟨later, same⟩

/-- Where a run gets through directives and fails at an end tag behind them, it fails for a
block that this end tag closes. -/
theorem newlyClosed_of_stop {rest : List (Match Directive)} {events' events'' : List Event}
    {e : DocumentError} (all : Reaches p ms events s) (ends : ∀ m ∈ added, closes m = true)
    (split : ms ++ added = done ++ m :: rest) (before : Reaches p done events' s')
    (move : Move p s' m events'' (.error e)) :
    ∃ tag contents source, NewlyClosed p ms added tag contents ∧
      p.Fails tag (some contents) source ∧ e = .handler tag.kind source := by
  rcases split_append split with ⟨later, rfl⟩ | ⟨front, rfl, rfl⟩
  · obtain ⟨kind, source, _, fails⟩ := before.follows.failsAt move
    exact absurd fails (all.not_failsAt (done ++ [m]) ⟨later, by simp⟩ kind source)
  · have c := ends m (by simp)
    cases move with
    | singleFailed value => cases value.symm.trans (value_of_closes c)
    | closeFailed value inside fails =>
      have frames := before.follows.frames
      rw [inside] at frames
      obtain ⟨outer, first, inner, result, same, _, value', opened, level, rewritten, made⟩ :=
        frames.of_inside
      rcases split_append same with ⟨later, rfl⟩ | ⟨between, rfl, rfl⟩
      · have same' : later ++ front = inner := by simpa using same
        subst same'
        have paired := paired_iff.mpr ⟨opened, c, level⟩
        refine ⟨_, _, _, .intro value' (level.unpaired opened).of_append paired rewritten, ?_, rfl⟩
        rw [made] at fails
        simpa using fails
      · have c' := ends first (by simp)
        cases (not_opens_of_closes c').symm.trans opened

theorem Ends.of_missing {tail : List Char} {line : Nat} {beginTag : String}
    (ends : Ends p ms tail events (.error (.missingEndTag line beginTag))) :
    ∃ s, Reaches p ms events s := by
  generalize ended : Except.error (DocumentError.missingEndTag line beginTag) = outcome at ends
  cases ends with
  | finished all => exact ⟨_, all⟩
  | stopped split before move =>
    obtain ⟨_, _, rfl, _⟩ := before.follows.failsAt move
    cases ended

theorem Reaches.finish (reached : Reaches p done events s) (tail : List Char) :
    (unpaired done = [] → ∃ output, (finish s tail).outcome = .ok output) ∧
    ∀ blocks earlier m, unpaired done = blocks ++ [(earlier, m)] →
      (finish s tail).outcome = .error (.missingEndTag
        (1 + linesBefore earlier + lineFeeds m.before) (String.ofList m.text)) := by
  have stack := reached.follows.frames.unclosed.2
  constructor
  · intro empty
    rw [empty] at stack
    have outside : s.stack = [] := by simpa using stack
    simp only [Processor.finish, outside]
    exact ⟨_, rfl⟩
  · intro blocks earlier m last
    rw [last, List.map_append, List.reverse_append] at stack
    cases inside : s.stack with
    | nil => simp [inside] at stack
    | cons top rest =>
      rw [inside] at stack
      obtain ⟨same, _⟩ := List.cons.inj stack
      obtain ⟨line, text⟩ := Prod.mk.inj same
      simp only [Processor.finish, inside]
      rw [line, text]
      rfl

theorem Reaches.account_events {document : String}
    (reached : Reaches p (p.tag.scan document).1 events s) :
    (p.account document).events = (p.through State.start (p.tag.scan document).1).events := by
  rw [account, tell_through, Log.bind_of_ok reached.through, List.append_nil]

theorem Reaches.strays (reached : Reaches p done events s) :
    (p.through State.start done).events.countP Entry.isStray + done.countP opens =
      done.countP closes + (unpaired done).length := by
  have stack := congrArg List.length reached.follows.frames.unclosed.2
  rw [List.length_map, List.length_reverse, List.length_map] at stack
  rw [← stack]
  exact through_strays reached.through

/-- A document in which end tags are missed, with end tags on a line behind it. Its reports
come first. Either the handler of a block fails that these end tags close; or without such a
failure, as long as there are fewer end tags than open blocks, the last block that is left open
is missed, and with enough of them there is a text, in which those that are too many are left
over. -/
theorem process_repaired (p : Processor) {document : String} {line : Nat} {beginTag : String}
    (missing : (p.process document).outcome = .error (.missingEndTag line beginTag)) (j : Nat) :
    (∀ document, p.process document = (p.account document).expand (Entry.events p)) ∧
    (p.process document).events <+: (p.process (p.tag.repaired document j)).events ∧
    ∃ added tail,
      p.tag.scan (p.tag.repaired document j) = ((p.tag.scan document).1 ++ added, tail) ∧
      ((∃ tag contents e, NewlyClosed p (p.tag.scan document).1 added tag contents ∧
          p.Fails tag (some contents) e ∧
          (p.process (p.tag.repaired document j)).outcome = .error (.handler tag.kind e)) ∨
        (∀ tag contents e, NewlyClosed p (p.tag.scan document).1 added tag contents →
          ¬ p.Fails tag (some contents) e) ∧
        (j < (p.tag.unclosed document).length → ∃ earlier m tag behind,
          (p.tag.unclosed document)[(p.tag.unclosed document).length - j - 1]? =
            some (earlier, m) ∧
          m.value = .opening tag ∧
          document.toList = covered earlier ++ m.before ++ tag.indent.toList ++
            (['<', '!', '-', '-'] ++ behind) ∧
          (p.process (p.tag.repaired document j)).outcome = .error (.missingEndTag
            (1 + (covered earlier ++ m.before ++ tag.indent.toList).count '\n')
            (String.ofList m.text))) ∧
        ((p.tag.unclosed document).length ≤ j →
          (∃ output, (p.process (p.tag.repaired document j)).outcome = .ok output) ∧
          p.strays (p.tag.repaired document j) =
            p.strays document + (j - (p.tag.unclosed document).length))) := by
  have ends := p.process_ends document
  rw [missing] at ends
  obtain ⟨s, all⟩ := ends.of_missing
  obtain ⟨added, tail, scan, count, closing⟩ := p.tag.scan_repaired document j
  refine ⟨p.process_account, ?_, added, tail, scan, ?_⟩
  · rw [process_account, process_account]
    simp only [Log.expand]
    have further : (p.account (p.tag.repaired document j)).events =
        (p.account document).events ++ (p.tell s added tail).events := by
      rw [all.account_events, account, scan, tell_append, Log.bind_of_ok all.through]
    rw [further, List.flatMap_append]
    exact List.prefix_append _ _
  · have ends' := p.process_ends (p.tag.repaired document j)
    generalize (p.process (p.tag.repaired document j)).events = events' at ends'
    generalize ended : (p.process (p.tag.repaired document j)).outcome = outcome at ends' ⊢
    rw [scan] at ends'
    have unclosed : Unclosed (p.tag.scan document).1 (p.tag.unclosed document) :=
      all.follows.frames.unclosed.1
    cases ends' with
    | stopped split before move =>
      left
      obtain ⟨tag, contents, source, newly, fails, rfl⟩ :=
        newlyClosed_of_stop all closing split before move
      exact ⟨tag, contents, source, newly, fails, rfl⟩
    | @finished _ s' all' =>
      right
      refine ⟨?_, fun fewer => ?_, fun enough => ?_⟩
      · intro tag contents e newly fails
        obtain ⟨upto, within, completes⟩ := newly.completes
        exact all'.not_failsAt upto within tag.kind e ⟨tag, _, completes, fails, rfl⟩
      · rw [← count] at fewer ⊢
        obtain ⟨front, earlier, m, found, last⟩ := unclosed.last_left closing fewer
        obtain ⟨later, split, alone⟩ := mem_unpaired.mp (List.mem_of_getElem? found)
        obtain ⟨tag, behind, value, whole, lines⟩ := unpaired_place split alone
        refine ⟨earlier, m, tag, behind, found, value, whole, ?_⟩
        rw [lines, ← Nat.add_assoc]
        exact (all'.finish tail).2 front earlier m last
      · have left := (unclosed.append_closes closing).eq
        rw [count, Nat.sub_eq_zero_of_le enough, List.take_zero] at left
        refine ⟨(all'.finish tail).1 left, ?_⟩
        have reached : Reaches p (p.tag.scan (p.tag.repaired document j)).1 events' s' := by
          rw [scan]
          exact all'
        have before : _ = _ + (p.tag.unclosed document).length := all.strays
        have counted := all'.strays
        have begun : added.countP opens = 0 :=
          List.countP_eq_zero.mpr fun m inside => by simp [not_opens_of_closes (closing m inside)]
        have shut : added.countP closes = j := by rw [List.countP_eq_length.mpr closing, count]
        rw [left, List.countP_append, List.countP_append, begun, shut,
          List.length_nil] at counted
        rw [strays, strays, reached.account_events, all.account_events, scan]
        omega

/-- Two open blocks, with one end tag and with three. -/
theorem process_repaired_nested :
    ∃ p : Processor, ∃ document : String, document = "<!--build:a-->\n  <!--build:b-->" ∧
      (p.process document).outcome = .error (.missingEndTag 2 "  <!--build:b-->") ∧
      (p.tag.unclosed document).length = 2 ∧
      (p.process document).events <+: (p.process (p.tag.repaired document 1)).events ∧
      (p.process (p.tag.repaired document 1)).outcome =
        .error (.missingEndTag 1 "<!--build:a-->") ∧
      (p.process (p.tag.repaired document 3)).outcome = .ok "<!--endbuild-->" ∧
      p.strays (p.tag.repaired document 3) = p.strays document + 1 := by
  let p := standard fun _ => true
  let document := "<!--build:a-->\n  <!--build:b-->"
  have missing : (p.process document).outcome = .error (.missingEndTag 2 "  <!--build:b-->") := by
    decide +kernel
  have blocks : (p.tag.unclosed document).length = 2 := by decide +kernel
  have one : (p.process (p.tag.repaired document 1)).outcome =
      .error (.missingEndTag 1 "<!--build:a-->") := by decide +kernel
  have three : (p.process (p.tag.repaired document 3)).outcome = .ok "<!--endbuild-->" := by
    decide +kernel
  obtain ⟨_, first, _⟩ := process_repaired p missing 1
  obtain ⟨_, _, _, _, _, ⟨_, _, _, _, _, fails⟩ | ⟨_, _, enough⟩⟩ := process_repaired p missing 3
  · cases three.symm.trans fails
  · obtain ⟨_, strays⟩ := enough (by rw [blocks]; decide)
    rw [blocks] at strays
    exact ⟨p, document, rfl, missing, blocks, first, one, three, strays⟩

end Processor
end AssetBlocks
