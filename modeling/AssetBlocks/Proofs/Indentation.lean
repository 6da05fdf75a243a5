import AssetBlocks.Proofs.Seams
import Mathlib.Data.List.DropRight

/-! Indents. A begin tag takes with it the spaces and tabs before its marker if its line
starts with them, and nothing else: not even the place behind another directive is the
start of a line. The lines that replace a block stand behind that indent, each one, at
whatever depth the block is. -/
namespace AssetBlocks
namespace Text
variable {α : Type} {cs rest passed : List Char}

/-- Whether the place behind a text is the start of a line, where that is known of the
place before it. -/
def fresh (lineStart : Bool) (passed : List Char) : Bool :=
  passed.getLast?.elim lineStart (· == '\n')

theorem fresh_cons (lineStart : Bool) (c : Char) (passed : List Char) :
    fresh lineStart (c :: passed) = fresh (c == '\n') passed := by
  cases passed with
  | nil => simp [fresh]
  | cons d passed => simp [fresh, List.getLast?_cons]

theorem fresh_append (lineStart : Bool) (passed more : List Char) :
    fresh lineStart (passed ++ more) = fresh (fresh lineStart passed) more := by
  rw [fresh, List.getLast?_append]
  cases last : more.getLast? <;> simp [fresh, last]

theorem fresh_eq_true_iff : fresh true passed = true ↔ EndsLine passed := by
  rcases passed.eq_nil_or_concat' with rfl | ⟨front, c, rfl⟩ <;> simp [fresh, EndsLine]

/-- What of a text is on its last line. -/
def lastLine (cs : List Char) : List Char := cs.rtakeWhile (· != '\n')

theorem lastLine_split (cs : List Char) : ∃ front, cs = front ++ lastLine cs ∧ EndsLine front := by
  refine ⟨cs.rdropWhile (· != '\n'), List.rdropWhile_append_rtakeWhile.symm, ?_⟩
  by_cases empty : cs.rdropWhile (· != '\n') = []
  · exact Or.inl empty
  · have stops := List.rdropWhile_last_not (· != '\n') cs empty
    exact Or.inr (by simpa [List.getLast?_eq_some_getLast empty] using stops)

theorem lastLine_append (ended : EndsLine passed) (unbroken : '\n' ∉ rest) :
    lastLine (passed ++ rest) = rest := by
  have line : ∀ c ∈ rest.reverse, (c != '\n') = true := by
    intro c inside
    rw [bne_iff_ne]
    rintro rfl
    exact unbroken (List.mem_reverse.mp inside)
  have stops : passed.reverse.takeWhile (· != '\n') = [] := by
    rcases endsLine_iff.mp ended with rfl | ⟨front, rfl⟩ <;> simp
  rw [lastLine, List.rtakeWhile, List.reverse_append, List.takeWhile_append_of_pos line, stops,
    List.append_nil, List.reverse_reverse]

namespace Pattern

/-- A search stops at the first place where there is something to be found. -/
theorem next?_place {p : Pattern α} {lineStart : Bool} {m : Match α}
    (found : p.next? lineStart cs = some (m, rest)) :
    p.at? (fresh lineStart m.before) (m.text ++ rest) = some (m.value, rest) ∧
    ∀ passed left, m.before = passed ++ left → left ≠ [] →
      p.at? (fresh lineStart passed) (left ++ (m.text ++ rest)) = none := by
  induction cs generalizing lineStart m with
  | nil => simp [next?] at found
  | cons c cs ih =>
    rw [next?] at found
    split at found
    · next here =>
      simp only [Option.some.injEq, Prod.mk.injEq] at found
      obtain ⟨rfl, rfl⟩ := found
      refine ⟨by rwa [← (at?_split here).2], fun passed left split nonempty => ?_⟩
      exact absurd (List.append_eq_nil_iff.mp split.symm).2 nonempty
    · next absent =>
      split at found
      · next later =>
        simp only [Option.some.injEq, Prod.mk.injEq] at found
        obtain ⟨rfl, rfl⟩ := found
        obtain ⟨here, first⟩ := ih later
        refine ⟨by rwa [fresh_cons], ?_⟩
        rintro (_ | ⟨d, passed⟩) left split nonempty
        · have text := (next?_split later).2
          rw [List.nil_append] at split
          rw [← split]
          rw [List.append_assoc] at text
          rwa [List.cons_append, ← text]
        · obtain ⟨rfl, split'⟩ := List.cons.inj split
          rw [fresh_cons]
          exact first passed left split' nonempty
      · simp at found

/-- The place of something found in a text, where what is found never ends a line. -/
theorem all_place {p : Pattern α} {lineStart : Bool} {pre post : List (Match α)} {m : Match α}
    (inside : ∀ n ∈ (p.all lineStart cs).1, ∀ start, fresh start n.text = false)
    (split : (p.all lineStart cs).1 = pre ++ m :: post) :
    p.at? (fresh lineStart (covered pre ++ m.before))
        (m.text ++ (covered post ++ (p.all lineStart cs).2)) =
      some (m.value, covered post ++ (p.all lineStart cs).2) ∧
    ∀ passed left, m.before = passed ++ left → left ≠ [] →
      p.at? (fresh lineStart (covered pre ++ passed))
        (left ++ (m.text ++ (covered post ++ (p.all lineStart cs).2))) = none := by
  fun_induction all p lineStart cs generalizing pre with
  | case1 => simp at split
  | case2 lineStart cs m' rest found more tail pieces ih =>
    have whole := p.all_covered false rest
    rw [pieces] at whole ih
    cases pre with
    | nil =>
      rw [List.nil_append, List.cons.injEq] at split
      obtain ⟨rfl, rfl⟩ := split
      rw [whole]
      exact next?_place found
    | cons n pre =>
      rw [List.cons_append, List.cons.injEq] at split
      obtain ⟨rfl, split⟩ := split
      have behind (passed : List Char) : fresh lineStart (covered (m' :: pre) ++ passed) =
          fresh false (covered pre ++ passed) := by
        rw [covered_cons, List.append_assoc, List.append_assoc, fresh_append, fresh_append,
          inside m' (by simp)]
      simp only [behind]
      exact ih (fun n found => inside n (by simp [found])) split

end Pattern
end Text

namespace Directive
open Text
variable {tag cs rest : List Char} {t : BeginTag}

theorem takeWhile_isGap_marker {indent : List Char} (gaps : ∀ c ∈ indent, isGap c = true)
    (behind : List Char) :
    (indent ++ (['<', '!', '-', '-'] ++ behind)).takeWhile isGap = indent := by
  rw [List.takeWhile_append_of_pos gaps]
  simp [isGap]

theorem at?_indent {text : List Char} {lineStart : Bool}
    (found : at? tag lineStart (text ++ rest) = some (.opening t, rest)) :
    (∀ c ∈ t.indent.toList, isGap c = true) ∧
    ∃ inner, text = t.indent.toList ++ (['<', '!', '-', '-'] ++ (inner ++ commentEnd)) := by
  obtain ⟨indent, body, gaps, same, begun⟩ := at?_opening found
  obtain ⟨blanks, kind, behind, args, slash, _, _, _, rfl, _, is⟩ := begin?_parts begun
  rw [Directive.opening.injEq] at is
  subst is
  obtain ⟨indent', used, gaps', written, same'⟩ := written_of_at? found
  obtain ⟨inner, rfl⟩ := written.comment
  have first := takeWhile_isGap_marker gaps (blanks ++ (tag ++ [':']) ++ (kind ++ behind))
  have second := takeWhile_isGap_marker gaps' (inner ++ commentEnd ++ rest)
  have whole : text ++ rest =
      indent' ++ (['<', '!', '-', '-'] ++ (inner ++ commentEnd ++ rest)) := by simpa using same'
  simp only [List.append_assoc] at first same
  rw [← same, whole, second] at first
  subst first
  rw [String.toList_ofList]
  rw [← List.append_assoc] at same'
  exact ⟨gaps, inner, List.append_cancel_right same'⟩

theorem at?_inside (found : at? tag false cs = some (.opening t, rest)) : t.indent = "" := by
  unfold at? at found
  simp only [Bool.false_eq_true, if_false, List.length_nil, List.drop_zero] at found
  split at found
  · next begun =>
    obtain rfl := Option.some.inj found
    obtain ⟨_, _, _, _, _, _, _, _, _, _, is⟩ := begin?_parts begun
    rw [Directive.opening.injEq] at is
    rw [is, String.ofList_nil]
  · obtain ⟨_, _, _, _, _, is⟩ := end?_parts found
    cases is

theorem at?_blanks_append (solid : ∀ c ∈ tag, isGap c = false) {lineStart : Bool}
    (found : at? tag lineStart cs = some (.opening t, rest)) (plain : t.indent = "")
    {blanks : List Char} (gaps : ∀ c ∈ blanks, isGap c = true) :
    ∃ t', at? tag true (blanks ++ cs) = some (.opening t', rest) := by
  obtain ⟨indent, body, _, rfl, begun⟩ := at?_opening found
  obtain ⟨more, kind, behind, args, slash, gaps', nonempty, kinds, rfl, ended, is⟩ :=
    begin?_parts begun
  rw [Directive.opening.injEq] at is
  subst is
  obtain rfl : indent = [] := by simpa using plain
  have begun' := begin?_of_parts solid gaps' nonempty kinds ended blanks
  have first := takeWhile_isGap_marker gaps (more ++ (tag ++ [':']) ++ (kind ++ behind))
  have parts : ['<', '!', '-', '-'] ++ more ++ (tag ++ [':']) ++ (kind ++ behind) =
      ['<', '!', '-', '-'] ++ (more ++ (tag ++ [':']) ++ (kind ++ behind)) := by simp
  rw [parts] at begun'
  rw [List.nil_append, parts]
  simp only [at?, if_true, first, List.drop_left, begun']
  exact ⟨_, rfl⟩

end Directive

namespace Tag
open Text Directive
variable {tag : Tag} {document : String} {pre post : List (Match Directive)}
  {m : Match Directive} {t : BeginTag}

theorem scan_last (found : m ∈ (tag.scan document).1) : ∃ used, m.text = used ++ ['>'] := by
  obtain ⟨pre, post, split⟩ := List.append_of_mem found
  obtain ⟨_, here⟩ := scan_found split
  obtain ⟨indent, text, _, written, same⟩ := written_of_at? here
  obtain ⟨inner, rfl⟩ := written.comment
  rw [← List.append_assoc indent] at same
  rw [List.append_cancel_right same]
  exact ⟨indent ++ (['<', '!', '-', '-'] ++ (inner ++ ['-', '-'])), by simp [commentEnd]⟩

theorem scan_fresh : ∀ m ∈ (tag.scan document).1, ∀ start, fresh start m.text = false := by
  intro m found start
  obtain ⟨used, last⟩ := scan_last found
  simp [last, fresh]

theorem covered_last (split : (tag.scan document).1 = pre ++ post) (nonempty : pre ≠ []) :
    ∃ used, covered pre = used ++ ['>'] := by
  rcases pre.eq_nil_or_concat' with rfl | ⟨front, n, rfl⟩
  · exact absurd rfl nonempty
  · have found : n ∈ (tag.scan document).1 := by simp [split]
    obtain ⟨used, last⟩ := scan_last found
    exact ⟨covered front ++ (n.before ++ used), by simp [covered, last]⟩

/-- The place where a directive is found, and those before it back to the last directive,
where there is none. -/
theorem scan_place (split : (tag.scan document).1 = pre ++ m :: post) :
    at? tag.name.toList (fresh true (covered pre ++ m.before))
        (m.text ++ (covered post ++ (tag.scan document).2)) =
      some (m.value, covered post ++ (tag.scan document).2) ∧
    ∀ passed left, m.before = passed ++ left → left ≠ [] →
      at? tag.name.toList (fresh true (covered pre ++ passed))
        (left ++ (m.text ++ (covered post ++ (tag.scan document).2))) = none :=
  Pattern.all_place (p := tag.pattern) scan_fresh split

theorem indent_of_inside (split : (tag.scan document).1 = pre ++ m :: post)
    (value : m.value = .opening t) (inside : fresh true (covered pre ++ m.before) = false) :
    t.indent = "" := by
  have here := (scan_place split).1
  rw [inside, value] at here
  exact at?_inside here

theorem indent_of_behind (split : (tag.scan document).1 = pre ++ m :: post)
    (value : m.value = .opening t) (nonempty : pre ≠ []) (unbroken : '\n' ∉ m.before) :
    t.indent = "" := by
  apply indent_of_inside split value
  obtain ⟨used, last⟩ := covered_last split nonempty
  rcases m.before.eq_nil_or_concat' with empty | ⟨front, c, before⟩
  · simp [empty, last, fresh]
  · have other : c ≠ '\n' := by
      rintro rfl
      simp [before] at unbroken
    simp [before, fresh, other]

/-- Where nothing but blanks is before a match on its line, nothing is: they would belong
to the match. -/
theorem lastLine_of_blank (split : (tag.scan document).1 = pre ++ m :: post)
    (value : m.value = .opening t)
    (gaps : ∀ c ∈ lastLine (covered pre ++ m.before), isGap c = true) :
    lastLine (covered pre ++ m.before) = [] := by
  by_contra nonempty
  obtain ⟨head, whole, ended⟩ := lastLine_split (covered pre ++ m.before)
  generalize lastLine (covered pre ++ m.before) = line at gaps nonempty whole
  have plain : t.indent = "" := by
    apply indent_of_inside split value
    obtain ⟨front, c, rfl⟩ := line.eq_nil_or_concat'.resolve_left nonempty
    have other : c ≠ '\n' := ne_newline_of_isGap (gaps c (by simp))
    rw [whole]
    simp [fresh, other]
  obtain ⟨passed, rfl, before⟩ :
      ∃ passed, head = covered pre ++ passed ∧ m.before = passed ++ line := by
    rcases List.append_eq_append_iff.mp whole with ⟨d, start, before⟩ | ⟨d, start, rfl⟩
    · exact ⟨d, start, before⟩
    · rcases d.eq_nil_or_concat' with rfl | ⟨d, c, rfl⟩
      · exact ⟨[], by simpa using start.symm, rfl⟩
      · obtain ⟨used, last⟩ := covered_last split (by rintro rfl; simp [covered] at start)
        obtain rfl : c = '>' := by simpa [last] using congrArg List.getLast? start.symm
        exact absurd (gaps '>' (by simp)) (by decide)
  -- With the blanks before it, the tag would have been found where these start.
  obtain ⟨here, first⟩ := scan_place split
  rw [value] at here
  obtain ⟨t', found⟩ := at?_blanks_append tag.solid here plain gaps
  have absent := first passed line before nonempty
  rw [fresh_eq_true_iff.mpr ended, found] at absent
  cases absent

theorem scan_indent (split : (tag.scan document).1 = pre ++ m :: post)
    (value : m.value = .opening t) :
    ∃ more line, m.text = t.indent.toList ++ (['<', '!', '-', '-'] ++ more) ∧
      line = lastLine (covered pre ++ m.before ++ t.indent.toList) ∧
      (line ≠ [] → (∀ c ∈ line, isGap c = true) →
        t.indent.toList = line ∧ EndsLine (covered pre ++ m.before)) ∧
      ((line = [] ∨ ∃ c ∈ line, isGap c = false) → t.indent = "") := by
  have here := (scan_place split).1
  rw [value] at here
  obtain ⟨gaps, inner, text⟩ := at?_indent here
  refine ⟨_, _, text, rfl, ?_⟩
  cases start : fresh true (covered pre ++ m.before) with
  | true =>
    have ended := fresh_eq_true_iff.mp start
    rw [lastLine_append ended fun inside => ne_newline_of_isGap (gaps _ inside) rfl]
    refine ⟨fun _ _ => ⟨rfl, ended⟩, ?_⟩
    rintro (empty | ⟨c, inside, other⟩)
    · exact String.toList_injective empty
    · cases other.symm.trans (gaps c inside)
  | false =>
    have plain := indent_of_inside split value start
    rw [plain, String.toList_empty, List.append_nil]
    exact ⟨fun nonempty blank => absurd (lastLine_of_blank split value blank) nonempty,
      fun _ => rfl⟩

end Tag

theorem Replacement.render_lines (indent : String) {ls : List String} (nonempty : ls ≠ []) :
    indent ++ (Replacement.lines ls).render indent = "\n".intercalate (ls.map (indent ++ ·)) := by
  simp only [render]
  induction ls with
  | nil => exact absurd rfl nonempty
  | cons line ls ih =>
    cases ls with
    | nil => simp
    | cons next ls =>
      have further := ih (by simp)
      rw [List.map_cons] at further ⊢
      rw [List.map_cons, String.intercalate_cons_cons, String.intercalate_cons_cons, ← further]
      simp only [String.append_assoc]

namespace Processor
open Text Pairing
variable {p : Processor} {document : String} {m : Match Directive} {tag : BeginTag}
  {ms more : List (Match Directive)}

/-- The directives of a block, its begin tag first, and what it has for contents. -/
inductive BlockOf (p : Processor) (m : Match Directive) (tag : BeginTag) :
    List (Match Directive) → Option String → Prop
  | single (value : m.value = .opening tag) (alone : tag.selfClosing = true) :
      BlockOf p m tag [m] none
  | pair {inner : List (Match Directive)} {close : Match Directive} {contents : String}
      (value : m.value = .opening tag) (paired : Paired m inner close)
      (inside : Rewritten p inner contents) :
      BlockOf p m tag (m :: (inner ++ [close])) (some (contents ++ String.ofList close.before))

theorem BlockOf.rewritten {block : List (Match Directive)} {contents : Option String}
    {text : String} (is : BlockOf p m tag block contents) (becomes : p.Becomes tag contents text) :
    Rewritten p block (String.ofList m.before ++ (tag.indent ++ text)) := by
  rw [← String.append_empty (s := String.ofList m.before ++ (tag.indent ++ text))]
  cases is with
  | single value alone => exact .single value alone becomes .nil
  | pair value paired inside => exact .block value rfl paired inside becomes .nil

theorem Rewritten.of_append {first result : String} (done : Rewritten p ms first)
    (whole : Rewritten p (ms ++ more) result) :
    ∃ last, Rewritten p more last ∧ result = first ++ last := by
  induction done generalizing result with
  | nil => exact ⟨result, whole, by simp⟩
  | stray value _ ih =>
    cases whole with
    | stray _ rest =>
      obtain ⟨last, further, rfl⟩ := ih rest
      exact ⟨last, further, by simp only [String.append_assoc]⟩
    | single value' => cases value.symm.trans value'
    | block value' => cases value.symm.trans value'
  | single value alone becomes _ ih =>
    cases whole with
    | stray value' => cases value.symm.trans value'
    | single value' _ becomes' rest =>
      cases value.symm.trans value'
      obtain rfl := becomes.unique becomes'
      obtain ⟨last, further, rfl⟩ := ih rest
      exact ⟨last, further, by simp only [String.append_assoc]⟩
    | block value' _ paired =>
      cases value.symm.trans value'
      exact absurd paired.opens (by simp [opens, value, alone])
  | block value split paired inside becomes _ _ ih =>
    subst split
    cases whole with
    | stray value' => cases value.symm.trans value'
    | single value' alone =>
      cases value.symm.trans value'
      exact absurd paired.opens (by simp [opens, value, alone])
    | block value' split' paired' inside' becomes' rest =>
      cases value.symm.trans value'
      obtain ⟨_, c, level⟩ := paired_iff.mp paired
      obtain ⟨_, c', level'⟩ := paired_iff.mp paired'
      have same := (List.append_assoc _ _ more).symm.trans split'
      obtain ⟨rfl, rfl, rfl⟩ := level.end_unique level' c c' same
      obtain rfl := inside.unique inside'
      obtain rfl := becomes.unique becomes'
      obtain ⟨last, further, rfl⟩ := ih rest
      exact ⟨last, further, by simp only [String.append_assoc]⟩

/-- A begin tag takes the blanks before it on its line for its indent if they start the line,
and none otherwise. The lines that replace its block, in the document or between the tags of
any block around it, have that indent each, and a line feed between them. -/
theorem lines_indented (p : Processor) (document : String) :
    (∀ pre m post tag, (p.tag.scan document).1 = pre ++ m :: post → m.value = .opening tag →
      document.toList = covered pre ++ m.before ++
        (m.text ++ (covered post ++ (p.tag.scan document).2)) ∧
      (∃ more line, m.text = tag.indent.toList ++ (['<', '!', '-', '-'] ++ more) ∧
        line = lastLine (covered pre ++ m.before ++ tag.indent.toList) ∧
        (line ≠ [] → (∀ c ∈ line, isGap c = true) →
          tag.indent.toList = line ∧ EndsLine (covered pre ++ m.before)) ∧
        ((line = [] ∨ ∃ c ∈ line, isGap c = false) → tag.indent = "")) ∧
      (pre ≠ [] → '\n' ∉ m.before → tag.indent = "")) ∧
    (∀ part rest before block behind m tag contents handling ls first,
      Part (p.tag.scan document).1 (p.tag.scan document).2 part rest →
      part = before ++ (block ++ behind) → BlockOf p m tag block contents →
      p.handling? tag contents = some handling → handling.outcome = .ok (.lines ls) → ls ≠ [] →
      Rewritten p before first →
      ∀ result, Rewritten p part result ↔ ∃ last, Rewritten p behind last ∧
        result = first ++ String.ofList m.before ++
          "\n".intercalate (ls.map (tag.indent ++ ·)) ++ last) ∧
    (∀ output, (p.process document).outcome = .ok output →
      ∃ result, Rewritten p (p.tag.scan document).1 result ∧
        output = result ++ String.ofList (p.tag.scan document).2) := by
  refine ⟨fun pre m post tag split value => ⟨?_, Tag.scan_indent split value,
    Tag.indent_of_behind split value⟩, ?_, fun output => rewritten_of_ok⟩
  · have whole := p.tag.scan_covered document
    rw [split, covered_append, covered_cons] at whole
    rw [whole]
    simp only [List.append_assoc]
  · rintro part rest before block behind m tag contents handling ls first - rfl is handled made
      nonempty done result
    have becomes : p.Becomes tag contents ((Replacement.lines ls).render tag.indent) := by
      simp only [Becomes, handled]
      exact ⟨_, made, rfl⟩
    have standing := done.append (is.rewritten becomes)
    rw [Replacement.render_lines tag.indent nonempty, ← String.append_assoc] at standing
    rw [← List.append_assoc]
    constructor
    · exact standing.of_append
    · rintro ⟨last, further, rfl⟩
      exact standing.append further

/-- A block of two lines inside another one, each with an indent of its own. -/
theorem lines_indented_nested :
    ∃ p : Processor, ∃ document : String, ∃ m box close : Match Directive, ∃ tag : BeginTag,
      document = " <!--build:box-->\n\t<!--build:list/-->\n <!--endbuild-->" ∧
      (p.tag.scan document).1 = [box, m, close] ∧ m.value = .opening tag ∧
      EndsLine (covered [box] ++ m.before) ∧ tag.indent.toList = ['\t'] ∧
      Part (p.tag.scan document).1 (p.tag.scan document).2 [m] close.before ∧
      Rewritten p [m] "\n\ta\n\tb" := by
  let tag : Tag := ⟨"build", by decide⟩
  let list : BeginTag := ⟨"\t", "list", none, true⟩
  let box : Match Directive :=
    ⟨[], " <!--build:box-->".toList, .opening ⟨" ", "box", none, false⟩⟩
  let m : Match Directive := ⟨['\n'], "\t<!--build:list/-->".toList, .opening list⟩
  let close : Match Directive := ⟨['\n', ' '], "<!--endbuild-->".toList, .closing⟩
  let document := " <!--build:box-->\n\t<!--build:list/-->\n <!--endbuild-->"
  let p : Processor := ⟨tag,
    Registry.empty.register "list" fun _ _ => pure (.lines ["a", "b"]),
    ⟨⟨"."⟩, ⟨"."⟩, "default", fun _ => true⟩⟩
  have scan : p.tag.scan document = ([box, m, close], []) := by decide +kernel
  obtain ⟨indents, spliced, _⟩ := lines_indented p document
  have split : (p.tag.scan document).1 = [box] ++ m :: [close] := by rw [scan]; rfl
  obtain ⟨_, ⟨more, line, _, whole, own, _⟩, _⟩ := indents [box] m [close] list split rfl
  have line' : line = ['\t'] := whole.trans (by decide +kernel)
  obtain ⟨indent, starts⟩ := own (by simp [line']) (by simp [line', isGap])
  have part : Part (p.tag.scan document).1 (p.tag.scan document).2 [m] close.before := by
    rw [scan]
    have level : Level [m] := .single rfl rfl
    have paired : Paired box [m] close := paired_iff.mpr ⟨rfl, rfl, level⟩
    have inside : Part ([] ++ box :: ([m] ++ [close])) [] [m] close.before :=
      .contents paired .whole
    exact inside
  refine ⟨p, document, m, box, close, list, rfl, split, rfl, starts, indent.trans line', part, ?_⟩
  exact (spliced [m] close.before [] [m] [] m list none _ ["a", "b"] "" part rfl (.single rfl rfl)
    rfl rfl (by simp) .nil _).mpr ⟨"", .nil, by decide⟩

end Processor
end AssetBlocks
