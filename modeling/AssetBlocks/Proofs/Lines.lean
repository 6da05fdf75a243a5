import AssetBlocks.Proofs.Scan

/-! Scanning line by line. To every reader of the grammar the end of a line is like the
end of the text, so what is found on one line does not depend on any other line, and the
scan of a text whose last line has ended goes on as a new one. -/
namespace AssetBlocks
namespace Text
variable {α : Type} {cs more rest word : List Char}

/-- The same thing found where more text stands behind it. -/
def lengthen (behind : List Char) (found : α × List Char) : α × List Char :=
  (found.1, found.2 ++ behind)

/-- A text without an unfinished line. -/
def EndsLine (cs : List Char) : Prop := cs = [] ∨ cs.getLast? = some '\n'

instance (cs : List Char) : Decidable (EndsLine cs) :=
  inferInstanceAs (Decidable (cs = [] ∨ cs.getLast? = some '\n'))

theorem endsLine_iff : EndsLine cs ↔ cs = [] ∨ ∃ front, cs = front ++ ['\n'] := by
  simp only [EndsLine, List.getLast?_eq_some_iff]

theorem takeWhile_newline {test : Char → Bool} (stops : test '\n' = false)
    (cs more : List Char) : (cs ++ '\n' :: more).takeWhile test = cs.takeWhile test := by
  induction cs with
  | nil => simp [stops]
  | cons c cs ih => simp only [List.cons_append, List.takeWhile_cons, ih]

theorem dropWhile_newline {test : Char → Bool} (stops : test '\n' = false)
    (cs more : List Char) :
    (cs ++ '\n' :: more).dropWhile test = cs.dropWhile test ++ '\n' :: more := by
  induction cs with
  | nil => simp [stops]
  | cons c cs ih =>
    simp only [List.cons_append, List.dropWhile_cons, ih]
    split <;> rfl

theorem newline_append_iff (unbroken : '\n' ∉ word) : cs ++ '\n' :: more = word ++ rest ↔
    ∃ rest', cs = word ++ rest' ∧ rest = rest' ++ '\n' :: more := by
  constructor
  · intro same
    rcases List.append_eq_append_iff.mp same with ⟨d, rfl, split⟩ | ⟨d, rfl, split⟩
    · cases d with
      | nil => exact ⟨[], by simp, by simpa using split.symm⟩
      | cons c d =>
        obtain ⟨rfl, _⟩ := List.cons.inj split
        simp at unbroken
    · exact ⟨d, rfl, split⟩
  · rintro ⟨rest', rfl, rfl⟩
    simp

theorem after?_newline (unbroken : '\n' ∉ word) (cs more : List Char) :
    after? word (cs ++ '\n' :: more) = (after? word cs).map (· ++ '\n' :: more) := by
  apply Option.ext
  intro rest
  rw [after?_eq_some, newline_append_iff unbroken, Option.map_eq_some_iff]
  simp only [after?_eq_some, eq_comm (a := rest)]

namespace Pattern

/-- What stands on further lines does not matter to the pattern. -/
def LineBound (p : Pattern α) : Prop := ∀ lineStart cs more,
  p.at? lineStart (cs ++ '\n' :: more) = (p.at? lineStart cs).map (lengthen ('\n' :: more))

theorem at?_nil (p : Pattern α) (lineStart : Bool) : p.at? lineStart [] = none := by
  cases found : p.at? lineStart [] with
  | none => rfl
  | some parts =>
    obtain ⟨a, rest⟩ := parts
    obtain ⟨used, nonempty, same⟩ := p.consumes found
    exact absurd (List.append_eq_nil_iff.mp same.symm).1 nonempty

/-- What is passed over before a match is a whole number of lines and the text before it
on its own line. -/
theorem next?_newline {p : Pattern α} (bound : p.LineBound) (lineStart : Bool)
    (cs more : List Char) :
    p.next? lineStart (cs ++ '\n' :: more) =
      match p.next? lineStart cs with
      | some found => some (lengthen ('\n' :: more) found)
      | none => (p.next? true more).map fun found =>
          ({ found.1 with before := cs ++ '\n' :: found.1.before }, found.2) := by
  induction cs generalizing lineStart with
  | nil =>
    have here := bound lineStart [] more
    rw [at?_nil, List.nil_append, Option.map_none] at here
    simp only [List.nil_append, next?, here, beq_self_eq_true]
    cases p.next? true more <;> rfl
  | cons c cs ih =>
    have here := bound lineStart (c :: cs) more
    rw [List.cons_append] at here ⊢
    rw [next?, here, next?]
    cases found : p.at? lineStart (c :: cs) with
    | some parts =>
      obtain ⟨a, rest⟩ := parts
      have text := (at?_split found).2
      simp only [Option.map_some, lengthen, Option.some.injEq, Prod.mk.injEq, Match.mk.injEq,
        true_and, and_true]
      generalize (c :: cs).take ((c :: cs).length - rest.length) = used at text ⊢
      rw [← List.cons_append, text]
      simp
    | none =>
      simp only [Option.map_none, ih]
      cases p.next? (c == '\n') cs with
      | some found => rfl
      | none => cases p.next? true more <;> rfl

end Pattern

/-- What is found in two texts, one behind the other: the text at the end of the first is
before what is found first in the second. -/
def glue (first second : List (Match α) × List Char) : List (Match α) × List Char :=
  match second.1 with
  | [] => (first.1, first.2 ++ second.2)
  | m :: ms => (first.1 ++ { m with before := first.2 ++ m.before } :: ms, second.2)

theorem glue_cons (m : Match α) (ms : List (Match α)) (tail : List Char)
    (second : List (Match α) × List Char) :
    glue (m :: ms, tail) second =
      (m :: (glue (ms, tail) second).1, (glue (ms, tail) second).2) := by
  obtain ⟨found, left⟩ := second
  cases found <;> rfl

namespace Pattern

theorem all_none {p : Pattern α} {lineStart : Bool} (absent : p.next? lineStart cs = none) :
    p.all lineStart cs = ([], cs) := by
  rw [all]
  split
  · rfl
  · next found => cases absent.symm.trans found

theorem all_some {p : Pattern α} {lineStart : Bool} {m : Match α}
    (found : p.next? lineStart cs = some (m, rest)) :
    p.all lineStart cs = (m :: (p.all false rest).1, (p.all false rest).2) := by
  rw [all]
  split
  · next absent => cases absent.symm.trans found
  · next m' rest' found' =>
    cases found.symm.trans found'
    rfl

theorem all_newline {p : Pattern α} (bound : p.LineBound) (lineStart : Bool)
    (cs more : List Char) :
    p.all lineStart (cs ++ '\n' :: more) =
      glue ((p.all lineStart cs).1, (p.all lineStart cs).2 ++ ['\n']) (p.all true more) := by
  fun_induction all p lineStart cs with
  | case1 lineStart cs absent =>
    have next := next?_newline bound lineStart cs more
    rw [absent] at next
    cases later : p.next? true more with
    | none =>
      rw [later] at next
      rw [all_none next, all_none later]
      simp [glue]
    | some found =>
      obtain ⟨m, rest⟩ := found
      rw [later] at next
      rw [all_some next, all_some later]
      simp [glue]
  | case2 lineStart cs m rest found ms tail pieces ih =>
    have next := next?_newline bound lineStart cs more
    rw [found] at next
    rw [pieces] at ih
    rw [all_some next, glue_cons, ← ih]

theorem all_append {p : Pattern α} (bound : p.LineBound) (ended : EndsLine cs) (more : List Char) :
    p.all true (cs ++ more) = glue (p.all true cs) (p.all true more) := by
  rcases endsLine_iff.mp ended with rfl | ⟨front, rfl⟩
  · have empty : p.all true [] = ([], []) := all_none rfl
    rw [empty, List.nil_append]
    obtain ⟨ms, tail⟩ := p.all true more
    cases ms <;> rfl
  · have first := all_newline bound true front []
    have empty : p.all true [] = ([], []) := all_none rfl
    rw [empty] at first
    rw [first, List.append_assoc, List.singleton_append, all_newline bound]
    simp [glue]

end Pattern
end Text

namespace Directive
open Text
variable {tag : List Char}

theorem closer?_newline (cs more : List Char) :
    closer? (cs ++ '\n' :: more) = (closer? cs).map (lengthen ('\n' :: more)) := by
  apply Option.ext
  rintro ⟨slash, rest⟩
  rw [closer?_iff, dropWhile_newline (by decide), newline_append_iff newline_notMem_closeMark]
  simp only [← closer?_iff, Option.map_eq_some_iff, lengthen, Prod.exists, Prod.mk.injEq]
  constructor
  · rintro ⟨rest', closed, rfl⟩
    exact ⟨slash, rest', closed, rfl, rfl⟩
  · rintro ⟨_, rest', closed, rfl, rfl⟩
    exact ⟨rest', closed, rfl⟩

theorem arguments?_newline (cs more : List Char) :
    arguments? (cs ++ '\n' :: more) =
      (arguments? cs).map fun found => (found.1, lengthen ('\n' :: more) found.2) := by
  induction cs with
  | nil => rfl
  | cons c cs ih =>
    rw [List.cons_append, arguments?, arguments?, closer?_newline, ih]
    by_cases newline : c = '\n'
    · simp [newline]
    · rw [if_neg newline, if_neg newline]
      cases closer? cs with
      | some found => rfl
      | none => cases arguments? cs <;> rfl

theorem ending?_newline (cs more : List Char) :
    ending? (cs ++ '\n' :: more) =
      (ending? cs).map fun found => (found.1, lengthen ('\n' :: more) found.2) := by
  simp only [ending?, takeWhile_newline (show isSpace '\n' = false by decide),
    dropWhile_newline (show isSpace '\n' = false by decide), arguments?_newline, closer?_newline]
  by_cases spaces : cs.takeWhile isSpace = []
  · simp only [spaces, if_true]
    cases closer? (cs.dropWhile isSpace) <;> rfl
  · simp only [spaces, if_false]
    cases arguments? (cs.dropWhile isSpace) with
    | some found => rfl
    | none => cases closer? (cs.dropWhile isSpace) <;> rfl

theorem marker?_newline {word : List Char} (unbroken : '\n' ∉ word) (cs more : List Char) :
    marker? word (cs ++ '\n' :: more) = (marker? word cs).map (· ++ '\n' :: more) := by
  rw [marker?, marker?, after?_newline (by decide)]
  cases after? ['<', '!', '-', '-'] cs with
  | none => rfl
  | some rest => simp only [Option.map_some, dropWhile_newline (show isGap '\n' = false by decide),
      after?_newline unbroken]

theorem begin?_newline (unbroken : '\n' ∉ tag) (indent cs more : List Char) :
    begin? tag indent (cs ++ '\n' :: more) =
      (begin? tag indent cs).map (lengthen ('\n' :: more)) := by
  have stops : isKindChar '\n' = false := by decide
  rw [begin?, begin?, marker?_newline (by simp [unbroken])]
  cases marker? (tag ++ [':']) cs with
  | none => rfl
  | some body =>
    simp only [Option.map_some, takeWhile_newline stops, dropWhile_newline stops, ending?_newline]
    by_cases kind : body.takeWhile isKindChar = []
    · simp [kind]
    · simp only [kind, if_false]
      cases ending? (body.dropWhile isKindChar) <;> rfl

theorem end?_newline (unbroken : '\n' ∉ tag) (cs more : List Char) : end? tag (cs ++ '\n' :: more) =
    (end? tag cs).map (lengthen ('\n' :: more)) := by
  rw [end?, end?, marker?_newline (by simp [unbroken])]
  cases marker? (['e', 'n', 'd'] ++ tag) cs with
  | none => rfl
  | some body =>
    simp only [Option.map_some, dropWhile_newline (show isGap '\n' = false by decide),
      after?_newline (show '\n' ∉ ['-', '-', '>'] by decide)]
    cases after? ['-', '-', '>'] (body.dropWhile isGap) <;> rfl

theorem at?_newline (unbroken : '\n' ∉ tag) (lineStart : Bool) (cs more : List Char) :
    at? tag lineStart (cs ++ '\n' :: more) =
      (at? tag lineStart cs).map (lengthen ('\n' :: more)) := by
  have indents : (cs.takeWhile isGap).length ≤ cs.length := (List.takeWhile_sublist _).length_le
  have within : (if lineStart then cs.takeWhile isGap else []).length ≤ cs.length := by
    split
    · exact indents
    · simp
  simp only [at?, takeWhile_newline (show isGap '\n' = false by decide)]
  rw [List.drop_append_of_le_length within, begin?_newline unbroken, end?_newline unbroken]
  cases begin? tag (if lineStart then cs.takeWhile isGap else [])
    (cs.drop (if lineStart then cs.takeWhile isGap else []).length) <;> rfl

end Directive

namespace Tag
open Text

theorem pattern_lineBound (tag : Tag) : tag.pattern.LineBound :=
  Directive.at?_newline tag.newline_notMem

/-- Where the last line of a text has ended, the directives of what is put behind it are
those that it has by itself. -/
theorem scan_append (tag : Tag) {first : String} (ended : EndsLine first.toList)
    (second : String) : tag.scan (first ++ second) = glue (tag.scan first) (tag.scan second) := by
  rw [scan, String.toList_append]
  exact Pattern.all_append tag.pattern_lineBound ended second.toList

end Tag
end AssetBlocks
