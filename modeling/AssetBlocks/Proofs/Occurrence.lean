import AssetBlocks.Proofs.Printing

/-! The texts that are directives, and the texts that a directive occurs in. A search finds
a directive exactly if one occurs, and none occurs in the text that it passes over. Two
texts without directives have one in them only if they are put together in the middle of
it, which takes more than the text around a tag that is not of comments. -/
namespace AssetBlocks
namespace Directive
open Text

variable {tag cs rest text : List Char} {args : Option (List Char)} {slash : Bool} {d : Directive}

/-- What may stand behind the kind of a begin tag: the closing marker, or a space and what
is before some end of a comment on the line. -/
inductive Closes : List Char → Prop
  | bare (slash : Bool) : Closes (closeMark slash)
  | spaced {line : List Char} (unbroken : '\n' ∉ line) : Closes (' ' :: (line ++ commentEnd))

/-- The text of a directive, from its marker on. -/
inductive Written (tag : List Char) : List Char → Prop
  | opening {blanks kind after : List Char} (gaps : ∀ c ∈ blanks, isGap c = true)
      (nonempty : kind ≠ []) (kinds : ∀ c ∈ kind, isKindChar c = true) (closes : Closes after) :
      Written tag (['<', '!', '-', '-'] ++ blanks ++ (tag ++ [':']) ++ (kind ++ after))
  | closing {blanks more : List Char} (gaps : ∀ c ∈ blanks, isGap c = true)
      (gaps' : ∀ c ∈ more, isGap c = true) :
      Written tag (['<', '!', '-', '-'] ++ blanks ++ (['e', 'n', 'd'] ++ tag) ++
        (more ++ commentEnd))

theorem closes_of_ending? (ended : ending? cs = some (args, slash, rest)) :
    ∃ used, Closes used ∧ cs = used ++ rest := by
  have parts := List.takeWhile_append_dropWhile (p := isSpace) (l := cs)
  have spaces : cs.takeWhile isSpace = [] ∨
      ∃ more, cs.takeWhile isSpace = ' ' :: more ∧ '\n' ∉ more := by
    have blank : ∀ c ∈ cs.takeWhile isSpace, isSpace c = true :=
      fun c inside => List.mem_takeWhile_imp inside
    generalize cs.takeWhile isSpace = spaces at blank
    cases spaces with
    | nil => exact Or.inl rfl
    | cons c more =>
      obtain rfl : c = ' ' := by simpa [isSpace] using blank c (by simp)
      exact Or.inr ⟨more, rfl, fun inside => ne_newline_of_isSpace (blank _ (by simp [inside])) rfl⟩
  rcases ending?_eq_some.mp ended with ⟨nonempty, found, _, read⟩ | ⟨_, same, _⟩
  · obtain ⟨gap, _, unbroken, split, _⟩ := arguments?_ends read
    obtain ⟨more, blank, line⟩ := spaces.resolve_left nonempty
    rw [blank, split] at parts
    refine ⟨' ' :: ((more ++ (found ++ gap)) ++ commentEnd), .spaced ?_, by simp [← parts]⟩
    simpa [line] using unbroken
  · obtain ⟨gap, _, unbroken, mark⟩ := closeMark_parts slash
    rw [same] at parts
    rcases spaces with empty | ⟨more, blank, line⟩
    · rw [empty, List.nil_append] at parts
      exact ⟨closeMark slash, .bare slash, parts.symm⟩
    · rw [blank, mark] at parts
      refine ⟨' ' :: ((more ++ gap) ++ commentEnd), .spaced ?_, by simp [← parts]⟩
      simp [line, unbroken]

theorem ending?_of_closes {used : List Char} (closes : Closes used) (rest : List Char) :
    ∃ found, ending? (used ++ rest) = some found := by
  cases closes with
  | bare slash =>
    have plain : ending? (endingText 0 0 slash none ++ rest) = some (none, slash, rest) :=
      ending?_endingText 0 0 rest (by simp)
    exact ⟨_, plain⟩
  | @spaced line unbroken =>
    have nonempty : (' ' :: (line ++ commentEnd) ++ rest).takeWhile isSpace ≠ [] := by
      simp [isSpace]
    have behind : (' ' :: (line ++ commentEnd) ++ rest).dropWhile isSpace =
        line.dropWhile isSpace ++ (commentEnd ++ rest) := by
      by_cases blank : line.dropWhile isSpace = [] <;>
        simp [isSpace, List.dropWhile_append, blank]
    cases read : arguments? ((' ' :: (line ++ commentEnd) ++ rest).dropWhile isSpace) with
    | some found =>
      obtain ⟨args, slash, rest'⟩ := found
      exact ⟨_, ending?_eq_some.mpr (Or.inl ⟨nonempty, args, rfl, read⟩)⟩
    | none =>
      have blank : line.dropWhile isSpace = [] := by
        by_contra args
        have line' : '\n' ∉ line.dropWhile isSpace :=
          fun inside => unbroken ((List.dropWhile_sublist isSpace).subset inside)
        have never := arguments?_eq_none.mp read _ _ args line' behind
        rw [closer?_commentEnd] at never
        cases never
      have mark : (' ' :: (line ++ commentEnd) ++ rest).dropWhile isSpace =
          closeMark false ++ rest := by
        rw [behind, blank]
        rfl
      exact ⟨(_, false, rest), ending?_eq_some.mpr (Or.inr ⟨Or.inr read, mark, rfl⟩)⟩

theorem at?_closing {lineStart : Bool} (found : at? tag lineStart cs = some (.closing, rest)) :
    ∃ blanks more, (∀ c ∈ blanks, isGap c = true) ∧ (∀ c ∈ more, isGap c = true) ∧
      cs = ['<', '!', '-', '-'] ++ blanks ++ (['e', 'n', 'd'] ++ tag) ++
        (more ++ (commentEnd ++ rest)) := by
  unfold at? at found
  simp only at found
  split at found
  · next begun =>
    simp only [Option.some.injEq] at found
    subst found
    obtain ⟨_, _, _, _, _, _, _, _, _, _, same⟩ := begin?_parts begun
    cases same
  · obtain ⟨blanks, more, gaps, gaps', text, _⟩ := end?_parts found
    exact ⟨blanks, more, gaps, gaps', text⟩

theorem written_of_at? {lineStart : Bool} (found : at? tag lineStart cs = some (d, rest)) :
    ∃ indent text, (∀ c ∈ indent, isGap c = true) ∧ Written tag text ∧
      cs = indent ++ (text ++ rest) := by
  cases d with
  | opening t =>
    obtain ⟨indent, body, indents, rfl, begun⟩ := at?_opening found
    obtain ⟨blanks, kind, behind, args, slash, gaps, nonempty, kinds, rfl, ended, _⟩ :=
      begin?_parts begun
    obtain ⟨used, closes, rfl⟩ := closes_of_ending? ended
    exact ⟨indent, _, indents, .opening gaps nonempty kinds closes, by simp⟩
  | closing =>
    obtain ⟨blanks, more, gaps, gaps', rfl⟩ := at?_closing found
    exact ⟨[], _, by simp, .closing gaps gaps', by simp⟩

/-- Where the text of a directive stands, one is found, and be it a longer one. -/
theorem at?_of_written (solid : ∀ c ∈ tag, isGap c = false) (colon : ':' ∉ tag)
    (written : Written tag text) (lineStart : Bool) (rest : List Char) :
    ∃ found, at? tag lineStart (text ++ rest) = some found := by
  have plain : (text ++ rest).takeWhile isGap = [] := by
    cases written <;> simp [isGap]
  simp only [at?, plain, ite_self, List.length_nil, List.drop_zero]
  cases written with
  | @opening blanks kind after gaps nonempty kinds closes =>
    obtain ⟨⟨args, slash, rest'⟩, ended⟩ := ending?_of_closes closes rest
    have begun := begin?_of_parts solid gaps nonempty kinds ended []
    have parts : ['<', '!', '-', '-'] ++ blanks ++ (tag ++ [':']) ++ (kind ++ after) ++ rest =
        ['<', '!', '-', '-'] ++ blanks ++ (tag ++ [':']) ++ (kind ++ (after ++ rest)) := by simp
    rw [parts, begun]
    exact ⟨_, rfl⟩
  | @closing blanks more gaps gaps' =>
    have parts : ['<', '!', '-', '-'] ++ blanks ++ (['e', 'n', 'd'] ++ tag) ++
        (more ++ commentEnd) ++ rest = ['<', '!', '-', '-'] ++ blanks ++
          (['e', 'n', 'd'] ++ tag) ++ (more ++ (commentEnd ++ rest)) := by simp
    rw [parts, begin?_of_end solid colon gaps, end?_of_parts solid gaps gaps' rest]
    exact ⟨_, rfl⟩

theorem Written.comment (written : Written tag text) :
    ∃ inner, text = ['<', '!', '-', '-'] ++ (inner ++ commentEnd) := by
  cases written with
  | @opening blanks kind after gaps nonempty kinds closes =>
    cases closes with
    | bare slash =>
      obtain ⟨gap, _, _, mark⟩ := closeMark_parts slash
      exact ⟨blanks ++ (tag ++ [':']) ++ (kind ++ gap), by simp [mark]⟩
    | @spaced line _ =>
      exact ⟨blanks ++ (tag ++ [':']) ++ (kind ++ ' ' :: line), by simp⟩
  | @closing blanks more gaps gaps' =>
    exact ⟨blanks ++ (['e', 'n', 'd'] ++ tag) ++ more, by simp⟩

theorem Written.newline_notMem (unbroken : '\n' ∉ tag) (written : Written tag text) :
    '\n' ∉ text := by
  have gap {gaps : List Char} (h : ∀ c ∈ gaps, isGap c = true) : '\n' ∉ gaps :=
    fun inside => ne_newline_of_isGap (h _ inside) rfl
  cases written with
  | opening gaps nonempty kinds closes =>
    have kind := fun inside => ne_newline_of_isKindChar (kinds '\n' inside) rfl
    change '\n' ∉ _ at kind
    cases closes with
    | bare slash => simp [gap gaps, unbroken, kind, newline_notMem_closeMark]
    | spaced line => simp [gap gaps, unbroken, kind, line]
  | closing gaps gaps' => simp [gap gaps, gap gaps', unbroken]

/-- A directive is somewhere in the text. -/
def Occurs (tag cs : List Char) : Prop := ∃ text, Written tag text ∧ text <:+: cs

def Free (tag cs : List Char) : Prop := ¬ Occurs tag cs

/-- A directive begins in one text and ends in the next. -/
def Crosses (tag left right : List Char) : Prop :=
  ∃ x y, x ≠ [] ∧ y ≠ [] ∧ x <:+ left ∧ y <+: right ∧ Written tag (x ++ y)

namespace Occurs
variable {ds left right : List Char}

theorem mark (occurs : Occurs tag cs) : '!' ∈ cs := by
  obtain ⟨text, written, inside⟩ := occurs
  obtain ⟨inner, rfl⟩ := written.comment
  exact inside.subset (by simp)

theorem mono (within : cs <:+: ds) (occurs : Occurs tag cs) : Occurs tag ds := by
  obtain ⟨text, written, inside⟩ := occurs
  exact ⟨text, written, inside.trans within⟩

theorem of_append (occurs : Occurs tag (left ++ right)) :
    Occurs tag left ∨ Occurs tag right ∨ Crosses tag left right := by
  obtain ⟨text, written, inside⟩ := occurs
  rcases List.infix_append_iff_ne_nil.mp inside with
    before | behind | ⟨x, y, hx, hy, rfl, ends, starts⟩
  · exact Or.inl ⟨text, written, before⟩
  · exact Or.inr (Or.inl ⟨text, written, behind⟩)
  · exact Or.inr (Or.inr ⟨x, y, hx, hy, ends, starts, written⟩)

end Occurs

namespace Crosses
variable {left right front : List Char}

theorem mono (crosses : Crosses tag left right) : Crosses tag (front ++ left) right := by
  obtain ⟨x, y, hx, hy, ends, starts, written⟩ := crosses
  exact ⟨x, y, hx, hy, ends.trans (List.suffix_append front left), starts, written⟩

theorem not_of_mark (mark : '!' ∉ left) (last : left.getLast? ≠ some '<') :
    ¬ Crosses tag left right := by
  rintro ⟨x, y, hx, _, ⟨front, rfl⟩, _, written⟩
  obtain ⟨inner, same⟩ := written.comment
  rcases x with _ | ⟨a, _ | ⟨b, x⟩⟩
  · exact hx rfl
  · obtain ⟨rfl, _⟩ := List.cons.inj same
    simp at last
  · obtain ⟨_, same⟩ := List.cons.inj same
    obtain ⟨rfl, _⟩ := List.cons.inj same
    simp at mark

theorem not_of_dash (dash : '-' ∉ right) (first : right.head? ≠ some '>') :
    ¬ Crosses tag left right := by
  rintro ⟨x, y, _, hy, _, ⟨behind, rfl⟩, written⟩
  obtain ⟨inner, same⟩ := written.comment
  rcases y.eq_nil_or_concat' with rfl | ⟨y, b, rfl⟩
  · exact hy rfl
  · have ends : x ++ y ++ [b] = ['<', '!', '-', '-'] ++ inner ++ ['-', '-'] ++ ['>'] := by
      simpa using same
    obtain ⟨front, last⟩ := List.append_inj' ends rfl
    obtain rfl := List.singleton_inj.mp last
    rcases y.eq_nil_or_concat' with rfl | ⟨y, a, rfl⟩
    · simp at first
    · have ends' : x ++ y ++ [a] = ['<', '!', '-', '-'] ++ inner ++ ['-'] ++ ['-'] := by
        simpa using front
      obtain rfl := List.singleton_inj.mp (List.append_inj' ends' rfl).2
      simp at dash

theorem not_of_newline (unbroken : '\n' ∉ tag) (ends : EndsLine left) :
    ¬ Crosses tag left right := by
  rintro ⟨x, y, hx, _, ⟨front, rfl⟩, _, written⟩
  have line := written.newline_notMem unbroken
  rcases x.eq_nil_or_concat' with rfl | ⟨x, c, rfl⟩
  · exact hx rfl
  · rcases ends with empty | last
    · simp at empty
    · obtain rfl : c = '\n' := by simpa using last
      simp at line

theorem not_of_newline_behind (unbroken : '\n' ∉ tag)
    (starts : right = [] ∨ right.head? = some '\n') : ¬ Crosses tag left right := by
  rintro ⟨x, y, _, hy, _, ⟨behind, rfl⟩, written⟩
  have line := written.newline_notMem unbroken
  cases y with
  | nil => exact hy rfl
  | cons c y =>
    rcases starts with empty | first
    · simp at empty
    · obtain rfl : c = '\n' := by simpa using first
      simp at line

end Crosses

namespace Free
variable {ds left right : List Char}

theorem of_mark (mark : '!' ∉ cs) : Free tag cs := fun occurs => mark occurs.mark

theorem nil : Free tag [] := of_mark (by simp)

theorem mono (within : cs <:+: ds) (free : Free tag ds) : Free tag cs :=
  fun occurs => free (occurs.mono within)

theorem append (first : Free tag left) (second : Free tag right)
    (apart : ¬ Crosses tag left right) : Free tag (left ++ right) := by
  intro occurs
  rcases occurs.of_append with before | behind | across
  · exact first before
  · exact second behind
  · exact apart across

end Free

/-- The end of a directive in arguments would have closed their tag, if there is something
before it, and there is. -/
theorem ending?_free {found : List Char} (ended : ending? cs = some (some found, slash, rest)) :
    Free tag found := by
  rcases ending?_eq_some.mp ended with ⟨_, args, same, read⟩ | ⟨_, _, same⟩
  · obtain rfl := Option.some.inj same
    obtain ⟨_, _, behind, _, _, shortest⟩ := arguments?_eq_some.mp read
    rintro ⟨text, written, before, after, split⟩
    obtain ⟨inner, rfl⟩ := written.comment
    have unclosed := shortest (before ++ (['<', '!', '-', '-'] ++ inner)) (commentEnd ++ after)
      (by simp) (by simp) (by simp [← split])
    rw [List.append_assoc, closer?_commentEnd] at unclosed
    cases unclosed
  · intro occurs
    have inside := occurs.mark
    split at same
    · obtain rfl := Option.some.inj same
      simp at inside
    · cases same

end Directive

namespace Tag
open Text Directive
variable {tag : Tag} {cs : List Char}

theorem occurs_of_cons {lineStart : Bool} {c : Char} (behind : List Char)
    (absent : tag.pattern.at? lineStart (c :: cs ++ behind) = none)
    (occurs : Occurs tag.name.toList (c :: cs)) : Occurs tag.name.toList cs := by
  obtain ⟨text, written, inside⟩ := occurs
  rcases List.infix_cons_iff.mp inside with ⟨rest, same⟩ | later
  · obtain ⟨found, here⟩ :=
      at?_of_written tag.solid tag.colon_notMem written lineStart (rest ++ behind)
    rw [← List.append_assoc, same] at here
    cases absent.symm.trans here
  · exact ⟨text, written, later⟩

theorem next?_eq_none_iff {lineStart : Bool} :
    tag.pattern.next? lineStart cs = none ↔ Free tag.name.toList cs := by
  induction cs generalizing lineStart with
  | nil => exact iff_of_true rfl Free.nil
  | cons c cs ih =>
    rw [Pattern.next?]
    cases found : tag.pattern.at? lineStart (c :: cs) with
    | some parts =>
      obtain ⟨d, rest⟩ := parts
      obtain ⟨indent, text, _, written, same⟩ := written_of_at? found
      simp only [reduceCtorEq, false_iff, Free, not_not]
      exact ⟨text, written, indent, rest, by rw [same, List.append_assoc]⟩
    | none =>
      have here : Free tag.name.toList (c :: cs) ↔ Free tag.name.toList cs :=
        not_congr ⟨occurs_of_cons [] (by simpa using found),
          Occurs.mono (List.suffix_cons c cs).isInfix⟩
      rw [here, ← @ih (c == '\n')]
      cases tag.pattern.next? (c == '\n') cs <;> simp

theorem occursIn_iff {text : String} :
    tag.occursIn text = true ↔ Occurs tag.name.toList text.toList := by
  rw [occursIn, Pattern.contains, Option.isSome_iff_ne_none, ne_eq, next?_eq_none_iff, Free,
    not_not]

theorem next?_free {lineStart : Bool} {m : Match Directive} {rest : List Char}
    (found : tag.pattern.next? lineStart cs = some (m, rest)) :
    Free tag.name.toList m.before := by
  induction cs generalizing lineStart m with
  | nil => cases found
  | cons c cs ih =>
    rw [Pattern.next?] at found
    split at found
    · simp only [Option.some.injEq, Prod.mk.injEq] at found
      obtain ⟨rfl, _⟩ := found
      exact Free.nil
    · next absent =>
      split at found
      · next later =>
        simp only [Option.some.injEq, Prod.mk.injEq] at found
        obtain ⟨rfl, rfl⟩ := found
        intro occurs
        have split := (Pattern.next?_split later).2
        rw [List.append_assoc] at split
        rw [split] at absent
        exact ih later (occurs_of_cons _ absent occurs)
      · cases found

theorem all_free (tag : Tag) (lineStart : Bool) (cs : List Char) :
    (∀ m ∈ (tag.pattern.all lineStart cs).1, Free tag.name.toList m.before) ∧
    Free tag.name.toList (tag.pattern.all lineStart cs).2 := by
  fun_induction Pattern.all tag.pattern lineStart cs with
  | case1 lineStart cs absent => exact ⟨by simp, next?_eq_none_iff.mp absent⟩
  | case2 lineStart cs m rest found more tail pieces ih =>
    rw [pieces] at ih
    refine ⟨?_, ih.2⟩
    rintro n inside
    rcases List.mem_cons.mp inside with rfl | inside
    · exact next?_free found
    · exact ih.1 n inside

theorem scan_arguments_free {document : String} {m : Match Directive} {t : BeginTag} {args : String}
    (found : m ∈ (tag.scan document).1) (value : m.value = .opening t) (has : t.args = some args) :
    Free tag.name.toList args.toList := by
  obtain ⟨pre, post, split⟩ := List.append_of_mem found
  obtain ⟨_, behind, read, _, _, _, _, _, ended, same⟩ := scan_opening split value
  rw [has] at same
  obtain ⟨cs, rfl, rfl⟩ := Option.map_eq_some_iff.mp same.symm
  rw [String.toList_ofList]
  exact ending?_free ended

end Tag
end AssetBlocks
