import AssetBlocks.Proofs.Scan

/-! Where a begin tag ends. Its text is meant to be one comment, but arguments are
preferred to the closing marker: if only spaces are between the kind and that marker,
and there is another one on the line, then the first is taken for the start of the
arguments. In no other way does a begin tag go past its first closing marker. -/
namespace AssetBlocks
namespace Text

abbrev commentEnd : List Char := ['-', '-', '>']

/-- A text goes over no end of a comment but the one that it may itself end with. -/
def EndsFirst (text : List Char) : Prop :=
  ∀ before behind, text = before ++ (commentEnd ++ behind) → behind = []

namespace EndsFirst
variable {head tail : List Char}

theorem of_dash (dash : '-' ∉ head) (ends : EndsFirst tail) : EndsFirst (head ++ tail) := by
  intro before behind same
  rcases List.append_eq_append_iff.mp same with ⟨between, _, rest⟩ | ⟨d, rfl, rest⟩
  · exact ends between behind rest
  · cases d with
    | nil => exact ends [] behind rest.symm
    | cons c d =>
      obtain ⟨rfl, _⟩ := List.cons.inj rest
      exact absurd (by simp) dash

theorem of_angle {last : Char} (angle : '>' ∉ head ++ [last]) (dash : last ≠ '-')
    (ends : EndsFirst tail) : EndsFirst (head ++ [last] ++ tail) := by
  intro before behind same
  rcases List.append_eq_append_iff.mp same with ⟨between, _, rest⟩ | ⟨d, whole, rest⟩
  · exact ends between behind rest
  · rcases d.eq_nil_or_concat' with rfl | ⟨d, c, rfl⟩
    · exact ends [] behind rest.symm
    · rw [← List.append_assoc] at whole
      obtain ⟨rfl, final⟩ := List.append_inj' whole rfl
      obtain rfl := List.singleton_inj.mp final
      rcases d with _ | ⟨x, _ | ⟨y, d⟩⟩
      · exact absurd (List.cons.inj rest).1.symm dash
      · exact absurd (List.cons.inj (List.cons.inj rest).2).1.symm dash
      · have angled : '>' ∈ d ++ [last] := by
          simp only [List.cons_append, List.nil_append, List.cons.injEq] at rest
          obtain ⟨_, _, rest⟩ := rest
          cases d with
          | nil =>
            rw [(List.cons.inj rest).1]
            simp
          | cons z d =>
            rw [(List.cons.inj rest).1]
            simp
        exact absurd (by simpa using Or.inr (Or.inr (Or.inr (by simpa using angled)))) angle

theorem of_end (angle : '>' ∉ head) : EndsFirst (head ++ commentEnd) := by
  intro before behind same
  rcases behind.eq_nil_or_concat' with rfl | ⟨behind, c, rfl⟩
  · rfl
  · have split : head ++ ['-', '-'] ++ ['>'] = before ++ (commentEnd ++ behind) ++ [c] := by
      simpa using same
    have early : '>' ∈ head ++ ['-', '-'] := by
      rw [(List.append_inj' split rfl).1]
      simp
    simp [angle] at early

theorem of_append (ends : EndsFirst (head ++ tail)) : EndsFirst tail :=
  fun before behind same => ends (head ++ before) behind (by rw [same, List.append_assoc])

end EndsFirst
end Text

namespace Directive
open Text
variable {cs rest args : List Char} {slash : Bool}

/-- Spaces up to the end of a comment, and another such end on the same line. -/
def Swallows (cs : List Char) : Prop :=
  ∃ spaces line behind, spaces ≠ [] ∧ (∀ c ∈ spaces, isSpace c = true) ∧ '\n' ∉ line ∧
    cs = spaces ++ (commentEnd ++ line ++ (commentEnd ++ behind))

theorem closer?_commentEnd (more : List Char) : closer? (commentEnd ++ more) = some (false, more) :=
  closer?_iff.mpr rfl

theorem closeMark_parts (slash : Bool) :
    ∃ gap, '>' ∉ gap ∧ '\n' ∉ gap ∧ closeMark slash = gap ++ commentEnd := by
  cases slash with
  | false => exact ⟨[], by decide, by decide, rfl⟩
  | true => exact ⟨['/'], by decide, by decide, rfl⟩

theorem closer?_parts (closed : closer? cs = some (slash, rest)) :
    ∃ gap, '>' ∉ gap ∧ '\n' ∉ gap ∧ cs = gap ++ commentEnd ++ rest := by
  obtain ⟨spaces, blank, rfl⟩ := closer?_eq_some.mp closed
  obtain ⟨gap, angle, line, same⟩ := closeMark_parts slash
  refine ⟨spaces ++ gap, ?_, ?_, by simp [same]⟩
  · simpa [angle] using fun inside => absurd (blank _ inside) (by decide)
  · simpa [line] using fun inside => absurd (blank _ inside) (by decide)

/-- Arguments end before the first end of a comment, unless that is at their start. -/
theorem arguments?_ends (read : arguments? cs = some (args, slash, rest)) :
    ∃ gap, args ≠ [] ∧ '\n' ∉ args ++ gap ∧ cs = args ++ (gap ++ commentEnd) ++ rest ∧
      ((∃ swallowed, args = commentEnd ++ swallowed) ∨
        EndsFirst (args ++ (gap ++ commentEnd))) := by
  obtain ⟨nonempty, line, after, rfl, closed, shortest⟩ := arguments?_eq_some.mp read
  obtain ⟨gap, angle, line', rfl⟩ := closer?_parts closed
  refine ⟨gap, nonempty, by simp [line, line'], by simp, ?_⟩
  by_cases starts : ∃ swallowed, args = commentEnd ++ swallowed
  · exact Or.inl starts
  · right
    intro before behind same
    rcases behind.eq_nil_or_concat' with rfl | ⟨behind, c, rfl⟩
    · rfl
    · have early : before ++ commentEnd ++ behind = args ++ (gap ++ ['-', '-']) := by
        have split : args ++ (gap ++ ['-', '-']) ++ ['>'] =
            before ++ commentEnd ++ behind ++ [c] := by simpa using same
        exact (List.append_inj' split rfl).1.symm
      have inside : ∃ later, args = before ++ (commentEnd ++ later) := by
        rcases List.append_eq_append_iff.mp early with ⟨later, whole, _⟩ | ⟨d, whole, rest⟩
        · exact ⟨later, by simpa using whole⟩
        · rcases d.eq_nil_or_concat' with rfl | ⟨d, last, rfl⟩
          · exact ⟨[], by simpa using whole.symm⟩
          · have final : before ++ ['-', '-'] ++ ['>'] = args ++ d ++ [last] := by
              simpa using whole
            have angled : '>' ∈ gap ++ ['-', '-'] := by
              rw [rest, ← List.singleton_inj.mp (List.append_inj' final rfl).2]
              simp
            simp [angle] at angled
      obtain ⟨later, whole⟩ := inside
      cases before with
      | nil => exact absurd ⟨later, whole⟩ starts
      | cons x before =>
        have unclosed := shortest (x :: before) (commentEnd ++ later) (by simp) (by simp) whole
        rw [List.append_assoc, closer?_commentEnd] at unclosed
        cases unclosed

theorem swallows_iff : Swallows cs ↔ cs.takeWhile isSpace ≠ [] ∧
    ∃ line behind, '\n' ∉ line ∧
      cs.dropWhile isSpace = commentEnd ++ (line ++ (commentEnd ++ behind)) := by
  constructor
  · rintro ⟨spaces, line, behind, nonempty, blank, unbroken, rfl⟩
    rw [List.takeWhile_append_of_pos blank, List.dropWhile_append_of_pos blank]
    exact ⟨by simp [nonempty], line, behind, unbroken, by simp [isSpace]⟩
  · rintro ⟨nonempty, line, behind, unbroken, same⟩
    refine ⟨cs.takeWhile isSpace, line, behind, nonempty, ?_, unbroken, ?_⟩
    · exact fun c inside => List.mem_takeWhile_imp inside
    · rw [List.append_assoc, ← same, List.takeWhile_append_dropWhile]

theorem not_swallows {gap : List Char} (nonempty : args ≠ [])
    (split : cs.dropWhile isSpace = args ++ (gap ++ commentEnd) ++ rest)
    (ends : EndsFirst (args ++ (gap ++ commentEnd))) : ¬ Swallows cs := by
  intro swallows
  obtain ⟨_, line, behind, _, same⟩ := swallows_iff.mp swallows
  rw [split] at same
  have long : 0 < args.length := List.length_pos_iff.mpr nonempty
  rcases List.append_eq_append_iff.mp same with ⟨d, whole, _⟩ | ⟨d, whole, _⟩
  · have lengths := congrArg List.length whole
    simp only [List.length_append, List.length_cons, List.length_nil] at lengths
    omega
  · obtain rfl := ends [] d whole
    have lengths := congrArg List.length whole
    simp only [List.length_append, List.length_cons, List.length_nil] at lengths
    omega

theorem ending?_ends {args : Option (List Char)} (found : ending? cs = some (args, slash, rest)) :
    ∃ front, cs = front ++ commentEnd ++ rest ∧
      (Swallows cs ∧ ¬ EndsFirst (front ++ commentEnd) ∧
          (∃ swallowed, args = some (commentEnd ++ swallowed)) ∨
        ¬ Swallows cs ∧ EndsFirst (front ++ commentEnd)) := by
  have parts := List.takeWhile_append_dropWhile (p := isSpace) (l := cs)
  have dash : '-' ∉ cs.takeWhile isSpace := fun inside =>
    absurd (List.mem_takeWhile_imp inside) (by decide)
  have angle : '>' ∉ cs.takeWhile isSpace := fun inside =>
    absurd (List.mem_takeWhile_imp inside) (by decide)
  rcases ending?_eq_some.mp found with ⟨blank, args, rfl, read⟩ | ⟨without, same, _⟩
  · obtain ⟨gap, nonempty, unbroken, split, ends⟩ := arguments?_ends read
    refine ⟨cs.takeWhile isSpace ++ (args ++ gap), ?_, ?_⟩
    · simpa only [List.append_assoc, split] using parts.symm
    · rcases ends with ⟨swallowed, rfl⟩ | ends
      · refine Or.inl ⟨swallows_iff.mpr ⟨blank, swallowed ++ gap, rest, ?_, ?_⟩, ?_, swallowed, rfl⟩
        · simpa using unbroken
        · simpa using split
        · intro first
          have empty := first (cs.takeWhile isSpace) (swallowed ++ (gap ++ commentEnd)) (by simp)
          simp at empty
      · refine Or.inr ⟨not_swallows nonempty split ends, ?_⟩
        simpa only [List.append_assoc] using EndsFirst.of_dash dash ends
  · obtain ⟨gap, angle', _, mark⟩ := closeMark_parts slash
    refine ⟨cs.takeWhile isSpace ++ gap, ?_, Or.inr ⟨fun swallows => ?_, ?_⟩⟩
    · rw [List.append_assoc, List.append_assoc, ← List.append_assoc gap, ← mark, ← same, parts]
    · obtain ⟨blank, line, behind, unbroken, other⟩ := swallows_iff.mp swallows
      have never := arguments?_eq_none.mp (without.resolve_left blank) (commentEnd ++ line)
        (commentEnd ++ behind) (by simp) (by simpa using unbroken) (by simpa using other)
      rw [closer?_commentEnd] at never
      cases never
    · exact .of_end (by simp [angle, angle'])

theorem opening_endsFirst {indent blanks tag kind tail : List Char}
    (indents : ∀ c ∈ indent, isGap c = true) (gaps : ∀ c ∈ blanks, isGap c = true)
    (angle : '>' ∉ tag) (kinds : ∀ c ∈ kind, isKindChar c = true) :
    EndsFirst (indent ++ (['<', '!', '-', '-'] ++ blanks ++ (tag ++ [':']) ++ (kind ++ tail))) ↔
      EndsFirst tail := by
  have inIndent : '-' ∉ indent := fun inside => absurd (indents _ inside) (by decide)
  have inKind : '-' ∉ kind := fun inside => absurd (kinds _ inside) (by decide)
  have inBlanks : '>' ∉ blanks := fun inside => absurd (gaps _ inside) (by decide)
  constructor
  · intro ends
    exact ends.of_append.of_append.of_append
  · intro ends
    rw [← List.append_assoc (['<', '!', '-', '-'] ++ blanks)]
    refine .of_dash inIndent (.of_angle ?_ (by decide) (.of_dash inKind ends))
    simp [inBlanks, angle]

end Directive

namespace Tag
open Text
variable {tag : Tag} {document : String}

/-- A begin tag ends with the first end of a comment in it exactly where the spaces behind
its kind do not run up to such an end with another one on the line. Where they do, the text
behind its comment becomes part of its arguments. -/
theorem begin_ends {m : Match Directive} {t : BeginTag} (angle : '>' ∉ tag.name.toList)
    (found : m ∈ (tag.scan document).1) (value : m.value = .opening t) :
    ∃ earlier blanks after later, document.toList = earlier ++ (m.text ++ later) ∧
      m.text ++ later = t.indent.toList ++
        (['<', '!', '-', '-'] ++ blanks ++ (tag.name.toList ++ [':']) ++
          (t.kind.toList ++ after)) ∧
      (∀ c ∈ blanks, isGap c = true) ∧ (∃ front, m.text = front ++ commentEnd) ∧
      (EndsFirst m.text ↔ ¬ Directive.Swallows after) ∧
      (Directive.Swallows after →
        ∃ swallowed, t.args = some (String.ofList (commentEnd ++ swallowed))) := by
  obtain ⟨pre, post, split⟩ := List.append_of_mem found
  obtain ⟨blanks, after, args, indents, gaps, _, kinds, text, ended, same⟩ :=
    scan_opening split value
  obtain ⟨front, parts, ends⟩ := Directive.ending?_ends ended
  have whole := tag.scan_covered document
  rw [split, covered_append, covered_cons] at whole
  have own : m.text = t.indent.toList ++ (['<', '!', '-', '-'] ++ blanks ++
      (tag.name.toList ++ [':']) ++ (t.kind.toList ++ (front ++ commentEnd))) := by
    rw [parts] at text
    exact List.append_cancel_right (by simpa using text)
  refine ⟨covered pre ++ m.before, blanks, after, covered post ++ (tag.scan document).2,
    by simpa using whole, text, gaps,
    ⟨t.indent.toList ++ (['<', '!', '-', '-'] ++ blanks ++ (tag.name.toList ++ [':']) ++
      (t.kind.toList ++ front)), by simpa using own⟩, ?_, ?_⟩
  · rw [own, Directive.opening_endsFirst indents gaps angle kinds]
    rcases ends with ⟨swallows, beyond, _⟩ | ⟨ends, first⟩
    · exact iff_of_false beyond (not_not_intro swallows)
    · exact iff_of_true first ends
  · intro swallows
    rcases ends with ⟨_, _, swallowed, rfl⟩ | ⟨ends, _⟩
    · exact ⟨swallowed, same⟩
    · exact absurd swallows ends

/-- A block of one line whose begin tag has a space too many takes its own end tag. -/
theorem begin_ends_over_contents :
    ∃ m ∈ (scan ⟨"build", by decide⟩ "<!--build:uncomment --><p>hi</p><!--endbuild-->").1,
      ∃ t after, m.value = .opening t ∧ Directive.Swallows after ∧ ¬ EndsFirst m.text ∧
        ∃ swallowed, t.args = some (String.ofList (commentEnd ++ swallowed)) := by
  obtain ⟨m, found, value, text⟩ :
      ∃ m ∈ (scan ⟨"build", by decide⟩ "<!--build:uncomment --><p>hi</p><!--endbuild-->").1,
        m.value = .opening ⟨"", "uncomment", some "--><p>hi</p><!--endbuild", false⟩ ∧
        m.text = "<!--build:uncomment ".toList ++
          (commentEnd ++ "<p>hi</p><!--endbuild-->".toList) := by
    decide +kernel
  obtain ⟨_, _, after, _, _, _, _, _, ends, args⟩ := begin_ends (by decide) found value
  have beyond : ¬ EndsFirst m.text := fun first => absurd (first _ _ text) (by decide)
  have swallows : Directive.Swallows after := by
    by_contra other
    exact beyond (ends.mpr other)
  exact ⟨m, found, _, after, value, swallows, beyond, args swallows⟩

end Tag
end AssetBlocks
