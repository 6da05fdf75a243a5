import AssetBlocks.Proofs.DirectiveText

/-! What a scan finds. Its matches and the text between them are the document, and the
text of every match was read as the directive that it is, with the rest of the document
behind it. -/
namespace AssetBlocks
namespace Text
variable {α : Type}

/-- The text that matches take up, with what is before each. -/
def covered (ms : List (Match α)) : List Char := ms.flatMap fun m => m.before ++ m.text

theorem covered_append (ms more : List (Match α)) :
    covered (ms ++ more) = covered ms ++ covered more := List.flatMap_append

theorem covered_cons (m : Match α) (ms : List (Match α)) :
    covered (m :: ms) = m.before ++ (m.text ++ covered ms) := by
  simp [covered]

namespace Pattern

theorem next?_found {p : Pattern α} {lineStart : Bool} {cs rest : List Char} {m : Match α}
    (found : p.next? lineStart cs = some (m, rest)) :
    ∃ start, p.at? start (m.text ++ rest) = some (m.value, rest) := by
  induction cs generalizing lineStart m with
  | nil => simp [next?] at found
  | cons c cs ih =>
    rw [next?] at found
    split at found
    · next here =>
      simp only [Option.some.injEq, Prod.mk.injEq] at found
      obtain ⟨rfl, rfl⟩ := found
      exact ⟨lineStart, by rwa [← (at?_split here).2]⟩
    · split at found
      · next later =>
        simp only [Option.some.injEq, Prod.mk.injEq] at found
        obtain ⟨rfl, rfl⟩ := found
        obtain ⟨start, here⟩ := ih later
        exact ⟨start, here⟩
      · simp at found

theorem all_covered (p : Pattern α) (lineStart : Bool) (cs : List Char) :
    covered (p.all lineStart cs).1 ++ (p.all lineStart cs).2 = cs := p.all_join lineStart cs

theorem all_found (p : Pattern α) (lineStart : Bool) (cs : List Char) {pre post : List (Match α)}
    {m : Match α} (split : (p.all lineStart cs).1 = pre ++ m :: post) :
    ∃ start, p.at? start (m.text ++ (covered post ++ (p.all lineStart cs).2)) =
      some (m.value, covered post ++ (p.all lineStart cs).2) := by
  fun_induction all p lineStart cs generalizing pre with
  | case1 => simp at split
  | case2 lineStart cs m' rest found more tail pieces ih =>
    have whole := p.all_covered false rest
    rw [pieces] at whole ih
    cases pre with
    | nil =>
      rw [List.nil_append, List.cons.injEq] at split
      obtain ⟨rfl, rfl⟩ := split
      rw [whole]
      exact next?_found found
    | cons _ pre =>
      rw [List.cons_append, List.cons.injEq] at split
      exact ih split.2

end Pattern
end Text

namespace Tag
open Text
variable {tag : Tag} {document : String}

theorem newline_notMem (tag : Tag) : '\n' ∉ tag.name.toList := by
  intro inside
  have valid := tag.valid
  simp only [isTag, Bool.and_eq_true, List.all_eq_true] at valid
  have := valid.2 _ inside
  simp [isBlank] at this

theorem scan_covered (tag : Tag) (document : String) :
    document.toList = covered (tag.scan document).1 ++ (tag.scan document).2 :=
  (tag.pattern.all_covered true document.toList).symm

theorem scan_found {pre post : List (Match Directive)} {m : Match Directive}
    (split : (tag.scan document).1 = pre ++ m :: post) :
    ∃ start, Directive.at? tag.name.toList start
        (m.text ++ (covered post ++ (tag.scan document).2)) =
      some (m.value, covered post ++ (tag.scan document).2) :=
  tag.pattern.all_found true document.toList split

theorem scan_inline {m : Match Directive} (found : m ∈ (tag.scan document).1) : '\n' ∉ m.text := by
  obtain ⟨pre, post, split⟩ := List.append_of_mem found
  obtain ⟨start, here⟩ := scan_found split
  obtain ⟨used, same, unbroken⟩ := Directive.at?_inline tag.newline_notMem here
  rwa [List.append_cancel_right same]

theorem scan_ne_nil {m : Match Directive} (found : m ∈ (tag.scan document).1) : m.text ≠ [] := by
  obtain ⟨pre, post, split⟩ := List.append_of_mem found
  obtain ⟨start, here⟩ := scan_found split
  obtain ⟨used, nonempty, same⟩ := Directive.at?_split here
  rwa [List.append_cancel_right same]

/-- The text of a begin tag and of the document behind it, up to the kind. -/
theorem scan_opening {pre post : List (Match Directive)} {m : Match Directive} {t : BeginTag}
    (split : (tag.scan document).1 = pre ++ m :: post) (value : m.value = .opening t) :
    ∃ blanks behind args, (∀ c ∈ t.indent.toList, isGap c = true) ∧
      (∀ c ∈ blanks, isGap c = true) ∧ t.kind.toList ≠ [] ∧
      (∀ c ∈ t.kind.toList, Directive.isKindChar c = true) ∧
      m.text ++ (covered post ++ (tag.scan document).2) = t.indent.toList ++
        (['<', '!', '-', '-'] ++ blanks ++ (tag.name.toList ++ [':']) ++
          (t.kind.toList ++ behind)) ∧
      Directive.ending? behind =
        some (args, t.selfClosing, covered post ++ (tag.scan document).2) ∧
      t.args = args.map String.ofList := by
  obtain ⟨start, here⟩ := scan_found split
  rw [value] at here
  obtain ⟨indent, body, gaps, text, begun⟩ := Directive.at?_opening here
  obtain ⟨blanks, kind, behind, args, slash, gaps', nonempty, kinds, rfl, ended, same⟩ :=
    Directive.begin?_parts begun
  rw [Directive.opening.injEq] at same
  subst same
  exact ⟨blanks, behind, args, by simpa using gaps, gaps', by simpa using nonempty,
    by simpa using kinds, by simpa using text, ended, rfl⟩

end Tag
end AssetBlocks
