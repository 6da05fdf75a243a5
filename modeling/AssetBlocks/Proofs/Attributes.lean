import AssetBlocks.Proofs.Markup

/-! Attributes as they are written and as they are found. What is found behind a space with a
name and a quote is an attribute of that name, or it begins at the end of a value, with the quote
that closes the value. -/
namespace AssetBlocks
open Text

section quotes
variable {word x y : List Char}

theorem eq_of_begins (plain : '"' ∉ word) (plain' : '"' ∉ x)
    (begins : word ++ ['"'] <+: x ++ '"' :: y) : word = x := by
  induction word generalizing x with
  | nil =>
    cases x with
    | nil => rfl
    | cons c x =>
      obtain rfl := (List.cons_prefix_cons.mp begins).1
      simp at plain'
  | cons c word ih =>
    cases x with
    | nil =>
      obtain rfl := (List.cons_prefix_cons.mp begins).1
      simp at plain
    | cons d x =>
      obtain ⟨rfl, more⟩ := List.cons_prefix_cons.mp begins
      rw [ih (List.not_mem_of_not_mem_cons plain) (List.not_mem_of_not_mem_cons plain') more]

theorem quoted_within (plain : '"' ∉ word) (plain' : '"' ∉ x)
    (inside : word ++ ['"'] <:+: x ++ '"' :: y) : word <:+ x ∨ word ++ ['"'] <:+: y := by
  induction x with
  | nil =>
    rcases List.infix_cons_iff.mp inside with begins | later
    · rw [eq_of_begins plain plain' begins]
      exact Or.inl List.suffix_rfl
    · exact Or.inr later
  | cons c x ih =>
    rcases List.infix_cons_iff.mp inside with begins | later
    · rw [eq_of_begins plain plain' begins]
      exact Or.inl List.suffix_rfl
    · exact (ih (List.not_mem_of_not_mem_cons plain') later).imp_left
        fun ends => ends.trans (List.suffix_cons c x)

end quotes

namespace WrittenAttribute
variable {a : WrittenAttribute} {word key name rest : List Char}

/-- The attribute has the name, in any case, or its value ends like the beginning of one that
has it, to which the quote behind the value would be the first of two. -/
def Names (key : List Char) (a : WrittenAttribute) : Prop :=
  a.name.map Char.toLower = key ∨
    ∃ name, name.map Char.toLower = key ∧ ' ' :: (name ++ ['=']) <:+ a.value

theorem Plain.infix_text (plain : a.Plain) (unquoted : '"' ∉ word)
    (inside : word ++ ['"'] <:+: a.text ++ rest) :
    word <:+ a.gap ++ a.name ++ ['='] ∨ word <:+ a.value ∨ word ++ ['"'] <:+: rest := by
  have front : '"' ∉ a.gap ++ a.name ++ ['='] := by
    simp only [List.mem_append, not_or]
    refine ⟨⟨fun gap => ?_, fun named => ?_⟩, by decide⟩
    · cases List.all_eq_true.mp plain.gap_separates _ gap
    · cases List.all_eq_true.mp plain.name_solid _ named
  have parts : a.text ++ rest = a.gap ++ a.name ++ ['='] ++ '"' :: (a.value ++ '"' :: rest) := by
    simp [text]
  rw [parts] at inside
  rcases quoted_within unquoted front inside with ends | behind
  · exact Or.inl ends
  · exact Or.inr (quoted_within unquoted plain.value_plain.1 behind)

theorem infix_flatMap {attributes : List WrittenAttribute} (plain : ∀ a ∈ attributes, a.Plain)
    (unquoted : '"' ∉ word) (inside : word ++ ['"'] <:+: attributes.flatMap text) :
    ∃ a ∈ attributes, word <:+ a.gap ++ a.name ++ ['='] ∨ word <:+ a.value := by
  induction attributes with
  | nil => simp at inside
  | cons a attributes ih =>
    rw [List.flatMap_cons] at inside
    rcases (plain a (by simp)).infix_text unquoted inside with name | value | behind
    · exact ⟨a, by simp, Or.inl name⟩
    · exact ⟨a, by simp, Or.inr value⟩
    · obtain ⟨b, within, ends⟩ := ih (fun b within => plain b (by simp [within])) behind
      exact ⟨b, by simp [within], ends⟩

theorem not_isNameChar_of_isSeparator {c : Char} (separates : isSeparator c = true) :
    ¬ Element.isNameChar c = true := by
  simp only [isSeparator, Bool.or_eq_true, beq_iff_eq] at separates
  rcases separates with (((rfl | rfl) | rfl) | rfl) | rfl <;> decide

theorem Plain.name_eq (plain : a.Plain) (solid : ∀ c ∈ name, Element.isNameChar c = true)
    (ends : ' ' :: (name ++ ['=']) <:+ a.gap ++ a.name ++ ['=']) : name = a.name := by
  rw [← List.cons_append, List.suffix_append_self_iff] at ends
  have apart : ' ' ∉ a.name := by
    intro named
    cases List.all_eq_true.mp plain.name_solid _ named
  rcases List.suffix_or_suffix_of_suffix ends (List.suffix_append a.gap a.name) with
    within | within
  · exact absurd (within.subset (by simp)) apart
  · rcases List.suffix_cons_iff.mp within with same | within
    · rw [same] at apart
      simp at apart
    obtain ⟨front, rfl⟩ := within
    have gap : front <:+ a.gap := by
      apply List.suffix_append_self_iff.mp
      exact (List.suffix_cons ' ' _).trans ends
    cases front with
    | nil => rfl
    | cons c front =>
      have separates := List.all_eq_true.mp plain.gap_separates c (gap.subset (by simp))
      exact absurd (solid c (by simp)) (not_isNameChar_of_isSeparator separates)

end WrittenAttribute

theorem Element.attributesOf_spelled {body : List Char} {key value : String}
    (entry : (key, value) ∈ attributesOf body) : ∃ name, name.map Char.toLower = key.toList ∧
      (∀ c ∈ name, isNameChar c = true) ∧ ' ' :: (name ++ ['=']) ++ ['"'] <:+: body := by
  obtain ⟨m, found, same⟩ := attributesOf_mem entry
  obtain ⟨start, rest, here, within⟩ := found_within found
  obtain ⟨solid, parts⟩ := attributeAt?_parts here
  refine ⟨m.value.1, ?_, solid, ?_⟩
  · rw [(Prod.mk.inj same).1, String.toList_ofList]
  · have begins : ' ' :: (m.value.1 ++ ['=']) ++ ['"'] <+: m.text ++ rest := by
      rw [parts]
      exact ⟨m.value.2 ++ '"' :: rest, by simp⟩
    exact begins.isInfix.trans within.isInfix

theorem StartTag.attribute?_eq_none {t : StartTag} {key : String}
    (plain : ∀ a ∈ t.attributes, a.Plain) (unnamed : ∀ a ∈ t.attributes, ¬ a.Names key.toList) :
    t.element.attribute? key = none := by
  cases has : t.element.attribute? key with
  | none => rfl
  | some value =>
    have entry : (key, value) ∈ Element.attributesOf t.inner := Element.attribute?_mem has
    obtain ⟨name, lower, solid, inside⟩ := Element.attributesOf_spelled entry
    have unquoted : '"' ∉ ' ' :: (name ++ ['=']) := by
      simp only [List.mem_cons, List.mem_append, List.not_mem_nil, or_false, not_or]
      refine ⟨by decide, fun named => ?_, by decide⟩
      have quote := solid _ named
      revert quote
      decide
    obtain ⟨a, member, ends⟩ := WrittenAttribute.infix_flatMap plain unquoted inside
    refine absurd ?_ (unnamed a member)
    rcases ends with behind_gap | in_value
    · rw [WrittenAttribute.Names, ← (plain a member).name_eq solid behind_gap]
      exact Or.inl lower
    · exact Or.inr ⟨name, lower, in_value⟩

end AssetBlocks
