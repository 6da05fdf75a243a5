import AssetBlocks.Element
import AssetBlocks.ModuleArguments
import AssetBlocks.Proofs.Scan

/-! What is read from arguments and from elements is a part of the text that it is read
from, with nothing added and nothing left out of its middle. -/
namespace AssetBlocks
namespace Text
variable {cs : List Char}

theorem trim_within (test : Char → Bool) (cs : List Char) : trim test cs <:+: cs := by
  have front : trimEnd test (cs.dropWhile test) <+: cs.dropWhile test :=
    ⟨_, trimEnd_append_takeWhile test (cs.dropWhile test)⟩
  exact front.isInfix.trans (List.dropWhile_suffix test).isInfix

end Text

namespace Arguments
open Text
variable {cs token : List Char}

theorem splitFirst_within (cs : List Char) :
    (splitFirst cs).1 <:+: cs ∧ (splitFirst cs).2 <:+: cs :=
  ⟨(List.takeWhile_prefix _).isInfix,
    ((List.dropWhile_suffix _).trans (List.dropWhile_suffix _)).isInfix⟩

theorem tokens_within {limit : Nat} (found : token ∈ tokens limit cs) : token <:+: cs := by
  fun_induction tokens limit cs with
  | case1 => cases found
  | case2 c cs =>
    obtain rfl := List.mem_singleton.mp found
    exact List.infix_rfl
  | case3 limit c cs _ gap ih => exact (ih found).trans (List.suffix_cons c cs).isInfix
  | case4 limit c cs _ _ rest ih =>
    obtain ⟨first, others⟩ := splitFirst_within (c :: cs)
    rcases List.mem_cons.mp found with rfl | later
    · exact first
    · exact (ih later).trans others

theorem next_within (cs : List Char) : (next cs).1 <:+: cs ∧ (next cs).2 <:+: cs := by
  have within {token : List Char} (found : token ∈ tokens 2 (trim isGap cs)) : token <:+: cs :=
    (tokens_within found).trans (trim_within isGap cs)
  unfold next
  split
  · next same => exact ⟨within (by simp [same]), within (by simp [same])⟩
  · next same => exact ⟨within (by simp [same]), List.nil_infix⟩
  · exact ⟨List.nil_infix, List.nil_infix⟩

theorem split_within {args word : String} {limit : Nat} (found : word ∈ split args limit) :
    word.toList <:+: args.toList := by
  unfold split at found
  split at found
  · obtain rfl := List.mem_singleton.mp found
    exact List.infix_rfl
  · obtain ⟨token, inside, rfl⟩ := List.mem_map.mp found
    rw [String.toList_ofList]
    exact (tokens_within inside).trans (trim_within isGap args.toList)

end Arguments

namespace ModuleArguments
open Text

theorem word?_within {cs : List Char} :
    (∀ word ∈ (word? cs).1, word.toList <:+: cs) ∧ (word? cs).2 <:+: cs := by
  unfold word?
  split
  · exact ⟨by simp, List.infix_rfl⟩
  · exact ⟨by simp, List.infix_rfl⟩
  · obtain ⟨first, rest⟩ := Arguments.next_within cs
    refine ⟨?_, rest⟩
    intro word has
    obtain rfl := Option.some.inj has
    rwa [String.toList_ofList]

theorem parse_within {args : Option String} {found : ModuleArguments}
    (parsed : parse args = .ok found) : found.main.toList <:+: (args.getD "").toList ∧
      ∀ dest ∈ found.dest, dest.toList <:+: (args.getD "").toList := by
  have raw := trim_within isBlank (args.getD "").toList
  unfold parse at parsed
  split at parsed
  · cases parsed
  · obtain ⟨main, rest⟩ := Arguments.next_within (trim isBlank (args.getD "").toList)
    have parts :
        found.main = String.ofList (Arguments.next (trim isBlank (args.getD "").toList)).1 ∧
        found.dest = (word? (Arguments.next (trim isBlank (args.getD "").toList)).2).1 := by
      simp only at parsed
      split at parsed
      · obtain rfl := Except.ok.inj parsed
        exact ⟨rfl, rfl⟩
      · split at parsed
        · obtain rfl := Except.ok.inj parsed
          exact ⟨rfl, rfl⟩
        · cases parsed
      · obtain rfl := Except.ok.inj parsed
        exact ⟨rfl, rfl⟩
    rw [parts.1, parts.2, String.toList_ofList]
    refine ⟨main.trans raw, fun dest has => ?_⟩
    exact ((word?_within.1 dest has).trans rest).trans raw

end ModuleArguments

namespace Element
open Text
variable {cs rest body : List Char} {name html value : String}

theorem attributeAt?_parts {found : List Char × List Char}
    (read : attributeAt? cs = some (found, rest)) : (∀ c ∈ found.1, isNameChar c = true) ∧
      cs = ' ' :: (found.1 ++ (['=', '"'] ++ (found.2 ++ '"' :: rest))) := by
  unfold attributeAt? at read
  split at read
  · next inner =>
    simp only at read
    split at read
    · next quoted named =>
      split at read
      · next closed =>
        split at read
        · cases read
        · obtain ⟨rfl, rfl⟩ := Prod.mk.inj (Option.some.inj read)
          have name := List.takeWhile_append_dropWhile (p := isNameChar) (l := inner)
          have value := List.takeWhile_append_dropWhile (p := (· != '"')) (l := quoted)
          rw [closed] at value
          rw [named, ← value] at name
          exact ⟨fun c => List.mem_takeWhile_imp, congrArg (' ' :: ·) name.symm⟩
      · cases read
    · cases read
  · cases read

theorem attributeAt?_value {found : List Char × List Char}
    (read : attributeAt? cs = some (found, rest)) : found.2 <:+: cs := by
  rw [(attributeAt?_parts read).2]
  exact ⟨' ' :: (found.1 ++ ['=', '"']), '"' :: rest, by simp⟩

theorem tagBody?_begins (read : tagBody? cs = some (body, rest)) : body <+: cs := by
  induction cs generalizing body with
  | nil => cases read
  | cons c cs ih =>
    rw [tagBody?] at read
    split at read
    · cases read
    · split at read
      · obtain ⟨rfl, _⟩ := Prod.mk.inj (Option.some.inj read)
        exact List.prefix_append [c] cs
      · split at read
        · next later =>
          obtain ⟨rfl, rfl⟩ := Prod.mk.inj (Option.some.inj read)
          exact List.cons_prefix_cons.mpr ⟨rfl, ih later⟩
        · cases read

theorem tagAt?_within {word : List Char} (read : tagAt? word cs = some (body, rest)) :
    body <:+: cs := by
  unfold tagAt? at read
  split at read
  · split at read
    · next named =>
      split at read
      · next ended =>
        obtain ⟨rfl, _⟩ := Prod.mk.inj (Option.some.inj read)
        have front : [' '] ++ _ <+: [' '] ++ _ :=
          (List.prefix_append_right_inj [' ']).mpr (tagBody?_begins ended)
        exact front.isInfix.trans
          ((afterAlike?_suffix named).trans (List.suffix_cons '<' _)).isInfix
      · cases read
    · cases read
  · cases read

theorem put_mem {attributes : List (String × String)} {entry : String × String}
    (inside : entry ∈ put name value attributes) : entry = (name, value) ∨ entry ∈ attributes := by
  induction attributes with
  | nil => exact Or.inl (List.mem_singleton.mp inside)
  | cons first attributes ih =>
    rw [put] at inside
    split at inside
    · rcases List.mem_cons.mp inside with same | later
      · exact Or.inl same
      · exact Or.inr (by simp [later])
    · rcases List.mem_cons.mp inside with same | later
      · exact Or.inr (by simp [same])
      · rcases ih later with same | within
        · exact Or.inl same
        · exact Or.inr (by simp [within])

theorem found_within {α : Type} {pattern : Pattern α} {lineStart : Bool} {m : Match α}
    (found : m ∈ (pattern.all lineStart cs).1) :
    ∃ start rest, pattern.at? start (m.text ++ rest) = some (m.value, rest) ∧
      m.text ++ rest <:+ cs := by
  obtain ⟨pre, post, split⟩ := List.append_of_mem found
  obtain ⟨start, here⟩ := pattern.all_found lineStart cs split
  have whole := pattern.all_covered lineStart cs
  rw [split, covered_append, covered_cons] at whole
  refine ⟨start, _, here, covered pre ++ m.before, ?_⟩
  simpa using whole

theorem foldl_put_mem {found : List (Match (List Char × List Char))}
    {attributes : List (String × String)} {entry : String × String}
    (inside : entry ∈ found.foldl (fun all found =>
      put (String.ofList (found.value.1.map Char.toLower)) (String.ofList found.value.2) all)
      attributes) :
    (∃ m ∈ found, entry =
      (String.ofList (m.value.1.map Char.toLower), String.ofList m.value.2)) ∨
    entry ∈ attributes := by
  induction found generalizing attributes with
  | nil => exact Or.inr inside
  | cons m found ih =>
    rcases ih inside with ⟨n, within, same⟩ | before
    · exact Or.inl ⟨n, by simp [within], same⟩
    · rcases put_mem before with same | before
      · exact Or.inl ⟨m, by simp, same⟩
      · exact Or.inr before

theorem attributesOf_mem {entry : String × String} (inside : entry ∈ attributesOf body) :
    ∃ m ∈ (attributePattern.all true body).1, entry =
      (String.ofList (m.value.1.map Char.toLower), String.ofList m.value.2) := by
  rcases foldl_put_mem inside with found | before
  · exact found
  · cases before

theorem attributesOf_within {entry : String × String} (inside : entry ∈ attributesOf body) :
    entry.2.toList <:+: body := by
  obtain ⟨m, found, rfl⟩ := attributesOf_mem inside
  obtain ⟨start, rest, here, within⟩ := found_within found
  rw [String.toList_ofList]
  exact (attributeAt?_value here).trans within.isInfix

theorem attribute?_mem {e : Element} {key : String} (has : e.attribute? key = some value) :
    (key, value) ∈ e.attributes := by
  obtain ⟨before, after, same, _⟩ := List.lookup_eq_some_iff.mp has
  rw [same]
  simp

theorem attribute?_within {e : Element} {key : String} (inside : e ∈ extract name html)
    (has : e.attribute? key = some value) : value.toList <:+: html.toList := by
  obtain ⟨found, within, rfl⟩ := List.mem_map.mp inside
  obtain ⟨start, rest, here, part⟩ := found_within within
  have entry : (key, value) ∈ attributesOf found.value := attribute?_mem has
  exact ((attributesOf_within entry).trans (tagAt?_within here)).trans part.isInfix

end Element
end AssetBlocks
