import AssetBlocks.Arguments
import Mathlib.Data.List.TakeWhile

/-! The first word of a text: its first run of characters that are neither space nor tab. A
split of arguments begins with it, and is empty if there is none. -/
namespace AssetBlocks
namespace Text

theorem trimEnd_append {test : Char → Bool} {word : List Char}
    (solid : ∀ c ∈ word, test c = false) (rest : List Char) :
    trimEnd test (word ++ rest) = word ++ trimEnd test rest := by
  have kept : word.reverse.dropWhile test = word.reverse := by
    cases same : word.reverse with
    | nil => rfl
    | cons c more =>
      have inside : c ∈ word := List.mem_reverse.mp (by simp [same])
      rw [List.dropWhile_cons, solid c inside, if_neg Bool.false_ne_true]
  unfold trimEnd
  rw [List.reverse_append, List.dropWhile_append, kept]
  split
  · next empty => simp [List.isEmpty_iff.mp empty]
  · rw [List.reverse_append, List.reverse_reverse]

theorem trimEnd_prefix (test : Char → Bool) (cs : List Char) : trimEnd test cs <+: cs :=
  ⟨_, trimEnd_append_takeWhile test cs⟩

/-- The text before the word is blank, and a gap ends the word if there is more. -/
structure FirstWord (word cs : List Char) : Prop where
  nonempty : word ≠ []
  solid : ∀ c ∈ word, isGap c = false
  place : ∃ gaps rest, (∀ c ∈ gaps, isGap c = true) ∧ (∀ c ∈ rest.head?, isGap c = true) ∧
    cs = gaps ++ (word ++ rest)

end Text

namespace Arguments
open Text
variable {word rest : List Char} {args : String}

theorem tokens_word (nonempty : word ≠ []) (solid : ∀ c ∈ word, isGap c = false)
    (ended : ∀ c ∈ rest.head?, isGap c = true) : ∃ more, tokens 0 (word ++ rest) = word :: more := by
  have stops : rest.takeWhile (!isGap ·) = [] := by
    cases rest with
    | nil => rfl
    | cons c rest => simp [ended c rfl]
  have first : (word ++ rest).takeWhile (!isGap ·) = word := by
    rw [List.takeWhile_append_of_pos (by simpa using solid), stops, List.append_nil]
  obtain ⟨c, more, rfl⟩ := List.exists_cons_of_ne_nil nonempty
  refine ⟨tokens 0 (splitFirst (c :: more ++ rest)).2, ?_⟩
  rw [List.cons_append] at first ⊢
  rw [tokens, if_neg (by decide), dif_neg (by simp [solid c (by simp)])]
  simp only [splitFirst, first]

theorem split_blank (blank : ∀ c ∈ args.toList, isGap c = true) : split args 0 = [] := by
  have empty : args.toList.dropWhile isGap = [] := List.dropWhile_eq_nil_iff.mpr blank
  simp [split, trim, empty, trimEnd, tokens]

theorem split_firstWord (first : FirstWord word args.toList) :
    ∃ more, split args 0 = String.ofList word :: more := by
  obtain ⟨nonempty, solid, gaps, rest, blank, ended, text⟩ := first
  have body : args.toList.dropWhile isGap = word ++ rest := by
    obtain ⟨c, more, rfl⟩ := List.exists_cons_of_ne_nil nonempty
    rw [text, List.dropWhile_append_of_pos blank, List.cons_append, List.dropWhile_cons,
      solid c (by simp), if_neg Bool.false_ne_true]
  have ended' : ∀ c ∈ (trimEnd isGap rest).head?, isGap c = true := by
    obtain ⟨tail, same⟩ := trimEnd_prefix isGap rest
    intro c behind
    apply ended c
    rw [← same, List.head?_append, Option.mem_def.mp behind]
    rfl
  obtain ⟨more, tokens⟩ := tokens_word nonempty solid ended'
  refine ⟨more.map String.ofList, ?_⟩
  rw [split, if_neg (by decide), trim, body, trimEnd_append solid, tokens, List.map_cons]

end Arguments
end AssetBlocks
