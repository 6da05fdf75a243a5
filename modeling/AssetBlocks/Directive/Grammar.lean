import AssetBlocks.Directive.Basic
import AssetBlocks.Text.Pattern

/-! The grammar of directives. A begin tag is read from left to right: its indent, the
marker with the tag, the kind, and then the fewest characters of arguments that a
closing marker on the same line allows. -/
namespace AssetBlocks
open Text

namespace Directive

/-- Spaces, the slash of a self-closing tag, and the closing marker: whether the slash
is there, and what follows. -/
def closer? (cs : List Char) : Option (Bool × List Char) :=
  match cs.dropWhile isSpace with
  | '/' :: '-' :: '-' :: '>' :: rest => some (true, rest)
  | '-' :: '-' :: '>' :: rest => some (false, rest)
  | _ => none

/-- The fewest characters of one line, one at least, that a closer follows. -/
def arguments? : List Char → Option (List Char × Bool × List Char)
  | [] => none
  | c :: cs =>
    if c = '\n' then none
    else match closer? cs with
      | some (slash, rest) => some ([c], slash, rest)
      | none =>
        match arguments? cs with
        | some (args, slash, rest) => some (c :: args, slash, rest)
        | none => none

/-- What follows the kind: arguments, preferred to a closer, or a closer alone. -/
def ending? (cs : List Char) : Option (Option (List Char) × Bool × List Char) :=
  let spaces := cs.takeWhile isSpace
  let body := cs.dropWhile isSpace
  match if spaces = [] then none else arguments? body with
  | some (args, slash, rest) => some (some args, slash, rest)
  | none =>
    match closer? body with
    -- of two spaces before a closer, one is taken for the arguments
    | some (slash, rest) => some (if 2 ≤ spaces.length then some [' '] else none, slash, rest)
    | none => none

def marker? (word cs : List Char) : Option (List Char) :=
  match after? ['<', '!', '-', '-'] cs with
  | some rest => after? word (rest.dropWhile isGap)
  | none => none

def isKindChar (c : Char) : Bool := !isBlank c && c != '/' && c != '-'

def begin? (tag indent cs : List Char) : Option (Directive × List Char) :=
  match marker? (tag ++ [':']) cs with
  | none => none
  | some body =>
    let kind := body.takeWhile isKindChar
    if kind = [] then none
    else match ending? (body.dropWhile isKindChar) with
      | none => none
      | some (args, slash, rest) =>
        let args := args.map String.ofList
        some (.opening ⟨String.ofList indent, String.ofList kind, args, slash⟩, rest)

def end? (tag cs : List Char) : Option (Directive × List Char) :=
  match marker? (['e', 'n', 'd'] ++ tag) cs with
  | none => none
  | some body =>
    match after? ['-', '-', '>'] (body.dropWhile isGap) with
    | some rest => some (.closing, rest)
    | none => none

def at? (tag : List Char) (lineStart : Bool) (cs : List Char) : Option (Directive × List Char) :=
  let indent := if lineStart then cs.takeWhile isGap else []
  match begin? tag indent (cs.drop indent.length) with
  | some found => some found
  | none => end? tag cs

theorem closer?_suffix {cs rest : List Char} {slash : Bool}
    (found : closer? cs = some (slash, rest)) : rest <:+ cs := by
  have spaces := List.dropWhile_suffix (l := cs) isSpace
  unfold closer? at found
  split at found
  · next same =>
    simp only [Option.some.injEq, Prod.mk.injEq] at found
    obtain ⟨_, rfl⟩ := found
    rw [same] at spaces
    exact (List.suffix_append ['/', '-', '-', '>'] _).trans spaces
  · next same =>
    simp only [Option.some.injEq, Prod.mk.injEq] at found
    obtain ⟨_, rfl⟩ := found
    rw [same] at spaces
    exact (List.suffix_append ['-', '-', '>'] _).trans spaces
  · simp at found

theorem arguments?_suffix {cs args rest : List Char} {slash : Bool}
    (found : arguments? cs = some (args, slash, rest)) : rest <:+ cs := by
  induction cs generalizing args slash rest with
  | nil => simp [arguments?] at found
  | cons c cs ih =>
    rw [arguments?] at found
    split at found
    · simp at found
    · split at found
      · next closed =>
        simp only [Option.some.injEq, Prod.mk.injEq] at found
        obtain ⟨_, _, rfl⟩ := found
        exact (closer?_suffix closed).trans (List.suffix_cons c cs)
      · split at found
        · next later =>
          simp only [Option.some.injEq, Prod.mk.injEq] at found
          obtain ⟨_, _, rfl⟩ := found
          exact (ih later).trans (List.suffix_cons c cs)
        · simp at found

theorem ending?_suffix {cs rest : List Char} {args : Option (List Char)} {slash : Bool}
    (found : ending? cs = some (args, slash, rest)) : rest <:+ cs := by
  have body := List.dropWhile_suffix (l := cs) isSpace
  unfold ending? at found
  simp only at found
  split at found
  · next some =>
    simp only [Option.some.injEq, Prod.mk.injEq] at found
    obtain ⟨_, _, rfl⟩ := found
    split at some
    · simp at some
    · exact (arguments?_suffix some).trans body
  · split at found
    · next closed =>
      simp only [Option.some.injEq, Prod.mk.injEq] at found
      obtain ⟨_, _, rfl⟩ := found
      exact (closer?_suffix closed).trans body
    · simp at found

theorem marker?_split {word cs rest : List Char} (found : marker? word cs = some rest) :
    ∃ blanks, cs = ['<', '!', '-', '-'] ++ blanks ++ word ++ rest := by
  unfold marker? at found
  split at found
  · next inner opened =>
    rw [after?_eq_some] at found opened
    refine ⟨inner.takeWhile isGap, ?_⟩
    rw [opened, List.append_assoc, List.append_assoc, ← found, List.takeWhile_append_dropWhile]
  · simp at found

theorem begin?_split {tag indent cs rest : List Char} {d : Directive}
    (found : begin? tag indent cs = some (d, rest)) : ∃ used, used ≠ [] ∧ cs = used ++ rest := by
  unfold begin? at found
  split at found
  · simp at found
  · next body marked =>
    simp only at found
    split at found
    · simp at found
    · split at found
      · simp at found
      · next ended =>
        simp only [Option.some.injEq, Prod.mk.injEq] at found
        obtain ⟨_, rfl⟩ := found
        obtain ⟨used, same⟩ := (ending?_suffix ended).trans (List.dropWhile_suffix (l := body) _)
        obtain ⟨blanks, rfl⟩ := marker?_split marked
        exact ⟨['<', '!', '-', '-'] ++ blanks ++ (tag ++ [':']) ++ used, by simp, by simp [← same]⟩

theorem end?_split {tag cs rest : List Char} {d : Directive}
    (found : end? tag cs = some (d, rest)) : ∃ used, used ≠ [] ∧ cs = used ++ rest := by
  unfold end? at found
  split at found
  · simp at found
  · next body marked =>
    split at found
    · next closed =>
      simp only [Option.some.injEq, Prod.mk.injEq] at found
      obtain ⟨_, rfl⟩ := found
      rw [after?_eq_some] at closed
      obtain ⟨blanks, rfl⟩ := marker?_split marked
      refine ⟨['<', '!', '-', '-'] ++ blanks ++ (['e', 'n', 'd'] ++ tag) ++
        body.takeWhile isGap ++ ['-', '-', '>'], by simp, ?_⟩
      rw [List.append_assoc _ ['-', '-', '>'], ← closed,
        List.append_assoc _ _ (body.dropWhile isGap), List.takeWhile_append_dropWhile]
    · simp at found

theorem at?_split {tag cs rest : List Char} {lineStart : Bool} {d : Directive}
    (found : at? tag lineStart cs = some (d, rest)) : ∃ used, used ≠ [] ∧ cs = used ++ rest := by
  unfold at? at found
  simp only at found
  split at found
  · next begun =>
    simp only [Option.some.injEq] at found
    subst found
    obtain ⟨used, ne, same⟩ := begin?_split begun
    refine ⟨cs.take (if lineStart then cs.takeWhile isGap else []).length ++ used, by simp [ne], ?_⟩
    rw [List.append_assoc, ← same, List.take_append_drop]
  · exact end?_split found

end Directive

def Tag.pattern (tag : Tag) : Pattern Directive where
  at? := Directive.at? tag.name.toList
  consumes := Directive.at?_split

/-- The directives of a document with the text between them, and the text behind the
last one. -/
def Tag.scan (tag : Tag) (document : String) : List (Match Directive) × List Char :=
  tag.pattern.all true document.toList

def Tag.occursIn (tag : Tag) (text : String) : Bool := tag.pattern.contains text.toList

/-- Where a match stands: the bytes before it and behind it, and its line. -/
structure Span where
  start : Nat
  stop : Nat
  line : Nat
deriving DecidableEq, Repr

def locate {α : Type} (bytes line : Nat) : List (Match α) → List (Span × Match α)
  | [] => []
  | m :: ms =>
    let start := bytes + byteLength m.before
    let stop := start + byteLength m.text
    let here := line + lineFeeds m.before
    (⟨start, stop, here⟩, m) :: locate stop (here + lineFeeds m.text) ms

def takeBytes : Nat → List Char → List Char
  | _, [] => []
  | bytes, c :: cs => if bytes = 0 then [] else c :: takeBytes (bytes - c.utf8Size) cs

/-- The line of a byte offset, counted from one. -/
def lineOf (document : String) (offset : Nat) : Nat :=
  1 + lineFeeds (takeBytes offset document.toList)

end AssetBlocks
