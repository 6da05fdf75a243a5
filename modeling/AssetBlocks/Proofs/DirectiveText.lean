import AssetBlocks.Directive.Grammar
import Mathlib.Data.List.DropRight

/-! What the text of a directive is made of. Each reader of the grammar is described by
the text that it takes: which characters may stand in which part, and which choice is
made where a text could be read in more than one way. -/
namespace AssetBlocks.Directive
open Text

variable {cs rest args : List Char} {slash : Bool}

/-- The closing marker of a begin tag, with the slash of a self-closing one. -/
def closeMark (slash : Bool) : List Char := if slash then ['/', '-', '-', '>'] else ['-', '-', '>']

theorem closer?_iff : closer? cs = some (slash, rest) ↔
    cs.dropWhile isSpace = closeMark slash ++ rest := by
  unfold closer?
  constructor
  · intro found
    split at found
    · next same =>
      simp only [Option.some.injEq, Prod.mk.injEq] at found
      obtain ⟨rfl, rfl⟩ := found
      exact same
    · next same =>
      simp only [Option.some.injEq, Prod.mk.injEq] at found
      obtain ⟨rfl, rfl⟩ := found
      exact same
    · simp at found
  · intro same
    rw [same]
    cases slash <;> rfl

theorem closer?_eq_some : closer? cs = some (slash, rest) ↔
    ∃ spaces, (∀ c ∈ spaces, isSpace c = true) ∧ cs = spaces ++ (closeMark slash ++ rest) := by
  rw [closer?_iff]
  constructor
  · intro same
    refine ⟨cs.takeWhile isSpace, fun c inside => List.mem_takeWhile_imp inside, ?_⟩
    rw [← same, List.takeWhile_append_dropWhile]
  · rintro ⟨spaces, blank, rfl⟩
    rw [List.dropWhile_append_of_pos blank]
    cases slash <;> rfl

/-- Arguments are the shortest text of one line, one character at least, that a closer
follows. -/
theorem arguments?_eq_some : arguments? cs = some (args, slash, rest) ↔
    args ≠ [] ∧ '\n' ∉ args ∧ ∃ behind, cs = args ++ behind ∧
      closer? behind = some (slash, rest) ∧
      ∀ a b, a ≠ [] → b ≠ [] → args = a ++ b → closer? (b ++ behind) = none := by
  induction cs generalizing args with
  | nil =>
    simp only [arguments?, reduceCtorEq, false_iff]
    rintro ⟨ne, _, behind, split, _⟩
    exact ne (List.append_eq_nil_iff.mp split.symm).1
  | cons c cs ih =>
    rw [arguments?]
    constructor
    · intro found
      split at found
      · simp at found
      · next same =>
        split at found
        · next closed =>
          simp only [Option.some.injEq, Prod.mk.injEq] at found
          obtain ⟨rfl, rfl, rfl⟩ := found
          refine ⟨by simp, by simpa using Ne.symm same, cs, rfl, closed, ?_⟩
          intro a b aSome bSome split
          rcases List.append_eq_singleton_iff.mp split.symm with ⟨empty, _⟩ | ⟨_, empty⟩
          · exact absurd empty aSome
          · exact absurd empty bSome
        · next unclosed =>
          split at found
          · next args' slash' rest' later =>
            simp only [Option.some.injEq, Prod.mk.injEq] at found
            obtain ⟨rfl, rfl, rfl⟩ := found
            obtain ⟨ne, line, behind, rfl, closed, shortest⟩ := ih.mp later
            refine ⟨by simp, ?_, behind, rfl, closed, ?_⟩
            · rw [List.mem_cons, not_or]
              exact ⟨Ne.symm same, line⟩
            · rintro (_ | ⟨x, a⟩) b aSome bSome split
              · exact absurd rfl aSome
              · rw [List.cons_append, List.cons.injEq] at split
                obtain ⟨rfl, rfl⟩ := split
                cases a with
                | nil => exact unclosed
                | cons y a => exact shortest (y :: a) b (by simp) bSome rfl
          · simp at found
    · rintro ⟨ne, line, behind, split, closed, shortest⟩
      cases args with
      | nil => exact absurd rfl ne
      | cons x args =>
        rw [List.cons_append, List.cons.injEq] at split
        obtain ⟨rfl, rfl⟩ := split
        rw [List.mem_cons, not_or] at line
        rw [if_neg (Ne.symm line.1)]
        cases args with
        | nil => rw [List.nil_append, closed]
        | cons y args =>
          rw [shortest [c] (y :: args) (by simp) (by simp) rfl]
          have later := ih.mpr ⟨by simp, line.2, behind, rfl, closed,
            fun a b aSome bSome split => shortest (c :: a) b (by simp) bSome (by rw [split]; rfl)⟩
          rw [later]

theorem arguments?_eq_none : arguments? cs = none ↔
    ∀ a b, a ≠ [] → '\n' ∉ a → cs = a ++ b → closer? b = none := by
  induction cs with
  | nil =>
    refine ⟨fun _ a b ne _ split => ?_, fun _ => rfl⟩
    exact absurd (List.append_eq_nil_iff.mp split.symm).1 ne
  | cons c cs ih =>
    rw [arguments?]
    constructor
    · intro found
      rintro (_ | ⟨x, a⟩) b ne line split
      · exact absurd rfl ne
      · rw [List.cons_append, List.cons.injEq] at split
        obtain ⟨rfl, rfl⟩ := split
        rw [List.mem_cons, not_or] at line
        rw [if_neg (Ne.symm line.1)] at found
        split at found
        · simp at found
        · next unclosed =>
          split at found
          · simp at found
          · next later =>
            cases a with
            | nil => exact unclosed
            | cons y a => exact ih.mp later (y :: a) b (by simp) line.2 rfl
    · intro never
      split
      · rfl
      · next same =>
        rw [never [c] cs (by simp) (by simpa using Ne.symm same) rfl]
        have later : arguments? cs = none := ih.mpr fun a b ne line split =>
          never (c :: a) b (by simp) (by simpa using ⟨Ne.symm same, line⟩) (by rw [split]; rfl)
        rw [later]

/-- With a space behind the kind, arguments are preferred. Without them, two spaces leave
one to be the arguments. -/
theorem ending?_eq_some {found : Option (List Char)} : ending? cs = some (found, slash, rest) ↔
    (cs.takeWhile isSpace ≠ [] ∧
      ∃ args, found = some args ∧ arguments? (cs.dropWhile isSpace) = some (args, slash, rest)) ∨
    ((cs.takeWhile isSpace = [] ∨ arguments? (cs.dropWhile isSpace) = none) ∧
      cs.dropWhile isSpace = closeMark slash ++ rest ∧
      found = if 2 ≤ (cs.takeWhile isSpace).length then some [' '] else none) := by
  have closes : closer? (cs.dropWhile isSpace) = some (slash, rest) ↔
      cs.dropWhile isSpace = closeMark slash ++ rest := by
    rw [closer?_iff, List.dropWhile_idempotent]
  unfold ending?
  simp only
  cases chosen : (if cs.takeWhile isSpace = [] then none else arguments? (cs.dropWhile isSpace)) with
  | some parts =>
    obtain ⟨args, slash', rest'⟩ := parts
    have behindSpace : cs.takeWhile isSpace ≠ [] := fun empty => by simp [empty] at chosen
    rw [if_neg behindSpace] at chosen
    simp only [chosen, behindSpace, reduceCtorEq, or_self, false_and, or_false, ne_eq,
      not_false_eq_true, true_and, Option.some.injEq, Prod.mk.injEq]
    constructor
    · rintro ⟨rfl, rfl, rfl⟩
      exact ⟨args, rfl, rfl, rfl, rfl⟩
    · rintro ⟨_, rfl, rfl, rfl, rfl⟩
      exact ⟨rfl, rfl, rfl⟩
  | none =>
    have without : cs.takeWhile isSpace = [] ∨ arguments? (cs.dropWhile isSpace) = none := by
      by_cases empty : cs.takeWhile isSpace = []
      · exact Or.inl empty
      · exact Or.inr (by rwa [if_neg empty] at chosen)
    have first : ¬ (cs.takeWhile isSpace ≠ [] ∧ ∃ args, found = some args ∧
        arguments? (cs.dropWhile isSpace) = some (args, slash, rest)) := by
      rintro ⟨nonempty, args, _, read⟩
      rcases without with empty | unread
      · exact nonempty empty
      · simp [unread] at read
    rw [or_iff_right first, and_iff_right without, ← closes]
    cases closer? (cs.dropWhile isSpace) with
    | none => simp
    | some parts =>
      simp only [Option.some.injEq, Prod.ext_iff]
      constructor
      · rintro ⟨rfl, rfl, rfl⟩
        exact ⟨⟨rfl, rfl⟩, rfl⟩
      · rintro ⟨⟨rfl, rfl⟩, rfl⟩
        exact ⟨rfl, rfl, rfl⟩

theorem marker?_parts {word : List Char} (found : marker? word cs = some rest) :
    ∃ blanks, (∀ c ∈ blanks, isGap c = true) ∧
      cs = ['<', '!', '-', '-'] ++ blanks ++ word ++ rest := by
  unfold marker? at found
  split at found
  · next inner opened =>
    rw [after?_eq_some] at found opened
    refine ⟨inner.takeWhile isGap, fun c inside => List.mem_takeWhile_imp inside, ?_⟩
    rw [opened, List.append_assoc, List.append_assoc, ← found, List.takeWhile_append_dropWhile]
  · simp at found

theorem begin?_parts {tag indent : List Char} {d : Directive}
    (found : begin? tag indent cs = some (d, rest)) :
    ∃ blanks kind behind args slash, (∀ c ∈ blanks, isGap c = true) ∧ kind ≠ [] ∧
      (∀ c ∈ kind, isKindChar c = true) ∧
      cs = ['<', '!', '-', '-'] ++ blanks ++ (tag ++ [':']) ++ (kind ++ behind) ∧
      ending? behind = some (args, slash, rest) ∧
      d = .opening ⟨String.ofList indent, String.ofList kind, args.map String.ofList, slash⟩ := by
  unfold begin? at found
  split at found
  · simp at found
  · next body marked =>
    obtain ⟨blanks, gaps, rfl⟩ := marker?_parts marked
    simp only at found
    split at found
    · simp at found
    · next nonempty =>
      split at found
      · simp at found
      · next args slash rest' ended =>
        simp only [Option.some.injEq, Prod.mk.injEq] at found
        obtain ⟨rfl, rfl⟩ := found
        exact ⟨blanks, _, _, args, slash, gaps, nonempty,
          fun c inside => List.mem_takeWhile_imp inside,
          by rw [List.takeWhile_append_dropWhile], ended, rfl⟩

theorem end?_parts {tag : List Char} {d : Directive} (found : end? tag cs = some (d, rest)) :
    ∃ blanks more, (∀ c ∈ blanks, isGap c = true) ∧ (∀ c ∈ more, isGap c = true) ∧
      cs = ['<', '!', '-', '-'] ++ blanks ++ (['e', 'n', 'd'] ++ tag) ++
        (more ++ (['-', '-', '>'] ++ rest)) ∧ d = .closing := by
  unfold end? at found
  split at found
  · simp at found
  · next body marked =>
    obtain ⟨blanks, gaps, rfl⟩ := marker?_parts marked
    split at found
    · next rest' closed =>
      simp only [Option.some.injEq, Prod.mk.injEq] at found
      obtain ⟨rfl, rfl⟩ := found
      rw [after?_eq_some] at closed
      exact ⟨blanks, body.takeWhile isGap, gaps, fun c inside => List.mem_takeWhile_imp inside,
        by rw [← closed, List.takeWhile_append_dropWhile], rfl⟩
    · simp at found

theorem at?_opening {tag : List Char} {lineStart : Bool} {t : BeginTag}
    (found : at? tag lineStart cs = some (.opening t, rest)) :
    ∃ indent body, (∀ c ∈ indent, isGap c = true) ∧ cs = indent ++ body ∧
      begin? tag indent body = some (.opening t, rest) := by
  unfold at? at found
  simp only at found
  split at found
  · next begun =>
    simp only [Option.some.injEq] at found
    subst found
    cases lineStart with
    | false => exact ⟨[], cs, by simp, rfl, begun⟩
    | true =>
      have body : (cs.takeWhile isGap ++ cs.dropWhile isGap).drop (cs.takeWhile isGap).length =
          cs.dropWhile isGap := List.drop_left
      rw [List.takeWhile_append_dropWhile] at body
      rw [if_pos rfl, body] at begun
      exact ⟨cs.takeWhile isGap, cs.dropWhile isGap,
        fun c inside => List.mem_takeWhile_imp inside,
        List.takeWhile_append_dropWhile.symm, begun⟩
  · obtain ⟨_, _, _, _, _, same⟩ := end?_parts found
    simp at same

theorem ne_newline_of_isGap {c : Char} (h : isGap c = true) : c ≠ '\n' := by
  rintro rfl
  simp [isGap] at h

theorem ne_newline_of_isSpace {c : Char} (h : isSpace c = true) : c ≠ '\n' := by
  rintro rfl
  simp [isSpace] at h

theorem ne_newline_of_isKindChar {c : Char} (h : isKindChar c = true) : c ≠ '\n' := by
  rintro rfl
  simp [isKindChar, isBlank] at h

theorem newline_notMem_closeMark : '\n' ∉ closeMark slash := by cases slash <;> decide

theorem closer?_inline (found : closer? cs = some (slash, rest)) :
    ∃ used, cs = used ++ rest ∧ '\n' ∉ used := by
  obtain ⟨spaces, blank, rfl⟩ := closer?_eq_some.mp found
  refine ⟨spaces ++ closeMark slash, by simp, ?_⟩
  rw [List.mem_append, not_or]
  exact ⟨fun inside => ne_newline_of_isSpace (blank _ inside) rfl, newline_notMem_closeMark⟩

theorem ending?_inline {args : Option (List Char)} (found : ending? cs = some (args, slash, rest)) :
    ∃ used, cs = used ++ rest ∧ '\n' ∉ used := by
  have spaces : '\n' ∉ cs.takeWhile isSpace := fun inside =>
    ne_newline_of_isSpace (List.mem_takeWhile_imp inside) rfl
  have parts := List.takeWhile_append_dropWhile (p := isSpace) (l := cs)
  rcases ending?_eq_some.mp found with ⟨_, args, _, read⟩ | ⟨_, same, _⟩
  · obtain ⟨_, line, behind, split, closed, _⟩ := arguments?_eq_some.mp read
    obtain ⟨used, rfl, unbroken⟩ := closer?_inline closed
    refine ⟨cs.takeWhile isSpace ++ (args ++ used), ?_, ?_⟩
    · rw [List.append_assoc, List.append_assoc, ← split, parts]
    · simp [spaces, line, unbroken]
  · refine ⟨cs.takeWhile isSpace ++ closeMark slash, ?_, ?_⟩
    · rw [List.append_assoc, ← same, parts]
    · simp [spaces, newline_notMem_closeMark]

theorem at?_inline {tag : List Char} {lineStart : Bool} {d : Directive} (line : '\n' ∉ tag)
    (found : at? tag lineStart cs = some (d, rest)) :
    ∃ used, cs = used ++ rest ∧ '\n' ∉ used := by
  have gap {gaps : List Char} (h : ∀ c ∈ gaps, isGap c = true) : '\n' ∉ gaps :=
    fun inside => ne_newline_of_isGap (h _ inside) rfl
  cases d with
  | opening t =>
    obtain ⟨indent, body, gaps, rfl, begun⟩ := at?_opening found
    obtain ⟨blanks, kind, behind, args, slash, gaps', _, kinds, rfl, ended, _⟩ := begin?_parts begun
    obtain ⟨used, rfl, unbroken⟩ := ending?_inline ended
    have inKind : '\n' ∉ kind := fun inside => ne_newline_of_isKindChar (kinds _ inside) rfl
    refine ⟨indent ++ (['<', '!', '-', '-'] ++ blanks ++ (tag ++ [':']) ++ (kind ++ used)),
      by simp, ?_⟩
    simp [gap gaps, gap gaps', line, inKind, unbroken]
  | closing =>
    unfold at? at found
    simp only at found
    split at found
    · next begun =>
      simp only [Option.some.injEq] at found
      subst found
      obtain ⟨_, _, _, _, _, _, _, _, _, _, same⟩ := begin?_parts begun
      simp at same
    · obtain ⟨blanks, more, gaps, gaps', rfl, _⟩ := end?_parts found
      refine ⟨['<', '!', '-', '-'] ++ blanks ++ (['e', 'n', 'd'] ++ tag) ++
        (more ++ ['-', '-', '>']), by simp, ?_⟩
      simp [gap gaps, gap gaps', line]

end AssetBlocks.Directive
