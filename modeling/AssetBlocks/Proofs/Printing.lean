import AssetBlocks.Proofs.ClosingMarker
import AssetBlocks.Proofs.Lines

/-! Directives as they are written. A begin tag may have blanks behind its marker and
spaces around its arguments; if the arguments hold no end of a comment and leave it open
where they stop, the scan of the text finds the tag again, whatever stands behind it. -/
namespace AssetBlocks
namespace Text
variable {α : Type}

theorem Pattern.next?_here {p : Pattern α} {lineStart : Bool} {used rest : List Char} {a : α}
    (found : p.at? lineStart (used ++ rest) = some (a, rest)) :
    p.next? lineStart (used ++ rest) = some (⟨[], used, a⟩, rest) := by
  have nonempty := (at?_split found).1
  have text : (used ++ rest).take ((used ++ rest).length - rest.length) = used := by simp
  rw [text] at nonempty
  cases used with
  | nil => exact absurd rfl nonempty
  | cons c used =>
    rw [List.cons_append] at found text ⊢
    simp only [next?, found, text]

theorem Pattern.next?_skip {p : Pattern α} {lineStart : Bool} {c : Char} {cs rest : List Char}
    {m : Match α} (absent : p.at? lineStart (c :: cs) = none)
    (found : p.next? (c == '\n') cs = some (m, rest)) :
    p.next? lineStart (c :: cs) = some ({ m with before := c :: m.before }, rest) := by
  simp only [next?, absent, found]

end Text

namespace Directive
open Text
variable {tag blanks kind behind rest : List Char} {args : Option (List Char)} {slash : Bool}

theorem marker?_of_body {body : List Char} (gaps : ∀ c ∈ blanks, isGap c = true)
    (stays : body.dropWhile isGap = body) (word : List Char) :
    marker? word (['<', '!', '-', '-'] ++ blanks ++ body) = after? word body := by
  have opened : after? ['<', '!', '-', '-'] (['<', '!', '-', '-'] ++ blanks ++ body) =
      some (blanks ++ body) := by
    rw [after?_eq_some, List.append_assoc]
  simp only [marker?, opened, List.dropWhile_append_of_pos gaps, stays]

theorem dropWhile_isGap_of_solid {word : List Char} (nonempty : word ≠ [])
    (solid : ∀ c ∈ word, isGap c = false) (rest : List Char) :
    (word ++ rest).dropWhile isGap = word ++ rest := by
  cases word with
  | nil => exact absurd rfl nonempty
  | cons c word => simp [solid c (by simp)]

theorem marker?_of_parts {word : List Char} (gaps : ∀ c ∈ blanks, isGap c = true)
    (nonempty : word ≠ []) (solid : ∀ c ∈ word, isGap c = false) (rest : List Char) :
    marker? word (['<', '!', '-', '-'] ++ blanks ++ word ++ rest) = some rest := by
  rw [List.append_assoc, marker?_of_body gaps (dropWhile_isGap_of_solid nonempty solid rest)]
  exact after?_eq_some.mpr rfl

theorem marker?_of_ne {word : List Char} {c : Char} (other : c ≠ '<') (cs : List Char) :
    marker? word (c :: cs) = none := by
  simp [marker?, after?, Ne.symm other]

theorem ending?_stops (found : ending? behind = some (args, slash, rest)) :
    behind.takeWhile isKindChar = [] := by
  cases behind with
  | nil => rfl
  | cons c cs =>
    suffices stops : isKindChar c = false by simp [stops]
    by_cases space : isSpace c = true
    · obtain rfl : c = ' ' := by simpa [isSpace] using space
      decide
    · rcases ending?_eq_some.mp found with ⟨spaces, _⟩ | ⟨_, same, _⟩
      · simp [space] at spaces
      · rw [List.dropWhile_cons, if_neg space] at same
        cases slash with
        | false =>
          obtain ⟨rfl, _⟩ := List.cons.inj same
          decide
        | true =>
          obtain ⟨rfl, _⟩ := List.cons.inj same
          decide

theorem solid_append {word word' : List Char} (solid : ∀ c ∈ word, isGap c = false)
    (solid' : ∀ c ∈ word', isGap c = false) : ∀ c ∈ word ++ word', isGap c = false := by
  intro c inside
  rcases List.mem_append.mp inside with inside | inside
  · exact solid c inside
  · exact solid' c inside

theorem begin?_of_parts (solid : ∀ c ∈ tag, isGap c = false) (gaps : ∀ c ∈ blanks, isGap c = true)
    (nonempty : kind ≠ []) (kinds : ∀ c ∈ kind, isKindChar c = true)
    (ended : ending? behind = some (args, slash, rest)) (indent : List Char) :
    begin? tag indent (['<', '!', '-', '-'] ++ blanks ++ (tag ++ [':']) ++ (kind ++ behind)) =
      some (.opening ⟨String.ofList indent, String.ofList kind, args.map String.ofList, slash⟩,
        rest) := by
  have word : ∀ c ∈ tag ++ [':'], isGap c = false := solid_append solid (by simp [isGap])
  have first : (kind ++ behind).takeWhile isKindChar = kind := by
    rw [List.takeWhile_append_of_pos kinds, ending?_stops ended, List.append_nil]
  have second : (kind ++ behind).dropWhile isKindChar = behind := by
    have parts := List.takeWhile_append_dropWhile (p := isKindChar) (l := kind ++ behind)
    rw [first] at parts
    exact List.append_cancel_left parts
  simp only [begin?, marker?_of_parts gaps (by simp) word, first, second, nonempty, if_false, ended]

theorem end?_of_parts {more : List Char} (solid : ∀ c ∈ tag, isGap c = false)
    (gaps : ∀ c ∈ blanks, isGap c = true) (gaps' : ∀ c ∈ more, isGap c = true)
    (rest : List Char) : end? tag (['<', '!', '-', '-'] ++ blanks ++ (['e', 'n', 'd'] ++ tag) ++
      (more ++ (commentEnd ++ rest))) = some (.closing, rest) := by
  have word : ∀ c ∈ ['e', 'n', 'd'] ++ tag, isGap c = false := solid_append (by simp [isGap]) solid
  have closed : after? commentEnd ((more ++ (commentEnd ++ rest)).dropWhile isGap) = some rest := by
    rw [List.dropWhile_append_of_pos gaps']
    exact after?_eq_some.mpr rfl
  simp only [end?, marker?_of_parts gaps (by simp) word, closed]

theorem begin?_of_end (solid : ∀ c ∈ tag, isGap c = false) (colon : ':' ∉ tag)
    (gaps : ∀ c ∈ blanks, isGap c = true) (indent behind : List Char) :
    begin? tag indent (['<', '!', '-', '-'] ++ blanks ++ (['e', 'n', 'd'] ++ tag) ++ behind) =
      none := by
  have word : ∀ c ∈ ['e', 'n', 'd'] ++ tag, isGap c = false := solid_append (by simp [isGap]) solid
  have never : after? (tag ++ [':']) (['e', 'n', 'd'] ++ tag ++ behind) = none := by
    cases found : after? (tag ++ [':']) (['e', 'n', 'd'] ++ tag ++ behind) with
    | none => rfl
    | some rest =>
      have within : tag ++ [':'] <+: ['e', 'n', 'd'] ++ tag :=
        List.prefix_of_prefix_length_le ⟨rest, (after?_eq_some.mp found).symm⟩
          (List.prefix_append _ _) (by simp)
      have inside : ':' ∈ ['e', 'n', 'd'] ++ tag := within.subset (by simp)
      simp [colon] at inside
  rw [List.append_assoc, begin?,
    marker?_of_body gaps (dropWhile_isGap_of_solid (by simp) word behind), never]

theorem at?_of_gap {c : Char} {cs : List Char} {lineStart : Bool} (gap : isGap c = true)
    (absent : begin? tag ((c :: cs).takeWhile isGap) ((c :: cs).dropWhile isGap) = none) :
    at? tag lineStart (c :: cs) = none := by
  have other : c ≠ '<' := by
    rintro rfl
    simp [isGap] at gap
  have body : ((c :: cs).takeWhile isGap ++ (c :: cs).dropWhile isGap).drop
      ((c :: cs).takeWhile isGap).length = (c :: cs).dropWhile isGap := List.drop_left
  rw [List.takeWhile_append_dropWhile] at body
  have ending : end? tag (c :: cs) = none := by
    rw [end?, marker?_of_ne other]
  cases lineStart with
  | true => simp only [at?, if_true, body, absent, ending]
  | false =>
    have plain : begin? tag [] (c :: cs) = none := by
      rw [begin?, marker?_of_ne other]
    simp [at?, plain, ending]

/-- What arguments may be so that they can be told from what follows them. -/
structure Tellable (slash : Bool) (args : List Char) : Prop where
  nonempty : args ≠ []
  unbroken : '\n' ∉ args
  free : ¬ commentEnd <:+: args
  first : args.head? ≠ some ' '
  last : args.getLast? ≠ some ' '
  unslashed : slash = false → args.getLast? ≠ some '/'

def closeText (trail : Nat) (slash : Bool) : List Char :=
  List.replicate trail ' ' ++ closeMark slash

theorem isSpace_of_mem_replicate {n : Nat} : ∀ c ∈ List.replicate n ' ', isSpace c = true := by
  intro c inside
  obtain rfl := List.eq_of_mem_replicate inside
  rfl

theorem closer?_closeText (trail : Nat) (slash : Bool) (rest : List Char) :
    closer? (closeText trail slash ++ rest) = some (slash, rest) := by
  apply closer?_eq_some.mpr
  exact ⟨List.replicate trail ' ', isSpace_of_mem_replicate, by rw [closeText, List.append_assoc]⟩

theorem closeText_head (trail : Nat) (slash : Bool) (rest : List Char) :
    (∃ more, closeText trail slash ++ rest = ' ' :: more) ∨
    (∃ more, closeText trail slash ++ rest = '/' :: more) ∨
    slash = false ∧ closeText trail slash ++ rest = '-' :: '-' :: '>' :: rest := by
  cases trail with
  | succ trail => exact Or.inl ⟨_, by rw [closeText, List.replicate_succ]; rfl⟩
  | zero =>
    cases slash with
    | true => exact Or.inr (Or.inl ⟨_, rfl⟩)
    | false => exact Or.inr (Or.inr ⟨rfl, rfl⟩)

/-- No closer starts in arguments: it would be an end of a comment in them, or take their
last character for the slash of the closing marker. -/
theorem not_closer_of_solid {piece more front : List Char} {slash' : Bool} {trail : Nat}
    (nonempty : piece ≠ []) (free : ¬ commentEnd <:+: piece)
    (unslashed : slash = false → (front ++ piece).getLast? ≠ some '/') :
    piece ++ (closeText trail slash ++ rest) ≠ closeMark slash' ++ more := by
  intro same
  have starts := closeText_head trail slash rest
  generalize closeText trail slash ++ rest = behind at same starts
  have inside {a b c : Char} (before : List Char) {later : List Char}
      (split : piece = before ++ a :: b :: c :: later) : ¬ (a = '-' ∧ b = '-' ∧ c = '>') := by
    rintro ⟨rfl, rfl, rfl⟩
    exact free ⟨before, later, by simp [split]⟩
  cases slash' with
  | false =>
    rcases piece with _ | ⟨a, _ | ⟨b, _ | ⟨c, piece⟩⟩⟩
    · exact nonempty rfl
    · obtain ⟨_, rfl⟩ := List.cons.inj same
      simp at starts
    · obtain ⟨_, same⟩ := List.cons.inj same
      obtain ⟨_, rfl⟩ := List.cons.inj same
      simp at starts
    · simp only [List.cons_append, closeMark, Bool.false_eq_true, if_false, List.nil_append,
        List.cons.injEq] at same
      exact inside [] rfl ⟨same.1, same.2.1, same.2.2.1⟩
  | true =>
    rcases piece with _ | ⟨a, _ | ⟨b, _ | ⟨c, _ | ⟨d, piece⟩⟩⟩⟩
    · exact nonempty rfl
    · obtain ⟨rfl, rfl⟩ := List.cons.inj same
      rcases starts with ⟨_, other⟩ | ⟨_, other⟩ | ⟨plain, _⟩
      · simp at other
      · simp at other
      · exact unslashed plain (by simp)
    · obtain ⟨_, same⟩ := List.cons.inj same
      obtain ⟨_, rfl⟩ := List.cons.inj same
      simp at starts
    · obtain ⟨_, same⟩ := List.cons.inj same
      obtain ⟨_, same⟩ := List.cons.inj same
      obtain ⟨_, rfl⟩ := List.cons.inj same
      simp at starts
    · simp only [List.cons_append, closeMark, if_true, List.nil_append, List.cons.injEq] at same
      exact inside [a] rfl ⟨same.2.1, same.2.2.1, same.2.2.2.1⟩

theorem arguments?_closeText {args : List Char} (tellable : Tellable slash args) (trail : Nat)
    (rest : List Char) :
    arguments? (args ++ (closeText trail slash ++ rest)) = some (args, slash, rest) := by
  apply arguments?_eq_some.mpr
  refine ⟨tellable.nonempty, tellable.unbroken, _, rfl, closer?_closeText trail slash rest, ?_⟩
  intro a b _ nonempty split
  cases closed : closer? (b ++ (closeText trail slash ++ rest)) with
  | none => rfl
  | some parts =>
    exfalso
    obtain ⟨slash', more⟩ := parts
    obtain ⟨spaces, solid⟩ := List.dropWhile_suffix (l := b) isSpace
    have ne : b.dropWhile isSpace ≠ [] := by
      intro empty
      have last := tellable.last
      rw [split, List.getLast?_append, List.getLast?_eq_some_getLast nonempty] at last
      have space := List.dropWhile_eq_nil_iff.mp empty _ (List.getLast_mem nonempty)
      simp only [isSpace, beq_iff_eq] at space
      simp [space] at last
    rw [closer?_iff, List.dropWhile_append, if_neg (by simpa using ne)] at closed
    have within : b.dropWhile isSpace <:+: args := by
      rw [split]
      exact (List.dropWhile_suffix isSpace).isInfix.trans (List.suffix_append a b).isInfix
    have free : ¬ commentEnd <:+: b.dropWhile isSpace :=
      fun inside => tellable.free (inside.trans within)
    have unslashed : slash = false → (a ++ spaces ++ b.dropWhile isSpace).getLast? ≠ some '/' := by
      rw [List.append_assoc, solid, ← split]
      exact tellable.unslashed
    exact not_closer_of_solid ne free unslashed closed

/-- What is written behind the kind: arguments stand between spaces, one at least before
them, and without arguments there is only the closing marker. -/
def endingText (spaces trail : Nat) (slash : Bool) : Option (List Char) → List Char
  | none => closeMark slash
  | some args => List.replicate (spaces + 1) ' ' ++ (args ++ closeText trail slash)

theorem ending?_endingText (spaces trail : Nat) (rest : List Char)
    (tellable : ∀ found ∈ args, Tellable slash found) :
    ending? (endingText spaces trail slash args ++ rest) = some (args, slash, rest) := by
  apply ending?_eq_some.mpr
  cases args with
  | none =>
    have plain : (closeMark slash ++ rest).takeWhile isSpace = [] := by cases slash <;> rfl
    have whole : (closeMark slash ++ rest).dropWhile isSpace = closeMark slash ++ rest := by
      cases slash <;> rfl
    exact Or.inr ⟨Or.inl plain, whole, by rw [endingText, plain]; rfl⟩
  | some found =>
    have told := tellable found rfl
    have solid : (found ++ (closeText trail slash ++ rest)).dropWhile isSpace =
        found ++ (closeText trail slash ++ rest) := by
      cases found with
      | nil => exact absurd rfl told.nonempty
      | cons c found => simp [isSpace, show c ≠ ' ' by simpa using told.first]
    have parts : endingText spaces trail slash (some found) ++ rest =
        List.replicate (spaces + 1) ' ' ++ (found ++ (closeText trail slash ++ rest)) := by
      simp only [endingText, List.append_assoc]
    rw [parts, List.takeWhile_append_of_pos isSpace_of_mem_replicate,
      List.dropWhile_append_of_pos isSpace_of_mem_replicate, solid]
    exact Or.inl ⟨by simp, found, rfl, arguments?_closeText told trail rest⟩

end Directive

namespace BeginTag
open Text

/-- A begin tag that has a text of its own: its parts are made of the characters that may
stand in them, and its arguments can be told from what is around them. -/
structure Printable (t : BeginTag) : Prop where
  indent : ∀ c ∈ t.indent.toList, isGap c = true
  kind_ne : t.kind.toList ≠ []
  kind : ∀ c ∈ t.kind.toList, Directive.isKindChar c = true
  args : ∀ args ∈ t.args, Directive.Tellable t.selfClosing args.toList

def print (t : BeginTag) (tag : Tag) (blanks : List Char) (spaces trail : Nat) : List Char :=
  t.indent.toList ++ (['<', '!', '-', '-'] ++ blanks ++ (tag.name.toList ++ [':']) ++
    (t.kind.toList ++ Directive.endingText spaces trail t.selfClosing (t.args.map String.toList)))

end BeginTag

namespace Tag
open Text
variable {tag : Tag} {blanks : List Char}

theorem solid (tag : Tag) : ∀ c ∈ tag.name.toList, isGap c = false := by
  intro c inside
  have valid := tag.valid
  simp only [isTag, Bool.and_eq_true, List.all_eq_true, Bool.not_eq_true'] at valid
  cases gap : isGap c with
  | false => rfl
  | true => exact absurd (isBlank_of_isGap gap) (by simp [(valid.2 c inside).1])

theorem colon_notMem (tag : Tag) : ':' ∉ tag.name.toList := by
  intro inside
  have valid := tag.valid
  simp only [isTag, Bool.and_eq_true, List.all_eq_true] at valid
  have := (valid.2 _ inside).2
  simp at this

def printEnd (tag : Tag) (blanks more : List Char) : List Char :=
  ['<', '!', '-', '-'] ++ blanks ++ (['e', 'n', 'd'] ++ tag.name.toList) ++ (more ++ commentEnd)

theorem at?_print {t : BeginTag} (printable : t.Printable) (gaps : ∀ c ∈ blanks, isGap c = true)
    (spaces trail : Nat) (rest : List Char) :
    tag.pattern.at? true (t.print tag blanks spaces trail ++ rest) = some (.opening t, rest) := by
  have tellable : ∀ found ∈ t.args.map String.toList, Directive.Tellable t.selfClosing found := by
    intro found inside
    obtain ⟨args, has, rfl⟩ := Option.map_eq_some_iff.mp inside
    exact printable.args args has
  have begun := Directive.begin?_of_parts tag.solid gaps printable.kind_ne printable.kind
    (Directive.ending?_endingText spaces trail rest tellable) t.indent.toList
  have same : t = ⟨String.ofList t.indent.toList, String.ofList t.kind.toList,
      (t.args.map String.toList).map String.ofList, t.selfClosing⟩ := by
    simp [Function.comp_def]
  rw [← same] at begun
  have parts : t.print tag blanks spaces trail ++ rest = t.indent.toList ++
      (['<', '!', '-', '-'] ++ blanks ++ (tag.name.toList ++ [':']) ++ (t.kind.toList ++
        (Directive.endingText spaces trail t.selfClosing (t.args.map String.toList) ++ rest))) := by
    simp only [BeginTag.print, List.append_assoc]
  have indent : (t.print tag blanks spaces trail ++ rest).takeWhile isGap = t.indent.toList := by
    rw [parts, List.takeWhile_append_of_pos printable.indent]
    simp [isGap]
  change Directive.at? _ _ _ = _
  rw [Directive.at?, if_pos rfl, indent, parts, List.drop_left, begun]

theorem next?_printEnd (gaps : ∀ c ∈ blanks, isGap c = true) {more indent : List Char}
    (gaps' : ∀ c ∈ more, isGap c = true) (indents : ∀ c ∈ indent, isGap c = true)
    (lineStart : Bool) (rest : List Char) :
    tag.pattern.next? lineStart (indent ++ (tag.printEnd blanks more ++ rest)) =
      some (⟨indent, tag.printEnd blanks more, .closing⟩, rest) := by
  have parts : tag.printEnd blanks more ++ rest = ['<', '!', '-', '-'] ++ blanks ++
      (['e', 'n', 'd'] ++ tag.name.toList) ++ (more ++ (commentEnd ++ rest)) := by
    simp only [printEnd, List.append_assoc]
  have begun (indent : List Char) :
      Directive.begin? tag.name.toList indent (tag.printEnd blanks more ++ rest) = none := by
    rw [parts]
    exact Directive.begin?_of_end tag.solid tag.colon_notMem gaps indent _
  have plain : (tag.printEnd blanks more ++ rest).takeWhile isGap = [] := by
    simp [printEnd, isGap]
  have whole : (tag.printEnd blanks more ++ rest).dropWhile isGap =
      tag.printEnd blanks more ++ rest := by
    simp [printEnd, isGap]
  induction indent generalizing lineStart with
  | nil =>
    rw [List.nil_append]
    apply Pattern.next?_here
    change Directive.at? _ _ _ = _
    simp only [Directive.at?, plain, ite_self, List.length_nil, List.drop_zero, begun]
    rw [parts]
    exact Directive.end?_of_parts tag.solid gaps gaps' rest
  | cons c indent ih =>
    have here : tag.pattern.at? lineStart (c :: (indent ++ (tag.printEnd blanks more ++ rest))) =
        none := by
      apply Directive.at?_of_gap (indents c (by simp))
      rw [← List.cons_append, List.dropWhile_append_of_pos indents, whole, begun]
    have later := ih (fun c inside => indents c (by simp [inside])) (c == '\n')
    exact Pattern.next?_skip here later

theorem scan_first {first second : String} (ended : EndsLine first.toList)
    (free : tag.occursIn first = false) {m : Match Directive} {rest : List Char}
    (found : tag.pattern.next? true second.toList = some (m, rest)) :
    ∃ later, (tag.scan (first ++ second)).1 =
      { m with before := first.toList ++ m.before } :: later := by
  have absent : tag.pattern.next? true first.toList = none := by
    simpa [occursIn, Pattern.contains] using free
  have before : tag.scan first = ([], first.toList) := Pattern.all_none absent
  have behind := Pattern.all_some found
  rw [tag.scan_append ended, before]
  refine ⟨(tag.pattern.all false rest).1, ?_⟩
  simp only [scan, behind, glue, List.nil_append]

/-- A directive is found where it is written and as it is written: a begin tag with its
indent, kind and arguments, and an end tag behind the indent of its line. -/
theorem scan_print (tag : Tag) {first : String} (ended : EndsLine first.toList)
    (free : tag.occursIn first = false) :
    (∀ (t : BeginTag) (blanks : List Char) (spaces trail : Nat) (rest : String), t.Printable →
      (∀ c ∈ blanks, isGap c = true) →
      (locate 0 1 (tag.scan (first ++ (String.ofList (t.print tag blanks spaces trail) ++
        rest))).1).head? =
        some (⟨byteLength first.toList,
            byteLength (first.toList ++ t.print tag blanks spaces trail),
            1 + first.toList.count '\n'⟩,
          ⟨first.toList, t.print tag blanks spaces trail, .opening t⟩)) ∧
    ∀ (indent blanks more : List Char) (rest : String), (∀ c ∈ indent, isGap c = true) →
      (∀ c ∈ blanks, isGap c = true) → (∀ c ∈ more, isGap c = true) →
      (locate 0 1 (tag.scan (first ++ (String.ofList (indent ++ tag.printEnd blanks more) ++
        rest))).1).head? =
        some (⟨byteLength first.toList + byteLength indent,
            byteLength first.toList + byteLength indent + byteLength (tag.printEnd blanks more),
            1 + first.toList.count '\n'⟩,
          ⟨first.toList ++ indent, tag.printEnd blanks more, .closing⟩) := by
  have lines : first.toList.count '\n' = lineFeeds first.toList := rfl
  rw [lines]
  constructor
  · intro t blanks spaces trail rest printable gaps
    have found : tag.pattern.next? true
        (String.ofList (t.print tag blanks spaces trail) ++ rest).toList =
        some (⟨[], t.print tag blanks spaces trail, .opening t⟩, rest.toList) := by
      rw [String.toList_append, String.toList_ofList]
      exact Pattern.next?_here (at?_print printable gaps spaces trail rest.toList)
    obtain ⟨later, same⟩ := scan_first ended free found
    rw [same]
    simp [locate, byteLength_append]
  · intro indent blanks more rest indents gaps gaps'
    have found : tag.pattern.next? true
        (String.ofList (indent ++ tag.printEnd blanks more) ++ rest).toList =
        some (⟨indent, tag.printEnd blanks more, .closing⟩, rest.toList) := by
      rw [String.toList_append, String.toList_ofList, List.append_assoc]
      exact next?_printEnd gaps gaps' indents true rest.toList
    obtain ⟨later, same⟩ := scan_first ended free found
    have unbroken : lineFeeds indent = 0 :=
      List.count_eq_zero.mpr fun inside => Directive.ne_newline_of_isGap (indents _ inside) rfl
    rw [same]
    simp [locate, byteLength_append, lineFeeds_append, unbroken, Nat.add_assoc]

/-- Dashes, an angle and a whole end tag but for its angle are arguments like others. -/
theorem scan_print_dashes :
    ∃ tag : Tag, ∃ t : BeginTag, ∃ span span' : Span, t.args = some "-> <!--enda.b--" ∧
      tag.occursIn "<p>\n" = false ∧ t.Printable ∧ span = ⟨4, 38, 2⟩ ∧ span' = ⟨5, 19, 2⟩ ∧
      (locate 0 1 (tag.scan ("<p>\n" ++ (String.ofList (t.print tag ['\t'] 0 1) ++
        "--><!--enda.b-->"))).1).head? =
        some (span, ⟨"<p>\n".toList, t.print tag ['\t'] 0 1, .opening t⟩) ∧
      (locate 0 1 (tag.scan ("<p>\n" ++ (String.ofList ([' '] ++ tag.printEnd [] ['\t']) ++
        "-->"))).1).head? =
        some (span', ⟨"<p>\n".toList ++ [' '], tag.printEnd [] ['\t'], .closing⟩) := by
  have free : Tag.occursIn ⟨"a.b", by decide⟩ "<p>\n" = false := by decide +kernel
  have printable : BeginTag.Printable ⟨" \t", "js", some "-> <!--enda.b--", true⟩ := by
    refine ⟨by simp [isGap], by decide, by simp [Directive.isKindChar, isBlank], ?_⟩
    intro args has
    obtain rfl := Option.some.inj has
    exact ⟨by decide, by decide, by decide +kernel, by decide, by decide, by decide⟩
  have ended : EndsLine "<p>\n".toList := by decide
  obtain ⟨begins, ends⟩ := scan_print ⟨"a.b", by decide⟩ ended free
  have opened := begins _ ['\t'] 0 1 "--><!--enda.b-->" printable (by simp [isGap])
  have closed := ends [' '] [] ['\t'] "-->" (by simp [isGap]) (by simp) (by simp [isGap])
  exact ⟨_, _, _, _, rfl, free, printable, by decide +kernel, by decide +kernel, opened, closed⟩

end Tag
end AssetBlocks
