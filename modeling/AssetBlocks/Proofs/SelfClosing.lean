import AssetBlocks.Proofs.Printing

/-! The fields of a begin tag and how its text ends. A tag is self-closing if a slash is
before its closing marker, and its arguments begin and end with something else than a space.
There are two exceptions, both of tags with nothing but spaces behind the kind: a slash behind
these is read as the arguments, and so is one of two spaces before a marker without a slash. -/
namespace AssetBlocks
namespace Directive
open Text

variable {cs rest used args front : List Char} {found : Option (List Char)} {slash : Bool}

/-- Only spaces are between the kind and the slash. -/
def LoneSlash (used : List Char) : Prop := ∃ n, used = closeText (n + 1) true

/-- Only spaces, two at least, are between the kind and a closing marker without a slash. -/
def LoneSpaces (used : List Char) : Prop := ∃ n, used = closeText (n + 2) false

/-- A text that has no space at its ends. -/
structure Trimmed (args : List Char) : Prop where
  nonempty : args ≠ []
  first : args.head? ≠ some ' '
  last : args.getLast? ≠ some ' '

/-- What a begin tag has behind its kind, with the arguments and the slash that are read. -/
inductive Tail : Option (List Char) → Bool → List Char → Prop
  | bare (slash : Bool) : Tail none slash (closeText 0 slash)
  | space : Tail none false (closeText 1 false)
  | spaces (n : Nat) : Tail (some [' ']) false (closeText (n + 2) false)
  | slash (n : Nat) : Tail (some ['/']) false (closeText (n + 1) true)
  | args {args : List Char} {slash : Bool} (n trail : Nat) (trimmed : Trimmed args)
      (unslashed : slash = false → trail = 0 → args.getLast? ≠ some '/') :
      Tail (some args) slash (endingText n trail slash (some args))

theorem closer?_space (cs : List Char) : closer? (' ' :: cs) = closer? cs := by
  have dropped : (' ' :: cs).dropWhile isSpace = cs.dropWhile isSpace := by simp [isSpace]
  unfold closer?
  rw [dropped]

theorem arguments?_trimmed (read : arguments? cs = some (args, slash, rest))
    (first : cs.head? ≠ some ' ') : Trimmed args := by
  obtain ⟨nonempty, _, behind, rfl, closed, shortest⟩ := arguments?_eq_some.mp read
  rw [List.head?_append_of_ne_nil _ nonempty] at first
  refine ⟨nonempty, first, ?_⟩
  intro last
  obtain ⟨front, rfl⟩ := List.getLast?_eq_some_iff.mp last
  have more : front ≠ [] := by
    rintro rfl
    exact first rfl
  have unclosed := shortest front [' '] more (by simp) rfl
  rw [List.singleton_append, closer?_space, closed] at unclosed
  cases unclosed

theorem arguments?_slash (read : arguments? (args ++ (commentEnd ++ rest)) =
    some (args, false, rest)) (last : args.getLast? = some '/') : args = ['/'] := by
  obtain ⟨_, _, behind, same, _, shortest⟩ := arguments?_eq_some.mp read
  obtain rfl := List.append_cancel_left same
  obtain ⟨front, rfl⟩ := List.getLast?_eq_some_iff.mp last
  by_contra more
  have nonempty : front ≠ [] := by
    rintro rfl
    exact more rfl
  have unclosed := shortest front ['/'] nonempty (by simp) rfl
  have closed : closer? (['/'] ++ (commentEnd ++ rest)) = some (true, rest) := rfl
  rw [closed] at unclosed
  cases unclosed

theorem eq_replicate_of_isSpace {spaces : List Char} (blank : ∀ c ∈ spaces, isSpace c = true) :
    spaces = List.replicate spaces.length ' ' := by
  apply List.eq_replicate_of_mem
  intro c inside
  simpa [isSpace] using blank c inside

theorem closeText_split (n : Nat) (slash : Bool) (behind : List Char) :
    closeText n slash ++ behind = List.replicate n ' ' ++ (closeMark slash ++ behind) := by
  rw [closeText, List.append_assoc]

theorem arguments?_tail (n : Nat) (first : cs.head? ≠ some ' ')
    (read : arguments? cs = some (args, slash, rest)) :
    ∃ used, Tail (some args) slash used ∧ List.replicate (n + 1) ' ' ++ cs = used ++ rest := by
  have trimmed := arguments?_trimmed read first
  obtain ⟨_, _, behind, rfl, closed, _⟩ := arguments?_eq_some.mp read
  obtain ⟨trail, blank, rfl⟩ := closer?_eq_some.mp closed
  rw [eq_replicate_of_isSpace blank] at read ⊢
  generalize trail.length = k at read
  by_cases exposed : slash = false ∧ k = 0 ∧ args.getLast? = some '/'
  · obtain ⟨rfl, rfl, last⟩ := exposed
    obtain rfl := arguments?_slash read last
    refine ⟨closeText (n + 1) true, .slash n, ?_⟩
    rw [closeText_split]
    rfl
  · have unslashed : slash = false → k = 0 → args.getLast? ≠ some '/' :=
      fun plain zero last => exposed ⟨plain, zero, last⟩
    refine ⟨endingText n k slash (some args), .args n k trimmed unslashed, ?_⟩
    simp only [endingText, closeText, List.append_assoc]

theorem arguments?_slash_commentEnd (more : List Char) :
    arguments? (closeMark true ++ more) = some (['/'], false, more) := by
  have closed : closer? (commentEnd ++ more) = some (false, more) := closer?_commentEnd more
  have text : closeMark true ++ more = '/' :: (commentEnd ++ more) := rfl
  rw [text, arguments?, if_neg (by decide), closed]

/-- Whatever is read behind a kind has one of the forms. -/
theorem ending?_tail (ended : ending? cs = some (found, slash, rest)) :
    ∃ used, Tail found slash used ∧ cs = used ++ rest := by
  have parts := List.takeWhile_append_dropWhile (p := isSpace) (l := cs)
  have lead := eq_replicate_of_isSpace fun c (inside : c ∈ cs.takeWhile isSpace) =>
    List.mem_takeWhile_imp inside
  have first : (cs.dropWhile isSpace).head? ≠ some ' ' := by
    intro space
    have kept := List.head?_dropWhile_not isSpace cs
    rw [space] at kept
    cases kept
  have counted := ending?_eq_some.mp ended
  rw [lead] at parts counted
  rw [List.length_replicate] at counted
  generalize (cs.takeWhile isSpace).length = n at parts counted
  rcases counted with ⟨positive, args, rfl, read⟩ | ⟨without, same, rfl⟩
  · cases n with
    | zero => exact absurd rfl positive
    | succ n =>
      obtain ⟨used, tail, text⟩ := arguments?_tail n first read
      exact ⟨used, tail, parts.symm.trans text⟩
  · rw [same, ← closeText_split] at parts
    refine ⟨closeText n slash, ?_, parts.symm⟩
    rcases n with _ | n
    · exact .bare slash
    · have plain : slash = false := by
        rcases without with empty | unread
        · cases empty
        · cases slash with
          | false => rfl
          | true =>
            rw [same, arguments?_slash_commentEnd] at unread
            cases unread
      subst plain
      cases n with
      | zero => exact .space
      | succ n => exact .spaces n

theorem closeText_dropWhile (n : Nat) (slash : Bool) :
    (closeText n slash).dropWhile isSpace = closeMark slash := by
  rw [closeText, List.dropWhile_append_of_pos isSpace_of_mem_replicate]
  cases slash <;> rfl

theorem endingText_dropWhile (n trail : Nat) (trimmed : Trimmed args) :
    (endingText n trail slash (some args)).dropWhile isSpace = args ++ closeText trail slash := by
  obtain ⟨c, more, rfl⟩ := List.exists_cons_of_ne_nil trimmed.nonempty
  have solid : c ≠ ' ' := by simpa using trimmed.first
  rw [endingText, List.dropWhile_append_of_pos isSpace_of_mem_replicate]
  simp [isSpace, solid]

theorem closeMark_inj {slash' : Bool} (same : closeMark slash = closeMark slash') :
    slash = slash' := by
  cases slash <;> cases slash' <;> simp_all [closeMark]

theorem closeText_inj {n k : Nat} {slash' : Bool} (same : closeText n slash = closeText k slash') :
    n = k ∧ slash = slash' := by
  have marks := congrArg (List.dropWhile isSpace) same
  rw [closeText_dropWhile, closeText_dropWhile] at marks
  obtain rfl := closeMark_inj marks
  have lengths := congrArg List.length same
  simp only [closeText, List.length_append, List.length_replicate] at lengths
  exact ⟨by omega, rfl⟩

theorem endingText_ne_closeText {n trail k : Nat} {slash' : Bool} (trimmed : Trimmed args)
    (unslashed : slash = false → trail = 0 → args.getLast? ≠ some '/') :
    endingText n trail slash (some args) ≠ closeText k slash' := by
  intro same
  have solid := congrArg (List.dropWhile isSpace) same
  rw [endingText_dropWhile n trail trimmed, closeText_dropWhile] at solid
  obtain ⟨c, more, rfl⟩ := List.exists_cons_of_ne_nil trimmed.nonempty
  have lengths := congrArg List.length solid
  cases slash <;> cases slash' <;>
    simp only [closeText, closeMark, List.length_append, List.length_replicate, List.length_cons,
      List.length_nil, if_true, if_false, Bool.false_eq_true] at lengths
  · omega
  · obtain rfl : trail = 0 := by omega
    obtain rfl : more = [] := List.eq_nil_of_length_eq_zero (by omega)
    obtain ⟨rfl, _⟩ := List.cons.inj solid
    exact unslashed rfl rfl rfl
  · omega
  · omega

theorem slashed_iff : closeMark true <:+ front ++ commentEnd ↔ front.getLast? = some '/' := by
  rw [List.getLast?_eq_some_iff]
  constructor
  · rintro ⟨before, same⟩
    have split : before ++ ['/'] ++ commentEnd = front ++ commentEnd := by
      rw [← same, List.append_assoc]
      rfl
    exact ⟨before, (List.append_cancel_right split).symm⟩
  · rintro ⟨before, rfl⟩
    exact ⟨before, by simp [closeMark]⟩

theorem not_slashed_closeText (n : Nat) : ¬ closeMark true <:+ closeText n false := by
  intro slashed
  have last := slashed_iff.mp slashed
  rw [List.getLast?_replicate] at last
  split at last <;> cases last

theorem slashed_endingText {n trail : Nat} (trimmed : Trimmed args)
    (slashed : closeMark true <:+ endingText n trail false (some args)) :
    trail = 0 ∧ args.getLast? = some '/' := by
  have text : endingText n trail false (some args) =
      List.replicate (n + 1) ' ' ++ (args ++ List.replicate trail ' ') ++ commentEnd := by
    simp [endingText, closeText, closeMark]
  rw [text, slashed_iff] at slashed
  cases trail with
  | zero =>
    rw [List.replicate_zero, List.append_nil, List.getLast?_append_of_ne_nil _ trimmed.nonempty]
      at slashed
    exact ⟨rfl, slashed⟩
  | succ trail =>
    have spaces : List.replicate (trail + 1) ' ' = List.replicate trail ' ' ++ [' '] :=
      List.replicate_succ'
    rw [spaces, ← List.append_assoc, ← List.append_assoc, List.getLast?_concat] at slashed
    cases slashed

namespace Tail

theorem loneSlash (tail : Tail found slash used) (lone : LoneSlash used) :
    found = some ['/'] ∧ slash = false := by
  obtain ⟨k, same⟩ := lone
  cases tail with
  | bare slash => cases (closeText_inj same).1
  | space => cases (closeText_inj same).2
  | spaces n => cases (closeText_inj same).2
  | slash n => exact ⟨rfl, rfl⟩
  | args n trail trimmed unslashed => exact absurd same (endingText_ne_closeText trimmed unslashed)

theorem loneSpaces (tail : Tail found slash used) (lone : LoneSpaces used) :
    found = some [' '] ∧ slash = false := by
  obtain ⟨k, same⟩ := lone
  cases tail with
  | bare slash => cases (closeText_inj same).1
  | space =>
    obtain ⟨count, _⟩ := closeText_inj same
    omega
  | spaces n => exact ⟨rfl, rfl⟩
  | slash n => cases (closeText_inj same).2
  | args n trail trimmed unslashed => exact absurd same (endingText_ne_closeText trimmed unslashed)

theorem slash_iff (tail : Tail found slash used) :
    slash = true ↔ closeMark true <:+ used ∧ ¬ LoneSlash used := by
  constructor
  · rintro rfl
    constructor
    · cases tail with
      | bare => exact List.suffix_rfl
      | args n trail trimmed unslashed =>
        simp only [endingText, closeText, ← List.append_assoc]
        exact List.suffix_append _ _
    · intro lone
      cases (tail.loneSlash lone).2
  · rintro ⟨slashed, alone⟩
    by_contra plain
    cases tail with
    | bare slash =>
      obtain rfl : slash = false := by simpa using plain
      exact not_slashed_closeText 0 slashed
    | space => exact not_slashed_closeText 1 slashed
    | spaces n => exact not_slashed_closeText _ slashed
    | slash n => exact alone ⟨n, rfl⟩
    | @args args slash n trail trimmed unslashed =>
      obtain rfl : slash = false := by simpa using plain
      obtain ⟨zero, last⟩ := slashed_endingText trimmed slashed
      exact unslashed rfl zero last

theorem trimmed_iff (tail : Tail (some args) slash used) : Trimmed args ↔ ¬ LoneSpaces used := by
  constructor
  · intro trimmed lone
    obtain rfl := Option.some.inj (tail.loneSpaces lone).1
    exact trimmed.first rfl
  · intro alone
    cases tail with
    | spaces n => exact absurd ⟨n, rfl⟩ alone
    | slash n => exact ⟨by simp, by simp, by simp⟩
    | args n trail trimmed unslashed => exact trimmed

theorem args_ne (tail : Tail (some args) slash used) : args ≠ [] := by
  cases tail with
  | spaces n => simp
  | slash n => simp
  | args n trail trimmed unslashed => exact trimmed.nonempty

theorem ends (tail : Tail found slash used) : ∃ front, used = front ++ commentEnd := by
  have spaced (n : Nat) (slash : Bool) : ∃ front, closeText n slash = front ++ commentEnd := by
    obtain ⟨gap, _, _, mark⟩ := closeMark_parts slash
    exact ⟨List.replicate n ' ' ++ gap, by rw [closeText, mark, List.append_assoc]⟩
  cases tail with
  | bare slash => exact spaced 0 slash
  | space => exact spaced 1 false
  | spaces n => exact spaced (n + 2) false
  | slash n => exact spaced (n + 1) true
  | @args args slash n trail trimmed unslashed =>
    obtain ⟨front, mark⟩ := spaced trail slash
    exact ⟨List.replicate (n + 1) ' ' ++ (args ++ front), by simp only [endingText, mark,
      List.append_assoc]⟩

theorem slashed_behind (tail : Tail found slash used) {kind : List Char} (nonempty : kind ≠ [])
    (kinds : ∀ c ∈ kind, isKindChar c = true) (head : List Char) :
    closeMark true <:+ head ++ (kind ++ used) ↔ closeMark true <:+ used := by
  obtain ⟨front, rfl⟩ := tail.ends
  have text : head ++ (kind ++ (front ++ commentEnd)) = head ++ kind ++ front ++ commentEnd := by
    simp only [List.append_assoc]
  rw [text, slashed_iff, slashed_iff]
  rcases front.eq_nil_or_concat' with rfl | ⟨front, c, rfl⟩
  · rw [List.append_nil, List.getLast?_append_of_ne_nil _ nonempty]
    refine iff_of_false ?_ (by simp)
    intro last
    exact absurd (kinds _ (List.mem_of_getLast? last)) (by decide)
  · rw [← List.append_assoc, List.getLast?_concat, List.getLast?_concat]

end Tail
end Directive

namespace Tag
open Text Directive
variable {tag : Tag} {document : String}

/-- A begin tag is read as self-closing exactly if its text ends with a slash and the closing
marker, and its arguments have no space at their ends, unless there is nothing but spaces between
its kind and its end. A slash behind these becomes the arguments of a tag that is not
self-closing, and one of two spaces or more the arguments of a tag without a slash. -/
theorem begin_fields {m : Match Directive} {t : BeginTag} (found : m ∈ (tag.scan document).1)
    (value : m.value = .opening t) :
    ∃ blanks used, (∀ c ∈ blanks, isGap c = true) ∧
      m.text = t.indent.toList ++ (['<', '!', '-', '-'] ++ blanks ++ (tag.name.toList ++ [':'])) ++
        (t.kind.toList ++ used) ∧
      (t.selfClosing = true ↔ closeMark true <:+ m.text ∧ ¬ LoneSlash used) ∧
      (∀ args ∈ t.args, args ≠ "" ∧ (Trimmed args.toList ↔ ¬ LoneSpaces used)) ∧
      (LoneSlash used → t.args = some "/" ∧ closeMark true <:+ m.text) ∧
      (LoneSpaces used → t.args = some " " ∧ t.selfClosing = false) := by
  obtain ⟨pre, post, split⟩ := List.append_of_mem found
  obtain ⟨blanks, behind, args, _, gaps, nonempty, kinds, text, ended, same⟩ :=
    scan_opening split value
  obtain ⟨used, tail, rfl⟩ := ending?_tail ended
  have own : m.text = t.indent.toList ++ (['<', '!', '-', '-'] ++ blanks ++
      (tag.name.toList ++ [':'])) ++ (t.kind.toList ++ used) := by
    exact List.append_cancel_right (by simpa using text)
  have slashed := tail.slashed_behind nonempty kinds (t.indent.toList ++
    (['<', '!', '-', '-'] ++ blanks ++ (tag.name.toList ++ [':'])))
  rw [← own] at slashed
  refine ⟨blanks, used, gaps, own, ?_, ?_, ?_, ?_⟩
  · rw [slashed]
    exact tail.slash_iff
  · intro given has
    rw [same] at has
    obtain ⟨given, rfl, rfl⟩ := Option.map_eq_some_iff.mp has
    rw [String.toList_ofList]
    refine ⟨?_, tail.trimmed_iff⟩
    intro empty
    exact tail.args_ne (by simpa using congrArg String.toList empty)
  · intro lone
    obtain ⟨rfl, _⟩ := tail.loneSlash lone
    refine ⟨same, slashed.mpr ?_⟩
    obtain ⟨n, rfl⟩ := lone
    exact List.suffix_append _ _
  · intro lone
    obtain ⟨rfl, plain⟩ := tail.loneSpaces lone
    exact ⟨same, plain⟩

/-- A tag that is to be self-closing, but has a space before its slash. -/
theorem begin_fields_slash : ∃ m ∈ (scan ⟨"build", by decide⟩ "<!--build:note /-->").1,
    ∃ t used, m.value = .opening t ∧ LoneSlash used ∧ closeMark true <:+ m.text ∧
      t.selfClosing = false ∧ t.args = some "/" := by
  obtain ⟨m, found, value, text⟩ : ∃ m ∈ (scan ⟨"build", by decide⟩ "<!--build:note /-->").1,
      m.value = .opening ⟨"", "note", some "/", false⟩ ∧
      m.text = "<!--build:note ".toList ++ closeMark true := by
    decide +kernel
  obtain ⟨_, used, _, _, slash, _, _, _⟩ := begin_fields found value
  have slashed : closeMark true <:+ m.text := ⟨_, text.symm⟩
  have lone : LoneSlash used := by
    by_contra other
    cases slash.mpr ⟨slashed, other⟩
  exact ⟨m, found, _, used, value, lone, slashed, rfl, rfl⟩

end Tag
end AssetBlocks
