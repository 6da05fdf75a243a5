import AssetBlocks.Handler.Elements
import AssetBlocks.Proofs.Parts
import AssetBlocks.Proofs.Printing

/-! Markup as it is written: start tags with attributes, end tags, and text around them. A start
tag is seen as an element only if a space stands right behind its name and the tag is on one
line; the others are passed over as if they were text. -/
namespace AssetBlocks
namespace Text

theorem forall_ascii {holds : Char → Prop} (each : ∀ n < 128, holds (Char.ofNat n)) {c : Char}
    (ascii : c.toNat < 128) : holds c := by
  have here := each c.toNat ascii
  rwa [Char.ofNat_toNat] at here

theorem foldCode_of_lt {n : Nat} (ascii : n < 128) :
    foldCode n = if 65 ≤ n ∧ n ≤ 90 then 97 + (n - 65) else n := by
  have runs : foldRuns = (65, 90, 1, 97) :: foldRuns.tail := rfl
  have beyond : ∀ run ∈ foldRuns.tail, 128 ≤ run.1 := by decide +kernel
  by_cases capital : 65 ≤ n ∧ n ≤ 90
  · rw [foldCode, runs, List.find?_cons_of_pos (by simp [capital, Nat.mod_one]), if_pos capital]
  · rw [foldCode, runs, List.find?_cons_of_neg (by simpa [Nat.mod_one] using capital),
      List.find?_eq_none.mpr, if_neg capital]
    intro run inside within
    have far := beyond run inside
    simp only [Bool.and_eq_true, decide_eq_true_eq] at within
    omega

theorem foldCode_of_ascii {c : Char} (ascii : c.toNat < 128) :
    foldCode c.toNat = c.toLower.toNat := by
  rw [foldCode_of_lt ascii]
  revert ascii
  apply forall_ascii
  decide

theorem alike_iff {c d : Char} (ascii : c.toNat < 128) (ascii' : d.toNat < 128) :
    alike c d = true ↔ c.toLower = d.toLower := by
  rw [alike, foldCode_of_ascii ascii, foldCode_of_ascii ascii', Bool.or_eq_true, beq_iff_eq,
    beq_iff_eq, Char.toNat_inj, or_iff_right_of_imp]
  intro same
  rw [same]

theorem ascii_of_isAlphanum {c : Char} (solid : c.isAlphanum = true) : c.toNat < 128 := by
  have numbers : 'Z'.val.toNat = 90 ∧ 'z'.val.toNat = 122 ∧ '9'.val.toNat = 57 := by decide
  delta Char.isAlphanum Char.isAlpha Char.isUpper Char.isLower Char.isDigit at solid
  simp only [Bool.or_eq_true, Bool.and_eq_true, decide_eq_true_eq, UInt32.le_iff_toNat_le] at solid
  change c.val.toNat < 128
  omega

theorem isAlphanum_toLower {c : Char} (solid : c.isAlphanum = true) :
    c.toLower.isAlphanum = true := by
  have ascii := ascii_of_isAlphanum solid
  revert solid
  revert ascii
  apply forall_ascii
  decide

theorem ascii_of_toLower {c : Char} (ascii : c.toLower.toNat < 128) : c.toNat < 128 := by
  unfold Char.toLower at ascii
  split at ascii
  · next upper =>
    have below := UInt32.le_iff_toNat_le.mp upper.2
    change c.val.toNat < 128
    exact lt_of_le_of_lt below (by decide)
  · exact ascii

namespace Pattern
variable {α : Type} {p : Pattern α} {c : Char} {cs used rest : List Char}

/-- It does not matter to the pattern whether a line starts. -/
def Placeless (p : Pattern α) : Prop := ∀ start start' cs, p.at? start cs = p.at? start' cs

def finds (p : Pattern α) (cs : List Char) : List (List Char × α) :=
  (p.all true cs).1.map fun m => (m.text, m.value)

theorem Placeless.next?_eq (placeless : p.Placeless) (start start' : Bool) (cs : List Char) :
    p.next? start cs = p.next? start' cs := by
  cases cs with
  | nil => rfl
  | cons c cs => rw [next?, next?, placeless start start']

theorem Placeless.all_eq (placeless : p.Placeless) (start start' : Bool) (cs : List Char) :
    p.all start cs = p.all start' cs := by
  rw [all, all, placeless.next?_eq start start']

theorem finds_nil : p.finds [] = [] := by
  rw [finds, all_none rfl]
  rfl

theorem Placeless.finds_skip (placeless : p.Placeless) (absent : p.at? true (c :: cs) = none) :
    p.finds (c :: cs) = p.finds cs := by
  unfold finds
  cases found : p.next? true cs with
  | none =>
    have later : p.next? (c == '\n') cs = none := by rw [placeless.next?_eq _ true, found]
    have next : p.next? true (c :: cs) = none := by simp only [next?, absent, later]
    rw [all_none next, all_none found]
  | some parts =>
    obtain ⟨m, rest⟩ := parts
    have later : p.next? (c == '\n') cs = some (m, rest) := by rw [placeless.next?_eq _ true, found]
    rw [all_some (next?_skip absent later), all_some found]
    rfl

theorem Placeless.finds_pass (placeless : p.Placeless)
    (absent : ∀ c ∈ used, ∀ cs, p.at? true (c :: cs) = none) :
    p.finds (used ++ rest) = p.finds rest := by
  induction used with
  | nil => rfl
  | cons c used ih =>
    rw [List.cons_append, placeless.finds_skip (absent c (by simp) _)]
    exact ih fun d inside => absent d (by simp [inside])

theorem Placeless.finds_here (placeless : p.Placeless) {a : α}
    (found : p.at? true (used ++ rest) = some (a, rest)) :
    p.finds (used ++ rest) = (used, a) :: p.finds rest := by
  rw [finds, all_some (next?_here found), placeless.all_eq false true]
  rfl

end Pattern
end Text

open Text

/-- The white space of markup. -/
def isSeparator (c : Char) : Bool :=
  c == ' ' || c == '\t' || c == '\n' || c == '\r' || c == '\x0c'

/-- An attribute as it is written, with the white space before it. -/
structure WrittenAttribute where
  gap : List Char
  name : List Char
  value : List Char
deriving DecidableEq

namespace WrittenAttribute

def text (a : WrittenAttribute) : List Char :=
  a.gap ++ a.name ++ ['='] ++ '"' :: (a.value ++ ['"'])

@[mk_iff]
structure Plain (a : WrittenAttribute) : Prop where
  gap_some : a.gap ≠ []
  gap_separates : a.gap.all isSeparator = true
  name_some : a.name ≠ []
  name_solid : a.name.all (fun c => c.isAlphanum || c == '-' || c == '_') = true
  value_plain : '"' ∉ a.value ∧ '<' ∉ a.value ∧ '>' ∉ a.value

instance : DecidablePred Plain := fun a => decidable_of_iff' _ (plain_iff a)

end WrittenAttribute

/-- A start tag as it is written. -/
structure StartTag where
  name : List Char
  attributes : List WrittenAttribute
  slash : Bool
deriving DecidableEq

namespace StartTag

def inner (t : StartTag) : List Char := t.attributes.flatMap WrittenAttribute.text

def ending (slash : Bool) : List Char := if slash then ['/', '>'] else ['>']

def text (t : StartTag) : List Char := '<' :: (t.name ++ (t.inner ++ ending t.slash))

theorem text_append (t : StartTag) (rest : List Char) :
    t.text ++ rest = '<' :: (t.name ++ (t.inner ++ (ending t.slash ++ rest))) := by
  simp [text]

/-- The tag has the name of the elements that are sought, in any case, and attributes. -/
@[mk_iff]
structure Plain (word : List Char) (t : StartTag) : Prop where
  name_eq : t.name.map Char.toLower = word.map Char.toLower
  attributes_some : t.attributes ≠ []
  attributes_plain : ∀ a ∈ t.attributes, a.Plain

instance (word : List Char) : DecidablePred (Plain word) :=
  fun t => decidable_of_iff' _ (plain_iff word t)

/-- A space is behind the name, and there is no line feed in the tag. -/
def Seen (t : StartTag) : Prop := t.inner.head? = some ' ' ∧ '\n' ∉ t.inner

instance : DecidablePred Seen := fun _ => inferInstanceAs (Decidable (_ ∧ _))

def element (t : StartTag) : Element :=
  ⟨String.ofList t.text, Element.attributesOf t.inner⟩

end StartTag

/-- A piece of markup: text, a start tag, or an end tag. -/
inductive Piece
  | text (cs : List Char)
  | opening (t : StartTag)
  | closing (name : List Char)
deriving DecidableEq

namespace Piece

def written : Piece → List Char
  | text cs => cs
  | opening t => t.text
  | closing name => ['<', '/'] ++ name ++ ['>']

def Plain (word : List Char) : Piece → Prop
  | text cs => '<' ∉ cs
  | opening t => t.Plain word
  | closing name => '<' ∉ name

instance (word : List Char) : DecidablePred (Plain word)
  | text cs => inferInstanceAs (Decidable ('<' ∉ cs))
  | opening t => inferInstanceAs (Decidable (t.Plain word))
  | closing name => inferInstanceAs (Decidable ('<' ∉ name))

def opening? : Piece → Option StartTag
  | opening t => some t
  | _ => none

end Piece

def markup (pieces : List Piece) : List Char := pieces.flatMap Piece.written

/-- The start tags in a piece of markup, in their order. -/
def openings (pieces : List Piece) : List StartTag := pieces.filterMap Piece.opening?

theorem openings_plain {word : List Char} {pieces : List Piece} {t : StartTag}
    (plain : ∀ piece ∈ pieces, piece.Plain word) (inside : t ∈ openings pieces) :
    t.Plain word := by
  obtain ⟨piece, member, opens⟩ := List.mem_filterMap.mp inside
  cases piece with
  | opening tag =>
    obtain rfl := Option.some.inj opens
    exact plain _ member
  | text | closing => cases opens

namespace Element
variable {c w : Char} {word name body cs rest : List Char} {slash : Bool}

/-- No end of a tag is in the text, and none begins in it. -/
structure Unended (cs : List Char) : Prop where
  angle : '>' ∉ cs
  last : cs.getLast? ≠ some '/'

theorem Unended.of_cons (unended : Unended (c :: cs)) : Unended cs := by
  refine ⟨fun inside => unended.angle (by simp [inside]), ?_⟩
  cases cs with
  | nil => simp
  | cons d cs =>
    have last := unended.last
    rwa [List.getLast?_cons_cons] at last

theorem Unended.tagEnd?_eq_none (unended : Unended body) (nonempty : body ≠ []) (rest : List Char) :
    tagEnd? (body ++ rest) = none := by
  obtain ⟨angle, last⟩ := unended
  rcases body with _ | ⟨c, _ | ⟨d, body⟩⟩
  · exact absurd rfl nonempty
  · have slash : c ≠ '/' := by simpa using last
    have close : c ≠ '>' := by simpa [eq_comm] using angle
    unfold tagEnd?
    split <;> simp_all
  · have close : c ≠ '>' ∧ d ≠ '>' := by
      simp only [List.mem_cons, not_or] at angle
      exact ⟨Ne.symm angle.1, Ne.symm angle.2.1⟩
    unfold tagEnd?
    split <;> simp_all

theorem tagEnd?_ending (slash : Bool) (rest : List Char) :
    tagEnd? (StartTag.ending slash ++ rest) = some rest := by
  cases slash <;> rfl

theorem tagBody?_whole (unended : Unended body) (nonempty : body ≠ []) (unbroken : '\n' ∉ body) :
    tagBody? (body ++ (StartTag.ending slash ++ rest)) = some (body, rest) := by
  induction body with
  | nil => exact absurd rfl nonempty
  | cons c body ih =>
    have line : c ≠ '\n' := fun same => unbroken (by simp [same])
    rw [List.cons_append, tagBody?, if_neg line]
    cases body with
    | nil =>
      rw [List.nil_append, tagEnd?_ending]
    | cons d body =>
      rw [unended.of_cons.tagEnd?_eq_none (by simp) _,
        ih unended.of_cons (by simp) fun inside => unbroken (List.mem_cons_of_mem c inside)]

theorem tagBody?_broken (unended : Unended body) (broken : '\n' ∈ body) :
    tagBody? (body ++ rest) = none := by
  induction body with
  | nil => cases broken
  | cons c body ih =>
    rw [List.cons_append, tagBody?]
    by_cases line : c = '\n'
    · rw [if_pos line]
    · have later : '\n' ∈ body := (List.mem_cons.mp broken).resolve_left (Ne.symm line)
      rw [if_neg line, unended.of_cons.tagEnd?_eq_none (List.ne_nil_of_mem later),
        ih unended.of_cons later]

theorem afterAlike?_append (solid : ∀ c ∈ word, c.isAlphanum = true)
    (same : name.map Char.toLower = word.map Char.toLower) :
    afterAlike? word (name ++ rest) = some rest := by
  induction word generalizing name with
  | nil =>
    obtain rfl := List.map_eq_nil_iff.mp same
    rfl
  | cons w word ih =>
    cases name with
    | nil => cases same
    | cons c name =>
      obtain ⟨first, more⟩ := List.cons.inj same
      have ascii := ascii_of_isAlphanum (solid w (by simp))
      have ascii' : c.toNat < 128 := by
        apply ascii_of_toLower
        rw [first]
        exact ascii_of_isAlphanum (isAlphanum_toLower (solid w (by simp)))
      rw [List.cons_append, afterAlike?, if_pos ((alike_iff ascii ascii').mpr first.symm)]
      exact ih (fun d inside => solid d (by simp [inside])) more

theorem tagAt?_text (other : c ≠ '<') (cs : List Char) : tagAt? word (c :: cs) = none := by
  unfold tagAt?
  split
  · next same => exact absurd (List.cons.inj same).1 other
  · rfl

theorem tagAt?_closing (solid : w.isAlphanum = true) (cs : List Char) :
    tagAt? (w :: word) ('<' :: '/' :: cs) = none := by
  have unlike : ¬ alike w '/' = true := by
    rw [alike_iff (ascii_of_isAlphanum solid) (by decide)]
    intro same
    have lower := isAlphanum_toLower solid
    rw [same] at lower
    revert lower
    decide
  rw [tagAt?, afterAlike?, if_neg unlike]

theorem tagAt?_whole (named : afterAlike? word (name ++ (' ' :: body ++ (StartTag.ending slash ++
      rest))) = some (' ' :: body ++ (StartTag.ending slash ++ rest)))
    (unended : Unended body) (nonempty : body ≠ []) (unbroken : '\n' ∉ body) :
    tagAt? word ('<' :: (name ++ (' ' :: body ++ (StartTag.ending slash ++ rest)))) =
      some (' ' :: body, rest) := by
  rw [tagAt?, named, List.cons_append]
  simp only [tagBody?_whole unended nonempty unbroken]

theorem tagAt?_broken (named : afterAlike? word (name ++ (body ++ rest)) = some (body ++ rest))
    (unended : Unended body) (nonempty : body ≠ []) (broken : body.head? ≠ some ' ' ∨ '\n' ∈ body) :
    tagAt? word ('<' :: (name ++ (body ++ rest))) = none := by
  rw [tagAt?, named]
  obtain ⟨c, body, rfl⟩ := List.exists_cons_of_ne_nil nonempty
  by_cases space : c = ' '
  · subst space
    have later : '\n' ∈ body := by simpa using broken
    simp only [List.cons_append, tagBody?_broken unended.of_cons later]
  · split
    · next same =>
      rw [List.cons_append, Option.some.injEq] at same
      exact absurd (List.cons.inj same).1 space
    · rfl

end Element

namespace WrittenAttribute
variable {a : WrittenAttribute}

theorem Plain.text_plain (plain : a.Plain) : ∀ c ∈ a.text, c ≠ '<' ∧ c ≠ '>' := by
  intro c inside
  simp only [text, List.mem_append, List.mem_cons, List.not_mem_nil, or_false] at inside
  rcases inside with ((gap | name) | rfl) | rfl | value | rfl
  · have separates := List.all_eq_true.mp plain.gap_separates c gap
    constructor <;> rintro rfl <;> cases separates
  · have solid := List.all_eq_true.mp plain.name_solid c name
    constructor <;> rintro rfl <;> cases solid
  · decide
  · decide
  · constructor <;> rintro rfl
    · exact plain.value_plain.2.1 value
    · exact plain.value_plain.2.2 value
  · decide

end WrittenAttribute

namespace StartTag
variable {word : List Char} {t : StartTag}

theorem Plain.inner_plain (plain : t.Plain word) : ∀ c ∈ t.inner, c ≠ '<' ∧ c ≠ '>' := by
  intro c inside
  obtain ⟨a, within, part⟩ := List.mem_flatMap.mp inside
  exact (plain.attributes_plain a within).text_plain c part

theorem Plain.inner_some (plain : t.Plain word) : t.inner ≠ [] := by
  obtain ⟨a, more, has⟩ := List.exists_cons_of_ne_nil plain.attributes_some
  simp [inner, has, WrittenAttribute.text]

theorem Plain.inner_last (plain : t.Plain word) : t.inner.getLast? = some '"' := by
  obtain ⟨front, a, has⟩ := (List.eq_nil_or_concat' t.attributes).resolve_left plain.attributes_some
  simp [inner, has, WrittenAttribute.text, List.getLast?_cons]

theorem Plain.unended (plain : t.Plain word) : Element.Unended t.inner := by
  refine ⟨fun inside => (plain.inner_plain _ inside).2 rfl, ?_⟩
  rw [plain.inner_last]
  decide

theorem Plain.name_plain (plain : t.Plain word) (solid : ∀ c ∈ word, c.isAlphanum = true) :
    '<' ∉ t.name := by
  intro inside
  have lower : Char.toLower '<' ∈ word.map Char.toLower := by
    rw [← plain.name_eq]
    exact List.mem_map_of_mem inside
  obtain ⟨w, within, same⟩ := List.mem_map.mp lower
  have alphanumeric := isAlphanum_toLower (solid w within)
  rw [same] at alphanumeric
  revert alphanumeric
  decide

end StartTag

namespace Element
variable {word rest : List Char} {t : StartTag} {pieces : List Piece}

theorem tagPattern_placeless (word : List Char) : (tagPattern word).Placeless := fun _ _ _ => rfl

theorem finds_text {cs : List Char} (angle : '<' ∉ cs) :
    (tagPattern word).finds (cs ++ rest) = (tagPattern word).finds rest := by
  apply (tagPattern_placeless word).finds_pass
  intro c inside
  apply tagAt?_text
  rintro rfl
  exact angle inside

theorem finds_past {cs : List Char} (absent : tagAt? word ('<' :: (cs ++ rest)) = none)
    (angle : '<' ∉ cs) :
    (tagPattern word).finds ('<' :: (cs ++ rest)) = (tagPattern word).finds rest := by
  have here : (tagPattern word).at? true ('<' :: (cs ++ rest)) = none := absent
  rw [(tagPattern_placeless word).finds_skip here, finds_text angle]

theorem finds_seen (plain : t.Plain word) (solid : ∀ c ∈ word, c.isAlphanum = true)
    (seen : t.Seen) : (tagPattern word).finds (t.text ++ rest) =
      (t.text, t.inner) :: (tagPattern word).finds rest := by
  obtain ⟨space, line⟩ := seen
  obtain ⟨body, inner⟩ : ∃ body, t.inner = ' ' :: body := List.head?_eq_some_iff.mp space
  have unended := plain.unended
  have last := plain.inner_last
  rw [inner] at unended last line
  have nonempty : body ≠ [] := by
    rintro rfl
    cases last
  apply (tagPattern_placeless word).finds_here
  change tagAt? word (t.text ++ rest) = _
  rw [t.text_append, inner]
  exact tagAt?_whole (afterAlike?_append solid plain.name_eq) unended.of_cons nonempty
    (List.not_mem_of_not_mem_cons line)

theorem finds_unseen (plain : t.Plain word) (solid : ∀ c ∈ word, c.isAlphanum = true)
    (unseen : ¬ t.Seen) : (tagPattern word).finds (t.text ++ rest) =
      (tagPattern word).finds rest := by
  have broken : t.inner.head? ≠ some ' ' ∨ '\n' ∈ t.inner := by
    rwa [StartTag.Seen, not_and_or, not_not] at unseen
  have angle : '<' ∉ t.name ++ (t.inner ++ StartTag.ending t.slash) := by
    simp only [List.mem_append, not_or]
    refine ⟨plain.name_plain solid, fun inside => (plain.inner_plain _ inside).1 rfl, ?_⟩
    cases t.slash <;> decide
  rw [StartTag.text, List.cons_append]
  apply finds_past _ angle
  rw [List.append_assoc, List.append_assoc]
  exact tagAt?_broken (afterAlike?_append solid plain.name_eq) plain.unended plain.inner_some broken

theorem finds_closing {w : Char} {name : List Char} (solid : w.isAlphanum = true)
    (angle : '<' ∉ name) : (tagPattern (w :: word)).finds ((Piece.closing name).written ++ rest) =
      (tagPattern (w :: word)).finds rest := by
  have plain : '<' ∉ '/' :: (name ++ ['>']) := by simpa using angle
  exact finds_past (tagAt?_closing solid _) plain

/-- Those start tags are found that are seen. -/
theorem finds_markup {w : Char} (solid : ∀ c ∈ w :: word, c.isAlphanum = true)
    (plain : ∀ piece ∈ pieces, piece.Plain (w :: word)) :
    (tagPattern (w :: word)).finds (markup pieces) =
      ((openings pieces).filter (·.Seen)).map fun t => (t.text, t.inner) := by
  induction pieces with
  | nil => exact Pattern.finds_nil
  | cons piece pieces ih =>
    have rest := ih fun other inside => plain other (by simp [inside])
    have first := plain piece (by simp)
    rw [markup, List.flatMap_cons, ← markup]
    cases piece with
    | text cs => exact (finds_text first).trans rest
    | closing name => exact (finds_closing (solid w (by simp)) first).trans rest
    | opening t =>
      have tags : openings (.opening t :: pieces) = t :: openings pieces := rfl
      rw [tags]
      by_cases seen : t.Seen
      · rw [List.filter_cons_of_pos (by simpa using seen), List.map_cons, ← rest]
        exact finds_seen first solid seen
      · rw [List.filter_cons_of_neg (by simpa using seen), ← rest]
        exact finds_unseen first solid seen

theorem extract_markup {name html : String} {w : Char} (spelled : name.toList = w :: word)
    (solid : ∀ c ∈ w :: word, c.isAlphanum = true) (written : html.toList = markup pieces)
    (plain : ∀ piece ∈ pieces, piece.Plain (w :: word)) :
    extract name html = ((openings pieces).filter (·.Seen)).map StartTag.element := by
  have elements : extract name html = ((tagPattern name.toList).finds html.toList).map
      fun found => ⟨String.ofList found.1, attributesOf found.2⟩ := by
    rw [Pattern.finds, List.map_map]
    rfl
  rw [elements, spelled, written, finds_markup solid plain, List.map_map]
  rfl

end Element

end AssetBlocks
