import AssetBlocks.Handler.Modules
import AssetBlocks.Proofs.Markup
import Mathlib.Data.List.Nodup

/-! Tags that are printed and found again. Values may hold all but quotes, the end of a tag and
line feeds, so they may look like attributes or like the beginning of a tag; what is found are
the tags as they were printed, with the attributes that they were printed from. -/
namespace AssetBlocks
open Text

namespace Text.Pattern
variable {α β : Type} {p : Pattern α}

theorem finds_flatMap {written : β → List Char} {seen : β → List (List Char × α)}
    {pieces : List β}
    (each : ∀ b ∈ pieces, ∀ rest, p.finds (written b ++ rest) = seen b ++ p.finds rest)
    (rest : List Char) :
    p.finds (pieces.flatMap written ++ rest) = pieces.flatMap seen ++ p.finds rest := by
  induction pieces with
  | nil => rfl
  | cons b pieces ih =>
    have later := ih fun other inside => each other (by simp [inside])
    rw [List.flatMap_cons, List.flatMap_cons, List.append_assoc, List.append_assoc,
      each b (by simp), later]

end Text.Pattern

namespace WrittenAttribute

/-- The form that attributes are printed in. -/
@[mk_iff]
structure Printed (a : WrittenAttribute) : Prop where
  gap_eq : a.gap = [' ']
  name_some : a.name ≠ []
  name_solid : a.name.all (fun c => c.isAlphanum || c == '-' || c == '_') = true
  value_some : a.value ≠ []
  value_plain : '"' ∉ a.value ∧ '>' ∉ a.value ∧ '\n' ∉ a.value

instance : DecidablePred Printed := fun a => decidable_of_iff' _ (printed_iff a)

/-- The name in lower case, and the value as it is. -/
def entry (a : WrittenAttribute) : String × String :=
  (String.ofList (a.name.map Char.toLower), String.ofList a.value)

end WrittenAttribute

/-- A start tag as it is printed: there may be a space before its end. -/
structure PrintedTag where
  tag : StartTag
  spaced : Bool
deriving DecidableEq

namespace PrintedTag

def body (t : PrintedTag) : List Char := t.tag.inner ++ if t.spaced then [' '] else []

def text (t : PrintedTag) : List Char :=
  '<' :: (t.tag.name ++ (t.body ++ StartTag.ending t.tag.slash))

/-- The tag has the name of the elements that are sought, in any case, and attributes whose
names differ in more than their case. -/
@[mk_iff]
structure Plain (word : List Char) (t : PrintedTag) : Prop where
  name_eq : t.tag.name.map Char.toLower = word.map Char.toLower
  attributes_some : t.tag.attributes ≠ []
  attributes_printed : ∀ a ∈ t.tag.attributes, a.Printed
  names_distinct : (t.tag.attributes.map fun a => a.name.map Char.toLower).Nodup

instance (word : List Char) : DecidablePred (Plain word) :=
  fun t => decidable_of_iff' _ (plain_iff word t)

def element (t : PrintedTag) : Element :=
  ⟨String.ofList t.text, t.tag.attributes.map WrittenAttribute.entry⟩

end PrintedTag

/-- A piece of a text with printed tags: a tag, an end tag, or anything else. -/
inductive Fragment
  | text (cs : List Char)
  | tag (t : PrintedTag)
  | closing (name : List Char)
deriving DecidableEq

namespace Fragment

def written : Fragment → List Char
  | text cs => cs
  | tag t => t.text
  | closing name => ['<', '/'] ++ name ++ ['>']

def Plain (word : List Char) : Fragment → Prop
  | text cs => '<' ∉ cs
  | tag t => t.Plain word
  | closing name => '<' ∉ name

instance (word : List Char) : DecidablePred (Plain word)
  | text cs => inferInstanceAs (Decidable ('<' ∉ cs))
  | tag t => inferInstanceAs (Decidable (t.Plain word))
  | closing name => inferInstanceAs (Decidable ('<' ∉ name))

def tag? : Fragment → Option PrintedTag
  | tag t => some t
  | _ => none

end Fragment

namespace WrittenAttribute
variable {a : WrittenAttribute} {word rest : List Char}

theorem isNameChar_of_solid {c : Char} (solid : (c.isAlphanum || c == '-' || c == '_') = true) :
    Element.isNameChar c = true := by
  have ascii : c.toNat < 128 := by
    simp only [Bool.or_eq_true, beq_iff_eq] at solid
    rcases solid with (letter | rfl) | rfl
    · exact ascii_of_isAlphanum letter
    · decide
    · decide
  rw [Element.isNameChar, foldCode_of_ascii ascii]
  revert solid
  revert ascii
  apply forall_ascii
  decide

theorem Printed.attributeAt?_text (printed : a.Printed) (rest : List Char) :
    Element.attributeAt? (a.text ++ rest) = some ((a.name, a.value), rest) := by
  have parts : a.text ++ rest = ' ' :: (a.name ++ '=' :: '"' :: (a.value ++ '"' :: rest)) := by
    simp [text, printed.gap_eq]
  have named : ∀ c ∈ a.name, Element.isNameChar c = true := by
    intro c inside
    exact isNameChar_of_solid (List.all_eq_true.mp printed.name_solid c inside)
  have valued : ∀ c ∈ a.value, (c != '"') = true := by
    rintro c inside
    rw [bne_iff_ne]
    rintro rfl
    exact printed.value_plain.1 inside
  have sign : ¬ Element.isNameChar '=' = true := by decide
  rw [parts, Element.attributeAt?]
  simp only [List.takeWhile_append_of_pos named, List.dropWhile_append_of_pos named,
    List.takeWhile_cons_of_neg sign, List.dropWhile_cons_of_neg sign,
    List.takeWhile_append_of_pos valued, List.dropWhile_append_of_pos valued]
  simp [printed.name_some, printed.value_some]

theorem Printed.text_plain (printed : a.Printed) : '>' ∉ a.text ∧ '\n' ∉ a.text := by
  have named (c : Char) (solid : (c.isAlphanum || c == '-' || c == '_') = false) :
      c ∉ a.name := by
    intro inside
    rw [List.all_eq_true.mp printed.name_solid c inside] at solid
    cases solid
  simp [text, printed.gap_eq, printed.value_plain, named '>' (by decide), named '\n' (by decide)]

end WrittenAttribute

namespace Element
variable {word rest : List Char}

theorem attributePattern_placeless : attributePattern.Placeless := fun _ _ _ => rfl

theorem put_new {name value : String} {all : List (String × String)}
    (new : name ∉ all.map Prod.fst) : put name value all = all ++ [(name, value)] := by
  induction all with
  | nil => rfl
  | cons first all ih =>
    obtain ⟨n, v⟩ := first
    rw [List.map_cons, List.mem_cons, not_or] at new
    rw [put, if_neg (Ne.symm new.1), ih new.2, List.cons_append]

theorem foldl_put {all more : List (String × String)}
    (distinct : ((all ++ more).map Prod.fst).Nodup) :
    more.foldl (fun all entry => put entry.1 entry.2 all) all = all ++ more := by
  induction more generalizing all with
  | nil => rw [List.append_nil, List.foldl_nil]
  | cons entry more ih =>
    have new : entry.1 ∉ all.map Prod.fst := by
      rw [List.map_append, List.map_cons] at distinct
      exact fun inside => List.disjoint_of_nodup_append distinct inside List.mem_cons_self
    rw [List.foldl_cons, put_new new, ih, List.append_assoc, List.singleton_append]
    rwa [List.append_assoc]

theorem attributesOf_eq (body : List Char) : attributesOf body =
    ((attributePattern.finds body).map fun found => (String.ofList (found.2.1.map Char.toLower),
      String.ofList found.2.2)).foldl (fun all entry => put entry.1 entry.2 all) [] := by
  rw [attributesOf, Pattern.finds, List.map_map, List.foldl_map]
  rfl

theorem finds_attributes {attributes : List WrittenAttribute}
    (printed : ∀ a ∈ attributes, a.Printed) (rest : List Char) :
    attributePattern.finds (attributes.flatMap WrittenAttribute.text ++ rest) =
      attributes.map (fun a => (a.text, (a.name, a.value))) ++ attributePattern.finds rest := by
  rw [← List.flatMap_pure_eq_map]
  apply Pattern.finds_flatMap
  intro a inside rest
  exact attributePattern_placeless.finds_here ((printed a inside).attributeAt?_text rest)

end Element

namespace PrintedTag
variable {word : List Char} {t : PrintedTag}

theorem finds_space (spaced : Bool) :
    Element.attributePattern.finds (if spaced then [' '] else []) = [] := by
  cases spaced with
  | false => exact Pattern.finds_nil
  | true => exact (Element.attributePattern_placeless.finds_skip rfl).trans Pattern.finds_nil

theorem Plain.attributesOf_body (plain : t.Plain word) :
    Element.attributesOf t.body = t.tag.attributes.map WrittenAttribute.entry := by
  have distinct : ((t.tag.attributes.map WrittenAttribute.entry).map Prod.fst).Nodup := by
    have names := plain.names_distinct.map fun _ _ => String.ofList_injective
    rw [List.map_map] at names ⊢
    exact names
  rw [Element.attributesOf_eq, body, StartTag.inner,
    Element.finds_attributes plain.attributes_printed, finds_space, List.append_nil, List.map_map]
  exact Element.foldl_put distinct

theorem Plain.body_eq (plain : t.Plain word) : ∃ more, t.body = ' ' :: more ∧ more ≠ [] := by
  obtain ⟨a, more, has⟩ := List.exists_cons_of_ne_nil plain.attributes_some
  have gap := (plain.attributes_printed a (by simp [has])).gap_eq
  simp [body, StartTag.inner, has, WrittenAttribute.text, gap]

theorem Plain.unended (plain : t.Plain word) : Element.Unended t.body := by
  have inner : '>' ∉ t.tag.inner := by
    intro inside
    obtain ⟨a, within, part⟩ := List.mem_flatMap.mp inside
    exact (plain.attributes_printed a within).text_plain.1 part
  obtain ⟨front, a, has⟩ :=
    (List.eq_nil_or_concat' t.tag.attributes).resolve_left plain.attributes_some
  constructor
  · cases spaced : t.spaced <;> simp [body, spaced, inner]
  · cases spaced : t.spaced <;>
      simp [body, spaced, StartTag.inner, has, WrittenAttribute.text, List.getLast?_cons]

theorem Plain.body_inline (plain : t.Plain word) : '\n' ∉ t.body := by
  have inner : '\n' ∉ t.tag.inner := by
    intro inside
    obtain ⟨a, within, part⟩ := List.mem_flatMap.mp inside
    exact (plain.attributes_printed a within).text_plain.2 part
  cases spaced : t.spaced <;> simp [body, spaced, inner]

theorem Plain.tagAt?_text (plain : t.Plain word) (solid : ∀ c ∈ word, c.isAlphanum = true)
    (rest : List Char) : Element.tagAt? word (t.text ++ rest) = some (t.body, rest) := by
  have unended := plain.unended
  have line := plain.body_inline
  obtain ⟨more, same, nonempty⟩ := plain.body_eq
  rw [same] at unended line
  have parts : t.text ++ rest =
      '<' :: (t.tag.name ++ (' ' :: more ++ (StartTag.ending t.tag.slash ++ rest))) := by
    simp [text, same]
  rw [parts, same]
  exact Element.tagAt?_whole (Element.afterAlike?_append solid plain.name_eq) unended.of_cons
    nonempty
    (List.not_mem_of_not_mem_cons line)

end PrintedTag

namespace Element
variable {word rest : List Char} {fragments : List Fragment}

theorem finds_fragments (solid : ∀ c ∈ word, c.isAlphanum = true)
    (plain : ∀ f ∈ fragments, f.Plain word) (rest : List Char) :
    (tagPattern word).finds (fragments.flatMap Fragment.written ++ rest) =
      (fragments.filterMap Fragment.tag?).map (fun t => (t.text, t.body)) ++
        (tagPattern word).finds rest := by
  rw [List.map_filterMap, List.filterMap_eq_flatMap_toList]
  apply Pattern.finds_flatMap
  intro f inside rest
  have each := plain f inside
  cases f with
  | text cs => exact finds_text each
  | tag t =>
    exact (tagPattern_placeless word).finds_here (PrintedTag.Plain.tagAt?_text each solid rest)
  | closing name =>
    cases word with
    | nil =>
      have named : '<' ∉ name := each
      have angle : '<' ∉ '/' :: (name ++ ['>']) := by simpa using named
      exact finds_past rfl angle
    | cons w word => exact finds_closing (solid w (by simp)) each

theorem extract_fragments {name html : String} (solid : ∀ c ∈ name.toList, c.isAlphanum = true)
    (plain : ∀ f ∈ fragments, f.Plain name.toList)
    (written : html.toList = fragments.flatMap Fragment.written) :
    extract name html = (fragments.filterMap Fragment.tag?).map PrintedTag.element := by
  have elements : extract name html = ((tagPattern name.toList).finds html.toList).map
      fun found => ⟨String.ofList found.1, attributesOf found.2⟩ := by
    rw [Pattern.finds, List.map_map]
    rfl
  have found := finds_fragments solid plain []
  rw [List.append_nil, ← written, Pattern.finds_nil, List.append_nil] at found
  rw [elements, found, List.map_map]
  apply List.map_congr_left
  intro t inside
  obtain ⟨f, member, same⟩ := List.mem_filterMap.mp inside
  cases f with
  | tag tag =>
    obtain rfl := Option.some.inj same
    have body : tag.Plain name.toList := plain _ member
    simp only [Function.comp_apply, body.attributesOf_body, PrintedTag.element]
  | text | closing => cases same

end Element

section scripts
variable {src : String} {sources : List String}

def PrintedTag.script (src : String) : PrintedTag :=
  ⟨⟨['s', 'c', 'r', 'i', 'p', 't'], [⟨[' '], ['s', 'r', 'c'], src.toList⟩], false⟩, false⟩

/-- A text that a tag can have as a value. -/
def Quotable (src : String) : Prop :=
  src ≠ "" ∧ '"' ∉ src.toList ∧ '>' ∉ src.toList ∧ '\n' ∉ src.toList

instance : DecidablePred Quotable := fun _ => inferInstanceAs (Decidable (_ ∧ _))

theorem PrintedTag.script_plain (quotable : Quotable src) :
    (script src).Plain "script".toList where
  name_eq := rfl
  attributes_some := List.cons_ne_nil _ _
  attributes_printed := by
    intro a inside
    obtain rfl := List.mem_singleton.mp inside
    have nonempty : src.toList ≠ [] := fun empty => quotable.1 (String.toList_eq_nil_iff.mp empty)
    exact ⟨rfl, List.cons_ne_nil _ _, rfl, nonempty, quotable.2⟩
  names_distinct := List.nodup_singleton _

theorem PrintedTag.script_element (src : String) :
    (script src).element = ⟨"<script src=\"" ++ src ++ "\">", [("src", src)]⟩ := by
  have html : String.ofList (script src).text = "<script src=\"" ++ src ++ "\">" := by
    apply String.toList_inj.mp
    simp [PrintedTag.text, PrintedTag.body, PrintedTag.script, StartTag.inner, StartTag.ending,
      WrittenAttribute.text]
  have entry : (script src).tag.attributes.map WrittenAttribute.entry = [("src", src)] := by
    simp [script, WrittenAttribute.entry]
  rw [element, html, entry]

/-- The scripts of some sources, with a text between each two of them. -/
def Fragment.scripts (between : List Char) : List String → List Fragment
  | [] => []
  | [src] => [tag (.script src), closing "script".toList]
  | src :: next :: more =>
    tag (.script src) :: closing "script".toList :: text between :: scripts between (next :: more)

theorem Fragment.tags_scripts (between : List Char) (sources : List String) :
    (scripts between sources).filterMap tag? = sources.map PrintedTag.script := by
  fun_induction scripts between sources with
  | case1 => rfl
  | case2 => rfl
  | case3 src next more ih => exact congrArg _ ih

theorem Fragment.written_scripts (indent : String) (sources : List String) :
    (scripts ('\n' :: indent.toList) sources).flatMap written =
      (Replacement.render indent (.lines (sources.map scriptTag))).toList := by
  have line (src : String) : (tag (.script src)).written ++ (closing "script".toList).written =
      (scriptTag src).toList := by
    have parts : scriptTag src = "<script src=\"" ++ src ++ "\"></script>" := rfl
    simp [parts, written, PrintedTag.text, PrintedTag.body, PrintedTag.script, StartTag.inner,
      StartTag.ending, WrittenAttribute.text]
  simp only [Replacement.render]
  fun_induction scripts ('\n' :: indent.toList) sources with
  | case1 => rfl
  | case2 src => simpa using line src
  | case3 src next more ih =>
    rw [List.map_cons, List.map_cons, String.intercalate_cons_cons, ← List.map_cons]
    simp only [List.flatMap_cons, ih, String.toList_append, ← line]
    simp [written]

theorem Fragment.mem_scripts {between : List Char} {f : Fragment}
    (inside : f ∈ scripts between sources) : (∃ src ∈ sources, f = tag (.script src)) ∨
      f = closing "script".toList ∨ f = text between := by
  fun_induction scripts between sources with
  | case1 => cases inside
  | case2 src => grind
  | case3 src next more ih => grind

theorem Element.extract_scripts {indent before after : String} (gap : '<' ∉ indent.toList)
    (front : '<' ∉ before.toList) (behind : '<' ∉ after.toList)
    (quotable : ∀ src ∈ sources, Quotable src) :
    extract "script" (before ++ Replacement.render indent (.lines (sources.map scriptTag)) ++ after) =
      sources.map fun src => ⟨"<script src=\"" ++ src ++ "\">", [("src", src)]⟩ := by
  let between := '\n' :: indent.toList
  let fragments := [Fragment.text before.toList] ++ Fragment.scripts between sources ++
    [Fragment.text after.toList]
  have plain : ∀ f ∈ fragments, f.Plain "script".toList := by
    have ending : (Fragment.closing "script".toList).Plain "script".toList := by decide
    have clean : '<' ∉ between := by simpa [between] using gap
    intro f inside
    simp only [fragments, List.mem_append, List.mem_singleton] at inside
    rcases inside with (rfl | inside) | rfl
    · exact front
    · rcases Fragment.mem_scripts inside with ⟨src, member, rfl⟩ | rfl | rfl
      · exact PrintedTag.script_plain (quotable src member)
      · exact ending
      · exact clean
    · exact behind
  have written : (before ++ Replacement.render indent (.lines (sources.map scriptTag)) ++
      after).toList = fragments.flatMap Fragment.written := by
    have middle := Fragment.written_scripts indent sources
    simp only [fragments, between, List.flatMap_append, middle, String.toList_append]
    simp [Fragment.written]
  have tags : fragments.filterMap Fragment.tag? = sources.map PrintedTag.script := by
    have text (cs : List Char) : [Fragment.text cs].filterMap Fragment.tag? = [] := rfl
    rw [List.filterMap_append, List.filterMap_append, text, text, Fragment.tags_scripts,
      List.nil_append, List.append_nil]
  rw [extract_fragments (List.all_eq_true.mp (by decide)) plain written, tags, List.map_map]
  exact List.map_congr_left fun src _ => PrintedTag.script_element src

end scripts

/-- Every tag that is printed is extracted, in order and with nothing else, its text as it was
printed and its attributes with their values, under their names in lower case. So what a block
of scripts puts in its place is, to a block around it, exactly the scripts that it emitted. -/
theorem Element.extract_printed (name : String) (solid : ∀ c ∈ name.toList, c.isAlphanum = true) :
    (∀ (html : String) (fragments : List Fragment), (∀ f ∈ fragments, f.Plain name.toList) →
      html.toList = fragments.flatMap Fragment.written →
      extract name html = (fragments.filterMap Fragment.tag?).map PrintedTag.element) ∧
    (∀ (indent before after : String) (sources : List String), '<' ∉ indent.toList →
      '<' ∉ before.toList → '<' ∉ after.toList → (∀ src ∈ sources, Quotable src) →
      extract "script"
          (before ++ Replacement.render indent (.lines (sources.map scriptTag)) ++ after) =
        sources.map fun src => ⟨"<script src=\"" ++ src ++ "\">", [("src", src)]⟩) :=
  ⟨fun _ _ plain written => extract_fragments solid plain written,
    fun _ _ _ _ gap front behind quotable => extract_scripts gap front behind quotable⟩

/-- A value that looks like a tag and an attribute, tags that end in a slash and in a space, and
the scripts of a block inside another one. -/
theorem Element.extract_printed_nested : ∃ fragments : List Fragment,
    (∀ f ∈ fragments, f.Plain "script".toList) ∧
    "a > b <SCRIPT Src=\"a/b c='<script x=/\" DATA-main=\"m\"/></sCript>\n<script id=\"1\" >".toList =
      fragments.flatMap Fragment.written ∧
    extract "script"
        "a > b <SCRIPT Src=\"a/b c='<script x=/\" DATA-main=\"m\"/></sCript>\n<script id=\"1\" >" = [
      ⟨"<SCRIPT Src=\"a/b c='<script x=/\" DATA-main=\"m\"/>",
        [("src", "a/b c='<script x=/"), ("data-main", "m")]⟩,
      ⟨"<script id=\"1\" >", [("id", "1")]⟩] ∧
    '<' ∉ "  ".toList ∧ '<' ∉ "\n  ".toList ∧ '<' ∉ "\n".toList ∧
    (∀ src ∈ ["o.js", "p q.js"], Quotable src) ∧
    extract "script"
        "\n  <script src=\"o.js\"></script>\n  <script src=\"p q.js\"></script>\n" = [
      ⟨"<script src=\"o.js\">", [("src", "o.js")]⟩,
      ⟨"<script src=\"p q.js\">", [("src", "p q.js")]⟩] := by
  let first : StartTag := ⟨"SCRIPT".toList, [
    ⟨[' '], "Src".toList, "a/b c='<script x=/".toList⟩,
    ⟨[' '], "DATA-main".toList, ['m']⟩], true⟩
  let second : StartTag := ⟨"script".toList, [⟨[' '], ['i', 'd'], ['1']⟩], false⟩
  let fragments : List Fragment := [.text "a > b ".toList, .tag ⟨first, false⟩,
    .closing "sCript".toList, .text ['\n'], .tag ⟨second, true⟩]
  obtain ⟨printed, nested⟩ := extract_printed "script" (List.all_eq_true.mp (by decide))
  have plain : ∀ f ∈ fragments, f.Plain "script".toList := by decide
  have quotable : ∀ src ∈ ["o.js", "p q.js"], Quotable src := by decide
  have gap : '<' ∉ "  ".toList := by decide
  have before : '<' ∉ "\n  ".toList := by decide
  have after : '<' ∉ "\n".toList := by decide
  refine ⟨fragments, plain, by decide, ?_, gap, before, after, quotable, ?_⟩
  · rw [printed _ fragments plain (by decide)]
    decide
  · have scripts := nested "  " "\n  " "\n" ["o.js", "p q.js"] gap before after quotable
    have text : "\n  " ++ Replacement.render "  " (.lines (["o.js", "p q.js"].map scriptTag)) ++
        "\n" = "\n  <script src=\"o.js\"></script>\n  <script src=\"p q.js\"></script>\n" := by
      decide
    rw [text] at scripts
    rw [scripts]
    decide

end AssetBlocks
