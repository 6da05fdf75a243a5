import AssetBlocks.Proofs.Filling
import Mathlib.Data.Option.Basic

/-! What the values of a document stand for. In a directory, a tilde that is all of it or
its first part is the home directory. Values are read like that, whatever the environment
is, if and only if they have no bare references beside what makes the reader look for
them. -/
namespace AssetBlocks.Config

/-- A directory with its references filled in. A tilde is the home directory where it is
written alone or before a slash, and that directory is known. -/
inductive FilledDir (s : Surroundings) : List Char → List Char → Prop
  | home {home : String} (known : s.home? = some home) : FilledDir s ['~'] home.toList
  | below {home : String} {rest more : List Char} (known : s.home? = some home)
      (later : Filled s.value? rest more) :
      FilledDir s ('~' :: '/' :: rest) (home.toList ++ '/' :: more)
  | plain {cs more : List Char}
      (apart : s.home? = none ∨ (cs ≠ ['~'] ∧ ¬ ['~', '/'] <+: cs))
      (filled : Filled s.value? cs more) : FilledDir s cs more

/-- Values that do not have bare references beside those between braces. -/
def Faithful (cs : List Char) : Prop := hasBraced cs = false ∨ hasBare false cs = false

instance : DecidablePred Faithful := fun _ => inferInstanceAs (Decidable (_ ∨ _))

/-- Directories that do not have bare references beside those between braces or a tilde,
nor a tilde just before a reference. -/
def FaithfulDir (cs : List Char) : Prop :=
  (hasBraced cs = false ∧ cs.head? ≠ some '~') ∨
    (hasBare false cs = false ∧ ¬ ∃ rest, cs = '~' :: rest ∧ Opens rest)

section Values
variable {s : Surroundings} {field value x : String}

theorem expand_of_braced (braced : hasBraced value.toList = true) :
    expand s field value = .ok x ↔ (Template.ofString value).fill s.value? = .ok x.toList := by
  rw [expand, if_pos braced]
  cases (Template.ofString value).fill s.value? with
  | error name => simp
  | ok cs => simp [← String.toList_inj]

theorem expand_of_unbraced (unbraced : hasBraced value.toList = false) :
    expand s field value = .ok x ↔ x = value := by
  simp [expand, unbraced, eq_comm]

theorem expandDir_of_tilde (tilde : value.toList.head? = some '~') :
    expandDir s field value = .ok x ↔
      ∃ cs, (Template.ofString value).fill s.value? = .ok cs ∧
        x.toList = atHome s.home? cs := by
  rw [expandDir, if_pos tilde]
  cases (Template.ofString value).fill s.value? with
  | error name => simp
  | ok cs => simp [← String.toList_inj, eq_comm]

theorem expandDir_of_no_tilde (plain : value.toList.head? ≠ some '~') :
    expandDir s field value = expand s field value := by
  rw [expandDir, if_neg plain]

theorem expand_iff_filled (faithful : Faithful value.toList) :
    expand s field value = .ok x ↔ Filled s.value? value.toList x.toList := by
  cases braced : hasBraced value.toList with
  | false => rw [expand_of_unbraced braced, filled_iff_eq braced, String.toList_inj]
  | true =>
    rw [expand_of_braced braced, Template.ofString]
    exact fill_iff_filled (faithful.resolve_left (by simp [braced]))

example : ¬ Faithful "$A/$\x7bA\x7d".toList ∧ Faithful "$A/".toList ∧
    Faithful "$\x7bA:-$B$$\x7d".toList := by decide +kernel

theorem filledDir_iff_filled {cs more : List Char} (plain : cs.head? ≠ some '~') :
    FilledDir s cs more ↔ Filled s.value? cs more := by
  constructor
  · rintro (⟨known⟩ | ⟨known, later⟩ | ⟨apart, filled⟩)
    · simp at plain
    · simp at plain
    · exact filled
  · refine .plain (.inr ⟨?_, ?_⟩)
    · rintro rfl
      simp at plain
    · rintro ⟨rest, rfl⟩
      simp at plain

theorem atHome_of_apart {home : Option String} {cs : List Char}
    (apart : home = none ∨ (cs ≠ ['~'] ∧ ¬ ['~', '/'] <+: cs)) : atHome home cs = cs := by
  rcases apart with rfl | ⟨alone, below⟩
  · simp [atHome]
  · rw [atHome]
    · rintro home is -
      exact alone is
    · rintro rest home is -
      exact below ⟨rest, is.symm⟩

/-- A tilde that is not just before a reference is the home directory in what the value
stands for exactly where it is in the value as it is written. -/
theorem filledDir_tilde_iff {rest out : List Char} (apart : ¬ Opens rest) :
    FilledDir s ('~' :: rest) out ↔
      ∃ more, Filled s.value? rest more ∧ out = atHome s.home? ('~' :: more) := by
  have tilde : ¬ Opens ('~' :: rest) := not_opens_of_ne (by decide)
  constructor
  · intro filled
    cases filled with
    | home known => exact ⟨[], .done, by simp [atHome, known]⟩
    | below known later => exact ⟨_, .other apart later, by simp [atHome, known]⟩
    | plain unknown filled =>
      obtain ⟨more, later, rfl⟩ := (filled_cons_iff tilde).mp filled
      refine ⟨more, later, (atHome_of_apart ?_).symm⟩
      cases rest with
      | nil => exact .inl (by simpa using unknown)
      | cons c rest =>
        obtain ⟨more, -, rfl⟩ := (filled_cons_iff apart).mp later
        simpa using unknown
  · rintro ⟨more, later, rfl⟩
    cases known : s.home? with
    | none =>
      rw [atHome_of_apart (.inl rfl)]
      exact .plain (.inl known) (.other tilde later)
    | some home =>
      cases rest with
      | nil =>
        rw [filled_nil_iff.mp later]
        exact .home known
      | cons c rest =>
        obtain ⟨tail, remains, rfl⟩ := (filled_cons_iff apart).mp later
        by_cases slash : c = '/'
        · subst slash
          exact .below known remains
        · rw [atHome_of_apart (.inr (by simp [Ne.symm slash]))]
          exact .plain (.inr (by simp [Ne.symm slash])) (.other tilde later)

theorem expandDir_iff_filledDir (faithful : FaithfulDir value.toList) :
    expandDir s field value = .ok x ↔ FilledDir s value.toList x.toList := by
  by_cases tilde : value.toList.head? = some '~'
  · obtain ⟨bare, apart⟩ := faithful.resolve_left fun plain => plain.2 tilde
    obtain ⟨rest, is⟩ : ∃ rest, value.toList = '~' :: rest := List.head?_eq_some_iff.mp tilde
    have plain : ¬ Opens ('~' :: rest) := not_opens_of_ne (by decide)
    simp only [expandDir_of_tilde tilde, Template.ofString, fill_iff_filled bare]
    simp only [is, filled_cons_iff plain,
      filledDir_tilde_iff fun opens => apart ⟨rest, is, opens⟩]
    grind
  · rw [expandDir_of_no_tilde tilde, filledDir_iff_filled tilde]
    exact expand_iff_filled (faithful.imp And.left And.left)

end Values

section Everywhere
variable {field value x : String}

/-- Surroundings in which every variable has one value, and there are no files. -/
def everywhere (s : String) : Surroundings := ⟨⟨"/"⟩, fun _ => some s, fun _ => .error .notFound⟩

theorem expand_everywhere (s field value : String) :
    ∃ x, expand (everywhere s) field value = .ok x := by
  obtain ⟨out, filled⟩ := fill_total s (Template.ofString value)
  cases braced : hasBraced value.toList with
  | false => exact ⟨value, (expand_of_unbraced braced).mpr rfl⟩
  | true => exact ⟨String.ofList out, (expand_of_braced braced).mpr (by rwa [String.toList_ofList])⟩

theorem expandDir_everywhere (s field value : String) :
    ∃ x, expandDir (everywhere s) field value = .ok x := by
  by_cases tilde : value.toList.head? = some '~'
  · obtain ⟨out, filled⟩ := fill_total s (Template.ofString value)
    exact ⟨_, (expandDir_of_tilde tilde).mpr ⟨out, filled, String.toList_ofList⟩⟩
  · obtain ⟨x, ok⟩ := expand_everywhere s field value
    exact ⟨x, by rw [expandDir_of_no_tilde tilde, ok]⟩

theorem not_filled_of_unfaithful (unfaithful : ¬ Faithful value.toList)
    (ok : expand (everywhere "x") field value = .ok x) :
    ¬ Filled (everywhere "x").value? value.toList x.toList := by
  obtain ⟨braced, bare⟩ := not_or.mp unfaithful
  exact not_filled_of_bare (by simpa using bare)
    ((expand_of_braced (by simpa using braced)).mp ok)

theorem ofChars_tilde (rest : List Char) :
    Template.ofChars ('~' :: rest) = .literal '~' :: Template.ofChars rest := by
  rw [Template.ofChars] <;> simp

theorem not_filledDir_of_reference {rest : List Char} (is : value.toList = '~' :: rest)
    (opens : Opens rest) (ok : expandDir (everywhere "/") field value = .ok x) :
    ¬ FilledDir (everywhere "/") value.toList x.toList := by
  obtain ⟨cs, read, result⟩ := (expandDir_of_tilde (by simp [is])).mp ok
  obtain ⟨body, tail, rfl⟩ := opens
  rw [Template.ofString, is, ofChars_tilde, Template.ofChars, if_pos (by simp)] at read
  obtain ⟨_, remains, rfl⟩ := fill_literal_iff.mp read
  obtain ⟨first, more, slash, -, rfl⟩ := fill_cons_iff.mp remains
  obtain rfl : ['/'] = first := Except.ok.inj ((braced_fill _).symm.trans slash)
  have home : x.toList = '/' :: '/' :: more := result
  rw [is, home]
  rintro (_ | _ | ⟨-, filled⟩)
  obtain ⟨more, -, kept⟩ := (filled_cons_iff (not_opens_of_ne (by decide))).mp filled
  simp at kept

theorem atHome_letter (a : List Char) :
    atHome (some "x") ('~' :: a) =
      (if a = [] ∨ a.head? = some '/' then 'x' else '~') :: a := by
  rcases a with _ | ⟨c, a⟩
  · rfl
  · by_cases slash : c = '/'
    · subst slash
      rfl
    · rw [atHome_of_apart (.inr (by simp [Ne.symm slash]))]
      simp [slash]

theorem atHome_inj {a b : List Char}
    (same : atHome (some "x") ('~' :: a) = atHome (some "x") ('~' :: b)) : a = b := by
  rw [atHome_letter, atHome_letter] at same
  exact (List.cons.inj same).2

theorem not_filledDir_of_bare {rest : List Char} (is : value.toList = '~' :: rest)
    (apart : ¬ Opens rest) (bare : hasBare false value.toList = true)
    (ok : expandDir (everywhere "x") field value = .ok x) :
    ¬ FilledDir (everywhere "x") value.toList x.toList := by
  obtain ⟨cs, read, result⟩ := (expandDir_of_tilde (by simp [is])).mp ok
  rw [Template.ofString, is, ofChars_tilde] at read
  obtain ⟨more, remains, rfl⟩ := fill_literal_iff.mp read
  rw [is, hasBare_cons (by simp)] at bare
  rw [is, filledDir_tilde_iff apart, result]
  rintro ⟨more', later, same⟩
  obtain rfl := atHome_inj same
  exact not_filled_of_bare bare remains later

theorem exists_not_filledDir (unfaithful : ¬ FaithfulDir value.toList) (field : String) :
    ∃ s, ∀ {x}, expandDir (everywhere s) field value = .ok x →
      ¬ FilledDir (everywhere s) value.toList x.toList := by
  obtain ⟨looked, misread⟩ := not_or.mp unfaithful
  by_cases tilde : value.toList.head? = some '~'
  · obtain ⟨rest, is⟩ : ∃ rest, value.toList = '~' :: rest := List.head?_eq_some_iff.mp tilde
    by_cases opens : Opens rest
    · exact ⟨"/", not_filledDir_of_reference is opens⟩
    · refine ⟨"x", not_filledDir_of_bare is opens ?_⟩
      by_contra bare
      refine misread ⟨by simpa using bare, ?_⟩
      rintro ⟨rest', is', opens'⟩
      obtain rfl := (List.cons.inj (is.symm.trans is')).2
      exact opens opens'
  · refine ⟨"x", fun {x} ok filled => ?_⟩
    rw [expandDir_of_no_tilde tilde] at ok
    rw [filledDir_iff_filled tilde] at filled
    refine not_filled_of_unfaithful (fun faithful => unfaithful ?_) ok filled
    refine faithful.imp (⟨·, tilde⟩) fun bare => ⟨bare, ?_⟩
    rintro ⟨rest, is, -⟩
    simp [is] at tilde

end Everywhere

namespace Document

/-- A document with all that it says read as it is written. -/
structure Reads (s : Surroundings) (d x : Document) : Prop where
  tag : Option.Rel (fun a b => Filled s.value? a.toList b.toList) d.tag x.tag
  target : Option.Rel (fun a b => Filled s.value? a.toList b.toList) d.target x.target
  baseDir : Option.Rel (fun a b => FilledDir s a.toList b.toList) d.baseDir x.baseDir
  sourceDir : Option.Rel (fun a b => FilledDir s a.toList b.toList) d.sourceDir x.sourceDir
  aliases : x.aliases = d.aliases

/-- Documents that are read as they are written, whatever the environment is. -/
structure Faithful (d : Document) : Prop where
  tag : ∀ value ∈ d.tag, Config.Faithful value.toList
  target : ∀ value ∈ d.target, Config.Faithful value.toList
  baseDir : ∀ value ∈ d.baseDir, FaithfulDir value.toList
  sourceDir : ∀ value ∈ d.sourceDir, FaithfulDir value.toList

theorem expandOptional_eq_ok {expand : String → Except Error String} {o o' : Option String} :
    expandOptional expand o = .ok o' ↔ Option.Rel (fun a b => expand a = .ok b) o o' := by
  cases o with
  | none => cases o' <;> simp [expandOptional]
  | some value =>
    cases outcome : expand value with
    | error e => cases o' <;> simp [expandOptional, outcome, Except.map]
    | ok x => cases o' <;> simp [expandOptional, outcome, Except.map]

theorem expanded_eq_ok {s : Surroundings} {d x : Document} :
    d.expanded s = .ok x ↔
      Option.Rel (fun a b => expand s "blocks.tag" a = .ok b) d.tag x.tag ∧
      Option.Rel (fun a b => expand s "blocks.target" a = .ok b) d.target x.target ∧
      Option.Rel (fun a b => expandDir s "blocks.base_dir" a = .ok b) d.baseDir x.baseDir ∧
      Option.Rel (fun a b => expandDir s "blocks.source_dir" a = .ok b)
        d.sourceDir x.sourceDir ∧
      x.aliases = d.aliases := by
  simp only [← expandOptional_eq_ok, expanded, bind, Except.bind]
  obtain ⟨tag, baseDir, sourceDir, target, aliases⟩ := x
  cases expandOptional (expand s "blocks.tag") d.tag with
  | error e => simp
  | ok tag' =>
    cases expandOptional (expand s "blocks.target") d.target with
    | error e => simp
    | ok target' =>
      cases expandOptional (expandDir s "blocks.base_dir") d.baseDir with
      | error e => simp
      | ok baseDir' =>
        cases expandOptional (expandDir s "blocks.source_dir") d.sourceDir with
        | error e => simp
        | ok sourceDir' =>
          simp only [Except.ok.injEq, mk.injEq, eq_comm (a := d.aliases)]
          tauto

theorem rel_congr {α β : Type} {r r' : α → β → Prop} {o : Option α} {o' : Option β}
    (same : ∀ a ∈ o, ∀ b, r a b ↔ r' a b) : Option.Rel r o o' ↔ Option.Rel r' o o' := by
  cases o <;> cases o' <;> simp_all

theorem exists_of_rel {α β : Type} {r r' : α → β → Prop} {o : Option α} {o' : Option β} {a : α}
    (mem : a ∈ o) (first : Option.Rel r o o') (second : Option.Rel r' o o') :
    ∃ b, r a b ∧ r' a b := by
  cases first with
  | none => simp at mem
  | @some a' b holds =>
    obtain rfl : a' = a := by simpa using mem
    exact ⟨b, holds, Option.rel_some_some.mp second⟩

theorem expanded_iff_of_faithful {d : Document} (faithful : d.Faithful) (s : Surroundings)
    (x : Document) : d.expanded s = .ok x ↔ d.Reads s x := by
  rw [expanded_eq_ok, rel_congr fun a mem b => expand_iff_filled (faithful.tag a mem),
    rel_congr fun a mem b => expand_iff_filled (faithful.target a mem),
    rel_congr fun a mem b => expandDir_iff_filledDir (faithful.baseDir a mem),
    rel_congr fun a mem b => expandDir_iff_filledDir (faithful.sourceDir a mem)]
  constructor
  · rintro ⟨tag, target, baseDir, sourceDir, aliases⟩
    exact ⟨tag, target, baseDir, sourceDir, aliases⟩
  · rintro ⟨tag, target, baseDir, sourceDir, aliases⟩
    exact ⟨tag, target, baseDir, sourceDir, aliases⟩

theorem expanded_everywhere (s : String) (d : Document) :
    ∃ x, d.expanded (everywhere s) = .ok x := by
  have each {f : String → Except Error String} (total : ∀ a, ∃ b, f a = .ok b)
      (o : Option String) : ∃ o', Option.Rel (fun a b => f a = .ok b) o o' := by
    cases o with
    | none => exact ⟨none, .none⟩
    | some a => exact (total a).imp' some fun b ok => .some ok
  obtain ⟨tag, tagged⟩ := each (expand_everywhere s "blocks.tag") d.tag
  obtain ⟨target, targeted⟩ := each (expand_everywhere s "blocks.target") d.target
  obtain ⟨baseDir, based⟩ := each (expandDir_everywhere s "blocks.base_dir") d.baseDir
  obtain ⟨sourceDir, sourced⟩ := each (expandDir_everywhere s "blocks.source_dir") d.sourceDir
  exact ⟨⟨tag, baseDir, sourceDir, target, d.aliases⟩,
    expanded_eq_ok.mpr ⟨tagged, targeted, based, sourced, rfl⟩⟩

/-- Documents are read as they are written in every environment if and only if they are
faithful. -/
theorem expanded_iff (d : Document) :
    (∀ s x, d.expanded s = .ok x ↔ d.Reads s x) ↔ d.Faithful := by
  refine ⟨fun reads => ?_, expanded_iff_of_faithful⟩
  have both (s : String) : ∃ x, d.expanded (everywhere s) = .ok x ∧ d.Reads (everywhere s) x :=
    (expanded_everywhere s d).imp fun x ok => ⟨ok, (reads _ x).mp ok⟩
  constructor
  all_goals
    intro value mem
    by_contra unfaithful
  case tag =>
    obtain ⟨x, ok, read⟩ := both "x"
    obtain ⟨b, ok, filled⟩ := exists_of_rel mem (expanded_eq_ok.mp ok).1 read.tag
    exact not_filled_of_unfaithful unfaithful ok filled
  case target =>
    obtain ⟨x, ok, read⟩ := both "x"
    obtain ⟨b, ok, filled⟩ := exists_of_rel mem (expanded_eq_ok.mp ok).2.1 read.target
    exact not_filled_of_unfaithful unfaithful ok filled
  case baseDir =>
    obtain ⟨s, misread⟩ := exists_not_filledDir unfaithful "blocks.base_dir"
    obtain ⟨x, ok, read⟩ := both s
    obtain ⟨b, ok, filled⟩ := exists_of_rel mem (expanded_eq_ok.mp ok).2.2.1 read.baseDir
    exact misread ok filled
  case sourceDir =>
    obtain ⟨s, misread⟩ := exists_not_filledDir unfaithful "blocks.source_dir"
    obtain ⟨x, ok, read⟩ := both s
    obtain ⟨b, ok, filled⟩ := exists_of_rel mem (expanded_eq_ok.mp ok).2.2.2.1 read.sourceDir
    exact misread ok filled

end Document
end AssetBlocks.Config
