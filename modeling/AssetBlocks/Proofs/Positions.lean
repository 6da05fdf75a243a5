import AssetBlocks.Proofs.Fields
import AssetBlocks.Proofs.Runs

/-! The positions of the arguments of a module bundle. The first run is the main module; of the
next three the first one that begins with a brace begins the options, and what stands before
that is the destination and the target. Nothing of the text is lost. -/
namespace AssetBlocks.ModuleArguments
open Text Arguments
variable {c : Char} {cs rest : List Char}

theorem word?_word (tight : Tight (c :: cs)) (other : c ≠ '\x7b') :
    word? (c :: cs) = (some (String.ofList (firstRun (c :: cs))), (splitFirst (c :: cs)).2) := by
  rw [word?]
  · rw [tight.next_eq]
    rfl
  · simp
  · intro more same
    exact other (List.cons.inj same).1

/-- What stands behind the words: options, or something that is ignored. -/
def finish (main : String) (dest target : Option String) (rest : List Char) :
    Except HandlerError ModuleArguments :=
  match rest with
  | [] => .ok ⟨main, dest, target, [], none⟩
  | '\x7b' :: _ =>
    match Json.read rest with
    | .ok json => .ok ⟨main, dest, target, json.fields, none⟩
    | .error e => .error (.invalidJson e (String.ofList rest))
  | _ => .ok ⟨main, dest, target, [], some (String.ofList rest)⟩

theorem finish_other (main : String) (dest target : Option String) (other : c ≠ '\x7b') :
    finish main dest target (c :: cs) =
      .ok ⟨main, dest, target, [], some (String.ofList (c :: cs))⟩ := by
  unfold finish
  split
  · next same => cases same
  · next same => exact absurd (List.cons.inj same).1 other
  · rfl

theorem parse_eq {args : Option String} (text : trim isBlank (args.getD "").toList = c :: cs) :
    parse args = finish (String.ofList (firstRun (c :: cs))) (word? (splitFirst (c :: cs)).2).1
      (word? (word? (splitFirst (c :: cs)).2).2).1
      (word? (word? (splitFirst (c :: cs)).2).2).2 := by
  have tight : Tight (c :: cs) := text ▸ tight_trim _
  unfold parse
  simp only [text, tight.next_eq]
  rfl

def wordAt (starts : List (List Char)) (i : Nat) : Option String :=
  starts[i]?.map fun rest => String.ofList (firstRun rest)

/-- The place of the options among the runs that may begin them. -/
def optionsAt (starts : List (List Char)) : Option Nat :=
  [1, 2, 3].find? fun i => starts[i]?.bind List.head? = some '\x7b'

theorem parse_places {args : Option String} {t : List Char}
    (text : trim isBlank (args.getD "").toList = t) (nonempty : t ≠ []) :
    ∃ main, wordAt (starts t) 0 = some main ∧
      (optionsAt (starts t) = none →
        parse args = .ok ⟨main, wordAt (starts t) 1, wordAt (starts t) 2, [],
          (starts t)[3]?.map String.ofList⟩) ∧
      ∀ i, optionsAt (starts t) = some i →
        ∃ options, (starts t)[i]? = some ('\x7b' :: options) ∧
          parse args = finish main (if 1 < i then wordAt (starts t) 1 else none)
            (if 2 < i then wordAt (starts t) 2 else none) ('\x7b' :: options) := by
  obtain ⟨c, cs, rfl⟩ := List.exists_cons_of_ne_nil nonempty
  have tight : Tight (c :: cs) := text ▸ tight_trim _
  rw [parse_eq text, tight.starts_cons]
  refine ⟨_, rfl, ?_⟩
  have second := tight.rest
  generalize (splitFirst (c :: cs)).2 = rest at second
  rcases rest with _ | ⟨d, ds⟩
  · simp [optionsAt, starts, startsFrom, wordAt, word?, finish]
  rw [second.starts_cons]
  by_cases brace : d = '\x7b'
  · subst brace
    simp [optionsAt, word?]
  simp only [word?_word second brace]
  have third := second.rest
  generalize (splitFirst (d :: ds)).2 = rest at third
  rcases rest with _ | ⟨e, es⟩
  · simp [optionsAt, starts, startsFrom, wordAt, word?, finish, brace]
  rw [third.starts_cons]
  by_cases brace' : e = '\x7b'
  · subst brace'
    simp [optionsAt, word?, wordAt, brace]
  simp only [word?_word third brace']
  have fourth := third.rest
  generalize (splitFirst (e :: es)).2 = rest at fourth
  rcases rest with _ | ⟨f, fs⟩
  · simp [optionsAt, starts, startsFrom, wordAt, finish, brace, brace']
  rw [fourth.starts_cons]
  by_cases brace'' : f = '\x7b'
  · subst brace''
    simp [optionsAt, wordAt, brace, brace']
  · simp [optionsAt, wordAt, brace, brace', brace'', finish_other]

theorem finish_options {main : String} {dest target : Option String} {options : List Char}
    (brace : options.head? = some '\x7b') :
    (∃ fields, Json.read options = .ok (.object fields) ∧
        finish main dest target options = .ok ⟨main, dest, target, fields, none⟩) ∨
      ∃ fault, Json.read options = .error fault ∧
        finish main dest target options = .error (.invalidJson fault (String.ofList options)) := by
  obtain ⟨cs, rfl⟩ := List.head?_eq_some_iff.mp brace
  cases read : Json.read ('\x7b' :: cs) with
  | error fault => exact Or.inr ⟨fault, rfl, by simp only [finish, read]⟩
  | ok json =>
    obtain ⟨list, rfl⟩ := Json.read_object read
    exact Or.inl ⟨_, rfl, by simp only [finish, read, Json.fields]⟩

/-- What the arguments become, if they are not blank. -/
theorem parse_outcome {args : Option String} (nonempty : trim isBlank (args.getD "").toList ≠ []) :
    let suffixes := starts (trim isBlank (args.getD "").toList)
    ∃ main, wordAt suffixes 0 = some main ∧
      (optionsAt suffixes = none →
        parse args = .ok
          ⟨main, wordAt suffixes 1, wordAt suffixes 2, [], suffixes[3]?.map String.ofList⟩) ∧
      ∀ i, optionsAt suffixes = some i → ∃ options, suffixes[i]? = some options ∧
        ((∃ fields, Json.read options = .ok (.object fields) ∧
            parse args = .ok ⟨main, if 1 < i then wordAt suffixes 1 else none,
              if 2 < i then wordAt suffixes 2 else none, fields, none⟩) ∨
          ∃ fault, Json.read options = .error fault ∧
            parse args = .error (.invalidJson fault (String.ofList options))) := by
  intro suffixes
  obtain ⟨main, first, words, options⟩ := parse_places rfl nonempty
  refine ⟨main, first, words, fun i place => ?_⟩
  obtain ⟨rest, here, made⟩ := options i place
  refine ⟨_, here, ?_⟩
  rw [made]
  exact finish_options rfl

section words
variable {suffixes : List (List Char)} {i : Nat}

theorem plain_of_optionsAt_none (absent : optionsAt suffixes = none) (first : 1 ≤ i)
    (last : i ≤ 3) : suffixes[i]?.bind List.head? ≠ some '\x7b' := by
  have all := List.find?_eq_none.mp absent
  have place : i ∈ [1, 2, 3] := by simp; omega
  simpa using all i place

theorem plain_of_optionsAt_some {j : Nat} (found : optionsAt suffixes = some j) (first : 1 ≤ i)
    (before : i < j) : suffixes[i]?.bind List.head? ≠ some '\x7b' := by
  intro brace
  have last : j ≤ 3 := by
    have place := List.mem_of_find?_eq_some found
    simp only [List.mem_cons, List.not_mem_nil, or_false] at place
    omega
  simp only [optionsAt, List.find?_cons] at found
  obtain rfl | rfl : i = 1 ∨ i = 2 := by omega
  · simp only [brace, decide_true, Option.some.injEq] at found
    omega
  · simp only [brace, decide_true] at found
    split at found <;> simp only [Option.some.injEq] at found <;> omega

theorem wordAt_plain (plain : suffixes[i]?.bind List.head? ≠ some '\x7b') :
    ∀ word ∈ wordAt suffixes i, word.toList.head? ≠ some '\x7b' := by
  intro word has brace
  obtain ⟨rest, here, rfl⟩ := Option.map_eq_some_iff.mp has
  rw [String.toList_ofList] at brace
  apply plain
  obtain ⟨tail, same⟩ := List.takeWhile_prefix (l := rest) (!isGap ·)
  rw [here, Option.bind_some, ← same, List.head?_append, ← firstRun, brace]
  rfl

theorem wordAt_isSome {j : Nat} (there : (suffixes[j]?).isSome = true) (before : i ≤ j) :
    (wordAt suffixes i).isSome = true := by
  simp [wordAt] at *
  omega

end words

theorem parse_ordered {args : Option String} {found : ModuleArguments}
    (parsed : parse args = .ok found) :
    (found.target.isSome = true → found.dest.isSome = true) ∧
    (found.ignored.isSome = true → found.target.isSome = true) ∧
    ∀ word, found.dest = some word ∨ found.target = some word →
      word.toList.head? ≠ some '\x7b' := by
  by_cases empty : trim isBlank (args.getD "").toList = []
  · simp only [parse, empty, reduceCtorEq] at parsed
  obtain ⟨main, _, words, options⟩ := parse_outcome empty
  generalize starts (trim isBlank (args.getD "").toList) = suffixes at words options
  cases place : optionsAt suffixes with
  | none =>
    obtain rfl := Except.ok.inj (parsed.symm.trans (words place))
    refine ⟨fun has => ?_, fun has => ?_, ?_⟩
    · exact wordAt_isSome (by simpa [wordAt] using has) (by decide : 1 ≤ 2)
    · exact wordAt_isSome (by simpa using has) (by decide : 2 ≤ 3)
    · rintro word (has | has)
      · exact wordAt_plain (plain_of_optionsAt_none place (by decide) (by decide)) word has
      · exact wordAt_plain (plain_of_optionsAt_none place (by decide) (by decide)) word has
  | some i =>
    obtain ⟨rest, here, ⟨fields, _, made⟩ | ⟨fault, _, made⟩⟩ := options i place
    · obtain rfl := Except.ok.inj (parsed.symm.trans made)
      refine ⟨fun has => ?_, fun has => ?_, ?_⟩
      · by_cases third : 2 < i
        · have second : 1 < i := by omega
          simp only [if_pos second]
          exact wordAt_isSome (j := i) (by simp [here]) (by omega)
        · simp [third] at has
      · cases has
      · rintro word (has | has)
        · obtain ⟨before, there⟩ := Option.ite_none_right_eq_some.mp has
          exact wordAt_plain (plain_of_optionsAt_some place (by decide) before) word there
        · obtain ⟨before, there⟩ := Option.ite_none_right_eq_some.mp has
          exact wordAt_plain (plain_of_optionsAt_some place (by decide) before) word there
    · cases parsed.symm.trans made

theorem parse_missing (args : Option String) : parse args = .error (.missingArguments form) ↔
    ∀ text ∈ args, ∀ c ∈ text.toList, isBlank c = true := by
  have blank : trim isBlank (args.getD "").toList = [] ↔
      ∀ text ∈ args, ∀ c ∈ text.toList, isBlank c = true := by
    rw [trim_eq_nil_iff]
    cases args <;> simp
  rw [← blank]
  constructor
  · intro failed
    by_contra nonempty
    obtain ⟨main, _, words, options⟩ := parse_outcome nonempty
    cases place : optionsAt (starts (trim isBlank (args.getD "").toList)) with
    | none => cases failed.symm.trans (words place)
    | some i =>
      obtain ⟨_, _, ⟨_, _, made⟩ | ⟨_, _, made⟩⟩ := options i place <;>
        cases failed.symm.trans made
  · intro empty
    simp only [parse, empty]

/-- Arguments are taken apart by their runs. The options are what is left from the first of the
second to the fourth run on that begins with a brace, and they are read as JSON; the runs before
that are the main module, the destination and the target, and what is left behind these without
options is ignored. -/
theorem parse_grammar (args : Option String) :
    (parse args = .error (.missingArguments form) ↔
      ∀ text ∈ args, ∀ c ∈ text.toList, isBlank c = true) ∧
    (∀ text, args = some text → (∃ c ∈ text.toList, isBlank c = false) →
      let suffixes := starts (trim isBlank text.toList)
      ∃ main, wordAt suffixes 0 = some main ∧
        (optionsAt suffixes = none →
          parse args = .ok
            ⟨main, wordAt suffixes 1, wordAt suffixes 2, [], suffixes[3]?.map String.ofList⟩) ∧
        ∀ i, optionsAt suffixes = some i → ∃ options, suffixes[i]? = some options ∧
          (∀ fields, Json.read options = .ok (.object fields) →
            parse args = .ok ⟨main, if 1 < i then wordAt suffixes 1 else none,
              if 2 < i then wordAt suffixes 2 else none, fields, none⟩) ∧
          ((∃ found, parse args = .ok found) ↔
            ∃ fields, Json.read options = .ok (.object fields)) ∧
          ∀ e, parse args = .error e ↔ ∃ fault, Json.read options = .error fault ∧
            e = .invalidJson fault (String.ofList options)) ∧
    ∀ found, parse args = .ok found →
      (found.target.isSome = true → found.dest.isSome = true) ∧
      (found.ignored.isSome = true → found.target.isSome = true) ∧
      ∀ word, found.dest = some word ∨ found.target = some word →
        word.toList.head? ≠ some '\x7b' := by
  refine ⟨parse_missing args, ?_, fun found => parse_ordered⟩
  rintro text rfl ⟨c, inside, solid⟩ suffixes
  have nonempty : trim isBlank text.toList ≠ [] := by
    rw [Ne, trim_eq_nil_iff]
    intro blank
    rw [blank c inside] at solid
    cases solid
  obtain ⟨main, first, words, options⟩ := @parse_outcome (some text) nonempty
  refine ⟨main, first, words, fun i place => ?_⟩
  obtain ⟨options, here, ⟨fields, read, made⟩ | ⟨fault, read, made⟩⟩ := options i place
  · refine ⟨options, here, fun more same => ?_, ⟨fun _ => ⟨fields, read⟩, fun _ => ⟨_, made⟩⟩,
      fun e => ⟨fun failed => ?_, ?_⟩⟩
    · cases read.symm.trans same
      exact made
    · cases made.symm.trans failed
    · rintro ⟨fault, failed, _⟩
      cases read.symm.trans failed
  · refine ⟨options, here, fun more same => ?_, ⟨?_, ?_⟩, fun e => ⟨fun failed => ?_, ?_⟩⟩
    · cases read.symm.trans same
    · rintro ⟨found, parsed⟩
      cases made.symm.trans parsed
    · rintro ⟨fields, same⟩
      cases read.symm.trans same
    · cases made.symm.trans failed
      exact ⟨fault, read, rfl⟩
    · rintro ⟨fault', same, rfl⟩
      cases read.symm.trans same
      exact made

/-- Options in the third place, behind a tab and two spaces, and blanks at both ends. -/
theorem parse_grammar_options : ∃ (text options : String) (fields : Json.Fields),
    text = " app\tout.js  \x7b\"a\": true\x7d\n" ∧ options = "\x7b\"a\": true\x7d" ∧
    (∃ c ∈ text.toList, isBlank c = false) ∧
    optionsAt (starts (trim isBlank text.toList)) = some 2 ∧
    (starts (trim isBlank text.toList))[2]? = some options.toList ∧
    Json.read options.toList = .ok (.object fields) ∧
    Json.compact (.object fields) = "\x7b\"a\":true\x7d" ∧
    parse (some text) = .ok ⟨"app", some "out.js", none, fields, none⟩ := by
  let text := " app\tout.js  \x7b\"a\": true\x7d\n"
  let options := "\x7b\"a\": true\x7d"
  have solid : ∃ c ∈ text.toList, isBlank c = false := ⟨'a', by decide, by decide⟩
  have place : optionsAt (starts (trim isBlank text.toList)) = some 2 := by decide
  have here : (starts (trim isBlank text.toList))[2]? = some options.toList := by decide
  have printed : (Json.read options.toList).toOption.map Json.compact =
      some "\x7b\"a\":true\x7d" := by decide +kernel
  cases read : Json.read options.toList with
  | error fault =>
    rw [read] at printed
    cases printed
  | ok json =>
    have brace : options.toList = '\x7b' :: options.toList.tail := by decide
    obtain ⟨list, rfl⟩ := Json.read_object (brace ▸ read)
    rw [read] at printed
    obtain ⟨main, first, _, given⟩ := (parse_grammar (some text)).2.1 text rfl solid
    obtain ⟨rest, there, made, _⟩ := given 2 place
    obtain rfl := Option.some.inj (here.symm.trans there)
    have word : wordAt (starts (trim isBlank text.toList)) 0 = some "app" := by decide
    have dest : wordAt (starts (trim isBlank text.toList)) 1 = some "out.js" := by decide
    obtain rfl := Option.some.inj (word.symm.trans first)
    refine ⟨text, options, _, rfl, rfl, solid, place, here, read, Option.some.inj printed, ?_⟩
    rw [made _ read, if_pos (by decide), dest]
    rfl

end AssetBlocks.ModuleArguments
