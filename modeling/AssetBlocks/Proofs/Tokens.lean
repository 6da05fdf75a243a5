import AssetBlocks.Proofs.Runs
import Mathlib.Data.List.Basic

/-! The tokens of a split, by the runs of the text. Without a limit they are the runs; under a
limit the last one is what is left of the text from its run on, without the gap at the end. With
a space between them the tokens have the same runs as the text. -/
namespace AssetBlocks.Arguments
open Text
variable {c : Char} {cs rest : List Char} {fresh : Bool}

def runs (cs : List Char) : List (List Char) := (starts cs).map firstRun

theorem startsFrom_gap (gap : isGap c = true) :
    startsFrom fresh (c :: cs) = startsFrom true cs := by
  rw [startsFrom, if_pos gap]

theorem startsFrom_solid (solid : isGap c = false) : startsFrom fresh (c :: cs) =
    if fresh then (c :: cs) :: startsFrom false cs else startsFrom false cs := by
  rw [startsFrom, if_neg (by simp [solid])]

theorem starts_solid (solid : isGap c = false) :
    starts (c :: cs) = (c :: cs) :: startsFrom false cs := by
  rw [starts, startsFrom_solid solid, if_pos rfl]

theorem suffix_of_startsFrom (found : rest ∈ startsFrom fresh cs) : rest <:+ cs := by
  induction cs generalizing fresh with
  | nil => cases found
  | cons c cs ih =>
    have later {fresh : Bool} (found : rest ∈ startsFrom fresh cs) : rest <:+ c :: cs :=
      (ih found).trans (List.suffix_cons c cs)
    cases gap : isGap c with
    | true => exact later (startsFrom_gap gap ▸ found)
    | false =>
      rw [startsFrom_solid gap] at found
      split at found
      · rcases List.mem_cons.mp found with rfl | found
        · exact List.suffix_rfl
        · exact later found
      · exact later found

theorem not_mem_startsFrom (longer : cs.length < rest.length) : rest ∉ startsFrom fresh cs := by
  intro found
  have := (suffix_of_startsFrom found).length_le
  omega

theorem mem_startsFrom {before : List Char} : rest ∈ startsFrom fresh (before ++ rest) ↔
    (∃ c ∈ rest.head?, isGap c = false) ∧ (before = [] → fresh = true) ∧
      ∀ c ∈ before.getLast?, isGap c = true := by
  induction before generalizing fresh with
  | nil =>
    cases rest with
    | nil => simp [startsFrom]
    | cons c rest =>
      have shorter {fresh : Bool} : c :: rest ∉ startsFrom fresh rest :=
        not_mem_startsFrom (by simp)
      cases gap : isGap c with
      | true => simp [startsFrom_gap gap, shorter, gap]
      | false => cases fresh <;> simp [startsFrom_solid gap, shorter, gap]
  | cons d before ih =>
    have longer : rest ≠ d :: (before ++ rest) := by
      intro same
      have := congrArg List.length same
      simp at this
      omega
    rw [List.cons_append]
    cases gap : isGap d with
    | true =>
      rw [startsFrom_gap gap, ih]
      cases before <;> simp [gap]
    | false =>
      have passed : rest ∈ startsFrom fresh (d :: (before ++ rest)) ↔
          rest ∈ startsFrom false (before ++ rest) := by
        rw [startsFrom_solid gap]
        cases fresh <;> simp [longer]
      rw [passed, ih]
      cases before <;> simp [gap]

/-- A run in its text: gaps or the ends of the text are around it. -/
structure IsRun (before run behind : List Char) : Prop where
  nonempty : run ≠ []
  solid : ∀ c ∈ run, isGap c = false
  before : ∀ c ∈ before.getLast?, isGap c = true
  behind : ∀ c ∈ behind.head?, isGap c = true

theorem isRun_iff {before run behind : List Char} : IsRun before run behind ↔
    run ++ behind ∈ starts (before ++ (run ++ behind)) ∧ firstRun (run ++ behind) = run := by
  rw [starts, mem_startsFrom]
  constructor
  · rintro ⟨nonempty, solid, gap, ends⟩
    refine ⟨⟨?_, fun _ => rfl, gap⟩, ?_⟩
    · obtain ⟨c, more, rfl⟩ := List.exists_cons_of_ne_nil nonempty
      exact ⟨c, rfl, solid c (by simp)⟩
    · have stops : behind.takeWhile (!isGap ·) = [] := by
        cases behind with
        | nil => rfl
        | cons c behind => simp [ends c rfl]
      rw [firstRun, List.takeWhile_append_of_pos (by simpa using solid), stops, List.append_nil]
  · rintro ⟨⟨⟨c, first, solid⟩, _, gap⟩, whole⟩
    obtain ⟨more, begun⟩ := List.head?_eq_some_iff.mp first
    have same : behind = (run ++ behind).dropWhile (!isGap ·) := by
      have parts := List.takeWhile_append_dropWhile (p := (!isGap ·)) (l := run ++ behind)
      rw [← firstRun, whole] at parts
      exact (List.append_cancel_left parts).symm
    refine ⟨?_, ?_, gap, ?_⟩
    · rintro rfl
      rw [begun] at whole
      simp [firstRun, solid] at whole
    · intro d inside
      rw [← whole] at inside
      simpa using List.mem_takeWhile_imp inside
    · rw [same]
      intro d first
      simpa using dropWhile_head _ _ d first

theorem startsFrom_ordered (fresh : Bool) (cs : List Char) :
    (startsFrom fresh cs).Pairwise fun rest later => later.length < rest.length := by
  induction cs generalizing fresh with
  | nil => exact .nil
  | cons c cs ih =>
    cases gap : isGap c with
    | true => exact startsFrom_gap gap ▸ ih true
    | false =>
      rw [startsFrom_solid gap]
      split
      · refine .cons (fun later found => ?_) (ih false)
        have := (suffix_of_startsFrom found).length_le
        simp
        omega
      · exact ih false

theorem starts_of_getElem? {i : Nat} (here : (startsFrom fresh cs)[i]? = some rest) :
    starts rest = (startsFrom fresh cs).drop i := by
  induction cs generalizing fresh i with
  | nil => simp [startsFrom] at here
  | cons c cs ih =>
    cases gap : isGap c with
    | true =>
      rw [startsFrom_gap gap] at here ⊢
      exact ih here
    | false =>
      rw [startsFrom_solid gap] at here ⊢
      cases fresh with
      | false => exact ih here
      | true =>
        cases i with
        | zero =>
          obtain rfl := Option.some.inj here
          exact starts_solid gap
        | succ i => exact ih here

theorem trimEnd_cons (test : Char → Bool) (c : Char) (cs : List Char) : trimEnd test (c :: cs) =
    if trimEnd test cs = [] ∧ test c = true then [] else c :: trimEnd test cs := by
  simp only [trimEnd, List.reverse_cons, List.dropWhile_append, List.reverse_eq_nil_iff,
    List.isEmpty_iff]
  split
  · next empty => cases value : test c <;> simp [empty, value]
  · next nonempty => simp [nonempty]

theorem startsFrom_trimEnd (fresh : Bool) (cs : List Char) :
    startsFrom fresh (trimEnd isGap cs) = (startsFrom fresh cs).map (trimEnd isGap) := by
  induction cs generalizing fresh with
  | nil => rfl
  | cons c cs ih =>
    rw [trimEnd_cons]
    cases gap : isGap c with
    | true =>
      rw [startsFrom_gap gap, ← ih]
      by_cases empty : trimEnd isGap cs = []
      · simp [empty, startsFrom]
      · rw [if_neg (by simp [empty]), startsFrom_gap gap]
    | false =>
      have whole : trimEnd isGap (c :: cs) = c :: trimEnd isGap cs := by simp [trimEnd_cons, gap]
      rw [if_neg (by simp), startsFrom_solid gap, startsFrom_solid gap, ih]
      cases fresh <;> simp [whole]

theorem starts_trim (cs : List Char) :
    starts (trim isGap cs) = (starts cs).map (trimEnd isGap) := by
  rw [trim, starts, startsFrom_trimEnd, ← starts, ← starts_dropWhile]

theorem firstRun_trimEnd (cs : List Char) : firstRun (trimEnd isGap cs) = firstRun cs := by
  induction cs with
  | nil => rfl
  | cons c cs ih =>
    rw [trimEnd_cons]
    cases gap : isGap c with
    | true => split <;> simp [firstRun, gap]
    | false =>
      rw [if_neg (by simp)]
      simpa [firstRun, gap] using ih

theorem runs_trim (cs : List Char) : runs (trim isGap cs) = runs cs := by
  simp only [runs, starts_trim, List.map_map, Function.comp_def, firstRun_trimEnd]

theorem startsFrom_append_gap (gap : isGap c = true) (fresh : Bool) (before behind : List Char) :
    startsFrom fresh (before ++ c :: behind) =
      (startsFrom fresh before).map (· ++ c :: behind) ++ starts behind := by
  induction before generalizing fresh with
  | nil => exact startsFrom_gap gap
  | cons d before ih =>
    rw [List.cons_append]
    cases gap' : isGap d with
    | true => rw [startsFrom_gap gap', startsFrom_gap gap', ih]
    | false =>
      rw [startsFrom_solid gap', startsFrom_solid gap', ih]
      cases fresh <;> rfl

theorem firstRun_append_gap (gap : isGap c = true) (before behind : List Char) :
    firstRun (before ++ c :: behind) = firstRun before := by
  induction before with
  | nil => simp [firstRun, gap]
  | cons d before ih =>
    cases gap' : isGap d with
    | true => simp [firstRun, gap']
    | false => simpa [firstRun, gap'] using ih

theorem runs_append_gap (gap : isGap c = true) (before behind : List Char) :
    runs (before ++ c :: behind) = runs before ++ runs behind := by
  rw [runs, starts, startsFrom_append_gap gap, List.map_append, List.map_map]
  simp only [Function.comp_def, firstRun_append_gap gap]
  rfl

theorem runs_intercalate (tokens : List (List Char)) :
    runs ([' '].intercalate tokens) = tokens.flatMap runs := by
  induction tokens with
  | nil => rfl
  | cons token more ih =>
    cases more with
    | nil => simp
    | cons next more =>
      rw [List.intercalate_cons_cons, List.append_assoc, List.singleton_append,
        runs_append_gap (by decide), ih]
      rfl

theorem runs_of_getElem? {i : Nat} (here : (starts cs)[i]? = some rest) :
    runs rest = (runs cs).drop i := by
  rw [runs, starts_of_getElem? here, runs, starts, List.map_drop]

theorem Tight.runs_cons (tight : Tight (c :: cs)) :
    runs (c :: cs) = (splitFirst (c :: cs)).1 :: runs (splitFirst (c :: cs)).2 := by
  rw [runs, tight.starts_cons]
  rfl

theorem tokens_cons {limit : Nat} (solid : isGap c = false) (other : limit ≠ 1) :
    tokens limit (c :: cs) =
      (splitFirst (c :: cs)).1 :: tokens (limit - 1) (splitFirst (c :: cs)).2 := by
  rw [tokens, if_neg other, dif_neg (by simp [solid])]

theorem Tight.tokens_zero (tight : Tight cs) : tokens 0 cs = runs cs := by
  induction length : cs.length using Nat.strongRecOn generalizing cs with
  | ind n ih =>
    cases cs with
    | nil => simp [tokens, runs, starts, startsFrom]
    | cons c cs =>
      have solid : isGap c = false := tight.first c rfl
      have shorter : (splitFirst (c :: cs)).2.length < (c :: cs).length := splitFirst_length solid
      rw [tokens_cons solid (by decide), tight.runs_cons,
        ih _ (by omega) tight.rest rfl]

theorem Tight.tokens_succ (tight : Tight cs) (n : Nat) :
    tokens (n + 1) cs = (runs cs).take n ++ ((starts cs).drop n).take 1 := by
  induction n generalizing cs with
  | zero =>
    cases cs with
    | nil => simp [tokens, starts, startsFrom]
    | cons c cs => simp [tokens, tight.starts_cons]
  | succ n ih =>
    cases cs with
    | nil => simp [tokens, runs, starts, startsFrom]
    | cons c cs =>
      have solid : isGap c = false := tight.first c rfl
      rw [tokens_cons solid (by omega), Nat.add_sub_cancel, ih tight.rest, tight.runs_cons,
        tight.starts_cons]
      rfl

theorem tight_trim_gap (cs : List Char) : Tight (trim isGap cs) :=
  ⟨trim_head isGap cs, trim_getLast isGap cs⟩

theorem Tight.of_start (tight : Tight cs) (found : rest ∈ starts cs) : Tight rest ∧ rest ≠ [] := by
  obtain ⟨before, rfl⟩ := suffix_of_startsFrom found
  obtain ⟨⟨c, first, solid⟩, _⟩ := mem_startsFrom.mp found
  refine ⟨⟨fun d first' => ?_, fun d last => tight.last d ?_⟩, ?_⟩
  · obtain rfl := Option.some.inj (first.symm.trans first')
    exact solid
  · rw [List.getLast?_append, Option.mem_def.mp last]
    rfl
  · rintro rfl
    cases first

theorem Tight.firstRun (tight : Tight cs) (nonempty : cs ≠ []) :
    Tight (firstRun cs) ∧ Arguments.firstRun cs ≠ [] := by
  obtain ⟨c, cs, rfl⟩ := List.exists_cons_of_ne_nil nonempty
  have solid : isGap c = false := tight.first c rfl
  have inside {d : Char} (found : d ∈ Arguments.firstRun (c :: cs)) : isGap d = false := by
    simpa using List.mem_takeWhile_imp found
  refine ⟨⟨fun d first => ?_, fun d last => ?_⟩, by simp [Arguments.firstRun, solid]⟩
  · exact inside (List.mem_of_head? first)
  · exact inside (List.mem_of_getLast? last)

theorem Tight.firstRun_eq (tight : Tight cs) (alone : (splitFirst cs).2 = []) :
    Arguments.firstRun cs = cs := by
  have parts := List.takeWhile_append_dropWhile (p := (!isGap ·)) (l := cs)
  rw [splitFirst, List.dropWhile_eq_nil_iff] at alone
  rw [Arguments.firstRun]
  generalize cs.takeWhile (!isGap ·) = run at parts ⊢
  generalize cs.dropWhile (!isGap ·) = behind at parts alone
  rcases behind.eq_nil_or_concat' with rfl | ⟨front, c, rfl⟩
  · simpa using parts
  · have gap : isGap c = true := alone c (by simp)
    have solid : isGap c = false := tight.last c (by simp [← parts])
    cases gap.symm.trans solid

theorem Tight.eq_nil_of_starts (tight : Tight cs) (empty : starts cs = []) : cs = [] := by
  cases cs with
  | nil => rfl
  | cons c cs => cases tight.starts_cons.symm.trans empty

theorem Tight.tokens_of_le (tight : Tight cs) {n : Nat} (few : (starts cs).length ≤ n + 1) :
    tokens (n + 1) cs = runs cs := by
  induction n generalizing cs with
  | zero =>
    cases cs with
    | nil => simp [tokens, runs, starts, startsFrom]
    | cons c cs =>
      rw [tight.starts_cons, List.length_cons] at few
      have alone := tight.rest.eq_nil_of_starts (List.eq_nil_of_length_eq_zero (by omega))
      have whole := tight.firstRun_eq alone
      rw [tokens, if_pos rfl, runs, tight.starts_cons, alone, List.map_cons, whole]
      rfl
  | succ n ih =>
    cases cs with
    | nil => simp [tokens, runs, starts, startsFrom]
    | cons c cs =>
      have solid : isGap c = false := tight.first c rfl
      rw [tight.starts_cons, List.length_cons] at few
      rw [tokens_cons solid (by omega), Nat.add_sub_cancel, ih tight.rest (by omega),
        tight.runs_cons]

theorem Tight.tokens_tight (tight : Tight cs) {limit : Nat} {token : List Char}
    (found : token ∈ tokens limit cs) : Tight token ∧ token ≠ [] := by
  have of_run {token : List Char} (found : token ∈ runs cs) : Tight token ∧ token ≠ [] := by
    obtain ⟨rest, here, rfl⟩ := List.mem_map.mp found
    obtain ⟨tight', nonempty⟩ := tight.of_start here
    exact tight'.firstRun nonempty
  cases limit with
  | zero => exact of_run (tight.tokens_zero ▸ found)
  | succ n =>
    rw [tight.tokens_succ] at found
    rcases List.mem_append.mp found with first | last
    · exact of_run (List.mem_of_mem_take first)
    · exact tight.of_start (List.mem_of_mem_drop (List.mem_of_mem_take last))

theorem runs_solid (nonempty : cs ≠ []) (solid : ∀ c ∈ cs, isGap c = false) : runs cs = [cs] := by
  obtain ⟨c, cs, rfl⟩ := List.exists_cons_of_ne_nil nonempty
  have tight : Tight (c :: cs) := ⟨fun d first => solid d (List.mem_of_head? first),
    fun d last => solid d (List.mem_of_getLast? last)⟩
  have whole : (c :: cs).takeWhile (!isGap ·) = c :: cs := by
    rw [List.takeWhile_eq_self_iff]
    simpa using solid
  have empty : (c :: cs).dropWhile (!isGap ·) = [] := by
    rw [List.dropWhile_eq_nil_iff]
    simpa using solid
  rw [tight.runs_cons, splitFirst, whole, empty]
  rfl

theorem runs_of_run {run : List Char} (found : run ∈ runs cs) : runs run = [run] := by
  obtain ⟨rest, here, rfl⟩ := List.mem_map.mp found
  obtain ⟨before, rfl⟩ := suffix_of_startsFrom here
  obtain ⟨⟨c, first, solid⟩, _⟩ := mem_startsFrom.mp here
  obtain ⟨more, rfl⟩ := List.head?_eq_some_iff.mp first
  refine runs_solid (by simp [firstRun, solid]) fun d inside => ?_
  simpa using List.mem_takeWhile_imp inside

theorem flatMap_runs {list : List (List Char)} (within : ∀ run ∈ list, run ∈ runs cs) :
    list.flatMap runs = list := by
  induction list with
  | nil => rfl
  | cons run more ih =>
    rw [List.flatMap_cons, runs_of_run (within run (by simp)),
      ih fun run inside => within run (by simp [inside])]
    rfl

/-- Whatever the limit, the tokens have the runs of the text, in order. -/
theorem Tight.runs_tokens (tight : Tight cs) (limit : Nat) :
    (tokens limit cs).flatMap runs = runs cs := by
  cases limit with
  | zero =>
    rw [tight.tokens_zero]
    exact flatMap_runs fun run inside => inside
  | succ n =>
    have last : (((starts cs).drop n).take 1).flatMap runs = (runs cs).drop n := by
      rw [List.take_one, List.head?_drop]
      cases here : (starts cs)[n]? with
      | none =>
        have all : (starts cs).length ≤ n := List.getElem?_eq_none_iff.mp here
        rw [List.drop_eq_nil_of_le (by simpa [runs] using all)]
        rfl
      | some rest => simpa using runs_of_getElem? here
    rw [tight.tokens_succ, List.flatMap_append, last,
      flatMap_runs fun run inside => List.mem_of_mem_take inside, List.take_append_drop]

variable {args : String} {limit : Nat}

theorem split_of_ne_one (other : limit ≠ 1) :
    split args limit = (tokens limit (trim isGap args.toList)).map String.ofList := by
  rw [split, if_neg other]

theorem split_all (free : limit = 0 ∨ 2 ≤ limit ∧ (starts args.toList).length ≤ limit) :
    split args limit = (runs args.toList).map String.ofList := by
  have tight := tight_trim_gap args.toList
  rw [split_of_ne_one (by omega), ← runs_trim]
  rcases free with rfl | ⟨more, few⟩
  · rw [tight.tokens_zero]
  · obtain ⟨n, rfl⟩ := Nat.exists_eq_add_of_le' (show 1 ≤ limit by omega)
    rw [tight.tokens_of_le (by simpa [starts_trim] using few)]

theorem split_left (more : 2 ≤ limit) (many : limit < (starts args.toList).length) :
    ∃ rest, (starts args.toList)[limit - 1]? = some rest ∧
      split args limit = ((runs args.toList).take (limit - 1)).map String.ofList ++
        [String.ofList (trimEnd isGap rest)] := by
  obtain ⟨n, rfl⟩ := Nat.exists_eq_add_of_le' (show 1 ≤ limit by omega)
  rw [Nat.add_sub_cancel]
  have here := List.getElem?_eq_getElem (show n < (starts args.toList).length by omega)
  refine ⟨_, here, ?_⟩
  rw [split_of_ne_one (by omega), (tight_trim_gap args.toList).tokens_succ, runs_trim,
    starts_trim, List.take_one, List.head?_drop, List.getElem?_map, here, List.map_append]
  rfl

theorem split_length_le (limited : limit ≠ 0) : (split args limit).length ≤ limit := by
  obtain ⟨n, rfl⟩ := Nat.exists_eq_add_of_le' (Nat.pos_of_ne_zero limited)
  by_cases one : n + 1 = 1
  · simp [split, one]
  · rw [split_of_ne_one one, List.length_map, (tight_trim_gap args.toList).tokens_succ,
      List.length_append, List.length_take, List.length_take]
    omega

theorem split_tight (other : limit ≠ 1) {token : String} (found : token ∈ split args limit) :
    Tight token.toList ∧ token.toList ≠ [] := by
  rw [split_of_ne_one other] at found
  obtain ⟨cs, inside, rfl⟩ := List.mem_map.mp found
  rw [String.toList_ofList]
  exact (tight_trim_gap args.toList).tokens_tight inside

theorem split_again (args : String) (limit : Nat) :
    split (" ".intercalate (split args limit)) 0 = split args 0 := by
  rw [split_all (Or.inl rfl), split_all (Or.inl rfl), String.toList_intercalate]
  congr 1
  by_cases one : limit = 1
  · simp [split, one]
  · have tight := tight_trim_gap args.toList
    have texts : (split args limit).map String.toList = tokens limit (trim isGap args.toList) := by
      rw [split_of_ne_one one, List.map_map]
      simp [Function.comp_def]
    have space : " ".toList = [' '] := rfl
    rw [texts, space, runs_intercalate, tight.runs_tokens, runs_trim]

/-- The tokens of every text under every limit. Its runs stand where `starts` says, in order.
Without a limit, or where there are no more runs than that, they are the tokens; otherwise the
last token goes from the start of its run to the end of the last run. A limit of one alone keeps
gaps at the ends. The tokens with spaces between them split like the text. -/
theorem split_runs (args : String) (limit : Nat) :
    (∀ rest ∈ starts args.toList, rest <:+ args.toList) ∧
    (starts args.toList).Pairwise (fun rest later => later.length < rest.length) ∧
    (∀ before run behind, args.toList = before ++ (run ++ behind) →
      (IsRun before run behind ↔
        run ++ behind ∈ starts args.toList ∧ firstRun (run ++ behind) = run)) ∧
    (limit = 0 → split args limit = (runs args.toList).map String.ofList) ∧
    (limit = 1 → split args limit = [args]) ∧
    (2 ≤ limit → (starts args.toList).length ≤ limit →
      split args limit = (runs args.toList).map String.ofList) ∧
    (2 ≤ limit → limit < (starts args.toList).length →
      ∃ rest, (starts args.toList)[limit - 1]? = some rest ∧
        split args limit = ((runs args.toList).take (limit - 1)).map String.ofList ++
          [String.ofList (trimEnd isGap rest)]) ∧
    (limit ≠ 0 → (split args limit).length ≤ limit) ∧
    (limit ≠ 1 → ∀ token ∈ split args limit, Tight token.toList ∧ token.toList ≠ []) ∧
    split (" ".intercalate (split args limit)) 0 = split args 0 := by
  refine ⟨fun rest found => suffix_of_startsFrom found, startsFrom_ordered _ _, ?_,
    fun free => split_all (Or.inl free), fun one => if_pos one,
    fun more few => split_all (Or.inr ⟨more, few⟩), split_left, split_length_le,
    fun other token found => split_tight other found, split_again args limit⟩
  intro before run behind divided
  rw [divided]
  exact isRun_iff

/-- Four runs under a limit of three, with gaps at both ends and between the last two. -/
theorem split_runs_left : ∃ (args : String) (limit : Nat) (rest : List Char),
    args = "\ta b  c \td " ∧ 2 ≤ limit ∧ limit < (starts args.toList).length ∧
    (starts args.toList)[limit - 1]? = some rest ∧ rest = "c \td ".toList ∧
    split args limit = ["a", "b", "c \td"] := by
  have many : 3 < (starts "\ta b  c \td ".toList).length := by decide
  obtain ⟨_, _, _, _, _, _, left, _⟩ := split_runs "\ta b  c \td " 3
  obtain ⟨rest, here, tokens⟩ := left (by decide) many
  have place : (starts "\ta b  c \td ".toList)[3 - 1]? = some "c \td ".toList := by decide
  obtain rfl := Option.some.inj (place.symm.trans here)
  refine ⟨_, 3, _, rfl, by decide, many, here, rfl, tokens.trans ?_⟩
  decide

end AssetBlocks.Arguments
