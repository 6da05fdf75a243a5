import AssetBlocks.Config.Document
import Mathlib.Data.List.Infix

/-! What a text with references stands for: a reference between braces for its variable or
its fallback, and every other character for itself. Templates stand for the same exactly
where no dollar counts without a brace. -/
namespace AssetBlocks.Config
open Text

namespace Template

theorem splitFallback_spec (cs : List Char) :
    (∀ {name}, splitFallback cs = (name, none) → name = cs ∧ ¬ [':', '-'] <:+: cs) ∧
      ∀ {name instead}, splitFallback cs = (name, some instead) →
        cs = name ++ ':' :: '-' :: instead ∧ ¬ [':', '-'] <:+: name := by
  fun_induction splitFallback cs with
  | case1 => simp
  | case2 rest => simp +contextual
  | case3 c rest first ih =>
    have fresh {more tail : List Char} (is : rest = more ++ tail)
        (none : ¬ [':', '-'] <:+: more) : ¬ [':', '-'] <:+: c :: more := by
      simp only [List.infix_cons_iff, List.cons_prefix_cons, not_or, not_and]
      refine ⟨?_, none⟩
      rintro rfl
      cases more with
      | nil => simp
      | cons d more =>
        simp only [List.cons_prefix_cons, List.nil_prefix, and_true]
        rintro rfl
        exact first (more ++ tail) rfl is
    cases split : splitFallback rest with
    | mk name fallback =>
      cases fallback with
      | none =>
        obtain ⟨rfl, none⟩ := ih.1 split
        simpa using fresh (List.append_nil _).symm none
      | some instead =>
        obtain ⟨is, none⟩ := ih.2 split
        simpa [is] using fresh is none

theorem splitFallback_append {name : List Char} (first : ¬ [':', '-'] <:+: name)
    (instead : List Char) :
    splitFallback (name ++ ':' :: '-' :: instead) = (name, some instead) := by
  induction name with
  | nil => rfl
  | cons c name ih =>
    rw [List.infix_cons_iff, not_or] at first
    rw [List.cons_append, splitFallback, ih first.2]
    rintro rest rfl is
    cases name with
    | nil => simp at is
    | cons d name =>
      simp only [List.cons_append, List.cons.injEq] at is
      exact first.1 (by simp [is.1])

theorem braced_of_whole {body : List Char}
    (whole : [':', '-'] <:+: body → [':', '-'] <+: body) :
    braced body = .reference (String.ofList body) none := by
  cases split : splitFallback body with
  | mk name fallback =>
    cases fallback with
    | none => simp [braced, split, ((splitFallback_spec body).1 split).1]
    | some instead =>
      obtain ⟨is, first⟩ := (splitFallback_spec body).2 split
      have none : name = [] := by
        have begins := whole ⟨name, instead, by simp [is]⟩
        rw [is] at begins
        cases name with
        | nil => rfl
        | cons c name =>
          cases name with
          | nil => simp at begins
          | cons d name =>
            simp only [List.cons_append, List.cons_prefix_cons] at begins
            obtain ⟨rfl, rfl, -⟩ := begins
            exact absurd ⟨[], name, rfl⟩ first
      simp [braced, split, none]

theorem braced_of_fallback {name : List Char} (ne : name ≠ [])
    (first : ¬ [':', '-'] <:+: name) (instead : List Char) :
    braced (name ++ ':' :: '-' :: instead) =
      .reference (String.ofList name) (some (String.ofList instead)) := by
  cases name with
  | nil => exact absurd rfl ne
  | cons c name => simp only [braced, splitFallback_append first, Option.map_some]

theorem braced_cases (body : List Char) :
    ([':', '-'] <:+: body → [':', '-'] <+: body) ∨
      ∃ name instead, body = name ++ ':' :: '-' :: instead ∧ name ≠ [] ∧
        ¬ [':', '-'] <:+: name := by
  cases split : splitFallback body with
  | mk name fallback =>
    cases fallback with
    | none =>
      exact .inl fun marked => absurd marked ((splitFallback_spec body).1 split).2
    | some instead =>
      obtain ⟨is, first⟩ := (splitFallback_spec body).2 split
      by_cases none : name = []
      · exact .inl fun _ => ⟨instead, by simp [is, none]⟩
      · exact .inr ⟨name, instead, is, none, first⟩

end Template

/-- Texts that begin with a reference between braces. -/
def Opens (cs : List Char) : Prop :=
  ∃ body rest, cs = '$' :: '\x7b' :: (body ++ '\x7d' :: rest)

/-- A text with the references between braces filled in, and nothing else of it changed.
A name reaches to the first mark of a fallback, and may be empty or begin with the mark
only where there is no fallback. -/
inductive Filled (value? : String → Option String) : List Char → List Char → Prop
  | done : Filled value? [] []
  | named {name rest more : List Char} {s : String} (closed : '\x7d' ∉ name)
      (whole : [':', '-'] <:+: name → [':', '-'] <+: name)
      (set : value? (String.ofList name) = some s) (later : Filled value? rest more) :
      Filled value? ('$' :: '\x7b' :: (name ++ '\x7d' :: rest)) (s.toList ++ more)
  | fallback {name instead rest more : List Char} (closed : '\x7d' ∉ name ++ instead)
      (ne : name ≠ []) (first : ¬ [':', '-'] <:+: name) (later : Filled value? rest more) :
      Filled value? ('$' :: '\x7b' :: (name ++ ':' :: '-' :: (instead ++ '\x7d' :: rest)))
        (((value? (String.ofList name)).map String.toList).getD instead ++ more)
  | other {c : Char} {rest more : List Char} (plain : ¬ Opens (c :: rest))
      (later : Filled value? rest more) : Filled value? (c :: rest) (c :: more)

/-- Whether a text has a dollar that counts without a brace: before another dollar or the
name of a variable. In a reference between braces, up to where it is closed, none does. -/
def hasBare : Bool → List Char → Bool
  | _, [] => false
  | true, c :: rest => hasBare (c != '\x7d') rest
  | false, '$' :: '\x7b' :: rest => hasBare (rest.contains '\x7d') rest
  | false, '$' :: c :: rest => c == '$' || isWordChar c || hasBare false (c :: rest)
  | false, _ :: rest => hasBare false rest

section Filling
variable {value? : String → Option String} {cs out : List Char}

theorem not_opens_of_ne {c : Char} {rest : List Char} (ne : c ≠ '$') : ¬ Opens (c :: rest) := by
  rintro ⟨body, tail, is⟩
  exact ne (List.cons.inj is).1

theorem opens_iff {rest : List Char} : Opens ('$' :: '\x7b' :: rest) ↔ '\x7d' ∈ rest := by
  constructor
  · rintro ⟨body, tail, is⟩
    simp only [List.cons.injEq, true_and] at is
    simp [is]
  · intro mem
    obtain ⟨body, tail, rfl⟩ := List.append_of_mem mem
    exact ⟨body, tail, rfl⟩

theorem not_opens_of_second {c : Char} {rest : List Char} (ne : c ≠ '\x7b') :
    ¬ Opens ('$' :: c :: rest) := by
  rintro ⟨body, tail, is⟩
  simp only [List.cons.injEq, true_and] at is
  exact ne is.1

theorem filled_nil_iff : Filled value? [] out ↔ out = [] := by
  constructor
  · rintro ⟨⟩
    rfl
  · rintro rfl
    exact .done

theorem filled_cons_iff {c : Char} {rest : List Char} (plain : ¬ Opens (c :: rest)) :
    Filled value? (c :: rest) out ↔ ∃ more, Filled value? rest more ∧ out = c :: more := by
  constructor
  · intro filled
    generalize is : c :: rest = text at filled
    cases filled with
    | done => simp at is
    | named => exact absurd ⟨_, _, is⟩ plain
    | @fallback name instead =>
      exact absurd ⟨name ++ ':' :: '-' :: instead, _, by simpa using is⟩ plain
    | other _ later =>
      obtain ⟨rfl, rfl⟩ := List.cons.inj is
      exact ⟨_, later, rfl⟩
  · rintro ⟨more, later, rfl⟩
    exact .other plain later

theorem ne_brace_of_closed {body : List Char} (closed : '\x7d' ∉ body) :
    ∀ c ∈ body, (c != '\x7d') = true :=
  fun _ mem => bne_iff_ne.mpr fun is => closed (is ▸ mem)

theorem takeWhile_closed {body : List Char} (closed : '\x7d' ∉ body) (rest : List Char) :
    (body ++ '\x7d' :: rest).takeWhile (· != '\x7d') = body := by
  simp [List.takeWhile_append_of_pos (ne_brace_of_closed closed)]

theorem dropWhile_closed {body : List Char} (closed : '\x7d' ∉ body) (rest : List Char) :
    (body ++ '\x7d' :: rest).dropWhile (· != '\x7d') = '\x7d' :: rest := by
  simp [List.dropWhile_append_of_pos (ne_brace_of_closed closed)]

theorem closed_inj {body body' rest rest' : List Char} (closed : '\x7d' ∉ body)
    (closed' : '\x7d' ∉ body') (is : body ++ '\x7d' :: rest = body' ++ '\x7d' :: rest') :
    body = body' ∧ rest = rest' := by
  have bodies := congrArg (List.takeWhile (· != '\x7d')) is
  have rests := congrArg (List.dropWhile (· != '\x7d')) is
  rw [takeWhile_closed closed, takeWhile_closed closed'] at bodies
  rw [dropWhile_closed closed, dropWhile_closed closed'] at rests
  exact ⟨bodies, (List.cons.inj rests).2⟩

theorem closed_of_mem {rest : List Char} (mem : '\x7d' ∈ rest) :
    '\x7d' ∉ rest.takeWhile (· != '\x7d') ∧
      rest = rest.takeWhile (· != '\x7d') ++
        '\x7d' :: (rest.dropWhile (· != '\x7d')).drop 1 := by
  obtain ⟨body, tail, rfl, closed⟩ := List.eq_append_cons_of_mem mem
  simp [takeWhile_closed closed, dropWhile_closed closed, closed]

theorem filled_reference_iff {body rest : List Char} (closed : '\x7d' ∉ body) :
    Filled value? ('$' :: '\x7b' :: (body ++ '\x7d' :: rest)) out ↔
      ∃ cs more, (Template.braced body).fill value? = .ok cs ∧ Filled value? rest more ∧
        out = cs ++ more := by
  constructor
  · intro filled
    generalize is : '$' :: '\x7b' :: (body ++ '\x7d' :: rest) = text at filled
    cases filled with
    | done => simp at is
    | named closed' whole set later =>
      simp only [List.cons.injEq, true_and] at is
      obtain ⟨rfl, rfl⟩ := closed_inj closed closed' is
      refine ⟨_, _, ?_, later, rfl⟩
      simp [Template.braced_of_whole whole, Piece.fill, set]
    | @fallback name instead tail _ closed' ne first later =>
      have is' : body ++ '\x7d' :: rest = (name ++ ':' :: '-' :: instead) ++ '\x7d' :: tail := by
        simpa using is
      obtain ⟨rfl, rfl⟩ := closed_inj closed (by simpa using closed') is'
      refine ⟨_, _, ?_, later, rfl⟩
      rw [Template.braced_of_fallback ne first, Piece.fill]
      cases value? (String.ofList name) <;> simp
    | other plain => exact absurd ⟨_, _, is.symm⟩ plain
  · rintro ⟨cs, more, filled, later, rfl⟩
    rcases Template.braced_cases body with whole | ⟨name, instead, rfl, ne, first⟩
    · rw [Template.braced_of_whole whole, Piece.fill] at filled
      cases set : value? (String.ofList body) with
      | none => simp [set] at filled
      | some s =>
        simp only [set, Option.orElse_eq_orElse, Option.orElse_some, Except.ok.injEq] at filled
        subst filled
        exact .named closed whole set later
    · rw [Template.braced_of_fallback ne first, Piece.fill] at filled
      have is : cs = ((value? (String.ofList name)).map String.toList).getD instead := by
        cases set : value? (String.ofList name) <;> simp_all
      subst is
      simpa using Filled.fallback (by simpa using closed) ne first later

theorem hasBare_of_closed {body : List Char} (closed : '\x7d' ∉ body) (rest : List Char) :
    hasBare true (body ++ '\x7d' :: rest) = hasBare false rest := by
  induction body with
  | nil => simp [hasBare]
  | cons c body ih =>
    rw [List.mem_cons, not_or] at closed
    simpa [hasBare, bne_iff_ne.mpr (Ne.symm closed.1)] using ih closed.2

theorem hasBare_reference {rest : List Char} (mem : '\x7d' ∈ rest) :
    hasBare false ('$' :: '\x7b' :: rest) =
      hasBare false ((rest.dropWhile (· != '\x7d')).drop 1) := by
  obtain ⟨closed, parts⟩ := closed_of_mem mem
  rw [hasBare, List.contains_iff_mem.mpr mem, parts, hasBare_of_closed closed, ← parts]

theorem hasBare_unclosed {rest : List Char} (unclosed : '\x7d' ∉ rest) :
    hasBare false ('$' :: '\x7b' :: rest) = hasBare false rest := by
  simp [hasBare, unclosed]

theorem hasBare_cons {c : Char} {rest : List Char}
    (alone : ∀ (d : Char) (tail : List Char), c = '$' → rest = d :: tail → False) :
    hasBare false (c :: rest) = hasBare false rest := by
  rw [hasBare]
  · rintro tail rfl is
    exact alone _ _ rfl is
  · exact alone

theorem not_opens_of_alone {c : Char} {rest : List Char}
    (alone : ∀ (d : Char) (tail : List Char), c = '$' → rest = d :: tail → False) :
    ¬ Opens (c :: rest) := by
  rintro ⟨body, tail, is⟩
  exact alone _ _ (List.cons.inj is).1 (List.cons.inj is).2

theorem fill_cons_iff {piece : Piece} {t : Template} :
    Template.fill value? (piece :: t) = .ok out ↔
      ∃ cs more, piece.fill value? = .ok cs ∧ t.fill value? = .ok more ∧ out = cs ++ more := by
  rw [Template.fill]
  cases piece.fill value? with
  | error name => simp
  | ok cs =>
    cases Template.fill value? t with
    | error name => simp
    | ok more => simp [eq_comm]

theorem fill_literal_iff {c : Char} {t : Template} :
    Template.fill value? (.literal c :: t) = .ok out ↔
      ∃ more, t.fill value? = .ok more ∧ out = c :: more := by
  simp [fill_cons_iff, Piece.fill]

/-- A text with no bare references means what is written between its braces. -/
theorem fill_iff_filled (bare : hasBare false cs = false) :
    (Template.ofChars cs).fill value? = .ok out ↔ Filled value? cs out := by
  fun_induction Template.ofChars cs generalizing out with
  | case1 => simp [Template.fill, filled_nil_iff, eq_comm]
  | case2 rest ih => simp [hasBare] at bare
  | case3 rest closes ih =>
    have mem := List.contains_iff_mem.mp closes
    obtain ⟨closed, parts⟩ := closed_of_mem mem
    rw [hasBare_reference mem] at bare
    rw [parts, filled_reference_iff closed, ← parts, fill_cons_iff]
    simp only [ih bare]
  | case4 rest unclosed ih =>
    have plain : '\x7d' ∉ rest := fun mem => unclosed (List.contains_iff_mem.mpr mem)
    rw [hasBare_unclosed plain] at bare
    have brace : ¬ Opens ('\x7b' :: rest) := not_opens_of_ne (by decide)
    rw [filled_cons_iff (mt opens_iff.mp plain), fill_literal_iff]
    simp only [fill_literal_iff, filled_cons_iff brace, ih bare]
  | case5 c rest _ _ word ih => simp [hasBare, word] at bare
  | case6 c rest not_dollar not_brace _ ih =>
    rw [hasBare, Bool.or_eq_false_iff] at bare
    · rw [filled_cons_iff (not_opens_of_second not_brace), fill_literal_iff]
      simp only [ih bare.2]
    · exact not_brace
  | case7 c rest _ _ alone ih =>
    rw [hasBare_cons alone] at bare
    rw [filled_cons_iff (not_opens_of_alone alone), fill_literal_iff]
    simp only [ih bare]

theorem filled_iff_eq (unbraced : hasBraced cs = false) :
    Filled value? cs out ↔ out = cs := by
  induction cs generalizing out with
  | nil => exact filled_nil_iff
  | cons c rest ih =>
    have plain : ¬ Opens (c :: rest) := by
      rintro ⟨body, tail, is⟩
      simp [is, hasBraced] at unbraced
    have later : hasBraced rest = false := by
      unfold hasBraced at unbraced
      split at unbraced <;> simp_all
    simp [filled_cons_iff plain, ih later]

end Filling

section Everywhere
variable {s : String} {cs out : List Char}

theorem reference_fill (name : String) (fallback : Option String) :
    (Piece.reference name fallback).fill (fun _ => some s) = .ok s.toList := by
  simp [Piece.fill]

theorem braced_fill (body : List Char) :
    (Template.braced body).fill (fun _ => some s) = .ok s.toList := by
  rcases Template.braced_cases body with whole | ⟨name, instead, rfl, ne, first⟩
  · rw [Template.braced_of_whole whole, reference_fill]
  · rw [Template.braced_of_fallback ne first, reference_fill]

theorem fill_total (s : String) (t : Template) : ∃ out, t.fill (fun _ => some s) = .ok out := by
  induction t with
  | nil => exact ⟨[], rfl⟩
  | cons piece t ih =>
    obtain ⟨more, rest⟩ := ih
    cases piece with
    | literal c => exact ⟨c :: more, fill_literal_iff.mpr ⟨more, rest, rfl⟩⟩
    | reference name fallback =>
      exact ⟨s.toList ++ more, fill_cons_iff.mpr ⟨_, _, reference_fill name fallback, rest, rfl⟩⟩

theorem replicate_append_dollar (k : Nat) (cs : List Char) :
    List.replicate k '$' ++ '$' :: cs = List.replicate (k + 1) '$' ++ cs := by
  simp [List.replicate_succ']

theorem filled_dollars {value? : String → Option String} {k : Nat}
    (plain : ¬ Opens ('$' :: cs))
    (filled : Filled value? (List.replicate (k + 1) '$' ++ cs) out) :
    ∃ more, Filled value? (List.replicate k '$' ++ cs) more ∧ out = '$' :: more := by
  rw [List.replicate_succ, List.cons_append] at filled
  refine (filled_cons_iff ?_).mp filled
  cases k with
  | zero => exact plain
  | succ k => exact not_opens_of_second (by decide)

theorem head?_of_dollars {k : Nat}
    (filled : Filled (fun _ => some "x") (List.replicate (k + 1) '$' ++ cs) out) :
    out.head? = some '$' ∨ out.head? = some 'x' := by
  by_cases opens : k = 0 ∧ Opens ('$' :: cs)
  · obtain ⟨rfl, body, rest, is⟩ := opens
    obtain ⟨-, rfl⟩ := List.cons.inj is
    have mem : '\x7d' ∈ body ++ '\x7d' :: rest := by simp
    obtain ⟨closed, parts⟩ := closed_of_mem mem
    rw [parts] at filled
    obtain ⟨cs, more, first, -, rfl⟩ := (filled_reference_iff closed).mp filled
    rw [braced_fill, Except.ok.injEq] at first
    exact .inr (by simp [← first])
  · rw [List.replicate_succ, List.cons_append] at filled
    have plain : ¬ Opens ('$' :: (List.replicate k '$' ++ cs)) := by
      cases k with
      | zero => simpa using opens
      | succ k => exact not_opens_of_second (by decide)
    obtain ⟨more, -, rfl⟩ := (filled_cons_iff plain).mp filled
    exact .inl rfl

/-- Where two dollars have been read as one, the second of them is missing: dollars and
what is behind them do not stand for what is behind them as it is read. -/
theorem not_filled_of_dollars (read : (Template.ofChars cs).fill (fun _ => some "x") = .ok out)
    (k : Nat) : ¬ Filled (fun _ => some "x") (List.replicate (k + 1) '$' ++ cs) out := by
  intro filled
  -- for every number of dollars, since a pair of them read as one leaves one more behind
  fun_induction Template.ofChars cs generalizing out k with
  | case1 =>
    obtain ⟨more, -, rfl⟩ := filled_dollars (by rintro ⟨_, _, is⟩; simp at is) filled
    simp [Template.fill] at read
  | case2 rest ih =>
    obtain ⟨more, remains, rfl⟩ := fill_literal_iff.mp read
    obtain ⟨more, later, is⟩ := filled_dollars (not_opens_of_second (by decide)) filled
    obtain ⟨-, rfl⟩ := List.cons.inj is
    rw [replicate_append_dollar, replicate_append_dollar] at later
    exact ih remains (k + 1) later
  | case3 rest closes ih =>
    obtain ⟨cs, more, first, -, rfl⟩ := fill_cons_iff.mp read
    obtain ⟨more, -, is⟩ := filled_dollars (not_opens_of_second (by decide)) filled
    simp only [braced_fill, Except.ok.injEq] at first
    simp [← first] at is
  | case4 rest unclosed ih =>
    have plain : ¬ Opens ('$' :: '\x7b' :: rest) := by simpa [opens_iff] using unclosed
    simp only [fill_literal_iff] at read
    obtain ⟨_, ⟨more, -, rfl⟩, rfl⟩ := read
    obtain ⟨more, later, is⟩ := filled_dollars (not_opens_of_second (by decide)) filled
    rw [replicate_append_dollar] at later
    obtain ⟨more, -, rfl⟩ := filled_dollars plain later
    simp at is
  | case5 c rest _ _ word ih =>
    obtain ⟨cs, more, first, -, rfl⟩ := fill_cons_iff.mp read
    obtain ⟨more, -, is⟩ := filled_dollars (not_opens_of_second (by decide)) filled
    simp only [reference_fill, Except.ok.injEq] at first
    simp [← first] at is
  | case6 c rest not_dollar not_brace _ ih =>
    obtain ⟨more, remains, rfl⟩ := fill_literal_iff.mp read
    obtain ⟨more, later, is⟩ := filled_dollars (not_opens_of_second (by decide)) filled
    obtain ⟨-, rfl⟩ := List.cons.inj is
    rw [replicate_append_dollar] at later
    exact ih remains k later
  | case7 c rest _ _ alone ih =>
    obtain ⟨more, remains, rfl⟩ := fill_literal_iff.mp read
    by_cases brace : c = '\x7b'
    · subst brace
      simpa using head?_of_dollars filled
    · obtain ⟨more, later, is⟩ := filled_dollars (not_opens_of_second brace) filled
      obtain ⟨rfl, rfl⟩ := List.cons.inj is
      rw [replicate_append_dollar] at later
      exact ih remains k later

theorem not_filled_of_bare (bare : hasBare false cs = true)
    (read : (Template.ofChars cs).fill (fun _ => some "x") = .ok out) :
    ¬ Filled (fun _ => some "x") cs out := by
  intro filled
  fun_induction Template.ofChars cs generalizing out with
  | case1 => simp [hasBare] at bare
  | case2 rest ih =>
    obtain ⟨more, remains, rfl⟩ := fill_literal_iff.mp read
    obtain ⟨more, later, is⟩ :=
      (filled_cons_iff (not_opens_of_second (by decide))).mp filled
    obtain ⟨-, rfl⟩ := List.cons.inj is
    exact not_filled_of_dollars remains 0 later
  | case3 rest closes ih =>
    have mem := List.contains_iff_mem.mp closes
    obtain ⟨closed, parts⟩ := closed_of_mem mem
    rw [hasBare_reference mem] at bare
    rw [parts, filled_reference_iff closed] at filled
    obtain ⟨cs, more, first, remains, rfl⟩ := fill_cons_iff.mp read
    obtain ⟨cs', more', first', later, is⟩ := filled
    rw [first, Except.ok.injEq] at first'
    obtain rfl := List.append_cancel_left (first' ▸ is)
    exact ih bare remains later
  | case4 rest unclosed ih =>
    have plain : '\x7d' ∉ rest := fun mem => unclosed (List.contains_iff_mem.mpr mem)
    have brace : ¬ Opens ('\x7b' :: rest) := not_opens_of_ne (by decide)
    rw [hasBare_unclosed plain] at bare
    rw [filled_cons_iff (mt opens_iff.mp plain)] at filled
    simp only [fill_literal_iff] at read
    simp only [filled_cons_iff brace] at filled
    obtain ⟨_, ⟨more, remains, rfl⟩, rfl⟩ := read
    obtain ⟨_, ⟨more, later, rfl⟩, is⟩ := filled
    simp only [List.cons.injEq, true_and] at is
    exact ih bare (is ▸ remains) later
  | case5 c rest _ not_brace word ih =>
    obtain ⟨cs, more, first, -, rfl⟩ := fill_cons_iff.mp read
    obtain ⟨more, -, is⟩ := (filled_cons_iff (not_opens_of_second not_brace)).mp filled
    simp only [reference_fill, Except.ok.injEq] at first
    simp [← first] at is
  | case6 c rest not_dollar not_brace not_word ih =>
    obtain ⟨more, remains, rfl⟩ := fill_literal_iff.mp read
    obtain ⟨more, later, is⟩ := (filled_cons_iff (not_opens_of_second not_brace)).mp filled
    obtain ⟨-, rfl⟩ := List.cons.inj is
    refine ih ?_ remains later
    rw [hasBare] at bare
    · simpa [not_word, mt (beq_iff_eq).mp not_dollar] using bare
    · exact not_brace
  | case7 c rest _ _ alone ih =>
    rw [hasBare_cons alone] at bare
    obtain ⟨more, remains, rfl⟩ := fill_literal_iff.mp read
    obtain ⟨more, later, is⟩ := (filled_cons_iff (not_opens_of_alone alone)).mp filled
    obtain ⟨-, rfl⟩ := List.cons.inj is
    exact ih bare remains later

end Everywhere

end AssetBlocks.Config
