import AssetBlocks.Proofs.Words

/-! The runs of a text: its longest parts without spaces and tabs. Each run comes with all that
follows it, so that the rest of a text from one of its runs on is at hand. -/
namespace AssetBlocks
namespace Text
variable {test : Char → Bool} {cs : List Char}

theorem dropWhile_of_head (first : ∀ c ∈ cs.head?, test c = false) : cs.dropWhile test = cs := by
  cases cs with
  | nil => rfl
  | cons c cs => exact List.dropWhile_cons_of_neg (by simp [first c rfl])

theorem dropWhile_head (test : Char → Bool) (cs : List Char) :
    ∀ c ∈ (cs.dropWhile test).head?, test c = false := by
  intro c first
  have stopped := List.head?_dropWhile_not test cs
  rw [Option.mem_def.mp first] at stopped
  simpa using stopped

theorem trim_head (test : Char → Bool) (cs : List Char) :
    ∀ c ∈ (trim test cs).head?, test c = false := by
  intro c first
  obtain ⟨tail, same⟩ := trimEnd_prefix test (cs.dropWhile test)
  apply dropWhile_head test cs
  rw [← same, List.head?_append, ← trim, Option.mem_def.mp first]
  rfl

theorem trim_getLast (test : Char → Bool) (cs : List Char) :
    ∀ c ∈ (trim test cs).getLast?, test c = false := by
  rw [trim, trimEnd, List.getLast?_reverse]
  exact dropWhile_head test _

theorem trim_eq_self (first : ∀ c ∈ cs.head?, test c = false)
    (last : ∀ c ∈ cs.getLast?, test c = false) : trim test cs = cs := by
  have back : cs.reverse.dropWhile test = cs.reverse :=
    dropWhile_of_head (by rwa [List.head?_reverse])
  rw [trim, dropWhile_of_head first, trimEnd, back, List.reverse_reverse]

theorem trim_eq_nil_iff : trim test cs = [] ↔ ∀ c ∈ cs, test c = true := by
  rw [trim, trimEnd, List.reverse_eq_nil_iff, List.dropWhile_eq_nil_iff]
  constructor
  · intro behind c inside
    rw [← List.takeWhile_append_dropWhile (p := test) (l := cs)] at inside
    rcases List.mem_append.mp inside with front | back
    · exact List.mem_takeWhile_imp front
    · exact behind c (List.mem_reverse.mpr back)
  · intro all c inside
    exact all c ((List.dropWhile_suffix test).subset (List.mem_reverse.mp inside))

end Text

namespace Arguments
open Text
variable {c : Char} {cs : List Char}

/-- From each run of a text on, all of the text. The flag tells that a run may begin, which it
may not right behind a character of one. -/
def startsFrom : Bool → List Char → List (List Char)
  | _, [] => []
  | fresh, c :: cs =>
    if isGap c then startsFrom true cs
    else if fresh then (c :: cs) :: startsFrom false cs
    else startsFrom false cs

def starts (cs : List Char) : List (List Char) := startsFrom true cs

def firstRun (cs : List Char) : List Char := cs.takeWhile (!isGap ·)

theorem startsFrom_dropWhile (cs : List Char) :
    startsFrom false cs = starts (cs.dropWhile (!isGap ·)) := by
  induction cs with
  | nil => rfl
  | cons c cs ih => cases gap : isGap c <;> simp [startsFrom, starts, gap, ih]

theorem starts_dropWhile (cs : List Char) : starts cs = starts (cs.dropWhile isGap) := by
  induction cs with
  | nil => rfl
  | cons c cs ih =>
    cases gap : isGap c with
    | false => simp [gap]
    | true => rw [starts, startsFrom, if_pos gap, List.dropWhile_cons_of_pos gap, ← ih, starts]

/-- No gap is at the ends of the text. -/
structure Tight (cs : List Char) : Prop where
  first : ∀ c ∈ cs.head?, isGap c = false
  last : ∀ c ∈ cs.getLast?, isGap c = false

theorem tight_trim (cs : List Char) : Tight (trim isBlank cs) := by
  have solid {c : Char} (blank : isBlank c = false) : isGap c = false := by
    rw [← Bool.not_eq_true] at blank ⊢
    exact mt isBlank_of_isGap blank
  exact ⟨fun c first => solid (trim_head isBlank cs c first),
    fun c last => solid (trim_getLast isBlank cs c last)⟩

theorem Tight.starts_cons (tight : Tight (c :: cs)) :
    starts (c :: cs) = (c :: cs) :: starts (splitFirst (c :: cs)).2 := by
  have solid : isGap c = false := tight.first c rfl
  have more : starts (splitFirst (c :: cs)).2 = startsFrom false cs := by
    rw [startsFrom_dropWhile, splitFirst, ← starts_dropWhile, List.dropWhile_cons_of_pos]
    simpa using solid
  rw [more, starts, startsFrom, solid]
  rfl

theorem Tight.rest (tight : Tight cs) : Tight (splitFirst cs).2 := by
  refine ⟨dropWhile_head isGap _, fun c last => tight.last c ?_⟩
  obtain ⟨front, same⟩ := (List.dropWhile_suffix (l := cs.dropWhile (!isGap ·)) isGap).trans
    (List.dropWhile_suffix (l := cs) (!isGap ·))
  simp only [splitFirst] at last
  rw [← same, List.getLast?_append, Option.mem_def.mp last]
  rfl

theorem Tight.next_eq (tight : Tight cs) : next cs = splitFirst cs := by
  rw [next, trim_eq_self tight.first tight.last]
  cases cs with
  | nil => simp [tokens, splitFirst]
  | cons c cs =>
    have solid : isGap c = false := tight.first c rfl
    rw [tokens, if_neg (by decide), dif_neg (by simp [solid])]
    generalize splitFirst (c :: cs) = parts
    obtain ⟨first, rest⟩ := parts
    cases rest with
    | nil => simp [tokens]
    | cons d rest => simp [tokens]

end Arguments
end AssetBlocks
