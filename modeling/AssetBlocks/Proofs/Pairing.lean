import AssetBlocks.Directive.Grammar
import Mathlib.Data.List.Induction

/-! Begin tags and the end tags that they are paired with. Pairing counts the blocks that
are opened and closed behind a begin tag; its end tag is the first at which the count is
back at zero. Between the two the count never falls below where it started. -/
namespace AssetBlocks.Pairing
open Text

variable {m n close : Match Directive} {ms inner : List (Match Directive)}

def opens (m : Match Directive) : Bool :=
  match m.value with
  | .opening tag => !tag.selfClosing
  | .closing => false

def closes (m : Match Directive) : Bool :=
  match m.value with
  | .opening _ => false
  | .closing => true

/-- The number of begin tags that need an end tag less the number of end tags. -/
def depth (ms : List (Match Directive)) : Int := (ms.countP opens : Int) - ms.countP closes

/-- A begin tag, the directives behind it, and the first end tag at which the count that
starts with the begin tag returns to zero. -/
structure Paired (m : Match Directive) (inner : List (Match Directive))
    (close : Match Directive) : Prop where
  opens : opens m = true
  closes : closes close = true
  returns : depth (m :: inner ++ [close]) = 0
  first : ∀ earlier last later, inner = earlier ++ last :: later →
    Pairing.closes last = true → depth (m :: earlier ++ [last]) ≠ 0

def Unpaired (m : Match Directive) (behind : List (Match Directive)) : Prop :=
  opens m = true ∧ ∀ inner close rest, behind = inner ++ close :: rest → ¬ Paired m inner close

theorem closes_of_value (value : m.value = .closing) : closes m = true := by simp [closes, value]

theorem value_of_closes (h : closes m = true) : m.value = .closing := by
  cases value : m.value with
  | opening tag => simp [closes, value] at h
  | closing => rfl

theorem not_opens_of_closes (h : closes m = true) : opens m = false := by
  simp [opens, value_of_closes h]

theorem not_closes_of_opens (h : opens m = true) : closes m = false := by
  cases value : m.value with
  | opening tag => simp [closes, value]
  | closing => simp [opens, value] at h

theorem selfClosing_of_opens {tag : BeginTag} (h : opens m = true) (value : m.value = .opening tag) :
    tag.selfClosing = false := by
  simpa [opens, value] using h

theorem depth_nil : depth [] = 0 := rfl

theorem depth_append (ms more : List (Match Directive)) :
    depth (ms ++ more) = depth ms + depth more := by
  simp only [depth, List.countP_append, Int.natCast_add]
  omega

theorem depth_of_opens (h : opens m = true) : depth (m :: ms) = depth ms + 1 := by
  simp only [depth, List.countP_cons, h, not_closes_of_opens h, if_true, Bool.false_eq_true,
    if_false]
  omega

theorem depth_of_closes (h : closes m = true) : depth (m :: ms) = depth ms - 1 := by
  simp only [depth, List.countP_cons, h, not_opens_of_closes h, if_true, Bool.false_eq_true,
    if_false]
  omega

theorem depth_of_neither (h : opens m = false) (h' : closes m = false) :
    depth (m :: ms) = depth ms := by
  simp [depth, h, h']

/-- Directives behind which as many blocks are open as before them, and at no place
between fewer. -/
structure Level (ms : List (Match Directive)) : Prop where
  total : depth ms = 0
  above : ∀ before behind, ms = before ++ behind → 0 ≤ depth before

namespace Level

theorem nil : Level [] := by
  refine ⟨depth_nil, fun before behind split => ?_⟩
  simp [(List.append_eq_nil_iff.mp split.symm).1, depth_nil]

theorem append {more : List (Match Directive)} (first : Level ms) (second : Level more) :
    Level (ms ++ more) := by
  refine ⟨by rw [depth_append, first.total, second.total]; rfl, ?_⟩
  intro before behind split
  rcases List.append_eq_append_iff.mp split with ⟨d, rfl, rest⟩ | ⟨d, rest, _⟩
  · rw [depth_append, first.total]
    have := second.above d behind rest
    omega
  · exact first.above before d rest

theorem of_append {more : List (Match Directive)} (whole : Level (ms ++ more))
    (first : Level ms) : Level more := by
  have total := whole.total
  rw [depth_append, first.total] at total
  refine ⟨by omega, fun before behind split => ?_⟩
  have start := whole.above (ms ++ before) behind (by rw [split, List.append_assoc])
  rw [depth_append, first.total] at start
  omega

theorem not_closes (level : Level (m :: ms)) : closes m = false := by
  by_contra c
  have start := level.above [m] ms rfl
  rw [depth_of_closes (by simpa using c), depth_nil] at start
  omega

theorem single (h : opens m = false) (h' : closes m = false) : Level [m] := by
  refine ⟨by rw [depth_of_neither h h', depth_nil], ?_⟩
  intro before behind split
  rcases List.append_eq_singleton_iff.mp split.symm with ⟨rfl, _⟩ | ⟨rfl, _⟩
  · simp [depth_nil]
  · simp [depth_of_neither h h', depth_nil]

theorem block (inside : Level inner) (h : opens m = true) (h' : closes close = true) :
    Level (m :: (inner ++ [close])) := by
  have last : depth [close] = -1 := by rw [depth_of_closes h', depth_nil]; rfl
  refine ⟨by rw [depth_of_opens h, depth_append, inside.total, last]; rfl, ?_⟩
  rintro (_ | ⟨x, before⟩) behind split
  · simp [depth_nil]
  · rw [List.cons_append, List.cons.injEq] at split
    obtain ⟨rfl, split⟩ := split
    rw [depth_of_opens h]
    rcases List.append_eq_append_iff.mp split with ⟨d, rfl, rest⟩ | ⟨d, rest, _⟩
    · rcases List.append_eq_singleton_iff.mp rest.symm with ⟨rfl, _⟩ | ⟨rfl, _⟩
      · rw [List.append_nil, inside.total]
        decide
      · rw [depth_append, inside.total, last]
        decide
    · have := inside.above before d rest
      omega

/-- The first end tag behind such directives that none of them is paired with. -/
theorem end_unique {inner' rest rest' : List (Match Directive)} {close' : Match Directive}
    (h : Level inner) (h' : Level inner') (c : closes close = true) (c' : closes close' = true)
    (same : inner ++ close :: rest = inner' ++ close' :: rest') :
    inner = inner' ∧ close = close' ∧ rest = rest' := by
  -- Were one the longer, the end tag behind the other would lie in it and lead below zero.
  have absurd {a d : List (Match Directive)} {x : Match Directive} (ha : Level a)
      (hb : Level (a ++ x :: d)) (hx : closes x = true) : False := by
    have below := hb.above (a ++ [x]) d (by simp)
    rw [depth_append, ha.total, depth_of_closes hx, depth_nil] at below
    omega
  rcases List.append_eq_append_iff.mp same with ⟨_ | ⟨x, d⟩, rfl, tail⟩ | ⟨_ | ⟨x, d⟩, rfl, tail⟩
  · simpa using tail
  · obtain ⟨rfl, _⟩ := List.cons.inj tail
    exact (absurd h h' c).elim
  · simpa [eq_comm] using tail
  · obtain ⟨rfl, _⟩ := List.cons.inj tail
    exact (absurd h' h c').elim

/-- The last begin tag before such directives that is not paired in them. -/
theorem begin_unique {outer outer' inner' : List (Match Directive)}
    (h : Level inner) (h' : Level inner') (o : opens m = true) (o' : opens n = true)
    (same : outer ++ m :: inner = outer' ++ n :: inner') :
    outer = outer' ∧ m = n ∧ inner = inner' := by
  have absurd {b d : List (Match Directive)} {x : Match Directive} (ha : Level (d ++ x :: b))
      (hb : Level b) (hx : opens x = true) : False := by
    have total := ha.total
    have := ha.above d (x :: b) rfl
    rw [depth_append, depth_of_opens hx, hb.total] at total
    omega
  rcases List.append_eq_append_iff.mp same with ⟨_ | ⟨x, d⟩, rfl, tail⟩ | ⟨_ | ⟨x, d⟩, rfl, tail⟩
  · simpa using tail
  · obtain ⟨rfl, rfl⟩ := List.cons.inj tail
    exact (absurd h h' o').elim
  · simpa [eq_comm] using tail
  · obtain ⟨rfl, rfl⟩ := List.cons.inj tail
    exact (absurd h' h o).elim

end Level

theorem depth_le_append_single (c : closes m = false) : depth ms ≤ depth (ms ++ [m]) := by
  rw [depth_append]
  by_cases o : opens m = true
  · rw [depth_of_opens o, depth_nil]
    omega
  · rw [depth_of_neither (by simpa using o) c, depth_nil]
    omega

theorem depth_append_close (c : closes m = true) : depth (ms ++ [m]) = depth ms - 1 := by
  rw [depth_append, depth_of_closes c, depth_nil]
  omega

/-- A begin tag and an end tag are paired where what is between them is level. -/
theorem paired_iff :
    Paired m inner close ↔ opens m = true ∧ closes close = true ∧ Level inner := by
  constructor
  · intro h
    have total : depth inner = 0 := by
      have returns := h.returns
      rw [List.cons_append, depth_of_opens h.opens, depth_append_close h.closes] at returns
      omega
    refine ⟨h.opens, h.closes, total, ?_⟩
    intro before
    induction before using List.reverseRecOn with
    | nil => exact fun _ _ => Int.le_refl 0
    | append_singleton before last ih =>
      intro behind split
      rw [List.append_assoc, List.singleton_append] at split
      have start := ih (last :: behind) split
      by_cases c : closes last = true
      · have stays := h.first before last behind split c
        rw [List.cons_append, depth_of_opens h.opens, depth_append_close c] at stays
        rw [depth_append_close c]
        omega
      · exact Int.le_trans start (depth_le_append_single (by simpa using c))
  · rintro ⟨o, c, level⟩
    refine ⟨o, c, (level.block o c).total, ?_⟩
    intro earlier last later split _
    have := level.above (earlier ++ [last]) later (by simpa using split)
    rw [List.cons_append, depth_of_opens o]
    omega

/-- Either the count never falls below its start, or there is a first end tag where it does. -/
theorem above_or_return (ms : List (Match Directive)) :
    (∀ before behind, ms = before ++ behind → 0 ≤ depth before) ∨
      ∃ inner close rest, ms = inner ++ close :: rest ∧ closes close = true ∧ Level inner := by
  induction ms using List.reverseRecOn with
  | nil => exact Or.inl Level.nil.above
  | append_singleton ms last ih =>
    rcases ih with above | ⟨inner, close, rest, rfl, c, level⟩
    · have start := above ms [] (by simp)
      by_cases falls : closes last = true ∧ depth ms = 0
      · exact Or.inr ⟨ms, last, [], rfl, falls.1, falls.2, above⟩
      · left
        intro before behind split
        rcases List.append_eq_append_iff.mp split with ⟨d, rfl, rest⟩ | ⟨d, rest, _⟩
        · rcases List.append_eq_singleton_iff.mp rest.symm with ⟨rfl, _⟩ | ⟨rfl, _⟩
          · rwa [List.append_nil]
          · by_cases c : closes last = true
            · rw [depth_append_close c]
              have : depth ms ≠ 0 := fun zero => falls ⟨c, zero⟩
              omega
            · exact Int.le_trans start (depth_le_append_single (by simpa using c))
        · exact above before d rest
    · exact Or.inr ⟨inner, close, rest ++ [last], by simp, c, level⟩

theorem exists_paired (o : opens m = true) (below : depth ms < 0) :
    ∃ inner close rest, ms = inner ++ close :: rest ∧ Paired m inner close := by
  rcases above_or_return ms with above | ⟨inner, close, rest, split, c, level⟩
  · have := above ms [] (by simp)
    omega
  · exact ⟨inner, close, rest, split, paired_iff.mpr ⟨o, c, level⟩⟩

theorem Level.unpaired (level : Level ms) (o : opens m = true) : Unpaired m ms := by
  refine ⟨o, ?_⟩
  rintro inner close rest rfl paired
  obtain ⟨_, c, inside⟩ := paired_iff.mp paired
  have below := level.above (inner ++ [close]) rest (by simp)
  rw [depth_append_close c, inside.total] at below
  omega

theorem Level.not_unpaired {behind : List (Match Directive)} (level : Level (ms ++ n :: behind)) :
    ¬ Unpaired n behind := by
  rintro ⟨o, alone⟩
  have total := level.total
  have start := level.above ms (n :: behind) rfl
  rw [depth_append, depth_of_opens o] at total
  obtain ⟨inner, close, rest, split, paired⟩ := exists_paired o (show depth behind < 0 by omega)
  exact alone inner close rest split paired

/-- Directives behind which no block is open that they opened. -/
def Closed (ms : List (Match Directive)) : Prop :=
  ∀ before behind, ms = before ++ behind → depth behind ≤ 0

namespace Closed

theorem of_level (level : Level ms) : Closed ms := by
  rintro before behind split
  have total := level.total
  have start := level.above before behind split
  rw [split, depth_append] at total
  omega

theorem of_closes (c : closes m = true) : Closed [m] := by
  intro before behind split
  rcases List.append_eq_singleton_iff.mp split.symm with ⟨_, rfl⟩ | ⟨_, rfl⟩
  · rw [depth_of_closes c, depth_nil]
    decide
  · simp [depth_nil]

theorem append {more : List (Match Directive)} (first : Closed ms) (second : Closed more) :
    Closed (ms ++ more) := by
  intro before behind split
  rcases List.append_eq_append_iff.mp split with ⟨d, _, rest⟩ | ⟨d, rest, rfl⟩
  · exact second d behind rest
  · have := first before d rest
    have := second [] more rfl
    rw [depth_append]
    omega

theorem not_unpaired {behind : List (Match Directive)} (closed : Closed (ms ++ n :: behind)) :
    ¬ Unpaired n behind := by
  rintro ⟨o, alone⟩
  have rest := closed ms (n :: behind) rfl
  rw [depth_of_opens o] at rest
  obtain ⟨inner, close, later, split, paired⟩ := exists_paired o (show depth behind < 0 by omega)
  exact alone inner close later split paired

theorem not_level (closed : Closed (ms ++ n :: inner)) (o : opens n = true) : ¬ Level inner := by
  intro level
  have rest := closed ms (n :: inner) rfl
  rw [depth_of_opens o, level.total] at rest
  omega

end Closed
end AssetBlocks.Pairing
