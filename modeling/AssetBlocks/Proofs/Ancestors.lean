import AssetBlocks.Surroundings

/-! The paths above a path. Each is shorter than the one below it, so the list of them is
never cut off; a path with none above it is empty or leads to the root. -/
namespace AssetBlocks

namespace Path
variable {p q : Path} {cs : List Char}

/-- The path that is so many steps above, from parent to parent. -/
def up : Nat → Path → Option Path
  | 0, p => some p
  | n + 1, p => p.parent?.bind (up n)

theorem splitLead_append (cs : List Char) : (splitLead cs).1 ++ (splitLead cs).2 = cs := by
  fun_cases splitLead cs <;> rfl

theorem dropEmptyParts_ne_slash {rest : List Char} : dropEmptyParts cs ≠ '/' :: rest := by
  fun_induction dropEmptyParts cs with
  | case1 rest' ih => exact ih
  | case2 rest' ih => exact ih
  | case3 => simp
  | case4 cs slash => exact slash _

theorem parts_ne_nil (cs : List Char) : parts cs ≠ [] := by
  fun_cases parts cs <;> simp

theorem parts_append_slash (cs rest : List Char) :
    parts (cs ++ '/' :: rest) = parts cs ++ parts rest := by
  induction cs with
  | nil => simp [parts]
  | cons c cs ih =>
    rw [List.cons_append, parts, parts, ih]
    by_cases slash : c = '/'
    · simp [slash]
    · cases found : parts cs with
      | nil => exact absurd found (parts_ne_nil cs)
      | cons first more => simp [slash]

/-- Parts that lead nowhere. -/
def Idle (part : List Char) : Prop := part = [] ∨ part = ['.']

theorem idle_of_dropEmptyParts (nothing : dropEmptyParts cs = []) :
    ∀ part ∈ parts cs.reverse, Idle part := by
  fun_induction dropEmptyParts cs with
  | case1 rest ih =>
    rw [List.reverse_cons, parts_append_slash]
    simpa [or_imp, forall_and, parts, Idle] using ih nothing
  | case2 rest ih =>
    rw [List.reverse_cons, List.reverse_cons, List.append_assoc]
    simp only [List.singleton_append, parts_append_slash]
    simpa [or_imp, forall_and, parts, Idle] using ih nothing
  | case3 => simp [parts, Idle]
  | case4 => simp [nothing, parts, Idle]

theorem eq_nil_of_idle (unled : (splitLead cs).1 = []) (idle : ∀ part ∈ parts cs, Idle part) :
    cs = [] := by
  cases cs with
  | nil => rfl
  | cons c rest =>
    have slash : c ≠ '/' := by
      rintro rfl
      simp [splitLead] at unled
    rw [parts, if_neg slash] at idle
    cases found : parts rest with
    | nil => exact absurd found (parts_ne_nil rest)
    | cons first more =>
      rw [found] at idle
      obtain ⟨rfl, rfl⟩ : c = '.' ∧ first = [] := by simpa [Idle] using idle (c :: first)
      cases rest with
      | nil => simp [splitLead] at unled
      | cons d rest =>
        by_cases next : d = '/'
        · subst next
          simp [splitLead] at unled
        · rw [parts, if_neg next] at found
          cases above : parts rest <;> simp [above] at found

theorem splitLead_cases (cs : List Char) :
    (∃ rest, cs = '/' :: rest ∧ splitLead cs = (['/'], rest)) ∨ (splitLead cs).1 = ['.'] ∨
      splitLead cs = ([], cs) := by
  fun_cases splitLead cs <;> simp

end Path

namespace FileTree

end FileTree
end AssetBlocks
