/-! Patterns over a text, sought from left to right. A pattern says what it finds at
one place and what is left behind it; since it never finds the empty text, the search
for all that it finds comes to an end, and puts the text into pieces. -/
namespace AssetBlocks.Text

/-- The flag tells whether the place is the start of a line. -/
structure Pattern (α : Type) where
  at? : Bool → List Char → Option (α × List Char)
  consumes : ∀ {lineStart cs a rest}, at? lineStart cs = some (a, rest) →
    ∃ used, used ≠ [] ∧ cs = used ++ rest

/-- Something found: the text passed over since the last one, and its own text. -/
structure Match (α : Type) where
  before : List Char
  text : List Char
  value : α
deriving DecidableEq

namespace Pattern
variable {α : Type}

/-- The first place where the pattern is found, and what is left behind that. -/
def next? (p : Pattern α) : Bool → List Char → Option (Match α × List Char)
  | _, [] => none
  | lineStart, c :: cs =>
    match p.at? lineStart (c :: cs) with
    | some (a, rest) => some (⟨[], (c :: cs).take ((c :: cs).length - rest.length), a⟩, rest)
    | none =>
      match next? p (c == '\n') cs with
      | some (m, rest) => some ({ m with before := c :: m.before }, rest)
      | none => none

theorem at?_split {p : Pattern α} {lineStart : Bool} {cs rest : List Char} {a : α}
    (found : p.at? lineStart cs = some (a, rest)) :
    cs.take (cs.length - rest.length) ≠ [] ∧ cs = cs.take (cs.length - rest.length) ++ rest := by
  obtain ⟨used, ne, rfl⟩ := p.consumes found
  simp [ne]

theorem next?_split {p : Pattern α} {lineStart : Bool} {cs rest : List Char} {m : Match α}
    (found : p.next? lineStart cs = some (m, rest)) :
    m.text ≠ [] ∧ cs = m.before ++ m.text ++ rest := by
  induction cs generalizing lineStart m with
  | nil => simp [next?] at found
  | cons c cs ih =>
    rw [next?] at found
    split at found
    · next here =>
      simp only [Option.some.injEq, Prod.mk.injEq] at found
      obtain ⟨rfl, rfl⟩ := found
      simpa using at?_split here
    · split at found
      · next later =>
        simp only [Option.some.injEq, Prod.mk.injEq] at found
        obtain ⟨rfl, rfl⟩ := found
        obtain ⟨ne, split⟩ := ih later
        exact ⟨ne, by simpa using split⟩
      · simp at found

theorem next?_length {p : Pattern α} {lineStart : Bool} {cs rest : List Char} {m : Match α}
    (found : p.next? lineStart cs = some (m, rest)) : rest.length < cs.length := by
  obtain ⟨ne, split⟩ := next?_split found
  have := List.length_pos_iff.mpr ne
  rw [split]
  simp only [List.length_append]
  omega

/-- All that the pattern finds, one behind the other, and the text left at the end.
The place behind a found text counts as inside its line. -/
def all (p : Pattern α) (lineStart : Bool) (cs : List Char) : List (Match α) × List Char :=
  match _found : p.next? lineStart cs with
  | none => ([], cs)
  | some (m, rest) =>
    let (more, tail) := all p false rest
    (m :: more, tail)
termination_by cs.length
decreasing_by exact next?_length _found

/-- The pieces are the text: nothing is lost between them. -/
theorem all_join (p : Pattern α) (lineStart : Bool) (cs : List Char) :
    (p.all lineStart cs).1.flatMap (fun m => m.before ++ m.text) ++
      (p.all lineStart cs).2 = cs := by
  fun_induction all p lineStart cs with
  | case1 => simp
  | case2 lineStart cs m rest found more tail pieces ih =>
    simp only [pieces] at ih
    rw [List.flatMap_cons, List.append_assoc, ih]
    exact (next?_split found).2.symm

def contains (p : Pattern α) (cs : List Char) : Bool := (p.next? true cs).isSome

end Pattern

def after? : List Char → List Char → Option (List Char)
  | [], cs => some cs
  | _ :: _, [] => none
  | w :: ws, c :: cs => if w = c then after? ws cs else none

theorem after?_eq_some {word cs rest : List Char} :
    after? word cs = some rest ↔ cs = word ++ rest := by
  induction word generalizing cs with
  | nil => simp [after?]
  | cons w ws ih =>
    cases cs with
    | nil => simp [after?]
    | cons c cs =>
      by_cases same : w = c
      · subst same
        simpa [after?] using ih
      · simp [after?, same, Ne.symm same]

end AssetBlocks.Text
