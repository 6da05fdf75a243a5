import AssetBlocks.Proofs.Ancestors

/-! The last name of a path. What stands behind the name counts for nothing, and what stands
before it is made of the same components as the parent, so a parent and a name that are
joined again lead to the path that they were taken from. -/
namespace AssetBlocks.Path

/-- A part that leads somewhere. -/
structure Counts (part : List Char) : Prop where
  solid : '/' ∉ part
  nonempty : part ≠ []
  undotted : part ≠ ['.']

/-- A name that counts, and does not lead up. -/
structure Ordinary (name : String) : Prop extends Counts name.toList where
  level : name.toList ≠ ['.', '.']

/-- Slashes and lone dots behind a name. -/
inductive Trailing : List Char → Prop
  | nil : Trailing []
  | slash {cs : List Char} (more : Trailing cs) : Trailing ('/' :: cs)
  | dot {cs : List Char} (more : Trailing cs) : Trailing ('/' :: '.' :: cs)

/-- What a path has before its last name, and what it has behind it. -/
structure Named (path : Path) (front : List Char) (name : String) (back : List Char) : Prop where
  whole : path.text.toList = front ++ (name.toList ++ back)
  ordinary : Ordinary name
  slashed : front = [] ∨ front.getLast? = some '/'
  trailing : Trailing back

def counted (cs : List Char) : List Component := (parts cs).filterMap bodyComponent

variable {path : Path} {cs front back : List Char} {name : String}

theorem components_eq (path : Path) : path.components =
    leadComponent (splitLead path.text.toList).1 ++ counted (splitLead path.text.toList).2 := rfl

theorem counted_append_slash (cs rest : List Char) :
    counted (cs ++ '/' :: rest) = counted cs ++ counted rest := by
  rw [counted, parts_append_slash, List.filterMap_append]
  rfl

theorem counted_of_idle (idle : ∀ part ∈ parts cs, Idle part) : counted cs = [] :=
  List.filterMap_eq_nil_iff.mpr fun part inside => if_pos (idle part inside)

theorem counted_append_of_slashed (slashed : cs = [] ∨ cs.getLast? = some '/')
    (rest : List Char) : counted (cs ++ rest) = counted cs ++ counted rest := by
  rcases slashed with rfl | slashed
  · rfl
  · obtain ⟨front, rfl⟩ := List.getLast?_eq_some_iff.mp slashed
    have nothing : counted [] = [] := rfl
    rw [List.append_assoc, counted_append_slash, nothing, List.append_nil]
    exact counted_append_slash front rest

theorem parts_solid (solid : '/' ∉ cs) : parts cs = [cs] := by
  induction cs with
  | nil => rfl
  | cons c cs ih =>
    obtain ⟨other, rest⟩ : '/' ≠ c ∧ '/' ∉ cs := by simpa using solid
    rw [parts, if_neg (Ne.symm other), ih rest]

namespace Trailing

theorem parts (trailing : Trailing cs) :
    ∃ more, Path.parts cs = [] :: more ∧ ∀ part ∈ more, Idle part := by
  induction trailing with
  | nil => exact ⟨[], rfl, by simp⟩
  | slash _ ih =>
    obtain ⟨more, same, idle⟩ := ih
    exact ⟨[] :: more, by rw [Path.parts, if_pos rfl, same], by simpa [Idle] using idle⟩
  | dot _ ih =>
    obtain ⟨more, same, idle⟩ := ih
    exact ⟨['.'] :: more, by simp [Path.parts, same], by simpa [Idle] using idle⟩

theorem head (trailing : Trailing cs) : cs = [] ∨ cs.head? = some '/' := by
  cases trailing <;> simp

theorem counted_append (trailing : Trailing back) (cs : List Char) :
    counted (cs ++ back) = counted cs := by
  cases trailing with
  | nil => rw [List.append_nil]
  | @slash rest more =>
    obtain ⟨_, same, idle⟩ := more.parts
    have nothing : counted rest = [] := counted_of_idle (by simpa [same, Idle] using idle)
    rw [counted_append_slash, nothing, List.append_nil]
  | @dot rest more =>
    obtain ⟨_, same, idle⟩ := more.parts
    have nothing : counted ('.' :: rest) = [] :=
      counted_of_idle (by simpa [Path.parts, same, Idle] using idle)
    rw [counted_append_slash, nothing, List.append_nil]

theorem append (trailing : Trailing cs) (more : Trailing back) : Trailing (cs ++ back) := by
  induction trailing with
  | nil => exact more
  | slash _ ih => exact .slash ih
  | dot _ ih => exact .dot ih

theorem dropEmptyParts_append (trailing : Trailing back) (rest : List Char) :
    dropEmptyParts (back.reverse ++ rest) = dropEmptyParts rest := by
  induction trailing generalizing rest with
  | nil => rfl
  | slash _ ih =>
    rw [List.reverse_cons, List.append_assoc, ih]
    rfl
  | dot _ ih =>
    rw [List.reverse_cons, List.reverse_cons, List.append_assoc, List.append_assoc, ih]
    rfl

end Trailing

theorem dropEmptyParts_trailing (cs : List Char) : dropEmptyParts cs = [] ∨
    ∃ back, Trailing back ∧ cs = back.reverse ++ dropEmptyParts cs := by
  fun_induction dropEmptyParts cs with
  | case1 rest ih =>
    refine ih.imp_right ?_
    rintro ⟨back, trailing, same⟩
    refine ⟨back ++ ['/'], trailing.append (.slash .nil), ?_⟩
    rw [List.reverse_append, List.append_assoc, ← same]
    rfl
  | case2 rest ih =>
    refine ih.imp_right ?_
    rintro ⟨back, trailing, same⟩
    refine ⟨back ++ ['/', '.'], trailing.append (.dot .nil), ?_⟩
    rw [List.reverse_append, List.append_assoc, ← same]
    rfl
  | case3 => exact Or.inl rfl
  | case4 cs => exact Or.inr ⟨[], .nil, rfl⟩

theorem splitLead_unled (unled : (splitLead cs).1 = []) : splitLead cs = ([], cs) := by
  have whole := splitLead_append cs
  rw [unled, List.nil_append] at whole
  exact Prod.ext unled whole

theorem splitLead_append_of_unled (unled : (splitLead front).1 = []) (nonempty : front ≠ [])
    (rest : List Char) : splitLead (front ++ rest) = ([], front ++ rest) := by
  refine splitLead_unled ?_
  match front with
  | [] => exact absurd rfl nonempty
  | [c] =>
    have slash : c ≠ '/' := by
      rintro rfl
      cases unled
    have dot : c ≠ '.' := by
      rintro rfl
      cases unled
    simp [splitLead, slash, dot]
  | c :: d :: more =>
    have slash : c ≠ '/' := by
      rintro rfl
      cases unled
    by_cases dot : c = '.'
    · subst dot
      have next : d ≠ '/' := by
        rintro rfl
        cases unled
      simp [splitLead, next]
    · simp [splitLead, slash, dot]

theorem splitLead_dotted (dotted : (splitLead cs).1 = ['.']) :
    cs = ['.'] ∨ ∃ rest, cs = '.' :: '/' :: rest := by
  revert dotted
  fun_cases splitLead cs <;> simp

/-- The lead of a path is that of any part of it, if a slash is where the part ends. -/
theorem splitLead_part (nonempty : front ≠ []) {rest : List Char}
    (slash : front.getLast? = some '/' ∨ rest.head? = some '/') :
    splitLead (front ++ rest) = ((splitLead front).1, (splitLead front).2 ++ rest) := by
  rcases splitLead_cases front with ⟨more, rfl, _⟩ | dotted | split
  · rfl
  · rcases splitLead_dotted dotted with rfl | ⟨more, rfl⟩
    · cases rest with
      | nil => rfl
      | cons c rest =>
        obtain rfl : c = '/' := by simpa using slash
        rfl
    · rfl
  · rw [splitLead_append_of_unled (congrArg Prod.fst split) nonempty, split]

theorem body_slashed (slashed : cs = [] ∨ cs.getLast? = some '/') :
    (splitLead cs).2 = [] ∨ (splitLead cs).2.getLast? = some '/' := by
  rcases slashed with rfl | slashed
  · exact Or.inl rfl
  · rw [← splitLead_append cs, List.getLast?_append] at slashed
    cases last : (splitLead cs).2.getLast? with
    | none => exact Or.inl (List.getLast?_eq_none_iff.mp last)
    | some c =>
      rw [last] at slashed
      exact Or.inr slashed

theorem lead_cases (cs : List Char) :
    (splitLead cs).1 = ['/'] ∨ (splitLead cs).1 = ['.'] ∨ (splitLead cs).1 = [] := by
  fun_cases splitLead cs <;> simp

namespace Counts

theorem counted (counts : Counts cs) :
    counted cs = [if cs = ['.', '.'] then .up else .name (String.ofList cs)] := by
  obtain ⟨solid, nonempty, undotted⟩ := counts
  rw [Path.counted, parts_solid solid]
  split <;> simp_all [bodyComponent]

theorem reverse (counts : Counts cs) : Counts cs.reverse where
  solid := by simpa using counts.solid
  nonempty := by simpa using counts.nonempty
  undotted dot := counts.undotted (List.reverse_eq_iff.mp dot)

theorem unled (counts : Counts cs) : (splitLead cs).1 = [] := by
  rcases splitLead_cases cs with ⟨rest, rfl, _⟩ | dotted | split
  · exact absurd List.mem_cons_self counts.solid
  · rcases splitLead_dotted dotted with rfl | ⟨rest, rfl⟩
    · exact absurd rfl counts.undotted
    · exact absurd (by simp) counts.solid
  · exact congrArg Prod.fst split

theorem dropEmptyParts (counts : Counts cs) (rest : List Char) :
    Path.dropEmptyParts (cs ++ rest) = cs ++ rest := by
  obtain ⟨solid, nonempty, undotted⟩ := counts
  match cs with
  | [] => exact absurd rfl nonempty
  | [c] =>
    obtain ⟨slash, dot⟩ : '/' ≠ c ∧ c ≠ '.' := by simpa using And.intro solid undotted
    simp [Path.dropEmptyParts, Ne.symm slash, dot]
  | c :: d :: more =>
    obtain ⟨slash, next, _⟩ : '/' ≠ c ∧ '/' ≠ d ∧ '/' ∉ more := by simpa using solid
    simp [Path.dropEmptyParts, Ne.symm slash, Ne.symm next]

end Counts

theorem Ordinary.counted (ordinary : Ordinary name) : counted name.toList = [.name name] := by
  rw [ordinary.toCounts.counted, if_neg ordinary.level, String.ofList_toList]

/-- A text without the slashes and the lone dots at its end; the lead stays. -/
def above (front : List Char) : List Char :=
  (splitLead front).1 ++ (dropEmptyParts (splitLead front).2.reverse).reverse

theorem above_cases (front : List Char) :
    (above front = (splitLead front).1 ∧ ∀ part ∈ parts (splitLead front).2, Idle part) ∨
    above front ≠ [] ∧ (splitLead (above front)).1 = (splitLead front).1 ∧
      ∃ back, Trailing back ∧ (splitLead front).2 = (splitLead (above front)).2 ++ back := by
  by_cases nothing : dropEmptyParts (splitLead front).2.reverse = []
  · have idle := idle_of_dropEmptyParts nothing
    rw [List.reverse_reverse] at idle
    exact Or.inl ⟨by simp [above, nothing], idle⟩
  · obtain ⟨back, trailing, same⟩ := (dropEmptyParts_trailing _).resolve_left nothing
    rw [List.reverse_eq_iff, List.reverse_append, List.reverse_reverse] at same
    have nonempty : above front ≠ [] := by simpa [above] using fun _ => nothing
    have whole : above front ++ back = front := by
      rw [above, List.append_assoc, ← same, splitLead_append]
    have lead : (splitLead (above front)).1 = (splitLead front).1 := by
      rcases trailing.head with rfl | slash
      · rw [List.append_nil] at whole
        rw [whole]
      · have split := splitLead_part nonempty (Or.inr slash)
        rw [whole] at split
        exact (congrArg Prod.fst split).symm
    have left : (splitLead (above front)).2 =
        (dropEmptyParts (splitLead front).2.reverse).reverse := by
      have parts := splitLead_append (above front)
      rw [lead] at parts
      exact List.append_cancel_left parts
    exact Or.inr ⟨nonempty, lead, back, trailing, by rw [left, ← same]⟩

theorem components_lead (cs : List Char) :
    components ⟨String.ofList (splitLead cs).1⟩ = leadComponent (splitLead cs).1 := by
  rw [components_eq, String.toList_ofList]
  rcases lead_cases cs with lead | lead | lead <;>
  · rw [lead]
    rfl

theorem components_above (front : List Char) :
    components ⟨String.ofList (above front)⟩ = components ⟨String.ofList front⟩ := by
  rcases above_cases front with ⟨same, idle⟩ | ⟨_, lead, back, trailing, rest⟩
  · rw [same, components_lead, components_eq, String.toList_ofList, counted_of_idle idle,
      List.append_nil]
  · rw [components_eq, components_eq, String.toList_ofList, String.toList_ofList, lead, rest,
      trailing.counted_append]

theorem above_eq_nil_iff : above front = [] ↔ front = [] := by
  constructor
  · intro empty
    rcases above_cases front with ⟨same, idle⟩ | ⟨nonempty, _⟩
    · have unled := same.symm.trans empty
      rw [splitLead_unled unled] at idle
      exact eq_nil_of_idle unled idle
    · exact absurd empty nonempty
  · rintro rfl
    rfl

namespace Named

theorem split (named : Named path front name back) : splitLead path.text.toList =
    ((splitLead front).1, (splitLead front).2 ++ (name.toList ++ back)) := by
  rw [named.whole]
  by_cases empty : front = []
  · subst empty
    exact splitLead_append_of_unled named.ordinary.unled named.ordinary.nonempty back
  · exact splitLead_part empty (Or.inl (named.slashed.resolve_left empty))

theorem components (named : Named path front name back) :
    path.components = Path.components ⟨String.ofList front⟩ ++ [.name name] := by
  rw [components_eq, components_eq, String.toList_ofList, named.split,
    counted_append_of_slashed (body_slashed named.slashed), named.trailing.counted_append,
    named.ordinary.counted, List.append_assoc]

theorem dropEmptyParts (named : Named path front name back) :
    Path.dropEmptyParts (splitLead path.text.toList).2.reverse =
      name.toList.reverse ++ (splitLead front).2.reverse := by
  rw [named.split, List.reverse_append, List.reverse_append, List.append_assoc,
    named.trailing.dropEmptyParts_append, named.ordinary.reverse.dropEmptyParts]

theorem pieces (named : Named path front name back) :
    (name.toList.reverse ++ (splitLead front).2.reverse).takeWhile (· != '/') =
      name.toList.reverse ∧
    (name.toList.reverse ++ (splitLead front).2.reverse).dropWhile (· != '/') =
      (splitLead front).2.reverse := by
  have solid : ∀ c ∈ name.toList.reverse, (c != '/') = true := fun c inside =>
    bne_iff_ne.mpr fun slash => named.ordinary.reverse.solid (slash ▸ inside)
  rw [List.takeWhile_append_of_pos solid, List.dropWhile_append_of_pos solid]
  rcases body_slashed named.slashed with empty | slashed
  · simp [empty]
  · obtain ⟨more, same⟩ := List.getLast?_eq_some_iff.mp slashed
    simp [same]

theorem fileName (named : Named path front name back) : path.fileName? = some name := by
  have last : path.lastPart? = some name.toList := by
    unfold lastPart?
    rw [named.dropEmptyParts]
    split
    · next empty =>
      exact absurd (List.append_eq_nil_iff.mp empty).1 named.ordinary.reverse.nonempty
    · rw [named.pieces.1, List.reverse_reverse]
  simp [fileName?, last, named.ordinary.level]

theorem parent?_eq (named : Named path front name back) :
    path.parent? = some ⟨String.ofList (above front)⟩ := by
  have rest := named.dropEmptyParts
  rw [named.split] at rest
  unfold parent?
  rw [named.split]
  simp only [rest]
  split
  · next empty =>
    exact absurd (List.append_eq_nil_iff.mp empty).1 named.ordinary.reverse.nonempty
  · rw [named.pieces.2, above]

end Named

theorem join_named (ordinary : Ordinary name) (base : Path) :
    ∃ front, Named (base.join name) front name [] ∧
      Path.components ⟨String.ofList front⟩ = base.components := by
  have plain : isAbsolute ⟨name⟩ = false := by
    refine beq_eq_false_iff_ne.mpr fun slash => ordinary.solid ?_
    exact List.mem_of_mem_head? slash
  cases needed : base.needsSlash with
  | true =>
    obtain ⟨nonempty, _⟩ : base.text.toList ≠ [] ∧ base.text.toList.getLast? ≠ some '/' := by
      simpa [needsSlash] using needed
    refine ⟨base.text.toList ++ ['/'], ⟨?_, ordinary, ?_, .nil⟩, ?_⟩
    · simp [join, plain, needed]
    · simp
    · rw [components_eq, components_eq, String.toList_ofList, splitLead_part nonempty (Or.inr rfl),
        Trailing.counted_append (.slash .nil)]
  | false =>
    refine ⟨base.text.toList, ⟨?_, ordinary, ?_, .nil⟩, ?_⟩
    · simp [join, plain, needed]
    · simpa [needsSlash, Decidable.or_iff_not_imp_left] using needed
    · rw [String.ofList_toList]

theorem components_join (ordinary : Ordinary name) (base : Path) :
    (base.join name).components = base.components ++ [.name name] := by
  obtain ⟨front, named, same⟩ := join_named ordinary base
  rw [named.components, same]

theorem dropEmptyParts_ne_dot :
    dropEmptyParts cs ≠ ['.'] ∧ ∀ rest, dropEmptyParts cs ≠ '.' :: '/' :: rest := by
  fun_induction dropEmptyParts cs with
  | case1 rest ih => exact ih
  | case2 rest ih => exact ih
  | case3 => simp
  | case4 cs slash dots dot => exact ⟨dot, dots⟩

theorem dropEmptyParts_part (nonempty : dropEmptyParts cs ≠ []) :
    ∃ part rest, dropEmptyParts cs = part ++ rest ∧ Counts part ∧
      (rest = [] ∨ rest.head? = some '/') := by
  have whole := List.takeWhile_append_dropWhile (p := (· != '/')) (l := dropEmptyParts cs)
  have slashed : (dropEmptyParts cs).dropWhile (· != '/') = [] ∨
      ((dropEmptyParts cs).dropWhile (· != '/')).head? = some '/' := by
    cases left : (dropEmptyParts cs).dropWhile (· != '/') with
    | nil => exact Or.inl rfl
    | cons c rest =>
      have stop := List.head?_dropWhile_not (· != '/') (dropEmptyParts cs)
      rw [left] at stop
      exact Or.inr (by simpa using stop)
  refine ⟨_, _, whole.symm, ⟨fun inside => ?_, fun empty => ?_, fun dot => ?_⟩, slashed⟩
  · simpa using List.all_eq_true.mp List.all_takeWhile '/' inside
  · rw [empty, List.nil_append] at whole
    rw [whole] at slashed
    rcases slashed with nothing | slash
    · exact nonempty nothing
    · obtain ⟨rest, same⟩ := List.head?_eq_some_iff.mp slash
      exact dropEmptyParts_ne_slash same
  · rw [dot] at whole
    rcases slashed with nothing | slash
    · rw [nothing] at whole
      exact dropEmptyParts_ne_dot.1 whole.symm
    · obtain ⟨rest, same⟩ := List.head?_eq_some_iff.mp slash
      rw [same] at whole
      exact dropEmptyParts_ne_dot.2 rest whole.symm

theorem idle_or_part (cs : List Char) : (∀ part ∈ parts cs, Idle part) ∨
    ∃ front part back, cs = front ++ (part ++ back) ∧ Counts part ∧
      (front = [] ∨ front.getLast? = some '/') ∧ Trailing back := by
  by_cases nothing : dropEmptyParts cs.reverse = []
  · have idle := idle_of_dropEmptyParts nothing
    rw [List.reverse_reverse] at idle
    exact Or.inl idle
  · obtain ⟨back, trailing, same⟩ := (dropEmptyParts_trailing _).resolve_left nothing
    obtain ⟨part, rest, left, counts, slashed⟩ := dropEmptyParts_part nothing
    rw [left, List.reverse_eq_iff, List.reverse_append, List.reverse_append, List.reverse_reverse,
      List.append_assoc] at same
    refine Or.inr ⟨rest.reverse, part.reverse, back, same, counts.reverse, ?_, trailing⟩
    rwa [List.reverse_eq_nil_iff, List.getLast?_reverse]

theorem lead_slashed {part : List Char} (same : (splitLead cs).2 = part ++ back)
    (counts : Counts part) :
    (splitLead cs).1 = [] ∨ (splitLead cs).1.getLast? = some '/' := by
  rcases splitLead_cases cs with ⟨rest, _, split⟩ | dotted | split
  · exact Or.inr (by rw [split]; rfl)
  · obtain ⟨c, more, rfl⟩ := List.exists_cons_of_ne_nil counts.nonempty
    rcases splitLead_dotted dotted with rfl | ⟨rest, rfl⟩
    · cases same
    · obtain ⟨rfl, _⟩ := List.cons.inj same
      exact absurd List.mem_cons_self counts.solid
  · exact Or.inl (congrArg Prod.fst split)

/-- A path whose last component is a name is made of a front, the name and trailing parts. -/
theorem exists_named (last : path.components.getLast? = some (.name name)) :
    ∃ front back, Named path front name back := by
  have whole := splitLead_append path.text.toList
  rw [components_eq] at last
  rcases idle_or_part (splitLead path.text.toList).2 with
    idle | ⟨front, part, back, same, counts, slashed, trailing⟩
  · rw [counted_of_idle idle, List.append_nil] at last
    rcases lead_cases path.text.toList with lead | lead | lead <;>
    · rw [lead] at last
      cases last
  · rw [same, counted_append_of_slashed slashed, trailing.counted_append,
      counts.counted, ← List.append_assoc, List.getLast?_concat] at last
    have level : part ≠ ['.', '.'] := by
      rintro rfl
      cases last
    rw [if_neg level, Option.some.injEq, Component.name.injEq] at last
    subst last
    have ordinary : Ordinary (String.ofList part) :=
      ⟨by rwa [String.toList_ofList], by rwa [String.toList_ofList]⟩
    rw [same, ← List.append_assoc] at whole
    refine ⟨(splitLead path.text.toList).1 ++ front, back, ?_, ordinary, ?_, trailing⟩
    · rw [String.toList_ofList, whole]
    · rcases slashed with rfl | slashed
      · rw [List.append_nil]
        exact lead_slashed (same.trans (List.nil_append _)) counts
      · rw [List.getLast?_append, slashed]
        exact Or.inr rfl

end AssetBlocks.Path
