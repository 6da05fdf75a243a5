import AssetBlocks.ModuleArguments

/-! Fields of JSON objects. Looking up a key sees the last field that was put in for it, and
objects that are read have every key once, so where fields are added to others, the added ones
decide and all others stay as they were. -/
namespace AssetBlocks
namespace Json.Fields
variable {fields more : Fields} {key other : String} {value : Json}

theorem get?_cons_self : get? ((key, value) :: fields) key = some value :=
  List.lookup_cons_self

theorem get?_cons_of_ne (ne : other ≠ key) :
    get? ((key, value) :: fields) other = fields.get? other := by
  simp [get?, List.lookup_cons, beq_eq_false_iff_ne.mpr ne]

theorem get?_insert_self : (fields.insert key value).get? key = some value := by
  induction fields with
  | nil => exact get?_cons_self
  | cons field rest ih =>
    obtain ⟨k, v⟩ := field
    rw [insert]
    split
    · exact get?_cons_self
    · split
      · exact get?_cons_self
      · next ne =>
        rw [get?_cons_of_ne ne]
        exact ih

theorem get?_insert_of_ne (ne : other ≠ key) :
    (fields.insert key value).get? other = fields.get? other := by
  induction fields with
  | nil => exact get?_cons_of_ne ne
  | cons field rest ih =>
    obtain ⟨k, v⟩ := field
    rw [insert]
    split
    · exact get?_cons_of_ne ne
    · split
      · next same =>
        rw [get?_cons_of_ne ne, get?_cons_of_ne (same ▸ ne)]
      · by_cases here : other = k
        · subst here
          rw [get?_cons_self, get?_cons_self]
        · rw [get?_cons_of_ne here, get?_cons_of_ne here]
          exact ih

theorem get?_insert : (fields.insert key value).get? other =
    if other = key then some value else fields.get? other := by
  split
  · next same => rw [same, get?_insert_self]
  · next ne => exact get?_insert_of_ne ne

def Ascending (fields : Fields) : Prop := fields.Pairwise fun a b => a.1 < b.1

theorem mem_insert {field : String × Json} (inside : field ∈ fields.insert key value) :
    field.1 = key ∨ field ∈ fields := by
  induction fields with
  | nil => exact Or.inl (congrArg Prod.fst (List.mem_singleton.mp inside))
  | cons first rest ih =>
    obtain ⟨k, v⟩ := first
    rw [insert] at inside
    split at inside
    · rcases List.mem_cons.mp inside with rfl | inside
      · exact Or.inl rfl
      · exact Or.inr inside
    · split at inside
      · rcases List.mem_cons.mp inside with rfl | inside
        · exact Or.inl rfl
        · exact Or.inr (List.mem_cons_of_mem _ inside)
      · rcases List.mem_cons.mp inside with rfl | inside
        · exact Or.inr List.mem_cons_self
        · exact (ih inside).imp_right (List.mem_cons_of_mem _)

theorem Ascending.insert (ascending : fields.Ascending) (key : String) (value : Json) :
    (fields.insert key value).Ascending := by
  induction fields with
  | nil => exact List.pairwise_singleton _ _
  | cons first rest ih =>
    obtain ⟨k, v⟩ := first
    obtain ⟨least, later⟩ := List.pairwise_cons.mp ascending
    rw [Fields.insert]
    split
    · next less =>
      refine List.pairwise_cons.mpr ⟨fun field inside => ?_, ascending⟩
      rcases List.mem_cons.mp inside with rfl | inside
      · exact less
      · exact String.lt_trans less (least field inside)
    · next notLess =>
      split
      · next same =>
        subst same
        exact List.pairwise_cons.mpr ⟨least, later⟩
      · next ne =>
        refine List.pairwise_cons.mpr ⟨fun field inside => ?_, ih later⟩
        rcases mem_insert inside with same | inside
        · rw [same]
          refine String.not_le.mp fun below => ?_
          exact ne (String.le_antisymm below (String.not_lt.mp notLess))
        · exact least field inside

theorem Ascending.extend (ascending : fields.Ascending) (more : Fields) :
    (fields.extend more).Ascending := by
  induction more generalizing fields with
  | nil => exact ascending
  | cons field more ih => exact ih (ascending.insert field.1 field.2)

theorem ascending_ofList (list : List (String × Json)) : (ofList list).Ascending :=
  Ascending.extend List.Pairwise.nil list

theorem get?_extend (ascending : more.Ascending) :
    (fields.extend more).get? key = (more.get? key).or (fields.get? key) := by
  induction more generalizing fields with
  | nil => rfl
  | cons field more ih =>
    obtain ⟨k, v⟩ := field
    obtain ⟨least, rest⟩ := List.pairwise_cons.mp ascending
    have next : (fields.extend ((k, v) :: more)) = (fields.insert k v).extend more := rfl
    rw [next, ih rest]
    by_cases here : key = k
    · subst here
      have once : Fields.get? more key = none := by
        refine List.lookup_eq_none_iff.mpr fun field inside => ?_
        have less := least field inside
        simpa using fun same : key = field.1 => String.lt_irrefl _ (same ▸ less)
      rw [once, get?_cons_self, get?_insert_self]
      rfl
    · rw [get?_cons_of_ne here, get?_insert_of_ne here]

end Json.Fields

theorem Json.value_object {depth : Nat} {cs rest : List Char} {json : Json}
    (ok : Json.value (depth + 1) ('\x7b' :: cs) = .ok (json, rest)) :
    ∃ list, json = .object (Fields.ofList list) := by
  have first : skipBlank ('\x7b' :: cs) = '\x7b' :: cs := by simp [skipBlank, isJsonBlank]
  simp only [value, valueWith, first] at ok
  split at ok
  · cases ok
  · next list _ _ =>
    simp only [Except.ok.injEq, Prod.mk.injEq] at ok
    exact ⟨list, ok.1.symm⟩

theorem Json.read_object {cs : List Char} {json : Json} (ok : Json.read ('\x7b' :: cs) = .ok json) :
    ∃ list, json = .object (Fields.ofList list) := by
  unfold read at ok
  split at ok
  · cases ok
  · next fits =>
    split at ok
    · obtain rfl := Except.ok.inj ok
      exact value_object fits
    · cases ok

theorem ModuleArguments.parse_options {given : Option String} {args : ModuleArguments}
    (parsed : parse given = .ok args) : args.options.Ascending := by
  unfold parse at parsed
  split at parsed
  · cases parsed
  · simp only at parsed
    split at parsed
    · obtain rfl := Except.ok.inj parsed
      exact List.Pairwise.nil
    · next behind brace =>
      split at parsed
      · next json read =>
        obtain rfl := Except.ok.inj parsed
        rw [brace] at read
        obtain ⟨list, rfl⟩ := Json.read_object read
        exact Json.Fields.ascending_ofList list
      · cases parsed
    · obtain rfl := Except.ok.inj parsed
      exact List.Pairwise.nil

end AssetBlocks
