import AssetBlocks.Proofs.Indentation

/-! A scan that goes on call by call, with a cursor over the bytes of a document. What the
calls find lies one behind the other, the texts between have no directive of their own, and
no directive begins there. -/
namespace AssetBlocks
namespace Text
variable {α : Type} {cs : List Char} {document text : String} {start stop : Nat}

theorem byteLength_eq (cs : List Char) : byteLength cs = (String.ofList cs).utf8ByteSize := by
  induction cs with
  | nil => rfl
  | cons c cs ih =>
    rw [byteLength, ih, String.ofList_cons, String.utf8ByteSize_append,
      String.utf8ByteSize_singleton]

theorem byteLength_toList (s : String) : byteLength s.toList = s.utf8ByteSize := by
  rw [byteLength_eq, String.ofList_toList]

theorem byteLength_pos (nonempty : cs ≠ []) : 0 < byteLength cs := by
  cases cs with
  | nil => exact absurd rfl nonempty
  | cons c cs => exact Nat.add_pos_left c.utf8Size_pos _

/-- The text between two bytes. There is none if they are out of bounds or the wrong way
round, or if one of them is inside a character. -/
def cut? (document : String) (start stop : Nat) : Option String :=
  if h : String.Pos.Raw.IsValid document ⟨start⟩ ∧ String.Pos.Raw.IsValid document ⟨stop⟩ ∧
      start ≤ stop then
    some (String.extract ⟨⟨start⟩, h.1⟩ ⟨⟨stop⟩, h.2.1⟩)
  else none

theorem isValid_append (front behind : String) :
    String.Pos.Raw.IsValid (front ++ behind) ⟨front.utf8ByteSize⟩ :=
  String.Pos.Raw.isValid_iff_exists_append.mpr ⟨front, behind, rfl, rfl⟩

theorem cut?_eq_some_iff : cut? document start stop = some text ↔
    ∃ front behind, document = front ++ text ++ behind ∧ start = front.utf8ByteSize ∧
      stop = (front ++ text).utf8ByteSize := by
  constructor
  · intro found
    unfold cut? at found
    split at found
    · next h =>
      obtain ⟨valid, valid', order⟩ := h
      rw [Option.some.injEq, String.extract_eq_copy_slice _ _ order] at found
      obtain ⟨front, behind, first, second⟩ := String.copy_slice_eq_iff_splits.mp ⟨order, found⟩
      exact ⟨front, behind, second.eq_append,
        congrArg String.Pos.Raw.byteIdx first.offset_eq_rawEndPos,
        congrArg String.Pos.Raw.byteIdx second.offset_eq_rawEndPos⟩
    · cases found
  · rintro ⟨front, behind, rfl, rfl, rfl⟩
    have valid := isValid_append front (text ++ behind)
    rw [← String.append_assoc] at valid
    have valid' := isValid_append (front ++ text) behind
    have order : front.utf8ByteSize ≤ (front ++ text).utf8ByteSize := by
      rw [String.utf8ByteSize_append]
      exact Nat.le_add_right _ _
    have first : String.Pos.Splits ⟨_, valid⟩ front (text ++ behind) := ⟨String.append_assoc, rfl⟩
    have second : String.Pos.Splits ⟨_, valid'⟩ (front ++ text) behind := ⟨rfl, rfl⟩
    obtain ⟨_, same⟩ := String.copy_slice_eq_iff_splits.mpr ⟨front, behind, first, second⟩
    rw [cut?, dif_pos ⟨valid, valid', order⟩, String.extract_eq_copy_slice _ _ order, same]

theorem cut?_parts {front inner behind : List Char}
    (whole : document.toList = front ++ (inner ++ behind)) :
    cut? document (byteLength front) (byteLength (front ++ inner)) =
      some (String.ofList inner) := by
  refine cut?_eq_some_iff.mpr ⟨String.ofList front, String.ofList behind, ?_, byteLength_eq _, ?_⟩
  · rw [← String.ofList_toList (s := document), whole]
    simp only [String.ofList_append, String.append_assoc]
  · rw [byteLength_eq, String.ofList_append]

theorem cut?_bounds (found : cut? document start stop = some text) :
    start ≤ stop ∧ stop ≤ document.utf8ByteSize ∧ String.Pos.Raw.IsValid document ⟨start⟩ ∧
      String.Pos.Raw.IsValid document ⟨stop⟩ := by
  unfold cut? at found
  split at found
  · next h => exact ⟨h.2.2, h.2.1.le_rawEndPos, h.1, h.2.1⟩
  · cases found

theorem append_place {piece more front rest : List Char} (whole : piece ++ more = front ++ rest) :
    (∃ left, piece = front ++ left ∧ left ≠ []) ∨
      ∃ passed, front = piece ++ passed ∧ more = passed ++ rest := by
  rcases List.append_eq_append_iff.mp whole with behind | ⟨left, split, same⟩
  · exact Or.inr behind
  · rcases eq_or_ne left [] with rfl | nonempty
    · exact Or.inr ⟨[], by simpa using split.symm, same.symm⟩
    · exact Or.inl ⟨left, split, nonempty⟩

/-- A place in a text is behind all that was found, in the text before something, or in the
text of something. -/
theorem covered_place {ms : List (Match α)} {tail front rest : List Char}
    (whole : covered ms ++ tail = front ++ rest) :
    (∃ passed, front = covered ms ++ passed ∧ tail = passed ++ rest) ∨
    ∃ pre m post, ms = pre ++ m :: post ∧
      ((∃ passed left, front = covered pre ++ passed ∧ m.before = passed ++ left ∧ left ≠ []) ∨
        ∃ passed left, front = covered pre ++ (m.before ++ passed) ∧ m.text = passed ++ left ∧
          left ≠ []) := by
  induction ms generalizing front with
  | nil => exact Or.inl ⟨front, rfl, whole⟩
  | cons m ms ih =>
    rw [covered_cons, List.append_assoc, List.append_assoc] at whole
    rcases append_place whole with ⟨left, split, nonempty⟩ | ⟨front, rfl, text⟩
    · exact Or.inr ⟨[], m, ms, rfl, Or.inl ⟨front, left, rfl, split, nonempty⟩⟩
    · rcases append_place text with ⟨left, split, nonempty⟩ | ⟨front, rfl, later⟩
      · exact Or.inr ⟨[], m, ms, rfl, Or.inr ⟨front, left, rfl, split, nonempty⟩⟩
      · rcases ih later with ⟨passed, rfl, rear⟩ | ⟨pre, n, post, rfl, place⟩
        · exact Or.inl ⟨passed, by simp [covered_cons], rear⟩
        · refine Or.inr ⟨m :: pre, n, post, rfl, ?_⟩
          rcases place with ⟨passed, left, rfl, split⟩ | ⟨passed, left, rfl, split⟩
          · exact Or.inl ⟨passed, left, by simp [covered_cons], split⟩
          · exact Or.inr ⟨passed, left, by simp [covered_cons], split⟩

namespace Pattern

theorem all_behind {p : Pattern α} {lineStart : Bool} {pre post : List (Match α)}
    (inside : ∀ n ∈ (p.all lineStart cs).1, ∀ start, fresh start n.text = false)
    (split : (p.all lineStart cs).1 = pre ++ post) :
    p.all (fresh lineStart (covered pre)) (covered post ++ (p.all lineStart cs).2) =
      (post, (p.all lineStart cs).2) := by
  fun_induction all p lineStart cs generalizing pre with
  | case1 lineStart cs absent =>
    obtain ⟨rfl, rfl⟩ := List.append_eq_nil_iff.mp split.symm
    exact all_none absent
  | case2 lineStart cs m rest found more tail pieces ih =>
    have whole := p.all_covered false rest
    rw [pieces] at whole ih
    cases pre with
    | nil =>
      rw [List.nil_append] at split
      subst split
      have text := (next?_split found).2
      rw [← whole] at text
      have first : covered (m :: more) ++ tail = cs := by
        rw [text, covered_cons]
        simp only [List.append_assoc]
      rw [first]
      exact (all_some found).trans (by rw [pieces])
    | cons n pre =>
      rw [List.cons_append, List.cons.injEq] at split
      obtain ⟨rfl, split⟩ := split
      have behind : fresh lineStart (covered (m :: pre)) = fresh false (covered pre) := by
        rw [covered_cons, fresh_append, fresh_append, inside m (by simp)]
      rw [behind]
      exact ih (fun n found => inside n (by simp [found])) split

theorem next?_of_all {p : Pattern α} {lineStart : Bool} {ms : List (Match α)} {tail : List Char}
    (scanned : p.all lineStart cs = (ms, tail)) :
    (p.next? lineStart cs).map Prod.fst = ms.head? := by
  cases found : p.next? lineStart cs with
  | none =>
    obtain ⟨rfl, _⟩ := Prod.mk.inj ((all_none found).symm.trans scanned)
    rfl
  | some parts =>
    obtain ⟨m, rest⟩ := parts
    obtain ⟨rfl, _⟩ := Prod.mk.inj ((all_some found).symm.trans scanned)
    rfl

end Pattern
end Text

open Text

/-- Where a directive is in a document, in bytes, and its text. -/
structure Place where
  start : Nat
  stop : Nat
  text : String
  value : Directive
deriving DecidableEq

/-- The place of what is found behind so many bytes. -/
def Place.of (bytes : Nat) (m : Match Directive) : Place :=
  ⟨bytes + byteLength m.before, bytes + byteLength m.before + byteLength m.text,
    String.ofList m.text, m.value⟩

/-- The directives that a scan finds, with their places. -/
def Tag.places (tag : Tag) (document : String) : List Place :=
  (locate 0 1 (tag.scan document).1).map fun (span, m) =>
    ⟨span.start, span.stop, String.ofList m.text, m.value⟩

structure Cursor where
  document : String
  position : Nat

namespace Cursor

/-- The first directive ahead of the cursor, and the cursor behind it. What has been passed
tells only whether a line starts here. -/
def next? (tag : Tag) (c : Cursor) : Option (Place × Cursor) := do
  let passed ← cut? c.document 0 c.position
  let ahead ← cut? c.document c.position c.document.utf8ByteSize
  let (m, _) ← tag.pattern.next? (fresh true passed.toList) ahead.toList
  pure (.of c.position m, ⟨c.document, (Place.of c.position m).stop⟩)

/-- The cursor that has been moved on so many times; with nothing ahead of it, it stays. -/
def after (tag : Tag) (document : String) : Nat → Cursor
  | 0 => ⟨document, 0⟩
  | n + 1 => ((after tag document n).next? tag).elim (after tag document n) Prod.snd

/-- The cursor behind directives of its document. -/
def behind (document : String) (ms : List (Match Directive)) : Cursor :=
  ⟨document, byteLength (covered ms)⟩

variable {tag : Tag} {document : String} {pre post : List (Match Directive)} {m : Match Directive}

theorem cut?_passed (split : (tag.scan document).1 = pre ++ post) :
    cut? document 0 (byteLength (covered pre)) = some (String.ofList (covered pre)) := by
  have whole := tag.scan_covered document
  rw [split, covered_append, List.append_assoc] at whole
  exact cut?_parts (whole.trans (List.nil_append _).symm)

theorem cut?_ahead (split : (tag.scan document).1 = pre ++ post) :
    cut? document (byteLength (covered pre)) document.utf8ByteSize =
      some (String.ofList (covered post ++ (tag.scan document).2)) := by
  have whole := tag.scan_covered document
  rw [split, covered_append, List.append_assoc] at whole
  rw [← byteLength_toList, whole]
  exact cut?_parts (by rw [List.append_nil, whole])

theorem all_ahead (split : (tag.scan document).1 = pre ++ post) :
    tag.pattern.all (fresh true (covered pre)) (covered post ++ (tag.scan document).2) =
      (post, (tag.scan document).2) := Pattern.all_behind Tag.scan_fresh split

theorem behind_append (pre : List (Match Directive)) (m : Match Directive) :
    behind document (pre ++ [m]) = ⟨document, (Place.of (byteLength (covered pre)) m).stop⟩ := by
  simp [behind, Place.of, covered, byteLength_append, Nat.add_assoc]

theorem next?_behind (split : (tag.scan document).1 = pre ++ post) :
    (behind document pre).next? tag = post.head?.map fun m =>
      (Place.of (byteLength (covered pre)) m, behind document (pre ++ [m])) := by
  have found := Pattern.next?_of_all (all_ahead split)
  rw [← found, Option.map_map]
  simp only [next?, behind, cut?_passed split, cut?_ahead split, Option.bind_eq_bind,
    Option.bind_some, String.toList_ofList]
  cases tag.pattern.next? (fresh true (covered pre)) (covered post ++ (tag.scan document).2) with
  | none => rfl
  | some parts => exact congrArg some (Prod.ext rfl (behind_append pre parts.1).symm)

theorem after_eq (tag : Tag) (document : String) (n : Nat) :
    after tag document n = behind document ((tag.scan document).1.take n) := by
  induction n with
  | zero => rfl
  | succ n ih =>
    have found := next?_behind (List.take_append_drop n (tag.scan document).1).symm
    rw [after, ih, found, List.head?_drop, List.take_add_one]
    cases (tag.scan document).1[n]? with
    | none => simp
    | some m => rfl

theorem after_length (split : (tag.scan document).1 = pre ++ post) :
    after tag document pre.length = behind document pre := by
  rw [after_eq, split, List.take_left]

end Cursor

namespace Tag
variable {tag : Tag} {document : String} {n : Nat} {f : Place}

theorem getElem?_locate (bytes line : Nat) (ms : List (Match Directive)) (n : Nat) :
    ((locate bytes line ms).map fun (span, m) =>
        (⟨span.start, span.stop, String.ofList m.text, m.value⟩ : Place))[n]? =
      ms[n]?.map (Place.of (bytes + byteLength (covered (ms.take n)))) := by
  induction ms generalizing bytes line n with
  | nil => rfl
  | cons m ms ih =>
    rw [locate]
    cases n with
    | zero => rfl
    | succ n =>
      have passed : bytes + byteLength m.before + byteLength m.text +
          byteLength (covered (ms.take n)) =
          bytes + byteLength (covered ((m :: ms).take (n + 1))) := by
        simp [covered_cons, byteLength_append, Nat.add_assoc]
      rw [List.map_cons, List.getElem?_cons_succ, List.getElem?_cons_succ, ih, passed]

theorem getElem?_places (tag : Tag) (document : String) (n : Nat) : (tag.places document)[n]? =
    (tag.scan document).1[n]?.map
      (Place.of (byteLength (covered ((tag.scan document).1.take n)))) := by
  rw [places, getElem?_locate, Nat.zero_add]

theorem places_split (found : (tag.places document)[n]? = some f) : ∃ pre m post,
    (tag.scan document).1 = pre ++ m :: post ∧ n = pre.length ∧
      f = Place.of (byteLength (covered pre)) m := by
  rw [getElem?_places] at found
  obtain ⟨m, there, rfl⟩ := Option.map_eq_some_iff.mp found
  obtain ⟨within, rfl⟩ := List.getElem?_eq_some_iff.mp there
  refine ⟨_, _, (tag.scan document).1.drop (n + 1), ?_, ?_, rfl⟩
  · rw [← List.drop_eq_getElem_cons within, List.take_append_drop]
  · rw [List.length_take, Nat.min_eq_left (Nat.le_of_lt within)]

theorem places_length (tag : Tag) (document : String) :
    (tag.places document).length = (tag.scan document).1.length := by
  refine Nat.le_antisymm ?_ ?_ <;> refine List.getElem?_eq_none_iff.mp ?_
  · rw [getElem?_places, List.getElem?_eq_none (Nat.le_refl _), Option.map_none]
  · have absent := List.getElem?_eq_none (Nat.le_refl (tag.places document).length)
    rwa [getElem?_places, Option.map_eq_none_iff] at absent

theorem start_of (ms : List (Match Directive)) (m : Match Directive) :
    (Place.of (byteLength (covered ms)) m).start = byteLength (covered ms ++ m.before) := by
  rw [Place.of, byteLength_append]

theorem stop_of (ms : List (Match Directive)) (m : Match Directive) :
    (Place.of (byteLength (covered ms)) m).stop =
      byteLength (covered ms ++ m.before ++ m.text) := by
  rw [Place.of, byteLength_append, byteLength_append]

section split
variable {pre post : List (Match Directive)} {m : Match Directive}

theorem places_of_split (split : (tag.scan document).1 = pre ++ m :: post) :
    (tag.places document)[pre.length]? = some (Place.of (byteLength (covered pre)) m) := by
  rw [getElem?_places, split]
  simp

theorem split_toList (split : (tag.scan document).1 = pre ++ m :: post) :
    document.toList = covered pre ++ (m.before ++
      (m.text ++ (covered post ++ (tag.scan document).2))) := by
  have whole := tag.scan_covered document
  rw [split, covered_append, covered_cons] at whole
  rw [whole]
  simp only [List.append_assoc]

theorem cut?_before (split : (tag.scan document).1 = pre ++ m :: post) :
    cut? document (byteLength (covered pre)) (Place.of (byteLength (covered pre)) m).start =
      some (String.ofList m.before) := by
  rw [start_of]
  exact cut?_parts (split_toList split)

theorem cut?_text (split : (tag.scan document).1 = pre ++ m :: post) :
    cut? document (Place.of (byteLength (covered pre)) m).start
      (Place.of (byteLength (covered pre)) m).stop = some (String.ofList m.text) := by
  rw [start_of, stop_of]
  exact cut?_parts ((split_toList split).trans (List.append_assoc _ _ _).symm)

/-- No directive begins in the text between those that are found. -/
theorem written_inside {front text behind : List Char}
    (whole : document.toList = front ++ (text ++ behind))
    (written : Directive.Written tag.name.toList text) :
    ∃ pre m post, (tag.scan document).1 = pre ++ m :: post ∧
      (Place.of (byteLength (covered pre)) m).start ≤ byteLength front ∧
      byteLength front < (Place.of (byteLength (covered pre)) m).stop := by
  have place := covered_place ((tag.scan_covered document).symm.trans whole)
  rcases place with ⟨passed, _, tail⟩ | ⟨pre, m, post, split, place⟩
  · refine absurd ⟨text, written, passed, behind, ?_⟩ (tag.all_free true document.toList).2
    rw [List.append_assoc]
    exact tail.symm
  · refine ⟨pre, m, post, split, ?_⟩
    rcases place with ⟨passed, left, rfl, before, nonempty⟩ | ⟨passed, left, rfl, inside, nonempty⟩
    · have absent := (scan_place split).2 passed left before nonempty
      obtain ⟨found, here⟩ := Directive.at?_of_written tag.solid tag.colon_notMem written
        (fresh true (covered pre ++ passed)) behind
      have rest := (split_toList split).symm.trans whole
      rw [before, List.append_assoc, List.append_assoc, List.append_cancel_left_eq,
        List.append_cancel_left_eq] at rest
      rw [rest, here] at absent
      cases absent
    · rw [start_of, stop_of, inside]
      simp only [byteLength_append]
      have := byteLength_pos nonempty
      omega

end split

theorem apart (tag : Tag) (document : String) :
    (tag.places document).Pairwise fun f g => f.stop ≤ g.start := by
  refine List.pairwise_iff_getElem.mpr fun i j hi hj less => ?_
  have first := List.getElem?_eq_getElem hi
  have second := List.getElem?_eq_getElem hj
  rw [getElem?_places] at first second
  obtain ⟨m, there, same⟩ := Option.map_eq_some_iff.mp first
  obtain ⟨n, _, same'⟩ := Option.map_eq_some_iff.mp second
  rw [← same, ← same', start_of, stop_of]
  obtain ⟨more, between⟩ := List.take_prefix_take_left (l := (tag.scan document).1) less
  have upto : covered ((tag.scan document).1.take (i + 1)) =
      covered ((tag.scan document).1.take i) ++ m.before ++ m.text := by
    rw [List.take_add_one, there, covered_append]
    simp [covered]
  rw [← upto, ← between, covered_append, List.append_assoc, byteLength_append]
  exact Nat.le_add_right _ _

theorem pieces_join (tag : Tag) (document : String) :
    document = String.join (List.zipWith (fun gap f => gap ++ f.text)
      ((tag.scan document).1.map fun m => String.ofList m.before) (tag.places document)) ++
        String.ofList (tag.scan document).2 := by
  have pieces : List.zipWith (fun gap (f : Place) => gap ++ f.text)
      ((tag.scan document).1.map fun m => String.ofList m.before) (tag.places document) =
      (tag.scan document).1.map fun m => String.ofList (m.before ++ m.text) := by
    refine List.ext_getElem? fun n => ?_
    rw [List.getElem?_zipWith, getElem?_places, List.getElem?_map, List.getElem?_map]
    cases (tag.scan document).1[n]? with
    | none => rfl
    | some m => simp [Place.of]
  rw [pieces]
  refine String.toList_injective ?_
  rw [String.toList_append, String.toList_join, List.flatMap_map, String.toList_ofList]
  simp only [String.toList_ofList]
  exact tag.scan_covered document

/-- How places take up a document: they are those of the directives that calls of a cursor
meet, with gaps between them in which there is none. -/
structure Tiles (tag : Tag) (document : String) (places : List Place) : Prop where
  /-- Each call finds the next of the places; behind the last one there is nothing. -/
  calls (n : Nat) : ((Cursor.after tag document n).next? tag).map Prod.fst = places[n]?
  /-- What a call finds is ahead of the cursor, and the cursor is then behind it. -/
  moves {n : Nat} {f : Place} (found : places[n]? = some f) :
    (Cursor.after tag document n).position ≤ f.start ∧ f.start < f.stop ∧
      (Cursor.after tag document (n + 1)).position = f.stop
  apart : places.Pairwise fun f g => f.stop ≤ g.start
  bounds {f : Place} (found : f ∈ places) : f.stop ≤ document.utf8ByteSize ∧
    String.Pos.Raw.IsValid document ⟨f.start⟩ ∧ String.Pos.Raw.IsValid document ⟨f.stop⟩
  texts {f : Place} (found : f ∈ places) :
    cut? document f.start f.stop = some f.text ∧ f.text ≠ "" ∧ '\n' ∉ f.text.toList
  pieces : ∃ gaps tail, gaps.length = places.length ∧
    (∀ n f gap, places[n]? = some f → gaps[n]? = some gap →
      cut? document (Cursor.after tag document n).position f.start = some gap) ∧
    cut? document (Cursor.after tag document places.length).position document.utf8ByteSize =
      some tail ∧
    document = String.join (List.zipWith (fun gap f => gap ++ f.text) gaps places) ++ tail ∧
    (∀ gap ∈ gaps, tag.occursIn gap = false) ∧ tag.occursIn tail = false
  /-- No directive begins anywhere but in one of the places. -/
  complete {start stop : Nat} {text : String} (there : cut? document start stop = some text)
    (written : Directive.Written tag.name.toList text.toList) :
    ∃ f ∈ places, f.start ≤ start ∧ start < f.stop

theorem tiles (tag : Tag) (document : String) : Tiles tag document (tag.places document) where
  calls n := by
    have split := (List.take_append_drop n (tag.scan document).1).symm
    rw [Cursor.after_eq, Cursor.next?_behind split, List.head?_drop, getElem?_places,
      Option.map_map]
    rfl
  moves {n f} found := by
    obtain ⟨pre, m, post, split, rfl, rfl⟩ := places_split found
    have next : (tag.scan document).1 = pre ++ [m] ++ post := by simp [split]
    have inside : m ∈ (tag.scan document).1 := by simp [split]
    have positive := byteLength_pos (scan_ne_nil inside)
    have moved := Cursor.after_length next
    rw [List.length_append, List.length_singleton] at moved
    rw [Cursor.after_length split, moved, start_of, stop_of]
    simp only [Cursor.behind, covered_append, byteLength_append]
    simp only [covered, List.flatMap_singleton, byteLength_append]
    omega
  apart := tag.apart document
  bounds {f} found := by
    obtain ⟨n, there⟩ := List.mem_iff_getElem?.mp found
    obtain ⟨pre, m, post, split, rfl, rfl⟩ := places_split there
    obtain ⟨_, within, valid⟩ := cut?_bounds (cut?_text split)
    exact ⟨within, valid⟩
  texts {f} found := by
    obtain ⟨n, there⟩ := List.mem_iff_getElem?.mp found
    obtain ⟨pre, m, post, split, rfl, rfl⟩ := places_split there
    have inside : m ∈ (tag.scan document).1 := by simp [split]
    exact ⟨cut?_text split, by simpa [Place.of] using scan_ne_nil inside,
      by simpa [Place.of] using scan_inline inside⟩
  pieces := by
    have all : (tag.scan document).1 = (tag.scan document).1 ++ [] := (List.append_nil _).symm
    refine ⟨(tag.scan document).1.map fun m => String.ofList m.before,
      String.ofList (tag.scan document).2, ?_, ?_, ?_, tag.pieces_join document, ?_, ?_⟩
    · rw [List.length_map, places_length]
    · intro n f gap found there
      obtain ⟨pre, m, post, split, rfl, rfl⟩ := places_split found
      rw [split] at there
      obtain rfl : String.ofList m.before = gap := by simpa using there
      rw [Cursor.after_length split]
      exact cut?_before split
    · rw [places_length, Cursor.after_length all]
      exact Cursor.cut?_ahead all
    · intro gap inside
      obtain ⟨m, found, rfl⟩ := List.mem_map.mp inside
      rw [Bool.eq_false_iff, ne_eq, occursIn_iff, String.toList_ofList]
      exact (tag.all_free true document.toList).1 m found
    · rw [Bool.eq_false_iff, ne_eq, occursIn_iff, String.toList_ofList]
      exact (tag.all_free true document.toList).2
  complete {start stop text} there written := by
    obtain ⟨front, behind, whole, rfl, _⟩ := cut?_eq_some_iff.mp there
    have parts : document.toList = front.toList ++ (text.toList ++ behind.toList) := by
      rw [whole]
      simp
    obtain ⟨pre, m, post, split, before, after⟩ := written_inside parts written
    rw [byteLength_toList] at before after
    exact ⟨_, List.mem_of_getElem? (places_of_split split), before, after⟩

end Tag
end AssetBlocks
