import AssetBlocks.Handler.Registry
import Mathlib.Data.List.Basic
import Mathlib.Data.List.TakeWhile

/-! Markup taken out of a comment. The first opening marker goes if only white space is before
it, and of what is then left the last closing marker if only white space is behind it. No marker
begins or ends with white space, so there is no other one on that side. -/
namespace AssetBlocks.Uncomment
open Text
variable {marker cs before behind before' behind' : List Char}

def opening : List Char := ['<', '!', '-', '-']

def closing : List Char := ['-', '-', '>']

def Blank (cs : List Char) : Prop := ∀ c ∈ cs, isBlank c = true

structure FirstAt (marker cs before behind : List Char) : Prop where
  split : cs = before ++ (marker ++ behind)
  first : ∀ front rest, cs = front ++ (marker ++ rest) → before.length ≤ front.length

structure LastAt (marker cs before behind : List Char) : Prop where
  split : cs = before ++ (marker ++ behind)
  last : ∀ front rest, cs = front ++ (marker ++ rest) → front.length ≤ before.length

structure OpensAt (cs before behind : List Char) : Prop where
  first : FirstAt opening cs before behind
  blank : Blank before

structure ClosesAt (cs before behind : List Char) : Prop where
  last : LastAt closing cs before behind
  blank : Blank behind

/-- The text without the marker at a place, if there is such a place. -/
inductive Dropped (place : List Char → List Char → Prop) (cs : List Char) : List Char → Prop
  | here {before behind : List Char} (found : place before behind) :
      Dropped place cs (before ++ behind)
  | nowhere (never : ∀ before behind, ¬ place before behind) : Dropped place cs cs

theorem Dropped.unique {place : List Char → List Char → Prop} {left left' : List Char}
    (one : ∀ {before behind before' behind'}, place before behind → place before' behind' →
      before = before' ∧ behind = behind')
    (h : Dropped place cs left) (h' : Dropped place cs left') : left = left' := by
  cases h with
  | here found =>
    cases h' with
    | here found' =>
      obtain ⟨rfl, rfl⟩ := one found found'
      rfl
    | nowhere never => exact absurd found (never _ _)
  | nowhere never =>
    cases h' with
    | here found => exact absurd found (never _ _)
    | nowhere => rfl

theorem split_unique (split : cs = before ++ (marker ++ behind))
    (split' : cs = before' ++ (marker ++ behind')) (same : before.length = before'.length) :
    before = before' ∧ behind = behind' := by
  obtain ⟨rfl, rest⟩ := List.append_inj (split.symm.trans split') same
  exact ⟨rfl, List.append_cancel_left rest⟩

theorem OpensAt.unique (h : OpensAt cs before behind) (h' : OpensAt cs before' behind') :
    before = before' ∧ behind = behind' :=
  split_unique h.first.split h'.first.split
    (Nat.le_antisymm (h.first.first _ _ h'.first.split) (h'.first.first _ _ h.first.split))

theorem ClosesAt.unique (h : ClosesAt cs before behind) (h' : ClosesAt cs before' behind') :
    before = before' ∧ behind = behind' :=
  split_unique h.last.split h'.last.split
    (Nat.le_antisymm (h'.last.last _ _ h.last.split) (h.last.last _ _ h'.last.split))

theorem Blank.reverse (blank : Blank cs) : Blank cs.reverse :=
  fun c inside => blank c (List.mem_reverse.mp inside)

theorem Blank.length_le {front rest more : List Char} {c : Char} (blank : Blank before)
    (solid : isBlank c = false) (same : before ++ more = front ++ c :: rest) :
    before.length ≤ front.length := by
  by_contra shorter
  have inside : c ∈ before := by
    have here : (before ++ more)[front.length]? = some c := by simp [same]
    rw [List.getElem?_append_left (by omega)] at here
    exact List.mem_of_getElem? here
  cases (blank c inside).symm.trans solid

theorem opensAt_iff :
    OpensAt cs before behind ↔ cs = before ++ (opening ++ behind) ∧ Blank before := by
  constructor
  · rintro ⟨first, blank⟩
    exact ⟨first.split, blank⟩
  · rintro ⟨rfl, blank⟩
    exact ⟨⟨rfl, fun front rest same => blank.length_le (c := '<') (by decide) same⟩, blank⟩

theorem closesAt_iff :
    ClosesAt cs before behind ↔ cs = before ++ (closing ++ behind) ∧ Blank behind := by
  constructor
  · rintro ⟨last, blank⟩
    exact ⟨last.split, blank⟩
  · rintro ⟨rfl, blank⟩
    refine ⟨⟨rfl, fun front rest same => ?_⟩, blank⟩
    have turned : behind.reverse ++ (closing.reverse ++ before.reverse) =
        rest.reverse ++ '>' :: ('-' :: '-' :: front.reverse) := by
      simpa [closing] using congrArg List.reverse same
    have shorter := blank.reverse.length_le (by decide) turned
    have lengths := congrArg List.length same
    simp only [List.length_reverse, List.length_append] at shorter lengths
    omega

theorem dropMarker_dropped {c : Char} (solid : isBlank c = false) (marker cs : List Char) :
    Dropped (fun before behind => cs = before ++ (c :: marker ++ behind) ∧ Blank before) cs
      (dropMarker (c :: marker) cs) := by
  rw [dropMarker]
  split
  · next behind found =>
    refine .here ⟨?_, fun c => List.mem_takeWhile_imp⟩
    rw [← after?_eq_some.mp found, List.takeWhile_append_dropWhile]
  · next absent =>
    refine .nowhere ?_
    rintro before behind ⟨rfl, blank⟩
    have rest : (before ++ (c :: marker ++ behind)).dropWhile isBlank = c :: marker ++ behind := by
      rw [List.dropWhile_append_of_pos blank]
      simp [solid]
    rw [rest, after?_eq_some.mpr rfl] at absent
    cases absent

theorem dropOpening_dropped (cs : List Char) : Dropped (OpensAt cs) cs (dropOpening cs) := by
  have dropped := dropMarker_dropped (c := '<') (by decide) ['!', '-', '-'] cs
  rw [dropOpening]
  generalize dropMarker ['<', '!', '-', '-'] cs = left at dropped ⊢
  cases dropped with
  | here found => exact .here (opensAt_iff.mpr found)
  | nowhere never => exact .nowhere fun before behind found => never _ _ (opensAt_iff.mp found)

theorem dropClosing_dropped (cs : List Char) : Dropped (ClosesAt cs) cs (dropClosing cs) := by
  have dropped := dropMarker_dropped (c := '>') (by decide) ['-', '-'] cs.reverse
  rw [dropClosing]
  generalize dropMarker ['>', '-', '-'] cs.reverse = left at dropped ⊢
  have turned (before behind : List Char) :
      cs.reverse = behind.reverse ++ (['>', '-', '-'] ++ before.reverse) ↔
        cs = before ++ (closing ++ behind) := by
    constructor
    · intro same
      have turned := congrArg List.reverse same
      simpa [closing] using turned
    · rintro rfl
      simp [closing]
  cases dropped with
  | @here behind before found =>
    rw [List.reverse_append]
    refine .here (closesAt_iff.mpr ⟨(turned _ _).mp ?_, found.2.reverse⟩)
    simpa using found.1
  | nowhere never =>
    rw [List.reverse_reverse]
    refine .nowhere fun before behind found => ?_
    obtain ⟨split, blank⟩ := closesAt_iff.mp found
    exact never _ _ ⟨(turned _ _).mpr split, blank.reverse⟩

theorem dropOpening_of_opensAt (found : OpensAt cs before behind) :
    dropOpening cs = before ++ behind :=
  (dropOpening_dropped cs).unique OpensAt.unique (.here found)

theorem dropClosing_of_closesAt (found : ClosesAt cs before behind) :
    dropClosing cs = before ++ behind :=
  (dropClosing_dropped cs).unique ClosesAt.unique (.here found)

theorem uncommented_iff {result : List Char} : result = dropClosing (dropOpening cs) ↔
    ∃ opened, Dropped (OpensAt cs) cs opened ∧ Dropped (ClosesAt opened) opened result := by
  constructor
  · rintro rfl
    exact ⟨_, dropOpening_dropped cs, dropClosing_dropped _⟩
  · rintro ⟨opened, first, second⟩
    rw [(dropOpening_dropped cs).unique OpensAt.unique first]
    exact second.unique ClosesAt.unique (dropClosing_dropped opened)

/-- What is left is the text but for one marker at each side, which do not overlap. -/
theorem uncommented_parts (cs : List Char) : ∃ before first inner last behind,
    cs = before ++ (first ++ (inner ++ (last ++ behind))) ∧
    dropClosing (dropOpening cs) = before ++ (inner ++ behind) ∧
    (first = [] ∨ first = opening ∧ Blank before) ∧
    (last = [] ∨ last = closing ∧ Blank behind) := by
  have second := dropClosing_dropped (dropOpening cs)
  have first := dropOpening_dropped cs
  generalize dropOpening cs = opened at first second ⊢
  generalize dropClosing opened = closed at second ⊢
  cases first with
  | nowhere =>
    cases second with
    | nowhere => exact ⟨[], [], cs, [], [], by simp, by simp, Or.inl rfl, Or.inl rfl⟩
    | @here inner behind found =>
      exact ⟨[], [], inner, closing, behind, found.last.split, rfl, Or.inl rfl,
        Or.inr ⟨rfl, found.blank⟩⟩
  | @here before rest found =>
    have split := found.first.split
    generalize same : before ++ rest = opened at second
    cases second with
    | nowhere =>
      refine ⟨before, opening, rest, [], [], by simpa using split, by simp [← same], ?_, Or.inl rfl⟩
      exact Or.inr ⟨rfl, found.blank⟩
    | @here front behind found' =>
      rw [found'.last.split] at same
      obtain ⟨inner, rfl⟩ : ∃ inner, front = before ++ inner := by
        have shorter := found.blank.length_le (c := '-') (by decide) same
        have starts : before <+: front :=
          List.prefix_of_prefix_length_le ⟨rest, same⟩ (List.prefix_append _ _) shorter
        exact ⟨_, starts.choose_spec.symm⟩
      rw [List.append_assoc, List.append_cancel_left_eq] at same
      exact ⟨before, opening, inner, closing, behind, by rw [split, same], by simp,
        Or.inr ⟨rfl, found.blank⟩, Or.inr ⟨rfl, found'.blank⟩⟩

/-- What a commented block becomes. A comment with white space around it becomes what is in the
comment with that white space, whatever this is. In general the first opening marker goes and
then the last closing one, where white space alone is on their outer side; a text without such
markers stays, and no text loses anything else. -/
theorem process_uncommented (block : Block) (ctx : Context) {contents : String}
    (has : block.contents = some contents) :
    ∃ text, Handler.process .uncomment block ctx = pure (.text text) ∧
    (∀ u x v, Blank u → Blank v → contents.toList = u ++ (opening ++ (x ++ (closing ++ v))) →
      text.toList = u ++ (x ++ v)) ∧
    (∀ result, result = text.toList ↔
      ∃ opened, Dropped (OpensAt contents.toList) contents.toList opened ∧
        Dropped (ClosesAt opened) opened result) ∧
    ((∀ before behind, ¬ OpensAt contents.toList before behind) →
      (∀ before behind, ¬ ClosesAt contents.toList before behind) → text = contents) ∧
    ∃ before first inner last behind,
      contents.toList = before ++ (first ++ (inner ++ (last ++ behind))) ∧
      text.toList = before ++ (inner ++ behind) ∧ (first = [] ∨ first = opening ∧ Blank before) ∧
      (last = [] ∨ last = closing ∧ Blank behind) := by
  refine ⟨String.ofList (dropClosing (dropOpening contents.toList)), ?_, ?_, ?_, ?_, ?_⟩
  · simp only [Handler.process, Uncomment.process, has]
  · intro u x v blank blank' same
    have opens : OpensAt contents.toList u (x ++ (closing ++ v)) := opensAt_iff.mpr ⟨same, blank⟩
    have closes : ClosesAt (u ++ (x ++ (closing ++ v))) (u ++ x) v :=
      closesAt_iff.mpr ⟨by simp, blank'⟩
    rw [String.toList_ofList, dropOpening_of_opensAt opens, dropClosing_of_closesAt closes,
      List.append_assoc]
  · intro result
    rw [String.toList_ofList, uncommented_iff]
  · intro opens closes
    have same := uncommented_iff.mpr ⟨contents.toList, .nowhere opens, .nowhere closes⟩
    rw [← same, String.ofList_toList]
  · rw [String.toList_ofList]
    exact uncommented_parts contents.toList

/-- A comment around an end of a comment. -/
theorem process_uncommented_ends : ∃ (block : Block) (ctx : Context) (u x v : List Char),
    block.contents = some "\n <!---->-->\t" ∧ Blank u ∧ Blank v ∧ x = closing ∧
    "\n <!---->-->\t".toList = u ++ (opening ++ (x ++ (closing ++ v))) ∧
    Handler.process .uncomment block ctx = pure (.text "\n -->\t") := by
  let block : Block := ⟨"uncomment", none, some "\n <!---->-->\t", ""⟩
  obtain ⟨text, made, outer, _⟩ := process_uncommented block ⟨⟨""⟩, ⟨""⟩, "", fun _ => true⟩ rfl
  have blank : Blank ['\n', ' '] := by simp [Blank, isBlank]
  have blank' : Blank ['\t'] := by simp [Blank, isBlank]
  have left := outer ['\n', ' '] closing ['\t'] blank blank' (by decide)
  have same : text = "\n -->\t" := String.toList_injective (left.trans (by decide))
  exact ⟨block, _, _, _, _, rfl, blank, blank', rfl, by decide, same ▸ made⟩

end AssetBlocks.Uncomment
