import AssetBlocks.Proofs.Replacement
import AssetBlocks.Proofs.Report

/-! Documents processed again. What the built-in handlers make has no directive in it, and
nor has the text between directives; but where the one is put next to the other there is a
seam, and what has been put together is not gone through again. A directive is left in a
text exactly by being put together across a seam. -/
namespace AssetBlocks
open Text Pairing Directive

/-- What a scan finds: the text before it has no directive, and nor have its arguments. -/
structure Tag.Finds (tag : Tag) (m : Match Directive) : Prop where
  before : Free tag.name.toList m.before
  indent : ∀ t, m.value = .opening t → ∀ c ∈ t.indent.toList, isGap c = true
  args : ∀ t, m.value = .opening t → Free tag.name.toList (t.args.getD "").toList

theorem Tag.scan_finds {tag : Tag} {document : String} {m : Match Directive}
    (found : m ∈ (tag.scan document).1) : tag.Finds m := by
  refine ⟨(tag.all_free true document.toList).1 m found, ?_, ?_⟩
  · intro t value
    obtain ⟨pre, post, split⟩ := List.append_of_mem found
    obtain ⟨_, _, _, indents, _⟩ := scan_opening split value
    exact indents
  · intro t value
    cases has : t.args with
    | none => exact .nil
    | some args => exact scan_arguments_free found value has

namespace Processor
variable {p : Processor} {m close : Match Directive} {ms first rest : List (Match Directive)}
  {tail left right : List Char} {result : String}

/-- The directives of a document, or those between the tags of a block in it, with the text
behind them. -/
inductive Part : List (Match Directive) → List Char → List (Match Directive) → List Char → Prop
  | whole {ms : List (Match Directive)} {tail : List Char} : Part ms tail ms tail
  | contents {outer inner behind part : List (Match Directive)} {m close : Match Directive}
      {tail rest : List Char} (paired : Paired m inner close)
      (inside : Part inner close.before part rest) :
      Part (outer ++ m :: (inner ++ close :: behind)) tail part rest

/-- The two texts that are put together before a block is put down, or behind it. -/
inductive Seam (p : Processor) (tail : List Char) :
    List (Match Directive) → List Char → List Char → Prop
  | before {first rest : List (Match Directive)} {m : Match Directive} {tag : BeginTag}
      {result more : String} (value : m.value = .opening tag) (done : Rewritten p first result)
      (left : Rewritten p (m :: rest) (String.ofList m.before ++ more)) :
      Seam p tail (first ++ m :: rest) (result.toList ++ m.before) (more.toList ++ tail)
  | behind {first rest : List (Match Directive)} {result more : String} (nonempty : first ≠ [])
      (done : Rewritten p first result) (left : Rewritten p rest more) :
      Seam p tail (first ++ rest) result.toList (more.toList ++ tail)

def Uncrossed (p : Processor) (ms : List (Match Directive)) (tail : List Char) : Prop :=
  ∀ part rest left right, Part ms tail part rest → Seam p rest part left right →
    ¬ Crosses p.tag.name.toList left right

theorem Uncrossed.contents {outer inner behind : List (Match Directive)}
    (uncrossed : Uncrossed p (outer ++ m :: (inner ++ close :: behind)) tail)
    (paired : Paired m inner close) : Uncrossed p inner close.before :=
  fun part rest left right within => uncrossed part rest left right (.contents paired within)

/-- A block with the text around it, where the three have no directive in them and none is
put together at the two seams. -/
theorem Uncrossed.free_block {more : List (Match Directive)} {tag : BeginTag}
    {before standing : String} (uncrossed : Uncrossed p (first ++ (m :: more ++ rest)) tail)
    (value : m.value = .opening tag) (done : Rewritten p first before)
    (block : Rewritten p (m :: more) (String.ofList m.before ++ standing))
    (further : Rewritten p rest result) (gap : Free p.tag.name.toList m.before)
    (made : Free p.tag.name.toList standing.toList)
    (behind : Free p.tag.name.toList (result.toList ++ tail)) :
    Free p.tag.name.toList ((String.ofList m.before ++ standing ++ result).toList ++ tail) := by
  have apart : ¬ Crosses p.tag.name.toList m.before
      (standing.toList ++ (result.toList ++ tail)) := by
    intro crosses
    have all := block.append further
    rw [String.append_assoc] at all
    have seam : Seam p tail (first ++ m :: (more ++ rest)) _ _ := .before value done all
    rw [String.toList_append, List.append_assoc] at seam
    exact uncrossed _ _ _ _ .whole seam crosses.mono
  have closed : ¬ Crosses p.tag.name.toList standing.toList (result.toList ++ tail) := by
    intro crosses
    have seam : Seam p tail (first ++ m :: more ++ rest) _ _ :=
      .behind (by simp) (done.append block) further
    rw [List.append_assoc] at seam
    refine uncrossed _ _ _ _ .whole seam ?_
    rw [String.toList_append, String.toList_append, ← List.append_assoc]
    exact crosses.mono
  have parts : (String.ofList m.before ++ standing ++ result).toList ++ tail =
      m.before ++ (standing.toList ++ (result.toList ++ tail)) := by simp
  rw [parts]
  exact .append gap (.append made behind closed) apart

theorem free_standing {t : BeginTag} {contents : Option String} {text : String}
    (finds : p.tag.Finds m) (value : m.value = .opening t) (builtin : p.registry.Builtin)
    (becomes : p.Becomes t contents text)
    (inside : Free p.tag.name.toList (contents.getD "").toList) :
    Free p.tag.name.toList (t.indent ++ text).toList := by
  have made := becomes.free builtin (finds.indent t value) (finds.args t value) inside
  rw [String.toList_append]
  exact free_blank_append (fun c inside => isBlank_of_isGap (finds.indent t value c inside)) made

/-- Directives whose blocks are all closed become a text without one, unless one is put
together at a seam. -/
theorem Rewritten.free (rewritten : Rewritten p ms result) (builtin : p.registry.Builtin)
    (level : Level ms) (finds : ∀ m ∈ ms, p.tag.Finds m) {before : String}
    (done : Rewritten p first before) (uncrossed : Uncrossed p (first ++ ms) tail)
    (left : Free p.tag.name.toList tail) :
    Free p.tag.name.toList (result.toList ++ tail) := by
  induction rewritten generalizing first before tail with
  | nil => exact left
  | stray value _ _ => cases level.not_closes.symm.trans (closes_of_value value)
  | @single m ms tag text result value alone becomes further ih =>
    have self : Level [m] := .single (by simp [opens, value, alone]) (by simp [closes, value])
    have block := Rewritten.single value alone becomes .nil
    rw [String.append_empty] at block
    have found := finds m (by simp)
    have whole : Level ([m] ++ ms) := level
    have behind := ih (whole.of_append self)
      (fun n inside => finds n (by simp [inside])) (done.append block)
      (by simpa using uncrossed) left
    exact uncrossed.free_block value done block further found.before
      (free_standing found value builtin becomes .nil) behind
  | @block m close ms inner after tag contents text result value split paired inside becomes
      further ihInside ihFurther =>
    subst split
    obtain ⟨o, c, between⟩ := paired_iff.mp paired
    have within : ∀ n, n ∈ inner ∨ n = close ∨ n ∈ after → p.tag.Finds n := by
      intro n inside
      exact finds n (by simpa using Or.inr inside)
    have found := finds m (by simp)
    have whole : m :: (inner ++ close :: after) = m :: (inner ++ [close]) ++ after := by simp
    have block : Rewritten p (m :: (inner ++ [close])) _ :=
      .block value (by simp) paired inside becomes .nil
    rw [String.append_empty] at block
    have free := ihInside between (fun n inside => within n (Or.inl inside)) .nil
      (uncrossed.contents paired) (within close (by simp)).before
    rw [whole] at uncrossed level
    have behind := ihFurther (level.of_append (between.block o c))
      (fun n inside => within n (by simp [inside])) (done.append block)
      (by simpa using uncrossed) left
    refine uncrossed.free_block value done block further found.before ?_ behind
    exact free_standing found value builtin becomes (by simpa using free)

end Processor
end AssetBlocks
