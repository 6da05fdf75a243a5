import AssetBlocks.Proofs.Lines
import AssetBlocks.Proofs.Seams

/-! Documents processed again. A text without directives is left as it is, with nothing to
report; what a document becomes is such a text unless a directive is put together at one of
its seams. Where directives stand on lines of their own, no seam is inside a line. -/
namespace AssetBlocks
open Text Pairing Directive

namespace Text

/-- A text that goes on behind the end of a line. -/
def StartsLine (cs : List Char) : Prop := cs = [] ∨ cs.head? = some '\n'

instance (cs : List Char) : Decidable (StartsLine cs) :=
  inferInstanceAs (Decidable (cs = [] ∨ cs.head? = some '\n'))

theorem startsLine_append {cs : List Char} (nonempty : cs ≠ []) (more : List Char) :
    StartsLine (cs ++ more) ↔ StartsLine cs := by
  cases cs with
  | nil => exact absurd rfl nonempty
  | cons c cs => simp [StartsLine]

theorem endsLine_append {more : List Char} (nonempty : more ≠ []) (cs : List Char) :
    EndsLine (cs ++ more) ↔ EndsLine more := by
  obtain ⟨front, last, rfl⟩ := more.eq_nil_or_concat'.resolve_left nonempty
  simp [EndsLine]

end Text

namespace Processor
variable {p : Processor} {m : Match Directive} {ms part : List (Match Directive)}
  {tail rest left right : List Char} {result document output : String}

/-- Every begin tag is the first thing on its line, and the end of every block the last. -/
def OwnLines (ms : List (Match Directive)) (tail : List Char) : Prop :=
  ∀ i : Fin ms.length,
    (closes ms[i] = false → EndsLine (covered (ms.take i) ++ ms[i].before)) ∧
    (opens ms[i] = false → StartsLine (covered (ms.drop (i + 1)) ++ tail))

instance (ms : List (Match Directive)) (tail : List Char) : Decidable (OwnLines ms tail) := by
  unfold OwnLines
  infer_instance

theorem OwnLines.around {pre post : List (Match Directive)} (own : OwnLines ms tail)
    (split : ms = pre ++ m :: post) :
    (closes m = false → EndsLine (covered pre ++ m.before)) ∧
    (opens m = false → StartsLine (covered post ++ tail)) := by
  subst split
  simpa using own ⟨pre.length, by simp⟩

theorem Part.around (within : Part ms tail part rest) :
    ∃ pre post, ms = pre ++ (part ++ post) ∧
      (post = [] ∧ rest = tail ∨ ∃ close behind, post = close :: behind ∧ rest = close.before) := by
  induction within with
  | whole => exact ⟨[], [], by simp, Or.inl ⟨rfl, rfl⟩⟩
  | @contents outer inner behind part m close tail rest _ _ ih =>
    obtain ⟨pre, post, rfl, ends⟩ := ih
    refine ⟨outer ++ m :: pre, post ++ close :: behind, by simp, Or.inr ?_⟩
    rcases ends with ⟨rfl, rfl⟩ | ⟨close', behind', rfl, rfl⟩
    · exact ⟨close, behind, rfl, rfl⟩
    · exact ⟨close', _, rfl, rfl⟩

theorem Rewritten.closed (rewritten : Rewritten p ms result) : Closed ms := by
  induction rewritten with
  | nil => exact .of_level .nil
  | @stray m ms _ value _ ih => exact Closed.append (.of_closes (closes_of_value value)) ih
  | @single m ms _ _ _ value alone _ _ ih =>
    have self : Level [m] := .single (by simp [opens, value, alone]) (by simp [closes, value])
    exact (Closed.of_level self).append ih
  | @block m close ms inner behind _ _ _ _ _ split paired _ _ _ _ ih =>
    obtain ⟨o, c, between⟩ := paired_iff.mp paired
    have whole := (Closed.of_level (between.block o c)).append ih
    rw [split]
    simpa using whole

theorem Rewritten.starts (rewritten : Rewritten p (m :: ms) result) :
    ∃ more, result = String.ofList m.before ++ more := by
  cases rewritten with
  | stray => exact ⟨_, String.append_assoc ..⟩
  | single => exact ⟨_, String.append_assoc ..⟩
  | block => exact ⟨_, String.append_assoc ..⟩

theorem eq_nil_of_endsLine (texts : ∀ m ∈ ms, m.text ≠ [] ∧ '\n' ∉ m.text)
    (ends : EndsLine (covered ms)) : ms = [] := by
  rcases ms.eq_nil_or_concat' with rfl | ⟨ms, m, rfl⟩
  · rfl
  · obtain ⟨nonempty, unbroken⟩ := texts m (by simp)
    have whole : covered (ms ++ [m]) = covered ms ++ m.before ++ m.text := by
      simp [covered]
    rw [whole, endsLine_append nonempty] at ends
    rcases ends with empty | last
    · exact absurd empty nonempty
    · exact absurd (List.mem_of_getLast? last) unbroken

theorem OwnLines.uncrossed (own : OwnLines ms tail)
    (texts : ∀ m ∈ ms, m.text ≠ [] ∧ '\n' ∉ m.text) : Uncrossed p ms tail := by
  intro part rest left right within seam
  have unbroken := p.tag.newline_notMem
  obtain ⟨pre, post, split, ends⟩ := within.around
  cases seam with
  | @before first later m _ result _ value done _ =>
    have around : ms = pre ++ first ++ m :: (later ++ post) := by simp [split]
    have lines := (own.around around).1 (by simp [closes, value])
    apply Crosses.not_of_newline unbroken
    by_cases empty : m.before = []
    · rw [empty, List.append_nil] at lines ⊢
      have vanishes := eq_nil_of_endsLine (fun n inside => ?_) lines
      · obtain ⟨_, rfl⟩ := List.append_eq_nil_iff.mp vanishes
        cases done
        exact Or.inl rfl
      · rcases List.mem_append.mp inside with inside | inside <;>
          exact texts n (by simp [split, inside])
    · rw [endsLine_append empty] at lines ⊢
      exact lines
  | @behind first later result more nonempty done further =>
    apply Crosses.not_of_newline_behind unbroken
    obtain ⟨front, last, rfl⟩ := first.eq_nil_or_concat'.resolve_left nonempty
    have ended : opens last = false := by
      have least := done.closed front [last] rfl
      by_contra opened
      rw [depth_of_opens (by simpa using opened), depth_nil] at least
      omega
    have around : ms = pre ++ front ++ last :: (later ++ post) := by simp [split]
    have lines := (own.around around).2 ended
    cases later with
    | nil =>
      cases further
      rcases ends with ⟨rfl, rfl⟩ | ⟨close, behind, rfl, rfl⟩
      · exact lines
      · rw [List.nil_append, covered_cons, List.append_assoc] at lines
        by_cases empty : close.before = []
        · exact Or.inl empty
        · exact (startsLine_append empty _).mp lines
    | cons next later =>
      obtain ⟨behind, rfl⟩ := further.starts
      obtain ⟨nonempty, unbroken⟩ := texts next (by simp [split])
      rw [List.cons_append, covered_cons, List.append_assoc] at lines
      have gap : next.before ≠ [] := by
        intro empty
        rw [empty, List.nil_append, List.append_assoc, startsLine_append nonempty] at lines
        rcases lines with empty | first
        · exact nonempty empty
        · exact unbroken (List.mem_of_head? first)
      rw [startsLine_append gap] at lines
      rw [String.toList_append, String.toList_ofList, List.append_assoc]
      exact (startsLine_append gap _).mpr lines

theorem Reported.level {outside : Bool} {entries : List Entry}
    (reported : Reported p outside ms entries) (paired : ∀ entry ∈ entries, entry.isStray = false) :
    Level ms := by
  induction reported with
  | nil => exact .nil
  | append _ _ ih ih' =>
    have first := ih fun entry inside => paired entry (by simp [inside])
    have second := ih' fun entry inside => paired entry (by simp [inside])
    exact first.append second
  | stray line value => cases paired _ (List.mem_singleton.mpr rfl)
  | single value alone => exact .single (by simp [opens, value, alone]) (by simp [closes, value])
  | block value pair _ _ _ =>
    obtain ⟨o, c, between⟩ := paired_iff.mp pair
    exact between.block o c

theorem rewritten_level (processed : (p.process document).outcome = .ok output)
    (paired : ∀ line text, strayMessage line text ∉ Event.warnings (p.process document).events) :
    ∃ result, Rewritten p (p.tag.scan document).1 result ∧ Level (p.tag.scan document).1 ∧
      output = result ++ String.ofList (p.tag.scan document).2 := by
  obtain ⟨result, rewritten, made⟩ := rewritten_of_ok processed
  have ends := p.process_ends document
  rw [processed] at ends
  obtain ⟨s, all, outside, _⟩ := ends.of_ok
  obtain ⟨entries, same, told, _⟩ := all.told
  rw [outside] at told
  refine ⟨result, rewritten, told.of_outside.level ?_, made⟩
  intro entry inside
  cases entry with
  | stray line text =>
    refine absurd ?_ (paired line text)
    apply List.mem_filterMap.mpr
    refine ⟨.warning (strayMessage line text), ?_, rfl⟩
    rw [same]
    exact List.mem_flatMap.mpr ⟨_, inside, List.mem_singleton.mpr rfl⟩
  | _ => rfl

theorem process_free (p : Processor) {text : String} (free : p.tag.occursIn text = false) :
    p.process text = ⟨[], [], .ok text⟩ := by
  have absent : p.tag.pattern.next? true text.toList = none := by
    simpa [Tag.occursIn, Pattern.contains] using free
  have scan : p.tag.scan text = ([], text.toList) := Pattern.all_none absent
  simp [process, scan, run, finish, State.start, pure, Log.ok]

theorem process_occurs (p : Processor) {text : String} (occurs : p.tag.occursIn text = true) :
    (p.process text).events ≠ [] := by
  obtain ⟨⟨m, rest⟩, found⟩ : ∃ found, p.tag.pattern.next? true text.toList = some found := by
    simpa [Tag.occursIn, Pattern.contains, Option.isSome_iff_exists] using occurs
  have scan := Pattern.all_some found
  have first : (p.step State.start m).events ≠ [] := by
    have move := p.step_move State.start m
    generalize (p.step State.start m).events = events at move ⊢
    generalize (p.step State.start m).outcome = outcome at move
    cases move with
    | closed _ inside _ => cases inside
    | closeFailed _ inside _ => cases inside
    | _ => simp
  change (p.run State.start (p.tag.pattern.all true text.toList).1 _).events ≠ []
  rw [scan, run]
  cases made : (p.step State.start m).outcome with
  | error e =>
    rw [Log.bind_of_error made]
    exact first
  | ok next =>
    rw [Log.bind_of_ok made]
    simp [first]

theorem Seam.occurs (seam : Seam p tail ms left right) (rewritten : Rewritten p ms result)
    (crosses : Crosses p.tag.name.toList left right) :
    Occurs p.tag.name.toList (result.toList ++ tail) := by
  obtain ⟨x, y, _, _, ends, starts, written⟩ := crosses
  have whole : left ++ right = result.toList ++ tail := by
    cases seam with
    | before value done further =>
      rw [rewritten.unique (done.append further)]
      simp
    | behind nonempty done further =>
      rw [rewritten.unique (done.append further)]
      simp
  obtain ⟨front, rfl⟩ := ends
  obtain ⟨behind, rfl⟩ := starts
  exact ⟨x ++ y, written, front, behind, by simpa using whole⟩

/-- A document that becomes a text with the built-in handlers and no end tag left over. What
it becomes has directives only if one is put together across a seam, of the document or of
the contents of a block in it; across a seam of the document itself, each one stays. Without
any, the text becomes itself with nothing to report, and with one there is a report. Where
all directives are on lines of their own, none is put together. -/
theorem process_again (builtin : p.registry.Builtin) {document output : String}
    (processed : (p.process document).outcome = .ok output)
    (paired : ∀ line text, strayMessage line text ∉ Event.warnings (p.process document).events) :
    (p.tag.occursIn output = false → p.process output = ⟨[], [], .ok output⟩) ∧
    (p.tag.occursIn output = true → (p.process output).events ≠ [] ∧
      ∃ part rest left right, Part (p.tag.scan document).1 (p.tag.scan document).2 part rest ∧
        Seam p rest part left right ∧ Crosses p.tag.name.toList left right) ∧
    (∀ left right, Seam p (p.tag.scan document).2 (p.tag.scan document).1 left right →
      Crosses p.tag.name.toList left right → p.tag.occursIn output = true) ∧
    (OwnLines (p.tag.scan document).1 (p.tag.scan document).2 → p.tag.occursIn output = false) := by
  obtain ⟨result, rewritten, level, rfl⟩ := rewritten_level processed paired
  have occurs : p.tag.occursIn (result ++ String.ofList (p.tag.scan document).2) = true ↔
      Occurs p.tag.name.toList (result.toList ++ (p.tag.scan document).2) := by
    rw [Tag.occursIn_iff, String.toList_append, String.toList_ofList]
  have free (uncrossed : Uncrossed p (p.tag.scan document).1 (p.tag.scan document).2) :
      p.tag.occursIn (result ++ String.ofList (p.tag.scan document).2) = false := by
    have without := rewritten.free builtin level (fun m found => Tag.scan_finds found) .nil
      uncrossed (p.tag.all_free true document.toList).2
    exact Bool.eq_false_iff.mpr fun occurring => without (occurs.mp occurring)
  refine ⟨p.process_free, fun occurring => ⟨p.process_occurs occurring, ?_⟩, ?_, ?_⟩
  · by_contra other
    have uncrossed : Uncrossed p (p.tag.scan document).1 (p.tag.scan document).2 :=
      fun part rest left right within seam crosses =>
        other ⟨part, rest, left, right, within, seam, crosses⟩
    cases occurring.symm.trans (free uncrossed)
  · intro left right seam crosses
    exact occurs.mpr (seam.occurs rewritten crosses)
  · intro own
    exact free (own.uncrossed fun m found => ⟨Tag.scan_ne_nil found, Tag.scan_inline found⟩)

/-- A block in the middle of a comment leaves a directive; on lines of their own, blocks in
a comment leave none. -/
theorem process_again_comment :
    ∃ p : Processor, ∃ first second output output' : String, p.registry.Builtin ∧
      first = "<!--<!--build:note/-->build:note/-->" ∧ output = "<!--build:note/-->" ∧
      (p.process first).outcome = .ok output ∧ (p.process output).events ≠ [] ∧
      (∃ part rest left right, Part (p.tag.scan first).1 (p.tag.scan first).2 part rest ∧
        Seam p rest part left right ∧ Crosses p.tag.name.toList left right) ∧
      second = "<!--\n<!--build:uncomment-->\n<!--build:note/-->\n<!--endbuild-->\n-->" ∧
      output' = "<!--\n\n\n\n-->" ∧ (p.process second).outcome = .ok output' ∧
      p.process output' = ⟨[], [], .ok output'⟩ := by
  have paired {events : List Event} (silent : Event.warnings events = []) :
      ∀ line text, strayMessage line text ∉ Event.warnings events := by
    intro line text inside
    rw [silent] at inside
    cases inside
  have builtin : (standard fun _ => true).registry.Builtin := Registry.withBuiltins_builtin
  have made : ((standard fun _ => true).process "<!--<!--build:note/-->build:note/-->").outcome =
      .ok "<!--build:note/-->" := by decide +kernel
  have made' : ((standard fun _ => true).process
      "<!--\n<!--build:uncomment-->\n<!--build:note/-->\n<!--endbuild-->\n-->").outcome =
      .ok "<!--\n\n\n\n-->" := by decide +kernel
  obtain ⟨_, again, _, _⟩ := process_again builtin made (paired (by decide +kernel))
  obtain ⟨reported, crossed⟩ := again (by decide +kernel)
  obtain ⟨stays, _, _, lines⟩ := process_again builtin made' (paired (by decide +kernel))
  exact ⟨_, _, _, _, _, builtin, rfl, rfl, made, reported, crossed, rfl, rfl, made',
    stays (lines (by decide +kernel))⟩

end Processor
end AssetBlocks
