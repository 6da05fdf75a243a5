import AssetBlocks.Command.Plan
import AssetBlocks.Proofs.Report

/-! The figures of a check. They are counted up while a document is processed and no event is
kept, and still they are those of the events that a build keeps. Blocks are counted where they
end; as many have been ended as have been begun, less those that are still open. -/
namespace AssetBlocks

namespace Event

def finishesBlock : Event → Bool
  | blockEnd .. | blockSingle .. => true
  | _ => false

theorem finishesBlock_report (report : Report) : report.event.finishesBlock = false := by
  cases report <;> rfl

@[simp] theorem countP_finishesBlock_reports (reports : List Report) :
    (reports.map Report.event).countP finishesBlock = 0 := by
  rw [List.countP_eq_length_filter, filter_reports finishesBlock_report, List.length_nil]

end Event

namespace Command.Tally

theorem add_eq (t : Tally) (event : Event) : t.add event =
    ⟨t.blocks + [event].countP Event.finishesBlock,
      t.instructions + (Event.instructions [event]).length,
      t.warnings ++ Event.warnings [event]⟩ := by
  obtain ⟨blocks, instructions, warnings⟩ := t
  cases event <;> simp [add, Event.instructions, Event.warnings, Event.instruction?,
    Event.warning?, Event.finishesBlock, List.filterMap_cons]

theorem foldl_add (t : Tally) (events : List Event) : events.foldl add t =
    ⟨t.blocks + events.countP Event.finishesBlock,
      t.instructions + (Event.instructions events).length,
      t.warnings ++ Event.warnings events⟩ := by
  induction events generalizing t with
  | nil => simp [Event.instructions, Event.warnings]
  | cons event events ih =>
    have split : event :: events = [event] ++ events := rfl
    rw [List.foldl_cons, ih, add_eq, split, List.countP_append, Event.instructions_append,
      Event.warnings_append, List.length_append]
    simp only [Nat.add_assoc, List.append_assoc]

theorem ofEvents_eq (events : List Event) : ofEvents events =
    ⟨events.countP Event.finishesBlock, (Event.instructions events).length,
      Event.warnings events⟩ := by
  rw [ofEvents, foldl_add]
  simp [zero]

end Command.Tally

namespace Processor
open Text
variable {p : Processor} {s s' : State} {m : Match Directive} {events : List Event}

def isBegin (m : Match Directive) : Bool :=
  match m.value with
  | .opening _ => true
  | .closing => false

theorem countP_isBegin_opening {tag : BeginTag} (value : m.value = .opening tag) :
    [m].countP isBegin = 1 := by
  simp [isBegin, value]

theorem countP_isBegin_closing (value : m.value = .closing) : [m].countP isBegin = 0 := by
  simp [isBegin, value]

theorem Move.finishes (move : Move p s m events (.ok s')) :
    events.countP Event.finishesBlock + s'.stack.length =
      s.stack.length + [m].countP isBegin := by
  generalize ended : Except.ok s' = outcome at move
  cases move with
  | opened value more =>
    obtain rfl := Except.ok.inj ended
    have depth : (s.advance m.before).stack.length = s.stack.length := s.advance_depth _
    rw [countP_isBegin_opening value, State.enter, List.length_cons, depth]
    exact Nat.zero_add _
  | single value alone becomes =>
    obtain rfl := Except.ok.inj ended
    rw [countP_isBegin_opening value, List.countP_cons_of_pos rfl,
      Event.countP_finishesBlock_reports, State.write_depth, State.advance_depth, Nat.zero_add,
      Nat.add_comm]
  | singleFailed => cases ended
  | stray value outside =>
    obtain rfl := Except.ok.inj ended
    rw [countP_isBegin_closing value, State.write_depth, State.advance_depth, Nat.add_zero]
    exact Nat.zero_add _
  | closed value inside becomes =>
    obtain rfl := Except.ok.inj ended
    rw [countP_isBegin_closing value, List.countP_append, Event.countP_finishesBlock_reports,
      State.write_depth, inside, List.length_cons, Nat.zero_add, Nat.add_comm]
    rfl
  | closeFailed => cases ended

theorem Reaches.finishes {done : List (Match Directive)} (reached : Reaches p done events s) :
    events.countP Event.finishesBlock + s.stack.length = done.countP isBegin := by
  induction reached with
  | start => rfl
  | step before move ih =>
    have one := move.finishes
    rw [List.countP_append, List.countP_append]
    omega

/-- Of a document that becomes a text, as many blocks are finished as it has begin tags. -/
theorem process_finishes {document output : String}
    (made : (p.process document).outcome = .ok output) :
    (p.process document).events.countP Event.finishesBlock =
      (p.tag.scan document).1.countP isBegin := by
  have ends := p.process_ends document
  rw [made] at ends
  obtain ⟨s, all, outside, _⟩ := ends.of_ok
  have finished := all.finishes
  rwa [outside, List.length_nil, Nat.add_zero] at finished

end Processor
end AssetBlocks
