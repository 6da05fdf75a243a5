import AssetBlocks.Proofs.Steps

/-! The handlers that are called while a document is processed. Only they ask for files and
only they give work to build tools; so what a run asks for and the work it gives are those of
its calls, one behind the other, whether the run succeeds or not. -/
namespace AssetBlocks
open Text

def Report.instruction? : Report → Option Instruction
  | instruction i => some i
  | _ => none

theorem Event.instructions_reports (reports : List Report) :
    instructions (reports.map Report.event) = reports.filterMap Report.instruction? := by
  rw [instructions, List.filterMap_map]
  congr 1
  funext report
  cases report <;> rfl

namespace Processor
variable {p : Processor} {met : BeginTag → Prop} {ε α β : Type}

theorem mem_reports {tag : BeginTag} {contents : Option String} {report : Report}
    (inside : report ∈ p.reports tag contents) :
    ∃ handling, p.handling? tag contents = some handling ∧ report ∈ handling.events := by
  unfold reports at inside
  cases handled : p.handling? tag contents with
  | none => simp [handled] at inside
  | some handling => exact ⟨handling, rfl, by simpa [handled] using inside⟩

/-- A block as it is given to its handler. -/
structure Call where
  tag : BeginTag
  contents : Option String

namespace Call

def asked (p : Processor) (c : Call) : List Path :=
  ((p.handling? c.tag c.contents).map Log.asked).getD []

def work (p : Processor) (c : Call) : List Instruction :=
  (p.reports c.tag c.contents).filterMap Report.instruction?

theorem mem_work {c : Call} {i : Instruction} (given : i ∈ c.work p) :
    ∃ handling, p.handling? c.tag c.contents = some handling ∧
      Report.instruction i ∈ handling.events := by
  obtain ⟨report, inside, same⟩ := List.mem_filterMap.mp given
  obtain rfl : report = .instruction i := by
    cases report <;> simp_all [Report.instruction?]
  exact mem_reports inside

theorem mem_asked {c : Call} {q : Path} (given : q ∈ c.asked p) :
    ∃ handling, p.handling? c.tag c.contents = some handling ∧ q ∈ handling.asked := by
  unfold asked at given
  cases handled : p.handling? c.tag c.contents with
  | none => simp [handled] at given
  | some handling => exact ⟨handling, rfl, by simpa [handled] using given⟩

end Call

/-- The calls that a computation makes, with all that it asks for and all its work. -/
structure Calls (p : Processor) (t : Log Event ε α) (calls : List Call) : Prop where
  asked : t.asked = calls.flatMap (Call.asked p)
  work : Event.instructions t.events = calls.flatMap (Call.work p)

/-- All calls are for begin tags that have been met, and what is made is as it is said to be. -/
structure Proceeds (p : Processor) (met : BeginTag → Prop) (t : Log Event ε α)
    (post : α → Prop) : Prop where
  calls : ∃ calls, Calls p t calls ∧ ∀ c ∈ calls, met c.tag
  makes : t.Makes post

namespace Proceeds
variable {mid : α → Prop} {post : β → Prop}

theorem pure {a : α} (holds : mid a) : Proceeds p met (Pure.pure a : Log Event ε α) mid :=
  ⟨⟨[], ⟨rfl, rfl⟩, by simp⟩, Log.makes_pure holds⟩

theorem fail (e : ε) : Proceeds p met (Log.fail e : Log Event ε α) mid :=
  ⟨⟨[], ⟨rfl, rfl⟩, by simp⟩, fun _ made => by cases made⟩

theorem emit {event : Event} (silent : event.instruction? = none) :
    Proceeds p met (Log.emit event : Log Event ε Unit) fun _ => True :=
  ⟨⟨[], ⟨rfl, List.filterMap_cons_none silent⟩, by simp⟩, fun _ _ => trivial⟩

theorem bind {t : Log Event ε α} {next : α → Log Event ε β} (first : Proceeds p met t mid)
    (second : ∀ a, mid a → Proceeds p met (next a) post) : Proceeds p met (t >>= next) post := by
  refine ⟨?_, first.makes.bind fun a holds => (second a holds).makes⟩
  obtain ⟨calls, here, tags⟩ := first.calls
  cases ended : t.outcome with
  | error e =>
    rw [Log.bind_of_error ended]
    exact ⟨calls, ⟨here.asked, here.work⟩, tags⟩
  | ok a =>
    obtain ⟨more, there, tags'⟩ := (second a (first.makes a ended)).calls
    rw [Log.bind_of_ok ended]
    refine ⟨calls ++ more, ⟨?_, ?_⟩, ?_⟩
    · simp only [here.asked, there.asked, List.flatMap_append]
    · simp only [Event.instructions_append, here.work, there.work, List.flatMap_append]
    · intro c inside
      exact (List.mem_append.mp inside).elim (tags c) (tags' c)

theorem emit_bind {event : Event} (silent : event.instruction? = none)
    {next : Unit → Log Event ε β} (second : Proceeds p met (next ()) post) :
    Proceeds p met (Log.emit event >>= next) post :=
  (emit silent).bind fun _ _ => second

end Proceeds

theorem dispatch_proceeds {tag : BeginTag} (known : met tag) (contents : Option String) :
    Proceeds p met (p.dispatch tag contents) fun _ => True := by
  refine ⟨⟨[⟨tag, contents⟩], ⟨?_, ?_⟩, by simpa using known⟩, fun _ _ => trivial⟩
  · simp only [List.flatMap_singleton, Call.asked, handling?, dispatch]
    cases p.registry.get? tag.kind with
    | none => rfl
    | some handler =>
      simp only [Option.map_some, Option.getD_some, Log.map]
      cases made : (handler.process ⟨tag.kind, tag.args, contents, tag.indent⟩ p.context).outcome with
      | error e => rw [Log.bind_of_error made]
      | ok replacement =>
        rw [Log.bind_of_ok made]
        simp [Pure.pure, Log.ok]
  · rw [p.dispatch_events tag contents, Event.instructions_reports, List.flatMap_singleton]
    rfl

def State.Met (met : BeginTag → Prop) (s : State) : Prop := ∀ top ∈ s.stack, met top.tag

theorem State.Met.write {s : State} (stack : s.Met met) (text : String) :
    (s.write text).Met met := by
  obtain ⟨_ | ⟨top, rest⟩, output, line⟩ := s
  · exact stack
  · intro other inside
    rcases List.mem_cons.mp inside with rfl | inside
    · exact stack top (by simp)
    · exact stack other (List.mem_cons_of_mem _ inside)

theorem step_proceeds {s : State} {m : Match Directive} (stack : s.Met met)
    (here : ∀ tag, m.value = .opening tag → met tag) :
    Proceeds p met (p.step s m) (State.Met met) := by
  have passed : (s.advance m.before).Met met := stack.write _
  cases value : m.value with
  | opening tag =>
    simp only [step, value, openBlock]
    split
    · refine .emit_bind rfl ((dispatch_proceeds (here tag value) none).bind fun text _ => ?_)
      exact .pure (passed.write _)
    · refine .emit_bind rfl (.pure ?_)
      intro top inside
      rcases List.mem_cons.mp inside with rfl | inside
      · exact here tag value
      · exact passed top inside
  | closing =>
    simp only [step, value, closeBlock]
    split
    · exact .emit_bind rfl (.pure (passed.write _))
    · next top rest same =>
      have inside : met top.tag ∧ ∀ other ∈ rest, met other.tag := by
        simpa [State.Met, same] using passed
      refine (dispatch_proceeds inside.1 _).bind fun text _ => .emit_bind rfl (.pure ?_)
      have left : State.Met met { s.advance m.before with stack := rest } := inside.2
      exact left.write _

theorem run_proceeds {s : State} {ms : List (Match Directive)} (tail : List Char)
    (stack : s.Met met) (behind : ∀ m ∈ ms, ∀ tag, m.value = .opening tag → met tag) :
    Proceeds p met (p.run s ms tail) fun _ => True := by
  induction ms generalizing s with
  | nil =>
    simp only [run, finish]
    split
    · exact .pure trivial
    · exact .fail _
  | cons m ms ih =>
    refine (step_proceeds stack (behind m (by simp))).bind fun next kept => ?_
    exact ih kept fun other inside => behind other (by simp [inside])

/-- All that is asked for and all the work of a run comes from calls of handlers for the begin
tags of the document. -/
theorem process_calls (p : Processor) (document : String) :
    ∃ calls, Calls p (p.process document) calls ∧ ∀ c ∈ calls,
      ∃ m ∈ (p.tag.scan document).1, m.value = .opening c.tag := by
  let met : BeginTag → Prop := fun tag => ∃ m ∈ (p.tag.scan document).1, m.value = .opening tag
  have start : State.start.Met met := fun _ inside => by cases inside
  have runs : Proceeds p met (p.process document) fun _ => True :=
    run_proceeds _ start fun m inside _ value => ⟨m, inside, value⟩
  exact runs.calls

end Processor
end AssetBlocks
