import AssetBlocks.Proofs.References
import AssetBlocks.Proofs.Replacement
import AssetBlocks.Proofs.Report

/-! Where the work of a document leads to and which files it asks for: the first is below the
base directory, at the place that a tag in the resulting document refers to, and the second are
below the source directory. -/
namespace AssetBlocks
open Text Pairing

/-- All work leads to where a tag among the new lines refers to, and all that is asked for is
an asset. -/
structure Context.Contains (ctx : Context) (t : Trace HandlerError Replacement) : Prop where
  work : ∀ i, Report.instruction i ∈ t.events → ∃ short lines, t.outcome = .ok (.lines lines) ∧
    (scriptTag short ∈ lines ∨ Stylesheets.linkTag short ∈ lines) ∧
    i.dest = (ctx.destination short).full
  asked : ∀ q ∈ t.asked, ∃ reference, q = ctx.assetPath reference

section contains
variable {ctx : Context}

theorem Trace.Does.mem_work {ε α : Type} {t : Trace ε α} {asked : List Path}
    {work : List Instruction} {a : α} (does : t.Does asked work a) {i : Instruction}
    (given : Report.instruction i ∈ t.events) : i ∈ work := by
  rw [← does.work]
  exact List.mem_filterMap.mpr ⟨_, given, rfl⟩

theorem Context.Contains.of_does {t : Trace HandlerError Replacement} {asked : List Path}
    {work : List Instruction} {lines : List String} (does : t.Does asked work (.lines lines))
    (leads : ∀ i ∈ work, ∃ short, (scriptTag short ∈ lines ∨ Stylesheets.linkTag short ∈ lines) ∧
      i.dest = (ctx.destination short).full)
    (assets : ∀ q ∈ asked, ∃ reference, q = ctx.assetPath reference) : ctx.Contains t := by
  refine ⟨fun i given => ?_, fun q inside => assets q (does.asked ▸ inside)⟩
  obtain ⟨short, tag, dest⟩ := leads i (does.mem_work given)
  exact ⟨short, lines, does.outcome, tag, dest⟩

theorem Context.Contains.silent {outcome : Except HandlerError Replacement} :
    ctx.Contains ⟨[], [], outcome⟩ :=
  ⟨fun _ given => absurd given List.not_mem_nil, fun _ inside => absurd inside List.not_mem_nil⟩

theorem Modules.work_dest {target passTarget main : String} {dest : Destination}
    {options : Json.Fields} {i : Instruction}
    (given : i ∈ work target passTarget main dest options) : i.dest = dest.full := by
  rcases List.mem_pair.mp given with rfl | rfl <;> rfl

theorem Scripts.tag_of_work {short : String} {es : List Element} {i : Instruction}
    (given : i ∈ es.flatMap (work ctx (ctx.destination short))) :
    ∃ name, scriptTag name ∈ allTags ctx (ctx.destination short) false es ∧
      i.dest = (ctx.destination name).full := by
  obtain ⟨e, inside, given⟩ := List.mem_flatMap.mp given
  unfold work at given
  cases accepted : accepted? ctx e with
  | none => simp [accepted] at given
  | some src =>
    have among : e ∈ es.filter fun e => (accepted? ctx e).isSome := by
      simp [List.mem_filter, inside, accepted]
    simp only [accepted] at given
    rcases List.mem_cons.mp given with rfl | given
    · refine ⟨short, List.mem_append_left _ ?_, rfl⟩
      simp [List.ne_nil_of_mem among, Context.destination, Destination.resolve]
    · unfold moduleWork at given
      cases main : e.attribute? "data-main" with
      | none => simp [main] at given
      | some main' =>
        simp only [main] at given
        refine ⟨(e.attribute? "data-dest").getD main', List.mem_append_right _ ?_,
          Modules.work_dest given⟩
        refine List.mem_flatMap.mpr ⟨e, among, ?_⟩
        simp [moduleTags, main, moduleDestination, Context.destination, Destination.resolve]

theorem Context.asset_of_reference {given : Option String} {q : Path}
    (asked : q ∈ (given.map ctx.assetPath).toList) : ∃ reference, q = ctx.assetPath reference := by
  obtain ⟨reference, _, rfl⟩ := Option.map_eq_some_iff.mp (Option.mem_toList.mp asked)
  exact ⟨reference, rfl⟩

theorem Stylesheets.tag_of_work {short : String} {es : List Element} {i : Instruction}
    (given : i ∈ es.flatMap (work ctx (ctx.destination short))) :
    linkTag short ∈ allTags ctx (ctx.destination short) false es ∧
      i.dest = (ctx.destination short).full := by
  obtain ⟨e, inside, given⟩ := List.mem_flatMap.mp given
  obtain ⟨href, accepted, rfl⟩ := Option.map_eq_some_iff.mp (Option.mem_toList.mp given)
  refine ⟨?_, rfl⟩
  unfold allTags
  rw [if_neg]
  · simp [Context.destination, Destination.resolve]
  · simp only [Bool.false_or, List.all_eq_true, not_forall]
    exact ⟨e, inside, by simp [accepted]⟩

theorem Elements.Deeds.contains
    {one : Context → Destination → Bool → Element → Trace HandlerError (List String)}
    (deeds : Deeds one) (name : String) (b : Block)
    (leads : ∀ short es, ∀ i ∈ es.flatMap (deeds.work ctx (ctx.destination short)), ∃ known,
      (scriptTag known ∈ deeds.allTags ctx (ctx.destination short) false es ∨
        Stylesheets.linkTag known ∈ deeds.allTags ctx (ctx.destination short) false es) ∧
      i.dest = (ctx.destination known).full)
    (assets : ∀ e, ∀ q ∈ deeds.questions ctx e, ∃ reference, q = ctx.assetPath reference) :
    ctx.Contains (process name one b ctx) := by
  cases words : Arguments.split (b.args.getD "") 0 with
  | nil =>
    rw [process_fails words ctx]
    exact .silent
  | cons short more =>
    refine .of_does (deeds.process_does name words ctx) (leads short _) fun q asked => ?_
    obtain ⟨e, _, asked⟩ := List.mem_flatMap.mp asked
    exact assets e q asked

theorem scripts_contains (b : Block) : ctx.Contains (Scripts.process b ctx) := by
  refine Scripts.deeds.contains "script" b (fun short es i given => ?_)
    fun _ _ => Context.asset_of_reference
  obtain ⟨known, tag, dest⟩ := Scripts.tag_of_work given
  exact ⟨known, Or.inl tag, dest⟩

theorem stylesheets_contains (b : Block) : ctx.Contains (Stylesheets.process b ctx) := by
  refine Stylesheets.deeds.contains "link" b (fun short es i given => ?_)
    fun _ _ => Context.asset_of_reference
  obtain ⟨tag, dest⟩ := Stylesheets.tag_of_work given
  exact ⟨short, Or.inr tag, dest⟩

theorem modules_contains (b : Block) : ctx.Contains (Modules.process b ctx) := by
  cases parsed : ModuleArguments.parse b.args with
  | error e =>
    rw [Modules.process_fails parsed ctx]
    exact .silent
  | ok args =>
    refine .of_does (Modules.process_does parsed ctx) (fun i given => ?_)
      fun q asked => absurd asked List.not_mem_nil
    refine ⟨args.dest.getD (args.main ++ ".js"), Or.inl ?_, Modules.work_dest given⟩
    simp [Modules.given, Context.destination, Destination.resolve]

theorem Handler.builtin_contains {name : String} {h : Handler} (b : Block)
    (known : Handler.builtin? name = some h) : ctx.Contains (h.process b ctx) := by
  rcases Handler.builtin?_cases known with rfl | rfl | rfl | rfl
  · exact .silent
  · exact scripts_contains b
  · exact stylesheets_contains b
  · exact modules_contains b

end contains

namespace Processor
variable {p : Processor} {ms : List (Match Directive)} {events : List Event} {i : Instruction}

/-- The handler of a block is called in a run over directives. The block is one of them that
closes itself, or it goes up to the end tag that it is paired with, and has the contents that it
has in the document. All that its handler reports stands together in the events of the run, right
behind the begin tag of the first and right before the end of the second. -/
inductive Served (p : Processor) (ms : List (Match Directive)) (events : List Event) :
    BeginTag → Option String → Prop
  | single {m : Match Directive} {tag : BeginTag} (inside : m ∈ ms)
      (value : m.value = .opening tag) (alone : tag.selfClosing = true)
      (told : .blockSingle tag.kind tag.args (String.ofList m.text) ::
        (p.reports tag none).map Report.event <:+: events) : Served p ms events tag none
  | block {m close : Match Directive} {inner : List (Match Directive)} {tag : BeginTag}
      {contents : String} (inside : m :: (inner ++ [close]) <:+: ms)
      (value : m.value = .opening tag) (paired : Paired m inner close)
      (rewritten : Rewritten p inner contents)
      (told : (p.reports tag (some (contents ++ String.ofList close.before))).map Report.event ++
        [.blockEnd tag.kind tag.args (String.ofList m.text)
          (contents ++ String.ofList close.before)] <:+: events) :
      Served p ms events tag (some (contents ++ String.ofList close.before))

/-- Some work is given by the handler of a block. -/
def Given (p : Processor) (ms : List (Match Directive)) (events : List Event) (i : Instruction) :
    Prop :=
  ∃ tag contents, Served p ms events tag contents ∧ .instruction i ∈ p.reports tag contents

theorem Served.mono {ms' : List (Match Directive)} {events' : List Event} {tag : BeginTag}
    {contents : Option String} (served : Served p ms events tag contents) (part : ms <:+: ms')
    (among : events <:+: events') : Served p ms' events' tag contents := by
  cases served with
  | single inside value alone told =>
    exact .single (part.subset inside) value alone (told.trans among)
  | block inside value paired rewritten told =>
    exact .block (inside.trans part) value paired rewritten (told.trans among)

theorem Given.mono {ms' : List (Match Directive)} {events' : List Event}
    (given : Given p ms events i) (part : ms <:+: ms') (among : events <:+: events') :
    Given p ms' events' i := by
  obtain ⟨tag, contents, served, reported⟩ := given
  exact ⟨tag, contents, served.mono part among, reported⟩

theorem Given.left (given : Given p ms events i) (more : List (Match Directive))
    (behind : List Event) : Given p (ms ++ more) (events ++ behind) i :=
  given.mono (List.prefix_append _ _).isInfix (List.prefix_append _ _).isInfix

theorem Given.right (given : Given p ms events i) (done : List (Match Directive))
    (before : List Event) : Given p (done ++ ms) (before ++ events) i :=
  given.mono (List.suffix_append _ _).isInfix (List.suffix_append _ _).isInfix

theorem mem_map_event {reports : List Report}
    (inside : Event.instruction i ∈ reports.map Report.event) : Report.instruction i ∈ reports := by
  obtain ⟨report, inside, same⟩ := List.mem_map.mp inside
  cases report with
  | instruction => exact Event.instruction.inj same ▸ inside
  | _ => cases same

theorem Reported.given {outside : Bool} {entries : List Entry}
    (reported : Reported p outside ms entries)
    (inside : Event.instruction i ∈ entries.flatMap (Entry.events p)) :
    Given p ms (entries.flatMap (Entry.events p)) i := by
  induction reported with
  | nil => cases inside
  | @append _ ms more entries entries' _ _ ihFirst ihSecond =>
    rw [List.flatMap_append] at inside ⊢
    rcases List.mem_append.mp inside with inside | inside
    · exact (ihFirst inside).left _ _
    · exact (ihSecond inside).right _ _
  | stray => simp [Entry.events] at inside
  | @single _ m tag value alone =>
    have work : Event.instruction i ∈ (p.reports tag none).map Report.event := by
      simpa [Entry.events] using inside
    exact ⟨tag, none, .single (by simp) value alone (by simp [Entry.events]), mem_map_event work⟩
  | @block _ m close inner tag contents entries value paired _ rewritten ih =>
    generalize told : contents ++ String.ofList close.before = whole at inside ⊢
    have parts : (Entry.opened tag (String.ofList m.text) ::
        (entries ++ [.handled tag (some whole), .closed tag (String.ofList m.text) whole])).flatMap
          (Entry.events p) = [.blockBegin tag.kind tag.args (String.ofList m.text)] ++
        entries.flatMap (Entry.events p) ++ ((p.reports tag (some whole)).map Report.event ++
          [.blockEnd tag.kind tag.args (String.ofList m.text) whole]) := by
      simp [Entry.events]
    rw [parts] at inside ⊢
    rcases List.mem_append.mp inside with inside | inside
    · rcases List.mem_append.mp inside with inside | inside
      · simp at inside
      · exact (ih inside).mono ⟨[m], [close], by simp⟩ ⟨_, _, rfl⟩
    · have work : Event.instruction i ∈ (p.reports tag (some whole)).map Report.event := by
        simpa using inside
      subst told
      exact ⟨tag, _, .block (List.infix_refl _) value paired rewritten
        (List.suffix_append _ _).isInfix, mem_map_event work⟩

theorem Told.given {entries : List Entry} {stack : List Open} (told : Told p ms entries stack)
    (inside : Event.instruction i ∈ entries.flatMap (Entry.events p)) :
    Given p ms (entries.flatMap (Entry.events p)) i := by
  induction told with
  | outside reported => exact reported.given inside
  | @inside outer inner m entries entries' top _ around _ _ _ _ reported ih =>
    rw [List.flatMap_append, List.flatMap_cons] at inside ⊢
    rcases List.mem_append.mp inside with inside | inside
    · exact (ih inside).left _ _
    · have later : Event.instruction i ∈ entries'.flatMap (Entry.events p) := by
        simpa [Entry.events] using inside
      exact ((reported.given later).right [m] _).right _ _

/-- All work of a run is given by the handler of a block, but for that of the handler that fails
in it. -/
theorem Ends.given {tail : List Char} {outcome : Except DocumentError String}
    (ends : Ends p ms tail events outcome) (inside : Event.instruction i ∈ events) :
    Given p ms events i ∨ ∃ tag contents e, p.Fails tag contents e ∧
      Report.instruction i ∈ p.reports tag contents := by
  cases ends with
  | finished all =>
    obtain ⟨entries, rfl, told, _⟩ := all.told
    exact Or.inl (told.given inside)
  | @stopped done rest m _ _ _ _ split before move =>
    rcases List.mem_append.mp inside with inside | inside
    · obtain ⟨entries, rfl, told, _⟩ := before.told
      rw [split]
      exact Or.inl ((told.given inside).left _ _)
    · right
      cases move with
      | singleFailed _ _ fails => exact ⟨_, _, _, fails, mem_map_event (by simpa using inside)⟩
      | closeFailed _ _ fails => exact ⟨_, _, _, fails, mem_map_event inside⟩

theorem Served.of_pair {m close : Match Directive} {tag known : BeginTag} {contents : Option String}
    (served : Served p [m, close] events tag contents) (opened : m.value = .opening known)
    (closed : close.value = .closing) (more : known.selfClosing = false) :
    tag = known ∧ contents = some (String.ofList close.before) := by
  cases served with
  | single inside value alone _ =>
    rcases List.mem_pair.mp inside with rfl | rfl
    · cases value.symm.trans opened
      cases more.symm.trans alone
    · cases value.symm.trans closed
  | @block m' close' inner _ contents inside value _ rewritten _ =>
    have short := inside.length_le
    simp only [List.length_cons, List.length_append, List.length_nil] at short
    obtain rfl : inner = [] := List.length_eq_zero_iff.mp (by omega)
    obtain ⟨rfl, rfl⟩ : m' = m ∧ close' = close := by simpa using inside.eq_of_length rfl
    cases value.symm.trans opened
    cases rewritten
    exact ⟨rfl, by rw [String.empty_append]⟩

theorem handled_builtin (builtin : p.registry.Builtin) {tag : BeginTag} {contents : Option String}
    {handling : Trace HandlerError Replacement}
    (handled : p.handling? tag contents = some handling) :
    ∃ name h, Handler.builtin? name = some h ∧
      handling = h.process ⟨tag.kind, tag.args, contents, tag.indent⟩ p.context := by
  obtain ⟨h, found, rfl⟩ := Option.map_eq_some_iff.mp handled
  obtain ⟨name, known⟩ := builtin _ h found
  exact ⟨name, h, known, rfl⟩

theorem reported_builtin (builtin : p.registry.Builtin) {tag : BeginTag} {contents : Option String}
    (reported : .instruction i ∈ p.reports tag contents) :
    ∃ handling lines short, p.handling? tag contents = some handling ∧
      .instruction i ∈ handling.events ∧ handling.outcome = .ok (.lines lines) ∧
      (scriptTag short ∈ lines ∨ Stylesheets.linkTag short ∈ lines) ∧
      i.dest = (p.context.destination short).full := by
  obtain ⟨handling, handled, inside⟩ := mem_reports reported
  obtain ⟨name, h, known, rfl⟩ := handled_builtin builtin handled
  obtain ⟨short, lines, rest⟩ := (Handler.builtin_contains _ known).work i inside
  exact ⟨_, lines, short, handled, inside, rest⟩

/-- Whether a document fails or not, all its work leads to below the base directory, to where a
tag among the lines that take the place of a block refers, and all files that are asked for
are below the source directory. Slashes in front of references make no difference to either. -/
theorem process_destinations (builtin : p.registry.Builtin) (document : String) :
    (∀ i ∈ Event.instructions (p.process document).events,
      ∃ tag contents handling, ∃ (lines : List String) (short : String),
        Served p (p.tag.scan document).1 (p.process document).events tag contents ∧
        p.handling? tag contents = some handling ∧
        .instruction i ∈ handling.events ∧ handling.outcome = .ok (.lines lines) ∧
        p.Becomes tag contents (String.intercalate ("\n" ++ tag.indent) lines) ∧
        (s!"<script src=\"{short}\"></script>" ∈ lines ∨
          s!"<link rel=\"stylesheet\" type=\"text/css\" href=\"{short}\">" ∈ lines) ∧
        Path.Below p.context.baseDir (String.ofList (short.toList.dropWhile (· == '/'))) i.dest) ∧
    (∀ q ∈ (p.process document).asked, ∃ reference : String, Path.Below p.context.sourceDir
      (String.ofList (reference.toList.dropWhile (· == '/'))) q) ∧
    (∀ kind h, p.registry.get? kind = some h → ∀ b b' : Block, h.Alike b b' →
      (h.process b p.context).leads = (h.process b' p.context).leads ∧
      (h.process b p.context).asked = (h.process b' p.context).asked) := by
  refine ⟨?_, ?_, ?_⟩
  · intro i inside
    obtain ⟨event, inside, same⟩ := List.mem_filterMap.mp inside
    obtain rfl : event = .instruction i := by
      cases event <;> simp_all [Event.instruction?]
    rcases (p.process_ends document).given inside with
      ⟨tag, contents, served, reported⟩ | ⟨tag, contents, e, fails, reported⟩
    · obtain ⟨handling, lines, short, handled, inside, outcome, added, dest⟩ :=
        reported_builtin builtin reported
      have becomes : p.Becomes tag contents (String.intercalate ("\n" ++ tag.indent) lines) := by
        simp only [Becomes, handled]
        exact ⟨.lines lines, outcome, rfl⟩
      refine ⟨tag, contents, handling, lines, short, served, handled, inside, outcome, becomes,
        added, ?_⟩
      rw [dest]
      exact Path.below_join p.context.baseDir short
    · obtain ⟨handling, _, _, handled, _, outcome, _, _⟩ := reported_builtin builtin reported
      obtain ⟨handling', handled', failed⟩ := fails
      obtain rfl := Option.some.inj (handled.symm.trans handled')
      cases outcome.symm.trans failed
  · intro q asked
    obtain ⟨calls, made, _⟩ := p.process_calls document
    rw [made.asked] at asked
    obtain ⟨c, _, asked⟩ := List.mem_flatMap.mp asked
    obtain ⟨handling, handled, asked⟩ := Call.mem_asked asked
    obtain ⟨name, h, known, rfl⟩ := handled_builtin builtin handled
    obtain ⟨reference, rfl⟩ := (Handler.builtin_contains _ known).asked q asked
    exact ⟨reference, Path.below_join p.context.sourceDir reference⟩
  · intro _ h _ b b' alike
    exact Handler.process_alike alike

/-- Slashes in front of the destination and of the reference of a script. -/
theorem process_destinations_slashed : ∃ (p : Processor) (document : String) (i : Instruction)
    (tag : BeginTag) (handling : Trace HandlerError Replacement) (b b' : Block),
    document = "<!--build:js /out.js--><script src=\"/a.js\"></script><!--endbuild-->" ∧
    p.registry.Builtin ∧ i ∈ Event.instructions (p.process document).events ∧
    i.dest = ⟨"./out.js"⟩ ∧ ⟨"./a.js"⟩ ∈ (p.process document).asked ∧
    tag = ⟨"", "js", some "/out.js", false⟩ ∧
    Served p (p.tag.scan document).1 (p.process document).events tag
      (some "<script src=\"/a.js\"></script>") ∧
    p.handling? tag (some "<script src=\"/a.js\"></script>") = some handling ∧
    .instruction i ∈ handling.events ∧
    handling.outcome = .ok (.lines ["<script src=\"/out.js\"></script>"]) ∧
    p.Becomes tag (some "<script src=\"/a.js\"></script>") "<script src=\"/out.js\"></script>" ∧
    Path.Below ⟨"."⟩ "out.js" ⟨"./out.js"⟩ ∧
    Path.Below ⟨"."⟩ "a.js" ⟨"./a.js"⟩ ∧
    b = ⟨"js", some "/out.js", some "<script src=\"/a.js\"></script>", ""⟩ ∧
    b' = ⟨"js", some "out.js", some "<script src=\"a.js\"></script>", ""⟩ ∧
    Handler.scripts.Alike b b' ∧
    (Handler.scripts.process b p.context).leads = (Handler.scripts.process b' p.context).leads := by
  let p := standard fun _ => true
  let document := "<!--build:js /out.js--><script src=\"/a.js\"></script><!--endbuild-->"
  let b : Block := ⟨"js", some "/out.js", some "<script src=\"/a.js\"></script>", ""⟩
  let b' : Block := ⟨"js", some "out.js", some "<script src=\"a.js\"></script>", ""⟩
  have first : (Event.instructions (p.process document).events)[0]?.map Instruction.dest =
      some ⟨"./out.js"⟩ := by decide +kernel
  obtain ⟨i, there, dest⟩ := Option.map_eq_some_iff.mp first
  have given : i ∈ Event.instructions (p.process document).events := List.mem_of_getElem? there
  have asked : ⟨"./a.js"⟩ ∈ (p.process document).asked := by decide +kernel
  have alike : Handler.scripts.Alike b b' := by
    have words : Arguments.split "/out.js" 0 = ["/out.js"] ∧
        Arguments.split "out.js" 0 = ["out.js"] := by decide +kernel
    have scripts : Elements.inside "script" b = [⟨"<script src=\"/a.js\">", [("src", "/a.js")]⟩] ∧
        Elements.inside "script" b' = [⟨"<script src=\"a.js\">", [("src", "a.js")]⟩] := by
      decide +kernel
    refine ⟨?_, ?_⟩
    · simp only [b, b', Option.getD_some, words, List.head?_cons]
      exact .some ⟨1, 0, "out.js", rfl, rfl⟩
    · rw [scripts.1, scripts.2]
      refine .cons ⟨fun name inside => ?_, fun name outside => ?_⟩ .nil
      · simp only [Element.referring, List.mem_cons, List.not_mem_nil, or_false] at inside
        rcases inside with rfl | rfl | rfl | rfl
        · exact .some ⟨1, 0, "a.js", rfl, rfl⟩
        · exact .none
        · exact .none
        · exact .none
      · have other : name ≠ "src" := fun same => outside (by simp [same, Element.referring])
        simp [Element.attribute?, List.lookup_cons, beq_eq_false_iff_ne.mpr other]
  have builtin : p.registry.Builtin := Registry.withBuiltins_builtin
  have scanned : (p.tag.scan document).1 =
      [⟨[], "<!--build:js /out.js-->".toList, .opening ⟨"", "js", some "/out.js", false⟩⟩,
        ⟨"<script src=\"/a.js\"></script>".toList, "<!--endbuild-->".toList, .closing⟩] := by
    decide +kernel
  obtain ⟨works, asks, same⟩ := process_destinations builtin document
  obtain ⟨tag, contents, handling, lines, short, served, handled, inside, outcome, becomes, added,
    below⟩ := works i given
  obtain ⟨rfl, rfl⟩ := Served.of_pair (scanned ▸ served) rfl rfl rfl
  have made : (handling.outcome.toOption.map fun
      | .lines lines => lines
      | _ => []) = some ["<script src=\"/out.js\"></script>"] := by
    rw [← Option.some.inj handled]
    decide +kernel
  rw [outcome] at made
  obtain rfl := Option.some.inj made
  obtain rfl : short = "/out.js" := by
    rcases added with added | added
    · have split : "<script src=\"" ++ short ++ "\"></script>" =
          "<script src=\"" ++ "/out.js" ++ "\"></script>" := List.mem_singleton.mp added
      simpa only [String.append_left_inj, String.append_right_inj] using split
    · have second := congrArg (fun text : String => text.toList[1]?) (List.mem_singleton.mp added)
      simp only [String.toList_append, List.append_assoc] at second
      rw [List.getElem?_append_left (by decide)] at second
      exact absurd second (by decide)
  rw [dest] at below
  obtain ⟨reference, under⟩ := asks _ asked
  have file : Path.Below ⟨"."⟩ "a.js" ⟨"./a.js"⟩ := ⟨by decide, by decide⟩
  rw [under.unique file] at under
  exact ⟨p, document, i, _, handling, b, b', rfl, builtin, given, dest, asked, rfl, served, handled,
    inside, outcome, becomes, below, under, rfl, rfl, alike, (same "js" .scripts rfl b b' alike).1⟩

end Processor
end AssetBlocks
