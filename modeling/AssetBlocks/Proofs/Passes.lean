import AssetBlocks.Proofs.Destinations
import AssetBlocks.Proofs.Fields

/-! Module bundles and the passes behind them. A pass reads what the bundler writes, right
behind it in the order of the work. The bundler is told to write there by its options, unless
the arguments of the block say otherwise in options of their own. -/
namespace AssetBlocks

theorem Task.eq_moduleBundle {t : Task} (given : t.options?.isSome = true) :
    t = .moduleBundle (t.options?.getD []) := by
  cases t with
  | moduleBundle options => rfl
  | bundle | styleCompile => cases given

/-- Work in which every module bundle has its pass right behind it. -/
inductive Chained : List Instruction → Prop
  | nil : Chained []
  | plain {i : Instruction} {is : List Instruction} (plain : i.task.options? = none)
      (rest : Chained is) : Chained (i :: is)
  | pair {m pass : Instruction} {is : List Instruction} (task : pass.task = .bundle)
      (src : pass.src = m.dest.text) (dest : pass.dest = m.dest) (rest : Chained is) :
      Chained (m :: pass :: is)

namespace Chained
variable {is more : List Instruction}

theorem append (first : Chained is) (second : Chained more) : Chained (is ++ more) := by
  induction first with
  | nil => exact second
  | plain plain _ ih => exact .plain plain ih
  | pair task src dest _ ih => exact .pair task src dest ih

theorem flatMap {α : Type} {f : α → List Instruction} {as : List α}
    (each : ∀ a ∈ as, Chained (f a)) : Chained (as.flatMap f) := by
  induction as with
  | nil => exact .nil
  | cons a as ih =>
    rw [List.flatMap_cons]
    exact (each a (by simp)).append (ih fun other inside => each other (by simp [inside]))

theorem followed {before behind : List Instruction} {m : Instruction} {options : Json.Fields}
    (chained : Chained is) (split : is = before ++ m :: behind)
    (module : m.task = .moduleBundle options) : ∃ pass rest, behind = pass :: rest ∧
      pass.task = .bundle ∧ pass.src = m.dest.text ∧ pass.dest = m.dest := by
  induction chained generalizing before with
  | nil => simp at split
  | plain plain _ ih =>
    cases before with
    | nil =>
      obtain ⟨rfl, rfl⟩ := List.cons.inj split
      simp [module, Task.options?] at plain
    | cons first before => exact ih (List.cons.inj split).2
  | pair task src dest _ ih =>
    rcases before with _ | ⟨first, _ | ⟨second, before⟩⟩
    · obtain ⟨rfl, rfl⟩ := List.cons.inj split
      exact ⟨_, _, rfl, task, src, dest⟩
    · obtain ⟨_, split⟩ := List.cons.inj split
      obtain ⟨rfl, rfl⟩ := List.cons.inj split
      cases task.symm.trans module
    · exact ih (List.cons.inj (List.cons.inj split).2).2

end Chained

namespace Modules

theorem work_chained (target passTarget main : String) (dest : Destination)
    (options : Json.Fields) : Chained (work target passTarget main dest options) :=
  .pair rfl rfl rfl .nil

theorem options_out (main : String) (dest : Destination) (baseDir : Path) :
    (options main dest baseDir).get? "out" = some (.text dest.full.text) := by
  unfold options
  simp only [Json.Fields.ofList, List.foldl_cons, List.foldl_nil]
  rw [Json.Fields.get?_insert_of_ne (by decide), Json.Fields.get?_insert_self]

end Modules

/-- What the options of a module bundle say about where it is written: where its work leads,
unless something else was given. -/
def Instruction.Writes (i : Instruction) (given : Option Json) : Prop :=
  ∀ options, i.task = .moduleBundle options →
    options.get? "out" = some (given.getD (.text i.dest.text))

theorem Modules.work_writes {target passTarget main : String} {dest : Destination}
    {baseDir : Path} {more : Json.Fields} (ascending : more.Ascending) {i : Instruction}
    (made : i ∈ work target passTarget main dest ((options main dest baseDir).extend more)) :
    i.Writes (more.get? "out") := by
  rcases List.mem_pair.mp made with rfl | rfl
  · intro options module
    obtain rfl := Task.moduleBundle.inj module
    rw [Json.Fields.get?_extend ascending, options_out]
    cases more.get? "out" <;> rfl
  · intro options module
    cases module

namespace Scripts
variable {ctx : Context} {dest : Destination} {e : Element} {i : Instruction}

theorem work_chained (ctx : Context) (dest : Destination) (e : Element) :
    Chained (work ctx dest e) := by
  unfold work moduleWork
  cases accepted? ctx e with
  | none => exact .nil
  | some src =>
    refine .plain rfl ?_
    cases e.attribute? "data-main" with
    | none => exact .nil
    | some main => exact Modules.work_chained _ _ _ _ _

theorem work_writes (made : i ∈ work ctx dest e) : i.Writes none := by
  unfold work moduleWork at made
  cases accepted : accepted? ctx e with
  | none => simp [accepted] at made
  | some src =>
    simp only [accepted] at made
    rcases List.mem_cons.mp made with rfl | made
    · intro options module
      cases module
    · cases main : e.attribute? "data-main" with
      | none => simp [main] at made
      | some main' =>
        simp only [main] at made
        have empty : Json.Fields.Ascending [] := List.Pairwise.nil
        exact Modules.work_writes empty made

end Scripts

theorem Stylesheets.work_plain {ctx : Context} {dest : Destination} {e : Element}
    {i : Instruction} (made : i ∈ work ctx dest e) : i.task = .styleCompile := by
  obtain ⟨href, _, rfl⟩ := Option.map_eq_some_iff.mp (Option.mem_toList.mp made)
  rfl

theorem Chained.of_plain {is : List Instruction} (plain : ∀ i ∈ is, i.task.options? = none) :
    Chained is := by
  induction is with
  | nil => exact .nil
  | cons i is ih =>
    exact .plain (plain i (by simp)) (ih fun other inside => plain other (by simp [inside]))

/-- Where the options of a block say that a module bundle is written. Only arguments of module
bundles have options. -/
def Handler.out? : Handler → Block → Option Json
  | modules, b => (ModuleArguments.parse b.args).toOption.bind fun args => args.options.get? "out"
  | _, _ => none

/-- The work of a handler, with a pass behind every module bundle, which is written where the
work leads or where the block says. -/
structure Handler.Chains (h : Handler) (b : Block) (ctx : Context) : Prop where
  chained : Chained ((h.process b ctx).events.filterMap Report.instruction?)
  writes : ∀ i, Report.instruction i ∈ (h.process b ctx).events → i.Writes (h.out? b)

namespace Handler.Chains
variable {h : Handler} {b : Block} {ctx : Context}

theorem of_does {asked : List Path} {work : List Instruction} {a : Replacement}
    (does : (h.process b ctx).Does asked work a) (chained : Chained work)
    (writes : ∀ i ∈ work, i.Writes (h.out? b)) : h.Chains b ctx :=
  ⟨does.work ▸ chained, fun i made => writes i (does.mem_work made)⟩

theorem of_silent (silent : (h.process b ctx).events = []) : h.Chains b ctx := by
  refine ⟨?_, fun i made => ?_⟩
  · rw [silent]
    exact .nil
  · rw [silent] at made
    exact absurd made List.not_mem_nil

end Handler.Chains

theorem Elements.Deeds.chained
    {one : Context → Destination → Bool → Element → Trace HandlerError (List String)}
    (deeds : Deeds one) (name : String) (b : Block) (ctx : Context)
    (chained : ∀ dest e, Chained (deeds.work ctx dest e)) :
    Chained ((process name one b ctx).events.filterMap Report.instruction?) := by
  cases words : Arguments.split (b.args.getD "") 0 with
  | nil =>
    rw [process_fails words ctx]
    exact .nil
  | cons short more =>
    rw [(deeds.process_does name words ctx).work]
    exact .flatMap fun e _ => chained _ e

theorem Elements.Deeds.writes
    {one : Context → Destination → Bool → Element → Trace HandlerError (List String)}
    (deeds : Deeds one) (name : String) (b : Block) (ctx : Context)
    (writes : ∀ dest e, ∀ i ∈ deeds.work ctx dest e, i.Writes none) :
    ∀ i, Report.instruction i ∈ (process name one b ctx).events → i.Writes none := by
  intro i made
  cases words : Arguments.split (b.args.getD "") 0 with
  | nil =>
    rw [process_fails words ctx] at made
    exact absurd made List.not_mem_nil
  | cons short more =>
    have inside := (deeds.process_does name words ctx).mem_work made
    obtain ⟨e, _, made⟩ := List.mem_flatMap.mp inside
    exact writes _ e i made

theorem Handler.builtin_chains {name : String} {h : Handler} (b : Block) (ctx : Context)
    (known : Handler.builtin? name = some h) : h.Chains b ctx := by
  rcases Handler.builtin?_cases known with rfl | rfl | rfl | rfl
  · exact .of_silent rfl
  · exact ⟨Scripts.deeds.chained "script" b ctx (Scripts.work_chained ctx),
      Scripts.deeds.writes "script" b ctx fun _ _ _ => Scripts.work_writes⟩
  · refine ⟨Stylesheets.deeds.chained "link" b ctx fun dest e => .of_plain fun i made => ?_,
      Stylesheets.deeds.writes "link" b ctx fun dest e i made options module => ?_⟩
    · rw [Stylesheets.work_plain made]
      rfl
    · cases (Stylesheets.work_plain made).symm.trans module
  · cases parsed : ModuleArguments.parse b.args with
    | error e => exact .of_silent (congrArg Log.events (Modules.process_fails parsed ctx))
    | ok args =>
      have given : Handler.modules.out? b = args.options.get? "out" := by
        rw [out?, parsed]
        rfl
      refine .of_does (Modules.process_does parsed ctx) (Modules.work_chained _ _ _ _ _)
        fun i made => ?_
      rw [given]
      exact Modules.work_writes (ModuleArguments.parse_options parsed) made

theorem eq_take_append_cons_drop {α : Type} {as : List α} {a : α} {n : Nat}
    (there : as[n]? = some a) : as = as.take n ++ a :: as.drop (n + 1) := by
  obtain ⟨within, rfl⟩ := List.getElem?_eq_some_iff.mp there
  rw [← List.drop_eq_getElem_cons within, List.take_append_drop]

namespace Processor
variable {p : Processor}

theorem Call.work_of_handler {c : Call} {h : Handler}
    (found : p.registry.get? c.tag.kind = some h) : c.work p =
      (h.process ⟨c.tag.kind, c.tag.args, c.contents, c.tag.indent⟩
        p.context).events.filterMap Report.instruction? := by
  simp [work, reports, handling?, found]

theorem Call.work_of_none {c : Call} (missing : p.registry.get? c.tag.kind = none) :
    c.work p = [] := by
  simp [work, reports, handling?, missing]

theorem Call.chained (builtin : p.registry.Builtin) (c : Call) : Chained (c.work p) := by
  cases found : p.registry.get? c.tag.kind with
  | none =>
    rw [Call.work_of_none found]
    exact .nil
  | some h =>
    obtain ⟨name, known⟩ := builtin _ h found
    rw [Call.work_of_handler found]
    exact (Handler.builtin_chains _ _ known).chained

/-- A pass over what it writes is right behind every module bundle. Its options say that it is
written where its work leads, unless the arguments of its block have an option that says
otherwise; scripts that start modules have no options. -/
theorem process_chained (builtin : p.registry.Builtin) {document : String}
    {before behind : List Instruction} {m : Instruction} {options : Json.Fields}
    (split : Event.instructions (p.process document).events = before ++ m :: behind)
    (module : m.task = .moduleBundle options) :
    (∃ pass rest, behind = pass :: rest ∧ pass.task = .bundle ∧ pass.src = m.dest.text ∧
      pass.dest = m.dest) ∧
    ∃ d ∈ (p.tag.scan document).1, ∃ tag contents h handling, d.value = .opening tag ∧
      p.registry.get? tag.kind = some h ∧ p.handling? tag contents = some handling ∧
      .instruction m ∈ handling.events ∧
      options.get? "out" =
        some ((h.out? ⟨tag.kind, tag.args, contents, tag.indent⟩).getD (.text m.dest.text)) := by
  obtain ⟨calls, made, tags⟩ := p.process_calls document
  have work : calls.flatMap (Call.work p) = before ++ m :: behind := made.work ▸ split
  refine ⟨(Chained.flatMap fun c _ => Call.chained builtin c).followed work module, ?_⟩
  have given : m ∈ calls.flatMap (Call.work p) := by simp [work]
  obtain ⟨c, inside, given⟩ := List.mem_flatMap.mp given
  obtain ⟨d, found, value⟩ := tags c inside
  obtain ⟨handling, handled, given⟩ := Call.mem_work given
  obtain ⟨h, served, rfl⟩ := Option.map_eq_some_iff.mp handled
  obtain ⟨name, known⟩ := builtin _ h served
  exact ⟨d, found, c.tag, c.contents, h, _, value, served, handled, given,
    (Handler.builtin_chains _ _ known).writes m given options module⟩

/-- A script that starts a module. -/
theorem process_chained_script : ∃ (p : Processor) (document : String)
    (before behind : List Instruction) (m : Instruction) (options : Json.Fields),
    document =
      "<!--build:js o.js--><script src=\"a.js\" data-main=\"m\"></script><!--endbuild-->" ∧
    p.registry.Builtin ∧
    Event.instructions (p.process document).events = before ++ m :: behind ∧
    m.task = .moduleBundle options ∧ m.dest = ⟨"./m"⟩ ∧
    (∃ pass rest, behind = pass :: rest ∧ pass.task = .bundle ∧ pass.src = "./m" ∧
      pass.dest = ⟨"./m"⟩) ∧
    options.get? "out" = some (.text "./m") := by
  let p := standard fun _ => true
  let document :=
    "<!--build:js o.js--><script src=\"a.js\" data-main=\"m\"></script><!--endbuild-->"
  let all := Event.instructions (p.process document).events
  have second : all[1]?.map (fun m => (m.task.options?.isSome, m.dest)) =
      some (true, ⟨"./m"⟩) := by decide +kernel
  obtain ⟨m, there, same⟩ := Option.map_eq_some_iff.mp second
  obtain ⟨given, dest⟩ := Prod.mk.inj same
  have builtin : p.registry.Builtin := Registry.withBuiltins_builtin
  have kinds : ∀ d ∈ (p.tag.scan document).1,
      d.value = .opening ⟨"", "js", some "o.js", false⟩ ∨ d.value = .closing := by decide +kernel
  obtain ⟨behind, d, found, tag, contents, h, _, value, served, _, _, out⟩ :=
    process_chained builtin (eq_take_append_cons_drop there) (Task.eq_moduleBundle given)
  have scripts : h = .scripts := by
    rcases kinds d found with known | known
    · cases value.symm.trans known
      exact (Option.some.inj served).symm
    · cases value.symm.trans known
  rw [scripts, dest] at out
  rw [dest] at behind
  exact ⟨p, document, _, _, m, _, rfl, builtin, eq_take_append_cons_drop there,
    Task.eq_moduleBundle given, dest, behind, out⟩

/-- An option in the arguments of a block can say that the bundle is written elsewhere. -/
theorem process_chained_elsewhere : ¬ ∀ (p : Processor) (document : String)
    (before behind : List Instruction) (m : Instruction) (options : Json.Fields),
    p.registry.Builtin →
    Event.instructions (p.process document).events = before ++ m :: behind →
    m.task = .moduleBundle options → options.get? "out" = some (.text m.dest.text) := by
  intro always
  let p := standard fun _ => true
  let document := "<!--build:requirejs app \x7b\"out\":\"x\"\x7d/-->"
  let all := Event.instructions (p.process document).events
  have first : all[0]?.map (fun m => (m.task.options?.isSome, m.dest,
      ((m.task.options?.getD []).get? "out").map Json.pretty)) =
      some (true, ⟨"./app.js"⟩, some "\"x\"") := by decide +kernel
  obtain ⟨m, there, same⟩ := Option.map_eq_some_iff.mp first
  simp only [Prod.mk.injEq] at same
  obtain ⟨given, dest, written⟩ := same
  have out := always p document _ _ m _ Registry.withBuiltins_builtin
    (eq_take_append_cons_drop there) (Task.eq_moduleBundle given)
  rw [out, dest] at written
  exact absurd written (by decide +kernel)

end Processor
end AssetBlocks
