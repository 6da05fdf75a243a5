import AssetBlocks.Handler.Registry
import AssetBlocks.Proofs.Calls

/-! What each built-in handler does, element by element: the files that it asks for, the work
that it gives to build tools, and the lines that take the place of the block. Messages are
left out. -/
namespace AssetBlocks

/-- A computation that does not fail, with all that it asks for, its work and what it makes. -/
structure Trace.Does {ε α : Type} (t : Trace ε α) (asked : List Path) (work : List Instruction)
    (a : α) : Prop where
  asked : t.asked = asked
  work : t.events.filterMap Report.instruction? = work
  outcome : t.outcome = .ok a

namespace Trace
variable {ε α β : Type} {asked asked' : List Path} {work work' : List Instruction}

theorem does_pure (a : α) : Does (pure a : Trace ε α) [] [] a := ⟨rfl, rfl, rfl⟩

theorem does_instruct (i : Instruction) : Does (instruct i : Trace ε Unit) [] [i] () :=
  ⟨rfl, rfl, rfl⟩

theorem does_ask (isFile : Path → Bool) (p : Path) :
    Does (ask isFile p : Trace ε Bool) [p] [] (isFile p) := ⟨rfl, rfl, rfl⟩

theorem Does.bind {t : Trace ε α} {next : α → Trace ε β} {a : α} {b : β}
    (first : t.Does asked work a) (second : (next a).Does asked' work' b) :
    Trace.Does (t >>= next) (asked ++ asked') (work ++ work') b := by
  rw [Log.bind_of_ok first.outcome]
  refine ⟨?_, ?_, second.outcome⟩
  · simp only [first.asked, second.asked]
  · simp only [List.filterMap_append, first.work, second.work]

theorem Does.then_pure {t : Trace ε α} {a : α} (first : t.Does asked work a) (f : α → β) :
    Trace.Does (t >>= fun a => pure (f a)) asked work (f a) := by
  have both : Trace.Does (t >>= fun a => pure (f a)) (asked ++ []) (work ++ []) (f a) :=
    first.bind (does_pure (f a))
  rwa [List.append_nil, List.append_nil] at both

theorem Does.behind {report : Report} (silent : report.instruction? = none)
    {next : Unit → Trace ε β} {b : β} (second : (next ()).Does asked work b) :
    Trace.Does (Log.emit report >>= next) asked work b := by
  have first : Does (Log.emit report : Trace ε Unit) [] [] () :=
    ⟨rfl, List.filterMap_cons_none silent, rfl⟩
  exact first.bind second

end Trace

def Context.assetPath (ctx : Context) (reference : String) : Path :=
  ctx.sourceDir.join (Path.relative reference)

theorem Context.asset_does (ctx : Context) (reference : String) :
    (ctx.asset reference).Does [ctx.assetPath reference] []
      (ctx.isFile (ctx.assetPath reference)) := Trace.does_ask _ _

namespace Modules
variable {block : Block} {args : ModuleArguments}

/-- The module bundle, and the pass over what it writes. -/
def work (target passTarget main : String) (dest : Destination) (options : Json.Fields) :
    List Instruction :=
  [⟨.moduleBundle options, target, main ++ ".js", dest.full⟩,
    ⟨.bundle, passTarget, dest.full.text, dest.full⟩]

theorem bundle_does (target passTarget main : String) (dest : Destination)
    (options : Json.Fields) :
    (bundle target passTarget main dest options).Does []
      (work target passTarget main dest options) () :=
  (Trace.does_instruct _).bind (Trace.does_instruct _)

def given (args : ModuleArguments) (ctx : Context) : Destination :=
  ctx.destination (args.dest.getD (args.main ++ ".js"))

theorem destination_does (args : ModuleArguments) (ctx : Context) :
    (destination args ctx).Does [] [] (given args ctx) := by
  unfold destination given
  cases args.dest with
  | none => exact Trace.does_pure _
  | some dest => exact .behind rfl (Trace.does_pure _)

theorem target_does (args : ModuleArguments) (ctx : Context) :
    (target args ctx).Does [] [] (args.target.getD ctx.target) := by
  unfold target
  cases args.target with
  | none => exact Trace.does_pure _
  | some target => exact .behind rfl (Trace.does_pure _)

theorem process_does (parsed : ModuleArguments.parse block.args = .ok args) (ctx : Context) :
    (process block ctx).Does [] (work (args.target.getD ctx.target) (args.target.getD ctx.target)
        args.main (given args ctx)
        ((options args.main (given args ctx) ctx.baseDir).extend args.options))
      (.lines [scriptTag (given args ctx).short]) := by
  have first : (Trace.ofExcept (ModuleArguments.parse block.args)).Does [] [] args :=
    ⟨rfl, rfl, parsed⟩
  refine first.bind (.behind rfl ((destination_does args ctx).bind ((target_does args ctx).bind ?_)))
  dsimp only
  split
  · exact .behind rfl (.behind rfl ((bundle_does _ _ _ _ _).bind (Trace.does_pure _)))
  · exact .behind rfl ((bundle_does _ _ _ _ _).bind (Trace.does_pure _))

theorem process_fails {e : HandlerError} (failed : ModuleArguments.parse block.args = .error e)
    (ctx : Context) : process block ctx = ⟨[], [], .error e⟩ := by
  unfold process
  rw [failed]
  rfl

end Modules

theorem destinationArgument_does {block : Block} {short : String} {words : List String}
    (given : Arguments.split (block.args.getD "") 0 = short :: words) (ctx : Context) :
    (destinationArgument block ctx).Does [] [] (ctx.destination short) := by
  unfold destinationArgument
  rw [given]
  exact .behind rfl (Trace.does_pure _)

theorem destinationArgument_fails {block : Block} {ctx : Context}
    (absent : Arguments.split (block.args.getD "") 0 = []) :
    destinationArgument block ctx = ⟨[], [], .error (.missingArguments "<dest>")⟩ := by
  unfold destinationArgument
  rw [absent]
  rfl

namespace Elements
variable {one : Context → Destination → Bool → Element → Trace HandlerError (List String)}

theorem addTag_does (tag : String) : (addTag tag).Does [] [] [tag] :=
  .behind rfl (Trace.does_pure _)

/-- What is done with each element of a block: the files that are asked for, the work and the
tags that are added; and the tags that all of them add. -/
structure Deeds (one : Context → Destination → Bool → Element → Trace HandlerError (List String))
    where
  questions : Context → Element → List Path
  work : Context → Destination → Element → List Instruction
  tags : Context → Destination → Bool → Element → List String
  allTags : Context → Destination → Bool → List Element → List String
  does (ctx : Context) (dest : Destination) (started : Bool) (e : Element) :
    (one ctx dest started e).Does (questions ctx e) (work ctx dest e) (tags ctx dest started e)
  allTags_nil (ctx : Context) (dest : Destination) (started : Bool) :
    allTags ctx dest started [] = []
  allTags_cons (ctx : Context) (dest : Destination) (started : Bool) (e : Element)
    (es : List Element) : allTags ctx dest started (e :: es) = tags ctx dest started e ++
      allTags ctx dest (started || !(tags ctx dest started e).isEmpty) es

theorem Deeds.all_does (deeds : Deeds one) (ctx : Context) (dest : Destination) (started : Bool)
    (es : List Element) : (all (one ctx dest) started es).Does
      (es.flatMap (deeds.questions ctx)) (es.flatMap (deeds.work ctx dest))
      (deeds.allTags ctx dest started es) := by
  induction es generalizing started with
  | nil =>
    rw [deeds.allTags_nil]
    exact Trace.does_pure []
  | cons e es ih =>
    rw [deeds.allTags_cons]
    exact (deeds.does ctx dest started e).bind ((ih _).then_pure _)

theorem Deeds.process_does (deeds : Deeds one) (name : String) {short : String}
    {words : List String} {block : Block}
    (given : Arguments.split (block.args.getD "") 0 = short :: words) (ctx : Context) : (process name one block ctx).Does
      ((inside name block).flatMap (deeds.questions ctx))
      ((inside name block).flatMap (deeds.work ctx (ctx.destination short)))
      (.lines (deeds.allTags ctx (ctx.destination short) false (inside name block))) :=
  (destinationArgument_does given ctx).bind ((deeds.all_does ctx _ false _).then_pure _)

theorem process_fails {name : String} {block : Block}
    (absent : Arguments.split (block.args.getD "") 0 = []) (ctx : Context) :
    process name one block ctx = ⟨[], [], .error (.missingArguments "<dest>")⟩ := by
  unfold process
  rw [destinationArgument_fails absent]
  rfl

end Elements

namespace Scripts

def questions (ctx : Context) (e : Element) : List Path :=
  ((e.attribute? "src").map ctx.assetPath).toList

/-- The source of a script that is bundled: there is one, and there is a file for it. -/
def accepted? (ctx : Context) (e : Element) : Option String :=
  (e.attribute? "src").filter fun src => ctx.isFile (ctx.assetPath src)

def moduleDestination (ctx : Context) (e : Element) (main : String) : Destination :=
  ctx.destination ((e.attribute? "data-dest").getD main)

def moduleWork (ctx : Context) (e : Element) : List Instruction :=
  match e.attribute? "data-main" with
  | none => []
  | some main => Modules.work ((e.attribute? "data-target").getD ctx.target) ctx.target main
      (moduleDestination ctx e main)
      (Modules.options main (moduleDestination ctx e main) ctx.baseDir)

def moduleTags (ctx : Context) (e : Element) : List String :=
  match e.attribute? "data-main" with
  | none => []
  | some main => [scriptTag (moduleDestination ctx e main).short]

def work (ctx : Context) (dest : Destination) (e : Element) : List Instruction :=
  match accepted? ctx e with
  | none => []
  | some src => ⟨.bundle, ctx.target, src, dest.full⟩ :: moduleWork ctx e

/-- The tags that a script adds; that of the bundle is added by the first one accepted. -/
def tags (ctx : Context) (dest : Destination) (started : Bool) (e : Element) : List String :=
  match accepted? ctx e with
  | none => []
  | some _ => (if started then [] else [scriptTag dest.short]) ++ moduleTags ctx e

theorem startModule_does (ctx : Context) (e : Element) (main : String) :
    (startModule ctx e main).Does []
      (Modules.work ((e.attribute? "data-target").getD ctx.target) ctx.target main
        (moduleDestination ctx e main)
        (Modules.options main (moduleDestination ctx e main) ctx.baseDir))
      [scriptTag (moduleDestination ctx e main).short] :=
  (Elements.addTag_does _).bind ((Modules.bundle_does _ _ _ _ _).bind (Trace.does_pure _))

theorem module_does (ctx : Context) (e : Element) (before : List String) :
    (match e.attribute? "data-main" with
      | none => do
        let added ← (pure [] : Trace HandlerError (List String))
        pure (before ++ added)
      | some main => do
        let added ← startModule ctx e main
        pure (before ++ added)).Does [] (moduleWork ctx e) (before ++ moduleTags ctx e) := by
  unfold moduleWork moduleTags
  cases e.attribute? "data-main" with
  | none => exact (Trace.does_pure []).then_pure (before ++ ·)
  | some main => exact (startModule_does ctx e main).then_pure (before ++ ·)

theorem one_does (ctx : Context) (dest : Destination) (started : Bool) (e : Element) :
    (one ctx dest started e).Does (questions ctx e) (work ctx dest e)
      (tags ctx dest started e) := by
  refine .behind rfl ?_
  unfold questions work tags accepted?
  cases e.attribute? "src" with
  | none => exact .behind rfl (Trace.does_pure _)
  | some src =>
    refine (ctx.asset_does src).bind ?_
    cases there : ctx.isFile (ctx.assetPath src) with
    | false =>
      simp only [Option.filter, there, Bool.false_eq_true, if_false]
      exact .behind rfl (Trace.does_pure _)
    | true =>
      simp only [Option.filter, there, if_true]
      cases started with
      | true => exact (Trace.does_pure _).bind ((Trace.does_instruct _).bind (module_does ctx e _))
      | false =>
        exact (Elements.addTag_does _).bind ((Trace.does_instruct _).bind (module_does ctx e _))

def allTags (ctx : Context) (dest : Destination) (started : Bool) (es : List Element) :
    List String :=
  let accepted := es.filter fun e => (accepted? ctx e).isSome
  (if started || accepted.isEmpty then [] else [scriptTag dest.short]) ++
    accepted.flatMap (moduleTags ctx)

theorem allTags_cons (ctx : Context) (dest : Destination) (started : Bool) (e : Element)
    (es : List Element) :
    allTags ctx dest started (e :: es) = tags ctx dest started e ++
      allTags ctx dest (started || !(tags ctx dest started e).isEmpty) es := by
  unfold allTags tags
  cases accepted : accepted? ctx e with
  | none => simp [accepted]
  | some src => cases started <;> simp [accepted]

def deeds : Elements.Deeds one where
  questions := questions
  work := work
  tags := tags
  allTags := allTags
  does := one_does
  allTags_nil ctx dest started := by simp [allTags]
  allTags_cons := allTags_cons

end Scripts

namespace Stylesheets

def reference? (e : Element) : Option String := (reference e).toOption

def questions (ctx : Context) (e : Element) : List Path :=
  ((reference? e).map ctx.assetPath).toList

def accepted? (ctx : Context) (e : Element) : Option String :=
  (reference? e).filter fun href => ctx.isFile (ctx.assetPath href)

def work (ctx : Context) (dest : Destination) (e : Element) : List Instruction :=
  ((accepted? ctx e).map fun href => ⟨.styleCompile, ctx.target, href, dest.full⟩).toList

def tags (ctx : Context) (dest : Destination) (started : Bool) (e : Element) : List String :=
  if started || (accepted? ctx e).isNone then [] else [linkTag dest.short]

theorem one_does (ctx : Context) (dest : Destination) (started : Bool) (e : Element) :
    (one ctx dest started e).Does (questions ctx e) (work ctx dest e)
      (tags ctx dest started e) := by
  refine .behind rfl ?_
  unfold work tags questions accepted? reference?
  cases reference e with
  | error problem =>
    cases started <;> exact .behind rfl (Trace.does_pure _)
  | ok href =>
    refine (ctx.asset_does href).bind ?_
    cases there : ctx.isFile (ctx.assetPath href) with
    | false =>
      simp only [Except.toOption, Option.filter, there, Bool.false_eq_true, if_false]
      cases started <;> exact .behind rfl (Trace.does_pure _)
    | true =>
      simp only [Except.toOption, Option.filter, there, if_true]
      cases started with
      | true => exact (Trace.does_pure _).bind ((Trace.does_instruct _).then_pure _)
      | false => exact (Elements.addTag_does _).bind ((Trace.does_instruct _).then_pure _)

def allTags (ctx : Context) (dest : Destination) (started : Bool) (es : List Element) :
    List String :=
  if started || es.all fun e => (accepted? ctx e).isNone then [] else [linkTag dest.short]

theorem allTags_cons (ctx : Context) (dest : Destination) (started : Bool) (e : Element)
    (es : List Element) :
    allTags ctx dest started (e :: es) = tags ctx dest started e ++
      allTags ctx dest (started || !(tags ctx dest started e).isEmpty) es := by
  unfold allTags tags
  cases accepted : accepted? ctx e <;> cases started <;> simp [accepted]

def deeds : Elements.Deeds one where
  questions := questions
  work := work
  tags := tags
  allTags := allTags
  does := one_does
  allTags_nil ctx dest started := by simp [allTags]
  allTags_cons := allTags_cons

end Stylesheets
end AssetBlocks
