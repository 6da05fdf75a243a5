import AssetBlocks.Proofs.Words
import AssetBlocks.Proofs.Work
import Mathlib.Data.List.Basic

/-! The accounts of a handler that goes over the elements of its block. An element is taken if
its attributes are in order and there is a file where it refers to. For each one that is not
taken there is one warning, of the first condition that it fails, and for each one that is taken
there is its work; files are asked for where the attributes are in order. -/
namespace AssetBlocks
open Text

def Report.warning? : Report → Option String
  | warning message => some message
  | _ => none

namespace Log
variable {ρ ε α β γ : Type}

theorem filterMap_bind (f : ρ → Option γ) {t : Log ρ ε α} {a : α} (made : t.outcome = .ok a)
    (next : α → Log ρ ε β) : (t >>= next).events.filterMap f =
      t.events.filterMap f ++ (next a).events.filterMap f := by
  rw [bind_of_ok made, List.filterMap_append]

theorem filterMap_emit_bind {f : ρ → Option γ} {event : ρ} (absent : f event = none)
    (next : Unit → Log ρ ε β) :
    (emit event >>= next).events.filterMap f = (next ()).events.filterMap f :=
  List.filterMap_cons_none absent

/-- A computation that reports nothing of a kind. -/
def Silent (f : ρ → Option γ) (t : Log ρ ε α) : Prop := t.events.filterMap f = []

namespace Silent
variable {f : ρ → Option γ}

theorem pure (a : α) : Silent f (Pure.pure a : Log ρ ε α) := rfl

theorem emit {event : ρ} (absent : f event = none) : Silent f (Log.emit event : Log ρ ε Unit) :=
  List.filterMap_cons_none absent

theorem bind {t : Log ρ ε α} {next : α → Log ρ ε β} (first : Silent f t)
    (second : ∀ a, Silent f (next a)) : Silent f (t >>= next) := by
  cases ended : t.outcome with
  | error e =>
    rw [bind_of_error ended]
    exact first
  | ok a =>
    have both := filterMap_bind f ended next
    rw [first, second a] at both
    exact both

end Silent
end Log

/-- A condition that an element must meet, and what is said where it does not. -/
structure Check where
  holds : Bool
  warning : String

namespace Check
variable {checks : List Check}

/-- What is said of the first condition that is not met. -/
def fault? (checks : List Check) : Option String :=
  (checks.find? fun check => !check.holds).map warning

theorem fault?_eq_none : fault? checks = none ↔ checks.all holds = true := by
  simp [fault?]

theorem not_all_of_fault? {warning : String} (fault : fault? checks = some warning) :
    ¬ checks.all holds = true := by
  intro all
  rw [fault?_eq_none.mpr all] at fault
  cases fault

theorem fault?_append (checks more : List Check) :
    fault? (checks ++ more) = (fault? checks).or (fault? more) := by
  rw [fault?, List.find?_append, Option.map_or]
  rfl

end Check

namespace Block

/-- There are no arguments, or only spaces and tabs. -/
def Unaddressed (b : Block) : Prop := ∀ args ∈ b.args, ∀ c ∈ args.toList, isGap c = true

/-- The first word of the arguments. -/
def AddressedTo (b : Block) (short : String) : Prop :=
  ∃ args ∈ b.args, FirstWord short.toList args.toList

variable {b : Block}

theorem Unaddressed.split (un : b.Unaddressed) : Arguments.split (b.args.getD "") 0 = [] := by
  apply Arguments.split_blank
  cases has : b.args with
  | none => simp
  | some args => exact un args has

theorem AddressedTo.split {short : String} (addressed : b.AddressedTo short) :
    ∃ words, Arguments.split (b.args.getD "") 0 = short :: words := by
  obtain ⟨args, has, first⟩ := addressed
  rw [Option.mem_def.mp has]
  obtain ⟨words, split⟩ := Arguments.split_firstWord first
  exact ⟨words, by rw [Option.getD_some, split, String.ofList_toList]⟩

end Block

theorem destinationArgument_silent (block : Block) (ctx : Context) :
    (destinationArgument block ctx).Silent Report.warning? := by
  unfold destinationArgument
  split
  · rfl
  · exact .bind (.emit rfl) fun _ => .pure _

namespace Elements

/-- How a handler chooses among elements: the attribute with the reference, what it asks of the
attributes of an element, and what it says of one whose file is missing. -/
structure Rule where
  key : String
  conditions : Element → List Check
  missing : String

namespace Rule
variable {rule : Rule} {ctx : Context} {e : Element}

def checks (rule : Rule) (ctx : Context) (e : Element) : List Check :=
  rule.conditions e ++
    [⟨(e.attribute? rule.key).any fun reference => ctx.isFile (ctx.assetPath reference),
      rule.missing ++ e.html⟩]

/-- The file that is asked for: that of the reference of an element whose attributes are in
order. -/
def asks (rule : Rule) (ctx : Context) (e : Element) : Option Path :=
  if (rule.conditions e).all Check.holds then (e.attribute? rule.key).map ctx.assetPath else none

/-- The reference of an element that is taken, which meets all conditions. -/
def takes (rule : Rule) (ctx : Context) (e : Element) : Option String :=
  if (rule.checks ctx e).all Check.holds then e.attribute? rule.key else none

theorem fault?_isSome : (Check.fault? (rule.checks ctx e)).isSome = (rule.takes ctx e).isNone := by
  unfold takes
  by_cases all : (rule.checks ctx e).all Check.holds = true
  · rw [Check.fault?_eq_none.mpr all, if_pos all]
    have found : (e.attribute? rule.key).any
        (fun reference => ctx.isFile (ctx.assetPath reference)) = true := by
      have last := List.all_eq_true.mp all _ (List.mem_append_right _ (List.mem_singleton_self _))
      exact last
    cases reference : e.attribute? rule.key with
    | none => simp [reference] at found
    | some _ => rfl
  · rw [if_neg all]
    cases fault : Check.fault? (rule.checks ctx e) with
    | none => exact absurd (Check.fault?_eq_none.mp fault) all
    | some _ => rfl

end Rule

/-- What is asked for, said and given to do in a run over elements, each with the work that
there is for it if it is taken, and the lines at its end. -/
structure Accounts (rule : Rule) (ctx : Context) (work : Element → String → List Instruction)
    (lines : List String) (es : List Element) (t : Trace HandlerError Replacement) : Prop where
  asked : t.asked = es.filterMap (rule.asks ctx)
  warnings : t.events.filterMap Report.warning? =
    es.filterMap fun e => Check.fault? (rule.checks ctx e)
  warned : ∀ e ∈ es, (Check.fault? (rule.checks ctx e)).isSome = (rule.takes ctx e).isNone
  work : t.events.filterMap Report.instruction? =
    es.flatMap fun e => (rule.takes ctx e).elim [] (work e)
  outcome : t.outcome = .ok (.lines lines)

section loop
variable {one : Context → Destination → Bool → Element → Trace HandlerError (List String)}
  {rule : Rule} {ctx : Context}

theorem Deeds.all_warnings (deeds : Deeds one) (dest : Destination)
    (each : ∀ started e, (one ctx dest started e).events.filterMap Report.warning? =
      (Check.fault? (rule.checks ctx e)).toList) (started : Bool) (es : List Element) :
    (all (one ctx dest) started es).events.filterMap Report.warning? =
      es.filterMap fun e => Check.fault? (rule.checks ctx e) := by
  induction es generalizing started with
  | nil => rfl
  | cons e es ih =>
    have first := (deeds.does ctx dest started e).outcome
    have rest := (deeds.all_does ctx dest (started || !(deeds.tags ctx dest started e).isEmpty)
      es).outcome
    rw [all, Log.filterMap_bind _ first, Log.filterMap_bind _ rest, each, ih]
    simp only [pure, Log.ok, List.filterMap_nil, List.append_nil, List.filterMap_cons]
    cases Check.fault? (rule.checks ctx e) <;> rfl

/-- What holds of each element by itself holds of the block. -/
theorem Deeds.accounts (deeds : Deeds one)
    (work : Destination → Element → String → List Instruction)
    (asks : ∀ e, deeds.questions ctx e = (rule.asks ctx e).toList)
    (works : ∀ dest e, deeds.work ctx dest e = (rule.takes ctx e).elim [] (work dest e))
    (warns : ∀ dest started e, (one ctx dest started e).events.filterMap Report.warning? =
      (Check.fault? (rule.checks ctx e)).toList)
    (name : String) {block : Block} {short : String} (addressed : block.AddressedTo short) :
    Accounts rule ctx (work (ctx.destination short))
      (deeds.allTags ctx (ctx.destination short) false (inside name block)) (inside name block)
      (process name one block ctx) := by
  obtain ⟨words, split⟩ := addressed.split
  have does := deeds.process_does name split ctx
  refine ⟨?_, ?_, fun e _ => Rule.fault?_isSome, ?_, does.outcome⟩
  · rw [does.asked, funext asks, List.filterMap_eq_flatMap_toList]
  · have begun := (destinationArgument_does split ctx).outcome
    have gone := (deeds.all_does ctx (ctx.destination short) false (inside name block)).outcome
    rw [process, Log.filterMap_bind _ begun, Log.filterMap_bind _ gone,
      deeds.all_warnings _ (warns _), destinationArgument_silent]
    simp [pure, Log.ok]
  · rw [does.work, funext (works _)]

end loop

theorem instruct_silent (i : Instruction) :
    (Trace.instruct i : Trace HandlerError Unit).Silent Report.warning? := .emit rfl

theorem addTag_silent (tag : String) : (addTag tag).Silent Report.warning? :=
  .bind (.emit rfl) fun _ => .pure _

end Elements

namespace Scripts
open Elements

def rule : Elements.Rule where
  key := "src"
  conditions e := [⟨(e.attribute? "src").isSome, s!"Tag missing src attribute: {e.html}"⟩]
  missing := "Cannot find file for src: "

theorem rule_checks (ctx : Context) (e : Element) : rule.checks ctx e =
    [⟨(e.attribute? "src").isSome, s!"Tag missing src attribute: {e.html}"⟩,
      ⟨(e.attribute? "src").any fun src => ctx.isFile (ctx.assetPath src),
        s!"Cannot find file for src: {e.html}"⟩] := rfl

theorem startModule_silent (ctx : Context) (e : Element) (main : String) :
    (startModule ctx e main).Silent Report.warning? := by
  refine .bind (addTag_silent _) fun tags => ?_
  exact .bind ((instruct_silent _).bind fun _ => instruct_silent _) fun _ => .pure _

theorem module_silent (ctx : Context) (e : Element) (before : List String) :
    (match e.attribute? "data-main" with
      | none => do
        let added ← (pure [] : Trace HandlerError (List String))
        pure (before ++ added)
      | some main => do
        let added ← startModule ctx e main
        pure (before ++ added)).Silent Report.warning? := by
  cases e.attribute? "data-main" with
  | none => exact .bind (.pure _) fun _ => .pure _
  | some main => exact .bind (startModule_silent ctx e main) fun _ => .pure _

theorem one_warnings (ctx : Context) (dest : Destination) (started : Bool) (e : Element) :
    (one ctx dest started e).events.filterMap Report.warning? =
      (Check.fault? (rule.checks ctx e)).toList := by
  refine (Log.filterMap_emit_bind rfl _).trans ?_
  rw [rule_checks]
  cases e.attribute? "src" with
  | none => rfl
  | some src =>
    have asked : (ctx.asset src).outcome = .ok (ctx.isFile (ctx.assetPath src)) := rfl
    refine (Log.filterMap_bind _ asked _).trans ?_
    rw [Option.any_some]
    cases ctx.isFile (ctx.assetPath src) with
    | false => rfl
    | true =>
      have behind (before : List String) :=
        (instruct_silent ⟨.bundle, ctx.target, src, dest.full⟩).bind
          fun _ => module_silent ctx e before
      cases started with
      | true => exact Log.Silent.bind (.pure []) behind
      | false => exact (addTag_silent (scriptTag dest.short)).bind behind

theorem asks_eq (ctx : Context) (e : Element) : questions ctx e = (rule.asks ctx e).toList := by
  have conditions : rule.conditions e =
      [⟨(e.attribute? "src").isSome, s!"Tag missing src attribute: {e.html}"⟩] := rfl
  have key : rule.key = "src" := rfl
  rw [questions, Rule.asks, conditions, key]
  cases e.attribute? "src" <;> rfl

theorem takes_eq (ctx : Context) (e : Element) : rule.takes ctx e = accepted? ctx e := by
  have key : rule.key = "src" := rfl
  rw [Rule.takes, rule_checks, key, accepted?]
  cases e.attribute? "src" with
  | none => rfl
  | some src =>
    rw [Option.any_some]
    cases there : ctx.isFile (ctx.assetPath src) <;> simp [Option.filter, there]

theorem work_eq (ctx : Context) (dest : Destination) (e : Element) : work ctx dest e =
    (rule.takes ctx e).elim [] fun src =>
      ⟨.bundle, ctx.target, src, dest.full⟩ :: moduleWork ctx e := by
  rw [takes_eq, work]
  cases accepted? ctx e <;> rfl

theorem bundle_takes {block : Block} {short : String} (addressed : block.AddressedTo short)
    (ctx : Context) :
    let dest := ctx.destination short
    let scripts := inside "script" block
    Accounts rule ctx (fun e src => ⟨.bundle, ctx.target, src, dest.full⟩ :: moduleWork ctx e)
      (allTags ctx dest false scripts) scripts (process block ctx) :=
  deeds.accounts (fun dest e src => ⟨.bundle, ctx.target, src, dest.full⟩ :: moduleWork ctx e)
    (asks_eq ctx) (work_eq ctx) (one_warnings ctx) "script" addressed

end Scripts

namespace Stylesheets
open Elements

/-- The attributes are looked at in this order. -/
def rule : Rule where
  key := "href"
  conditions e := [
    ⟨(e.attribute? "href").isSome, s!"Tag missing href attribute: {e.html}"⟩,
    ⟨(e.attribute? "rel").isSome, s!"Tag missing rel attribute: {e.html}"⟩,
    ⟨(e.attribute? "type").isSome, s!"Tag missing type attribute: {e.html}"⟩,
    ⟨e.attribute? "type" = some "text/css",
      s!"Tag's type attribute is not 'text/css': {e.html}"⟩]
  missing := "Cannot find file for href: "

theorem rule_conditions (e : Element) : rule.conditions e = [
    ⟨(e.attribute? "href").isSome, s!"Tag missing href attribute: {e.html}"⟩,
    ⟨(e.attribute? "rel").isSome, s!"Tag missing rel attribute: {e.html}"⟩,
    ⟨(e.attribute? "type").isSome, s!"Tag missing type attribute: {e.html}"⟩,
    ⟨e.attribute? "type" = some "text/css",
      s!"Tag's type attribute is not 'text/css': {e.html}"⟩] := rfl

theorem reference_iff (e : Element) :
    (∀ problem, reference e = .error problem ↔ Check.fault? (rule.conditions e) = some problem) ∧
    (∀ href, reference e = .ok href ↔ (rule.conditions e).all Check.holds = true ∧
      e.attribute? "href" = some href) := by
  have message : s!"Tag's type attribute is not '{styleType}': {e.html}" =
      s!"Tag's type attribute is not 'text/css': {e.html}" := rfl
  rw [rule_conditions, reference, message]
  cases e.attribute? "href" with
  | none => simp [Check.fault?]
  | some href =>
    cases e.attribute? "rel" with
    | none => simp [Check.fault?]
    | some rel =>
      cases e.attribute? "type" with
      | none => simp [Check.fault?]
      | some type => by_cases style : type = "text/css" <;> simp [Check.fault?, style, styleType]

theorem asks_eq (ctx : Context) (e : Element) : questions ctx e = (rule.asks ctx e).toList := by
  obtain ⟨error, ok⟩ := reference_iff e
  have key : rule.key = "href" := rfl
  rw [questions, reference?, Rule.asks, key]
  cases found : reference e with
  | error problem =>
    have fault := (error problem).mp found
    rw [if_neg (Check.not_all_of_fault? fault)]
    rfl
  | ok href =>
    obtain ⟨all, has⟩ := (ok href).mp found
    rw [if_pos all, has]
    rfl

theorem takes_eq (ctx : Context) (e : Element) : rule.takes ctx e = accepted? ctx e := by
  obtain ⟨error, ok⟩ := reference_iff e
  have key : rule.key = "href" := rfl
  rw [Rule.takes, Rule.checks, key, accepted?, reference?, List.all_append]
  cases found : reference e with
  | error problem =>
    have fault := (error problem).mp found
    simp [Check.not_all_of_fault? fault, Except.toOption]
  | ok href =>
    obtain ⟨all, has⟩ := (ok href).mp found
    rw [all, has]
    cases there : ctx.isFile (ctx.assetPath href) <;> simp [Option.filter, Except.toOption, there]

theorem one_warnings (ctx : Context) (dest : Destination) (started : Bool) (e : Element) :
    (one ctx dest started e).events.filterMap Report.warning? =
      (Check.fault? (rule.checks ctx e)).toList := by
  obtain ⟨error, ok⟩ := reference_iff e
  refine (Log.filterMap_emit_bind rfl _).trans ?_
  have key : rule.key = "href" := rfl
  rw [Rule.checks, Check.fault?_append, key]
  cases found : reference e with
  | error problem =>
    rw [(error problem).mp found]
    rfl
  | ok href =>
    obtain ⟨all, has⟩ := (ok href).mp found
    rw [Check.fault?_eq_none.mpr all, has, Option.none_or, Option.any_some]
    have asked : (ctx.asset href).outcome = .ok (ctx.isFile (ctx.assetPath href)) := rfl
    refine (Log.filterMap_bind _ asked _).trans ?_
    cases ctx.isFile (ctx.assetPath href) with
    | false => rfl
    | true =>
      have behind (tags : List String) :=
        (instruct_silent ⟨.styleCompile, ctx.target, href, dest.full⟩).bind
          fun _ => Log.Silent.pure tags
      cases started with
      | true => exact Log.Silent.bind (.pure []) behind
      | false => exact (addTag_silent (linkTag dest.short)).bind behind

theorem work_eq (ctx : Context) (dest : Destination) (e : Element) : work ctx dest e =
    (rule.takes ctx e).elim [] fun href => [⟨.styleCompile, ctx.target, href, dest.full⟩] := by
  rw [takes_eq, work]
  cases accepted? ctx e <;> rfl

theorem compile_takes {block : Block} {short : String} (addressed : block.AddressedTo short)
    (ctx : Context) :
    let dest := ctx.destination short
    let links := inside "link" block
    Accounts rule ctx (fun _ href => [⟨.styleCompile, ctx.target, href, dest.full⟩])
      (allTags ctx dest false links) links (process block ctx) :=
  deeds.accounts (fun dest _ href => [⟨.styleCompile, ctx.target, href, dest.full⟩])
    (asks_eq ctx) (work_eq ctx) (one_warnings ctx) "link" addressed

end Stylesheets
end AssetBlocks
