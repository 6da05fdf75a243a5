import AssetBlocks.Proofs.Accounting
import AssetBlocks.Proofs.Attributes

/-! How many of the start tags in a block are built or warned about. Each one is that is seen;
of the others nothing is said, though they are gone with the block. -/
namespace AssetBlocks
open Text

namespace Trace
variable {ε α : Type}

/-- How often there is work of a kind for what is written to a path. -/
def built (t : Trace ε α) (task : String) (dest : Path) : Nat :=
  (t.events.filterMap Report.instruction?).countP fun i => i.task.name = task ∧ i.dest = dest

def warned (t : Trace ε α) : Nat := (t.events.filterMap Report.warning?).length

end Trace

namespace Elements
variable {rule : Rule} {ctx : Context} {work : Element → String → List Instruction}
  {lines : List String} {es : List Element} {t : Trace HandlerError Replacement}

/-- Where each element that is taken gives one more instruction of a sort than of another, the
elements are as many more, if those are added that are warned about. -/
theorem Accounts.count (accounts : Accounts rule ctx work lines es t)
    (sort other : Instruction → Bool)
    (each : ∀ e reference, (work e reference).countP sort = (work e reference).countP other + 1) :
    (t.events.filterMap Report.instruction?).countP sort + t.warned =
      es.length + (t.events.filterMap Report.instruction?).countP other := by
  rw [Trace.warned, accounts.work, accounts.warnings]
  clear accounts
  induction es with
  | nil => rfl
  | cons e es ih =>
    have warned : (Check.fault? (rule.checks ctx e)).isSome = (rule.takes ctx e).isNone :=
      Rule.fault?_isSome
    simp only [List.flatMap_cons, List.countP_append, List.filterMap_cons, List.length_cons]
    cases taken : rule.takes ctx e with
    | none =>
      rw [taken] at warned
      obtain ⟨message, fault⟩ := Option.isSome_iff_exists.mp warned
      simp only [fault, Option.elim_none, List.countP_nil, List.length_cons]
      omega
    | some reference =>
      rw [taken] at warned
      have fault := Option.not_isSome_iff_eq_none.mp (Bool.not_eq_true _ ▸ warned)
      have one := each e reference
      simp only [fault, Option.elim_some]
      omega

end Elements

namespace Scripts
variable {block : Block} {short : String}

theorem moduleWork_count (ctx : Context) (e : Element) (dest : Path) :
    (moduleWork ctx e).countP (fun i => i.task.name = "bundle" ∧ i.dest = dest) =
      (moduleWork ctx e).countP (fun i => i.task.name = "module-bundle" ∧ i.dest = dest) := by
  unfold moduleWork
  cases e.attribute? "data-main" with
  | none => rfl
  | some main => simp [Modules.work, Task.name, List.countP_cons]

theorem built_add_warned (addressed : block.AddressedTo short) (ctx : Context) :
    (process block ctx).built "bundle" (ctx.destination short).full +
        (process block ctx).warned =
      (Elements.inside "script" block).length +
        (process block ctx).built "module-bundle" (ctx.destination short).full := by
  apply (bundle_takes addressed ctx).count _ fun i =>
    i.task.name = "module-bundle" ∧ i.dest = (ctx.destination short).full
  intro e src
  have first := moduleWork_count ctx e (ctx.destination short).full
  simp only [List.countP_cons, first]
  simp [Task.name]

theorem built_module_eq_zero (addressed : block.AddressedTo short) (ctx : Context) (dest : Path)
    (absent : ∀ e ∈ Elements.inside "script" block, e.attribute? "data-main" = none) :
    (process block ctx).built "module-bundle" dest = 0 := by
  rw [Trace.built, (bundle_takes addressed ctx).work, List.countP_eq_zero]
  intro i inside
  obtain ⟨e, member, part⟩ := List.mem_flatMap.mp inside
  have modules : moduleWork ctx e = [] := by rw [moduleWork, absent e member]
  cases taken : rule.takes ctx e with
  | none => simp [taken] at part
  | some src =>
    rw [taken, Option.elim_some, modules, List.mem_singleton] at part
    simp [part, Task.name]

end Scripts

namespace Stylesheets
variable {block : Block} {short : String}

theorem built_add_warned (addressed : block.AddressedTo short) (ctx : Context) :
    (process block ctx).built "style-compile" (ctx.destination short).full +
        (process block ctx).warned =
      (Elements.inside "link" block).length := by
  have count := (compile_takes addressed ctx).count
    (fun i => i.task.name = "style-compile" ∧ i.dest = (ctx.destination short).full)
    (fun _ => false) (by simp [Task.name])
  rwa [List.countP_false] at count

end Stylesheets

/-- The start tags in a block with a destination. Those are built or warned about that are seen,
and a script is bundled once, unless its attributes can be read as naming a module. So each one
is accounted for if and only if each one is seen. -/
theorem openings_built (ctx : Context) (block : Block) (short : String) (pieces : List Piece)
    (addressed : block.AddressedTo short)
    (written : (block.contents.getD "").toList = markup pieces) :
    let own := (ctx.destination short).full
    let tags := openings pieces
    let seen := tags.filter (·.Seen)
    ((∀ piece ∈ pieces, piece.Plain "script".toList) →
      let t := Scripts.process block ctx
      t.built "bundle" own + t.warned = seen.length + t.built "module-bundle" own ∧
      ((∀ tag ∈ tags, ∀ a ∈ tag.attributes, ¬ a.Names "data-main".toList) →
        t.built "module-bundle" own = 0 ∧
        (t.built "bundle" own + t.warned = tags.length ↔ ∀ tag ∈ tags, tag.Seen))) ∧
    ((∀ piece ∈ pieces, piece.Plain "link".toList) →
      let t := Stylesheets.process block ctx
      t.built "style-compile" own + t.warned = seen.length ∧
      (t.built "style-compile" own + t.warned = tags.length ↔ ∀ tag ∈ tags, tag.Seen)) := by
  intro own tags seen
  have all : seen.length = tags.length ↔ ∀ tag ∈ tags, tag.Seen := by
    simp [seen, List.length_filter_eq_length_iff]
  constructor
  · intro plain t
    have inside : Elements.inside "script" block = seen.map StartTag.element :=
      Element.extract_markup rfl (List.all_eq_true.mp (by decide)) written plain
    have count := Scripts.built_add_warned addressed ctx
    rw [inside, List.length_map] at count
    refine ⟨count, fun unnamed => ?_⟩
    have modules : t.built "module-bundle" own = 0 := by
      apply Scripts.built_module_eq_zero addressed
      intro e member
      rw [inside] at member
      obtain ⟨tag, found, rfl⟩ := List.mem_map.mp member
      have listed : tag ∈ tags := List.mem_of_mem_filter found
      have attributes := (openings_plain plain listed).attributes_plain
      exact tag.attribute?_eq_none attributes (unnamed tag listed)
    refine ⟨modules, ?_⟩
    rw [count, modules, Nat.add_zero]
    exact all
  · intro plain t
    have inside : Elements.inside "link" block = seen.map StartTag.element :=
      Element.extract_markup rfl (List.all_eq_true.mp (by decide)) written plain
    have count := Stylesheets.built_add_warned addressed ctx
    rw [inside, List.length_map] at count
    refine ⟨count, ?_⟩
    rw [count]
    exact all

/-- A script that goes over two lines is neither built nor warned about, and nor is a link that
has a tab behind its name. -/
theorem openings_built_wrapped :
    let ctx : Context := ⟨⟨"."⟩, ⟨"."⟩, "default", fun _ => true⟩
    let src : List Char := "src".toList
    let href : List Char := "href".toList
    let scripts : List Piece := [
      .opening ⟨"SCRIPT".toList, [⟨[' '], src, "a.js".toList⟩], false⟩,
      .closing "script".toList, .text ['\n'],
      .opening ⟨"script".toList, [⟨[' '], src, "b.js".toList⟩,
        ⟨['\n', ' '], "defer".toList, "defer".toList⟩], false⟩,
      .closing "script".toList]
    let links : List Piece := [
      .opening ⟨"link".toList, [⟨[' '], href, "a.less".toList⟩], true⟩, .text ['\n'],
      .opening ⟨"link".toList, [⟨['\t'], href, "b.less".toList⟩], true⟩]
    let js : Block := ⟨"js", some "o.js", some (String.ofList (markup scripts)), ""⟩
    let less : Block := ⟨"less", some "o.css", some (String.ofList (markup links)), ""⟩
    let bundled := Scripts.process js ctx
    let compiled := Stylesheets.process less ctx
    (openings scripts).length = 2 ∧ bundled.built "bundle" ⟨"./o.js"⟩ + bundled.warned = 1 ∧
      (openings links).length = 2 ∧
      compiled.built "style-compile" ⟨"./o.css"⟩ + compiled.warned = 1 := by
  intro ctx src href scripts links js less bundled compiled
  have first {short : String} (nonempty : short.toList ≠ [])
      (solid : short.toList.all (!isGap ·) = true) : FirstWord short.toList short.toList :=
    ⟨nonempty, by simpa using solid, [], [], by simp, by simp, by simp⟩
  have unnamed : ∀ tag ∈ openings scripts, ∀ a ∈ tag.attributes, ¬ a.Names "data-main".toList := by
    have plain : ∀ tag ∈ openings scripts, ∀ a ∈ tag.attributes,
        a.name.map Char.toLower ≠ "data-main".toList ∧ '=' ∉ a.value := by decide
    rintro tag opened a member (named | ⟨name, _, ends⟩)
    · exact (plain tag opened a member).1 named
    · exact (plain tag opened a member).2 (ends.subset (by simp))
  obtain ⟨count, alone⟩ := (openings_built ctx js "o.js" scripts
    ⟨"o.js", rfl, first (by decide) (by decide)⟩ String.toList_ofList).1 (by decide)
  have count' := ((openings_built ctx less "o.css" links
    ⟨"o.css", rfl, first (by decide) (by decide)⟩ String.toList_ofList).2 (by decide)).1
  have modules := (alone unnamed).1
  have own : (ctx.destination "o.js").full = ⟨"./o.js"⟩ := by decide
  have own' : (ctx.destination "o.css").full = ⟨"./o.css"⟩ := by decide
  have seen : ((openings scripts).filter (·.Seen)).length = 1 := by decide
  have seen' : ((openings links).filter (·.Seen)).length = 1 := by decide
  rw [modules, seen, own] at count
  rw [seen', own'] at count'
  exact ⟨rfl, count, rfl, count'⟩

end AssetBlocks
