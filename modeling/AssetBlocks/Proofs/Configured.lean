import AssetBlocks.Command.Plan
import AssetBlocks.Proofs.Replacement

/-! Processors of configurations. What a configuration is checked for is what processors and
registries need, so one that is loaded always gives a processor, and the failures that a
processor or a registry could end a command by are never met. -/
namespace AssetBlocks
open Text

theorem isTag_iff_forall {s : String} :
    isTag s = true ↔ s ≠ "" ∧ ∀ ch ∈ s.toList, isBlank ch = false ∧ ch ≠ ':' := by
  simp [isTag]

theorem Registry.alias?_isSome (r : Registry) {kind name : String} :
    (r.alias? kind name).isSome = Handler.builtinNames.contains name := by
  rw [alias?, Option.isSome_map, Handler.builtin?_isSome]

namespace Processor
variable {p : Processor}

theorem Ends.error {ms : List (Match Directive)} {tail : List Char} {events : List Event}
    {outcome : Except DocumentError String} {e : DocumentError}
    (ends : Ends p ms tail events outcome) (failed : outcome = .error e) :
    (∃ line text, e = .missingEndTag line text) ∨ ∃ kind source, e = .handler kind source := by
  cases ends with
  | @finished _ s all =>
    unfold finish at failed
    split at failed
    · cases failed
    · next top rest _ => exact Or.inl ⟨top.line, top.text, (Except.error.inj failed).symm⟩
  | stopped split before move =>
    obtain rfl := Except.error.inj failed
    cases move with
    | singleFailed => exact Or.inr ⟨_, _, rfl⟩
    | closeFailed => exact Or.inr ⟨_, _, rfl⟩

theorem process_error {document : String} {e : DocumentError}
    (failed : (p.process document).outcome = .error e) :
    (∃ line text, e = .missingEndTag line text) ∨ ∃ kind source, e = .handler kind source :=
  (p.process_ends document).error failed

end Processor

namespace Config
variable {c : Config}

theorem check_eq_ok_iff : c.check = .ok c ↔ c.Valid := by
  rw [← fault?_eq_none_iff]
  unfold check
  cases c.fault? <;> simp

theorem check_eq_ok_iff_tag (target : c.settings.target ≠ "")
    (aliases : ∀ entry ∈ c.aliases, entry.2 ∈ Handler.builtinNames) :
    c.check = .ok c ↔ (Tag.ofString? c.settings.tag).isSome = true := by
  rw [check_eq_ok_iff, Tag.ofString?_isSome]
  exact ⟨Valid.tag, fun tag => ⟨tag, target, aliases⟩⟩

end Config

namespace Command
variable {s : Surroundings} {input : Path} {o : BlockOptions}

theorem addAliases_ok {registry : Registry} {aliases : List (String × String)}
    (builtin : registry.Builtin)
    (known : ∀ entry ∈ aliases, entry.2 ∈ Handler.builtinNames) :
    ∃ added, addAliases registry aliases = .ok added ∧ added.Builtin := by
  induction aliases generalizing registry with
  | nil => exact ⟨registry, rfl, builtin⟩
  | cons entry rest ih =>
    obtain ⟨kind, name⟩ := entry
    have there : (registry.alias? kind name).isSome = true := by
      rw [registry.alias?_isSome]
      simpa using known (kind, name) (by simp)
    obtain ⟨more, made⟩ := Option.isSome_iff_exists.mp there
    rw [addAliases, made]
    exact ih (builtin.alias? made) fun other inside => known other (by simp [inside])

theorem processorOf_ok {c : Config} (s : Surroundings) (valid : c.Valid) :
    ∃ p, processorOf s c = .ok p ∧ p.tag.name = c.settings.tag ∧ p.registry.Builtin := by
  obtain ⟨added, taken, builtin⟩ :=
    addAliases_ok Registry.withBuiltins_builtin valid.aliases
  refine ⟨⟨⟨c.settings.tag, valid.tag⟩, added,
    ⟨c.settings.baseDir, c.settings.sourceDir, c.settings.target, s.isFile⟩⟩, ?_, rfl, builtin⟩
  simp only [processorOf, Processor.make, Tag.ofString?, valid.tag, dite_true]
  change (addAliases .withBuiltins c.aliases >>= fun _ => _) = _
  rw [taken]
  rfl

/-- Failures that a command can end by: all but those of a tag or an alias, which the
configuration has been checked for before. -/
def Failure.Expected : Failure → Prop
  | unknownHandler .. => False
  | document (.invalidTag _) => False
  | _ => True

theorem loadProcessor_error {failure : Failure} (failed : loadProcessor s o = .error failure) :
    ∃ e, failure = .config e := by
  unfold loadProcessor at failed
  cases loaded : Config.load s o.config o.overrides with
  | error e =>
    rw [loaded] at failed
    exact ⟨e, (Except.error.inj failed).symm⟩
  | ok c =>
    obtain ⟨p, made, _⟩ := processorOf_ok s (Config.valid_of_load loaded)
    rw [loaded] at failed
    change processorOf s c = _ at failed
    cases made.symm.trans failed

theorem prepared_error {failure : Failure} (failed : prepared s input o = .error failure) :
    failure.Expected := by
  unfold prepared at failed
  cases loaded : loadProcessor s o with
  | error e =>
    rw [loaded] at failed
    obtain rfl := Except.error.inj failed
    obtain ⟨e, rfl⟩ := loadProcessor_error loaded
    trivial
  | ok p =>
    rw [loaded] at failed
    cases found : s.readText input with
    | error e =>
      rw [found] at failed
      obtain rfl := Except.error.inj failed
      trivial
    | ok document =>
      rw [found] at failed
      cases failed

theorem Failure.Expected.of_document {p : Processor} {document : String} {e : DocumentError}
    (failed : (p.process document).outcome = .error e) : (Failure.document e).Expected := by
  rcases Processor.process_error failed with ⟨_, _, rfl⟩ | ⟨_, _, rfl⟩ <;> trivial

theorem processed_error {failure : Failure} (failed : processed s input o = .error failure) :
    failure.Expected := by
  cases ready : prepared s input o with
  | error e =>
    obtain rfl := Except.error.inj ((processed_of_error ready).symm.trans failed)
    exact prepared_error ready
  | ok found =>
    obtain ⟨p, document⟩ := found
    rw [processed_of_ok ready] at failed
    cases made : (p.process document).outcome with
    | error e =>
      rw [made] at failed
      obtain rfl := Except.error.inj failed
      exact .of_document made
    | ok output =>
      rw [made] at failed
      cases failed

theorem plan_failure {command : Command} {failure : Failure}
    (failed : (command.plan s).failure = some failure) : failure.Expected := by
  cases command with
  | build input output instructions o =>
    simp only [plan, buildPlan] at failed
    split at failed
    · next e stopped =>
      obtain rfl := Option.some.inj failed
      exact processed_error stopped
    · cases failed
  | check input strict o =>
    simp only [plan, checkPlan] at failed
    split at failed
    · next e stopped =>
      obtain rfl := Option.some.inj failed
      exact processed_error (checked_eq_error_iff.mp stopped)
    · split at failed
      · obtain rfl := Option.some.inj failed
        trivial
      · cases failed

end Command

/-- A configuration that is loaded, from wherever its settings are, has a tag, a target and
aliases that processors and registries take, so it gives a processor; no command ends by a
tag or an alias that is refused. The tag of a configuration is refused by processors exactly
if it is by the check. -/
theorem Config.load_builds (s : Surroundings) (named : Option Path) (o : Settings.Overrides) :
    (∀ c, Config.load s named o = .ok c →
      (c.settings.tag ≠ "" ∧ ∀ ch ∈ c.settings.tag.toList, isBlank ch = false ∧ ch ≠ ':') ∧
      c.settings.target ≠ "" ∧ (∀ entry ∈ c.aliases, entry.2 ∈ Handler.builtinNames) ∧
      (Tag.ofString? c.settings.tag).isSome = true ∧
      (∀ registry : Registry, ∀ entry ∈ c.aliases,
        (registry.alias? entry.1 entry.2).isSome = true) ∧
      ∃ p, Command.processorOf s c = .ok p ∧ p.tag.name = c.settings.tag ∧
        p.registry.Builtin) ∧
    (∀ (command : Command) (failure : Command.Failure),
      (command.plan s).failure = some failure → failure.Expected) ∧
    (∀ c : Config, c.settings.target ≠ "" →
      (∀ entry ∈ c.aliases, entry.2 ∈ Handler.builtinNames) →
      (c.check = .ok c ↔ (Tag.ofString? c.settings.tag).isSome = true)) := by
  refine ⟨fun c loaded => ?_, fun command failure => Command.plan_failure,
    fun c => check_eq_ok_iff_tag⟩
  have valid := valid_of_load loaded
  refine ⟨isTag_iff_forall.mp valid.tag, valid.target, valid.aliases, ?_, ?_,
    Command.processorOf_ok s valid⟩
  · rw [Tag.ofString?_isSome, valid.tag]
  · intro registry entry inside
    rw [registry.alias?_isSome]
    simpa using valid.aliases entry inside

/-- A file with a tag and an alias of its own, a target from the command line, a document with
a block that is not ended, and a tag with a space in it. -/
theorem Config.load_builds_alias : ∃ (tree : FileTree) (s : Surroundings) (c refused : Config)
    (failure : Command.Failure),
    tree = ((FileTree.empty.place ["w", "blockmin.toml"]
      (.file "[blocks]\ntag = \"t\"\n[aliases]\nx = \"js\"\n".toUTF8)).place ["w", "a"]
      (.file "<!--t:x o-->".toUTF8)) ∧ s = tree.surroundings ⟨"/w"⟩ [] ∧
    Config.load s none ⟨none, none, none, some "p"⟩ = .ok c ∧ c.settings.tag = "t" ∧
    c.settings.target = "p" ∧ c.aliases = [("x", "js")] ∧
    (∃ p, Command.processorOf s c = .ok p ∧ p.tag.name = "t" ∧ p.registry.Builtin) ∧
    ((Command.check ⟨"a"⟩ false ⟨none, .none⟩).plan s).failure = some failure ∧
    failure = .document (.missingEndTag 1 "<!--t:x o-->") ∧ failure.Expected ∧
    refused.settings.tag = "a b" ∧ refused.settings.target ≠ "" ∧
    (∀ entry ∈ refused.aliases, entry.2 ∈ Handler.builtinNames) ∧
    ¬ refused.check = .ok refused := by
  let tree := (FileTree.empty.place ["w", "blockmin.toml"]
    (.file "[blocks]\ntag = \"t\"\n[aliases]\nx = \"js\"\n".toUTF8)).place ["w", "a"]
    (.file "<!--t:x o-->".toUTF8)
  let s := tree.surroundings ⟨"/w"⟩ []
  let c : Config :=
    ⟨⟨"t", ⟨"/w/dist"⟩, ⟨"/w"⟩, "p"⟩, [("x", "js")], some ⟨"/w/blockmin.toml"⟩⟩
  let refused : Config := ⟨⟨"a b", ⟨"."⟩, ⟨"."⟩, "p"⟩, [], none⟩
  have loaded : Config.load s none ⟨none, none, none, some "p"⟩ = .ok c := by decide +kernel
  have failed : ((Command.check ⟨"a"⟩ false ⟨none, .none⟩).plan s).failure =
      some (.document (.missingEndTag 1 "<!--t:x o-->")) := by decide +kernel
  obtain ⟨builds, expected, refuses⟩ := load_builds s none ⟨none, none, none, some "p"⟩
  obtain ⟨_, _, _, _, _, made⟩ := builds c loaded
  have aliases : ∀ entry ∈ refused.aliases, entry.2 ∈ Handler.builtinNames :=
    fun _ inside => absurd inside List.not_mem_nil
  have check := refuses refused (by decide) aliases
  exact ⟨tree, s, c, refused, _, rfl, rfl, loaded, rfl, rfl, rfl, made, failed, rfl,
    expected _ _ failed, rfl, by decide, aliases,
    fun passed => absurd (check.mp passed) (by decide +kernel)⟩

end AssetBlocks
