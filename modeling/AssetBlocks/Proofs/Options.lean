import AssetBlocks.Proofs.Fields
import AssetBlocks.Proofs.Names
import AssetBlocks.Proofs.Work

/-! The options of a module bundle. The directory and the name of a main module are taken
from its path, and lead to that path again when they are joined; options that a directive
gives are put in over those. -/
namespace AssetBlocks.Modules

/-- The directory of a main module, or the base directory where it has none. -/
def base (main : String) (baseDir : Path) : Path :=
  match Path.parent? ⟨main⟩ with
  | some dir => if dir.text.isEmpty then baseDir else dir
  | none => baseDir

theorem get?_options (main : String) (dest : Destination) (baseDir : Path) (key : String) :
    (options main dest baseDir).get? key =
      if key = "mainConfigFile" then some (.text (main ++ ".js"))
      else if key = "out" then some (.text dest.full.text)
      else if key = "name" then some (.text ((Path.fileName? ⟨main⟩).getD main))
      else if key = "baseUrl" then some (.text (base main baseDir).text)
      else none := by
  unfold options
  simp only [Json.Fields.ofList, List.foldl_cons, List.foldl_nil, Json.Fields.get?_insert]
  rfl

variable {main name : String} {front back : List Char}

theorem base_of_alone (named : Path.Named ⟨main⟩ [] name back) (baseDir : Path) :
    base main baseDir = baseDir := by
  rw [base, named.parent?_eq]
  rfl

theorem base_of_front (named : Path.Named ⟨main⟩ front name back) (nonempty : front ≠ [])
    (baseDir : Path) : base main baseDir = ⟨String.ofList (Path.above front)⟩ := by
  have above : (String.ofList (Path.above front)).isEmpty = false := by
    refine Bool.eq_false_iff.mpr fun empty => nonempty (Path.above_eq_nil_iff.mp ?_)
    simpa using empty
  simp only [base, named.parent?_eq, above, Bool.false_eq_true, if_false]

/-- The base and the name of the options lead to the main module, and other options that a
directive gives change nothing but what they are for. -/
theorem options_split (main : String) (dest : Destination) (baseDir : Path) :
    (∀ name, (Path.components ⟨main⟩).getLast? = some (.name name) →
      '/' ∉ name.toList ∧ (options main dest baseDir).get? "name" = some (.text name) ∧
      (∃ front back, Path.Named ⟨main⟩ front name back) ∧
      ∀ front back, Path.Named ⟨main⟩ front name back →
        (front ≠ [] → ∃ base, (options main dest baseDir).get? "baseUrl" = some (.text base) ∧
          (Path.join ⟨base⟩ name).components = Path.components ⟨main⟩) ∧
        (front = [] → (options main dest baseDir).get? "baseUrl" = some (.text baseDir.text) ∧
          Path.components ⟨main⟩ = [.name name])) ∧
    (options main dest baseDir).get? "mainConfigFile" = some (.text (main ++ ".js")) ∧
    (options main dest baseDir).get? "out" = some (.text dest.full.text) ∧
    (∀ key, key ∉ ["baseUrl", "name", "out", "mainConfigFile"] →
      (options main dest baseDir).get? key = none) ∧
    Handler.builtin? "requirejs" = some .modules ∧
    ∀ block ctx args, ModuleArguments.parse block.args = .ok args →
      ∃ fields, (Handler.modules.process block ctx).Does []
          (work (args.target.getD ctx.target) (args.target.getD ctx.target) args.main
            (given args ctx) fields) (.lines [scriptTag (given args ctx).short]) ∧
        fields.Ascending ∧ ∀ key, fields.get? key = (args.options.get? key).or
          ((options args.main (given args ctx) ctx.baseDir).get? key) := by
  refine ⟨fun name last => ?_, ?_, ?_, fun key other => ?_, rfl, fun block ctx args parsed => ?_⟩
  · obtain ⟨front, back, named⟩ := Path.exists_named last
    refine ⟨named.ordinary.solid, ?_, ⟨front, back, named⟩, fun front back named => ⟨?_, ?_⟩⟩
    · rw [get?_options, named.fileName]
      simp
    · intro nonempty
      refine ⟨(base main baseDir).text, by simp [get?_options], ?_⟩
      rw [base_of_front named nonempty, Path.components_join named.ordinary, Path.components_above,
        named.components]
    · rintro rfl
      refine ⟨?_, named.components⟩
      rw [get?_options, base_of_alone named]
      simp
  · rw [get?_options]
    simp
  · rw [get?_options]
    simp
  · rw [get?_options]
    simp_all
  · have ascending := Json.Fields.ascending_ofList
    refine ⟨_, process_does parsed ctx, (ascending _).extend _, fun key => ?_⟩
    exact Json.Fields.get?_extend (ModuleArguments.parse_options parsed)

/-- A path with empty parts and dots, and a directive that looks for its modules elsewhere. -/
theorem options_split_dotted :
    ∃ (main base : String) (dest : Destination) (baseDir : Path), main = "./js//main/." ∧
      (options main dest baseDir).get? "name" = some (.text "main") ∧
      (options main dest baseDir).get? "baseUrl" = some (.text base) ∧
      (Path.join ⟨base⟩ "main").components = [.here, .name "js", .name "main"] ∧
      ∃ (block : Block) (ctx : Context) (args : ModuleArguments) (fields : Json.Fields),
        block.args = some "./js//main/. \x7b\"baseUrl\": \"lib\"\x7d" ∧
        (Handler.modules.process block ctx).Does []
          (work (args.target.getD ctx.target) (args.target.getD ctx.target) main
            (given args ctx) fields) (.lines [scriptTag (given args ctx).short]) ∧
        fields.get? "name" = some (.text "main") ∧
        (fields.get? "baseUrl").map Json.compact = some "\"lib\"" := by
  let main := "./js//main/."
  let ctx : Context := ⟨⟨"/www"⟩, ⟨"/src"⟩, "dist", fun _ => true⟩
  let block : Block := ⟨"requirejs", some "./js//main/. \x7b\"baseUrl\": \"lib\"\x7d", none, ""⟩
  have last : (Path.components ⟨main⟩).getLast? = some (.name "main") := by decide +kernel
  have all : Path.components ⟨main⟩ = [.here, .name "js", .name "main"] := by decide +kernel
  have ordinary : Path.Ordinary "main" := ⟨⟨by decide, by decide, by decide⟩, by decide⟩
  have named : Path.Named ⟨main⟩ "./js//".toList "main" "/.".toList :=
    ⟨by decide, ordinary, Or.inr (by decide), .dot .nil⟩
  have words : (ModuleArguments.parse block.args).toOption.map (fun args =>
      (args.main, (args.options.get? "name").isNone,
        (args.options.get? "baseUrl").map Json.compact)) =
      some (main, true, some "\"lib\"") := by decide +kernel
  cases parsed : ModuleArguments.parse block.args with
  | error e =>
    rw [parsed] at words
    cases words
  | ok args =>
    rw [parsed] at words
    obtain ⟨same, rest⟩ := Prod.mk.inj (Option.some.inj words)
    obtain ⟨free, elsewhere⟩ := Prod.mk.inj rest
    obtain ⟨splits, _, _, _, _, directive⟩ := options_split main (given args ctx) ctx.baseDir
    obtain ⟨_, name, _, base⟩ := splits "main" last
    obtain ⟨base, url, joined⟩ := (base _ _ named).1 (by decide)
    obtain ⟨fields, does, _, merged⟩ := directive block ctx args parsed
    rw [same] at does merged
    rw [all] at joined
    refine ⟨main, base, given args ctx, ctx.baseDir, rfl, name, url, joined, block, ctx, args,
      fields, rfl, does, ?_, ?_⟩
    · rw [merged, Option.isNone_iff_eq_none.mp free, name]
      rfl
    · rw [merged]
      cases lib : args.options.get? "baseUrl" with
      | none =>
        rw [lib] at elsewhere
        cases elsewhere
      | some json =>
        rw [lib] at elsewhere
        exact elsewhere

end AssetBlocks.Modules
