import AssetBlocks.Proofs.Counting
import AssetBlocks.Proofs.Written

/-! A check beside a build of the same document. Both load the configuration, read the document
and process it before they do anything; so they fail alike, and where they do not, the check
tells of the warnings and the instructions that the build has. -/
namespace AssetBlocks.Command
variable {s : Surroundings} {input : Path} {o : BlockOptions} {p : Processor}
  {document text : String} {failure : Failure} {cwd : Path} {tree : FileTree}

/-- All that a command does before it has effects succeeds: the configuration gives a processor,
the document can be read, and it becomes a text. -/
structure Succeeds (s : Surroundings) (input : Path) (o : BlockOptions) (p : Processor)
    (document text : String) : Prop where
  config : ∃ c, Config.load s o.config o.overrides = .ok c ∧ processorOf s c = .ok p
  read : s.readText input = .ok document
  processed : (p.process document).outcome = .ok text

theorem Succeeds.prepared (succeeds : Succeeds s input o p document text) :
    prepared s input o = .ok (p, document) := by
  obtain ⟨c, loaded, made⟩ := succeeds.config
  have loader : loadProcessor s o = .ok p := by
    unfold loadProcessor
    rw [loaded]
    exact made
  unfold Command.prepared
  rw [loader, succeeds.read]
  rfl

theorem succeeds_of_prepared (ready : prepared s input o = .ok (p, document))
    (made : (p.process document).outcome = .ok text) : Succeeds s input o p document text := by
  obtain ⟨p', loaded, ready⟩ := ok_of_bind ready
  obtain ⟨document', read, same⟩ := ok_of_bind ready
  obtain ⟨rfl, rfl⟩ := Prod.mk.inj (Except.ok.inj same)
  obtain ⟨c, config, processor⟩ := ok_of_bind loaded
  exact ⟨⟨c, ok_of_mapError config, processor⟩, ok_of_mapError read, made⟩

theorem succeeds_or_fails (s : Surroundings) (input : Path) (o : BlockOptions) :
    (∃ p document text, Succeeds s input o p document text) ∨
      ∃ failure, processed s input o = .error failure := by
  cases ready : prepared s input o with
  | error failure => exact Or.inr ⟨failure, processed_of_error ready⟩
  | ok found =>
    obtain ⟨p, document⟩ := found
    cases made : (p.process document).outcome with
    | error e =>
      refine Or.inr ⟨.document e, ?_⟩
      rw [processed_of_ok ready, made]
      rfl
    | ok text => exact Or.inl ⟨p, document, text, succeeds_of_prepared ready made⟩

namespace Succeeds

theorem processed_eq (succeeds : Succeeds s input o p document text) :
    Command.processed s input o = .ok ⟨(p.process document).events, text⟩ := by
  rw [processed_of_ok succeeds.prepared, succeeds.processed]
  rfl

theorem checked_eq (succeeds : Succeeds s input o p document text) :
    checked s input o = .ok ⟨p, .ofEvents (p.process document).events⟩ := by
  rw [checked_of_ok succeeds.prepared, succeeds.processed]
  rfl

end Succeeds

theorem check_of_error (failed : processed s input o = .error failure) (strict : Bool) :
    (checkPlan s input strict o).perform cwd (.start tree) = (⟨tree, [failure.line], ""⟩, 1) := by
  rw [checkPlan, checked_eq_error_iff.mpr failed]
  rfl

theorem build_of_error (failed : processed s input o = .error failure)
    (output instructions : Option Path) :
    (buildPlan s input output instructions o).perform cwd (.start tree) =
      (⟨tree, [failure.line], ""⟩, 1) := by
  rw [buildPlan, failed]
  rfl

theorem check_of_succeeds (succeeds : Succeeds s input o p document text) (strict : Bool) :
    let c : Checked := ⟨p, .ofEvents (p.process document).events⟩
    let count := (Event.warnings (p.process document).events).length
    (checkPlan s input strict o).perform cwd (.start tree) =
      if strict = true ∧ 0 < count then
        (⟨tree, summary input c ++ [(Failure.warnings input count).line], ""⟩, 1)
      else (⟨tree, summary input c ++ [s!"{input.text} OK"], ""⟩, 0) := by
  have counted : (Tally.ofEvents (p.process document).events).warnings =
      Event.warnings (p.process document).events := by rw [Tally.ofEvents_eq]
  dsimp only
  rw [checkPlan, succeeds.checked_eq]
  dsimp only
  rw [counted]
  split
  · rw [Plan.perform, Session.perform_messages]
    rfl
  · rw [Plan.perform, Session.perform_messages]
    rfl

theorem check_code (succeeds : Succeeds s input o p document text) (strict : Bool) :
    ((checkPlan s input strict o).perform cwd (.start tree)).2 =
      if strict = true ∧ Event.warnings (p.process document).events ≠ [] then 1 else 0 := by
  rw [check_of_succeeds succeeds, apply_ite Prod.snd]
  simp only [List.length_pos_iff]

theorem summary_of_succeeds (succeeds : Succeeds s input o p document text) :
    let warnings := Event.warnings (p.process document).events
    let is := Event.instructions (p.process document).events
    summary input ⟨p, .ofEvents (p.process document).events⟩ =
      s!"Checked {input.text} (tag '{p.tag.name}', target '{p.context.target}')" ::
        (warnings.map ("Warning: " ++ ·) ++
          [s!"Blocks: {(p.tag.scan document).1.countP Processor.isBegin}",
            s!"Build instructions: {is.length}", s!"Warnings: {warnings.length}"]) := by
  rw [summary, Tally.ofEvents_eq, Processor.process_finishes succeeds.processed]
  rfl

theorem check_session (succeeds : Succeeds s input o p document text) (strict : Bool)
    (cwd : Path) (tree : FileTree) :
    let warnings := Event.warnings (p.process document).events
    ((checkPlan s input strict o).perform cwd (.start tree)).1 =
      ⟨tree, summary input ⟨p, .ofEvents (p.process document).events⟩ ++
        [if strict = true ∧ warnings ≠ [] then
            s!"Error: {input.text} has {warnings.length} warning(s)"
          else s!"{input.text} OK"], ""⟩ := by
  dsimp only
  rw [check_of_succeeds succeeds]
  simp only [List.length_pos_iff]
  split <;> rfl

/-- How a line begins that tells of a warning. -/
def Warns (line : String) : Prop := "Warning: ".toList <+: line.toList

theorem Failure.line_not_warns (failure : Failure) : ¬ Warns failure.line := by
  simp [Warns, line]

theorem wrote_not_warns (rest : String) : ¬ Warns ("Wrote " ++ rest) := by
  simp [Warns]

theorem repr_not_warns (n : Nat) (rest : String) : ¬ Warns (n.repr ++ rest) := by
  intro warns
  obtain ⟨c, cs, digits⟩ := List.exists_cons_of_ne_nil (Nat.toDigits_ne_nil (n := n) (b := 10))
  have digit : c.isDigit = true :=
    Nat.isDigit_of_mem_toDigits (by decide) (by decide) (digits ▸ List.mem_cons_self)
  have first : (n.repr ++ rest).toList = c :: (cs ++ rest.toList) := by
    rw [String.toList_append, Nat.repr_eq_ofList_toDigits, digits, String.toList_ofList]
    rfl
  rw [Warns, first] at warns
  have same : 'W' = c := (List.cons_prefix_cons.mp warns).1
  subst same
  cases digit

theorem effects_not_warns {is : List Instruction} {line : String}
    {output instructions : Option Path}
    (inside : .line line ∈ outputEffects text output ++ instructionEffects is instructions) :
    ¬ Warns line := by
  rcases List.mem_append.mp inside with inside | inside
  · cases output with
    | none => simp [outputEffects] at inside
    | some path =>
      obtain rfl : line = s!"Wrote {path.text}" := by simpa [outputEffects] using inside
      exact wrote_not_warns _
  · cases instructions with
    | some path =>
      obtain rfl : line = s!"Wrote {is.length} build instruction(s) to {path.text}" := by
        simpa [instructionEffects] using inside
      rw [String.append_assoc, String.append_assoc]
      exact wrote_not_warns _
    | none =>
      by_cases empty : is = []
      · simp [instructionEffects, empty] at inside
      · obtain rfl : line =
            s!"{is.length} build instruction(s) not written (use --instructions)" := by
          simpa [instructionEffects, empty] using inside
        exact repr_not_warns _ _

theorem build_perform (succeeds : Succeeds s input o p document text)
    (output instructions : Option Path) :
    (buildPlan s input output instructions o).perform cwd (.start tree) =
      Plan.perform ⟨outputEffects text output ++
        instructionEffects (Event.instructions (p.process document).events) instructions, none⟩
        cwd ⟨tree, warningLines (Event.warnings (p.process document).events), ""⟩ := by
  rw [buildPlan, succeeds.processed_eq]
  exact Plan.perform_messages cwd _ _ _

theorem build_lines (succeeds : Succeeds s input o p document text)
    (output instructions : Option Path) : ∃ rest,
      ((buildPlan s input output instructions o).perform cwd (.start tree)).1.lines =
        warningLines (Event.warnings (p.process document).events) ++ rest ∧
      ∀ line ∈ rest, ¬ Warns line := by
  rw [build_perform succeeds]
  obtain ⟨rest, lines, of⟩ := Plan.perform_lines ⟨outputEffects text output ++
    instructionEffects (Event.instructions (p.process document).events) instructions, none⟩ cwd
    ⟨tree, warningLines (Event.warnings (p.process document).events), ""⟩
  refine ⟨rest, lines, fun line inside => ?_⟩
  rcases of line inside with effect | ⟨failure, rfl⟩
  · exact effects_not_warns effect
  · exact failure.line_not_warns

theorem build_wrote {output : Option Path} (succeeds : Succeeds s input o p document text)
    {path : Path}
    (done : ((buildPlan s input output (some path) o).perform cwd (.start tree)).2 = 0) :
    let is := Event.instructions (p.process document).events
    let built := ((buildPlan s input output (some path) o).perform cwd (.start tree)).1
    built.tree.look cwd path = .ok (.file (Json.list (is.map Instruction.json)).pretty.toUTF8) ∧
      built.lines.getLast? =
        some s!"Wrote {is.length} build instruction(s) to {path.text}" := by
  rw [build_perform succeeds] at done ⊢
  refine ⟨Session.perform_wrote (Plan.perform_zero done), ?_⟩
  rw [instructionEffects, List.append_cons] at done ⊢
  exact Session.perform_said (Plan.perform_zero done)

theorem build_unwritten {output : Option Path} (succeeds : Succeeds s input o p document text)
    (done : ((buildPlan s input output none o).perform cwd (.start tree)).2 = 0)
    (nonempty : Event.instructions (p.process document).events ≠ []) :
    ((buildPlan s input output none o).perform cwd (.start tree)).1.lines.getLast? =
      let is := Event.instructions (p.process document).events
      some s!"{is.length} build instruction(s) not written (use --instructions)" := by
  rw [build_perform succeeds] at done ⊢
  rw [instructionEffects, if_neg nonempty] at done ⊢
  exact Session.perform_said (Plan.perform_zero done)

theorem build_printed (succeeds : Succeeds s input o p document text) :
    let built := (buildPlan s input none none o).perform cwd (.start tree)
    built.2 = 0 ∧ built.1.tree = tree ∧ built.1.printed = text := by
  dsimp only
  rw [build_perform succeeds]
  have printed : "" ++ text = text := String.empty_append
  by_cases empty : Event.instructions (p.process document).events = []
  · rw [instructionEffects, if_pos empty]
    exact ⟨rfl, rfl, printed⟩
  · rw [instructionEffects, if_neg empty]
    exact ⟨rfl, rfl, printed⟩

theorem run_of_ok {tree : FileTree} {cwd : Path} {environment : Environment}
    {words : List String} {command : Command}
    (read : ofArguments (environment.get? targetVariable) words = .ok command) :
    run tree cwd environment words =
      (command.plan (tree.surroundings cwd environment)).perform cwd (.start tree) := by
  rw [run, read]

/-- A check and a build of one document with the same options. They fail alike and then leave
everything as it was; where they do not, the check gives the warnings of the build, and its
figures are those of the document and of the build. -/
theorem check_predicts {tree : FileTree} {cwd : Path} {environment : Environment}
    {checkWords buildWords : List String} {strict : Bool} {output instructions : Option Path}
    (check : ofArguments (environment.get? targetVariable) checkWords =
      .ok (.check input strict o))
    (build : ofArguments (environment.get? targetVariable) buildWords =
      .ok (.build input output instructions o)) :
    let s := tree.surroundings cwd environment
    let checked := run tree cwd environment checkWords
    let built := run tree cwd environment buildWords
    (strict = false → (checked.2 = 0 ↔ ∃ p document text, Succeeds s input o p document text)) ∧
    (strict = true → (checked.2 = 1 ↔ (¬ ∃ p document text, Succeeds s input o p document text) ∨
      ∃ p document text, Succeeds s input o p document text ∧
        Event.warnings (p.process document).events ≠ [])) ∧
    ((¬ ∃ p document text, Succeeds s input o p document text) → ∃ failure : Failure,
      checked = (⟨tree, ["Error: " ++ failure.message], ""⟩, 1) ∧
      built = (⟨tree, ["Error: " ++ failure.message], ""⟩, 1)) ∧
    (∀ p document text, Succeeds s input o p document text →
      let warnings := Event.warnings (p.process document).events
      let is := Event.instructions (p.process document).events
      checked.1 = ⟨tree,
        s!"Checked {input.text} (tag '{p.tag.name}', target '{p.context.target}')" ::
          (warnings.map ("Warning: " ++ ·) ++
            [s!"Blocks: {(p.tag.scan document).1.countP Processor.isBegin}",
              s!"Build instructions: {is.length}", s!"Warnings: {warnings.length}",
              if strict = true ∧ warnings ≠ [] then
                s!"Error: {input.text} has {warnings.length} warning(s)"
              else s!"{input.text} OK"]), ""⟩ ∧
      (∃ rest, built.1.lines = warnings.map ("Warning: " ++ ·) ++ rest ∧
        ∀ line ∈ rest, ¬ Warns line) ∧
      (∀ path, instructions = some path → built.2 = 0 →
        (built.1.tree.surroundings cwd environment).readText path = .ok (if is = [] then "[]"
          else "[\n  " ++ String.intercalate ",\n  "
            (is.map fun i => i.json.prettyFrom "  ") ++ "\n]") ∧
        built.1.lines.getLast? =
          some s!"Wrote {is.length} build instruction(s) to {path.text}") ∧
      (instructions = none → built.2 = 0 → is ≠ [] → built.1.lines.getLast? =
        some s!"{is.length} build instruction(s) not written (use --instructions)") ∧
      (output = none → instructions = none →
        built.2 = 0 ∧ built.1.tree = tree ∧ built.1.printed = text)) := by
  intro s checked built
  have checks : checked = (checkPlan s input strict o).perform cwd (.start tree) :=
    run_of_ok check
  have builds : built = (buildPlan s input output instructions o).perform cwd (.start tree) :=
    run_of_ok build
  have fails (failure : Failure) (failed : processed s input o = .error failure) :
      checked = (⟨tree, [failure.line], ""⟩, 1) ∧ built = (⟨tree, [failure.line], ""⟩, 1) :=
    ⟨checks.trans (check_of_error failed strict),
      builds.trans (build_of_error failed output instructions)⟩
  have never (failure : Failure) (failed : processed s input o = .error failure) :
      ¬ ∃ p document text, Succeeds s input o p document text := by
    rintro ⟨p, document, text, succeeds⟩
    cases failed.symm.trans succeeds.processed_eq
  refine ⟨fun lenient => ?_, fun strictly => ?_, fun unable => ?_,
    fun p document text succeeds => ?_⟩
  · rcases succeeds_or_fails s input o with ⟨p, document, text, succeeds⟩ | ⟨failure, failed⟩
    · refine iff_of_true ?_ ⟨p, document, text, succeeds⟩
      rw [checks, check_code succeeds, lenient, if_neg (by simp)]
    · refine iff_of_false ?_ (never failure failed)
      rw [(fails failure failed).1]
      exact Nat.one_ne_zero
  · rcases succeeds_or_fails s input o with ⟨p, document, text, succeeds⟩ | ⟨failure, failed⟩
    · constructor
      · intro one
        by_cases silent : Event.warnings (p.process document).events = []
        · rw [checks, check_code succeeds, if_neg fun both => both.2 silent] at one
          cases one
        · exact Or.inr ⟨p, document, text, succeeds, silent⟩
      · rintro (unable | ⟨p', document', text', succeeds', warned⟩)
        · exact absurd ⟨p, document, text, succeeds⟩ unable
        · rw [checks, check_code succeeds', if_pos ⟨strictly, warned⟩]
    · refine iff_of_true ?_ (Or.inl (never failure failed))
      rw [(fails failure failed).1]
  · obtain ⟨failure, failed⟩ := (succeeds_or_fails s input o).resolve_left unable
    exact ⟨failure, fails failure failed⟩
  · refine ⟨?_, ?_, ?_, ?_, ?_⟩
    · rw [checks, check_session succeeds, summary_of_succeeds succeeds, List.cons_append,
        List.append_assoc]
      rfl
    · rw [builds]
      exact build_lines succeeds output instructions
    · rintro path rfl done
      rw [builds] at done ⊢
      obtain ⟨there, said⟩ := build_wrote succeeds done
      refine ⟨(FileTree.readText_of_look there environment).trans ?_, said⟩
      rw [Json.pretty_list, List.map_map]
      simp only [List.map_eq_nil_iff, Function.comp_def]
    · rintro rfl done nonempty
      rw [builds] at done ⊢
      exact build_unwritten succeeds done nonempty
    · rintro rfl rfl
      rw [builds]
      exact build_printed succeeds

/-- A document with an end tag too many and a module bundle. -/
theorem check_predicts_stray : ∃ (tree : FileTree) (p : Processor) (document text : String)
    (first second : String),
    tree = FileTree.empty.place ["w", "a"]
      (.file "<!--endbuild--><!--build:requirejs app/-->".toUTF8) ∧
    ofArguments (Environment.get? [] targetVariable) ["check", "a"] =
      .ok (.check ⟨"a"⟩ false ⟨none, .none⟩) ∧
    ofArguments (Environment.get? [] targetVariable) ["build", "a", "-i", "i"] =
      .ok (.build ⟨"a"⟩ none (some ⟨"i"⟩) ⟨none, .none⟩) ∧
    Succeeds (tree.surroundings ⟨"/w"⟩ []) ⟨"a"⟩ ⟨none, .none⟩ p document text ∧
    (run tree ⟨"/w"⟩ [] ["check", "a"]).2 = 0 ∧
    (run tree ⟨"/w"⟩ [] ["check", "a"]).1.lines =
      ["Checked a (tag 'build', target 'default')",
        "Warning: Stray end tag with no open block on line 1: <!--endbuild-->", "Blocks: 1",
        "Build instructions: 2", "Warnings: 1", "a OK"] ∧
    (run tree ⟨"/w"⟩ [] ["build", "a", "-i", "i"]).2 = 0 ∧
    first = "\x7b\n    \"kind\": \"module-bundle\",\n    \"target\": \"default\",\n" ++
      "    \"src\": \"app.js\",\n    \"dest\": \"/w/dist/app.js\",\n" ++
      "    \"options\": \x7b\n      \"baseUrl\": \"/w/dist\",\n" ++
      "      \"mainConfigFile\": \"app.js\",\n      \"name\": \"app\",\n" ++
      "      \"out\": \"/w/dist/app.js\"\n    \x7d\n  \x7d" ∧
    second = "\x7b\n    \"kind\": \"bundle\",\n    \"target\": \"default\",\n" ++
      "    \"src\": \"/w/dist/app.js\",\n    \"dest\": \"/w/dist/app.js\"\n  \x7d" ∧
    ((run tree ⟨"/w"⟩ [] ["build", "a", "-i", "i"]).1.tree.surroundings ⟨"/w"⟩ []).readText ⟨"i"⟩ =
      .ok ("[\n  " ++ (first ++ ",\n  " ++ second) ++ "\n]") := by
  let tree := FileTree.empty.place ["w", "a"]
    (.file "<!--endbuild--><!--build:requirejs app/-->".toUTF8)
  have check : ofArguments (Environment.get? [] targetVariable) ["check", "a"] =
      .ok (.check ⟨"a"⟩ false ⟨none, .none⟩) := by decide +kernel
  have build : ofArguments (Environment.get? [] targetVariable) ["build", "a", "-i", "i"] =
      .ok (.build ⟨"a"⟩ none (some ⟨"i"⟩) ⟨none, .none⟩) := by decide +kernel
  have zero : (run tree ⟨"/w"⟩ [] ["check", "a"]).2 = 0 := by decide +kernel
  have zero' : (run tree ⟨"/w"⟩ [] ["build", "a", "-i", "i"]).2 = 0 := by decide +kernel
  have items : (processed (tree.surroundings ⟨"/w"⟩ []) ⟨"a"⟩ ⟨none, .none⟩).toOption.map
      (fun made => (Event.instructions made.events).map fun i => i.json.prettyFrom "  ") = some [
        "\x7b\n    \"kind\": \"module-bundle\",\n    \"target\": \"default\",\n" ++
        "    \"src\": \"app.js\",\n    \"dest\": \"/w/dist/app.js\",\n" ++
        "    \"options\": \x7b\n      \"baseUrl\": \"/w/dist\",\n" ++
        "      \"mainConfigFile\": \"app.js\",\n      \"name\": \"app\",\n" ++
        "      \"out\": \"/w/dist/app.js\"\n    \x7d\n  \x7d",
        "\x7b\n    \"kind\": \"bundle\",\n    \"target\": \"default\",\n" ++
        "    \"src\": \"/w/dist/app.js\",\n    \"dest\": \"/w/dist/app.js\"\n  \x7d"] := by
    decide +kernel
  obtain ⟨lenient, _, _, agrees⟩ := check_predicts check build
  obtain ⟨p, document, text, succeeds⟩ := (lenient rfl).mp zero
  obtain ⟨_, _, wrote, _, _⟩ := agrees p document text succeeds
  rw [succeeds.processed_eq] at items
  have printed : (Event.instructions (p.process document).events).map
      (fun i => i.json.prettyFrom "  ") = _ := Option.some.inj items
  have nonempty : Event.instructions (p.process document).events ≠ [] := by
    intro empty
    rw [empty] at printed
    cases printed
  have there := (wrote ⟨"i"⟩ rfl zero').1
  rw [if_neg nonempty, printed] at there
  exact ⟨tree, p, document, text, _, _, rfl, check, build, succeeds, zero, by decide +kernel,
    zero', rfl, rfl, there⟩

end AssetBlocks.Command
