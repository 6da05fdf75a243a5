import AssetBlocks.Command.Line
import AssetBlocks.Config.Load
import AssetBlocks.Processor

/-! What a command does, worked out from what it can see before anything is done. A
plan ends early by a failure of its own; everything before that is still carried out. -/
namespace AssetBlocks.Command

inductive Effect
  /-- A line of messages. -/
  | line (text : String)
  /-- Text of the document itself. -/
  | print (text : String)
  | write (path : Path) (text : String)
deriving DecidableEq, Repr

inductive Failure
  | config (error : Config.Error)
  | unknownHandler (kind handler : String)
  | unreadable (path : Path) (error : FileError)
  | document (error : DocumentError)
  | warnings (path : Path) (count : Nat)
  | file (error : FileError)
deriving DecidableEq, Repr

def Failure.message : Failure → String
  | config error => error.message
  | unknownHandler kind handler => s!"Alias '{kind}' names unknown handler '{handler}'"
  | unreadable path error => s!"Cannot read {path.text}: {error.message}"
  | document error => error.message
  | warnings path count => s!"{path.text} has {count} warning(s)"
  | file error => error.message

def addAliases (registry : Registry) : List (String × String) → Except Failure Registry
  | [] => .ok registry
  | (kind, handler) :: rest =>
    match registry.alias? kind handler with
    | some registry => addAliases registry rest
    | none => .error (.unknownHandler kind handler)

def processorOf (s : Surroundings) (c : Config) : Except Failure Processor := do
  let p ← (Processor.make c.settings.tag .withBuiltins
    ⟨c.settings.baseDir, c.settings.sourceDir, c.settings.target, s.isFile⟩).mapError .document
  let registry ← addAliases p.registry c.aliases
  .ok { p with registry }

def loadProcessor (s : Surroundings) (o : BlockOptions) : Except Failure Processor := do
  processorOf s (← (Config.load s o.config o.overrides).mapError .config)

def prepared (s : Surroundings) (input : Path) (o : BlockOptions) :
    Except Failure (Processor × String) := do
  let p ← loadProcessor s o
  let document ← (s.readText input).mapError (.unreadable input)
  .ok (p, document)

/-- A document that has been processed: all that was reported, and what became of it. -/
structure Processed where
  events : List Event
  output : String

def processed (s : Surroundings) (input : Path) (o : BlockOptions) :
    Except Failure Processed := do
  let (p, document) ← prepared s input o
  let trace := p.process document
  let output ← trace.outcome.mapError .document
  .ok ⟨trace.events, output⟩

/-- The figures of a check. They are counted up event by event, and no event is kept. -/
structure Tally where
  blocks : Nat
  instructions : Nat
  warnings : List String
deriving DecidableEq, Repr

namespace Tally

def zero : Tally := ⟨0, 0, []⟩

def add (t : Tally) : Event → Tally
  | .blockEnd .. | .blockSingle .. => { t with blocks := t.blocks + 1 }
  | .instruction _ => { t with instructions := t.instructions + 1 }
  | .warning message => { t with warnings := t.warnings ++ [message] }
  | .blockBegin .. | .notice .. => t

def ofEvents (events : List Event) : Tally := events.foldl add zero

end Tally

/-- A document that has been checked: the processor, and what it was found to report. -/
structure Checked where
  processor : Processor
  tally : Tally

def checked (s : Surroundings) (input : Path) (o : BlockOptions) : Except Failure Checked := do
  let (p, document) ← prepared s input o
  let trace := p.process document
  let _ ← trace.outcome.mapError .document
  .ok ⟨p, .ofEvents trace.events⟩

section prepared
variable {s : Surroundings} {input : Path} {o : BlockOptions} {ε δ α β : Type}

theorem ok_of_bind {first : Except ε α} {next : α → Except ε β} {b : β}
    (ok : (first >>= next) = .ok b) : ∃ a, first = .ok a ∧ next a = .ok b := by
  cases first with
  | error e => cases ok
  | ok a => exact ⟨a, rfl, ok⟩

theorem ok_of_mapError {outcome : Except ε α} {f : ε → δ} {a : α}
    (ok : outcome.mapError f = .ok a) : outcome = .ok a := by
  cases outcome with
  | error e => cases ok
  | ok a' => exact congrArg Except.ok (Except.ok.inj ok)

theorem processed_of_error {failure : Failure} (failed : prepared s input o = .error failure) :
    processed s input o = .error failure := by
  unfold processed
  rw [failed]
  rfl

theorem checked_of_error {failure : Failure} (failed : prepared s input o = .error failure) :
    checked s input o = .error failure := by
  unfold checked
  rw [failed]
  rfl

theorem processed_of_ok {p : Processor} {document : String}
    (ready : prepared s input o = .ok (p, document)) :
    processed s input o = ((p.process document).outcome.mapError .document).map fun output =>
      ⟨(p.process document).events, output⟩ := by
  unfold processed
  rw [ready]
  dsimp only [bind, Except.bind]
  cases (p.process document).outcome <;> rfl

theorem checked_of_ok {p : Processor} {document : String}
    (ready : prepared s input o = .ok (p, document)) :
    checked s input o = ((p.process document).outcome.mapError .document).map fun _ =>
      ⟨p, .ofEvents (p.process document).events⟩ := by
  unfold checked
  rw [ready]
  dsimp only [bind, Except.bind]
  cases (p.process document).outcome <;> rfl

theorem checked_eq_error_iff {failure : Failure} :
    checked s input o = .error failure ↔ processed s input o = .error failure := by
  cases ready : prepared s input o with
  | error e => rw [checked_of_error ready, processed_of_error ready, Except.error.injEq,
      Except.error.injEq]
  | ok found =>
    rw [checked_of_ok ready, processed_of_ok ready]
    cases (found.1.process found.2).outcome with
    | error e =>
      change Except.error (Failure.document e) = Except.error failure ↔
        Except.error (Failure.document e) = Except.error failure
      rw [Except.error.injEq, Except.error.injEq]
    | ok output =>
      constructor
      · intro failed
        cases failed
      · intro failed
        cases failed

end prepared

structure Plan where
  effects : List Effect
  failure : Option Failure
deriving DecidableEq, Repr

def warningLines (messages : List String) : List String := messages.map ("Warning: " ++ ·)

def outputEffects (output : String) : Option Path → List Effect
  | some path => [.write path output, .line s!"Wrote {path.text}"]
  | none => [.print output]

/-- Where the instructions go; instructions that go nowhere are mentioned. -/
def instructionEffects (instructions : List Instruction) : Option Path → List Effect
  | some path =>
    [.write path (Json.list (instructions.map Instruction.json)).pretty,
      .line s!"Wrote {instructions.length} build instruction(s) to {path.text}"]
  | none =>
    if instructions = [] then []
    else [.line s!"{instructions.length} build instruction(s) not written (use --instructions)"]

def buildPlan (s : Surroundings) (input : Path) (output instructions : Option Path)
    (o : BlockOptions) : Plan :=
  match processed s input o with
  | .error failure => ⟨[], some failure⟩
  | .ok d => ⟨(warningLines (Event.warnings d.events)).map .line ++
      (outputEffects d.output output ++
        instructionEffects (Event.instructions d.events) instructions), none⟩

def summary (input : Path) (c : Checked) : List String :=
  let target := c.processor.context.target
  s!"Checked {input.text} (tag '{c.processor.tag.name}', target '{target}')" ::
  (warningLines c.tally.warnings ++
    [s!"Blocks: {c.tally.blocks}",
      s!"Build instructions: {c.tally.instructions}",
      s!"Warnings: {c.tally.warnings.length}"])

/-- A check reports figures and writes nothing; a strict one fails where there are
warnings. -/
def checkPlan (s : Surroundings) (input : Path) (strict : Bool) (o : BlockOptions) : Plan :=
  match checked s input o with
  | .error failure => ⟨[], some failure⟩
  | .ok c =>
    let count := c.tally.warnings.length
    if strict = true ∧ 0 < count then
      ⟨(summary input c).map .line, some (.warnings input count)⟩
    else ⟨(summary input c ++ [s!"{input.text} OK"]).map .line, none⟩

def plan (c : Command) (s : Surroundings) : Plan :=
  match c with
  | .build input output instructions o => buildPlan s input output instructions o
  | .check input strict o => checkPlan s input strict o

def input : Command → Path
  | .build input .. => input
  | .check input .. => input

def options : Command → BlockOptions
  | .build _ _ _ o => o
  | .check _ _ o => o

/-- The paths that a plan may depend on: those of configurations, the document, and the
assets that the document refers to. -/
def paths (c : Command) (s : Surroundings) : List Path :=
  Config.paths s c.options.config ++ c.input ::
    match prepared s c.input c.options with
    | .ok (p, document) => (p.process document).asked
    | .error _ => []

def names (c : Command) (s : Surroundings) : List String := Config.names s c.options.config

end AssetBlocks.Command
