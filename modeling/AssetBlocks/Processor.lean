import AssetBlocks.Directive.Grammar
import AssetBlocks.Handler.Registry
import AssetBlocks.Text.Quoted

/-! Processing a document. Its directives are gone through once, with a stack of the
blocks that are open; a block is handed to its handler when its end tag is met, so the
blocks inside it are resolved before it, and what they become is never looked at again. -/
namespace AssetBlocks
open Text

inductive DocumentError
  | invalidTag (tag : String)
  | missingEndTag (line : Nat) (beginTag : String)
  | handler (kind : String) (source : HandlerError)
deriving DecidableEq, Repr

def DocumentError.message : DocumentError → String
  | invalidTag tag =>
    s!"Invalid directive tag {quoted tag}: must be non-empty and contain no whitespace or ':'"
  | missingEndTag line beginTag => s!"Missing end tag for block on line {line}. {beginTag}"
  | handler kind source => s!"Block '{kind}' failed: {source.message}"

structure Processor where
  tag : Tag
  registry : Registry
  context : Context

namespace Processor

def make (tag : String) (registry : Registry) (context : Context) :
    Except DocumentError Processor :=
  match Tag.ofString? tag with
  | some tag => .ok ⟨tag, registry, context⟩
  | none => .error (.invalidTag tag)

/-- A processor of the built-in handlers, where nothing else is asked for. -/
def standard (isFile : Path → Bool) : Processor :=
  ⟨⟨"build", by decide⟩, .withBuiltins, ⟨⟨"."⟩, ⟨"."⟩, "default", isFile⟩⟩

/-- What a block is replaced by; a kind without a handler is replaced by nothing. -/
def dispatch (p : Processor) (tag : BeginTag) (contents : Option String) :
    Log Event DocumentError String :=
  match p.registry.get? tag.kind with
  | none => pure ""
  | some handler =>
    Log.map Report.event (.handler tag.kind) do
      let replacement ← handler.process ⟨tag.kind, tag.args, contents, tag.indent⟩ p.context
      pure (replacement.render tag.indent)

/-- An open block: its begin tag with its text and line, and its contents so far. -/
structure Open where
  tag : BeginTag
  text : String
  line : Nat
  contents : String

/-- The blocks that are open, the innermost first, and the document around them. -/
structure State where
  stack : List Open
  output : String
  line : Nat

namespace State

def start : State := ⟨[], "", 1⟩

def write (s : State) (text : String) : State :=
  match s.stack with
  | [] => { s with output := s.output ++ text }
  | top :: rest => { s with stack := { top with contents := top.contents ++ text } :: rest }

def advance (s : State) (text : List Char) : State :=
  { s.write (String.ofList text) with line := s.line + lineFeeds text }

end State

def openBlock (p : Processor) (s : State) (tag : BeginTag) (text : String) :
    Log Event DocumentError State :=
  if tag.selfClosing then do
    Log.emit (.blockSingle tag.kind tag.args text)
    let replacement ← p.dispatch tag none
    pure (s.write (tag.indent ++ replacement))
  else do
    Log.emit (.blockBegin tag.kind tag.args text)
    pure { s with stack := ⟨tag, text, s.line, ""⟩ :: s.stack }

def strayMessage (line : Nat) (text : String) : String :=
  s!"Stray end tag with no open block on line {line}: {text}"

def closeBlock (p : Processor) (s : State) (text : String) : Log Event DocumentError State :=
  match s.stack with
  | [] => do
    Log.emit (.warning (strayMessage s.line text))
    pure (s.write text)
  | top :: rest => do
    let replacement ← p.dispatch top.tag (some top.contents)
    Log.emit (.blockEnd top.tag.kind top.tag.args top.text top.contents)
    pure (State.write { s with stack := rest } (top.tag.indent ++ replacement))

def step (p : Processor) (s : State) (m : Match Directive) : Log Event DocumentError State :=
  match m.value with
  | .opening tag => p.openBlock (s.advance m.before) tag (String.ofList m.text)
  | .closing => p.closeBlock (s.advance m.before) (String.ofList m.text)

def finish (s : State) (tail : List Char) : Log Event DocumentError String :=
  match s.stack with
  | [] => pure (s.output ++ String.ofList tail)
  | top :: _ => Log.fail (.missingEndTag top.line top.text)

def run (p : Processor) :
    State → List (Match Directive) → List Char → Log Event DocumentError String
  | s, [], tail => finish s tail
  | s, m :: ms, tail => do
    let next ← p.step s m
    run p next ms tail

def process (p : Processor) (document : String) : Log Event DocumentError String :=
  p.run State.start (p.tag.scan document).1 (p.tag.scan document).2

end Processor
end AssetBlocks
