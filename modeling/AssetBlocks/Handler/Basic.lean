import AssetBlocks.Json.Fault
import AssetBlocks.Trace

/-! Blocks, what replaces them, and the surroundings that handlers see. -/
namespace AssetBlocks

/-- A block with everything inside it resolved; a self-closing one has no contents. -/
structure Block where
  kind : String
  args : Option String
  contents : Option String
  indent : String
deriving DecidableEq, Repr

inductive Replacement
  | text (s : String)
  | lines (ls : List String)
  | empty
deriving DecidableEq, Repr

/-- The first line stands behind the indent of the block, every other one gets it too. -/
def Replacement.render (indent : String) : Replacement → String
  | .text s => s
  | .lines ls => String.intercalate ("\n" ++ indent) ls
  | .empty => ""

inductive HandlerError
  | missingArguments (form : String)
  | invalidJson (error : Json.Error) (input : String)
  | custom (message : String)
deriving DecidableEq, Repr

def HandlerError.message : HandlerError → String
  | missingArguments form => s!"Missing arguments. Syntax: {form}"
  | invalidJson error input => s!"Invalid JSON ({error.message}): {input}"
  | custom message => message

/-- Where built files go, where assets are, the target that is built, and which paths
are files. -/
structure Context where
  baseDir : Path
  sourceDir : Path
  target : String
  isFile : Path → Bool

/-- A built file as the document names it, and where it is written. -/
structure Destination where
  short : String
  full : Path
deriving DecidableEq, Repr

namespace Destination

/-- Leading slashes of a reference do not lead out of the directory. -/
def resolve (short : String) (base : Path) : Destination :=
  ⟨short, base.join (Path.relative short)⟩

end Destination

namespace Context

def destination (ctx : Context) (short : String) : Destination :=
  Destination.resolve short ctx.baseDir

def asset (ctx : Context) (reference : String) : Trace HandlerError Bool :=
  Trace.ask ctx.isFile (ctx.sourceDir.join (Path.relative reference))

end Context
end AssetBlocks
