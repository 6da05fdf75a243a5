import AssetBlocks.Arguments
import AssetBlocks.Element
import AssetBlocks.Handler.Basic

/-! Blocks whose elements are put together: the block becomes the tags that its elements add,
the first of them the tag of the file that they make up. -/
namespace AssetBlocks

/-- The destination that the first argument of a block names. -/
def destinationArgument (block : Block) (ctx : Context) : Trace HandlerError Destination :=
  match Arguments.split (block.args.getD "") 0 with
  | [] => Trace.fail (.missingArguments "<dest>")
  | short :: _ => do
    Trace.verbose s!"Set destination to {(ctx.destination short).full.text}"
    pure (ctx.destination short)

namespace Elements

def addTag (tag : String) : Trace HandlerError (List String) := do
  Trace.verbose s!"Added tag: {tag}"
  pure [tag]

/-- What the elements of a block add, in their order. Each one is told whether there are tags
before its own. -/
def all (one : Bool → Element → Trace HandlerError (List String)) :
    Bool → List Element → Trace HandlerError (List String)
  | _, [] => pure []
  | started, e :: es => do
    let tags ← one started e
    let more ← all one (started || !tags.isEmpty) es
    pure (tags ++ more)

def inside (name : String) (block : Block) : List Element :=
  Element.extract name (block.contents.getD "")

/-- Goes over the elements of one name, of which `one` is what each is to do. -/
def process (name : String)
    (one : Context → Destination → Bool → Element → Trace HandlerError (List String))
    (block : Block) (ctx : Context) : Trace HandlerError Replacement := do
  let dest ← destinationArgument block ctx
  let tags ← all (one ctx dest) false (inside name block)
  pure (.lines tags)

end Elements
end AssetBlocks
