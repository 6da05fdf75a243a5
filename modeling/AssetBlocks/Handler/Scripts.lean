import AssetBlocks.Handler.Elements
import AssetBlocks.Handler.Modules

/-! Scripts that are bundled into one: the block becomes a single script, behind which
stand the scripts of the modules that its elements start. -/
namespace AssetBlocks.Scripts

/-- The module that a script starts: it has a destination and maybe a target of its
own, and is minified for the target of the document. -/
def startModule (ctx : Context) (e : Element) (main : String) :
    Trace HandlerError (List String) := do
  let dest := ctx.destination ((e.attribute? "data-dest").getD main)
  let tags ← Elements.addTag (scriptTag dest.short)
  Modules.bundle ((e.attribute? "data-target").getD ctx.target) ctx.target main dest
    (Modules.options main dest ctx.baseDir)
  pure tags

/-- One script of a block: the tags that it adds, the one of the bundle among them if
it is the first script of it. -/
def one (ctx : Context) (dest : Destination) (started : Bool) (e : Element) :
    Trace HandlerError (List String) := do
  Trace.verbose s!"Parsing tag: {e.html}"
  match e.attribute? "src" with
  | none =>
    Trace.warn s!"Tag missing src attribute: {e.html}"
    pure []
  | some src =>
    if ← ctx.asset src then
      let bundleTags ← if started then pure [] else Elements.addTag (scriptTag dest.short)
      Trace.instruct ⟨.bundle, ctx.target, src, dest.full⟩
      let moduleTags ← match e.attribute? "data-main" with
        | none => pure []
        | some main => startModule ctx e main
      pure (bundleTags ++ moduleTags)
    else
      Trace.warn s!"Cannot find file for src: {e.html}"
      pure []

def process (block : Block) (ctx : Context) : Trace HandlerError Replacement :=
  Elements.process "script" one block ctx

end AssetBlocks.Scripts
