import AssetBlocks.ModuleArguments

/-! Applications made of modules: the block becomes one script, which a module bundler
writes and a second pass minifies. -/
namespace AssetBlocks

def scriptTag (src : String) : String := s!"<script src=\"{src}\"></script>"

namespace Modules

/-- The options under which a main module is bundled. The directory of the module is
the base of the others; a module without one is looked for under the base directory. -/
def options (main : String) (dest : Destination) (baseDir : Path) : Json.Fields :=
  let base := match Path.parent? ⟨main⟩ with
    | some dir => if dir.text.isEmpty then baseDir else dir
    | none => baseDir
  Json.Fields.ofList [
    ("baseUrl", .text base.text),
    ("name", .text ((Path.fileName? ⟨main⟩).getD main)),
    ("out", .text dest.full.text),
    ("mainConfigFile", .text (main ++ ".js"))]

/-- Bundles a main module, then minifies what was written. -/
def bundle (target passTarget main : String) (dest : Destination) (options : Json.Fields) :
    Trace HandlerError Unit := do
  Trace.instruct ⟨.moduleBundle options, target, main ++ ".js", dest.full⟩
  Trace.instruct ⟨.bundle, passTarget, dest.full.text, dest.full⟩

/-- The destination of the arguments, or the one named like the main module. -/
def destination (args : ModuleArguments) (ctx : Context) : Trace HandlerError Destination :=
  match args.dest with
  | some dest => do
    Trace.verbose s!"Set destination to {(ctx.destination dest).full.text}"
    pure (ctx.destination dest)
  | none => pure (ctx.destination (args.main ++ ".js"))

def target (args : ModuleArguments) (ctx : Context) : Trace HandlerError String :=
  match args.target with
  | some target => do
    Trace.verbose s!"Set target to {target}"
    pure target
  | none => pure ctx.target

def process (block : Block) (ctx : Context) : Trace HandlerError Replacement := do
  let args ← Trace.ofExcept (ModuleArguments.parse block.args)
  Trace.verbose s!"Set main to {args.main}"
  let dest ← destination args ctx
  let target ← target args ctx
  match args.ignored with
  | some ignored => Trace.notice s!"Ignoring extra arguments: {ignored}"
  | none => pure ()
  Trace.verbose s!"Added tag: {scriptTag dest.short}"
  bundle target target args.main dest ((options args.main dest ctx.baseDir).extend args.options)
  pure (.lines [scriptTag dest.short])

end Modules
end AssetBlocks
