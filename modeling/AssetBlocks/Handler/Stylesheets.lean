import AssetBlocks.Handler.Elements

/-! Stylesheets that are compiled into one: the block becomes a single link. -/
namespace AssetBlocks.Stylesheets

def styleType : String := "text/css"

def linkTag (href : String) : String :=
  s!"<link rel=\"stylesheet\" type=\"{styleType}\" href=\"{href}\">"

/-- The reference of a link to a stylesheet, or what the link lacks to be one. -/
def reference (e : Element) : Except String String :=
  match e.attribute? "href", e.attribute? "rel", e.attribute? "type" with
  | none, _, _ => .error s!"Tag missing href attribute: {e.html}"
  | _, none, _ => .error s!"Tag missing rel attribute: {e.html}"
  | _, _, none => .error s!"Tag missing type attribute: {e.html}"
  | some href, some _, some type =>
    if type = styleType then .ok href
    else .error s!"Tag's type attribute is not '{styleType}': {e.html}"

/-- One link of a block, with the tag of the block if it is the first one compiled. -/
def one (ctx : Context) (dest : Destination) (started : Bool) (e : Element) :
    Trace HandlerError (List String) := do
  Trace.verbose s!"Parsing tag: {e.html}"
  match reference e with
  | .error problem =>
    Trace.warn problem
    pure []
  | .ok href =>
    if ← ctx.asset href then
      let tags ← if started then pure [] else Elements.addTag (linkTag dest.short)
      Trace.instruct ⟨.styleCompile, ctx.target, href, dest.full⟩
      pure tags
    else
      Trace.warn s!"Cannot find file for href: {e.html}"
      pure []

def process (block : Block) (ctx : Context) : Trace HandlerError Replacement :=
  Elements.process "link" one block ctx

end AssetBlocks.Stylesheets
