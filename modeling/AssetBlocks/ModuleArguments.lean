import AssetBlocks.Arguments
import AssetBlocks.Handler.Basic
import AssetBlocks.Json.Reader

/-! Arguments of a module bundle: the main module, a destination and a target that may
be left out, and JSON options from the first token on that begins with a brace. -/
namespace AssetBlocks
open Text

structure ModuleArguments where
  main : String
  dest : Option String
  target : Option String
  options : Json.Fields
  /-- What stands behind the target and is no JSON. -/
  ignored : Option String
deriving Repr

namespace ModuleArguments

def form : String := "<data-main> [<dest> [<target>]] [<options-json>]"

/-- The next token, unless the options begin there. -/
def word? : List Char → Option String × List Char
  | [] => (none, [])
  | '\x7b' :: rest => (none, '\x7b' :: rest)
  | cs => (some (String.ofList (Arguments.next cs).1), (Arguments.next cs).2)

def parse (args : Option String) : Except HandlerError ModuleArguments :=
  match trim isBlank (args.getD "").toList with
  | [] => .error (.missingArguments form)
  | raw =>
    let (main, rest) := Arguments.next raw
    let (dest, rest) := word? rest
    let (target, rest) := word? rest
    let parsed := fun options ignored => ⟨String.ofList main, dest, target, options, ignored⟩
    match rest with
    | [] => .ok (parsed [] none)
    | '\x7b' :: _ =>
      match Json.read rest with
      | .ok json => .ok (parsed json.fields none)
      | .error e => .error (.invalidJson e (String.ofList rest))
    | _ => .ok (parsed [] (some (String.ofList rest)))

end ModuleArguments
end AssetBlocks
