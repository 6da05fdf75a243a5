import AssetBlocks.Json.Printer
import AssetBlocks.Path

/-! What is reported while a document is processed: the blocks in it, messages of the
handlers, and the work that is asked of build tools. Handlers have a smaller type for
what they report, in which there are no blocks. -/
namespace AssetBlocks

/-- Work for an external build tool. -/
inductive Task
  /-- Put the source at the end of the destination and minify that. -/
  | bundle
  /-- Compile a stylesheet to the end of the destination. -/
  | styleCompile
  /-- Bundle a module with all that it needs. -/
  | moduleBundle (options : Json.Fields)
deriving Repr

structure Instruction where
  task : Task
  target : String
  src : String
  dest : Path
deriving Repr

namespace Task

def name : Task → String
  | bundle => "bundle"
  | styleCompile => "style-compile"
  | moduleBundle _ => "module-bundle"

def options? : Task → Option Json.Fields
  | moduleBundle options => some options
  | _ => none

end Task

def Instruction.fields (i : Instruction) : List (String × Json) :=
  [("kind", .text i.task.name), ("target", .text i.target), ("src", .text i.src),
    ("dest", .text i.dest.text)] ++
  match i.task.options? with
  | some options => [("options", .object options)]
  | none => []

def Instruction.json (i : Instruction) : Json := .object i.fields

inductive Event
  | blockBegin (kind : String) (args : Option String) (beginTag : String)
  | blockSingle (kind : String) (args : Option String) (beginTag : String)
  | blockEnd (kind : String) (args : Option String) (beginTag contents : String)
  | notice (verbose : Bool) (message : String)
  | warning (message : String)
  | instruction (i : Instruction)
deriving Repr

namespace Event

def warning? : Event → Option String
  | warning message => some message
  | _ => none

def instruction? : Event → Option Instruction
  | instruction i => some i
  | _ => none

def warnings (events : List Event) : List String := events.filterMap warning?

def instructions (events : List Event) : List Instruction := events.filterMap instruction?

theorem warnings_append (events more : List Event) :
    warnings (events ++ more) = warnings events ++ warnings more :=
  List.filterMap_append

theorem instructions_append (events more : List Event) :
    instructions (events ++ more) = instructions events ++ instructions more :=
  List.filterMap_append

def optionalText : Option String → Json
  | some s => .text s
  | none => .null

def json : Event → Json
  | blockBegin kind args beginTag => .object [("event", .text "block-begin"),
      ("kind", .text kind), ("args", optionalText args), ("begin_tag", .text beginTag)]
  | blockSingle kind args beginTag => .object [("event", .text "block-single"),
      ("kind", .text kind), ("args", optionalText args), ("begin_tag", .text beginTag)]
  | blockEnd kind args beginTag contents => .object [("event", .text "block-end"),
      ("kind", .text kind), ("args", optionalText args), ("begin_tag", .text beginTag),
      ("contents", .text contents)]
  | notice verbose message => .object [("event", .text "notice"), ("verbose", .bool verbose),
      ("message", .text message)]
  | warning message => .object [("event", .text "warning"), ("message", .text message)]
  | instruction i => .object (("event", .text "instruction") :: i.fields)

end Event

/-- What a handler may report. -/
inductive Report
  | notice (verbose : Bool) (message : String)
  | warning (message : String)
  | instruction (i : Instruction)
deriving Repr

namespace Report

def event : Report → Event
  | notice verbose message => .notice verbose message
  | warning message => .warning message
  | instruction i => .instruction i

end Report
end AssetBlocks
