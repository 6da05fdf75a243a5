import AssetBlocks.Directive.Basic
import AssetBlocks.FileTree
import AssetBlocks.Handler.Registry
import AssetBlocks.Text.Quoted

/-! Configurations: the settings of blocks, further kinds for the handlers that are
always there, and what makes a configuration invalid. -/
namespace AssetBlocks
open Text

/-- The tag of directives, the directories of built files and of assets, and the target
that is built. -/
structure Settings where
  tag : String
  baseDir : Path
  sourceDir : Path
  target : String
deriving DecidableEq, Repr

namespace Settings

def defaultTag : String := "build"

def defaultBaseDir : String := "dist"

def defaultTarget : String := "default"

def within (dir : Path) : Settings := ⟨defaultTag, dir.join defaultBaseDir, dir, defaultTarget⟩

/-- Settings that replace those of a configuration as they stand. -/
structure Overrides where
  tag : Option String
  baseDir : Option Path
  sourceDir : Option Path
  target : Option String
deriving DecidableEq, Repr

def override (s : Settings) (o : Overrides) : Settings :=
  ⟨o.tag.getD s.tag, o.baseDir.getD s.baseDir, o.sourceDir.getD s.sourceDir,
    o.target.getD s.target⟩

def Overrides.none : Overrides := ⟨.none, .none, .none, .none⟩

end Settings

structure Config where
  settings : Settings
  /-- Kinds and the names of the handlers that serve them, in ascending order. -/
  aliases : List (String × String)
  /-- The file that the configuration is from. -/
  source : Option Path
deriving DecidableEq, Repr

namespace Config

inductive Fault
  | emptyTag
  | badTag (tag : String)
  | emptyTarget
  | unknownHandler (kind handler : String)
deriving DecidableEq, Repr

def Fault.message : Fault → String
  | emptyTag => "blocks.tag cannot be empty"
  | badTag tag => s!"blocks.tag cannot contain whitespace or ':' (got {quoted tag})"
  | emptyTarget => "blocks.target cannot be empty"
  | unknownHandler kind handler =>
    let known := String.intercalate ", " Handler.builtinNames
    s!"aliases.{kind} must name a built-in handler ({known}), got {quoted handler}"

/-- The first fault of a configuration, in the order tag, target, aliases. -/
def fault? (c : Config) : Option Fault :=
  if c.settings.tag = "" then some .emptyTag
  else if c.settings.tag.toList.any (fun ch => isBlank ch || ch == ':') then
    some (.badTag c.settings.tag)
  else if c.settings.target = "" then some .emptyTarget
  else c.aliases.findSome? fun (kind, handler) =>
    if Handler.builtinNames.contains handler then none
    else some (.unknownHandler kind handler)

/-- A configuration that processors can be made from. -/
structure Valid (c : Config) : Prop where
  tag : isTag c.settings.tag = true
  target : c.settings.target ≠ ""
  aliases : ∀ entry ∈ c.aliases, entry.2 ∈ Handler.builtinNames

theorem isTag_iff {s : String} :
    isTag s = true ↔ s ≠ "" ∧ s.toList.any (fun ch => isBlank ch || ch == ':') = false := by
  simp [isTag, bne]

theorem fault?_eq_none_iff {c : Config} : c.fault? = none ↔ c.Valid := by
  constructor
  · intro h
    simp only [fault?] at h
    repeat' split at h
    all_goals try simp at h
    refine ⟨isTag_iff.mpr ⟨by assumption, by simp_all⟩, by assumption, ?_⟩
    intro entry mem
    simpa using h entry.1 entry.2 mem
  · rintro ⟨tag, target, aliases⟩
    obtain ⟨ne, fine⟩ := isTag_iff.mp tag
    simp only [fault?, ne, fine, target, Bool.false_eq_true, if_false]
    refine List.findSome?_eq_none_iff.mpr fun entry mem => ?_
    simp [aliases entry mem]

inductive Error
  | notFound (path : Path)
  | file (error : FileError)
  | notToml
  | invalid (fault : Fault)
  | notSet (field name : String)
deriving DecidableEq, Repr

def Error.message : Error → String
  | notFound path => s!"Configuration file not found: {path.text}"
  | file error => s!"I/O error: {error.message}"
  | notToml => "TOML parse error"
  | invalid fault => s!"Configuration error: {fault.message}"
  | notSet field name =>
    s!"Environment variable error in {field}: $" ++ "\x7b" ++ name ++ "\x7d not set"

end Config
end AssetBlocks
