import AssetBlocks.Config.Basic
import AssetBlocks.Config.Template
import AssetBlocks.Surroundings
import AssetBlocks.Toml.Reader

/-! Configuration documents. Their settings are texts, all of them optional; other keys
of a document set nothing, whatever their values are. References to variables are filled in
afterwards, and directories are taken from the directory of the document. -/
namespace AssetBlocks.Config

structure Document where
  tag : Option String
  baseDir : Option String
  sourceDir : Option String
  target : Option String
  aliases : List (String × String)
deriving DecidableEq, Repr

namespace Document

def text? : Option Toml → Option (Option String)
  | none => some none
  | some (.text s) => some (some s)
  | some _ => none

/-- The key of the only entry of a date or a time where a table is meant. -/
def momentKey : String := "$__toml_private_datetime"

def fields? : Toml → Option Toml.Fields
  | .table _ fields => some fields
  | .moment m => some [(momentKey, .text m.text)]
  | _ => none

/-- A setting in a table by its key, in a list by its place. -/
def setting? (blocks : Toml) (key : String) (place : Nat) : Option (Option String) :=
  match blocks with
  | .list items => text? items[place]?
  | blocks => (fields? blocks).bind fun fields => text? (fields.lookup key)

def alias? : String × Toml → Option (String × String)
  | (kind, .text handler) => some (kind, handler)
  | _ => none

def aliases? : Option Toml → Option (List (String × String))
  | none => some []
  | some value => do
    let all ← (← fields? value).mapM alias?
    some (all.mergeSort fun a b => a.1 ≤ b.1)

/-- What is looked at of an entry. -/
def lookedAt : String × Toml → Toml
  | ("blocks", .list items) => .list (items.take 4)
  | (_, value) => value

def ofToml? (fields : Toml.Fields) : Option Document := do
  guard (fields.all fun entry => (lookedAt entry).isSound)
  let blocks := (fields.lookup "blocks").getD (.table .braces [])
  let tag ← setting? blocks "tag" 0
  let baseDir ← setting? blocks "base_dir" 1
  let sourceDir ← setting? blocks "source_dir" 2
  let target ← setting? blocks "target" 3
  let aliases ← aliases? (fields.lookup "aliases")
  some ⟨tag, baseDir, sourceDir, target, aliases⟩

def read? (text : String) : Option Document := (Toml.read text).bind ofToml?

def names (d : Document) : List String :=
  [d.tag, d.baseDir, d.sourceDir, d.target].flatMap fun
    | some value => (Template.ofString value).names
    | none => []

end Document

def hasBraced : List Char → Bool
  | '$' :: '\x7b' :: _ => true
  | _ :: rest => hasBraced rest
  | [] => false

/-- A tilde is the home directory where it is all of the path or its first part. -/
def atHome (home : Option String) (cs : List Char) : List Char :=
  match cs, home with
  | ['~'], some home => home.toList
  | '~' :: '/' :: rest, some home => home.toList ++ '/' :: rest
  | cs, _ => cs

/-- A value without braces has no references. -/
def expand (s : Surroundings) (field value : String) : Except Error String :=
  if hasBraced value.toList then
    match (Template.ofString value).fill s.value? with
    | .ok cs => .ok (String.ofList cs)
    | .error name => .error (.notSet field name)
  else .ok value

/-- The value of a directory may begin with a tilde, and then has references with and
without braces. -/
def expandDir (s : Surroundings) (field value : String) : Except Error String :=
  if value.toList.head? = some '~' then
    match (Template.ofString value).fill s.value? with
    | .ok cs => .ok (String.ofList (atHome s.home? cs))
    | .error name => .error (.notSet field name)
  else expand s field value

def expandOptional (expand : String → Except Error String) :
    Option String → Except Error (Option String)
  | none => .ok none
  | some value => (expand value).map some

def Document.expanded (d : Document) (s : Surroundings) : Except Error Document := do
  let tag ← expandOptional (expand s "blocks.tag") d.tag
  let target ← expandOptional (expand s "blocks.target") d.target
  let baseDir ← expandOptional (expandDir s "blocks.base_dir") d.baseDir
  let sourceDir ← expandOptional (expandDir s "blocks.source_dir") d.sourceDir
  .ok { d with tag, target, baseDir, sourceDir }

def Document.settings (d : Document) (dir : Path) : Settings :=
  let defaults := Settings.within dir
  ⟨d.tag.getD defaults.tag, (d.baseDir.map dir.join).getD defaults.baseDir,
    (d.sourceDir.map dir.join).getD defaults.sourceDir, d.target.getD defaults.target⟩

end AssetBlocks.Config
