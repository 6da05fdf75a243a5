import AssetBlocks.FileTree
import AssetBlocks.Text.Pattern

/-! What a run can ask of the system: the directory that it works in, the variables of
its environment, and what its paths lead to. -/
namespace AssetBlocks

abbrev Environment := List (String × String)

/-- Assignments are sought as text, up to the sign behind the name: a name with such a
sign in it can be found as well, and the empty name never is. -/
def Environment.get? (environment : Environment) (name : String) : Option String :=
  if name = "" then none
  else environment.findSome? fun (key, value) =>
    (Text.after? (name.toList ++ ['=']) (key.toList ++ '=' :: value.toList)).map String.ofList

structure Surroundings where
  cwd : Path
  value? : String → Option String
  look : Path → Except FileError Entry

namespace Surroundings

def has (s : Surroundings) (p : Path) : Bool := (s.look p).isOk

def isFile (s : Surroundings) (p : Path) : Bool :=
  match s.look p with
  | .ok entry => entry.isFile
  | .error _ => false

def readText (s : Surroundings) (p : Path) : Except FileError String :=
  (s.look p).bind Entry.text

/-- The home directory, under either of its names. -/
def home? (s : Surroundings) : Option String :=
  s.value? "HOME" <|> s.value? "USERPROFILE"

end Surroundings

def FileTree.surroundings (t : FileTree) (cwd : Path) (environment : Environment) :
    Surroundings :=
  ⟨cwd, environment.get?, t.look cwd⟩

end AssetBlocks
