import AssetBlocks.Command.Plan

/-! Carrying a plan out on a file tree. Effects are carried out in their order up to the
first that fails, and a failure is the last line of messages. -/
namespace AssetBlocks

/-- The file tree, the lines of messages and the printed text after some effects. -/
structure Session where
  tree : FileTree
  lines : List String
  printed : String

namespace Session

def start (tree : FileTree) : Session := ⟨tree, [], ""⟩

def say (s : Session) (text : String) : Session := { s with lines := s.lines ++ [text] }

def perform (cwd : Path) : Session → List Command.Effect → Session × Option FileError
  | s, [] => (s, none)
  | s, .line text :: rest => (s.say text).perform cwd rest
  | s, .print text :: rest => { s with printed := s.printed ++ text }.perform cwd rest
  | s, .write path text :: rest =>
    match s.tree.write cwd path text with
    | .ok tree => { s with tree := tree }.perform cwd rest
    | .error e => (s, some e)

theorem perform_append (cwd : Path) (s : Session) (first rest : List Command.Effect) :
    s.perform cwd (first ++ rest) =
      match s.perform cwd first with
      | (s, none) => s.perform cwd rest
      | (s, some e) => (s, some e) := by
  induction first generalizing s with
  | nil => rfl
  | cons effect first ih =>
    cases effect with
    | line text => simp only [List.cons_append, perform, ih]
    | print text => simp only [List.cons_append, perform, ih]
    | write path text =>
      simp only [List.cons_append, perform]
      cases s.tree.write cwd path text with
      | ok tree => simp only [ih]
      | error e => rfl

end Session

namespace Command

def Failure.line (f : Failure) : String := "Error: " ++ f.message

/-- Carries out a plan; the code is zero where nothing failed. -/
def Plan.perform (p : Plan) (cwd : Path) (s : Session) : Session × Nat :=
  match s.perform cwd p.effects, p.failure with
  | (s, some e), _ => (s.say (Failure.file e).line, 1)
  | (s, none), some failure => (s.say failure.line, 1)
  | (s, none), none => (s, 0)

def usageCode : Nat := 2

def versionText : String := "blockmin 0.1.0\n"

def helpText : String :=
  "Replace build blocks in HTML with their bundled assets.\n\n" ++
  "Usage: blockmin [OPTIONS] <COMMAND>\n\n" ++
  "Commands:\n" ++
  "  build <INPUT>  Process a document and write its build instructions\n" ++
  "  check <INPUT>  Process a document without writing anything\n" ++
  "  help           Print this message\n\n" ++
  "Options:\n" ++
  "  -v, --verbose              Show progress\n" ++
  "  -h, --help                 Print help\n" ++
  "  -V, --version              Print version\n" ++
  "  -o, --output <FILE>        Where build writes the document\n" ++
  "  -i, --instructions <FILE>  Where build writes the instructions\n" ++
  "      --strict               Treat warnings of check as errors\n" ++
  "  -c, --config <FILE>        Configuration file\n" ++
  "      --tag <TAG>            Tag of directives\n" ++
  "      --base-dir <DIR>       Directory of built files\n" ++
  "      --source-dir <DIR>     Directory of assets\n" ++
  "      --target <TARGET>      Target that is built\n"

def run (tree : FileTree) (cwd : Path) (environment : Environment) (arguments : List String) :
    Session × Nat :=
  match ofArguments (environment.get? targetVariable) arguments with
  | .error .usage => (.start tree, usageCode)
  | .error .help => ({ Session.start tree with printed := helpText }, 0)
  | .error .version => ({ Session.start tree with printed := versionText }, 0)
  | .ok command => (command.plan (tree.surroundings cwd environment)).perform cwd (.start tree)

end Command
end AssetBlocks
