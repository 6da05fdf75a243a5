import AssetBlocks.Command.Perform

/-! The program. Paths and variables are looked up as far as the plan depends on them,
and then the plan is carried out. -/
namespace AssetBlocks

/-- What has been looked up so far. What has not is taken to be missing. -/
structure Sight where
  cwd : Path
  values : List (String × Option String)
  files : List (Path × Except FileError Entry)

namespace Sight

def surroundings (s : Sight) : Surroundings :=
  ⟨s.cwd, fun name => (s.values.lookup name).join,
    fun path => (s.files.lookup path).getD (.error .notFound)⟩

end Sight

/-- The number of a system error, which some calls negate. -/
def errorNumber (code : UInt32) : UInt32 := if code < 0x80000000 then code else 0 - code

def systemError (code : UInt32) (details : String) : FileError :=
  match errorNumber code with
  | 2 => .notFound
  | 20 => .notDirectory
  | 21 => .isDirectory
  | 36 => .nameTooLong
  | number => .other s!"{details} (os error {number})"

def fileError : IO.Error → FileError
  | .noFileOrDirectory _ code details => systemError code details
  | .inappropriateType _ code details => systemError code details
  | .invalidArgument _ code details => systemError code details
  | .permissionDenied _ code details => systemError code details
  | .resourceExhausted _ code details => systemError code details
  | e => .other (toString e)

def lookAt (path : Path) : IO (Except FileError Entry) := do
  try
    return .ok (.file (← IO.FS.readBinFile path.text))
  catch e =>
    match fileError e with
    | .isDirectory => return .ok .directory
    | error => return .error error

/-- Looks up what the plan of a command depends on, until nothing is missing. -/
partial def settle (command : Command) (s : Sight) : IO Sight := do
  let surroundings := s.surroundings
  let paths := (command.paths surroundings).eraseDups.filter fun p => (s.files.lookup p).isNone
  let names := (command.names surroundings).eraseDups.filter fun n => (s.values.lookup n).isNone
  if paths.isEmpty && names.isEmpty then return s
  let files ← paths.mapM fun p => do return (p, ← lookAt p)
  let values ← names.mapM fun n => do return (n, ← IO.getEnv n)
  settle command { s with files := files ++ s.files, values := values ++ s.values }

def perform : List Command.Effect → IO (Option FileError)
  | [] => return none
  | .line text :: rest => do
    IO.eprintln text
    perform rest
  | .print text :: rest => do
    IO.print text
    perform rest
  | .write path text :: rest => do
    let failed ← try
        IO.FS.writeFile path.text text
        pure none
      catch e => pure (some (fileError e))
    match failed with
    | some e => return some e
    | none => perform rest

def execute (command : Command) : IO UInt32 := do
  let sight ← settle command ⟨⟨(← IO.currentDir).toString⟩, [], []⟩
  let plan := command.plan sight.surroundings
  let failed ← perform plan.effects
  match (failed.map Command.Failure.file) <|> plan.failure with
  | some failure =>
    IO.eprintln failure.line
    return 1
  | none => return 0

end AssetBlocks

open AssetBlocks in
def main (arguments : List String) : IO UInt32 := do
  match Command.ofArguments (← IO.getEnv Command.targetVariable) arguments with
  | .error .usage =>
    IO.eprint Command.helpText
    return Command.usageCode.toUInt32
  | .error .help =>
    IO.print Command.helpText
    return 0
  | .error .version =>
    IO.print Command.versionText
    return 0
  | .ok command => execute command
