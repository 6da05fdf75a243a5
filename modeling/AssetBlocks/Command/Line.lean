import AssetBlocks.Config.Basic

/-! The words of a command line. An option takes the rest of its word or the next word as
its value, no option is given twice, and behind two dashes every word is a plain one. -/
namespace AssetBlocks.Command

inductive Verb
  | build
  | check
deriving DecidableEq, Repr

inductive Slot
  | output
  | instructions
  | config
  | tag
  | baseDir
  | sourceDir
  | target
deriving DecidableEq, Repr

inductive Switch
  | verbose
  | strict
deriving DecidableEq, Repr

inductive Item
  | slot (s : Slot)
  | switch (s : Switch)
  | help
  | version
deriving DecidableEq, Repr

structure Names where
  long : List (String × Item)
  short : List (Char × Item)

namespace Names

def everywhere : Names :=
  ⟨[("verbose", .switch .verbose), ("help", .help)], [('v', .switch .verbose), ('h', .help)]⟩

def ofBlocks : Names :=
  ⟨[("config", .slot .config), ("tag", .slot .tag), ("base-dir", .slot .baseDir),
    ("source-dir", .slot .sourceDir), ("target", .slot .target)], [('c', .slot .config)]⟩

def and (a b : Names) : Names := ⟨a.long ++ b.long, a.short ++ b.short⟩

def first : Names := everywhere.and ⟨[("version", .version)], [('V', .version)]⟩

def ofVerb : Verb → Names
  | .build => (everywhere.and ofBlocks).and
      ⟨[("output", .slot .output), ("instructions", .slot .instructions)],
        [('o', .slot .output), ('i', .slot .instructions)]⟩
  | .check => (everywhere.and ofBlocks).and ⟨[("strict", .switch .strict)], []⟩

end Names

inductive Stop
  | usage
  | help
  | version
deriving DecidableEq, Repr

structure Given where
  values : List (Slot × String)
  switches : List Switch
  input : Option String
deriving DecidableEq, Repr

namespace Given

def nothing : Given := ⟨[], [], none⟩

def value? (g : Given) (s : Slot) : Option String := g.values.lookup s

def path? (g : Given) (s : Slot) : Option Path := (g.value? s).map Path.mk

def put (g : Given) (s : Slot) (value : String) : Except Stop Given :=
  if (g.value? s).isSome then .error .usage
  else if value = "" ∧ s ≠ .tag ∧ s ≠ .target then .error .usage
  else .ok { g with values := (s, value) :: g.values }

def turnOn (g : Given) (s : Switch) : Except Stop Given :=
  if g.switches.contains s then .error .usage else .ok { g with switches := s :: g.switches }

def putInput (g : Given) (value : String) : Except Stop Given :=
  if g.input.isSome ∨ value = "" then .error .usage else .ok { g with input := some value }

end Given

inductive Word
  | plain (text : String)
  | long (name : String) (value : Option String)
  | short (names : List Char)
  | ending
deriving DecidableEq, Repr

def Word.ofString (word : String) : Word :=
  match word.toList with
  | ['-', '-'] => .ending
  | '-' :: '-' :: cs =>
    .long (String.ofList (cs.takeWhile (· != '=')))
      (match cs.dropWhile (· != '=') with
        | [] => none
        | _ :: value => some (String.ofList value))
  | '-' :: c :: cs => .short (c :: cs)
  | _ => .plain word

/-- Takes an option up, with a value in its own word or without. An option that still
needs a value is left to the next word. -/
def takeItem (g : Given) (item : Item) (value : Option String) :
    Except Stop (Given × Option Slot) :=
  match item, value with
  | .slot s, some value => (g.put s value).map (·, none)
  | .slot s, none => .ok (g, some s)
  | .switch s, none => (g.turnOn s).map (·, none)
  | .help, none => .error .help
  | .version, none => .error .version
  | _, some _ => .error .usage

/-- Takes up short options in one word, where a value may stand behind a sign. -/
def takeShort (names : Names) (g : Given) : List Char → Except Stop (Given × Option Slot)
  | [] => .ok (g, none)
  | c :: cs =>
    match names.short.lookup c, cs with
    | none, _ => .error .usage
    | some (.slot s), [] => takeItem g (.slot s) none
    | some (.slot s), '=' :: value => takeItem g (.slot s) (some (String.ofList value))
    | some (.slot s), value => takeItem g (.slot s) (some (String.ofList value))
    | some item, rest =>
      match takeItem g item none with
      | .error stop => .error stop
      | .ok (g, _) => takeShort names g rest

def takeLong (names : Names) (g : Given) (name : String) (value : Option String) :
    Except Stop (Given × Option Slot) :=
  match names.long.lookup name with
  | some item => takeItem g item value
  | none => .error .usage

/-- Reads the words behind a verb; `waiting` is the option that the next one belongs to. -/
def readWords (names : Names) : Given → Option Slot → List String → Except Stop Given
  | g, none, [] => .ok g
  | _, some _, [] => .error .usage
  | g, waiting, word :: rest =>
    match waiting, Word.ofString word with
    | some s, .plain value =>
      match g.put s value with
      | .ok g => readWords names g none rest
      | .error stop => .error stop
    | some _, _ => .error .usage
    | none, .plain value =>
      match g.putInput value with
      | .ok g => readWords names g none rest
      | .error stop => .error stop
    | none, .long name value =>
      match takeLong names g name value with
      | .ok (g, waiting) => readWords names g waiting rest
      | .error stop => .error stop
    | none, .short letters =>
      match takeShort names g letters with
      | .ok (g, waiting) => readWords names g waiting rest
      | .error stop => .error stop
    | none, .ending => rest.foldlM Given.putInput g

def readHelp : List String → Stop
  | [] => .help
  | [word] => if word ∈ ["build", "check", "help"] then .help else .usage
  | _ => .usage

def readLine : Given → List String → Except Stop (Verb × Given)
  | _, [] => .error .usage
  | g, word :: rest =>
    match Word.ofString word with
    | .plain "build" => (readWords (.ofVerb .build) .nothing none rest).map (.build, ·)
    | .plain "check" => (readWords (.ofVerb .check) .nothing none rest).map (.check, ·)
    | .plain "help" => .error (readHelp rest)
    | .plain _ => .error .usage
    | .long name value =>
      match takeLong .first g name value with
      | .ok (g, _) => readLine g rest
      | .error stop => .error stop
    | .short letters =>
      match takeShort .first g letters with
      | .ok (g, _) => readLine g rest
      | .error stop => .error stop
    | .ending => .error .usage

end Command

structure BlockOptions where
  config : Option Path
  overrides : Settings.Overrides
deriving DecidableEq, Repr

inductive Command
  | build (input : Path) (output instructions : Option Path) (options : BlockOptions)
  | check (input : Path) (strict : Bool) (options : BlockOptions)
deriving DecidableEq, Repr

namespace Command

def targetVariable : String := "BLOCKMIN_TARGET"

def Given.options (g : Given) (target : Option String) : BlockOptions :=
  ⟨g.path? .config, ⟨g.value? .tag, g.path? .baseDir, g.path? .sourceDir,
    g.value? .target <|> target⟩⟩

/-- The command of a command line. The target may come from the environment. -/
def ofArguments (target : Option String) (arguments : List String) : Except Stop Command :=
  match readLine .nothing arguments with
  | .error stop => .error stop
  | .ok (verb, g) =>
    match g.input with
    | none => .error .usage
    | some input =>
      match verb with
      | .build => .ok (.build ⟨input⟩ (g.path? .output) (g.path? .instructions) (g.options target))
      | .check => .ok (.check ⟨input⟩ (g.switches.contains .strict) (g.options target))

end Command
end AssetBlocks
