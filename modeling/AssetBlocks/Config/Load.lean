import AssetBlocks.Config.Document

/-! Where a configuration comes from: the file that is named, else the nearest one in the
working directory and those above it, else the defaults. Overrides come last, and what
is loaded is valid. -/
namespace AssetBlocks.Config

def fileName : String := "blockmin.toml"

/-- Where a configuration is sought, the nearest place first. -/
def candidates (cwd : Path) : List Path := cwd.ancestors.map (·.join fileName)

def find? (s : Surroundings) : Option Path := (candidates s.cwd).find? s.has

def ofFile (s : Surroundings) (path : Path) : Except Error Config := do
  let text ← (s.readText path).mapError .file
  match Document.read? text with
  | none => .error .notToml
  | some document =>
    let document ← document.expanded s
    .ok ⟨document.settings (path.parent?.getD ⟨"."⟩), document.aliases, some path⟩

def ofNothing (s : Surroundings) : Config := ⟨Settings.within s.cwd, [], none⟩

def found (s : Surroundings) : Option Path → Except Error Config
  | some path => if s.has path then ofFile s path else .error (.notFound path)
  | none =>
    match find? s with
    | some path => ofFile s path
    | none => .ok (ofNothing s)

def override (c : Config) (o : Settings.Overrides) : Config :=
  { c with settings := c.settings.override o }

def check (c : Config) : Except Error Config :=
  match c.fault? with
  | none => .ok c
  | some fault => .error (.invalid fault)

def load (s : Surroundings) (named : Option Path) (o : Settings.Overrides) :
    Except Error Config := do
  check ((← Config.found s named).override o)

theorem valid_of_check {c checked : Config} (ok : c.check = .ok checked) : checked.Valid := by
  simp only [check] at ok
  split at ok
  · next none =>
    simp only [Except.ok.injEq] at ok
    subst ok
    exact fault?_eq_none_iff.mp none
  · simp at ok

theorem valid_of_load {s : Surroundings} {named : Option Path} {o : Settings.Overrides}
    {c : Config} (ok : load s named o = .ok c) : c.Valid := by
  cases outcome : Config.found s named with
  | error e => simp [load, outcome, bind, Except.bind] at ok
  | ok before =>
    simp only [load, outcome, bind, Except.bind] at ok
    exact valid_of_check ok

def paths (s : Surroundings) : Option Path → List Path
  | some path => [path]
  | none => candidates s.cwd

def names (s : Surroundings) (named : Option Path) : List String :=
  let found := match named with
    | some path => some path
    | none => find? s
  let document := found.bind fun path => (s.readText path).toOption.bind Document.read?
  ["HOME", "USERPROFILE"] ++ (document.map Document.names).getD []

end AssetBlocks.Config
