import AssetBlocks.Toml.Lexeme

/-! Reading TOML documents. A document is read into its lines, and the lines are put
together to tables; either may fail, and there is no telling why. -/
namespace AssetBlocks.Toml

/-- The items of a list behind its bracket, with a comma behind the last one or not. -/
def items (item : Reader Toml) : Nat → Reader (List Toml)
  | 0, _ => none
  | fuel + 1, cs => do
    match ← skipLines false cs with
    | ']' :: rest => some ([], rest)
    | cs =>
      let (value, cs) ← item cs
      match ← skipLines false cs with
      | ']' :: rest => some ([value], rest)
      | ',' :: rest =>
        let (more, rest) ← items item fuel rest
        some (value :: more, rest)
      | _ => none

/-- Keys, the sign between them and their value, and the value. What may stand around the
sign is for `skip` to say. -/
def pair (skip : List Char → Option (List Char)) (item : Reader Toml) (cs : List Char) :
    Option (Statement × List Char) := do
  let (keys, cs) ← keys? cs
  let '=' :: cs ← skip cs | none
  let (value, cs) ← item (← skip cs)
  some (.pair keys value, cs)

def pairs (item : Reader Toml) : Nat → Reader (List Statement)
  | 0, _ => none
  | fuel + 1, cs => do
    match ← skipLines false cs with
    | '\x7d' :: rest => some ([], rest)
    | cs =>
      let (statement, cs) ← pair (skipLines false) item cs
      match ← skipLines false cs with
      | '\x7d' :: rest => some ([statement], rest)
      | ',' :: rest =>
        let (more, rest) ← pairs item fuel rest
        some (statement :: more, rest)
      | _ => none

/-- A value whose containers, if they may be nested at all, hold values read by
`nested`. -/
def valueWith (nested : Option (Reader Toml)) (cs : List Char) : Option (Toml × List Char) :=
  match cs with
  | '"' :: _ => (string? cs).map fun (s, rest) => (.text s, rest)
  | '\'' :: _ => (string? cs).map fun (s, rest) => (.text s, rest)
  | '[' :: inner => do
    let item ← nested
    let (values, rest) ← items item (inner.length + 1) inner
    some (.list values, rest)
  | '\x7b' :: inner => do
    let item ← nested
    let (statements, rest) ← pairs item (inner.length + 1) inner
    let fields ← build [] [] statements
    some (.table .braces fields, rest)
  | _ => scalar? cs

def value : Nat → Reader Toml
  | 0 => valueWith none
  | depth + 1 => valueWith (some (value depth))

def header (cs : List Char) : Option (Statement × List Char) :=
  match cs with
  | '[' :: '[' :: cs => do
    let (keys, cs) ← keys? cs
    let ']' :: ']' :: cs := cs | none
    some (.repeatedHeader keys, cs)
  | '[' :: cs => do
    let (keys, cs) ← keys? cs
    let ']' :: cs := cs | none
    some (.header keys, cs)
  | _ => none

/-- The lines of a document. Every line takes a character at least. -/
def statements : Nat → List Char → Option (List Statement)
  | 0, _ => none
  | fuel + 1, cs => do
    match ← skipLines false cs with
    | [] => some []
    | cs =>
      let (statement, cs) ← match cs with
        | '[' :: _ => header cs
        | _ => pair (fun cs => some (skipBlanks cs)) (value maxDepth) cs
      let cs ← endLine cs
      let more ← statements fuel cs
      some (statement :: more)

/-- The fields of a document, which may begin with a byte order mark. -/
def read (document : String) : Option Fields :=
  let cs := match document.toList with
    | '\ufeff' :: cs => cs
    | cs => cs
  (statements (cs.length + 1) cs).bind (build [] [])

end AssetBlocks.Toml
