import AssetBlocks.Toml.Basic

/-! The words of TOML: blanks, comments, keys, strings, and values of a single word. -/
namespace AssetBlocks.Toml

abbrev Reader (α : Type) := List Char → Option (α × List Char)

def isBlankChar (c : Char) : Bool := c == ' ' || c == '\t'

def skipBlanks (cs : List Char) : List Char := cs.dropWhile isBlankChar

def isPlain (c : Char) : Bool := c == '\t' || (0x20 ≤ c.toNat && c.toNat != 0x7F)

/-- Goes past blanks, line ends and comments. -/
def skipLines : Bool → List Char → Option (List Char)
  | _, [] => some []
  | _, '\n' :: cs => skipLines false cs
  | _, '\r' :: '\n' :: cs => skipLines false cs
  | true, c :: cs => if isPlain c then skipLines true cs else none
  | false, c :: cs =>
    if c = '#' then skipLines true cs
    else if isBlankChar c then skipLines false cs
    else some (c :: cs)

/-- What may stand behind a value on its line, and the line end. -/
def endLine (cs : List Char) : Option (List Char) :=
  let cs := skipBlanks cs
  let cs := match cs with
    | '#' :: comment => comment.dropWhile isPlain
    | _ => cs
  match cs with
  | [] => some []
  | '\n' :: rest => some rest
  | '\r' :: '\n' :: rest => some rest
  | _ => none

def codePoint (digits : Nat) (cs : List Char) : Option (Char × List Char) :=
  let shown := cs.take digits
  if shown.length = digits ∧ shown.all isHexDigit then
    let code := digitsValue 16 shown
    if code < 0xD800 ∨ (0xE000 ≤ code ∧ code < 0x110000) then
      some (Char.ofNat code, cs.drop digits)
    else none
  else none

def escape : Reader Char
  | 'b' :: cs => some ('\x08', cs)
  | 't' :: cs => some ('\t', cs)
  | 'n' :: cs => some ('\n', cs)
  | 'f' :: cs => some ('\x0c', cs)
  | 'r' :: cs => some ('\r', cs)
  | 'e' :: cs => some ('\x1b', cs)
  | '"' :: cs => some ('"', cs)
  | '\\' :: cs => some ('\\', cs)
  | 'x' :: cs => codePoint 2 cs
  | 'u' :: cs => codePoint 4 cs
  | 'U' :: cs => codePoint 8 cs
  | _ => none

def basic : Nat → Reader (List Char)
  -- never met from the length of the text on: every step takes a character at least
  | 0, _ => none
  | _ + 1, [] => none
  | _ + 1, '"' :: cs => some ([], cs)
  | fuel + 1, '\\' :: cs => do
    let (c, cs) ← escape cs
    let (more, cs) ← basic fuel cs
    some (c :: more, cs)
  | fuel + 1, c :: cs =>
    if isPlain c then do
      let (more, cs) ← basic fuel cs
      some (c :: more, cs)
    else none

def literal (cs : List Char) : Option (List Char × List Char) :=
  let body := cs.takeWhile (· != '\'')
  match cs.dropWhile (· != '\'') with
  | '\'' :: rest => if body.all isPlain then some (body, rest) else none
  | _ => none

def closingQuotes (quote : Char) (cs : List Char) : Option (List Char × List Char) :=
  let run := min 5 (cs.takeWhile (· == quote)).length
  if 3 ≤ run then some (List.replicate (run - 3) quote, cs.drop run) else none

def continued (cs : List Char) : Option (List Char) :=
  match skipBlanks cs with
  | '\n' :: rest => some (skip rest)
  | '\r' :: '\n' :: rest => some (skip rest)
  | _ => none
where
  skip : List Char → List Char
    | '\r' :: '\n' :: cs => skip cs
    | c :: cs => if isBlankChar c || c == '\n' then skip cs else c :: cs
    | [] => []

def basicLines : Nat → Reader (List Char)
  | 0, _ => none
  | _ + 1, [] => none
  | fuel + 1, '\\' :: cs =>
    match continued cs with
    | some cs => basicLines fuel cs
    | none => do
      let (c, cs) ← escape cs
      let (more, cs) ← basicLines fuel cs
      some (c :: more, cs)
  | fuel + 1, '\r' :: '\n' :: cs => do
    let (more, cs) ← basicLines fuel cs
    some ('\r' :: '\n' :: more, cs)
  | fuel + 1, c :: cs =>
    match closingQuotes '"' (c :: cs) with
    | some found => some found
    | none =>
      if isPlain c || c == '\n' then do
        let (more, cs) ← basicLines fuel cs
        some (c :: more, cs)
      else none

def literalLines : Reader (List Char)
  | [] => none
  | '\r' :: '\n' :: cs => do
    let (more, cs) ← literalLines cs
    some ('\r' :: '\n' :: more, cs)
  | c :: cs =>
    match closingQuotes '\'' (c :: cs) with
    | some found => some found
    | none =>
      if isPlain c || c == '\n' then do
        let (more, cs) ← literalLines cs
        some (c :: more, cs)
      else none

/-- A line end right behind the opening quotes is no part of the string. -/
def dropLineEnd : List Char → List Char
  | '\n' :: cs => cs
  | '\r' :: '\n' :: cs => cs
  | cs => cs

def string? (cs : List Char) : Option (String × List Char) :=
  let body := match cs with
    | '"' :: '"' :: '"' :: cs => basicLines (cs.length + 1) (dropLineEnd cs)
    | '"' :: cs => basic (cs.length + 1) cs
    | '\'' :: '\'' :: '\'' :: cs => literalLines (dropLineEnd cs)
    | '\'' :: cs => literal cs
    | _ => none
  body.map fun (s, rest) => (String.ofList s, rest)

def isBareKeyChar (c : Char) : Bool := c.isAlphanum || c == '_' || c == '-'

def key? (cs : List Char) : Option (String × List Char) :=
  match cs with
  | '"' :: rest => (basic (rest.length + 1) rest).map fun (s, rest) => (String.ofList s, rest)
  | '\'' :: rest => (literal rest).map fun (s, rest) => (String.ofList s, rest)
  | _ =>
    match cs.takeWhile isBareKeyChar with
    | [] => none
    | name => some (String.ofList name, cs.dropWhile isBareKeyChar)

def dotted : Nat → Reader (List String)
  | 0, _ => none
  | fuel + 1, cs => do
    let (first, cs) ← key? (skipBlanks cs)
    match skipBlanks cs with
    | '.' :: cs =>
      let (more, cs) ← dotted fuel cs
      some (first :: more, cs)
    | cs => some ([first], cs)

/-- The bound of nested containers and of keys between dots. -/
def maxDepth : Nat := 80

def keys? (cs : List Char) : Option (List String × List Char) := do
  let (keys, cs) ← dotted (cs.length + 1) cs
  if keys.length ≤ maxDepth then some (keys, cs) else none

def isDelimiter (c : Char) : Bool :=
  isBlankChar c || c == '\n' || c == '\r' || c == '#' || c == '=' || c == ',' || c == '[' ||
    c == ']' || c == '\x7b' || c == '\x7d'

def scalar? (cs : List Char) : Option (Toml × List Char) :=
  let word := cs.takeWhile (!isDelimiter ·)
  let rest := cs.dropWhile (!isDelimiter ·)
  let (word, rest) := match Date.read? word, rest with
    | some (_, []), ' ' :: c :: more =>
      if c.isDigit then
        (word ++ ' ' :: (c :: more).takeWhile (!isDelimiter ·),
          (c :: more).dropWhile (!isDelimiter ·))
      else (word, rest)
    | _, _ => (word, rest)
  let value :=
    if word = ['t', 'r', 'u', 'e'] then some (.bool true)
    else if word = ['f', 'a', 'l', 's', 'e'] then some (.bool false)
    else (Numeral.read? word).map .number <|> (Moment.read? word).map .moment
  value.map (·, rest)

end AssetBlocks.Toml
