import AssetBlocks.Json.Basic
import AssetBlocks.Number.Shortest

/-! Printing JSON, on one line or over indented lines. -/
namespace AssetBlocks.Json

def hexDigits4 (n : Nat) : List Char :=
  let digits := Nat.toDigits 16 n
  List.replicate (4 - digits.length) '0' ++ digits

def printChar (c : Char) : List Char :=
  if c = '"' then ['\\', '"']
  else if c = '\\' then ['\\', '\\']
  else if c = '\x08' then ['\\', 'b']
  else if c = '\x0c' then ['\\', 'f']
  else if c = '\n' then ['\\', 'n']
  else if c = '\r' then ['\\', 'r']
  else if c = '\t' then ['\\', 't']
  else if c.toNat < 0x20 then ['\\', 'u'] ++ hexDigits4 c.toNat
  else [c]

def printText (s : String) : String :=
  String.ofList ('"' :: s.toList.flatMap printChar ++ ['"'])

/-- Doubles are written with their fewest digits, positionally while the exponent of
the first digit is between -5 and 15, and always with a point or an exponent. -/
def printReal (x : Binary64) : String :=
  let (digits, place) := x.shortest
  let shown := Nat.toDigits 10 digits
  let lead : Int := place + shown.length - 1
  let body :=
    if -5 ≤ lead ∧ lead ≤ 15 then
      if 0 ≤ place then shown ++ List.replicate place.toNat '0' ++ ['.', '0']
      else if 0 ≤ lead then
        shown.take (lead.toNat + 1) ++ '.' :: shown.drop (lead.toNat + 1)
      else ['0', '.'] ++ List.replicate (-lead - 1).toNat '0' ++ shown
    else
      shown.take 1 ++ (if 1 < shown.length then '.' :: shown.drop 1 else []) ++
        ['e', if 0 ≤ lead then '+' else '-'] ++ Nat.toDigits 10 lead.natAbs
  String.ofList (if x.negative then '-' :: body else body)

mutual

def compact : Json → String
  | .null => "null"
  | .bool true => "true"
  | .bool false => "false"
  | .integer n => toString n
  | .real x => printReal x
  | .text s => printText s
  | .list values => "[" ++ String.intercalate "," (compactItems values) ++ "]"
  | .object fields => "\x7b" ++ String.intercalate "," (compactFields fields) ++ "\x7d"

def compactItems : List Json → List String
  | [] => []
  | v :: vs => compact v :: compactItems vs

def compactFields : List (String × Json) → List String
  | [] => []
  | (k, v) :: rest => (printText k ++ ":" ++ compact v) :: compactFields rest

end

/-- A container over several lines, unless it is empty. -/
def spread (opening closing indent : String) : List String → String
  | [] => opening ++ closing
  | entries =>
    opening ++ "\n" ++ indent ++ "  " ++
      String.intercalate (",\n" ++ indent ++ "  ") entries ++ "\n" ++ indent ++ closing

mutual

/-- One entry a line, each container two spaces further in. -/
def prettyFrom (indent : String) : Json → String
  | .null => "null"
  | .bool true => "true"
  | .bool false => "false"
  | .integer n => toString n
  | .real x => printReal x
  | .text s => printText s
  | .list values => spread "[" "]" indent (prettyItems (indent ++ "  ") values)
  | .object fields => spread "\x7b" "\x7d" indent (prettyFields (indent ++ "  ") fields)

def prettyItems (indent : String) : List Json → List String
  | [] => []
  | v :: vs => prettyFrom indent v :: prettyItems indent vs

def prettyFields (indent : String) : List (String × Json) → List String
  | [] => []
  | (k, v) :: rest => (printText k ++ ": " ++ prettyFrom indent v) :: prettyFields indent rest

end

def pretty (v : Json) : String := prettyFrom "" v

theorem prettyItems_eq_map (indent : String) (values : List Json) :
    prettyItems indent values = values.map (prettyFrom indent) := by
  induction values with
  | nil => rfl
  | cons v vs ih => rw [prettyItems, ih, List.map_cons]

/-- A list stands between brackets, each of its values on lines of its own. -/
theorem pretty_list (values : List Json) : pretty (.list values) =
    if values = [] then "[]"
    else "[\n  " ++ String.intercalate ",\n  " (values.map (prettyFrom "  ")) ++ "\n]" := by
  rw [pretty, prettyFrom, prettyItems_eq_map, String.empty_append]
  cases values with
  | nil => rfl
  | cons v vs =>
    rw [if_neg (List.cons_ne_nil _ _), List.map_cons, spread]
    · simp only [String.append_empty, String.append_assoc]
      rfl
    · exact fun same => by cases same

end AssetBlocks.Json
