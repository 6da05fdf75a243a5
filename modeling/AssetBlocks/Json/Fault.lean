import AssetBlocks.Text.Blank

/-! What can be wrong with a JSON text, and where. A place is a line and a column,
both counted over the bytes that were read when the reading stopped. -/
namespace AssetBlocks.Json
open Text

inductive Fault
  | endInList
  | endInObject
  | endInText
  | endInValue
  | expectedColon
  | expectedListCommaOrEnd
  | expectedObjectCommaOrEnd
  | expectedWord
  | expectedValue
  | invalidEscape
  | invalidNumber
  | numberOutOfRange
  | controlCharacter
  | keyMustBeText
  | loneSurrogate
  | trailingComma
  | trailingCharacters
  | endOfHexEscape
  | tooDeep
deriving DecidableEq, Repr

def Fault.message : Fault → String
  | .endInList => "EOF while parsing a list"
  | .endInObject => "EOF while parsing an object"
  | .endInText => "EOF while parsing a string"
  | .endInValue => "EOF while parsing a value"
  | .expectedColon => "expected `:`"
  | .expectedListCommaOrEnd => "expected `,` or `]`"
  | .expectedObjectCommaOrEnd => "expected `,` or `\x7d`"
  | .expectedWord => "expected ident"
  | .expectedValue => "expected value"
  | .invalidEscape => "invalid escape"
  | .invalidNumber => "invalid number"
  | .numberOutOfRange => "number out of range"
  | .controlCharacter => "control character (\\u0000-\\u001F) found while parsing a string"
  | .keyMustBeText => "key must be a string"
  | .loneSurrogate => "lone leading surrogate in hex escape"
  | .trailingComma => "trailing comma"
  | .trailingCharacters => "trailing characters"
  | .endOfHexEscape => "unexpected end of hex escape"
  | .tooDeep => "recursion limit exceeded"

/-- A fault, the text that was left at it, and how many bytes of that had been seen. -/
structure Halt where
  fault : Fault
  rest : List Char
  seen : Nat
deriving DecidableEq, Repr

structure Error where
  fault : Fault
  line : Nat
  column : Nat
deriving DecidableEq, Repr

def Error.message (e : Error) : String :=
  s!"{e.fault.message} at line {e.line} column {e.column}"

/-- Line and column behind the first bytes of a text. -/
def place (line column : Nat) : Nat → List Char → Nat × Nat
  | _, [] => (line, column)
  | bytes, c :: cs =>
    if bytes = 0 then (line, column)
    else if c = '\n' then place (line + 1) 0 (bytes - 1) cs
    else place line (column + min bytes c.utf8Size) (bytes - c.utf8Size) cs

def Halt.locate (h : Halt) (whole : List Char) : Error :=
  let (line, column) :=
    place 1 0 (byteLength whole - byteLength h.rest + min h.seen (byteLength h.rest)) whole
  ⟨h.fault, line, column⟩

end AssetBlocks.Json
