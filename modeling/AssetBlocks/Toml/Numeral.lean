import AssetBlocks.Number.Binary64

/-! TOML numbers. A document may hold words that are written like numbers and are none;
they only matter where a value is looked at. -/
namespace AssetBlocks.Toml

def hexDigit? (c : Char) : Option Nat :=
  if '0' ≤ c ∧ c ≤ '9' then some (c.toNat - '0'.toNat)
  else if 'a' ≤ c ∧ c ≤ 'f' then some (c.toNat - 'a'.toNat + 10)
  else if 'A' ≤ c ∧ c ≤ 'F' then some (c.toNat - 'A'.toNat + 10)
  else none

def isHexDigit (c : Char) : Bool := (hexDigit? c).isSome

def digitsValue (base : Nat) (digits : List Char) : Nat :=
  digits.foldl (fun n c => n * base + (hexDigit? c).getD 0) 0

def splitSign : List Char → Bool × List Char
  | '-' :: cs => (true, cs)
  | '+' :: cs => (false, cs)
  | cs => (false, cs)

inductive Numeral
  | integer (n : Int)
  | real (literal : String)
  /-- A word that is written like a number, but stands for none or for one out of range. -/
  | misfit (word : String)
deriving DecidableEq, Repr

namespace Numeral

def isNumber : Numeral → Bool
  | misfit _ => false
  | _ => true

/-- What follows a character, without its underscores, each of which has a digit on
both sides. -/
def compactBehind? (isDigit : Char → Bool) : Char → List Char → Option (List Char)
  | _, [] => some []
  | _, ['_'] => none
  | before, '_' :: c :: cs =>
    if isDigit before && isDigit c then (compactBehind? isDigit c cs).map (c :: ·) else none
  | _, c :: cs => (compactBehind? isDigit c cs).map (c :: ·)

/-- A word without its underscores. A sign is no digit, and nothing stands before the first
character. -/
def compact? (isDigit : Char → Bool) (word : List Char) : Option (List Char) :=
  compactBehind? isDigit ' ' word

/-- A whole number has at most 128 bits, with or without a sign. -/
def whole (word : List Char) (n : Int) : Numeral :=
  if -(Nat.pow 2 127 : Int) ≤ n ∧ n < (Nat.pow 2 128 : Int) then .integer n
  else .misfit (String.ofList word)

/-- A whole number to another base than ten, behind the mark of the base. -/
def based? (base : Nat) (isDigit : Char → Bool) (word shown : List Char) : Option Numeral :=
  if shown.all fun c => isDigit c || c == '_' then
    (compact? isDigit shown).map fun
      | [] => .misfit (String.ofList word)
      | digits => whole word (digitsValue base digits)
  else none

/-- A word of decimal digits. What comes behind an underscore need not be one of them, but
then the word stands for no number. -/
def decimal? (word : List Char) : Option Numeral :=
  match (splitSign word).2, (splitSign word).2.dropWhile Char.isDigit with
  | [], _ => none
  | _, c :: _ => if c = '_' then shaped else none
  | _, [] => shaped
where
  shaped : Option Numeral :=
    (compact? isHexDigit word).map fun cs =>
      let (negative, digits) := splitSign cs
      if digits.all Char.isDigit then
        whole word (if negative then -(digitsValue 10 digits : Int) else digitsValue 10 digits)
      else .misfit (String.ofList word)

/-- Whether a decimal number is not beyond the greatest double. -/
def isFinite (digits : List Char) (places : Int) : Bool :=
  let digits := digits.dropWhile (· == '0')
  let lead : Int := places + digits.length
  if digits = [] ∨ lead < 300 then true
  else if 320 < lead then false
  else
    let n := digitsValue 10 digits
    let (num, den) := if 0 ≤ places then (n * Nat.pow 10 places.toNat, 1)
      else (n, Nat.pow 10 (-places).toNat)
    (Binary64.ofRatio? num den).isSome

/-- The digits behind a point, if there is one, and what is left. -/
def fraction? : List Char → Option (List Char × List Char)
  | '.' :: cs =>
    if (cs.takeWhile Char.isDigit).isEmpty then none
    else some (cs.takeWhile Char.isDigit, cs.dropWhile Char.isDigit)
  | cs => some ([], cs)

def exponent? : List Char → Option Int
  | [] => some 0
  | mark :: cs =>
    let (down, digits) := splitSign cs
    if (mark = 'e' ∨ mark = 'E') ∧ digits ≠ [] ∧ digits.all Char.isDigit then
      some (if down then -(digitsValue 10 digits : Int) else digitsValue 10 digits)
    else none

def real? (word : List Char) : Option Numeral := do
  let cs ← compact? Char.isDigit word
  let body := (splitSign cs).2
  let front := body.takeWhile Char.isDigit
  let (behind, rest) ← fraction? (body.dropWhile Char.isDigit)
  let exponent ← exponent? rest
  if front = [] then none
  else if isFinite (front ++ behind) (exponent - behind.length) then
    some (.real (String.ofList word))
  else some (.misfit (String.ofList word))

def hasLeadingZero : List Char → Bool
  | '0' :: c :: _ => c.isDigit || c == '_'
  | _ => false

def isRealMark (c : Char) : Bool := c == '.' || c == 'e' || c == 'E'

def read? (word : List Char) : Option Numeral :=
  match word with
  | '0' :: 'x' :: shown => based? 16 isHexDigit word shown
  | '0' :: 'o' :: shown => based? 8 (fun c => '0' ≤ c ∧ c ≤ '7') word shown
  | '0' :: 'b' :: shown => based? 2 (fun c => c == '0' || c == '1') word shown
  | _ =>
    let body := (splitSign word).2
    if body = ['i', 'n', 'f'] ∨ body = ['n', 'a', 'n'] then some (.real (String.ofList word))
    else if hasLeadingZero body then none
    else if body.any isRealMark then real? word
    else decimal? word

end Numeral
end AssetBlocks.Toml
