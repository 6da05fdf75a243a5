import AssetBlocks.Json.Basic
import AssetBlocks.Json.Fault

/-! JSON number literals. The leading digits that fit in 64 bits are the significand
of a literal; all that follows them only moves it by decimal places. -/
namespace AssetBlocks.Json

/-- A result with the text behind it. -/
abbrev Reading (α : Type) := Except Halt (α × List Char)

/-- Stops in front of a character that was looked at, or at the end. -/
def halt (fault : Fault) (cs : List Char) : Reading α := .error ⟨fault, cs, 1⟩

def digitValue (c : Char) : Nat := c.toNat - '0'.toNat

/-- Appends digits while the significand fits in 64 bits, counting them. -/
def absorb (significand count : Nat) : List Char → Nat × Nat × List Char
  | [] => (significand, count, [])
  | c :: cs =>
    if significand * 10 + digitValue c < Nat.pow 2 64 then
      absorb (significand * 10 + digitValue c) (count + 1) cs
    else (significand, count, c :: cs)

/-- The value of the digits of an exponent, or what is left behind the digit at which
it passes 31 bits. -/
def exponentValue (value : Nat) : List Char → Except (List Char) Nat
  | [] => .ok value
  | c :: cs =>
    if value * 10 + digitValue c < Nat.pow 2 31 then exponentValue (value * 10 + digitValue c) cs
    else .error cs

def signed (negative : Bool) (x : Binary64) : Json := .real { x with negative := negative }

/-- The double of a significand and its decimal places. -/
def decimal (negative : Bool) (significand : Nat) (places : Int) (rest : List Char) :
    Reading Json :=
  match Binary64.ofDecimal? significand places with
  | some x => .ok (signed negative x, rest)
  | none => .error ⟨.numberOutOfRange, rest, 0⟩

def exponent (negative : Bool) (significand : Nat) (places : Int) (cs : List Char) :
    Reading Json :=
  let (down, cs) := match cs with
    | '+' :: rest => (false, rest)
    | '-' :: rest => (true, rest)
    | _ => (false, cs)
  let digits := cs.takeWhile Char.isDigit
  let rest := cs.dropWhile Char.isDigit
  if digits = [] then
    if rest = [] then halt .endInValue rest else halt .invalidNumber rest
  else match exponentValue 0 digits with
    | .ok value =>
      decimal negative significand (if down then places - value else places + value) rest
    | .error left =>
      if significand ≠ 0 ∧ down = false then .error ⟨.numberOutOfRange, left ++ rest, 0⟩
      else .ok (signed negative ⟨false, 0, -1074⟩, rest)

/-- What may follow the digits of a fractional number. -/
def scaledDecimal (negative : Bool) (significand : Nat) (places : Int) (cs : List Char) :
    Reading Json :=
  match cs with
  | 'e' :: rest => exponent negative significand places rest
  | 'E' :: rest => exponent negative significand places rest
  | _ => decimal negative significand places cs

def fraction (negative : Bool) (significand : Nat) (places : Int) (cs : List Char) :
    Reading Json :=
  let digits := cs.takeWhile Char.isDigit
  let rest := cs.dropWhile Char.isDigit
  if digits = [] then
    if rest = [] then halt .endInValue rest else halt .invalidNumber rest
  else
    let (significand, count, _) := absorb significand 0 digits
    scaledDecimal negative significand (places - count) rest

/-- A literal without point and exponent. Minus zero and what is below the range of
64 bits are doubles. -/
def whole (negative : Bool) (significand : Nat) (rest : List Char) : Reading Json :=
  if negative = false then .ok (.integer significand, rest)
  else if 0 < significand ∧ significand ≤ Nat.pow 2 63 then .ok (.integer (-significand), rest)
  else decimal true significand 0 rest

def numeral (negative : Bool) (cs : List Char) : Reading Json :=
  let digits := cs.takeWhile Char.isDigit
  let rest := cs.dropWhile Char.isDigit
  match digits with
  | [] => if rest = [] then halt .endInValue rest else halt .invalidNumber rest
  | '0' :: c :: more => halt .invalidNumber (c :: more ++ rest)
  | _ =>
    let (significand, _, left) := absorb 0 0 digits
    match rest with
    | '.' :: rest => fraction negative significand left.length rest
    | 'e' :: rest => exponent negative significand left.length rest
    | 'E' :: rest => exponent negative significand left.length rest
    | _ =>
      if left = [] then whole negative significand rest
      else decimal negative significand left.length rest

end AssetBlocks.Json
