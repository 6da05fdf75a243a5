/-! Double-precision numbers as a mantissa and a power of two. Every operation takes
the exact quotient and rounds it once, to the nearest double and to even on a tie. -/
namespace AssetBlocks

/-- The number `±mantissa * 2 ^ exponent`, with less than 54 bits of mantissa. -/
structure Binary64 where
  negative : Bool
  mantissa : Nat
  exponent : Int
deriving DecidableEq, Repr, Inhabited

namespace Binary64

def roundDiv (num den : Nat) : Nat :=
  if 2 * (num % den) < den then num / den
  else if den < 2 * (num % den) then num / den + 1
  else num / den + num / den % 2

/-- Numerator and denominator of a quotient divided by a power of two. -/
def scaled (num den : Nat) (exponent : Int) : Nat × Nat :=
  if 0 ≤ exponent then (num, den * Nat.pow 2 exponent.toNat)
  else (num * Nat.pow 2 (-exponent).toNat, den)

/-- The exponent at which the mantissa of a quotient has 53 bits, or the least one. -/
def placeOf (num den : Nat) : Int :=
  let place := max (-1074) ((num.log2 : Int) - (den.log2 : Int) - 52)
  let (n, d) := scaled num den place
  if n / d < Nat.pow 2 52 then max (-1074) (place - 1) else place

/-- The double nearest to a quotient, if that is not beyond the greatest. -/
def ofRatio? (num den : Nat) : Option Binary64 :=
  if num = 0 then some ⟨false, 0, -1074⟩
  else
    let place := placeOf num den
    let (n, d) := scaled num den place
    let mantissa := roundDiv n d
    let (mantissa, place) := if mantissa = Nat.pow 2 53 then (Nat.pow 2 52, place + 1)
      else (mantissa, place)
    if place ≤ 971 then some ⟨false, mantissa, place⟩ else none

def ratio (x : Binary64) : Nat × Nat :=
  if 0 ≤ x.exponent then (x.mantissa * Nat.pow 2 x.exponent.toNat, 1)
  else (x.mantissa, Nat.pow 2 (-x.exponent).toNat)

def ofNat? (n : Nat) : Option Binary64 := ofRatio? n 1

def mul? (x y : Binary64) : Option Binary64 :=
  ofRatio? (x.ratio.1 * y.ratio.1) (x.ratio.2 * y.ratio.2)

def div? (x y : Binary64) : Option Binary64 :=
  ofRatio? (x.ratio.1 * y.ratio.2) (x.ratio.2 * y.ratio.1)

def scaleDown (x : Binary64) (places : Nat) : Option Binary64 :=
  if places ≤ 308 then do div? x (← ofNat? (Nat.pow 10 places))
  else if x.mantissa = 0 then some x
  else do
    let next ← div? x (← ofNat? (Nat.pow 10 308))
    scaleDown next (places - 308)
termination_by places

/-- A significand moved by decimal places: it is rounded first, then multiplied or
divided by the rounded power of ten. -/
def ofDecimal? (significand : Nat) (places : Int) : Option Binary64 := do
  let x ← ofNat? significand
  if places < 0 then scaleDown x (-places).toNat
  else if places ≤ 308 then mul? x (← ofNat? (Nat.pow 10 places.toNat))
  else if x.mantissa = 0 then some x
  else none

end Binary64
end AssetBlocks
