import AssetBlocks.Number.Binary64

/-! The fewest decimal digits that read back as the same double, and of those the
nearest to it. The double's rounding interval is compared with the two neighbours of
the double on ever finer decimal grids. -/
namespace AssetBlocks.Binary64

/-- Three quotients over one denominator: the ends of the interval of reals that
round to a double, and between them the double itself. It is closed where the ends do too. -/
structure Interval where
  low : Nat
  value : Nat
  high : Nat
  den : Nat
  closed : Bool

def interval (x : Binary64) : Interval :=
  let (scale, den) := if 0 ≤ x.exponent then (Nat.pow 2 x.exponent.toNat, 4)
    else (1, 4 * Nat.pow 2 (-x.exponent).toNat)
  let below := if x.mantissa = Nat.pow 2 52 ∧ -1074 < x.exponent then 1 else 2
  { low := (4 * x.mantissa - below) * scale
    value := 4 * x.mantissa * scale
    high := (4 * x.mantissa + 2) * scale
    den := den
    closed := x.mantissa % 2 = 0 }

/-- Whether `grid * 10 ^ place` lies in the interval. -/
def Interval.holds (i : Interval) (grid : Nat) (place : Int) : Bool :=
  let (n, d) := if 0 ≤ place then (grid * Nat.pow 10 place.toNat * i.den, 1)
    else (grid * i.den, Nat.pow 10 (-place).toNat)
  if i.closed then i.low * d ≤ n && n ≤ i.high * d else i.low * d < n && n < i.high * d

/-- The exponent of the leading decimal digit of a positive quotient. -/
def leadingPlace (num den : Nat) : Int :=
  if den ≤ num then ((Nat.toDigits 10 (num / den)).length : Int) - 1
  else -((Nat.toDigits 10 (den / num)).length : Int)

/-- The neighbours of the value on the grid of one decimal place: the one below and
whether the one above is nearer. -/
def Interval.floor (i : Interval) (place : Int) : Nat × Bool :=
  let (n, d) := if 0 ≤ place then (i.value, i.den * Nat.pow 10 place.toNat)
    else (i.value * Nat.pow 10 (-place).toNat, i.den)
  (n / d, d < 2 * (n % d) || (d == 2 * (n % d) && n / d % 2 == 1))

def Interval.pick? (i : Interval) (place : Int) : Option Nat :=
  let (below, up) := i.floor place
  match i.holds below place, i.holds (below + 1) place with
  | true, true => some (if up then below + 1 else below)
  | true, false => some below
  | false, true => some (below + 1)
  | false, false => none

def Interval.search (i : Interval) : Nat → Int → Nat × Int
  | 0, place => ((i.floor place).1, place)
  | more + 1, place =>
    match i.pick? place with
    | some grid => (grid, place)
    | none => i.search more (place - 1)

def dropZeros : Nat → Nat → Int → Nat × Int
  | 0, digits, place => (digits, place)
  | fuel + 1, digits, place =>
    if digits % 10 = 0 then dropZeros fuel (digits / 10) (place + 1) else (digits, place)

def shortest (x : Binary64) : Nat × Int :=
  if x.mantissa = 0 then (0, 0)
  else
    let i := x.interval
    let (digits, place) := i.search 17 (leadingPlace i.value i.den)
    dropZeros 20 digits place

end AssetBlocks.Binary64
