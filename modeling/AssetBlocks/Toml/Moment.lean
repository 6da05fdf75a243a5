import AssetBlocks.Text.Blank
import AssetBlocks.Toml.Numeral

/-! Dates and times of day, as they are read and as they are written. What is written is
the short form: no more places behind the seconds than are needed, `T` before the time of
day and `Z` for no offset at all. -/
namespace AssetBlocks.Toml

structure Date where
  year : Nat
  month : Nat
  day : Nat
deriving DecidableEq, Repr

/-- A time of day. The seconds, and the billionths behind them, may be left out. -/
structure Clock where
  hour : Nat
  minute : Nat
  second : Option Nat
  billionths : Option Nat
deriving DecidableEq, Repr

inductive Zone
  | universal
  | ahead (minutes : Int)
deriving DecidableEq, Repr

inductive Moment
  | date (day : Date)
  | clock (time : Clock)
  | both (day : Date) (time : Clock) (zone : Option Zone)
deriving DecidableEq, Repr

def fixed? (count : Nat) (cs : List Char) : Option (Nat × List Char) :=
  let shown := cs.take count
  if shown.length = count ∧ shown.all Char.isDigit then
    some (digitsValue 10 shown, cs.drop count)
  else none

def padded (width n : Nat) : List Char :=
  let digits := Nat.toDigits 10 n
  List.replicate (width - digits.length) '0' ++ digits

namespace Date

def monthDays (year month : Nat) : Nat :=
  if month = 2 then
    if year % 4 = 0 ∧ (year % 100 ≠ 0 ∨ year % 400 = 0) then 29 else 28
  else if month = 4 ∨ month = 6 ∨ month = 9 ∨ month = 11 then 30 else 31

def read? (cs : List Char) : Option (Date × List Char) := do
  let (year, cs) ← fixed? 4 cs
  let '-' :: cs := cs | none
  let (month, cs) ← fixed? 2 cs
  let '-' :: cs := cs | none
  let (day, cs) ← fixed? 2 cs
  if 1 ≤ month ∧ month ≤ 12 ∧ 1 ≤ day ∧ day ≤ monthDays year month then
    some (⟨year, month, day⟩, cs)
  else none

def text (d : Date) : List Char :=
  padded 4 d.year ++ '-' :: padded 2 d.month ++ '-' :: padded 2 d.day

end Date

namespace Clock

/-- Digits behind the point of the seconds; those beyond the ninth are dropped. -/
def billionths? (cs : List Char) : Option (Option Nat × List Char) :=
  match cs with
  | '.' :: cs =>
    match cs.takeWhile Char.isDigit with
    | [] => none
    | digits =>
      some (some (digitsValue 10 ((digits ++ List.replicate 9 '0').take 9)),
        cs.dropWhile Char.isDigit)
  | cs => some (none, cs)

/-- A time of day. There may be a sixty-first second. -/
def read? (cs : List Char) : Option (Clock × List Char) := do
  let (hour, cs) ← fixed? 2 cs
  let ':' :: cs := cs | none
  let (minute, cs) ← fixed? 2 cs
  if 23 < hour ∨ 59 < minute then none
  else match cs with
    | ':' :: cs => do
      let (second, cs) ← fixed? 2 cs
      let (billionths, cs) ← billionths? cs
      if 60 < second then none else some (⟨hour, minute, some second, billionths⟩, cs)
    | cs => some (⟨hour, minute, none, none⟩, cs)

def secondText (second : Nat) : List Char := ':' :: padded 2 second

def billionthsText (n : Nat) : List Char :=
  match Text.trimEnd (· == '0') (padded 9 n) with
  | [] => ['.', '0']
  | digits => '.' :: digits

def text (t : Clock) : List Char :=
  padded 2 t.hour ++ ':' :: padded 2 t.minute ++ (t.second.map secondText).getD [] ++
    (t.billionths.map billionthsText).getD []

end Clock

namespace Zone

/-- All of a text as a zone, or as none where it is empty. -/
def read? (cs : List Char) : Option (Option Zone) :=
  match cs with
  | [] => some none
  | ['Z'] => some (some .universal)
  | ['z'] => some (some .universal)
  | sign :: cs =>
    if sign = '+' ∨ sign = '-' then do
      let (hours, cs) ← fixed? 2 cs
      let ':' :: cs := cs | none
      let (minutes, []) ← fixed? 2 cs | none
      if 23 < hours ∨ 59 < minutes then none
      else
        let total : Int := hours * 60 + minutes
        some (some (.ahead (if sign = '-' then -total else total)))
    else none

def text : Zone → List Char
  | universal => ['Z']
  | ahead minutes =>
    (if minutes < 0 then '-' else '+') :: padded 2 (minutes.natAbs / 60) ++
      ':' :: padded 2 (minutes.natAbs % 60)

end Zone

namespace Moment

/-- All of a word as a date, a time of day, or both. -/
def read? (word : List Char) : Option Moment :=
  match Date.read? word with
  | some (day, []) => some (.date day)
  | some (day, mark :: cs) =>
    if mark = 'T' ∨ mark = 't' ∨ mark = ' ' then do
      let (time, cs) ← Clock.read? cs
      let zone ← Zone.read? cs
      some (.both day time zone)
    else none
  | none =>
    match Clock.read? word with
    | some (time, []) => some (.clock time)
    | _ => none

def chars : Moment → List Char
  | date day => day.text
  | clock time => time.text
  | both day time zone => day.text ++ 'T' :: time.text ++ (zone.map Zone.text).getD []

def text (m : Moment) : String := String.ofList m.chars

end Moment
end AssetBlocks.Toml
