import SkillMarket.Binary64.Basic

/-!
Binary64 numbers in decimal.

`ofDecimal` reads a decimal, rounded once. `shortest` finds the fewest digits that identify a
number: those of the decimal nearest to it among the decimals of that length that round to it.
`fixedOne` writes a number with one decimal place.
-/

namespace SkillMarket.Binary64

/-! ## Reading -/

/-- `n · 10^exponent` as a binary64 number, rounded once. Exponents far outside the range of the
type give the same answer as nearer ones, without computing the power. -/
def ofDecimal (negative : Bool) (n : Nat) (exponent : Int) : Binary64 :=
  if n = 0 then finite negative 0
  else
    let size : Int := (Nat.toDigits 10 n).length
    if exponent + size > 400 then infinite negative
    else if exponent + size < -400 then finite negative 0
    else if exponent ≥ 0 then ofUnits negative (n * Nat.pow 10 exponent.toNat * one) 1
    else ofUnits negative (n * one) (Nat.pow 10 (-exponent).toNat)

/-! ## The fewest digits -/

/-- Digits with the decimal exponent of the first one. -/
structure Digits where
  digits : List Char
  exponent : Int
deriving DecidableEq, Repr

/-- The counts of units that round to `units`, times four, and whether the ends round to it too. -/
structure Interval where
  low : Nat
  high : Nat
  closed : Bool

/-- The interval of a count of units. Below a power of two the spacing is half as wide. -/
def interval (units : Nat) : Interval :=
  let e := spacing units
  let width := Nat.pow 2 e
  let below := if e ≠ 0 && units = Nat.pow 2 (52 + e) then width else 2 * width
  ⟨4 * units - below, 4 * units + 2 * width, (units / width) % 2 = 0⟩

/-- The fraction `n / d`, times four, lies in the interval. -/
def Interval.holds (i : Interval) (n d : Nat) : Bool :=
  if i.closed then i.low * d ≤ 4 * n && 4 * n ≤ i.high * d
  else i.low * d < 4 * n && 4 * n < i.high * d

/-- The number of decimal places that reach the smallest positive number. -/
def places : Nat := 324

/-- The exponent of the first digit of a positive count of units. -/
def firstExponent (units : Nat) : Int :=
  ((Nat.toDigits 10 (units * Nat.pow 10 places / one)).length : Int) - 1 - places

/-- `n` decimal units `10^s` as a fraction of binary units. -/
def gridPoint (n : Nat) (s : Int) : Nat × Nat :=
  if s ≥ 0 then (n * Nat.pow 10 s.toNat * one, 1) else (n * one, Nat.pow 10 (-s).toNat)

/-- The multiple of `10^s` that identifies `units`, if one of its two neighbours does: the nearer
one, and the even one of two that are equally near. -/
def onGrid? (units : Nat) (s : Int) : Option Nat :=
  let (n, d) := if s ≥ 0 then (units, Nat.pow 10 s.toNat * one)
    else (units * Nat.pow 10 (-s).toNat, one)
  let below := n / d
  let i := interval units
  let fits (k : Nat) : Bool := let p := gridPoint k s; i.holds p.1 p.2
  match fits below, fits (below + 1) with
  | true, true => some (nearest n d)
  | true, false => some below
  | false, true => some (below + 1)
  | false, false => none

/-- The first grid that identifies `units`, from the coarsest down. -/
def coarsestGrid (units : Nat) : Nat → Int → Nat × Int
  | 0, s => (nearest (units * Nat.pow 10 places) one, s)
  | fuel + 1, s =>
    match onGrid? units s with
    | some k => (k, s)
    | none => coarsestGrid units fuel (s - 1)

/-- The digits of `k · 10^s`, without zeros at the end. -/
def digitsOf (k : Nat) (s : Int) : Digits :=
  let ds := Nat.toDigits 10 k
  ⟨(ds.reverse.dropWhile (· == '0')).reverse, s + ds.length - 1⟩

/-- The fewest digits that identify a positive count of units. Seventeen are always enough. -/
def shortest (units : Nat) : Digits :=
  let found := coarsestGrid units 17 (firstExponent units)
  digitsOf found.1 found.2

/-! ## One decimal place -/

/-- A number with one decimal place, a tie going to the even digit. -/
def fixedOne : Binary64 → List Char
  | finite s u =>
    let tenths := nearest (u * 10) one
    (if s then ['-'] else []) ++ Nat.toDigits 10 (tenths / 10) ++ '.' ::
      Nat.toDigits 10 (tenths % 10)
  | infinite s => if s then "-inf".toList else "inf".toList
  | nan => "NaN".toList

end SkillMarket.Binary64
