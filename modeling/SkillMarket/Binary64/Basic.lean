/-!
Binary64 numbers, exactly.

A finite number is a sign and a count of units, one unit being 2^-1074. Each operation computes
its exact result as a quotient of natural numbers and rounds it once, to the nearest count that a
53-bit significand can hold, a tie going to the even significand.
-/

namespace SkillMarket

/-- A binary64 number: so many units of 2^-1074, an infinity, or not a number. -/
inductive Binary64 where
  | finite (negative : Bool) (units : Nat)
  | infinite (negative : Bool)
  | nan
deriving DecidableEq, Repr

namespace Binary64

/-! ## Rounding -/

/-- The natural number nearest to `n / d`, the even one of two. -/
def nearest (n d : Nat) : Nat :=
  let q := n / d
  let r := n % d
  if 2 * r < d then q
  else if 2 * r > d then q + 1
  else if q % 2 = 0 then q else q + 1

/-- The binary exponent of the spacing of 53-bit significands around `n` units. -/
def spacing (n : Nat) : Nat := n.log2 - 52

/-- The count of units nearest to `n / d` that a 53-bit significand can hold. -/
def roundUnits (n d : Nat) : Nat :=
  let e := spacing (n / d)
  nearest n (d * Nat.pow 2 e) * Nat.pow 2 e

/-- The number of units in one. -/
def one : Nat := Nat.pow 2 1074

/-- The least count of units that is out of range. -/
def overflow : Nat := Nat.pow 2 2098

/-- The binary64 number nearest to `n / d` units. -/
def ofUnits (negative : Bool) (n d : Nat) : Binary64 :=
  let u := roundUnits n d
  if u < overflow then .finite negative u else .infinite negative

/-- The binary64 number nearest to a natural number. -/
def ofNat (n : Nat) : Binary64 := ofUnits false (n * one) 1

/-- The binary64 number nearest to an integer. -/
def ofInt (n : Int) : Binary64 := ofUnits (n < 0) (n.natAbs * one) 1

/-- The binary64 number nearest to `n / d`. -/
def ofRatio (n d : Nat) : Binary64 := ofUnits false (n * one) d

/-! ## Arithmetic -/

/-- A count of units with its sign. -/
def signed (negative : Bool) (units : Nat) : Int := if negative then -(units : Int) else units

def neg : Binary64 → Binary64
  | finite s u => finite (!s) u
  | infinite s => infinite (!s)
  | nan => nan

def add : Binary64 → Binary64 → Binary64
  | finite s m, finite t n =>
    let sum := signed s m + signed t n
    if sum = 0 then finite (s && t) 0 else ofUnits (sum < 0) sum.natAbs 1
  | infinite s, infinite t => if s = t then infinite s else nan
  | infinite s, finite _ _ => infinite s
  | finite _ _, infinite t => infinite t
  | _, _ => nan

def sub (x y : Binary64) : Binary64 := add x (neg y)

def mul : Binary64 → Binary64 → Binary64
  | finite s m, finite t n => ofUnits (s != t) (m * n) one
  | infinite s, infinite t => infinite (s != t)
  | infinite s, finite t n => if n = 0 then nan else infinite (s != t)
  | finite s m, infinite t => if m = 0 then nan else infinite (s != t)
  | _, _ => nan

def div : Binary64 → Binary64 → Binary64
  | finite s m, finite t n =>
    if n = 0 then (if m = 0 then nan else infinite (s != t))
    else ofUnits (s != t) (m * one) n
  | infinite s, finite t _ => infinite (s != t)
  | finite s _, infinite t => finite (s != t) 0
  | _, _ => nan

instance : Neg Binary64 := ⟨neg⟩
instance : Add Binary64 := ⟨add⟩
instance : Sub Binary64 := ⟨sub⟩
instance : Mul Binary64 := ⟨mul⟩
instance : Div Binary64 := ⟨div⟩

/-- The integer nearest to a number, the even one of two. -/
def roundToEven : Binary64 → Binary64
  | finite s m => finite s (nearest m one * one)
  | x => x

/-! ## Comparison -/

/-- `x ≤ y` as numbers: the zeros are equal, and nothing compares with `nan`. -/
def le : Binary64 → Binary64 → Bool
  | finite s m, finite t n => signed s m ≤ signed t n
  | infinite s, infinite t => s || !t
  | infinite s, finite _ _ => s
  | finite _ _, infinite t => !t
  | _, _ => false

/-- Equality as numbers. -/
def eq (x y : Binary64) : Bool := le x y && le y x

/-- The greater of two numbers. -/
def max (x y : Binary64) : Binary64 := if le x y then y else x

/-! ## The interchange format -/

/-- The 64 bits of the interchange format, for a number that is one. -/
def bits? : Binary64 → Option Nat
  | finite s u =>
    let magnitude :=
      if u < leading then u
      else (spacing u + 1) * leading + (u / Nat.pow 2 (spacing u) - leading)
    some (sign s + magnitude)
  | infinite s => some (sign s + 0x7FF * leading)
  | nan => none
where
  /-- The leading bit of a significand, which is not written. -/
  leading : Nat := Nat.pow 2 52
  sign (s : Bool) : Nat := if s then Nat.pow 2 63 else 0

end Binary64

end SkillMarket
