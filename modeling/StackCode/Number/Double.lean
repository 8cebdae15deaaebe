/-!
# Finite binary64 numbers

Float literals are finite IEEE 754 binary64 numbers. A `Double` is one of them by its three bit
fields, so two doubles are equal exactly when their bits are; zero and minus zero differ.

## Design Notes

All arithmetic is exact arithmetic on naturals. `Double.nearest` rounds once, to the nearest double
and a tie to the even fraction; every other operation is a composition of it, which is how rounded
operations compose.
-/

namespace StackCode

/-- The quotient rounded to the nearest natural; a tie goes to the even one. -/
def roundHalfEven (n d : Nat) : Nat :=
  let q := n / d
  let r := n % d
  if 2 * r < d then q
  else if d < 2 * r then q + 1
  else if q % 2 = 0 then q else q + 1

def pow2 (n : Nat) : Nat := Nat.pow 2 n

def pow10 (n : Nat) : Nat := Nat.pow 10 n

/-- A finite binary64 number. -/
structure Double where
  negative : Bool
  /-- The biased exponent; the value 2047 is left out, as it stands for no finite number. -/
  exponent : Fin 2047
  /-- The 52 bits behind the leading one. -/
  fraction : Fin 0x10000000000000
deriving DecidableEq, Repr

namespace Double

/-- The double `0.0`, or `-0.0`. -/
def zero (negative : Bool) : Double := ⟨negative, 0, 0⟩

instance : Inhabited Double := ⟨zero false⟩

/-- The bit pattern: sign, exponent, fraction from the highest bit down. -/
def toBits (x : Double) : UInt64 :=
  UInt64.ofNat ((if x.negative then pow2 63 else 0) + x.exponent.val * pow2 52 + x.fraction.val)

/-- Whether the value is zero, of either sign. -/
def isZero (x : Double) : Bool := x.exponent.val == 0 && x.fraction.val == 0

/-- The integer significand of the magnitude, see `scale`. -/
def significand (x : Double) : Nat :=
  if x.exponent.val = 0 then x.fraction.val else x.fraction.val + pow2 52

/-- The magnitude is `significand` times two to the power of `scale`. -/
def scale (x : Double) : Int :=
  if x.exponent.val = 0 then -1074 else (x.exponent.val : Int) - 1075

/-- The magnitude as a quotient of naturals. -/
def ratio (x : Double) : Nat × Nat :=
  (x.significand * pow2 x.scale.toNat, pow2 (-x.scale).toNat)

/-- The number `n · 2 ^ q` for a significand of at most 53 bits; none if it is too large. -/
def pack? (negative : Bool) (n : Nat) (q : Int) : Option Double :=
  if n < pow2 52 then some ⟨negative, 0, .ofNat _ n⟩
  else
    let e := (q + 1075).toNat
    if h : e < 2047 then some ⟨negative, ⟨e, h⟩, .ofNat _ n⟩ else none

/-- The double nearest to `num / den`, a tie going to the even fraction; none if it overflows. The
unit in the last place is chosen so that the quotient has 53 bits, or is the least unit there is. -/
def nearest (negative : Bool) (num den : Nat) : Option Double :=
  if num = 0 then some (zero negative)
  else
    let scaled (q : Int) : Nat × Nat := (num * pow2 (-q).toNat, den * pow2 q.toNat)
    let guess : Int := max ((num.log2 : Int) - (den.log2 : Int) - 53) (-1074)
    let (a, b) := scaled guess
    let unit := if a / b < pow2 53 then guess else guess + 1
    let (n, d) := scaled unit
    let rounded := roundHalfEven n d
    if rounded = pow2 53 then pack? negative (pow2 52) (unit + 1) else pack? negative rounded unit

def ofInt? (n : Int) : Option Double :=
  nearest (n < 0) n.natAbs 1

def tenPower? (k : Nat) : Option Double := nearest false (pow10 k) 1

/-- The product of the magnitudes, rounded. -/
def times? (x y : Double) : Option Double :=
  let (a, b) := x.ratio
  let (c, d) := y.ratio
  nearest false (a * c) (b * d)

/-- The quotient of the magnitudes, rounded. -/
def over? (x y : Double) : Option Double :=
  let (a, b) := x.ratio
  let (c, d) := y.ratio
  nearest false (a * d) (b * c)

/-- The largest power of ten that is a double. -/
def greatestTenPower : Nat := 308

/-- Divide by ten to the power of `k`, in steps of at most the greatest power that is a double. -/
def scaleDown (x : Double) (k : Nat) : Nat → Option Double
  | 0 => some (zero false)
  | fuel + 1 =>
    if k ≤ greatestTenPower then do x.over? (← tenPower? k)
    else if x.isZero then some x
    else do
      let y ← x.over? (← tenPower? greatestTenPower)
      scaleDown y (k - greatestTenPower) fuel

/-- The double denoted by `significand · 10 ^ exponent`: the significand and the power of ten are
each rounded to a double, then their product or quotient is. None if that overflows. -/
def ofDecimal? (negative : Bool) (significand : Nat) (exponent : Int) : Option Double := do
  let x ← nearest false significand 1
  let y ←
    if 0 ≤ exponent then
      if x.isZero then some x
      else if exponent.toNat ≤ greatestTenPower then x.times? (← tenPower? exponent.toNat)
      else none
    else x.scaleDown (-exponent).toNat ((-exponent).toNat + 1)
  return { y with negative }

end Double

end StackCode
