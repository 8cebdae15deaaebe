import StackCode.Number.Double

/-!
# The shortest decimal text of a double

A double is written with the fewest decimal digits that still round to it, and of the decimals of
that length with the one nearest to it.

## Design Notes

The decimals that round to a double fill an interval whose ends are halfway to its neighbours; the
ends belong to it when the significand is even. On the grid of decimals with a given number of
digits only the two neighbours of the double can be the nearest point of the interval, so for 1, 2,
… digits these two are tried, in exact arithmetic.
-/

namespace StackCode

/-- The number `digits · 10 ^ exponent`. -/
structure Decimal where
  digits : Nat
  exponent : Int
deriving DecidableEq, Repr

namespace Decimal

/-- Move trailing zeros of the digits into the exponent, at most as many as there is fuel. -/
def dropZeros (d : Decimal) : Nat → Decimal
  | 0 => d
  | fuel + 1 =>
    if d.digits ≠ 0 ∧ d.digits % 10 = 0 then dropZeros ⟨d.digits / 10, d.exponent + 1⟩ fuel else d

end Decimal

/-- The least `j` with `den ≤ num · 10 ^ j`, searched from `j` upwards. -/
def leadingZeros (num den : Nat) (j : Nat) : Nat → Nat
  | 0 => j
  | fuel + 1 => if den ≤ num * pow10 j then j else leadingZeros num den (j + 1) fuel

/-- The exponent of the leading decimal digit of `num / den`. -/
def leadingExponent (num den : Nat) : Int :=
  if den ≤ num then ((Nat.toDigits 10 (num / den)).length : Int) - 1
  else -(leadingZeros num den 1 400 : Int)

namespace Double

/-- The nearest decimal with `count` digits, if one of that length rounds to `x`. -/
def decimalOfLength? (x : Double) (tieUp : Bool) (count : Nat) : Option Decimal :=
  let m := x.significand
  let q := x.scale - 2
  let (num, den) := x.ratio
  let p : Int := leadingExponent num den - (count : Int) + 1
  let up := pow10 (-p).toNat * pow2 q.toNat
  let down := pow10 p.toNat * pow2 (-q).toNat
  let value := 4 * m * up
  let lower := (4 * m - (if x.fraction.val = 0 ∧ 1 < x.exponent.val then 1 else 2)) * up
  let upper := (4 * m + 2) * up
  let closed := m % 2 = 0
  let fits (c : Nat) : Bool :=
    if closed then lower ≤ c * down ∧ c * down ≤ upper else lower < c * down ∧ c * down < upper
  let below := value / down
  let remainder := 2 * (value % down)
  match fits below, fits (below + 1) with
  | true, true =>
    if remainder < down ∨ (remainder = down ∧ !tieUp ∧ below % 2 = 0) then some ⟨below, p⟩
    else some ⟨below + 1, p⟩
  | true, false => some ⟨below, p⟩
  | false, true => some ⟨below + 1, p⟩
  | false, false => none

/-- The shortest decimal that rounds to the magnitude of `x`; seventeen digits always do. -/
def shortest (x : Double) (tieUp : Bool) : Decimal :=
  let found := (List.range 17).findSome? fun k => x.decimalOfLength? tieUp (k + 1)
  (found.getD ⟨0, 0⟩).dropZeros 20

end Double

/-- How the shortest digits are laid out. A number whose leading digit has an exponent of at least
`leastExponent` and at most 15 is written with a decimal point and at least one digit on each side
of it; any other is written with an exponent. -/
structure DecimalStyle where
  leastExponent : Int
  /-- Whether an exponent that is not negative has a sign too. -/
  plusSign : Bool
  /-- Whether the larger of two equally near decimals is taken, and not the even one. -/
  tieUp : Bool
deriving DecidableEq, Repr

namespace DecimalStyle

def exponentText (style : DecimalStyle) (exponent : Int) : String :=
  (if style.plusSign ∧ 0 ≤ exponent then "e+" else "e") ++ toString exponent

def layOut (style : DecimalStyle) (d : Decimal) : String :=
  let digits := (toString d.digits).toList
  let leading : Int := (digits.length : Int) - 1 + d.exponent
  if style.leastExponent ≤ leading ∧ leading < 16 then
    if leading < 0 then
      "0." ++ String.ofList (List.replicate (-leading - 1).toNat '0' ++ digits)
    else
      let whole := (leading + 1).toNat
      let padded := digits ++ List.replicate (whole - digits.length) '0'
      let rest := padded.drop whole
      String.ofList (padded.take whole) ++ "." ++ (if rest.isEmpty then "0" else String.ofList rest)
  else
    match digits with
    | [] => ""
    | [c] => String.singleton c ++ style.exponentText leading
    | c :: rest => String.singleton c ++ "." ++ String.ofList rest ++ style.exponentText leading

end DecimalStyle

/-- The text of a double: a sign only if it is negative, zero included. -/
def Double.text (x : Double) (style : DecimalStyle) : String :=
  (if x.negative then "-" else "") ++
    (if x.isZero then "0.0" else style.layOut (x.shortest style.tieUp))

/-- Constants of a function are listed with an exponent below `1e-4` and from `1e16` on. -/
def listedStyle : DecimalStyle := ⟨-4, false, true⟩

/-- JSON numbers are written with an exponent below `1e-5` and from `1e16` on. -/
def jsonStyle : DecimalStyle := ⟨-5, true, false⟩

end StackCode
