import KernelDispatch.Single

/-
  Decimal texts of `f32` elements. A number is written with the fewest digits that read back as
  it, and of these with the digits nearest to it; of two equally near ones the larger is taken.
  The search walks down the grids of the powers of ten, in exact arithmetic: the first grid with a
  point among the numbers that read back has the fewest digits.
-/

namespace KernelDispatch

namespace Single

/-! ## The numbers that read back -/

/-- The bits of the exponent. -/
def exponentBits (x : Single) : Nat := x.toNat / Nat.pow 2 23 % Nat.pow 2 8

/-- The bits of the fraction. -/
def fraction (x : Single) : Nat := x.toNat % Nat.pow 2 23

def isNegative (x : Single) : Bool := decide (Nat.pow 2 31 ≤ x.toNat)

/-- Infinities and NaNs are not finite. -/
def isFinite (x : Single) : Bool := x.exponentBits != 255

/-- The parts of the unit in which `Neighbourhood` counts: half a unit in the last place of the
    smallest number is two of them. -/
def partsPerOne : Nat := Nat.pow 2 151

/-- A number without its sign, and the interval of the numbers that are rounded to it. -/
structure Neighbourhood where
  low : Nat
  middle : Nat
  high : Nat
  /-- Whether the ends of the interval are rounded to the number, too. -/
  closed : Bool
  deriving Repr

/-- The numbers that read back as a finite number. Below a power of two the gap is half as wide.
    Ends go to the even fraction. -/
def neighbourhood (x : Single) : Neighbourhood :=
  let significand := if x.exponentBits = 0 then x.fraction else x.fraction + Nat.pow 2 23
  let step := Nat.pow 2 (x.exponentBits - 1)
  let below := if x.fraction = 0 ∧ 1 < x.exponentBits then 1 else 2
  { low := (4 * significand - below) * step
    middle := 4 * significand * step
    high := (4 * significand + 2) * step
    closed := x.fraction % 2 == 0 }

/-- Whether a number, given as a fraction of the parts, reads back. -/
def Neighbourhood.contains (n : Neighbourhood) (numerator denominator : Nat) : Bool :=
  if n.closed then
    decide (n.low * denominator ≤ numerator) && decide (numerator ≤ n.high * denominator)
  else decide (n.low * denominator < numerator) && decide (numerator < n.high * denominator)

/-! ## Digits -/

/-- The number `digits * 10 ^ exponent`. -/
structure Decimal where
  digits : Nat
  exponent : Int
  deriving DecidableEq, Repr

/-- The point of the grid `10 ^ e` that is nearest among those that read back, if there is one. A
    grid with such a point has one next to the number. -/
def Neighbourhood.onGrid? (n : Neighbourhood) (e : Int) : Option Decimal :=
  let denominator := Nat.pow 10 (-e).toNat
  let spacing := partsPerOne * Nat.pow 10 e.toNat
  let scaled := n.middle * denominator
  let digits := scaled / spacing
  let below := n.contains (digits * spacing) denominator
  let above := n.contains ((digits + 1) * spacing) denominator
  if above && (!below || decide (spacing ≤ 2 * (scaled - digits * spacing))) then
    some ⟨digits + 1, e⟩
  else if below then some ⟨digits, e⟩
  else none

/-- The exponents of the grids, from above the largest number down to one that separates any two
    numbers. -/
def gridExponents : List Int := (List.range 96).map fun i => 39 - Int.ofNat i

/-- The shortest decimal that reads back as a finite number without its sign. -/
def shortest? (x : Single) : Option Decimal := gridExponents.findSome? x.neighbourhood.onGrid?

/-! ## Texts -/

/-- A decimal that is not zero: with a point when it is at least `10 ^ (-4)` and less than
    `10 ^ 16`, and then with at least one digit on each side of it; else with one digit before the
    point and an exponent. -/
def Decimal.text (d : Decimal) : String :=
  let digits := Nat.toDigits 10 d.digits
  let point : Int := digits.length + d.exponent
  if -3 ≤ point ∧ point ≤ 16 then
    if point ≤ 0 then String.ofList ('0' :: '.' :: (List.replicate (-point).toNat '0' ++ digits))
    else
      let whole := digits.take point.toNat
      let rest := digits.drop point.toNat
      String.ofList (whole ++ List.replicate (point.toNat - digits.length) '0' ++
        '.' :: (if rest.isEmpty then ['0'] else rest))
  else
    let rest := digits.drop 1
    String.ofList (digits.take 1 ++ if rest.isEmpty then [] else '.' :: rest) ++ "e" ++
      toString (point - 1)

/-- The text of an element. NaNs are written alike. -/
def text (x : Single) : String :=
  if x.isNaN then "NaN"
  else
    (if x.isNegative then "-" else "") ++
      if !x.isFinite then "inf"
      else match x.shortest? with
        | some d => if d.digits = 0 then "0.0" else d.text
        | none => "0.0"

end Single

end KernelDispatch
