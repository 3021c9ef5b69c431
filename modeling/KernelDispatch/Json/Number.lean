import KernelDispatch.Json.Token

/-
  The magnitude of JSON numbers. A number is read in double precision, by at most one
  multiplication: digits are taken while they fit in a size, those behind them count by their place
  only, and what has been taken is multiplied with a power of ten, each of the two rounded first.
  So a number next to the largest double may be found too large, or not, against its exact value.
  This is the library's reading of numbers when it is not asked for exact ones; it documents that
  digits may be lost then, and that a number out of the range of double precision is an error.
-/

namespace KernelDispatch

namespace Json

/-- Takes digits while they fit in a size behind the value `acc`; the result and the digits that
    are left. -/
def takeDigits : Nat → List Char → Nat × List Char
  | acc, [] => (acc, [])
  | acc, c :: cs =>
    if 10 * acc + (c.toNat - 48) < sizeLimit then takeDigits (10 * acc + (c.toNat - 48)) cs
    else (acc, c :: cs)

/-- The number `significand * 10 ^ exponent`. -/
structure Scaled where
  significand : Nat
  exponent : Int
  deriving DecidableEq, Repr

/-- The parts of a spelling as they are taken. Digits left over before the point raise the exponent;
    those left over behind it do not count. -/
def Scaled.ofSpelling (spelling : List Char) : Scaled :=
  let unsigned := match spelling with
    | '-' :: cs => cs
    | cs => cs
  let whole := unsigned.takeWhile Char.isDigit
  let behind := unsigned.dropWhile Char.isDigit
  let fraction := match behind with
    | '.' :: cs => cs.takeWhile Char.isDigit
    | _ => []
  let (sign, exponent) := exponentSign ((behind.dropWhile fun c => c != 'e' && c != 'E').drop 1)
  let (upToPoint, left) := takeDigits 0 whole
  let (significand, left') := takeDigits upToPoint fraction
  let written : Int := digitsValue exponent
  { significand
    exponent := (if sign = ['-'] then -written else written) + left.length -
      (fraction.length - left'.length) }

/-- The double nearest to a natural number, when overflow is left aside: 53 significant bits, and
    of two equally near ones the even one. -/
def nearestDouble (n : Nat) : Nat :=
  let unit := Nat.pow 2 (n.log2 + 1 - 53)
  let below := n / unit
  let twice := 2 * (n % unit)
  (if twice < unit || (twice == unit && below % 2 == 0) then below else below + 1) * unit

/-- Numbers from here on are rounded to infinity. -/
def doubleLimit : Nat := Nat.pow 2 1024 - Nat.pow 2 970

/-- Whether a number is found in the range of double precision. -/
def Scaled.isFinite (x : Scaled) : Bool :=
  x.significand == 0 || decide (x.exponent < 0) || (decide (x.exponent ≤ 308) &&
    decide (nearestDouble x.significand * nearestDouble (Nat.pow 10 x.exponent.toNat) <
      doubleLimit))

end Json

end KernelDispatch
