/-
  Hexadecimal digits. They are written in small letters and read in letters of either size.
-/

namespace KernelDispatch

namespace Text

/-- The value of a hexadecimal digit. -/
def hexDigit? (c : Char) : Option Nat :=
  if '0' ≤ c ∧ c ≤ '9' then some (c.toNat - 48)
  else if 'a' ≤ c ∧ c ≤ 'f' then some (c.toNat - 87)
  else if 'A' ≤ c ∧ c ≤ 'F' then some (c.toNat - 55)
  else none

/-- Reads further digits behind those with the value `acc`. -/
def hexFrom? : Nat → List Char → Option Nat
  | acc, [] => some acc
  | acc, c :: cs => (hexDigit? c).bind fun d => hexFrom? (16 * acc + d) cs

/-- The number that hexadecimal digits spell. -/
def hex? (cs : List Char) : Option Nat := hexFrom? 0 cs

/-- The digit of a value below sixteen. -/
def hexChar (n : Nat) : Char := if n < 10 then Char.ofNat (48 + n) else Char.ofNat (87 + n)

/-- The last `digits` hexadecimal digits of a number. -/
def hexChars : Nat → Nat → List Char
  | 0, _ => []
  | digits + 1, n => hexChars digits (n / 16) ++ [hexChar (n % 16)]

end Text

end KernelDispatch
