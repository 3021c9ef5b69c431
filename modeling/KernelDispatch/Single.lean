/-
  Arithmetic on `f32` elements. An element is its bit pattern, so moving one never changes it.
  `Arithmetic` names the operations that kernels use; `Arithmetic.single` is IEEE single
  precision with one rounding per operation.
-/

namespace KernelDispatch

/-- An `f32` element, as its bit pattern. -/
abbrev Single := UInt32

namespace Single

def zero : Single := 0x00000000

def negativeZero : Single := 0x80000000

def negativeInfinity : Single := 0xff800000

/-- All exponent bits are set and the fraction is not zero. -/
def isNaN (x : Single) : Bool := decide (0x7f800000 < x &&& 0x7fffffff)

end Single

/-- The operations on elements that kernels are written with. -/
structure Arithmetic where
  add : Single → Single → Single
  mul : Single → Single → Single
  div : Single → Single → Single
  max : Single → Single → Single
  /-- The element nearest to a count. -/
  ofCount : Nat → Single

/-- IEEE single precision. The larger of a number and a NaN is the number; of two zeros the second
    one is taken. -/
def Arithmetic.single : Arithmetic where
  add x y := (Float32.ofBits x + Float32.ofBits y).toBits
  mul x y := (Float32.ofBits x * Float32.ofBits y).toBits
  div x y := (Float32.ofBits x / Float32.ofBits y).toBits
  max x y := if Single.isNaN x || Float32.ofBits x ≤ Float32.ofBits y then y else x
  ofCount n := (Float32.ofNat n).toBits

end KernelDispatch
