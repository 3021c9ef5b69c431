import KernelDispatch.Single.Decimal
import Mathlib

/-
  Products with zero. The product of zero and a finite number is a zero with the sign of the number,
  so it has no bit set exactly if the number has no sign; with an infinity or a NaN it is a NaN
  (`Single.mul_zero_eq_zero_iff`). A number is unpacked twice on the way to a product, and packed in
  between, which keeps its bits unless it is a NaN.
-/

namespace KernelDispatch

namespace Single

open Float.Model (Format UnpackedFloat)
open Float.Model.UnpackedFloat

/-- The bits of an element. -/
def word (x : Single) : BitVec Format.binary32.numBits := x.toBitVec

theorem exponentBits_eq (x : Single) :
    (unpackExponent x.word).toNat = x.exponentBits := by
  show (x.toNat >>> 23) % 2 ^ 8 = x.toNat / Nat.pow 2 23 % Nat.pow 2 8
  rw [Nat.shiftRight_eq_div_pow]

theorem isFinite_iff (x : Single) :
    x.isFinite = true ↔ unpackExponent x.word ≠ -1#8 := by
  unfold isFinite
  rw [← exponentBits_eq, bne_iff_ne, ne_eq, ne_eq, ← BitVec.toNat_inj]
  rfl

theorem isNegative_eq_false_iff (x : Single) : x.isNegative = false ↔
    Sign.ofBitVec (unpackSign x.word) = .positive := by
  have hsign : (unpackSign x.word).toNat = x.toNat / 2 ^ 31 := by
    have hlt := x.toNat_lt
    show (x.toNat >>> 31) % 2 = _
    rw [Nat.shiftRight_eq_div_pow]
    omega
  have hpositive : unpackSign x.word = 0#1 ↔ x.toNat < Nat.pow 2 31 := by
    rw [← BitVec.toNat_inj, hsign]
    show _ = 0 ↔ x.toNat < 2 ^ 31
    omega
  unfold isNegative Sign.ofBitVec
  rw [decide_eq_false_iff_not, Nat.not_le, ← hpositive]
  split
  · rename_i h
    exact iff_of_true h rfl
  · rename_i h
    exact iff_of_false h (by rintro ⟨⟩)

/-- The product of zero and a number with the given bits, before it is packed. -/
theorem mul_zero_unpack (b : BitVec Format.binary32.numBits) :
    UnpackedFloat.mul Format.binary32 (.zero .positive) (UnpackedFloat.unpack Format.binary32 b) =
      if unpackExponent b = -1#8 then .notANumber
      else .zero (Sign.ofBitVec (unpackSign b)) := by
  have hmul : ∀ sign : Sign, Sign.positive * sign = sign := by
    rintro (_ | _) <;> rfl
  unfold UnpackedFloat.unpack
  dsimp only
  split
  · split <;> rfl
  · split
    · split <;> exact congrArg UnpackedFloat.zero (hmul _)
    · exact congrArg UnpackedFloat.zero (hmul _)

/-- Zero times a number is zero, with no bit set, exactly if the number is finite and has no
    sign. -/
theorem mul_zero_eq_zero_iff (x : Single) :
    Arithmetic.single.mul .zero x = .zero ↔ x.isFinite = true ∧ x.isNegative = false := by
  have hproduct : Arithmetic.single.mul .zero x = UInt32.ofBitVec (pack Format.binary32
      (UnpackedFloat.mul Format.binary32 (.zero .positive) (UnpackedFloat.unpack Format.binary32
        (pack Format.binary32 (UnpackedFloat.unpack Format.binary32 x.word))))) := rfl
  rw [hproduct, pack_unpack, isFinite_iff, isNegative_eq_false_iff]
  cases hnan : isNaNBits x.word with
  | true =>
    have hexp : unpackExponent x.word = -1#8 := (of_decide_eq_true hnan).1
    rw [if_pos rfl, unpack_packedNaN]
    exact iff_of_false (by decide) fun h => h.1 hexp
  | false =>
    rw [if_neg Bool.false_ne_true, mul_zero_unpack]
    split
    · rename_i hexp
      exact iff_of_false (by decide) fun h => h.1 hexp
    · rename_i hexp
      cases Sign.ofBitVec (unpackSign x.word) with
      | positive => exact iff_of_true rfl ⟨hexp, rfl⟩
      | negative => exact iff_of_false (by decide) (by rintro ⟨-, ⟨⟩⟩)

end Single

end KernelDispatch
