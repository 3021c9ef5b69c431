import KernelDispatch.Single

/-
  Buffers of bytes. Elements are blocks of bytes at multiples of their width; an `f32` element is
  stored with its low byte first. Writing never changes the size of a buffer: what would fall
  outside is left out, and a byte outside reads as zero.
-/

namespace KernelDispatch

abbrev Bytes := Array UInt8

namespace Bytes

def zeros (n : Nat) : Bytes := Array.replicate n 0

/-- The first `n` bytes, with zeros behind them if there are fewer. -/
def resized (b : Bytes) (n : Nat) : Bytes := b.extract 0 n ++ zeros (n - b.size)

/-- The `width` bytes from position `at` on. -/
def block (b : Bytes) (start width : Nat) : List UInt8 :=
  (List.range width).map fun k => b.getD (start + k) 0

/-- Overwrites the bytes from position `start` on. -/
def overwrite (b : Bytes) (start : Nat) : List UInt8 → Bytes
  | [] => b
  | x :: xs => overwrite (b.setIfInBounds start x) (start + 1) xs

@[simp] theorem size_zeros (n : Nat) : (zeros n).size = n := by simp [zeros]

@[simp] theorem size_resized (b : Bytes) (n : Nat) : (b.resized n).size = n := by
  simp only [resized, Array.size_append, Array.size_extract, size_zeros]
  omega

theorem resized_empty (n : Nat) : resized #[] n = zeros n := by simp [resized]

@[simp] theorem size_overwrite (b : Bytes) (start : Nat) (xs : List UInt8) :
    (b.overwrite start xs).size = b.size := by
  induction xs generalizing b start with
  | nil => rfl
  | cons x xs ih => rw [overwrite, ih, Array.size_setIfInBounds]

end Bytes

namespace Single

/-- The bytes of an element, low byte first. -/
def toBytes (x : Single) : List UInt8 :=
  [UInt8.ofNat x.toNat, UInt8.ofNat (x.toNat / 256), UInt8.ofNat (x.toNat / 65536),
    UInt8.ofNat (x.toNat / 16777216)]

/-- The element with the given bytes, low byte first. -/
def ofBytes : List UInt8 → Single
  | [a, b, c, d] =>
    UInt32.ofNat (a.toNat + 256 * b.toNat + 65536 * c.toNat + 16777216 * d.toNat)
  | _ => zero

@[simp] theorem length_toBytes (x : Single) : x.toBytes.length = 4 := rfl

theorem ofBytes_toBytes (x : Single) : ofBytes x.toBytes = x := by
  apply UInt32.toNat_inj.1
  have h := x.toNat_lt
  simp only [toBytes, ofBytes, UInt32.toNat_ofNat', UInt8.toNat_ofNat']
  omega

end Single

namespace Bytes

/-- The `i`-th `f32` element of a buffer. -/
def single (b : Bytes) (i : Nat) : Single := Single.ofBytes (b.block (4 * i) 4)

/-- All whole `f32` elements of a buffer, in physical order. -/
def singles (b : Bytes) : Array Single := (Array.range (b.size / 4)).map b.single

def ofSingles (xs : Array Single) : Bytes := (xs.toList.flatMap Single.toBytes).toArray

theorem size_ofSingles (xs : Array Single) : (ofSingles xs).size = 4 * xs.size := by
  simp only [ofSingles, List.size_toArray]
  have : ∀ l : List Single, (l.flatMap Single.toBytes).length = 4 * l.length := by
    intro l
    induction l with
    | nil => rfl
    | cons x l ih => simp only [List.flatMap_cons, List.length_append, ih,
        Single.length_toBytes, List.length_cons]; omega
  rw [this, Array.length_toList]

end Bytes

end KernelDispatch
