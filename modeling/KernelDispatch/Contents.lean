import KernelDispatch.Bytes
import KernelDispatch.Descriptor

/-
  Buffers read through descriptors: the logical elements of a buffer, writing them, and moving
  them into a buffer of another layout. All three walk the logical indices in row-major order and
  let the layout say where each one sits.
-/

namespace KernelDispatch

namespace Bytes

/-- The `f32` elements at the given indices. -/
def elementsAt (b : Bytes) (layout : Layout) (sizes : List Nat) (indices : List Index) :
    List Single :=
  indices.map fun index => b.single (layout.offset sizes index)

/-- Stores `f32` elements at the given indices, one each, until one of the lists ends. -/
def putElementsAt (b : Bytes) (layout : Layout) (sizes : List Nat) :
    List Index → List Single → Bytes
  | index :: indices, x :: xs =>
    putElementsAt (b.overwrite (4 * layout.offset sizes index) x.toBytes) layout sizes indices xs
  | _, _ => b

/-- The logical `f32` elements in row-major order. -/
def elements (b : Bytes) (layout : Layout) (sizes : List Nat) : List Single :=
  b.elementsAt layout sizes (Index.visited sizes)

/-- A buffer of the size of `b` with the given logical `f32` elements and zero padding. -/
def withElements (b : Bytes) (layout : Layout) (sizes : List Nat) (xs : List Single) : Bytes :=
  (zeros b.size).putElementsAt layout sizes (Index.visited sizes) xs

/-- Copies the elements at the given indices from a buffer in one layout to one in another. -/
def copyElementsAt (width : Nat) (sizes : List Nat) (source : Bytes) (sourceLayout : Layout)
    (targetLayout : Layout) : List Index → Bytes → Bytes
  | [], target => target
  | index :: indices, target =>
    copyElementsAt width sizes source sourceLayout targetLayout indices
      (target.overwrite (targetLayout.offset sizes index * width)
        (source.block (sourceLayout.offset sizes index * width) width))

/-- The target buffer after the logical tensor of the source buffer has been moved into it. Equal
    layouts are copied byte by byte; else padding of the target becomes zero. -/
def rearranged (width : Nat) (sizes : List Nat) (source : Bytes) (sourceLayout : Layout)
    (target : Bytes) (targetLayout : Layout) : Bytes :=
  if sourceLayout = targetLayout then
    target.overwrite 0 source.toList
  else
    copyElementsAt width sizes source sourceLayout targetLayout (Index.visited sizes)
      (if targetLayout.isDense sizes then target else zeros target.size)

@[simp] theorem size_putElementsAt (b : Bytes) (layout : Layout) (sizes : List Nat)
    (indices : List Index) (xs : List Single) :
    (b.putElementsAt layout sizes indices xs).size = b.size := by
  induction indices generalizing b xs with
  | nil => rfl
  | cons index indices ih => cases xs with
    | nil => rfl
    | cons x xs => rw [putElementsAt, ih, size_overwrite]

@[simp] theorem size_withElements (b : Bytes) (layout : Layout) (sizes : List Nat)
    (xs : List Single) : (b.withElements layout sizes xs).size = b.size := by
  rw [withElements, size_putElementsAt, size_zeros]

@[simp] theorem size_copyElementsAt (width : Nat) (sizes : List Nat) (source : Bytes)
    (l l' : Layout) (indices : List Index) (target : Bytes) :
    (copyElementsAt width sizes source l l' indices target).size = target.size := by
  induction indices generalizing target with
  | nil => rfl
  | cons index indices ih => rw [copyElementsAt, ih, size_overwrite]

@[simp] theorem size_rearranged (width : Nat) (sizes : List Nat) (source : Bytes) (l : Layout)
    (target : Bytes) (l' : Layout) :
    (rearranged width sizes source l target l').size = target.size := by
  unfold rearranged
  split
  · rw [size_overwrite]
  · rw [size_copyElementsAt]; split <;> simp

end Bytes

end KernelDispatch
