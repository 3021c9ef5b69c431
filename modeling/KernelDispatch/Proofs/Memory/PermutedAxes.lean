import KernelDispatch.Proofs.Memory.Ranges
import Mathlib.Data.List.TakeWhile

/-
  Permuted axes. Planar buffers and those with the channels last have the same extents in different
  orders, and their sizes are formed from the left. Without an extent of zero the order does not
  matter. With one, everything behind it is multiplied by zero, and what counts are the extents in
  front of it, which are others in the other order (`Layout.elementCount?_eq_front`).
-/

namespace KernelDispatch

/-! ## Checked products -/

/-- The sizes in front of the first zero. -/
def beforeZero (sizes : List Nat) : List Nat := sizes.takeWhile (0 < ·)

theorem beforeZero_cons_of_pos {n : Nat} (h : 0 < n) (sizes : List Nat) :
    beforeZero (n :: sizes) = n :: beforeZero sizes :=
  List.takeWhile_cons_of_pos (decide_eq_true h)

theorem pos_of_mem_beforeZero {sizes : List Nat} {n : Nat} (h : n ∈ beforeZero sizes) : 0 < n :=
  of_decide_eq_true (List.mem_takeWhile_imp (p := fun n => decide (0 < n)) h)

theorem beforeZero_eq_self {sizes : List Nat} (h : ∀ n ∈ sizes, 0 < n) :
    beforeZero sizes = sizes :=
  List.takeWhile_eq_self_iff.2 fun n hn => decide_eq_true (h n hn)

/-- A checked product leaves the range exactly if the factors in front of the first zero do. -/
theorem productFrom?_eq {acc : Nat} (hacc : acc < sizeLimit) (sizes : List Nat) :
    productFrom? acc sizes =
      if acc * Index.volume (beforeZero sizes) < sizeLimit then some (acc * Index.volume sizes)
      else none := by
  induction sizes generalizing acc with
  | nil =>
    show some acc = if acc * 1 < sizeLimit then some (acc * 1) else none
    rw [Nat.mul_one, if_pos hacc]
  | cons m sizes ih =>
    rw [productFrom?, Index.volume_cons, ← Nat.mul_assoc]
    rcases Nat.eq_zero_or_pos m with rfl | hm
    · -- whatever follows a zero is multiplied by zero
      have hfront : beforeZero (0 :: sizes) = [] := rfl
      rw [hfront, Index.volume_nil, Nat.mul_one, if_pos hacc, Nat.mul_zero,
        times?_eq_some.2 ⟨Nat.mul_zero acc, by decide⟩, Option.bind_some, ih (by decide)]
      simp [sizeLimit]
    · rw [beforeZero_cons_of_pos hm, Index.volume_cons, ← Nat.mul_assoc]
      by_cases hstep : acc * m < sizeLimit
      · rw [times?_eq_some.2 ⟨rfl, hstep⟩, Option.bind_some, ih hstep]
      · have hfront : acc * m ≤ acc * m * Index.volume (beforeZero sizes) :=
          Nat.le_mul_of_pos_right _ (Index.volume_pos fun n hn => pos_of_mem_beforeZero hn)
        rw [if_neg (by omega), times?, if_neg hstep, Option.bind_none]

namespace Layout

/-- The number of elements is the product of the extents, unless those of the buffer leave the range
    in front of the first zero. -/
theorem elementCount?_eq_front {l : Layout} (hl : l.isPermutation = true) (sizes : List Nat) :
    l.elementCount? sizes =
      if Index.volume (beforeZero (l.physicalSizes sizes)) < sizeLimit then
        some (Index.volume sizes)
      else none := by
  unfold elementCount? product?
  rw [productFrom?_eq (by decide), Nat.one_mul, Nat.one_mul,
    volume_physicalSizes_of_isPermutation hl]

theorem elementCount?_of_pos {l : Layout} (hl : l.isPermutation = true) {sizes : List Nat}
    (h : ∀ n ∈ sizes, 0 < n) : l.elementCount? sizes =
      if Index.volume sizes < sizeLimit then some (Index.volume sizes) else none := by
  rw [elementCount?_eq_front hl, beforeZero_eq_self (pos_of_physicalSizes_of_isPermutation hl h),
    volume_physicalSizes_of_isPermutation hl]

theorem elementCount?_of_zero {l : Layout} (hl : l.isPermutation = true) {sizes : List Nat}
    (h : 0 ∈ sizes) : l.elementCount? sizes =
      if Index.volume (beforeZero (l.physicalSizes sizes)) < sizeLimit then some 0 else none := by
  have hvolume : Index.volume sizes = 0 := (Index.volume_eq_zero_iff sizes).2 (by simpa using h)
  rw [elementCount?_eq_front hl, hvolume]

end Layout

/-! ## Dense tensors -/

/-- A tensor of given sizes in a layout. -/
def Descriptor.ofSizes (type : ElementType) (sizes : List Nat) (l : Layout) : Descriptor :=
  ⟨type, .ofSizes sizes, l⟩

namespace Descriptor

variable {type : ElementType} {sizes : List Nat} {l : Layout}

theorem byteSize?_ofSizes (hfit : l.fitsRank sizes.length = true) :
    (ofSizes type sizes l).byteSize? = (l.elementCount? sizes).bind (times? · type.width) := by
  have hformed : (ofSizes type sizes l).isWellFormed = true := by
    simpa [ofSizes, isWellFormed, rank] using hfit
  simp only [byteSize?, elementCount?, hformed, if_true]
  simp [ofSizes]

theorem allocatable_ofSizes_iff (hfit : l.fitsRank sizes.length = true) :
    (ofSizes type sizes l).Allocatable ↔
      ∃ n, (l.elementCount? sizes).bind (times? · type.width) = some n := by
  have hformed : (ofSizes type sizes l).isWellFormed = true := by
    simpa [ofSizes, isWellFormed, rank] using hfit
  have hstatic : (ofSizes type sizes l).isStatic = true := Shape.isStatic_ofSizes sizes
  simp only [Allocatable, requiredBytes_eq_ok_iff, hformed, hstatic, byteSize?_ofSizes hfit,
    true_and]

/-- A layout without padding that takes the rank of a tensor with an extent of zero gives it an
    empty buffer, or none. -/
theorem allocatable_ofSizes_iff_of_zero (hl : l.isPermutation = true)
    (hfit : l.fitsRank sizes.length = true) (h : 0 ∈ sizes) :
    (ofSizes type sizes l).Allocatable ↔
      Index.volume (beforeZero (l.physicalSizes sizes)) < sizeLimit := by
  have hempty : times? 0 type.width = some 0 :=
    times?_eq_some.2 ⟨Nat.zero_mul _, by decide⟩
  rw [allocatable_ofSizes_iff hfit, Layout.elementCount?_of_zero hl h]
  split
  · rename_i hfront
    exact iff_of_true ⟨0, hempty⟩ hfront
  · rename_i hfront
    refine iff_of_false ?_ hfront
    rintro ⟨n, hn⟩
    cases hn

/-- Let a tensor have at least three axes. If none is empty, it has the same number of elements and
    of bytes with the channels last as it has in planar order, or no number in both, and it exists
    in one of the layouts if it does in the other. If an axis is empty, its buffer is empty, and it
    exists in a layout, with zero elements, exactly if the product of the extents that the buffer
    has in front of the first empty axis is in range. -/
theorem permuted_axes_share_counts (type : ElementType) (sizes : List Nat)
    (hrank : 3 ≤ sizes.length) :
    (0 ∉ sizes →
      Layout.channelsLast.elementCount? sizes = Layout.planar.elementCount? sizes ∧
      (ofSizes type sizes .channelsLast).byteSize? = (ofSizes type sizes .planar).byteSize? ∧
      ((ofSizes type sizes .channelsLast).Allocatable ↔
        (ofSizes type sizes .planar).Allocatable)) ∧
    (0 ∈ sizes → ∀ l ∈ [Layout.planar, .channelsLast],
      l.elementCount? sizes = (if Index.volume (beforeZero (l.physicalSizes sizes)) < sizeLimit
        then some 0 else none) ∧
      ((ofSizes type sizes l).Allocatable ↔
        Index.volume (beforeZero (l.physicalSizes sizes)) < sizeLimit)) := by
  have hplanar : Layout.planar.fitsRank sizes.length = true := rfl
  have hlast : Layout.channelsLast.fitsRank sizes.length = true := decide_eq_true hrank
  constructor
  · intro hpos
    have hpositive : ∀ n ∈ sizes, 0 < n := by
      intro n hn
      apply Nat.pos_of_ne_zero
      rintro rfl
      exact hpos hn
    have hcount : Layout.channelsLast.elementCount? sizes = Layout.planar.elementCount? sizes := by
      rw [Layout.elementCount?_of_pos rfl hpositive, Layout.elementCount?_of_pos rfl hpositive]
    rw [byteSize?_ofSizes hlast, byteSize?_ofSizes hplanar, allocatable_ofSizes_iff hlast,
      allocatable_ofSizes_iff hplanar, hcount]
    exact ⟨rfl, rfl, Iff.rfl⟩
  · intro hzero l hl
    have hdense : l.isPermutation = true ∧ l.fitsRank sizes.length = true := by
      simp only [List.mem_cons, List.not_mem_nil, or_false] at hl
      rcases hl with rfl | rfl
      · exact ⟨rfl, hplanar⟩
      · exact ⟨rfl, hlast⟩
    exact ⟨Layout.elementCount?_of_zero hdense.1 hzero,
      allocatable_ofSizes_iff_of_zero hdense.1 hdense.2 hzero⟩

/-- A batch of images whose elements have a number but not their bytes, in either order, and an
    empty one that exists with the channels last. -/
theorem large_images_share_counts :
    (Layout.channelsLast.elementCount? [2147483648, 3, 1073741824] =
        Layout.planar.elementCount? [2147483648, 3, 1073741824] ∧
      ¬ (ofSizes .f32 [2147483648, 3, 1073741824] .channelsLast).Allocatable) ∧
    (ofSizes .f32 [1099511627776, 0, 8388608] .channelsLast).Allocatable := by
  obtain ⟨hcount, -, hexists⟩ :=
    (permuted_axes_share_counts .f32 [2147483648, 3, 1073741824] (by decide)).1 (by decide)
  refine ⟨⟨hcount, hexists.not.2 ?_⟩, ?_⟩
  · rintro ⟨n, hn⟩
    cases hn
  · exact ((permuted_axes_share_counts .f32 [1099511627776, 0, 8388608] (by decide)).2 (by decide)
      .channelsLast (by decide)).2.2 (by decide)

/-- The channels are multiplied last when they are last, and then their being empty comes too
    late. -/
theorem empty_channels_differ :
    ∃ sizes : List Nat, 3 ≤ sizes.length ∧ (∀ n ∈ sizes, n < sizeLimit) ∧
      Layout.planar.elementCount? sizes = some 0 ∧ Layout.channelsLast.elementCount? sizes = none ∧
      (ofSizes .f32 sizes .planar).Allocatable ∧ ¬ (ofSizes .f32 sizes .channelsLast).Allocatable :=
  ⟨[1099511627776, 0, 1099511627776], by decide, by decide, by decide, by decide, ⟨0, rfl⟩,
    fun ⟨_, h⟩ => nomatch h⟩

end Descriptor

end KernelDispatch
