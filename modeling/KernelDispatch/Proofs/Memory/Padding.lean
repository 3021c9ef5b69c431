import KernelDispatch.Proofs.Memory.Embedding
import KernelDispatch.Proofs.Memory.Singles

/-
  Places of padding. A buffer has some unless its layout is dense or the tensor is empty
  (`Layout.exists_isPadding_iff`). For memories of `f32` elements, padding is zero if the elements
  in its places are (`Store.Fits.zeroPadded_iff`).
-/

namespace KernelDispatch

/-! ## Places of padding -/

namespace Layout

/-- The place is in the buffer, and no logical index is there. -/
def IsPadding (l : Layout) (sizes : List Nat) (p : Nat) : Prop :=
  p < Index.volume (l.physicalSizes sizes) ∧
    ∀ index, Index.InBounds sizes index → l.offset sizes index ≠ p

variable {l : Layout} {sizes : List Nat}

theorem volume_physicalSizes_of_zero (hfit : l.fitsRank sizes.length = true)
    (hdense : l.isDense sizes = false) (hzero : 0 ∈ sizes) :
    Index.volume (l.physicalSizes sizes) = 0 := by
  obtain ⟨block, n, c, rest, rfl, rfl, hb, hc⟩ := exists_blocked_of_not_isDense hfit hdense
  have hchannels : c ≠ 0 := by
    rintro rfl
    exact hc (Nat.zero_mod block)
  have hvolume : n * (c * Index.volume rest) = 0 :=
    (Index.volume_eq_zero_iff (n :: c :: rest)).2 (List.any_eq_true.2 ⟨0, hzero, rfl⟩)
  show n * (blocksFor c block * Index.volume (rest ++ [block])) = 0
  rw [Index.volume_append_singleton]
  rcases Nat.mul_eq_zero.1 hvolume with hn | hrest
  · rw [hn, Nat.zero_mul]
  · rw [(Nat.mul_eq_zero.1 hrest).resolve_left hchannels, Nat.zero_mul, Nat.mul_zero, Nat.mul_zero]

/-- A buffer has padding unless its layout is dense or the tensor is empty. -/
theorem exists_isPadding_iff (hfit : l.fitsRank sizes.length = true) :
    (∃ p, l.IsPadding sizes p) ↔ l.isDense sizes = false ∧ 0 ∉ sizes := by
  constructor
  · rintro ⟨p, hp, hgap⟩
    have hdense : l.isDense sizes = false := by
      rw [← Bool.not_eq_true]
      intro hdense
      obtain ⟨index, hin, hoffset⟩ := exists_offset_eq hfit hdense hp
      exact hgap index hin hoffset
    refine ⟨hdense, fun hzero => ?_⟩
    rw [volume_physicalSizes_of_zero hfit hdense hzero] at hp
    omega
  · rintro ⟨hdense, hzero⟩
    exact exists_padding hfit hdense fun n hn => Nat.pos_of_ne_zero fun h => hzero (h ▸ hn)

end Layout

/-! ## Bytes and elements -/

theorem Single.ofBytes_eq_zero_iff (a b c d : UInt8) :
    ofBytes [a, b, c, d] = .zero ↔ a = 0 ∧ b = 0 ∧ c = 0 ∧ d = 0 := by
  have ha := a.toNat_lt
  have hb := b.toNat_lt
  have hc := c.toNat_lt
  have hd := d.toNat_lt
  have hzero : (zero : Single).toNat = 0 := rfl
  simp only [ofBytes, ← UInt32.toNat_inj, ← UInt8.toNat_inj, UInt32.toNat_ofNat', hzero,
    show (0 : UInt8).toNat = 0 from rfl]
  omega

namespace Bytes

theorem single_eq_zero_iff (b : Bytes) (p : Nat) :
    b.single p = .zero ↔ ∀ r < 4, b.getD (4 * p + r) 0 = 0 := by
  have hsingle : b.single p = Single.ofBytes [b.getD (4 * p + 0) 0, b.getD (4 * p + 1) 0,
      b.getD (4 * p + 2) 0, b.getD (4 * p + 3) 0] := rfl
  rw [hsingle, Single.ofBytes_eq_zero_iff]
  constructor
  · rintro ⟨h0, h1, h2, h3⟩ r hr
    have hcases : r = 0 ∨ r = 1 ∨ r = 2 ∨ r = 3 := by omega
    rcases hcases with rfl | rfl | rfl | rfl
    · exact h0
    · exact h1
    · exact h2
    · exact h3
  · intro h
    exact ⟨h 0 (by decide), h 1 (by decide), h 2 (by decide), h 3 (by decide)⟩

/-- Padding of `f32` elements is zero if the elements in its places are. -/
theorem zeroPadded_iff_single {b : Bytes} {l : Layout} {sizes : List Nat}
    (hsize : b.size = 4 * Index.volume (l.physicalSizes sizes)) :
    ZeroPadded 4 sizes b l ↔ ∀ p, l.IsPadding sizes p → b.single p = .zero := by
  constructor
  · intro h p hp
    rw [single_eq_zero_iff]
    intro r hr
    refine h (4 * p + r) (by have := hp.1; omega) fun index hin hcovers => hp.2 index hin ?_
    unfold Covers at hcovers
    omega
  · intro h j hj hgap
    have hp : l.IsPadding sizes (j / 4) := by
      refine ⟨by omega, fun index hin hoffset => hgap index hin ?_⟩
      unfold Covers
      omega
    have hbyte := (b.single_eq_zero_iff (j / 4)).1 (h _ hp) (j % 4) (by omega)
    rwa [Nat.div_add_mod] at hbyte

end Bytes

/-- The padding of a memory of `f32` elements. -/
theorem Store.Fits.zeroPadded_iff {s : Store} {m : Memory} (h : s.Fits m)
    (htype : m.desc.elementType = .f32) {sizes : List Nat}
    (hshape : m.desc.shape = .ofSizes sizes) :
    s.ZeroPadded m ↔
      ∀ p, m.desc.layout.IsPadding sizes p → (s.contents m).single p = .zero := by
  unfold ZeroPadded
  rw [htype, Descriptor.sizes_of_shape hshape]
  exact Bytes.zeroPadded_iff_single (h.size_eq htype hshape)

end KernelDispatch
