import KernelDispatch.Proofs.Memory.Padding
import KernelDispatch.Proofs.Operation.Promises
import KernelDispatch.Proofs.Operation.Results
import KernelDispatch.Proofs.Single.ZeroProducts

/-
  Padding under elementwise operations. The kernels go through whole buffers, so what they leave in
  padding is what the operation makes of the zeros that the sources have there
  (`Elementwise.zeroPadded_of_run_iff`). That is zero again for all operations but a scaling by a
  factor that is not finite or has a sign (`Elementwise.apply_zero_iff`), and with such a factor it
  matters whether there is any padding (`Elementwise.padding_stays_zero_iff`).
-/

namespace KernelDispatch

namespace Elementwise

/-! ## What a run leaves -/

section

variable {arith : Arithmetic} {op : Elementwise} {b : Bindings} {s s' : Store} {t x y : Memory}

/-- If the padding of the sources is zero, a run leaves in that of the destination what the
    operation makes of zeros. -/
theorem zeroPadded_of_run_iff (hs : s.Has b) (hrun : op.run arith b s = .ok s')
    (ht : b.BindsSingle (.destination 0) t) (hx : b.BindsSingle (.source 0) x)
    (hy : b.BindsSingle op.second y) (hxt : x.desc = t.desc) (hyt : y.desc = t.desc)
    (hxzero : s.ZeroPadded x) (hyzero : s.ZeroPadded y) :
    s'.ZeroPadded t ↔
      ((∃ p, t.desc.layout.IsPadding t.desc.sizes p) → op.apply arith .zero .zero = .zero) := by
  have htfits := (hs _ t ht.1).2
  have hxfits := (hs _ x hx.1).2
  have hyfits := (hs _ y hy.1).2
  obtain ⟨sizes, hshape, -⟩ := Descriptor.Allocatable.sizes ⟨_, htfits⟩
  rw [hxfits.zeroPadded_iff hx.2 (hxt ▸ hshape), hxt] at hxzero
  rw [hyfits.zeroPadded_iff hy.2 (hyt ▸ hshape), hyt] at hyzero
  rw [((op.writesDestination arith).fits hrun htfits).zeroPadded_iff ht.2 hshape,
    Descriptor.sizes_of_shape hshape]
  have hpadding : ∀ p, t.desc.layout.IsPadding sizes p →
      (s'.contents t).single p = op.apply arith .zero .zero := by
    intro p hp
    have hlt : ∀ m : Memory, s.Fits m → m.desc = t.desc → p < (s.contents m).singles.size := by
      intro m hm hdesc
      rw [Bytes.size_singles, hm.size_eq_size htfits hdesc, htfits.size_eq ht.2 hshape,
        Nat.mul_div_cancel_left _ (by decide)]
      exact hp.1
    rw [op.single_of_run arith hrun ht hx hy (hlt t htfits rfl),
      Bytes.getD_singles (hlt x hxfits hxt), Bytes.getD_singles (hlt y hyfits hyt), hxzero p hp,
      hyzero p hp]
  constructor
  · rintro h ⟨p, hp⟩
    rw [← hpadding p hp]
    exact h p hp
  · intro h p hp
    rw [hpadding p hp]
    exact h ⟨p, hp⟩

end

/-! ## Zeros -/

/-- Zeros are kept by all operations but scalings by a factor that is not finite or has a sign. -/
theorem apply_zero_iff (op : Elementwise) : op.apply .single .zero .zero = .zero ↔
    ∀ factor, op = .scale factor → factor.isFinite = true ∧ factor.isNegative = false := by
  cases op with
  | relu => exact iff_of_true (by decide +kernel) (by rintro _ ⟨⟩)
  | add => exact iff_of_true (by decide +kernel) (by rintro _ ⟨⟩)
  | mul => exact iff_of_true (by decide +kernel) (by rintro _ ⟨⟩)
  | scale factor =>
    have hscale : (scale factor).apply .single .zero .zero = Arithmetic.single.mul .zero factor :=
      rfl
    rw [hscale, Single.mul_zero_eq_zero_iff]
    constructor
    · rintro h _ ⟨⟩
      exact h
    · exact fun h => h factor rfl

variable {σ : Type}

theorem runner_of_build {arith : Arithmetic} {op : Elementwise} {k : Kernel Elementwise σ}
    (hk : k ∈ kernels arith) {b : Bindings} {s s' : Session σ} {r : Runner σ}
    (h : k.build op b s = (.ok r, s')) : r = op.runner arith := by
  simp only [kernels, List.mem_cons, List.not_mem_nil, or_false] at hk
  rcases hk with rfl | rfl
  · cases h
    rfl
  · cases h
    rfl

/-- Let the operands of an elementwise operation have one descriptor, and the sources zeros for
    padding. After a call of either kernel that succeeds, the padding of the destination is zero
    exactly if there is none, since the layout is dense or the tensor is empty, or the operation is
    no scaling, or its factor is finite and has no sign. -/
theorem padding_stays_zero_iff {op : Elementwise} {k : Kernel Elementwise σ}
    (hk : k ∈ kernels .single) {b₀ b : Bindings} {s₀ s₁ s s' : Session σ} {r : Runner σ}
    (hbuild : k.build op b₀ s₀ = (.ok r, s₁)) (hs : s.store.Has b) {t x y : Memory}
    (ht : b.BindsSingle (.destination 0) t) (hx : b.BindsSingle (.source 0) x)
    (hy : b.BindsSingle op.second y) (hxt : x.desc = t.desc) (hyt : y.desc = t.desc)
    (hxzero : s.store.ZeroPadded x) (hyzero : s.store.ZeroPadded y)
    (hexecute : r.execute b s = (.ok (), s')) :
    s'.store.ZeroPadded t ↔
      t.desc.layout.isDense t.desc.sizes = true ∨ 0 ∈ t.desc.sizes ∨
        ∀ factor, op = .scale factor → factor.isFinite = true ∧ factor.isNegative = false := by
  obtain rfl := runner_of_build hk hbuild
  have hrun := Runner.onStore_execute_eq_ok hexecute
  obtain ⟨sizes, hshape, hfit⟩ := Descriptor.Allocatable.sizes ⟨_, (hs _ t ht.1).2⟩
  rw [zeroPadded_of_run_iff hs hrun ht hx hy hxt hyt hxzero hyzero, apply_zero_iff,
    Descriptor.sizes_of_shape hshape, Layout.exists_isPadding_iff hfit, ← Bool.not_eq_true]
  tauto

/-! ## One channel in a block -/

open StandardOperation (pair get?_pair)

/-- One element, and seven places of padding. -/
def oneLane : Descriptor := ⟨.f32, .ofSizes [1, 1], .blocked 8⟩

/-- A one with zeros behind it, and a buffer for the result. -/
def oneAndZeros : Session Unit where
  store := ⟨#[.ofSingles #[0x3f800000, 0, 0, 0, 0, 0, 0, 0], Bytes.zeros 32]⟩
  ambient := ()

theorem isPadding_oneLane_iff (p : Nat) :
    oneLane.layout.IsPadding [1, 1] p ↔ 0 < p ∧ p < 8 := by
  have honly : ∀ index, Index.InBounds [1, 1] index → oneLane.layout.offset [1, 1] index = 0 := by
    rintro (_ | ⟨i, _ | ⟨j, _ | ⟨_, _⟩⟩⟩) hin
    · exact hin.elim
    · exact hin.2.elim
    · obtain ⟨hi, hj, -⟩ := hin
      obtain rfl : i = 0 := by omega
      obtain rfl : j = 0 := by omega
      rfl
    · exact hin.2.2.elim
  constructor
  · rintro ⟨hp, hgap⟩
    have hne := hgap [0, 0] ⟨by decide, by decide, trivial⟩
    rw [honly [0, 0] ⟨by decide, by decide, trivial⟩] at hne
    exact ⟨Nat.pos_of_ne_zero (Ne.symm hne), hp⟩
  · rintro ⟨hpos, hp⟩
    refine ⟨hp, fun index hin => ?_⟩
    rw [honly index hin]
    omega

theorem has_oneAndZeros : oneAndZeros.store.Has (pair oneLane oneLane 0 1) := by
  intro p m hm
  rcases get?_pair hm with ⟨-, rfl⟩ | ⟨-, rfl⟩
  · exact ⟨by decide, rfl⟩
  · exact ⟨by decide, rfl⟩

theorem zeroPadded_oneAndZeros {p : Operand} {m : Memory}
    (hm : (pair oneLane oneLane 0 1).get? p = some m) : oneAndZeros.store.ZeroPadded m := by
  have hzeros : ∀ c < 2, ∀ j < 8, 0 < j →
      (oneAndZeros.store.contents ⟨oneLane, c⟩).single j = .zero := by
    decide +kernel
  have hfits := (has_oneAndZeros p m hm).2
  obtain ⟨c, hc, rfl⟩ : ∃ c < 2, m = ⟨oneLane, c⟩ := by
    rcases get?_pair hm with ⟨-, rfl⟩ | ⟨-, rfl⟩
    · exact ⟨0, by decide, rfl⟩
    · exact ⟨1, by decide, rfl⟩
  rw [hfits.zeroPadded_iff rfl rfl]
  intro j hj
  obtain ⟨hpos, hlt⟩ := (isPadding_oneLane_iff j).1 hj
  exact hzeros c hc j hlt hpos

/-- Any scaling of the one succeeds. -/
theorem exists_execute_oneAndZeros (factor : Single) :
    ∃ s', ((scale factor).runner .single).execute (pair oneLane oneLane 0 1) oneAndZeros =
      (.ok (), s') := by
  obtain ⟨s', hs'⟩ := (scale factor).exists_run_of_sizes .single
    (b := pair oneLane oneLane 0 1) (s := oneAndZeros.store) (t := ⟨oneLane, 1⟩)
    (m := ⟨oneLane, 0⟩) ⟨rfl, rfl⟩ ⟨rfl, rfl⟩ ⟨rfl, rfl⟩ rfl rfl
  exact ⟨_, Runner.onStore_execute_of_run hs'⟩

/-- Scaled by 2, the one has zeros behind it. -/
theorem doubled_one_keeps_zeros :
    ∃ s', ((scale 0x40000000).runner .single).execute (pair oneLane oneLane 0 1) oneAndZeros =
        (.ok (), s') ∧ s'.store.ZeroPadded ⟨oneLane, 1⟩ := by
  have hsource : oneAndZeros.store.ZeroPadded ⟨oneLane, 0⟩ :=
    zeroPadded_oneAndZeros (p := .source 0) rfl
  have hbuild : (sharedKernel .single).build (scale 0x40000000) (pair oneLane oneLane 0 1)
      oneAndZeros = (.ok ((scale 0x40000000).runner .single), oneAndZeros) := rfl
  obtain ⟨s', hexecute⟩ := exists_execute_oneAndZeros 0x40000000
  refine ⟨s', hexecute, ?_⟩
  refine (padding_stays_zero_iff (by simp [kernels]) hbuild has_oneAndZeros (t := ⟨oneLane, 1⟩)
    (x := ⟨oneLane, 0⟩) (y := ⟨oneLane, 0⟩) ⟨rfl, rfl⟩ ⟨rfl, rfl⟩ ⟨rfl, rfl⟩ rfl rfl hsource
    hsource hexecute).2 (.inr (.inr ?_))
  rintro _ ⟨⟩
  exact ⟨by decide, by decide⟩

/-- Scaled by -1, it has negative zeros behind it. -/
theorem negated_one_loses_zeros :
    ∃ k ∈ kernels (σ := Unit) .single, ∃ memory,
      k.supports (scale 0xbf800000) memory.descriptors ∅ oneAndZeros = (true, oneAndZeros) ∧
      ∃ r, k.build (scale 0xbf800000) memory oneAndZeros = (.ok r, oneAndZeros) ∧
        r.update memory oneAndZeros = (.ok true, oneAndZeros) ∧
        oneAndZeros.store.Has memory ∧
        (∀ p m, memory.get? p = some m → oneAndZeros.store.ZeroPadded m) ∧
        ∃ s' t, r.execute memory oneAndZeros = (.ok (), s') ∧
          memory.get? (.destination 0) = some t ∧ ¬ s'.store.ZeroPadded t := by
  obtain ⟨s', hexecute⟩ := exists_execute_oneAndZeros 0xbf800000
  refine ⟨sharedKernel .single, by simp [kernels], pair oneLane oneLane 0 1, rfl,
    (scale 0xbf800000).runner .single, rfl, rfl, has_oneAndZeros,
    fun p m hm => zeroPadded_oneAndZeros hm, s', ⟨oneLane, 1⟩, hexecute, rfl, fun hzero => ?_⟩
  have hrun := Runner.onStore_execute_eq_ok hexecute
  have hfits := ((scale 0xbf800000).writesDestination .single).fits hrun
    (has_oneAndZeros (.destination 0) ⟨oneLane, 1⟩ rfl).2
  have hlane := (hfits.zeroPadded_iff rfl rfl).1 hzero 1 ((isPadding_oneLane_iff 1).2 (by decide))
  rw [(scale 0xbf800000).single_of_run .single (t := ⟨oneLane, 1⟩) (m := ⟨oneLane, 0⟩) hrun
    ⟨rfl, rfl⟩ ⟨rfl, rfl⟩ ⟨rfl, rfl⟩ (by decide +kernel)] at hlane
  exact absurd hlane (by decide +kernel)

end Elementwise

end KernelDispatch
