import KernelDispatch.Proofs.Operation.Runs

/-
  Tensors that are bound to operands. A tensor is what a memory of `f32` elements means, whatever
  its layout, and what a caller reads off it (`Bindings.HasTensor.read`). What a call reads and
  leaves is told in terms of tensors (`Instance.RunsAs.hasTensor_input`,
  `Instance.RunsAs.hasTensor_destination`). The elements that a run writes in physical order are
  found where the layout has them (`Store.element_put_ofSingles`).
-/

namespace KernelDispatch

/-- In a list of pieces of one length, an element is found by its piece and its place there. -/
theorem getElem?_flatMap_of_length {α β : Type} {f : α → List β} {n : Nat} {l : List α}
    (h : ∀ x ∈ l, (f x).length = n) (r : Nat) {i : Nat} (hi : i < n) :
    (l.flatMap f)[r * n + i]? = l[r]?.bind fun x => (f x)[i]? := by
  induction l generalizing r with
  | nil => rfl
  | cons x l ih =>
    obtain ⟨hx, hl⟩ := List.forall_mem_cons.1 h
    rw [List.flatMap_cons]
    cases r with
    | zero =>
      rw [Nat.zero_mul, Nat.zero_add, List.getElem?_append_left (hx.symm ▸ hi)]
      rfl
    | succ r =>
      have hle : (f x).length ≤ (r + 1) * n + i := by
        rw [hx, Nat.succ_mul]
        omega
      rw [List.getElem?_append_right hle, hx,
        show (r + 1) * n + i - n = r * n + i by rw [Nat.succ_mul]; omega, ih hl r]
      rfl

namespace Bytes

theorem single_ofSingles {xs : Array Single} {j : Nat} (hj : j < xs.size) :
    (ofSingles xs).single j = xs.getD j .zero := by
  have hbyte : ∀ r < 4, (ofSingles xs).getD (4 * j + r) 0 = (xs[j].toBytes).getD r 0 := by
    intro r hr
    have hget := getElem?_flatMap_of_length (f := Single.toBytes) (n := 4) (l := xs.toList)
      (fun x _ => Single.length_toBytes x) j hr
    rw [Nat.mul_comm] at hget
    rw [ofSingles, Array.getD_eq_getD_getElem?, List.getElem?_toArray, hget,
      List.getD_eq_getElem?_getD]
    simp [hj]
  have hblock : (ofSingles xs).block (4 * j) 4 = xs[j].toBytes := by
    have hlist : (ofSingles xs).block (4 * j) 4 =
        (List.range 4).map fun r => (xs[j].toBytes).getD r 0 :=
      List.map_congr_left fun r hr => hbyte r (List.mem_range.1 hr)
    rw [hlist]
    rfl
  rw [single, hblock, Single.ofBytes_toBytes]
  simp [Array.getD_eq_getD_getElem?, hj]

end Bytes

namespace Store

/-- Elements that are written in physical order are found where the layout has them. -/
theorem element_put_ofSingles {s : Store} {m : Memory} (hcell : m.cell < s.cells.size)
    {xs : Array Single} {sizes : List Nat} (hshape : m.desc.shape = .ofSizes sizes) {index : Index}
    (hlt : m.desc.layout.offset sizes index < xs.size) :
    (s.put m.cell (Bytes.ofSingles xs)).element m index =
      xs.getD (m.desc.layout.offset sizes index) .zero := by
  unfold element contents
  rw [bytes_put, if_pos ⟨rfl, hcell⟩, Descriptor.sizes_of_shape hshape, Bytes.single_ofSingles hlt]

end Store

/-! ## Tensors of operands -/

/-- A tensor of `f32` elements; only the elements inside its sizes matter. -/
structure Tensor where
  sizes : List Nat
  element : Index → Single

/-- The tensor is bound to the operand. -/
def Bindings.HasTensor (b : Bindings) (s : Store) (p : Operand) (t : Tensor) : Prop :=
  ∃ m, b.BindsSingle p m ∧ m.desc.shape = .ofSizes t.sizes ∧
    ∀ index, Index.InBounds t.sizes index → s.element m index = t.element index

/-- Reading the memory of an operand yields its tensor in row-major order. -/
theorem Bindings.HasTensor.read {b : Bindings} {s : Store} {p : Operand} {t : Tensor}
    (h : b.HasTensor s p t) :
    ∃ m, b.get? p = some m ∧ s.read m = .ok ((Index.visited t.sizes).map t.element) := by
  obtain ⟨m, ⟨hm, htype⟩, hshape, helement⟩ := h
  refine ⟨m, hm, (s.read_eq_ok_iff m _).2 ⟨htype, t.sizes, hshape, ?_⟩⟩
  exact List.map_congr_left fun index hin =>
    (helement index ((Index.mem_visited_iff _ _).1 hin)).symm

/-- The tensor that a memory of the given sizes means. -/
def Store.tensor (s : Store) (m : Memory) (sizes : List Nat) : Tensor := ⟨sizes, s.element m⟩

theorem Bindings.BindsSingle.hasTensor {b : Bindings} {p : Operand} {m : Memory}
    (h : b.BindsSingle p m) (s : Store) {sizes : List Nat}
    (hshape : m.desc.shape = .ofSizes sizes) : b.HasTensor s p (s.tensor m sizes) :=
  ⟨m, h, hshape, fun _ _ => rfl⟩

namespace Instance.RunsAs

variable {σ : Type} {built : Instance σ} {memory operands : Bindings} {w w₁ : World σ}
  {r : Runner σ}

/-- What a runner reads off an input is what the caller bound to it. -/
theorem hasTensor_input (h : built.RunsAs memory w r operands w₁) {p : Operand}
    (hp : p.isInput = true) {t : Tensor} (ht : operands.HasTensor w₁.store p t) :
    memory.HasTensor w.store p t := by
  obtain ⟨m', ⟨hm', htype'⟩, hshape', helement⟩ := ht
  have hstands := h.stands p
  rw [hm'] at hstands
  cases hm : memory.get? p with
  | none =>
    rw [hm] at hstands
    cases hstands
  | some m =>
    rw [hm] at hstands
    cases hstands with
    | some hstands =>
      have hshape : m.desc.shape = .ofSizes t.sizes := hstands.shape.symm.trans hshape'
      refine ⟨m, ⟨hm, hstands.elementType.symm.trans htype'⟩, hshape, fun index hin => ?_⟩
      rw [← helement index hin]
      refine ((hstands.elements hp).element htype' hstands.shape.symm ?_).symm
      rw [Descriptor.sizes_of_shape hshape']
      exact hin

/-- What a runner leaves in a destination comes back to the caller's, if no other destination has
    its memory. -/
theorem hasTensor_destination (h : built.RunsAs memory w r operands w₁) {s : Session σ}
    (hrun : r.execute operands w₁.toSession = (.ok (), s)) {p : Operand} (hp : p.isOutput = true)
    (hsole : ∀ m q n, memory.get? p = some m → q.isOutput = true → q ≠ p →
      memory.get? q = some n → n.cell ≠ m.cell) {t : Tensor}
    (ht : operands.HasTensor s.store p t) :
    memory.HasTensor (built.execute memory w).2.store p t := by
  obtain ⟨m', ⟨hm', htype'⟩, hshape', helement⟩ := ht
  have hstands := h.stands p
  rw [hm'] at hstands
  cases hm : memory.get? p with
  | none =>
    rw [hm] at hstands
    cases hstands
  | some m =>
    rw [hm] at hstands
    cases hstands with
    | some hstands =>
      have hshape : m.desc.shape = .ofSizes t.sizes := hstands.shape.symm.trans hshape'
      have htype : m.desc.elementType = .f32 := hstands.elementType.symm.trans htype'
      have hsame := h.returned s hrun p m m' hp hm hm' fun q n hq hne hn => hsole m q n hm hq hne hn
      refine ⟨m, ⟨hm, htype⟩, hshape, fun index hin => ?_⟩
      rw [← helement index hin]
      refine hsame.element htype hstands.shape ?_
      rw [Descriptor.sizes_of_shape hshape]
      exact hin

/-- An operand is bound for the runner exactly when it is for the caller. -/
theorem get?_eq_none_iff (h : built.RunsAs memory w r operands w₁) (p : Operand) :
    operands.get? p = none ↔ memory.get? p = none := by
  have hstands := h.stands p
  generalize memory.get? p = m at hstands ⊢
  generalize operands.get? p = m' at hstands ⊢
  cases hstands <;> simp

end Instance.RunsAs

end KernelDispatch
