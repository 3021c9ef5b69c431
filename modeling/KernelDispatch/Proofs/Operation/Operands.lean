import KernelDispatch.Proofs.Adapter.Reports
import KernelDispatch.Proofs.Operation.Matching
import Mathlib.Data.List.Basic

/-
  What kernels read off their operands, by descriptors. Each look-up of an operand, of its sizes or
  of its elements succeeds exactly when there is an `f32` operand as it has to be, and callers are
  told of it when there is none.
-/

namespace KernelDispatch

/-- A step and what follows it succeed when both do. -/
theorem bind_eq_ok_iff {ε α β : Type} (x : Except ε α) (f : α → Except ε β) (b : β) :
    (x >>= f) = .ok b ↔ ∃ a, x = .ok a ∧ f a = .ok b := by
  cases x with
  | error e => simp [bind, Except.bind]
  | ok a => simp [bind, Except.bind]

/-- The program ends in what follows a step of which callers are told. -/
theorem Reports.bind_eq_emptyBands_iff {α β : Type} {x : Except Misfit α}
    {f : α → Except Misfit β} (h : Reports Misfit.isReported x) :
    (x >>= f) = .error .emptyBands ↔ ∃ a, x = .ok a ∧ f a = .error .emptyBands := by
  cases x with
  | error e =>
    refine iff_of_false (fun h' => ?_) (fun ⟨_, h', _⟩ => by cases h')
    cases h'
    cases h _ rfl
  | ok a => simp [Bind.bind, Except.bind]

/-- The operand is bound to `f32` elements of the given sizes. -/
def Descriptors.HasSizes (ds : Descriptors) (p : Operand) (sizes : List Nat) : Prop :=
  ∃ d, ds.get? p = some d ∧ d.elementType = .f32 ∧ d.shape = .ofSizes sizes

@[simp] theorem Shape.axis?_ofSizes (sizes : List Nat) (i : Nat) :
    (Shape.ofSizes sizes).axis? i = sizes[i]?.map Extent.known := by
  rw [axis?, ofSizes, List.getElem?_map]

theorem Descriptor.Allocatable.sizes {d : Descriptor} (h : d.Allocatable) :
    ∃ sizes, d.shape = .ofSizes sizes ∧ d.layout.fitsRank sizes.length = true := by
  obtain ⟨n, hn⟩ := h
  obtain ⟨sizes, hsizes, hfit, -⟩ := Descriptor.requiredBytes_eq_ok hn
  exact ⟨sizes, (Shape.sizes?_eq_some_iff _ _).1 hsizes, hfit⟩

theorem Descriptors.HasSizes.unique {ds : Descriptors} {p : Operand} {sizes sizes' : List Nat}
    (h : ds.HasSizes p sizes) (h' : ds.HasSizes p sizes') : sizes = sizes' := by
  obtain ⟨d, hd, -, hs⟩ := h
  obtain ⟨d', hd', -, hs'⟩ := h'
  rw [hd] at hd'
  cases hd'
  exact Shape.ofSizes_injective (hs.symm.trans hs')

theorem Descriptors.HasSizes.inLayout {ds : Descriptors} {p : Operand} {sizes : List Nat}
    (h : ds.HasSizes p sizes) (l : Layout) : (ds.inLayout l).HasSizes p sizes := by
  obtain ⟨d, hd, htype, hshape⟩ := h
  exact ⟨d.inLayout l, by rw [get?_inLayout, hd]; rfl, htype, hshape⟩

theorem Descriptor.concreteSizes_eq_ok_iff (d : Descriptor) (sizes : List Nat) :
    d.concreteSizes = .ok sizes ↔ d.shape = .ofSizes sizes := by
  rw [← Shape.sizes?_eq_some_iff]
  unfold concreteSizes
  cases d.shape.sizes? <;> simp

theorem Descriptor.concreteSizes_reports (d : Descriptor) :
    Reports Misfit.isReported d.concreteSizes := by
  unfold concreteSizes
  split
  · exact .ok _
  · exact .error rfl

namespace Bindings

theorem descriptors_get?_eq_some_iff (b : Bindings) (p : Operand) (d : Descriptor) :
    b.descriptors.get? p = some d ↔ ∃ m, b.get? p = some m ∧ m.desc = d := by
  rw [get?_descriptors, Option.map_eq_some_iff]

theorem descriptors_get?_of_get? {b : Bindings} {p : Operand} {m : Memory} (h : b.get? p = some m) :
    b.descriptors.get? p = some m.desc := (descriptors_get?_eq_some_iff b p m.desc).2 ⟨m, h, rfl⟩

/-- The memory of `f32` elements is bound to the operand. -/
def BindsSingle (b : Bindings) (p : Operand) (m : Memory) : Prop :=
  b.get? p = some m ∧ m.desc.elementType = .f32

theorem requireSingle_eq_ok_iff (b : Bindings) (p : Operand) (m : Memory) :
    b.requireSingle p = .ok m ↔ b.BindsSingle p m := by
  unfold requireSingle BindsSingle
  cases b.get? p with
  | none => simp
  | some m' =>
    by_cases htype : m'.desc.elementType = .f32
    · simp only [if_pos htype, Except.ok.injEq, Option.some.injEq]
      constructor
      · rintro rfl
        exact ⟨rfl, htype⟩
      · exact fun h => h.1
    · simp only [if_neg htype, Option.some.injEq, reduceCtorEq, false_iff, not_and]
      rintro rfl
      exact htype

theorem requireSingle_reports (b : Bindings) (p : Operand) :
    Reports Misfit.isReported (b.requireSingle p) := by
  unfold requireSingle
  split
  · exact .error rfl
  · split
    · exact .ok _
    · exact .error rfl

theorem sizes_reports (b : Bindings) (p : Operand) : Reports Misfit.isReported (b.sizes p) := by
  unfold Bindings.sizes
  split
  · rename_i e he
    exact .error (b.requireSingle_reports p e he)
  · exact Descriptor.concreteSizes_reports _

theorem elements_reports (b : Bindings) (s : Store) (p : Operand) :
    Reports Misfit.isReported (b.elements s p) := by
  unfold Bindings.elements
  split
  · rename_i e he
    exact .error (b.requireSingle_reports p e he)
  · exact .mapError fun _ => rfl

theorem sizes_eq_ok_iff (b : Bindings) (p : Operand) (sizes : List Nat) :
    b.sizes p = .ok sizes ↔ b.descriptors.HasSizes p sizes := by
  unfold Bindings.sizes Descriptors.HasSizes
  constructor
  · intro h
    split at h
    · cases h
    · rename_i m hm
      obtain ⟨hget, htype⟩ := (requireSingle_eq_ok_iff b p m).1 hm
      exact ⟨m.desc, descriptors_get?_of_get? hget, htype, (m.desc.concreteSizes_eq_ok_iff _).1 h⟩
  · rintro ⟨d, hd, htype, hshape⟩
    obtain ⟨m, hm, rfl⟩ := (descriptors_get?_eq_some_iff b p d).1 hd
    rw [(requireSingle_eq_ok_iff b p m).2 ⟨hm, htype⟩]
    exact (m.desc.concreteSizes_eq_ok_iff _).2 hshape

theorem elements_eq_ok_iff (b : Bindings) (s : Store) (p : Operand) (xs : Array Single) :
    b.elements s p = .ok xs ↔ ∃ m, b.BindsSingle p m ∧ xs = (s.contents m).singles := by
  unfold Bindings.elements
  constructor
  · intro h
    split at h
    · cases h
    · rename_i m hm
      obtain ⟨hget, htype⟩ := (requireSingle_eq_ok_iff b p m).1 hm
      rw [Store.readPhysical, if_pos htype] at h
      cases h
      exact ⟨m, ⟨hget, htype⟩, rfl⟩
  · rintro ⟨m, ⟨hget, htype⟩, rfl⟩
    rw [(requireSingle_eq_ok_iff b p m).2 ⟨hget, htype⟩]
    dsimp only
    rw [Store.readPhysical, if_pos htype]
    rfl

end Bindings

/-! ## Runners on stores -/

namespace Runner

variable {σ : Type} {accepts : Bindings → Except MemoryError Bool}
  {run : Bindings → Store → Except Misfit Store}

/-- The answer to an update to operands of the given descriptors. -/
def takes (accepts : Bindings → Except MemoryError Bool) (ds : Descriptors) : Except Error Bool :=
  (accepts (.ofDescriptors ds)).mapError .memory

/-- A runner answers by descriptors if what it accepts depends on them alone. -/
theorem onStore_answers (h : ∀ b, accepts (.ofDescriptors b.descriptors) = accepts b) :
    (onStore (σ := σ) accepts run).Answers (takes accepts) := by
  intro b s
  exact congrArg (Except.mapError Error.memory) (h b).symm

variable {Q : Descriptors → Prop}

theorem takes_eq_ok_true (h : ∀ b, accepts b = .ok true ↔ Q b.descriptors) {ds : Descriptors}
    (hds : Q ds) : takes accepts ds = .ok true := by
  have haccepts : accepts (.ofDescriptors ds) = .ok true := by
    rw [h, Bindings.descriptors_ofDescriptors]
    exact hds
  rw [takes, haccepts]
  rfl

/-- What never fails and is accepted by descriptors is answered by them. -/
theorem accepts_ofDescriptors {answer : Bindings → Bool} (hanswer : ∀ b, accepts b = .ok (answer b))
    (h : ∀ b, accepts b = .ok true ↔ Q b.descriptors) (b : Bindings) :
    accepts (.ofDescriptors b.descriptors) = accepts b := by
  have hiff := h b
  rw [← Bindings.descriptors_ofDescriptors b.descriptors, ← h, hanswer, hanswer, Except.ok.injEq,
    Except.ok.injEq] at hiff
  rw [hanswer, hanswer, Bool.eq_iff_iff.2 hiff]

end Runner

end KernelDispatch
