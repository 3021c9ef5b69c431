import KernelDispatch.Proofs.Dispatch.Steady
import KernelDispatch.Proofs.Memory.Relayout

/-
  Kernels that prefer one layout for all of their operands. On operands that exist they can be
  staged, and the verdict is the answer to the operands in that layout (`verdict_of_relaid`).
-/

namespace KernelDispatch

namespace Descriptors

/-- All operands in one layout. -/
def inLayout (ds : Descriptors) (l : Layout) : Descriptors := ds.map fun _ d => d.inLayout l

theorem get?_inLayout (ds : Descriptors) (l : Layout) (p : Operand) :
    (ds.inLayout l).get? p = (ds.get? p).map fun d => d.inLayout l := OrderedMap.get?_map ds _ p

theorem allInLayout_iff (ds : Descriptors) (l : Layout) :
    ds.allInLayout l = true ↔ ∀ p d, ds.get? p = some d → d.layout = l := by
  simp only [allInLayout, OrderedMap.all_eq_true_iff, beq_iff_eq]

theorem allInLayout_inLayout (ds : Descriptors) (l : Layout) :
    (ds.inLayout l).allInLayout l = true := by
  rw [allInLayout_iff]
  intro p d hd
  rw [get?_inLayout, Option.map_eq_some_iff] at hd
  obtain ⟨d', -, rfl⟩ := hd
  rfl

/-- Asking for one layout leaves operands alone that are all in it. -/
theorem relaid?_eq (ds : Descriptors) (l : Layout) :
    (ds.relaid? fun _ _ => l) = if ds.allInLayout l then none else some (ds.inLayout l) := by
  have hall : (ds.all fun _ d => l == d.layout) = ds.allInLayout l := by
    unfold allInLayout
    congr 1
    funext _ d
    exact BEq.comm
  unfold relaid?
  rw [hall]
  rfl

theorem keepsShapes_inLayout (ds : Descriptors) (l : Layout) : (ds.inLayout l).KeepsShapes ds := by
  intro p t d ht hd
  rw [get?_inLayout, hd] at ht
  cases ht
  rfl

theorem differingFrom_inLayout_get? (ds : Descriptors) (l : Layout) (p : Operand) (t : Descriptor) :
    ((ds.inLayout l).differingFrom ds).get? p = some t ↔
      ∃ d, ds.get? p = some d ∧ d.layout ≠ l ∧ t = d.inLayout l := by
  rw [get?_differingFrom_eq_some_iff, get?_inLayout]
  constructor
  · rintro ⟨ht, d, hd, hne⟩
    rw [hd] at ht
    cases ht
    refine ⟨d, hd, fun hl => hne ?_, rfl⟩
    subst hl
    exact d.inLayout_self.symm
  · rintro ⟨d, hd, hne, rfl⟩
    rw [hd]
    exact ⟨rfl, d, rfl, fun he => hne (by rw [he]; rfl)⟩

theorem replacedBy_differingFrom_inLayout (ds : Descriptors) (l : Layout) :
    ds.replacedBy ((ds.inLayout l).differingFrom ds) = ds.inLayout l := by
  refine OrderedMap.ext_get? fun p => ?_
  rw [OrderedMap.get?_replacedBy, get?_inLayout]
  cases hd : ds.get? p with
  | none =>
    cases ht : ((ds.inLayout l).differingFrom ds).get? p with
    | none => rfl
    | some t =>
      obtain ⟨d, hd', -⟩ := (differingFrom_inLayout_get? ds l p t).1 ht
      rw [hd] at hd'
      cases hd'
  | some d =>
    by_cases hl : d.layout = l
    · have hnone : ((ds.inLayout l).differingFrom ds).get? p = none := by
        refine Option.eq_none_iff_forall_ne_some.2 fun t ht => ?_
        obtain ⟨d', hd', hne, -⟩ := (differingFrom_inLayout_get? ds l p t).1 ht
        rw [hd] at hd'
        cases hd'
        exact hne hl
      rw [hnone, Option.none_or, Option.map_some, ← hl, Descriptor.inLayout_self]
    · rw [(differingFrom_inLayout_get? ds l p _).2 ⟨d, hd, hl, rfl⟩]
      rfl

/-- Operands that exist can be converted to a layout that they could have been made in. -/
theorem convertsTo_inLayout {ds : Descriptors} {l : Layout} (h : ds.Allocatable)
    (hl : (ds.inLayout l).Allocatable) :
    ds.convertsTo ((ds.inLayout l).differingFrom ds) = true := by
  rw [convertsTo_iff]
  intro p t ht
  obtain ⟨d, hd, -, rfl⟩ := (differingFrom_inLayout_get? ds l p t).1 ht
  have htarget : (d.inLayout l).Allocatable := hl p _ (by rw [get?_inLayout, hd]; rfl)
  have hsource := h p d hd
  refine ⟨d, hd, (Descriptor.checkConversion_eq_ok_iff _ _).2 ⟨rfl, rfl, ?_⟩⟩
  exact ⟨hsource.isStatic, hsource.isWellFormed, htarget.isStatic, htarget.isWellFormed⟩

end Descriptors

namespace SteadyKernel

variable {α σ : Type} {attrs : α} {constraints : Constraints}

/-- The kernel would rather have all operands in one layout. -/
def PrefersLayout (k : SteadyKernel σ attrs constraints) (l : Layout) : Prop :=
  ∀ ds, k.preferred ds = ds.relaid? fun _ _ => l

variable {k : SteadyKernel σ attrs constraints} {l : Layout}

theorem PrefersLayout.conversions_eq (h : k.PrefersLayout l) (ds : Descriptors) :
    k.conversions ds = (ds.inLayout l).differingFrom ds := by
  rw [conversions, h, Descriptors.relaid?_eq]
  split
  · rename_i hall
    refine OrderedMap.ext_get? fun p => (Option.eq_none_iff_forall_ne_some.2 fun t ht => ?_).symm
    obtain ⟨d, hd, hne, -⟩ := (Descriptors.differingFrom_inLayout_get? ds l p t).1 ht
    exact hne ((Descriptors.allInLayout_iff ds l).1 hall p d hd)
  · rfl

theorem PrefersLayout.keepsShapes (h : k.PrefersLayout l) (ds : Descriptors) :
    k.KeepsShapes ds := by
  intro target htarget
  rw [h, Descriptors.relaid?_eq] at htarget
  split at htarget
  · cases htarget
  · cases htarget
    exact Descriptors.keepsShapes_inLayout ds l

theorem PrefersLayout.staged (h : k.PrefersLayout l) {ds : Descriptors}
    (hl : (ds.inLayout l).Allocatable) : k.Staged ds := by
  intro p t ht
  rw [h.conversions_eq] at ht
  obtain ⟨d, hd, -, rfl⟩ := (Descriptors.differingFrom_inLayout_get? ds l p t).1 ht
  exact hl p _ (by rw [Descriptors.get?_inLayout, hd]; rfl)

/-- The route depends on element types and layouts only. -/
theorem PrefersLayout.route_eq (h : k.PrefersLayout l) {ds ds' : Descriptors}
    (hformats : ds.formats = ds'.formats) : k.route ds = k.route ds' := by
  have hroute : ∀ ds : Descriptors, k.route ds =
      if ds.formats.all (fun _ f => f.2 == l) then none
      else some (ds.formats.map fun _ f => (f.1, l)) := by
    intro ds
    have hall : (ds.formats.all fun _ f => f.2 == l) = ds.allInLayout l := by
      simp only [OrderedMap.all, Descriptors.formats, OrderedMap.map, List.all_map,
        Descriptors.allInLayout]
      rfl
    rw [route, Route.of, h, Descriptors.relaid?_eq, hall]
    split
    · rfl
    · refine congrArg some (OrderedMap.ext_get? fun p => ?_)
      simp only [Descriptors.formats, Descriptors.inLayout, OrderedMap.get?_map, Option.map_map]
      rfl
  rw [hroute, hroute, hformats]

/-- The verdict is the answer to the operands in the preferred layout, if they exist and could have
    been made in it. -/
theorem PrefersLayout.verdict_eq (h : k.PrefersLayout l) {ds : Descriptors} (hds : ds.Allocatable)
    (hl : (ds.inLayout l).Allocatable) : k.verdict ds = k.takes (ds.inLayout l) := by
  have hconv : ds.convertsTo (k.conversions ds) = true := by
    rw [h.conversions_eq]
    exact Descriptors.convertsTo_inLayout hds hl
  rw [verdict_of_staged hconv (h.staged hl), h.conversions_eq,
    Descriptors.replacedBy_differingFrom_inLayout]

/-! ## Kernels without a preference -/

/-- The kernel takes operands as they are. -/
def NeverPrefers (k : SteadyKernel σ attrs constraints) : Prop := ∀ ds, k.preferred ds = none

theorem NeverPrefers.route_eq (h : k.NeverPrefers) (ds : Descriptors) : k.route ds = none := by
  rw [route, h]
  rfl

theorem NeverPrefers.keepsShapes (h : k.NeverPrefers) (ds : Descriptors) : k.KeepsShapes ds := by
  intro target htarget
  rw [h] at htarget
  cases htarget

theorem NeverPrefers.staged (h : k.NeverPrefers) (ds : Descriptors) : k.Staged ds := by
  intro p d hd
  rw [conversions, h] at hd
  cases hd

end SteadyKernel

end KernelDispatch
