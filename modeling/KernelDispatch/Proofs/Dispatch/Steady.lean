import KernelDispatch.Dispatcher
import KernelDispatch.Proofs.Adapter.Plan

/-
  Kernels whose answers depend on descriptors alone. A steady kernel that is newly built gives its
  `verdict` on the operands it was built for. It is coherent if operands that it takes by one route
  can be staged all or not at all; what has been built of a coherent kernel can be kept for other
  operands of the same route.
-/

namespace KernelDispatch

/-- The runner answers updates from the descriptors of the operands, by `takes`. -/
def Runner.Answers {σ : Type} (r : Runner σ) (takes : Descriptors → Except Error Bool) : Prop :=
  ∀ b s, (r.update b s).1 = takes b.descriptors

/-- A kernel that can always be built, and whose predicates and answers to updates depend on the
    descriptors of the operands alone, once attributes and constraints are fixed. What its answers
    and its runs do to memories and to the surroundings is arbitrary. -/
structure SteadyKernel (σ : Type) {α : Type} (attrs : α) (constraints : Constraints) where
  kernel : Kernel α σ
  supports : Descriptors → Bool
  acceptsShapes : Descriptors → Bool
  preferred : Descriptors → Option Descriptors
  /-- The answers to updates of everything built of the kernel. -/
  takes : Descriptors → Except Error Bool
  supports_eq : ∀ ds s, (kernel.supports attrs ds constraints s).1 = supports ds
  acceptsShapes_eq : ∀ b s, (kernel.acceptsShapes b s).1 = acceptsShapes b.descriptors
  preferred_eq : ∀ ds s, (kernel.preferred attrs ds s).1 = preferred ds
  builds : ∀ b s, ∃ r, (kernel.build attrs b s).1 = .ok r ∧ r.Answers takes

namespace SteadyKernel

variable {α σ : Type} {attrs : α} {constraints : Constraints}

/-- The predicates let the operands pass. -/
def accepts (k : SteadyKernel σ attrs constraints) (ds : Descriptors) : Bool :=
  k.supports ds && k.acceptsShapes ds

def route (k : SteadyKernel σ attrs constraints) (ds : Descriptors) : Route :=
  Route.of (k.preferred ds)

/-- The descriptors of the operands that differ from what the kernel prefers. -/
def conversions (k : SteadyKernel σ attrs constraints) (ds : Descriptors) : Descriptors :=
  (k.preferred ds).elim ∅ fun target => target.differingFrom ds

/-- The conversions by element type and layout alone. -/
def carried (k : SteadyKernel σ attrs constraints) (ds : Descriptors) : Descriptors :=
  (k.preferred ds).elim ∅ fun target => ds.carriedTo target.formats

/-- What the kernel prefers has the shapes of the operands. -/
def KeepsShapes (k : SteadyKernel σ attrs constraints) (ds : Descriptors) : Prop :=
  ∀ target, k.preferred ds = some target → target.KeepsShapes ds

/-- All operands that differ from what the kernel prefers can be staged. -/
def Staged (k : SteadyKernel σ attrs constraints) (ds : Descriptors) : Prop :=
  (k.conversions ds).Allocatable

/-- The answer of the newly built kernel to the operands that it was built for. -/
def verdict (k : SteadyKernel σ attrs constraints) (ds : Descriptors) : Except Error Bool :=
  if ds.convertsTo (k.conversions ds) && (k.conversions ds).stageable then
    k.takes (ds.replacedBy (k.conversions ds))
  else .ok false

/-- The operands can be converted by element type and layout, and the kernel does not refuse them
    then. -/
def Poised (k : SteadyKernel σ attrs constraints) (ds : Descriptors) : Prop :=
  ds.convertsTo (k.carried ds) = true ∧
    ¬ ((k.carried ds).Allocatable ∧ k.takes (ds.replacedBy (k.carried ds)) = .ok false)

/-! ## Verdicts -/

theorem verdict_of_staged {k : SteadyKernel σ attrs constraints} {ds : Descriptors}
    (hc : ds.convertsTo (k.conversions ds) = true) (hs : k.Staged ds) :
    k.verdict ds = k.takes (ds.replacedBy (k.conversions ds)) := by
  unfold verdict
  rw [hc, (Descriptors.stageable_iff _).2 hs]
  rfl

theorem verdict_of_not_staged {k : SteadyKernel σ attrs constraints} {ds : Descriptors}
    (hs : ¬ k.Staged ds) : k.verdict ds = .ok false := by
  unfold verdict
  rw [if_neg]
  rw [Bool.and_eq_true, Descriptors.stageable_iff]
  exact fun h => hs h.2

theorem verdict_of_not_converts {k : SteadyKernel σ attrs constraints} {ds : Descriptors}
    (hc : ds.convertsTo (k.conversions ds) ≠ true) : k.verdict ds = .ok false := by
  unfold verdict
  rw [if_neg]
  rw [Bool.and_eq_true]
  exact fun h => hc h.1

theorem conversions_eq_carried {k : SteadyKernel σ attrs constraints} {ds : Descriptors}
    (h : k.KeepsShapes ds) : k.conversions ds = k.carried ds := by
  unfold conversions carried
  cases ht : k.preferred ds with
  | none => rfl
  | some target => exact Descriptors.differingFrom_eq_carriedTo (h target ht)

theorem keepsShapes_of_converts {k : SteadyKernel σ attrs constraints} {ds : Descriptors}
    (h : ds.convertsTo (k.conversions ds) = true) : k.KeepsShapes ds := by
  intro target ht
  refine Classical.byContradiction fun hk => ?_
  have hfalse := Descriptors.convertsTo_differingFrom_eq_false hk
  simp only [conversions, ht, Option.elim_some] at h
  rw [hfalse] at h
  cases h

/-- The verdict is a refusal unless the kernel keeps the shapes and can be staged. -/
theorem verdict_eq_false {k : SteadyKernel σ attrs constraints} {ds : Descriptors}
    (h : ¬ (k.KeepsShapes ds ∧ k.Staged ds)) : k.verdict ds = .ok false := by
  by_cases hc : ds.convertsTo (k.conversions ds) = true
  · exact verdict_of_not_staged fun hs => h ⟨keepsShapes_of_converts hc, hs⟩
  · exact verdict_of_not_converts hc

/-- Without a preference nothing is converted. -/
theorem verdict_of_no_preference {k : SteadyKernel σ attrs constraints} {ds : Descriptors}
    (h : k.preferred ds = none) : k.verdict ds = k.takes ds := by
  have hc : k.conversions ds = ∅ := by simp only [conversions, h, Option.elim_none]
  have hconv : ds.convertsTo (k.conversions ds) = true := by rw [hc]; rfl
  have hs : k.Staged ds := by
    intro p d hd
    rw [hc] at hd
    cases hd
  rw [verdict_of_staged hconv hs, hc, OrderedMap.replacedBy_empty]

/-! ## Coherent kernels -/

/-- Two different sets of operands that the kernel accepts and takes by one route. -/
structure Rivals (k : SteadyKernel σ attrs constraints) (P : Descriptors → Prop)
    (ds ds' : Descriptors) : Prop where
  ne : ds ≠ ds'
  route : k.route ds = k.route ds'
  accepts : k.accepts ds = true
  accepts' : k.accepts ds' = true
  within : P ds
  within' : P ds'

/-- Of two sets of operands that are taken by one route, both can be staged or neither, and in the
    shapes of the one if they can; unless the one cannot be converted or is refused in any case. -/
def Coherent (k : SteadyKernel σ attrs constraints) (P : Descriptors → Prop) : Prop :=
  ∀ ds ds', k.Rivals P ds ds' → k.Poised ds →
    (k.Staged ds ↔ k.Staged ds') ∧ (k.Staged ds → k.KeepsShapes ds)

/-- A kernel that keeps the shapes of all operands that it accepts, and can stage them, is
    coherent. -/
theorem coherent_of_keepsShapes_of_staged {k : SteadyKernel σ attrs constraints}
    {P : Descriptors → Prop}
    (hkeeps : ∀ ds, P ds → k.accepts ds = true → k.KeepsShapes ds)
    (hstaged : ∀ ds, P ds → k.accepts ds = true → k.Staged ds) : k.Coherent P :=
  fun ds ds' h _ => ⟨⟨fun _ => hstaged ds' h.within' h.accepts',
    fun _ => hstaged ds h.within h.accepts⟩, fun _ => hkeeps ds h.within h.accepts⟩

end SteadyKernel

end KernelDispatch
