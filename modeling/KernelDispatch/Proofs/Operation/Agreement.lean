import KernelDispatch.Operation.Standard
import KernelDispatch.Proofs.Operation.Elementwise
import KernelDispatch.Proofs.Operation.MatMul
import KernelDispatch.Proofs.Operation.Pooling

/-
  Standard kernels selected for a pattern. Whatever operands that match the pattern an executor has
  met, on further ones it settles on the kernel that comes first when one selects for them directly
  (`dispatch_agrees_with_selection`).
-/

namespace KernelDispatch

namespace StandardOperation

/-- Elementwise operands have to be of one shape; other operations ask nothing. -/
def Regular : (i : StandardOperation) → i.Attributes → Descriptors → Prop
  | elementwise, op, ds => op.SameShapes ds
  | matMul, _, _ => True
  | pooling, _, _ => True

variable (arith : Arithmetic)

/-- What holds of each standard kernel holds of every entry of the catalogue. -/
theorem forall_mem_entries {P : (i : StandardOperation) → Kernel i.Attributes Unit → Prop}
    (blocked : P elementwise (Elementwise.blockedKernel arith))
    (shared : P elementwise (Elementwise.sharedKernel arith))
    (tiled : P matMul (MatMul.tiledKernel arith))
    (reference : P matMul (MatMul.referenceKernel arith))
    (pool : P pooling (Pooling.kernel arith)) (i : StandardOperation)
    (k : Kernel i.Attributes Unit) (hk : k ∈ (catalogue arith).entries i) : P i k := by
  cases i with
  | elementwise =>
    change k ∈ Elementwise.kernels arith at hk
    simp only [Elementwise.kernels, List.mem_cons, List.not_mem_nil, or_false] at hk
    rcases hk with rfl | rfl
    · exact blocked
    · exact shared
  | matMul =>
    change k ∈ MatMul.kernels arith at hk
    simp only [MatMul.kernels, List.mem_cons, List.not_mem_nil, or_false] at hk
    rcases hk with rfl | rfl
    · exact tiled
    · exact reference
  | pooling =>
    obtain rfl := List.mem_singleton.1 hk
    exact pool

/-- Let candidates be selected for a pattern, with no name prescribed, and let an executor be made
    for operands that match it and go through any history on such operands. Whenever a selection for
    further operands that match finds candidates, an update to these operands succeeds and the
    executor goes by the name of the first one. -/
theorem dispatch_agrees_with_selection (i : StandardOperation) (attrs : i.Attributes)
    {context : Context}
    (hoverride : context.overrides.priorityFor (Operation.key i.Attributes) = none)
    {constraints : Constraints} {pattern : Descriptors} {s s' : Session Unit}
    {f : Factory i.Attributes Unit}
    (hselect : Factory.select ((catalogue arith).entries i) attrs context pattern constraints none
      s = (.ok f, s')) {memory₀ : Bindings} (h₀ : memory₀.descriptors.Match pattern)
    (hall₀ : memory₀.Allocatable) (w : World Unit) :
    ∃ e w', f.make memory₀ w = (.ok e, w') ∧
      ∀ calls : List (Call Unit),
        (∀ c ∈ calls, c.Within fun ds => ds.Match pattern ∧ ds.Allocatable) →
        ∀ memory : Bindings, memory.descriptors.Match pattern → memory.Allocatable →
        Regular i attrs memory.descriptors →
        ∀ t t' k rest, candidates ((catalogue arith).entries i) attrs memory.descriptors
            constraints none t = (.ok (k :: rest), t') →
          let s := Executor.after (e, w') calls
          (s.1.update memory s.2).1 = .ok true ∧ (s.1.update memory s.2).2.1.name = k.name := by
  cases i with
  | elementwise =>
    obtain ⟨e, w', hmake, hagrees⟩ :=
      (Elementwise.foresees arith attrs constraints pattern).agrees hoverride hselect
        ⟨h₀, hall₀⟩ w
    refine ⟨e, w', hmake, fun calls hcalls memory hm hall hregular => ?_⟩
    exact hagrees calls hcalls memory ⟨hm, hall⟩ fun k hk hsupports =>
      attrs.response_of_supports arith constraints hk hall hsupports hregular
  | matMul =>
    obtain ⟨e, w', hmake, hagrees⟩ :=
      (MatMul.foresees arith attrs constraints pattern).agrees hoverride hselect ⟨h₀, hall₀⟩ w
    refine ⟨e, w', hmake, fun calls hcalls memory hm hall _ => ?_⟩
    exact hagrees calls hcalls memory ⟨hm, hall⟩ fun k hk hsupports =>
      attrs.response_of_supports arith constraints hk hall (MatMul.allocatable_planar hm hall)
        hsupports
  | pooling =>
    obtain ⟨e, w', hmake, hagrees⟩ :=
      (Pooling.foresees arith attrs constraints pattern).agrees hoverride hselect ⟨h₀, hall₀⟩ w
    refine ⟨e, w', hmake, fun calls hcalls memory hm hall _ => ?_⟩
    refine hagrees calls hcalls memory ⟨hm, hall⟩ fun k hk hsupports => ?_
    obtain rfl := List.mem_singleton.1 hk
    have hpattern := attrs.supports_of_match constraints hm hsupports
    exact attrs.response_of_supports arith constraints hk hall
      (attrs.allocatable_channelsLast constraints hm hall hpattern) hsupports

/-! ## Matrices with any number of rows -/

/-- Operands of a product with four columns whose rows are not known. -/
def anyRows : Descriptors :=
  .ofList [(.source 0, ⟨.f32, ⟨[.unknown, .known 4]⟩, .planar⟩),
    (.weights, ⟨.f32, .ofSizes [4, 4], .planar⟩),
    (.destination 0, ⟨.f32, ⟨[.unknown, .known 4]⟩, .planar⟩)]

/-- Operands of a product with four columns. -/
def withRows (rows : Nat) : Bindings :=
  .ofList [(.source 0, ⟨⟨.f32, .ofSizes [rows, 4], .planar⟩, 0⟩),
    (.weights, ⟨⟨.f32, .ofSizes [4, 4], .planar⟩, 1⟩),
    (.destination 0, ⟨⟨.f32, .ofSizes [rows, 4], .planar⟩, 2⟩)]

theorem withRows_match {rows : Nat} (h : 0 < rows) : (withRows rows).descriptors.Match anyRows := by
  have hrows : ({ elementType := .f32, shape := .ofSizes [rows, 4], layout := .planar } :
      Descriptor).Matches ⟨.f32, ⟨[.unknown, .known 4]⟩, .planar⟩ := by
    refine ⟨rfl, rfl, ?_, Shape.isStatic_ofSizes _, ?_⟩
    · simp [Shape.covers, Shape.rank, Shape.ofSizes, Extent.covers, Extent.admits]
    · simp [Descriptor.IsPositive, Shape.ofSizes, Nat.ne_of_lt h]
  have hweights : ({ elementType := .f32, shape := .ofSizes [4, 4], layout := .planar } :
      Descriptor).Matches ⟨.f32, .ofSizes [4, 4], .planar⟩ :=
    ⟨rfl, rfl, by decide, by decide, by decide⟩
  refine ⟨fun p d hd => ?_, fun p t ht => ?_⟩
  · have hmem := (OrderedMap.get?_eq_some_iff _).1 hd
    change (p, d) ∈ [(Operand.source 0, _), (.weights, _), (.destination 0, _)] at hmem
    simp only [List.mem_cons, List.not_mem_nil, or_false, Prod.mk.injEq] at hmem
    rcases hmem with ⟨rfl, rfl⟩ | ⟨rfl, rfl⟩ | ⟨rfl, rfl⟩
    · exact ⟨_, rfl, hrows⟩
    · exact ⟨_, rfl, hweights⟩
    · exact ⟨_, rfl, hrows⟩
  · have hmem := (OrderedMap.get?_eq_some_iff _).1 ht
    change (p, t) ∈ [(Operand.source 0, _), (.weights, _), (.destination 0, _)] at hmem
    simp only [List.mem_cons, List.not_mem_nil, or_false, Prod.mk.injEq] at hmem
    rcases hmem with ⟨rfl, rfl⟩ | ⟨rfl, rfl⟩ | ⟨rfl, rfl⟩
    · exact ⟨_, rfl⟩
    · exact ⟨_, rfl⟩
    · exact ⟨_, rfl⟩

/-- Both kernels are selected for any number of rows. After an update to four rows, which fill a
    tile, the executor settles on the reference kernel for three. -/
theorem three_rows_settle_on_reference :
    ∃ f s', Factory.select ((catalogue .single).entries matMul) (⟨false⟩ : MatMul)
        (.ofSettings default) anyRows ∅ none ⟨{}, ()⟩ = (.ok f, s') ∧
      f.candidates.map Kernel.name = ["matmul_tiled", "matmul_ref"] ∧
      ∃ e w', f.make (withRows 4) { store := {}, ambient := (), scratch := {} } = (.ok e, w') ∧
        let s := Executor.after (e, w') [.update (withRows 4)]
        (s.1.update (withRows 3) s.2).1 = .ok true ∧
          (s.1.update (withRows 3) s.2).2.1.name = "matmul_ref" := by
  have hall : ∀ n ∈ [3, 4], (withRows n).Allocatable := by
    simp only [List.mem_cons, List.not_mem_nil, or_false]
    rintro n (rfl | rfl)
    · exact (Descriptors.stageable_iff _).1 rfl
    · exact (Descriptors.stageable_iff _).1 rfl
  obtain ⟨f, s', hselect, hnames⟩ : ∃ f s', Factory.select ((catalogue .single).entries matMul)
      (⟨false⟩ : MatMul) (.ofSettings default) anyRows ∅ none ⟨{}, ()⟩ = (.ok f, s') ∧
      f.candidates.map Kernel.name = ["matmul_tiled", "matmul_ref"] := ⟨_, _, rfl, rfl⟩
  obtain ⟨e, w', hmake, hagrees⟩ := dispatch_agrees_with_selection .single matMul ⟨false⟩ rfl
    hselect (withRows_match (by decide : 0 < 4)) (hall 4 (by simp))
    { store := {}, ambient := (), scratch := {} }
  refine ⟨f, s', hselect, hnames, e, w', hmake, ?_⟩
  refine hagrees [.update (withRows 4)] (fun c hc => ?_) (withRows 3)
    (withRows_match (by decide)) (hall 3 (by simp)) trivial ⟨{}, ()⟩ ⟨{}, ()⟩
    (MatMul.referenceKernel .single) [] rfl
  obtain rfl := List.mem_singleton.1 hc
  exact ⟨withRows_match (by decide), hall 4 (by simp)⟩

end StandardOperation

end KernelDispatch
