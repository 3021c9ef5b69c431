import KernelDispatch.Proofs.Dispatch.Negotiation
import KernelDispatch.Proofs.Operation.Promises

/-
  Negotiation of layouts with the standard kernels. The reference kernel for matrix products wants
  planar operands and the one for poolings wants the channels last, whatever they are constrained
  to; the others take operands as they are. The kernels that want a layout look at no other layouts,
  so without constraints one step of negotiation is enough (`negotiation_settles`). With constraints
  a negotiated set is of use exactly if they admit it, which they need not
  (`negotiation_under_constraints`).
-/

namespace KernelDispatch

/-! ## What does not depend on layouts -/

namespace Descriptors

variable (ds : Descriptors) (l : Layout)

@[simp] theorem axis?_inLayout (p : Operand) (i : Nat) :
    (ds.inLayout l).axis? p i = ds.axis? p i := by
  rw [axis?, get?_inLayout, axis?, Option.bind_map]
  rfl

@[simp] theorem size_inLayout : (ds.inLayout l).size = ds.size := List.length_map _

@[simp] theorem allSingle_inLayout : (ds.inLayout l).allSingle = ds.allSingle := List.all_map

end Descriptors

theorem MatMul.fits_inLayout (op : MatMul) (ds : Descriptors) (l : Layout) :
    op.fits (ds.inLayout l) = op.fits ds := by
  simp only [fits, biasFits, Descriptors.axis?_inLayout, Descriptors.allSingle_inLayout,
    Descriptors.get?_inLayout, Option.any_map, Option.all_map]
  rfl

theorem Constraints.admits_empty (ds : Descriptors) : (∅ : Constraints).admits ds = true :=
  (Descriptors.admits_iff _ _).2 fun _ _ _ => rfl

namespace Pooling

variable (op : Pooling) (ds : Descriptors)

theorem supports_eq (c : Constraints) :
    op.supports ds c = (op.supports ds ∅ && c.admits ds) := by
  simp only [supports, Constraints.admits_empty, Bool.and_true]

theorem supports_inLayout (l : Layout) : op.supports (ds.inLayout l) ∅ = op.supports ds ∅ := by
  simp only [supports, axisFits, Constraints.admits_empty, Descriptors.axis?_inLayout,
    Descriptors.allSingle_inLayout, Descriptors.size_inLayout, Descriptors.get?_inLayout,
    Option.any_map]
  rfl

end Pooling

/-! ## What the kernels want -/

namespace StandardOperation

/-- The layout that a kernel wants all of its operands in. -/
def wantedLayout? : StandardOperation → String → Option Layout
  | elementwise, _ => none
  | matMul, name => if name = MatMul.referenceName then some .planar else none
  | pooling, _ => some .channelsLast

variable (arith : Arithmetic)

theorem wants_of_mem_entries (i : StandardOperation) (attrs : i.Attributes)
    {k : Kernel i.Attributes Unit} (hk : k ∈ (catalogue arith).entries i) :
    k.Wants attrs (wantedLayout? i k.name) := by
  refine forall_mem_entries arith (P := fun i k => ∀ attrs, k.Wants attrs (wantedLayout? i k.name))
    ?_ ?_ ?_ ?_ ?_ i k hk attrs
  · exact fun _ => .of_fits (fun _ _ => rfl) (fun _ _ _ => rfl) fun _ h => h
  · exact fun _ => .of_fits (fun _ _ => rfl) (fun _ _ _ => rfl) fun _ h => h
  · exact fun _ => .of_fits (fun _ _ => rfl) (fun _ _ _ => rfl) fun _ h => h
  · exact fun op => .of_fits (fun _ _ => rfl) (fun _ _ _ => rfl) fun ds h =>
      (op.fits_inLayout ds .planar).trans h
  · exact fun op => .of_fits (fun _ _ => rfl) (fun ds c _ => op.supports_eq ds c) fun ds h =>
      (op.supports_inLayout ds .channelsLast).trans h

/-- Only the last kernel of an operation ends a selection. -/
theorem shapeAgnostic_of_mem_dropLast (i : StandardOperation) {k : Kernel i.Attributes Unit}
    (hk : k ∈ ((catalogue arith).entries i).dropLast) : k.shapeAgnostic = false := by
  cases i with
  | elementwise =>
    obtain rfl := List.mem_singleton.1 hk
    rfl
  | matMul =>
    obtain rfl := List.mem_singleton.1 hk
    rfl
  | pooling => cases hk

theorem negotiable_entries (i : StandardOperation) (attrs : i.Attributes) :
    Negotiable ((catalogue arith).entries i) attrs (wantedLayout? i) (Runs arith i attrs) where
  quiet c _ hk := quiet_of_mem_entries arith i attrs c hk
  wants _ hk := wants_of_mem_entries arith i attrs hk
  last _ hk := shapeAgnostic_of_mem_dropLast arith i hk

/-! ## Without constraints -/

/-- Let a factory be selected without constraints, for any operands. The set that it negotiates for
    a candidate has the offered operands, with their element types and shapes, and differs from the
    offered one for those that were not in the layout the candidate wants. The candidate supports
    it and asks for no other. Selecting for this set finds the candidate again, and the set that is
    negotiated for it then is the same. -/
theorem negotiation_settles {i : StandardOperation} {attrs : i.Attributes} {context : Context}
    {ds : Descriptors} {priority : Option String} {s s' : Session Unit}
    {f : Factory i.Attributes Unit}
    (hselect : Factory.select ((catalogue arith).entries i) attrs context ds ∅ priority s =
      (.ok f, s')) (t : Session Unit) :
    (f.properDescriptors ds t).1.length = f.candidates.length ∧
      ∀ (n : Nat) k, f.candidates[n]? = some k → ∃ P, (f.properDescriptors ds t).1[n]? = some P ∧
        P.keys = ds.keys ∧
        (∀ p, P.get? p =
          (ds.get? p).map fun d => d.inLayout ((wantedLayout? i k.name).getD d.layout)) ∧
        (∀ p, (P.differingFrom ds).contains p = true ↔
          ∃ d l, ds.get? p = some d ∧ wantedLayout? i k.name = some l ∧ d.layout ≠ l) ∧
        (∀ u, (k.supports attrs P ∅ u).1 = true ∧ (k.preferred attrs P u).1 = none) ∧
        ∀ u, ∃ f', Factory.select ((catalogue arith).entries i) attrs context P ∅ priority u =
            (.ok f', u) ∧
          k ∈ f'.candidates ∧
          ∀ m : Nat, f'.candidates[m]? = some k → (f'.properDescriptors P u).1[m]? = some P := by
  have hks := negotiable_entries arith i attrs
  refine ⟨Factory.length_properFrom _ _ _ _, fun n k hn => ?_⟩
  have hk := List.mem_of_getElem? hn
  obtain ⟨hmem, -, hsupports⟩ := (hks.mem_candidates_iff hselect).1 hk
  have hwants := hks.wants k hmem
  have hadmits := Constraints.admits_empty (ds.negotiated (wantedLayout? i k.name))
  refine ⟨ds.negotiated (wantedLayout? i k.name), hks.getElem?_properDescriptors hselect hn ds t,
    ds.keys_negotiated _, ds.get?_negotiated _, ds.contains_differingFrom_negotiated _,
    fun u => ⟨hwants.supports ds ∅ ∅ s u hsupports hadmits, ?_⟩, fun u => ?_⟩
  · rw [hwants.preferred]
    exact ds.relaid?_negotiated _
  · obtain ⟨f', hselect', hk'⟩ := hks.select_negotiated hselect hk hadmits u
    refine ⟨f', hselect', hk', fun m hm => ?_⟩
    rw [hks.getElem?_properDescriptors hselect' hm, Descriptors.negotiated_negotiated]

/-- Operands of a product with four columns in blocks of four. The number of rows is not known. -/
def blockedRows : Descriptors :=
  .ofList [(.source 0, ⟨.f32, ⟨[.unknown, .known 4]⟩, .blocked 4⟩),
    (.weights, ⟨.f32, .ofSizes [4, 4], .blocked 4⟩),
    (.destination 0, ⟨.f32, ⟨[.unknown, .known 4]⟩, .blocked 4⟩)]

/-- Only the reference kernel is selected for such operands. It asks for planar ones, for which the
    tiled kernel is selected as well. -/
theorem blocked_rows_settle :
    ∃ f s', Factory.select ((catalogue .single).entries matMul) (⟨false⟩ : MatMul)
        (.ofSettings default) blockedRows ∅ none ⟨{}, ()⟩ = (.ok f, s') ∧
      f.candidates.map Kernel.name = ["matmul_ref"] ∧
      ∃ P, (f.properDescriptors blockedRows ⟨{}, ()⟩).1 = [P] ∧
        (P.differingFrom blockedRows).contains (.source 0) = true ∧
        ∃ f', Factory.select ((catalogue .single).entries matMul) (⟨false⟩ : MatMul)
            (.ofSettings default) P ∅ none ⟨{}, ()⟩ = (.ok f', ⟨{}, ()⟩) ∧
          f'.candidates.map Kernel.name = ["matmul_tiled", "matmul_ref"] ∧
          (f'.properDescriptors P ⟨{}, ()⟩).1[1]? = some P := by
  obtain ⟨f, s', hselect, hfound, hproper⟩ : ∃ f s',
      Factory.select ((catalogue .single).entries matMul) (⟨false⟩ : MatMul)
        (.ofSettings default) blockedRows ∅ none ⟨{}, ()⟩ = (.ok f, s') ∧
      f.candidates = [MatMul.referenceKernel .single] ∧
      (f.properDescriptors blockedRows ⟨{}, ()⟩).1 = [blockedRows.inLayout .planar] :=
    ⟨_, _, rfl, rfl, rfl⟩
  obtain ⟨P, hP, -, -, hdiffers, -, hagain⟩ := (negotiation_settles .single hselect ⟨{}, ()⟩).2 0
    (MatMul.referenceKernel .single) (by rw [hfound]; rfl)
  rw [hproper] at hP
  cases hP
  obtain ⟨f', hselect', -, hsame⟩ := hagain ⟨{}, ()⟩
  obtain ⟨g, hg, hnames, hlast⟩ : ∃ g, Factory.select ((catalogue .single).entries matMul)
      (⟨false⟩ : MatMul) (.ofSettings default) (blockedRows.inLayout .planar) ∅ none ⟨{}, ()⟩ =
        (.ok g, ⟨{}, ()⟩) ∧
      g.candidates.map Kernel.name = ["matmul_tiled", "matmul_ref"] ∧
      g.candidates[1]? = some (MatMul.referenceKernel .single) := ⟨_, rfl, rfl, rfl⟩
  rw [hselect'] at hg
  cases hg
  exact ⟨f, s', hselect, by rw [hfound]; rfl, _, hproper,
    (hdiffers _).2 ⟨_, _, rfl, rfl, by decide⟩, f', hselect', hnames, hsame 1 hlast⟩

/-! ## With constraints -/

/-- Let a factory be selected under constraints that admit the offered operands. Of any kernels, a
    candidate is answered with what it prefers, or else with what was offered, and this is admitted
    exactly where the operands that differ have a layout that is allowed. Of the standard kernels,
    the set for a candidate is admitted exactly where the layout that it wants is allowed for the
    operands that are not in it. Selecting for this set then finds the candidate again; otherwise
    it finds none. -/
theorem negotiation_under_constraints :
    (∀ {α σ : Type} [Operation α] (ks : List (Kernel α σ)) (attrs : α) (context : Context)
        (ds : Descriptors) (c : Constraints) (priority : Option String) (s s' : Session σ)
        (f : Factory α σ),
      Factory.select ks attrs context ds c priority s = (.ok f, s') → c.admits ds = true →
      ∀ t, (f.properDescriptors ds t).1.length = f.candidates.length ∧
        ∀ (n : Nat) k, f.candidates[n]? = some k →
          ∃ P u, (f.properDescriptors ds t).1[n]? = some P ∧
            P = (k.preferred attrs ds u).1.getD ds ∧
            (f.constraints.admits P = true ↔
              ∀ p d, P.get? p = some d → ds.get? p ≠ some d → c.allows p d.layout = true)) ∧
    ∀ (i : StandardOperation) (attrs : i.Attributes) (context : Context) (ds : Descriptors)
        (c : Constraints) (priority : Option String) (s s' : Session Unit)
        (f : Factory i.Attributes Unit),
      Factory.select ((catalogue arith).entries i) attrs context ds c priority s = (.ok f, s') →
      c.admits ds = true → ∀ t u (n : Nat) k, f.candidates[n]? = some k →
        ∃ P, (f.properDescriptors ds t).1[n]? = some P ∧
          (f.constraints.admits P = true ↔ ∀ l, wantedLayout? i k.name = some l →
            ∀ p d, ds.get? p = some d → d.layout ≠ l → c.allows p l = true) ∧
          (f.constraints.admits P = true →
            ∃ f', Factory.select ((catalogue arith).entries i) attrs context P c priority u =
              (.ok f', u) ∧ k ∈ f'.candidates) ∧
          (f.constraints.admits P = false →
            Factory.select ((catalogue arith).entries i) attrs context P c priority u =
              (.error (.noCandidate (Operation.key i.Attributes)
                (Factory.priorityIn i.Attributes context priority) P), u)) := by
  constructor
  · intro α σ _ ks attrs context ds c priority s s' f hselect hadmits t
    exact ⟨Factory.length_properFrom _ _ _ _, fun n k hn =>
      Factory.properDescriptors_admitted_iff hselect hadmits t hn⟩
  · intro i attrs context ds c priority s s' f hselect hadmits t u n k hn
    have hks := negotiable_entries arith i attrs
    obtain ⟨-, rfl, -⟩ := Factory.of_select hselect
    refine ⟨ds.negotiated (wantedLayout? i k.name), hks.getElem?_properDescriptors hselect hn ds t,
      Descriptors.admits_negotiated_iff hadmits _, fun h => ?_, fun h => ?_⟩
    · exact hks.select_negotiated hselect (List.mem_of_getElem? hn) h u
    · exact hks.select_not_admitted h u

/-- The operands of a product may have the given layouts. -/
def allowing (ls : List Layout) : Constraints :=
  (((∅ : Constraints).allow (.source 0) ls).allow .weights ls).allow (.destination 0) ls

/-- Where operands in blocks may be planar as well, planar ones are negotiated for them and the
    reference kernel is selected for these too. -/
theorem blocked_rows_may_be_planar :
    ∃ f s', Factory.select ((catalogue .single).entries matMul) (⟨false⟩ : MatMul)
        (.ofSettings default) blockedRows (allowing [.blocked 4, .planar]) none ⟨{}, ()⟩ =
          (.ok f, s') ∧
      (allowing [.blocked 4, .planar]).admits blockedRows = true ∧
      ∃ P, (f.properDescriptors blockedRows ⟨{}, ()⟩).1[0]? = some P ∧
        f.constraints.admits P = true ∧
        ∃ f', Factory.select ((catalogue .single).entries matMul) (⟨false⟩ : MatMul)
            (.ofSettings default) P (allowing [.blocked 4, .planar]) none ⟨{}, ()⟩ =
              (.ok f', ⟨{}, ()⟩) ∧
          MatMul.referenceKernel .single ∈ f'.candidates := by
  obtain ⟨f, s', hselect, hfound, hproper, hallowed⟩ : ∃ f s',
      Factory.select ((catalogue .single).entries matMul) (⟨false⟩ : MatMul)
        (.ofSettings default) blockedRows (allowing [.blocked 4, .planar]) none ⟨{}, ()⟩ =
          (.ok f, s') ∧
      f.candidates[0]? = some (MatMul.referenceKernel .single) ∧
      (f.properDescriptors blockedRows ⟨{}, ()⟩).1[0]? = some (blockedRows.inLayout .planar) ∧
      f.constraints.admits (blockedRows.inLayout .planar) = true := ⟨_, _, rfl, rfl, rfl, rfl⟩
  obtain ⟨P, hP, -, hagain, -⟩ := (negotiation_under_constraints .single).2 matMul _ _ _ _
    _ _ _ f hselect (by decide) ⟨{}, ()⟩ ⟨{}, ()⟩ 0 _ hfound
  rw [hproper] at hP
  cases hP
  exact ⟨f, s', hselect, by decide, _, hproper, hallowed, hagain hallowed⟩

/-- A kernel that supports operands that are not all planar and would rather have planar ones. -/
def contraryKernel : Kernel MatMul Unit :=
  { MatMul.referenceKernel .single with
    supports := fun _ ds _ => .answer (!ds.allInLayout .planar) }

/-- Where operands may be in blocks only, planar ones are negotiated for them nonetheless, and no
    kernel is selected for these. Of other kernels, one that asks for operands it does not support
    is not selected for them, although they are admitted. -/
theorem negotiated_planar_rows_refused :
    (∃ f s', Factory.select ((catalogue .single).entries matMul) (⟨false⟩ : MatMul)
        (.ofSettings default) blockedRows (allowing [.blocked 4]) none ⟨{}, ()⟩ = (.ok f, s') ∧
      f.candidates.map Kernel.name = ["matmul_ref"] ∧
      (allowing [.blocked 4]).admits blockedRows = true ∧
      ∃ P, (f.properDescriptors blockedRows ⟨{}, ()⟩).1 = [P] ∧
        f.constraints.admits P = false ∧
        ∃ e u, Factory.select ((catalogue .single).entries matMul) (⟨false⟩ : MatMul)
          (.ofSettings default) P (allowing [.blocked 4]) none ⟨{}, ()⟩ = (.error e, u)) ∧
    ∃ f s', Factory.select [contraryKernel] (⟨false⟩ : MatMul) (.ofSettings default) blockedRows ∅
        none ⟨{}, ()⟩ = (.ok f, s') ∧
      (∅ : Constraints).admits blockedRows = true ∧
      ∃ P, (f.properDescriptors blockedRows ⟨{}, ()⟩).1 = [P] ∧
        f.constraints.admits P = true ∧
        ∃ e u, Factory.select [contraryKernel] (⟨false⟩ : MatMul) (.ofSettings default) P ∅ none
          ⟨{}, ()⟩ = (.error e, u) :=
  ⟨⟨_, _, rfl, rfl, by decide, _, rfl, by decide, _, _, rfl⟩,
    _, _, rfl, by decide, _, rfl, by decide, _, _, rfl⟩

end StandardOperation

end KernelDispatch
