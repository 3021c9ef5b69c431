import KernelDispatch.Operation.MatMul
import KernelDispatch.Proofs.Adapter.Run
import KernelDispatch.Proofs.Memory.Accounts
import KernelDispatch.Proofs.Memory.Rounds

/-
  When an adapter allocates no more. Building its kernel on a fresh context allocates a buffer for
  each converted operand, and every later call on operands of the same descriptors requests the same
  sizes in the same order. A request takes the first buffer that is large enough, so a large buffer
  may go to a small request. Whether this happens is decided by the sizes alone, and if it does not
  happen in the first call it never does (`Adapter.allocates_no_more_iff`).
-/

namespace KernelDispatch

/-- A call on operands of the given descriptors, or something elsewhere that leaves the pool
    alone. -/
def Call.KeepsTo {σ : Type} (ds : Descriptors) : Call σ → Prop
  | update memory => memory.descriptors = ds
  | execute memory => memory.descriptors = ds
  | elsewhere change => ∀ w, (change w).scratch = w.scratch

/-- Memories of the descriptors take these numbers of bytes, in the order of the operands. -/
def Descriptors.HaveBytes (wanted : Descriptors) (sizes : List Nat) : Prop :=
  wanted.entries.map (fun e => e.2.requiredBytes) = sizes.map .ok

theorem Descriptors.HaveBytes.allocatable {wanted : Descriptors} {sizes : List Nat}
    (h : wanted.HaveBytes sizes) : wanted.Allocatable := by
  intro p d hd
  have hmem : d.requiredBytes ∈ sizes.map .ok := by
    rw [← h]
    exact List.mem_map_of_mem ((OrderedMap.get?_eq_some_iff _).1 hd)
  obtain ⟨n, -, hn⟩ := List.mem_map.1 hmem
  exact ⟨n, hn.symm⟩

namespace Adapter

variable {α σ : Type}

/-! ## A built adapter -/

theorem exists_inner_of_build {k : Kernel α σ} {attrs : α} {descs target : Descriptors}
    {memory : Bindings} {w w' : World σ} {a : Adapter σ}
    (h : Adapter.build k attrs descs target memory w = (.ok a, w'))
    (hall : (target.differingFrom descs).Allocatable) : ∃ runner, a.inner = some runner := by
  have hstageable : ((target.differingFrom descs).all fun _ d => d.requiredBytes.isOk) = true :=
    (Descriptors.stageable_iff _).2 hall
  simp only [Adapter.build, hstageable, if_true, World.withStaged] at h
  split at h
  · cases h
  · split at h
    · cases h
      exact ⟨_, rfl⟩
    · cases h

/-- The adapter has a kernel and is planned for operands of the given descriptors, which are bound
    where they are converted, and the memories that it requests take the given numbers of bytes. -/
structure Requests (a : Adapter σ) (ds : Descriptors) (sizes : List Nat) : Prop where
  built : ∃ runner, a.inner = some runner
  planned : a.planned = ds
  bound : ∀ p d, a.conversions.get? p = some d → ∃ t, ds.get? p = some t
  bytes : a.conversions.HaveBytes sizes

theorem requests_of_build {k : Kernel α σ} {attrs : α} {descs target : Descriptors}
    {memory : Bindings} {w w' : World σ} {a : Adapter σ} {sizes : List Nat}
    (h : Adapter.build k attrs descs target memory w = (.ok a, w'))
    (hbytes : a.conversions.HaveBytes sizes) : a.Requests descs sizes := by
  obtain ⟨inner, rfl⟩ := exists_around_of_build h
  refine ⟨exists_inner_of_build h hbytes.allocatable, rfl, fun p d hd => ?_, hbytes⟩
  obtain ⟨-, t, ht, -⟩ := (Descriptors.get?_differingFrom_eq_some_iff _ _ _ _).1 hd
  exact ⟨t, ht⟩

/-! ## Calls -/

section

variable {a : Adapter σ} {sizes : List Nat} {memory : Bindings} {w : World σ}

theorem Requests.follow_eq {ds : Descriptors} (h : a.Requests ds sizes) : a.follow ds = a :=
  if_pos h.planned.symm

theorem Requests.exists_memory (h : a.Requests memory.descriptors sizes) {p : Operand}
    {d : Descriptor} (hd : a.conversions.get? p = some d) : ∃ m, memory.get? p = some m := by
  obtain ⟨t, ht⟩ := h.bound p d hd
  rw [Bindings.get?_descriptors, Option.map_eq_some_iff] at ht
  exact ht.imp fun _ hm => hm.1

/-- An update leaves the adapter as it is and is a step on staged operands, or stages nothing because
    they cannot be converted. -/
theorem Requests.update (h : a.Requests memory.descriptors sizes) :
    (memory.descriptors.convertsTo a.conversions = false → (a.update memory w).2 = (a, w)) ∧
    (memory.descriptors.convertsTo a.conversions = true →
      ∃ body : Bindings → World σ → Except Error Bool × World σ,
        (∀ staged w, (body staged w).2.scratch = w.scratch) ∧
        (a.update memory w).2 = (a, (w.withStaged memory a.conversions body).2)) := by
  have hfollow : a.follow memory.descriptors = a := h.follow_eq
  constructor
  · intro hconv
    rw [update_of_refused (fun hready => ?_) w, hfollow]
    rw [hfollow, hconv] at hready
    exact Bool.noConfusion hready.1
  · intro hconv
    obtain ⟨runner, hinner⟩ := h.built
    obtain ⟨body, hbody, hupdate⟩ := update_eq_withStaged (by
      rw [hfollow]
      exact (check_eq_ok_iff a memory).2 hconv) hinner
    rw [hfollow] at hupdate
    refine ⟨body, hbody, Prod.ext ?_ (hupdate w)⟩
    rw [update_adapter, hfollow]

/-- So does an execution. -/
theorem Requests.execute (h : a.Requests memory.descriptors sizes) :
    (memory.descriptors.convertsTo a.conversions = false → (a.execute memory w).2 = w) ∧
    (memory.descriptors.convertsTo a.conversions = true →
      ∃ body : Bindings → World σ → Except Error Unit × World σ,
        (∀ staged w, (body staged w).2.scratch = w.scratch) ∧
        (a.execute memory w).2 = (w.withStaged memory a.conversions body).2) := by
  constructor
  · intro hconv
    cases hcheck : a.check memory with
    | ok =>
      rw [check_eq_ok_iff, hconv] at hcheck
      cases hcheck
    | error e => rw [execute_of_check_error hcheck]
  · intro hconv
    obtain ⟨runner, hinner⟩ := h.built
    obtain ⟨body, hbody, hexecute⟩ :=
      execute_eq_withStaged ((check_eq_ok_iff a memory).2 hconv) hinner
    exact ⟨body, hbody, by rw [hexecute]⟩

end

/-! ## Histories -/

section

variable {a : Adapter σ} {ds : Descriptors} {sizes : List Nat}

/-- If the sizes are sustained, or nothing is ever staged, a call leaves a stocked pool stocked. -/
theorem Requests.stocked_perform (h : a.Requests ds sizes)
    (hroom : sizes.length ≤ Scratch.poolLimit)
    (hsustains : ds.convertsTo a.conversions = true → Scratch.sustains sizes = true) {w : World σ}
    (hstocked : w.Stocked sizes) {c : Call σ} (hc : c.KeepsTo ds) :
    (perform (a, w) c).1 = a ∧ (perform (a, w) c).2.Stocked sizes := by
  cases c with
  | update memory =>
    obtain rfl : memory.descriptors = ds := hc
    obtain ⟨hrefused, hstages⟩ := h.update (w := w)
    show (a.update memory w).2.1 = a ∧ World.Stocked sizes (a.update memory w).2.2
    cases hconv : memory.descriptors.convertsTo a.conversions with
    | false =>
      rw [hrefused hconv]
      exact ⟨rfl, hstocked⟩
    | true =>
      obtain ⟨body, hbody, hupdate⟩ := hstages hconv
      rw [hupdate]
      exact ⟨rfl, hstocked.withStaged (fun p d => h.exists_memory) h.bytes hroom
        (hsustains hconv) hbody⟩
  | execute memory =>
    obtain rfl : memory.descriptors = ds := hc
    obtain ⟨hrefused, hstages⟩ := h.execute (w := w)
    refine ⟨rfl, ?_⟩
    show World.Stocked sizes (a.execute memory w).2
    cases hconv : memory.descriptors.convertsTo a.conversions with
    | false =>
      rw [hrefused hconv]
      exact hstocked
    | true =>
      obtain ⟨body, hbody, hexecute⟩ := hstages hconv
      rw [hexecute]
      exact hstocked.withStaged (fun p d => h.exists_memory) h.bytes hroom (hsustains hconv) hbody
  | elsewhere change =>
    have hsame : (change w).scratch = w.scratch := hc w
    refine ⟨rfl, ?_, ?_, ?_⟩
    · exact (congrArg Scratch.policy hsame).trans hstocked.policy
    · exact (congrArg (fun sc => sc.pool.map Buffer.capacity) hsame).trans hstocked.pool
    · exact (congrArg Scratch.allocations hsame).trans hstocked.allocations

theorem Requests.stocked_after (h : a.Requests ds sizes)
    (hroom : sizes.length ≤ Scratch.poolLimit)
    (hsustains : ds.convertsTo a.conversions = true → Scratch.sustains sizes = true) {w : World σ}
    (hstocked : w.Stocked sizes) {calls : List (Call σ)} (hcalls : ∀ c ∈ calls, c.KeepsTo ds) :
    (after (a, w) calls).2.Stocked sizes := by
  induction calls generalizing w with
  | nil => exact hstocked
  | cons c calls ih =>
    obtain ⟨hc, hcalls⟩ := List.forall_mem_cons.1 hcalls
    obtain ⟨hsame, hstocked'⟩ := h.stocked_perform hroom hsustains hstocked hc
    have hstep : perform (a, w) c = (a, (perform (a, w) c).2) := Prod.ext hsame rfl
    show (after (perform (a, w) c) calls).2.Stocked sizes
    rw [hstep]
    exact ih hstocked' hcalls

/-- If the sizes are not sustained, the first call that stages operands allocates. -/
theorem Requests.lt_allocations {memory : Bindings} (h : a.Requests memory.descriptors sizes)
    (hconv : memory.descriptors.convertsTo a.conversions = true)
    (hsustains : Scratch.sustains sizes = false) {w : World σ} (hstocked : w.Stocked sizes) :
    sizes.length < (a.update memory w).2.2.scratch.allocations ∧
      sizes.length < (a.execute memory w).2.scratch.allocations := by
  obtain ⟨body, hbody, hupdate⟩ := (h.update (w := w)).2 hconv
  obtain ⟨body', hbody', hexecute⟩ := (h.execute (w := w)).2 hconv
  rw [hupdate, hexecute]
  exact ⟨hstocked.lt_withStaged (fun p d => h.exists_memory) h.bytes hsustains hbody,
    hstocked.lt_withStaged (fun p d => h.exists_memory) h.bytes hsustains hbody'⟩

end

/-- Let an adapter be built on a fresh context that recycles, with at most as many conversions as the
    pool has room for, of any sizes that can be allocated. Then it has allocated a buffer for each
    conversion. However often it is called on operands of the same descriptors, no call allocates
    another one, exactly if their sizes can be served, in order, by buffers of just these sizes; or
    if the operands cannot be converted, and so are never staged. Otherwise the first call of either
    kind allocates. The sizes can be served if from the second one on they do not grow. -/
theorem allocates_no_more_iff {k : Kernel α σ} {attrs : α} {target : Descriptors}
    {memory : Bindings} {w w₁ : World σ} {a : Adapter σ} (hfresh : w.scratch = {})
    (hbuild : Adapter.build k attrs memory.descriptors target memory w = (.ok a, w₁))
    {sizes : List Nat} (hbytes : a.conversions.HaveBytes sizes)
    (hroom : sizes.length ≤ Scratch.poolLimit) :
    w₁.scratch.allocations = sizes.length ∧
    ((∀ calls : List (Call σ), (∀ c ∈ calls, c.KeepsTo memory.descriptors) →
        (after (a, w₁) calls).2.scratch.allocations = sizes.length) ↔
      (memory.descriptors.convertsTo a.conversions = true → Scratch.sustains sizes = true)) ∧
    (memory.descriptors.convertsTo a.conversions = true → Scratch.sustains sizes = false →
      ∀ memory' : Bindings, memory'.descriptors = memory.descriptors →
        sizes.length < (a.update memory' w₁).2.2.scratch.allocations ∧
          sizes.length < (a.execute memory' w₁).2.scratch.allocations) ∧
    (sizes.tail.Pairwise (· ≥ ·) → Scratch.sustains sizes = true) := by
  have hrequests := requests_of_build hbuild hbytes
  have hstocked : w₁.Stocked sizes := by
    obtain ⟨inner, rfl⟩ := exists_around_of_build hbuild
    obtain ⟨body, hbody, hstaged⟩ := build_eq_withStaged k attrs hbytes.allocatable memory
    have hw₁ : (w.withStaged memory (target.differingFrom memory.descriptors) body).2 = w₁ := by
      rw [← hstaged, hbuild]
    rw [← hw₁]
    exact World.stocked_withStaged hfresh (fun p d => bound_of_differingFrom) hbytes hroom hbody
  refine ⟨hstocked.allocations, ⟨fun hcalls hconv => ?_, fun hsustains calls hcalls => ?_⟩,
    fun hconv hsustains memory' hmemory' => ?_, Scratch.sustains_of_pairwise_tail⟩
  · cases hsustains : Scratch.sustains sizes with
    | true => rfl
    | false =>
      have hmore := (hrequests.lt_allocations hconv hsustains hstocked).1
      have hsame := hcalls [.update memory] fun c hc => by
        rw [List.mem_singleton.1 hc]
        rfl
      exact absurd (Nat.lt_of_lt_of_eq hmore hsame) (Nat.lt_irrefl _)
  · exact (hrequests.stocked_after hroom hsustains hstocked hcalls).allocations
  · rw [← hmemory'] at hrequests hconv
    exact hrequests.lt_allocations hconv hsustains hstocked

/-! ## Products in blocks -/

/-- Two factors and room for their product, in blocks of four columns. -/
def blockedProduct (rows inner columns : Nat) : Bindings :=
  .ofList [(.source 0, ⟨⟨.f32, .ofSizes [rows, inner], .blocked 4⟩, 0⟩),
    (.weights, ⟨⟨.f32, .ofSizes [inner, columns], .blocked 4⟩, 1⟩),
    (.destination 0, ⟨⟨.f32, .ofSizes [rows, columns], .blocked 4⟩, 2⟩)]

/-- The planar descriptors that the reference kernel asks for. -/
def planarProduct (rows inner columns : Nat) : Descriptors :=
  .ofList [(.source 0, ⟨.f32, .ofSizes [rows, inner], .planar⟩),
    (.weights, ⟨.f32, .ofSizes [inner, columns], .planar⟩),
    (.destination 0, ⟨.f32, .ofSizes [rows, columns], .planar⟩)]

/-- Three buffers of eight elements, and a fresh pool. -/
def freshWorld : World Unit where
  store := ⟨#[Bytes.zeros 32, Bytes.zeros 32, Bytes.zeros 32]⟩
  ambient := ()
  scratch := {}

/-- The converted operands take eight, eight and four bytes, which do not grow from the second on. -/
theorem row_times_column_allocates_once :
    ∃ a w₁, Adapter.build (MatMul.referenceKernel .single) ⟨false⟩
        (blockedProduct 1 2 1).descriptors (planarProduct 1 2 1) (blockedProduct 1 2 1) freshWorld =
          (.ok a, w₁) ∧
      freshWorld.scratch = {} ∧ a.conversions.HaveBytes [8, 8, 4] ∧ 3 ≤ Scratch.poolLimit ∧
      ∀ calls : List (Call Unit),
        (∀ c ∈ calls, c.KeepsTo (blockedProduct 1 2 1).descriptors) →
          (after (a, w₁) calls).2.scratch.allocations = 3 := by
  obtain ⟨a, w₁, hbuild, hbytes⟩ : ∃ a w₁, Adapter.build (MatMul.referenceKernel .single) ⟨false⟩
      (blockedProduct 1 2 1).descriptors (planarProduct 1 2 1) (blockedProduct 1 2 1) freshWorld =
        (.ok a, w₁) ∧ a.conversions.HaveBytes [8, 8, 4] := ⟨_, _, rfl, rfl⟩
  obtain ⟨-, hiff, -, hsustains⟩ := allocates_no_more_iff rfl hbuild hbytes (by decide)
  exact ⟨a, w₁, hbuild, rfl, hbytes, by decide, hiff.2 fun _ => hsustains (by decide)⟩

/-- The converted operands take eight, four and eight bytes. When they are staged again, the buffer of
    the destination goes to the weights, and another one has to be allocated. -/
theorem column_times_scalar_allocates_again :
    ∃ a w₁, Adapter.build (MatMul.referenceKernel .single) ⟨false⟩
        (blockedProduct 2 1 1).descriptors (planarProduct 2 1 1) (blockedProduct 2 1 1) freshWorld =
          (.ok a, w₁) ∧
      freshWorld.scratch = {} ∧ a.conversions.HaveBytes [8, 4, 8] ∧
      w₁.scratch.allocations = 3 ∧
      (a.update (blockedProduct 2 1 1) w₁).1 = .ok true ∧
      (a.update (blockedProduct 2 1 1) w₁).2.2.scratch.allocations = 4 :=
  ⟨_, _, rfl, rfl, rfl, rfl, rfl, rfl⟩

end Adapter

end KernelDispatch
