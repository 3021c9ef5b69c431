import KernelDispatch.Proofs.Memory.Ownership
import Mathlib.Algebra.GroupWithZero.Nat

/-
  Rounds of requests on a pool that recycles. A round requests memories of some sizes, one after the
  other, and gives all of them back. If a round finds a buffer in the pool for each request, and the
  pool has as many buffers as there are requests and they have the requested sizes, then each request
  is served by a buffer of just its size (`capacities_of_serve?`), however the pool was shuffled on
  the way: the buffers are large enough, and together they are no larger than the requests. So the
  pool is after the round what it was before, up to cells, and all further rounds go the same way
  (`World.Stocked.withStaged`). If a request finds no buffer, the round allocates
  (`World.Stocked.lt_withStaged`).
-/

namespace KernelDispatch

/-- The buffer of a lent memory. -/
def Loan.buffer (loan : Loan) : Buffer := ⟨loan.memory.cell, loan.capacity⟩

namespace Scratch

/-! ## Rounds -/

/-- Serves requests one after the other from the pool alone: the buffers, in the order of the
    requests, and what stays in the pool. Absent as soon as no buffer is large enough. -/
def serve? : List Buffer → List Nat → Option (List Buffer × List Buffer)
  | pool, [] => some ([], pool)
  | pool, size :: sizes =>
    (fitting? pool size).bind fun (b, pool) =>
      (serve? pool sizes).map fun (bs, pool) => (b :: bs, pool)

/-- Whether requests of these sizes can be served from buffers of just these sizes that were pooled
    in this order. -/
def sustains (sizes : List Nat) : Bool :=
  (serve? (sizes.map (Buffer.mk 0)) sizes).isSome

theorem serve?_cons_eq_some {pool : List Buffer} {size : Nat} {sizes : List Nat}
    {bs rest : List Buffer} : serve? pool (size :: sizes) = some (bs, rest) ↔
      ∃ b pool' bs', fitting? pool size = some (b, pool') ∧
        serve? pool' sizes = some (bs', rest) ∧ bs = b :: bs' := by
  simp only [serve?, Option.bind_eq_some_iff, Option.map_eq_some_iff, Prod.exists, Prod.mk.injEq]
  constructor
  · rintro ⟨b, pool', hfit, bs', _, hserve, rfl, rfl⟩
    exact ⟨b, pool', bs', hfit, hserve, rfl⟩
  · rintro ⟨b, pool', bs', hfit, hserve, rfl⟩
    exact ⟨b, pool', hfit, bs', rest, hserve, rfl, rfl⟩

variable {pool bs rest : List Buffer} {sizes : List Nat}

/-- What serves and what stays is what there was. -/
theorem serve?_perm (h : serve? pool sizes = some (bs, rest)) : (bs ++ rest).Perm pool := by
  induction sizes generalizing pool bs with
  | nil =>
    cases h
    exact .refl _
  | cons size sizes ih =>
    obtain ⟨b, pool', bs', hfit, hserve, rfl⟩ := serve?_cons_eq_some.1 h
    exact ((ih hserve).cons b).trans (fitting?_perm hfit)

theorem length_of_serve? (h : serve? pool sizes = some (bs, rest)) : bs.length = sizes.length := by
  induction sizes generalizing pool bs with
  | nil =>
    cases h
    rfl
  | cons size sizes ih =>
    obtain ⟨b, pool', bs', -, hserve, rfl⟩ := serve?_cons_eq_some.1 h
    exact congrArg (· + 1) (ih hserve)

theorem sum_le_of_serve? (h : serve? pool sizes = some (bs, rest)) :
    sizes.sum ≤ (bs.map Buffer.capacity).sum := by
  induction sizes generalizing pool bs with
  | nil => exact Nat.zero_le _
  | cons size sizes ih =>
    obtain ⟨b, pool', bs', hfit, hserve, rfl⟩ := serve?_cons_eq_some.1 h
    rw [List.map_cons, List.sum_cons, List.sum_cons]
    exact Nat.add_le_add (le_capacity_of_fitting? hfit) (ih hserve)

/-- Buffers that are together no larger than the requests have just the requested sizes. -/
theorem capacities_eq_of_sum_le (h : serve? pool sizes = some (bs, rest))
    (hsum : (bs.map Buffer.capacity).sum ≤ sizes.sum) : bs.map Buffer.capacity = sizes := by
  induction sizes generalizing pool bs with
  | nil =>
    cases h
    rfl
  | cons size sizes ih =>
    obtain ⟨b, pool', bs', hfit, hserve, rfl⟩ := serve?_cons_eq_some.1 h
    rw [List.map_cons, List.sum_cons, List.sum_cons] at hsum
    have hfirst := le_capacity_of_fitting? hfit
    have hothers := sum_le_of_serve? hserve
    rw [List.map_cons, ih hserve (by omega)]
    exact congrArg (· :: sizes) (by omega)

/-- A pool of buffers of the requested sizes that serves all requests is emptied, and serves each
    request with a buffer of just its size. -/
theorem capacities_of_serve? (hpool : pool.map Buffer.capacity = sizes)
    (h : serve? pool sizes = some (bs, rest)) : rest = [] ∧ bs.map Buffer.capacity = sizes := by
  have hperm := serve?_perm h
  have hrest : rest = [] := by
    have hlength := hperm.length_eq
    rw [List.length_append, length_of_serve? h, ← hpool, List.length_map] at hlength
    exact List.eq_nil_of_length_eq_zero (by omega)
  refine ⟨hrest, capacities_eq_of_sum_le h (Nat.le_of_eq ?_)⟩
  rw [hrest, List.append_nil] at hperm
  rw [(hperm.map Buffer.capacity).sum_nat, hpool]

/-! ## What the capacities decide -/

/-- Which buffer is taken does not depend on the cells. -/
theorem fitting?_map {f : Buffer → Buffer} (hf : ∀ b, (f b).capacity = b.capacity)
    (pool : List Buffer) (size : Nat) : fitting? (pool.map f) size =
      (fitting? pool size).map fun found => (f found.1, found.2.map f) := by
  have htake : ∀ i, takeOut (pool.map f) i = (takeOut pool i).map f := by
    intro i
    unfold takeOut
    rw [List.getLast?_map]
    cases pool.getLast? with
    | none => rfl
    | some last => simp only [Option.map_some, List.map_dropLast, List.map_set]
  have hfind : (pool.map f).findIdx? (fun b => decide (size ≤ b.capacity)) =
      pool.findIdx? fun b => decide (size ≤ b.capacity) := by
    rw [List.findIdx?_map]
    exact congrArg (pool.findIdx? ·) (funext fun b => by rw [Function.comp, hf])
  unfold fitting?
  rw [hfind]
  cases pool.findIdx? fun b => decide (size ≤ b.capacity) with
  | none => rfl
  | some i =>
    simp only [bind, Option.bind_some, List.getElem?_map, htake]
    cases pool[i]? <;> rfl

theorem serve?_map {f : Buffer → Buffer} (hf : ∀ b, (f b).capacity = b.capacity)
    (pool : List Buffer) (sizes : List Nat) : serve? (pool.map f) sizes =
      (serve? pool sizes).map fun served => (served.1.map f, served.2.map f) := by
  induction sizes generalizing pool with
  | nil => rfl
  | cons size sizes ih =>
    rw [serve?, serve?, fitting?_map hf]
    cases fitting? pool size with
    | none => rfl
    | some found =>
      simp only [Option.map_some, Option.bind_some, ih, Option.map_map]
      rfl

/-- Whether a round allocates is decided by the capacities in the pool. -/
theorem isSome_serve?_eq_sustains (hpool : pool.map Buffer.capacity = sizes) :
    (serve? pool sizes).isSome = sustains sizes := by
  have hbare : sizes.map (Buffer.mk 0) = pool.map fun b => ⟨0, b.capacity⟩ := by
    rw [← hpool, List.map_map]
    rfl
  rw [sustains, hbare, serve?_map (f := fun b => ⟨0, b.capacity⟩) fun _ => rfl, Option.isSome_map]

/-! ## Sizes that are sustained -/

/-- Requests that do not grow take buffers of their sizes, whatever the order of the pool is. -/
theorem exists_serve?_of_perm (hperm : (pool.map Buffer.capacity).Perm sizes)
    (hsizes : sizes.Pairwise (· ≥ ·)) : ∃ served, serve? pool sizes = some served := by
  induction sizes generalizing pool with
  | nil => exact ⟨_, rfl⟩
  | cons size sizes ih =>
    obtain ⟨hle, htail⟩ := List.pairwise_cons.1 hsizes
    cases hfit : fitting? pool size with
    | none =>
      obtain ⟨b, hb, hcapacity⟩ := List.mem_map.1 (hperm.symm.subset List.mem_cons_self)
      have hsmall := capacity_lt_of_fitting? hfit b hb
      exact absurd hcapacity (Nat.ne_of_lt hsmall)
    | some found =>
      obtain ⟨b, pool'⟩ := found
      have htaken := (fitting?_perm hfit).map Buffer.capacity
      -- the largest request left takes one of the largest buffers left
      have hcapacity : b.capacity = size := by
        refine Nat.le_antisymm ?_ (le_capacity_of_fitting? hfit)
        rcases List.mem_cons.1 ((htaken.trans hperm).subset List.mem_cons_self) with heq | hmem
        · exact Nat.le_of_eq heq
        · exact hle _ hmem
      rw [List.map_cons, hcapacity] at htaken
      obtain ⟨served, hserved⟩ := ih ((htaken.trans hperm).cons_inv) htail
      exact ⟨_, serve?_cons_eq_some.2 ⟨b, pool', _, hfit, hserved, rfl⟩⟩

/-- The first request takes the first buffer. If the others do not grow, all are served. -/
theorem sustains_of_pairwise_tail (h : sizes.tail.Pairwise (· ≥ ·)) : sustains sizes = true := by
  cases sizes with
  | nil => rfl
  | cons size sizes =>
    have hfit : fitting? (⟨0, size⟩ :: sizes.map (Buffer.mk 0)) size =
        some (⟨0, size⟩, takeOut (⟨0, size⟩ :: sizes.map (Buffer.mk 0)) 0) := by
      simp [fitting?, List.findIdx?_cons]
    have hperm : ((takeOut (⟨0, size⟩ :: sizes.map (Buffer.mk 0)) 0).map
        Buffer.capacity).Perm sizes := by
      have hcapacities : (sizes.map (Buffer.mk 0)).map Buffer.capacity = sizes := by
        simp [Function.comp_def]
      have htaken := ((fitting?_perm hfit).cons_inv).map Buffer.capacity
      rwa [hcapacities] at htaken
    obtain ⟨served, hserved⟩ := exists_serve?_of_perm hperm h
    rw [sustains, List.map_cons, serve?_cons_eq_some.2 ⟨_, _, _, hfit, hserved, rfl⟩]
    rfl

/-- Of three buffers the last moves to the front, where the second request takes it. What is left is
    too small for the third. -/
example : sustains [8, 4, 8] = false := by decide

/-! ## Changes of a pool -/

/-- The pool is a given one now, and so many buffers were allocated on the way. -/
structure Becomes (sc : Scratch) (pool : List Buffer) (allocated : Nat) (sc' : Scratch) : Prop where
  policy_eq : sc'.policy = sc.policy
  pool_eq : sc'.pool = pool
  allocations_eq : sc'.allocations = sc.allocations + allocated

variable {sc sc' sc'' : Scratch} {pool' : List Buffer} {m n : Nat}

theorem Becomes.refl (sc : Scratch) : sc.Becomes sc.pool 0 sc := ⟨rfl, rfl, rfl⟩

theorem Becomes.trans (h : sc.Becomes pool m sc') (h' : sc'.Becomes pool' n sc'') :
    sc.Becomes pool' (m + n) sc'' :=
  ⟨h'.policy_eq.trans h.policy_eq, h'.pool_eq, by
    rw [h'.allocations_eq, h.allocations_eq, Nat.add_assoc]⟩

/-- With room for all of them, the buffers of returned memories join the pool in order. -/
theorem becomes_releaseAll (hpolicy : sc.policy = .recycle) {loans : List Loan}
    (hroom : sc.pool.length + loans.length ≤ poolLimit) :
    sc.Becomes (sc.pool ++ loans.map Loan.buffer) 0 (sc.releaseAll loans) := by
  induction loans generalizing sc with
  | nil =>
    rw [List.map_nil, List.append_nil]
    exact .refl sc
  | cons loan loans ih =>
    rw [List.length_cons] at hroom
    have hjoins : sc.release loan false = { sc with pool := sc.pool ++ [loan.buffer] } := by
      rcases sc.release_cases loan false with ⟨hgone, -⟩ | ⟨-, -, -, hjoins⟩
      · rcases hgone with hrelease | hshared | hfull
        · rw [hpolicy] at hrelease
          cases hrelease
        · cases hshared
        · omega
      · exact hjoins
    have hpolicy' : (sc.release loan false).policy = .recycle := by
      rw [hjoins]
      exact hpolicy
    have hroom' : (sc.release loan false).pool.length + loans.length ≤ poolLimit := by
      simp only [hjoins, List.length_append, List.length_singleton]
      omega
    have hrest := ih hpolicy' hroom'
    refine ⟨hrest.policy_eq.trans (by rw [hjoins]), hrest.pool_eq.trans ?_,
      hrest.allocations_eq.trans (by rw [hjoins])⟩
    rw [hjoins, List.map_cons, List.append_assoc]
    rfl

theorem allocations_releaseAll (sc : Scratch) (loans : List Loan) :
    (sc.releaseAll loans).allocations = sc.allocations := by
  induction loans generalizing sc with
  | nil => rfl
  | cons loan loans ih =>
    refine (ih (sc.release loan false)).trans ?_
    rcases sc.release_cases loan false with ⟨-, hsame⟩ | ⟨-, -, -, hjoins⟩
    · rw [hsame]
    · rw [hjoins]

end Scratch

namespace World

variable {σ β : Type}

/-! ## Staging -/

theorem lend_of_fitting {w : World σ} {d : Descriptor} {n : Nat} (hn : d.requiredBytes = .ok n)
    {b : Buffer} {pool : List Buffer} (hfit : Scratch.fitting? w.scratch.pool n = some (b, pool)) :
    ∃ loan w', w.lend d = .ok (loan, w') ∧ loan.buffer = b ∧
      w.scratch.Becomes pool 0 w'.scratch :=
  ⟨⟨⟨d, b.cell⟩, b.capacity⟩,
    { w with
      scratch := { w.scratch with pool, reuses := w.scratch.reuses + 1 }
      store := w.store.put b.cell (Bytes.zeros n) },
    by simp only [lend, Scratch.acquire, hn, hfit], rfl, rfl, rfl, rfl⟩

theorem lend_of_not_fitting {w : World σ} {d : Descriptor} {n : Nat}
    (hn : d.requiredBytes = .ok n) (hfit : Scratch.fitting? w.scratch.pool n = none) :
    ∃ loan w', w.lend d = .ok (loan, w') ∧ loan.capacity = n ∧
      w.scratch.Becomes w.scratch.pool 1 w'.scratch :=
  ⟨⟨⟨d, w.store.cells.size⟩, n⟩,
    { w with
      scratch := { w.scratch with allocations := w.scratch.allocations + 1 }
      store := (w.store.push (Bytes.zeros n)).2 },
    by simp only [lend, Scratch.acquire, hn, hfit]; rfl, rfl, rfl, rfl, rfl⟩

section

variable {memory : Bindings} {es : List (Operand × Descriptor)} {sizes : List Nat}

/-- If the pool serves all requests, staging leaves what stays in it and allocates nothing. -/
theorem stageFrom_of_serve? (hbound : ∀ e ∈ es, ∃ m, memory.get? e.1 = some m)
    (hsizes : es.map (fun e => e.2.requiredBytes) = sizes.map .ok) {w : World σ}
    {bs rest : List Buffer} (hserve : Scratch.serve? w.scratch.pool sizes = some (bs, rest))
    (staged : Bindings) (loans : List Loan) :
    ∃ staged' loans' w', stageFrom memory es staged loans w = (.ok staged', loans ++ loans', w') ∧
      loans'.map Loan.buffer = bs ∧ w.scratch.Becomes rest 0 w'.scratch := by
  induction es generalizing sizes staged loans w bs with
  | nil =>
    obtain rfl := List.map_eq_nil_iff.1 hsizes.symm
    cases hserve
    exact ⟨staged, [], w, by rw [stageFrom, List.append_nil], rfl, .refl _⟩
  | cons e es ih =>
    obtain ⟨p, d⟩ := e
    obtain ⟨⟨m, hm⟩, hbound⟩ := List.forall_mem_cons.1 hbound
    obtain ⟨n, sizes, rfl, hn, hsizes⟩ := List.map_eq_cons_iff.1 hsizes.symm
    obtain ⟨b, pool, bs', hfit, hserve', rfl⟩ := Scratch.serve?_cons_eq_some.1 hserve
    obtain ⟨loan, w₁, hlend, hbuffer, hfirst⟩ := lend_of_fitting hn.symm hfit
    rw [← hfirst.pool_eq] at hserve'
    obtain ⟨staged', loans', w', hstage, hbuffers, hrest⟩ :=
      ih hbound hsizes.symm hserve' (staged.insert p loan.memory) (loans ++ [loan])
    refine ⟨staged', loan :: loans', w', ?_, ?_, hfirst.trans hrest⟩
    · simp only [stageFrom, (memory.require_eq_ok_iff p m).2 hm, hlend, hstage,
        List.append_assoc, List.singleton_append]
    · rw [List.map_cons, hbuffer, hbuffers]

/-- With nothing in the pool, staging allocates a buffer of the requested size for each entry. -/
theorem stageFrom_of_empty (hbound : ∀ e ∈ es, ∃ m, memory.get? e.1 = some m)
    (hsizes : es.map (fun e => e.2.requiredBytes) = sizes.map .ok) {w : World σ}
    (hpool : w.scratch.pool = []) (staged : Bindings) (loans : List Loan) :
    ∃ staged' loans' w', stageFrom memory es staged loans w = (.ok staged', loans ++ loans', w') ∧
      loans'.map Loan.capacity = sizes ∧ w.scratch.Becomes [] sizes.length w'.scratch := by
  induction es generalizing sizes staged loans w with
  | nil =>
    obtain rfl := List.map_eq_nil_iff.1 hsizes.symm
    exact ⟨staged, [], w, by rw [stageFrom, List.append_nil], rfl, rfl, hpool, rfl⟩
  | cons e es ih =>
    obtain ⟨p, d⟩ := e
    obtain ⟨⟨m, hm⟩, hbound⟩ := List.forall_mem_cons.1 hbound
    obtain ⟨n, sizes, rfl, hn, hsizes⟩ := List.map_eq_cons_iff.1 hsizes.symm
    have hfit : Scratch.fitting? w.scratch.pool n = none := by
      rw [hpool]
      rfl
    obtain ⟨loan, w₁, hlend, hcapacity, hfirst⟩ := lend_of_not_fitting hn.symm hfit
    obtain ⟨staged', loans', w', hstage, hcapacities, hrest⟩ :=
      ih hbound hsizes.symm (hfirst.pool_eq.trans hpool) (staged.insert p loan.memory)
        (loans ++ [loan])
    refine ⟨staged', loan :: loans', w', ?_, ?_, ?_⟩
    · simp only [stageFrom, (memory.require_eq_ok_iff p m).2 hm, hlend, hstage,
        List.append_assoc, List.singleton_append]
    · rw [List.map_cons, hcapacity, hcapacities]
    · rw [List.length_cons, Nat.add_comm]
      exact hfirst.trans hrest

theorem allocations_le_lend {w w' : World σ} {d : Descriptor} {loan : Loan}
    (h : w.lend d = .ok (loan, w')) : w.scratch.allocations ≤ w'.scratch.allocations := by
  unfold lend at h
  split at h
  · rename_i hacquire
    cases h
    obtain ⟨n, -, hserved | hserved⟩ := Scratch.acquire_serves hacquire
    · exact Nat.le_of_eq hserved.allocations_eq.symm
    · exact Nat.le_trans (Nat.le_succ _) (Nat.le_of_eq hserved.allocations_eq.symm)
  · cases h

theorem allocations_le_stageFrom (memory : Bindings) (es : List (Operand × Descriptor))
    (staged : Bindings) (loans : List Loan) (w : World σ) :
    w.scratch.allocations ≤ (stageFrom memory es staged loans w).2.2.scratch.allocations := by
  induction es generalizing staged loans w with
  | nil => exact Nat.le_refl _
  | cons e es ih =>
    obtain ⟨p, d⟩ := e
    rw [stageFrom]
    cases memory.require p with
    | error e => exact Nat.le_refl _
    | ok m =>
      dsimp only
      cases hlend : w.lend d with
      | error e => exact Nat.le_refl _
      | ok found => exact Nat.le_trans (allocations_le_lend hlend) (ih _ _ _)

/-- If some request finds no buffer, staging allocates. -/
theorem lt_allocations_stageFrom (hbound : ∀ e ∈ es, ∃ m, memory.get? e.1 = some m)
    (hsizes : es.map (fun e => e.2.requiredBytes) = sizes.map .ok) {w : World σ}
    (hserve : Scratch.serve? w.scratch.pool sizes = none) (staged : Bindings) (loans : List Loan) :
    w.scratch.allocations < (stageFrom memory es staged loans w).2.2.scratch.allocations := by
  induction es generalizing sizes staged loans w with
  | nil =>
    obtain rfl := List.map_eq_nil_iff.1 hsizes.symm
    cases hserve
  | cons e es ih =>
    obtain ⟨p, d⟩ := e
    obtain ⟨⟨m, hm⟩, hbound⟩ := List.forall_mem_cons.1 hbound
    obtain ⟨n, sizes, rfl, hn, hsizes⟩ := List.map_eq_cons_iff.1 hsizes.symm
    rw [stageFrom, (memory.require_eq_ok_iff p m).2 hm]
    dsimp only
    cases hfit : Scratch.fitting? w.scratch.pool n with
    | none =>
      obtain ⟨loan, w₁, hlend, -, hfirst⟩ := lend_of_not_fitting hn.symm hfit
      rw [hlend]
      refine Nat.lt_of_lt_of_le ?_ (allocations_le_stageFrom _ _ _ _ _)
      rw [hfirst.allocations_eq]
      exact Nat.lt_succ_self _
    | some found =>
      obtain ⟨b, pool⟩ := found
      obtain ⟨loan, w₁, hlend, -, hfirst⟩ := lend_of_fitting hn.symm hfit
      have hserve' : Scratch.serve? w₁.scratch.pool sizes = none := by
        rw [hfirst.pool_eq]
        simpa [Scratch.serve?, hfit] using hserve
      have hrest := ih hbound hsizes.symm hserve' (staged.insert p loan.memory) (loans ++ [loan])
      rw [hfirst.allocations_eq] at hrest
      rw [hlend]
      exact hrest

end

/-! ## Steps on staged operands -/

/-- The pool recycles and has one buffer for each of the sizes, in their order, and no others have
    ever been allocated. -/
structure Stocked (sizes : List Nat) (w : World σ) : Prop where
  policy : w.scratch.policy = .recycle
  pool : w.scratch.pool.map Buffer.capacity = sizes
  allocations : w.scratch.allocations = sizes.length

variable {memory : Bindings} {wanted : Descriptors} {sizes : List Nat}
  {body : Bindings → World σ → Except Error β × World σ}

/-- What a step on staged operands leaves if the pool is empty while they are staged, and the step
    itself leaves the pool alone. -/
theorem stocked_of_stageFrom {w w₁ : World σ} {staged : Bindings} {loans : List Loan}
    (hstage : stageFrom memory wanted.entries memory [] w = (.ok staged, loans, w₁))
    (hbody : ∀ staged w, (body staged w).2.scratch = w.scratch)
    (hroom : sizes.length ≤ Scratch.poolLimit) (hpolicy : w₁.scratch.policy = .recycle)
    (hempty : w₁.scratch.pool = []) (hcapacities : loans.map Loan.capacity = sizes)
    (hallocations : w₁.scratch.allocations = sizes.length) :
    (w.withStaged memory wanted body).2.Stocked sizes := by
  have hend : (w.withStaged memory wanted body).2.scratch = w₁.scratch.releaseAll loans := by
    simp only [withStaged, hstage]
    rw [← hbody staged w₁]
    rfl
  have hfits : w₁.scratch.pool.length + loans.length ≤ Scratch.poolLimit := by
    rw [hempty, ← List.length_map Loan.capacity, hcapacities]
    exact Nat.le_trans (Nat.le_of_eq (Nat.zero_add _)) hroom
  have hreturned := Scratch.becomes_releaseAll hpolicy hfits
  rw [hempty, List.nil_append] at hreturned
  refine ⟨?_, ?_, ?_⟩
  · rw [hend, hreturned.policy_eq, hpolicy]
  · rw [hend, hreturned.pool_eq, List.map_map]
    exact hcapacities
  · rw [hend, hreturned.allocations_eq]
    exact hallocations

/-- The first step on staged operands stocks a fresh pool. -/
theorem stocked_withStaged {w : World σ} (hfresh : w.scratch = {})
    (hbound : ∀ p d, wanted.get? p = some d → ∃ m, memory.get? p = some m)
    (hsizes : wanted.entries.map (fun e => e.2.requiredBytes) = sizes.map .ok)
    (hroom : sizes.length ≤ Scratch.poolLimit)
    (hbody : ∀ staged w, (body staged w).2.scratch = w.scratch) :
    (w.withStaged memory wanted body).2.Stocked sizes := by
  obtain ⟨staged, loans, w₁, hstage, hcapacities, hstaged⟩ := stageFrom_of_empty
    (fun e he => hbound e.1 e.2 ((wanted.get?_eq_some_iff).2 he)) hsizes (w := w)
    (by rw [hfresh]) memory []
  rw [List.nil_append] at hstage
  rw [hfresh] at hstaged
  refine stocked_of_stageFrom hstage hbody hroom hstaged.policy_eq hstaged.pool_eq hcapacities ?_
  rw [hstaged.allocations_eq]
  exact Nat.zero_add _

/-- Sizes that are sustained leave a stocked pool as it was, up to cells. -/
theorem Stocked.withStaged {w : World σ} (h : w.Stocked sizes)
    (hbound : ∀ p d, wanted.get? p = some d → ∃ m, memory.get? p = some m)
    (hsizes : wanted.entries.map (fun e => e.2.requiredBytes) = sizes.map .ok)
    (hroom : sizes.length ≤ Scratch.poolLimit) (hsustains : Scratch.sustains sizes = true)
    (hbody : ∀ staged w, (body staged w).2.scratch = w.scratch) :
    (w.withStaged memory wanted body).2.Stocked sizes := by
  rw [← Scratch.isSome_serve?_eq_sustains h.pool] at hsustains
  obtain ⟨⟨bs, rest⟩, hserve⟩ := Option.isSome_iff_exists.1 hsustains
  obtain ⟨rfl, hcapacities⟩ := Scratch.capacities_of_serve? h.pool hserve
  obtain ⟨staged, loans, w₁, hstage, rfl, hstaged⟩ := stageFrom_of_serve?
    (fun e he => hbound e.1 e.2 ((wanted.get?_eq_some_iff).2 he)) hsizes hserve memory []
  rw [List.nil_append] at hstage
  rw [List.map_map] at hcapacities
  exact stocked_of_stageFrom hstage hbody hroom (hstaged.policy_eq.trans h.policy)
    hstaged.pool_eq hcapacities (hstaged.allocations_eq.trans h.allocations)

/-- Sizes that are not sustained make the next step on staged operands allocate. -/
theorem Stocked.lt_withStaged {w : World σ} (h : w.Stocked sizes)
    (hbound : ∀ p d, wanted.get? p = some d → ∃ m, memory.get? p = some m)
    (hsizes : wanted.entries.map (fun e => e.2.requiredBytes) = sizes.map .ok)
    (hsustains : Scratch.sustains sizes = false)
    (hbody : ∀ staged w, (body staged w).2.scratch = w.scratch) :
    sizes.length < (w.withStaged memory wanted body).2.scratch.allocations := by
  rw [← Scratch.isSome_serve?_eq_sustains h.pool, Option.isSome_eq_false_iff,
    Option.isNone_iff_eq_none] at hsustains
  have hmore := lt_allocations_stageFrom
    (fun e he => hbound e.1 e.2 ((wanted.get?_eq_some_iff).2 he)) hsizes hsustains memory []
  rw [h.allocations] at hmore
  unfold World.withStaged
  rcases hstage : stageFrom memory wanted.entries memory [] w with ⟨_ | staged, loans, w₁⟩ <;>
    rw [hstage] at hmore
  · exact Nat.lt_of_lt_of_eq hmore (Scratch.allocations_releaseAll _ _).symm
  · refine Nat.lt_of_lt_of_eq hmore ?_
    show _ = ((body staged w₁).2.scratch.releaseAll loans).allocations
    rw [Scratch.allocations_releaseAll, hbody]

end World

end KernelDispatch
