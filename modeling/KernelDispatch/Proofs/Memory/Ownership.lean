import KernelDispatch.Proofs.Staging

/-
  Who holds a cell. A request is served by a buffer from the scratch pool or, if none is large
  enough, by a new one (`Scratch.acquire_serves`), and a buffer that is returned joins the pool or
  is let go of (`Scratch.release_cases`). A cell that exists is held by somebody or lies in the pool
  (`World.Held`). Lending hands out a cell that nobody held, with zeros in it, and leaves what is
  held alone (`lend_lends`); so do the staging of operands (`stageFrom_stages`) and the return of
  loans (`giveBack_held`), whatever the pool contains and whatever becomes of returned buffers.
-/

namespace KernelDispatch

/-! ## The pool -/

namespace Scratch

theorem set_perm {init : List Buffer} {i : Nat} (hi : i < init.length) (last : Buffer) :
    (init[i] :: init.set i last).Perm (last :: init) := by
  have hsplit : init = init.take i ++ init[i] :: init.drop (i + 1) := by
    rw [List.getElem_cons_drop, List.take_append_drop]
  have hset : init.set i last = init.take i ++ last :: init.drop (i + 1) := by
    rw [List.set_eq_take_append_cons_drop, if_pos hi]
  have hmiddle : (last :: (init.take i ++ init[i] :: init.drop (i + 1))).Perm
      (last :: init[i] :: (init.take i ++ init.drop (i + 1))) := List.perm_middle.cons last
  rw [hset]
  refine (List.perm_middle.cons init[i]).trans ?_
  refine (List.Perm.swap last init[i] _).trans ?_
  rw [← hsplit] at hmiddle
  exact hmiddle.symm

/-- Taking a buffer out leaves all others. -/
theorem takeOut_perm {pool : List Buffer} {i : Nat} {b : Buffer} (h : pool[i]? = some b) :
    (b :: takeOut pool i).Perm pool := by
  obtain ⟨hi, rfl⟩ := List.getElem?_eq_some_iff.1 h
  rcases List.eq_nil_or_concat pool with rfl | ⟨init, last, hpool⟩
  · cases h
  · rw [List.concat_eq_append] at hpool
    subst hpool
    unfold takeOut
    rw [List.getLast?_concat]
    dsimp only
    rw [List.length_append, List.length_singleton] at hi
    by_cases hlt : i < init.length
    · rw [List.set_append_left _ _ hlt, List.dropLast_concat, List.getElem_append_left hlt]
      exact (set_perm hlt last).trans (List.perm_append_singleton last init).symm
    · have heq : i = init.length := by omega
      subst heq
      have hset : (init ++ [last]).set init.length last = init ++ [last] := by
        rw [List.set_append_right _ _ (Nat.le_refl _), Nat.sub_self]
        rfl
      rw [hset, List.dropLast_concat, List.getElem_concat_length rfl]
      exact (List.perm_append_singleton last init).symm

theorem fitting?_perm {pool pool' : List Buffer} {size : Nat} {b : Buffer}
    (h : fitting? pool size = some (b, pool')) : (b :: pool').Perm pool := by
  unfold fitting? at h
  simp only [bind, Option.bind_eq_some_iff, pure, Option.some.injEq, Prod.mk.injEq] at h
  obtain ⟨i, -, b', hb, rfl, rfl⟩ := h
  exact takeOut_perm hb

/-! ## One request, one return -/

variable {pool pool' : List Buffer} {size : Nat} {b : Buffer}

/-- The first buffer that is large enough is large enough. -/
theorem le_capacity_of_fitting? (h : fitting? pool size = some (b, pool')) :
    size ≤ b.capacity := by
  unfold fitting? at h
  simp only [bind, Option.bind_eq_some_iff, pure, Option.some.injEq, Prod.mk.injEq] at h
  obtain ⟨i, hi, b', hb, rfl, -⟩ := h
  obtain ⟨hlt, hroom, -⟩ := List.findIdx?_eq_some_iff_getElem.1 hi
  rw [List.getElem?_eq_getElem hlt, Option.some.injEq] at hb
  rw [← hb]
  simpa using hroom

/-- None is found only if none is large enough. -/
theorem capacity_lt_of_fitting? (h : fitting? pool size = none) :
    ∀ b ∈ pool, b.capacity < size := by
  unfold fitting? at h
  simp only [bind, Option.bind_eq_none_iff, pure, reduceCtorEq, imp_false] at h
  cases hi : pool.findIdx? fun b => decide (size ≤ b.capacity) with
  | none =>
    intro b hb
    have hsmall := List.findIdx?_eq_none_iff.1 hi b hb
    simpa using hsmall
  | some i =>
    obtain ⟨hlt, -⟩ := List.findIdx?_eq_some_iff_getElem.1 hi
    exact absurd (List.getElem?_eq_getElem hlt) (h i hi _)

variable {sc sc' : Scratch} {s s' : Store} {n : Nat} {loan : Loan}

/-- A buffer from the pool serves a request for `n` bytes. -/
structure Reuses (sc : Scratch) (s : Store) (n : Nat) (loan : Loan) (sc' : Scratch) (s' : Store) :
    Prop where
  room : n ≤ loan.capacity
  taken : (⟨loan.memory.cell, loan.capacity⟩ :: sc'.pool).Perm sc.pool
  store_eq : s' = s.put loan.memory.cell (Bytes.zeros n)
  policy_eq : sc'.policy = sc.policy
  allocations_eq : sc'.allocations = sc.allocations
  reuses_eq : sc'.reuses = sc.reuses + 1

/-- A new buffer serves a request for `n` bytes, because none in the pool is large enough. -/
structure Allocates (sc : Scratch) (s : Store) (n : Nat) (loan : Loan) (sc' : Scratch)
    (s' : Store) : Prop where
  tooSmall : ∀ b ∈ sc.pool, b.capacity < n
  capacity_eq : loan.capacity = n
  pool_eq : sc'.pool = sc.pool
  store_eq : s' = (s.push (Bytes.zeros n)).2
  policy_eq : sc'.policy = sc.policy
  allocations_eq : sc'.allocations = sc.allocations + 1
  reuses_eq : sc'.reuses = sc.reuses

/-- How a request that succeeds is served. -/
theorem acquire_serves {d : Descriptor} (h : sc.acquire s d = .ok (loan, sc', s')) :
    ∃ n, d.requiredBytes = .ok n ∧
      (sc.Reuses s n loan sc' s' ∨ sc.Allocates s n loan sc' s') := by
  unfold acquire at h
  split at h
  · cases h
  · rename_i n hn
    refine ⟨n, hn, ?_⟩
    split at h
    · rename_i b pool hfit
      cases h
      exact .inl ⟨le_capacity_of_fitting? hfit, fitting?_perm hfit, rfl, rfl, rfl, rfl⟩
    · rename_i hfit
      cases h
      exact .inr ⟨capacity_lt_of_fitting? hfit, rfl, rfl, rfl, rfl, rfl, rfl⟩

/-- The bytes of the buffers that stay in the pool are not touched. -/
theorem Reuses.bytes_eq (h : sc.Reuses s n loan sc' s')
    (hnodup : (sc.pool.map Buffer.cell).Nodup) {b : Buffer} (hb : b ∈ sc'.pool) :
    b ∈ sc.pool ∧ s'.bytes b.cell = s.bytes b.cell := by
  refine ⟨h.taken.subset (List.mem_cons_of_mem _ hb), ?_⟩
  have hcells := (h.taken.map Buffer.cell).nodup_iff.2 hnodup
  rw [List.map_cons, List.nodup_cons] at hcells
  rw [h.store_eq, Store.bytes_put, if_neg]
  exact fun heq => hcells.1 (List.mem_map.2 ⟨b, hb, heq.1.symm⟩)

theorem Allocates.bytes_eq (h : sc.Allocates s n loan sc' s')
    (hexist : ∀ b ∈ sc.pool, b.cell < s.cells.size) {b : Buffer} (hb : b ∈ sc'.pool) :
    b ∈ sc.pool ∧ s'.bytes b.cell = s.bytes b.cell := by
  rw [h.pool_eq] at hb
  rw [h.store_eq, Store.bytes_push, if_neg (Nat.ne_of_lt (hexist b hb))]
  exact ⟨hb, rfl⟩

/-- What is given back is let go of, because nothing is kept, the memory is shared or the pool is
    full, or else its buffer joins the pool. -/
theorem release_cases (sc : Scratch) (loan : Loan) (shared : Bool) :
    ((sc.policy = .release ∨ shared = true ∨ poolLimit ≤ sc.pool.length) ∧
        sc.release loan shared = sc) ∨
      (sc.policy = .recycle ∧ shared = false ∧ sc.pool.length < poolLimit ∧
        sc.release loan shared =
          { sc with pool := sc.pool ++ [⟨loan.memory.cell, loan.capacity⟩] }) := by
  unfold release
  cases sc.policy with
  | release => exact .inl ⟨.inl rfl, rfl⟩
  | recycle =>
    dsimp only
    split
    · rename_i hgone
      rw [Bool.or_eq_true, decide_eq_true_eq] at hgone
      exact .inl ⟨.inr hgone, rfl⟩
    · rename_i hkept
      rw [Bool.or_eq_true, decide_eq_true_eq, not_or, Bool.not_eq_true, Nat.not_le] at hkept
      exact .inr ⟨rfl, hkept.1, hkept.2, rfl⟩

end Scratch

namespace World

variable {σ : Type}

/-- The cell exists and is not in the pool. -/
def Held (w : World σ) (c : Cell) : Prop :=
  c < w.store.cells.size ∧ ∀ b ∈ w.scratch.pool, b.cell ≠ c

/-- The pool has cells that exist, each of them once. -/
structure PoolSound (w : World σ) : Prop where
  exist : ∀ b ∈ w.scratch.pool, b.cell < w.store.cells.size
  nodup : (w.scratch.pool.map Buffer.cell).Nodup

/-- What is held stays held and keeps its bytes. -/
structure Extends (w w' : World σ) : Prop where
  held : ∀ c, w.Held c → w'.Held c
  bytes : ∀ c, w.Held c → w'.store.bytes c = w.store.bytes c
  ambient : w'.ambient = w.ambient

theorem Extends.refl (w : World σ) : w.Extends w := ⟨fun _ h => h, fun _ _ => rfl, rfl⟩

theorem Extends.trans {w w' w'' : World σ} (h : w.Extends w') (h' : w'.Extends w'') :
    w.Extends w'' :=
  ⟨fun c hc => h'.held c (h.held c hc),
    fun c hc => (h'.bytes c (h.held c hc)).trans (h.bytes c hc), h'.ambient.trans h.ambient⟩

/-- What is held stays held, in its size, and the pool stays sound. -/
structure Preserves (w w' : World σ) : Prop where
  held : ∀ c, w.Held c → w'.Held c
  size : ∀ c, w.Held c → (w'.store.bytes c).size = (w.store.bytes c).size
  sound : w.PoolSound → w'.PoolSound

theorem Preserves.refl (w : World σ) : w.Preserves w := ⟨fun _ h => h, fun _ _ => rfl, fun h => h⟩

theorem Preserves.trans {w w' w'' : World σ} (h : w.Preserves w') (h' : w'.Preserves w'') :
    w.Preserves w'' :=
  ⟨fun c hc => h'.held c (h.held c hc), fun c hc => (h'.size c (h.held c hc)).trans (h.size c hc),
    fun hs => h'.sound (h.sound hs)⟩

/-! ## Lending -/

/-- A loan is a cell that nobody held, filled with zeros. -/
structure Lends (w : World σ) (d : Descriptor) (loan : Loan) (w' : World σ) : Prop where
  extension : w.Extends w'
  sound : w'.PoolSound
  desc : loan.memory.desc = d
  fresh : ¬ w.Held loan.memory.cell
  held : w'.Held loan.memory.cell
  zeroed : ∃ n, d.requiredBytes = .ok n ∧ w'.store.contents loan.memory = Bytes.zeros n

/-- Without a buffer that fits, the loan is a new cell. -/
theorem lend_lends_of_new {w : World σ} (hs : w.PoolSound) {d : Descriptor} {n : Nat}
    (hn : d.requiredBytes = .ok n) (hfit : Scratch.fitting? w.scratch.pool n = none) :
    ∃ loan w', w.lend d = .ok (loan, w') ∧ w.Lends d loan w' := by
  refine ⟨⟨⟨d, w.store.cells.size⟩, n⟩,
    { w with
      scratch := { w.scratch with allocations := w.scratch.allocations + 1 }
      store := (w.store.push (Bytes.zeros n)).2 },
    by simp only [lend, Scratch.acquire, hn, hfit]; rfl, ?_⟩
  have hsize : (w.store.push (Bytes.zeros n)).2.cells.size = w.store.cells.size + 1 :=
    Array.size_push _
  refine ⟨⟨fun c hc => ⟨?_, hc.2⟩, fun c hc => ?_, rfl⟩, ⟨fun b hb => ?_, hs.nodup⟩, rfl,
    fun hc => ?_, ⟨?_, fun b hb heq => ?_⟩, n, hn, ?_⟩
  · exact hsize ▸ Nat.lt_succ_of_lt hc.1
  · show (w.store.push (Bytes.zeros n)).2.bytes c = _
    rw [Store.bytes_push, if_neg (Nat.ne_of_lt hc.1)]
  · exact hsize ▸ Nat.lt_succ_of_lt (hs.exist b hb)
  · exact absurd hc.1 (Nat.lt_irrefl _)
  · exact hsize ▸ Nat.lt_succ_self _
  · have hexists := hs.exist b hb
    rw [heq] at hexists
    exact absurd hexists (Nat.lt_irrefl _)
  · show (w.store.push (Bytes.zeros n)).2.bytes w.store.cells.size = _
    rw [Store.bytes_push, if_pos rfl]

/-- A buffer that fits leaves the pool, and what it contained is overwritten. -/
theorem lend_lends_of_fitting {w : World σ} (hs : w.PoolSound) {d : Descriptor} {n : Nat}
    (hn : d.requiredBytes = .ok n) {b : Buffer} {pool : List Buffer}
    (hfit : Scratch.fitting? w.scratch.pool n = some (b, pool)) :
    ∃ loan w', w.lend d = .ok (loan, w') ∧ w.Lends d loan w' := by
  have hperm := Scratch.fitting?_perm hfit
  have hmem : b ∈ w.scratch.pool := hperm.subset List.mem_cons_self
  have hnodup : ((b :: pool).map Buffer.cell).Nodup :=
    (hperm.map Buffer.cell).nodup_iff.2 hs.nodup
  rw [List.map_cons, List.nodup_cons] at hnodup
  refine ⟨⟨⟨d, b.cell⟩, b.capacity⟩,
    { w with
      scratch := { w.scratch with pool, reuses := w.scratch.reuses + 1 }
      store := w.store.put b.cell (Bytes.zeros n) },
    by simp only [lend, Scratch.acquire, hn, hfit], ?_⟩
  have hsize : (w.store.put b.cell (Bytes.zeros n)).cells.size = w.store.cells.size :=
    Array.size_setIfInBounds
  refine ⟨⟨fun c hc => ⟨?_, fun b' hb' => ?_⟩, fun c hc => ?_, rfl⟩, ⟨fun b' hb' => ?_, hnodup.2⟩,
    rfl, fun hc => ?_, ⟨?_, fun b' hb' heq => ?_⟩, n, hn, ?_⟩
  · exact hsize ▸ hc.1
  · exact hc.2 b' (hperm.subset (List.mem_cons_of_mem _ hb'))
  · show (w.store.put b.cell (Bytes.zeros n)).bytes c = _
    rw [Store.bytes_put, if_neg fun h => hc.2 b hmem h.1]
  · exact hsize ▸ hs.exist b' (hperm.subset (List.mem_cons_of_mem _ hb'))
  · exact hc.2 b hmem rfl
  · exact hsize ▸ hs.exist b hmem
  · exact hnodup.1 (List.mem_map.2 ⟨b', hb', heq⟩)
  · show (w.store.put b.cell (Bytes.zeros n)).bytes b.cell = _
    rw [Store.bytes_put, if_pos ⟨rfl, hs.exist b hmem⟩]

theorem lend_lends {w : World σ} (hs : w.PoolSound) {d : Descriptor} (h : d.Allocatable) :
    ∃ loan w', w.lend d = .ok (loan, w') ∧ w.Lends d loan w' := by
  obtain ⟨n, hn⟩ := h
  cases hfit : Scratch.fitting? w.scratch.pool n with
  | none => exact lend_lends_of_new hs hn hfit
  | some found => exact lend_lends_of_fitting hs hn hfit

/-! ## Staging -/

/-- The loans are different cells that nobody held before. -/
structure Borrows (w : World σ) (loans : List Loan) (w' : World σ) : Prop where
  extension : w.Extends w'
  sound : w'.PoolSound
  fresh : ∀ loan ∈ loans, ¬ w.Held loan.memory.cell
  held : ∀ loan ∈ loans, w'.Held loan.memory.cell
  nodup : (loans.map fun loan => loan.memory.cell).Nodup

theorem Borrows.nil {w : World σ} (hs : w.PoolSound) : w.Borrows [] w := by
  refine ⟨.refl w, hs, ?_, ?_, List.nodup_nil⟩
  · rintro loan ⟨⟩
  · rintro loan ⟨⟩

theorem Borrows.cons {w w₁ w' : World σ} {d : Descriptor} {loan : Loan} {loans : List Loan}
    (h : w.Lends d loan w₁) (hrest : w₁.Borrows loans w') : w.Borrows (loan :: loans) w' := by
  refine ⟨h.extension.trans hrest.extension, hrest.sound, ?_, ?_, ?_⟩
  · exact List.forall_mem_cons.2 ⟨h.fresh,
      fun loan' hl hc => hrest.fresh loan' hl (h.extension.held _ hc)⟩
  · exact List.forall_mem_cons.2 ⟨hrest.extension.held _ h.held, hrest.held⟩
  · rw [List.map_cons, List.nodup_cons]
    refine ⟨fun hmem => ?_, hrest.nodup⟩
    obtain ⟨loan', hl, heq⟩ := List.mem_map.1 hmem
    exact hrest.fresh loan' hl (heq ▸ h.held)

/-- Staging only borrows, even if it fails on the way. -/
theorem stageFrom_borrows (memory : Bindings) (wanted : List (Operand × Descriptor))
    (staged : Bindings) (loans : List Loan) {w : World σ} (hs : w.PoolSound) :
    ∃ result loans' w', stageFrom memory wanted staged loans w = (result, loans ++ loans', w') ∧
      w.Borrows loans' w' := by
  induction wanted generalizing staged loans w with
  | nil => exact ⟨.ok staged, [], w, by simp only [stageFrom, List.append_nil], .nil hs⟩
  | cons e wanted ih =>
    obtain ⟨p, d⟩ := e
    cases hreq : memory.require p with
    | error e =>
      exact ⟨.error e, [], w, by simp only [stageFrom, hreq, List.append_nil], .nil hs⟩
    | ok m =>
      cases hbytes : d.requiredBytes with
      | error e =>
        exact ⟨.error e, [], w,
          by simp only [stageFrom, hreq, w.lend_eq_error hbytes, List.append_nil], .nil hs⟩
      | ok n =>
        obtain ⟨loan, w₁, hlend, hloan⟩ := lend_lends hs ⟨n, hbytes⟩
        obtain ⟨result, loans', w', hstage, hrest⟩ :=
          ih (staged.insert p loan.memory) (loans ++ [loan]) hloan.sound
        refine ⟨result, loan :: loans', w', ?_, .cons hloan hrest⟩
        simp only [stageFrom, hreq, hlend, hstage, List.append_assoc, List.singleton_append]

/-- Operands with lent memories in place for the wanted descriptors: each is a cell that nobody held
    before, of its own, and filled with zeros. -/
structure Stages (w : World σ) (wanted : List (Operand × Descriptor)) (staged : Bindings)
    (operands : Bindings) (w' : World σ) : Prop where
  others : ∀ p, (∀ e ∈ wanted, e.1 ≠ p) → operands.get? p = staged.get? p
  lent : ∀ e ∈ wanted, ∃ m n, operands.get? e.1 = some m ∧ m.desc = e.2 ∧ ¬ w.Held m.cell ∧
    w'.Held m.cell ∧ e.2.requiredBytes = .ok n ∧ w'.store.contents m = Bytes.zeros n
  apart : ∀ e ∈ wanted, ∀ e' ∈ wanted, ∀ m m', operands.get? e.1 = some m →
    operands.get? e'.1 = some m' → m.cell = m'.cell → e.1 = e'.1

/-- A loan for the first operand, and staging of the others. -/
theorem Stages.cons {w w₁ w' : World σ} {p : Operand} {d : Descriptor} {loan : Loan}
    {wanted : List (Operand × Descriptor)} {staged operands : Bindings} {loans : List Loan}
    (hlt : ∀ e ∈ wanted, p < e.1) (hloan : w.Lends d loan w₁) (hborrows : w₁.Borrows loans w')
    (hrest : w₁.Stages wanted (staged.insert p loan.memory) operands w') :
    w.Stages ((p, d) :: wanted) staged operands w' := by
  have hne : ∀ e ∈ wanted, e.1 ≠ p := fun e he heq => by
    have hpe := hlt e he
    rw [heq] at hpe
    exact KeyOrder.lt_irrefl p hpe
  have hfirst : operands.get? p = some loan.memory := by
    rw [hrest.others p hne, OrderedMap.get?_insert, if_pos rfl]
  have hapart : ∀ e ∈ wanted, ∀ m, operands.get? e.1 = some m → loan.memory.cell ≠ m.cell := by
    intro e he m hm heq
    obtain ⟨m', n, hm', -, hfresh, -⟩ := hrest.lent e he
    rw [hm] at hm'
    cases hm'
    exact hfresh (heq ▸ hloan.held)
  refine ⟨?_, ?_, ?_⟩
  · intro q hq
    obtain ⟨hqp, hq⟩ := List.forall_mem_cons.1 hq
    rw [hrest.others q hq, OrderedMap.get?_insert, if_neg fun h => hqp h.symm]
  · intro e he
    rcases List.mem_cons.1 he with rfl | he
    · obtain ⟨n, hn, hzero⟩ := hloan.zeroed
      refine ⟨loan.memory, n, hfirst, hloan.desc, hloan.fresh,
        hborrows.extension.held _ hloan.held, hn, ?_⟩
      exact (hborrows.extension.bytes _ hloan.held).trans hzero
    · obtain ⟨m', n, hm', hdesc, hfresh, hheld, hn, hzero⟩ := hrest.lent e he
      exact ⟨m', n, hm', hdesc, fun hc => hfresh (hloan.extension.held _ hc), hheld, hn, hzero⟩
  · intro e he e' he' m m' hm hm' heq
    rcases List.mem_cons.1 he with rfl | he
    · rcases List.mem_cons.1 he' with rfl | he'
      · rfl
      · rw [hfirst] at hm
        cases hm
        exact absurd heq (hapart e' he' m' hm')
    · rcases List.mem_cons.1 he' with rfl | he'
      · rw [hfirst] at hm'
        cases hm'
        exact absurd heq.symm (hapart e he m hm)
      · exact hrest.apart e he e' he' m m' hm hm' heq

theorem stageFrom_stages {memory : Bindings} {wanted : List (Operand × Descriptor)}
    (hordered : wanted.Pairwise fun e e' => e.1 < e'.1)
    (hbound : ∀ e ∈ wanted, ∃ m, memory.get? e.1 = some m)
    (hall : ∀ e ∈ wanted, e.2.Allocatable) (staged : Bindings) (loans : List Loan) {w : World σ}
    (hs : w.PoolSound) : ∃ operands loans' w',
      stageFrom memory wanted staged loans w = (.ok operands, loans ++ loans', w') ∧
        w.Borrows loans' w' ∧ w.Stages wanted staged operands w' := by
  induction wanted generalizing staged loans w with
  | nil =>
    refine ⟨staged, [], w, by simp only [stageFrom, List.append_nil], .nil hs, fun _ _ => rfl,
      ?_, ?_⟩
    · rintro e ⟨⟩
    · rintro e ⟨⟩
  | cons e wanted ih =>
    obtain ⟨p, d⟩ := e
    obtain ⟨hlt, hordered⟩ := List.pairwise_cons.1 hordered
    obtain ⟨m, hm⟩ := hbound _ List.mem_cons_self
    obtain ⟨loan, w₁, hlend, hloan⟩ := lend_lends hs (hall _ List.mem_cons_self)
    obtain ⟨operands, loans', w', hstage, hborrows, hrest⟩ := ih hordered
      (fun e he => hbound e (List.mem_cons_of_mem _ he))
      (fun e he => hall e (List.mem_cons_of_mem _ he))
      (staged.insert p loan.memory) (loans ++ [loan]) hloan.sound
    refine ⟨operands, loan :: loans', w', ?_, .cons hloan hborrows,
      .cons hlt hloan hborrows hrest⟩
    simp only [stageFrom, (memory.require_eq_ok_iff p m).2 hm, hlend, hstage,
      List.append_assoc, List.singleton_append]

/-! ## Giving back -/

@[simp] theorem giveBack_store (w : World σ) (loans : List Loan) :
    (w.giveBack loans).store = w.store := rfl

/-- A buffer that is returned is dropped, or it joins the pool. -/
theorem release_pool (sc : Scratch) (loan : Loan) :
    (sc.release loan false).pool = sc.pool ∨
      (sc.release loan false).pool = sc.pool ++ [⟨loan.memory.cell, loan.capacity⟩] := by
  rcases sc.release_cases loan false with ⟨-, hsame⟩ | ⟨-, -, -, hjoins⟩
  · exact .inl (congrArg Scratch.pool hsame)
  · exact .inr (congrArg Scratch.pool hjoins)

theorem giveBack_singleton_held {w : World σ} {loan : Loan} {c : Cell} (hc : w.Held c)
    (hne : loan.memory.cell ≠ c) : (w.giveBack [loan]).Held c := by
  refine ⟨hc.1, fun b hb => ?_⟩
  change b ∈ (w.scratch.release loan false).pool at hb
  rcases release_pool w.scratch loan with hpool | hpool
  · rw [hpool] at hb
    exact hc.2 b hb
  · rw [hpool] at hb
    rcases List.mem_append.1 hb with hb | hb
    · exact hc.2 b hb
    · rw [List.mem_singleton.1 hb]
      exact hne

theorem giveBack_singleton_sound {w : World σ} (hs : w.PoolSound) {loan : Loan}
    (hheld : w.Held loan.memory.cell) : (w.giveBack [loan]).PoolSound := by
  refine ⟨fun b hb => ?_, ?_⟩
  · change b ∈ (w.scratch.release loan false).pool at hb
    rcases release_pool w.scratch loan with hpool | hpool
    · rw [hpool] at hb
      exact hs.exist b hb
    · rw [hpool] at hb
      rcases List.mem_append.1 hb with hb | hb
      · exact hs.exist b hb
      · rw [List.mem_singleton.1 hb]
        exact hheld.1
  · show ((w.scratch.release loan false).pool.map Buffer.cell).Nodup
    rcases release_pool w.scratch loan with hpool | hpool
    · rw [hpool]
      exact hs.nodup
    · rw [hpool, List.map_append, List.nodup_append]
      refine ⟨hs.nodup, by simp, ?_⟩
      intro c hc c' hc' heq
      obtain ⟨b, hb, rfl⟩ := List.mem_map.1 hc
      rw [List.map_singleton, List.mem_singleton] at hc'
      exact hheld.2 b hb (heq.trans hc')

/-- What is held and not returned stays held. -/
theorem giveBack_held {w : World σ} (hs : w.PoolSound) {loans : List Loan}
    (hheld : ∀ loan ∈ loans, w.Held loan.memory.cell)
    (hnodup : (loans.map fun loan => loan.memory.cell).Nodup) :
    (w.giveBack loans).PoolSound ∧ ∀ c, w.Held c → (∀ loan ∈ loans, loan.memory.cell ≠ c) →
      (w.giveBack loans).Held c := by
  induction loans generalizing w with
  | nil => exact ⟨hs, fun c hc _ => hc⟩
  | cons loan loans ih =>
    obtain ⟨hfirst, hrest⟩ := List.forall_mem_cons.1 hheld
    rw [List.map_cons, List.nodup_cons] at hnodup
    have hne : ∀ loan' ∈ loans, loan.memory.cell ≠ loan'.memory.cell := fun loan' h heq =>
      hnodup.1 (List.mem_map.2 ⟨loan', h, heq.symm⟩)
    obtain ⟨hsound, hkept⟩ := ih (giveBack_singleton_sound hs hfirst)
      (fun loan' h => giveBack_singleton_held (hrest loan' h) (hne loan' h)) hnodup.2
    refine ⟨hsound, fun c hc hout => ?_⟩
    obtain ⟨hout₁, hout⟩ := List.forall_mem_cons.1 hout
    exact hkept c (giveBack_singleton_held hc hout₁) hout

/-- A step between a loan and its return that preserves everything, the loans among it, preserves
    what was held before. -/
theorem Borrows.preserves {w w₁ w₂ : World σ} {loans : List Loan} (h : w.Borrows loans w₁)
    (hstep : w₁.Preserves w₂) : w.Preserves (w₂.giveBack loans) := by
  have hback := giveBack_held (hstep.sound h.sound)
    (fun loan hl => hstep.held _ (h.held loan hl)) h.nodup
  refine ⟨fun c hc => ?_, fun c hc => ?_, fun _ => hback.1⟩
  · refine hback.2 c (hstep.held c (h.extension.held c hc)) fun loan hl heq => ?_
    exact h.fresh loan hl (heq ▸ hc)
  · rw [giveBack_store, hstep.size c (h.extension.held c hc), h.extension.bytes c hc]

end World

end KernelDispatch
