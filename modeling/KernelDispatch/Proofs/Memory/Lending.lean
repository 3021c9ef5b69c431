import KernelDispatch.Context
import KernelDispatch.Proofs.Memory.Ranges
import KernelDispatch.Proofs.Memory.Transfer
import KernelDispatch.Scratch.Holders

/-
  Lending to many holders. Holders acquire memories, write to them, share them, release them and
  let go of them. Every act is done at once, so what several holders do at a time is a list of acts
  in one order or another. Between any two acts the scratch pool is in order
  (`Holders.Orderly`): what somebody holds is not in the pool, no buffer is in the pool twice, the
  pool is within its limit, and the counters add up. One act keeps this (`Orderly.perform`), so all
  acts do. In this order a memory that is acquired is nobody else's and full of zeros
  (`Holders.Grants`), and an acquisition that fails leaves everything as it was.
-/

namespace KernelDispatch

/-! ## One request in steps -/

namespace Scratch

/-- `acquire` in the order of its steps: a buffer leaves the pool and a counter moves before the
    memory is made, which looks at the descriptor once more. -/
def acquireStepwise (sc : Scratch) (s : Store) (d : Descriptor) :
    Except MemoryError Loan × Scratch × Store :=
  match d.requiredBytes with
  | .error e => (.error e, sc, s)
  | .ok size =>
    match fitting? sc.pool size with
    | some (b, pool) =>
      let sc := { sc with pool, reuses := sc.reuses + 1 }
      match d.requiredBytes with
      | .error e => (.error e, sc, s)
      | .ok size =>
        (.ok ⟨⟨d, b.cell⟩, b.capacity⟩, sc,
          s.put b.cell (Bytes.resized ((s.bytes b.cell).take 0) size))
    | none =>
      let sc := { sc with allocations := sc.allocations + 1 }
      match s.create d with
      | .error e => (.error e, sc, s)
      | .ok (m, s) => (.ok ⟨m, s.byteLength m⟩, sc, s)

/-- The memory is made if the first look at the descriptor finds nothing wrong, so no buffer and no
    count is lost on the way. -/
theorem acquireStepwise_eq (sc : Scratch) (s : Store) (d : Descriptor) :
    sc.acquireStepwise s d = match sc.acquire s d with
      | .ok (loan, sc', s') => (.ok loan, sc', s')
      | .error e => (.error e, sc, s) := by
  unfold acquireStepwise acquire
  cases hn : d.requiredBytes with
  | error e => rfl
  | ok n =>
    dsimp only
    cases fitting? sc.pool n with
    | some found =>
      have hempty : (s.bytes found.1.cell).take 0 = #[] := by simp
      simp only [hempty, Bytes.resized_empty]
    | none =>
      have hcreate := (s.create_eq_ok_iff d ⟨d, s.cells.size⟩ _).2 ⟨n, hn, rfl, rfl⟩
      have hlength : (s.push (Bytes.zeros n)).2.byteLength ⟨d, s.cells.size⟩ = n := by
        show ((s.push (Bytes.zeros n)).2.bytes s.cells.size).size = n
        rw [Store.bytes_push, if_pos rfl, Bytes.size_zeros]
      simp only [hcreate, hlength]
      rfl

end Scratch

/-! ## Acts -/

namespace Holders

/-- What a holder can do. -/
inductive Act where
  | acquire (name : String) (d : Descriptor)
  | write (name : String) (start : Nat) (bytes : List UInt8)
  | share (name further : String)
  | release (name : String)
  | drop (name : String)

/-- Overwrites bytes of the memory held under a name. -/
def write (h : Holders) (name : String) (start : Nat) (bytes : List UInt8) : Option Holders :=
  (h.loan? name).map fun loan => { h with store := h.store.overwrite loan.memory start bytes }

/-- The state after an act; one that cannot be done, or fails, changes nothing. -/
def perform (h : Holders) : Act → Holders
  | .acquire name d =>
    match h.acquire name d with
    | .ok (_, h') => h'
    | .error _ => h
  | .write name start bytes => (h.write name start bytes).getD h
  | .share name further => (h.share name further).getD h
  | .release name => (h.release name).getD h
  | .drop name => { h with held := h.others name }

def after (h : Holders) (acts : List Act) : Holders := acts.foldl perform h

/-- Nobody holds anything yet, and the pool is that of a new context. -/
def start (c : Context) : Holders := { scratch := c.scratch }

/-- How many memories an act hands out. -/
def grants (h : Holders) : Act → Nat
  | .acquire name d => if (h.acquire name d).isOk then 1 else 0
  | _ => 0

/-- How many memories are handed out in the course of the acts. -/
def granted (h : Holders) : List Act → Nat
  | [] => 0
  | a :: acts => h.grants a + (h.perform a).granted acts

/-- The store and the pool, without the holders. -/
def world (h : Holders) : World Unit := { store := h.store, ambient := (), scratch := h.scratch }

theorem mem_of_mem_others {h : Holders} {name : String} {e : String × Loan}
    (he : e ∈ h.others name) : e ∈ h.held := (List.mem_filter.1 he).1

theorem exists_mem_of_loan? {h : Holders} {name : String} {loan : Loan}
    (hloan : h.loan? name = some loan) : ∃ e ∈ h.held, e.2 = loan := by
  unfold loan? at hloan
  obtain ⟨_, _, hheld, -⟩ := List.lookup_eq_some_iff.1 hloan
  exact ⟨(name, loan), hheld ▸ List.mem_append_right _ List.mem_cons_self, rfl⟩

/-- Nobody holds under another name what is not shared. -/
theorem ne_of_isShared_eq_false {h : Holders} {name : String} {loan : Loan}
    (hshared : h.isShared name loan = false) :
    ∀ e ∈ h.others name, loan.memory.cell ≠ e.2.memory.cell := by
  intro e he heq
  have hall := List.any_eq_false.1 hshared e he
  rw [heq] at hall
  exact hall (beq_self_eq_true _)

/-! ## What an acquisition hands out -/

/-- A clean memory that nobody else holds. -/
structure Grants (h : Holders) (name : String) (d : Descriptor) (loan : Loan) (h' : Holders) :
    Prop where
  desc_eq : loan.memory.desc = d
  required : d.requiredBytes = .ok (Index.volume d.factors)
  zeroed : h'.store.contents loan.memory = Bytes.zeros (Index.volume d.factors)
  unshared : ∀ e ∈ h.held, e.2.memory.cell ≠ loan.memory.cell
  out : ∀ b ∈ h'.scratch.pool, b.cell ≠ loan.memory.cell
  held_eq : h'.held = (name, loan) :: h.others name
  kept : ∀ e ∈ h.held, h'.store.contents e.2.memory = h.store.contents e.2.memory
  served : h.scratch.Reuses h.store (Index.volume d.factors) loan h'.scratch h'.store ∨
    h.scratch.Allocates h.store (Index.volume d.factors) loan h'.scratch h'.store

theorem lend_of_acquire {h h' : Holders} {name : String} {d : Descriptor} {loan : Loan}
    (hok : h.acquire name d = .ok (loan, h')) :
    h.scratch.acquire h.store d = .ok (loan, h'.scratch, h'.store) ∧
      h.world.lend d = .ok (loan, h'.world) ∧ h'.held = (name, loan) :: h.others name := by
  unfold acquire at hok
  split at hok
  · rename_i loan' sc s hacquire
    cases hok
    refine ⟨hacquire, ?_, rfl⟩
    show (match h.scratch.acquire h.store d with
      | .ok (loan, scratch, store) => Except.ok (loan, { h.world with scratch, store })
      | .error e => .error e) = _
    rw [hacquire]
    rfl
  · cases hok

theorem acquire_error {h : Holders} {name : String} {d : Descriptor} {e : MemoryError}
    (herror : h.acquire name d = .error e) : h.scratch.acquire h.store d = .error e := by
  unfold acquire at herror
  split at herror
  · cases herror
  · rename_i hacquire
    cases herror
    exact hacquire

/-- An acquisition succeeds if and only if there can be memory for the descriptor. -/
theorem exists_acquire_iff (h : Holders) (name : String) (d : Descriptor) :
    (∃ r, h.acquire name d = .ok r) ↔ d.Allocatable := by
  unfold acquire Scratch.acquire Descriptor.Allocatable
  cases d.requiredBytes with
  | error e => simp
  | ok n =>
    refine ⟨fun _ => ⟨n, rfl⟩, fun _ => ?_⟩
    dsimp only
    cases Scratch.fitting? h.scratch.pool n with
    | some found => exact ⟨_, rfl⟩
    | none => exact ⟨_, rfl⟩

/-- What holds between any two acts, `n` memories having been handed out. -/
structure Orderly (policy : ReusePolicy) (n : Nat) (h : Holders) : Prop where
  sound : h.world.PoolSound
  held : ∀ e ∈ h.held, h.world.Held e.2.memory.cell
  pooled_fits : ∀ b ∈ h.scratch.pool, (h.store.bytes b.cell).size ≤ b.capacity
  held_fits : ∀ e ∈ h.held, h.store.byteLength e.2.memory ≤ e.2.capacity
  policy_eq : h.scratch.policy = policy
  limited : h.scratch.pool.length ≤ Scratch.poolLimit
  counted : h.scratch.allocations + h.scratch.reuses = n
  released : policy = .release → h.scratch.pool = []

theorem orderly_start (c : Context) : (start c).Orderly c.reuse 0 :=
  ⟨⟨nofun, List.nodup_nil⟩, nofun, nofun, nofun, rfl, Nat.zero_le _, rfl, fun _ => rfl⟩

namespace Orderly

variable {policy : ReusePolicy} {n : Nat} {h : Holders}

theorem lends (ho : h.Orderly policy n) {name : String} {d : Descriptor} {loan : Loan}
    {h' : Holders} (hok : h.acquire name d = .ok (loan, h')) : h.world.Lends d loan h'.world := by
  obtain ⟨-, hlend, -⟩ := lend_of_acquire hok
  obtain ⟨loan', w', hlend', hlends⟩ :=
    World.lend_lends ho.sound ((exists_acquire_iff h name d).1 ⟨_, hok⟩)
  rw [hlend] at hlend'
  cases hlend'
  exact hlends

/-- In order, what is acquired is clean and nobody else's. -/
theorem acquire_grants (ho : h.Orderly policy n) {name : String} {d : Descriptor} {loan : Loan}
    {h' : Holders} (hok : h.acquire name d = .ok (loan, h')) : h.Grants name d loan h' := by
  obtain ⟨hacquire, -, hheld⟩ := lend_of_acquire hok
  have hlends := ho.lends hok
  obtain ⟨size, hsize, hzero⟩ := hlends.zeroed
  obtain ⟨size', hsize', hserved⟩ := Scratch.acquire_serves hacquire
  rw [hsize] at hsize'
  cases hsize'
  have hvolume := Descriptor.eq_volume_factors hsize
  subst hvolume
  exact ⟨hlends.desc, hsize, hzero, fun e he heq => hlends.fresh (heq ▸ ho.held e he),
    hlends.held.2, hheld, fun e he => hlends.extension.bytes _ (ho.held e he), hserved⟩

/-! ## One act -/

/-- Letting go of memories without giving them back. -/
theorem forget (ho : h.Orderly policy n) {held : List (String × Loan)}
    (hsub : ∀ e ∈ held, ∃ e' ∈ h.held, e'.2 = e.2) : Orderly policy n { h with held } := by
  refine ⟨ho.sound, fun e he => ?_, ho.pooled_fits, fun e he => ?_, ho.policy_eq, ho.limited,
    ho.counted, ho.released⟩
  · obtain ⟨e', he', heq⟩ := hsub e he
    exact heq ▸ ho.held e' he'
  · obtain ⟨e', he', heq⟩ := hsub e he
    exact heq ▸ ho.held_fits e' he'

theorem forget_name (ho : h.Orderly policy n) (name : String) :
    Orderly policy n { h with held := h.others name } :=
  ho.forget fun e he => ⟨e, mem_of_mem_others he, rfl⟩

theorem write (ho : h.Orderly policy n) (m : Memory) (start : Nat) (bytes : List UInt8) :
    Orderly policy n { h with store := h.store.overwrite m start bytes } := by
  have hcells : (h.store.overwrite m start bytes).cells.size = h.store.cells.size :=
    Array.size_setIfInBounds
  have hsize : ∀ c, ((h.store.overwrite m start bytes).bytes c).size = (h.store.bytes c).size :=
    h.store.size_put m (Bytes.size_overwrite _ _ _)
  refine ⟨⟨fun b hb => hcells ▸ ho.sound.exist b hb, ho.sound.nodup⟩,
    fun e he => ⟨hcells ▸ (ho.held e he).1, (ho.held e he).2⟩,
    fun b hb => ?_, fun e he => ?_, ho.policy_eq, ho.limited, ho.counted, ho.released⟩
  · rw [hsize]
    exact ho.pooled_fits b hb
  · exact Nat.le_trans (Nat.le_of_eq (hsize e.2.memory.cell)) (ho.held_fits e he)

/-- A memory is handed out. -/
theorem acquire (ho : h.Orderly policy n) {name : String} {d : Descriptor} {loan : Loan}
    {h' : Holders} (hok : h.acquire name d = .ok (loan, h')) : h'.Orderly policy (n + 1) := by
  have hlends := ho.lends hok
  have hgrants := ho.acquire_grants hok
  have hzeros : h'.store.byteLength loan.memory = Index.volume d.factors := by
    rw [Store.byteLength, hgrants.zeroed, Bytes.size_zeros]
  have hheld : ∀ e ∈ h'.held, e = (name, loan) ∨ e ∈ h.held := fun e he => by
    rw [hgrants.held_eq] at he
    exact (List.mem_cons.1 he).imp_right mem_of_mem_others
  have hout : ∀ e ∈ h'.held, h'.world.Held e.2.memory.cell := fun e he => by
    rcases hheld e he with rfl | he
    · exact hlends.held
    · exact hlends.extension.held _ (ho.held e he)
  have hfits : Index.volume d.factors ≤ loan.capacity →
      ∀ e ∈ h'.held, h'.store.byteLength e.2.memory ≤ e.2.capacity := fun hroom e he => by
    rcases hheld e he with rfl | he
    · exact hzeros ▸ hroom
    · rw [Store.byteLength, hgrants.kept e he]
      exact ho.held_fits e he
  rcases hgrants.served with hserved | hserved
  · have hlength : h'.scratch.pool.length + 1 = h.scratch.pool.length := hserved.taken.length_eq
    refine ⟨hlends.sound, hout, fun b hb => ?_, hfits hserved.room,
      hserved.policy_eq.trans ho.policy_eq, ?_, ?_, fun hrelease => ?_⟩
    · obtain ⟨hb, hbytes⟩ := hserved.bytes_eq ho.sound.nodup hb
      exact hbytes ▸ ho.pooled_fits b hb
    · exact Nat.le_trans (Nat.le_of_succ_le (Nat.le_of_eq hlength)) ho.limited
    · rw [hserved.allocations_eq, hserved.reuses_eq, ← ho.counted, Nat.add_assoc]
    · rw [ho.released hrelease] at hlength
      cases hlength
  · refine ⟨hlends.sound, hout, fun b hb => ?_, hfits (Nat.le_of_eq hserved.capacity_eq.symm),
      hserved.policy_eq.trans ho.policy_eq, hserved.pool_eq ▸ ho.limited, ?_,
      fun hrelease => hserved.pool_eq.trans (ho.released hrelease)⟩
    · obtain ⟨hb, hbytes⟩ := hserved.bytes_eq ho.sound.exist hb
      exact hbytes ▸ ho.pooled_fits b hb
    · rw [hserved.allocations_eq, hserved.reuses_eq, ← ho.counted, Nat.add_right_comm]

/-- A memory is given back. -/
theorem release (ho : h.Orderly policy n) {name : String} {loan : Loan}
    (hloan : h.loan? name = some loan) : Orderly policy n
      { h with
        scratch := h.scratch.release loan (h.isShared name loan)
        held := h.others name } := by
  obtain ⟨e, he, rfl⟩ := exists_mem_of_loan? hloan
  rcases h.scratch.release_cases e.2 (h.isShared name e.2) with
    ⟨-, hsame⟩ | ⟨hrecycle, hshared, hroom, hjoins⟩
  · rw [hsame]
    exact ho.forget_name name
  · have hsound := World.giveBack_singleton_sound ho.sound (ho.held e he)
    have hback : h.scratch.releaseAll [e.2] =
        { h.scratch with pool := h.scratch.pool ++ [⟨e.2.memory.cell, e.2.capacity⟩] } := by
      rw [← hjoins, hshared]
      rfl
    unfold World.giveBack at hsound
    rw [hjoins]
    refine ⟨hback ▸ hsound, fun e' he' => ⟨(ho.held e' (mem_of_mem_others he')).1, fun b hb => ?_⟩,
      fun b hb => ?_, fun e' he' => ho.held_fits e' (mem_of_mem_others he'), ho.policy_eq, ?_,
      ho.counted, fun hrelease => ?_⟩
    · rcases List.mem_append.1 hb with hb | hb
      · exact (ho.held e' (mem_of_mem_others he')).2 b hb
      · rw [List.mem_singleton.1 hb]
        exact ne_of_isShared_eq_false hshared e' he'
    · rcases List.mem_append.1 hb with hb | hb
      · exact ho.pooled_fits b hb
      · rw [List.mem_singleton.1 hb]
        exact ho.held_fits e he
    · rw [List.length_append, List.length_singleton]
      exact hroom
    · rw [← ho.policy_eq, hrecycle] at hrelease
      cases hrelease

/-! ## All acts -/

/-- An act keeps the order. -/
theorem perform (ho : h.Orderly policy n) (a : Act) :
    (h.perform a).Orderly policy (n + h.grants a) := by
  cases a with
  | acquire name d =>
    cases hacquire : h.acquire name d with
    | ok r =>
      simp only [Holders.perform, Holders.grants, hacquire]
      exact ho.acquire hacquire
    | error e =>
      simp only [Holders.perform, Holders.grants, hacquire]
      exact ho
  | write name start bytes =>
    show Orderly policy n ((h.write name start bytes).getD h)
    unfold Holders.write
    cases h.loan? name with
    | none => exact ho
    | some loan => exact ho.write loan.memory start bytes
  | share name further =>
    show Orderly policy n ((h.share name further).getD h)
    unfold share
    cases hloan : h.loan? name with
    | none => exact ho
    | some loan =>
      obtain ⟨e, he, heq⟩ := exists_mem_of_loan? hloan
      refine ho.forget fun e' he' => ?_
      rcases List.mem_cons.1 he' with rfl | he'
      · exact ⟨e, he, heq⟩
      · exact ⟨e', mem_of_mem_others he', rfl⟩
  | release name =>
    show Orderly policy n ((h.release name).getD h)
    unfold Holders.release
    cases hloan : h.loan? name with
    | none => exact ho
    | some loan => exact ho.release hloan
  | drop name => exact ho.forget_name name

theorem after (ho : h.Orderly policy n) (acts : List Act) :
    (h.after acts).Orderly policy (n + h.granted acts) := by
  induction acts generalizing h n with
  | nil => exact ho
  | cons a acts ih =>
    have hrest := ih (ho.perform a)
    rw [Nat.add_assoc] at hrest
    exact hrest

end Orderly

/-- Whatever the holders do, in whatever order: the pool and what is held stay apart and in order;
    an acquisition succeeds exactly if the descriptor is static, its layout takes its rank and its
    size is formed in range, which without zero extents is to say that the size is in range; one
    that fails leaves all as it was, pool and counters included, in each of its steps; one that
    succeeds hands out a clean memory that nobody else holds. -/
theorem lending_is_clean (c : Context) (acts : List Act) :
    let h := (start c).after acts
    h.Orderly c.reuse ((start c).granted acts) ∧ ∀ name d,
      ((∃ r, h.acquire name d = .ok r) ↔
        d.isStatic = true ∧ d.isWellFormed = true ∧ d.InRange) ∧
      (d.isStatic = true → d.isWellFormed = true → d.IsPositive →
        (d.InRange ↔ Index.volume d.factors < sizeLimit)) ∧
      (∀ e, h.acquire name d = .error e → h.perform (.acquire name d) = h ∧
        h.scratch.acquireStepwise h.store d = (.error e, h.scratch, h.store)) ∧
      (∀ loan h', h.acquire name d = .ok (loan, h') → h.perform (.acquire name d) = h' ∧
        h.scratch.acquireStepwise h.store d = (.ok loan, h'.scratch, h'.store) ∧
        h.Grants name d loan h') := by
  intro h
  have ho : h.Orderly c.reuse ((start c).granted acts) := by
    have hafter := (orderly_start c).after acts
    rw [Nat.zero_add] at hafter
    exact hafter
  refine ⟨ho, fun name d => ⟨?_, Descriptor.inRange_iff, fun e he => ⟨?_, ?_⟩,
    fun loan h' hok => ⟨?_, ?_, ho.acquire_grants hok⟩⟩⟩
  · exact (exists_acquire_iff h name d).trans d.allocatable_iff
  · rw [perform, he]
  · rw [Scratch.acquireStepwise_eq, acquire_error he]
  · rw [perform, hok]
  · rw [Scratch.acquireStepwise_eq, (lend_of_acquire hok).1]

/-- For a tensor that is empty, and so takes no bytes at all, there is no memory if its extents
    leave the range of sizes before the zero among them is reached. -/
theorem acquire_empty_out_of_range :
    let d : Descriptor := ⟨.f32, .ofSizes [1099511627776, 1099511627776, 0], .planar⟩
    d.isStatic = true ∧ d.isWellFormed = true ∧ Index.volume d.factors = 0 ∧
      (start (.ofSettings default)).acquire "a" d = .error (.tooLarge d) :=
  ⟨rfl, rfl, rfl, rfl⟩

end Holders

end KernelDispatch
