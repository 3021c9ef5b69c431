import KernelDispatch.Proofs.Dispatch.Attempts
import KernelDispatch.Proofs.Dispatch.Direct

/-
  What a dispatcher remembers. Over kernels that run on the caller's memories and answer updates
  from descriptors, the signatures that are remembered are at every moment those resolved latest,
  in the order of their latest use and as many as there is room for (`Dispatcher.Recalls`). So an
  update evaluates predicates exactly if its operands are neither in force nor among those
  (`predicates_asked_iff`).
-/

namespace KernelDispatch

namespace Recency

variable {κ α : Type} [DecidableEq κ]

/-! ## The latest uses -/

/-- The latest `n` different keys, of all uses with the latest one first. -/
def latest (n : Nat) (uses : List κ) : List κ := uses.eraseDups.take n

theorem eraseDups_filter (p : κ → Bool) (ks : List κ) :
    (ks.filter p).eraseDups = ks.eraseDups.filter p := by
  induction hn : ks.length using Nat.strongRecOn generalizing ks with
  | _ n ih =>
    cases ks with
    | nil => rfl
    | cons k ks =>
      have hshort : (ks.filter fun k' => !k' == k).length < n := by
        rw [← hn, List.length_cons]
        exact Nat.lt_succ_of_le (List.length_filter_le _ _)
      rw [List.eraseDups_cons]
      by_cases hk : p k = true
      · rw [List.filter_cons_of_pos hk, List.filter_cons_of_pos hk, List.eraseDups_cons,
          ← ih _ hshort _ rfl, List.filter_filter, List.filter_filter]
        simp only [Bool.and_comm]
      · rw [List.filter_cons_of_neg hk, List.filter_cons_of_neg hk, ← ih _ hshort _ rfl,
          List.filter_filter]
        congr 1
        refine List.filter_congr fun k' _ => ?_
        by_cases heq : k' = k
        · simp [heq, hk]
        · simp [heq]

theorem eraseDups_cons (k : κ) (ks : List κ) :
    (k :: ks).eraseDups = k :: ks.eraseDups.filter (· ≠ k) := by
  rw [List.eraseDups_cons, eraseDups_filter]
  congr 1
  exact List.filter_congr fun k' _ => by by_cases heq : k' = k <;> simp [heq]

theorem nodup_eraseDups (ks : List κ) : ks.eraseDups.Nodup := by
  induction ks with
  | nil => exact List.nodup_nil
  | cons k ks ih =>
    rw [eraseDups_cons, List.nodup_cons]
    exact ⟨by simp, ih.filter _⟩

/-- Without one of the first `n + 1` different keys there are `n` of them, and more keys make no
    difference. -/
theorem take_filter_take {k : κ} {ks : List κ} (h : ks.Nodup) (n : Nat) :
    ((ks.take (n + 1)).filter (· ≠ k)).take n = (ks.filter (· ≠ k)).take n := by
  induction ks generalizing n with
  | nil => rfl
  | cons k' ks ih =>
    obtain ⟨hnot, hks⟩ := List.nodup_cons.1 h
    rw [List.take_succ_cons]
    by_cases hk : k' = k
    · -- the key is the first one and occurs nowhere else
      subst hk
      have hall : ∀ ks' : List κ, ks'.Sublist ks → ks'.filter (· ≠ k') = ks' := fun ks' hsub =>
        List.filter_eq_self.2 fun k hk => by
          have hne : k ≠ k' := fun heq => hnot (heq ▸ hsub.subset hk)
          simpa using hne
      rw [List.filter_cons_of_neg (by simp), List.filter_cons_of_neg (by simp),
        hall _ (List.take_sublist n ks), hall ks (List.Sublist.refl ks), List.take_take,
        Nat.min_self]
    · rw [List.filter_cons_of_pos (by simpa using hk), List.filter_cons_of_pos (by simpa using hk)]
      cases n with
      | zero => rfl
      | succ n => rw [List.take_succ_cons, List.take_succ_cons, ih hks]

/-- A use puts its key first. -/
theorem latest_cons (n : Nat) (k : κ) (uses : List κ) :
    latest n (k :: uses) = (k :: (latest n uses).filter (· ≠ k)).take n := by
  unfold latest
  rw [eraseDups_cons]
  cases n with
  | zero => rfl
  | succ n =>
    rw [List.take_succ_cons, List.take_succ_cons, take_filter_take (nodup_eraseDups uses)]

/-- The keys of all entries, latest use first. -/
def keys (r : Recency κ α) : List κ := r.entries.map Prod.fst

theorem keys_without (k : κ) (es : List (κ × α)) :
    (without k es).map Prod.fst = (es.map Prod.fst).filter (· ≠ k) := by
  unfold without
  rw [List.filter_map]
  rfl

/-- Storing is a use. -/
theorem keys_store {r : Recency κ α} {uses : List κ} (h : r.keys = latest r.limit uses) (k : κ)
    (v : α) : (r.store k v).keys = latest r.limit (k :: uses) := by
  rw [latest_cons, ← h]
  show List.map Prod.fst (((k, v) :: without k r.entries).take r.limit) = _
  rw [List.map_take, List.map_cons, keys_without]
  rfl

/-- Looking up is a use. -/
theorem keys_use? {r r' : Recency κ α} {uses : List κ} (h : r.keys = latest r.limit uses) {k : κ}
    {v : α} (huse : r.use? k = some (v, r')) :
    r'.keys = latest r.limit (k :: uses) ∧ r'.limit = r.limit ∧ r'.entries.head? = some (k, v) := by
  have hmem := (mem_of_use? huse).1
  simp only [use?, Option.map_eq_some_iff] at huse
  obtain ⟨e, hfind, heq⟩ := huse
  have hkey : e.1 = k := by simpa using List.find?_some hfind
  cases heq
  refine ⟨?_, rfl, by rw [← hkey]; rfl⟩
  have hin : k ∈ r.keys := List.mem_map.2 ⟨_, hmem, rfl⟩
  have hshort : r.keys.length ≤ r.limit := by
    rw [h]
    exact List.length_take_le _ _
  have hfewer : (r.keys.filter (· ≠ k)).length < r.keys.length :=
    List.length_filter_lt_length_iff_exists.2 ⟨k, hin, by simp⟩
  rw [latest_cons, ← h, List.take_of_length_le (by rw [List.length_cons]; omega)]
  show e.1 :: (without k r.entries).map Prod.fst = _
  rw [keys_without, hkey]
  rfl

theorem use?_eq_none_iff {r : Recency κ α} {k : κ} : r.use? k = none ↔ k ∉ r.keys := by
  rw [use?, Option.map_eq_none_iff, List.find?_eq_none, keys, List.mem_map]
  simp only [decide_eq_true_eq, not_exists, not_and]

end Recency

namespace Dispatcher

open Inquired

variable {α σ : Type} {ks : List (Kernel α σ)} {attrs : α} {d d' : Dispatcher α (Inquired σ)}

/-! ## What is remembered -/

/-- The signatures that are remembered are the latest used, and the one in force is the latest of
    all. The decisions are for slots that still take all operands like those. -/
structure Recalls (ks : List (Kernel α σ)) (attrs : α) (n : Nat) (uses : List Signature)
    (d : Dispatcher α (Inquired σ)) : Prop extends Plain ks attrs d where
  pos : 0 < n
  limit_eq : d.decisions.limit = n
  keys_eq : d.decisions.keys = Recency.latest n uses
  remembers : ∀ e ∈ d.decisions.entries,
    e.2.route = none ∧ ∃ slot, d.slot? e.2.index = some slot ∧ slot.Takes e.1
  inForce : ∀ ds i, d.resolved = some (ds, i) → d.decisions.entries.head? = some (ds, ⟨i, none⟩)

variable {n : Nat} {past : List Signature}

theorem recalls_ofCandidates (ks : List (Kernel α σ)) (attrs : α) (constraints : Constraints)
    (context : Context) : Recalls ks attrs context.cacheSize []
      (ofCandidates (kernels ks) attrs constraints context) := by
  refine ⟨⟨inquires_ofCandidates ks attrs constraints context, fun i slot hslot => ?_⟩,
    context.cacheSize_pos, rfl, ?_, ?_, nofun⟩
  · rw [slot?_ofCandidates] at hslot
    cases hslot
  · exact List.take_nil.symm
  · rintro e ⟨⟩

theorem Recalls.grow (h : Recalls ks attrs n past d) (hplain : Plain ks attrs d')
    (hgrows : d.Grows d') : Recalls ks attrs n past d' := by
  obtain ⟨hdecisions, hresolved, hslots⟩ := hgrows
  refine ⟨hplain, h.pos, by rw [hdecisions, h.limit_eq], by rw [hdecisions, h.keys_eq],
    fun e he => ?_, fun ds i hres => ?_⟩
  · rw [hdecisions] at he
    obtain ⟨hroute, slot, hslot, htakes⟩ := h.remembers e he
    exact ⟨hroute, slot, hslots _ slot hslot, htakes⟩
  · rw [hdecisions]
    exact h.inForce ds i (hresolved ▸ hres)

/-- No candidate is in force any more. -/
theorem Recalls.release (h : Recalls ks attrs n past d) :
    Recalls ks attrs n past { d with resolved := none } :=
  ⟨h.toPlain.withDecisions d.decisions none, h.pos, h.limit_eq, h.keys_eq, h.remembers, nofun⟩

/-- A candidate that takes the operands comes into force, and the decision for it becomes the latest
    that is remembered. -/
theorem Recalls.decide (h : Recalls ks attrs n past d) {ds : Descriptors} {i : Nat}
    {slot : Slot (Inquired σ)} (hslot : d.slot? i = some slot) (htakes : slot.Takes ds) :
    Recalls ks attrs n (ds :: past)
      { d with decisions := d.decisions.store ds ⟨i, none⟩, resolved := some (ds, i) } := by
  refine ⟨h.toPlain.withDecisions _ _, h.pos, h.limit_eq, ?_, fun e he => ?_,
    fun ds' i' hres => ?_⟩
  · rw [← h.limit_eq]
    exact Recency.keys_store (by rw [h.keys_eq, h.limit_eq]) ds _
  · rcases Recency.mem_of_store he with rfl | he
    · exact ⟨rfl, slot, hslot, htakes⟩
    · exact h.remembers e he
  · cases hres
    obtain ⟨m, hm⟩ := Nat.exists_eq_add_one.2 h.pos
    show (List.take d.decisions.limit _).head? = _
    rw [h.limit_eq, hm, List.take_succ_cons, List.head?_cons]

/-- A remembered decision comes into force again and becomes the latest. -/
theorem Recalls.recall (h : Recalls ks attrs n past d) {ds : Descriptors} {choice : Choice}
    {decisions : Recency Signature Choice} (huse : d.decisions.use? ds = some (choice, decisions)) :
    Recalls ks attrs n (ds :: past)
      { d with decisions, resolved := some (ds, choice.index) } := by
  obtain ⟨hmem, hsub⟩ := Recency.mem_of_use? huse
  obtain ⟨hkeys, hlimit, hhead⟩ := Recency.keys_use? (by rw [h.keys_eq, h.limit_eq]) huse
  refine ⟨h.toPlain.withDecisions decisions _, h.pos, hlimit.trans h.limit_eq,
    by rw [hkeys, h.limit_eq], fun e he => h.remembers e (hsub e he), fun ds' i hres => ?_⟩
  cases hres
  have hroute : choice.route = none := (h.remembers _ hmem).1
  rw [hhead, ← hroute]

/-! ## Updates -/

/-- The signature that an update resolves anew: it is not in force, and a candidate takes the
    operands. -/
def use? (s : Dispatcher α σ × World σ) (memory : Bindings) : Option Signature :=
  if s.1.resolved.map Prod.fst = some memory.descriptors then none
  else match (s.1.update memory s.2).1 with
    | .ok true => some memory.descriptors
    | _ => none

/-- What an update does to what is remembered: it adds its own use, asks for predicates exactly if
    its signature is neither in force nor remembered, and changes nothing if no candidate takes the
    operands. -/
structure UpdateRecalls (ks : List (Kernel α σ)) (attrs : α) (n : Nat) (past : List Signature)
    (d : Dispatcher α (Inquired σ)) (memory : Bindings) (w : World (Inquired σ))
    (r : Except Error Bool × Dispatcher α (Inquired σ) × World (Inquired σ)) : Prop where
  recalls : Recalls ks attrs n ((use? (d, w) memory).toList ++ past) r.2.1
  entered : ∃ new, r.2.2.ambient.log = new ++ w.ambient.log ∧ (HasPredicate new ↔
    d.resolved.map Prod.fst ≠ some memory.descriptors ∧
      memory.descriptors ∉ Recency.latest n past)
  refused : r.1 ≠ .ok true →
    r.2.1.decisions = d.decisions ∧ memory.descriptors ∉ Recency.latest n past

theorem not_hasPredicate_nil : ¬ HasPredicate [] := by
  rintro ⟨q, ⟨⟩, -⟩

theorem use?_of_inForce {s : Dispatcher α σ × World σ} {memory : Bindings}
    (h : s.1.resolved.map Prod.fst = some memory.descriptors) : use? s memory = none := if_pos h

theorem use?_of_taken {s : Dispatcher α σ × World σ} {memory : Bindings}
    (h : s.1.resolved.map Prod.fst ≠ some memory.descriptors)
    (hanswer : (s.1.update memory s.2).1 = .ok true) : use? s memory = some memory.descriptors := by
  unfold use?
  rw [if_neg h, hanswer]

theorem use?_of_refused {s : Dispatcher α σ × World σ} {memory : Bindings}
    (hanswer : (s.1.update memory s.2).1 ≠ .ok true) : use? s memory = none := by
  unfold use?
  split
  · rfl
  · split
    · rename_i htrue
      exact absurd htrue hanswer
    · rfl

theorem current?_eq_none {d : Dispatcher α σ} {memory : Bindings}
    (h : d.resolved.map Prod.fst ≠ some memory.descriptors) : d.current? memory = none := by
  refine Option.eq_none_iff_forall_ne_some.2 fun found hfound => h ?_
  rw [(current?_eq_some hfound).1]
  rfl

/-- On the operands in force the candidate in force is asked, and nobody else. -/
theorem Recalls.update_inForce (h : Recalls ks attrs n past d) {memory : Bindings} {i : Nat}
    (hres : d.resolved = some (memory.descriptors, i)) (w : World (Inquired σ)) :
    UpdateRecalls ks attrs n past d memory w (d.update memory w) := by
  have hsame : d.resolved.map Prod.fst = some memory.descriptors := by rw [hres]; rfl
  obtain ⟨-, slot, hslot, htakes⟩ :=
    h.remembers _ (List.mem_of_mem_head? (h.inForce memory.descriptors i hres))
  obtain ⟨w', hoffer, hlog⟩ := h.toPlain.offer_eq hslot memory w
  have hupdate : d.update memory w = (.ok true, d, w') := by
    have hcurrent : d.current? memory = some (i, slot) := by
      simp only [current?, hres, if_true, hslot, Option.map_some]
    unfold Dispatcher.update
    rw [hcurrent]
    show d.offer i slot memory w = _
    rw [hoffer, htakes memory rfl w]
  rw [hupdate]
  refine ⟨?_, ⟨[], hlog, ?_⟩, fun hr => absurd rfl hr⟩
  · rw [use?_of_inForce hsame]
    exact h
  · exact ⟨fun hnew => absurd hnew not_hasPredicate_nil, fun hnew => absurd hsame hnew.1⟩

/-- On remembered operands the candidate that was decided for is asked, and nobody else. -/
theorem Recalls.update_remembered (h : Recalls ks attrs n past d) {memory : Bindings}
    (hother : d.resolved.map Prod.fst ≠ some memory.descriptors)
    (hmem : memory.descriptors ∈ Recency.latest n past) (w : World (Inquired σ)) :
    UpdateRecalls ks attrs n past d memory w (d.update memory w) := by
  obtain ⟨⟨choice, decisions⟩, huse⟩ := Option.ne_none_iff_exists'.1
    fun hnone => Recency.use?_eq_none_iff.1 hnone (h.keys_eq ▸ hmem)
  have hdecided := h.remembers _ (Recency.mem_of_use? huse).1
  have hroute : choice.route = none := hdecided.1
  obtain ⟨slot, hslot, htakes⟩ :
      ∃ slot, d.slot? choice.index = some slot ∧ slot.Takes memory.descriptors := hdecided.2
  have hrecalled := h.recall huse
  obtain ⟨k, hk⟩ := h.toInquires.exists_of_slot? hslot
  have hfound : d.candidates[choice.index]? = some (kernel choice.index k) := by
    rw [h.candidates_eq]
    exact kernels_getElem?_eq_some_iff.2 ⟨k, hk, rfl⟩
  have hplain : Plain ks attrs { d with decisions, resolved := none } := hrecalled.release.toPlain
  obtain ⟨w', htry, hlog⟩ := hplain.trySelect_of_slot hslot (kernel choice.index k) none memory w
  rw [htakes memory rfl w] at htry
  have hupdate : d.update memory w = (.ok true,
      { d with decisions, resolved := some (memory.descriptors, choice.index) }, w') := by
    unfold Dispatcher.update
    rw [current?_eq_none hother]
    unfold Dispatcher.resolve
    simp only [huse, hfound, hroute, htry]
  rw [hupdate]
  refine ⟨?_, ⟨[], hlog, ?_⟩, fun hr => absurd rfl hr⟩
  · rw [use?_of_taken hother (by rw [hupdate])]
    exact hrecalled
  · exact ⟨fun hnew => absurd hnew not_hasPredicate_nil, fun hnew => absurd hmem hnew.2⟩

/-- On all other operands the candidates are asked one after the other. -/
theorem Recalls.update_forgotten (h : Recalls ks attrs n past d) (hne : ks ≠ [])
    (hplain : ∀ k ∈ ks, k.Plain attrs) {memory : Bindings}
    (hother : d.resolved.map Prod.fst ≠ some memory.descriptors)
    (hmem : memory.descriptors ∉ Recency.latest n past) (w : World (Inquired σ)) :
    UpdateRecalls ks attrs n past d memory w (d.update memory w) := by
  have hforgotten : d.decisions.use? memory.descriptors = none :=
    Recency.use?_eq_none_iff.2 (h.keys_eq ▸ hmem)
  have hupdate : d.update memory w =
      Dispatcher.walkAll { d with resolved := none } memory w := by
    unfold Dispatcher.update
    rw [current?_eq_none hother]
    unfold Dispatcher.resolve
    simp only [hforgotten]
  have hwalk := h.release.toPlain.walkAll hne hplain memory w
  rw [← hupdate] at hwalk
  rcases hwalk with ⟨hrefused, hends⟩ | ⟨i, slot, d₁, hends, hslot, htakes, htaken, hd⟩
  · obtain ⟨new, hlog, hasked⟩ := hends.entered
    refine ⟨?_, ⟨new, hlog, fun _ => ⟨hother, hmem⟩, fun _ => hasked⟩,
      fun _ => ⟨hends.grows.decisions_eq, hmem⟩⟩
    rw [use?_of_refused hrefused]
    exact h.release.grow hends.plain hends.grows
  · obtain ⟨new, hlog, hasked⟩ := hends.entered
    refine ⟨?_, ⟨new, hlog, fun _ => ⟨hother, hmem⟩, fun _ => hasked⟩,
      fun hr => absurd htaken hr⟩
    rw [use?_of_taken hother htaken, hd]
    exact (h.release.grow hends.plain hends.grows).decide hslot htakes

theorem Recalls.update (h : Recalls ks attrs n past d) (hne : ks ≠ [])
    (hplain : ∀ k ∈ ks, k.Plain attrs) (memory : Bindings) (w : World (Inquired σ)) :
    UpdateRecalls ks attrs n past d memory w (d.update memory w) := by
  by_cases hsame : d.resolved.map Prod.fst = some memory.descriptors
  · obtain ⟨⟨ds, i⟩, hres, rfl⟩ := Option.map_eq_some_iff.1 hsame
    exact h.update_inForce hres w
  · by_cases hmem : memory.descriptors ∈ Recency.latest n past
    · exact h.update_remembered hsame hmem w
    · exact h.update_forgotten hne hplain hsame hmem w

/-! ## Histories -/

/-- The signatures that the updates of a history resolve anew, the latest first. -/
def uses [Operation α] (s : Dispatcher α σ × World σ) : List (Call σ) → List Signature
  | [] => []
  | call :: calls => uses (perform s call) calls ++ (call.operands?.bind (use? s)).toList

theorem Recalls.after [Operation α] (hne : ks ≠ []) (hplain : ∀ k ∈ ks, k.Plain attrs)
    {s : Dispatcher α (Inquired σ) × World (Inquired σ)} (h : Recalls ks attrs n past s.1)
    (calls : List (Call (Inquired σ))) :
    Recalls ks attrs n (uses s calls ++ past) (after s calls).1 := by
  induction calls generalizing past s with
  | nil => exact h
  | cons c calls ih =>
    rw [uses, List.append_assoc]
    refine ih (s := perform s c) ?_
    cases c with
    | update memory => exact (h.update hne hplain memory s.2).recalls
    | execute memory =>
      show Recalls ks attrs n _ (s.1.execute memory s.2).2.1
      rw [execute_dispatcher]
      exact (h.update hne hplain memory s.2).recalls
    | elsewhere change => exact h

/-- Let no candidate ask for other descriptors, and let what they build answer updates from
    descriptors. After every history, an update evaluates predicates exactly if its signature is
    neither in force nor among the latest that were resolved, as many as there is room for; those
    are what is remembered. If no candidate takes the operands, everything remembered stays and
    nothing is added. The signature in force is always the latest one that is remembered, for the
    candidate in force. -/
theorem predicates_asked_iff [Operation α] {ks : List (Kernel α σ)} (hne : ks ≠ []) {attrs : α}
    (hplain : ∀ k ∈ ks, k.Plain attrs) (constraints : Constraints) (context : Context)
    (w : World (Inquired σ)) (calls : List (Call (Inquired σ))) (memory : Bindings) :
    let first := (ofCandidates (kernels ks) attrs constraints context, w)
    let s := after first calls
    let r := s.1.update memory s.2
    let remembered := Recency.latest context.cacheSize (uses first calls)
    (∃ new, r.2.2.ambient.log = new ++ s.2.ambient.log ∧
      ((∃ q ∈ new, q.isPredicate = true) ↔
        s.1.resolved.map Prod.fst ≠ some memory.descriptors ∧
          memory.descriptors ∉ remembered)) ∧
    s.1.decisions.keys = remembered ∧
    (r.1 ≠ .ok true → r.2.1.decisions = s.1.decisions ∧ memory.descriptors ∉ remembered) ∧
    ∀ ds i, s.1.resolved = some (ds, i) →
      s.1.decisions.entries.head? = some (ds, ⟨i, none⟩) := by
  intro first s r remembered
  have hstart : Recalls ks attrs context.cacheSize [] first.1 :=
    recalls_ofCandidates ks attrs constraints context
  have hrecalls : Recalls ks attrs context.cacheSize (uses first calls) s.1 := by
    have hafter := hstart.after hne hplain calls
    rw [List.append_nil] at hafter
    exact hafter
  have hupdate := hrecalls.update hne hplain memory s.2
  exact ⟨hupdate.entered, hrecalls.keys_eq, hupdate.refused, hrecalls.inForce⟩

/-! ## Two signatures and room for one -/

/-- Scales everything. -/
def anyScript : Script := { name := "any" }

/-- A kernel for vectors whose size is a multiple of four, and one for all others. -/
def quadsOrAny : List (Kernel Scaling Journal) := [Factory.quads, anyScript.kernel .single]

/-- Updates to four elements and then to three. -/
def vectorCalls : List (Call (Inquired Journal)) :=
  [.update (Factory.vectorPair 4 0 1), .update (Factory.vectorPair 3 2 3)]

/-- With room for one decision only the vectors of three elements are remembered, so going back to
    those of four the predicates are evaluated again. -/
theorem quads_asked_again :
    let first := (ofCandidates (kernels quadsOrAny) ⟨.zero⟩ ∅
      (.ofSettings { cacheSize := 1 }), start Factory.fourVectors)
    let s := after first vectorCalls
    let r := s.1.update (Factory.vectorPair 4 0 1) s.2
    Recency.latest 1 (uses first vectorCalls) = [(Factory.vectorPair 3 2 3).descriptors] ∧
      s.1.resolvedIndex = some 1 ∧
      ∃ new, r.2.2.ambient.log = new ++ s.2.ambient.log ∧ ∃ q ∈ new, q.isPredicate = true := by
  intro first s r
  have hplain : ∀ k ∈ quadsOrAny, k.Plain ⟨.zero⟩ := by
    simp only [quadsOrAny, List.mem_cons, List.not_mem_nil, or_false, forall_eq_or_imp, forall_eq]
    exact ⟨Script.plain _ _ rfl rfl rfl, Script.plain _ _ rfl rfl rfl⟩
  have hlatest : Recency.latest 1 (uses first vectorCalls) =
      [(Factory.vectorPair 3 2 3).descriptors] := by decide +kernel
  obtain ⟨⟨new, hlog, hasked⟩, -⟩ := predicates_asked_iff (List.cons_ne_nil _ _) hplain ∅
    (.ofSettings { cacheSize := 1 }) (start Factory.fourVectors) vectorCalls
    (Factory.vectorPair 4 0 1)
  refine ⟨hlatest, by decide +kernel, new, hlog, hasked.2 ⟨by decide +kernel, ?_⟩⟩
  show _ ∉ Recency.latest 1 (uses first vectorCalls)
  rw [hlatest]
  decide +kernel

end Dispatcher

end KernelDispatch
