import KernelDispatch.Proofs.Json.Scanning
import KernelDispatch.Proofs.Settings.Policies
import KernelDispatch.Proofs.Staging

/-
  Overrides that are written and read again. A reader trims the names of policies, and a name that
  is prescribed for a key is kept as it is given; so what is read again are the overrides with
  their names trimmed (`Overrides.parse_of_writes`), and overrides are read as they were written
  exactly when no name that was prescribed last for a key has white space around it
  (`Overrides.survives_writing_iff`).
-/

namespace KernelDispatch

/-! ## Maps made by insertion -/

namespace OrderedMap

variable {κ α : Type} [KeyOrder κ]

/-- Entries with keys of their own are all found after they have been inserted. -/
theorem get?_insertAll_eq_some_iff (m : OrderedMap κ α) {es : List (κ × α)}
    (h : (es.map (·.1)).Nodup) {k : κ} {v : α} :
    (m.insertAll es).get? k = some v ↔
      (k, v) ∈ es ∨ k ∉ es.map (·.1) ∧ m.get? k = some v := by
  induction es generalizing m with
  | nil => simp [insertAll]
  | cons e es ih =>
    obtain ⟨k', v'⟩ := e
    rw [List.map_cons, List.nodup_cons] at h
    show ((m.insert k' v').insertAll es).get? k = some v ↔ _
    rw [ih (m.insert k' v') h.2, get?_insert]
    by_cases hk : k = k'
    · subst hk
      have hout : (k, v) ∉ es := fun hmem => h.1 (List.mem_map.2 ⟨_, hmem, rfl⟩)
      simp [hout, h.1, eq_comm]
    · simp [hk]

/-- The entries of a map make up the map, in whatever order they are inserted. -/
theorem insertAll_of_perm {m : OrderedMap κ α} {es : List (κ × α)} (h : es.Perm m.entries) :
    (∅ : OrderedMap κ α).insertAll es = m := by
  have hkeys : (es.map (·.1)).Nodup := (h.map _).nodup_iff.2 m.nodup_keys
  refine ext_get? fun k => Option.ext fun v => ?_
  rw [get?_insertAll_eq_some_iff _ hkeys, h.mem_iff, get?_empty, ← get?_eq_some_iff]
  simp

end OrderedMap

/-! ## Objects of policies -/

namespace Overrides

/-- What is written for members in a given order. -/
def objectTokens (members : List (String × Policy)) : List Json.Token :=
  .opening .object :: (memberTokens members ++ [.closing .object])

/-- The text is one that is written for the overrides: their members in some order. -/
def Writes (o : Overrides) (written : String) : Prop :=
  ∃ members, members.Perm o.policies.entries ∧ written = Json.write (objectTokens members)

theorem writes_text (o : Overrides) : o.Writes o.text := ⟨_, .refl _, rfl⟩

theorem isWritten_memberTokens (members : List (String × Policy)) :
    ∀ t ∈ memberTokens members, t.IsWritten ∧ t.isNumber = false := by
  fun_induction memberTokens members with
  | case1 => simp
  | case2 key p => simp [Json.Token.IsWritten, Json.Token.isNumber]
  | case3 key p rest _ ih => simpa [Json.Token.IsWritten, Json.Token.isNumber] using ih

theorem isWritten_objectTokens (members : List (String × Policy)) :
    ∀ t ∈ objectTokens members, t.IsWritten ∧ t.isNumber = false := by
  have h := isWritten_memberTokens members
  simpa [objectTokens, or_imp, forall_and, Json.Token.IsWritten, Json.Token.isNumber] using h

/-- Written members are read in order, after an opening bracket and after a comma alike. -/
theorem membersFrom?_memberTokens (care : Json.Care) (members : List (String × Policy))
    (rest : List Json.Token) {place : Json.Place}
    (h : place = .first ∨ place = .key ∧ members ≠ []) :
    Json.membersFrom? care place (memberTokens members ++ .closing .object :: rest) =
      some (members.map fun m => (m.1, some m.2.text), rest) := by
  fun_induction memberTokens members generalizing place with
  | case1 =>
    rcases h with rfl | ⟨-, h⟩
    · rfl
    · exact absurd rfl h
  | case2 key p => rcases h with rfl | ⟨rfl, -⟩ <;> rfl
  | case3 key p rest' hne ih =>
    have hlater := ih (.inr ⟨rfl, hne⟩)
    rcases h with rfl | ⟨rfl, -⟩ <;> simp [Json.membersFrom?, hlater]

theorem ofMembers_eq (o : Overrides) (members : List (String × Policy)) :
    ofMembers o (members.map fun m => (m.1, some m.2.text)) =
      .ok ⟨o.policies.insertAll (members.map fun m => (m.1, m.2.trimmed))⟩ := by
  induction members generalizing o with
  | nil => rfl
  | cons m members ih =>
    rw [List.map_cons, ofMembers, Policy.parse_text]
    exact ih _

/-- The overrides without white space around the names. -/
def trimmed (o : Overrides) : Overrides := ⟨o.policies.map fun _ p => p.trimmed⟩

theorem get?_trimmed (o : Overrides) (key : String) :
    o.trimmed.policies.get? key = (o.policies.get? key).map Policy.trimmed :=
  OrderedMap.get?_map o.policies _ key

theorem trimmed_eq_self_iff (o : Overrides) :
    o.trimmed = o ↔ ∀ key p, o.policies.get? key = some p → p.trimmed = p := by
  constructor
  · intro h key p hp
    have hget := o.get?_trimmed key
    rw [h, hp] at hget
    exact (Option.some.inj hget).symm
  · intro h
    have hpolicies : o.trimmed.policies = o.policies := by
      refine OrderedMap.ext_get? fun key => ?_
      rw [get?_trimmed]
      cases hp : o.policies.get? key with
      | none => rfl
      | some p => rw [Option.map_some, h key p hp]
    cases o
    exact congrArg Overrides.mk hpolicies

/-- The members of some overrides, in whatever order they are written, are read with their names
    trimmed. -/
theorem ofTokens_objectTokens (depth : Nat) {o : Overrides} {members : List (String × Policy)}
    (h : members.Perm o.policies.entries) (rest : List Json.Token) :
    ofTokens depth (objectTokens members ++ rest) = .ok (o.trimmed, rest) := by
  have hread : Json.members? (.keep depth) (objectTokens members ++ rest) =
      some (members.map fun m => (m.1, some m.2.text), rest) := by
    rw [objectTokens, List.cons_append, List.append_assoc]
    exact membersFrom?_memberTokens _ members rest (.inl rfl)
  have hperm : (members.map fun m => (m.1, m.2.trimmed)).Perm o.trimmed.policies.entries :=
    h.map fun m => (m.1, m.2.trimmed)
  rw [ofTokens, hread]
  simp only [ofMembers_eq]
  show Except.ok (Overrides.mk ((∅ : OrderedMap String Policy).insertAll _), rest) = _
  rw [OrderedMap.insertAll_of_perm hperm]

/-- What is written for some overrides is read as these overrides with their names trimmed. -/
theorem parse_of_writes {o : Overrides} {written : String} (h : o.Writes written) :
    parse written = .ok o.trimmed := by
  obtain ⟨members, hperm, rfl⟩ := h
  have hread := ofTokens_objectTokens (nestingLimit - 1) hperm []
  rw [List.append_nil] at hread
  rw [parse, Json.scan_write (Json.readable_of_forall (isWritten_objectTokens members)), hread]

/-- Overrides that have been read have trimmed names. -/
theorem trimmed_of_ofMembers {o o' : Overrides} {members : List Json.Member}
    (h : ofMembers o members = .ok o') (ho : o.trimmed = o) : o'.trimmed = o' := by
  induction members generalizing o with
  | nil =>
    cases h
    exact ho
  | cons m members ih =>
    obtain ⟨key, _ | s⟩ := m
    · cases h
    · rw [ofMembers] at h
      split at h
      · rename_i p hp
        refine ih h ((trimmed_eq_self_iff _).2 fun key' p' hp' => ?_)
        rw [OrderedMap.get?_insert] at hp'
        split at hp'
        · cases hp'
          exact Policy.trimmed_of_parse hp
        · exact (trimmed_eq_self_iff o).1 ho key' p' hp'
      · cases h

theorem trimmed_of_ofTokens {depth : Nat} {ts rest : List Json.Token} {o : Overrides}
    (h : ofTokens depth ts = .ok (o, rest)) : o.trimmed = o := by
  unfold ofTokens at h
  split at h
  · cases h
  · split at h
    · rename_i ho
      cases h
      exact trimmed_of_ofMembers ho rfl
    · cases h

theorem trimmed_of_parse {s : String} {o : Overrides} (h : parse s = .ok o) : o.trimmed = o := by
  unfold parse at h
  split at h
  · rename_i ho
    cases h
    exact trimmed_of_ofTokens ho
  · cases h
  · cases h

/-! ## Prescribed names -/

/-- The overrides after prescribing names for keys, in order. -/
def forceAll (o : Overrides) (calls : List (String × String)) : Overrides :=
  calls.foldl (fun o c => o.force c.1 c.2) o

/-- Of the names prescribed for a key the last one counts. -/
theorem get?_forceAll (o : Overrides) (calls : List (String × String)) (key : String) :
    (o.forceAll calls).policies.get? key =
      ((calls.reverse.lookup key).map Policy.mk).or (o.policies.get? key) := by
  induction calls using List.reverseRecOn with
  | nil => rfl
  | append_singleton calls c ih =>
    obtain ⟨k, name⟩ := c
    have hlast : o.forceAll (calls ++ [(k, name)]) = (o.forceAll calls).force k name := by
      simp [forceAll]
    rw [hlast, force, OrderedMap.get?_insert, ih, List.reverse_append]
    by_cases hk : key = k
    · simp [hk]
    · simp [hk, List.lookup_cons, beq_false_of_ne hk]

/-- Let overrides be read, or be empty, and let names be prescribed for keys. What is then written
    is read again with each name trimmed, in whatever order the members are written. So the
    overrides are read as they were written exactly when the name that was prescribed last for a
    key has no white space around it. -/
theorem survives_writing_iff {o : Overrides} (ho : o = ∅ ∨ ∃ s, parse s = .ok o)
    (calls : List (String × String)) {written : String} (h : (o.forceAll calls).Writes written) :
    parse written = .ok (o.forceAll calls).trimmed ∧
      (parse written = .ok (o.forceAll calls) ↔
        ∀ key name, calls.reverse.lookup key = some name → Text.trim name = name) := by
  have htrimmed : o.trimmed = o := by
    rcases ho with rfl | ⟨s, hs⟩
    · rfl
    · exact trimmed_of_parse hs
  have hread := parse_of_writes h
  refine ⟨hread, ?_⟩
  rw [hread, Except.ok.injEq, trimmed_eq_self_iff]
  constructor
  · intro hall key name hname
    have hget := o.get?_forceAll calls key
    rw [hname] at hget
    exact (Policy.trimmed_eq_self_iff _).1 (hall key _ hget)
  · intro hall key p hp
    rw [get?_forceAll] at hp
    cases hname : calls.reverse.lookup key with
    | none =>
      rw [hname] at hp
      exact (trimmed_eq_self_iff o).1 htrimmed key p hp
    | some name =>
      rw [hname] at hp
      cases hp
      exact (Policy.trimmed_eq_self_iff _).2 (hall key name hname)

/-- A name that is given with white space in front of it is read without it, so another kernel is
    prescribed. -/
theorem prescribed_name_loses_blank :
    let o := (∅ : Overrides).force "matmul" " matmul_ref"
    o.text = "\x7b\"matmul\":\"force= matmul_ref\"\x7d" ∧
      parse o.text = .ok ((∅ : Overrides).force "matmul" "matmul_ref") ∧
      parse o.text ≠ .ok o ∧
      o.priorityFor "matmul" = some " matmul_ref" ∧
      ((∅ : Overrides).force "matmul" "matmul_ref").priorityFor "matmul" = some "matmul_ref" := by
  intro o
  have htext : o.text = "\x7b\"matmul\":\"force= matmul_ref\"\x7d" := by decide +kernel
  have hread : parse o.text = .ok ((∅ : Overrides).force "matmul" "matmul_ref") := by
    rw [parse_of_writes o.writes_text]
    rfl
  refine ⟨htext, hread, fun h => ?_, rfl, rfl⟩
  rw [hread] at h
  have hne : (∅ : Overrides).force "matmul" "matmul_ref" ≠ o := by decide
  exact hne (Except.ok.inj h)

/-- A name with white space that was replaced since does no harm, and a name may look like a policy.
    The members are written from the last key to the first. -/
theorem replaced_name_survives :
    let o := (∅ : Overrides).force "pooling" "pool_nhwc"
    let calls := [("matmul", " matmul_ref"), ("eltwise", "force=a = b"), ("matmul", "matmul_tiled")]
    let written := Json.write (objectTokens (o.forceAll calls).policies.entries.reverse)
    (∃ s, parse s = .ok o) ∧ (o.forceAll calls).Writes written ∧
      parse written = .ok (o.forceAll calls) := by
  intro o calls written
  have ho : ∃ s, parse s = .ok o := ⟨o.text, parse_of_writes o.writes_text⟩
  have hwrites : (o.forceAll calls).Writes written := ⟨_, List.reverse_perm _, rfl⟩
  refine ⟨ho, hwrites, (survives_writing_iff (.inr ho) calls hwrites).2.2 fun key name h => ?_⟩
  have hcalls : calls.reverse =
      [("matmul", "matmul_tiled"), ("eltwise", "force=a = b"), ("matmul", " matmul_ref")] := rfl
  rw [hcalls, List.lookup_cons] at h
  by_cases hmatmul : key = "matmul"
  · rw [hmatmul, beq_self_eq_true] at h
    cases h
    decide
  · -- the name for this key was not replaced
    simp only [beq_false_of_ne hmatmul, List.lookup_cons, List.lookup_nil] at h
    split at h
    · cases h
      decide
    · cases h

end Overrides

end KernelDispatch
