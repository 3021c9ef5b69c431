import KernelDispatch.Proofs.Adapter.Confined
import KernelDispatch.Scripted

/-
  What scripted kernels compute. A run overwrites the destination with the scaled source or leaves
  the store as it is (`Script.execute_store`), and the answer and the bytes that it leaves follow
  from the bytes that it finds (`Script.execute_alike`): a scripted kernel reaches nothing but its
  operands and its journal (`Script.confined`).
-/

namespace KernelDispatch

variable {σ : Type}

theorem Session.Alike.bound {b b' : Bindings} {s s' : Session σ} (h : Session.Alike b s b' s')
    {p : Operand} {m : Memory} (hm : b.get? p = some m) :
    ∃ m', b'.get? p = some m' ∧ m'.desc = m.desc ∧ s.store.contents m = s'.store.contents m' := by
  have hdesc : b'.descriptors.get? p = some m.desc := by
    rw [← h.descriptors, Bindings.get?_descriptors, hm]
    rfl
  rw [Bindings.get?_descriptors, Option.map_eq_some_iff] at hdesc
  obtain ⟨m', hm', hd⟩ := hdesc
  exact ⟨m', hm', hd, h.contents p m m' hm hm'⟩

theorem Session.Alike.unbound {b b' : Bindings} {s s' : Session σ} (h : Session.Alike b s b' s')
    {p : Operand} (hnone : b.get? p = none) : b'.get? p = none := by
  have hdesc : b'.descriptors.get? p = none := by
    rw [← h.descriptors, Bindings.get?_descriptors, hnone]
    rfl
  rw [Bindings.get?_descriptors, Option.map_eq_none_iff] at hdesc
  exact hdesc

namespace Script

variable (arith : Arithmetic) (op : Scaling)

/-- What a scripted kernel writes for a source with the given bytes. -/
def scaled (source : Bytes) : Bytes :=
  Bytes.ofSingles (source.singles.map fun x => arith.mul x op.factor)

/-- The destination is overwritten in the size that it has. -/
theorem scale_eq_ok {b : Bindings} {s s' : Store} (h : scale arith op b s = .ok s') :
    ∃ m m', b.get? (.source 0) = some m ∧ b.get? (.destination 0) = some m' ∧
      (scaled arith op (s.contents m)).size = (s.contents m').size ∧
      s' = s.put m'.cell (scaled arith op (s.contents m)) := by
  unfold scale Bindings.require at h
  cases hm : b.get? (.source 0) with
  | none =>
    rw [hm] at h
    cases h
  | some m =>
  cases hm' : b.get? (.destination 0) with
  | none =>
    rw [hm, hm'] at h
    by_cases htype : m.desc.elementType = .f32 <;>
      simp [Store.readPhysical, htype, bind, Except.bind] at h
  | some m' =>
    rw [hm, hm'] at h
    by_cases htype : m.desc.elementType = .f32
    · simp only [Store.readPhysical, htype, if_true, bind, Except.bind, Store.writePhysical] at h
      split at h
      · cases h
      · split at h
        · cases h
        · rename_i hsize
          cases h
          refine ⟨m, m', rfl, rfl, ?_, rfl⟩
          rw [scaled, Bytes.size_ofSingles]
          exact (Decidable.not_not.1 hsize).symm
    · simp [Store.readPhysical, htype, bind, Except.bind] at h

/-- Scaling fails or succeeds whatever the cells are. -/
theorem scale_alike {b b' : Bindings} {s s' : Session σ} (h : Session.Alike b s b' s') :
    (∃ e, scale arith op b s.store = .error e ∧ scale arith op b' s'.store = .error e) ∨
      ∃ t t', scale arith op b s.store = .ok t ∧ scale arith op b' s'.store = .ok t' := by
  unfold scale Bindings.require
  cases hm : b.get? (.source 0) with
  | none => exact .inl ⟨_, rfl, by rw [h.unbound hm]; rfl⟩
  | some m =>
  obtain ⟨m₁, hm₁, hdesc, hbytes⟩ := h.bound hm
  rw [hm₁]
  by_cases htype : m.desc.elementType = .f32
  · cases hm' : b.get? (.destination 0) with
    | none =>
      refine .inl ⟨.unbound (.destination 0), ?_, ?_⟩
      · simp [Store.readPhysical, htype, bind, Except.bind]
      · simp [Store.readPhysical, hdesc, htype, h.unbound hm', bind, Except.bind]
    | some m' =>
      obtain ⟨m₁', hm₁', hdesc', hbytes'⟩ := h.bound hm'
      simp only [Store.readPhysical, hdesc, htype, if_true, bind, Except.bind, hm₁', hbytes,
        Store.writePhysical, hdesc', Store.byteLength, hbytes']
      split
      · exact .inl ⟨_, rfl, rfl⟩
      · split
        · exact .inl ⟨_, rfl, rfl⟩
        · exact .inr ⟨_, _, rfl, rfl⟩
  · refine .inl ⟨.elementType m.desc.elementType, ?_, ?_⟩
    · simp [Store.readPhysical, htype, bind, Except.bind]
    · simp [Store.readPhysical, hdesc, htype, bind, Except.bind]

/-- A memory after one has been overwritten in its size, which may be the same one. -/
theorem contents_put_of_size {s : Store} {m' : Memory} {bytes : Bytes}
    (hsize : bytes.size = (s.contents m').size) (m : Memory) :
    (s.put m'.cell bytes).contents m = if m.cell = m'.cell then bytes else s.contents m := by
  unfold Store.contents at hsize ⊢
  rw [Store.bytes_put]
  by_cases hcell : m.cell = m'.cell
  · rw [if_pos hcell, hcell]
    split
    · rfl
    · -- a cell that does not exist has no bytes, and takes none
      rename_i hout
      have hempty : s.bytes m'.cell = #[] := by
        unfold Store.bytes
        rw [Array.getD_eq_getD_getElem?, Array.getElem?_eq_none]
        · rfl
        · exact Nat.le_of_not_lt fun hlt => hout ⟨rfl, hlt⟩
      rw [hempty] at hsize ⊢
      exact (Array.size_eq_zero_iff.1 hsize).symm
  · rw [if_neg hcell, if_neg fun h => hcell h.1.symm]

/-- A memory after a destination of its size has been overwritten. -/
theorem contents_put_destination {b : Bindings} (hd : b.Distinct) {s : Store} {m' : Memory}
    (hm' : b.get? (.destination 0) = some m') {bytes : Bytes}
    (hsize : bytes.size = (s.contents m').size) {p : Operand} {m : Memory}
    (hm : b.get? p = some m) : (s.put m'.cell bytes).contents m =
      if p = .destination 0 then bytes else s.contents m := by
  rw [contents_put_of_size hsize]
  by_cases hp : p = .destination 0
  · rw [hp, hm'] at hm
    cases hm
    rw [if_pos hp, if_pos rfl]
  · rw [if_neg hp, if_neg fun hcell => hp (hd p _ m m' hm hm' hcell)]

/-- A question is entered into the journal; the store stays as it is. -/
theorem reply_store {β : Type} (script : Script) (q : Question) (replies : List β) (usual : β)
    (b : Bindings) (s : Session Journal) :
    (script.reply q replies usual b s).2.store = s.store := rfl

theorem reply_alike {β : Type} (script : Script) (q : Question) (replies : List β) (usual : β)
    {b b' : Bindings} {s s' : Session Journal} (h : Session.Alike b s b' s') :
    (script.reply q replies usual b s).1 = (script.reply q replies usual b' s').1 ∧
      Session.Alike b (script.reply q replies usual b s).2 b'
        (script.reply q replies usual b' s').2 := by
  refine ⟨?_, h.descriptors, h.contents, ?_⟩
  · simp only [reply, h.ambient]
  · simp only [reply, Session.enter, h.ambient, h.descriptors]

theorem update_store (script : Script) (b : Bindings) (s : Session Journal) :
    (script.update b s).2.store = s.store := by
  have hstore := script.reply_store .update script.updates .bySize b s
  unfold update
  generalize script.reply .update script.updates .bySize b s = r at hstore ⊢
  obtain ⟨_ | _ | _, s₁⟩ := r <;> exact hstore

/-- A run leaves the store as it was, or overwrites the destination. -/
theorem execute_store (script : Script) (b : Bindings) (s : Session Journal) :
    (script.execute arith op b s).2.store = s.store ∨
      ∃ m m', b.get? (.source 0) = some m ∧ b.get? (.destination 0) = some m' ∧
        (scaled arith op (s.store.contents m)).size = (s.store.contents m').size ∧
        (script.execute arith op b s).2.store =
          s.store.put m'.cell (scaled arith op (s.store.contents m)) := by
  have hstore := script.reply_store .execute script.runs .done b s
  unfold execute
  generalize script.reply .execute script.runs .done b s = r at hstore ⊢
  obtain ⟨_ | _, s₁⟩ := r
  · dsimp only at hstore ⊢
    rw [← hstore]
    cases hscale : scale arith op b s₁.store with
    | error e => exact .inl rfl
    | ok store => exact .inr (scale_eq_ok arith op hscale)
  · exact .inl hstore

/-- The bytes of the operands after a run depend on their bytes before it. -/
theorem execute_alike (script : Script) {b b' : Bindings} (hd : b.Distinct) (hd' : b'.Distinct)
    {s s' : Session Journal} (h : Session.Alike b s b' s') :
    (script.execute arith op b s).1 = (script.execute arith op b' s').1 ∧
      Session.Alike b (script.execute arith op b s).2 b' (script.execute arith op b' s').2 := by
  obtain ⟨hreply, halike⟩ := script.reply_alike .execute script.runs .done h
  unfold execute
  generalize script.reply .execute script.runs .done b s = r at hreply halike ⊢
  generalize script.reply .execute script.runs .done b' s' = r' at hreply halike ⊢
  obtain ⟨reply, s₁⟩ := r
  obtain ⟨reply', s₁'⟩ := r'
  dsimp only at hreply halike
  subst hreply
  cases reply with
  | failed => exact ⟨rfl, halike⟩
  | done =>
    rcases scale_alike arith op halike with ⟨e, hscale, hscale'⟩ | ⟨t, t', hscale, hscale'⟩
    · dsimp only
      rw [hscale, hscale']
      exact ⟨rfl, halike⟩
    · obtain ⟨m, n, hm, hn, hsize, rfl⟩ := scale_eq_ok arith op hscale
      obtain ⟨m', n', hm', hn', hsize', rfl⟩ := scale_eq_ok arith op hscale'
      dsimp only
      rw [hscale, hscale']
      refine ⟨rfl, halike.descriptors, fun p q q' hq hq' => ?_, halike.ambient⟩
      show (s₁.store.put _ _).contents q = (s₁'.store.put _ _).contents q'
      rw [contents_put_destination hd hn hsize hq, contents_put_destination hd' hn' hsize' hq',
        halike.contents _ m m' hm hm', halike.contents p q q' hq hq']

theorem confined_execute (script : Script) : Confined (script.execute arith op) := by
  refine ⟨fun b s => ?_, fun b s c _ => ?_, fun b s c _ hapart => ?_⟩
  · rcases script.execute_store arith op b s with h | ⟨m, m', hm, hm', hsize, h⟩
    · exact Nat.le_of_eq (congrArg (·.cells.size) h.symm)
    · rw [h]
      exact Nat.le_of_eq Array.size_setIfInBounds.symm
  · rcases script.execute_store arith op b s with h | ⟨m, m', hm, hm', hsize, h⟩
    · rw [h]
    · rw [h, s.store.size_put m' hsize]
  · rcases script.execute_store arith op b s with h | ⟨m, m', hm, hm', hsize, h⟩
    · rw [h]
    · rw [h, Store.bytes_put, if_neg fun hcell => hapart _ m' hm' hcell.1]

/-- What a scripted kernel builds reaches its operands and the journal only. -/
theorem confined (script : Script) :
    (⟨script.update, script.execute arith op⟩ : Runner Journal).Confined := by
  refine ⟨⟨fun b s => ?_, fun b s c _ => ?_, fun b s c _ _ => ?_⟩, script.confined_execute arith op,
    fun b b' s s' hd hd' h => ?_⟩
  · exact Nat.le_of_eq (congrArg (·.cells.size) (script.update_store b s).symm)
  · rw [script.update_store b s]
  · rw [script.update_store b s]
  · exact script.execute_alike arith op hd hd' h

end Script

end KernelDispatch
