import KernelDispatch.World

/-
  Operands with replacements. `OrderedMap.replacedBy` puts the entries of one map in place of those
  of another; staged operands carry the descriptors of the bound operands with the requested ones
  in place (`stageFrom_eq_ok`), and staging fails exactly when some requested descriptor cannot be
  allocated (`stageFrom_eq_error`).
-/

namespace KernelDispatch

namespace OrderedMap

variable {κ α : Type} [KeyOrder κ]

theorem nodup_keys (m : OrderedMap κ α) : m.keys.Nodup := by
  unfold keys List.Nodup
  refine List.pairwise_map.2 (m.ordered.imp fun {a b} hlt heq => ?_)
  rw [heq] at hlt
  exact KeyOrder.lt_irrefl _ hlt

/-- Puts entries into a map one after the other. -/
def insertAll (m : OrderedMap κ α) (es : List (κ × α)) : OrderedMap κ α :=
  es.foldl (fun m e => m.insert e.1 e.2) m

/-- The map with the entries of `n` in place of its own. -/
def replacedBy (m n : OrderedMap κ α) : OrderedMap κ α := m.insertAll n.entries

theorem get?_insertAll (m : OrderedMap κ α) {es : List (κ × α)}
    (h : es.Pairwise fun a b => a.1 < b.1) (k : κ) :
    (m.insertAll es).get? k = (find k es).or (m.get? k) := by
  induction es generalizing m with
  | nil => rfl
  | cons e es ih =>
    obtain ⟨hlt, htail⟩ := List.pairwise_cons.1 h
    show ((m.insert e.1 e.2).insertAll es).get? k = _
    rw [ih (m.insert e.1 e.2) htail, get?_insert]
    by_cases hk : k = e.1
    · rw [hk, find_eq_none_of_lt hlt]
      simp [find]
    · simp [find, hk]

theorem get?_replacedBy (m n : OrderedMap κ α) (k : κ) :
    (m.replacedBy n).get? k = (n.get? k).or (m.get? k) := get?_insertAll m n.ordered k

theorem replacedBy_empty (m : OrderedMap κ α) : m.replacedBy ∅ = m := rfl

/-- A condition on all entries is one on all look-ups. -/
theorem all_eq_true_iff (m : OrderedMap κ α) (p : κ → α → Bool) :
    m.all p = true ↔ ∀ k v, m.get? k = some v → p k v = true := by
  simp only [all, List.all_eq_true, get?_eq_some_iff, Prod.forall]

end OrderedMap

/-! ## Descriptors that can be allocated -/

/-- Memory for the descriptor can be made. -/
def Descriptor.Allocatable (d : Descriptor) : Prop := ∃ n, d.requiredBytes = .ok n

theorem Descriptor.isOk_requiredBytes_iff (d : Descriptor) :
    d.requiredBytes.isOk = true ↔ d.Allocatable := by
  unfold Allocatable
  cases d.requiredBytes with
  | ok n => simp [Except.isOk, Except.toBool]
  | error e => simp [Except.isOk, Except.toBool]

namespace Descriptors

/-- Memory for every descriptor can be made. -/
def Allocatable (ds : Descriptors) : Prop := ∀ p d, ds.get? p = some d → d.Allocatable

/-- Whether memory for every descriptor can be made. -/
def stageable (ds : Descriptors) : Bool := ds.all fun _ d => d.requiredBytes.isOk

theorem stageable_iff (ds : Descriptors) : ds.stageable = true ↔ ds.Allocatable := by
  simp only [stageable, OrderedMap.all_eq_true_iff, Descriptor.isOk_requiredBytes_iff, Allocatable]

end Descriptors

namespace Bindings

/-- Every bound memory can have been made. -/
def Allocatable (b : Bindings) : Prop := b.descriptors.Allocatable

theorem require_eq_ok_iff (b : Bindings) (p : Operand) (m : Memory) :
    b.require p = .ok m ↔ b.get? p = some m := by
  unfold require
  cases b.get? p with
  | none => simp
  | some m' => simp

theorem descriptors_insert (b : Bindings) (p : Operand) (m : Memory) :
    descriptors (b.insert p m) = b.descriptors.insert p m.desc := by
  refine OrderedMap.ext_get? fun q => ?_
  rw [get?_descriptors, OrderedMap.get?_insert, OrderedMap.get?_insert, get?_descriptors]
  split <;> rfl

/-- A memory set with the given descriptors. -/
def ofDescriptors (ds : Descriptors) : Bindings := ds.map fun _ d => ⟨d, 0⟩

@[simp] theorem descriptors_ofDescriptors (ds : Descriptors) :
    (ofDescriptors ds).descriptors = ds := by
  refine OrderedMap.ext_get? fun p => ?_
  rw [get?_descriptors, ofDescriptors, OrderedMap.get?_map]
  cases ds.get? p <;> rfl

end Bindings

/-! ## Lending and staging -/

namespace World

variable {σ β : Type}

theorem lend_eq_ok (w : World σ) {d : Descriptor} (h : d.Allocatable) :
    ∃ loan w', w.lend d = .ok (loan, w') ∧ loan.memory.desc = d := by
  obtain ⟨n, hn⟩ := h
  cases hfit : Scratch.fitting? w.scratch.pool n with
  | none =>
    exact ⟨⟨⟨d, (w.store.push (Bytes.zeros n)).1⟩, n⟩, _,
      by simp only [lend, Scratch.acquire, hn, hfit]; rfl, rfl⟩
  | some found =>
    exact ⟨⟨⟨d, found.1.cell⟩, found.1.capacity⟩, _,
      by simp only [lend, Scratch.acquire, hn, hfit]; rfl, rfl⟩

theorem lend_eq_error (w : World σ) {d : Descriptor} {e : MemoryError}
    (h : d.requiredBytes = .error e) : w.lend d = .error e := by
  unfold lend Scratch.acquire
  rw [h]

theorem stageFrom_eq_ok (memory : Bindings) (es : List (Operand × Descriptor))
    (hbound : ∀ e ∈ es, ∃ m, memory.get? e.1 = some m) (hall : ∀ e ∈ es, e.2.Allocatable)
    (staged : Bindings) (loans : List Loan) (w : World σ) :
    ∃ staged' loans' w', stageFrom memory es staged loans w = (.ok staged', loans', w') ∧
      staged'.descriptors = staged.descriptors.insertAll es := by
  induction es generalizing staged loans w with
  | nil => exact ⟨staged, loans, w, rfl, rfl⟩
  | cons e es ih =>
    obtain ⟨p, d⟩ := e
    obtain ⟨m, hm⟩ := hbound _ List.mem_cons_self
    obtain ⟨loan, w₁, hlend, hdesc⟩ := w.lend_eq_ok (hall _ List.mem_cons_self)
    obtain ⟨staged', loans', w', hstage, hds⟩ :=
      ih (fun e he => hbound e (List.mem_cons_of_mem _ he))
        (fun e he => hall e (List.mem_cons_of_mem _ he))
        (staged.insert p loan.memory) (loans ++ [loan]) w₁
    refine ⟨staged', loans', w', ?_, ?_⟩
    · simp only [stageFrom, (memory.require_eq_ok_iff p m).2 hm, hlend, hstage]
    · rw [hds, Bindings.descriptors_insert, hdesc]
      rfl

theorem stageFrom_eq_error (memory : Bindings) (es : List (Operand × Descriptor))
    (h : ∃ e ∈ es, ¬ e.2.Allocatable) (staged : Bindings) (loans : List Loan) (w : World σ) :
    ∃ e loans' w', stageFrom memory es staged loans w = (.error e, loans', w') := by
  induction es generalizing staged loans w with
  | nil => simp at h
  | cons e es ih =>
    obtain ⟨p, d⟩ := e
    cases hreq : memory.require p with
    | error e => exact ⟨e, loans, w, by simp only [stageFrom, hreq]⟩
    | ok m =>
      cases hbytes : d.requiredBytes with
      | error e =>
        exact ⟨e, loans, w, by simp only [stageFrom, hreq, w.lend_eq_error hbytes]⟩
      | ok n =>
        obtain ⟨loan, w₁, hlend, -⟩ := w.lend_eq_ok ⟨n, hbytes⟩
        have hrest : ∃ e ∈ es, ¬ e.2.Allocatable := by
          obtain ⟨e, he, hbad⟩ := h
          rcases List.mem_cons.1 he with rfl | he
          · exact absurd ⟨n, hbytes⟩ hbad
          · exact ⟨e, he, hbad⟩
        obtain ⟨e, loans', w', hstage⟩ :=
          ih hrest (staged.insert p loan.memory) (loans ++ [loan]) w₁
        exact ⟨e, loans', w', by simp only [stageFrom, hreq, hlend, hstage]⟩

/-- With all operands bound and all descriptors allocatable, a step runs on operands that carry the
    wanted descriptors. -/
theorem withStaged_fst (w : World σ) (memory : Bindings) {wanted : Descriptors}
    (hbound : ∀ p d, wanted.get? p = some d → ∃ m, memory.get? p = some m)
    (hall : wanted.Allocatable) (body : Bindings → World σ → Except Error β × World σ) :
    ∃ staged w', staged.descriptors = memory.descriptors.replacedBy wanted ∧
      (w.withStaged memory wanted body).1 = (body staged w').1 := by
  obtain ⟨staged, loans, w', hstage, hds⟩ := stageFrom_eq_ok memory wanted.entries
    (fun e he => hbound e.1 e.2 ((wanted.get?_eq_some_iff).2 he))
    (fun e he => hall e.1 e.2 ((wanted.get?_eq_some_iff).2 he)) memory [] w
  refine ⟨staged, w', hds, ?_⟩
  simp only [withStaged, hstage]

/-- A step is not reached when some descriptor cannot be allocated. -/
theorem withStaged_error (w : World σ) (memory : Bindings) {wanted : Descriptors}
    (h : ¬ wanted.Allocatable) (body : Bindings → World σ → Except Error β × World σ) :
    ∃ e, (w.withStaged memory wanted body).1 = .error (.memory e) := by
  simp only [Descriptors.Allocatable, Classical.not_forall] at h
  obtain ⟨p, d, hd, hbad⟩ := h
  obtain ⟨e, loans, w', hstage⟩ := stageFrom_eq_error memory wanted.entries
    ⟨(p, d), (wanted.get?_eq_some_iff).1 hd, hbad⟩ memory [] w
  exact ⟨e, by simp only [withStaged, hstage]⟩

/-- Conversions change the store at most, even if one of them fails. -/
theorem convertOperands_snd (source target : Bindings) (ps : List Operand) (w : World σ) :
    ∃ store, (convertOperands source target ps w).2 = { w with store } := by
  induction ps generalizing w with
  | nil => exact ⟨w.store, rfl⟩
  | cons p ps ih =>
    rw [convertOperands]
    split
    · split
      · exact ih _
      · exact ⟨w.store, rfl⟩
    · exact ⟨w.store, rfl⟩
    · exact ⟨w.store, rfl⟩

end World

end KernelDispatch
