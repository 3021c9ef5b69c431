/-
  Maps whose entries are kept in the order of their keys.
  The order is part of the type, so two maps are equal exactly when they answer every look-up
  alike (`OrderedMap.ext_get?`), and a walk over the entries always follows the keys.
-/

namespace KernelDispatch

/-- A strict total order on keys that can be decided. -/
class KeyOrder (κ : Type) extends LT κ where
  decidableEq : DecidableEq κ
  decidableLt : ∀ a b : κ, Decidable (a < b)
  lt_irrefl : ∀ a : κ, ¬ a < a
  lt_trans : ∀ {a b c : κ}, a < b → b < c → a < c
  connected : ∀ a b : κ, a < b ∨ a = b ∨ b < a

attribute [reducible, instance] KeyOrder.decidableEq KeyOrder.decidableLt

/-- Entries in strictly increasing order of their keys. -/
structure OrderedMap (κ α : Type) [KeyOrder κ] where
  entries : List (κ × α)
  ordered : entries.Pairwise fun a b => a.1 < b.1
  deriving DecidableEq

namespace OrderedMap

variable {κ α β : Type} [KeyOrder κ]

instance : EmptyCollection (OrderedMap κ α) := ⟨⟨[], .nil⟩⟩

instance : Inhabited (OrderedMap κ α) := ⟨∅⟩

/-! ## Look-up -/

/-- The value of the first entry with key `k`. -/
def find (k : κ) : List (κ × α) → Option α
  | [] => none
  | (k', v) :: rest => if k = k' then some v else find k rest

/-- The value stored at `k`. -/
def get? (m : OrderedMap κ α) (k : κ) : Option α := find k m.entries

def contains (m : OrderedMap κ α) (k : κ) : Bool := (m.get? k).isSome

def keys (m : OrderedMap κ α) : List κ := m.entries.map (·.1)

def size (m : OrderedMap κ α) : Nat := m.entries.length

def isEmpty (m : OrderedMap κ α) : Bool := m.entries.isEmpty

/-- Whether `p` holds of every entry. -/
def all (m : OrderedMap κ α) (p : κ → α → Bool) : Bool := m.entries.all fun e => p e.1 e.2

theorem find_eq_none_of_lt {k : κ} {es : List (κ × α)} (h : ∀ e ∈ es, k < e.1) :
    find k es = none := by
  induction es with
  | nil => rfl
  | cons e es ih =>
    have hne : k ≠ e.1 := fun he => KeyOrder.lt_irrefl k (by simpa [he] using h e (by simp))
    simp only [find, if_neg hne]
    exact ih fun e' he' => h e' (by simp [he'])

theorem find_eq_some_iff {k : κ} {v : α} {es : List (κ × α)}
    (h : es.Pairwise fun a b => a.1 < b.1) : find k es = some v ↔ (k, v) ∈ es := by
  induction es with
  | nil => simp [find]
  | cons e es ih =>
    obtain ⟨k', v'⟩ := e
    rw [List.pairwise_cons] at h
    by_cases hk : k = k'
    · subst hk
      have hout : ∀ v, (k, v) ∉ es := fun v hv => KeyOrder.lt_irrefl k (h.1 _ hv)
      simp [find, hout, eq_comm]
    · simp [find, hk, ih h.2]

theorem get?_eq_some_iff (m : OrderedMap κ α) {k : κ} {v : α} :
    m.get? k = some v ↔ (k, v) ∈ m.entries := find_eq_some_iff m.ordered

@[simp] theorem get?_empty (k : κ) : (∅ : OrderedMap κ α).get? k = none := rfl

/-! ## Insertion -/

/-- Puts an entry where its key belongs, in place of one that has the key already. -/
def insertEntry (k : κ) (v : α) : List (κ × α) → List (κ × α)
  | [] => [(k, v)]
  | (k', v') :: rest =>
    if k < k' then (k, v) :: (k', v') :: rest
    else if k = k' then (k, v) :: rest
    else (k', v') :: insertEntry k v rest

theorem mem_insertEntry {k : κ} {v : α} {es : List (κ × α)} {e : κ × α}
    (h : e ∈ insertEntry k v es) : e = (k, v) ∨ e ∈ es := by
  induction es with
  | nil => simpa [insertEntry] using h
  | cons e' es ih =>
    simp only [insertEntry] at h
    split at h
    · simpa using h
    · split at h
      · rcases List.mem_cons.1 h with h | h
        · exact .inl h
        · exact .inr (by simp [h])
      · rcases List.mem_cons.1 h with h | h
        · exact .inr (by simp [h])
        · rcases ih h with h | h
          · exact .inl h
          · exact .inr (by simp [h])

theorem insertEntry_ordered (k : κ) (v : α) {es : List (κ × α)}
    (h : es.Pairwise fun a b => a.1 < b.1) :
    (insertEntry k v es).Pairwise fun a b => a.1 < b.1 := by
  induction es with
  | nil => exact List.pairwise_singleton _ _
  | cons e es ih =>
    obtain ⟨k', v'⟩ := e
    have h' := List.pairwise_cons.1 h
    simp only [insertEntry]
    split
    · rename_i hlt
      refine List.pairwise_cons.2 ⟨fun b hb => ?_, h⟩
      rcases List.mem_cons.1 hb with rfl | hb
      · exact hlt
      · exact KeyOrder.lt_trans hlt (h'.1 b hb)
    · split
      · rename_i heq
        exact List.pairwise_cons.2 ⟨fun b hb => heq ▸ h'.1 b hb, h'.2⟩
      · rename_i hlt hne
        refine List.pairwise_cons.2 ⟨fun b hb => ?_, ih h'.2⟩
        rcases mem_insertEntry hb with rfl | hb
        · exact ((KeyOrder.connected k k').resolve_left hlt).resolve_left hne
        · exact h'.1 b hb

/-- Stores `v` at `k`, in place of any value that was there. -/
def insert (m : OrderedMap κ α) (k : κ) (v : α) : OrderedMap κ α :=
  ⟨insertEntry k v m.entries, insertEntry_ordered k v m.ordered⟩

theorem find_insertEntry (k j : κ) (v : α) (es : List (κ × α)) :
    find j (insertEntry k v es) = if j = k then some v else find j es := by
  induction es with
  | nil => simp [insertEntry, find]
  | cons e es ih =>
    obtain ⟨k', v'⟩ := e
    simp only [insertEntry]
    split
    · simp [find]
    · split
      · rename_i heq
        subst heq
        by_cases hj : j = k <;> simp [find, hj]
      · rename_i hne
        by_cases hj : j = k'
        · subst hj
          have : j ≠ k := fun h => hne h.symm
          simp [find, this]
        · simp [find, hj, ih]

theorem get?_insert (m : OrderedMap κ α) (k j : κ) (v : α) :
    (m.insert k v).get? j = if j = k then some v else m.get? j :=
  find_insertEntry k j v m.entries

/-- The map with the given entries; of two with the same key the later one counts. -/
def ofList (es : List (κ × α)) : OrderedMap κ α := es.foldl (fun m e => m.insert e.1 e.2) ∅

/-! ## Mapping over the entries -/

theorem filterMap_ordered (f : κ → α → Option β) {es : List (κ × α)}
    (h : es.Pairwise fun a b => a.1 < b.1) :
    (es.filterMap fun e => (f e.1 e.2).map fun v => (e.1, v)).Pairwise fun a b => a.1 < b.1 := by
  refine List.Pairwise.filterMap _ (fun a a' hlt b hb b' hb' => ?_) h
  simp only [Option.map_eq_some_iff] at hb hb'
  obtain ⟨_, _, rfl⟩ := hb
  obtain ⟨_, _, rfl⟩ := hb'
  exact hlt

/-- Replaces each value, or drops its entry. -/
def filterMap (m : OrderedMap κ α) (f : κ → α → Option β) : OrderedMap κ β :=
  ⟨m.entries.filterMap fun e => (f e.1 e.2).map fun v => (e.1, v), filterMap_ordered f m.ordered⟩

/-- Replaces each value. -/
def map (m : OrderedMap κ α) (f : κ → α → β) : OrderedMap κ β :=
  ⟨m.entries.map fun e => (e.1, f e.1 e.2),
    List.pairwise_map.2 m.ordered⟩

theorem find_filterMap (f : κ → α → Option β) (k : κ) {es : List (κ × α)}
    (h : es.Pairwise fun a b => a.1 < b.1) :
    find k (es.filterMap fun e => (f e.1 e.2).map fun v => (e.1, v)) = (find k es).bind (f k) := by
  induction es with
  | nil => rfl
  | cons e es ih =>
    obtain ⟨k', v'⟩ := e
    rw [List.pairwise_cons] at h
    have ih := ih h.2
    by_cases hk : k = k'
    · subst hk
      cases hf : f k v' with
      | none => simp [hf, find, ih, find_eq_none_of_lt h.1]
      | some w => simp [hf, find]
    · cases hf : f k' v' with
      | none => simp [hf, find, hk, ih]
      | some w => simp [hf, find, hk, ih]

theorem get?_filterMap (m : OrderedMap κ α) (f : κ → α → Option β) (k : κ) :
    (m.filterMap f).get? k = (m.get? k).bind (f k) := find_filterMap f k m.ordered

theorem get?_map (m : OrderedMap κ α) (f : κ → α → β) (k : κ) :
    (m.map f).get? k = (m.get? k).map (f k) := by
  show find k (m.entries.map _) = (find k m.entries).map (f k)
  induction m.entries with
  | nil => rfl
  | cons e es ih =>
    by_cases hk : k = e.1
    · simp [find, hk]
    · simp [find, hk, ih]

@[simp] theorem keys_map (m : OrderedMap κ α) (f : κ → α → β) : (m.map f).keys = m.keys := by
  simp [keys, map]

/-! ## Equality -/

theorem entries_eq_of_find {es fs : List (κ × α)} (hes : es.Pairwise fun a b => a.1 < b.1)
    (hfs : fs.Pairwise fun a b => a.1 < b.1) (h : ∀ k, find k es = find k fs) : es = fs := by
  induction es generalizing fs with
  | nil =>
    cases fs with
    | nil => rfl
    | cons f fs => simpa [find] using h f.1
  | cons e es ih =>
    cases fs with
    | nil => simpa [find] using h e.1
    | cons f fs =>
      have he := List.pairwise_cons.1 hes
      have hf := List.pairwise_cons.1 hfs
      have hkey : e.1 = f.1 := by
        rcases KeyOrder.connected e.1 f.1 with hlt | heq | hlt
        · have hnone : find e.1 (f :: fs) = none := find_eq_none_of_lt fun g hg => by
            rcases List.mem_cons.1 hg with rfl | hg
            · exact hlt
            · exact KeyOrder.lt_trans hlt (hf.1 g hg)
          have := h e.1
          rw [hnone] at this
          simp [find] at this
        · exact heq
        · have hnone : find f.1 (e :: es) = none := find_eq_none_of_lt fun g hg => by
            rcases List.mem_cons.1 hg with rfl | hg
            · exact hlt
            · exact KeyOrder.lt_trans hlt (he.1 g hg)
          have := h f.1
          rw [hnone] at this
          simp [find] at this
      have hval : e.2 = f.2 := by simpa [find, hkey] using h e.1
      have hef : e = f := Prod.ext hkey hval
      subst hef
      congr 1
      refine ih he.2 hf.2 fun k => ?_
      by_cases hk : k = e.1
      · subst hk
        rw [find_eq_none_of_lt he.1, find_eq_none_of_lt hf.1]
      · simpa [find, hk] using h k

/-- A map is determined by its look-ups. -/
theorem ext_get? {m n : OrderedMap κ α} (h : ∀ k, m.get? k = n.get? k) : m = n := by
  obtain ⟨es, hes⟩ := m
  obtain ⟨fs, hfs⟩ := n
  have : es = fs := entries_eq_of_find hes hfs h
  subst this
  rfl

end OrderedMap

end KernelDispatch
