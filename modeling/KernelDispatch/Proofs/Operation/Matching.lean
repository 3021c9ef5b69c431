import KernelDispatch.Operation.Access
import KernelDispatch.Proofs.Dispatch.Relaid

/-
  Descriptors with unknown extents as patterns. Operands narrow a pattern when it stands for all that
  they stand for; what depends on operands, element types, layouts and ranks is the same for them as
  for the pattern (`Narrow.formats_eq`, `Narrow.size_eq`, `Narrow.any_eq`), and what can fail only on
  known extents holds of the pattern if it holds of them (`Narrow.bothAgree`). Concrete operands match
  a pattern when they narrow it and have elements.
-/

namespace KernelDispatch

/-- A descriptor that stands for nothing but what the pattern stands for. Both may have unknown
    extents. -/
structure Descriptor.Narrows (d pattern : Descriptor) : Prop where
  elementType : d.elementType = pattern.elementType
  layout : d.layout = pattern.layout
  covered : pattern.shape.covers d.shape = true

instance {d pattern : Descriptor} : Decidable (d.Narrows pattern) :=
  decidable_of_iff (d.elementType = pattern.elementType ∧ d.layout = pattern.layout ∧
    pattern.shape.covers d.shape = true)
    ⟨fun h => ⟨h.1, h.2.1, h.2.2⟩, fun h => ⟨h.elementType, h.layout, h.covered⟩⟩

/-- The same operands as in the pattern, each with a descriptor that narrows it. -/
structure Descriptors.Narrow (ds pattern : Descriptors) : Prop where
  bound : ∀ p d, ds.get? p = some d → ∃ t, pattern.get? p = some t ∧ d.Narrows t
  complete : ∀ p t, pattern.get? p = some t → ∃ d, ds.get? p = some d

/-- A concrete descriptor with positive extents that the pattern stands for. -/
structure Descriptor.Matches (d pattern : Descriptor) : Prop where
  elementType : d.elementType = pattern.elementType
  layout : d.layout = pattern.layout
  covered : pattern.shape.covers d.shape = true
  isStatic : d.isStatic = true
  positive : d.IsPositive

/-- The same operands as in the pattern, each with a descriptor that matches. -/
structure Descriptors.Match (ds pattern : Descriptors) : Prop where
  bound : ∀ p d, ds.get? p = some d → ∃ t, pattern.get? p = some t ∧ d.Matches t
  complete : ∀ p t, pattern.get? p = some t → ∃ d, ds.get? p = some d

theorem Descriptor.Matches.narrows {d pattern : Descriptor} (h : d.Matches pattern) :
    d.Narrows pattern := ⟨h.elementType, h.layout, h.covered⟩

theorem Descriptors.Match.narrow {ds pattern : Descriptors} (h : ds.Match pattern) :
    ds.Narrow pattern := by
  refine ⟨fun p d hd => ?_, h.complete⟩
  obtain ⟨t, ht, hm⟩ := h.bound p d hd
  exact ⟨t, ht, hm.narrows⟩

theorem Shape.covers_self (s : Shape) : s.covers s = true := by
  have hextent : ∀ e : Extent, e.covers e = true := by
    rintro ⟨⟩
    · exact beq_self_eq_true _
    · rfl
  simp only [covers, beq_self_eq_true, Bool.true_and]
  induction s.extents with
  | nil => rfl
  | cons e es ih =>
    rw [List.zip_cons_cons, List.all_cons, ih, hextent]
    rfl

/-- Concrete operands with positive extents are a pattern for themselves. -/
theorem Descriptors.Match.refl {ds : Descriptors}
    (h : ∀ p d, ds.get? p = some d → d.isStatic = true ∧ d.IsPositive) : ds.Match ds :=
  ⟨fun p d hd => ⟨d, hd, rfl, rfl, d.shape.covers_self, (h p d hd).1, (h p d hd).2⟩,
    fun _ d hd => ⟨d, hd⟩⟩

/-! ## Extents -/

/-- A known extent covers nothing but itself. -/
theorem Extent.eq_of_known_covers {n : Nat} {e : Extent} (h : (known n).covers e = true) :
    e = known n := by
  cases e with
  | known m => rw [show n = m by simpa [covers, admits] using h]
  | unknown => cases h

/-- An axis of operands and the same axis of a pattern that they narrow. -/
inductive Extent.Narrows : Option Extent → Option Extent → Prop where
  | absent : Narrows none none
  | present {e pattern : Extent} (h : pattern.covers e = true) : Narrows (some e) (some pattern)

/-- Only known extents can disagree, and those of the pattern are those of the operands. -/
theorem Extent.Narrows.bothAgree {a a' b b' : Option Extent} (ha : Narrows a a')
    (hb : Narrows b b') (h : Extent.bothAgree a b = true) : Extent.bothAgree a' b' = true := by
  cases ha with
  | absent => cases h
  | @present e e' he =>
    cases hb with
    | absent => cases h
    | @present f f' hf =>
      match e', f' with
      | .unknown, _ => rfl
      | .known _, .unknown => rfl
      | .known n, .known m =>
        rw [eq_of_known_covers he, eq_of_known_covers hf] at h
        exact h

/-- A size that a pattern knows is the size. -/
theorem Extent.Narrows.size {a a' : Option Extent} (h : Narrows a a') {n : Nat}
    (hn : a'.bind Extent.value? = some n) : a.bind Extent.value? = some n := by
  cases h with
  | absent => exact hn
  | @present e e' he =>
    cases e' with
    | unknown => cases hn
    | known m =>
      rw [eq_of_known_covers he]
      exact hn

namespace Descriptor.Narrows

variable {d pattern : Descriptor}

theorem rank_eq (h : d.Narrows pattern) : d.rank = pattern.rank := by
  have hcovers := h.covered
  simp only [Shape.covers, Bool.and_eq_true, beq_iff_eq] at hcovers
  exact hcovers.1.symm

theorem axis? (h : d.Narrows pattern) (i : Nat) :
    Extent.Narrows (d.shape.axis? i) (pattern.shape.axis? i) := by
  have hrank := h.rank_eq
  have hcovers := h.covered
  simp only [Shape.covers, Bool.and_eq_true, List.all_eq_true] at hcovers
  unfold Shape.axis?
  by_cases hi : i < d.shape.extents.length
  · have hi' : i < pattern.shape.extents.length := Nat.lt_of_lt_of_eq hi hrank
    rw [List.getElem?_eq_getElem hi, List.getElem?_eq_getElem hi']
    refine .present (hcovers.2 (pattern.shape.extents[i], d.shape.extents[i]) ?_)
    have hzip : i < (pattern.shape.extents.zip d.shape.extents).length := by
      rw [List.length_zip]
      omega
    rw [← List.getElem_zip (h := hzip)]
    exact List.getElem_mem hzip
  · rw [List.getElem?_eq_none (Nat.le_of_not_lt hi),
      List.getElem?_eq_none (Nat.le_trans (Nat.le_of_eq hrank.symm) (Nat.le_of_not_lt hi))]
    exact .absent

/-- An extent that the pattern knows is one of the extents. -/
theorem known_mem (h : d.Narrows pattern) {n : Nat}
    (hn : Extent.known n ∈ pattern.shape.extents) : Extent.known n ∈ d.shape.extents := by
  obtain ⟨i, hi⟩ := List.getElem?_of_mem hn
  have hsize := (h.axis? i).size (n := n) (by rw [Shape.axis?, hi]; rfl)
  rw [Option.bind_eq_some_iff] at hsize
  obtain ⟨e, he, hvalue⟩ := hsize
  cases e with
  | known m =>
    cases hvalue
    exact List.mem_of_getElem? he
  | unknown => cases hvalue

end Descriptor.Narrows

/-! ## Descriptors of all operands -/

namespace Descriptors

theorem allSingle_iff (ds : Descriptors) :
    ds.allSingle = true ↔ ∀ p d, ds.get? p = some d → d.elementType = .f32 := by
  simp only [allSingle, OrderedMap.all_eq_true_iff, beq_iff_eq]

theorem admits_iff (c : Constraints) (ds : Descriptors) :
    c.admits ds = true ↔ ∀ p d, ds.get? p = some d → c.allows p d.layout = true := by
  simp only [Constraints.admits, OrderedMap.all_eq_true_iff]

namespace Narrow

variable {ds pattern : Descriptors}

instance : Decidable (ds.Narrow pattern) :=
  decidable_of_iff ((ds.all fun p d => (pattern.get? p).any fun t => decide (d.Narrows t)) &&
    pattern.all fun p _ => (ds.get? p).isSome) <| by
      simp only [Bool.and_eq_true, OrderedMap.all_eq_true_iff, Option.any_eq_true, decide_eq_true_eq,
        Option.isSome_iff_exists]
      exact ⟨fun h => ⟨h.1, h.2⟩, fun h => ⟨h.bound, h.complete⟩⟩

theorem get? (h : ds.Narrow pattern) (p : Operand) :
    (ds.get? p = none ∧ pattern.get? p = none) ∨
      ∃ d t, ds.get? p = some d ∧ pattern.get? p = some t ∧ d.Narrows t := by
  cases hd : ds.get? p with
  | some d =>
    obtain ⟨t, ht, hm⟩ := h.bound p d hd
    exact .inr ⟨d, t, rfl, ht, hm⟩
  | none =>
    cases ht : pattern.get? p with
    | none => exact .inl ⟨rfl, rfl⟩
    | some t =>
      obtain ⟨d, hd'⟩ := h.complete p t ht
      rw [hd] at hd'
      cases hd'

/-- What holds of an operand of the pattern if it holds of the narrower one holds of all operands
    of the pattern. -/
theorem forall_of_forall (h : ds.Narrow pattern) {F G : Operand → Descriptor → Prop}
    (hFG : ∀ p d t, d.Narrows t → F p d → G p t) (hall : ∀ p d, ds.get? p = some d → F p d) :
    ∀ p t, pattern.get? p = some t → G p t := by
  intro p t ht
  obtain ⟨d, hd⟩ := h.complete p t ht
  obtain ⟨t', ht', hm⟩ := h.bound p d hd
  rw [ht] at ht'
  cases ht'
  exact hFG p d t hm (hall p d hd)

theorem formats_eq (h : ds.Narrow pattern) : ds.formats = pattern.formats := by
  refine OrderedMap.ext_get? fun p => ?_
  simp only [formats, OrderedMap.get?_map]
  rcases h.get? p with ⟨hd, ht⟩ | ⟨d, t, hd, ht, hm⟩
  · rw [hd, ht]
  · rw [hd, ht, Option.map_some, Option.map_some, hm.elementType, hm.layout]

theorem size_eq (h : ds.Narrow pattern) : ds.size = pattern.size := by
  have hsize : ∀ ds : Descriptors, ds.formats.size = ds.size := fun ds => List.length_map _
  rw [← hsize ds, ← hsize pattern, h.formats_eq]

theorem any_eq (h : ds.Narrow pattern) {f g : Descriptor → Bool}
    (hfg : ∀ d t, d.Narrows t → f d = g t) (p : Operand) :
    (ds.get? p).any f = (pattern.get? p).any g := by
  rcases h.get? p with ⟨hd, ht⟩ | ⟨d, t, hd, ht, hm⟩
  · rw [hd, ht]
    rfl
  · rw [hd, ht]
    exact hfg d t hm

theorem axis? (h : ds.Narrow pattern) (p : Operand) (i : Nat) :
    Extent.Narrows (ds.axis? p i) (pattern.axis? p i) := by
  unfold Descriptors.axis?
  rcases h.get? p with ⟨hd, ht⟩ | ⟨d, t, hd, ht, hm⟩
  · rw [hd, ht]
    exact .absent
  · rw [hd, ht]
    exact hm.axis? i

theorem size? (h : ds.Narrow pattern) {p : Operand} {i n : Nat} (hn : pattern.size? p i = some n) :
    ds.size? p i = some n := (h.axis? p i).size hn

theorem bothAgree (h : ds.Narrow pattern) {p q : Operand} {i j : Nat}
    (hagree : Extent.bothAgree (ds.axis? p i) (ds.axis? q j) = true) :
    Extent.bothAgree (pattern.axis? p i) (pattern.axis? q j) = true :=
  (h.axis? p i).bothAgree (h.axis? q j) hagree

/-- What holds of all operands holds of all operands of the pattern. -/
theorem forall_iff (h : ds.Narrow pattern) {F G : Operand → Descriptor → Prop}
    (hFG : ∀ p d t, d.Narrows t → (F p d ↔ G p t)) :
    (∀ p d, ds.get? p = some d → F p d) ↔ ∀ p t, pattern.get? p = some t → G p t := by
  refine ⟨h.forall_of_forall fun p d t hm => (hFG p d t hm).1, fun hall p d hd => ?_⟩
  obtain ⟨t, ht, hm⟩ := h.bound p d hd
  exact (hFG p d t hm).2 (hall p t ht)

theorem allInLayout_eq (h : ds.Narrow pattern) (l : Layout) :
    ds.allInLayout l = pattern.allInLayout l := by
  rw [Bool.eq_iff_iff, allInLayout_iff, allInLayout_iff]
  exact h.forall_iff fun _ _ _ hm => by rw [hm.layout]

theorem allSingle_eq (h : ds.Narrow pattern) : ds.allSingle = pattern.allSingle := by
  rw [Bool.eq_iff_iff, allSingle_iff, allSingle_iff]
  exact h.forall_iff fun _ _ _ hm => by rw [hm.elementType]

theorem admits_eq (h : ds.Narrow pattern) (c : Constraints) : c.admits ds = c.admits pattern := by
  rw [Bool.eq_iff_iff, admits_iff, admits_iff]
  exact h.forall_iff fun _ _ _ hm => by rw [hm.layout]

end Narrow

end Descriptors

end KernelDispatch
