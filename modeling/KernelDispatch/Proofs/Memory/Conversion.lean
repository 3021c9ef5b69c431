import KernelDispatch.Proofs.Adapter.Plan
import KernelDispatch.Proofs.Memory.Ownership
import KernelDispatch.Proofs.Memory.Rearranged

/-
  Conversions between memories. `Store.moved` is what a conversion leaves in its target: the
  logical elements of the source, and zeros for padding if the layouts differ
  (`sameElements_of_rearranged`). A series of conversions between memories that are
  apart performs each of them as if it were the only one (`convertOperands_spec`).
-/

namespace KernelDispatch

/-- The sizes of a static shape. -/
def Descriptor.sizes (d : Descriptor) : List Nat := d.shape.sizes?.getD []

namespace Store

/-- The memory has the bytes that its descriptor asks for. -/
def Fits (s : Store) (m : Memory) : Prop := m.desc.requiredBytes = .ok (s.contents m).size

/-- The memories have the same logical elements, one in each store. -/
def SameElements (s : Store) (m : Memory) (s' : Store) (m' : Memory) : Prop :=
  Bytes.SameElements m.desc.elementType.width m.desc.sizes (s.contents m) m.desc.layout
    (s'.contents m') m'.desc.layout

/-- What is not part of a logical element of the memory is zero. -/
def ZeroPadded (s : Store) (m : Memory) : Prop :=
  Bytes.ZeroPadded m.desc.elementType.width m.desc.sizes (s.contents m) m.desc.layout

/-- The bytes of `target` after the logical tensor of `source` has been moved into it. -/
def moved (s : Store) (source target : Memory) : Bytes :=
  (s.contents source).rearranged source.desc.elementType.width source.desc.sizes
    source.desc.layout (s.contents target) target.desc.layout

theorem convert_eq_ok {s : Store} {source target : Memory}
    (hcheck : source.desc.checkConversion target.desc = .ok ()) (hne : source.cell ≠ target.cell) :
    s.convert source target = .ok (s.put target.cell (s.moved source target)) := by
  unfold convert
  rw [hcheck]
  show (if source.cell = target.cell then _ else _) = _
  rw [if_neg hne]
  rfl

@[simp] theorem size_moved (s : Store) (source target : Memory) :
    (s.moved source target).size = (s.contents target).size := by
  unfold moved
  rw [Bytes.size_rearranged]

theorem size_put (s : Store) (m : Memory) {b : Bytes} (hb : b.size = (s.contents m).size)
    (c : Cell) :
    ((s.put m.cell b).bytes c).size = (s.bytes c).size := by
  rw [bytes_put]
  split
  · rename_i hc
    rw [hb, contents, hc.1]
  · rfl

/-- A conversion within one memory leaves everything as it is; any other one moves the source. -/
theorem convert_cases {s s' : Store} {source target : Memory}
    (h : s.convert source target = .ok s') :
    source.desc.checkConversion target.desc = .ok () ∧
      (source.cell = target.cell ∧ s' = s ∨
        source.cell ≠ target.cell ∧ s' = s.put target.cell (s.moved source target)) := by
  unfold convert at h
  cases hcheck : source.desc.checkConversion target.desc with
  | error e =>
    rw [hcheck] at h
    cases h
  | ok =>
    rw [hcheck] at h
    change (if source.cell = target.cell then Except.ok s else
      .ok (s.put target.cell (s.moved source target))) = .ok s' at h
    split at h
    · rename_i heq
      cases h
      exact ⟨rfl, .inl ⟨heq, rfl⟩⟩
    · rename_i hne
      cases h
      exact ⟨rfl, .inr ⟨hne, rfl⟩⟩

theorem bytes_convert {s s' : Store} {source target : Memory}
    (h : s.convert source target = .ok s') {c : Cell} (hc : target.cell ≠ c) :
    s'.bytes c = s.bytes c := by
  obtain ⟨-, ⟨-, rfl⟩ | ⟨-, rfl⟩⟩ := convert_cases h
  · rfl
  · rw [bytes_put, if_neg fun h => hc h.1]

/-- A conversion changes no sizes. -/
theorem size_convert {s s' : Store} {source target : Memory}
    (h : s.convert source target = .ok s') :
    s'.cells.size = s.cells.size ∧ ∀ c, (s'.bytes c).size = (s.bytes c).size := by
  obtain ⟨-, ⟨-, rfl⟩ | ⟨-, rfl⟩⟩ := convert_cases h
  · exact ⟨rfl, fun _ => rfl⟩
  · exact ⟨Array.size_setIfInBounds, s.size_put target (size_moved s source target)⟩

theorem requiredBytes_size {d : Descriptor} {n : Nat} (h : d.requiredBytes = .ok n) :
    d.layout.fitsRank d.sizes.length = true ∧
      n = Index.volume (d.layout.physicalSizes d.sizes) * d.elementType.width := by
  obtain ⟨sizes, hsizes, hfit, hn⟩ := Descriptor.requiredBytes_eq_ok h
  have hgetD : d.sizes = sizes := by
    unfold Descriptor.sizes
    rw [hsizes]
    rfl
  rw [hgetD]
  exact ⟨hfit, hn⟩

/-- The descriptors agree but for their layouts, which differ. -/
structure Relaid (source target : Memory) : Prop where
  elementType : target.desc.elementType = source.desc.elementType
  shape : target.desc.shape = source.desc.shape
  layout : source.desc.layout ≠ target.desc.layout

theorem Relaid.symm {source target : Memory} (h : Relaid source target) :
    Relaid target source := ⟨h.elementType.symm, h.shape.symm, h.layout.symm⟩

/-- What a conversion leaves in its target has the logical elements of the source, and zeros for
    padding. -/
theorem sameElements_of_rearranged {s s' : Store} {source target : Memory}
    (h : Relaid source target) {old : Bytes} (hold : target.desc.requiredBytes = .ok old.size)
    (hmoved : s'.contents target = (s.contents source).rearranged source.desc.elementType.width
      source.desc.sizes source.desc.layout old target.desc.layout) :
    s'.SameElements target s source ∧ s'.ZeroPadded target := by
  obtain ⟨hfit, hsize⟩ := requiredBytes_size hold
  have hsizes : target.desc.sizes = source.desc.sizes := by
    unfold Descriptor.sizes
    rw [h.shape]
  unfold SameElements ZeroPadded
  rw [hmoved]
  rw [hsizes] at hfit hsize ⊢
  rw [h.elementType] at hsize ⊢
  exact ⟨Bytes.sameElements_rearranged h.layout hfit hsize,
    Bytes.zeroPadded_rearranged h.layout hfit hsize⟩

/-- Within one layout the target takes over the bytes of the source, padding included. -/
theorem rearranged_of_layout_eq {s : Store} {source target : Memory}
    (hcheck : source.desc.checkConversion target.desc = .ok ()) (hfits : s.Fits source)
    (hlayout : source.desc.layout = target.desc.layout) {old : Bytes}
    (hold : target.desc.requiredBytes = .ok old.size) :
    source.desc = target.desc ∧
      (s.contents source).rearranged source.desc.elementType.width source.desc.sizes
        source.desc.layout old target.desc.layout = s.contents source := by
  obtain ⟨htype, hshape, -⟩ := (Descriptor.checkConversion_eq_ok_iff _ _).1 hcheck
  have hdesc : source.desc = target.desc := by
    cases hs : source.desc
    cases ht : target.desc
    simp_all
  have hsize : old.size = (s.contents source).size := by
    unfold Fits at hfits
    rw [hdesc, hold] at hfits
    exact Except.ok.inj hfits
  exact ⟨hdesc, by rw [Bytes.rearranged, if_pos hlayout, Bytes.overwrite_toList hsize]⟩

/-- What a conversion leaves in its target has the logical elements of the source, whether or not
    the layouts differ. -/
theorem sameElements_of_moved {s s' : Store} {source target : Memory}
    (hcheck : source.desc.checkConversion target.desc = .ok ()) (hfits : s.Fits source)
    {old : Bytes} (hold : target.desc.requiredBytes = .ok old.size)
    (hmoved : s'.contents target = (s.contents source).rearranged source.desc.elementType.width
      source.desc.sizes source.desc.layout old target.desc.layout) :
    s'.SameElements target s source := by
  obtain ⟨htype, hshape, -⟩ := (Descriptor.checkConversion_eq_ok_iff _ _).1 hcheck
  by_cases hlayout : source.desc.layout = target.desc.layout
  · obtain ⟨hdesc, hsame⟩ := rearranged_of_layout_eq hcheck hfits hlayout hold
    intro index _
    rw [hmoved, hsame, hdesc]
  · exact (sameElements_of_rearranged ⟨htype.symm, hshape.symm, hlayout⟩ hold hmoved).1

theorem SameElements.refl_of_contents {s s' : Store} {m : Memory}
    (h : s'.contents m = s.contents m) : s'.SameElements m s m := by
  intro index _
  rw [h]

end Store

namespace World

variable {σ : Type}

/-- Converting operands preserves what is held, whatever memories it is between. -/
theorem convertOperands_preserves (source target : Bindings) (ps : List Operand) (w : World σ) :
    w.Preserves (convertOperands source target ps w).2 := by
  induction ps generalizing w with
  | nil => exact .refl w
  | cons p ps ih =>
    rw [convertOperands]
    split
    · rename_i m m' _ _
      split
      · rename_i store hconvert
        obtain ⟨hcells, hsize⟩ := Store.size_convert hconvert
        have hstep : w.Preserves { w with store } :=
          ⟨fun c hc => ⟨hcells ▸ hc.1, hc.2⟩, fun c _ => hsize c,
            fun hs => ⟨fun b hb => hcells ▸ hs.exist b hb, hs.nodup⟩⟩
        exact hstep.trans (ih _)
      · exact .refl w
    · exact .refl w
    · exact .refl w

/-- Conversions change nothing but their targets. -/
theorem convertOperands_frame {source target : Bindings} {ps : List Operand} {c : Cell}
    (hc : ∀ p ∈ ps, ∀ m', target.get? p = some m' → m'.cell ≠ c) (w : World σ) :
    (convertOperands source target ps w).2.store.bytes c = w.store.bytes c := by
  induction ps generalizing w with
  | nil => rfl
  | cons p ps ih =>
    obtain ⟨hfirst, hrest⟩ := List.forall_mem_cons.1 hc
    rw [convertOperands]
    split
    · rename_i m m' _ hm'
      split
      · rename_i store hstore
        rw [ih hrest]
        exact Store.bytes_convert hstore (hfirst m' ((target.require_eq_ok_iff p m').1 hm'))
      · rfl
    · rfl
    · rfl

/-- Among conversions that all succeed, a target whose memory is no other target, and whose source
    is no target, receives its source. -/
theorem convertOperands_moved {source target : Bindings} {ps : List Operand} (hps : ps.Nodup)
    {w w' : World σ} (h : convertOperands source target ps w = (.ok (), w')) {p : Operand}
    (hp : p ∈ ps) {m m' : Memory} (hm : source.get? p = some m) (hm' : target.get? p = some m')
    (hcell : m'.cell < w.store.cells.size)
    (hsource : ∀ q ∈ ps, ∀ n', target.get? q = some n' → n'.cell ≠ m.cell)
    (htarget : ∀ q ∈ ps, q ≠ p → ∀ n', target.get? q = some n' → n'.cell ≠ m'.cell) :
    w'.store.contents m' = w.store.moved m m' := by
  induction ps generalizing w with
  | nil => cases hp
  | cons q ps ih =>
    obtain ⟨hq, hrest⟩ := List.nodup_cons.1 hps
    obtain ⟨hsource₁, hsources⟩ := List.forall_mem_cons.1 hsource
    obtain ⟨htarget₁, htargets⟩ := List.forall_mem_cons.1 htarget
    rw [convertOperands] at h
    split at h
    · rename_i n n' hn hn'
      rw [Bindings.require_eq_ok_iff] at hn hn'
      split at h
      · rename_i store hstore
        obtain ⟨hcells, -⟩ := Store.size_convert hstore
        rcases List.mem_cons.1 hp with heq | hp
        · -- this is the target, and it is not touched any more
          subst heq
          rw [hn, Option.some.injEq] at hm
          rw [hn', Option.some.injEq] at hm'
          subst hm hm'
          have hframe : (convertOperands source target ps { w with store }).2.store.bytes n'.cell =
              store.bytes n'.cell :=
            convertOperands_frame (fun q' hq' => htargets q' hq' fun heq => hq (heq ▸ hq')) _
          rw [h] at hframe
          refine hframe.trans ?_
          obtain ⟨-, ⟨heq, -⟩ | ⟨-, rfl⟩⟩ := Store.convert_cases hstore
          · exact absurd heq.symm (hsource₁ n' hn')
          · show (w.store.put _ _).bytes n'.cell = _
            rw [Store.bytes_put, if_pos ⟨rfl, hcell⟩]
        · -- neither the source nor the target is touched now
          have hne : q ≠ p := fun heq => hq (heq ▸ hp)
          rw [ih hrest h hp (hcells.symm ▸ hcell) hsources htargets]
          unfold Store.moved Store.contents
          rw [Store.bytes_convert hstore (hsource₁ n' hn'),
            Store.bytes_convert hstore (htarget₁ hne n' hn')]
      · cases h
    · cases h
    · cases h

/-- The conversions of the operands touch different memories: no source is a target, and every
    target is that of one operand. -/
structure Apart (source target : Bindings) (ps : List Operand) : Prop where
  sources : ∀ p ∈ ps, ∀ q ∈ ps, ∀ m m', source.get? p = some m → target.get? q = some m' →
    m.cell ≠ m'.cell
  targets : ∀ p ∈ ps, ∀ q ∈ ps, ∀ m m', target.get? p = some m → target.get? q = some m' →
    m.cell = m'.cell → p = q

theorem Apart.tail {source target : Bindings} {p : Operand} {ps : List Operand}
    (h : Apart source target (p :: ps)) : Apart source target ps := by
  refine ⟨fun q hq r hr => ?_, fun q hq r hr => ?_⟩
  · exact h.sources q (List.mem_cons_of_mem _ hq) r (List.mem_cons_of_mem _ hr)
  · exact h.targets q (List.mem_cons_of_mem _ hq) r (List.mem_cons_of_mem _ hr)

/-- Conversions between memories that are apart all succeed; each target receives its source, and
    nothing else changes. -/
theorem convertOperands_spec {source target : Bindings} {ps : List Operand} (hps : ps.Nodup)
    (hapart : Apart source target ps) {w : World σ}
    (hops : ∀ p ∈ ps, ∃ m m', source.get? p = some m ∧ target.get? p = some m' ∧
      m.desc.checkConversion m'.desc = .ok () ∧ m'.cell < w.store.cells.size) :
    ∃ store, convertOperands source target ps w = (.ok (), { w with store }) ∧
      store.cells.size = w.store.cells.size ∧
      (∀ p ∈ ps, ∀ m m', source.get? p = some m → target.get? p = some m' →
        store.contents m' = w.store.moved m m') ∧
      ∀ c, (∀ p ∈ ps, ∀ m', target.get? p = some m' → m'.cell ≠ c) →
        store.bytes c = w.store.bytes c := by
  induction ps generalizing w with
  | nil =>
    refine ⟨w.store, rfl, rfl, ?_, fun _ _ => rfl⟩
    rintro p ⟨⟩
  | cons p ps ih =>
    obtain ⟨hp, hps⟩ := List.nodup_cons.1 hps
    obtain ⟨m, m', hm, hm', hcheck, hcell⟩ := hops p List.mem_cons_self
    have hne := hapart.sources p List.mem_cons_self p List.mem_cons_self m m' hm hm'
    let s₁ : Store := w.store.put m'.cell (w.store.moved m m')
    have hsize₁ : s₁.cells.size = w.store.cells.size := Array.size_setIfInBounds
    have hframe₁ : ∀ c, m'.cell ≠ c → s₁.bytes c = w.store.bytes c := fun c hc => by
      rw [Store.bytes_put, if_neg fun h => hc h.1]
    have hmoved₁ : s₁.contents m' = w.store.moved m m' := by
      show s₁.bytes m'.cell = _
      rw [Store.bytes_put, if_pos ⟨rfl, hcell⟩]
    obtain ⟨store, hconvert, hsize, hmoved, hframe⟩ := ih hps hapart.tail
      (w := { w with store := s₁ }) (fun q hq => by
        obtain ⟨n, n', hn, hn', hcheck', hcell'⟩ := hops q (List.mem_cons_of_mem _ hq)
        exact ⟨n, n', hn, hn', hcheck', hsize₁ ▸ hcell'⟩)
    refine ⟨store, ?_, hsize.trans hsize₁, fun q hq n n' hn hn' => ?_, fun c hc => ?_⟩
    · simp only [convertOperands, (source.require_eq_ok_iff p m).2 hm,
        (target.require_eq_ok_iff p m').2 hm', Store.convert_eq_ok hcheck hne]
      exact hconvert
    · rcases List.mem_cons.1 hq with rfl | hq
      · rw [hm] at hn
        rw [hm'] at hn'
        cases hn
        cases hn'
        rw [← hmoved₁]
        refine hframe m'.cell fun q' hq' n' hn' heq => hp ?_
        rw [← hapart.targets q' (List.mem_cons_of_mem _ hq') q List.mem_cons_self n' m' hn' hm' heq]
        exact hq'
      · have hsource : m'.cell ≠ n.cell := fun heq =>
          hapart.sources q (List.mem_cons_of_mem _ hq) p List.mem_cons_self n m' hn hm' heq.symm
        have htarget : m'.cell ≠ n'.cell := fun heq => hp (by
          rw [hapart.targets p List.mem_cons_self q (List.mem_cons_of_mem _ hq) m' n' hm' hn' heq]
          exact hq)
        rw [hmoved q hq n n' hn hn']
        show s₁.moved n n' = w.store.moved n n'
        unfold Store.moved Store.contents
        rw [hframe₁ n.cell hsource, hframe₁ n'.cell htarget]
    · obtain ⟨hfirst, hc⟩ := List.forall_mem_cons.1 hc
      exact (hframe c hc).trans (hframe₁ c (hfirst m' hm'))

end World

end KernelDispatch
