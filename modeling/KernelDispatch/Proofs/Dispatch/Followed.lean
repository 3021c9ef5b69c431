import KernelDispatch.Factory
import KernelDispatch.Proofs.Adapter.Mirrors
import KernelDispatch.Proofs.Adapter.Preconverted
import KernelDispatch.Proofs.Adapter.Unstaged
import KernelDispatch.Proofs.Dispatch.Built
import KernelDispatch.Proofs.Dispatch.Scripts

/-
  Operands that an executor is updated to. An executor that a factory made of its single candidate
  for some operands answers on others, after any history, as the one that the factory makes for
  those, and leaves the same bytes, as long as the candidate has been built for both or for neither
  (`follows_update`). If the operands that it was made for could not be staged, its candidate is
  left unbuilt, and it turns all operands away.
-/

namespace KernelDispatch

variable {α σ : Type}

namespace Adapter

theorem around_plans (k : Kernel α σ) (ds target : Descriptors) (inner : Option (Runner σ)) :
    (around k ds target inner).Plans target ds := ⟨rfl, .inl ⟨rfl, rfl⟩⟩

theorem after_name (s : Adapter σ × World σ) (calls : List (Call σ)) :
    (Adapter.after s calls).1.name = s.1.name :=
  after_induction (P := fun a => a.name = s.1.name)
    (fun a ds h => (a.follow_name ds).trans h) rfl calls

end Adapter

/-- An adapter goes through a history by itself. -/
theorem Instance.after_adapted (s : Adapter σ × World σ) (calls : List (Call σ)) :
    after (.adapted s.1, s.2) calls =
      (.adapted (Adapter.after s calls).1, (Adapter.after s calls).2) := by
  induction calls generalizing s with
  | nil => rfl
  | cons c calls ih =>
    have hc : perform (.adapted s.1, s.2) c =
        (.adapted (Adapter.perform s c).1, (Adapter.perform s c).2) := by cases c <;> rfl
    show after (perform (.adapted s.1, s.2) c) calls = _
    rw [hc]
    exact ih (Adapter.perform s c)

/-! ## Two executors on the same operands -/

namespace Executor

variable [Operation α]

/-- The answers to an update and to the call after it, and the world that they leave. -/
def updateAndExecute (memory : Bindings) (s : Executor α σ × World σ) :
    (Except Error Bool × Except Error Unit) × World σ :=
  let (ready, e, w) := s.1.update memory s.2
  let (result, _, w) := e.execute memory w
  ((ready, result), w)

/-- The same answers, and the same bytes in the operands. -/
structure SameCalls (memory : Bindings) (s s' : Executor α σ × World σ) : Prop where
  answers : (updateAndExecute memory s).1 = (updateAndExecute memory s').1
  contents : ∀ p m, memory.get? p = some m →
    (updateAndExecute memory s).2.store.contents m = (updateAndExecute memory s').2.store.contents m

theorem updateAndExecute_adapted (a : Adapter σ) (memory : Bindings) (v : World σ) :
    updateAndExecute memory ((.single (.adapted a) : Executor α σ), v) =
      (((a.update memory v).1,
        ((a.follow memory.descriptors).execute memory (a.update memory v).2.2).1),
        ((a.follow memory.descriptors).execute memory (a.update memory v).2.2).2) := by
  rw [← Adapter.update_adapter a memory v]
  rfl

theorem updateAndExecute_of_rejects {a : Adapter σ} {memory : Bindings} {err : Error}
    (h : a.Rejects memory err) (v : World σ) :
    updateAndExecute memory ((.single (.adapted a) : Executor α σ), v) =
      ((.ok false, .error err), v) := by
  obtain ⟨a', hupdate⟩ := h.update v
  have hexecute := h.execute v v
  rw [hupdate] at hexecute
  show (((a.update memory v).1, ((a.update memory v).2.1.execute memory (a.update memory v).2.2).1),
    ((a.update memory v).2.1.execute memory (a.update memory v).2.2).2) = _
  rw [hupdate, hexecute]

theorem sameCalls_of_rejects {a a' : Adapter σ} {memory : Bindings} {err : Error}
    (h : a.Rejects memory err) (h' : a'.Rejects memory err) {v v' : World σ}
    (hv : v.OwnAlike v' memory) :
    SameCalls memory ((.single (.adapted a) : Executor α σ), v) (.single (.adapted a'), v') := by
  have hboth := updateAndExecute_of_rejects (α := α) h v
  have hboth' := updateAndExecute_of_rejects (α := α) h' v'
  refine ⟨?_, fun p m hm => ?_⟩
  · rw [hboth, hboth']
  · rw [hboth, hboth']
    exact hv.contents p m hm

theorem sameCalls_of_reaches {a a' : Adapter σ} {memory : Bindings}
    (hreach : (a.follow memory.descriptors).Reaches memory)
    (hreach' : (a'.follow memory.descriptors).Reaches memory)
    (hc : (a.follow memory.descriptors).conversions = (a'.follow memory.descriptors).conversions)
    {r r' : Runner σ} (hr : a.inner = some r) (hr' : a'.inner = some r')
    (hupdate : Agrees r.update r'.update) (hexecute : Agrees r.execute r'.execute) {v v' : World σ}
    (hv : v.OwnAlike v' memory) :
    SameCalls memory ((.single (.adapted a) : Executor α σ), v) (.single (.adapted a'), v') := by
  obtain ⟨hready, hafter⟩ := Adapter.update_mirrors hreach hreach' hc hr hr' hupdate hv
  obtain ⟨hresult, hcontents⟩ := Adapter.execute_mirrors hreach hreach' hc
    ((a.follow_inner _).trans hr) ((a'.follow_inner _).trans hr') hexecute hafter
  refine ⟨?_, fun p m hm => ?_⟩
  · rw [updateAndExecute_adapted, updateAndExecute_adapted, hready, hresult]
  · rw [updateAndExecute_adapted, updateAndExecute_adapted]
    exact hcontents p m hm

/-- Adapters with the same plan for some operands answer alike on them, if these cannot be
    converted, or both have no kernel, or both have kernels that agree and the operands can be
    staged. -/
theorem sameCalls_adapted {a a' : Adapter σ} {memory : Bindings} {wanted : Descriptors}
    (hname : a.name = a'.name) (hc : (a.follow memory.descriptors).conversions = wanted)
    (hc' : (a'.follow memory.descriptors).conversions = wanted)
    (hready : memory.descriptors.convertsTo wanted = true →
      (a.inner = none ∧ a'.inner = none) ∨ ∃ r r', a.inner = some r ∧ a'.inner = some r' ∧
        wanted.Allocatable ∧ Agrees r.update r'.update ∧ Agrees r.execute r'.execute)
    {v v' : World σ} (hv : v.OwnAlike v' memory) :
    SameCalls memory ((.single (.adapted a) : Executor α σ), v) (.single (.adapted a'), v') := by
  have hsame : (a.follow memory.descriptors).check memory =
      (a'.follow memory.descriptors).check memory := by
    rw [Adapter.check, Adapter.check, hc, hc']
  cases hcheck : (a.follow memory.descriptors).check memory with
  | error err =>
    exact sameCalls_of_rejects (Adapter.rejects_of_check_error hcheck)
      (Adapter.rejects_of_check_error (hsame ▸ hcheck)) hv
  | ok =>
    have hconv := (Adapter.check_eq_ok_iff _ _).1 hcheck
    rw [hc] at hconv
    rcases hready hconv with ⟨hnone, hnone'⟩ | ⟨r, r', hr, hr', hall, hupdate, hexecute⟩
    · exact sameCalls_of_rejects (hname ▸ Adapter.rejects_of_unbuilt hnone hcheck)
        (Adapter.rejects_of_unbuilt hnone' (hsame ▸ hcheck)) hv
    · exact sameCalls_of_reaches
        ⟨hc ▸ hconv, ⟨r, (a.follow_inner _).trans hr⟩, hc ▸ hall⟩
        ⟨hc' ▸ hconv, ⟨r', (a'.follow_inner _).trans hr'⟩, hc' ▸ hall⟩
        (hc.trans hc'.symm) hr hr' hupdate hexecute hv

/-- An update refuses the operands, and the call after it fails, since they cannot be converted or
    since there is no kernel; neither does anything else. -/
def TurnsAway (name : String) (memory : Bindings) (e : Executor α σ) : Prop :=
  ∃ err, (∀ v, updateAndExecute memory (e, v) = ((.ok false, .error err), v)) ∧
    ((∃ p cause, err = .conversion p cause) ∨ err = .memory (.unstaged name))

theorem turnsAway_adapted {a : Adapter σ} {target descs : Descriptors} (h : a.Plans target descs)
    (hnone : a.inner = none) (memory : Bindings) :
    TurnsAway a.name memory (.single (.adapted a) : Executor α σ) := by
  cases hcheck : (a.follow memory.descriptors).check memory with
  | ok =>
    exact ⟨_, updateAndExecute_of_rejects (Adapter.rejects_of_unbuilt hnone hcheck), .inr rfl⟩
  | error err =>
    obtain ⟨p, cause, hrejects⟩ := h.declines_of_check_error hcheck
    exact ⟨_, updateAndExecute_of_rejects hrejects, .inl ⟨p, cause, rfl⟩⟩

end Executor

/-! ## Executors of a factory with one candidate -/

/-- The kernel can always be built, and all that is built of it agrees. -/
structure Kernel.Uniform (k : Kernel α σ) (attrs : α) : Prop where
  builds : ∀ b s, ∃ r, (k.build attrs b s).1 = .ok r
  agrees : ∀ b s r b' s' r', (k.build attrs b s).1 = .ok r → (k.build attrs b' s').1 = .ok r' →
    Agrees r.update r'.update ∧ Agrees r.execute r'.execute

/-- The kernel would have operands of these descriptors converted to the target. -/
def Kernel.Prefers (k : Kernel α σ) (attrs : α) (ds target : Descriptors) : Prop :=
  ∀ s, (k.preferred attrs ds s).1 = some target

namespace Factory

variable {f : Factory α σ} {k : Kernel α σ}

/-- A kernel that would have its operands converted is put behind an adapter. -/
theorem make_of_build (hf : f.candidates = [k]) {memory : Bindings} {target : Descriptors}
    (hprefers : k.Prefers f.attrs memory.descriptors target) {u w : World σ} {a : Adapter σ}
    (hbuild : Adapter.build k f.attrs memory.descriptors target memory
      (u.run (k.preferred f.attrs memory.descriptors)).2 = (.ok a, w)) :
    f.make memory u = (.ok (.single (.adapted a)), w) := by
  have hasked : (u.run (k.preferred f.attrs memory.descriptors)).1 = some target :=
    hprefers u.toSession
  unfold make Instance.build
  rw [hf]
  dsimp only
  rw [hasked]
  dsimp only
  rw [hbuild]

/-- What is made has the kernel inside exactly if the operands can be staged. -/
theorem make_adapted (hf : f.candidates = [k])
    (hbuilds : ∀ b s, ∃ r, (k.build f.attrs b s).1 = .ok r) {memory : Bindings}
    {target : Descriptors} (hprefers : k.Prefers f.attrs memory.descriptors target) (u : World σ) :
    ∃ inner w, f.make memory u =
      (.ok (.single (.adapted (.around k memory.descriptors target inner))), w) ∧
      ((inner = none ∧ ¬ (target.differingFrom memory.descriptors).Allocatable) ∨
        ∃ r, inner = some r ∧ (∃ b s, (k.build f.attrs b s).1 = .ok r) ∧
          (target.differingFrom memory.descriptors).Allocatable) := by
  by_cases hall : (target.differingFrom memory.descriptors).Allocatable
  · obtain ⟨r, w, hbuild, hbuilt⟩ := Adapter.build_eq_some f.attrs
      (u.run (k.preferred f.attrs memory.descriptors)).2
      (Q := fun r => ∃ b s, (k.build f.attrs b s).1 = .ok r)
      (fun b s => (hbuilds b s).imp fun r hr => ⟨hr, b, s, hr⟩) hall
    exact ⟨_, _, make_of_build hf hprefers hbuild, .inr ⟨r, rfl, hbuilt, hall⟩⟩
  · exact ⟨none, _, make_of_build hf hprefers (Adapter.build_eq_none k f.attrs memory _ hall),
      .inl ⟨rfl, hall⟩⟩

/-- The target for `memory₁` and that for `memory₂` keep the shapes and name the same element types
    and layouts. What has been made for `memory₁` then answers an update to `memory₂` and the call
    after it, after every history, as what is made for `memory₂`, and leaves the same bytes there.
    This is so if the operands in `memory₂` cannot be converted, if both operands can be staged, or
    if neither can. If those in `memory₁` cannot be staged, what has been made for them turns all
    operands away. -/
theorem follows_update [Operation α] (hf : f.candidates = [k]) (hk : k.Uniform f.attrs)
    {memory₁ memory₂ : Bindings} {target₁ target₂ : Descriptors}
    (hprefers₁ : k.Prefers f.attrs memory₁.descriptors target₁)
    (hprefers₂ : k.Prefers f.attrs memory₂.descriptors target₂)
    (hkeeps₁ : target₁.KeepsShapes memory₁.descriptors)
    (hkeeps₂ : target₂.KeepsShapes memory₂.descriptors)
    (hformats : target₁.formats = target₂.formats) (u₁ u₂ : World σ) :
    ∃ e₁ w₁ e₂ w₂, f.make memory₁ u₁ = (.ok e₁, w₁) ∧ f.make memory₂ u₂ = (.ok e₂, w₂) ∧
      ∀ calls : List (Call σ),
        let e := (Executor.after (e₁, w₁) calls).1
        let wanted₁ := target₁.differingFrom memory₁.descriptors
        let wanted₂ := target₂.differingFrom memory₂.descriptors
        ((memory₂.descriptors.convertsTo wanted₂ = true →
            (wanted₁.Allocatable ↔ wanted₂.Allocatable)) →
          ∀ v v' : World σ, v.OwnAlike v' memory₂ →
            Executor.SameCalls memory₂ (e, v) (e₂, v')) ∧
        (¬ wanted₁.Allocatable → ∀ memory, e.TurnsAway k.name memory) := by
  obtain ⟨inner₁, w₁, hmake₁, hbuilt₁⟩ := make_adapted hf hk.builds hprefers₁ u₁
  obtain ⟨inner₂, w₂, hmake₂, hbuilt₂⟩ := make_adapted hf hk.builds hprefers₂ u₂
  refine ⟨_, w₁, _, w₂, hmake₁, hmake₂, fun calls => ?_⟩
  have hplans₁ := Adapter.around_plans k memory₁.descriptors target₁ inner₁
  have hplans₂ := Adapter.around_plans k memory₂.descriptors target₂ inner₂
  have hplans := Adapter.Plans.after
    (s := (.around k memory₁.descriptors target₁ inner₁, w₁)) hplans₁ calls
  have hinner := Adapter.after_inner (.around k memory₁.descriptors target₁ inner₁, w₁) calls
  have hname := Adapter.after_name (.around k memory₁.descriptors target₁ inner₁, w₁) calls
  rw [Executor.after_single (.adapted _, w₁), Instance.after_adapted (_, w₁)]
  generalize Adapter.after (.around k memory₁.descriptors target₁ inner₁, w₁) calls = s
    at hplans hinner hname
  change s.1.inner = inner₁ at hinner
  change s.1.name = k.name at hname
  -- both adapters have the plan that belongs to the operands
  have hc := hplans.conversions_follow hkeeps₁ memory₂.descriptors
  have hc₂ := hplans₂.conversions_follow hkeeps₂ memory₂.descriptors
  rw [hformats, ← Descriptors.differingFrom_eq_carriedTo hkeeps₂] at hc
  rw [← Descriptors.differingFrom_eq_carriedTo hkeeps₂] at hc₂
  refine ⟨fun hready v v' hv => ?_, fun hunstaged memory => ?_⟩
  · refine Executor.sameCalls_adapted hname hc hc₂ (fun hconv => ?_) hv
    rcases hbuilt₁ with ⟨rfl, hbad₁⟩ | ⟨r₁, rfl, ⟨b₁, s₁, hr₁⟩, hall₁⟩ <;>
      rcases hbuilt₂ with ⟨rfl, hbad₂⟩ | ⟨r₂, rfl, ⟨b₂, s₂, hr₂⟩, hall₂⟩
    · exact .inl ⟨hinner, rfl⟩
    · exact absurd ((hready hconv).2 hall₂) hbad₁
    · exact absurd ((hready hconv).1 hall₁) hbad₂
    · exact .inr ⟨r₁, r₂, hinner, rfl, hall₂, hk.agrees _ _ _ _ _ _ hr₁ hr₂⟩
  · rcases hbuilt₁ with ⟨rfl, -⟩ | ⟨-, -, -, hall₁⟩
    · exact hname ▸ Executor.turnsAway_adapted hplans hinner memory
    · exact absurd hall₁ hunstaged

end Factory

/-! ## A kernel that is left unbuilt -/

namespace Script

variable (arith : Arithmetic) (op : Scaling)

theorem agrees_update {script : Script} (h : script.updates = []) :
    Agrees script.update script.update := by
  have hconf := (script.confined .single ⟨.zero⟩).update
  refine ⟨hconf, hconf, fun b s b' s' hr => ?_, fun b s b' s' hr p m m' hm hm' => ?_⟩
  · rw [update_fst_eq_fits h, update_fst_eq_fits h, hr.descriptors]
  · rw [update_store, update_store]
    exact hr.contents p m m' hm hm'

/-- A run without a prescribed reply scales the source. -/
theorem execute_eq_scale {script : Script} (h : script.runs = []) (b : Bindings)
    (s : Session Journal) :
    (script.execute arith op b s).1 =
        ((scale arith op b s.store).map fun _ => ()).mapError .memory ∧
      (script.execute arith op b s).2.store = (scale arith op b s.store).toOption.getD s.store := by
  unfold execute
  simp only [reply, h, List.getElem?_nil, Option.getD_none, Session.enter]
  cases scale arith op b s.store <;> exact ⟨rfl, rfl⟩

theorem agrees_execute {script : Script} (h : script.runs = []) :
    Agrees (script.execute arith op) (script.execute arith op) := by
  have hconf := script.confined_execute arith op
  have hscales := script.execute_eq_scale arith op h
  have halike : ∀ {b b'} {s s' : Session Journal}, Session.Resembles b s b' s' →
      Session.Alike b s b' { s' with ambient := s.ambient } := fun hr =>
    ⟨hr.descriptors, hr.contents, rfl⟩
  refine ⟨hconf, hconf, fun b s b' s' hr => ?_, fun b s b' s' hr p q q' hq hq' => ?_⟩
  · rw [(hscales b s).1, (hscales b' s').1]
    rcases scale_alike arith op (halike hr) with ⟨e, he, he'⟩ | ⟨t, t', ht, ht'⟩
    · rw [he, he']
    · rw [ht, ht']
      rfl
  · rw [(hscales b s).2, (hscales b' s').2]
    rcases scale_alike arith op (halike hr) with ⟨e, he, he'⟩ | ⟨t, t', ht, ht'⟩
    · rw [he, he']
      exact hr.contents p q q' hq hq'
    · rw [ht, ht']
      obtain ⟨m, n, hm, hn, hsize, rfl⟩ := scale_eq_ok arith op ht
      obtain ⟨m', n', hm', hn', hsize', rfl⟩ := scale_eq_ok arith op ht'
      show (s.store.put _ _).contents q = (s'.store.put _ _).contents q'
      rw [contents_put_of_size hsize, contents_put_of_size hsize',
        hr.contents _ m m' hm hm', hr.contents p q q' hq hq']
      simp only [hr.sharing p _ q n q' n' hq hn hq' hn']

/-- What is built from a script without prescribed replies depends on its operands only. -/
theorem uniform {script : Script} (hbuilds : script.builds = []) (hupdates : script.updates = [])
    (hruns : script.runs = []) : (script.kernel arith).Uniform op := by
  have hbuilt : ∀ b s, ((script.kernel arith).build op b s).1 =
      .ok ⟨script.update, script.execute arith op⟩ := fun b s => by
    simp only [kernel, build, reply, hbuilds, List.getElem?_nil, Option.getD_none]
  refine ⟨fun b s => ⟨_, hbuilt b s⟩, fun b s r b' s' r' hr hr' => ?_⟩
  rw [hbuilt] at hr hr'
  cases hr
  cases hr'
  exact ⟨agrees_update hupdates, agrees_execute arith op hruns⟩

end Script

namespace Factory

/-- A kernel that would have the channels last whatever the operands are. -/
def eager : Script :=
  { name := "packer", preference := some { wish := .relaid fun _ _ => .channelsLast } }

/-- A factory with this kernel as its only candidate. -/
def eagerOnly : Factory Scaling Journal :=
  ⟨⟨.zero⟩, .ofSettings default, ∅, [eager.kernel .single]⟩

/-- Both matrices with the channels last, which their rank does not allow. -/
def matricesLast : Descriptors :=
  .ofList [(.source 0, ⟨.f32, .ofSizes [2, 2], .channelsLast⟩),
    (.destination 0, ⟨.f32, .ofSizes [2, 2], .channelsLast⟩)]

/-- Two zeroed images and two zeroed matrices. -/
def imagesAndMatrices : World Journal where
  store := ⟨#[Bytes.zeros 32, Bytes.zeros 32, Bytes.zeros 16, Bytes.zeros 16]⟩
  ambient := []
  scratch := {}

theorem ownAlike_images :
    imagesAndMatrices.OwnAlike imagesAndMatrices (Adapter.imagePair .planar 0 1) := by
  have howns : imagesAndMatrices.Owns (Adapter.imagePair .planar 0 1) := by
    refine .of_pool_eq_nil rfl fun p m hm => ?_
    rcases Adapter.get?_imagePair hm with ⟨-, rfl⟩ | ⟨-, rfl⟩
    · exact ⟨by decide, rfl⟩
    · exact ⟨by decide, rfl⟩
  exact ⟨howns, howns, fun _ _ _ => rfl⟩

/-- The kernel asks for the same layouts on matrices and on images, and depends on its operands
    only. It cannot be built for matrices, and what has been made for these refuses images, which
    what is made for images takes. -/
theorem made_for_matrices_refuses_images :
    let images := Adapter.imagePair .planar 0 1
    let matrices := Script.matrixPair 2 3
    let kernel := eager.kernel .single
    kernel.Uniform eagerOnly.attrs ∧
      kernel.Prefers eagerOnly.attrs matrices.descriptors matricesLast ∧
      kernel.Prefers eagerOnly.attrs images.descriptors Adapter.channelsLastPair ∧
      matricesLast.KeepsShapes matrices.descriptors ∧
      Adapter.channelsLastPair.KeepsShapes images.descriptors ∧
      matricesLast.formats = Adapter.channelsLastPair.formats ∧
      ∃ e₁ w₁ e₂ w₂, eagerOnly.make matrices imagesAndMatrices = (.ok e₁, w₁) ∧
        eagerOnly.make images imagesAndMatrices = (.ok e₂, w₂) ∧
        imagesAndMatrices.OwnAlike imagesAndMatrices images ∧
        (e₁.update images imagesAndMatrices).1 = .ok false ∧
        (e₂.update images imagesAndMatrices).1 = .ok true ∧
        ¬ Executor.SameCalls images (e₁, imagesAndMatrices) (e₂, imagesAndMatrices) := by
  refine ⟨Script.uniform .single _ rfl rfl rfl, fun _ => rfl, fun _ => rfl,
    Descriptors.keepsShapes_of_relaid (fun _ _ => .channelsLast) rfl,
    Descriptors.keepsShapes_of_relaid (fun _ _ => .channelsLast) rfl, rfl,
    _, _, _, _, rfl, rfl, ownAlike_images, rfl, rfl, fun h => ?_⟩
  have hready := congrArg Prod.fst h.answers
  cases hready

/-- An image with the channels last, then a planar one; and matrices, which cannot be staged. -/
theorem eager_follows_update :
    (∃ e₁ w₁ e₂ w₂,
      eagerOnly.make (Adapter.imagePair .channelsLast 0 1) imagesAndMatrices = (.ok e₁, w₁) ∧
      eagerOnly.make (Adapter.imagePair .planar 0 1) imagesAndMatrices = (.ok e₂, w₂) ∧
      ∀ calls v v', v.OwnAlike v' (Adapter.imagePair .planar 0 1) →
        Executor.SameCalls (Adapter.imagePair .planar 0 1)
          ((Executor.after (e₁, w₁) calls).1, v) (e₂, v')) ∧
    ∃ e₁ w₁, eagerOnly.make (Script.matrixPair 2 3) imagesAndMatrices = (.ok e₁, w₁) ∧
      ∀ calls memory, (Executor.after (e₁, w₁) calls).1.TurnsAway "packer" memory := by
  have huniform : (eager.kernel .single).Uniform eagerOnly.attrs :=
    Script.uniform .single _ rfl rfl rfl
  have hkeeps : ∀ {ds target : Descriptors}, ds.relaid? (fun _ _ => .channelsLast) = some target →
      target.KeepsShapes ds := Descriptors.keepsShapes_of_relaid _
  have hmixed : (eager.kernel .single).Prefers eagerOnly.attrs
      (Adapter.imagePair .channelsLast 0 1).descriptors Adapter.channelsLastPair := fun _ => rfl
  have hplanar : (eager.kernel .single).Prefers eagerOnly.attrs
      (Adapter.imagePair .planar 0 1).descriptors Adapter.channelsLastPair := fun _ => rfl
  have hmatrices : (eager.kernel .single).Prefers eagerOnly.attrs
      (Script.matrixPair 2 3).descriptors matricesLast := fun _ => rfl
  constructor
  · obtain ⟨e₁, w₁, e₂, w₂, hmake₁, hmake₂, hcalls⟩ := follows_update (f := eagerOnly) rfl huniform
      hmixed hplanar (hkeeps rfl) (hkeeps rfl) rfl imagesAndMatrices imagesAndMatrices
    exact ⟨e₁, w₁, e₂, w₂, hmake₁, hmake₂, fun calls => (hcalls calls).1 fun _ =>
      ⟨fun _ => (Descriptors.stageable_iff _).1 rfl, fun _ => (Descriptors.stageable_iff _).1 rfl⟩⟩
  · obtain ⟨e₁, w₁, e₂, w₂, hmake₁, hmake₂, hcalls⟩ := follows_update (f := eagerOnly) rfl huniform
      hmatrices hplanar (hkeeps rfl) (hkeeps rfl) rfl imagesAndMatrices imagesAndMatrices
    refine ⟨e₁, w₁, hmake₁, fun calls => (hcalls calls).2 fun hall => ?_⟩
    exact absurd ((Descriptors.stageable_iff _).2 hall) (by decide)

end Factory

end KernelDispatch
