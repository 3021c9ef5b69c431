import KernelDispatch.Proofs.Adapter.Run
import KernelDispatch.Scripted

/-
  Which element types and layouts a kernel behind an adapter gets to see. A call plans nothing: it
  converts the operands that the last update found to differ, and hands on all others as they are.
  So the kernel sees what it asked for exactly when every operand that differs now is among those
  that are converted (`runs_on_target_formats_iff`); a call on other operands than those of the last
  update may hand on an operand that matched then and does not now
  (`execute_hands_on_unconverted`).
-/

namespace KernelDispatch

namespace Adapter

variable {α σ : Type}

/-- Every operand that is bound in `memory` and named by the target has, among the operands handed
    to a kernel, the element type and layout that the target names. -/
def MeetsTarget (target : Descriptors) (memory operands : Bindings) : Prop :=
  ∀ p t m, target.get? p = some t → memory.get? p = some m →
    ∃ m', operands.get? p = some m' ∧ m'.desc.Meets t

/-- Every bound operand that does not meet the target is converted. -/
def Covers (a : Adapter σ) (target : Descriptors) (memory : Bindings) : Prop :=
  ∀ p t m, target.get? p = some t → memory.get? p = some m →
    m.desc.Meets t ∨ ∃ d, a.conversions.get? p = some d

/-- Operands staged for the planned conversions meet the target exactly if all that do not meet it
    by themselves are converted. -/
theorem meetsTarget_iff {a : Adapter σ} {target descs : Descriptors} (ha : a.Plans target descs)
    {memory operands : Bindings}
    (hds : operands.descriptors = memory.descriptors.replacedBy a.conversions) :
    MeetsTarget target memory operands ↔ a.Covers target memory := by
  have hget : ∀ p m, memory.get? p = some m → ∃ m', operands.get? p = some m' ∧
      m'.desc = (a.conversions.get? p).getD m.desc := by
    intro p m hm
    have h : operands.descriptors.get? p = some ((a.conversions.get? p).getD m.desc) := by
      rw [hds, OrderedMap.get?_replacedBy, Bindings.get?_descriptors, hm]
      cases a.conversions.get? p <;> rfl
    rw [Bindings.get?_descriptors, Option.map_eq_some_iff] at h
    exact h
  constructor
  · intro hmeets p t m ht hm
    obtain ⟨m', hm', hmeets'⟩ := hmeets p t m ht hm
    obtain ⟨m'', hm'', hdesc⟩ := hget p m hm
    rw [hm'] at hm''
    cases hm''
    cases hc : a.conversions.get? p with
    | none =>
      rw [hdesc, hc] at hmeets'
      exact .inl hmeets'
    | some d => exact .inr ⟨d, rfl⟩
  · intro hcovers p t m ht hm
    obtain ⟨m', hm', hdesc⟩ := hget p m hm
    refine ⟨m', hm', ?_⟩
    cases hc : a.conversions.get? p with
    | none =>
      rw [hdesc, hc]
      exact (hcovers p t m ht hm).resolve_right (by simp [hc])
    | some d =>
      obtain ⟨t', ht', hmeets⟩ := ha.meets hc
      rw [ht] at ht'
      cases ht'
      rw [hdesc, hc]
      exact hmeets

/-- On the planned descriptors nothing is left out. -/
theorem Plans.covers {a : Adapter σ} {target descs : Descriptors} (ha : a.Plans target descs)
    {memory : Bindings} (hp : a.planned = memory.descriptors) : a.Covers target memory := by
  intro p t m ht hm
  by_cases hmeets : m.desc.Meets t
  · exact .inl hmeets
  · have hd : a.planned.get? p = some m.desc := by rw [hp, Bindings.get?_descriptors, hm]; rfl
    exact .inr (ha.converts hd ht hmeets)

theorem Plans.runsOn_meetsTarget_iff {a : Adapter σ} {target descs : Descriptors}
    (ha : a.Plans target descs) (memory : Bindings) (w : World σ) :
    a.RunsOn memory w (MeetsTarget target memory) ↔
      (a.Reaches memory → a.Covers target memory) := by
  rw [runsOn_iff]
  constructor
  · intro hall hreach
    obtain ⟨h, hh, -, hds⟩ := hreach.handOver w
    exact (meetsTarget_iff ha hds).1 (hall h hh)
  · intro hcovers h hh
    have hreach := reaches_of_handOver hh
    obtain ⟨h', hh', -, hds⟩ := hreach.handOver w
    rw [hh] at hh'
    cases hh'
    exact (meetsTarget_iff ha hds).2 (hcovers hreach)

/-- For every adapter, every history and every set of operands, a call fails before its kernel runs
    or runs it on the element types and layouts that were asked for, exactly if the operands that do
    not meet the target are all converted whenever the kernel is reached. This is so in particular
    on the descriptors that the adapter is planned for, hence right after an update to the operands,
    whatever its answer. -/
theorem runs_on_target_formats_iff {k : Kernel α σ} {attrs : α} {descs target : Descriptors}
    {memory₀ : Bindings} {w₀ w₁ : World σ} {a₀ : Adapter σ}
    (hbuild : Adapter.build k attrs descs target memory₀ w₀ = (.ok a₀, w₁))
    (calls : List (Call σ)) (memory : Bindings) (w : World σ) :
    let a := (Adapter.after (a₀, w₁) calls).1
    (a.RunsOn memory w (MeetsTarget target memory) ↔
        (a.Reaches memory → a.Covers target memory)) ∧
      (a.planned = memory.descriptors → a.Covers target memory) ∧
      ∀ v, ((a.update memory v).2.1).RunsOn memory w (MeetsTarget target memory) := by
  intro a
  have ha : a.Plans target descs := Plans.after (s := (a₀, w₁)) (build_plans hbuild) calls
  refine ⟨ha.runsOn_meetsTarget_iff memory w, fun hp => ha.covers hp, fun v => ?_⟩
  rw [update_adapter]
  have hf := ha.follow memory.descriptors
  exact (hf.runsOn_meetsTarget_iff memory w).2 fun _ => hf.covers (follow_planned a _)

/-! ## A call on other operands than the planned ones -/

/-- An `f32` image of two channels. -/
def image (l : Layout) : Descriptor := ⟨.f32, .ofSizes [1, 2, 2, 2], l⟩

/-- A source in a layout of its own and a planar destination, in the given cells. -/
def imagePair (l : Layout) (c c' : Cell) : Bindings :=
  .ofList [(.source 0, ⟨image l, c⟩), (.destination 0, ⟨image .planar, c'⟩)]

/-- Both images with the channels last. -/
def channelsLastPair : Descriptors :=
  .ofList [(.source 0, image .channelsLast), (.destination 0, image .channelsLast)]

/-- Four zeroed images. -/
def fourImages : World Journal where
  store := ⟨Array.replicate 4 (Bytes.zeros 32)⟩
  ambient := []
  scratch := {}

def packer : Kernel Scaling Journal := Script.kernel Arithmetic.single { name := "packer" }

/-- The kernel asked for both images with the channels last. The source had them last when the
    adapter was built; a planar source is then handed on as it is. -/
theorem execute_hands_on_unconverted :
    ∃ a w, Adapter.build packer ⟨.zero⟩ (imagePair .channelsLast 0 1).descriptors channelsLastPair
        (imagePair .channelsLast 0 1) fourImages = (.ok a, w) ∧
      ¬ a.RunsOn (imagePair .planar 2 3) w
        (MeetsTarget channelsLastPair (imagePair .planar 2 3)) := by
  refine ⟨_, _, rfl, fun h => ?_⟩
  rw [runsOn_iff] at h
  obtain ⟨m, hm, hmeets⟩ := h _ rfl (.source 0) _ _ rfl rfl
  cases hm
  exact absurd hmeets.2 (by decide)

/-- The same adapter after an update to a planar source, called on the images it was built for. -/
theorem packer_runs_on_target_formats_iff :
    ∃ a w, Adapter.build packer ⟨.zero⟩ (imagePair .channelsLast 0 1).descriptors channelsLastPair
        (imagePair .channelsLast 0 1) fourImages = (.ok a, w) ∧
      let b := (Adapter.after (a, w) [.update (imagePair .planar 2 3)]).1
      let memory := imagePair .channelsLast 0 1
      (b.RunsOn memory w (MeetsTarget channelsLastPair memory) ↔
          (b.Reaches memory → b.Covers channelsLastPair memory)) ∧
        (b.planned = memory.descriptors → b.Covers channelsLastPair memory) ∧
        ∀ v, ((b.update memory v).2.1).RunsOn memory w (MeetsTarget channelsLastPair memory) := by
  obtain ⟨a, w, h⟩ : ∃ a w, Adapter.build packer ⟨.zero⟩ (imagePair .channelsLast 0 1).descriptors
      channelsLastPair (imagePair .channelsLast 0 1) fourImages = (.ok a, w) := ⟨_, _, rfl⟩
  exact ⟨a, w, h, runs_on_target_formats_iff h [.update (imagePair .planar 2 3)]
    (imagePair .channelsLast 0 1) w⟩

end Adapter

end KernelDispatch
