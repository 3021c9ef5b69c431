import KernelDispatch.Proofs.Adapter.Run

/-
  Kernels under observation. Everything that is built of a kernel bears a tag and notes down each
  update and each run in surroundings that the kernel cannot reach. An update notes down its answer
  at most (`update_noRuns`); whoever consents notes that down last (`note_of_update`), and is run
  once by a call that follows (`note_of_execute`).
-/

namespace KernelDispatch

/-! ## Surroundings -/

namespace World

variable {σ β : Type}

theorem lend_ambient {w w' : World σ} {d : Descriptor} {loan : Loan}
    (h : w.lend d = .ok (loan, w')) : w'.ambient = w.ambient := by
  unfold lend at h
  split at h
  · cases h
    rfl
  · cases h

theorem stageFrom_ambient (memory : Bindings) (es : List (Operand × Descriptor)) (staged : Bindings)
    (loans : List Loan) (w : World σ) :
    (stageFrom memory es staged loans w).2.2.ambient = w.ambient := by
  induction es generalizing staged loans w with
  | nil => rfl
  | cons e es ih =>
    obtain ⟨p, d⟩ := e
    rw [stageFrom]
    cases memory.require p with
    | error e => rfl
    | ok m =>
      dsimp only
      cases hlend : w.lend d with
      | error e => rfl
      | ok found =>
        dsimp only
        obtain ⟨loan, w'⟩ := found
        rw [ih, lend_ambient hlend]

theorem convertOperands_ambient (source target : Bindings) (ps : List Operand) (w : World σ) :
    (convertOperands source target ps w).2.ambient = w.ambient := by
  obtain ⟨store, hstore⟩ := convertOperands_snd source target ps w
  rw [hstore]

/-- Staging leaves the surroundings alone, so they are as the body leaves them. -/
theorem withStaged_ambient (w : World σ) (memory : Bindings) (wanted : Descriptors)
    (body : Bindings → World σ → Except Error β × World σ) :
    (w.withStaged memory wanted body).2.ambient = w.ambient ∨
      ∃ staged w', w'.ambient = w.ambient ∧
        (w.withStaged memory wanted body).2.ambient = (body staged w').2.ambient := by
  have hambient := stageFrom_ambient memory wanted.entries memory [] w
  unfold withStaged
  rcases hstage : stageFrom memory wanted.entries memory [] w with ⟨_ | staged, loans, w'⟩
  · rw [hstage] at hambient
    exact .inl hambient
  · rw [hstage] at hambient
    exact .inr ⟨staged, w', hambient, rfl⟩

end World

namespace Instance

variable {α σ : Type}

/-- The runner that does the work, if it has been built. -/
def runner? : Instance σ → Option (Runner σ)
  | direct _ runner => some runner
  | adapted adapter => adapter.inner

/-- The descriptors of the operands that the runner gets to see. -/
def handed (ds : Descriptors) : Instance σ → Descriptors
  | direct _ _ => ds
  | adapted adapter => ds.replacedBy adapter.conversions

@[simp] theorem runner?_update (memory : Bindings) (w : World σ) (built : Instance σ) :
    (built.update memory w).2.1.runner? = built.runner? := by
  cases built with
  | direct name r => rfl
  | adapted a =>
    show (a.update memory w).2.1.inner = a.inner
    rw [Adapter.update_adapter, Adapter.follow_inner]

/-- Of a kernel either nothing is built, or its runner is what it built for some operands; nothing
    else happens to the surroundings. -/
theorem build_runner {k : Kernel α σ} {attrs : α} {ds : Descriptors}
    {preferred : Option Descriptors} {memory : Bindings} {w w' : World σ}
    {r : Except Error (Instance σ)} (h : build k attrs ds preferred memory w = (r, w')) :
    (w'.ambient = w.ambient ∧ ∀ built, r = .ok built → built.runner? = none) ∨
      ∃ staged s, s.ambient = w.ambient ∧ w'.ambient = (k.build attrs staged s).2.ambient ∧
        (∀ e, r = .error e → ∃ cause, (k.build attrs staged s).1 = .error cause) ∧
        ∀ built, r = .ok built →
          ∃ runner, (k.build attrs staged s).1 = .ok runner ∧ built.runner? = some runner := by
  cases preferred with
  | none =>
    refine .inr ⟨memory, w.toSession, rfl, ?_⟩
    rcases hbuild : k.build attrs memory w.toSession with ⟨_ | runner, s⟩ <;>
      simp only [build, World.run, hbuild, Prod.mk.injEq] at h <;>
      obtain ⟨rfl, rfl⟩ := h
    · exact ⟨rfl, fun _ _ => ⟨_, rfl⟩, fun built hb => by cases hb⟩
    · refine ⟨rfl, fun e he => (by cases he), fun built hb => ?_⟩
      cases hb
      exact ⟨runner, rfl, rfl⟩
  | some target =>
    by_cases hall : (target.differingFrom ds).all (fun _ d => d.requiredBytes.isOk) = true
    · have hambient := World.stageFrom_ambient memory (target.differingFrom ds).entries memory [] w
      rcases hstage : World.stageFrom memory (target.differingFrom ds).entries memory [] w with
        ⟨_ | staged, loans, w₁⟩
      · rw [hstage] at hambient
        simp only [build, Adapter.build, hall, if_true, World.withStaged, hstage,
          Prod.mk.injEq] at h
        obtain ⟨rfl, rfl⟩ := h
        exact .inl ⟨hambient, fun built hb => by cases hb⟩
      · rw [hstage] at hambient
        refine .inr ⟨staged, w₁.toSession, hambient, ?_⟩
        rcases hbuild : k.build attrs staged w₁.toSession with ⟨_ | runner, s⟩ <;>
          simp only [build, Adapter.build, hall, if_true, World.withStaged, hstage, World.run,
            hbuild, Prod.mk.injEq] at h <;>
          obtain ⟨rfl, rfl⟩ := h
        · exact ⟨rfl, fun _ _ => ⟨_, rfl⟩, fun built hb => by cases hb⟩
        · refine ⟨rfl, fun e he => (by cases he), fun built hb => ?_⟩
          cases hb
          exact ⟨runner, rfl, rfl⟩
    · simp only [build, Adapter.build, hall] at h
      obtain ⟨rfl, rfl⟩ := h
      refine .inl ⟨rfl, fun built hb => ?_⟩
      cases hb
      rfl

end Instance

namespace Adapter

variable {σ : Type}

theorem handOver_ambient {a : Adapter σ} {memory : Bindings} {w : World σ} {h : Handover σ}
    (hh : a.handOver memory w = .ok h) : h.world.ambient = w.ambient := by
  have hstaged := World.stageFrom_ambient memory a.conversions.entries memory [] w
  unfold handOver at hh
  split at hh
  · cases hh
  · split at hh
    · cases hh
    · split at hh
      · cases hh
      · rename_i operands loans w₁ hstage
        rw [hstage] at hstaged
        have hconverted := World.convertOperands_ambient memory operands
          (a.conversions.keys.filter Operand.isInput) w₁
        split at hh
        · cases hh
        · rename_i w₂ hconvert
          rw [hconvert] at hconverted
          cases hh
          exact hconverted.trans hstaged

/-- Nothing but the kernel changes the surroundings. -/
theorem runOnce_ambient (a : Adapter σ) (memory : Bindings) (h : Handover σ) :
    (a.runOnce memory h).2.ambient = (h.runner.execute h.operands h.world.toSession).2.ambient := by
  unfold runOnce World.run
  rcases h.runner.execute h.operands h.world.toSession with ⟨_ | _, s⟩
  · rfl
  · exact World.convertOperands_ambient h.operands memory
      (a.conversions.keys.filter Operand.isOutput) { h.world with toSession := s }

end Adapter

/-! ## Candidates under observation -/

/-- Tells apart what has been built: of which candidate, and as which thing of all. -/
structure Tag where
  candidate : Nat
  number : Nat
  deriving DecidableEq

/-- What is noted down about something that has been built. -/
inductive Note where
  | updated (tag : Tag) (operands : Descriptors) (answer : Except Error Bool)
  | executed (tag : Tag) (operands : Descriptors)

/-- Surroundings with notes about what has been built in them, the latest first. -/
structure Recorded (σ : Type) where
  inner : σ
  built : Nat := 0
  notes : List Note := []

namespace Recorded

variable {α σ β : Type}

/-- The session that candidates see. -/
def view (s : Session (Recorded σ)) : Session σ := ⟨s.store, s.ambient.inner⟩

/-- A step that leaves no note. -/
def unnoticed (step : Session σ → β × Session σ) : Ask (Recorded σ) β := fun s =>
  let (b, t) := step (view s)
  (b, ⟨t.store, { s.ambient with inner := t.ambient }⟩)

/-- Notes something down. -/
def note (s : Session (Recorded σ)) (n : Note) : Session (Recorded σ) :=
  { s with ambient := { s.ambient with notes := n :: s.ambient.notes } }

/-- A runner that notes down its answers and its runs. -/
def runner (tag : Tag) (r : Runner σ) : Runner (Recorded σ) where
  update b s :=
    let (answer, s) := unnoticed (r.update b) s
    (answer, note s (.updated tag b.descriptors answer))
  execute b s :=
    let (result, s) := unnoticed (r.execute b) s
    (result, note s (.executed tag b.descriptors))

/-- A candidate under observation. -/
def kernel (candidate : Nat) (k : Kernel α σ) : Kernel α (Recorded σ) where
  name := k.name
  origin := k.origin
  shapeAgnostic := k.shapeAgnostic
  supports attrs ds c := unnoticed (k.supports attrs ds c)
  preferred attrs ds := unnoticed (k.preferred attrs ds)
  acceptsShapes b := unnoticed (k.acceptsShapes b)
  build attrs b s :=
    match unnoticed (k.build attrs b) s with
    | (.error e, s) => (.error e, s)
    | (.ok r, s) =>
      (.ok (runner ⟨candidate, s.ambient.built⟩ r),
        { s with ambient := { s.ambient with built := s.ambient.built + 1 } })

/-- All candidates under observation, by their places. -/
def kernels (ks : List (Kernel α σ)) : List (Kernel α (Recorded σ)) :=
  ks.mapIdx kernel

/-- No runs have been noted down between the worlds. -/
def NoRuns (w w' : World (Recorded σ)) : Prop :=
  ∃ new, w'.ambient.notes = new ++ w.ambient.notes ∧ ∀ tag ds, Note.executed tag ds ∉ new

theorem NoRuns.of_eq {w w' : World (Recorded σ)} (h : w'.ambient.notes = w.ambient.notes) :
    NoRuns w w' := ⟨[], h, fun _ _ => List.not_mem_nil⟩

theorem NoRuns.trans {w w' w'' : World (Recorded σ)} (h : NoRuns w w') (h' : NoRuns w' w'') :
    NoRuns w w'' := by
  obtain ⟨new, hnew, hnone⟩ := h
  obtain ⟨new', hnew', hnone'⟩ := h'
  refine ⟨new' ++ new, by rw [hnew', hnew, List.append_assoc], fun tag ds hmem => ?_⟩
  rcases List.mem_append.1 hmem with hmem | hmem
  · exact hnone' tag ds hmem
  · exact hnone tag ds hmem

/-- What has been built bears the tag, unless it was left unbuilt. -/
def Bears (i : Nat) (built : Instance (Recorded σ)) : Prop :=
  ∀ r, built.runner? = some r → ∃ n r', r = runner ⟨i, n⟩ r'

theorem kernels_getElem? {ks : List (Kernel α σ)} {i : Nat} {k : Kernel α (Recorded σ)}
    (h : (kernels ks)[i]? = some k) : ∃ k', ks[i]? = some k' ∧ k = kernel i k' := by
  unfold kernels at h
  rw [List.getElem?_mapIdx, Option.map_eq_some_iff] at h
  obtain ⟨k', hk', rfl⟩ := h
  exact ⟨k', hk', rfl⟩

/-! ## What is noted down -/

theorem runner_update_notes (tag : Tag) (r : Runner σ) (b : Bindings) (s : Session (Recorded σ)) :
    ((runner tag r).update b s).2.ambient.notes =
      .updated tag b.descriptors ((runner tag r).update b s).1 :: s.ambient.notes := rfl

theorem runner_execute_notes (tag : Tag) (r : Runner σ) (b : Bindings) (s : Session (Recorded σ)) :
    ((runner tag r).execute b s).2.ambient.notes =
      .executed tag b.descriptors :: s.ambient.notes := rfl

theorem kernel_build (i : Nat) (k : Kernel α σ) (attrs : α) (b : Bindings)
    (s : Session (Recorded σ)) :
    ((kernel i k).build attrs b s).2.ambient.notes = s.ambient.notes ∧
      ∀ r, ((kernel i k).build attrs b s).1 = .ok r → ∃ n r', r = runner ⟨i, n⟩ r' := by
  rcases hbuild : k.build attrs b (view s) with ⟨_ | r, t⟩ <;>
    simp only [kernel, unnoticed, hbuild, true_and]
  · exact fun r hr => by cases hr
  · rintro _ ⟨⟩
    exact ⟨s.ambient.built, r, rfl⟩

theorem build_bears {i : Nat} {k : Kernel α σ} {attrs : α} {ds : Descriptors}
    {preferred : Option Descriptors} {memory : Bindings} {w w' : World (Recorded σ)}
    {r : Except Error (Instance (Recorded σ))}
    (h : Instance.build (kernel i k) attrs ds preferred memory w = (r, w')) :
    w'.ambient.notes = w.ambient.notes ∧ ∀ built, r = .ok built → Bears i built := by
  rcases Instance.build_runner h with ⟨hambient, hnone⟩ | ⟨staged, s, hs, hambient, -, hsome⟩
  · refine ⟨congrArg notes hambient, fun built hb r hr => ?_⟩
    rw [hnone built hb] at hr
    cases hr
  · obtain ⟨hnotes, htagged⟩ := kernel_build i k attrs staged s
    refine ⟨(congrArg notes hambient).trans (hnotes.trans (congrArg notes hs)),
      fun built hb r hr => ?_⟩
    obtain ⟨r', hr', hbuilt⟩ := hsome built hb
    rw [hbuilt] at hr
    cases hr
    exact htagged r hr'

/-- An update notes down at most its own answer. -/
theorem update_noRuns {i : Nat} {built : Instance (Recorded σ)} (h : Bears i built)
    (memory : Bindings) (w : World (Recorded σ)) : NoRuns w (built.update memory w).2.2 := by
  have hanswered : ∀ tag ds answer, ∀ w' : World (Recorded σ),
      w'.ambient.notes = .updated tag ds answer :: w.ambient.notes → NoRuns w w' := by
    intro tag ds answer w' hw'
    refine ⟨[.updated tag ds answer], hw', fun tag' ds' hmem => ?_⟩
    cases List.mem_singleton.1 hmem
  cases built with
  | direct name r =>
    obtain ⟨n, r', rfl⟩ := h r rfl
    exact hanswered _ _ _ _ rfl
  | adapted a =>
    show NoRuns w (a.update memory w).2.2
    unfold Adapter.update
    dsimp only
    split
    · rename_i r _ hinner
      rw [Adapter.follow_inner] at hinner
      obtain ⟨n, r', rfl⟩ := h r hinner
      rcases w.withStaged_ambient memory (a.follow memory.descriptors).conversions
        (fun staged w => w.run ((runner ⟨i, n⟩ r').update staged)) with hw | ⟨staged, w₁, hw₁, hw⟩
      · exact .of_eq (congrArg Recorded.notes hw)
      · refine hanswered ⟨i, n⟩ staged.descriptors ((runner ⟨i, n⟩ r').update staged w₁.toSession).1
          _ ?_
        rw [hw, ← hw₁]
        exact runner_update_notes ⟨i, n⟩ r' staged w₁.toSession
    · exact .of_eq rfl

/-- Whoever consents notes it down, with the descriptors that it was handed. -/
theorem note_of_update {i : Nat} {built built' : Instance (Recorded σ)} (h : Bears i built)
    {memory : Bindings} {w w' : World (Recorded σ)}
    (hupdate : built.update memory w = (.ok true, built', w')) :
    ∃ n r, built'.runner? = some (runner ⟨i, n⟩ r) ∧
      w'.ambient.notes =
        .updated ⟨i, n⟩ (built'.handed memory.descriptors) (.ok true) :: w.ambient.notes := by
  cases built with
  | direct name r =>
    obtain ⟨n, r', rfl⟩ := h r rfl
    simp only [Instance.update, World.run, Prod.mk.injEq] at hupdate
    obtain ⟨hanswer, rfl, rfl⟩ := hupdate
    exact ⟨n, r', rfl, congrArg (fun a => Note.updated ⟨i, n⟩ memory.descriptors a :: _) hanswer⟩
  | adapted a =>
    simp only [Instance.update, Prod.mk.injEq] at hupdate
    obtain ⟨hanswer, rfl, rfl⟩ := hupdate
    have hreach := Adapter.reaches_of_update hanswer
    obtain ⟨staged, loans, w₁, hstage, hdesc⟩ := hreach.stages w
    obtain ⟨hconv, ⟨r, hr⟩, -⟩ := hreach
    obtain ⟨n, r', rfl⟩ := h r (by rw [← hr, Adapter.follow_inner]; rfl)
    have hambient := World.stageFrom_ambient memory
      (a.follow memory.descriptors).conversions.entries memory [] w
    rw [hstage] at hambient
    have heq : a.update memory w = (((runner ⟨i, n⟩ r').update staged w₁.toSession).1,
        a.follow memory.descriptors,
        (w₁.run ((runner ⟨i, n⟩ r').update staged)).2.giveBack loans) := by
      unfold Adapter.update
      simp only [(Adapter.check_eq_ok_iff _ _).2 hconv, hr, World.withStaged, hstage]
      rfl
    rw [heq] at hanswer ⊢
    refine ⟨n, r', hr, ?_⟩
    show Note.updated ⟨i, n⟩ staged.descriptors _ :: w₁.ambient.notes = _
    rw [hdesc, congrArg Recorded.notes hambient]
    exact congrArg (fun answer => Note.updated _ _ answer :: _) hanswer

/-- Whoever consented is run once by the call that follows. -/
theorem note_of_execute {built built' : Instance (Recorded σ)} {memory : Bindings}
    {w w' : World (Recorded σ)} (hupdate : built.update memory w = (.ok true, built', w'))
    {tag : Tag} {r : Runner σ} (hr : built'.runner? = some (runner tag r)) :
    (built'.execute memory w').2.ambient.notes =
      .executed tag (built'.handed memory.descriptors) :: w'.ambient.notes := by
  cases built with
  | direct name r' =>
    simp only [Instance.update, Prod.mk.injEq] at hupdate
    obtain ⟨-, rfl, -⟩ := hupdate
    cases hr
    rfl
  | adapted a =>
    simp only [Instance.update, Prod.mk.injEq] at hupdate
    obtain ⟨hanswer, rfl, rfl⟩ := hupdate
    have hreach := Adapter.reaches_of_update hanswer
    rw [← Adapter.update_adapter a memory w] at hreach
    generalize (a.update memory w).2.1 = a' at hreach hr ⊢
    generalize (a.update memory w).2.2 = w'
    obtain ⟨h, hh, hinner, hds⟩ := hreach.handOver w'
    have hrunner : h.runner = runner tag r :=
      Option.some.inj (hinner.symm.trans (show a'.inner = some (runner tag r) from hr))
    show (a'.execute memory w').2.ambient.notes = _
    rw [Adapter.execute_eq, hh]
    show (a'.runOnce memory h).2.ambient.notes = .executed tag _ :: _
    rw [Adapter.runOnce_ambient, hrunner, runner_execute_notes, hds,
      ← Adapter.handOver_ambient hh]
    rfl

end Recorded

end KernelDispatch
