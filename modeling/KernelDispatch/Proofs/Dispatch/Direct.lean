import KernelDispatch.Factory
import KernelDispatch.Proofs.Adapter.Reports
import KernelDispatch.Proofs.Dispatch.Quiet
import KernelDispatch.Proofs.Dispatch.Scripts

/-
  What refuses operands. A dispatcher refuses whatever the predicates of its candidates refuse,
  after every history (`Dispatcher.update_of_refused`). An executor that was built at once never
  asks the predicates: it refuses operands exactly when they cannot be handed to the runner that
  its kernel built, or this runner refuses them itself (`Instance.refuses_iff`). The two differ on
  a kernel whose runner takes what its predicates do not (`single_runs_what_dispatcher_refuses`).
-/

namespace KernelDispatch

variable {α σ : Type}

/-! ## Predicates that refuse -/

/-- The predicates of the kernel let no operands with these descriptors pass. -/
def Kernel.Refuses (k : Kernel α σ) (attrs : α) (constraints : Constraints) (ds : Descriptors) :
    Prop :=
  ∀ memory : Bindings, memory.descriptors = ds → ∀ s s',
    (k.supports attrs ds constraints s).1 = true → (k.acceptsShapes memory s').1 = false

namespace Dispatcher

variable {ks : List (Kernel α σ)} {attrs : α} {constraints : Constraints}

theorem passes_of_refuses {d : Dispatcher α σ} {k : Kernel α σ} {memory : Bindings}
    (h : k.Refuses d.attrs d.constraints memory.descriptors) (w : World σ) :
    (d.passes k memory w).1 = false := by
  unfold passes
  rcases hs : w.run (k.supports d.attrs memory.descriptors d.constraints) with ⟨_ | _, w₁⟩
  · rfl
  · exact h memory rfl w.toSession w₁.toSession (congrArg Prod.fst hs)

/-- A walk over candidates that all refuse ends without a choice. -/
theorem walk_of_refuses {d : Dispatcher α σ} {memory : Bindings}
    {rest : List (Kernel α σ × Nat)}
    (h : ∀ e ∈ rest, e.1.Refuses d.attrs d.constraints memory.descriptors) (w : World σ) :
    (walk memory rest d w).1 = .ok false := by
  induction rest generalizing w with
  | nil => rfl
  | cons e rest ih =>
    obtain ⟨hfirst, hrest⟩ := List.forall_mem_cons.1 h
    have hfails := passes_of_refuses hfirst w
    rw [walk]
    rcases hp : d.passes e.1 memory w with ⟨_ | _, w₁⟩
    · exact ih hrest w₁
    · rw [hp] at hfails
      cases hfails

/-- The candidates may do anything. -/
theorem conduct_any (ks : List (Kernel α σ)) (attrs : α) (constraints : Constraints) :
    Conduct ks attrs constraints (fun _ _ => True) (fun _ _ => True) where
  refl := fun _ => trivial
  trans := fun _ _ => trivial
  supports := fun _ _ _ _ => trivial
  acceptsShapes := fun _ _ _ _ => trivial
  preferred := fun _ _ _ _ => trivial
  build := fun _ _ _ _ _ _ _ _ _ => ⟨trivial, fun _ _ => trivial⟩
  update := fun _ _ _ _ _ => ⟨trivial, trivial⟩

/-- Operands that are neither in force nor remembered are refused if every candidate refuses
    them. -/
theorem Tended.update_of_refuses {J : Nat → Instance σ → Prop} {memory : Bindings}
    {d : Dispatcher α σ}
    (h : Tended ks attrs constraints J (fun _ ds => ds ≠ memory.descriptors) d)
    (hrefuses : ∀ k ∈ ks, k.Refuses attrs constraints memory.descriptors) (w : World σ) :
    (d.update memory w).1 = .ok false := by
  have hcurrent : d.current? memory = none := by
    unfold current?
    cases hres : d.resolved with
    | none => rfl
    | some inForce => exact if_neg (h.inForce inForce.1 inForce.2 hres).1
  have hforgotten : d.decisions.use? memory.descriptors = none :=
    Recency.use?_eq_none h.remembers
  unfold Dispatcher.update
  rw [hcurrent]
  unfold Dispatcher.resolve
  dsimp only
  rw [hforgotten]
  refine walk_of_refuses (fun e he => ?_) w
  have hmem : e.1 ∈ ks := by
    rw [← h.candidates_eq]
    exact List.mem_of_getElem? (List.mem_zipIdx_iff_getElem?.1 he)
  show e.1.Refuses d.attrs d.constraints memory.descriptors
  rw [h.attrs_eq, h.constraints_eq]
  exact hrefuses e.1 hmem

/-- What the predicates of all candidates refuse is refused after every history. -/
theorem update_of_refused [Operation α] (context : Context) {memory : Bindings}
    (hrefuses : ∀ k ∈ ks, k.Refuses attrs constraints memory.descriptors) (w : World σ)
    (calls : List (Call σ)) :
    let s := after (ofCandidates ks attrs constraints context, w) calls
    (s.1.update memory s.2).1 = .ok false := by
  have hvets : Vets ks attrs constraints fun _ ds => ds ≠ memory.descriptors := by
    intro i k hk memory' s s' hsupports haccepts heq
    rw [heq] at hsupports
    rw [hrefuses k (List.mem_of_getElem? hk) memory' heq s s' hsupports] at haccepts
    cases haccepts
  have htended := (tended_ofCandidates ks attrs constraints (fun _ _ => True)
    (fun _ ds => ds ≠ memory.descriptors) context).after (s := (_, w))
    (conduct_any ks attrs constraints) hvets calls
  exact htended.update_of_refuses hrefuses _

end Dispatcher

/-! ## What a runner is handed -/

namespace Adapter

/-- What an update of an adapter that is planned for these operands hands to its runner. -/
def offers (a : Adapter σ) (memory : Bindings) (w : World σ) : Option (Handover σ) :=
  match a.check memory, a.inner, World.stageFrom memory a.conversions.entries memory [] w with
  | .ok (), some runner, (.ok operands, loans, world) => some { runner, operands, loans, world }
  | _, _, _ => none

theorem offers_of_reaches {a : Adapter σ} {memory : Bindings} (h : a.Reaches memory)
    (w : World σ) : ∃ o, a.offers memory w = some o := by
  obtain ⟨operands, loans, w₁, hstage, -⟩ := h.stages w
  obtain ⟨hconv, ⟨runner, hinner⟩, -⟩ := h
  refine ⟨⟨runner, operands, loans, w₁⟩, ?_⟩
  simp only [offers, (a.check_eq_ok_iff memory).2 hconv, hinner, hstage]

/-- The runner answers the update with what it was offered. -/
theorem update_of_offers {a : Adapter σ} {memory : Bindings} {w : World σ} {o : Handover σ}
    (h : (a.follow memory.descriptors).offers memory w = some o) :
    (a.update memory w).1 = (o.runner.update o.operands o.world.toSession).1 ∧
      a.inner = some o.runner := by
  unfold offers at h
  split at h
  · rename_i runner operands loans w₁ hcheck hinner hstage
    cases h
    rw [follow_inner] at hinner
    refine ⟨?_, hinner⟩
    simp only [update, hcheck, follow_inner, hinner, World.withStaged, hstage, World.run]
  · cases h

end Adapter

namespace Instance

/-- What an update hands to the runner, if it gets that far. -/
def offers (memory : Bindings) (w : World σ) : Instance σ → Option (Handover σ)
  | direct _ runner => some { runner, operands := memory, loans := [], world := w }
  | adapted a => a.offers memory w

/-- What a call hands to the runner, if it gets that far. -/
def handsOver (memory : Bindings) (w : World σ) : Instance σ → Option (Handover σ)
  | direct _ runner => some { runner, operands := memory, loans := [], world := w }
  | adapted a => (a.handOver memory w).toOption

theorem handsOver_adapted_iff (a : Adapter σ) (memory : Bindings) (w : World σ) (h : Handover σ) :
    (adapted a).handsOver memory w = some h ↔ a.handOver memory w = .ok h := by
  show (a.handOver memory w).toOption = some h ↔ _
  cases a.handOver memory w with
  | error e => simp [Except.toOption]
  | ok h' => simp [Except.toOption]

theorem offers_of_reaches {built : Instance σ} {memory : Bindings} (h : built.Reaches memory)
    (w : World σ) : ∃ o, built.offers memory w = some o := by
  cases built with
  | direct name r => exact ⟨_, rfl⟩
  | adapted a => exact Adapter.offers_of_reaches h w

theorem update_of_offers {built : Instance σ} {memory : Bindings} {w : World σ} {o : Handover σ}
    (h : (built.update memory w).2.1.offers memory w = some o) :
    (built.update memory w).1 = (o.runner.update o.operands o.world.toSession).1 ∧
      built.runner? = some o.runner := by
  cases built with
  | direct name r =>
    cases h
    exact ⟨rfl, rfl⟩
  | adapted a =>
    change (a.update memory w).2.1.offers memory w = some o at h
    rw [Adapter.update_adapter] at h
    exact Adapter.update_of_offers h

theorem execute_of_handsOver {built : Instance σ} {memory : Bindings} {w : World σ}
    {h : Handover σ} (hh : built.handsOver memory w = some h) :
    ((built.execute memory w).1 = .ok () ↔
        (h.runner.execute h.operands h.world.toSession).1 = .ok ()) ∧
      built.Reaches memory ∧ built.runner? = some h.runner := by
  cases built with
  | direct name r =>
    cases hh
    exact ⟨Iff.rfl, trivial, rfl⟩
  | adapted a =>
    have hhand := (handsOver_adapted_iff a memory w h).1 hh
    have hreach := Adapter.reaches_of_handOver hhand
    obtain ⟨h', hh', hinner, -⟩ := hreach.handOver w
    rw [hhand] at hh'
    cases hh'
    refine ⟨?_, hreach, hinner⟩
    show (a.execute memory w).1 = .ok () ↔ _
    rw [a.execute_eq, hhand]
    show (a.runOnce memory h).1 = .ok () ↔ _
    rw [Adapter.runOnce_result hhand]

theorem not_reaches_of_handsOver {built : Instance σ} {memory : Bindings} {w : World σ}
    (h : built.handsOver memory w = none) : ¬ built.Reaches memory := by
  intro hreach
  cases built with
  | direct name r => cases h
  | adapted a =>
    obtain ⟨o, ho, -⟩ := Adapter.Reaches.handOver hreach w
    rw [(handsOver_adapted_iff a memory w o).2 ho] at h
    cases h

theorem Has.after {P : Runner σ → Prop} {built : Instance σ} (h : built.Has P) {w : World σ}
    (calls : List (Call σ)) : (Instance.after (built, w) calls).1.Has P :=
  after_induction (P := fun built => built.Has P) (s := (built, w))
    (fun memory _ _ w hb => hb.update memory w) h

/-- An update refuses the operands or the call after it fails, exactly if this is what the runner
    does with what it is handed, or it is handed nothing. -/
theorem refuses_iff (built : Instance σ) (memory : Bindings) (w : World σ) :
    let u := built.update memory w
    (u.1 = .ok false ∨ ∃ e, (u.2.1.execute memory u.2.2).1 = .error e) ↔
      ∀ o h, u.2.1.offers memory w = some o → u.2.1.handsOver memory u.2.2 = some h →
        (o.runner.update o.operands o.world.toSession).1 = .ok false ∨
          ∃ e, (h.runner.execute h.operands h.world.toSession).1 = .error e := by
  have hfails : ∀ r : Except Error Unit, (∃ e, r = .error e) ↔ r ≠ .ok () := by
    rintro (e | _) <;> simp
  intro u
  simp only [hfails]
  constructor
  · intro hrefuses o h ho hh
    obtain ⟨hupdate, -⟩ := update_of_offers ho
    obtain ⟨hexecute, -, -⟩ := execute_of_handsOver hh
    rw [← hupdate]
    exact hrefuses.imp_right (mt hexecute.2)
  · intro hrunner
    cases hh : u.2.1.handsOver memory u.2.2 with
    | none =>
      obtain ⟨e, he, -⟩ := execute_error_of_not_reaches (not_reaches_of_handsOver hh) u.2.2
      exact .inr ((hfails _).1 ⟨e, he⟩)
    | some h =>
      obtain ⟨hexecute, hreach, -⟩ := execute_of_handsOver hh
      obtain ⟨o, ho⟩ := offers_of_reaches hreach w
      obtain ⟨hupdate, -⟩ := update_of_offers ho
      show (built.update memory w).1 = .ok false ∨ _
      rw [hupdate]
      exact (hrunner o h ho hh).imp_right (mt hexecute.1)

end Instance

/-! ## Executors of a factory with one candidate -/

namespace Factory

variable {f : Factory α σ} {k : Kernel α σ}

/-- Predicates have no part in what is made of a single candidate. -/
theorem make_of_predicates (hf : f.candidates = [k])
    (supports : α → Descriptors → Constraints → Ask σ Bool) (acceptsShapes : Bindings → Ask σ Bool)
    (memory : Bindings) (w : World σ) :
    { f with candidates := [{ k with supports, acceptsShapes }] }.make memory w =
      f.make memory w := by
  unfold make
  rw [hf]
  rfl

/-- A single candidate is built at once, and its runner is what the kernel built. -/
theorem single_of_make (hf : f.candidates = [k]) {memory : Bindings} {w w' : World σ}
    {e : Executor α σ} (h : f.make memory w = (.ok e, w')) :
    ∃ built, e = .single built ∧
      built.Has fun r => ∃ operands s, (k.build f.attrs operands s).1 = .ok r := by
  unfold make at h
  rw [hf] at h
  dsimp only at h
  rcases hasked : w.run (k.preferred f.attrs memory.descriptors) with ⟨preferred, w₁⟩
  rw [hasked] at h
  dsimp only at h
  rcases hbuild : Instance.build k f.attrs memory.descriptors preferred memory w₁ with
    ⟨_ | built, w₂⟩ <;> rw [hbuild] at h
  · cases h
  · cases h
    refine ⟨built, rfl, fun r hr => ?_⟩
    rcases Instance.build_runner hbuild with ⟨-, hnone⟩ | ⟨staged, s, -, -, -, hsome⟩
    · rw [hnone built rfl] at hr
      cases hr
    · obtain ⟨r', hr', hrunner⟩ := hsome built rfl
      rw [hrunner] at hr
      cases hr
      exact ⟨staged, s, hr'⟩

end Factory

namespace Executor

/-- What an update of a single executor hands to its runner, if it gets that far. -/
def offers (memory : Bindings) (w : World σ) : Executor α σ → Option (Handover σ)
  | single built => built.offers memory w
  | deferred _ => none

/-- What a call of a single executor hands to its runner, if it gets that far. -/
def handsOver (memory : Bindings) (w : World σ) : Executor α σ → Option (Handover σ)
  | single built => built.handsOver memory w
  | deferred _ => none

end Executor

namespace Factory

variable {f : Factory α σ} {k : Kernel α σ}

/-- A dispatcher over a kernel refuses, after every history, the operands that the predicates of
    the kernel refuse. What a factory makes of the kernel alone would be the same with any other
    predicates: after every history it refuses operands, or fails to run on them, exactly if it has
    nothing to hand to the runner that the kernel built, or this runner refuses what it is handed,
    or fails to run on it. -/
theorem single_refuses_iff [Operation α] (hf : f.candidates = [k]) {memory₀ : Bindings}
    {w₀ w₁ : World σ} {e : Executor α σ} (hmake : f.make memory₀ w₀ = (.ok e, w₁))
    (memory : Bindings) :
    (k.Refuses f.attrs f.constraints memory.descriptors → ∀ (w : World σ) calls,
      let s := Dispatcher.after
        (.ofCandidates f.candidates f.attrs f.constraints f.context, w) calls
      (s.1.update memory s.2).1 = .ok false) ∧
    (∀ supports acceptsShapes,
      { f with candidates := [{ k with supports, acceptsShapes }] }.make memory₀ w₀ =
        (.ok e, w₁)) ∧
    ∀ calls,
      let s := Executor.after (e, w₁) calls
      let u := s.1.update memory s.2
      ((u.1 = .ok false ∨ ∃ error, (u.2.1.execute memory u.2.2).1 = .error error) ↔
        ∀ o h, u.2.1.offers memory s.2 = some o → u.2.1.handsOver memory u.2.2 = some h →
          (o.runner.update o.operands o.world.toSession).1 = .ok false ∨
            ∃ error, (h.runner.execute h.operands h.world.toSession).1 = .error error) ∧
      ∀ o h, u.2.1.offers memory s.2 = some o → u.2.1.handsOver memory u.2.2 = some h →
        o.runner = h.runner ∧
          ∃ operands session, (k.build f.attrs operands session).1 = .ok o.runner := by
  refine ⟨fun hrefuses w calls => ?_, fun supports acceptsShapes => ?_, fun calls => ?_⟩
  · refine Dispatcher.update_of_refused f.context (fun k' hk' => ?_) w calls
    rw [hf, List.mem_singleton] at hk'
    rw [hk']
    exact hrefuses
  · rw [make_of_predicates hf, hmake]
  · obtain ⟨built, rfl, hhas⟩ := single_of_make hf hmake
    rw [Executor.after_single (built, w₁) calls]
    have hkept := hhas.after (w := w₁) calls
    generalize Instance.after (built, w₁) calls = s at hkept
    refine ⟨Instance.refuses_iff s.1 memory s.2, fun o h ho hh => ?_⟩
    obtain ⟨-, hoffered⟩ := Instance.update_of_offers ho
    have hhanded : (s.1.update memory s.2).2.1.runner? = some h.runner :=
      (Instance.execute_of_handsOver hh).2.2
    rw [Instance.runner?_update, hoffered, Option.some.injEq] at hhanded
    exact ⟨hhanded, hkept o.runner hoffered⟩

end Factory

/-! ## A kernel that takes more than its predicates allow -/

@[simp] theorem Session.enter_store (s : Session Journal) (e : Event) :
    (s.enter e).store = s.store := rfl

/-- Without a prescribed reply a run succeeds on a source and a destination of one size. -/
theorem Script.execute_of_sizes (arith : Arithmetic) (op : Scaling) {script : Script}
    (hruns : script.runs = []) {memory : Bindings} {s : Session Journal} {m m' : Memory}
    (hm : memory.get? (.source 0) = some m) (hm' : memory.get? (.destination 0) = some m')
    (htype : m.desc.elementType = .f32) (htype' : m'.desc.elementType = .f32)
    (hsize : (s.store.contents m').size = 4 * ((s.store.contents m).size / 4)) :
    (script.execute arith op memory s).1 = .ok () := by
  have hscale : ∃ store, scale arith op memory s.store = .ok store := by
    unfold scale Bindings.require
    rw [hm, hm']
    simp [Store.readPhysical, htype, Store.writePhysical, htype', Store.byteLength, hsize,
      Bytes.singles, bind, Except.bind]
  obtain ⟨store, hstore⟩ := hscale
  unfold Script.execute
  simp only [reply, hruns, List.getElem?_nil, Option.getD_none, Session.enter_store, hstore]

namespace Factory

/-- Accepts sources whose first extent is a multiple of four, and scales any. -/
def quadsScript : Script := { name := "quads", accepts := some [.multiple (.source 0) 0 4] }

def quads : Kernel Scaling Journal := quadsScript.kernel .single

/-- A factory with this kernel as its only candidate. -/
def quadsOnly : Factory Scaling Journal := ⟨⟨.zero⟩, .ofSettings default, ∅, [quads]⟩

/-- Vectors of `n` elements as source and destination, in the given cells. -/
def vectorPair (n : Nat) (c c' : Cell) : Bindings :=
  .ofList [(.source 0, ⟨⟨.f32, .ofSizes [n], .planar⟩, c⟩),
    (.destination 0, ⟨⟨.f32, .ofSizes [n], .planar⟩, c'⟩)]

/-- Two vectors of four elements and two of three. -/
def fourVectors : World Journal where
  store := ⟨#[Bytes.zeros 16, Bytes.zeros 16, Bytes.zeros 12, Bytes.zeros 12]⟩
  ambient := []
  scratch := {}

theorem quads_refuses_three (attrs : Scaling) (constraints : Constraints) :
    quads.Refuses attrs constraints (vectorPair 3 2 3).descriptors := by
  intro memory hds s s' _
  show [ExtentTest.multiple (.source 0) 0 4].all (·.holds false memory.descriptors) = false
  rw [hds]
  rfl

/-- Three elements are not a multiple of four. The dispatcher refuses them; the executor that was
    made for four elements takes them and runs. -/
theorem single_runs_what_dispatcher_refuses :
    quads.Refuses quadsOnly.attrs quadsOnly.constraints (vectorPair 3 2 3).descriptors ∧
      ((Dispatcher.ofCandidates [quads] quadsOnly.attrs quadsOnly.constraints
        quadsOnly.context).update (vectorPair 3 2 3) fourVectors).1 = .ok false ∧
      ∃ e w, quadsOnly.make (vectorPair 4 0 1) fourVectors = (.ok e, w) ∧
        let u := e.update (vectorPair 3 2 3) w
        u.1 = .ok true ∧ (u.2.1.execute (vectorPair 3 2 3) u.2.2).1 = .ok () := by
  have hruns : ∀ s : Session Journal, s.store = fourVectors.store →
      (quadsScript.execute .single ⟨.zero⟩ (vectorPair 3 2 3) s).1 = .ok () := fun s hs =>
    Script.execute_of_sizes .single _ rfl rfl rfl rfl rfl (by rw [hs]; rfl)
  exact ⟨quads_refuses_three _ _, rfl, _, _, rfl, rfl, hruns _ rfl⟩

/-- Would have the channels last, and what it builds refuses the first update. -/
def packedScript : Script :=
  { name := "packed", updates := [.no]
    preference := some { wish := .relaid fun _ _ => .channelsLast } }

/-- A factory with the kernel that follows this script as its only candidate. -/
def packedOnly : Factory Scaling Journal :=
  ⟨⟨.zero⟩, .ofSettings default, ∅, [packedScript.kernel .single]⟩

/-- A planar image as source and destination. -/
def imagePair : Bindings :=
  .ofList [(.source 0, ⟨⟨.f32, .ofSizes [1, 2, 1, 2], .planar⟩, 0⟩),
    (.destination 0, ⟨⟨.f32, .ofSizes [1, 2, 1, 2], .planar⟩, 1⟩)]

/-- After a run on four elements the dispatcher refuses three. The executor that was made at once
    takes them and runs, and so does its runner. An adapted executor refuses an image because the
    runner refuses the one with the channels last that it is handed, and vectors because they cannot
    be converted for it. -/
theorem quads_single_refuses_iff :
    (∃ e w, quadsOnly.make (vectorPair 4 0 1) fourVectors = (.ok e, w) ∧
      quads.Refuses quadsOnly.attrs quadsOnly.constraints (vectorPair 3 2 3).descriptors ∧
      (let s := Dispatcher.after (.ofCandidates quadsOnly.candidates quadsOnly.attrs
          quadsOnly.constraints quadsOnly.context, fourVectors) [.execute (vectorPair 4 0 1)]
       (s.1.update (vectorPair 3 2 3) s.2).1 = .ok false) ∧
      let s := Executor.after (e, w) [.update (vectorPair 4 0 1)]
      let u := s.1.update (vectorPair 3 2 3) s.2
      u.1 = .ok true ∧ (u.2.1.execute (vectorPair 3 2 3) u.2.2).1 = .ok () ∧
        ¬ ∀ o h, u.2.1.offers (vectorPair 3 2 3) s.2 = some o →
          u.2.1.handsOver (vectorPair 3 2 3) u.2.2 = some h →
          (o.runner.update o.operands o.world.toSession).1 = .ok false ∨
            ∃ error, (h.runner.execute h.operands h.world.toSession).1 = .error error) ∧
    ∃ e w, packedOnly.make imagePair fourVectors = (.ok e, w) ∧ (∃ a, e = .single (.adapted a)) ∧
      (let u := e.update imagePair w
       u.1 = .ok false ∧
        (∃ o, u.2.1.offers imagePair w = some o ∧
          o.operands.descriptors.allInLayout .channelsLast = true) ∧
        ∀ o h, u.2.1.offers imagePair w = some o → u.2.1.handsOver imagePair u.2.2 = some h →
          (o.runner.update o.operands o.world.toSession).1 = .ok false ∨
            ∃ error, (h.runner.execute h.operands h.world.toSession).1 = .error error) ∧
      let u := e.update (vectorPair 3 2 3) w
      u.1 = .ok false ∧ u.2.1.offers (vectorPair 3 2 3) w = none := by
  constructor
  · obtain ⟨e, w, hmake, htrue, hruns⟩ : ∃ e w,
        quadsOnly.make (vectorPair 4 0 1) fourVectors = (.ok e, w) ∧
        let s := Executor.after (e, w) [.update (vectorPair 4 0 1)]
        let u := s.1.update (vectorPair 3 2 3) s.2
        u.1 = .ok true ∧ (u.2.1.execute (vectorPair 3 2 3) u.2.2).1 = .ok () := by
      have hexecute : ∀ s : Session Journal, s.store = fourVectors.store →
          (quadsScript.execute .single ⟨.zero⟩ (vectorPair 3 2 3) s).1 = .ok () := fun s hs =>
        Script.execute_of_sizes .single _ rfl rfl rfl rfl rfl (by rw [hs]; rfl)
      exact ⟨_, _, rfl, rfl, hexecute _ rfl⟩
    have hrefuses := quads_refuses_three quadsOnly.attrs quadsOnly.constraints
    obtain ⟨hdispatcher, -, hsingle⟩ := single_refuses_iff rfl hmake (vectorPair 3 2 3)
    refine ⟨e, w, hmake, hrefuses, hdispatcher hrefuses fourVectors [.execute (vectorPair 4 0 1)],
      htrue, hruns, fun hrunner => ?_⟩
    rcases (hsingle [.update (vectorPair 4 0 1)]).1.2 hrunner with hfalse | ⟨error, herror⟩
    · cases htrue.symm.trans hfalse
    · cases hruns.symm.trans herror
  · obtain ⟨e, w, hmake, hadapted, ⟨hrefused, hoffered⟩, hvectors⟩ : ∃ e w,
        packedOnly.make imagePair fourVectors = (.ok e, w) ∧ (∃ a, e = .single (.adapted a)) ∧
        (let u := e.update imagePair w
         u.1 = .ok false ∧ ∃ o, u.2.1.offers imagePair w = some o ∧
          o.operands.descriptors.allInLayout .channelsLast = true) ∧
        let u := e.update (vectorPair 3 2 3) w
        u.1 = .ok false ∧ u.2.1.offers (vectorPair 3 2 3) w = none :=
      ⟨_, _, rfl, ⟨_, rfl⟩, ⟨rfl, _, rfl, rfl⟩, rfl, rfl⟩
    obtain ⟨-, -, hsingle⟩ := single_refuses_iff rfl hmake imagePair
    exact ⟨e, w, hmake, hadapted, ⟨hrefused, hoffered, (hsingle []).1.1 (.inl hrefused)⟩,
      hvectors⟩
end Factory

end KernelDispatch
