import KernelDispatch.Proofs.Adapter.Formats
import KernelDispatch.Proofs.Dispatch.Scripts
import KernelDispatch.Proofs.Dispatch.Walk

/-
  The candidate that a dispatcher resolves to. If every candidate keeps the shapes of the operands
  that it accepts and can have them staged, then after every history an update resolves to the
  least candidate that takes the operands, where nothing is remembered and every candidate is asked
  anew (`resolves_to_least`). What is remembered, and for how long, makes no difference.
-/

namespace KernelDispatch

namespace SteadyKernel

variable {α σ : Type} {attrs : α} {constraints : Constraints}

/-- The predicates let the operands pass, each operand that differs from what the kernel prefers
    can be converted, and a newly built kernel gives the answer on the converted operands. -/
structure Answers (k : SteadyKernel σ attrs constraints) (ds : Descriptors)
    (answer : Except Error Bool) : Prop where
  supports : k.supports ds = true
  acceptsShapes : k.acceptsShapes ds = true
  converts : ∀ p t, (k.conversions ds).get? p = some t →
    ∃ d, ds.get? p = some d ∧ d.checkConversion t = .ok ()
  takes : k.takes (ds.replacedBy (k.conversions ds)) = answer

/-- The candidate can be given the operands and takes them. -/
def Takes (k : SteadyKernel σ attrs constraints) (ds : Descriptors) : Prop :=
  k.Answers ds (.ok true)

/-- The candidate can be given the operands and fails on them. -/
def Fails (k : SteadyKernel σ attrs constraints) (ds : Descriptors) (e : Error) : Prop :=
  k.Answers ds (.error e)

/-- The candidate neither takes the operands nor fails on them. -/
def Refuses (k : SteadyKernel σ attrs constraints) (ds : Descriptors) : Prop :=
  ¬ k.Takes ds ∧ ∀ e, ¬ k.Fails ds e

/-- With operands that can be staged, the response is the answer of the newly built kernel, or a
    refusal if it is not reached. -/
theorem response_eq_iff {k : SteadyKernel σ attrs constraints} {ds : Descriptors}
    (hstaged : k.accepts ds = true → k.Staged ds) {r : Except Error Bool} (hr : r ≠ .ok false) :
    k.response ds = r ↔ k.Answers ds r := by
  unfold response
  by_cases hacc : k.accepts ds = true
  · obtain ⟨hsupports, hshapes⟩ := Bool.and_eq_true_iff.1 hacc
    rw [if_pos hacc]
    by_cases hconv : ds.convertsTo (k.conversions ds) = true
    · rw [verdict_of_staged hconv (hstaged hacc)]
      exact ⟨fun h => ⟨hsupports, hshapes, (Descriptors.convertsTo_iff _ _).1 hconv, h⟩,
        fun h => h.takes⟩
    · rw [verdict_of_not_converts hconv]
      exact ⟨fun h => absurd h.symm hr,
        fun h => absurd ((Descriptors.convertsTo_iff _ _).2 h.converts) hconv⟩
  · rw [if_neg hacc]
    refine ⟨fun h => absurd h.symm hr, fun h => absurd ?_ hacc⟩
    exact Bool.and_eq_true_iff.2 ⟨h.supports, h.acceptsShapes⟩

theorem response_eq_false_iff {k : SteadyKernel σ attrs constraints} {ds : Descriptors}
    (hstaged : k.accepts ds = true → k.Staged ds) : k.response ds = .ok false ↔ k.Refuses ds := by
  have htakes : k.response ds = .ok true ↔ k.Takes ds := response_eq_iff hstaged (by simp)
  have hfails : ∀ e, k.response ds = .error e ↔ k.Fails ds e := fun e =>
    response_eq_iff hstaged (by simp)
  rw [Refuses, ← htakes]
  simp only [← hfails]
  rcases k.response ds with e | _ | _
  · simp
  · simp
  · simp

/-- All candidates before the place refuse. -/
def RefusedBefore (ks : List (SteadyKernel σ attrs constraints)) (ds : Descriptors) (i : Nat) :
    Prop :=
  ∀ j < i, ∀ k : SteadyKernel σ attrs constraints, ks[j]? = some k → k.Refuses ds

/-- The candidate of least index that takes the operands. -/
structure LeastTaking (ks : List (SteadyKernel σ attrs constraints)) (ds : Descriptors) (i : Nat) :
    Prop where
  takes : ∃ k, ks[i]? = some k ∧ k.Takes ds
  least : ∀ j < i, ∀ k : SteadyKernel σ attrs constraints, ks[j]? = some k → ¬ k.Takes ds

/-- Without failures, all candidates before the least one that takes the operands refuse. -/
theorem takes_and_refusedBefore_iff {ks : List (SteadyKernel σ attrs constraints)}
    {ds : Descriptors} (hfails : ∀ k ∈ ks, ∀ e, ¬ k.Fails ds e) (i : Nat) :
    (∃ k, ks[i]? = some k ∧ k.Takes ds) ∧ RefusedBefore ks ds i ↔ LeastTaking ks ds i := by
  constructor
  · rintro ⟨htakes, hbefore⟩
    exact ⟨htakes, fun j hj k hk => (hbefore j hj k hk).1⟩
  · rintro ⟨htakes, hleast⟩
    exact ⟨htakes, fun j hj k hk => ⟨hleast j hj k hk, hfails k (List.mem_of_getElem? hk)⟩⟩

/-- The first candidate that does not refuse gives the response. -/
theorem first_and_response_iff {ks : List (SteadyKernel σ attrs constraints)} {ds : Descriptors}
    (hstaged : ∀ k ∈ ks, k.accepts ds = true → k.Staged ds) {i : Nat} {r : Except Error Bool}
    (hr : r ≠ .ok false) : (∃ k, First ds ks i k ∧ k.response ds = r) ↔
      (∃ k, ks[i]? = some k ∧ k.Answers ds r) ∧ RefusedBefore ks ds i := by
  have hanswers : ∀ k, ks[i]? = some k → (k.response ds = r ↔ k.Answers ds r) := fun k hk =>
    response_eq_iff (hstaged k (List.mem_of_getElem? hk)) hr
  have hrefuses : ∀ j (k : SteadyKernel σ attrs constraints), ks[j]? = some k →
      (k.response ds = .ok false ↔ k.Refuses ds) :=
    fun j k hk => response_eq_false_iff (hstaged k (List.mem_of_getElem? hk))
  constructor
  · rintro ⟨k, ⟨hk, -, hbefore⟩, hresponse⟩
    exact ⟨⟨k, hk, (hanswers k hk).1 hresponse⟩,
      fun j hj k' hk' => (hrefuses j k' hk').1 (hbefore j hj k' hk')⟩
  · rintro ⟨⟨k, hk, hanswer⟩, hbefore⟩
    have hresponse := (hanswers k hk).2 hanswer
    exact ⟨k, ⟨hk, by rw [hresponse]; exact hr,
      fun j hj k' hk' => (hrefuses j k' hk').2 (hbefore j hj k' hk')⟩, hresponse⟩

end SteadyKernel

namespace Dispatcher

variable {α σ : Type} {attrs : α} {constraints : Constraints}
  {ks : List (SteadyKernel σ attrs constraints)} {P : Descriptors → Prop}

/-- Along a history of a dispatcher that agrees with the walk, all replies are those of the walk. -/
theorem Ready.replies_eq [Operation α] {s : Dispatcher α σ × World σ} (h : s.1.Ready ks P)
    (hks : ∀ k ∈ ks, k.Coherent P) {calls : List (Call σ)} (hcalls : ∀ c ∈ calls, c.Within P) :
    replies s calls =
      (calls.filterMap Call.operands?).map fun memory => walkReply ks memory.descriptors := by
  induction calls generalizing s with
  | nil => rfl
  | cons c calls ih =>
    obtain ⟨hc, hrest⟩ := List.forall_mem_cons.1 hcalls
    rw [replies, ih (h.perform hks hc) hrest]
    cases c with
    | update memory =>
      show [reply s memory] ++ _ = _
      rw [h.reply_eq hks hc]
      rfl
    | execute memory =>
      show [reply s memory] ++ _ = _
      rw [h.reply_eq hks hc]
      rfl
    | elsewhere change => rfl

theorem Follows.taken_iff {ds : Descriptors} {c : Except Error (Option Nat)}
    {r : Except Error Bool × Dispatcher α σ × World σ} (h : Follows ks P ds c r) (i : Nat) :
    r.1 = .ok true ∧ r.2.1.resolved = some (ds, i) ↔ c = .ok (some i) := by
  rw [h.answer, h.resolved]
  rcases c with e | _ | j <;> simp [Except.map, Except.toOption]

theorem Follows.refused_iff {ds : Descriptors} {c : Except Error (Option Nat)}
    {r : Except Error Bool × Dispatcher α σ × World σ} (h : Follows ks P ds c r) :
    r.1 = .ok false ∧ r.2.1.resolved = none ↔ c = .ok none := by
  rw [h.answer, h.resolved]
  rcases c with e | _ | j <;> simp [Except.map, Except.toOption]

theorem Follows.failed_iff {ds : Descriptors} {c : Except Error (Option Nat)}
    {r : Except Error Bool × Dispatcher α σ × World σ} (h : Follows ks P ds c r) (e : Error) :
    r.1 = .error e ∧ r.2.1.resolved = none ↔ c = .error e := by
  rw [h.answer, h.resolved]
  rcases c with e | _ | j <;> simp [Except.map, Except.toOption]

/-- Let `P` hold of all operands in a history, and let the candidates keep the shapes of such
    operands and be able to stage them. After the history an update resolves to the candidate of
    least index that takes the operands, and refuses if there is none. With candidates that may
    fail, those before the one in force all refuse, and the update fails if the first candidate that
    does not refuse fails. All replies on the way are the same in every context, whatever the size
    of its memory for decisions. -/
theorem resolves_to_least [Operation α]
    (hkeeps : ∀ k ∈ ks, ∀ ds, P ds → k.accepts ds = true → k.KeepsShapes ds)
    (hstaged : ∀ k ∈ ks, ∀ ds, P ds → k.accepts ds = true → k.Staged ds)
    {calls : List (Call σ)} (hcalls : ∀ c ∈ calls, c.Within P) (memory : Bindings)
    (hp : P memory.descriptors) (context : Context) (w : World σ) :
    let fresh := ofCandidates (ks.map SteadyKernel.kernel) attrs constraints
    let s := after (fresh context, w) calls
    let r := s.1.update memory s.2
    let ds := memory.descriptors
    ((∀ k ∈ ks, ∀ e, ¬ k.Fails ds e) →
        (∀ i, r.1 = .ok true ∧ r.2.1.resolved = some (ds, i) ↔
          SteadyKernel.LeastTaking ks ds i) ∧
        (r.1 = .ok false ∧ r.2.1.resolved = none ↔ ∀ k ∈ ks, ¬ k.Takes ds)) ∧
      (∀ i, r.1 = .ok true ∧ r.2.1.resolved = some (ds, i) ↔
        (∃ k, ks[i]? = some k ∧ k.Takes ds) ∧ SteadyKernel.RefusedBefore ks ds i) ∧
      (r.1 = .ok false ∧ r.2.1.resolved = none ↔ ∀ k ∈ ks, k.Refuses ds) ∧
      (∀ e, r.1 = .error e ∧ r.2.1.resolved = none ↔
        ∃ i, (∃ k, ks[i]? = some k ∧ k.Fails ds e) ∧ SteadyKernel.RefusedBefore ks ds i) ∧
      ∀ context' w', replies (fresh context', w') calls = replies (fresh context, w) calls := by
  intro fresh s r ds
  have hcoherent : ∀ k ∈ ks, k.Coherent P := fun k hk =>
    SteadyKernel.coherent_of_keepsShapes_of_staged (hkeeps k hk) (hstaged k hk)
  have hready : ∀ context, (fresh context).Ready ks P := ready_ofCandidates ks P
  have hstaged' : ∀ k ∈ ks, k.accepts ds = true → k.Staged ds := fun k hk => hstaged k hk ds hp
  have hafter : s.1.Ready ks P :=
    Ready.after (s := (fresh context, w)) (hready context) hcoherent hcalls
  have hfollows : Follows ks P ds (SteadyKernel.choose ds ks 0) r :=
    hafter.update hcoherent hp s.2
  have htaken : ∀ i, r.1 = .ok true ∧ r.2.1.resolved = some (ds, i) ↔
      (∃ k, ks[i]? = some k ∧ k.Takes ds) ∧ SteadyKernel.RefusedBefore ks ds i := by
    intro i
    rw [hfollows.taken_iff i, SteadyKernel.choose_eq_ok_some_iff]
    exact SteadyKernel.first_and_response_iff hstaged' (by simp)
  have hrefused : r.1 = .ok false ∧ r.2.1.resolved = none ↔ ∀ k ∈ ks, k.Refuses ds := by
    rw [hfollows.refused_iff, SteadyKernel.choose_eq_ok_none_iff]
    exact forall₂_congr fun k hk => SteadyKernel.response_eq_false_iff (hstaged' k hk)
  refine ⟨fun hfails => ⟨fun i => ?_, ?_⟩, htaken, hrefused, fun e => ?_, fun context' w' => ?_⟩
  · rw [htaken i, SteadyKernel.takes_and_refusedBefore_iff hfails]
  · rw [hrefused]
    exact forall₂_congr fun k hk => ⟨fun h => h.1, fun h => ⟨h, hfails k hk⟩⟩
  · rw [hfollows.failed_iff e, SteadyKernel.choose_eq_error_iff]
    exact exists_congr fun i => SteadyKernel.first_and_response_iff hstaged' (by simp)
  · rw [Ready.replies_eq (s := (fresh context', w')) (hready context') hcoherent hcalls,
      Ready.replies_eq (s := (fresh context, w)) (hready context) hcoherent hcalls]

/-! ## A candidate that is built by two routes -/

/-- A kernel that would rather have the channels of images last. -/
def imagePacker : SteadyKernel Journal (⟨.zero⟩ : Scaling) ∅ :=
  Script.steady .single ⟨.zero⟩ ∅
    { name := "packer"
      preference := some
        { conditions := [.atLeast (.source 0) 2 1], wish := .relaid fun _ _ => .channelsLast } }
    rfl rfl

/-- With room for one decision, a matrix in between makes the dispatcher forget the decision for
    images and build the candidate again; it resolves to the same candidate afterwards. -/
theorem imagePacker_resolves_to_least :
    let images := Adapter.imagePair .planar 0 1
    let candidates := [imagePacker].map SteadyKernel.kernel
    let s := after (ofCandidates candidates ⟨.zero⟩ ∅ (.ofSettings { cacheSize := 1 }),
      Adapter.fourImages) [.update images, .execute (Script.matrixPair 2 3)]
    let r := s.1.update images s.2
    r.1 = .ok true ∧ r.2.1.resolved = some (images.descriptors, 0) := by
  intro images
  have hstaged : ∀ k ∈ [imagePacker], ∀ ds,
      (ds = images.descriptors ∨ ds = (Script.matrixPair 2 3).descriptors) → k.accepts ds = true →
        k.Staged ds := by
    simp only [List.mem_singleton]
    rintro k rfl ds (rfl | rfl) -
    · exact (Descriptors.stageable_iff _).1 rfl
    · exact (Descriptors.stageable_iff _).1 rfl
  have hkeeps : ∀ k ∈ [imagePacker], ∀ ds,
      (ds = images.descriptors ∨ ds = (Script.matrixPair 2 3).descriptors) → k.accepts ds = true →
        k.KeepsShapes ds := by
    simp only [List.mem_singleton]
    rintro k rfl ds - -
    exact Script.keepsShapes_of_relaid _ _ _ rfl ds
  have hcalls : ∀ c ∈ ([.update images, .execute (Script.matrixPair 2 3)] : List (Call Journal)),
      c.Within fun ds => ds = images.descriptors ∨ ds = (Script.matrixPair 2 3).descriptors := by
    simp [Call.Within]
  have htakes : imagePacker.Takes images.descriptors :=
    ⟨rfl, rfl, (Descriptors.convertsTo_iff _ _).1 rfl, rfl⟩
  have hleast := resolves_to_least hkeeps hstaged hcalls images (.inl rfl)
    (.ofSettings { cacheSize := 1 }) Adapter.fourImages
  exact (hleast.2.1 0).2 ⟨⟨imagePacker, rfl, htakes⟩, fun j hj => by omega⟩

end Dispatcher

end KernelDispatch
