import KernelDispatch.Proofs.Dispatch.Steady
import KernelDispatch.Scripted

/-
  Scripted kernels as steady kernels. A script that prescribes no replies to the requests to build
  and to update answers from the descriptors of the operands alone; the journal that it keeps has no
  part in its answers.
-/

namespace KernelDispatch

theorem Descriptors.keepsShapes_of_relaid {ds target : Descriptors}
    (layoutFor : Operand → Descriptor → Layout) (h : ds.relaid? layoutFor = some target) :
    target.KeepsShapes ds := by
  intro p t d ht hd
  unfold relaid? at h
  split at h
  · cases h
  · cases h
    rw [OrderedMap.get?_map, hd] at ht
    cases ht
    rfl

namespace Script

variable (arith : Arithmetic) (op : Scaling) (constraints : Constraints)

/-- The answer to an update as the script gives it when no reply is prescribed. -/
def fits (script : Script) (ds : Descriptors) : Except Error Bool :=
  match ds.get? (.source 0) with
  | none => .error (.memory (.unbound (.source 0)))
  | some d =>
    .ok (script.maxElements.all fun limit => d.elementCount?.any fun n => decide (n ≤ limit))

theorem update_fst_eq_fits {script : Script} (h : script.updates = []) (memory : Bindings)
    (s : Session Journal) : (script.update memory s).1 = script.fits memory.descriptors := by
  unfold update fits sizeFits Bindings.require
  simp only [reply, h, List.getElem?_nil, Option.getD_none, Bindings.get?_descriptors]
  cases memory.get? (.source 0) with
  | none => rfl
  | some m => cases script.maxElements <;> rfl

/-- The steady kernel that follows a script without prescribed replies. -/
def steady (script : Script) (hbuilds : script.builds = []) (hupdates : script.updates = []) :
    SteadyKernel Journal op constraints where
  kernel := script.kernel arith
  supports ds := script.supports.all (·.all (·.holds ds constraints))
  acceptsShapes ds := script.accepts.all (·.all (·.holds false ds))
  preferred ds := script.preference.bind fun p =>
    if p.conditions.all (·.holds false ds) then p.wish.answer ds else none
  takes := script.fits
  supports_eq ds s := by
    simp only [kernel, answer]
    cases script.supports <;> rfl
  acceptsShapes_eq b s := by
    simp only [kernel, answer]
    cases script.accepts <;> rfl
  preferred_eq ds s := by
    simp only [kernel, answer]
    cases script.preference <;> rfl
  builds b s := by
    simp only [kernel, build, reply, hbuilds, List.getElem?_nil, Option.getD_none]
    exact ⟨_, rfl, fun b s => update_fst_eq_fits hupdates b s⟩

/-- A wish for other layouts leaves all shapes as they are. -/
theorem keepsShapes_of_relaid {script : Script} {hbuilds : script.builds = []}
    {hupdates : script.updates = []} {conditions : List ExtentTest}
    {layoutFor : Operand → Descriptor → Layout}
    (h : script.preference = some { conditions, wish := .relaid layoutFor }) (ds : Descriptors) :
    (steady arith op constraints script hbuilds hupdates).KeepsShapes ds := by
  intro target htarget
  simp only [steady, h, Option.bind_some, Wish.answer] at htarget
  split at htarget
  · exact Descriptors.keepsShapes_of_relaid layoutFor htarget
  · cases htarget

/-- Planar matrices as source and destination of a scripted kernel, in the given cells. -/
def matrixPair (c c' : Cell) : Bindings :=
  .ofList [(.source 0, ⟨⟨.f32, .ofSizes [2, 2], .planar⟩, c⟩),
    (.destination 0, ⟨⟨.f32, .ofSizes [2, 2], .planar⟩, c'⟩)]

end Script

end KernelDispatch
