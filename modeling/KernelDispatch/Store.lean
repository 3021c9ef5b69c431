import KernelDispatch.Contents
import KernelDispatch.Error

/-
  Memories and the store that holds their bytes.
  A memory is a descriptor and the cell of the store where its bytes are, so two operands bound to
  one memory share the cell, and the descriptor of a memory never changes. Every write keeps the
  size of a cell.
  Room is idealised: `create` makes a memory of any size below `sizeLimit`, the check that the
  program makes itself. A machine gives out less. No allocation of half of `sizeLimit` or more is
  ever granted, and one that finds no room ends the program.
-/

namespace KernelDispatch

/-- The number of a cell. -/
abbrev Cell := Nat

/-- A memory: how its bytes are to be read, and the cell that holds them. -/
structure Memory where
  desc : Descriptor
  cell : Cell
  deriving DecidableEq, Repr

/-- The bytes of all memories, by cell. -/
structure Store where
  cells : Array Bytes := #[]

/-- The bytes that a memory for `d` takes, or the first reason why there can be none. -/
def Descriptor.requiredBytes (d : Descriptor) : Except MemoryError Nat :=
  if !d.isWellFormed then .error (.rank d.layout d.rank)
  else if !d.isStatic then .error (.dynamic d)
  else match d.byteSize? with
    | some n => .ok n
    | none => .error (.tooLarge d)

/-- Checks that the logical tensor of `source` can be moved into `target`. -/
def Descriptor.checkConversion (source target : Descriptor) : Except ConversionError Unit :=
  if source.elementType ≠ target.elementType then
    .error (.elementType source.elementType target.elementType)
  else if source.shape ≠ target.shape then .error (.shape source.shape target.shape)
  else if !source.isStatic then .error (.dynamic source)
  else if !source.isWellFormed then .error (.malformed source)
  else if !target.isStatic then .error (.dynamic target)
  else if !target.isWellFormed then .error (.malformed target)
  else .ok ()

namespace Store

/-! ## Cells -/

/-- The bytes of a cell; none for a cell that was never made. -/
def bytes (s : Store) (c : Cell) : Bytes := s.cells.getD c #[]

/-- Replaces the bytes of a cell. -/
def put (s : Store) (c : Cell) (b : Bytes) : Store := ⟨s.cells.setIfInBounds c b⟩

/-- Makes a new cell. -/
def push (s : Store) (b : Bytes) : Cell × Store := (s.cells.size, ⟨s.cells.push b⟩)

theorem bytes_put (s : Store) (c c' : Cell) (b : Bytes) :
    (s.put c b).bytes c' = if c = c' ∧ c < s.cells.size then b else s.bytes c' := by
  simp only [bytes, put, Array.getD_eq_getD_getElem?, Array.getElem?_setIfInBounds]
  by_cases h : c = c'
  · subst h
    by_cases hlt : c < s.cells.size <;> simp [hlt]
  · simp [h]

theorem bytes_push (s : Store) (b : Bytes) (c : Cell) :
    (s.push b).2.bytes c = if c = s.cells.size then b else s.bytes c := by
  simp only [bytes, push, Array.getD_eq_getD_getElem?, Array.getElem?_push]
  split <;> simp_all

/-! ## Memories -/

/-- A new memory for `d`, filled with zeros. -/
def create (s : Store) (d : Descriptor) : Except MemoryError (Memory × Store) := do
  let size ← d.requiredBytes
  let (cell, s) := s.push (Bytes.zeros size)
  return (⟨d, cell⟩, s)

/-- A new memory for `d` in a given buffer, which is emptied first. -/
def adopt (s : Store) (d : Descriptor) (buffer : Bytes) : Except MemoryError (Memory × Store) := do
  let size ← d.requiredBytes
  let (cell, s) := s.push (Bytes.resized (buffer.take 0) size)
  return (⟨d, cell⟩, s)

def contents (s : Store) (m : Memory) : Bytes := s.bytes m.cell

/-- The size of a memory in bytes. -/
def byteLength (s : Store) (m : Memory) : Nat := (s.contents m).size

/-- Overwrites bytes of a memory from a position on. -/
def overwrite (s : Store) (m : Memory) (start : Nat) (bytes : List UInt8) : Store :=
  s.put m.cell ((s.contents m).overwrite start bytes)

/-- The elements in physical order, padding included. -/
def readPhysical (s : Store) (m : Memory) : Except MemoryError (Array Single) :=
  if m.desc.elementType = .f32 then .ok (s.contents m).singles
  else .error (.elementType m.desc.elementType)

/-- Overwrites all elements in physical order. -/
def writePhysical (s : Store) (m : Memory) (xs : Array Single) : Except MemoryError Store :=
  if m.desc.elementType ≠ .f32 then .error (.elementType m.desc.elementType)
  else if s.byteLength m ≠ 4 * xs.size then
    .error (.physicalCount m.desc (s.byteLength m) xs.size)
  else .ok (s.put m.cell (Bytes.ofSingles xs))

/-- The logical elements in row-major order, whatever the layout. -/
def read (s : Store) (m : Memory) : Except MemoryError (List Single) :=
  match m.desc.shape.sizes? with
  | none => .error (.notStatic m.desc)
  | some sizes =>
    if m.desc.elementType = .f32 then .ok ((s.contents m).elements m.desc.layout sizes)
    else .error (.elementType m.desc.elementType)

/-- Overwrites the logical elements in row-major order and clears the padding. A shape whose
    element count is out of range has an empty axis and takes no elements. -/
def write (s : Store) (m : Memory) (xs : List Single) : Except MemoryError Store :=
  if m.desc.elementType ≠ .f32 then .error (.elementType m.desc.elementType)
  else match m.desc.shape.sizes? with
    | none => .error (.notStatic m.desc)
    | some sizes =>
      let expected := m.desc.shape.elementCount?.getD 0
      if xs.length ≠ expected then .error (.logicalCount m.desc expected xs.length)
      else .ok (s.put m.cell ((s.contents m).withElements m.desc.layout sizes xs))

/-- A new `f32` memory with the given logical elements. -/
def createWith (s : Store) (d : Descriptor) (xs : List Single) :
    Except MemoryError (Memory × Store) := do
  let (m, s) ← s.create d
  let s ← s.write m xs
  return (m, s)

/-- Moves the logical tensor of `source` into `target`. A memory is already in place for
    itself. -/
def convert (s : Store) (source target : Memory) : Except ConversionError Store := do
  source.desc.checkConversion target.desc
  if source.cell = target.cell then return s
  let moved := (s.contents source).rearranged source.desc.elementType.width
    (source.desc.shape.sizes?.getD []) source.desc.layout (s.contents target) target.desc.layout
  return s.put target.cell moved

end Store

end KernelDispatch
