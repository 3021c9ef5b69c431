import KernelDispatch.OrderedMap

/-
  The operands of an operation, by their roles and in order: sources by number, weights, bias,
  then destinations by number.
-/

namespace KernelDispatch

/-- Numerals for the numbers of operands rest on this one fact. -/
instance instNeZeroOperandNumbers : @NeZero Nat (@Zero.ofOfNat0 Nat (instOfNatNat 0)) 256 :=
  Nat.instNeZeroSucc

inductive Operand where
  | source (n : Fin 256)
  | weights
  | bias
  | destination (n : Fin 256)
  deriving DecidableEq, Repr

namespace Operand

def isOutput : Operand → Bool
  | destination _ => true
  | _ => false

def isInput (p : Operand) : Bool := !p.isOutput

def text : Operand → String
  | source n => "src" ++ toString n.val
  | weights => "wei"
  | bias => "bias"
  | destination n => "dst" ++ toString n.val

/-- The place of an operand in the order of operands. -/
def place : Operand → Nat
  | source n => n.val
  | weights => 256
  | bias => 257
  | destination n => 258 + n.val

theorem place_injective {p q : Operand} (h : p.place = q.place) : p = q := by
  cases p <;> cases q <;>
    simp only [place, source.injEq, destination.injEq, Fin.ext_iff, reduceCtorEq] at h ⊢ <;> omega

instance : KeyOrder Operand where
  lt p q := p.place < q.place
  decidableEq := inferInstance
  decidableLt p q := inferInstanceAs (Decidable (p.place < q.place))
  lt_irrefl p := Nat.lt_irrefl p.place
  lt_trans h h' := Nat.lt_trans h h'
  connected p q := by
    rcases Nat.lt_trichotomy p.place q.place with h | h | h
    · exact .inl h
    · exact .inr (.inl (place_injective h))
    · exact .inr (.inr h)

end Operand

/-- Values by operand, in the order of operands. -/
abbrev OperandMap (α : Type) := OrderedMap Operand α

end KernelDispatch
