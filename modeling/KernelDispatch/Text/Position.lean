import KernelDispatch.Text.Affix
import KernelDispatch.Text.Blank

/-
  Positions of faults at the end of a reason: ` at line `, digits, ` column ` and digits. A reason
  is reported without its position, and one that happens to end like a position loses that part.
-/

namespace KernelDispatch

namespace Text

/-- Decimal digits of a number in the range of sizes. -/
def isSize (ds : List Char) : Bool := ds.all Char.isDigit && (count? (String.ofList ds)).isSome

/-- Whether what follows the words for a line is its number, and the number of a column. -/
def isPosition (cs : List Char) : Bool :=
  isSize (cs.takeWhile Char.isDigit) &&
    (after? " column ".toList (cs.dropWhile Char.isDigit)).any isSize

/-- A reason without the position at its end, if there is one. -/
def withoutPosition (s : String) : String :=
  match splitLast? " at line ".toList s.toList with
  | some (before, rest) => if isPosition rest then String.ofList before else s
  | none => s

end Text

end KernelDispatch
