/-!
**Tables of code points.**

A property of characters is kept as the lengths of the stretches of code points that lack it and
have it, in turn. The two cases alternate in many alphabets, so a table of letters of one case also
has stretches of which every second code point counts. How the cases map to each other is kept as a
table of runs, each of every first or every second code point.
-/

namespace Sbe.Text

/-- Whether a code point has the property whose stretches, without it and with it in turn, have
these lengths. -/
def inStretches : List Nat → Nat → Bool
  | [], _ => false
  | length :: rest, code => if code < length then false else !inStretches rest (code - length)

/-- Whether a code point stands at an even place of a stretch with the property. -/
def inAlternating : List Nat → Nat → Bool
  | skipped :: length :: rest, code =>
    if code < skipped then false
    else if code < skipped + length then (code - skipped) % 2 == 0
    else inAlternating rest (code - (skipped + length))
  | _, _ => false

/-- The letters of one case: stretches of them, and stretches where every second one is. -/
structure CaseTable where
  stretches : List Nat
  alternating : List Nat

/-- Whether a table has a code point. -/
def CaseTable.has (table : CaseTable) (code : Nat) : Bool :=
  inStretches table.stretches code || inAlternating table.alternating code

/-- The code points `first`, `first + step`, …, `last`, each standing for the one at the same
distance from `image`. -/
structure Run where
  first : Nat
  last : Nat
  step : Nat
  image : Nat

/-- The run back from the images. -/
def Run.swap (run : Run) : Run :=
  ⟨run.image, run.image + (run.last - run.first), run.step, run.first⟩

/-- A table of runs from a code point on. Each is given by the code points skipped before it, the
number of its own and the step between them, and the distance of their images. -/
def runsFrom (start : Nat) : List (Nat × Nat × Nat × Int) → List Run
  | [] => []
  | (skipped, count, step, distance) :: rest =>
    let first := start + skipped
    let last := first + (count - 1) * step
    ⟨first, last, step, (first + distance).toNat⟩ :: runsFrom (last + 1) rest

/-- The image of a code point under a table of runs, if one of them holds it. -/
def imageIn : List Run → Nat → Option Nat
  | [], _ => none
  | run :: rest, code =>
    if run.first ≤ code ∧ code ≤ run.last ∧ (code - run.first) % run.step = 0 then
      some (run.image + (code - run.first))
    else imageIn rest code

end Sbe.Text
