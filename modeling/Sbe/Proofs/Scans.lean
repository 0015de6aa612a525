import Sbe.Layout
import Sbe.Proofs.Outcome

/-!
**Opening the elements of a run.**

Fields, groups and fields of variable length are opened in one way. An element starts with the
signal of its run and ends with the closing token of its span; it is laid out, and the scan goes on
behind it. What an element is laid out as is all that differs, so what does not depend on it is
shown for all three at once.

* `scan_induct`: induction along a scan;
* `Scans`: the scans that open elements, by the equations they satisfy;
* `scans_splitFields`, `scans_splitGroups`, `scans_splitVarData`: the three scans of a body.
-/

namespace Sbe.Layout

/-- Induction for scans, which go on with some of the tokens after the first. -/
theorem scan_induct {holds : Nat → List Token → Prop} (nil : ∀ index, holds index [])
    (cons : ∀ index token rest,
      (∀ next later, later.length ≤ rest.length → holds next later) → holds index (token :: rest))
    (index : Nat) (tokens : List Token) : holds index tokens := by
  induction size : tokens.length using Nat.strongRecOn generalizing index tokens with
  | ind total ih =>
    cases tokens with
    | nil => exact nil index
    | cons token rest =>
      refine cons index token rest fun next later short => ih later.length ?_ next later rfl
      rw [← size, List.length_cons]
      omega

/-- A scan opens the elements of a run. `lay` lays out an element from the index and the token it
opens with, the tokens inside its span and all tokens after the first. -/
structure Scans {α : Type} (opening : Signal)
    (lay : Nat → Token → List Token → List Token → Result α)
    (scan : Nat → List Token → Result (List α)) : Prop where
  nil (index : Nat) : scan index [] = .ok []
  cons (index : Nat) (token : Token) (rest : List Token) : scan index (token :: rest) =
    if token.signal ≠ opening then .refuse (misplaced opening token)
    else (do
      let parts ← closedSpan index token rest
      let first ← lay index token parts.1 rest
      let others ← scan (index + parts.1.length + 2) parts.2
      pure (first :: others))

/-- The field that a token opens. -/
def fieldLayout (_ : Nat) (token : Token) (inner _ : List Token) : Result FieldLayout :=
  .ok ⟨token, inner⟩

/-- The field of variable length that a token opens. -/
def varDataLayout (_ : Nat) (token : Token) (inner rest : List Token) : Result VarDataLayout := do
  let length ← encodingAt (token :: rest) 2 (inner.length + 1)
  let data ← encodingAt (token :: rest) 3 (inner.length + 1)
  pure ⟨token, length, data⟩

theorem scans_splitFields : Scans .beginField fieldLayout splitFields :=
  ⟨fun _ => by rw [splitFields], splitFields_eq⟩

theorem scans_splitGroups : Scans .beginGroup groupLayout splitGroups :=
  ⟨fun _ => by rw [splitGroups], splitGroups_eq⟩

theorem scans_splitVarData : Scans .beginVarData varDataLayout splitVarData := by
  refine ⟨fun _ => by rw [splitVarData], fun index token rest => ?_⟩
  rw [splitVarData_eq]
  simp only [varDataLayout, bind_assoc, pure_bind]

/-- A scan at an element whose span is known. -/
theorem Scans.of_span {α : Type} {opening : Signal}
    {lay : Nat → Token → List Token → List Token → Result α}
    {scan : Nat → List Token → Result (List α)} (scans : Scans opening lay scan) {index : Nat}
    {token : Token} {rest inner after : List Token} (opens : token.signal = opening)
    (split : closedSpan index token rest = .ok (inner, after)) :
    scan index (token :: rest) = (do
      let first ← lay index token inner rest
      let others ← scan (index + inner.length + 2) after
      pure (first :: others)) := by
  rw [scans.cons, if_neg (not_not_intro opens), split, Outcome.ok_bind]

end Sbe.Layout
