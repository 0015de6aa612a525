/-!
**Outcomes.**

Every computation of the library ends in one of three ways.

* With a value.
* With a refusal: the input breaks a rule of the domain, and the cause says which one.
* With a fault: an index left its list or buffer, or a size needed more than 64 bits. A fault
  carries no cause, because no rule of the domain was tested.

Sizes, indices and limits are 64-bit words. They are kept as natural numbers, and the sums and
products that can leave the word range go through `addSize` and `mulSize`.
-/

namespace Sbe

/-- Why a computation ended without a value. -/
inductive Halt (ε : Type) where
  | refused (cause : ε)
  | fault
deriving DecidableEq

/-- A value, a refusal with its cause, or a fault. -/
abbrev Outcome (ε α : Type) := Except (Halt ε) α

namespace Outcome

variable {ε α : Type}

/-- Ends with a refusal. -/
def refuse (cause : ε) : Outcome ε α := .error (.refused cause)

/-- Ends with a fault. -/
def fault : Outcome ε α := .error .fault

/-- The value of an option, and the given refusal when there is none. -/
def ofOption (cause : ε) : Option α → Outcome ε α
  | some value => .ok value
  | none => refuse cause

/-- The value of an option, and a fault when there is none. -/
def expect : Option α → Outcome ε α
  | some value => .ok value
  | none => fault

end Outcome

/-- The number of values of a 64-bit word. -/
def wordBound : Nat := 18446744073709551616

variable {ε : Type}

/-- The sum of two sizes, a fault when it leaves the word range. -/
def addSize (left right : Nat) : Outcome ε Nat :=
  if left + right < wordBound then .ok (left + right) else Outcome.fault

/-- The product of two sizes, a fault when it leaves the word range. -/
def mulSize (left right : Nat) : Outcome ε Nat :=
  if left * right < wordBound then .ok (left * right) else Outcome.fault

/-- The difference of two sizes, a fault when it would be negative. -/
def subSize (left right : Nat) : Outcome ε Nat :=
  if right ≤ left then .ok (left - right) else Outcome.fault

end Sbe
