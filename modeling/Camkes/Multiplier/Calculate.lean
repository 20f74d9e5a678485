import Camkes.Data.CArray
import Camkes.Data.CountLoop
import Mathlib.Algebra.BigOperators.Group.List.Basic
import Mathlib.Algebra.Ring.Int.Defs

/-!
# The `calculate` procedure of the multiplier

It multiplies the elements of one array, copies another one and multiplies its elements in place.
The lengths are `size_t`, but the loops count in an `int`.

A product that is no `int`, a counter that overflows, an access outside an array and the failing
assertion make it fail (`none`).
-/

namespace Camkes.Multiplier

/-- `INT_MAX`. -/
def intMax : ℕ := 2147483647

/-- The value is one of an `int`. -/
def Fits (x : ℤ) : Prop := -(intMax : ℤ) - 1 ≤ x ∧ x ≤ intMax

instance (x : ℤ) : Decidable (Fits x) := inferInstanceAs (Decidable (_ ∧ _))

/-- `x * y`, of two `int`s. -/
def mulInt (x y : ℤ) : Option ℤ := if Fits (x * y) then some (x * y) else none

variable {m n : ℕ}

/-- The body of the first loop: `total *= operands[i]`. -/
def multiply (operands : Vector ℤ m) (total : ℤ) (i : ℕ) : Option ℤ := do
  let x ← operands[i]?
  mulInt total x

/-- The body of the second loop: `(*other)[i] = (*inplace)[i]`. -/
def stash (inplace other : Vector ℤ n) (i : ℕ) : Option (Vector ℤ n) := do
  let x ← inplace[i]?
  CArray.store other i x

/-- The body of the third loop: `(*inplace)[0] *= (*inplace)[i]`. -/
def multiplyInplace (inplace : Vector ℤ n) (i : ℕ) : Option (Vector ℤ n) := do
  let first ← inplace[0]?
  let x ← inplace[i]?
  let first ← mulInt first x
  CArray.store inplace 0 first

/-- What `a_calculate` returns, and the arrays and lengths that it leaves.  The memory of an array
may have more elements than its length says. -/
structure Result (n : ℕ) where
  total : ℤ
  otherSz : ℕ
  other : Vector ℤ n
  inplaceSz : ℕ
  inplace : Vector ℤ n
  deriving DecidableEq

/-- `a_calculate`, where `malloc` is what `malloc(sizeof(int) * *inplace_sz)` returns: memory for as
many elements, or `NULL`. -/
def aCalculate (malloc : Option (Vector ℤ n)) (operands : Vector ℤ m) (inplace : Vector ℤ n) :
    Option (Result n) := do
  let (total, _) ← countLoop intMax m (multiply operands) 0 1
  -- `assert(*other != NULL)`
  let other ← malloc
  let (other, otherSz) ← countLoop intMax n (stash inplace) 0 other
  let (inplace, _) ← countLoop intMax n multiplyInplace 1 inplace
  some { total := total, otherSz := otherSz, other := other, inplaceSz := 1, inplace := inplace }

/-- The partial products of the elements are `int`s. -/
def PartialProductsFit (l : List ℤ) : Prop := ∀ i ≤ l.length, Fits (l.take i).prod

instance (l : List ℤ) : Decidable (PartialProductsFit l) :=
  inferInstanceAs (Decidable (∀ i ≤ _, _))

/-- What the procedure is to do. -/
structure Result.Correct (operands : Vector ℤ m) (inplace : Vector ℤ n) (r : Result n) : Prop where
  total : r.total = operands.toList.prod
  other : r.otherSz = n ∧ r.other = inplace
  inplaceSz : r.inplaceSz = 1
  inplace : r.inplace[0]? = some inplace.toList.prod

end Camkes.Multiplier
