-- How many holders point to an object. Each holder of a finite set points to
-- one object or to none.
import Mathlib.Algebra.BigOperators.Group.Finset.Basic
import Mathlib.Algebra.BigOperators.Group.Finset.Piecewise

namespace holders

variable {ι : Type} {S : Finset ι} {points : ι → Option Nat} {i : ι} {x : Nat}

/-- The holders that point to the object. -/
def holding (S : Finset ι) (points : ι → Option Nat) (x : Nat) : Nat :=
  ∑ i ∈ S, if points i = some x then 1 else 0

theorem holding_eq_zero (h : ∀ i ∈ S, points i ≠ some x) : holding S points x = 0 :=
  Finset.sum_eq_zero fun i hi => if_neg (h i hi)

variable [DecidableEq ι]

/-- One holder points to something else. -/
theorem holding_update (hi : i ∈ S) (v : Option Nat) (x : Nat) :
    holding S (Function.update points i v) x + (if points i = some x then 1 else 0) =
      holding S points x + if v = some x then 1 else 0 := by
  unfold holding
  rw [← Finset.add_sum_erase S _ hi, ← Finset.add_sum_erase S (fun j => if points j = some x then 1 else 0) hi,
    Function.update_self]
  have hrest : ∑ j ∈ S.erase i, (if Function.update points i v j = some x then 1 else 0) =
      ∑ j ∈ S.erase i, if points j = some x then 1 else 0 := by
    refine Finset.sum_congr rfl fun j hj => ?_
    rw [Function.update_of_ne (Finset.ne_of_mem_erase hj)]
  rw [hrest]
  omega

/-- An object that somebody points to is held. -/
theorem holding_pos (hi : i ∈ S) (h : points i = some x) : 0 < holding S points x := by
  unfold holding
  rw [← Finset.add_sum_erase S _ hi, if_pos h]
  omega

end holders
