-- A counter that moves up by one whenever it meets a larger number. It reaches
-- a level exactly when the list has numbers, in order, that lift it there one
-- by one.
import Mathlib.Data.List.Basic

namespace counter

/-- The counter after the numbers of the list. -/
def climb (t : Int) (xs : List Int) : Int := xs.foldl (fun t x => if t < x then t + 1 else t) t

/-- Each number lifts the counter: the first is above `t`, the next above
`t + 1`, and so on. -/
def Climbs : Int → List Int → Prop
  | _, [] => True
  | t, x :: xs => t < x ∧ Climbs (t + 1) xs

instance decidableClimbs : (t : Int) → (xs : List Int) → Decidable (Climbs t xs)
  | _, [] => isTrue trivial
  | t, _ :: xs => @instDecidableAnd _ _ _ (decidableClimbs (t + 1) xs)

@[simp] theorem climb_nil (t : Int) : climb t [] = t := rfl

@[simp] theorem climb_cons (t x : Int) (xs : List Int) :
    climb t (x :: xs) = climb (if t < x then t + 1 else t) xs := rfl

/-- The counter takes some of the numbers, one level for each. -/
theorem climb_takes (t : Int) (xs : List Int) :
    ∃ ys, ys.Sublist xs ∧ Climbs t ys ∧ climb t xs = t + ys.length := by
  induction xs generalizing t with
  | nil => exact ⟨[], .slnil, trivial, by simp⟩
  | cons x xs ih =>
    by_cases h : t < x
    · obtain ⟨ys, hsub, hup, heq⟩ := ih (t + 1)
      refine ⟨x :: ys, hsub.cons_cons x, ⟨h, hup⟩, ?_⟩
      simp only [climb_cons, h, if_true, heq, List.length_cons]
      omega
    · obtain ⟨ys, hsub, hup, heq⟩ := ih t
      exact ⟨ys, hsub.cons x, hup, by simpa [h] using heq⟩

/-- No choice of numbers leads higher than the counter. -/
theorem le_climb {xs ys : List Int} (h : ys.Sublist xs) :
    ∀ n t : Int, n ≤ t → Climbs n ys → n + ys.length ≤ climb t xs := by
  induction h with
  | slnil => intro n t hle _; simpa using hle
  | @cons ys xs x _ ih =>
    intro n t hle hup
    rw [climb_cons]
    exact ih n _ (by split <;> omega) hup
  | @cons_cons ys xs x _ ih =>
    intro n t hle hup
    have := ih (n + 1) (if t < x then t + 1 else t) (by have := hup.1; split <;> omega) hup.2
    rw [climb_cons, List.length_cons]
    omega

/-- The counter comes up to every bound that a choice of numbers comes up to. -/
theorem le_climb_iff (b t : Int) (xs : List Int) :
    b ≤ climb t xs ↔ ∃ ys, ys.Sublist xs ∧ Climbs t ys ∧ b ≤ t + ys.length := by
  constructor
  · intro h
    obtain ⟨ys, hsub, hup, heq⟩ := climb_takes t xs
    exact ⟨ys, hsub, hup, by omega⟩
  · rintro ⟨ys, hsub, hup, hle⟩
    exact Int.le_trans hle (le_climb hsub t t (Int.le_refl t) hup)

end counter
