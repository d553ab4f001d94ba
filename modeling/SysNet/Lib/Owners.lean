-- Who owns which block. A place names a block or nothing, which is 0. The
-- blocks from `lo` up to `hi` are given out: each has one place at most, and
-- those that have one are the used ones.
import Mathlib.Logic.Function.Basic
import Mathlib.Data.List.Basic

namespace owners

variable {ι : Type*} {ref ref' : ι → Nat} {used used' : Nat → Prop} {lo hi b : Nat} {p : ι}

structure Owned (ref : ι → Nat) (used : Nat → Prop) (lo hi : Nat) : Prop where
  range : ∀ p, ref p ≠ 0 → lo ≤ ref p ∧ ref p < hi
  once : ∀ p q, ref p ≠ 0 → ref p = ref q → p = q
  exact : ∀ b < hi, used b ↔ b < lo ∨ ∃ p, ref p = b ∧ b ≠ 0

theorem Owned.congr (h : Owned ref used lo hi) (href : ∀ p, ref' p = ref p)
    (hused : ∀ b < hi, used' b ↔ used b) : Owned ref' used' lo hi := by
  obtain rfl : ref' = ref := funext href
  exact ⟨h.range, h.once, fun b hb => (hused b hb).trans (h.exact b hb)⟩

/-- A block with a place is used. -/
theorem Owned.used_ref (h : Owned ref used lo hi) (hp : ref p ≠ 0) : used (ref p) :=
  (h.exact _ (h.range p hp).2).mpr (Or.inr ⟨p, rfl, hp⟩)

/-- A block that is not used has no place. -/
theorem Owned.free (h : Owned ref used lo hi) (hb : b < hi) (hfree : ¬ used b) :
    lo ≤ b ∧ ∀ p, ref p = b → b = 0 := by
  refine ⟨Nat.le_of_not_lt fun hlt => hfree ((h.exact b hb).mpr (Or.inl hlt)), fun p hp => ?_⟩
  by_contra hne
  exact hfree ((h.exact b hb).mpr (Or.inr ⟨p, hp, hne⟩))

variable [DecidableEq ι]

/-- A free block is given to a place that has none. -/
theorem Owned.give (h : Owned ref used lo hi) (hb : b < hi) (hfree : ¬ used b) (hp : ref p = 0)
    (hlo : 0 < lo) : Owned (Function.update ref p b) (fun c => used c ∨ c = b) lo hi := by
  obtain ⟨hge, hnone⟩ := h.free hb hfree
  have hother : ∀ q, q ≠ p → Function.update ref p b q = ref q := fun q hq =>
    Function.update_of_ne hq ..
  refine ⟨fun q hq => ?_, fun q r hq heq => ?_, fun c hc => ?_⟩
  · by_cases hqp : q = p
    · subst hqp
      rw [Function.update_self]
      exact ⟨hge, hb⟩
    · rw [hother q hqp] at hq ⊢
      exact h.range q hq
  · by_cases hqp : q = p <;> by_cases hrp : r = p
    · rw [hqp, hrp]
    · subst hqp
      rw [Function.update_self, hother r hrp] at heq
      have := hnone r heq.symm
      omega
    · subst hrp
      rw [Function.update_self, hother q hqp] at heq
      have := hnone q heq
      omega
    · rw [hother q hqp] at hq heq
      rw [hother r hrp] at heq
      exact h.once q r hq heq
  · rw [h.exact c hc]
    constructor
    · rintro ((hlt | ⟨q, hq, hne⟩) | rfl)
      · exact Or.inl hlt
      · have hqp : q ≠ p := by
          rintro rfl
          omega
        exact Or.inr ⟨q, (hother q hqp).trans hq, hne⟩
      · exact Or.inr ⟨p, Function.update_self .., by omega⟩
    · rintro (hlt | ⟨q, hq, hne⟩)
      · exact Or.inl (Or.inl hlt)
      · by_cases hqp : q = p
        · subst hqp
          rw [Function.update_self] at hq
          exact Or.inr hq.symm
        · rw [hother q hqp] at hq
          exact Or.inl (Or.inr ⟨q, hq, hne⟩)

/-- A place gives its block back. -/
theorem Owned.take (h : Owned ref used lo hi) (hp : ref p ≠ 0) :
    Owned (Function.update ref p 0) (fun c => used c ∧ c ≠ ref p) lo hi := by
  have hother : ∀ q, q ≠ p → Function.update ref p 0 q = ref q := fun q hq =>
    Function.update_of_ne hq ..
  have hin : ∀ q, Function.update ref p 0 q ≠ 0 → q ≠ p ∧ ref q ≠ 0 := by
    intro q hq
    have hqp : q ≠ p := by
      rintro rfl
      rw [Function.update_self] at hq
      exact hq rfl
    exact ⟨hqp, (hother q hqp) ▸ hq⟩
  refine ⟨fun q hq => ?_, fun q r hq heq => ?_, fun c hc => ?_⟩
  · obtain ⟨hqp, hq⟩ := hin q hq
    rw [hother q hqp]
    exact h.range q hq
  · obtain ⟨hqp, hq'⟩ := hin q hq
    rw [hother q hqp] at heq
    have hr : Function.update ref p 0 r ≠ 0 := by
      rw [← heq]
      exact hq'
    obtain ⟨hrp, -⟩ := hin r hr
    rw [hother r hrp] at heq
    exact h.once q r hq' heq
  · rw [h.exact c hc]
    constructor
    · rintro ⟨hlt | ⟨q, hq, hne⟩, hcp⟩
      · exact Or.inl hlt
      · have hqp : q ≠ p := by
          rintro rfl
          exact hcp hq.symm
        exact Or.inr ⟨q, (hother q hqp).trans hq, hne⟩
    · rintro (hlt | ⟨q, hq, hne⟩)
      · have hge := (h.range p hp).1
        exact ⟨Or.inl hlt, by omega⟩
      · have hqp := (hin q (by rw [hq]; exact hne)).1
        rw [hother q hqp] at hq
        refine ⟨Or.inr ⟨q, hq, hne⟩, fun heq => hqp ?_⟩
        exact h.once q p (by rw [hq]; exact hne) (hq.trans heq)

end owners
