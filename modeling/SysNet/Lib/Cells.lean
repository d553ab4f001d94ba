-- A sum over the cells of a list, where each cell counts with its place. A
-- change of one cell changes one summand.
import Mathlib.Algebra.BigOperators.Group.List.Basic
import Mathlib.Algebra.Order.Group.Multiset
import Mathlib.Data.List.Induction
import Mathlib.Tactic.Abel

namespace cells

variable {α M : Type*} [AddCommMonoid M]

/-- The sum over the cells of the list. -/
def total (g : Nat → α → M) (l : List α) : M := (l.mapIdx g).sum

theorem sum_set {l : List M} {c : Nat} {a : M} (h : l[c]? = some a) (a' : M) :
    (l.set c a').sum + a = l.sum + a' := by
  induction l generalizing c with
  | nil => simp at h
  | cons x xs ih =>
    cases c with
    | zero =>
      simp only [List.getElem?_cons_zero, Option.some.injEq] at h
      subst h
      simp only [List.set_cons_zero, List.sum_cons]
      abel
    | succ c =>
      simp only [List.set_cons_succ, List.sum_cons, add_assoc]
      rw [ih (by simpa using h)]

theorem total_set {g : Nat → α → M} {l : List α} {c : Nat} {a : α} (h : l[c]? = some a) (a' : α) :
    total g (l.set c a') + g c a = total g l + g c a' := by
  unfold total
  rw [List.mapIdx_set]
  exact sum_set (by simp [List.getElem?_mapIdx, h]) _

theorem total_modify {g : Nat → α → M} {l : List α} {c : Nat} {a : α} (h : l[c]? = some a)
    (f : α → α) : total g (l.modify c f) + g c a = total g l + g c (f a) := by
  have hset : l.modify c f = l.set c (f a) := by
    apply List.ext_getElem?
    intro i
    rw [List.getElem?_modify, List.getElem?_set]
    by_cases hi : c = i
    · subst hi
      obtain ⟨hc, rfl⟩ := List.getElem?_eq_some_iff.mp h
      simp [hc]
    · simp [hi]
  rw [hset]
  exact total_set h _

@[simp] theorem total_snoc (g : Nat → α → M) (l : List α) (a : α) :
    total g (l ++ [a]) = total g l + g l.length a := by
  simp [total, List.mapIdx_append]

theorem total_add (g g' : Nat → α → M) (l : List α) :
    total (fun c a => g c a + g' c a) l = total g l + total g' l := by
  induction l using List.reverseRecOn with
  | nil => simp [total]
  | append_singleton l a ih =>
    simp only [total_snoc, ih]
    abel

theorem total_zero (l : List α) : total (fun _ _ => (0 : M)) l = 0 := by
  induction l using List.reverseRecOn with
  | nil => rfl
  | append_singleton l a ih => simp [ih]

/-- Only one cell counts. -/
theorem total_single (g : α → M) (c : Nat) (l : List α) :
    total (fun i a => if c = i then g a else 0) l = (l[c]?.map g).getD 0 := by
  induction l using List.reverseRecOn with
  | nil => simp [total]
  | append_singleton l a ih =>
    rw [total_snoc, ih]
    rcases Nat.lt_trichotomy c l.length with h | h | h
    · rw [List.getElem?_append_left h]
      simp [Nat.ne_of_lt h]
    · subst h
      simp
    · have hne : c ≠ l.length := by omega
      rw [List.getElem?_eq_none (by omega), List.getElem?_eq_none (by simp; omega)]
      simp [hne]

/-- Cells that count the same give the same sum. -/
theorem total_congr {β : Type*} {g : Nat → α → M} {g' : Nat → β → M} {l : List α} {l' : List β}
    (h : ∀ c, l[c]?.map (g c) = l'[c]?.map (g' c)) : total g l = total g' l' := by
  unfold total
  congr 1
  apply List.ext_getElem?
  intro c
  simpa [List.getElem?_mapIdx] using h c

theorem mem_total {β : Type*} {g : Nat → α → Multiset β} {l : List α} {x : β} :
    x ∈ total g l ↔ ∃ c a, l[c]? = some a ∧ x ∈ g c a := by
  have hsum : ∀ ss : List (Multiset β), x ∈ ss.sum ↔ ∃ s ∈ ss, x ∈ s := by
    intro ss
    induction ss with
    | nil => simp
    | cons s ss ih => simp [ih]
  unfold total
  rw [hsum]
  constructor
  · rintro ⟨s, hs, hx⟩
    obtain ⟨c, hc, rfl⟩ := List.mem_mapIdx.mp hs
    exact ⟨c, l[c], List.getElem?_eq_getElem hc, hx⟩
  · rintro ⟨c, a, ha, hx⟩
    obtain ⟨hc, rfl⟩ := List.getElem?_eq_some_iff.mp ha
    exact ⟨_, List.mem_mapIdx.mpr ⟨c, hc, rfl⟩, hx⟩

end cells
