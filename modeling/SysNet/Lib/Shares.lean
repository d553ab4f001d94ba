-- Things that are shared out: some are free, and every place has a list of
-- them. A step at one place moves things between that place and the free ones.
import Mathlib.Data.List.Nodup
import Mathlib.Data.List.Perm.Basic

namespace shares

variable {A ι : Type*} {free free' : List A} {own own' : ι → List A} {places : List ι} {i j : ι} {a : A}

/-- The free things, and those of the places. -/
def total (free : List A) (own : ι → List A) (places : List ι) : List A := free ++ places.flatMap own

theorem mem_total_of_own (hi : i ∈ places) (ha : a ∈ own i) : a ∈ total free own places :=
  List.mem_append_right free (List.mem_flatMap.mpr ⟨i, hi, ha⟩)

theorem total_congr (h : ∀ i ∈ places, own' i = own i) : total free own' places = total free own places :=
  congrArg (free ++ ·) (List.flatMap_congr h)

section

variable [DecidableEq ι]

theorem total_split (hi : i ∈ places) :
    (total free own places).Perm (free ++ own i ++ (places.erase i).flatMap own) := by
  unfold total
  rw [List.append_assoc, ← List.flatMap_cons]
  exact ((List.perm_cons_erase hi).flatMap_right own).append_left free

/-- A step at one place keeps all that there is. -/
theorem total_move (hnodup : places.Nodup) (hi : i ∈ places)
    (hother : ∀ j ∈ places, j ≠ i → own' j = own j) (h : (free' ++ own' i).Perm (free ++ own i)) :
    (total free' own' places).Perm (total free own places) := by
  have hrest : (places.erase i).flatMap own' = (places.erase i).flatMap own := by
    apply List.flatMap_congr
    intro j hj
    obtain ⟨hne, hj⟩ := hnodup.mem_erase_iff.mp hj
    exact hother j hj hne
  apply (total_split hi).trans
  rw [hrest]
  exact (h.append_right _).trans (total_split hi).symm

/-- Two places have nothing in common. -/
theorem disjoint_of_total (h : (total free own places).Nodup) (hi : i ∈ places) (hj : j ∈ places)
    (hne : j ≠ i) (ha : a ∈ free ++ own i) : a ∉ own j := by
  intro haj
  have hsplit := (List.nodup_append.mp ((total_split hi).nodup_iff.mp h)).2.2
  exact hsplit a ha a (List.mem_flatMap.mpr ⟨j, List.mem_erase_of_ne hne |>.mpr hj, haj⟩) rfl

end

/-! ## Tables of options -/

variable [DecidableEq ι] {f f' : ι → Option A}

/-- A cell of a table is emptied. -/
theorem filterMap_take (hnodup : places.Nodup) (hi : i ∈ places) (hf : f i = some a) (hf' : f' i = none)
    (hother : ∀ j, j ≠ i → f' j = f j) : (places.filterMap f).Perm (a :: places.filterMap f') := by
  have hrest : (places.erase i).filterMap f' = (places.erase i).filterMap f := by
    apply List.filterMap_congr
    intro j hj
    exact hother j (hnodup.mem_erase_iff.mp hj).1
  have hbefore := (List.perm_cons_erase hi).filterMap f
  have hafter := (List.perm_cons_erase hi).filterMap f'
  rw [List.filterMap_cons_some hf] at hbefore
  rw [List.filterMap_cons_none hf', hrest] at hafter
  exact hbefore.trans (hafter.symm.cons a)

/-- What is in one cell is in no other one. -/
theorem filterMap_apart (h : (places.filterMap f).Nodup) (hi : i ∈ places) (hj : j ∈ places) (hf : f i = some a)
    (hf' : f j = some a) : j = i := by
  by_contra hne
  have hperm := (List.perm_cons_erase hi).filterMap f
  rw [List.filterMap_cons_some hf] at hperm
  have hnot := (List.nodup_cons.mp (hperm.nodup_iff.mp h)).1
  exact hnot (List.mem_filterMap.mpr ⟨j, (List.mem_erase_of_ne hne).mpr hj, hf'⟩)

end shares
