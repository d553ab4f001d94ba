-- A range of addresses cut into tiles that lie one behind the other. The
-- tiles never overlap, and every address of the range is in one of them.
import Mathlib.Data.List.Basic

namespace tiles

variable {κ : Type*}

structure Tile (κ : Type*) where
  size : Nat
  kind : κ
deriving DecidableEq, Repr

/-- The size of all tiles together. -/
def span : List (Tile κ) → Nat
  | [] => 0
  | t :: ts => t.size + span ts

/-- The tiles with their addresses, the first at `a`. -/
def placed : Nat → List (Tile κ) → List (Nat × Tile κ)
  | _, [] => []
  | a, t :: ts => (a, t) :: placed (a + t.size) ts

variable {a u : Nat} {ts us : List (Tile κ)} {t : Tile κ} {x : Nat × Tile κ}

@[simp] theorem span_append : span (ts ++ us) = span ts + span us := by
  induction ts with
  | nil => simp [span]
  | cons t ts ih =>
    rw [List.cons_append, span, ih, span]
    omega

@[simp] theorem placed_append : placed a (ts ++ us) = placed a ts ++ placed (a + span ts) us := by
  induction ts generalizing a with
  | nil => simp [placed, span]
  | cons t ts ih =>
    rw [List.cons_append, placed, ih, placed, List.cons_append, span, Nat.add_assoc]

@[simp] theorem length_placed : (placed a ts).length = ts.length := by
  induction ts generalizing a with
  | nil => rfl
  | cons t ts ih => rw [placed, List.length_cons, ih, List.length_cons]

/-- A tile lies in the range. -/
theorem mem_placed (h : x ∈ placed a ts) : a ≤ x.1 ∧ x.1 + x.2.size ≤ a + span ts := by
  induction ts generalizing a with
  | nil => cases h
  | cons t ts ih =>
    unfold placed at h
    unfold span
    rcases List.mem_cons.mp h with rfl | h
    · exact ⟨Nat.le_refl _, by simp only; omega⟩
    · have hin := ih h
      omega

/-- Each tile ends before the next one starts. -/
theorem placed_pairwise : (placed a ts).Pairwise fun x y => x.1 + x.2.size ≤ y.1 := by
  induction ts generalizing a with
  | nil => exact .nil
  | cons t ts ih => exact .cons (fun y hy => (mem_placed hy).1) ih

/-- The tiles before a tile and those behind it. -/
theorem placed_split (h : x ∈ placed a ts) :
    ∃ before after, ts = before ++ x.2 :: after ∧ x.1 = a + span before := by
  induction ts generalizing a with
  | nil => cases h
  | cons t ts ih =>
    unfold placed at h
    rcases List.mem_cons.mp h with rfl | h
    · exact ⟨[], ts, rfl, rfl⟩
    · obtain ⟨before, after, rfl, heq⟩ := ih h
      exact ⟨t :: before, after, rfl, by rw [heq, span]; omega⟩

/-- Every address of the range is in a tile. -/
theorem exists_tile (h1 : a ≤ u) (h2 : u < a + span ts) :
    ∃ x ∈ placed a ts, x.1 ≤ u ∧ u < x.1 + x.2.size := by
  induction ts generalizing a with
  | nil =>
    unfold span at h2
    omega
  | cons t ts ih =>
    unfold span at h2
    unfold placed
    by_cases hu : u < a + t.size
    · exact ⟨(a, t), List.mem_cons_self, h1, hu⟩
    · obtain ⟨x, hx, hin⟩ := @ih (a + t.size) (by omega) (by omega)
      exact ⟨x, List.mem_cons_of_mem _ hx, hin⟩

/-- And in one only. -/
theorem tile_unique {y : Nat × Tile κ} (hx : x ∈ placed a ts) (hy : y ∈ placed a ts)
    (hux : x.1 ≤ u ∧ u < x.1 + x.2.size) (huy : y.1 ≤ u ∧ u < y.1 + y.2.size) : x = y := by
  induction ts generalizing a with
  | nil => cases hx
  | cons t ts ih =>
    unfold placed at hx hy
    rcases List.mem_cons.mp hx with rfl | hx <;> rcases List.mem_cons.mp hy with rfl | hy
    · rfl
    · have hin := mem_placed hy
      simp only at hux
      omega
    · have hin := mem_placed hx
      simp only at huy
      omega
    · exact ih hx hy

theorem length_le_span (hpos : ∀ t ∈ ts, 0 < t.size) : ts.length ≤ span ts := by
  induction ts with
  | nil => exact Nat.zero_le _
  | cons t ts ih =>
    have ht := hpos t List.mem_cons_self
    have hts := ih fun t ht => hpos t (List.mem_cons_of_mem _ ht)
    rw [List.length_cons, span]
    omega

end tiles
