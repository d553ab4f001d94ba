-- A text in a field of so many cells: it fills the field, or it ends at a
-- zero before.
import Mathlib.Algebra.Ring.Nat
import Mathlib.Data.List.TakeWhile
import Mathlib.Logic.Function.Basic

namespace fields

variable {α : Type*} [DecidableEq α] [Zero α] {f g : Nat → α} {n i : Nat}

/-- The text in the field. -/
def textIn (f : Nat → α) (n : Nat) : List α := ((List.range n).map f).takeWhile (· ≠ 0)

@[simp] theorem textIn_zero (f : Nat → α) : textIn f 0 = [] := rfl

theorem textIn_succ : textIn f (n + 1) = if f 0 = 0 then [] else f 0 :: textIn (fun j => f (j + 1)) n := by
  unfold textIn
  rw [List.range_succ_eq_map, List.map_cons, List.map_map]
  by_cases h : f 0 = 0
  · rw [if_pos h, List.takeWhile_cons_of_neg (by simp [h])]
  · rw [if_neg h, List.takeWhile_cons_of_pos (by simp [h])]
    rfl

/-- The text from a cell on. -/
theorem textIn_from (f : Nat → α) (i n : Nat) : textIn (fun j => f (i + j)) (n + 1) =
    if f i = 0 then [] else f i :: textIn (fun j => f (i + 1 + j)) n := by
  have hnext : (fun j => f (i + (j + 1))) = fun j => f (i + 1 + j) := by
    funext j
    rw [Nat.add_right_comm, Nat.add_assoc]
  rw [textIn_succ, Nat.add_zero, hnext]

theorem length_textIn_le (f : Nat → α) (n : Nat) : (textIn f n).length ≤ n := by
  unfold textIn
  have hle := (List.takeWhile_prefix (fun x : α => decide (x ≠ 0)) (l := (List.range n).map f)).length_le
  rw [List.length_map, List.length_range] at hle
  exact hle

theorem ne_zero_of_mem_textIn {x : α} (h : x ∈ textIn f n) : x ≠ 0 := by
  have := List.mem_takeWhile_imp h
  simpa using this

/-- A text that is put into a field and is read there. Nothing is said of what is behind its end. -/
theorem textIn_of_list {l : List α} (hl : ∀ x ∈ l, x ≠ 0) (h : ∀ j < n, j ≤ l.length → f j = l.getD j 0) :
    textIn f n = l.take n := by
  induction n generalizing f l with
  | zero => rw [List.take_zero, textIn_zero]
  | succ n ih =>
    rw [textIn_succ, h 0 (Nat.succ_pos n) (Nat.zero_le _)]
    cases l with
    | nil => rw [List.getD_nil, if_pos rfl, List.take_nil]
    | cons x l =>
      rw [List.getD_cons_zero, if_neg (hl x List.mem_cons_self), List.take_succ_cons]
      rw [ih (fun y hy => hl y (List.mem_cons_of_mem x hy)) fun j hj hle => ?_]
      rw [h (j + 1) (by omega) (by rw [List.length_cons]; omega), List.getD_cons_succ]

end fields
