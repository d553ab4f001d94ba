-- Linked lists: a function gives the node behind each node. A path lists
-- the nodes that are visited from a node up to another, and a loop along a
-- path finds the first node where it stops.
import Mathlib.Data.List.Basic

namespace chains

variable {α : Type*} {next next' : α → α} {x y z : α} {l m : List α}

/-- From `x` on the nodes are those of the list, and `z` is behind the last of them. -/
def Path (next : α → α) : α → List α → α → Prop
  | x, [], z => x = z
  | x, y :: l, z => x = y ∧ Path next (next x) l z

theorem path_append : Path next x (l ++ m) z ↔ ∃ y, Path next x l y ∧ Path next y m z := by
  induction l generalizing x with
  | nil =>
    constructor
    · intro h
      exact ⟨x, rfl, h⟩
    · rintro ⟨y, rfl, h⟩
      exact h
  | cons a l ih =>
    rw [List.cons_append, Path, ih]
    constructor
    · rintro ⟨rfl, y, h1, h2⟩
      exact ⟨y, ⟨rfl, h1⟩, h2⟩
    · rintro ⟨y, ⟨rfl, h1⟩, h2⟩
      exact ⟨rfl, y, h1, h2⟩

/-- A path looks only at its own nodes. -/
theorem Path.congr (h : Path next x l z) (hsame : ∀ y ∈ l, next' y = next y) : Path next' x l z := by
  induction l generalizing x with
  | nil => exact h
  | cons a l ih =>
    obtain ⟨rfl, h⟩ := h
    refine ⟨rfl, ?_⟩
    rw [hsame x List.mem_cons_self]
    exact ih h fun y hy => hsame y (List.mem_cons_of_mem _ hy)

/-- The path up to a node, and the path behind it. -/
theorem path_split (h : Path next x (l ++ y :: m) z) : Path next x l y ∧ Path next (next y) m z := by
  obtain ⟨w, h1, rfl, h2⟩ := path_append.mp h
  exact ⟨h1, h2⟩

theorem path_join (h1 : Path next x l y) (h2 : Path next (next y) m z) :
    Path next x (l ++ y :: m) z := path_append.mpr ⟨y, h1, rfl, h2⟩

/-- A ring can be read from any of its nodes. -/
theorem Path.rotate (h : Path next x (l ++ y :: m) x) : Path next y (y :: m ++ l) y := by
  obtain ⟨h1, h2⟩ := path_split h
  exact path_append.mpr ⟨x, ⟨rfl, h2⟩, h1⟩

/-- A path starts with its first node. -/
theorem Path.head_eq (h : Path next x l z) : x = l.headD z := by
  cases l with
  | nil => exact h
  | cons a l => exact h.1

/-! ## Loops -/

/-- The loop `for (p = x; !stop(p); p = next(p))`. -/
def walk (next : α → α) (stop : α → Prop) [DecidablePred stop] : Nat → α → Option α
  | 0, _ => none
  | k + 1, x => if stop x then some x else walk next stop k (next x)

/-- The loop stops at a node of the path if there is one where it can. -/
theorem Path.walk {stop : α → Prop} [DecidablePred stop] {k : Nat} (h : Path next x l z)
    (hstop : ∃ y ∈ l, stop y) (hk : l.length ≤ k) : ∃ y ∈ l, stop y ∧ walk next stop k x = some y := by
  induction l generalizing x k with
  | nil =>
    obtain ⟨y, hy, -⟩ := hstop
    cases hy
  | cons a l ih =>
    obtain ⟨rfl, h⟩ := h
    obtain ⟨k, rfl⟩ : ∃ k', k = k' + 1 := ⟨k - 1, by simp only [List.length_cons] at hk; omega⟩
    rw [chains.walk]
    by_cases hx : stop x
    · exact ⟨x, List.mem_cons_self, hx, if_pos hx⟩
    · rw [if_neg hx]
      have hrest : ∃ y ∈ l, stop y := by
        obtain ⟨y, hy, hs⟩ := hstop
        rcases List.mem_cons.mp hy with rfl | hy
        · exact absurd hs hx
        · exact ⟨y, hy, hs⟩
      obtain ⟨y, hy, hs, heq⟩ := ih h hrest (Nat.le_of_succ_le_succ hk)
      exact ⟨y, List.mem_cons_of_mem _ hy, hs, heq⟩

end chains
