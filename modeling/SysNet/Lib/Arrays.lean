-- Arrays as lists: a part is read, and a part is written over, which can
-- make the array longer. The values of a function up to a bound are the
-- array that the function holds.
import Mathlib.Data.List.Basic

namespace arrays

variable {α : Type*} {f g : Nat → α} {n m off : Nat} {src : List α}

/-- The array with `src` at the offset. -/
def overwrite (l : List α) (off : Nat) (src : List α) : List α :=
  l.take off ++ src ++ l.drop (off + src.length)

/-- At most `n` values from the offset on. -/
def part (l : List α) (off n : Nat) : List α := (l.drop off).take n

/-- The first `n` values of the function. -/
def listed (f : Nat → α) (n : Nat) : List α := (List.range n).map f

@[simp] theorem length_listed : (listed f n).length = n := by
  unfold listed
  rw [List.length_map, List.length_range]

theorem listed_congr (h : ∀ x < n, g x = f x) : listed g n = listed f n :=
  List.map_congr_left fun x hx => h x (List.mem_range.mp hx)

theorem getElem?_listed (f : Nat → α) (n x : Nat) :
    (listed f n)[x]? = if x < n then some (f x) else none := by
  unfold listed
  rw [List.getElem?_map]
  by_cases hx : x < n
  · rw [if_pos hx, List.getElem?_range hx]
    rfl
  · rw [if_neg hx, List.getElem?_eq_none (by rw [List.length_range]; omega)]
    rfl

/-- What is read is what the function has there, up to the end of the array. -/
theorem part_listed : part (listed f n) off m = listed (fun x => f (off + x)) (min m (n - off)) := by
  apply List.ext_getElem?
  intro x
  unfold part
  rw [List.getElem?_take, List.getElem?_drop, getElem?_listed, getElem?_listed]
  by_cases hx : x < min m (n - off)
  · rw [if_pos (by omega), if_pos (by omega), if_pos hx]
  · rw [if_neg hx]
    by_cases hm : x < m
    · rw [if_pos hm, if_neg (by omega)]
    · rw [if_neg hm]

/-- A function that has the new values in their places, and the old ones elsewhere. -/
theorem overwrite_listed (src : List α) (hoff : off ≤ n) (hin : ∀ x < src.length, src[x]? = some (g (off + x)))
    (hout : ∀ x < n, x < off ∨ off + src.length ≤ x → g x = f x) :
    listed g (max n (off + src.length)) = overwrite (listed f n) off src := by
  have htake : ((listed f n).take off).length = off := by
    rw [List.length_take, length_listed]
    omega
  apply List.ext_getElem?
  intro x
  unfold overwrite
  rw [getElem?_listed, List.append_assoc, List.getElem?_append, htake]
  by_cases hbefore : x < off
  · rw [if_pos hbefore, if_pos (by omega), List.getElem?_take, if_pos hbefore, getElem?_listed,
      if_pos (by omega), hout x (by omega) (Or.inl hbefore)]
  · rw [if_neg hbefore, List.getElem?_append]
    by_cases hmiddle : x - off < src.length
    · rw [if_pos hmiddle, if_pos (by omega), hin _ hmiddle, Nat.add_sub_cancel' (by omega)]
    · rw [if_neg hmiddle, List.getElem?_drop, getElem?_listed]
      have hx : off + src.length + (x - off - src.length) = x := by omega
      rw [hx]
      by_cases hn : x < n
      · rw [if_pos (by omega), if_pos hn, hout x hn (Or.inr (by omega))]
      · rw [if_neg (by omega), if_neg hn]

section

variable {l : List α} {p : Nat}

theorem length_overwrite (hoff : off ≤ l.length) :
    (overwrite l off src).length = max l.length (off + src.length) := by
  unfold overwrite
  rw [List.length_append, List.length_append, List.length_take, List.length_drop]
  omega

theorem part_overwrite (hoff : off ≤ l.length) : part (overwrite l off src) off src.length = src := by
  have htake : (l.take off).length = off := by
    rw [List.length_take]
    omega
  unfold part overwrite
  rw [List.append_assoc, List.drop_append_of_le_length (by omega), List.drop_of_length_le (by omega),
    List.nil_append, List.take_left]

theorem part_overwrite_apart (hoff : off ≤ l.length) (h : p + n ≤ off ∨ off + src.length ≤ p) :
    part (overwrite l off src) p n = part l p n := by
  apply List.ext_getElem?
  intro x
  have htake : (l.take off).length = off := by
    rw [List.length_take]
    omega
  unfold part
  rw [List.getElem?_take, List.getElem?_take]
  by_cases hx : x < n
  · rw [if_pos hx, if_pos hx, List.getElem?_drop, List.getElem?_drop]
    unfold overwrite
    rw [List.append_assoc, List.getElem?_append, htake]
    by_cases hbefore : p + x < off
    · rw [if_pos hbefore, List.getElem?_take, if_pos hbefore]
    · rw [if_neg hbefore, List.getElem?_append, if_neg (by omega), List.getElem?_drop]
      congr 1
      omega
  · rw [if_neg hx, if_neg hx]

end

end arrays
