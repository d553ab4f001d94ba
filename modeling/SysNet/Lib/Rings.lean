-- Doubly linked lists that close to a ring through one node that is not in
-- the list. A list between two null pointers is a ring too: the null pointer
-- is that node, and its neighbors are the head and the tail of the list.
import Mathlib.Data.List.Nodup
import Mathlib.Logic.Function.Basic
import SysNet.Lib.Chains

namespace rings

variable {α : Type*} {next prev next' prev' : α → α} {a b s x y z : α} {l m : List α}

/-! ## Segments -/

/-- Behind `a` come the nodes of the list and then `b`, and the other way around. -/
def Seg (next prev : α → α) : α → List α → α → Prop
  | a, [], b => next a = b ∧ prev b = a
  | a, x :: l, b => next a = x ∧ prev x = a ∧ Seg next prev x l b

theorem seg_append : Seg next prev a (l ++ x :: m) b ↔ Seg next prev a l x ∧ Seg next prev x m b := by
  induction l generalizing a with
  | nil =>
    rw [List.nil_append, Seg, Seg, and_assoc]
  | cons y l ih =>
    rw [List.cons_append, Seg, Seg, ih, and_assoc, and_assoc]

/-- A segment looks at `next` of all its nodes but the last, and at `prev` of all but the first. -/
theorem Seg.congr (h : Seg next prev a l b) (hnext : ∀ y ∈ a :: l, next' y = next y)
    (hprev : ∀ y ∈ l ++ [b], prev' y = prev y) : Seg next' prev' a l b := by
  induction l generalizing a with
  | nil =>
    obtain ⟨h1, h2⟩ := h
    constructor
    · rw [hnext a List.mem_cons_self, h1]
    · rw [hprev b List.mem_cons_self, h2]
  | cons x l ih =>
    obtain ⟨h1, h2, h⟩ := h
    refine ⟨?_, ?_, ?_⟩
    · rw [hnext a List.mem_cons_self, h1]
    · rw [hprev x List.mem_cons_self, h2]
    · apply ih h
      · intro y hy
        exact hnext y (List.mem_cons_of_mem _ hy)
      · intro y hy
        exact hprev y (List.mem_cons_of_mem _ hy)

/-- Read from its other end. -/
theorem Seg.reverse (h : Seg next prev a l b) : Seg prev next b l.reverse a := by
  induction l generalizing a with
  | nil => exact ⟨h.2, h.1⟩
  | cons x l ih =>
    obtain ⟨h1, h2, h⟩ := h
    rw [List.reverse_cons]
    exact seg_append.mpr ⟨ih h, h2, h1⟩

theorem Seg.prev_mem (h : Seg next prev a l b) : prev b ∈ a :: l := by
  induction l generalizing a with
  | nil =>
    rw [h.2]
    exact List.mem_cons_self
  | cons x l ih => exact List.mem_cons_of_mem _ (ih h.2.2)

theorem Seg.next_eq (h : Seg next prev a l b) : next a = l.headD b := by
  cases l with
  | nil => exact h.1
  | cons x l => exact h.1

theorem Seg.prev_eq (h : Seg next prev a l b) : prev b = l.getLastD a := by
  rw [h.reverse.next_eq, List.headD_eq_head?_getD, List.head?_reverse, List.getLastD_eq_getLast?]

/-! ## Rings -/

/-- The nodes of the list, once each, closed to a ring through `s`. -/
structure Ring (next prev : α → α) (s : α) (l : List α) : Prop where
  seg : Seg next prev s l s
  nodup : (s :: l).Nodup

theorem Ring.congr (h : Ring next prev s l) (hnext : ∀ y ∈ s :: l, next' y = next y)
    (hprev : ∀ y ∈ s :: l, prev' y = prev y) : Ring next' prev' s l := by
  refine ⟨?_, h.nodup⟩
  apply h.seg.congr hnext
  intro y hy
  apply hprev
  rcases List.mem_append.mp hy with hy | hy
  · exact List.mem_cons_of_mem _ hy
  · rw [List.mem_singleton.mp hy]
    exact List.mem_cons_self

theorem Ring.reverse (h : Ring next prev s l) : Ring prev next s l.reverse := by
  refine ⟨h.seg.reverse, ?_⟩
  obtain ⟨hs, hl⟩ := List.nodup_cons.mp h.nodup
  apply List.nodup_cons.mpr
  exact ⟨fun hmem => hs (List.mem_reverse.mp hmem), List.nodup_reverse.mpr hl⟩

/-- A ring of no nodes but `s`. -/
theorem ring_nil (hnext : next s = s) (hprev : prev s = s) : Ring next prev s [] :=
  ⟨⟨hnext, hprev⟩, List.nodup_singleton s⟩

theorem Ring.next_self (h : Ring next prev s l) : next s = l.headD s := h.seg.next_eq

theorem Ring.prev_self (h : Ring next prev s l) : prev s = l.getLastD s := h.seg.prev_eq

/-- The ring is empty where one of the two pointers of `s` says so. -/
theorem Ring.next_self_iff (h : Ring next prev s l) : next s = s ↔ l = [] := by
  rw [h.next_self]
  cases l with
  | nil => exact iff_of_true rfl rfl
  | cons x l =>
    obtain ⟨hs, -⟩ := List.nodup_cons.mp h.nodup
    apply iff_of_false
    · intro heq
      apply hs
      rw [← heq]
      exact List.mem_cons_self
    · exact List.cons_ne_nil x l

theorem Ring.prev_self_iff (h : Ring next prev s l) : prev s = s ↔ l = [] := by
  rw [h.reverse.next_self_iff, List.reverse_eq_nil_iff]

/-- No node is its own neighbor. -/
theorem Ring.next_ne (h : Ring next prev s l) (hx : x ∈ l) : next x ≠ x := by
  obtain ⟨l, m, rfl⟩ := List.append_of_mem hx
  obtain ⟨-, h2⟩ := seg_append.mp h.seg
  have hnodup : (s :: l ++ x :: m).Nodup := h.nodup
  obtain ⟨-, hxm, hdisj⟩ := List.nodup_append.mp hnodup
  rw [h2.next_eq]
  cases m with
  | nil => exact hdisj s List.mem_cons_self x List.mem_cons_self
  | cons y m =>
    rintro rfl
    exact (List.nodup_cons.mp hxm).1 List.mem_cons_self

/-- What is behind each node of a segment, and what is before it. -/
theorem Seg.at (h : Seg next prev a l b) {i : Nat} (hi : i < l.length) :
    next l[i] = l[i + 1]?.getD b ∧ prev l[i] = (a :: l)[i]?.getD a := by
  induction l generalizing a i with
  | nil => exact absurd hi (Nat.not_lt_zero i)
  | cons x l ih =>
    obtain ⟨-, h2, h⟩ := h
    cases i with
    | zero =>
      constructor
      · rw [List.getElem_cons_zero, h.next_eq, List.headD_eq_head?_getD, List.head?_eq_getElem?,
          List.getElem?_cons_succ]
      · rw [List.getElem_cons_zero, h2]
        rfl
    | succ i =>
      have hi : i < l.length := Nat.lt_of_succ_lt_succ hi
      obtain ⟨hn, hp⟩ := ih h hi
      constructor
      · rw [List.getElem_cons_succ, hn, List.getElem?_cons_succ]
      · have hin : i < (x :: l).length := by
          rw [List.length_cons]
          omega
        rw [List.getElem_cons_succ, hp, List.getElem?_cons_succ, List.getElem?_eq_getElem hin]
        rfl

/-- The loop `for (p = a->next; !stop(p); p = p->next)`, where it can stop at `b`. -/
theorem Seg.walk {stop : α → Prop} [DecidablePred stop] {k : Nat} (h : Seg next prev a l b)
    (hb : stop b) (hk : l.length < k) :
    chains.walk next stop k (next a) = some ((l.find? fun x => stop x).getD b) := by
  induction l generalizing a k with
  | nil =>
    obtain ⟨k, rfl⟩ : ∃ k', k = k' + 1 := ⟨k - 1, by omega⟩
    rw [h.1, chains.walk, if_pos hb]
    rfl
  | cons x l ih =>
    obtain ⟨h1, -, h⟩ := h
    rw [List.length_cons] at hk
    obtain ⟨k, rfl⟩ : ∃ k', k = k' + 1 := ⟨k - 1, by omega⟩
    rw [h1, chains.walk, List.find?_cons]
    by_cases hx : stop x
    · simp only [hx, if_true, decide_true]
      rfl
    · simp only [hx, if_false, decide_false]
      exact ih h (by omega)

/-! ## Nodes come and go -/

variable [DecidableEq α]

/-- The last node gets another node behind it. -/
theorem Seg.redirect (h : Seg next prev a l x) (hl : (a :: l).Nodup) (hb : b ∉ l) :
    Seg (Function.update next (prev x) b) (Function.update prev b (prev x)) a l b := by
  induction l generalizing a with
  | nil =>
    rw [h.2]
    exact ⟨Function.update_self .., Function.update_self ..⟩
  | cons y l ih =>
    obtain ⟨h1, h2, h⟩ := h
    obtain ⟨ha, hl⟩ := List.nodup_cons.mp hl
    have hne : a ≠ prev x := by
      intro heq
      apply ha
      rw [heq]
      exact h.prev_mem
    have hby : y ≠ b := by
      rintro rfl
      exact hb List.mem_cons_self
    refine ⟨?_, ?_, ?_⟩
    · rw [Function.update_of_ne hne, h1]
    · rw [Function.update_of_ne hby, h2]
    · apply ih h hl
      intro hmem
      exact hb (List.mem_cons_of_mem _ hmem)

/-- A node comes in between `s` and the first one. -/
theorem Ring.insertFront (h : Ring next prev s l) (hx : x ∉ s :: l) :
    Ring (Function.update (Function.update next x (next s)) s x)
      (Function.update (Function.update prev x s) (next s) x) s (x :: l) := by
  have hxs : x ≠ s := by
    rintro rfl
    exact hx List.mem_cons_self
  have hxl : x ∉ l := fun hmem => hx (List.mem_cons_of_mem _ hmem)
  obtain ⟨hs, hl⟩ := List.nodup_cons.mp h.nodup
  refine ⟨?_, ?_⟩
  · cases l with
    | nil =>
      rw [h.next_self]
      refine ⟨Function.update_self .., ?_, ?_, Function.update_self ..⟩
      · rw [List.headD_nil, Function.update_of_ne hxs, Function.update_self]
      · rw [Function.update_of_ne hxs, Function.update_self, List.headD_nil]
    | cons y l =>
      obtain ⟨h1, h2, hseg⟩ := h.seg
      rw [h1]
      have hxy : x ≠ y := by
        rintro rfl
        exact hxl List.mem_cons_self
      refine ⟨Function.update_self .., ?_, ?_, Function.update_self .., ?_⟩
      · rw [Function.update_of_ne hxy, Function.update_self]
      · rw [Function.update_of_ne hxs, Function.update_self]
      · apply hseg.congr
        · intro z hz
          rw [Function.update_of_ne, Function.update_of_ne]
          · rintro rfl
            exact hxl hz
          · rintro rfl
            exact hs hz
        · intro z hz
          obtain ⟨hy, -⟩ := List.nodup_cons.mp hl
          rcases List.mem_append.mp hz with hz | hz
          · rw [Function.update_of_ne, Function.update_of_ne]
            · rintro rfl
              exact hxl (List.mem_cons_of_mem _ hz)
            · rintro rfl
              exact hy hz
          · obtain rfl := List.mem_singleton.mp hz
            rw [Function.update_of_ne, Function.update_of_ne hxs.symm]
            rintro rfl
            exact hs List.mem_cons_self
  · apply List.nodup_cons.mpr
    refine ⟨?_, List.nodup_cons.mpr ⟨hxl, hl⟩⟩
    intro hmem
    rcases List.mem_cons.mp hmem with rfl | hmem
    · exact hxs rfl
    · exact hs hmem

/-- A node comes in between the last one and `s`. -/
theorem Ring.insertBack (h : Ring next prev s l) (hx : x ∉ s :: l) :
    Ring (Function.update (Function.update next x s) (prev s) x)
      (Function.update (Function.update prev x (prev s)) s x) s (l ++ [x]) := by
  have hrev : x ∉ s :: l.reverse := by
    intro hmem
    apply hx
    rcases List.mem_cons.mp hmem with rfl | hmem
    · exact List.mem_cons_self
    · exact List.mem_cons_of_mem _ (List.mem_reverse.mp hmem)
  have hring := (h.reverse.insertFront hrev).reverse
  rwa [List.reverse_cons, List.reverse_reverse] at hring

/-- A node goes, and its neighbors are linked to each other. -/
theorem Ring.remove (h : Ring next prev s (l ++ x :: m)) :
    Ring (Function.update next (prev x) (next x)) (Function.update prev (next x) (prev x)) s
      (l ++ m) := by
  obtain ⟨h1, h2⟩ := seg_append.mp h.seg
  have hnodup : (s :: l ++ x :: m).Nodup := h.nodup
  obtain ⟨hsl, hxm, hdisj⟩ := List.nodup_append.mp hnodup
  have hrest : (s :: (l ++ m)).Nodup := by
    apply List.Nodup.sublist _ h.nodup
    apply List.Sublist.cons_cons
    apply List.Sublist.append (List.Sublist.refl l)
    exact List.sublist_cons_self x m
  refine ⟨?_, hrest⟩
  obtain ⟨hsl', -⟩ := List.nodup_cons.mp hsl
  cases m with
  | nil =>
    rw [h2.1, List.append_nil]
    exact h1.redirect hsl hsl'
  | cons y m =>
    obtain ⟨hy1, hy2, h2⟩ := h2
    have hyl : ∀ z ∈ s :: l, z ≠ y := fun z hz =>
      hdisj z hz y (List.mem_cons_of_mem _ List.mem_cons_self)
    rw [hy1]
    apply seg_append.mpr
    constructor
    · apply h1.redirect hsl
      intro hmem
      exact hyl y (List.mem_cons_of_mem _ hmem) rfl
    · have hlast := h1.prev_mem
      obtain ⟨-, hym⟩ := List.nodup_cons.mp hxm
      obtain ⟨hy, -⟩ := List.nodup_cons.mp hym
      apply h2.congr
      · intro z hz
        apply Function.update_of_ne
        rintro rfl
        exact hdisj _ hlast _ (List.mem_cons_of_mem _ hz) rfl
      · intro z hz
        apply Function.update_of_ne
        rcases List.mem_append.mp hz with hz | hz
        · rintro rfl
          exact hy hz
        · rw [List.mem_singleton.mp hz]
          exact hyl s List.mem_cons_self

/-- The first node goes. -/
theorem Ring.removeFront (h : Ring next prev s (x :: l)) :
    Ring (Function.update next s (next x)) (Function.update prev (next x) s) s l := by
  have hring := Ring.remove (l := []) h
  rwa [h.seg.2.1] at hring

end rings
