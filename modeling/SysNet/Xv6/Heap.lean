-- The heap of a user program as a row of blocks from the first unit that
-- `sbrk` gave to the last. The list of umalloc.c links the free ones among
-- them, and no two free blocks are next to each other.
import Mathlib.Data.List.Chain
import SysNet.Lib.Runs
import SysNet.Lib.Tiles
import SysNet.Xv6.Umalloc

open chains runs tiles

namespace xv6.umalloc

/-! ## Blocks -/

/-- A block is free, or it is live and was asked for with so many bytes. -/
abbrev Block := Tile (Option Nat)

def freeAt (x : Nat × Block) : Option Nat := if x.2.kind = none then some x.1 else none

/-- The addresses of the free blocks, in order. -/
def frees (a : Nat) (bs : List Block) : List Nat := (placed a bs).filterMap freeAt

/-- The live blocks with what was asked for. -/
def lives (a : Nat) (bs : List Block) : List (Nat × Nat) :=
  (placed a bs).filterMap fun x => x.2.kind.map (x.1, ·)

variable {a b m n : Nat} {X Y Z bs : List Block}

@[simp] theorem frees_append : frees a (X ++ Y) = frees a X ++ frees (a + span X) Y := by
  simp [frees]

@[simp] theorem lives_append : lives a (X ++ Y) = lives a X ++ lives (a + span X) Y := by
  simp [lives]

@[simp] theorem frees_free : frees a (⟨m, none⟩ :: bs) = a :: frees (a + m) bs := by
  simp [frees, placed, freeAt]

@[simp] theorem frees_live : frees a (⟨m, some n⟩ :: bs) = frees (a + m) bs := by
  simp [frees, placed, freeAt]

@[simp] theorem lives_free : lives a (⟨m, none⟩ :: bs) = lives (a + m) bs := by
  simp [lives, placed]

@[simp] theorem lives_live : lives a (⟨m, some n⟩ :: bs) = (a, n) :: lives (a + m) bs := by
  simp [lives, placed]

@[simp] theorem frees_nil : frees a [] = [] := rfl

theorem mem_frees : b ∈ frees a bs ↔ ∃ m, (b, ⟨m, none⟩) ∈ placed a bs := by
  unfold frees
  rw [List.mem_filterMap]
  constructor
  · rintro ⟨⟨c, m, k⟩, hmem, heq⟩
    unfold freeAt at heq
    split at heq
    · rename_i hk
      cases heq
      cases hk
      exact ⟨m, hmem⟩
    · cases heq
  · rintro ⟨m, hmem⟩
    exact ⟨_, hmem, rfl⟩

theorem mem_lives : (b, n) ∈ lives a bs ↔ ∃ m, (b, ⟨m, some n⟩) ∈ placed a bs := by
  unfold lives
  rw [List.mem_filterMap]
  constructor
  · rintro ⟨⟨c, m, k⟩, hmem, heq⟩
    obtain ⟨n', hk, hn⟩ := Option.map_eq_some_iff.mp heq
    cases hn
    simp only at hk
    cases hk
    exact ⟨m, hmem⟩
  · rintro ⟨m, hmem⟩
    exact ⟨_, hmem, rfl⟩

/-- A free block lies in the range. -/
theorem mem_frees_bounds (h : b ∈ frees a bs) : a ≤ b ∧ b ≤ a + span bs := by
  obtain ⟨m, hmem⟩ := mem_frees.mp h
  have hin := mem_placed hmem
  exact ⟨hin.1, by simp only at hin; omega⟩

theorem placed_lt {x : Nat × Block} (hpos : ∀ t ∈ bs, 0 < t.size) (h : x ∈ placed a bs) :
    x.1 < a + span bs := by
  obtain ⟨before, after, rfl, -⟩ := placed_split h
  have hx := hpos x.2 (by simp)
  have hin := mem_placed h
  omega

theorem mem_lives_bounds {x : Nat × Nat} (hpos : ∀ t ∈ bs, 0 < t.size) (h : x ∈ lives a bs) :
    a ≤ x.1 ∧ x.1 < a + span bs := by
  obtain ⟨m, hmem⟩ := mem_lives.mp h
  exact ⟨(mem_placed hmem).1, placed_lt hpos hmem⟩

/-- Two blocks next to each other are not both free. -/
def Apart (t t' : Block) : Prop := t.kind ≠ none ∨ t'.kind ≠ none

/-- The blocks of a heap. -/
structure Tiled (bs : List Block) : Prop where
  pos : ∀ t ∈ bs, 0 < t.size
  enough : ∀ t ∈ bs, ∀ n, t.kind = some n → n ≤ (t.size - 1) * 16
  apart : bs.IsChain Apart
  small : span bs < 4294967296

theorem frees_pairwise (hpos : ∀ t ∈ bs, 0 < t.size) : (frees a bs).Pairwise (· < ·) := by
  induction bs generalizing a with
  | nil => exact .nil
  | cons t bs ih =>
    have hrest := @ih (a + t.size) fun t ht => hpos t (List.mem_cons_of_mem _ ht)
    have ht := hpos t List.mem_cons_self
    obtain ⟨m, _ | n⟩ := t
    · rw [frees_free]
      refine .cons (fun b hb => ?_) hrest
      have hin := mem_frees_bounds hb
      simp only at ht
      omega
    · rw [frees_live]
      exact hrest

theorem length_frees : (frees a bs).length ≤ bs.length :=
  Nat.le_trans (List.length_filterMap_le ..) (Nat.le_of_eq length_placed)

theorem lives_of_free (h : ∀ t ∈ bs, t.kind = none) : lives a bs = [] := by
  induction bs generalizing a with
  | nil => rfl
  | cons t bs ih =>
    obtain ⟨m, k⟩ := t
    obtain rfl : k = none := h _ List.mem_cons_self
    rw [lives_free]
    exact ih fun t ht => h t (List.mem_cons_of_mem _ ht)

/-! ## The heap and its memory -/

/-- The headers of the blocks have their sizes, and the list goes from `base` through the free
blocks back to `base`. -/
structure Heap (l : Layout) (s : State) (bs : List Block) : Prop where
  tiled : Tiled bs
  brk : s.brk = l.start + span bs
  sizes : ∀ x ∈ placed l.start bs, s.size x.1 = x.2.size
  base : s.size l.base = 0
  ring : Path s.ptr l.base (l.base :: frees l.start bs) l.base
  freep : s.freep ∈ l.base :: frees l.start bs

variable {l : Layout} {s : State} {p q : Nat}

theorem Heap.sorted (h : Heap l s bs) : (l.base :: frees l.start bs).Pairwise (· < ·) :=
  .cons (fun _ hb => Nat.lt_of_lt_of_le l.below (mem_frees_bounds hb).1) (frees_pairwise h.tiled.pos)

theorem Heap.length_le (h : Heap l s bs) : (l.base :: frees l.start bs).length ≤ s.brk + 1 := by
  have hfrees := @length_frees l.start bs
  have hspan := length_le_span h.tiled.pos
  rw [h.brk, List.length_cons]
  omega

theorem headD_mem_or (C : List Nat) (z : Nat) : C.headD z ∈ C ∨ C = [] ∧ C.headD z = z := by
  cases C with
  | nil => exact Or.inr ⟨rfl, rfl⟩
  | cons c C => exact Or.inl List.mem_cons_self

/-! ## The end of the memory does not count for the list -/

theorem State.joinNext_brk : ({ s with brk := b } : State).joinNext n p =
    { s.joinNext n p with brk := b } := by
  unfold State.joinNext
  change (if n + s.size n = s.ptr p then _ else _) = _
  split <;> rfl

theorem State.joinPrevious_brk : ({ s with brk := b } : State).joinPrevious n p =
    { s.joinPrevious n p with brk := b } := by
  unfold State.joinPrevious
  change (if p + s.size p = n then _ else _) = _
  split <;> rfl

theorem State.take_brk : ({ s with brk := b } : State).take n q p =
    ({ (s.take n q p).1 with brk := b }, (s.take n q p).2) := by
  unfold State.take
  change (if s.size p = n then _ else _) = _
  split <;> rfl

/-- The node behind a node of the list. -/
theorem Heap.ptr_eq (h : Heap l s bs) {A B : List Nat}
    (hring : l.base :: frees l.start bs = A ++ q :: B) : s.ptr q = B.headD l.base := by
  have hpath := h.ring
  rw [hring] at hpath
  exact (path_split hpath).2.head_eq

/-! ## The place of a block in the list -/

section

variable {A : List Nat}

theorem ring_eq (hp : l.base :: frees l.start X = A ++ [p]) : l.base :: frees l.start (X ++ ⟨m, some n⟩ :: Y) =
    A ++ p :: frees (l.start + span X + m) Y := by
  rw [frees_append, frees_live, ← List.cons_append, hp, List.append_assoc]
  rfl

variable (h : Heap l s (X ++ ⟨m, some n⟩ :: Y))

include h

theorem Heap.after {q : Nat} (hq : q ∈ frees (l.start + span X + m) Y) : l.start + span X < q := by
  have hpos := h.tiled.pos ⟨m, some n⟩ (by simp)
  have hin := mem_frees_bounds hq
  simp only at hpos
  omega

variable (hp : l.base :: frees l.start X = A ++ [p])

include hp

theorem Heap.before {q : Nat} (hq : q ∈ A ++ [p]) : q < l.start + span X := by
  rw [← hp] at hq
  rcases List.mem_cons.mp hq with rfl | hq
  · have := l.below
    omega
  · obtain ⟨k, hmem⟩ := mem_frees.mp hq
    have hpos := h.tiled.pos ⟨k, none⟩ ?_
    · have hin := mem_placed hmem
      simp only at hin hpos
      omega
    · obtain ⟨before, after, rfl, -⟩ := placed_split hmem
      simp

/-- The loop of `free` stops at the last free block before, or at `base`. -/
theorem Heap.stopsAt_iff (hq : q ∈ A ++ p :: frees (l.start + span X + m) Y) :
    s.stopsAt (l.start + span X) q ↔ q = p := by
  have hring := ring_eq (m := m) (n := n) (Y := Y) hp
  have hsorted := h.sorted
  rw [hring] at hsorted
  have hbase := h.before hp (q := l.base) (by rw [← hp]; exact List.mem_cons_self)
  have hpbp := h.before hp (q := p) (by simp)
  unfold State.stopsAt
  constructor
  · intro hstop
    rcases List.mem_append.mp hq with hA | hrest
    · -- the next node is before the block too
      obtain ⟨B, C, rfl⟩ := List.append_of_mem hA
      have hptr : s.ptr q = (C ++ p :: frees (l.start + span X + m) Y).headD l.base := by
        refine h.ptr_eq (A := B) ?_
        rw [hring, List.append_assoc]
        rfl
      have hmem : s.ptr q ∈ C ++ [p] := by
        rw [hptr]
        cases C <;> simp
      have hlt : s.ptr q < l.start + span X :=
        h.before hp (List.mem_append.mpr (by
          rcases List.mem_append.mp hmem with hC | hC
          · exact Or.inl (List.mem_append_right _ (List.mem_cons_of_mem _ hC))
          · exact Or.inr hC))
      have hgt : q < s.ptr q := by
        rw [List.append_assoc, List.cons_append, List.pairwise_append] at hsorted
        refine (List.pairwise_cons.mp hsorted.2.1).1 _ ?_
        rcases List.mem_append.mp hmem with hC | hC
        · exact List.mem_append_left _ hC
        · rw [List.mem_singleton.mp hC]
          simp
      omega
    · rcases List.mem_cons.mp hrest with rfl | hY
      · rfl
      · -- behind the block, the next node is further behind or `base`
        have hqbp := h.after hY
        obtain ⟨B, C, hB⟩ := List.append_of_mem hY
        have hsplit : A ++ p :: frees (l.start + span X + m) Y = (A ++ p :: B) ++ q :: C := by
          rw [hB, List.append_assoc]
          rfl
        have hptr : s.ptr q = C.headD l.base := h.ptr_eq (hring.trans hsplit)
        rcases headD_mem_or C l.base with hC | ⟨-, hC⟩
        · have hgt : q < s.ptr q := by
            rw [hsplit, List.pairwise_append] at hsorted
            rw [hptr]
            exact (List.pairwise_cons.mp hsorted.2.1).1 _ hC
          omega
        · rw [hC] at hptr
          omega
  · rintro rfl
    have hptr : s.ptr q = (frees (l.start + span X + m) Y).headD l.base := h.ptr_eq hring
    rcases headD_mem_or (frees (l.start + span X + m) Y) l.base with hY | ⟨-, hY⟩
    · have hlt := h.after hY
      rw [← hptr] at hlt
      exact Or.inl ⟨hpbp, hlt⟩
    · rw [hY] at hptr
      refine Or.inr ⟨?_, Or.inl hpbp⟩
      rw [hptr]
      have hfirst : l.base ∈ A ++ [q] := by
        rw [← hp]
        exact List.mem_cons_self
      rcases List.mem_append.mp hfirst with hA | hA
      · exact Nat.le_of_lt ((List.pairwise_append.mp hsorted).2.2 _ hA _ List.mem_cons_self)
      · exact Nat.le_of_eq (List.mem_singleton.mp hA)

/-- The end of the memory counts only for the turns of the loop. -/
theorem Heap.free_eq (hk : (l.base :: frees l.start (X ++ ⟨m, some n⟩ :: Y)).length ≤ b + 257) :
    free { s with brk := b } (l.start + span X + 1) =
      some { ({ (s.joinNext (l.start + span X) p).joinPrevious (l.start + span X) p with
        freep := p } : State) with brk := b } := by
  have hring := ring_eq (m := m) (n := n) (Y := Y) hp
  have hfreep := h.freep
  have hpath := h.ring
  rw [hring] at hfreep hpath hk
  obtain ⟨B, C, hB⟩ := List.append_of_mem hfreep
  -- read the ring from `freep` on
  rw [hB] at hpath
  have hmem : ∀ q, q ∈ s.freep :: C ++ B ↔ q ∈ A ++ p :: frees (l.start + span X + m) Y := by
    intro q
    rw [hB]
    simp only [List.mem_append, List.mem_cons]
    tauto
  have hlist : (s.freep :: C ++ B).length ≤ b + 257 := by
    rw [hB] at hk
    simp only [List.length_append, List.length_cons] at hk ⊢
    omega
  have hfound : ∃ q ∈ s.freep :: C ++ B, s.stopsAt (l.start + span X) q :=
    ⟨p, (hmem p).mpr (by simp), (h.stopsAt_iff hp (by simp)).mpr rfl⟩
  obtain ⟨q, hq, hstop, hwalk⟩ := hpath.rotate.walk hfound hlist
  obtain rfl := (h.stopsAt_iff hp ((hmem q).mp hq)).mp hstop
  have hwalk' : walk ({ s with brk := b } : State).ptr
      (({ s with brk := b } : State).stopsAt (l.start + span X)) (b + 257) s.freep = some q := hwalk
  unfold free
  simp only [Nat.add_sub_cancel, hwalk', State.joinNext_brk (s := s) (b := b),
    State.joinPrevious_brk (b := b)]

end

/-! ## free -/

theorem uint_of_lt (h : n < 4294967296) : uint n = n := by
  unfold uint
  omega

theorem Heap.size_at {k : Option Nat} (h : Heap l s (X ++ ⟨m, k⟩ :: Y)) : s.size (l.start + span X) = m := by
  refine h.sizes (l.start + span X, ⟨m, k⟩) ?_
  simp [placed]

/-- The two states differ in one header only, and in nothing else. -/
structure Touched (s s' : State) (a : Nat) : Prop where
  ptr : ∀ r, r ≠ a → s'.ptr r = s.ptr r
  size : ∀ r, r ≠ a → s'.size r = s.size r
  brk : s'.brk = s.brk
  live : s'.live = s.live
  freep : s'.freep = s.freep

theorem touched_setPtr (s : State) (a q : Nat) : Touched s (s.setPtr a q) a :=
  ⟨fun _ h => State.ptr_setPtr_of_ne h, fun _ _ => State.size_setPtr, rfl, rfl, rfl⟩

theorem touched_set (s : State) (a m q : Nat) : Touched s ((s.setSize a m).setPtr a q) a :=
  ⟨fun _ h => by rw [State.ptr_setPtr_of_ne h, State.ptr_setSize],
    fun _ h => by rw [State.size_setPtr, State.size_setSize_of_ne h], rfl, rfl, rfl⟩

/-- The block takes the next one if that is free. -/
theorem Heap.joinNext (h : Heap l s (X ++ ⟨m, some n⟩ :: Y)) {A : List Nat}
    (hp : l.base :: frees l.start X = A ++ [p]) :
    ∃ Z Y', Y = Z ++ Y' ∧ (∀ t ∈ Z, t.kind = none) ∧ (∀ t ∈ Y'.head?, t.kind ≠ none) ∧
      Touched s (s.joinNext (l.start + span X) p) (l.start + span X) ∧
      (s.joinNext (l.start + span X) p).size (l.start + span X) = m + span Z ∧
      (s.joinNext (l.start + span X) p).ptr (l.start + span X) =
        (frees (l.start + span X + m + span Z) Y').headD l.base := by
  have hptr : s.ptr p = (frees (l.start + span X + m) Y).headD l.base := h.ptr_eq (ring_eq hp)
  have hsize : s.size (l.start + span X) = m := h.size_at
  have hbelow := l.below
  unfold State.joinNext
  rw [hsize, hptr]
  -- the first free block behind is the next one exactly when that is free
  rcases Y with _ | ⟨⟨k, _ | n'⟩, Y⟩
  · have hne : l.start + span X + m ≠ (frees (l.start + span X + m) []).headD l.base := by
      change _ ≠ l.base
      omega
    refine ⟨[], [], rfl, by simp, by simp, ?_⟩
    rw [if_neg hne]
    exact ⟨touched_setPtr .., by simp [hsize, span], by simp [span]⟩
  · refine ⟨[⟨k, none⟩], Y, rfl, by simp, ?_, ?_⟩
    · intro t ht
      have hchain := (List.isChain_append.mp h.tiled.apart).2.1
      rw [List.isChain_cons_cons, List.isChain_cons] at hchain
      exact (hchain.2.1 t ht).resolve_left (by simp)
    · have hnext : s.size (l.start + span X + m) = k := by
        refine h.sizes (l.start + span X + m, ⟨k, none⟩) ?_
        simp [placed]
      have hjump : s.ptr (l.start + span X + m) = (frees (l.start + span X + m + k) Y).headD l.base := by
        refine h.ptr_eq (A := A ++ [p]) ?_
        rw [ring_eq hp, frees_free, List.append_assoc]
        rfl
      rw [frees_free, List.headD_cons, if_pos rfl, hnext, hjump]
      have hlt := h.tiled.small
      simp only [span_append, span] at hlt
      rw [uint_of_lt (by omega)]
      refine ⟨touched_set .., by simp [span], by simp [span]⟩
  · refine ⟨[], ⟨k, some n'⟩ :: Y, rfl, by simp, by simp, ?_⟩
    have hk := h.tiled.pos ⟨k, some n'⟩ (by simp)
    have hne : l.start + span X + m ≠ (frees (l.start + span X + m) (⟨k, some n'⟩ :: Y)).headD l.base := by
      rw [frees_live]
      rcases headD_mem_or (frees (l.start + span X + m + k) Y) l.base with hY | ⟨-, hY⟩
      · have hin := mem_frees_bounds hY
        simp only at hk
        omega
      · omega
    rw [if_neg hne]
    exact ⟨touched_setPtr .., by simp [hsize, span], by simp [span]⟩

/-- The blocks with the freed one in its place. -/
theorem Tiled.freed {k : Nat} (h : Tiled (X ++ Z ++ ⟨m, some n⟩ :: Y))
    (hX : ∀ t ∈ X.getLast?, t.kind ≠ none) {W Y' : List Block} (hY : Y = W ++ Y')
    (hY' : ∀ t ∈ Y'.head?, t.kind ≠ none) (hk : k = span Z + m + span W) :
    Tiled (X ++ ⟨k, none⟩ :: Y') := by
  subst hY hk
  have hpos := h.pos ⟨m, some n⟩ (by simp)
  have hchain := List.isChain_append.mp h.apart
  refine ⟨fun t ht => ?_, fun t ht n' hn' => ?_, ?_, ?_⟩
  · rcases List.mem_append.mp ht with ht | ht
    · exact h.pos t (by simp [ht])
    · rcases List.mem_cons.mp ht with rfl | ht
      · simp only at hpos ⊢
        omega
      · exact h.pos t (by simp [ht])
  · rcases List.mem_append.mp ht with ht | ht
    · exact h.enough t (by simp [ht]) n' hn'
    · rcases List.mem_cons.mp ht with rfl | ht
      · cases hn'
      · exact h.enough t (by simp [ht]) n' hn'
  · rw [List.isChain_append, List.isChain_cons]
    refine ⟨hchain.1.left_of_append, ⟨fun t ht => Or.inr (hY' t ht), ?_⟩, fun t ht _ _ => Or.inl (hX t ht)⟩
    exact (List.isChain_cons.mp hchain.2.1).2.right_of_append
  · have hsmall := h.small
    simp only [span_append, span] at hsmall ⊢
    omega

/-- A free block between the blocks before and those behind, with the list through it. -/
theorem Heap.of_free {k : Nat} (ht : Tiled (X ++ ⟨k, none⟩ :: Y))
    (hbrk : s.brk = l.start + span (X ++ ⟨k, none⟩ :: Y))
    (hX : ∀ x ∈ placed l.start X, s.size x.1 = x.2.size)
    (hk : s.size (l.start + span X) = k)
    (hY : ∀ x ∈ placed (l.start + span X + k) Y, s.size x.1 = x.2.size)
    (hbase : s.size l.base = 0)
    (hto : Path s.ptr l.base (l.base :: frees l.start X) (l.start + span X))
    (hfrom : Path s.ptr (s.ptr (l.start + span X)) (frees (l.start + span X + k) Y) l.base)
    (hfreep : s.freep ∈ l.base :: frees l.start X ++ [l.start + span X]) :
    Heap l s (X ++ ⟨k, none⟩ :: Y) where
  tiled := ht
  brk := hbrk
  sizes x hx := by
    rw [placed_append, placed] at hx
    rcases List.mem_append.mp hx with hx | hx
    · exact hX x hx
    · rcases List.mem_cons.mp hx with rfl | hx
      · exact hk
      · exact hY x hx
  base := hbase
  ring := by
    rw [frees_append, frees_free, ← List.cons_append]
    exact path_join hto hfrom
  freep := by
    rw [frees_append, frees_free, ← List.cons_append]
    rcases List.mem_append.mp hfreep with h | h
    · exact List.mem_append_left _ h
    · rw [List.mem_singleton.mp h]
      simp

/-- The free block before ends before the block, unless it is the one next to it. -/
theorem Heap.gap_before (h : Heap l s (X ++ ⟨m, some n⟩ :: Y)) {A : List Nat}
    (hp : l.base :: frees l.start X = A ++ [p]) (hX : ∀ t ∈ X.getLast?, t.kind ≠ none) :
    p + s.size p ≠ l.start + span X := by
  have hbelow := l.below
  have hmem : p ∈ l.base :: frees l.start X := by
    rw [hp]
    simp
  rcases List.mem_cons.mp hmem with rfl | hfree
  · rw [h.base]
    omega
  · rcases List.eq_nil_or_concat X with rfl | ⟨X', ⟨k, kind⟩, rfl⟩
    · cases hfree
    · rw [List.concat_eq_append] at *
      obtain ⟨n', rfl⟩ : ∃ n', kind = some n' :=
        Option.ne_none_iff_exists'.mp (hX ⟨k, kind⟩ (by simp))
      obtain ⟨j, hj⟩ : ∃ j, (p, ⟨j, none⟩) ∈ placed l.start X' := by
        refine mem_frees.mp ?_
        rwa [frees_append, frees_live, frees_nil, List.append_nil] at hfree
      have hin := mem_placed hj
      have hsize := h.sizes (p, ⟨j, none⟩) (by simp [hj])
      have hpos := h.tiled.pos ⟨k, some n'⟩ (by simp)
      simp only [span_append, span] at hin hsize hpos ⊢
      omega

/-- The block has joined the next one, and `p` is the free block before it, or `base`. -/
structure Joining (l : Layout) (s s₁ : State) (X : List Block) (A : List Nat) (p m : Nat)
    (Y : List Block) : Prop where
  last : l.base :: frees l.start X = A ++ [p]
  early : ∀ r ∈ A, r < p
  before : p < l.start + span X
  late : ∀ r ∈ frees (l.start + span X + m) Y, l.start + span X < r
  sizesX : ∀ x ∈ placed l.start X, x.1 < l.start + span X ∧ s.size x.1 = x.2.size
  sizesY : ∀ x ∈ placed (l.start + span X + m) Y, l.start + span X < x.1 ∧ s.size x.1 = x.2.size
  base : s.size l.base = 0
  brk : s.brk = l.start + span X + m + span Y
  there : Path s.ptr l.base A p
  rest : Path s.ptr (s₁.ptr (l.start + span X)) (frees (l.start + span X + m) Y) l.base
  touched : Touched s s₁ (l.start + span X)
  size : s₁.size (l.start + span X) = m

/-- Then it stays alone. -/
theorem Joining.alone {s₁ : State} {A : List Nat} (h : Joining l s s₁ X A p m Y)
    (ht : Tiled (X ++ ⟨m, none⟩ :: Y)) (hgap : p + s.size p ≠ l.start + span X) :
    Heap l { s₁.joinPrevious (l.start + span X) p with freep := p } (X ++ ⟨m, none⟩ :: Y) := by
  have hbelow := l.below
  have hbefore := h.before
  have heq : s₁.joinPrevious (l.start + span X) p = s₁.setPtr p (l.start + span X) := by
    unfold State.joinPrevious
    rw [h.touched.size p (by omega), if_neg hgap]
  rw [heq]
  have htouched := touched_setPtr s₁ p (l.start + span X)
  generalize hs₂ : s₁.setPtr p (l.start + span X) = s₂ at *
  have hsize : ∀ r, s₂.size r = s₁.size r := by
    intro r
    rw [← hs₂, State.size_setPtr]
  refine Heap.of_free ht ?_ (fun x hx => ?_) ?_ (fun x hx => ?_) ?_ ?_ ?_ ?_
  · rw [show ({ s₂ with freep := p } : State).brk = s₂.brk from rfl, htouched.brk, h.touched.brk, h.brk]
    simp only [span_append, span]
    omega
  · obtain ⟨hlt, hx⟩ := h.sizesX x hx
    rw [← hx, ← h.touched.size _ (by omega)]
    exact hsize _
  · rw [← h.size]
    exact hsize _
  · obtain ⟨hlt, hx⟩ := h.sizesY x hx
    rw [← hx, ← h.touched.size _ (by omega)]
    exact hsize _
  · rw [← h.base, ← h.touched.size _ (by omega)]
    exact hsize _
  · rw [h.last]
    refine path_join (h.there.congr fun r hr => ?_) ?_
    · have hlt := h.early r hr
      exact (htouched.ptr r (by omega)).trans (h.touched.ptr r (by omega))
    · change s₂.ptr p = _
      rw [← hs₂, State.ptr_setPtr_self]
  · change Path s₂.ptr (s₂.ptr _) _ _
    rw [htouched.ptr _ (by omega)]
    refine h.rest.congr fun r hr => ?_
    have hlt := h.late r hr
    exact (htouched.ptr r (by omega)).trans (h.touched.ptr r (by omega))
  · rw [h.last]
    simp

/-- Or it joins the block before it. -/
theorem Joining.both {s₁ : State} {A : List Nat} {k : Nat}
    (h : Joining l s s₁ (X ++ [⟨k, none⟩]) A p m Y) (ht : Tiled (X ++ ⟨k + m, none⟩ :: Y)) :
    Heap l { s₁.joinPrevious (l.start + span (X ++ [⟨k, none⟩])) p with freep := p }
      (X ++ ⟨k + m, none⟩ :: Y) := by
  have hbelow := l.below
  have hbefore := h.before
  obtain ⟨rfl, hp⟩ : l.base :: frees l.start X = A ∧ [l.start + span X] = [p] := by
    refine List.append_inj' ?_ rfl
    rw [← h.last, frees_append, frees_free, frees_nil, ← List.cons_append]
  obtain rfl : l.start + span X = p := List.cons.inj hp |>.1
  have hk : s.size (l.start + span X) = k := by
    refine (h.sizesX (l.start + span X, ⟨k, none⟩) ?_).2
    simp [placed]
  have hbp : l.start + span (X ++ [⟨k, none⟩]) = l.start + span X + k := by
    simp only [span_append, span]
    omega
  have hlt := ht.small
  have heq : s₁.joinPrevious (l.start + span (X ++ [⟨k, none⟩])) (l.start + span X) =
      (s₁.setSize (l.start + span X) (k + m)).setPtr (l.start + span X)
        (s₁.ptr (l.start + span (X ++ [⟨k, none⟩]))) := by
    unfold State.joinPrevious
    rw [h.touched.size _ (by omega), hk, if_pos hbp.symm, h.size, uint_of_lt]
    simp only [span_append, span] at hlt
    omega
  rw [heq]
  have htouched := touched_set s₁ (l.start + span X) (k + m)
    (s₁.ptr (l.start + span (X ++ [⟨k, none⟩])))
  generalize hs₂ : (s₁.setSize (l.start + span X) (k + m)).setPtr (l.start + span X)
    (s₁.ptr (l.start + span (X ++ [⟨k, none⟩]))) = s₂ at *
  have hend : l.start + span X + (k + m) = l.start + span (X ++ [⟨k, none⟩]) + m := by omega
  refine Heap.of_free ht ?_ (fun x hx => ?_) ?_ (fun x hx => ?_) ?_ ?_ ?_ ?_
  · rw [show ({ s₂ with freep := l.start + span X } : State).brk = s₂.brk from rfl, htouched.brk,
      h.touched.brk, h.brk]
    simp only [span_append, span]
    omega
  · have hxlt : x.1 < l.start + span X := placed_lt (fun t hX => ht.pos t (by simp [hX])) hx
    have hx := (h.sizesX x (by simp [hx])).2
    rw [← hx, ← h.touched.size _ (by omega)]
    exact htouched.size _ (by omega)
  · change s₂.size _ = _
    rw [← hs₂, State.size_setPtr, State.size_setSize_self]
  · rw [hend] at hx
    obtain ⟨hlt, hx⟩ := h.sizesY x hx
    rw [← hx, ← h.touched.size _ (by omega)]
    exact htouched.size _ (by omega)
  · rw [← h.base, ← h.touched.size _ (by omega)]
    exact htouched.size _ (by omega)
  · refine h.there.congr fun r hr => ?_
    have hlt := h.early r hr
    exact (htouched.ptr r (by omega)).trans (h.touched.ptr r (by omega))
  · have hjump : s₂.ptr (l.start + span X) = s₁.ptr (l.start + span (X ++ [⟨k, none⟩])) := by
      rw [← hs₂, State.ptr_setPtr_self]
    change Path s₂.ptr (s₂.ptr _) _ _
    rw [hjump, hend]
    refine h.rest.congr fun r hr => ?_
    have hlt := h.late r hr
    exact (htouched.ptr r (by omega)).trans (h.touched.ptr r (by omega))
  · simp

theorem Heap.joining (h : Heap l s (X ++ ⟨m, some n⟩ :: (Z ++ Y))) {s₁ : State} {A : List Nat}
    (hp : l.base :: frees l.start X = A ++ [p]) (htouched : Touched s s₁ (l.start + span X))
    (hsize : s₁.size (l.start + span X) = m + span Z)
    (hptr : s₁.ptr (l.start + span X) = (frees (l.start + span X + m + span Z) Y).headD l.base) :
    Joining l s s₁ X A p (m + span Z) Y := by
  have hm := h.tiled.pos ⟨m, some n⟩ (by simp)
  have hring := h.ring
  have hsorted := h.sorted
  rw [ring_eq hp] at hring hsorted
  obtain ⟨hto, hfrom⟩ := path_split hring
  rw [frees_append] at hfrom
  obtain ⟨w, -, hrest⟩ := path_append.mp hfrom
  simp only at hm
  refine ⟨hp, fun r hr => ?_, h.before hp (by simp), fun r hr => ?_, fun x hx => ⟨?_, ?_⟩,
    fun x hx => ⟨?_, ?_⟩, h.base, ?_, hto, ?_, htouched, hsize⟩
  · exact (List.pairwise_append.mp hsorted).2.2 r hr p List.mem_cons_self
  · have hin := mem_frees_bounds hr
    omega
  · exact placed_lt (fun t ht => h.tiled.pos t (by simp [ht])) hx
  · exact h.sizes x (by simp [hx])
  · have hin := mem_placed hx
    omega
  · refine h.sizes x ?_
    rw [← Nat.add_assoc] at hx
    simp [placed, hx]
  · have hbrk := h.brk
    simp only [span_append, span] at hbrk
    omega
  · rw [hptr, ← hrest.head_eq, ← Nat.add_assoc]
    exact hrest

/-- `free` returns. The block is free then, by itself or as a part of a bigger one. -/
theorem Heap.free_at (h : Heap l s (X ++ ⟨m, some n⟩ :: Y))
    (hk : (l.base :: frees l.start (X ++ ⟨m, some n⟩ :: Y)).length ≤ b + 257) :
    ∃ s' bs, free { s with brk := b } (l.start + span X + 1) = some { s' with brk := b } ∧
      Heap l s' bs ∧ s'.brk = s.brk ∧ s'.live = s.live ∧
      lives l.start bs = lives l.start X ++ lives (l.start + span X + m) Y ∧
      ∃ x ∈ placed l.start bs, x.2.kind = none ∧ m ≤ x.2.size := by
  obtain ⟨A, p, hp⟩ : ∃ A p, l.base :: frees l.start X = A ++ [p] := by
    rcases List.eq_nil_or_concat (l.base :: frees l.start X) with hnil | ⟨A, p, hp⟩
    · cases hnil
    · exact ⟨A, p, hp.trans (List.concat_eq_append ..)⟩
  obtain ⟨Z, Y', rfl, hZ, hY', htouched, hsize, hptr⟩ := h.joinNext hp
  have hjoin := h.joining hp htouched hsize hptr
  have hlives : lives (l.start + span X + m) (Z ++ Y') =
      lives (l.start + span X + (m + span Z)) Y' := by
    rw [lives_append, lives_of_free hZ, List.nil_append, Nat.add_assoc _ m]
  have hfields : ∀ s₁ : State, (s₁.joinPrevious (l.start + span X) p).brk = s₁.brk ∧
      (s₁.joinPrevious (l.start + span X) p).live = s₁.live := by
    intro s₁
    unfold State.joinPrevious
    split <;> exact ⟨rfl, rfl⟩
  have hbrk := (hfields (s.joinNext (l.start + span X) p)).1.trans htouched.brk
  have hlive := (hfields (s.joinNext (l.start + span X) p)).2.trans htouched.live
  by_cases hlast : ∀ t ∈ X.getLast?, t.kind ≠ none
  · have ht : Tiled (X ++ ⟨m + span Z, none⟩ :: Y') := by
      refine Tiled.freed (Z := []) (W := Z) (m := m) (n := n) ?_ hlast rfl hY' ?_
      · rw [List.append_nil]
        exact h.tiled
      · simp [span]
    refine ⟨_, _, h.free_eq hp hk, hjoin.alone ht (h.gap_before hp hlast), hbrk, hlive, ?_,
      (l.start + span X, ⟨m + span Z, none⟩), by simp [placed], rfl, Nat.le_add_right ..⟩
    rw [lives_append, lives_free, hlives]
  · -- the block before is free
    push Not at hlast
    obtain ⟨⟨k, kind⟩, hmem, hkind⟩ := hlast
    obtain ⟨X', rfl⟩ := List.getLast?_eq_some_iff.mp hmem
    simp only at hkind
    subst hkind
    have hX' : ∀ t ∈ X'.getLast?, t.kind ≠ none := by
      intro t ht
      have hchain := List.isChain_append.mp (List.isChain_append.mp h.tiled.apart).1
      exact (hchain.2.2 t ht ⟨k, none⟩ (by simp)).resolve_right (by simp)
    have ht : Tiled (X' ++ ⟨k + (m + span Z), none⟩ :: Y') := by
      refine Tiled.freed (Z := [⟨k, none⟩]) (W := Z) (m := m) (n := n) h.tiled hX' rfl hY' ?_
      simp only [span]
      omega
    refine ⟨_, _, h.free_eq hp hk, hjoin.both ht, hbrk, hlive, ?_,
      (l.start + span X', ⟨k + (m + span Z), none⟩), by simp [placed], rfl, ?_⟩
    · have hend : l.start + span X' + (k + (m + span Z)) =
          l.start + span (X' ++ [⟨k, none⟩]) + (m + span Z) := by
        simp only [span_append, span]
        omega
      rw [hlives, lives_append, lives_append, lives_free, lives_free, hend]
      simp [lives, placed]
    · simp only
      omega

theorem Heap.free (h : Heap l s (X ++ ⟨m, some n⟩ :: Y)) :
    ∃ s' bs, free s (l.start + span X + 1) = some s' ∧ Heap l s' bs ∧ s'.brk = s.brk ∧
      s'.live = s.live ∧ lives l.start bs = lives l.start X ++ lives (l.start + span X + m) Y := by
  have hlen := h.length_le
  obtain ⟨s', bs, hfree, hheap, hbrk, hlive, hlives, -⟩ := h.free_at (b := s.brk) (by omega)
  refine ⟨_, bs, hfree, ?_, rfl, hlive, hlives⟩
  rw [← hbrk]
  exact hheap

/-! ## malloc -/

/-- The node before a free block in the list. -/
theorem Heap.previous {k : Nat} (h : Heap l s (X ++ ⟨k, none⟩ :: Y))
    (hq : q ∈ l.base :: frees l.start (X ++ ⟨k, none⟩ :: Y)) (hptr : s.ptr q = l.start + span X) :
    ∃ A, l.base :: frees l.start X = A ++ [q] := by
  have hbelow := l.below
  have hnodup : (l.base :: frees l.start (X ++ ⟨k, none⟩ :: Y)).Nodup :=
    h.sorted.imp fun hlt => Nat.ne_of_lt hlt
  obtain ⟨B, C, hB⟩ := List.append_of_mem hq
  have hhead := h.ptr_eq hB
  rw [hptr] at hhead
  cases C with
  | nil =>
    change _ = l.base at hhead
    omega
  | cons c C =>
    obtain rfl : l.start + span X = c := hhead
    have htwo : (l.base :: frees l.start X) ++ (l.start + span X) :: frees (l.start + span X + k) Y =
        (B ++ [q]) ++ (l.start + span X) :: C := by
      rw [List.append_assoc, List.singleton_append, ← hB, frees_append, frees_free, List.cons_append]
    rw [frees_append, frees_free, ← List.cons_append, List.nodup_append] at hnodup
    refine ⟨B, ((List.append_cons_inj_of_notMem (fun hmem => ?_) (List.nodup_cons.mp hnodup.2.1).1).mp htwo).1⟩
    exact hnodup.2.2 _ hmem _ List.mem_cons_self rfl

theorem Tiled.taken {k nu : Nat} (h : Tiled (X ++ ⟨k, none⟩ :: Y)) (hk : nu ≤ k) (hnu : 0 < nu)
    (hn : n ≤ (nu - 1) * 16) :
    (k = nu → Tiled (X ++ ⟨nu, some n⟩ :: Y)) ∧
      (k ≠ nu → Tiled (X ++ ⟨k - nu, none⟩ :: ⟨nu, some n⟩ :: Y)) := by
  have hX : ∀ t ∈ X, t ∈ X ++ ⟨k, none⟩ :: Y := by simp_all
  have hY : ∀ t ∈ Y, t ∈ X ++ ⟨k, none⟩ :: Y := by simp_all
  have hsmall := h.small
  have hchain := List.isChain_append.mp h.apart
  rw [List.isChain_cons] at hchain
  rw [span_append, span] at hsmall
  constructor
  · rintro rfl
    refine ⟨fun t ht => ?_, fun t ht n' hn' => ?_, ?_, ?_⟩
    · simp only [List.mem_append, List.mem_cons] at ht
      rcases ht with ht | rfl | ht
      · exact h.pos t (hX t ht)
      · exact hnu
      · exact h.pos t (hY t ht)
    · simp only [List.mem_append, List.mem_cons] at ht
      rcases ht with ht | rfl | ht
      · exact h.enough t (hX t ht) n' hn'
      · cases hn'
        exact hn
      · exact h.enough t (hY t ht) n' hn'
    · rw [List.isChain_append, List.isChain_cons]
      refine ⟨hchain.1, ⟨fun _ _ => Or.inl (by simp), hchain.2.1.2⟩, fun _ _ t ht => ?_⟩
      cases ht
      exact Or.inr (by simp)
    · rw [span_append, span]
      exact hsmall
  · intro hne
    refine ⟨fun t ht => ?_, fun t ht n' hn' => ?_, ?_, ?_⟩
    · simp only [List.mem_append, List.mem_cons] at ht
      rcases ht with ht | rfl | rfl | ht
      · exact h.pos t (hX t ht)
      · simp only
        omega
      · exact hnu
      · exact h.pos t (hY t ht)
    · simp only [List.mem_append, List.mem_cons] at ht
      rcases ht with ht | rfl | rfl | ht
      · exact h.enough t (hX t ht) n' hn'
      · cases hn'
      · cases hn'
        exact hn
      · exact h.enough t (hY t ht) n' hn'
    · rw [List.isChain_append, List.isChain_cons_cons, List.isChain_cons]
      refine ⟨hchain.1, ⟨Or.inr (by simp), fun _ _ => Or.inl (by simp), hchain.2.1.2⟩, fun t ht u hu => ?_⟩
      cases hu
      exact Or.inl ((hchain.2.2 t ht _ rfl).resolve_right (by simp))
    · rw [span_append, span, span]
      simp only at hsmall ⊢
      omega

/-- `malloc` takes a block that is big enough, or its tail. -/
theorem Heap.take {k nu : Nat} (h : Heap l s (X ++ ⟨k, none⟩ :: Y)) (hk : nu ≤ k) (hnu : 0 < nu)
    (hn : n ≤ (nu - 1) * 16) (hq : q ∈ l.base :: frees l.start (X ++ ⟨k, none⟩ :: Y))
    (hptr : s.ptr q = l.start + span X) :
    ∃ bs, Heap l (s.take nu q (l.start + span X)).1 bs ∧
      (s.take nu q (l.start + span X)).1.live = s.live ∧
      (s.take nu q (l.start + span X)).1.brk = s.brk ∧
      List.Perm (lives l.start bs) (((s.take nu q (l.start + span X)).2 - 1, n) ::
        lives l.start (X ++ ⟨k, none⟩ :: Y)) := by
  obtain ⟨A, hA⟩ := h.previous hq hptr
  have hbelow := l.below
  have hsize : s.size (l.start + span X) = k := h.size_at
  have hbrk := h.brk
  rw [span_append, span] at hbrk
  unfold State.take
  rw [hsize]
  by_cases heq : k = nu
  · subst heq
    rw [if_pos rfl]
    have hring := h.ring
    have hsorted := h.sorted
    have hnodes : l.base :: frees l.start (X ++ ⟨k, none⟩ :: Y) =
        A ++ q :: (l.start + span X) :: frees (l.start + span X + k) Y := by
      rw [frees_append, frees_free, ← List.cons_append, hA, List.append_assoc]
      rfl
    rw [hnodes] at hring hsorted
    obtain ⟨hto, -, hfrom⟩ := path_split hring
    rw [hptr] at hfrom
    obtain ⟨-, hafter, hbefore⟩ := List.pairwise_append.mp hsorted
    refine ⟨X ++ ⟨k, some n⟩ :: Y, ⟨(h.tiled.taken hk hnu hn).1 rfl, ?_, fun x hx => ?_, ?_, ?_, ?_⟩,
      rfl, rfl, ?_⟩
    · rw [span_append, span]
      exact hbrk
    · change (s.setPtr q (s.ptr (l.start + span X))).size x.1 = x.2.size
      rw [State.size_setPtr]
      rw [placed_append, placed] at hx
      rcases List.mem_append.mp hx with hx | hx
      · exact h.sizes x (by simp [hx])
      · rcases List.mem_cons.mp hx with rfl | hx
        · exact hsize
        · exact h.sizes x (by simp [placed, hx])
    · change (s.setPtr q (s.ptr (l.start + span X))).size l.base = 0
      rw [State.size_setPtr, h.base]
    · -- the list without the block
      change Path (s.setPtr q (s.ptr (l.start + span X))).ptr _ _ _
      rw [ring_eq hA]
      refine path_join (hto.congr fun r hr => ?_) ?_
      · have hlt := hbefore r hr q List.mem_cons_self
        exact State.ptr_setPtr_of_ne (by omega)
      · rw [State.ptr_setPtr_self]
        refine hfrom.congr fun r hr => ?_
        have hlt := (List.pairwise_cons.mp hafter).1 r (List.mem_cons_of_mem _ hr)
        exact State.ptr_setPtr_of_ne (by omega)
    · change q ∈ _
      rw [ring_eq hA]
      simp
    · rw [lives_append, lives_live, lives_append, lives_free]
      exact List.perm_middle
  · rw [if_neg heq]
    simp only [State.size_setSize_self]
    have hne : l.start + span X + (k - nu) ≠ l.start + span X := by omega
    have hend : l.start + span X + (k - nu) + nu = l.start + span X + k := by omega
    refine ⟨X ++ ⟨k - nu, none⟩ :: ⟨nu, some n⟩ :: Y,
      ⟨(h.tiled.taken hk hnu hn).2 heq, ?_, fun x hx => ?_, ?_, ?_, ?_⟩, rfl, rfl, ?_⟩
    · change s.brk = _
      simp only [span_append, span]
      simp only at hbrk
      omega
    · change ((s.setSize _ _).setSize _ _).size x.1 = x.2.size
      rw [placed_append, placed, placed, hend] at hx
      rcases List.mem_append.mp hx with hx | hx
      · have hlt := placed_lt (fun t ht => h.tiled.pos t (by simp [ht])) hx
        rw [State.size_setSize_of_ne (by omega), State.size_setSize_of_ne (by omega)]
        exact h.sizes x (by simp [hx])
      · rcases List.mem_cons.mp hx with rfl | hx
        · rw [State.size_setSize_of_ne hne.symm, State.size_setSize_self]
        · rcases List.mem_cons.mp hx with rfl | hx
          · rw [State.size_setSize_self]
          · have hin := mem_placed hx
            rw [State.size_setSize_of_ne (by omega), State.size_setSize_of_ne (by omega)]
            exact h.sizes x (by simp [placed, hx])
    · change ((s.setSize _ _).setSize _ _).size l.base = 0
      rw [State.size_setSize_of_ne (by omega), State.size_setSize_of_ne (by omega), h.base]
    · have hring := h.ring
      rw [frees_append, frees_free] at hring ⊢
      rw [frees_live, hend]
      refine hring.congr fun r _ => ?_
      change ((s.setSize _ _).setSize _ _).ptr r = s.ptr r
      rw [State.ptr_setSize, State.ptr_setSize]
    · change q ∈ _
      rw [frees_append, frees_free] at hq ⊢
      rwa [frees_live, hend]
    · rw [lives_append, lives_free, lives_live, lives_append, lives_free, hend]
      exact List.perm_middle

/-- The loop of `malloc` on its way around the list, up to `freep`, finds a block that is big
enough. -/
theorem mallocLoop_found {R C : List Nat} {k nu z : Nat} (answers : List Bool)
    (hpath : Path s.ptr p (C ++ [s.freep]) z) (hC : s.freep ∉ C) (hsub : ∀ y ∈ C ++ [s.freep], y ∈ R)
    (hbig : ∃ y ∈ C ++ [s.freep], nu ≤ s.size y) (hq : q ∈ R) (hptr : s.ptr q = p) (hk : C.length < k) :
    ∃ q' p', q' ∈ R ∧ s.ptr q' = p' ∧ p' ∈ R ∧ nu ≤ s.size p' ∧
      mallocLoop l nu k s answers q p = some ((s.take nu q' p').1, some (s.take nu q' p').2) := by
  induction C generalizing p q k with
  | nil =>
    obtain ⟨k, rfl⟩ : ∃ k', k = k' + 1 := ⟨k - 1, by simp only [List.length_nil] at hk; omega⟩
    obtain ⟨rfl, -⟩ := hpath
    obtain ⟨y, hy, hsize⟩ := hbig
    rw [List.nil_append, List.mem_singleton] at hy
    subst hy
    refine ⟨q, s.freep, hq, hptr, hsub _ (by simp), hsize, ?_⟩
    unfold mallocLoop
    rw [if_pos hsize]
  | cons c C ih =>
    obtain ⟨k, rfl⟩ : ∃ k', k = k' + 1 := ⟨k - 1, by simp only [List.length_cons] at hk; omega⟩
    obtain ⟨rfl, hpath⟩ := hpath
    by_cases hp : nu ≤ s.size p
    · refine ⟨q, p, hq, hptr, hsub _ (by simp), hp, ?_⟩
      unfold mallocLoop
      rw [if_pos hp]
    · unfold mallocLoop
      rw [if_neg hp, if_neg fun heq => hC (by rw [heq]; exact List.mem_cons_self)]
      refine ih hpath (fun hmem => hC (List.mem_cons_of_mem _ hmem))
        (fun y hy => hsub y (List.mem_cons_of_mem _ hy)) ?_ (hsub _ (by simp)) rfl ?_
      · obtain ⟨y, hy, hsize⟩ := hbig
        rcases List.mem_cons.mp hy with rfl | hy
        · exact absurd hsize hp
        · exact ⟨y, hy, hsize⟩
      · rw [List.length_cons] at hk
        omega

/-- Where there is none, it comes to `freep` and asks for more. -/
theorem mallocLoop_full {C : List Nat} {k nu z : Nat} (answers : List Bool)
    (hpath : Path s.ptr p (C ++ [s.freep]) z) (hC : s.freep ∉ C)
    (hsmall : ∀ y ∈ C ++ [s.freep], ¬ nu ≤ s.size y) :
    mallocLoop l nu (C.length + k + 1) s answers q p =
      match morecore l s nu answers with
      | none => none
      | some (s', _, none) => some (s', none)
      | some (s', answers', some p') => mallocLoop l nu k s' answers' p' (s'.ptr p') := by
  induction C generalizing p q with
  | nil =>
    obtain ⟨rfl, -⟩ := hpath
    rw [List.length_nil, Nat.zero_add, mallocLoop]
    refine (if_neg (hsmall _ (by simp))).trans ((if_pos rfl).trans ?_)
    rcases morecore l s nu answers with _ | ⟨_, _, _ | _⟩ <;> rfl
  | cons c C ih =>
    obtain ⟨rfl, hpath⟩ := hpath
    have hk : (p :: C).length + k + 1 = (C.length + k + 1) + 1 := by
      rw [List.length_cons]
      omega
    rw [hk, mallocLoop, if_neg (hsmall _ (by simp)),
      if_neg fun heq => hC (by rw [heq]; exact List.mem_cons_self)]
    exact ih hpath (fun hmem => hC (List.mem_cons_of_mem _ hmem))
      fun y hy => hsmall y (List.mem_cons_of_mem _ hy)

/-- The list from behind `freep` around to `freep`. -/
theorem Heap.around (h : Heap l s bs) : ∃ C z, Path s.ptr (s.ptr s.freep) (C ++ [s.freep]) z ∧
    s.freep ∉ C ∧ (∀ y, y ∈ C ++ [s.freep] ↔ y ∈ l.base :: frees l.start bs) ∧ C.length ≤ s.brk := by
  have hnodup : (l.base :: frees l.start bs).Nodup := h.sorted.imp fun hlt => Nat.ne_of_lt hlt
  have hlen := h.length_le
  have hring := h.ring
  obtain ⟨B, C, hB⟩ := List.append_of_mem h.freep
  rw [hB] at hnodup hlen hring
  obtain ⟨hto, hfrom⟩ := path_split hring
  refine ⟨C ++ B, s.ptr s.freep, ?_, ?_, fun y => ?_, ?_⟩
  · exact path_append.mpr ⟨s.freep, path_append.mpr ⟨l.base, hfrom, hto⟩, rfl, rfl⟩
  · rw [List.nodup_append, List.nodup_cons] at hnodup
    intro hmem
    rcases List.mem_append.mp hmem with hC | hC
    · exact hnodup.2.1.1 hC
    · exact hnodup.2.2 _ hC _ List.mem_cons_self rfl
  · rw [hB]
    simp only [List.mem_append, List.mem_cons, List.not_mem_nil, or_false]
    tauto
  · simp only [List.length_append, List.length_cons] at hlen ⊢
    omega

/-- New memory behind the last block. -/
theorem Heap.grow {nu : Nat} (h : Heap l s bs) (hnu : 0 < nu)
    (hlimit : span bs + nu < 4294967296) :
    Heap l (({ s with brk := s.brk + nu } : State).setSize s.brk nu) (bs ++ [⟨nu, some 0⟩]) := by
  have hbelow := l.below
  have hbrk := h.brk
  refine ⟨⟨fun t ht => ?_, fun t ht n hn => ?_, ?_, ?_⟩, ?_, fun x hx => ?_, ?_, ?_, ?_⟩
  · rcases List.mem_append.mp ht with ht | ht
    · exact h.tiled.pos t ht
    · rw [List.mem_singleton.mp ht]
      exact hnu
  · rcases List.mem_append.mp ht with ht | ht
    · exact h.tiled.enough t ht n hn
    · rw [List.mem_singleton.mp ht] at hn
      cases hn
      exact Nat.zero_le _
  · rw [List.isChain_append]
    refine ⟨h.tiled.apart, .singleton _, fun _ _ t ht => ?_⟩
    cases ht
    exact Or.inr (by simp)
  · simp only [span_append, span]
    exact hlimit
  · change s.brk + nu = _
    simp only [span_append, span]
    omega
  · rw [placed_append, placed, placed] at hx
    rcases List.mem_append.mp hx with hx | hx
    · have hlt := placed_lt h.tiled.pos hx
      rw [State.size_setSize_of_ne (by omega)]
      exact h.sizes x hx
    · rw [List.mem_singleton.mp hx, ← hbrk, State.size_setSize_self]
  · rw [State.size_setSize_of_ne (by omega)]
    exact h.base
  · rw [frees_append, frees_live, frees_nil, List.append_nil]
    exact h.ring.congr fun r _ => State.ptr_setSize
  · rw [frees_append, frees_live, frees_nil, List.append_nil]
    exact h.freep

/-- A header behind the last block makes it a free block, wherever the end of the memory is. -/
theorem Heap.recorded {nu : Nat} (h : Heap l s bs) (hnu : 0 < nu) (hlimit : span bs + nu < 4294967296)
    (hb : s.brk ≤ b + 256) :
    ∃ s' bs', umalloc.free (({ s with brk := b } : State).setSize s.brk nu) (s.brk + 1) =
        some { s' with brk := b } ∧
      Heap l s' bs' ∧ s'.brk = s.brk + nu ∧ s'.live = s.live ∧ lives l.start bs' = lives l.start bs ∧
      ∃ y ∈ l.base :: frees l.start bs', nu ≤ s'.size y := by
  have hlen := h.length_le
  have hk : (l.base :: frees l.start (bs ++ [⟨nu, some 0⟩])).length ≤ b + 257 := by
    rw [frees_append, frees_live, frees_nil, List.append_nil]
    omega
  obtain ⟨s', bs', hfree, hheap, hbrk, hlive, hlives, ⟨y, m, k⟩, hy, hkind, hsize⟩ :=
    (h.grow hnu hlimit).free_at hk
  rw [← h.brk] at hfree
  refine ⟨s', bs', hfree, hheap, hbrk, hlive, ?_, y, ?_, ?_⟩
  · rw [hlives]
    exact List.append_nil _
  · simp only at hkind
    subst hkind
    exact List.mem_cons_of_mem _ (mem_frees.mpr ⟨m, hy⟩)
  · rw [hheap.sizes _ hy]
    exact hsize

theorem coreUnits_spec (nu : Nat) : 0 < coreUnits nu ∧ nu ≤ coreUnits nu := by
  unfold coreUnits
  split <;> omega

/-- An `int` has the bytes of fewer than 2 ^ 27 units. -/
theorem int_of_lt {nu : Nat} (h : nu < 134217728) : int (nu * 16) = nu * 16 := by
  unfold int
  rw [uint_of_lt (by omega), if_pos (by omega)]
  exact Int.natCast_mul nu 16

theorem coreUnits_lt {nu : Nat} (h : nu < 134217728) : coreUnits nu < 134217728 := by
  unfold coreUnits
  split <;> omega

/-- The memory of the heap is not more than there is. -/
def Limited (l : Layout) (s : State) : Prop := (s.brk - l.start) * 16 ≤ PHYSTOP - KERNBASE

/-- `morecore` fails and changes nothing, or there is a free block that is big enough. -/
theorem Heap.morecore (h : Heap l s bs) {nu : Nat} (hnu : nu < 134217728) (answers : List Bool) :
    (∃ answers', morecore l s nu answers = some (s, answers', none)) ∨
      ∃ s' answers' bs', morecore l s nu answers = some (s', answers', some s'.freep) ∧
        Heap l s' bs' ∧ s'.brk = s.brk + coreUnits nu ∧ Limited l s' ∧ s'.live = s.live ∧
        lives l.start bs' = lives l.start bs ∧ ∃ y ∈ l.base :: frees l.start bs', nu ≤ s'.size y := by
  obtain ⟨hpos, hle⟩ := coreUnits_spec nu
  have hlt := coreUnits_lt hnu
  have hn : (0 : Int) < (coreUnits nu : Int) * 16 := by omega
  have hunits : ((coreUnits nu : Int) * 16).toNat / 16 = coreUnits nu := by omega
  unfold umalloc.morecore
  simp only [int_of_lt hlt, sbrk, if_pos hn, hunits]
  rcases answers with _ | ⟨_ | _, answers⟩
  · exact Or.inl ⟨_, rfl⟩
  · exact Or.inl ⟨_, rfl⟩
  · by_cases hlimit : (s.brk + coreUnits nu - l.start) * 16 ≤ PHYSTOP - KERNBASE
    · have hbrk := h.brk
      have hphys : PHYSTOP - KERNBASE = 134217728 := by decide
      have hmapped : ({ s with brk := s.brk + coreUnits nu } : State).mapped s.brk := by
        unfold State.mapped
        simp only
        omega
      obtain ⟨s', bs', hfree, hheap, hbrk', hlive, hlives, y, hy, hsize⟩ :=
        h.recorded hpos (b := s.brk + coreUnits nu) (by omega) (by omega)
      simp only [if_pos hlimit, if_pos hmapped, hfree]
      rw [← hbrk'] at hlimit ⊢
      exact Or.inr ⟨s', answers, bs', rfl, hheap, rfl, hlimit, hlive, hlives, y, hy, by omega⟩
    · simp only [if_neg hlimit]
      exact Or.inl ⟨_, rfl⟩

/-- A block of the list that is big enough is taken. -/
theorem Heap.takes_at {k nu : Nat} (h : Heap l s bs) (hnu : 0 < nu) (hn : n ≤ (nu - 1) * 16)
    (hbig : ∃ y ∈ l.base :: frees l.start bs, nu ≤ s.size y) (hk : s.brk < k) (answers : List Bool) :
    ∃ s' ap bs', mallocLoop l nu k { s with brk := b } answers s.freep (s.ptr s.freep) =
        some ({ s' with brk := b }, some ap) ∧
      Heap l s' bs' ∧ s'.live = s.live ∧ s'.brk = s.brk ∧
      List.Perm (lives l.start bs') ((ap - 1, n) :: lives l.start bs) := by
  obtain ⟨C, z, hpath, hC, hmem, hlen⟩ := h.around
  obtain ⟨y, hy, hsize⟩ := hbig
  obtain ⟨q, p, hq, hptr, hp, hbig, heq⟩ := mallocLoop_found (s := { s with brk := b }) (l := l) (k := k)
    answers hpath hC (fun y hy => (hmem y).mp hy) ⟨y, (hmem y).mpr hy, hsize⟩ h.freep rfl (by omega)
  rw [State.take_brk] at heq
  rcases List.mem_cons.mp hp with rfl | hfree
  · change nu ≤ s.size l.base at hbig
    rw [h.base] at hbig
    omega
  · obtain ⟨m, hplaced⟩ := mem_frees.mp hfree
    have hm := h.sizes _ hplaced
    obtain ⟨X, Y, rfl, hX⟩ := placed_split hplaced
    simp only at hX hm hptr
    subst hX
    obtain ⟨bs', hheap, hlive, hbrk, hperm⟩ := h.take (hm ▸ hbig) hnu hn hq hptr
    exact ⟨_, _, bs', heq, hheap, hlive, hbrk, hperm⟩

/-- Where no block is big enough, `malloc` asks for more. -/
theorem Heap.asks {nu k : Nat} (h : Heap l s bs) (hk : 2 * s.brk < k) (answers : List Bool)
    (hbig : ¬ ∃ y ∈ l.base :: frees l.start bs, nu ≤ s.size y) :
    ∃ k', k ≤ k' + s.brk + 1 ∧ mallocLoop l nu k s answers s.freep (s.ptr s.freep) =
      match umalloc.morecore l s nu answers with
      | none => none
      | some (s', _, none) => some (s', none)
      | some (s', answers', some p') => mallocLoop l nu k' s' answers' p' (s'.ptr p') := by
  obtain ⟨C, z, hpath, hC, hmem, hlen⟩ := h.around
  have hfuel : k = C.length + (k - 1 - C.length) + 1 := by omega
  have hsmall : ∀ y ∈ C ++ [s.freep], ¬ nu ≤ s.size y :=
    fun y hy hle => hbig ⟨y, (hmem y).mp hy, hle⟩
  refine ⟨k - 1 - C.length, by omega, ?_⟩
  nth_rewrite 1 [hfuel]
  exact mallocLoop_full answers hpath hC hsmall

/-- `malloc` returns: a new block, or none with the blocks as they were. -/
theorem Heap.malloc {nu : Nat} (h : Heap l s bs) (hnu : 0 < nu) (hint : nu < 134217728)
    (hn : n ≤ (nu - 1) * 16) (answers : List Bool) :
    ∃ s' r bs', mallocLoop l nu (2 * s.brk + coreUnits nu + 2) s answers s.freep (s.ptr s.freep) =
        some (s', r) ∧ Heap l s' bs' ∧ (Limited l s → Limited l s') ∧ s'.live = s.live ∧
      List.Perm (lives l.start bs')
        ((r.map fun ap => (ap - 1, n)).toList ++ lives l.start bs) := by
  by_cases hbig : ∃ y ∈ l.base :: frees l.start bs, nu ≤ s.size y
  · obtain ⟨s', ap, bs', heq, hheap, hlive, hbrk, hperm⟩ := h.takes_at (b := s.brk) hnu hn hbig
      (k := 2 * s.brk + coreUnits nu + 2) (by omega) answers
    refine ⟨{ s' with brk := s.brk }, some ap, bs', heq, ?_, id, hlive, hperm⟩
    rw [← hbrk]
    exact hheap
  · obtain ⟨k, hk, hasks⟩ := h.asks (k := 2 * s.brk + coreUnits nu + 2) (by omega) answers hbig
    rw [hasks]
    rcases h.morecore hint answers with ⟨answers', heq⟩ |
      ⟨s', answers', bs', heq, hheap, hbrk, hlimit, hlive, hlives, hfound⟩
    · exact ⟨s, none, bs, by rw [heq], h, id, rfl, List.Perm.refl _⟩
    · obtain ⟨s'', ap, bs'', heq', hheap', hlive', hbrk', hperm⟩ :=
        hheap.takes_at (b := s'.brk) hnu hn hfound (k := k) (by omega) answers'
      refine ⟨{ s'' with brk := s'.brk }, some ap, bs'', ?_, ?_, fun _ => hlimit, hlive'.trans hlive, ?_⟩
      · rw [heq]
        exact heq'
      · rw [← hbrk']
        exact hheap'
      · rw [hlives] at hperm
        exact hperm

/-! ## Programs -/

/-- A state that a program reaches: nothing has been allocated, or there is a heap whose live
blocks are the ones that the program has. -/
def Reached (l : Layout) (s : State) : Prop :=
  (s.freep = 0 ∧ s.brk = l.start ∧ s.live = []) ∨
    ∃ bs, Heap l s bs ∧ s.live.Perm (lives l.start bs)

theorem heap_begin (h0 : s.freep = 0) (hbrk : s.brk = l.start) : Heap l (s.begin l) [] := by
  unfold State.begin
  rw [if_pos h0]
  refine ⟨⟨by simp, by simp, .nil, by decide⟩, hbrk, by simp [placed], ?_, ⟨rfl, ?_⟩,
    List.mem_cons_self⟩
  · change ((s.setPtr _ _).setSize _ _).size _ = 0
    exact State.size_setSize_self
  · change ((s.setPtr _ _).setSize _ _).ptr _ = _
    rw [State.ptr_setSize, State.ptr_setPtr_self]

theorem Heap.begin_eq (h : Heap l s bs) : s.begin l = s := by
  have hpos := l.base_pos
  have hbelow := l.below
  unfold State.begin
  rw [if_neg]
  intro h0
  have hmem := h.freep
  rw [h0] at hmem
  rcases List.mem_cons.mp hmem with heq | hfree
  · omega
  · have hin := mem_frees_bounds hfree
    omega

theorem Reached.begin (h : Reached l s) :
    ∃ bs, Heap l (s.begin l) bs ∧ (s.begin l).live = s.live ∧ s.live.Perm (lives l.start bs) := by
  rcases h with ⟨h0, hbrk, hlive⟩ | ⟨bs, hheap, hperm⟩
  · refine ⟨[], heap_begin h0 hbrk, ?_, ?_⟩
    · unfold State.begin
      rw [if_pos h0]
      rfl
    · rw [hlive]
      exact List.Perm.refl _
  · exact ⟨bs, by rw [hheap.begin_eq]; exact hheap, by rw [hheap.begin_eq], hperm⟩

theorem nunits_spec {nbytes : Nat} (h : ((nbytes + 16 - 1) / 16 + 1) * 16 < 2147483648) :
    0 < nunits nbytes ∧ nunits nbytes < 134217728 ∧ nbytes ≤ (nunits nbytes - 1) * 16 := by
  unfold nunits
  rw [uint_of_lt (by omega)]
  omega

/-- The program writes to its own memory. -/
theorem Heap.store {u : Nat} {header : Header} (h : Heap l s bs) (hb : (b, n) ∈ lives l.start bs)
    (h1 : b < u) (h2 : (u - (b + 1)) * 16 < n) :
    Heap l { s with mem := Function.update s.mem u header } bs := by
  have hbelow := l.below
  obtain ⟨m, hplaced⟩ := mem_lives.mp hb
  have hin := mem_placed hplaced
  have hlt : u < b + m := by
    obtain ⟨before, after, rfl, -⟩ := placed_split hplaced
    have henough := h.tiled.enough ⟨m, some n⟩ (by simp) n rfl
    simp only at henough
    omega
  -- no header is there
  have hne : ∀ x ∈ placed l.start bs, x.1 ≠ u := by
    rintro x hx rfl
    obtain ⟨before, after, hsplit, -⟩ := placed_split hx
    have hpos := h.tiled.pos x.2 (by simp [hsplit])
    have heq := tile_unique hx hplaced (u := x.1) ⟨Nat.le_refl _, by omega⟩ ⟨Nat.le_of_lt h1, hlt⟩
    rw [heq] at h1
    exact Nat.lt_irrefl _ h1
  have hmem : ∀ r, r ≠ u → Function.update s.mem u header r = s.mem r :=
    fun r hr => Function.update_of_ne hr ..
  have hnode : ∀ r ∈ l.base :: frees l.start bs, r ≠ u := by
    intro r hr
    rcases List.mem_cons.mp hr with rfl | hr
    · simp only at hin
      omega
    · obtain ⟨k, hk⟩ := mem_frees.mp hr
      exact hne _ hk
  refine ⟨h.tiled, h.brk, fun x hx => ?_, ?_, h.ring.congr fun r hr => ?_, h.freep⟩
  · rw [← h.sizes x hx]
    exact congrArg Header.size (hmem _ (hne x hx))
  · rw [← h.base]
    exact congrArg Header.size (hmem _ (hnode _ List.mem_cons_self))
  · exact congrArg Header.ptr (hmem _ (hnode r hr))

theorem Reached.step {a : Act} (h : Reached l s) (hok : proper s a) :
    ∃ s', s.step l a = some s' ∧ Reached l s' := by
  cases a with
  | malloc nbytes answers =>
    obtain ⟨bs, hheap, hlive, hperm⟩ := h.begin
    obtain ⟨hpos, hint, henough⟩ := nunits_spec hok
    obtain ⟨s', r, bs', heq, hheap', -, hlive', hperm'⟩ := hheap.malloc hpos hint henough answers
    simp only [State.step, umalloc.malloc, heq]
    cases r with
    | none => exact ⟨_, rfl, Or.inr ⟨bs', hheap', hlive' ▸ hlive ▸ hperm.trans hperm'.symm⟩⟩
    | some ap =>
      refine ⟨_, rfl, Or.inr ⟨bs', ⟨hheap'.tiled, hheap'.brk, hheap'.sizes, hheap'.base,
        hheap'.ring, hheap'.freep⟩, ?_⟩⟩
      change List.Perm ((ap - 1, nbytes) :: s'.live) _
      rw [hlive', hlive]
      exact (hperm.cons _).trans hperm'.symm
  | free ap =>
    obtain ⟨⟨b, n⟩, hb, rfl⟩ := hok
    rcases h with ⟨-, -, hlive⟩ | ⟨bs, hheap, hperm⟩
    · rw [hlive] at hb
      cases hb
    · obtain ⟨m, hplaced⟩ := mem_lives.mp (hperm.mem_iff.mp hb)
      obtain ⟨X, Y, rfl, hX⟩ := placed_split hplaced
      simp only at hX hheap hperm ⊢
      subst hX
      obtain ⟨s', bs', heq, hheap', hbrk, hlive, hlives⟩ := hheap.free
      simp only [State.step, heq, Option.map_some]
      refine ⟨_, rfl, Or.inr ⟨bs', ⟨hheap'.tiled, hheap'.brk, hheap'.sizes, hheap'.base,
        hheap'.ring, hheap'.freep⟩, ?_⟩⟩
      change List.Perm (s'.live.filter _) _
      have hrest : (lives l.start (X ++ ⟨m, some n⟩ :: Y)).filter
          (fun x => x.1 ≠ l.start + span X + 1 - 1) = lives l.start bs' := by
        rw [hlives, Nat.add_sub_cancel, lives_append, lives_live, List.filter_append,
          List.filter_cons_of_neg (by simp)]
        congr 1
        · refine List.filter_eq_self.mpr fun x hx => ?_
          have hin := mem_lives_bounds (fun t ht => hheap.tiled.pos t (by simp [ht])) hx
          exact decide_eq_true (by omega)
        · refine List.filter_eq_self.mpr fun x hx => ?_
          have hin := mem_lives_bounds (fun t ht => hheap.tiled.pos t (by simp [ht])) hx
          have hm := hheap.tiled.pos ⟨m, some n⟩ (by simp)
          simp only at hm
          exact decide_eq_true (by omega)
      rw [hlive, ← hrest]
      exact hperm.filter _
  | store u header =>
    obtain ⟨⟨b, n⟩, hb, h1, h2⟩ := hok
    rcases h with ⟨-, -, hlive⟩ | ⟨bs, hheap, hperm⟩
    · rw [hlive] at hb
      cases hb
    · exact ⟨_, rfl, Or.inr ⟨bs, hheap.store (hperm.mem_iff.mp hb) h1 h2, hperm⟩⟩

/-! ## The result -/

/-- The live blocks and the free list are in order. -/
structure Sound (l : Layout) (s : State) (fs : List Nat) : Prop where
  disjoint : s.live.Pairwise fun x y => x.1 + s.size x.1 ≤ y.1 ∨ y.1 + s.size y.1 ≤ x.1
  inside : ∀ x ∈ s.live, l.start ≤ x.1 ∧ x.1 + s.size x.1 ≤ s.brk
  enough : ∀ x ∈ s.live, x.2 ≤ (s.size x.1 - 1) * 16
  /-- the list goes around, from `malloc`'s first call on -/
  circular : s.freep ≠ 0 → Path s.ptr l.base (l.base :: fs) l.base ∧ s.freep ∈ l.base :: fs
  /-- in the order of the addresses, and so with each node once -/
  ordered : (l.base :: fs).Pairwise (· < ·)
  apart : ∀ x ∈ fs, ∀ y ∈ fs, x + s.size x ≠ y
  free_inside : ∀ x ∈ fs, l.start ≤ x ∧ x + s.size x ≤ s.brk
  /-- no block is there twice -/
  once : (s.live.map Prod.fst ++ fs).Nodup
  units : ∀ u, l.start ≤ u → u < s.brk →
    ∃! x, x ∈ s.live.map Prod.fst ++ fs ∧ x ≤ u ∧ u < x + s.size x

theorem sound_fresh (hbrk : s.brk = l.start) (hlive : s.live = []) (h0 : s.freep = 0) :
    Sound l s [] where
  disjoint := by simp [hlive]
  inside := by simp [hlive]
  enough := by simp [hlive]
  circular hne := absurd h0 hne
  ordered := by simp
  apart := by simp
  free_inside := by simp
  once := by simp [hlive]
  units u h1 h2 := by omega

/-- The live and the free blocks together are all blocks. -/
theorem mem_lives_or_frees : b ∈ (lives a bs).map Prod.fst ++ frees a bs ↔
    ∃ t, (b, t) ∈ placed a bs := by
  rw [List.mem_append, List.mem_map, mem_frees]
  constructor
  · rintro (⟨⟨c, n⟩, hmem, rfl⟩ | ⟨m, hmem⟩)
    · obtain ⟨m, hplaced⟩ := mem_lives.mp hmem
      exact ⟨_, hplaced⟩
    · exact ⟨_, hmem⟩
  · rintro ⟨⟨m, _ | n⟩, hmem⟩
    · exact Or.inr ⟨m, hmem⟩
    · exact Or.inl ⟨(b, n), mem_lives.mpr ⟨m, hmem⟩, rfl⟩

/-- The addresses of the blocks are different. -/
theorem placed_inj {t t' : Block} (hpos : ∀ t ∈ bs, 0 < t.size) (h : (b, t) ∈ placed a bs)
    (h' : (b, t') ∈ placed a bs) : t = t' := by
  obtain ⟨before, after, rfl, -⟩ := placed_split h
  have ht := hpos t (by simp)
  obtain ⟨before', after', hsplit, -⟩ := placed_split h'
  have ht' := hpos t' (by rw [hsplit]; simp)
  have heq := tile_unique h h' (u := b) ⟨Nat.le_refl _, by simp only; omega⟩
    ⟨Nat.le_refl _, by simp only; omega⟩
  exact (Prod.mk.inj heq).2

/-- Each live block ends before the next one starts. -/
theorem Heap.lives_pairwise (h : Heap l s bs) :
    (lives l.start bs).Pairwise fun x y => x.1 + s.size x.1 ≤ y.1 := by
  unfold lives
  rw [List.pairwise_filterMap]
  refine placed_pairwise.imp_of_mem ?_
  intro x y hx _ hle x' hx' y' hy'
  obtain ⟨n, -, rfl⟩ := Option.map_eq_some_iff.mp hx'
  obtain ⟨n', -, rfl⟩ := Option.map_eq_some_iff.mp hy'
  simp only
  rw [h.sizes x hx]
  exact hle

/-- No free block ends where another one starts. -/
theorem Heap.apart (h : Heap l s bs) {x y : Nat} (hx : x ∈ frees l.start bs)
    (hy : y ∈ frees l.start bs) : x + s.size x ≠ y := by
  rintro rfl
  obtain ⟨m, hxm⟩ := mem_frees.mp hx
  obtain ⟨k, hyk⟩ := mem_frees.mp hy
  have hpos := h.tiled.pos
  have hsize := h.sizes _ hxm
  obtain ⟨X, Y, rfl, hX⟩ := placed_split hxm
  simp only at hX hsize hyk
  subst hX
  rw [hsize] at hyk
  rcases Y with _ | ⟨⟨j, kind⟩, Y⟩
  · have hlt := placed_lt hpos hyk
    simp only [span_append, span] at hlt
    omega
  · have hnext : (l.start + span X + m, ⟨j, kind⟩) ∈ placed l.start (X ++ ⟨m, none⟩ :: ⟨j, kind⟩ :: Y) := by
      simp [placed]
    have heq := placed_inj hpos hnext hyk
    cases heq
    have hchain := (List.isChain_append.mp h.tiled.apart).2.1
    rw [List.isChain_cons_cons] at hchain
    rcases hchain.1 with hne | hne <;> exact hne rfl

theorem mem_lives_pos {x : Nat × Nat} (h : Heap l s bs) (hx : x ∈ lives l.start bs) :
    0 < s.size x.1 := by
  obtain ⟨m, hmem⟩ := mem_lives.mp hx
  rw [h.sizes _ hmem]
  obtain ⟨before, after, rfl, -⟩ := placed_split hmem
  exact h.tiled.pos ⟨m, some x.2⟩ (by simp)

theorem Heap.sound (h : Heap l s bs) (hperm : s.live.Perm (lives l.start bs)) :
    Sound l s (frees l.start bs) := by
  have hblock : ∀ x, x ∈ s.live.map Prod.fst ++ frees l.start bs ↔ ∃ t, (x, t) ∈ placed l.start bs := by
    intro x
    rw [← mem_lives_or_frees, List.mem_append, List.mem_append, (hperm.map Prod.fst).mem_iff]
  have hlive : ∀ x ∈ s.live, ∃ m, (x.1, ⟨m, some x.2⟩) ∈ placed l.start bs ∧ s.size x.1 = m := by
    intro x hx
    obtain ⟨m, hmem⟩ := mem_lives.mp (hperm.mem_iff.mp hx)
    exact ⟨m, hmem, h.sizes _ hmem⟩
  have hrange : ∀ x t, (x, t) ∈ placed l.start bs → l.start ≤ x ∧ x + s.size x ≤ s.brk := by
    intro x t hmem
    have hin := mem_placed hmem
    rw [h.sizes _ hmem, h.brk]
    exact hin
  refine ⟨?_, fun x hx => ?_, fun x hx => ?_, fun _ => ⟨h.ring, h.freep⟩, h.sorted,
    fun x hx y hy => h.apart hx hy, fun x hx => ?_, ?_, fun u h1 h2 => ?_⟩
  · have hsymm : ∀ {x y : Nat × Nat}, x.1 + s.size x.1 ≤ y.1 ∨ y.1 + s.size y.1 ≤ x.1 →
        y.1 + s.size y.1 ≤ x.1 ∨ x.1 + s.size x.1 ≤ y.1 := Or.symm
    rw [hperm.pairwise_iff hsymm]
    exact h.lives_pairwise.imp Or.inl
  · obtain ⟨m, hmem, -⟩ := hlive x hx
    exact hrange _ _ hmem
  · obtain ⟨m, hmem, hsize⟩ := hlive x hx
    obtain ⟨before, after, rfl, -⟩ := placed_split hmem
    rw [hsize]
    exact h.tiled.enough ⟨m, some x.2⟩ (by simp) x.2 rfl
  · obtain ⟨m, hmem⟩ := mem_frees.mp hx
    exact hrange _ _ hmem
  · rw [List.nodup_append]
    refine ⟨?_, h.sorted.of_cons.imp fun hlt => Nat.ne_of_lt hlt, ?_⟩
    · rw [(hperm.map Prod.fst).nodup_iff, List.Nodup, List.pairwise_map]
      refine h.lives_pairwise.imp_of_mem fun {x y} hx _ hle => ?_
      have hpos := mem_lives_pos h hx
      omega
    · rintro x hx y hy rfl
      obtain ⟨⟨c, n⟩, hc, rfl⟩ := List.mem_map.mp hx
      obtain ⟨m, hmem, -⟩ := hlive _ hc
      obtain ⟨k, hmem'⟩ := mem_frees.mp hy
      have heq := placed_inj h.tiled.pos hmem hmem'
      cases heq
  · rw [h.brk] at h2
    obtain ⟨⟨x, t⟩, hmem, hx1, hx2⟩ := exists_tile h1 h2
    refine ⟨x, ⟨(hblock x).mpr ⟨t, hmem⟩, hx1, by rw [h.sizes _ hmem]; exact hx2⟩, ?_⟩
    rintro y ⟨hy, hy1, hy2⟩
    obtain ⟨t', hmem'⟩ := (hblock y).mp hy
    rw [h.sizes _ hmem'] at hy2
    have heq := tile_unique hmem' hmem ⟨hy1, hy2⟩ ⟨hx1, hx2⟩
    exact (Prod.mk.inj heq).1

/-- In every state that a program reaches with proper calls of `malloc` and `free`, the live
blocks are disjoint, inside the memory of `sbrk` and big enough, the free list is in order, and
every unit of the memory is in one block. Every proper call returns. -/
theorem the_heap_is_sound {mem : Nat → Header} {as : List Act}
    (hrun : Run (State.step l) proper (State.init l mem) as s) :
    (∃ fs, Sound l s fs) ∧ ∀ a, proper s a → (s.step l a).isSome := by
  have hreached : Reached l s := by
    refine hrun.invariant (Or.inl ⟨rfl, rfl, rfl⟩) fun s a s' h hok hs => ?_
    obtain ⟨s'', heq, hreached⟩ := h.step hok
    rw [heq] at hs
    cases hs
    exact hreached
  constructor
  · rcases hreached with ⟨h0, hbrk, hlive⟩ | ⟨bs, hheap, hperm⟩
    · exact ⟨[], sound_fresh hbrk hlive h0⟩
    · exact ⟨_, hheap.sound hperm⟩
  · intro a hok
    obtain ⟨s', heq, -⟩ := hreached.step hok
    rw [heq]
    rfl

/-- Two blocks are freed, and then the one between them: the heap is one free block again. -/
theorem a_block_between_is_freed : ∃ (l : Layout) (s : State),
    Run (State.step l) proper (State.init l fun _ => ⟨0, 0⟩)
      [.malloc 20 [true], .malloc 100 [], .malloc 65520 [true], .free 5110, .free 5121, .free 5118] s ∧
    (∃ fs, Sound l s fs) ∧ s.live = [] ∧ s.mem 1024 = ⟨256, 8192⟩ := by
  have hcomputed : (exec (State.step ⟨256, 1024, by decide, by decide⟩) proper
      (State.init ⟨256, 1024, by decide, by decide⟩ fun _ => ⟨0, 0⟩)
      [.malloc 20 [true], .malloc 100 [], .malloc 65520 [true], .free 5110, .free 5121,
        .free 5118]).any (fun s => s.live = [] ∧ s.mem 1024 = ⟨256, 8192⟩) = true := by
    decide +kernel
  obtain ⟨s, hs, hend⟩ := (Option.any_eq_true _ _).mp hcomputed
  have hrun := run_of_exec hs
  exact ⟨_, s, hrun, (the_heap_is_sound hrun).1, of_decide_eq_true hend⟩

end xv6.umalloc
