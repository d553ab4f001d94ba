-- The pages of an address space: its tables and the user's pages, which it
-- shares with no other. What they have with the free pages together stays the
-- same, whatever is mapped and unmapped.
import SysNet.Lib.Shares
import SysNet.Xv6.PageMaps
import SysNet.Xv6.Spaces

open bytes radix shares

namespace xv6.spaces

open vm (PGSIZE MAXVA TRAMPOLINE TRAPFRAME uint64 PGROUNDUP PGROUNDDOWN)
open pagetable

variable {k : Image} {m m' m'' : Mem} {M M' M'' : Map} {root a b pa perm va p q n : Nat}
  {used free : List Nat}

/-! ## Calls that may panic -/

theorem ok_bind {α β : Type} (x : α) (f : α → Except Panic β) : (Except.ok x >>= f) = f x := rfl

theorem return_eq {α : Type} (x : α) : (pure x : Except Panic α) = .ok x := rfl

/-! ## What a space has -/

/-- The pages below the trapframe. -/
def USER : Nat := TRAPFRAME / PGSIZE

def tablesOf (m : Mem) (root : Nat) : List Nat := tables child m.pte (List.finRange 512) 2 root

/-- The user's memory. -/
def userPages (M : Map) : List Nat := (List.range USER).filterMap fun q => (M q).map Mapping.pa

def share (m : Mem) (root : Nat) (M : Map) : List Nat := tablesOf m root ++ userPages M

theorem mem_tablesOf : a ∈ tablesOf m root ↔ IsTable m root a := mem_tables List.mem_finRange

theorem nodup_tablesOf (h : Tree m root) : (tablesOf m root).Nodup :=
  nodup_tables List.mem_finRange (List.nodup_finRange 512) h.separate

theorem tablesOf_congr (hs : ∀ a, IsTable m root a → m'.page a = m.page a) :
    tablesOf m' root = tablesOf m root :=
  tables_congr fun a ha => pte_congr (hs a (mem_tablesOf.mp ha))

theorem tablesOf_unmapped (h : Tree m root) (hun : Unmapped m m' root p n used) :
    (tablesOf m' root).Perm (tablesOf m root) := by
  rw [List.perm_ext_iff_of_nodup (nodup_tablesOf hun.tree) (nodup_tablesOf h)]
  intro a
  rw [mem_tablesOf, mem_tablesOf, hun.isTable]

theorem tablesOf_grown (h : Tree m root) (hfresh : Fresh m root) (hgrown : Grown m m' root used) :
    (tablesOf m' root).Perm (used ++ tablesOf m root) := by
  have hfree : ∀ a ∈ used, a ∈ m.freelist := by
    intro a ha
    rw [hgrown.freelist]
    exact List.mem_append_left _ ha
  have hnodup := hfresh.nodup
  rw [hgrown.freelist] at hnodup
  have hused : (used ++ tablesOf m root).Nodup := by
    apply hnodup.of_append_left.append (nodup_tablesOf h)
    intro a ha htable
    exact hfresh.apart a (hfree a ha) (mem_tablesOf.mp htable)
  rw [List.perm_ext_iff_of_nodup (nodup_tablesOf hgrown.tree) hused]
  intro a
  rw [List.mem_append, mem_tablesOf, mem_tablesOf, hgrown.tables, or_comm]

/-! ## The user's memory -/

theorem map_at (M : Map) (q b perm : Nat) : M.map q 1 b perm q = some ⟨b, perm⟩ := by
  unfold Map.map
  rw [if_pos ⟨Nat.le_refl q, Nat.lt_succ_self q⟩, Nat.sub_self, Nat.zero_mul, Nat.add_zero]

theorem map_of_ne (h : p ≠ q) : M.map q 1 b perm p = M p := if_neg (by omega)

theorem none_of_map (hM : M q = none) (p : Nat) (h : M.map q 1 b perm p = none) : M p = none := by
  by_cases hpq : p = q
  · exact hpq ▸ hM
  · rwa [map_of_ne hpq] at h

theorem unmap_at (M : Map) (q : Nat) : M.unmap q 1 q = none := if_pos ⟨Nat.le_refl q, Nat.lt_succ_self q⟩

theorem unmap_of_ne (h : p ≠ q) : M.unmap q 1 p = M p := if_neg (by omega)

theorem unmap_succ (M : Map) (p n : Nat) : (M.unmap p 1).unmap (p + 1) n = M.unmap p (n + 1) := by
  funext q
  unfold Map.unmap
  by_cases hq : q = p
  · subst hq
    rw [if_neg (by omega), if_pos (by omega), if_pos (by omega)]
  · by_cases hin : p + 1 ≤ q ∧ q < p + 1 + n
    · rw [if_pos hin, if_pos (by omega)]
    · rw [if_neg hin, if_neg (by omega), if_neg (by omega)]

theorem userPages_map (b perm : Nat) (hq : q < USER) (hM : M q = none) :
    (userPages (M.map q 1 b perm)).Perm (b :: userPages M) := by
  unfold userPages
  refine filterMap_take List.nodup_range (List.mem_range.mpr hq) ?_ ?_ fun j hj => ?_
  · rw [map_at, Option.map_some]
  · rw [hM, Option.map_none]
  · rw [map_of_ne hj]

theorem userPages_map_high (hq : USER ≤ q) : userPages (M.map q 1 b perm) = userPages M := by
  unfold userPages
  apply List.filterMap_congr
  intro p hp
  rw [List.mem_range] at hp
  rw [map_of_ne (by omega)]

theorem userPages_unmap_high (hq : USER ≤ q) : userPages (M.unmap q 1) = userPages M := by
  unfold userPages
  apply List.filterMap_congr
  intro p hp
  rw [List.mem_range] at hp
  rw [unmap_of_ne (by omega)]

theorem mem_userPages (hq : q < USER) {x : Mapping} (hM : M q = some x) : x.pa ∈ userPages M := by
  unfold userPages
  refine List.mem_filterMap.mpr ⟨q, List.mem_range.mpr hq, ?_⟩
  rw [hM, Option.map_some]

theorem frames_succ : M.frames p (n + 1) = ((M p).map Mapping.pa).toList ++ M.frames (p + 1) n := by
  unfold Map.frames
  rw [List.range'_succ, filterMap_head]

theorem unmap_empty (h : M p = none) : M.unmap p 1 = M := by
  funext q
  by_cases hq : q = p
  · rw [hq, unmap_at, h]
  · exact unmap_of_ne hq

/-- What a range has is taken from the user. -/
theorem userPages_unmap (hend : p + n ≤ USER) :
    (userPages M).Perm (M.frames p n ++ userPages (M.unmap p n)) := by
  induction n generalizing M p with
  | zero =>
    have hsame : M.unmap p 0 = M := by
      funext q
      exact if_neg (by omega)
    have hnone : M.frames p 0 = [] := rfl
    rw [hsame, hnone, List.nil_append]
  | succ n ih =>
    have hrest : (M.unmap p 1).frames (p + 1) n = M.frames (p + 1) n := by
      unfold Map.frames
      apply List.filterMap_congr
      intro q hq
      rw [List.mem_range'_1] at hq
      rw [unmap_of_ne (by omega)]
    have hih := ih (M := M.unmap p 1) (p := p + 1) (by omega)
    rw [hrest, unmap_succ] at hih
    rw [frames_succ]
    cases hM : M p with
    | none =>
      rw [unmap_empty hM] at hih
      rw [Option.map_none, Option.toList_none, List.nil_append]
      exact hih
    | some x =>
      have hp : p ∈ List.range USER := List.mem_range.mpr (by omega)
      have hone : (userPages M).Perm (x.pa :: userPages (M.unmap p 1)) := by
        unfold userPages
        refine filterMap_take List.nodup_range hp ?_ ?_ fun j hj => ?_
        · rw [hM, Option.map_some]
        · rw [unmap_at, Option.map_none]
        · rw [unmap_of_ne hj]
      rw [Option.map_some, Option.toList_some, List.singleton_append]
      exact hone.trans (hih.cons _)

/-- A user's page of the new map is one of the old map with its bytes, or it is new and zero. -/
def Contents (m m' : Mem) (M M' : Map) : Prop :=
  ∀ q < USER, ∀ x, M' q = some x →
    M q = some x ∧ m'.page x.pa = m.page x.pa ∨ M q = none ∧ m'.page x.pa = fun _ => 0

theorem Contents.of_kept (h : ∀ a ∈ userPages M, m'.page a = m.page a) : Contents m m' M M :=
  fun _ hq x hx => Or.inl ⟨hx, h x.pa (mem_userPages hq hx)⟩

theorem Contents.refl (m : Mem) (M : Map) : Contents m m M M := .of_kept fun _ _ => rfl

/-- Pages are added first. -/
theorem Contents.trans (h : Contents m m' M M') (h' : Contents m' m'' M' M'')
    (hadd : ∀ q, M' q = none → M q = none) : Contents m m'' M M'' := by
  intro q hq x hx
  rcases h' q hq x hx with ⟨hx', hsame'⟩ | ⟨hnone, hzero⟩
  · rcases h q hq x hx' with ⟨hx, hsame⟩ | ⟨hnone, hzero⟩
    · exact Or.inl ⟨hx, hsame'.trans hsame⟩
    · exact Or.inr ⟨hnone, hsame'.trans hzero⟩
  · exact Or.inr ⟨hadd q hnone, hzero⟩

/-- One page is added, which is zero. -/
theorem Contents.one (hM : M q = none) (hsame : ∀ a ∈ userPages M, m'.page a = m.page a)
    (hzero : m'.page b = fun _ => 0) : Contents m m' M (M.map q 1 b perm) := by
  intro p hp x hx
  by_cases hpq : p = q
  · rw [hpq, map_at] at hx
    cases hx
    exact Or.inr ⟨hpq ▸ hM, hzero⟩
  · rw [map_of_ne hpq] at hx
    exact Or.inl ⟨hx, hsame x.pa (mem_userPages hp hx)⟩

/-! ## Who has a page -/

variable {A A' B B' C R hand hand' : List Nat}

/-- The free pages and those that are held are different pages, which `kfree` takes. -/
structure Pages (k : Image) (m : Mem) (held : List Nat) : Prop where
  nodup : (m.freelist ++ held).Nodup
  page : ∀ a ∈ m.freelist ++ held, Freeable k.kernelEnd a

/-- Pages were held before and others are held now. No page is lost, and no other page is changed. -/
structure Moved (m m' : Mem) (before after : List Nat) : Prop where
  conserved : (m'.freelist ++ after).Perm (m.freelist ++ before)
  outside : ∀ a, a ∉ m.freelist ++ before → m'.page a = m.page a

theorem Moved.refl (m : Mem) (A : List Nat) : Moved m m A A := ⟨.refl _, fun _ _ => rfl⟩

theorem Moved.trans (h : Moved m m' A B) (h' : Moved m' m'' B C) : Moved m m'' A C := by
  refine ⟨h'.conserved.trans h.conserved, fun a ha => ?_⟩
  rw [h'.outside a fun hm => ha (h.conserved.mem_iff.mp hm), h.outside a ha]

theorem Moved.reorder (h : Moved m m' A B) (hA : A.Perm A') (hB : B.Perm B') : Moved m m' A' B' := by
  refine ⟨(hB.symm.append_left _).trans (h.conserved.trans (hA.append_left _)), fun a ha => ?_⟩
  exact h.outside a fun hm => ha ((hA.append_left _).mem_iff.mp hm)

/-- What others hold is not touched. -/
theorem Moved.frame (h : Moved m m' A B) (R : List Nat) : Moved m m' (A ++ R) (B ++ R) := by
  refine ⟨?_, fun a ha => h.outside a fun hm => ha ?_⟩
  · rw [← List.append_assoc, ← List.append_assoc]
    exact h.conserved.append_right R
  · rw [← List.append_assoc]
    exact List.mem_append_left R hm

theorem Pages.moved (h : Pages k m A) (hm : Moved m m' A B) : Pages k m' B :=
  ⟨hm.conserved.nodup_iff.mpr h.nodup, fun a ha => h.page a (hm.conserved.mem_iff.mp ha)⟩

theorem Pages.reorder (h : Pages k m A) (hA : A.Perm B) : Pages k m B :=
  h.moved ((Moved.refl m A).reorder (.refl A) hA)

theorem Pages.of_append (h : Pages k m (A ++ R)) : Pages k m A := by
  have hnodup := h.nodup
  rw [← List.append_assoc] at hnodup
  refine ⟨hnodup.of_append_left, fun a ha => h.page a ?_⟩
  rw [← List.append_assoc]
  exact List.mem_append_left R ha

/-- Others keep what is in their pages. -/
theorem Moved.page_of_frame (h : Moved m m' A B) (hp : Pages k m (A ++ R)) (ha : a ∈ R) :
    m'.page a = m.page a := by
  have hnodup := hp.nodup
  rw [← List.append_assoc, List.nodup_append] at hnodup
  exact h.outside a fun hm => hnodup.2.2 a hm a ha rfl

theorem isPage_of_freeable (h : Freeable k.kernelEnd a) : IsPage a := by
  obtain ⟨haligned, hlow, hhigh⟩ := h
  have hend := Nat.lt_of_le_of_lt k.low k.inside
  unfold PHYSTOP at hhigh
  unfold KERNBASE at *
  exact ⟨haligned, by omega, by omega⟩

theorem moved_kalloc (hfree : m.freelist = b :: free) (A : List Nat) :
    ∃ m', kalloc m = (m', some b) ∧ m'.freelist = free ∧ Moved m m' A (b :: A) ∧
      ∀ a, a ≠ b → m'.page a = m.page a := by
  obtain ⟨m', hkalloc, hm', hsame⟩ := kalloc_some hfree
  refine ⟨m', hkalloc, hm', ⟨?_, fun a ha => hsame a ?_⟩, hsame⟩
  · rw [hm', hfree]
    exact List.perm_middle
  · rintro rfl
    rw [hfree] at ha
    exact ha List.mem_cons_self

theorem Pages.give (h : Pages k m (b :: A)) :
    kfree k.kernelEnd m b = .ok (m.free b) ∧ Moved m (m.free b) (b :: A) A := by
  have hmem : b ∈ m.freelist ++ b :: A := List.mem_append_right _ List.mem_cons_self
  refine ⟨kfree_free (h.page b hmem), List.perm_middle.symm, fun a ha => free_page ?_⟩
  rintro rfl
  exact ha hmem

/-! ## Spaces -/

/-- A page table with its map, and what is held beside it. -/
structure Space (k : Image) (m : Mem) (root : Nat) (M : Map) (hand : List Nat) : Prop where
  represents : Represents m root M
  pages : Pages k m (hand ++ share m root M)

theorem Space.fresh (h : Space k m root M hand) : Fresh m root := by
  have hnodup := h.pages.nodup
  refine ⟨hnodup.of_append_left, fun a ha => ?_, fun a ha htable => ?_⟩
  · exact isPage_of_freeable (h.pages.page a (List.mem_append_left _ ha))
  · rw [List.nodup_append] at hnodup
    refine hnodup.2.2 a ha a (List.mem_append_right _ ?_) rfl
    exact List.mem_append_left _ (mem_tablesOf.mpr htable)

theorem Space.hand_not_table (h : Space k m root M hand) (ha : a ∈ hand) : ¬ IsTable m root a := by
  intro htable
  have hheld := (List.nodup_append.mp h.pages.nodup).2.1
  rw [List.nodup_append] at hheld
  exact hheld.2.2 a ha a (List.mem_append_left _ (mem_tablesOf.mpr htable)) rfl

theorem Space.user_not_table (h : Space k m root M hand) (ha : a ∈ userPages M) : ¬ IsTable m root a := by
  intro htable
  have hheld := ((List.nodup_append.mp h.pages.nodup).2.1).of_append_right
  unfold share at hheld
  rw [List.nodup_append] at hheld
  exact hheld.2.2 a (mem_tablesOf.mpr htable) a ha rfl

theorem Space.user_not_free (h : Space k m root M hand) (ha : a ∈ userPages M) : a ∉ m.freelist := by
  intro hfree
  refine (List.nodup_append.mp h.pages.nodup).2.2 a hfree a ?_ rfl
  exact List.mem_append_right _ (List.mem_append_right _ ha)

theorem Space.hand_not_free (h : Space k m root M hand) (ha : a ∈ hand) : a ∉ m.freelist := by
  intro hfree
  exact (List.nodup_append.mp h.pages.nodup).2.2 a hfree a (List.mem_append_left _ ha) rfl

theorem Space.hand_not_user (h : Space k m root M hand) (ha : a ∈ hand) : a ∉ userPages M := by
  intro huser
  have hheld := (List.nodup_append.mp h.pages.nodup).2.1
  exact (List.nodup_append.mp hheld).2.2 a ha a (List.mem_append_right _ huser) rfl

theorem Space.nodup_user (h : Space k m root M hand) : (userPages M).Nodup :=
  (List.nodup_append.mp h.pages.nodup).2.1.of_append_right.of_append_right

/-- A page of the user is mapped once. -/
theorem userPages_apart {p' : Nat} {x x' : Mapping} (h : (userPages M).Nodup) (hp : p < USER) (hp' : p' < USER)
    (hx : M p = some x) (hx' : M p' = some x') (heq : x'.pa = x.pa) : p' = p := by
  unfold userPages at h
  apply filterMap_apart h (List.mem_range.mpr hp) (List.mem_range.mpr hp')
  · rw [hx, Option.map_some]
  · rw [hx', Option.map_some, heq]

/-- The tables are not changed. -/
theorem Space.congr (h : Space k m root M hand) (hs : ∀ a, IsTable m root a → m'.page a = m.page a)
    (hm : Moved m m' (hand ++ share m root M) (hand' ++ share m root M)) :
    Space k m' root M hand' ∧ share m' root M = share m root M := by
  have hshare : share m' root M = share m root M := by
    unfold share
    rw [tablesOf_congr hs]
  refine ⟨⟨h.represents.congr hs, ?_⟩, hshare⟩
  rw [hshare]
  exact h.pages.moved hm

/-- One page is mapped, or the memory ends. -/
theorem mappages_one (h : Represents m root M) (hfresh : Fresh m root) (hend : (q + 1) * PGSIZE ≤ MAXVA)
    (hM : M q = none) (haligned : pa % PGSIZE = 0) (hpos : 0 < pa) (hpa : pa < 72057594037927936)
    (hperm : perm < 1024) :
    ∃ m' used done, mappages m root (q * PGSIZE) PGSIZE pa perm = .ok (m', done) ∧
      Grown m m' root used ∧
      (done = true ∧ Represents m' root (M.map q 1 pa perm) ∨
        done = false ∧ m'.freelist = [] ∧ Represents m' root M) := by
  have hpage : q * PGSIZE / PGSIZE = q := Nat.mul_div_cancel q (by decide)
  have hsize : PGSIZE / PGSIZE = 1 := rfl
  have hclear : ∀ va', q * PGSIZE ≤ va' → va' < q * PGSIZE + PGSIZE → entry m root va' &&& PTE_V = 0 := by
    intro va' h₁ h₂
    have hq : va' / PGSIZE = q := Nat.div_eq_of_lt_le h₁ (by rw [Nat.succ_mul]; exact h₂)
    refine h.absent va' ?_ (by rw [hq, hM])
    rw [Nat.succ_mul] at hend
    omega
  obtain ⟨m', used, n, done, heq, hgrown, hn, hentry⟩ := mappages_grow h.tree hfresh
    (Nat.mul_mod_left q PGSIZE) (Nat.mod_self PGSIZE) (by decide) (by rw [Nat.succ_mul] at hend; exact hend)
    hpa hperm hclear
  rw [hpage, hsize] at *
  refine ⟨m', used, done, heq, hgrown, ?_⟩
  rcases hn with ⟨hdone, rfl⟩ | ⟨hdone, hn, hfree⟩
  · exact Or.inl ⟨hdone, h.map hgrown hend haligned hpos hpa hperm hentry⟩
  · obtain rfl : n = 0 := by omega
    refine Or.inr ⟨hdone, hfree, hgrown.tree, fun va hva hnone => ?_, fun va hva x hx => ?_, h.good, h.bound⟩
    · rw [hentry va hva, if_neg (by omega)]
      exact h.absent va hva hnone
    · rw [hentry va hva, if_neg (by omega)]
      exact h.present va hva x hx

theorem moved_grown (htree : Tree m root) (hfresh : Fresh m root) (h : Grown m m' root used) (M : Map)
    (hand : List Nat) : Moved m m' (hand ++ share m root M) (hand ++ share m' root M) := by
  have htables := tablesOf_grown htree hfresh h
  refine ⟨?_, fun a ha => h.outside a ?_ ?_⟩
  · unfold share
    rw [h.freelist, List.perm_iff_count] at *
    intro x
    have hx := htables x
    simp only [List.count_append] at hx ⊢
    omega
  · intro htable
    apply ha
    exact List.mem_append_right _ (List.mem_append_right _ (List.mem_append_left _ (mem_tablesOf.mpr htable)))
  · intro hused
    apply ha
    rw [h.freelist]
    exact List.mem_append_left _ (List.mem_append_left _ hused)

theorem Space.take (h : Space k m root M hand) (hfree : m.freelist = b :: free) :
    ∃ m', kalloc m = (m', some b) ∧ m'.freelist = free ∧ Space k m' root M (b :: hand) ∧
      share m' root M = share m root M ∧
      Moved m m' (hand ++ share m root M) (b :: hand ++ share m' root M) ∧
      ∀ a, a ≠ b → m'.page a = m.page a := by
  obtain ⟨m', heq, hm', hmoved, hsame⟩ := moved_kalloc hfree (hand ++ share m root M)
  have htables : ∀ a, IsTable m root a → m'.page a = m.page a := by
    intro a ha
    apply hsame
    rintro rfl
    refine h.fresh.apart a ?_ ha
    rw [hfree]
    exact List.mem_cons_self
  have hmoved : Moved m m' (hand ++ share m root M) (b :: hand ++ share m root M) := hmoved
  obtain ⟨hspace, hshare⟩ := h.congr htables hmoved
  exact ⟨m', heq, hm', hspace, hshare, by rw [hshare]; exact hmoved, hsame⟩

/-- What is in a page that is held changes. -/
theorem Space.fill (h : Space k m root M (b :: hand)) (hfree : m'.freelist = m.freelist)
    (hsame : ∀ a, a ≠ b → m'.page a = m.page a) :
    Space k m' root M (b :: hand) ∧ share m' root M = share m root M ∧
      Moved m m' (b :: hand ++ share m root M) (b :: hand ++ share m' root M) := by
  have hmoved : Moved m m' (b :: hand ++ share m root M) (b :: hand ++ share m root M) := by
    refine ⟨by rw [hfree], fun a ha => hsame a ?_⟩
    rintro rfl
    exact ha (List.mem_append_right _ List.mem_cons_self)
  have htables : ∀ a, IsTable m root a → m'.page a = m.page a := by
    intro a ha
    apply hsame
    rintro rfl
    exact h.hand_not_table List.mem_cons_self ha
  obtain ⟨hspace, hshare⟩ := h.congr htables hmoved
  exact ⟨hspace, hshare, by rw [hshare]; exact hmoved⟩

theorem Space.give (h : Space k m root M (b :: hand)) :
    kfree k.kernelEnd m b = .ok (m.free b) ∧ Space k (m.free b) root M hand ∧
      Moved m (m.free b) (b :: hand ++ share m root M) (hand ++ share (m.free b) root M) := by
  obtain ⟨heq, hmoved⟩ := h.pages.give
  have htables : ∀ a, IsTable m root a → (m.free b).page a = m.page a := by
    intro a ha
    apply free_page
    rintro rfl
    exact h.hand_not_table List.mem_cons_self ha
  obtain ⟨hspace, hshare⟩ := h.congr htables hmoved
  exact ⟨heq, hspace, by rw [hshare]; exact hmoved⟩

/-- A page that is held is mapped for the user, or the memory ends. -/
theorem Space.add (h : Space k m root M (b :: hand)) (hq : q < USER) (hM : M q = none)
    (hperm : perm < 1024) : ∃ m' done, mappages m root (q * PGSIZE) PGSIZE b perm = .ok (m', done) ∧
      m'.freelist.length ≤ m.freelist.length ∧
      (done = true ∧ Space k m' root (M.map q 1 b perm) hand ∧
          Moved m m' (b :: hand ++ share m root M) (hand ++ share m' root (M.map q 1 b perm)) ∨
        done = false ∧ Space k m' root M (b :: hand) ∧
          Moved m m' (b :: hand ++ share m root M) (b :: hand ++ share m' root M)) ∧
      ∀ a, ¬ IsTable m root a → a ∉ m.freelist → m'.page a = m.page a := by
  have hb : Freeable k.kernelEnd b := h.pages.page b (List.mem_append_right _ List.mem_cons_self)
  obtain ⟨haligned, hpos, hlt⟩ := isPage_of_freeable hb
  have hend : (q + 1) * PGSIZE ≤ MAXVA := by
    have hle : (q + 1) * PGSIZE ≤ USER * PGSIZE := Nat.mul_le_mul_right PGSIZE hq
    have huser : USER * PGSIZE ≤ MAXVA := by decide
    exact Nat.le_trans hle huser
  obtain ⟨m', used, done, heq, hgrown, hdone⟩ :=
    mappages_one h.represents h.fresh hend hM haligned hpos hlt hperm
  have hmoved := moved_grown h.represents.tree h.fresh hgrown M (b :: hand)
  refine ⟨m', done, heq, ?_, ?_, fun a ha hfree => hgrown.outside a ha fun hused => hfree ?_⟩
  · rw [hgrown.freelist, List.length_append]
    exact Nat.le_add_left ..
  · rcases hdone with ⟨hd, hr⟩ | ⟨hd, -, hr⟩
    · have hshare : (b :: hand ++ share m' root M).Perm (hand ++ share m' root (M.map q 1 b perm)) := by
        have huser := userPages_map b perm hq hM
        unfold share
        rw [List.perm_iff_count] at *
        intro x
        have hx := huser x
        simp only [List.count_append, List.count_cons] at hx ⊢
        omega
      have hmoved' := hmoved.reorder (.refl _) hshare
      exact Or.inl ⟨hd, ⟨hr, h.pages.moved hmoved'⟩, hmoved'⟩
    · exact Or.inr ⟨hd, ⟨hr, h.pages.moved hmoved⟩, hmoved⟩
  · rw [hgrown.freelist]
    exact List.mem_append_left _ hused

/-- A page is taken and cleared, and tables are added. The user's pages are as they were, and the page is
zero. -/
theorem Space.kept {m₁ m₃ : Mem} (h : Space k (m₁.memset b 0) root M (b :: hand))
    (hsame : ∀ a, a ≠ b → m₁.page a = m.page a)
    (hkeep : ∀ a, ¬ IsTable (m₁.memset b 0) root a → a ∉ (m₁.memset b 0).freelist →
      m₃.page a = (m₁.memset b 0).page a) :
    (∀ a ∈ userPages M, m₃.page a = m.page a) ∧ m₃.page b = fun _ => 0 := by
  have hb : b ∈ b :: hand := List.mem_cons_self
  constructor
  · intro a ha
    have hab : a ≠ b := fun hab => h.hand_not_user hb (hab ▸ ha)
    rw [hkeep a (h.user_not_table ha) (h.user_not_free ha), memset_page hab, hsame a hab]
  · rw [hkeep b (h.hand_not_table hb) (h.hand_not_free hb)]
    exact Function.update_self ..

end xv6.spaces
