-- A page table is a map from the pages to where they lie (kernel/vm.c):
-- `mappages` adds a range to it, `uvmunmap` takes one away, and `walkaddr`
-- looks an address up.
import SysNet.Xv6.PageTree

open bytes radix runs

namespace xv6.pagetable

open vm (PGSIZE MAXVA TRAMPOLINE TRAPFRAME uint64 PGROUNDUP)

variable {m m' m'' : Mem} {root t a b pa perm va va' k n p last kernelEnd : Nat} {i j : Fin 512}
  {w : Nat} {used : List Nat}

/-! ## Ranges of pages -/

theorem uint64_add {x y : Nat} (h : x + y < 18446744073709551616) : uint64 ((x : Int) + y) = x + y := by
  unfold uint64
  omega

theorem uint64_page (h : p * PGSIZE < MAXVA) :
    uint64 ((p * PGSIZE : Nat) + (PGSIZE : Nat)) = (p + 1) * PGSIZE := by
  have hmax : MAXVA < 18446744073709551616 - PGSIZE := by decide
  rw [Nat.succ_mul]
  apply uint64_add
  omega

/-- The entry of a page that is mapped. -/
def leaf (pa perm : Nat) : Nat := PA2PTE pa ||| perm ||| PTE_V

theorem leaf_lt (hpa : pa < 18446744073709551616) (h : perm < 1024) :
    leaf pa perm < 18446744073709551616 := entry_lt hpa h

theorem leaf_valid (pa perm : Nat) : leaf pa perm &&& PTE_V ≠ 0 := entry_valid pa perm

theorem entry_of_page (h : va / PGSIZE = va' / PGSIZE) : entry m root va = entry m root va' := by
  have hroute : route va 2 = route va' 2 := by
    rw [route, route, route, route, route, route, PX_of_page h, PX_of_page h]
  cases ht : tableAt m root (route va' 2) with
  | none => rw [entry_none ht, entry_none (hroute ▸ ht)]
  | some t => rw [entry_some ht, entry_some (hroute ▸ ht), PX_of_page h]

/-- The loop maps the pages one by one, until it is done or the memory ends. -/
theorem mappagesLoop_grow (h : Tree m root) (hfresh : Fresh m root) (hk : 0 < k)
    (hlast : last + PGSIZE = (p + k) * PGSIZE) (hend : (p + k) * PGSIZE ≤ MAXVA)
    (hpa : pa + k * PGSIZE ≤ 18446744073709551616) (hperm : perm < 1024)
    (hclear : ∀ va, p ≤ va / PGSIZE → va / PGSIZE < p + k → entry m root va &&& PTE_V = 0) :
    ∃ m' used n done, mappagesLoop root last perm k m (p * PGSIZE) pa = .ok (m', done) ∧
      Grown m m' root used ∧ (done = true ∧ n = k ∨ done = false ∧ n < k ∧ m'.freelist = []) ∧
      ∀ va < MAXVA, entry m' root va = if p ≤ va / PGSIZE ∧ va / PGSIZE < p + n then
        leaf (pa + (va / PGSIZE - p) * PGSIZE) perm else entry m root va := by
  induction k generalizing m p pa with
  | zero => exact absurd hk (Nat.lt_irrefl 0)
  | succ k ih =>
    have hva : p * PGSIZE < MAXVA := by
      unfold PGSIZE at *
      omega
    have hpage : p * PGSIZE / PGSIZE = p := Nat.mul_div_cancel p (by decide)
    have hnext := uint64_page hva
    obtain ⟨m₁, used, r, hwalk, hgrown, hentries, hnone, hsome⟩ := walk_grow h hfresh hva
    rw [mappagesLoop, hwalk]
    cases r with
    | none =>
      refine ⟨m₁, used, 0, false, rfl, hgrown, Or.inr ⟨rfl, hk, hnone rfl⟩, fun va _ => ?_⟩
      rw [if_neg (by omega), hentries]
    | some r =>
      obtain ⟨t, i⟩ := r
      obtain ⟨rfl, ht⟩ := hsome t i rfl
      have hinvalid : m₁.pte t (PX 0 (p * PGSIZE)) &&& PTE_V = 0 := by
        rw [← entry_some ht, hentries]
        apply hclear <;> omega
      have hpa' : pa < 18446744073709551616 := by
        unfold PGSIZE at hpa
        omega
      obtain ⟨hset, -, hentry⟩ := hgrown.tree.set hva ht (leaf_lt hpa' hperm)
      simp only [hinvalid, ne_eq, not_true_eq_false, if_false]
      rw [← leaf]
      have hgrown₂ := hgrown.trans hset
      generalize m₁.setPte t (PX 0 (p * PGSIZE)) (leaf pa perm) = m₂ at *
      rw [hpage] at hentry
      by_cases hdone : p * PGSIZE = last
      · have hk0 : k = 0 := by
          unfold PGSIZE at *
          omega
        subst hk0
        rw [if_pos hdone]
        refine ⟨m₂, _, 1, true, rfl, hgrown₂, Or.inl ⟨rfl, rfl⟩, fun va hva => ?_⟩
        rw [hentry va hva, hentries]
        by_cases heq : va / PGSIZE = p
        · rw [if_pos heq, if_pos (by omega), heq, Nat.sub_self, Nat.zero_mul, Nat.add_zero]
        · rw [if_neg heq, if_neg (by omega)]
      · have hk' : 0 < k := by
          unfold PGSIZE at *
          omega
        have hnextpa : uint64 ((pa : Nat) + (PGSIZE : Nat)) = pa + PGSIZE := by
          apply uint64_add
          unfold PGSIZE at *
          omega
        have hclear' : ∀ va, p + 1 ≤ va / PGSIZE → va / PGSIZE < p + 1 + k →
            entry m₂ root va &&& PTE_V = 0 := by
          intro va h₁ h₂
          have hva' : va < MAXVA := by
            unfold PGSIZE at *
            omega
          rw [hentry va hva', if_neg (by omega), hentries]
          apply hclear <;> omega
        have hrest : pa + PGSIZE + k * PGSIZE ≤ 18446744073709551616 := by
          rw [Nat.succ_mul] at hpa
          omega
        obtain ⟨m', used', n, done, heq, hgrown', hn, hentry'⟩ :=
          ih (p := p + 1) hset.tree (hfresh.grown hgrown₂) hk'
            (by rw [hlast, Nat.add_right_comm, Nat.add_assoc]) (by rw [Nat.add_right_comm]; exact hend)
            hrest hclear'
        rw [if_neg hdone, hnext, hnextpa, heq]
        refine ⟨m', _, n + 1, done, rfl, hgrown₂.trans hgrown', ?_, fun va hva => ?_⟩
        · rcases hn with ⟨hdone, rfl⟩ | ⟨hdone, hn, hfree⟩
          · exact Or.inl ⟨hdone, rfl⟩
          · exact Or.inr ⟨hdone, by omega, hfree⟩
        · rw [hentry' va hva, hentry va hva, hentries]
          by_cases heq : va / PGSIZE = p
          · rw [if_neg (by omega), if_pos heq, if_pos (by omega), heq, Nat.sub_self, Nat.zero_mul,
              Nat.add_zero]
          · rw [if_neg heq]
            by_cases hin : p + 1 ≤ va / PGSIZE ∧ va / PGSIZE < p + 1 + n
            · have hsub : va / PGSIZE - p = va / PGSIZE - (p + 1) + 1 := by omega
              rw [if_pos hin, if_pos (by omega), hsub, Nat.succ_mul, Nat.add_assoc,
                Nat.add_comm PGSIZE]
            · rw [if_neg hin, if_neg (by omega)]

/-! ## Taking pages away -/

/-- The pages that a range is mapped to. -/
def pagesOf (m : Mem) (root p n : Nat) : List Nat :=
  (List.range' p n).filterMap fun q => child (entry m root (q * PGSIZE))

theorem filterMap_head {α β : Type*} (f : α → Option β) (x : α) (l : List α) :
    (x :: l).filterMap f = (f x).toList ++ l.filterMap f := by
  rw [List.filterMap_cons]
  cases f x with
  | none => rfl
  | some y => rfl

theorem pagesOf_succ : pagesOf m root p (n + 1) =
    (child (entry m root (p * PGSIZE))).toList ++ pagesOf m root (p + 1) n := by
  unfold pagesOf
  rw [List.range'_succ, filterMap_head]

theorem pagesOf_congr (h : ∀ q, p ≤ q → q < p + n → entry m' root (q * PGSIZE) = entry m root (q * PGSIZE)) :
    pagesOf m' root p n = pagesOf m root p n := by
  unfold pagesOf
  apply List.filterMap_congr
  intro q hq
  rw [List.mem_range'_1] at hq
  rw [h q hq.1 hq.2]

/-- `kfree` takes the page. -/
def Freeable (kernelEnd a : Nat) : Prop := a % PGSIZE = 0 ∧ kernelEnd ≤ a ∧ a < PHYSTOP

/-- The memory behind `kfree` of a page. -/
def Mem.free (m : Mem) (a : Nat) : Mem := { m.memset a 1 with freelist := a :: m.freelist }

theorem kfree_free (h : Freeable kernelEnd a) : kfree kernelEnd m a = .ok (m.free a) := by
  obtain ⟨haligned, hlow, hhigh⟩ := h
  unfold kfree
  rw [if_neg (by omega)]
  rfl

theorem free_page (h : a ≠ b) : (m.free b).page a = m.page a := memset_page h 1

/-- The mappings of a range are gone, and the pages of the list are free. -/
structure Unmapped (m m' : Mem) (root p n : Nat) (freed : List Nat) : Prop where
  tree : Tree m' root
  tables : ∀ q, q.length ≤ 2 → tableAt m' root q = tableAt m root q
  freelist : m'.freelist = freed.reverse ++ m.freelist
  inside : ∀ va < MAXVA, p ≤ va / PGSIZE → va / PGSIZE < p + n → entry m' root va &&& PTE_V = 0
  others : ∀ va < MAXVA, ¬ (p ≤ va / PGSIZE ∧ va / PGSIZE < p + n) → entry m' root va = entry m root va
  outside : ∀ a, ¬ IsTable m root a → a ∉ freed → m'.page a = m.page a

theorem Unmapped.isTable (h : Unmapped m m' root p n used) : IsTable m' root a ↔ IsTable m root a := by
  constructor
  · rintro ⟨q, hq, ha⟩
    exact ⟨q, hq, (h.tables q hq).symm.trans ha⟩
  · rintro ⟨q, hq, ha⟩
    exact ⟨q, hq, (h.tables q hq).trans ha⟩

theorem uvmunmapLoop_skip {do_free : Bool} (hva : p * PGSIZE < MAXVA) (hlast : p * PGSIZE < last)
    (h : entry m root (p * PGSIZE) &&& PTE_V = 0) :
    uvmunmapLoop kernelEnd root last do_free (k + 1) m (p * PGSIZE) =
      uvmunmapLoop kernelEnd root last do_free k m ((p + 1) * PGSIZE) := by
  rw [uvmunmapLoop, if_pos hlast, walk_find hva, uint64_page hva]
  cases ht : tableAt m root (route (p * PGSIZE) 2) with
  | none => rfl
  | some t =>
    rw [entry_some ht] at h
    simp only [Option.map_some]
    rw [if_pos h]

theorem uvmunmapLoop_page {do_free : Bool} (hva : p * PGSIZE < MAXVA) (hlast : p * PGSIZE < last)
    (ht : tableAt m root (route (p * PGSIZE) 2) = some t)
    (h : entry m root (p * PGSIZE) &&& PTE_V ≠ 0)
    (hm : (if do_free then kfree kernelEnd m (PTE2PA (entry m root (p * PGSIZE))) else .ok m) = .ok m') :
    uvmunmapLoop kernelEnd root last do_free (k + 1) m (p * PGSIZE) =
      uvmunmapLoop kernelEnd root last do_free k (m'.setPte t (PX 0 (p * PGSIZE)) 0) ((p + 1) * PGSIZE) := by
  rw [entry_some ht] at h hm
  rw [uvmunmapLoop, if_pos hlast, walk_find hva, uint64_page hva, ht]
  simp only [Option.map_some]
  rw [if_neg h, hm]

/-- A mapping is taken away, and its page is free if it is to be. -/
theorem Tree.unmap {do_free : Bool} (h : Tree m root) (hva : p * PGSIZE < MAXVA)
    (ht : tableAt m root (route (p * PGSIZE) 2) = some t)
    (hapart : do_free = true → ¬ IsTable m root a) :
    Unmapped m ((if do_free then m.free a else m).setPte t (PX 0 (p * PGSIZE)) 0) root p 1
      (if do_free then [a] else []) := by
  have hpage : p * PGSIZE / PGSIZE = p := Nat.mul_div_cancel p (by decide)
  have hfree : ∀ b, IsTable m root b → (if do_free then m.free a else m).page b = m.page b := by
    intro b hb
    cases do_free with
    | false => rfl
    | true =>
      apply free_page
      rintro rfl
      exact hapart rfl hb
  obtain ⟨htree, hsame, hentries⟩ := h.congr hfree
  have hlen := Nat.le_of_eq (length_route (p * PGSIZE) 2)
  obtain ⟨hset, hpaths, hentry⟩ := htree.set (w := 0) hva ((hsame _ hlen).trans ht) (by decide)
  rw [hpage] at hentry
  refine ⟨hset.tree, fun q hq => ?_, ?_, fun va hva' h₁ h₂ => ?_, fun va hva' hout => ?_, ?_⟩
  · rw [hpaths q hq, hsame q hq]
  · cases do_free <;> rfl
  · rw [hentry va hva', if_pos (by omega)]
    rfl
  · rw [hentry va hva', if_neg (by omega), hentries]
  · intro b hb hfreed
    rw [setPte_page]
    · cases do_free with
      | false => rfl
      | true => exact free_page fun heq => hfreed (List.mem_singleton.mpr heq)
    · rintro rfl
      exact hb ⟨_, hlen, ht⟩

theorem Unmapped.append {used' : List Nat} (h : Unmapped m m' root p n used)
    (h' : Unmapped m' m'' root (p + n) k used') : Unmapped m m'' root p (n + k) (used ++ used') where
  tree := h'.tree
  tables q hq := (h'.tables q hq).trans (h.tables q hq)
  freelist := by rw [h'.freelist, h.freelist, List.reverse_append, List.append_assoc]
  inside va hva h₁ h₂ := by
    by_cases hin : va / PGSIZE < p + n
    · rw [h'.others va hva (by omega)]
      exact h.inside va hva h₁ hin
    · exact h'.inside va hva (by omega) (by omega)
  others va hva hout := by rw [h'.others va hva (by omega), h.others va hva (by omega)]
  outside a ha hused := by
    rw [List.mem_append, not_or] at hused
    rw [h'.outside a (fun hm => ha (h.isTable.mp hm)) hused.2, h.outside a ha hused.1]

/-- There was nothing to be taken away. -/
theorem Tree.skip (h : Tree m root) (hempty : entry m root (p * PGSIZE) &&& PTE_V = 0) :
    Unmapped m m root p 1 [] where
  tree := h
  tables _ _ := rfl
  freelist := rfl
  inside va _ h₁ h₂ := by
    have hpage : va / PGSIZE = p * PGSIZE / PGSIZE := by
      rw [Nat.mul_div_cancel p (by decide)]
      omega
    rw [entry_of_page hpage]
    exact hempty
  others _ _ _ := rfl
  outside _ _ _ := rfl

/-- The loop takes the mappings of the range away. -/
theorem uvmunmapLoop_unmapped {do_free : Bool} (h : Tree m root) (hend : (p + k) * PGSIZE ≤ MAXVA)
    (hfree : do_free = true → ∀ a ∈ pagesOf m root p k, Freeable kernelEnd a ∧ ¬ IsTable m root a) :
    ∃ m', uvmunmapLoop kernelEnd root ((p + k) * PGSIZE) do_free k m (p * PGSIZE) = .ok m' ∧
      Unmapped m m' root p k (if do_free then pagesOf m root p k else []) := by
  induction k generalizing m p with
  | zero =>
    refine ⟨m, rfl, h, fun _ _ => rfl, ?_, fun va _ _ _ => by omega, fun _ _ _ => rfl, fun _ _ _ => rfl⟩
    cases do_free <;> rfl
  | succ k ih =>
    have hlt : p * PGSIZE < (p + (k + 1)) * PGSIZE := Nat.mul_lt_mul_of_pos_right (by omega) (by decide)
    have hva : p * PGSIZE < MAXVA := by omega
    have hend' : (p + 1 + k) * PGSIZE ≤ MAXVA := by
      rw [Nat.add_right_comm]
      exact hend
    have hlast : (p + (k + 1)) * PGSIZE = (p + 1 + k) * PGSIZE := by rw [Nat.add_right_comm, Nat.add_assoc]
    have hk : k + 1 = 1 + k := Nat.add_comm k 1
    rw [pagesOf_succ] at hfree ⊢
    by_cases hvalid : entry m root (p * PGSIZE) &&& PTE_V ≠ 0
    · rw [child_valid hvalid, Option.toList_some, List.singleton_append] at hfree ⊢
      cases ht : tableAt m root (route (p * PGSIZE) 2) with
      | none =>
        rw [entry_none ht] at hvalid
        exact absurd rfl hvalid
      | some t =>
        generalize ha : PTE2PA (entry m root (p * PGSIZE)) = a at hfree ⊢
        have hapart : do_free = true → ¬ IsTable m root a :=
          fun hdo => (hfree hdo a List.mem_cons_self).2
        have hone := h.unmap hva ht hapart
        have hm : (if do_free then kfree kernelEnd m (PTE2PA (entry m root (p * PGSIZE))) else .ok m) =
            .ok (if do_free then m.free a else m) := by
          cases do_free with
          | false => rfl
          | true =>
            rw [ha, if_pos rfl, if_pos rfl]
            exact kfree_free (hfree rfl a List.mem_cons_self).1
        have hpages := pagesOf_congr (p := p + 1) (n := k) fun q h₁ h₂ => hone.others (q * PGSIZE)
          (Nat.lt_of_lt_of_le (Nat.mul_lt_mul_of_pos_right h₂ (by decide)) hend')
          (by rw [Nat.mul_div_cancel q (by decide)]; omega)
        rw [uvmunmapLoop_page hva hlt ht hvalid hm, hlast]
        obtain ⟨m', heq, hrest⟩ := ih hone.tree hend' fun hdo b hb => by
          rw [hpages] at hb
          rw [hone.isTable]
          exact hfree hdo b (List.mem_cons_of_mem a hb)
        rw [hpages] at hrest
        refine ⟨m', heq, ?_⟩
        have happ := hone.append hrest
        rw [hk]
        cases do_free with
        | false => exact happ
        | true => exact happ
    · have hempty : entry m root (p * PGSIZE) &&& PTE_V = 0 := not_not.mp hvalid
      rw [child_invalid hvalid, Option.toList_none, List.nil_append] at hfree ⊢
      rw [uvmunmapLoop_skip hva hlt hempty, hlast]
      obtain ⟨m', heq, hrest⟩ := ih h hend' hfree
      refine ⟨m', heq, ?_⟩
      rw [hk]
      exact (h.skip hempty).append hrest

/-! ## The calls -/

/-- The page of an address in an aligned range. -/
theorem mem_range {size : Nat} (hva : va % PGSIZE = 0) (hsize : size % PGSIZE = 0) :
    va / PGSIZE ≤ va' / PGSIZE ∧ va' / PGSIZE < va / PGSIZE + size / PGSIZE ↔ va ≤ va' ∧ va' < va + size := by
  unfold PGSIZE at *
  omega

theorem mappages_grow {size : Nat} (h : Tree m root) (hfresh : Fresh m root) (hva : va % PGSIZE = 0)
    (hsize : size % PGSIZE = 0) (hpos : 0 < size) (hend : va + size ≤ MAXVA)
    (hpa : pa < 72057594037927936) (hperm : perm < 1024)
    (hclear : ∀ va', va ≤ va' → va' < va + size → entry m root va' &&& PTE_V = 0) :
    ∃ m' used n done, mappages m root va size pa perm = .ok (m', done) ∧ Grown m m' root used ∧
      (done = true ∧ n = size / PGSIZE ∨ done = false ∧ n < size / PGSIZE ∧ m'.freelist = []) ∧
      ∀ va' < MAXVA, entry m' root va' =
        if va / PGSIZE ≤ va' / PGSIZE ∧ va' / PGSIZE < va / PGSIZE + n then
          leaf (pa + (va' / PGSIZE - va / PGSIZE) * PGSIZE) perm else entry m root va' := by
  have hp : va / PGSIZE * PGSIZE = va := Nat.div_mul_cancel (Nat.dvd_of_mod_eq_zero hva)
  have hn : size / PGSIZE * PGSIZE = size := Nat.div_mul_cancel (Nat.dvd_of_mod_eq_zero hsize)
  have hpage : PGSIZE ≤ size := Nat.le_of_dvd hpos (Nat.dvd_of_mod_eq_zero hsize)
  have hmax : MAXVA + 72057594037927936 < 18446744073709551616 := by decide
  have hlast : uint64 ((va : Int) + size - PGSIZE) = va + size - PGSIZE := by
    unfold uint64
    omega
  have hsum : va + size - PGSIZE + PGSIZE = (va / PGSIZE + size / PGSIZE) * PGSIZE := by
    rw [Nat.add_mul, hp, hn]
    omega
  have hroom : pa + size / PGSIZE * PGSIZE ≤ 18446744073709551616 := by
    rw [hn]
    omega
  have hloop := mappagesLoop_grow h hfresh (Nat.div_pos hpage (by decide)) hsum
    (by rw [← hsum]; omega) hroom hperm fun va' h₁ h₂ => by
      obtain ⟨hlow, hhigh⟩ := (mem_range hva hsize).mp ⟨h₁, h₂⟩
      exact hclear va' hlow hhigh
  unfold mappages
  rw [if_neg (by omega), if_neg (by omega), if_neg (by omega), hlast]
  rw [hp] at hloop
  exact hloop

theorem uvmunmap_unmapped {npages : Nat} {do_free : Bool} (h : Tree m root) (hva : va % PGSIZE = 0)
    (hend : va + npages * PGSIZE ≤ MAXVA)
    (hfree : do_free = true → ∀ a ∈ pagesOf m root (va / PGSIZE) npages,
      Freeable kernelEnd a ∧ ¬ IsTable m root a) :
    ∃ m', uvmunmap kernelEnd m root va npages do_free = .ok m' ∧
      Unmapped m m' root (va / PGSIZE) npages
        (if do_free then pagesOf m root (va / PGSIZE) npages else []) := by
  have hp : va / PGSIZE * PGSIZE = va := Nat.div_mul_cancel (Nat.dvd_of_mod_eq_zero hva)
  have hmax : MAXVA < 18446744073709551616 := by decide
  have hlast : uint64 ((va : Int) + npages * PGSIZE) = (va / PGSIZE + npages) * PGSIZE := by
    rw [Nat.add_mul, hp]
    unfold uint64
    omega
  have hloop := uvmunmapLoop_unmapped (p := va / PGSIZE) (k := npages) h
    (by rw [Nat.add_mul, hp]; exact hend) hfree
  unfold uvmunmap
  rw [if_neg (by omega), hlast]
  rw [hp] at hloop
  exact hloop

theorem ismapped_eq (hva : va < MAXVA) :
    ismapped m root va = .ok (entry m root va &&& PTE_V ≠ 0) := by
  unfold ismapped
  rw [walk_find hva]
  cases ht : tableAt m root (route va 2) with
  | none =>
    rw [entry_none ht]
    rfl
  | some t =>
    rw [entry_some ht]
    simp only [Option.map_some]

/-! ## Maps -/

/-- Where a page lies, and what it may be used for. -/
structure Mapping where
  pa : Nat
  perm : Nat

/-- The pages of an address space, by their number. -/
abbrev Map := Nat → Option Mapping

/-- `n` pages from `p` on are mapped to the memory from `pa` on. -/
def Map.map (M : Map) (p n pa perm : Nat) : Map := fun q =>
  if p ≤ q ∧ q < p + n then some ⟨pa + (q - p) * PGSIZE, perm⟩ else M q

def Map.unmap (M : Map) (p n : Nat) : Map := fun q => if p ≤ q ∧ q < p + n then none else M q

/-- The memory of the user's page at the address, or 0. -/
def Map.lookup (M : Map) (va : Nat) : Nat :=
  (M (va / PGSIZE)).elim 0 fun x => if x.perm &&& PTE_U = 0 then 0 else x.pa

/-- The memory that a range of pages is mapped to, page by page. -/
def Map.frames (M : Map) (p n : Nat) : List Nat := (List.range' p n).filterMap fun q => (M q).map Mapping.pa

/-- The page table stands for the map. -/
structure Represents (m : Mem) (root : Nat) (M : Map) : Prop where
  tree : Tree m root
  absent : ∀ va < MAXVA, M (va / PGSIZE) = none → entry m root va &&& PTE_V = 0
  present : ∀ va < MAXVA, ∀ x, M (va / PGSIZE) = some x → entry m root va = leaf x.pa x.perm
  good : ∀ q x, M q = some x → x.pa % PGSIZE = 0 ∧ 0 < x.pa ∧ x.pa < 18446744073709551616 ∧ x.perm < 1024
  bound : ∀ q, MAXVA ≤ q * PGSIZE → M q = none

variable {M : Map}

theorem Represents.walkaddr (h : Represents m root M) (va : Nat) :
    walkaddr m root va = .ok (M.lookup va) := by
  unfold Map.lookup
  by_cases hva : va < MAXVA
  · rw [walkaddr_eq hva]
    cases hM : M (va / PGSIZE) with
    | none => rw [if_pos (h.absent va hva hM), Option.elim_none]
    | some x =>
      obtain ⟨haligned, -, hlt, hperm⟩ := h.good _ x hM
      rw [h.present va hva x hM, if_neg (leaf_valid x.pa x.perm), Option.elim_some]
      unfold leaf
      rw [PTE2PA_entry hlt haligned hperm]
      simp only [entry_user]
  · have hbound : MAXVA ≤ va / PGSIZE * PGSIZE := by
      unfold MAXVA PGSIZE at *
      omega
    unfold pagetable.walkaddr
    rw [if_pos (Nat.le_of_not_lt hva), h.bound _ hbound, Option.elim_none]

theorem Represents.ismapped (h : Represents m root M) (hva : va < MAXVA) :
    ismapped m root va = .ok (M (va / PGSIZE)).isSome := by
  rw [ismapped_eq hva]
  cases hM : M (va / PGSIZE) with
  | none =>
    rw [h.absent va hva hM]
    rfl
  | some x =>
    have hvalid := leaf_valid x.pa x.perm
    rw [h.present va hva x hM]
    simp [hvalid]

theorem Represents.pagesOf_eq (h : Represents m root M) (hend : (p + n) * PGSIZE ≤ MAXVA) :
    pagesOf m root p n = M.frames p n := by
  apply List.filterMap_congr
  intro q hq
  rw [List.mem_range'_1] at hq
  have hva : q * PGSIZE < MAXVA :=
    Nat.lt_of_lt_of_le (Nat.mul_lt_mul_of_pos_right hq.2 (by decide)) hend
  have hpage : q * PGSIZE / PGSIZE = q := Nat.mul_div_cancel q (by decide)
  cases hM : M q with
  | none => exact child_invalid (not_not.mpr (h.absent _ hva (hpage.symm ▸ hM)))
  | some x =>
    obtain ⟨haligned, -, hlt, hperm⟩ := h.good q x hM
    rw [h.present _ hva x (hpage.symm ▸ hM), child_valid (leaf_valid x.pa x.perm), Option.map_some]
    exact congrArg some (PTE2PA_entry hlt haligned hperm)

theorem Represents.frame_pos (h : Represents m root M) (ha : a ∈ M.frames p n) : 0 < a := by
  obtain ⟨q, -, hq⟩ := List.mem_filterMap.mp ha
  obtain ⟨x, hM, rfl⟩ := Option.map_eq_some_iff.mp hq
  exact (h.good q x hM).2.1

/-- Pages are added to the map. -/
theorem Represents.map (h : Represents m root M) (hgrown : Grown m m' root used)
    (hend : (p + n) * PGSIZE ≤ MAXVA) (haligned : pa % PGSIZE = 0) (hpos : 0 < pa)
    (hpa : pa < 72057594037927936) (hperm : perm < 1024)
    (hentry : ∀ va < MAXVA, entry m' root va = if p ≤ va / PGSIZE ∧ va / PGSIZE < p + n then
      leaf (pa + (va / PGSIZE - p) * PGSIZE) perm else entry m root va) :
    Represents m' root (M.map p n pa perm) where
  tree := hgrown.tree
  absent va hva hM := by
    unfold Map.map at hM
    by_cases hin : p ≤ va / PGSIZE ∧ va / PGSIZE < p + n
    · rw [if_pos hin] at hM
      cases hM
    · rw [if_neg hin] at hM
      rw [hentry va hva, if_neg hin]
      exact h.absent va hva hM
  present va hva x hM := by
    unfold Map.map at hM
    by_cases hin : p ≤ va / PGSIZE ∧ va / PGSIZE < p + n
    · rw [if_pos hin] at hM
      cases hM
      rw [hentry va hva, if_pos hin]
    · rw [if_neg hin] at hM
      rw [hentry va hva, if_neg hin]
      exact h.present va hva x hM
  good q x hM := by
    unfold Map.map at hM
    by_cases hin : p ≤ q ∧ q < p + n
    · rw [if_pos hin] at hM
      obtain rfl := (Option.some.inj hM).symm
      simp only
      unfold PGSIZE MAXVA at *
      omega
    · rw [if_neg hin] at hM
      exact h.good q x hM
  bound q hq := by
    have hout : ¬ (p ≤ q ∧ q < p + n) := by
      unfold PGSIZE MAXVA at *
      omega
    unfold Map.map
    rw [if_neg hout]
    exact h.bound q hq

/-- Pages are taken from the map. -/
theorem Represents.unmap (h : Represents m root M) (hun : Unmapped m m' root p n used) :
    Represents m' root (M.unmap p n) where
  tree := hun.tree
  absent va hva hM := by
    unfold Map.unmap at hM
    by_cases hin : p ≤ va / PGSIZE ∧ va / PGSIZE < p + n
    · exact hun.inside va hva hin.1 hin.2
    · rw [if_neg hin] at hM
      rw [hun.others va hva hin]
      exact h.absent va hva hM
  present va hva x hM := by
    unfold Map.unmap at hM
    by_cases hin : p ≤ va / PGSIZE ∧ va / PGSIZE < p + n
    · rw [if_pos hin] at hM
      cases hM
    · rw [if_neg hin] at hM
      rw [hun.others va hva hin]
      exact h.present va hva x hM
  good q x hM := by
    unfold Map.unmap at hM
    by_cases hin : p ≤ q ∧ q < p + n
    · rw [if_pos hin] at hM
      cases hM
    · rw [if_neg hin] at hM
      exact h.good q x hM
  bound q hq := by
    unfold Map.unmap
    by_cases hin : p ≤ q ∧ q < p + n
    · rw [if_pos hin]
    · rw [if_neg hin]
      exact h.bound q hq

/-- The tables are not changed. -/
theorem Represents.congr (h : Represents m root M) (hs : ∀ a, IsTable m root a → m'.page a = m.page a) :
    Represents m' root M := by
  obtain ⟨htree, -, hentry⟩ := h.tree.congr hs
  refine ⟨htree, fun va hva hM => ?_, fun va hva x hM => ?_, h.good, h.bound⟩
  · rw [hentry]
    exact h.absent va hva hM
  · rw [hentry]
    exact h.present va hva x hM

/-! ## A new page table -/

theorem Tree.new (hroot : IsPage root) (hzero : ∀ i, m.pte root i = 0) :
    Tree m root ∧ (∀ a, IsTable m root a ↔ a = root) ∧ ∀ va, entry m root va = 0 := by
  have honly : ∀ p a, tableAt m root p = some a → p = [] ∧ a = root := by
    intro p
    induction p with
    | nil => exact fun a ha => ⟨rfl, (Option.some.inj ha).symm⟩
    | cons i p ih =>
      intro a ha
      unfold tableAt at ha ih
      rw [node, Option.bind_eq_some_iff] at ha
      obtain ⟨b, hb, ha⟩ := ha
      obtain ⟨-, rfl⟩ := ih b hb
      rw [hzero, child_invalid (by decide)] at ha
      cases ha
  refine ⟨⟨fun p q a _ _ hp hq => ?_, ?_, ?_, fun i hvalid => ?_⟩, fun a => ⟨?_, ?_⟩, fun va => ?_⟩
  · rw [(honly p a hp).1, (honly q a hq).1]
  · rintro a ⟨p, -, ha⟩
    rw [(honly p a ha).2]
    exact hroot
  · intro p a i _ ha hvalid
    rw [(honly p a ha).2, hzero] at hvalid
    exact absurd rfl hvalid
  · rw [hzero] at hvalid
    exact absurd rfl hvalid
  · rintro ⟨p, -, ha⟩
    exact (honly p a ha).2
  · rintro rfl
    exact ⟨[], Nat.zero_le 2, rfl⟩
  · cases ht : tableAt m root (route va 2) with
    | none => exact entry_none ht
    | some t =>
      have hlen := congrArg List.length (honly _ t ht).1
      rw [length_route] at hlen
      cases hlen

/-- The free pages are pages, and none is free twice. -/
structure FreeList (m : Mem) : Prop where
  nodup : m.freelist.Nodup
  page : ∀ a ∈ m.freelist, IsPage a

theorem uvmcreate_new {free : List Nat} (hm : FreeList m) (h : m.freelist = root :: free) :
    ∃ m', uvmcreate m = (m', some root) ∧ m'.freelist = free ∧ Tree m' root ∧ Fresh m' root ∧
      (∀ a, IsTable m' root a ↔ a = root) ∧ (∀ va, entry m' root va = 0) ∧
      ∀ a, a ≠ root → m'.page a = m.page a := by
  obtain ⟨m₁, hkalloc, hfree, hsame⟩ := kalloc_some h
  have hnodup := hm.nodup
  have hpage := hm.page
  rw [h] at hnodup hpage
  obtain ⟨htree, htable, hentry⟩ :=
    Tree.new (hpage root List.mem_cons_self) fun i => pte_memset_zero (m := m₁) (a := root) i
  refine ⟨m₁.memset root 0, ?_, hfree, htree, ⟨?_, fun a ha => ?_, fun a ha htab => ?_⟩, htable, hentry,
    fun a ha => ?_⟩
  · unfold uvmcreate
    rw [hkalloc]
  · rw [memset_freelist, hfree]
    exact hnodup.of_cons
  · rw [memset_freelist, hfree] at ha
    exact hpage a (List.mem_cons_of_mem root ha)
  · rw [memset_freelist, hfree] at ha
    obtain rfl := (htable a).mp htab
    exact (List.nodup_cons.mp hnodup).1 ha
  · rw [memset_page ha, hsame a ha]

/-- A new page table has nothing in it. -/
theorem Represents.new (h : Tree m root) (hentry : ∀ va, entry m root va = 0) :
    Represents m root fun _ => none where
  tree := h
  absent va _ _ := by
    rw [hentry]
    rfl
  present _ _ _ hx := nomatch hx
  good _ _ hx := nomatch hx
  bound _ _ := rfl

/-! ## Runs -/

structure State where
  mem : Mem
  root : Nat
  /-- the last `mappages` returned 0 -/
  done : Bool
  panicked : Option Panic

inductive Act
  | mappages (va size pa perm : Nat)
  | uvmunmap (va npages : Nat) (do_free : Bool)
  /-- what else there is in the memory changes, and which pages are free -/
  | others (mem : Mem)

def State.start (m : Mem) : Option State :=
  match uvmcreate m with
  | (_, none) => none
  | (m, some root) => some ⟨m, root, true, none⟩

def State.took (s : State) : Except Panic (Mem × Bool) → State
  | .error e => { s with panicked := some e }
  | .ok (m, done) => { s with mem := m, done := done }

def State.step (kernelEnd : Nat) (s : State) (a : Act) : Option State :=
  if s.panicked.isSome then none
  else
    match a with
    | .mappages va size pa perm => some (s.took (mappages s.mem s.root va size pa perm))
    | .uvmunmap va npages do_free =>
      some (s.took ((uvmunmap kernelEnd s.mem s.root va npages do_free).map (·, s.done)))
    | .others m => some { s with mem := m }

/-- The calls map pages that are not mapped, and free pages of their own; the tables belong to the
page table. -/
def Call (kernelEnd : Nat) (s : State) : Act → Prop
  | .mappages va size pa perm =>
    va % PGSIZE = 0 ∧ size % PGSIZE = 0 ∧ 0 < size ∧ va + size ≤ MAXVA ∧
      pa % PGSIZE = 0 ∧ 0 < pa ∧ pa < 72057594037927936 ∧ perm < 1024 ∧
      ∀ va', va ≤ va' → va' < va + size → ismapped s.mem s.root va' = .ok false
  | .uvmunmap va npages do_free =>
    va % PGSIZE = 0 ∧ va + npages * PGSIZE ≤ MAXVA ∧
      (do_free = true → (pagesOf s.mem s.root (va / PGSIZE) npages).Nodup ∧
        ∀ a ∈ pagesOf s.mem s.root (va / PGSIZE) npages,
          Freeable kernelEnd a ∧ ¬ IsTable s.mem s.root a ∧ a ∉ s.mem.freelist)
  | .others m =>
    (∀ a, IsTable s.mem s.root a → m.page a = s.mem.page a) ∧ Fresh m s.root

/-- What a call does, to the map and to the memory. `mappages` takes its tables from the free pages
and writes to nothing but tables; one that fails has mapped the first pages and found the memory at
its end. `uvmunmap` keeps the tables, and frees what its pages were mapped to if it is asked to. -/
inductive Does (s s' : State) : Act → Map → Map → Prop
  | mapped {va size pa perm : Nat} {M : Map} {used : List Nat} : s'.done = true →
      Grown s.mem s'.mem s.root used →
      Does s s' (.mappages va size pa perm) M (M.map (va / PGSIZE) (size / PGSIZE) pa perm)
  | failed {va size pa perm k : Nat} {M : Map} {used : List Nat} : s'.done = false →
      s'.mem.freelist = [] → k < size / PGSIZE → Grown s.mem s'.mem s.root used →
      Does s s' (.mappages va size pa perm) M (M.map (va / PGSIZE) k pa perm)
  | unmapped {va npages : Nat} {do_free : Bool} {M : Map} :
      Unmapped s.mem s'.mem s.root (va / PGSIZE) npages
        (if do_free then M.frames (va / PGSIZE) npages else []) →
      Does s s' (.uvmunmap va npages do_free) M (M.unmap (va / PGSIZE) npages)
  | others {M : Map} : Does s s' (.others s'.mem) M M

/-- The tables hold the map, entry by entry, each in a page of its own that is not free, and
`walkaddr` and `ismapped` find what the map has. -/
structure Agrees (s : State) (M : Map) : Prop where
  represents : Represents s.mem s.root M
  fresh : Fresh s.mem s.root
  walkaddr : ∀ va, walkaddr s.mem s.root va = .ok (M.lookup va)
  ismapped : ∀ va < MAXVA, ismapped s.mem s.root va = .ok (M (va / PGSIZE)).isSome

/-- The map behind each call of a run. -/
inductive History (kernelEnd : Nat) (s₀ : State) : List Act → State → Map → Prop
  | start : Agrees s₀ (fun _ => none) → History kernelEnd s₀ [] s₀ fun _ => none
  | call {as : List Act} {s s' : State} {a : Act} {M M' : Map} : History kernelEnd s₀ as s M →
      s.step kernelEnd a = some s' → s'.root = s.root → Does s s' a M M' → Agrees s' M' →
      History kernelEnd s₀ (as ++ [a]) s' M'

structure Valid (s : State) (M : Map) : Prop where
  safe : s.panicked = none
  represents : Represents s.mem s.root M
  fresh : Fresh s.mem s.root

theorem Valid.agrees {s : State} (h : Valid s M) : Agrees s M where
  represents := h.represents
  fresh := h.fresh
  walkaddr := h.represents.walkaddr
  ismapped _ hva := h.represents.ismapped hva

variable {s s' s₀ : State} {act : Act} {as : List Act}

theorem State.start_valid (hm : FreeList m) (h : State.start m = some s₀) : Valid s₀ fun _ => none := by
  unfold State.start at h
  cases hfree : m.freelist with
  | nil =>
    unfold uvmcreate at h
    rw [kalloc_none hfree] at h
    cases h
  | cons root free =>
    obtain ⟨m', hcreate, -, htree, hfresh, -, hentry, -⟩ := uvmcreate_new hm hfree
    rw [hcreate] at h
    cases h
    exact ⟨rfl, .new htree hentry, hfresh⟩

theorem Fresh.unmapped (h : Fresh m root) (hun : Unmapped m m' root p n used) (hnodup : used.Nodup)
    (hused : ∀ a ∈ used, IsPage a ∧ ¬ IsTable m root a ∧ a ∉ m.freelist) : Fresh m' root := by
  refine ⟨?_, fun a ha => ?_, fun a ha htable => ?_⟩
  · rw [hun.freelist, List.nodup_append]
    refine ⟨List.nodup_reverse.mpr hnodup, h.nodup, ?_⟩
    rintro a ha b hb rfl
    exact (hused a (List.mem_reverse.mp ha)).2.2 hb
  · rw [hun.freelist, List.mem_append, List.mem_reverse] at ha
    exact ha.elim (fun ha => (hused a ha).1) (h.page a)
  · rw [hun.freelist, List.mem_append, List.mem_reverse] at ha
    have hold := hun.isTable.mp htable
    exact ha.elim (fun ha => (hused a ha).2.1 hold) fun ha => h.apart a ha hold

theorem Valid.step (h : Valid s M) (hcall : Call kernelEnd s act) (hs : s.step kernelEnd act = some s') :
    s'.root = s.root ∧ ∃ M', Does s s' act M M' ∧ Valid s' M' := by
  have hsafe : s.panicked.isSome = false := by rw [h.safe, Option.isSome_none]
  unfold State.step at hs
  rw [hsafe] at hs
  cases act with
  | mappages va size pa perm =>
    obtain ⟨hva, hsize, hpos, hend, haligned, hpa, hlt, hperm, hclear⟩ := hcall
    obtain ⟨m', used, n, done, heq, hgrown, hn, hentry⟩ :=
      mappages_grow h.represents.tree h.fresh hva hsize hpos hend hlt hperm fun va' h₁ h₂ => by
        have hmap := hclear va' h₁ h₂
        rw [ismapped_eq (by omega)] at hmap
        exact not_not.mp (of_decide_eq_false (Except.ok.inj hmap))
    simp only [heq, State.took] at hs
    cases hs
    have hle : n ≤ size / PGSIZE := hn.elim (fun hd => Nat.le_of_eq hd.2) fun hd => Nat.le_of_lt hd.2.1
    have hrange : (va / PGSIZE + n) * PGSIZE ≤ MAXVA := by
      unfold PGSIZE at *
      omega
    have hvalid := h.represents.map hgrown hrange haligned hpa hlt hperm hentry
    rcases hn with ⟨rfl, rfl⟩ | ⟨rfl, hn, hend⟩
    · exact ⟨rfl, _, .mapped rfl hgrown, h.safe, hvalid, h.fresh.grown hgrown⟩
    · exact ⟨rfl, _, .failed rfl hend hn hgrown, h.safe, hvalid, h.fresh.grown hgrown⟩
  | uvmunmap va npages do_free =>
    obtain ⟨hva, hend, hfree⟩ := hcall
    obtain ⟨m', heq, hun⟩ := uvmunmap_unmapped h.represents.tree hva hend
      fun hdo a ha => ⟨((hfree hdo).2 a ha).1, ((hfree hdo).2 a ha).2.1⟩
    simp only [heq, State.took, Except.map] at hs
    cases hs
    have hrange : (va / PGSIZE + npages) * PGSIZE ≤ MAXVA := by
      unfold PGSIZE at *
      omega
    rw [h.represents.pagesOf_eq hrange] at hfree hun
    refine ⟨rfl, _, .unmapped hun, h.safe, h.represents.unmap hun, ?_⟩
    apply h.fresh.unmapped hun
    · cases do_free with
      | false => exact List.nodup_nil
      | true => exact (hfree rfl).1
    · intro a ha
      cases do_free with
      | false => exact absurd ha List.not_mem_nil
      | true =>
        obtain ⟨⟨haligned, -, hlt⟩, hrest⟩ := (hfree rfl).2 a ha
        refine ⟨⟨haligned, h.represents.frame_pos ha, ?_⟩, hrest⟩
        unfold PHYSTOP KERNBASE at hlt
        omega
  | others m =>
    obtain ⟨hsame, hfresh⟩ := hcall
    cases hs
    exact ⟨rfl, M, .others, h.safe, h.represents.congr hsame, hfresh⟩

/-- A page table that is made by `uvmcreate` is a map, whatever is mapped and unmapped in it and
wherever the memory ends. A `mappages` that succeeds adds its range, one that fails, which it does
only at the end of the memory, adds a part of it from its start, and `uvmunmap` takes its range away.
The entries, `walkaddr` and `ismapped` have what the map has, and no table is shared or free. No call
panics. -/
theorem page_tables_are_maps (hm : FreeList m) (hstart : State.start m = some s₀)
    (hrun : Run (State.step kernelEnd) (Call kernelEnd) s₀ as s) :
    s.panicked = none ∧ ∃ M, History kernelEnd s₀ as s M := by
  have hvalid : ∃ M, History kernelEnd s₀ as s M ∧ Valid s M := by
    refine hrun.invariant_along (P := fun as s => ∃ M, History kernelEnd s₀ as s M ∧ Valid s M) ?_ ?_
    · have h := State.start_valid hm hstart
      exact ⟨_, .start h.agrees, h⟩
    · rintro as s act s' - ⟨M, hhistory, h⟩ hcall hs
      obtain ⟨hroot, M', hdoes, h'⟩ := h.step hcall hs
      exact ⟨M', .call hhistory hs hroot hdoes h'.agrees, h'⟩
  obtain ⟨M, hhistory, h⟩ := hvalid
  exact ⟨h.safe, M, hhistory⟩

/-- Three free pages, which is what the tables of one range take. -/
def threePages : Mem where
  page _ _ := 0
  freelist := [2281689088, 2281693184, 2281697280]

/-- Two pages are mapped, the second one is unmapped and freed, and then the tables for a page far
off do not fit. -/
def someCalls : List Act :=
  [.mappages 0 8192 2281680896 22, .uvmunmap 4096 1 true, .mappages 1073741824 4096 2281660416 22]

/-- The steps of the calls, with what is to be seen behind each. -/
theorem someCalls_computed : ∃ s₀ s₁ s₂ s₃, State.start threePages = some s₀ ∧
    s₀.step 2147483648 (.mappages 0 8192 2281680896 22) = some s₁ ∧
    s₁.step 2147483648 (.uvmunmap 4096 1 true) = some s₂ ∧
    s₂.step 2147483648 (.mappages 1073741824 4096 2281660416 22) = some s₃ ∧
    s₀.root = 2281689088 ∧ s₀.mem.freelist = [2281693184, 2281697280] ∧ s₁.done = true ∧
    s₂.mem.freelist = [2281684992] ∧ s₃.done = false ∧
    (walkaddr s₃.mem s₃.root 0).toOption = some 2281680896 ∧
    (walkaddr s₃.mem s₃.root 4096).toOption = some 0 := by
  have hcomputed : ((State.start threePages).any fun s₀ =>
      (s₀.step 2147483648 (.mappages 0 8192 2281680896 22)).any fun s₁ =>
        (s₁.step 2147483648 (.uvmunmap 4096 1 true)).any fun s₂ =>
          (s₂.step 2147483648 (.mappages 1073741824 4096 2281660416 22)).any fun s₃ =>
            s₀.root = 2281689088 ∧ s₀.mem.freelist = [2281693184, 2281697280] ∧ s₁.done = true ∧
            s₂.mem.freelist = [2281684992] ∧ s₃.done = false ∧
            (walkaddr s₃.mem s₃.root 0).toOption = some 2281680896 ∧
            (walkaddr s₃.mem s₃.root 4096).toOption = some 0) = true := by
    decide +kernel
  simp only [Option.any_eq_true, decide_eq_true_eq] at hcomputed
  obtain ⟨s₀, hstart, s₁, hs₁, s₂, hs₂, s₃, hs₃, hend⟩ := hcomputed
  exact ⟨s₀, s₁, s₂, s₃, hstart, hs₁, hs₂, hs₃, hend⟩

theorem a_range_is_mapped : ∃ s₀ s, State.start threePages = some s₀ ∧
    Run (State.step 2147483648) (Call 2147483648) s₀ someCalls s ∧
    (s.panicked = none ∧ ∃ M, History 2147483648 s₀ someCalls s M) ∧
    s.done = false ∧ (walkaddr s.mem s.root 0).toOption = some 2281680896 ∧
    (walkaddr s.mem s.root 4096).toOption = some 0 := by
  have hm : FreeList threePages := by
    refine ⟨by decide, ?_⟩
    unfold IsPage
    decide
  obtain ⟨s₀, s₁, s₂, s₃, hstart, hs₁, hs₂, hs₃, hroot, hfree₀, hdone₁, hfree₂, hend⟩ :=
    someCalls_computed
  have h₀ := State.start_valid hm hstart
  have htable₀ : ∀ a, IsTable s₀.mem s₀.root a → a = 2281689088 := by
    obtain ⟨m', hcreate, -, -, -, htable, -⟩ := uvmcreate_new hm rfl
    unfold State.start at hstart
    rw [hcreate] at hstart
    cases hstart
    exact fun a ha => (htable a).mp ha
  have hfirst : Call 2147483648 s₀ (.mappages 0 8192 2281680896 22) := by
    refine ⟨rfl, rfl, by decide, by decide, rfl, by decide, by decide, by decide, fun va' _ hlt => ?_⟩
    exact h₀.represents.ismapped (Nat.lt_trans hlt (by decide))
  obtain ⟨hroot₁, M₁, hdoes₁, h₁⟩ := h₀.step hfirst hs₁
  cases hdoes₁ with
  | failed hdone => exact absurd (hdone₁.symm.trans hdone) (by decide)
  | mapped _ hgrown =>
    have hframes : pagesOf s₁.mem s₁.root 1 1 = [2281684992] :=
      (h₁.represents.pagesOf_eq (by decide)).trans (by decide)
    have hused := hgrown.freelist
    rw [hfree₀] at hused
    have hsecond : Call 2147483648 s₁ (.uvmunmap 4096 1 true) := by
      refine ⟨rfl, by decide, fun _ => ?_⟩
      change (pagesOf s₁.mem s₁.root 1 1).Nodup ∧ ∀ a ∈ pagesOf s₁.mem s₁.root 1 1, _
      rw [hframes]
      refine ⟨by decide, fun a ha => ?_⟩
      obtain rfl := List.mem_singleton.mp ha
      have hout : 2281684992 ∉ [2281693184, 2281697280] := by decide
      rw [hused, List.mem_append, not_or] at hout
      refine ⟨⟨rfl, by decide, by decide⟩, fun htab => ?_, hout.2⟩
      rw [hroot₁] at htab
      rcases (hgrown.tables _).mp htab with hold | hnew
      · exact absurd (htable₀ _ hold) (by decide)
      · exact hout.1 hnew
    obtain ⟨hroot₂, M₂, hdoes₂, h₂⟩ := h₁.step hsecond hs₂
    cases hdoes₂ with
    | unmapped =>
      have hthird : Call 2147483648 s₂ (.mappages 1073741824 4096 2281660416 22) := by
        refine ⟨rfl, rfl, by decide, by decide, rfl, by decide, by decide, by decide,
          fun va' hle hlt => ?_⟩
        have hpage : va' / PGSIZE = 262144 := by
          unfold PGSIZE
          omega
        rw [h₂.represents.ismapped (Nat.lt_trans hlt (by decide)), hpage]
        rfl
      have hrun := ((Run.nil.snoc hfirst hs₁).snoc hsecond hs₂).snoc hthird hs₃
      exact ⟨s₀, s₃, hstart, hrun, page_tables_are_maps hm hstart hrun, hend⟩

end xv6.pagetable
