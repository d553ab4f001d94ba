-- What the calls on one address space do to its pages (kernel/vm.c,
-- kernel/proc.c): each one keeps the space a space, or gives all of it back.
import SysNet.Xv6.SpacePages

open bytes radix shares

namespace xv6.spaces

open vm (PGSIZE MAXVA TRAMPOLINE TRAPFRAME uint64 PGROUNDUP PGROUNDDOWN)
open pagetable

variable {k : Image} {m m' m'' : Mem} {M M' M'' : Map} {root t a b pa perm va p q n sz oldsz newsz : Nat}
  {used free hand : List Nat} {i j : Fin 512}

/-! ## uvmunmap -/

/-- The user's pages of a range are freed. -/
theorem Space.unmap (h : Space k m root M hand) (hend : p + n ≤ USER) :
    ∃ m', uvmunmap k.kernelEnd m root (p * PGSIZE) n true = .ok m' ∧
      Space k m' root (M.unmap p n) hand ∧
      Moved m m' (hand ++ share m root M) (hand ++ share m' root (M.unmap p n)) ∧
      Contents m m' M (M.unmap p n) := by
  have hmax : (p + n) * PGSIZE ≤ MAXVA := by
    have hle : (p + n) * PGSIZE ≤ USER * PGSIZE := Nat.mul_le_mul_right PGSIZE hend
    have huser : USER * PGSIZE ≤ MAXVA := by decide
    exact Nat.le_trans hle huser
  have hpage : p * PGSIZE / PGSIZE = p := Nat.mul_div_cancel p (by decide)
  have huser := userPages_unmap (M := M) hend
  have hpages := h.represents.pagesOf_eq hmax
  have hmem : ∀ a ∈ M.frames p n, a ∈ userPages M := by
    intro a ha
    exact huser.mem_iff.mpr (List.mem_append_left _ ha)
  have hrange : p * PGSIZE + n * PGSIZE ≤ MAXVA := by
    rw [← Nat.add_mul]
    exact hmax
  have hfree : true = true → ∀ a ∈ pagesOf m root (p * PGSIZE / PGSIZE) n,
      Freeable k.kernelEnd a ∧ ¬ IsTable m root a := by
    intro _ a ha
    rw [hpage, hpages] at ha
    refine ⟨h.pages.page a ?_, h.user_not_table (hmem a ha)⟩
    exact List.mem_append_right _ (List.mem_append_right _ (List.mem_append_right _ (hmem a ha)))
  obtain ⟨m', heq, hun⟩ :=
    uvmunmap_unmapped h.represents.tree (Nat.mul_mod_left p PGSIZE) hrange hfree
  rw [hpage, if_pos rfl, hpages] at hun
  have htables := tablesOf_unmapped h.represents.tree hun
  have hmoved : Moved m m' (hand ++ share m root M) (hand ++ share m' root (M.unmap p n)) := by
    refine ⟨?_, fun a ha => hun.outside a (fun htable => ha ?_) fun hfreed => ha ?_⟩
    · unfold share
      rw [hun.freelist, List.perm_iff_count] at *
      intro x
      have h₁ := htables x
      have h₂ := huser x
      simp only [List.count_append, List.count_reverse] at h₁ h₂ ⊢
      omega
    · exact List.mem_append_right _ (List.mem_append_right _ (List.mem_append_left _ (mem_tablesOf.mpr htable)))
    · exact List.mem_append_right _ (List.mem_append_right _ (List.mem_append_right _ (hmem a hfreed)))
  have hapart := huser.nodup_iff.mp h.nodup_user
  refine ⟨m', heq, ⟨h.represents.unmap hun, h.pages.moved hmoved⟩, hmoved, fun q hq x hx => Or.inl ?_⟩
  have hleft := mem_userPages hq hx
  have hx' : M q = some x := by
    unfold Map.unmap at hx
    by_cases hin : p ≤ q ∧ q < p + n
    · rw [if_pos hin] at hx
      cases hx
    · rwa [if_neg hin] at hx
  refine ⟨hx', hun.outside x.pa (h.user_not_table (mem_userPages hq hx')) fun hfreed => ?_⟩
  exact (List.nodup_append.mp hapart).2.2 x.pa hfreed x.pa hleft rfl

/-- A page of the kernel is unmapped and not freed. -/
theorem Space.unmap_kernel (h : Space k m root M hand) (hq : USER ≤ q) (hend : (q + 1) * PGSIZE ≤ MAXVA) :
    ∃ m', uvmunmap k.kernelEnd m root (q * PGSIZE) 1 false = .ok m' ∧
      Space k m' root (M.unmap q 1) hand ∧
      Moved m m' (hand ++ share m root M) (hand ++ share m' root (M.unmap q 1)) := by
  have hpage : q * PGSIZE / PGSIZE = q := Nat.mul_div_cancel q (by decide)
  have hrange : q * PGSIZE + 1 * PGSIZE ≤ MAXVA := by
    rw [← Nat.add_mul]
    exact hend
  have hfree : false = true → ∀ a ∈ pagesOf m root (q * PGSIZE / PGSIZE) 1,
      Freeable k.kernelEnd a ∧ ¬ IsTable m root a := fun hdo => nomatch hdo
  obtain ⟨m', heq, hun⟩ :=
    uvmunmap_unmapped h.represents.tree (Nat.mul_mod_left q PGSIZE) hrange hfree
  rw [hpage, if_neg Bool.false_ne_true] at hun
  have htables := tablesOf_unmapped h.represents.tree hun
  have hmoved : Moved m m' (hand ++ share m root M) (hand ++ share m' root (M.unmap q 1)) := by
    refine ⟨?_, fun a ha => hun.outside a (fun htable => ha ?_) List.not_mem_nil⟩
    · unfold share
      rw [hun.freelist, List.reverse_nil, List.nil_append, userPages_unmap_high hq]
      exact ((htables.append_right _).append_left hand).append_left _
    · exact List.mem_append_right _ (List.mem_append_right _ (List.mem_append_left _ (mem_tablesOf.mpr htable)))
  exact ⟨m', heq, ⟨h.represents.unmap hun, h.pages.moved hmoved⟩, hmoved⟩

/-! ## freewalk -/

section

variable {f : Mem → Nat → Except Panic Mem} {below : Nat → List Nat} {is : List (Fin 512)}

theorem freewalkLoop_skip (h : ∀ i ∈ is, ¬ m.pte t i &&& PTE_V ≠ 0) :
    freewalkLoop f t is m = .ok m := by
  induction is with
  | nil => rfl
  | cons i is ih =>
    have hi := h i List.mem_cons_self
    rw [freewalkLoop, if_neg fun hand => hi hand.1, if_neg hi]
    exact ih fun j hj => h j (List.mem_cons_of_mem i hj)

/-- The entries of a table whose tables below are freed one after the other. -/
theorem freewalkLoop_freed
    (hstep : ∀ i c m₁, child (m.pte t i) = some c → (∀ a ∈ below c, m₁.page a = m.page a) →
      ∃ m₂, f m₁ c = .ok m₂ ∧ m₂.freelist = (below c).reverse ++ m₁.freelist ∧
        ∀ a, a ∉ below c → m₂.page a = m₁.page a)
    (hinner : ∀ i, m.pte t i &&& PTE_V ≠ 0 → m.pte t i &&& (PTE_R ||| PTE_W ||| PTE_X) = 0)
    (his : is.Nodup)
    (hnodup : (is.flatMap fun i => (child (m.pte t i)).elim [] below).Nodup)
    (ht : t ∉ is.flatMap fun i => (child (m.pte t i)).elim [] below) {m₁ : Mem}
    (hpte : ∀ i ∈ is, m₁.pte t i = m.pte t i)
    (hsame : ∀ a ∈ is.flatMap fun i => (child (m.pte t i)).elim [] below, m₁.page a = m.page a) :
    ∃ m₂, freewalkLoop f t is m₁ = .ok m₂ ∧
      m₂.freelist = (is.flatMap fun i => (child (m.pte t i)).elim [] below).reverse ++ m₁.freelist ∧
      ∀ a, a ≠ t → a ∉ (is.flatMap fun i => (child (m.pte t i)).elim [] below) →
        m₂.page a = m₁.page a := by
  induction is generalizing m₁ with
  | nil => exact ⟨m₁, rfl, rfl, fun _ _ _ => rfl⟩
  | cons i is ih =>
    rw [List.nodup_cons] at his
    rw [List.flatMap_cons] at hnodup ht hsame ⊢
    rw [List.nodup_append] at hnodup
    rw [List.mem_append, not_or] at ht
    rw [freewalkLoop, hpte i List.mem_cons_self]
    by_cases hvalid : m.pte t i &&& PTE_V ≠ 0
    · have hchild := child_valid hvalid
      rw [hchild, Option.elim_some] at hnodup ht hsame ⊢
      obtain ⟨m₂, heq, hfree, hrest⟩ := hstep i _ m₁ hchild fun a ha => hsame a (List.mem_append_left _ ha)
      have hpages : ∀ a, a ≠ t → (m₂.setPte t i 0).page a = m₂.page a := fun a ha => setPte_page ha
      have hptes : ∀ j ∈ is, (m₂.setPte t i 0).pte t j = m.pte t j := fun j hj => by
        have hji : j ≠ i := fun heq => his.1 (heq ▸ hj)
        rw [pte_setPte_of_ne hji, pte_congr (hrest t ht.1), hpte j (List.mem_cons_of_mem i hj)]
      obtain ⟨m₃, heq₃, hfree₃, hrest₃⟩ := ih his.2 hnodup.2.1 ht.2 hptes fun a ha => by
        have hne : a ≠ t := fun heq => ht.2 (heq ▸ ha)
        rw [hpages a hne, hrest a fun hb => hnodup.2.2 a hb a ha rfl]
        exact hsame a (List.mem_append_right _ ha)
      rw [if_pos ⟨hvalid, hinner i hvalid⟩, heq, ok_bind]
      refine ⟨m₃, heq₃, ?_, fun a hne ha => ?_⟩
      · rw [hfree₃, setPte_freelist, hfree, List.reverse_append, List.append_assoc]
      · rw [List.mem_append, not_or] at ha
        rw [hrest₃ a hne ha.2, hpages a hne, hrest a ha.1]
    · rw [child_invalid hvalid, Option.elim_none] at hnodup ht hsame ⊢
      rw [if_neg fun hand => hvalid hand.1, if_neg hvalid]
      exact ih his.2 hnodup.2.1 ht.2 (fun j hj => hpte j (List.mem_cons_of_mem i hj))
        fun a ha => hsame a (List.mem_append_right _ ha)

theorem freewalk_free (hloop : freewalkLoop (freewalkOver k is n) t is m = .ok m')
    (ht : Freeable k.kernelEnd t) : freewalkOver k is (n + 1) m t = .ok (m'.free t) := by
  rw [freewalkOver, hloop, ok_bind, kfree_free ht]

/-- The tables from a table down are freed. Only the inner ones have is. -/
theorem freewalk_freed (his : ∀ i, i ∈ is) (hdistinct : is.Nodup)
    (hinner : ∀ p a i, p.length ≤ n → node child m.pte t p = some a → m.pte a i &&& PTE_V ≠ 0 →
      p.length < n ∧ m.pte a i &&& (PTE_R ||| PTE_W ||| PTE_X) = 0)
    (hnodup : (tables child m.pte is n t).Nodup)
    (hfree : ∀ a ∈ tables child m.pte is n t, Freeable k.kernelEnd a) :
    ∃ m', freewalkOver k is (n + 1) m t = .ok m' ∧
      m'.freelist = (tables child m.pte is n t).reverse ++ m.freelist ∧
      ∀ a, a ∉ tables child m.pte is n t → m'.page a = m.page a := by
  induction n generalizing m t with
  | zero =>
    have hmem := self_mem_tables child m.pte is 0 t
    have hinvalid : ∀ i, ¬ m.pte t i &&& PTE_V ≠ 0 := fun i hvalid =>
      absurd (hinner [] t i (Nat.le_refl 0) rfl hvalid).1 (Nat.lt_irrefl 0)
    have hwalk := freewalk_free (freewalkLoop_skip (f := freewalkOver k is 0) fun i _ => hinvalid i) (hfree t hmem)
    refine ⟨m.free t, hwalk, ?_, fun a ha => free_page fun heq => ?_⟩
    · rw [tables, List.reverse_singleton, List.singleton_append]
      rfl
    · exact ha (heq ▸ hmem)
  | succ n ih =>
    have hgive := hfree t (self_mem_tables child m.pte is (n + 1) t)
    rw [tables] at hnodup hfree ⊢
    rw [List.nodup_append] at hnodup
    have hbelow : ∀ i c a, child (m.pte t i) = some c → a ∈ tables child m.pte is n c →
        a ∈ is.flatMap fun i =>
          (child (m.pte t i)).elim [] (tables child m.pte is n) := by
      intro i c a hc ha
      refine List.mem_flatMap.mpr ⟨i, his i, ?_⟩
      rw [hc, Option.elim_some]
      exact ha
    have hstep : ∀ i c m₁, child (m.pte t i) = some c →
        (∀ a ∈ tables child m.pte is n c, m₁.page a = m.page a) →
        ∃ m₂, freewalkOver k is (n + 1) m₁ c = .ok m₂ ∧
          m₂.freelist = (tables child m.pte is n c).reverse ++ m₁.freelist ∧
          ∀ a, a ∉ tables child m.pte is n c → m₂.page a = m₁.page a := by
      intro i c m₁ hc hsame
      have hsame' : ∀ a ∈ tables child m.pte is n c, m₁.pte a = m.pte a :=
        fun a ha => pte_congr (hsame a ha)
      have htables := tables_congr hsame'
      have hnodes : ∀ p, p.length ≤ n → node child m₁.pte c p = node child m.pte c p := fun p hp =>
        node_congr (fun q a hq ha => hsame' a
          ((mem_tables his).mpr ⟨q, Nat.le_of_lt hq, ha⟩)) hp
      rw [← htables]
      refine ih (fun p a j hp ha hvalid => ?_) ?_ fun a ha => ?_
      · rw [hnodes p hp] at ha
        have hmem : a ∈ tables child m.pte is n c :=
          (mem_tables his).mpr ⟨p, hp, ha⟩
        rw [hsame' a hmem] at hvalid ⊢
        have hup : node child m.pte t (p ++ [i]) = some a := by
          rw [node_snoc hc]
          exact ha
        have hin := hinner (p ++ [i]) a j
          (by rw [List.length_append, List.length_singleton]; omega) hup hvalid
        rw [List.length_append, List.length_singleton] at hin
        exact ⟨Nat.lt_of_succ_lt_succ hin.1, hin.2⟩
      · rw [htables]
        have hflat := (List.nodup_flatMap.mp hnodup.1).1 i (his i)
        rw [hc, Option.elim_some] at hflat
        exact hflat
      · rw [htables] at ha
        exact hfree a (List.mem_append_left _ (hbelow i c a hc ha))
    have ht : t ∉ is.flatMap fun i =>
        (child (m.pte t i)).elim [] (tables child m.pte is n) :=
      fun ht => hnodup.2.2 t ht t (List.mem_singleton_self t) rfl
    obtain ⟨m₁, hloop, hm₁, hrest⟩ := freewalkLoop_freed hstep
      (fun i hvalid => (hinner [] t i (Nat.zero_le _) rfl hvalid).2) hdistinct hnodup.1 ht
      (fun _ _ => rfl) fun _ _ => rfl
    refine ⟨m₁.free t, freewalk_free hloop hgive, ?_, fun a ha => ?_⟩
    · rw [List.reverse_append, List.reverse_singleton, List.singleton_append]
      exact congrArg (t :: ·) hm₁
    · rw [List.mem_append, List.mem_singleton, not_or] at ha
      rw [free_page ha.2, hrest a ha.2 ha.1]

end

/-- The address of an entry of the last level. -/
theorem route_of (hj : j.val < 256) (i l : Fin 512) :
    ∃ va < MAXVA, route va 2 = [l, j] ∧ PX 0 va = i := by
  have hsquare : 512 ^ 2 = 262144 := rfl
  have hi := i.isLt
  have hl := l.isLt
  have hone : PX 1 (((j.val * 512 + l.val) * 512 + i.val) * 4096) = l := by
    apply Fin.ext
    rw [PX_val, Nat.pow_one]
    unfold PGSIZE
    omega
  have htwo : PX 2 (((j.val * 512 + l.val) * 512 + i.val) * 4096) = j := by
    apply Fin.ext
    rw [PX_val, hsquare]
    unfold PGSIZE
    omega
  refine ⟨((j.val * 512 + l.val) * 512 + i.val) * 4096, ?_, ?_, ?_⟩
  · unfold MAXVA
    omega
  · rw [route, route, route, List.nil_append, hone, htwo]
    rfl
  · apply Fin.ext
    rw [PX_val, Nat.pow_zero, Nat.div_one]
    unfold PGSIZE
    omega

/-- Where nothing is mapped, only entries of the upper levels are valid. -/
theorem inner_of_empty (h : Represents m root M) (hM : ∀ q, M q = none) {p : List (Fin 512)}
    (hp : p.length ≤ 2) (ha : tableAt m root p = some a) (hvalid : m.pte a i &&& PTE_V ≠ 0) :
    p.length < 2 ∧ m.pte a i &&& (PTE_R ||| PTE_W ||| PTE_X) = 0 := by
  have hlen : p.length < 2 := by
    by_contra hge
    obtain ⟨l, j, rfl⟩ := List.length_eq_two.mp (by omega : p.length = 2)
    have hj : j.val < 256 := by
      refine h.tree.lower j fun hzero => ?_
      unfold tableAt at ha
      rw [node, node, node, Option.bind_some, child_invalid (not_not.mpr hzero), Option.bind_none] at ha
      cases ha
    obtain ⟨va, hva, hroute, hi⟩ := route_of hj i l
    have hentry := h.absent va hva (hM _)
    rw [entry_some (hroute ▸ ha), hi] at hentry
    exact hvalid hentry
  exact ⟨hlen, h.tree.inner p a i hlen ha hvalid⟩

/-- A table without pages is given back. -/
theorem Space.freewalk (h : Space k m root M hand) (hM : ∀ q, M q = none) :
    ∃ m', freewalk k m root = .ok m' ∧ Moved m m' (hand ++ share m root M) hand := by
  have hnodup := nodup_tablesOf h.represents.tree
  have hfree : ∀ a ∈ tablesOf m root, Freeable k.kernelEnd a := fun a ha =>
    h.pages.page a (List.mem_append_right _ (List.mem_append_right _ (List.mem_append_left _ ha)))
  have huser : userPages M = [] := by
    unfold userPages
    rw [List.filterMap_eq_nil_iff]
    intro q _
    rw [hM, Option.map_none]
  obtain ⟨m', heq, hm', hrest⟩ := freewalk_freed List.mem_finRange (List.nodup_finRange 512)
    (fun p a i hp ha hvalid => inner_of_empty h.represents hM hp ha hvalid) hnodup hfree
  refine ⟨m', heq, ?_, fun a ha => hrest a fun hmem => ha ?_⟩
  · unfold share tablesOf
    rw [hm', huser, List.append_nil, List.perm_iff_count]
    intro x
    simp only [List.count_append, List.count_reverse]
    omega
  · exact List.mem_append_right _ (List.mem_append_right _ (List.mem_append_left _ hmem))

/-! ## Page tables of processes -/

/-- The pages of a process of the size. -/
def npages (sz : Nat) : Nat := PGROUNDUP sz / PGSIZE

theorem PGROUNDUP_eq (hsz : sz ≤ TRAPFRAME) : PGROUNDUP sz = (sz + 4095) / 4096 * 4096 := by
  unfold TRAPFRAME TRAMPOLINE MAXVA PGSIZE at hsz
  unfold PGROUNDUP uint64 PGSIZE
  omega

theorem npages_eq (hsz : sz ≤ TRAPFRAME) : npages sz = (sz + 4095) / 4096 := by
  unfold npages
  rw [PGROUNDUP_eq hsz]
  exact Nat.mul_div_cancel _ (by decide)

theorem USER_eq : USER = 67108862 := rfl

theorem npages_le (hsz : sz ≤ TRAPFRAME) : npages sz ≤ USER := by
  rw [npages_eq hsz, USER_eq]
  unfold TRAPFRAME TRAMPOLINE MAXVA PGSIZE at hsz
  omega

theorem trapframe_eq : TRAPFRAME = USER * PGSIZE := rfl

theorem trampoline_eq : TRAMPOLINE = (USER + 1) * PGSIZE := rfl

theorem userPages_empty (h : ∀ q < USER, M q = none) : userPages M = [] := by
  unfold userPages
  rw [List.filterMap_eq_nil_iff]
  intro q hq
  rw [h q (List.mem_range.mp hq), Option.map_none]

theorem Pages.uvmcreate (h : Pages k m hand) : uvmcreate m = (m, none) ∨
    ∃ m' root, uvmcreate m = (m', some root) ∧ Space k m' root (fun _ => none) hand ∧
      Moved m m' hand (hand ++ share m' root fun _ => none) := by
  cases hfree : m.freelist with
  | nil =>
    left
    unfold pagetable.uvmcreate
    rw [kalloc_none hfree]
  | cons root free =>
    have hlist : FreeList m := by
      refine ⟨h.nodup.of_append_left, fun a ha => ?_⟩
      exact isPage_of_freeable (h.page a (List.mem_append_left _ ha))
    obtain ⟨m', heq, hm', htree, -, htable, hentry, hsame⟩ := uvmcreate_new hlist hfree
    have hshare : (share m' root fun _ => none).Perm [root] := by
      have htables : (tablesOf m' root).Perm [root] := by
        rw [List.perm_ext_iff_of_nodup (nodup_tablesOf htree) (List.nodup_singleton root)]
        intro a
        rw [mem_tablesOf, htable, List.mem_singleton]
      unfold share
      rw [userPages_empty fun _ _ => rfl, List.append_nil]
      exact htables
    have hmoved : Moved m m' hand (hand ++ share m' root fun _ => none) := by
      refine ⟨?_, fun a ha => hsame a ?_⟩
      · rw [hm', hfree, List.perm_iff_count] at *
        intro x
        have hx := hshare x
        simp only [List.count_append, List.count_cons, List.count_nil] at hx ⊢
        omega
      · rintro rfl
        rw [hfree] at ha
        exact ha List.mem_cons_self
    exact Or.inr ⟨m', root, heq, ⟨.new htree hentry, h.moved hmoved⟩, hmoved⟩

/-- A page of the kernel is mapped, or the memory ends. -/
theorem Space.add_kernel (h : Space k m root M hand) (hq : USER ≤ q) (hend : (q + 1) * PGSIZE ≤ MAXVA)
    (hM : M q = none) (hpage : IsPage pa) (hperm : perm < 1024) :
    ∃ m' done, mappages m root (q * PGSIZE) PGSIZE pa perm = .ok (m', done) ∧
      (done = true ∧ Space k m' root (M.map q 1 pa perm) hand ∧
          Moved m m' (hand ++ share m root M) (hand ++ share m' root (M.map q 1 pa perm)) ∨
        done = false ∧ Space k m' root M hand ∧
          Moved m m' (hand ++ share m root M) (hand ++ share m' root M)) := by
  obtain ⟨haligned, hpos, hlt⟩ := hpage
  obtain ⟨m', used, done, heq, hgrown, hdone⟩ :=
    mappages_one h.represents h.fresh hend hM haligned hpos hlt hperm
  have hmoved := moved_grown h.represents.tree h.fresh hgrown M hand
  refine ⟨m', done, heq, ?_⟩
  rcases hdone with ⟨hd, hr⟩ | ⟨hd, -, hr⟩
  · have hshare : share m' root (M.map q 1 pa perm) = share m' root M := by
      unfold share
      rw [userPages_map_high hq]
    refine Or.inl ⟨hd, ⟨hr, ?_⟩, ?_⟩
    · rw [hshare]
      exact h.pages.moved hmoved
    · rw [hshare]
      exact hmoved
  · exact Or.inr ⟨hd, ⟨hr, h.pages.moved hmoved⟩, hmoved⟩

theorem Space.uvmfree (h : Space k m root M hand) (hsz : sz ≤ TRAPFRAME)
    (hM : ∀ q, npages sz ≤ q → M q = none) :
    ∃ m', uvmfree k m root sz = .ok m' ∧ Moved m m' (hand ++ share m root M) hand := by
  unfold spaces.uvmfree
  by_cases hpos : 0 < sz
  · obtain ⟨m₁, heq₁, hspace, hmoved, -⟩ := h.unmap (p := 0) (n := npages sz) (by have := npages_le hsz; omega)
    have hempty : ∀ q, M.unmap 0 (npages sz) q = none := by
      intro q
      unfold Map.unmap
      by_cases hin : 0 ≤ q ∧ q < 0 + npages sz
      · rw [if_pos hin]
      · rw [if_neg hin]
        exact hM q (by omega)
    obtain ⟨m₂, heq₂, hmoved₂⟩ := hspace.freewalk hempty
    rw [Nat.zero_mul] at heq₁
    unfold npages at heq₁
    rw [if_pos hpos, heq₁, ok_bind]
    exact ⟨m₂, heq₂, hmoved.trans hmoved₂⟩
  · have hzero : npages sz = 0 := by
      rw [npages_eq hsz]
      omega
    rw [if_neg hpos, return_eq, ok_bind]
    exact h.freewalk fun q => hM q (by omega)

/-- All of a page table is given back, but for the trampoline and the trapframe. -/
theorem Space.proc_freepagetable (h : Space k m root M hand) (hsz : sz ≤ TRAPFRAME)
    (hM : ∀ q, npages sz ≤ q → q < USER → M q = none) :
    ∃ m', proc_freepagetable k m root sz = .ok m' ∧ Moved m m' (hand ++ share m root M) hand := by
  obtain ⟨m₁, heq₁, h₁, hmoved₁⟩ := h.unmap_kernel (q := USER + 1) (by omega) (by decide)
  obtain ⟨m₂, heq₂, h₂, hmoved₂⟩ := h₁.unmap_kernel (q := USER) (by omega) (by decide)
  have hempty : ∀ q, npages sz ≤ q → (M.unmap (USER + 1) 1).unmap USER 1 q = none := by
    intro q hq
    by_cases h₀ : q = USER
    · rw [h₀, unmap_at]
    · rw [unmap_of_ne h₀]
      by_cases h₁ : q = USER + 1
      · rw [h₁, unmap_at]
      · rw [unmap_of_ne h₁]
        by_cases hlt : q < USER
        · exact hM q hq hlt
        · apply h.represents.bound
          rw [USER_eq] at *
          unfold MAXVA PGSIZE
          omega
  obtain ⟨m₃, heq₃, hmoved₃⟩ := h₂.uvmfree hsz hempty
  unfold spaces.proc_freepagetable
  rw [trampoline_eq, trapframe_eq, heq₁, ok_bind, heq₂, ok_bind, heq₃]
  exact ⟨m₃, rfl, hmoved₁.trans (hmoved₂.trans hmoved₃)⟩

/-- What `proc_pagetable` maps. -/
def kernelMap (k : Image) (trapframe : Nat) : Map :=
  (Map.map (fun _ => none) (USER + 1) 1 k.trampoline (PTE_R ||| PTE_X)).map USER 1 trapframe
    (PTE_R ||| PTE_W)

theorem kernelMap_user {trapframe : Nat} (hq : q < USER) : kernelMap k trapframe q = none := by
  unfold kernelMap
  rw [map_of_ne (by omega), map_of_ne (by omega)]

theorem Image.isPage (k : Image) : IsPage k.trampoline := by
  have hlow := k.low
  have hin := k.inside
  have hfits := k.fits
  unfold PHYSTOP at hfits
  unfold KERNBASE at *
  exact ⟨k.aligned, by omega, by omega⟩

theorem zero_le_trapframe : 0 ≤ TRAPFRAME := Nat.zero_le _

/-- A page table with the trampoline and the trapframe, or nothing. -/
theorem Pages.proc_pagetable {trapframe : Nat} (h : Pages k m hand) (htf : IsPage trapframe) :
    ∃ m' r, proc_pagetable k m trapframe = .ok (m', r) ∧
      (r = none ∧ Moved m m' hand hand ∨
        ∃ root, r = some root ∧ Space k m' root (kernelMap k trapframe) hand ∧
          Moved m m' hand (hand ++ share m' root (kernelMap k trapframe))) := by
  unfold spaces.proc_pagetable
  rcases h.uvmcreate with heq | ⟨m₁, root, heq, h₁, hmoved₁⟩
  · rw [heq]
    exact ⟨m, none, rfl, Or.inl ⟨rfl, .refl m hand⟩⟩
  · obtain ⟨m₂, done, heq₂, hdone⟩ := h₁.add_kernel (q := USER + 1) (by omega) (by decide) rfl k.isPage
      (show PTE_R ||| PTE_X < 1024 by decide)
    rw [heq, trampoline_eq]
    simp only []
    rw [heq₂, ok_bind]
    rcases hdone with ⟨rfl, h₂, hmoved₂⟩ | ⟨rfl, h₂, hmoved₂⟩
    · obtain ⟨m₃, done, heq₃, hdone⟩ := h₂.add_kernel (q := USER) (by omega) (by decide)
        (map_of_ne (by omega)) htf (show PTE_R ||| PTE_W < 1024 by decide)
      rw [if_pos rfl, trapframe_eq, heq₃, ok_bind]
      rcases hdone with ⟨rfl, h₃, hmoved₃⟩ | ⟨rfl, h₃, hmoved₃⟩
      · rw [if_pos rfl]
        exact ⟨m₃, some root, rfl, Or.inr ⟨root, rfl, h₃, hmoved₁.trans (hmoved₂.trans hmoved₃)⟩⟩
      · obtain ⟨m₄, heq₄, h₄, hmoved₄⟩ := h₃.unmap_kernel (q := USER + 1) (by omega) (by decide)
        have hempty : ∀ q, npages 0 ≤ q → (Map.map (fun _ => none) (USER + 1) 1 k.trampoline
            (PTE_R ||| PTE_X)).unmap (USER + 1) 1 q = none := by
          intro q _
          by_cases hq : q = USER + 1
          · rw [hq, unmap_at]
          · rw [unmap_of_ne hq, map_of_ne hq]
        obtain ⟨m₅, heq₅, hmoved₅⟩ := h₄.uvmfree zero_le_trapframe hempty
        rw [if_neg Bool.false_ne_true, heq₄, ok_bind, heq₅, ok_bind]
        exact ⟨m₅, none, rfl, Or.inl ⟨rfl,
          hmoved₁.trans (hmoved₂.trans (hmoved₃.trans (hmoved₄.trans hmoved₅)))⟩⟩
    · obtain ⟨m₃, heq₃, hmoved₃⟩ := h₂.uvmfree zero_le_trapframe fun _ _ => rfl
      rw [if_neg Bool.false_ne_true, heq₃, ok_bind]
      exact ⟨m₃, none, rfl, Or.inl ⟨rfl, hmoved₁.trans (hmoved₂.trans hmoved₃)⟩⟩

/-! ## uvmalloc and uvmdealloc -/

theorem unmap_zero (M : Map) (p : Nat) : M.unmap p 0 = M := by
  funext q
  exact if_neg (by omega)

theorem npages_page (hp : p ≤ USER) : npages (p * PGSIZE) = p := by
  have hsz : p * PGSIZE ≤ TRAPFRAME := Nat.mul_le_mul_right PGSIZE hp
  rw [npages_eq hsz]
  unfold PGSIZE
  omega

/-- The pages from the new size on are freed. -/
theorem Space.uvmdealloc (h : Space k m root M hand) (hold : oldsz ≤ TRAPFRAME) (hle : newsz ≤ oldsz) :
    ∃ m', uvmdealloc k m root oldsz newsz = .ok (m', newsz) ∧
      Space k m' root (M.unmap (npages newsz) (npages oldsz - npages newsz)) hand ∧
      Moved m m' (hand ++ share m root M)
        (hand ++ share m' root (M.unmap (npages newsz) (npages oldsz - npages newsz))) ∧
      Contents m m' M (M.unmap (npages newsz) (npages oldsz - npages newsz)) := by
  have hnew := Nat.le_trans hle hold
  have hpages := npages_le hold
  have hmono : npages newsz ≤ npages oldsz := by
    rw [npages_eq hold, npages_eq hnew]
    omega
  unfold spaces.uvmdealloc
  by_cases hsame : oldsz ≤ newsz
  · obtain rfl := Nat.le_antisymm hsame hle
    rw [if_pos hsame, Nat.sub_self, unmap_zero]
    exact ⟨m, rfl, h, .refl m _, .refl m M⟩
  · rw [if_neg hsame]
    by_cases hlt : PGROUNDUP newsz < PGROUNDUP oldsz
    · have hcount : uint64 (Int.bmod ((PGROUNDUP oldsz - PGROUNDUP newsz) / PGSIZE : Nat) 4294967296) =
          npages oldsz - npages newsz := by
        have hdiff : (PGROUNDUP oldsz - PGROUNDUP newsz) / PGSIZE = npages oldsz - npages newsz := by
          rw [npages_eq hold, npages_eq hnew, PGROUNDUP_eq hold, PGROUNDUP_eq hnew]
          unfold PGSIZE
          omega
        rw [USER_eq] at hpages
        rw [hdiff, Int.bmod_def, if_pos (by omega)]
        unfold uint64
        omega
      have hfrom : PGROUNDUP newsz = npages newsz * PGSIZE := by
        rw [npages_eq hnew, PGROUNDUP_eq hnew]
        rfl
      obtain ⟨m', heq, hspace⟩ :=
        h.unmap (p := npages newsz) (n := npages oldsz - npages newsz) (by omega)
      rw [if_pos hlt, hcount, hfrom, heq, ok_bind]
      exact ⟨m', rfl, hspace⟩
    · have heq : npages oldsz - npages newsz = 0 := by
        rw [PGROUNDUP_eq hold, PGROUNDUP_eq hnew] at hlt
        rw [npages_eq hold, npages_eq hnew]
        omega
      rw [if_neg hlt, heq, unmap_zero]
      exact ⟨m, rfl, h, .refl m _, .refl m M⟩

/-- Pages are added to a map, from `p` on and before `n`. -/
structure Extended (M M' : Map) (p n perm : Nat) : Prop where
  others : ∀ q, ¬ (p ≤ q ∧ q < n) → M' q = M q
  added : ∀ q, p ≤ q → q < n → ∃ b, M' q = some ⟨b, perm⟩

theorem Extended.refl (M : Map) (perm : Nat) (h : n ≤ p) : Extended M M p n perm :=
  ⟨fun _ _ => rfl, fun q h₁ h₂ => absurd h₂ (by omega)⟩

theorem Extended.cons (h : Extended (M.map p 1 b perm) M' (p + 1) n perm) (hlt : p < n) :
    Extended M M' p n perm := by
  refine ⟨fun q hq => ?_, fun q h₁ h₂ => ?_⟩
  · rw [h.others q (by omega), map_of_ne (by omega)]
  · by_cases hqp : q = p
    · refine ⟨b, ?_⟩
      rw [hqp, h.others p (by omega), map_at]
    · exact h.added q (by omega) h₂

/-- A page that was added is taken away with those before it. -/
theorem unmap_map (hle : q ≤ p) (hM : M p = none) :
    (M.map p 1 b perm).unmap q (p + 1 - q) = M.unmap q (p - q) := by
  funext r
  unfold Map.unmap
  by_cases hin : q ≤ r ∧ r < q + (p - q)
  · rw [if_pos hin, if_pos (by omega)]
  · rw [if_neg hin]
    by_cases hr : r = p
    · rw [if_pos (by omega), hr, hM]
    · rw [if_neg (by omega), map_of_ne hr]

/-- The pages of a size. -/
theorem lt_npages (hsz : sz ≤ TRAPFRAME) : q < npages sz ↔ q * PGSIZE < sz := by
  rw [npages_eq hsz]
  unfold PGSIZE
  omega

theorem length_pos_of_cons (hfree : m.freelist = b :: free) : 0 < m.freelist.length := by
  rw [hfree, List.length_cons]
  exact Nat.succ_pos _

/-- The loop adds the pages up to the new size, or it takes those away that it has added. -/
theorem Space.uvmallocLoop {turns p₀ : Nat} (h : Space k m root M hand) (hp₀ : p₀ ≤ p)
    (hroom : newsz ≤ TRAPFRAME ∧ p ≤ USER ∨ p + m.freelist.length ≤ USER)
    (hclear : ∀ q, p ≤ q → q < USER → M q = none) (hturns : newsz ≤ (p + turns) * PGSIZE)
    (hperm : perm < 1024) :
    ∃ m' r, uvmallocLoop k root (p₀ * PGSIZE) newsz perm turns m (p * PGSIZE) = .ok (m', r) ∧
      (r = newsz ∧ newsz ≤ TRAPFRAME ∧ (∃ M', Space k m' root M' hand ∧
          Moved m m' (hand ++ share m root M) (hand ++ share m' root M') ∧
          Extended M M' p (npages newsz) perm ∧ Contents m m' M M') ∨
        r = 0 ∧ Space k m' root (M.unmap p₀ (p - p₀)) hand ∧
          Moved m m' (hand ++ share m root M) (hand ++ share m' root (M.unmap p₀ (p - p₀))) ∧
          Contents m m' M (M.unmap p₀ (p - p₀))) := by
  have hpuser : p ≤ USER := by omega
  induction turns generalizing m M p with
  | zero =>
    rw [Nat.add_zero] at hturns
    have hsz : newsz ≤ TRAPFRAME := Nat.le_trans hturns (Nat.mul_le_mul_right PGSIZE hpuser)
    have hn : npages newsz ≤ p := by
      by_contra hlt
      exact Nat.not_lt.mpr hturns ((lt_npages hsz).mp (Nat.lt_of_not_le hlt))
    rw [spaces.uvmallocLoop, if_neg (Nat.not_lt.mpr hturns)]
    exact ⟨m, newsz, rfl, Or.inl ⟨rfl, hsz, M, h, .refl m _, .refl M perm hn, .refl m M⟩⟩
  | succ turns ih =>
    rw [spaces.uvmallocLoop]
    by_cases hlt : p * PGSIZE < newsz
    · have hback : ∀ {m₁ : Mem}, Space k m₁ root M hand →
          ∃ m', spaces.uvmdealloc k m₁ root (p * PGSIZE) (p₀ * PGSIZE) = .ok (m', p₀ * PGSIZE) ∧
            Space k m' root (M.unmap p₀ (p - p₀)) hand ∧
            Moved m₁ m' (hand ++ share m₁ root M) (hand ++ share m' root (M.unmap p₀ (p - p₀))) ∧
            Contents m₁ m' M (M.unmap p₀ (p - p₀)) := by
        intro m₁ h₁
        have hdealloc := h₁.uvmdealloc (Nat.mul_le_mul_right PGSIZE hpuser)
          (Nat.mul_le_mul_right PGSIZE hp₀)
        rw [npages_page hpuser, npages_page (Nat.le_trans hp₀ hpuser)] at hdealloc
        exact hdealloc
      rw [if_pos hlt]
      cases hfree : m.freelist with
      | nil =>
        obtain ⟨m', heq, hspace⟩ := hback h
        rw [kalloc_none hfree]
        simp only []
        rw [heq, ok_bind]
        exact ⟨m', 0, rfl, Or.inr ⟨rfl, hspace⟩⟩
      | cons b free =>
        have hlen := length_pos_of_cons hfree
        have hturns' : newsz ≤ (p + 1 + turns) * PGSIZE := by
          rw [Nat.add_right_comm]
          exact hturns
        have hpu : p < USER := by
          rcases hroom with hroom | hroom
          · rw [trapframe_eq] at hroom
            exact Nat.lt_of_mul_lt_mul_right (Nat.lt_of_lt_of_le hlt hroom.1)
          · omega
        have hva : p * PGSIZE < MAXVA := by
          have hmul : p * PGSIZE < USER * PGSIZE := Nat.mul_lt_mul_of_pos_right hpu (by decide)
          have huser : USER * PGSIZE ≤ MAXVA := by decide
          omega
        have hnone := hclear p (Nat.le_refl p) hpu
        obtain ⟨m₁, hkalloc, hm₁, h₁, -, hmoved₁, hsame₁⟩ := h.take hfree
        obtain ⟨h₂, -, hmoved₂⟩ := h₁.fill (memset_freelist 0 : (m₁.memset b 0).freelist = m₁.freelist)
          fun a ha => memset_page ha 0
        obtain ⟨m₃, done, heq₃, hlen₃, hdone, hkeep⟩ := h₂.add hpu hnone hperm
        have hmoved := hmoved₁.trans hmoved₂
        obtain ⟨huser, hzero⟩ := h₂.kept hsame₁ hkeep
        rw [hkalloc]
        simp only []
        rw [heq₃, ok_bind]
        rcases hdone with ⟨rfl, h₃, hmoved₃⟩ | ⟨rfl, h₃, hmoved₃⟩
        · rw [if_pos rfl, uint64_page hva]
          have hshort : m₃.freelist.length + 1 ≤ m.freelist.length := by
            rw [memset_freelist, hm₁] at hlen₃
            rw [hfree, List.length_cons]
            omega
          obtain ⟨m', r, heq, hr⟩ := ih h₃ (by omega) (by omega)
            (fun q h₁ h₂ => by rw [map_of_ne (by omega)]; exact hclear q (by omega) h₂)
            hturns' hpu
          refine ⟨m', r, heq, ?_⟩
          have hbefore := hmoved.trans hmoved₃
          have hone : Contents m m₃ M (M.map p 1 b perm) := .one hnone huser hzero
          have hadd : ∀ q, M.map p 1 b perm q = none → M q = none := none_of_map hnone
          rcases hr with ⟨rfl, hsz, M', hspace, hmoved', hext, hcont⟩ | ⟨rfl, hspace, hmoved', hcont⟩
          · exact Or.inl ⟨rfl, hsz, M', hspace, hbefore.trans hmoved', hext.cons ((lt_npages hsz).mpr hlt),
              hone.trans hcont hadd⟩
          · rw [unmap_map hp₀ hnone] at hspace hmoved' hcont
            exact Or.inr ⟨rfl, hspace, hbefore.trans hmoved', hone.trans hcont hadd⟩
        · obtain ⟨heq₄, h₄, hmoved₄⟩ := h₃.give
          obtain ⟨m', heq, hspace, hmoved₅, hcont⟩ := hback h₄
          have hgiven : Contents m (m₃.free b) M M := .of_kept fun a ha => by
            have hab : a ≠ b := fun hab => h₃.hand_not_user List.mem_cons_self (hab ▸ ha)
            rw [free_page hab, huser a ha]
          rw [if_neg Bool.false_ne_true, heq₄, ok_bind, heq, ok_bind]
          exact ⟨m', 0, rfl, Or.inr ⟨rfl, hspace,
            hmoved.trans (hmoved₃.trans (hmoved₄.trans hmoved₅)), hgiven.trans hcont fun _ => id⟩⟩
    · rw [if_neg hlt]
      have hsz : newsz ≤ TRAPFRAME :=
        Nat.le_trans (Nat.le_of_not_lt hlt) (Nat.mul_le_mul_right PGSIZE hpuser)
      have hn : npages newsz ≤ p := by
        by_contra hgt
        exact hlt ((lt_npages hsz).mp (Nat.lt_of_not_le hgt))
      exact ⟨m, newsz, rfl, Or.inl ⟨rfl, hsz, M, h, .refl m _, .refl M perm hn, .refl m M⟩⟩

/-- The space grows to the new size, or it stays as it is. -/
theorem Space.uvmalloc {xperm : Nat} (h : Space k m root M hand) (hold : oldsz ≤ TRAPFRAME)
    (hroom : newsz ≤ TRAPFRAME ∨ npages oldsz + m.freelist.length ≤ USER)
    (hclear : ∀ q, npages oldsz ≤ q → q < USER → M q = none) (hperm : xperm < 1024) :
    ∃ m' r, uvmalloc k m root oldsz newsz xperm = .ok (m', r) ∧
      (r = max oldsz newsz ∧ r ≤ TRAPFRAME ∧ (∃ M', Space k m' root M' hand ∧
          Moved m m' (hand ++ share m root M) (hand ++ share m' root M') ∧
          Extended M M' (npages oldsz) (npages r) (PTE_R ||| PTE_U ||| xperm) ∧ Contents m m' M M') ∨
        r = 0 ∧ Space k m' root M hand ∧
          Moved m m' (hand ++ share m root M) (hand ++ share m' root M) ∧ Contents m m' M M) := by
  unfold spaces.uvmalloc
  by_cases hlt : newsz < oldsz
  · rw [if_pos hlt]
    refine ⟨m, oldsz, rfl, Or.inl ⟨?_, hold, M, h, .refl m _, .refl M _ (Nat.le_refl _), .refl m M⟩⟩
    rw [Nat.max_eq_left (Nat.le_of_lt hlt)]
  · have hround : PGROUNDUP oldsz = npages oldsz * PGSIZE := by
      rw [npages_eq hold, PGROUNDUP_eq hold]
      rfl
    have hturns : newsz ≤ (npages oldsz + (newsz - npages oldsz * PGSIZE + PGSIZE - 1) / PGSIZE) * PGSIZE := by
      unfold PGSIZE
      omega
    have hflags : PTE_R ||| PTE_U ||| xperm < 1024 := Nat.or_lt_two_pow (n := 10) (by decide) hperm
    obtain ⟨m', r, heq, hr⟩ := h.uvmallocLoop (Nat.le_refl _)
      (hroom.imp (fun hsz => ⟨hsz, npages_le hold⟩) id) hclear hturns hflags
    rw [if_neg hlt, hround, heq]
    refine ⟨m', r, rfl, ?_⟩
    rcases hr with ⟨rfl, hsz, hspace⟩ | ⟨rfl, hspace, hmoved, hcont⟩
    · refine Or.inl ⟨?_, hsz, hspace⟩
      rw [Nat.max_eq_right (Nat.le_of_not_lt hlt)]
    · rw [Nat.sub_self, unmap_zero] at hspace hmoved hcont
      exact Or.inr ⟨rfl, hspace, hmoved, hcont⟩

/-! ## uvmcopy -/

/-- The flags of the entry of a page. -/
theorem PTE_FLAGS_leaf (h : perm < 1024) : PTE_FLAGS (leaf pa perm) = perm ||| PTE_V := by
  have hflags := or_V_lt h
  have hpow : PTE_FLAGS (leaf pa perm) = leaf pa perm % 1024 :=
    Nat.and_two_pow_sub_one_eq_mod (leaf pa perm) 10
  have hleaf : leaf pa perm = pa / 4096 * 1024 + (perm ||| PTE_V) := entry_eq h
  rw [hpow, hleaf]
  omega

/-- Below the page, the child has a page where the parent has one, with the same flags and bytes. -/
def Copied (m : Mem) (Mo M : Map) (p : Nat) : Prop :=
  ∀ q < p, Mo q = none ∧ M q = none ∨
    ∃ x b, Mo q = some x ∧ M q = some ⟨b, x.perm ||| PTE_V⟩ ∧ m.page b = m.page x.pa

/-- A further page that neither of them has, or both. -/
theorem Copied.succ {Mo : Map} (h : Copied m Mo M p)
    (hp : Mo p = none ∧ M p = none ∨
      ∃ x b, Mo p = some x ∧ M p = some ⟨b, x.perm ||| PTE_V⟩ ∧ m.page b = m.page x.pa) :
    Copied m Mo M (p + 1) := by
  intro q hq
  by_cases hqp : q = p
  · subst hqp
    exact hp
  · exact h q (by omega)

section

variable {old new turns : Nat} {Mo : Map} {R : List Nat}

theorem uvmcopyLoop_skip (hlt : p * PGSIZE < sz) (hva : p * PGSIZE < MAXVA)
    (h : entry m old (p * PGSIZE) &&& PTE_V = 0) :
    uvmcopyLoop k old new sz (turns + 1) m (p * PGSIZE) =
      uvmcopyLoop k old new sz turns m ((p + 1) * PGSIZE) := by
  rw [uvmcopyLoop, if_pos hlt, walk_find hva, ok_bind, uint64_page hva]
  cases ht : tableAt m old (route (p * PGSIZE) 2) with
  | none => simp only [Option.map_none]
  | some t =>
    rw [entry_some ht] at h
    simp only [Option.map_some]
    rw [if_pos h]

/-- The turn for a page that the parent has. -/
theorem uvmcopyLoop_page (k : Image) (new turns : Nat) (hlt : p * PGSIZE < sz) (hva : p * PGSIZE < MAXVA)
    (h : entry m old (p * PGSIZE) &&& PTE_V ≠ 0) :
    (m.freelist = [] → uvmcopyLoop k old new sz (turns + 1) m (p * PGSIZE) =
      uvmunmap k.kernelEnd m new 0 p true >>= fun m => pure (m, false)) ∧
    ∀ m₁ b, kalloc m = (m₁, some b) → uvmcopyLoop k old new sz (turns + 1) m (p * PGSIZE) =
      mappages (memmovePage m₁ b (PTE2PA (entry m old (p * PGSIZE)))) new (p * PGSIZE) PGSIZE b
        (PTE_FLAGS (entry m old (p * PGSIZE))) >>= fun r =>
          if r.2 then uvmcopyLoop k old new sz turns r.1 ((p + 1) * PGSIZE)
          else kfree k.kernelEnd r.1 b >>= fun m =>
            uvmunmap k.kernelEnd m new 0 p true >>= fun m => pure (m, false) := by
  have hpage : p * PGSIZE / PGSIZE = p := Nat.mul_div_cancel p (by decide)
  rw [uvmcopyLoop, if_pos hlt, walk_find hva, ok_bind, uint64_page hva, hpage]
  cases ht : tableAt m old (route (p * PGSIZE) 2) with
  | none =>
    rw [entry_none ht] at h
    exact absurd rfl h
  | some t =>
    rw [entry_some ht] at h ⊢
    simp only [Option.map_some]
    rw [if_neg h]
    refine ⟨fun hfree => ?_, fun m₁ b hkalloc => ?_⟩
    · rw [kalloc_none hfree]
    · rw [hkalloc]

/-- A page that the parent has is copied into a new page of the child, or the memory ends. -/
theorem Space.copyPage {x : Mapping} (h : Space k m new M []) (hp : p < USER) (hM : M p = none)
    (hperm : perm < 1024) (hx : x.pa ∉ m.freelist) (hfree : m.freelist = b :: free) :
    ∃ m₁ m' done, kalloc m = (m₁, some b) ∧
      mappages (memmovePage m₁ b x.pa) new (p * PGSIZE) PGSIZE b perm = .ok (m', done) ∧
      (done = true ∧ Space k m' new (M.map p 1 b perm) [] ∧
          Moved m m' (share m new M) (share m' new (M.map p 1 b perm)) ∧
          m'.page b = m.page x.pa ∧ (∀ a ∈ userPages M, m'.page a = m.page a) ∨
        done = false ∧ ∃ m'', kfree k.kernelEnd m' b = .ok m'' ∧ Space k m'' new M [] ∧
          Moved m m'' (share m new M) (share m'' new M)) := by
  obtain ⟨m₁, hkalloc, hm₁, h₁, -, hmoved₁, hsame₁⟩ := h.take hfree
  have hsame₂ : ∀ a, a ≠ b → (memmovePage m₁ b x.pa).page a = m₁.page a :=
    fun a ha => Function.update_of_ne ha ..
  have hcopy : (memmovePage m₁ b x.pa).page b = m₁.page x.pa := Function.update_self ..
  obtain ⟨h₂, -, hmoved₂⟩ := h₁.fill (show (memmovePage m₁ b x.pa).freelist = m₁.freelist from rfl) hsame₂
  obtain ⟨m₃, done, heq₃, -, hdone, hkeep⟩ := h₂.add hp hM hperm
  have hmoved := hmoved₁.trans hmoved₂
  have hxb : x.pa ≠ b := by
    rintro heq
    rw [hfree, heq] at hx
    exact hx List.mem_cons_self
  refine ⟨m₁, m₃, done, hkalloc, heq₃, ?_⟩
  rcases hdone with ⟨rfl, h₃, hmoved₃⟩ | ⟨rfl, h₃, hmoved₃⟩
  · have hall := hmoved.trans hmoved₃
    rw [List.nil_append, List.nil_append] at hall
    refine Or.inl ⟨rfl, h₃, hall, ?_, fun a ha => ?_⟩
    · have hb := List.mem_singleton_self b
      rw [hkeep b (h₂.hand_not_table hb) (h₂.hand_not_free hb), hcopy, hsame₁ _ hxb]
    · have hab : a ≠ b := by
        rintro rfl
        exact h₂.hand_not_user (List.mem_singleton_self a) ha
      rw [hkeep a (h₂.user_not_table ha) (h₂.user_not_free ha), hsame₂ a hab, hsame₁ a hab]
  · obtain ⟨heq₄, h₄, hmoved₄⟩ := h₃.give
    have hall := hmoved.trans (hmoved₃.trans hmoved₄)
    rw [List.nil_append, List.nil_append] at hall
    exact Or.inr ⟨rfl, _, heq₄, h₄, hall⟩

/-- What the child has is taken away again. -/
theorem Space.uncopy (h : Space k m new M []) (hp : p ≤ USER) (hclear : ∀ q, p ≤ q → q < USER → M q = none) :
    ∃ m' M', (uvmunmap k.kernelEnd m new 0 p true >>= fun m => pure (m, false)) = .ok (m', false) ∧
      Space k m' new M' [] ∧ Moved m m' (share m new M) (share m' new M') ∧
      (∀ q, USER ≤ q → M' q = M q) ∧ ∀ q < USER, M' q = none := by
  obtain ⟨m', heq, hspace, hmoved, -⟩ := h.unmap (p := 0) (n := p) (by omega)
  rw [Nat.zero_mul] at heq
  rw [List.nil_append, List.nil_append] at hmoved
  refine ⟨m', M.unmap 0 p, by rw [heq, ok_bind, return_eq], hspace, hmoved, fun q hq => ?_, fun q hq => ?_⟩
  · exact if_neg (by omega)
  · unfold Map.unmap
    by_cases hin : 0 ≤ q ∧ q < 0 + p
    · rw [if_pos hin]
    · rw [if_neg hin]
      exact hclear q (by omega) hq

theorem Copied.kept (h : Copied m Mo M p) (hp : p ≤ USER) (hchild : ∀ a ∈ userPages M, m'.page a = m.page a)
    (hparent : ∀ a ∈ userPages Mo, m'.page a = m.page a) (hM' : ∀ q < p, M' q = M q) :
    Copied m' Mo M' p := by
  intro q hq
  have hqu : q < USER := by omega
  rcases h q hq with ⟨hnone, hM⟩ | ⟨x, b, hx, hM, hpage⟩
  · exact Or.inl ⟨hnone, by rw [hM' q hq, hM]⟩
  · refine Or.inr ⟨x, b, hx, by rw [hM' q hq, hM], ?_⟩
    rw [hchild b (mem_userPages hqu hM), hpage, hparent x.pa (mem_userPages hqu hx)]

/-- The loop copies the pages of the parent, or it takes those away that it has copied. -/
theorem Space.uvmcopyLoop (h : Space k m new M []) (hR : Pages k m (share m new M ++ R))
    (hold : Represents m old Mo) (htab : ∀ a, IsTable m old a → a ∈ R) (huser : ∀ a ∈ userPages Mo, a ∈ R)
    (hsz : sz ≤ TRAPFRAME) (hp : p ≤ npages sz) (hcopied : Copied m Mo M p)
    (hclear : ∀ q, p ≤ q → q < USER → M q = none) (hturns : sz ≤ (p + turns) * PGSIZE) :
    ∃ m' done M', uvmcopyLoop k old new sz turns m (p * PGSIZE) = .ok (m', done) ∧
      Space k m' new M' [] ∧ Moved m m' (share m new M) (share m' new M') ∧
      (∀ q, USER ≤ q → M' q = M q) ∧
      (done = true ∧ Copied m' Mo M' (npages sz) ∧ (∀ q, npages sz ≤ q → q < USER → M' q = none) ∨
        done = false ∧ ∀ q < USER, M' q = none) := by
  have hpages := npages_le hsz
  have hend : ¬ p * PGSIZE < sz → p = npages sz := by
    intro hge
    have hn : ¬ p < npages sz := fun hlt => hge ((lt_npages hsz).mp hlt)
    omega
  induction turns generalizing m M p with
  | zero =>
    rw [Nat.add_zero] at hturns
    obtain rfl := hend (Nat.not_lt.mpr hturns)
    rw [spaces.uvmcopyLoop, if_neg (Nat.not_lt.mpr hturns)]
    exact ⟨m, true, M, rfl, h, .refl m _, fun _ _ => rfl, Or.inl ⟨rfl, hcopied, hclear⟩⟩
  | succ turns ih =>
    by_cases hlt : p * PGSIZE < sz
    · have hpn : p < npages sz := (lt_npages hsz).mpr hlt
      have hpu : p < USER := by omega
      have hva : p * PGSIZE < MAXVA := by
        have hmul : p * PGSIZE < USER * PGSIZE := Nat.mul_lt_mul_of_pos_right hpu (by decide)
        have hmax : USER * PGSIZE ≤ MAXVA := by decide
        omega
      have hpage : p * PGSIZE / PGSIZE = p := Nat.mul_div_cancel p (by decide)
      have hnext : sz ≤ (p + 1 + turns) * PGSIZE := by
        rw [Nat.add_right_comm]
        exact hturns
      have hend' : ¬ (p + 1) * PGSIZE < sz → p + 1 = npages sz := by
        intro hge
        have hn : ¬ p + 1 < npages sz := fun hlt => hge ((lt_npages hsz).mp hlt)
        omega
      have hM := hclear p (Nat.le_refl p) hpu
      cases hMo : Mo p with
      | none =>
        have hempty := hold.absent (p * PGSIZE) hva (by rw [hpage, hMo])
        rw [uvmcopyLoop_skip hlt hva hempty]
        exact ih h hR hold htab hpn (hcopied.succ (Or.inl ⟨hMo, hM⟩))
          (fun q h₁ h₂ => hclear q (by omega) h₂) hnext hend'
      | some x =>
        obtain ⟨haligned, hpos, hxlt, hxperm⟩ := hold.good p x hMo
        have hentry := hold.present (p * PGSIZE) hva x (by rw [hpage, hMo])
        have hpa : PTE2PA (leaf x.pa x.perm) = x.pa := PTE2PA_entry hxlt haligned hxperm
        obtain ⟨hnil, hcons⟩ := uvmcopyLoop_page k new turns hlt hva
          (by rw [hentry]; exact leaf_valid x.pa x.perm)
        rw [hentry, hpa, PTE_FLAGS_leaf hxperm] at hcons
        have hxR := huser x.pa (mem_userPages hpu hMo)
        have hxout : x.pa ∉ m.freelist := by
          intro hmem
          exact (List.nodup_append.mp hR.nodup).2.2 x.pa hmem x.pa (List.mem_append_right _ hxR) rfl
        cases hfree : m.freelist with
        | nil =>
          obtain ⟨m', M', heq, hspace, hmoved, hhigh, hlow⟩ := h.uncopy (Nat.le_of_lt hpu) hclear
          rw [hnil hfree]
          exact ⟨m', false, M', heq, hspace, hmoved, hhigh, Or.inr ⟨rfl, hlow⟩⟩
        | cons b free =>
          obtain ⟨m₁, m₃, done, hkalloc, heq₃, hdone⟩ := h.copyPage hpu hM (or_V_lt hxperm) hxout hfree
          rw [hcons m₁ b hkalloc, heq₃, ok_bind]
          rcases hdone with ⟨rfl, h₃, hmoved₃, hbytes, hkept⟩ | ⟨rfl, m₄, heq₄, h₄, hmoved₄⟩
          · have hRsame : ∀ a ∈ R, m₃.page a = m.page a := fun a ha => hmoved₃.page_of_frame hR ha
            have hold₃ := hold.congr fun a ha => hRsame a (htab a ha)
            have htab₃ : ∀ a, IsTable m₃ old a → a ∈ R := by
              rintro a ⟨q, hq, ha⟩
              obtain ⟨-, hpaths, -⟩ := hold.tree.congr fun a ha => hRsame a (htab a ha)
              exact htab a ⟨q, hq, (hpaths q hq).symm.trans ha⟩
            have hcopied₃ : Copied m₃ Mo (M.map p 1 b (x.perm ||| PTE_V)) (p + 1) := by
              refine (hcopied.kept (Nat.le_of_lt hpu) hkept (fun a ha => hRsame a (huser a ha))
                fun q hq => map_of_ne (by omega)).succ (Or.inr ⟨x, b, hMo, map_at M p b _, ?_⟩)
              rw [hbytes, hRsame x.pa hxR]
            obtain ⟨m', done, M', heq, hspace, hmoved, hhigh, hrest⟩ :=
              ih h₃ (hR.moved (hmoved₃.frame R)) hold₃ htab₃ hpn hcopied₃
                (fun q h₁ h₂ => by rw [map_of_ne (by omega)]; exact hclear q (by omega) h₂) hnext hend'
            refine ⟨m', done, M', heq, hspace, hmoved₃.trans hmoved, fun q hq => ?_, hrest⟩
            rw [hhigh q hq, map_of_ne (by omega)]
          · obtain ⟨m', M', heq, hspace, hmoved, hhigh, hlow⟩ := h₄.uncopy (Nat.le_of_lt hpu) hclear
            simp only [Bool.false_eq_true, if_false]
            rw [heq₄, ok_bind, heq]
            exact ⟨m', false, M', rfl, hspace, hmoved₄.trans hmoved, hhigh, Or.inr ⟨rfl, hlow⟩⟩
    · obtain rfl := hend hlt
      rw [spaces.uvmcopyLoop, if_neg hlt]
      exact ⟨m, true, M, rfl, h, .refl m _, fun _ _ => rfl, Or.inl ⟨rfl, hcopied, hclear⟩⟩

end

end xv6.spaces
