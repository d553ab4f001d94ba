-- `kexec` builds a new address space from a file (kernel/exec.c): whatever the
-- file says and wherever the memory ends, what it has built so far is a space
-- of the size that it has got to.
import SysNet.Xv6.SpaceCalls

open bytes radix shares

namespace xv6.spaces

open vm (PGSIZE MAXVA TRAMPOLINE TRAPFRAME uint64 PGROUNDUP PGROUNDDOWN)
open pagetable

variable {k : Image} {m m' m'' : Mem} {M M' M'' : Map} {root a b pa perm va p q n i sz turns off : Nat}
  {hand : List Nat} {x : Mapping} {pr : Proc} {file src : List UInt8}

/-! ## User pages -/

theorem mul_lt_MAXVA (hq : q < USER) : q * PGSIZE < MAXVA := by
  have hmul : q * PGSIZE < USER * PGSIZE := Nat.mul_lt_mul_of_pos_right hq (by decide)
  have hmax : USER * PGSIZE ≤ MAXVA := by decide
  exact Nat.lt_of_lt_of_le hmul hmax

/-- What is in a page of the user changes. -/
theorem Space.scribble (h : Space k m root M hand) (hb : b ∈ userPages M) (hfree : m'.freelist = m.freelist)
    (hsame : ∀ a, a ≠ b → m'.page a = m.page a) :
    Space k m' root M hand ∧ Moved m m' (hand ++ share m root M) (hand ++ share m' root M) := by
  have hmoved : Moved m m' (hand ++ share m root M) (hand ++ share m root M) := by
    refine ⟨by rw [hfree], fun a ha => hsame a ?_⟩
    rintro rfl
    exact ha (List.mem_append_right _ (List.mem_append_right _ (List.mem_append_right _ hb)))
  have htables : ∀ a, IsTable m root a → m'.page a = m.page a := by
    intro a ha
    apply hsame
    rintro rfl
    exact h.user_not_table hb ha
  obtain ⟨hspace, hshare⟩ := h.congr htables hmoved
  refine ⟨hspace, ?_⟩
  rw [hshare]
  exact hmoved

theorem Space.write (h : Space k m root M hand) (hb : b ∈ userPages M) (off : Nat) (src : List UInt8) :
    Space k (write m b off src) root M hand ∧
      Moved m (write m b off src) (hand ++ share m root M) (hand ++ share (write m b off src) root M) := by
  have hfree : (spaces.write m b off src).freelist = m.freelist := rfl
  have hsame : ∀ a, a ≠ b → (spaces.write m b off src).page a = m.page a :=
    fun a ha => Function.update_of_ne ha ..
  exact h.scribble hb hfree hsame

theorem leaf_and {mask : Nat} (hperm : perm < 1024) (hmask : mask < 1024) (hv : PTE_V &&& mask = 0) :
    leaf pa perm &&& mask = perm &&& mask := by
  have hflags := or_V_lt hperm
  have hleaf : leaf pa perm = pa / 4096 * 1024 + (perm ||| PTE_V) := entry_eq hperm
  have hmod : leaf pa perm % 1024 = perm ||| PTE_V := by
    rw [hleaf]
    omega
  rw [and_flags hmask, hmod, Nat.and_or_distrib_right, hv, Nat.or_zero]

/-- The table with the entry of a page that is mapped. -/
theorem walk_mapped (h : Represents m root M) (hva : va < MAXVA) (hx : M (va / PGSIZE) = some x) :
    ∃ t, tableAt m root (route va 2) = some t ∧ m.pte t (PX 0 va) = leaf x.pa x.perm ∧
      walk m root va false = .ok (m, some (t, PX 0 va)) := by
  have hentry := h.present va hva x hx
  cases ht : tableAt m root (route va 2) with
  | none =>
    rw [entry_none ht] at hentry
    have hvalid := leaf_valid x.pa x.perm
    rw [← hentry] at hvalid
    exact absurd rfl hvalid
  | some t =>
    rw [entry_some ht] at hentry
    refine ⟨t, rfl, hentry, ?_⟩
    rw [walk_find hva, ht, Option.map_some]

/-- The page is mapped for the user with the flags. -/
def Mapped (M : Map) (va flags : Nat) : Prop :=
  ∃ x, M (va / PGSIZE) = some x ∧ x.perm &&& PTE_U ≠ 0 ∧ x.perm &&& flags ≠ 0

theorem walkaddr_mapped (h : Represents m root M) (hx : M (va / PGSIZE) = some x)
    (hu : x.perm &&& PTE_U ≠ 0) : walkaddr m root va = .ok x.pa ∧ x.pa ≠ 0 := by
  obtain ⟨-, hpos, -⟩ := h.good _ x hx
  have hwalk := h.walkaddr va
  unfold Map.lookup at hwalk
  rw [hx, Option.elim_some, if_neg hu] at hwalk
  exact ⟨hwalk, Nat.ne_of_gt hpos⟩

/-! ## copyout -/

theorem PGROUNDDOWN_div (va : Nat) : PGROUNDDOWN va / PGSIZE = va / PGSIZE := by
  unfold PGROUNDDOWN
  exact Nat.mul_div_cancel _ (by decide)

theorem copyoutLoop_nil : copyoutLoop k pr root turns m va [] = .ok (m, true) := by
  cases turns with
  | zero => rfl
  | succ turns =>
    rw [copyoutLoop, if_pos rfl]
    rfl

/-- Bytes are copied to pages that may be written. -/
theorem Space.copyoutLoop (h : Space k m root M hand)
    (hmapped : ∀ v, va ≤ v → v < va + src.length → Mapped M v PTE_W)
    (hend : va + src.length ≤ TRAPFRAME) (hturns : src.length ≤ turns) :
    ∃ m', copyoutLoop k pr root turns m va src = .ok (m', true) ∧ Space k m' root M hand ∧
      Moved m m' (hand ++ share m root M) (hand ++ share m' root M) := by
  induction turns generalizing m va src with
  | zero =>
    obtain rfl := List.eq_nil_of_length_eq_zero (Nat.eq_zero_of_le_zero hturns)
    exact ⟨m, rfl, h, .refl m _⟩
  | succ turns ih =>
    rw [spaces.copyoutLoop]
    by_cases hnil : src = []
    · rw [if_pos hnil]
      exact ⟨m, rfl, h, .refl m _⟩
    · have hlen : 0 < src.length := List.length_pos_of_ne_nil hnil
      have hmax : TRAPFRAME ≤ MAXVA := by decide
      have hva : PGROUNDDOWN va < MAXVA := by
        unfold PGROUNDDOWN
        have hle := Nat.div_mul_le_self va PGSIZE
        omega
      obtain ⟨x, hx, hu, hw⟩ := hmapped va (Nat.le_refl va) (by omega)
      have hx' : M (PGROUNDDOWN va / PGSIZE) = some x := by
        rw [PGROUNDDOWN_div]
        exact hx
      obtain ⟨-, -, -, hperm⟩ := h.represents.good _ x hx
      obtain ⟨haddr, hne⟩ := walkaddr_mapped h.represents hx' hu
      obtain ⟨t, -, hentry, hwalk⟩ := walk_mapped h.represents hva hx'
      have hwrite : m.pte t (PX 0 (PGROUNDDOWN va)) &&& PTE_W ≠ 0 := by
        rw [hentry, leaf_and hperm (by decide) (by decide)]
        exact hw
      have hfetch : fetch k m pr root (PGROUNDDOWN va) = .ok (m, x.pa) := by
        unfold spaces.fetch
        rw [haddr, ok_bind, if_neg hne]
        rfl
      have huser : va / PGSIZE < USER := by
        rw [trapframe_eq] at hend
        exact Nat.div_lt_of_lt_mul (by rw [Nat.mul_comm]; omega)
      rw [if_neg hnil, if_neg (Nat.not_le.mpr hva), hfetch, ok_bind]
      simp only []
      rw [if_neg hne, hwalk, ok_bind]
      simp only []
      rw [if_neg hwrite]
      have hdown : va = PGROUNDDOWN va + va % PGSIZE := by
        unfold PGROUNDDOWN
        rw [Nat.mul_comm]
        exact (Nat.div_add_mod va PGSIZE).symm
      have hmod : va % PGSIZE < PGSIZE := Nat.mod_lt _ (by decide)
      generalize hn : min (PGSIZE - (va - PGROUNDDOWN va)) src.length = n
      generalize PGROUNDDOWN va = va0 at *
      have hpage : PGSIZE = 4096 := rfl
      have htrap : TRAPFRAME < 18446744073709551616 - PGSIZE := by decide
      have hnext : uint64 ((va0 : Int) + PGSIZE) = va0 + PGSIZE := uint64_add (by omega)
      obtain ⟨h₁, hmoved₁⟩ := h.write (mem_userPages huser hx) (va - va0) (src.take n)
      have hdrop : (src.drop n).length = src.length - n := List.length_drop
      rw [hnext]
      by_cases hlast : src.length = n
      · have hempty : src.drop n = [] := List.drop_eq_nil_of_le (Nat.le_of_eq hlast)
        rw [hempty]
        rw [copyoutLoop_nil]
        exact ⟨_, rfl, h₁, hmoved₁⟩
      · have hrest : va0 + PGSIZE + (src.drop n).length ≤ TRAPFRAME := by omega
        obtain ⟨m', heq, h', hmoved'⟩ := ih h₁
          (fun v h₁ h₂ => hmapped v (by omega) (by omega)) hrest (by omega)
        exact ⟨m', heq, h', hmoved₁.trans hmoved'⟩

/-! ## loadseg -/

/-- The number of the pages that `kfree` takes. -/
def FRAMES : Nat := 557056

/-- There are not more pages than the memory has. -/
theorem Pages.length_le {A : List Nat} (h : Pages k m A) : (m.freelist ++ A).length ≤ FRAMES := by
  have hnodup : ((m.freelist ++ A).map (· / 4096)).Nodup := by
    refine h.nodup.map_on fun a ha b hb heq => ?_
    obtain ⟨hma, -⟩ := h.page a ha
    obtain ⟨hmb, -⟩ := h.page b hb
    unfold PGSIZE at *
    omega
  have hsub : (m.freelist ++ A).map (· / 4096) ⊆ List.range FRAMES := by
    intro c hc
    obtain ⟨a, ha, rfl⟩ := List.mem_map.mp hc
    obtain ⟨-, -, hlt⟩ := h.page a ha
    unfold PHYSTOP KERNBASE at hlt
    unfold FRAMES
    rw [List.mem_range]
    omega
  have hle := (List.subperm_of_subset hnodup hsub).length_le
  rw [List.length_map, List.length_range] at hle
  exact hle

theorem length_frames (h : ∀ q, p ≤ q → q < p + n → M q ≠ none) : (M.frames p n).length = n := by
  induction n generalizing p with
  | zero => rfl
  | succ n ih =>
    rw [frames_succ, List.length_append, ih fun q h₁ h₂ => h q (by omega) (by omega)]
    cases hM : M p with
    | none => exact absurd hM (h p (Nat.le_refl p) (by omega))
    | some x => exact Nat.add_comm 1 n

/-- The pages of a space that has no gap, and the free pages, are not more than the memory has. -/
theorem Space.length_le (h : Space k m root M hand) (hn : n ≤ USER) (hM : ∀ q < n, M q ≠ none) :
    n + m.freelist.length ≤ FRAMES := by
  have hlen := h.pages.length_le
  have huser := (userPages_unmap (M := M) (p := 0) (n := n) (by omega)).length_eq
  have hpages : (M.frames 0 n).length = n := length_frames fun q _ hq => hM q (by omega)
  unfold share at hlen
  simp only [List.length_append] at hlen huser
  omega

/-- A segment is loaded into pages that are there, as far as the file goes. -/
theorem Space.loadsegLoop (file : List UInt8) (offset : Nat) (h : Space k m root M hand)
    (hmapped : ∀ v, va ≤ v → v < va + sz → Mapped M v PTE_U) (hend : va + sz ≤ TRAPFRAME)
    (hsz : sz ≤ FRAMES * PGSIZE) (hturns : sz ≤ i + turns * PGSIZE) :
    ∃ m' done, loadsegLoop root va file offset sz turns m i = .ok (m', done) ∧
      Space k m' root M hand ∧ Moved m m' (hand ++ share m root M) (hand ++ share m' root M) := by
  induction turns generalizing m i with
  | zero =>
    rw [spaces.loadsegLoop, if_neg (by omega)]
    exact ⟨m, true, rfl, h, .refl m _⟩
  | succ turns ih =>
    rw [spaces.loadsegLoop]
    by_cases hlt : i < sz
    · obtain ⟨x, hx, hu, -⟩ := hmapped (va + i) (by omega) (by omega)
      have htrap : TRAPFRAME < 18446744073709551616 := by decide
      have hframes : FRAMES * PGSIZE + PGSIZE < 4294967296 := by decide
      have haddr : uint64 ((va : Int) + i) = va + i := uint64_add (by omega)
      obtain ⟨hwalk, hne⟩ := walkaddr_mapped h.represents hx hu
      have huser : (va + i) / PGSIZE < USER := by
        rw [trapframe_eq] at hend
        exact Nat.div_lt_of_lt_mul (by rw [Nat.mul_comm]; omega)
      have hnext : (i + PGSIZE) % 4294967296 = i + PGSIZE := Nat.mod_eq_of_lt (by omega)
      rw [if_pos hlt, haddr, hwalk, ok_bind, if_neg hne, hnext]
      generalize (if sz - i < PGSIZE then sz - i else PGSIZE) = n
      obtain ⟨h₁, hmoved₁⟩ := h.write (mem_userPages huser hx) 0 (readi file (offset + i) n)
      by_cases hshort : (readi file (offset + i) n).length ≠ n
      · rw [if_pos hshort]
        exact ⟨_, false, rfl, h₁, hmoved₁⟩
      · obtain ⟨m', done, heq, h', hmoved'⟩ := ih (i := i + PGSIZE) h₁ (by rw [Nat.succ_mul] at hturns; omega)
        rw [if_neg hshort]
        exact ⟨m', done, heq, h', hmoved₁.trans hmoved'⟩
    · rw [if_neg hlt]
      exact ⟨m, true, rfl, h, .refl m _⟩

/-! ## uvmclear -/

/-- The flag of the user is taken from an entry. -/
theorem leaf_clear (hperm : perm < 1024) :
    leaf pa perm - (leaf pa perm &&& PTE_U) = leaf pa (perm - (perm &&& PTE_U)) := by
  have hand : leaf pa perm &&& PTE_U = perm &&& PTE_U := leaf_and hperm (by decide) (by decide)
  have hbit : perm &&& PTE_U = 0 ∨ perm &&& PTE_U = 16 := by
    have htwo := Nat.and_two_pow perm 4
    change perm &&& PTE_U = _ at htwo
    rw [htwo]
    cases perm.testBit 4 with
    | false => exact Or.inl rfl
    | true => exact Or.inr rfl
  have hle : perm &&& PTE_U ≤ perm := Nat.and_le_left
  have hor : ∀ n, n ||| PTE_V = n / 2 * 2 + 1 := by
    intro n
    have h := Nat.two_pow_add_eq_or_of_lt (i := 1) (b := 1) (by decide) (n / 2)
    have hv : PTE_V = 1 := rfl
    rw [hv]
    have hodd : n ||| 1 = (n ||| 1) / 2 * 2 + (n ||| 1) % 2 := (Nat.div_add_mod' _ 2).symm
    rw [hodd, Nat.or_div_two, Nat.or_mod_two_eq_one.mpr (Or.inr rfl)]
    have hone : 1 / 2 = 0 := rfl
    rw [hone, Nat.or_zero]
  have hleft : leaf pa perm = pa / 4096 * 1024 + (perm ||| PTE_V) := entry_eq hperm
  have hright : leaf pa (perm - (perm &&& PTE_U)) = pa / 4096 * 1024 + ((perm - (perm &&& PTE_U)) ||| PTE_V) :=
    entry_eq (by omega)
  rw [hand, hleft, hright, hor, hor]
  omega

/-- The page is not for the user any more. -/
theorem Space.uvmclear (h : Space k m root M hand) (hq : q < USER) (hx : M q = some x) :
    ∃ m', uvmclear m root (q * PGSIZE) = .ok m' ∧
      Space k m' root (M.map q 1 x.pa (x.perm - (x.perm &&& PTE_U))) hand ∧
      Moved m m' (hand ++ share m root M)
        (hand ++ share m' root (M.map q 1 x.pa (x.perm - (x.perm &&& PTE_U)))) := by
  have hpage : q * PGSIZE / PGSIZE = q := Nat.mul_div_cancel q (by decide)
  have hva := mul_lt_MAXVA hq
  obtain ⟨haligned, hpos, hlt, hperm⟩ := h.represents.good q x hx
  obtain ⟨t, ht, hentry, hwalk⟩ := walk_mapped h.represents hva (by rw [hpage, hx])
  have hfreeable := h.pages.page x.pa (List.mem_append_right _ (List.mem_append_right _
    (List.mem_append_right _ (mem_userPages hq hx))))
  obtain ⟨-, -, hsmall⟩ := isPage_of_freeable hfreeable
  have hle : x.perm - (x.perm &&& PTE_U) < 1024 := by omega
  obtain ⟨hgrown, -, hset⟩ := h.represents.tree.set hva ht (leaf_lt hlt hle)
  rw [← leaf_clear hperm] at hgrown hset
  unfold spaces.uvmclear
  rw [hwalk, ok_bind]
  simp only []
  rw [hentry]
  generalize hm' : m.setPte t (PX 0 (q * PGSIZE)) (leaf x.pa x.perm - (leaf x.pa x.perm &&& PTE_U)) = m' at *
  have hmax : (q + 1) * PGSIZE ≤ MAXVA := by
    have hmul : (q + 1) * PGSIZE ≤ USER * PGSIZE := Nat.mul_le_mul_right PGSIZE hq
    have huser : USER * PGSIZE ≤ MAXVA := by decide
    exact Nat.le_trans hmul huser
  have hr := h.represents.map hgrown hmax haligned hpos hsmall hle fun v hv => by
    rw [hset v hv, hpage, leaf_clear hperm]
    by_cases heq : v / PGSIZE = q
    · rw [if_pos heq, if_pos (by omega), heq, Nat.sub_self, Nat.zero_mul, Nat.add_zero]
    · rw [if_neg heq, if_neg (by omega)]
  have huser : userPages (M.map q 1 x.pa (x.perm - (x.perm &&& PTE_U))) = userPages M := by
    unfold userPages
    apply List.filterMap_congr
    intro p _
    by_cases hpq : p = q
    · rw [hpq, map_at, hx, Option.map_some, Option.map_some]
    · rw [map_of_ne hpq]
  have hmoved := moved_grown h.represents.tree h.fresh hgrown M hand
  have hshare : share m' root (M.map q 1 x.pa (x.perm - (x.perm &&& PTE_U))) = share m' root M := by
    unfold share
    rw [huser]
  refine ⟨m', rfl, ⟨hr, ?_⟩, ?_⟩
  · rw [hshare]
    exact h.pages.moved hmoved
  · rw [hshare]
    exact hmoved

/-! ## The arguments -/

/-- The stack of a new space: pages for the user to write. -/
def Stack (M : Map) (stackbase sz : Nat) : Prop :=
  ∀ v, stackbase ≤ v → v < sz → Mapped M v PTE_W

theorem uint64_sub {y z : Nat} (hz : z ≤ y) (hy : y < 18446744073709551616) :
    uint64 ((y : Int) - z) = y - z := by
  unfold uint64
  omega

theorem Space.copyout (pr : Proc) {sp stackbase : Nat} (h : Space k m root M hand) (hstack : Stack M stackbase sz)
    (hbase : stackbase ≤ sp) (hend : sp + src.length ≤ sz) (hsz : sz ≤ TRAPFRAME) :
    ∃ m', copyout k m pr root sp src = .ok (m', true) ∧ Space k m' root M hand ∧
      Moved m m' (hand ++ share m root M) (hand ++ share m' root M) :=
  h.copyoutLoop (fun v h₁ h₂ => hstack v (by omega) (by omega)) (by omega) (Nat.le_refl _)

/-- The arguments go below one another, above the base of the stack. -/
theorem Space.argLoop (pr : Proc) {sp : Nat} (argc : Nat) {argv : List (List UInt8)} (ustack : List Nat)
    (h : Space k m root M hand) (hstack : Stack M (sz - USERSTACK * PGSIZE) sz)
    (hroom : (USERSTACK + 1) * PGSIZE ≤ sz) (hsz : sz ≤ TRAPFRAME) (hbase : sz - USERSTACK * PGSIZE ≤ sp)
    (hsp : sp ≤ sz) (hargv : ∀ arg ∈ argv, arg.length < PGSIZE) :
    ∃ m' r, argLoop k pr root (sz - USERSTACK * PGSIZE) argv argc m sp ustack = .ok (m', r) ∧
      Space k m' root M hand ∧ Moved m m' (hand ++ share m root M) (hand ++ share m' root M) ∧
      ∀ sp' ustack', r = some (sp', ustack') → sz - USERSTACK * PGSIZE ≤ sp' ∧ sp' ≤ sz ∧
        ustack'.length = ustack.length + argv.length ∧ (argv ≠ [] → argc + argv.length ≤ MAXARG) := by
  induction argv generalizing m sp argc ustack with
  | nil =>
    refine ⟨m, some (sp, ustack), rfl, h, .refl m _, fun sp' ustack' heq => ?_⟩
    cases heq
    exact ⟨hbase, hsp, rfl, fun hne => absurd rfl hne⟩
  | cons arg argv ih =>
    have harg := hargv arg List.mem_cons_self
    have htrap : TRAPFRAME < 18446744073709551616 := by decide
    have hstackroom : PGSIZE ≤ sz - USERSTACK * PGSIZE := by
      rw [Nat.add_mul] at hroom
      omega
    have hsub : uint64 ((sp : Int) - (arg.length + 1)) = sp - (arg.length + 1) :=
      uint64_sub (z := arg.length + 1) (by omega) (by omega)
    have hmod : (sp - (arg.length + 1)) % 16 ≤ sp - (arg.length + 1) := Nat.mod_le ..
    rw [spaces.argLoop]
    by_cases hfull : MAXARG ≤ argc
    · rw [if_pos hfull]
      exact ⟨m, none, rfl, h, .refl m _, fun _ _ heq => nomatch heq⟩
    · rw [if_neg hfull, hsub]
      simp only []
      generalize hnew : sp - (arg.length + 1) - (sp - (arg.length + 1)) % 16 = new
      by_cases hlow : new < sz - USERSTACK * PGSIZE
      · rw [if_pos hlow]
        exact ⟨m, none, rfl, h, .refl m _, fun _ _ heq => nomatch heq⟩
      · have hlen : new + (arg ++ [0]).length ≤ sz := by
          rw [List.length_append, List.length_singleton]
          omega
        obtain ⟨m₁, heq₁, h₁, hmoved₁⟩ := h.copyout pr hstack (Nat.le_of_not_lt hlow) hlen hsz
        obtain ⟨m', r, heq, h', hmoved', hr⟩ := ih (argc + 1) (ustack ++ [new]) h₁
          (Nat.le_of_not_lt hlow) (by omega) fun arg harg => hargv arg (List.mem_cons_of_mem _ harg)
        rw [if_neg hlow, heq₁, ok_bind]
        refine ⟨m', r, heq, h', hmoved₁.trans hmoved', fun sp' ustack' hsome => ?_⟩
        obtain ⟨hb, hs, hu, hm⟩ := hr sp' ustack' hsome
        rw [List.length_append, List.length_singleton] at hu
        refine ⟨hb, hs, ?_, fun _ => ?_⟩
        · rw [hu, List.length_cons]
          omega
        · rw [List.length_cons]
          by_cases hnil : argv = []
          · subst hnil
            rw [List.length_nil]
            omega
          · have := hm hnil
            omega

theorem length_words (l : List Nat) : (words l).length = l.length * 8 := by
  unfold words
  rw [List.length_flatMap]
  induction l with
  | nil => rfl
  | cons v l ih =>
    rw [List.map_cons, List.sum_cons, ih, List.length_map, List.length_range, List.length_cons]
    omega

/-- The arguments and the words that point to them, or what is there of them. -/
theorem Space.pushArgs (pr : Proc) {argv : List (List UInt8)} (h : Space k m root M hand)
    (hstack : Stack M (sz - USERSTACK * PGSIZE) sz) (hroom : (USERSTACK + 1) * PGSIZE ≤ sz)
    (hsz : sz ≤ TRAPFRAME) (hargv : ∀ arg ∈ argv, arg.length < PGSIZE) :
    ∃ m' r, pushArgs k m pr root sz argv = .ok (m', r) ∧ Space k m' root M hand ∧
      Moved m m' (hand ++ share m root M) (hand ++ share m' root M) := by
  obtain ⟨m₁, r, heq₁, h₁, hmoved₁, hr⟩ := h.argLoop pr 0 [] hstack hroom hsz
    (Nat.sub_le ..) (Nat.le_refl sz) hargv
  unfold spaces.pushArgs
  rw [heq₁, ok_bind]
  cases r with
  | none => exact ⟨m₁, none, rfl, h₁, hmoved₁⟩
  | some r =>
    obtain ⟨sp, ustack⟩ := r
    obtain ⟨hbase, hsp, hlen, hargc⟩ := hr sp ustack rfl
    have htrap : TRAPFRAME < 18446744073709551616 := by decide
    have hcount : argv.length ≤ MAXARG := by
      by_cases hnil : argv = []
      · rw [hnil]
        exact Nat.zero_le _
      · have := hargc hnil
        omega
    have hsmall : (argv.length + 1) * 8 ≤ PGSIZE := by
      unfold MAXARG at hcount
      unfold PGSIZE
      omega
    have hstackroom : PGSIZE ≤ sz - USERSTACK * PGSIZE := by
      rw [Nat.add_mul] at hroom
      omega
    have hsub : uint64 ((sp : Int) - (argv.length + 1) * 8) = sp - (argv.length + 1) * 8 :=
      uint64_sub (z := (argv.length + 1) * 8) (by omega) (by omega)
    simp only []
    rw [hsub]
    generalize hnew : sp - (argv.length + 1) * 8 - (sp - (argv.length + 1) * 8) % 16 = new
    by_cases hlow : new < sz - USERSTACK * PGSIZE
    · rw [if_pos hlow]
      exact ⟨m₁, none, rfl, h₁, hmoved₁⟩
    · have hwords : (words (ustack ++ [0])).length = (argv.length + 1) * 8 := by
        rw [length_words, List.length_append, List.length_singleton, hlen, List.length_nil, Nat.zero_add]
      obtain ⟨m₂, heq₂, h₂, hmoved₂⟩ := h₁.copyout pr hstack (Nat.le_of_not_lt hlow)
        (show new + (words (ustack ++ [0])).length ≤ sz by rw [hwords]; omega) hsz
      rw [if_neg hlow, heq₂, ok_bind]
      exact ⟨m₂, some new, rfl, h₂, hmoved₁.trans hmoved₂⟩

/-! ## The segments -/

/-- Below the size all pages are there for the user, and above it there is none. -/
structure Loaded (M : Map) (sz : Nat) : Prop where
  size : sz ≤ TRAPFRAME
  below : ∀ q < npages sz, ∃ x, M q = some x ∧ x.perm &&& PTE_U ≠ 0
  above : ∀ q, npages sz ≤ q → q < USER → M q = none

theorem user_flag (xperm : Nat) : (PTE_R ||| PTE_U ||| xperm) &&& PTE_U ≠ 0 := by
  have htwo := Nat.and_two_pow (PTE_R ||| PTE_U ||| xperm) 4
  have hbit : (PTE_R ||| PTE_U ||| xperm).testBit 4 = true := by
    rw [Nat.testBit_or]
    have hru : (PTE_R ||| PTE_U).testBit 4 = true := by decide
    rw [hru, Bool.true_or]
  change (PTE_R ||| PTE_U ||| xperm) &&& PTE_U = _ at htwo
  rw [htwo, hbit]
  decide

theorem flags2perm_lt (flags : Nat) : flags2perm flags < 1024 := by
  have hx : (if flags &&& 1 ≠ 0 then PTE_X else 0) < 2 ^ 10 := by
    split <;> decide
  have hw : (if flags &&& 2 ≠ 0 then PTE_W else 0) < 2 ^ 10 := by
    split <;> decide
  exact Nat.or_lt_two_pow hx hw

/-- A space without a gap grows. -/
theorem Loaded.extend {xperm : Nat} (h : Loaded M sz) (hle : sz ≤ n) (hn : n ≤ TRAPFRAME)
    (hext : Extended M M' (npages sz) (npages n) (PTE_R ||| PTE_U ||| xperm)) : Loaded M' n := by
  have hmono : npages sz ≤ npages n := by
    rw [npages_eq h.size, npages_eq hn]
    omega
  refine ⟨hn, fun q hq => ?_, fun q h₁ h₂ => ?_⟩
  · by_cases hold : q < npages sz
    · rw [hext.others q (by omega)]
      exact h.below q hold
    · obtain ⟨b, hb⟩ := hext.added q (by omega) hq
      exact ⟨_, hb, user_flag xperm⟩
  · rw [hext.others q (by omega)]
    exact h.above q (by omega) h₂

theorem Extended.high (h : Extended M M' p (npages sz) perm) (hsz : sz ≤ TRAPFRAME) (hq : USER ≤ q) :
    M' q = M q := by
  have := npages_le hsz
  exact h.others q (by omega)

theorem Loaded.room (h : Loaded M sz) (hs : Space k m root M hand) :
    npages sz + m.freelist.length ≤ FRAMES := by
  refine hs.length_le (npages_le h.size) fun q hq => ?_
  obtain ⟨x, hx, -⟩ := h.below q hq
  rw [hx]
  exact Option.some_ne_none x

theorem Loaded.mapped (h : Loaded M sz) (hva : va < sz) : Mapped M va PTE_U := by
  have hq : va / PGSIZE < npages sz := by
    rw [lt_npages h.size]
    have hle := Nat.div_mul_le_self va PGSIZE
    omega
  obtain ⟨x, hx, hu⟩ := h.below _ hq
  exact ⟨x, hx, hu, hu⟩

theorem frames_le_user : FRAMES ≤ USER := by decide

/-- The space while the segments are loaded, whatever the headers say. -/
theorem Space.loadLoop (phnum off : Nat) (h : Space k m root M hand) (hl : Loaded M sz) :
    ∃ m' sz' done M', loadLoop k root file phnum off m sz = .ok (m', sz', done) ∧
      Space k m' root M' hand ∧ Moved m m' (hand ++ share m root M) (hand ++ share m' root M') ∧
      Loaded M' sz' ∧ ∀ q, USER ≤ q → M' q = M q := by
  induction phnum generalizing m M sz off with
  | zero => exact ⟨m, sz, true, M, rfl, h, .refl m _, hl, fun _ _ => rfl⟩
  | succ phnum ih =>
    have hstop : ∃ m' sz' done M', (Except.ok (m, sz, false) : Except Panic (Mem × Nat × Bool)) =
        .ok (m', sz', done) ∧ Space k m' root M' hand ∧
        Moved m m' (hand ++ share m root M) (hand ++ share m' root M') ∧ Loaded M' sz' ∧
        ∀ q, USER ≤ q → M' q = M q := ⟨m, sz, false, M, rfl, h, .refl m _, hl, fun _ _ => rfl⟩
    rw [spaces.loadLoop]
    generalize buffer (readi file off 56) = ph
    by_cases hshort : (readi file off 56).length ≠ 56
    · rw [if_pos hshort, return_eq]
      exact hstop
    rw [if_neg hshort]
    simp only []
    by_cases htype : get32 ph 0 ≠ ELF_PROG_LOAD
    · rw [if_pos htype]
      exact ih (off + 56) h hl
    rw [if_neg htype]
    have hvaddr := get64_lt ph 16
    have hmemsz := get64_lt ph 40
    generalize get64 ph 16 = vaddr at *
    generalize get64 ph 32 = filesz
    generalize get64 ph 40 = memsz at *
    by_cases hsmall : memsz < filesz
    · rw [if_pos hsmall, return_eq]
      exact hstop
    rw [if_neg hsmall]
    by_cases hwrap : uint64 ((vaddr : Int) + memsz) < vaddr
    · rw [if_pos hwrap, return_eq]
      exact hstop
    rw [if_neg hwrap]
    by_cases halign : vaddr % PGSIZE ≠ 0
    · rw [if_pos halign, return_eq]
      exact hstop
    rw [if_neg halign]
    have hroom := hl.room h
    have huser := frames_le_user
    obtain ⟨m₁, sz₁, heq₁, hgrow⟩ := h.uvmalloc hl.size
      (show uint64 ((vaddr : Int) + memsz) ≤ TRAPFRAME ∨ npages sz + m.freelist.length ≤ USER from
        Or.inr (by omega)) hl.above (flags2perm_lt (get32 ph 4))
    rw [heq₁, ok_bind]
    simp only []
    rcases hgrow with ⟨hsz₁, hle, M₁, h₁, hmoved₁, hext, -⟩ | ⟨rfl, h₁, hmoved₁, -⟩
    · have hbig : sz ≤ sz₁ := by
        rw [hsz₁]
        exact Nat.le_max_left ..
      have hl₁ := hl.extend hbig hle hext
      have hhigh : ∀ q, USER ≤ q → M₁ q = M q := fun q hq => hext.high hle hq
      by_cases hzero : sz₁ = 0
      · obtain rfl : sz = sz₁ := by omega
        rw [if_pos hzero]
        exact ⟨m₁, _, false, M₁, rfl, h₁, hmoved₁, hl₁, hhigh⟩
      · have hend : uint64 ((vaddr : Int) + memsz) = vaddr + memsz := by
          unfold uint64 at *
          omega
        have hfile : filesz % 4294967296 ≤ memsz := by
          have := Nat.mod_le filesz 4294967296
          omega
        have hbelow : vaddr + memsz ≤ sz₁ := by
          rw [hsz₁, hend]
          exact Nat.le_max_right ..
        have hframes : filesz % 4294967296 ≤ FRAMES * PGSIZE := by
          have hroom₁ := hl₁.room h₁
          have hpages : ¬ npages sz₁ * PGSIZE < sz₁ := by
            rw [← lt_npages hle]
            exact Nat.lt_irrefl _
          have hmul : npages sz₁ * PGSIZE ≤ FRAMES * PGSIZE := Nat.mul_le_mul_right PGSIZE (by omega)
          omega
        have hturns : filesz % 4294967296 ≤
            0 + (filesz % 4294967296 + PGSIZE - 1) / PGSIZE * PGSIZE := by
          unfold PGSIZE
          omega
        obtain ⟨m₂, done, heq₂, h₂, hmoved₂⟩ := h₁.loadsegLoop file (get64 ph 8 % 4294967296)
          (show ∀ v, vaddr ≤ v → v < vaddr + filesz % 4294967296 → Mapped M₁ v PTE_U from
            fun v _ hv => hl₁.mapped (by omega)) (by omega) hframes hturns
        unfold spaces.loadseg
        rw [if_neg hzero, heq₂, ok_bind]
        simp only []
        cases done with
        | false => exact ⟨m₂, sz₁, false, M₁, rfl, h₂, hmoved₁.trans hmoved₂, hl₁, hhigh⟩
        | true =>
          obtain ⟨m', sz', done, M', heq, h', hmoved', hl', hhigh'⟩ := ih (off + 56) h₂ hl₁
          rw [if_pos rfl]
          refine ⟨m', sz', done, M', heq, h', (hmoved₁.trans hmoved₂).trans hmoved', hl', fun q hq => ?_⟩
          rw [hhigh' q hq, hhigh q hq]
    · rw [if_pos rfl]
      exact ⟨m₁, sz, false, M, rfl, h₁, hmoved₁, hl, fun _ _ => rfl⟩

/-! ## The new space -/

theorem Loaded.round (h : Loaded M sz) : Loaded M (PGROUNDUP sz) ∧ PGROUNDUP sz = npages sz * PGSIZE := by
  have hmul : npages sz * PGSIZE ≤ TRAPFRAME := by
    rw [trapframe_eq]
    exact Nat.mul_le_mul_right PGSIZE (npages_le h.size)
  have hround : PGROUNDUP sz = npages sz * PGSIZE := by
    rw [npages_eq h.size, PGROUNDUP_eq h.size]
    rfl
  have hpages : npages (PGROUNDUP sz) = npages sz := by
    rw [hround, npages_page (npages_le h.size)]
  refine ⟨⟨?_, ?_, ?_⟩, hround⟩
  · rw [hround]
    exact hmul
  · rw [hpages]
    exact h.below
  · rw [hpages]
    exact h.above

/-- What is built is a space of the size that it has got to. -/
theorem Space.build (pr : Proc) (file : List UInt8) {argv : List (List UInt8)} (h : Space k m root M hand)
    (hl : Loaded M 0) (hargv : ∀ arg ∈ argv, arg.length < PGSIZE) :
    ∃ m' sz' sp M', build k m pr root file argv = .ok (m', sz', sp) ∧ Space k m' root M' hand ∧
      Moved m m' (hand ++ share m root M) (hand ++ share m' root M') ∧ sz' ≤ TRAPFRAME ∧
      (∀ q, npages sz' ≤ q → q < USER → M' q = none) ∧ ∀ q, USER ≤ q → M' q = M q := by
  obtain ⟨m₁, sz₁, done, M₁, heq₁, h₁, hmoved₁, hl₁, hhigh₁⟩ := h.loadLoop
    (get16 (buffer (readi file 0 64)) 56) (get64 (buffer (readi file 0 64)) 32 % 4294967296) hl
  unfold spaces.build
  simp only []
  rw [heq₁, ok_bind]
  simp only []
  cases done with
  | false => exact ⟨m₁, sz₁, none, M₁, rfl, h₁, hmoved₁, hl₁.size, hl₁.above, hhigh₁⟩
  | true =>
    obtain ⟨hl₁, hround⟩ := hl₁.round
    have hroom := hl₁.room h₁
    have huser : FRAMES + 3 ≤ USER := by decide
    have htrap : TRAPFRAME < 18446744073709551616 - 3 * PGSIZE := by decide
    have hsize := hl₁.size
    generalize PGROUNDUP sz₁ = sz at *
    generalize npages sz₁ = q₀ at *
    have hnewsz : uint64 ((sz : Int) + (USERSTACK + 1) * PGSIZE) = sz + 3 * PGSIZE := by
      have hthree : (USERSTACK + 1) * PGSIZE = 3 * PGSIZE := rfl
      exact uint64_add (y := 3 * PGSIZE) (by omega)
    obtain ⟨m₂, r, heq₂, hgrow⟩ := h₁.uvmalloc hsize
      (show sz + 3 * PGSIZE ≤ TRAPFRAME ∨ npages sz + m₁.freelist.length ≤ USER from Or.inr (by omega))
      hl₁.above (show PTE_W < 1024 by decide)
    rw [if_pos rfl, hnewsz, heq₂, ok_bind]
    simp only []
    rcases hgrow with ⟨hr, hle, M₂, h₂, hmoved₂, hext, -⟩ | ⟨rfl, h₂, hmoved₂, -⟩
    · obtain rfl : r = sz + 3 * PGSIZE := by omega
      have hpages : npages sz = q₀ := by
        rw [hround]
        exact npages_page (by rw [hround, trapframe_eq] at hsize; exact Nat.le_of_mul_le_mul_right hsize (by decide))
      have hpages₂ : npages (sz + 3 * PGSIZE) = q₀ + 3 := by
        have heq : sz + 3 * PGSIZE = (q₀ + 3) * PGSIZE := by
          rw [hround, Nat.add_mul]
        rw [heq]
        rw [heq, trapframe_eq] at hle
        exact npages_page (Nat.le_of_mul_le_mul_right hle (by decide))
      have hend := npages_le hle
      rw [hpages, hpages₂] at hext
      rw [hpages₂] at hend
      obtain ⟨b, hb⟩ := hext.added q₀ (Nat.le_refl q₀) (by omega)
      have hbase : sz + 3 * PGSIZE - (USERSTACK + 1) * PGSIZE = q₀ * PGSIZE := by
        have hthree : (USERSTACK + 1) * PGSIZE = 3 * PGSIZE := rfl
        omega
      obtain ⟨m₃, heq₃, h₃, hmoved₃⟩ := h₂.uvmclear (show q₀ < USER by omega) hb
      have hstack : Stack (M₂.map q₀ 1 b ((PTE_R ||| PTE_U ||| PTE_W) -
          ((PTE_R ||| PTE_U ||| PTE_W) &&& PTE_U)))
          (sz + 3 * PGSIZE - USERSTACK * PGSIZE) (sz + 3 * PGSIZE) := by
        intro v hlow hhigh
        have hq : q₀ < v / PGSIZE ∧ v / PGSIZE < q₀ + 3 := by
          have htwo : USERSTACK = 2 := rfl
          have hdiv := Nat.div_add_mod v PGSIZE
          have hmod : v % PGSIZE < PGSIZE := Nat.mod_lt _ (by decide)
          unfold PGSIZE at *
          omega
        obtain ⟨c, hc⟩ := hext.added (v / PGSIZE) (by omega) hq.2
        have hu : (PTE_R ||| PTE_U ||| PTE_W) &&& PTE_U ≠ 0 := by decide
        have hw : (PTE_R ||| PTE_U ||| PTE_W) &&& PTE_W ≠ 0 := by decide
        refine ⟨⟨c, PTE_R ||| PTE_U ||| PTE_W⟩, ?_, hu, hw⟩
        rw [map_of_ne (by omega), hc]
      obtain ⟨m₄, sp, heq₄, h₄, hmoved₄⟩ := h₃.pushArgs pr hstack (by
        have hthree : (USERSTACK + 1) * PGSIZE = 3 * PGSIZE := rfl
        omega) hle hargv
      have hne : sz + 3 * PGSIZE ≠ 0 := by
        unfold PGSIZE
        omega
      rw [if_neg hne, hbase, heq₃, ok_bind, heq₄, ok_bind]
      refine ⟨m₄, _, sp, _, rfl, h₄, ((hmoved₁.trans hmoved₂).trans hmoved₃).trans hmoved₄, hle,
        fun q hq₁ hq₂ => ?_, fun q hq => ?_⟩
      · rw [hpages₂] at hq₁
        rw [map_of_ne (by omega), hext.others q (by omega)]
        exact hl₁.above q (by omega) hq₂
      · rw [map_of_ne (by omega), hext.others q (by omega)]
        exact hhigh₁ q hq
    · rw [if_pos rfl]
      exact ⟨m₂, sz, none, M₁, rfl, h₂, hmoved₁.trans hmoved₂, hsize, hl₁.above, hhigh₁⟩

end xv6.spaces
