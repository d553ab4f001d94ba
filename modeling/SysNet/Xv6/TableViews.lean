-- The two models of a process's memory (kernel/vm.c, kernel/proc.c): the
-- page table as it lies in physical memory, seen through its map, is a table
-- of pages, and what a call does to the one it does to the other.
import SysNet.Xv6.ForkExec
import SysNet.Xv6.UserMemory

open bytes radix shares

namespace xv6.spaces

open vm (PGSIZE MAXVA TRAMPOLINE TRAPFRAME uint64 PGROUNDUP PGROUNDDOWN)
open pagetable

variable {k : Image} {m m' : Mem} {M M' : Map} {root b perm va p q n sz oldsz newsz : Nat} {x : Mapping}

/-! ## Views -/

/-- The page that an entry gives: its flags, and its bytes if the user may use it. -/
def pageOf (m : Mem) (x : Mapping) : vm.Page where
  read := x.perm &&& PTE_R ≠ 0
  write := x.perm &&& PTE_W ≠ 0
  exec := x.perm &&& PTE_X ≠ 0
  user := x.perm &&& PTE_U ≠ 0
  data := if x.perm &&& PTE_U = 0 then fun _ => 0 else m.page x.pa

def view (m : Mem) (M : Map) : vm.PageTable := fun q => (M q).map (pageOf m)

def spaceOf (m : Mem) (p : Proc) (M : Map) : vm.Space := { sz := p.sz, pagetable := view m M }

theorem view_none (h : M q = none) : view m M q = none := by
  unfold view
  rw [h, Option.map_none]

theorem view_some (h : M q = some x) : view m M q = some (pageOf m x) := by
  unfold view
  rw [h, Option.map_some]

theorem pageOf_congr (h : m'.page x.pa = m.page x.pa) : pageOf m' x = pageOf m x := by
  unfold pageOf
  rw [h]

/-- The bytes of a page of the kernel are not seen. -/
theorem pageOf_kernel (h : x.perm &&& PTE_U = 0) : pageOf m' x = pageOf m x := by
  unfold pageOf
  rw [if_pos h, if_pos h]

/-- The entry of a copy is the old one with its valid bit. -/
theorem pageOf_copy (h : m.page b = m.page x.pa) : pageOf m ⟨b, x.perm ||| PTE_V⟩ = pageOf m x := by
  have hflag : ∀ f, PTE_V &&& f = 0 → (x.perm ||| PTE_V) &&& f = x.perm &&& f := by
    intro f hf
    rw [Nat.and_or_distrib_right, hf, Nat.or_zero]
  unfold pageOf
  simp only [hflag PTE_R rfl, hflag PTE_W rfl, hflag PTE_X rfl, hflag PTE_U rfl, h]

theorem pageOf_zero (h : m.page b = fun _ => 0) : pageOf m ⟨b, PTE_R ||| PTE_U ||| PTE_W⟩ = .zero := by
  simp [pageOf, vm.Page.zero, h, PTE_R, PTE_W, PTE_X, PTE_U]

/-- Where the map is as it was, the page is. -/
theorem view_kept (hguard : Guarded M) (hcont : Contents m m' M M') (h : M' q = M q) :
    view m' M' q = view m M q := by
  cases hM : M q with
  | none => rw [view_none hM, view_none (h.trans hM)]
  | some x =>
    rw [view_some hM, view_some (h.trans hM)]
    by_cases hq : q < USER
    · rcases hcont q hq x (h.trans hM) with ⟨-, hsame⟩ | ⟨hnone, -⟩
      · rw [pageOf_congr hsame]
      · rw [hM] at hnone
        cases hnone
    · rw [pageOf_kernel (hguard q x (Nat.le_of_not_lt hq) hM)]

/-- A page that was added is zero. -/
theorem view_added (hcont : Contents m m' M M') (hq : q < USER) (hM : M q = none)
    (hM' : M' q = some ⟨b, PTE_R ||| PTE_U ||| PTE_W⟩) : view m' M' q = some .zero := by
  rw [view_some hM']
  rcases hcont q hq _ hM' with ⟨hsome, -⟩ | ⟨-, hzero⟩
  · rw [hM] at hsome
    cases hsome
  · rw [pageOf_zero hzero]

theorem view_kernelMap (m : Mem) (tf : Nat) (hq : USER ≤ q) : view m (kernelMap k tf) q = vm.proc_pagetable q := by
  unfold kernelMap vm.proc_pagetable
  have htramp : TRAMPOLINE / PGSIZE = USER + 1 := rfl
  have htrap : TRAPFRAME / PGSIZE = USER := rfl
  rw [htramp, htrap]
  by_cases h₀ : q = USER
  · subst h₀
    rw [if_neg (by omega), if_pos rfl, view_some (map_at ..)]
    simp [pageOf, vm.Page.trapframe, PTE_R, PTE_W, PTE_X, PTE_U]
  · by_cases h₁ : q = USER + 1
    · subst h₁
      have hat : ∀ M : Map, (M.map USER 1 tf (PTE_R ||| PTE_W)) (USER + 1) = M (USER + 1) :=
        fun _ => map_of_ne (by omega)
      rw [if_pos rfl, view_some ((hat _).trans (map_at ..))]
      simp [pageOf, vm.Page.trampoline, PTE_R, PTE_W, PTE_X, PTE_U]
    · rw [if_neg h₁, if_neg h₀, view_none]
      rw [map_of_ne h₀, map_of_ne h₁]

/-! ## Looking up -/

/-- The address that `walkaddr` finds is that of the page. -/
theorem view_walkaddr (h : Represents m root M) (va : Nat) :
    ∃ pa, walkaddr m root va = .ok pa ∧
      (pa = 0 ∧ vm.walkaddr (view m M) va = none ∨
        pa ≠ 0 ∧ ∃ x, M (va / PGSIZE) = some x ∧ x.pa = pa ∧ x.perm &&& PTE_U ≠ 0 ∧
          vm.walkaddr (view m M) va = some (pageOf m x)) := by
  refine ⟨_, h.walkaddr va, ?_⟩
  unfold vm.walkaddr Map.lookup
  cases hM : M (va / PGSIZE) with
  | none =>
    rw [view_none hM]
    exact Or.inl ⟨rfl, ite_self none⟩
  | some x =>
    obtain ⟨-, hpos, -, -⟩ := h.good _ x hM
    have hva : ¬ MAXVA ≤ va := by
      intro hbig
      have hbound : MAXVA ≤ va / PGSIZE * PGSIZE := by
        unfold MAXVA PGSIZE at *
        omega
      rw [h.bound _ hbound] at hM
      cases hM
    rw [view_some hM, if_neg hva, Option.elim_some]
    by_cases hu : x.perm &&& PTE_U = 0
    · rw [if_pos hu]
      exact Or.inl ⟨rfl, by simp [pageOf, hu]⟩
    · rw [if_neg hu]
      exact Or.inr ⟨Nat.ne_of_gt hpos, x, rfl, rfl, hu, by simp [pageOf, hu]⟩

theorem view_ismapped (h : Represents m root M) (va : Nat) :
    (ismapped m root va).toOption = (vm.ismapped (view m M) va).toOption := by
  unfold vm.ismapped vm.walk
  by_cases hva : MAXVA ≤ va
  · unfold pagetable.ismapped walk
    rw [if_pos hva, if_pos hva]
    rfl
  · rw [h.ismapped (Nat.lt_of_not_le hva), if_neg hva]
    unfold view
    simp only [Option.isSome_map]
    rfl

/-! ## Growing and shrinking -/

theorem pages_eq (h : sz ≤ TRAPFRAME) : vm.pages sz = npages sz := by
  rw [npages_eq h]
  rfl

/-- What is known of a process by its page table is what is known of it by its table of pages. -/
theorem Layout.wellFormed {pr : Proc} (h : Layout k m pr M) : vm.WellFormed (spaceOf m pr M) where
  size := h.size
  below v hv := by
    change (view m M v).isSome = true at hv
    by_cases huser : v < USER
    · left
      change v < vm.pages pr.sz
      rw [pages_eq h.size]
      by_contra hge
      rw [view_none (h.above v (Nat.le_of_not_lt hge) huser)] at hv
      cases hv
    · right
      have hk := h.kernel v (Nat.le_of_not_lt huser)
      unfold view at hv
      rw [hk] at hv
      have hsome : (vm.proc_pagetable v).isSome = true := by
        rw [← view_kernelMap m pr.trapframe (Nat.le_of_not_lt huser)]
        exact hv
      exact vm.proc_pagetable_some hsome
  trapframe := by
    have hat : view m M USER = vm.proc_pagetable USER := by
      rw [← view_kernelMap (k := k) m pr.trapframe (Nat.le_refl USER)]
      unfold view
      rw [h.kernel USER (Nat.le_refl USER)]
    change (view m M USER).isSome = true
    rw [hat]
    exact vm.proc_pagetable_trapframe
  trampoline := by
    have hat : view m M (USER + 1) = vm.proc_pagetable (USER + 1) := by
      rw [← view_kernelMap (k := k) m pr.trapframe (Nat.le_succ USER)]
      unfold view
      rw [h.kernel (USER + 1) (Nat.le_succ USER)]
    change (view m M (USER + 1)).isSome = true
    rw [hat]
    exact vm.proc_pagetable_trampoline

theorem vm_uvmdealloc (pt : vm.PageTable) (hold : oldsz ≤ TRAPFRAME) (hle : newsz ≤ oldsz) :
    vm.uvmdealloc pt oldsz newsz =
      .ok (vm.overlay pt (vm.pages newsz) (vm.pages oldsz - vm.pages newsz) none, newsz) := by
  have hmax := Nat.le_trans hold vm.trapframe_le
  have hpages := vm.pages_le hold
  have hlt := vm.trapframe_lt
  have hmono := vm.pages_mono hle
  unfold vm.uvmdealloc
  by_cases hsame : oldsz ≤ newsz
  · obtain rfl := Nat.le_antisymm hsame hle
    rw [if_pos hsame, Nat.sub_self, vm.overlay_zero]
  · rw [if_neg hsame, vm.roundup_eq hmax, vm.roundup_eq (Nat.le_trans hle hmax)]
    by_cases hround : vm.pages newsz * PGSIZE < vm.pages oldsz * PGSIZE
    · rw [if_pos hround, ← Nat.sub_mul, Nat.mul_div_cancel _ (by decide), vm.uvmunmap_eq (by omega)]
      rfl
    · have hzero : vm.pages oldsz - vm.pages newsz = 0 := by
        unfold PGSIZE at hround
        omega
      rw [if_neg hround, hzero, vm.overlay_zero]

/-- The view of a table from which a range was taken. -/
theorem view_unmap (hguard : Guarded M) (hcont : Contents m m' M (M.unmap p n)) :
    view m' (M.unmap p n) = vm.overlay (view m M) p n none := by
  funext q
  unfold vm.overlay
  by_cases hin : p ≤ q ∧ q < p + n
  · rw [if_pos hin, view_none (if_pos hin)]
  · rw [if_neg hin, view_kept hguard hcont (if_neg hin)]

/-- The view of a table to which a range was added. -/
theorem view_extended (hguard : Guarded M) (hcont : Contents m m' M M')
    (hext : Extended M M' p n (PTE_R ||| PTE_U ||| PTE_W)) (hend : n ≤ USER)
    (hclear : ∀ q, p ≤ q → q < USER → M q = none) :
    view m' M' = vm.overlay (view m M) p (n - p) (some .zero) := by
  funext q
  unfold vm.overlay
  by_cases hin : p ≤ q ∧ q < p + (n - p)
  · have hq : q < USER := by omega
    obtain ⟨b, hb⟩ := hext.added q hin.1 (by omega)
    rw [if_pos hin, view_added hcont hq (hclear q hin.1 hq) hb]
  · rw [if_neg hin, view_kept hguard hcont (hext.others q (by omega))]

/-! ## The calls of a process -/

variable {s : State} {Ms : Nat → Map} {others : List Nat} {i : Nat}

/-- A call that leaves the process `i` with the memory of the space. -/
def Leaves (s' : State) (i : Nat) (sp : vm.Space) : Prop :=
  ∃ N, Represents s'.mem (s'.proc i).pagetable N ∧ sp = spaceOf s'.mem (s'.proc i) N

theorem leaves_resized {N : Map} (h : Represents m' (s.proc i).pagetable N) (sz : Nat) :
    Leaves ({ s with mem := m' }.set i { s.proc i with sz }) i { sz, pagetable := view m' N } := by
  refine ⟨N, ?_, ?_⟩
  · rw [State.set_proc]
    exact h
  · rw [State.set_proc]
    rfl

/-- The memory ends only where a page is asked for. -/
theorem uvmalloc_asks {xperm r : Nat} (hold : oldsz ≤ TRAPFRAME) (hlt : oldsz < newsz)
    (h : uvmalloc k m root oldsz newsz xperm = .ok (m', r)) (hr : r = 0) :
    vm.pages newsz - vm.pages oldsz ≠ 0 := by
  intro hzero
  have hturns := vm.turns_eq (u := newsz) (Nat.le_trans hold vm.trapframe_le)
  have hend : ¬ PGROUNDUP oldsz < newsz := by
    rw [hzero] at hturns
    unfold PGSIZE at hturns
    omega
  unfold spaces.uvmalloc at h
  rw [if_neg (by omega), hturns, hzero, spaces.uvmallocLoop, if_neg hend] at h
  cases h
  omega

/-- `uvmalloc` for a process, with as much memory as there is. -/
theorem Layout.uvmalloc {pr : Proc} {u : Nat} {hand : List Nat} (h : Layout k m pr M)
    (hspace : Space k m pr.pagetable M hand) (hlt : pr.sz < u) (hu : u ≤ TRAPFRAME) :
    ∃ m' r M' mem, spaces.uvmalloc k m pr.pagetable pr.sz u PTE_W = .ok (m', r) ∧
      Represents m' pr.pagetable M' ∧
      vm.uvmalloc (view m M) pr.sz u .zero mem = .ok (view m' M', r) := by
  have hwf := h.wellFormed
  have hle := Nat.le_of_lt hlt
  obtain ⟨m', r, heq, hgrow⟩ := hspace.uvmalloc h.size (Or.inl hu) h.above (show PTE_W < 1024 by decide)
  rcases hgrow with ⟨hr, -, M', h', -, hext, hcont⟩ | ⟨hr, h', -, hcont⟩
  · obtain rfl : r = u := by omega
    have hview := view_extended h.guarded hcont hext (npages_le hu) h.above
    rw [← pages_eq h.size, ← pages_eq hu] at hview
    refine ⟨m', r, M', none, heq, h'.represents, ?_⟩
    rw [hview]
    exact (hwf.grows hle hu).1 trivial
  · have hview : view m' M = view m M := funext fun _ => view_kept h.guarded hcont rfl
    have hasks := uvmalloc_asks h.size hlt heq hr
    refine ⟨m', r, M, some 0, heq, h'.represents, ?_⟩
    rw [hview, hr]
    exact (hwf.grows hle hu).2 fun hgives => hasks (Nat.eq_zero_of_le_zero hgives)

theorem Layout.uvmdealloc {pr : Proc} {u : Nat} {hand : List Nat} (h : Layout k m pr M)
    (hspace : Space k m pr.pagetable M hand) :
    ∃ m' r M', spaces.uvmdealloc k m pr.pagetable pr.sz u = .ok (m', r) ∧
      Represents m' pr.pagetable M' ∧ vm.uvmdealloc (view m M) pr.sz u = .ok (view m' M', r) := by
  by_cases hle : u ≤ pr.sz
  · obtain ⟨m', heq, h', -, hcont⟩ := hspace.uvmdealloc h.size hle
    refine ⟨m', u, _, heq, h'.represents, ?_⟩
    rw [vm_uvmdealloc _ h.size hle, pages_eq h.size, pages_eq (Nat.le_trans hle h.size),
      view_unmap h.guarded hcont]
  · have hge : pr.sz ≤ u := by omega
    refine ⟨m, pr.sz, M, ?_, hspace.represents, if_pos hge⟩
    unfold spaces.uvmdealloc
    rw [if_pos hge]
    rfl

/-- Growing and shrinking do to the page table of a process what they do to its table of pages. -/
theorem System.growproc_view {n : Int} (h : System k s Ms others) (hi : i < NPROC)
    (hused : (s.proc i).used = true) (hn : (s.proc i).sz + n ≤ TRAPFRAME) :
    ∃ s' done sp mem, spaces.growproc k s i n = .ok (s', done) ∧ Leaves s' i sp ∧
      vm.growproc (spaceOf s.mem (s.proc i) (Ms i)) n mem = .ok (sp, done) := by
  have hlayout := h.layout i hi hused
  have hspace := h.space hi hused
  have hsize := hlayout.size
  have htrap : TRAPFRAME < 18446744073709551616 := by decide
  unfold spaces.growproc vm.growproc
  simp only [spaceOf]
  by_cases hpos : 0 < n
  · have hu : (uint64 ((s.proc i).sz + n) : Int) = (s.proc i).sz + n :=
      vm.uint64_of_nonneg (by omega) (by omega)
    generalize uint64 ((s.proc i).sz + n) = u at hu
    obtain ⟨m', r, N, mem, heq, hrep, hvm⟩ := hlayout.uvmalloc (u := u) hspace (by omega) (by omega)
    by_cases hr : r = 0
    · refine ⟨{ s with mem := m' }, false, _, mem, ?_, ⟨N, hrep, rfl⟩, ?_⟩
      · rw [if_pos hpos, heq, ok_bind]
        simp only []
        rw [if_pos hr]
        rfl
      · rw [if_pos hpos, hvm]
        simp only []
        rw [if_pos hr]
        rfl
    · refine ⟨{ s with mem := m' }.set i { s.proc i with sz := r }, true, { sz := r, pagetable := view m' N },
        mem, ?_, leaves_resized hrep r, ?_⟩
      · rw [if_pos hpos, heq, ok_bind]
        simp only []
        rw [if_neg hr]
        rfl
      · rw [if_pos hpos, hvm]
        simp only []
        rw [if_neg hr]
  · by_cases hneg : n < 0
    · obtain ⟨m', r, N, heq, hrep, hvm⟩ := hlayout.uvmdealloc (u := uint64 ((s.proc i).sz + n)) hspace
      refine ⟨{ s with mem := m' }.set i { s.proc i with sz := r }, true, { sz := r, pagetable := view m' N },
        none, ?_, leaves_resized hrep r, ?_⟩
      · rw [if_neg hpos, if_pos hneg, heq, ok_bind]
        rfl
      · rw [if_neg hpos, if_pos hneg, hvm]
    · refine ⟨s, true, _, none, ?_, ⟨Ms i, hlayout.represents, rfl⟩, ?_⟩
      · rw [if_neg hpos, if_neg hneg]
        rfl
      · rw [if_neg hpos, if_neg hneg]
        rfl

/-- `sbrk`, eager and lazy. -/
theorem System.sys_sbrk_view {n : Int} (h : System k s Ms others) (hi : i < NPROC)
    (hused : (s.proc i).used = true) (hn : (s.proc i).sz + n ≤ TRAPFRAME) (eager : Bool) :
    ∃ s' r sp mem, spaces.sys_sbrk k s i n eager = .ok (s', r) ∧ Leaves s' i sp ∧
      vm.sys_sbrk (spaceOf s.mem (s.proc i) (Ms i)) n (if eager then vm.SBRK_EAGER else vm.SBRK_LAZY) mem =
        .ok (sp, r) := by
  have hlayout := h.layout i hi hused
  have hkind : (if eager then vm.SBRK_EAGER else vm.SBRK_LAZY) = vm.SBRK_EAGER ↔ eager = true := by
    cases eager <;> decide
  have hsz : (spaceOf s.mem (s.proc i) (Ms i)).sz = (s.proc i).sz := rfl
  unfold spaces.sys_sbrk vm.sys_sbrk
  simp only [hkind, hsz]
  by_cases heager : eager = true ∨ n < 0
  · obtain ⟨s', done, sp, mem, heq, hleaves, hvm⟩ := h.growproc_view hi hused hn
    refine ⟨s', if done then some (s.proc i).sz else none, sp, mem, ?_, hleaves, ?_⟩
    · rw [if_pos heager, heq, ok_bind]
      cases done <;> rfl
    · rw [if_pos heager, hvm]
  · by_cases hwrap : uint64 ((s.proc i).sz + n) < (s.proc i).sz
    · refine ⟨s, none, _, none, ?_, ⟨Ms i, hlayout.represents, rfl⟩, ?_⟩
      · rw [if_neg heager, if_pos hwrap]
        rfl
      · rw [if_neg heager, if_pos hwrap]
    · refine ⟨s.set i { s.proc i with sz := uint64 ((s.proc i).sz + n) }, some (s.proc i).sz,
        { sz := uint64 ((s.proc i).sz + n), pagetable := view s.mem (Ms i) }, none, ?_,
        leaves_resized hlayout.represents _, ?_⟩
      · rw [if_neg heager, if_neg hwrap]
        rfl
      · rw [if_neg heager, if_neg hwrap]
        rfl

/-! ## Page faults and copies -/

variable {pr : Proc} {hand : List Nat}

theorem vmfault_full {sp : vm.Space} (h : vm.WellFormed sp) (va : Nat) : vm.vmfault sp va (some 0) = .ok none := by
  have hsize := h.size
  unfold vm.vmfault
  by_cases hsz : sp.sz ≤ va
  · rw [if_pos hsz]
  · have hv : va / PGSIZE < MAXVA / PGSIZE := by
      simp only [TRAPFRAME, TRAMPOLINE, MAXVA, PGSIZE] at *
      omega
    unfold vm.ismapped PGROUNDDOWN
    rw [if_neg hsz, vm.walk_page hv]
    cases sp.pagetable (va / PGSIZE) with
    | some pg => rfl
    | none => rfl

theorem vmfault_enough {sp : vm.Space} {c c' : vm.Memory} (hsz : va < sp.sz) (hva : va < MAXVA)
    (hnone : sp.pagetable (va / PGSIZE) = none) (hc : vm.kalloc c = some c') :
    vm.vmfault sp va c = .ok (some (sp.put va .zero, c')) := by
  have hv : va / PGSIZE < MAXVA / PGSIZE := by
    simp only [MAXVA, PGSIZE] at *
    omega
  unfold vm.vmfault vm.ismapped PGROUNDDOWN
  rw [if_neg (Nat.not_le.mpr hsz), vm.walk_page hv, hnone]
  simp only [Option.isSome_none, hc]
  rw [vm.mappages_free hv hnone]
  rfl

/-- There may be a page more. -/
theorem exists_kalloc (c : vm.Memory) : ∃ c', vm.kalloc c' = some c := by
  cases c with
  | none => exact ⟨none, rfl⟩
  | some n => exact ⟨some (n + 1), rfl⟩

theorem Layout.faulted (h : Layout k m pr M) (hrep : Represents m' pr.pagetable M') (hf : Faulted M M' pr.sz) :
    Layout k m' pr M' := by
  have hpages := npages_le h.size
  refine ⟨hrep, h.size, fun q h₁ h₂ => ?_, fun q hq => ?_⟩
  · rw [hf.high h₁]
    exact h.above q h₁ h₂
  · rw [hf.high (Nat.le_trans hpages hq)]
    exact h.kernel q hq

/-- A page fault adds a zero page to both, or it leaves both as they are. -/
theorem Layout.vmfault (h : Layout k m pr M) (hspace : Space k m pr.pagetable M hand) (va : Nat) :
    ∃ m' pa M', spaces.vmfault k m pr pr.pagetable va = .ok (m', pa) ∧ Layout k m' pr M' ∧
      Space k m' pr.pagetable M' hand ∧
      (pa = 0 ∧ view m' M' = view m M ∧ vm.vmfault (spaceOf m pr M) va (some 0) = .ok none ∨
        pa ≠ 0 ∧ va / PGSIZE < USER ∧ M' (va / PGSIZE) = some ⟨pa, PTE_W ||| PTE_U ||| PTE_R⟩ ∧
          view m' M' (va / PGSIZE) = some .zero ∧ ∀ c c', vm.kalloc c = some c' →
            vm.vmfault (spaceOf m pr M) va c = .ok (some (spaceOf m' pr M', c'))) := by
  have hsize := h.size
  obtain ⟨m', pa, M', heq, h', -, hfault, hcont, hpa⟩ := hspace.vmfault rfl hsize va
  refine ⟨m', pa, M', heq, h.faulted h'.represents hfault, h', ?_⟩
  rcases hpa with ⟨hzero, rfl⟩ | ⟨hne, hlt, hM, rfl⟩
  · exact Or.inl ⟨hzero, funext fun _ => view_kept h.guarded hcont rfl, vmfault_full h.wellFormed va⟩
  · have hq : va / PGSIZE < USER := by
      unfold TRAPFRAME TRAMPOLINE MAXVA PGSIZE at hsize
      rw [USER_eq]
      unfold PGSIZE
      omega
    have hzero := view_added hcont hq hM (map_at M (va / PGSIZE) pa _)
    have hview : view m' (M.map (va / PGSIZE) 1 pa (PTE_W ||| PTE_U ||| PTE_R)) =
        Function.update (view m M) (va / PGSIZE) (some .zero) := by
      funext q
      by_cases hqv : q = va / PGSIZE
      · subst hqv
        rw [Function.update_self, hzero]
      · rw [Function.update_of_ne hqv, view_kept h.guarded hcont (map_of_ne hqv)]
    refine Or.inr ⟨hne, hq, map_at .., hzero, fun c c' hc => ?_⟩
    have hva : va < MAXVA := Nat.lt_of_lt_of_le hlt (Nat.le_trans hsize vm.trapframe_le)
    have hsz : va < (spaceOf m pr M).sz := hlt
    rw [vmfault_enough hsz hva (view_none hM) hc]
    simp only [spaceOf, vm.Space.put, hview]

/-- The page that a copy uses is found in both, or in neither. -/
theorem Layout.fetch (h : Layout k m pr M) (hspace : Space k m pr.pagetable M hand) (va : Nat) :
    ∃ m' pa M', spaces.fetch k m pr pr.pagetable va = .ok (m', pa) ∧ Layout k m' pr M' ∧
      Space k m' pr.pagetable M' hand ∧
      (pa = 0 ∧ view m' M' = view m M ∧ vm.fetch (spaceOf m pr M) va (some 0) = .ok none ∨
        pa ≠ 0 ∧ ∃ x, M' (va / PGSIZE) = some x ∧ x.pa = pa ∧ x.perm &&& PTE_U ≠ 0 ∧
          ∀ c, ∃ c₀, vm.fetch (spaceOf m pr M) va c₀ = .ok (some (spaceOf m' pr M', c, pageOf m' x))) := by
  obtain ⟨pa, hwalk, hpa⟩ := view_walkaddr h.represents va
  unfold spaces.fetch vm.fetch
  rw [hwalk, ok_bind]
  rcases hpa with ⟨rfl, hnone⟩ | ⟨hne, x, hx, hxpa, hu, hsome⟩
  · obtain ⟨m', pa, M', heq, h', hspace', hfault⟩ := h.vmfault hspace va
    rw [if_pos rfl]
    refine ⟨m', pa, M', heq, h', hspace', ?_⟩
    have hmiss : vm.walkaddr (spaceOf m pr M).pagetable va = none := hnone
    rw [hmiss]
    rcases hfault with ⟨hzero, hview, hvm⟩ | ⟨hne, -, hM', hzero, hvm⟩
    · refine Or.inl ⟨hzero, hview, ?_⟩
      simp only []
      rw [hvm]
    · have hu : (PTE_W ||| PTE_U ||| PTE_R) &&& PTE_U ≠ 0 := by decide
      refine Or.inr ⟨hne, _, hM', rfl, hu, fun c => ?_⟩
      obtain ⟨c₀, hc₀⟩ := exists_kalloc c
      have hpage : pageOf m' ⟨pa, PTE_W ||| PTE_U ||| PTE_R⟩ = .zero := by
        rw [view_some hM'] at hzero
        exact Option.some.inj hzero
      refine ⟨c₀, ?_⟩
      simp only []
      rw [hvm c₀ c hc₀, hpage]
  · rw [if_neg hne]
    refine ⟨m, pa, M, rfl, h, hspace, Or.inr ⟨hne, x, hx, hxpa, hu, fun c => ⟨c, ?_⟩⟩⟩
    have hfound : vm.walkaddr (spaceOf m pr M).pagetable va = some (pageOf m x) := hsome
    rw [hfound]

/-- Bytes in a page of the user are bytes in the page that is seen. -/
theorem view_write (h : Space k m root M hand) (hguard : Guarded M) (hq : q < USER) (hx : M q = some x)
    (hu : x.perm &&& PTE_U ≠ 0) (off : Nat) (bs : List UInt8) :
    view (write m x.pa off bs) M = Function.update (view m M) q (some ((pageOf m x).put off bs)) := by
  have hother : ∀ a, a ≠ x.pa → (write m x.pa off bs).page a = m.page a :=
    fun a ha => Function.update_of_ne ha ..
  have hbytes : (write m x.pa off bs).page x.pa =
      fill (m.page x.pa) off bs.length fun j => bs.getD j 0 := Function.update_self ..
  funext p
  by_cases hpq : p = q
  · subst hpq
    have hdata : (fill (m.page x.pa) off bs.length fun j => bs.getD j 0) =
        fun i => if off ≤ i then bs.getD (i - off) (m.page x.pa i) else m.page x.pa i := by
      funext i
      unfold fill
      by_cases hoff : off ≤ i
      · by_cases hend : i < off + bs.length
        · have hlt : i - off < bs.length := by omega
          have hbyte : ∀ c, bs.getD (i - off) c = bs[i - off] := fun c => List.getD_eq_getElem bs c hlt
          simp only [if_pos hoff, if_pos (And.intro hoff hend), hbyte]
        · rw [if_neg fun hin => hend hin.2, if_pos hoff, List.getD_eq_default _ _ (by omega)]
      · rw [if_neg fun hin => hoff hin.1, if_neg hoff]
    rw [Function.update_self, view_some hx]
    unfold pageOf vm.Page.put
    rw [hbytes, hdata, if_neg hu, if_neg hu]
  · rw [Function.update_of_ne hpq]
    cases hM : M p with
    | none => rw [view_none hM, view_none hM]
    | some y =>
      rw [view_some hM, view_some hM]
      by_cases hy : y.perm &&& PTE_U = 0
      · rw [pageOf_kernel hy]
      · have hp : p < USER := Nat.lt_of_not_le fun hp => hy (hguard p y hp hM)
        rw [pageOf_congr (hother y.pa fun heq => hpq (userPages_apart h.nodup_user hq hp hx hM heq))]

/-- `copyout` puts the same bytes into both, as far as it comes. -/
theorem Layout.copyoutLoop {bs : List UInt8} {turns : Nat} (h : Layout k m pr M)
    (hspace : Space k m pr.pagetable M hand) (hturns : bs.length ≤ turns) (va : Nat) :
    ∃ m' done M' c, spaces.copyoutLoop k pr pr.pagetable turns m va bs = .ok (m', done) ∧
      Layout k m' pr M' ∧ vm.copyoutLoop turns (spaceOf m pr M) c va bs = .ok (spaceOf m' pr M', done) := by
  induction turns generalizing m M va bs with
  | zero =>
    obtain rfl := List.eq_nil_of_length_eq_zero (Nat.eq_zero_of_le_zero hturns)
    exact ⟨m, true, M, none, rfl, h, rfl⟩
  | succ turns ih =>
    rw [spaces.copyoutLoop]
    by_cases hnil : bs = []
    · refine ⟨m, true, M, none, if_pos hnil, h, ?_⟩
      rw [vm.copyoutLoop, if_pos hnil]
    by_cases hbig : MAXVA ≤ PGROUNDDOWN va
    · refine ⟨m, false, M, none, ?_, h, ?_⟩
      · rw [if_neg hnil, if_pos hbig]
        rfl
      · rw [vm.copyoutLoop, if_neg hnil]
        simp only []
        rw [if_pos hbig]
    obtain ⟨m₁, pa, M₁, heq₁, h₁, hspace₁, hfetch⟩ := h.fetch hspace (PGROUNDDOWN va)
    rw [if_neg hnil, if_neg hbig, heq₁, ok_bind]
    simp only []
    rcases hfetch with ⟨hzero, hview, hvm⟩ | ⟨hne, x, hx, rfl, hu, hvm⟩
    · refine ⟨m₁, false, M₁, some 0, if_pos hzero, h₁, ?_⟩
      rw [vm.copyoutLoop, if_neg hnil]
      simp only []
      rw [if_neg hbig, hvm]
      simp only [spaceOf, hview]
    have hva : PGROUNDDOWN va < MAXVA := Nat.not_le.mp hbig
    obtain ⟨-, -, -, hperm⟩ := h₁.represents.good _ x hx
    obtain ⟨t, -, hpte, hwalk⟩ := walk_mapped h₁.represents hva hx
    have hflag : m₁.pte t (PX 0 (PGROUNDDOWN va)) &&& PTE_W = x.perm &&& PTE_W := by
      rw [hpte, leaf_and hperm (by decide) (by decide)]
    rw [if_neg hne, hwalk, ok_bind]
    simp only [hflag]
    by_cases hwrite : x.perm &&& PTE_W = 0
    · obtain ⟨c₀, hc₀⟩ := hvm none
      refine ⟨m₁, false, M₁, c₀, if_pos hwrite, h₁, ?_⟩
      have hpage : (pageOf m₁ x).write = false := by simp [pageOf, hwrite]
      rw [vm.copyoutLoop, if_neg hnil]
      simp only []
      rw [if_neg hbig, hc₀]
      simp only [hpage]
      rfl
    have hpage : (pageOf m₁ x).write = true := by simp [pageOf, hwrite]
    have hq : PGROUNDDOWN va / PGSIZE < USER :=
      Nat.lt_of_not_le fun hq => hu (h₁.guarded _ x hq hx)
    have hlen : 0 < bs.length := List.length_pos_of_ne_nil hnil
    have hoff : va - PGROUNDDOWN va < PGSIZE := by
      unfold PGROUNDDOWN PGSIZE
      omega
    rw [if_neg hwrite]
    generalize hn : min (PGSIZE - (va - PGROUNDDOWN va)) bs.length = n
    obtain ⟨hspace₂, -⟩ := hspace₁.write (mem_userPages hq hx) (va - PGROUNDDOWN va) (bs.take n)
    have h₂ := h₁.faulted hspace₂.represents (.refl _ _)
    have hshort : (bs.drop n).length ≤ turns := by
      rw [List.length_drop]
      omega
    obtain ⟨m', done, M', c, heq, h', hvm'⟩ := ih h₂ hspace₂ hshort (uint64 (PGROUNDDOWN va + PGSIZE))
    obtain ⟨c₀, hc₀⟩ := hvm c
    refine ⟨m', done, M', c₀, heq, h', ?_⟩
    have hput : spaceOf (spaces.write m₁ x.pa (va - PGROUNDDOWN va) (bs.take n)) pr M₁ =
        (spaceOf m₁ pr M₁).put (PGROUNDDOWN va) ((pageOf m₁ x).put (va - PGROUNDDOWN va) (bs.take n)) := by
      simp only [spaceOf, vm.Space.put, view_write hspace₁ h₁.guarded hq hx hu]
    rw [vm.copyoutLoop, if_neg hnil]
    simp only []
    rw [if_neg hbig, hc₀]
    simp only [hpage]
    rw [if_pos trivial, hn, ← hput]
    exact hvm'

/-- A page fault of a process. -/
theorem System.vmfault_view (h : System k s Ms others) (hi : i < NPROC) (hused : (s.proc i).used = true)
    (va : Nat) :
    ∃ m' pa sp c, spaces.vmfault k s.mem (s.proc i) (s.proc i).pagetable va = .ok (m', pa) ∧
      Leaves { s with mem := m' } i sp ∧
      (pa = 0 ∧ sp = spaceOf s.mem (s.proc i) (Ms i) ∧
          vm.vmfault (spaceOf s.mem (s.proc i) (Ms i)) va c = .ok none ∨
        pa ≠ 0 ∧ vm.vmfault (spaceOf s.mem (s.proc i) (Ms i)) va c = .ok (some (sp, none))) := by
  obtain ⟨m', pa, N, heq, h', -, hfault⟩ := (h.layout i hi hused).vmfault (h.space hi hused) va
  rcases hfault with ⟨hzero, hview, hvm⟩ | ⟨hne, -, -, -, hvm⟩
  · refine ⟨m', pa, _, some 0, heq, ⟨N, h'.represents, rfl⟩, Or.inl ⟨hzero, ?_, hvm⟩⟩
    simp only [spaceOf, hview]
  · exact ⟨m', pa, _, none, heq, ⟨N, h'.represents, rfl⟩, Or.inr ⟨hne, hvm none none rfl⟩⟩

/-- `copyout` to a process. -/
theorem System.copyout_view (h : System k s Ms others) (hi : i < NPROC) (hused : (s.proc i).used = true)
    (va : Nat) (bs : List UInt8) :
    ∃ m' done sp c, spaces.copyout k s.mem (s.proc i) (s.proc i).pagetable va bs = .ok (m', done) ∧
      Leaves { s with mem := m' } i sp ∧
      vm.copyout (spaceOf s.mem (s.proc i) (Ms i)) c va bs = .ok (sp, done) := by
  obtain ⟨m', done, N, c, heq, h', hvm⟩ :=
    (h.layout i hi hused).copyoutLoop (h.space hi hused) (Nat.le_refl bs.length) va
  exact ⟨m', done, _, c, heq, ⟨N, h'.represents, rfl⟩, hvm⟩

/-! ## Fork -/

/-- The first page of a range is copied, then the others. -/
theorem copied_succ {old new new' : vm.PageTable} {v n : Nat} (hv : new' v = old v)
    (hsame : ∀ w, w ≠ v → new' w = new w) :
    (fun w => if v + 1 ≤ w ∧ w < v + 1 + n then old w else new' w) =
      fun w => if v ≤ w ∧ w < v + (n + 1) then old w else new w := by
  funext w
  by_cases hw : w = v
  · subst hw
    rw [if_neg (by omega), if_pos (by omega), hv]
  · by_cases hin : v + 1 ≤ w ∧ w < v + 1 + n
    · rw [if_pos hin, if_pos (by omega)]
    · rw [if_neg hin, if_neg (by omega), hsame w hw]

/-- The loop of `uvmcopy` with enough memory. -/
theorem vm_uvmcopyLoop {old new : vm.PageTable} {v n : Nat} (hend : v + n ≤ MAXVA / PGSIZE)
    (hfree : ∀ w, v ≤ w → w < v + n → new w = none) :
    vm.uvmcopyLoop old n (v * PGSIZE) none new =
      .ok (fun w => if v ≤ w ∧ w < v + n then old w else new w, none) := by
  induction n generalizing v new with
  | zero =>
    have hsame : (fun w => if v ≤ w ∧ w < v + 0 then old w else new w) = new := funext fun w => if_neg (by omega)
    rw [vm.uvmcopyLoop, hsame]
  | succ n ih =>
    have hv := hfree v (Nat.le_refl v) (by omega)
    have hnext : v * PGSIZE + PGSIZE = (v + 1) * PGSIZE := (Nat.succ_mul v PGSIZE).symm
    rw [vm.uvmcopyLoop, vm.walk_page (by omega), hnext]
    cases hold : old v with
    | none =>
      have hloop := @ih new (v + 1) (by omega) fun w h₁ h₂ => hfree w (by omega) (by omega)
      simp only []
      rw [hloop, copied_succ (hv.trans hold.symm) fun _ _ => rfl]
    | some pg =>
      have hloop := @ih (Function.update new v (some pg)) (v + 1) (by omega) fun w h₁ h₂ => by
        rw [Function.update_of_ne (by omega)]
        exact hfree w (by omega) (by omega)
      have hkalloc : vm.kalloc none = some none := rfl
      simp only [hkalloc]
      rw [vm.mappages_free (by omega) hv]
      simp only []
      rw [hloop, copied_succ (by rw [Function.update_self, hold]) fun _ hw => Function.update_of_ne hw ..]

/-- What the child of `kfork` has, when there is memory for it. -/
theorem vm_kfork {sp : vm.Space} (h : vm.WellFormed sp) : vm.kfork sp none = .ok (some
    { sz := sp.sz
      pagetable := fun q => if q < vm.pages sp.sz then sp.pagetable q else vm.proc_pagetable q }) := by
  have hpages := vm.pages_le h.size
  have hlt := vm.trapframe_lt
  have hkalloc : vm.kalloc none = some none := rfl
  have hloop := @vm_uvmcopyLoop sp.pagetable vm.proc_pagetable 0 (vm.pages sp.sz)
    (by omega) fun w _ hw => vm.proc_pagetable_below (by omega)
  have hrange : ∀ q, (0 ≤ q ∧ q < 0 + vm.pages sp.sz) ↔ q < vm.pages sp.sz := fun q => by omega
  unfold vm.kfork vm.uvmcopy
  simp only [hkalloc]
  rw [Nat.zero_mul] at hloop
  simp only [hrange] at hloop
  have hturns : (sp.sz + PGSIZE - 1) / PGSIZE = vm.pages sp.sz := rfl
  rw [hturns, hloop]

/-- A fork makes a child with the pages of the parent in both, or in neither. -/
theorem System.kfork_view (h : System k s Ms others) (hi : i < NPROC) (hused : (s.proc i).used = true) :
    ∃ s' r mem, spaces.kfork k s i = .ok (s', r) ∧
      (r = none ∧ vm.kfork (spaceOf s.mem (s.proc i) (Ms i)) mem = .ok none ∨
        ∃ np sp, r = some np ∧ Leaves s' np sp ∧
          vm.kfork (spaceOf s.mem (s.proc i) (Ms i)) mem = .ok (some sp)) := by
  have hlayout := h.layout i hi hused
  have hsize := hlayout.size
  obtain ⟨s', r, heq, hr⟩ := h.kfork hi hused
  rcases hr with ⟨hnone, -⟩ | ⟨np, N, hsome, hturn, hchild⟩
  · exact ⟨s', r, some 0, heq, Or.inl ⟨hnone, rfl⟩⟩
  · have hnp := hturn.system.layout np hchild.slot hchild.used
    rw [Function.update_self] at hnp
    have hne : i ≠ np := by
      rintro rfl
      exact absurd (hused.symm.trans hchild.unused) Bool.false_ne_true.symm
    -- the parent's pages are not touched
    have hparent : ∀ q < USER, ∀ x, Ms i q = some x → s'.mem.page x.pa = s.mem.page x.pa := by
      intro q hq x hx
      apply hturn.page h hchild.slot
      exact mem_rest hi hne (user_held hused (mem_userPages hq hx))
    have hview : view s'.mem N = fun q => if q < vm.pages (s.proc i).sz then view s.mem (Ms i) q
        else vm.proc_pagetable q := by
      funext q
      rw [pages_eq hsize]
      by_cases hq : q < npages (s.proc i).sz
      · have hqu : q < USER := Nat.lt_of_lt_of_le hq (npages_le hsize)
        rw [if_pos hq]
        rcases hchild.copied q hq with ⟨hnone, hN⟩ | ⟨x, b, hx, hN, hpage⟩
        · rw [view_none hnone, view_none hN]
        · rw [view_some hx, view_some hN, pageOf_copy hpage, pageOf_congr (hparent q hqu x hx)]
      · rw [if_neg hq]
        by_cases hqu : q < USER
        · have hN : N q = none := hnp.above q (by rw [hchild.size]; omega) hqu
          rw [view_none hN, vm.proc_pagetable_below hqu]
        · rw [← view_kernelMap (k := k) s'.mem (s'.proc np).trapframe (Nat.le_of_not_lt hqu)]
          unfold view
          rw [hnp.kernel q (Nat.le_of_not_lt hqu)]
    refine ⟨s', r, none, heq, Or.inr ⟨np, _, hsome, ⟨N, hnp.represents, ?_⟩, vm_kfork hlayout.wellFormed⟩⟩
    unfold spaceOf
    rw [hview, hchild.size]

end xv6.spaces
