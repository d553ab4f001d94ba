-- How high the memory of a process goes. `sys_sbrk` does not look at
-- TRAPFRAME: as long as no call asks for more, every process stays below it
-- and `walk` and `mappages` never panic.
import SysNet.Lib.Runs
import SysNet.Xv6.Vm

open runs

namespace xv6.vm

/-! ## The processes -/

/-- The memory of the processes. A panic stops the kernel. -/
structure State where
  procs : Nat → Option Space
  panicked : Option Panic

/-- One process. -/
def State.start (sp : Space) : State :=
  { procs := Function.update (fun _ => none) 0 (some sp), panicked := none }

inductive Act
  | sbrk (p : Nat) (n t : Int) (mem : Memory)
  | access (p : Nat) (a : Access) (mem : Memory)
  | fork (p child : Nat) (mem : Memory)
  /-- `kexit`; the table is freed when the parent waits, and nobody uses it before -/
  | exit (p : Nat)
deriving DecidableEq, Repr

/-- The space of the process after a call, or the panic. -/
def State.settle (s : State) (p : Nat) : Except Panic (Option Space) → State
  | .error e => { s with panicked := some e }
  | .ok sp => { s with procs := Function.update s.procs p sp }

/-- The argument of the system call is an `int`. -/
def isInt (n : Int) : Prop := -2147483648 ≤ n ∧ n < 2147483648

instance (n : Int) : Decidable (isInt n) := inferInstanceAs (Decidable (_ ∧ _))

def State.step (s : State) : Act → Option State
  | .sbrk p n t mem =>
    match s.procs p with
    | none => none
    | some sp =>
      if s.panicked = none ∧ isInt n then
        some (s.settle p ((sys_sbrk sp n t mem).map fun r => some r.1))
      else none
  | .access p a mem =>
    match s.procs p with
    | none => none
    | some sp =>
      if s.panicked = none then some (s.settle p ((sp.access mem a).map fun r => some r.1)) else none
  | .fork p child mem =>
    match s.procs p with
    | none => none
    | some sp =>
      if s.panicked = none ∧ s.procs child = none then some (s.settle child (kfork sp mem)) else none
  | .exit p =>
    match s.procs p with
    | none => none
    | some sp =>
      if s.panicked = none then
        some (s.settle p ((proc_freepagetable sp.pagetable sp.sz).map fun _ => none))
      else none

/-- No process reaches the trapframe, and the two panics have not happened. -/
structure Below (s : State) : Prop where
  size : ∀ p sp, s.procs p = some sp → sp.sz ≤ TRAPFRAME
  walk : s.panicked ≠ some .walk
  remap : s.panicked ≠ some .remap

/-- The memory has that many pages. -/
def Memory.gives : Memory → Nat → Prop
  | none, _ => True
  | some m, k => k ≤ m

instance : ∀ (mem : Memory) (k : Nat), Decidable (mem.gives k)
  | none, _ => isTrue trivial
  | some m, k => inferInstanceAs (Decidable (k ≤ m))

/-- The pages of a process of that size. -/
def pages (sz : Nat) : Nat := (sz + PGSIZE - 1) / PGSIZE

/-- A call of `sbrk` asks for memory below the trapframe only, or it is eager and the free
memory ends before the trapframe. -/
def asksBelow (s : State) : Act → Prop
  | .sbrk p n t mem =>
    match s.procs p with
    | none => True
    | some sp => sp.sz + n ≤ TRAPFRAME ∨
        t = SBRK_EAGER ∧ ¬ mem.gives (TRAPFRAME / PGSIZE - pages sp.sz + 1)
  | _ => True

instance (s : State) (a : Act) : Decidable (asksBelow s a) := by
  unfold asksBelow
  split
  · split <;> infer_instance
  · infer_instance

/-! ## What a process holds -/

/-- The pages are below the size, with the two of the kernel above. -/
structure WellFormed (sp : Space) : Prop where
  size : sp.sz ≤ TRAPFRAME
  below : ∀ v, (sp.pagetable v).isSome →
    v < pages sp.sz ∨ v = TRAPFRAME / PGSIZE ∨ v = TRAMPOLINE / PGSIZE
  trapframe : (sp.pagetable (TRAPFRAME / PGSIZE)).isSome
  trampoline : (sp.pagetable (TRAMPOLINE / PGSIZE)).isSome

theorem pages_le {sz : Nat} (h : sz ≤ TRAPFRAME) : pages sz ≤ TRAPFRAME / PGSIZE := by
  simp only [pages, TRAPFRAME, TRAMPOLINE, MAXVA, PGSIZE] at *
  omega

theorem roundup_eq {sz : Nat} (h : sz ≤ MAXVA) : PGROUNDUP sz = pages sz * PGSIZE := by
  simp only [PGROUNDUP, pages, uint64, MAXVA, PGSIZE] at *
  omega

theorem pages_mul (v : Nat) : pages (v * PGSIZE) = v := by
  simp only [pages, PGSIZE]
  omega

/-! ## The loops over pages -/

theorem walk_page {pt : PageTable} {v : Nat} (h : v < MAXVA / PGSIZE) :
    walk pt (v * PGSIZE) = .ok (pt v) := by
  unfold walk
  rw [if_neg (by simp only [MAXVA, PGSIZE] at *; omega), Nat.mul_div_cancel _ (by decide)]

theorem mappages_free {pt : PageTable} {v : Nat} {pg : Page} (h : v < MAXVA / PGSIZE)
    (hv : pt v = none) :
    mappages pt (v * PGSIZE) pg = .ok (Function.update pt v (some pg)) := by
  unfold mappages
  rw [walk_page h, hv, Nat.mul_div_cancel _ (by decide)]

theorem mappages_used {pt : PageTable} {v : Nat} {pg : Page} (h : v < MAXVA / PGSIZE)
    (hv : (pt v).isSome) : mappages pt (v * PGSIZE) pg = .error .remap := by
  obtain ⟨old, hold⟩ := Option.isSome_iff_exists.mp hv
  unfold mappages
  rw [walk_page h, hold]

/-- The table with the pages of a range replaced. -/
def overlay (pt : PageTable) (v k : Nat) (x : Option Page) : PageTable := fun w =>
  if v ≤ w ∧ w < v + k then x else pt w

theorem overlay_zero (pt : PageTable) (v : Nat) (x : Option Page) : overlay pt v 0 x = pt := by
  funext w
  unfold overlay
  rw [if_neg (by omega)]

/-- The first page of a range, then the others. -/
theorem overlay_update (pt : PageTable) (v k : Nat) (x : Option Page) :
    overlay (Function.update pt v x) (v + 1) k x = overlay pt v (k + 1) x := by
  funext w
  unfold overlay
  by_cases hw : w = v
  · subst hw
    rw [if_neg (by omega), if_pos (by omega), Function.update_self]
  · rw [Function.update_of_ne hw]
    by_cases hin : v + 1 ≤ w ∧ w < v + 1 + k
    · rw [if_pos hin, if_pos (by omega)]
    · rw [if_neg hin, if_neg (by omega)]

theorem uvmunmap_eq {pt : PageTable} {v n : Nat} (h : v + n ≤ MAXVA / PGSIZE) :
    uvmunmap pt (v * PGSIZE) n = .ok (overlay pt v n none) := by
  induction n generalizing pt v with
  | zero => rw [overlay_zero, uvmunmap]
  | succ n ih =>
    rw [uvmunmap, walk_page (by omega), Nat.mul_div_cancel _ (by decide),
      ← Nat.succ_mul, ← overlay_update]
    exact ih (by omega)

theorem kalloc_some {mem mem' : Memory} {k : Nat} (h : kalloc mem = some mem') :
    mem.gives (k + 1) ↔ mem'.gives k := by
  rcases mem with _ | _ | m
  · cases h
    exact Iff.rfl
  · cases h
  · cases h
    exact Nat.succ_le_succ_iff

theorem kalloc_none {mem : Memory} (h : kalloc mem = none) : mem = some 0 := by
  rcases mem with _ | _ | m
  · cases h
  · rfl
  · cases h

/-- The loop of `uvmalloc` where no page is mapped and the memory is enough. -/
theorem uvmallocLoop_all {pg : Page} {k v : Nat} {mem : Memory} {pt : PageTable}
    (hfree : ∀ w, v ≤ w → w < v + k → pt w = none) (hmax : v + k ≤ MAXVA / PGSIZE)
    (hmem : mem.gives k) :
    uvmallocLoop pg k (v * PGSIZE) mem pt = .ok (overlay pt v k (some pg), none) := by
  induction k generalizing v mem pt with
  | zero => rw [overlay_zero, uvmallocLoop]
  | succ k ih =>
    rw [uvmallocLoop]
    cases hk : kalloc mem with
    | none =>
      rw [kalloc_none hk] at hmem
      exact absurd hmem (Nat.not_succ_le_zero k)
    | some mem' =>
      simp only
      rw [mappages_free (by omega) (hfree v (Nat.le_refl v) (by omega))]
      simp only
      rw [← Nat.succ_mul, ← overlay_update]
      refine ih (fun w h1 h2 => ?_) (by omega) ((kalloc_some hk).mp hmem)
      rw [Function.update_of_ne (by omega)]
      exact hfree w (by omega) (by omega)

/-- The memory ends first. -/
theorem uvmallocLoop_short {pg : Page} {k v m : Nat} {pt : PageTable}
    (hfree : ∀ w, v ≤ w → w < v + m → pt w = none) (hmax : v + m ≤ MAXVA / PGSIZE) (hm : m < k) :
    uvmallocLoop pg k (v * PGSIZE) (some m) pt =
      .ok (overlay pt v m (some pg), some ((v + m) * PGSIZE)) := by
  induction m generalizing k v pt with
  | zero =>
    obtain ⟨k, rfl⟩ : ∃ k', k = k' + 1 := ⟨k - 1, by omega⟩
    rw [overlay_zero, uvmallocLoop]
    rfl
  | succ m ih =>
    obtain ⟨k, rfl⟩ : ∃ k', k = k' + 1 := ⟨k - 1, by omega⟩
    rw [uvmallocLoop]
    simp only [kalloc]
    rw [mappages_free (by omega) (hfree v (Nat.le_refl v) (by omega))]
    simp only
    rw [← Nat.succ_mul, ← overlay_update, Nat.add_comm m 1, ← Nat.add_assoc]
    refine ih (fun w h1 h2 => ?_) (by omega) (by omega)
    rw [Function.update_of_ne (by omega)]
    exact hfree w (by omega) (by omega)

/-- The loop comes to a page that is mapped. -/
theorem uvmallocLoop_remap {pg : Page} {k v r : Nat} {mem : Memory} {pt : PageTable}
    (hfree : ∀ w, v ≤ w → w < v + r → pt w = none) (hused : (pt (v + r)).isSome)
    (hmax : v + r < MAXVA / PGSIZE) (hr : r < k) (hmem : mem.gives (r + 1)) :
    uvmallocLoop pg k (v * PGSIZE) mem pt = .error .remap := by
  induction r generalizing k v mem pt with
  | zero =>
    obtain ⟨k, rfl⟩ : ∃ k', k = k' + 1 := ⟨k - 1, by omega⟩
    rw [uvmallocLoop]
    cases hk : kalloc mem with
    | none =>
      rw [kalloc_none hk] at hmem
      exact absurd hmem (Nat.not_succ_le_zero 0)
    | some mem' =>
      simp only
      rw [mappages_used (v := v) hmax hused]
  | succ r ih =>
    obtain ⟨k, rfl⟩ : ∃ k', k = k' + 1 := ⟨k - 1, by omega⟩
    rw [uvmallocLoop]
    cases hk : kalloc mem with
    | none =>
      rw [kalloc_none hk] at hmem
      exact absurd hmem (Nat.not_succ_le_zero _)
    | some mem' =>
      simp only
      rw [mappages_free (by omega) (hfree v (Nat.le_refl v) (by omega))]
      simp only
      rw [← Nat.succ_mul]
      refine ih (fun w h1 h2 => ?_) ?_ (by omega) (by omega) ((kalloc_some hk).mp hmem)
      · rw [Function.update_of_ne (by omega)]
        exact hfree w (by omega) (by omega)
      · have heq : v.succ + r = v + (r + 1) := by omega
        rw [heq, Function.update_of_ne (by omega)]
        exact hused

/-! ## Growing and shrinking -/

variable {sp : Space}

/-- Above the size there is nothing up to the trapframe. -/
theorem WellFormed.free {v : Nat} (h : WellFormed sp) (h1 : pages sp.sz ≤ v)
    (h2 : v < TRAPFRAME / PGSIZE) : sp.pagetable v = none := by
  by_contra hv
  have hdiv : TRAPFRAME / PGSIZE < TRAMPOLINE / PGSIZE := by decide
  rcases h.below v (Option.isSome_iff_ne_none.mpr hv) with hlt | heq | heq <;> omega

/-- Memory that was mapped and is freed again leaves the table as it was. -/
theorem uvmdealloc_overlay {pt : PageTable} {pg : Page} {v m : Nat}
    (hfree : ∀ w, v ≤ w → w < v + m → pt w = none) (hmax : v + m ≤ MAXVA / PGSIZE) :
    ∃ sz, uvmdealloc (overlay pt v m (some pg)) ((v + m) * PGSIZE) (v * PGSIZE) = .ok (pt, sz) := by
  unfold uvmdealloc
  have hle : ∀ w, w ≤ MAXVA / PGSIZE → w * PGSIZE ≤ MAXVA := by
    intro w hw
    simp only [MAXVA, PGSIZE] at *
    omega
  split
  · rename_i hsz
    obtain rfl : m = 0 := by
      simp only [PGSIZE] at hsz
      omega
    rw [overlay_zero]
    exact ⟨_, rfl⟩
  · rename_i hsz
    rw [roundup_eq (hle _ hmax), roundup_eq (hle v (by omega)), pages_mul, pages_mul, if_pos (by omega),
      ← Nat.sub_mul, Nat.mul_div_cancel _ (by decide), Nat.add_sub_cancel_left, uvmunmap_eq hmax]
    refine ⟨_, congrArg (fun x => Except.ok (x, _)) (funext fun w => ?_)⟩
    unfold overlay
    split
    · rename_i hw
      rw [hfree w hw.1 hw.2]
    · rfl

theorem pages_mono {m n : Nat} (h : m ≤ n) : pages m ≤ pages n :=
  Nat.div_le_div_right (by omega)

/-- The turns of the loop of `uvmalloc`. -/
theorem turns_eq {sz u : Nat} (h : sz ≤ MAXVA) :
    (u - PGROUNDUP sz + PGSIZE - 1) / PGSIZE = pages u - pages sz := by
  rw [roundup_eq h]
  simp only [pages, PGSIZE]
  omega

theorem trapframe_lt : TRAPFRAME / PGSIZE < MAXVA / PGSIZE := by decide

theorem trapframe_le : TRAPFRAME ≤ MAXVA := by decide

/-- Growing below the trapframe. -/
theorem WellFormed.grows {u : Nat} {mem : Memory} (h : WellFormed sp) (hle : sp.sz ≤ u)
    (hu : u ≤ TRAPFRAME) :
    (mem.gives (pages u - pages sp.sz) → uvmalloc sp.pagetable sp.sz u .zero mem =
      .ok (overlay sp.pagetable (pages sp.sz) (pages u - pages sp.sz) (some .zero), u)) ∧
    (¬ mem.gives (pages u - pages sp.sz) →
      uvmalloc sp.pagetable sp.sz u .zero mem = .ok (sp.pagetable, 0)) := by
  have hmax := Nat.le_trans h.size trapframe_le
  have hpages := pages_le hu
  have hmono := pages_mono hle
  have hlt := trapframe_lt
  unfold uvmalloc
  rw [if_neg (by omega)]
  simp only [turns_eq hmax]
  rw [roundup_eq hmax]
  constructor
  · intro hmem
    rw [uvmallocLoop_all (fun w h1 h2 => h.free h1 (by omega)) (by omega) hmem]
  · intro hmem
    rcases mem with _ | m
    · exact absurd trivial hmem
    · have hm : m < pages u - pages sp.sz := Nat.lt_of_not_le hmem
      have hfree : ∀ w, pages sp.sz ≤ w → w < pages sp.sz + m → sp.pagetable w = none :=
        fun w h1 h2 => h.free h1 (by omega)
      rw [uvmallocLoop_short hfree (by omega) hm]
      obtain ⟨sz, hsz⟩ := @uvmdealloc_overlay _ .zero _ _ hfree (by omega)
      simp only [hsz]
      rfl

/-- Growing over the trapframe. -/
theorem WellFormed.grows_over {u : Nat} {mem : Memory} (h : WellFormed sp)
    (hu : TRAPFRAME < u) :
    (mem.gives (TRAPFRAME / PGSIZE - pages sp.sz + 1) →
      uvmalloc sp.pagetable sp.sz u .zero mem = .error .remap) ∧
    (¬ mem.gives (TRAPFRAME / PGSIZE - pages sp.sz + 1) →
      uvmalloc sp.pagetable sp.sz u .zero mem = .ok (sp.pagetable, 0)) := by
  have hmax := Nat.le_trans h.size trapframe_le
  have hsize := h.size
  have hpages := pages_le h.size
  have hlt := trapframe_lt
  have hover : TRAPFRAME / PGSIZE < pages u := by
    simp only [pages, TRAPFRAME, TRAMPOLINE, MAXVA, PGSIZE] at *
    omega
  unfold uvmalloc
  rw [if_neg (by omega)]
  simp only [turns_eq hmax]
  rw [roundup_eq hmax]
  constructor
  · intro hmem
    have hat : pages sp.sz + (TRAPFRAME / PGSIZE - pages sp.sz) = TRAPFRAME / PGSIZE := by omega
    rw [uvmallocLoop_remap (fun w h1 h2 => h.free h1 (by omega)) (by rw [hat]; exact h.trapframe)
      (by omega) (by omega) hmem]
  · intro hmem
    rcases mem with _ | m
    · exact absurd trivial hmem
    · have hm : m < TRAPFRAME / PGSIZE - pages sp.sz + 1 := Nat.lt_of_not_le hmem
      have hfree : ∀ w, pages sp.sz ≤ w → w < pages sp.sz + m → sp.pagetable w = none :=
        fun w h1 h2 => h.free h1 (by omega)
      rw [uvmallocLoop_short hfree (by omega) (by omega)]
      obtain ⟨sz, hsz⟩ := @uvmdealloc_overlay _ .zero _ _ hfree (by omega)
      simp only [hsz]
      rfl

theorem WellFormed.bigger {u : Nat} {pt : PageTable} (h : WellFormed sp) (hle : sp.sz ≤ u)
    (hu : u ≤ TRAPFRAME)
    (hpt : ∀ v, (pt v).isSome ↔ (sp.pagetable v).isSome ∨ pages sp.sz ≤ v ∧ v < pages u ∧ (pt v).isSome) :
    WellFormed { sz := u, pagetable := pt } where
  size := hu
  below v hv := by
    have hmono := pages_mono hle
    rcases (hpt v).mp hv with hold | ⟨-, hnew, -⟩
    · exact (h.below v hold).imp_left fun hlt => Nat.lt_of_lt_of_le hlt hmono
    · exact Or.inl hnew
  trapframe := (hpt _).mpr (Or.inl h.trapframe)
  trampoline := (hpt _).mpr (Or.inl h.trampoline)

theorem WellFormed.smaller {u : Nat} {pt : PageTable} (h : WellFormed sp) (hle : u ≤ sp.sz)
    (hpt : ∀ v, pt v = if pages u ≤ v ∧ v < pages sp.sz then none else sp.pagetable v) :
    WellFormed { sz := u, pagetable := pt } := by
  have hpages := pages_le h.size
  have hdiv : TRAPFRAME / PGSIZE < TRAMPOLINE / PGSIZE := by decide
  refine ⟨Nat.le_trans hle h.size, fun v hv => ?_, ?_, ?_⟩
  · simp only at hv ⊢
    rw [hpt v] at hv
    split at hv
    · cases hv
    · rename_i hout
      rcases h.below v hv with hlt | heq
      · exact Or.inl (by omega)
      · exact Or.inr heq
  · simp only
    rw [hpt, if_neg (by omega)]
    exact h.trapframe
  · simp only
    rw [hpt, if_neg (by omega)]
    exact h.trampoline

theorem uint64_of_nonneg {n : Int} (h0 : 0 ≤ n) (h1 : n < 18446744073709551616) :
    (uint64 n : Int) = n := by
  unfold uint64
  omega

/-- Shrinking, or a size that has wrapped and changes nothing. -/
theorem WellFormed.shrinks (h : WellFormed sp) (u : Nat) :
    ∃ pt sz, uvmdealloc sp.pagetable sp.sz u = .ok (pt, sz) ∧ WellFormed { sz, pagetable := pt } := by
  have hsize := h.size
  have hmax := Nat.le_trans h.size trapframe_le
  unfold uvmdealloc
  split
  · exact ⟨_, _, rfl, h⟩
  · rename_i hlt
    have hpages := pages_le hsize
    have htrap := trapframe_lt
    have hmono : pages u ≤ pages sp.sz := pages_mono (by omega)
    rw [roundup_eq (by omega), roundup_eq hmax]
    split
    · rw [← Nat.sub_mul, Nat.mul_div_cancel _ (by decide), uvmunmap_eq (by omega)]
      refine ⟨_, _, rfl, h.smaller (by omega) fun v => ?_⟩
      unfold overlay
      rw [Nat.add_sub_cancel' hmono]
    · rename_i hge
      refine ⟨_, _, rfl, h.smaller (by omega) fun v => ?_⟩
      rw [if_neg]
      simp only [PGSIZE] at hge
      omega

/-- A call of `sbrk` that stays below the trapframe. -/
theorem WellFormed.sbrk {n t : Int} {mem : Memory} (h : WellFormed sp) (hn : isInt n)
    (hok : sp.sz + n ≤ TRAPFRAME ∨
      t = SBRK_EAGER ∧ ¬ mem.gives (TRAPFRAME / PGSIZE - pages sp.sz + 1)) :
    ∃ sp' r, sys_sbrk sp n t mem = .ok (sp', r) ∧ WellFormed sp' := by
  have hsize := h.size
  have htrap : TRAPFRAME < 274877906944 := by decide
  unfold isInt at hn
  unfold sys_sbrk growproc
  by_cases heager : t = SBRK_EAGER ∨ n < 0
  · rw [if_pos heager]
    by_cases hpos : 0 < n
    · have hu : (uint64 (sp.sz + n) : Int) = sp.sz + n := uint64_of_nonneg (by omega) (by omega)
      generalize uint64 (sp.sz + n) = u at hu
      rw [if_pos hpos]
      by_cases hfits : u ≤ TRAPFRAME
      · obtain ⟨hall, hshort⟩ := @WellFormed.grows _ u mem h (by omega) hfits
        by_cases hmem : mem.gives (pages u - pages sp.sz)
        · rw [hall hmem]
          simp only
          rw [if_neg (by omega)]
          refine ⟨_, _, rfl, h.bigger (by omega) hfits fun v => ?_⟩
          have hmono : pages sp.sz ≤ pages u := pages_mono (by omega)
          unfold overlay
          rw [Nat.add_sub_cancel' hmono]
          by_cases hv : pages sp.sz ≤ v ∧ v < pages u
          · simp [hv]
          · rw [if_neg hv]
            exact ⟨Or.inl, fun hor => hor.elim id fun hc => absurd ⟨hc.1, hc.2.1⟩ hv⟩
        · rw [hshort hmem]
          exact ⟨_, _, rfl, h⟩
      · rcases hok with hle | ⟨-, hmem⟩
        · exact absurd hle (by omega)
        · rw [(h.grows_over (u := u) (by omega)).2 hmem]
          exact ⟨_, _, rfl, h⟩
    · rw [if_neg hpos]
      by_cases hneg : n < 0
      · rw [if_pos hneg]
        obtain ⟨pt, sz, heq, hwf⟩ := h.shrinks (uint64 (sp.sz + n))
        rw [heq]
        exact ⟨_, _, rfl, hwf⟩
      · rw [if_neg hneg]
        exact ⟨_, _, rfl, h⟩
  · rw [if_neg heager]
    have hu : (uint64 (sp.sz + n) : Int) = sp.sz + n := uint64_of_nonneg (by omega) (by omega)
    generalize uint64 (sp.sz + n) = u at hu
    rw [if_neg (by omega)]
    refine ⟨_, _, rfl, h.bigger (by omega) ?_ fun v => ⟨Or.inl, fun hor => hor.elim id fun hc => hc.2.2⟩⟩
    rcases hok with hle | ⟨ht, -⟩
    · omega
    · exact absurd (Or.inl ht) heager

/-- A call that asks for more goes over the trapframe or panics. -/
theorem WellFormed.sbrk_over {n t : Int} {mem : Memory} (h : WellFormed sp) (hn : isInt n)
    (hbad : ¬ (sp.sz + n ≤ TRAPFRAME ∨
      t = SBRK_EAGER ∧ ¬ mem.gives (TRAPFRAME / PGSIZE - pages sp.sz + 1))) :
    sys_sbrk sp n t mem = .error .remap ∨
      ∃ sp' r, sys_sbrk sp n t mem = .ok (sp', r) ∧ TRAPFRAME < sp'.sz := by
  have hsize := h.size
  have htrap : TRAPFRAME < 274877906944 := by decide
  unfold isInt at hn
  rw [not_or] at hbad
  have hu : (uint64 (sp.sz + n) : Int) = sp.sz + n := uint64_of_nonneg (by omega) (by omega)
  unfold sys_sbrk growproc
  generalize uint64 (sp.sz + n) = u at hu
  by_cases heager : t = SBRK_EAGER
  · left
    have hmem : mem.gives (TRAPFRAME / PGSIZE - pages sp.sz + 1) := by
      by_contra hno
      exact hbad.2 ⟨heager, hno⟩
    rw [if_pos (Or.inl heager), if_pos (by omega), (h.grows_over (u := u) (by omega)).1 hmem]
  · right
    rw [if_neg (by omega), if_neg (by omega)]
    exact ⟨_, _, rfl, by simp only; omega⟩

/-! ## Faults and copies -/

/-- The size stays, and pages are added below it only. -/
structure Filled (sp sp' : Space) : Prop where
  size : sp'.sz = sp.sz
  old : ∀ v, (sp.pagetable v).isSome → (sp'.pagetable v).isSome
  new : ∀ v, (sp'.pagetable v).isSome → (sp.pagetable v).isSome ∨ v < pages sp.sz

theorem Filled.refl (sp : Space) : Filled sp sp := ⟨rfl, fun _ hv => hv, fun _ hv => Or.inl hv⟩

theorem Filled.trans {sp' sp'' : Space} (h : Filled sp sp') (h' : Filled sp' sp'') :
    Filled sp sp'' where
  size := h'.size.trans h.size
  old v hv := h'.old v (h.old v hv)
  new v hv := by
    rcases h'.new v hv with hold | hlt
    · exact h.new v hold
    · exact Or.inr (h.size ▸ hlt)

theorem Filled.wellFormed {sp' : Space} (h : Filled sp sp') (hwf : WellFormed sp) :
    WellFormed sp' where
  size := h.size ▸ hwf.size
  below v hv := by
    rw [h.size]
    rcases h.new v hv with hold | hlt
    · exact hwf.below v hold
    · exact Or.inl hlt
  trapframe := h.old _ hwf.trapframe
  trampoline := h.old _ hwf.trampoline

/-- New contents for a page that is mapped. -/
theorem filled_put {va : Nat} {pg : Page} (hv : (sp.pagetable (va / PGSIZE)).isSome) :
    Filled sp (sp.put va pg) := by
  refine ⟨rfl, fun v hv' => ?_, fun v hv' => ?_⟩
  · by_cases heq : v = va / PGSIZE
    · subst heq
      simp [Space.put]
    · simpa [Space.put, heq] using hv'
  · by_cases heq : v = va / PGSIZE
    · subst heq
      exact Or.inl hv
    · exact Or.inl (by simpa [Space.put, heq] using hv')

theorem rounddown_div (va : Nat) : PGROUNDDOWN va / PGSIZE = va / PGSIZE := by
  unfold PGROUNDDOWN
  rw [Nat.mul_div_cancel _ (by decide)]

/-- A fault never panics. It finds a page below the size, or none. -/
theorem WellFormed.vmfault (h : WellFormed sp) (va : Nat) (mem : Memory) :
    vmfault sp va mem = .ok none ∨ ∃ sp' mem', vmfault sp va mem = .ok (some (sp', mem')) ∧
      Filled sp sp' ∧ (sp'.pagetable (va / PGSIZE)).isSome := by
  have hsize := h.size
  unfold vm.vmfault
  split
  · exact Or.inl rfl
  · rename_i hlt
    have hv : va / PGSIZE < MAXVA / PGSIZE := by
      simp only [TRAPFRAME, TRAMPOLINE, MAXVA, PGSIZE] at *
      omega
    have hpage : va / PGSIZE < pages sp.sz := by
      simp only [pages, PGSIZE] at *
      omega
    unfold ismapped PGROUNDDOWN
    rw [walk_page hv]
    cases hpte : sp.pagetable (va / PGSIZE) with
    | some pg => exact Or.inl rfl
    | none =>
      cases kalloc mem with
      | none => exact Or.inl rfl
      | some mem' =>
        simp only [Option.isSome_none]
        rw [mappages_free hv hpte]
        refine Or.inr ⟨_, _, rfl, ⟨rfl, fun v hv' => ?_, fun v hv' => ?_⟩, by simp⟩
        · by_cases heq : v = va / PGSIZE
          · subst heq
            simp
          · simpa [heq] using hv'
        · by_cases heq : v = va / PGSIZE
          · exact Or.inr (heq ▸ hpage)
          · exact Or.inl (by simpa [heq] using hv')

theorem walkaddr_some {pt : PageTable} {va : Nat} {pg : Page} (h : walkaddr pt va = some pg) :
    (pt (va / PGSIZE)).isSome := by
  unfold walkaddr at h
  split at h
  · cases h
  · rw [Option.filter_eq_some_iff] at h
    rw [h.1]
    rfl

theorem WellFormed.fetch (h : WellFormed sp) (va0 : Nat) (mem : Memory) :
    fetch sp va0 mem = .ok none ∨ ∃ sp' mem' pg, fetch sp va0 mem = .ok (some (sp', mem', pg)) ∧
      Filled sp sp' ∧ (sp'.pagetable (va0 / PGSIZE)).isSome := by
  unfold vm.fetch
  cases hwalk : walkaddr sp.pagetable va0 with
  | some pg => exact Or.inr ⟨sp, mem, pg, rfl, .refl sp, walkaddr_some hwalk⟩
  | none =>
    rcases h.vmfault va0 mem with hnone | ⟨sp', mem', hsome, hfilled, hpage⟩
    · left
      simp only [hnone]
    · simp only [hsome]
      exact Or.inr ⟨sp', mem', .zero, rfl, hfilled, hpage⟩

theorem WellFormed.copyoutLoop (h : WellFormed sp) (k : Nat) (mem : Memory) (dstva : Nat)
    (src : List UInt8) : ∃ sp' b, copyoutLoop k sp mem dstva src = .ok (sp', b) ∧ Filled sp sp' := by
  induction k generalizing sp mem dstva src with
  | zero => exact ⟨sp, true, rfl, .refl sp⟩
  | succ k ih =>
    unfold vm.copyoutLoop
    split
    · exact ⟨_, _, rfl, .refl sp⟩
    · dsimp only
      split
      · exact ⟨_, _, rfl, .refl sp⟩
      · rcases h.fetch (PGROUNDDOWN dstva) mem with hnone | ⟨sp₁, mem₁, pg, hsome, hfilled, hpage⟩
        · simp only [hnone]
          exact ⟨_, _, rfl, .refl sp⟩
        · simp only [hsome]
          split
          · have hput := hfilled.trans (@filled_put _ _ (pg.put (dstva - PGROUNDDOWN dstva)
              (src.take (min (PGSIZE - (dstva - PGROUNDDOWN dstva)) src.length))) hpage)
            obtain ⟨sp₂, b, heq, hrest⟩ := ih (hput.wellFormed h) mem₁
              (uint64 (PGROUNDDOWN dstva + PGSIZE))
              (src.drop (min (PGSIZE - (dstva - PGROUNDDOWN dstva)) src.length))
            exact ⟨sp₂, b, heq, hput.trans hrest⟩
          · exact ⟨_, _, rfl, hfilled⟩

theorem WellFormed.copyinLoop (h : WellFormed sp) (k : Nat) (mem : Memory) (srcva len : Nat)
    (dst : List UInt8) :
    ∃ sp' r, copyinLoop k sp mem srcva len dst = .ok (sp', r) ∧ Filled sp sp' := by
  induction k generalizing sp mem srcva len dst with
  | zero => exact ⟨sp, _, rfl, .refl sp⟩
  | succ k ih =>
    unfold vm.copyinLoop
    split
    · exact ⟨_, _, rfl, .refl sp⟩
    · rcases h.fetch (PGROUNDDOWN srcva) mem with hnone | ⟨sp₁, mem₁, pg, hsome, hfilled, hpage⟩
      · simp only [hnone]
        exact ⟨_, _, rfl, .refl sp⟩
      · simp only [hsome]
        obtain ⟨sp₂, r, heq, hrest⟩ := ih (hfilled.wellFormed h) mem₁
          (uint64 (PGROUNDDOWN srcva + PGSIZE)) (len - min (PGSIZE - (srcva - PGROUNDDOWN srcva)) len)
          (dst ++ pg.bytes (srcva - PGROUNDDOWN srcva)
            (min (PGSIZE - (srcva - PGROUNDDOWN srcva)) len))
        exact ⟨sp₂, r, heq, hfilled.trans hrest⟩

/-- No access of user memory panics. -/
theorem WellFormed.access (h : WellFormed sp) (a : Access) (mem : Memory) :
    ∃ sp' r, sp.access mem a = .ok (sp', r) ∧ Filled sp sp' := by
  cases a with
  | load va w inPage =>
    simp only [Space.access, load]
    split
    · exact ⟨_, _, rfl, .refl sp⟩
    · rcases h.vmfault va mem with hnone | ⟨sp', mem', hsome, hfilled, hpage⟩
      · simp only [hnone]
        exact ⟨_, _, rfl, .refl sp⟩
      · simp only [hsome]
        exact ⟨_, _, rfl, hfilled⟩
  | store va bytes inPage =>
    simp only [Space.access, store]
    split
    · rename_i pg hpg
      refine ⟨_, _, rfl, filled_put ?_⟩
      have hsome := (Option.filter_eq_some_iff.mp hpg).1
      unfold translate at hsome
      split at hsome
      · rw [hsome]
        rfl
      · cases hsome
    · rcases h.vmfault va mem with hnone | ⟨sp', mem', hsome, hfilled, hpage⟩
      · simp only [hnone]
        exact ⟨_, _, rfl, .refl sp⟩
      · simp only [hsome]
        exact ⟨_, _, rfl, hfilled.trans (filled_put hpage)⟩
  | copyin va len =>
    obtain ⟨sp', r, heq, hfilled⟩ := h.copyinLoop len mem va len []
    refine ⟨sp', r, ?_, hfilled⟩
    simp only [Space.access, copyin, heq, Except.map]
  | copyout va bytes =>
    obtain ⟨sp', b, heq, hfilled⟩ := h.copyoutLoop bytes.length mem va bytes
    refine ⟨sp', ([], b), ?_, hfilled⟩
    simp only [Space.access, copyout, heq, Except.map]
  | copyinstr va max => exact ⟨sp, _, rfl, .refl sp⟩

/-! ## Fork and exit -/

theorem uvmunmap_first {pt : PageTable} {n : Nat} (h : n ≤ MAXVA / PGSIZE) :
    uvmunmap pt 0 n = .ok (overlay pt 0 n none) := by
  have heq := @uvmunmap_eq pt 0 n (by omega)
  rwa [Nat.zero_mul] at heq

/-- A table is freed: its pages are below the size, but for those of the kernel. -/
theorem proc_freepagetable_ok {pt : PageTable} {sz : Nat} (hsz : sz ≤ TRAPFRAME)
    (hbelow : ∀ v, (pt v).isSome →
      v < pages sz ∨ v = TRAPFRAME / PGSIZE ∨ v = TRAMPOLINE / PGSIZE) :
    proc_freepagetable pt sz = .ok () := by
  have hpages := pages_le hsz
  have htrap := trapframe_lt
  have htramp : uvmunmap pt TRAMPOLINE 1 = .ok (overlay pt (TRAMPOLINE / PGSIZE) 1 none) :=
    uvmunmap_eq (v := TRAMPOLINE / PGSIZE) (by decide)
  have hframe : ∀ pt' : PageTable,
      uvmunmap pt' TRAPFRAME 1 = .ok (overlay pt' (TRAPFRAME / PGSIZE) 1 none) :=
    fun pt' => uvmunmap_eq (v := TRAPFRAME / PGSIZE) (by decide)
  have hempty : ∀ v, overlay (overlay (overlay pt (TRAMPOLINE / PGSIZE) 1 none) (TRAPFRAME / PGSIZE) 1 none)
      0 (pages sz) none v = none := by
    intro v
    unfold overlay
    by_contra hne
    have hout : ¬ (0 ≤ v ∧ v < 0 + pages sz) ∧
        ¬ (TRAPFRAME / PGSIZE ≤ v ∧ v < TRAPFRAME / PGSIZE + 1) ∧
        ¬ (TRAMPOLINE / PGSIZE ≤ v ∧ v < TRAMPOLINE / PGSIZE + 1) := by
      refine ⟨fun h => hne (by rw [if_pos h]), fun h => hne (by rw [if_pos h, ite_self]),
        fun h => hne (by rw [if_pos h, ite_self, ite_self])⟩
    rw [if_neg hout.1, if_neg hout.2.1, if_neg hout.2.2] at hne
    rcases hbelow v (Option.isSome_iff_ne_none.mpr hne) with hlt | heq | heq <;> omega
  have hwalk : ∀ pt' : PageTable, (∀ v, pt' v = none) → freewalk pt' = .ok () := by
    intro pt' hnone
    unfold freewalk
    rw [if_neg]
    rintro ⟨v, -, hv⟩
    rw [hnone v] at hv
    cases hv
  unfold proc_freepagetable
  rw [htramp]
  simp only [hframe]
  unfold uvmfree
  split
  · rw [roundup_eq (Nat.le_trans hsz trapframe_le), Nat.mul_div_cancel _ (by decide),
      uvmunmap_first (by omega)]
    exact hwalk _ hempty
  · rename_i hzero
    obtain rfl : sz = 0 := by omega
    refine hwalk _ fun v => ?_
    have hnone := hempty v
    rwa [show pages 0 = 0 from rfl, overlay_zero] at hnone

/-- The loop of `uvmcopy` into a table where the pages are free. -/
theorem uvmcopyLoop_ok {old new : PageTable} {k v : Nat} {mem : Memory}
    (hmax : v + k ≤ MAXVA / PGSIZE) (hfree : ∀ w, v ≤ w → w < v + k → new w = none) :
    ∃ new' stop, uvmcopyLoop old k (v * PGSIZE) mem new = .ok (new', stop) ∧
      (∀ w, ¬ (v ≤ w ∧ w < v + k) → new' w = new w) ∧
      ∀ i, stop = some i → ∃ u, i = u * PGSIZE ∧ v ≤ u ∧ u ≤ v + k ∧
        ∀ w, u ≤ w → new' w = new w := by
  induction k generalizing v mem new with
  | zero => exact ⟨new, none, rfl, fun _ _ => rfl, fun i hi => by cases hi⟩
  | succ k ih =>
    unfold uvmcopyLoop
    rw [walk_page (by omega)]
    cases old v with
    | none =>
      obtain ⟨new', stop, heq, hsame, hstop⟩ := @ih new (v + 1) mem (by omega)
        fun w h1 h2 => hfree w (by omega) (by omega)
      rw [Nat.succ_mul] at heq
      refine ⟨new', stop, heq, fun w hw => hsame w (by omega), fun i hi => ?_⟩
      obtain ⟨u, hu, hge, hle, hrest⟩ := hstop i hi
      exact ⟨u, hu, by omega, by omega, hrest⟩
    | some pg =>
      cases kalloc mem with
      | none =>
        refine ⟨new, some (v * PGSIZE), rfl, fun _ _ => rfl, fun i hi => ?_⟩
        exact ⟨v, (Option.some.inj hi).symm, by omega, by omega, fun _ _ => rfl⟩
      | some mem' =>
        simp only
        rw [mappages_free (by omega) (hfree v (Nat.le_refl v) (by omega))]
        simp only
        obtain ⟨new', stop, heq, hsame, hstop⟩ := @ih (Function.update new v (some pg))
          (v + 1) mem' (by omega) fun w h1 h2 => by
            rw [Function.update_of_ne (by omega)]
            exact hfree w (by omega) (by omega)
        rw [Nat.succ_mul] at heq
        refine ⟨new', stop, heq, fun w hw => ?_, fun i hi => ?_⟩
        · rw [hsame w (by omega), Function.update_of_ne (by omega)]
        · obtain ⟨u, hu, hge, hle, hrest⟩ := hstop i hi
          refine ⟨u, hu, by omega, by omega, fun w hw => ?_⟩
          rw [hrest w hw, Function.update_of_ne (by omega)]

theorem proc_pagetable_below {v : Nat} (h : v < TRAPFRAME / PGSIZE) : proc_pagetable v = none := by
  have hdiv : TRAPFRAME / PGSIZE < TRAMPOLINE / PGSIZE := by decide
  unfold proc_pagetable
  rw [if_neg (by omega), if_neg (by omega)]

theorem proc_pagetable_some {v : Nat} (h : (proc_pagetable v).isSome) :
    v = TRAPFRAME / PGSIZE ∨ v = TRAMPOLINE / PGSIZE := by
  by_contra hout
  rw [not_or] at hout
  rw [proc_pagetable, if_neg hout.2, if_neg hout.1] at h
  cases h

/-- The copy never panics, and what is above the size is that of the new table. -/
theorem WellFormed.uvmcopy (h : WellFormed sp) (mem : Memory) :
    ∃ pt done, uvmcopy sp.pagetable proc_pagetable sp.sz mem = .ok (pt, done) ∧
      (∀ w, pages sp.sz ≤ w → pt w = proc_pagetable w) ∧ (done = false → pt = proc_pagetable) := by
  have hpages := pages_le h.size
  have htrap := trapframe_lt
  obtain ⟨new, stop, heq, hsame, hstop⟩ := @uvmcopyLoop_ok sp.pagetable proc_pagetable
    (pages sp.sz) 0 mem (by omega)
    fun w _ hw => proc_pagetable_below (by omega)
  rw [Nat.zero_mul] at heq
  have hturns : (sp.sz + PGSIZE - 1) / PGSIZE = pages sp.sz := rfl
  unfold vm.uvmcopy
  rw [hturns, heq]
  cases stop with
  | none => exact ⟨new, true, rfl, fun w hw => hsame w (by omega), fun hdone => by cases hdone⟩
  | some i =>
    obtain ⟨u, rfl, -, hle, hrest⟩ := hstop i rfl
    simp only
    rw [Nat.mul_div_cancel _ (by decide), uvmunmap_first (by omega)]
    -- the pages that were copied are gone again
    have hback : overlay new 0 u none = proc_pagetable := by
      funext w
      unfold overlay
      split
      · rw [proc_pagetable_below (by omega)]
      · exact hrest w (by omega)
    rw [hback]
    exact ⟨_, _, rfl, fun _ _ => rfl, fun _ => rfl⟩

theorem proc_pagetable_trapframe : (proc_pagetable (TRAPFRAME / PGSIZE)).isSome := by
  have hdiv : TRAPFRAME / PGSIZE < TRAMPOLINE / PGSIZE := by decide
  unfold proc_pagetable
  rw [if_neg (Nat.ne_of_lt hdiv), if_pos rfl]
  rfl

theorem proc_pagetable_trampoline : (proc_pagetable (TRAMPOLINE / PGSIZE)).isSome := by
  unfold proc_pagetable
  rw [if_pos rfl]
  rfl

/-- A table that is a new one above the size. -/
theorem wellFormed_of_new {sz : Nat} {pt : PageTable} (hsz : sz ≤ TRAPFRAME)
    (hkernel : ∀ w, pages sz ≤ w → pt w = proc_pagetable w) :
    WellFormed { sz, pagetable := pt } := by
  have hpages := pages_le hsz
  have hdiv : TRAPFRAME / PGSIZE < TRAMPOLINE / PGSIZE := by decide
  refine ⟨hsz, fun v hv => ?_, ?_, ?_⟩
  · by_cases hlt : v < pages sz
    · exact Or.inl hlt
    · change (pt v).isSome = true at hv
      rw [hkernel v (by omega)] at hv
      exact Or.inr (proc_pagetable_some hv)
  · change (pt (TRAPFRAME / PGSIZE)).isSome = true
    rw [hkernel _ hpages]
    exact proc_pagetable_trapframe
  · change (pt (TRAMPOLINE / PGSIZE)).isSome = true
    rw [hkernel _ (by omega)]
    exact proc_pagetable_trampoline

/-- A table without pages of the user is freed. -/
theorem proc_freepagetable_new : proc_freepagetable proc_pagetable 0 = .ok () :=
  proc_freepagetable_ok (Nat.zero_le _) fun _ hv => Or.inr (proc_pagetable_some hv)

theorem kfork_failed {mem mem' : Memory} {pt : PageTable} (hk : kalloc mem = some mem')
    (heq : uvmcopy sp.pagetable proc_pagetable sp.sz mem' = .ok (pt, false))
    (hfree : proc_freepagetable pt 0 = .ok ()) : kfork sp mem = .ok none := by
  unfold kfork
  rw [hk]
  simp only
  rw [heq]
  exact congrArg (Except.map fun _ => none) hfree

theorem kfork_done {mem mem' : Memory} {pt : PageTable} (hk : kalloc mem = some mem')
    (heq : uvmcopy sp.pagetable proc_pagetable sp.sz mem' = .ok (pt, true)) :
    kfork sp mem = .ok (some { sz := sp.sz, pagetable := pt }) := by
  unfold kfork
  rw [hk]
  simp only [heq]

theorem WellFormed.kfork (h : WellFormed sp) (mem : Memory) :
    ∃ child, kfork sp mem = .ok child ∧ ∀ sp', child = some sp' → WellFormed sp' := by
  cases hk : kalloc mem with
  | none =>
    unfold vm.kfork
    rw [hk]
    exact ⟨none, rfl, fun sp' heq => by cases heq⟩
  | some mem' =>
    obtain ⟨pt, done, heq, hkernel, hfailed⟩ := h.uvmcopy mem'
    cases done with
    | false =>
      have hfree : proc_freepagetable pt 0 = .ok () := by
        rw [hfailed rfl]
        exact proc_freepagetable_new
      exact ⟨none, kfork_failed hk heq hfree, fun sp' heq' => by cases heq'⟩
    | true =>
      refine ⟨_, kfork_done hk heq, fun sp' hsp' => ?_⟩
      rw [← Option.some.inj hsp']
      exact wellFormed_of_new h.size hkernel

/-! ## The result -/

/-- Every process is well formed, and nothing has panicked. -/
structure Sound (s : State) : Prop where
  procs : ∀ p sp, s.procs p = some sp → WellFormed sp
  panicked : s.panicked = none

theorem Sound.below {s : State} (h : Sound s) : Below s where
  size p sp hp := (h.procs p sp hp).size
  walk := by simp [h.panicked]
  remap := by simp [h.panicked]

theorem Sound.settle {s : State} {p : Nat} {r : Option Space} (h : Sound s)
    (hr : ∀ sp, r = some sp → WellFormed sp) : Sound (s.settle p (.ok r)) where
  procs q sp hq := by
    by_cases hqp : q = p
    · subst hqp
      exact hr sp (by simpa [State.settle] using hq)
    · exact h.procs q sp (by simpa [State.settle, hqp] using hq)
  panicked := h.panicked

/-- A step that asks for memory below the trapframe, and one that asks for more. -/
theorem Sound.step {s s' : State} {a : Act} (h : Sound s) (hs : s.step a = some s') :
    (asksBelow s a → Sound s') ∧ (¬ asksBelow s a → ¬ Below s') := by
  cases a with
  | sbrk p n t mem =>
    simp only [State.step] at hs
    simp only [asksBelow]
    cases hp : s.procs p with
    | none =>
      rw [hp] at hs
      cases hs
    | some sp =>
      rw [hp] at hs
      simp only at hs ⊢
      split at hs
      · rename_i hguard
        have hwf := h.procs p sp hp
        constructor
        · intro hok
          obtain ⟨sp', r, heq, hwf'⟩ := hwf.sbrk hguard.2 hok
          rw [heq] at hs
          cases hs
          refine h.settle fun q hq => ?_
          cases hq
          exact hwf'
        · intro hbad hbelow
          rcases hwf.sbrk_over hguard.2 hbad with heq | ⟨sp', r, heq, hover⟩
          · rw [heq] at hs
            cases hs
            exact hbelow.remap rfl
          · rw [heq] at hs
            cases hs
            have hle := hbelow.size p sp' (by simp [State.settle, Except.map])
            omega
      · cases hs
  | access p a mem =>
    refine ⟨fun _ => ?_, fun hbad => absurd trivial hbad⟩
    simp only [State.step] at hs
    split at hs
    · cases hs
    · rename_i sp hp
      split at hs
      · have hwf := h.procs p sp hp
        obtain ⟨sp', r, heq, hfilled⟩ := hwf.access a mem
        rw [heq] at hs
        cases hs
        refine h.settle fun q hq => ?_
        cases hq
        exact hfilled.wellFormed hwf
      · cases hs
  | fork p child mem =>
    refine ⟨fun _ => ?_, fun hbad => absurd trivial hbad⟩
    simp only [State.step] at hs
    split at hs
    · cases hs
    · rename_i sp hp
      split at hs
      · obtain ⟨r, heq, hwf⟩ := (h.procs p sp hp).kfork mem
        rw [heq] at hs
        cases hs
        exact h.settle hwf
      · cases hs
  | exit p =>
    refine ⟨fun _ => ?_, fun hbad => absurd trivial hbad⟩
    simp only [State.step] at hs
    split at hs
    · cases hs
    · rename_i sp hp
      split at hs
      · have hwf := h.procs p sp hp
        rw [proc_freepagetable_ok hwf.size hwf.below] at hs
        cases hs
        exact h.settle fun q hq => by cases hq
      · cases hs

/-- Every state of a run keeps the processes below the trapframe, and neither `walk` nor
`mappages` panics in it, exactly when no call of `sbrk` in it asks for memory above. -/
theorem user_memory_stays_below_iff {sp : Space} (hsp : WellFormed sp) (as : List Act) (s : State) :
    Run State.step (fun s a => ∀ s', s.step a = some s' → Below s') (.start sp) as s ↔
      Run State.step asksBelow (.start sp) as s := by
  have hstart : Sound (.start sp) := by
    refine ⟨fun p sp' hp => ?_, rfl⟩
    by_cases hp0 : p = 0
    · subst hp0
      obtain rfl : sp = sp' := by simpa [State.start] using hp
      exact hsp
    · simp [State.start, hp0] at hp
  have hsound : ∀ {as : List Act} {s : State}, Run State.step asksBelow (.start sp) as s → Sound s :=
    fun hrun => hrun.invariant hstart fun _ _ _ h hok hs => (h.step hs).1 hok
  constructor
  · intro hrun
    induction hrun with
    | nil => exact .nil
    | snoc _ hok hs ih =>
      refine .snoc ih ?_ hs
      by_contra hbad
      exact ((hsound ih).step hs).2 hbad (hok _ hs)
  · intro hrun
    induction hrun with
    | nil => exact .nil
    | snoc hrun hok hs ih =>
      refine .snoc ih (fun s' hs' => ?_) hs
      exact (((hsound hrun).step hs').1 hok).below

/-- A process without memory, as `allocproc` makes it. -/
theorem wellFormed_fresh : WellFormed { sz := 0, pagetable := proc_pagetable } :=
  wellFormed_of_new (Nat.zero_le _) fun _ _ => rfl

/-- A process grows, uses a page that is not there yet, and shrinks. -/
theorem a_small_process_stays_below : ∃ s : State,
    Run State.step (fun s a => ∀ s', s.step a = some s' → Below s')
      (.start { sz := 0, pagetable := proc_pagetable })
      [.sbrk 0 8192 SBRK_LAZY none, .access 0 (.store 4100 [7] (by decide)) none, .sbrk 0 (-4096) SBRK_EAGER none] s ∧
    (s.procs 0).map (·.sz) = some 4096 := by
  have hcomputed : (exec State.step asksBelow (.start { sz := 0, pagetable := proc_pagetable })
      [.sbrk 0 8192 SBRK_LAZY none, .access 0 (.store 4100 [7] (by decide)) none,
        .sbrk 0 (-4096) SBRK_EAGER none]).any
      (fun s => (s.procs 0).map (·.sz) = some 4096) = true := by
    decide +kernel
  obtain ⟨s, hs, hend⟩ := (Option.any_eq_true _ _).mp hcomputed
  exact ⟨s, (user_memory_stays_below_iff wellFormed_fresh _ s).mpr (run_of_exec hs),
    of_decide_eq_true hend⟩

/-- 129 lazy calls of `sbrk` take the size over the trapframe and over `MAXVA`, and a load at
`MAXVA` makes `walk` panic. -/
theorem lazy_calls_reach_the_trapframe : ¬ ∀ (sp : Space), WellFormed sp → ∀ (as : List Act)
    (s : State), Run State.step anyStep (.start sp) as s → Below s := by
  intro h
  have hcomputed : (exec State.step anyStep (.start { sz := 0, pagetable := proc_pagetable })
      (.replicate 129 (.sbrk 0 2147483647 SBRK_LAZY none) ++ [.access 0 (.load MAXVA 1 (by decide)) none])).any
      (fun s => s.panicked = some .walk) = true := by
    decide +kernel
  obtain ⟨s, hs, hend⟩ := (Option.any_eq_true _ _).mp hcomputed
  exact (h _ wellFormed_fresh _ s (run_of_exec hs)).walk (of_decide_eq_true hend)

end xv6.vm
