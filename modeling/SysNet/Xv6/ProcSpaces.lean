-- The processes and their memory (kernel/proc.c, kernel/vm.c): each has a
-- trapframe and a space of its own, and a call of one of them moves pages
-- between the free ones and its own.
import SysNet.Xv6.ExecBuild

open bytes radix shares

namespace xv6.spaces

open vm (PGSIZE MAXVA TRAMPOLINE TRAPFRAME uint64 PGROUNDUP PGROUNDDOWN)
open pagetable

variable {k : Image} {m m' : Mem} {root a b pa va p q n sz turns : Nat} {hand : List Nat} {x : Mapping}
  {pr : Proc} {src : List UInt8}

/-! ## Page faults -/

section

variable {M M' M'' : Map}

/-- Pages that were missing below the size have been added for the user. -/
def Faulted (M M' : Map) (sz : Nat) : Prop :=
  ∀ q, M' q = M q ∨
    M q = none ∧ q < npages sz ∧ ∃ b, M' q = some ⟨b, PTE_W ||| PTE_U ||| PTE_R⟩

theorem Faulted.refl (M : Map) (sz : Nat) : Faulted M M sz := fun _ => Or.inl rfl

theorem Faulted.trans (h : Faulted M M' sz) (h' : Faulted M' M'' sz) : Faulted M M'' sz := by
  intro q
  rcases h' q with heq' | ⟨hnone, hlt, hsome⟩
  · rw [heq']
    exact h q
  · rcases h q with heq | ⟨hnone', hlt', -⟩
    · exact Or.inr ⟨heq ▸ hnone, hlt, hsome⟩
    · exact Or.inr ⟨hnone', hlt, hsome⟩

theorem Faulted.one (hM : M q = none) (hq : q < npages sz) (b : Nat) :
    Faulted M (M.map q 1 b (PTE_W ||| PTE_U ||| PTE_R)) sz := by
  intro p
  by_cases hpq : p = q
  · subst hpq
    exact Or.inr ⟨hM, hq, b, map_at ..⟩
  · exact Or.inl (map_of_ne hpq)

theorem Faulted.high (h : Faulted M M' sz) (hq : npages sz ≤ q) : M' q = M q :=
  (h q).resolve_right fun ⟨_, hlt, _⟩ => absurd hlt (Nat.not_lt.mpr hq)

/-- The page that is missing is added, or the memory ends, or it is not the process's. -/
theorem Space.vmfault (h : Space k m root M hand) (hroot : pr.pagetable = root) (hsz : pr.sz ≤ TRAPFRAME)
    (va : Nat) :
    ∃ m' pa M', vmfault k m pr root va = .ok (m', pa) ∧ Space k m' root M' hand ∧
      Moved m m' (hand ++ share m root M) (hand ++ share m' root M') ∧ Faulted M M' pr.sz ∧
      Contents m m' M M' ∧ (pa = 0 ∧ M' = M ∨ pa ≠ 0 ∧ va < pr.sz ∧ M (va / PGSIZE) = none ∧
        M' = M.map (va / PGSIZE) 1 pa (PTE_W ||| PTE_U ||| PTE_R)) := by
  unfold spaces.vmfault
  have hnothing : ∃ m' pa M', (Except.ok (m, 0) : Except Panic (Mem × Nat)) = .ok (m', pa) ∧
      Space k m' root M' hand ∧ Moved m m' (hand ++ share m root M) (hand ++ share m' root M') ∧
      Faulted M M' pr.sz ∧ Contents m m' M M' ∧ (pa = 0 ∧ M' = M ∨ pa ≠ 0 ∧ va < pr.sz ∧
        M (va / PGSIZE) = none ∧ M' = M.map (va / PGSIZE) 1 pa (PTE_W ||| PTE_U ||| PTE_R)) :=
    ⟨m, 0, M, rfl, h, .refl m _, .refl M _, .refl m M, Or.inl ⟨rfl, rfl⟩⟩
  by_cases hbig : pr.sz ≤ va
  · rw [if_pos hbig]
    exact hnothing
  have hdown := PGROUNDDOWN_div va
  have hle : PGROUNDDOWN va ≤ va := Nat.div_mul_le_self va PGSIZE
  have hmax : TRAPFRAME ≤ MAXVA := by decide
  have hva : PGROUNDDOWN va < MAXVA := by omega
  have hq : va / PGSIZE < npages pr.sz := by
    rw [lt_npages hsz]
    have := Nat.div_mul_le_self va PGSIZE
    omega
  have hqu : va / PGSIZE < USER := Nat.lt_of_lt_of_le hq (npages_le hsz)
  rw [if_neg hbig, ismapped_eq hva, ok_bind]
  by_cases hmapped : entry m root (PGROUNDDOWN va) &&& PTE_V ≠ 0
  · rw [decide_eq_true hmapped, if_pos rfl]
    exact hnothing
  have hM : M (va / PGSIZE) = none := by
    cases hM : M (va / PGSIZE) with
    | none => rfl
    | some x =>
      rw [h.represents.present _ hva x (by rw [hdown, hM])] at hmapped
      exact absurd (leaf_valid x.pa x.perm) hmapped
  rw [decide_eq_false hmapped, if_neg Bool.false_ne_true]
  cases hfree : m.freelist with
  | nil =>
    rw [kalloc_none hfree]
    exact hnothing
  | cons b free =>
    obtain ⟨m₁, hkalloc, -, h₁, -, hmoved₁, hsame₁⟩ := h.take hfree
    obtain ⟨h₂, -, hmoved₂⟩ := h₁.fill (show (m₁.memset b 0).freelist = m₁.freelist from rfl)
      fun a ha => memset_page ha 0
    obtain ⟨m₃, done, heq₃, -, hdone, hkeep⟩ := h₂.add hqu hM (show PTE_W ||| PTE_U ||| PTE_R < 1024 by decide)
    obtain ⟨huser, hzero⟩ := h₂.kept hsame₁ hkeep
    have hb : b ≠ 0 := Nat.ne_of_gt
      (isPage_of_freeable (h₂.pages.page b (List.mem_append_right _ List.mem_cons_self))).2.1
    have haddr : PGROUNDDOWN va = va / PGSIZE * PGSIZE := rfl
    rw [hkalloc, hroot, haddr]
    simp only []
    rw [heq₃, ok_bind]
    rcases hdone with ⟨rfl, h₃, hmoved₃⟩ | ⟨rfl, h₃, hmoved₃⟩
    · rw [if_pos rfl]
      exact ⟨m₃, b, _, rfl, h₃, hmoved₁.trans (hmoved₂.trans hmoved₃), .one hM hq b, .one hM huser hzero,
        Or.inr ⟨hb, Nat.lt_of_not_le hbig, hM, rfl⟩⟩
    · obtain ⟨heq₄, h₄, hmoved₄⟩ := h₃.give
      rw [if_neg Bool.false_ne_true, heq₄, ok_bind]
      refine ⟨_, 0, M, rfl, h₄, hmoved₁.trans (hmoved₂.trans (hmoved₃.trans hmoved₄)), .refl M _,
        .of_kept fun a ha => ?_, Or.inl ⟨rfl, rfl⟩⟩
      have hab : a ≠ b := fun hab => h₃.hand_not_user List.mem_cons_self (hab ▸ ha)
      rw [free_page hab, huser a ha]

/-- The user's flag is on the user's pages only. -/
def Guarded (M : Map) : Prop := ∀ q x, USER ≤ q → M q = some x → x.perm &&& PTE_U = 0

theorem Guarded.faulted (h : Guarded M) (hf : Faulted M M' sz) (hsz : sz ≤ TRAPFRAME) : Guarded M' := by
  intro q x hq hx
  have := npages_le hsz
  rw [hf.high (by omega)] at hx
  exact h q x hq hx

/-- A page of the process is there, or it is added. -/
theorem Space.fetch (h : Space k m root M hand) (hguard : Guarded M) (hroot : pr.pagetable = root)
    (hsz : pr.sz ≤ TRAPFRAME) (va : Nat) :
    ∃ m' pa M', fetch k m pr root va = .ok (m', pa) ∧ Space k m' root M' hand ∧
      Moved m m' (hand ++ share m root M) (hand ++ share m' root M') ∧ Faulted M M' pr.sz ∧
      (pa ≠ 0 → va / PGSIZE < USER ∧ ∃ x, M' (va / PGSIZE) = some x ∧ x.pa = pa) := by
  unfold spaces.fetch
  rw [h.represents.walkaddr va, ok_bind]
  by_cases hzero : M.lookup va = 0
  · obtain ⟨m', pa, M', heq, h', hmoved, hfault, -, hpa⟩ := h.vmfault hroot hsz va
    rw [if_pos hzero]
    have hat : pa ≠ 0 → M' (va / PGSIZE) = some ⟨pa, PTE_W ||| PTE_U ||| PTE_R⟩ := by
      intro hne
      rcases hpa with ⟨h0, -⟩ | ⟨-, -, -, rfl⟩
      · exact absurd h0 hne
      · exact map_at ..
    refine ⟨m', pa, M', heq, h', hmoved, hfault, fun hne => ⟨?_, ⟨pa, _⟩, hat hne, rfl⟩⟩
    apply Nat.lt_of_not_le
    intro hq
    have hu : (PTE_W ||| PTE_U ||| PTE_R) &&& PTE_U ≠ 0 := by decide
    exact hu ((hguard.faulted hfault hsz) _ _ hq (hat hne))
  · rw [if_neg hzero]
    refine ⟨m, _, M, rfl, h, .refl m _, .refl M _, fun hne => ?_⟩
    unfold Map.lookup at hne ⊢
    cases hM : M (va / PGSIZE) with
    | none =>
      rw [hM, Option.elim_none] at hne
      exact absurd rfl hne
    | some x =>
      rw [hM, Option.elim_some] at hne
      by_cases hu : x.perm &&& PTE_U = 0
      · rw [if_pos hu] at hne
        exact absurd rfl hne
      · rw [Option.elim_some, if_neg hu]
        exact ⟨Nat.lt_of_not_le fun hq => hu (hguard _ x hq hM), x, rfl, rfl⟩

/-- Bytes are copied to the memory of the process, as far as they can be. -/
theorem Space.copyoutFaulting (va : Nat) (h : Space k m root M hand) (hguard : Guarded M) (hroot : pr.pagetable = root)
    (hsz : pr.sz ≤ TRAPFRAME) (hturns : src.length ≤ turns) :
    ∃ m' done M', spaces.copyoutLoop k pr root turns m va src = .ok (m', done) ∧ Space k m' root M' hand ∧
      Moved m m' (hand ++ share m root M) (hand ++ share m' root M') ∧ Faulted M M' pr.sz := by
  induction turns generalizing m M va src with
  | zero =>
    obtain rfl := List.eq_nil_of_length_eq_zero (Nat.eq_zero_of_le_zero hturns)
    exact ⟨m, true, M, rfl, h, .refl m _, .refl M _⟩
  | succ turns ih =>
    rw [spaces.copyoutLoop]
    by_cases hnil : src = []
    · rw [if_pos hnil]
      exact ⟨m, true, M, rfl, h, .refl m _, .refl M _⟩
    by_cases hbig : MAXVA ≤ PGROUNDDOWN va
    · rw [if_neg hnil, if_pos hbig]
      exact ⟨m, false, M, rfl, h, .refl m _, .refl M _⟩
    obtain ⟨m₁, pa, M₁, heq₁, h₁, hmoved₁, hfault₁, hpa⟩ := h.fetch hguard hroot hsz (PGROUNDDOWN va)
    have hva : PGROUNDDOWN va < MAXVA := Nat.not_le.mp hbig
    rw [if_neg hnil, if_neg hbig, heq₁, ok_bind]
    simp only []
    by_cases hzero : pa = 0
    · rw [if_pos hzero]
      exact ⟨m₁, false, M₁, rfl, h₁, hmoved₁, hfault₁⟩
    obtain ⟨huser, x, hx, rfl⟩ := hpa hzero
    obtain ⟨t, -, -, hwalk⟩ := walk_mapped h₁.represents hva hx
    rw [if_neg hzero, hwalk, ok_bind]
    simp only []
    by_cases hwrite : m₁.pte t (PX 0 (PGROUNDDOWN va)) &&& PTE_W = 0
    · rw [if_pos hwrite]
      exact ⟨m₁, false, M₁, rfl, h₁, hmoved₁, hfault₁⟩
    rw [if_neg hwrite]
    have hlen : 0 < src.length := List.length_pos_of_ne_nil hnil
    have hoff : va - PGROUNDDOWN va < PGSIZE := by
      unfold PGROUNDDOWN PGSIZE
      omega
    obtain ⟨h₂, hmoved₂⟩ := h₁.write (mem_userPages huser hx) (va - PGROUNDDOWN va)
      (src.take (min (PGSIZE - (va - PGROUNDDOWN va)) src.length))
    obtain ⟨m', done, M', heq, h', hmoved', hfault'⟩ := ih (uint64 (PGROUNDDOWN va + PGSIZE)) h₂
      (hguard.faulted hfault₁ hsz)
      (show (src.drop (min (PGSIZE - (va - PGROUNDDOWN va)) src.length)).length ≤ turns by
        rw [List.length_drop]
        omega)
    exact ⟨m', done, M', heq, h', hmoved₁.trans (hmoved₂.trans hmoved'), hfault₁.trans hfault'⟩

end

/-! ## The process table -/

/-- What a process holds: the trapframe, the tables and the user's pages. -/
def held (m : Mem) (p : Proc) (M : Map) : List Nat :=
  if p.used = true then p.trapframe :: share m p.pagetable M else []

theorem held_used {M : Map} (h : pr.used = true) : held m pr M = [pr.trapframe] ++ share m pr.pagetable M := by
  unfold held
  rw [if_pos h, List.singleton_append]

theorem held_unused {M : Map} (h : pr.used = false) : held m pr M = [] := by
  unfold held
  rw [h, if_neg Bool.false_ne_true]

/-- The page table of a process: the user's pages are below its size, the trapframe and the trampoline
above them. -/
structure Layout (k : Image) (m : Mem) (p : Proc) (M : Map) : Prop where
  represents : Represents m p.pagetable M
  size : p.sz ≤ TRAPFRAME
  above : ∀ q, npages p.sz ≤ q → q < USER → M q = none
  kernel : ∀ q, USER ≤ q → M q = kernelMap k p.trapframe q

variable {s s' s'' : State} {M M' M'' : Nat → Map} {others others' : List Nat} {i j : Nat}

def holds (s : State) (M : Nat → Map) (i : Nat) : List Nat := held s.mem (s.proc i) (M i)

def slots : List Nat := List.range NPROC

theorem mem_slots : i ∈ slots ↔ i < NPROC := List.mem_range

theorem nodup_slots : slots.Nodup := List.nodup_range

/-- The pages that are not free: those of the processes, and those that other parts of the kernel
have. -/
def everyones (s : State) (M : Nat → Map) (others : List Nat) : List Nat := total others (holds s M) slots

/-- No two have a page in common. -/
structure System (k : Image) (s : State) (M : Nat → Map) (others : List Nat) : Prop where
  pages : Pages k s.mem (everyones s M others)
  layout : ∀ i < NPROC, (s.proc i).used = true → Layout k s.mem (s.proc i) (M i)
  unused : ∀ i < NPROC, (s.proc i).used = false → s.proc i = .free

/-- What the others have, seen from a slot. -/
def rest (s : State) (M : Nat → Map) (others : List Nat) (i : Nat) : List Nat :=
  others ++ (slots.erase i).flatMap (holds s M)

theorem System.split (h : System k s M others) (hi : i < NPROC) :
    Pages k s.mem (holds s M i ++ rest s M others i) := by
  apply h.pages.reorder
  apply (total_split (mem_slots.mpr hi)).trans
  unfold rest
  rw [← List.append_assoc]
  exact List.perm_append_comm.append_right _

theorem mem_rest (hj : j < NPROC) (hne : j ≠ i) (ha : a ∈ holds s M j) : a ∈ rest s M others i := by
  apply List.mem_append_right
  exact List.mem_flatMap.mpr ⟨j, (List.mem_erase_of_ne hne).mpr (mem_slots.mpr hj), ha⟩

theorem isTable_held {N : Map} (hused : pr.used = true) (ha : IsTable m pr.pagetable a) : a ∈ held m pr N := by
  rw [held_used hused]
  exact List.mem_append_right _ (List.mem_append_left _ (mem_tablesOf.mpr ha))

theorem user_held {N : Map} (hused : pr.used = true) (ha : a ∈ userPages N) : a ∈ held m pr N := by
  rw [held_used hused]
  exact List.mem_append_right _ (List.mem_append_right _ ha)

/-- What a process holds, as long as no one touches it. -/
theorem held_congr {N : Map} (h : ∀ a ∈ held m pr N, m'.page a = m.page a) : held m' pr N = held m pr N := by
  cases hused : pr.used with
  | false => rw [held_unused hused, held_unused hused]
  | true =>
    rw [held_used hused, held_used hused]
    unfold share
    rw [tablesOf_congr fun a ha => h a (isTable_held hused ha)]

theorem Layout.congr {N : Map} (h : Layout k m pr N) (hused : pr.used = true)
    (hs : ∀ a ∈ held m pr N, m'.page a = m.page a) : Layout k m' pr N :=
  ⟨h.represents.congr fun a ha => hs a (isTable_held hused ha), h.size, h.above, h.kernel⟩

/-- A step at one slot. -/
structure Turn (k : Image) (s s' : State) (M M' : Nat → Map) (others : List Nat) (i : Nat) : Prop where
  system : System k s' M' others
  moved : Moved s.mem s'.mem (holds s M i) (holds s' M' i)
  proc : ∀ j, j ≠ i → s'.proc j = s.proc j
  map : ∀ j, j ≠ i → M' j = M j

theorem Turn.trans (h : Turn k s s' M M' others i) (h' : Turn k s' s'' M' M'' others i) :
    Turn k s s'' M M'' others i := by
  refine ⟨h'.system, h.moved.trans h'.moved, fun j hj => ?_, fun j hj => ?_⟩
  · rw [h'.proc j hj, h.proc j hj]
  · rw [h'.map j hj, h.map j hj]

/-- The pages of the others are as they were. -/
theorem Turn.page (h : Turn k s s' M M' others i) (hs : System k s M others) (hi : i < NPROC)
    (ha : a ∈ rest s M others i) : s'.mem.page a = s.mem.page a :=
  h.moved.page_of_frame (hs.split hi) ha

theorem Turn.everyones (h : Turn k s s' M M' others i) (hs : System k s M others) (hi : i < NPROC) :
    Moved s.mem s'.mem (everyones s M others) (everyones s' M' others) := by
  have hother : ∀ j ∈ slots, j ≠ i → holds s' M' j = holds s M j := by
    intro j hj hne
    unfold holds
    rw [h.proc j hne, h.map j hne]
    exact held_congr fun a ha => h.page hs hi (mem_rest (mem_slots.mp hj) hne ha)
  refine ⟨?_, fun a ha => h.moved.outside a fun hm => ha ?_⟩
  · unfold spaces.everyones total
    have hflat : (total s'.mem.freelist (holds s' M') slots).Perm (total s.mem.freelist (holds s M) slots) :=
      total_move nodup_slots (mem_slots.mpr hi) hother h.moved.conserved
    unfold total at hflat
    rw [List.perm_iff_count] at hflat ⊢
    intro a
    have ha := hflat a
    simp only [List.count_append] at ha ⊢
    omega
  · refine (List.mem_append.mp hm).elim (List.mem_append_left _) fun hm => ?_
    exact List.mem_append_right _ (mem_total_of_own (mem_slots.mpr hi) hm)

/-- A process gets other fields and another space, out of the free pages and its own. -/
theorem System.turn {p : Proc} {N : Map} (h : System k s M others) (hi : i < NPROC)
    (hm : Moved s.mem m' (holds s M i) (held m' p N)) (hlayout : p.used = true → Layout k m' p N)
    (hunused : p.used = false → p = .free) :
    Turn k s ({ s with mem := m' }.set i p) M (Function.update M i N) others i := by
  have hsame : ∀ a ∈ rest s M others i, m'.page a = s.mem.page a :=
    fun a ha => hm.page_of_frame (h.split hi) ha
  have hproc : ∀ j, j ≠ i → (({ s with mem := m' } : State).set i p).proc j = s.proc j :=
    fun j hj => Function.update_of_ne hj ..
  have hmap : ∀ j, j ≠ i → Function.update M i N j = M j := fun j hj => Function.update_of_ne hj ..
  have hself : (({ s with mem := m' } : State).set i p).proc i = p := Function.update_self ..
  have hmself : Function.update M i N i = N := Function.update_self ..
  generalize hs' : ({ s with mem := m' } : State).set i p = s' at *
  have hmem : s'.mem = m' := by
    rw [← hs']
    rfl
  generalize Function.update M i N = M' at *
  subst hmem
  have hholds : holds s' M' i = held s'.mem p N := by
    unfold holds
    rw [hself, hmself]
  have hmoved : Moved s.mem s'.mem (holds s M i) (holds s' M' i) := by
    rw [hholds]
    exact hm
  have hother : ∀ j < NPROC, j ≠ i → holds s' M' j = holds s M j := by
    intro j hj hne
    unfold holds
    rw [hproc j hne, hmap j hne]
    exact held_congr fun a ha => hsame a (mem_rest hj hne ha)
  refine ⟨⟨?_, fun j hj hused => ?_, fun j hj hused => ?_⟩, hmoved, hproc, hmap⟩
  · have hrest : rest s' M' others i = rest s M others i := by
      unfold rest
      rw [List.flatMap_congr fun j hj => ?_]
      have hj := nodup_slots.mem_erase_iff.mp hj
      exact hother j (mem_slots.mp hj.2) hj.1
    have hpages := (h.split hi).moved (hmoved.frame _)
    rw [← hrest] at hpages
    apply hpages.reorder
    unfold rest spaces.everyones
    refine List.Perm.trans ?_ (total_split (mem_slots.mpr hi)).symm
    rw [← List.append_assoc]
    exact List.perm_append_comm.append_right _
  · by_cases hne : j = i
    · subst hne
      rw [hself] at hused ⊢
      rw [hmself]
      exact hlayout hused
    · rw [hproc j hne] at hused ⊢
      rw [hmap j hne]
      exact (h.layout j hj hused).congr hused fun a ha => hsame a (mem_rest hj hne ha)
  · by_cases hne : j = i
    · subst hne
      rw [hself] at hused ⊢
      exact hunused hused
    · rw [hproc j hne] at hused ⊢
      exact h.unused j hj hused

/-! ## The calls of a process -/

theorem System.space (h : System k s M others) (hi : i < NPROC) (hused : (s.proc i).used = true) :
    Space k s.mem (s.proc i).pagetable (M i) [(s.proc i).trapframe] := by
  refine ⟨(h.layout i hi hused).represents, ?_⟩
  rw [← held_used hused]
  exact (h.split hi).of_append

theorem System.nobody (h : System k s M others) : Pages k s.mem [] := Pages.of_append (A := []) h.pages

theorem Layout.guarded {N : Map} (h : Layout k m pr N) : Guarded N := by
  intro q x hq hx
  rw [h.kernel q hq] at hx
  unfold kernelMap at hx
  by_cases h₀ : q = USER
  · subst h₀
    rw [map_at] at hx
    cases hx
    exact (by decide : (PTE_R ||| PTE_W) &&& PTE_U = 0)
  · rw [map_of_ne h₀] at hx
    by_cases h₁ : q = USER + 1
    · subst h₁
      rw [map_at] at hx
      cases hx
      exact (by decide : (PTE_R ||| PTE_X) &&& PTE_U = 0)
    · rw [map_of_ne h₁] at hx
      cases hx

theorem freeable_ne_zero (h : Freeable k.kernelEnd a) : a ≠ 0 := Nat.ne_of_gt (isPage_of_freeable h).2.1

theorem Space.root_ne_zero {N : Map} (h : Space k m root N hand) : root ≠ 0 := by
  apply freeable_ne_zero (k := k)
  apply h.pages.page
  refine List.mem_append_right _ (List.mem_append_right _ (List.mem_append_left _ ?_))
  exact self_mem_tables ..

/-- The process has another size, and its user pages have changed. -/
theorem System.resize {N : Map} (h : System k s M others) (hi : i < NPROC) (hused : (s.proc i).used = true)
    (hspace : Space k m' (s.proc i).pagetable N [(s.proc i).trapframe])
    (hmoved : Moved s.mem m' ([(s.proc i).trapframe] ++ share s.mem (s.proc i).pagetable (M i))
      ([(s.proc i).trapframe] ++ share m' (s.proc i).pagetable N))
    (hsz : sz ≤ TRAPFRAME) (habove : ∀ q, npages sz ≤ q → q < USER → N q = none)
    (hkernel : ∀ q, USER ≤ q → N q = M i q) :
    Turn k s ({ s with mem := m' }.set i { s.proc i with sz }) M (Function.update M i N) others i := by
  have hafter : held m' { s.proc i with sz } N =
      [(s.proc i).trapframe] ++ share m' (s.proc i).pagetable N := held_used hused
  apply h.turn hi
  · unfold holds
    rw [held_used hused, hafter]
    exact hmoved
  · refine fun _ => ⟨hspace.represents, hsz, habove, fun q hq => ?_⟩
    rw [hkernel q hq]
    exact (h.layout i hi hused).kernel q hq
  · intro hfree
    exact absurd (hfree.symm.trans hused) Bool.false_ne_true

theorem State.set_same (s : State) (m' : Mem) (i : Nat) :
    ({ s with mem := m' } : State).set i { s.proc i with sz := (s.proc i).sz } = { s with mem := m' } := by
  unfold State.set
  rw [Function.update_eq_self]

/-- A fault, or a copy by the kernel, adds pages. -/
theorem System.faulted {N : Map} (h : System k s M others) (hi : i < NPROC) (hused : (s.proc i).used = true)
    (hspace : Space k m' (s.proc i).pagetable N [(s.proc i).trapframe])
    (hmoved : Moved s.mem m' ([(s.proc i).trapframe] ++ share s.mem (s.proc i).pagetable (M i))
      ([(s.proc i).trapframe] ++ share m' (s.proc i).pagetable N))
    (hfault : Faulted (M i) N (s.proc i).sz) :
    Turn k s { s with mem := m' } M (Function.update M i N) others i := by
  have hlayout := h.layout i hi hused
  have hpages := npages_le hlayout.size
  rw [← s.set_same m' i]
  apply h.resize hi hused hspace hmoved hlayout.size
  · intro q h₁ h₂
    rw [hfault.high h₁]
    exact hlayout.above q h₁ h₂
  · intro q hq
    exact hfault.high (by omega)

theorem System.vmfault (h : System k s M others) (hi : i < NPROC) (hused : (s.proc i).used = true) (va : Nat) :
    ∃ m' pa N, vmfault k s.mem (s.proc i) (s.proc i).pagetable va = .ok (m', pa) ∧
      Turn k s { s with mem := m' } M (Function.update M i N) others i := by
  obtain ⟨m', pa, N, heq, hspace, hmoved, hfault, -⟩ :=
    (h.space hi hused).vmfault rfl (h.layout i hi hused).size va
  exact ⟨m', pa, N, heq, h.faulted hi hused hspace hmoved hfault⟩

theorem System.copyout (h : System k s M others) (hi : i < NPROC) (hused : (s.proc i).used = true) (va : Nat)
    (src : List UInt8) :
    ∃ m' done N, copyout k s.mem (s.proc i) (s.proc i).pagetable va src = .ok (m', done) ∧
      Turn k s { s with mem := m' } M (Function.update M i N) others i := by
  have hlayout := h.layout i hi hused
  obtain ⟨m', done, N, heq, hspace, hmoved, hfault⟩ := (h.space hi hused).copyoutFaulting va hlayout.guarded rfl
    hlayout.size (Nat.le_refl src.length)
  exact ⟨m', done, N, heq, h.faulted hi hused hspace hmoved hfault⟩

/-- The size of a process that grows stays below the trapframe. -/
theorem System.growproc {n : Int} (h : System k s M others) (hi : i < NPROC) (hused : (s.proc i).used = true)
    (hn : (s.proc i).sz + n ≤ TRAPFRAME) :
    ∃ s' done N, growproc k s i n = .ok (s', done) ∧
      Turn k s s' M (Function.update M i N) others i := by
  have hlayout := h.layout i hi hused
  have hspace := h.space hi hused
  have htrap : TRAPFRAME < 18446744073709551616 := by decide
  have hsize := hlayout.size
  unfold spaces.growproc
  simp only []
  by_cases hpos : 0 < n
  · have hnew : uint64 ((s.proc i).sz + n) ≤ TRAPFRAME := by
      unfold uint64
      omega
    obtain ⟨m', r, heq, hgrow⟩ := hspace.uvmalloc hsize (Or.inl hnew) hlayout.above
      (show PTE_W < 1024 by decide)
    rw [if_pos hpos, heq, ok_bind]
    simp only []
    rcases hgrow with ⟨hr, hle, N, h', hmoved, hext, -⟩ | ⟨rfl, h', hmoved, -⟩
    · have hmono : npages (s.proc i).sz ≤ npages r := by
        rw [npages_eq hsize, npages_eq hle]
        omega
      have hrne : r ≠ 0 := by
        unfold uint64 at hr
        omega
      rw [if_neg hrne]
      refine ⟨_, true, N, rfl, h.resize hi hused h' hmoved hle (fun q h₁ h₂ => ?_) fun q hq => hext.high hle hq⟩
      rw [hext.others q (by omega)]
      exact hlayout.above q (by omega) h₂
    · rw [if_pos rfl]
      exact ⟨_, false, M i, rfl, h.faulted hi hused h' hmoved (.refl _ _)⟩
  · rw [if_neg hpos]
    by_cases hneg : n < 0
    · rw [if_pos hneg]
      by_cases hle : uint64 ((s.proc i).sz + n) ≤ (s.proc i).sz
      · obtain ⟨m', heq, h', hmoved, -⟩ := hspace.uvmdealloc hsize hle
        have hmono : npages (uint64 ((s.proc i).sz + n)) ≤ npages (s.proc i).sz := by
          rw [npages_eq hsize, npages_eq (Nat.le_trans hle hsize)]
          omega
        have hpages := npages_le hsize
        rw [heq, ok_bind]
        simp only []
        refine ⟨_, true, _, rfl, h.resize hi hused h' hmoved (Nat.le_trans hle hsize) (fun q h₁ h₂ => ?_)
          fun q hq => if_neg (by omega)⟩
        unfold Map.unmap
        by_cases hq : q < npages (s.proc i).sz
        · rw [if_pos (by omega)]
        · rw [if_neg (by omega)]
          exact hlayout.above q (by omega) h₂
      · have heq : uvmdealloc k s.mem (s.proc i).pagetable (s.proc i).sz (uint64 ((s.proc i).sz + n)) =
            .ok (s.mem, (s.proc i).sz) := by
          unfold spaces.uvmdealloc
          rw [if_pos (by omega)]
          rfl
        rw [heq, ok_bind]
        refine ⟨_, true, M i, rfl, ?_⟩
        simp only []
        rw [s.set_same]
        exact h.faulted hi hused hspace (.refl _ _) (.refl _ _)
    · rw [if_neg hneg]
      exact ⟨s, true, M i, rfl, h.faulted hi hused hspace (.refl _ _) (.refl _ _)⟩

theorem System.sys_sbrk {n : Int} (h : System k s M others) (hi : i < NPROC) (hused : (s.proc i).used = true)
    (hn : (s.proc i).sz + n ≤ TRAPFRAME) (eager : Bool) :
    ∃ s' r N, sys_sbrk k s i n eager = .ok (s', r) ∧
      Turn k s s' M (Function.update M i N) others i := by
  have hlayout := h.layout i hi hused
  unfold spaces.sys_sbrk
  simp only []
  by_cases heager : eager = true ∨ n < 0
  · obtain ⟨s', done, N, heq, hturn⟩ := h.growproc hi hused hn
    rw [if_pos heager, heq, ok_bind]
    cases done with
    | true => exact ⟨s', _, N, rfl, hturn⟩
    | false => exact ⟨s', _, N, rfl, hturn⟩
  · rw [if_neg heager]
    by_cases hwrap : uint64 ((s.proc i).sz + n) < (s.proc i).sz
    · rw [if_pos hwrap]
      exact ⟨s, none, M i, rfl, h.faulted hi hused (h.space hi hused) (.refl _ _) (.refl _ _)⟩
    · rw [if_neg hwrap]
      have hnew : uint64 ((s.proc i).sz + n) ≤ TRAPFRAME := by
        have htrap : TRAPFRAME < 18446744073709551616 := by decide
        unfold uint64
        omega
      refine ⟨_, _, M i, rfl, h.resize hi hused (h.space hi hused) (.refl _ _) hnew (fun q h₁ h₂ => ?_)
        fun _ _ => rfl⟩
      apply hlayout.above q _ h₂
      rw [npages_eq hlayout.size]
      rw [npages_eq hnew] at h₁
      omega

end xv6.spaces
