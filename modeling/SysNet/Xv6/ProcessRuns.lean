-- Runs of the processes: whatever they call and in whatever order, no page of
-- the memory is lost, and no process reaches what another one has.
import SysNet.Xv6.ForkExec

open bytes radix shares runs

namespace xv6.spaces

open vm (PGSIZE MAXVA TRAMPOLINE TRAPFRAME uint64 PGROUNDUP PGROUNDDOWN)
open pagetable

variable {k : Image} {m m' : Mem} {a pa pa' va va' n : Nat} {s s' : State} {M M' : Nat → Map}
  {others others' : List Nat} {i j np : Nat}

/-! ## Steps beside the processes -/

/-- Other parts of the kernel take pages and give them back. -/
theorem System.around (h : System k s M others) (hproc : s'.proc = s.proc)
    (hm : Moved s.mem s'.mem others others') :
    System k s' M others' ∧ Moved s.mem s'.mem (everyones s M others) (everyones s' M others') := by
  have hpages := h.pages
  unfold everyones total at hpages
  have hsame : ∀ i < NPROC, ∀ a ∈ holds s M i, s'.mem.page a = s.mem.page a := by
    intro i hi a ha
    exact hm.page_of_frame hpages (List.mem_flatMap.mpr ⟨i, mem_slots.mpr hi, ha⟩)
  have hholds : slots.flatMap (holds s' M) = slots.flatMap (holds s M) := by
    apply List.flatMap_congr
    intro i hi
    unfold holds
    rw [hproc]
    exact held_congr fun a ha => hsame i (mem_slots.mp hi) a ha
  have hmoved := hm.frame (slots.flatMap (holds s M))
  have hall : Moved s.mem s'.mem (everyones s M others) (everyones s' M others') := by
    unfold everyones total
    rw [hholds]
    exact hmoved
  refine ⟨⟨h.pages.moved hall, fun i hi hused => ?_, fun i hi hfree => ?_⟩, hall⟩
  · rw [hproc] at hused ⊢
    exact (h.layout i hi hused).congr hused fun a ha => hsame i hi a ha
  · rw [hproc] at hfree ⊢
    exact h.unused i hi hfree

theorem System.untouched (h : System k s M others) (hun : Untouched s s') :
    System k s' M others ∧ Moved s.mem s'.mem (everyones s M others) (everyones s' M others) :=
  h.around hun.proc (hun.moved.frame others)

theorem System.kfree (h : System k s M others) (ha : a ∈ others) :
    kfree k.kernelEnd s.mem a = .ok (s.mem.free a) ∧ Moved s.mem (s.mem.free a) others (others.erase a) := by
  have hothers : Pages k s.mem others := by
    have hpages := h.pages
    unfold everyones total at hpages
    exact hpages.of_append
  have hperm := List.perm_cons_erase ha
  obtain ⟨heq, hmoved⟩ := (hothers.reorder hperm).give
  exact ⟨heq, hmoved.reorder hperm.symm (.refl _)⟩

/-- What is in the pages changes, but for the tables. -/
theorem System.store (h : System k s M others) (hfree : m'.freelist = s.mem.freelist)
    (hsame : ∀ i < NPROC, (s.proc i).used = true → ∀ a, IsTable s.mem (s.proc i).pagetable a →
      m'.page a = s.mem.page a) :
    System k { s with mem := m' } M others ∧ everyones { s with mem := m' } M others = everyones s M others := by
  have hholds : everyones { s with mem := m' } M others = everyones s M others := by
    apply total_congr
    intro i hi
    change held m' (s.proc i) (M i) = held s.mem (s.proc i) (M i)
    cases hused : (s.proc i).used with
    | false => rw [held_unused hused, held_unused hused]
    | true =>
      rw [held_used hused, held_used hused]
      unfold share
      rw [tablesOf_congr fun a ha => hsame i (mem_slots.mp hi) hused a ha]
  refine ⟨⟨?_, fun i hi hused => ?_, h.unused⟩, hholds⟩
  · rw [hholds]
    refine ⟨?_, fun a ha => h.pages.page a ?_⟩
    · change (m'.freelist ++ _).Nodup
      rw [hfree]
      exact h.pages.nodup
    · change a ∈ m'.freelist ++ _ at ha
      rw [hfree] at ha
      exact ha
  · have hlayout := h.layout i hi hused
    exact ⟨hlayout.represents.congr fun a ha => hsame i hi hused a ha, hlayout.size, hlayout.above, hlayout.kernel⟩

/-! ## Runs -/

structure Kernel where
  state : State
  /-- the pages of pipes, of arguments on their way to `kexec`, of the kernel's stacks -/
  others : List Nat
  panicked : Option Panic

inductive Act
  | userinit
  | fork (i : Nat)
  | exec (i : Nat) (path : List UInt8) (file : Option (List UInt8)) (argv : List (List UInt8))
  /-- `kwait` has found a zombie -/
  | reap (i : Nat)
  | sbrk (i : Nat) (n : Int) (eager : Bool)
  | vmfault (i va : Nat)
  | copyout (i va : Nat) (src : List UInt8)
  | kalloc
  | kfree (pa : Nat)
  /-- programs run, and the kernel writes -/
  | store (mem : Mem)

def Kernel.took (c : Kernel) : Except Panic State → Kernel
  | .error e => { c with panicked := some e }
  | .ok s => { c with state := s }

def Kernel.step (k : Image) (c : Kernel) (a : Act) : Option Kernel :=
  if c.panicked.isSome then none
  else
    let s := c.state
    match a with
    | .userinit => some (c.took ((allocproc k s).map (·.1)))
    | .fork i => some (c.took ((kfork k s i).map (·.1)))
    | .exec i path file argv => some (c.took ((kexec k s i path file argv).map (·.1)))
    | .reap i => some (c.took (freeproc k s i))
    | .sbrk i n eager => some (c.took ((sys_sbrk k s i n eager).map (·.1)))
    | .vmfault i va =>
      some (c.took ((vmfault k s.mem (s.proc i) (s.proc i).pagetable va).map fun r => { s with mem := r.1 }))
    | .copyout i va src =>
      some (c.took ((copyout k s.mem (s.proc i) (s.proc i).pagetable va src).map fun r => { s with mem := r.1 }))
    | .kalloc =>
      let (m, pa) := pagetable.kalloc s.mem
      some { c with state := { s with mem := m }, others := pa.toList ++ c.others }
    | .kfree pa =>
      some ({ c with others := c.others.erase pa }.took
        ((pagetable.kfree k.kernelEnd s.mem pa).map fun m => { s with mem := m }))
    | .store mem => some { c with state := { s with mem } }

/-- The calls are those of processes that there are, and sizes stay below the trapframe. Arguments are
in a page each. No one writes in a page table. -/
def Call (c : Kernel) : Act → Prop
  | .userinit | .kalloc => True
  | .fork i | .reap i | .vmfault i _ | .copyout i _ _ => i < NPROC ∧ (c.state.proc i).used = true
  | .exec i _ _ argv =>
    i < NPROC ∧ (c.state.proc i).used = true ∧ argv.length < MAXARG ∧ ∀ arg ∈ argv, arg.length < PGSIZE
  | .sbrk i n _ => i < NPROC ∧ (c.state.proc i).used = true ∧ (c.state.proc i).sz + n ≤ TRAPFRAME
  | .kfree pa => pa ∈ c.others
  | .store mem => mem.freelist = c.state.mem.freelist ∧
      ∀ i < NPROC, (c.state.proc i).used = true → ∀ a, IsTable c.state.mem (c.state.proc i).pagetable a →
        mem.page a = c.state.mem.page a

/-- Before the first process. -/
structure Boot (k : Image) (c : Kernel) : Prop where
  safe : c.panicked = none
  unused : ∀ i < NPROC, c.state.proc i = .free
  pages : Pages k c.state.mem c.others

/-- What every state of a run has. -/
structure Valid (k : Image) (c₀ c : Kernel) (M : Nat → Map) : Prop where
  safe : c.panicked = none
  system : System k c.state M c.others
  conserved : (c.state.mem.freelist ++ everyones c.state M c.others).Perm (c₀.state.mem.freelist ++ c₀.others)

variable {c c' c₀ : Kernel} {act : Act} {as : List Act}

theorem Boot.valid (h : Boot k c₀) : Valid k c₀ c₀ fun _ _ => none := by
  have hnone : everyones c₀.state (fun _ _ => none) c₀.others = c₀.others := by
    unfold everyones total
    rw [List.flatMap_eq_nil_iff.mpr, List.append_nil]
    intro i hi
    unfold holds
    rw [h.unused i (mem_slots.mp hi)]
    exact held_unused rfl
  refine ⟨h.safe, ⟨?_, fun i hi hused => ?_, fun i hi _ => h.unused i hi⟩, ?_⟩
  · rw [hnone]
    exact h.pages
  · rw [h.unused i hi] at hused
    cases hused
  · rw [hnone]

/-- Who acts on its own memory. -/
def Act.actor : Act → Option Nat
  | .exec i _ _ _ | .reap i | .sbrk i _ _ | .vmfault i _ | .copyout i _ _ => some i
  | .userinit | .fork _ | .kalloc | .kfree _ | .store _ => none

def Act.stores : Act → Bool
  | .store _ => true
  | _ => false

/-- A process has what it had. -/
structure Kept (s s' : State) (M M' : Nat → Map) (j : Nat) : Prop where
  proc : s'.proc j = s.proc j
  map : M' j = M j
  page : ∀ a ∈ holds s M j, s'.mem.page a = s.mem.page a

/-- What one step does. -/
structure Stepped (k : Image) (c c' : Kernel) (act : Act) (M M' : Nat → Map) : Prop where
  safe : c'.panicked = none
  system : System k c'.state M' c'.others
  conserved : (c'.state.mem.freelist ++ everyones c'.state M' c'.others).Perm
    (c.state.mem.freelist ++ everyones c.state M c.others)
  kept : ∀ j < NPROC, (c.state.proc j).used = true → act.actor ≠ some j → act.stores = false →
    Kept c.state c'.state M M' j

theorem Turn.kept (h : Turn k s s' M M' others i) (hs : System k s M others) (hi : i < NPROC) (hj : j < NPROC)
    (hne : j ≠ i) : Kept s s' M M' j :=
  ⟨h.proc j hne, h.map j hne, fun _ ha => h.page hs hi (mem_rest hj hne ha)⟩

/-- A process acts, or a slot that was free is taken. -/
theorem Valid.turn (h : Valid k c₀ c M) (hi : i < NPROC) (hturn : Turn k c.state s' M M' c.others i)
    (hactor : act.actor = some i ∨ (c.state.proc i).used = false) :
    Stepped k c { c with state := s' } act M M' := by
  refine ⟨h.safe, hturn.system, (hturn.everyones h.system hi).conserved, fun j hj hused hne _ => ?_⟩
  apply hturn.kept h.system hi hj
  rintro rfl
  rcases hactor with hactor | hfree
  · exact hne hactor
  · exact Bool.false_ne_true (hfree.symm.trans hused)

theorem Valid.untouched (h : Valid k c₀ c M) (hun : Untouched c.state s') :
    Stepped k c { c with state := s' } act M M := by
  obtain ⟨hsystem, hmoved⟩ := h.system.untouched hun
  refine ⟨h.safe, hsystem, hmoved.conserved, fun j hj hused _ _ => ⟨by rw [hun.proc], rfl, fun a ha => ?_⟩⟩
  have hframed : Pages k c.state.mem ([] ++ everyones c.state M c.others) := by
    rw [List.nil_append]
    exact h.system.pages
  apply hun.moved.page_of_frame hframed
  exact mem_total_of_own (mem_slots.mpr hj) ha

/-- Pages that are no process's change hands. -/
theorem Valid.around (h : Valid k c₀ c M) (hproc : s'.proc = c.state.proc)
    (hm : Moved c.state.mem s'.mem c.others others') :
    Stepped k c { c with state := s', others := others' } act M M := by
  obtain ⟨hsystem, hmoved⟩ := h.system.around hproc hm
  refine ⟨h.safe, hsystem, hmoved.conserved, fun j hj hused _ _ => ⟨by rw [hproc], rfl, fun a ha => ?_⟩⟩
  exact hm.page_of_frame h.system.pages (List.mem_flatMap.mpr ⟨j, mem_slots.mpr hj, ha⟩)

theorem Valid.stepped (h : Valid k c₀ c M) (hcall : Call c act) (hs : c.step k act = some c') :
    ∃ M', Stepped k c c' act M M' := by
  have hsafe : c.panicked.isSome = false := by rw [h.safe, Option.isSome_none]
  unfold Kernel.step at hs
  rw [hsafe, if_neg Bool.false_ne_true] at hs
  cases act with
  | userinit =>
    obtain ⟨s', r, heq, hr⟩ := h.system.allocproc
    simp only [heq, Kernel.took, Except.map] at hs
    cases hs
    rcases hr with ⟨-, hun⟩ | ⟨np, tf, root, -, hnp, hfree, -, hturn⟩
    · exact ⟨M, h.untouched hun⟩
    · exact ⟨_, h.turn hnp hturn (Or.inr hfree)⟩
  | fork i =>
    obtain ⟨hi, hused⟩ := hcall
    obtain ⟨s', r, heq, hr⟩ := h.system.kfork hi hused
    simp only [heq, Kernel.took, Except.map] at hs
    cases hs
    rcases hr with ⟨-, hun⟩ | ⟨np, N, -, hturn, hchild⟩
    · exact ⟨M, h.untouched hun⟩
    · exact ⟨_, h.turn hchild.slot hturn (Or.inr hchild.unused)⟩
  | exec i path file argv =>
    obtain ⟨hi, hused, -, hargv⟩ := hcall
    obtain ⟨s', r, heq, hr⟩ := h.system.kexec path file hi hused hargv
    simp only [heq, Kernel.took, Except.map] at hs
    cases hs
    rcases hr with ⟨-, hun⟩ | ⟨N, -, hturn⟩
    · exact ⟨M, h.untouched hun⟩
    · exact ⟨_, h.turn hi hturn (Or.inl rfl)⟩
  | reap i =>
    obtain ⟨hi, hused⟩ := hcall
    obtain ⟨m', N, heq, hturn⟩ := h.system.freeproc hi hused
    simp only [heq, Kernel.took] at hs
    cases hs
    exact ⟨_, h.turn hi hturn (Or.inl rfl)⟩
  | sbrk i n eager =>
    obtain ⟨hi, hused, hn⟩ := hcall
    obtain ⟨s', r, N, heq, hturn⟩ := h.system.sys_sbrk hi hused hn eager
    simp only [heq, Kernel.took, Except.map] at hs
    cases hs
    exact ⟨_, h.turn hi hturn (Or.inl rfl)⟩
  | vmfault i va =>
    obtain ⟨hi, hused⟩ := hcall
    obtain ⟨m', pa, N, heq, hturn⟩ := h.system.vmfault hi hused va
    simp only [heq, Kernel.took, Except.map] at hs
    cases hs
    exact ⟨_, h.turn hi hturn (Or.inl rfl)⟩
  | copyout i va src =>
    obtain ⟨hi, hused⟩ := hcall
    obtain ⟨m', done, N, heq, hturn⟩ := h.system.copyout hi hused va src
    simp only [heq, Kernel.took, Except.map] at hs
    cases hs
    exact ⟨_, h.turn hi hturn (Or.inl rfl)⟩
  | kalloc =>
    cases hfree : c.state.mem.freelist with
    | nil =>
      simp only [kalloc_none hfree] at hs
      cases hs
      exact ⟨M, h.around rfl (.refl _ _)⟩
    | cons b free =>
      obtain ⟨m', hkalloc, -, hmoved, -⟩ := moved_kalloc hfree c.others
      simp only [hkalloc] at hs
      cases hs
      exact ⟨M, h.around rfl hmoved⟩
  | kfree pa =>
    obtain ⟨heq, hmoved⟩ := h.system.kfree hcall
    simp only [heq, Kernel.took, Except.map] at hs
    cases hs
    exact ⟨M, h.around rfl hmoved⟩
  | store mem =>
    obtain ⟨hfree, hsame⟩ := hcall
    obtain ⟨hsystem, heq⟩ := h.system.store hfree hsame
    cases hs
    refine ⟨M, h.safe, hsystem, ?_, fun _ _ _ _ hno => nomatch hno⟩
    rw [heq]
    change (mem.freelist ++ _).Perm _
    rw [hfree]

theorem Valid.step (h : Valid k c₀ c M) (hcall : Call c act) (hs : c.step k act = some c') :
    ∃ M', Valid k c₀ c' M' := by
  obtain ⟨M', hstepped⟩ := h.stepped hcall hs
  exact ⟨M', hstepped.safe, hstepped.system, hstepped.conserved.trans h.conserved⟩

/-- Every state of a run is valid. -/
theorem Boot.run (h : Boot k c₀) (hrun : Run (Kernel.step k) Call c₀ as c) : ∃ M, Valid k c₀ c M := by
  refine hrun.invariant (P := fun c => ∃ M, Valid k c₀ c M) ⟨_, h.valid⟩ ?_
  rintro c act c' ⟨M, hvalid⟩ hcall hs
  exact hvalid.step hcall hs

/-! ## A small machine -/

/-- A kernel of one page. -/
def smallImage : Image where
  kernelEnd := 2147487744
  trampoline := 2147483648
  low := by decide
  aligned := by decide
  inside := by decide
  fits := by decide

/-- The kernel with pages that are free. -/
def smallKernel (n : Nat) : Kernel where
  state := ⟨⟨fun _ _ => 0, (List.range n).map fun i => 2147487744 + i * PGSIZE⟩, fun _ => .free⟩
  others := []
  panicked := none

theorem small_boot (hn : n ≤ 32000) : Boot smallImage (smallKernel n) := by
  refine ⟨rfl, fun _ _ => rfl, ?_, fun a ha => ?_⟩
  · change ((List.range n).map _ ++ []).Nodup
    rw [List.append_nil]
    apply List.nodup_range.map
    intro i j hij
    unfold PGSIZE at hij
    simp only [Nat.add_left_cancel_iff] at hij
    omega
  · change a ∈ (List.range n).map _ ++ [] at ha
    rw [List.append_nil, List.mem_map] at ha
    obtain ⟨i, hi, rfl⟩ := ha
    rw [List.mem_range] at hi
    change _ ∧ 2147487744 ≤ _ ∧ _
    unfold PHYSTOP KERNBASE PGSIZE
    omega

/-- The first process gets a page. -/
theorem firstPage_run {p : Kernel → Bool} (h : ((smallKernel n).step smallImage .userinit).any (fun c =>
    (c.state.proc 0).used ∧ (c.state.proc 0).sz = 0 ∧ (c.step smallImage (.sbrk 0 PGSIZE true)).any p) = true) :
    ∃ c, Run (Kernel.step smallImage) Call (smallKernel n) [.userinit, .sbrk 0 PGSIZE true] c ∧ p c = true := by
  obtain ⟨c₁, hs₁, h₁⟩ := (Option.any_eq_true _ _).mp h
  obtain ⟨hused, hsz, h₂⟩ := of_decide_eq_true h₁
  obtain ⟨c₂, hs₂, hp⟩ := (Option.any_eq_true _ _).mp h₂
  refine ⟨c₂, (Run.nil.snoc trivial hs₁).snoc ⟨by decide, hused, ?_⟩ hs₂, hp⟩
  rw [hsz]
  decide

theorem eq_of_toOption {α : Type*} {x : Except Panic α} {p : α → Bool} (h : x.toOption.any p = true) :
    ∃ y, x = .ok y ∧ p y = true := by
  cases x with
  | error e => cases h
  | ok y => exact ⟨y, rfl, h⟩

/-! ## What holds in every run -/

/-- The pages of a process, read from its page table. -/
def ownPages (m : Mem) (p : Proc) : List Nat :=
  if p.used = true then p.trapframe :: (tablesOf m p.pagetable ++ pagesOf m p.pagetable 0 USER) else []

theorem System.ownPages (h : System k s M others) (hi : i < NPROC) :
    ownPages s.mem (s.proc i) = holds s M i := by
  unfold spaces.ownPages holds held
  cases hused : (s.proc i).used with
  | false => rw [if_neg Bool.false_ne_true, if_neg Bool.false_ne_true]
  | true =>
    have hend : (0 + USER) * PGSIZE ≤ MAXVA := by decide
    have hpages := (h.layout i hi hused).represents.pagesOf_eq hend
    have huser : (M i).frames 0 USER = userPages (M i) := by
      unfold Map.frames userPages
      rw [List.range_eq_range']
    unfold share
    rw [if_pos rfl, if_pos rfl, hpages, huser]

/-- The process can read the page at the address. -/
def Reaches (m : Mem) (p : Proc) (va pa : Nat) : Prop := walkaddr m p.pagetable va = .ok pa ∧ pa ≠ 0

theorem Layout.reaches {p : Proc} {N : Map} (h : Layout k m p N) (hr : Reaches m p va pa) :
    va / PGSIZE < USER ∧ ∃ x, N (va / PGSIZE) = some x ∧ x.pa = pa := by
  obtain ⟨hwalk, hne⟩ := hr
  rw [h.represents.walkaddr va] at hwalk
  have hpa : N.lookup va = pa := Except.ok.inj hwalk
  unfold Map.lookup at hpa
  cases hN : N (va / PGSIZE) with
  | none =>
    rw [hN, Option.elim_none] at hpa
    exact absurd hpa.symm hne
  | some x =>
    rw [hN, Option.elim_some] at hpa
    by_cases hu : x.perm &&& PTE_U = 0
    · rw [if_pos hu] at hpa
      exact absurd hpa.symm hne
    · rw [if_neg hu] at hpa
      exact ⟨Nat.lt_of_not_le fun hq => hu (h.guarded _ x hq hN), x, rfl, hpa⟩

theorem System.reaches (h : System k s M others) (hi : i < NPROC) (hused : (s.proc i).used = true)
    (hr : Reaches s.mem (s.proc i) va pa) : pa ∈ userPages (M i) ∧ pa ∈ holds s M i := by
  obtain ⟨hq, x, hx, rfl⟩ := (h.layout i hi hused).reaches hr
  have huser := mem_userPages hq hx
  exact ⟨huser, user_held hused huser⟩

theorem System.slot_of_page (h : System k s M others) (hi : i < NPROC) (hj : j < NPROC) (ha : a ∈ holds s M i)
    (ha' : a ∈ holds s M j) : j = i := by
  by_contra hne
  have hnodup := (List.nodup_append.mp h.pages.nodup).2.1
  exact disjoint_of_total hnodup (mem_slots.mpr hi) (mem_slots.mpr hj) hne (List.mem_append_right _ ha) ha'

/-- A page that a process can read is not free, it is not in the kernel's hands, it is no process's
trapframe and in no page table; and no other address of any process leads to it. -/
theorem spaces_are_apart (hboot : Boot k c₀) (hrun : Run (Kernel.step k) Call c₀ as c) (hi : i < NPROC)
    (hused : (c.state.proc i).used = true) (hr : Reaches c.state.mem (c.state.proc i) va pa) :
    pa ∉ c.state.mem.freelist ∧ pa ∉ c.others ∧
      ∀ j < NPROC, (c.state.proc j).used = true →
        pa ≠ (c.state.proc j).trapframe ∧ ¬ IsTable c.state.mem (c.state.proc j).pagetable pa ∧
          ∀ va', Reaches c.state.mem (c.state.proc j) va' pa → j = i ∧ va' / PGSIZE = va / PGSIZE := by
  obtain ⟨M, hvalid⟩ := hboot.run hrun
  have h := hvalid.system
  obtain ⟨huser, hheld⟩ := h.reaches hi hused hr
  have hnodup := List.nodup_append.mp h.pages.nodup
  have hall : pa ∈ everyones c.state M c.others := mem_total_of_own (mem_slots.mpr hi) hheld
  have hspace := h.space hi hused
  refine ⟨fun hfree => hnodup.2.2 pa hfree pa hall rfl, fun hother => ?_, fun j hj husedj => ⟨?_, ?_, ?_⟩⟩
  · have htotal := hnodup.2.1
    unfold everyones total at htotal
    exact (List.nodup_append.mp htotal).2.2 pa hother pa (List.mem_flatMap.mpr ⟨i, mem_slots.mpr hi, hheld⟩) rfl
  · intro heq
    have htf : pa ∈ holds c.state M j := by
      unfold holds
      rw [held_used husedj, heq]
      exact List.mem_append_left _ (List.mem_singleton_self _)
    obtain rfl := h.slot_of_page hi hj hheld htf
    rw [heq] at huser
    exact hspace.hand_not_user (List.mem_singleton_self _) huser
  · intro htable
    obtain rfl := h.slot_of_page hi hj hheld (isTable_held husedj htable)
    exact hspace.user_not_table huser htable
  · intro va' hr'
    obtain rfl := h.slot_of_page hi hj hheld (h.reaches hj husedj hr').2
    obtain ⟨hq, x, hx, hxpa⟩ := (h.layout j hj husedj).reaches hr
    obtain ⟨hq', x', hx', hxpa'⟩ := (h.layout j hj husedj).reaches hr'
    exact ⟨rfl, userPages_apart hspace.nodup_user hq hq' hx hx' (hxpa'.trans hxpa.symm)⟩

/-- A page that the first process has grown by. -/
theorem a_page_is_apart : ∃ c pa, Run (Kernel.step smallImage) Call (smallKernel 20)
      [.userinit, .sbrk 0 PGSIZE true] c ∧ Reaches c.state.mem (c.state.proc 0) 0 pa ∧
    pa ∉ c.state.mem.freelist ∧ pa ∉ c.others ∧
      ∀ j < NPROC, (c.state.proc j).used = true →
        pa ≠ (c.state.proc j).trapframe ∧ ¬ IsTable c.state.mem (c.state.proc j).pagetable pa ∧
          ∀ va', Reaches c.state.mem (c.state.proc j) va' pa → j = 0 ∧ va' / PGSIZE = 0 / PGSIZE := by
  obtain ⟨c, hrun, hp⟩ := firstPage_run (n := 20) (p := fun c => (c.state.proc 0).used ∧
    ((walkaddr c.state.mem (c.state.proc 0).pagetable 0).toOption.any (· ≠ 0))) (by decide +kernel)
  obtain ⟨hused, hwalk⟩ := of_decide_eq_true hp
  obtain ⟨pa, hpa, hne⟩ := eq_of_toOption hwalk
  have hr : Reaches c.state.mem (c.state.proc 0) 0 pa := ⟨hpa, of_decide_eq_true hne⟩
  exact ⟨c, pa, hrun, hr, spaces_are_apart (small_boot (by decide)) hrun (by decide) hused hr⟩

theorem lookup_none {N : Map} (h : N (va / PGSIZE) = none) : N.lookup va = 0 := by
  unfold Map.lookup
  rw [h, Option.elim_none]

theorem lookup_kernel {N : Map} {x : Mapping} (h : N (va / PGSIZE) = some x) (hu : x.perm &&& PTE_U = 0) :
    N.lookup va = 0 := by
  unfold Map.lookup
  rw [h, Option.elim_some, if_pos hu]

theorem lookup_user {N : Map} {x : Mapping} (h : N (va / PGSIZE) = some x) (hu : x.perm &&& PTE_U ≠ 0) :
    N.lookup va = x.pa := by
  unfold Map.lookup
  rw [h, Option.elim_some, if_neg hu]

theorem Guarded.lookup {N : Map} (h : Guarded N) (hq : USER ≤ va / PGSIZE) : N.lookup va = 0 := by
  cases hN : N (va / PGSIZE) with
  | none => exact lookup_none hN
  | some x => exact lookup_kernel hN (h _ x hq hN)

/-- A child that is made has the parent's memory in pages of its own, and its registers, with 0 in
`a0`. No page that the child reaches is one of the parent's, wherever the parent has it. -/
theorem fork_copies (hboot : Boot k c₀) (hrun : Run (Kernel.step k) Call c₀ as c) (hi : i < NPROC)
    (hused : (c.state.proc i).used = true) (hfork : kfork k c.state i = .ok (s', some np)) :
    np < NPROC ∧ (c.state.proc np).used = false ∧ s'.proc i = c.state.proc i ∧
      (s'.proc np).sz = (c.state.proc i).sz ∧
      (∀ b < 288, b < 112 ∨ 120 ≤ b → s'.mem.page (s'.proc np).trapframe b =
        c.state.mem.page (c.state.proc i).trapframe b) ∧
      get64 (s'.mem.page (s'.proc np).trapframe) 112 = 0 ∧
      ∀ va, ∃ pa pa', walkaddr c.state.mem (c.state.proc i).pagetable va = .ok pa ∧
        walkaddr s'.mem (s'.proc i).pagetable va = .ok pa ∧
        walkaddr s'.mem (s'.proc np).pagetable va = .ok pa' ∧ (pa' = 0 ↔ pa = 0) ∧
        (pa ≠ 0 → s'.mem.page pa' = c.state.mem.page pa ∧ s'.mem.page pa = c.state.mem.page pa ∧
          pa' ∉ ownPages s'.mem (s'.proc i) ∧ ∀ va', ¬ Reaches s'.mem (s'.proc i) va' pa') := by
  obtain ⟨M, hvalid⟩ := hboot.run hrun
  have h := hvalid.system
  obtain ⟨s₁, r, heq, hr⟩ := h.kfork hi hused
  rw [hfork] at heq
  cases heq
  rcases hr with ⟨hnone, -⟩ | ⟨np', N, hsome, hturn, hchild⟩
  · cases hnone
  cases hsome
  have hnp := hchild.slot
  have hne : i ≠ np := by
    rintro rfl
    exact Bool.false_ne_true (hchild.unused.symm.trans hused)
  have hproc := hturn.proc i hne
  have hkept := hturn.kept h hnp hi hne
  have h' := hturn.system
  have hlayout := h.layout i hi hused
  have hlayoutp := h'.layout i hi (by rw [hproc, hused])
  have hlayoutc := h'.layout np hnp hchild.used
  rw [hproc, hkept.map] at hlayoutp
  rw [Function.update_self] at hlayoutc
  obtain ⟨old, htf⟩ := hchild.trapframe
  refine ⟨hnp, hchild.unused, hproc, hchild.size, fun b hb hne => ?_, ?_, fun va => ?_⟩
  · have hin := fill_in (b := old) (o := 0) (f := c.state.mem.page (c.state.proc i).trapframe) hb
    rw [Nat.zero_add] at hin
    rw [htf]
    unfold put64
    rw [fill_out (by omega), hin]
  · rw [htf, get64_put64]
  · refine ⟨(M i).lookup va, N.lookup va, hlayout.represents.walkaddr va, ?_, hlayoutc.represents.walkaddr va, ?_⟩
    · rw [hproc]
      exact hlayoutp.represents.walkaddr va
    have hnothing : N.lookup va = 0 → (M i).lookup va = 0 → (N.lookup va = 0 ↔ (M i).lookup va = 0) ∧
        ((M i).lookup va ≠ 0 →
          s'.mem.page (N.lookup va) = c.state.mem.page ((M i).lookup va) ∧
          s'.mem.page ((M i).lookup va) = c.state.mem.page ((M i).lookup va) ∧
          N.lookup va ∉ spaces.ownPages s'.mem (s'.proc i) ∧
            ∀ va', ¬ Reaches s'.mem (s'.proc i) va' (N.lookup va)) :=
      fun hN hM => ⟨by rw [hN, hM], fun hne => absurd hM hne⟩
    by_cases hhigh : USER ≤ va / PGSIZE
    · exact hnothing (hlayoutc.guarded.lookup hhigh) (hlayout.guarded.lookup hhigh)
    have huser := Nat.lt_of_not_le hhigh
    by_cases hbelow : va / PGSIZE < npages (c.state.proc i).sz
    · rcases hchild.copied _ hbelow with ⟨hM, hN⟩ | ⟨x, b, hM, hN, hpage⟩
      · exact hnothing (lookup_none hN) (lookup_none hM)
      · have hflag : (x.perm ||| PTE_V) &&& PTE_U = x.perm &&& PTE_U := by
          rw [Nat.and_or_distrib_right]
          exact Nat.or_zero _
        by_cases hu : x.perm &&& PTE_U = 0
        · exact hnothing (lookup_kernel hN (hflag.trans hu)) (lookup_kernel hM hu)
        · rw [lookup_user hN (by rw [hflag]; exact hu), lookup_user hM hu]
          obtain ⟨-, hpos, -⟩ := hlayout.represents.good _ x hM
          obtain ⟨-, hposc, -⟩ := hlayoutc.represents.good _ _ hN
          have hxheld : x.pa ∈ holds c.state M i := user_held hused (mem_userPages huser hM)
          refine ⟨⟨fun hb => absurd hb (Nat.ne_of_gt hposc), fun hx => absurd hx (Nat.ne_of_gt hpos)⟩, fun _ => ?_⟩
          have hchildheld : b ∈ holds s' (Function.update M np N) np := by
            unfold holds
            rw [Function.update_self]
            exact user_held hchild.used (mem_userPages huser hN)
          have hparentused : (s'.proc i).used = true := by rw [hproc, hused]
          refine ⟨?_, hkept.page _ hxheld, ?_, fun va' hr => ?_⟩
          · rw [hpage, hkept.page _ hxheld]
          · rw [h'.ownPages hi]
            exact fun hown => hne (h'.slot_of_page hnp hi hchildheld hown)
          · exact hne (h'.slot_of_page hnp hi hchildheld (h'.reaches hi hparentused hr).2)
    · have hM := hlayout.above _ (Nat.not_lt.mp hbelow) huser
      have hN := hlayoutc.above _ (by rw [hchild.size]; exact Nat.not_lt.mp hbelow) huser
      exact hnothing (lookup_none hN) (lookup_none hM)

/-- The first process forks, with a page of its own. -/
theorem a_fork_copies : ∃ c s' pa', Run (Kernel.step smallImage) Call (smallKernel 20)
      [.userinit, .sbrk 0 PGSIZE true] c ∧ kfork smallImage c.state 0 = .ok (s', some 1) ∧
    (s'.proc 1).sz = (c.state.proc 0).sz ∧ get64 (s'.mem.page (s'.proc 1).trapframe) 112 = 0 ∧
    Reaches s'.mem (s'.proc 1) 0 pa' ∧ pa' ∉ ownPages s'.mem (s'.proc 0) := by
  obtain ⟨c, hrun, hp⟩ := firstPage_run (n := 20) (p := fun c => (c.state.proc 0).used ∧
    (kfork smallImage c.state 0).toOption.any (fun r => r.2 = some 1) ∧
    (walkaddr c.state.mem (c.state.proc 0).pagetable 0).toOption.any (· ≠ 0)) (by decide +kernel)
  obtain ⟨hused, hfork, hwalk⟩ := of_decide_eq_true hp
  obtain ⟨⟨s', np⟩, hfork, hnp⟩ := eq_of_toOption hfork
  obtain ⟨pa₀, hpa₀, hne⟩ := eq_of_toOption hwalk
  rw [show np = some 1 from of_decide_eq_true hnp] at hfork
  obtain ⟨-, -, -, hsz, -, ha0, hmem⟩ := fork_copies (small_boot (by decide)) hrun (by decide) hused hfork
  obtain ⟨pa, pa', hpa, -, hpa', hiff, hcopy⟩ := hmem 0
  rw [hpa₀] at hpa
  cases hpa
  have hpos := of_decide_eq_true hne
  exact ⟨c, s', pa', hrun, hfork, hsz, ha0, ⟨hpa', fun h => hpos (hiff.mp h)⟩, (hcopy hpos).2.2.1⟩

/-- A `fork` or an `exec` that fails leaves the processes as they were and all the memory but the free
pages, and the same pages are free. -/
theorem failed_calls_leave_nothing (hboot : Boot k c₀) (hrun : Run (Kernel.step k) Call c₀ as c) (hi : i < NPROC)
    (hused : (c.state.proc i).used = true)
    (hfail : kfork k c.state i = .ok (s', none) ∨
      ∃ path file argv, Call c (.exec i path file argv) ∧ kexec k c.state i path file argv = .ok (s', none)) :
    s'.proc = c.state.proc ∧ s'.mem.freelist.Perm c.state.mem.freelist ∧
      ∀ a, a ∉ c.state.mem.freelist → s'.mem.page a = c.state.mem.page a := by
  obtain ⟨M, hvalid⟩ := hboot.run hrun
  have hun : Untouched c.state s' := by
    rcases hfail with hfork | ⟨path, file, argv, ⟨-, -, -, hargv⟩, hexec⟩
    · obtain ⟨s₁, r, heq, hr⟩ := hvalid.system.kfork hi hused
      rw [hfork] at heq
      cases heq
      rcases hr with ⟨-, hun⟩ | ⟨np, N, hsome, -⟩
      · exact hun
      · cases hsome
    · obtain ⟨s₁, r, heq, hr⟩ := hvalid.system.kexec path file hi hused hargv
      rw [hexec] at heq
      cases heq
      rcases hr with ⟨-, hun⟩ | ⟨N, hsome, -⟩
      · exact hun
      · cases hsome
  obtain ⟨hconserved, houtside⟩ := hun.moved
  rw [List.append_nil, List.append_nil] at hconserved
  refine ⟨hun.proc, hconserved, fun a ha => houtside a ?_⟩
  rw [List.append_nil]
  exact ha

/-- A file with the header of a program that has no segments. -/
def emptyElf : List UInt8 := [127, 69, 76, 70] ++ List.replicate 60 0

/-- The first process has a page, and two more are free. A child takes both, for its trapframe and its
page table, and a new program takes both for its tables. Then the memory ends, and they are free
again, with what `kfree` writes. -/
theorem a_fork_and_an_exec_fail : ∃ c s' s'', Run (Kernel.step smallImage) Call (smallKernel 9)
      [.userinit, .sbrk 0 PGSIZE true] c ∧ c.state.mem.freelist.length = 2 ∧
    (∀ a ∈ c.state.mem.freelist,
      c.state.mem.page a 0 = 0 ∧ s'.mem.page a 0 = 1 ∧ s''.mem.page a 0 = 1) ∧
    (kfork smallImage c.state 0 = .ok (s', none) ∧
      s'.proc = c.state.proc ∧ s'.mem.freelist.Perm c.state.mem.freelist ∧
        ∀ a, a ∉ c.state.mem.freelist → s'.mem.page a = c.state.mem.page a) ∧
    kexec smallImage c.state 0 [] (some emptyElf) [] = .ok (s'', none) ∧
      s''.proc = c.state.proc ∧ s''.mem.freelist.Perm c.state.mem.freelist ∧
        ∀ a, a ∉ c.state.mem.freelist → s''.mem.page a = c.state.mem.page a := by
  obtain ⟨c, hrun, hp⟩ := firstPage_run (n := 9) (p := fun c => (c.state.proc 0).used ∧
    c.state.mem.freelist.length = 2 ∧ (∀ a ∈ c.state.mem.freelist, c.state.mem.page a 0 = 0) ∧
    (kfork smallImage c.state 0).toOption.any (fun r =>
      r.2 = none ∧ ∀ a ∈ c.state.mem.freelist, r.1.mem.page a 0 = 1) ∧
    (kexec smallImage c.state 0 [] (some emptyElf) []).toOption.any fun r =>
      r.2 = none ∧ ∀ a ∈ c.state.mem.freelist, r.1.mem.page a 0 = 1) (by decide +kernel)
  obtain ⟨hused, hfree, hzero, hfork, hexec⟩ := of_decide_eq_true hp
  obtain ⟨⟨s', np⟩, hfork, hr⟩ := eq_of_toOption hfork
  obtain ⟨⟨s'', argc⟩, hexec, hr'⟩ := eq_of_toOption hexec
  obtain ⟨hnone, hone⟩ := of_decide_eq_true hr
  obtain ⟨hnone', hone'⟩ := of_decide_eq_true hr'
  rw [show np = none from hnone] at hfork
  rw [show argc = none from hnone'] at hexec
  have hcall : Call c (.exec 0 [] (some emptyElf) []) :=
    ⟨by decide, hused, by decide, fun _ harg => absurd harg List.not_mem_nil⟩
  have hboot := small_boot (n := 9) (by decide)
  exact ⟨c, s', s'', hrun, hfree, fun a ha => ⟨hzero a ha, hone a ha, hone' a ha⟩,
    ⟨hfork, failed_calls_leave_nothing hboot hrun (by decide) hused (Or.inl hfork)⟩,
    hexec, failed_calls_leave_nothing hboot hrun (by decide) hused (Or.inr ⟨_, _, _, hcall, hexec⟩)⟩

end xv6.spaces
