-- How much a program may ask `malloc` for. `morecore` hands the bytes that
-- it needs to `sbrk` as an int (user/umalloc.c, user/ulib.c), and from
-- 2 ^ 31 bytes on the memory grows by less, or it shrinks.
import SysNet.Xv6.Heap
import SysNet.Xv6.Vm

open chains runs tiles

namespace xv6.umalloc

variable {l : Layout} {s : State} {bs : List Block} {n nu nbytes : Nat} {answers : List Bool}

/-! ## sbrk and the system call -/

section

variable {sp sp' : vm.Space} {pt pt' : vm.PageTable} {pg : vm.Page} {mem : vm.Memory} {i : Int}
  {r : Option Nat} {oldsz newsz sz : Nat}

theorem uvmdealloc_sz (h : vm.uvmdealloc pt oldsz newsz = .ok (pt', sz)) : sz = min oldsz newsz := by
  unfold vm.uvmdealloc at h
  split at h
  · cases h
    omega
  · split at h
    · rcases heq : vm.uvmunmap pt (vm.PGROUNDUP newsz)
          ((vm.PGROUNDUP oldsz - vm.PGROUNDUP newsz) / vm.PGSIZE) with e | pt''
      · rw [heq] at h
        cases h
      · rw [heq] at h
        cases h
        omega
    · cases h
      omega

theorem uvmalloc_sz (h : vm.uvmalloc pt oldsz newsz pg mem = .ok (pt', sz)) :
    sz = 0 ∨ sz = max oldsz newsz := by
  unfold vm.uvmalloc at h
  split at h
  · cases h
    exact Or.inr (by omega)
  · simp only at h
    split at h
    · cases h
    · cases h
      exact Or.inr (by omega)
    · rename_i pt'' a _
      rcases heq : vm.uvmdealloc pt'' a (vm.PGROUNDUP oldsz) with e | ⟨pt₂, sz₂⟩
      · rw [heq] at h
        cases h
      · rw [heq] at h
        cases h
        exact Or.inl rfl

/-- The size of a process after `growproc`. It fails only where the process shall grow. -/
theorem growproc_sz {done : Bool} (h : vm.growproc sp i mem = .ok (sp', done)) (hsz : sp.sz ≤ vm.MAXVA)
    (hlo : -2147483648 ≤ i) (hhi : i < 2147483648) :
    (done = false ∧ 0 < i) ∨
      done = true ∧ sp'.sz = if sp.sz + i < 0 then sp.sz else (sp.sz + i).toNat := by
  have hmax : vm.MAXVA = 274877906944 := rfl
  unfold vm.growproc at h
  split at h
  · rename_i hpos
    have hnew : vm.uint64 (sp.sz + i) = (sp.sz + i).toNat := by
      unfold vm.uint64
      rw [Int.emod_eq_of_lt (by omega) (by omega)]
    rw [hnew] at h
    split at h
    · cases h
    · rename_i pt sz heq
      split at h
      · cases h
        exact Or.inl ⟨rfl, hpos⟩
      · rename_i hne
        cases h
        have hsz' := (uvmalloc_sz heq).resolve_left hne
        refine Or.inr ⟨rfl, ?_⟩
        rw [if_neg (by omega)]
        simp only
        omega
  · split at h
    · rename_i hneg
      split at h
      · cases h
      · rename_i pt sz heq
        cases h
        have hsz' := uvmdealloc_sz heq
        refine Or.inr ⟨rfl, ?_⟩
        unfold vm.uint64 at hsz'
        simp only
        split <;> omega
    · cases h
      refine Or.inr ⟨rfl, ?_⟩
      rw [if_neg (by omega)]
      omega

theorem sys_sbrk_sz (h : vm.sys_sbrk sp i vm.SBRK_EAGER mem = .ok (sp', r))
    (hsz : sp.sz ≤ vm.MAXVA) (hlo : -2147483648 ≤ i) (hhi : i < 2147483648) :
    (r = none ∧ 0 < i) ∨
      r = some sp.sz ∧ sp'.sz = if sp.sz + i < 0 then sp.sz else (sp.sz + i).toNat := by
  unfold vm.sys_sbrk at h
  rw [if_pos (Or.inl rfl)] at h
  split at h
  · cases h
  · rename_i sp'' done heq
    cases h
    rcases growproc_sz heq hsz hlo hhi with ⟨rfl, hpos⟩ | ⟨rfl, hsz'⟩
    · exact Or.inl ⟨rfl, hpos⟩
    · exact Or.inr ⟨rfl, hsz'⟩

/-- `sbrk` does what the system call does with the size of the process. -/
theorem sbrk_is_sys_sbrk (h : vm.sys_sbrk sp i vm.SBRK_EAGER mem = .ok (sp', r))
    (hbrk : sp.sz = s.brk * 16) (hsz : sp.sz ≤ vm.MAXVA) (hlo : -2147483648 ≤ i) (hhi : i < 2147483648)
    (hunits : i % 16 = 0) (hphys : sp'.sz ≤ l.start * 16 + (PHYSTOP - KERNBASE)) :
    ∃ answers, match r with
      | none => (sbrk l s i answers).1 = none
      | some a => a = s.brk * 16 ∧ ∃ s', (sbrk l s i answers).1 = some s' ∧ s'.brk * 16 = sp'.sz := by
  rcases sys_sbrk_sz h hsz hlo hhi with ⟨rfl, hpos⟩ | ⟨rfl, hsz'⟩
  · refine ⟨[], ?_⟩
    simp only [sbrk, if_pos hpos]
  · refine ⟨[true], hbrk, ?_⟩
    rw [hbrk] at hsz'
    push_cast at hsz'
    by_cases hpos : 0 < i
    · rw [if_neg (by omega)] at hsz'
      have hroom : (s.brk + i.toNat / 16 - l.start) * 16 ≤ PHYSTOP - KERNBASE := by omega
      refine ⟨{ s with brk := s.brk + i.toNat / 16 }, ?_, ?_⟩
      · simp only [sbrk, if_pos hpos, if_pos hroom]
      · simp only
        omega
    · by_cases hwrap : (s.brk : Int) * 16 + i < 0
      · rw [if_pos hwrap] at hsz'
        exact ⟨s, by simp only [sbrk, if_neg hpos, if_pos hwrap], hsz'.symm⟩
      · rw [if_neg hwrap] at hsz'
        refine ⟨{ s with brk := (s.brk * 16 + i).toNat / 16 }, ?_, ?_⟩
        · simp only [sbrk, if_neg hpos, if_neg hwrap]
        · simp only
          omega

end

/-! ## Requests that an int does not hold -/

theorem nunits_eq (h : nbytes < 4294967296) : nunits nbytes = (nbytes + 15) / 16 + 1 :=
  uint_of_lt (by omega)

/-- `sbrk` grows the memory by 16 bytes at most, and it fails only there. -/
theorem sbrk_large (hlo : 134217728 ≤ nu) (hhi : nu ≤ 268435457) (answers : List Bool) :
    (nu = 268435457 ∧ (sbrk l s 16 answers).1 = none ∧
        ∃ answers', sbrk l s (int (nu * 16)) answers = (none, answers')) ∨
      ∃ b answers', sbrk l s (int (nu * 16)) answers = (some { s with brk := b }, answers') ∧
        b ≤ s.brk + 1 ∧ (nu = 268435457 → (sbrk l s 16 answers).1 ≠ none) := by
  by_cases hlast : nu = 268435457
  · subst hlast
    have hint : int (268435457 * 16) = 16 := by decide
    rw [hint]
    rcases answers with _ | ⟨_ | _, answers⟩
    · exact Or.inl ⟨rfl, rfl, _, rfl⟩
    · exact Or.inl ⟨rfl, rfl, _, rfl⟩
    · by_cases hroom : (s.brk + 1 - l.start) * 16 ≤ PHYSTOP - KERNBASE
      · have hsome : sbrk l s 16 (true :: answers) = (some { s with brk := s.brk + 1 }, answers) :=
          if_pos hroom
        refine Or.inr ⟨s.brk + 1, answers, hsome, Nat.le_refl _, fun _ => ?_⟩
        rw [hsome]
        exact Option.some_ne_none _
      · have hnone : sbrk l s 16 (true :: answers) = (none, answers) := if_neg hroom
        exact Or.inl ⟨rfl, by rw [hnone], answers, hnone⟩
  · have hint : int (nu * 16) ≤ 0 := by
      unfold int uint
      split <;> omega
    refine Or.inr ?_
    unfold sbrk
    rw [if_neg (by omega)]
    split
    · exact ⟨s.brk, answers, rfl, by omega, fun h => absurd h hlast⟩
    · exact ⟨_, answers, rfl, by omega, fun h => absurd h hlast⟩

/-- A heap has no block of so many units. -/
theorem Heap.none_large (h : Heap l s bs) (hlimit : Limited l s) (hlo : 134217728 ≤ nu) :
    ¬ ∃ y ∈ l.base :: frees l.start bs, nu ≤ s.size y := by
  have hphys : PHYSTOP - KERNBASE = 134217728 := by decide
  rintro ⟨y, hy, hsize⟩
  rcases List.mem_cons.mp hy with rfl | hy
  · rw [h.base] at hsize
    omega
  · obtain ⟨m, hplaced⟩ := mem_frees.mp hy
    have hin := mem_placed hplaced
    have hm := h.sizes _ hplaced
    have hbrk := h.brk
    unfold Limited at hlimit
    simp only at hin hm
    omega

/-- `morecore` fails where not even 16 bytes are to be had. Else the block that it records ends
far behind the memory, or the program is killed. -/
theorem Heap.morecore_large (h : Heap l s bs) (hlimit : Limited l s) (hlo : 134217728 ≤ nu)
    (hhi : nu ≤ 268435457) (answers : List Bool) :
    (nu = 268435457 ∧ (sbrk l s 16 answers).1 = none ∧
        ∃ answers', umalloc.morecore l s nu answers = some (s, answers', none)) ∨
      (nu = 268435457 → (sbrk l s 16 answers).1 ≠ none) ∧
        (umalloc.morecore l s nu answers = none ∨
          ∃ s' b answers' bs', b ≤ s.brk + 1 ∧
            umalloc.morecore l s nu answers = some ({ s' with brk := b }, answers', some s'.freep) ∧
            Heap l s' bs' ∧ s'.brk = s.brk + nu ∧ ∃ y ∈ l.base :: frees l.start bs', nu ≤ s'.size y) := by
  have hphys : PHYSTOP - KERNBASE = 134217728 := by decide
  have hunits : coreUnits nu = nu := if_neg (by omega)
  unfold umalloc.morecore
  simp only [hunits]
  rcases sbrk_large (l := l) (s := s) hlo hhi answers with
    ⟨hlast, hnone, answers', heq⟩ | ⟨b, answers', heq, hb, hroom⟩
  · exact Or.inl ⟨hlast, hnone, answers', by rw [heq]⟩
  · refine Or.inr ⟨hroom, ?_⟩
    simp only [heq]
    by_cases hmapped : ({ s with brk := b } : State).mapped s.brk
    · have hbrk := h.brk
      unfold Limited at hlimit
      have hpage : s.brk ≤ b + 256 := by
        unfold State.mapped at hmapped
        simp only at hmapped
        omega
      obtain ⟨s', bs', hfree, hheap, hbrk', -, -, hfound⟩ :=
        h.recorded (show 0 < nu by omega) (by omega) hpage
      rw [if_pos hmapped, hfree]
      exact Or.inr ⟨s', b, answers', bs', hb, rfl, hheap, hbrk', hfound⟩
    · rw [if_neg hmapped]
      exact Or.inl rfl

/-! ## What malloc promises -/

/-- `malloc` returns 0 or a block in the memory that the program has, and where `morecore` records
a block, the memory has grown by that. -/
structure Kept (l : Layout) (s : State) (nbytes : Nat) (answers : List Bool) : Prop where
  returns : ∃ s' r, malloc l s nbytes answers = some (s', r) ∧ ∀ ap, r = some ap →
    l.start < ap ∧ ap - 1 + s'.size (ap - 1) ≤ s'.brk ∧ nbytes ≤ (s'.size (ap - 1) - 1) * 16
  grown : ∀ s' answers' p,
    morecore l (s.begin l) (nunits nbytes) answers = some (s', answers', some p) →
      (s.begin l).brk + coreUnits (nunits nbytes) ≤ s'.brk

/-- The bytes that `malloc` needs are an `int`. Or all of them but 16 are lost on the way to
`sbrk`, and these 16 are not to be had. -/
def Fits (l : Layout) (s : State) (nbytes : Nat) (answers : List Bool) : Prop :=
  nbytes ≤ 2147483616 ∨ 4294967281 ≤ nbytes ∧ (sbrk l (s.begin l) 16 answers).1 = none

theorem Heap.kept (h : Heap l (s.begin l) bs) (hn : nbytes ≤ 2147483616) : Kept l s nbytes answers := by
  obtain ⟨hpos, hint, henough⟩ := @nunits_spec nbytes (by omega)
  constructor
  · obtain ⟨s', r, bs', heq, hheap, -, -, hperm⟩ := h.malloc hpos hint henough answers
    refine ⟨s', r, heq, ?_⟩
    rintro ap rfl
    obtain ⟨m, hplaced⟩ := mem_lives.mp (hperm.mem_iff.mpr List.mem_cons_self)
    have hin := mem_placed hplaced
    have hm := hheap.sizes _ hplaced
    rw [← hheap.brk] at hin
    obtain ⟨before, after, rfl, -⟩ := placed_split hplaced
    have hsize := hheap.tiled.enough ⟨m, some nbytes⟩ (by simp) nbytes rfl
    have hbase := l.below
    simp only at hin hm hsize
    rw [hm]
    refine ⟨by omega, by omega, hsize⟩
  · intro s' answers' p heq
    rcases h.morecore hint answers with ⟨answers'', heq'⟩ | ⟨s'', answers'', bs', heq', -, hbrk, -⟩
    · rw [heq'] at heq
      cases heq
    · rw [heq'] at heq
      cases heq
      exact Nat.le_of_eq hbrk.symm

/-- Nothing changes where not even 16 bytes are to be had. -/
theorem Heap.refused (h : Heap l (s.begin l) bs) (hlimit : Limited l (s.begin l))
    (hlo : 4294967281 ≤ nbytes) (hhi : nbytes < 4294967296)
    (hnone : (sbrk l (s.begin l) 16 answers).1 = none) :
    umalloc.malloc l s nbytes answers = some (s.begin l, none) := by
  have hunits := nunits_eq hhi
  obtain ⟨k, -, hasks⟩ := h.asks (k := 2 * (s.begin l).brk + coreUnits (nunits nbytes) + 2)
    (by omega) answers (h.none_large hlimit (show 134217728 ≤ nunits nbytes by omega))
  have hmalloc : umalloc.malloc l s nbytes answers = _ := hasks
  rcases h.morecore_large hlimit (show 134217728 ≤ nunits nbytes by omega) (by omega) answers with
    ⟨-, -, answers', heq⟩ | ⟨hroom, -⟩
  · rw [heq] at hmalloc
    exact hmalloc
  · exact absurd hnone (hroom (by omega))

theorem Heap.kept_large (h : Heap l (s.begin l) bs) (hlimit : Limited l (s.begin l))
    (hlo : 2147483616 < nbytes) (hhi : nbytes < 4294967296) :
    Kept l s nbytes answers ↔ 4294967281 ≤ nbytes ∧ (sbrk l (s.begin l) 16 answers).1 = none := by
  have hunits := nunits_eq hhi
  have hcore := coreUnits_spec (nunits nbytes)
  have hbrk := h.brk
  have hphys : PHYSTOP - KERNBASE = 134217728 := by decide
  obtain ⟨k, hk, hasks⟩ := h.asks (k := 2 * (s.begin l).brk + coreUnits (nunits nbytes) + 2)
    (by omega) answers (h.none_large hlimit (show 134217728 ≤ nunits nbytes by omega))
  have hmalloc : umalloc.malloc l s nbytes answers = _ := hasks
  rcases h.morecore_large hlimit (show 134217728 ≤ nunits nbytes by omega) (by omega) answers with
    ⟨hlast, hnone, answers', heq⟩ | ⟨hroom, hrecorded⟩
  · rw [heq] at hmalloc
    refine ⟨fun _ => ⟨by omega, hnone⟩, fun _ => ⟨⟨_, none, hmalloc, ?_⟩, ?_⟩⟩
    · intro ap hap
      cases hap
    · intro s' answers'' p heq'
      rw [heq] at heq'
      cases heq'
  · constructor
    · rintro ⟨⟨s', r, heq, hin⟩, -⟩
      exfalso
      rcases hrecorded with hkilled | ⟨t, b, answers', bs', hb, hmore, hheap, hgrown, hfound⟩
      · rw [hkilled, heq] at hmalloc
        cases hmalloc
      · -- the block is there, and it is bigger than the memory
        obtain ⟨t', ap, bs'', htakes, hheap', -, -, hperm⟩ :=
          hheap.takes_at (b := b) (n := (nunits nbytes - 1) * 16) (k := k) (by omega) (Nat.le_refl _)
            hfound (by omega) answers'
        rw [hmore, heq] at hmalloc
        have hresult := hmalloc.trans htakes
        obtain ⟨rfl, rfl⟩ := Prod.mk.inj (Option.some.inj hresult)
        obtain ⟨hstart, hend, -⟩ := hin ap rfl
        obtain ⟨m, hplaced⟩ := mem_lives.mp (hperm.mem_iff.mpr List.mem_cons_self)
        have hm : t'.size (ap - 1) = m := hheap'.sizes _ hplaced
        obtain ⟨before, after, rfl, -⟩ := placed_split hplaced
        have hsize := hheap'.tiled.enough ⟨m, some ((nunits nbytes - 1) * 16)⟩ (by simp) _ rfl
        change ap - 1 + t'.size (ap - 1) ≤ b at hend
        unfold Limited at hlimit
        simp only at hsize
        omega
    · rintro ⟨hlast, hnone⟩
      exact absurd hnone (hroom (by omega))

/-! ## The result -/

/-- Requests fit, and the program frees only what it has and writes only to that. -/
def careful (l : Layout) (s : State) : Act → Prop
  | .malloc nbytes answers => nbytes < 4294967296 ∧ Fits l s nbytes answers
  | .free ap => proper s (.free ap)
  | .store u h => proper s (.store u h)

instance (l : Layout) (s : State) (nbytes : Nat) (answers : List Bool) :
    Decidable (Fits l s nbytes answers) := by
  unfold Fits
  infer_instance

instance (l : Layout) (s : State) : DecidablePred (careful l s)
  | .malloc nbytes answers =>
    inferInstanceAs (Decidable (nbytes < 4294967296 ∧ Fits l s nbytes answers))
  | .free ap => inferInstanceAs (Decidable (proper s (.free ap)))
  | .store u h => inferInstanceAs (Decidable (proper s (.store u h)))

theorem begin_brk : (s.begin l).brk = s.brk := by
  unfold State.begin
  split <;> rfl

theorem free_brk {s' : State} {ap : Nat} (h : free s ap = some s') : s'.brk = s.brk := by
  unfold free at h
  simp only at h
  split at h
  · cases h
  · cases h
    unfold State.joinPrevious State.joinNext
    split <;> split <;> rfl

theorem reached_step {a : Act} {s' : State} (h : Reached l s) (hlimit : Limited l s)
    (hok : careful l s a) (hs : s.step l a = some s') : Reached l s' ∧ Limited l s' := by
  cases a with
  | malloc nbytes answers =>
    obtain ⟨bs, hheap, hlive, hperm⟩ := h.begin
    have hlimit' : Limited l (s.begin l) := by
      unfold Limited
      rw [begin_brk]
      exact hlimit
    obtain ⟨hlt, hsmall | ⟨hlast, hnone⟩⟩ := hok
    · have hproper : proper s (.malloc nbytes answers) := by
        unfold proper
        omega
      obtain ⟨s'', heq, hreached⟩ := h.step hproper
      rw [hs] at heq
      cases heq
      refine ⟨hreached, ?_⟩
      obtain ⟨hpos, hint, henough⟩ := nunits_spec hproper
      obtain ⟨t, r, bs', heq, -, hlimited, -⟩ := hheap.malloc hpos hint henough answers
      simp only [State.step, umalloc.malloc, heq] at hs
      cases r with
      | none =>
        cases hs
        exact hlimited hlimit'
      | some ap =>
        cases hs
        exact hlimited hlimit'
    · simp only [State.step, hheap.refused hlimit' hlast hlt hnone] at hs
      cases hs
      exact ⟨Or.inr ⟨bs, hheap, hlive ▸ hperm⟩, hlimit'⟩
  | free ap =>
    obtain ⟨s'', heq, hreached⟩ := h.step (a := .free ap) hok
    rw [hs] at heq
    cases heq
    refine ⟨hreached, ?_⟩
    obtain ⟨t, hfree, rfl⟩ := Option.map_eq_some_iff.mp hs
    unfold Limited
    rw [show ({ t with live := _ } : State).brk = t.brk from rfl, free_brk hfree]
    exact hlimit
  | store u header =>
    obtain ⟨s'', heq, hreached⟩ := h.step (a := .store u header) hok
    rw [hs] at heq
    cases heq
    cases hs
    exact ⟨hreached, hlimit⟩

/-- In every state that a program reaches with requests that fit, `malloc` keeps its promise for a
request if and only if the request fits. -/
theorem malloc_keeps_its_promise {mem : Nat → Header} {as : List Act}
    (hrun : Run (State.step l) (careful l) (State.init l mem) as s) (hn : nbytes < 4294967296) :
    Kept l s nbytes answers ↔ Fits l s nbytes answers := by
  have hinit : Reached l (State.init l mem) ∧ Limited l (State.init l mem) := by
    refine ⟨Or.inl ⟨rfl, rfl, rfl⟩, ?_⟩
    unfold Limited State.init
    rw [Nat.sub_self]
    exact Nat.zero_le _
  obtain ⟨hreached, hlimit⟩ := hrun.invariant hinit fun _ _ _ h hok hs => reached_step h.1 h.2 hok hs
  obtain ⟨bs, hheap, -, -⟩ := hreached.begin
  have hlimit' : Limited l (s.begin l) := by
    unfold Limited
    rw [begin_brk]
    exact hlimit
  by_cases hsmall : nbytes ≤ 2147483616
  · exact ⟨fun _ => Or.inl hsmall, fun _ => hheap.kept hsmall⟩
  · rw [hheap.kept_large hlimit' (by omega) hn]
    exact ⟨Or.inr, fun h => h.resolve_left hsmall⟩

/-- The data of the program ends in the first page, and the heap starts behind it. -/
def small : Layout := ⟨128, 256, by decide, by decide⟩

/-- 65600 bytes, and then as many as a `uint` holds, with no memory left. -/
theorem a_request_of_all_is_refused : ∃ s, Run (State.step small) (careful small)
    (State.init small fun _ => ⟨0, 0⟩) [.malloc 65600 [true]] s ∧ Kept small s 4294967295 [false] := by
  have hcomputed : (exec (State.step small) (careful small) (State.init small fun _ => ⟨0, 0⟩)
      [.malloc 65600 [true]]).any (fun s => Fits small s 4294967295 [false]) = true := by
    decide +kernel
  obtain ⟨s, hs, hfits⟩ := (Option.any_eq_true _ _).mp hcomputed
  have hrun := run_of_exec hs
  refine ⟨s, hrun, ?_⟩
  apply (malloc_keeps_its_promise hrun (by decide)).mpr
  exact of_decide_eq_true hfits

/-- For 2 ^ 32 - 16 bytes `sbrk` is asked for 0: the program gets a block of 2 ^ 28 units in a memory
that ends behind its header. -/
theorem a_block_without_memory : ∃ s s' ap, Run (State.step small) (careful small)
    (State.init small fun _ => ⟨0, 0⟩) [.malloc 65600 [true]] s ∧
    malloc small s 4294967280 [] = some (s', some ap) ∧ s'.size (ap - 1) = 268435456 ∧
    s'.brk = ap - 1 ∧ ¬ Kept small s 4294967280 [] := by
  have hcomputed : (exec (State.step small) (careful small) (State.init small fun _ => ⟨0, 0⟩)
      [.malloc 65600 [true]]).any (fun s => (malloc small s 4294967280 []).any fun x =>
        x.2 = some 4358 ∧ x.1.size 4357 = 268435456 ∧ x.1.brk = 4357) = true := by
    decide +kernel
  obtain ⟨s, hs, hmalloc⟩ := (Option.any_eq_true _ _).mp hcomputed
  obtain ⟨⟨s', r⟩, heq, hresult⟩ := (Option.any_eq_true _ _).mp hmalloc
  obtain ⟨rfl, hsize, hbrk⟩ := of_decide_eq_true hresult
  refine ⟨s, s', 4358, run_of_exec hs, heq, hsize, hbrk, ?_⟩
  rintro ⟨⟨s'', r, heq', hin⟩, -⟩
  rw [heq] at heq'
  cases heq'
  obtain ⟨-, hend, -⟩ := hin 4358 rfl
  rw [show 4358 - 1 = 4357 from rfl, hsize, hbrk] at hend
  omega

end xv6.umalloc
