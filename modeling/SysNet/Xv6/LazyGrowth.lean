-- Memory that grows lazily beside memory that grows eagerly. A page that
-- is missing reads like a fresh one for loads, stores, `copyin` and
-- `copyout`, which ask `vmfault` for it. `copyinstr` does not ask.
import SysNet.Xv6.UserMemory

namespace xv6.vm

/-! ## The two ways to grow -/

/-- The page came with the growth from `oldsz` on, and nobody has touched it yet. -/
def missing (oldsz : Nat) (sp : Space) (v : Nat) : Prop :=
  sp.pagetable v = none ∧ PGROUNDUP oldsz ≤ v * PGSIZE ∧ v * PGSIZE < sp.sz

instance (oldsz : Nat) (sp : Space) (v : Nat) : Decidable (missing oldsz sp v) :=
  decidable_of_iff ((sp.pagetable v).isNone ∧ PGROUNDUP oldsz ≤ v * PGSIZE ∧ v * PGSIZE < sp.sz)
    (and_congr_left' Option.isNone_iff_eq_none)

/-- The space with the missing pages filled in. -/
def Space.eager (oldsz : Nat) (sp : Space) : Space :=
  { sp with pagetable := fun v => if missing oldsz sp v then some .zero else sp.pagetable v }

/-- The results of the accesses one after the other. A panic is the last of them. -/
def Space.accesses (sp : Space) : List Access → List (Except Panic Result)
  | [] => []
  | a :: as =>
    match sp.access none a with
    | .error e => [.error e]
    | .ok (sp, r) => .ok r :: sp.accesses as

/-- The loop of `copyinstr` comes to a missing page before it finds the end of the string. -/
def stringMisses (oldsz : Nat) (sp : Space) : Nat → Nat → Nat → Prop
  | 0, _, _ => False
  | k + 1, srcva, max =>
    let va0 := PGROUNDDOWN srcva
    let n := min (PGSIZE - (srcva - va0)) max
    max ≠ 0 ∧ (missing oldsz sp (va0 / PGSIZE) ∨
      match walkaddr sp.pagetable va0 with
      | none => False
      | some pg => 0 ∉ pg.bytes (srcva - va0) n ∧
          stringMisses oldsz sp k (uint64 (va0 + PGSIZE)) (max - n))

instance decideStringMisses (oldsz : Nat) (sp : Space) :
    ∀ k srcva max, Decidable (stringMisses oldsz sp k srcva max)
  | 0, _, _ => isFalse fun h => h
  | k + 1, srcva, max => by
    have := decideStringMisses oldsz sp k
    unfold stringMisses
    simp only
    split <;> infer_instance

/-- A string is read from a missing page, or a user program uses the rest of the last page,
which is not its own. -/
def misses (oldsz : Nat) (sp : Space) : Access → Prop
  | .load va _ _ => sp.sz ≤ va ∧ missing oldsz sp (va / PGSIZE)
  | .store va _ _ => sp.sz ≤ va ∧ missing oldsz sp (va / PGSIZE)
  | .copyinstr va max => stringMisses oldsz sp max va max
  | _ => False

instance (oldsz : Nat) (sp : Space) (a : Access) : Decidable (misses oldsz sp a) := by
  unfold misses
  split <;> infer_instance

/-- No access of the list does. -/
def NeverMisses (oldsz : Nat) : Space → List Access → Prop
  | _, [] => True
  | sp, a :: as =>
    ¬ misses oldsz sp a ∧
      match sp.access none a with
      | .error _ => True
      | .ok (sp, _) => NeverMisses oldsz sp as

instance decideNeverMisses (oldsz : Nat) : ∀ sp as, Decidable (NeverMisses oldsz sp as)
  | _, [] => isTrue trivial
  | sp, a :: as => by
    have := fun sp' => decideNeverMisses oldsz sp' as
    unfold NeverMisses
    split <;> infer_instance

/-- The pages of the growth can be mapped. -/
def Mappable (sp : Space) (newsz : Nat) : Prop :=
  ∀ v, PGROUNDUP sp.sz ≤ v * PGSIZE → v * PGSIZE < newsz →
    sp.pagetable v = none ∧ v * PGSIZE < MAXVA

/-! ## The table after the growth -/

/-- A loop of `uvmalloc` that comes to its end has found every page free. -/
theorem uvmallocLoop_free {pg : Page} {k v : Nat} {pt pt' : PageTable} {stop : Option Nat}
    (h : uvmallocLoop pg k (v * PGSIZE) none pt = .ok (pt', stop)) :
    ∀ w, v ≤ w → w < v + k → pt w = none ∧ w * PGSIZE < MAXVA := by
  induction k generalizing v pt with
  | zero =>
    intro w h1 h2
    omega
  | succ k ih =>
    unfold uvmallocLoop kalloc at h
    simp only at h
    split at h
    · cases h
    · rename_i pt1 hmap
      unfold mappages walk at hmap
      by_cases hmax : MAXVA ≤ v * PGSIZE
      · rw [if_pos hmax] at hmap
        cases hmap
      · rw [if_neg hmax, Nat.mul_div_cancel _ (by decide)] at hmap
        cases hv : pt v with
        | some old =>
          rw [hv] at hmap
          cases hmap
        | none =>
          rw [hv] at hmap
          cases hmap
          rw [← Nat.succ_mul] at h
          intro w h1 h2
          by_cases hw : w = v
          · subst hw
            exact ⟨hv, by omega⟩
          · have hrest := ih h w (by omega) (by omega)
            rwa [Function.update_of_ne hw] at hrest

theorem uvmallocLoop_enough {pg : Page} {k v : Nat} {pt : PageTable}
    (h : ∀ w, v ≤ w → w < v + k → pt w = none ∧ w * PGSIZE < MAXVA) :
    uvmallocLoop pg k (v * PGSIZE) none pt = .ok (overlay pt v k (some pg), none) := by
  rcases Nat.eq_zero_or_pos k with rfl | hk
  · rw [overlay_zero, uvmallocLoop]
  · have hlast := (h (v + k - 1) (by omega) (by omega)).2
    refine uvmallocLoop_all (fun w h1 h2 => (h w h1 h2).1) ?_ trivial
    simp only [MAXVA, PGSIZE] at hlast ⊢
    omega

/-- The pages of the loop of `uvmalloc`. -/
theorem growth_pages {r newsz v : Nat} :
    r ≤ v ∧ v < r + (newsz - r * PGSIZE + PGSIZE - 1) / PGSIZE ↔
      r * PGSIZE ≤ v * PGSIZE ∧ v * PGSIZE < newsz := by
  simp only [PGSIZE]
  omega

/-- Growing eagerly with enough memory, when the size does not wrap. -/
theorem uvmalloc_iff {sp : Space} {newsz : Nat} (hle : sp.sz ≤ newsz) {pt : PageTable} {sz : Nat} :
    uvmalloc sp.pagetable sp.sz newsz .zero none = .ok (pt, sz) ↔
      Mappable sp newsz ∧ pt = (Space.eager sp.sz { sp with sz := newsz }).pagetable ∧ sz = newsz := by
  obtain ⟨r, hr⟩ : ∃ r, PGROUNDUP sp.sz = r * PGSIZE := ⟨_, rfl⟩
  have hpages : Mappable sp newsz ↔ ∀ w, r ≤ w →
      w < r + (newsz - r * PGSIZE + PGSIZE - 1) / PGSIZE →
      sp.pagetable w = none ∧ w * PGSIZE < MAXVA := by
    unfold Mappable
    refine forall_congr' fun w => ?_
    rw [hr, ← and_imp, ← and_imp, growth_pages]
  unfold uvmalloc
  rw [if_neg (by omega)]
  simp only [hr]
  by_cases hfree : Mappable sp newsz
  · have htable : overlay sp.pagetable r ((newsz - r * PGSIZE + PGSIZE - 1) / PGSIZE) (some .zero) =
        (Space.eager sp.sz { sp with sz := newsz }).pagetable := by
      funext v
      have hmissing : missing sp.sz { sp with sz := newsz } v ↔
          sp.pagetable v = none ∧ r * PGSIZE ≤ v * PGSIZE ∧ v * PGSIZE < newsz := by
        unfold missing
        rw [hr]
      unfold overlay Space.eager
      simp only [growth_pages]
      by_cases hv : r * PGSIZE ≤ v * PGSIZE ∧ v * PGSIZE < newsz
      · have hnone := (hfree v (Nat.le_trans (Nat.le_of_eq hr) hv.1) hv.2).1
        rw [if_pos hv, if_pos (hmissing.mpr ⟨hnone, hv⟩)]
      · rw [if_neg hv, if_neg fun h => hv (hmissing.mp h).2]
    rw [uvmallocLoop_enough (hpages.mp hfree), htable]
    simp only [Except.ok.injEq, Prod.mk.injEq]
    constructor
    · rintro ⟨rfl, rfl⟩
      exact ⟨hfree, rfl, rfl⟩
    · rintro ⟨-, rfl, rfl⟩
      exact ⟨rfl, rfl⟩
  · refine iff_of_false (fun h => ?_) fun h => hfree h.1
    split at h
    · cases h
    all_goals
      rename_i hloop
      exact hfree (hpages.mpr (uvmallocLoop_free hloop))

/-- What a lazy call leaves. -/
theorem sbrk_lazy {sp L : Space} {n : Int} {a : Nat} (hn : 0 < n)
    (h : sys_sbrk sp n SBRK_LAZY none = .ok (L, some a)) :
    sp.sz ≤ uint64 (sp.sz + n) ∧ L = { sp with sz := uint64 (sp.sz + n) } ∧ a = sp.sz := by
  unfold sys_sbrk at h
  rw [if_neg (by simp only [SBRK_LAZY, SBRK_EAGER]; omega)] at h
  split at h
  · cases h
  · rename_i hle
    cases h
    exact ⟨by omega, rfl, rfl⟩

/-- An eager call of the same size succeeds when the pages can be mapped, and leaves the pages
of the lazy call filled in. -/
theorem sbrk_eager_iff {sp L E : Space} {n : Int} {a b : Nat} (hn : 0 < n) (hint : isInt n)
    (h : sys_sbrk sp n SBRK_LAZY none = .ok (L, some a)) :
    sys_sbrk sp n SBRK_EAGER none = .ok (E, some b) ↔
      Mappable sp L.sz ∧ E = L.eager sp.sz ∧ b = sp.sz := by
  obtain ⟨hle, rfl, -⟩ := sbrk_lazy hn h
  have hpos : uint64 (sp.sz + n) ≠ 0 := by
    intro hzero
    have hsz : sp.sz = 0 := by omega
    rw [hsz] at hzero
    unfold uint64 at hzero
    unfold isInt at hint
    omega
  have hmap := @uvmalloc_iff sp _ hle
  unfold sys_sbrk growproc
  rw [if_pos (Or.inl rfl), if_pos hn]
  generalize uvmalloc sp.pagetable sp.sz (uint64 (sp.sz + n)) .zero none = r at hmap
  rcases r with e | ⟨pt, sz⟩
  · refine iff_of_false (fun h => by cases h) fun h => ?_
    have hbad := hmap.mpr ⟨h.1, rfl, rfl⟩
    cases hbad
  · obtain ⟨hfree, rfl, rfl⟩ := hmap.mp rfl
    simp only
    rw [if_neg hpos]
    simp only [if_true, Except.ok.injEq, Prod.mk.injEq, Option.some.injEq]
    constructor
    · rintro ⟨rfl, rfl⟩
      exact ⟨hfree, rfl, rfl⟩
    · rintro ⟨-, rfl, rfl⟩
      exact ⟨rfl, rfl⟩

/-! ## One access -/

variable {oldsz va : Nat} {sp sp' : Space}

/-- The pages of the growth are below `MAXVA`. -/
def Reachable (oldsz sz : Nat) : Prop :=
  ∀ v, PGROUNDUP oldsz ≤ v * PGSIZE → v * PGSIZE < sz → v * PGSIZE < MAXVA

theorem eager_of_not_missing {v : Nat} (h : ¬ missing oldsz sp v) :
    (sp.eager oldsz).pagetable v = sp.pagetable v := if_neg h

theorem eager_of_missing {v : Nat} (h : missing oldsz sp v) :
    (sp.eager oldsz).pagetable v = some .zero := if_pos h

theorem not_missing_of_some {v : Nat} {pg : Page} (h : sp.pagetable v = some pg) :
    ¬ missing oldsz sp v := fun hmiss => by
  rw [hmiss.1] at h
  cases h

theorem missing_put {v : Nat} {pg : Page} (h : v ≠ va / PGSIZE) :
    missing oldsz (sp.put va pg) v ↔ missing oldsz sp v := by
  unfold missing Space.put
  simp only [Function.update_of_ne h]

theorem put_self (va : Nat) (pg : Page) : (sp.put va pg).pagetable (va / PGSIZE) = some pg :=
  Function.update_self ..

theorem put_of_ne {v : Nat} {pg : Page} (h : v ≠ va / PGSIZE) :
    (sp.put va pg).pagetable v = sp.pagetable v := Function.update_of_ne h ..

theorem eager_put (va : Nat) (pg : Page) : (sp.put va pg).eager oldsz = (sp.eager oldsz).put va pg := by
  refine congrArg (Space.mk sp.sz) (funext fun v => ?_)
  change ((sp.put va pg).eager oldsz).pagetable v = ((sp.eager oldsz).put va pg).pagetable v
  by_cases hv : v = va / PGSIZE
  · subst hv
    rw [eager_of_not_missing (not_missing_of_some (put_self va pg)), put_self, put_self]
  · rw [put_of_ne hv]
    by_cases hmiss : missing oldsz sp v
    · rw [eager_of_missing hmiss, eager_of_missing ((missing_put hv).mpr hmiss)]
    · rw [eager_of_not_missing hmiss, eager_of_not_missing (mt (missing_put hv).mp hmiss),
        put_of_ne hv]

/-- A missing page that is mapped at last. -/
theorem eager_touch (h : missing oldsz sp (va / PGSIZE)) :
    (sp.put va .zero).eager oldsz = sp.eager oldsz := by
  rw [eager_put]
  refine congrArg (Space.mk sp.sz) (funext fun v => ?_)
  change ((sp.eager oldsz).put va .zero).pagetable v = (sp.eager oldsz).pagetable v
  by_cases hv : v = va / PGSIZE
  · subst hv
    rw [put_self, eager_of_missing h]
  · rw [put_of_ne hv]

theorem rounddown_max : MAXVA ≤ PGROUNDDOWN va ↔ MAXVA ≤ va := by
  simp only [PGROUNDDOWN, MAXVA, PGSIZE]
  omega

/-- `vmfault` with enough memory. -/
theorem vmfault_eq (sp : Space) (va : Nat) :
    vmfault sp va none =
      if sp.sz ≤ va then .ok none
      else if MAXVA ≤ va then .error .walk
      else if (sp.pagetable (va / PGSIZE)).isSome then .ok none
      else .ok (some (sp.put va .zero, none)) := by
  unfold vmfault ismapped mappages walk kalloc
  simp only [rounddown_max, rounddown_div]
  by_cases hsz : sp.sz ≤ va
  · rw [if_pos hsz, if_pos hsz]
  · rw [if_neg hsz, if_neg hsz]
    by_cases hmax : MAXVA ≤ va
    · simp only [if_pos hmax]
    · simp only [if_neg hmax]
      cases hpage : sp.pagetable (va / PGSIZE) with
      | some pg => rfl
      | none => rfl

/-- Where no page is missing, the fault is the same. -/
theorem vmfault_eager (h : ¬ missing oldsz sp (va / PGSIZE)) :
    vmfault (sp.eager oldsz) va none =
      (vmfault sp va none).map (Option.map fun r => (r.1.eager oldsz, r.2)) := by
  rw [vmfault_eq, vmfault_eq, eager_of_not_missing h, ← eager_put]
  change (if sp.sz ≤ va then _ else _) = _
  split
  · rfl
  · split
    · rfl
    · split <;> rfl

/-- Below the size, a missing page comes with the fault. -/
theorem vmfault_missing (h : missing oldsz sp (va / PGSIZE)) (hsz : va < sp.sz) (hmax : va < MAXVA) :
    vmfault sp va none = .ok (some (sp.put va .zero, none)) := by
  rw [vmfault_eq, if_neg (by omega), if_neg (by omega), h.1]
  rfl

/-- A page is fetched the same way, with the missing page filled in. -/
theorem fetch_eager (hva : missing oldsz sp (va / PGSIZE) → va < sp.sz ∧ va < MAXVA) :
    fetch (sp.eager oldsz) va none =
      (fetch sp va none).map (Option.map fun r => (r.1.eager oldsz, r.2)) := by
  unfold fetch
  by_cases hmiss : missing oldsz sp (va / PGSIZE)
  · obtain ⟨hsz, hmax⟩ := hva hmiss
    have hfound : walkaddr (sp.eager oldsz).pagetable va = some .zero := by
      unfold walkaddr
      rw [if_neg (by omega), eager_of_missing hmiss]
      rfl
    have hnot : walkaddr sp.pagetable va = none := by
      unfold walkaddr
      rw [if_neg (by omega), hmiss.1]
      rfl
    simp only [hfound, hnot, vmfault_missing hmiss hsz hmax, Except.map, Option.map]
    rw [eager_touch hmiss]
  · have hsame : walkaddr (sp.eager oldsz).pagetable va = walkaddr sp.pagetable va := by
      unfold walkaddr
      rw [eager_of_not_missing hmiss]
    rw [hsame]
    cases walkaddr sp.pagetable va with
    | some pg => rfl
    | none =>
      simp only [vmfault_eager hmiss]
      rcases vmfault sp va none with e | _ | r <;> rfl

theorem vmfault_memory {r : Space × Memory} (h : vmfault sp va none = .ok (some r)) :
    r.1.sz = sp.sz ∧ r.2 = none := by
  rw [vmfault_eq] at h
  split at h
  · cases h
  · split at h
    · cases h
    · split at h
      · cases h
      · cases h
        exact ⟨rfl, rfl⟩

theorem fetch_memory {r : Space × Memory × Page} (h : fetch sp va none = .ok (some r)) :
    r.1.sz = sp.sz ∧ r.2.1 = none := by
  unfold fetch at h
  split at h
  · cases h
    exact ⟨rfl, rfl⟩
  · split at h
    · cases h
    · cases h
    · rename_i sp' mem hfault
      cases h
      exact vmfault_memory hfault

/-- The address that `copyin` and `copyout` look up is that of a page. -/
theorem Reachable.page (h : Reachable oldsz sp.sz) (va : Nat)
    (hmiss : missing oldsz sp (PGROUNDDOWN va / PGSIZE)) :
    PGROUNDDOWN va < sp.sz ∧ PGROUNDDOWN va < MAXVA := by
  rw [rounddown_div] at hmiss
  exact ⟨hmiss.2.2, h _ hmiss.2.1 hmiss.2.2⟩

theorem copyout_eager (h : Reachable oldsz sp.sz) (k dstva : Nat) (src : List UInt8) :
    copyoutLoop k (sp.eager oldsz) none dstva src =
      (copyoutLoop k sp none dstva src).map fun r => (r.1.eager oldsz, r.2) := by
  induction k generalizing sp dstva src with
  | zero => rfl
  | succ k ih =>
    unfold copyoutLoop
    split
    · rfl
    · simp only
      split
      · rfl
      · rw [fetch_eager (h.page dstva)]
        cases hf : fetch sp (PGROUNDDOWN dstva) none with
        | error e => rfl
        | ok r =>
          rcases r with _ | ⟨sp', mem, pg⟩
          · rfl
          · obtain ⟨hsz, rfl⟩ := fetch_memory hf
            simp only [Except.map, Option.map]
            split
            · rw [← eager_put]
              exact ih (by rw [show (sp'.put _ _).sz = sp'.sz from rfl, hsz]; exact h) _ _
            · rfl

theorem copyin_eager (h : Reachable oldsz sp.sz) (k srcva len : Nat) (dst : List UInt8) :
    copyinLoop k (sp.eager oldsz) none srcva len dst =
      (copyinLoop k sp none srcva len dst).map fun r => (r.1.eager oldsz, r.2) := by
  induction k generalizing sp srcva len dst with
  | zero => rfl
  | succ k ih =>
    unfold copyinLoop
    split
    · rfl
    · simp only
      rw [fetch_eager (h.page srcva)]
      cases hf : fetch sp (PGROUNDDOWN srcva) none with
      | error e => rfl
      | ok r =>
        rcases r with _ | ⟨sp', mem, pg⟩
        · rfl
        · obtain ⟨hsz, rfl⟩ := fetch_memory hf
          exact ih (hsz ▸ h) _ _ _

/-- A string is the same where no page of it is missing. -/
theorem copyinstr_eager {k srcva max : Nat} (h : ¬ stringMisses oldsz sp k srcva max)
    (dst : List UInt8) :
    copyinstrLoop (sp.eager oldsz).pagetable k srcva max dst =
      copyinstrLoop sp.pagetable k srcva max dst := by
  induction k generalizing srcva max dst with
  | zero => rfl
  | succ k ih =>
    unfold stringMisses at h
    unfold copyinstrLoop
    split
    · rfl
    · rename_i hmax
      simp only at h ⊢
      have hpage : ¬ missing oldsz sp (PGROUNDDOWN srcva / PGSIZE) :=
        fun hmiss => h ⟨hmax, Or.inl hmiss⟩
      have hsame : walkaddr (sp.eager oldsz).pagetable (PGROUNDDOWN srcva) =
          walkaddr sp.pagetable (PGROUNDDOWN srcva) := by
        unfold walkaddr
        rw [eager_of_not_missing hpage]
      rw [hsame]
      cases hwalk : walkaddr sp.pagetable (PGROUNDDOWN srcva) with
      | none => rfl
      | some pg =>
        simp only
        split
        · rfl
        · rename_i hzero
          refine ih (fun hrest => h ⟨hmax, Or.inr ?_⟩) _
          rw [hwalk]
          exact ⟨hzero, hrest⟩

/-- A fresh page ends every string. -/
theorem zero_mem_bytes {off n : Nat} (h : 0 < n) : 0 ∈ Page.zero.bytes off n :=
  List.mem_map.mpr ⟨0, List.mem_range.mpr h, rfl⟩

/-- At a missing page the string fails, and with the page filled in it ends there. -/
theorem copyinstr_differs (hreach : Reachable oldsz sp.sz) {k srcva max : Nat}
    (h : stringMisses oldsz sp k srcva max) (dst : List UInt8) :
    (copyinstrLoop sp.pagetable k srcva max dst).2 = false ∧
      (copyinstrLoop (sp.eager oldsz).pagetable k srcva max dst).2 = true := by
  induction k generalizing srcva max dst with
  | zero => exact h.elim
  | succ k ih =>
    obtain ⟨hmax, hpage⟩ := h
    unfold copyinstrLoop
    rw [if_neg hmax, if_neg hmax]
    simp only
    by_cases hmiss : missing oldsz sp (PGROUNDDOWN srcva / PGSIZE)
    · have hlt := (hreach.page srcva hmiss).2
      have hnone : walkaddr sp.pagetable (PGROUNDDOWN srcva) = none := by
        unfold walkaddr
        rw [if_neg (by omega), hmiss.1]
        rfl
      have hzero : walkaddr (sp.eager oldsz).pagetable (PGROUNDDOWN srcva) = some .zero := by
        unfold walkaddr
        rw [if_neg (by omega), eager_of_missing hmiss]
        rfl
      have hpos : 0 < min (PGSIZE - (srcva - PGROUNDDOWN srcva)) max := by
        simp only [PGROUNDDOWN, PGSIZE]
        omega
      simp only [hnone, hzero]
      rw [if_pos (zero_mem_bytes hpos)]
      exact ⟨trivial, rfl⟩
    · have hrest := hpage.resolve_left hmiss
      cases hwalk : walkaddr sp.pagetable (PGROUNDDOWN srcva) with
      | none =>
        rw [hwalk] at hrest
        exact hrest.elim
      | some pg =>
        rw [hwalk] at hrest
        obtain ⟨hzero, hrest⟩ := hrest
        have hsame : walkaddr (sp.eager oldsz).pagetable (PGROUNDDOWN srcva) = some pg := by
          unfold walkaddr at hwalk ⊢
          rw [eager_of_not_missing hmiss]
          exact hwalk
        simp only [hsame]
        rw [if_neg hzero, if_neg hzero]
        exact ih hrest _

theorem put_put (va : Nat) (pg pg' : Page) : (sp.put va pg).put va pg' = sp.put va pg' :=
  congrArg (Space.mk sp.sz) (Function.update_idem ..)

theorem translate_eager (h : ¬ missing oldsz sp (va / PGSIZE)) :
    translate (sp.eager oldsz).pagetable va = translate sp.pagetable va := by
  unfold translate
  rw [eager_of_not_missing h]

theorem translate_missing (h : missing oldsz sp (va / PGSIZE)) : translate sp.pagetable va = none := by
  unfold translate
  rw [h.1, ite_self]

theorem translate_filled (h : missing oldsz sp (va / PGSIZE)) (hmax : va < MAXVA) :
    translate (sp.eager oldsz).pagetable va = some .zero := by
  unfold translate
  rw [if_pos hmax, eager_of_missing h]

/-- The whole page is below `MAXVA`. -/
theorem Reachable.lt (h : Reachable oldsz sp.sz) (hmiss : missing oldsz sp (va / PGSIZE)) :
    va < MAXVA := by
  have hlt := h _ hmiss.2.1 hmiss.2.2
  simp only [MAXVA, PGSIZE] at hlt ⊢
  omega

/-- An access that misses nothing is the same, and leaves the same space but for what is still
missing. -/
theorem access_eager (hreach : Reachable oldsz sp.sz) {a : Access} (h : ¬ misses oldsz sp a) :
    (sp.eager oldsz).access none a = (sp.access none a).map fun r => (r.1.eager oldsz, r.2) := by
  cases a with
  | load va w inPage =>
    simp only [Space.access, load]
    by_cases hmiss : missing oldsz sp (va / PGSIZE)
    · have hsz : va < sp.sz := Nat.lt_of_not_le fun hle => h ⟨hle, hmiss⟩
      have hmax := hreach.lt hmiss
      rw [translate_missing hmiss, translate_filled hmiss hmax]
      simp only [Option.filter, vmfault_missing hmiss hsz hmax, Except.map, eager_touch hmiss]
      rfl
    · rw [translate_eager hmiss]
      split
      · rfl
      · rw [vmfault_eager hmiss]
        rcases vmfault sp va none with e | _ | r <;> rfl
  | store va bytes inPage =>
    simp only [Space.access, store]
    by_cases hmiss : missing oldsz sp (va / PGSIZE)
    · have hsz : va < sp.sz := Nat.lt_of_not_le fun hle => h ⟨hle, hmiss⟩
      have hmax := hreach.lt hmiss
      rw [translate_missing hmiss, translate_filled hmiss hmax]
      simp only [Option.filter, vmfault_missing hmiss hsz hmax, Except.map, put_put, eager_put]
      rfl
    · rw [translate_eager hmiss]
      split
      · simp only [Except.map, eager_put]
      · rw [vmfault_eager hmiss]
        rcases vmfault sp va none with e | _ | r
        · rfl
        · rfl
        · simp only [Except.map, Option.map, eager_put]
  | copyin va len =>
    simp only [Space.access, copyin, copyin_eager hreach]
    rcases copyinLoop len sp none va len [] with e | r <;> rfl
  | copyout va bytes =>
    simp only [Space.access, copyout, copyout_eager hreach]
    rcases copyoutLoop bytes.length sp none va bytes with e | r <;> rfl
  | copyinstr va max =>
    simp only [Space.access, copyinstr, Except.map]
    rw [copyinstr_eager h]

/-- An access that misses fails, and does not with the page filled in. -/
theorem access_differs (hreach : Reachable oldsz sp.sz) {a : Access} (h : misses oldsz sp a) :
    ∃ sp₁ r₁ sp₂ r₂, sp.access none a = .ok (sp₁, r₁) ∧
      (sp.eager oldsz).access none a = .ok (sp₂, r₂) ∧ r₁ ≠ r₂ := by
  cases a with
  | load va w inPage =>
    obtain ⟨hsz, hmiss⟩ := h
    simp only [Space.access, load]
    rw [translate_missing hmiss, translate_filled hmiss (hreach.lt hmiss), vmfault_eq, if_pos hsz]
    exact ⟨_, _, _, _, rfl, rfl, fun heq => Bool.false_ne_true (congrArg Prod.snd heq)⟩
  | store va bytes inPage =>
    obtain ⟨hsz, hmiss⟩ := h
    simp only [Space.access, store]
    rw [translate_missing hmiss, translate_filled hmiss (hreach.lt hmiss), vmfault_eq, if_pos hsz]
    exact ⟨_, _, _, _, rfl, rfl, fun heq => Bool.false_ne_true (congrArg Prod.snd heq)⟩
  | copyin va len => exact h.elim
  | copyout va bytes => exact h.elim
  | copyinstr va max =>
    obtain ⟨hfalse, htrue⟩ := copyinstr_differs hreach h []
    refine ⟨_, _, _, _, rfl, rfl, fun heq => ?_⟩
    unfold copyinstr at heq
    rw [heq, htrue] at hfalse
    cases hfalse

/-! ## Every sequence of accesses -/

theorem copyoutLoop_sz {k dstva : Nat} {src : List UInt8} {r : Space × Bool}
    (h : copyoutLoop k sp none dstva src = .ok r) : r.1.sz = sp.sz := by
  induction k generalizing sp dstva src with
  | zero =>
    cases h
    rfl
  | succ k ih =>
    unfold copyoutLoop at h
    split at h
    · cases h
      rfl
    · simp only at h
      split at h
      · cases h
        rfl
      · cases hf : fetch sp (PGROUNDDOWN dstva) none with
        | error e =>
          rw [hf] at h
          cases h
        | ok found =>
          rw [hf] at h
          rcases found with _ | ⟨sp', mem, pg⟩
          · cases h
            rfl
          · obtain ⟨hsz, rfl⟩ := fetch_memory hf
            simp only at h
            split at h
            · exact (ih h).trans hsz
            · cases h
              exact hsz

theorem copyinLoop_sz {k srcva len : Nat} {dst : List UInt8} {r : Space × List UInt8 × Bool}
    (h : copyinLoop k sp none srcva len dst = .ok r) : r.1.sz = sp.sz := by
  induction k generalizing sp srcva len dst with
  | zero =>
    cases h
    rfl
  | succ k ih =>
    unfold copyinLoop at h
    split at h
    · cases h
      rfl
    · cases hf : fetch sp (PGROUNDDOWN srcva) none with
      | error e =>
        simp only [hf] at h
        cases h
      | ok found =>
        simp only [hf] at h
        rcases found with _ | ⟨sp', mem, pg⟩
        · cases h
          rfl
        · obtain ⟨hsz, rfl⟩ := fetch_memory hf
          exact (ih h).trans hsz

/-- No access changes the size. -/
theorem access_sz {a : Access} {r : Result} (h : sp.access none a = .ok (sp', r)) :
    sp'.sz = sp.sz := by
  cases a with
  | load va w inPage =>
    simp only [Space.access, load] at h
    split at h
    · cases h
      rfl
    · split at h
      · cases h
      · cases h
        rfl
      · rename_i hfault
        cases h
        exact (vmfault_memory hfault).1
  | store va bytes inPage =>
    simp only [Space.access, store] at h
    split at h
    · cases h
      rfl
    · split at h
      · cases h
      · cases h
        rfl
      · rename_i hfault
        cases h
        exact (vmfault_memory hfault).1
  | copyin va len =>
    simp only [Space.access, copyin] at h
    cases hloop : copyinLoop len sp none va len [] with
    | error e =>
      rw [hloop] at h
      cases h
    | ok found =>
      rw [hloop] at h
      cases h
      exact copyinLoop_sz hloop
  | copyout va bytes =>
    simp only [Space.access, copyout] at h
    cases hloop : copyoutLoop bytes.length sp none va bytes with
    | error e =>
      rw [hloop] at h
      cases h
    | ok found =>
      rw [hloop] at h
      cases h
      exact copyoutLoop_sz hloop
  | copyinstr va max =>
    cases h
    rfl

/-- The accesses give the same as with the missing pages filled in exactly when none of them
misses. -/
theorem accesses_eager_iff (hreach : Reachable oldsz sp.sz) (as : List Access) :
    sp.accesses as = (sp.eager oldsz).accesses as ↔ NeverMisses oldsz sp as := by
  induction as generalizing sp with
  | nil => exact iff_of_true rfl trivial
  | cons a as ih =>
    unfold Space.accesses NeverMisses
    by_cases hmiss : misses oldsz sp a
    · obtain ⟨sp₁, r₁, sp₂, r₂, h₁, h₂, hne⟩ := access_differs hreach hmiss
      refine iff_of_false (fun heq => ?_) fun hnever => hnever.1 hmiss
      rw [h₁, h₂] at heq
      simp only [List.cons.injEq, Except.ok.injEq] at heq
      exact hne heq.1
    · rw [access_eager hreach hmiss]
      cases hacc : sp.access none a with
      | error e => exact iff_of_true rfl ⟨hmiss, trivial⟩
      | ok r =>
        obtain ⟨sp', r⟩ := r
        have hih := @ih sp' (by rw [access_sz hacc]; exact hreach)
        simp only [Except.map, List.cons.injEq, true_and]
        rw [hih]
        exact ⟨fun hnever => ⟨hmiss, hnever⟩, fun hnever => hnever.2⟩

/-- Memory that was grown lazily is like memory that was grown eagerly exactly when the eager
call can map the pages and no access misses one: no string is read from a page that nobody has
touched, and no load or store uses the last page past the size. -/
theorem lazy_growth_is_eager_iff {sp L : Space} {n : Int} {a : Nat} (hn : 0 < n) (hint : isInt n)
    (h : sys_sbrk sp n SBRK_LAZY none = .ok (L, some a)) (as : List Access) :
    (∃ E b, sys_sbrk sp n SBRK_EAGER none = .ok (E, some b) ∧ L.accesses as = E.accesses as) ↔
      Mappable sp L.sz ∧ NeverMisses sp.sz L as := by
  constructor
  · rintro ⟨E, b, hE, heq⟩
    obtain ⟨hmap, rfl, -⟩ := (sbrk_eager_iff hn hint h).mp hE
    exact ⟨hmap, (accesses_eager_iff (fun v h1 h2 => (hmap v h1 h2).2) as).mp heq⟩
  · rintro ⟨hmap, hnever⟩
    refine ⟨L.eager sp.sz, sp.sz, (sbrk_eager_iff hn hint h).mpr ⟨hmap, rfl, rfl⟩, ?_⟩
    exact (accesses_eager_iff (fun v h1 h2 => (hmap v h1 h2).2) as).mpr hnever

/-- A store into the second page, and reads of it and of the first page. -/
theorem a_touched_string_is_eager : ∃ L E b,
    sys_sbrk { sz := 0, pagetable := proc_pagetable } 8192 SBRK_LAZY none = .ok (L, some 0) ∧
    sys_sbrk { sz := 0, pagetable := proc_pagetable } 8192 SBRK_EAGER none = .ok (E, some b) ∧
    L.accesses [.store 4100 [7] (by decide), .copyin 4094 8, .copyinstr 4100 5] =
      E.accesses [.store 4100 [7] (by decide), .copyin 4094 8, .copyinstr 4100 5] := by
  have hlazy : sys_sbrk { sz := 0, pagetable := proc_pagetable } 8192 SBRK_LAZY none =
      .ok ({ sz := 8192, pagetable := proc_pagetable }, some 0) := rfl
  have hmap : Mappable { sz := 0, pagetable := proc_pagetable } 8192 := by
    intro v _ hv
    refine ⟨proc_pagetable_below ?_, ?_⟩
    all_goals
      simp only [TRAPFRAME, TRAMPOLINE, MAXVA, PGSIZE] at hv ⊢
      omega
  obtain ⟨E, b, hE, heq⟩ := (lazy_growth_is_eager_iff (by decide) (by decide) hlazy
    [.store 4100 [7] (by decide), .copyin 4094 8, .copyinstr 4100 5]).mpr ⟨hmap, by decide +kernel⟩
  exact ⟨_, E, b, hlazy, hE, heq⟩

/-- A string is read from a page that nobody has touched. -/
theorem a_lazy_string_is_lost : ¬ ∀ (sp L E : Space) (n : Int) (a b : Nat), 0 < n → isInt n →
    sys_sbrk sp n SBRK_LAZY none = .ok (L, some a) →
    sys_sbrk sp n SBRK_EAGER none = .ok (E, some b) →
    ∀ as, L.accesses as = E.accesses as := by
  intro h
  have heq := h { sz := 0, pagetable := proc_pagetable } _ _ 4096 0 0 (by decide) (by decide) rfl rfl
    [.copyinstr 0 16]
  revert heq
  decide +kernel

end xv6.vm
