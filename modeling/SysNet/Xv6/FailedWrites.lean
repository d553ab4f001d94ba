-- A write whose user buffer has a page that cannot be read: `writei`
-- (kernel/fs.c) leaves its loop behind a copy that has changed a part of
-- the cached block (`copyin`, kernel/vm.c), and logs nothing of it.
import SysNet.Xv6.Vm
import SysNet.Xv6.WriteLog

open arrays bytes owners runs

namespace xv6.fs

/-! ## The user buffer -/

/-- How many bytes `copyin` copies, page by page, before it comes to one that it cannot read. -/
def copyinLoop (readable : Nat → Bool) : Nat → Nat → Nat → Nat
  | 0, _, _ => 0
  | k + 1, srcva, len =>
    if len = 0 then 0
    else
      let va0 := vm.PGROUNDDOWN srcva
      if readable (va0 / vm.PGSIZE) then
        let n := min (vm.PGSIZE - (srcva - va0)) len
        n + copyinLoop readable k (va0 + vm.PGSIZE) (len - n)
      else 0

def copyin (readable : Nat → Bool) (srcva len : Nat) : Nat := copyinLoop readable len srcva len

def either_copyin (readable : Nat → Bool) (srcva len : Nat) : Copy :=
  if copyin readable srcva len = len then .all else .fails (copyin readable srcva len)

/-- The copies of the turns of `writei`, for `n` bytes at the address. -/
def copiesOf (readable : Nat → Bool) : Nat → Nat → Nat → Nat → List Copy
  | 0, _, _, _ => []
  | k + 1, srcva, off, n =>
    if n = 0 then []
    else
      let m := min n (BSIZE - off % BSIZE)
      either_copyin readable srcva m :: copiesOf readable k (srcva + m) (off + m) (n - m)

variable {sb : Superblock} {d d' d'' : Disk} {i j k b c x off fin addr lo top : Nat}
  {ip ip' ip'' : Dinode} {inodes : Nat → Dinode} {src : List UInt8} {copies : List Copy}
  {blocks : List Nat} {readable : Nat → Bool} {srcva len u m : Nat}

/-- The page of the address can be read. -/
def Readable (readable : Nat → Bool) (va : Nat) : Prop := readable (va / vm.PGSIZE) = true

/-- The first `u` of `len` bytes can be read, and the next one cannot. -/
structure Copies (readable : Nat → Bool) (srcva len u : Nat) : Prop where
  le : u ≤ len
  here : ∀ x < u, Readable readable (srcva + x)
  stop : u < len → ¬ Readable readable (srcva + u)

theorem Copies.unique {v : Nat} (h : Copies readable srcva len u) (h' : Copies readable srcva len v) :
    u = v := by
  rcases Nat.lt_trichotomy u v with hlt | heq | hlt
  · exact absurd (h'.here u hlt) (h.stop (Nat.lt_of_lt_of_le hlt h'.le))
  · exact heq
  · exact absurd (h.here v hlt) (h'.stop (Nat.lt_of_lt_of_le hlt h.le))

theorem copyinLoop_copies (hk : len ≤ k) : Copies readable srcva len (copyinLoop readable k srcva len) := by
  induction k generalizing srcva len with
  | zero =>
    obtain rfl := Nat.eq_zero_of_le_zero hk
    exact ⟨Nat.le_refl _, fun x hx => absurd hx (Nat.not_lt_zero x), fun h => absurd h (Nat.lt_irrefl 0)⟩
  | succ k ih =>
    unfold copyinLoop
    by_cases hzero : len = 0
    · subst hzero
      rw [if_pos rfl]
      exact ⟨Nat.le_refl _, fun x hx => absurd hx (Nat.not_lt_zero x), fun h => absurd h (Nat.lt_irrefl 0)⟩
    · have hpage : vm.PGROUNDDOWN srcva / vm.PGSIZE = srcva / vm.PGSIZE := by
        unfold vm.PGROUNDDOWN vm.PGSIZE
        omega
      rw [if_neg hzero]
      simp only [hpage]
      by_cases hread : readable (srcva / vm.PGSIZE) = true
      · rw [if_pos hread]
        generalize hn : min (vm.PGSIZE - (srcva - vm.PGROUNDDOWN srcva)) len = n
        have hpos : 0 < n ∧ n ≤ len := by
          unfold vm.PGROUNDDOWN vm.PGSIZE at hn
          omega
        have hin : ∀ x < n, (srcva + x) / vm.PGSIZE = srcva / vm.PGSIZE := by
          intro x hx
          unfold vm.PGROUNDDOWN vm.PGSIZE at hn
          unfold vm.PGSIZE
          omega
        obtain ⟨hle, hhere, hstop⟩ := @ih (vm.PGROUNDDOWN srcva + vm.PGSIZE) (len - n) (by omega)
        generalize copyinLoop readable k (vm.PGROUNDDOWN srcva + vm.PGSIZE) (len - n) = v at hle hhere hstop
        -- behind the first page, the address is the start of the next one
        have hnext : n < len → vm.PGROUNDDOWN srcva + vm.PGSIZE = srcva + n := by
          intro hlt
          unfold vm.PGROUNDDOWN vm.PGSIZE at hn ⊢
          omega
        refine ⟨by omega, fun x hx => ?_, fun hlt => ?_⟩
        · by_cases hfirst : x < n
          · unfold Readable
            rw [hin x hfirst]
            exact hread
          · have hrest := hhere (x - n) (by omega)
            rw [hnext (by omega), Nat.add_assoc, Nat.add_sub_cancel' (Nat.le_of_not_lt hfirst)] at hrest
            exact hrest
        · have hrest := hstop (by omega)
          rw [hnext (by omega), Nat.add_assoc] at hrest
          exact hrest
      · rw [if_neg hread]
        refine ⟨Nat.zero_le _, fun x hx => absurd hx (Nat.not_lt_zero x), fun _ => ?_⟩
        exact hread

theorem copyin_copies (readable : Nat → Bool) (srcva len : Nat) :
    Copies readable srcva len (copyin readable srcva len) := copyinLoop_copies (Nat.le_refl _)

/-- The part of a buffer, when what lies before it has been copied. -/
theorem copyin_part (readable : Nat → Bool) (srcva : Nat) {p : Nat} (hm : p + m ≤ len)
    (hp : p ≤ copyin readable srcva len) :
    copyin readable (srcva + p) m = min m (copyin readable srcva len - p) := by
  obtain ⟨hle, hhere, hstop⟩ := copyin_copies readable srcva len
  refine (copyin_copies readable (srcva + p) m).unique ⟨Nat.min_le_left .., fun x hx => ?_, fun hlt => ?_⟩
  · rw [Nat.add_assoc]
    exact hhere _ (by omega)
  · have hnot := hstop (by omega)
    have heq : srcva + p + min m (copyin readable srcva len - p) = srcva + copyin readable srcva len := by
      omega
    rwa [heq]

/-! ## Free blocks -/

/-- How many blocks are free. -/
def frees (sb : Superblock) (d : Disk) : Nat :=
  ((Finset.range sb.size).filter fun c => isUsed sb d c = false).card

theorem frees_congr (h : ∀ c < sb.size, isUsed sb d' c = isUsed sb d c) : frees sb d' = frees sb d := by
  unfold frees
  congr 1
  apply Finset.filter_congr
  intro c hc
  rw [h c (Finset.mem_range.mp hc)]

theorem frees_full (h : Full sb d) : frees sb d = 0 := by
  unfold frees
  rw [Finset.card_eq_zero, Finset.filter_eq_empty_iff]
  intro c hc
  simp only [h c (Finset.mem_range.mp hc), Bool.true_eq_false, not_false_eq_true]

theorem balloc_frees (h0 : ∀ b < sb.datastart, isUsed sb d b) (heq : balloc sb d = (d', b)) :
    frees sb d = frees sb d' + if b = 0 then 0 else 1 := by
  rcases balloc_spec h0 with hnone | ⟨d₁, b₁, hsome, hb0, hlt, hfree, hused, -⟩
  · rw [hnone] at heq
    cases heq
    rfl
  · rw [hsome] at heq
    cases heq
    rw [if_neg hb0]
    have hsub : (Finset.range sb.size).filter (fun c => isUsed sb d c = false) =
        insert b ((Finset.range sb.size).filter fun c => isUsed sb d' c = false) := by
      apply Finset.ext
      intro c
      simp only [Finset.mem_insert, Finset.mem_filter, Finset.mem_range, ← Bool.not_eq_true]
      constructor
      · rintro ⟨hc, hno⟩
        by_cases hcb : c = b
        · exact Or.inl hcb
        · exact Or.inr ⟨hc, fun h => ((hused c hc).mp h).elim hno hcb⟩
      · rintro (rfl | ⟨hc, hno⟩)
        · exact ⟨hlt, hfree⟩
        · exact ⟨hc, fun h => hno ((hused c hc).mpr (Or.inl h))⟩
    unfold frees
    rw [hsub, Finset.card_insert_of_notMem]
    rw [Finset.mem_filter, not_and]
    intro _ hno
    rw [(hused b hlt).mpr (Or.inr rfl)] at hno
    cases hno

theorem loadAddr_frees (h0 : ∀ b < sb.datastart, isUsed sb d b)
    (heq : loadAddr sb d ip k = (d', ip', addr)) :
    frees sb d = frees sb d' + if ip.addrs k = 0 ∧ addr ≠ 0 then 1 else 0 := by
  unfold loadAddr at heq
  by_cases hzero : ip.addrs k = 0
  · rw [if_pos hzero] at heq
    rcases hb : balloc sb d with ⟨d₁, _ | b⟩
    · rw [hb] at heq
      cases heq
      rw [if_neg fun h => h.2 rfl]
      exact balloc_frees h0 hb
    · rw [hb] at heq
      cases heq
      rw [if_pos ⟨hzero, Nat.succ_ne_zero b⟩]
      exact balloc_frees h0 hb
  · rw [if_neg hzero] at heq
    cases heq
    rw [if_neg fun h => hzero h.1]
    rfl

/-- Where the indirect block is there, `bmap` takes a free block when that of the file is missing. -/
theorem bmap_frees {bn : Nat} (h : Consistent sb d (Function.update inodes i ip)) (hi : i < sb.islots)
    (ht : ip.type ≠ 0) (hind : NDIRECT ≤ bn → ip.addrs NDIRECT ≠ 0)
    (heq : bmap sb d ip bn = .ok (d', ip', addr)) :
    frees sb d = frees sb d' + if addrOf d ip (place bn) = 0 ∧ addr ≠ 0 then 1 else 0 := by
  unfold bmap at heq
  by_cases hdirect : bn < NDIRECT
  · rw [if_pos hdirect] at heq
    rw [place_direct hdirect, addrOf_direct (Nat.le_of_lt hdirect)]
    exact loadAddr_frees h.metadata (Except.ok.inj heq)
  · have hne := hind (Nat.le_of_not_lt hdirect)
    rw [if_neg hdirect] at heq
    by_cases he : bn - NDIRECT < NINDIRECT
    · have hentry : addrOf d ip (place bn) = get32 (d (ip.addrs NDIRECT)) (4 * (bn - NDIRECT)) := by
        have hplace : place bn = NDIRECT + 1 + (bn - NDIRECT) := by
          unfold place
          rw [if_neg hdirect]
          omega
        rw [hplace, addrOf_entry hne he]
      have hload : loadAddr sb d ip NDIRECT = (d, ip, ip.addrs NDIRECT) := if_neg hne
      rw [if_pos he, hload] at heq
      rw [hentry]
      have hself : Function.update inodes i ip i = ip := Function.update_self ..
      have hused := h.indirect hi (by rwa [hself]) (by rwa [hself])
      rw [hself] at hused
      obtain ⟨a, ha⟩ : ∃ a, ip.addrs NDIRECT = a + 1 := ⟨ip.addrs NDIRECT - 1, by omega⟩
      rw [ha] at heq hused ⊢
      simp only at heq
      by_cases hzero : get32 (d (a + 1)) (4 * (bn - NDIRECT)) = 0
      · rw [if_pos hzero] at heq
        rcases hb : balloc sb d with ⟨d₂, _ | b⟩
        · rw [hb] at heq
          cases heq
          rw [if_neg fun h => h.2 rfl]
          exact balloc_frees h.metadata hb
        · rw [hb] at heq
          cases heq
          rw [if_pos ⟨hzero, Nat.succ_ne_zero b⟩, frees_congr fun c hc => isUsed_update hused.1 hc _]
          exact balloc_frees h.metadata hb
      · rw [if_neg hzero] at heq
        cases heq
        rw [if_neg fun h => hzero h.1]
        rfl
    · rw [if_neg he] at heq
      cases heq

/-! ## Where the loop ends -/

/-- The bytes that are written behind the end of what is reported. -/
def Ending.past : Ending → Nat
  | .failed _ past => past
  | _ => 0

/-- A turn changes one block of the file, and no address of another. -/
theorem Ready.places {q : Nat} (h : Ready sb inodes i d ip off src) (hne : src ≠ [])
    (hmap : bmap sb d ip (off / BSIZE) = .ok (d', ip', addr)) (haddr : addr ≠ 0) (hq : q ≠ off / BSIZE)
    (x : Buffer) : addrOf (Function.update d' addr x) ip' (place q) = addrOf d ip (place q) := by
  obtain ⟨_, _, _, heq, hext, hat, -, hplaces⟩ := bmap_spec h.consistent h.slot h.type (h.block_lt hne)
  rw [hmap] at heq
  cases heq
  have hself : Function.update inodes i ip' i = ip' := Function.update_self ..
  have ht' : ip'.type ≠ 0 := by
    rw [hext.type]
    exact h.type
  have hplace : place q ≠ place (off / BSIZE) := by
    intro heq
    apply hq
    unfold place at heq
    split at heq <;> split at heq <;> omega
  rw [← hplaces _ hplace (place_ne q)]
  apply addrOf_congr rfl rfl
  intro hind
  refine Function.update_of_ne (fun heq => place_ne (off / BSIZE) ?_) ..
  have hone := hext.consistent.one (j := i) (m := NDIRECT) (k := place (off / BSIZE)) h.slot (by rwa [hself])
    h.slot (by rwa [hself]) (by rwa [hself, addrOf_direct (Nat.le_refl _)])
    (by rw [hself, addrOf_direct (Nat.le_refl _), heq]; exact hat haddr)
  exact hone.2.symm

variable {e : Ending} {past : Nat}

theorem Turns.src_ne (hturns : Turns sb d ip off src copies d' ip' fin blocks e) (he : e ≠ .done) :
    src ≠ [] := by
  cases hturns with
  | done => exact absurd rfl he
  | full hne => exact hne
  | failed hne => exact hne
  | turn hne => exact hne

theorem Turns.wrote (hturns : Turns sb d ip off src copies d' ip' fin blocks e)
    (h : Ready sb inodes i d ip off src) : off ≤ fin ∧ fin + e.past ≤ off + src.length ∧
      Wrote sb inodes i d d' ip ip' off (fin + e.past) src := by
  induction hturns with
  | done => exact ⟨Nat.le_refl _, Nat.le_refl _, .refl h.consistent h.covered _⟩
  | full hne hmap => exact ⟨Nat.le_refl _, Nat.le_add_right .., (h.mapped hne hmap).1⟩
  | @failed d d' ip ip' off addr j m src copies hne hmap haddr hm hcopy =>
    have hpart : min j m ≤ BSIZE - off % BSIZE := by omega
    refine ⟨Nat.le_refl _, ?_, h.wrote hne hmap haddr hpart⟩
    apply Nat.add_le_add_left
    change min j m ≤ src.length
    omega
  | @turn d d' d'' ip ip' ip'' off addr m fin src copies blocks e hne hmap haddr hm hcopy _ ih =>
    have hpart : m ≤ BSIZE - off % BSIZE := by omega
    obtain ⟨hge, hle, hrest⟩ := ih (h.next hne hmap haddr hm)
    rw [List.length_drop] at hle
    refine ⟨by omega, by omega, ?_⟩
    exact (h.wrote hne hmap haddr hpart).append hrest (by omega)

/-- What is not logged is changed only where a copy failed. -/
theorem Turns.changes (hturns : Turns sb d ip off src copies d' ip' fin blocks e)
    (h : Ready sb inodes i d ip off src) (hc : c ∉ blocks) {y : Nat} (hy : d' c y ≠ d c y) :
    e = .failed c e.past ∧ fin % BSIZE ≤ y ∧ y < fin % BSIZE + e.past := by
  induction hturns with
  | done => exact absurd rfl hy
  | full hne hmap =>
    obtain ⟨-, hsame, -⟩ := h.log hne hmap
    rw [hsame c hc] at hy
    exact absurd rfl hy
  | @failed d d' ip ip' off addr j m src copies hne hmap haddr hm hcopy =>
    obtain ⟨-, hsame, -⟩ := h.log hne hmap
    by_cases hca : c = addr
    · subst hca
      rw [Function.update_self, ← hsame c hc] at hy
      have hin : off % BSIZE ≤ y ∧ y < off % BSIZE + min j m := by
        by_contra hout
        apply hy
        apply fill_out
        omega
      exact ⟨rfl, hin⟩
    · rw [Function.update_of_ne hca, hsame c hc] at hy
      exact absurd rfl hy
  | @turn d d' d'' ip ip' ip'' off addr m fin src copies blocks e hne hmap haddr hm hcopy _ ih =>
    obtain ⟨-, hsame, -⟩ := h.log hne hmap
    rw [List.mem_append, List.mem_cons, not_or, not_or] at hc
    apply ih (h.next hne hmap haddr hm) hc.2.2
    rwa [Function.update_of_ne hc.2.1, hsame c hc.1]

/-- Another block of the file is none of those that are logged for these ones. -/
theorem Member.ne {q : Nat} (hmem : Member sb d d' ip ip' lo top c)
    (h : Consistent sb d' (Function.update inodes i ip')) (hi : i < sb.islots) (ht : ip'.type ≠ 0)
    (hq : q < lo ∨ top ≤ q) (hne : addrOf d' ip' (place q) ≠ 0) : c ≠ addrOf d' ip' (place q) := by
  have hself : Function.update inodes i ip' i = ip' := Function.update_self ..
  have hblock : ∀ k, addrOf d' ip' k ≠ 0 → sb.datastart ≤ addrOf d' ip' k ∧ addrOf d' ip' k < sb.size := by
    intro k hk
    have hrange := h.block (k := k) hi (by rwa [hself]) (by rwa [hself])
    rw [hself] at hrange
    exact ⟨hrange.1, hrange.2.1⟩
  have hplace : ∀ k, addrOf d' ip' k = addrOf d' ip' (place q) → k = place q := by
    intro k hk
    have hone := h.one (j := i) (m := k) (k := place q) hi (by rwa [hself]) hi (by rwa [hself])
      (by rwa [hself, hk]) (by rwa [hself])
    exact hone.2
  have hge := (hblock _ hne).1
  rintro rfl
  rcases hmem with ⟨p, hlo, hhi, hp, heq | ⟨-, heq⟩⟩ | ⟨hp, heq | heq⟩
  · have hpq := hplace _ heq.symm
    unfold place at hpq
    split at hpq <;> split at hpq <;> omega
  · have hlt := bblock_lt (hblock _ hp).2
    omega
  · rw [← addrOf_direct (d := d') (Nat.le_refl _)] at heq
    exact place_ne q (hplace _ heq.symm).symm
  · rw [← addrOf_direct (d := d') (Nat.le_refl _)] at hp heq
    have hlt := bblock_lt (hblock _ hp).2
    omega

/-- A turn with more bytes behind it goes to the end of its block. -/
theorem turn_ends (hm : m = min src.length (BSIZE - off % BSIZE)) (hrest : src.drop m ≠ []) :
    m < src.length ∧ (off + m) / BSIZE = off / BSIZE + 1 := by
  have hlen := List.length_pos_of_ne_nil hrest
  rw [List.length_drop] at hlen
  unfold BSIZE at *
  omega

/-- The block where the copy failed is logged if it is a new one, and only then. -/
theorem Turns.failed_block (hturns : Turns sb d ip off src copies d' ip' fin blocks e)
    (h : Ready sb inodes i d ip off src) (he : e = .failed addr past) : off / BSIZE ≤ fin / BSIZE ∧
      addr ≠ 0 ∧ addr = addrOf d' ip' (place (fin / BSIZE)) ∧
      (addr ∈ blocks ↔ addrOf d ip (place (fin / BSIZE)) = 0) := by
  induction hturns with
  | done => cases he
  | full => cases he
  | @failed d d' ip ip' off addr j m src copies hne hmap haddr hm hcopy =>
    cases he
    have hpart : min j m ≤ BSIZE - off % BSIZE := by omega
    obtain ⟨-, hat, -⟩ := h.mapped hne hmap
    obtain ⟨-, -, hnew, hold⟩ := h.log hne hmap
    refine ⟨Nat.le_refl _, haddr, ?_, fun hmem => ?_, fun hzero => hnew hzero haddr⟩
    · have hthere : addrOf d' ip' (place (off / BSIZE)) ≠ 0 := by rwa [← hat haddr]
      rw [(h.written hne hmap haddr hpart).keeps _ hthere]
      exact hat haddr
    · by_contra hthere
      rw [hold hthere] at hmem
      exact absurd hmem List.not_mem_nil
  | @turn d d' d'' ip ip' ip'' off addr₁ m fin src copies blocks e hne hmap haddr hm hcopy hrest ih =>
    have hnext := h.next hne hmap haddr hm
    obtain ⟨hle, haddr', hat', hlog⟩ := ih hnext he
    have hend := turn_ends hm (hrest.src_ne (by rw [he]; exact Ending.noConfusion))
    rw [hend.2] at hle
    have hplaces := fun x => h.places (q := fin / BSIZE) hne hmap haddr (by omega) x
    rw [hplaces] at hlog
    refine ⟨by omega, haddr', hat', fun hmem => ?_, fun hzero => ?_⟩
    · -- the blocks of this turn are others
      have hpart : m ≤ BSIZE - off % BSIZE := by omega
      have hwrote := (hrest.wrote hnext).2.2
      have hkeep := (h.written hne hmap haddr hpart).keeps.trans hwrote.keeps
      obtain ⟨-, hat, -⟩ := h.mapped hne hmap
      obtain ⟨hmem₁, -⟩ := h.log hne hmap
      have ht'' : ip''.type ≠ 0 := by
        rw [hwrote.grown.type]
        exact hnext.type
      have hne'' : addrOf d'' ip'' (place (fin / BSIZE)) ≠ 0 := by rwa [← hat']
      have hother : ∀ c, Member sb d d' ip ip' (off / BSIZE) (off / BSIZE + 1) c → c ≠ addr := by
        intro c hc
        rw [hat']
        exact (hc.head hkeep (Nat.le_refl _)).ne hwrote.grown.consistent h.slot ht''
          (Or.inr hle) hne''
      rcases List.mem_append.mp hmem with hmem | hmem
      · exact absurd rfl (hother _ (hmem₁ _ hmem))
      · rcases List.mem_cons.mp hmem with hsame | hmem
        · refine absurd hsame.symm (hother addr₁ (Or.inl ⟨off / BSIZE, Nat.le_refl _, Nat.lt_succ_self _, ?_, ?_⟩))
          · rwa [← hat haddr]
          · exact Or.inl (hat haddr)
        · exact hlog.mp hmem
    · exact List.mem_append_right _ (List.mem_cons_of_mem _ (hlog.mpr hzero))

theorem either_copyin_all (hm : m ≤ len) (hcopy : either_copyin readable srcva m = .all) :
    m ≤ copyin readable srcva len := by
  have hpart := copyin_part readable srcva (show 0 + m ≤ len by omega) (Nat.zero_le _)
  unfold either_copyin at hcopy
  split at hcopy
  · rw [Nat.add_zero, Nat.sub_zero] at hpart
    omega
  · cases hcopy

theorem either_copyin_fails (hm : m ≤ len) (hcopy : either_copyin readable srcva m = .fails j) :
    j < m ∧ copyin readable srcva len = j := by
  have hpart := copyin_part readable srcva (show 0 + m ≤ len by omega) (Nat.zero_le _)
  have hle := (copyin_copies readable srcva m).le
  unfold either_copyin at hcopy
  split at hcopy
  · cases hcopy
  · cases hcopy
    rw [Nat.add_zero, Nat.sub_zero] at hpart
    omega

/-- The copy of a turn. -/
theorem copiesOf_head (hk : src.length ≤ k) (hne : src ≠ [])
    (hm : m = min src.length (BSIZE - off % BSIZE)) :
    (copiesOf readable k srcva off src.length).headD .all = either_copyin readable srcva m := by
  have hlen := List.length_pos_of_ne_nil hne
  subst hm
  cases k with
  | zero => omega
  | succ k =>
    unfold copiesOf
    rw [if_neg (Nat.ne_of_gt hlen)]
    rfl

/-- The copies of the turns behind one that copies all. -/
theorem copiesOf_tail (hk : src.length ≤ k) (hne : src ≠ [])
    (hm : m = min src.length (BSIZE - off % BSIZE))
    (hcopy : (copiesOf readable k srcva off src.length).headD .all = .all) :
    (src.drop m).length ≤ k - 1 ∧
      (copiesOf readable k srcva off src.length).tail =
        copiesOf readable (k - 1) (srcva + m) (off + m) (src.drop m).length ∧
      m ≤ copyin readable srcva src.length ∧
      copyin readable (srcva + m) (src.drop m).length = copyin readable srcva src.length - m := by
  have hlen := List.length_pos_of_ne_nil hne
  have hle := (copyin_copies readable srcva src.length).le
  rw [copiesOf_head hk hne hm] at hcopy
  have hall := either_copyin_all (show m ≤ src.length by omega) hcopy
  have hpart := copyin_part readable srcva (show m + (src.length - m) ≤ src.length by omega) hall
  rw [List.length_drop]
  refine ⟨?_, ?_, hall, ?_⟩
  · unfold BSIZE at hm
    omega
  · subst hm
    cases k with
    | zero => omega
    | succ k =>
      rw [copiesOf, if_neg (Nat.ne_of_gt hlen)]
      rfl
  · rw [hpart]
    omega

/-- A copy fails at the first byte that cannot be read, and the loop reports what is in the blocks
before that one. -/
theorem Turns.copied (hturns : Turns sb d ip off src copies d' ip' fin blocks e)
    (hcopies : copies = copiesOf readable k srcva off src.length) (hk : src.length ≤ k) :
    (e = .done → copyin readable srcva src.length = src.length) ∧
      (e = .failed addr past → copyin readable srcva src.length < src.length ∧
        fin = max off ((off + copyin readable srcva src.length) / BSIZE * BSIZE) ∧
        fin + past = off + copyin readable srcva src.length) := by
  induction hturns generalizing k srcva with
  | done =>
    refine ⟨fun _ => ?_, fun he => absurd he Ending.noConfusion⟩
    exact Nat.eq_zero_of_le_zero (copyin_copies readable srcva 0).le
  | full => exact ⟨fun he => absurd he Ending.noConfusion, fun he => absurd he Ending.noConfusion⟩
  | @failed d d' ip ip' off addr j m src copies hne hmap haddr hm hcopy =>
    subst hcopies
    rw [copiesOf_head hk hne hm] at hcopy
    obtain ⟨hlt, heq⟩ := either_copyin_fails (show m ≤ src.length by omega) hcopy
    refine ⟨fun he => absurd he Ending.noConfusion, fun he => ?_⟩
    cases he
    rw [heq]
    unfold BSIZE at *
    omega
  | @turn d d' d'' ip ip' ip'' off addr m fin src copies blocks e hne hmap haddr hm hcopy hrest ih =>
    subst hcopies
    obtain ⟨hk', htail, hall, hnext⟩ := copiesOf_tail hk hne hm hcopy
    obtain ⟨hdone, hfailed⟩ := ih htail hk'
    rw [hnext, List.length_drop] at hdone hfailed
    have hlen := List.length_pos_of_ne_nil hne
    refine ⟨fun he => ?_, fun he => ?_⟩
    · have hend := hdone he
      unfold BSIZE at hm
      omega
    · obtain ⟨hlt, hfin, hpast⟩ := hfailed he
      have hend := turn_ends hm (hrest.src_ne (by rw [he]; exact Ending.noConfusion))
      have hsum : off + m + (copyin readable srcva src.length - m) =
          off + copyin readable srcva src.length := by omega
      rw [hsum] at hfin hpast
      refine ⟨by omega, ?_, hpast⟩
      rw [hfin]
      unfold BSIZE at *
      omega

theorem indirect_there (htop : NDIRECT ≤ top) (hthere : addrOf d ip (place top) ≠ 0) :
    ip.addrs NDIRECT ≠ 0 := by
  intro hzero
  apply hthere
  unfold addrOf place
  rw [if_neg (Nat.not_lt.mpr htop), if_neg (by omega), if_neg fun h => h.1 hzero]

/-- Where the block of that byte is there, the loop comes so far exactly when the blocks before it can
be had. -/
theorem Turns.reached (hturns : Turns sb d ip off src copies d' ip' fin blocks e)
    (h : Ready sb inodes i d ip off src)
    (hcopies : copies = copiesOf readable k srcva off src.length) (hk : src.length ≤ k)
    (hstops : copyin readable srcva src.length < src.length)
    (htop : top = (off + copyin readable srcva src.length) / BSIZE)
    (hthere : addrOf d ip (place top) ≠ 0) :
    (∃ addr past, e = .failed addr past) ↔ (missing d ip (off / BSIZE) top).card ≤ frees sb d := by
  induction hturns generalizing k srcva with
  | done => exact absurd hstops (Nat.not_lt_zero _)
  | @full d d' ip ip' off src copies hne hmap =>
    obtain ⟨-, -, hfull⟩ := h.mapped hne hmap
    obtain ⟨_, _, _, heq, -, -, hold, -⟩ := bmap_spec h.consistent h.slot h.type (h.block_lt hne)
    rw [hmap] at heq
    cases heq
    have hmissing : addrOf d ip (place (off / BSIZE)) = 0 := by
      by_contra hne'
      exact hne' (hold hne').2.2.symm
    have hlt : off / BSIZE < top := by
      refine Nat.lt_of_le_of_ne ?_ ?_
      · rw [htop]
        exact Nat.div_le_div_right (Nat.le_add_right ..)
      · rintro rfl
        exact hthere hmissing
    have hfrees := bmap_frees h.consistent h.slot h.type (fun hge => indirect_there (by omega) hthere) hmap
    rw [if_neg fun h => h.2 rfl, frees_full (hfull rfl)] at hfrees
    rw [hfrees, card_missing_succ hlt, if_pos hmissing]
    constructor
    · rintro ⟨_, _, he⟩
      exact absurd he Ending.noConfusion
    · intro hle
      exact absurd hle (Nat.not_succ_le_zero _)
  | @failed d d' ip ip' off addr j m src copies hne hmap haddr hm hcopy =>
    subst hcopies
    rw [copiesOf_head hk hne hm] at hcopy
    obtain ⟨hlt, heq⟩ := either_copyin_fails (show m ≤ src.length by omega) hcopy
    have hsame : top = off / BSIZE := by
      rw [htop, heq]
      unfold BSIZE at *
      omega
    have hnone : missing d ip (off / BSIZE) top = ∅ := by
      unfold missing
      rw [hsame, Finset.Ico_self, Finset.filter_empty]
    rw [hnone, Finset.card_empty]
    exact ⟨fun _ => Nat.zero_le _, fun _ => ⟨_, _, rfl⟩⟩
  | @turn d d' d'' ip ip' ip'' off addr m fin src copies blocks e hne hmap haddr hm hcopy hrest ih =>
    subst hcopies
    obtain ⟨hk', htail, hall, hnext⟩ := copiesOf_tail hk hne hm hcopy
    have hend : (off + m) / BSIZE = off / BSIZE + 1 ∧ off / BSIZE < top := by
      unfold BSIZE at *
      omega
    have hplaces := fun q hq x => h.places (q := q) hne hmap haddr hq x
    obtain ⟨hmapped, hat, -⟩ := h.mapped hne hmap
    have hfrees := bmap_frees h.consistent h.slot h.type (fun hge => indirect_there (by omega) hthere) hmap
    have hih := ih (h.next hne hmap haddr hm) htail hk' (by rw [hnext, List.length_drop]; omega)
      (by rw [hnext, htop]; congr 1; omega) (by rwa [hplaces _ (by omega)])
    rw [hih, hend.1, card_missing_succ hend.2, hfrees]
    have hsame : ∀ x, missing (Function.update d' addr x) ip' (off / BSIZE + 1) top =
        missing d ip (off / BSIZE + 1) top := by
      intro x
      apply Finset.filter_congr
      intro q hq
      rw [hplaces q (by have hge := (Finset.mem_Ico.mp hq).1; omega)]
    have hused : ∀ x, frees sb (Function.update d' addr x) = frees sb d' := by
      intro x
      refine frees_congr fun c hc => isUsed_update ?_ hc x
      have hself : Function.update inodes i ip' i = ip' := Function.update_self ..
      have hblock := hmapped.grown.consistent.block (k := place (off / BSIZE)) h.slot
        (by rw [hself, hmapped.grown.type]; exact h.type) (by rwa [hself, ← hat haddr])
      rw [hself, ← hat haddr] at hblock
      exact hblock.1
    rw [hsame, hused]
    by_cases hmissing : addrOf d ip (place (off / BSIZE)) = 0
    · rw [if_pos hmissing, if_pos ⟨hmissing, haddr⟩]
      exact Nat.add_le_add_iff_right.symm
    · rw [if_neg hmissing, if_neg fun h => hmissing h.1]
      exact Iff.rfl

/-! ## What is reported -/

/-- `readi` gives the byte. -/
def Reads (sb : Superblock) (d : Disk) (ip : Dinode) (x : Nat) (v : UInt8) : Prop :=
  readi sb d ip x 1 [] = .ok (d, ip, [v], true)

/-- The call changes only what it reports, which are `r` bytes at the offset. -/
structure Reported (sb : Superblock) (d : Disk) (ip : Dinode) (off r : Nat) (d' : Disk) (ip' : Dinode)
    (logged : List Nat) : Prop where
  bytes : ∀ x < ip.size, x < off ∨ off + r ≤ x → ∀ v, Reads sb d ip x v → Reads sb d' ip' x v
  size : ip'.size = max ip.size (off + r)
  logged : ∀ c, d' c ≠ d c → c ∈ logged

/-- The user buffer ends behind `u` bytes, in a block of the file that is there and that the loop comes
to, and before that the buffer has a byte that the block has not. -/
structure Spoils (sb : Superblock) (d : Disk) (ip : Dinode) (off : Nat) (src : List UInt8)
    (before : List Nat) (u : Nat) : Prop where
  fits : off + src.length ≤ MAXFILE * BSIZE
  stops : u < src.length
  there : addrOf d ip (place ((off + u) / BSIZE)) ≠ 0
  room : (missing d ip (off / BSIZE) ((off + u) / BSIZE)).card ≤ frees sb d
  other : ∃ x, max off ((off + u) / BSIZE * BSIZE) ≤ x ∧ x < off + u ∧
    src.getD (x - off) 0 ≠ byteAt d ip x ∧
      (x < ip.size ∨ addrOf d ip (place ((off + u) / BSIZE)) ∉ before)

theorem reads_iff {v : UInt8} (h : Consistent sb d (Function.update inodes i ip)) (hi : i < sb.islots)
    (ht : ip.type ≠ 0) (hx : x < ip.size) : Reads sb d ip x v ↔ byteAt d ip x = v := by
  have hself : Function.update inodes i ip i = ip := Function.update_self ..
  have hlimit : MAXFILE * BSIZE = 274432 := rfl
  have hbound := h.bounded i hi (by rwa [hself])
  rw [hself] at hbound
  have hone : part (content d ip) x 1 = [byteAt d ip x] := by
    unfold content
    rw [part_listed, Nat.min_eq_left (by omega)]
    rfl
  unfold Reads
  rw [readi_content h hi ht (by omega) (by omega), if_pos (by omega), hone]
  simp

/-- A call in range takes its turns, and it writes the inode back. -/
theorem writei_turns (h : Ready sb (dinode sb d) i d (dinode sb d i) off src)
    (hoff : off ≤ (dinode sb d i).size) (copies : List Copy) :
    ∃ d' ip' fin e, Turns sb d (dinode sb d i) off src copies d' ip' fin
        (writeiLoopLog sb d (dinode sb d i) src.length off src copies) e ∧
      writei sb d i (dinode sb d i) off src copies =
        .ok (iupdate sb d' i { ip' with size := max (dinode sb d i).size fin },
          { ip' with size := max (dinode sb d i).size fin }, some fin) ∧
      writeiLog sb d i (dinode sb d i) off src copies =
        writeiLoopLog sb d (dinode sb d i) src.length off src copies ++ [IBLOCK sb i] := by
  have hlimit : MAXFILE * BSIZE = 274432 := rfl
  have hfits := h.fits
  obtain ⟨d', ip', fin, past, heq, -, -, hwrote, -⟩ := writeiLoop_wrote (k := src.length) h.consistent
    h.slot h.type hfits h.covered (Nat.le_refl _) copies
  obtain ⟨e, hturns⟩ := turns_of_loop heq (Nat.le_refl _)
  refine ⟨d', ip', fin, e, hturns, writei_of_loop hoff hfits heq hwrote.grown.size, ?_⟩
  unfold writeiLog
  rw [if_neg (by unfold uint; omega), if_neg (by unfold uint; omega)]

/-- The bytes that a failed copy leaves in a block behind the end of what is reported. -/
theorem Turns.stopped (hturns : Turns sb d ip off src (copiesOf readable src.length srcva off src.length)
      d' ip' fin blocks (.failed addr past)) :
    copyin readable srcva src.length < src.length ∧
      fin / BSIZE = (off + copyin readable srcva src.length) / BSIZE ∧
      fin = max off (fin / BSIZE * BSIZE) ∧ fin + past = off + copyin readable srcva src.length := by
  obtain ⟨hstops, hfin, hpast⟩ := (hturns.copied rfl (Nat.le_refl _)).2 rfl
  have hblock : fin / BSIZE = (off + copyin readable srcva src.length) / BSIZE := by
    unfold BSIZE at *
    omega
  refine ⟨hstops, hblock, ?_, hpast⟩
  rw [hblock]
  exact hfin

/-- A byte that is there before the copy fails is in a block that is not logged. -/
theorem Turns.stopped_block (hturns : Turns sb d ip off src
      (copiesOf readable src.length srcva off src.length) d' ip' fin blocks (.failed addr past))
    (h : Ready sb inodes i d ip off src) (hge : fin ≤ x) (hlt : x < fin + past)
    (hthere : addrOf d ip (place (x / BSIZE)) ≠ 0) : x / BSIZE = fin / BSIZE ∧
      addr = addrOf d ip (place (x / BSIZE)) ∧ addr ≠ 0 ∧ addr ∉ blocks := by
  obtain ⟨-, hblock, hfin, hpast⟩ := hturns.stopped
  obtain ⟨-, haddr, hat, hlog⟩ := hturns.failed_block h rfl
  have hx : x / BSIZE = fin / BSIZE := by
    unfold BSIZE at *
    omega
  rw [hx] at hthere ⊢
  rw [(hturns.wrote h).2.2.keeps _ hthere] at hat
  exact ⟨rfl, hat, haddr, fun hmem => hthere (hlog.mp hmem)⟩

section

variable {before : List Nat} (h : Ready sb inodes i d ip off src)
  (hturns : Turns sb d ip off src (copiesOf readable src.length srcva off src.length) d' ip' fin blocks e)

include h hturns

/-- A call spoils a block when a failed copy has changed a byte of it, and the byte is one of the file
or the block is not logged. -/
theorem spoils_iff : Spoils sb d ip off src before (copyin readable srcva src.length) ↔
    ∃ addr past x, e = .failed addr past ∧ fin ≤ x ∧ x < fin + past ∧
      addr = addrOf d ip (place (x / BSIZE)) ∧ addr ≠ 0 ∧ addr ∉ blocks ∧
      byteAt d' ip' x ≠ byteAt d ip x ∧ (x < ip.size ∨ addr ∉ before) := by
  obtain ⟨-, -, hwrote⟩ := hturns.wrote h
  constructor
  · rintro ⟨-, hstops, hthere, hroom, x, hge, hlt, hother, hseen⟩
    obtain ⟨addr, past, rfl⟩ := (hturns.reached h rfl (Nat.le_refl _) hstops rfl hthere).mpr hroom
    obtain ⟨-, hblock, hfin, hpast⟩ := hturns.stopped
    have hx : fin ≤ x ∧ x < fin + past ∧ x / BSIZE = fin / BSIZE := by
      unfold BSIZE at *
      omega
    rw [← hblock, ← hx.2.2] at hthere hseen
    obtain ⟨-, hat, haddr, hout⟩ := hturns.stopped_block h hx.1 hx.2.1 hthere
    refine ⟨addr, past, x, rfl, hx.1, hx.2.1, hat, haddr, hout, ?_, by rwa [hat]⟩
    rw [hwrote.new x (by omega) hx.2.1]
    exact hother
  · rintro ⟨addr, past, x, rfl, hge, hlt, hat, haddr, hout, hother, hseen⟩
    obtain ⟨hstops, hblock, hfin, hpast⟩ := hturns.stopped
    have hx : x / BSIZE = fin / BSIZE := by
      unfold BSIZE at *
      omega
    rw [hx] at hat
    rw [hwrote.new x (by omega) hlt] at hother
    rw [hat] at haddr hseen
    rw [hblock] at haddr hseen
    refine ⟨h.fits, hstops, haddr, ?_, x, by rw [← hblock]; omega, by omega, hother, hseen⟩
    exact (hturns.reached h rfl (Nat.le_refl _) hstops rfl haddr).mp ⟨_, _, rfl⟩

/-- What is not logged and has changed is the block of the copy that failed. -/
theorem unlogged (hc : c ∉ blocks) (hne : d' c ≠ d c) : ∃ past x, e = .failed c past ∧ fin ≤ x ∧
    x < fin + past ∧ c = addrOf d ip (place (x / BSIZE)) ∧ c ≠ 0 ∧ byteAt d' ip' x ≠ byteAt d ip x := by
  obtain ⟨y, hy⟩ := Function.ne_iff.mp hne
  obtain ⟨he, hge, hlt⟩ := hturns.changes h hc hy
  obtain ⟨-, -, hwrote⟩ := hturns.wrote h
  obtain ⟨-, haddr, hat, hlog⟩ := hturns.failed_block h he
  have hthere : addrOf d ip (place (fin / BSIZE)) ≠ 0 := fun hzero => hc (hlog.mpr hzero)
  have hkeep := hwrote.keeps _ hthere
  generalize e.past = past at *
  subst he
  obtain ⟨-, hblock, -, hpast⟩ := hturns.stopped
  -- the place in the file
  obtain ⟨x, hx, hxy, hxb⟩ : ∃ x, fin ≤ x ∧ x % BSIZE = y ∧ x / BSIZE = fin / BSIZE := by
    refine ⟨fin / BSIZE * BSIZE + y, ?_⟩
    unfold BSIZE at *
    omega
  refine ⟨past, x, rfl, hx, ?_, ?_, haddr, ?_⟩
  · unfold BSIZE at *
    omega
  · rw [hxb, ← hkeep]
    exact hat
  · unfold byteAt
    rw [hxb, hkeep, ← hkeep, ← hat, hxy]
    exact hy

end

section

variable {sb : Superblock} {d d' d'' : Disk} {i off fin : Nat} {ip ip' ip'' : Dinode}
  {inodes : Nat → Dinode} {src : List UInt8} {blocks before : List Nat} {readable : Nat → Bool}
  {srcva : Nat} {e : Ending} (h : Ready sb inodes i d ip off src)
  (hturns : Turns sb d ip off src (copiesOf readable src.length srcva off src.length) d' ip' fin blocks e)
  (hreads : ∀ x < ip.size, ∀ v, Reads sb d'' ip'' x v ↔ byteAt d' ip' x = v)
  (hdisk : ∀ c, c ≠ IBLOCK sb i → d'' c = d' c)

include h hturns hreads hdisk

/-- The spoiled block is a data block, so `iupdate` does not log it. -/
theorem not_reported (hspoils : Spoils sb d ip off src before (copyin readable srcva src.length)) :
    ¬ Reported sb d ip off (fin - off) d'' ip'' (before ++ (blocks ++ [IBLOCK sb i])) := by
  rintro ⟨hread, -, hlogged⟩
  obtain ⟨hge, -, hwrote⟩ := hturns.wrote h
  have hself : Function.update inodes i ip i = ip := Function.update_self ..
  obtain ⟨addr, past, x, rfl, hx, hlt, hat, haddr, hout, hother, hseen⟩ := (spoils_iff h hturns).mp hspoils
  apply hother
  rcases hseen with hsize | hbefore
  · rw [← hreads x hsize]
    apply hread x hsize (Or.inr (by omega))
    rw [reads_iff h.consistent h.slot h.type hsize]
  · have hne : addr ≠ IBLOCK sb i := by
      have hblock := h.consistent.block (k := place (x / BSIZE)) h.slot (by rw [hself]; exact h.type)
        (by rwa [hself, ← hat])
      rw [hself, ← hat] at hblock
      have hmeta := iblock_lt h.slot
      have hdata : sb.bmapstart ≤ sb.datastart := Nat.le_add_right ..
      omega
    by_contra hbyte
    have hmem := hlogged addr fun hsame => by
      rw [hdisk addr hne] at hsame
      apply hbyte
      unfold byteAt
      rw [hwrote.keeps _ (by rwa [← hat]), ← hat, hsame]
    simp only [List.mem_append, List.mem_singleton] at hmem
    rcases hmem with hmem | hmem | hmem
    · exact hbefore hmem
    · exact hout hmem
    · exact hne hmem

/-- What a failed copy has changed was there already, or it is in a new block. -/
theorem reported (hcovered : ∀ bn, bn * BSIZE < ip.size → addrOf d ip (place bn) ≠ 0)
    (hsize : ip''.size = max ip.size fin)
    (hno : ¬ Spoils sb d ip off src before (copyin readable srcva src.length)) :
    Reported sb d ip off (fin - off) d'' ip'' (before ++ (blocks ++ [IBLOCK sb i])) := by
  obtain ⟨hge, -, hwrote⟩ := hturns.wrote h
  have hend : off + (fin - off) = fin := Nat.add_sub_cancel' hge
  rw [spoils_iff h hturns] at hno
  refine ⟨fun x hx hout v hv => ?_, by rw [hend, hsize], fun c hne => ?_⟩
  · rw [hend] at hout
    rw [reads_iff h.consistent h.slot h.type hx] at hv
    rw [hreads x hx, ← hv]
    have hthere := hcovered (x / BSIZE) (div_mul_lt hx)
    by_cases hpast : x < off ∨ fin + e.past ≤ x
    · exact hwrote.old x hthere hpast
    · by_contra hother
      cases e with
      | done => exact hpast (hout.imp_right fun hle => hle)
      | full => exact hpast (hout.imp_right fun hle => hle)
      | failed addr past =>
        have hge' : fin ≤ x := by omega
        have hlt : x < fin + past := Nat.lt_of_not_le fun hle => hpast (Or.inr hle)
        obtain ⟨-, hat, haddr, hnot⟩ := hturns.stopped_block h hge' hlt hthere
        exact hno ⟨addr, past, x, rfl, hge', hlt, hat, haddr, hnot, hother, Or.inl hx⟩
  · simp only [List.mem_append, List.mem_singleton]
    by_contra hout
    rw [not_or, not_or] at hout
    rw [hdisk c hout.2.2] at hne
    obtain ⟨past, x, he, hge', hlt, hat, haddr, hother⟩ := unlogged h hturns hout.2.1 hne
    exact hno ⟨c, past, x, he, hge', hlt, hat, haddr, hout.2.1, hother, Or.inr hout.1⟩

end

/-- A call reports what it changes if and only if it starts in the file or at its end, and the user
buffer does not end in a block that is there, behind bytes that the block has not. -/
theorem failed_writes_report_what_they_change (hd : Consistent sb d (dinode sb d)) (hi : i < sb.islots)
    (ht : (dinode sb d i).type ≠ 0) (hoff : off < 4294967296) (hsrc : src.length < 4294967296)
    (readable : Nat → Bool) (srcva : Nat) (before : List Nat) :
    ∃ u d' ip' r, Copies readable srcva src.length u ∧
      writei sb d i (dinode sb d i) off src (copiesOf readable src.length srcva off src.length) =
        .ok (d', ip', r) ∧
      (Reported sb d (dinode sb d i) off (r.elim 0 (· - off)) d' ip' (before ++
          writeiLog sb d i (dinode sb d i) off src (copiesOf readable src.length srcva off src.length)) ↔
        off ≤ (dinode sb d i).size ∧ ¬ Spoils sb d (dinode sb d i) off src before u) := by
  have hcopies := copyin_copies readable srcva src.length
  have hlimit : MAXFILE * BSIZE = 274432 := rfl
  by_cases hin : off ≤ (dinode sb d i).size ∧ off + src.length ≤ MAXFILE * BSIZE
  · have h : Ready sb (dinode sb d) i d (dinode sb d i) off src :=
      ⟨hi, ht, hd.open i, hin.2, fun bn hlt => hd.covered i hi ht bn (by omega)⟩
    have hcovered := hd.covered i hi ht
    have hbound := hd.bounded i hi ht
    generalize hc : copiesOf readable src.length srcva off src.length = copies
    obtain ⟨d₁, ip₁, fin, e, hturns, heq, hlog⟩ := writei_turns h hin.1 copies
    obtain ⟨hge, hle, hwrote⟩ := hturns.wrote h
    have hcover : ∀ bn, bn * BSIZE < max (dinode sb d i).size fin → addrOf d₁ ip₁ (place bn) ≠ 0 := by
      intro bn hlt
      by_cases hold : bn * BSIZE < (dinode sb d i).size
      · rw [hwrote.grown.keeps _ (hcovered bn hold)]
        exact hcovered bn hold
      · exact hwrote.covered bn (by omega)
    obtain ⟨hbytes, hdinode, -⟩ := hwrote.finish (max (dinode sb d i).size fin) hi ht (by omega) hcover
    obtain ⟨d', ip', r, heq', hd', ht', -⟩ := writei_spec hd hi ht hsrc hoff copies
    rw [heq] at heq'
    cases heq'
    have hopen := hd'.open i
    rw [hdinode] at hopen
    refine ⟨_, _, _, _, hcopies, heq, ?_⟩
    subst hc
    rw [hlog]
    generalize hip : ({ ip₁ with size := max (dinode sb d i).size fin } : Dinode) = ip' at *
    have hsize : ip'.size = max (dinode sb d i).size fin := by rw [← hip]
    have hreads : ∀ x < (dinode sb d i).size, ∀ v,
        Reads sb (iupdate sb d₁ i ip') ip' x v ↔ byteAt d₁ ip₁ x = v := by
      intro x hx v
      have hx' : x < max (dinode sb d i).size fin := Nat.lt_of_lt_of_le hx (Nat.le_max_left ..)
      rw [reads_iff hopen hi ht' (by rwa [hsize]), hbytes x (hcover _ (div_mul_lt hx'))]
    have hdisk : ∀ c, c ≠ IBLOCK sb i → iupdate sb d₁ i ip' c = d₁ c := by
      intro c hne
      unfold iupdate
      rw [Function.update_of_ne hne]
    constructor
    · intro hr
      exact ⟨hin.1, fun hspoils => not_reported h hturns hreads hdisk hspoils hr⟩
    · rintro ⟨-, hno⟩
      exact reported h hturns hreads hdisk hcovered hsize hno
  · have heq : writei sb d i (dinode sb d i) off src (copiesOf readable src.length srcva off src.length) =
        .ok (d, dinode sb d i, none) := writei_refused hoff hsrc (by omega)
    refine ⟨_, _, _, _, hcopies, heq, ⟨fun hr => ⟨?_, fun hspoils => ?_⟩, fun hok => ⟨?_, ?_, ?_⟩⟩⟩
    · have hsize := hr.size
      rw [hsize]
      exact Nat.le_max_right ..
    · have hfits := hspoils.fits
      have hsize := hr.size
      simp only [Option.elim_none] at hsize
      omega
    · exact fun x _ _ v hv => hv
    · exact (Nat.max_eq_left hok.1).symm
    · exact fun c hne => absurd rfl hne

/-- Two bytes are written over the three of a file, from a page that can be read. A longer write, whose
last byte is on a page that cannot be read, ends with a block of its own. -/
theorem a_write_reports_its_bytes : ∃ s, Run (State.step eightBlocks) anyStep (State.start noFiles)
    threeBytes s ∧
    (∃ d' ip' r, writei eightBlocks s.disk 1 (dinode eightBlocks s.disk 1) 0 [9, 9]
      (copiesOf (· == 0) 2 0 0 2) = .ok (d', ip', r) ∧
      Reported eightBlocks s.disk (dinode eightBlocks s.disk 1) 0 (r.elim 0 (· - 0)) d' ip'
        (writeiLog eightBlocks s.disk 1 (dinode eightBlocks s.disk 1) 0 [9, 9]
          (copiesOf (· == 0) 2 0 0 2))) ∧
    ¬ Readable (· == 0) (3072 + 1024) ∧
    ∃ d' ip' r, writei eightBlocks s.disk 1 (dinode eightBlocks s.disk 1) 0 (List.replicate 1025 7)
      (copiesOf (· == 0) (List.replicate 1025 (7 : UInt8)).length 3072 0
        (List.replicate 1025 (7 : UInt8)).length) = .ok (d', ip', r) ∧
      Reported eightBlocks s.disk (dinode eightBlocks s.disk 1) 0 (r.elim 0 (· - 0)) d' ip'
        (writeiLog eightBlocks s.disk 1 (dinode eightBlocks s.disk 1) 0 (List.replicate 1025 7)
          (copiesOf (· == 0) (List.replicate 1025 (7 : UInt8)).length 3072 0
            (List.replicate 1025 (7 : UInt8)).length)) := by
  have hcomputed : (exec (State.step eightBlocks) anyStep (State.start noFiles) threeBytes).any
      (fun s => (dinode eightBlocks s.disk 1).type = 2 ∧
        addrOf s.disk (dinode eightBlocks s.disk 1) (place 1) = 0) = true := by decide +kernel
  obtain ⟨s, hs, hfacts⟩ := (Option.any_eq_true _ _).mp hcomputed
  obtain ⟨htype, hmissing⟩ := of_decide_eq_true hfacts
  have hd := (safe_run noFiles_consistent (run_of_exec hs)).1.disk
  have hinode : (dinode eightBlocks s.disk 1).type ≠ 0 := by
    rw [htype]
    decide
  have hcut : ¬ Readable (· == 0) (3072 + 1024) := by
    unfold Readable vm.PGSIZE
    simp
  refine ⟨s, run_of_exec hs, ?_, hcut, ?_⟩
  · obtain ⟨u, d', ip', r, hu, heq, hiff⟩ := failed_writes_report_what_they_change hd
      (show 1 < eightBlocks.islots by decide) hinode (show 0 < 4294967296 by decide)
      (show ([9, 9] : List UInt8).length < 4294967296 by decide) (· == 0) 0 []
    rw [List.nil_append] at hiff
    have htwo : u = 2 := hu.unique ⟨Nat.le_refl _, fun x hx => by unfold Readable vm.PGSIZE; simp; omega,
      fun h => absurd h (Nat.lt_irrefl 2)⟩
    refine ⟨d', ip', r, heq, hiff.mpr ⟨Nat.zero_le _, fun h => ?_⟩⟩
    have hstops := h.stops
    rw [htwo] at hstops
    exact absurd hstops (Nat.lt_irrefl 2)
  · obtain ⟨u, d', ip', r, hu, heq, hiff⟩ := failed_writes_report_what_they_change hd
      (show 1 < eightBlocks.islots by decide) hinode (show 0 < 4294967296 by decide)
      (show (List.replicate 1025 (7 : UInt8)).length < 4294967296 by rw [List.length_replicate]; decide)
      (· == 0) 3072 []
    rw [List.nil_append] at hiff
    have hblock : u = 1024 := hu.unique ⟨by rw [List.length_replicate]; decide,
      fun x hx => by unfold Readable vm.PGSIZE; simp; omega, fun _ => hcut⟩
    refine ⟨d', ip', r, heq, hiff.mpr ⟨Nat.zero_le _, fun h => ?_⟩⟩
    have hthere := h.there
    rw [hblock] at hthere
    exact hthere hmissing

/-- The second of the bytes is on a page that cannot be read: nothing is reported, and the first byte
of the file is lost. -/
theorem a_failed_write_spoils_a_byte : ∃ s, Run (State.step eightBlocks) anyStep (State.start noFiles)
    threeBytes s ∧ ∃ d' ip', writei eightBlocks s.disk 1 (dinode eightBlocks s.disk 1) 0 [9, 9]
      (copiesOf (· == 0) 2 4095 0 2) = .ok (d', ip', some 0) ∧
      ¬ Reported eightBlocks s.disk (dinode eightBlocks s.disk 1) 0 0 d' ip'
        (writeiLog eightBlocks s.disk 1 (dinode eightBlocks s.disk 1) 0 [9, 9]
          (copiesOf (· == 0) 2 4095 0 2)) := by
  have hcomputed : (exec (State.step eightBlocks) anyStep (State.start noFiles) threeBytes).any
      (fun s => (dinode eightBlocks s.disk 1).type = 2 ∧ (dinode eightBlocks s.disk 1).size = 3 ∧
        byteAt s.disk (dinode eightBlocks s.disk 1) 0 = 1 ∧
        (writei eightBlocks s.disk 1 (dinode eightBlocks s.disk 1) 0 [9, 9]
          (copiesOf (· == 0) 2 4095 0 2)).toOption.any fun r => r.2.2 = some 0 ∧
            ((readi eightBlocks r.1 r.2.1 0 1 []).toOption.map fun r => r.2.2.1) = some [9]) = true := by
    decide +kernel
  obtain ⟨s, hs, hfacts⟩ := (Option.any_eq_true _ _).mp hcomputed
  obtain ⟨htype, hsize, hbyte, hwrite⟩ := of_decide_eq_true hfacts
  obtain ⟨⟨d', ip', r⟩, hok, hread⟩ := (Option.any_eq_true _ _).mp hwrite
  obtain ⟨rfl, hread⟩ := of_decide_eq_true hread
  have hd := (safe_run noFiles_consistent (run_of_exec hs)).1.disk
  refine ⟨s, run_of_exec hs, d', ip', ?_, fun hr => ?_⟩
  · cases hw : writei eightBlocks s.disk 1 (dinode eightBlocks s.disk 1) 0 [9, 9]
        (copiesOf (· == 0) 2 4095 0 2) with
    | error p =>
      rw [hw] at hok
      cases hok
    | ok r =>
      rw [hw] at hok
      cases hok
      rfl
  · have hbefore := (reads_iff (v := 1) (hd.open 1) (by decide) (by rw [htype]; decide)
      (show 0 < (dinode eightBlocks s.disk 1).size by omega)).mpr hbyte
    have hafter := hr.bytes 0 (by omega) (Or.inr (Nat.le_refl _)) 1 hbefore
    unfold Reads at hafter
    rw [hafter] at hread
    cases hread

end xv6.fs
