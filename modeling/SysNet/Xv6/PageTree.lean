-- The tree of tables that `walk` goes down (kernel/vm.c): how it grows by
-- pages that were free, and what a change of an entry keeps.
import Mathlib.Data.Nat.Bitwise
import SysNet.Lib.Radix
import SysNet.Lib.Runs
import SysNet.Xv6.PageTable

open bytes radix runs

namespace xv6.pagetable

open vm (PGSIZE MAXVA TRAMPOLINE TRAPFRAME uint64 PGROUNDUP)

variable {m m' m'' : Mem} {root t a b pa perm va va' level k : Nat} {i j : Fin 512} {pte w : Nat}
  {used used' : List Nat} {p q : List (Fin 512)}

/-! ## Entries -/

theorem PX_val (level va : Nat) : (PX level va).val = va / PGSIZE / 512 ^ level % 512 := by
  unfold PX PXSHIFT PXMASK
  change va >>> (12 + 9 * level) &&& (2 ^ 9 - 1) = _
  rw [Nat.shiftRight_eq_div_pow, Nat.and_two_pow_sub_one_eq_mod, Nat.pow_add, Nat.pow_mul,
    ← Nat.div_div_eq_div_mul]
  rfl

/-- The three indices tell the pages apart. -/
theorem page_of_PX (hva : va < MAXVA) (hva' : va' < MAXVA) (h0 : PX 0 va = PX 0 va')
    (h1 : PX 1 va = PX 1 va') (h2 : PX 2 va = PX 2 va') : va / PGSIZE = va' / PGSIZE := by
  have h0 := congrArg Fin.val h0
  have h1 := congrArg Fin.val h1
  have h2 := congrArg Fin.val h2
  rw [PX_val, PX_val] at h0 h1 h2
  unfold MAXVA at hva hva'
  unfold PGSIZE at *
  have hsquare : 512 ^ 2 = 262144 := rfl
  rw [Nat.pow_zero, Nat.div_one, Nat.div_one] at h0
  rw [Nat.pow_one] at h1
  rw [hsquare] at h2
  omega

theorem PX_of_page (h : va / PGSIZE = va' / PGSIZE) (level : Nat) : PX level va = PX level va' := by
  apply Fin.ext
  rw [PX_val, PX_val, h]

/-- The addresses take half of the root. -/
theorem PX_top (hva : va < MAXVA) : (PX 2 va).val < 256 := by
  have hsquare : 512 ^ 2 = 262144 := rfl
  rw [PX_val, hsquare]
  unfold MAXVA at hva
  unfold PGSIZE
  omega

theorem and_V (pte : Nat) : pte &&& PTE_V = pte % 2 := Nat.and_one_is_mod pte

theorem or_flags (pa : Nat) {flags : Nat} (h : flags < 1024) :
    PA2PTE pa ||| flags = pa / 4096 * 1024 + flags := by
  unfold PA2PTE
  rw [Nat.shiftRight_eq_div_pow, Nat.shiftLeft_eq]
  have hor := Nat.two_pow_add_eq_or_of_lt (i := 10) (b := flags) (by omega) (pa / 2 ^ 12)
  rw [Nat.mul_comm (2 ^ 10)] at hor
  exact hor.symm

/-- Only the flags of an entry have the bits of a mask of flags. -/
theorem and_flags {mask : Nat} (h : mask < 1024) : pte &&& mask = pte % 1024 &&& mask := by
  have hmod := Nat.and_mod_two_pow (a := pte) (b := mask) (n := 10)
  change (pte &&& mask) % 1024 = (pte % 1024) &&& (mask % 1024) at hmod
  rw [Nat.mod_eq_of_lt h, Nat.mod_eq_of_lt (Nat.lt_of_le_of_lt Nat.and_le_right h)] at hmod
  exact hmod

theorem or_V_lt (h : perm < 1024) : perm ||| PTE_V < 1024 :=
  Nat.or_lt_two_pow (n := 10) h (by decide)

/-- What a physical address and flags give. -/
theorem entry_eq (h : perm < 1024) :
    PA2PTE pa ||| perm ||| PTE_V = pa / 4096 * 1024 + (perm ||| PTE_V) := by
  rw [Nat.or_assoc, or_flags pa (or_V_lt h)]

theorem entry_valid (pa perm : Nat) : (PA2PTE pa ||| perm ||| PTE_V) &&& PTE_V ≠ 0 := by
  rw [and_V, Nat.or_mod_two_eq_one.mpr (Or.inr rfl)]
  decide

theorem entry_user (pa perm : Nat) :
    (PA2PTE pa ||| perm ||| PTE_V) &&& PTE_U = 0 ↔ perm &&& PTE_U = 0 := by
  have hbit : ∀ x, x &&& PTE_U = 0 ↔ x.testBit 4 = false := by
    intro x
    have hand := Nat.and_two_pow x 4
    change x &&& 2 ^ 4 = 0 ↔ _
    rw [hand]
    cases x.testBit 4 <;> decide
  rw [hbit, hbit, Nat.testBit_or, Nat.testBit_or]
  unfold PA2PTE
  rw [Nat.testBit_shiftLeft]
  have hone : PTE_V.testBit 4 = false := rfl
  simp [hone]

theorem PTE2PA_eq (pte : Nat) (h : pte < 4503599627370496 * 1024) : PTE2PA pte = pte / 1024 * 4096 := by
  unfold PTE2PA uint64
  rw [Nat.shiftRight_eq_div_pow, Nat.shiftLeft_eq]
  have hten : 2 ^ 10 = 1024 := rfl
  have htwelve : 2 ^ 12 = 4096 := rfl
  rw [hten, htwelve]
  omega

theorem PTE2PA_entry (hpa : pa < 18446744073709551616) (haligned : pa % PGSIZE = 0) (h : perm < 1024) :
    PTE2PA (PA2PTE pa ||| perm ||| PTE_V) = pa := by
  have hflags := or_V_lt h
  unfold PGSIZE at haligned
  rw [entry_eq h, PTE2PA_eq] <;> omega

theorem entry_lt (hpa : pa < 18446744073709551616) (h : perm < 1024) :
    PA2PTE pa ||| perm ||| PTE_V < 18446744073709551616 := by
  have hflags := or_V_lt h
  rw [entry_eq h]
  omega

/-! ## Memory -/

@[simp] theorem setPte_freelist : (m.setPte t i w).freelist = m.freelist := rfl

@[simp] theorem memset_freelist (c : UInt8) : (m.memset a c).freelist = m.freelist := rfl

theorem setPte_page (h : a ≠ t) : (m.setPte t i w).page a = m.page a := Function.update_of_ne h ..

theorem memset_page (h : a ≠ b) (c : UInt8) : (m.memset b c).page a = m.page a :=
  Function.update_of_ne h ..

theorem pte_congr (h : m'.page a = m.page a) : m'.pte a = m.pte a := by
  funext i
  unfold Mem.pte
  rw [h]

theorem pte_setPte_self (hw : w < 18446744073709551616) : (m.setPte t i w).pte t i = w := by
  unfold Mem.pte Mem.setPte
  simp only [Function.update_self]
  rw [get64_put64, Nat.mod_eq_of_lt hw]

theorem pte_setPte_of_ne (h : j ≠ i) : (m.setPte t i w).pte t j = m.pte t j := by
  have hne : j.val ≠ i.val := fun heq => h (Fin.ext heq)
  unfold Mem.pte Mem.setPte
  simp only [Function.update_self]
  exact get64_put64_of_disjoint (by omega)

theorem pte_memset_zero (j : Fin 512) : (m.memset a 0).pte a j = 0 := by
  unfold Mem.pte Mem.memset
  simp only [Function.update_self]
  exact get64_zero _

/-! ## The tree -/

/-- The table that a valid entry refers to. -/
def child (pte : Nat) : Option Nat := if pte &&& PTE_V ≠ 0 then some (PTE2PA pte) else none

/-- A page that a table can be in. -/
def IsPage (pa : Nat) : Prop := pa % PGSIZE = 0 ∧ 0 < pa ∧ pa < 72057594037927936

/-- The table at the end of the path. -/
abbrev tableAt (m : Mem) (root : Nat) (p : List (Fin 512)) : Option Nat := node child m.pte root p

/-- The page is one of the tables. -/
def IsTable (m : Mem) (root a : Nat) : Prop := ∃ p, p.length ≤ 2 ∧ tableAt m root p = some a

/-- The tables are pages, no two paths lead to the same one, and an entry that leads to a table has
no permissions. The upper half of the root is for no address below `MAXVA`. -/
structure Tree (m : Mem) (root : Nat) : Prop where
  separate : Separate child m.pte root 2
  page : ∀ a, IsTable m root a → IsPage a
  inner : ∀ p a i, p.length < 2 → tableAt m root p = some a → m.pte a i &&& PTE_V ≠ 0 →
    m.pte a i &&& (PTE_R ||| PTE_W ||| PTE_X) = 0
  lower : ∀ i, m.pte root i &&& PTE_V ≠ 0 → i.val < 256

/-- The way to the table of a level, whose last step stands first. -/
def route (va : Nat) : Nat → List (Fin 512)
  | 0 => []
  | level + 1 => route va level ++ [PX (level + 1) va]

/-- The entry of the address, or 0 where there is no table for it. -/
def entry (m : Mem) (root va : Nat) : Nat :=
  (tableAt m root (route va 2)).elim 0 fun t => m.pte t (PX 0 va)

theorem entry_some (h : tableAt m root (route va 2) = some t) : entry m root va = m.pte t (PX 0 va) := by
  unfold entry
  rw [h, Option.elim_some]

theorem entry_none (h : tableAt m root (route va 2) = none) : entry m root va = 0 := by
  unfold entry
  rw [h, Option.elim_none]

/-- The free pages are pages, and none of them is a table. -/
structure Fresh (m : Mem) (root : Nat) : Prop where
  nodup : m.freelist.Nodup
  page : ∀ a ∈ m.freelist, IsPage a
  apart : ∀ a ∈ m.freelist, ¬ IsTable m root a

/-- Tables have been added, in pages that were free. -/
structure Grown (m m' : Mem) (root : Nat) (used : List Nat) : Prop where
  tree : Tree m' root
  freelist : m.freelist = used ++ m'.freelist
  tables : ∀ a, IsTable m' root a ↔ IsTable m root a ∨ a ∈ used
  keeps : ∀ p a, p.length ≤ 2 → tableAt m root p = some a → tableAt m' root p = some a
  outside : ∀ a, ¬ IsTable m root a → a ∉ used → m'.page a = m.page a

theorem Grown.refl (h : Tree m root) : Grown m m root [] where
  tree := h
  freelist := rfl
  tables _ := (or_iff_left List.not_mem_nil).symm
  keeps _ _ _ ha := ha
  outside _ _ _ := rfl

theorem Grown.trans (h : Grown m m' root used) (h' : Grown m' m'' root used') :
    Grown m m'' root (used ++ used') where
  tree := h'.tree
  freelist := by rw [h.freelist, h'.freelist, List.append_assoc]
  tables a := by rw [h'.tables, h.tables, List.mem_append, or_assoc]
  keeps p a hp ha := h'.keeps p a hp (h.keeps p a hp ha)
  outside a ha hused := by
    rw [List.mem_append, not_or] at hused
    rw [h'.outside a (fun hm => ?_) hused.2, h.outside a ha hused.1]
    exact ((h.tables a).mp hm).elim ha hused.1

theorem Fresh.grown (h : Fresh m root) (hgrown : Grown m m' root used) : Fresh m' root := by
  have hfree := h.nodup
  rw [hgrown.freelist, List.nodup_append] at hfree
  refine ⟨hfree.2.1, fun a ha => ?_, fun a ha htable => ?_⟩
  · apply h.page
    rw [hgrown.freelist]
    exact List.mem_append_right _ ha
  · rcases (hgrown.tables a).mp htable with hold | hused
    · apply h.apart a _ hold
      rw [hgrown.freelist]
      exact List.mem_append_right _ ha
    · exact hfree.2.2 a hused a ha rfl

theorem child_valid (h : pte &&& PTE_V ≠ 0) : child pte = some (PTE2PA pte) := if_pos h

theorem child_invalid (h : ¬ pte &&& PTE_V ≠ 0) : child pte = none := if_neg h

theorem child_table (ha : IsPage a) : child (PA2PTE a ||| PTE_V) = some a := by
  have hzero : PA2PTE a ||| PTE_V = PA2PTE a ||| 0 ||| PTE_V := by rw [Nat.or_zero]
  obtain ⟨haligned, -, hlt⟩ := ha
  rw [hzero, child_valid (entry_valid a 0), PTE2PA_entry (by omega) haligned (by decide)]

/-- An entry that leads to a table has `PTE_V` and no permissions. -/
theorem table_entry (ha : IsPage a) : PA2PTE a ||| PTE_V < 18446744073709551616 ∧
    (PA2PTE a ||| PTE_V) &&& (PTE_R ||| PTE_W ||| PTE_X) = 0 := by
  obtain ⟨-, -, hlt⟩ := ha
  rw [or_flags a (show PTE_V < 1024 by decide)]
  refine ⟨by unfold PTE_V; omega, ?_⟩
  rw [and_flags (show PTE_R ||| PTE_W ||| PTE_X < 1024 by decide), Nat.mul_add_mod_self_right]
  rfl

/-! ## Walking -/

theorem length_route (va level : Nat) : (route va level).length = level := by
  induction level with
  | zero => rfl
  | succ level ih => rw [route, List.length_append, ih, List.length_singleton]

theorem walkLevels_find (m : Mem) (t va level : Nat) :
    walkLevels false va level m t = (m, tableAt m t (route va level)) := by
  induction level generalizing t with
  | zero => rfl
  | succ level ih =>
    rw [walkLevels, route]
    by_cases hvalid : m.pte t (PX (level + 1) va) &&& PTE_V ≠ 0
    · rw [if_pos hvalid, ih]
      exact congrArg _ (node_snoc (child_valid hvalid)).symm
    · have hnone : child (m.pte t (PX (level + 1) va)) = none := if_neg hvalid
      rw [if_neg hvalid, tableAt, node_append, node, node, Option.bind_some, hnone]
      rfl

theorem walk_find (hva : va < MAXVA) : walk m root va false =
    .ok (m, (tableAt m root (route va 2)).map (·, PX 0 va)) := by
  unfold walk
  rw [if_neg (Nat.not_le.mpr hva), walkLevels_find]

theorem walkaddr_none (hva : va < MAXVA) (h : walk m root va false = .ok (m, none)) :
    walkaddr m root va = .ok 0 := by
  unfold walkaddr
  rw [if_neg (Nat.not_le.mpr hva), h]

theorem walkaddr_some (hva : va < MAXVA) (h : walk m root va false = .ok (m, some (t, i))) :
    walkaddr m root va = .ok
      (if m.pte t i &&& PTE_V = 0 then 0 else if m.pte t i &&& PTE_U = 0 then 0 else PTE2PA (m.pte t i)) := by
  unfold walkaddr
  rw [if_neg (Nat.not_le.mpr hva), h]
  by_cases hvalid : m.pte t i &&& PTE_V = 0
  · simp [hvalid]
  · by_cases huser : m.pte t i &&& PTE_U = 0
    · simp [hvalid, huser]
    · simp [hvalid, huser]

theorem walkaddr_eq (hva : va < MAXVA) : walkaddr m root va = .ok
    (if entry m root va &&& PTE_V = 0 then 0
      else if entry m root va &&& PTE_U = 0 then 0 else PTE2PA (entry m root va)) := by
  have hwalk := @walk_find m root va hva
  cases htable : tableAt m root (route va 2) with
  | none =>
    rw [htable, Option.map_none] at hwalk
    rw [walkaddr_none hva hwalk, entry_none htable]
    rfl
  | some t =>
    rw [htable, Option.map_some] at hwalk
    rw [entry_some htable]
    exact walkaddr_some hva hwalk

theorem kalloc_none (h : m.freelist = []) : kalloc m = (m, none) := by
  unfold kalloc
  rw [h]

theorem kalloc_some {free : List Nat} (h : m.freelist = b :: free) :
    ∃ m', kalloc m = (m', some b) ∧ m'.freelist = free ∧ ∀ a, a ≠ b → m'.page a = m.page a := by
  refine ⟨{ m with freelist := free }.memset b 5, ?_, rfl, fun a ha => memset_page ha 5⟩
  unfold kalloc
  rw [h]

/-- A table with nothing in it has been hung below an entry that was not valid. Its page `b` was no
table before. -/
structure Hung (m m' : Mem) (root : Nat) (q : List (Fin 512)) (t : Nat) (i : Fin 512) (b : Nat) : Prop where
  place : tableAt m root q = some t
  depth : q.length < 2
  low : q = [] → i.val < 256
  invalid : ¬ m.pte t i &&& PTE_V ≠ 0
  page : IsPage b
  fresh : ∀ p, p.length ≤ 2 → tableAt m root p ≠ some b
  leads : m'.pte t i = PA2PTE b ||| PTE_V
  cells : ∀ j, j ≠ i → m'.pte t j = m.pte t j
  empty : ∀ j, m'.pte b j = 0
  other : ∀ c, c ≠ t → c ≠ b → m'.page c = m.page c

theorem hung_setPte (hq : tableAt m root q = some t) (hlen : q.length < 2) (hlow : q = [] → i.val < 256)
    (hnone : ¬ m.pte t i &&& PTE_V ≠ 0) (hpage : IsPage b)
    (hout : ∀ p, p.length ≤ 2 → tableAt m root p ≠ some b) (hsame : ∀ a, a ≠ b → m'.page a = m.page a) :
    Hung m ((m'.memset b 0).setPte t i (PA2PTE b ||| PTE_V)) root q t i b := by
  have htb : t ≠ b := by
    rintro rfl
    exact hout q (Nat.le_of_lt hlen) hq
  refine ⟨hq, hlen, hlow, hnone, hpage, hout, pte_setPte_self (table_entry hpage).1, fun j hj => ?_,
    fun j => ?_, fun c hct hcb => ?_⟩
  · rw [pte_setPte_of_ne hj, pte_congr (memset_page htb 0), pte_congr (hsame t htb)]
  · rw [pte_congr (setPte_page htb.symm)]
    exact pte_memset_zero j
  · rw [setPte_page hct, memset_page hcb, hsame c hcb]

/-- An entry of a table that was there is what it was, but for the one that leads to the new table. -/
theorem Hung.pte_cases (hung : Hung m m' root q t i b) (hp : p.length ≤ 2)
    (ha : tableAt m root p = some a) (j : Fin 512) : a = t ∧ j = i ∨ m'.pte a j = m.pte a j := by
  by_cases hat : a = t
  · subst hat
    by_cases hji : j = i
    · exact Or.inl ⟨rfl, hji⟩
    · exact Or.inr (hung.cells j hji)
  · have hab : a ≠ b := by
      rintro rfl
      exact hung.fresh p hp ha
    exact Or.inr (congrFun (pte_congr (hung.other a hat hab)) j)

section hung

variable (h : Tree m root) (hung : Hung m m' root q t i b)
include h hung

theorem Hung.separate : Separate child m'.pte root 2 := by
  refine h.separate.grow hung.place hung.depth (child_invalid hung.invalid) hung.fresh
    (fun c hct hcb => pte_congr (hung.other c hct hcb)) hung.cells ?_ fun j => ?_
  · rw [hung.leads]
    exact child_table hung.page
  · rw [hung.empty]
    exact child_invalid (by decide)

/-- There is one path more. -/
theorem Hung.tableAt_iff (p : List (Fin 512)) (c : Nat) (hp : p.length ≤ 2) :
    tableAt m' root p = some c ↔ p = i :: q ∧ c = b ∨ tableAt m root p = some c := by
  refine node_grow h.separate hung.place hung.depth (child_invalid hung.invalid) hung.fresh
    (fun c hct hcb => pte_congr (hung.other c hct hcb)) hung.cells ?_ (fun j => ?_) hp
  · rw [hung.leads]
    exact child_table hung.page
  · rw [hung.empty]
    exact child_invalid (by decide)

theorem Hung.tree : Tree m' root := by
  refine ⟨hung.separate h, ?_, ?_, fun j hvalid => ?_⟩
  · rintro a ⟨p, hp, ha⟩
    rcases (hung.tableAt_iff h p a hp).mp ha with ⟨-, rfl⟩ | ha
    · exact hung.page
    · exact h.page a ⟨p, hp, ha⟩
  · intro p a j hp ha hvalid
    rcases (hung.tableAt_iff h p a (Nat.le_of_lt hp)).mp ha with ⟨-, rfl⟩ | ha
    · rw [hung.empty] at hvalid
      exact absurd rfl hvalid
    · rcases hung.pte_cases (Nat.le_of_lt hp) ha j with ⟨rfl, rfl⟩ | hsame
      · rw [hung.leads]
        exact (table_entry hung.page).2
      · rw [hsame] at hvalid ⊢
        exact h.inner p a j hp ha hvalid
  · have hroot : tableAt m root [] = some root := rfl
    rcases hung.pte_cases (p := []) (Nat.zero_le 2) hroot j with ⟨rfl, rfl⟩ | hsame
    · exact hung.low (h.separate _ _ _ (Nat.le_of_lt hung.depth) (Nat.zero_le 2) hung.place hroot)
    · rw [hsame] at hvalid
      exact h.lower j hvalid

theorem Hung.entry_eq (va : Nat) : entry m' root va = entry m root va := by
  have hroute : (route va 2).length ≤ 2 := Nat.le_of_eq (length_route va 2)
  have hiff := fun c => hung.tableAt_iff h (route va 2) c hroute
  cases hnow : tableAt m' root (route va 2) with
  | none =>
    cases hold : tableAt m root (route va 2) with
    | none => rw [entry_none hnow, entry_none hold]
    | some c =>
      rw [(hiff c).mpr (Or.inr hold)] at hnow
      cases hnow
  | some c =>
    rcases (hiff c).mp hnow with ⟨heq, rfl⟩ | hold
    · have hplace := hung.place
      have hbefore : tableAt m root (route va 2) = none := by
        rw [heq]
        unfold tableAt at hplace ⊢
        rw [node, hplace, Option.bind_some, child_invalid hung.invalid]
      rw [entry_none hbefore, entry_some hnow, hung.empty]
    · rcases hung.pte_cases hroute hold (PX 0 va) with ⟨rfl, -⟩ | hsame
      · have hdepth := hung.depth
        have hpath := h.separate (route va 2) q c hroute (Nat.le_of_lt hdepth) hold hung.place
        rw [← hpath, length_route] at hdepth
        exact absurd hdepth (Nat.lt_irrefl 2)
      · rw [entry_some hold, entry_some hnow, hsame]

theorem Hung.isTable_iff (a : Nat) : IsTable m' root a ↔ IsTable m root a ∨ a = b := by
  constructor
  · rintro ⟨p, hp, ha⟩
    rcases (hung.tableAt_iff h p a hp).mp ha with ⟨-, rfl⟩ | ha
    · exact Or.inr rfl
    · exact Or.inl ⟨p, hp, ha⟩
  · rintro (⟨p, hp, ha⟩ | rfl)
    · exact ⟨p, hp, (hung.tableAt_iff h p a hp).mpr (Or.inr ha)⟩
    · have hnew : (i :: q).length ≤ 2 := hung.depth
      exact ⟨i :: q, hnew, (hung.tableAt_iff h _ a hnew).mpr (Or.inl ⟨rfl, rfl⟩)⟩

end hung

/-- A table is hung below an entry that was not valid. -/
theorem Tree.grow {free : List Nat} (h : Tree m root) (hfresh : Fresh m root)
    (hq : tableAt m root q = some t) (hlen : q.length < 2) (hlow : q = [] → i.val < 256)
    (hnone : ¬ m.pte t i &&& PTE_V ≠ 0) (hfree : m.freelist = b :: free) (hm' : m'.freelist = free)
    (hsame : ∀ a, a ≠ b → m'.page a = m.page a) :
    Grown m ((m'.memset b 0).setPte t i (PA2PTE b ||| PTE_V)) root [b] ∧
      (∀ va, entry ((m'.memset b 0).setPte t i (PA2PTE b ||| PTE_V)) root va = entry m root va) ∧
      tableAt ((m'.memset b 0).setPte t i (PA2PTE b ||| PTE_V)) root (i :: q) = some b := by
  have hmem : b ∈ m.freelist := by
    rw [hfree]
    exact List.mem_cons_self
  have hung := hung_setPte hq hlen hlow hnone (hfresh.page b hmem)
    (fun p hp heq => hfresh.apart b hmem ⟨p, hp, heq⟩) hsame
  have hfl : ((m'.memset b 0).setPte t i (PA2PTE b ||| PTE_V)).freelist = free := hm'
  generalize (m'.memset b 0).setPte t i (PA2PTE b ||| PTE_V) = m₁ at *
  have hnew : (i :: q).length ≤ 2 := hlen
  refine ⟨⟨hung.tree h, ?_, fun a => ?_, fun p a hp ha => (hung.tableAt_iff h p a hp).mpr (Or.inr ha),
    fun a ha hused => ?_⟩, hung.entry_eq h, (hung.tableAt_iff h _ b hnew).mpr (Or.inl ⟨rfl, rfl⟩)⟩
  · rw [hfree, hfl]
    rfl
  · rw [List.mem_singleton]
    exact hung.isTable_iff h a
  · apply hung.other a
    · rintro rfl
      exact ha ⟨q, Nat.le_of_lt hlen, hq⟩
    · exact fun heq => hused (List.mem_singleton.mpr heq)

/-- `walk` with `alloc` adds the tables that are missing, or it stops where the memory ends. -/
theorem walkLevels_grow (h : Tree m root) (hfresh : Fresh m root) (hva : va < MAXVA)
    (hq : tableAt m root q = some t) (hlen : q.length + level = 2) :
    ∃ m' used r, walkLevels true va level m t = (m', r) ∧ Grown m m' root used ∧
      (∀ va, entry m' root va = entry m root va) ∧ (r = none → m'.freelist = []) ∧
      ∀ t', r = some t' → tableAt m' root (route va level ++ q) = some t' := by
  induction level generalizing m t q with
  | zero =>
    refine ⟨m, [], some t, rfl, .refl h, fun _ => rfl, fun hr => ?_, fun t' ht' => ?_⟩
    · cases hr
    · cases ht'
      exact hq
  | succ level ih =>
    have hroute : route va (level + 1) ++ q = route va level ++ (PX (level + 1) va :: q) := by
      rw [route, List.append_assoc]
      rfl
    have hlen' : (PX (level + 1) va :: q).length + level = 2 := by
      rw [List.length_cons]
      omega
    rw [walkLevels, hroute]
    by_cases hvalid : m.pte t (PX (level + 1) va) &&& PTE_V ≠ 0
    · rw [if_pos hvalid]
      refine ih h hfresh ?_ hlen'
      unfold tableAt at hq ⊢
      rw [node, hq, Option.bind_some, child_valid hvalid]
    · rw [if_neg hvalid, if_pos rfl]
      cases hfree : m.freelist with
      | nil =>
        rw [kalloc_none hfree]
        refine ⟨m, [], none, rfl, .refl h, fun _ => rfl, fun _ => hfree, fun t' ht' => ?_⟩
        cases ht'
      | cons b free =>
        obtain ⟨m₁, hkalloc, hm₁, hsame⟩ := kalloc_some hfree
        have hlow : q = [] → (PX (level + 1) va).val < 256 := by
          rintro rfl
          obtain rfl : level = 1 := by simpa using hlen
          exact PX_top hva
        obtain ⟨hgrown, hentries, htable⟩ :=
          h.grow hfresh hq (by omega) hlow hvalid hfree hm₁ hsame
        obtain ⟨m', used, r, heq, hgrown', hentries', hnone, hsome⟩ :=
          ih hgrown.tree (hfresh.grown hgrown) htable hlen'
        rw [hkalloc]
        refine ⟨m', [b] ++ used, r, heq, hgrown.trans hgrown', fun va => ?_, hnone, hsome⟩
        rw [hentries', hentries]

theorem walk_grow (h : Tree m root) (hfresh : Fresh m root) (hva : va < MAXVA) :
    ∃ m' used r, walk m root va true = .ok (m', r) ∧ Grown m m' root used ∧
      (∀ va, entry m' root va = entry m root va) ∧ (r = none → m'.freelist = []) ∧
      ∀ t i, r = some (t, i) → i = PX 0 va ∧ tableAt m' root (route va 2) = some t := by
  obtain ⟨m', used, r, heq, hgrown, hentries, hnone, hsome⟩ :=
    walkLevels_grow (q := []) h hfresh hva rfl (show 0 + 2 = 2 from rfl)
  refine ⟨m', used, r.map (·, PX 0 va), ?_, hgrown, hentries, fun hr => ?_, fun t i ht => ?_⟩
  · unfold walk
    rw [if_neg (Nat.not_le.mpr hva), heq]
  · exact hnone (Option.map_eq_none_iff.mp hr)
  · obtain ⟨t', ht', heq'⟩ := Option.map_eq_some_iff.mp ht
    cases heq'
    have hat := hsome _ ht'
    rw [List.append_nil] at hat
    exact ⟨rfl, hat⟩

/-- An entry of the last level is set, and the others stay. -/
theorem Tree.set (h : Tree m root) (hva : va < MAXVA) (ht : tableAt m root (route va 2) = some t)
    (hw : w < 18446744073709551616) : Grown m (m.setPte t (PX 0 va) w) root [] ∧
      (∀ p, p.length ≤ 2 → tableAt (m.setPte t (PX 0 va) w) root p = tableAt m root p) ∧
      ∀ va', va' < MAXVA → entry (m.setPte t (PX 0 va) w) root va' =
        if va' / PGSIZE = va / PGSIZE then w else entry m root va' := by
  have hlen := length_route va 2
  have hother : ∀ b, b ≠ t → (m.setPte t (PX 0 va) w).pte b = m.pte b :=
    fun b hb => pte_congr (setPte_page hb)
  have hself := pte_setPte_self (m := m) (t := t) (i := PX 0 va) hw
  have hcells : ∀ j, j ≠ PX 0 va → (m.setPte t (PX 0 va) w).pte t j = m.pte t j :=
    fun j hj => pte_setPte_of_ne hj
  have hout : ∀ a, a ≠ t → (m.setPte t (PX 0 va) w).page a = m.page a := fun a ha => setPte_page ha
  have hfree : (m.setPte t (PX 0 va) w).freelist = m.freelist := rfl
  generalize m.setPte t (PX 0 va) w = m' at *
  have hsame : ∀ p, p.length ≤ 2 → tableAt m' root p = tableAt m root p :=
    fun p hp => node_set h.separate ht hlen hother hp
  have htables : ∀ a, IsTable m' root a ↔ IsTable m root a := by
    intro a
    constructor
    · rintro ⟨p, hp, ha⟩
      exact ⟨p, hp, (hsame p hp).symm.trans ha⟩
    · rintro ⟨p, hp, ha⟩
      exact ⟨p, hp, (hsame p hp).trans ha⟩
  refine ⟨⟨⟨h.separate.congr hsame, fun a ha => h.page a ((htables a).mp ha), ?_, ?_⟩, ?_, fun a => ?_, ?_,
    ?_⟩, hsame, fun va' hva' => ?_⟩
  · intro p a j hp ha hvalid
    rw [hsame p (Nat.le_of_lt hp)] at ha
    have hat : a ≠ t := by
      rintro rfl
      have hpath := h.separate p (route va 2) a (Nat.le_of_lt hp) (Nat.le_of_eq hlen) ha ht
      rw [hpath, hlen] at hp
      exact absurd hp (Nat.lt_irrefl 2)
    rw [hother a hat] at hvalid ⊢
    exact h.inner p a j hp ha hvalid
  · intro j hvalid
    have hat : root ≠ t := by
      rintro rfl
      have hpath := h.separate [] (route va 2) root (Nat.zero_le 2) (Nat.le_of_eq hlen) rfl ht
      rw [← hpath] at hlen
      cases hlen
    rw [hother root hat] at hvalid
    exact h.lower j hvalid
  · rw [hfree]
    rfl
  · rw [htables, or_iff_left List.not_mem_nil]
  · exact fun p a hp ha => (hsame p hp).trans ha
  · intro a ha _
    apply hout
    rintro rfl
    exact ha ⟨route va 2, Nat.le_of_eq hlen, ht⟩
  · have hsame' := hsame (route va' 2) (Nat.le_of_eq (length_route va' 2))
    by_cases hpage : va' / PGSIZE = va / PGSIZE
    · have hroute : route va' 2 = route va 2 := by
        rw [route, route, route, route, route, route, PX_of_page hpage, PX_of_page hpage]
      rw [if_pos hpage, ← hself, entry_some (hsame'.trans (hroute ▸ ht)), PX_of_page hpage]
    · rw [if_neg hpage]
      cases hold : tableAt m root (route va' 2) with
      | none => rw [entry_none (hsame'.trans hold), entry_none hold]
      | some c =>
        rw [entry_some (hsame'.trans hold), entry_some hold]
        by_cases hct : c = t
        · subst hct
          apply hcells
          intro hindex
          have hpath := h.separate (route va' 2) (route va 2) c (Nat.le_of_eq (length_route va' 2))
            (Nat.le_of_eq hlen) hold ht
          rw [route, route, route, route, route, route] at hpath
          have hsteps := List.cons.inj hpath
          exact hpage (page_of_PX hva' hva hindex hsteps.1 (List.cons.inj hsteps.2).1)
        · rw [hother c hct]

/-- Only the tables matter. -/
theorem Tree.congr (h : Tree m root) (hs : ∀ a, IsTable m root a → m'.page a = m.page a) :
    Tree m' root ∧ (∀ p, p.length ≤ 2 → tableAt m' root p = tableAt m root p) ∧
      ∀ va, entry m' root va = entry m root va := by
  have hsame : ∀ p, p.length ≤ 2 → tableAt m' root p = tableAt m root p := fun p hp =>
    node_congr (fun q a hq ha => pte_congr (hs a ⟨q, Nat.le_of_lt hq, ha⟩)) hp
  refine ⟨⟨h.separate.congr hsame, ?_, ?_, fun i hvalid => ?_⟩, hsame, fun va => ?_⟩
  · rintro a ⟨p, hp, ha⟩
    exact h.page a ⟨p, hp, (hsame p hp).symm.trans ha⟩
  · intro p a i hp ha hvalid
    rw [hsame p (Nat.le_of_lt hp)] at ha
    rw [pte_congr (hs a ⟨p, Nat.le_of_lt hp, ha⟩)] at hvalid ⊢
    exact h.inner p a i hp ha hvalid
  · rw [pte_congr (hs root ⟨[], Nat.zero_le 2, rfl⟩)] at hvalid
    exact h.lower i hvalid
  · have hroute := Nat.le_of_eq (length_route va 2)
    cases hold : tableAt m root (route va 2) with
    | none => rw [entry_none ((hsame _ hroute).trans hold), entry_none hold]
    | some t =>
      rw [entry_some ((hsame _ hroute).trans hold), entry_some hold, pte_congr (hs t ⟨_, hroute, hold⟩)]

end xv6.pagetable
