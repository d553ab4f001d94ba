-- The image that mkfs makes, as the kernel reads it. While files are
-- appended the blocks below `freeblock` are the used ones; the free map that
-- says so is written at the end, so the lemmas look at the disk with it.
import Mathlib.Data.List.GetD
import Mathlib.Data.List.Range
import SysNet.Xv6.BlockOwnership
import SysNet.Xv6.Mkfs

open bytes owners xv6.fs

namespace xv6.mkfs

variable {m m' : Image} {inodes : Nat → Dinode} {i j k b n : Nat} {din din' : Dinode}
  {c : Nat → List UInt8}

/-! ## The free map -/

theorem bit_foldl_setBit (l : List Nat) (b : Buffer) (j : Nat) :
    bit (l.foldl setBit b) j = (bit b j || decide (j ∈ l)) := by
  induction l generalizing b with
  | nil => simp
  | cons a l ih =>
    rw [List.foldl_cons, ih, bit_setBit, Bool.or_assoc, ← Bool.decide_or]
    congr 1
    simp [eq_comm]

theorem bit_usedMap (used j : Nat) : bit (usedMap used) j = decide (j < used) := by
  unfold usedMap
  rw [bit_foldl_setBit]
  have hzero : bit (fun _ => 0) j = false := by
    unfold bit
    exact Nat.zero_testBit _
  simp [hzero]

/-- The disk with the free map as it is at the end. -/
def Image.shown (m : Image) : Disk := Function.update m.disk sb.bmapstart (usedMap m.freeblock)

theorem shown_of_ne (h : b ≠ sb.bmapstart) : m.shown b = m.disk b := Function.update_of_ne h ..

theorem datastart_eq : sb.datastart = 47 := rfl

theorem bmapstart_eq : sb.bmapstart = 46 := rfl

theorem shown_data (h : sb.datastart ≤ b) : m.shown b = m.disk b := by
  rw [datastart_eq] at h
  refine shown_of_ne ?_
  rw [bmapstart_eq]
  omega

theorem isUsed_shown (h : b < FSSIZE) : isUsed sb m.shown b = decide (b < m.freeblock) := by
  have hblock : BBLOCK sb b = sb.bmapstart := by
    unfold BBLOCK BPB
    unfold FSSIZE at h
    omega
  have hbit : b % BPB = b := by
    unfold BPB
    unfold FSSIZE at h
    omega
  unfold isUsed Image.shown
  rw [hblock, Function.update_self, hbit, bit_usedMap]

theorem dinode_shown (h : i < sb.islots) : dinode sb m.shown i = dinode sb m.disk i := by
  have hlt := iblock_lt h
  unfold dinode
  rw [shown_of_ne (by omega)]

/-- The next block is taken. -/
theorem isUsed_taken (hfree : m'.freeblock = m.freeblock + 1) (hb : b < FSSIZE) :
    isUsed sb m'.shown b ↔ isUsed sb m.shown b ∨ b = m.freeblock := by
  rw [isUsed_shown hb, isUsed_shown hb, hfree, decide_eq_true_iff, decide_eq_true_iff]
  omega

/-! ## Files that grow -/

/-- The blocks of an inode lie below the offset. -/
structure Below (d : Disk) (din : Dinode) (off : Nat) : Prop where
  blocks : ∀ bn, addrOf d din (place bn) ≠ 0 → bn * BSIZE < off
  indirect : din.addrs NDIRECT ≠ 0 → NDIRECT * BSIZE < off

/-- The files `c` are on the disk, and `din` is the copy of the inode `i`, to which the tool
appends. The inodes on the disk are still those from before. -/
structure Writing (m : Image) (inodes : Nat → Dinode) (i : Nat) (din : Dinode)
    (c : Nat → List UInt8) : Prop where
  inum : i < sb.islots
  type : din.type ≠ 0
  fits : din.Fits
  consistent : Consistent sb m.shown (Function.update inodes i din)
  dinode : ∀ j < sb.islots, dinode sb m.disk j = inodes j
  low : nmeta ≤ m.freeblock
  high : m.freeblock ≤ FSSIZE
  fresh : ∀ b, m.freeblock ≤ b → m.disk b = fun _ => 0
  super : m.disk 1 = superBlock
  covered : ∀ bn, bn * BSIZE < (c i).length → addrOf m.shown din (place bn) ≠ 0
  others : ∀ j < sb.islots, j ≠ i → (inodes j).type ≠ 0 → Below m.shown (inodes j) (c j).length
  contents : ∀ j bn x, ref sb m.shown (Function.update inodes i din) (j, place bn) ≠ 0 → x < BSIZE →
    m.disk (ref sb m.shown (Function.update inodes i din) (j, place bn)) x =
      (c j).getD (bn * BSIZE + x) 0

/-- A block of a file is no indirect block. -/
theorem ref_ne_indirect {d : Disk} {bn : Nat} (h : Consistent sb d inodes) (hi : i < sb.islots)
    (ht : (inodes i).type ≠ 0) (hne : ref sb d inodes (j, place bn) ≠ 0) :
    ref sb d inodes (j, place bn) ≠ (inodes i).addrs NDIRECT := by
  intro heq
  have hind : ref sb d inodes (i, NDIRECT) = (inodes i).addrs NDIRECT := by
    rw [ref_eq hi ht, addrOf_direct (Nat.le_refl _)]
  have hone := h.owned.once _ _ hne (heq.trans hind.symm)
  exact place_ne bn (Prod.mk.inj hone).2

theorem Writing.self (h : Writing m inodes i din c) (k : Nat) :
    ref sb m.shown (Function.update inodes i din) (i, k) = addrOf m.shown din k := by
  have hself : Function.update inodes i din i = din := Function.update_self ..
  rw [ref_eq h.inum (by rw [hself]; exact h.type), hself]

/-- The indirect block is one of the blocks that are given out. -/
theorem Writing.indirect (h : Writing m inodes i din c) (hne : din.addrs NDIRECT ≠ 0) :
    nmeta ≤ din.addrs NDIRECT ∧ din.addrs NDIRECT < m.freeblock := by
  have hself : Function.update inodes i din i = din := Function.update_self ..
  have hind := h.consistent.indirect h.inum (by rw [hself]; exact h.type) (by rwa [hself])
  rw [hself] at hind
  obtain ⟨hge, hlt, hused⟩ := hind
  rw [isUsed_shown hlt, decide_eq_true_iff] at hused
  exact ⟨hge, hused⟩

/-- The next block goes to a place of the inode that had none. Of the other blocks only the
indirect block of the inode may have changed. -/
theorem Writing.give (h : Writing m inodes i din c) (hfree : m'.freeblock = m.freeblock + 1)
    (hlt : m.freeblock < FSSIZE) (hext : Extends sb inodes i m.shown m'.shown din din')
    (hzero : addrOf m.shown din k = 0) (hat : addrOf m'.shown din' k = m.freeblock)
    (hplaces : ∀ k', k' ≠ k → addrOf m'.shown din' k' = addrOf m.shown din k')
    (hframe : ∀ b, (din'.addrs NDIRECT ≠ 0 → b ≠ din'.addrs NDIRECT) → m'.disk b = m.disk b) :
    Writing m' inodes i din' c := by
  have hself : Function.update inodes i din' i = din' := Function.update_self ..
  have htype : din'.type ≠ 0 := by
    rw [hext.type]
    exact h.type
  have htype' : (Function.update inodes i din' i).type ≠ 0 := by rwa [hself]
  have hind : din'.addrs NDIRECT ≠ 0 →
      sb.datastart ≤ din'.addrs NDIRECT ∧ din'.addrs NDIRECT < m'.freeblock := by
    intro hne
    have hind := hext.consistent.indirect h.inum htype' (by rwa [hself])
    rw [hself] at hind
    obtain ⟨hge, hsize, hused⟩ := hind
    rw [isUsed_shown hsize, decide_eq_true_iff] at hused
    exact ⟨hge, hused⟩
  have hdata : ∀ j bn, ref sb m'.shown (Function.update inodes i din') (j, place bn) ≠ 0 →
      m'.disk (ref sb m'.shown (Function.update inodes i din') (j, place bn)) =
        m.disk (ref sb m'.shown (Function.update inodes i din') (j, place bn)) := by
    intro j bn hne
    refine hframe _ fun _ => ?_
    have hblock := ref_ne_indirect hext.consistent h.inum htype' hne
    rwa [hself] at hblock
  have hothers : ∀ j < sb.islots, j ≠ i → (inodes j).type ≠ 0 →
      ∀ k, addrOf m'.shown (inodes j) k = addrOf m.shown (inodes j) k := by
    intro j hj hji ht k
    have hother : Function.update inodes i din' j = inodes j := Function.update_of_ne hji ..
    refine addrOf_congr rfl rfl fun ha => ?_
    have hused := hext.consistent.indirect hj (by rwa [hother]) (by rwa [hother])
    rw [hother] at hused
    rw [shown_data hused.1, shown_data hused.1]
    refine hframe _ fun _ heq => hji ?_
    -- two inodes do not share an indirect block
    have hone := hext.consistent.owned.once (j, NDIRECT) (i, NDIRECT)
    rw [ref_eq hj (by rwa [hother]), ref_eq h.inum htype', hother, hself,
      addrOf_direct (Nat.le_refl _), addrOf_direct (Nat.le_refl _)] at hone
    exact (Prod.mk.inj (hone ha heq)).1
  refine ⟨h.inum, htype, hext.fits h.fits, hext.consistent, fun j hj => ?_, ?_, ?_, fun b hb => ?_, ?_,
    fun bn hbn => ?_, fun j hj hji ht => ?_, fun j bn x hne hx => ?_⟩
  · rw [← dinode_shown hj, hext.dinode j hj, dinode_shown hj]
    exact h.dinode j hj
  · have hlow := h.low
    omega
  · omega
  · rw [hframe b, h.fresh b (by omega)]
    intro hne
    have hlt := (hind hne).2
    omega
  · rw [hframe 1]
    · exact h.super
    · intro hne
      have hge := (hind hne).1
      rw [datastart_eq] at hge
      omega
  · rw [hext.keeps _ (h.covered bn hbn)]
    exact h.covered bn hbn
  · have hold := h.others j hj hji ht
    refine ⟨fun bn hbn => hold.blocks bn ?_, hold.indirect⟩
    rwa [hothers j hj hji ht] at hbn
  · rw [hdata j bn hne]
    by_cases hji : j = i
    · subst hji
      rw [ref_eq h.inum htype', hself] at hne ⊢
      by_cases hk : place bn = k
      · -- the new block is empty, and the file ends before it
        rw [hk, hat, h.fresh _ (Nat.le_refl _)]
        have hend : (c j).length ≤ bn * BSIZE := by
          by_contra hlt
          refine h.covered bn (by omega) ?_
          rw [hk, hzero]
        rw [List.getD_eq_default _ _ (by omega)]
      · have hold := h.contents j bn x
        rw [hplaces _ hk] at hne ⊢
        rw [h.self] at hold
        exact hold hne hx
    · have hother : ∀ x : Dinode, Function.update inodes i x j = inodes j :=
        fun x => Function.update_of_ne hji ..
      have hsame : ref sb m'.shown (Function.update inodes i din') (j, place bn) =
          ref sb m.shown (Function.update inodes i din) (j, place bn) := by
        unfold ref
        rw [hother, hother]
        by_cases hj : j < sb.islots ∧ (inodes j).type ≠ 0
        · rw [if_pos hj, if_pos hj, hothers j hj.1 hji hj.2]
        · rw [if_neg hj, if_neg hj]
      rw [hsame] at hne ⊢
      exact h.contents j bn x hne hx

theorem same_shown (h : ∀ b, sb.datastart ≤ b → m'.disk b = m.disk b)
    (hi : ∀ j < sb.islots, dinode sb m'.disk j = dinode sb m.disk j) (P : Nat → Prop) :
    Same sb m.shown m'.shown P := by
  refine ⟨fun j hj => ?_, fun b hb _ => ?_⟩
  · rw [dinode_shown hj, dinode_shown hj, hi j hj]
  · rw [shown_data hb, shown_data hb, h b hb]

/-- `addrs[k]` gets the next block. -/
theorem Writing.takeAddr (h : Writing m inodes i din c) (hk : k ≤ NDIRECT) (hzero : din.addrs k = 0)
    (hlt : m.freeblock < FSSIZE) (hm : m' = { m with freeblock := m.freeblock + 1 })
    (hdin : din' = { din with addrs := Function.update din.addrs k m.freeblock }) :
    Writing m' inodes i din' c ∧ addrOf m'.shown din' k = m.freeblock ∧
      ∀ k', k' ≠ k → addrOf m'.shown din' k' = addrOf m.shown din k' := by
  have hfree : m'.freeblock = m.freeblock + 1 := by rw [hm]
  have hdisk : m'.disk = m.disk := by rw [hm]
  have hunused : ¬ isUsed sb m.shown m.freeblock := by
    rw [isUsed_shown hlt, decide_eq_true_iff]
    exact Nat.lt_irrefl _
  have hsame : Same sb m.shown m'.shown (· = m.freeblock) :=
    same_shown (fun _ _ => by rw [hdisk]) (fun _ _ => by rw [hdisk]) _
  have hclear : m'.shown m.freeblock = fun _ => 0 := by
    rw [shown_data h.low, hdisk, h.fresh _ (Nat.le_refl _)]
  obtain ⟨hext, hat, hplaces⟩ := addr_spec h.consistent h.inum h.type hk hzero hlt hunused
    (fun b hb => isUsed_taken hfree hb) hsame hclear hdin
  refine ⟨h.give hfree hlt hext ?_ hat hplaces fun b _ => by rw [hdisk], hat, hplaces⟩
  rw [addrOf_direct hk, hzero]

/-- An entry of the indirect block gets the next block. -/
theorem Writing.entry {e : Nat} (h : Writing m inodes i din c) (ha : din.addrs NDIRECT ≠ 0)
    (he : e < NINDIRECT) (hzero : get32 (m.disk (din.addrs NDIRECT)) (4 * e) = 0)
    (hlt : m.freeblock < FSSIZE)
    (hm : m' = { m with
      disk := Function.update m.disk (din.addrs NDIRECT)
        (put32 (m.disk (din.addrs NDIRECT)) (4 * e) m.freeblock)
      freeblock := m.freeblock + 1 }) :
    Writing m' inodes i din c ∧ addrOf m'.shown din (NDIRECT + 1 + e) = m.freeblock ∧
      ∀ k, k ≠ NDIRECT + 1 + e → addrOf m'.shown din k = addrOf m.shown din k := by
  have hfree : m'.freeblock = m.freeblock + 1 := by rw [hm]
  have hind := h.indirect ha
  have hmap : din.addrs NDIRECT ≠ sb.bmapstart := by
    have hge : nmeta = 47 := rfl
    rw [bmapstart_eq]
    omega
  have hunused : ¬ isUsed sb m.shown m.freeblock := by
    rw [isUsed_shown hlt, decide_eq_true_iff]
    exact Nat.lt_irrefl _
  have hsame : Same sb m.shown { m with freeblock := m.freeblock + 1 }.shown (· = m.freeblock) := by
    apply same_shown
    · exact fun _ _ => rfl
    · exact fun _ _ => rfl
  have hshown : m'.shown = Function.update { m with freeblock := m.freeblock + 1 }.shown
      (din.addrs NDIRECT) (put32 ({ m with freeblock := m.freeblock + 1 }.shown (din.addrs NDIRECT))
        (4 * e) m.freeblock) := by
    rw [shown_of_ne hmap, hm]
    unfold Image.shown
    simp only
    rw [Function.update_comm hmap]
  obtain ⟨hext, hat, hplaces⟩ := entry_spec h.consistent h.inum h.type ha he
    (by rw [shown_of_ne hmap, hzero]) hlt hunused (fun b hb => isUsed_taken rfl hb) hsame
  rw [← hshown] at hext hat hplaces
  refine ⟨h.give hfree hlt hext ?_ hat hplaces fun b hb => ?_, hat, hplaces⟩
  · rw [addrOf_entry ha he, shown_of_ne hmap, hzero]
  · rw [hm]
    exact Function.update_of_ne (hb ha) ..

/-! ## Counting blocks -/

/-- The blocks of a file of some size, with the indirect block. -/
def blocksOf (size : Nat) : Nat :=
  (size + (BSIZE - 1)) / BSIZE + if NDIRECT * BSIZE < size then 1 else 0

theorem blocksOf_mono {a b : Nat} (h : a ≤ b) : blocksOf a ≤ blocksOf b := by
  unfold blocksOf BSIZE NDIRECT
  split <;> split <;> omega

theorem blocksOf_inside {off : Nat} (h : off % BSIZE ≠ 0) : blocksOf (off + 1) = blocksOf off := by
  unfold blocksOf BSIZE NDIRECT at *
  split <;> split <;> omega

theorem blocksOf_next {off : Nat} (h : off % BSIZE = 0) (hne : off ≠ NDIRECT * BSIZE) :
    blocksOf (off + 1) = blocksOf off + 1 := by
  unfold blocksOf BSIZE NDIRECT at *
  split <;> split <;> omega

theorem blocksOf_indirect {off : Nat} (h : off = NDIRECT * BSIZE) : blocksOf (off + 1) = blocksOf off + 2 := by
  subst h
  rfl

/-- A turn of the loop stays in one block. -/
theorem blocksOf_turn {off n : Nat} (hn : 0 < n) (h : n ≤ BSIZE - off % BSIZE) :
    blocksOf (off + n) = blocksOf (off + 1) := by
  unfold blocksOf BSIZE NDIRECT at *
  split <;> split <;> omega

/-! ## Appending -/

variable {off : Nat}

/-- The next block of the file is there, or the image is full. -/
structure Appended (m : Image) (inodes : Nat → Dinode) (i : Nat) (c : Nat → List UInt8) (off : Nat)
    (m' : Image) (din' : Dinode) (x : Nat) : Prop where
  writing : Writing m' inodes i din' c
  block : x = addrOf m'.shown din' (place (off / BSIZE))
  there : x ≠ 0
  below : Below m'.shown din' (off + 1)
  count : m'.freeblock + blocksOf off = m.freeblock + blocksOf (off + 1)
  freeinode : m'.freeinode = m.freeinode

theorem Writing.block_lt {bn : Nat} (h : Writing m inodes i din c)
    (hne : addrOf m.shown din (place bn) ≠ 0) :
    nmeta ≤ addrOf m.shown din (place bn) ∧ addrOf m.shown din (place bn) < m.freeblock := by
  have hrange := h.consistent.owned.range (i, place bn) (by rwa [h.self])
  have hused := h.consistent.owned.used_ref (p := (i, place bn)) (by rwa [h.self])
  rw [h.self] at hrange hused
  rw [isUsed_shown hrange.2, decide_eq_true_iff] at hused
  exact ⟨hrange.1, hused⟩

/-- The block is there already, so the offset is inside of it. -/
theorem Writing.found (h : Writing m inodes i din c) (hbelow : Below m.shown din off)
    (hne : addrOf m.shown din (place (off / BSIZE)) ≠ 0) :
    Appended m inodes i c off m din (addrOf m.shown din (place (off / BSIZE))) := by
  have hlt := hbelow.blocks _ hne
  refine ⟨h, rfl, hne, ⟨fun bn hbn => ?_, fun ha => ?_⟩, ?_, rfl⟩
  · exact Nat.lt_succ_of_lt (hbelow.blocks bn hbn)
  · exact Nat.lt_succ_of_lt (hbelow.indirect ha)
  · rw [blocksOf_inside]
    unfold BSIZE at *
    omega

theorem place_indirect {e : Nat} : place (NDIRECT + e) = NDIRECT + 1 + e := by
  unfold place
  rw [if_neg (by omega)]
  omega

theorem place_inj {a b : Nat} (h : place a = place b) : a = b := by
  unfold place at h
  split at h <;> split at h <;> omega

/-- The block of the offset is missing, so the offset is at its start. -/
theorem Writing.aligned (h : Writing m inodes i din c) (hoff : off = (c i).length)
    (hzero : addrOf m.shown din (place (off / BSIZE)) = 0) : off % BSIZE = 0 := by
  by_contra hne
  refine h.covered (off / BSIZE) ?_ hzero
  unfold BSIZE at *
  omega

/-- Without an indirect block there are no blocks behind the direct ones. -/
theorem addrOf_beyond {d : Disk} {e : Nat} (h : din.addrs NDIRECT = 0) :
    addrOf d din (NDIRECT + 1 + e) = 0 := by
  unfold addrOf
  rw [if_neg (by omega), if_neg fun hand => hand.1 h]

theorem appendBlock_direct (h : Writing m inodes i din c) (hoff : off = (c i).length)
    (hbelow : Below m.shown din off) (hdirect : off / BSIZE < NDIRECT) :
    (∃ m' din' x, appendBlock m din (off / BSIZE) = .ok (m', din', x) ∧
      Appended m inodes i c off m' din' x) ∨
    ∃ m' din' x, appendBlock m din (off / BSIZE) = .ok (m', din', x) ∧ FSSIZE ≤ x ∧
      FSSIZE + blocksOf off < m.freeblock + blocksOf (off + 1) := by
  have hplace := place_direct hdirect
  have haddr : addrOf m.shown din (place (off / BSIZE)) = din.addrs (off / BSIZE) := by
    rw [hplace, addrOf_direct (Nat.le_of_lt hdirect)]
  unfold appendBlock
  rw [if_pos hdirect]
  unfold mkfs.takeAddr
  by_cases hzero : din.addrs (off / BSIZE) = 0
  · rw [if_pos hzero]
    simp only [Function.update_self]
    have hmod := h.aligned hoff (haddr.trans hzero)
    have hnext := blocksOf_next hmod (by unfold NDIRECT BSIZE at *; omega)
    by_cases hlt : m.freeblock < FSSIZE
    · obtain ⟨hw, hat, hplaces⟩ := h.takeAddr (Nat.le_of_lt hdirect) hzero hlt rfl rfl
      refine Or.inl ⟨_, _, _, rfl, hw, ?_, ?_, ⟨fun bn hbn => ?_, fun ha => ?_⟩, ?_, rfl⟩
      · rw [hplace, hat]
      · have hlow : 47 ≤ m.freeblock := h.low
        omega
      · by_cases hk : place bn = off / BSIZE
        · rw [place_inj (hk.trans hplace.symm)]
          unfold BSIZE at *
          omega
        · rw [hplaces _ hk] at hbn
          exact Nat.lt_succ_of_lt (hbelow.blocks bn hbn)
      · simp only [Function.update_of_ne (Nat.ne_of_gt hdirect)] at ha
        exact Nat.lt_succ_of_lt (hbelow.indirect ha)
      · rw [hnext]
        simp only
        omega
    · refine Or.inr ⟨_, _, _, rfl, ?_, ?_⟩
      · omega
      · omega
  · rw [if_neg hzero]
    simp only
    rw [← haddr] at hzero ⊢
    exact Or.inl ⟨_, _, _, rfl, h.found hbelow hzero⟩

/-- With the indirect block there, its entry is found or gets the next block. -/
theorem entry_appended {e : Nat} (h : Writing m inodes i din c) (hoff : off = (c i).length)
    (hbelow : Below m.shown din (off + 1)) (hfbn : off / BSIZE = NDIRECT + e) (he : e < NINDIRECT)
    (ha : din.addrs NDIRECT ≠ 0) (hzero : get32 (m.disk (din.addrs NDIRECT)) (4 * e) = 0)
    (hlt : m.freeblock < FSSIZE)
    (hm : m' = { m with
      disk := Function.update m.disk (din.addrs NDIRECT)
        (put32 (m.disk (din.addrs NDIRECT)) (4 * e) m.freeblock)
      freeblock := m.freeblock + 1 }) :
    Writing m' inodes i din c ∧ m.freeblock = addrOf m'.shown din (place (off / BSIZE)) ∧
      m.freeblock ≠ 0 ∧ Below m'.shown din (off + 1) := by
  obtain ⟨hw, hat, hplaces⟩ := h.entry ha he hzero hlt hm
  have hplace : place (off / BSIZE) = NDIRECT + 1 + e := by rw [hfbn, place_indirect]
  refine ⟨hw, ?_, ?_, fun bn hbn => ?_, hbelow.indirect⟩
  · rw [hplace, hat]
  · have hlow : 47 ≤ m.freeblock := h.low
    omega
  · by_cases hk : place bn = NDIRECT + 1 + e
    · rw [place_inj (hk.trans hplace.symm)]
      unfold BSIZE
      omega
    · rw [hplaces _ hk] at hbn
      exact hbelow.blocks bn hbn

theorem appendBlock_indirect (h : Writing m inodes i din c) (hoff : off = (c i).length)
    (hbelow : Below m.shown din off) (hdirect : ¬ off / BSIZE < NDIRECT) (hmax : off / BSIZE < MAXFILE) :
    (∃ m' din' x, appendBlock m din (off / BSIZE) = .ok (m', din', x) ∧
      Appended m inodes i c off m' din' x) ∨
    FSSIZE + blocksOf off < m.freeblock + blocksOf (off + 1) ∧
      ((∃ e, appendBlock m din (off / BSIZE) = .error e) ∨
        ∃ m' din' x, appendBlock m din (off / BSIZE) = .ok (m', din', x) ∧ FSSIZE ≤ x) := by
  obtain ⟨e, hfbn⟩ : ∃ e, off / BSIZE = NDIRECT + e := ⟨off / BSIZE - NDIRECT, by omega⟩
  have he : e < NINDIRECT := by
    unfold MAXFILE at hmax
    omega
  have hplace : place (off / BSIZE) = NDIRECT + 1 + e := by rw [hfbn, place_indirect]
  have hbelow' : Below m.shown din (off + 1) :=
    ⟨fun bn hbn => Nat.lt_succ_of_lt (hbelow.blocks bn hbn),
      fun ha => Nat.lt_succ_of_lt (hbelow.indirect ha)⟩
  have hsub : off / BSIZE - NDIRECT = e := by omega
  unfold appendBlock
  rw [if_neg hdirect, hsub]
  unfold mkfs.takeAddr rsect
  by_cases hind : din.addrs NDIRECT = 0
  · -- the first block behind the direct ones
    have haddr : addrOf m.shown din (place (off / BSIZE)) = 0 := by rw [hplace, addrOf_beyond hind]
    have hend : off = NDIRECT * BSIZE := by
      by_contra hne
      refine h.covered NDIRECT ?_ ?_
      · unfold NDIRECT BSIZE at *
        omega
      · rw [show place NDIRECT = NDIRECT + 1 + 0 from rfl, addrOf_beyond hind]
    have hcount := blocksOf_indirect hend
    have hzero : e = 0 := by
      rw [hend, Nat.mul_div_cancel _ (by decide : 0 < BSIZE)] at hfbn
      omega
    rw [if_pos hind]
    simp only [Function.update_self]
    by_cases hlt : m.freeblock < FSSIZE
    · obtain ⟨hw, hat, hplaces⟩ := h.takeAddr (Nat.le_refl NDIRECT) hind hlt rfl rfl
      have hself : Function.update din.addrs NDIRECT m.freeblock NDIRECT = m.freeblock :=
        Function.update_self ..
      have hne : m.freeblock ≠ 0 := by
        have hlow : 47 ≤ m.freeblock := h.low
        omega
      have hempty : get32 (m.disk m.freeblock) (4 * e) = 0 := by
        rw [h.fresh _ (Nat.le_refl _), get32_zero]
      rw [if_pos hlt]
      simp only
      rw [if_pos hempty]
      by_cases hlt' : m.freeblock + 1 < FSSIZE
      · have hbelow₁ : Below { m with freeblock := m.freeblock + 1 }.shown
            { din with addrs := Function.update din.addrs NDIRECT m.freeblock } (off + 1) := by
          refine ⟨fun bn hbn => ?_, fun _ => ?_⟩
          · rw [hplaces _ (place_ne bn)] at hbn
            exact hbelow'.blocks bn hbn
          · rw [← hend]
            exact Nat.lt_succ_self _
        have hdone := entry_appended hw hoff hbelow₁ hfbn he (by simp only [hself]; exact hne)
          (by simp only [hself]; exact hempty) hlt' rfl
        simp only [hself] at hdone
        obtain ⟨hw', hblock, hthere, hbelow₂⟩ := hdone
        refine Or.inl ⟨_, _, _, rfl, hw', hblock, hthere, hbelow₂, ?_, rfl⟩
        simp only
        omega
      · refine Or.inr ⟨by omega, Or.inr ⟨_, _, _, rfl, by omega⟩⟩
    · rw [if_neg hlt]
      exact Or.inr ⟨by omega, Or.inl ⟨_, rfl⟩⟩
  · rw [if_neg hind]
    have hrange := h.indirect hind
    have hhigh := h.high
    simp only
    rw [if_pos (by omega : din.addrs NDIRECT < FSSIZE)]
    simp only
    have hmap : din.addrs NDIRECT ≠ sb.bmapstart := by
      have hge : nmeta = 47 := rfl
      rw [bmapstart_eq]
      omega
    have hentry : addrOf m.shown din (place (off / BSIZE)) =
        get32 (m.disk (din.addrs NDIRECT)) (4 * e) := by
      rw [hplace, addrOf_entry hind he, shown_of_ne hmap]
    by_cases hzero : get32 (m.disk (din.addrs NDIRECT)) (4 * e) = 0
    · rw [if_pos hzero]
      have hmod := h.aligned hoff (hentry.trans hzero)
      have hne : off ≠ NDIRECT * BSIZE := Nat.ne_of_gt (hbelow.indirect hind)
      have hcount := blocksOf_next hmod hne
      by_cases hlt : m.freeblock < FSSIZE
      · obtain ⟨hw, hblock, hthere, hbelow₁⟩ := entry_appended h hoff hbelow' hfbn he hind hzero hlt rfl
        refine Or.inl ⟨_, _, _, rfl, hw, hblock, hthere, hbelow₁, ?_, rfl⟩
        simp only
        omega
      · exact Or.inr ⟨by omega, Or.inr ⟨_, _, _, rfl, by omega⟩⟩
    · rw [if_neg hzero, ← hentry]
      rw [← hentry] at hzero
      exact Or.inl ⟨_, _, _, rfl, h.found hbelow hzero⟩

/-- The block of the offset: it is there, or the image is full and the next read fails. -/
theorem appendBlock_spec (h : Writing m inodes i din c) (hoff : off = (c i).length)
    (hbelow : Below m.shown din off) (hmax : off / BSIZE < MAXFILE) :
    (∃ m' din' x, appendBlock m din (off / BSIZE) = .ok (m', din', x) ∧
      Appended m inodes i c off m' din' x) ∨
    FSSIZE + blocksOf off < m.freeblock + blocksOf (off + 1) ∧
      ((∃ e, appendBlock m din (off / BSIZE) = .error e) ∨
        ∃ m' din' x, appendBlock m din (off / BSIZE) = .ok (m', din', x) ∧ FSSIZE ≤ x) := by
  by_cases hdirect : off / BSIZE < NDIRECT
  · rcases appendBlock_direct h hoff hbelow hdirect with hok | ⟨m', din', x, heq, hx, hfull⟩
    · exact Or.inl hok
    · exact Or.inr ⟨hfull, Or.inr ⟨m', din', x, heq, hx⟩⟩
  · exact appendBlock_indirect h hoff hbelow hdirect hmax

/-- A list that grows at its end. -/
theorem getD_append_take {l p : List UInt8} {x : Nat} (h : n ≤ p.length) :
    (l ++ p.take n).getD x 0 =
      if l.length ≤ x ∧ x < l.length + n then p.getD (x - l.length) 0 else l.getD x 0 := by
  by_cases hlt : x < l.length
  · rw [List.getD_append _ _ _ _ hlt, if_neg (by omega)]
  · rw [List.getD_append_right _ _ _ _ (by omega)]
    by_cases hn : x < l.length + n
    · rw [if_pos ⟨by omega, hn⟩, List.getD_eq_getElem?_getD, List.getD_eq_getElem?_getD,
        List.getElem?_take_of_lt (by omega)]
    · have hlen : (p.take n).length ≤ x - l.length := by
        rw [List.length_take]
        omega
      rw [if_neg (by omega), List.getD_eq_default _ _ hlen, List.getD_eq_default _ _ (by omega)]

/-- No inode has a block of a file as its indirect block, so the blocks of the files stay where they
are when such a block is written. -/
theorem Writing.addrs_kept {bn x : Nat} (h : Writing m inodes i din c)
    (hat : ref sb m.shown (Function.update inodes i din) (i, place bn) = x) (hne : x ≠ 0)
    (hdisk : ∀ b, b ≠ x → m'.disk b = m.disk b) (hj : j < sb.islots)
    (ht : (Function.update inodes i din j).type ≠ 0) (k : Nat) :
    addrOf m'.shown (Function.update inodes i din j) k =
      addrOf m.shown (Function.update inodes i din j) k := by
  refine addrOf_congr rfl rfl fun ha => ?_
  have hblock := ref_ne_indirect h.consistent hj ht (j := i) (by rwa [hat])
  have hge := (h.consistent.indirect hj ht ha).1
  rw [hat] at hblock
  rw [shown_data hge, shown_data hge, hdisk _ hblock.symm]

theorem Writing.refs_kept {bn x : Nat} (h : Writing m inodes i din c)
    (hat : ref sb m.shown (Function.update inodes i din) (i, place bn) = x) (hne : x ≠ 0)
    (hdisk : ∀ b, b ≠ x → m'.disk b = m.disk b) (q : Nat × Nat) :
    ref sb m'.shown (Function.update inodes i din) q = ref sb m.shown (Function.update inodes i din) q := by
  unfold ref
  by_cases hq : q.1 < sb.islots ∧ (Function.update inodes i din q.1).type ≠ 0
  · rw [if_pos hq, if_pos hq, h.addrs_kept hat hne hdisk hq.1 hq.2]
  · rw [if_neg hq, if_neg hq]

/-- The bytes in the blocks, when some are written behind the end of the file. -/
theorem Writing.contents_written {p : List UInt8} {bn x y : Nat} (h : Writing m inodes i din c)
    (hoff : off = (c i).length) (hn : n ≤ p.length) (hroom : n ≤ BSIZE - off % BSIZE)
    (hat : ref sb m.shown (Function.update inodes i din) (i, place (off / BSIZE)) = x)
    (hdisk : ∀ b, b ≠ x → m'.disk b = m.disk b)
    (hfill : m'.disk x = fill (m.disk x) (off - off / BSIZE * BSIZE) n fun y => p.getD y 0)
    (hne : ref sb m.shown (Function.update inodes i din) (j, place bn) ≠ 0) (hy : y < BSIZE) :
    m'.disk (ref sb m.shown (Function.update inodes i din) (j, place bn)) y =
      (Function.update c i (c i ++ p.take n) j).getD (bn * BSIZE + y) 0 := by
  have hold := h.contents j bn y hne hy
  by_cases hwritten : (j, place bn) = (i, place (off / BSIZE))
  · obtain ⟨rfl, hplace⟩ := Prod.mk.inj hwritten
    obtain rfl := place_inj hplace
    rw [hat] at hold ⊢
    rw [Function.update_self, getD_append_take hn, hfill]
    unfold fill
    rw [← hoff] at *
    by_cases hin : off - off / BSIZE * BSIZE ≤ y ∧ y < off - off / BSIZE * BSIZE + n
    · rw [if_pos hin, if_pos (by unfold BSIZE at *; omega)]
      congr 1
      unfold BSIZE at *
      omega
    · rw [if_neg hin, if_neg (by unfold BSIZE at *; omega), hold]
  · -- each block is referred to once
    have hblock : ref sb m.shown (Function.update inodes i din) (j, place bn) ≠ x :=
      fun heq => hwritten (h.consistent.owned.once _ _ hne (heq.trans hat.symm))
    rw [hdisk _ hblock, hold]
    by_cases hji : j = i
    · subst hji
      have hbn : bn ≠ off / BSIZE := fun hbn => hwritten (by rw [hbn])
      rw [Function.update_self, getD_append_take hn, if_neg]
      rw [← hoff]
      unfold BSIZE at *
      omega
    · rw [Function.update_of_ne hji]

/-- Bytes are written behind the end of the file, in the block of its end. -/
theorem Writing.write {p : List UInt8} {x : Nat} (h : Writing m inodes i din c)
    (hoff : off = (c i).length) (hx : x = addrOf m.shown din (place (off / BSIZE))) (hne : x ≠ 0)
    (hn : n ≤ p.length) (hroom : n ≤ BSIZE - off % BSIZE)
    (hm : m' = { m with
      disk := Function.update m.disk x
        (fill (m.disk x) (off - off / BSIZE * BSIZE) n fun y => p.getD y 0) }) :
    Writing m' inodes i din (Function.update c i (c i ++ p.take n)) ∧
      ∀ k, addrOf m'.shown din k = addrOf m.shown din k := by
  have hself : Function.update inodes i din i = din := Function.update_self ..
  have htype : (Function.update inodes i din i).type ≠ 0 := by
    rw [hself]
    exact h.type
  rw [hx] at hne
  have hrange := h.block_lt hne
  rw [← hx] at hrange hne
  have hdata : sb.datastart ≤ x := hrange.1
  have hmap : x ≠ sb.bmapstart := by
    rw [datastart_eq] at hdata
    rw [bmapstart_eq]
    omega
  have hfree : m'.freeblock = m.freeblock := by rw [hm]
  have hdisk : ∀ b, b ≠ x → m'.disk b = m.disk b := by
    intro b hb
    rw [hm]
    exact Function.update_of_ne hb ..
  have hfill : m'.disk x = fill (m.disk x) (off - off / BSIZE * BSIZE) n fun y => p.getD y 0 := by
    rw [hm]
    exact Function.update_self ..
  have hshown : m'.shown = Function.update m.shown (addrOf m.shown din (place (off / BSIZE)))
      (fill (m.disk x) (off - off / BSIZE * BSIZE) n fun y => p.getD y 0) := by
    rw [← hx, hm]
    unfold Image.shown
    simp only
    rw [Function.update_comm hmap]
  have hext := Extends.write h.consistent h.inum h.type (by rwa [← hx])
    (fill (m.disk x) (off - off / BSIZE * BSIZE) n fun y => p.getD y 0)
  rw [← hshown] at hext
  have hat : ref sb m.shown (Function.update inodes i din) (i, place (off / BSIZE)) = x := by
    rw [h.self, hx]
  have hdin : ∀ k, addrOf m'.shown din k = addrOf m.shown din k := by
    intro k
    have hi := h.addrs_kept hat hne hdisk h.inum htype k
    rwa [hself] at hi
  have hlen : (Function.update c i (c i ++ p.take n) i).length = off + n := by
    rw [Function.update_self, List.length_append, List.length_take, hoff]
    omega
  refine ⟨⟨h.inum, h.type, h.fits, hext.consistent, fun j hj => ?_, ?_, ?_, fun b hb => ?_, ?_,
    fun bn hbn => ?_, fun j hj hji ht => ?_, fun j bn y hne' hy => ?_⟩, hdin⟩
  · rw [← dinode_shown hj, hext.dinode j hj, dinode_shown hj]
    exact h.dinode j hj
  · rw [hfree]
    exact h.low
  · rw [hfree]
    exact h.high
  · rw [hfree] at hb
    rw [hdisk b (by omega), h.fresh b hb]
  · rw [hdisk 1 (by rw [datastart_eq] at hdata; omega)]
    exact h.super
  · rw [hlen] at hbn
    rw [hdin]
    by_cases hold : bn * BSIZE < off
    · exact h.covered bn (by rwa [← hoff])
    · have hbn' : bn = off / BSIZE := by
        unfold BSIZE at *
        omega
      rw [hbn', ← hx]
      exact hne
  · have hother : Function.update inodes i din j = inodes j := Function.update_of_ne hji ..
    have hsame := h.addrs_kept hat hne hdisk hj (by rwa [hother])
    rw [hother] at hsame
    have hold := h.others j hj hji ht
    rw [Function.update_of_ne hji]
    refine ⟨fun bn hbn => hold.blocks bn ?_, hold.indirect⟩
    rwa [hsame] at hbn
  · rw [h.refs_kept hat hne hdisk] at hne' ⊢
    exact h.contents_written hoff hn hroom hat hdisk hfill hne' hy

/-- The loop appends all the bytes, or the image gets full. -/
theorem iappendLoop_spec {p : List UInt8} (h : Writing m inodes i din c) (hoff : off = (c i).length)
    (hbelow : Below m.shown din off) (hmax : off + p.length ≤ MAXFILE * BSIZE) (hk : p.length ≤ k) :
    (∃ m' din', iappendLoop m din k off p = .ok (m', din', off + p.length) ∧
      Writing m' inodes i din' (Function.update c i (c i ++ p)) ∧
      Below m'.shown din' (off + p.length) ∧
      m'.freeblock + blocksOf off = m.freeblock + blocksOf (off + p.length) ∧
      m'.freeinode = m.freeinode) ∨
    (∃ e, iappendLoop m din k off p = .error e) ∧
      FSSIZE + blocksOf off < m.freeblock + blocksOf (off + p.length) := by
  induction k generalizing m din c off p with
  | zero =>
    obtain rfl : p = [] := List.eq_nil_of_length_eq_zero (by omega)
    refine Or.inl ⟨m, din, rfl, ?_, hbelow, rfl, rfl⟩
    rw [List.append_nil, Function.update_eq_self]
    exact h
  | succ k ih =>
    unfold iappendLoop
    by_cases hnil : p = []
    · subst hnil
      refine Or.inl ⟨m, din, if_pos rfl, ?_, hbelow, rfl, rfl⟩
      rw [List.append_nil, Function.update_eq_self]
      exact h
    · have hpos : 0 < p.length := List.length_pos_of_ne_nil hnil
      have hfbn : off / BSIZE < MAXFILE := by
        unfold MAXFILE NDIRECT NINDIRECT BSIZE at *
        omega
      have hgrow : blocksOf (off + 1) ≤ blocksOf (off + p.length) := blocksOf_mono (by omega)
      rw [if_neg hnil, if_pos hfbn]
      rcases appendBlock_spec h hoff hbelow hfbn with
        ⟨m₁, din₁, x, heq, happ⟩ | ⟨hfull, ⟨e, heq⟩ | ⟨m₁, din₁, x, heq, hx⟩⟩
      · have hlt : x < FSSIZE := by
          have hne := happ.there
          rw [happ.block] at hne ⊢
          exact Nat.lt_of_lt_of_le (happ.writing.block_lt hne).2 happ.writing.high
        simp only [heq]
        unfold rsect
        rw [if_pos hlt]
        simp only
        have hn : min p.length ((off / BSIZE + 1) * BSIZE - off) ≤ p.length := Nat.min_le_left ..
        have hroom : min p.length ((off / BSIZE + 1) * BSIZE - off) ≤ BSIZE - off % BSIZE := by
          unfold BSIZE
          omega
        have hturn : 0 < min p.length ((off / BSIZE + 1) * BSIZE - off) := by
          unfold BSIZE
          omega
        generalize min p.length ((off / BSIZE + 1) * BSIZE - off) = n at *
        generalize hm₂ : ({ m₁ with
          disk := Function.update m₁.disk x
            (fill (m₁.disk x) (off - off / BSIZE * BSIZE) n fun y => p.getD y 0) } : Image) = m₂
        have hfree₂ : m₂.freeblock = m₁.freeblock := by rw [← hm₂]
        have hinode₂ : m₂.freeinode = m₁.freeinode := by rw [← hm₂]
        obtain ⟨hw, haddr⟩ := happ.writing.write hoff happ.block happ.there hn hroom hm₂.symm
        have hlen : (Function.update c i (c i ++ p.take n) i).length = off + n := by
          rw [Function.update_self, List.length_append, List.length_take, hoff]
          omega
        have hbelow₁ : Below m₂.shown din₁ (off + n) := by
          refine ⟨fun bn hbn => ?_, fun ha => ?_⟩
          · rw [haddr] at hbn
            exact Nat.lt_of_lt_of_le (happ.below.blocks bn hbn) (by omega)
          · exact Nat.lt_of_lt_of_le (happ.below.indirect ha) (by omega)
        have hcount := happ.count
        rw [← blocksOf_turn hturn hroom] at hcount
        have hsum : off + n + (p.drop n).length = off + p.length := by
          rw [List.length_drop]
          omega
        have happend : Function.update c i (c i ++ p.take n) i ++ p.drop n = c i ++ p := by
          rw [Function.update_self, List.append_assoc, List.take_append_drop]
        rcases ih hw hlen.symm hbelow₁ (by rw [hsum]; exact hmax) (by rw [List.length_drop]; omega) with
          ⟨m', din', hrest, hw', hbelow', hcount', hfree⟩ | ⟨herror, hfull⟩
        · rw [hsum] at hrest hbelow' hcount'
          rw [happend, Function.update_idem] at hw'
          refine Or.inl ⟨m', din', hrest, hw', hbelow', ?_, ?_⟩
          · omega
          · rw [hfree, hinode₂, happ.freeinode]
        · rw [hsum] at hfull
          exact Or.inr ⟨herror, by omega⟩
      · simp only [heq]
        exact Or.inr ⟨⟨e, rfl⟩, by omega⟩
      · simp only [heq]
        unfold rsect
        rw [if_neg (Nat.not_lt.mpr hx)]
        exact Or.inr ⟨⟨_, rfl⟩, by omega⟩

/-! ## The files so far -/

/-- The files `c` are on the disk, the file `j` in the inode `j`. -/
structure Built (m : Image) (c : Nat → List UInt8) : Prop where
  room : m.freeinode ≤ sb.islots
  consistent : Consistent sb m.shown (dinode sb m.disk)
  low : nmeta ≤ m.freeblock
  high : m.freeblock ≤ FSSIZE
  fresh : ∀ b, m.freeblock ≤ b → m.disk b = fun _ => 0
  super : m.disk 1 = superBlock
  inode : ∀ j < sb.islots, (dinode sb m.disk j).type ≠ 0 ↔ 0 < j ∧ j < m.freeinode
  size : ∀ j, 0 < j → j < m.freeinode → (dinode sb m.disk j).size = (c j).length
  below : ∀ j, 0 < j → j < m.freeinode → Below m.shown (dinode sb m.disk j) (c j).length
  contents : ∀ j bn x, ref sb m.shown (dinode sb m.disk) (j, place bn) ≠ 0 → x < BSIZE →
    m.disk (ref sb m.shown (dinode sb m.disk) (j, place bn)) x = (c j).getD (bn * BSIZE + x) 0

theorem Built.writing (h : Built m c) (hpos : 0 < i) (hi : i < m.freeinode) :
    Writing m (dinode sb m.disk) i (dinode sb m.disk i) c := by
  have hslot : i < sb.islots := Nat.lt_of_lt_of_le hi h.room
  have hsame : Function.update (dinode sb m.disk) i (dinode sb m.disk i) = dinode sb m.disk :=
    Function.update_eq_self ..
  have htype := (h.inode i hslot).mpr ⟨hpos, hi⟩
  refine ⟨hslot, htype, getDinode_fits .., ?_, fun _ _ => rfl, h.low, h.high, h.fresh, h.super,
    fun bn hbn => ?_, fun j hj _ ht => ?_, ?_⟩
  · rw [hsame]
    exact h.consistent
  · rw [← h.size i hpos hi] at hbn
    exact h.consistent.covered i hslot htype bn hbn
  · obtain ⟨hj0, hjm⟩ := (h.inode j hj).mp ht
    exact h.below j hj0 hjm
  · rw [hsame]
    exact h.contents

/-! ## Writing an inode -/

theorem iblock_range (hi : i < sb.islots) : 33 ≤ IBLOCK sb i ∧ IBLOCK sb i < 46 := by
  have hlt := iblock_lt hi
  rw [bmapstart_eq] at hlt
  have hstart : sb.inodestart = 33 := rfl
  refine ⟨?_, hlt⟩
  unfold IBLOCK IPB
  omega

theorem winode_eq (hi : i < sb.islots) (ip : Dinode) :
    winode m i ip = .ok { m with disk := iupdate sb m.disk i ip } := by
  have hrange := iblock_range hi
  unfold winode rsect
  rw [if_pos (by unfold FSSIZE; omega)]
  rfl

theorem rinode_eq (hi : i < sb.islots) : rinode m i = .ok (dinode sb m.disk i) := by
  have hrange := iblock_range hi
  unfold rinode rsect
  rw [if_pos (by unfold FSSIZE; omega)]
  rfl

/-- What is on the disk after an inode is written. -/
structure Wrote (m : Image) (i : Nat) (ip : Dinode) (m' : Image) : Prop where
  freeblock : m'.freeblock = m.freeblock
  shown : m'.shown = iupdate sb m.shown i ip
  dinode : ∀ j < sb.islots, dinode sb m'.disk j = if j = i then ip else dinode sb m.disk j
  data : ∀ b, sb.datastart ≤ b → m'.disk b = m.disk b
  super : m'.disk 1 = m.disk 1

theorem wrote {ip : Dinode} (hi : i < sb.islots) (hfits : ip.Fits)
    (hdisk : m'.disk = iupdate sb m.disk i ip) (hfree : m'.freeblock = m.freeblock) :
    Wrote m i ip m' := by
  have hrange := iblock_range hi
  obtain ⟨-, hdinode, hdata⟩ := iupdate_spec (d := m.disk) hi hfits
  have hmap : IBLOCK sb i ≠ sb.bmapstart := by
    rw [bmapstart_eq]
    omega
  refine ⟨hfree, ?_, ?_, ?_, ?_⟩
  · unfold Image.shown
    rw [hdisk, hfree]
    unfold iupdate
    rw [Function.update_of_ne hmap, Function.update_comm hmap]
  · rw [hdisk]
    exact hdinode
  · rw [hdisk]
    exact hdata
  · rw [hdisk]
    unfold iupdate
    rw [Function.update_of_ne (by omega)]

theorem Wrote.addrOf {ip ip₁ : Dinode} (h : Wrote m i ip m')
    (hind : ip₁.addrs NDIRECT ≠ 0 → sb.datastart ≤ ip₁.addrs NDIRECT) (k : Nat) :
    addrOf m'.shown ip₁ k = addrOf m.shown ip₁ k := by
  refine addrOf_congr rfl rfl fun ha => ?_
  rw [shown_data (hind ha), shown_data (hind ha), h.data _ (hind ha)]

/-- The copy of the inode goes to the disk with another size. -/
theorem Writing.consistent_of_size {size : Nat} (h : Writing m inodes i din c)
    (hw : Wrote m i { din with size } m') (hfits : ({ din with size } : Dinode).Fits)
    (hcovered : ∀ bn, bn * BSIZE < size → fs.addrOf m.shown din (place bn) ≠ 0)
    (hbound : size ≤ MAXFILE * BSIZE) : Consistent sb m'.shown (fs.dinode sb m'.disk) := by
  have hsized : Consistent sb m.shown (Function.update (fs.dinode sb m.disk) i { din with size }) := by
    have hinodes : Consistent sb m.shown (Function.update inodes i { din with size }) :=
      h.consistent.change (fun _ => rfl) (fun _ => hcovered) fun _ => hbound
    refine hinodes.congr fun j hj => ?_
    by_cases hji : j = i
    · rw [hji, Function.update_self, Function.update_self]
    · rw [Function.update_of_ne hji, Function.update_of_ne hji, h.dinode j hj]
  obtain ⟨hcons, -⟩ := hsized.settled (fun j hj => dinode_shown hj) h.inum hfits
  rw [hw.shown]
  refine hcons.congr fun j hj => ?_
  rw [← hw.shown, dinode_shown hj]

/-- The blocks and the bytes of the files stay where they are. -/
theorem Writing.ref_wrote {size : Nat} (h : Writing m inodes i din c)
    (hw : Wrote m i { din with size } m') (q : Nat × Nat) :
    ref sb m'.shown (fs.dinode sb m'.disk) q = ref sb m.shown (Function.update inodes i din) q := by
  have hself : Function.update inodes i din i = din := Function.update_self ..
  unfold ref
  by_cases hq : q.1 < sb.islots
  · rw [hw.dinode _ hq]
    by_cases hqi : q.1 = i
    · rw [if_pos hqi, hqi, hself]
      have htype : (⟨din.type, din.major, din.minor, din.nlink, size, din.addrs⟩ : Dinode).type ≠ 0 := h.type
      rw [if_pos ⟨h.inum, htype⟩, if_pos ⟨h.inum, h.type⟩]
      exact hw.addrOf (fun ha => (h.indirect ha).1) q.2
    · rw [if_neg hqi, h.dinode _ hq, Function.update_of_ne hqi]
      by_cases ht : (inodes q.1).type ≠ 0
      · have hother : Function.update inodes i din q.1 = inodes q.1 := Function.update_of_ne hqi ..
        rw [if_pos ⟨hq, ht⟩, if_pos ⟨hq, ht⟩, hw.addrOf]
        intro ha
        have hind := h.consistent.indirect hq (by rwa [hother]) (by rwa [hother])
        rw [hother] at hind
        exact hind.1
      · rw [if_neg fun hand => ht hand.2, if_neg fun hand => ht hand.2]
  · rw [if_neg fun hand => hq hand.1, if_neg fun hand => hq hand.1]

theorem Writing.contents_wrote {size : Nat} (h : Writing m inodes i din c)
    (hw : Wrote m i { din with size } m') (j bn x : Nat)
    (hne : ref sb m'.shown (fs.dinode sb m'.disk) (j, place bn) ≠ 0) (hx : x < BSIZE) :
    m'.disk (ref sb m'.shown (fs.dinode sb m'.disk) (j, place bn)) x =
      (c j).getD (bn * BSIZE + x) 0 := by
  rw [h.ref_wrote hw] at hne ⊢
  rw [hw.data _ (h.consistent.owned.range _ hne).1]
  exact h.contents j bn x hne hx

/-- The inode is on the disk with the size of its file. -/
theorem Writing.close (h : Writing m inodes i din c) (hbelow : Below m.shown din (c i).length)
    (hmax : (c i).length ≤ MAXFILE * BSIZE) (hroom : m'.freeinode ≤ sb.islots)
    (hpos : 0 < i) (hi : i < m'.freeinode)
    (hinode : ∀ j < sb.islots, j ≠ i → ((inodes j).type ≠ 0 ↔ 0 < j ∧ j < m'.freeinode))
    (hsize : ∀ j, 0 < j → j < m'.freeinode → j ≠ i → (inodes j).size = (c j).length)
    (hdisk : m'.disk = iupdate sb m.disk i { din with size := (c i).length })
    (hfree : m'.freeblock = m.freeblock) : Built m' c := by
  have hbig : MAXFILE * BSIZE = 274432 := rfl
  have hfits : ({ din with size := (c i).length } : Dinode).Fits :=
    ⟨h.fits.type, h.fits.major, h.fits.minor, h.fits.nlink, by simp only; omega, h.fits.addrs, h.fits.rest⟩
  have hw : Wrote m i { din with size := (c i).length } m' := wrote h.inum hfits hdisk hfree
  refine ⟨hroom, h.consistent_of_size hw hfits h.covered hmax, ?_, ?_, fun b hb => ?_, ?_,
    fun j hj => ?_, fun j hj0 hj => ?_, fun j hj0 hj => ?_, h.contents_wrote hw⟩
  · rw [hfree]
    exact h.low
  · rw [hfree]
    exact h.high
  · rw [hfree] at hb
    rw [hw.data b (Nat.le_trans h.low hb), h.fresh b hb]
  · rw [hw.super, h.super]
  · rw [hw.dinode j hj]
    by_cases hji : j = i
    · subst hji
      rw [if_pos rfl]
      exact ⟨fun _ => ⟨hpos, hi⟩, fun _ => h.type⟩
    · rw [if_neg hji, h.dinode j hj]
      exact hinode j hj hji
  · have hslot : j < sb.islots := Nat.lt_of_lt_of_le hj hroom
    rw [hw.dinode j hslot]
    by_cases hji : j = i
    · rw [if_pos hji, hji]
    · rw [if_neg hji, h.dinode j hslot, hsize j hj0 hj hji]
  · have hslot : j < sb.islots := Nat.lt_of_lt_of_le hj hroom
    rw [hw.dinode j hslot]
    by_cases hji : j = i
    · subst hji
      rw [if_pos rfl]
      refine ⟨fun bn hbn => hbelow.blocks bn fun hzero => hbn ?_, hbelow.indirect⟩
      exact (hw.addrOf (fun ha => (h.indirect ha).1) (place bn)).trans hzero
    · rw [if_neg hji, h.dinode j hslot]
      have ht := (hinode j hslot hji).mpr ⟨hj0, hj⟩
      have hother : Function.update inodes i din j = inodes j := Function.update_of_ne hji ..
      have hold := h.others j hslot hji ht
      refine ⟨fun bn hbn => hold.blocks bn ?_, hold.indirect⟩
      rwa [hw.addrOf] at hbn
      intro ha
      have hind := h.consistent.indirect hslot (by rwa [hother]) (by rwa [hother])
      rw [hother] at hind
      exact hind.1

/-- A call leads to the files `c` and to `n` inodes, and what took `old` blocks takes `new` ones;
or it fails because the image has not that many. -/
def Grows (m : Image) (r : Except Die Image) (c : Nat → List UInt8) (n old new : Nat) : Prop :=
  (∃ m', r = .ok m' ∧ Built m' c ∧ m'.freeinode = n ∧ m'.freeblock + old = m.freeblock + new) ∨
    (∃ e, r = .error e) ∧ FSSIZE + old < m.freeblock + new

theorem ialloc_spec {type : Nat} (h : Built m c) (hpos : 0 < m.freeinode)
    (hroom : m.freeinode < sb.islots) (hnone : c m.freeinode = []) (htype : type ≠ 0)
    (hlt : type < 65536) :
    ∃ m', ialloc m type = .ok (m', m.freeinode) ∧ Built m' c ∧ m'.freeinode = m.freeinode + 1 ∧
      m'.freeblock = m.freeblock := by
  have hfree : (dinode sb m.disk m.freeinode).type = 0 := by
    by_contra hne
    exact Nat.lt_irrefl _ ((h.inode _ hroom).mp hne).2
  have hempty : ∀ k, addrOf m.shown { Dinode.free with type, nlink := 1 } k = 0 :=
    addrOf_empty fun _ => rfl
  have hcons : Consistent sb m.shown (Function.update (dinode sb m.disk) m.freeinode
      { Dinode.free with type, nlink := 1 }) := by
    have hopen := h.consistent
    rw [← Function.update_eq_self m.freeinode (dinode sb m.disk)] at hopen
    refine hopen.change (fun k => ?_) (fun _ bn hbn => ?_) fun _ => Nat.zero_le _
    · rw [hempty, ite_self, if_neg fun hne => hne hfree]
    · exact absurd hbn (Nat.not_lt_zero _)
  have hw : Writing m (dinode sb m.disk) m.freeinode { Dinode.free with type, nlink := 1 } c := by
    refine ⟨hroom, htype, ?_, hcons, fun _ _ => rfl, h.low, h.high, h.fresh, h.super, fun bn hbn => ?_,
      fun j hj _ ht => ?_, fun j bn x hne hx => ?_⟩
    · exact ⟨hlt, Nat.zero_lt_succ _, Nat.zero_lt_succ _, (by decide : 1 < 65536), Nat.zero_lt_succ _,
        fun _ => Nat.zero_lt_succ _, fun _ _ => rfl⟩
    · rw [hnone] at hbn
      exact absurd hbn (Nat.not_lt_zero _)
    · obtain ⟨hj0, hjm⟩ := (h.inode j hj).mp ht
      exact h.below j hj0 hjm
    · by_cases hji : j = m.freeinode
      · subst hji
        refine absurd ?_ hne
        unfold ref
        rw [Function.update_self, hempty, ite_self]
      · have hsame : ref sb m.shown (Function.update (dinode sb m.disk) m.freeinode
            { Dinode.free with type, nlink := 1 }) (j, place bn) =
              ref sb m.shown (dinode sb m.disk) (j, place bn) := by
          unfold ref
          rw [Function.update_of_ne hji]
        rw [hsame] at hne ⊢
        exact h.contents j bn x hne hx
  unfold ialloc
  rw [winode_eq hroom]
  refine ⟨_, rfl, hw.close ⟨fun bn hbn => absurd (hempty _) hbn, fun ha => absurd rfl ha⟩ ?_ ?_ hpos
    ?_ (fun j hj hji => ?_) (fun j hj0 hj hji => ?_) ?_ rfl, rfl, rfl⟩
  · rw [hnone]
    exact Nat.zero_le _
  · exact hroom
  · exact Nat.lt_succ_self _
  · rw [h.inode j hj]
    simp only
    omega
  · simp only at hj
    exact h.size j hj0 (by omega)
  · rw [hnone]
    rfl

theorem iappend_spec {p : List UInt8} (h : Built m c) (hpos : 0 < i) (hi : i < m.freeinode)
    (hmax : (c i).length + p.length ≤ MAXFILE * BSIZE) :
    Grows m (iappend m i p) (Function.update c i (c i ++ p)) m.freeinode
      (blocksOf (c i).length) (blocksOf ((c i).length + p.length)) := by
  have hslot : i < sb.islots := Nat.lt_of_lt_of_le hi h.room
  unfold iappend
  rw [rinode_eq hslot]
  simp only
  rw [h.size i hpos hi]
  rcases iappendLoop_spec (h.writing hpos hi) rfl (h.below i hpos hi) hmax (Nat.le_refl _) with
    ⟨m', din', heq, hw, hbelow, hcount, hfree⟩ | ⟨⟨e, heq⟩, hfull⟩
  · have hlen : (Function.update c i (c i ++ p) i).length = (c i).length + p.length := by
      rw [Function.update_self, List.length_append]
    rw [heq]
    simp only
    rw [winode_eq hslot]
    rw [← hlen] at hbelow
    refine Or.inl ⟨_, rfl, hw.close hbelow ?_ ?_ hpos ?_ (fun j hj _ => ?_) (fun j hj0 hj hji => ?_) ?_ rfl,
      hfree, hcount⟩
    · rw [hlen]
      exact hmax
    · simp only
      rw [hfree]
      exact h.room
    · simp only
      rwa [hfree]
    · simp only
      rw [hfree]
      exact h.inode j hj
    · simp only at hj
      rw [hfree] at hj
      rw [Function.update_of_ne hji]
      exact h.size j hj0 hj
    · rw [hlen]
  · rw [heq]
    exact Or.inr ⟨⟨e, rfl⟩, hfull⟩

/-- All the pieces of a file. -/
theorem iappendAll_spec {cs : List (List UInt8)} (h : Built m c) (hpos : 0 < i) (hi : i < m.freeinode)
    (hmax : (c i).length + cs.flatten.length ≤ MAXFILE * BSIZE) :
    Grows m (iappendAll m i cs) (Function.update c i (c i ++ cs.flatten)) m.freeinode
      (blocksOf (c i).length) (blocksOf ((c i).length + cs.flatten.length)) := by
  induction cs generalizing m c with
  | nil =>
    refine Or.inl ⟨m, rfl, ?_, rfl, rfl⟩
    rw [List.flatten_nil, List.append_nil, Function.update_eq_self]
    exact h
  | cons p cs ih =>
    have hlen : (p :: cs).flatten.length = p.length + cs.flatten.length := by
      rw [List.flatten_cons, List.length_append]
    have hgrow : blocksOf ((c i).length + p.length) ≤ blocksOf ((c i).length + (p :: cs).flatten.length) :=
      blocksOf_mono (by omega)
    unfold iappendAll
    rcases iappend_spec h hpos hi (p := p) (by omega) with
      ⟨m₁, heq, hb, hfree, hcount⟩ | ⟨⟨e, heq⟩, hfull⟩
    · rw [heq]
      simp only
      have hlen₁ : (Function.update c i (c i ++ p) i).length = (c i).length + p.length := by
        rw [Function.update_self, List.length_append]
      have hall : Function.update c i (c i ++ p) i ++ cs.flatten = c i ++ (p :: cs).flatten := by
        rw [Function.update_self, List.flatten_cons, List.append_assoc]
      have hrest := ih hb (by rwa [hfree]) (by rw [hlen₁]; omega)
      rw [hlen₁, hall, Function.update_idem, Nat.add_assoc, ← hlen, hfree] at hrest
      rcases hrest with ⟨m', heq', hb', hfree', hcount'⟩ | ⟨herror, hfull⟩
      · exact Or.inl ⟨m', heq', hb', hfree', by omega⟩
      · exact Or.inr ⟨herror, by omega⟩
    · rw [heq]
      exact Or.inr ⟨⟨e, rfl⟩, by omega⟩

/-! ## The arguments -/

theorem length_dirent (inum : Nat) (name : List UInt8) : (dirent inum name).length = 16 := by
  unfold dirent
  rw [List.length_map, List.length_range]

/-- What the kernel and the tool expect of an argument: the name fits into an entry of the root
directory, and the file is not too big. -/
structure File.Fits (f : File) : Prop where
  slash : 47 ∉ f.base
  name : f.shortname.length ≤ DIRSIZ
  size : f.content.length ≤ MAXFILE * BSIZE

theorem ok_bind {α β : Type} (a : α) (f : α → Except Die β) : (Except.ok a >>= f) = f a := rfl

theorem error_bind {α β : Type} (e : Die) (f : α → Except Die β) :
    (Except.error e >>= f) = Except.error e := rfl

/-- A file is added: an entry of the root directory, and the next inode. -/
theorem addFile_spec {f : File} (h : Built m c) (hf : f.Fits) (hn : m.freeinode = n + 2)
    (hroom : n + 2 < sb.islots) (hroot : (c 1).length = 16 * (n + 2)) (hnone : c (n + 2) = []) :
    Grows m (addFile m f) (Function.update (Function.update c 1 (c 1 ++ dirent (n + 2) f.shortname))
        (n + 2) f.content) (n + 3)
      (blocksOf (16 * (n + 2))) (blocksOf (16 * (n + 3)) + blocksOf f.content.length) := by
  have hislots : sb.islots = 208 := rfl
  have hbig : MAXFILE * BSIZE = 274432 := rfl
  obtain ⟨m₁, heq₁, hb₁, hfree₁, hblock₁⟩ := ialloc_spec h (by omega) (by omega)
    (by rwa [hn]) (show T_FILE ≠ 0 by decide) (by decide)
  rw [hn] at heq₁ hfree₁
  have hone : ROOTINO = 1 := rfl
  unfold addFile
  rw [if_neg hf.slash, if_neg (Nat.not_lt.mpr hf.name), heq₁, ok_bind, hone]
  have hroot₁ := iappend_spec hb₁ (i := ROOTINO) (p := dirent (n + 2) f.shortname) (by decide)
    (by unfold ROOTINO; omega) (by unfold ROOTINO; rw [hroot, length_dirent]; omega)
  rw [hone, hroot, length_dirent, hfree₁] at hroot₁
  have hgrow : 16 * (n + 2) + 16 = 16 * (n + 3) := by omega
  rw [hgrow] at hroot₁
  rcases hroot₁ with ⟨m₂, heq₂, hb₂, hfree₂, hcount₂⟩ | ⟨⟨e, heq₂⟩, hfull⟩
  · rw [heq₂, ok_bind]
    have hnew : Function.update c 1 (c 1 ++ dirent (n + 2) f.shortname) (n + 2) = [] := by
      rw [Function.update_of_ne (by omega), hnone]
    have hsize : (Function.update c 1 (c 1 ++ dirent (n + 2) f.shortname) (n + 2)).length +
        f.chunks.flatten.length ≤ MAXFILE * BSIZE := by
      rw [hnew, List.length_nil, Nat.zero_add]
      exact hf.size
    have hall := iappendAll_spec hb₂ (by omega) (by omega) hsize
    rw [hnew, List.length_nil, Nat.zero_add, List.nil_append, hfree₂] at hall
    rcases hall with ⟨m₃, heq₃, hb₃, hfree₃, hcount₃⟩ | ⟨⟨e, heq₃⟩, hfull⟩
    · refine Or.inl ⟨m₃, heq₃, hb₃, hfree₃, ?_⟩
      have hzero : blocksOf 0 = 0 := rfl
      unfold File.content
      omega
    · refine Or.inr ⟨⟨e, heq₃⟩, ?_⟩
      have hzero : blocksOf 0 = 0 := rfl
      unfold File.content
      omega
  · rw [heq₂, error_bind]
    exact Or.inr ⟨⟨e, rfl⟩, by omega⟩

/-- The blocks of the files. -/
def fileBlocks (files : List File) : Nat := (files.map fun f => blocksOf f.content.length).sum

/-- The entries of the root directory from the inode `n` on. -/
def entriesFrom : Nat → List File → List UInt8
  | _, [] => []
  | n, f :: files => dirent n f.shortname ++ entriesFrom (n + 1) files

/-- All the files are added, in the order of the arguments, or the image gets full. -/
theorem addFiles_spec {files : List File} (h : Built m c) (hfits : ∀ f ∈ files, f.Fits)
    (hn : m.freeinode = n + 2) (hroom : n + 2 + files.length ≤ sb.islots)
    (hroot : (c 1).length = 16 * (n + 2)) (hnone : ∀ j, n + 2 ≤ j → c j = []) :
    (∃ m' c', addFiles m files = .ok m' ∧ Built m' c' ∧ m'.freeinode = n + 2 + files.length ∧
      m'.freeblock + blocksOf (16 * (n + 2)) =
        m.freeblock + (blocksOf (16 * (n + 2 + files.length)) + fileBlocks files) ∧
      c' 1 = c 1 ++ entriesFrom (n + 2) files ∧ (∀ j, 1 < j → j < n + 2 → c' j = c j) ∧
      ∀ k (hk : k < files.length), c' (n + 2 + k) = files[k].content) ∨
    (∃ e, addFiles m files = .error e) ∧ FSSIZE + blocksOf (16 * (n + 2)) <
      m.freeblock + (blocksOf (16 * (n + 2 + files.length)) + fileBlocks files) := by
  induction files generalizing m c n with
  | nil =>
    refine Or.inl ⟨m, c, rfl, h, hn, rfl, ?_, fun _ _ _ => rfl, fun k hk => absurd hk (Nat.not_lt_zero k)⟩
    exact (List.append_nil _).symm
  | cons f files ih =>
    rw [List.length_cons] at hroom
    have hone := addFile_spec h (hfits f List.mem_cons_self) hn (by omega) hroot (hnone _ (Nat.le_refl _))
    have hblocks : fileBlocks (f :: files) = blocksOf f.content.length + fileBlocks files := by
      unfold fileBlocks
      rw [List.map_cons, List.sum_cons]
    have hlen : n + 2 + (f :: files).length = n + 1 + 2 + files.length := by
      rw [List.length_cons]
      omega
    have hgrow : blocksOf (16 * (n + 3)) ≤ blocksOf (16 * (n + 1 + 2 + files.length)) :=
      blocksOf_mono (by omega)
    rw [hlen, hblocks]
    unfold addFiles
    rcases hone with ⟨m₁, heq₁, hb₁, hfree₁, hcount₁⟩ | ⟨⟨e, heq₁⟩, hfull⟩
    · have hthree : n + 3 = n + 1 + 2 := rfl
      rw [hthree] at hcount₁
      rw [heq₁, ok_bind]
      generalize hc₁ : Function.update (Function.update c 1 (c 1 ++ dirent (n + 2) f.shortname))
        (n + 2) f.content = c₁ at hb₁
      have hroot₁ : c₁ 1 = c 1 ++ dirent (n + 2) f.shortname := by
        rw [← hc₁, Function.update_of_ne (by omega), Function.update_self]
      have hnew₁ : c₁ (n + 2) = f.content := by
        rw [← hc₁, Function.update_self]
      have hold₁ : ∀ j, j ≠ 1 → j ≠ n + 2 → c₁ j = c j := by
        intro j h1 h2
        rw [← hc₁, Function.update_of_ne h2, Function.update_of_ne h1]
      have hrest := ih hb₁ (fun g hg => hfits g (List.mem_cons_of_mem f hg)) (n := n + 1) hfree₁
        (by omega) (by rw [hroot₁, List.length_append, hroot, length_dirent]; omega)
        fun j hj => (hold₁ j (by omega) (by omega)).trans (hnone j (by omega))
      rcases hrest with ⟨m', c', heq, hb, hfree, hcount, hentries, hsame, hfiles⟩ | ⟨herror, hfull⟩
      · refine Or.inl ⟨m', c', heq, hb, hfree, by omega, ?_, fun j h1 hj => ?_, fun k hk => ?_⟩
        · rw [hentries, hroot₁, List.append_assoc]
          rfl
        · rw [hsame j h1 (by omega), hold₁ j (by omega) (by omega)]
        · cases k with
          | zero => exact (hsame (n + 2) (by omega) (by omega)).trans hnew₁
          | succ k =>
            have hindex : n + 2 + (k + 1) = n + 1 + 2 + k := by omega
            rw [hindex]
            exact hfiles k (Nat.lt_of_succ_lt_succ hk)
      · exact Or.inr ⟨herror, by omega⟩
    · rw [heq₁, error_bind]
      exact Or.inr ⟨⟨e, rfl⟩, by omega⟩

/-! ## The whole image -/

theorem blank_built : Built blank fun _ => [] := by
  have hdef : blank.disk = Function.update (fun _ _ => 0) 1 superBlock := rfl
  have hdisk : ∀ b, 33 ≤ b → blank.disk b = fun _ => 0 := by
    intro b hb
    have hne : b ≠ 1 := by omega
    rw [hdef, Function.update_of_ne hne]
  have hsuper : blank.disk 1 = superBlock := by rw [hdef, Function.update_self]
  have hfree : ∀ j < sb.islots, (dinode sb blank.disk j).type = 0 := by
    intro j hj
    have hrange := iblock_range hj
    unfold dinode
    rw [hdisk _ hrange.1]
    exact get16_zero (j % IPB * 64)
  have hcons : Consistent sb blank.shown (dinode sb blank.disk) := by
    refine consistent_of_free hfree fun b hb => ?_
    rw [isUsed_shown hb, decide_eq_true_iff]
    rfl
  have hnone : ∀ q, ref sb blank.shown (dinode sb blank.disk) q = 0 :=
    fun q => if_neg fun hq => hq.2 (hfree q.1 hq.1)
  refine ⟨by decide, hcons, Nat.le_refl _, by decide, fun b hb => hdisk b ?_, hsuper,
    fun j hj => ?_, fun j hj0 hj => ?_, fun j hj0 hj => ?_, fun j bn x hne => absurd (hnone _) hne⟩
  · have hmeta : blank.freeblock = 47 := rfl
    omega
  · have hone : blank.freeinode = 1 := rfl
    exact ⟨fun hne => absurd (hfree j hj) hne, fun hlt => by omega⟩
  · have hone : blank.freeinode = 1 := rfl
    omega
  · have hone : blank.freeinode = 1 := rfl
    omega

/-- The first two entries of the root directory. -/
def dots : List UInt8 := dirent 1 [46] ++ dirent 1 [46, 46]

theorem makeRoot_spec : ∃ m, makeRoot = .ok m ∧ Built m (Function.update (fun _ => []) 1 dots) ∧
    m.freeinode = 2 ∧ m.freeblock = nmeta + 1 := by
  have hbig : MAXFILE * BSIZE = 274432 := rfl
  have hone : ROOTINO = 1 := rfl
  have hsize : FSSIZE = 2000 := rfl
  have hzero : blocksOf 0 = 0 := rfl
  have hentry : blocksOf 16 = 1 := rfl
  have hentries : blocksOf (16 + 16) = 1 := rfl
  have hblank : blank.freeblock = 47 := rfl
  obtain ⟨m₁, heq₁, hb₁, hfree₁, hblock₁⟩ := ialloc_spec blank_built (by decide) (by decide)
    rfl (show T_DIR ≠ 0 by decide) (by decide)
  have hinum : blank.freeinode = 1 := rfl
  rw [hinum] at heq₁ hfree₁
  have hdot := iappend_spec hb₁ (i := 1) (p := dirent 1 [46]) (by omega) (by omega)
    (by rw [length_dirent, List.length_nil]; omega)
  rw [length_dirent, List.length_nil, Nat.zero_add, List.nil_append] at hdot
  rcases hdot with ⟨m₂, heq₂, hb₂, hfree₂, hcount₂⟩ | ⟨-, hfull⟩
  · have hlen : (Function.update (fun _ => []) 1 (dirent 1 [46]) 1 : List UInt8).length = 16 := by
      rw [Function.update_self, length_dirent]
    have hdotdot := iappend_spec hb₂ (i := 1) (p := dirent 1 [46, 46]) (by omega) (by omega)
      (by rw [length_dirent, hlen]; omega)
    rw [length_dirent, hlen, Function.update_self, Function.update_idem] at hdotdot
    rcases hdotdot with ⟨m₃, heq₃, hb₃, hfree₃, hcount₃⟩ | ⟨-, hfull⟩
    · refine ⟨m₃, ?_, hb₃, by omega, ?_⟩
      · unfold makeRoot
        rw [heq₁, ok_bind, if_pos hone.symm, heq₂, ok_bind]
        exact heq₃
      · have hmeta : nmeta = 47 := rfl
        omega
    · omega
  · omega

/-- The blocks that the files take on an image, with the metadata and the root directory. -/
def usedBlocks (files : List File) : Nat :=
  nmeta + blocksOf (16 * (files.length + 2)) + fileBlocks files

theorem usedMap_image (h : m.freeblock ≤ FSSIZE) : balloc m m.freeblock = .ok m.shown := by
  have hsize : FSSIZE = 2000 := rfl
  unfold balloc
  rw [if_pos (by unfold BPB; omega)]
  rfl

/-- At the end the size of the root directory is rounded. -/
theorem finish_spec (h : Built m c) (hroot : 1 < m.freeinode) :
    ∃ m', finish m = .ok m'.shown ∧
      Wrote m 1 { dinode sb m.disk 1 with size := ((c 1).length / BSIZE + 1) * BSIZE } m' := by
  have hone : ROOTINO = 1 := rfl
  have hslot : 1 < sb.islots := by decide
  have hbig : MAXFILE * BSIZE = 274432 := rfl
  have htype := (h.inode 1 hslot).mpr ⟨by omega, hroot⟩
  have hbound := h.consistent.bounded 1 hslot htype
  have hsize := h.size 1 (by omega) hroot
  have hfits : (dinode sb m.disk 1).Fits := getDinode_fits ..
  generalize hdin : dinode sb m.disk 1 = din at hbound hsize hfits
  have hfits' : ({ din with size := ((c 1).length / BSIZE + 1) * BSIZE } : Dinode).Fits := by
    refine ⟨hfits.type, hfits.major, hfits.minor, hfits.nlink, ?_, hfits.addrs, hfits.rest⟩
    unfold BSIZE at *
    simp only
    omega
  refine ⟨{ m with disk := iupdate sb m.disk 1 _ }, ?_, wrote hslot hfits' rfl rfl⟩
  unfold finish
  rw [hone, rinode_eq hslot, ok_bind, hdin, winode_eq hslot, ok_bind, usedMap_image, hsize]
  exact h.high

/-! ## What the kernel finds -/

theorem map_getD (l : List UInt8) : (List.range l.length).map (fun x => l.getD x 0) = l := by
  refine List.ext_getElem ?_ fun k h1 h2 => ?_
  · rw [List.length_map, List.length_range]
  · rw [List.getElem_map, List.getElem_range, List.getD_eq_getElem _ _ h2]

/-- The kernel reads what the blocks of a file hold. -/
theorem readi_eq {d : Disk} (h : Consistent sb d (dinode sb d)) (hi : i < sb.islots)
    (ht : (dinode sb d i).type ≠ 0) {l : List UInt8} (hlen : l.length ≤ (dinode sb d i).size)
    (hbytes : ∀ bn x, addrOf d (dinode sb d i) (place bn) ≠ 0 → x < BSIZE →
      d (addrOf d (dinode sb d i) (place bn)) x = l.getD (bn * BSIZE + x) 0) :
    readi sb d (dinode sb d i) 0 l.length [] = .ok (d, dinode sb d i, l, true) := by
  have hbound := h.bounded i hi ht
  have hbig : MAXFILE * BSIZE = 274432 := rfl
  obtain ⟨data, done, heq, hall⟩ := readi_spec (h.open i) hi ht
    (show 0 < 4294967296 by omega) (show l.length < 4294967296 by omega) []
  obtain ⟨hdata, hdone⟩ := hall rfl (by omega) (by omega)
  have hl : data = l := by
    rw [hdata]
    refine Eq.trans (List.map_congr_left fun x hx => ?_) (map_getD l)
    have hx := List.mem_range.mp hx
    have hcover := h.covered i hi ht (x / BSIZE) (by unfold BSIZE; omega)
    unfold byteAt
    rw [Nat.zero_add, hbytes _ _ hcover (Nat.mod_lt _ (by decide)), Nat.div_add_mod']
  rw [heq, hl, hdone]

/-- The image is what the kernel expects: its super block has the layout, the blocks have one
owner and the files have their blocks, and the directory and the files can be read back. -/
structure Good (files : List File) (image : Disk) : Prop where
  super : ∀ k (hk : k < superWords.length), get32 (image 1) (4 * k) = superWords[k]
  consistent : Consistent sb image (dinode sb image)
  root : readi sb image (dinode sb image ROOTINO) 0 (16 * (files.length + 2)) [] =
    .ok (image, dinode sb image ROOTINO, dots ++ entriesFrom 2 files, true)
  size : ∀ k (hk : k < files.length), (dinode sb image (k + 2)).size = files[k].content.length
  file : ∀ k (hk : k < files.length),
    readi sb image (dinode sb image (k + 2)) 0 files[k].content.length [] =
      .ok (image, dinode sb image (k + 2), files[k].content, true)

theorem super_words {b : Buffer} (h : b = superBlock) (k : Nat) (hk : k < superWords.length) :
    get32 b (4 * k) = superWords[k] := by
  subst h
  have hlt : superWords[k] < 4294967296 := by
    have hall : ∀ w ∈ superWords, w < 4294967296 := by decide
    exact hall _ (List.getElem_mem hk)
  have hword : superWords.getD k 0 = superWords[k] := List.getD_eq_getElem _ _ hk
  rw [get32_of_bytes (v := superWords[k]), Nat.mod_eq_of_lt hlt]
  intro x hx
  unfold superBlock
  rw [show (4 * k + x) / 4 = k by omega, show (4 * k + x) % 4 = x by omega, hword]

/-! ## The image -/

theorem length_entriesFrom (n : Nat) (files : List File) :
    (entriesFrom n files).length = 16 * files.length := by
  induction files generalizing n with
  | nil => rfl
  | cons f files ih =>
    unfold entriesFrom
    rw [List.length_append, length_dirent, ih, List.length_cons]
    omega

/-- The run up to the end: all files are there, or they take more blocks than there are. -/
theorem main_spec {files : List File} (hfits : ∀ f ∈ files, f.Fits) (hcount : files.length < NINODES) :
    (usedBlocks files ≤ FSSIZE ∧ ∃ m c, main files = finish m ∧ Built m c ∧
      m.freeinode = 2 + files.length ∧ c 1 = dots ++ entriesFrom 2 files ∧
      ∀ k (hk : k < files.length), c (k + 2) = files[k].content) ∨
    FSSIZE < usedBlocks files ∧ ∃ e, main files = .error e := by
  have hislots : sb.islots = 208 := rfl
  have hinodes : NINODES = 200 := rfl
  have htwo : blocksOf (16 * 2) = 1 := rfl
  obtain ⟨m, heq, hb, hfree, hblock⟩ := makeRoot_spec
  have hroot : (Function.update (fun _ => []) 1 dots 1 : List UInt8).length = 16 * 2 := by
    rw [Function.update_self]
    unfold dots
    rw [List.length_append, length_dirent, length_dirent]
  have hall := addFiles_spec hb hfits (n := 0) hfree (by omega) hroot
    fun j hj => Function.update_of_ne (by omega) ..
  rw [Nat.zero_add, htwo, Nat.add_comm 2, Function.update_self] at hall
  unfold usedBlocks main
  rw [heq, ok_bind]
  rcases hall with ⟨m', c, heq', hb', hfree', hcount', hentries, -, hfiles⟩ | ⟨⟨e, heq'⟩, hfull⟩
  · rw [heq', ok_bind]
    have hhigh := hb'.high
    refine Or.inl ⟨by omega, m', c, rfl, hb', by omega, hentries, fun k hk => ?_⟩
    rw [Nat.add_comm k]
    exact hfiles k hk
  · rw [heq', error_bind]
    exact Or.inr ⟨by omega, e, rfl⟩

/-- The root directory ends inside of a block, so the rounded size is that of its blocks. -/
theorem finish_good {files : List File} (h : Built m c) (hfree : m.freeinode = 2 + files.length)
    (hcount : files.length < NINODES) (hroot : c 1 = dots ++ entriesFrom 2 files)
    (hfiles : ∀ k (hk : k < files.length), c (k + 2) = files[k].content)
    (hinside : (files.length + 2) % 64 ≠ 0) : ∃ image, finish m = .ok image ∧ Good files image := by
  have hislots : sb.islots = 208 := rfl
  have hinodes : NINODES = 200 := rfl
  have hbig : MAXFILE * BSIZE = 274432 := rfl
  have hone : ROOTINO = 1 := rfl
  have hlen : (c 1).length = 16 * (files.length + 2) := by
    rw [hroot, List.length_append, length_entriesFrom]
    unfold dots
    rw [List.length_append, length_dirent, length_dirent]
    omega
  have hw := h.writing (i := 1) (by omega) (by omega)
  obtain ⟨m', heq, hwrote⟩ := finish_spec h (by omega)
  have hround : ((c 1).length / BSIZE + 1) * BSIZE ≤ MAXFILE * BSIZE ∧
      ∀ bn, bn * BSIZE < ((c 1).length / BSIZE + 1) * BSIZE → bn * BSIZE < (c 1).length := by
    rw [hlen, hbig]
    unfold BSIZE
    refine ⟨by omega, fun bn hbn => by omega⟩
  have hfits : ({ dinode sb m.disk 1 with size := ((c 1).length / BSIZE + 1) * BSIZE } : Dinode).Fits :=
    ⟨hw.fits.type, hw.fits.major, hw.fits.minor, hw.fits.nlink, Nat.lt_of_le_of_lt hround.1 (by omega),
      hw.fits.addrs, hw.fits.rest⟩
  have hcons := hw.consistent_of_size hwrote hfits (fun bn hbn => hw.covered bn (hround.2 bn hbn)) hround.1
  have hshown : Consistent sb m'.shown (dinode sb m'.shown) :=
    hcons.congr fun j hj => dinode_shown hj
  have hslot : ∀ j, 0 < j → j < 2 + files.length → j < sb.islots ∧ (dinode sb m'.shown j).type ≠ 0 ∧
      (c j).length ≤ (dinode sb m'.shown j).size := by
    intro j hj0 hj
    have hj' : j < sb.islots := by omega
    rw [dinode_shown hj', hwrote.dinode j hj']
    have ht := (h.inode j hj').mpr ⟨hj0, by omega⟩
    have hsize := h.size j hj0 (by omega)
    by_cases hj1 : j = 1
    · subst hj1
      rw [if_pos rfl]
      refine ⟨hj', ht, ?_⟩
      unfold BSIZE
      simp only
      omega
    · rw [if_neg hj1]
      exact ⟨hj', ht, Nat.le_of_eq hsize.symm⟩
  have hread : ∀ j, 0 < j → j < 2 + files.length →
      readi sb m'.shown (dinode sb m'.shown j) 0 (c j).length [] =
        .ok (m'.shown, dinode sb m'.shown j, c j, true) := by
    intro j hj0 hj
    obtain ⟨hj', ht, hle⟩ := hslot j hj0 hj
    refine readi_eq hshown hj' ht hle fun bn x hne hx => ?_
    have hbytes := hw.contents_wrote hwrote j bn x
    have href : ref sb m'.shown (dinode sb m'.disk) (j, place bn) =
        addrOf m'.shown (dinode sb m'.shown j) (place bn) := by
      rw [dinode_shown hj'] at ht ⊢
      exact ref_eq hj' ht _
    rw [href] at hbytes
    have hge := hshown.owned.range (j, place bn) (by rwa [ref_eq hj' ht])
    rw [ref_eq hj' ht] at hge
    rw [shown_data hge.1]
    exact hbytes hne hx
  refine ⟨m'.shown, heq, fun k hk => super_words ?_ k hk, hshown, ?_, fun k hk => ?_, fun k hk => ?_⟩
  · have hmap : 1 ≠ sb.bmapstart := by decide
    rw [shown_of_ne hmap, hwrote.super, h.super]
  · rw [hone, ← hlen, ← hroot]
    exact hread 1 (by omega) (by omega)
  · have hk' : k + 2 < sb.islots := by omega
    rw [dinode_shown hk', hwrote.dinode _ hk', if_neg (by omega), h.size _ (by omega) (by omega), hfiles k hk]
  · rw [← hfiles k hk]
    exact hread (k + 2) (by omega) (by omega)

/-- The root directory fills its last block, and the rounded size has a block more. -/
theorem finish_bad {files : List File} (h : Built m c) (hfree : m.freeinode = 2 + files.length)
    (hroot : c 1 = dots ++ entriesFrom 2 files) (hfull : (files.length + 2) % 64 = 0) :
    ∃ image, finish m = .ok image ∧ ¬ Consistent sb image (dinode sb image) := by
  have hlen : (c 1).length = 16 * (files.length + 2) := by
    rw [hroot, List.length_append, length_entriesFrom]
    unfold dots
    rw [List.length_append, length_dirent, length_dirent]
    omega
  have hslot : 1 < sb.islots := by decide
  have hw := h.writing (i := 1) (by omega) (by omega)
  obtain ⟨m', heq, hwrote⟩ := finish_spec h (by omega)
  have hdinode := hwrote.dinode 1 hslot
  rw [if_pos rfl, ← dinode_shown hslot] at hdinode
  refine ⟨m'.shown, heq, fun hcons => ?_⟩
  have htype : (dinode sb m'.shown 1).type ≠ 0 := by
    rw [hdinode]
    exact hw.type
  refine hcons.covered 1 hslot htype ((c 1).length / BSIZE) ?_ ?_
  · rw [hdinode]
    unfold BSIZE
    simp only
    omega
  · have haddrs : (dinode sb m'.shown 1).addrs = (dinode sb m.disk 1).addrs := by rw [hdinode]
    have hsame : addrOf m'.shown (dinode sb m'.shown 1) (place ((c 1).length / BSIZE)) =
        addrOf m'.shown (dinode sb m.disk 1) (place ((c 1).length / BSIZE)) :=
      addrOf_congr (by rw [haddrs]) (by rw [haddrs]) fun _ => rfl
    rw [hsame, hwrote.addrOf fun ha => (hw.indirect ha).1]
    by_contra hne
    have hlt := (h.below 1 (by omega) (by omega)).blocks _ hne
    rw [hlen] at hlt
    unfold BSIZE at hlt
    omega

theorem no_good_image {files : List File} (hfits : ∀ f ∈ files, f.Fits)
    (hcount : files.length < NINODES) (hfull : (files.length + 2) % 64 = 0) :
    ¬ ∃ image, main files = .ok image ∧ Good files image := by
  rintro ⟨image, himage, hgood⟩
  rcases main_spec hfits hcount with ⟨-, m, c, heq, hb, hfree, hroot, -⟩ | ⟨-, e, heq⟩
  · obtain ⟨image', hfin, hbad⟩ := finish_bad hb hfree hroot hfull
    rw [heq, hfin] at himage
    obtain rfl := Except.ok.inj himage
    exact hbad hgood.consistent
  · rw [heq] at himage
    cases himage

/-- The image is good when the root directory does not fill its last block and there is room for
the files. -/
theorem image_is_good_iff {files : List File} (hfits : ∀ f ∈ files, f.Fits)
    (hcount : files.length < NINODES) :
    (∃ image, main files = .ok image ∧ Good files image) ↔
      (files.length + 2) % 64 ≠ 0 ∧ usedBlocks files ≤ FSSIZE := by
  constructor
  · intro hgood
    refine ⟨fun hfull => no_good_image hfits hcount hfull hgood, ?_⟩
    obtain ⟨image, himage, -⟩ := hgood
    rcases main_spec hfits hcount with ⟨hroom, -⟩ | ⟨-, e, heq⟩
    · exact hroom
    · rw [heq] at himage
      cases himage
  · rintro ⟨hinside, hroom⟩
    rcases main_spec hfits hcount with ⟨-, m, c, heq, hb, hfree, hroot, hfiles⟩ | ⟨hfull, -⟩
    · rw [heq]
      exact finish_good hb hfree hcount hroot hfiles hinside
    · omega

/-- A file of five bytes, with an underscore in front of its name. -/
def greeting : File :=
  ⟨[117, 115, 101, 114, 47, 95, 104, 105], [[104, 101], [108, 108, 111]], by decide⟩

theorem a_greeting_is_read_back : ∃ image, main [greeting] = .ok image ∧ Good [greeting] image := by
  have hfits : ∀ f ∈ [greeting], f.Fits := by
    intro f hf
    obtain rfl := List.mem_singleton.mp hf
    exact ⟨by decide, by decide, by decide⟩
  exact (image_is_good_iff hfits (by decide)).mpr ⟨by decide, by decide⟩

def emptyFile (k : Nat) : File := ⟨[97, UInt8.ofNat (65 + k)], [], fun _ hc => absurd hc List.not_mem_nil⟩

/-- With the two entries that are there already, 62 files fill a block of the root directory. -/
def fullRoot : List File := (List.range 62).map emptyFile

theorem a_full_root_is_not_good : (∀ f ∈ fullRoot, f.Fits) ∧ fullRoot.length < NINODES ∧
    (fullRoot.map File.shortname).Nodup ∧ usedBlocks fullRoot < BPB ∧
    ¬ ∃ image, main fullRoot = .ok image ∧ Good fullRoot image := by
  have hall : ∀ k < 62, 47 ∉ (emptyFile k).base ∧ (emptyFile k).shortname.length ≤ DIRSIZ := by decide
  have hfits : ∀ f ∈ fullRoot, f.Fits := by
    intro f hf
    obtain ⟨k, hk, rfl⟩ := List.mem_map.mp hf
    obtain ⟨hslash, hname⟩ := hall k (List.mem_range.mp hk)
    exact ⟨hslash, hname, Nat.zero_le _⟩
  exact ⟨hfits, by decide, by decide, by decide, no_good_image hfits (by decide) (by decide)⟩

end xv6.mkfs
