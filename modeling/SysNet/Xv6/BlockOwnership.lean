-- Every block of the file system has one owner: it belongs to the
-- metadata, or one inode refers to it in one place, or it is free. Every
-- call keeps this, also when it stops half way.
import Mathlib.Data.Nat.Basic
import SysNet.Lib.Owners
import SysNet.Lib.Runs
import SysNet.Xv6.Fs

open bytes owners runs

namespace xv6.fs

variable {sb : Superblock} {d d' : Disk} {i j k b c : Nat} {ip : Dinode}

/-! ## Inodes on the disk -/

/-- The fields fit into those of a `struct dinode`. -/
structure Dinode.Fits (ip : Dinode) : Prop where
  type : ip.type < 65536
  major : ip.major < 65536
  minor : ip.minor < 65536
  nlink : ip.nlink < 65536
  size : ip.size < 4294967296
  addrs : ∀ k, ip.addrs k < 4294967296
  rest : ∀ k, NDIRECT < k → ip.addrs k = 0

theorem getDinode_fits (b : Buffer) (o : Nat) : (getDinode b o).Fits where
  type := get16_lt ..
  major := get16_lt ..
  minor := get16_lt ..
  nlink := get16_lt ..
  size := get32_lt ..
  addrs k := by
    simp only [getDinode]
    split
    · exact get32_lt ..
    · decide
  rest k hk := if_neg (by omega)

theorem Dinode.Fits.emptied (h : ip.Fits) : ({ ip with addrs := fun _ => 0, size := 0 } : Dinode).Fits :=
  ⟨h.type, h.major, h.minor, h.nlink, Nat.zero_lt_succ _, fun _ => Nat.zero_lt_succ _, fun _ _ => rfl⟩

/-- An inode that is written can be read back. -/
theorem getDinode_fill (h : ip.Fits) (b : Buffer) (o : Nat) :
    getDinode (fill b o 64 ip.bytes) o = ip := by
  have hbytes : ∀ j < 64, fill b o 64 ip.bytes (o + j) = ip.bytes j := fun j hj => fill_in hj
  have hword16 : ∀ j v, v < 65536 → j + 2 ≤ 64 → (∀ k < 2, ip.bytes (j + k) = byte v k) →
      get16 (fill b o 64 ip.bytes) (o + j) = v := by
    intro j v hv hj hbyte
    rw [get16_of_bytes (v := v), Nat.mod_eq_of_lt hv]
    intro k hk
    rw [Nat.add_assoc, hbytes _ (by omega), hbyte k hk]
  have hword32 : ∀ j v, v < 4294967296 → j + 4 ≤ 64 → (∀ k < 4, ip.bytes (j + k) = byte v k) →
      get32 (fill b o 64 ip.bytes) (o + j) = v := by
    intro j v hv hj hbyte
    rw [get32_of_bytes (v := v), Nat.mod_eq_of_lt hv]
    intro k hk
    rw [Nat.add_assoc, hbytes _ (by omega), hbyte k hk]
  unfold getDinode
  refine Dinode.ext ?_ ?_ ?_ ?_ ?_ (funext fun k => ?_)
  · refine hword16 0 _ h.type (by omega) fun k hk => ?_
    unfold Dinode.bytes
    rw [Nat.zero_add, if_pos (by omega)]
  · refine hword16 2 _ h.major (by omega) fun k hk => ?_
    unfold Dinode.bytes
    rw [if_neg (by omega), if_pos (by omega), Nat.add_sub_cancel_left]
  · refine hword16 4 _ h.minor (by omega) fun k hk => ?_
    unfold Dinode.bytes
    rw [if_neg (by omega), if_neg (by omega), if_pos (by omega), Nat.add_sub_cancel_left]
  · refine hword16 6 _ h.nlink (by omega) fun k hk => ?_
    unfold Dinode.bytes
    rw [if_neg (by omega), if_neg (by omega), if_neg (by omega), if_pos (by omega),
      Nat.add_sub_cancel_left]
  · refine hword32 8 _ h.size (by omega) fun k hk => ?_
    unfold Dinode.bytes
    rw [if_neg (by omega), if_neg (by omega), if_neg (by omega), if_neg (by omega),
      if_pos (by omega), Nat.add_sub_cancel_left]
  · simp only
    by_cases hk : k ≤ NDIRECT
    · rw [if_pos hk, Nat.add_assoc]
      have hk12 : k ≤ 12 := hk
      refine hword32 _ _ (h.addrs k) (by omega) fun x hx => ?_
      unfold Dinode.bytes
      rw [if_neg (by omega), if_neg (by omega), if_neg (by omega), if_neg (by omega),
        if_neg (by omega), show (12 + 4 * k + x - 12) / 4 = k by omega,
        show (12 + 4 * k + x - 12) % 4 = x by omega]
    · rw [if_neg hk, h.rest k (by omega)]

theorem getDinode_fill_of_disjoint {b : Buffer} {o p : Nat} {f : Nat → UInt8}
    (h : p + 64 ≤ o ∨ o + 64 ≤ p) : getDinode (fill b o 64 f) p = getDinode b p := by
  have h16 : ∀ j, j + 2 ≤ 64 → get16 (fill b o 64 f) (p + j) = get16 b (p + j) := fun j hj =>
    get16_congr fun k hk => fill_out (by omega)
  have h32 : ∀ j, j + 4 ≤ 64 → get32 (fill b o 64 f) (p + j) = get32 b (p + j) := fun j hj =>
    get32_congr fun k hk => fill_out (by omega)
  unfold getDinode
  refine Dinode.ext (h16 0 (by omega)) (h16 2 (by omega)) (h16 4 (by omega)) (h16 6 (by omega))
    (h32 8 (by omega)) (funext fun k => ?_)
  simp only
  by_cases hk : k ≤ NDIRECT
  · have hk12 : k ≤ 12 := hk
    rw [if_pos hk, if_pos hk, Nat.add_assoc]
    exact h32 _ (by omega)
  · rw [if_neg hk, if_neg hk]

/-! ## Where the blocks are -/

theorem Superblock.datastart_pos (sb : Superblock) : 0 < sb.datastart := by
  unfold Superblock.datastart BPB
  omega

theorem bblock_lt (h : c < sb.size) : sb.bmapstart ≤ BBLOCK sb c ∧ BBLOCK sb c < sb.datastart := by
  unfold BBLOCK Superblock.datastart BPB
  omega

theorem iblock_lt (h : i < sb.islots) : IBLOCK sb i < sb.bmapstart := by
  unfold Superblock.islots IPB at h
  unfold IBLOCK IPB
  omega

/-- Writing to a data block changes neither the free map nor the inodes. -/
theorem isUsed_update (hb : sb.datastart ≤ b) (hc : c < sb.size) (x : Buffer) :
    isUsed sb (Function.update d b x) c = isUsed sb d c := by
  have hlt := bblock_lt hc
  unfold isUsed
  rw [Function.update_of_ne (by omega)]

theorem dinode_update (hb : sb.datastart ≤ b) (hi : i < sb.islots) (x : Buffer) :
    dinode sb (Function.update d b x) i = dinode sb d i := by
  have hlt := iblock_lt hi
  have hle : sb.bmapstart ≤ sb.datastart := Nat.le_add_right ..
  unfold dinode
  rw [Function.update_of_ne (by omega)]

/-- The same inodes, and the same data blocks but for one. -/
structure Same (sb : Superblock) (d d' : Disk) (except : Nat → Prop) : Prop where
  dinode : ∀ i < sb.islots, dinode sb d' i = dinode sb d i
  data : ∀ c, sb.datastart ≤ c → ¬ except c → d' c = d c

theorem Same.refl (d : Disk) (P : Nat → Prop) : Same sb d d P := ⟨fun _ _ => rfl, fun _ _ _ => rfl⟩

/-- A bit of the map is changed. -/
theorem same_of_map (hc : c < sb.size) (x : Buffer) (P : Nat → Prop) :
    Same sb d (Function.update d (BBLOCK sb c) x) P := by
  have hlt := bblock_lt hc
  refine ⟨fun i hi => ?_, fun e he _ => Function.update_of_ne (by omega) ..⟩
  have hi := iblock_lt hi
  unfold fs.dinode
  rw [Function.update_of_ne (by omega)]

theorem isUsed_map (x : Buffer) : isUsed sb (Function.update d (BBLOCK sb c) x) b =
    if BBLOCK sb b = BBLOCK sb c then bit x (b % BPB) else isUsed sb d b := by
  unfold isUsed
  by_cases h : BBLOCK sb b = BBLOCK sb c
  · rw [if_pos h, h, Function.update_self]
  · rw [if_neg h, Function.update_of_ne h]

/-- Two blocks with one bit are one block. -/
theorem eq_of_bit (h : BBLOCK sb b = BBLOCK sb c) (hbit : c % BPB = b % BPB) : b = c := by
  unfold BBLOCK at h
  unfold BPB at h hbit
  omega

theorem isUsed_setBit : isUsed sb
    (Function.update d (BBLOCK sb c) (setBit (d (BBLOCK sb c)) (c % BPB))) b = true ↔
      isUsed sb d b = true ∨ b = c := by
  rw [isUsed_map]
  by_cases h : BBLOCK sb b = BBLOCK sb c
  · rw [if_pos h, bit_setBit, Bool.or_eq_true, decide_eq_true_iff]
    unfold isUsed
    rw [h]
    exact or_congr_right ⟨fun hbit => eq_of_bit h hbit, fun heq => by rw [heq]⟩
  · rw [if_neg h]
    exact (or_iff_left fun heq => h (by rw [heq])).symm

theorem isUsed_clearBit : isUsed sb
    (Function.update d (BBLOCK sb c) (clearBit (d (BBLOCK sb c)) (c % BPB))) b = true ↔
      isUsed sb d b = true ∧ b ≠ c := by
  rw [isUsed_map]
  by_cases h : BBLOCK sb b = BBLOCK sb c
  · rw [if_pos h, bit_clearBit, Bool.and_eq_true, Bool.not_eq_true', decide_eq_false_iff_not]
    unfold isUsed
    rw [h]
    exact and_congr_right fun _ => not_congr ⟨fun hbit => eq_of_bit h hbit, fun heq => by rw [heq]⟩
  · rw [if_neg h]
    exact (and_iff_left fun heq => h (by rw [heq])).symm

/-- What `balloc` does: there is no free block, or it marks one and clears it. -/
theorem balloc_spec (h0 : ∀ b < sb.datastart, isUsed sb d b) :
    balloc sb d = (d, 0) ∨ ∃ d' b, balloc sb d = (d', b) ∧ b ≠ 0 ∧ b < sb.size ∧
      ¬ isUsed sb d b ∧ (∀ c < sb.size, isUsed sb d' c ↔ isUsed sb d c ∨ c = b) ∧
      Same sb d d' (· = b) ∧ d' b = fun _ => 0 := by
  unfold balloc
  split
  · exact Or.inl rfl
  · rename_i b hfind
    have hfree : ¬ isUsed sb d b := by
      have hb := List.find?_some hfind
      simpa using hb
    have hlt : b < sb.size := List.mem_range.mp (List.mem_of_find?_eq_some hfind)
    have hge : sb.datastart ≤ b := Nat.le_of_not_lt fun hlt => hfree (h0 b hlt)
    have hpos := sb.datastart_pos
    have hmap := same_of_map (d := d) hlt (setBit (d (BBLOCK sb b)) (b % BPB)) fun _ => False
    refine Or.inr ⟨_, b, rfl, by omega, hlt, hfree, fun c hc => ?_, ⟨fun i hi => ?_, fun c hc hne => ?_⟩,
      Function.update_self ..⟩
    · rw [isUsed_update hge hc]
      exact isUsed_setBit
    · rw [dinode_update hge hi]
      exact hmap.dinode i hi
    · rw [Function.update_of_ne hne]
      exact hmap.data c hc fun h => h

/-- `bfree` of a block that is used. -/
theorem bfree_spec (hb : b < sb.size) (hused : isUsed sb d b) :
    ∃ d', bfree sb d b = .ok d' ∧ (∀ c < sb.size, isUsed sb d' c ↔ isUsed sb d c ∧ c ≠ b) ∧
      Same sb d d' fun _ => False := by
  unfold bfree
  rw [if_pos hused]
  exact ⟨_, rfl, fun c _ => isUsed_clearBit, same_of_map hb _ _⟩

/-- `iupdate` changes one inode. -/
theorem iupdate_spec (hi : i < sb.islots) (hfits : ip.Fits) :
    (∀ c < sb.size, isUsed sb (iupdate sb d i ip) c = isUsed sb d c) ∧
      (∀ j < sb.islots, dinode sb (iupdate sb d i ip) j = if j = i then ip else dinode sb d j) ∧
      ∀ c, sb.datastart ≤ c → iupdate sb d i ip c = d c := by
  have hlt := iblock_lt hi
  have hle : sb.bmapstart ≤ sb.datastart := Nat.le_add_right ..
  unfold iupdate
  refine ⟨fun c hc => ?_, fun j hj => ?_, fun c hc => Function.update_of_ne (by omega) ..⟩
  · have hbc := bblock_lt hc
    unfold isUsed
    rw [Function.update_of_ne (by omega)]
  · unfold dinode
    by_cases hblock : IBLOCK sb j = IBLOCK sb i
    · rw [hblock, Function.update_self]
      by_cases hji : j = i
      · subst hji
        rw [if_pos rfl, getDinode_fill hfits]
      · rw [if_neg hji]
        refine getDinode_fill_of_disjoint ?_
        unfold IBLOCK IPB at hblock
        unfold IPB
        omega
    · rw [Function.update_of_ne hblock, if_neg fun hji => hblock (by rw [hji])]

/-! ## The places that refer to a block -/

/-- The address in a place of an inode: up to `NDIRECT` one of its own, behind that one of its
indirect block. -/
def addrOf (d : Disk) (ip : Dinode) (k : Nat) : Nat :=
  if k ≤ NDIRECT then ip.addrs k
  else if ip.addrs NDIRECT ≠ 0 ∧ k - (NDIRECT + 1) < NINDIRECT then
    get32 (d (ip.addrs NDIRECT)) (4 * (k - (NDIRECT + 1)))
  else 0

/-- The place of the block `bn` of a file. -/
def place (bn : Nat) : Nat := if bn < NDIRECT then bn else bn + 1

/-- The address in a place of an allocated inode. -/
def ref (sb : Superblock) (d : Disk) (inodes : Nat → Dinode) (p : Nat × Nat) : Nat :=
  if p.1 < sb.islots ∧ (inodes p.1).type ≠ 0 then addrOf d (inodes p.1) p.2 else 0

/-- The blocks belong to the inodes as the free map says, and every file has its blocks. The
inodes are those on the disk but for the one that a call works on. -/
structure Consistent (sb : Superblock) (d : Disk) (inodes : Nat → Dinode) : Prop where
  owned : Owned (ref sb d inodes) (fun b => isUsed sb d b) sb.datastart sb.size
  covered : ∀ i < sb.islots, (inodes i).type ≠ 0 → ∀ bn, bn * BSIZE < (inodes i).size →
    addrOf d (inodes i) (place bn) ≠ 0
  bounded : ∀ i < sb.islots, (inodes i).type ≠ 0 → (inodes i).size ≤ MAXFILE * BSIZE

variable {inodes : Nat → Dinode} {ip' : Dinode}

theorem Consistent.metadata (h : Consistent sb d inodes) : ∀ b < sb.datastart, isUsed sb d b := by
  intro b hb
  have hlt : b < sb.size := Nat.lt_of_lt_of_le hb sb.map_fits
  exact (h.owned.exact b hlt).mpr (Or.inl hb)

theorem ref_eq (hi : i < sb.islots) (ht : (inodes i).type ≠ 0) (k : Nat) :
    ref sb d inodes (i, k) = addrOf d (inodes i) k := if_pos ⟨hi, ht⟩

/-- The indirect block of an inode is a data block that is used. -/
theorem Consistent.indirect (h : Consistent sb d inodes) (hi : i < sb.islots)
    (ht : (inodes i).type ≠ 0) (ha : (inodes i).addrs NDIRECT ≠ 0) :
    sb.datastart ≤ (inodes i).addrs NDIRECT ∧ (inodes i).addrs NDIRECT < sb.size ∧
      isUsed sb d ((inodes i).addrs NDIRECT) := by
  have hplace : ref sb d inodes (i, NDIRECT) = (inodes i).addrs NDIRECT := by
    rw [ref_eq hi ht, addrOf, if_pos (Nat.le_refl _)]
  have hne : ref sb d inodes (i, NDIRECT) ≠ 0 := by rwa [hplace]
  have hrange := h.owned.range _ hne
  have hused := h.owned.used_ref hne
  rw [hplace] at hrange hused
  exact ⟨hrange.1, hrange.2, hused⟩

/-- The places read the same where the indirect block is the same. -/
theorem addrOf_congr (hk : ip'.addrs k = ip.addrs k) (ha : ip'.addrs NDIRECT = ip.addrs NDIRECT)
    (hdata : ip.addrs NDIRECT ≠ 0 → d' (ip.addrs NDIRECT) = d (ip.addrs NDIRECT)) :
    addrOf d' ip' k = addrOf d ip k := by
  unfold addrOf
  rw [hk, ha]
  by_cases hne : ip.addrs NDIRECT = 0
  · simp [hne]
  · rw [hdata hne]

/-- A block is given to a place of an inode that had none. -/
theorem Consistent.give (h : Consistent sb d (Function.update inodes i ip)) (hi : i < sb.islots)
    (ht : ip.type ≠ 0) (hb : b < sb.size) (hfree : ¬ isUsed sb d b) (hk : addrOf d ip k = 0)
    (hused : ∀ c < sb.size, isUsed sb d' c ↔ isUsed sb d c ∨ c = b)
    (htype : ip'.type = ip.type) (hsize : ip'.size = ip.size) (hat : addrOf d' ip' k = b)
    (hplaces : ∀ k', k' ≠ k → addrOf d' ip' k' = addrOf d ip k')
    (hothers : ∀ j < sb.islots, j ≠ i → (inodes j).type ≠ 0 → (inodes j).addrs NDIRECT ≠ 0 →
      d' ((inodes j).addrs NDIRECT) = d ((inodes j).addrs NDIRECT)) :
    Consistent sb d' (Function.update inodes i ip') := by
  have hself : ∀ x : Dinode, Function.update inodes i x i = x := fun x => Function.update_self ..
  have hother : ∀ (x : Dinode) (j : Nat), j ≠ i → Function.update inodes i x j = inodes j :=
    fun x j hj => Function.update_of_ne hj ..
  have hrefk : ref sb d (Function.update inodes i ip) (i, k) = 0 := by
    rw [ref_eq hi (by rwa [hself]), hself, hk]
  have hpos := sb.datastart_pos
  -- the places are as before but for the one
  have href : ∀ p, ref sb d' (Function.update inodes i ip') p =
      Function.update (ref sb d (Function.update inodes i ip)) (i, k) b p := by
    rintro ⟨j, k'⟩
    by_cases hji : j = i
    · subst hji
      rw [ref_eq hi (by rwa [hself, htype]), hself]
      by_cases hkk : k' = k
      · subst hkk
        rw [Function.update_self, hat]
      · rw [Function.update_of_ne (by simp [hkk]), ref_eq hi (by rwa [hself]), hself, hplaces k' hkk]
    · rw [Function.update_of_ne (by simp [hji])]
      unfold ref
      rw [hother ip' j hji, hother ip j hji]
      by_cases hj : j < sb.islots ∧ (inodes j).type ≠ 0
      · rw [if_pos hj, if_pos hj]
        exact addrOf_congr rfl rfl fun ha => hothers j hj.1 hji hj.2 ha
      · rw [if_neg hj, if_neg hj]
  obtain ⟨hge, -⟩ := h.owned.free hb hfree
  refine ⟨(h.owned.give hb hfree hrefk hpos).congr href hused, fun j hj htj bn hbn => ?_, fun j hj htj => ?_⟩
  · rw [← ref_eq hj htj, href]
    by_cases hat : (j, place bn) = (i, k)
    · rw [hat, Function.update_self]
      omega
    · rw [Function.update_of_ne hat]
      by_cases hji : j = i
      · subst hji
        rw [hself] at hbn
        rw [ref_eq hi (by rwa [hself]), hself]
        have hold := h.covered j hi (by rwa [hself]) bn (by rw [hself, ← hsize]; exact hbn)
        rwa [hself] at hold
      · rw [hother ip' j hji] at hbn htj
        have htj' : (Function.update inodes i ip j).type ≠ 0 := by rwa [hother ip j hji]
        rw [ref_eq hj htj']
        exact h.covered j hj htj' bn (by rwa [hother ip j hji])
  · by_cases hji : j = i
    · subst hji
      rw [hself, hsize]
      have hold := h.bounded j hi (by rwa [hself])
      rwa [hself] at hold
    · rw [hother ip' j hji] at htj ⊢
      have hold := h.bounded j hj (by rwa [hother ip j hji])
      rwa [hother ip j hji] at hold

/-! ## bmap -/

/-- A call has added blocks to the inode `i`, whose copy it works on, and to nothing else. -/
structure Extends (sb : Superblock) (inodes : Nat → Dinode) (i : Nat) (d d' : Disk)
    (ip ip' : Dinode) : Prop where
  consistent : Consistent sb d' (Function.update inodes i ip')
  dinode : ∀ j < sb.islots, dinode sb d' j = dinode sb d j
  same : { ip' with addrs := ip.addrs } = ip
  fits : ip.Fits → ip'.Fits
  keeps : ∀ k, addrOf d ip k ≠ 0 → addrOf d' ip' k = addrOf d ip k

theorem Extends.refl (h : Consistent sb d (Function.update inodes i ip)) :
    Extends sb inodes i d d ip ip := ⟨h, fun _ _ => rfl, rfl, fun h => h, fun _ _ => rfl⟩

theorem Extends.type (h : Extends sb inodes i d d' ip ip') : ip'.type = ip.type := by
  have heq := congrArg Dinode.type h.same
  exact heq

theorem Extends.size (h : Extends sb inodes i d d' ip ip') : ip'.size = ip.size := by
  have heq := congrArg Dinode.size h.same
  exact heq

theorem Extends.trans {d'' : Disk} {ip'' : Dinode} (h : Extends sb inodes i d d' ip ip')
    (h' : Extends sb inodes i d' d'' ip' ip'') : Extends sb inodes i d d'' ip ip'' where
  consistent := h'.consistent
  dinode j hj := (h'.dinode j hj).trans (h.dinode j hj)
  same := by
    rw [← h.same, ← h'.same]
  fits hfits := h'.fits (h.fits hfits)
  keeps k hk := by
    have hkeep := h.keeps k hk
    rw [h'.keeps k (by rw [hkeep]; exact hk), hkeep]

theorem place_direct {bn : Nat} (h : bn < NDIRECT) : place bn = bn := if_pos h

theorem addrOf_direct (hk : k ≤ NDIRECT) : addrOf d ip k = ip.addrs k := if_pos hk

theorem addrOf_entry {e : Nat} (ha : ip.addrs NDIRECT ≠ 0) (he : e < NINDIRECT) :
    addrOf d ip (NDIRECT + 1 + e) = get32 (d (ip.addrs NDIRECT)) (4 * e) := by
  unfold addrOf
  rw [if_neg (by omega), Nat.add_sub_cancel_left, if_pos ⟨ha, he⟩]

/-- An address of the inode gets a block, which is cleared. -/
theorem addr_spec (h : Consistent sb d (Function.update inodes i ip)) (hi : i < sb.islots)
    (ht : ip.type ≠ 0) (hk : k ≤ NDIRECT) (hzero : ip.addrs k = 0) (hb : b < sb.size)
    (hfree : ¬ isUsed sb d b) (hused : ∀ c < sb.size, isUsed sb d' c ↔ isUsed sb d c ∨ c = b)
    (hsame : Same sb d d' (· = b)) (hclear : d' b = fun _ => 0)
    (hip : ip' = { ip with addrs := Function.update ip.addrs k b }) :
    Extends sb inodes i d d' ip ip' ∧ addrOf d' ip' k = b ∧
      ∀ k', k' ≠ k → addrOf d' ip' k' = addrOf d ip k' := by
  have hself : ∀ x : Dinode, Function.update inodes i x i = x := fun x => Function.update_self ..
  have hother : ∀ (x : Dinode) (j : Nat), j ≠ i → Function.update inodes i x j = inodes j :=
    fun x j hj => Function.update_of_ne hj ..
  have hat : ∀ x, ip'.addrs x = if x = k then b else ip.addrs x := fun x => by
    rw [hip]
    exact Function.update_apply ..
  have hplace : addrOf d ip k = 0 := by rw [addrOf_direct hk, hzero]
  have hplaces : ∀ k', k' ≠ k → addrOf d' ip' k' = addrOf d ip k' := by
    intro k' hne
    by_cases hind : NDIRECT = k
    · -- the new block is the indirect block, and it is empty
      subst hind
      unfold addrOf
      by_cases hk' : k' ≤ NDIRECT
      · rw [if_pos hk', if_pos hk', hat, if_neg hne]
      · rw [if_neg hk', if_neg hk', hat, if_pos rfl, hclear, get32_zero, ite_self, if_neg]
        exact fun h => h.1 hzero
    · refine addrOf_congr ?_ ?_ fun ha => ?_
      · rw [hat, if_neg hne]
      · rw [hat, if_neg hind]
      · have hused := h.indirect hi (by rwa [hself]) (by rwa [hself])
        rw [hself] at hused
        exact hsame.data _ hused.1 fun heq => hfree (heq ▸ hused.2.2)
  have hnew : addrOf d' ip' k = b := by rw [addrOf_direct hk, hat, if_pos rfl]
  refine ⟨⟨?_, hsame.dinode, by rw [hip], fun hfits => ?_, fun k' hk' => ?_⟩, hnew, hplaces⟩
  · refine h.give hi ht hb hfree hplace hused (by rw [hip]) (by rw [hip]) hnew hplaces
      fun j hj hji htj haj => ?_
    have hused := h.indirect hj (by rwa [hother ip j hji]) (by rwa [hother ip j hji])
    rw [hother ip j hji] at hused
    exact hsame.data _ hused.1 fun heq => hfree (heq ▸ hused.2.2)
  · have haddrs : ip'.addrs = fun x => if x = k then b else ip.addrs x := funext hat
    rw [hip] at haddrs ⊢
    refine ⟨hfits.type, hfits.major, hfits.minor, hfits.nlink, hfits.size, fun x => ?_, fun x hx => ?_⟩
    · have hlt := sb.size_lt
      rw [haddrs]
      simp only
      split
      · omega
      · exact hfits.addrs x
    · rw [haddrs]
      simp only
      rw [if_neg (by omega)]
      exact hfits.rest x hx
  · refine hplaces k' fun heq => hk' ?_
    rw [heq, hplace]

/-- The address in `addrs[k]`, found or allocated. -/
theorem loadAddr_spec (h : Consistent sb d (Function.update inodes i ip)) (hi : i < sb.islots)
    (ht : ip.type ≠ 0) (hk : k ≤ NDIRECT) :
    ∃ d' ip' addr, loadAddr sb d ip k = (d', ip', addr) ∧ Extends sb inodes i d d' ip ip' ∧
      (addr ≠ 0 → addr = ip'.addrs k) ∧ (ip.addrs k ≠ 0 → d' = d ∧ ip' = ip ∧ addr = ip.addrs k) ∧
      ∀ k', k' ≠ k → addrOf d' ip' k' = addrOf d ip k' := by
  unfold loadAddr
  by_cases hzero : ip.addrs k = 0
  · rw [if_pos hzero]
    rcases balloc_spec h.metadata with heq | ⟨d', b, heq, hb0, hb, hfree, hused, hsame, hclear⟩
    · rw [heq]
      exact ⟨d, ip, 0, rfl, .refl h, fun h0 => absurd rfl h0, fun hne => absurd hzero hne, fun _ _ => rfl⟩
    · rw [heq]
      obtain ⟨b, rfl⟩ : ∃ b', b = b' + 1 := ⟨b - 1, by omega⟩
      obtain ⟨hext, hnew, hplaces⟩ := addr_spec h hi ht hk hzero hb hfree hused hsame hclear rfl
      rw [addrOf_direct hk] at hnew
      exact ⟨d', _, b + 1, rfl, hext, fun _ => hnew.symm, fun hne => absurd hzero hne, hplaces⟩
  · rw [if_neg hzero]
    exact ⟨d, ip, _, rfl, .refl h, fun _ => rfl, fun _ => ⟨rfl, rfl, rfl⟩, fun _ _ => rfl⟩

/-- An entry of the indirect block gets a block. -/
theorem entry_spec {e : Nat} (h : Consistent sb d (Function.update inodes i ip)) (hi : i < sb.islots)
    (ht : ip.type ≠ 0) (ha : ip.addrs NDIRECT ≠ 0) (he : e < NINDIRECT)
    (hzero : get32 (d (ip.addrs NDIRECT)) (4 * e) = 0) (hb : b < sb.size) (hfree : ¬ isUsed sb d b)
    (hused : ∀ c < sb.size, isUsed sb d' c ↔ isUsed sb d c ∨ c = b) (hsame : Same sb d d' (· = b)) :
    Extends sb inodes i d (Function.update d' (ip.addrs NDIRECT)
        (put32 (d' (ip.addrs NDIRECT)) (4 * e) b)) ip ip ∧
      addrOf (Function.update d' (ip.addrs NDIRECT)
        (put32 (d' (ip.addrs NDIRECT)) (4 * e) b)) ip (NDIRECT + 1 + e) = b ∧
      ∀ k, k ≠ NDIRECT + 1 + e → addrOf (Function.update d' (ip.addrs NDIRECT)
        (put32 (d' (ip.addrs NDIRECT)) (4 * e) b)) ip k = addrOf d ip k := by
  have hself : ∀ x : Dinode, Function.update inodes i x i = x := fun x => Function.update_self ..
  have hother : ∀ (x : Dinode) (j : Nat), j ≠ i → Function.update inodes i x j = inodes j :=
    fun x j hj => Function.update_of_ne hj ..
  have hind := h.indirect hi (by rwa [hself]) (by rwa [hself])
  rw [hself] at hind
  have hab : ip.addrs NDIRECT ≠ b := fun heq => hfree (heq ▸ hind.2.2)
  have hsize := sb.size_lt
  have hda : d' (ip.addrs NDIRECT) = d (ip.addrs NDIRECT) := hsame.data _ hind.1 hab
  have hplace : addrOf d ip (NDIRECT + 1 + e) = 0 := by rw [addrOf_entry ha he, hzero]
  have hnew : addrOf (Function.update d' (ip.addrs NDIRECT)
      (put32 (d' (ip.addrs NDIRECT)) (4 * e) b)) ip (NDIRECT + 1 + e) = b := by
    rw [addrOf_entry ha he, Function.update_self, get32_put32, Nat.mod_eq_of_lt (by omega)]
  have hplaces : ∀ k, k ≠ NDIRECT + 1 + e → addrOf (Function.update d' (ip.addrs NDIRECT)
      (put32 (d' (ip.addrs NDIRECT)) (4 * e) b)) ip k = addrOf d ip k := by
    intro k hk
    unfold addrOf
    by_cases hdirect : k ≤ NDIRECT
    · rw [if_pos hdirect, if_pos hdirect]
    · rw [if_neg hdirect, if_neg hdirect, Function.update_self, get32_put32_of_disjoint (by omega), hda]
  refine ⟨⟨?_, fun j hj => ?_, rfl, fun hfits => hfits, fun k hk => ?_⟩, hnew, hplaces⟩
  · refine h.give hi ht hb hfree hplace (fun c hc => ?_) rfl rfl hnew hplaces fun j hj hji htj haj => ?_
    · rw [isUsed_update hind.1 hc]
      exact hused c hc
    · -- the indirect block of another inode is another block
      have hj' := h.indirect hj (by rwa [hother ip j hji]) (by rwa [hother ip j hji])
      rw [hother ip j hji] at hj'
      have hne : (inodes j).addrs NDIRECT ≠ ip.addrs NDIRECT := by
        intro heq
        have hone := h.owned.once (j, NDIRECT) (i, NDIRECT)
        rw [ref_eq hj (by rwa [hother ip j hji]), ref_eq hi (by rwa [hself]), hself, hother ip j hji,
          addrOf_direct (Nat.le_refl _), addrOf_direct (Nat.le_refl _)] at hone
        exact hji (Prod.mk.inj (hone haj heq)).1
      rw [Function.update_of_ne hne]
      exact hsame.data _ hj'.1 fun heq => hfree (heq ▸ hj'.2.2)
  · rw [dinode_update hind.1 hj]
    exact hsame.dinode j hj
  · refine hplaces k fun heq => hk ?_
    rw [heq, hplace]

/-- `bmap` finds the block or adds it, and never panics on a file that is not too big. -/
theorem bmap_spec {bn : Nat} (h : Consistent sb d (Function.update inodes i ip)) (hi : i < sb.islots)
    (ht : ip.type ≠ 0) (hbn : bn < MAXFILE) :
    ∃ d' ip' addr, bmap sb d ip bn = .ok (d', ip', addr) ∧ Extends sb inodes i d d' ip ip' ∧
      (addr ≠ 0 → addr = addrOf d' ip' (place bn)) ∧
      (addrOf d ip (place bn) ≠ 0 → d' = d ∧ ip' = ip ∧ addr = addrOf d ip (place bn)) ∧
      ∀ k', k' ≠ place bn → k' ≠ NDIRECT → addrOf d' ip' k' = addrOf d ip k' := by
  unfold bmap
  by_cases hdirect : bn < NDIRECT
  · obtain ⟨d', ip', addr, heq, hext, haddr, hfound, hplaces⟩ :=
      loadAddr_spec h hi ht (Nat.le_of_lt hdirect)
    rw [if_pos hdirect, heq, place_direct hdirect, addrOf_direct (Nat.le_of_lt hdirect)]
    refine ⟨d', ip', addr, rfl, hext, ?_, hfound, fun k' hne _ => hplaces k' hne⟩
    rw [addrOf_direct (Nat.le_of_lt hdirect)]
    exact haddr
  · obtain ⟨e, rfl⟩ : ∃ e, bn = NDIRECT + e := ⟨bn - NDIRECT, by omega⟩
    have he : e < NINDIRECT := by
      unfold MAXFILE at hbn
      omega
    have hplace : place (NDIRECT + e) = NDIRECT + 1 + e := by
      unfold place
      rw [if_neg hdirect]
      omega
    obtain ⟨d₁, ip₁, a, heq, hext, haddr, hfound, hplaces⟩ := loadAddr_spec h hi ht (Nat.le_refl NDIRECT)
    have ht₁ : ip₁.type ≠ 0 := by rwa [hext.type]
    rw [if_neg hdirect, Nat.add_sub_cancel_left, if_pos he, heq, hplace]
    -- with a block in the place there is an indirect block too
    have hthere : addrOf d ip (NDIRECT + 1 + e) ≠ 0 → ip.addrs NDIRECT ≠ 0 := by
      intro hne hzero
      refine hne ?_
      unfold addrOf
      rw [if_neg (by omega), if_neg fun h => h.1 hzero]
    rcases a with _ | a
    · refine ⟨d₁, ip₁, 0, rfl, hext, fun h0 => absurd rfl h0, fun hne => ?_, fun k' _ hk' => hplaces k' hk'⟩
      have hind := hthere hne
      exact absurd (hfound hind).2.2.symm hind
    · have ha : a + 1 = ip₁.addrs NDIRECT := haddr (Nat.succ_ne_zero a)
      have hne : ip₁.addrs NDIRECT ≠ 0 := by omega
      have hentry := addrOf_entry (d := d₁) hne he
      simp only [ha]
      by_cases hzero : get32 (d₁ (ip₁.addrs NDIRECT)) (4 * e) = 0
      · rw [if_pos hzero]
        have hnone : addrOf d ip (NDIRECT + 1 + e) = 0 := by
          by_contra hne
          obtain ⟨rfl, rfl, -⟩ := hfound (hthere hne)
          exact hne (hentry.trans hzero)
        rcases balloc_spec hext.consistent.metadata with hb | ⟨d₂, b, hb, hb0, hlt, hfree, hused, hsame, -⟩
        · rw [hb]
          exact ⟨d₁, ip₁, 0, rfl, hext, fun h0 => absurd rfl h0, fun hne => absurd hnone hne,
            fun k' _ hk' => hplaces k' hk'⟩
        · rw [hb]
          obtain ⟨b, rfl⟩ : ∃ b', b = b' + 1 := ⟨b - 1, by omega⟩
          obtain ⟨hext', hnew, hplaces'⟩ := entry_spec hext.consistent hi ht₁ hne he hzero hlt hfree hused hsame
          exact ⟨_, ip₁, b + 1, rfl, hext.trans hext', fun _ => hnew.symm, fun hne => absurd hnone hne,
            fun k' hk hk' => (hplaces' k' hk).trans (hplaces k' hk')⟩
      · rw [if_neg hzero, ← hentry]
        refine ⟨d₁, ip₁, _, rfl, hext, fun _ => rfl, fun hne => ?_, fun k' _ hk' => hplaces k' hk'⟩
        obtain ⟨rfl, rfl, -⟩ := hfound (hthere hne)
        exact ⟨rfl, rfl, rfl⟩

/-! ## Data blocks and single inodes -/

theorem Consistent.congr {inodes' : Nat → Dinode} (h : Consistent sb d inodes)
    (hinodes : ∀ j < sb.islots, inodes' j = inodes j) : Consistent sb d inodes' := by
  refine ⟨h.owned.congr (fun p => ?_) fun b _ => Iff.rfl, fun j hj => ?_, fun j hj => ?_⟩
  · unfold ref
    by_cases hp : p.1 < sb.islots
    · rw [hinodes p.1 hp]
    · rw [if_neg fun h => hp h.1, if_neg fun h => hp h.1]
  · rw [hinodes j hj]
    exact h.covered j hj
  · rw [hinodes j hj]
    exact h.bounded j hj

/-- Blocks change that are no indirect blocks, and the free map does not. -/
theorem Consistent.of_data (h : Consistent sb d inodes)
    (hused : ∀ c < sb.size, isUsed sb d' c = isUsed sb d c)
    (hdata : ∀ j < sb.islots, (inodes j).type ≠ 0 → (inodes j).addrs NDIRECT ≠ 0 →
      d' ((inodes j).addrs NDIRECT) = d ((inodes j).addrs NDIRECT)) : Consistent sb d' inodes := by
  have haddr : ∀ j < sb.islots, (inodes j).type ≠ 0 → ∀ k, addrOf d' (inodes j) k = addrOf d (inodes j) k :=
    fun j hj ht k => addrOf_congr rfl rfl fun ha => hdata j hj ht ha
  refine ⟨h.owned.congr (fun p => ?_) fun b hb => by rw [hused b hb], fun j hj ht bn hbn => ?_, h.bounded⟩
  · unfold ref
    by_cases hp : p.1 < sb.islots ∧ (inodes p.1).type ≠ 0
    · rw [if_pos hp, if_pos hp, haddr _ hp.1 hp.2]
    · rw [if_neg hp, if_neg hp]
  · rw [haddr j hj ht]
    exact h.covered j hj ht bn hbn

/-- An inode changes, and the addresses that it refers to do not. -/
theorem Consistent.change (h : Consistent sb d (Function.update inodes i ip))
    (hrefs : ∀ k, (if ip'.type ≠ 0 then addrOf d ip' k else 0) = if ip.type ≠ 0 then addrOf d ip k else 0)
    (hcovered : ip'.type ≠ 0 → ∀ bn, bn * BSIZE < ip'.size → addrOf d ip' (place bn) ≠ 0)
    (hbounded : ip'.type ≠ 0 → ip'.size ≤ MAXFILE * BSIZE) :
    Consistent sb d (Function.update inodes i ip') := by
  have hself : ∀ x : Dinode, Function.update inodes i x i = x := fun x => Function.update_self ..
  have hother : ∀ (x : Dinode) (j : Nat), j ≠ i → Function.update inodes i x j = inodes j :=
    fun x j hj => Function.update_of_ne hj ..
  refine ⟨h.owned.congr (fun p => ?_) fun b _ => Iff.rfl, fun j hj ht => ?_, fun j hj ht => ?_⟩
  · unfold ref
    by_cases hp : p.1 = i
    · rw [hp, hself, hself]
      by_cases hi : i < sb.islots
      · have hk := hrefs p.2
        simp only [hi, true_and]
        exact hk
      · rw [if_neg fun h => hi h.1, if_neg fun h => hi h.1]
    · rw [hother ip' _ hp, hother ip _ hp]
  · by_cases hji : j = i
    · subst hji
      rw [hself] at ht ⊢
      exact hcovered ht
    · rw [hother ip' j hji] at ht ⊢
      have hold := h.covered j hj (by rwa [hother ip j hji])
      rwa [hother ip j hji] at hold
  · by_cases hji : j = i
    · subst hji
      rw [hself] at ht ⊢
      exact hbounded ht
    · rw [hother ip' j hji] at ht ⊢
      have hold := h.bounded j hj (by rwa [hother ip j hji])
      rwa [hother ip j hji] at hold

theorem place_ne (bn : Nat) : place bn ≠ NDIRECT := by
  unfold place
  split <;> omega

/-- The block of a file is written. -/
theorem Extends.write {bn : Nat} (h : Consistent sb d (Function.update inodes i ip)) (hi : i < sb.islots)
    (ht : ip.type ≠ 0) (hne : addrOf d ip (place bn) ≠ 0) (x : Buffer) :
    Extends sb inodes i d (Function.update d (addrOf d ip (place bn)) x) ip ip := by
  have hself : Function.update inodes i ip i = ip := Function.update_self ..
  have hplace : ref sb d (Function.update inodes i ip) (i, place bn) = addrOf d ip (place bn) := by
    rw [ref_eq hi (by rwa [hself]), hself]
  have hge := (h.owned.range (i, place bn) (by rwa [hplace])).1
  rw [hplace] at hge
  -- it is nobody's indirect block
  have hdata : ∀ j < sb.islots, (Function.update inodes i ip j).type ≠ 0 →
      (Function.update inodes i ip j).addrs NDIRECT ≠ 0 →
      Function.update d (addrOf d ip (place bn)) x ((Function.update inodes i ip j).addrs NDIRECT) =
        d ((Function.update inodes i ip j).addrs NDIRECT) := by
    intro j hj htj haj
    refine Function.update_of_ne (fun heq => ?_) ..
    have hone := h.owned.once (j, NDIRECT) (i, place bn)
    rw [ref_eq hj htj, addrOf_direct (Nat.le_refl _), hplace] at hone
    exact place_ne bn (Prod.mk.inj (hone haj heq)).2.symm
  refine ⟨h.of_data (fun c hc => isUsed_update hge hc _) hdata, fun j hj => dinode_update hge hj _, rfl,
    fun hfits => hfits, fun k _ => addrOf_congr rfl rfl fun ha => ?_⟩
  have hi' := hdata i hi (by rwa [hself]) (by rwa [hself])
  rwa [hself] at hi'

/-- The copy of the inode goes to the disk at the end. -/
theorem Consistent.settled (h : Consistent sb d' (Function.update (dinode sb d) i ip))
    (hd : ∀ j < sb.islots, dinode sb d' j = dinode sb d j) (hi : i < sb.islots) (hfits : ip.Fits) :
    Consistent sb (iupdate sb d' i ip) (dinode sb (iupdate sb d' i ip)) ∧
      ∀ j < sb.islots, dinode sb (iupdate sb d' i ip) j = if j = i then ip else dinode sb d j := by
  obtain ⟨hused, hdinode, hdata⟩ := iupdate_spec (d := d') hi hfits
  have hinodes : ∀ j < sb.islots, dinode sb (iupdate sb d' i ip) j = if j = i then ip else dinode sb d j := by
    intro j hj
    rw [hdinode j hj, hd j hj]
  refine ⟨?_, hinodes⟩
  have hnew : Consistent sb (iupdate sb d' i ip) (Function.update (dinode sb d) i ip) := by
    refine h.of_data hused fun j hj ht ha => hdata _ ?_
    exact (h.indirect hj ht ha).1
  refine hnew.congr fun j hj => ?_
  rw [hinodes j hj]
  exact (Function.update_apply ..).symm

/-- The inodes on the disk, with one of them as it is. -/
theorem Consistent.open (h : Consistent sb d (dinode sb d)) (i : Nat) :
    Consistent sb d (Function.update (dinode sb d) i (dinode sb d i)) := by
  rw [Function.update_eq_self]
  exact h

/-! ## readi -/

/-- The byte of a file at an offset. -/
def byteAt (d : Disk) (ip : Dinode) (x : Nat) : UInt8 := d (addrOf d ip (place (x / BSIZE))) (x % BSIZE)

/-- A part of a block as bytes of the file. -/
theorem block_bytes {off m : Nat} (hm : m ≤ BSIZE - off % BSIZE) :
    (List.range m).map (fun x => d (addrOf d ip (place (off / BSIZE))) (off % BSIZE + x)) =
      (List.range m).map fun x => byteAt d ip (off + x) := by
  refine List.map_congr_left fun x hx => ?_
  have hx := List.mem_range.mp hx
  have hblock : (off + x) / BSIZE = off / BSIZE := by
    unfold BSIZE at hm ⊢
    omega
  have hoff : (off + x) % BSIZE = off % BSIZE + x := by
    unfold BSIZE at hm ⊢
    omega
  unfold byteAt
  rw [hblock, hoff]

/-- Inside the file the loop of `readi` allocates nothing, and when nothing fails it gives the
bytes of the file. -/
theorem readiLoop_spec {off n : Nat} (h : Consistent sb d (Function.update inodes i ip))
    (hi : i < sb.islots) (ht : ip.type ≠ 0) (hn : off + n ≤ ip.size) (hk : n ≤ k) (copies : List Copy) :
    ∃ data done, readiLoop sb d ip k off n copies = .ok (d, ip, data, done) ∧
      (copies = [] → data = (List.range n).map (fun x => byteAt d ip (off + x)) ∧ done = true) := by
  have hself : Function.update inodes i ip i = ip := Function.update_self ..
  induction k generalizing off n copies with
  | zero =>
    obtain rfl : n = 0 := by omega
    exact ⟨[], true, rfl, fun _ => ⟨rfl, rfl⟩⟩
  | succ k ih =>
    unfold readiLoop
    by_cases hzero : n = 0
    · subst hzero
      exact ⟨[], true, rfl, fun _ => ⟨rfl, rfl⟩⟩
    · rw [if_neg hzero]
      have hbound := h.bounded i hi (by rwa [hself])
      have hcover := h.covered i hi (by rwa [hself]) (off / BSIZE)
      rw [hself] at hbound hcover
      have hthere : addrOf d ip (place (off / BSIZE)) ≠ 0 := by
        refine hcover ?_
        unfold BSIZE
        omega
      have hmax : off / BSIZE < MAXFILE := by
        unfold MAXFILE NDIRECT NINDIRECT BSIZE at *
        omega
      obtain ⟨d', ip', addr, heq, -, -, hfound, -⟩ := bmap_spec h hi ht hmax
      obtain ⟨rfl, rfl, rfl⟩ := hfound hthere
      simp only [heq]
      rw [if_neg hthere]
      have hm : min n (BSIZE - off % BSIZE) ≤ BSIZE - off % BSIZE := Nat.min_le_right ..
      have hmn : min n (BSIZE - off % BSIZE) ≤ n := Nat.min_le_left ..
      have hpos : 0 < min n (BSIZE - off % BSIZE) := by
        unfold BSIZE
        omega
      generalize min n (BSIZE - off % BSIZE) = m at *
      cases hcopy : copies.headD .all with
      | fails j =>
        refine ⟨_, false, rfl, fun hnil => ?_⟩
        rw [hnil] at hcopy
        cases hcopy
      | all =>
        obtain ⟨data, done, hrest, hall⟩ := @ih (off + m) (n - m) (by omega) (by omega) copies.tail
        simp only [hrest]
        refine ⟨_, done, rfl, fun hnil => ?_⟩
        obtain ⟨hdata, hdone⟩ := hall (by rw [hnil]; rfl)
        refine ⟨?_, hdone⟩
        have hsplit : n = m + (n - m) := by omega
        rw [block_bytes hm, hdata, hsplit, List.range_add, List.map_append, List.map_map,
          Nat.add_sub_cancel_left]
        congr 1
        refine List.map_congr_left fun x _ => ?_
        rw [Function.comp_apply, Nat.add_assoc]

/-- `readi` changes neither the disk nor the inode. -/
theorem readi_spec {off n : Nat} (h : Consistent sb d (Function.update inodes i ip))
    (hi : i < sb.islots) (ht : ip.type ≠ 0) (hoff : off < 4294967296) (hn : n < 4294967296)
    (copies : List Copy) :
    ∃ data done, readi sb d ip off n copies = .ok (d, ip, data, done) ∧
      (copies = [] → off + n ≤ ip.size → off + n < 4294967296 →
        data = (List.range n).map (fun x => byteAt d ip (off + x)) ∧ done = true) := by
  unfold readi
  by_cases hout : ip.size < off ∨ uint (off + n) < off
  · rw [if_pos hout]
    refine ⟨[], true, rfl, fun _ hle hlt => ?_⟩
    unfold uint at hout
    omega
  · rw [if_neg hout]
    simp only
    by_cases hlong : ip.size < uint (off + n)
    · rw [if_pos hlong]
      obtain ⟨data, done, heq, -⟩ := readiLoop_spec h hi ht
        (show off + (ip.size - off) ≤ ip.size by omega) (Nat.le_refl _) copies
      refine ⟨data, done, heq, fun _ hle hlt => ?_⟩
      unfold uint at hlong
      omega
    · rw [if_neg hlong]
      have hwrap : uint (off + n) = off + n := by
        unfold uint at hout ⊢
        omega
      rw [hwrap] at hlong
      obtain ⟨data, done, heq, hall⟩ := readiLoop_spec h hi ht (show off + n ≤ ip.size by omega)
        (Nat.le_refl _) copies
      exact ⟨data, done, heq, fun hnil _ _ => hall hnil⟩

/-! ## writei -/

/-- The loop of `writei`: the file has its blocks up to where the loop ends. -/
theorem writeiLoop_spec {off : Nat} {src : List UInt8}
    (h : Consistent sb d (Function.update inodes i ip)) (hi : i < sb.islots) (ht : ip.type ≠ 0)
    (hmax : off + src.length ≤ MAXFILE * BSIZE)
    (hcover : ∀ bn, bn * BSIZE < off → addrOf d ip (place bn) ≠ 0) (copies : List Copy) :
    ∃ d' ip' off', writeiLoop sb d ip k off src copies = .ok (d', ip', off') ∧
      Extends sb inodes i d d' ip ip' ∧ off' ≤ off + src.length ∧
      ∀ bn, bn * BSIZE < off' → addrOf d' ip' (place bn) ≠ 0 := by
  induction k generalizing d ip off src copies with
  | zero => exact ⟨d, ip, off, rfl, .refl h, Nat.le_add_right .., hcover⟩
  | succ k ih =>
    unfold writeiLoop
    by_cases hnil : src = []
    · rw [if_pos hnil]
      exact ⟨d, ip, off, rfl, .refl h, Nat.le_add_right .., hcover⟩
    · rw [if_neg hnil]
      have hlen : 0 < src.length := List.length_pos_of_ne_nil hnil
      have hbn : off / BSIZE < MAXFILE := by
        unfold MAXFILE NDIRECT NINDIRECT BSIZE at *
        omega
      obtain ⟨d₁, ip₁, addr, heq, hext, haddr, -⟩ := bmap_spec h hi ht hbn
      have hcover₁ : ∀ bn, bn * BSIZE < off → addrOf d₁ ip₁ (place bn) ≠ 0 := by
        intro bn hlt
        rw [hext.keeps _ (hcover bn hlt)]
        exact hcover bn hlt
      simp only [heq]
      by_cases hzero : addr = 0
      · rw [if_pos hzero]
        exact ⟨d₁, ip₁, off, rfl, hext, Nat.le_add_right .., hcover₁⟩
      · rw [if_neg hzero, haddr hzero]
        have ht₁ : ip₁.type ≠ 0 := by rwa [hext.type]
        have hthere : addrOf d₁ ip₁ (place (off / BSIZE)) ≠ 0 := by rwa [← haddr hzero]
        have hm : min src.length (BSIZE - off % BSIZE) ≤ BSIZE - off % BSIZE := Nat.min_le_right ..
        have hml : min src.length (BSIZE - off % BSIZE) ≤ src.length := Nat.min_le_left ..
        generalize min src.length (BSIZE - off % BSIZE) = m at *
        cases copies.headD .all with
        | fails j =>
          have hwrite := Extends.write hext.consistent hi ht₁ hthere
            (fill (d₁ (addrOf d₁ ip₁ (place (off / BSIZE)))) (off % BSIZE) (min j m) fun x => src.getD x 0)
          refine ⟨_, ip₁, off, rfl, hext.trans hwrite, Nat.le_add_right .., fun bn hlt => ?_⟩
          rw [hwrite.keeps _ (hcover₁ bn hlt)]
          exact hcover₁ bn hlt
        | all =>
          have hwrite := Extends.write hext.consistent hi ht₁ hthere
            (fill (d₁ (addrOf d₁ ip₁ (place (off / BSIZE)))) (off % BSIZE) m fun x => src.getD x 0)
          have hcover₂ : ∀ bn, bn * BSIZE < off + m → addrOf (Function.update d₁
              (addrOf d₁ ip₁ (place (off / BSIZE)))
              (fill (d₁ (addrOf d₁ ip₁ (place (off / BSIZE)))) (off % BSIZE) m fun x => src.getD x 0))
              ip₁ (place bn) ≠ 0 := by
            intro bn hlt
            have hbefore : addrOf d₁ ip₁ (place bn) ≠ 0 := by
              by_cases hold : bn * BSIZE < off
              · exact hcover₁ bn hold
              · have hsame : bn = off / BSIZE := by
                  unfold BSIZE at *
                  omega
                rw [hsame]
                exact hthere
            rw [hwrite.keeps _ hbefore]
            exact hbefore
          obtain ⟨d', ip', off', hrest, hext', hle, hcover'⟩ := @ih _ _ (off + m) (src.drop m)
            hwrite.consistent ht₁ (by rw [List.length_drop]; omega) hcover₂ copies.tail
          refine ⟨d', ip', off', hrest, (hext.trans hwrite).trans hext', ?_, hcover'⟩
          rw [List.length_drop] at hle
          omega

/-- `writei` keeps the disk consistent, and no other inode is touched. -/
theorem writei_spec {off : Nat} {src : List UInt8} (h : Consistent sb d (dinode sb d))
    (hi : i < sb.islots) (ht : (dinode sb d i).type ≠ 0) (hsrc : src.length < 4294967296)
    (hoff : off < 4294967296) (copies : List Copy) :
    ∃ d' ip' r, writei sb d i (dinode sb d i) off src copies = .ok (d', ip', r) ∧
      Consistent sb d' (dinode sb d') ∧ ip'.type ≠ 0 ∧
      ∀ j < sb.islots, dinode sb d' j = if j = i then ip' else dinode sb d j := by
  have hsame : ∀ j < sb.islots, dinode sb d j = if j = i then dinode sb d i else dinode sb d j := by
    intro j _
    split
    · rename_i heq
      rw [heq]
    · rfl
  unfold writei
  by_cases hout : (dinode sb d i).size < off ∨ uint (off + src.length) < off
  · rw [if_pos hout]
    exact ⟨d, _, none, rfl, h, ht, hsame⟩
  · rw [if_neg hout]
    by_cases hbig : MAXFILE * BSIZE < uint (off + src.length)
    · rw [if_pos hbig]
      exact ⟨d, _, none, rfl, h, ht, hsame⟩
    · rw [if_neg hbig]
      have hwrap : uint (off + src.length) = off + src.length := by
        unfold uint at hout ⊢
        omega
      rw [hwrap] at hbig
      have hcover : ∀ bn, bn * BSIZE < off → addrOf d (dinode sb d i) (place bn) ≠ 0 :=
        fun bn hlt => h.covered i hi ht bn (by omega)
      obtain ⟨d', ip', off', heq, hext, hle, hcover'⟩ := writeiLoop_spec (k := src.length) (h.open i) hi ht
        (Nat.le_of_not_lt hbig) hcover copies
      simp only [heq]
      have ht' : ip'.type ≠ 0 := by rwa [hext.type]
      have hfits := hext.fits (getDinode_fits ..)
      have hmax : MAXFILE * BSIZE = 274432 := rfl
      by_cases hlong : ip'.size < off'
      · rw [if_pos hlong]
        have hsized : Consistent sb d' (Function.update (dinode sb d) i { ip' with size := off' }) := by
          refine hext.consistent.change (fun k => rfl) (fun _ => hcover') fun _ => ?_
          simp only
          omega
        have hfits' : ({ ip' with size := off' } : Dinode).Fits :=
          ⟨hfits.type, hfits.major, hfits.minor, hfits.nlink, by simp only; omega, hfits.addrs, hfits.rest⟩
        obtain ⟨hcons, hinodes⟩ := hsized.settled hext.dinode hi hfits'
        exact ⟨_, _, _, rfl, hcons, ht', hinodes⟩
      · rw [if_neg hlong]
        obtain ⟨hcons, hinodes⟩ := hext.consistent.settled hext.dinode hi hfits
        exact ⟨_, _, _, rfl, hcons, ht', hinodes⟩

/-! ## itrunc -/

/-- The blocks of some places are freed one after the other. -/
theorem bfreeAll_spec {places : Nat × Nat → Nat} {ps : List (Nat × Nat)}
    (h : Owned places (fun b => isUsed sb d b) sb.datastart sb.size) (hps : ps.Nodup) :
    ∃ d', bfreeAll sb d (ps.map places) = .ok d' ∧
      Owned (fun p => if p ∈ ps then 0 else places p) (fun b => isUsed sb d' b) sb.datastart sb.size ∧
      Same sb d d' fun _ => False := by
  induction ps generalizing d places with
  | nil => exact ⟨d, rfl, h.congr (fun p => if_neg (by simp)) fun _ _ => Iff.rfl, .refl d _⟩
  | cons p ps ih =>
    obtain ⟨hp, hps⟩ := List.nodup_cons.mp hps
    rw [List.map_cons, bfreeAll]
    by_cases hzero : places p = 0
    · rw [if_pos hzero]
      obtain ⟨d', heq, howned, hsame⟩ := ih h hps
      refine ⟨d', heq, howned.congr (fun q => ?_) fun _ _ => Iff.rfl, hsame⟩
      by_cases hq : q = p
      · subst hq
        rw [if_pos List.mem_cons_self, if_neg hp, hzero]
      · simp only [List.mem_cons, hq, false_or]
    · rw [if_neg hzero]
      have hrange := h.range p hzero
      obtain ⟨d₁, heq, hused, hsame⟩ := bfree_spec hrange.2 (h.used_ref hzero)
      have howned : Owned (Function.update places p 0) (fun b => isUsed sb d₁ b) sb.datastart sb.size :=
        (h.take hzero).congr (fun _ => rfl) hused
      obtain ⟨d', heq', howned', hsame'⟩ := ih howned hps
      have hrest : ps.map (Function.update places p 0) = ps.map places := by
        refine List.map_congr_left fun q hq => Function.update_of_ne ?_ ..
        rintro rfl
        exact hp hq
      rw [hrest] at heq'
      simp only [heq]
      refine ⟨d', heq', howned'.congr (fun q => ?_) fun _ _ => Iff.rfl, ?_⟩
      · by_cases hq : q = p
        · subst hq
          rw [if_pos List.mem_cons_self, Function.update_self, ite_self]
        · simp only [List.mem_cons, hq, false_or, ne_eq, not_false_eq_true, Function.update_of_ne]
      · refine ⟨fun j hj => (hsame'.dinode j hj).trans (hsame.dinode j hj), fun c hc hno => ?_⟩
        exact (hsame'.data c hc hno).trans (hsame.data c hc hno)

/-- The places of an inode, in the order in which `itrunc` frees them. -/
def direct (i : Nat) : List (Nat × Nat) := (List.range NDIRECT).map fun k => (i, k)

def entries (i : Nat) : List (Nat × Nat) := (List.range NINDIRECT).map fun e => (i, NDIRECT + 1 + e)

theorem mem_direct {p : Nat × Nat} : p ∈ direct i ↔ p.1 = i ∧ p.2 < NDIRECT := by
  unfold direct
  rw [List.mem_map]
  constructor
  · rintro ⟨k, hk, rfl⟩
    exact ⟨rfl, List.mem_range.mp hk⟩
  · rintro ⟨rfl, hk⟩
    exact ⟨p.2, List.mem_range.mpr hk, rfl⟩

theorem mem_entries {p : Nat × Nat} :
    p ∈ entries i ↔ p.1 = i ∧ NDIRECT < p.2 ∧ p.2 - (NDIRECT + 1) < NINDIRECT := by
  unfold entries
  rw [List.mem_map]
  constructor
  · rintro ⟨e, he, rfl⟩
    have he := List.mem_range.mp he
    exact ⟨rfl, by simp only; omega, by simp only; omega⟩
  · rintro ⟨rfl, hgt, hlt⟩
    refine ⟨p.2 - (NDIRECT + 1), List.mem_range.mpr hlt, ?_⟩
    have heq : NDIRECT + 1 + (p.2 - (NDIRECT + 1)) = p.2 := by omega
    rw [heq]

theorem nodup_direct (i : Nat) : (direct i).Nodup :=
  List.Pairwise.map _ (fun _ _ hne h => hne (Prod.mk.inj h).2) List.nodup_range

theorem nodup_entries (i : Nat) : (entries i).Nodup :=
  List.Pairwise.map _ (fun _ _ hne h => hne (Nat.add_left_cancel (Prod.mk.inj h).2)) List.nodup_range

theorem addrOf_empty (h : ∀ k, ip.addrs k = 0) (k : Nat) : addrOf d ip k = 0 := by
  unfold addrOf
  rw [h k, h NDIRECT, if_neg (c := _ ∧ _) (by simp), ite_self]

/-- An inode has given all its blocks back. -/
theorem Consistent.emptied {places : Nat × Nat → Nat} (h : Consistent sb d inodes)
    (howned : Owned places (fun b => isUsed sb d' b) sb.datastart sb.size)
    (hplaces : ∀ p, places p = if p.1 = i then 0 else ref sb d inodes p)
    (hsame : Same sb d d' fun _ => False) (haddrs : ∀ k, ip.addrs k = 0) (hsize : ip.size = 0) :
    Consistent sb d' (Function.update inodes i ip) := by
  have hself : Function.update inodes i ip i = ip := Function.update_self ..
  have hother : ∀ j : Nat, j ≠ i → Function.update inodes i ip j = inodes j :=
    fun j hj => Function.update_of_ne hj ..
  have haddr : ∀ j < sb.islots, (inodes j).type ≠ 0 → ∀ k, addrOf d' (inodes j) k = addrOf d (inodes j) k :=
    fun j hj ht k => addrOf_congr rfl rfl fun ha => hsame.data _ (h.indirect hj ht ha).1 fun h => h
  have hempty : ∀ k, addrOf d' ip k = 0 := addrOf_empty haddrs
  refine ⟨howned.congr (fun p => ?_) fun _ _ => Iff.rfl, fun j hj ht bn hbn => ?_, fun j hj ht => ?_⟩
  · rw [hplaces p]
    unfold ref
    by_cases hp : p.1 = i
    · rw [if_pos hp, hp, hself, hempty, ite_self]
    · rw [if_neg hp, hother _ hp]
      by_cases hj : p.1 < sb.islots ∧ (inodes p.1).type ≠ 0
      · rw [if_pos hj, if_pos hj, haddr _ hj.1 hj.2]
      · rw [if_neg hj, if_neg hj]
  · by_cases hji : j = i
    · subst hji
      rw [hself, hsize] at hbn
      omega
    · rw [hother j hji] at hbn ht ⊢
      rw [haddr j hj ht]
      exact h.covered j hj ht bn hbn
  · by_cases hji : j = i
    · subst hji
      rw [hself, hsize]
      exact Nat.zero_le _
    · rw [hother j hji] at ht ⊢
      exact h.bounded j hj ht

/-- The second half: the entries of the indirect block and the block itself. -/
theorem bfreeIndirect_spec {places : Nat × Nat → Nat} {a : Nat}
    (h : Owned places (fun b => isUsed sb d b) sb.datastart sb.size) (ha : a ≠ 0)
    (hat : places (i, NDIRECT) = a) (hentries : indirect d a = (entries i).map places) :
    ∃ d', bfreeIndirect sb d a = .ok d' ∧
      Owned (fun p => if p = (i, NDIRECT) ∨ p ∈ entries i then 0 else places p)
        (fun b => isUsed sb d' b) sb.datastart sb.size ∧
      Same sb d d' fun _ => False := by
  obtain ⟨d₁, heq₁, howned₁, hsame₁⟩ := bfreeAll_spec h (nodup_entries i)
  have hnot : (i, NDIRECT) ∉ entries i := fun hmem => Nat.lt_irrefl _ (mem_entries.mp hmem).2.1
  unfold bfreeIndirect
  rw [if_neg ha, hentries, heq₁]
  simp only
  generalize hplaces : (fun p => if p ∈ entries i then 0 else places p) = places₁ at howned₁
  have hself : places₁ (i, NDIRECT) = a := by
    rw [← hplaces, ← hat]
    exact if_neg hnot
  have hne : places₁ (i, NDIRECT) ≠ 0 := by rwa [hself]
  have hused := howned₁.used_ref hne
  have hrange := (howned₁.range _ hne).2
  rw [hself] at hused hrange
  obtain ⟨d₂, heq₂, hused₂, hsame₂⟩ := bfree_spec hrange hused
  refine ⟨d₂, heq₂, (howned₁.take hne).congr (fun p => ?_) fun c hc => ?_, fun j hj => ?_, fun c hc hno => ?_⟩
  · by_cases hp : p = (i, NDIRECT)
    · rw [if_pos (Or.inl hp), hp, Function.update_self]
    · rw [Function.update_of_ne hp, ← hplaces]
      simp only [hp, false_or]
  · rw [hself]
    exact hused₂ c hc
  · rw [hsame₂.dinode j hj, hsame₁.dinode j hj]
  · rw [hsame₂.data c hc hno, hsame₁.data c hc hno]

theorem itrunc_eq {d₁ d₂ : Disk} (h₁ : bfreeAll sb d ((List.range NDIRECT).map ip.addrs) = .ok d₁)
    (h₂ : bfreeIndirect sb d₁ (ip.addrs NDIRECT) = .ok d₂) :
    itrunc sb d i ip = .ok (iupdate sb d₂ i { ip with addrs := fun _ => 0, size := 0 },
      { ip with addrs := fun _ => 0, size := 0 }) := by
  unfold itrunc
  rw [h₁]
  simp only
  rw [h₂]

/-- `itrunc` never finds a block free that it frees. -/
theorem itrunc_spec (h : Consistent sb d (dinode sb d)) (hi : i < sb.islots)
    (ht : (dinode sb d i).type ≠ 0) :
    ∃ d', itrunc sb d i (dinode sb d i) =
        .ok (iupdate sb d' i { dinode sb d i with addrs := fun _ => 0, size := 0 },
          { dinode sb d i with addrs := fun _ => 0, size := 0 }) ∧
      Consistent sb d' (Function.update (dinode sb d) i
        { dinode sb d i with addrs := fun _ => 0, size := 0 }) ∧
      Same sb d d' fun _ => False := by
  have hdirect : (List.range NDIRECT).map (dinode sb d i).addrs =
      (direct i).map (ref sb d (dinode sb d)) := by
    unfold direct
    rw [List.map_map]
    refine List.map_congr_left fun k hk => ?_
    have hk := List.mem_range.mp hk
    rw [Function.comp_apply, ref_eq hi ht, addrOf_direct (Nat.le_of_lt hk)]
  have hnot : ∀ k, NDIRECT ≤ k → (i, k) ∉ direct i := fun k hk hmem =>
    Nat.not_lt.mpr hk (mem_direct.mp hmem).2
  obtain ⟨d₁, heq₁, howned₁, hsame₁⟩ := bfreeAll_spec h.owned (nodup_direct i)
  generalize hplaces : (fun p => if p ∈ direct i then 0 else ref sb d (dinode sb d) p) = places at howned₁
  have hat : ∀ k, NDIRECT ≤ k → places (i, k) = addrOf d (dinode sb d i) k := by
    intro k hk
    rw [← hplaces, ← ref_eq hi ht]
    exact if_neg (hnot k hk)
  have hearly : ∀ k, k < NDIRECT → places (i, k) = 0 := by
    intro k hk
    rw [← hplaces]
    exact if_pos (mem_direct.mpr ⟨rfl, hk⟩)
  have hother : ∀ p, p.1 ≠ i → places p = ref sb d (dinode sb d) p := by
    intro p hp
    rw [← hplaces]
    exact if_neg fun hmem => hp (mem_direct.mp hmem).1
  rw [← hdirect] at heq₁
  by_cases hzero : (dinode sb d i).addrs NDIRECT = 0
  · have hnone : ∀ k, NDIRECT ≤ k → addrOf d (dinode sb d i) k = 0 := by
      intro k hk
      unfold addrOf
      by_cases hle : k ≤ NDIRECT
      · rw [if_pos hle, Nat.le_antisymm hle hk, hzero]
      · rw [if_neg hle, if_neg fun h => h.1 hzero]
    have hskip : bfreeIndirect sb d₁ ((dinode sb d i).addrs NDIRECT) = .ok d₁ := by
      unfold bfreeIndirect
      rw [if_pos hzero]
    refine ⟨d₁, itrunc_eq heq₁ hskip, h.emptied howned₁ (fun p => ?_) hsame₁ (fun _ => rfl) rfl, hsame₁⟩
    obtain ⟨j, k⟩ := p
    by_cases hp : j = i
    · subst hp
      rw [if_pos rfl]
      by_cases hk : k < NDIRECT
      · exact hearly k hk
      · rw [hat k (Nat.le_of_not_lt hk), hnone k (Nat.le_of_not_lt hk)]
    · rw [if_neg hp]
      exact hother _ hp
  · have hind := h.indirect hi ht hzero
    have hentries : indirect d₁ ((dinode sb d i).addrs NDIRECT) = (entries i).map places := by
      unfold indirect entries
      rw [List.map_map, hsame₁.data _ hind.1 fun h => h]
      refine List.map_congr_left fun e he => ?_
      have he := List.mem_range.mp he
      rw [Function.comp_apply, hat _ (by omega), addrOf_entry hzero he]
    have hself : places (i, NDIRECT) = (dinode sb d i).addrs NDIRECT := by
      rw [hat _ (Nat.le_refl _), addrOf_direct (Nat.le_refl _)]
    obtain ⟨d₂, heq₂, howned₂, hsame₂⟩ := bfreeIndirect_spec howned₁ hzero hself hentries
    have hsame : Same sb d d₂ fun _ => False :=
      ⟨fun j hj => (hsame₂.dinode j hj).trans (hsame₁.dinode j hj),
        fun c hc hno => (hsame₂.data c hc hno).trans (hsame₁.data c hc hno)⟩
    refine ⟨d₂, itrunc_eq heq₁ heq₂, h.emptied howned₂ (fun p => ?_) hsame (fun _ => rfl) rfl, hsame⟩
    obtain ⟨j, k⟩ := p
    by_cases hp : j = i
    · subst hp
      rw [if_pos rfl]
      by_cases hgone : (j, k) = (j, NDIRECT) ∨ (j, k) ∈ entries j
      · rw [if_pos hgone]
      · rw [if_neg hgone]
        by_cases hk : k < NDIRECT
        · exact hearly k hk
        · have hgt : NDIRECT < k := by
            refine Nat.lt_of_le_of_ne (Nat.le_of_not_lt hk) fun heq => hgone (Or.inl ?_)
            rw [heq]
          rw [hat k (Nat.le_of_lt hgt)]
          unfold addrOf
          rw [if_neg (Nat.not_le.mpr hgt), if_neg]
          exact fun h => hgone (Or.inr (mem_entries.mpr ⟨rfl, hgt, h.2⟩))
    · have hout : ¬ ((j, k) = (i, NDIRECT) ∨ (j, k) ∈ entries i) := by
        rintro (heq | hmem)
        · exact hp (Prod.mk.inj heq).1
        · exact hp (mem_entries.mp hmem).1
      rw [if_neg hp, if_neg hout]
      exact hother _ hp

/-! ## The inode table -/

variable {s s' : State} {e : Nat}

/-- The disk is consistent, and the entries of the table agree with it. -/
structure Sound (sb : Superblock) (s : State) : Prop where
  disk : Consistent sb s.disk (dinode sb s.disk)
  entry : ∀ e, 0 < (s.itable e).ref → e < NINODE
  inum : ∀ e, 0 < (s.itable e).ref → (s.itable e).inum < sb.islots
  once : ∀ e e', 0 < (s.itable e).ref → 0 < (s.itable e').ref →
    (s.itable e).inum = (s.itable e').inum → e = e'
  copy : ∀ e, 0 < (s.itable e).ref → (s.itable e).valid = true →
    (s.itable e).copy = dinode sb s.disk (s.itable e).inum ∧ (s.itable e).copy.type ≠ 0

/-- A call changes the inode of an entry, on the disk and in the table. -/
theorem Sound.change (h : Sound sb s) (he : 0 < (s.itable e).ref)
    (hd : Consistent sb d' (dinode sb d'))
    (hinodes : ∀ j < sb.islots,
      dinode sb d' j = if j = (s.itable e).inum then ip else dinode sb s.disk j)
    {x : Inode} (hinum : x.inum = (s.itable e).inum)
    (hcopy : 0 < x.ref → x.valid = true → x.copy = ip ∧ ip.type ≠ 0) :
    Sound sb ({ s with disk := d' }.set e x) := by
  have hself : ({ s with disk := d' }.set e x).itable e = x := Function.update_self ..
  have hother : ∀ e', e' ≠ e → ({ s with disk := d' }.set e x).itable e' = s.itable e' :=
    fun e' hne => Function.update_of_ne hne ..
  have hi := h.inum e he
  have hback : ∀ e', 0 < (({ s with disk := d' }.set e x).itable e').ref →
      0 < (s.itable e').ref ∧ (({ s with disk := d' }.set e x).itable e').inum = (s.itable e').inum := by
    intro e' he'
    by_cases hee : e' = e
    · subst hee
      exact ⟨he, by rw [hself, hinum]⟩
    · rw [hother e' hee] at he' ⊢
      exact ⟨he', rfl⟩
  refine ⟨hd, fun e' he' => ?_, fun e' he' => ?_, fun e₁ e₂ h₁ h₂ heq => ?_, fun e' he' hv => ?_⟩
  · exact h.entry e' (hback e' he').1
  · rw [(hback e' he').2]
    exact h.inum e' (hback e' he').1
  · rw [(hback e₁ h₁).2, (hback e₂ h₂).2] at heq
    exact h.once e₁ e₂ (hback e₁ h₁).1 (hback e₂ h₂).1 heq
  · change _ = dinode sb d' _ ∧ _
    by_cases hee : e' = e
    · subst hee
      rw [hself] at he' hv ⊢
      obtain ⟨hc, ht⟩ := hcopy he' hv
      rw [hc, hinum, hinodes _ hi, if_pos rfl]
      exact ⟨rfl, ht⟩
    · rw [hother e' hee] at he' hv ⊢
      have hne : (s.itable e').inum ≠ (s.itable e).inum := fun heq => hee (h.once e' e he' he heq)
      rw [hinodes _ (h.inum e' he'), if_neg hne]
      exact h.copy e' he' hv

/-- Only the table changes. -/
theorem Sound.set (h : Sound sb s) (he : 0 < (s.itable e).ref) {x : Inode}
    (hinum : x.inum = (s.itable e).inum)
    (hcopy : 0 < x.ref → x.valid = true →
      x.copy = dinode sb s.disk (s.itable e).inum ∧ (dinode sb s.disk (s.itable e).inum).type ≠ 0) :
    Sound sb (s.set e x) := by
  refine h.change he h.disk (fun j _ => ?_) hinum hcopy
  split
  · rename_i heq
    rw [heq]
  · rfl

theorem Sound.held (h : Sound sb s) (he : s.held e) : (s.itable e).inum < sb.islots ∧
    (s.itable e).copy = dinode sb s.disk (s.itable e).inum ∧
    (dinode sb s.disk (s.itable e).inum).type ≠ 0 := by
  obtain ⟨hcopy, htype⟩ := h.copy e he.2.1 he.2.2
  rw [hcopy] at htype
  exact ⟨h.inum e he.2.1, hcopy, htype⟩

theorem Sound.iget (h : Sound sb s) (hi : i < sb.islots) :
    fs.iget s i = .error .igetNoInodes ∨ ∃ s' e, fs.iget s i = .ok (s', e) ∧ Sound sb s' ∧
      s'.panicked = s.panicked := by
  unfold fs.iget
  split
  · rename_i e hfind
    have hfound := List.find?_some hfind
    simp only [decide_eq_true_eq] at hfound
    refine Or.inr ⟨_, e, rfl, h.set hfound.1 rfl fun _ hv => ?_, rfl⟩
    obtain ⟨hcopy, htype⟩ := h.copy e hfound.1 hv
    exact ⟨hcopy, hcopy ▸ htype⟩
  · rename_i hnone
    split
    · exact Or.inl rfl
    · rename_i e hfind
      have he : e < NINODE := List.mem_range.mp (List.mem_of_find?_eq_some hfind)
      refine Or.inr ⟨_, e, rfl, ?_, rfl⟩
      -- no entry has the inode yet
      have hfresh : ∀ e', 0 < (s.itable e').ref → (s.itable e').inum ≠ i := by
        intro e' he' heq
        have hno := List.find?_eq_none.mp hnone e' (List.mem_range.mpr (h.entry e' he'))
        exact hno (by simp [he', heq])
      have hself : (s.set e { s.itable e with inum := i, ref := 1, valid := false }).itable e =
          { s.itable e with inum := i, ref := 1, valid := false } := Function.update_self ..
      have hother : ∀ e', e' ≠ e →
          (s.set e { s.itable e with inum := i, ref := 1, valid := false }).itable e' = s.itable e' :=
        fun e' hne => Function.update_of_ne hne ..
      refine ⟨h.disk, fun e' he' => ?_, fun e' he' => ?_, fun e₁ e₂ h₁ h₂ heq => ?_, fun e' he' hv => ?_⟩
      · by_cases hee : e' = e
        · exact hee ▸ he
        · rw [hother e' hee] at he'
          exact h.entry e' he'
      · by_cases hee : e' = e
        · subst hee
          rw [hself]
          exact hi
        · rw [hother e' hee] at he' ⊢
          exact h.inum e' he'
      · by_cases h1 : e₁ = e <;> by_cases h2 : e₂ = e
        · rw [h1, h2]
        · subst h1
          rw [hself, hother e₂ h2] at heq
          rw [hother e₂ h2] at h₂
          exact absurd heq.symm (hfresh e₂ h₂)
        · subst h2
          rw [hself, hother e₁ h1] at heq
          rw [hother e₁ h1] at h₁
          exact absurd heq (hfresh e₁ h₁)
        · rw [hother e₁ h1] at h₁ heq
          rw [hother e₂ h2] at h₂ heq
          exact h.once e₁ e₂ h₁ h₂ heq
      · by_cases hee : e' = e
        · subst hee
          rw [hself] at hv
          cases hv
        · rw [hother e' hee] at he' hv ⊢
          exact h.copy e' he' hv

/-- The disk changes where no entry of the table has a copy. -/
theorem Sound.of_disk (h : Sound sb s) (hd : Consistent sb d' (dinode sb d'))
    (hcopies : ∀ e, 0 < (s.itable e).ref → (s.itable e).valid = true →
      dinode sb d' (s.itable e).inum = dinode sb s.disk (s.itable e).inum) :
    Sound sb { s with disk := d' } where
  disk := hd
  entry := h.entry
  inum := h.inum
  once := h.once
  copy e he hv := by
    change _ = dinode sb d' _ ∧ _
    rw [hcopies e he hv]
    exact h.copy e he hv

/-- An inode that was free has no blocks, and no entry has a copy of it. -/
theorem Sound.ialloc {type : Nat} (h : Sound sb s) (htype : type < 65536) :
    fs.ialloc sb s type = .error .igetNoInodes ∨ ∃ s' r, fs.ialloc sb s type = .ok (s', r) ∧
      Sound sb s' ∧ s'.panicked = s.panicked := by
  unfold fs.ialloc
  split
  · exact Or.inr ⟨s, none, rfl, h, rfl⟩
  · rename_i i hfind
    have hfound := List.find?_some hfind
    simp only [decide_eq_true_eq] at hfound
    have hi : i < sb.islots :=
      Nat.lt_of_lt_of_le (List.mem_range.mp (List.mem_of_find?_eq_some hfind)) sb.inodes_fit
    have hempty : ∀ k, addrOf s.disk { Dinode.free with type } k = 0 := addrOf_empty fun _ => rfl
    have hnew : Consistent sb s.disk
        (Function.update (dinode sb s.disk) i { Dinode.free with type }) := by
      refine (h.disk.open i).change (fun k => ?_) (fun _ bn hbn => ?_) fun _ => Nat.zero_le _
      · rw [hempty, ite_self, if_neg fun hne => hne hfound.2]
      · exact absurd hbn (Nat.not_lt_zero _)
    have hfits : ({ Dinode.free with type } : Dinode).Fits :=
      ⟨htype, Nat.zero_lt_succ _, Nat.zero_lt_succ _, Nat.zero_lt_succ _, Nat.zero_lt_succ _,
        fun _ => Nat.zero_lt_succ _, fun _ _ => rfl⟩
    obtain ⟨hd, hinodes⟩ := hnew.settled (fun _ _ => rfl) hi hfits
    have hsound : Sound sb { s with disk := iupdate sb s.disk i { Dinode.free with type } } := by
      refine h.of_disk hd fun e he hv => ?_
      obtain ⟨hcopy, hne⟩ := h.copy e he hv
      rw [hinodes _ (h.inum e he), if_neg]
      intro heq
      rw [hcopy, heq] at hne
      exact hne hfound.2
    rcases hsound.iget hi with herror | ⟨s', e, heq, hs', hp⟩
    · rw [herror]
      exact Or.inl rfl
    · rw [heq]
      exact Or.inr ⟨s', some e, rfl, hs', hp⟩

theorem Sound.ilock (h : Sound sb s) (he : 0 < (s.itable e).ref) :
    fs.ilock sb s e = .error .ilockNoType ∨ ∃ s', fs.ilock sb s e = .ok s' ∧ Sound sb s' ∧
      s'.panicked = s.panicked := by
  unfold fs.ilock
  by_cases hv : (s.itable e).valid = true
  · exact Or.inr ⟨s, if_pos hv, h, rfl⟩
  · simp only [if_neg hv]
    by_cases htype : (dinode sb s.disk (s.itable e).inum).type = 0
    · exact Or.inl (if_pos htype)
    · exact Or.inr ⟨_, if_neg htype, h.set he rfl fun _ _ => ⟨rfl, htype⟩, rfl⟩

/-- The last reference to an inode without a name: its blocks and the inode are free. -/
theorem Sound.iput (h : Sound sb s) (he : 0 < (s.itable e).ref) :
    ∃ s', fs.iput sb s e = .ok s' ∧ Sound sb s' ∧ s'.panicked = s.panicked := by
  unfold fs.iput
  simp only
  by_cases hlast : (s.itable e).ref = 1 ∧ (s.itable e).valid = true ∧ (s.itable e).copy.nlink = 0
  · rw [if_pos hlast]
    have hi := h.inum e he
    obtain ⟨hcopy, htype⟩ := h.copy e he hlast.2.1
    rw [hcopy] at htype ⊢
    obtain ⟨d₁, heq, hcons, hsame⟩ := itrunc_spec h.disk hi htype
    have hfits : (dinode sb s.disk (s.itable e).inum).Fits := getDinode_fits ..
    have hfits₁ := hfits.emptied
    generalize hip : ({ dinode sb s.disk (s.itable e).inum with addrs := fun _ => 0, size := 0 } : Dinode) =
      ip₁ at heq hcons hfits₁
    rw [heq]
    simp only
    obtain ⟨hd₁, hinodes₁⟩ := hcons.settled hsame.dinode hi hfits₁
    have hempty : ∀ k, ip₁.addrs k = 0 := fun k => by rw [← hip]
    have hself : dinode sb (iupdate sb d₁ (s.itable e).inum ip₁) (s.itable e).inum = ip₁ := by
      rw [hinodes₁ _ hi, if_pos rfl]
    -- a free inode refers to nothing
    have hfree : Consistent sb (iupdate sb d₁ (s.itable e).inum ip₁) (Function.update
        (dinode sb (iupdate sb d₁ (s.itable e).inum ip₁)) (s.itable e).inum { ip₁ with type := 0 }) := by
      refine (hd₁.open (s.itable e).inum).change (fun k => ?_) (fun hne => absurd rfl hne)
        fun hne => absurd rfl hne
      rw [hself, addrOf_empty hempty, ite_self, if_neg fun hne => hne rfl]
    have hfits₂ : ({ ip₁ with type := 0 } : Dinode).Fits :=
      ⟨Nat.zero_lt_succ _, hfits₁.major, hfits₁.minor, hfits₁.nlink, hfits₁.size, hfits₁.addrs, hfits₁.rest⟩
    obtain ⟨hd₂, hinodes₂⟩ := hfree.settled (fun _ _ => rfl) hi hfits₂
    have hinodes : ∀ j < sb.islots, dinode sb (iupdate sb (iupdate sb d₁ (s.itable e).inum ip₁)
        (s.itable e).inum { ip₁ with type := 0 }) j =
          if j = (s.itable e).inum then { ip₁ with type := 0 } else dinode sb s.disk j := by
      intro j hj
      rw [hinodes₂ j hj, hinodes₁ j hj]
      by_cases hji : j = (s.itable e).inum
      · rw [if_pos hji, if_pos hji]
      · rw [if_neg hji, if_neg hji, if_neg hji]
    exact ⟨_, rfl, h.change he hd₂ hinodes rfl fun _ hv => absurd hv Bool.false_ne_true, rfl⟩
  · rw [if_neg hlast]
    refine ⟨_, rfl, h.set he rfl fun _ hv => ?_, rfl⟩
    obtain ⟨hcopy, htype⟩ := h.copy e he hv
    exact ⟨hcopy, hcopy ▸ htype⟩

theorem Sound.relink {major minor nlink : Nat} (h : Sound sb s) (he : s.held e)
    (hmajor : major < 65536) (hminor : minor < 65536) (hnlink : nlink < 65536)
    (hip : ip = { (s.itable e).copy with major, minor, nlink }) :
    Sound sb ({ s with disk := iupdate sb s.disk (s.itable e).inum ip }.set e
      { s.itable e with copy := ip }) := by
  obtain ⟨hi, hcopy, htype⟩ := h.held he
  rw [hcopy] at hip
  subst hip
  have hnew : Consistent sb s.disk (Function.update (dinode sb s.disk) (s.itable e).inum
      { dinode sb s.disk (s.itable e).inum with major, minor, nlink }) :=
    (h.disk.open _).change (fun _ => rfl) (h.disk.covered _ hi) (h.disk.bounded _ hi)
  have hfits : (dinode sb s.disk (s.itable e).inum).Fits := getDinode_fits ..
  obtain ⟨hd, hinodes⟩ := hnew.settled (fun _ _ => rfl) hi
    ⟨hfits.type, hmajor, hminor, hnlink, hfits.size, hfits.addrs, hfits.rest⟩
  exact h.change he.2.1 hd hinodes rfl fun _ _ => ⟨rfl, htype⟩

/-! ## Runs -/

/-- The state is sound, and no panic says that the blocks are wrong. -/
def Safe (sb : Superblock) (s : State) : Prop :=
  Sound sb s ∧ s.panicked ≠ some .freeingFreeBlock ∧ s.panicked ≠ some .bmapOutOfRange

theorem Sound.safe (h : Sound sb s) (hp : s.panicked = none) : Safe sb s := by
  refine ⟨h, ?_, ?_⟩ <;> rw [hp] <;> decide

theorem Sound.panic {p : Panic} (h : Sound sb s) (h1 : p ≠ .freeingFreeBlock) (h2 : p ≠ .bmapOutOfRange) :
    Safe sb { s with panicked := some p } :=
  ⟨⟨h.disk, h.entry, h.inum, h.once, h.copy⟩, fun heq => h1 (Option.some.inj heq),
    fun heq => h2 (Option.some.inj heq)⟩

theorem Safe.step {a : Act} (h : Safe sb s) (hs : s.step sb a = some s') : Safe sb s' := by
  obtain ⟨h, -, -⟩ := h
  unfold State.step at hs
  by_cases hp : s.panicked = none
  · rw [if_neg (not_not.mpr hp)] at hs
    cases a with
    | ialloc type =>
      obtain ⟨⟨hpos, htype⟩, heq⟩ := Option.ite_none_right_eq_some.mp hs
      obtain rfl := Option.some.inj heq
      rcases h.ialloc htype with hr | ⟨s', r, hr, hsound, hp'⟩
      · rw [hr]
        exact h.panic (by decide) (by decide)
      · rw [hr]
        exact hsound.safe (hp'.trans hp)
    | iget i =>
      obtain ⟨hi, heq⟩ := Option.ite_none_right_eq_some.mp hs
      obtain rfl := Option.some.inj heq
      rcases h.iget hi with hr | ⟨s', e, hr, hsound, hp'⟩
      · rw [hr]
        exact h.panic (by decide) (by decide)
      · rw [hr]
        exact hsound.safe (hp'.trans hp)
    | idup e =>
      obtain ⟨⟨-, he⟩, heq⟩ := Option.ite_none_right_eq_some.mp hs
      obtain rfl := Option.some.inj heq
      refine Sound.safe (h.set he rfl fun _ hv => ?_) hp
      obtain ⟨hcopy, htype⟩ := h.copy e he hv
      exact ⟨hcopy, hcopy ▸ htype⟩
    | ilock e =>
      obtain ⟨⟨-, he⟩, heq⟩ := Option.ite_none_right_eq_some.mp hs
      obtain rfl := Option.some.inj heq
      rcases h.ilock he with hr | ⟨s', hr, hsound, hp'⟩
      · rw [hr]
        exact h.panic (by decide) (by decide)
      · rw [hr]
        exact hsound.safe (hp'.trans hp)
    | relink e major minor nlink =>
      obtain ⟨⟨he, hmajor, hminor, hnlink⟩, heq⟩ := Option.ite_none_right_eq_some.mp hs
      obtain rfl := Option.some.inj heq
      exact (h.relink he hmajor hminor hnlink rfl).safe hp
    | readi e off n copies =>
      obtain ⟨⟨he, hoff, hn⟩, heq⟩ := Option.ite_none_right_eq_some.mp hs
      obtain rfl := Option.some.inj heq
      obtain ⟨hi, hcopy, htype⟩ := h.held he
      obtain ⟨data, done, hr, -⟩ := readi_spec (h.disk.open _) hi htype hoff hn copies
      simp only [hcopy, hr]
      exact Sound.safe (h.set he.2.1 rfl fun _ _ => ⟨rfl, htype⟩) hp
    | writei e off src copies =>
      obtain ⟨⟨he, hoff, hn⟩, heq⟩ := Option.ite_none_right_eq_some.mp hs
      obtain rfl := Option.some.inj heq
      obtain ⟨hi, hcopy, htype⟩ := h.held he
      obtain ⟨d', ip', r, hr, hd, htype', hinodes⟩ := writei_spec h.disk hi htype hn hoff copies
      simp only [hcopy, hr]
      exact Sound.safe (h.change he.2.1 hd hinodes rfl fun _ _ => ⟨rfl, htype'⟩) hp
    | itrunc e =>
      obtain ⟨he, heq⟩ := Option.ite_none_right_eq_some.mp hs
      obtain rfl := Option.some.inj heq
      obtain ⟨hi, hcopy, htype⟩ := h.held he
      obtain ⟨d', hr, hcons, hsame⟩ := itrunc_spec h.disk hi htype
      have hfits : (dinode sb s.disk (s.itable e).inum).Fits := getDinode_fits ..
      obtain ⟨hd, hinodes⟩ := hcons.settled hsame.dinode hi hfits.emptied
      simp only [hcopy, hr]
      exact Sound.safe (h.change he.2.1 hd hinodes rfl fun _ _ => ⟨rfl, htype⟩) hp
    | iput e =>
      obtain ⟨⟨-, he⟩, heq⟩ := Option.ite_none_right_eq_some.mp hs
      obtain rfl := Option.some.inj heq
      obtain ⟨s', hr, hsound, hp'⟩ := h.iput he
      rw [hr]
      exact hsound.safe (hp'.trans hp)
  · rw [if_pos hp] at hs
    cases hs

theorem safe_run {as : List Act} (hd : Consistent sb d (dinode sb d))
    (hrun : Run (State.step sb) anyStep (State.start d) as s) : Safe sb s := by
  have hstart : Safe sb (State.start d) := by
    refine Sound.safe ⟨hd, fun e he => ?_, fun e he => ?_, fun e _ he => ?_, fun e he => ?_⟩ rfl
    all_goals exact absurd he (Nat.lt_irrefl 0)
  exact hrun.invariant hstart fun _ _ _ h _ hs => h.step hs

/-- In every state that calls reach from a consistent disk, the blocks are owned as the free map
says, `bfree` has not panicked, and reading from an inode changes nothing. -/
theorem blocks_have_one_owner {as : List Act} (hd : Consistent sb d (dinode sb d))
    (hrun : Run (State.step sb) anyStep (State.start d) as s) :
    Consistent sb s.disk (dinode sb s.disk) ∧
      s.panicked ≠ some .freeingFreeBlock ∧ s.panicked ≠ some .bmapOutOfRange ∧
      ∀ e off n copies, s.held e → off < 4294967296 → n < 4294967296 →
        ∃ data done, readi sb s.disk (s.itable e).copy off n copies =
          .ok (s.disk, (s.itable e).copy, data, done) := by
  obtain ⟨hsound, hfree, hbmap⟩ := safe_run hd hrun
  refine ⟨hsound.disk, hfree, hbmap, fun e off n copies he hoff hn => ?_⟩
  obtain ⟨hi, hcopy, htype⟩ := hsound.held he
  obtain ⟨data, done, hr, -⟩ := readi_spec (hsound.disk.open _) hi htype hoff hn copies
  rw [hcopy]
  exact ⟨data, done, hr⟩

/-- A disk without files. -/
theorem consistent_of_free (hfree : ∀ i < sb.islots, (inodes i).type = 0)
    (hused : ∀ b < sb.size, isUsed sb d b ↔ b < sb.datastart) : Consistent sb d inodes := by
  have href : ∀ p, ref sb d inodes p = 0 := fun p => if_neg fun h => h.2 (hfree p.1 h.1)
  refine ⟨⟨fun p hp => absurd (href p) hp, fun p _ hp => absurd (href p) hp, fun b hb => ?_⟩,
    fun i hi ht => absurd (hfree i hi) ht, fun i hi ht => absurd (hfree i hi) ht⟩
  rw [hused b hb]
  refine (or_iff_left ?_).symm
  rintro ⟨p, hp, hne⟩
  exact hne (hp.symm.trans (href p))

/-- Eight blocks: one of inodes, the free map, and five for data. -/
def eightBlocks : Superblock :=
  ⟨8, 16, 1, 2, by decide, by decide, by decide, by decide⟩

def noFiles : Disk := fun b => if b = 2 then fun k => if k = 0 then 7 else 0 else fun _ => 0

/-- A file takes a block, a write fails with the user's buffer, and the file goes. -/
def shortLife : List Act :=
  [.ialloc 2, .ilock 0, .writei 0 0 [1, 2, 3] [], .readi 0 0 3 [],
    .writei 0 3 [4, 5] [.fails 1], .iput 0]

theorem noFiles_consistent : Consistent eightBlocks noFiles (dinode eightBlocks noFiles) := by
  refine consistent_of_free (fun i hi => ?_) (by decide +kernel)
  have hblock : IBLOCK eightBlocks i < 2 := iblock_lt hi
  have hzero : noFiles (IBLOCK eightBlocks i) = fun _ => 0 := if_neg (Nat.ne_of_lt hblock)
  unfold dinode
  rw [hzero]
  exact get16_zero (i % IPB * 64)

theorem a_short_file_has_one_owner :
    Consistent eightBlocks noFiles (dinode eightBlocks noFiles) ∧
      ∃ s, Run (State.step eightBlocks) anyStep (State.start noFiles) shortLife s ∧
        Consistent eightBlocks s.disk (dinode eightBlocks s.disk) := by
  have hd := noFiles_consistent
  have hrun : (exec (State.step eightBlocks) anyStep (State.start noFiles) shortLife).isSome := by
    decide +kernel
  obtain ⟨s, hs⟩ := Option.isSome_iff_exists.mp hrun
  exact ⟨hd, s, run_of_exec hs, (blocks_have_one_owner hd (run_of_exec hs)).1⟩

end xv6.fs
