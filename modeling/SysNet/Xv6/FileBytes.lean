-- A file is an array of bytes (kernel/fs.c): what `readi`, `writei` and
-- `itrunc` do to the bytes of the file and to those of the others, for
-- ranges that start and end anywhere in a block.
import SysNet.Lib.Arrays
import SysNet.Xv6.BlockOwnership

open arrays bytes owners runs

namespace xv6.fs

variable {sb : Superblock} {d d' d'' : Disk} {i j k b c x off fin addr : Nat} {ip ip' ip'' : Dinode}
  {inodes : Nat → Dinode} {src : List UInt8} {copies : List Copy}

/-! ## The bytes of a file -/

/-- The file as an array. -/
def content (d : Disk) (ip : Dinode) : List UInt8 := listed (byteAt d ip) ip.size

/-- The blocks of the inode have in them what they had. -/
def Untouched (d d' : Disk) (ip : Dinode) : Prop :=
  ∀ k, addrOf d ip k ≠ 0 → d' (addrOf d ip k) = d (addrOf d ip k)

theorem Untouched.refl (d : Disk) (ip : Dinode) : Untouched d d ip := fun _ _ => rfl

theorem Untouched.addrOf (h : Untouched d d' ip) (k : Nat) : fs.addrOf d' ip k = fs.addrOf d ip k := by
  apply addrOf_congr rfl rfl
  have hind := h NDIRECT
  rw [addrOf_direct (Nat.le_refl _)] at hind
  exact hind

theorem Untouched.trans (h : Untouched d d' ip) (h' : Untouched d' d'' ip) : Untouched d d'' ip := by
  intro k hk
  have hk' : fs.addrOf d' ip k ≠ 0 := by rwa [h.addrOf k]
  have hsame := h' k hk'
  rw [h.addrOf k] at hsame
  exact hsame.trans (h k hk)

theorem Untouched.byteAt (h : Untouched d d' ip) (hx : fs.addrOf d ip (place (x / BSIZE)) ≠ 0) :
    fs.byteAt d' ip x = fs.byteAt d ip x := by
  unfold fs.byteAt
  rw [h.addrOf, h _ hx]

theorem div_mul_lt {size : Nat} (hx : x < size) : x / BSIZE * BSIZE < size :=
  Nat.lt_of_le_of_lt (Nat.div_mul_le_self ..) hx

theorem Untouched.content (h : Untouched d d' ip)
    (hcovered : ∀ bn, bn * BSIZE < ip.size → fs.addrOf d ip (place bn) ≠ 0) :
    fs.content d' ip = fs.content d ip :=
  listed_congr fun _ hx => h.byteAt (hcovered _ (div_mul_lt hx))

/-- The block of an inode is a data block that is used. -/
theorem Consistent.block (h : Consistent sb d inodes) (hi : i < sb.islots) (ht : (inodes i).type ≠ 0)
    (hk : addrOf d (inodes i) k ≠ 0) : sb.datastart ≤ addrOf d (inodes i) k ∧
      addrOf d (inodes i) k < sb.size ∧ isUsed sb d (addrOf d (inodes i) k) := by
  have hne : ref sb d inodes (i, k) ≠ 0 := by rwa [ref_eq hi ht]
  have hrange := h.owned.range _ hne
  have hused := h.owned.used_ref hne
  rw [ref_eq hi ht] at hrange hused
  exact ⟨hrange.1, hrange.2, hused⟩

/-- A block is in one place of one inode. -/
theorem Consistent.one (h : Consistent sb d inodes) (hi : i < sb.islots) (ht : (inodes i).type ≠ 0)
    {m : Nat} (hj : j < sb.islots) (htj : (inodes j).type ≠ 0) (hk : addrOf d (inodes j) m ≠ 0)
    (heq : addrOf d (inodes j) m = addrOf d (inodes i) k) : j = i ∧ m = k := by
  have hone := h.owned.once (j, m) (i, k)
  rw [ref_eq hj htj, ref_eq hi ht] at hone
  exact Prod.mk.inj (hone hk heq)

/-! ## Blocks are added -/

/-- Used blocks stay used, and but for one the data blocks among them keep what is in them. -/
structure Adds (sb : Superblock) (d d' : Disk) (but : Nat → Prop) : Prop where
  used : ∀ c < sb.size, isUsed sb d c → isUsed sb d' c
  data : ∀ c < sb.size, sb.datastart ≤ c → isUsed sb d c → ¬ but c → d' c = d c

/-- There is no free block. -/
def Full (sb : Superblock) (d : Disk) : Prop := ∀ b < sb.size, isUsed sb d b

theorem Adds.refl (d : Disk) (but : Nat → Prop) : Adds sb d d but :=
  ⟨fun _ _ h => h, fun _ _ _ _ _ => rfl⟩

theorem Adds.metadata {but : Nat → Prop} (h : Adds sb d d' but) (h0 : ∀ b < sb.datastart, isUsed sb d b) :
    ∀ b < sb.datastart, isUsed sb d' b :=
  fun b hb => h.used b (Nat.lt_of_lt_of_le hb sb.map_fits) (h0 b hb)

/-- `balloc` marks a block that was free, or there is none. -/
theorem balloc_adds (h0 : ∀ b < sb.datastart, isUsed sb d b) (heq : balloc sb d = (d', b)) :
    Adds sb d d' (fun _ => False) ∧ (b = 0 → Full sb d') ∧ (b ≠ 0 → ¬ isUsed sb d b) := by
  rcases balloc_spec h0 with hnone | ⟨d₁, b₁, hsome, hb0, hlt, hfree, hused, hsame, -⟩
  · rw [hnone] at heq
    cases heq
    refine ⟨.refl .., fun _ => ?_, fun hne => absurd rfl hne⟩
    unfold balloc at hnone
    split at hnone
    · rename_i hfind
      intro b hb
      have hno := List.find?_eq_none.mp hfind b (List.mem_range.mpr hb)
      simpa using hno
    · rename_i b hfind
      obtain rfl : b = 0 := (Prod.mk.inj hnone).2
      have hfree := List.find?_some hfind
      rw [h0 0 sb.datastart_pos] at hfree
      cases hfree
  · rw [hsome] at heq
    cases heq
    refine ⟨⟨fun c hc h => (hused c hc).mpr (Or.inl h), fun c _ hge h _ => ?_⟩,
      fun hzero => absurd hzero hb0, fun _ => hfree⟩
    apply hsame.data c hge
    rintro rfl
    exact hfree h

theorem loadAddr_adds (h0 : ∀ b < sb.datastart, isUsed sb d b)
    (heq : loadAddr sb d ip k = (d', ip', addr)) : Adds sb d d' (fun _ => False) ∧
      (addr = 0 → Full sb d') ∧ (addr ≠ 0 → addr = ip.addrs k ∨ ¬ isUsed sb d addr) := by
  unfold loadAddr at heq
  by_cases hzero : ip.addrs k = 0
  · rw [if_pos hzero] at heq
    rcases hb : balloc sb d with ⟨d₁, _ | b⟩
    · rw [hb] at heq
      cases heq
      obtain ⟨hadds, hfull, -⟩ := balloc_adds h0 hb
      exact ⟨hadds, hfull, fun hne => absurd rfl hne⟩
    · rw [hb] at heq
      cases heq
      obtain ⟨hadds, -, hfree⟩ := balloc_adds h0 hb
      exact ⟨hadds, fun h => absurd h (Nat.succ_ne_zero b), fun hne => Or.inr (hfree hne)⟩
  · rw [if_neg hzero] at heq
    cases heq
    exact ⟨.refl .., fun h => absurd h hzero, fun _ => Or.inl rfl⟩

/-- `bmap` writes to the indirect block, and to blocks that were free. -/
theorem bmap_adds {bn : Nat} (h0 : ∀ b < sb.datastart, isUsed sb d b)
    (hind : ip.addrs NDIRECT ≠ 0 → sb.datastart ≤ ip.addrs NDIRECT)
    (heq : bmap sb d ip bn = .ok (d', ip', addr)) :
    Adds sb d d' (· = ip.addrs NDIRECT) ∧ (addr = 0 → Full sb d') := by
  have hweaken : ∀ {d₁}, Adds sb d d₁ (fun _ => False) → Adds sb d d₁ (· = ip.addrs NDIRECT) :=
    fun h => ⟨h.used, fun c hc hge hused _ => h.data c hc hge hused fun h => h⟩
  unfold bmap at heq
  split at heq
  · obtain ⟨hadds, hfull, -⟩ := loadAddr_adds h0 (Except.ok.inj heq)
    exact ⟨hweaken hadds, hfull⟩
  · split at heq
    · rcases hload : loadAddr sb d ip NDIRECT with ⟨d₁, ip₁, a⟩
      obtain ⟨hadds, hfull, hwhich⟩ := loadAddr_adds h0 hload
      rw [hload] at heq
      rcases a with _ | a
      · cases heq
        exact ⟨hweaken hadds, hfull⟩
      · simp only at heq
        split at heq
        · rename_i hentry
          rcases hb : balloc sb d₁ with ⟨d₂, _ | b⟩
          · rw [hb] at heq
            cases heq
            obtain ⟨hadds', hfull', -⟩ := balloc_adds (hadds.metadata h0) hb
            refine ⟨hweaken ⟨fun c hc h => hadds'.used c hc (hadds.used c hc h), ?_⟩, hfull'⟩
            intro c hc hge h hno
            rw [hadds'.data c hc hge (hadds.used c hc h) hno]
            exact hadds.data c hc hge h hno
          · rw [hb] at heq
            cases heq
            obtain ⟨hadds', -, -⟩ := balloc_adds (hadds.metadata h0) hb
            have hge : sb.datastart ≤ a + 1 := by
              rcases hwhich (Nat.succ_ne_zero a) with ha | ha
              · rw [ha]
                apply hind
                rw [← ha]
                exact Nat.succ_ne_zero a
              · exact Nat.le_of_not_lt fun hlt => ha (h0 _ hlt)
            refine ⟨⟨fun c hc h => ?_, fun c hc hge' h hne => ?_⟩, fun h => absurd h (Nat.succ_ne_zero b)⟩
            · rw [isUsed_update hge hc]
              exact hadds'.used c hc (hadds.used c hc h)
            · have hca : c ≠ a + 1 := by
                rintro rfl
                rcases hwhich (Nat.succ_ne_zero a) with ha | ha
                · exact hne ha
                · exact ha h
              rw [Function.update_of_ne hca, hadds'.data c hc hge' (hadds.used c hc h) fun h => h]
              exact hadds.data c hc hge' h fun h => h
        · rename_i hentry
          cases heq
          exact ⟨hweaken hadds, fun h => absurd h hentry⟩
    · cases heq

/-- No other file has the indirect block of this one. -/
theorem Adds.untouched (hadds : Adds sb d d' (· = ip.addrs NDIRECT))
    (h : Consistent sb d (Function.update inodes i ip)) (hi : i < sb.islots) (ht : ip.type ≠ 0)
    (hj : j < sb.islots) (hji : j ≠ i) (htj : (inodes j).type ≠ 0) : Untouched d d' (inodes j) := by
  have hself : Function.update inodes i ip i = ip := Function.update_self ..
  have hother : Function.update inodes i ip j = inodes j := Function.update_of_ne hji ..
  intro k hk
  have hblock := h.block (k := k) hj (by rwa [hother]) (by rwa [hother])
  rw [hother] at hblock
  refine hadds.data _ hblock.2.1 hblock.1 hblock.2.2 fun heq => hji ?_
  refine (h.one (k := NDIRECT) (m := k) hi (by rwa [hself]) hj (by rwa [hother]) (by rwa [hother]) ?_).1
  rw [hother, hself, addrOf_direct (Nat.le_refl _)]
  exact heq

/-- The data blocks of the file itself keep their content. -/
theorem Adds.data_block (hadds : Adds sb d d' (· = ip.addrs NDIRECT))
    (h : Consistent sb d (Function.update inodes i ip)) (hi : i < sb.islots) (ht : ip.type ≠ 0)
    (hk : k ≠ NDIRECT) (hne : addrOf d ip k ≠ 0) : d' (addrOf d ip k) = d (addrOf d ip k) := by
  have hself : Function.update inodes i ip i = ip := Function.update_self ..
  have hblock := h.block (k := k) hi (by rwa [hself]) (by rwa [hself])
  rw [hself] at hblock
  refine hadds.data _ hblock.2.1 hblock.1 hblock.2.2 fun heq => hk ?_
  refine (h.one (k := NDIRECT) (m := k) hi (by rwa [hself]) hi (by rwa [hself]) (by rwa [hself]) ?_).2
  rw [hself, addrOf_direct (Nat.le_refl _)]
  exact heq

/-! ## A part of a file is written -/

/-- The bytes from `off` up to `fin` are those of `src`, the others of the file are as before, and
so are the other files. -/
structure Wrote (sb : Superblock) (inodes : Nat → Dinode) (i : Nat) (d d' : Disk) (ip ip' : Dinode)
    (off fin : Nat) (src : List UInt8) : Prop where
  grown : Extends sb inodes i d d' ip ip'
  covered : ∀ bn, bn * BSIZE < fin → addrOf d' ip' (place bn) ≠ 0
  new : ∀ x, off ≤ x → x < fin → byteAt d' ip' x = src.getD (x - off) 0
  old : ∀ x, addrOf d ip (place (x / BSIZE)) ≠ 0 → x < off ∨ fin ≤ x →
    byteAt d' ip' x = byteAt d ip x
  others : ∀ j < sb.islots, j ≠ i → (inodes j).type ≠ 0 → Untouched d d' (inodes j)

theorem Wrote.refl (h : Consistent sb d (Function.update inodes i ip))
    (hcover : ∀ bn, bn * BSIZE < off → addrOf d ip (place bn) ≠ 0) (src : List UInt8) :
    Wrote sb inodes i d d ip ip off off src where
  grown := .refl h
  covered := hcover
  new _ hge hlt := absurd hge (Nat.not_le.mpr hlt)
  old _ _ _ := rfl
  others _ _ _ _ := Untouched.refl d _

/-- A part, and then the part behind it. -/
theorem Wrote.append {m : Nat} (h : Wrote sb inodes i d d' ip ip' off (off + m) src)
    (h' : Wrote sb inodes i d' d'' ip' ip'' (off + m) fin (src.drop m)) (hle : off + m ≤ fin) :
    Wrote sb inodes i d d'' ip ip'' off fin src where
  grown := h.grown.trans h'.grown
  covered := h'.covered
  new x hge hlt := by
    by_cases hx : x < off + m
    · rw [h'.old x (h.covered _ (div_mul_lt hx)) (Or.inl hx)]
      exact h.new x hge hx
    · rw [h'.new x (Nat.le_of_not_lt hx) hlt, List.getD_eq_getElem?_getD, List.getElem?_drop,
        List.getD_eq_getElem?_getD]
      congr 2
      omega
  old x hne hx := by
    have hkeep := h.grown.keeps _ hne
    rw [h'.old x (by rwa [hkeep]) (by omega)]
    exact h.old x hne (by omega)
  others j hj hji htj := (h.others j hj hji htj).trans (h'.others j hj hji htj)

/-- `bmap` writes no byte of a file. -/
theorem bmap_wrote {bn : Nat} (h : Consistent sb d (Function.update inodes i ip)) (hi : i < sb.islots)
    (ht : ip.type ≠ 0) (hbn : bn < MAXFILE)
    (hcover : ∀ bn, bn * BSIZE < off → addrOf d ip (place bn) ≠ 0) (src : List UInt8) :
    ∃ d' ip' addr, bmap sb d ip bn = .ok (d', ip', addr) ∧ Wrote sb inodes i d d' ip ip' off off src ∧
      (addr ≠ 0 → addr = addrOf d' ip' (place bn)) ∧ (addr = 0 → Full sb d') := by
  have hself : Function.update inodes i ip i = ip := Function.update_self ..
  obtain ⟨d', ip', addr, heq, hext, haddr, -⟩ := bmap_spec h hi ht hbn
  have hind : ip.addrs NDIRECT ≠ 0 → sb.datastart ≤ ip.addrs NDIRECT := by
    intro hne
    have hused := h.indirect hi (by rwa [hself]) (by rwa [hself])
    rw [hself] at hused
    exact hused.1
  obtain ⟨hadds, hfull⟩ := bmap_adds h.metadata hind heq
  refine ⟨d', ip', addr, heq, ⟨hext, fun bn hlt => ?_, fun x hge hlt => absurd hge (Nat.not_le.mpr hlt),
    fun x hne _ => ?_, fun j hj hji htj => hadds.untouched h hi ht hj hji htj⟩, haddr, hfull⟩
  · rw [hext.keeps _ (hcover bn hlt)]
    exact hcover bn hlt
  · unfold byteAt
    rw [hext.keeps _ hne, hadds.data_block h hi ht (place_ne _) hne]

/-- A part of one block is written. -/
theorem write_wrote {m : Nat} (h : Consistent sb d (Function.update inodes i ip)) (hi : i < sb.islots)
    (ht : ip.type ≠ 0) (hne : addrOf d ip (place (off / BSIZE)) ≠ 0) (hm : m ≤ BSIZE - off % BSIZE)
    (hcover : ∀ bn, bn * BSIZE < off → addrOf d ip (place bn) ≠ 0) (src : List UInt8) :
    Wrote sb inodes i d (Function.update d (addrOf d ip (place (off / BSIZE)))
      (fill (d (addrOf d ip (place (off / BSIZE)))) (off % BSIZE) m fun x => src.getD x 0))
      ip ip off (off + m) src := by
  have hself : Function.update inodes i ip i = ip := Function.update_self ..
  have hext := Extends.write h hi ht hne
    (fill (d (addrOf d ip (place (off / BSIZE)))) (off % BSIZE) m fun x => src.getD x 0)
  have hblocks : ∀ x, off ≤ x → x < off + m → x / BSIZE = off / BSIZE ∧ x % BSIZE = off % BSIZE + (x - off) := by
    intro x hge hlt
    unfold BSIZE at *
    omega
  refine ⟨hext, fun bn hlt => ?_, fun x hge hlt => ?_, fun x hx hout => ?_, fun j hj hji htj k hk => ?_⟩
  · have hbefore : addrOf d ip (place bn) ≠ 0 := by
      by_cases hold : bn * BSIZE < off
      · exact hcover bn hold
      · have hsame : bn = off / BSIZE := by
          unfold BSIZE at *
          omega
        rw [hsame]
        exact hne
    rw [hext.keeps _ hbefore]
    exact hbefore
  · obtain ⟨hblock, hoff⟩ := hblocks x hge hlt
    unfold byteAt
    rw [hblock, hext.keeps _ hne, Function.update_self, hoff, fill_in (by omega)]
  · unfold byteAt
    rw [hext.keeps _ hx]
    by_cases heq : addrOf d ip (place (x / BSIZE)) = addrOf d ip (place (off / BSIZE))
    · have hplace : place (x / BSIZE) = place (off / BSIZE) := by
        have hone := h.one (k := place (off / BSIZE)) (m := place (x / BSIZE)) hi (by rwa [hself]) hi
          (by rwa [hself]) (by rwa [hself]) (by rwa [hself])
        exact hone.2
      have hblock : x / BSIZE = off / BSIZE := by
        unfold place at hplace
        split at hplace <;> split at hplace <;> omega
      rw [heq, Function.update_self]
      apply fill_out
      unfold BSIZE at *
      omega
    · rw [Function.update_of_ne heq]
  · have hother : Function.update inodes i ip j = inodes j := Function.update_of_ne hji ..
    refine Function.update_of_ne (fun heq => hji ?_) ..
    have hone := h.one (k := place (off / BSIZE)) (m := k) hi (by rwa [hself]) hj (by rwa [hother])
      (by rwa [hother]) (by rw [hself, hother]; exact heq)
    exact hone.1

/-- The loop of `writei` writes up to where it ends, and a part of one more block when a copy
fails. Else it ends early only on a full disk. -/
theorem writeiLoop_wrote (h : Consistent sb d (Function.update inodes i ip)) (hi : i < sb.islots)
    (ht : ip.type ≠ 0) (hmax : off + src.length ≤ MAXFILE * BSIZE)
    (hcover : ∀ bn, bn * BSIZE < off → addrOf d ip (place bn) ≠ 0) (hk : src.length ≤ k)
    (copies : List Copy) :
    ∃ d' ip' off' past, writeiLoop sb d ip k off src copies = .ok (d', ip', off') ∧ off ≤ off' ∧
      off' + past ≤ off + src.length ∧ Wrote sb inodes i d d' ip ip' off (off' + past) src ∧
      (copies = [] → past = 0 ∧ (off' < off + src.length → Full sb d')) := by
  induction k generalizing d ip off src copies with
  | zero =>
    refine ⟨d, ip, off, 0, rfl, Nat.le_refl _, Nat.le_add_right .., .refl h hcover src, fun _ => ⟨rfl, ?_⟩⟩
    intro hlt
    omega
  | succ k ih =>
    unfold writeiLoop
    by_cases hnil : src = []
    · rw [if_pos hnil]
      refine ⟨d, ip, off, 0, rfl, Nat.le_refl _, Nat.le_add_right .., .refl h hcover src,
        fun _ => ⟨rfl, fun hlt => ?_⟩⟩
      rw [hnil, List.length_nil] at hlt
      omega
    · rw [if_neg hnil]
      have hlen : 0 < src.length := List.length_pos_of_ne_nil hnil
      have hbn : off / BSIZE < MAXFILE := by
        unfold MAXFILE NDIRECT NINDIRECT BSIZE at *
        omega
      obtain ⟨d₁, ip₁, addr, heq, hmapped, haddr, hfull⟩ := bmap_wrote h hi ht hbn hcover src
      simp only [heq]
      by_cases hzero : addr = 0
      · rw [if_pos hzero]
        exact ⟨d₁, ip₁, off, 0, rfl, Nat.le_refl _, Nat.le_add_right .., hmapped,
          fun _ => ⟨rfl, fun _ => hfull hzero⟩⟩
      · rw [if_neg hzero, haddr hzero]
        have ht₁ : ip₁.type ≠ 0 := by rwa [hmapped.grown.type]
        have hthere : addrOf d₁ ip₁ (place (off / BSIZE)) ≠ 0 := by rwa [← haddr hzero]
        have hm : min src.length (BSIZE - off % BSIZE) ≤ BSIZE - off % BSIZE := Nat.min_le_right ..
        have hml : min src.length (BSIZE - off % BSIZE) ≤ src.length := Nat.min_le_left ..
        have hpos : 0 < min src.length (BSIZE - off % BSIZE) := by
          unfold BSIZE
          omega
        generalize min src.length (BSIZE - off % BSIZE) = m at *
        cases hcopy : copies.headD .all with
        | fails j =>
          have hwrite := write_wrote hmapped.grown.consistent hi ht₁ hthere
            (Nat.le_trans (Nat.min_le_right j m) hm) hmapped.covered src
          refine ⟨_, ip₁, off, min j m, rfl, Nat.le_refl _, by omega, ?_, fun hnil => ?_⟩
          · exact Wrote.append (m := 0) hmapped hwrite (Nat.le_add_right ..)
          · rw [hnil] at hcopy
            cases hcopy
        | all =>
          have hwrite := write_wrote hmapped.grown.consistent hi ht₁ hthere hm hmapped.covered src
          obtain ⟨d', ip', off', past, hrest, hge, hle, hwrote, hall⟩ := @ih _ (off + m) _ (src.drop m)
            hwrite.grown.consistent ht₁ (by rw [List.length_drop]; omega) hwrite.covered
            (by rw [List.length_drop]; omega) copies.tail
          rw [List.length_drop] at hle hall
          refine ⟨d', ip', off', past, hrest, by omega, by omega, ?_, fun hnil => ?_⟩
          · exact Wrote.append (m := 0) hmapped (hwrite.append hwrote (by omega)) (by omega)
          · obtain ⟨hpast, hfull'⟩ := hall (by rw [hnil]; rfl)
            exact ⟨hpast, fun hlt => hfull' (by omega)⟩

/-! ## The calls -/

/-- The files other than that of `i` are as they were. -/
def Alone (sb : Superblock) (i : Nat) (d d' : Disk) : Prop :=
  ∀ j < sb.islots, j ≠ i → (dinode sb d j).type ≠ 0 →
    dinode sb d' j = dinode sb d j ∧ content d' (dinode sb d j) = content d (dinode sb d j)

/-- `readi` gives the bytes of the range that are there, and nothing when the range wraps. -/
theorem readi_content {n : Nat} (h : Consistent sb d (Function.update inodes i ip)) (hi : i < sb.islots)
    (ht : ip.type ≠ 0) (hoff : off < 4294967296) (hn : n < 4294967296) :
    readi sb d ip off n [] =
      .ok (d, ip, if off + n < 4294967296 then part (content d ip) off n else [], true) := by
  unfold readi
  by_cases hout : ip.size < off ∨ uint (off + n) < off
  · rw [if_pos hout]
    by_cases hwrap : off + n < 4294967296
    · have hlen : (content d ip).length ≤ off := by
        unfold content uint at *
        rw [length_listed]
        omega
      rw [if_pos hwrap]
      unfold part
      rw [List.drop_eq_nil_of_le hlen, List.take_nil]
    · rw [if_neg hwrap]
  · have hwrap : uint (off + n) = off + n := by
      unfold uint at hout ⊢
      omega
    have hlt : off + n < 4294967296 := by
      unfold uint at hwrap
      omega
    have hcount : (if ip.size < off + n then ip.size - off else n) = min n (ip.size - off) := by
      split <;> omega
    obtain ⟨data, done, heq, hall⟩ := readiLoop_spec h hi ht
      (show off + min n (ip.size - off) ≤ ip.size by omega) (Nat.le_refl _) []
    obtain ⟨hdata, hdone⟩ := hall rfl
    rw [if_neg hout, if_pos hlt]
    simp only
    rw [hwrap, hcount, heq, hdata, hdone]
    unfold content
    rw [part_listed]
    rfl

/-- The inode goes to its block, which is no block of a file. -/
theorem iupdate_untouched {ip₁ : Dinode} (h : Consistent sb d inodes) (hi : i < sb.islots)
    (hfits : ip₁.Fits) (hj : j < sb.islots) (htj : (inodes j).type ≠ 0) :
    Untouched d (iupdate sb d i ip₁) (inodes j) := by
  obtain ⟨-, -, hdata⟩ := iupdate_spec (d := d) hi hfits
  intro k hk
  exact hdata _ (h.block hj htj hk).1

/-- The file at the end of `writei`, with the size that it has then. -/
theorem Wrote.content {n : Nat} (h : Wrote sb inodes i d d' ip ip' off (off + n) src) (hoff : off ≤ ip.size)
    (hcover : ∀ bn, bn * BSIZE < ip.size → addrOf d ip (place bn) ≠ 0) (hn : n ≤ src.length) :
    listed (byteAt d' ip') (max ip.size (off + n)) = overwrite (fs.content d ip) off (src.take n) := by
  have hlen : (src.take n).length = n := by
    rw [List.length_take]
    omega
  have hover := overwrite_listed (f := byteAt d ip) (g := byteAt d' ip') (src.take n) hoff
  rw [hlen] at hover
  apply hover
  · intro x hx
    rw [h.new _ (by omega) (by omega), Nat.add_sub_cancel_left, List.getElem?_take, if_pos hx,
      List.getD_eq_getElem?_getD, List.getElem?_eq_getElem (by omega)]
    rfl
  · intro x hx hout
    exact h.old x (hcover _ (div_mul_lt hx)) hout

/-- The copy of the inode goes to the disk, with a size that the file has blocks for. -/
theorem Wrote.finish (size : Nat) (h : Wrote sb (dinode sb d) i d d' (dinode sb d i) ip' off fin src)
    (hi : i < sb.islots) (ht : (dinode sb d i).type ≠ 0) (hsize : size ≤ MAXFILE * BSIZE)
    (hcover : ∀ bn, bn * BSIZE < size → addrOf d' ip' (place bn) ≠ 0) :
    (∀ x, addrOf d' ip' (place (x / BSIZE)) ≠ 0 →
      byteAt (iupdate sb d' i { ip' with size }) { ip' with size } x = byteAt d' ip' x) ∧
    dinode sb (iupdate sb d' i { ip' with size }) i = { ip' with size } ∧
    Alone sb i d (iupdate sb d' i { ip' with size }) ∧
    ∀ c < sb.size, isUsed sb (iupdate sb d' i { ip' with size }) c = isUsed sb d' c := by
  have hmax : MAXFILE * BSIZE = 274432 := rfl
  have ht' : ip'.type ≠ 0 := by rwa [h.grown.type]
  have hself : ∀ x : Dinode, Function.update (dinode sb d) i x i = x := fun x => Function.update_self ..
  have hfits := h.grown.fits (getDinode_fits ..)
  have hfits' : ({ ip' with size } : Dinode).Fits :=
    ⟨hfits.type, hfits.major, hfits.minor, hfits.nlink, by simp only; omega, hfits.addrs, hfits.rest⟩
  have hsized : Consistent sb d' (Function.update (dinode sb d) i { ip' with size }) :=
    h.grown.consistent.change (fun k => rfl) (fun _ => hcover) fun _ => hsize
  obtain ⟨-, hinodes⟩ := hsized.settled h.grown.dinode hi hfits'
  refine ⟨fun x hx => ?_, ?_, fun j hj hji htj => ?_, (iupdate_spec hi hfits').1⟩
  · have htouch := iupdate_untouched (j := i) hsized hi hfits' hi (by rwa [hself])
    rw [hself] at htouch
    exact htouch.byteAt hx
  · rw [hinodes i hi, if_pos rfl]
  · refine ⟨by rw [hinodes j hj, if_neg hji], ?_⟩
    have hother : Function.update (dinode sb d) i { ip' with size } j = dinode sb d j :=
      Function.update_of_ne hji ..
    have htouch := iupdate_untouched (j := j) hsized hi hfits' hj (by rwa [hother])
    rw [hother] at htouch
    have hall := (h.others j hj hji htj).trans htouch
    have hcover' := hsized.covered j hj (by rwa [hother])
    rw [hother] at hcover'
    apply hall.content
    intro bn hbn
    have hne := hcover' bn hbn
    rwa [(h.others j hj hji htj).addrOf] at hne

/-- A call in range writes the inode back, with the size that the file has then. -/
theorem writei_of_loop (hoff : off ≤ ip.size) (hmax : off + src.length ≤ MAXFILE * BSIZE)
    (heq : writeiLoop sb d ip src.length off src copies = .ok (d', ip', fin)) (hsize : ip'.size = ip.size) :
    writei sb d i ip off src copies = .ok (iupdate sb d' i { ip' with size := max ip.size fin },
      { ip' with size := max ip.size fin }, some fin) := by
  have hlimit : MAXFILE * BSIZE = 274432 := rfl
  have hout : ¬ (ip.size < off ∨ uint (off + src.length) < off) := by
    unfold uint
    omega
  have hbig : ¬ MAXFILE * BSIZE < uint (off + src.length) := by
    unfold uint
    omega
  have hgrown : (if ip'.size < fin then { ip' with size := fin } else ip') =
      { ip' with size := max ip.size fin } := by
    rw [← hsize]
    split
    · rw [Nat.max_eq_right (by omega)]
    · rw [Nat.max_eq_left (by omega)]
  unfold writei
  rw [if_neg hout, if_neg hbig, heq]
  simp only [hgrown]

/-- `writei` writes over the range, and it stops early only on a full disk. -/
theorem writei_content (h : Consistent sb d (dinode sb d)) (hi : i < sb.islots)
    (ht : (dinode sb d i).type ≠ 0) (hoff : off ≤ (dinode sb d i).size)
    (hmax : off + src.length ≤ MAXFILE * BSIZE) :
    ∃ d' ip' r, writei sb d i (dinode sb d i) off src [] = .ok (d', ip', some (off + r)) ∧
      r ≤ src.length ∧ (r < src.length → Full sb d') ∧ ip'.size = max (dinode sb d i).size (off + r) ∧
      content d' ip' = overwrite (content d (dinode sb d i)) off (src.take r) ∧
      dinode sb d' i = ip' ∧ Alone sb i d d' := by
  have hlimit : MAXFILE * BSIZE = 274432 := rfl
  have hcover := h.covered i hi ht
  obtain ⟨d₁, ip₁, off', past, heq, hge, hle, hwrote, hall⟩ := writeiLoop_wrote (k := src.length) (h.open i)
    hi ht hmax (fun bn hlt => hcover bn (by omega)) (Nat.le_refl _) []
  obtain ⟨rfl, hfull⟩ := hall rfl
  obtain ⟨r, rfl⟩ : ∃ r, off' = off + r := ⟨off' - off, by omega⟩
  rw [Nat.add_zero] at hwrote hle
  have hbound := h.bounded i hi ht
  have hcover₁ : ∀ bn, bn * BSIZE < max (dinode sb d i).size (off + r) → addrOf d₁ ip₁ (place bn) ≠ 0 := by
    intro bn hlt
    by_cases hold : bn * BSIZE < (dinode sb d i).size
    · rw [hwrote.grown.keeps _ (hcover bn hold)]
      exact hcover bn hold
    · exact hwrote.covered bn (by omega)
  obtain ⟨hbytes, hdinode, halone, hused⟩ :=
    hwrote.finish (max (dinode sb d i).size (off + r)) hi ht (by omega) hcover₁
  refine ⟨_, _, r, writei_of_loop hoff hmax heq hwrote.grown.size, by omega, fun hlt => ?_, rfl, ?_,
    hdinode, halone⟩
  · intro b hb
    rw [hused b hb]
    exact hfull (by omega) b hb
  · rw [← hwrote.content hoff hcover (by omega)]
    exact listed_congr fun x hx => hbytes x (hcover₁ _ (div_mul_lt hx))

/-- A range that wraps, starts behind the file or ends behind the biggest one is refused. -/
theorem writei_refused (hoff : off < 4294967296) (hsrc : src.length < 4294967296)
    (hout : ip.size < off ∨ MAXFILE * BSIZE < off + src.length) :
    writei sb d i ip off src copies = .ok (d, ip, none) := by
  have hlimit : MAXFILE * BSIZE = 274432 := rfl
  unfold writei
  by_cases hrange : ip.size < off ∨ uint (off + src.length) < off
  · rw [if_pos hrange]
  · have hbig : MAXFILE * BSIZE < uint (off + src.length) := by
      unfold uint at hrange ⊢
      omega
    rw [if_neg hrange, if_pos hbig]

/-- `itrunc` leaves an empty file. -/
theorem itrunc_content (h : Consistent sb d (dinode sb d)) (hi : i < sb.islots)
    (ht : (dinode sb d i).type ≠ 0) :
    ∃ d' ip', itrunc sb d i (dinode sb d i) = .ok (d', ip') ∧ content d' ip' = [] ∧
      dinode sb d' i = ip' ∧ Alone sb i d d' := by
  obtain ⟨d₁, heq, hcons, hsame⟩ := itrunc_spec h hi ht
  have hfits : (dinode sb d i).Fits := getDinode_fits ..
  obtain ⟨-, hinodes⟩ := hcons.settled hsame.dinode hi hfits.emptied
  refine ⟨_, _, heq, rfl, by rw [hinodes i hi, if_pos rfl], fun j hj hji htj => ?_⟩
  refine ⟨by rw [hinodes j hj, if_neg hji], ?_⟩
  have hother : Function.update (dinode sb d) i { dinode sb d i with addrs := fun _ => 0, size := 0 } j =
      dinode sb d j := Function.update_of_ne hji ..
  have hfreed : Untouched d d₁ (dinode sb d j) := fun k hk =>
    hsame.data _ (h.block hj htj hk).1 fun h => h
  have htouch := iupdate_untouched hcons hi hfits.emptied hj (by rwa [hother])
  rw [hother] at htouch
  exact (hfreed.trans htouch).content (h.covered j hj htj)

/-! ## The result -/

variable {s : State} {as : List Act} {e : Nat}

/-- In every state that calls reach from a consistent disk, a file is an array of bytes: `readi`
gives the part of the range, `writei` writes over it up to where the disk is full, `itrunc` leaves
nothing, what is out of range is refused, and no call changes another file. -/
theorem files_are_byte_arrays (hd : Consistent sb d (dinode sb d))
    (hrun : Run (State.step sb) anyStep (State.start d) as s) (he : s.held e) :
    (∀ off n, off < 4294967296 → n < 4294967296 →
      readi sb s.disk (s.itable e).copy off n [] = .ok (s.disk, (s.itable e).copy,
        if off + n < 4294967296 then part (content s.disk (s.itable e).copy) off n else [], true)) ∧
    (∀ off src, off < 4294967296 → src.length < 4294967296 →
      ((s.itable e).copy.size < off ∨ MAXFILE * BSIZE < off + src.length →
        writei sb s.disk (s.itable e).inum (s.itable e).copy off src [] =
          .ok (s.disk, (s.itable e).copy, none)) ∧
      (off ≤ (s.itable e).copy.size → off + src.length ≤ MAXFILE * BSIZE →
        ∃ d' ip' r, writei sb s.disk (s.itable e).inum (s.itable e).copy off src [] =
            .ok (d', ip', some (off + r)) ∧
          r ≤ src.length ∧ (r < src.length → Full sb d') ∧
          ip'.size = max (s.itable e).copy.size (off + r) ∧
          content d' ip' = overwrite (content s.disk (s.itable e).copy) off (src.take r) ∧
          dinode sb d' (s.itable e).inum = ip' ∧ Alone sb (s.itable e).inum s.disk d')) ∧
    ∃ d' ip', itrunc sb s.disk (s.itable e).inum (s.itable e).copy = .ok (d', ip') ∧
      content d' ip' = [] ∧ dinode sb d' (s.itable e).inum = ip' ∧
      Alone sb (s.itable e).inum s.disk d' := by
  obtain ⟨hsound, -, -⟩ := safe_run hd hrun
  obtain ⟨hi, hcopy, ht⟩ := hsound.held he
  rw [hcopy]
  refine ⟨fun off n hoff hn => ?_, fun off src hoff hsrc => ⟨?_, ?_⟩, itrunc_content hsound.disk hi ht⟩
  · exact readi_content (hsound.disk.open _) hi ht hoff hn
  · exact writei_refused hoff hsrc
  · exact writei_content hsound.disk hi ht

/-- A file with three bytes. -/
def threeBytes : List Act := [.ialloc 2, .ilock 0, .writei 0 0 [1, 2, 3] []]

theorem the_end_of_a_file_is_read : ∃ s, Run (State.step eightBlocks) anyStep (State.start noFiles)
    threeBytes s ∧ readi eightBlocks s.disk (s.itable 0).copy 1 5 [] =
      .ok (s.disk, (s.itable 0).copy, [2, 3], true) := by
  have hcomputed : (exec (State.step eightBlocks) anyStep (State.start noFiles) threeBytes).any
      (fun s => s.held 0 ∧ content s.disk (s.itable 0).copy = [1, 2, 3]) = true := by decide +kernel
  obtain ⟨s, hs, hfacts⟩ := (Option.any_eq_true _ _).mp hcomputed
  obtain ⟨hheld, hcontent⟩ := of_decide_eq_true hfacts
  obtain ⟨hread, -⟩ := files_are_byte_arrays noFiles_consistent (run_of_exec hs) hheld
  refine ⟨s, run_of_exec hs, ?_⟩
  rw [hread 1 5 (by decide) (by decide), hcontent]
  rfl

end xv6.fs
