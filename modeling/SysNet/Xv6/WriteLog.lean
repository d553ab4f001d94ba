-- The blocks that a write passes to `log_write` (kernel/fs.c), and how many
-- of them a transaction of `filewrite` (kernel/file.c) can have.
import Mathlib.Data.Finset.Card
import Mathlib.Order.Interval.Finset.Nat
import SysNet.Xv6.FileBytes
import SysNet.Xv6.Log

open arrays bytes owners runs

namespace xv6.fs

/-! ## What is logged -/

section

variable (sb : Superblock)

/-- `balloc` logs the block with the bit, and the new block when `bzero` has cleared it. -/
def ballocLog (d : Disk) : List Nat :=
  match (List.range sb.size).find? fun b => !isUsed sb d b with
  | none => []
  | some b => [BBLOCK sb b, b]

def loadAddrLog (d : Disk) (ip : Dinode) (k : Nat) : List Nat :=
  if ip.addrs k = 0 then ballocLog sb d else []

def bmapLog (d : Disk) (ip : Dinode) (bn : Nat) : List Nat :=
  if bn < NDIRECT then loadAddrLog sb d ip bn
  else if bn - NDIRECT < NINDIRECT then
    loadAddrLog sb d ip NDIRECT ++
      match loadAddr sb d ip NDIRECT with
      | (_, _, 0) => []
      | (d, _, a) =>
        if get32 (d a) (4 * (bn - NDIRECT)) = 0 then
          ballocLog sb d ++ if (balloc sb d).2 = 0 then [] else [a]
        else []
  else []

/-- A block whose copy fails is not logged. -/
def writeiLoopLog (d : Disk) (ip : Dinode) : Nat → Nat → List UInt8 → List Copy → List Nat
  | 0, _, _, _ => []
  | k + 1, off, src, copies =>
    if src = [] then []
    else
      bmapLog sb d ip (off / BSIZE) ++
        match bmap sb d ip (off / BSIZE) with
        | .error _ => []
        | .ok (d, ip, addr) =>
          if addr = 0 then []
          else
            let m := min src.length (BSIZE - off % BSIZE)
            match copies.headD .all with
            | .fails _ => []
            | .all =>
              addr :: writeiLoopLog (Function.update d addr
                (fill (d addr) (off % BSIZE) m fun x => src.getD x 0)) ip k (off + m) (src.drop m)
                copies.tail

/-- `iupdate` logs the block of the inode at the end. -/
def writeiLog (d : Disk) (i : Nat) (ip : Dinode) (off : Nat) (src : List UInt8)
    (copies : List Copy) : List Nat :=
  if ip.size < off ∨ uint (off + src.length) < off then []
  else if MAXFILE * BSIZE < uint (off + src.length) then []
  else writeiLoopLog sb d ip src.length off src copies ++ [IBLOCK sb i]

/-- What `filewrite` writes in one transaction. -/
def maxChunk : Nat := (log.MAXOPBLOCKS - 1 - 1 - 2) / 2 * BSIZE

/-- What a transaction finds: other processes have run since the last one. -/
structure Found where
  disk : Disk
  off : Nat
  copies : List Copy

/-- The blocks that a transaction logs, and whether it writes all of its chunk. -/
def transaction (i : Nat) (t : Found) (chunk : List UInt8) : List Nat × Bool :=
  (writeiLog sb t.disk i (dinode sb t.disk i) t.off chunk t.copies,
    match writei sb t.disk i (dinode sb t.disk i) t.off chunk t.copies with
    | .ok (_, _, some fin) => fin = t.off + chunk.length
    | _ => false)

/-- The loop of `filewrite`, over what a transaction does. -/
def filewriteLoop (transaction : Found → List UInt8 → List Nat × Bool) :
    List Found → List UInt8 → List (List Nat)
  | [], _ => []
  | t :: ts, src =>
    if src = [] then []
    else
      let chunk := src.take maxChunk
      (transaction t chunk).1 ::
        if (transaction t chunk).2 then filewriteLoop transaction ts (src.drop chunk.length) else []

/-- The blocks that each transaction of a `filewrite` logs. -/
def filewriteLog (i : Nat) (ts : List Found) (src : List UInt8) : List (List Nat) :=
  filewriteLoop (transaction sb i) ts src

end

variable {sb : Superblock} {d d' d'' : Disk} {i j k b c x off fin addr lo top : Nat}
  {ip ip' ip'' : Dinode} {inodes : Nat → Dinode} {src : List UInt8} {copies : List Copy}
  {blocks : List Nat}

/-! ## The loop of writei, turn by turn -/

/-- How the loop ends: with all bytes written, without a block for more, or after a copy that
failed behind some bytes of the block. -/
inductive Ending
  | done
  | full
  | failed (addr past : Nat)

/-- The turns of the loop, with the blocks that are logged. -/
inductive Turns (sb : Superblock) : Disk → Dinode → Nat → List UInt8 → List Copy →
    Disk → Dinode → Nat → List Nat → Ending → Prop
  | done {d : Disk} {ip : Dinode} {off : Nat} {copies : List Copy} :
      Turns sb d ip off [] copies d ip off [] .done
  | full {d d' : Disk} {ip ip' : Dinode} {off : Nat} {src : List UInt8} {copies : List Copy} :
      src ≠ [] → bmap sb d ip (off / BSIZE) = .ok (d', ip', 0) →
      Turns sb d ip off src copies d' ip' off (bmapLog sb d ip (off / BSIZE)) .full
  | failed {d d' : Disk} {ip ip' : Dinode} {off addr j m : Nat} {src : List UInt8}
      {copies : List Copy} :
      src ≠ [] → bmap sb d ip (off / BSIZE) = .ok (d', ip', addr) → addr ≠ 0 →
      m = min src.length (BSIZE - off % BSIZE) → copies.headD .all = .fails j →
      Turns sb d ip off src copies
        (Function.update d' addr (fill (d' addr) (off % BSIZE) (min j m) fun x => src.getD x 0)) ip' off
        (bmapLog sb d ip (off / BSIZE)) (.failed addr (min j m))
  | turn {d d' d'' : Disk} {ip ip' ip'' : Dinode} {off addr m fin : Nat} {src : List UInt8}
      {copies : List Copy} {blocks : List Nat} {e : Ending} :
      src ≠ [] → bmap sb d ip (off / BSIZE) = .ok (d', ip', addr) → addr ≠ 0 →
      m = min src.length (BSIZE - off % BSIZE) → copies.headD .all = .all →
      Turns sb (Function.update d' addr (fill (d' addr) (off % BSIZE) m fun x => src.getD x 0)) ip'
        (off + m) (src.drop m) copies.tail d'' ip'' fin blocks e →
      Turns sb d ip off src copies d'' ip'' fin (bmapLog sb d ip (off / BSIZE) ++ addr :: blocks) e

/-- The loop takes its turns. -/
theorem turns_of_loop (heq : writeiLoop sb d ip k off src copies = .ok (d', ip', fin))
    (hk : src.length ≤ k) :
    ∃ e, Turns sb d ip off src copies d' ip' fin (writeiLoopLog sb d ip k off src copies) e := by
  induction k generalizing d ip off src copies with
  | zero =>
    obtain rfl := List.eq_nil_of_length_eq_zero (Nat.eq_zero_of_le_zero hk)
    cases heq
    exact ⟨_, .done⟩
  | succ k ih =>
    unfold writeiLoop at heq
    unfold writeiLoopLog
    by_cases hnil : src = []
    · rw [if_pos hnil] at heq ⊢
      cases heq
      subst hnil
      exact ⟨_, .done⟩
    · rw [if_neg hnil] at heq ⊢
      rcases hmap : bmap sb d ip (off / BSIZE) with p | ⟨d₁, ip₁, addr⟩
      · rw [hmap] at heq
        cases heq
      · rw [hmap] at heq
        simp only at heq ⊢
        by_cases hzero : addr = 0
        · subst hzero
          rw [if_pos rfl] at heq ⊢
          cases heq
          rw [List.append_nil]
          exact ⟨_, .full hnil hmap⟩
        · rw [if_neg hzero] at heq ⊢
          rcases hcopy : copies.headD .all with _ | j
          · rw [hcopy] at heq
            simp only at heq ⊢
            have hlen := List.length_pos_of_ne_nil hnil
            have hm : 0 < min src.length (BSIZE - off % BSIZE) := by
              unfold BSIZE
              omega
            obtain ⟨e, hturns⟩ := ih heq (by rw [List.length_drop]; omega)
            exact ⟨e, .turn hnil hmap hzero rfl hcopy hturns⟩
          · rw [hcopy] at heq
            cases heq
            simp only
            rw [List.append_nil]
            exact ⟨_, .failed hnil hmap hzero rfl hcopy⟩

/-! ## What bmap logs -/

/-- A block that a write of the blocks from `lo` up to `top` can log: one of them, the map of a new
one, the indirect block, and its map. -/
def Member (sb : Superblock) (d d' : Disk) (ip ip' : Dinode) (lo top c : Nat) : Prop :=
  (∃ q, lo ≤ q ∧ q < top ∧ addrOf d' ip' (place q) ≠ 0 ∧ (c = addrOf d' ip' (place q) ∨
      addrOf d ip (place q) = 0 ∧ c = BBLOCK sb (addrOf d' ip' (place q)))) ∨
    ip'.addrs NDIRECT ≠ 0 ∧ (c = ip'.addrs NDIRECT ∨ c = BBLOCK sb (ip'.addrs NDIRECT))

/-- Addresses stay when they are there. -/
def Keeps (d d' : Disk) (ip ip' : Dinode) : Prop :=
  ∀ k, addrOf d ip k ≠ 0 → addrOf d' ip' k = addrOf d ip k

theorem Keeps.indirect (h : Keeps d d' ip ip') (hne : ip.addrs NDIRECT ≠ 0) :
    ip'.addrs NDIRECT = ip.addrs NDIRECT := by
  have hkeep := h NDIRECT
  rw [addrOf_direct (Nat.le_refl _), addrOf_direct (Nat.le_refl _)] at hkeep
  exact hkeep hne

theorem Member.head (h : Member sb d d' ip ip' lo top c) (hkeep : Keeps d' d'' ip' ip'') {top' : Nat}
    (htop : top ≤ top') : Member sb d d'' ip ip'' lo top' c := by
  rcases h with ⟨q, hlo, hlt, hne, hc⟩ | ⟨hne, hc⟩
  · refine Or.inl ⟨q, hlo, by omega, ?_, ?_⟩
    · rwa [hkeep _ hne]
    · rwa [hkeep _ hne]
  · have hsame := hkeep.indirect hne
    rw [← hsame] at hc
    exact Or.inr ⟨by rwa [hsame], hc⟩

theorem Member.tail (h : Member sb d' d'' ip' ip'' lo top c) (hkeep : Keeps d d' ip ip') {lo' : Nat}
    (hlo' : lo' ≤ lo) : Member sb d d'' ip ip'' lo' top c := by
  rcases h with ⟨q, hlo, hlt, hne, hc⟩ | hind
  · refine Or.inl ⟨q, by omega, hlt, hne, hc.imp_right fun hnew => ⟨?_, hnew.2⟩⟩
    by_contra hold
    exact hold ((hkeep _ hold).symm.trans hnew.1)
  · exact Or.inr hind

/-- `balloc` changes what it logs, and nothing else. -/
theorem ballocLog_spec (h0 : ∀ b < sb.datastart, isUsed sb d b) (heq : balloc sb d = (d', b)) :
    ballocLog sb d = (if b = 0 then [] else [BBLOCK sb b, b]) ∧ ∀ c, c ∉ ballocLog sb d → d' c = d c := by
  unfold balloc at heq
  unfold ballocLog
  cases hfind : (List.range sb.size).find? fun b => !isUsed sb d b with
  | none =>
    rw [hfind] at heq
    cases heq
    exact ⟨rfl, fun _ _ => rfl⟩
  | some b₁ =>
    rw [hfind] at heq
    cases heq
    have hne : b ≠ 0 := by
      rintro rfl
      have hfree := List.find?_some hfind
      rw [h0 0 sb.datastart_pos] at hfree
      cases hfree
    refine ⟨(if_neg hne).symm, fun c hc => ?_⟩
    have hc : c ∉ [BBLOCK sb b, b] := hc
    rw [List.mem_cons, List.mem_singleton, not_or] at hc
    rw [Function.update_of_ne hc.2, Function.update_of_ne hc.1]

theorem loadAddrLog_spec (h0 : ∀ b < sb.datastart, isUsed sb d b)
    (heq : loadAddr sb d ip k = (d', ip', addr)) :
    (∀ c ∈ loadAddrLog sb d ip k, addr ≠ 0 ∧ ip.addrs k = 0 ∧ (c = addr ∨ c = BBLOCK sb addr)) ∧
      (∀ c, c ∉ loadAddrLog sb d ip k → d' c = d c) ∧
      (ip.addrs k = 0 → addr ≠ 0 → addr ∈ loadAddrLog sb d ip k) := by
  unfold loadAddr at heq
  unfold loadAddrLog
  by_cases hzero : ip.addrs k = 0
  · rw [if_pos hzero] at heq ⊢
    rcases hb : balloc sb d with ⟨d₁, _ | b⟩
    · rw [hb] at heq
      cases heq
      obtain ⟨hlog, hsame⟩ := ballocLog_spec h0 hb
      rw [if_pos rfl] at hlog
      rw [hlog] at hsame ⊢
      exact ⟨fun c hc => absurd hc List.not_mem_nil, hsame, fun _ hne => absurd rfl hne⟩
    · rw [hb] at heq
      cases heq
      obtain ⟨hlog, hsame⟩ := ballocLog_spec h0 hb
      rw [if_neg (Nat.succ_ne_zero b)] at hlog
      rw [hlog] at hsame ⊢
      refine ⟨fun c hc => ⟨Nat.succ_ne_zero b, hzero, ?_⟩, hsame, fun _ _ => by simp⟩
      rw [List.mem_cons, List.mem_singleton] at hc
      exact hc.symm
  · rw [if_neg hzero] at heq ⊢
    cases heq
    exact ⟨fun c hc => absurd hc List.not_mem_nil, fun _ _ => rfl, fun h => absurd h hzero⟩

/-- `bmap` changes what it logs, which are the blocks that it adds with their maps, and the indirect
block. -/
theorem bmapLog_spec {bn : Nat} (h : Consistent sb d (Function.update inodes i ip)) (hi : i < sb.islots)
    (ht : ip.type ≠ 0) (hbn : bn < MAXFILE) (heq : bmap sb d ip bn = .ok (d', ip', addr)) :
    (∀ c ∈ bmapLog sb d ip bn, Member sb d d' ip ip' bn (bn + 1) c) ∧
      (∀ c, c ∉ bmapLog sb d ip bn → d' c = d c) ∧
      (addrOf d ip (place bn) = 0 → addr ≠ 0 → addr ∈ bmapLog sb d ip bn) ∧
      (addrOf d ip (place bn) ≠ 0 → bmapLog sb d ip bn = []) := by
  obtain ⟨_, _, _, heq', hext, haddr, hfound, hplaces⟩ := bmap_spec h hi ht hbn
  rw [heq] at heq'
  cases heq'
  have hnew : ∀ c, addr ≠ 0 → addrOf d ip (place bn) = 0 → (c = addr ∨ c = BBLOCK sb addr) →
      Member sb d d' ip ip' bn (bn + 1) c := by
    intro c hne hzero hc
    have hat := haddr hne
    refine Or.inl ⟨bn, Nat.le_refl _, Nat.lt_succ_self _, by rwa [← hat], ?_⟩
    rw [← hat]
    exact hc.imp_right fun heq => ⟨hzero, heq⟩
  unfold bmap at heq
  unfold bmapLog
  by_cases hdirect : bn < NDIRECT
  · rw [if_pos hdirect] at heq ⊢
    rw [place_direct hdirect, addrOf_direct (Nat.le_of_lt hdirect)] at hnew ⊢
    obtain ⟨hmem, hsame, hin⟩ := loadAddrLog_spec h.metadata (Except.ok.inj heq)
    refine ⟨fun c hc => ?_, hsame, hin, fun hne => if_neg hne⟩
    obtain ⟨hne, hzero, hc⟩ := hmem c hc
    exact hnew c hne hzero hc
  · obtain ⟨e, rfl⟩ : ∃ e, bn = NDIRECT + e := ⟨bn - NDIRECT, by omega⟩
    have he : e < NINDIRECT := by
      unfold MAXFILE at hbn
      omega
    have hplace : place (NDIRECT + e) = NDIRECT + 1 + e := by
      unfold place
      rw [if_neg hdirect]
      omega
    rw [if_neg hdirect, Nat.add_sub_cancel_left, if_pos he] at heq ⊢
    obtain ⟨d₁, ip₁, a, hload, hext₁, ha, hfound₁, hplaces₁⟩ := loadAddr_spec h hi ht (Nat.le_refl NDIRECT)
    obtain ⟨hmem, hsame, hin⟩ := loadAddrLog_spec h.metadata hload
    rw [hload] at heq ⊢
    rw [hplace] at hnew ⊢
    have hnone : addrOf d ip (NDIRECT + 1 + e) ≠ 0 → ip.addrs NDIRECT ≠ 0 := by
      intro hne hzero
      apply hne
      unfold addrOf
      rw [if_neg (by omega), if_neg fun h => h.1 hzero]
    have hold : addrOf d ip (NDIRECT + 1 + e) ≠ 0 → loadAddrLog sb d ip NDIRECT = [] :=
      fun hne => if_neg (hnone hne)
    rcases a with _ | a
    · cases heq
      simp only [List.append_nil]
      refine ⟨fun c hc => absurd rfl (hmem c hc).1, hsame, fun _ hne => absurd rfl hne, hold⟩
    · have hind := ha (Nat.succ_ne_zero a)
      have hne : ip₁.addrs NDIRECT ≠ 0 := by
        rw [← hind]
        exact Nat.succ_ne_zero a
      have hentry : get32 (d₁ (a + 1)) (4 * e) = addrOf d ip (NDIRECT + 1 + e) := by
        rw [← hplaces₁ _ (by omega), addrOf_entry hne he, hind]
      simp only at heq ⊢
      -- the indirect block and its map
      have hlogged : ip' = ip₁ → ∀ c ∈ loadAddrLog sb d ip NDIRECT,
          Member sb d d' ip ip' (NDIRECT + e) (NDIRECT + e + 1) c := by
        rintro rfl c hc
        obtain ⟨-, -, hc⟩ := hmem c hc
        rw [hind] at hc
        exact Or.inr ⟨hne, hc⟩
      rw [hentry] at heq ⊢
      by_cases hzero : addrOf d ip (NDIRECT + 1 + e) = 0
      · rw [if_pos hzero] at heq ⊢
        rcases hb : balloc sb d₁ with ⟨d₂, _ | b⟩
        · rw [hb] at heq
          cases heq
          obtain ⟨hlog, hsame₂⟩ := ballocLog_spec hext₁.consistent.metadata hb
          rw [if_pos rfl] at hlog
          rw [hlog] at hsame₂ ⊢
          simp only [if_pos, List.append_nil]
          refine ⟨hlogged rfl, fun c hc => ?_, fun _ hne => absurd rfl hne, fun hne => absurd hzero hne⟩
          rw [hsame₂ c List.not_mem_nil, hsame c hc]
        · rw [hb] at heq
          cases heq
          obtain ⟨hlog, hsame₂⟩ := ballocLog_spec hext₁.consistent.metadata hb
          rw [if_neg (Nat.succ_ne_zero b)] at hlog
          rw [hlog] at hsame₂ ⊢
          simp only [if_neg (Nat.succ_ne_zero b)]
          refine ⟨fun c hc => ?_, fun c hc => ?_, fun _ _ => by simp, fun hne => absurd hzero hne⟩
          · simp only [List.mem_append, List.mem_cons, List.not_mem_nil, or_false] at hc
            rcases hc with hc | (rfl | rfl) | rfl
            · exact hlogged rfl c hc
            · exact hnew _ (Nat.succ_ne_zero b) hzero (Or.inr rfl)
            · exact hnew _ (Nat.succ_ne_zero b) hzero (Or.inl rfl)
            · exact Or.inr ⟨hne, Or.inl hind⟩
          · simp only [List.mem_append, List.mem_cons, List.not_mem_nil, or_false, not_or] at hc
            rw [Function.update_of_ne hc.2.2, hsame₂ c (by simp [hc.2.1]), hsame c hc.1]
      · rw [if_neg hzero] at heq ⊢
        cases heq
        rw [List.append_nil]
        exact ⟨hlogged rfl, hsame, fun h => absurd h hzero, hold⟩

/-! ## What a turn does -/

theorem Wrote.keeps (h : Wrote sb inodes i d d' ip ip' off fin src) : Keeps d d' ip ip' := h.grown.keeps

theorem Keeps.trans (h : Keeps d d' ip ip') (h' : Keeps d' d'' ip' ip'') : Keeps d d'' ip ip'' := by
  intro k hk
  have hstep := h k hk
  rw [h' k (by rwa [hstep]), hstep]

/-- What the loop relies on: there is room for the bytes that are left, and the blocks before them are
there. -/
structure Ready (sb : Superblock) (inodes : Nat → Dinode) (i : Nat) (d : Disk) (ip : Dinode) (off : Nat)
    (src : List UInt8) : Prop where
  slot : i < sb.islots
  type : ip.type ≠ 0
  consistent : Consistent sb d (Function.update inodes i ip)
  fits : off + src.length ≤ MAXFILE * BSIZE
  covered : ∀ bn, bn * BSIZE < off → addrOf d ip (place bn) ≠ 0

section

variable {m : Nat} (h : Ready sb inodes i d ip off src) (hne : src ≠ [])

include h hne

theorem Ready.block_lt : off / BSIZE < MAXFILE := by
  have hlen := List.length_pos_of_ne_nil hne
  have hfits := h.fits
  unfold MAXFILE NDIRECT NINDIRECT BSIZE at *
  omega

theorem Ready.mapped (hmap : bmap sb d ip (off / BSIZE) = .ok (d', ip', addr)) :
    Wrote sb inodes i d d' ip ip' off off src ∧
      (addr ≠ 0 → addr = addrOf d' ip' (place (off / BSIZE))) ∧ (addr = 0 → Full sb d') := by
  obtain ⟨_, _, _, heq, hmapped⟩ := bmap_wrote h.consistent h.slot h.type (h.block_lt hne) h.covered src
  rw [hmap] at heq
  cases heq
  exact hmapped

theorem Ready.log (hmap : bmap sb d ip (off / BSIZE) = .ok (d', ip', addr)) :
    (∀ c ∈ bmapLog sb d ip (off / BSIZE), Member sb d d' ip ip' (off / BSIZE) (off / BSIZE + 1) c) ∧
      (∀ c, c ∉ bmapLog sb d ip (off / BSIZE) → d' c = d c) ∧
      (addrOf d ip (place (off / BSIZE)) = 0 → addr ≠ 0 → addr ∈ bmapLog sb d ip (off / BSIZE)) ∧
      (addrOf d ip (place (off / BSIZE)) ≠ 0 → bmapLog sb d ip (off / BSIZE) = []) :=
  bmapLog_spec h.consistent h.slot h.type (h.block_lt hne) hmap

/-- The part of the block is written, all of it or up to where the copy fails. -/
theorem Ready.written (hmap : bmap sb d ip (off / BSIZE) = .ok (d', ip', addr)) (haddr : addr ≠ 0)
    (hm : m ≤ BSIZE - off % BSIZE) : Wrote sb inodes i d'
      (Function.update d' addr (fill (d' addr) (off % BSIZE) m fun x => src.getD x 0)) ip' ip' off
      (off + m) src := by
  obtain ⟨hmapped, hat, -⟩ := h.mapped hne hmap
  have ht' : ip'.type ≠ 0 := by
    rw [hmapped.grown.type]
    exact h.type
  have hthere : addrOf d' ip' (place (off / BSIZE)) ≠ 0 := by rwa [← hat haddr]
  rw [hat haddr]
  exact write_wrote hmapped.grown.consistent h.slot ht' hthere hm hmapped.covered src

/-- The block of the turn is mapped and written. -/
theorem Ready.wrote (hmap : bmap sb d ip (off / BSIZE) = .ok (d', ip', addr)) (haddr : addr ≠ 0)
    (hm : m ≤ BSIZE - off % BSIZE) : Wrote sb inodes i d
      (Function.update d' addr (fill (d' addr) (off % BSIZE) m fun x => src.getD x 0)) ip ip' off
      (off + m) src :=
  (h.mapped hne hmap).1.append (m := 0) (h.written hne hmap haddr hm) (Nat.le_add_right ..)

/-- The next turn can go on. -/
theorem Ready.next (hmap : bmap sb d ip (off / BSIZE) = .ok (d', ip', addr)) (haddr : addr ≠ 0)
    (hm : m = min src.length (BSIZE - off % BSIZE)) : Ready sb inodes i
      (Function.update d' addr (fill (d' addr) (off % BSIZE) m fun x => src.getD x 0)) ip' (off + m)
      (src.drop m) := by
  have hwrote := h.wrote (m := m) hne hmap haddr (by omega)
  have hfits := h.fits
  refine ⟨h.slot, ?_, hwrote.grown.consistent, ?_, hwrote.covered⟩
  · rw [hwrote.grown.type]
    exact h.type
  · rw [List.length_drop]
    omega

end

/-! ## How many blocks are logged -/

/-- The loop logs only what a write of its blocks can log. -/
theorem Turns.members {e : Ending} (hturns : Turns sb d ip off src copies d' ip' fin blocks e)
    (h : Ready sb inodes i d ip off src) (htop : (off + src.length + BSIZE - 1) / BSIZE ≤ top) :
    Keeps d d' ip ip' ∧ ∀ c ∈ blocks, Member sb d d' ip ip' (off / BSIZE) top c := by
  induction hturns with
  | done => exact ⟨fun _ _ => rfl, fun c hc => absurd hc List.not_mem_nil⟩
  | @full d d' ip ip' off src copies hne hmap =>
    obtain ⟨hmem, -⟩ := h.log hne hmap
    refine ⟨(h.mapped hne hmap).1.keeps, fun c hc => (hmem c hc).head (fun _ _ => rfl) ?_⟩
    have hlen := List.length_pos_of_ne_nil hne
    unfold BSIZE at *
    omega
  | @failed d d' ip ip' off addr j m src copies hne hmap haddr hm hcopy =>
    have hpart : min j m ≤ BSIZE - off % BSIZE := by omega
    obtain ⟨hmem, -⟩ := h.log hne hmap
    refine ⟨(h.wrote hne hmap haddr hpart).keeps,
      fun c hc => (hmem c hc).head (h.written hne hmap haddr hpart).keeps ?_⟩
    have hlen := List.length_pos_of_ne_nil hne
    unfold BSIZE at *
    omega
  | @turn d d' d'' ip ip' ip'' off addr m fin src copies blocks e hne hmap haddr hm hcopy _ ih =>
    have hpart : m ≤ BSIZE - off % BSIZE := by omega
    have hlen := List.length_pos_of_ne_nil hne
    obtain ⟨-, hat, -⟩ := h.mapped hne hmap
    obtain ⟨hmem, -⟩ := h.log hne hmap
    obtain ⟨hkeep, hrest⟩ := ih (h.next hne hmap haddr hm)
      (by rw [List.length_drop]; unfold BSIZE at *; omega)
    have hturn := (h.wrote hne hmap haddr hpart).keeps
    have hkeep' := (h.written hne hmap haddr hpart).keeps.trans hkeep
    have hlo : off / BSIZE < top := by
      unfold BSIZE at *
      omega
    refine ⟨hturn.trans hkeep, fun c hc => ?_⟩
    rcases List.mem_append.mp hc with hc | hc
    · exact (hmem c hc).head hkeep' hlo
    · rcases List.mem_cons.mp hc with rfl | hc
      · have hne' : addrOf d' ip' (place (off / BSIZE)) ≠ 0 := by rwa [← hat haddr]
        have hlast := hkeep' _ hne'
        refine Or.inl ⟨off / BSIZE, Nat.le_refl _, hlo, by rwa [hlast], Or.inl ?_⟩
        rw [hlast, ← hat haddr]
      · refine (hrest c hc).tail hturn ?_
        unfold BSIZE
        omega

/-- The blocks of the file from `lo` up to `top` that are not there. -/
def missing (d : Disk) (ip : Dinode) (lo top : Nat) : Finset Nat :=
  (Finset.Ico lo top).filter fun bn => addrOf d ip (place bn) = 0

/-- Each block counts, each map of a new one, and the indirect block with its map. -/
theorem card_members (hmem : ∀ c ∈ blocks, Member sb d d' ip ip' lo top c) (a : Nat) :
    (blocks ++ [a]).toFinset.card ≤ top - lo + (missing d ip lo top).card + 3 := by
  have hsub : (blocks ++ [a]).toFinset ⊆
      (Finset.Ico lo top).image (fun q => addrOf d' ip' (place q)) ∪
        ((missing d ip lo top).image (fun q => BBLOCK sb (addrOf d' ip' (place q))) ∪
          {ip'.addrs NDIRECT, BBLOCK sb (ip'.addrs NDIRECT), a}) := by
    intro c hc
    rw [List.mem_toFinset, List.mem_append, List.mem_singleton] at hc
    simp only [Finset.mem_union, Finset.mem_image, Finset.mem_insert, Finset.mem_singleton]
    rcases hc with hc | rfl
    · rcases hmem c hc with ⟨q, hlo, hhi, -, rfl | ⟨hzero, rfl⟩⟩ | ⟨-, rfl | rfl⟩
      · exact Or.inl ⟨q, Finset.mem_Ico.mpr ⟨hlo, hhi⟩, rfl⟩
      · exact Or.inr (Or.inl ⟨q, Finset.mem_filter.mpr ⟨Finset.mem_Ico.mpr ⟨hlo, hhi⟩, hzero⟩, rfl⟩)
      · exact Or.inr (Or.inr (Or.inl rfl))
      · exact Or.inr (Or.inr (Or.inr (Or.inl rfl)))
    · exact Or.inr (Or.inr (Or.inr (Or.inr rfl)))
  have hthree : ({ip'.addrs NDIRECT, BBLOCK sb (ip'.addrs NDIRECT), a} : Finset Nat).card ≤ 3 :=
    Finset.card_le_three
  calc (blocks ++ [a]).toFinset.card
    _ ≤ _ := Finset.card_le_card hsub
    _ ≤ _ := Finset.card_union_le _ _
    _ ≤ (top - lo) + ((missing d ip lo top).card + 3) := by
      apply Nat.add_le_add
      · rw [← Nat.card_Ico]
        exact Finset.card_image_le
      · refine (Finset.card_union_le _ _).trans (Nat.add_le_add Finset.card_image_le hthree)
    _ = _ := (Nat.add_assoc ..).symm

theorem card_missing : (missing d ip lo top).card ≤ top - lo := by
  rw [← Nat.card_Ico]
  exact Finset.card_filter_le _ _

theorem card_missing_succ (hlt : lo < top) : (missing d ip lo top).card =
    (missing d ip (lo + 1) top).card + if addrOf d ip (place lo) = 0 then 1 else 0 := by
  have hrange : Finset.Ico lo top = insert lo (Finset.Ico (lo + 1) top) := by
    apply Finset.ext
    intro c
    rw [Finset.mem_insert, Finset.mem_Ico, Finset.mem_Ico]
    omega
  unfold missing
  rw [hrange, Finset.filter_insert]
  split
  · apply Finset.card_insert_of_notMem
    rw [Finset.mem_filter, Finset.mem_Ico]
    omega
  · rfl

/-- The first block of an unaligned range is there. -/
theorem card_missing_of_first (hlt : lo < top) (hfirst : addrOf d ip (place lo) ≠ 0) :
    (missing d ip lo top).card + 1 ≤ top - lo := by
  have hrest := @card_missing d (lo + 1) top ip
  rw [card_missing_succ hlt, if_neg hfirst]
  omega

/-- A write of a chunk logs no more blocks than a transaction may have. -/
theorem chunk_fits (h : Consistent sb d (dinode sb d)) (hi : i < sb.islots)
    (ht : (dinode sb d i).type ≠ 0) (hoff : off < 4294967296) (hlen : src.length ≤ maxChunk)
    (copies : List Copy) :
    (writeiLog sb d i (dinode sb d i) off src copies).toFinset.card ≤ log.MAXOPBLOCKS := by
  have hchunk : maxChunk = 3072 := rfl
  have hlimit : MAXFILE * BSIZE = 274432 := rfl
  have hten : log.MAXOPBLOCKS = 10 := rfl
  unfold writeiLog
  split
  · exact Nat.zero_le _
  · rename_i hrange
    split
    · exact Nat.zero_le _
    · rename_i hbig
      have hin : off ≤ (dinode sb d i).size ∧ off + src.length ≤ MAXFILE * BSIZE := by
        unfold uint at hrange hbig
        omega
      have hcover : ∀ bn, bn * BSIZE < off → addrOf d (dinode sb d i) (place bn) ≠ 0 :=
        fun bn hlt => h.covered i hi ht bn (by omega)
      obtain ⟨d', ip', fin, -, heq, -⟩ := writeiLoop_wrote (k := src.length) (h.open i) hi ht hin.2 hcover
        (Nat.le_refl _) copies
      obtain ⟨e, hturns⟩ := turns_of_loop heq (Nat.le_refl _)
      obtain ⟨-, hmem⟩ := hturns.members ⟨hi, ht, h.open i, hin.2, hcover⟩ (Nat.le_refl _)
      have hcard := card_members hmem (IBLOCK sb i)
      by_cases hfour : (off + src.length + BSIZE - 1) / BSIZE - off / BSIZE = 4
      · -- four blocks: the first one is there already
        have hfirst : addrOf d (dinode sb d i) (place (off / BSIZE)) ≠ 0 := by
          apply hcover
          unfold BSIZE at *
          omega
        have hmissing := card_missing_of_first
          (show off / BSIZE < (off + src.length + BSIZE - 1) / BSIZE by omega) hfirst
        omega
      · have hmissing := @card_missing d (off / BSIZE) ((off + src.length + BSIZE - 1) / BSIZE)
          (dinode sb d i)
        unfold BSIZE at *
        omega

/-! ## filewrite -/

/-- Each transaction of a `filewrite` logs at most `MAXOPBLOCKS` blocks, whatever other processes
have done to the disk and to the offset since the one before it. -/
theorem each_chunk_fits_its_reservation {ts : List Found} (hi : i < sb.islots)
    (hfound : ∀ t ∈ ts, Consistent sb t.disk (dinode sb t.disk) ∧ (dinode sb t.disk i).type ≠ 0 ∧
      t.off < 4294967296) :
    ∀ blocks ∈ filewriteLog sb i ts src, blocks.toFinset.card ≤ log.MAXOPBLOCKS := by
  unfold filewriteLog
  induction ts generalizing src with
  | nil => exact fun blocks hmem => absurd hmem List.not_mem_nil
  | cons t ts ih =>
    intro blocks hmem
    unfold filewriteLoop at hmem
    split at hmem
    · exact absurd hmem List.not_mem_nil
    · rcases List.mem_cons.mp hmem with rfl | hmem
      · obtain ⟨h, ht, hoff⟩ := hfound t List.mem_cons_self
        refine chunk_fits h hi ht hoff ?_ t.copies
        rw [List.length_take]
        exact Nat.min_le_left ..
      · split at hmem
        · exact ih (fun t ht => hfound t (List.mem_cons_of_mem _ ht)) blocks hmem
        · exact absurd hmem List.not_mem_nil

/-- A new file is written on the small disk, where the loop stops after its first transaction. -/
theorem a_long_write_fits : ∃ s, Run (State.step eightBlocks) anyStep (State.start noFiles)
    [.ialloc 2] s ∧ ∀ blocks ∈ filewriteLog eightBlocks 1 [⟨s.disk, 0, []⟩, ⟨s.disk, 0, []⟩]
      (List.replicate 9000 7), blocks.toFinset.card ≤ log.MAXOPBLOCKS := by
  have hcomputed : (exec (State.step eightBlocks) anyStep (State.start noFiles) [.ialloc 2]).any
      (fun s => (dinode eightBlocks s.disk 1).type = 2) = true := by decide +kernel
  obtain ⟨s, hs, htype⟩ := (Option.any_eq_true _ _).mp hcomputed
  have htype := of_decide_eq_true htype
  have hd := (safe_run noFiles_consistent (run_of_exec hs)).1.disk
  refine ⟨s, run_of_exec hs, each_chunk_fits_its_reservation (by decide) ?_⟩
  intro t ht
  simp only [List.mem_cons, List.not_mem_nil, or_false, or_self] at ht
  subst ht
  refine ⟨hd, ?_, show 0 < 4294967296 by decide⟩
  rw [htype]
  decide

end xv6.fs
