-- A directory is a list of entries (kernel/fs.c): `dirlookup` finds the first
-- one with the name, and `dirlink` fills the first empty one or adds one at
-- the end, all of it or nothing.
import SysNet.Xv6.Names

open runs arrays bytes fields

namespace xv6.paths

open fs (BSIZE MAXFILE Disk Dinode Superblock uint content dinode Consistent Sound Full)
open sysfile (DIRSIZ ROOTINO T_DIR Name Dirent elems)

variable {sb : Superblock} {d d' : Disk} {ip ip' : Dinode} {name : Buffer} {l src : List UInt8}
  {inodes : Nat → Dinode} {i inum off n k turns : Nat}

/-! ## Entries -/

/-- The entry of the `struct dirent`. -/
def direntOf (de : Buffer) : Dirent := ⟨get16 de 0, nameIn (nameOf de)⟩

/-- The entry with the number, in the bytes of a directory. -/
def direntAt (l : List UInt8) (k : Nat) : Dirent := direntOf (asStruct (part l (16 * k) 16))

def entriesOf (l : List UInt8) : List Dirent := (List.range (l.length / 16)).map (direntAt l)

theorem length_content (d : Disk) (ip : Dinode) : (content d ip).length = ip.size := length_listed

theorem length_part (h : off + n ≤ l.length) : (part l off n).length = n := by
  unfold part
  rw [List.length_take, List.length_drop]
  omega

/-- The entry is read. -/
theorem readi_dirent (h : Consistent sb d (Function.update inodes i ip)) (hi : i < sb.islots)
    (ht : ip.type ≠ 0) (hk : 16 * (k + 1) ≤ ip.size) :
    fs.readi sb d ip (16 * k) 16 [] = .ok (d, ip, part (content d ip) (16 * k) 16, true) ∧
      (part (content d ip) (16 * k) 16).length = 16 := by
  have hself : Function.update inodes i ip i = ip := Function.update_self ..
  have hbound := h.bounded i hi (by rwa [hself])
  rw [hself] at hbound
  have hmax : MAXFILE * BSIZE = 274432 := rfl
  have hread := fs.readi_content (n := 16) h hi ht (show 16 * k < 4294967296 by omega) (by decide)
  rw [if_pos (by omega)] at hread
  refine ⟨hread, length_part ?_⟩
  rw [length_content]
  omega

/-- The loop finds the first entry from there on that has the name. -/
theorem dirlookupLoop_spec (h : Consistent sb d (Function.update inodes i ip)) (hi : i < sb.islots)
    (ht : ip.type ≠ 0) (hwhole : ip.size = 16 * n) (hk : k ≤ n) (hturns : n ≤ k + turns) :
    dirlookupLoop sb name turns d ip (16 * k) = .ok (d, ip, ((List.range' k (n - k)).find? fun j =>
      (direntAt (content d ip) j).inum ≠ 0 ∧ (direntAt (content d ip) j).name = nameIn name).map fun j =>
        (16 * j, (direntAt (content d ip) j).inum)) := by
  have hself : Function.update inodes i ip i = ip := Function.update_self ..
  have hbound := h.bounded i hi (by rwa [hself])
  rw [hself] at hbound
  have hmax : MAXFILE * BSIZE = 274432 := rfl
  induction turns generalizing k with
  | zero =>
    obtain rfl : k = n := by omega
    rw [dirlookupLoop, if_neg (by omega), Nat.sub_self]
    rfl
  | succ turns ih =>
    rw [dirlookupLoop]
    by_cases hlt : k < n
    · obtain ⟨hread, hlen⟩ := readi_dirent (k := k) h hi ht (by omega)
      have hnext : uint (16 * k + 16) = 16 * (k + 1) := by
        unfold uint
        omega
      have hcount : n - k = n - (k + 1) + 1 := by omega
      have hih := ih (k := k + 1) (by omega) (by omega)
      rw [if_pos (by omega), hread, hcount, List.range'_succ]
      change (if (part (content d ip) (16 * k) 16).length ≠ 16 then _ else _) = _
      rw [if_neg (not_not.mpr hlen), hnext, hih]
      have hinum : get16 (asStruct (part (content d ip) (16 * k) 16)) 0 =
        (direntAt (content d ip) k).inum := rfl
      have hname : namecmp name (nameOf (asStruct (part (content d ip) (16 * k) 16))) = 0 ↔
          (direntAt (content d ip) k).name = nameIn name := by
        rw [namecmp_eq_zero]
        exact eq_comm
      rw [hinum]
      by_cases hzero : (direntAt (content d ip) k).inum = 0
      · rw [if_pos hzero, List.find?_cons_of_neg (by simp [hzero])]
      · rw [if_neg hzero]
        by_cases hsame : (direntAt (content d ip) k).name = nameIn name
        · rw [if_pos (hname.mpr hsame), List.find?_cons_of_pos (by simp [hzero, hsame])]
          rfl
        · rw [if_neg (fun heq => hsame (hname.mp heq)), List.find?_cons_of_neg (by simp [hsame])]
    · obtain rfl : k = n := by omega
      rw [if_neg (by omega), Nat.sub_self]
      rfl

/-- The loop finds the first empty entry, or the end. -/
theorem emptyLoop_spec (h : Consistent sb d (Function.update inodes i ip)) (hi : i < sb.islots)
    (ht : ip.type ≠ 0) (hwhole : ip.size = 16 * n) (hk : k ≤ n) (hturns : n ≤ k + turns) :
    emptyLoop sb turns d ip (16 * k) = .ok (d, ip, 16 * (((List.range' k (n - k)).find? fun j =>
      (direntAt (content d ip) j).inum = 0).getD n)) := by
  have hself : Function.update inodes i ip i = ip := Function.update_self ..
  have hbound := h.bounded i hi (by rwa [hself])
  rw [hself] at hbound
  have hmax : MAXFILE * BSIZE = 274432 := rfl
  induction turns generalizing k with
  | zero =>
    obtain rfl : k = n := by omega
    rw [emptyLoop, if_neg (by omega), Nat.sub_self]
    rfl
  | succ turns ih =>
    rw [emptyLoop]
    by_cases hlt : k < n
    · obtain ⟨hread, hlen⟩ := readi_dirent (k := k) h hi ht (by omega)
      have hnext : uint (16 * k + 16) = 16 * (k + 1) := by
        unfold uint
        omega
      have hcount : n - k = n - (k + 1) + 1 := by omega
      have hih := ih (k := k + 1) (by omega) (by omega)
      rw [if_pos (by omega), hread, hcount, List.range'_succ]
      change (if (part (content d ip) (16 * k) 16).length ≠ 16 then _ else _) = _
      rw [if_neg (not_not.mpr hlen), hnext, hih]
      have hinum : get16 (asStruct (part (content d ip) (16 * k) 16)) 0 =
        (direntAt (content d ip) k).inum := rfl
      rw [hinum]
      by_cases hzero : (direntAt (content d ip) k).inum = 0
      · rw [if_pos hzero, List.find?_cons_of_pos (by simp [hzero])]
        rfl
      · rw [if_neg hzero, List.find?_cons_of_neg (by simp [hzero])]
    · obtain rfl : k = n := by omega
      rw [if_neg (by omega), Nat.sub_self]
      rfl

/-- The inode as one with names. -/
def inodeOf (sb : Superblock) (d : Disk) (i : Nat) : sysfile.Inode where
  type := (dinode sb d i).type
  major := sysfile.short (dinode sb d i).major
  minor := sysfile.short (dinode sb d i).minor
  nlink := sysfile.short (dinode sb d i).nlink
  entries := entriesOf (content d (dinode sb d i))

theorem length_entriesOf (l : List UInt8) : (entriesOf l).length = l.length / 16 := by
  unfold entriesOf
  rw [List.length_map, List.length_range]

theorem getElem?_entriesOf (hk : k < l.length / 16) : (entriesOf l)[k]? = some (direntAt l k) := by
  unfold entriesOf
  rw [List.getElem?_map, List.getElem?_range hk, Option.map_some]

/-- The first entry of a range, and the first index of the list. -/
theorem findIdx?_entriesOf (p : Dirent → Bool) (l : List UInt8) :
    (entriesOf l).findIdx? p = (List.range' 0 (l.length / 16)).find? fun j => p (direntAt l j) := by
  rw [← List.range_eq_range']
  have hlen := length_entriesOf l
  have hget : ∀ j, ∀ hj : j < (entriesOf l).length, (entriesOf l)[j] = direntAt l j := by
    intro j hj
    have hsome := getElem?_entriesOf (l := l) (k := j) (by omega)
    rw [List.getElem?_eq_getElem hj] at hsome
    exact Option.some.inj hsome
  cases hfind : (List.range (l.length / 16)).find? fun j => p (direntAt l j) with
  | none =>
    rw [List.findIdx?_eq_none_iff]
    intro de hde
    obtain ⟨j, hj, rfl⟩ := List.getElem_of_mem hde
    rw [hget j hj]
    have hno := List.find?_eq_none.mp hfind j (List.mem_range.mpr (by omega))
    simpa using hno
  | some j =>
    obtain ⟨hp, hj, hbefore⟩ := List.find?_range_eq_some.mp hfind
    rw [List.mem_range] at hj
    rw [List.findIdx?_eq_some_iff_getElem]
    refine ⟨by omega, ?_, fun j' hj' => ?_⟩
    · rw [hget]
      exact hp
    · rw [hget j' (by omega)]
      simpa using hbefore j' hj'

theorem entries_inodeOf : (inodeOf sb d i).entries = entriesOf (content d (dinode sb d i)) := rfl

theorem getD_entriesOf (hk : k < l.length / 16) (x : Dirent) : (entriesOf l).getD k x = direntAt l k := by
  rw [List.getD_eq_getElem?_getD, getElem?_entriesOf hk, Option.getD_some]

theorem inumAt_of_entries {i : sysfile.Inode} (h : i.entries = entriesOf l) (hk : k < l.length / 16) :
    i.inumAt k = (direntAt l k).inum := by
  unfold sysfile.Inode.inumAt
  rw [h, getD_entriesOf hk]

theorem inumAt_inodeOf (hk : k < (dinode sb d i).size / 16) :
    (inodeOf sb d i).inumAt k = (direntAt (content d (dinode sb d i)) k).inum := by
  have hlen : k < (content d (dinode sb d i)).length / 16 := by
    rw [length_content]
    exact hk
  exact inumAt_of_entries entries_inodeOf hlen

/-! ## dirlookup -/

variable {s s' : fs.State} {dp e : Nat}

theorem set_same (s : fs.State) (e : Nat) : ({ s with disk := s.disk } : fs.State).set e (s.itable e) = s := by
  unfold fs.State.set
  rw [Function.update_eq_self]

/-- `dirlookup` is a lookup in the list of entries. -/
theorem dirlookup_spec (h : Sound sb s) (he : s.held dp) (htype : (s.itable dp).copy.type = T_DIR)
    (hwhole : (s.itable dp).copy.size % 16 = 0) (name : Buffer) :
    ((inodeOf sb s.disk (s.itable dp).inum).slot (nameIn name) = none →
      dirlookup sb s dp name = .ok (s, none)) ∧
    ∀ k, (inodeOf sb s.disk (s.itable dp).inum).slot (nameIn name) = some k →
      k < (s.itable dp).copy.size / 16 ∧
      dirlookup sb s dp name =
        (below (fs.iget s ((inodeOf sb s.disk (s.itable dp).inum).inumAt k))).map
          fun r => (r.1, some (r.2, 16 * k)) := by
  obtain ⟨hi, hcopy, ht⟩ := h.held he
  have hsize : (s.itable dp).copy.size = 16 * ((s.itable dp).copy.size / 16) := by omega
  have hloop : dirlookupLoop sb name (((s.itable dp).copy.size + 15) / 16) s.disk
      (dinode sb s.disk (s.itable dp).inum) (16 * 0) = _ := dirlookupLoop_spec (k := 0)
    (h.disk.open _) hi ht (show (dinode sb s.disk (s.itable dp).inum).size = _ by rw [← hcopy]; exact hsize)
    (Nat.zero_le _) (by omega)
  rw [← hcopy, Nat.mul_zero, Nat.sub_zero] at hloop
  have hslot : (inodeOf sb s.disk (s.itable dp).inum).slot (nameIn name) =
      (List.range' 0 ((s.itable dp).copy.size / 16)).find? fun j =>
        (direntAt (content s.disk (s.itable dp).copy) j).inum ≠ 0 ∧
          (direntAt (content s.disk (s.itable dp).copy) j).name = nameIn name := by
    unfold sysfile.Inode.slot inodeOf
    simp only []
    rw [findIdx?_entriesOf, length_content, ← hcopy]
  rw [hslot]
  unfold dirlookup
  simp only []
  rw [if_neg (not_not.mpr htype), hloop]
  refine ⟨fun hnone => ?_, fun k hsome => ?_⟩
  · rw [hnone]
    change Except.ok (_, none) = _
    rw [set_same]
  · have hk : k < (s.itable dp).copy.size / 16 := by
      have hmem := List.mem_of_find?_eq_some hsome
      rw [List.mem_range'_1] at hmem
      omega
    refine ⟨hk, ?_⟩
    rw [hsome, inumAt_inodeOf (by rw [← hcopy]; exact hk), ← hcopy]
    change (below (fs.iget (({ s with disk := s.disk } : fs.State).set dp (s.itable dp)) _) >>= _) = _
    rw [set_same]
    cases below (fs.iget s (direntAt (content s.disk (s.itable dp).copy) k).inum) with
    | error e => rfl
    | ok r => rfl

/-! ## Entries are written -/

theorem length_direntBytes (name : Buffer) (inum : Nat) : (direntBytes name inum).length = 16 := by
  unfold direntBytes
  rw [List.length_append, List.length_map, List.length_range]
  rfl

theorem getD_direntBytes (h : i < DIRSIZ) :
    (direntBytes name inum).getD (2 + i) 0 = (nameIn name).getD i 0 := by
  have hidx : 2 + i - [byte inum 0, byte inum 1].length = i := Nat.add_sub_cancel_left 2 i
  unfold direntBytes
  rw [List.getD_eq_getElem?_getD, List.getElem?_append_right (Nat.le_add_right 2 i), hidx, List.getElem?_map,
    List.getElem?_range h, Option.map_some, Option.getD_some, strncpy_in h]
  rfl

/-- The number and the name are read back. -/
theorem direntOf_direntBytes (name : Buffer) (inum : Nat) :
    direntOf (asStruct (direntBytes name inum)) = ⟨inum % 65536, nameIn name⟩ := by
  have hinum : get16 (asStruct (direntBytes name inum)) 0 = inum % 65536 := by
    apply get16_of_bytes
    intro k hk
    rcases k with _ | _ | k
    · rfl
    · rfl
    · omega
  have hname := textIn_of_list (l := nameIn name) (n := DIRSIZ)
    (f := nameOf (asStruct (direntBytes name inum))) (fun x hx => ne_zero_of_mem_textIn hx)
    fun j hj _ => getD_direntBytes hj
  have hshort : (nameIn name).length ≤ DIRSIZ := length_textIn_le ..
  rw [List.take_of_length_le hshort] at hname
  unfold direntOf
  rw [hinum]
  exact congrArg _ hname

theorem direntAt_overwrite_self {b : List UInt8} (hb : b.length = 16) (hoff : 16 * k ≤ l.length) :
    direntAt (overwrite l (16 * k) b) k = direntOf (asStruct b) := by
  have hpart : part (overwrite l (16 * k) b) (16 * k) b.length = b := part_overwrite hoff
  rw [hb] at hpart
  unfold direntAt
  rw [hpart]

theorem direntAt_overwrite_of_ne {b : List UInt8} {j : Nat} (hb : b.length = 16) (hoff : 16 * k ≤ l.length)
    (hjk : j ≠ k) : direntAt (overwrite l (16 * k) b) j = direntAt l j := by
  unfold direntAt
  rw [part_overwrite_apart hoff (by omega)]

/-- An entry is written over another one. -/
theorem entriesOf_overwrite {b : List UInt8} (hwhole : l.length = 16 * n) (hk : k < n) (hb : b.length = 16) :
    entriesOf (overwrite l (16 * k) b) = (entriesOf l).set k (direntOf (asStruct b)) := by
  have hoff : 16 * k ≤ l.length := by omega
  have hlen : (overwrite l (16 * k) b).length = 16 * n := by
    rw [length_overwrite hoff, hb]
    omega
  apply List.ext_getElem?
  intro j
  by_cases hj : j < n
  · rw [getElem?_entriesOf (by omega)]
    by_cases hjk : j = k
    · subst hjk
      rw [direntAt_overwrite_self hb hoff, List.getElem?_set_self (by rw [length_entriesOf]; omega)]
    · rw [direntAt_overwrite_of_ne hb hoff hjk, List.getElem?_set_ne (Ne.symm hjk),
        getElem?_entriesOf (by omega)]
  · rw [List.getElem?_eq_none (by rw [length_entriesOf]; omega),
      List.getElem?_eq_none (by rw [List.length_set, length_entriesOf]; omega)]

/-- An entry is written at the end. -/
theorem entriesOf_append {b : List UInt8} (hwhole : l.length = 16 * n) (hb : b.length = 16) :
    entriesOf (overwrite l (16 * n) b) = entriesOf l ++ [direntOf (asStruct b)] := by
  have hoff : 16 * n ≤ l.length := by omega
  have hlen : (overwrite l (16 * n) b).length = 16 * (n + 1) := by
    rw [length_overwrite hoff, hb]
    omega
  have hold : (entriesOf l).length = n := by
    rw [length_entriesOf]
    omega
  apply List.ext_getElem?
  intro j
  by_cases hj : j < n
  · rw [getElem?_entriesOf (by omega), direntAt_overwrite_of_ne hb hoff (by omega),
      List.getElem?_append_left (by omega), getElem?_entriesOf (by omega)]
  · rw [List.getElem?_append_right (by omega), hold]
    by_cases hn : j = n
    · subst hn
      rw [getElem?_entriesOf (by omega), direntAt_overwrite_self hb hoff, Nat.sub_self]
      rfl
    · rw [List.getElem?_eq_none (by rw [length_entriesOf]; omega), List.getElem?_eq_none (by simp; omega)]

theorem overwrite_nil (l : List UInt8) (off : Nat) : overwrite l off [] = l := by
  unfold overwrite
  rw [List.append_nil, List.length_nil, Nat.add_zero, List.take_append_drop]

theorem writeiLoop_nil (k : Nat) (copies : List fs.Copy) :
    fs.writeiLoop sb d ip k off [] copies = .ok (d, ip, off) := by
  cases k with
  | zero => rfl
  | succ k =>
    unfold fs.writeiLoop
    rw [if_pos rfl]

/-- What fits into one block is written in one turn, or not at all. -/
theorem writeiLoop_block {fin : Nat} (hfit : src.length ≤ BSIZE - off % BSIZE)
    (heq : fs.writeiLoop sb d ip k off src [] = .ok (d', ip', fin)) : fin = off ∨ fin = off + src.length := by
  cases k with
  | zero =>
    cases heq
    exact Or.inl rfl
  | succ k =>
    unfold fs.writeiLoop at heq
    by_cases hnil : src = []
    · rw [if_pos hnil] at heq
      cases heq
      exact Or.inl rfl
    · rw [if_neg hnil] at heq
      cases hmap : fs.bmap sb d ip (off / BSIZE) with
      | error e =>
        rw [hmap] at heq
        cases heq
      | ok r =>
        obtain ⟨d₁, ip₁, addr⟩ := r
        rw [hmap] at heq
        simp only [] at heq
        by_cases hzero : addr = 0
        · rw [if_pos hzero] at heq
          cases heq
          exact Or.inl rfl
        · rw [if_neg hzero, List.headD_nil] at heq
          simp only [] at heq
          rw [Nat.min_eq_left hfit, List.drop_length, List.tail_nil, writeiLoop_nil] at heq
          cases heq
          exact Or.inr rfl

/-- An entry is written whole or not at all. -/
theorem writei_dirent {b : List UInt8} (h : Consistent sb d (dinode sb d)) (hi : i < sb.islots)
    (ht : (dinode sb d i).type ≠ 0) (hoff : 16 * k ≤ (dinode sb d i).size)
    (hmax : 16 * (k + 1) ≤ MAXFILE * BSIZE) (hb : b.length = 16) :
    ∃ d' ip' r, fs.writei sb d i (dinode sb d i) (16 * k) b [] = .ok (d', ip', some (16 * k + r)) ∧
      (r = 16 ∨ r = 0 ∧ Full sb d') ∧ ip'.size = max (dinode sb d i).size (16 * k + r) ∧
      content d' ip' = overwrite (content d (dinode sb d i)) (16 * k) (b.take r) ∧
      dinode sb d' i = ip' ∧ fs.Alone sb i d d' ∧
      { ip' with size := (dinode sb d i).size, addrs := (dinode sb d i).addrs } = dinode sb d i := by
  have hlimit : 16 * k + b.length ≤ MAXFILE * BSIZE := by omega
  have hblock : b.length ≤ BSIZE - 16 * k % BSIZE := by
    have hbsize : BSIZE = 1024 := rfl
    rw [hbsize]
    omega
  have hcover := h.covered i hi ht
  obtain ⟨d', ip', r, heq, hr, hfull, hsize, hcontent, hdinode, halone⟩ :=
    fs.writei_content h hi ht hoff hlimit
  obtain ⟨d₁, ip₁, fin, past, hloop, -, -, hwrote, -⟩ := fs.writeiLoop_wrote (k := b.length) (h.open i)
    hi ht hlimit (fun bn hlt => hcover bn (by omega)) (Nat.le_refl _) []
  have hresult := fs.writei_of_loop (i := i) hoff hlimit hloop hwrote.grown.size
  rw [heq] at hresult
  obtain ⟨-, hrest⟩ := Prod.mk.inj (Except.ok.inj hresult)
  obtain ⟨hip, hfin⟩ := Prod.mk.inj hrest
  have hend : fin = 16 * k + r := (Option.some.inj hfin).symm
  have hturn := writeiLoop_block hblock hloop
  refine ⟨d', ip', r, heq, ?_, hsize, hcontent, hdinode, halone, ?_⟩
  · rcases hturn with hnone | hall
    · exact Or.inr ⟨by omega, hfull (by omega)⟩
    · exact Or.inl (by omega)
  · rw [hip]
    exact congrArg (fun x : Dinode => { x with size := (dinode sb d i).size }) hwrote.grown.same

/-! ## dirlink -/

/-- The entry is of a directory, which has whole entries. -/
structure Directory (sb : Superblock) (s : fs.State) (dp : Nat) : Prop where
  sound : Sound sb s
  held : s.held dp
  type : (s.itable dp).copy.type = T_DIR
  whole : (s.itable dp).copy.size % 16 = 0

/-- The directory of an entry, as one with names. -/
def directoryOf (sb : Superblock) (s : fs.State) (dp : Nat) : sysfile.Inode :=
  inodeOf sb s.disk (s.itable dp).inum

/-- What `dirlink` does with an entry, if it returns. -/
structure Links (sb : Superblock) (s s' : fs.State) (dp : Nat) (de : Dirent) (made : Bool) : Prop where
  directory : Directory sb s' dp
  inum : (s'.itable dp).inum = (s.itable dp).inum
  alone : fs.Alone sb (s.itable dp).inum s.disk s'.disk
  linked : made = true → (directoryOf sb s dp).slot de.name = none ∧
    (directoryOf sb s dp).link de true = some (directoryOf sb s' dp)
  kept : made = false → directoryOf sb s' dp = directoryOf sb s dp ∧
    ((directoryOf sb s dp).slot de.name ≠ none ∨ (directoryOf sb s dp).link de true = none ∨ Full sb s'.disk)

theorem alone_refl (sb : Superblock) (i : Nat) (d : Disk) : fs.Alone sb i d d := fun _ _ _ _ => ⟨rfl, rfl⟩

/-- A table with entries in use of the table before, and no others. -/
theorem sound_of_fewer (h : Sound sb s) (hdisk : s'.disk = s.disk)
    (hsame : ∀ e, 0 < (s'.itable e).ref → s'.itable e = s.itable e) : Sound sb s' where
  disk := by
    rw [hdisk]
    exact h.disk
  entry e he := by
    have heq := hsame e he
    rw [heq] at he
    exact h.entry e he
  inum e he := by
    have heq := hsame e he
    rw [heq] at he ⊢
    exact h.inum e he
  once e e' he he' hinum := by
    have heq := hsame e he
    have heq' := hsame e' he'
    rw [heq] at he hinum
    rw [heq'] at he' hinum
    exact h.once e e' he he' hinum
  copy e he hv := by
    have heq := hsame e he
    rw [heq] at he hv ⊢
    rw [hdisk]
    exact h.copy e he hv

theorem set_set (s : fs.State) (e : Nat) (x y : fs.Inode) : (s.set e x).set e y = s.set e y := by
  unfold fs.State.set
  simp only [Function.update_idem]

/-- A reference that is taken and given back. -/
theorem iget_iput {s₁ : fs.State} (h : Sound sb s) (hget : fs.iget s i = .ok (s₁, e)) :
    ∃ s', fs.iput sb s₁ e = .ok s' ∧ Sound sb s' ∧ s'.disk = s.disk ∧
      ∀ e', 0 < (s.itable e').ref → s'.itable e' = s.itable e' := by
  unfold fs.iget at hget
  cases hfound : (List.range fs.NINODE).find? fun e => 0 < (s.itable e).ref ∧ (s.itable e).inum = i with
  | some e₁ =>
    rw [hfound] at hget
    obtain ⟨rfl, rfl⟩ := Prod.mk.inj (Except.ok.inj hget)
    have hused := List.find?_some hfound
    simp only [decide_eq_true_eq] at hused
    have hself : (s.set e₁ { s.itable e₁ with ref := (s.itable e₁).ref + 1 }).itable e₁ =
        { s.itable e₁ with ref := (s.itable e₁).ref + 1 } := Function.update_self ..
    refine ⟨s, ?_, h, rfl, fun _ _ => rfl⟩
    unfold fs.iput
    simp only [hself]
    rw [if_neg (by omega)]
    unfold fs.State.set
    simp only [Function.update_idem, Nat.add_sub_cancel, Function.update_eq_self]
  | none =>
    rw [hfound] at hget
    simp only [] at hget
    cases hfree : (List.range fs.NINODE).find? fun e => (s.itable e).ref = 0 with
    | none =>
      rw [hfree] at hget
      cases hget
    | some e₁ =>
      rw [hfree] at hget
      obtain ⟨rfl, rfl⟩ := Prod.mk.inj (Except.ok.inj hget)
      have hunused := List.find?_some hfree
      simp only [decide_eq_true_eq] at hunused
      have hself : (s.set e₁ { s.itable e₁ with inum := i, ref := 1, valid := false }).itable e₁ =
          { s.itable e₁ with inum := i, ref := 1, valid := false } := Function.update_self ..
      have hother : ∀ e', e' ≠ e₁ →
          (s.set e₁ { s.itable e₁ with inum := i, ref := 0, valid := false }).itable e' = s.itable e' :=
        fun e' hne => Function.update_of_ne hne ..
      refine ⟨s.set e₁ { s.itable e₁ with inum := i, ref := 0, valid := false }, ?_,
        sound_of_fewer h rfl fun e' he' => hother e' ?_, rfl, fun e' he' => hother e' ?_⟩
      · unfold fs.iput
        simp only [hself]
        rw [if_neg fun hlast => (nomatch hlast.2.1), set_set, Nat.sub_self]
      · intro hee
        have hzero : (s.set e₁ { s.itable e₁ with inum := i, ref := 0, valid := false }).itable e₁ =
            { s.itable e₁ with inum := i, ref := 0, valid := false } := Function.update_self ..
        rw [hee, hzero] at he'
        exact absurd he' (Nat.lt_irrefl 0)
      · intro hee
        rw [hee, hunused] at he'
        exact absurd he' (Nat.lt_irrefl 0)

/-- The name is there already. -/
theorem dirlink_found (h : Directory sb s dp) (inum : Nat)
    (hk : (directoryOf sb s dp).slot (nameIn name) = some k) :
    dirlink sb s dp name inum = .error (.fs .igetNoInodes) ∨
      ∃ s', dirlink sb s dp name inum = .ok (s', false) ∧
        Links sb s s' dp ⟨inum % 65536, nameIn name⟩ false := by
  obtain ⟨-, hsome⟩ := dirlookup_spec h.sound h.held h.type h.whole name
  obtain ⟨-, hlookup⟩ := hsome k hk
  unfold dirlink
  rw [hlookup]
  cases hget : fs.iget s ((inodeOf sb s.disk (s.itable dp).inum).inumAt k) with
  | error p =>
    refine Or.inl ?_
    have hp : p = .igetNoInodes := by
      unfold fs.iget at hget
      split at hget
      · cases hget
      · split at hget
        · exact (Except.error.inj hget).symm
        · cases hget
    rw [hp]
    rfl
  | ok r =>
    obtain ⟨s₁, e⟩ := r
    obtain ⟨s', hput, hsound, hdisk, hsame⟩ := iget_iput h.sound hget
    have hdp := hsame dp h.held.2.1
    refine Or.inr ⟨s', ?_, ⟨hsound, ?_, ?_, ?_⟩, by rw [hdp], ?_, fun htrue => (nomatch htrue),
      fun _ => ⟨?_, Or.inl ?_⟩⟩
    · change (below (fs.iput sb s₁ e) >>= _) = _
      rw [hput]
      rfl
    · unfold fs.State.held
      rw [hdp]
      exact h.held
    · rw [hdp]
      exact h.type
    · rw [hdp]
      exact h.whole
    · rw [hdisk]
      exact alone_refl sb _ _
    · unfold directoryOf
      rw [hdisk, hdp]
    · rw [hk]
      exact Option.some_ne_none k

theorem dirlink_of_writei {fin : Option Nat} (hlookup : dirlookup sb s dp name = .ok (s, none))
    (hempty : emptyLoop sb (((s.itable dp).copy.size + 15) / 16) s.disk (s.itable dp).copy 0 =
      .ok (s.disk, (s.itable dp).copy, off))
    (hwrite : fs.writei sb s.disk (s.itable dp).inum (s.itable dp).copy off (direntBytes name inum) [] =
      .ok (d', ip', fin)) :
    dirlink sb s dp name inum =
      .ok ({ s with disk := d' }.set dp { s.itable dp with copy := ip' }, decide (fin = some (off + 16))) := by
  unfold dirlink
  rw [hlookup]
  change (emptyLoop sb _ s.disk (s.itable dp).copy 0 >>= _) = _
  rw [hempty]
  change (below (fs.writei sb s.disk _ (s.itable dp).copy off _ []) >>= _) = _
  rw [hwrite]
  rfl

/-- An inode that has another content. -/
theorem inodeOf_of_same
    (h : { dinode sb d' i with size := (dinode sb d i).size, addrs := (dinode sb d i).addrs } = dinode sb d i) :
    inodeOf sb d' i =
      { inodeOf sb d i with entries := entriesOf (content d' (dinode sb d' i)) } := by
  have htype := congrArg Dinode.type h
  have hmajor := congrArg Dinode.major h
  have hminor := congrArg Dinode.minor h
  have hnlink := congrArg Dinode.nlink h
  simp only at htype hmajor hminor hnlink
  unfold inodeOf
  rw [htype, hmajor, hminor, hnlink]

/-- The state after a write, if the write is one of a whole entry or of none. -/
theorem Directory.wrote {r : Nat} {b : List UInt8} (h : Directory sb s dp)
    (hwrite : fs.writei sb s.disk (s.itable dp).inum (s.itable dp).copy off b [] =
      .ok (d', ip', some (off + r)))
    (hb : b.length = 16) (hoff : off < 4294967296)
    (htype : ip'.type = (s.itable dp).copy.type) (hwhole : ip'.size % 16 = 0) :
    Directory sb ({ s with disk := d' }.set dp { s.itable dp with copy := ip' }) dp := by
  obtain ⟨hi, hcopy, ht⟩ := h.sound.held h.held
  obtain ⟨d₁, ip₁, r₁, heq, hd, htype', hinodes⟩ := fs.writei_spec h.sound.disk hi ht
    (show b.length < 4294967296 by omega) hoff []
  rw [← hcopy, hwrite] at heq
  obtain ⟨rfl, hrest⟩ := Prod.mk.inj (Except.ok.inj heq)
  obtain ⟨rfl, -⟩ := Prod.mk.inj hrest
  have hself : ({ s with disk := d' }.set dp { s.itable dp with copy := ip' } : fs.State).itable dp =
      { s.itable dp with copy := ip' } := Function.update_self ..
  refine ⟨h.sound.change h.held.2.1 hd hinodes rfl fun _ _ => ⟨rfl, htype'⟩, ?_, ?_, ?_⟩
  · unfold fs.State.held
    rw [hself]
    exact h.held
  · rw [hself]
    exact htype.trans h.type
  · rw [hself]
    exact hwhole

variable {x y : sysfile.Inode} {de : Dirent}

theorem link_some {room : Bool} (h : x.entries.findIdx? (fun de => de.inum = 0) = some k) :
    x.link de room = some { x with entries := x.entries.set k de } := by
  unfold sysfile.Inode.link
  rw [h]

theorem link_end (h : x.entries.findIdx? (fun de => de.inum = 0) = none)
    (hmax : 16 * (x.entries.length + 1) ≤ MAXFILE * BSIZE) :
    x.link de true = some { x with entries := x.entries ++ [de] } := by
  unfold sysfile.Inode.link
  rw [h]
  exact if_pos ⟨rfl, hmax⟩

theorem link_full (de : Dirent) (h : x.entries.findIdx? (fun de => de.inum = 0) = none)
    (hmax : ¬ 16 * (x.entries.length + 1) ≤ MAXFILE * BSIZE) : x.link de true = none := by
  unfold sysfile.Inode.link
  rw [h]
  exact if_neg fun hroom => hmax hroom.2

theorem directoryOf_set : directoryOf sb ({ s with disk := d' }.set dp { s.itable dp with copy := ip' }) dp =
    inodeOf sb d' (s.itable dp).inum := by
  have hself : ({ s with disk := d' }.set dp { s.itable dp with copy := ip' } : fs.State).itable dp =
      { s.itable dp with copy := ip' } := Function.update_self ..
  unfold directoryOf
  rw [hself]
  rfl

/-- The entry goes to the place that was found, whole or not at all. -/
theorem dirlink_at (h : Directory sb s dp) (inum : Nat) (hlookup : dirlookup sb s dp name = .ok (s, none))
    (hempty : emptyLoop sb (((s.itable dp).copy.size + 15) / 16) s.disk (s.itable dp).copy 0 =
      .ok (s.disk, (s.itable dp).copy, 16 * k))
    (hk : 16 * k ≤ (s.itable dp).copy.size) (hmax : 16 * (k + 1) ≤ MAXFILE * BSIZE) :
    ∃ s' made, dirlink sb s dp name inum = .ok (s', made) ∧ Directory sb s' dp ∧
      (s'.itable dp).inum = (s.itable dp).inum ∧ fs.Alone sb (s.itable dp).inum s.disk s'.disk ∧
      (made = true → directoryOf sb s' dp =
        { directoryOf sb s dp with
          entries := entriesOf (overwrite (content s.disk (s.itable dp).copy) (16 * k)
            (direntBytes name inum)) }) ∧
      (made = false → directoryOf sb s' dp = directoryOf sb s dp ∧ Full sb s'.disk) := by
  obtain ⟨hi, hcopy, ht⟩ := h.sound.held h.held
  have hwhole := h.whole
  have hlimit : MAXFILE * BSIZE = 274432 := rfl
  have hbytes := length_direntBytes name inum
  obtain ⟨d', ip', r, hwrite, hr, hsize, hcontent, hdinode, halone, hsame⟩ :=
    writei_dirent h.sound.disk hi ht (by rw [← hcopy]; exact hk) hmax hbytes
  have hback : { dinode sb d' (s.itable dp).inum with
      size := (dinode sb s.disk (s.itable dp).inum).size
      addrs := (dinode sb s.disk (s.itable dp).inum).addrs } =
        dinode sb s.disk (s.itable dp).inum := by
    rw [hdinode]
    exact hsame
  have hinode := inodeOf_of_same hback
  rw [← hcopy] at hwrite hsize hcontent hsame
  have htype := congrArg Dinode.type hsame
  have hdir := h.wrote hwrite hbytes (by omega) htype (by omega)
  have hentries : (directoryOf sb s dp).entries = entriesOf (content s.disk (s.itable dp).copy) := by
    unfold directoryOf
    rw [entries_inodeOf, ← hcopy]
  have hnew : directoryOf sb ({ s with disk := d' }.set dp { s.itable dp with copy := ip' }) dp =
      { directoryOf sb s dp with
        entries := entriesOf (overwrite (content s.disk (s.itable dp).copy) (16 * k)
          ((direntBytes name inum).take r)) } := by
    rw [directoryOf_set, hinode, hdinode, hcontent]
    rfl
  have hlink := dirlink_of_writei hlookup hempty hwrite
  refine ⟨_, _, hlink, hdir, ?_, halone, fun hmade => ?_, fun hmade => ?_⟩
  · change (Function.update s.itable dp _ dp).inum = _
    rw [Function.update_self]
  · have hend := Option.some.inj (of_decide_eq_true hmade)
    have hr16 : r = 16 := by omega
    rw [hnew, hr16, List.take_of_length_le (by omega)]
  · have hend := of_decide_eq_false hmade
    rcases hr with rfl | ⟨rfl, hfull⟩
    · exact absurd rfl hend
    · refine ⟨?_, hfull⟩
      rw [hnew, List.take_zero, overwrite_nil, ← hentries]

/-- A new name: its entry goes to the first empty place or to the end, whole or not at all. -/
theorem dirlink_new (h : Directory sb s dp) (inum : Nat)
    (hnone : (directoryOf sb s dp).slot (nameIn name) = none) :
    ∃ s' made, dirlink sb s dp name inum = .ok (s', made) ∧
      Links sb s s' dp ⟨inum % 65536, nameIn name⟩ made := by
  obtain ⟨hi, hcopy, ht⟩ := h.sound.held h.held
  obtain ⟨hlookup, -⟩ := dirlookup_spec h.sound h.held h.type h.whole name
  have hwhole := h.whole
  obtain ⟨n, hn⟩ : ∃ n, (s.itable dp).copy.size = 16 * n := ⟨(s.itable dp).copy.size / 16, by omega⟩
  have hlen : (content s.disk (s.itable dp).copy).length = 16 * n := by rw [length_content, hn]
  have hlimit : MAXFILE * BSIZE = 274432 := rfl
  have hbound := h.sound.disk.bounded _ hi ht
  rw [← hcopy, hn] at hbound
  have hdirent := direntOf_direntBytes name inum
  have hbytes := length_direntBytes name inum
  -- where the loop for an empty entry ends
  have hempty := emptyLoop_spec (k := 0) (h.sound.disk.open _) hi ht
    (show (dinode sb s.disk (s.itable dp).inum).size = 16 * n by rw [← hcopy, hn]) (Nat.zero_le _)
    (show n ≤ 0 + ((s.itable dp).copy.size + 15) / 16 by omega)
  have hfirst := findIdx?_entriesOf (fun de => de.inum = 0) (content s.disk (s.itable dp).copy)
  rw [hlen, Nat.mul_div_cancel_left n (by decide)] at hfirst
  rw [← hcopy, Nat.sub_zero, Nat.mul_zero, ← hfirst] at hempty
  have hentries : (directoryOf sb s dp).entries = entriesOf (content s.disk (s.itable dp).copy) := by
    unfold directoryOf
    rw [entries_inodeOf, ← hcopy]
  have hcount : (directoryOf sb s dp).entries.length = n := by
    rw [hentries, length_entriesOf, hlen, Nat.mul_div_cancel_left n (by decide)]
  cases hplace : (directoryOf sb s dp).entries.findIdx? fun de => de.inum = 0 with
  | some k =>
    have hk : k < n := by
      obtain ⟨hk, -⟩ := List.findIdx?_eq_some_iff_getElem.mp hplace
      omega
    rw [← hentries, hplace, Option.getD_some] at hempty
    obtain ⟨s', made, heq, hdir, hinum, halone, hmade, hfailed⟩ :=
      dirlink_at h inum (hlookup hnone) hempty (by omega) (by omega)
    refine ⟨s', made, heq, hdir, hinum, halone, fun htrue => ⟨hnone, ?_⟩, fun hfalse => ?_⟩
    · rw [link_some hplace, hmade htrue, entriesOf_overwrite hlen hk hbytes, hdirent, ← hentries]
    · exact ⟨(hfailed hfalse).1, Or.inr (Or.inr (hfailed hfalse).2)⟩
  | none =>
    rw [← hentries, hplace, Option.getD_none] at hempty
    by_cases hmax : 16 * (n + 1) ≤ MAXFILE * BSIZE
    · obtain ⟨s', made, heq, hdir, hinum, halone, hmade, hfailed⟩ :=
        dirlink_at h inum (hlookup hnone) hempty (by omega) hmax
      refine ⟨s', made, heq, hdir, hinum, halone, fun htrue => ⟨hnone, ?_⟩, fun hfalse => ?_⟩
      · rw [link_end hplace (by rw [hcount]; exact hmax), hmade htrue, entriesOf_append hlen hbytes, hdirent,
          ← hentries]
      · exact ⟨(hfailed hfalse).1, Or.inr (Or.inr (hfailed hfalse).2)⟩
    · have hfull := link_full ⟨inum % 65536, nameIn name⟩ hplace (by rw [hcount]; exact hmax)
      have hwrite : fs.writei sb s.disk (s.itable dp).inum (s.itable dp).copy (16 * n)
          (direntBytes name inum) [] = _ :=
        fs.writei_refused (by omega) (by omega) (Or.inr (by omega))
      have hrefused := dirlink_of_writei (hlookup hnone) hempty hwrite
      have hsame : ({ s with disk := s.disk } : fs.State).set dp
          { s.itable dp with copy := (s.itable dp).copy } = s := set_same s dp
      rw [hsame] at hrefused
      exact ⟨s, _, hrefused, h, rfl, alone_refl sb _ _, fun htrue => (nomatch htrue),
        fun _ => ⟨rfl, Or.inr (Or.inl hfull)⟩⟩

/-! ## Directories are maps -/

/-- The number that a directory has for a name. -/
def numberOf (x : sysfile.Inode) (name : Name) : Option Nat := (x.slot name).map x.inumAt

theorem numberOf_eq_none {name : Name} : numberOf x name = none ↔ x.slot name = none := Option.map_eq_none_iff

theorem numberOf_eq_find (x : sysfile.Inode) (name : Name) :
    numberOf x name = (x.entries.find? fun de => de.inum ≠ 0 ∧ de.name = name).map Dirent.inum := by
  unfold numberOf
  cases hslot : x.slot name with
  | none =>
    have hnone := List.findIdx?_eq_none_iff.mp hslot
    rw [List.find?_eq_none.mpr (by simpa using hnone)]
    rfl
  | some k =>
    obtain ⟨hk, hp, hbefore⟩ := List.findIdx?_eq_some_iff_getElem.mp hslot
    have hothers : ∀ j (_ : j < k), (!decide (x.entries[j].inum ≠ 0 ∧ x.entries[j].name = name)) = true := by
      intro j hj
      rw [Bool.not_eq_true', ← Bool.not_eq_true]
      exact hbefore j hj
    have hfind : (x.entries.find? fun de => de.inum ≠ 0 ∧ de.name = name) = some x.entries[k] :=
      List.find?_eq_some_iff_getElem.mpr ⟨hp, k, hk, rfl, hothers⟩
    rw [hfind, Option.map_some, Option.map_some]
    unfold sysfile.Inode.inumAt
    rw [List.getD_eq_getElem?_getD, List.getElem?_eq_getElem hk, Option.getD_some]

/-- An entry in the place of one that was not looked for. -/
theorem find?_set {α : Type} {p : α → Bool} {l : List α} {a b : α} (hk : l[k]? = some a) (ha : p a = false)
    (hb : p b = false ∨ l.find? p = none) : (l.set k b).find? p = (l.find? p).or ([b].find? p) := by
  induction l generalizing k with
  | nil => cases hk
  | cons c l ih =>
    cases k with
    | zero =>
      obtain rfl := Option.some.inj hk
      have hc : (c :: l).find? p = l.find? p := List.find?_cons_of_neg (by simp [ha])
      rw [hc] at hb
      rw [List.set_cons_zero, hc]
      cases hpb : p b with
      | true =>
        have hnone : l.find? p = none := hb.resolve_left (by simp [hpb])
        rw [List.find?_cons_of_pos hpb, List.find?_cons_of_pos hpb, hnone, Option.none_or]
      | false =>
        rw [List.find?_cons_of_neg (by simp [hpb]), List.find?_cons_of_neg (by simp [hpb]), List.find?_nil,
          Option.or_none]
    | succ k =>
      rw [List.set_cons_succ]
      cases hpc : p c with
      | true =>
        rw [List.find?_cons_of_pos hpc, List.find?_cons_of_pos hpc]
        rfl
      | false =>
        rw [List.find?_cons_of_neg (by simp [hpc])] at hb
        rw [List.find?_cons_of_neg (by simp [hpc]), List.find?_cons_of_neg (by simp [hpc]), ih hk hb]

/-- The entry comes to what was there. -/
theorem find?_link {p : Dirent → Bool} {room : Bool} (hlink : x.link de room = some y)
    (hp : ∀ de : Dirent, de.inum = 0 → p de = false) (hde : p de = false ∨ x.entries.find? p = none) :
    y.entries.find? p = (x.entries.find? p).or ([de].find? p) := by
  unfold sysfile.Inode.link at hlink
  cases hplace : x.entries.findIdx? fun de => de.inum = 0 with
  | some k =>
    rw [hplace] at hlink
    obtain rfl := Option.some.inj hlink
    obtain ⟨hk, hzero, -⟩ := List.findIdx?_eq_some_iff_getElem.mp hplace
    exact find?_set (List.getElem?_eq_getElem hk) (hp _ (of_decide_eq_true hzero)) hde
  | none =>
    rw [hplace] at hlink
    obtain ⟨-, hy⟩ := Option.ite_none_right_eq_some.mp hlink
    obtain rfl := Option.some.inj hy
    exact List.find?_append

/-- A new name comes to the others. -/
theorem numberOf_link {name : Name} {room : Bool} (hslot : x.slot de.name = none) (hinum : de.inum ≠ 0)
    (hlink : x.link de room = some y) :
    numberOf y name = if de.name = name then some de.inum else numberOf x name := by
  have hnone : numberOf x de.name = none := numberOf_eq_none.mpr hslot
  rw [numberOf_eq_find, Option.map_eq_none_iff] at hnone
  rw [numberOf_eq_find, numberOf_eq_find]
  by_cases hname : de.name = name
  · subst hname
    rw [find?_link hlink (fun de hzero => by simp [hzero]) (Or.inr hnone), hnone, if_pos rfl, Option.none_or,
      List.find?_cons_of_pos (by simp [hinum]), Option.map_some]
  · rw [find?_link hlink (fun de hzero => by simp [hzero]) (Or.inl (by simp [hname])), if_neg hname,
      List.find?_cons_of_neg (by simp [hname]), List.find?_nil, Option.or_none]

/-! ## Over whole runs -/

/-- One `dirlink` with a name and a number, and whether it returned 0. -/
def linkStep (sb : Superblock) (dp : Nat) (s : fs.State) (a : Buffer × Nat × Bool) : Option fs.State :=
  match dirlink sb s dp a.1 a.2.1 with
  | .error _ => none
  | .ok (s', made) => if made = a.2.2 then some s' else none

theorem linkStep_links {a : Buffer × Nat × Bool} (h : Directory sb s dp) (hs : linkStep sb dp s a = some s') :
    Links sb s s' dp ⟨a.2.1 % 65536, nameIn a.1⟩ a.2.2 := by
  unfold linkStep at hs
  cases hslot : (directoryOf sb s dp).slot (nameIn a.1) with
  | none =>
    obtain ⟨s₁, made, heq, hlinks⟩ := dirlink_new h a.2.1 hslot
    rw [heq] at hs
    obtain ⟨hmade, hs⟩ := Option.ite_none_right_eq_some.mp hs
    obtain rfl := Option.some.inj hs
    exact hmade ▸ hlinks
  | some k =>
    rcases dirlink_found h a.2.1 hslot with heq | ⟨s₁, heq, hlinks⟩
    · rw [heq] at hs
      cases hs
    · rw [heq] at hs
      obtain ⟨hmade, hs⟩ := Option.ite_none_right_eq_some.mp hs
      obtain rfl := Option.some.inj hs
      exact hmade ▸ hlinks

/-- The numbers after a call. -/
theorem Links.numberOf {made : Bool} (h : Links sb s s' dp de made) (hinum : de.inum ≠ 0) (name : Name) :
    paths.numberOf (directoryOf sb s' dp) name = (paths.numberOf (directoryOf sb s dp) name).or
      (if made = true ∧ de.name = name then some de.inum else none) := by
  cases made with
  | true =>
    obtain ⟨hslot, hlink⟩ := h.linked rfl
    rw [numberOf_link hslot hinum hlink]
    by_cases hname : de.name = name
    · subst hname
      rw [if_pos rfl, if_pos ⟨rfl, rfl⟩, numberOf_eq_none.mpr hslot, Option.none_or]
    · rw [if_neg hname, if_neg fun hand => hname hand.2, Option.or_none]
  | false => rw [(h.kept rfl).1, if_neg fun hand => (nomatch hand.1), Option.or_none]

theorem alone_trans {d₁ d₂ d₃ : Disk} (h : fs.Alone sb i d₁ d₂) (h' : fs.Alone sb i d₂ d₃) :
    fs.Alone sb i d₁ d₃ := by
  intro j hj hji ht
  obtain ⟨hdinode, hcontent⟩ := h j hj hji ht
  have hnext := h' j hj hji (by rw [hdinode]; exact ht)
  rw [hdinode] at hnext
  exact ⟨hnext.1, hnext.2.trans hcontent⟩

variable {calls : List (Buffer × Nat × Bool)}

/-- What the first call that made the entry wrote, if there was none before. -/
theorem Directory.run {ok : fs.State → Buffer × Nat × Bool → Prop} (h : Directory sb s dp)
    (hrun : Run (linkStep sb dp) ok s calls s') (hnum : ∀ c ∈ calls, 0 < c.2.1 ∧ c.2.1 < 65536) :
    Directory sb s' dp ∧ (s'.itable dp).inum = (s.itable dp).inum ∧
      fs.Alone sb (s.itable dp).inum s.disk s'.disk ∧
      ∀ name, numberOf (directoryOf sb s' dp) name = (numberOf (directoryOf sb s dp) name).or
        ((calls.find? fun c => c.2.2 = true ∧ nameIn c.1 = name).map fun c => c.2.1) := by
  induction hrun with
  | nil =>
    refine ⟨h, rfl, alone_refl sb _ _, fun name => ?_⟩
    rw [List.find?_nil, Option.map_none, Option.or_none]
  | @snoc calls s₁ s₂ c hrun hok hs ih =>
    obtain ⟨hdir, hinum, halone, hnumbers⟩ := ih fun c hc => hnum c (List.mem_append_left _ hc)
    obtain ⟨hpos, hlt⟩ := hnum c (List.mem_append_right _ (List.mem_singleton_self c))
    have hlinks := linkStep_links hdir hs
    have hmod : c.2.1 % 65536 = c.2.1 := Nat.mod_eq_of_lt hlt
    rw [hmod] at hlinks
    refine ⟨hlinks.directory, hlinks.inum.trans hinum, alone_trans halone (hinum ▸ hlinks.alone),
      fun name => ?_⟩
    rw [hlinks.numberOf (Nat.pos_iff_ne_zero.mp hpos), hnumbers, List.find?_append, Option.map_or,
      Option.or_assoc]
    congr 2
    by_cases hmade : c.2.2 = true ∧ nameIn c.1 = name
    · rw [if_pos hmade, List.find?_cons_of_pos (by simpa using hmade), Option.map_some]
    · rw [if_neg hmade, List.find?_cons_of_neg (by simpa using hmade), List.find?_nil, Option.map_none]

end xv6.paths
