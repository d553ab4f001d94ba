-- What the small operations below the file system calls do when they return,
-- case by case, with everything that they found out about the state.
import SysNet.Lib.Triples
import SysNet.Xv6.Sysfile

open triples

namespace xv6.sysfile

open xv6.fs (NINODE)

variable {s s' : State} {e i f p pi : Nat}

/-! ## Writing to the state -/

@[simp] theorem setInode_inodes (s : State) (i : Nat) (ip : Inode) :
    (s.setInode i ip).inodes = Function.update s.inodes i ip := rfl

@[simp] theorem setEntry_itable (s : State) (e : Nat) (x : Entry) :
    (s.setEntry e x).itable = Function.update s.itable e x := rfl

@[simp] theorem setFile_ftable (s : State) (f : Nat) (ff : File) :
    (s.setFile f ff).ftable = Function.update s.ftable f ff := rfl

@[simp] theorem setPipe_pipes (s : State) (pi : Nat) (x : Pipe) :
    (s.setPipe pi x).pipes = Function.update s.pipes pi x := rfl

@[simp] theorem setProc_procs (s : State) (p : Nat) (x : Proc) :
    (s.setProc p x).procs = Function.update s.procs p x := rfl

/-! ## Inodes -/

theorem entryOf_some (h : s.entryOf i = some e) :
    e < NINODE ∧ 0 < (s.itable e).ref ∧ (s.itable e).inum = i := by
  have hfound := List.find?_some h
  simp only [decide_eq_true_eq] at hfound
  exact ⟨List.mem_range.mp (List.mem_of_find?_eq_some h), hfound⟩

theorem entryOf_none (h : s.entryOf i = none) :
    ∀ e < NINODE, 0 < (s.itable e).ref → (s.itable e).inum ≠ i := by
  intro e he hpos hinum
  have hno := List.find?_eq_none.mp h e (List.mem_range.mpr he)
  exact hno (by simp [hpos, hinum])

theorem freeEntry_some (h : s.freeEntry = some e) : e < NINODE ∧ (s.itable e).ref = 0 := by
  have hfound := List.find?_some h
  simp only [decide_eq_true_eq] at hfound
  exact ⟨List.mem_range.mp (List.mem_of_find?_eq_some h), hfound⟩

/-- `iget` finds an entry, or takes a free one. -/
theorem iget_cases (h : iget i s = .ok (e, s')) : e < NINODE ∧
    ((0 < (s.itable e).ref ∧ (s.itable e).inum = i ∧
        s' = s.setEntry e { s.itable e with ref := (s.itable e).ref + 1 }) ∨
      (s.itable e).ref = 0 ∧ (∀ e' < NINODE, 0 < (s.itable e').ref → (s.itable e').inum ≠ i) ∧
        s' = s.setEntry e ⟨i, 1, false⟩) := by
  unfold iget at h
  have h := ok_of_get h
  cases hfind : s.entryOf i with
  | some e' =>
    simp only [hfind] at h
    obtain ⟨u, s₁, hset, h⟩ := ok_of_bind h
    obtain ⟨rfl, rfl⟩ := ok_of_pure h
    obtain ⟨hlt, hpos, hinum⟩ := entryOf_some hfind
    exact ⟨hlt, Or.inl ⟨hpos, hinum, ok_of_modify hset⟩⟩
  | none =>
    simp only [hfind] at h
    cases hfree : s.freeEntry with
    | some e' =>
      simp only [hfree] at h
      obtain ⟨u, s₁, hset, h⟩ := ok_of_bind h
      obtain ⟨rfl, rfl⟩ := ok_of_pure h
      obtain ⟨hlt, hzero⟩ := freeEntry_some hfree
      exact ⟨hlt, Or.inr ⟨hzero, entryOf_none hfind, ok_of_modify hset⟩⟩
    | none =>
      simp only [hfree] at h
      cases h

theorem idup_eq {u : Unit} (h : idup e s = .ok (u, s')) :
    s' = s.setEntry e { s.itable e with ref := (s.itable e).ref + 1 } := by
  unfold idup at h
  exact ok_of_modify (ok_of_get h)

/-- `ilock` reads the inode when the copy is not valid. -/
theorem ilock_cases {u : Unit} (h : ilock e s = .ok (u, s')) : 0 < (s.itable e).ref ∧
    ((s.itable e).valid = true ∧ s' = s ∨
      (s.inode e).type ≠ 0 ∧ s' = s.setEntry e { s.itable e with valid := true }) := by
  unfold ilock at h
  have h := ok_of_get h
  by_cases href : (s.itable e).ref < 1
  · rw [if_pos href] at h
    cases h
  · rw [if_neg href] at h
    by_cases hvalid : (s.itable e).valid = true
    · rw [if_pos hvalid] at h
      obtain ⟨-, rfl⟩ := ok_of_pure h
      exact ⟨by omega, Or.inl ⟨hvalid, rfl⟩⟩
    · rw [if_neg hvalid] at h
      by_cases htype : (s.inode e).type = 0
      · rw [if_pos htype] at h
        cases h
      · rw [if_neg htype] at h
        exact ⟨by omega, Or.inr ⟨htype, ok_of_modify h⟩⟩

/-- `iput` gives a reference back, and frees the inode when it was the last. -/
theorem iput_cases {u : Unit} (h : iput e s = .ok (u, s')) :
    ((s.itable e).ref = 1 ∧ (s.itable e).valid = true ∧ (s.inode e).nlink = 0 ∧
      s' = (s.setInode (s.itable e).inum { (s.inode e).truncated with type := 0 }).setEntry e
        { s.itable e with ref := (s.itable e).ref - 1, valid := false }) ∨
    ¬ ((s.itable e).ref = 1 ∧ (s.itable e).valid = true ∧ (s.inode e).nlink = 0) ∧
      s' = s.setEntry e { s.itable e with ref := (s.itable e).ref - 1 } := by
  unfold iput at h
  have h := ok_of_get h
  by_cases hlast : (s.itable e).ref = 1 ∧ (s.itable e).valid = true ∧ (s.inode e).nlink = 0
  · rw [if_pos hlast] at h
    obtain ⟨u, s₁, hset, h⟩ := ok_of_bind h
    rw [ok_of_modify hset] at h
    exact Or.inl ⟨hlast.1, hlast.2.1, hlast.2.2, ok_of_modify h⟩
  · rw [if_neg hlast] at h
    exact Or.inr ⟨hlast, ok_of_modify h⟩

theorem setInodeOf_eq {ip : Inode} {u : Unit} (h : setInodeOf e ip s = .ok (u, s')) :
    s' = s.setInode (s.itable e).inum ip := by
  unfold setInodeOf at h
  exact ok_of_modify (ok_of_get h)

variable {sb : Superblock}

theorem freeInode_some (h : s.freeInode sb = some i) :
    0 < i ∧ i < sb.ninodes ∧ (s.inodes i).type = 0 := by
  have hfound := List.find?_some h
  simp only [decide_eq_true_eq] at hfound
  exact ⟨hfound.1, List.mem_range.mp (List.mem_of_find?_eq_some h), hfound.2⟩

/-- `ialloc` marks a free inode and gets an entry for it, or there is none. -/
theorem ialloc_cases {type : Nat} {r : Option Nat} (h : ialloc sb type s = .ok (r, s')) :
    r = none ∧ s' = s ∨ ∃ e i, r = some e ∧ 0 < i ∧ i < sb.ninodes ∧ (s.inodes i).type = 0 ∧
      iget i (s.setInode i ⟨type, 0, 0, 0, []⟩) = .ok (e, s') := by
  unfold ialloc at h
  have h := ok_of_get h
  cases hfree : s.freeInode sb with
  | none =>
    simp only [hfree] at h
    obtain ⟨rfl, rfl⟩ := ok_of_pure h
    exact Or.inl ⟨rfl, rfl⟩
  | some i =>
    simp only [hfree] at h
    obtain ⟨hpos, hlt, htype⟩ := freeInode_some hfree
    obtain ⟨u, s₁, hset, h⟩ := ok_of_bind h
    obtain ⟨e, s₂, hget, h⟩ := ok_of_bind h
    obtain ⟨rfl, rfl⟩ := ok_of_pure h
    rw [ok_of_modify hset] at hget
    exact Or.inr ⟨e, i, rfl, hpos, hlt, htype, hget⟩

/-- `dirlookup` looks in a directory. -/
theorem dirlookup_cases {name : Name} {r : Option (Nat × Nat)}
    (h : dirlookup e name s = .ok (r, s')) : (s.inode e).type = T_DIR ∧
      ((s.inode e).slot name = none ∧ r = none ∧ s' = s ∨
        ∃ e' k, (s.inode e).slot name = some k ∧ r = some (e', k) ∧
          iget ((s.inode e).inumAt k) s = .ok (e', s')) := by
  unfold dirlookup at h
  have h := ok_of_get h
  by_cases htype : (s.inode e).type = T_DIR
  · rw [if_pos htype] at h
    cases hslot : (s.inode e).slot name with
    | none =>
      simp only [hslot] at h
      obtain ⟨rfl, rfl⟩ := ok_of_pure h
      exact ⟨htype, Or.inl ⟨rfl, rfl, rfl⟩⟩
    | some k =>
      simp only [hslot] at h
      obtain ⟨e', s₁, hget, h⟩ := ok_of_bind h
      obtain ⟨rfl, rfl⟩ := ok_of_pure h
      exact ⟨htype, Or.inr ⟨e', k, rfl, rfl, hget⟩⟩
  · rw [if_neg htype] at h
    cases h

/-- `dirlink` finds the name, finds no room, or adds the entry. -/
theorem dirlink_cases {name : Name} {inum : Nat} {room : Bool} {r : Bool}
    (h : dirlink e name inum room s = .ok (r, s')) :
    (∃ e' k s₁, dirlookup e name s = .ok (some (e', k), s₁) ∧ iput e' s₁ = .ok ((), s') ∧ r = false) ∨
    (s.inode e).type = T_DIR ∧ (s.inode e).slot name = none ∧
      (r = false ∧ s' = s ∨ ∃ d, (s.inode e).link ⟨inum % 65536, name⟩ room = some d ∧ r = true ∧
        s' = s.setInode (s.itable e).inum d) := by
  unfold dirlink at h
  obtain ⟨x, s₁, hlookup, hrest⟩ := ok_of_bind h
  clear h
  rcases x with _ | ⟨e', k⟩
  · obtain ⟨htype, ⟨hslot, -, rfl⟩ | ⟨e', k, -, hne, -⟩⟩ := dirlookup_cases hlookup
    · have hrest := ok_of_get hrest
      refine Or.inr ⟨htype, hslot, ?_⟩
      cases hlink : (s₁.inode e).link ⟨inum % 65536, name⟩ room with
      | none =>
        simp only [hlink] at hrest
        obtain ⟨rfl, rfl⟩ := ok_of_pure hrest
        exact Or.inl ⟨rfl, rfl⟩
      | some d =>
        simp only [hlink] at hrest
        obtain ⟨u, s₂, hset, hrest⟩ := ok_of_bind hrest
        obtain ⟨rfl, rfl⟩ := ok_of_pure hrest
        exact Or.inr ⟨d, rfl, rfl, setInodeOf_eq hset⟩
    · cases hne
  · obtain ⟨u, s₂, hput, hrest⟩ := ok_of_bind hrest
    obtain ⟨rfl, rfl⟩ := ok_of_pure hrest
    exact Or.inl ⟨e', k, s₁, hlookup, hput, rfl⟩

/-! ## Files -/

/-- `filealloc` takes a file that nobody uses. -/
theorem filealloc_cases {r : Option Nat} (h : filealloc s = .ok (r, s')) :
    r = none ∧ s' = s ∨ ∃ f, r = some f ∧ f < NFILE ∧ (s.ftable f).ref = 0 ∧
      s' = s.setFile f { s.ftable f with ref := 1 } := by
  unfold filealloc at h
  have h := ok_of_get h
  cases hfree : s.freeFile with
  | none =>
    simp only [hfree] at h
    obtain ⟨rfl, rfl⟩ := ok_of_pure h
    exact Or.inl ⟨rfl, rfl⟩
  | some f =>
    simp only [hfree] at h
    have hfound := List.find?_some hfree
    simp only [decide_eq_true_eq] at hfound
    obtain ⟨u, s₁, hset, h⟩ := ok_of_bind h
    obtain ⟨rfl, rfl⟩ := ok_of_pure h
    exact Or.inr ⟨f, rfl, List.mem_range.mp (List.mem_of_find?_eq_some hfree), hfound, ok_of_modify hset⟩

theorem filedup_eq {u : Unit} (h : filedup f s = .ok (u, s')) :
    0 < (s.ftable f).ref ∧ s' = s.setFile f { s.ftable f with ref := (s.ftable f).ref + 1 } := by
  unfold filedup at h
  have h := ok_of_get h
  by_cases href : (s.ftable f).ref < 1
  · rw [if_pos href] at h
    cases h
  · rw [if_neg href] at h
    exact ⟨by omega, ok_of_modify h⟩

/-- The pipe with one end closed. -/
def Pipe.close (x : Pipe) (writable : Bool) : Pipe :=
  { live := x.live && !(if writable then !x.readopen else !x.writeopen)
    readopen := x.readopen && writable
    writeopen := x.writeopen && !writable }

theorem pipeclose_eq {w : Bool} {u : Unit} (h : pipeclose pi w s = .ok (u, s')) :
    s' = s.setPipe pi ((s.pipes pi).close w) := by
  unfold pipeclose at h
  have h := ok_of_get h
  rcases hpi : s.pipes pi with ⟨live, r, wr⟩
  rw [hpi] at h
  cases w <;> cases r <;> cases wr <;> cases live <;> exact ok_of_modify h

/-- `fileclose` takes a reference, and with the last one closes what the file stands for. -/
theorem fileclose_cases {u : Unit} (h : fileclose f s = .ok (u, s')) : 0 < (s.ftable f).ref ∧
    (1 < (s.ftable f).ref ∧ s' = s.setFile f { s.ftable f with ref := (s.ftable f).ref - 1 } ∨
      (s.ftable f).ref = 1 ∧ ∃ s₁, s₁ = s.setFile f { s.ftable f with ref := 0, type := .none } ∧
        ((s.ftable f).type = .none ∧ s' = s₁ ∨
          (s.ftable f).type = .pipe ∧ pipeclose (s.ftable f).pipe (s.ftable f).writable s₁ = .ok ((), s') ∨
          ((s.ftable f).type = .inode ∨ (s.ftable f).type = .device) ∧
            iput (s.ftable f).ip s₁ = .ok ((), s'))) := by
  unfold fileclose at h
  have h := ok_of_get h
  by_cases href : (s.ftable f).ref < 1
  · rw [if_pos href] at h
    cases h
  · rw [if_neg href] at h
    refine ⟨by omega, ?_⟩
    by_cases hmore : 0 < (s.ftable f).ref - 1
    · rw [if_pos hmore] at h
      exact Or.inl ⟨by omega, ok_of_modify h⟩
    · rw [if_neg hmore] at h
      obtain ⟨u', s₁, hset, h⟩ := ok_of_bind h
      refine Or.inr ⟨by omega, s₁, ok_of_modify hset, ?_⟩
      cases htype : (s.ftable f).type with
      | none =>
        simp only [htype] at h
        exact Or.inl ⟨rfl, (ok_of_pure h).2.symm⟩
      | pipe =>
        simp only [htype] at h
        exact Or.inr (Or.inl ⟨rfl, h⟩)
      | inode =>
        simp only [htype] at h
        exact Or.inr (Or.inr ⟨Or.inl rfl, h⟩)
      | device =>
        simp only [htype] at h
        exact Or.inr (Or.inr ⟨Or.inr rfl, h⟩)

/-! ## Descriptors -/

theorem argfd_cases {fd : Int} {r : Option (Nat × Nat)} (h : argfd p fd s = .ok (r, s')) :
    s' = s ∧ (r = none ∨ ∃ n f, r = some (n, f) ∧ n < NOFILE ∧ (s.procs p).ofile n = some f) := by
  unfold argfd at h
  have h := ok_of_get h
  by_cases hrange : 0 ≤ fd ∧ fd < NOFILE
  · rw [if_pos hrange] at h
    cases hfile : (s.procs p).ofile fd.toNat with
    | none =>
      simp only [hfile] at h
      obtain ⟨rfl, rfl⟩ := ok_of_pure h
      exact ⟨rfl, Or.inl rfl⟩
    | some f =>
      simp only [hfile] at h
      obtain ⟨rfl, rfl⟩ := ok_of_pure h
      exact ⟨rfl, Or.inr ⟨_, f, rfl, by omega, hfile⟩⟩
  · rw [if_neg hrange] at h
    obtain ⟨rfl, rfl⟩ := ok_of_pure h
    exact ⟨rfl, Or.inl rfl⟩

theorem fdalloc_cases {r : Option Nat} (h : fdalloc p f s = .ok (r, s')) :
    r = none ∧ s' = s ∨ ∃ fd, r = some fd ∧ fd < NOFILE ∧ (s.procs p).ofile fd = none ∧
      s' = s.setProc p ((s.procs p).setOfile fd (some f)) := by
  unfold fdalloc at h
  have h := ok_of_get h
  cases hfree : (s.procs p).freeFd with
  | none =>
    simp only [hfree] at h
    obtain ⟨rfl, rfl⟩ := ok_of_pure h
    exact Or.inl ⟨rfl, rfl⟩
  | some fd =>
    simp only [hfree] at h
    have hfound := List.find?_some hfree
    simp only [decide_eq_true_eq] at hfound
    obtain ⟨u, s₁, hset, h⟩ := ok_of_bind h
    obtain ⟨rfl, rfl⟩ := ok_of_pure h
    exact Or.inr ⟨fd, rfl, List.mem_range.mp (List.mem_of_find?_eq_some hfree), hfound, ok_of_modify hset⟩

end xv6.sysfile
