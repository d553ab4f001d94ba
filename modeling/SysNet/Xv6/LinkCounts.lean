-- Link counts. Between two calls the count of an inode is the number of its
-- names, and an inode without names is freed with its last reference, as long
-- as no entry is made in a directory that was removed and no count wraps.
import SysNet.Xv6.LinkCalls
import SysNet.Xv6.RefCounts

open holders runs triples

namespace xv6.sysfile

variable {s s' : State} {I : Nat → Inode} {O : Nat → Entry} {P : Nat → Proc} {L : List Var}
  {n e i p c : Nat}

/-! ## Between two calls -/

/-- What holds between two calls, when all references are those of files and current directories. -/
def Good (n : Nat) (s : State) : Prop := Linked n s.itable s.procs [] s

theorem Table.good (h : Table I O P L s) (hwell : WellLinked n I) (ho : Outer I O none)
    (hL : ∀ v ∈ L, (I v.i).type ≠ 0) : Good n s := by
  obtain ⟨hs, hos⟩ := h.settle ho hL
  obtain rfl := h.procs
  exact hwell.linked hos hs

theorem Linked.good (h : Linked n O P L s) (hL : ∀ v ∈ L, v.locked = true) : Good n s := by
  obtain ⟨I, ⟨hwell, ho⟩, hs⟩ := h
  exact hs.good hwell ho fun v hv => hs.type_ne_zero ho hv (hL v hv)

/-- Only the inodes and the inode table matter. -/
theorem Good.congr (h : Good n s) (hinodes : s'.inodes = s.inodes) (hitable : s'.itable = s.itable) :
    Good n s' := by
  obtain ⟨I, ⟨hwell, ho⟩, hs⟩ := h
  refine ⟨I, ⟨hwell, hitable ▸ ho⟩, hinodes.trans hs.inodes, rfl, fun e => (Int.add_zero _).symm,
    fun _ _ => rfl, (fun v hv => nomatch hv), ?_, ?_, ?_, ?_⟩ <;> rw [hitable]
  · exact hs.bound
  · exact hs.unique
  · exact hs.valid
  · exact hs.sure

/-- The links are exact, unless a reference was given back that was not there. -/
def Sound (n : Nat) (s : State) : Prop := Good n s ∨ ∃ e, (s.itable e).ref < 0

theorem Sound.congr (h : Sound n s) (hinodes : s'.inodes = s.inodes) (hitable : s'.itable = s.itable) :
    Sound n s' :=
  Or.imp (fun hgood => hgood.congr hinodes hitable) (fun hneg => by rwa [hitable]) h

theorem iput_sound : Triple (Sound n) (iput e) fun _ => Sound n := by
  intro s u s' hs heq
  have hless : ∀ e', (s'.itable e').ref ≤ (s.itable e').ref ∧ (s'.itable e).ref = (s.itable e).ref - 1 := by
    intro e'
    obtain ⟨-, -, -, rfl⟩ | ⟨-, rfl⟩ := iput_cases heq <;> by_cases he : e' = e
    all_goals simp [he, setInode_itable]
  obtain ⟨I, ⟨hwell, ho⟩, hs⟩ | ⟨e', hneg⟩ := hs
  · by_cases hpos : 0 < (s.itable e).ref
    · have hput := iput_linked (L := []) hwell (ho.take hpos) (fun v hv => nomatch hv) s u s' (hs.take hpos) heq
      exact Or.inl (hput.good fun v hv => nomatch hv)
    · exact Or.inr ⟨e, by have := (hless e).2; omega⟩
  · exact Or.inr ⟨e', by have := (hless e').1; omega⟩

/-! ## Files and processes -/

theorem filealloc_sound : Triple (Sound n) filealloc fun _ => Sound n := by
  intro s r s' hs heq
  obtain ⟨-, rfl⟩ | ⟨f, -, -, -, rfl⟩ := filealloc_cases heq
  · exact hs
  · exact hs.congr rfl rfl

theorem fileclose_sound {f : Nat} : Triple (Sound n) (fileclose f) fun _ => Sound n := by
  intro s u s' hs heq
  obtain ⟨-, ⟨-, rfl⟩ | ⟨-, s₁, rfl, ⟨-, rfl⟩ | ⟨-, hclose⟩ | ⟨-, hput⟩⟩⟩ := fileclose_cases heq
  · exact hs.congr rfl rfl
  · exact hs.congr rfl rfl
  · rw [pipeclose_eq hclose]
    exact hs.congr rfl rfl
  · have hs₁ : Sound n (s.setFile f { s.ftable f with ref := 0, type := .none }) := hs.congr rfl rfl
    exact iput_sound _ () s' hs₁ hput

theorem fdalloc_sound {f : Nat} : Triple (Sound n) (fdalloc p f) fun _ => Sound n := by
  intro s r s' hs heq
  obtain ⟨-, rfl⟩ | ⟨fd, -, -, -, rfl⟩ := fdalloc_cases heq
  · exact hs
  · exact hs.congr rfl rfl

theorem filedup_sound {f : Nat} : Triple (Sound n) (filedup f) fun _ => Sound n := by
  intro s u s' hs heq
  obtain ⟨-, rfl⟩ := filedup_eq heq
  exact hs.congr rfl rfl

theorem argfd_sound {m : Int} : Triple (Sound n) (argfd p m) fun _ => Sound n := by
  intro s r s' hs heq
  obtain ⟨rfl, -⟩ := argfd_cases heq
  exact hs

/-- A change of the files, the pipes or the processes. -/
theorem write_sound {g : State → State} (hinodes : ∀ s, (g s).inodes = s.inodes)
    (hitable : ∀ s, (g s).itable = s.itable) :
    Triple (Sound n) (modify g : Kernel PUnit) fun _ => Sound n :=
  Triple.write fun s hs => hs.congr (hinodes s) (hitable s)

theorem setOfile_sound {fd : Nat} {v : Option Nat} : Triple (Sound n) (setOfile p fd v) fun _ => Sound n :=
  write_sound (fun _ => rfl) fun _ => rfl

theorem setFile_sound {f : Nat} {ff : File} : Triple (Sound n) (setFile f ff) fun _ => Sound n :=
  write_sound (fun _ => rfl) fun _ => rfl

theorem setPipe_sound {pi : Nat} {x : Pipe} : Triple (Sound n) (setPipe pi x) fun _ => Sound n :=
  write_sound (fun _ => rfl) fun _ => rfl

theorem setProc_sound {x : Proc} : Triple (Sound n) (setProc p x) fun _ => Sound n :=
  write_sound (fun _ => rfl) fun _ => rfl

theorem sysDup_sound {m : Int} : Triple (Sound n) (sysDup p m) fun _ => Sound n := by
  unfold sysDup
  refine Triple.bind argfd_sound fun r => ?_
  rcases r with _ | ⟨fd, f⟩
  · exact Triple.ret fun s hs => hs
  refine Triple.bind fdalloc_sound fun r => ?_
  rcases r with _ | fd'
  · exact Triple.ret fun s hs => hs
  · exact Triple.bind filedup_sound fun _ => Triple.ret fun s hs => hs

theorem sysClose_sound {m : Int} : Triple (Sound n) (sysClose p m) fun _ => Sound n := by
  unfold sysClose
  refine Triple.bind argfd_sound fun r => ?_
  rcases r with _ | ⟨fd, f⟩
  · exact Triple.ret fun s hs => hs
  · exact Triple.bind setOfile_sound fun _ => Triple.bind fileclose_sound fun _ => Triple.ret fun s hs => hs

theorem pipealloc_sound {page : Option Nat} : Triple (Sound n) (pipealloc page) fun _ => Sound n := by
  unfold pipealloc
  refine Triple.bind filealloc_sound fun r => ?_
  rcases r with _ | f0
  · exact Triple.ret fun s hs => hs
  refine Triple.bind filealloc_sound fun r => ?_
  rcases r with _ | f1
  · exact Triple.bind fileclose_sound fun _ => Triple.ret fun s hs => hs
  cases page with
  | none =>
    refine Triple.bind fileclose_sound fun _ => Triple.bind fileclose_sound fun _ => ?_
    exact Triple.ret fun s hs => hs
  | some pi =>
    refine Triple.bind setPipe_sound fun _ => Triple.look fun s => Triple.bind setFile_sound fun _ => ?_
    exact Triple.look fun s => Triple.bind setFile_sound fun _ => Triple.ret fun s hs => hs

theorem sysPipe_sound {page : Option Nat} {copied : Bool} :
    Triple (Sound n) (sysPipe p page copied) fun _ => Sound n := by
  unfold sysPipe
  refine Triple.bind pipealloc_sound fun r => ?_
  rcases r with _ | ⟨rf, wf⟩
  · exact Triple.ret fun s hs => hs
  have hclose : Triple (Sound n) (do fileclose rf; fileclose wf; pure false : Kernel Bool) fun _ => Sound n :=
    Triple.bind fileclose_sound fun _ => Triple.bind fileclose_sound fun _ => Triple.ret fun s hs => hs
  refine Triple.bind fdalloc_sound fun r => ?_
  rcases r with _ | fd0
  · exact hclose
  refine Triple.bind fdalloc_sound fun r => ?_
  rcases r with _ | fd1
  · exact Triple.bind setOfile_sound fun _ => hclose
  refine Triple.split (fun _ => Triple.ret fun s hs => hs) fun _ => ?_
  exact Triple.bind setOfile_sound fun _ => Triple.bind setOfile_sound fun _ => hclose

theorem exitFiles_sound {fds : List Nat} : Triple (Sound n) (exitFiles p fds) fun _ => Sound n := by
  induction fds with
  | nil => exact Triple.ret fun s hs => hs
  | cons fd fds ih =>
    unfold exitFiles
    refine Triple.look fun s => ?_
    cases (s.procs p).ofile fd with
    | none => exact ih
    | some f => exact Triple.bind fileclose_sound fun _ => Triple.bind setOfile_sound fun _ => ih

theorem kexit_sound : Triple (Sound n) (kexit p) fun _ => Sound n := by
  unfold kexit
  refine Triple.split (fun _ => Triple.fail _) fun _ => ?_
  refine Triple.bind exitFiles_sound fun _ => Triple.look fun s => ?_
  cases (s.procs p).cwd with
  | none => exact Triple.fail _
  | some cwd => exact Triple.bind iput_sound fun _ => Triple.look fun s => setProc_sound

theorem freeproc_sound : Triple (Sound n) (freeproc p) fun _ => Sound n := by
  unfold freeproc
  exact Triple.look fun s => setProc_sound

/-! ## Open, current directories and new processes -/

/-- The content of a file goes. -/
theorem truncate_sound {s₀ : State} (hfile : (s₀.inode e).type = T_FILE) :
    Triple (fun s => (s.inodes = s₀.inodes ∧ s.itable = s₀.itable) ∧ Sound n s)
      (setInodeOf e (s₀.inode e).truncated) fun _ => Sound n := by
  rintro s u s' ⟨⟨hinodes, hitable⟩, hs⟩ heq
  have hinode : s₀.inode e = s.inode e := by
    unfold State.inode
    rw [hinodes, hitable]
  rw [hinode] at hfile heq
  rw [setInodeOf_eq heq]
  obtain ⟨I, ⟨hwell, ho⟩, hs⟩ | hneg := hs
  · obtain rfl := hs.inodes
    have hold : ¬ (s.inode e).Live := fun hl => absurd (hfile.symm.trans hl.1) (by decide)
    have htype : (s.inode e).type ≠ 0 := by
      rw [hfile]
      decide
    refine Or.inl (WellLinked.linked (hwell.change (i := (s.itable e).inum) (y := (s.inode e).truncated)
      (Function.update_self ..) (fun j hj => Function.update_of_ne hj ..) ?_ hold ?_ ?_ (fun _ => ?_)
      fun hdir => ?_)
      (ho.retouch rfl rfl) (hs.retouch rfl rfl))
    · exact Nat.ne_of_gt (hwell.range _ htype).1
    · exact hold
    · exact fun hzero => absurd hzero htype
    · exact ⟨(hwell.range _ htype).2, hwell.links _ htype, hwell.small _ htype⟩
    · exact absurd (hfile.symm.trans hdir) (by decide)
  · exact Or.inr hneg

theorem openInode_sound {ip omode : Nat} : Triple (Sound n) (openInode p ip omode) fun _ => Sound n := by
  have hput : Triple (Sound n) (do iput ip; pure none : Kernel (Option Nat)) fun _ => Sound n :=
    Triple.bind iput_sound fun _ => Triple.ret fun s hs => hs
  unfold openInode
  refine Triple.look fun s => Triple.split (fun _ => hput) fun _ => Triple.bind filealloc_sound fun r => ?_
  rcases r with _ | f
  · exact hput
  refine Triple.bind fdalloc_sound fun r => ?_
  rcases r with _ | fd
  · exact Triple.bind fileclose_sound fun _ => hput
  refine Triple.reading fun s₀ => ?_
  have hopen : ∀ ff : File, Triple (fun s => s = s₀ ∧ Sound n s) (setFile f ff) fun _ s =>
      (s.inodes = s₀.inodes ∧ s.itable = s₀.itable) ∧ Sound n s := by
    intro ff
    refine Triple.write fun s hs => ?_
    obtain ⟨rfl, hs⟩ := hs
    exact ⟨⟨rfl, rfl⟩, hs.congr rfl rfl⟩
  refine Triple.bind (hopen _) fun _ => ?_
  exact Triple.first (fun htrunc => truncate_sound htrunc.2) (fun _ s hs => hs.2) (Triple.ret fun s hs => hs)

/-- A reference that the call holds is as good as any other. -/
theorem Table.sound (h : Table I O P [⟨e, i, true⟩] s) (hwell : WellLinked n I) (ho : Outer I O none) : Sound n s :=
  Or.inl ((hwell.linked ho h).good fun v hv => by rw [List.mem_singleton.mp hv])

theorem Created.sound {r : Option Nat} (h : Created n O P r s) : Sound n s := by
  rcases r with _ | e
  · exact Or.inl (Linked.good h fun v hv => nomatch hv)
  · obtain ⟨i, h⟩ := h
    exact Or.inl (h.good fun v hv => by rw [List.mem_singleton.mp hv])

variable {sb : Superblock}

theorem sysOpen_sound {path : Option (List UInt8)} {omode : Nat} {room : Room} (h : WellLinked sb.ninodes I)
    (ho : Outer I O none) (hc : Cwd O P p c)
    (hok : ∀ x ∈ path, omode &&& O_CREATE ≠ 0 → CreateOk sb.ninodes I c x T_FILE room) :
    Triple (Table I O P []) (sysOpen sb p path omode room) fun _ => Sound sb.ninodes := by
  unfold sysOpen
  rcases path with _ | path
  · exact Triple.ret fun s hs => Or.inl (hs.good h ho fun v hv => nomatch hv)
  refine Triple.split (fun hcreate => ?_) fun _ => ?_
  · refine Triple.bind (create_linked h ho hc (by decide) (hok path rfl hcreate)) fun r => ?_
    rcases r with _ | ip
    · exact Triple.ret fun s hs => Created.sound hs
    · exact openInode_sound.pre fun s hs => Created.sound hs
  · refine Triple.bind (namex_table ho hc) fun r => ?_
    rcases r with _ | ⟨ip, name⟩
    · exact Triple.ret fun s hs => Or.inl (Table.good hs h ho fun v hv => nomatch hv)
    refine Triple.ex fun i => Triple.lift fun _ => Triple.bind ilock_table fun _ => ?_
    refine Triple.pre (Triple.look fun s => Triple.split (fun _ => ?_) fun _ => openInode_sound) fun s hs =>
      hs.sound h ho
    exact Triple.bind iput_sound fun _ => Triple.ret fun s hs => hs

/-- What `sys_mkdir` and `sys_mknod` do with the new inode. -/
theorem createPut_sound {path : List UInt8} {type : Nat} {major minor : Int} {room : Room}
    (h : WellLinked sb.ninodes I) (ho : Outer I O none) (hc : Cwd O P p c) (htype : type ≠ 0)
    (hok : CreateOk sb.ninodes I c path type room) :
    Triple (Table I O P [])
      (do
        let r ← create sb p path type major minor room
        match r with
        | none => pure false
        | some ip => do
          iput ip
          pure true)
      fun _ => Sound sb.ninodes := by
  refine Triple.bind (create_linked h ho hc htype hok) fun r => ?_
  rcases r with _ | ip
  · exact Triple.ret fun s hs => Created.sound hs
  · exact Triple.bind (iput_sound.pre fun s hs => Created.sound hs) fun _ => Triple.ret fun s hs => hs

theorem sysMkdir_sound {path : Option (List UInt8)} {room : Room} (h : WellLinked sb.ninodes I)
    (ho : Outer I O none) (hc : Cwd O P p c) (hok : ∀ x ∈ path, CreateOk sb.ninodes I c x T_DIR room) :
    Triple (Table I O P []) (sysMkdir sb p path room) fun _ => Sound sb.ninodes := by
  rcases path with _ | path
  · exact Triple.ret fun s hs => Or.inl (hs.good h ho fun v hv => nomatch hv)
  · exact createPut_sound h ho hc (by decide) (hok path rfl)

theorem sysMknod_sound {path : Option (List UInt8)} {major minor : Int} {room : Room}
    (h : WellLinked sb.ninodes I) (ho : Outer I O none) (hc : Cwd O P p c)
    (hok : ∀ x ∈ path, CreateOk sb.ninodes I c x T_DEVICE room) :
    Triple (Table I O P []) (sysMknod sb p path major minor room) fun _ => Sound sb.ninodes := by
  rcases path with _ | path
  · exact Triple.ret fun s hs => Or.inl (hs.good h ho fun v hv => nomatch hv)
  · exact createPut_sound h ho hc (by decide) (hok path rfl)

theorem sysLink_sound {old new : Option (List UInt8)} {room : Bool} (h : WellLinked sb.ninodes I)
    (ho : Outer I O none) (hc : Cwd O P p c) (hok : ∀ x ∈ old, ∀ y ∈ new, LinkOk I c x y room) :
    Triple (Table I O P []) (sysLink p old new room) fun _ => Sound sb.ninodes := by
  rcases old with _ | old
  · exact Triple.ret fun s hs => Or.inl (hs.good h ho fun v hv => nomatch hv)
  rcases new with _ | new
  · exact Triple.ret fun s hs => Or.inl (hs.good h ho fun v hv => nomatch hv)
  refine (sysLink_linked h ho hc (hok old rfl new rfl)).post fun _ s hs => ?_
  exact Or.inl (hs.good fun v hv => nomatch hv)

theorem sysChdir_sound {path : Option (List UInt8)} (h : WellLinked n I) (ho : Outer I O none)
    (hc : Cwd O P p c) :
    Triple (Table I O P []) (sysChdir p path) fun _ => Sound n := by
  unfold sysChdir
  rcases path with _ | path
  · exact Triple.ret fun s hs => Or.inl (hs.good h ho fun v hv => nomatch hv)
  refine Triple.bind (namex_table ho hc) fun r => ?_
  rcases r with _ | ⟨ip, name⟩
  · exact Triple.ret fun s hs => Or.inl (Table.good hs h ho fun v hv => nomatch hv)
  refine Triple.ex fun i => Triple.lift fun _ => Triple.bind ilock_table fun _ => ?_
  refine Triple.pre (Triple.look fun s => Triple.split (fun _ => ?_) fun _ => ?_) fun s hs => hs.sound h ho
  · exact Triple.bind iput_sound fun _ => Triple.ret fun s hs => hs
  cases (s.procs p).cwd with
  | none => exact Triple.fail _
  | some cwd =>
    refine Triple.bind iput_sound fun _ => Triple.look fun s => ?_
    exact Triple.bind setProc_sound fun _ => Triple.ret fun s hs => hs

/-- The current directory of the process is referenced. -/
def Stands (n p : Nat) (s : State) : Prop :=
  (∀ e, (s.procs p).cwd = some e → 0 < (s.itable e).ref) ∧ Good n s

theorem forkFiles_stands {q np : Nat} {fds : List Nat} :
    Triple (Stands n p) (forkFiles q np fds) fun _ => Stands n p := by
  induction fds with
  | nil => exact Triple.ret fun s hs => hs
  | cons fd fds ih =>
    unfold forkFiles
    refine Triple.look fun s => ?_
    cases (s.procs q).ofile fd with
    | none => exact ih
    | some f =>
      have hdup : Triple (Stands n p) (filedup f) fun _ => Stands n p := by
        intro s u s' hs heq
        obtain ⟨-, rfl⟩ := filedup_eq heq
        exact ⟨hs.1, hs.2.congr rfl rfl⟩
      refine Triple.bind hdup fun _ => Triple.bind (Triple.write fun s hs => ?_) fun _ => ih
      refine ⟨fun e hcwd => hs.1 e ?_, hs.2.congr rfl rfl⟩
      rw [← hcwd, setProc_procs]
      by_cases hp : p = np
      · rw [hp, Function.update_self]
        rfl
      · rw [Function.update_of_ne hp]

theorem kfork_good {memory : Bool} : Triple (Stands n p) (kfork p memory) fun _ => Good n := by
  unfold kfork
  refine Triple.look fun s => ?_
  cases s.freeProc with
  | none => exact Triple.ret fun s hs => hs.2
  | some np =>
    refine Triple.split (fun _ => ?_) fun _ => Triple.ret fun s hs => hs.2
    refine Triple.bind forkFiles_stands fun _ => Triple.reading fun s₀ => ?_
    cases hcwd : (s₀.procs p).cwd with
    | none => exact Triple.fail _
    | some cwd =>
      have hdup : Triple (fun s => s = s₀ ∧ Stands n p s) (idup cwd) fun _ => Good n := by
        rintro s u s' ⟨rfl, hpos, I, ⟨hwell, ho⟩, hs⟩ heq
        have hs' := idup_table ⟨hpos cwd hcwd, rfl⟩ s u s' hs heq
        refine hs'.good hwell ho fun v hv => ?_
        rw [List.mem_singleton.mp hv]
        exact ho.used cwd (hpos cwd hcwd)
      refine Triple.bind hdup fun _ => Triple.look fun s => Triple.bind (Triple.write fun s hs => ?_) fun _ =>
        Triple.ret fun s hs => hs
      exact Good.congr hs rfl rfl

/-! ## Runs -/

/-- The number of the current directory. -/
def State.cwdInum (s : State) (p : Nat) : Nat := ((s.procs p).cwd.map fun e => (s.itable e).inum).getD 0

variable (sb) in
/-- The call makes no entry in a directory that was removed, and no count overflows. -/
def State.allows (s : State) : Act → Prop
  | .open p path omode room =>
    ∀ x ∈ path, omode &&& O_CREATE ≠ 0 → CreateOk sb.ninodes s.inodes (s.cwdInum p) x T_FILE room
  | .mkdir p path room => ∀ x ∈ path, CreateOk sb.ninodes s.inodes (s.cwdInum p) x T_DIR room
  | .mknod p path _ _ room => ∀ x ∈ path, CreateOk sb.ninodes s.inodes (s.cwdInum p) x T_DEVICE room
  | .link p old new room => ∀ x ∈ old, ∀ y ∈ new, LinkOk s.inodes (s.cwdInum p) x y room
  | _ => True

instance (s : State) (a : Act) : Decidable (s.allows sb a) :=
  match a with
  | .open p path omode room => inferInstanceAs (Decidable (∀ x ∈ path, omode &&& O_CREATE ≠ 0 →
      CreateOk sb.ninodes s.inodes (s.cwdInum p) x T_FILE room))
  | .mkdir p path room =>
    inferInstanceAs (Decidable (∀ x ∈ path, CreateOk sb.ninodes s.inodes (s.cwdInum p) x T_DIR room))
  | .mknod p path _ _ room =>
    inferInstanceAs (Decidable (∀ x ∈ path, CreateOk sb.ninodes s.inodes (s.cwdInum p) x T_DEVICE room))
  | .link p old new room =>
    inferInstanceAs (Decidable (∀ x ∈ old, ∀ y ∈ new, LinkOk s.inodes (s.cwdInum p) x y room))
  | .dup .. | .close .. | .pipe .. | .chdir .. | .unlink .. | .fork .. | .exit .. | .reap .. => isTrue trivial

theorem Boundary.nonneg (h : Boundary s) (e : Nat) : 0 ≤ (s.itable e).ref := by
  rw [h.1.inodes e]
  omega

/-- A current directory is referenced. -/
theorem Boundary.cwd_pos (h : Boundary s) (hp : p < NPROC) (hcwd : (s.procs p).cwd = some e) :
    0 < (s.itable e).ref := by
  have hheld : 0 < holding (Finset.range NPROC) (fun q => (s.procs q).cwd) e :=
    holding_pos (Finset.mem_range.mpr hp) hcwd
  rw [h.1.inodes e]
  unfold inodeHolders
  omega

theorem Boundary.cwd (h : Boundary s) (hp : p < NPROC) : Cwd s.itable s.procs p (s.cwdInum p) := by
  intro e hcwd
  refine ⟨h.cwd_pos hp hcwd, ?_⟩
  unfold State.cwdInum
  rw [hcwd]
  rfl

theorem Sound.good (h : Sound n s) (hb : Boundary s) : Good n s := by
  obtain hgood | ⟨e, hneg⟩ := h
  · exact hgood
  · exact absurd hneg (Int.not_lt.mpr (hb.nonneg e))

/-- A call returns, or the kernel panics and nothing comes after it. -/
theorem sound_run {α : Type} {m : Kernel α} {A : State → Prop} (h : Triple A m fun _ => Sound n) (hA : A s)
    (hs : Sound n s) : Sound n (s.run m) := by
  unfold State.run
  cases hm : m s with
  | ok r => exact h s r.1 r.2 hA hm
  | error e => exact hs.congr rfl rfl

theorem good_step {a : Act} (hb : Boundary s) (hg : Good sb.ninodes s) (hok : s.allows sb a)
    (h : s.step sb a = some s') : Good sb.ninodes s' := by
  refine Sound.good ?_ (boundary_step hb h)
  have hsound : Sound sb.ninodes s := Or.inl hg
  unfold State.step at h
  split at h
  · cases h
  -- a call of a process that runs
  have hcall : ∀ {α : Type} {q : Nat} {m : Kernel α},
      (if s.runs q then some (s.run m) else none) = some s' →
      (Cwd s.itable s.procs q (s.cwdInum q) → Triple (fun t => t = s) m fun _ => Sound sb.ninodes) →
      Sound sb.ninodes s' := by
    intro α q m h hm
    split at h
    next hrun =>
      obtain rfl := Option.some.inj h
      exact sound_run (hm (hb.cwd hrun.1)) rfl hsound
    next => cases h
  have hany : ∀ {α : Type} {m : Kernel α}, Triple (Sound sb.ninodes) m (fun _ => Sound sb.ninodes) →
      Triple (fun t => t = s) m fun _ => Sound sb.ninodes := fun hm => hm.pre fun t ht => ht ▸ hsound
  obtain ⟨I, ⟨hwell, ho⟩, hs⟩ := id hg
  obtain rfl := hs.inodes
  have hwith : ∀ {α : Type} {m : Kernel α},
      Triple (Table s.inodes s.itable s.procs []) m (fun _ => Sound sb.ninodes) →
      Triple (fun t => t = s) m fun _ => Sound sb.ninodes := fun hm => hm.pre fun t ht => ht ▸ hs
  cases a with
  | «open» p path omode room => exact hcall h fun hc => hwith (sysOpen_sound hwell ho hc hok)
  | dup p m => exact hcall h fun _ => hany sysDup_sound
  | close p m => exact hcall h fun _ => hany sysClose_sound
  | chdir p path => exact hcall h fun hc => hwith (sysChdir_sound hwell ho hc)
  | link p old new room => exact hcall h fun hc => hwith (sysLink_sound hwell ho hc hok)
  | unlink p path =>
    exact hcall h fun hc => hwith ((sysUnlink_linked hwell ho hc).post fun _ t ht =>
      Or.inl (ht.good fun v hv => nomatch hv))
  | mkdir p path room => exact hcall h fun hc => hwith (sysMkdir_sound hwell ho hc hok)
  | mknod p path major minor room => exact hcall h fun hc => hwith (sysMknod_sound hwell ho hc hok)
  | exit p => exact hcall h fun _ => hany kexit_sound
  | fork p memory =>
    refine hcall h fun hc => (kfork_good.post fun _ t ht => Or.inl ht).pre fun t ht => ?_
    rw [ht]
    exact ⟨fun e he => (hc e he).1, hg⟩
  | pipe p page copied =>
    simp only at h
    split at h
    next =>
      obtain rfl := Option.some.inj h
      exact sound_run (hany sysPipe_sound) rfl hsound
    next => cases h
  | reap p =>
    simp only at h
    split at h
    next =>
      obtain rfl := Option.some.inj h
      exact sound_run (hany freeproc_sound) rfl hsound
    next => cases h

/-! ## The start -/

/-- All counts on the disk are exact, and each inode that is in use has a name. -/
structure Clean (n : Nat) (I : Nat → Inode) : Prop where
  well : WellLinked n I
  linked : ∀ i, (I i).type ≠ 0 → (I i).nlink ≠ 0

theorem good_start (h : Clean n I) : Good n (State.start I) := by
  have hentry : ∀ e, ((State.start I).itable e).ref ≠ 0 →
      e = 0 ∧ (State.start I).itable e = ⟨ROOTINO, 1, false⟩ := by
    intro e hne
    by_cases he : e = 0
    · exact ⟨he, if_pos he⟩
    · rw [show (State.start I).itable e = ⟨0, 0, false⟩ from if_neg he] at hne
      exact absurd rfl hne
  have hpos : ∀ e, 0 < ((State.start I).itable e).ref →
      e = 0 ∧ (State.start I).itable e = ⟨ROOTINO, 1, false⟩ := fun e he => hentry e (Int.ne_of_gt he)
  refine h.well.linked ⟨fun e => ?_, fun e he => ?_, fun i _ htype hnlink => absurd hnlink (h.linked i htype)⟩
    ⟨rfl, rfl, fun e => (Int.add_zero _).symm, fun _ _ => rfl, (fun v hv => nomatch hv), fun e he => ?_,
      fun e e' he he' _ => ?_, fun e he hvalid => ?_, fun e _ htype hnlink => absurd hnlink (h.linked _ htype)⟩
  · by_cases hzero : ((State.start I).itable e).ref = 0
    · exact Int.le_of_eq hzero.symm
    · rw [(hentry e hzero).2]
      decide
  · rw [(hpos e he).2]
    exact live_type h.well.root.1
  · rw [(hpos e he).1]
    decide
  · rw [(hpos e he).1, (hpos e' he').1]
  · rw [(hpos e he).2] at hvalid
    cases hvalid

variable {inodes : Nat → Inode} {acts : List Act}

theorem run_good (hclean : Clean sb.ninodes inodes)
    (h : Run (State.step sb) (State.allows sb) (State.start inodes) acts s) : Boundary s ∧ Good sb.ninodes s :=
  Run.invariant (P := fun s => Boundary s ∧ Good sb.ninodes s) h ⟨boundary_start inodes, good_start hclean⟩
    fun _ _ _ hs hok hstep => ⟨boundary_step hs.1 hstep, good_step hs.1 hs.2 hok hstep⟩

/-- The links are exact: an inode that is in use has as many links as names, and without names an
open file or a current directory points to it. -/
structure LinksExact (n : Nat) (s : State) : Prop where
  count : ∀ i, (s.inodes i).type ≠ 0 → (s.inodes i).nlink = names n s.inodes i
  kept : ∀ i, (s.inodes i).type ≠ 0 → names n s.inodes i = 0 →
    ∃ e, (s.itable e).inum = i ∧ 0 < inodeHolders s.ftable s.procs e

/-- In every run whose calls make no entry in a directory that was removed, and raise no count of
32767, the link counts are exact. -/
theorem link_counts_are_exact (hclean : Clean sb.ninodes inodes)
    (h : Run (State.step sb) (State.allows sb) (State.start inodes) acts s) : LinksExact sb.ninodes s := by
  obtain ⟨hb, I, ⟨hwell, ho⟩, hs⟩ := run_good hclean h
  obtain rfl := hs.inodes
  refine ⟨hwell.links, fun i htype hnames => ?_⟩
  have hnlink : (s.inodes i).nlink = 0 := by
    rw [hwell.links i htype, hnames]
    rfl
  obtain ⟨e, hpos, hinum⟩ := ho.kept i (fun hX => nomatch hX) htype hnlink
  refine ⟨e, hinum, ?_⟩
  have hcount := hb.1.inodes e
  rw [List.count_nil] at hcount
  omega

theorem eq_root_of_bareDisk {i : Nat} (h : (bareDisk i).type ≠ 0) : i = ROOTINO := by
  by_contra hi
  exact h (congrArg Inode.type (if_neg hi))

theorem bareDisk_dots : (bareDisk ROOTINO).Dots ROOTINO ∧ (bareDisk ROOTINO).up = ROOTINO ∧
    ∀ j, (bareDisk ROOTINO).tally j = 0 := dots_of_entries (by decide) rfl

theorem bareDisk_wellLinked : WellLinked 5 bareDisk where
  range i hi := by
    rw [eq_root_of_bareDisk hi]
    decide
  small i hi := by
    rw [eq_root_of_bareDisk hi]
    decide
  links i hi := by
    rw [eq_root_of_bareDisk hi]
    decide
  root := ⟨by decide, bareDisk_dots.2.1⟩
  dots d hd := by
    rw [eq_root_of_bareDisk (live_type hd)]
    exact bareDisk_dots.1
  known d i hd _ hpos := by
    rw [eq_root_of_bareDisk (live_type hd), bareDisk_dots.2.2] at hpos
    omega
  dead d hd hnot := by
    have htype : (bareDisk d).type ≠ 0 := by
      rw [hd]
      decide
    rw [eq_root_of_bareDisk htype] at hnot
    exact absurd (by decide) hnot
  home c d hc hd := by
    rw [eq_root_of_bareDisk (live_type hd), eq_root_of_bareDisk (live_type hc), bareDisk_dots.2.2]
    rfl
  upper c hc hne := absurd (eq_root_of_bareDisk (live_type hc)) hne

theorem bareDisk_clean : Clean 5 bareDisk where
  well := bareDisk_wellLinked
  linked i hi := by
    rw [eq_root_of_bareDisk hi]
    decide

/-- A directory with a file in it. The file is unlinked while it is open, and so is the directory
while a process is in it. -/
theorem unlinked_files_are_freed : ∃ s : State,
    Run (State.step ⟨5, by decide, by decide⟩) (State.allows ⟨5, by decide, by decide⟩) (State.start bareDisk)
      [.mkdir 0 (some [97]) ⟨true, true, true⟩, .fork 0 true, .chdir 1 (some [97]),
        .open 1 (some [98]) O_CREATE ⟨true, true, true⟩, .link 1 (some [98]) (some [99]) true,
        .unlink 1 (some [98]), .unlink 1 (some [99]), .unlink 0 (some [97]), .close 1 0, .exit 1] s ∧
    LinksExact 5 s ∧ (s.inodes 2).type = 0 ∧ (s.inodes 3).type = 0 := by
  have hcomputed : (exec (State.step ⟨5, by decide, by decide⟩) (State.allows ⟨5, by decide, by decide⟩)
      (State.start bareDisk) [.mkdir 0 (some [97]) ⟨true, true, true⟩, .fork 0 true, .chdir 1 (some [97]),
        .open 1 (some [98]) O_CREATE ⟨true, true, true⟩, .link 1 (some [98]) (some [99]) true,
        .unlink 1 (some [98]), .unlink 1 (some [99]), .unlink 0 (some [97]), .close 1 0, .exit 1]).any
      (fun s => (s.inodes 2).type = 0 ∧ (s.inodes 3).type = 0) = true := by
    decide +kernel
  obtain ⟨s, hs, hend⟩ := (Option.any_eq_true _ _).mp hcomputed
  have hrun := run_of_exec hs
  exact ⟨s, hrun, link_counts_are_exact bareDisk_clean hrun, of_decide_eq_true hend⟩

/-- A file is made in a directory that was removed. -/
theorem a_removed_directory_takes_a_name : Clean 5 bareDisk ∧ ∃ s : State,
    Run (State.step ⟨5, by decide, by decide⟩) anyStep (State.start bareDisk)
      [.mkdir 0 (some [97]) ⟨true, true, true⟩, .chdir 0 (some [97]), .unlink 0 (some [46, 46, 47, 97]),
        .open 0 (some [98]) O_CREATE ⟨true, true, true⟩, .close 0 0] s ∧ ¬ LinksExact 5 s := by
  have hcomputed : (exec (State.step ⟨5, by decide, by decide⟩) anyStep (State.start bareDisk)
      [.mkdir 0 (some [97]) ⟨true, true, true⟩, .chdir 0 (some [97]), .unlink 0 (some [46, 46, 47, 97]),
        .open 0 (some [98]) O_CREATE ⟨true, true, true⟩, .close 0 0]).any
      (fun s => (s.inodes 3).type ≠ 0 ∧ (s.inodes 3).nlink ≠ (names 5 s.inodes 3 : Int)) = true := by
    decide +kernel
  obtain ⟨s, hs, hend⟩ := (Option.any_eq_true _ _).mp hcomputed
  obtain ⟨htype, hcount⟩ := of_decide_eq_true hend
  exact ⟨bareDisk_clean, s, run_of_exec hs, fun hexact => hcount (hexact.count 3 htype)⟩

end xv6.sysfile
