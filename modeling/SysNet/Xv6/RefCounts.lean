-- Reference counts of files and inodes. At the boundary of every call the
-- count of a file is the number of descriptors that point to it, and the
-- count of an entry of the inode table is the number of open files and
-- current directories that do. Inside of a call there are also the pointers
-- in local variables, which the triples carry along as lists.
import Mathlib.Data.Finset.Prod
import SysNet.Lib.Holders
import SysNet.Lib.Runs
import SysNet.Xv6.SysfileSpec

open holders runs triples

namespace xv6.sysfile

open xv6.fs (NINODE)

variable {s s' : State} {e i f p pi fd : Nat} {es fs : List Nat} {P Q : Nat → Proc}

/-! ## Who points to what -/

/-- The descriptors of all processes. -/
@[irreducible] def slots : Finset (Nat × Nat) := Finset.range NPROC ×ˢ Finset.range NOFILE

theorem mem_slots : (p, fd) ∈ slots ↔ p < NPROC ∧ fd < NOFILE := by
  unfold slots
  rw [Finset.mem_product, Finset.mem_range, Finset.mem_range]

def slotOf (procs : Nat → Proc) (q : Nat × Nat) : Option Nat := (procs q.1).ofile q.2

/-- The inode behind an open file or device. -/
def File.inode (ff : File) : Option Nat :=
  if ff.type = .inode ∨ ff.type = .device then some ff.ip else none

/-- The end of a pipe: its page, and whether it is the end to write to. -/
def File.pipeEnd (ff : File) : Option (Nat × Bool) :=
  if ff.type = .pipe then some (ff.pipe, ff.writable) else none

def Pipe.isOpen (x : Pipe) (w : Bool) : Prop := x.live = true ∧ (if w then x.writeopen else x.readopen) = true

/-- The descriptors that point to the file. -/
def fileHolders (procs : Nat → Proc) (f : Nat) : Nat := holding slots (slotOf procs) f

/-- The files and the current directories that point to the entry. -/
def inodeHolders (ftable : Nat → File) (procs : Nat → Proc) (e : Nat) : Nat :=
  holding (Finset.range NFILE) (fun f => (ftable f).inode) e +
    holding (Finset.range NPROC) (fun p => (procs p).cwd) e

/-- The counts are right when the processes are `procs` and local variables point to the entries
`es` and the files `fs`. -/
structure Counts (procs : Nat → Proc) (es fs : List Nat) (s : State) : Prop where
  files : ∀ f, (s.ftable f).ref = fileHolders procs f + fs.count f
  inodes : ∀ e, (s.itable e).ref = inodeHolders s.ftable procs e + es.count e
  unused : ∀ f, (s.ftable f).ref = 0 → (s.ftable f).type = .none
  bound : ∀ f, (s.ftable f).ref ≠ 0 → f < NFILE

/-- A pipe is open at an end as long as there is the file for the end, and its page is free when it
is open at neither. -/
structure Ends (s : State) : Prop where
  isOpen_iff : ∀ pi w, (s.pipes pi).isOpen w ↔ ∃ f, (s.ftable f).pipeEnd = some (pi, w)
  once : ∀ f g x, (s.ftable f).pipeEnd = some x → (s.ftable g).pipeEnd = some x → f = g
  live : ∀ pi, (s.pipes pi).live = true → (s.pipes pi).isOpen true ∨ (s.pipes pi).isOpen false

/-- The counts are those for `P`, and the processes are `Q`, which may be ahead of it or behind. -/
structure At (P Q : Nat → Proc) (es fs : List Nat) (s : State) : Prop where
  counts : Counts P es fs s
  ends : Ends s
  procs : s.procs = Q

theorem Counts.perm {es' fs' : List Nat} (h : Counts P es fs s) (hes : es'.Perm es) (hfs : fs'.Perm fs) :
    Counts P es' fs' s where
  files f := by rw [hfs.count_eq]; exact h.files f
  inodes e := by rw [hes.count_eq]; exact h.inodes e
  unused := h.unused
  bound := h.bound

theorem At.swap {a b : Nat} (h : At P Q (a :: b :: es) fs s) : At P Q (b :: a :: es) fs s :=
  ⟨h.counts.perm (List.Perm.swap a b es) (List.Perm.refl fs), h.ends, h.procs⟩

theorem At.swapFiles {a b : Nat} (h : At P Q es (a :: b :: fs) s) : At P Q es (b :: a :: fs) s :=
  ⟨h.counts.perm (List.Perm.refl es) (List.Perm.swap a b fs), h.ends, h.procs⟩

/-- Only the inodes change. -/
theorem At.setInode {ip : Inode} (h : At P Q es fs s) : At P Q es fs (s.setInode i ip) :=
  ⟨⟨h.counts.files, h.counts.inodes, h.counts.unused, h.counts.bound⟩,
    ⟨h.ends.isOpen_iff, h.ends.once, h.ends.live⟩, h.procs⟩

/-- The count of an entry goes up or down with the local variables. -/
theorem At.setEntry {es' : List Nat} {x : Entry} (h : At P Q es fs s)
    (he : x.ref + es.count e = (s.itable e).ref + es'.count e)
    (hother : ∀ e', e' ≠ e → es'.count e' = es.count e') : At P Q es' fs (s.setEntry e x) := by
  refine ⟨⟨h.counts.files, fun e' => ?_, h.counts.unused, h.counts.bound⟩,
    ⟨h.ends.isOpen_iff, h.ends.once, h.ends.live⟩, h.procs⟩
  have hold := h.counts.inodes e'
  change (Function.update s.itable e x e').ref = inodeHolders s.ftable P e' + es'.count e'
  by_cases hee : e' = e
  · subst hee
    rw [Function.update_self]
    omega
  · rw [Function.update_of_ne hee, hother e' hee]
    exact hold

theorem At.ref_pos (h : At P Q (e :: es) fs s) : 0 < (s.itable e).ref := by
  have hcount := h.counts.inodes e
  rw [List.count_cons_self] at hcount
  omega

theorem count_other {a : Nat} (h : i ≠ a) : (a :: es).count i = es.count i :=
  List.count_cons_of_ne (Ne.symm h)

/-! ## Inodes -/

theorem iget_spec : Triple (At P Q es fs) (iget i) fun e => At P Q (e :: es) fs := by
  intro s e s' hs heq
  obtain ⟨-, ⟨-, -, rfl⟩ | ⟨hzero, -, rfl⟩⟩ := iget_cases heq
  · refine hs.setEntry ?_ fun e' he' => count_other he'
    rw [List.count_cons_self]
    simp only
    omega
  · refine hs.setEntry ?_ fun e' he' => count_other he'
    rw [List.count_cons_self]
    simp only
    omega

theorem idup_spec : Triple (At P Q es fs) (idup e) fun _ => At P Q (e :: es) fs := by
  intro s u s' hs heq
  rw [idup_eq heq]
  refine hs.setEntry ?_ fun e' he' => count_other he'
  rw [List.count_cons_self]
  simp only
  omega

theorem ilock_spec : Triple (At P Q es fs) (ilock e) fun _ => At P Q es fs := by
  intro s u s' hs heq
  obtain ⟨-, ⟨-, rfl⟩ | ⟨-, rfl⟩⟩ := ilock_cases heq
  · exact hs
  · exact hs.setEntry rfl fun _ _ => rfl

theorem iput_spec : Triple (At P Q (e :: es) fs) (iput e) fun _ => At P Q es fs := by
  intro s u s' hs heq
  have hcount : (e :: es).count e = es.count e + 1 := List.count_cons_self
  rcases iput_cases heq with ⟨-, -, -, rfl⟩ | ⟨-, rfl⟩
  · refine At.setEntry hs.setInode ?_ fun e' he' => (count_other he').symm
    rw [hcount]
    change (s.itable e).ref - 1 + _ = (s.itable e).ref + _
    omega
  · refine hs.setEntry ?_ fun e' he' => (count_other he').symm
    rw [hcount]
    simp only
    omega

theorem setInodeOf_spec {ip : Inode} : Triple (At P Q es fs) (setInodeOf e ip) fun _ => At P Q es fs := by
  intro s u s' hs heq
  rw [setInodeOf_eq heq]
  exact hs.setInode

variable {sb : Superblock}

/-- The entry that a call returns belongs to the caller. -/
def withEntry (P Q : Nat → Proc) (es fs : List Nat) (r : Option Nat) (s : State) : Prop :=
  At P Q (r.toList ++ es) fs s

theorem ialloc_spec {type : Nat} :
    Triple (At P Q es fs) (ialloc sb type) (withEntry P Q es fs) := by
  intro s r s' hs heq
  rcases ialloc_cases heq with ⟨rfl, rfl⟩ | ⟨e, i, rfl, -, -, -, hget⟩
  · exact hs
  · exact iget_spec _ e s' hs.setInode hget

theorem dirlookup_spec {name : Name} : Triple (At P Q es fs) (dirlookup e name) fun r =>
    withEntry P Q es fs (r.map Prod.fst) := by
  intro s r s' hs heq
  obtain ⟨-, ⟨-, rfl, rfl⟩ | ⟨e', k, -, rfl, hget⟩⟩ := dirlookup_cases heq
  · exact hs
  · exact iget_spec _ e' s' hs hget

theorem dirlink_spec {name : Name} {inum : Nat} {room : Bool} :
    Triple (At P Q es fs) (dirlink e name inum room) fun _ => At P Q es fs := by
  intro s r s' hs heq
  rcases dirlink_cases heq with ⟨e', k, s₁, hlookup, hput, -⟩ | ⟨-, -, ⟨-, rfl⟩ | ⟨d, -, -, rfl⟩⟩
  · have hfound := dirlookup_spec _ _ _ hs hlookup
    exact iput_spec _ _ _ hfound hput
  · exact hs
  · exact hs.setInode

/-! ## Paths -/

theorem namexFrom_spec {parent : Bool} {path : List Name} :
    Triple (At P Q (e :: es) fs) (namexFrom parent e path) fun r =>
      withEntry P Q es fs (r.map Prod.fst) := by
  induction path generalizing e with
  | nil =>
    unfold namexFrom
    refine Triple.split (fun _ => ?_) fun _ => Triple.ret fun s hs => hs
    exact Triple.bind iput_spec fun _ => Triple.ret fun s hs => hs
  | cons name path ih =>
    unfold namexFrom
    refine Triple.bind ilock_spec fun _ => Triple.look fun s => ?_
    refine Triple.split (fun _ => ?_) fun _ => Triple.split (fun _ => Triple.ret fun s hs => hs) fun _ => ?_
    · exact Triple.bind iput_spec fun _ => Triple.ret fun s hs => hs
    · refine Triple.bind dirlookup_spec fun r => ?_
      rcases r with _ | ⟨next, k⟩
      · exact Triple.bind iput_spec fun _ => Triple.ret fun s hs => hs
      · refine Triple.bind (Triple.pre iput_spec fun s hs => At.swap hs) fun _ => ?_
        exact ih

theorem namex_spec {path : List UInt8} {parent : Bool} :
    Triple (At P Q es fs) (namex p path parent) fun r => withEntry P Q es fs (r.map Prod.fst) := by
  unfold namex
  refine Triple.look fun s => Triple.split (fun _ => ?_) fun _ => ?_
  · exact Triple.bind iget_spec fun ip => namexFrom_spec
  · cases (s.procs p).cwd with
    | none => exact Triple.fail _
    | some ip => exact Triple.bind idup_spec fun _ => namexFrom_spec

/-! ## Files -/

theorem inodeHolders_setFile {ff : File} {ftable : Nat → File} (hf : f < NFILE) (e : Nat) :
    inodeHolders (Function.update ftable f ff) P e + (if (ftable f).inode = some e then 1 else 0) =
      inodeHolders ftable P e + if ff.inode = some e then 1 else 0 := by
  have hpoints : (fun g => (Function.update ftable f ff g).inode) =
      Function.update (fun g => (ftable g).inode) f ff.inode := by
    funext g
    by_cases hg : g = f
    · rw [hg, Function.update_self, Function.update_self]
    · rw [Function.update_of_ne hg, Function.update_of_ne hg]
  have hcount := @holding_update _ _ (fun g => (ftable g).inode) _ _ (Finset.mem_range.mpr hf) ff.inode e
  unfold inodeHolders
  rw [hpoints]
  omega

/-- A file changes, and what it stands for goes to or comes from a local variable. -/
theorem Counts.setFile {ff : File} {es' fs' : List Nat} (h : Counts P es fs s) (hf : f < NFILE)
    (href : ff.ref + fs.count f = (s.ftable f).ref + fs'.count f)
    (hother : ∀ f', f' ≠ f → fs'.count f' = fs.count f') (hunused : ff.ref = 0 → ff.type = .none)
    (hinode : ∀ e, (if ff.inode = some e then 1 else 0) + es'.count e =
      (if (s.ftable f).inode = some e then 1 else 0) + es.count e) :
    Counts P es' fs' (s.setFile f ff) := by
  have hself : (s.setFile f ff).ftable f = ff := Function.update_self ..
  have hne : ∀ f', f' ≠ f → (s.setFile f ff).ftable f' = s.ftable f' := fun f' hf' =>
    Function.update_of_ne hf' ..
  refine ⟨fun f' => ?_, fun e => ?_, fun f' => ?_, fun f' => ?_⟩
  · have hold := h.files f'
    by_cases hff : f' = f
    · subst hff
      rw [hself]
      omega
    · rw [hne f' hff, hother f' hff]
      exact hold
  · have hold := h.inodes e
    have hcount := @inodeHolders_setFile _ P ff s.ftable hf e
    have hmove := hinode e
    change (s.itable e).ref = inodeHolders (Function.update s.ftable f ff) P e + es'.count e
    omega
  · by_cases hff : f' = f
    · rw [hff, hself]
      exact hunused
    · rw [hne f' hff]
      exact h.unused f'
  · by_cases hff : f' = f
    · exact fun _ => hff ▸ hf
    · rw [hne f' hff]
      exact h.bound f'

theorem Ends.setFile {ff : File} (h : Ends s) (hend : ff.pipeEnd = (s.ftable f).pipeEnd) :
    Ends (s.setFile f ff) := by
  have hpipe : ∀ f', ((s.setFile f ff).ftable f').pipeEnd = (s.ftable f').pipeEnd := by
    intro f'
    rw [setFile_ftable]
    by_cases hff : f' = f
    · rw [hff, Function.update_self, hend]
    · rw [Function.update_of_ne hff]
  refine ⟨fun pi w => ?_, fun f' g x => ?_, h.live⟩
  · simp only [hpipe]
    exact h.isOpen_iff pi w
  · rw [hpipe, hpipe]
    exact h.once f' g x

/-- The new file stands for nothing yet. -/
theorem filealloc_spec : Triple (At P Q es fs) filealloc fun r s => At P Q es (r.toList ++ fs) s ∧
    ∀ f ∈ r, f < NFILE ∧ (s.ftable f).type = .none := by
  intro s r s' hs heq
  rcases filealloc_cases heq with ⟨rfl, rfl⟩ | ⟨f, rfl, hf, hzero, rfl⟩
  · exact ⟨hs, fun f hf => absurd hf (Option.not_mem_none f)⟩
  · have htype := hs.counts.unused f hzero
    refine ⟨⟨hs.counts.setFile hf ?_ (fun f' hf' => count_other hf') ?_ fun e => rfl, hs.ends.setFile rfl,
      hs.procs⟩, fun g hg => ?_⟩
    · change 1 + (fs.count f : Int) = (s.ftable f).ref + ((f :: fs).count f : Nat)
      rw [List.count_cons_self]
      omega
    · intro hone
      cases hone
    · obtain rfl := Option.mem_some.mp hg
      refine ⟨hf, ?_⟩
      rw [setFile_ftable, Function.update_self]
      exact htype

theorem filedup_spec : Triple (At P Q es fs) (filedup f) fun _ => At P Q es (f :: fs) := by
  intro s u s' hs heq
  obtain ⟨hpos, rfl⟩ := filedup_eq heq
  refine ⟨hs.counts.setFile (hs.counts.bound f (by omega)) ?_ (fun f' hf' => count_other hf') ?_
    fun e => rfl, hs.ends.setFile rfl, hs.procs⟩
  · rw [List.count_cons_self]
    simp only
    omega
  · simp only
    omega

theorem isOpen_close (x : Pipe) (w w' : Bool) : (x.close w).isOpen w' ↔ x.isOpen w' ∧ w' ≠ w := by
  rcases x with ⟨live, r, wr⟩
  unfold Pipe.isOpen Pipe.close
  cases w <;> cases w' <;> cases live <;> cases r <;> cases wr <;> simp

theorem close_live {x : Pipe} {w : Bool} (h : (x.close w).live = true) :
    (x.close w).isOpen true ∨ (x.close w).isOpen false := by
  rcases x with ⟨live, r, wr⟩
  unfold Pipe.isOpen Pipe.close at *
  cases w <;> cases live <;> cases r <;> cases wr <;> simp_all

/-- The last reference to a file goes. What it stands for is not closed yet. -/
theorem Counts.drop {ff : File} (h : Counts P es (f :: fs) s) (hone : (s.ftable f).ref = 1)
    (hff : ff = { s.ftable f with ref := 0, type := .none }) :
    Counts P ((s.ftable f).inode.toList ++ es) fs (s.setFile f ff) := by
  have hinode : ff.inode = none := by
    rw [hff]
    rfl
  refine h.setFile (h.bound f (by omega)) ?_ (fun f' hf' => (count_other hf').symm) (fun _ => ?_) fun e => ?_
  · rw [List.count_cons_self, hff]
    simp only
    omega
  · rw [hff]
  · rw [hinode]
    cases (s.ftable f).inode with
    | none => simp
    | some e' =>
      by_cases hee : e' = e
      · subst hee
        simp [Nat.add_comm]
      · simp [hee]

/-- An end of a pipe is closed together with its file. -/
theorem Ends.close {w : Bool} {ff : File} (h : Ends s) (hff : ff.pipeEnd = none)
    (hend : (s.ftable f).pipeEnd = some (pi, w)) :
    Ends ((s.setFile f ff).setPipe pi ((s.pipes pi).close w)) := by
  have hfile : ∀ g, (Function.update s.ftable f ff g).pipeEnd =
      if g = f then none else (s.ftable g).pipeEnd := by
    intro g
    by_cases hgf : g = f
    · rw [if_pos hgf, hgf, Function.update_self, hff]
    · rw [if_neg hgf, Function.update_of_ne hgf]
  have hiff : ∀ pi' w', (Function.update s.pipes pi ((s.pipes pi).close w) pi').isOpen w' ↔
      (s.pipes pi').isOpen w' ∧ (pi', w') ≠ (pi, w) := by
    intro pi' w'
    by_cases hpi : pi' = pi
    · subst hpi
      rw [Function.update_self, isOpen_close]
      simp
    · rw [Function.update_of_ne hpi]
      simp [hpi]
  refine ⟨fun pi' w' => ?_, fun g g' x => ?_, fun pi' => ?_⟩
  · change (Function.update s.pipes pi ((s.pipes pi).close w) pi').isOpen w' ↔
      ∃ g, (Function.update s.ftable f ff g).pipeEnd = some (pi', w')
    rw [hiff, h.isOpen_iff]
    constructor
    · rintro ⟨⟨g, hg⟩, hne⟩
      refine ⟨g, ?_⟩
      rw [hfile, if_neg, hg]
      rintro rfl
      exact hne (Option.some.inj (hg.symm.trans hend))
    · rintro ⟨g, hg⟩
      rw [hfile] at hg
      by_cases hgf : g = f
      · rw [if_pos hgf] at hg
        cases hg
      · rw [if_neg hgf] at hg
        refine ⟨⟨g, hg⟩, fun heq => hgf ?_⟩
        rw [heq] at hg
        exact h.once g f _ hg hend
  · change (Function.update s.ftable f ff g).pipeEnd = some x →
      (Function.update s.ftable f ff g').pipeEnd = some x → g = g'
    rw [hfile, hfile]
    intro hg hg'
    split at hg
    · cases hg
    · split at hg'
      · cases hg'
      · exact h.once g g' x hg hg'
  · change (Function.update s.pipes pi ((s.pipes pi).close w) pi').live = true →
      (Function.update s.pipes pi ((s.pipes pi).close w) pi').isOpen true ∨
        (Function.update s.pipes pi ((s.pipes pi).close w) pi').isOpen false
    by_cases hpi : pi' = pi
    · subst hpi
      rw [Function.update_self]
      exact close_live
    · rw [Function.update_of_ne hpi]
      exact h.live pi'

theorem fileclose_spec : Triple (At P Q es (f :: fs)) (fileclose f) fun _ => At P Q es fs := by
  intro s u s' hs heq
  obtain ⟨hpos, ⟨hmore, rfl⟩ | ⟨hone, s₁, rfl, hlast⟩⟩ := fileclose_cases heq
  · refine ⟨hs.counts.setFile (hs.counts.bound f (by omega)) ?_ (fun f' hf' => (count_other hf').symm) ?_
      fun e => rfl, hs.ends.setFile rfl, hs.procs⟩
    · rw [List.count_cons_self]
      simp only
      omega
    · simp only
      omega
  · have hdrop := hs.counts.drop hone rfl
    rcases hlast with ⟨htype, rfl⟩ | ⟨htype, hclose⟩ | ⟨htype, hput⟩
    · have hinode : (s.ftable f).inode = none := by
        unfold File.inode
        rw [htype]
        rfl
      have hend : (s.ftable f).pipeEnd = none := by
        unfold File.pipeEnd
        rw [htype]
        rfl
      rw [hinode] at hdrop
      exact ⟨hdrop, hs.ends.setFile hend.symm, hs.procs⟩
    · have hinode : (s.ftable f).inode = none := by
        unfold File.inode
        rw [htype]
        rfl
      rw [hinode] at hdrop
      rw [pipeclose_eq hclose]
      exact ⟨⟨hdrop.files, hdrop.inodes, hdrop.unused, hdrop.bound⟩, hs.ends.close rfl (if_pos htype), hs.procs⟩
    · have hinode : (s.ftable f).inode = some (s.ftable f).ip := if_pos htype
      have hend : (s.ftable f).pipeEnd = none := by
        unfold File.pipeEnd
        rcases htype with htype | htype <;> rw [htype] <;> rfl
      rw [hinode] at hdrop
      exact iput_spec _ _ _ ⟨hdrop, hs.ends.setFile hend.symm, hs.procs⟩ hput

/-- A file becomes the end of a pipe. -/
theorem Counts.setEnd {ff : File} (h : Counts P es fs s) (hf : f < NFILE) (href : (s.ftable f).ref ≠ 0)
    (hnone : (s.ftable f).inode = none) (hff : ff.ref = (s.ftable f).ref) (hend : ff.inode = none) :
    Counts P es fs (s.setFile f ff) := by
  refine h.setFile hf (by rw [hff]) (fun _ _ => rfl) (fun hzero => absurd (hff ▸ hzero) href) fun e => ?_
  rw [hnone, hend]

theorem File.inode_of_none {ff : File} (h : ff.type = .none) : ff.inode = none := by
  unfold File.inode
  rw [h]
  rfl

theorem File.pipeEnd_of_none {ff : File} (h : ff.type = .none) : ff.pipeEnd = none := by
  unfold File.pipeEnd
  rw [h]
  rfl

/-- Two files become the ends of a new pipe. -/
theorem Ends.open {f g : Nat} {ff gg : File} (h : Ends s) (hfree : (s.pipes pi).live = false) (hfg : f ≠ g)
    (hf : (s.ftable f).pipeEnd = none) (hg : (s.ftable g).pipeEnd = none)
    (hff : ff.pipeEnd = some (pi, false)) (hgg : gg.pipeEnd = some (pi, true)) :
    Ends (((s.setPipe pi ⟨true, true, true⟩).setFile f ff).setFile g gg) := by
  -- nothing is open at the new page
  have hclosed : ∀ w k, (s.ftable k).pipeEnd ≠ some (pi, w) := by
    intro w k hk
    have hopen := (h.isOpen_iff pi w).mpr ⟨k, hk⟩
    rw [hopen.1] at hfree
    cases hfree
  have hfile : ∀ k, (Function.update (Function.update s.ftable f ff) g gg k).pipeEnd =
      if k = g then some (pi, true) else if k = f then some (pi, false) else (s.ftable k).pipeEnd := by
    intro k
    by_cases hkg : k = g
    · rw [if_pos hkg, hkg, Function.update_self, hgg]
    · rw [if_neg hkg, Function.update_of_ne hkg]
      by_cases hkf : k = f
      · rw [if_pos hkf, hkf, Function.update_self, hff]
      · rw [if_neg hkf, Function.update_of_ne hkf]
  have hpipe : ∀ pi' w, (Function.update s.pipes pi ⟨true, true, true⟩ pi').isOpen w ↔
      pi' = pi ∨ (s.pipes pi').isOpen w := by
    intro pi' w
    by_cases hpi : pi' = pi
    · subst hpi
      rw [Function.update_self]
      unfold Pipe.isOpen
      cases w <;> simp
    · rw [Function.update_of_ne hpi]
      exact (or_iff_right hpi).symm
  refine ⟨fun pi' w => ?_, fun k k' x => ?_, fun pi' => ?_⟩
  · change (Function.update s.pipes pi ⟨true, true, true⟩ pi').isOpen w ↔
      ∃ k, (Function.update (Function.update s.ftable f ff) g gg k).pipeEnd = some (pi', w)
    rw [hpipe]
    constructor
    · rintro (rfl | hopen)
      · cases w with
        | true => exact ⟨g, by rw [hfile, if_pos rfl]⟩
        | false => exact ⟨f, by rw [hfile, if_neg hfg, if_pos rfl]⟩
      · obtain ⟨k, hk⟩ := (h.isOpen_iff pi' w).mp hopen
        refine ⟨k, ?_⟩
        rw [hfile, if_neg, if_neg]
        · exact hk
        · rintro rfl
          rw [hf] at hk
          cases hk
        · rintro rfl
          rw [hg] at hk
          cases hk
    · rintro ⟨k, hk⟩
      rw [hfile] at hk
      split at hk
      · exact Or.inl (Prod.mk.inj (Option.some.inj hk)).1.symm
      · split at hk
        · exact Or.inl (Prod.mk.inj (Option.some.inj hk)).1.symm
        · exact Or.inr ((h.isOpen_iff pi' w).mpr ⟨k, hk⟩)
  · change (Function.update (Function.update s.ftable f ff) g gg k).pipeEnd = some x →
      (Function.update (Function.update s.ftable f ff) g gg k').pipeEnd = some x → k = k'
    rw [hfile, hfile]
    intro hk hk'
    by_cases hkg : k = g <;> by_cases hkg' : k' = g
    · rw [hkg, hkg']
    · rw [if_pos hkg] at hk
      rw [if_neg hkg', ← hk] at hk'
      split at hk'
      · cases hk'
      · exact absurd hk' (hclosed _ _)
    · rw [if_pos hkg'] at hk'
      rw [if_neg hkg, ← hk'] at hk
      split at hk
      · cases hk
      · exact absurd hk (hclosed _ _)
    · rw [if_neg hkg] at hk
      rw [if_neg hkg'] at hk'
      by_cases hkf : k = f <;> by_cases hkf' : k' = f
      · rw [hkf, hkf']
      · rw [if_pos hkf] at hk
        rw [if_neg hkf', ← hk] at hk'
        exact absurd hk' (hclosed _ _)
      · rw [if_pos hkf'] at hk'
        rw [if_neg hkf, ← hk'] at hk
        exact absurd hk (hclosed _ _)
      · rw [if_neg hkf] at hk
        rw [if_neg hkf'] at hk'
        exact h.once k k' x hk hk'
  · change (Function.update s.pipes pi ⟨true, true, true⟩ pi').live = true →
      (Function.update s.pipes pi ⟨true, true, true⟩ pi').isOpen true ∨
        (Function.update s.pipes pi ⟨true, true, true⟩ pi').isOpen false
    rw [hpipe, hpipe]
    by_cases hpi : pi' = pi
    · exact fun _ => Or.inl (Or.inl hpi)
    · rw [Function.update_of_ne hpi]
      exact fun hlive => Or.imp Or.inr Or.inr (h.live pi' hlive)

/-- A file that is in use and stands for nothing yet. -/
structure Blank (s : State) (f : Nat) : Prop where
  lt : f < NFILE
  ref_pos : 0 < (s.ftable f).ref
  type : (s.ftable f).type = .none

theorem At.openPipe {g : Nat} {ff gg : File} (h : At P Q es fs s) (hfree : (s.pipes pi).live = false)
    (hfg : f ≠ g) (hf : Blank s f) (hg : Blank s g)
    (hfref : ff.ref = (s.ftable f).ref) (hfinode : ff.inode = none) (hfend : ff.pipeEnd = some (pi, false))
    (hgref : gg.ref = (s.ftable g).ref) (hginode : gg.inode = none) (hgend : gg.pipeEnd = some (pi, true)) :
    At P Q es fs (((s.setPipe pi ⟨true, true, true⟩).setFile f ff).setFile g gg) := by
  have hpipe : Counts P es fs (s.setPipe pi ⟨true, true, true⟩) :=
    ⟨h.counts.files, h.counts.inodes, h.counts.unused, h.counts.bound⟩
  have hopen : Counts P es fs ((s.setPipe pi ⟨true, true, true⟩).setFile f ff) :=
    hpipe.setEnd hf.lt (Int.ne_of_gt hf.ref_pos) (File.inode_of_none hf.type) hfref hfinode
  have hsame : ((s.setPipe pi ⟨true, true, true⟩).setFile f ff).ftable g = s.ftable g :=
    Function.update_of_ne hfg.symm ..
  refine ⟨hopen.setEnd hg.lt ?_ ?_ ?_ hginode, ?_, h.procs⟩
  · rw [hsame]
    exact Int.ne_of_gt hg.ref_pos
  · rw [hsame]
    exact File.inode_of_none hg.type
  · rw [hsame]
    exact hgref
  · exact h.ends.open hfree hfg (File.pipeEnd_of_none hf.type) (File.pipeEnd_of_none hg.type) hfend hgend

theorem filealloc_pipes {r : Option Nat} (h : filealloc s = .ok (r, s')) : s'.pipes = s.pipes := by
  rcases filealloc_cases h with ⟨-, rfl⟩ | ⟨f, -, -, -, rfl⟩ <;> rfl

/-- A local variable that points to a file keeps it in use. -/
theorem Counts.ref_pos (h : Counts P es fs s) (hf : f ∈ fs) : 0 < (s.ftable f).ref := by
  have hcount := h.files f
  have hpos := List.count_pos_iff.mpr hf
  omega

/-- The second file that is allocated is another one, and the first one stays as it is. -/
theorem filealloc_second {g : Nat} (hs : Counts P es (f :: fs) s) (h : filealloc s = .ok (some g, s')) :
    f ≠ g ∧ s'.ftable f = s.ftable f := by
  rcases filealloc_cases h with ⟨hnone, -⟩ | ⟨g', hg, -, hzero, rfl⟩
  · cases hnone
  · obtain rfl := Option.some.inj hg
    have hpos := hs.ref_pos List.mem_cons_self
    have hne : f ≠ g := by
      rintro rfl
      omega
    exact ⟨hne, by rw [setFile_ftable, Function.update_of_ne hne]⟩

/-- The files for the ends of a pipe belong to the caller. -/
def withFiles (P Q : Nat → Proc) (es fs : List Nat) (r : Option (Nat × Nat)) (s : State) : Prop :=
  At P Q es (r.elim [] (fun x => [x.1, x.2]) ++ fs) s

theorem pipealloc_spec {page : Option Nat} :
    Triple (fun s => At P Q es fs s ∧ ∀ pi ∈ page, (s.pipes pi).live = false) (pipealloc page)
      (withFiles P Q es fs) := by
  rintro s r s' ⟨hs, hpage⟩ heq
  unfold pipealloc at heq
  obtain ⟨r0, s₁, h0, heq⟩ := ok_of_bind heq
  obtain ⟨hs₁, hnew₁⟩ := filealloc_spec _ _ _ hs h0
  rcases r0 with _ | f0
  · obtain ⟨rfl, rfl⟩ := ok_of_pure heq
    exact hs₁
  obtain ⟨r1, s₂, h1, heq⟩ := ok_of_bind heq
  obtain ⟨hs₂, hnew₂⟩ := filealloc_spec _ _ _ hs₁ h1
  rcases r1 with _ | f1
  · obtain ⟨u, s₃, hclose, heq⟩ := ok_of_bind heq
    obtain ⟨rfl, rfl⟩ := ok_of_pure heq
    exact fileclose_spec _ _ _ hs₂ hclose
  rcases page with _ | pi
  · obtain ⟨u, s₃, hclose, heq⟩ := ok_of_bind heq
    obtain ⟨u', s₄, hclose', heq⟩ := ok_of_bind heq
    obtain ⟨rfl, rfl⟩ := ok_of_pure heq
    exact fileclose_spec _ _ _ (fileclose_spec _ _ _ hs₂.swapFiles hclose) hclose'
  · obtain ⟨hne, hsame⟩ := filealloc_second hs₁.counts h1
    obtain ⟨hlt0, htype0⟩ := hnew₁ f0 rfl
    obtain ⟨hlt1, htype1⟩ := hnew₂ f1 rfl
    rw [← hsame] at htype0
    have hfree : (s₂.pipes pi).live = false := by
      rw [filealloc_pipes h1, filealloc_pipes h0]
      exact hpage pi rfl
    have href0 := hs₂.counts.ref_pos (List.mem_cons_of_mem f1 List.mem_cons_self)
    have href1 := hs₂.counts.ref_pos List.mem_cons_self
    obtain ⟨u, s₃, h2, heq⟩ := ok_of_bind heq
    obtain rfl := ok_of_modify h2
    obtain ⟨u', s₄, h3, heq⟩ := ok_of_bind (ok_of_get heq)
    obtain rfl := ok_of_modify h3
    obtain ⟨u'', s₅, h4, heq⟩ := ok_of_bind (ok_of_get heq)
    obtain rfl := ok_of_modify h4
    obtain ⟨rfl, rfl⟩ := ok_of_pure heq
    refine hs₂.swapFiles.openPipe hfree hne ⟨hlt0, href0, htype0⟩ ⟨hlt1, href1, htype1⟩ rfl rfl rfl ?_ rfl rfl
    change (Function.update s₂.ftable f0 _ f1).ref = _
    rw [Function.update_of_ne hne.symm]

/-! ## Descriptors and current directories -/

/-- The processes with one descriptor changed. -/
def setSlot (P : Nat → Proc) (p fd : Nat) (v : Option Nat) : Nat → Proc :=
  Function.update P p ((P p).setOfile fd v)

def setCwd (P : Nat → Proc) (p : Nat) (v : Option Nat) : Nat → Proc :=
  Function.update P p { P p with cwd := v }

theorem slotOf_setSlot (v : Option Nat) :
    slotOf (setSlot P p fd v) = Function.update (slotOf P) (p, fd) v := by
  funext ⟨q, n⟩
  unfold slotOf setSlot Proc.setOfile
  by_cases hq : q = p
  · subst hq
    by_cases hn : n = fd
    · subst hn
      simp only [Function.update_self]
    · simp only [Function.update_self]
      rw [Function.update_of_ne hn, Function.update_of_ne (by simp [hn])]
  · simp only
    rw [Function.update_of_ne hq, Function.update_of_ne]
    exact fun heq => hq (Prod.mk.inj heq).1

theorem cwd_setSlot (v : Option Nat) (q : Nat) : (setSlot P p fd v q).cwd = (P q).cwd := by
  unfold setSlot
  by_cases hq : q = p
  · subst hq
    rw [Function.update_self]
    rfl
  · rw [Function.update_of_ne hq]

theorem ofile_setCwd (v : Option Nat) (q : Nat) : (setCwd P p v q).ofile = (P q).ofile := by
  unfold setCwd
  by_cases hq : q = p
  · subst hq
    rw [Function.update_self]
  · rw [Function.update_of_ne hq]

theorem state_setSlot (v : Option Nat) (q : Nat) : (setSlot P p fd v q).state = (P q).state := by
  unfold setSlot
  by_cases hq : q = p
  · subst hq
    rw [Function.update_self]
    rfl
  · rw [Function.update_of_ne hq]

theorem state_setCwd (v : Option Nat) (q : Nat) : (setCwd P p v q).state = (P q).state := by
  unfold setCwd
  by_cases hq : q = p
  · subst hq
    rw [Function.update_self]
  · rw [Function.update_of_ne hq]

theorem ofile_setSlot (v : Option Nat) : (setSlot P p fd v p).ofile fd = v := by
  unfold setSlot Proc.setOfile
  rw [Function.update_self]
  exact Function.update_self ..

theorem ofile_setSlot_of_ne {n : Nat} (v : Option Nat) (h : n ≠ fd) :
    (setSlot P p fd v p).ofile n = (P p).ofile n := by
  unfold setSlot Proc.setOfile
  rw [Function.update_self]
  exact Function.update_of_ne h ..

theorem setSlot_of_ne {q : Nat} (v : Option Nat) (h : q ≠ p) : setSlot P p fd v q = P q :=
  Function.update_of_ne h ..

theorem setCwd_of_ne {q : Nat} (v : Option Nat) (h : q ≠ p) : setCwd P p v q = P q :=
  Function.update_of_ne h ..

/-- The counts see the descriptors and the current directories only. -/
theorem Counts.congr (h : Counts P es fs s) (hfile : ∀ q, (Q q).ofile = (P q).ofile)
    (hcwd : ∀ q, (Q q).cwd = (P q).cwd) : Counts Q es fs s := by
  have hslot : slotOf Q = slotOf P := by
    funext q
    unfold slotOf
    rw [hfile]
  have hdir : (fun q => (Q q).cwd) = fun q => (P q).cwd := by
    funext q
    exact hcwd q
  refine ⟨fun f => ?_, fun e => ?_, h.unused, h.bound⟩
  · unfold fileHolders
    rw [hslot]
    exact h.files f
  · unfold inodeHolders
    rw [hdir]
    exact h.inodes e

/-- A descriptor changes, and the files in it go to or come from a local variable. -/
theorem Counts.setSlot {fs' : List Nat} {v : Option Nat} (h : Counts P es fs s) (hp : p < NPROC)
    (hfd : fd < NOFILE) (hmove : ∀ f, (if v = some f then 1 else 0) + fs'.count f =
      (if (P p).ofile fd = some f then 1 else 0) + fs.count f) :
    Counts (setSlot P p fd v) es fs' s := by
  have hmem : (p, fd) ∈ slots := by
    rw [mem_slots]
    exact ⟨hp, hfd⟩
  refine ⟨fun f => ?_, fun e => ?_, h.unused, h.bound⟩
  · have hold := h.files f
    have hcount := @holding_update _ _ (slotOf P) _ _ hmem v f
    have hslot : slotOf P (p, fd) = (P p).ofile fd := rfl
    rw [hslot] at hcount
    have hboth := hmove f
    unfold fileHolders at *
    rw [slotOf_setSlot]
    omega
  · have hold := h.inodes e
    unfold inodeHolders at *
    simp only [cwd_setSlot]
    exact hold

/-- A local variable is stored in a free descriptor. -/
theorem Counts.store (h : Counts P es (f :: fs) s) (hp : p < NPROC) (hfd : fd < NOFILE)
    (hfree : (P p).ofile fd = none) : Counts (sysfile.setSlot P p fd (some f)) es fs s := by
  refine h.setSlot hp hfd fun g => ?_
  rw [hfree]
  by_cases hfg : f = g
  · subst hfg
    simp [Nat.add_comm]
  · simp [hfg]

/-- A descriptor is cleared, and the file in it is left to a local variable. -/
theorem Counts.clear (h : Counts P es fs s) (hp : p < NPROC) (hfd : fd < NOFILE)
    (hfile : (P p).ofile fd = some f) : Counts (sysfile.setSlot P p fd none) es (f :: fs) s := by
  refine h.setSlot hp hfd fun g => ?_
  rw [hfile]
  by_cases hfg : f = g
  · subst hfg
    simp [Nat.add_comm]
  · simp [hfg]

/-- A current directory changes, and the entries in it go to or come from a local variable. -/
theorem Counts.setCwd {es' : List Nat} {v : Option Nat} (h : Counts P es fs s) (hp : p < NPROC)
    (hmove : ∀ e, (if v = some e then 1 else 0) + es'.count e =
      (if (P p).cwd = some e then 1 else 0) + es.count e) :
    Counts (setCwd P p v) es' fs s := by
  refine ⟨fun f => ?_, fun e => ?_, h.unused, h.bound⟩
  · have hold := h.files f
    have hslot : slotOf (sysfile.setCwd P p v) = slotOf P := by
      funext q
      unfold slotOf
      rw [ofile_setCwd]
    unfold fileHolders at *
    rw [hslot]
    exact hold
  · have hold := h.inodes e
    have hcount := @holding_update _ _ (fun q => (P q).cwd) _ _ (Finset.mem_range.mpr hp) v e
    have hdir : (fun q => (sysfile.setCwd P p v q).cwd) = Function.update (fun q => (P q).cwd) p v := by
      funext q
      unfold sysfile.setCwd
      by_cases hq : q = p
      · subst hq
        rw [Function.update_self, Function.update_self]
      · rw [Function.update_of_ne hq, Function.update_of_ne hq]
    have hboth := hmove e
    unfold inodeHolders at *
    rw [hdir]
    omega

theorem Counts.enter (h : Counts P (e :: es) fs s) (hp : p < NPROC) (hfree : (P p).cwd = none) :
    Counts (sysfile.setCwd P p (some e)) es fs s := by
  refine h.setCwd hp fun e' => ?_
  rw [hfree]
  by_cases hee : e = e'
  · subst hee
    simp [Nat.add_comm]
  · simp [hee]

theorem Counts.leave (h : Counts P es fs s) (hp : p < NPROC) (hdir : (P p).cwd = some e) :
    Counts (sysfile.setCwd P p none) (e :: es) fs s := by
  refine h.setCwd hp fun e' => ?_
  rw [hdir]
  by_cases hee : e = e'
  · subst hee
    simp [Nat.add_comm]
  · simp [hee]

theorem setOfile_spec {v : Option Nat} :
    Triple (At P Q es fs) (setOfile p fd v) fun _ => At P (setSlot Q p fd v) es fs := by
  refine Triple.write fun s hs => ⟨⟨hs.counts.files, hs.counts.inodes, hs.counts.unused, hs.counts.bound⟩,
    ⟨hs.ends.isOpen_iff, hs.ends.once, hs.ends.live⟩, ?_⟩
  rw [setProc_procs, hs.procs]
  rfl

/-- The descriptor is taken. The count of the file does not know of it yet. -/
theorem fdalloc_spec : Triple (At P Q es fs) (fdalloc p f) fun r s => match r with
    | none => At P Q es fs s
    | some fd => fd < NOFILE ∧ (Q p).ofile fd = none ∧ At P (setSlot Q p fd (some f)) es fs s := by
  intro s r s' hs heq
  rcases fdalloc_cases heq with ⟨rfl, rfl⟩ | ⟨fd, rfl, hfd, hfree, rfl⟩
  · exact hs
  · rw [hs.procs] at hfree
    refine ⟨hfd, hfree, ⟨hs.counts.files, hs.counts.inodes, hs.counts.unused, hs.counts.bound⟩,
      ⟨hs.ends.isOpen_iff, hs.ends.once, hs.ends.live⟩, ?_⟩
    rw [setProc_procs, hs.procs]
    rfl

/-! ## Calls that leave the processes alone -/

theorem linkBad_spec : Triple (At P Q (e :: es) fs) (linkBad e) fun _ => At P Q es fs := by
  unfold linkBad
  refine Triple.bind ilock_spec fun _ => Triple.look fun s => Triple.bind setInodeOf_spec fun _ => ?_
  exact Triple.bind iput_spec fun _ => Triple.ret fun s hs => hs

theorem sysLink_spec {old new : Option (List UInt8)} {room : Bool} :
    Triple (At P Q es fs) (sysLink p old new room) fun _ => At P Q es fs := by
  unfold sysLink
  rcases old with _ | old
  · exact Triple.ret fun s hs => hs
  rcases new with _ | new
  · exact Triple.ret fun s hs => hs
  refine Triple.bind namex_spec fun r => ?_
  rcases r with _ | ⟨ip, name⟩
  · exact Triple.ret fun s hs => hs
  refine Triple.bind ilock_spec fun _ => Triple.look fun s => Triple.split (fun _ => ?_) fun _ => ?_
  · exact Triple.bind iput_spec fun _ => Triple.ret fun s hs => hs
  refine Triple.bind setInodeOf_spec fun _ => Triple.bind namex_spec fun r => ?_
  rcases r with _ | ⟨dp, name⟩
  · exact linkBad_spec
  refine Triple.bind ilock_spec fun _ => Triple.look fun s => Triple.bind dirlink_spec fun linked => ?_
  refine Triple.split (fun _ => ?_) fun _ => Triple.bind iput_spec fun _ => linkBad_spec
  refine Triple.bind iput_spec fun _ => Triple.bind iput_spec fun _ => Triple.ret fun s hs => hs

theorem unlinkFound_spec {dp ip k : Nat} :
    Triple (At P Q (ip :: dp :: es) fs) (unlinkFound dp ip k) fun _ => At P Q es fs := by
  unfold unlinkFound
  refine Triple.bind ilock_spec fun _ => Triple.look fun s => Triple.split (fun _ => Triple.fail _) fun _ => ?_
  refine Triple.split (fun _ => ?_) fun _ => ?_
  · exact Triple.bind iput_spec fun _ => Triple.bind iput_spec fun _ => Triple.ret fun s hs => hs
  refine Triple.bind setInodeOf_spec fun _ => Triple.look fun s => ?_
  have hput : Triple (At P Q (ip :: dp :: es) fs) (iput dp) fun _ => At P Q (ip :: es) fs :=
    iput_spec.pre fun s hs => hs.swap
  refine Triple.first (fun _ => setInodeOf_spec) (fun _ s hs => hs) ?_
  refine Triple.bind hput fun _ => Triple.look fun s => Triple.bind setInodeOf_spec fun _ => ?_
  exact Triple.bind iput_spec fun _ => Triple.ret fun s hs => hs

theorem sysUnlink_spec {path : Option (List UInt8)} :
    Triple (At P Q es fs) (sysUnlink p path) fun _ => At P Q es fs := by
  unfold sysUnlink
  rcases path with _ | path
  · exact Triple.ret fun s hs => hs
  refine Triple.bind namex_spec fun r => ?_
  rcases r with _ | ⟨dp, name⟩
  · exact Triple.ret fun s hs => hs
  refine Triple.bind ilock_spec fun _ => Triple.split (fun _ => ?_) fun _ => ?_
  · exact Triple.bind iput_spec fun _ => Triple.ret fun s hs => hs
  refine Triple.bind dirlookup_spec fun r => ?_
  rcases r with _ | ⟨ip, k⟩
  · exact Triple.bind iput_spec fun _ => Triple.ret fun s hs => hs
  · exact unlinkFound_spec

theorem createFail_spec {dp ip : Nat} :
    Triple (At P Q (ip :: dp :: es) fs) (createFail dp ip) (withEntry P Q es fs) := by
  unfold createFail
  refine Triple.look fun s => Triple.bind setInodeOf_spec fun _ => Triple.bind iput_spec fun _ => ?_
  exact Triple.bind iput_spec fun _ => Triple.ret fun s hs => hs

theorem createDots_spec {dp ip : Nat} {room : Room} :
    Triple (At P Q es fs) (createDots dp ip room) fun _ => At P Q es fs := by
  unfold createDots
  refine Triple.look fun s => Triple.bind dirlink_spec fun dot => Triple.split (fun _ => ?_) fun _ => ?_
  · exact dirlink_spec
  · exact Triple.ret fun s hs => hs

theorem createNew_spec {dp ip type : Nat} {name : Name} {major minor : Int} {room : Room} :
    Triple (At P Q (ip :: dp :: es) fs) (createNew dp ip name type major minor room) (withEntry P Q es fs) := by
  unfold createNew
  refine Triple.bind ilock_spec fun _ => Triple.look fun s => Triple.bind setInodeOf_spec fun _ => ?_
  refine Triple.join (fun _ => createDots_spec) (fun _ => Triple.ret fun s hs => hs) fun dots => ?_
  refine Triple.split (fun _ => ?_) fun _ => createFail_spec
  refine Triple.look fun s => Triple.bind dirlink_spec fun linked => Triple.split (fun _ => ?_) fun _ =>
    createFail_spec
  have hput : Triple (At P Q (ip :: dp :: es) fs) (iput dp) fun _ => At P Q (ip :: es) fs :=
    iput_spec.pre fun s hs => hs.swap
  refine Triple.look fun s => ?_
  refine Triple.first (fun _ => setInodeOf_spec) (fun _ s hs => hs) ?_
  exact Triple.bind hput fun _ => Triple.ret fun s hs => hs

theorem create_spec {path : List UInt8} {type : Nat} {major minor : Int} {room : Room} :
    Triple (At P Q es fs) (create sb p path type major minor room) (withEntry P Q es fs) := by
  unfold create
  refine Triple.bind namex_spec fun r => ?_
  rcases r with _ | ⟨dp, name⟩
  · exact Triple.ret fun s hs => hs
  refine Triple.bind ilock_spec fun _ => Triple.bind dirlookup_spec fun r => ?_
  rcases r with _ | ⟨ip, k⟩
  · refine Triple.bind ialloc_spec fun r => ?_
    rcases r with _ | ip
    · exact Triple.bind iput_spec fun _ => Triple.ret fun s hs => hs
    · exact createNew_spec
  · have hput : Triple (At P Q (ip :: dp :: es) fs) (iput dp) fun _ => At P Q (ip :: es) fs :=
      iput_spec.pre fun s hs => hs.swap
    refine Triple.bind hput fun _ => Triple.bind ilock_spec fun _ => Triple.look fun s => ?_
    refine Triple.split (fun _ => Triple.ret fun s hs => hs) fun _ => ?_
    exact Triple.bind iput_spec fun _ => Triple.ret fun s hs => hs

theorem sysMkdir_spec {path : Option (List UInt8)} {room : Room} :
    Triple (At P Q es fs) (sysMkdir sb p path room) fun _ => At P Q es fs := by
  unfold sysMkdir
  rcases path with _ | path
  · exact Triple.ret fun s hs => hs
  refine Triple.bind create_spec fun r => ?_
  rcases r with _ | ip
  · exact Triple.ret fun s hs => hs
  · exact Triple.bind iput_spec fun _ => Triple.ret fun s hs => hs

theorem sysMknod_spec {path : Option (List UInt8)} {major minor : Int} {room : Room} :
    Triple (At P Q es fs) (sysMknod sb p path major minor room) fun _ => At P Q es fs := by
  unfold sysMknod
  rcases path with _ | path
  · exact Triple.ret fun s hs => hs
  refine Triple.bind create_spec fun r => ?_
  rcases r with _ | ip
  · exact Triple.ret fun s hs => hs
  · exact Triple.bind iput_spec fun _ => Triple.ret fun s hs => hs

/-! ## Calls that change the processes -/

/-- A process that does not run has no files and no current directory. -/
def Idle (P : Nat → Proc) : Prop :=
  ∀ q, (P q).state ≠ .running → (P q).cwd = none ∧ ∀ fd < NOFILE, (P q).ofile fd = none

/-- The process that makes the call. -/
structure Caller (P : Nat → Proc) (p : Nat) : Prop where
  lt : p < NPROC
  running : (P p).state = .running
  idle : Idle P

/-- What holds between two calls. -/
def Boundary (s : State) : Prop := Counts s.procs [] [] s ∧ Ends s ∧ Idle s.procs

theorem Idle.setSlot {v : Option Nat} (h : Idle P) (hrun : (P p).state = .running) :
    Idle (setSlot P p fd v) := by
  intro q hq
  rw [state_setSlot] at hq
  have hne : q ≠ p := by
    rintro rfl
    exact hq hrun
  rw [setSlot_of_ne v hne]
  exact h q hq

theorem Idle.setCwd {v : Option Nat} (h : Idle P) (hrun : (P p).state = .running) :
    Idle (setCwd P p v) := by
  intro q hq
  rw [state_setCwd] at hq
  have hne : q ≠ p := by
    rintro rfl
    exact hq hrun
  rw [setCwd_of_ne v hne]
  exact h q hq

theorem Caller.setSlot {v : Option Nat} (h : Caller P p) : Caller (setSlot P p fd v) p :=
  ⟨h.lt, by rw [state_setSlot]; exact h.running, h.idle.setSlot h.running⟩

theorem At.boundary (h : At P P [] [] s) (hidle : Idle P) : Boundary s := by
  obtain ⟨hcounts, hends, rfl⟩ := h
  exact ⟨hcounts, hends, hidle⟩

/-- A local variable that is stored in a descriptor that is taken already. -/
theorem At.store (h : At P (setSlot P p fd (some f)) es (f :: fs) s) (hc : Caller P p) (hfd : fd < NOFILE)
    (hfree : (P p).ofile fd = none) : At (setSlot P p fd (some f)) (setSlot P p fd (some f)) es fs s :=
  ⟨h.counts.store hc.lt hfd hfree, h.ends, h.procs⟩

/-- A descriptor that is cleared leaves its file to a local variable. -/
theorem At.clear (h : At P (setSlot P p fd none) es fs s) (hc : Caller P p) (hfd : fd < NOFILE)
    (hfile : (P p).ofile fd = some f) : At (setSlot P p fd none) (setSlot P p fd none) es (f :: fs) s :=
  ⟨h.counts.clear hc.lt hfd hfile, h.ends, h.procs⟩

theorem argfd_spec {n : Int} : Triple (At P Q es fs) (argfd p n) fun r s =>
    (∀ fd f, r = some (fd, f) → fd < NOFILE ∧ (Q p).ofile fd = some f) ∧ At P Q es fs s := by
  intro s r s' hs heq
  obtain ⟨rfl, rfl | ⟨fd, f, rfl, hfd, hfile⟩⟩ := argfd_cases heq
  · refine ⟨fun fd f hr => ?_, hs⟩
    cases hr
  · refine ⟨fun fd' f' hr => ?_, hs⟩
    obtain ⟨rfl, rfl⟩ := Prod.mk.inj (Option.some.inj hr)
    rw [hs.procs] at hfile
    exact ⟨hfd, hfile⟩

theorem sysDup_spec {n : Int} (hc : Caller P p) :
    Triple (At P P [] []) (sysDup p n) fun _ => Boundary := by
  unfold sysDup
  refine Triple.bind argfd_spec fun r => Triple.lift fun _ => ?_
  rcases r with _ | ⟨fd, f⟩
  · exact Triple.ret fun s hs => hs.boundary hc.idle
  refine Triple.bind fdalloc_spec fun r => ?_
  rcases r with _ | fd'
  · exact Triple.ret fun s hs => hs.boundary hc.idle
  refine Triple.lift fun hfd => Triple.lift fun hfree => Triple.bind filedup_spec fun _ => ?_
  exact Triple.ret fun s hs => (hs.store hc hfd hfree).boundary hc.setSlot.idle

theorem sysClose_spec {n : Int} (hc : Caller P p) :
    Triple (At P P [] []) (sysClose p n) fun _ => Boundary := by
  unfold sysClose
  refine Triple.bind argfd_spec fun r => Triple.lift fun hr => ?_
  rcases r with _ | ⟨fd, f⟩
  · exact Triple.ret fun s hs => hs.boundary hc.idle
  obtain ⟨hfd, hfile⟩ := hr fd f rfl
  refine Triple.bind setOfile_spec fun _ => ?_
  refine Triple.bind (fileclose_spec.pre fun s hs => hs.clear hc hfd hfile) fun _ => ?_
  exact Triple.ret fun s hs => hs.boundary hc.setSlot.idle

theorem sysPipe_spec {page : Option Nat} {copied : Bool} (hc : Caller P p) :
    Triple (fun s => At P P [] [] s ∧ ∀ pi ∈ page, (s.pipes pi).live = false) (sysPipe p page copied)
      fun _ => Boundary := by
  unfold sysPipe
  refine Triple.bind pipealloc_spec fun r => ?_
  rcases r with _ | ⟨rf, wf⟩
  · exact Triple.ret fun s hs => hs.boundary hc.idle
  refine Triple.bind fdalloc_spec fun r => ?_
  rcases r with _ | fd0
  · refine Triple.bind fileclose_spec fun _ => Triple.bind fileclose_spec fun _ => ?_
    exact Triple.ret fun s hs => hs.boundary hc.idle
  refine Triple.lift fun hfd0 => Triple.lift fun hfree0 => ?_
  have hc0 : Caller (setSlot P p fd0 (some rf)) p := hc.setSlot
  refine Triple.bind (fdalloc_spec.pre fun s hs => hs.store hc hfd0 hfree0) fun r => ?_
  rcases r with _ | fd1
  · refine Triple.bind setOfile_spec fun _ => ?_
    refine Triple.bind (fileclose_spec.pre fun s hs => hs.clear hc0 hfd0 (ofile_setSlot _)) fun _ => ?_
    refine Triple.bind fileclose_spec fun _ => ?_
    exact Triple.ret fun s hs => hs.boundary hc0.setSlot.idle
  refine Triple.lift fun hfd1 => Triple.lift fun hfree1 => ?_
  have hc1 : Caller (setSlot (setSlot P p fd0 (some rf)) p fd1 (some wf)) p := hc0.setSlot
  refine Triple.split (fun _ => ?_) fun _ => ?_
  · exact Triple.ret fun s hs => (hs.store hc0 hfd1 hfree1).boundary hc1.idle
  -- the first descriptor is in use, so the second is another one
  have hne : fd0 ≠ fd1 := by
    rintro rfl
    rw [ofile_setSlot] at hfree1
    cases hfree1
  have hfile0 : (setSlot (setSlot P p fd0 (some rf)) p fd1 (some wf) p).ofile fd0 = some rf := by
    rw [ofile_setSlot_of_ne _ hne, ofile_setSlot]
  have hc2 : Caller (setSlot (setSlot (setSlot P p fd0 (some rf)) p fd1 (some wf)) p fd0 none) p := hc1.setSlot
  refine Triple.bind (setOfile_spec.pre fun s hs => hs.store hc0 hfd1 hfree1) fun _ => ?_
  refine Triple.bind (setOfile_spec.pre fun s hs => hs.clear hc1 hfd0 hfile0) fun _ => ?_
  have hfile1 : (setSlot (setSlot (setSlot P p fd0 (some rf)) p fd1 (some wf)) p fd0 none p).ofile fd1 =
      some wf := by
    rw [ofile_setSlot_of_ne _ hne.symm, ofile_setSlot]
  refine Triple.bind (fileclose_spec.pre fun s hs => (hs.clear hc2 hfd1 hfile1).swapFiles) fun _ => ?_
  refine Triple.bind fileclose_spec fun _ => ?_
  exact Triple.ret fun s hs => hs.boundary hc2.setSlot.idle

theorem File.inode_of_open {ff : File} (h : ff.type = .inode ∨ ff.type = .device) :
    ff.inode = some ff.ip := if_pos h

theorem File.pipeEnd_of_open {ff : File} (h : ff.type = .inode ∨ ff.type = .device) : ff.pipeEnd = none := by
  unfold File.pipeEnd
  rcases h with h | h <;> rw [h] <;> rfl

/-- A file that is open on an inode keeps the reference of a local variable. -/
theorem At.openFile {ip : Nat} {ff : File} (h : At P Q (ip :: es) fs s) (hf : Blank s f)
    (href : ff.ref = (s.ftable f).ref) (hinode : ff.inode = some ip) (hend : ff.pipeEnd = none) :
    At P Q es fs (s.setFile f ff) := by
  have hpos := hf.ref_pos
  refine ⟨h.counts.setFile hf.lt (by rw [href]) (fun _ _ => rfl) (fun hzero => ?_) fun e => ?_,
    h.ends.setFile (by rw [hend, File.pipeEnd_of_none hf.type]), h.procs⟩
  · rw [href] at hzero
    omega
  · rw [hinode, File.inode_of_none hf.type]
    by_cases hip : ip = e
    · subst hip
      simp [Nat.add_comm]
    · simp [hip]

theorem fdalloc_ftable {R : (Nat → File) → Prop} :
    Triple (fun s => R s.ftable) (fdalloc p f) fun _ s => R s.ftable := by
  intro s r s' hs heq
  rcases fdalloc_cases heq with ⟨-, rfl⟩ | ⟨fd, -, -, -, rfl⟩ <;> exact hs

theorem openInode_spec {ip omode : Nat} (hc : Caller P p) :
    Triple (At P P [ip] []) (openInode p ip omode) fun _ => Boundary := by
  have hput : Triple (At P P [ip] []) (iput ip >>= fun _ => pure none : Kernel (Option Nat))
      fun _ => Boundary := Triple.bind iput_spec fun _ => Triple.ret fun s hs => hs.boundary hc.idle
  unfold openInode
  refine Triple.look fun s => Triple.split (fun _ => hput) fun _ => Triple.bind filealloc_spec fun r => ?_
  rcases r with _ | f
  · exact hput.pre fun s hs => hs.1
  have hfile : Triple (fun s => At P P [ip] [f] s ∧ ∀ g ∈ some f, g < NFILE ∧ (s.ftable g).type = .none)
      (fdalloc p f) _ :=
    Triple.and fdalloc_spec (@fdalloc_ftable _ _ fun ftable => ∀ g ∈ some f, g < NFILE ∧ (ftable g).type = .none)
  refine Triple.bind hfile fun r => ?_
  rcases r with _ | fd
  · exact Triple.bind (fileclose_spec.pre fun s hs => hs.1) fun _ => hput
  have hopen : ∀ s₀ (ff : File), ff.ref = (s₀.ftable f).ref → (ff.type = .inode ∨ ff.type = .device) → ff.ip = ip →
      Triple (fun s => s = s₀ ∧ (fd < NOFILE ∧ (P p).ofile fd = none ∧
        At P (setSlot P p fd (some f)) [ip] [f] s) ∧ ∀ g ∈ some f, g < NFILE ∧ (s.ftable g).type = .none)
      (setFile f ff) fun _ => At (setSlot P p fd (some f)) (setSlot P p fd (some f)) [] [] := by
    intro s₀ ff href htype hip
    refine Triple.write fun s hs => ?_
    obtain ⟨rfl, ⟨hfd, hfree, hs⟩, hf⟩ := hs
    obtain ⟨hlt, hnone⟩ := hf f rfl
    subst hip
    exact (hs.store hc hfd hfree).openFile ⟨hlt, hs.counts.ref_pos List.mem_cons_self, hnone⟩ href
      (File.inode_of_open htype) (File.pipeEnd_of_open htype)
  refine Triple.reading fun s₀ => Triple.bind (hopen s₀ _ rfl ?_ rfl) fun _ => ?_
  · exact (em _).elim (fun hdev => Or.inr (if_pos hdev)) fun hdev => Or.inl (if_neg hdev)
  refine Triple.first (fun _ => setInodeOf_spec) (fun _ s hs => hs) ?_
  exact Triple.ret fun s hs => hs.boundary hc.setSlot.idle

theorem sysOpen_spec {path : Option (List UInt8)} {omode : Nat} {room : Room} (hc : Caller P p) :
    Triple (At P P [] []) (sysOpen sb p path omode room) fun _ => Boundary := by
  unfold sysOpen
  rcases path with _ | path
  · exact Triple.ret fun s hs => hs.boundary hc.idle
  refine Triple.split (fun _ => ?_) fun _ => ?_
  · refine Triple.bind create_spec fun r => ?_
    rcases r with _ | ip
    · exact Triple.ret fun s hs => At.boundary hs hc.idle
    · exact openInode_spec hc
  · refine Triple.bind namex_spec fun r => ?_
    rcases r with _ | ⟨ip, name⟩
    · exact Triple.ret fun s hs => At.boundary hs hc.idle
    refine Triple.bind ilock_spec fun _ => Triple.look fun s => Triple.split (fun _ => ?_) fun _ =>
      openInode_spec hc
    exact Triple.bind iput_spec fun _ => Triple.ret fun s hs => hs.boundary hc.idle

theorem setCwd_setCwd {v w : Option Nat} : setCwd (setCwd P p v) p w = setCwd P p w := by
  unfold setCwd
  rw [Function.update_self, Function.update_idem]

theorem cwd_setCwd {v : Option Nat} : (setCwd P p v p).cwd = v := by
  unfold setCwd
  rw [Function.update_self]

/-- The old directory is given back before the new one is entered. -/
theorem sysChdir_spec {path : Option (List UInt8)} (hc : Caller P p) :
    Triple (At P P [] []) (sysChdir p path) fun _ => Boundary := by
  unfold sysChdir
  rcases path with _ | path
  · exact Triple.ret fun s hs => hs.boundary hc.idle
  refine Triple.bind namex_spec fun r => ?_
  rcases r with _ | ⟨ip, name⟩
  · exact Triple.ret fun s hs => At.boundary hs hc.idle
  refine Triple.bind ilock_spec fun _ => Triple.reading fun s₀ => Triple.split (fun _ => ?_) fun _ => ?_
  · refine Triple.bind (iput_spec.pre fun s hs => hs.2) fun _ => ?_
    exact Triple.ret fun s hs => hs.boundary hc.idle
  cases hcwd : (s₀.procs p).cwd with
  | none => exact Triple.fail _
  | some cwd =>
    have hleave : ∀ s, s = s₀ ∧ At P P [ip] [] s → At (setCwd P p none) P [cwd, ip] [] s := by
      rintro s ⟨rfl, hs⟩
      rw [hs.procs] at hcwd
      exact ⟨hs.counts.leave hc.lt hcwd, hs.ends, hs.procs⟩
    refine Triple.bind (iput_spec.pre hleave) fun _ => Triple.reading fun s₁ => ?_
    refine Triple.bind (Triple.write fun s hs => ?_) fun _ => Triple.ret fun s hs =>
      At.boundary (P := setCwd P p (some ip)) hs (hc.idle.setCwd hc.running)
    obtain ⟨rfl, hs⟩ := hs
    refine ⟨?_, ⟨hs.ends.isOpen_iff, hs.ends.once, hs.ends.live⟩, ?_⟩
    · have henter := hs.counts.enter hc.lt cwd_setCwd
      rw [setCwd_setCwd] at henter
      exact ⟨henter.files, henter.inodes, henter.unused, henter.bound⟩
    · rw [setProc_procs, hs.procs]
      rfl

/-! ## Processes -/

/-- Only the descriptors of one process change. -/
structure Same (P P' : Nat → Proc) (p : Nat) : Prop where
  other : ∀ q, q ≠ p → P' q = P q
  state : (P' p).state = (P p).state
  cwd : (P' p).cwd = (P p).cwd

theorem Same.refl : Same P P p := ⟨fun _ _ => rfl, rfl, rfl⟩

theorem Same.setSlot {P' : Nat → Proc} {v : Option Nat} (h : Same (setSlot P p fd v) P' p) : Same P P' p where
  other q hq := by rw [h.other q hq, setSlot_of_ne v hq]
  state := by rw [h.state, state_setSlot]
  cwd := by rw [h.cwd, cwd_setSlot]

theorem forkFiles_spec {np : Nat} {fds : List Nat} (hnp : np < NPROC) (hnodup : fds.Nodup)
    (hfree : ∀ fd ∈ fds, fd < NOFILE ∧ (P np).ofile fd = none) :
    Triple (At P P es fs) (forkFiles p np fds) fun _ s => ∃ P', Same P P' np ∧ At P' P' es fs s := by
  induction fds generalizing P with
  | nil => exact Triple.ret fun s hs => ⟨P, Same.refl, hs⟩
  | cons fd fds ih =>
    obtain ⟨hnot, hnodup⟩ := List.nodup_cons.mp hnodup
    have hrest : ∀ fd' ∈ fds, fd' < NOFILE ∧ (P np).ofile fd' = none := fun fd' hfd' =>
      hfree fd' (List.mem_cons_of_mem fd hfd')
    unfold forkFiles
    refine Triple.look fun s => ?_
    cases (s.procs p).ofile fd with
    | none => exact ih hnodup hrest
    | some f =>
      obtain ⟨hfd, hnone⟩ := hfree fd List.mem_cons_self
      refine Triple.bind filedup_spec fun _ => Triple.bind setOfile_spec fun _ => ?_
      refine Triple.pre (Triple.post (ih hnodup fun fd' hfd' => ?_) ?_) fun s hs =>
        ⟨hs.counts.store hnp hfd hnone, hs.ends, hs.procs⟩
      · refine ⟨(hrest fd' hfd').1, ?_⟩
        rw [ofile_setSlot_of_ne]
        · exact (hrest fd' hfd').2
        · rintro rfl
          exact hnot hfd'
      · rintro _ s ⟨P', hsame, hs⟩
        exact ⟨P', hsame.setSlot, hs⟩

theorem freeProc_some {np : Nat} (h : s.freeProc = some np) :
    np < NPROC ∧ (s.procs np).state = .unused := by
  have hfound := List.find?_some h
  simp only [decide_eq_true_eq] at hfound
  exact ⟨List.mem_range.mp (List.mem_of_find?_eq_some h), hfound⟩

/-- The processes with one of them replaced, where the counts do not see the difference. -/
theorem At.setProc {P' : Nat → Proc} {x : Proc} (h : At P Q [] [] s) (hQ : Function.update Q p x = P')
    (hfile : ∀ q, (P' q).ofile = (P q).ofile) (hcwd : ∀ q, (P' q).cwd = (P q).cwd) :
    At P' P' [] [] (s.setProc p x) := by
  have hcounts := h.counts.congr hfile hcwd
  refine ⟨⟨hcounts.files, hcounts.inodes, hcounts.unused, hcounts.bound⟩,
    ⟨h.ends.isOpen_iff, h.ends.once, h.ends.live⟩, ?_⟩
  rw [setProc_procs, h.procs, hQ]

/-- The new process holds what was copied to it. -/
theorem kfork_spec {memory : Bool} (hc : Caller P p) :
    Triple (At P P [] []) (kfork p memory) fun _ => Boundary := by
  unfold kfork
  refine Triple.reading fun s₀ => ?_
  cases hfree : s₀.freeProc with
  | none => exact Triple.ret fun s hs => hs.2.boundary hc.idle
  | some np =>
    refine Triple.split (fun _ => ?_) fun _ => Triple.ret fun s hs => hs.2.boundary hc.idle
    obtain ⟨hnp, hunused⟩ := freeProc_some hfree
    have hidle : ∀ s, s = s₀ ∧ At P P [] [] s →
        ((P np).cwd = none ∧ ∀ fd < NOFILE, (P np).ofile fd = none) ∧ At P P [] [] s := by
      rintro s ⟨rfl, hs⟩
      rw [hs.procs] at hunused
      refine ⟨hc.idle np ?_, hs⟩
      rw [hunused]
      exact Procstate.noConfusion
    refine Triple.pre (Triple.lift fun hnone => ?_) hidle
    refine Triple.bind (forkFiles_spec hnp List.nodup_range fun fd hfd => ?_) fun _ =>
      Triple.ex fun P' => Triple.lift fun hsame => Triple.look fun s => ?_
    · exact ⟨List.mem_range.mp hfd, hnone.2 fd (List.mem_range.mp hfd)⟩
    cases (s.procs p).cwd with
    | none => exact Triple.fail _
    | some cwd =>
      refine Triple.bind idup_spec fun _ => Triple.reading fun s₁ => ?_
      refine Triple.bind (Triple.write fun s hs => ?_) fun _ => Triple.ret fun s hs => hs
      obtain ⟨rfl, hs⟩ := hs
      have henter := hs.counts.enter hnp (hsame.cwd.trans hnone.1)
      refine At.boundary (At.setProc ⟨henter, hs.ends, hs.procs⟩ rfl (fun q => ?_) fun q => ?_) fun q hq => ?_
      · rw [ofile_setCwd]
        by_cases hqnp : q = np
        · rw [hqnp, Function.update_self, hs.procs]
        · rw [Function.update_of_ne hqnp]
      · by_cases hqnp : q = np
        · rw [hqnp, Function.update_self, cwd_setCwd]
        · rw [Function.update_of_ne hqnp, setCwd_of_ne _ hqnp]
      · by_cases hqnp : q = np
        · rw [hqnp, Function.update_self] at hq
          exact absurd rfl hq
        · rw [Function.update_of_ne hqnp, hsame.other q hqnp] at hq
          rw [Function.update_of_ne hqnp, hsame.other q hqnp]
          exact hc.idle q hq

/-- The descriptors of the list are closed, and the free ones stay free. -/
theorem exitFiles_spec {fds : List Nat} (hp : p < NPROC) (hfds : ∀ fd ∈ fds, fd < NOFILE) :
    Triple (At P P es fs) (exitFiles p fds) fun _ s => ∃ P', (Same P P' p ∧
      ∀ fd, fd ∈ fds ∨ (P p).ofile fd = none → (P' p).ofile fd = none) ∧ At P' P' es fs s := by
  induction fds generalizing P with
  | nil => exact Triple.ret fun s hs => ⟨P, ⟨Same.refl, fun fd hfd => hfd.resolve_left List.not_mem_nil⟩, hs⟩
  | cons fd fds ih =>
    have hrest : ∀ fd' ∈ fds, fd' < NOFILE := fun fd' hfd' => hfds fd' (List.mem_cons_of_mem fd hfd')
    unfold exitFiles
    refine Triple.reading fun s₀ => ?_
    cases hfile : (s₀.procs p).ofile fd with
    | none =>
      have hnone : ∀ s, s = s₀ ∧ At P P es fs s → (P p).ofile fd = none ∧ At P P es fs s := by
        rintro s ⟨rfl, hs⟩
        rw [hs.procs] at hfile
        exact ⟨hfile, hs⟩
      refine Triple.pre (Triple.lift fun hfree => (ih hrest).post ?_) hnone
      rintro _ s ⟨P', ⟨hsame, hclosed⟩, hs⟩
      refine ⟨P', ⟨hsame, fun fd' hfd' => hclosed fd' ?_⟩, hs⟩
      rcases hfd' with hfd' | hfd'
      · rcases List.mem_cons.mp hfd' with rfl | hfd'
        · exact Or.inr hfree
        · exact Or.inl hfd'
      · exact Or.inr hfd'
    | some f =>
      have hclear : ∀ s, s = s₀ ∧ At P P es fs s → At (setSlot P p fd none) P es (f :: fs) s := by
        rintro s ⟨rfl, hs⟩
        rw [hs.procs] at hfile
        exact ⟨hs.counts.clear hp (hfds fd List.mem_cons_self) hfile, hs.ends, hs.procs⟩
      refine Triple.bind (fileclose_spec.pre hclear) fun _ => Triple.bind setOfile_spec fun _ => ?_
      refine (ih hrest).post ?_
      rintro _ s ⟨P', ⟨hsame, hclosed⟩, hs⟩
      refine ⟨P', ⟨hsame.setSlot, fun fd' hfd' => hclosed fd' ?_⟩, hs⟩
      by_cases heq : fd' = fd
      · rw [heq]
        exact Or.inr (ofile_setSlot none)
      · rw [ofile_setSlot_of_ne none heq]
        rcases hfd' with hfd' | hfd'
        · exact Or.inl ((List.mem_cons.mp hfd').resolve_left heq)
        · exact Or.inr hfd'

/-- A process that ends has given everything back. -/
theorem kexit_spec (hc : Caller P p) : Triple (At P P [] []) (kexit p) fun _ => Boundary := by
  unfold kexit
  refine Triple.split (fun _ => Triple.fail _) fun _ => ?_
  refine Triple.bind (exitFiles_spec hc.lt fun fd hfd => List.mem_range.mp hfd) fun _ =>
    Triple.ex fun P' => Triple.lift fun hclosed => Triple.reading fun s₀ => ?_
  obtain ⟨hsame, hclosed⟩ := hclosed
  cases hcwd : (s₀.procs p).cwd with
  | none => exact Triple.fail _
  | some cwd =>
    have hleave : ∀ s, s = s₀ ∧ At P' P' [] [] s → At (setCwd P' p none) P' [cwd] [] s := by
      rintro s ⟨rfl, hs⟩
      rw [hs.procs] at hcwd
      exact ⟨hs.counts.leave hc.lt hcwd, hs.ends, hs.procs⟩
    refine Triple.bind (iput_spec.pre hleave) fun _ => Triple.reading fun s₁ => Triple.write fun s hs => ?_
    obtain ⟨rfl, hs⟩ := hs
    refine At.boundary (At.setProc hs rfl (fun q => ?_) fun q => ?_) fun q hq => ?_
    · rw [ofile_setCwd]
      by_cases hqp : q = p
      · rw [hqp, Function.update_self, hs.procs]
      · rw [Function.update_of_ne hqp]
    · by_cases hqp : q = p
      · rw [hqp, Function.update_self, cwd_setCwd]
      · rw [Function.update_of_ne hqp, setCwd_of_ne _ hqp]
    · by_cases hqp : q = p
      · rw [hqp, Function.update_self, hs.procs]
        exact ⟨rfl, fun fd hfd => hclosed fd (Or.inl (List.mem_range.mpr hfd))⟩
      · rw [Function.update_of_ne hqp, hsame.other q hqp] at hq
        rw [Function.update_of_ne hqp, hsame.other q hqp]
        exact hc.idle q hq

theorem freeproc_spec (hidle : Idle P) (hzombie : (P p).state = .zombie) :
    Triple (At P P [] []) (freeproc p) fun _ => Boundary := by
  unfold freeproc
  refine Triple.reading fun s₀ => Triple.write fun s hs => ?_
  obtain ⟨rfl, hs⟩ := hs
  refine At.boundary (At.setProc hs rfl (fun q => ?_) fun q => ?_) fun q hq => ?_
  · by_cases hqp : q = p
    · rw [hqp, Function.update_self, hs.procs]
    · rw [Function.update_of_ne hqp]
  · by_cases hqp : q = p
    · rw [hqp, Function.update_self, hs.procs]
    · rw [Function.update_of_ne hqp]
  · by_cases hqp : q = p
    · rw [hqp, Function.update_self, hs.procs]
      refine hidle p ?_
      rw [hzombie]
      exact Procstate.noConfusion
    · rw [Function.update_of_ne hqp] at hq
      rw [Function.update_of_ne hqp]
      exact hidle q hq

/-! ## Runs -/

/-- A call returns, or the kernel panics and nothing comes after it. -/
theorem boundary_run {α : Type} {m : Kernel α} {I : State → Prop} (h : Triple I m fun _ => Boundary) (hI : I s)
    (hs : Boundary s) : Boundary (s.run m) := by
  unfold State.run
  cases hm : m s with
  | ok r => exact h s r.1 r.2 hI hm
  | error e =>
    obtain ⟨hcounts, hends, hidle⟩ := hs
    exact ⟨⟨hcounts.files, hcounts.inodes, hcounts.unused, hcounts.bound⟩,
      ⟨hends.isOpen_iff, hends.once, hends.live⟩, hidle⟩

theorem Boundary.at (h : Boundary s) : At s.procs s.procs [] [] s := ⟨h.1, h.2.1, rfl⟩

theorem Boundary.caller (h : Boundary s) (hrun : s.runs p) : Caller s.procs p := ⟨hrun.1, hrun.2, h.2.2⟩

theorem boundary_step {a : Act} (hs : Boundary s) (h : s.step sb a = some s') : Boundary s' := by
  unfold State.step at h
  split at h
  · cases h
  -- a call of a process that runs
  have hcall : ∀ {α : Type} {q : Nat} {m : Kernel α},
      (if s.runs q then some (s.run m) else none) = some s' →
      (Caller s.procs q → Triple (At s.procs s.procs [] []) m fun _ => Boundary) → Boundary s' := by
    intro α q m h hm
    split at h
    next hrun =>
      obtain rfl := Option.some.inj h
      exact boundary_run (hm (hs.caller hrun)) hs.at hs
    next => cases h
  cases a with
  | «open» p path omode room => exact hcall h fun hc => sysOpen_spec hc
  | dup p n => exact hcall h fun hc => sysDup_spec hc
  | close p n => exact hcall h fun hc => sysClose_spec hc
  | chdir p path => exact hcall h fun hc => sysChdir_spec hc
  | link p old new room => exact hcall h fun hc => sysLink_spec.post fun _ s hs => hs.boundary hc.idle
  | unlink p path => exact hcall h fun hc => sysUnlink_spec.post fun _ s hs => hs.boundary hc.idle
  | mkdir p path room => exact hcall h fun hc => sysMkdir_spec.post fun _ s hs => hs.boundary hc.idle
  | mknod p path major minor room => exact hcall h fun hc => sysMknod_spec.post fun _ s hs => hs.boundary hc.idle
  | fork p memory => exact hcall h fun hc => kfork_spec hc
  | exit p => exact hcall h fun hc => kexit_spec hc
  | pipe p page copied =>
    simp only at h
    split at h
    next hpage =>
      obtain rfl := Option.some.inj h
      exact boundary_run (sysPipe_spec (hs.caller hpage.1)) ⟨hs.at, hpage.2⟩ hs
    next => cases h
  | reap p =>
    simp only at h
    split at h
    next hzombie =>
      obtain rfl := Option.some.inj h
      exact boundary_run (freeproc_spec hs.2.2 hzombie.2) hs.at hs
    next => cases h

theorem boundary_start (inodes : Nat → Inode) : Boundary (State.start inodes) := by
  have hfile : ∀ q, ((State.start inodes).procs q).ofile = fun _ => none := by
    intro q
    change (ite (q = 0) _ _ : Proc).ofile = _
    split <;> rfl
  have hcwd : (fun q => ((State.start inodes).procs q).cwd) = Function.update (fun _ => none) 0 (some 0) := by
    funext q
    change (ite (q = 0) _ _ : Proc).cwd = _
    by_cases hq : q = 0
    · rw [if_pos hq, hq, Function.update_self]
    · rw [if_neg hq, Function.update_of_ne hq]
  have hfree : ∀ f, ((State.start inodes).ftable f).pipeEnd = none := fun f => rfl
  refine ⟨⟨fun f => ?_, fun e => ?_, fun f _ => rfl, fun f hf => absurd rfl hf⟩,
    ⟨fun pi w => ?_, fun f g x hf => ?_, fun pi hlive => ?_⟩, fun q hq => ?_⟩
  · have hnone : fileHolders (State.start inodes).procs f = 0 := by
      refine holding_eq_zero fun q _ => ?_
      unfold slotOf
      rw [hfile]
      exact Option.some_ne_none f |>.symm
    rw [hnone]
    rfl
  · have hnone : holding (Finset.range NFILE) (fun f => ((State.start inodes).ftable f).inode) e = 0 :=
      holding_eq_zero fun f _ => (Option.some_ne_none e).symm
    have hfirst := @holding_update _ _ (fun _ => none) 0 _ (Finset.mem_range.mpr (show 0 < NPROC by decide))
      (some 0) e
    have hzero : holding (Finset.range NPROC) (fun _ => none) e = 0 :=
      holding_eq_zero fun q _ => (Option.some_ne_none e).symm
    unfold inodeHolders
    rw [hcwd, hnone]
    change (ite (e = 0) _ _ : Entry).ref = _
    by_cases he : e = 0
    · subst he
      rw [if_pos rfl]
      rw [if_neg (Option.some_ne_none 0).symm, if_pos rfl, hzero] at hfirst
      rw [List.count_nil]
      simp only
      omega
    · rw [if_neg he]
      rw [if_neg (Option.some_ne_none e).symm, if_neg fun h => he (Option.some.inj h).symm, hzero] at hfirst
      rw [List.count_nil]
      simp only
      omega
  · simp only [hfree]
    constructor
    · rintro ⟨hlive, -⟩
      cases hlive
    · rintro ⟨f, hf⟩
      cases hf
  · rw [hfree] at hf
    cases hf
  · cases hlive
  · refine ⟨?_, fun fd _ => by rw [hfile]⟩
    have hne : q ≠ 0 := by
      rintro rfl
      exact hq rfl
    exact (congrFun hcwd q).trans (Function.update_of_ne hne ..)

variable {inodes : Nat → Inode} {acts : List Act}

theorem run_boundary (h : Run (State.step sb) anyStep (State.start inodes) acts s) : Boundary s :=
  h.invariant (boundary_start inodes) fun _ _ _ hs _ hstep => boundary_step hs hstep

/-- Reference counts are conserved. After every run of system calls the count of a file is the number
of descriptors that point to it, the count of an entry of the inode table is the number of files and
current directories that do, and the page of a pipe is in use exactly as long as a file for one of
its ends is referenced. -/
theorem reference_counts_are_conserved (h : Run (State.step sb) anyStep (State.start inodes) acts s) :
    (∀ f, (s.ftable f).ref = fileHolders s.procs f) ∧
      (∀ e, (s.itable e).ref = inodeHolders s.ftable s.procs e) ∧
      ∀ pi, (s.pipes pi).live = true ↔ ∃ f w, 0 < (s.ftable f).ref ∧ (s.ftable f).pipeEnd = some (pi, w) := by
  obtain ⟨hcounts, hends, -⟩ := run_boundary h
  refine ⟨fun f => ?_, fun e => ?_, fun pi => ?_⟩
  · have hcount := hcounts.files f
    rw [List.count_nil] at hcount
    omega
  · have hcount := hcounts.inodes e
    rw [List.count_nil] at hcount
    omega
  constructor
  · intro hlive
    obtain ⟨w, hw⟩ : ∃ w, (s.pipes pi).isOpen w := (hends.live pi hlive).elim (fun hw => ⟨true, hw⟩) fun hw => ⟨false, hw⟩
    obtain ⟨f, hf⟩ := (hends.isOpen_iff pi w).mp hw
    refine ⟨f, w, ?_, hf⟩
    -- a file without references stands for nothing
    have hne : (s.ftable f).ref ≠ 0 := by
      intro hzero
      rw [File.pipeEnd_of_none (hcounts.unused f hzero)] at hf
      cases hf
    have hcount := hcounts.files f
    omega
  · rintro ⟨f, w, -, hf⟩
    exact ((hends.isOpen_iff pi w).mpr ⟨f, hf⟩).1

/-- A disk with nothing but the root directory. -/
def bareDisk (i : Nat) : Inode :=
  if i = ROOTINO then ⟨T_DIR, 0, 0, 1, [⟨ROOTINO, [46]⟩, ⟨ROOTINO, [46, 46]⟩]⟩ else ⟨0, 0, 0, 0, []⟩

/-- A pipe between a process and its child, which goes to another directory and ends. -/
theorem a_pipe_is_shared : ∃ s : State,
    Run (State.step ⟨200, by decide, by decide⟩) anyStep (State.start bareDisk)
      [.pipe 0 (some 5) true, .fork 0 true, .close 0 1, .mkdir 1 (some [47, 97]) ⟨true, true, true⟩,
        .chdir 1 (some [97]), .exit 1] s ∧
    (((∀ f, (s.ftable f).ref = fileHolders s.procs f) ∧
      (∀ e, (s.itable e).ref = inodeHolders s.ftable s.procs e) ∧
      ∀ pi, (s.pipes pi).live = true ↔ ∃ f w, 0 < (s.ftable f).ref ∧ (s.ftable f).pipeEnd = some (pi, w)) ∧
    (s.pipes 5).isOpen false ∧ ¬ (s.pipes 5).isOpen true) := by
  have hcomputed : (exec (State.step ⟨200, by decide, by decide⟩) anyStep (State.start bareDisk)
      [.pipe 0 (some 5) true, .fork 0 true, .close 0 1, .mkdir 1 (some [47, 97]) ⟨true, true, true⟩,
        .chdir 1 (some [97]), .exit 1]).any
      (fun s => (s.pipes 5).live ∧ (s.pipes 5).readopen ∧ ¬ (s.pipes 5).writeopen) = true := by
    decide +kernel
  obtain ⟨s, hs, hend⟩ := (Option.any_eq_true _ _).mp hcomputed
  obtain ⟨hlive, hread, hwrite⟩ := of_decide_eq_true hend
  have hrun := run_of_exec hs
  exact ⟨s, hrun, reference_counts_are_conserved hrun, ⟨hlive, hread⟩, fun hopen => hwrite hopen.2⟩

end xv6.sysfile
