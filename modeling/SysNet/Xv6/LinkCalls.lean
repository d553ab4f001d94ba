-- The calls that make and remove names, `sys_link`, `sys_unlink` and `create`,
-- with their error paths. They leave the links exact, unless `sys_link` or
-- `create` makes an entry in a directory that was removed, or a count wraps.
import SysNet.Xv6.LinkTable

open triples

namespace xv6.sysfile

variable {s : State} {I J : Nat → Inode} {O : Nat → Entry} {P : Nat → Proc} {L : List Var} {y : Inode}
  {n d e i k p c : Nat} {b : Bool} {name : Name} {X : Option Nat}

/-! ## Counts -/

theorem short_eq {m : Int} (h : -32768 ≤ m ∧ m ≤ 32767) : short m = m := by
  unfold short
  omega

/-- A count goes up and down again, even when it wraps. -/
theorem short_back {m : Int} (h : 0 ≤ m ∧ m ≤ 32767) : short (short (m + 1) - 1) = m := by
  unfold short
  omega

theorem short_succ_ne {m : Int} (h : 0 ≤ m ∧ m ≤ 32767) : short (m + 1) ≠ 0 := by
  unfold short
  omega

theorem WellLinked.nlink_range (h : WellLinked n I) (hi : (I i).type ≠ 0) : 0 ≤ (I i).nlink ∧ (I i).nlink ≤ 32767 := by
  have hlinks := h.links i hi
  exact ⟨by omega, h.small i hi⟩

/-- A directory has links unless it has none at all. -/
theorem WellLinked.live (h : WellLinked n I) (hd : (I d).type = T_DIR) (hne : (I d).nlink ≠ 0) : (I d).Live := by
  have hrange := h.nlink_range (i := d) (by rw [hd]; decide)
  exact ⟨hd, by omega⟩

/-! ## References -/

/-- The links are exact, and so is the inode table. -/
def Linked (n : Nat) (O : Nat → Entry) (P : Nat → Proc) (L : List Var) (s : State) : Prop :=
  ∃ I, (WellLinked n I ∧ Outer I O none) ∧ Table I O P L s

theorem WellLinked.linked (h : WellLinked n I) (ho : Outer I O none) (hs : Table I O P L s) : Linked n O P L s :=
  ⟨I, ⟨h, ho⟩, hs⟩

theorem Outer.weaken (ho : Outer I O none) : Outer I O X :=
  ⟨ho.nonneg, ho.used, fun i _ => ho.kept i fun hX => nomatch hX⟩

theorem WellLinked.released (h : WellLinked n I) (hJ : Released I J i) : WellLinked n J := by
  obtain rfl | ⟨htype, hnlink, rfl⟩ := hJ.eq_or
  · exact h
  · have hnames : names n I i = 0 := by
      have hlinks := h.links i htype
      omega
    refine h.change (Function.update_self ..) (fun e he => Function.update_of_ne he ..)
      (Nat.ne_of_gt (h.range i htype).1) (fun hl => ?_) (fun hl => ?_) (fun _ => hnames)
      (fun hne => absurd rfl hne) (fun hdir => nomatch hdir)
    · have := hl.2
      omega
    · exact live_type hl rfl

/-- The last reference to an inode may go. -/
theorem iput_linked (h : WellLinked n I) (ho : Outer I O (some i)) (hL : ∀ v ∈ L, v.i ≠ i) :
    Triple (Table I O P (⟨e, i, b⟩ :: L)) (iput e) fun _ => Linked n O P L := by
  refine (iput_last ho hL).post ?_
  rintro _ s ⟨J, ⟨hJ, hoJ⟩, hs⟩
  exact (h.released hJ).linked hoJ hs

/-- A reference that is not the last one is given back at the end. -/
theorem iput_ret {α : Type} {r : α} {v : Var} (h : WellLinked n I) (ho : Outer I O none) :
    Triple (Table I O P [v]) (do iput v.e; pure r : Kernel α) fun _ => Linked n O P [] :=
  Triple.bind (iput_table ho) fun _ => Triple.ret fun _ hs => h.linked ho hs

/-! ## `sys_link` -/

theorem walk_congr {parent : Bool} {path : List Name}
    (h : ∀ j, (J j).type = (I j).type ∧ (J j).entries = (I j).entries) :
    walk J parent i path = walk I parent i path := by
  induction path generalizing i with
  | nil => rfl
  | cons name path ih =>
    obtain ⟨htype, hentries⟩ := h i
    unfold walk Inode.slot Inode.inumAt
    rw [htype, hentries]
    simp only [ih]

theorem find_congr {path : List UInt8} {parent : Bool}
    (h : ∀ j, (J j).type = (I j).type ∧ (J j).entries = (I j).entries) :
    find J c path parent = find I c path parent :=
  walk_congr h

/-- The inode with one more link. -/
def raised (I : Nat → Inode) (i : Nat) : Nat → Inode :=
  Function.update I i { I i with nlink := short ((I i).nlink + 1) }

theorem raised_self : raised I i i = { I i with nlink := short ((I i).nlink + 1) } := Function.update_self ..

theorem raised_same (j : Nat) : (raised I i j).type = (I j).type ∧ (raised I i j).entries = (I j).entries := by
  unfold raised
  by_cases hj : j = i
  · rw [hj, Function.update_self]
    exact ⟨rfl, rfl⟩
  · rw [Function.update_of_ne hj]
    exact ⟨rfl, rfl⟩

/-- The count is put back. -/
theorem linkBad_linked (h : WellLinked n I) (ho : Outer I O none) (hi : (I i).type ≠ 0) :
    Triple (Table (raised I i) O P [⟨e, i, b⟩]) (linkBad e) fun _ => Linked n O P [] := by
  have hrange := h.nlink_range hi
  have ho' : Outer (raised I i) O none :=
    ho.update hi fun hzero => absurd hzero (short_succ_ne hrange)
  unfold linkBad
  refine Triple.bind ilock_table fun _ => read_table ho' fun s hs => ?_
  have hback : { s.inode e with nlink := short ((s.inode e).nlink - 1) } = I i := by
    rw [hs.head]
    simp only [raised_self]
    rw [short_back hrange]
  rw [hback]
  have hI : Function.update (raised I i) i (I i) = I := by
    unfold raised
    rw [Function.update_idem, Function.update_eq_self]
  refine Triple.bind (setInodeOf_table ho' List.mem_cons_self hi) fun _ => ?_
  rw [hI]
  exact Triple.bind (iput_linked h ho.weaken fun v hv => nomatch hv) fun _ => Triple.ret fun s hs => hs

/-- The directory has no such name yet, and has room for it. -/
def Inode.takes (d : Inode) (name : Name) (i : Nat) (room : Bool) : Prop :=
  d.slot name = none ∧ (d.link ⟨i, name⟩ room).isSome = true

instance (d : Inode) (name : Name) (i : Nat) (room : Bool) : Decidable (d.takes name i room) :=
  inferInstanceAs (Decidable (_ ∧ _))

/-- When `sys_link` makes an entry, the directory for it has links, and the count of the inode can
go up. -/
def LinkOk (I : Nat → Inode) (c : Nat) (old new : List UInt8) (room : Bool) : Prop :=
  ∀ a ∈ find I c old false, ∀ b ∈ find I c new true, (I a.1).type ≠ T_DIR → (I b.1).takes b.2 a.1 room →
    (I b.1).nlink ≠ 0 ∧ (I a.1).nlink ≠ 32767

instance (I : Nat → Inode) (c : Nat) (old new : List UInt8) (room : Bool) :
    Decidable (LinkOk I c old new room) :=
  inferInstanceAs (Decidable (∀ a ∈ find I c old false, ∀ b ∈ find I c new true, _))

/-- Where the entry was made, the links are exact again. -/
theorem WellLinked.linkTo {room : Bool} (h : WellLinked n I) (hi : (I i).type ≠ 0) (hfile : (I i).type ≠ T_DIR)
    (hmax : (I i).nlink ≠ 32767) (hd : (I d).Live) (hslot : (I d).slot name = none)
    (hlink : (I d).link ⟨i, name⟩ room = some y) :
    WellLinked n (Function.update (raised I i) d y) := by
  have hne : d ≠ i := by
    rintro rfl
    exact hfile hd.1
  have hrange := h.nlink_range hi
  have hshort : short ((I i).nlink + 1) = (I i).nlink + 1 := short_eq (by omega)
  have hlinks := h.links i hi
  obtain ⟨hup, hdots, htype, hnlink, htally⟩ := (h.dots d hd).link (h.live_ne_zero hd) hlink
    ((h.dots d hd).plain_of_none (h.live_ne_zero hd) hslot)
  have hJ : Changed I (Function.update (raised I i) d y) d i y
      { I i with nlink := (I i).nlink + 1 } := by
    refine ⟨hne, Function.update_self .., ?_, fun e hed hei => ?_⟩
    · rw [Function.update_of_ne hne.symm, raised_self, hshort]
    · rw [Function.update_of_ne hed]
      exact Function.update_of_ne hei ..
  refine h.relink hJ hd (h.range i hi) hfile hfile hi (by simp only; omega)
    ⟨htype.trans hd.1, hup, hdots⟩ hnlink (fun j hj hji => ?_) ?_
  · rw [htally j hj, if_neg hji, Nat.add_zero]
  · rw [htally i (Nat.ne_of_gt (h.range i hi).1), if_pos rfl]
    simp only
    omega

theorem sysLink_linked {sb : Superblock} {old new : List UInt8} {room : Bool} (h : WellLinked sb.ninodes I)
    (ho : Outer I O none) (hc : Cwd O P p c) (hok : LinkOk I c old new room) :
    Triple (Table I O P []) (sysLink p (some old) (some new) room) fun _ => Linked sb.ninodes O P [] := by
  unfold sysLink
  refine Triple.bind (namex_table ho hc) fun r => ?_
  rcases r with _ | ⟨ip, x⟩
  · exact Triple.ret fun s hs => h.linked ho hs
  refine Triple.ex fun i => Triple.lift fun hold => ?_
  refine Triple.bind ilock_table fun _ => read_table ho fun s₀ hs₀ => ?_
  have hi := hs₀.head_used
  rw [hs₀.head]
  refine Triple.split (fun hdir => ?_) fun hfile => ?_
  · exact iput_ret (v := ⟨ip, i, true⟩) h ho
  have hrange := h.nlink_range hi
  have ho' : Outer (raised I i) O none :=
    ho.update hi fun hzero => absurd hzero (short_succ_ne hrange)
  have hraise : Triple (Table I O P [⟨ip, i, true⟩])
      (setInodeOf ip { I i with nlink := short ((I i).nlink + 1) }) fun _ =>
        Table (raised I i) O P [⟨ip, i, true⟩] := setInodeOf_table ho List.mem_cons_self hi
  refine Triple.bind hraise fun _ => Triple.bind (namex_table ho' hc) fun r => ?_
  rcases r with _ | ⟨dp, name⟩
  · exact linkBad_linked h ho hi
  refine Triple.ex fun d => Triple.lift fun hnew => ?_
  refine Triple.bind ilock_table fun _ => read_table ho' fun s₁ hs₁ => ?_
  rw [find_congr raised_same] at hnew
  rw [hs₁.tail.head_inum]
  refine Triple.bind (dirlink_table ho' List.mem_cons_self) fun r => ?_
  cases r with
  | false => exact Triple.bind (iput_table (v := ⟨dp, d, true⟩) ho') fun _ => linkBad_linked h ho hi
  | true =>
    refine Triple.ex fun y => Triple.lift fun hmade => ?_
    obtain ⟨hslot, hdir, hlink⟩ := hmade
    have hsame : raised I i d = I d := by
      refine Function.update_of_ne ?_ ..
      rintro rfl
      rw [raised_self] at hdir
      exact hfile hdir
    rw [hsame] at hslot hdir hlink
    rw [Nat.mod_eq_of_lt (Nat.lt_of_lt_of_le (h.range i hi).2 sb.ninodes_le)] at hlink
    obtain ⟨hne, hmax⟩ := hok _ hold _ hnew hfile ⟨hslot, by rw [hlink]; rfl⟩
    have hJ := h.linkTo hi hfile hmax (h.live hdir hne) hslot hlink
    have hy : y.type ≠ 0 := by
      rw [(link_same hlink).1, hdir]
      decide
    have hoJ : Outer (Function.update (raised I i) d y) O none := by
      refine ho'.update hy fun hzero => absurd hzero ?_
      rw [(link_same hlink).2]
      exact hne
    exact Triple.bind (iput_table (v := ⟨dp, d, true⟩) hoJ) fun _ => iput_ret (v := ⟨ip, i, true⟩) hJ hoJ

/-! ## `sys_unlink` -/

/-- The directory without an entry. A directory that is removed takes a link with it. -/
def Inode.without (d : Inode) (k : Nat) (dir : Bool) : Inode :=
  { d with entries := d.entries.set k ⟨0, []⟩, nlink := if dir then d.nlink - 1 else d.nlink }

/-- Where the entry was cleared, the links are exact again. -/
theorem WellLinked.unlinkFrom {dir : Bool} (h : WellLinked n I) (hd : (I d).type = T_DIR)
    (hslot : (I d).slot name = some k) (hname : name ≠ [46] ∧ name ≠ [46, 46]) (hi : (I d).inumAt k = i)
    (hdir : dir = true ↔ (I i).type = T_DIR)
    (hempty : dir = true → (I i).isdirempty = true) :
    ((I d).without k dir).nlink ≠ 0 ∧
      WellLinked n (Function.update (Function.update I d ((I d).without k dir)) i
        { I i with nlink := (I i).nlink - 1 }) := by
  obtain ⟨hlive, hi0, htally⟩ := h.found hd hslot hname
  rw [hi] at hi0 htally
  have hne := h.ne_of_tally hlive htally
  have hpos := h.nlink_pos hlive hi0 htally
  have htype := h.known d i hlive hi0 htally
  obtain ⟨hup, hdots, hcount⟩ := (h.dots d hlive).clear (y := (I d).without k dir) hslot hname rfl
  rw [hi] at hcount
  have hstays : ((I d).without k dir).Stays (I d) d := ⟨hd, hup, hdots⟩
  have hJ : Changed I (Function.update (Function.update I d ((I d).without k dir)) i
      { I i with nlink := (I i).nlink - 1 }) d i ((I d).without k dir)
      { I i with nlink := (I i).nlink - 1 } := by
    refine ⟨hne, ?_, Function.update_self .., fun e hed hei => ?_⟩
    · rw [Function.update_of_ne hne, Function.update_self]
    · rw [Function.update_of_ne hei, Function.update_of_ne hed]
  cases dir with
  | true =>
    have hc : (I i).Live := ⟨hdir.mp rfl, hpos⟩
    obtain ⟨hroot, hbelow⟩ := h.below hlive hc htally
    have hnone : ∀ j, j ≠ 0 → (I i).tally j = 0 := fun j hj => tally_of_isdirempty (hempty rfl) hj
    have htwo := h.two_le_nlink hlive hc hroot hbelow hnone
    have hnlink : ((I d).without k true).nlink = (I d).nlink - 1 := rfl
    exact ⟨by omega, h.rmdir hJ hlive hc hroot hbelow hnone rfl hstays rfl hcount⟩
  | false =>
    have hfile : (I i).type ≠ T_DIR := fun hd => nomatch hdir.mpr hd
    have hnlink : ((I d).without k false).nlink = (I d).nlink := rfl
    have hdpos := hlive.2
    have hlinks := h.links i htype
    have hself := hcount i hi0
    have hsmall := h.small i htype
    rw [if_pos rfl] at hself
    refine ⟨by omega,
      h.relink hJ hlive (h.range i htype) hfile hfile htype ?_ hstays rfl (fun j hj hji => ?_) ?_⟩
    · simp only
      omega
    · rw [← hcount j hj, if_neg hji, Nat.add_zero]
    · simp only
      omega

theorem unlinkFound_linked {dp ip : Nat} (h : WellLinked n I) (ho : Outer I O none) (hd : (I d).type = T_DIR)
    (hslot : (I d).slot name = some k) (hname : name ≠ [46] ∧ name ≠ [46, 46]) (hi : (I d).inumAt k = i) :
    Triple (Table I O P [⟨ip, i, false⟩, ⟨dp, d, true⟩]) (unlinkFound dp ip k) fun _ =>
      Linked n O P [] := by
  obtain ⟨hlive, hi0, htally⟩ := h.found hd hslot hname
  rw [hi] at hi0 htally
  have hne := h.ne_of_tally hlive htally
  have hpos := h.nlink_pos hlive hi0 htally
  have htype := h.known d i hlive hi0 htally
  have hrange := h.nlink_range htype
  have hranged := h.nlink_range (live_type hlive)
  have hdpos := hlive.2
  unfold unlinkFound
  refine Triple.bind ilock_table fun _ => read_table ho fun s hs => ?_
  rw [hs.head, hs.tail.head]
  refine Triple.split (fun _ => Triple.fail _) fun _ => Triple.split (fun _ => ?_) fun hempty => ?_
  · exact Triple.bind (iput_table (v := ⟨ip, i, true⟩) ho) fun _ => iput_ret (v := ⟨dp, d, true⟩) h ho
  generalize hdir : decide ((I i).type = T_DIR) = dir
  have hiff : dir = true ↔ (I i).type = T_DIR := by rw [← hdir, decide_eq_true_iff]
  obtain ⟨hnlink, hJ⟩ := h.unlinkFrom hd hslot hname hi hiff fun hdir => by
    by_contra hfull
    exact hempty ⟨hiff.mp hdir, Bool.eq_false_iff.mpr hfull⟩
  have hx : ∀ b, ((I d).without k b).type ≠ 0 := fun _ => show (I d).type ≠ 0 from live_type hlive
  have ho₁ : Outer (Function.update I d ((I d).without k false)) O none := by
    refine ho.update (hx false) fun hzero => ?_
    change (I d).nlink = 0 at hzero
    omega
  have ho₂ : Outer (Function.update I d ((I d).without k dir)) O none :=
    ho.update (hx dir) fun hzero => absurd hzero hnlink
  have hmem : (⟨dp, d, true⟩ : Var) ∈ [⟨ip, i, true⟩, ⟨dp, d, true⟩] :=
    List.mem_cons_of_mem _ List.mem_cons_self
  have hclear : Triple (Table I O P [⟨ip, i, true⟩, ⟨dp, d, true⟩])
      (setInodeOf dp { I d with entries := (I d).entries.set k ⟨0, []⟩ }) fun _ =>
        Table (Function.update I d ((I d).without k false)) O P [⟨ip, i, true⟩, ⟨dp, d, true⟩] :=
    setInodeOf_table ho hmem (hx false)
  refine Triple.bind hclear fun _ => read_table ho₁ fun s hs => ?_
  rw [hs.head, hs.tail.head, Function.update_self, Function.update_of_ne hne.symm]
  -- a directory takes a link of the one above with it
  have hlost : (I i).type = T_DIR → Triple (Table (Function.update I d ((I d).without k false)) O P
        [⟨ip, i, true⟩, ⟨dp, d, true⟩])
      (setInodeOf dp { (I d).without k false with nlink := short (((I d).without k false).nlink - 1) }) fun _ =>
        Table (Function.update I d ((I d).without k dir)) O P [⟨ip, i, true⟩, ⟨dp, d, true⟩] := by
    intro htype
    have hlost : { (I d).without k false with nlink := short (((I d).without k false).nlink - 1) } =
        (I d).without k dir := by
      rw [hiff.mpr htype]
      unfold Inode.without
      simp only [Bool.false_eq_true, if_false, if_true, Inode.mk.injEq, true_and, and_true]
      exact short_eq (by omega)
    rw [hlost]
    refine (setInodeOf_table ho₁ hmem (hx dir)).post fun _ s hs => ?_
    rwa [Function.update_idem] at hs
  refine Triple.first hlost (fun hfile s hs => ?_) ?_
  · rwa [Bool.eq_false_iff.mpr fun hdir => hfile (hiff.mp hdir)]
  refine Triple.bind ((iput_table (v := ⟨dp, d, true⟩) ho₂).pre fun s hs => hs.swap) fun _ =>
    read_table ho₂ fun s hs => ?_
  have hless : short ((I i).nlink - 1) = (I i).nlink - 1 := short_eq (by omega)
  rw [hs.head, Function.update_of_ne hne.symm, hless]
  have hlast : Outer (Function.update (Function.update I d ((I d).without k dir)) i
      { I i with nlink := (I i).nlink - 1 }) O (some i) := ho₂.update htype fun _ => Or.inl rfl
  exact Triple.bind (setInodeOf_table ho₂ List.mem_cons_self htype) fun _ =>
    Triple.bind (iput_linked hJ hlast fun v hv => nomatch hv) fun _ => Triple.ret fun s hs => hs

theorem sysUnlink_linked {path : Option (List UInt8)} (h : WellLinked n I) (ho : Outer I O none)
    (hc : Cwd O P p c) :
    Triple (Table I O P []) (sysUnlink p path) fun _ => Linked n O P [] := by
  unfold sysUnlink
  cases path with
  | none => exact Triple.ret fun s hs => h.linked ho hs
  | some path =>
    refine Triple.bind (namex_table ho hc) fun r => ?_
    rcases r with _ | ⟨dp, name⟩
    · exact Triple.ret fun s hs => h.linked ho hs
    refine Triple.ex fun d => Triple.lift fun _ => Triple.bind ilock_table fun _ => ?_
    refine Triple.split (fun _ => ?_) fun hname => ?_
    · exact iput_ret (v := ⟨dp, d, true⟩) h ho
    refine Triple.bind (dirlookup_table ho List.mem_cons_self) fun r => Triple.lift fun hd => ?_
    rcases r with _ | ⟨ip, k⟩
    · exact Triple.lift fun _ => iput_ret (v := ⟨dp, d, true⟩) h ho
    · exact Triple.lift fun hslot => unlinkFound_linked h ho hd hslot (not_or.mp hname) rfl

/-! ## `create` -/

/-- When `create` makes an entry, the directory for it has links, and its count can go up when the
entry is for a directory. -/
def CreateOk (n : Nat) (I : Nat → Inode) (c : Nat) (path : List UInt8) (type : Nat) (room : Room) : Prop :=
  ∀ b ∈ find I c path true, (∃ i < n, 0 < i ∧ (I i).type = 0 ∧ (I b.1).takes b.2 i room.name) →
    (type = T_DIR → room.dot = true ∧ room.dotdot = true) →
    (I b.1).nlink ≠ 0 ∧ (type = T_DIR → (I b.1).nlink ≠ 32767)

instance (n : Nat) (I : Nat → Inode) (c : Nat) (path : List UInt8) (type : Nat) (room : Room) :
    Decidable (CreateOk n I c path type room) :=
  inferInstanceAs (Decidable (∀ b ∈ find I c path true, _))

/-- The directory of a new inode. It has one more link when the inode is a directory. -/
def Inode.holding (d : Inode) (dir : Bool) : Inode := { d with nlink := if dir then d.nlink + 1 else d.nlink }

/-- Where the entry for a new inode was made, the links are exact again. -/
theorem WellLinked.createIn {z : Inode} {dir room : Bool} (h : WellLinked n I) (hi : 0 < i ∧ i < n)
    (hfree : (I i).type = 0) (hd : (I d).Live) (hslot : (I d).slot name = none)
    (hlink : (I d).link ⟨i, name⟩ room = some y) (htype : z.type ≠ 0) (hone : z.nlink = 1) (hdir : dir = true ↔ z.type = T_DIR)
    (hdots : dir = true → z.entries = [⟨i, [46]⟩, ⟨d, [46, 46]⟩]) (hmax : dir = true → (I d).nlink ≠ 32767) :
    WellLinked n (Function.update (Function.update I i z) d (y.holding dir)) := by
  have hi0 : i ≠ 0 := Nat.ne_of_gt hi.1
  have hne : d ≠ i := by
    rintro rfl
    exact live_type hd hfree
  obtain ⟨hup, hydots, hytype, hnlink, htally⟩ := (h.dots d hd).link (h.live_ne_zero hd) hlink
    ((h.dots d hd).plain_of_none (h.live_ne_zero hd) hslot)
  have hstays : (y.holding dir).Stays (I d) d :=
    ⟨hytype.trans hd.1, hup, hydots.entries, hydots.up, hydots.plain⟩
  have hJ : Changed I (Function.update (Function.update I i z) d (y.holding dir)) d i (y.holding dir) z := by
    refine ⟨hne, Function.update_self .., ?_, fun e hed hei => ?_⟩
    · rw [Function.update_of_ne hne.symm, Function.update_self]
    · rw [Function.update_of_ne hed, Function.update_of_ne hei]
  cases dir with
  | true =>
    obtain ⟨hzdots, hzup, hzempty⟩ := dots_of_entries (h.live_ne_zero hd) (hdots rfl)
    have hcount : (y.holding true).nlink = (I d).nlink + 1 := congrArg (· + 1) hnlink
    have hsmall := h.small d (live_type hd)
    have hfull := hmax rfl
    exact h.mkdir hJ hd hi hfree (hdir.mp rfl) hone hzdots hzup (fun j _ => hzempty j) hstays hcount (by omega)
      htally
  | false =>
    have hfile : z.type ≠ T_DIR := fun hz => nomatch hdir.mpr hz
    have hold : (I i).type ≠ T_DIR := by
      rw [hfree]
      decide
    have hnone : (I d).tally i = 0 := by
      by_contra hsome
      exact h.known d i hd hi0 (Nat.pos_of_ne_zero hsome) hfree
    have htally' : ∀ j, j ≠ 0 → (y.holding false).tally j = (I d).tally j + if j = i then 1 else 0 := htally
    refine h.relink hJ hd hi hold hfile htype (by omega) hstays hnlink (fun j hj hji => ?_) ?_
    · rw [htally' j hj, if_neg hji, Nat.add_zero]
    · rw [htally' i hi0, if_pos rfl, hone, h.names_of_free hi0 hfree, hnone]
      rfl

/-- The result of `create`. -/
def Created (n : Nat) (O : Nat → Entry) (P : Nat → Proc) (r : Option Nat) (s : State) : Prop :=
  match r with
  | none => Linked n O P [] s
  | some e => ∃ i, Linked n O P [⟨e, i, true⟩] s

theorem iput_none {v : Var} (h : WellLinked n I) (ho : Outer I O none) :
    Triple (Table I O P [v]) (do iput v.e; pure none) (Created n O P) :=
  Triple.bind (iput_table ho) fun _ => Triple.ret fun _ hs => h.linked ho hs

/-- The new inode is freed. -/
theorem createFail_linked {dp ip : Nat} {z : Inode} (h : WellLinked n I) (ho : Outer I O none) (hi0 : i ≠ 0)
    (hfree : (I i).type = 0) (hne : d ≠ i) (htype : z.type ≠ 0) (hone : z.nlink = 1) :
    Triple (Table (Function.update I i z) O P [⟨ip, i, true⟩, ⟨dp, d, true⟩]) (createFail dp ip)
      (Created n O P) := by
  have hoz : Outer (Function.update I i z) O none := ho.update htype fun hzero => by omega
  have hlast : Outer (Function.update I i { z with nlink := 0 }) O (some i) :=
    ho.update htype fun _ => Or.inl rfl
  unfold createFail
  refine read_table hoz fun s hs => ?_
  rw [hs.head, Function.update_self]
  have hzero : Triple (Table (Function.update I i z) O P [⟨ip, i, true⟩, ⟨dp, d, true⟩])
      (setInodeOf ip { z with nlink := 0 }) fun _ =>
        Table (Function.update I i { z with nlink := 0 }) O P [⟨ip, i, true⟩, ⟨dp, d, true⟩] := by
    refine (setInodeOf_table (y := { z with nlink := 0 }) hoz List.mem_cons_self htype).post fun _ s hs => ?_
    rwa [Function.update_idem] at hs
  refine Triple.bind hzero fun _ => Triple.bind (iput_last hlast fun v hv => ?_) fun _ => Triple.ex fun J =>
    Triple.lift fun hJ => ?_
  · rw [List.mem_singleton.mp hv]
    exact hne
  obtain ⟨hreleased, hoJ⟩ := hJ
  have hwell : WellLinked n J := by
    obtain rfl | ⟨-, -, rfl⟩ := hreleased.eq_or
    -- nothing outside points to the new inode, so it is freed
    · have htype' : (Function.update I i { z with nlink := 0 } i).type ≠ 0 := by
        rw [Function.update_self]
        exact htype
      obtain ⟨e, hpos, hinum⟩ := hoJ.kept i (fun hX => nomatch hX) htype' (by rw [Function.update_self])
      exact absurd (hinum ▸ hfree) (ho.used e hpos)
    · refine h.change (i := i) (Function.update_self ..) (fun e he => ?_) hi0 (fun hl => live_type hl hfree)
        (fun hl => live_type hl rfl) (fun _ => h.names_of_free hi0 hfree) (fun hne => absurd rfl hne)
        fun hdir => nomatch hdir
      rw [Function.update_of_ne he, Function.update_of_ne he]
  exact iput_none (v := ⟨dp, d, true⟩) hwell hoJ

/-- The new inode has a link, and its first two entries when it is a directory and there was room. -/
def Dotted (I : Nat → Inode) (O : Nat → Entry) (P : Nat → Proc) (L : List Var) (d i type : Nat) (room : Room)
    (dots : Bool) (s : State) : Prop :=
  ∃ z, (z.type = type ∧ z.nlink = 1 ∧ (dots = true → type = T_DIR → (room.dot = true ∧ room.dotdot = true) ∧
      z.entries = [⟨i, [46]⟩, ⟨d, [46, 46]⟩])) ∧
    Table (Function.update I i z) O P L s

theorem createDots_table {dp ip type : Nat} {room : Room} {z : Inode} (ho : Outer I O none)
    (hi : 0 < i ∧ i < 65536) (hd : d < 65536) (hne : type ≠ 0) (htype : z.type = type) (hone : z.nlink = 1)
    (hempty : z.entries = []) :
    Triple (Table (Function.update I i z) O P [⟨ip, i, true⟩, ⟨dp, d, true⟩]) (createDots dp ip room)
      (Dotted I O P [⟨ip, i, true⟩, ⟨dp, d, true⟩] d i type room) := by
  have hoz : ∀ w : Inode, w.type = type → w.nlink = 1 → Outer (Function.update I i w) O none :=
    fun w hw hw1 => ho.update (hw ▸ hne) fun hzero => by omega
  unfold createDots
  refine read_table (hoz z htype hone) fun s hs => ?_
  rw [hs.head_inum, hs.tail.head_inum]
  refine Triple.bind (dirlink_table (hoz z htype hone) List.mem_cons_self) fun dot => ?_
  cases dot with
  | false => exact Triple.ret fun s hs => ⟨z, ⟨htype, hone, fun hr => nomatch hr⟩, hs⟩
  | true =>
    refine Triple.ex fun z₁ => Triple.lift fun hmade => ?_
    obtain ⟨-, -, hlink⟩ := hmade
    rw [Function.update_self, Nat.mod_eq_of_lt hi.2] at hlink
    obtain ⟨hdot, hentries⟩ := link_append (by rw [hempty]; exact fun de hde => nomatch hde) hlink
    obtain ⟨hsame, hnlink⟩ := link_same hlink
    rw [hempty, List.nil_append] at hentries
    rw [Function.update_idem, if_pos rfl]
    have hoz₁ := hoz z₁ (hsame.trans htype) (hnlink.trans hone)
    refine (dirlink_table hoz₁ List.mem_cons_self).post fun r s hs => ?_
    cases r with
    | false => exact ⟨z₁, ⟨hsame.trans htype, hnlink.trans hone, fun hr => nomatch hr⟩, hs⟩
    | true =>
      obtain ⟨z₂, ⟨-, -, hlink₂⟩, hs⟩ := hs
      rw [Function.update_self, Nat.mod_eq_of_lt hd] at hlink₂
      obtain ⟨hdotdot, hentries₂⟩ := link_append (fun de hde => by
        rw [hentries] at hde
        rw [List.mem_singleton.mp hde]
        exact Nat.ne_of_gt hi.1) hlink₂
      obtain ⟨hsame₂, hnlink₂⟩ := link_same hlink₂
      rw [hentries] at hentries₂
      rw [Function.update_idem] at hs
      exact ⟨z₂, ⟨hsame₂.trans (hsame.trans htype), hnlink₂.trans (hnlink.trans hone),
        fun _ _ => ⟨⟨hdot, hdotdot⟩, hentries₂⟩⟩, hs⟩

theorem createNew_linked {sb : Superblock} {dp ip type : Nat} {major minor : Int} {room : Room}
    (h : WellLinked sb.ninodes I) (ho : Outer I O none) (hi : 0 < i ∧ i < sb.ninodes) (hfree : (I i).type = 0)
    (hd : (I d).type = T_DIR) (hslot : (I d).slot name = none) (htype : type ≠ 0)
    (hok : (I d).takes name i room.name → (type = T_DIR → room.dot = true ∧ room.dotdot = true) →
      (I d).nlink ≠ 0 ∧ (type = T_DIR → (I d).nlink ≠ 32767)) :
    Triple (Fresh I O P [⟨dp, d, true⟩] ip i type false) (createNew dp ip name type major minor room)
      (Created sb.ninodes O P) := by
  have hi0 : i ≠ 0 := Nat.ne_of_gt hi.1
  have hne : d ≠ i := by
    rintro rfl
    rw [hfree] at hd
    cases hd
  have hd0 : (I d).type ≠ 0 := by
    rw [hd]
    decide
  have hlt : ∀ j < sb.ninodes, j < 65536 := fun j hj => Nat.lt_of_lt_of_le hj sb.ninodes_le
  have hmem : (⟨dp, d, true⟩ : Var) ∈ [⟨ip, i, true⟩, ⟨dp, d, true⟩] :=
    List.mem_cons_of_mem _ List.mem_cons_self
  unfold createNew
  refine Triple.bind ilock_fresh fun _ => read_fresh fun s hs => ?_
  rw [hs]
  refine Triple.bind (setInodeOf_fresh (y := ⟨type, short major, short minor, 1, []⟩) ho htype) fun _ => ?_
  have hdots : type = T_DIR → Triple (Table (Function.update I i ⟨type, short major, short minor, 1, []⟩) O P
      [⟨ip, i, true⟩, ⟨dp, d, true⟩]) (createDots dp ip room)
      (Dotted I O P [⟨ip, i, true⟩, ⟨dp, d, true⟩] d i type room) := fun _ =>
    createDots_table ho ⟨hi.1, hlt i hi.2⟩ (hlt d (h.range d hd0).2) htype rfl rfl rfl
  refine Triple.join hdots (fun hfile => Triple.ret fun s hs => ?_) fun dots => ?_
  · exact ⟨_, ⟨rfl, rfl, fun _ hdir => absurd hdir hfile⟩, hs⟩
  refine Triple.ex fun z => Triple.lift fun hz => ?_
  obtain ⟨hztype, hone, hentries⟩ := hz
  have hz0 : z.type ≠ 0 := hztype ▸ htype
  have hoz : Outer (Function.update I i z) O none := ho.update hz0 fun hzero => by omega
  have hfail : Triple (Table (Function.update I i z) O P [⟨ip, i, true⟩, ⟨dp, d, true⟩]) (createFail dp ip)
    (Created sb.ninodes O P) := createFail_linked h ho hi0 hfree hne hz0 hone
  refine Triple.split (fun hdots => read_table hoz fun s hs => ?_) fun _ => hfail
  rw [hs.head_inum]
  refine Triple.bind (dirlink_table hoz hmem) fun linked => ?_
  cases linked with
  | false => exact hfail
  | true =>
  refine Triple.ex fun y => Triple.lift fun hmade => ?_
  obtain ⟨-, -, hlink⟩ := hmade
  rw [Function.update_of_ne hne, Nat.mod_eq_of_lt (hlt i hi.2)] at hlink
  obtain ⟨hnlink, hmax⟩ := hok ⟨hslot, by rw [hlink]; rfl⟩ fun hdir => (hentries hdots hdir).1
  have hlive := h.live hd hnlink
  obtain ⟨hytype, hynlink⟩ := link_same hlink
  have hy0 : y.type ≠ 0 := hytype ▸ hd0
  generalize hdir : decide (type = T_DIR) = dir
  have hiff : dir = true ↔ type = T_DIR := by rw [← hdir, decide_eq_true_iff]
  have hJ : WellLinked sb.ninodes (Function.update (Function.update I i z) d (y.holding dir)) :=
    h.createIn hi hfree hlive hslot hlink hz0 hone (hztype ▸ hiff) (fun hd => (hentries hdots (hiff.mp hd)).2)
      fun hd => hmax (hiff.mp hd)
  have hrange := h.nlink_range hd0
  have hoy : Outer (Function.update (Function.update I i z) d y) O none :=
    hoz.update hy0 fun hzero => absurd (hynlink ▸ hzero) hnlink
  have hoJ : Outer (Function.update (Function.update I i z) d (y.holding dir)) O none := by
    refine hoz.update hy0 fun hzero => ?_
    have hup : (y.holding dir).nlink = if dir then y.nlink + 1 else y.nlink := rfl
    split at hup <;> omega
  refine read_table hoy fun s hs => ?_
  rw [hs.tail.head, Function.update_self]
  -- `..` of a new directory is a link to the directory above
  have hcount : type = T_DIR → Triple (Table (Function.update (Function.update I i z) d y) O P
        [⟨ip, i, true⟩, ⟨dp, d, true⟩]) (setInodeOf dp { y with nlink := short (y.nlink + 1) }) fun _ =>
      Table (Function.update (Function.update I i z) d (y.holding dir)) O P [⟨ip, i, true⟩, ⟨dp, d, true⟩] := by
    intro htype
    have hup : { y with nlink := short (y.nlink + 1) } = y.holding dir := by
      have hfull := hmax htype
      rw [hiff.mpr htype, short_eq (by omega)]
      rfl
    rw [hup]
    refine (setInodeOf_table (y := y.holding dir) hoy hmem hy0).post fun _ s hs => ?_
    rwa [Function.update_idem] at hs
  refine Triple.first hcount (fun hfile s hs => ?_) ?_
  · have hsame : y.holding dir = y := by
      rw [Bool.eq_false_iff.mpr fun hd => hfile (hiff.mp hd)]
      rfl
    rwa [hsame]
  · exact Triple.bind ((iput_table (v := ⟨dp, d, true⟩) hoJ).pre fun s hs => hs.swap) fun _ =>
      Triple.ret fun s hs => ⟨i, hJ.linked hoJ hs⟩

theorem create_linked {sb : Superblock} {path : List UInt8} {type : Nat} {major minor : Int} {room : Room}
    (h : WellLinked sb.ninodes I) (ho : Outer I O none) (hc : Cwd O P p c) (htype : type ≠ 0)
    (hok : CreateOk sb.ninodes I c path type room) :
    Triple (Table I O P []) (create sb p path type major minor room) (Created sb.ninodes O P) := by
  unfold create
  refine Triple.bind (namex_table ho hc) fun r => ?_
  rcases r with _ | ⟨dp, name⟩
  · exact Triple.ret fun s hs => h.linked ho hs
  refine Triple.ex fun d => Triple.lift fun hfind => Triple.bind ilock_table fun _ => ?_
  refine Triple.bind (dirlookup_table ho List.mem_cons_self) fun r => Triple.lift fun hd => ?_
  rcases r with _ | ⟨ip, k⟩
  · refine Triple.lift fun hslot => Triple.bind (ialloc_table ho fun v hv => ?_) fun r => ?_
    · rw [List.mem_singleton.mp hv]
    rcases r with _ | ip
    · exact iput_none (v := ⟨dp, d, true⟩) h ho
    · refine Triple.ex fun i => Triple.lift fun hi => ?_
      exact createNew_linked h ho ⟨hi.1, hi.2.1⟩ hi.2.2 hd hslot htype fun htakes =>
        hok (d, name) hfind ⟨i, hi.2.1, hi.1, hi.2.2, htakes⟩
  · refine Triple.lift fun _ => ?_
    refine Triple.bind ((iput_table (v := ⟨dp, d, true⟩) ho).pre fun s hs => hs.swap) fun _ => ?_
    refine Triple.bind ilock_table fun _ => read_table ho fun s hs => ?_
    refine Triple.split (fun _ => Triple.ret fun s hs => ⟨_, h.linked ho hs⟩) fun _ => ?_
    exact iput_none (v := ⟨ip, (I d).inumAt k, true⟩) h ho

end xv6.sysfile
