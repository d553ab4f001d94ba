-- The names of inodes. The links of an inode are the entries other than `.`
-- that refer to it in directories that have links themselves. Here the inodes
-- change as the calls change them, and the counts stay exact.
import Mathlib.Algebra.BigOperators.Group.Finset.Basic
import Mathlib.Algebra.BigOperators.Group.Finset.Piecewise
import Mathlib.Algebra.Order.BigOperators.Group.Finset
import SysNet.Xv6.Sysfile

namespace xv6.sysfile

variable {n d i j c : Nat} {I J : Nat → Inode} {x y : Inode}

/-! ## Directories -/

/-- A directory that has links. -/
def Inode.Live (d : Inode) : Prop := d.type = T_DIR ∧ 0 < d.nlink

instance (d : Inode) : Decidable d.Live := inferInstanceAs (Decidable (_ ∧ _))

/-- The inode of `..`. -/
def Inode.up (d : Inode) : Nat := d.inumAt 1

/-- The entries behind `.` and `..`. -/
def Inode.rest (d : Inode) : List Dirent := d.entries.drop 2

/-- How many of them refer to the inode. -/
def Inode.tally (d : Inode) (i : Nat) : Nat := d.rest.countP (·.inum = i)

/-- How many entries other than `.` refer to the inode, in a directory that has links. -/
def Inode.refs (d : Inode) (i : Nat) : Nat :=
  if d.Live then d.entries.countP (fun de => de.inum = i ∧ de.name ≠ [46]) else 0

/-- The entries `.` and `..` come first, and only there. -/
structure Inode.Dots (d : Inode) (own : Nat) : Prop where
  entries : d.entries = ⟨own, [46]⟩ :: ⟨d.up, [46, 46]⟩ :: d.rest
  up : d.up ≠ 0
  plain : ∀ de ∈ d.rest, de.inum ≠ 0 → de.name ≠ [46] ∧ de.name ≠ [46, 46]

/-! ## Entries -/

theorem slot_some {name : Name} {k : Nat} (h : x.slot name = some k) :
    ∃ de, x.entries[k]? = some de ∧ de.inum ≠ 0 ∧ de.name = name ∧ x.inumAt k = de.inum := by
  obtain ⟨hlt, hfound, -⟩ := List.findIdx?_eq_some_iff_getElem.mp h
  simp only [decide_eq_true_eq] at hfound
  refine ⟨x.entries[k], List.getElem?_eq_getElem hlt, hfound.1, hfound.2, ?_⟩
  unfold Inode.inumAt
  rw [List.getD_eq_getElem?_getD, List.getElem?_eq_getElem hlt, Option.getD_some]

theorem slot_none {name : Name} (h : x.slot name = none) {de : Dirent} (hde : de ∈ x.entries)
    (hinum : de.inum ≠ 0) : de.name ≠ name := by
  intro hname
  have hno := List.findIdx?_eq_none_iff.mp h de hde
  simp only [decide_eq_false_iff_not] at hno
  exact hno ⟨hinum, hname⟩

/-- A name that is not there is neither `.` nor `..`. -/
theorem Inode.Dots.plain_of_none {own : Nat} {name : Name} (h : x.Dots own) (hown : own ≠ 0)
    (hslot : x.slot name = none) : name ≠ [46] ∧ name ≠ [46, 46] := by
  have hdot : (⟨own, [46]⟩ : Dirent) ∈ x.entries := by
    rw [h.entries]
    exact List.mem_cons_self
  have hdotdot : (⟨x.up, [46, 46]⟩ : Dirent) ∈ x.entries := by
    rw [h.entries]
    exact List.mem_cons_of_mem _ List.mem_cons_self
  exact ⟨(slot_none hslot hdot hown).symm, (slot_none hslot hdotdot h.up).symm⟩

/-- Another entry stands in the place of one behind the first two. -/
theorem Inode.Dots.set {own m : Nat} {de de' : Dirent} (h : x.Dots own) (hm : x.rest[m]? = some de)
    (hplain : de'.inum ≠ 0 → de'.name ≠ [46] ∧ de'.name ≠ [46, 46])
    (hy : y.entries = x.entries.set (m + 2) de') :
    y.up = x.up ∧ y.Dots own ∧
      ∀ j, y.tally j + (if de.inum = j then 1 else 0) = x.tally j + if de'.inum = j then 1 else 0 := by
  have hentries : y.entries = ⟨own, [46]⟩ :: ⟨x.up, [46, 46]⟩ :: x.rest.set m de' := by
    rw [hy, h.entries]
    rfl
  have hup : y.up = x.up := by
    unfold Inode.up Inode.inumAt
    rw [hentries]
    rfl
  have hrest : y.rest = x.rest.set m de' := by
    unfold Inode.rest
    rw [hentries]
    rfl
  obtain ⟨hlt, hget⟩ := List.getElem?_eq_some_iff.mp hm
  refine ⟨hup, ⟨?_, hup ▸ h.up, ?_⟩, fun j => ?_⟩
  · rw [hup, hrest]
    exact hentries
  · intro de₁ hde₁ hinum
    rw [hrest] at hde₁
    rcases List.mem_or_eq_of_mem_set hde₁ with hold | rfl
    · exact h.plain de₁ hold hinum
    · exact hplain hinum
  · unfold Inode.tally
    rw [hrest, List.countP_set hlt, hget]
    simp only [decide_eq_true_eq]
    have hpos : de.inum = j → 0 < x.rest.countP (·.inum = j) := by
      intro hj
      exact List.countP_pos_iff.mpr ⟨de, List.mem_of_getElem? hm, decide_eq_true hj⟩
    by_cases hj : de.inum = j
    · have := hpos hj
      rw [if_pos hj]
      omega
    · rw [if_neg hj]
      rfl

/-- An entry behind the first two. -/
theorem Inode.Dots.behind {own k : Nat} {de : Dirent} (h : x.Dots own) (hde : x.entries[k]? = some de)
    (hdot : de ≠ ⟨own, [46]⟩) (hdotdot : de ≠ ⟨x.up, [46, 46]⟩) : ∃ m, k = m + 2 ∧ x.rest[m]? = some de := by
  rw [h.entries] at hde
  match k with
  | 0 => exact absurd (Option.some.inj hde).symm hdot
  | 1 => exact absurd (Option.some.inj hde).symm hdotdot
  | m + 2 => exact ⟨m, rfl, hde⟩

/-- A name is removed. -/
theorem Inode.Dots.clear {own k : Nat} {name : Name} (h : x.Dots own) (hslot : x.slot name = some k)
    (hname : name ≠ [46] ∧ name ≠ [46, 46]) (hy : y.entries = x.entries.set k ⟨0, []⟩) :
    y.up = x.up ∧ y.Dots own ∧
      ∀ j, j ≠ 0 → y.tally j + (if j = x.inumAt k then 1 else 0) = x.tally j := by
  obtain ⟨de, hde, -, hdename, hinum⟩ := slot_some hslot
  have hdot : de ≠ ⟨own, [46]⟩ := fun heq => hname.1 (by rw [← hdename, heq])
  have hdotdot : de ≠ ⟨x.up, [46, 46]⟩ := fun heq => hname.2 (by rw [← hdename, heq])
  obtain ⟨m, rfl, hm⟩ := h.behind hde hdot hdotdot
  obtain ⟨hup, hdots, htally⟩ := h.set hm (fun hne => absurd rfl hne) hy
  refine ⟨hup, hdots, fun j hj => ?_⟩
  have hcount := htally j
  rw [if_neg (show (⟨0, []⟩ : Dirent).inum ≠ j from Ne.symm hj)] at hcount
  rw [Nat.add_zero] at hcount
  rw [hinum, ← hcount]
  simp only [eq_comm]

/-- A name is added. -/
theorem Inode.Dots.link {own : Nat} {de : Dirent} {room : Bool} (h : x.Dots own) (hown : own ≠ 0)
    (hlink : x.link de room = some y) (hplain : de.name ≠ [46] ∧ de.name ≠ [46, 46]) :
    y.up = x.up ∧ y.Dots own ∧ y.type = x.type ∧ y.nlink = x.nlink ∧
      ∀ j, j ≠ 0 → y.tally j = x.tally j + if j = de.inum then 1 else 0 := by
  unfold Inode.link at hlink
  cases hfree : x.entries.findIdx? fun de => de.inum = 0 with
  | some k =>
    simp only [hfree, Option.some.injEq] at hlink
    obtain ⟨hlt, hzero, -⟩ := List.findIdx?_eq_some_iff_getElem.mp hfree
    simp only [decide_eq_true_eq] at hzero
    have hget := List.getElem?_eq_getElem hlt
    have hdot : x.entries[k] ≠ ⟨own, [46]⟩ := fun heq => hown (by rw [heq] at hzero; exact hzero)
    have hdotdot : x.entries[k] ≠ ⟨x.up, [46, 46]⟩ := fun heq => h.up (by rw [heq] at hzero; exact hzero)
    obtain ⟨m, hk, hm⟩ := h.behind hget hdot hdotdot
    have hentries : y.entries = x.entries.set (m + 2) de := by rw [← hlink, hk]
    obtain ⟨hup, hdots, htally⟩ := h.set hm (fun _ => hplain) hentries
    refine ⟨hup, hdots, by rw [← hlink], by rw [← hlink], fun j hj => ?_⟩
    have hcount := htally j
    rw [hzero, if_neg (Ne.symm hj)] at hcount
    rw [← Nat.add_zero (y.tally j), hcount]
    simp only [eq_comm]
  | none =>
    simp only [hfree] at hlink
    split at hlink
    next =>
      have hy := Option.some.inj hlink
      have hentries : y.entries = ⟨own, [46]⟩ :: ⟨x.up, [46, 46]⟩ :: (x.rest ++ [de]) := by
        rw [← hy]
        change x.entries ++ [de] = _
        rw [h.entries]
        rfl
      have hup : y.up = x.up := by
        unfold Inode.up Inode.inumAt
        rw [hentries]
        rfl
      have hrest : y.rest = x.rest ++ [de] := by
        unfold Inode.rest
        rw [hentries]
        rfl
      refine ⟨hup, ⟨?_, hup ▸ h.up, ?_⟩, by rw [← hy], by rw [← hy], fun j _ => ?_⟩
      · rw [hup, hrest]
        exact hentries
      · intro de₁ hde₁ hinum
        rw [hrest] at hde₁
        rcases List.mem_append.mp hde₁ with hold | hnew
        · exact h.plain de₁ hold hinum
        · rw [List.mem_singleton.mp hnew]
          exact hplain
      · unfold Inode.tally
        rw [hrest, List.countP_append, List.countP_singleton]
        by_cases hj : j = de.inum
        · rw [if_pos hj, if_pos (decide_eq_true hj.symm)]
        · rw [if_neg hj, if_neg fun heq => hj (of_decide_eq_true heq).symm]
    next => cases hlink

/-- Where no place is free, the entry comes at the end. -/
theorem link_append {de : Dirent} {room : Bool} (hfull : ∀ de ∈ x.entries, de.inum ≠ 0)
    (h : x.link de room = some y) : room = true ∧ y.entries = x.entries ++ [de] := by
  have hnone : (x.entries.findIdx? fun de => de.inum = 0) = none :=
    List.findIdx?_eq_none_iff.mpr fun de hde => decide_eq_false (hfull de hde)
  unfold Inode.link at h
  simp only [hnone] at h
  split at h
  next hroom =>
    obtain rfl := Option.some.inj h
    exact ⟨hroom.1, rfl⟩
  next => cases h

/-- The first two entries of a directory that was empty. -/
theorem dots_of_entries {own up : Nat} (hup : up ≠ 0) (h : x.entries = [⟨own, [46]⟩, ⟨up, [46, 46]⟩]) :
    x.Dots own ∧ x.up = up ∧ ∀ j, x.tally j = 0 := by
  have hu : x.up = up := by
    unfold Inode.up Inode.inumAt
    rw [h]
    rfl
  have hrest : x.rest = [] := by
    unfold Inode.rest
    rw [h]
    rfl
  refine ⟨⟨?_, hu ▸ hup, ?_⟩, hu, fun j => ?_⟩
  · rw [h, hu, hrest]
  · intro de hde
    rw [hrest] at hde
    cases hde
  · unfold Inode.tally
    rw [hrest]
    rfl

/-- A directory with nothing behind the first two entries. -/
theorem tally_of_isdirempty (h : x.isdirempty = true) {j : Nat} (hj : j ≠ 0) : x.tally j = 0 := by
  refine List.countP_eq_zero.mpr fun de hde => ?_
  have hfree : de.inum = 0 := of_decide_eq_true (List.all_eq_true.mp h de hde)
  rw [hfree]
  simpa using Ne.symm hj

/-! ## Names -/

/-- The entries that refer to the inode in all directories that have links. -/
def names (n : Nat) (I : Nat → Inode) (i : Nat) : Nat := ∑ d ∈ Finset.range n, (I d).refs i

theorem refs_of_not_live (h : ¬ x.Live) (i : Nat) : x.refs i = 0 := if_neg h

theorem refs_eq (hx : x.Live) (hdots : x.Dots c) (hi : i ≠ 0) :
    x.refs i = (if x.up = i then 1 else 0) + x.tally i := by
  have hrest : x.rest.countP (fun de => de.inum = i ∧ de.name ≠ [46]) = x.tally i := by
    unfold Inode.tally
    apply List.countP_congr
    intro de hde
    simp only [decide_eq_true_eq]
    constructor
    · exact fun h => h.1
    · intro hinum
      exact ⟨hinum, (hdots.plain de hde (hinum ▸ hi)).1⟩
  unfold Inode.refs
  rw [if_pos hx, hdots.entries, List.countP_cons, List.countP_cons, hrest]
  simp [Nat.add_comm]

/-- Two inodes change. -/
theorem names_change (hd : d < n) (hi : i < n) (hne : d ≠ i)
    (hsame : ∀ e, e ≠ d → e ≠ i → J e = I e) (j : Nat) :
    names n J j + (I d).refs j + (I i).refs j = names n I j + (J d).refs j + (J i).refs j := by
  have hsum : ∀ K : Nat → Inode, names n K j =
      (K d).refs j + ((K i).refs j + ∑ e ∈ ((Finset.range n).erase d).erase i, (K e).refs j) := by
    intro K
    unfold names
    rw [← Finset.add_sum_erase _ _ (Finset.mem_range.mpr hd), ← Finset.add_sum_erase _ _
      (Finset.mem_erase.mpr ⟨hne.symm, Finset.mem_range.mpr hi⟩)]
  have hothers : ∑ e ∈ ((Finset.range n).erase d).erase i, (J e).refs j =
      ∑ e ∈ ((Finset.range n).erase d).erase i, (I e).refs j := by
    apply Finset.sum_congr rfl
    intro e he
    obtain ⟨hei, he⟩ := Finset.mem_erase.mp he
    rw [hsame e (Finset.mem_erase.mp he).1 hei]
  rw [hsum I, hsum J, hothers]
  omega

/-- The entries of one directory, and of two. -/
theorem refs_le_names (hd : d < n) (j : Nat) : (I d).refs j ≤ names n I j :=
  Finset.single_le_sum (f := fun e => (I e).refs j) (fun _ _ => Nat.zero_le _) (Finset.mem_range.mpr hd)

theorem two_refs_le_names (hd : d < n) (hi : i < n) (hne : d ≠ i) (j : Nat) :
    (I d).refs j + (I i).refs j ≤ names n I j := by
  unfold names
  rw [← Finset.add_sum_erase _ _ (Finset.mem_range.mpr hd), ← Finset.add_sum_erase _ _
    (Finset.mem_erase.mpr ⟨hne.symm, Finset.mem_range.mpr hi⟩)]
  omega

/-! ## Exact counts -/

/-- The link counts are exact, and a directory that has links has one entry, in the directory that its
`..` refers to. -/
structure WellLinked (n : Nat) (I : Nat → Inode) : Prop where
  range : ∀ i, (I i).type ≠ 0 → 0 < i ∧ i < n
  small : ∀ i, (I i).type ≠ 0 → (I i).nlink ≤ 32767
  links : ∀ i, (I i).type ≠ 0 → (I i).nlink = names n I i
  root : (I ROOTINO).Live ∧ (I ROOTINO).up = ROOTINO
  dots : ∀ d, (I d).Live → (I d).Dots d
  known : ∀ d i, (I d).Live → i ≠ 0 → 0 < (I d).tally i → (I i).type ≠ 0
  /-- A directory without links is empty. -/
  dead : ∀ d, (I d).type = T_DIR → ¬ (I d).Live → ∀ de ∈ (I d).entries, de.inum ≠ 0 →
    de.name = [46] ∨ de.name = [46, 46]
  /-- A directory has one name, in the directory that its `..` refers to. -/
  home : ∀ c d, (I c).Live → (I d).Live → (I d).tally c = if c ≠ ROOTINO ∧ d = (I c).up then 1 else 0
  upper : ∀ c, (I c).Live → c ≠ ROOTINO → (I (I c).up).Live ∧ (I c).up ≠ c

theorem live_type (h : x.Live) : x.type ≠ 0 := by
  rw [h.1]
  decide

theorem WellLinked.live_lt (h : WellLinked n I) (hd : (I d).Live) : d < n := (h.range d (live_type hd)).2

theorem WellLinked.live_ne_zero (h : WellLinked n I) (hd : (I d).Live) : d ≠ 0 :=
  Nat.ne_of_gt (h.range d (live_type hd)).1

/-- Only inodes that are in use have names. -/
theorem WellLinked.type_of_names (h : WellLinked n I) (hi : i ≠ 0) (hnames : names n I i ≠ 0) :
    (I i).type ≠ 0 := by
  obtain ⟨d, -, hd⟩ := Finset.exists_ne_zero_of_sum_ne_zero hnames
  have hlive : (I d).Live := by
    by_contra hnot
    exact hd (refs_of_not_live hnot i)
  rw [refs_eq hlive (h.dots d hlive) hi] at hd
  by_cases hup : (I d).up = i
  · rw [← hup]
    by_cases hroot : d = ROOTINO
    · rw [hroot, h.root.2]
      exact live_type h.root.1
    · exact live_type (h.upper d hlive hroot).1
  · rw [if_neg hup] at hd
    exact h.known d i hlive hi (by omega)

theorem WellLinked.names_of_free (h : WellLinked n I) (hi : i ≠ 0) (hfree : (I i).type = 0) : names n I i = 0 := by
  by_contra hnames
  exact h.type_of_names hi hnames hfree

/-- An inode with a name in a directory other than `.` and `..`. -/
theorem WellLinked.found {k : Nat} {name : Name} (h : WellLinked n I) (hd : (I d).type = T_DIR)
    (hslot : (I d).slot name = some k) (hname : name ≠ [46] ∧ name ≠ [46, 46]) :
    (I d).Live ∧ (I d).inumAt k ≠ 0 ∧ 0 < (I d).tally ((I d).inumAt k) := by
  obtain ⟨de, hde, hinum, hdename, heq⟩ := slot_some hslot
  have hlive : (I d).Live := by
    by_contra hnot
    obtain hdot | hdot := h.dead d hd hnot de (List.mem_of_getElem? hde) hinum
    · exact hname.1 (hdename.symm.trans hdot)
    · exact hname.2 (hdename.symm.trans hdot)
  have hdot : de ≠ ⟨d, [46]⟩ := fun hdot => hname.1 (by rw [← hdename, hdot])
  have hdotdot : de ≠ ⟨(I d).up, [46, 46]⟩ := fun hdot => hname.2 (by rw [← hdename, hdot])
  obtain ⟨m, -, hm⟩ := (h.dots d hlive).behind hde hdot hdotdot
  refine ⟨hlive, heq ▸ hinum, List.countP_pos_iff.mpr ⟨de, List.mem_of_getElem? hm, ?_⟩⟩
  rw [heq]
  exact decide_eq_true rfl

theorem WellLinked.nlink_pos (h : WellLinked n I) (hd : (I d).Live) (hi : i ≠ 0) (htally : 0 < (I d).tally i) :
    0 < (I i).nlink := by
  have hrefs : (I d).refs i ≤ names n I i := refs_le_names (h.live_lt hd) i
  rw [refs_eq hd (h.dots d hd) hi] at hrefs
  rw [h.links i (h.known d i hd hi htally)]
  omega

/-- A directory with a name in another one is below it. -/
theorem WellLinked.below (h : WellLinked n I) (hd : (I d).Live) (hc : (I c).Live) (htally : 0 < (I d).tally c) :
    c ≠ ROOTINO ∧ (I c).up = d := by
  rw [h.home c d hc hd] at htally
  by_cases hup : c ≠ ROOTINO ∧ d = (I c).up
  · exact ⟨hup.1, hup.2.symm⟩
  · rw [if_neg hup] at htally
    omega

/-- No directory has a name in itself. -/
theorem WellLinked.ne_of_tally (h : WellLinked n I) (hd : (I d).Live) (htally : 0 < (I d).tally i) : d ≠ i := by
  rintro rfl
  obtain ⟨hroot, hup⟩ := h.below hd hd htally
  exact (h.upper d hd hroot).2 hup

/-! ## Changes -/

/-- A directory `d` and an inode `i` change, to `x` and `y`. -/
structure Changed (I J : Nat → Inode) (d i : Nat) (x y : Inode) : Prop where
  ne : d ≠ i
  dir : J d = x
  inode : J i = y
  same : ∀ e, e ≠ d → e ≠ i → J e = I e

/-- The directory stays where it is. -/
structure Inode.Stays (x old : Inode) (own : Nat) : Prop where
  type : x.type = T_DIR
  up : x.up = old.up
  dots : x.Dots own

/-- Away from the inode, only the directory has changed. -/
theorem Changed.away {e : Nat} (hJ : Changed I J d i x y) (hei : e ≠ i) : e = d ∧ J e = x ∨ e ≠ d ∧ J e = I e := by
  by_cases hed : e = d
  · exact Or.inl ⟨hed, hed ▸ hJ.dir⟩
  · exact Or.inr ⟨hed, hJ.same e hed hei⟩

theorem Changed.up_away {e : Nat} (hJ : Changed I J d i x y) (hx : x.Stays (I d) d) (hei : e ≠ i) : (J e).up = (I e).up := by
  rcases hJ.away hei with ⟨rfl, hJe⟩ | ⟨-, hJe⟩
  · rw [hJe, hx.up]
  · rw [hJe]

theorem Changed.type_away {e : Nat} (hJ : Changed I J d i x y) (hx : x.Stays (I d) d) (hd : (I d).Live)
    (hei : e ≠ i) : (J e).type = (I e).type := by
  rcases hJ.away hei with ⟨rfl, hJe⟩ | ⟨-, hJe⟩
  · rw [hJe, hx.type, hd.1]
  · rw [hJe]

theorem Changed.live_away {e : Nat} (hJ : Changed I J d i x y) (hd : (I d).Live) (hxlive : x.Live)
    (hei : e ≠ i) : (J e).Live ↔ (I e).Live := by
  rcases hJ.away hei with ⟨rfl, hJe⟩ | ⟨-, hJe⟩
  · rw [hJe]
    exact iff_of_true hxlive hd
  · rw [hJe]

theorem Changed.dots_away {e : Nat} (hJ : Changed I J d i x y) (hx : x.Stays (I d) d)
    (hdots : (I e).Dots e) (hei : e ≠ i) : (J e).Dots e := by
  rcases hJ.away hei with ⟨rfl, hJe⟩ | ⟨-, hJe⟩
  · rw [hJe]
    exact hx.dots
  · rw [hJe]
    exact hdots

theorem Changed.small_away {e : Nat} (hJ : Changed I J d i x y) (hshort : x.nlink ≤ 32767)
    (hsmall : (I e).nlink ≤ 32767) (hei : e ≠ i) : (J e).nlink ≤ 32767 := by
  rcases hJ.away hei with ⟨-, hJe⟩ | ⟨-, hJe⟩
  · rw [hJe]
    exact hshort
  · rw [hJe]
    exact hsmall

/-- The entries of the directory, and those of the inode as what they are, are counted anew. -/
theorem WellLinked.names_changed (h : WellLinked n I) (hJ : Changed I J d i x y) (hx : x.Stays (I d) d)
    (hd : (I d).Live) (hi : i < n) (hxlive : x.Live) (hj : j ≠ 0) :
    names n J j + (I d).tally j + (I i).refs j = names n I j + x.tally j + y.refs j := by
  have hchange := names_change (h.live_lt hd) hi hJ.ne hJ.same j
  rw [hJ.dir, hJ.inode, refs_eq hxlive hx.dots hj, refs_eq hd (h.dots d hd) hj, hx.up] at hchange
  omega

/-- An inode that is no directory gets a name or loses one. -/
theorem WellLinked.relink (h : WellLinked n I) (hJ : Changed I J d i x y) (hd : (I d).Live) (hi : 0 < i ∧ i < n)
    (hold : (I i).type ≠ T_DIR) (hdir : y.type ≠ T_DIR) (htype : y.type ≠ 0) (hshort : y.nlink ≤ 32767)
    (hx : x.Stays (I d) d) (hnlink : x.nlink = (I d).nlink)
    (htally : ∀ j, j ≠ 0 → j ≠ i → x.tally j = (I d).tally j)
    (hlink : y.nlink + (I d).tally i = names n I i + x.tally i) : WellLinked n J := by
  have hi0 : i ≠ 0 := Nat.ne_of_gt hi.1
  have hxlive : x.Live := ⟨hx.type, hnlink ▸ hd.2⟩
  have hnot : ¬ (I i).Live := fun hl => hold hl.1
  have hnot' : ¬ y.Live := fun hl => hdir hl.1
  have hlive : ∀ e, (J e).Live ↔ (I e).Live := by
    intro e
    by_cases hei : e = i
    · rw [hei, hJ.inode]
      exact iff_of_false hnot' hnot
    · exact hJ.live_away hd hxlive hei
  have haway : ∀ e, (I e).Live → e ≠ i := fun e he hei => hnot (hei ▸ he)
  have hcount : ∀ e, (I e).Live → ∀ j, j ≠ 0 → j ≠ i → (J e).tally j = (I e).tally j := by
    intro e he j hj hji
    rcases hJ.away (haway e he) with ⟨rfl, hJe⟩ | ⟨-, hJe⟩
    · rw [hJe]
      exact htally j hj hji
    · rw [hJe]
  -- only the names of `i` change
  have hnames : ∀ j, j ≠ 0 → names n J j + (I d).tally j = names n I j + x.tally j := by
    intro j hj
    have hchange := h.names_changed hJ hx hd hi.2 hxlive hj
    rw [refs_of_not_live hnot, refs_of_not_live hnot'] at hchange
    exact hchange
  refine { range := fun e he => ?range, small := fun e he => ?small, links := fun e he => ?links, root := ?root,
           dots := fun e he => ?dots, known := fun e j he hj hpos => ?known, dead := fun e he hnl => ?dead,
           home := fun c e hc he => ?home, upper := fun c hc hne => ?upper }
  case range =>
    by_cases hei : e = i
    · rw [hei]
      exact hi
    · exact h.range e (hJ.type_away hx hd hei ▸ he)
  case small =>
    by_cases hei : e = i
    · rw [hei, hJ.inode]
      exact hshort
    · rw [hJ.type_away hx hd hei] at he
      exact hJ.small_away (hnlink ▸ h.small d (live_type hd)) (h.small e he) hei
  case links =>
    by_cases hei : e = i
    · have hn := hnames i hi0
      rw [hei, hJ.inode]
      omega
    · have he' : (I e).type ≠ 0 := hJ.type_away hx hd hei ▸ he
      have he0 : e ≠ 0 := Nat.ne_of_gt (h.range e he').1
      have hn := hnames e he0
      rw [htally e he0 hei] at hn
      have hl := h.links e he'
      rcases hJ.away hei with ⟨rfl, hJe⟩ | ⟨-, hJe⟩
      · rw [hJe, hnlink]
        omega
      · rw [hJe]
        omega
  case root =>
    exact ⟨(hlive _).mpr h.root.1, (hJ.up_away hx (haway _ h.root.1)).trans h.root.2⟩
  case dots =>
    have he' := (hlive e).mp he
    exact hJ.dots_away hx (h.dots e he') (haway e he')
  case known =>
    have he' := (hlive e).mp he
    by_cases hji : j = i
    · rw [hji, hJ.inode]
      exact htype
    · rw [hcount e he' j hj hji] at hpos
      rw [hJ.type_away hx hd hji]
      exact h.known e j he' hj hpos
  case dead =>
    have hed : e ≠ d := by
      rintro rfl
      exact hnl ((hlive e).mpr hd)
    have hei : e ≠ i := by
      rintro rfl
      exact hdir (hJ.inode ▸ he)
    rw [hJ.same e hed hei] at he hnl ⊢
    exact h.dead e he hnl
  case home =>
    have hc' := (hlive c).mp hc
    rw [hcount e ((hlive e).mp he) c (h.live_ne_zero hc') (haway c hc'), hJ.up_away hx (haway c hc')]
    exact h.home c e hc' ((hlive e).mp he)
  case upper =>
    have hc' := (hlive c).mp hc
    obtain ⟨hul, hun⟩ := h.upper c hc' hne
    rw [hJ.up_away hx (haway c hc'), hlive]
    exact ⟨hul, hun⟩

/-- A new directory. -/
theorem WellLinked.mkdir (h : WellLinked n I) (hJ : Changed I J d i x y) (hd : (I d).Live) (hi : 0 < i ∧ i < n)
    (hfree : (I i).type = 0) (hy : y.type = T_DIR) (hone : y.nlink = 1) (hydots : y.Dots i) (hyup : y.up = d)
    (hempty : ∀ j, j ≠ 0 → y.tally j = 0) (hx : x.Stays (I d) d) (hnlink : x.nlink = (I d).nlink + 1)
    (hshort : x.nlink ≤ 32767)
    (htally : ∀ j, j ≠ 0 → x.tally j = (I d).tally j + if j = i then 1 else 0) : WellLinked n J := by
  have hi0 : i ≠ 0 := Nat.ne_of_gt hi.1
  have hxlive : x.Live := ⟨hx.type, by have := hd.2; omega⟩
  have hylive : y.Live := ⟨hy, by omega⟩
  have hnot : ¬ (I i).Live := fun hl => live_type hl hfree
  have hiroot : i ≠ ROOTINO := by
    rintro rfl
    exact hnot h.root.1
  have hlive : ∀ e, e ≠ i → ((J e).Live ↔ (I e).Live) := fun e => hJ.live_away hd hxlive
  have hcount : ∀ e, e ≠ i → ∀ j, j ≠ 0 →
      (J e).tally j = (I e).tally j + if e = d ∧ j = i then 1 else 0 := by
    intro e hei j hj
    rcases hJ.away hei with ⟨rfl, hJe⟩ | ⟨hed, hJe⟩
    · rw [hJe, htally j hj]
      simp
    · rw [hJe]
      simp [hed]
  have hnames : ∀ j, j ≠ 0 →
      names n J j = names n I j + (if j = i then 1 else 0) + if d = j then 1 else 0 := by
    intro j hj
    have hchange := h.names_changed hJ hx hd hi.2 hxlive hj
    rw [refs_of_not_live hnot, refs_eq hylive hydots hj, hyup, hempty j hj, htally j hj] at hchange
    omega
  refine { range := fun e he => ?range, small := fun e he => ?small, links := fun e he => ?links, root := ?root,
           dots := fun e he => ?dots, known := fun e j he hj hpos => ?known, dead := fun e he hnl => ?dead,
           home := fun c e hc he => ?home, upper := fun c hc hne => ?upper }
  case range =>
    by_cases hei : e = i
    · rw [hei]
      exact hi
    · exact h.range e (hJ.type_away hx hd hei ▸ he)
  case small =>
    by_cases hei : e = i
    · rw [hei, hJ.inode, hone]
      decide
    · rw [hJ.type_away hx hd hei] at he
      exact hJ.small_away hshort (h.small e he) hei
  case links =>
    by_cases hei : e = i
    · have hn := hnames i hi0
      rw [h.names_of_free hi0 hfree, if_pos rfl, if_neg hJ.ne] at hn
      rw [hei, hJ.inode, hone, hn]
      rfl
    · have he' : (I e).type ≠ 0 := hJ.type_away hx hd hei ▸ he
      have hn := hnames e (Nat.ne_of_gt (h.range e he').1)
      have hl := h.links e he'
      rw [if_neg hei] at hn
      rcases hJ.away hei with ⟨rfl, hJe⟩ | ⟨hed, hJe⟩
      · rw [if_pos rfl] at hn
        rw [hJe, hnlink]
        omega
      · rw [if_neg (Ne.symm hed)] at hn
        rw [hJe]
        omega
  case root =>
    refine ⟨(hlive _ hiroot.symm).mpr h.root.1, ?_⟩
    rw [hJ.up_away hx hiroot.symm]
    exact h.root.2
  case dots =>
    by_cases hei : e = i
    · rw [hei, hJ.inode]
      exact hydots
    · exact hJ.dots_away hx (h.dots e ((hlive e hei).mp he)) hei
  case known =>
    by_cases hji : j = i
    · rw [hji, hJ.inode, hy]
      decide
    · by_cases hei : e = i
      · rw [hei, hJ.inode, hempty j hj] at hpos
        omega
      · rw [hcount e hei j hj, if_neg fun heq => hji heq.2] at hpos
        rw [hJ.type_away hx hd hji]
        exact h.known e j ((hlive e hei).mp he) hj hpos
  case dead =>
    have hei : e ≠ i := by
      rintro rfl
      exact hnl (hJ.inode ▸ hylive)
    have hed : e ≠ d := by
      rintro rfl
      exact hnl (hJ.dir ▸ hxlive)
    rw [hJ.same e hed hei] at he hnl ⊢
    exact h.dead e he hnl
  case home =>
    by_cases hci : c = i
    · by_cases hei : e = i
      · rw [hei, hci, hJ.inode, hempty i hi0, hyup, if_neg fun heq => hJ.ne heq.2.symm]
      · have hnone : (I e).tally i = 0 := by
          by_contra hsome
          exact h.known e i ((hlive e hei).mp he) hi0 (Nat.pos_of_ne_zero hsome) hfree
        rw [hci, hcount e hei i hi0, hJ.inode, hyup, hnone]
        by_cases hed : e = d
        · rw [if_pos ⟨hed, rfl⟩, if_pos ⟨hiroot, hed⟩]
        · rw [if_neg fun heq => hed heq.1, if_neg fun heq => hed heq.2]
    · have hc' := (hlive c hci).mp hc
      rw [hJ.up_away hx hci]
      by_cases hei : e = i
      · rw [hei, hJ.inode, hempty c (h.live_ne_zero hc'), if_neg]
        rintro ⟨hroot, hup⟩
        exact hnot (hup ▸ (h.upper c hc' hroot).1)
      · rw [hcount e hei c (h.live_ne_zero hc'), if_neg fun heq => hci heq.2]
        exact h.home c e hc' ((hlive e hei).mp he)
  case upper =>
    by_cases hci : c = i
    · rw [hci, hJ.inode, hyup, hJ.dir]
      exact ⟨hxlive, hJ.ne⟩
    · have hc' := (hlive c hci).mp hc
      obtain ⟨hul, hun⟩ := h.upper c hc' hne
      have hui : (I c).up ≠ i := fun heq => hnot (heq ▸ hul)
      rw [hJ.up_away hx hci, hlive _ hui]
      exact ⟨hul, hun⟩

/-- A directory that is empty has no other directory in it. -/
theorem WellLinked.not_up (h : WellLinked n I) (hc : (I c).Live) (hempty : ∀ j, j ≠ 0 → (I c).tally j = 0)
    (hd : (I d).Live) (hroot : d ≠ ROOTINO) : (I d).up ≠ c := by
  intro hup
  have hhome := h.home d c hd hc
  rw [hempty d (h.live_ne_zero hd), if_pos ⟨hroot, hup.symm⟩] at hhome
  omega

/-- An empty directory has one name. -/
theorem WellLinked.names_empty (h : WellLinked n I) (hc : (I c).Live) (hroot : c ≠ ROOTINO)
    (hempty : ∀ j, j ≠ 0 → (I c).tally j = 0) : names n I c = 1 := by
  obtain ⟨hul, -⟩ := h.upper c hc hroot
  have hone : ∀ e, (I e).refs c = if e = (I c).up then 1 else 0 := by
    intro e
    by_cases he : (I e).Live
    · have hup : (I e).up ≠ c := by
        by_cases hr : e = ROOTINO
        · rw [hr, h.root.2]
          exact hroot.symm
        · exact h.not_up hc hempty he hr
      rw [refs_eq he (h.dots e he) (h.live_ne_zero hc), if_neg hup, h.home c e hc he, Nat.zero_add]
      simp [hroot]
    · rw [refs_of_not_live he, if_neg]
      rintro rfl
      exact he hul
  unfold names
  rw [Finset.sum_congr rfl fun e _ => hone e, Finset.sum_ite_eq', if_pos]
  exact Finset.mem_range.mpr (h.live_lt hul)

/-- A directory has a link for each directory in it, and one more. -/
theorem WellLinked.two_le_nlink (h : WellLinked n I) (hd : (I d).Live) (hc : (I c).Live) (hroot : c ≠ ROOTINO)
    (hup : (I c).up = d) (hempty : ∀ j, j ≠ 0 → (I c).tally j = 0) : 2 ≤ (I d).nlink := by
  have hd0 := h.live_ne_zero hd
  have hchild : (I c).refs d = 1 := by
    rw [refs_eq hc (h.dots c hc) hd0, if_pos hup, hempty d hd0]
  have hlinks := h.links d (live_type hd)
  by_cases hr : d = ROOTINO
  · have hown : 1 ≤ (I d).refs d := by
      rw [refs_eq hd (h.dots d hd) hd0, hr, if_pos h.root.2]
      omega
    have htwo := two_refs_le_names (I := I) (h.live_lt hd) (h.live_lt hc) (hr ▸ hroot.symm) d
    omega
  · obtain ⟨hul, hun⟩ := h.upper d hd hr
    have hown : 1 ≤ (I (I d).up).refs d := by
      have hhome := h.home d _ hd hul
      rw [if_pos ⟨hr, rfl⟩] at hhome
      rw [refs_eq hul (h.dots _ hul) hd0, hhome]
      omega
    have htwo := two_refs_le_names (I := I) (h.live_lt hul) (h.live_lt hc) (h.not_up hc hempty hd hr) d
    omega

/-- An empty directory is removed from the directory above. -/
theorem WellLinked.rmdir (h : WellLinked n I) (hJ : Changed I J d c x y) (hd : (I d).Live) (hc : (I c).Live)
    (hroot : c ≠ ROOTINO) (hup : (I c).up = d) (hempty : ∀ j, j ≠ 0 → (I c).tally j = 0)
    (hy : y = { I c with nlink := (I c).nlink - 1 }) (hx : x.Stays (I d) d)
    (hnlink : x.nlink = (I d).nlink - 1)
    (htally : ∀ j, j ≠ 0 → x.tally j + (if j = c then 1 else 0) = (I d).tally j) : WellLinked n J := by
  have htwo := h.two_le_nlink hd hc hroot hup hempty
  have hone : (I c).nlink = 1 := by
    rw [h.links c (live_type hc), h.names_empty hc hroot hempty]
    rfl
  have hxlive : x.Live := ⟨hx.type, by omega⟩
  have hyzero : y.nlink = 0 := by
    rw [hy, hone]
    rfl
  have hytype : y.type = T_DIR := by
    rw [hy]
    exact hc.1
  have hnot : ¬ y.Live := fun hl => by
    have := hl.2
    omega
  have hlive : ∀ e, (J e).Live ↔ (I e).Live ∧ e ≠ c := by
    intro e
    by_cases hec : e = c
    · rw [hec, hJ.inode]
      exact iff_of_false hnot fun hl => hl.2 rfl
    · rw [hJ.live_away hd hxlive hec]
      exact (and_iff_left hec).symm
  have hcount : ∀ e, e ≠ c → ∀ j, j ≠ 0 →
      (J e).tally j + (if e = d ∧ j = c then 1 else 0) = (I e).tally j := by
    intro e hec j hj
    rcases hJ.away hec with ⟨rfl, hJe⟩ | ⟨hed, hJe⟩
    · rw [hJe, ← htally j hj]
      simp
    · rw [hJe]
      simp [hed]
  have hsame : ∀ j, (J j).type = (I j).type := by
    intro j
    by_cases hjc : j = c
    · rw [hjc, hJ.inode, hytype, hc.1]
    · exact hJ.type_away hx hd hjc
  have hnames : ∀ j, j ≠ 0 →
      names n J j + (if j = c then 1 else 0) + (if d = j then 1 else 0) = names n I j := by
    intro j hj
    have hchange := h.names_changed hJ hx hd (h.live_lt hc) hxlive hj
    rw [refs_of_not_live hnot, refs_eq hc (h.dots c hc) hj, hup, hempty j hj, ← htally j hj] at hchange
    omega
  refine { range := fun e he => ?range, small := fun e he => ?small, links := fun e he => ?links, root := ?root,
           dots := fun e he => ?dots, known := fun e j he hj hpos => ?known, dead := fun e he hnl => ?dead,
           home := fun c' e hc' he => ?home, upper := fun c' hc' hne => ?upper }
  case range =>
    exact h.range e (hsame e ▸ he)
  case small =>
    by_cases hec : e = c
    · rw [hec, hJ.inode, hyzero]
      decide
    · have hsmall := h.small d (live_type hd)
      exact hJ.small_away (by omega) (h.small e (hsame e ▸ he)) hec
  case links =>
    have he' : (I e).type ≠ 0 := hsame e ▸ he
    have hn := hnames e (Nat.ne_of_gt (h.range e he').1)
    have hl := h.links e he'
    by_cases hec : e = c
    · rw [hec] at hn hl
      rw [if_pos rfl, if_neg hJ.ne] at hn
      rw [hec, hJ.inode, hyzero]
      omega
    · rw [if_neg hec] at hn
      rcases hJ.away hec with ⟨rfl, hJe⟩ | ⟨hed, hJe⟩
      · rw [if_pos rfl] at hn
        rw [hJe, hnlink]
        omega
      · rw [if_neg (Ne.symm hed)] at hn
        rw [hJe]
        omega
  case root =>
    refine ⟨(hlive _).mpr ⟨h.root.1, hroot.symm⟩, ?_⟩
    rw [hJ.up_away hx hroot.symm]
    exact h.root.2
  case dots =>
    obtain ⟨he', hec⟩ := (hlive e).mp he
    exact hJ.dots_away hx (h.dots e he') hec
  case known =>
    obtain ⟨he', hec⟩ := (hlive e).mp he
    have hle := hcount e hec j hj
    rw [hsame j]
    exact h.known e j he' hj (by omega)
  case dead =>
    intro de hde hinum
    by_cases hec : e = c
    · rw [hec, hJ.inode, hy] at hde
      change de ∈ (I c).entries at hde
      rw [(h.dots c hc).entries] at hde
      rcases List.mem_cons.mp hde with rfl | hde
      · exact Or.inl rfl
      · rcases List.mem_cons.mp hde with rfl | hde
        · exact Or.inr rfl
        · have hpos : 0 < (I c).tally de.inum := List.countP_pos_iff.mpr ⟨de, hde, by simp⟩
          rw [hempty de.inum hinum] at hpos
          omega
    · have hed : e ≠ d := by
        rintro rfl
        exact hnl ((hlive e).mpr ⟨hd, hec⟩)
      rw [hJ.same e hed hec] at he hnl hde
      exact h.dead e he hnl de hde hinum
  case home =>
    obtain ⟨hcl, hcc⟩ := (hlive c').mp hc'
    obtain ⟨hel, hec⟩ := (hlive e).mp he
    have hcnt := hcount e hec c' (h.live_ne_zero hcl)
    rw [if_neg fun heq => hcc heq.2, Nat.add_zero] at hcnt
    rw [hcnt, hJ.up_away hx hcc]
    exact h.home c' e hcl hel
  case upper =>
    obtain ⟨hcl, hcc⟩ := (hlive c').mp hc'
    obtain ⟨hul, hun⟩ := h.upper c' hcl hne
    rw [hJ.up_away hx hcc, hlive]
    exact ⟨⟨hul, h.not_up hc hempty hcl hne⟩, hun⟩

/-- An inode that is no directory with links changes, and its names stay. -/
theorem WellLinked.change (h : WellLinked n I) (hi : J i = y) (hsame : ∀ e, e ≠ i → J e = I e) (hi0 : i ≠ 0)
    (hold : ¬ (I i).Live) (hnew : ¬ y.Live) (hzero : y.type = 0 → names n I i = 0)
    (hy : y.type ≠ 0 → i < n ∧ y.nlink = names n I i ∧ y.nlink ≤ 32767)
    (hdead : y.type = T_DIR → ∀ de ∈ y.entries, de.inum ≠ 0 → de.name = [46] ∨ de.name = [46, 46]) :
    WellLinked n J := by
  have hlive : ∀ e, (J e).Live ↔ (I e).Live := by
    intro e
    by_cases hei : e = i
    · rw [hei, hi]
      exact iff_of_false hnew hold
    · rw [hsame e hei]
  have heq : ∀ e, (I e).Live → J e = I e := by
    intro e he
    refine hsame e ?_
    rintro rfl
    exact hold he
  have hnames : ∀ j, names n J j = names n I j := by
    intro j
    unfold names
    apply Finset.sum_congr rfl
    intro e _
    by_cases he : (I e).Live
    · rw [heq e he]
    · rw [refs_of_not_live he, refs_of_not_live fun hl => he ((hlive e).mp hl)]
  refine { range := fun e he => ?range, small := fun e he => ?small, links := fun e he => ?links, root := ?root,
           dots := fun e he => ?dots, known := fun e j he hj hpos => ?known, dead := fun e he hnl => ?dead,
           home := fun c e hc he => ?home, upper := fun c hc hne => ?upper }
  case range =>
    by_cases hei : e = i
    · rw [hei, hi] at he
      rw [hei]
      exact ⟨Nat.pos_of_ne_zero hi0, (hy he).1⟩
    · exact h.range e (hsame e hei ▸ he)
  case small =>
    by_cases hei : e = i
    · rw [hei, hi] at he
      rw [hei, hi]
      exact (hy he).2.2
    · rw [hsame e hei] at he ⊢
      exact h.small e he
  case links =>
    rw [hnames]
    by_cases hei : e = i
    · rw [hei, hi] at he
      rw [hei, hi]
      exact (hy he).2.1
    · rw [hsame e hei] at he ⊢
      exact h.links e he
  case root =>
    rw [heq _ h.root.1]
    exact h.root
  case dots =>
    have he' := (hlive e).mp he
    rw [heq e he']
    exact h.dots e he'
  case known =>
    have he' := (hlive e).mp he
    rw [heq e he'] at hpos
    by_cases hji : j = i
    · rw [hji, hi]
      intro hfree
      have hrefs : (I e).refs i ≤ names n I i := refs_le_names (h.live_lt he') i
      rw [refs_eq he' (h.dots e he') hi0, hzero hfree] at hrefs
      rw [hji] at hpos
      omega
    rw [hsame j hji]
    exact h.known e j he' hj hpos
  case dead =>
    by_cases hei : e = i
    · rw [hei, hi] at he ⊢
      exact hdead he
    · rw [hsame e hei] at he hnl ⊢
      exact h.dead e he hnl
  case home =>
    have hc' := (hlive c).mp hc
    have he' := (hlive e).mp he
    rw [heq e he', heq c hc']
    exact h.home c e hc' he'
  case upper =>
    have hc' := (hlive c).mp hc
    obtain ⟨hul, hun⟩ := h.upper c hc' hne
    rw [heq c hc', hlive]
    exact ⟨hul, hun⟩

end xv6.sysfile
