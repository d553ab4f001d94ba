-- The inode table while a call runs. The references of files and current
-- directories stay as they are, and those of local variables come and go. An
-- inode without links is kept by one of the former, so what a path leads
-- through is never freed.
import SysNet.Xv6.LinkNames
import SysNet.Xv6.SysfileSpec

open triples

namespace xv6.sysfile

open xv6.fs (NINODE)

/-! ## Local variables -/

/-- A local variable that points to an entry of the table, with the number of the inode. It may be
that the inode was locked. -/
structure Var where
  e : Nat
  i : Nat
  locked : Bool

/-- The references of local variables to an entry. -/
def held (L : List Var) (e : Nat) : Nat := L.countP (·.e = e)

variable {s s' : State} {I J : Nat → Inode} {O : Nat → Entry} {P : Nat → Proc} {L L' : List Var}
  {v : Var} {x : Entry} {y : Inode} {X : Option Nat} {d e i j p c : Nat} {b : Bool}

theorem held_cons : held (v :: L) e = held L e + if v.e = e then 1 else 0 := by
  unfold held
  rw [List.countP_cons]
  simp only [decide_eq_true_eq]

theorem held_pos (hv : v ∈ L) : 0 < held L v.e :=
  List.countP_pos_iff.mpr ⟨v, hv, decide_eq_true rfl⟩

/-- The inodes are `I` and the processes are `P`. Local variables are `L`, and besides them files
and current directories hold the references `O`. -/
structure Table (I : Nat → Inode) (O : Nat → Entry) (P : Nat → Proc) (L : List Var) (s : State) : Prop where
  inodes : s.inodes = I
  procs : s.procs = P
  ref : ∀ e, (s.itable e).ref = (O e).ref + held L e
  inum : ∀ e, 0 < (O e).ref → (s.itable e).inum = (O e).inum
  vars : ∀ v ∈ L, (s.itable v.e).inum = v.i ∧ (v.locked = true → (s.itable v.e).valid = true)
  bound : ∀ e, 0 < (s.itable e).ref → e < NINODE
  unique : ∀ e e', 0 < (s.itable e).ref → 0 < (s.itable e').ref → (s.itable e).inum = (s.itable e').inum →
    e = e'
  valid : ∀ e, 0 < (s.itable e).ref → (s.itable e).valid = true → (I (s.itable e).inum).type ≠ 0
  /-- An inode without links was locked when it lost the last one. -/
  sure : ∀ e, 0 < (s.itable e).ref → (I (s.itable e).inum).type ≠ 0 → (I (s.itable e).inum).nlink = 0 →
    (s.itable e).valid = true

/-- What files and current directories point to is in use, and they point to all inodes without
links, up to one. -/
structure Outer (I : Nat → Inode) (O : Nat → Entry) (X : Option Nat) : Prop where
  nonneg : ∀ e, 0 ≤ (O e).ref
  used : ∀ e, 0 < (O e).ref → (I (O e).inum).type ≠ 0
  kept : ∀ i, X ≠ some i → (I i).type ≠ 0 → (I i).nlink = 0 → ∃ e, 0 < (O e).ref ∧ (O e).inum = i

theorem Outer.ref_pos (ho : Outer I O X) (h : Table I O P L s) (hv : v ∈ L) : 0 < (s.itable v.e).ref := by
  have href := h.ref v.e
  have hnonneg := ho.nonneg v.e
  have hheld := held_pos hv
  omega

/-- An outer reference is a reference. -/
theorem Table.outer_pos (h : Table I O P L s) (he : 0 < (O e).ref) : 0 < (s.itable e).ref := by
  rw [h.ref e]
  omega

theorem Table.inode_eq (h : Table I O P L s) (hv : v ∈ L) : s.inode v.e = I v.i := by
  unfold State.inode
  rw [h.inodes, (h.vars v hv).1]

/-- What is locked is in use. -/
theorem Table.type_ne_zero (h : Table I O P L s) (ho : Outer I O X) (hv : v ∈ L) (hlocked : v.locked = true) :
    (I v.i).type ≠ 0 := by
  obtain ⟨hinum, hvalid⟩ := h.vars v hv
  rw [← hinum]
  exact h.valid v.e (ho.ref_pos h hv) (hvalid hlocked)

theorem Table.perm (h : Table I O P L s) (hL : L.Perm L') : Table I O P L' s where
  inodes := h.inodes
  procs := h.procs
  ref e := by
    have hheld : held L' e = held L e := hL.symm.countP_eq _
    rw [hheld]
    exact h.ref e
  inum := h.inum
  vars v hv := h.vars v (hL.mem_iff.mpr hv)
  bound := h.bound
  unique := h.unique
  valid := h.valid
  sure := h.sure

theorem Table.swap {v w : Var} (h : Table I O P (v :: w :: L) s) : Table I O P (w :: v :: L) s :=
  h.perm (List.Perm.swap w v L)

/-- What is read through the local variables. -/
structure Seen (I : Nat → Inode) (L : List Var) (s : State) : Prop where
  inode : ∀ v ∈ L, s.inode v.e = I v.i
  inum : ∀ v ∈ L, (s.itable v.e).inum = v.i
  used : ∀ v ∈ L, v.locked = true → (I v.i).type ≠ 0

theorem Seen.head (h : Seen I (⟨e, i, b⟩ :: L) s) : s.inode e = I i := h.inode ⟨e, i, b⟩ List.mem_cons_self

theorem Seen.head_inum (h : Seen I (⟨e, i, b⟩ :: L) s) : (s.itable e).inum = i :=
  h.inum ⟨e, i, b⟩ List.mem_cons_self

theorem Seen.head_used (h : Seen I (⟨e, i, true⟩ :: L) s) : (I i).type ≠ 0 :=
  h.used ⟨e, i, true⟩ List.mem_cons_self rfl

theorem Seen.tail (h : Seen I (v :: L) s) : Seen I L s where
  inode w hw := h.inode w (List.mem_cons_of_mem _ hw)
  inum w hw := h.inum w (List.mem_cons_of_mem _ hw)
  used w hw := h.used w (List.mem_cons_of_mem _ hw)

theorem read_table {α : Type} {g : State → Kernel α} {R : α → State → Prop} (ho : Outer I O X)
    (h : ∀ s, Seen I L s → Triple (Table I O P L) (g s) R) : Triple (Table I O P L) (get >>= g) R := by
  intro s a s' hs heq
  have hseen : Seen I L s :=
    ⟨fun v hv => hs.inode_eq hv, fun v hv => (hs.vars v hv).1, fun v hv => hs.type_ne_zero ho hv⟩
  exact h s hseen s a s' hs (ok_of_get heq)

/-- It does not matter that the inode was locked. -/
theorem Table.unlock (h : Table I O P (⟨e, i, b⟩ :: L) s) : Table I O P (⟨e, i, false⟩ :: L) s where
  inodes := h.inodes
  procs := h.procs
  ref e' := by
    rw [h.ref e', held_cons, held_cons]
  inum := h.inum
  vars v hv := by
    rcases List.mem_cons.mp hv with rfl | hv
    · exact ⟨(h.vars ⟨e, i, b⟩ List.mem_cons_self).1, fun hl => nomatch hl⟩
    · exact h.vars v (List.mem_cons_of_mem _ hv)
  bound := h.bound
  unique := h.unique
  valid := h.valid
  sure := h.sure

/-- Local variables become files and current directories. -/
theorem Table.settle (h : Table I O P L s) (ho : Outer I O none) (hL : ∀ v ∈ L, (I v.i).type ≠ 0) :
    Table I s.itable P [] s ∧ Outer I s.itable none := by
  refine ⟨⟨h.inodes, h.procs, fun e => (Int.add_zero _).symm, fun _ _ => rfl, (fun v hv => nomatch hv), h.bound,
    h.unique, h.valid, h.sure⟩, fun e => ?_, fun e hpos => ?_, fun i _ htype hnlink => ?_⟩
  · have href := h.ref e
    have hnonneg := ho.nonneg e
    omega
  · by_cases houter : 0 < (O e).ref
    · rw [h.inum e houter]
      exact ho.used e houter
    · have href := h.ref e
      have hheld : 0 < L.countP (·.e = e) := by
        unfold held at href
        omega
      obtain ⟨v, hv, hve⟩ := List.countP_pos_iff.mp hheld
      rw [← of_decide_eq_true hve, (h.vars v hv).1]
      exact hL v hv
  · obtain ⟨e, hpos, hinum⟩ := ho.kept i (fun hX => nomatch hX) htype hnlink
    exact ⟨e, h.outer_pos hpos, (h.inum e hpos).trans hinum⟩

/-- A reference of a file or of a current directory becomes that of a local variable. -/
theorem Table.take (h : Table I O P L s) (hpos : 0 < (O e).ref) :
    Table I (Function.update O e { O e with ref := (O e).ref - 1 }) P (⟨e, (O e).inum, false⟩ :: L) s where
  inodes := h.inodes
  procs := h.procs
  ref e' := by
    rw [held_cons]
    by_cases he : e' = e
    · rw [he, Function.update_self, if_pos rfl, h.ref e]
      simp only
      omega
    · rw [Function.update_of_ne he, if_neg (Ne.symm he)]
      exact h.ref e'
  inum e' hpos' := by
    by_cases he : e' = e
    · rw [he, Function.update_self]
      exact h.inum e hpos
    · rw [Function.update_of_ne he] at hpos' ⊢
      exact h.inum e' hpos'
  vars v hv := by
    rcases List.mem_cons.mp hv with rfl | hv
    · exact ⟨h.inum e hpos, fun hl => nomatch hl⟩
    · exact h.vars v hv
  bound := h.bound
  unique := h.unique
  valid := h.valid
  sure := h.sure

theorem Outer.take (ho : Outer I O none) (hpos : 0 < (O e).ref) :
    Outer I (Function.update O e { O e with ref := (O e).ref - 1 }) (some (O e).inum) where
  nonneg e' := by
    by_cases he : e' = e
    · rw [he, Function.update_self]
      simp only
      omega
    · rw [Function.update_of_ne he]
      exact ho.nonneg e'
  used e' hpos' := by
    by_cases he : e' = e
    · rw [he, Function.update_self]
      exact ho.used e hpos
    · rw [Function.update_of_ne he] at hpos' ⊢
      exact ho.used e' hpos'
  kept i hi htype hnlink := by
    obtain ⟨e', hpos', hinum⟩ := ho.kept i (fun hX => nomatch hX) htype hnlink
    have he : e' ≠ e := by
      rintro rfl
      exact hi (congrArg some hinum)
    refine ⟨e', ?_⟩
    rw [Function.update_of_ne he]
    exact ⟨hpos', hinum⟩

/-! ## Changes -/

/-- One entry changes. -/
theorem Table.setEntry (h : Table I O P L s) (href : x.ref = (O e).ref + held L' e)
    (hother : ∀ e', e' ≠ e → held L' e' = held L e') (hlt : e < NINODE)
    (hinum : 0 < (O e).ref → x.inum = (s.itable e).inum)
    (halone : ∀ e', e' ≠ e → 0 < x.ref → 0 < (s.itable e').ref → (s.itable e').inum ≠ x.inum)
    (hvars : ∀ v ∈ L', v.e ≠ e ∧ v ∈ L ∨ v.e = e ∧ x.inum = v.i ∧ (v.locked = true → x.valid = true))
    (hvalid : 0 < x.ref → x.valid = true → (I x.inum).type ≠ 0)
    (hsure : 0 < x.ref → (I x.inum).type ≠ 0 → (I x.inum).nlink = 0 → x.valid = true) :
    Table I O P L' (s.setEntry e x) where
  inodes := h.inodes
  procs := h.procs
  ref e' := by
    rw [setEntry_itable]
    by_cases he : e' = e
    · rw [he, Function.update_self]
      exact href
    · rw [Function.update_of_ne he, hother e' he]
      exact h.ref e'
  inum e' hpos := by
    rw [setEntry_itable]
    by_cases he : e' = e
    · rw [he] at hpos ⊢
      rw [Function.update_self, hinum hpos]
      exact h.inum e hpos
    · rw [Function.update_of_ne he]
      exact h.inum e' hpos
  vars v hv := by
    rw [setEntry_itable]
    obtain ⟨he, hold⟩ | ⟨he, hnew⟩ := hvars v hv
    · rw [Function.update_of_ne he]
      exact h.vars v hold
    · rw [he, Function.update_self]
      exact hnew
  bound e' := by
    rw [setEntry_itable]
    by_cases he : e' = e
    · rw [he]
      exact fun _ => hlt
    · rw [Function.update_of_ne he]
      exact h.bound e'
  unique e₁ e₂ := by
    rw [setEntry_itable]
    by_cases h₁ : e₁ = e
    · by_cases h₂ : e₂ = e
      · exact fun _ _ _ => h₁.trans h₂.symm
      · rw [h₁, Function.update_self, Function.update_of_ne h₂]
        exact fun hx hpos heq => absurd heq.symm (halone e₂ h₂ hx hpos)
    · by_cases h₂ : e₂ = e
      · rw [h₂, Function.update_self, Function.update_of_ne h₁]
        exact fun hpos hx heq => absurd heq (halone e₁ h₁ hx hpos)
      · rw [Function.update_of_ne h₁, Function.update_of_ne h₂]
        exact h.unique e₁ e₂
  valid e' := by
    rw [setEntry_itable]
    by_cases he : e' = e
    · rw [he, Function.update_self]
      exact hvalid
    · rw [Function.update_of_ne he]
      exact h.valid e'
  sure e' := by
    rw [setEntry_itable]
    by_cases he : e' = e
    · rw [he, Function.update_self]
      exact hsure
    · rw [Function.update_of_ne he]
      exact h.sure e'

/-- The entry is the only one for its inode. -/
theorem Table.alone (h : Table I O P L s) (hpos : 0 < (s.itable e).ref) (e' : Nat) (hne : e' ≠ e)
    (hpos' : 0 < (s.itable e').ref) : (s.itable e').inum ≠ (s.itable e).inum := fun heq =>
  hne (h.unique e' e hpos' hpos heq)

theorem iget_table (ho : Outer I O none) :
    Triple (Table I O P L) (iget i) fun e => Table I O P (⟨e, i, false⟩ :: L) := by
  intro s e s' hs heq
  have hself : held (⟨e, i, false⟩ :: L) e = held L e + 1 := by rw [held_cons, if_pos rfl]
  have hother : ∀ e', e' ≠ e → held (⟨e, i, false⟩ :: L) e' = held L e' := fun e' he' => by
    rw [held_cons, if_neg (Ne.symm he')]
    rfl
  have href := hs.ref e
  obtain ⟨hlt, ⟨hpos, hinum, rfl⟩ | ⟨hzero, hnone, rfl⟩⟩ := iget_cases heq
  · refine hs.setEntry (by simp only; omega) hother hlt (fun _ => rfl)
      (fun e' hne _ => hs.alone hpos e' hne) (fun v hv => ?_) (fun _ => hs.valid e hpos) fun _ => hs.sure e hpos
    rcases List.mem_cons.mp hv with rfl | hv
    · exact Or.inr ⟨rfl, hinum, fun hl => nomatch hl⟩
    · by_cases hve : v.e = e
      · have hold := hs.vars v hv
        rw [hve] at hold
        exact Or.inr ⟨hve, hold⟩
      · exact Or.inl ⟨hve, hv⟩
  · have hnonneg := ho.nonneg e
    have hnew : ∀ e', 0 < (s.itable e').ref → (s.itable e').inum ≠ i := fun e' hpos =>
      hnone e' (hs.bound e' hpos) hpos
    refine hs.setEntry (by simp only; omega) hother hlt (fun hpos => ?_) (fun e' _ _ => hnew e')
      (fun v hv => ?_) (fun _ hvalid => nomatch hvalid) fun _ htype hnlink => ?_
    · omega
    · rcases List.mem_cons.mp hv with rfl | hold
      · exact Or.inr ⟨rfl, rfl, fun hl => nomatch hl⟩
      · refine Or.inl ⟨?_, hold⟩
        rintro rfl
        have := held_pos hold
        omega
    -- an inode without links has an entry already
    · obtain ⟨e', hpos, hinum⟩ := ho.kept i (fun hX => nomatch hX) htype hnlink
      exact absurd ((hs.inum e' hpos).trans hinum) (hnew e' (hs.outer_pos hpos))

theorem idup_table (ho : 0 < (O e).ref ∧ (O e).inum = i) :
    Triple (Table I O P L) (idup e) fun _ => Table I O P (⟨e, i, false⟩ :: L) := by
  intro s u s' hs heq
  rw [idup_eq heq]
  have hpos := hs.outer_pos ho.1
  have href := hs.ref e
  have hself : held (⟨e, i, false⟩ :: L) e = held L e + 1 := by rw [held_cons, if_pos rfl]
  refine hs.setEntry (by simp only; omega) (fun e' he' => ?_) (hs.bound e hpos) (fun _ => rfl)
    (fun e' hne _ => hs.alone hpos e' hne) (fun v hv => ?_) (fun _ => hs.valid e hpos) fun _ => hs.sure e hpos
  · rw [held_cons, if_neg (Ne.symm he')]
    rfl
  · rcases List.mem_cons.mp hv with rfl | hv
    · exact Or.inr ⟨rfl, (hs.inum e ho.1).trans ho.2, fun hl => nomatch hl⟩
    · by_cases hve : v.e = e
      · have hold := hs.vars v hv
        rw [hve] at hold
        exact Or.inr ⟨hve, hold⟩
      · exact Or.inl ⟨hve, hv⟩

theorem ilock_table :
    Triple (Table I O P (⟨e, i, b⟩ :: L)) (ilock e) fun _ => Table I O P (⟨e, i, true⟩ :: L) := by
  intro s u s' hs heq
  obtain ⟨hpos, ⟨hvalid, rfl⟩ | ⟨htype, rfl⟩⟩ := ilock_cases heq
  · refine ⟨hs.inodes, hs.procs, fun e' => ?_, hs.inum, fun v hv => ?_, hs.bound, hs.unique, hs.valid, hs.sure⟩
    · rw [hs.ref e', held_cons, held_cons]
    · rcases List.mem_cons.mp hv with rfl | hv
      · exact ⟨(hs.vars ⟨e, i, b⟩ List.mem_cons_self).1, fun _ => hvalid⟩
      · exact hs.vars v (List.mem_cons_of_mem _ hv)
  · have hheld : ∀ e', held (⟨e, i, true⟩ :: L) e' = held (⟨e, i, b⟩ :: L) e' := fun e' => by
      rw [held_cons, held_cons]
    have htype' : (I (s.itable e).inum).type ≠ 0 := by
      unfold State.inode at htype
      rw [hs.inodes] at htype
      exact htype
    refine hs.setEntry ?_ (fun e' _ => hheld e') (hs.bound e hpos) (fun _ => rfl)
      (fun e' hne _ => hs.alone hpos e' hne) (fun v hv => ?_) (fun _ _ => htype') fun _ _ _ => rfl
    · rw [hheld]
      exact hs.ref e
    · rcases List.mem_cons.mp hv with rfl | hv
      · exact Or.inr ⟨rfl, (hs.vars ⟨e, i, b⟩ List.mem_cons_self).1, fun _ => rfl⟩
      · by_cases hve : v.e = e
        · have hold := hs.vars v (List.mem_cons_of_mem _ hv)
          rw [hve] at hold
          exact Or.inr ⟨hve, hold.1, fun _ => rfl⟩
        · exact Or.inl ⟨hve, List.mem_cons_of_mem _ hv⟩

/-- A reference is given back, and the inode is not freed. -/
theorem Table.release (h : Table I O P (v :: L) s) (ho : Outer I O X) :
    Table I O P L (s.setEntry v.e { s.itable v.e with ref := (s.itable v.e).ref - 1 }) := by
  have hpos := ho.ref_pos h List.mem_cons_self
  have href := h.ref v.e
  rw [held_cons, if_pos rfl] at href
  refine h.setEntry ?_ (fun e' he' => ?_) (h.bound v.e hpos) (fun _ => rfl)
    (fun e' hne _ => h.alone hpos e' hne) (fun w hw => ?_) (fun _ => h.valid v.e hpos) fun _ => h.sure v.e hpos
  · simp only
    omega
  · rw [held_cons, if_neg (Ne.symm he')]
    rfl
  · by_cases hwe : w.e = v.e
    · have hold := h.vars w (List.mem_cons_of_mem _ hw)
      rw [hwe] at hold
      exact Or.inr ⟨hwe, hold⟩
    · exact Or.inl ⟨hwe, List.mem_cons_of_mem _ hw⟩

/-- An inode without links that nobody else points to. -/
theorem Table.last (h : Table I O P (v :: L) s) (ho : Outer I O X) (hone : (s.itable v.e).ref = 1)
    (hnlink : (s.inode v.e).nlink = 0) (hvalid : (s.itable v.e).valid = true) : X = some v.i := by
  by_contra hX
  have hpos := ho.ref_pos h List.mem_cons_self
  have htype := h.valid v.e hpos hvalid
  rw [h.inode_eq List.mem_cons_self] at hnlink
  rw [(h.vars v List.mem_cons_self).1] at htype
  obtain ⟨e', hpos', hinum'⟩ := ho.kept v.i hX htype hnlink
  have heq : e' = v.e := by
    refine h.unique e' v.e (h.outer_pos hpos') hpos ?_
    rw [h.inum e' hpos', hinum', (h.vars v List.mem_cons_self).1]
  have href := h.ref v.e
  rw [held_cons, if_pos rfl] at href
  rw [heq] at hpos'
  omega

theorem iput_table (ho : Outer I O none) : Triple (Table I O P (v :: L)) (iput v.e) fun _ => Table I O P L := by
  intro s u s' hs heq
  obtain ⟨hone, hvalid, hnlink, -⟩ | ⟨-, rfl⟩ := iput_cases heq
  · exact nomatch hs.last ho hone hnlink hvalid
  · exact hs.release ho

/-- A reference was given back. Without links and without other references the inode was freed. -/
structure Released (I J : Nat → Inode) (i : Nat) : Prop where
  same : ∀ j, j ≠ i → J j = I j
  inode : J i = I i ∨ (I i).type ≠ 0 ∧ (I i).nlink = 0 ∧ J i = { (I i).truncated with type := 0 }

/-- What an inode is freed to. -/
theorem Released.eq_or (h : Released I J i) :
    J = I ∨ (I i).type ≠ 0 ∧ (I i).nlink = 0 ∧ J = Function.update I i { (I i).truncated with type := 0 } := by
  obtain hi | ⟨htype, hnlink, hi⟩ := h.inode
  · refine Or.inl (funext fun j => ?_)
    by_cases hj : j = i
    · rw [hj, hi]
    · exact h.same j hj
  · refine Or.inr ⟨htype, hnlink, funext fun j => ?_⟩
    by_cases hj : j = i
    · rw [hj, hi, Function.update_self]
    · rw [Function.update_of_ne hj, h.same j hj]

/-- The last reference was given back, and the inode changes. -/
theorem Table.free {z : Inode} (h : Table I O P (⟨e, i, b⟩ :: L) s) (hpos : 0 < (s.itable e).ref)
    (hzero : (O e).ref = 0) (hnone : held L e = 0) (hx : x.ref = 0) :
    Table (Function.update I i z) O P L ((s.setInode i z).setEntry e x) := by
  have hinum : (s.itable e).inum = i := (h.vars ⟨e, i, b⟩ List.mem_cons_self).1
  have hitable : ((s.setInode i z).setEntry e x).itable = Function.update s.itable e x := rfl
  have hentry : ∀ e', e' ≠ e → Function.update s.itable e x e' = s.itable e' := fun e' hne =>
    Function.update_of_ne hne ..
  have hkeeps : ∀ e', 0 < (Function.update s.itable e x e').ref → e' ≠ e := by
    rintro e' hpos' rfl
    rw [Function.update_self] at hpos'
    omega
  -- no other entry is for this inode
  have hrest : ∀ e', e' ≠ e → 0 < (s.itable e').ref → (s.itable e').inum ≠ i := fun e' hne hpos' =>
    hinum ▸ h.alone hpos e' hne hpos'
  refine ⟨?_, h.procs, fun e' => ?_, fun e' hpos' => ?_, fun v hv => ?_, fun e' hpos' => ?_,
    fun e₁ e₂ h₁ h₂ => ?_, fun e' hpos' => ?_, fun e' hpos' => ?_⟩
  · change Function.update s.inodes _ _ = _
    rw [h.inodes]
  · rw [hitable]
    by_cases hne : e' = e
    · rw [hne, Function.update_self, hnone]
      omega
    · rw [hentry e' hne, h.ref e', held_cons, if_neg (Ne.symm hne)]
      rfl
  · have hne : e' ≠ e := by
      rintro rfl
      omega
    rw [hitable, hentry e' hne]
    exact h.inum e' hpos'
  · have hne : v.e ≠ e := by
      intro hve
      have := held_pos hv
      rw [hve] at this
      omega
    rw [hitable, hentry v.e hne]
    exact h.vars v (List.mem_cons_of_mem _ hv)
  · rw [hitable] at hpos'
    have hne := hkeeps e' hpos'
    rw [hentry e' hne] at hpos'
    exact h.bound e' hpos'
  · rw [hitable] at h₁ h₂ ⊢
    have hne₁ := hkeeps e₁ h₁
    have hne₂ := hkeeps e₂ h₂
    rw [hentry e₁ hne₁] at h₁ ⊢
    rw [hentry e₂ hne₂] at h₂ ⊢
    exact h.unique e₁ e₂ h₁ h₂
  · rw [hitable] at hpos' ⊢
    have hne := hkeeps e' hpos'
    rw [hentry e' hne] at hpos' ⊢
    rw [Function.update_of_ne (hrest e' hne hpos')]
    exact h.valid e' hpos'
  · rw [hitable] at hpos' ⊢
    have hne := hkeeps e' hpos'
    rw [hentry e' hne] at hpos' ⊢
    rw [Function.update_of_ne (hrest e' hne hpos')]
    exact h.sure e' hpos'

/-- An inode that nothing outside points to is freed. -/
theorem Outer.free {z : Inode} (ho : Outer I O (some i)) (hother : ∀ e, 0 < (O e).ref → (O e).inum ≠ i)
    (hz : z.type = 0) : Outer (Function.update I i z) O none where
  nonneg := ho.nonneg
  used e hpos := by
    rw [Function.update_of_ne (hother e hpos)]
    exact ho.used e hpos
  kept j _ htype hnlink := by
    by_cases hj : j = i
    · rw [hj, Function.update_self] at htype
      exact absurd hz htype
    · rw [Function.update_of_ne hj] at htype hnlink
      exact ho.kept j (fun hX => hj (Option.some.inj hX).symm) htype hnlink

/-- The reference may be the last one. -/
theorem iput_last (ho : Outer I O (some i)) (hL : ∀ v ∈ L, v.i ≠ i) :
    Triple (Table I O P (⟨e, i, b⟩ :: L)) (iput e) fun _ s =>
      ∃ J, (Released I J i ∧ Outer J O none) ∧ Table J O P L s := by
  intro s u s' hs heq
  have hinum : (s.itable e).inum = i := (hs.vars ⟨e, i, b⟩ List.mem_cons_self).1
  have hinode : s.inode e = I i := hs.inode_eq (v := ⟨e, i, b⟩) List.mem_cons_self
  have hpos : 0 < (s.itable e).ref := ho.ref_pos hs (v := ⟨e, i, b⟩) List.mem_cons_self
  have href := hs.ref e
  have hnone : held L e = 0 := by
    refine List.countP_eq_zero.mpr fun v hv => ?_
    simp only [decide_eq_true_eq]
    intro hve
    have hv' := (hs.vars v (List.mem_cons_of_mem _ hv)).1
    rw [hve] at hv'
    exact hL v hv (hv'.symm.trans hinum)
  have hnonneg := ho.nonneg e
  rw [held_cons, if_pos rfl, hnone] at href
  obtain ⟨hone, hvalid, hnlink, rfl⟩ | ⟨hmore, rfl⟩ := iput_cases heq
  · rw [hinode] at hnlink ⊢
    have htype := hs.valid e hpos hvalid
    rw [hinum] at htype ⊢
    have hzero : (O e).ref = 0 := by omega
    have hother : ∀ e', 0 < (O e').ref → (O e').inum ≠ i := by
      intro e' hpos' hinum'
      have heq : e' = e := by
        refine hs.unique e' e (hs.outer_pos hpos') hpos ?_
        rw [hs.inum e' hpos', hinum', hinum]
      rw [heq] at hpos'
      omega
    refine ⟨Function.update I i { (I i).truncated with type := 0 },
      ⟨⟨fun j hj => Function.update_of_ne hj .., ?_⟩, ho.free hother rfl⟩, hs.free hpos hzero hnone ?_⟩
    · exact Or.inr ⟨htype, hnlink, Function.update_self ..⟩
    · simp only
      omega
  · refine ⟨I, ⟨⟨fun _ _ => rfl, Or.inl rfl⟩, ho.nonneg, ho.used, fun j _ htype hnlink => ?_⟩,
      hs.release (v := ⟨e, i, b⟩) ho⟩
    by_cases hj : j = i
    · rw [hj] at htype hnlink
      have hvalid := hs.sure e hpos (hinum ▸ htype) (hinum ▸ hnlink)
      have hne : (s.itable e).ref ≠ 1 := fun hone => hmore ⟨hone, hvalid, hinode ▸ hnlink⟩
      have houter : 0 < (O e).ref := by omega
      exact ⟨e, houter, (hs.inum e houter).symm.trans (hinum.trans hj.symm)⟩
    · exact ho.kept j (fun hX => hj (Option.some.inj hX).symm) htype hnlink

/-! ## Inodes -/

theorem update_type (h : y.type = (I i).type) : (Function.update I i y j).type = (I j).type := by
  by_cases hj : j = i
  · rw [hj, Function.update_self, h]
  · rw [Function.update_of_ne hj]

theorem update_nlink (h : y.nlink = (I i).nlink) : (Function.update I i y j).nlink = (I j).nlink := by
  by_cases hj : j = i
  · rw [hj, Function.update_self, h]
  · rw [Function.update_of_ne hj]

/-- An inode changes that a local variable has locked. -/
theorem setInodeOf_table (ho : Outer I O X) (hv : ⟨e, i, true⟩ ∈ L) (htype : y.type ≠ 0) :
    Triple (Table I O P L) (setInodeOf e y) fun _ => Table (Function.update I i y) O P L := by
  intro s u s' hs heq
  have hpos : 0 < (s.itable e).ref := ho.ref_pos hs hv
  obtain ⟨hinum, hvalid⟩ := hs.vars _ hv
  simp only at hinum
  rw [setInodeOf_eq heq, hinum]
  refine ⟨?_, hs.procs, hs.ref, hs.inum, hs.vars, hs.bound, hs.unique, fun e' hpos' hvalid' => ?_,
    fun e' hpos' htype' hnlink' => ?_⟩
  · rw [setInode_inodes, hs.inodes]
  · by_cases hi : (s.itable e').inum = i
    · change (Function.update I i y (s.itable e').inum).type ≠ 0
      rw [hi, Function.update_self]
      exact htype
    · change (Function.update I i y (s.itable e').inum).type ≠ 0
      rw [Function.update_of_ne hi]
      exact hs.valid e' hpos' hvalid'
  · by_cases hi : (s.itable e').inum = i
    · rw [show e' = e from hs.unique e' e hpos' hpos (hi.trans hinum.symm)]
      exact hvalid rfl
    · change (Function.update I i y (s.itable e').inum).type ≠ 0 at htype'
      change (Function.update I i y (s.itable e').inum).nlink = 0 at hnlink'
      rw [Function.update_of_ne hi] at htype' hnlink'
      exact hs.sure e' hpos' htype' hnlink'

/-- An inode that has links, or had none before, or may be without references. -/
theorem Outer.update (ho : Outer I O none) (htype : y.type ≠ 0)
    (hX : y.nlink = 0 → X = some i ∨ (I i).type ≠ 0 ∧ (I i).nlink = 0) : Outer (Function.update I i y) O X where
  nonneg := ho.nonneg
  used e hpos := by
    by_cases hi : (O e).inum = i
    · rw [hi, Function.update_self]
      exact htype
    · rw [Function.update_of_ne hi]
      exact ho.used e hpos
  kept j hj htype' hnlink := by
    by_cases hi : j = i
    · rw [hi, Function.update_self] at hnlink
      obtain rfl | ⟨htype'', hnlink''⟩ := hX hnlink
      · exact absurd (congrArg some hi.symm) hj
      · rw [hi]
        exact ho.kept i (fun hX => nomatch hX) htype'' hnlink''
    · rw [Function.update_of_ne hi] at htype' hnlink
      exact ho.kept j (fun hX => nomatch hX) htype' hnlink

/-- An inode changes whose type and links stay. -/
theorem Table.retouch (h : Table I O P L s) (htype : y.type = (I i).type) (hnlink : y.nlink = (I i).nlink) :
    Table (Function.update I i y) O P L (s.setInode i y) where
  inodes := by rw [setInode_inodes, h.inodes]
  procs := h.procs
  ref := h.ref
  inum := h.inum
  vars := h.vars
  bound := h.bound
  unique := h.unique
  valid e hpos hvalid := by
    rw [update_type htype]
    exact h.valid e hpos hvalid
  sure e hpos htype' hnlink' := by
    rw [update_type htype] at htype'
    rw [update_nlink hnlink] at hnlink'
    exact h.sure e hpos htype' hnlink'

theorem Outer.retouch (ho : Outer I O X) (htype : y.type = (I i).type) (hnlink : y.nlink = (I i).nlink) :
    Outer (Function.update I i y) O X where
  nonneg := ho.nonneg
  used e hpos := by
    rw [update_type htype]
    exact ho.used e hpos
  kept j hj htype' hnlink' := by
    rw [update_type htype] at htype'
    rw [update_nlink hnlink] at hnlink'
    exact ho.kept j hj htype' hnlink'

/-! ## New inodes -/

@[simp] theorem setInode_itable : (s.setInode i y).itable = s.itable := rfl

/-- An inode that no entry is for changes. -/
theorem Table.setInode (h : Table I O P L s) (hnone : ∀ e, 0 < (s.itable e).ref → (s.itable e).inum ≠ i) :
    Table (Function.update I i y) O P L (s.setInode i y) where
  inodes := by rw [setInode_inodes, h.inodes]
  procs := h.procs
  ref := h.ref
  inum := h.inum
  vars := h.vars
  bound := h.bound
  unique := h.unique
  valid e hpos := by
    rw [setInode_itable] at hpos ⊢
    rw [Function.update_of_ne (hnone e hpos)]
    exact h.valid e hpos
  sure e hpos := by
    rw [setInode_itable] at hpos ⊢
    rw [Function.update_of_ne (hnone e hpos)]
    exact h.sure e hpos

/-- A free inode has a type and a new entry now. -/
def Fresh (I : Nat → Inode) (O : Nat → Entry) (P : Nat → Proc) (L : List Var) (e i type : Nat) (valid : Bool)
    (s : State) : Prop :=
  ∃ t, Table I O P L t ∧ e < NINODE ∧ (t.itable e).ref = 0 ∧
    (∀ e', 0 < (t.itable e').ref → (t.itable e').inum ≠ i) ∧
    s = (t.setInode i ⟨type, 0, 0, 0, []⟩).setEntry e ⟨i, 1, valid⟩

theorem Fresh.itable {type : Nat} (h : Fresh I O P L e i type b s) : s.itable e = ⟨i, 1, b⟩ := by
  obtain ⟨t, -, -, -, -, rfl⟩ := h
  exact Function.update_self ..

theorem read_fresh {α : Type} {type : Nat} {g : State → Kernel α} {R : α → State → Prop}
    (h : ∀ s, s.inode e = ⟨type, 0, 0, 0, []⟩ → Triple (Fresh I O P L e i type b) (g s) R) :
    Triple (Fresh I O P L e i type b) (get >>= g) R := by
  intro s a s' hs heq
  have hinode : s.inode e = ⟨type, 0, 0, 0, []⟩ := by
    unfold State.inode
    rw [hs.itable]
    obtain ⟨t, -, -, -, -, rfl⟩ := hs
    exact Function.update_self ..
  exact h s hinode s a s' hs (ok_of_get heq)

/-- The inode of a local variable that has it locked is not free. -/
theorem ialloc_table {sb : Superblock} {type : Nat} (ho : Outer I O none) (hL : ∀ v ∈ L, v.locked = true) :
    Triple (Table I O P L) (ialloc sb type) fun r s => match r with
      | none => Table I O P L s
      | some e => ∃ i, (0 < i ∧ i < sb.ninodes ∧ (I i).type = 0) ∧ Fresh I O P L e i type false s := by
  intro s r s' hs heq
  obtain ⟨rfl, rfl⟩ | ⟨e, i, rfl, hi0, hi, hfree, hget⟩ := ialloc_cases heq
  · exact hs
  rw [hs.inodes] at hfree
  have hnone : ∀ e', 0 < (s.itable e').ref → (s.itable e').inum ≠ i := by
    intro e' hpos hinum
    have href := hs.ref e'
    by_cases houter : 0 < (O e').ref
    · refine ho.used e' houter ?_
      rw [← hs.inum e' houter, hinum]
      exact hfree
    · have hheld : 0 < L.countP (·.e = e') := by
        unfold held at href
        omega
      obtain ⟨v, hv, hve⟩ := List.countP_pos_iff.mp hheld
      have hvi := (hs.vars v hv).1
      rw [of_decide_eq_true hve, hinum] at hvi
      exact hs.type_ne_zero ho hv (hL v hv) (hvi ▸ hfree)
  obtain ⟨hlt, ⟨hpos, hinum, -⟩ | ⟨hzero, -, rfl⟩⟩ := iget_cases hget
  · exact absurd hinum (hnone e hpos)
  · exact ⟨i, ⟨hi0, hi, hfree⟩, s, hs, hlt, hzero, hnone, rfl⟩

theorem ilock_fresh {type : Nat} :
    Triple (Fresh I O P L e i type b) (ilock e) fun _ => Fresh I O P L e i type true := by
  intro s u s' hs heq
  obtain ⟨-, ⟨hvalid, rfl⟩ | ⟨-, rfl⟩⟩ := ilock_cases heq
  · rw [hs.itable] at hvalid
    simp only at hvalid
    rwa [hvalid] at hs
  · rw [hs.itable]
    obtain ⟨t, ht, hlt, hzero, hnone, rfl⟩ := hs
    refine ⟨t, ht, hlt, hzero, hnone, ?_⟩
    unfold State.setEntry State.setInode
    simp only [Function.update_idem]

/-- The new inode has a link now. -/
theorem setInodeOf_fresh {type : Nat} (ho : Outer I O none) (htype : y.type ≠ 0) :
    Triple (Fresh I O P L e i type true) (setInodeOf e y) fun _ =>
      Table (Function.update I i y) O P (⟨e, i, true⟩ :: L) := by
  intro s u s' hs heq
  rw [setInodeOf_eq heq, hs.itable]
  obtain ⟨t, ht, hlt, hzero, hnone, rfl⟩ := hs
  have hstate : ((t.setInode i ⟨type, 0, 0, 0, []⟩).setEntry e ⟨i, 1, true⟩).setInode i y =
      (t.setInode i y).setEntry e ⟨i, 1, true⟩ := by
    unfold State.setEntry State.setInode
    simp only [Function.update_idem]
  rw [hstate]
  have ht' : Table (Function.update I i y) O P L (t.setInode i y) := ht.setInode hnone
  have href := ht.ref e
  have hnonneg := ho.nonneg e
  have hself : held (⟨e, i, true⟩ :: L) e = held L e + 1 := by rw [held_cons, if_pos rfl]
  refine ht'.setEntry (by simp only; omega) (fun e' he' => ?_) hlt (fun hpos => ?_) (fun e' _ _ => hnone e')
    (fun v hv => ?_) (fun _ _ => ?_) fun _ _ _ => rfl
  · rw [held_cons, if_neg (Ne.symm he')]
    rfl
  · omega
  · rcases List.mem_cons.mp hv with rfl | hold
    · exact Or.inr ⟨rfl, rfl, fun _ => rfl⟩
    · refine Or.inl ⟨?_, hold⟩
      rintro rfl
      have := held_pos hold
      omega
  · rw [Function.update_self]
    exact htype

/-! ## Directories -/

theorem dirlookup_table {name : Name} (ho : Outer I O none) (hv : ⟨e, d, b⟩ ∈ L) :
    Triple (Table I O P L) (dirlookup e name) fun r s => (I d).type = T_DIR ∧ match r with
      | none => (I d).slot name = none ∧ Table I O P L s
      | some (e', k) => (I d).slot name = some k ∧ Table I O P (⟨e', (I d).inumAt k, false⟩ :: L) s := by
  intro s r s' hs heq
  have hinode : s.inode e = I d := hs.inode_eq hv
  obtain ⟨htype, ⟨hslot, rfl, rfl⟩ | ⟨e', k, hslot, rfl, hget⟩⟩ := dirlookup_cases heq
  · rw [hinode] at htype hslot
    exact ⟨htype, hslot, hs⟩
  · rw [hinode] at htype hslot hget
    exact ⟨htype, hslot, iget_table ho s e' s' hs hget⟩

theorem link_same {de : Dirent} {room : Bool} {z : Inode} (h : y.link de room = some z) :
    z.type = y.type ∧ z.nlink = y.nlink := by
  unfold Inode.link at h
  split at h
  · obtain rfl := Option.some.inj h
    exact ⟨rfl, rfl⟩
  · split at h
    · obtain rfl := Option.some.inj h
      exact ⟨rfl, rfl⟩
    · cases h

theorem dirlink_table {name : Name} {inum : Nat} {room : Bool} (ho : Outer I O none) (hv : ⟨e, d, true⟩ ∈ L) :
    Triple (Table I O P L) (dirlink e name inum room) fun r s => match r with
      | false => Table I O P L s
      | true => ∃ y, ((I d).slot name = none ∧ (I d).type = T_DIR ∧
          (I d).link ⟨inum % 65536, name⟩ room = some y) ∧ Table (Function.update I d y) O P L s := by
  intro s r s' hs heq
  have hinode : s.inode e = I d := hs.inode_eq hv
  obtain ⟨e', k, s₁, hlookup, hput, rfl⟩ | ⟨htype, hslot, ⟨rfl, rfl⟩ | ⟨y, hlink, rfl, rfl⟩⟩ :=
    dirlink_cases heq
  · obtain ⟨-, -, hs₁⟩ := dirlookup_table ho hv s _ s₁ hs hlookup
    exact iput_table (v := ⟨e', (I d).inumAt k, false⟩) ho s₁ () s' hs₁ hput
  · exact hs
  · rw [hinode] at htype hslot hlink
    refine ⟨y, ⟨hslot, htype, hlink⟩, ?_⟩
    have hy : y.type ≠ 0 := by
      rw [(link_same hlink).1, htype]
      decide
    exact setInodeOf_table ho hv hy s () _ hs rfl

/-! ## Paths -/

/-- Where a path leads, from a directory. -/
def walk (I : Nat → Inode) (parent : Bool) (i : Nat) : List Name → Option (Nat × Name)
  | [] => if parent then none else some (i, [])
  | name :: path =>
    if (I i).type ≠ T_DIR then none
    else if parent ∧ path = [] then some (i, name)
    else
      match (I i).slot name with
      | none => none
      | some k => walk I parent ((I i).inumAt k) path

/-- The state after a path: nothing was found, or an entry for the inode that it leads to. -/
def Found (I : Nat → Inode) (O : Nat → Entry) (P : Nat → Proc) (L : List Var) (target : Option (Nat × Name))
    (r : Option (Nat × Name)) (s : State) : Prop :=
  match r with
  | none => Table I O P L s
  | some (e, name) => ∃ i, target = some (i, name) ∧ Table I O P (⟨e, i, false⟩ :: L) s

theorem namexFrom_table {parent : Bool} {path : List Name} (ho : Outer I O none) :
    Triple (Table I O P (⟨e, i, b⟩ :: L)) (namexFrom parent e path) (Found I O P L (walk I parent i path)) := by
  induction path generalizing e i b with
  | nil =>
    unfold namexFrom walk
    split
    · exact Triple.bind (iput_table (v := ⟨e, i, b⟩) ho) fun _ => Triple.ret fun s hs => hs
    · exact Triple.ret fun s hs => ⟨i, rfl, hs.unlock⟩
  | cons name path ih =>
    unfold namexFrom
    refine Triple.bind ilock_table fun _ => read_table ho fun s₀ hs₀ => ?_
    rw [hs₀.head]
    unfold walk
    refine Triple.split (fun hdir => ?_) fun hdir => ?_
    · exact Triple.bind (iput_table (v := ⟨e, i, true⟩) ho) fun _ => Triple.ret fun s hs => hs
    rw [if_neg hdir]
    refine Triple.split (fun hlast => ?_) fun hlast => ?_
    · rw [if_pos hlast]
      exact Triple.ret fun s hs => ⟨i, rfl, hs.unlock⟩
    rw [if_neg hlast]
    refine Triple.bind (dirlookup_table ho List.mem_cons_self) fun r => Triple.lift fun _ => ?_
    rcases r with _ | ⟨next, k⟩
    · refine Triple.bind ((iput_table (v := ⟨e, i, true⟩) ho).pre fun s hs => hs.2) fun _ => ?_
      exact Triple.ret fun s hs => hs
    · refine Triple.lift fun hslot => ?_
      rw [hslot]
      exact Triple.bind ((iput_table (v := ⟨e, i, true⟩) ho).pre fun s hs => hs.swap) fun _ => ih

/-- Where a path leads, when the current directory is `c`. -/
def find (I : Nat → Inode) (c : Nat) (path : List UInt8) (parent : Bool) : Option (Nat × Name) :=
  walk I parent (if path.head? = some 47 then ROOTINO else c) (elems path)

/-- The current directory of the process. -/
def Cwd (O : Nat → Entry) (P : Nat → Proc) (p c : Nat) : Prop :=
  ∀ e, (P p).cwd = some e → 0 < (O e).ref ∧ (O e).inum = c

theorem namex_table {path : List UInt8} {parent : Bool} (ho : Outer I O none) (hc : Cwd O P p c) :
    Triple (Table I O P L) (namex p path parent) (Found I O P L (find I c path parent)) := by
  unfold namex find
  refine Triple.reading fun s₀ => Triple.split (fun habs => ?_) fun habs => ?_
  · rw [if_pos habs]
    exact Triple.bind ((iget_table ho).pre fun s hs => hs.2) fun e => namexFrom_table ho
  · rw [if_neg habs]
    have hprocs : ∀ s, s = s₀ ∧ Table I O P L s → s₀.procs = P ∧ Table I O P L s := by
      rintro s ⟨rfl, hs⟩
      exact ⟨hs.procs, hs⟩
    refine Triple.pre (Triple.lift fun hP => ?_) hprocs
    rw [hP]
    cases hcwd : (P p).cwd with
    | none => exact Triple.fail _
    | some e => exact Triple.bind (idup_table (hc e hcwd)) fun _ => namexFrom_table ho

end xv6.sysfile
