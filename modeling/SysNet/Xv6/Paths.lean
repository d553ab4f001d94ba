-- Path names (kernel/fs.c): `namex` goes from directory to directory, with one
-- reference at a time, and comes to where the names of the path lead.
import SysNet.Xv6.Directories

open runs bytes

namespace xv6.paths

open fs (Disk Dinode Superblock dinode content Consistent Sound)
open sysfile (ROOTINO T_DIR Name walk find elems)

variable {sb : Superblock} {d : Disk} {s s' s₀ s₁ s₂ : fs.State} {name name' : Buffer} {path : List UInt8}
  {e i ip k turns cwd : Nat} {r : Option Nat} {parent : Bool}

/-! ## References -/

/-- The call took a reference to the entry, or none. All other references are as they were. -/
structure Takes (sb : Superblock) (s s' : fs.State) (r : Option Nat) : Prop where
  sound : Sound sb s'
  disk : s'.disk = s.disk
  ref : ∀ e, (s'.itable e).ref = (s.itable e).ref + if r = some e then 1 else 0
  inum : ∀ e, 0 < (s.itable e).ref → (s'.itable e).inum = (s.itable e).inum

theorem Takes.refl (h : Sound sb s) : Takes sb s s none :=
  ⟨h, rfl, fun _ => rfl, fun _ _ => rfl⟩

theorem Takes.le (h : Takes sb s s' r) (e : Nat) : (s.itable e).ref ≤ (s'.itable e).ref := by
  rw [h.ref e]
  omega

theorem Takes.pos (h : Takes sb s s' (some e)) : 0 < (s'.itable e).ref := by
  rw [h.ref e, if_pos rfl]
  omega

theorem Takes.after (h : Takes sb s s₁ none) (h' : Takes sb s₁ s' r) : Takes sb s s' r where
  sound := h'.sound
  disk := h'.disk.trans h.disk
  ref e := by rw [h'.ref e, h.ref e, if_neg (Option.some_ne_none e).symm, Nat.add_zero]
  inum e he := (h'.inum e (Nat.lt_of_lt_of_le he (h.le e))).trans (h.inum e he)

theorem Takes.before (h : Takes sb s s₁ r) (h' : Takes sb s₁ s' none) : Takes sb s s' r where
  sound := h'.sound
  disk := h'.disk.trans h.disk
  ref e := by rw [h'.ref e, h.ref e, if_neg (Option.some_ne_none e).symm, Nat.add_zero]
  inum e he := (h'.inum e (Nat.lt_of_lt_of_le he (h.le e))).trans (h.inum e he)

/-- One reference goes for another. -/
theorem Takes.swap (h : Takes sb s s₁ (some ip)) (h' : Takes sb s₁ s₂ r) (hput : Takes sb s' s₂ (some ip))
    (hsound : Sound sb s') : Takes sb s s' r := by
  have href : ∀ e, (s'.itable e).ref = (s.itable e).ref + if r = some e then 1 else 0 := by
    intro e
    have h1 := h.ref e
    have h2 := h'.ref e
    have h3 := hput.ref e
    omega
  refine ⟨hsound, ?_, href, fun e he => ?_⟩
  · rw [← hput.disk, h'.disk, h.disk]
  · have hpos : 0 < (s'.itable e).ref := by
      rw [href e]
      omega
    rw [← hput.inum e hpos, h'.inum e (Nat.lt_of_lt_of_le he (h.le e)), h.inum e he]

/-- The directories on the disk have whole entries, and what they name are inodes with names. -/
structure Tree (sb : Superblock) (d : Disk) : Prop where
  root : ROOTINO < sb.islots ∧ (dinode sb d ROOTINO).type ≠ 0 ∧ (dinode sb d ROOTINO).nlink ≠ 0
  whole : ∀ i < sb.islots, (dinode sb d i).type = T_DIR → (dinode sb d i).size % 16 = 0
  named : ∀ i < sb.islots, (dinode sb d i).type = T_DIR → ∀ de ∈ (inodeOf sb d i).entries, de.inum ≠ 0 →
    de.inum < sb.islots ∧ (dinode sb d de.inum).type ≠ 0 ∧ (dinode sb d de.inum).nlink ≠ 0

theorem Tree.inumAt (h : Tree sb d) (hi : i < sb.islots) (ht : (dinode sb d i).type = T_DIR) {name : Name}
    (hslot : (inodeOf sb d i).slot name = some k) : (inodeOf sb d i).inumAt k < sb.islots ∧
      (dinode sb d ((inodeOf sb d i).inumAt k)).type ≠ 0 ∧
      (dinode sb d ((inodeOf sb d i).inumAt k)).nlink ≠ 0 := by
  obtain ⟨de, hde, hinum, -, hat⟩ := sysfile.slot_some hslot
  rw [hat]
  exact h.named i hi ht de (List.mem_of_getElem? hde) hinum

variable {I : Nat → sysfile.Inode} {x : Name} {names : List Name}

/-- What a path has come to: the entry of the inode that the names lead to, or nothing. -/
structure Leads (sb : Superblock) (s s' : fs.State) (parent : Bool) (i : Nat) (names : List Name)
    (r : Option Nat) (name : Buffer) : Prop where
  takes : Takes sb s s' r
  nowhere : r = none → walk (inodeOf sb s.disk) parent i names = none
  there : ∀ e, r = some e → ∃ x, walk (inodeOf sb s.disk) parent i names = some ((s'.itable e).inum, x) ∧
    (parent = true → x = nameIn name)

theorem Leads.step {j : Nat} {names' : List Name}
    (hwalk : walk (inodeOf sb s.disk) parent i names = walk (inodeOf sb s.disk) parent j names')
    (h : Leads sb s s' parent j names' r name) : Leads sb s s' parent i names r name where
  takes := h.takes
  nowhere hr := hwalk.trans (h.nowhere hr)
  there e he := by
    rw [hwalk]
    exact h.there e he

variable {as : List fs.Act}

theorem tree_iff : Tree sb d ↔
    (ROOTINO < sb.islots ∧ (dinode sb d ROOTINO).type ≠ 0 ∧ (dinode sb d ROOTINO).nlink ≠ 0) ∧
      ∀ i < sb.islots, (dinode sb d i).type = T_DIR → (dinode sb d i).size % 16 = 0 ∧
        ∀ de ∈ (inodeOf sb d i).entries, de.inum ≠ 0 →
          de.inum < sb.islots ∧ (dinode sb d de.inum).type ≠ 0 ∧ (dinode sb d de.inum).nlink ≠ 0 :=
  ⟨fun h => ⟨h.root, fun i hi ht => ⟨h.whole i hi ht, h.named i hi ht⟩⟩,
    fun h => ⟨h.1, fun i hi ht => (h.2 i hi ht).1, fun i hi ht => (h.2 i hi ht).2⟩⟩

instance (d : Disk) : Decidable (Tree sb d) := decidable_of_iff' _ tree_iff

end xv6.paths
