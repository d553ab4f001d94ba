-- Names in directories, and paths (kernel/fs.c, kernel/string.c): the bytes
-- of a directory stand for a list of entries, `dirlookup` and `dirlink` look
-- there and write there, and `skipelem` takes a path apart.
import Mathlib.Data.UInt
import SysNet.Lib.Fields
import SysNet.Xv6.FileBytes
import SysNet.Xv6.LinkTable

open arrays bytes fields

namespace xv6.paths

open fs (BSIZE Disk Dinode Superblock MAXFILE uint content byteAt dinode Consistent Sound Full)
open sysfile (DIRSIZ ROOTINO T_DIR Name Dirent elems)

/-! ## Strings -/

/-- The loop of `strncmp` with `n` bytes that are left. -/
def strncmpLoop (p q : Buffer) : Nat → Nat → Int
  | 0, _ => 0
  | n + 1, i => if p i ≠ 0 ∧ p i = q i then strncmpLoop p q n (i + 1) else (p i).toNat - (q i).toNat

def strncmp (p q : Buffer) (n : Nat) : Int := strncmpLoop p q n 0

/-- The second loop of `strncpy`. -/
def padLoop : Nat → Nat → Buffer → Buffer
  | 0, _, s => s
  | n + 1, i, s => padLoop n (i + 1) (Function.update s i 0)

/-- The first loop of `strncpy`, and what follows it. -/
def strncpyLoop (t : Buffer) : Nat → Nat → Buffer → Buffer
  | 0, _, s => s
  | n + 1, i, s =>
    if t i ≠ 0 then strncpyLoop t n (i + 1) (Function.update s i (t i))
    else padLoop n (i + 1) (Function.update s i (t i))

def strncpy (s t : Buffer) (n : Nat) : Buffer := strncpyLoop t n 0 s

def namecmp (s t : Buffer) : Int := strncmp s t DIRSIZ

/-- A pointer into a path is what is left of the path. `name` has room for `DIRSIZ` bytes. -/
def skipelem (path : List UInt8) (name : Buffer) : Option (List UInt8 × Buffer) :=
  let s := path.dropWhile (· = 47)
  if s = [] then none
  else
    let path := s.dropWhile (· ≠ 47)
    let len := s.length - path.length
    let name :=
      if DIRSIZ ≤ len then fill name 0 DIRSIZ (s.getD · 0)
      else Function.update (fill name 0 len (s.getD · 0)) len 0
    some (path.dropWhile (· = 47), name)

/-! ## Directories -/

inductive Panic
  | fs (e : fs.Panic)
  | dirlookupNotDir
  | dirlookupRead
  | dirlinkRead
  /-- a loop of more turns than there can be -/
  | spin
deriving DecidableEq, Repr

/-- A call below. -/
def below {α : Type} : Except fs.Panic α → Except Panic α
  | .error e => .error (.fs e)
  | .ok x => .ok x

/-- What is read, as a `struct dirent`. -/
def asStruct (data : List UInt8) : Buffer := fun i => data.getD i 0

/-- `de.name` -/
def nameOf (de : Buffer) : Buffer := fun i => de (2 + i)

/-- The loop of `dirlookup` from the offset on. It gives the offset and the number of the entry. -/
def dirlookupLoop (sb : Superblock) (name : Buffer) :
    Nat → Disk → Dinode → Nat → Except Panic (Disk × Dinode × Option (Nat × Nat))
  | 0, d, ip, off => if off < ip.size then throw .spin else return (d, ip, none)
  | turns + 1, d, ip, off =>
    if off < ip.size then do
      let (d, ip, data, _) ← below (fs.readi sb d ip off 16 [])
      if data.length ≠ 16 then throw .dirlookupRead
      else if get16 (asStruct data) 0 = 0 then dirlookupLoop sb name turns d ip (uint (off + 16))
      else if namecmp name (nameOf (asStruct data)) = 0 then
        return (d, ip, some (off, get16 (asStruct data) 0))
      else dirlookupLoop sb name turns d ip (uint (off + 16))
    else return (d, ip, none)

/-- The entry of the table for the inode with the name, and the offset. -/
def dirlookup (sb : Superblock) (s : fs.State) (dp : Nat) (name : Buffer) :
    Except Panic (fs.State × Option (Nat × Nat)) :=
  let ip := s.itable dp
  if ip.copy.type ≠ T_DIR then throw .dirlookupNotDir
  else do
    let (d, copy, found) ← dirlookupLoop sb name ((ip.copy.size + 15) / 16) s.disk ip.copy 0
    let s := { s with disk := d }.set dp { ip with copy }
    match found with
    | none => return (s, none)
    | some (off, inum) => do
      let (s, e) ← below (fs.iget s inum)
      return (s, some (e, off))

/-- The loop of `dirlink` for an empty entry. It gives the offset where it ends. -/
def emptyLoop (sb : Superblock) : Nat → Disk → Dinode → Nat → Except Panic (Disk × Dinode × Nat)
  | 0, d, ip, off => if off < ip.size then throw .spin else return (d, ip, off)
  | turns + 1, d, ip, off =>
    if off < ip.size then do
      let (d, ip, data, _) ← below (fs.readi sb d ip off 16 [])
      if data.length ≠ 16 then throw .dirlinkRead
      else if get16 (asStruct data) 0 = 0 then return (d, ip, off)
      else emptyLoop sb turns d ip (uint (off + 16))
    else return (d, ip, off)

/-- The bytes of the entry. What was in `de.name` before is in none of them. -/
def direntBytes (name : Buffer) (inum : Nat) : List UInt8 :=
  [byte inum 0, byte inum 1] ++ (List.range DIRSIZ).map (strncpy (fun _ => 0) name DIRSIZ)

/-- Whether it returns 0. -/
def dirlink (sb : Superblock) (s : fs.State) (dp : Nat) (name : Buffer) (inum : Nat) :
    Except Panic (fs.State × Bool) := do
  let (s, found) ← dirlookup sb s dp name
  match found with
  | some (e, _) => do
    let s ← below (fs.iput sb s e)
    return (s, false)
  | none =>
    let ip := s.itable dp
    let (d, copy, off) ← emptyLoop sb ((ip.copy.size + 15) / 16) s.disk ip.copy 0
    let (d, copy, fin) ← below (fs.writei sb d ip.inum copy off (direntBytes name inum) [])
    return ({ s with disk := d }.set dp { ip with copy }, fin = some (off + 16))

/-! ## Paths -/

/-- The loop of `namex`, at the entry of the inode that the path has come to. Every turn takes a
byte of the path at least. -/
def namexLoop (sb : Superblock) (parent : Bool) :
    Nat → fs.State → Nat → List UInt8 → Buffer → Except Panic (fs.State × Option Nat × Buffer)
  | 0, _, _, _, _ => throw .spin
  | turns + 1, s, ip, path, name =>
    match skipelem path name with
    | none =>
      if parent then do
        let s ← below (fs.iput sb s ip)
        return (s, none, name)
      else return (s, some ip, name)
    | some (path, name) => do
      let s ← below (fs.ilock sb s ip)
      if (s.itable ip).copy.type ≠ T_DIR then
        let s ← below (fs.iput sb s ip)
        return (s, none, name)
      else if parent ∧ path = [] then return (s, some ip, name)
      else
        let (s, next) ← dirlookup sb s ip name
        let s ← below (fs.iput sb s ip)
        match next with
        | none => return (s, none, name)
        | some (next, _) => namexLoop sb parent turns s next path name

/-- The path, from the root or from the entry of the current directory. -/
def namex (sb : Superblock) (s : fs.State) (cwd : Nat) (path : List UInt8) (parent : Bool) (name : Buffer) :
    Except Panic (fs.State × Option Nat × Buffer) :=
  if path.head? = some 47 then do
    let (s, ip) ← below (fs.iget s ROOTINO)
    namexLoop sb parent (path.length + 1) s ip path name
  else
    let ip := s.itable cwd
    namexLoop sb parent (path.length + 1) (s.set cwd { ip with ref := ip.ref + 1 }) cwd path name

/-! ## What the strings are -/

variable {sb : Superblock} {d : Disk} {ip : Dinode} {name name' p q s t : Buffer} {path : List UInt8}
  {inum off n i k : Nat}

/-- The name in `DIRSIZ` bytes. -/
def nameIn (b : Buffer) : Name := textIn b DIRSIZ

theorem strncmpLoop_eq_zero : strncmpLoop p q n i = 0 ↔
    textIn (fun j => p (i + j)) n = textIn (fun j => q (i + j)) n := by
  induction n generalizing i with
  | zero =>
    rw [textIn_zero, textIn_zero]
    exact ⟨fun _ => rfl, fun _ => rfl⟩
  | succ n ih =>
    rw [strncmpLoop, textIn_from, textIn_from]
    by_cases hp : p i = 0
    · rw [if_neg (fun h => h.1 hp), if_pos hp, hp]
      by_cases hq : q i = 0
      · rw [if_pos hq, hq]
        exact ⟨fun _ => rfl, fun _ => rfl⟩
      · rw [if_neg hq]
        refine ⟨fun h => absurd (UInt8.toNat_inj.mp ?_) hq, fun h => nomatch h⟩
        omega
    · rw [if_neg hp]
      by_cases heq : p i = q i
      · rw [if_pos ⟨hp, heq⟩, ih, if_neg (heq ▸ hp), heq, List.cons.injEq]
        exact ⟨fun h => ⟨rfl, h⟩, fun h => h.2⟩
      · rw [if_neg (fun h => heq h.2)]
        have hne : (p i).toNat - (q i).toNat ≠ (0 : Int) := by
          intro h
          apply heq
          apply UInt8.toNat_inj.mp
          omega
        refine ⟨fun h => absurd h hne, fun h => ?_⟩
        by_cases hq : q i = 0
        · rw [if_pos hq] at h
          cases h
        · rw [if_neg hq] at h
          exact absurd (List.cons.inj h).1 heq

/-- Two names are the same, whatever is behind their ends. -/
theorem namecmp_eq_zero : namecmp s t = 0 ↔ nameIn s = nameIn t := by
  have h := strncmpLoop_eq_zero (p := s) (q := t) (n := DIRSIZ) (i := 0)
  simp only [Nat.zero_add] at h
  exact h

theorem padLoop_apply (h : k < i ∨ i + n ≤ k) : padLoop n i s k = s k := by
  induction n generalizing i s with
  | zero => rfl
  | succ n ih =>
    rw [padLoop, ih (by omega)]
    exact Function.update_of_ne (by omega) ..

theorem padLoop_zero (h : i ≤ k) (hlt : k < i + n) : padLoop n i s k = 0 := by
  induction n generalizing i s with
  | zero => omega
  | succ n ih =>
    rw [padLoop]
    by_cases hk : k = i
    · subst hk
      rw [padLoop_apply (by omega)]
      exact Function.update_self ..
    · exact ih (by omega) (by omega)

theorem strncpyLoop_out (h : k < i ∨ i + n ≤ k) : strncpyLoop t n i s k = s k := by
  induction n generalizing i s with
  | zero => rfl
  | succ n ih =>
    have hone : Function.update s i (t i) k = s k := Function.update_of_ne (by omega) ..
    rw [strncpyLoop]
    by_cases ht : t i ≠ 0
    · rw [if_pos ht, ih (by omega), hone]
    · rw [if_neg ht, padLoop_apply (by omega), hone]

/-- The text, and zeros up to the end. -/
theorem strncpyLoop_in (h : k < n) : strncpyLoop t n i s (i + k) =
    (textIn (fun j => t (i + j)) n).getD k 0 := by
  induction n generalizing i s k with
  | zero => omega
  | succ n ih =>
    rw [strncpyLoop, textIn_from]
    by_cases ht : t i = 0
    · rw [if_neg (not_not.mpr ht), if_pos ht, List.getD_nil]
      cases k with
      | zero =>
        rw [padLoop_apply (by omega), Nat.add_zero, Function.update_self, ht]
      | succ k => exact padLoop_zero (by omega) (by omega)
    · rw [if_pos ht, if_neg ht]
      cases k with
      | zero =>
        rw [List.getD_cons_zero, strncpyLoop_out (by omega), Nat.add_zero, Function.update_self]
      | succ k =>
        rw [List.getD_cons_succ, ← ih (by omega), Nat.add_assoc, Nat.add_comm 1]

theorem strncpy_in (h : k < n) : strncpy s t n k = (textIn t n).getD k 0 := by
  have hin := strncpyLoop_in (t := t) (s := s) (i := 0) h
  simp only [Nat.zero_add] at hin
  exact hin

/-! ## Paths are lists of names -/

end xv6.paths
