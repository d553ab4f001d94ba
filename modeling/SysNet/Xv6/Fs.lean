-- The file system below the names (kernel/fs.c): the free map, the inodes
-- on the disk and in the table, and the content of a file. The disk is the
-- one that `bread` shows, so the log is not seen here.
import SysNet.Lib.Bytes

open bytes

namespace xv6.fs

/-! ## The disk -/

def BSIZE : Nat := 1024

def BPB : Nat := 8192

def IPB : Nat := 16

def NDIRECT : Nat := 12

def NINDIRECT : Nat := 256

def MAXFILE : Nat := NDIRECT + NINDIRECT

abbrev Disk := Nat → Buffer

/-- The super block. The inode blocks lie before the free map, and the map has a bit for every
block. -/
structure Superblock where
  size : Nat
  ninodes : Nat
  inodestart : Nat
  bmapstart : Nat
  inodestart_pos : 0 < inodestart
  inodes_fit : ninodes ≤ (bmapstart - inodestart) * IPB
  map_fits : bmapstart + (size / BPB + 1) ≤ size
  /-- `balloc` counts the blocks with an `int` -/
  size_lt : size < 2147483648

/-- The first block behind the free map. -/
def Superblock.datastart (sb : Superblock) : Nat := sb.bmapstart + (sb.size / BPB + 1)

/-- The inodes that there is room for, which are more than `ninodes` in the last block. -/
def Superblock.islots (sb : Superblock) : Nat := (sb.bmapstart - sb.inodestart) * IPB

def IBLOCK (sb : Superblock) (i : Nat) : Nat := i / IPB + sb.inodestart

def BBLOCK (sb : Superblock) (b : Nat) : Nat := b / BPB + sb.bmapstart

inductive Panic
  | freeingFreeBlock
  | bmapOutOfRange
  | ilockNoType
  | igetNoInodes
deriving DecidableEq, Repr

/-! ## Blocks -/

variable (sb : Superblock)

/-- The bit of the block in the free map. -/
def isUsed (d : Disk) (b : Nat) : Bool := bit (d (BBLOCK sb b)) (b % BPB)

/-- The first free block, zeroed, or 0. The two loops go through the blocks in order. -/
def balloc (d : Disk) : Disk × Nat :=
  match (List.range sb.size).find? fun b => !isUsed sb d b with
  | none => (d, 0)
  | some b =>
    let d := Function.update d (BBLOCK sb b) (setBit (d (BBLOCK sb b)) (b % BPB))
    (Function.update d b fun _ => 0, b)

def bfree (d : Disk) (b : Nat) : Except Panic Disk :=
  if isUsed sb d b then
    .ok (Function.update d (BBLOCK sb b) (clearBit (d (BBLOCK sb b)) (b % BPB)))
  else .error .freeingFreeBlock

/-! ## Inodes on the disk -/

@[ext] structure Dinode where
  type : Nat
  major : Nat
  minor : Nat
  nlink : Nat
  size : Nat
  /-- `addrs[NDIRECT+1]`; there is nothing behind them -/
  addrs : Nat → Nat

def Dinode.free : Dinode := ⟨0, 0, 0, 0, 0, fun _ => 0⟩

/-- The `struct dinode` at the offset. -/
def getDinode (b : Buffer) (o : Nat) : Dinode where
  type := get16 b o
  major := get16 b (o + 2)
  minor := get16 b (o + 4)
  nlink := get16 b (o + 6)
  size := get32 b (o + 8)
  addrs k := if k ≤ NDIRECT then get32 b (o + 12 + 4 * k) else 0

/-- The bytes of a `struct dinode`. -/
def Dinode.bytes (ip : Dinode) (k : Nat) : UInt8 :=
  if k < 2 then byte ip.type k
  else if k < 4 then byte ip.major (k - 2)
  else if k < 6 then byte ip.minor (k - 4)
  else if k < 8 then byte ip.nlink (k - 6)
  else if k < 12 then byte ip.size (k - 8)
  else byte (ip.addrs ((k - 12) / 4)) ((k - 12) % 4)

def dinode (d : Disk) (i : Nat) : Dinode := getDinode (d (IBLOCK sb i)) (i % IPB * 64)

/-- The copy of an inode goes to the disk. -/
def iupdate (d : Disk) (i : Nat) (ip : Dinode) : Disk :=
  Function.update d (IBLOCK sb i) (fill (d (IBLOCK sb i)) (i % IPB * 64) 64 ip.bytes)

/-! ## The content of an inode -/

/-- The address in `addrs[k]`, allocated if it is missing, or 0. -/
def loadAddr (d : Disk) (ip : Dinode) (k : Nat) : Disk × Dinode × Nat :=
  if ip.addrs k = 0 then
    match balloc sb d with
    | (d, 0) => (d, ip, 0)
    | (d, addr) => (d, { ip with addrs := Function.update ip.addrs k addr }, addr)
  else (d, ip, ip.addrs k)

/-- The number of the block `bn` of the file, allocated if it is missing, or 0. -/
def bmap (d : Disk) (ip : Dinode) (bn : Nat) : Except Panic (Disk × Dinode × Nat) :=
  if bn < NDIRECT then .ok (loadAddr sb d ip bn)
  else if bn - NDIRECT < NINDIRECT then
    -- the indirect block
    match loadAddr sb d ip NDIRECT with
    | (d, ip, 0) => .ok (d, ip, 0)
    | (d, ip, a) =>
      if get32 (d a) (4 * (bn - NDIRECT)) = 0 then
        match balloc sb d with
        | (d, 0) => .ok (d, ip, 0)
        | (d, addr) =>
          .ok (Function.update d a (put32 (d a) (4 * (bn - NDIRECT)) addr), ip, addr)
      else .ok (d, ip, get32 (d a) (4 * (bn - NDIRECT)))
  else .error .bmapOutOfRange

/-- The loop over addresses in `itrunc`. -/
def bfreeAll (d : Disk) : List Nat → Except Panic Disk
  | [] => .ok d
  | a :: as =>
    if a = 0 then bfreeAll d as
    else
      match bfree sb d a with
      | .error e => .error e
      | .ok d => bfreeAll d as

/-- The addresses in an indirect block. -/
def indirect (d : Disk) (a : Nat) : List Nat := (List.range NINDIRECT).map fun j => get32 (d a) (4 * j)

/-- The second half of `itrunc`: the blocks of the indirect block, and the block itself. -/
def bfreeIndirect (d : Disk) (a : Nat) : Except Panic Disk :=
  if a = 0 then .ok d
  else
    match bfreeAll sb d (indirect d a) with
    | .error e => .error e
    | .ok d => bfree sb d a

def itrunc (d : Disk) (i : Nat) (ip : Dinode) : Except Panic (Disk × Dinode) :=
  match bfreeAll sb d ((List.range NDIRECT).map ip.addrs) with
  | .error e => .error e
  | .ok d =>
    match bfreeIndirect sb d (ip.addrs NDIRECT) with
    | .error e => .error e
    | .ok d =>
      let ip := { ip with addrs := fun _ => 0, size := 0 }
      .ok (iupdate sb d i ip, ip)

/-- A `uint`, which wraps. -/
def uint (n : Nat) : Nat := n % 4294967296

/-- What `either_copyout` or `either_copyin` does in a turn of the loop: it copies all, or it
fails after some bytes. -/
inductive Copy
  | all
  | fails (bytes : Nat)
deriving DecidableEq, Repr

/-- The loop of `readi` over the `n` bytes that are left. It gives the bytes that are copied, and
whether the copies succeeded. Every turn copies a byte at least. -/
def readiLoop (d : Disk) (ip : Dinode) : Nat → Nat → Nat → List Copy →
    Except Panic (Disk × Dinode × List UInt8 × Bool)
  | 0, _, _, _ => .ok (d, ip, [], true)
  | k + 1, off, n, copies =>
    if n = 0 then .ok (d, ip, [], true)
    else
      match bmap sb d ip (off / BSIZE) with
      | .error e => .error e
      | .ok (d, ip, addr) =>
        if addr = 0 then .ok (d, ip, [], true)
        else
          let m := min n (BSIZE - off % BSIZE)
          match copies.headD .all with
          | .fails j => .ok (d, ip, (List.range (min j m)).map fun x => d addr (off % BSIZE + x), false)
          | .all =>
            match readiLoop d ip k (off + m) (n - m) copies.tail with
            | .error e => .error e
            | .ok (d, ip, data, done) =>
              .ok (d, ip, (List.range m).map (fun x => d addr (off % BSIZE + x)) ++ data, done)

/-- The bytes that are read, and whether the copies succeeded. -/
def readi (d : Disk) (ip : Dinode) (off n : Nat) (copies : List Copy) :
    Except Panic (Disk × Dinode × List UInt8 × Bool) :=
  if ip.size < off ∨ uint (off + n) < off then .ok (d, ip, [], true)
  else
    let n := if ip.size < uint (off + n) then ip.size - off else n
    readiLoop sb d ip n off n copies

/-- The loop of `writei` with the bytes that are left. It gives the offset where it ends. -/
def writeiLoop (d : Disk) (ip : Dinode) : Nat → Nat → List UInt8 → List Copy →
    Except Panic (Disk × Dinode × Nat)
  | 0, off, _, _ => .ok (d, ip, off)
  | k + 1, off, src, copies =>
    if src = [] then .ok (d, ip, off)
    else
      match bmap sb d ip (off / BSIZE) with
      | .error e => .error e
      | .ok (d, ip, addr) =>
        if addr = 0 then .ok (d, ip, off)
        else
          let m := min src.length (BSIZE - off % BSIZE)
          match copies.headD .all with
          | .fails j =>
            .ok (Function.update d addr
              (fill (d addr) (off % BSIZE) (min j m) fun x => src.getD x 0), ip, off)
          | .all =>
            writeiLoop (Function.update d addr
                (fill (d addr) (off % BSIZE) m fun x => src.getD x 0)) ip k (off + m) (src.drop m)
              copies.tail

/-- The disk and the copy after the call, and the end of what was written, or `none` for -1. -/
def writei (d : Disk) (i : Nat) (ip : Dinode) (off : Nat) (src : List UInt8) (copies : List Copy) :
    Except Panic (Disk × Dinode × Option Nat) :=
  if ip.size < off ∨ uint (off + src.length) < off then .ok (d, ip, none)
  else if MAXFILE * BSIZE < uint (off + src.length) then .ok (d, ip, none)
  else
    match writeiLoop sb d ip src.length off src copies with
    | .error e => .error e
    | .ok (d, ip, off) =>
      let ip := if ip.size < off then { ip with size := off } else ip
      .ok (iupdate sb d i ip, ip, some off)

/-! ## The inode table -/

def NINODE : Nat := 50

/-- An entry of the table, with its copy of the inode. -/
structure Inode where
  inum : Nat
  ref : Nat
  valid : Bool
  copy : Dinode

structure State where
  disk : Disk
  itable : Nat → Inode
  panicked : Option Panic

def State.start (d : Disk) : State :=
  { disk := d, itable := fun _ => { inum := 0, ref := 0, valid := false, copy := .free }, panicked := none }

def State.set (s : State) (e : Nat) (ip : Inode) : State :=
  { s with itable := Function.update s.itable e ip }

/-- The entry for the inode, found or new. -/
def iget (s : State) (i : Nat) : Except Panic (State × Nat) :=
  match (List.range NINODE).find? fun e => 0 < (s.itable e).ref ∧ (s.itable e).inum = i with
  | some e => .ok (s.set e { s.itable e with ref := (s.itable e).ref + 1 }, e)
  | none =>
    match (List.range NINODE).find? fun e => (s.itable e).ref = 0 with
    | none => .error .igetNoInodes
    | some e => .ok (s.set e { s.itable e with inum := i, ref := 1, valid := false }, e)

/-- The first free inode gets the type, and an entry. `none` when there is no free inode. -/
def ialloc (s : State) (type : Nat) : Except Panic (State × Option Nat) :=
  match (List.range sb.ninodes).find? fun i => 0 < i ∧ (dinode sb s.disk i).type = 0 with
  | none => .ok (s, none)
  | some i =>
    match iget { s with disk := iupdate sb s.disk i { Dinode.free with type } } i with
    | .error e => .error e
    | .ok (s, e) => .ok (s, some e)

def ilock (s : State) (e : Nat) : Except Panic State :=
  let ip := s.itable e
  if ip.valid then .ok s
  else
    let ip := { ip with copy := dinode sb s.disk ip.inum, valid := true }
    if ip.copy.type = 0 then .error .ilockNoType else .ok (s.set e ip)

def iput (s : State) (e : Nat) : Except Panic State :=
  let ip := s.itable e
  if ip.ref = 1 ∧ ip.valid ∧ ip.copy.nlink = 0 then
    match itrunc sb s.disk ip.inum ip.copy with
    | .error e => .error e
    | .ok (d, copy) =>
      let copy := { copy with type := 0 }
      let s := { s with disk := iupdate sb d ip.inum copy }
      .ok (s.set e { ip with ref := ip.ref - 1, valid := false, copy })
  else .ok (s.set e { ip with ref := ip.ref - 1 })

/-! ## The calls -/

inductive Act
  | ialloc (type : Nat)
  | iget (i : Nat)
  | idup (e : Nat)
  | ilock (e : Nat)
  /-- the links or the device numbers are changed, and `iupdate` -/
  | relink (e major minor nlink : Nat)
  | readi (e off n : Nat) (copies : List Copy)
  | writei (e off : Nat) (src : List UInt8) (copies : List Copy)
  | itrunc (e : Nat)
  | iput (e : Nat)
deriving DecidableEq, Repr

/-- The state after a call, or the panic. -/
def State.settle (s : State) : Except Panic State → State
  | .error e => { s with panicked := some e }
  | .ok s => s

/-- The entry is in use and its copy has been read. -/
def State.held (s : State) (e : Nat) : Prop := e < NINODE ∧ 0 < (s.itable e).ref ∧ (s.itable e).valid

instance (s : State) (e : Nat) : Decidable (s.held e) := inferInstanceAs (Decidable (_ ∧ _ ∧ _))

/-- One call. Types and links are `short`s, offsets and lengths are `uint`s. -/
def State.step (s : State) (a : Act) : Option State :=
  if s.panicked ≠ none then none
  else
    match a with
    | .ialloc type =>
      if 0 < type ∧ type < 65536 then some (s.settle ((ialloc sb s type).map Prod.fst)) else none
    | .iget i =>
      if i < sb.islots then some (s.settle ((iget s i).map Prod.fst)) else none
    | .idup e =>
      if e < NINODE ∧ 0 < (s.itable e).ref then
        some (s.set e { s.itable e with ref := (s.itable e).ref + 1 })
      else none
    | .ilock e =>
      if e < NINODE ∧ 0 < (s.itable e).ref then some (s.settle (ilock sb s e)) else none
    | .relink e major minor nlink =>
      if s.held e ∧ major < 65536 ∧ minor < 65536 ∧ nlink < 65536 then
        let ip := s.itable e
        let copy := { ip.copy with major, minor, nlink }
        some ({ s with disk := iupdate sb s.disk ip.inum copy }.set e { ip with copy })
      else none
    | .readi e off n copies =>
      if s.held e ∧ off < 4294967296 ∧ n < 4294967296 then
        let ip := s.itable e
        some (s.settle ((readi sb s.disk ip.copy off n copies).map fun r =>
          { s with disk := r.1 }.set e { ip with copy := r.2.1 }))
      else none
    | .writei e off src copies =>
      if s.held e ∧ off < 4294967296 ∧ src.length < 4294967296 then
        let ip := s.itable e
        some (s.settle ((writei sb s.disk ip.inum ip.copy off src copies).map fun r =>
          { s with disk := r.1 }.set e { ip with copy := r.2.1 }))
      else none
    | .itrunc e =>
      if s.held e then
        let ip := s.itable e
        some (s.settle ((itrunc sb s.disk ip.inum ip.copy).map fun r =>
          { s with disk := r.1 }.set e { ip with copy := r.2 }))
      else none
    | .iput e =>
      if e < NINODE ∧ 0 < (s.itable e).ref then some (s.settle (iput sb s e)) else none

end xv6.fs
