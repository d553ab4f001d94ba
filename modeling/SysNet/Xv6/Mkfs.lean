-- The tool that makes the disk image (mkfs/mkfs.c): it numbers the inodes
-- and the blocks one after the other, and writes the free map at the end.
import SysNet.Xv6.Fs

open bytes xv6.fs

namespace xv6.mkfs

/-! ## The layout -/

def NINODES : Nat := 200

def FSSIZE : Nat := 2000

def LOGBLOCKS : Nat := 30

def DIRSIZ : Nat := 14

def ROOTINO : Nat := 1

def T_DIR : Nat := 1

def T_FILE : Nat := 2

def FSMAGIC : Nat := 0x10203040

def nbitmap : Nat := FSSIZE / BPB + 1

def ninodeblocks : Nat := NINODES / IPB + 1

def nlog : Nat := LOGBLOCKS + 1

def nmeta : Nat := 2 + nlog + ninodeblocks + nbitmap

def sb : Superblock where
  size := FSSIZE
  ninodes := NINODES
  inodestart := 2 + nlog
  bmapstart := 2 + nlog + ninodeblocks
  inodestart_pos := by decide
  inodes_fit := by decide
  map_fits := by decide
  size_lt := by decide

/-- The words of the super block, from `magic` to `bmapstart`. -/
def superWords : List Nat :=
  [FSMAGIC, sb.size, FSSIZE - nmeta, sb.ninodes, nlog, 2, sb.inodestart, sb.bmapstart]

def superBlock : Buffer := fun k => byte (superWords.getD (k / 4) 0) (k % 4)

/-! ## Sectors and inodes -/

/-- The image, with the next free inode and block. -/
structure Image where
  disk : Disk
  freeinode : Nat
  freeblock : Nat

/-- Why the tool ends early: it cannot read, or an assertion fails. -/
inductive Die
  | read
  | rootIsNotFirst
  | slashInName
  | longName
  | fileTooBig
  | tooManyUsed
deriving DecidableEq, Repr

/-- The image has `FSSIZE` sectors. No sector is written behind the last one, because every block
is read before it is written. -/
def rsect (d : Disk) (sec : Nat) : Except Die Buffer :=
  if sec < FSSIZE then .ok (d sec) else .error .read

def winode (m : Image) (i : Nat) (ip : Dinode) : Except Die Image :=
  match rsect m.disk (IBLOCK sb i) with
  | .error e => .error e
  | .ok buf =>
    .ok { m with disk := Function.update m.disk (IBLOCK sb i) (fill buf (i % IPB * 64) 64 ip.bytes) }

def rinode (m : Image) (i : Nat) : Except Die Dinode :=
  match rsect m.disk (IBLOCK sb i) with
  | .error e => .error e
  | .ok buf => .ok (getDinode buf (i % IPB * 64))

def ialloc (m : Image) (type : Nat) : Except Die (Image × Nat) :=
  match winode { m with freeinode := m.freeinode + 1 } m.freeinode
    { Dinode.free with type, nlink := 1 } with
  | .error e => .error e
  | .ok m' => .ok (m', m.freeinode)

/-! ## Appending -/

/-- `addrs[k]` gets the next free block if it has none. -/
def takeAddr (m : Image) (din : Dinode) (k : Nat) : Image × Dinode :=
  if din.addrs k = 0 then
    ({ m with freeblock := m.freeblock + 1 },
      { din with addrs := Function.update din.addrs k m.freeblock })
  else (m, din)

/-- The block `fbn` of the file, with the next free one if it has none. -/
def appendBlock (m : Image) (din : Dinode) (fbn : Nat) : Except Die (Image × Dinode × Nat) :=
  if fbn < NDIRECT then
    match takeAddr m din fbn with
    | (m, din) => .ok (m, din, din.addrs fbn)
  else
    match takeAddr m din NDIRECT with
    | (m, din) =>
      match rsect m.disk (din.addrs NDIRECT) with
      | .error e => .error e
      | .ok indirect =>
        if get32 indirect (4 * (fbn - NDIRECT)) = 0 then
          .ok ({ m with
              disk := Function.update m.disk (din.addrs NDIRECT)
                (put32 indirect (4 * (fbn - NDIRECT)) m.freeblock)
              freeblock := m.freeblock + 1 }, din, m.freeblock)
        else .ok (m, din, get32 indirect (4 * (fbn - NDIRECT)))

/-- The loop of `iappend`. Every turn appends a byte at least. -/
def iappendLoop (m : Image) (din : Dinode) :
    Nat → Nat → List UInt8 → Except Die (Image × Dinode × Nat)
  | 0, off, _ => .ok (m, din, off)
  | k + 1, off, p =>
    if p = [] then .ok (m, din, off)
    else if off / BSIZE < MAXFILE then
      match appendBlock m din (off / BSIZE) with
      | .error e => .error e
      | .ok (m, din, x) =>
        match rsect m.disk x with
        | .error e => .error e
        | .ok buf =>
          let n1 := min p.length ((off / BSIZE + 1) * BSIZE - off)
          iappendLoop { m with
              disk := Function.update m.disk x
                (fill buf (off - off / BSIZE * BSIZE) n1 fun y => p.getD y 0) }
            din k (off + n1) (p.drop n1)
    else .error .fileTooBig

def iappend (m : Image) (inum : Nat) (p : List UInt8) : Except Die Image :=
  match rinode m inum with
  | .error e => .error e
  | .ok din =>
    match iappendLoop m din p.length din.size p with
    | .error e => .error e
    | .ok (m, din, off) => winode m inum { din with size := off }

/-! ## The files -/

/-- A file on the command line, with the pieces that `read` gives of it. -/
structure File where
  path : List UInt8
  chunks : List (List UInt8)
  chunks_ok : ∀ c ∈ chunks, c ≠ [] ∧ c.length ≤ BSIZE

def File.content (f : File) : List UInt8 := f.chunks.flatten

/-- The path without `user/`. -/
def File.base (f : File) : List UInt8 :=
  if [117, 115, 101, 114, 47] <+: f.path then f.path.drop 5 else f.path

/-- The name without the underscore of the binaries. -/
def File.shortname (f : File) : List UInt8 :=
  if f.base.headD 0 = 95 then f.base.tail else f.base

/-- A `struct dirent`; `strncpy` fills the name with zeros. -/
def dirent (inum : Nat) (name : List UInt8) : List UInt8 :=
  (List.range 16).map fun k => if k < 2 then byte inum k else name.getD (k - 2) 0

def iappendAll (m : Image) (inum : Nat) : List (List UInt8) → Except Die Image
  | [] => .ok m
  | c :: cs =>
    match iappend m inum c with
    | .error e => .error e
    | .ok m => iappendAll m inum cs

/-- The body of the loop over the arguments. -/
def addFile (m : Image) (f : File) : Except Die Image :=
  if 47 ∈ f.base then .error .slashInName
  else if DIRSIZ < f.shortname.length then .error .longName
  else do
    let r ← ialloc m T_FILE
    let m ← iappend r.1 ROOTINO (dirent r.2 f.shortname)
    iappendAll m r.2 f.chunks

def addFiles (m : Image) : List File → Except Die Image
  | [] => .ok m
  | f :: fs => do
    let m ← addFile m f
    addFiles m fs

/-- The bits of the first blocks. -/
def usedMap (used : Nat) : Buffer := (List.range used).foldl setBit fun _ => 0

def balloc (m : Image) (used : Nat) : Except Die Disk :=
  if used < BPB then .ok (Function.update m.disk sb.bmapstart (usedMap used))
  else .error .tooManyUsed

/-- The image before the first inode: zeros, and the super block. -/
def blank : Image where
  disk := Function.update (fun _ _ => 0) 1 superBlock
  freeinode := 1
  freeblock := nmeta

/-- The root directory with its first two entries. -/
def makeRoot : Except Die Image := do
  let r ← ialloc blank T_DIR
  if r.2 = ROOTINO then
    let m ← iappend r.1 r.2 (dirent r.2 [46])
    iappend m r.2 (dirent r.2 [46, 46])
  else .error .rootIsNotFirst

/-- The size of the root directory is rounded up, and the free map is written. -/
def finish (m : Image) : Except Die Disk := do
  let din ← rinode m ROOTINO
  let m ← winode m ROOTINO { din with size := (din.size / BSIZE + 1) * BSIZE }
  balloc m m.freeblock

def main (files : List File) : Except Die Disk := do
  let m ← makeRoot
  let m ← addFiles m files
  finish m

end xv6.mkfs
