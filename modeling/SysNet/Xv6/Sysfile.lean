-- The file system calls (kernel/sysfile.c), with the files (kernel/file.c)
-- and the inode table, the directories and the paths (kernel/fs.c) below
-- them. One call runs at a time, so locks are not seen. An inode is the same
-- on the disk and in a valid copy, because every change is followed by
-- `iupdate`; the content of a directory is the list of its entries.
import Mathlib.Control.Basic
import Mathlib.Data.List.Basic
import Mathlib.Logic.Function.Basic
import SysNet.Xv6.Fs

namespace xv6.sysfile

open xv6.fs (BSIZE MAXFILE NINODE)

/-! ## Constants -/

def NPROC : Nat := 64

def NOFILE : Nat := 16

def NFILE : Nat := 100

def NDEV : Nat := 10

def DIRSIZ : Nat := 14

def ROOTINO : Nat := 1

def T_DIR : Nat := 1

def T_FILE : Nat := 2

def T_DEVICE : Nat := 3

def O_WRONLY : Nat := 0x001

def O_RDWR : Nat := 0x002

def O_CREATE : Nat := 0x200

def O_TRUNC : Nat := 0x400

/-- The part of the super block that matters here. An entry of a directory has room for every
inode number. -/
structure Superblock where
  ninodes : Nat
  root_lt : ROOTINO < ninodes
  ninodes_le : ninodes ≤ 65536

/-! ## The state -/

abbrev Name := List UInt8

structure Dirent where
  inum : Nat
  name : Name
deriving DecidableEq, Repr

/-- An inode; `entries` is the content of a directory. -/
structure Inode where
  type : Nat
  major : Int
  minor : Int
  nlink : Int
  entries : List Dirent
deriving DecidableEq, Repr

/-- An entry of the inode table. -/
structure Entry where
  inum : Nat
  ref : Int
  valid : Bool
deriving DecidableEq, Repr

inductive FileType
  | none
  | pipe
  | inode
  | device
deriving DecidableEq, Repr

structure File where
  type : FileType
  ref : Int
  readable : Bool
  writable : Bool
  /-- the page of the pipe -/
  pipe : Nat
  /-- the entry of the inode table -/
  ip : Nat
  off : Nat
  major : Int
deriving DecidableEq, Repr

/-- A page that holds a pipe; `live` says that the page is not free. -/
structure Pipe where
  live : Bool
  readopen : Bool
  writeopen : Bool
deriving DecidableEq, Repr

inductive Procstate
  | unused
  | running
  | zombie
deriving DecidableEq, Repr

structure Proc where
  state : Procstate
  ofile : Nat → Option Nat
  cwd : Option Nat

inductive Panic
  | igetNoInodes
  | ilock
  | ilockNoType
  | dirlookupNotDir
  | filedup
  | fileclose
  | unlinkNlink
  | initExiting
  /-- a null pointer is followed -/
  | kerneltrap
deriving DecidableEq, Repr

structure State where
  inodes : Nat → Inode
  itable : Nat → Entry
  ftable : Nat → File
  pipes : Nat → Pipe
  procs : Nat → Proc
  panicked : Option Panic

/-- The kernel runs until it returns or panics. -/
abbrev Kernel := StateT State (Except Panic)

/-! ### Writing to the state -/

def State.setInode (s : State) (i : Nat) (ip : Inode) : State :=
  { s with inodes := Function.update s.inodes i ip }

def State.setEntry (s : State) (e : Nat) (ip : Entry) : State :=
  { s with itable := Function.update s.itable e ip }

def State.setFile (s : State) (f : Nat) (ff : File) : State :=
  { s with ftable := Function.update s.ftable f ff }

def State.setPipe (s : State) (pi : Nat) (x : Pipe) : State :=
  { s with pipes := Function.update s.pipes pi x }

def State.setProc (s : State) (p : Nat) (x : Proc) : State :=
  { s with procs := Function.update s.procs p x }

def Proc.setOfile (p : Proc) (fd : Nat) (f : Option Nat) : Proc :=
  { p with ofile := Function.update p.ofile fd f }

def setInode (i : Nat) (ip : Inode) : Kernel Unit := modify fun s => s.setInode i ip

def setEntry (e : Nat) (ip : Entry) : Kernel Unit := modify fun s => s.setEntry e ip

def setFile (f : Nat) (ff : File) : Kernel Unit := modify fun s => s.setFile f ff

def setPipe (pi : Nat) (x : Pipe) : Kernel Unit := modify fun s => s.setPipe pi x

def setProc (p : Nat) (x : Proc) : Kernel Unit := modify fun s => s.setProc p x

/-- `p->ofile[fd] = f`. -/
def setOfile (p fd : Nat) (f : Option Nat) : Kernel Unit :=
  modify fun s => s.setProc p ((s.procs p).setOfile fd f)

/-- A `short`, which wraps. -/
def short (n : Int) : Int := (n + 32768) % 65536 - 32768

/-! ## Inodes -/

/-- The inode that an entry of the table stands for. -/
def State.inode (s : State) (e : Nat) : Inode := s.inodes (s.itable e).inum

/-- The inode of an entry is changed, with `iupdate`. -/
def setInodeOf (e : Nat) (ip : Inode) : Kernel Unit := do
  let s ← get
  setInode (s.itable e).inum ip

/-- The entry that is in use for the inode. -/
def State.entryOf (s : State) (i : Nat) : Option Nat :=
  (List.range NINODE).find? fun e => 0 < (s.itable e).ref ∧ (s.itable e).inum = i

def State.freeEntry (s : State) : Option Nat :=
  (List.range NINODE).find? fun e => (s.itable e).ref = 0

def iget (i : Nat) : Kernel Nat := do
  let s ← get
  match s.entryOf i with
  | some e => do
    setEntry e { s.itable e with ref := (s.itable e).ref + 1 }
    pure e
  | none =>
    match s.freeEntry with
    | some e => do
      setEntry e { inum := i, ref := 1, valid := false }
      pure e
    | none => throw .igetNoInodes

def idup (e : Nat) : Kernel Unit := do
  let s ← get
  setEntry e { s.itable e with ref := (s.itable e).ref + 1 }

def ilock (e : Nat) : Kernel Unit := do
  let s ← get
  if (s.itable e).ref < 1 then throw .ilock
  else if (s.itable e).valid then pure ()
  else if (s.inode e).type = 0 then throw .ilockNoType
  else setEntry e { s.itable e with valid := true }

/-- The content of an inode goes. -/
def Inode.truncated (ip : Inode) : Inode := { ip with entries := [] }

def iput (e : Nat) : Kernel Unit := do
  let s ← get
  if (s.itable e).ref = 1 ∧ (s.itable e).valid ∧ (s.inode e).nlink = 0 then do
    setInode (s.itable e).inum { (s.inode e).truncated with type := 0 }
    setEntry e { s.itable e with ref := (s.itable e).ref - 1, valid := false }
  else setEntry e { s.itable e with ref := (s.itable e).ref - 1 }

variable (sb : Superblock)

/-- The first free inode. The numbers start at 1. -/
def State.freeInode (s : State) : Option Nat :=
  (List.range sb.ninodes).find? fun i => 0 < i ∧ (s.inodes i).type = 0

def ialloc (type : Nat) : Kernel (Option Nat) := do
  let s ← get
  match s.freeInode sb with
  | none => pure none
  | some i => do
    setInode i { type, major := 0, minor := 0, nlink := 0, entries := [] }
    let e ← iget i
    pure (some e)

/-! ## Directories -/

/-- The place of the name in a directory. -/
def Inode.slot (d : Inode) (name : Name) : Option Nat :=
  d.entries.findIdx? fun de => de.inum ≠ 0 ∧ de.name = name

def Inode.inumAt (d : Inode) (k : Nat) : Nat := (d.entries.getD k ⟨0, []⟩).inum

/-- The entry of the table for the inode with the name, and the place of the name. -/
def dirlookup (dp : Nat) (name : Name) : Kernel (Option (Nat × Nat)) := do
  let s ← get
  if (s.inode dp).type = T_DIR then
    match (s.inode dp).slot name with
    | none => pure none
    | some k => do
      let e ← iget ((s.inode dp).inumAt k)
      pure (some (e, k))
  else throw .dirlookupNotDir

/-- The directory with one more entry, in the first free place or at its end. There may be no room
at the end. -/
def Inode.link (d : Inode) (de : Dirent) (room : Bool) : Option Inode :=
  match d.entries.findIdx? fun de => de.inum = 0 with
  | some k => some { d with entries := d.entries.set k de }
  | none =>
    if room ∧ 16 * (d.entries.length + 1) ≤ MAXFILE * BSIZE then
      some { d with entries := d.entries ++ [de] }
    else none

/-- Whether the entry could be made. The number in it is a `ushort`. -/
def dirlink (dp : Nat) (name : Name) (inum : Nat) (room : Bool) : Kernel Bool := do
  let r ← dirlookup dp name
  match r with
  | some (e, _) => do
    iput e
    pure false
  | none => do
    let s ← get
    match (s.inode dp).link ⟨inum % 65536, name⟩ room with
    | none => pure false
    | some d => do
      setInodeOf dp d
      pure true

/-- The elements that `skipelem` takes off a path one after the other. -/
def elems (path : List UInt8) : List Name :=
  ((path.splitOn 47).filter fun x => x ≠ []).map fun x => x.take DIRSIZ

/-- The loop of `namex`, at the entry of the inode that the path has come to. -/
def namexFrom (parent : Bool) (ip : Nat) : List Name → Kernel (Option (Nat × Name))
  | [] =>
    if parent then do
      iput ip
      pure none
    else pure (some (ip, []))
  | name :: path => do
    ilock ip
    let s ← get
    if (s.inode ip).type ≠ T_DIR then do
      iput ip
      pure none
    else if parent ∧ path = [] then pure (some (ip, name))
    else do
      let r ← dirlookup ip name
      match r with
      | none => do
        iput ip
        pure none
      | some (next, _) => do
        iput ip
        namexFrom parent next path

def namex (p : Nat) (path : List UInt8) (parent : Bool) : Kernel (Option (Nat × Name)) := do
  let s ← get
  if path.head? = some 47 then do
    let ip ← iget ROOTINO
    namexFrom parent ip (elems path)
  else
    match (s.procs p).cwd with
    | none => throw .kerneltrap
    | some ip => do
      idup ip
      namexFrom parent ip (elems path)

/-! ## Files -/

def State.freeFile (s : State) : Option Nat :=
  (List.range NFILE).find? fun f => (s.ftable f).ref = 0

def filealloc : Kernel (Option Nat) := do
  let s ← get
  match s.freeFile with
  | none => pure none
  | some f => do
    setFile f { s.ftable f with ref := 1 }
    pure (some f)

def filedup (f : Nat) : Kernel Unit := do
  let s ← get
  if (s.ftable f).ref < 1 then throw .filedup
  else setFile f { s.ftable f with ref := (s.ftable f).ref + 1 }

/-- One end of the pipe is closed, and the page is freed when both are. -/
def pipeclose (pi : Nat) (writable : Bool) : Kernel Unit := do
  let s ← get
  let x := if writable then { s.pipes pi with writeopen := false }
    else { s.pipes pi with readopen := false }
  if x.readopen = false ∧ x.writeopen = false then setPipe pi { x with live := false }
  else setPipe pi x

def fileclose (f : Nat) : Kernel Unit := do
  let s ← get
  let ff := s.ftable f
  if ff.ref < 1 then throw .fileclose
  else if 0 < ff.ref - 1 then setFile f { ff with ref := ff.ref - 1 }
  else do
    setFile f { ff with ref := 0, type := .none }
    match ff.type with
    | .pipe => pipeclose ff.pipe ff.writable
    | .inode => iput ff.ip
    | .device => iput ff.ip
    | .none => pure ()

/-- The files for the two ends of a new pipe. The page is the one that `kalloc` gives, if any. -/
def pipealloc (page : Option Nat) : Kernel (Option (Nat × Nat)) := do
  let r ← filealloc
  match r with
  | none => pure none
  | some f0 => do
    let r ← filealloc
    match r with
    | none => do
      fileclose f0
      pure none
    | some f1 =>
      match page with
      | none => do
        fileclose f0
        fileclose f1
        pure none
      | some pi => do
        setPipe pi { live := true, readopen := true, writeopen := true }
        let s ← get
        setFile f0 { s.ftable f0 with type := .pipe, readable := true, writable := false, pipe := pi }
        let s ← get
        setFile f1 { s.ftable f1 with type := .pipe, readable := false, writable := true, pipe := pi }
        pure (some (f0, f1))

/-! ## The calls of a process -/

/-- The descriptor and the file in an argument. -/
def argfd (p : Nat) (fd : Int) : Kernel (Option (Nat × Nat)) := do
  let s ← get
  if 0 ≤ fd ∧ fd < NOFILE then
    match (s.procs p).ofile fd.toNat with
    | none => pure none
    | some f => pure (some (fd.toNat, f))
  else pure none

def Proc.freeFd (p : Proc) : Option Nat := (List.range NOFILE).find? fun fd => p.ofile fd = none

def fdalloc (p f : Nat) : Kernel (Option Nat) := do
  let s ← get
  match (s.procs p).freeFd with
  | none => pure none
  | some fd => do
    setOfile p fd (some f)
    pure (some fd)

def sysDup (p : Nat) (fd : Int) : Kernel (Option Nat) := do
  let r ← argfd p fd
  match r with
  | none => pure none
  | some (_, f) => do
    let r ← fdalloc p f
    match r with
    | none => pure none
    | some fd => do
      filedup f
      pure (some fd)

def sysClose (p : Nat) (fd : Int) : Kernel Bool := do
  let r ← argfd p fd
  match r with
  | none => pure false
  | some (fd, f) => do
    setOfile p fd none
    fileclose f
    pure true

/-- The part of `sys_link` behind the label `bad`. -/
def linkBad (ip : Nat) : Kernel Bool := do
  ilock ip
  let s ← get
  setInodeOf ip { s.inode ip with nlink := short ((s.inode ip).nlink - 1) }
  iput ip
  pure false

/-- A path is `none` where `argstr` fails. -/
def sysLink (p : Nat) (old new : Option (List UInt8)) (room : Bool) : Kernel Bool :=
  match old, new with
  | some old, some new => do
    let r ← namex p old false
    match r with
    | none => pure false
    | some (ip, _) => do
      ilock ip
      let s ← get
      if (s.inode ip).type = T_DIR then do
        iput ip
        pure false
      else do
        setInodeOf ip { s.inode ip with nlink := short ((s.inode ip).nlink + 1) }
        let r ← namex p new true
        match r with
        | none => linkBad ip
        | some (dp, name) => do
          ilock dp
          let s ← get
          let linked ← dirlink dp name (s.itable ip).inum room
          if linked then do
            iput dp
            iput ip
            pure true
          else do
            iput dp
            linkBad ip
  | _, _ => pure false

/-- No entries behind the first two. -/
def Inode.isdirempty (d : Inode) : Bool := (d.entries.drop 2).all fun de => de.inum = 0

/-- The part of `sys_unlink` once the inode is found. -/
def unlinkFound (dp ip k : Nat) : Kernel Bool := do
  ilock ip
  let s ← get
  if (s.inode ip).nlink < 1 then throw .unlinkNlink
  else if (s.inode ip).type = T_DIR ∧ (s.inode ip).isdirempty = false then do
    iput ip
    iput dp
    pure false
  else do
    setInodeOf dp { s.inode dp with entries := (s.inode dp).entries.set k ⟨0, []⟩ }
    let s ← get
    if (s.inode ip).type = T_DIR then
      setInodeOf dp { s.inode dp with nlink := short ((s.inode dp).nlink - 1) }
    else pure ()
    iput dp
    let s ← get
    setInodeOf ip { s.inode ip with nlink := short ((s.inode ip).nlink - 1) }
    iput ip
    pure true

def sysUnlink (p : Nat) (path : Option (List UInt8)) : Kernel Bool :=
  match path with
  | none => pure false
  | some path => do
    let r ← namex p path true
    match r with
    | none => pure false
    | some (dp, name) => do
      ilock dp
      if name = [46] ∨ name = [46, 46] then do
        iput dp
        pure false
      else do
        let r ← dirlookup dp name
        match r with
        | none => do
          iput dp
          pure false
        | some (ip, k) => unlinkFound dp ip k

/-- Whether there was room for each of the entries that `create` makes. -/
structure Room where
  dot : Bool
  dotdot : Bool
  name : Bool
deriving DecidableEq, Repr

/-- The part of `create` behind the label `fail`. -/
def createFail (dp ip : Nat) : Kernel (Option Nat) := do
  let s ← get
  setInodeOf ip { s.inode ip with nlink := 0 }
  iput ip
  iput dp
  pure none

/-- The entries `.` and `..` of a new directory. -/
def createDots (dp ip : Nat) (room : Room) : Kernel Bool := do
  let s ← get
  let dot ← dirlink ip [46] (s.itable ip).inum room.dot
  if dot then dirlink ip [46, 46] (s.itable dp).inum room.dotdot else pure false

/-- The part of `create` with the new inode. -/
def createNew (dp ip : Nat) (name : Name) (type : Nat) (major minor : Int) (room : Room) :
    Kernel (Option Nat) := do
  ilock ip
  let s ← get
  setInodeOf ip { s.inode ip with major := short major, minor := short minor, nlink := 1 }
  let dots ← if type = T_DIR then createDots dp ip room else pure true
  if dots then do
    let s ← get
    let linked ← dirlink dp name (s.itable ip).inum room.name
    if linked then do
      let s ← get
      if type = T_DIR then
        setInodeOf dp { s.inode dp with nlink := short ((s.inode dp).nlink + 1) }
      else pure ()
      iput dp
      pure (some ip)
    else createFail dp ip
  else createFail dp ip

def create (p : Nat) (path : List UInt8) (type : Nat) (major minor : Int) (room : Room) :
    Kernel (Option Nat) := do
  let r ← namex p path true
  match r with
  | none => pure none
  | some (dp, name) => do
    ilock dp
    let r ← dirlookup dp name
    match r with
    | some (ip, _) => do
      iput dp
      ilock ip
      let s ← get
      if type = T_FILE ∧ ((s.inode ip).type = T_FILE ∨ (s.inode ip).type = T_DEVICE) then
        pure (some ip)
      else do
        iput ip
        pure none
    | none => do
      let r ← ialloc sb type
      match r with
      | none => do
        iput dp
        pure none
      | some ip => createNew dp ip name type major minor room

/-- The part of `sys_open` with the inode. -/
def openInode (p ip : Nat) (omode : Nat) : Kernel (Option Nat) := do
  let s ← get
  if (s.inode ip).type = T_DEVICE ∧ ((s.inode ip).major < 0 ∨ NDEV ≤ (s.inode ip).major) then do
    iput ip
    pure none
  else do
    let r ← filealloc
    match r with
    | none => do
      iput ip
      pure none
    | some f => do
      let r ← fdalloc p f
      match r with
      | none => do
        fileclose f
        iput ip
        pure none
      | some fd => do
        let s ← get
        setFile f { s.ftable f with
          type := if (s.inode ip).type = T_DEVICE then .device else .inode
          major := if (s.inode ip).type = T_DEVICE then (s.inode ip).major else (s.ftable f).major
          off := if (s.inode ip).type = T_DEVICE then (s.ftable f).off else 0
          ip := ip
          readable := omode &&& O_WRONLY = 0
          writable := omode &&& O_WRONLY ≠ 0 ∨ omode &&& O_RDWR ≠ 0 }
        if omode &&& O_TRUNC ≠ 0 ∧ (s.inode ip).type = T_FILE then
          setInodeOf ip (s.inode ip).truncated
        else pure ()
        pure (some fd)

def sysOpen (p : Nat) (path : Option (List UInt8)) (omode : Nat) (room : Room) :
    Kernel (Option Nat) :=
  match path with
  | none => pure none
  | some path =>
    if omode &&& O_CREATE ≠ 0 then do
      let r ← create sb p path T_FILE 0 0 room
      match r with
      | none => pure none
      | some ip => openInode p ip omode
    else do
      let r ← namex p path false
      match r with
      | none => pure none
      | some (ip, _) => do
        ilock ip
        let s ← get
        if (s.inode ip).type = T_DIR ∧ omode ≠ 0 then do
          iput ip
          pure none
        else openInode p ip omode

def sysMkdir (p : Nat) (path : Option (List UInt8)) (room : Room) : Kernel Bool :=
  match path with
  | none => pure false
  | some path => do
    let r ← create sb p path T_DIR 0 0 room
    match r with
    | none => pure false
    | some ip => do
      iput ip
      pure true

def sysMknod (p : Nat) (path : Option (List UInt8)) (major minor : Int) (room : Room) : Kernel Bool :=
  match path with
  | none => pure false
  | some path => do
    let r ← create sb p path T_DEVICE major minor room
    match r with
    | none => pure false
    | some ip => do
      iput ip
      pure true

def sysChdir (p : Nat) (path : Option (List UInt8)) : Kernel Bool :=
  match path with
  | none => pure false
  | some path => do
    let r ← namex p path false
    match r with
    | none => pure false
    | some (ip, _) => do
      ilock ip
      let s ← get
      if (s.inode ip).type ≠ T_DIR then do
        iput ip
        pure false
      else
        match (s.procs p).cwd with
        | none => throw .kerneltrap
        | some cwd => do
          iput cwd
          let s ← get
          setProc p { s.procs p with cwd := some ip }
          pure true

/-- `copied` says whether both descriptors could be copied to the user. -/
def sysPipe (p : Nat) (page : Option Nat) (copied : Bool) : Kernel Bool := do
  let r ← pipealloc page
  match r with
  | none => pure false
  | some (rf, wf) => do
    let r ← fdalloc p rf
    match r with
    | none => do
      fileclose rf
      fileclose wf
      pure false
    | some fd0 => do
      let r ← fdalloc p wf
      match r with
      | none => do
        setOfile p fd0 none
        fileclose rf
        fileclose wf
        pure false
      | some fd1 =>
        if copied then pure true
        else do
          setOfile p fd0 none
          setOfile p fd1 none
          fileclose rf
          fileclose wf
          pure false

/-! ## Processes -/

/-- The loop of `kfork` over the descriptors. -/
def forkFiles (p np : Nat) : List Nat → Kernel Unit
  | [] => pure ()
  | fd :: fds => do
    let s ← get
    match (s.procs p).ofile fd with
    | none => forkFiles p np fds
    | some f => do
      filedup f
      setOfile np fd (some f)
      forkFiles p np fds

def State.freeProc (s : State) : Option Nat :=
  (List.range NPROC).find? fun np => (s.procs np).state = .unused

/-- `memory` says whether `allocproc` and `uvmcopy` found the pages. -/
def kfork (p : Nat) (memory : Bool) : Kernel (Option Nat) := do
  let s ← get
  match s.freeProc with
  | none => pure none
  | some np =>
    if memory then do
      forkFiles p np (List.range NOFILE)
      let s ← get
      match (s.procs p).cwd with
      | none => throw .kerneltrap
      | some cwd => do
        idup cwd
        let s ← get
        setProc np { s.procs np with cwd := some cwd, state := .running }
        pure (some np)
    else pure none

/-- The loop of `kexit` over the descriptors. -/
def exitFiles (p : Nat) : List Nat → Kernel Unit
  | [] => pure ()
  | fd :: fds => do
    let s ← get
    match (s.procs p).ofile fd with
    | none => exitFiles p fds
    | some f => do
      fileclose f
      setOfile p fd none
      exitFiles p fds

/-- The first process is `init`. -/
def kexit (p : Nat) : Kernel Unit :=
  if p = 0 then throw .initExiting
  else do
    exitFiles p (List.range NOFILE)
    let s ← get
    match (s.procs p).cwd with
    | none => throw .kerneltrap
    | some cwd => do
      iput cwd
      let s ← get
      setProc p { s.procs p with cwd := none, state := .zombie }

/-- What `freeproc` does here to a process that has ended, when `kwait` finds it. -/
def freeproc (p : Nat) : Kernel Unit := do
  let s ← get
  setProc p { s.procs p with state := .unused }

/-! ## Runs -/

inductive Act
  | open (p : Nat) (path : Option (List UInt8)) (omode : Nat) (room : Room)
  | dup (p : Nat) (fd : Int)
  | close (p : Nat) (fd : Int)
  | pipe (p : Nat) (page : Option Nat) (copied : Bool)
  | chdir (p : Nat) (path : Option (List UInt8))
  | link (p : Nat) (old new : Option (List UInt8)) (room : Bool)
  | unlink (p : Nat) (path : Option (List UInt8))
  | mkdir (p : Nat) (path : Option (List UInt8)) (room : Room)
  | mknod (p : Nat) (path : Option (List UInt8)) (major minor : Int) (room : Room)
  | fork (p : Nat) (memory : Bool)
  | exit (p : Nat)
  /-- `kwait` finds that the process has ended -/
  | reap (p : Nat)
deriving DecidableEq, Repr

/-- The state after a call, or the panic. -/
def State.run {α : Type} (s : State) (m : Kernel α) : State :=
  match m s with
  | .ok r => r.2
  | .error e => { s with panicked := some e }

/-- The process that makes the call is there. -/
def State.runs (s : State) (p : Nat) : Prop := p < NPROC ∧ (s.procs p).state = .running

instance (s : State) (p : Nat) : Decidable (s.runs p) := inferInstanceAs (Decidable (_ ∧ _))

/-- One call. `kalloc` gives no page that is in use. -/
def State.step (s : State) (a : Act) : Option State :=
  if s.panicked ≠ none then none
  else
    match a with
    | .open p path omode room => if s.runs p then some (s.run (sysOpen sb p path omode room)) else none
    | .dup p fd => if s.runs p then some (s.run (sysDup p fd)) else none
    | .close p fd => if s.runs p then some (s.run (sysClose p fd)) else none
    | .pipe p page copied =>
      if s.runs p ∧ ∀ pi ∈ page, (s.pipes pi).live = false then some (s.run (sysPipe p page copied))
      else none
    | .chdir p path => if s.runs p then some (s.run (sysChdir p path)) else none
    | .link p old new room => if s.runs p then some (s.run (sysLink p old new room)) else none
    | .unlink p path => if s.runs p then some (s.run (sysUnlink p path)) else none
    | .mkdir p path room => if s.runs p then some (s.run (sysMkdir sb p path room)) else none
    | .mknod p path major minor room =>
      if s.runs p then some (s.run (sysMknod sb p path major minor room)) else none
    | .fork p memory => if s.runs p then some (s.run (kfork p memory)) else none
    | .exit p => if s.runs p then some (s.run (kexit p)) else none
    | .reap p =>
      if p < NPROC ∧ (s.procs p).state = .zombie then some (s.run (freeproc p)) else none

/-- The first process, in the root directory, and some files on the disk. -/
def State.start (inodes : Nat → Inode) : State where
  inodes := inodes
  itable e := if e = 0 then ⟨ROOTINO, 1, false⟩ else ⟨0, 0, false⟩
  ftable _ := ⟨.none, 0, false, false, 0, 0, 0, 0⟩
  pipes _ := ⟨false, false, false⟩
  procs p :=
    if p = 0 then ⟨.running, fun _ => none, some 0⟩ else ⟨.unused, fun _ => none, none⟩
  panicked := none

end xv6.sysfile
