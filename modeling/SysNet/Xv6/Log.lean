-- The log of the file system (kernel/log.c) over the buffer cache: the
-- calls of the operations, the commit, a crash and the recovery. A step
-- writes one disk block at most.
import Mathlib.Logic.Function.Basic
import Mathlib.Data.List.Basic

namespace xv6.log

/-! ## Blocks and buffers -/

def MAXOPBLOCKS : Nat := 10

def LOGBLOCKS : Nat := MAXOPBLOCKS * 3

/-- The words of a disk block. -/
abbrev Block := Nat → Nat

/-- The `struct logheader` in the header block: the word `n`, then the array. -/
def readHeader (h : Block) : List Nat := (List.range (h 0)).map fun i => h (i + 1)

/-- The stores of `write_head`. The words behind the first `n` of the array stay. -/
def writeHeader (lh : List Nat) (h : Block) : Block := fun w =>
  if w = 0 then lh.length else lh.getD (w - 1) (h w)

/-- Who has the sleep lock of a buffer: a process, or the one in `commit` or in
`recover_from_log`. -/
inductive Holder
  | proc (p : Nat)
  | committer
deriving DecidableEq, Repr

/-- The buffer of a block. It has no data when the block is not cached. -/
structure Buf where
  data : Option Block
  refcnt : Nat
  lock : Option Holder

def Buf.free : Buf := { data := none, refcnt := 0, lock := none }

/-! ## The state -/

inductive Panic
  | committing
  | tooBig
  | outsideOfTrans
deriving DecidableEq, Repr

/-- Where the commit or the recovery is. -/
inductive Pc
  | off
  /-- no commit is under way -/
  | idle
  /-- the test of `commit` -/
  | commit
  | writeLog (tail : Nat)
  | writeHead
  | install (recovering : Bool) (tail : Nat)
  /-- `log.lh.n = 0` and the second `write_head` -/
  | eraseHead (recovering : Bool)
  /-- the end of `end_op` -/
  | finish
deriving DecidableEq, Repr

/-- Other processes run only after the recovery. -/
def Pc.running : Pc → Bool
  | .off => false
  | .install recovering _ => !recovering
  | .eraseHead recovering => !recovering
  | _ => true

structure State where
  disk : Nat → Block
  bcache : Nat → Buf
  /-- the first `n` of `log.lh.block` -/
  lh : List Nat
  outstanding : Nat
  committing : Bool
  /-- a process that panics keeps `log.lock` -/
  panicked : Option Panic
  pc : Pc
  /-- the processes between `begin_op` and `end_op` -/
  ops : List Nat
  /-- the blocks that the operation of a process has changed, and those it has logged -/
  modified : Nat → List Nat
  logged : Nat → List Nat

/-- The machine is off. Only the disk is left. -/
def State.down (disk : Nat → Block) : State :=
  { disk, bcache := fun _ => .free, lh := [], outstanding := 0, committing := false,
    panicked := none, pc := .off, ops := [], modified := fun _ => [], logged := fun _ => [] }

/-! ## The buffer cache -/

/-- What a read of the block gives. -/
def State.data (s : State) (b : Nat) : Block := (s.bcache b).data.getD (s.disk b)

/-- `bread` waits for the lock of the buffer. -/
def State.bread (s : State) (h : Holder) (b : Nat) : Option State :=
  if (s.bcache b).lock = none then
    some { s with
      bcache := Function.update s.bcache b
        { data := some (s.data b), refcnt := (s.bcache b).refcnt + 1, lock := some h } }
  else none

def State.setData (s : State) (b : Nat) (d : Block) : State :=
  { s with bcache := Function.update s.bcache b { s.bcache b with data := some d } }

/-- The block is on the disk when `bwrite` returns. -/
def State.bwrite (s : State) (b : Nat) : State :=
  { s with disk := Function.update s.disk b (s.data b) }

def State.brelse (s : State) (b : Nat) : State :=
  { s with
    bcache := Function.update s.bcache b
      { s.bcache b with refcnt := (s.bcache b).refcnt - 1, lock := none } }

def State.bpin (s : State) (b : Nat) : State :=
  { s with bcache := Function.update s.bcache b { s.bcache b with refcnt := (s.bcache b).refcnt + 1 } }

def State.bunpin (s : State) (b : Nat) : State :=
  { s with bcache := Function.update s.bcache b { s.bcache b with refcnt := (s.bcache b).refcnt - 1 } }

/-- `bget` takes the buffer of a block that nobody uses for another block. -/
def State.recycle (s : State) (b : Nat) : Option State :=
  if (s.bcache b).refcnt = 0 then
    some { s with bcache := Function.update s.bcache b { s.bcache b with data := none } }
  else none

/-! ## The steps of `commit` and `recover_from_log` -/

section
variable (start : Nat)

/-- A turn of the loop of `write_log`. It has both buffers locked until the block is on the
disk, so it is one step. -/
def State.logBlock (s : State) (tail dst : Nat) : Option State := do
  let s ← s.bread .committer (start + tail + 1)
  let s ← s.bread .committer dst
  let s := s.setData (start + tail + 1) (s.data dst)
  let s := s.bwrite (start + tail + 1)
  let s := s.brelse dst
  return s.brelse (start + tail + 1)

/-- A turn of the loop of `install_trans`. -/
def State.installBlock (s : State) (recovering : Bool) (tail dst : Nat) : Option State := do
  let s ← s.bread .committer (start + tail + 1)
  let s ← s.bread .committer dst
  let s := s.setData dst (s.data (start + tail + 1))
  let s := s.bwrite dst
  let s := if recovering then s else s.bunpin dst
  let s := s.brelse (start + tail + 1)
  return s.brelse dst

def State.write_head (s : State) : Option State := do
  let s ← s.bread .committer start
  let s := s.setData start (writeHeader s.lh (s.data start))
  let s := s.bwrite start
  return s.brelse start

def State.read_head (s : State) : Option State := do
  let s ← s.bread .committer start
  let s := { s with lh := readHeader (s.data start) }
  return s.brelse start

/-- The next step of the process that commits or recovers. -/
def State.proceed (s : State) : Option State :=
  match s.pc with
  | .off => none
  | .idle => none
  | .commit => some { s with pc := if 0 < s.lh.length then .writeLog 0 else .finish }
  | .writeLog tail =>
    match s.lh[tail]? with
    | some dst => (s.logBlock start tail dst).map fun s => { s with pc := .writeLog (tail + 1) }
    | none => some { s with pc := .writeHead }
  | .writeHead => (s.write_head start).map fun s => { s with pc := .install false 0 }
  | .install recovering tail =>
    match s.lh[tail]? with
    | some dst =>
      (s.installBlock start recovering tail dst).map fun s =>
        { s with pc := .install recovering (tail + 1) }
    | none => some { s with pc := .eraseHead recovering }
  | .eraseHead recovering =>
    (State.write_head start { s with lh := [] }).map fun s =>
      { s with pc := if recovering then .idle else .finish }
  | .finish => if s.panicked = none then some { s with committing := false, pc := .idle } else none

/-- `initlog` starts with the header on the disk. -/
def State.initlog (s : State) : Option State :=
  if s.pc = .off then (s.read_head start).map fun s => { s with pc := .install true 0 } else none

end

/-! ## The calls of the operations -/

def State.begin_op (s : State) (p : Nat) : Option State :=
  if s.panicked = none ∧ p ∉ s.ops then
    if s.committing then none
    else if LOGBLOCKS < s.lh.length + (s.outstanding + 1) * MAXOPBLOCKS then none
    else some { s with outstanding := s.outstanding + 1, ops := p :: s.ops }
  else none

/-- The part of `end_op` under the lock. The operation has logged what it changed. -/
def State.end_op (s : State) (p : Nat) : Option State :=
  if s.panicked = none ∧ p ∈ s.ops ∧ s.modified p ⊆ s.logged p then
    let s := { s with
      outstanding := s.outstanding - 1, ops := s.ops.erase p
      modified := Function.update s.modified p [], logged := Function.update s.logged p [] }
    if s.committing then some { s with panicked := some .committing }
    else if s.outstanding = 0 then some { s with committing := true, pc := .commit }
    else some s
  else none

section
variable (start : Nat)

/-- The blocks outside the log. -/
def Home (b : Nat) : Prop := b < start ∨ start + LOGBLOCKS < b

instance (b : Nat) : Decidable (Home start b) := inferInstanceAs (Decidable (_ ∨ _))

/-- `log_write` of a buffer that the process has locked. -/
def State.log_write (s : State) (p b : Nat) : Option State :=
  if s.panicked = none ∧ p ∈ s.ops ∧ (s.bcache b).lock = some (.proc p) ∧ Home start b then
    if LOGBLOCKS ≤ s.lh.length then some { s with panicked := some .tooBig }
    else if s.outstanding < 1 then some { s with panicked := some .outsideOfTrans }
    else
      let s := { s with logged := Function.update s.logged p (b :: s.logged p) }
      -- log absorption
      if b ∈ s.lh then some s else some { s.bpin b with lh := s.lh ++ [b] }
  else none

/-- A store to a word of a buffer that the process has locked. -/
def State.store (s : State) (p b w v : Nat) : Option State :=
  if p ∈ s.ops ∧ (s.bcache b).lock = some (.proc p) ∧ Home start b then
    some { s.setData b (Function.update (s.data b) w v) with
      modified := Function.update s.modified p (b :: s.modified p) }
  else none

/-- A process lets a buffer go. It has logged the block if it has changed it. -/
def State.release (s : State) (p b : Nat) : Option State :=
  if (s.bcache b).lock = some (.proc p) ∧ (b ∈ s.modified p → b ∈ s.logged p) then
    some (s.brelse b)
  else none

/-! ## The system -/

inductive Call
  | begin_op (p : Nat)
  | end_op (p : Nat)
  | log_write (p b : Nat)
  | bread (p b : Nat)
  | store (p b w v : Nat)
  | brelse (p b : Nat)
deriving DecidableEq, Repr

inductive Step
  /-- a process calls the log or the buffer cache -/
  | call (c : Call)
  /-- the commit or the recovery goes on -/
  | proceed
  | recycle (b : Nat)
  | crash
  | initlog
deriving DecidableEq, Repr

def State.call (s : State) : Call → Option State
  | .begin_op p => s.begin_op p
  | .end_op p => s.end_op p
  | .log_write p b => s.log_write start p b
  | .bread p b => s.bread (.proc p) b
  | .store p b w v => s.store start p b w v
  | .brelse p b => s.release p b

def State.step (s : State) : Step → Option State
  | .call c => if s.pc.running then s.call start c else none
  | .proceed => s.proceed start
  | .recycle b => s.recycle b
  | .crash => some (.down s.disk)
  | .initlog => s.initlog start

end

/-! ## Groups of operations -/

/-- The contents of the blocks, as the operations see them: before the current group of
operations, and now. The commit write ends what a crash can take back. -/
structure Group where
  before : Nat → Block
  now : Nat → Block
  committed : Bool
  /-- the contents after each group whose commit write reached the disk -/
  commits : List (Nat → Block)

/-- What a crash leaves of the group. -/
def Group.kept (g : Group) : Nat → Block := if g.committed then g.now else g.before

def Group.init (disk : Nat → Block) : Group :=
  { before := disk, now := disk, committed := false, commits := [] }

/-- What a step means for the group. -/
def Group.observe (g : Group) (pc : Pc) : Step → Group
  | .call (.store _ b w v) =>
    { g with now := Function.update g.now b (Function.update (g.now b) w v) }
  | .proceed =>
    match pc with
    | .writeHead => { g with committed := true, commits := g.commits ++ [g.now] }
    | .finish => { g with before := g.now, committed := false }
    | _ => g
  | .crash => { g with before := g.kept, now := g.kept, committed := false }
  | _ => g

/-- The system with the groups that it has seen. -/
structure System where
  st : State
  group : Group

def System.init (disk : Nat → Block) : System := { st := .down disk, group := .init disk }

def System.step (start : Nat) (x : System) (a : Step) : Option System :=
  (x.st.step start a).map fun s => { st := s, group := x.group.observe x.st.pc a }

end xv6.log
