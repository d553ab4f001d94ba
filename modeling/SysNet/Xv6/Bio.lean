-- The buffer cache (kernel/bio.c): the buffers in a circular list in the
-- order of their use, found by device and block number, with a count of the
-- references and a sleep lock for each. A step is what happens under one
-- lock, so calls of several processes come in any order.
import Mathlib.Logic.Function.Basic
import SysNet.Lib.Chains

open chains

namespace xv6.bio

def NBUF : Nat := 30

/-! ## The list -/

/-- An address in the list: that of `bcache.head`, or of a buffer. -/
inductive Node
  | head
  | buf (b : Nat)
deriving DecidableEq, Repr

/-- The pointers `next` and `prev`. -/
structure Links where
  next : Node → Node
  prev : Node → Node

def Links.setNext (k : Links) (x y : Node) : Links := { k with next := Function.update k.next x y }

def Links.setPrev (k : Links) (x y : Node) : Links := { k with prev := Function.update k.prev x y }

/-- The buffer comes to the head of the list. -/
def Links.insert (k : Links) (b : Nat) : Links :=
  let k := k.setNext (.buf b) (k.next .head)
  let k := k.setPrev (.buf b) .head
  let k := k.setPrev (k.next .head) (.buf b)
  k.setNext .head (.buf b)

/-- The buffer goes out of the list. -/
def Links.remove (k : Links) (b : Nat) : Links :=
  let k := k.setPrev (k.next (.buf b)) (k.prev (.buf b))
  k.setNext (k.prev (.buf b)) (k.next (.buf b))

def binit (k : Links) : Links :=
  let k := k.setPrev .head .head
  let k := k.setNext .head .head
  (List.range NBUF).foldl Links.insert k

/-! ## The buffers -/

/-- A `uint`, which wraps. -/
def uint (n : Nat) : Nat := n % 4294967296

/-- A `struct buf`. The lock has the process that holds it. -/
structure Buf (D : Type) where
  valid : Bool
  dev : Nat
  blockno : Nat
  lock : Option Nat
  refcnt : Nat
  data : D

/-- Where a process is in a call. -/
inductive Pc
  | idle
  /-- in `acquiresleep`, at the end of `bget` -/
  | locking (b dev blockno : Nat)
  /-- in `bread`, behind `bget` -/
  | reading (b dev blockno : Nat)
  /-- in `brelse`, behind `releasesleep` -/
  | releasing (b : Nat)
deriving DecidableEq, Repr

inductive Panic
  | noBuffers
  | bwrite
  | brelse
deriving DecidableEq, Repr

/-- The cache, the disk, and the processes that use them. -/
structure State (D : Type) where
  links : Links
  buf : Nat → Buf D
  /-- the blocks by device. `virtio_disk_rw` knows one disk only and does not look at `b->dev`: what is
  here under another number than `ROOTDEV`, the only one that the kernel asks for, is on no disk -/
  disk : Nat → Nat → D
  pc : Nat → Pc
  panicked : Option Panic
  /-- the processes that a buffer was given to, and how many pins there are on it -/
  users : Nat → List Nat
  pins : Nat → Nat
  /-- what was left in the buffer of a block since it was read from the disk; nothing since the
  buffer was recycled -/
  left : Nat → Nat → Option D

variable {D : Type}

/-- After `binit`. The memory of the buffers was zero, but for their data. -/
def State.start (links : Links) (data : Nat → D) (disk : Nat → Nat → D) : State D :=
  { links := binit links
    buf := fun b =>
      { valid := false, dev := 0, blockno := 0, lock := none, refcnt := 0, data := data b }
    disk, pc := fun _ => .idle, panicked := none, users := fun _ => [], pins := fun _ => 0
    left := fun _ _ => none }

def State.set (s : State D) (b : Nat) (x : Buf D) : State D :=
  { s with buf := Function.update s.buf b x }

def State.goto (s : State D) (p : Nat) (pc : Pc) : State D :=
  { s with pc := Function.update s.pc p pc }

def State.leave (s : State D) (dev blockno : Nat) (x : Option D) : State D :=
  { s with left := Function.update s.left dev (Function.update (s.left dev) blockno x) }

/-! ## bget and bread -/

/-- The first loop of `bget` stops: the block is cached, or the list is at its end. -/
def State.isCached (s : State D) (dev blockno : Nat) : Node → Prop
  | .head => True
  | .buf b => (s.buf b).dev = dev ∧ (s.buf b).blockno = blockno

/-- The second loop of `bget` stops: the buffer is unused, or the list is at its end. -/
def State.isUnused (s : State D) : Node → Prop
  | .head => True
  | .buf b => (s.buf b).refcnt = 0

instance (s : State D) (dev blockno : Nat) : DecidablePred (s.isCached dev blockno) := fun x => by
  unfold State.isCached
  split <;> infer_instance

instance (s : State D) : DecidablePred s.isUnused := fun x => by
  unfold State.isUnused
  split <;> infer_instance

/-- The process has a reference to the buffer, and waits for its lock. -/
def State.refer (s : State D) (p b dev blockno : Nat) : State D :=
  { s with users := Function.update s.users b (p :: s.users b) }.goto p (.locking b dev blockno)

/-- `bget` up to `acquiresleep`. -/
def State.bget (s : State D) (p dev blockno : Nat) : Option (State D) :=
  match walk s.links.next (s.isCached dev blockno) (NBUF + 1) (s.links.next .head) with
  | none => none
  | some (.buf b) =>
    some ((s.set b { s.buf b with refcnt := uint ((s.buf b).refcnt + 1) }).refer p b dev blockno)
  | some .head =>
    -- not cached
    match walk s.links.prev s.isUnused (NBUF + 1) (s.links.prev .head) with
    | none => none
    | some .head => some { s with panicked := some .noBuffers }
    | some (.buf b) =>
      let s := s.leave (s.buf b).dev (s.buf b).blockno none
      some ((s.set b { s.buf b with dev, blockno, valid := false, refcnt := 1 }).refer p b dev blockno)

/-- `acquiresleep` returns. -/
def State.acquire (s : State D) (p : Nat) : Option (State D) :=
  match s.pc p with
  | .locking b dev blockno =>
    if (s.buf b).lock = none then
      some ((s.set b { s.buf b with lock := some p }).goto p (.reading b dev blockno))
    else none
  | _ => none

/-- The end of `bread`, which returns the buffer. -/
def State.bread (s : State D) (p : Nat) : Option (State D) :=
  match s.pc p with
  | .reading b _ _ =>
    let x := s.buf b
    if x.valid then some (s.goto p .idle)
    else
      let data := s.disk x.dev x.blockno
      some (((s.set b { x with valid := true, data }).leave x.dev x.blockno (some data)).goto p .idle)
  | _ => none

/-! ## The other calls -/

/-- The process changes the data of a buffer that it has locked. -/
def State.store (s : State D) (p b : Nat) (data : D) : Option (State D) :=
  if (s.buf b).lock = some p then
    some ((s.set b { s.buf b with data }).leave (s.buf b).dev (s.buf b).blockno (some data))
  else none

def State.bwrite (s : State D) (p b : Nat) : State D :=
  let x := s.buf b
  if x.lock = some p then
    { s with disk := Function.update s.disk x.dev (Function.update (s.disk x.dev) x.blockno x.data) }
  else { s with panicked := some .bwrite }

/-- `brelse` up to `releasesleep`. -/
def State.brelse (s : State D) (p b : Nat) : State D :=
  if (s.buf b).lock = some p then
    (s.set b { s.buf b with lock := none }).goto p (.releasing b)
  else { s with panicked := some .brelse }

/-- The rest of `brelse`. -/
def State.release (s : State D) (p : Nat) : Option (State D) :=
  match s.pc p with
  | .releasing b =>
    -- `refcnt` is unsigned
    let s := s.set b { s.buf b with refcnt := uint ((s.buf b).refcnt + 4294967295) }
    let s := { s with users := Function.update s.users b ((s.users b).erase p) }.goto p .idle
    if (s.buf b).refcnt = 0 then some { s with links := (s.links.remove b).insert b } else some s
  | _ => none

def State.bpin (s : State D) (b : Nat) : State D :=
  { s.set b { s.buf b with refcnt := uint ((s.buf b).refcnt + 1) } with
    pins := Function.update s.pins b (s.pins b + 1) }

def State.bunpin (s : State D) (b : Nat) : State D :=
  { s.set b { s.buf b with refcnt := uint ((s.buf b).refcnt + 4294967295) } with
    pins := Function.update s.pins b (s.pins b - 1) }

/-! ## Processes -/

inductive Act (D : Type)
  | bget (p dev blockno : Nat)
  | acquire (p : Nat)
  | bread (p : Nat)
  | store (p b : Nat) (data : D)
  | bwrite (p b : Nat)
  | brelse (p b : Nat)
  | release (p : Nat)
  | bpin (p b : Nat)
  | bunpin (p b : Nat)

/-- A process starts a call with a buffer when it is in no other one. -/
def State.calls (s : State D) (p b : Nat) : Prop := s.pc p = .idle ∧ b < NBUF

instance (s : State D) (p b : Nat) : Decidable (s.calls p b) :=
  inferInstanceAs (Decidable (_ ∧ _))

def step (s : State D) (a : Act D) : Option (State D) :=
  if s.panicked ≠ none then none
  else
    match a with
    | .bget p dev blockno => if s.pc p = .idle then s.bget p dev blockno else none
    | .acquire p => s.acquire p
    | .bread p => s.bread p
    | .store p b data => if s.calls p b then s.store p b data else none
    | .bwrite p b => if s.calls p b then some (s.bwrite p b) else none
    | .brelse p b => if s.calls p b then some (s.brelse p b) else none
    | .release p => s.release p
    | .bpin p b => if s.calls p b then some (s.bpin b) else none
    | .bunpin p b => if s.calls p b then some (s.bunpin b) else none

/-- The references to a buffer. -/
def State.refs (s : State D) (b : Nat) : Nat := s.pins b + (s.users b).length

/-- Devices have numbers, and only what was pinned is unpinned. -/
def paired (s : State D) : Act D → Prop
  | .bget _ dev _ => dev ≠ 0
  | .bunpin _ b => 0 < s.pins b
  | _ => True

/-- A buffer gets no more references than a `uint` can count. -/
def counted (s : State D) : Act D → Prop
  | .bget _ dev blockno =>
    ∀ b < NBUF, (s.buf b).dev = dev → (s.buf b).blockno = blockno → s.refs b + 1 < 4294967296
  | .bpin _ b => s.refs b + 1 < 4294967296
  | _ => True

def proper (s : State D) (a : Act D) : Prop := paired s a ∧ counted s a

instance (s : State D) : DecidablePred (paired s) := fun a => by
  unfold paired
  split <;> infer_instance

instance (s : State D) : DecidablePred (counted s) := fun a => by
  unfold counted
  split <;> infer_instance

instance (s : State D) : DecidablePred (proper s) := fun _ => inferInstanceAs (Decidable (_ ∧ _))

end xv6.bio
