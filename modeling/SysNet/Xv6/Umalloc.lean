-- The allocator of user programs (user/umalloc.c): a circular list of free
-- blocks in the order of their addresses. Addresses and sizes count units
-- of sizeof(Header) = 16 bytes.
import Mathlib.Logic.Function.Basic
import SysNet.Lib.Chains

open chains

namespace xv6.umalloc

/-! ## Memory -/

structure Header where
  ptr : Nat
  size : Nat
deriving DecidableEq, Repr

/-- Where `base` is, and where the heap starts. The data of a program lies below its heap. -/
structure Layout where
  base : Nat
  start : Nat
  base_pos : 0 < base
  below : base < start

structure State where
  mem : Nat → Header
  /-- 0 before the first call of `malloc` -/
  freep : Nat
  /-- the end of the memory that `sbrk` has given -/
  brk : Nat
  /-- The blocks that the program has: the address of the header, and the bytes it asked for. -/
  live : List (Nat × Nat)

def State.init (l : Layout) (mem : Nat → Header) : State :=
  { mem, freep := 0, brk := l.start, live := [] }

/-- A `uint`, which wraps. -/
def uint (n : Nat) : Nat := n % 4294967296

def State.ptr (s : State) (p : Nat) : Nat := (s.mem p).ptr

def State.size (s : State) (p : Nat) : Nat := (s.mem p).size

def State.setPtr (s : State) (p q : Nat) : State :=
  { s with mem := Function.update s.mem p { s.mem p with ptr := q } }

def State.setSize (s : State) (p n : Nat) : State :=
  { s with mem := Function.update s.mem p { s.mem p with size := n } }

section

variable {s : State} {p q r : Nat}

@[simp] theorem State.ptr_setPtr_self : (s.setPtr p q).ptr p = q := by
  simp [State.ptr, State.setPtr]

theorem State.ptr_setPtr_of_ne (h : r ≠ p) : (s.setPtr p q).ptr r = s.ptr r := by
  simp [State.ptr, State.setPtr, h]

@[simp] theorem State.size_setPtr : (s.setPtr p q).size r = s.size r := by
  by_cases h : r = p
  · subst h
    simp [State.size, State.setPtr]
  · simp [State.size, State.setPtr, h]

@[simp] theorem State.ptr_setSize : (s.setSize p q).ptr r = s.ptr r := by
  by_cases h : r = p
  · subst h
    simp [State.ptr, State.setSize]
  · simp [State.ptr, State.setSize, h]

@[simp] theorem State.size_setSize_self : (s.setSize p q).size p = q := by
  simp [State.size, State.setSize]

theorem State.size_setSize_of_ne (h : r ≠ p) : (s.setSize p q).size r = s.size r := by
  simp [State.size, State.setSize, h]

end

/-! ## free -/

/-- The loop of `free` stops at `p`: the block lies between `p` and the next one, or outside of
all of them where the list wraps around. -/
def State.stopsAt (s : State) (bp p : Nat) : Prop :=
  (p < bp ∧ bp < s.ptr p) ∨ (s.ptr p ≤ p ∧ (p < bp ∨ bp < s.ptr p))

instance (s : State) (bp : Nat) : DecidablePred (s.stopsAt bp) := fun _ =>
  inferInstanceAs (Decidable (_ ∨ _))

/-- The block together with the next free one, if that is adjacent. -/
def State.joinNext (s : State) (bp p : Nat) : State :=
  if bp + s.size bp = s.ptr p then
    (s.setSize bp (uint (s.size bp + s.size (s.ptr p)))).setPtr bp (s.ptr (s.ptr p))
  else s.setPtr bp (s.ptr p)

/-- The free block before together with the block, if that is adjacent. -/
def State.joinPrevious (s : State) (bp p : Nat) : State :=
  if p + s.size p = bp then (s.setSize p (uint (s.size p + s.size bp))).setPtr p (s.ptr bp)
  else s.setPtr p bp

/-- The list has fewer nodes than there are units in the pages below `brk`, which bounds the turns
of the loop. -/
def free (s : State) (ap : Nat) : Option State :=
  let bp := ap - 1
  match walk s.ptr (s.stopsAt bp) (s.brk + 257) s.freep with
  | none => none
  | some p => some { (s.joinNext bp p).joinPrevious bp p with freep := p }

/-! ## malloc -/

def KERNBASE : Nat := 2147483648

def PHYSTOP : Nat := KERNBASE + 134217728

/-- An `int`, which the argument of `sbrk` is turned into. -/
def int (n : Nat) : Int := if uint n < 2147483648 then uint n else uint n - 4294967296

/-- `sbrk` moves the end of the memory by `n` bytes, or it fails. The pages come from `kalloc`,
which has those of the physical memory. -/
def sbrk (l : Layout) (s : State) (n : Int) (answers : List Bool) : Option State × List Bool :=
  if 0 < n then
    match answers with
    | [] => (none, [])
    | false :: answers => (none, answers)
    | true :: answers =>
      if (s.brk + n.toNat / 16 - l.start) * 16 ≤ PHYSTOP - KERNBASE then
        (some { s with brk := s.brk + n.toNat / 16 }, answers)
      else (none, answers)
  -- below 0 the new size wraps, and `uvmdealloc` leaves the old one
  else if s.brk * 16 + n < 0 then (some s, answers)
  else (some { s with brk := (s.brk * 16 + n).toNat / 16 }, answers)

/-- The units that `morecore` asks for. -/
def coreUnits (nu : Nat) : Nat := if nu < 4096 then 4096 else nu

/-- The program has the page of the header. -/
def State.mapped (s : State) (p : Nat) : Prop := p * 16 < (s.brk * 16 + 4095) / 4096 * 4096

instance (s : State) (p : Nat) : Decidable (s.mapped p) := inferInstanceAs (Decidable (_ < _))

/-- `freep` after the new memory is in the list, or `none` when there is none. The program is
killed when it has no page where it writes the header. -/
def morecore (l : Layout) (s : State) (nu : Nat) (answers : List Bool) :
    Option (State × List Bool × Option Nat) :=
  let nu := coreUnits nu
  match sbrk l s (int (nu * 16)) answers with
  | (none, answers) => some (s, answers, none)
  | (some s', answers) =>
    if s'.mapped s.brk then
      match free (s'.setSize s.brk nu) (s.brk + 1) with
      | none => none
      | some s => some (s, answers, some s.freep)
    else none

/-- The block `p`, or its tail, is taken off the list. -/
def State.take (s : State) (nunits prevp p : Nat) : State × Nat :=
  if s.size p = nunits then ({ s.setPtr prevp (s.ptr p) with freep := prevp }, p + 1)
  else
    let s := s.setSize p (s.size p - nunits)
    let p := p + s.size p
    ({ s.setSize p nunits with freep := prevp }, p + 1)

/-- The loop of `malloc`. -/
def mallocLoop (l : Layout) (nunits : Nat) :
    Nat → State → List Bool → Nat → Nat → Option (State × Option Nat)
  | 0, _, _, _, _ => none
  | k + 1, s, answers, prevp, p =>
    if nunits ≤ s.size p then some ((s.take nunits prevp p).1, some (s.take nunits prevp p).2)
    else if p = s.freep then
      match morecore l s nunits answers with
      | none => none
      | some (s, _, none) => some (s, none)
      | some (s, answers, some p) => mallocLoop l nunits k s answers p (s.ptr p)
    else mallocLoop l nunits k s answers p (s.ptr p)

def nunits (nbytes : Nat) : Nat := uint ((nbytes + 16 - 1) / 16 + 1)

/-- The list with `base` alone, at the first call. -/
def State.begin (s : State) (l : Layout) : State :=
  if s.freep = 0 then { (s.setPtr l.base l.base).setSize l.base 0 with freep := l.base } else s

/-- The loop goes around the list once, and once more after `morecore`. -/
def malloc (l : Layout) (s : State) (nbytes : Nat) (answers : List Bool) :
    Option (State × Option Nat) :=
  let s := s.begin l
  mallocLoop l (nunits nbytes) (2 * s.brk + coreUnits (nunits nbytes) + 2) s answers s.freep
    (s.ptr s.freep)

/-! ## Programs -/

inductive Act
  | malloc (nbytes : Nat) (answers : List Bool)
  | free (ap : Nat)
  /-- the program writes to memory of a block that it has -/
  | store (u : Nat) (h : Header)
deriving DecidableEq, Repr

def State.step (l : Layout) (s : State) : Act → Option State
  | .malloc nbytes answers =>
    match malloc l s nbytes answers with
    | none => none
    | some (s, none) => some s
    | some (s, some ap) => some { s with live := (ap - 1, nbytes) :: s.live }
  | .free ap =>
    (umalloc.free s ap).map fun s => { s with live := s.live.filter fun b => b.1 ≠ ap - 1 }
  | .store u h => some { s with mem := Function.update s.mem u h }

/-- The program frees only what it has and writes only to that, and the rounded size of a
request is below 2 ^ 31 bytes. -/
def proper (s : State) : Act → Prop
  | .malloc nbytes _ => ((nbytes + 16 - 1) / 16 + 1) * 16 < 2147483648
  | .free ap => ∃ b ∈ s.live, ap = b.1 + 1
  | .store u _ => ∃ b ∈ s.live, b.1 < u ∧ (u - (b.1 + 1)) * 16 < b.2

instance (s : State) : DecidablePred (proper s) := fun a => by
  unfold proper
  split <;> infer_instance

end xv6.umalloc
