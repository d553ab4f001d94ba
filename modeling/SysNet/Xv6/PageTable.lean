-- Page tables (kernel/vm.c, kernel/riscv.h) as they lie in physical memory,
-- and the allocator of their pages (kernel/kalloc.c).
import Mathlib.Data.List.FinRange
import SysNet.Lib.Bytes
import SysNet.Xv6.Vm

open bytes

namespace xv6.pagetable

open vm (PGSIZE MAXVA TRAMPOLINE TRAPFRAME uint64 PGROUNDUP)

inductive Panic
  | kfree
  | walk
  /-- `mappages` or `uvmunmap` of an address or a size that is not aligned -/
  | notAligned
  /-- `mappages` of no page -/
  | size
  | remap
  /-- `freewalk` of a table with a page left in it -/
  | leaf
  | uvmclear
  /-- `loadseg` of a page that is not there -/
  | loadseg
  /-- the kernel uses the address 0 -/
  | kerneltrap
  /-- a loop that does not end -/
  | spin
deriving DecidableEq, Repr

/-! ## Physical memory -/

def KERNBASE : Nat := 2147483648

def PHYSTOP : Nat := KERNBASE + 134217728

/-- The memory, page by page, and `kmem.freelist`, which lies in the free pages themselves. -/
structure Mem where
  page : Nat → Buffer
  freelist : List Nat

/-- `memset` of a page. -/
def Mem.memset (m : Mem) (pa : Nat) (c : UInt8) : Mem :=
  { m with page := Function.update m.page pa fun _ => c }

def kalloc (m : Mem) : Mem × Option Nat :=
  match m.freelist with
  | [] => (m, none)
  | r :: next => ({ m with freelist := next }.memset r 5, some r)

/-- `kernelEnd` is where the kernel ends, as the linker says. -/
def kfree (kernelEnd : Nat) (m : Mem) (pa : Nat) : Except Panic Mem :=
  if pa % PGSIZE ≠ 0 ∨ pa < kernelEnd ∨ PHYSTOP ≤ pa then .error .kfree
  else .ok { m.memset pa 1 with freelist := pa :: m.freelist }

/-! ## Entries -/

def PTE_V : Nat := 1

def PTE_R : Nat := 2

def PTE_W : Nat := 4

def PTE_X : Nat := 8

def PTE_U : Nat := 16

def PA2PTE (pa : Nat) : Nat := pa >>> 12 <<< 10

def PTE2PA (pte : Nat) : Nat := uint64 (pte >>> 10 <<< 12 : Nat)

def PTE_FLAGS (pte : Nat) : Nat := pte &&& 1023

def PXMASK : Nat := 511

def PXSHIFT (level : Nat) : Nat := 12 + 9 * level

/-- The index into the table of the level. -/
def PX (level va : Nat) : Fin 512 :=
  ⟨va >>> PXSHIFT level &&& PXMASK, Nat.lt_of_le_of_lt Nat.and_le_right (by decide)⟩

/-- `pagetable[i]`. -/
def Mem.pte (m : Mem) (pagetable : Nat) (i : Fin 512) : Nat := get64 (m.page pagetable) (8 * i)

def Mem.setPte (m : Mem) (pagetable : Nat) (i : Fin 512) (pte : Nat) : Mem :=
  { m with page := Function.update m.page pagetable (put64 (m.page pagetable) (8 * i) pte) }

/-! ## Walking -/

/-- The loop of `walk` from a level down, from the table of that level. It gives the table of the
level 0. -/
def walkLevels (alloc : Bool) (va : Nat) : Nat → Mem → Nat → Mem × Option Nat
  | 0, m, pagetable => (m, some pagetable)
  | level + 1, m, pagetable =>
    let pte := m.pte pagetable (PX (level + 1) va)
    if pte &&& PTE_V ≠ 0 then walkLevels alloc va level m (PTE2PA pte)
    else if alloc then
      match kalloc m with
      | (m, none) => (m, none)
      | (m, some page) =>
        walkLevels alloc va level
          ((m.memset page 0).setPte pagetable (PX (level + 1) va) (PA2PTE page ||| PTE_V)) page
    else (m, none)

/-- The place of the entry of the address, or `none` when there is no table for it. -/
def walk (m : Mem) (pagetable va : Nat) (alloc : Bool) : Except Panic (Mem × Option (Nat × Fin 512)) :=
  if MAXVA ≤ va then .error .walk
  else
    match walkLevels alloc va 2 m pagetable with
    | (m, t) => .ok (m, t.map (·, PX 0 va))

/-- The physical address, or 0. -/
def walkaddr (m : Mem) (pagetable va : Nat) : Except Panic Nat :=
  if MAXVA ≤ va then .ok 0
  else
    match walk m pagetable va false with
    | .error e => .error e
    | .ok (_, none) => .ok 0
    | .ok (_, some (t, i)) =>
      if m.pte t i &&& PTE_V = 0 then .ok 0
      else if m.pte t i &&& PTE_U = 0 then .ok 0
      else .ok (PTE2PA (m.pte t i))

def ismapped (m : Mem) (pagetable va : Nat) : Except Panic Bool :=
  match walk m pagetable va false with
  | .error e => .error e
  | .ok (_, none) => .ok false
  | .ok (_, some (t, i)) => .ok (m.pte t i &&& PTE_V ≠ 0)

/-! ## Mapping -/

/-- The loop of `mappages`, over the pages that are left. It gives whether all could be mapped. -/
def mappagesLoop (pagetable last perm : Nat) : Nat → Mem → Nat → Nat → Except Panic (Mem × Bool)
  | 0, m, _, _ => .ok (m, true)
  | k + 1, m, a, pa =>
    match walk m pagetable a true with
    | .error e => .error e
    | .ok (m, none) => .ok (m, false)
    | .ok (m, some (t, i)) =>
      if m.pte t i &&& PTE_V ≠ 0 then .error .remap
      else
        let m := m.setPte t i (PA2PTE pa ||| perm ||| PTE_V)
        if a = last then .ok (m, true)
        else mappagesLoop pagetable last perm k m (uint64 (a + PGSIZE)) (uint64 (pa + PGSIZE))

def mappages (m : Mem) (pagetable va size pa perm : Nat) : Except Panic (Mem × Bool) :=
  if va % PGSIZE ≠ 0 then .error .notAligned
  else if size % PGSIZE ≠ 0 then .error .notAligned
  else if size = 0 then .error .size
  else mappagesLoop pagetable (uint64 (va + size - PGSIZE)) perm (size / PGSIZE) m va pa

def uvmcreate (m : Mem) : Mem × Option Nat :=
  match kalloc m with
  | (m, none) => (m, none)
  | (m, some pagetable) => (m.memset pagetable 0, some pagetable)

/-- The loop of `uvmunmap`, from the address on. It has no more turns than there are pages. -/
def uvmunmapLoop (kernelEnd pagetable last : Nat) (do_free : Bool) : Nat → Mem → Nat → Except Panic Mem
  | 0, m, _ => .ok m
  | k + 1, m, a =>
    if a < last then
      match walk m pagetable a false with
      | .error e => .error e
      | .ok (_, none) => uvmunmapLoop kernelEnd pagetable last do_free k m (uint64 (a + PGSIZE))
      | .ok (_, some (t, i)) =>
        if m.pte t i &&& PTE_V = 0 then
          uvmunmapLoop kernelEnd pagetable last do_free k m (uint64 (a + PGSIZE))
        else
          match if do_free then kfree kernelEnd m (PTE2PA (m.pte t i)) else .ok m with
          | .error e => .error e
          | .ok m =>
            uvmunmapLoop kernelEnd pagetable last do_free k (m.setPte t i 0) (uint64 (a + PGSIZE))
    else .ok m

def uvmunmap (kernelEnd : Nat) (m : Mem) (pagetable va npages : Nat) (do_free : Bool) :
    Except Panic Mem :=
  if va % PGSIZE ≠ 0 then .error .notAligned
  else uvmunmapLoop kernelEnd pagetable (uint64 (va + npages * PGSIZE)) do_free npages m va

end xv6.pagetable
