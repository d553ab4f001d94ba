-- The memory of the processes: the user pages of a page table (kernel/vm.c),
-- the page tables of the processes (kernel/proc.c), and `kexec`, which builds
-- a new one from a file (kernel/exec.c).
import SysNet.Xv6.PageTable

open bytes

namespace xv6.spaces

open vm (PGSIZE MAXVA TRAMPOLINE TRAPFRAME uint64 PGROUNDUP PGROUNDDOWN)
open pagetable

/-- What the linker says (kernel/kernel.ld): where the kernel ends, and where the page of the
trampoline lies in it. -/
structure Image where
  kernelEnd : Nat
  trampoline : Nat
  low : KERNBASE ≤ trampoline
  aligned : trampoline % PGSIZE = 0
  inside : trampoline < kernelEnd
  fits : kernelEnd ≤ PHYSTOP

/-! ## User pages -/

def uvmdealloc (k : Image) (m : Mem) (pagetable oldsz newsz : Nat) : Except Panic (Mem × Nat) :=
  if oldsz ≤ newsz then return (m, oldsz)
  else if PGROUNDUP newsz < PGROUNDUP oldsz then do
    -- the number of pages is an `int`
    let m ← uvmunmap k.kernelEnd m pagetable (PGROUNDUP newsz)
      (uint64 (Int.bmod ((PGROUNDUP oldsz - PGROUNDUP newsz) / PGSIZE : Nat) 4294967296)) true
    return (m, newsz)
  else return (m, newsz)

/-- The loop of `uvmalloc` from the address on. It has no more turns than there are pages. -/
def uvmallocLoop (k : Image) (pagetable oldsz newsz perm : Nat) :
    Nat → Mem → Nat → Except Panic (Mem × Nat)
  | 0, m, a => if a < newsz then throw .spin else return (m, newsz)
  | turns + 1, m, a =>
    if a < newsz then
      match kalloc m with
      | (m, none) => do
        let (m, _) ← uvmdealloc k m pagetable a oldsz
        return (m, 0)
      | (m, some mem) => do
        let (m, done) ← mappages (m.memset mem 0) pagetable a PGSIZE mem perm
        if done then uvmallocLoop k pagetable oldsz newsz perm turns m (uint64 (a + PGSIZE))
        else
          let m ← kfree k.kernelEnd m mem
          let (m, _) ← uvmdealloc k m pagetable a oldsz
          return (m, 0)
    else return (m, newsz)

/-- The memory and the new size, or 0. -/
def uvmalloc (k : Image) (m : Mem) (pagetable oldsz newsz xperm : Nat) : Except Panic (Mem × Nat) :=
  if newsz < oldsz then return (m, oldsz)
  else
    uvmallocLoop k pagetable (PGROUNDUP oldsz) newsz (PTE_R ||| PTE_U ||| xperm)
      ((newsz - PGROUNDUP oldsz + PGSIZE - 1) / PGSIZE) m (PGROUNDUP oldsz)

/-- The loop of `freewalk` over the indices that are left. -/
def freewalkLoop (freewalk : Mem → Nat → Except Panic Mem) (pagetable : Nat) :
    List (Fin 512) → Mem → Except Panic Mem
  | [], m => return m
  | i :: rest, m =>
    let pte := m.pte pagetable i
    if pte &&& PTE_V ≠ 0 ∧ pte &&& (PTE_R ||| PTE_W ||| PTE_X) = 0 then do
      let m ← freewalk m (PTE2PA pte)
      freewalkLoop freewalk pagetable rest (m.setPte pagetable i 0)
    else if pte &&& PTE_V ≠ 0 then throw .leaf
    else freewalkLoop freewalk pagetable rest m

/-- `freewalk`, whose loop goes over the indices, and whose recursion goes `depth` tables down at
most. -/
def freewalkOver (k : Image) (is : List (Fin 512)) : Nat → Mem → Nat → Except Panic Mem
  | 0, _, _ => throw .leaf
  | depth + 1, m, pagetable => do
    let m ← freewalkLoop (freewalkOver k is depth) pagetable is m
    kfree k.kernelEnd m pagetable

def freewalk (k : Image) (m : Mem) (pagetable : Nat) : Except Panic Mem :=
  freewalkOver k (List.finRange 512) 3 m pagetable

def uvmfree (k : Image) (m : Mem) (pagetable sz : Nat) : Except Panic Mem := do
  let m ← if 0 < sz then uvmunmap k.kernelEnd m pagetable 0 (PGROUNDUP sz / PGSIZE) true else pure m
  freewalk k m pagetable

/-- `memmove` of a page. -/
def memmovePage (m : Mem) (dst src : Nat) : Mem :=
  { m with page := Function.update m.page dst (m.page src) }

/-- The loop of `uvmcopy` from the page on. It has no more turns than there are pages. -/
def uvmcopyLoop (k : Image) (old new sz : Nat) : Nat → Mem → Nat → Except Panic (Mem × Bool)
  | 0, m, i => if i < sz then throw .spin else return (m, true)
  | turns + 1, m, i =>
    if i < sz then do
      let (_, place) ← walk m old i false
      match place with
      | none => uvmcopyLoop k old new sz turns m (uint64 (i + PGSIZE))
      | some (t, j) =>
        if m.pte t j &&& PTE_V = 0 then uvmcopyLoop k old new sz turns m (uint64 (i + PGSIZE))
        else
          match kalloc m with
          | (m', none) => do
            let m ← uvmunmap k.kernelEnd m' new 0 (i / PGSIZE) true
            return (m, false)
          | (m', some mem) => do
            let (m, done) ← mappages (memmovePage m' mem (PTE2PA (m.pte t j))) new i PGSIZE mem
              (PTE_FLAGS (m.pte t j))
            if done then uvmcopyLoop k old new sz turns m (uint64 (i + PGSIZE))
            else
              let m ← kfree k.kernelEnd m mem
              let m ← uvmunmap k.kernelEnd m new 0 (i / PGSIZE) true
              return (m, false)
    else return (m, true)

def uvmcopy (k : Image) (m : Mem) (old new sz : Nat) : Except Panic (Mem × Bool) :=
  uvmcopyLoop k old new sz ((sz + PGSIZE - 1) / PGSIZE) m 0

/-- `*pte &= ~PTE_U`: the bit is taken away if it is there. -/
def uvmclear (m : Mem) (pagetable va : Nat) : Except Panic Mem := do
  let (_, place) ← walk m pagetable va false
  match place with
  | none => throw .uvmclear
  | some (t, i) => return m.setPte t i (m.pte t i - (m.pte t i &&& PTE_U))

/-! ## Processes -/

def NPROC : Nat := 64

/-- The fields of `struct proc` that the memory is reached by, and the name. A process whose state is
`UNUSED` is not used. -/
structure Proc where
  used : Bool
  trapframe : Nat
  pagetable : Nat
  sz : Nat
  name : List UInt8

structure State where
  mem : Mem
  proc : Nat → Proc

def State.set (s : State) (i : Nat) (p : Proc) : State :=
  { s with proc := Function.update s.proc i p }

def proc_pagetable (k : Image) (m : Mem) (trapframe : Nat) : Except Panic (Mem × Option Nat) :=
  match uvmcreate m with
  | (m, none) => return (m, none)
  | (m, some pagetable) => do
    let (m, done) ← mappages m pagetable TRAMPOLINE PGSIZE k.trampoline (PTE_R ||| PTE_X)
    if done then
      let (m, done) ← mappages m pagetable TRAPFRAME PGSIZE trapframe (PTE_R ||| PTE_W)
      if done then return (m, some pagetable)
      else
        let m ← uvmunmap k.kernelEnd m pagetable TRAMPOLINE 1 false
        let m ← uvmfree k m pagetable 0
        return (m, none)
    else
      let m ← uvmfree k m pagetable 0
      return (m, none)

def proc_freepagetable (k : Image) (m : Mem) (pagetable sz : Nat) : Except Panic Mem := do
  let m ← uvmunmap k.kernelEnd m pagetable TRAMPOLINE 1 false
  let m ← uvmunmap k.kernelEnd m pagetable TRAPFRAME 1 false
  uvmfree k m pagetable sz

def Proc.free : Proc := { used := false, trapframe := 0, pagetable := 0, sz := 0, name := [] }

def freeproc (k : Image) (s : State) (i : Nat) : Except Panic State := do
  let p := s.proc i
  let m ← if p.trapframe ≠ 0 then kfree k.kernelEnd s.mem p.trapframe else pure s.mem
  let m ← if p.pagetable ≠ 0 then proc_freepagetable k m p.pagetable p.sz else pure m
  return { s with mem := m }.set i .free

/-- The slot of the new process. -/
def allocproc (k : Image) (s : State) : Except Panic (State × Option Nat) :=
  match (List.range NPROC).find? fun i => !(s.proc i).used with
  | none => return (s, none)
  | some i =>
    match kalloc s.mem with
    | (m, none) => do
      let s ← freeproc k ({ s with mem := m }.set i { s.proc i with used := true, trapframe := 0 }) i
      return (s, none)
    | (m, some trapframe) => do
      let (m, pagetable) ← proc_pagetable k m trapframe
      match pagetable with
      | none =>
        let s ← freeproc k
          ({ s with mem := m }.set i { s.proc i with used := true, trapframe, pagetable := 0 }) i
        return (s, none)
      | some pagetable =>
        return ({ s with mem := m }.set i { s.proc i with used := true, trapframe, pagetable }, some i)

def growproc (k : Image) (s : State) (i : Nat) (n : Int) : Except Panic (State × Bool) :=
  let p := s.proc i
  if 0 < n then do
    let (m, sz) ← uvmalloc k s.mem p.pagetable p.sz (uint64 (p.sz + n)) PTE_W
    if sz = 0 then return ({ s with mem := m }, false)
    else return ({ s with mem := m }.set i { p with sz }, true)
  else if n < 0 then do
    let (m, sz) ← uvmdealloc k s.mem p.pagetable p.sz (uint64 (p.sz + n))
    return ({ s with mem := m }.set i { p with sz }, true)
  else return (s, true)

/-- The old size, or `none` for -1. -/
def sys_sbrk (k : Image) (s : State) (i : Nat) (n : Int) (eager : Bool) : Except Panic (State × Option Nat) :=
  let addr := (s.proc i).sz
  if eager ∨ n < 0 then do
    let (s, done) ← growproc k s i n
    if done then return (s, some addr) else return (s, none)
  else if uint64 (addr + n) < addr then return (s, none)
  else return (s.set i { s.proc i with sz := uint64 (addr + n) }, some addr)

/-- A string of at most `n` bytes, with the one that ends it. -/
def safestrcpy (t : List UInt8) (n : Nat) : List UInt8 := t.take (n - 1)

/-- `*(np->trapframe) = *(p->trapframe)`, and `np->trapframe->a0 = 0`. -/
def copyTrapframe (m : Mem) (dst src : Nat) : Mem :=
  { m with page := Function.update m.page dst (put64 (fill (m.page dst) 0 288 (m.page src)) 112 0) }

/-- The slot of the child, or `none` for -1. -/
def kfork (k : Image) (s : State) (i : Nat) : Except Panic (State × Option Nat) := do
  let (s, slot) ← allocproc k s
  match slot with
  | none => return (s, none)
  | some np =>
    let (m, done) ← uvmcopy k s.mem (s.proc i).pagetable (s.proc np).pagetable (s.proc i).sz
    if done then
      return ({ s with mem := copyTrapframe m (s.proc np).trapframe (s.proc i).trapframe }.set np
        { s.proc np with sz := (s.proc i).sz, name := safestrcpy (s.proc i).name 16 }, some np)
    else
      let s ← freeproc k { s with mem := m } np
      return (s, none)

/-! ## Page faults and copies -/

/-- The page that was missing, or 0. -/
def vmfault (k : Image) (m : Mem) (p : Proc) (pagetable va : Nat) : Except Panic (Mem × Nat) :=
  if p.sz ≤ va then return (m, 0)
  else do
    if ← ismapped m pagetable (PGROUNDDOWN va) then return (m, 0)
    else
      match kalloc m with
      | (m, none) => return (m, 0)
      | (m, some mem) =>
        let (m, done) ← mappages (m.memset mem 0) p.pagetable (PGROUNDDOWN va) PGSIZE mem
          (PTE_W ||| PTE_U ||| PTE_R)
        if done then return (m, mem)
        else
          let m ← kfree k.kernelEnd m mem
          return (m, 0)

/-- Bytes in a page. -/
def write (m : Mem) (pa off : Nat) (src : List UInt8) : Mem :=
  { m with page := Function.update m.page pa (fill (m.page pa) off src.length fun j => src.getD j 0) }

/-- `walkaddr`, and `vmfault` when it finds no page. -/
def fetch (k : Image) (m : Mem) (p : Proc) (pagetable va0 : Nat) : Except Panic (Mem × Nat) := do
  let pa0 ← walkaddr m pagetable va0
  if pa0 = 0 then vmfault k m p pagetable va0 else return (m, pa0)

/-- The loop of `copyout` by the process. Every turn copies a byte at least. -/
def copyoutLoop (k : Image) (p : Proc) (pagetable : Nat) :
    Nat → Mem → Nat → List UInt8 → Except Panic (Mem × Bool)
  | 0, m, _, src => if src ≠ [] then throw .spin else return (m, true)
  | turns + 1, m, dstva, src =>
    if src = [] then return (m, true)
    else if MAXVA ≤ PGROUNDDOWN dstva then return (m, false)
    else do
      let (m, pa0) ← fetch k m p pagetable (PGROUNDDOWN dstva)
      if pa0 = 0 then return (m, false)
      else
        let (_, place) ← walk m pagetable (PGROUNDDOWN dstva) false
        match place with
        | none => throw .kerneltrap
        | some (t, i) =>
          if m.pte t i &&& PTE_W = 0 then return (m, false)
          else
            let n := min (PGSIZE - (dstva - PGROUNDDOWN dstva)) src.length
            copyoutLoop k p pagetable turns (write m pa0 (dstva - PGROUNDDOWN dstva) (src.take n))
              (uint64 (PGROUNDDOWN dstva + PGSIZE)) (src.drop n)

def copyout (k : Image) (m : Mem) (p : Proc) (pagetable dstva : Nat) (src : List UInt8) :
    Except Panic (Mem × Bool) := copyoutLoop k p pagetable src.length m dstva src

/-! ## kexec -/

def ELF_MAGIC : Nat := 1179403647

def ELF_PROG_LOAD : Nat := 1

def USERSTACK : Nat := 2

def MAXARG : Nat := 32

/-- `readi` of a file with the bytes. -/
def readi (file : List UInt8) (off n : Nat) : List UInt8 :=
  let off := off % 4294967296
  if file.length < off ∨ (off + n) % 4294967296 < off then []
  else (file.drop off).take n

/-- What is read, as a structure. -/
def buffer (l : List UInt8) : Buffer := fun i => l.getD i 0

def flags2perm (flags : Nat) : Nat :=
  (if flags &&& 1 ≠ 0 then PTE_X else 0) ||| if flags &&& 2 ≠ 0 then PTE_W else 0

/-- The loop of `loadseg` from the offset on. It has no more turns than there are pages. -/
def loadsegLoop (pagetable va : Nat) (file : List UInt8) (offset sz : Nat) :
    Nat → Mem → Nat → Except Panic (Mem × Bool)
  | 0, m, i => if i < sz then throw .spin else return (m, true)
  | turns + 1, m, i =>
    if i < sz then do
      let pa ← walkaddr m pagetable (uint64 (va + i))
      if pa = 0 then throw .loadseg
      else
        let n := if sz - i < PGSIZE then sz - i else PGSIZE
        let data := readi file (offset + i) n
        if data.length ≠ n then return (write m pa 0 data, false)
        else loadsegLoop pagetable va file offset sz turns (write m pa 0 data) ((i + PGSIZE) % 4294967296)
    else return (m, true)

def loadseg (m : Mem) (pagetable va : Nat) (file : List UInt8) (offset sz : Nat) :
    Except Panic (Mem × Bool) :=
  loadsegLoop pagetable va file (offset % 4294967296) (sz % 4294967296)
    ((sz % 4294967296 + PGSIZE - 1) / PGSIZE) m 0

/-- The loop over the program headers, with the size so far. -/
def loadLoop (k : Image) (pagetable : Nat) (file : List UInt8) :
    Nat → Nat → Mem → Nat → Except Panic (Mem × Nat × Bool)
  | 0, _, m, sz => return (m, sz, true)
  | phnum + 1, off, m, sz =>
    if (readi file off 56).length ≠ 56 then return (m, sz, false)
    else
      let ph := buffer (readi file off 56)
      let vaddr := get64 ph 16
      let filesz := get64 ph 32
      let memsz := get64 ph 40
      if get32 ph 0 ≠ ELF_PROG_LOAD then loadLoop k pagetable file phnum (off + 56) m sz
      else if memsz < filesz then return (m, sz, false)
      else if uint64 (vaddr + memsz) < vaddr then return (m, sz, false)
      else if vaddr % PGSIZE ≠ 0 then return (m, sz, false)
      else do
        let (m, sz1) ← uvmalloc k m pagetable sz (uint64 (vaddr + memsz)) (flags2perm (get32 ph 4))
        if sz1 = 0 then return (m, sz, false)
        else
          let (m, done) ← loadseg m pagetable vaddr file (get64 ph 8) filesz
          if done then loadLoop k pagetable file phnum (off + 56) m sz1 else return (m, sz1, false)

/-- The loop over the arguments. It gives the stack pointer and `ustack`. -/
def argLoop (k : Image) (p : Proc) (pagetable stackbase : Nat) :
    List (List UInt8) → Nat → Mem → Nat → List Nat → Except Panic (Mem × Option (Nat × List Nat))
  | [], _, m, sp, ustack => return (m, some (sp, ustack))
  | arg :: argv, argc, m, sp, ustack =>
    if MAXARG ≤ argc then return (m, none)
    else
      let sp := uint64 (sp - (arg.length + 1))
      let sp := sp - sp % 16
      if sp < stackbase then return (m, none)
      else do
        let (m, done) ← copyout k m p pagetable sp (arg ++ [0])
        if done then argLoop k p pagetable stackbase argv (argc + 1) m sp (ustack ++ [sp])
        else return (m, none)

/-- The words in memory. -/
def words (l : List Nat) : List UInt8 := l.flatMap fun v => (List.range 8).map (byte v)

/-- The stack with the arguments below `sz`, and the stack pointer. -/
def pushArgs (k : Image) (m : Mem) (p : Proc) (pagetable sz : Nat) (argv : List (List UInt8)) :
    Except Panic (Mem × Option Nat) := do
  -- the stack is above `sz - USERSTACK * PGSIZE`
  let (m, pushed) ← argLoop k p pagetable (sz - USERSTACK * PGSIZE) argv 0 m sz []
  match pushed with
  | none => return (m, none)
  | some (sp, ustack) =>
    let sp := uint64 (sp - (argv.length + 1) * 8)
    let sp := sp - sp % 16
    if sp < sz - USERSTACK * PGSIZE then return (m, none)
    else
      let (m, done) ← copyout k m p pagetable sp (words (ustack ++ [0]))
      if done then return (m, some sp) else return (m, none)

/-- What is left of the path behind its last slash. -/
def last (path : List UInt8) : List UInt8 := (path.reverse.takeWhile (· ≠ 47)).reverse

/-- What is built in the new page table: its size so far, and the stack pointer if all went well. -/
def build (k : Image) (m : Mem) (p : Proc) (pagetable : Nat) (file : List UInt8) (argv : List (List UInt8)) :
    Except Panic (Mem × Nat × Option Nat) := do
  let elf := buffer (readi file 0 64)
  let (m, sz, done) ← loadLoop k pagetable file (get16 elf 56) (get64 elf 32 % 4294967296) m 0
  if done then
    let sz := PGROUNDUP sz
    let (m, sz1) ← uvmalloc k m pagetable sz (uint64 (sz + (USERSTACK + 1) * PGSIZE)) PTE_W
    if sz1 = 0 then return (m, sz, none)
    else
      let m ← uvmclear m pagetable (sz1 - (USERSTACK + 1) * PGSIZE)
      let (m, sp) ← pushArgs k m p pagetable sz1 argv
      return (m, sz1, sp)
  else return (m, sz, none)

/-- `p->trapframe` with the word at the offset. -/
def setTrapframe (m : Mem) (trapframe off v : Nat) : Mem :=
  { m with page := Function.update m.page trapframe (put64 (m.page trapframe) off v) }

/-- The call of a process, with the file that `namei` finds. It gives `argc`, or `none` for -1. -/
def kexec (k : Image) (s : State) (i : Nat) (path : List UInt8) (file : Option (List UInt8))
    (argv : List (List UInt8)) : Except Panic (State × Option Nat) :=
  match file with
  | none => return (s, none)
  | some file =>
    if (readi file 0 64).length ≠ 64 then return (s, none)
    else if get32 (buffer (readi file 0 64)) 0 ≠ ELF_MAGIC then return (s, none)
    else do
      let p := s.proc i
      let (m, pagetable) ← proc_pagetable k s.mem p.trapframe
      match pagetable with
      | none => return ({ s with mem := m }, none)
      | some pagetable =>
        let (m, sz, sp) ← build k m p pagetable file argv
        match sp with
        | none =>
          let m ← proc_freepagetable k m pagetable sz
          return ({ s with mem := m }, none)
        | some sp =>
          let m := setTrapframe m p.trapframe 120 sp
          let m := setTrapframe m p.trapframe 24 (get64 (buffer (readi file 0 64)) 24)
          let m := setTrapframe m p.trapframe 48 sp
          let m ← proc_freepagetable k m p.pagetable p.sz
          return ({ s with mem := m }.set i { p with pagetable, sz, name := safestrcpy (last path) 16 },
            some argv.length)

end xv6.spaces
