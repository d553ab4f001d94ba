-- The memory of a process (kernel/vm.c): the page table, growing and
-- shrinking it, the page faults, and the copies between user and kernel.
import Mathlib.Logic.Function.Basic
import Mathlib.Data.List.Basic

namespace xv6.vm

/-! ## Addresses -/

def PGSIZE : Nat := 4096

def MAXVA : Nat := 274877906944

def TRAMPOLINE : Nat := MAXVA - PGSIZE

def TRAPFRAME : Nat := TRAMPOLINE - PGSIZE

/-- A `uint64`, which wraps. -/
def uint64 (n : Int) : Nat := (n % 18446744073709551616).toNat

def PGROUNDUP (sz : Nat) : Nat := uint64 (sz + PGSIZE - 1) / PGSIZE * PGSIZE

def PGROUNDDOWN (a : Nat) : Nat := a / PGSIZE * PGSIZE

/-! ## The page table -/

inductive Panic
  /-- `walk` of an address that is too high -/
  | walk
  /-- `mappages` of a page that is mapped -/
  | remap
  /-- `freewalk` of a table with a page left in it -/
  | leaf
deriving DecidableEq, Repr

/-- A page with its flags. -/
structure Page where
  read : Bool
  write : Bool
  exec : Bool
  user : Bool
  data : Nat → UInt8

/-- A fresh page of the heap: `PTE_R | PTE_W | PTE_U`, all zero. -/
def Page.zero : Page :=
  { read := true, write := true, exec := false, user := true, data := fun _ => 0 }

/-- The valid entries, by the number of the page. -/
abbrev PageTable := Nat → Option Page

/-- The free memory: how many pages there are still to have, or no end of them. -/
abbrev Memory := Option Nat

/-- A page, with the pages of the table that `walk` needs to map it. -/
def kalloc : Memory → Option Memory
  | none => some none
  | some 0 => none
  | some (n + 1) => some (some n)

/-- The entry of the page, if it is valid. -/
def walk (pt : PageTable) (va : Nat) : Except Panic (Option Page) :=
  if MAXVA ≤ va then .error .walk else .ok (pt (va / PGSIZE))

/-- The page, if the user may use it. -/
def walkaddr (pt : PageTable) (va : Nat) : Option Page :=
  if MAXVA ≤ va then none else (pt (va / PGSIZE)).filter (·.user)

def mappages (pt : PageTable) (va : Nat) (pg : Page) : Except Panic PageTable :=
  match walk pt va with
  | .error e => .error e
  | .ok (some _) => .error .remap
  | .ok none => .ok (Function.update pt (va / PGSIZE) (some pg))

/-- The loop of `uvmunmap`. -/
def uvmunmap : PageTable → Nat → Nat → Except Panic PageTable
  | pt, _, 0 => .ok pt
  | pt, a, npages + 1 =>
    match walk pt a with
    | .error e => .error e
    | .ok _ => uvmunmap (Function.update pt (a / PGSIZE) none) (a + PGSIZE) npages

/-- The table without the pages from `newsz` on, and the new size. -/
def uvmdealloc (pt : PageTable) (oldsz newsz : Nat) : Except Panic (PageTable × Nat) :=
  if oldsz ≤ newsz then .ok (pt, oldsz)
  else if PGROUNDUP newsz < PGROUNDUP oldsz then
    (uvmunmap pt (PGROUNDUP newsz) ((PGROUNDUP oldsz - PGROUNDUP newsz) / PGSIZE)).map (·, newsz)
  else .ok (pt, newsz)

/-- The loop of `uvmalloc` over the pages from `a` on. It stops where the memory ends. -/
def uvmallocLoop (pg : Page) : Nat → Nat → Memory → PageTable → Except Panic (PageTable × Option Nat)
  | 0, _, _, pt => .ok (pt, none)
  | k + 1, a, mem, pt =>
    match kalloc mem with
    | none => .ok (pt, some a)
    | some mem =>
      match mappages pt a pg with
      | .error e => .error e
      | .ok pt => uvmallocLoop pg k (a + PGSIZE) mem pt

/-- The table and the new size, or 0 when the memory ended. -/
def uvmalloc (pt : PageTable) (oldsz newsz : Nat) (pg : Page) (mem : Memory) :
    Except Panic (PageTable × Nat) :=
  if newsz < oldsz then .ok (pt, oldsz)
  else
    let oldsz := PGROUNDUP oldsz
    match uvmallocLoop pg ((newsz - oldsz + PGSIZE - 1) / PGSIZE) oldsz mem pt with
    | .error e => .error e
    | .ok (pt, none) => .ok (pt, newsz)
    | .ok (pt, some a) => (uvmdealloc pt a oldsz).map fun r => (r.1, 0)

/-! ## The size of a process -/

/-- The memory of a process: `p->sz` and `p->pagetable`. -/
structure Space where
  sz : Nat
  pagetable : PageTable

/-- The space after the call, and whether it returns 0. -/
def growproc (sp : Space) (n : Int) (mem : Memory) : Except Panic (Space × Bool) :=
  if 0 < n then
    match uvmalloc sp.pagetable sp.sz (uint64 (sp.sz + n)) .zero mem with
    | .error e => .error e
    | .ok (pt, sz) =>
      if sz = 0 then .ok ({ sp with pagetable := pt }, false)
      else .ok ({ sz, pagetable := pt }, true)
  else if n < 0 then
    match uvmdealloc sp.pagetable sp.sz (uint64 (sp.sz + n)) with
    | .error e => .error e
    | .ok (pt, sz) => .ok ({ sz, pagetable := pt }, true)
  else .ok (sp, true)

def SBRK_EAGER : Int := 1

def SBRK_LAZY : Int := 2

/-- The space after the call, and its return value, where -1 is `none`. -/
def sys_sbrk (sp : Space) (n t : Int) (mem : Memory) : Except Panic (Space × Option Nat) :=
  if t = SBRK_EAGER ∨ n < 0 then
    match growproc sp n mem with
    | .error e => .error e
    | .ok (sp', done) => .ok (sp', if done then some sp.sz else none)
  else if uint64 (sp.sz + n) < sp.sz then .ok (sp, none)
  else .ok ({ sp with sz := uint64 (sp.sz + n) }, some sp.sz)

/-! ## Fork and exit -/

/-- The page of the trampoline, `PTE_R | PTE_X`. It is not for the user. -/
def Page.trampoline : Page :=
  { read := true, write := false, exec := true, user := false, data := fun _ => 0 }

/-- The page of the trapframe, `PTE_R | PTE_W`. It is not for the user. -/
def Page.trapframe : Page :=
  { read := true, write := true, exec := false, user := false, data := fun _ => 0 }

/-- The table of `proc_pagetable`. -/
def proc_pagetable : PageTable := fun v =>
  if v = TRAMPOLINE / PGSIZE then some .trampoline
  else if v = TRAPFRAME / PGSIZE then some .trapframe
  else none

/-- The loop of `uvmcopy` over the pages from `i` on. It stops where the memory ends. -/
def uvmcopyLoop (old : PageTable) : Nat → Nat → Memory → PageTable →
    Except Panic (PageTable × Option Nat)
  | 0, _, _, new => .ok (new, none)
  | k + 1, i, mem, new =>
    match walk old i with
    | .error e => .error e
    | .ok none => uvmcopyLoop old k (i + PGSIZE) mem new
    | .ok (some pg) =>
      match kalloc mem with
      | none => .ok (new, some i)
      | some mem =>
        match mappages new i pg with
        | .error e => .error e
        | .ok new => uvmcopyLoop old k (i + PGSIZE) mem new

/-- The copy of the pages of the parent, or `none` with the pages freed again. -/
def uvmcopy (old new : PageTable) (sz : Nat) (mem : Memory) :
    Except Panic (PageTable × Bool) :=
  match uvmcopyLoop old ((sz + PGSIZE - 1) / PGSIZE) 0 mem new with
  | .error e => .error e
  | .ok (new, none) => .ok (new, true)
  | .ok (new, some i) => (uvmunmap new 0 (i / PGSIZE)).map (·, false)

/-- `freewalk` wants a table without pages. -/
def freewalk (pt : PageTable) : Except Panic Unit :=
  if ∃ v < MAXVA / PGSIZE, (pt v).isSome then .error .leaf else .ok ()

def uvmfree (pt : PageTable) (sz : Nat) : Except Panic Unit :=
  if 0 < sz then
    match uvmunmap pt 0 (PGROUNDUP sz / PGSIZE) with
    | .error e => .error e
    | .ok pt => freewalk pt
  else freewalk pt

def proc_freepagetable (pt : PageTable) (sz : Nat) : Except Panic Unit :=
  match uvmunmap pt TRAMPOLINE 1 with
  | .error e => .error e
  | .ok pt =>
    match uvmunmap pt TRAPFRAME 1 with
    | .error e => .error e
    | .ok pt => uvmfree pt sz

/-- The space of the child of `kfork`, or `none` when the memory ended. -/
def kfork (sp : Space) (mem : Memory) : Except Panic (Option Space) :=
  -- the trapframe, the table and its pages
  match kalloc mem with
  | none => .ok none
  | some mem =>
    match uvmcopy sp.pagetable proc_pagetable sp.sz mem with
    | .error e => .error e
    | .ok (pt, true) => .ok (some { sz := sp.sz, pagetable := pt })
    | .ok (pt, false) => (proc_freepagetable pt 0).map fun _ => none

/-! ## Page faults -/

def ismapped (pt : PageTable) (va : Nat) : Except Panic Bool :=
  match walk pt va with
  | .error e => .error e
  | .ok pte => .ok pte.isSome

/-- The space with the page of the address, which was missing, or `none`. -/
def vmfault (sp : Space) (va : Nat) (mem : Memory) : Except Panic (Option (Space × Memory)) :=
  if sp.sz ≤ va then .ok none
  else
    match ismapped sp.pagetable (PGROUNDDOWN va) with
    | .error e => .error e
    | .ok true => .ok none
    | .ok false =>
      match kalloc mem with
      | none => .ok none
      | some mem =>
        match mappages sp.pagetable (PGROUNDDOWN va) .zero with
        | .error e => .error e
        | .ok pt => .ok (some ({ sp with pagetable := pt }, mem))

/-- `walkaddr`, and `vmfault` when it finds no page. -/
def fetch (sp : Space) (va0 : Nat) (mem : Memory) :
    Except Panic (Option (Space × Memory × Page)) :=
  match walkaddr sp.pagetable va0 with
  | some pg => .ok (some (sp, mem, pg))
  | none =>
    match vmfault sp va0 mem with
    | .error e => .error e
    | .ok none => .ok none
    | .ok (some (sp, mem)) => .ok (some (sp, mem, .zero))

/-! ## Copies -/

/-- `n` bytes of the page from the offset on. -/
def Page.bytes (pg : Page) (off n : Nat) : List UInt8 := (List.range n).map fun i => pg.data (off + i)

/-- The page with the bytes at the offset. -/
def Page.put (pg : Page) (off : Nat) (src : List UInt8) : Page :=
  { pg with data := fun i => if off ≤ i then src.getD (i - off) (pg.data i) else pg.data i }

def Space.put (sp : Space) (va0 : Nat) (pg : Page) : Space :=
  { sp with pagetable := Function.update sp.pagetable (va0 / PGSIZE) (some pg) }

/-- The loop of `copyout`. Every turn copies a byte at least, so there are `src.length` of them
at most. -/
def copyoutLoop : Nat → Space → Memory → Nat → List UInt8 → Except Panic (Space × Bool)
  | 0, sp, _, _, _ => .ok (sp, true)
  | k + 1, sp, mem, dstva, src =>
    if src = [] then .ok (sp, true)
    else
      let va0 := PGROUNDDOWN dstva
      if MAXVA ≤ va0 then .ok (sp, false)
      else
        match fetch sp va0 mem with
        | .error e => .error e
        | .ok none => .ok (sp, false)
        | .ok (some (sp, mem, pg)) =>
          if pg.write then
            let n := min (PGSIZE - (dstva - va0)) src.length
            copyoutLoop k (sp.put va0 (pg.put (dstva - va0) (src.take n))) mem
              (uint64 (va0 + PGSIZE)) (src.drop n)
          else .ok (sp, false)

def copyout (sp : Space) (mem : Memory) (dstva : Nat) (src : List UInt8) :
    Except Panic (Space × Bool) :=
  copyoutLoop src.length sp mem dstva src

/-- The loop of `copyin`, with the bytes that are in `dst`. -/
def copyinLoop : Nat → Space → Memory → Nat → Nat → List UInt8 →
    Except Panic (Space × List UInt8 × Bool)
  | 0, sp, _, _, _, dst => .ok (sp, dst, true)
  | k + 1, sp, mem, srcva, len, dst =>
    if len = 0 then .ok (sp, dst, true)
    else
      let va0 := PGROUNDDOWN srcva
      match fetch sp va0 mem with
      | .error e => .error e
      | .ok none => .ok (sp, dst, false)
      | .ok (some (sp, mem, pg)) =>
        let n := min (PGSIZE - (srcva - va0)) len
        copyinLoop k sp mem (uint64 (va0 + PGSIZE)) (len - n) (dst ++ pg.bytes (srcva - va0) n)

def copyin (sp : Space) (mem : Memory) (srcva len : Nat) :
    Except Panic (Space × List UInt8 × Bool) :=
  copyinLoop len sp mem srcva len []

/-- The loop of `copyinstr`. It looks for no page that is missing. -/
def copyinstrLoop (pt : PageTable) : Nat → Nat → Nat → List UInt8 → List UInt8 × Bool
  | 0, _, _, dst => (dst, false)
  | k + 1, srcva, max, dst =>
    if max = 0 then (dst, false)
    else
      let va0 := PGROUNDDOWN srcva
      match walkaddr pt va0 with
      | none => (dst, false)
      | some pg =>
        let n := min (PGSIZE - (srcva - va0)) max
        let bytes := pg.bytes (srcva - va0) n
        if 0 ∈ bytes then (dst ++ bytes.takeWhile (· ≠ 0) ++ [0], true)
        else copyinstrLoop pt k (uint64 (va0 + PGSIZE)) (max - n) (dst ++ bytes)

def copyinstr (sp : Space) (srcva max : Nat) : List UInt8 × Bool :=
  copyinstrLoop sp.pagetable max srcva max []

/-! ## What a user program and the kernel do with user memory -/

/-- A load or a store of a program is aligned, so that it stays in a page. -/
inductive Access
  /-- a load of `w` bytes -/
  | load (va w : Nat) (inPage : va % PGSIZE + w ≤ PGSIZE)
  | store (va : Nat) (bytes : List UInt8) (inPage : va % PGSIZE + bytes.length ≤ PGSIZE)
  | copyin (va len : Nat)
  | copyout (va : Nat) (bytes : List UInt8)
  | copyinstr (va max : Nat)
deriving DecidableEq, Repr

/-- The bytes that are read, and whether the access came to its end. A user program whose load
or store does not is killed. -/
abbrev Result := List UInt8 × Bool

/-- The page that the hardware uses for the address. -/
def translate (pt : PageTable) (va : Nat) : Option Page :=
  if va < MAXVA then pt (va / PGSIZE) else none

/-- A load of the user. A fault goes to `usertrap`, which calls `vmfault` with the address and
runs the instruction again if it has a page now. -/
def load (sp : Space) (mem : Memory) (va w : Nat) : Except Panic (Space × Result) :=
  match (translate sp.pagetable va).filter fun pg => pg.user ∧ pg.read with
  | some pg => .ok (sp, pg.bytes (va % PGSIZE) w, true)
  | none =>
    match vmfault sp va mem with
    | .error e => .error e
    | .ok none => .ok (sp, [], false)
    | .ok (some (sp, _)) => .ok (sp, Page.zero.bytes (va % PGSIZE) w, true)

def store (sp : Space) (mem : Memory) (va : Nat) (bytes : List UInt8) :
    Except Panic (Space × Result) :=
  match (translate sp.pagetable va).filter fun pg => pg.user ∧ pg.write with
  | some pg => .ok (sp.put va (pg.put (va % PGSIZE) bytes), [], true)
  | none =>
    match vmfault sp va mem with
    | .error e => .error e
    | .ok none => .ok (sp, [], false)
    | .ok (some (sp, _)) => .ok (sp.put va (Page.zero.put (va % PGSIZE) bytes), [], true)

def Space.access (sp : Space) (mem : Memory) : Access → Except Panic (Space × Result)
  | .load va w _ => load sp mem va w
  | .store va bytes _ => store sp mem va bytes
  | .copyin va len => (copyin sp mem va len).map fun r => (r.1, r.2.1, r.2.2)
  | .copyout va bytes => (copyout sp mem va bytes).map fun r => (r.1, [], r.2)
  | .copyinstr va max => .ok (sp, copyinstr sp va max)

end xv6.vm
