-- The process table (kernel/proc.c): fork, exit, wait and kill, each call as
-- one step, and what the scheduler does between them.
import SysNet.Lib.Runs
import Mathlib.Logic.Function.Basic
import Mathlib.Data.List.Basic

open runs

namespace xv6.ptable

/-! ## The table -/

def NPROC : Nat := 64

inductive procstate
  | UNUSED
  | USED
  | SLEEPING
  | RUNNABLE
  | RUNNING
  | ZOMBIE
deriving DecidableEq, Repr

/-- What a process sleeps on: a process, or something else in the kernel. -/
inductive Chan
  | proc (p : Nat)
  | other (n : Nat)
deriving DecidableEq, Repr

/-- The fields of `struct proc` that the four calls use. A process is known by its slot. -/
structure Proc where
  state : procstate
  chan : Option Chan
  killed : Bool
  xstate : Int
  pid : Int
  parent : Option Nat
deriving DecidableEq, Repr

structure State where
  proc : Nat → Proc
  nextpid : Int
  /-- the pids that `allocpid` has given -/
  created : Nat
  /-- the processes that have exited, with their status -/
  exits : List (Int × Int)
  /-- what the calls of `kwait` have returned, and the status they copied -/
  reaps : List (Int × Option Int)

/-- `userinit` takes the first slot. -/
def initproc : Nat := 0

def Proc.free : Proc :=
  { state := .UNUSED, chan := none, killed := false, xstate := 0, pid := 0, parent := none }

/-- The table after `userinit`. -/
def State.init : State :=
  { proc := Function.update (fun _ => .free) initproc { Proc.free with state := .RUNNABLE, pid := 1 }
    nextpid := 2, created := 1, exits := [], reaps := [] }

def State.set (s : State) (p : Nat) (q : Proc) : State :=
  { s with proc := Function.update s.proc p q }

/-! ## Sleep and wakeup -/

/-- A process that sleeps on the channel can run again. -/
def Proc.wakeup (q : Proc) (chan : Option Chan) : Proc :=
  if q.state = .SLEEPING ∧ q.chan = chan then { q with state := .RUNNABLE } else q

/-- `wakeup` by the process `me`. -/
def State.wakeup (s : State) (me : Nat) (chan : Option Chan) : State :=
  { s with proc := fun i => if i < NPROC ∧ i ≠ me then (s.proc i).wakeup chan else s.proc i }

/-! ## The calls -/

/-- An `int` wraps. -/
def int (n : Int) : Int := n.bmod 4294967296

/-- What the memory allocator gives a call of `kfork`: the trapframe page, the page table,
and the copy of the memory. -/
structure Memory where
  trapframe : Bool
  pagetable : Bool
  copy : Bool
deriving DecidableEq, Repr

/-- The slot is free again. The fields of its next process are those set here. -/
def State.freeproc (s : State) (p : Nat) : State := s.set p .free

def State.unused (s : State) : Option Nat :=
  (List.range NPROC).find? fun i => (s.proc i).state = .UNUSED

def State.allocproc (s : State) (m : Memory) : State × Option Nat :=
  match s.unused with
  | none => (s, none)
  | some np =>
    let s := { s.set np { s.proc np with pid := s.nextpid, state := .USED } with
      nextpid := int (s.nextpid + 1), created := s.created + 1 }
    if m.trapframe then
      if m.pagetable then (s, some np) else (s.freeproc np, none)
    else (s.freeproc np, none)

/-- The call of the process `p`, with its return value. -/
def State.kfork (s : State) (p : Nat) (m : Memory) : State × Int :=
  match s.allocproc m with
  | (s, none) => (s, -1)
  | (s, some np) =>
    if m.copy then
      (s.set np { s.proc np with parent := some p, state := .RUNNABLE }, (s.proc np).pid)
    else (s.freeproc np, -1)

/-- A turn of the loop of `reparent`. -/
def State.reparentOne (p : Nat) (s : State) (pp : Nat) : State :=
  if (s.proc pp).parent = some p then
    (s.set pp { s.proc pp with parent := some initproc }).wakeup p (some (.proc initproc))
  else s

def State.reparent (s : State) (p : Nat) : State := (List.range NPROC).foldl (reparentOne p) s

/-- `init` does not exit: the kernel panics. -/
def State.kexit (s : State) (p : Nat) (status : Int) : Option State :=
  if p = initproc then none
  else
    let s := s.reparent p
    let s := s.wakeup p ((s.proc p).parent.map .proc)
    some { s.set p { s.proc p with xstate := status, state := .ZOMBIE } with
      exits := s.exits ++ [((s.proc p).pid, status)] }

/-- A scan of `kwait`. The address may be null, and the copy to it may fail. -/
def State.kwait (s : State) (p addr : Nat) (copyout : Bool) : State :=
  match (List.range NPROC).find? fun pp =>
      (s.proc pp).parent = some p ∧ (s.proc pp).state = .ZOMBIE with
  | some pp =>
    if addr = 0 ∨ copyout then
      { s.freeproc pp with
        reaps := s.reaps ++ [((s.proc pp).pid, if addr = 0 then none else some (s.proc pp).xstate)] }
    else s
  | none =>
    if (∀ pp < NPROC, (s.proc pp).parent ≠ some p) ∨ (s.proc p).killed then s
    else s.set p { s.proc p with state := .SLEEPING, chan := some (.proc p) }

/-- The call of any process, with its return value. -/
def State.kkill (s : State) (pid : Int) : State × Int :=
  match (List.range NPROC).find? fun p => (s.proc p).pid = pid with
  | some p =>
    (s.set p { s.proc p with
      killed := true
      state := if (s.proc p).state = .SLEEPING then .RUNNABLE else (s.proc p).state }, 0)
  | none => (s, -1)

/-! ## The system -/

inductive Act
  | fork (p : Nat) (m : Memory)
  | exit (p : Nat) (status : Int)
  | wait (p addr : Nat) (copyout : Bool)
  | kill (p : Nat) (pid : Int)
  /-- the scheduler runs a process; what it slept on is over -/
  | run (p : Nat)
  | yield (p : Nat)
  | sleep (p : Nat) (chan : Chan)
  | wakeup (me : Nat) (chan : Chan)
  | setkilled (p : Nat)
deriving DecidableEq, Repr

/-- A process that runs does the step. -/
def State.step (s : State) : Act → Option State
  | .fork p m => if (s.proc p).state = .RUNNING then some (s.kfork p m).1 else none
  | .exit p status => if (s.proc p).state = .RUNNING then s.kexit p status else none
  | .wait p addr copyout =>
    if (s.proc p).state = .RUNNING then some (s.kwait p addr copyout) else none
  | .kill p pid => if (s.proc p).state = .RUNNING then some (s.kkill pid).1 else none
  | .run p =>
    if (s.proc p).state = .RUNNABLE then
      some (s.set p { s.proc p with state := .RUNNING, chan := none })
    else none
  | .yield p =>
    if (s.proc p).state = .RUNNING then some (s.set p { s.proc p with state := .RUNNABLE }) else none
  | .sleep p chan =>
    if (s.proc p).state = .RUNNING then
      some (s.set p { s.proc p with state := .SLEEPING, chan := some chan })
    else none
  | .wakeup me chan => some (s.wakeup me (some chan))
  | .setkilled p =>
    if (s.proc p).state = .RUNNING then some (s.set p { s.proc p with killed := true }) else none

/-! ## What the table promises -/

/-- The slot has a process, which may have exited. -/
def Proc.live (q : Proc) : Prop := q.state ≠ .UNUSED

/-- The process has exited. -/
def Proc.exited (q : Proc) : Prop := q.state = .ZOMBIE

/-- Each process that has exited was reaped by one call of `kwait`, or still waits for it. -/
structure ReapedOnce (s : State) : Prop where
  once : ∀ e ∈ s.exits,
    (s.reaps.countP fun r => r.1 = e.1) = 1 ∧ (∀ i, (s.proc i).live → (s.proc i).pid ≠ e.1) ∨
    (s.reaps.countP fun r => r.1 = e.1) = 0 ∧
      ∃ i, (s.proc i).exited ∧ (s.proc i).pid = e.1 ∧ (s.proc i).xstate = e.2
  status : ∀ r ∈ s.reaps, ∃ e ∈ s.exits, e.1 = r.1 ∧ ∀ st, r.2 = some st → st = e.2

structure TableKept (s : State) : Prop where
  nonzero : ∀ i, (s.proc i).live → (s.proc i).pid ≠ 0
  distinct : ∀ i j, (s.proc i).live → (s.proc j).live → (s.proc i).pid = (s.proc j).pid → i = j
  parent : ∀ i, (s.proc i).live → i ≠ initproc →
    ∃ r, (s.proc i).parent = some r ∧ (s.proc r).live ∧ ¬ (s.proc r).exited
  reaped : ReapedOnce s

/-- `kkill` changes the process with the pid and no other, and fails if there is none. -/
def KillsOnly (s : State) (pid : Int) : Prop :=
  (∃ p, (s.proc p).live ∧ (s.proc p).pid = pid ∧ (s.kkill pid).2 = 0 ∧
    ((s.kkill pid).1.proc p).killed = true ∧ ∀ i, i ≠ p → (s.kkill pid).1.proc i = s.proc i) ∨
  (∀ p, (s.proc p).live → (s.proc p).pid ≠ pid) ∧ s.kkill pid = (s, -1)

/-- A process that `kfork` makes is not killed. -/
def ForksAlive (s : State) (p : Nat) (m : Memory) : Prop :=
  ∀ i, ¬ (s.proc i).live → ((s.kfork p m).1.proc i).live → ((s.kfork p m).1.proc i).killed = false

/-- The condition: pid 0 is not killed while a slot is free, and the counter of the pids,
which a fork that fails uses too, has not come to its end. -/
def careful (s : State) : Act → Prop
  | .kill _ pid => pid ≠ 0 ∨ ∀ i < NPROC, (s.proc i).live
  | .fork _ _ => s.created + 1 < 2147483648
  | _ => True

instance (q : Proc) : Decidable q.live := inferInstanceAs (Decidable (_ ≠ _))

instance (s : State) (a : Act) : Decidable (careful s a) := by
  unfold careful
  split <;> infer_instance

/-! ## The invariant -/

/-- The table with what a slot without a process holds, and how far the pids are. -/
structure Consistent (s : State) : Prop where
  bound : ∀ i, (s.proc i).live → i < NPROC
  pid : ∀ i, (s.proc i).live → 0 < (s.proc i).pid ∧ (s.proc i).pid ≤ s.created
  distinct : ∀ i j, (s.proc i).live → (s.proc j).live → (s.proc i).pid = (s.proc j).pid → i = j
  free : ∀ i, ¬ (s.proc i).live →
    (s.proc i).pid = 0 ∧ (s.proc i).parent = none ∧ (s.proc i).killed = false
  init : (s.proc initproc).live ∧ ¬ (s.proc initproc).exited ∧ (s.proc initproc).parent = none
  parent : ∀ i, (s.proc i).live → i ≠ initproc →
    ∃ r, (s.proc i).parent = some r ∧ (s.proc r).live ∧ ¬ (s.proc r).exited
  counter : s.created < 2147483648 ∧ s.nextpid = int (s.created + 1)
  reaped : ReapedOnce s
  /-- a process that has not exited is not among those that have -/
  fresh : ∀ e ∈ s.exits, e.1 ≤ s.created ∧
    ∀ i, (s.proc i).live → (s.proc i).pid = e.1 → (s.proc i).exited
  /-- and one that has is among them once -/
  recorded : (∀ i, (s.proc i).exited → ((s.proc i).pid, (s.proc i).xstate) ∈ s.exits) ∧
    (s.exits.map Prod.fst).Nodup

variable {s s' : State}

theorem Proc.exited.live {q : Proc} (h : q.exited) : q.live := by
  unfold Proc.exited at h
  unfold Proc.live
  rw [h]
  simp

theorem Consistent.kept (h : Consistent s) : TableKept s where
  nonzero i hi := by
    have hpos := (h.pid i hi).1
    omega
  distinct := h.distinct
  parent := h.parent
  reaped := h.reaped

theorem Consistent.start : Consistent State.init := by
  have hproc : ∀ i, (State.init.proc i).live ↔ i = initproc := by
    intro i
    by_cases hi : i = initproc
    · subst hi
      simp [State.init, Proc.live]
    · simp [State.init, Proc.live, Proc.free, hi]
  have hexited : ∀ i, ¬ (State.init.proc i).exited := by
    intro i
    by_cases hi : i = initproc
    · subst hi
      simp [State.init, Proc.exited]
    · simp [State.init, Proc.exited, Proc.free, hi]
  refine ⟨fun i hi => ?_, fun i hi => ?_, fun i j hi hj _ => ?_, fun i hi => ?_, ?_,
    fun i hi hne => absurd ((hproc i).mp hi) hne, ?_, ⟨?_, ?_⟩, ?_, fun i hi => absurd hi (hexited i),
    List.nodup_nil⟩
  · rw [(hproc i).mp hi]
    decide
  · rw [(hproc i).mp hi]
    decide
  · rw [(hproc i).mp hi, (hproc j).mp hj]
  · have hne : i ≠ initproc := fun heq => hi ((hproc i).mpr heq)
    simp [State.init, Proc.free, hne]
  · exact ⟨(hproc _).mpr rfl, hexited _, rfl⟩
  · decide
  · intro e he
    cases he
  · intro r hr
    cases hr
  · intro e he
    cases he

/-! ## Steps that move no process in or out -/

/-- The same process, which may sleep or not, and may be killed if it is live. Its parent
may have changed. -/
structure Same (q q' : Proc) : Prop where
  live : q'.live ↔ q.live
  exited : q'.exited ↔ q.exited
  pid : q'.pid = q.pid
  xstate : q.exited → q'.xstate = q.xstate
  killed : ¬ q.live → q'.killed = q.killed

structure Alike (q q' : Proc) : Prop extends Same q q' where
  parent : q'.parent = q.parent

theorem Alike.refl (q : Proc) : Alike q q := ⟨⟨Iff.rfl, Iff.rfl, rfl, fun _ => rfl, fun _ => rfl⟩, rfl⟩

theorem Same.trans {q q' q'' : Proc} (h : Same q q') (h' : Same q' q'') : Same q q'' where
  live := h'.live.trans h.live
  exited := h'.exited.trans h.exited
  pid := h'.pid.trans h.pid
  xstate hq := (h'.xstate (h.exited.mpr hq)).trans (h.xstate hq)
  killed hq := (h'.killed fun hl => hq (h.live.mp hl)).trans (h.killed hq)

theorem Consistent.alike (h : Consistent s) (hproc : ∀ i, Alike (s.proc i) (s'.proc i))
    (hnext : s'.nextpid = s.nextpid) (hcreated : s'.created = s.created)
    (hexits : s'.exits = s.exits) (hreaps : s'.reaps = s.reaps) : Consistent s' where
  bound i hi := h.bound i ((hproc i).live.mp hi)
  pid i hi := by
    rw [(hproc i).pid, hcreated]
    exact h.pid i ((hproc i).live.mp hi)
  distinct i j hi hj heq := by
    rw [(hproc i).pid, (hproc j).pid] at heq
    exact h.distinct i j ((hproc i).live.mp hi) ((hproc j).live.mp hj) heq
  free i hi := by
    have hi' : ¬ (s.proc i).live := fun hl => hi ((hproc i).live.mpr hl)
    rw [(hproc i).pid, (hproc i).parent, (hproc i).killed hi']
    exact h.free i hi'
  init := by
    rw [(hproc _).live, (hproc _).exited, (hproc _).parent]
    exact h.init
  parent i hi hne := by
    obtain ⟨r, hr, hlive, hex⟩ := h.parent i ((hproc i).live.mp hi) hne
    exact ⟨r, (hproc i).parent.trans hr, (hproc r).live.mpr hlive,
      fun hx => hex ((hproc r).exited.mp hx)⟩
  counter := by
    rw [hcreated, hnext]
    exact h.counter
  reaped := by
    refine ⟨?_, by rw [hreaps, hexits]; exact h.reaped.status⟩
    rw [hexits, hreaps]
    intro e he
    rcases h.reaped.once e he with ⟨hone, hgone⟩ | ⟨hzero, i, hex, hpid, hst⟩
    · refine Or.inl ⟨hone, fun i hi => ?_⟩
      rw [(hproc i).pid]
      exact hgone i ((hproc i).live.mp hi)
    · exact Or.inr ⟨hzero, i, (hproc i).exited.mpr hex, (hproc i).pid.trans hpid,
        ((hproc i).xstate hex).trans hst⟩
  fresh := by
    rw [hexits, hcreated]
    intro e he
    refine ⟨(h.fresh e he).1, fun i hi hpid => ?_⟩
    rw [(hproc i).pid] at hpid
    exact (hproc i).exited.mpr ((h.fresh e he).2 i ((hproc i).live.mp hi) hpid)
  recorded := by
    rw [hexits]
    refine ⟨fun i hi => ?_, h.recorded.2⟩
    have hex := (hproc i).exited.mp hi
    rw [(hproc i).pid, (hproc i).xstate hex]
    exact h.recorded.1 i hex

@[simp] theorem set_self (s : State) (p : Nat) (q : Proc) : (s.set p q).proc p = q := by
  simp [State.set]

@[simp] theorem set_of_ne (s : State) {p i : Nat} (q : Proc) (h : i ≠ p) :
    (s.set p q).proc i = s.proc i := by
  simp [State.set, h]

/-- One process is changed into one like it. -/
theorem Consistent.set_alike {p : Nat} {q : Proc} (h : Consistent s) (hq : Alike (s.proc p) q) :
    Consistent (s.set p q) := by
  refine h.alike (fun i => ?_) rfl rfl rfl rfl
  by_cases hi : i = p
  · subst hi
    rw [set_self]
    exact hq
  · rw [set_of_ne s q hi]
    exact .refl _

theorem alike_wakeup (q : Proc) (chan : Option Chan) : Alike q (q.wakeup chan) := by
  unfold Proc.wakeup
  split
  · rename_i hsleep
    refine ⟨⟨?_, ?_, rfl, fun _ => rfl, fun _ => rfl⟩, rfl⟩
    · simp [Proc.live, hsleep.1]
    · simp [Proc.exited, hsleep.1]
  · exact .refl q

theorem alike_wakeup_proc (s : State) (me : Nat) (chan : Option Chan) (i : Nat) :
    Alike (s.proc i) ((s.wakeup me chan).proc i) := by
  unfold State.wakeup
  simp only
  split
  · exact alike_wakeup _ _
  · exact .refl _

/-- A process that runs goes to another state that is neither free nor exited. -/
theorem alike_of_running {q q' : Proc} (hq : q.state = .RUNNING ∨ q.state = .RUNNABLE)
    (hlive : q'.state ≠ .UNUSED) (hex : q'.state ≠ .ZOMBIE) (hpid : q'.pid = q.pid)
    (hparent : q'.parent = q.parent) : Alike q q' := by
  have hl : q.live := by
    unfold Proc.live
    rcases hq with hq | hq <;> rw [hq] <;> simp
  have he : ¬ q.exited := by
    unfold Proc.exited
    rcases hq with hq | hq <;> rw [hq] <;> simp
  exact ⟨⟨iff_of_true hlive hl, iff_of_false hex he, hpid, fun hx => absurd hx he,
    fun hn => absurd hl hn⟩, hparent⟩

/-! ## Kill -/

/-- A careful call finds only live processes. -/
theorem Consistent.killed_live {p q : Nat} {pid : Int} (h : Consistent s)
    (hok : careful s (.kill p pid)) (hq : q < NPROC) (hpid : (s.proc q).pid = pid) :
    (s.proc q).live := by
  rcases hok with hne | hall
  · by_contra hlive
    exact hne (hpid.symm.trans (h.free q hlive).1)
  · exact hall q hq

theorem Consistent.kkill {p : Nat} {pid : Int} (h : Consistent s)
    (hok : careful s (.kill p pid)) : Consistent (s.kkill pid).1 := by
  unfold State.kkill
  split
  · rename_i q hfind
    have hq : q < NPROC := List.mem_range.mp (List.mem_of_find?_eq_some hfind)
    have hpid : (s.proc q).pid = pid := by simpa using List.find?_some hfind
    have hlive := h.killed_live hok hq hpid
    refine h.set_alike ⟨⟨?_, ?_, rfl, fun _ => rfl, fun hn => absurd hlive hn⟩, rfl⟩
    · refine iff_of_true ?_ hlive
      unfold Proc.live at hlive ⊢
      simp only
      split
      · simp
      · exact hlive
    · unfold Proc.exited
      simp only
      split
      · rename_i hsleep
        simp [hsleep]
      · exact Iff.rfl
  · exact h

theorem Consistent.killsOnly {p : Nat} {pid : Int} (h : Consistent s)
    (hok : careful s (.kill p pid)) : KillsOnly s pid := by
  unfold KillsOnly State.kkill
  split
  · rename_i q hfind
    have hq : q < NPROC := List.mem_range.mp (List.mem_of_find?_eq_some hfind)
    have hpid : (s.proc q).pid = pid := by simpa using List.find?_some hfind
    refine Or.inl ⟨q, h.killed_live hok hq hpid, hpid, rfl, by simp, fun i hi => ?_⟩
    exact set_of_ne s _ hi
  · rename_i hnone
    refine Or.inr ⟨fun q hlive hpid => ?_, rfl⟩
    have hout := List.find?_eq_none.mp hnone q (List.mem_range.mpr (h.bound q hlive))
    simp [hpid] at hout

/-! ## Fork -/

theorem int_of_lt {n : Int} (h0 : 0 ≤ n) (h1 : n < 2147483648) : int n = n := by
  unfold int
  rw [Int.bmod_def]
  omega

theorem Consistent.nextpid (h : Consistent s) (hok : s.created + 1 < 2147483648) :
    s.nextpid = s.created + 1 := by
  rw [h.counter.2, int_of_lt (by omega) (by omega)]

/-- A pid is given, and nothing else happens. -/
theorem Consistent.counted (h : Consistent s) (hok : s.created + 1 < 2147483648) :
    Consistent { s with nextpid := int (s.nextpid + 1), created := s.created + 1 } where
  bound := h.bound
  pid i hi := by
    have hpid := h.pid i hi
    refine ⟨hpid.1, ?_⟩
    simp only
    omega
  distinct := h.distinct
  free := h.free
  init := h.init
  parent := h.parent
  counter := by
    refine ⟨hok, ?_⟩
    have hcast : ((s.created + 1 : Nat) : Int) = s.created + 1 := by omega
    simp only [h.nextpid hok, hcast]
  reaped := ⟨h.reaped.once, h.reaped.status⟩
  fresh e he := by
    have hle := (h.fresh e he).1
    refine ⟨?_, (h.fresh e he).2⟩
    simp only
    omega
  recorded := h.recorded

/-- A free slot gets a process with a new pid, whose parent runs. -/
theorem Consistent.add {np p : Nat} {q : Proc} (h : Consistent s) (hnp : ¬ (s.proc np).live)
    (hbound : np < NPROC) (hp : (s.proc p).state = .RUNNING) (hq : q.live) (hex : ¬ q.exited)
    (hpid : q.pid = s.created) (hnew : ∀ i, (s.proc i).live → (s.proc i).pid < s.created)
    (hexits : ∀ e ∈ s.exits, e.1 < s.created) (hpos : 0 < s.created)
    (hparent : q.parent = some p) : Consistent (s.set np q) := by
  have hother : ∀ i, i ≠ np → (s.set np q).proc i = s.proc i := fun i hi => set_of_ne s q hi
  have hne : ∀ i, (s.proc i).live → i ≠ np := fun i hi heq => hnp (heq ▸ hi)
  refine ⟨fun i hi => ?_, fun i hi => ?_, fun i j hi hj heq => ?_, fun i hi => ?_, ?_,
    fun i hi hi0 => ?_, h.counter, ⟨fun e he => ?_, h.reaped.status⟩, fun e he => ⟨(h.fresh e he).1, ?_⟩,
    fun i hi => ?_, h.recorded.2⟩
  · by_cases hin : i = np
    · rw [hin]
      exact hbound
    · rw [hother i hin] at hi
      exact h.bound i hi
  · by_cases hin : i = np
    · subst hin
      rw [set_self, hpid]
      change 0 < (s.created : Int) ∧ (s.created : Int) ≤ s.created
      omega
    · rw [hother i hin] at hi ⊢
      exact h.pid i hi
  · by_cases hin : i = np
    · subst hin
      by_contra hji
      have hji' : j ≠ i := fun he => hji he.symm
      rw [hother j hji'] at hj heq
      rw [set_self, hpid] at heq
      have := hnew j hj
      omega
    · rw [hother i hin] at hi heq
      by_cases hjn : j = np
      · subst hjn
        rw [set_self, hpid] at heq
        have := hnew i hi
        omega
      · rw [hother j hjn] at hj heq
        exact h.distinct i j hi hj heq
  · by_cases hin : i = np
    · subst hin
      rw [set_self] at hi
      exact absurd hq hi
    · rw [hother i hin] at hi ⊢
      exact h.free i hi
  · rw [hother _ (hne _ h.init.1)]
    exact h.init
  · by_cases hin : i = np
    · subst hin
      have hlive : (s.proc p).live := by simp [Proc.live, hp]
      refine ⟨p, by rw [set_self]; exact hparent, ?_⟩
      rw [hother p (hne p hlive)]
      exact ⟨hlive, by simp [Proc.exited, hp]⟩
    · rw [hother i hin] at hi ⊢
      obtain ⟨r, hr, hlive, hrex⟩ := h.parent i hi hi0
      refine ⟨r, hr, ?_⟩
      rw [hother r (hne r hlive)]
      exact ⟨hlive, hrex⟩
  · rcases h.reaped.once e he with ⟨hone, hgone⟩ | ⟨hzero, i, hx, hrest⟩
    · refine Or.inl ⟨hone, fun i hi => ?_⟩
      by_cases hin : i = np
      · subst hin
        have := hexits e he
        rw [set_self, hpid]
        omega
      · rw [hother i hin] at hi ⊢
        exact hgone i hi
    · refine Or.inr ⟨hzero, i, ?_⟩
      rw [hother i (hne i hx.live)]
      exact ⟨hx, hrest⟩
  · intro i hi hpide
    by_cases hin : i = np
    · subst hin
      have := hexits e he
      rw [set_self, hpid] at hpide
      omega
    · rw [hother i hin] at hi hpide ⊢
      exact (h.fresh e he).2 i hi hpide
  · by_cases hin : i = np
    · subst hin
      rw [set_self] at hi
      exact absurd hi hex
    · rw [hother i hin] at hi ⊢
      exact h.recorded.1 i hi

theorem unused_some {np : Nat} (h : s.unused = some np) : np < NPROC ∧ ¬ (s.proc np).live := by
  unfold State.unused at h
  refine ⟨List.mem_range.mp (List.mem_of_find?_eq_some h), fun hlive => hlive ?_⟩
  simpa using List.find?_some h

/-- A slot that was free is free again, with a pid used up. -/
theorem Consistent.set_free {np : Nat} (h : Consistent s) (hnp : ¬ (s.proc np).live) :
    Consistent (s.set np .free) := by
  have hfree := h.free np hnp
  have hex : ¬ (s.proc np).exited := fun hx => hnp hx.live
  refine h.set_alike ⟨⟨iff_of_false (by simp [Proc.live, Proc.free]) hnp,
    iff_of_false (by simp [Proc.exited, Proc.free]) hex, hfree.1.symm, fun hx => absurd hx hex,
    fun _ => hfree.2.2.symm⟩, hfree.2.1.symm⟩

/-- What `kfork` can do: nothing, take a pid, or take a pid and fill a free slot. -/
theorem kfork_cases (s : State) (p : Nat) (m : Memory) :
    (s.kfork p m).1 = s ∨ ∃ np, np < NPROC ∧ ¬ (s.proc np).live ∧
      ((s.kfork p m).1 = State.set { s with
          nextpid := int (s.nextpid + 1), created := s.created + 1 } np .free ∨
       (s.kfork p m).1 = State.set { s with
          nextpid := int (s.nextpid + 1), created := s.created + 1 } np
          { s.proc np with pid := s.nextpid, parent := some p, state := .RUNNABLE }) := by
  unfold State.kfork State.allocproc
  cases hunused : s.unused with
  | none => exact Or.inl rfl
  | some np =>
    obtain ⟨hbound, hnp⟩ := unused_some hunused
    refine Or.inr ⟨np, hbound, hnp, ?_⟩
    cases hm : m.trapframe <;> cases hm' : m.pagetable <;> cases hm'' : m.copy <;>
      simp [State.set, State.freeproc]

theorem Consistent.kfork {p : Nat} {m : Memory} (h : Consistent s)
    (hok : careful s (.fork p m)) (hp : (s.proc p).state = .RUNNING) :
    Consistent (s.kfork p m).1 := by
  have hcount := h.counted hok
  rcases kfork_cases s p m with hsame | ⟨np, hbound, hnp, hfail | hdone⟩
  · rw [hsame]
    exact h
  · rw [hfail]
    exact hcount.set_free hnp
  · rw [hdone]
    refine hcount.add hnp hbound hp (by simp [Proc.live]) (by simp [Proc.exited]) ?_ ?_ ?_
      (Nat.succ_pos _) rfl
    · simp [h.nextpid hok]
    · intro i hi
      have := (h.pid i hi).2
      simp only
      omega
    · intro e he
      have := (h.fresh e he).1
      simp only
      omega

theorem Consistent.forksAlive {p : Nat} {m : Memory} (h : Consistent s) : ForksAlive s p m := by
  intro i hi hlive
  rcases kfork_cases s p m with hsame | ⟨np, -, hnp, hfail | hdone⟩
  · rw [hsame] at hlive
    exact absurd hlive hi
  · rw [hfail] at hlive ⊢
    by_cases hin : i = np
    · subst hin
      rw [set_self]
      rfl
    · rw [set_of_ne _ _ hin] at hlive
      exact absurd hlive hi
  · rw [hdone] at hlive ⊢
    by_cases hin : i = np
    · subst hin
      rw [set_self]
      exact (h.free i hnp).2.2
    · rw [set_of_ne _ _ hin] at hlive
      exact absurd hlive hi

/-! ## Exit -/

/-- The parent of a child of `p` is `init` now. -/
def adopt (p : Nat) (parent : Option Nat) : Option Nat :=
  if parent = some p then some initproc else parent

theorem reparentOne_alike {p pp : Nat} (i : Nat) :
    Same (s.proc i) ((s.reparentOne p pp).proc i) ∧
      ((s.reparentOne p pp).proc i).parent =
        if i = pp then adopt p (s.proc i).parent else (s.proc i).parent := by
  unfold State.reparentOne
  split
  · rename_i hpar
    have hwake := alike_wakeup_proc (s.set pp { s.proc pp with parent := some initproc }) p
      (some (.proc initproc)) i
    rw [hwake.parent]
    by_cases hi : i = pp
    · subst hi
      rw [set_self] at hwake ⊢
      have hset : Same (s.proc i) { s.proc i with parent := some initproc } :=
        ⟨Iff.rfl, Iff.rfl, rfl, fun _ => rfl, fun _ => rfl⟩
      exact ⟨hset.trans hwake.toSame, by simp [adopt, hpar]⟩
    · rw [set_of_ne _ _ hi] at hwake ⊢
      exact ⟨hwake.toSame, by simp [hi]⟩
  · rename_i hpar
    refine ⟨(Alike.refl _).toSame, ?_⟩
    by_cases hi : i = pp
    · subst hi
      simp [adopt, hpar]
    · simp [hi]

theorem adopt_adopt {p : Nat} (hp : p ≠ initproc) (r : Option Nat) :
    adopt p (adopt p r) = adopt p r := by
  unfold adopt
  by_cases hr : r = some p
  · simp [hr, hp.symm]
  · simp [hr]

/-- The loop of `reparent` over the slots of a list. -/
theorem reparent_list {p : Nat} (hp : p ≠ initproc) (l : List Nat) (s : State) (i : Nat) :
    Same (s.proc i) ((l.foldl (State.reparentOne p) s).proc i) ∧
      ((l.foldl (State.reparentOne p) s).proc i).parent =
        if i ∈ l then adopt p (s.proc i).parent else (s.proc i).parent := by
  induction l generalizing s with
  | nil => exact ⟨(Alike.refl _).toSame, by simp⟩
  | cons pp l ih =>
    obtain ⟨hone, hparent⟩ := @reparentOne_alike s p pp i
    obtain ⟨hrest, hparents⟩ := ih (s.reparentOne p pp)
    refine ⟨hone.trans hrest, ?_⟩
    rw [List.foldl_cons, hparents, hparent]
    by_cases hi : i = pp
    · subst hi
      simp [adopt_adopt hp]
    · simp [hi]

theorem reparentOne_rest {p pp : Nat} :
    (s.reparentOne p pp).nextpid = s.nextpid ∧ (s.reparentOne p pp).created = s.created ∧
      (s.reparentOne p pp).exits = s.exits ∧ (s.reparentOne p pp).reaps = s.reaps := by
  unfold State.reparentOne
  split
  · exact ⟨rfl, rfl, rfl, rfl⟩
  · exact ⟨rfl, rfl, rfl, rfl⟩

theorem reparent_rest {p : Nat} (l : List Nat) (s : State) :
    (l.foldl (State.reparentOne p) s).nextpid = s.nextpid ∧
      (l.foldl (State.reparentOne p) s).created = s.created ∧
      (l.foldl (State.reparentOne p) s).exits = s.exits ∧
      (l.foldl (State.reparentOne p) s).reaps = s.reaps := by
  induction l generalizing s with
  | nil => exact ⟨rfl, rfl, rfl, rfl⟩
  | cons pp l ih =>
    obtain ⟨h1, h2, h3, h4⟩ := ih (s.reparentOne p pp)
    obtain ⟨g1, g2, g3, g4⟩ := @reparentOne_rest s p pp
    exact ⟨h1.trans g1, h2.trans g2, h3.trans g3, h4.trans g4⟩

/-- A process of the table exits, after its children have gone to `init`. -/
theorem Consistent.exit {p : Nat} {status : Int} {u : State} (h : Consistent s)
    (hp : (s.proc p).state = .RUNNING) (hinit : p ≠ initproc)
    (hsame : ∀ i, i ≠ p → Same (s.proc i) (u.proc i))
    (hparent : ∀ i, (u.proc i).parent = adopt p (s.proc i).parent)
    (hpid : (u.proc p).pid = (s.proc p).pid) (hzombie : (u.proc p).exited)
    (hstatus : (u.proc p).xstate = status) (hnext : u.nextpid = s.nextpid)
    (hcreated : u.created = s.created) (hexits : u.exits = s.exits ++ [((s.proc p).pid, status)])
    (hreaps : u.reaps = s.reaps) : Consistent u := by
  have hplive : (s.proc p).live := by simp [Proc.live, hp]
  have hpex : ¬ (s.proc p).exited := by simp [Proc.exited, hp]
  have hlive : ∀ i, (u.proc i).live ↔ (s.proc i).live := by
    intro i
    by_cases hi : i = p
    · subst hi
      exact iff_of_true hzombie.live hplive
    · exact (hsame i hi).live
  have hpids : ∀ i, (u.proc i).pid = (s.proc i).pid := by
    intro i
    by_cases hi : i = p
    · subst hi
      exact hpid
    · exact (hsame i hi).pid
  have hexited : ∀ i, i ≠ p → ((u.proc i).exited ↔ (s.proc i).exited) := fun i hi => (hsame i hi).exited
  -- no call of `kwait` has returned the pid of a process that runs
  have hnew : ∀ e ∈ s.exits, e.1 ≠ (s.proc p).pid := fun e he heq =>
    hpex ((h.fresh e he).2 p hplive heq.symm)
  refine ⟨fun i hi => h.bound i ((hlive i).mp hi), fun i hi => ?_, fun i j hi hj heq => ?_,
    fun i hi => ?_, ?_, fun i hi hne => ?_, ?_, ⟨fun e he => ?_, fun r hr => ?_⟩, fun e he => ?_,
    fun i hi => ?_, ?_⟩
  · rw [hpids, hcreated]
    exact h.pid i ((hlive i).mp hi)
  · rw [hpids, hpids] at heq
    exact h.distinct i j ((hlive i).mp hi) ((hlive j).mp hj) heq
  · have hi' : ¬ (s.proc i).live := fun hl => hi ((hlive i).mpr hl)
    have hip : i ≠ p := fun heq => hi' (heq ▸ hplive)
    obtain ⟨h1, h2, h3⟩ := h.free i hi'
    rw [hpids, hparent, h2, (hsame i hip).killed hi']
    exact ⟨h1, by simp [adopt], h3⟩
  · have hne := hinit.symm
    rw [hlive, hexited _ hne, hparent, h.init.2.2]
    exact ⟨h.init.1, h.init.2.1, by simp [adopt]⟩
  · obtain ⟨r, hr, hrlive, hrex⟩ := h.parent i ((hlive i).mp hi) hne
    rw [hparent, hr]
    by_cases hrp : r = p
    · subst hrp
      refine ⟨initproc, by simp [adopt], (hlive _).mpr h.init.1, ?_⟩
      rw [hexited _ hinit.symm]
      exact h.init.2.1
    · refine ⟨r, by simp [adopt, hrp], (hlive r).mpr hrlive, ?_⟩
      rw [hexited r hrp]
      exact hrex
  · rw [hcreated, hnext]
    exact h.counter
  · rw [hreaps]
    rw [hexits] at he
    rcases List.mem_append.mp he with hold | hlast
    · rcases h.reaped.once e hold with ⟨hone, hgone⟩ | ⟨hzero, i, hx, hpe, hst⟩
      · refine Or.inl ⟨hone, fun i hi => ?_⟩
        rw [hpids]
        exact hgone i ((hlive i).mp hi)
      · have hip : i ≠ p := fun heq => hpex (heq ▸ hx)
        refine Or.inr ⟨hzero, i, (hexited i hip).mpr hx, (hpids i).trans hpe, ?_⟩
        rw [(hsame i hip).xstate hx]
        exact hst
    · obtain rfl : e = ((s.proc p).pid, status) := by simpa using hlast
      refine Or.inr ⟨List.countP_eq_zero.mpr fun r hr => ?_, p, hzombie, hpid, hstatus⟩
      obtain ⟨e, he', heq, -⟩ := h.reaped.status r hr
      have := hnew e he'
      rw [heq] at this
      simpa using this
  · rw [hreaps] at hr
    obtain ⟨e, he, hrest⟩ := h.reaped.status r hr
    exact ⟨e, by rw [hexits]; exact List.mem_append_left _ he, hrest⟩
  · rw [hexits] at he
    rw [hcreated]
    rcases List.mem_append.mp he with hold | hlast
    · refine ⟨(h.fresh e hold).1, fun i hi hpe => ?_⟩
      rw [hpids] at hpe
      have hx := (h.fresh e hold).2 i ((hlive i).mp hi) hpe
      exact (hexited i fun heq => hpex (heq ▸ hx)).mpr hx
    · obtain rfl : e = ((s.proc p).pid, status) := by simpa using hlast
      refine ⟨(h.pid p hplive).2, fun i hi hpe => ?_⟩
      rw [hpids] at hpe
      rw [h.distinct i p ((hlive i).mp hi) hplive hpe]
      exact hzombie
  · rw [hexits, hpids]
    by_cases hip : i = p
    · subst hip
      rw [hstatus]
      simp
    · have hx := (hexited i hip).mp hi
      rw [(hsame i hip).xstate hx]
      exact List.mem_append_left _ (h.recorded.1 i hx)
  · rw [hexits, List.map_append, List.nodup_append]
    refine ⟨h.recorded.2, by simp, fun a ha b hb heq => ?_⟩
    obtain ⟨e, he, rfl⟩ := List.mem_map.mp ha
    have : b = (s.proc p).pid := by simpa using hb
    exact hnew e he (heq.trans this)

/-- What `reparent` and the wakeup of the parent leave. -/
structure Orphaned (p : Nat) (s u : State) : Prop where
  same : ∀ i, Same (s.proc i) (u.proc i)
  parent : ∀ i, (u.proc i).parent = adopt p (s.proc i).parent
  nextpid : u.nextpid = s.nextpid
  created : u.created = s.created
  exits : u.exits = s.exits
  reaps : u.reaps = s.reaps

/-- The list has every slot with a process. -/
theorem Consistent.orphaned_list {p : Nat} {l : List Nat} (h : Consistent s)
    (hinit : p ≠ initproc) (hl : ∀ i, (s.proc i).live → i ∈ l) :
    Orphaned p s (l.foldl (State.reparentOne p) s) := by
  obtain ⟨h1, h2, h3, h4⟩ := reparent_rest (p := p) l s
  refine ⟨fun i => (reparent_list hinit l s i).1, fun i => ?_, h1, h2, h3, h4⟩
  rw [(reparent_list hinit l s i).2]
  split
  · rfl
  · rename_i hi
    -- a slot outside the table has no process and no parent
    rw [(h.free i fun hlive => hi (hl i hlive)).2.1]
    simp [adopt]

theorem Consistent.orphaned {p : Nat} (h : Consistent s) (hinit : p ≠ initproc) :
    Orphaned p s (s.reparent p) := by
  unfold State.reparent
  exact h.orphaned_list hinit fun i hi => List.mem_range.mpr (h.bound i hi)

theorem Orphaned.wakeup {p me : Nat} {u : State} (h : Orphaned p s u) (chan : Option Chan) :
    Orphaned p s (u.wakeup me chan) where
  same i := (h.same i).trans (alike_wakeup_proc u me chan i).toSame
  parent i := (alike_wakeup_proc u me chan i).parent.trans (h.parent i)
  nextpid := h.nextpid
  created := h.created
  exits := h.exits
  reaps := h.reaps

theorem Consistent.kexit {p : Nat} {status : Int} (h : Consistent s)
    (hp : (s.proc p).state = .RUNNING) (hs : s.kexit p status = some s') : Consistent s' := by
  unfold State.kexit at hs
  split at hs
  · cases hs
  · rename_i hinit
    dsimp only at hs
    have hreparent := h.orphaned hinit
    generalize s.reparent p = t at hs hreparent
    have horphan : Orphaned p s (t.wakeup p _) := hreparent.wakeup ((t.proc p).parent.map .proc)
    generalize t.wakeup p ((t.proc p).parent.map .proc) = u at hs horphan
    cases hs
    have hexits : u.exits ++ [((u.proc p).pid, status)] =
        s.exits ++ [((s.proc p).pid, status)] := by
      rw [horphan.exits, (horphan.same p).pid]
    refine h.exit (p := p) hp hinit (fun i hi => ?_) (fun i => ?_) ?_ ?_ ?_ horphan.nextpid
      horphan.created hexits horphan.reaps
    · simp only [set_of_ne _ _ hi]
      exact horphan.same i
    · rw [← horphan.parent i]
      by_cases hi : i = p
      · subst hi
        simp
      · simp [hi]
    · simp only [set_self]
      exact (horphan.same p).pid
    · simp [Proc.exited]
    · simp

/-! ## Wait -/

/-- An exited process is reaped, and its slot is free. -/
theorem Consistent.reap {pp : Nat} {status : Option Int} (h : Consistent s)
    (hpp : (s.proc pp).exited) (hst : ∀ st, status = some st → st = (s.proc pp).xstate) :
    Consistent { s.freeproc pp with reaps := s.reaps ++ [((s.proc pp).pid, status)] } := by
  have hother : ∀ i, i ≠ pp → (s.freeproc pp).proc i = s.proc i := fun i hi => set_of_ne s _ hi
  have hself : (s.freeproc pp).proc pp = .free := set_self s _ _
  have hdead : ¬ Proc.free.live := by simp [Proc.live, Proc.free]
  have hne : ∀ i, ((s.freeproc pp).proc i).live → i ≠ pp := by
    rintro i hi rfl
    rw [hself] at hi
    exact hdead hi
  have hback : ∀ i, ((s.freeproc pp).proc i).live → (s.proc i).live := by
    intro i hi
    have := hne i hi
    rwa [hother i this] at hi
  have hstay : ∀ i, (s.proc i).live → ¬ (s.proc i).exited → i ≠ pp := fun i _ hx heq => hx (heq ▸ hpp)
  refine ⟨fun i hi => h.bound i (hback i hi), fun i hi => ?_, fun i j hi hj heq => ?_, fun i hi => ?_,
    ?_, fun i hi hi0 => ?_, h.counter, ⟨fun e he => ?_, fun r hr => ?_⟩,
    fun e he => ⟨(h.fresh e he).1, fun i hi hpid => ?_⟩, fun i hi => ?_, h.recorded.2⟩
  · have hi' := hback i hi
    simp only [hother i (hne i hi)]
    exact h.pid i hi'
  · simp only [hother i (hne i hi), hother j (hne j hj)] at heq
    exact h.distinct i j (hback i hi) (hback j hj) heq
  · by_cases hip : i = pp
    · subst hip
      simp only [hself]
      exact ⟨rfl, rfl, rfl⟩
    · simp only [hother i hip] at hi ⊢
      exact h.free i hi
  · simp only [hother _ (hstay _ h.init.1 h.init.2.1)]
    exact h.init
  · obtain ⟨r, hr, hrlive, hrex⟩ := h.parent i (hback i hi) hi0
    simp only [hother i (hne i hi)]
    refine ⟨r, hr, ?_⟩
    rw [hother r (hstay r hrlive hrex)]
    exact ⟨hrlive, hrex⟩
  · rw [List.countP_append]
    by_cases heq : (s.proc pp).pid = e.1
    · left
      rcases h.reaped.once e he with ⟨-, hgone⟩ | ⟨hzero, -⟩
      · exact absurd heq (hgone pp hpp.live)
      · refine ⟨by simp [hzero, heq], fun i hi hpid => ?_⟩
        simp only [hother i (hne i hi)] at hpid
        exact hne i hi (h.distinct i pp (hback i hi) hpp.live (hpid.trans heq.symm))
    · have hsame : [((s.proc pp).pid, status)].countP (fun r => r.1 = e.1) = 0 := by simp [heq]
      rw [hsame]
      rcases h.reaped.once e he with ⟨hone, hgone⟩ | ⟨hzero, i, hx, hpid, hxs⟩
      · refine Or.inl ⟨hone, fun i hi => ?_⟩
        simp only [hother i (hne i hi)]
        exact hgone i (hback i hi)
      · have hip : i ≠ pp := fun hip => heq (hip ▸ hpid)
        refine Or.inr ⟨hzero, i, ?_⟩
        simp only [hother i hip]
        exact ⟨hx, hpid, hxs⟩
  · rcases List.mem_append.mp hr with hold | hlast
    · exact h.reaped.status r hold
    · obtain rfl : r = ((s.proc pp).pid, status) := by simpa using hlast
      exact ⟨_, h.recorded.1 pp hpp, rfl, hst⟩
  · simp only [hother i (hne i hi)] at hpid ⊢
    exact (h.fresh e he).2 i (hback i hi) hpid
  · have hip : i ≠ pp := hne i hi.live
    simp only [hother i hip] at hi ⊢
    exact h.recorded.1 i hi

theorem Consistent.kwait {p addr : Nat} {copyout : Bool} (h : Consistent s)
    (hp : (s.proc p).state = .RUNNING) : Consistent (s.kwait p addr copyout) := by
  unfold State.kwait
  split
  · rename_i pp hfind
    have hpp := List.find?_some hfind
    simp only [decide_eq_true_eq] at hpp
    split
    · refine h.reap hpp.2 fun st hst => ?_
      split at hst
      · cases hst
      · exact (Option.some.inj hst).symm
    · exact h
  · split
    · exact h
    · exact h.set_alike (alike_of_running (Or.inl hp) (by simp) (by simp) rfl rfl)

/-! ## The result -/

theorem Consistent.step {a : Act} (h : Consistent s) (hok : careful s a)
    (hs : s.step a = some s') : Consistent s' := by
  cases a with
  | fork p m =>
    simp only [State.step] at hs
    split at hs
    · rename_i hp
      cases hs
      exact h.kfork hok hp
    · cases hs
  | exit p status =>
    simp only [State.step] at hs
    split at hs
    · rename_i hp
      exact h.kexit hp hs
    · cases hs
  | wait p addr copyout =>
    simp only [State.step] at hs
    split at hs
    · rename_i hp
      cases hs
      exact h.kwait hp
    · cases hs
  | kill p pid =>
    simp only [State.step] at hs
    split at hs
    · cases hs
      exact h.kkill hok
    · cases hs
  | run p =>
    simp only [State.step] at hs
    split at hs
    · rename_i hp
      cases hs
      exact h.set_alike (alike_of_running (Or.inr hp) (by simp) (by simp) rfl rfl)
    · cases hs
  | yield p =>
    simp only [State.step] at hs
    split at hs
    · rename_i hp
      cases hs
      exact h.set_alike (alike_of_running (Or.inl hp) (by simp) (by simp) rfl rfl)
    · cases hs
  | sleep p chan =>
    simp only [State.step] at hs
    split at hs
    · rename_i hp
      cases hs
      exact h.set_alike (alike_of_running (Or.inl hp) (by simp) (by simp) rfl rfl)
    · cases hs
  | wakeup me chan =>
    cases hs
    exact h.alike (alike_wakeup_proc s me (some chan)) rfl rfl rfl rfl
  | setkilled p =>
    simp only [State.step] at hs
    split at hs
    · rename_i hp
      cases hs
      exact h.set_alike (alike_of_running (Or.inl hp) (by simp [hp]) (by simp [hp]) rfl rfl)
    · cases hs

/-- In every run in which nobody kills pid 0 while a slot is free, and in which fewer than
2 ^ 31 pids are given, the table is kept in every state, every kill hits the process with its
pid and no other, and every fork makes a process that is not killed. -/
theorem the_process_table_is_kept {as : List Act} (hrun : Run State.step careful State.init as s) :
    TableKept s ∧ (∀ p pid, careful s (.kill p pid) → KillsOnly s pid) ∧
      ∀ p m, ForksAlive s p m := by
  have h : Consistent s := hrun.invariant Consistent.start fun _ _ _ h hok hs => h.step hok hs
  exact ⟨h.kept, fun _ _ hok => h.killsOnly hok, fun _ _ => h.forksAlive⟩

/-- `init` forks, the child is killed by its pid and exits, and `init` reaps it. -/
theorem a_child_is_reaped : ∃ s : State,
    Run State.step careful State.init
      [.run 0, .fork 0 ⟨true, true, true⟩, .run 1, .kill 0 2, .exit 1 7, .wait 0 4096 true] s ∧
    TableKept s ∧ s.reaps = [(2, some 7)] := by
  have hcomputed : (exec State.step careful State.init
      [.run 0, .fork 0 ⟨true, true, true⟩, .run 1, .kill 0 2, .exit 1 7, .wait 0 4096 true]).any
      (fun s => s.reaps = [(2, some 7)]) = true := by
    decide +kernel
  obtain ⟨s, hs, hend⟩ := (Option.any_eq_true _ _).mp hcomputed
  have hrun := run_of_exec hs
  exact ⟨s, hrun, (the_process_table_is_kept hrun).1, of_decide_eq_true hend⟩

/-- `kill(0)` finds a free slot, whose pid is 0. It reports success, and the next process
there is born killed. -/
theorem a_killed_slot_is_forked : ¬ ∀ (as : List Act) (s : State),
    Run State.step anyStep State.init as s → s.created < 2147483648 →
      TableKept s ∧ (∀ pid, KillsOnly s pid) ∧ ∀ p m, ForksAlive s p m := by
  intro h
  have hcomputed : (exec State.step anyStep State.init [.run 0, .kill 0 0]).any
      (fun s => s.created = 1 ∧ ((s.kfork 0 ⟨true, true, true⟩).1.proc 1).state = .RUNNABLE ∧
        (s.proc 1).state = .UNUSED ∧
        ((s.kfork 0 ⟨true, true, true⟩).1.proc 1).killed = true) = true := by
    decide +kernel
  obtain ⟨s, hs, hend⟩ := (Option.any_eq_true _ _).mp hcomputed
  obtain ⟨hcreated, hrunnable, hfree, hkilled⟩ := of_decide_eq_true hend
  obtain ⟨-, -, hforks⟩ := h _ s (run_of_exec hs) (by omega)
  have halive := hforks 0 ⟨true, true, true⟩ 1 (by simp [Proc.live, hfree])
    (by simp [Proc.live, hrunnable])
  rw [hkilled] at halive
  cases halive

end xv6.ptable
