-- A pipe (kernel/pipe.c): the ring of bytes with its two counters, and the
-- calls of any number of processes, one turn of a loop at a time. A byte
-- that the reader takes is either counted by its call or lost.
import SysNet.Lib.Runs
import Mathlib.Logic.Function.Basic

open runs

namespace xv6.pipe

/-! ## The pipe and the calls -/

def PIPESIZE : Nat := 512

/-- The fields of `struct pipe`. The counters are of 32 bits and wrap. -/
structure Pipe where
  data : Nat → UInt8
  nread : UInt32
  nwrite : UInt32
  readopen : Bool
  writeopen : Bool

/-- Where a process is in its call. -/
inductive Frame
  | user
  /-- at the head of the loop of `pipewrite` -/
  | write (n : Int) (i : Nat)
  | writeSleep (n : Int) (i : Nat)
  /-- at the head of the `while` loop of `piperead` -/
  | readWait (n : Int)
  | readSleep (n : Int)
  /-- at the head of the `for` loop of `piperead`, with the bytes copied so far -/
  | copy (n : Int) (i : Nat) (got : List UInt8)
deriving DecidableEq, Repr

/-- The frames that have `pi->lock`. -/
def Frame.locked : Frame → Bool
  | .write _ _ | .readWait _ | .copy _ _ _ => true
  | _ => false

/-- The bytes that the call has copied to its user. -/
def Frame.got : Frame → List UInt8
  | .copy _ _ got => got
  | _ => []

structure State where
  pi : Pipe
  lock : Option Nat
  frame : Nat → Frame
  /-- the bytes that `pipewrite` has stored, and those that `piperead` has removed -/
  stored : List UInt8
  removed : List UInt8
  /-- what the calls of `piperead` have returned, with the bytes they copied -/
  returns : List (Int × List UInt8)

/-- What a turn of a loop finds: whether the process was killed, and what `copyin` and
`copyout` do with the address of the next byte. -/
structure Env where
  killed : Bool
  copyin : Option UInt8
  copyout : Bool
deriving DecidableEq, Repr

/-- The pipe of `pipealloc`. Its page holds any bytes. -/
def State.init (data : Nat → UInt8) : State :=
  { pi := { data, nread := 0, nwrite := 0, readopen := true, writeopen := true }
    lock := none, frame := fun _ => .user, stored := [], removed := [], returns := [] }

/-- The process lets the lock go. -/
def State.leave (s : State) (p : Nat) (f : Frame) : State :=
  { s with lock := none, frame := Function.update s.frame p f }

def State.enter (s : State) (p : Nat) (f : Frame) : State :=
  { s with lock := some p, frame := Function.update s.frame p f }

/-- A turn of the loop of `pipewrite`. -/
def State.pipewrite (s : State) (p : Nat) (e : Env) (n : Int) (i : Nat) : State :=
  if i < n then
    if s.pi.readopen = false ∨ e.killed then s.leave p .user
    else if s.pi.nwrite = s.pi.nread + .ofNat PIPESIZE then s.leave p (.writeSleep n i)
    else
      match e.copyin with
      | none => s.leave p .user
      | some ch =>
        { s.enter p (.write n (i + 1)) with
          pi := { s.pi with
            data := Function.update s.pi.data (s.pi.nwrite.toNat % PIPESIZE) ch
            nwrite := s.pi.nwrite + 1 }
          stored := s.stored ++ [ch] }
  else s.leave p .user

/-- The call of `piperead` returns. -/
def State.return (s : State) (p : Nat) (r : Int) (got : List UInt8) : State :=
  { s.leave p .user with returns := s.returns ++ [(r, got)] }

/-- A turn of the `while` loop of `piperead`. -/
def State.pipewait (s : State) (p : Nat) (e : Env) (n : Int) : State :=
  if s.pi.nread = s.pi.nwrite ∧ s.pi.writeopen then
    if e.killed then s.return p (-1) [] else s.leave p (.readSleep n)
  else s.enter p (.copy n 0 [])

/-- The byte at `nread`. -/
def State.head (s : State) : UInt8 := s.pi.data (s.pi.nread.toNat % PIPESIZE)

/-- `pi->nread++`: the byte is out of the ring. -/
def State.taken (s : State) : State :=
  { s with pi := { s.pi with nread := s.pi.nread + 1 }, removed := s.removed ++ [s.head] }

/-- A turn of the `for` loop of `piperead`. The counter goes up before the copy. -/
def State.piperead (s : State) (p : Nat) (e : Env) (n : Int) (i : Nat) (got : List UInt8) : State :=
  if i < n then
    if s.pi.nread = s.pi.nwrite then s.return p i got
    else if e.copyout then s.taken.enter p (.copy n (i + 1) (got ++ [s.head]))
    else s.taken.return p i got
  else s.return p i got

/-- `pipeclose` of one end. -/
def State.pipeclose (s : State) (writable : Bool) : State :=
  if writable then { s with pi := { s.pi with writeopen := false } }
  else { s with pi := { s.pi with readopen := false } }

inductive Act
  | pipewrite (p : Nat) (n : Int)
  | piperead (p : Nat) (n : Int)
  /-- a process that sleeps takes the lock again -/
  | wake (p : Nat)
  /-- the process that has the lock makes a turn of its loop -/
  | turn (p : Nat) (e : Env)
  | pipeclose (writable : Bool)
deriving DecidableEq, Repr

def State.step (s : State) : Act → Option State
  | .pipewrite p n =>
    if s.lock = none ∧ s.frame p = .user then some (s.enter p (.write n 0)) else none
  | .piperead p n =>
    if s.lock = none ∧ s.frame p = .user then some (s.enter p (.readWait n)) else none
  | .wake p =>
    if s.lock = none then
      match s.frame p with
      | .writeSleep n i => some (s.enter p (.write n i))
      | .readSleep n => some (s.enter p (.readWait n))
      | _ => none
    else none
  | .turn p e =>
    match s.frame p with
    | .write n i => some (s.pipewrite p e n i)
    | .readWait n => some (s.pipewait p e n)
    | .copy n i got => some (s.piperead p e n i got)
    | _ => none
  | .pipeclose writable => if s.lock = none then some (s.pipeclose writable) else none

/-! ## What the readers are told -/

/-- The bytes that the return values of the calls count. -/
def State.counted (s : State) : List UInt8 := s.returns.flatMap fun r => r.2.take r.1.toNat

/-- The bytes of the call that is in its loop. -/
def State.inFlight (s : State) : List UInt8 :=
  match s.lock with
  | none => []
  | some p => (s.frame p).got

/-- The bytes that are counted, with those of the call under way, are those that were
removed. They are the first ones that were stored, and the pipe holds the rest. -/
structure Delivers (s : State) : Prop where
  counted : s.counted ++ s.inFlight = s.removed
  ordered : s.removed <+: s.stored
  pending : s.stored.length ≤ s.removed.length + PIPESIZE

/-- The turn removes a byte and cannot copy it to the user. -/
def losesByte (s : State) : Act → Prop
  | .turn p e =>
    match s.frame p with
    | .copy n i _ => i < n ∧ s.pi.nread ≠ s.pi.nwrite ∧ e.copyout = false
    | _ => False
  | _ => False

instance (s : State) (a : Act) : Decidable (losesByte s a) := by
  unfold losesByte
  split
  · split <;> infer_instance
  · infer_instance

/-! ## The ring -/

/-- The ring holds the bytes that are stored and not removed, from `nread` on. -/
def Ring (s : State) : Prop :=
  ∃ pending, s.stored = s.removed ++ pending ∧ pending.length ≤ PIPESIZE ∧
    s.pi.nwrite = s.pi.nread + .ofNat pending.length ∧
    ∀ k ch, pending[k]? = some ch → s.pi.data ((s.pi.nread.toNat + k) % PIPESIZE) = ch

/-- The size of the ring divides the range of the counters. -/
theorem index_add (a : UInt32) (k : Nat) :
    (a + .ofNat k).toNat % PIPESIZE = (a.toNat + k) % PIPESIZE := by
  simp only [UInt32.toNat_add, UInt32.toNat_ofNat', PIPESIZE]
  omega

theorem Ring.of_eq {s s' : State} (h : Ring s) (hdata : s'.pi.data = s.pi.data)
    (hread : s'.pi.nread = s.pi.nread) (hwrite : s'.pi.nwrite = s.pi.nwrite)
    (hstored : s'.stored = s.stored) (hremoved : s'.removed = s.removed) : Ring s' := by
  unfold Ring
  rw [hdata, hread, hwrite, hstored, hremoved]
  exact h

variable {s s' : State}

/-- A byte goes in where the ring is not full. -/
theorem Ring.store {ch : UInt8} (h : Ring s)
    (hfull : s.pi.nwrite ≠ s.pi.nread + .ofNat PIPESIZE)
    (hdata : s'.pi.data = Function.update s.pi.data (s.pi.nwrite.toNat % PIPESIZE) ch)
    (hread : s'.pi.nread = s.pi.nread) (hwrite : s'.pi.nwrite = s.pi.nwrite + 1)
    (hstored : s'.stored = s.stored ++ [ch]) (hremoved : s'.removed = s.removed) : Ring s' := by
  obtain ⟨pending, hs, hlen, hnw, hk⟩ := h
  have hlt : pending.length < PIPESIZE := by
    refine Nat.lt_of_le_of_ne hlen fun heq => hfull ?_
    rw [hnw, heq]
  refine ⟨pending ++ [ch], ?_, ?_, ?_, ?_⟩
  · rw [hstored, hremoved, hs, List.append_assoc]
  · rw [List.length_append, List.length_singleton]
    exact hlt
  · rw [hwrite, hread, hnw, UInt32.add_assoc]
    congr 1
    rw [← UInt32.toNat_inj]
    simp
  · intro k c hc
    rw [hdata, hread, hnw, index_add]
    have hlek : k ≤ pending.length := by
      have := (List.getElem?_eq_some_iff.mp hc).1
      simp at this
      omega
    rcases Nat.lt_or_eq_of_le hlek with hklt | rfl
    · rw [List.getElem?_append_left hklt] at hc
      rw [Function.update_of_ne, hk k c hc]
      -- two places of the ring that are less than its size apart
      unfold PIPESIZE at *
      omega
    · rw [List.getElem?_append_right (Nat.le_refl _)] at hc
      simp at hc
      rw [hc, Function.update_self]

/-- The oldest byte goes out. -/
theorem Ring.taken (h : Ring s) (hne : s.pi.nread ≠ s.pi.nwrite) : Ring s.taken := by
  obtain ⟨pending, hs, hlen, hnw, hk⟩ := h
  cases pending with
  | nil =>
    refine absurd ?_ hne
    rw [hnw]
    simp
  | cons c rest =>
    have hc : s.head = c := hk 0 c rfl
    refine ⟨rest, ?_, ?_, ?_, ?_⟩
    · change s.stored = (s.removed ++ [s.head]) ++ rest
      rw [hs, hc, List.append_assoc, List.singleton_append]
    · rw [List.length_cons] at hlen
      omega
    · change s.pi.nwrite = s.pi.nread + 1 + _
      rw [hnw, UInt32.add_assoc]
      congr 1
      rw [← UInt32.toNat_inj]
      simp [Nat.add_comm]
    · intro k b hb
      have hone : (s.pi.nread + 1).toNat % PIPESIZE = (s.pi.nread.toNat + 1) % PIPESIZE :=
        index_add _ 1
      change s.pi.data (((s.pi.nread + 1).toNat + k) % PIPESIZE) = b
      rw [Nat.add_mod, hone, ← Nat.add_mod, Nat.add_assoc, Nat.add_comm 1 k]
      exact hk (k + 1) b hb

/-! ## The calls -/

/-- Only the process that has the lock is in a loop, and a reader has copied as many bytes
as it has counted. No byte is counted that was not removed. -/
structure Sound (s : State) : Prop where
  ring : Ring s
  owner : ∀ p, (s.frame p).locked = true → s.lock = some p
  copied : ∀ p n i got, s.frame p = .copy n i got → i = got.length
  counted : (s.counted ++ s.inFlight).length ≤ s.removed.length

theorem Sound.init (data : Nat → UInt8) : Sound (State.init data) where
  ring := ⟨[], rfl, Nat.zero_le _, rfl, fun k ch h => by simp at h⟩
  owner p h := by simp [State.init, Frame.locked] at h
  copied p n i got h := by simp [State.init] at h
  counted := Nat.zero_le _

/-- The process that has the lock is the one in its loop. -/
theorem inFlight_of_locked {p : Nat} (h : s.lock = some p) : s.inFlight = (s.frame p).got := by
  unfold State.inFlight
  rw [h]

theorem inFlight_of_free (h : s.lock = none) : s.inFlight = [] := by
  unfold State.inFlight
  rw [h]

/-- Another process is not in a loop, whoever has the lock. -/
theorem Sound.not_locked {p q : Nat} (h : Sound s) (hlock : s.lock = none ∨ s.lock = some p)
    (hne : q ≠ p) : (s.frame q).locked = false := by
  by_contra hq
  have hown := h.owner q (by simpa using hq)
  rcases hlock with hfree | hp
  · rw [hfree] at hown
    cases hown
  · rw [hp] at hown
    exact hne (Option.some.inj hown).symm

/-- What a change of the frame of one process has to keep, with the lock taken or let go. -/
theorem Sound.moved {p : Nat} {f : Frame} (h : Sound s)
    (hlock : s.lock = none ∨ s.lock = some p) (hring : Ring s')
    (hframe : s'.frame = Function.update s.frame p f)
    (hlocked : s'.lock = if f.locked then some p else none)
    (hcopied : ∀ n i got, f = .copy n i got → i = got.length)
    (hcounted : (s'.counted ++ s'.inFlight).length ≤ s'.removed.length) : Sound s' where
  ring := hring
  owner q hq := by
    rw [hframe] at hq
    by_cases hqp : q = p
    · subst hqp
      rw [Function.update_self] at hq
      rw [hlocked, if_pos hq]
    · rw [Function.update_of_ne hqp, h.not_locked hlock hqp] at hq
      cases hq
  copied q n i got hq := by
    rw [hframe] at hq
    by_cases hqp : q = p
    · subst hqp
      rw [Function.update_self] at hq
      exact hcopied n i got hq
    · rw [Function.update_of_ne hqp] at hq
      exact h.copied q n i got hq
  counted := hcounted

/-- A process goes to another place of the code, and no byte with it. -/
theorem Sound.goes {p : Nat} {f : Frame} (h : Sound s) (hlock : s.lock = none ∨ s.lock = some p)
    (hgot : (s.frame p).got = []) (hring : Ring s')
    (hframe : s'.frame = Function.update s.frame p f)
    (hlocked : s'.lock = if f.locked then some p else none) (hnone : f.got = [])
    (hcopied : ∀ n i got, f = .copy n i got → i = got.length)
    (hreturns : s'.counted = s.counted) (hremoved : s'.removed = s.removed) :
    Sound s' ∧ (s'.counted ++ s'.inFlight = s'.removed ↔ s.counted ++ s.inFlight = s.removed) := by
  have hbefore : s.inFlight = [] := by
    rcases hlock with hfree | hp
    · exact inFlight_of_free hfree
    · rw [inFlight_of_locked hp, hgot]
  have hafter : s'.inFlight = [] := by
    by_cases hf : f.locked
    · rw [inFlight_of_locked (p := p) (by rw [hlocked, if_pos hf]), hframe, Function.update_self,
        hnone]
    · exact inFlight_of_free (by rw [hlocked, if_neg hf])
  rw [hreturns, hremoved, hafter, hbefore]
  refine ⟨h.moved hlock hring hframe hlocked hcopied ?_, Iff.rfl⟩
  have hle := h.counted
  rw [hbefore] at hle
  rw [hreturns, hremoved, hafter]
  exact hle

theorem counted_return {p : Nat} {got : List UInt8} {i : Nat} (hi : i = got.length) :
    (s.return p i got).counted = s.counted ++ got := by
  simp [State.return, State.leave, State.counted, hi]

theorem counted_killed {p : Nat} : (s.return p (-1) []).counted = s.counted := by
  simp [State.return, State.leave, State.counted]

/-! ## One step -/

/-- The bytes of the calls are accounted for after the step as they were before. -/
def Accounted (s s' : State) : Prop :=
  s'.counted ++ s'.inFlight = s'.removed ↔ s.counted ++ s.inFlight = s.removed

/-- A step that loses no byte. -/
theorem keeps_bytes {a : Act} (h : Sound s' ∧ Accounted s s') (hno : ¬ losesByte s a) :
    Sound s' ∧ (s'.counted ++ s'.inFlight = s'.removed ↔
      s.counted ++ s.inFlight = s.removed ∧ ¬ losesByte s a) :=
  ⟨h.1, h.2.trans (and_iff_left hno).symm⟩

theorem Sound.pipewrite {p : Nat} {e : Env} {n : Int} {i : Nat} (h : Sound s)
    (hf : s.frame p = .write n i) :
    Sound (s.pipewrite p e n i) ∧ Accounted s (s.pipewrite p e n i) := by
  have hlock : s.lock = none ∨ s.lock = some p := Or.inr (h.owner p (by rw [hf]; rfl))
  have hgot : (s.frame p).got = [] := by rw [hf]; rfl
  have hsame : Ring (s.leave p .user) := h.ring.of_eq rfl rfl rfl rfl rfl
  unfold State.pipewrite
  split
  · split
    · exact h.goes hlock hgot hsame rfl rfl rfl (by simp) rfl rfl
    · split
      · exact h.goes hlock hgot (h.ring.of_eq rfl rfl rfl rfl rfl) rfl rfl rfl (by simp) rfl rfl
      · rename_i hfull
        split
        · exact h.goes hlock hgot hsame rfl rfl rfl (by simp) rfl rfl
        · refine h.goes (f := .write n (i + 1)) hlock hgot ?_ rfl rfl rfl (by simp) rfl rfl
          exact h.ring.store hfull rfl rfl rfl rfl rfl
  · exact h.goes hlock hgot hsame rfl rfl rfl (by simp) rfl rfl

theorem Sound.pipewait {p : Nat} {e : Env} {n : Int} (h : Sound s)
    (hf : s.frame p = .readWait n) :
    Sound (s.pipewait p e n) ∧ Accounted s (s.pipewait p e n) := by
  have hlock : s.lock = none ∨ s.lock = some p := Or.inr (h.owner p (by rw [hf]; rfl))
  have hgot : (s.frame p).got = [] := by rw [hf]; rfl
  unfold State.pipewait
  split
  · split
    · exact h.goes (f := .user) hlock hgot (h.ring.of_eq rfl rfl rfl rfl rfl) rfl rfl rfl (by simp)
        counted_killed rfl
    · exact h.goes hlock hgot (h.ring.of_eq rfl rfl rfl rfl rfl) rfl rfl rfl (by simp) rfl rfl
  · refine h.goes (f := .copy n 0 []) hlock hgot (h.ring.of_eq rfl rfl rfl rfl rfl) rfl rfl rfl ?_
      rfl rfl
    intro n' i' got' heq
    cases heq
    rfl

/-- The call returns, and counts the bytes that it copied. -/
theorem Sound.return {p : Nat} {n : Int} {i : Nat} {got : List UInt8} (h : Sound s)
    (hf : s.frame p = .copy n i got) :
    Sound (s.return p i got) ∧ Accounted s (s.return p i got) := by
  have hown : s.lock = some p := h.owner p (by rw [hf]; rfl)
  have hcount : (s.return p i got).counted = s.counted ++ got := counted_return (h.copied p n i got hf)
  have hbefore : s.inFlight = got := by rw [inFlight_of_locked hown, hf]; rfl
  have hafter : (s.return p i got).inFlight = [] := inFlight_of_free rfl
  refine ⟨h.moved (f := .user) (Or.inr hown) (h.ring.of_eq rfl rfl rfl rfl rfl) rfl rfl (by simp) ?_,
    ?_⟩
  · have hle := h.counted
    rw [hbefore] at hle
    rw [hcount, hafter, List.append_nil]
    exact hle
  · unfold Accounted
    rw [hcount, hafter, hbefore, List.append_nil]
    rfl

/-- The byte is copied, and the call will count it. -/
theorem Sound.copies {p : Nat} {n : Int} {i : Nat} {got : List UInt8} (h : Sound s)
    (hf : s.frame p = .copy n i got) (hne : s.pi.nread ≠ s.pi.nwrite) :
    Sound (s.taken.enter p (.copy n (i + 1) (got ++ [s.head]))) ∧
      Accounted s (s.taken.enter p (.copy n (i + 1) (got ++ [s.head]))) := by
  have hown : s.lock = some p := h.owner p (by rw [hf]; rfl)
  have hbefore : s.inFlight = got := by rw [inFlight_of_locked hown, hf]; rfl
  have hafter : (s.taken.enter p (.copy n (i + 1) (got ++ [s.head]))).inFlight =
      got ++ [s.head] := by
    rw [inFlight_of_locked (p := p) rfl]
    simp [State.enter, Frame.got]
  refine ⟨h.moved (Or.inr hown) ((h.ring.taken hne).of_eq rfl rfl rfl rfl rfl) rfl rfl ?_ ?_, ?_⟩
  · intro n' i' got' heq
    cases heq
    rw [h.copied p n i got hf, List.length_append, List.length_singleton]
  · have hle := h.counted
    rw [hbefore] at hle
    rw [hafter]
    change (s.counted ++ (got ++ [s.head])).length ≤ (s.removed ++ [s.head]).length
    simp only [List.length_append, List.length_singleton] at hle ⊢
    omega
  · unfold Accounted
    rw [hafter, hbefore]
    change s.counted ++ (got ++ [s.head]) = s.removed ++ [s.head] ↔ _
    rw [← List.append_assoc, List.append_left_inj]

/-- The copy fails. The byte is neither in the ring nor counted. -/
theorem Sound.loses {p : Nat} {n : Int} {i : Nat} {got : List UInt8} (h : Sound s)
    (hf : s.frame p = .copy n i got) (hne : s.pi.nread ≠ s.pi.nwrite) :
    Sound (s.taken.return p i got) ∧
      (s.taken.return p i got).counted ++ (s.taken.return p i got).inFlight ≠
        (s.taken.return p i got).removed := by
  have hown : s.lock = some p := h.owner p (by rw [hf]; rfl)
  have hbefore : s.inFlight = got := by rw [inFlight_of_locked hown, hf]; rfl
  have hcount : (s.taken.return p i got).counted = s.counted ++ got :=
    counted_return (h.copied p n i got hf)
  have hafter : (s.taken.return p i got).inFlight = [] := inFlight_of_free rfl
  have hless : (s.counted ++ got).length < (s.removed ++ [s.head]).length := by
    have hle := h.counted
    rw [hbefore] at hle
    rw [@List.length_append _ _ [s.head], List.length_singleton]
    omega
  constructor
  · refine h.moved (f := .user) (Or.inr hown) ((h.ring.taken hne).of_eq rfl rfl rfl rfl rfl) rfl rfl
      (by simp) ?_
    rw [hcount, hafter, List.append_nil]
    exact Nat.le_of_lt hless
  · intro heq
    rw [hcount, hafter, List.append_nil] at heq
    exact absurd (congrArg List.length heq) (Nat.ne_of_lt hless)

/-- A turn of the copying loop loses its byte exactly when the copy fails. -/
theorem Sound.piperead {p : Nat} {e : Env} {n : Int} {i : Nat} {got : List UInt8} (h : Sound s)
    (hf : s.frame p = .copy n i got) (hs : s' = s.piperead p e n i got) :
    Sound s' ∧ (s'.counted ++ s'.inFlight = s'.removed ↔
      s.counted ++ s.inFlight = s.removed ∧ ¬ losesByte s (.turn p e)) := by
  have hloses : losesByte s (.turn p e) ↔
      (i : Int) < n ∧ s.pi.nread ≠ s.pi.nwrite ∧ e.copyout = false := by
    simp only [losesByte, hf]
  unfold State.piperead at hs
  split at hs
  · rename_i hlt
    split at hs
    · rename_i heq
      subst hs
      exact keeps_bytes (h.return hf) fun hl => (hloses.mp hl).2.1 heq
    · rename_i hne
      split at hs
      · rename_i hcopy
        subst hs
        refine keeps_bytes (h.copies hf hne) fun hl => ?_
        rw [(hloses.mp hl).2.2] at hcopy
        cases hcopy
      · rename_i hcopy
        subst hs
        obtain ⟨hsound, hlost⟩ := h.loses hf hne
        exact ⟨hsound, iff_of_false hlost fun hc =>
          hc.2 (hloses.mpr ⟨hlt, hne, by simpa using hcopy⟩)⟩
  · rename_i hge
    subst hs
    exact keeps_bytes (h.return hf) fun hl => hge (hloses.mp hl).1

theorem Sound.step {a : Act} (h : Sound s) (hs : s.step a = some s') :
    Sound s' ∧ (s'.counted ++ s'.inFlight = s'.removed ↔
      s.counted ++ s.inFlight = s.removed ∧ ¬ losesByte s a) := by
  cases a with
  | pipewrite p n =>
    simp only [State.step] at hs
    split at hs
    · rename_i hfree
      cases hs
      exact keeps_bytes (h.goes (f := .write n 0) (Or.inl hfree.1) (by rw [hfree.2]; rfl)
        (h.ring.of_eq rfl rfl rfl rfl rfl) rfl rfl rfl (by simp) rfl rfl) id
    · cases hs
  | piperead p n =>
    simp only [State.step] at hs
    split at hs
    · rename_i hfree
      cases hs
      exact keeps_bytes (h.goes (f := .readWait n) (Or.inl hfree.1) (by rw [hfree.2]; rfl)
        (h.ring.of_eq rfl rfl rfl rfl rfl) rfl rfl rfl (by simp) rfl rfl) id
    · cases hs
  | wake p =>
    simp only [State.step] at hs
    split at hs
    · rename_i hfree
      split at hs
      · rename_i n i hf
        cases hs
        exact keeps_bytes (h.goes (f := .write n i) (Or.inl hfree) (by rw [hf]; rfl)
          (h.ring.of_eq rfl rfl rfl rfl rfl) rfl rfl rfl (by simp) rfl rfl) id
      · rename_i n hf
        cases hs
        exact keeps_bytes (h.goes (f := .readWait n) (Or.inl hfree) (by rw [hf]; rfl)
          (h.ring.of_eq rfl rfl rfl rfl rfl) rfl rfl rfl (by simp) rfl rfl) id
      · cases hs
    · cases hs
  | turn p e =>
    simp only [State.step] at hs
    split at hs
    · rename_i n i hf
      cases hs
      exact keeps_bytes (h.pipewrite hf) (by simp [losesByte, hf])
    · rename_i n hf
      cases hs
      exact keeps_bytes (h.pipewait hf) (by simp [losesByte, hf])
    · rename_i n i got hf
      cases hs
      exact h.piperead hf rfl
    · cases hs
  | pipeclose writable =>
    simp only [State.step] at hs
    split at hs
    · cases hs
      cases writable
      · exact keeps_bytes ⟨⟨h.ring.of_eq rfl rfl rfl rfl rfl, h.owner, h.copied, h.counted⟩, Iff.rfl⟩ id
      · exact keeps_bytes ⟨⟨h.ring.of_eq rfl rfl rfl rfl rfl, h.owner, h.copied, h.counted⟩, Iff.rfl⟩ id
    · cases hs

/-! ## The result -/

/-- The readers get every byte once and in order in a run exactly when no call of `piperead`
in it fails to copy a byte that it has taken out of the ring. -/
theorem a_pipe_delivers_iff {data : Nat → UInt8} {as : List Act}
    (hrun : Run State.step anyStep (State.init data) as s) :
    Delivers s ↔ Run State.step (fun s a => ¬ losesByte s a) (State.init data) as s := by
  have hsound : ∀ {as : List Act} {s : State}, Run State.step anyStep (State.init data) as s →
      Sound s := fun hrun => hrun.invariant (Sound.init data) fun _ _ _ h _ hs => (h.step hs).1
  have hcounted : s.counted ++ s.inFlight = s.removed ↔
      Run State.step (fun s a => ¬ losesByte s a) (State.init data) as s := by
    induction hrun with
    | nil => exact iff_of_true rfl .nil
    | snoc hrun hok hs ih =>
      rw [((hsound hrun).step hs).2]
      constructor
      · rintro ⟨hold, hno⟩
        exact .snoc (ih.mp hold) hno hs
      · intro hgood
        obtain ⟨u, hr, hu, -⟩ := hgood.last
        have heq := Run.unique (hr.mono fun _ _ _ => trivial) hrun
        subst heq
        exact ⟨ih.mpr hr, hu⟩
  obtain ⟨pending, hpending, hlen, -, -⟩ := (hsound hrun).ring
  refine ⟨fun h => hcounted.mp h.counted, fun h => ⟨hcounted.mpr h, ⟨pending, hpending.symm⟩, ?_⟩⟩
  rw [hpending, List.length_append]
  omega

/-- A byte is written and read. -/
theorem a_byte_is_delivered : ∃ s : State,
    Run State.step anyStep (State.init fun _ => 0)
      [.pipewrite 1 1, .turn 1 ⟨false, some 7, true⟩, .turn 1 ⟨false, none, true⟩, .piperead 2 5,
        .turn 2 ⟨false, none, true⟩, .turn 2 ⟨false, none, true⟩, .turn 2 ⟨false, none, true⟩] s ∧
    Delivers s ∧ s.returns = [(1, [7])] := by
  have hcomputed : (exec State.step (fun s a => ¬ losesByte s a) (State.init fun _ => 0)
      [.pipewrite 1 1, .turn 1 ⟨false, some 7, true⟩, .turn 1 ⟨false, none, true⟩, .piperead 2 5,
        .turn 2 ⟨false, none, true⟩, .turn 2 ⟨false, none, true⟩,
        .turn 2 ⟨false, none, true⟩]).any (fun s => s.returns = [(1, [7])]) = true := by
    decide +kernel
  obtain ⟨s, hs, hend⟩ := (Option.any_eq_true _ _).mp hcomputed
  have hgood := run_of_exec hs
  have hrun : Run _ anyStep _ _ s := hgood.mono fun _ _ _ => trivial
  exact ⟨s, hrun, (a_pipe_delivers_iff hrun).mpr hgood, of_decide_eq_true hend⟩

/-- The address of the reader is bad: its call returns 0 and the byte is gone. -/
theorem a_byte_is_lost : ¬ ∀ (data : Nat → UInt8) (as : List Act) (s : State),
    Run State.step anyStep (State.init data) as s → Delivers s := by
  intro h
  have hcomputed : (exec State.step anyStep (State.init fun _ => 0)
      [.pipewrite 1 1, .turn 1 ⟨false, some 7, true⟩, .turn 1 ⟨false, none, true⟩, .piperead 2 1,
        .turn 2 ⟨false, none, false⟩, .turn 2 ⟨false, none, false⟩]).any
      (fun s => s.returns = [(0, [])] ∧ s.removed = [7] ∧ s.lock = none) = true := by
    decide +kernel
  obtain ⟨s, hs, hend⟩ := (Option.any_eq_true _ _).mp hcomputed
  obtain ⟨hreturns, hremoved, hlock⟩ := of_decide_eq_true hend
  have hcounted := (h _ _ s (run_of_exec hs)).counted
  rw [inFlight_of_free hlock, hremoved, State.counted, hreturns] at hcounted
  cases hcounted

end xv6.pipe
