-- The two mutexes of the scheduler. Every statement on a mutex or a queue
-- is one step of its thread. The calls without I/O keep the discipline in
-- every interleaving; one request that `Iexec` serves breaks it.
import SysNet.Lib.Locks
import SysNet.Lib.Runs

namespace sut

open runs locks

/-! ## The code of the three threads -/

inductive Mutex
  | c
  | i
deriving DecidableEq, Repr

instance : Fintype Mutex := ⟨{.c, .i}, fun m => by cases m <;> simp⟩

inductive Queue
  | ready
  | iowait
  | iotodo
deriving DecidableEq, Repr

/-- The mutex that belongs to a queue. -/
def Queue.mutex : Queue → Mutex
  | .ready => .c
  | .iowait => .i
  | .iotodo => .i

inductive Thread
  | main
  | cexec
  | iexec
deriving DecidableEq, Repr

/-- The statements on mutexes and queues. -/
inductive Stmt
  | lock (m : Mutex)
  | unlock (m : Mutex)
  | insertTail (q : Queue)
  | popHead (q : Queue)
  /-- `queue_peek_front`, of the queue that the next `if` asks for -/
  | peek (q : Queue)
  /-- `queue_peek_front` of `iowait` -/
  | peekTask
  /-- `Cexec`: `if(t1)` -/
  | ifTask
  /-- `Iexec`: `if(todo)` -/
  | ifTodo
  /-- the task that was switched to runs its own code -/
  | task
  /-- the end of a call or of a turn of a loop -/
  | done
deriving DecidableEq, Repr

/-- The calls of a task. -/
inductive Api
  | create
  | yield
  | exit
  /-- the function of the task returns -/
  | ret
  | open
  | write
  | close
deriving DecidableEq, Repr

/-- The statements of a call. -/
def Api.code : Api → List Stmt
  | .create => [.lock .c, .insertTail .ready, .unlock .c, .done]
  | .yield => [.lock .c, .insertTail .ready, .unlock .c, .done]
  | .exit => [.done]
  | .ret => []
  | .open => [.lock .i, .insertTail .iotodo, .insertTail .iowait, .unlock .i, .done]
  | .write => [.unlock .i, .insertTail .iotodo, .insertTail .iowait, .unlock .i, .done]
  | .close => [.unlock .c, .insertTail .iotodo, .insertTail .iowait, .unlock .c, .done]

/-- The task goes on behind `sut_create`. Every other call switches to `Cexec`. -/
def Api.codeAndTask : Api → List Stmt
  | .create => Api.create.code ++ [.task]
  | f => f.code

/-- A turn of the loop of `Cexec`. -/
def cexecLoop : List Stmt := [.lock .c, .peek .ready, .unlock .c, .ifTask, .done]

def cexecBody : List Stmt := [.lock .c, .popHead .ready, .unlock .c, .task]

/-- A turn of the loop of `Iexec`. -/
def iexecLoop : List Stmt := [.lock .i, .peek .iotodo, .peekTask, .unlock .i, .ifTodo, .done]

/-- The request is taken, performed and completed. The last statement is a lock, too. -/
def iexecBody : List Stmt :=
  [.lock .i, .popHead .iotodo, .unlock .i, .lock .i, .popHead .iowait, .insertTail .ready, .lock .i]

/-! ## The steps -/

structure Locks where
  owner : Mutex → Option Thread
  code : Thread → List Stmt
  /-- what the last `peek` of a thread saw -/
  seen : Thread → Bool
  /-- how many entries a queue has -/
  length : Queue → Nat

def Locks.init : Locks :=
  { owner := fun _ => none, code := fun _ => [], seen := fun _ => false, length := fun _ => 0 }

inductive Move
  /-- the next statement of a thread -/
  | run (t : Thread)
  /-- the main thread calls `sut_create` -/
  | create
  /-- a loop begins its next turn, whatever its test says -/
  | turn (t : Thread)
  /-- the running task makes a call -/
  | call (f : Api)
deriving DecidableEq, Repr

/-- The next statement of a thread. A lock waits until the mutex is free, for ever when
the thread holds it. An unlock frees the mutex, whoever holds it. -/
def Locks.run (s : Locks) (t : Thread) : Option Locks :=
  match s.code t with
  | .lock m :: rest =>
    if s.owner m = none then
      some { s with
        owner := Function.update s.owner m (some t), code := Function.update s.code t rest }
    else none
  | .unlock m :: rest =>
    some { s with owner := Function.update s.owner m none, code := Function.update s.code t rest }
  | .insertTail q :: rest =>
    some { s with
      length := Function.update s.length q (s.length q + 1), code := Function.update s.code t rest }
  | .popHead q :: rest =>
    some { s with
      length := Function.update s.length q (s.length q - 1), code := Function.update s.code t rest }
  | .peek q :: rest =>
    some { s with
      seen := Function.update s.seen t (s.length q ≠ 0), code := Function.update s.code t rest }
  | .peekTask :: rest => some { s with code := Function.update s.code t rest }
  | .ifTask :: rest =>
    some { s with
      code := Function.update s.code t ((if s.seen t then cexecBody else []) ++ rest) }
  | .ifTodo :: rest =>
    some { s with
      code := Function.update s.code t ((if s.seen t then iexecBody else []) ++ rest) }
  | .task :: _ => none
  | .done :: rest => some { s with code := Function.update s.code t rest }
  | [] => none

def Locks.step (s : Locks) : Move → Option Locks
  | .run t => s.run t
  | .create =>
    if s.code .main = [] then
      some { s with code := Function.update s.code .main Api.create.code }
    else none
  | .turn .cexec =>
    if s.code .cexec = [] then some { s with code := Function.update s.code .cexec cexecLoop }
    else none
  | .turn .iexec =>
    if s.code .iexec = [] then some { s with code := Function.update s.code .iexec iexecLoop }
    else none
  | .turn .main => none
  | .call f =>
    match s.code .cexec with
    | .task :: rest =>
      some { s with code := Function.update s.code .cexec (f.codeAndTask ++ rest) }
    | _ => none

/-- What a statement asks of the mutexes. -/
def Stmt.effect : Stmt → Effect Mutex
  | .lock m => .acquire m
  | .unlock m => .release m
  | .insertTail q => .needs q.mutex
  | .popHead q => .needs q.mutex
  | .peek _ => .plain
  | .peekTask => .plain
  | .ifTask => .clear
  | .ifTodo => .clear
  | .task => .clear
  | .done => .clear

/-- The next statement of every thread keeps the discipline: it locks nothing that the
thread holds, unlocks nothing that it does not hold, changes a queue under its own mutex
only, and ends a call or a turn without a mutex. -/
def Locks.Disciplined (s : Locks) : Prop :=
  ∀ t, match s.code t with
    | .lock m :: _ => s.owner m ≠ some t
    | .unlock m :: _ => s.owner m = some t
    | .insertTail q :: _ => s.owner q.mutex = some t
    | .popHead q :: _ => s.owner q.mutex = some t
    | .done :: _ => ∀ m, s.owner m ≠ some t
    | _ => True

/-- The tasks make only calls of the set. -/
def calls (allowed : Set Api) : Locks → Move → Prop
  | _, .call f => f ∈ allowed
  | _, _ => True

/-! ## Without I/O -/

/-- A statement of a run without I/O: no request is made, and only `Iexec` asks for one. -/
def Stmt.Quiet (t : Thread) : Stmt → Prop
  | .insertTail q => q ≠ .iotodo
  | .ifTodo => t = .iexec
  | .peek q => t = .iexec → q = .iotodo
  | _ => True

/-- There are no requests, and every thread can go on as its code says. -/
structure Calm (s : Locks) : Prop where
  guarded : Guarded Stmt.effect s.owner s.code
  quiet : ∀ t, ∀ st ∈ s.code t, st.Quiet t
  empty : s.length .iotodo = 0
  unseen : s.seen .iexec = false

section
variable {s s' : Locks} {t : Thread} {st : Stmt} {rest next : List Stmt}

theorem Calm.init : Calm Locks.init where
  guarded t m := rfl
  quiet t st hst := by cases hst
  empty := rfl
  unseen := rfl

theorem quiet_update {code : Thread → List Stmt} (h : ∀ t, ∀ st ∈ code t, st.Quiet t)
    (hnext : ∀ st ∈ next, st.Quiet t) (u : Thread) :
    ∀ st ∈ Function.update code t next u, st.Quiet u := by
  by_cases hu : u = t
  · subst hu
    rwa [Function.update_self]
  · rw [Function.update_of_ne hu]
    exact h u

/-- The statements behind the next one. -/
theorem Calm.quiet_rest (h : Calm s) (hc : s.code t = st :: rest) : ∀ st' ∈ rest, st'.Quiet t :=
  fun st' hst' => h.quiet t st' (hc ▸ List.mem_cons_of_mem _ hst')

theorem Calm.quiet_head (h : Calm s) (hc : s.code t = st :: rest) : st.Quiet t :=
  h.quiet t st (hc ▸ List.mem_cons_self ..)

theorem ok_nil : Ok (fun _ : Mutex => false) (([] : List Stmt).map Stmt.effect) := fun _ => rfl

theorem Calm.run (h : Calm s) (hs : s.run t = some s') : Calm s' := by
  unfold Locks.run at hs
  split at hs
  · rename_i m rest hc
    split at hs
    · cases hs
      exact ⟨h.guarded.acquire hc rfl ‹_›, quiet_update h.quiet (h.quiet_rest hc), h.empty, h.unseen⟩
    · cases hs
  · rename_i m rest hc
    cases hs
    exact ⟨h.guarded.release hc rfl, quiet_update h.quiet (h.quiet_rest hc), h.empty, h.unseen⟩
  · rename_i q rest hc
    cases hs
    refine ⟨h.guarded.move (h.guarded.head hc).2, quiet_update h.quiet (h.quiet_rest hc), ?_,
      h.unseen⟩
    exact (Function.update_of_ne (Ne.symm (h.quiet_head hc)) ..).trans h.empty
  · rename_i q rest hc
    cases hs
    refine ⟨h.guarded.move (h.guarded.head hc).2, quiet_update h.quiet (h.quiet_rest hc), ?_,
      h.unseen⟩
    by_cases hq : Queue.iotodo = q
    · simp [← hq, h.empty]
    · exact (Function.update_of_ne hq ..).trans h.empty
  · rename_i q rest hc
    cases hs
    refine ⟨h.guarded.move (h.guarded.head hc), quiet_update h.quiet (h.quiet_rest hc), h.empty, ?_⟩
    by_cases ht : Thread.iexec = t
    · have hq : q = .iotodo := h.quiet_head hc ht.symm
      simp [← ht, hq, h.empty]
    · exact (Function.update_of_ne ht ..).trans h.unseen
  · rename_i rest hc
    cases hs
    exact ⟨h.guarded.move (h.guarded.head hc), quiet_update h.quiet (h.quiet_rest hc), h.empty,
      h.unseen⟩
  · rename_i rest hc
    cases hs
    refine ⟨h.guarded.clear hc rfl ?_, quiet_update h.quiet ?_, h.empty, h.unseen⟩
    · split <;> decide
    · intro st hst
      rcases List.mem_append.mp hst with hst | hst
      · split at hst
        · simp only [cexecBody, List.mem_cons, List.not_mem_nil, or_false] at hst
          rcases hst with rfl | rfl | rfl | rfl <;> trivial
        · cases hst
      · exact h.quiet_rest hc st hst
  · rename_i rest hc
    cases hs
    -- `Iexec` has seen no request
    have ht : t = .iexec := h.quiet_head hc
    rw [ht, h.unseen, ← ht]
    exact ⟨h.guarded.clear hc rfl ok_nil,
      quiet_update h.quiet (h.quiet_rest hc), h.empty, h.unseen⟩
  · cases hs
  · rename_i rest hc
    cases hs
    exact ⟨h.guarded.clear hc rfl ok_nil,
      quiet_update h.quiet (h.quiet_rest hc), h.empty, h.unseen⟩
  · cases hs

/-- A thread without code begins a call or a turn. -/
theorem Calm.begin (h : Calm s) (hc : s.code t = [])
    (hok : Ok (fun _ : Mutex => false) (next.map Stmt.effect)) (hq : ∀ st ∈ next, st.Quiet t) :
    Calm { s with code := Function.update s.code t next } := by
  refine ⟨h.guarded.move ?_, quiet_update h.quiet hq, h.empty, h.unseen⟩
  have hnone := h.guarded t
  rw [hc] at hnone
  have heq : holds s.owner t = fun _ => false := funext hnone
  exact heq ▸ hok

/-- The calls without I/O. -/
def Api.noIo : Api → Bool
  | .open => false
  | .write => false
  | .close => false
  | _ => true

/-- The code of a call without I/O. -/
theorem Api.ok_of_noIo {f : Api} (hf : f.noIo = true) :
    Ok (fun _ : Mutex => false) (f.codeAndTask.map Stmt.effect) ∧
      ∀ st ∈ f.codeAndTask, st.Quiet .cexec := by
  cases f with
  | create => exact ⟨by decide, by simp [Api.codeAndTask, Api.code, Stmt.Quiet]⟩
  | yield => exact ⟨by decide, by simp [Api.codeAndTask, Api.code, Stmt.Quiet]⟩
  | exit => exact ⟨by decide, by simp [Api.codeAndTask, Api.code, Stmt.Quiet]⟩
  | ret => exact ⟨by decide, by simp [Api.codeAndTask, Api.code]⟩
  | «open» | write | close => cases hf

theorem Calm.step {a : Move} {allowed : Set Api} (hno : ∀ f ∈ allowed, f.noIo = true) (h : Calm s)
    (hok : calls allowed s a) (hs : s.step a = some s') : Calm s' := by
  cases a with
  | run t => exact h.run hs
  | create =>
    simp only [Locks.step] at hs
    split at hs
    · cases hs
      exact h.begin ‹_› (by decide) (by simp [Api.code, Stmt.Quiet])
    · cases hs
  | turn t =>
    cases t with
    | main => cases hs
    | cexec =>
      simp only [Locks.step] at hs
      split at hs
      · cases hs
        exact h.begin ‹_› (by decide) (by simp [cexecLoop, Stmt.Quiet])
      · cases hs
    | iexec =>
      simp only [Locks.step] at hs
      split at hs
      · cases hs
        exact h.begin ‹_› (by decide) (by simp [iexecLoop, Stmt.Quiet])
      · cases hs
  | call f =>
    simp only [Locks.step] at hs
    split at hs
    · rename_i rest hc
      cases hs
      obtain ⟨hcode, hquiet⟩ := Api.ok_of_noIo (hno f hok)
      refine ⟨h.guarded.clear hc rfl hcode, quiet_update h.quiet ?_, h.empty, h.unseen⟩
      intro st hst
      rcases List.mem_append.mp hst with hst | hst
      · exact hquiet st hst
      · exact h.quiet_rest hc st hst
    · cases hs

/-- What the check of the code says of the next statement. -/
theorem Calm.disciplined (h : Calm s) : s.Disciplined := by
  intro t
  have hnot : ∀ m, holds s.owner t m = false → s.owner m ≠ some t := fun m hm =>
    of_decide_eq_false hm
  have hyes : ∀ m, holds s.owner t m = true → s.owner m = some t := fun m hm =>
    of_decide_eq_true hm
  split
  · rename_i m rest hc
    exact hnot m (h.guarded.head hc).1
  · rename_i m rest hc
    exact hyes m (h.guarded.head hc).1
  · rename_i q rest hc
    exact hyes q.mutex (h.guarded.head hc).1
  · rename_i q rest hc
    exact hyes q.mutex (h.guarded.head hc).1
  · rename_i rest hc
    exact fun m => hnot m ((h.guarded.head hc).1 m)
  · trivial

end

/-! ## With I/O -/

/-- The tasks make only this call. -/
def onlyCall (f : Api) : Locks → Move → Prop
  | _, .call g => g = f
  | _, _ => True

instance (f : Api) (s : Locks) (a : Move) : Decidable (onlyCall f s a) :=
  match a with
  | .call _ => inferInstanceAs (Decidable (_ = _))
  | .run _ | .create | .turn _ => isTrue trivial

/-- The steps until a first task runs. -/
def untilTask : List Move :=
  .create :: List.replicate 4 (.run .main) ++ .turn .cexec :: List.replicate 7 (.run .cexec)

/-- A task makes the call, and a request is served if there is one. -/
def untilBroken : Api → List Move
  | .open => untilTask ++ .call .open :: List.replicate 4 (.run .cexec) ++
      .turn .iexec :: List.replicate 10 (.run .iexec)
  | f => untilTask ++ [.call f]

/-- The next statement of the thread is on a mutex, or needs one, that the thread does not hold. -/
def Locks.breaks (s : Locks) (t : Thread) : Bool :=
  match s.code t with
  | .unlock m :: _ => s.owner m ≠ some t
  | .insertTail q :: _ => s.owner q.mutex ≠ some t
  | _ => false

theorem not_disciplined_of_breaks {s : Locks} {t : Thread} (h : s.breaks t = true) :
    ¬ s.Disciplined := by
  intro hd
  have ht := hd t
  unfold Locks.breaks at h
  split at h <;> simp_all

/-- Every call with I/O breaks the discipline. -/
theorem io_breaks {f : Api} (hf : f.noIo = false) :
    ∃ as s, Run Locks.step (onlyCall f) .init as s ∧ ¬ s.Disciplined := by
  have hcomputed : (exec Locks.step (onlyCall f) .init (untilBroken f)).any
      (fun s => s.breaks .cexec || s.breaks .iexec) = true := by
    cases f with
    | «open» | write | close => decide +kernel
    | create | yield | exit | ret => cases hf
  obtain ⟨s, hs, hbroken⟩ := (Option.any_eq_true _ _).mp hcomputed
  refine ⟨_, s, run_of_exec hs, ?_⟩
  rcases Bool.or_eq_true_iff.mp hbroken with h | h
  · exact not_disciplined_of_breaks h
  · exact not_disciplined_of_breaks h

/-- The threads keep the discipline in every interleaving exactly when the tasks
make no call with I/O. -/
theorem the_locks_are_kept_iff (allowed : Set Api) :
    (∀ as s, Run Locks.step (calls allowed) .init as s → s.Disciplined) ↔
      .open ∉ allowed ∧ .write ∉ allowed ∧ .close ∉ allowed := by
  constructor
  · intro h
    have hno : ∀ f : Api, f.noIo = false → f ∉ allowed := by
      intro f hf hin
      obtain ⟨as, s, hrun, hbroken⟩ := io_breaks hf
      refine hbroken (h as s (hrun.mono ?_))
      intro s a hok
      cases a with
      | call g => exact (hok : g = f) ▸ hin
      | _ => trivial
    exact ⟨hno .open rfl, hno .write rfl, hno .close rfl⟩
  · rintro ⟨h1, h2, h3⟩ as s hrun
    have hno : ∀ f ∈ allowed, f.noIo = true := by
      intro f hf
      cases f with
      | «open» => exact absurd hf h1
      | write => exact absurd hf h2
      | close => exact absurd hf h3
      | create | yield | exit | ret => rfl
    exact (hrun.invariant Calm.init fun _ _ _ hc hok hs => hc.step hno hok hs).disciplined

/-- A task opens a file: `Iexec` changes `ready` without its mutex. -/
theorem an_open_breaks_the_locks :
    ¬ ∀ as s, Run Locks.step anyStep .init as s → s.Disciplined := by
  intro h
  obtain ⟨as, s, hrun, hbroken⟩ := io_breaks (show Api.open.noIo = false from rfl)
  exact hbroken (h as s (hrun.mono fun _ _ _ => trivial))

end sut
