-- How an I/O request finds its task back. Nothing ties a request of
-- `iotodo` to its task in `iowait` but the order of the two queues. Every
-- queue operation and every section under a mutex is one step here.
import Mathlib.Data.List.Nodup
import Mathlib.Data.List.Range
import SysNet.Lib.Runs

namespace sut

open runs

/-! ## The calls of the tasks and the loop of `Iexec` -/

inductive Op
  | open
  | write
  | close
deriving DecidableEq, Repr

/-- An entry of `iotodo`. No statement reads who issued it, or which one it is. -/
structure Todo where
  op : Op
  issuer : Nat
  serial : Nat
deriving DecidableEq, Repr

/-- An insertion that a call makes. -/
inductive Insertion
  | todo (op : Op)
  | wait
deriving DecidableEq, Repr

/-- The insertions of a call. `sut_open` makes them in one section, the others do not
lock the mutex. -/
def Op.sections : Op → List (List Insertion)
  | .open => [[.todo .open, .wait]]
  | .write => [[.todo .write], [.wait]]
  | .close => [[.todo .close], [.wait]]

/-- Where `Iexec` is, with the entries that it has looked at. -/
inductive Iexec
  | peek
  | popTodo (todo : Todo) (t : Option Nat)
  | perform (todo : Todo) (t : Option Nat)
  | complete (todo : Todo) (t : Option Nat)
deriving DecidableEq, Repr

/-- A request that was completed, the task that was removed from `iowait` and the
one that was put on `ready`. -/
structure Completion where
  request : Todo
  removed : Option Nat
  woken : Option Nat
deriving DecidableEq, Repr

structure Io where
  ready : List Nat
  iotodo : List Todo
  iowait : List Nat
  running : Option Nat
  /-- the sections of the call that the running task is in -/
  pending : Option (List (List Insertion))
  iexec : Iexec
  /-- how many tasks were created, and how many requests were issued -/
  tasks : Nat
  issued : Nat
  /-- the tasks that were put on `iowait` -/
  entered : List Nat
  completions : List Completion

def Io.init : Io :=
  { ready := [], iotodo := [], iowait := [], running := none, pending := none, iexec := .peek,
    tasks := 0, issued := 0, entered := [], completions := [] }

inductive Event
  | create
  /-- `Cexec` takes the head of `ready` -/
  | dispatch
  /-- the running task calls `sut_open`, `sut_write` or `sut_close` -/
  | call (op : Op)
  /-- the next section of that call, or the switch behind the last one -/
  | next
  | yield
  | exit
  /-- the next step of `Iexec` -/
  | iexec
deriving DecidableEq, Repr

def Io.insert (s : Io) (t : Nat) : Insertion → Io
  | .todo op => { s with iotodo := s.iotodo ++ [⟨op, t, s.issued⟩], issued := s.issued + 1 }
  | .wait => { s with iowait := s.iowait ++ [t], entered := s.entered ++ [t] }

/-- One step of `Iexec`. -/
def Io.iexecStep (s : Io) : Io :=
  match s.iexec with
  | .peek =>
    match s.iotodo.head? with
    | some todo => { s with iexec := .popTodo todo s.iowait.head? }
    | none => s
  | .popTodo todo t => { s with iotodo := s.iotodo.tail, iexec := .perform todo t }
  | .perform todo t => { s with iexec := .complete todo t }
  | .complete todo t =>
    { s with
      iowait := s.iowait.tail
      -- `queue_insert_tail` leaves the queue alone when the node is NULL
      ready := s.ready ++ t.toList
      iexec := .peek
      completions := s.completions ++ [⟨todo, s.iowait.head?, t⟩] }

def Io.step (s : Io) : Event → Option Io
  | .create => some { s with ready := s.ready ++ [s.tasks], tasks := s.tasks + 1 }
  | .dispatch =>
    match s.running, s.ready with
    | none, t :: ready => some { s with running := some t, ready := ready }
    | _, _ => none
  | .call op =>
    if s.running.isSome ∧ s.pending = none then some { s with pending := some op.sections }
    else none
  | .next =>
    match s.running, s.pending with
    | some t, some (ins :: rest) =>
      some { ins.foldl (fun s i => s.insert t i) s with pending := some rest }
    | some _, some [] => some { s with running := none, pending := none }
    | _, _ => none
  | .yield =>
    match s.running, s.pending with
    | some t, none => some { s with ready := s.ready ++ [t], running := none }
    | _, _ => none
  | .exit =>
    match s.running, s.pending with
    | some _, none => some { s with running := none }
    | _, _ => none
  | .iexec => some s.iexecStep

/-- Every completed request moved the task that issued it from `iowait` to
`ready`, no request was completed twice, and every task that was put on `iowait`
is still there or was put on `ready`. -/
structure Io.Paired (s : Io) : Prop where
  own : ∀ c ∈ s.completions,
    c.removed = some c.request.issuer ∧ c.woken = some c.request.issuer
  once : (s.completions.map fun c => c.request.serial).Nodup
  kept : s.entered = s.completions.filterMap Completion.woken ++ s.iowait

/-- The running task has put its request on `iotodo`, and not yet itself on `iowait`. -/
def Io.Between (s : Io) : Prop := s.pending = some [[.wait]]

instance (s : Io) : Decidable s.Between := inferInstanceAs (Decidable (_ = _))

/-- `Iexec` does not look at the queues when a task is between its two insertions
and nobody waits. -/
def looksWhenPaired (s : Io) : Event → Prop
  | .iexec => s.iexec = .peek → ¬ (s.Between ∧ s.iowait = [])
  | _ => True

/-! ## The two queues stay aligned -/

/-- The request that `Iexec` has taken from `iotodo`. -/
def Iexec.inHand : Iexec → List Todo
  | .peek => []
  | .popTodo _ _ => []
  | .perform todo _ => [todo]
  | .complete todo _ => [todo]

/-- The task whose request is in a queue that it is not waiting for yet. -/
def Io.between (s : Io) : List Nat := if s.Between then s.running.toList else []

/-- What `Iexec` has looked at is still in front. -/
def Iexec.Front (iotodo : List Todo) (iowait : List Nat) : Iexec → Prop
  | .peek => True
  | .popTodo q t => iotodo.head? = some q ∧ t = some q.issuer ∧ iowait.head? = some q.issuer
  | .perform q t => t = some q.issuer ∧ iowait.head? = some q.issuer
  | .complete q t => t = some q.issuer ∧ iowait.head? = some q.issuer

structure Aligned (s : Io) : Prop where
  paired : s.Paired
  /-- the sections that are left of a call -/
  shape : s.pending = none ∨ s.running.isSome = true ∧
    (s.pending = some [] ∨ s.Between ∨ ∃ op : Op, s.pending = some op.sections)
  line : (s.iexec.inHand ++ s.iotodo).map Todo.issuer = s.iowait ++ s.between
  front : s.iexec.Front s.iotodo s.iowait
  serial : (s.completions.map Completion.request ++ s.iexec.inHand ++ s.iotodo).map Todo.serial =
    List.range s.issued

section
variable {s s' : Io} {e : Event}

theorem Aligned.init : Aligned Io.init where
  paired := ⟨by simp [Io.init], by simp [Io.init], rfl⟩
  shape := Or.inl rfl
  line := rfl
  front := trivial
  serial := rfl

/-- A step that leaves the queues of the requests alone. -/
theorem Aligned.frame {ready : List Nat} {running : Option Nat}
    {pending : Option (List (List Insertion))} {tasks : Nat} (h : Aligned s)
    (hold : ¬ s.Between) (hnew : pending ≠ some [[.wait]])
    (hshape : pending = none ∨ running.isSome = true ∧
      (pending = some [] ∨ ∃ op : Op, pending = some op.sections)) :
    Aligned { s with ready := ready, running := running, pending := pending, tasks := tasks } where
  paired := ⟨h.paired.own, h.paired.once, h.paired.kept⟩
  shape := hshape.imp_right fun ⟨h1, h2⟩ => ⟨h1, h2.imp_right Or.inr⟩
  line := by
    have hline := h.line
    simp only [Io.between, hold, if_false] at hline
    simpa only [Io.between, Io.Between, hnew, if_false] using hline
  front := h.front
  serial := h.serial

theorem Iexec.Front.insert {iotodo : List Todo} {iowait : List Nat} {x : Iexec}
    (h : x.Front iotodo iowait) (qs : List Todo) (ts : List Nat) :
    x.Front (iotodo ++ qs) (iowait ++ ts) := by
  have happ : ∀ {α : Type} {l : List α} {a : α} (m : List α), l.head? = some a →
      (l ++ m).head? = some a := by
    intro α l a m hl
    cases l with
    | nil => cases hl
    | cons => simpa using hl
  cases x with
  | peek => trivial
  | popTodo q t => exact ⟨happ _ h.1, h.2.1, happ _ h.2.2⟩
  | perform q t | complete q t => exact ⟨h.1, happ _ h.2⟩

/-- The insertion of a request. -/
theorem Aligned.serial_insert (h : Aligned s) (q : Todo) (hq : q.serial = s.issued) :
    (s.completions.map Completion.request ++ s.iexec.inHand ++ (s.iotodo ++ [q])).map
      Todo.serial = List.range (s.issued + 1) := by
  rw [← List.append_assoc, List.map_append, h.serial, List.range_succ, List.map_singleton, hq]

theorem Paired.insertWait {t : Nat} (h : s.Paired) :
    s.entered ++ [t] = s.completions.filterMap Completion.woken ++ (s.iowait ++ [t]) := by
  rw [h.kept, List.append_assoc]

/-- A task puts itself on `iowait` after its request. -/
theorem Aligned.insertWait {t : Nat} (h : Aligned s) (hb : s.Between) (hrun : s.running = some t) :
    Aligned { s.insert t .wait with pending := some [] } := by
  have hline := h.line
  rw [Io.between, if_pos hb, hrun, Option.toList_some] at hline
  refine ⟨⟨h.paired.own, h.paired.once, Paired.insertWait h.paired⟩, ?_, ?_, ?_, h.serial⟩
  · exact Or.inr ⟨by simp [Io.insert, hrun], Or.inl rfl⟩
  · simpa only [Io.insert, Io.between, Io.Between, Option.some.injEq, reduceCtorEq, if_false,
      List.append_nil] using hline
  · have hfront := h.front.insert [] [t]
    rw [List.append_nil] at hfront
    exact hfront

/-- A task puts its request on `iotodo`. -/
theorem Aligned.insertTodo {t : Nat} (op : Op) (h : Aligned s) (hb : ¬ s.Between)
    (hrun : s.running = some t) : Aligned { s.insert t (.todo op) with pending := some [[.wait]] } := by
  have hline := h.line
  rw [Io.between, if_neg hb, List.append_nil] at hline
  refine ⟨⟨h.paired.own, h.paired.once, h.paired.kept⟩, ?_, ?_, ?_, h.serial_insert _ rfl⟩
  · exact Or.inr ⟨by simp [Io.insert, hrun], Or.inr (Or.inl rfl)⟩
  · simp only [Io.insert, Io.between, Io.Between, if_true, hrun, Option.toList_some, ← hline,
      ← List.append_assoc, List.map_append, List.map_cons, List.map_nil]
  · have hfront := h.front.insert [⟨op, t, s.issued⟩] []
    rw [List.append_nil] at hfront
    exact hfront

/-- A section of a call keeps the queues aligned. -/
theorem Aligned.next (h : Aligned s) (hs : s.step .next = some s') : Aligned s' := by
  rcases h.shape with hp | ⟨hrun, hp | hb | ⟨op, hp⟩⟩
  · cases hr : s.running <;> simp [Io.step, hr, hp] at hs
  · obtain ⟨t, ht⟩ := Option.isSome_iff_exists.mp hrun
    simp only [Io.step, ht, hp, Option.some.injEq] at hs
    subst hs
    exact h.frame (by simp [Io.Between, hp]) (by simp) (Or.inl rfl)
  · obtain ⟨t, ht⟩ := Option.isSome_iff_exists.mp hrun
    have hp : s.pending = some [[.wait]] := hb
    simp only [Io.step, ht, hp, List.foldl_cons, List.foldl_nil, Option.some.injEq] at hs
    subst hs
    exact h.insertWait hb ht
  · obtain ⟨t, ht⟩ := Option.isSome_iff_exists.mp hrun
    have hb : ¬ s.Between := by
      cases op <;> simp [Io.Between, hp, Op.sections]
    cases op with
    | «open» =>
      simp only [Io.step, ht, hp, Op.sections, List.foldl_cons, List.foldl_nil,
        Option.some.injEq] at hs
      subst hs
      -- both insertions of the section, one after the other
      exact (h.insertTodo .open hb ht).insertWait rfl ht
    | write | close =>
      simp only [Io.step, ht, hp, Op.sections, List.foldl_cons, List.foldl_nil,
        Option.some.injEq] at hs
      subst hs
      exact h.insertTodo _ hb ht

theorem eq_cons_of_head? {α : Type} {l : List α} {a : α} (h : l.head? = some a) :
    l = a :: l.tail := by
  cases l with
  | nil => cases h
  | cons b l =>
    cases h
    rfl

/-- The task at the head of `iowait` is the one of the request that `Iexec` sees. -/
theorem Aligned.head_iowait {todo : Todo} (h : Aligned s) (hx : s.iexec = .peek)
    (hok : looksWhenPaired s .iexec) (htodo : s.iotodo.head? = some todo) :
    s.iowait.head? = some todo.issuer := by
  have hline := h.line
  rw [hx, eq_cons_of_head? htodo] at hline
  cases hw : s.iowait with
  | nil =>
    by_cases hb : s.Between
    · exact absurd ⟨hb, hw⟩ (hok hx)
    · simp [Iexec.inHand, hw, Io.between, hb] at hline
  | cons w ws =>
    rw [hw] at hline
    have hwi : todo.issuer = w := (List.cons.inj hline).1
    rw [List.head?_cons, hwi]

/-- A request is completed: its task is at the head of `iowait`. -/
theorem Aligned.complete {todo : Todo} {t : Option Nat} (h : Aligned s)
    (hx : s.iexec = .complete todo t) : Aligned s.iexecStep := by
  have hline := h.line
  have hfront := h.front
  have hserial := h.serial
  rw [hx] at hline hfront hserial
  obtain ⟨rfl, hhead⟩ := hfront
  have hiowait := eq_cons_of_head? hhead
  have hrequests : (s.completions ++ [Completion.mk todo s.iowait.head? (some todo.issuer)]).map
      Completion.request = s.completions.map Completion.request ++ [todo] := by
    rw [List.map_append]
    rfl
  have hrange : (s.completions.map Completion.request ++ [todo] ++ s.iotodo).map Todo.serial =
      List.range s.issued := hserial
  simp only [Io.iexecStep, hx]
  refine ⟨⟨?_, ?_, ?_⟩, h.shape, ?_, trivial, ?_⟩
  · intro c hc
    rcases List.mem_append.mp hc with hc | hc
    · exact h.paired.own c hc
    · obtain rfl := List.mem_singleton.mp hc
      exact ⟨hhead, rfl⟩
  · have hnodup : ((s.completions.map Completion.request ++ [todo] ++ s.iotodo).map
        Todo.serial).Nodup := hrange ▸ List.nodup_range
    rw [List.map_append] at hnodup
    have hfirst := (List.nodup_append.mp hnodup).1
    rwa [← hrequests, List.map_map] at hfirst
  · have hkept := h.paired.kept
    rw [hiowait] at hkept
    simp only [hkept, List.filterMap_append, List.append_assoc]
    rfl
  · rw [hiowait] at hline
    exact (List.cons.inj hline).2
  · simp only [hrequests]
    rw [Iexec.inHand, List.append_nil]
    exact hrange

/-- A step of `Iexec` that looks at aligned queues. -/
theorem Aligned.iexec (h : Aligned s) (hok : looksWhenPaired s .iexec) : Aligned s.iexecStep := by
  have hline := h.line
  have hfront := h.front
  have hserial := h.serial
  cases hx : s.iexec with
  | peek =>
    rw [hx] at hline hserial
    simp only [Io.iexecStep, hx]
    split
    · have hhead := h.head_iowait hx hok ‹_›
      exact ⟨⟨h.paired.own, h.paired.once, h.paired.kept⟩, h.shape, hline, ⟨‹_›, hhead, hhead⟩,
        hserial⟩
    · exact h
  | popTodo todo t =>
    rw [hx] at hline hfront hserial
    obtain ⟨htodo, ht, hhead⟩ := hfront
    rw [eq_cons_of_head? htodo] at hline hserial
    simp only [Io.iexecStep, hx]
    refine ⟨⟨h.paired.own, h.paired.once, h.paired.kept⟩, h.shape, hline, ⟨ht, hhead⟩, ?_⟩
    rw [Iexec.inHand, List.append_assoc]
    rw [Iexec.inHand, List.append_nil] at hserial
    exact hserial
  | perform todo t =>
    rw [hx] at hline hfront hserial
    simp only [Io.iexecStep, hx]
    exact ⟨⟨h.paired.own, h.paired.once, h.paired.kept⟩, h.shape, hline, hfront, hserial⟩
  | complete todo t => exact h.complete hx

theorem Aligned.step (h : Aligned s) (hok : looksWhenPaired s e) (hs : s.step e = some s') :
    Aligned s' := by
  have hnone : s.pending = none → ¬ s.Between := fun hp => by simp [Io.Between, hp]
  cases e with
  | create =>
    cases hs
    exact ⟨⟨h.paired.own, h.paired.once, h.paired.kept⟩, h.shape, h.line, h.front, h.serial⟩
  | dispatch =>
    simp only [Io.step] at hs
    split at hs
    · rename_i hrun _
      cases hs
      -- without a running task there is no call
      have hp : s.pending = none := h.shape.resolve_right fun hsome => by simp [hrun] at hsome
      exact h.frame (hnone hp) (by simp [hp]) (Or.inl hp)
    · cases hs
  | call op =>
    simp only [Io.step] at hs
    split at hs
    · rename_i hcall
      cases hs
      refine h.frame (hnone hcall.2) ?_ (Or.inr ⟨hcall.1, Or.inr ⟨op, rfl⟩⟩)
      cases op <;> simp [Op.sections]
    · cases hs
  | next => exact h.next hs
  | yield =>
    simp only [Io.step] at hs
    split at hs
    · cases hs
      exact h.frame (hnone ‹_›) (by simp [*]) (Or.inl ‹_›)
    · cases hs
  | exit =>
    simp only [Io.step] at hs
    split at hs
    · cases hs
      exact h.frame (hnone ‹_›) (by simp [*]) (Or.inl ‹_›)
    · cases hs
  | iexec =>
    cases hs
    exact h.iexec hok

end

/-! ## The result -/

/-- As long as `Iexec` does not look while a task is between its two insertions
and nobody waits, every request wakes its own task, once, and no task is lost. -/
theorem requests_find_their_tasks {as : List Event} {s : Io}
    (hrun : Run Io.step looksWhenPaired .init as s) : s.Paired :=
  (hrun.invariant Aligned.init fun _ _ _ h hok hs => h.step hok hs).paired

instance (s : Io) (e : Event) : Decidable (looksWhenPaired s e) :=
  match e with
  | .iexec => inferInstanceAs (Decidable (_ → _))
  | .create | .dispatch | .call _ | .next | .yield | .exit => isTrue trivial

/-- Two tasks, an open and a write, both completed. -/
theorem two_requests_find_their_tasks : ∃ as s, Run Io.step looksWhenPaired .init as s ∧
    s.completions.length = 2 ∧ s.Paired := by
  have hcomputed : (exec Io.step looksWhenPaired .init [.create, .create, .dispatch, .call .open,
      .next, .next, .dispatch, .call .write, .next, .iexec, .next, .next, .iexec, .iexec, .iexec,
      .iexec, .iexec, .iexec, .iexec]).any (fun s => s.completions.length = 2) = true := by
    decide +kernel
  obtain ⟨s, hs, hlen⟩ := (Option.any_eq_true _ _).mp hcomputed
  exact ⟨_, s, run_of_exec hs, of_decide_eq_true hlen, requests_find_their_tasks (run_of_exec hs)⟩

/-- `Iexec` looks between the two insertions of `sut_close`: it sees no task, later removes
the one that came, and puts nobody on `ready`. -/
theorem a_task_is_removed_and_not_woken :
    ¬ ∀ as s, Run Io.step anyStep .init as s → s.Paired := by
  intro h
  have hcomputed : (exec Io.step anyStep .init [.create, .dispatch, .call .close, .next, .iexec,
      .next, .next, .iexec, .iexec, .iexec]).any
      (fun s => s.completions = [⟨⟨.close, 0, 0⟩, some 0, none⟩]) = true := by
    decide +kernel
  obtain ⟨s, hs, hend⟩ := (Option.any_eq_true _ _).mp hcomputed
  have hown := (h _ s (run_of_exec hs)).own
  rw [of_decide_eq_true hend] at hown
  exact absurd (hown _ (List.mem_singleton.mpr rfl)).2 (by decide)

end sut
