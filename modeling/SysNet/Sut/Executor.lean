-- How long the executor lives. `sut_init` starts `Cexec` before there is a
-- task, and `Cexec` returns as soon as its test finds the counter at zero.
-- The statements of the main thread and the turns of the loop interleave.
import Mathlib.Data.Finset.Card
import Mathlib.Data.Finset.Range
import SysNet.Sut.Tasks

namespace sut

open runs

/-! ## The main thread and the executor -/

/-- The next statement of the main thread. -/
inductive Main
  /-- `sut_init`: `numthreads=0` -/
  | setZero
  | createCexec
  | createIexec
  | initReady
  | initIowait
  | getMainContext
  /-- between two calls -/
  | idle
  /-- `sut_create`, with the index that it has read -/
  | getcontext (n : Int)
  | makecontext (k t : Nat)
  | increment (k t : Nat)
  | insertTail (k t : Nat)
  /-- in `sut_shutdown` -/
  | join
deriving DecidableEq, Repr

/-- Where `Cexec` is. -/
inductive Loop
  | notStarted
  | test
  | body
  | returned
deriving DecidableEq, Repr

structure Exec where
  core : Core
  main : Main
  cexec : Loop

def Exec.init : Exec := { core := .init, main := .setZero, cexec := .notStarted }

/-- How the turn of a task ends. -/
inductive Ending
  | yield
  | exit
  /-- its function returns -/
  | ret
  /-- it waits for `Iexec` -/
  | block
deriving DecidableEq, Repr

/-- What a task does between two switches: it creates some tasks. -/
structure Turn where
  creates : Nat
  ending : Ending
deriving DecidableEq, Repr

inductive Action
  /-- the next statement of the main thread -/
  | main
  /-- the main thread calls `sut_create` -/
  | create
  | shutdown
  /-- the test of the loop of `Cexec` -/
  | test
  /-- the body of the loop, with the turn of the task in it -/
  | body (turn : Turn)
  /-- `Iexec` gives a task back -/
  | wake
deriving DecidableEq, Repr

def Core.createAll : Nat → Core → Option Core
  | 0, s => some s
  | n + 1, s => if s.inRange then createAll n (s.create s.numthreads.toNat) else none

def Core.finish (s : Core) (t : Nat) : Ending → Core
  | .yield => s.yield t
  | .exit => s.exit t
  | .ret => s.ret t
  | .block => s.block t

/-- The running task has its turn. Without one the queue was empty. -/
def Core.turn (s : Core) (turn : Turn) : Option Core :=
  match s.running with
  | none => some s
  | some t => (s.createAll turn.creates).map fun s => s.finish t turn.ending

/-- The next statement of the main thread. -/
def Exec.mainStep (s : Exec) : Option Exec :=
  match s.main with
  | .setZero => some { s with core := { s.core with numthreads := 0 }, main := .createCexec }
  | .createCexec => some { s with cexec := .test, main := .createIexec }
  | .createIexec => some { s with main := .initReady }
  | .initReady => some { s with core := { s.core with ready := [] }, main := .initIowait }
  | .initIowait => some { s with core := { s.core with iowait := [] }, main := .getMainContext }
  | .getMainContext => some { s with main := .idle }
  | .idle => none
  | .getcontext n =>
    if 0 ≤ n ∧ n < MAX_THREADS then
      some { s with
        core := s.core.getcontext n.toNat
        main := .makecontext n.toNat s.core.slots.length }
    else none
  | .makecontext k t => some { s with core := s.core.makecontext k t, main := .increment k t }
  | .increment k t =>
    some { s with
      core := { s.core with numthreads := s.core.numthreads + 1 }
      main := .insertTail k t }
  | .insertTail k _ => some { s with core := s.core.insert (.slot k), main := .idle }
  | .join => none

def Exec.step (s : Exec) : Action → Option Exec
  | .main => s.mainStep
  | .create => if s.main = .idle then some { s with main := .getcontext s.core.numthreads } else none
  | .shutdown => if s.main = .idle then some { s with main := .join } else none
  | .test =>
    if s.cexec = .test then
      some { s with cexec := if s.core.numthreads ≠ 0 then .body else .returned }
    else none
  | .body turn =>
    if s.cexec = .body then
      (s.core.dispatch.bind fun core => core.turn turn).map fun core =>
        { s with core := core, cexec := .test }
    else none
  | .wake => some { s with core := s.core.wake }

/-- The task that the main thread is creating. -/
def Main.creating : Main → Option Nat
  | .makecontext _ t => some t
  | .increment _ t => some t
  | .insertTail _ t => some t
  | _ => none

/-- The call of `sut_create` for the task is completed. -/
def Exec.Completed (s : Exec) (t : Nat) : Prop := t < s.core.slots.length ∧ s.main.creating ≠ some t

def Core.Finished (s : Core) (t : Nat) : Prop := t ∈ s.exited ∨ t ∈ s.returned

/-- `Cexec` has not returned, or every task has finished. -/
def Exec.Outlives (s : Exec) : Prop :=
  s.cexec = .returned → ∀ t, s.Completed t → s.core.Finished t

/-! ## The conditions -/

/-- No creation of the turn writes the slot of a task that waits. -/
def Core.FreeTurn : Nat → Core → Prop
  | 0, _ => True
  | n + 1, s => ¬ s.Waits s.numthreads.toNat ∧ FreeTurn n (s.create s.numthreads.toNat)

def Core.decideFreeTurn : (n : Nat) → (s : Core) → Decidable (s.FreeTurn n)
  | 0, _ => isTrue trivial
  | n + 1, _ => @instDecidableAnd _ _ _ (decideFreeTurn n _)

instance (n : Nat) (s : Core) : Decidable (s.FreeTurn n) := Core.decideFreeTurn n s

/-- The statement does not write the slot of a task that waits. -/
def Main.Free (core : Core) : Main → Prop
  | .getcontext n => ¬ core.Waits n.toNat
  | _ => True

/-- The statement does not complete `sut_create` when `Cexec` has returned. -/
def Main.InTime (cexec : Loop) : Main → Prop
  | .insertTail _ _ => cexec ≠ .returned
  | _ => True

instance (core : Core) (m : Main) : Decidable (m.Free core) := by
  cases m <;> simp only [Main.Free] <;> infer_instance

instance (cexec : Loop) (m : Main) : Decidable (m.InTime cexec) := by
  cases m <;> simp only [Main.InTime] <;> infer_instance

/-- No slot is written that belongs to a task that waits to be started. -/
def freeSlots (s : Exec) : Action → Prop
  | .main => s.main.Free s.core
  | .body turn => ∀ core ∈ s.core.dispatch, core.FreeTurn turn.creates
  | _ => True

/-- No call of `sut_create` is completed when `Cexec` has returned. -/
def inTime (s : Exec) : Action → Prop
  | .main => s.main.InTime s.cexec
  | _ => True

instance (s : Exec) (a : Action) : Decidable (freeSlots s a) :=
  match a with
  | .main => inferInstanceAs (Decidable (s.main.Free s.core))
  | .body turn => inferInstanceAs (Decidable (∀ core ∈ s.core.dispatch, core.FreeTurn turn.creates))
  | .create | .shutdown | .test | .wake => isTrue trivial

instance (s : Exec) (a : Action) : Decidable (inTime s a) :=
  match a with
  | .main => inferInstanceAs (Decidable (s.main.InTime s.cexec))
  | .body _ | .create | .shutdown | .test | .wake => isTrue trivial

/-! ## A turn of a task -/

/-- What the creations of a turn leave alone. -/
structure Core.Grew (s s' : Core) : Prop where
  num : s'.numthreads + s.slots.length = s.numthreads + s'.slots.length
  exited : s'.exited = s.exited
  running : s'.running = s.running
  started : s'.started = s.started
  slot : ∀ t k : Nat, s.slots[t]? = some k → t ∉ s.started →
    s'.slots[t]? = some k ∧ s'.threadarr k = s.threadarr k

theorem Core.createAll_grew {n : Nat} {s s' : Core} (hfree : s.FreeTurn n)
    (h : s.createAll n = some s') : s.Grew s' := by
  induction n generalizing s with
  | zero =>
    cases h
    exact ⟨rfl, rfl, rfl, rfl, fun t k hk _ => ⟨hk, rfl⟩⟩
  | succ n ih =>
    simp only [Core.createAll] at h
    split at h
    · obtain ⟨hwait, hfree⟩ := hfree
      have hg := ih hfree h
      refine ⟨?_, hg.exited, hg.running, hg.started, fun t k hk ht => ?_⟩
      · have := hg.num
        simp only [Core.create, Core.insert, Core.makecontext, Core.getcontext, List.length_append,
          List.length_singleton] at this
        push_cast at this
        omega
      · have hne : k ≠ s.numthreads.toNat := fun heq => hwait ⟨t, heq ▸ hk, ht⟩
        obtain ⟨h1, h2⟩ := hg.slot t k (getElem?_slots_mono hk) ht
        refine ⟨h1, h2.trans ?_⟩
        simp only [Core.create, Core.insert, Core.makecontext, Core.getcontext,
          Function.update_of_ne hne]
    · cases h

theorem Sound.createAll {n : Nat} {s s' : Core} {busy : Set Nat} (hs : Sound s busy)
    (hfree : s.FreeTurn n) (h : s.createAll n = some s') : Sound s' busy := by
  induction n generalizing s with
  | zero =>
    cases h
    exact hs
  | succ n ih =>
    simp only [Core.createAll] at h
    split at h
    · exact ih (hs.create hfree.1) hfree.2 h
    · cases h

theorem Sound.finish {s : Core} {busy : Set Nat} {t : Nat} (h : Sound s busy)
    (hrun : s.running = some t) (e : Ending) : Sound (s.finish t e) busy := by
  cases e with
  | yield => exact h.yield hrun
  | exit => exact h.exit hrun
  | ret => exact h.ret hrun
  | block => exact h.block hrun

/-- What is the same before and after a turn of the loop, for tasks that are
not started by it. -/
structure Core.Turned (s s' : Core) : Prop where
  num : s'.numthreads + s'.exited.length + s.slots.length =
    s.numthreads + s.exited.length + s'.slots.length
  running : s'.running = none
  slot : ∀ t k : Nat, s.slots[t]? = some k → t ∉ s'.started →
    s'.slots[t]? = some k ∧ s'.threadarr k = s.threadarr k

theorem Core.finish_turned (s : Core) (t : Nat) (e : Ending) :
    (s.finish t e).running = none ∧ (s.finish t e).slots = s.slots ∧
      (s.finish t e).started = s.started ∧ (s.finish t e).threadarr = s.threadarr ∧
      (s.finish t e).numthreads + (s.finish t e).exited.length =
        s.numthreads + s.exited.length := by
  cases e with
  | exit =>
    simp only [Core.finish, Core.exit, List.length_append, List.length_singleton]
    refine ⟨trivial, trivial, trivial, trivial, ?_⟩
    push_cast
    omega
  | yield => simp [Core.finish, Core.yield, Core.suspend, Core.insert]
  | ret => simp [Core.finish, Core.ret]
  | block => simp [Core.finish, Core.block, Core.suspend]

theorem Core.dispatch_same {s s' : Core} (h : s.dispatch = some s') :
    s'.slots = s.slots ∧ s'.threadarr = s.threadarr ∧ s'.numthreads = s.numthreads ∧
      s'.exited = s.exited ∧ ∀ t ∈ s.started, t ∈ s'.started := by
  unfold Core.dispatch at h
  split at h
  · cases h
    simp
  · obtain ⟨t, -, rfl⟩ := Option.map_eq_some_iff.mp h
    simp only [List.mem_append, List.mem_singleton, true_and]
    exact fun u hu => Or.inl hu
  · split at h
    · cases h
      simp
    · cases h

/-- One body of the loop. -/
theorem body_turned {s core s' : Core} {busy : Set Nat} {turn : Turn} (hs : Sound s busy)
    (hd : s.dispatch = some core) (hfree : core.FreeTurn turn.creates) (ht : core.turn turn = some s') :
    Sound s' busy ∧ s.Turned s' := by
  obtain ⟨hslots, harr, hnum, hexit, hstart⟩ := Core.dispatch_same hd
  have hsound := hs.dispatch hd
  unfold Core.turn at ht
  split at ht
  · cases ht
    refine ⟨hsound, by rw [hslots, hnum, hexit], ‹_›, fun t k hk _ => ?_⟩
    rw [hslots, harr]
    exact ⟨hk, rfl⟩
  · rename_i t hrunning
    obtain ⟨grown, hgrown, rfl⟩ := Option.map_eq_some_iff.mp ht
    have hg := Core.createAll_grew hfree hgrown
    obtain ⟨h1, h2, h3, h4, h5⟩ := Core.finish_turned grown t turn.ending
    refine ⟨(hsound.createAll hfree hgrown).finish (hg.running.trans hrunning) _, ?_, h1, ?_⟩
    · have hgnum := hg.num
      rw [hslots, hnum] at hgnum
      rw [h2, h5, hg.exited, hexit]
      omega
    · intro u k hk hns
      rw [h3, hg.started] at hns
      rw [h2, h4, ← harr]
      exact hg.slot u k (hslots ▸ hk) hns

/-! ## The counter -/

/-- A task with a slot that is not counted yet. -/
def Main.uncounted : Main → List Nat
  | .makecontext _ t => [t]
  | .increment _ t => [t]
  | _ => []

/-- The main thread is in `sut_init`. -/
def Main.starting : Main → Bool
  | .setZero => true
  | .createCexec => true
  | .createIexec => true
  | .initReady => true
  | .initIowait => true
  | .getMainContext => true
  | _ => false

/-- What the call of `sut_create` that is under way has done. -/
def Main.Done (core : Core) : Main → Prop
  | .makecontext k t => core.slots[t]? = some k
  | .increment k t => core.slots[t]? = some k ∧ core.threadarr k = some t
  | .insertTail k t => core.slots[t]? = some k ∧ core.threadarr k = some t
  | _ => True

structure Alive (s : Exec) : Prop where
  sound : Sound s.core {t | s.main.creating = some t}
  resting : s.core.running = none
  num : s.core.numthreads + s.core.exited.length + s.main.uncounted.length = s.core.slots.length
  done : s.main.Done s.core
  starting : s.main.starting = true → s.core = .init ∧ s.cexec ≠ .body

section
variable {s s' : Exec} {a : Action}

theorem Alive.init : Alive Exec.init where
  sound := by
    have hset : {t | Main.creating .setZero = some t} = (∅ : Set Nat) := by
      ext t
      simp [Main.creating]
    exact hset ▸ Sound.init
  resting := rfl
  num := rfl
  done := trivial
  starting _ := ⟨rfl, by simp [Exec.init]⟩

theorem creating_of_uncounted {m : Main} {t : Nat} (h : t ∈ m.uncounted) :
    m.creating = some t := by
  cases m <;> simp_all [Main.uncounted, Main.creating]

/-- A list of `n` different numbers below `n` has them all. -/
theorem mem_of_nodup_of_lt {l : List Nat} {n t : Nat} (hl : l.Nodup) (hlt : ∀ u ∈ l, u < n)
    (hlen : l.length = n) (ht : t < n) : t ∈ l := by
  have hsub : l.toFinset ⊆ Finset.range n := fun u hu =>
    Finset.mem_range.mpr (hlt u (List.mem_toFinset.mp hu))
  have hcard : (Finset.range n).card ≤ l.toFinset.card := by
    rw [List.toFinset_card_of_nodup hl, hlen, Finset.card_range]
  rw [← List.mem_toFinset, Finset.eq_of_subset_of_card_le hsub hcard]
  exact Finset.mem_range.mpr ht

/-- When the counter is zero, every completed task has exited. -/
theorem Alive.exited_of_zero {t : Nat} (h : Alive s) (h0 : s.core.numthreads = 0)
    (ht : s.Completed t) : t ∈ s.core.exited := by
  have hnum := h.num
  have hnodup : (s.core.exited ++ s.main.uncounted).Nodup := by
    refine List.nodup_append.mpr ⟨h.sound.exited.1, ?_, fun u hu v hv heq => ?_⟩
    · cases s.main <;> simp [Main.uncounted]
    · have hnot := (h.sound.busy_lt v (creating_of_uncounted hv)).2
      exact hnot (h.sound.exited.2 v (heq ▸ hu))
  have hlt : ∀ u ∈ s.core.exited ++ s.main.uncounted, u < s.core.slots.length := by
    intro u hu
    rcases List.mem_append.mp hu with hu | hu
    · exact h.sound.started_lt u (h.sound.exited.2 u hu)
    · exact (h.sound.busy_lt u (creating_of_uncounted hu)).1
  have hlen : (s.core.exited ++ s.main.uncounted).length = s.core.slots.length := by
    rw [List.length_append]
    omega
  rcases List.mem_append.mp (mem_of_nodup_of_lt hnodup hlt hlen ht.1) with hin | hin
  · exact hin
  · exact absurd (creating_of_uncounted hin) ht.2

/-- The busy tasks after the main thread has gone on. -/
theorem busy_singleton {m : Main} {t : Nat} (h : m.creating = some t) :
    {u | m.creating = some u} = ({t} : Set Nat) := by
  ext u
  simp [h, eq_comm]

theorem busy_empty {m : Main} (h : m.creating = none) : {u | m.creating = some u} = (∅ : Set Nat) := by
  ext u
  simp [h]

/-- A statement of the main thread that only moves it on, outside of the
creation of a task. -/
theorem Alive.move {m : Main} {c : Loop} (h : Alive s) (hold : s.main.creating = none)
    (hnew : m.creating = none) (hu : s.main.uncounted = m.uncounted) (hdone : m.Done s.core)
    (hstart : m.starting = true → s.core = .init ∧ c ≠ .body) :
    Alive { s with main := m, cexec := c } where
  sound := by
    have hs := h.sound
    rw [busy_empty hold] at hs
    exact busy_empty hnew ▸ hs
  resting := h.resting
  num := hu ▸ h.num
  done := hdone
  starting := hstart

theorem Alive.mainStep (h : Alive s) (hok : freeSlots s .main) (hs : s.mainStep = some s') :
    Alive s' := by
  obtain ⟨core, main, cexec⟩ := s
  cases main with
  | setZero =>
    obtain ⟨rfl, hc⟩ := h.starting rfl
    cases hs
    exact h.move rfl rfl rfl trivial fun _ => ⟨rfl, hc⟩
  | createCexec =>
    obtain ⟨rfl, hc⟩ := h.starting rfl
    cases hs
    exact h.move rfl rfl rfl trivial fun _ => ⟨rfl, by simp⟩
  | createIexec =>
    obtain ⟨rfl, hc⟩ := h.starting rfl
    cases hs
    exact h.move rfl rfl rfl trivial fun _ => ⟨rfl, hc⟩
  | initReady =>
    obtain ⟨rfl, hc⟩ := h.starting rfl
    cases hs
    exact h.move rfl rfl rfl trivial fun _ => ⟨rfl, hc⟩
  | initIowait =>
    obtain ⟨rfl, hc⟩ := h.starting rfl
    cases hs
    exact h.move rfl rfl rfl trivial fun _ => ⟨rfl, hc⟩
  | getMainContext =>
    cases hs
    exact h.move rfl rfl rfl trivial fun hst => by cases hst
  | idle => cases hs
  | getcontext n =>
    simp only [Exec.mainStep] at hs
    split at hs
    · cases hs
      have hsound := h.sound
      rw [busy_empty rfl] at hsound
      refine ⟨?_, h.resting, ?_, ?_, fun hst => by cases hst⟩
      · rw [busy_singleton (t := core.slots.length) rfl]
        have := hsound.getcontext (k := n.toNat) hok
        rwa [insert_empty_eq] at this
      · have hnum := h.num
        simp only [Main.uncounted, List.length_nil, Core.getcontext, List.length_append,
          List.length_singleton] at hnum ⊢
        push_cast at hnum ⊢
        omega
      · simp [Main.Done, Core.getcontext]
    · cases hs
  | makecontext k t =>
    cases hs
    have hk : core.slots[t]? = some k := h.done
    refine ⟨h.sound.makecontext rfl hk, h.resting, h.num, ⟨hk, ?_⟩, fun hst => by cases hst⟩
    simp [Core.makecontext]
  | increment k t =>
    cases hs
    refine ⟨h.sound.setNum _, h.resting, ?_, h.done, fun hst => by cases hst⟩
    have hnum := h.num
    simp only [Main.uncounted, List.length_singleton, List.length_nil] at hnum ⊢
    push_cast at hnum ⊢
    omega
  | insertTail k t =>
    cases hs
    obtain ⟨hk, harr⟩ := h.done
    refine ⟨?_, h.resting, h.num, trivial, fun hst => by cases hst⟩
    have := h.sound.insert (t := t) rfl hk harr
    rwa [busy_singleton (t := t) rfl, Set.sdiff_self, ← busy_empty (m := .idle) rfl] at this
  | join => cases hs

/-- A body of the loop leaves the slot of the task that is being created alone. -/
theorem Main.Done.turned {m : Main} {core core' : Core} (h : m.Done core) (ht : core.Turned core')
    (hbusy : ∀ t, m.creating = some t → t ∉ core'.started) : m.Done core' := by
  cases m with
  | makecontext k t => exact (ht.slot t k h (hbusy t rfl)).1
  | increment k t | insertTail k t =>
    obtain ⟨h1, h2⟩ := ht.slot t k h.1 (hbusy t rfl)
    exact ⟨h1, h2.trans h.2⟩
  | _ => trivial

theorem Alive.step (h : Alive s) (hok : freeSlots s a) (hs : s.step a = some s') : Alive s' := by
  cases a with
  | main => exact h.mainStep hok hs
  | create =>
    simp only [Exec.step] at hs
    split at hs
    · cases hs
      have hidle : s.main = .idle := ‹_›
      exact h.move (by rw [hidle]; rfl) rfl (by rw [hidle]; rfl) trivial fun hst => by cases hst
    · cases hs
  | shutdown =>
    simp only [Exec.step] at hs
    split at hs
    · cases hs
      have hidle : s.main = .idle := ‹_›
      exact h.move (by rw [hidle]; rfl) rfl (by rw [hidle]; rfl) trivial fun hst => by cases hst
    · cases hs
  | test =>
    simp only [Exec.step] at hs
    split at hs
    · cases hs
      refine ⟨h.sound, h.resting, h.num, h.done, fun hst => ?_⟩
      obtain ⟨hcore, -⟩ := h.starting hst
      refine ⟨hcore, ?_⟩
      simp [hcore, Core.init]
    · cases hs
  | body turn =>
    simp only [Exec.step] at hs
    split at hs
    · rename_i hbody
      obtain ⟨core', hcore, rfl⟩ := Option.map_eq_some_iff.mp hs
      obtain ⟨core, hd, ht⟩ := Option.bind_eq_some_iff.mp hcore
      obtain ⟨hsound, hturned⟩ := body_turned h.sound hd (hok core hd) ht
      refine ⟨hsound, hturned.running, ?_, ?_, fun hst => absurd hbody (h.starting hst).2⟩
      · have h1 := h.num
        have h2 := hturned.num
        simp only
        omega
      · exact h.done.turned hturned fun t ht => (hsound.busy_lt t ht).2
    · cases hs
  | wake =>
    cases hs
    have hsame : s.core.wake.numthreads = s.core.numthreads ∧ s.core.wake.exited = s.core.exited ∧
        s.core.wake.slots = s.core.slots ∧ s.core.wake.threadarr = s.core.threadarr ∧
        s.core.wake.running = s.core.running := by
      unfold Core.wake
      split <;> simp
    obtain ⟨h1, h2, h3, h4, h5⟩ := hsame
    refine ⟨h.sound.wake, h5.trans h.resting, by rw [h1, h2, h3]; exact h.num, ?_, fun hst => ?_⟩
    · have hdone := h.done
      unfold Main.Done at hdone ⊢
      simp only
      split <;> simp_all
    · obtain ⟨hcore, hc⟩ := h.starting hst
      exact ⟨by rw [hcore]; rfl, hc⟩

/-! ## The result -/

/-- A statement of the main thread in time completes no task that cannot run. -/
theorem mainStep_completed (htime : inTime s .main) (hs : s.mainStep = some s')
    (hret : s'.cexec = .returned) :
    s.cexec = .returned ∧ s'.core.exited = s.core.exited ∧ s'.core.returned = s.core.returned ∧
      ∀ t, s'.Completed t → s.Completed t := by
  obtain ⟨core, main, cexec⟩ := s
  cases main with
  | getcontext n =>
    simp only [Exec.mainStep] at hs
    split at hs
    · cases hs
      refine ⟨hret, rfl, rfl, fun t ht => ⟨?_, by simp [Main.creating]⟩⟩
      obtain ⟨hlt, hne⟩ := ht
      simp only [Core.getcontext, List.length_append, List.length_singleton, Main.creating, ne_eq,
        Option.some.injEq] at hlt hne
      simp only
      omega
    · cases hs
  | insertTail k t =>
    cases hs
    exact absurd hret htime
  | createCexec =>
    cases hs
    cases hret
  | idle | join => cases hs
  | _ =>
    cases hs
    exact ⟨hret, rfl, rfl, fun t ht => ht⟩

/-- A step in time keeps it so that `Cexec` outlives the tasks. -/
theorem Exec.Outlives.step (h : s.Outlives) (hal : Alive s) (htime : inTime s a)
    (hs : s.step a = some s') : s'.Outlives := by
  intro hret t ht
  cases a with
  | main =>
    obtain ⟨hret, hexit, hreturn, hcomp⟩ := mainStep_completed htime hs hret
    have := h hret t (hcomp t ht)
    rwa [Core.Finished, hexit, hreturn]
  | create | shutdown =>
    simp only [Exec.step] at hs
    split at hs
    · cases hs
      have hidle : s.main = .idle := ‹_›
      exact h hret t ⟨ht.1, by simp [hidle, Main.creating]⟩
    · cases hs
  | test =>
    simp only [Exec.step] at hs
    split at hs
    · cases hs
      by_cases h0 : s.core.numthreads = 0
      · exact Or.inl (hal.exited_of_zero h0 ht)
      · simp [h0] at hret
    · cases hs
  | body turn =>
    simp only [Exec.step] at hs
    split at hs
    · obtain ⟨core', -, rfl⟩ := Option.map_eq_some_iff.mp hs
      cases hret
    · cases hs
  | wake =>
    cases hs
    have hsame : s.core.wake.exited = s.core.exited ∧ s.core.wake.returned = s.core.returned ∧
        s.core.wake.slots = s.core.slots := by
      unfold Core.wake
      split <;> simp
    obtain ⟨h1, h2, h3⟩ := hsame
    have := h hret t ⟨h3 ▸ ht.1, ht.2⟩
    rwa [Core.Finished, h1, h2]

/-- A call that is completed too late leaves a task that never runs. -/
theorem not_outlives_of_late (hal : Alive s) (htime : ¬ inTime s a) (hs : s.step a = some s') :
    ¬ s'.Outlives := by
  cases a with
  | main =>
    obtain ⟨core, main, cexec⟩ := s
    cases main with
    | insertTail k t =>
      simp only [inTime, Main.InTime, ne_eq, not_not] at htime
      cases hs
      intro hout
      obtain ⟨hlt, hns⟩ := hal.sound.busy_lt t rfl
      rcases hout htime t ⟨hlt, by simp [Main.creating]⟩ with hin | hin
      · exact hns (hal.sound.exited.2 t hin)
      · exact hns (hal.sound.returned t hin)
    | _ => exact absurd trivial htime
  | _ => exact absurd trivial htime

end

/-- In a run that writes no slot of a waiting task, the executor outlives the
tasks in every state exactly when every call of `sut_create` is completed before
`Cexec` returns. -/
theorem the_executor_outlives_the_tasks_iff {as : List Action} {s : Exec}
    (hrun : Run Exec.step freeSlots .init as s) :
    (∀ bs s', bs <+: as → Run Exec.step freeSlots .init bs s' → s'.Outlives) ↔
      Run Exec.step (fun s a => freeSlots s a ∧ inTime s a) .init as s := by
  have halive : ∀ {bs : List Action} {s' : Exec}, Run Exec.step freeSlots .init bs s' → Alive s' :=
    fun hr => hr.invariant Alive.init fun _ _ _ h hok hs => h.step hok hs
  constructor
  · intro hout
    induction hrun with
    | nil => exact .nil
    | @snoc as s s' a hr hok hs ih =>
      refine .snoc (ih fun bs t hpre hb => hout bs t (hpre.trans (List.prefix_append _ _)) hb)
        ⟨hok, ?_⟩ hs
      by_contra htime
      exact not_outlives_of_late (halive hr) htime hs
        (hout _ s' (List.prefix_refl _) (.snoc hr hok hs))
  · intro htime bs s' hpre hb
    obtain ⟨cs, rfl⟩ := hpre
    obtain ⟨s₁, hr⟩ := htime.of_append
    obtain rfl : s₁ = s' := (hr.mono fun _ _ hok => hok.1).unique hb
    have hboth : Alive s₁ ∧ s₁.Outlives := by
      refine hr.invariant (P := fun s => Alive s ∧ s.Outlives) ⟨Alive.init, ?_⟩ ?_
      · intro hret
        cases hret
      · rintro s a s' ⟨hal, hout⟩ ⟨hok, htime⟩ hs
        exact ⟨hal.step hok hs, hout.step hal htime hs⟩
    exact hboth.2

/-- The task is created before the first test, and exits before the last one. -/
theorem one_task_in_time : ∃ as s, Run Exec.step freeSlots .init as s ∧ s.cexec = .returned ∧
    s.core.slots = [0] ∧
    ∀ bs s', bs <+: as → Run Exec.step freeSlots .init bs s' → s'.Outlives := by
  have hcomputed : (exec Exec.step (fun s a => freeSlots s a ∧ inTime s a) .init
      [.main, .main, .main, .main, .main, .main, .create, .main, .main, .main, .main, .test,
        .body ⟨0, .exit⟩, .shutdown, .test]).any
      (fun s => s.cexec = .returned && s.core.slots = [0]) = true := by
    decide +kernel
  obtain ⟨s, hs, hend⟩ := (Option.any_eq_true _ _).mp hcomputed
  simp only [Bool.and_eq_true, decide_eq_true_eq] at hend
  have hrun := run_of_exec hs
  have hfree := hrun.mono fun _ _ hok => hok.1
  exact ⟨_, s, hfree, hend.1, hend.2, (the_executor_outlives_the_tasks_iff hfree).mpr hrun⟩

/-- `Cexec` is started, finds no task and returns. Then the main thread creates one. -/
theorem the_executor_returns_before_the_first_task :
    ¬ ∀ as s, Run Exec.step anyStep .init as s → s.Outlives := by
  intro h
  have hcomputed : (exec Exec.step anyStep .init
      [.main, .main, .test, .main, .main, .main, .main, .create, .main, .main, .main, .main]).any
      (fun s => s.cexec = .returned && s.core.slots.length = 1 && s.main = .idle &&
        s.core.exited = [] && s.core.returned = []) = true := by
    decide +kernel
  obtain ⟨s, hs, hend⟩ := (Option.any_eq_true _ _).mp hcomputed
  simp only [Bool.and_eq_true, decide_eq_true_eq] at hend
  obtain ⟨⟨⟨⟨hret, hlen⟩, hidle⟩, hexit⟩, hreturn⟩ := hend
  have hdone : s.Completed 0 := ⟨by omega, by simp [hidle, Main.creating]⟩
  rcases h _ s (run_of_exec hs) hret 0 hdone with hin | hin
  · simp [hexit] at hin
  · simp [hreturn] at hin

end sut
