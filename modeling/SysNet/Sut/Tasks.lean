-- The tasks of the scheduler: the slot array, the contexts that the ready
-- queue points to, and what each call of the interface does to them. As
-- long as no slot of a waiting task is written, every task is in one place.
import Mathlib.Data.List.Nodup
import Mathlib.Data.Set.Insert
import Mathlib.Logic.Function.Basic
import SysNet.Lib.Runs

namespace sut

/-! ## The state -/

def MAX_THREADS : Nat := 32

/-- A context that a queue entry points to. -/
inductive Ptr
  /-- `threadarr[k].threadcontext` -/
  | slot (k : Nat)
  /-- the variable `curr` of a suspended call, on the stack of the task -/
  | frame (task call : Nat)
deriving DecidableEq, Repr

/-- The globals of the scheduler, and what happened to the tasks. Task `t` is
the function of the `t`-th call of `sut_create`, on the stack made there. -/
structure Core where
  numthreads : Int
  /-- the task that the context of a slot starts -/
  threadarr : Nat → Option Nat
  ready : List Ptr
  iowait : List Ptr
  /-- the call whose context is saved in the frame of a suspended task -/
  saved : Nat → Option Nat
  running : Option Nat
  /-- how many calls were suspended -/
  calls : Nat
  /-- the slot that each call of `sut_create` took -/
  slots : List Nat
  started : List Nat
  exited : List Nat
  returned : List Nat

def Core.init : Core :=
  { numthreads := 0, threadarr := fun _ => none, ready := [], iowait := [], saved := fun _ => none,
    running := none, calls := 0, slots := [], started := [], exited := [], returned := [] }

/-- A task that was created and has not finished. -/
def Core.Live (s : Core) (t : Nat) : Prop := t < s.slots.length ∧ t ∉ s.exited ∧ t ∉ s.returned

/-- The slot of a task that was created and not started yet. -/
def Core.Waits (s : Core) (k : Nat) : Prop := ∃ t, s.slots[t]? = some k ∧ t ∉ s.started

instance (s : Core) (k : Nat) : Decidable (s.Waits k) :=
  decidable_of_iff (∃ t ∈ List.range s.slots.length, s.slots[t]? = some k ∧ t ∉ s.started)
    ⟨fun ⟨t, _, ht⟩ => ⟨t, ht⟩, fun ⟨t, ht⟩ =>
      ⟨t, List.mem_range.mpr (List.getElem?_eq_some_iff.mp ht.1).1, ht⟩⟩

/-- The slot for the next task is one of the array. -/
def Core.inRange (s : Core) : Bool := 0 ≤ s.numthreads && s.numthreads < MAX_THREADS

/-! ## The calls -/

/-- `sut_create` up to `getcontext`: the slot holds no task that can be started. -/
def Core.getcontext (s : Core) (k : Nat) : Core :=
  { s with threadarr := Function.update s.threadarr k none, slots := s.slots ++ [k] }

def Core.makecontext (s : Core) (k t : Nat) : Core :=
  { s with threadarr := Function.update s.threadarr k (some t) }

/-- `queue_insert_tail(&ready, t)`. -/
def Core.insert (s : Core) (p : Ptr) : Core := { s with ready := s.ready ++ [p] }

/-- All of `sut_create`, with the slot that it takes. -/
def Core.create (s : Core) (k : Nat) : Core :=
  { (((s.getcontext k).makecontext k s.slots.length).insert (.slot k)) with
    numthreads := s.numthreads + 1 }

/-- The body of the loop of `Cexec`: the head of the queue is loaded and run.
There is no task in a slot that holds no context, and none in a frame that is
not suspended. -/
def Core.dispatch (s : Core) : Option Core :=
  match s.ready with
  | [] => some s
  | .slot k :: ready =>
    (s.threadarr k).map fun t => { s with
      ready := ready, running := some t, started := s.started ++ [t]
      saved := Function.update s.saved t none }
  | .frame t c :: ready =>
    if s.saved t = some c then
      some { s with ready := ready, running := some t, saved := Function.update s.saved t none }
    else none

/-- The running task is suspended in a call. -/
def Core.suspend (s : Core) (t : Nat) : Core :=
  { s with saved := Function.update s.saved t (some s.calls), running := none, calls := s.calls + 1 }

def Core.yield (s : Core) (t : Nat) : Core := (s.suspend t).insert (.frame t s.calls)

/-- `sut_open`, `sut_write` and `sut_close`, as far as the task goes. -/
def Core.block (s : Core) (t : Nat) : Core :=
  { s.suspend t with iowait := s.iowait ++ [.frame t s.calls] }

/-- `Iexec` gives a task back. -/
def Core.wake (s : Core) : Core :=
  match s.iowait with
  | [] => s
  | p :: rest => { s with iowait := rest, ready := s.ready ++ [p] }

def Core.exit (s : Core) (t : Nat) : Core :=
  { s with numthreads := s.numthreads - 1, running := none, exited := s.exited ++ [t] }

/-- The function of the task returns, to `main_cexec`. -/
def Core.ret (s : Core) (t : Nat) : Core := { s with running := none, returned := s.returned ++ [t] }

/-! ## Every task is in one place -/

/-- In `busy` are the tasks that a call of `sut_create` has a slot for and that
are not in the queue yet. -/
structure Sound (s : Core) (busy : Set Nat) : Prop where
  started_nodup : s.started.Nodup
  started_lt : ∀ t ∈ s.started, t < s.slots.length
  nodup : (s.ready ++ s.iowait).Nodup
  slot : ∀ k, .slot k ∈ s.ready ++ s.iowait →
    ∃ t, s.slots[t]? = some k ∧ t ∉ s.started ∧ t ∉ busy ∧ s.threadarr k = some t
  waiting : ∀ t k, s.slots[t]? = some k → t ∉ s.started → t ∉ busy → .slot k ∈ s.ready
  distinct : ∀ t t' k, s.slots[t]? = some k → s.slots[t']? = some k → t ∉ s.started →
    t' ∉ s.started → t = t'
  frame : ∀ t c, .frame t c ∈ s.ready ++ s.iowait →
    s.saved t = some c ∧ t ∈ s.started ∧ t ∉ s.exited ∧ t ∉ s.returned
  running : ∀ t, s.running = some t →
    s.saved t = none ∧ t ∈ s.started ∧ t ∉ s.exited ∧ t ∉ s.returned
  exited : s.exited.Nodup ∧ ∀ t ∈ s.exited, t ∈ s.started
  returned : ∀ t ∈ s.returned, t ∈ s.started
  busy_lt : ∀ t ∈ busy, t < s.slots.length ∧ t ∉ s.started

section
variable {s : Core} {busy : Set Nat} {k t : Nat}

theorem Sound.init : Sound Core.init ∅ := by
  constructor <;> simp [Core.init]

theorem getElem?_slots_snoc {slots : List Nat} {k k' t : Nat}
    (h : (slots ++ [k])[t]? = some k') : slots[t]? = some k' ∨ t = slots.length ∧ k' = k := by
  rw [List.getElem?_append] at h
  split at h
  · exact Or.inl h
  · obtain ⟨hlt, heq⟩ := List.getElem?_eq_some_iff.mp h
    simp only [List.length_singleton] at hlt
    have h0 : t - slots.length = 0 := by omega
    simp only [h0, List.getElem_singleton] at heq
    exact Or.inr ⟨by omega, heq.symm⟩

theorem getElem?_slots_mono {slots : List Nat} {k k' t : Nat} (h : slots[t]? = some k') :
    (slots ++ [k])[t]? = some k' := by
  rw [List.getElem?_append_left (List.getElem?_eq_some_iff.mp h).1, h]

theorem Sound.not_started (h : Sound s busy) : s.slots.length ∉ s.started :=
  fun hmem => absurd (h.started_lt _ hmem) (by omega)

/-- A call of `sut_create` has taken a slot. -/
theorem Sound.getcontext (h : Sound s busy) (hfree : ¬ s.Waits k) :
    Sound (s.getcontext k) (insert s.slots.length busy) where
  started_nodup := h.started_nodup
  started_lt t ht := by
    have := h.started_lt t ht
    simp only [Core.getcontext, List.length_append, List.length_singleton]
    omega
  nodup := h.nodup
  slot k' hk' := by
    obtain ⟨t, hslot, hstart, hbusy, harr⟩ := h.slot k' hk'
    have hne : k' ≠ k := fun heq => hfree ⟨t, heq ▸ hslot, hstart⟩
    refine ⟨t, getElem?_slots_mono hslot, hstart, ?_, ?_⟩
    · have hlt := (List.getElem?_eq_some_iff.mp hslot).1
      simp only [Set.mem_insert_iff, hbusy, or_false]
      omega
    · simp only [Core.getcontext, Function.update_of_ne hne, harr]
  waiting t k' hslot hstart hbusy := by
    simp only [Set.mem_insert_iff, not_or] at hbusy
    rcases getElem?_slots_snoc hslot with hslot | ⟨rfl, -⟩
    · exact h.waiting t k' hslot hstart hbusy.2
    · exact absurd rfl hbusy.1
  distinct t t' k' h1 h2 hs1 hs2 := by
    rcases getElem?_slots_snoc h1 with h1 | ⟨rfl, rfl⟩ <;>
      rcases getElem?_slots_snoc h2 with h2 | ⟨rfl, heq⟩
    · exact h.distinct t t' k' h1 h2 hs1 hs2
    · exact absurd ⟨t, heq ▸ h1, hs1⟩ hfree
    · exact absurd ⟨t', h2, hs2⟩ hfree
    · rfl
  frame := h.frame
  running := h.running
  exited := h.exited
  returned := h.returned
  busy_lt t ht := by
    simp only [Core.getcontext, List.length_append, List.length_singleton]
    rcases Set.mem_insert_iff.mp ht with rfl | ht
    · exact ⟨by omega, h.not_started⟩
    · obtain ⟨hlt, hstart⟩ := h.busy_lt t ht
      exact ⟨by omega, hstart⟩

/-- No entry of the queue points to the slot of a task that is not in it. -/
theorem Sound.slot_not_mem (h : Sound s busy) (ht : t ∈ busy) (hk : s.slots[t]? = some k) :
    .slot k ∉ s.ready ++ s.iowait := by
  intro hmem
  obtain ⟨t', hslot, hstart, hbusy, -⟩ := h.slot k hmem
  exact hbusy (h.distinct t t' k hk hslot (h.busy_lt t ht).2 hstart ▸ ht)

/-- The slot gets the context of the task it was taken for. -/
theorem Sound.makecontext (h : Sound s busy) (ht : t ∈ busy) (hk : s.slots[t]? = some k) :
    Sound (s.makecontext k t) busy where
  started_nodup := h.started_nodup
  started_lt := h.started_lt
  nodup := h.nodup
  slot k' hk' := by
    obtain ⟨t', hslot, hstart, hbusy, harr⟩ := h.slot k' hk'
    have hne : k' ≠ k := fun heq => h.slot_not_mem ht hk (heq ▸ hk')
    refine ⟨t', hslot, hstart, hbusy, ?_⟩
    simp only [Core.makecontext, Function.update_of_ne hne, harr]
  waiting := h.waiting
  distinct := h.distinct
  frame := h.frame
  running := h.running
  exited := h.exited
  returned := h.returned
  busy_lt := h.busy_lt

theorem nodup_insert {ready iowait : List Ptr} {p : Ptr} (h : (ready ++ iowait).Nodup)
    (hp : p ∉ ready ++ iowait) : ((ready ++ [p]) ++ iowait).Nodup := by
  rw [List.append_assoc, List.singleton_append]
  exact List.nodup_middle.mpr (List.nodup_cons.mpr ⟨hp, h⟩)

/-- The task is in the queue. -/
theorem Sound.insert (h : Sound s busy) (ht : t ∈ busy) (hk : s.slots[t]? = some k)
    (harr : s.threadarr k = some t) : Sound (s.insert (.slot k)) (busy \ {t}) where
  started_nodup := h.started_nodup
  started_lt := h.started_lt
  nodup := nodup_insert h.nodup (h.slot_not_mem ht hk)
  slot k' hk' := by
    by_cases heq : k' = k
    · subst heq
      exact ⟨t, hk, (h.busy_lt t ht).2, by simp, harr⟩
    · have hold : .slot k' ∈ s.ready ++ s.iowait := by
        simpa [Core.insert, heq] using hk'
      obtain ⟨t', hslot, hstart, hbusy, harr'⟩ := h.slot k' hold
      exact ⟨t', hslot, hstart, fun hmem => hbusy hmem.1, harr'⟩
  waiting t' k' hslot hstart hbusy := by
    by_cases heq : t' = t
    · subst heq
      obtain rfl : k' = k := Option.some.inj (hslot.symm.trans hk)
      simp [Core.insert]
    · exact List.mem_append_left _ (h.waiting t' k' hslot hstart fun hmem => hbusy ⟨hmem, heq⟩)
  distinct := h.distinct
  frame t' c hmem := by
    have hold : .frame t' c ∈ s.ready ++ s.iowait := by
      simpa [Core.insert] using hmem
    exact h.frame t' c hold
  running := h.running
  exited := h.exited
  returned := h.returned
  busy_lt t' ht' := h.busy_lt t' ht'.1

theorem Sound.setNum (h : Sound s busy) (n : Int) : Sound { s with numthreads := n } busy :=
  ⟨h.started_nodup, h.started_lt, h.nodup, h.slot, h.waiting, h.distinct, h.frame, h.running,
    h.exited, h.returned, h.busy_lt⟩

/-- The whole call. -/
theorem Sound.create (h : Sound s busy) (hfree : ¬ s.Waits k) : Sound (s.create k) busy := by
  have hk : (s.getcontext k).slots[s.slots.length]? = some k := by simp [Core.getcontext]
  have hmem : s.slots.length ∈ Insert.insert s.slots.length busy := Set.mem_insert _ _
  have h1 := (h.getcontext hfree).makecontext hmem hk
  have h2 := h1.insert hmem hk (by simp [Core.makecontext])
  have hset : Insert.insert s.slots.length busy \ {s.slots.length} = busy := by
    ext t
    constructor
    · rintro ⟨heq | hin, hne⟩
      · exact absurd heq hne
      · exact hin
    · intro hin
      exact ⟨Or.inr hin, (Nat.ne_of_lt (h.busy_lt t hin).1)⟩
  rw [hset] at h2
  exact h2.setNum _

/-- A task is started from its slot. -/
theorem Sound.start {ready : List Ptr} (h : Sound s busy) (hready : s.ready = .slot k :: ready)
    (ht : s.threadarr k = some t) :
    Sound { s with
      ready := ready, running := some t, started := s.started ++ [t]
      saved := Function.update s.saved t none } busy := by
  have hnodup := h.nodup
  rw [hready, List.cons_append, List.nodup_cons] at hnodup
  have hold : ∀ p ∈ ready ++ s.iowait, p ∈ s.ready ++ s.iowait := fun p hp => by
    rw [hready, List.cons_append]
    exact List.mem_cons_of_mem _ hp
  obtain ⟨t', hslot, hstart, hbusy, harr⟩ := h.slot k (by simp [hready])
  obtain rfl : t = t' := Option.some.inj (ht.symm.trans harr)
  have hmem : ∀ u, u ∈ s.started ++ [t] ↔ u ∈ s.started ∨ u = t := by simp
  refine ⟨?_, ?_, hnodup.2, ?_, ?_, ?_, ?_, ?_, ?_, ?_, ?_⟩
  · exact List.nodup_append_comm.mp (List.nodup_cons.mpr ⟨hstart, h.started_nodup⟩)
  · intro u hu
    rcases (hmem u).mp hu with hu | rfl
    · exact h.started_lt u hu
    · exact (List.getElem?_eq_some_iff.mp hslot).1
  · intro k' hk'
    obtain ⟨u, hu, hns, hb, ha⟩ := h.slot k' (hold _ hk')
    refine ⟨u, hu, fun hin => ?_, hb, ha⟩
    rcases (hmem u).mp hin with hin | rfl
    · exact hns hin
    · obtain rfl : k' = k := Option.some.inj (hu.symm.trans hslot)
      exact hnodup.1 hk'
  · intro u k' hu hns hb
    have hu' : u ∉ s.started := fun hin => hns ((hmem u).mpr (Or.inl hin))
    have hin := h.waiting u k' hu hu' hb
    rw [hready] at hin
    rcases List.mem_cons.mp hin with heq | hin
    · cases heq
      exact absurd ((hmem u).mpr (Or.inr (h.distinct u t k hu hslot hu' hstart))) hns
    · exact hin
  · intro u u' k' h1 h2 hs1 hs2
    exact h.distinct u u' k' h1 h2 (fun hin => hs1 ((hmem u).mpr (Or.inl hin)))
      fun hin => hs2 ((hmem u').mpr (Or.inl hin))
  · intro u c hc
    obtain ⟨h1, h2, h3⟩ := h.frame u c (hold _ hc)
    have hne : u ≠ t := fun heq => hstart (heq ▸ h2)
    exact ⟨(Function.update_of_ne hne ..).trans h1, (hmem u).mpr (Or.inl h2), h3⟩
  · intro u hu
    cases hu
    exact ⟨Function.update_self .., (hmem t).mpr (Or.inr rfl),
      fun hin => hstart (h.exited.2 t hin), fun hin => hstart (h.returned t hin)⟩
  · exact ⟨h.exited.1, fun u hu => (hmem u).mpr (Or.inl (h.exited.2 u hu))⟩
  · exact fun u hu => (hmem u).mpr (Or.inl (h.returned u hu))
  · intro u hu
    obtain ⟨h1, h2⟩ := h.busy_lt u hu
    refine ⟨h1, fun hin => ?_⟩
    rcases (hmem u).mp hin with hin | rfl
    · exact h2 hin
    · exact hbusy hu

/-- A suspended task goes on. -/
theorem Sound.resume {c : Nat} {ready : List Ptr} (h : Sound s busy)
    (hready : s.ready = .frame t c :: ready) :
    Sound { s with
      ready := ready, running := some t, saved := Function.update s.saved t none } busy := by
  have hnodup := h.nodup
  rw [hready, List.cons_append, List.nodup_cons] at hnodup
  have hold : ∀ p ∈ ready ++ s.iowait, p ∈ s.ready ++ s.iowait := fun p hp => by
    rw [hready, List.cons_append]
    exact List.mem_cons_of_mem _ hp
  obtain ⟨hsaved, hlive⟩ := h.frame t c (by simp [hready])
  refine ⟨h.started_nodup, h.started_lt, hnodup.2, fun k hk => h.slot k (hold _ hk), ?_,
    h.distinct, ?_, ?_, h.exited, h.returned, h.busy_lt⟩
  · intro u k hu hns hb
    have hin := h.waiting u k hu hns hb
    rw [hready] at hin
    rcases List.mem_cons.mp hin with heq | hin
    · cases heq
    · exact hin
  · intro u c' hc
    obtain ⟨h1, h2⟩ := h.frame u c' (hold _ hc)
    have hne : u ≠ t := by
      rintro rfl
      obtain rfl : c = c' := Option.some.inj (hsaved.symm.trans h1)
      exact hnodup.1 hc
    exact ⟨(Function.update_of_ne hne ..).trans h1, h2⟩
  · intro u hu
    cases hu
    exact ⟨Function.update_self .., hlive⟩

/-- The head of the queue is started or resumed. -/
theorem Sound.dispatch {s' : Core} (h : Sound s busy) (hs : s.dispatch = some s') :
    Sound s' busy := by
  unfold Core.dispatch at hs
  split at hs
  · cases hs
    exact h
  · obtain ⟨t, ht, rfl⟩ := Option.map_eq_some_iff.mp hs
    exact h.start ‹_› ht
  · split at hs
    · cases hs
      exact h.resume ‹_›
    · cases hs

/-- The running task is suspended, and its frame is in one of the queues. -/
theorem Sound.suspend (h : Sound s busy) (hrun : s.running = some t) {ready iowait : List Ptr}
    (hq : ready = s.ready ++ [.frame t s.calls] ∧ iowait = s.iowait ∨
      ready = s.ready ∧ iowait = s.iowait ++ [.frame t s.calls]) :
    Sound { s.suspend t with ready := ready, iowait := iowait } busy := by
  obtain ⟨hsaved, hstart, hexit, hret⟩ := h.running t hrun
  have hmem : ∀ p, p ∈ ready ++ iowait ↔ p ∈ s.ready ++ s.iowait ∨ p = .frame t s.calls := by
    intro p
    rcases hq with ⟨rfl, rfl⟩ | ⟨rfl, rfl⟩ <;> simp <;> tauto
  have hnew : ∀ c, .frame t c ∉ s.ready ++ s.iowait := by
    intro c hc
    rw [(h.frame t c hc).1] at hsaved
    cases hsaved
  refine ⟨h.started_nodup, h.started_lt, ?_, ?_, ?_, h.distinct, ?_, ?_, h.exited, h.returned,
    h.busy_lt⟩
  · rcases hq with ⟨rfl, rfl⟩ | ⟨rfl, rfl⟩
    · exact nodup_insert h.nodup (hnew _)
    · simp only [← List.append_assoc]
      exact List.nodup_append_comm.mp (List.nodup_cons.mpr ⟨hnew _, h.nodup⟩)
  · intro k hk
    rcases (hmem _).mp hk with hk | hk
    · exact h.slot k hk
    · cases hk
  · intro t' k hslot hns hbusy
    have hold := h.waiting t' k hslot hns hbusy
    rcases hq with ⟨rfl, -⟩ | ⟨rfl, -⟩
    · exact List.mem_append_left _ hold
    · exact hold
  · intro t' c hc
    rcases (hmem _).mp hc with hc | hc
    · have hne : t' ≠ t := fun heq => hnew c (heq ▸ hc)
      simpa [Core.suspend, Function.update_of_ne hne] using h.frame t' c hc
    · cases hc
      simp [Core.suspend, hstart, hexit, hret]
  · intro t' ht'
    cases ht'

theorem Sound.yield (h : Sound s busy) (hrun : s.running = some t) : Sound (s.yield t) busy :=
  h.suspend hrun (Or.inl ⟨rfl, rfl⟩)

theorem Sound.block (h : Sound s busy) (hrun : s.running = some t) : Sound (s.block t) busy :=
  h.suspend hrun (Or.inr ⟨rfl, rfl⟩)

theorem Sound.wake (h : Sound s busy) : Sound s.wake busy := by
  unfold Core.wake
  split
  · exact h
  · rename_i p rest hio
    have heq : s.ready ++ [p] ++ rest = s.ready ++ s.iowait := by simp [hio]
    refine ⟨h.started_nodup, h.started_lt, heq ▸ h.nodup, heq ▸ h.slot, ?_, h.distinct,
      heq ▸ h.frame, h.running, h.exited, h.returned, h.busy_lt⟩
    intro t k hslot hns hb
    exact List.mem_append_left _ (h.waiting t k hslot hns hb)

/-- A task that is suspended is not the running one. -/
theorem Sound.frame_ne {u c : Nat} (h : Sound s busy) (hrun : s.running = some t)
    (hu : .frame u c ∈ s.ready ++ s.iowait) : u ≠ t := by
  rintro rfl
  have h1 := (h.running u hrun).1
  rw [(h.frame u c hu).1] at h1
  cases h1

theorem Sound.exit (h : Sound s busy) (hrun : s.running = some t) : Sound (s.exit t) busy := by
  obtain ⟨-, hstart, hexit, -⟩ := h.running t hrun
  refine ⟨h.started_nodup, h.started_lt, h.nodup, h.slot, h.waiting, h.distinct, ?_, ?_, ?_,
    h.returned, h.busy_lt⟩
  · intro u c hu
    have hne := h.frame_ne hrun hu
    obtain ⟨h1, h2, h3, h4⟩ := h.frame u c hu
    exact ⟨h1, h2, by simp [Core.exit, h3, hne], h4⟩
  · intro u hu
    cases hu
  · refine ⟨List.nodup_append_comm.mp (List.nodup_cons.mpr ⟨hexit, h.exited.1⟩), ?_⟩
    intro u hu
    rcases List.mem_append.mp hu with hu | hu
    · exact h.exited.2 u hu
    · exact List.mem_singleton.mp hu ▸ hstart

theorem Sound.ret (h : Sound s busy) (hrun : s.running = some t) : Sound (s.ret t) busy := by
  obtain ⟨-, hstart, -, -⟩ := h.running t hrun
  refine ⟨h.started_nodup, h.started_lt, h.nodup, h.slot, h.waiting, h.distinct, ?_, ?_, h.exited,
    ?_, h.busy_lt⟩
  · intro u c hu
    have hne := h.frame_ne hrun hu
    obtain ⟨h1, h2, h3, h4⟩ := h.frame u c hu
    exact ⟨h1, h2, h3, by simp [Core.ret, h4, hne]⟩
  · intro u hu
    cases hu
  · intro u hu
    rcases List.mem_append.mp hu with hu | hu
    · exact h.returned u hu
    · exact List.mem_singleton.mp hu ▸ hstart

end

end sut
