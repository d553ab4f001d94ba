-- Which slot `sut_create` takes. The counter of live tasks is the index of
-- the next slot, so the order of creations and exits decides whether the
-- slot is free. The calls are atomic, and one executor runs the tasks.
import SysNet.Sut.Tasks

namespace sut

open runs

/-! ## The calls and the executor -/

structure State where
  core : Core
  /-- how often `sut_exit` was called before each task was created -/
  born : List Nat
  /-- `Cexec` has returned -/
  stopped : Bool
  /-- a slot outside of the array was written -/
  fault : Bool

def State.init : State := { core := .init, born := [], stopped := false, fault := false }

inductive Call
  /-- `sut_create`, by the main thread or by the running task -/
  | create
  /-- one turn of the loop of `Cexec` -/
  | dispatch
  /-- the loop of `Cexec` ends -/
  | stop
  | yield
  | exit
  /-- the function of the running task returns -/
  | ret
deriving DecidableEq, Repr

def State.step (s : State) (c : Call) : Option State :=
  if s.fault then none
  else
    match c with
    | .create =>
      if s.core.inRange then
        some { s with
          core := s.core.create s.core.numthreads.toNat
          born := s.born ++ [s.core.exited.length] }
      else some { s with fault := true }
    | .dispatch =>
      if s.stopped = false ∧ s.core.running = none ∧ s.core.numthreads ≠ 0 then
        s.core.dispatch.map fun core => { s with core := core }
      else none
    | .stop =>
      if s.core.running = none ∧ s.core.numthreads = 0 then some { s with stopped := true }
      else none
    | .yield => s.core.running.map fun t => { s with core := s.core.yield t }
    | .exit => s.core.running.map fun t => { s with core := s.core.exit t }
    | .ret => s.core.running.map fun t => { s with core := s.core.ret t }

/-- What a step does to the tasks. -/
inductive Core.Moved (s : Core) : Core → Prop
  | dispatch {s'} : s.dispatch = some s' → Moved s s'
  | yield {t} : s.running = some t → Moved s (s.yield t)
  | exit {t} : s.running = some t → Moved s (s.exit t)
  | ret {t} : s.running = some t → Moved s (s.ret t)
  | same : Moved s s

theorem State.step_cases {s s' : State} {c : Call} (h : s.step c = some s') :
    c = .create ∧ s.core.inRange = true ∧
        s' = { s with
          core := s.core.create s.core.numthreads.toNat
          born := s.born ++ [s.core.exited.length] } ∨
      c = .create ∧ s.core.inRange = false ∧ s'.core = s.core ∧ s'.born = s.born ∨
      c ≠ .create ∧ s.core.Moved s'.core ∧ s'.born = s.born := by
  unfold State.step at h
  split at h
  · cases h
  · cases c with
    | create =>
      simp only at h
      split at h
      · cases h
        exact Or.inl ⟨rfl, ‹_›, rfl⟩
      · cases h
        exact Or.inr (Or.inl ⟨rfl, Bool.not_eq_true _ ▸ ‹¬ s.core.inRange = true›, rfl, rfl⟩)
    | dispatch =>
      simp only at h
      split at h
      · obtain ⟨core, hcore, rfl⟩ := Option.map_eq_some_iff.mp h
        exact Or.inr (Or.inr ⟨by simp, .dispatch hcore, rfl⟩)
      · cases h
    | stop =>
      simp only at h
      split at h
      · cases h
        exact Or.inr (Or.inr ⟨by simp, .same, rfl⟩)
      · cases h
    | yield =>
      obtain ⟨t, ht, rfl⟩ := Option.map_eq_some_iff.mp h
      exact Or.inr (Or.inr ⟨by simp, .yield ht, rfl⟩)
    | exit =>
      obtain ⟨t, ht, rfl⟩ := Option.map_eq_some_iff.mp h
      exact Or.inr (Or.inr ⟨by simp, .exit ht, rfl⟩)
    | ret =>
      obtain ⟨t, ht, rfl⟩ := Option.map_eq_some_iff.mp h
      exact Or.inr (Or.inr ⟨by simp, .ret ht, rfl⟩)

/-! ## The slot of a task -/

/-- `sut_create` takes a slot of the array that belongs to no live task. -/
def writesFree (s : State) : Call → Prop
  | .create => s.core.inRange = true ∧
      ∀ t, s.core.Live t → s.core.slots[t]? ≠ some s.core.numthreads.toNat
  | _ => True

/-- When `sut_create` is called, there were fewer than 32 more calls of it than
of `sut_exit`; and for every live task the calls of `sut_create` from its own on
are not as many as the calls of `sut_exit` since then. -/
def counted (s : State) : Call → Prop
  | .create => s.core.exited.length ≤ s.core.slots.length ∧
      s.core.slots.length - s.core.exited.length < MAX_THREADS ∧
      ∀ t e, s.core.Live t → s.born[t]? = some e →
        s.core.slots.length - t ≠ s.core.exited.length - e
  | _ => True

/-- The counter is the number of creations less the number of exits. -/
structure Counts (s : State) : Prop where
  num : s.core.numthreads = s.core.slots.length - s.core.exited.length
  length : s.born.length = s.core.slots.length
  slot : ∀ t k e : Nat, s.core.slots[t]? = some k → s.born[t]? = some e → k + e = t
  born_le : ∀ e ∈ s.born, e ≤ s.core.exited.length

section
variable {s s' : State} {c : Call}

theorem Core.Moved.counts {s s' : Core} (h : s.Moved s') :
    s'.slots = s.slots ∧ s.exited.length ≤ s'.exited.length ∧
      s'.numthreads + s'.exited.length = s.numthreads + s.exited.length := by
  cases h with
  | dispatch hd =>
    unfold Core.dispatch at hd
    split at hd
    · cases hd
      simp
    · obtain ⟨t, -, rfl⟩ := Option.map_eq_some_iff.mp hd
      simp
    · split at hd
      · cases hd
        simp
      · cases hd
  | yield => simp [Core.yield, Core.suspend, Core.insert]
  | exit =>
    simp only [Core.exit, List.length_append, List.length_singleton]
    refine ⟨trivial, by omega, ?_⟩
    push_cast
    omega
  | ret => simp [Core.ret]
  | same => simp

theorem Counts.init : Counts State.init := by
  constructor <;> simp [State.init, Core.init]

theorem Counts.step (h : Counts s) (hs : s.step c = some s') : Counts s' := by
  rcases State.step_cases hs with ⟨-, hrange, rfl⟩ | ⟨-, -, hcore, hborn⟩ | ⟨-, hmoved, hborn⟩
  · have hnum := h.num
    simp only [Core.inRange, Bool.and_eq_true, decide_eq_true_eq] at hrange
    refine ⟨?_, ?_, ?_, ?_⟩
    · simp only [Core.create, Core.insert, Core.makecontext, Core.getcontext, List.length_append,
        List.length_singleton]
      omega
    · simp [Core.create, Core.insert, Core.makecontext, Core.getcontext, h.length]
    · intro t k e hk he
      rcases getElem?_slots_snoc hk with hk | ⟨rfl, rfl⟩
      · rcases getElem?_slots_snoc he with he | ⟨hlen, -⟩
        · exact h.slot t k e hk he
        · have hlt := (List.getElem?_eq_some_iff.mp hk).1
          have := h.length
          omega
      · rcases getElem?_slots_snoc he with he | ⟨-, rfl⟩
        · have hlt := (List.getElem?_eq_some_iff.mp he).1
          have := h.length
          omega
        · omega
    · intro e he
      rcases List.mem_append.mp he with he | he
      · exact h.born_le e he
      · exact Nat.le_of_eq (List.mem_singleton.mp he)
  · exact ⟨hcore ▸ h.num, by rw [hborn, hcore, h.length], by rw [hborn, hcore]; exact h.slot,
      by rw [hborn, hcore]; exact h.born_le⟩
  · obtain ⟨hslots, hexit, hsum⟩ := hmoved.counts
    have hnum := h.num
    refine ⟨?_, by rw [hborn, hslots, h.length], by rw [hborn, hslots]; exact h.slot, ?_⟩
    · rw [hslots]
      omega
    · intro e he
      have := h.born_le e (hborn ▸ he)
      omega

/-- The next task would get the slot of a task exactly when the counts since its
creation are equal. -/
theorem Counts.slot_eq_iff {t e : Nat} (h : Counts s) (hle : s.core.exited.length ≤ s.core.slots.length)
    (ht : t < s.core.slots.length) (he : s.born[t]? = some e) :
    s.core.slots[t]? = some s.core.numthreads.toNat ↔
      s.core.slots.length - t = s.core.exited.length - e := by
  have hnum := h.num
  have hslot := h.slot t _ e (List.getElem?_eq_getElem ht) he
  have hborn := h.born_le e (List.mem_of_getElem? he)
  rw [List.getElem?_eq_getElem ht, Option.some.injEq]
  omega

/-- The slot is free exactly when the counts say so. -/
theorem writesFree_iff (h : Counts s) : writesFree s c ↔ counted s c := by
  cases c with
  | create =>
    have hnum := h.num
    simp only [writesFree, counted, Core.inRange, Bool.and_eq_true, decide_eq_true_eq]
    constructor
    · rintro ⟨⟨h0, h1⟩, hfree⟩
      refine ⟨by omega, by omega, fun t e hlive he heq => ?_⟩
      exact hfree t hlive ((h.slot_eq_iff (by omega) hlive.1 he).mpr heq)
    · rintro ⟨hle, hlt, hfree⟩
      refine ⟨⟨by omega, by omega⟩, fun t hlive heq => ?_⟩
      have hb : t < s.born.length := h.length ▸ hlive.1
      have he := List.getElem?_eq_getElem hb
      exact hfree t _ hlive he ((h.slot_eq_iff hle hlive.1 he).mp heq)
  | _ => exact Iff.rfl

theorem Core.Moved.sound {s s' : Core} (hm : s.Moved s') (h : Sound s ∅) : Sound s' ∅ := by
  cases hm with
  | dispatch hd => exact h.dispatch hd
  | yield ht => exact h.yield ht
  | exit ht => exact h.exit ht
  | ret ht => exact h.ret ht
  | same => exact h

/-- A slot that belongs to no live task belongs to no waiting one. -/
theorem sound_step (h : Sound s.core ∅) (hok : writesFree s c) (hs : s.step c = some s') :
    Sound s'.core ∅ := by
  rcases State.step_cases hs with ⟨rfl, -, rfl⟩ | ⟨-, -, hcore, -⟩ | ⟨-, hmoved, -⟩
  · refine h.create ?_
    rintro ⟨t, ht, hstart⟩
    have hlive : s.core.Live t := ⟨(List.getElem?_eq_some_iff.mp ht).1,
      fun hin => hstart (h.exited.2 t hin), fun hin => hstart (h.returned t hin)⟩
    exact hok.2 t hlive ht
  · exact hcore ▸ h
  · exact hmoved.sound h

end

/-! ## The result -/

/-- The pointer leads to the start of the task. -/
def Core.starts (s : Core) (t : Nat) : Ptr → Bool
  | .slot k => s.threadarr k = some t
  | .frame _ _ => false

/-- Every task was started once, or waits once in the queue. -/
def StartedOnce (s : Core) : Prop :=
  ∀ t < s.slots.length, s.started.count t = 1 ∧ s.ready.countP (s.starts t) = 0 ∨
    s.started.count t = 0 ∧ s.ready.countP (s.starts t) = 1

/-- Every suspended task is live, and the one pointer to it leads to the
context that its own call saved. -/
def ResumesOwn (s : Core) : Prop :=
  ∀ t c, .frame t c ∈ s.ready → s.saved t = some c ∧ s.Live t ∧ s.ready.count (.frame t c) = 1

theorem Sound.startedOnce {s : Core} (h : Sound s ∅) : StartedOnce s := by
  intro t ht
  have hnodup : s.ready.Nodup := (List.nodup_append.mp h.nodup).1
  have hleads : ∀ k, .slot k ∈ s.ready → s.threadarr k = some t →
      s.slots[t]? = some k ∧ t ∉ s.started := by
    intro k hk hkt
    obtain ⟨t', hslot, hstart, -, harr⟩ := h.slot k (List.mem_append_left _ hk)
    obtain rfl : t = t' := Option.some.inj (hkt.symm.trans harr)
    exact ⟨hslot, hstart⟩
  by_cases hstart : t ∈ s.started
  · refine Or.inl ⟨List.count_eq_one_of_mem h.started_nodup hstart, List.countP_eq_zero.mpr ?_⟩
    intro p hp hlead
    cases p with
    | slot k => exact (hleads k hp (by simpa [Core.starts] using hlead)).2 hstart
    | frame => simp [Core.starts] at hlead
  · refine Or.inr ⟨List.count_eq_zero_of_not_mem hstart, ?_⟩
    have hslot := List.getElem?_eq_getElem ht
    have hmem := h.waiting t _ hslot hstart (by simp)
    obtain ⟨t', hslot', hstart', -, harr⟩ := h.slot _ (List.mem_append_left _ hmem)
    obtain rfl := h.distinct t t' _ hslot hslot' hstart hstart'
    rw [← List.count_eq_one_of_mem hnodup hmem]
    refine List.countP_congr fun p hp => ?_
    cases p with
    | slot k =>
      simp only [Core.starts, decide_eq_true_eq, beq_iff_eq, Ptr.slot.injEq]
      constructor
      · intro hk
        exact Option.some.inj ((hleads k hp hk).1.symm.trans hslot)
      · rintro rfl
        exact harr
    | frame => simp [Core.starts]

theorem Sound.resumesOwn {s : Core} (h : Sound s ∅) : ResumesOwn s := by
  intro t c hmem
  obtain ⟨h1, h2, h3⟩ := h.frame t c (List.mem_append_left _ hmem)
  exact ⟨h1, ⟨h.started_lt t h2, h3⟩,
    List.count_eq_one_of_mem (List.nodup_append.mp h.nodup).1 hmem⟩

/-- Every call of `sut_create` in a run took a free slot of the array, every
task was started once or waits once, and every suspended task will go on from
its own context: this is so exactly when the counts are right at every call of
`sut_create`. -/
theorem tasks_keep_their_slots_iff (as : List Call) (s : State) :
    (Run State.step writesFree .init as s ∧ StartedOnce s.core ∧ ResumesOwn s.core) ↔
      Run State.step counted .init as s := by
  have hcounts : ∀ {ok : State → Call → Prop} {as : List Call} {s : State},
      Run State.step ok .init as s → Counts s := fun hrun =>
    hrun.invariant Counts.init fun _ _ _ h _ hs => h.step hs
  constructor
  · rintro ⟨hrun, -⟩
    induction hrun with
    | nil => exact .nil
    | snoc hrun hok hs ih => exact .snoc ih ((writesFree_iff (hcounts hrun)).mp hok) hs
  · intro hrun
    have hfree : Run State.step writesFree .init as s := by
      induction hrun with
      | nil => exact .nil
      | snoc hrun hok hs ih => exact .snoc ih ((writesFree_iff (hcounts hrun)).mpr hok) hs
    have hsound : Sound s.core ∅ := hfree.invariant (P := fun s => Sound s.core ∅) Sound.init
      fun _ _ _ h hok hs => sound_step h hok hs
    exact ⟨hfree, hsound.startedOnce, hsound.resumesOwn⟩

/-- A task exits while a later one waits: the next task takes the slot of the
waiting one, is started twice, and the waiting one never. -/
theorem a_waiting_task_is_overwritten : ¬ ∀ as s, Run State.step anyStep .init as s →
    Run State.step writesFree .init as s ∧ StartedOnce s.core ∧ ResumesOwn s.core := by
  intro h
  have hrun : (exec State.step anyStep .init [.create, .create, .dispatch, .exit, .create,
      .dispatch, .exit, .dispatch]).any
      (fun s => s.core.slots.length = 3 && s.core.started.count 2 = 2 &&
        s.core.started.count 1 = 0) = true := by
    decide +kernel
  obtain ⟨s, hs, hbad⟩ := (Option.any_eq_true _ _).mp hrun
  simp only [Bool.and_eq_true, decide_eq_true_eq] at hbad
  rcases (h _ s (run_of_exec hs)).2.1 2 (by omega) with ⟨h1, -⟩ | ⟨h1, -⟩ <;> omega

end sut
