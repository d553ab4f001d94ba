-- The room in the log. `begin_op` keeps a place for every block that the
-- operations it lets in may still log, so the log has room for every block
-- that is new to it. A block that is in the full log already is refused too.
import SysNet.Xv6.CrashAtomicity
import SysNet.Lib.Runs
import Mathlib.Algebra.Order.BigOperators.Group.List
import Mathlib.Algebra.GroupWithZero.Nat
import Mathlib.Algebra.Order.Group.Nat
import Mathlib.Data.List.Dedup

open runs

namespace xv6.log

variable {start : Nat} {s s' : State}

/-! ## What the operations promise -/

/-- The recovery is done, the log is empty, and no operation is under way. -/
def State.ready (disk : Nat → Block) (bcache : Nat → Buf) : State :=
  { State.down disk with bcache, pc := .idle }

/-- No crash, and an operation logs `MAXOPBLOCKS` blocks at most. It may log each of them
as often as it likes. -/
def withinBudget (s : State) : Step → Prop
  | .call (.log_write p b) => (b :: s.logged p).dedup.length ≤ MAXOPBLOCKS
  | .crash | .initlog => False
  | _ => True

instance (s : State) (a : Step) : Decidable (withinBudget s a) := by
  unfold withinBudget
  split <;> infer_instance

/-- The step logs a block once more that is in the log, and the log is full. -/
def relogsWhenFull (s : State) : Step → Prop
  | .call (.log_write _ b) => b ∈ s.lh ∧ s.lh.length = LOGBLOCKS
  | _ => False

instance (s : State) (a : Step) : Decidable (relogsWhenFull s a) := by
  unfold relogsWhenFull
  split <;> infer_instance

/-! ## The places that are kept -/

/-- The blocks that the operation of the process may still log. -/
def State.reserve (s : State) (p : Nat) : Nat := MAXOPBLOCKS - (s.logged p).dedup.length

structure Reserved (s : State) : Prop where
  nodup : s.ops.Nodup
  outstanding : s.outstanding = s.ops.length
  logged : ∀ p, s.logged p ⊆ s.lh
  quiet : s.pc ≠ .idle → s.ops = [] ∧ s.committing = true
  absent : ∀ p, p ∉ s.ops → s.logged p = []
  room : s.lh.length + (s.ops.map s.reserve).sum ≤ LOGBLOCKS

theorem Reserved.ready (disk : Nat → Block) (bcache : Nat → Buf) :
    Reserved (State.ready disk bcache) where
  nodup := List.nodup_nil
  outstanding := rfl
  logged _ := List.nil_subset _
  quiet h := absurd rfl h
  absent _ _ := rfl
  room := Nat.zero_le _

/-- A change that leaves the log and the operations alone keeps the places. -/
theorem Reserved.of_eq (h : Reserved s) (hops : s'.ops = s.ops) (hlh : s'.lh = s.lh)
    (hlogged : s'.logged = s.logged) (hout : s'.outstanding = s.outstanding)
    (hquiet : s'.pc ≠ .idle → s'.ops = [] ∧ s'.committing = true) : Reserved s' where
  nodup := hops ▸ h.nodup
  outstanding := by rw [hout, hops, h.outstanding]
  logged := by rw [hlogged, hlh]; exact h.logged
  quiet := hquiet
  absent := by rw [hlogged, hops]; exact h.absent
  room := by
    have hreserve : s'.reserve = s.reserve := by
      funext p
      unfold State.reserve
      rw [hlogged]
    rw [hlh, hops, hreserve]
    exact h.room

theorem reserve_le (s : State) (p : Nat) : s.reserve p ≤ MAXOPBLOCKS := Nat.sub_le _ _

/-- The sum over the operations when one of them is taken out. -/
theorem sum_reserve_erase {ops : List Nat} {p : Nat} (f : Nat → Nat) (hp : p ∈ ops) :
    (ops.map f).sum = f p + ((ops.erase p).map f).sum := by
  rw [((List.perm_cons_erase hp).map f).sum_eq]
  simp

theorem sum_map_congr {ops : List Nat} {f g : Nat → Nat} (h : ∀ q ∈ ops, f q = g q) :
    (ops.map f).sum = (ops.map g).sum := by
  rw [List.map_congr_left h]

/-! ## One step -/

theorem Reserved.begin_op {p : Nat} (h : Reserved s) (hs : s.begin_op p = some s') :
    Reserved s' := by
  unfold State.begin_op at hs
  split at hs
  · rename_i hp
    split at hs
    · cases hs
    · rename_i hcommit
      split at hs
      · cases hs
      · rename_i hroom
        cases hs
        have hpc : s.pc = .idle := by
          by_contra hpc
          exact hcommit (h.quiet hpc).2
        refine ⟨List.nodup_cons.mpr ⟨hp.2, h.nodup⟩, ?_, h.logged, fun hne => absurd hpc hne,
          fun q hq => h.absent q fun hin => hq (List.mem_cons_of_mem _ hin), ?_⟩
        · simp [h.outstanding]
        -- every operation under way may still log `MAXOPBLOCKS` blocks at most
        have hsum : ((p :: s.ops).map s.reserve).sum ≤ (p :: s.ops).length * MAXOPBLOCKS := by
          have := List.sum_le_card_nsmul ((p :: s.ops).map s.reserve) MAXOPBLOCKS (by
            intro x hx
            obtain ⟨q, -, rfl⟩ := List.mem_map.mp hx
            exact reserve_le s q)
          simpa using this
        rw [h.outstanding] at hroom
        rw [List.length_cons] at hsum
        change s.lh.length + ((p :: s.ops).map s.reserve).sum ≤ LOGBLOCKS
        omega
  · cases hs

theorem Reserved.end_op {p : Nat} (h : Reserved s) (hs : s.end_op p = some s') : Reserved s' := by
  unfold State.end_op at hs
  split at hs
  · rename_i hp
    obtain ⟨-, hin, -⟩ := hp
    have hpc : s.pc = .idle := by
      by_contra hpc
      rw [(h.quiet hpc).1] at hin
      cases hin
    have hbase : Reserved { s with
        outstanding := s.outstanding - 1, ops := s.ops.erase p
        modified := Function.update s.modified p []
        logged := Function.update s.logged p [] } := by
      refine ⟨h.nodup.erase p, ?_, fun q => ?_, fun hne => absurd hpc hne, fun q hq => ?_, ?_⟩
      · change s.outstanding - 1 = (s.ops.erase p).length
        rw [h.outstanding, List.length_erase_of_mem hin]
      · by_cases hqp : q = p
        · subst hqp
          simp
        · simpa [hqp] using h.logged q
      · by_cases hqp : q = p
        · subst hqp
          simp
        · simp only [Function.update_of_ne hqp]
          exact h.absent q fun hin => hq ((List.mem_erase_of_ne hqp).mpr hin)
      · have hsum := sum_reserve_erase s.reserve hin
        have hroom := h.room
        have hsame : ((s.ops.erase p).map (State.reserve { s with
            outstanding := s.outstanding - 1, ops := s.ops.erase p
            modified := Function.update s.modified p []
            logged := Function.update s.logged p [] })).sum =
            ((s.ops.erase p).map s.reserve).sum := by
          refine sum_map_congr fun q hq => ?_
          have hqp : q ≠ p := by
            rintro rfl
            exact h.nodup.not_mem_erase hq
          simp [State.reserve, hqp]
        change s.lh.length + _ ≤ LOGBLOCKS
        rw [hsame]
        omega
    simp only at hs
    split at hs
    · cases hs
      exact hbase.of_eq rfl rfl rfl rfl hbase.quiet
    · split at hs
      · rename_i hzero
        cases hs
        refine hbase.of_eq rfl rfl rfl rfl fun _ => ⟨?_, rfl⟩
        have hlen := hbase.outstanding
        exact List.eq_nil_of_length_eq_zero (hlen.symm.trans hzero)
      · cases hs
        exact hbase
  · cases hs

/-- An operation that logs a block which is new to the log has a place left. -/
theorem Reserved.lt_of_new {p b : Nat} (h : Reserved s) (hin : p ∈ s.ops) (hb : b ∉ s.lh)
    (hfits : (b :: s.logged p).dedup.length ≤ MAXOPBLOCKS) : s.lh.length < LOGBLOCKS := by
  have hnew : b ∉ s.logged p := fun hlog => hb (h.logged p hlog)
  rw [List.dedup_cons_of_notMem hnew, List.length_cons] at hfits
  have hplace : 0 < s.reserve p := Nat.sub_pos_of_lt hfits
  have hsum := sum_reserve_erase s.reserve hin
  have hroom := h.room
  omega

/-- The places after a call of `log_write` that took none or the one of a new block. -/
theorem Reserved.logged_more {p b : Nat} (h : Reserved s) (hin : p ∈ s.ops)
    (hlogged : s'.logged = Function.update s.logged p (b :: s.logged p))
    (hops : s'.ops = s.ops) (hout : s'.outstanding = s.outstanding) (hpc : s'.pc = s.pc)
    (hsub : s.lh ⊆ s'.lh) (hmem : b ∈ s'.lh)
    (hplace : s'.lh.length + s'.reserve p ≤ s.lh.length + s.reserve p) : Reserved s' where
  nodup := hops ▸ h.nodup
  outstanding := by rw [hout, hops, h.outstanding]
  logged := by
    intro q
    rw [hlogged]
    by_cases hqp : q = p
    · subst hqp
      rw [Function.update_self]
      exact List.cons_subset.mpr ⟨hmem, fun c hc => hsub (h.logged q hc)⟩
    · rw [Function.update_of_ne hqp]
      exact fun c hc => hsub (h.logged q hc)
  quiet hne := by
    rw [hpc] at hne
    rw [(h.quiet hne).1] at hin
    cases hin
  absent q hq := by
    rw [hops] at hq
    have hqp : q ≠ p := fun heq => hq (heq ▸ hin)
    rw [hlogged, Function.update_of_ne hqp]
    exact h.absent q hq
  room := by
    have hothers : ((s.ops.erase p).map s'.reserve).sum = ((s.ops.erase p).map s.reserve).sum := by
      refine sum_map_congr fun q hq => ?_
      have hqp : q ≠ p := by
        rintro rfl
        exact h.nodup.not_mem_erase hq
      unfold State.reserve
      rw [hlogged, Function.update_of_ne hqp]
    have hsum := sum_reserve_erase s.reserve hin
    have hsum' := sum_reserve_erase s'.reserve hin
    have hroom := h.room
    rw [hops]
    omega

/-- A call of `log_write` that keeps within the budget goes wrong only when it logs a block
once more that is in the full log. -/
theorem Reserved.log_write {p b : Nat} (h : Reserved s)
    (hfits : (b :: s.logged p).dedup.length ≤ MAXOPBLOCKS) (hs : s.log_write start p b = some s') :
    Reserved s' ∧ (s'.panicked = some .tooBig ↔ relogsWhenFull s (.call (.log_write p b))) := by
  unfold State.log_write at hs
  split at hs
  · rename_i hguard
    obtain ⟨hok, hin, -, -⟩ := hguard
    split at hs
    · rename_i hfull
      cases hs
      refine ⟨h.of_eq rfl rfl rfl rfl h.quiet, iff_of_true rfl ?_⟩
      have hroom := h.room
      refine ⟨?_, by omega⟩
      by_contra hb
      exact absurd (h.lt_of_new hin hb hfits) (by omega)
    · rename_i hfull
      have hrelog : ¬ relogsWhenFull s (.call (.log_write p b)) := by
        rintro ⟨-, hlen⟩
        omega
      split at hs
      · rename_i hout
        rw [h.outstanding] at hout
        have hpos : 0 < s.ops.length := List.length_pos_of_mem hin
        omega
      · simp only at hs
        split at hs
        · rename_i hb
          cases hs
          refine ⟨h.logged_more hin rfl rfl rfl rfl (List.Subset.refl _) hb ?_,
            iff_of_false (by simp [hok]) hrelog⟩
          have hle : (s.logged p).dedup.length ≤ (b :: s.logged p).dedup.length := by
            by_cases hold : b ∈ s.logged p
            · rw [List.dedup_cons_of_mem hold]
            · rw [List.dedup_cons_of_notMem hold, List.length_cons]
              exact Nat.le_succ _
          simp only [State.reserve, Function.update_self]
          omega
        · rename_i hb
          cases hs
          have hnew : b ∉ s.logged p := fun hlog => hb (h.logged p hlog)
          refine ⟨h.logged_more hin rfl rfl rfl rfl (List.subset_append_left _ _) (by simp) ?_,
            iff_of_false (by simp [State.bpin, hok]) hrelog⟩
          rw [List.dedup_cons_of_notMem hnew, List.length_cons] at hfits
          simp only [State.reserve, State.bpin, Function.update_self, List.length_append,
            List.length_nil, List.dedup_cons_of_notMem hnew, List.length_cons]
          omega
  · cases hs

/-- A step of the commit leaves the operations alone, and the log as it is or empty. -/
structure CommitStep (s s' : State) : Prop where
  ops : s'.ops = s.ops
  logged : s'.logged = s.logged
  outstanding : s'.outstanding = s.outstanding
  panicked : s'.panicked = s.panicked
  lh : s'.lh = s.lh ∨ s'.lh = []
  busy : s.pc ≠ .idle
  committing : s'.pc = .idle ∨ s'.committing = s.committing

theorem proceed_commitStep (hs : s.proceed start = some s') : CommitStep s s' := by
  unfold State.proceed at hs
  split at hs
  · cases hs
  · cases hs
  · rename_i hpc
    cases hs
    exact ⟨rfl, rfl, rfl, rfl, Or.inl rfl, by simp [hpc], Or.inr rfl⟩
  · rename_i tail hpc
    split at hs
    · obtain ⟨s₁, h₁, rfl⟩ := Option.map_eq_some_iff.mp hs
      obtain rfl := logBlock_some h₁
      exact ⟨rfl, rfl, rfl, rfl, Or.inl rfl, by simp [hpc], Or.inr rfl⟩
    · cases hs
      exact ⟨rfl, rfl, rfl, rfl, Or.inl rfl, by simp [hpc], Or.inr rfl⟩
  · rename_i hpc
    obtain ⟨s₁, h₁, rfl⟩ := Option.map_eq_some_iff.mp hs
    obtain rfl := write_head_some h₁
    exact ⟨rfl, rfl, rfl, rfl, Or.inl rfl, by simp [hpc], Or.inr rfl⟩
  · rename_i recovering tail hpc
    split at hs
    · obtain ⟨s₁, h₁, rfl⟩ := Option.map_eq_some_iff.mp hs
      obtain rfl := installBlock_some h₁
      cases recovering
      · exact ⟨rfl, rfl, rfl, rfl, Or.inl rfl, by simp [hpc], Or.inr rfl⟩
      · exact ⟨rfl, rfl, rfl, rfl, Or.inl rfl, by simp [hpc], Or.inr rfl⟩
    · cases hs
      exact ⟨rfl, rfl, rfl, rfl, Or.inl rfl, by simp [hpc], Or.inr rfl⟩
  · rename_i recovering hpc
    obtain ⟨s₁, h₁, rfl⟩ := Option.map_eq_some_iff.mp hs
    obtain rfl := write_head_some h₁
    exact ⟨rfl, rfl, rfl, rfl, Or.inr rfl, by simp [hpc], Or.inr rfl⟩
  · rename_i hpc
    split at hs
    · cases hs
      exact ⟨rfl, rfl, rfl, rfl, Or.inl rfl, by simp [hpc], Or.inl rfl⟩
    · cases hs

theorem Reserved.proceed (h : Reserved s) (hstep : CommitStep s s') : Reserved s' := by
  obtain ⟨hnone, hcommit⟩ := h.quiet hstep.busy
  have hops : s'.ops = [] := hstep.ops.trans hnone
  have hlogged : ∀ p, s'.logged p = [] := by
    intro p
    rw [hstep.logged]
    exact h.absent p (by simp [hnone])
  refine ⟨by simp [hops], ?_, fun p => ?_, fun hpc => ⟨hops, ?_⟩, fun p _ => hlogged p, ?_⟩
  · rw [hstep.outstanding, hstep.ops, h.outstanding]
  · rw [hlogged p]
    exact List.nil_subset _
  · rcases hstep.committing with hidle | hsame
    · exact absurd hidle hpc
    · exact hsame.trans hcommit
  · have hroom := h.room
    rw [hops]
    rcases hstep.lh with hlh | hlh
    · rw [hlh, List.map_nil, List.sum_nil]
      omega
    · rw [hlh]
      exact Nat.zero_le _

/-- One step within the budget keeps the places, and it finds no room exactly when it logs a
block once more that is in the full log. -/
theorem Reserved.step {a : Step} (h : Reserved s) (hok : withinBudget s a)
    (hs : s.step start a = some s') :
    Reserved s' ∧ (s'.panicked = some .tooBig ↔ s.panicked = some .tooBig ∨ relogsWhenFull s a) := by
  cases a with
  | call c =>
    simp only [State.step] at hs
    split at hs
    · cases c with
      | begin_op p =>
        refine ⟨h.begin_op hs, ?_⟩
        simp only [State.call, State.begin_op] at hs
        split at hs
        · rename_i hp
          split at hs
          · cases hs
          · split at hs
            · cases hs
            · cases hs
              simp [relogsWhenFull]
        · cases hs
      | end_op p =>
        refine ⟨h.end_op hs, ?_⟩
        simp only [State.call, State.end_op] at hs
        split at hs
        · rename_i hp
          split at hs
          · cases hs
            simp [hp.1, relogsWhenFull]
          · split at hs
            · cases hs
              simp [relogsWhenFull]
            · cases hs
              simp [relogsWhenFull]
        · cases hs
      | log_write p b =>
        obtain ⟨hres, hpanic⟩ := h.log_write hok hs
        refine ⟨hres, hpanic.trans ⟨Or.inr, fun hor => hor.resolve_left ?_⟩⟩
        intro hold
        simp [State.call, State.log_write, hold] at hs
      | bread p b =>
        obtain ⟨-, rfl⟩ := bread_some hs
        exact ⟨h.of_eq rfl rfl rfl rfl h.quiet, by simp [relogsWhenFull]⟩
      | store p b w v =>
        simp only [State.call, State.store] at hs
        split at hs
        · cases hs
          exact ⟨h.of_eq rfl rfl rfl rfl h.quiet, by simp [relogsWhenFull, State.setData]⟩
        · cases hs
      | brelse p b =>
        simp only [State.call, State.release] at hs
        split at hs
        · cases hs
          exact ⟨h.of_eq rfl rfl rfl rfl h.quiet, by simp [relogsWhenFull, State.brelse]⟩
        · cases hs
    · cases hs
  | proceed =>
    have hstep := proceed_commitStep hs
    exact ⟨h.proceed hstep, by simp [relogsWhenFull, hstep.panicked]⟩
  | recycle b =>
    simp only [State.step, State.recycle] at hs
    split at hs
    · cases hs
      exact ⟨h.of_eq rfl rfl rfl rfl h.quiet, by simp [relogsWhenFull]⟩
    · cases hs
  | crash => exact absurd hok id
  | initlog => exact absurd hok id

/-! ## The result -/

/-- In every run of operations that log ten blocks at most each, `log_write` never finds the
transaction too big and the log never holds more than `LOGBLOCKS` blocks: this is so exactly
when no call logs a block once more that is in the full log. -/
theorem the_log_has_room_iff {disk : Nat → Block} {bcache : Nat → Buf} {as : List Step}
    (hrun : Run (State.step start) withinBudget (State.ready disk bcache) as s) :
    (s.panicked ≠ some .tooBig ∧ s.lh.length ≤ LOGBLOCKS) ↔
      Run (State.step start) (fun s a => withinBudget s a ∧ ¬ relogsWhenFull s a)
        (State.ready disk bcache) as s := by
  have hreserved : ∀ {as : List Step} {s : State},
      Run (State.step start) withinBudget (State.ready disk bcache) as s → Reserved s :=
    fun hrun => hrun.invariant (Reserved.ready disk bcache) fun _ _ _ h hok hs => (h.step hok hs).1
  have hpanic : s.panicked ≠ some .tooBig ↔ Run (State.step start)
      (fun s a => withinBudget s a ∧ ¬ relogsWhenFull s a) (State.ready disk bcache) as s := by
    induction hrun with
    | nil => exact iff_of_true (by simp [State.ready, State.down]) .nil
    | snoc hrun hok hs ih =>
      rw [Ne, ((hreserved hrun).step hok hs).2, not_or]
      constructor
      · rintro ⟨hold, hfull⟩
        exact .snoc (ih.mp hold) ⟨hok, hfull⟩ hs
      · intro hgood
        obtain ⟨u, hr, hu, -⟩ := hgood.last
        have heq := Run.unique (hr.mono fun _ _ h => h.1) hrun
        subst heq
        exact ⟨ih.mpr hr, hu.2⟩
  have hroom := (hreserved hrun).room
  exact ⟨fun h => hpanic.mp h.1, fun h => ⟨hpanic.mpr h, by omega⟩⟩

/-- An operation that logs the same block twice. -/
theorem a_block_is_logged_twice : ∃ s : State,
    Run (State.step 2) withinBudget (State.ready (fun _ _ => 0) fun _ => .free)
      [.call (.begin_op 0), .call (.bread 0 40), .call (.log_write 0 40),
        .call (.log_write 0 40)] s ∧
    s.panicked ≠ some .tooBig ∧ s.lh = [40] := by
  have hcomputed : (exec (State.step 2) (fun s a => withinBudget s a ∧ ¬ relogsWhenFull s a)
      (State.ready (fun _ _ => 0) fun _ => .free)
      [.call (.begin_op 0), .call (.bread 0 40), .call (.log_write 0 40),
        .call (.log_write 0 40)]).any (fun s => s.lh = [40]) = true := by
    decide +kernel
  obtain ⟨s, hs, hlh⟩ := (Option.any_eq_true _ _).mp hcomputed
  have hgood := run_of_exec hs
  have hrun : Run _ withinBudget _ _ s := hgood.mono fun _ _ h => h.1
  exact ⟨s, hrun, ((the_log_has_room_iff hrun).mpr hgood).1, of_decide_eq_true hlh⟩

/-- The operation of a process logs its ten blocks. -/
def logsTen (p : Nat) : List Step :=
  (List.range 10).flatMap fun i =>
    [.call (.bread p (100 * p + 40 + i)), .call (.log_write p (100 * p + 40 + i))]

/-- Three operations log ten blocks each, and one of them logs one of its own blocks again. -/
theorem three_operations_fill_the_log : ¬ ∀ (start : Nat) (disk : Nat → Block)
    (bcache : Nat → Buf) (as : List Step) (s : State),
    Run (State.step start) withinBudget (State.ready disk bcache) as s →
      s.panicked ≠ some .tooBig ∧ s.lh.length ≤ LOGBLOCKS := by
  intro h
  have hcomputed : (exec (State.step 2) withinBudget (State.ready (fun _ _ => 0) fun _ => .free)
      (.call (.begin_op 0) :: .call (.begin_op 1) :: .call (.begin_op 2) ::
        ([0, 1, 2].flatMap logsTen ++ [.call (.log_write 0 40)]))).any
      (fun s => s.panicked = some .tooBig) = true := by
    decide +kernel
  obtain ⟨s, hs, hpanic⟩ := (Option.any_eq_true _ _).mp hcomputed
  exact (h _ _ _ _ s (run_of_exec hs)).1 (of_decide_eq_true hpanic)

end xv6.log
