-- The invariant of the log, and that the calls of the operations keep it.
-- A replay of the log on the disk gives the contents after the last commit
-- write. What the operations have changed since is pinned in the cache.
import SysNet.Lib.Redo
import SysNet.Xv6.Log

namespace xv6.log

open redo

variable {start : Nat} {d : Nat → Block} {s s' : State} {x x' : System}

/-! ## The log on the disk -/

/-- The addresses and the blocks that a recovery would copy. -/
def entries (start : Nat) (disk : Nat → Block) : List (Nat × Block) :=
  (List.range (disk start 0)).map fun i => (disk start (i + 1), disk (start + i + 1))

theorem readHeader_writeHeader (lh : List Nat) (h : Block) :
    readHeader (writeHeader lh h) = lh := by
  refine List.ext_getElem (by simp [readHeader, writeHeader]) fun i hi hi' => ?_
  simp [readHeader, writeHeader, List.getD_eq_getElem?_getD, hi']

theorem not_home_start : ¬ Home start start := by
  unfold Home
  omega

theorem not_home_tail {tail : Nat} (h : tail < LOGBLOCKS) : ¬ Home start (start + tail + 1) := by
  unfold Home
  omega

/-- The log on the disk lies in the region of the log. -/
theorem entries_congr {disk disk' : Nat → Block} (hsize : disk start 0 ≤ LOGBLOCKS)
    (h : ∀ b, ¬ Home start b → disk' b = disk b) : entries start disk' = entries start disk := by
  unfold entries
  rw [h start not_home_start]
  refine List.map_congr_left fun i hi => ?_
  have hi := List.mem_range.mp hi
  rw [h (start + i + 1) (not_home_tail (by omega))]

theorem entries_nil {disk : Nat → Block} (h : disk start 0 = 0) : entries start disk = [] := by
  simp [entries, h]

theorem mem_entries {disk : Nat → Block} {lh : List Nat} (h : readHeader (disk start) = lh)
    {e : Nat × Block} :
    e ∈ entries start disk ↔ ∃ i, lh[i]? = some e.1 ∧ disk (start + i + 1) = e.2 := by
  subst h
  unfold entries readHeader
  simp only [List.mem_map, List.mem_range, List.getElem?_map, Option.map_eq_some_iff]
  constructor
  · rintro ⟨i, hi, rfl⟩
    exact ⟨i, ⟨i, by simp [hi], rfl⟩, rfl⟩
  · rintro ⟨i, ⟨j, hj, he⟩, hb⟩
    obtain ⟨hi, rfl⟩ := List.getElem?_eq_some_iff.mp hj
    rw [List.length_range] at hi
    rw [List.getElem_range] at he
    exact ⟨i, hi, Prod.ext he hb⟩

/-! ## The invariant -/

/-- The blocks of the log that are pinned. -/
def pinned (lh : List Nat) : Pc → List Nat
  | .install false tail => lh.drop tail
  | .install true _ => []
  | .eraseHead _ => []
  | _ => lh

/-- A buffer holds what the operations see, and the block that it has on the disk when
that is a block of the log. A buffer in use is not recycled. -/
structure Cached (start : Nat) (x : System) (pins : List Nat) : Prop where
  home : ∀ b c, (x.st.bcache b).data = some c → Home start b → c = x.group.now b
  region : ∀ b c, (x.st.bcache b).data = some c → ¬ Home start b → c = x.st.disk b
  refs : ∀ b, (if b ∈ pins then 1 else 0) + (if (x.st.bcache b).lock = none then 0 else 1) ≤
    (x.st.bcache b).refcnt
  filled : ∀ b, b ∈ pins ∨ (x.st.bcache b).lock ≠ none → (x.st.bcache b).data ≠ none

/-- An operation holds the blocks that it has changed and not logged yet. What is neither
held so nor logged has not changed in this group. -/
structure Tracked (start : Nat) (x : System) : Prop where
  nodup : x.st.ops.Nodup
  outstanding : x.st.outstanding = x.st.ops.length
  modified : ∀ p b, b ∈ x.st.modified p → p ∈ x.st.ops
  logged : ∀ p b, b ∈ x.st.logged p → p ∈ x.st.ops ∧ b ∈ x.st.lh
  held : ∀ p b, b ∈ x.st.modified p → b ∉ x.st.logged p →
    (x.st.bcache b).lock = some (.proc p)
  clean : x.group.committed = false → ∀ b, b ∉ x.st.lh →
    (∀ p, b ∈ x.st.modified p → b ∈ x.st.logged p) → x.group.now b = x.group.before b
  outside : ∀ b ∈ x.st.lh, Home start b
  room : x.st.lh.length ≤ LOGBLOCKS

/-- The first blocks of the group are in the log. -/
def Copied (start : Nat) (x : System) (tail : Nat) : Prop :=
  ∀ i < tail, ∀ b, x.st.lh[i]? = some b → x.st.disk (start + i + 1) = x.group.now b

/-- The first blocks of the group are at home. -/
def Installed (x : System) (tail : Nat) : Prop :=
  ∀ i < tail, ∀ b, x.st.lh[i]? = some b → x.st.disk b = x.group.now b

/-- How far the commit or the recovery is. -/
def Phase (start : Nat) (x : System) : Pc → Prop
  | .off => x.group.committed = false ∧ x.group.now = x.group.before
  | .idle | .commit => x.group.committed = false ∧ x.st.disk start 0 = 0
  | .writeLog tail => x.group.committed = false ∧ x.st.disk start 0 = 0 ∧ Copied start x tail
  | .writeHead =>
    x.group.committed = false ∧ x.st.disk start 0 = 0 ∧ Copied start x x.st.lh.length
  | .install recovering tail =>
    x.group.kept = x.group.now ∧ x.group.committed = !recovering ∧
      readHeader (x.st.disk start) = x.st.lh ∧ Installed x tail
  | .eraseHead recovering =>
    x.group.kept = x.group.now ∧ x.group.committed = !recovering ∧
      readHeader (x.st.disk start) = x.st.lh ∧ Installed x x.st.lh.length
  | .finish => x.group.kept = x.group.now ∧ x.st.disk start 0 = 0 ∧ x.st.lh = []

/-- The contents after the last commit write. -/
def Group.last (g : Group) (d : Nat → Block) : Nat → Block := g.commits.getLastD d

/-- A commit is under way. -/
def Pc.committing : Pc → Bool
  | .off | .idle => false
  | .install recovering _ => !recovering
  | .eraseHead recovering => !recovering
  | _ => true

structure Inv (start : Nat) (d : Nat → Block) (x : System) : Prop where
  size : x.st.disk start 0 ≤ LOGBLOCKS
  replays : Replays (Home start) (entries start x.st.disk) x.st.disk x.group.kept
  last : x.group.kept = x.group.last d
  cached : Cached start x (pinned x.st.lh x.st.pc)
  tracked : Tracked start x
  nodup : x.st.pc.running = true → x.st.lh.Nodup
  quiet : x.st.pc ≠ .idle → x.st.ops = []
  committing : x.st.committing = x.st.pc.committing
  phase : Phase start x x.st.pc

/-! ## What a read gives -/

theorem Cached.of_none {pins : List Nat} {b : Nat} (h : Cached start x pins)
    (hnone : (x.st.bcache b).data = none) : b ∉ pins ∧ (x.st.bcache b).lock = none := by
  constructor
  · exact fun hb => h.filled b (Or.inl hb) hnone
  · by_contra hlock
    exact h.filled b (Or.inr hlock) hnone

theorem Cached.mono {pins pins' : List Nat} (h : Cached start x pins) (hsub : pins' ⊆ pins) :
    Cached start x pins' where
  home := h.home
  region := h.region
  refs := by
    intro b
    refine Nat.le_trans (Nat.add_le_add_right ?_ _) (h.refs b)
    by_cases hb : b ∈ pins'
    · simp [hb, hsub hb]
    · simp [hb]
  filled b hb := h.filled b (hb.imp_left fun hb => hsub hb)

theorem kept_of_not_committed {g : Group} (h : g.committed = false) : g.kept = g.before := by
  simp [Group.kept, h]

theorem kept_of_committed {g : Group} (h : g.committed = true) : g.kept = g.now := by
  simp [Group.kept, h]

/-- With no transaction in the log the blocks are at home. -/
theorem Inv.home_of_nil {b : Nat} (h : Inv start d x) (hnil : x.st.disk start 0 = 0)
    (hb : Home start b) : x.st.disk b = x.group.kept b := by
  have hr := h.replays
  rw [entries_nil hnil, replays_nil] at hr
  exact hr b hb

/-- A block that is neither logged nor held has not changed. -/
theorem Inv.now_eq_before {b : Nat} (h : Inv start d x) (hc : x.group.committed = false)
    (hlh : b ∉ x.st.lh) (hlock : (x.st.bcache b).lock = none) :
    x.group.now b = x.group.before b := by
  refine h.tracked.clean hc b hlh fun p hp => ?_
  by_contra hlogged
  have := h.tracked.held p b hp hlogged
  rw [hlock] at this
  cases this

/-- A block that is not logged is at home. -/
theorem Inv.home_of_notMem {b : Nat} (h : Inv start d x) (hb : Home start b)
    (hheader : readHeader (x.st.disk start) = x.st.lh) (hlh : b ∉ x.st.lh) :
    x.st.disk b = x.group.kept b := by
  refine h.replays.other b hb fun e he heb => hlh ?_
  obtain ⟨i, hi, -⟩ := (mem_entries hheader).mp he
  rw [← heb]
  exact List.mem_of_getElem? hi

/-- A block that is not cached is on the disk as the operations see it. -/
theorem Inv.disk_of_none {b : Nat} (h : Inv start d x) (hrun : x.st.pc.running = true)
    (hb : Home start b) (hnone : (x.st.bcache b).data = none) : x.st.disk b = x.group.now b := by
  obtain ⟨hpins, hlock⟩ := h.cached.of_none hnone
  have hphase := h.phase
  have hsame : x.group.committed = false → x.st.disk start 0 = 0 → b ∉ x.st.lh →
      x.st.disk b = x.group.now b := by
    intro hc hnil hlh
    rw [h.home_of_nil hnil hb, kept_of_not_committed hc, h.now_eq_before hc hlh hlock]
  have hinstalled : ∀ tail, x.group.kept = x.group.now → readHeader (x.st.disk start) = x.st.lh →
      Installed x tail → b ∉ x.st.lh.drop tail → x.st.disk b = x.group.now b := by
    intro tail hkept hheader hinst hdrop
    by_cases hmem : b ∈ x.st.lh
    · obtain ⟨i, hi⟩ := List.getElem?_of_mem hmem
      refine hinst i ?_ b hi
      by_contra hle
      refine hdrop (List.mem_of_getElem? (i := i - tail) ?_)
      rw [List.getElem?_drop, show tail + (i - tail) = i by omega]
      exact hi
    · rw [h.home_of_notMem hb hheader hmem, hkept]
  generalize x.st.pc = pc at hrun hpins hphase
  cases pc with
  | off => cases hrun
  | idle => exact hsame hphase.1 hphase.2 hpins
  | commit => exact hsame hphase.1 hphase.2 hpins
  | writeLog tail => exact hsame hphase.1 hphase.2.1 hpins
  | writeHead => exact hsame hphase.1 hphase.2.1 hpins
  | install recovering tail =>
    cases recovering
    · exact hinstalled tail hphase.1 hphase.2.2.1 hphase.2.2.2 hpins
    · cases hrun
  | eraseHead recovering => exact hinstalled _ hphase.1 hphase.2.2.1 hphase.2.2.2 (by simp)
  | finish => rw [h.home_of_nil hphase.2.1 hb, hphase.1]

/-- What a process reads is what the operations see. -/
theorem Inv.data_home {b : Nat} (h : Inv start d x) (hrun : x.st.pc.running = true)
    (hb : Home start b) : x.st.data b = x.group.now b := by
  unfold State.data
  cases hdata : (x.st.bcache b).data with
  | none => exact h.disk_of_none hrun hb hdata
  | some c => exact h.cached.home b c hdata hb

theorem Cached.data_region {pins : List Nat} {b : Nat} (h : Cached start x pins)
    (hb : ¬ Home start b) : x.st.data b = x.st.disk b := by
  unfold State.data
  cases hdata : (x.st.bcache b).data with
  | none => rfl
  | some c => exact h.region b c hdata hb

/-! ## Steps that only change a buffer -/

/-- The system with another buffer for a block. -/
def System.setBuf (x : System) (b : Nat) (u : Buf) : System :=
  { x with st := { x.st with bcache := Function.update x.st.bcache b u } }

/-- A step that is about one block. -/
theorem Cached.changed {pins : List Nat} {b : Nat} (h : Cached start x pins)
    (hbuf : ∀ c, c ≠ b → x'.st.bcache c = x.st.bcache c)
    (hdisk : ∀ c, c ≠ b → x'.st.disk c = x.st.disk c)
    (hnow : ∀ c, c ≠ b → x'.group.now c = x.group.now c)
    (hhome : ∀ u, (x'.st.bcache b).data = some u → Home start b → u = x'.group.now b)
    (hregion : ∀ u, (x'.st.bcache b).data = some u → ¬ Home start b → u = x'.st.disk b)
    (hrefs : (if b ∈ pins then 1 else 0) + (if (x'.st.bcache b).lock = none then 0 else 1) ≤
      (x'.st.bcache b).refcnt)
    (hfilled : b ∈ pins ∨ (x'.st.bcache b).lock ≠ none → (x'.st.bcache b).data ≠ none) :
    Cached start x' pins := by
  constructor
  · intro c u hu
    by_cases hc : c = b
    · subst hc
      exact hhome u hu
    · rw [hbuf c hc] at hu
      rw [hnow c hc]
      exact h.home c u hu
  · intro c u hu
    by_cases hc : c = b
    · subst hc
      exact hregion u hu
    · rw [hbuf c hc] at hu
      rw [hdisk c hc]
      exact h.region c u hu
  · intro c
    by_cases hc : c = b
    · subst hc
      exact hrefs
    · rw [hbuf c hc]
      exact h.refs c
  · intro c
    by_cases hc : c = b
    · subst hc
      exact hfilled
    · rw [hbuf c hc]
      exact h.filled c

theorem Cached.setBuf {pins : List Nat} {b : Nat} {u : Buf} (h : Cached start x pins)
    (hhome : ∀ c, u.data = some c → Home start b → c = x.group.now b)
    (hregion : ∀ c, u.data = some c → ¬ Home start b → c = x.st.disk b)
    (hrefs : (if b ∈ pins then 1 else 0) + (if u.lock = none then 0 else 1) ≤ u.refcnt)
    (hfilled : b ∈ pins ∨ u.lock ≠ none → u.data ≠ none) : Cached start (x.setBuf b u) pins := by
  have hself : (x.setBuf b u).st.bcache b = u := Function.update_self ..
  refine h.changed (fun c hc => Function.update_of_ne hc ..) (fun _ _ => rfl) (fun _ _ => rfl)
    ?_ ?_ ?_ ?_
  · rw [hself]
    exact hhome
  · rw [hself]
    exact hregion
  · rw [hself]
    exact hrefs
  · rw [hself]
    exact hfilled

/-- Nothing else changes with a buffer, but an operation must not lose one that it needs. -/
theorem Inv.setBuf {b : Nat} {u : Buf} (h : Inv start d x)
    (hcached : Cached start (x.setBuf b u) (pinned x.st.lh x.st.pc))
    (hheld : ∀ p, b ∈ x.st.modified p → b ∉ x.st.logged p → u.lock = some (.proc p)) :
    Inv start d (x.setBuf b u) where
  size := h.size
  replays := h.replays
  last := h.last
  cached := hcached
  tracked := {
    nodup := h.tracked.nodup
    outstanding := h.tracked.outstanding
    modified := h.tracked.modified
    logged := h.tracked.logged
    held := by
      intro p b' hp hlogged
      by_cases hb : b' = b
      · subst hb
        rw [show (x.setBuf b' u).st.bcache b' = u from Function.update_self ..]
        exact hheld p hp hlogged
      · rw [show (x.setBuf b u).st.bcache b' = x.st.bcache b' from Function.update_of_ne hb ..]
        exact h.tracked.held p b' hp hlogged
    clean := h.tracked.clean
    outside := h.tracked.outside
    room := h.tracked.room }
  nodup := h.nodup
  quiet := h.quiet
  committing := h.committing
  phase := h.phase

theorem Inv.not_held {p b : Nat} (h : Inv start d x) (hlock : (x.st.bcache b).lock = none)
    (hp : b ∈ x.st.modified p) (hlogged : b ∉ x.st.logged p) : False := by
  have := h.tracked.held p b hp hlogged
  rw [hlock] at this
  cases this

theorem bread_some {h : Holder} {b : Nat} (hs : s.bread h b = some s') :
    (s.bcache b).lock = none ∧ s' = { s with
      bcache := Function.update s.bcache b
        { data := some (s.data b), refcnt := (s.bcache b).refcnt + 1, lock := some h } } := by
  unfold State.bread at hs
  split at hs
  · exact ⟨‹_›, (Option.some.inj hs).symm⟩
  · cases hs

theorem Inv.bread {p b : Nat} (h : Inv start d x) (hrun : x.st.pc.running = true)
    (hs : x.st.bread (.proc p) b = some s') : Inv start d { x with st := s' } := by
  obtain ⟨hlock, rfl⟩ := bread_some hs
  refine h.setBuf (b := b) (h.cached.setBuf ?_ ?_ ?_ ?_) ?_
  · rintro c hc hb
    cases hc
    exact h.data_home hrun hb
  · rintro c hc hb
    cases hc
    exact h.cached.data_region hb
  · have := h.cached.refs b
    simp only [hlock] at this
    simp
    omega
  · simp
  · exact fun q hq hlogged => (h.not_held hlock hq hlogged).elim

theorem Inv.release {p b : Nat} (h : Inv start d x) (hs : x.st.release p b = some s') :
    Inv start d { x with st := s' } := by
  unfold State.release at hs
  split at hs
  · rename_i hguard
    cases hs
    refine h.setBuf (b := b) (h.cached.setBuf ?_ ?_ ?_ ?_) ?_
    · exact fun c hc => h.cached.home b c hc
    · exact fun c hc => h.cached.region b c hc
    · have := h.cached.refs b
      simp only [hguard.1] at this
      simp at this ⊢
      omega
    · intro hb
      exact h.cached.filled b (Or.inl (hb.resolve_right (by simp)))
    · intro q hq hlogged
      have hlock := h.tracked.held q b hq hlogged
      rw [hguard.1] at hlock
      cases hlock
      exact absurd (hguard.2 hq) hlogged
  · cases hs

theorem Inv.recycle {b : Nat} (h : Inv start d x) (hs : x.st.recycle b = some s') :
    Inv start d { x with st := s' } := by
  unfold State.recycle at hs
  split at hs
  · rename_i hfree
    cases hs
    have hrefs := h.cached.refs b
    rw [hfree] at hrefs
    have hpins : b ∉ pinned x.st.lh x.st.pc := by
      intro hb
      simp [hb] at hrefs
    have hlock : (x.st.bcache b).lock = none := by
      by_contra hlock
      simp [hlock] at hrefs
    refine h.setBuf (b := b) (h.cached.setBuf ?_ ?_ ?_ ?_) ?_
    · simp
    · simp
    · simp [hpins, hlock]
    · simp [hpins, hlock]
    · exact fun q hq hlogged => (h.not_held hlock hq hlogged).elim
  · cases hs

/-! ## The calls of the operations -/

theorem Inv.idle_of_mem {p : Nat} (h : Inv start d x) (hp : p ∈ x.st.ops) : x.st.pc = .idle := by
  by_contra hpc
  rw [h.quiet hpc] at hp
  cases hp

theorem Inv.of_idle (h : Inv start d x) (hpc : x.st.pc = .idle) :
    x.group.committed = false ∧ x.st.disk start 0 = 0 := by
  have hphase := h.phase
  rw [hpc] at hphase
  exact hphase

theorem Inv.cached_idle (h : Inv start d x) (hpc : x.st.pc = .idle) : Cached start x x.st.lh := by
  have hcached := h.cached
  rw [hpc] at hcached
  exact hcached

/-- A call in the idle phase changes neither the disk nor what a crash would leave. -/
theorem Inv.called (h : Inv start d x) (hidle : x.st.pc = .idle) (hdisk : x'.st.disk = x.st.disk)
    (hbefore : x'.group.before = x.group.before) (hgroup : x'.group.committed = x.group.committed)
    (hcommits : x'.group.commits = x.group.commits)
    (hpc : x'.st.pc = .idle ∨ x'.st.pc = .commit ∧ x'.st.ops = [])
    (hcommitting : x'.st.committing = x'.st.pc.committing) (hcached : Cached start x' x'.st.lh)
    (htracked : Tracked start x') (hnodup : x'.st.lh.Nodup) : Inv start d x' := by
  obtain ⟨hc, hnil⟩ := h.of_idle hidle
  have hkept : x'.group.kept = x.group.kept := by
    rw [kept_of_not_committed hc, kept_of_not_committed (hgroup.trans hc), hbefore]
  refine {
    size := by rw [hdisk]; exact h.size
    replays := by rw [hdisk, hkept]; exact h.replays
    last := by rw [hkept, h.last, Group.last, Group.last, hcommits]
    cached := by rcases hpc with hpc | ⟨hpc, -⟩ <;> rw [hpc] <;> exact hcached
    tracked := htracked
    nodup := fun _ => hnodup
    quiet := ?_
    committing := hcommitting
    phase := ?_ }
  · intro hne
    exact (hpc.resolve_left hne).2
  · rcases hpc with hpc | ⟨hpc, -⟩ <;> rw [hpc] <;> exact ⟨hgroup.trans hc, by rw [hdisk]; exact hnil⟩

theorem idle_of_running {pc : Pc} (hrun : pc.running = true) (hc : pc.committing = false) :
    pc = .idle := by
  cases pc with
  | idle => rfl
  | install recovering tail =>
    cases recovering
    · cases hc
    · cases hrun
  | eraseHead recovering =>
    cases recovering
    · cases hc
    · cases hrun
  | off => cases hrun
  | _ => cases hc

theorem Inv.begin_op {p : Nat} (h : Inv start d x) (hrun : x.st.pc.running = true)
    (hs : x.st.begin_op p = some s') : Inv start d { x with st := s' } := by
  unfold State.begin_op at hs
  split at hs
  · rename_i hguard
    split at hs
    · cases hs
    · rename_i hcommitting
      have hidle : x.st.pc = .idle :=
        idle_of_running hrun (by rw [← h.committing]; simpa using hcommitting)
      split at hs
      · cases hs
      · cases hs
        refine h.called hidle rfl rfl rfl rfl (Or.inl hidle) h.committing ?_ ?_ (h.nodup hrun)
        · exact { h.cached_idle hidle with }
        · exact {
            nodup := List.nodup_cons.mpr ⟨hguard.2, h.tracked.nodup⟩
            outstanding := by simp [h.tracked.outstanding]
            modified := fun q b hb => List.mem_cons_of_mem p (h.tracked.modified q b hb)
            logged := fun q b hb =>
              ⟨List.mem_cons_of_mem p (h.tracked.logged q b hb).1, (h.tracked.logged q b hb).2⟩
            held := h.tracked.held
            clean := h.tracked.clean
            outside := h.tracked.outside
            room := h.tracked.room }
  · cases hs

/-- The operation of a process is over. -/
def State.ended (s : State) (p : Nat) : State :=
  { s with
    outstanding := s.outstanding - 1, ops := s.ops.erase p
    modified := Function.update s.modified p [], logged := Function.update s.logged p [] }

theorem Tracked.ended {p : Nat} (h : Tracked start x) (hp : p ∈ x.st.ops)
    (hlogged : x.st.modified p ⊆ x.st.logged p) :
    Tracked start { x with st := x.st.ended p } := by
  have hmod : ∀ q b, b ∈ (x.st.ended p).modified q → q ≠ p ∧ b ∈ x.st.modified q := by
    intro q b hb
    by_cases hq : q = p
    · subst hq
      simp [State.ended] at hb
    · exact ⟨hq, by simpa [State.ended, hq] using hb⟩
  have hlog : ∀ q b, b ∈ (x.st.ended p).logged q ↔ q ≠ p ∧ b ∈ x.st.logged q := by
    intro q b
    by_cases hq : q = p
    · subst hq
      simp [State.ended]
    · simp [State.ended, hq]
  exact {
    nodup := h.nodup.erase p
    outstanding := by
      show x.st.outstanding - 1 = (x.st.ops.erase p).length
      rw [List.length_erase_of_mem hp, h.outstanding]
    modified := fun q b hb =>
      (List.mem_erase_of_ne (hmod q b hb).1).mpr (h.modified q b (hmod q b hb).2)
    logged := fun q b hb =>
      ⟨(List.mem_erase_of_ne ((hlog q b).mp hb).1).mpr (h.logged q b ((hlog q b).mp hb).2).1,
        (h.logged q b ((hlog q b).mp hb).2).2⟩
    held := by
      intro q b hb hnot
      obtain ⟨hq, hb⟩ := hmod q b hb
      exact h.held q b hb fun hl => hnot ((hlog q b).mpr ⟨hq, hl⟩)
    clean := by
      intro hc b hlh hall
      refine h.clean hc b hlh fun q hb => ?_
      by_cases hq : q = p
      · subst hq
        exact hlogged hb
      · exact ((hlog q b).mp (hall q (by simpa [State.ended, hq] using hb))).2
    outside := h.outside
    room := h.room }

theorem Inv.end_op {p : Nat} (h : Inv start d x) (hs : x.st.end_op p = some s') :
    Inv start d { x with st := s' } := by
  unfold State.end_op at hs
  split at hs
  · rename_i hguard
    obtain ⟨-, hp, hlogged⟩ := hguard
    have hidle := h.idle_of_mem hp
    have htracked := h.tracked.ended hp hlogged
    have hcached := h.cached_idle hidle
    have hnodup : x.st.lh.Nodup := h.nodup (by rw [hidle]; rfl)
    have hnot : x.st.committing = false := by rw [h.committing, hidle]; rfl
    dsimp only at hs
    rw [hnot] at hs
    simp only [Bool.false_eq_true, if_false] at hs
    split at hs
    · rename_i hzero
      cases hs
      have hops : x.st.ops.erase p = [] := by
        have hlen : (x.st.ended p).outstanding = (x.st.ended p).ops.length := htracked.outstanding
        rw [show (x.st.ended p).outstanding = 0 from hzero] at hlen
        exact List.length_eq_zero_iff.mp hlen.symm
      refine h.called hidle rfl rfl rfl rfl (Or.inr ⟨rfl, hops⟩) rfl ?_ ?_ hnodup
      · exact { hcached with }
      · exact { htracked with }
    · cases hs
      refine h.called hidle rfl rfl rfl rfl (Or.inl hidle) ?_ ?_ ?_ hnodup
      · show false = x.st.pc.committing
        rw [hidle]
        rfl
      · exact { hcached with }
      · exact { htracked with }
  · cases hs

/-- One more block that the operation has logged. -/
def State.noted (s : State) (p b : Nat) : State :=
  { s with logged := Function.update s.logged p (b :: s.logged p) }

theorem mem_noted {p b q c : Nat} :
    c ∈ (s.noted p b).logged q ↔ q = p ∧ c = b ∨ c ∈ s.logged q := by
  by_cases hq : q = p
  · subst hq
    simp [State.noted]
  · simp [State.noted, hq]

theorem Tracked.noted {p b : Nat} (h : Tracked start x) (hp : p ∈ x.st.ops) (hb : b ∈ x.st.lh) :
    Tracked start { x with st := x.st.noted p b } where
  nodup := h.nodup
  outstanding := h.outstanding
  modified := h.modified
  logged := by
    intro q c hc
    rcases mem_noted.mp hc with ⟨rfl, rfl⟩ | hc
    · exact ⟨hp, hb⟩
    · exact h.logged q c hc
  held q c hc hnot := h.held q c hc fun hl => hnot (mem_noted.mpr (Or.inr hl))
  clean := by
    intro hcommitted c hlh hall
    refine h.clean hcommitted c hlh fun q hc => ?_
    rcases mem_noted.mp (hall q hc) with ⟨-, rfl⟩ | hl
    · exact absurd hb hlh
    · exact hl
  outside := h.outside
  room := h.room

/-- One more block in the log. -/
def State.grown (s : State) (b : Nat) : State := { s.bpin b with lh := s.lh ++ [b] }

theorem bpin_lock {b c : Nat} : ((s.bpin b).bcache c).lock = (s.bcache c).lock := by
  by_cases hc : c = b
  · subst hc
    simp [State.bpin]
  · simp [State.bpin, hc]

theorem bpin_data {b c : Nat} : ((s.bpin b).bcache c).data = (s.bcache c).data := by
  by_cases hc : c = b
  · subst hc
    simp [State.bpin]
  · simp [State.bpin, hc]

theorem Tracked.grown {b : Nat} (h : Tracked start x) (hb : Home start b)
    (hroom : x.st.lh.length < LOGBLOCKS) : Tracked start { x with st := x.st.grown b } where
  nodup := h.nodup
  outstanding := h.outstanding
  modified := h.modified
  logged q c hc := ⟨(h.logged q c hc).1, List.mem_append_left _ (h.logged q c hc).2⟩
  held q c hc hnot := bpin_lock.trans (h.held q c hc hnot)
  clean hcommitted c hlh hall := h.clean hcommitted c (fun hc => hlh (List.mem_append_left _ hc)) hall
  outside := by
    intro c hc
    rcases List.mem_append.mp hc with hc | hc
    · exact h.outside c hc
    · rw [List.mem_singleton.mp hc]
      exact hb
  room := by
    show (x.st.lh ++ [b]).length ≤ LOGBLOCKS
    rw [List.length_append]
    exact hroom

theorem Cached.grown {b : Nat} (h : Cached start x x.st.lh) (hb : b ∉ x.st.lh)
    (hlock : (x.st.bcache b).lock ≠ none) :
    Cached start { x with st := x.st.grown b } (x.st.lh ++ [b]) := by
  constructor
  · intro c v hv
    exact h.home c v (bpin_data.symm.trans hv)
  · intro c v hv
    exact h.region c v (bpin_data.symm.trans hv)
  · intro c
    have hrefs := h.refs c
    rw [show ((x.st.grown b).bcache c).lock = (x.st.bcache c).lock from bpin_lock]
    by_cases hc : c = b
    · subst hc
      simp only [hb, if_false, Nat.zero_add] at hrefs
      simp [State.grown, State.bpin]
      omega
    · rw [show (x.st.grown b).bcache c = x.st.bcache c from Function.update_of_ne hc ..]
      simpa [hc] using hrefs
  · intro c hc
    rw [show ((x.st.grown b).bcache c).data = (x.st.bcache c).data from bpin_data]
    rw [show ((x.st.grown b).bcache c).lock = (x.st.bcache c).lock from bpin_lock] at hc
    rcases hc with hc | hc
    · rcases List.mem_append.mp hc with hc | hc
      · exact h.filled c (Or.inl hc)
      · rw [List.mem_singleton.mp hc]
        exact h.filled b (Or.inr hlock)
    · exact h.filled c (Or.inr hc)

theorem Inv.log_write {p b : Nat} (h : Inv start d x) (hs : x.st.log_write start p b = some s') :
    Inv start d { x with st := s' } := by
  unfold State.log_write at hs
  split at hs
  · rename_i hguard
    obtain ⟨-, hp, hlock, hb⟩ := hguard
    have hidle := h.idle_of_mem hp
    have hcached := h.cached_idle hidle
    have hnodup : x.st.lh.Nodup := h.nodup (by rw [hidle]; rfl)
    split at hs
    · cases hs
      exact h.called hidle rfl rfl rfl rfl (Or.inl hidle) h.committing { hcached with }
        { h.tracked with } hnodup
    · rename_i hroom
      split at hs
      · cases hs
        exact h.called hidle rfl rfl rfl rfl (Or.inl hidle) h.committing { hcached with }
          { h.tracked with } hnodup
      · dsimp only at hs
        split at hs
        · rename_i hmem
          cases hs
          exact h.called hidle rfl rfl rfl rfl (Or.inl hidle) h.committing { hcached with }
            (h.tracked.noted hp hmem) hnodup
        · rename_i hmem
          cases hs
          have hgrown : Tracked start { x with st := x.st.grown b } :=
            h.tracked.grown hb (Nat.lt_of_not_le hroom)
          refine h.called hidle rfl rfl rfl rfl (Or.inl hidle) h.committing ?_ ?_ ?_
          · exact { hcached.grown hmem (by rw [hlock]; simp) with }
          · exact hgrown.noted hp (List.mem_append_right _ (List.mem_singleton_self b))
          · exact List.nodup_append.mpr ⟨hnodup, by simp, by
              rintro c hc c' hc' rfl
              rw [List.mem_singleton.mp hc'] at hc
              exact hmem hc⟩
  · cases hs

/-- A store changes a block in its buffer and as the operations see it. -/
def System.stored (x : System) (p b w v : Nat) : System :=
  { st := { x.st.setData b (Function.update (x.st.data b) w v) with
      modified := Function.update x.st.modified p (b :: x.st.modified p) }
    group := { x.group with now := Function.update x.group.now b (Function.update (x.group.now b) w v) } }

theorem Cached.stored {pins : List Nat} {p b w v : Nat} (h : Cached start x pins)
    (hb : Home start b) (hdata : x.st.data b = x.group.now b) :
    Cached start (x.stored p b w v) pins := by
  have hself : (x.stored p b w v).st.bcache b =
      { x.st.bcache b with data := some (Function.update (x.st.data b) w v) } :=
    Function.update_self ..
  refine h.changed (fun c hc => Function.update_of_ne hc ..) (fun _ _ => rfl)
    (fun c hc => Function.update_of_ne hc ..) ?_ (fun _ _ hc => absurd hb hc) ?_ ?_
  · intro u hu _
    rw [hself] at hu
    cases hu
    simp [System.stored, hdata]
  · rw [hself]
    exact h.refs b
  · rw [hself]
    simp

theorem Tracked.stored {p b w v : Nat} (h : Tracked start x) (hp : p ∈ x.st.ops)
    (hlock : (x.st.bcache b).lock = some (.proc p)) : Tracked start (x.stored p b w v) := by
  have hmod : ∀ q c, c ∈ (x.stored p b w v).st.modified q ↔ q = p ∧ c = b ∨ c ∈ x.st.modified q := by
    intro q c
    by_cases hq : q = p
    · subst hq
      simp [System.stored]
    · simp [System.stored, hq]
  have hlocks : ∀ c, ((x.stored p b w v).st.bcache c).lock = (x.st.bcache c).lock := by
    intro c
    by_cases hc : c = b
    · subst hc
      simp [System.stored, State.setData]
    · simp [System.stored, State.setData, hc]
  exact {
    nodup := h.nodup
    outstanding := h.outstanding
    modified := by
      intro q c hc
      rcases (hmod q c).mp hc with ⟨rfl, -⟩ | hc
      · exact hp
      · exact h.modified q c hc
    logged := h.logged
    held := by
      intro q c hc hnot
      rw [hlocks]
      rcases (hmod q c).mp hc with ⟨rfl, rfl⟩ | hc
      · exact hlock
      · exact h.held q c hc hnot
    clean := by
      intro hcommitted c hlh hall
      by_cases hc : c = b
      · -- the operation has logged the block, so it is in the log
        subst hc
        exact absurd (h.logged p c (hall p ((hmod p c).mpr (Or.inl ⟨rfl, rfl⟩)))).2 hlh
      · rw [show (x.stored p b w v).group.now c = x.group.now c from Function.update_of_ne hc ..]
        exact h.clean hcommitted c hlh fun q hq => hall q ((hmod q c).mpr (Or.inr hq))
    outside := h.outside
    room := h.room }

theorem Inv.store {p b w v : Nat} (h : Inv start d x) (hs : x.st.store start p b w v = some s') :
    Inv start d { st := s', group := x.group.observe x.st.pc (.call (.store p b w v)) } := by
  unfold State.store at hs
  split at hs
  · rename_i hguard
    obtain ⟨hp, hlock, hb⟩ := hguard
    cases hs
    have hidle := h.idle_of_mem hp
    have hrun : x.st.pc.running = true := by rw [hidle]; rfl
    have hcached := h.cached_idle hidle
    exact h.called hidle rfl rfl rfl rfl (Or.inl hidle) h.committing
      (hcached.stored hb (h.data_home hrun hb)) (h.tracked.stored hp hlock) (h.nodup hrun)
  · cases hs

end xv6.log
