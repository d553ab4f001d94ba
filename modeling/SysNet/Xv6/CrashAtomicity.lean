-- What a crash leaves. Every step of the commit and of the recovery keeps
-- what a replay of the log on the disk gives, so a recovery brings back a
-- group of operations as a whole or not at all.
import SysNet.Lib.Redo
import SysNet.Lib.Runs
import SysNet.Xv6.LogInvariant

namespace xv6.log

open redo runs

variable {start : Nat} {d : Nat → Block} {s s' : State} {x x' : System}

/-! ## What the steps of the log do to the buffers -/

/-- The block is read into its buffer. -/
def State.fill (s : State) (b : Nat) : State := s.setData b (s.data b)

/-- The block has new contents on the disk and in its buffer. -/
def State.put (s : State) (b : Nat) (c : Block) : State :=
  { s.setData b c with disk := Function.update s.disk b c }

theorem put_disk_self {b : Nat} {c : Block} : (s.put b c).disk b = c := Function.update_self ..

theorem put_disk_of_ne {a b : Nat} {c : Block} (h : a ≠ b) : (s.put b c).disk a = s.disk a :=
  Function.update_of_ne h ..

theorem write_head_some (hs : s.write_head start = some s') :
    s' = s.put start (writeHeader s.lh (s.data start)) := by
  simp only [State.write_head, Option.bind_eq_bind, Option.bind_eq_some_iff] at hs
  obtain ⟨s₁, h₁, hs⟩ := hs
  obtain ⟨hlock, rfl⟩ := bread_some h₁
  rw [← Option.some.inj hs]
  simp [State.put, State.setData, State.bwrite, State.brelse, State.data, hlock]

theorem read_head_some (hs : s.read_head start = some s') :
    s' = { s.fill start with lh := readHeader (s.data start) } := by
  simp only [State.read_head, Option.bind_eq_bind, Option.bind_eq_some_iff] at hs
  obtain ⟨s₁, h₁, hs⟩ := hs
  obtain ⟨hlock, rfl⟩ := bread_some h₁
  rw [← Option.some.inj hs]
  simp [State.fill, State.setData, State.brelse, State.data, hlock]

theorem logBlock_some {tail dst : Nat} (hs : s.logBlock start tail dst = some s') :
    s' = (s.fill dst).put (start + tail + 1) (s.data dst) := by
  simp only [State.logBlock, Option.bind_eq_bind, Option.bind_eq_some_iff] at hs
  obtain ⟨s₁, h₁, s₂, h₂, hs⟩ := hs
  obtain ⟨hsrc, rfl⟩ := bread_some h₁
  obtain ⟨hdst, rfl⟩ := bread_some h₂
  have hne : dst ≠ start + tail + 1 := by
    rintro rfl
    simp at hdst
  rw [← Option.some.inj hs]
  simp only [State.fill, State.put, State.setData, State.bwrite, State.brelse, State.data,
    State.mk.injEq, and_true]
  refine ⟨by simp [hne, hne.symm], funext fun b => ?_⟩
  by_cases hb : b = start + tail + 1
  · subst hb
    simp [hne, hne.symm, hsrc]
  · by_cases hb' : b = dst
    · subst hb'
      simp [hne, hne.symm] at hdst ⊢
      exact hdst.symm
    · simp [hb, hb']

theorem installBlock_some {recovering : Bool} {tail dst : Nat}
    (hs : s.installBlock start recovering tail dst = some s') :
    s' = if recovering then (s.fill (start + tail + 1)).put dst (s.data (start + tail + 1))
      else ((s.fill (start + tail + 1)).put dst (s.data (start + tail + 1))).bunpin dst := by
  simp only [State.installBlock, Option.bind_eq_bind, Option.bind_eq_some_iff] at hs
  obtain ⟨s₁, h₁, s₂, h₂, hs⟩ := hs
  obtain ⟨hsrc, rfl⟩ := bread_some h₁
  obtain ⟨hdst, rfl⟩ := bread_some h₂
  have hne : dst ≠ start + tail + 1 := by
    rintro rfl
    simp at hdst
  rw [← Option.some.inj hs]
  cases recovering
  all_goals
    simp only [State.fill, State.put, State.setData, State.bwrite, State.brelse, State.bunpin,
      State.data, State.mk.injEq, and_true, if_true, if_false, Bool.false_eq_true]
    refine ⟨by simp [hne, hne.symm], funext fun b => ?_⟩
    by_cases hb : b = start + tail + 1
    · subst hb
      simp [hne, hne.symm, hsrc]
    · by_cases hb' : b = dst
      · subst hb'
        simp [hne, hne.symm] at hdst ⊢
        simp [hdst]
      · simp [hb, hb']

theorem Cached.fill {pins : List Nat} {b : Nat} (h : Cached start x pins)
    (hdata : Home start b → x.st.data b = x.group.now b) :
    Cached start { x with st := x.st.fill b } pins := by
  refine h.setBuf (b := b) ?_ ?_ (h.refs b) (by simp)
  · rintro c hc hb
    cases hc
    exact hdata hb
  · rintro c hc hb
    cases hc
    exact h.data_region hb

theorem Cached.put {pins : List Nat} {b : Nat} {c : Block} (h : Cached start x pins)
    (hc : Home start b → c = x.group.now b) : Cached start { x with st := x.st.put b c } pins := by
  have hself : (x.st.put b c).bcache b = { x.st.bcache b with data := some c } :=
    Function.update_self ..
  refine h.changed (b := b) (fun a ha => Function.update_of_ne ha ..) (fun a ha => put_disk_of_ne ha)
    (fun _ _ => rfl) ?_ ?_ ?_ ?_
  · intro u hu hb
    rw [hself] at hu
    cases hu
    exact hc hb
  · intro u hu _
    rw [hself] at hu
    cases hu
    exact put_disk_self.symm
  · rw [hself]
    exact h.refs b
  · rw [hself]
    simp

/-- A pin less, for a block that is not to be pinned any more. -/
theorem Cached.bunpin {pins : List Nat} {b : Nat} (h : Cached start x (b :: pins)) (hb : b ∉ pins) :
    Cached start { x with st := x.st.bunpin b } pins := by
  have hless : Cached start x pins := h.mono (List.subset_cons_self b pins)
  have hrefs := h.refs b
  refine hless.setBuf (b := b) (h.home b) (h.region b) ?_ ?_
  · simp [hb] at hrefs ⊢
    omega
  · intro hor
    exact h.filled b (Or.inl (List.mem_cons_self ..))

/-! ## The steps of the commit and of the recovery -/

/-- While no operation runs, a step has to account for the disk, the buffers and the log. -/
theorem Inv.quietly (h : Inv start d x) (hpc : x.st.pc ≠ .idle) (hops : x'.st.ops = x.st.ops)
    (hout : x'.st.outstanding = x.st.outstanding) (hmod : x'.st.modified = x.st.modified)
    (hlogged : x'.st.logged = x.st.logged)
    (hclean : x'.group.committed = false → ∀ b, b ∉ x'.st.lh → x'.group.now b = x'.group.before b)
    (houtside : ∀ b ∈ x'.st.lh, Home start b) (hroom : x'.st.lh.length ≤ LOGBLOCKS)
    (hsize : x'.st.disk start 0 ≤ LOGBLOCKS)
    (hreplays : Replays (Home start) (entries start x'.st.disk) x'.st.disk x'.group.kept)
    (hlast : x'.group.kept = x'.group.last d)
    (hcached : Cached start x' (pinned x'.st.lh x'.st.pc))
    (hnodup : x'.st.pc.running = true → x'.st.lh.Nodup)
    (hcommitting : x'.st.committing = x'.st.pc.committing) (hphase : Phase start x' x'.st.pc) :
    Inv start d x' := by
  have hnone := h.quiet hpc
  have hempty : ∀ p b, b ∉ x.st.modified p := by
    intro p b hb
    have := h.tracked.modified p b hb
    rw [hnone] at this
    cases this
  exact {
    size := hsize
    replays := hreplays
    last := hlast
    cached := hcached
    tracked := {
      nodup := by rw [hops]; exact h.tracked.nodup
      outstanding := by rw [hops, hout]; exact h.tracked.outstanding
      modified := fun p b hb => (hempty p b (hmod ▸ hb)).elim
      logged := by
        intro p b hb
        rw [hlogged] at hb
        have := (h.tracked.logged p b hb).1
        rw [hnone] at this
        cases this
      held := fun p b hb => (hempty p b (hmod ▸ hb)).elim
      clean := fun hc b hlh _ => hclean hc b hlh
      outside := houtside
      room := hroom }
    nodup := hnodup
    quiet := fun _ => hops.trans hnone
    committing := hcommitting
    phase := hphase }

/-- While no operation runs, the blocks outside the log have not changed. -/
theorem Inv.clean_quiet (h : Inv start d x) (hpc : x.st.pc ≠ .idle)
    (hc : x.group.committed = false) {b : Nat} (hb : b ∉ x.st.lh) :
    x.group.now b = x.group.before b := by
  refine h.tracked.clean hc b hb fun p hp => ?_
  have := h.tracked.modified p b hp
  rw [h.quiet hpc] at this
  cases this

/-- A step that only moves on. -/
theorem Inv.moved {pc : Pc} (h : Inv start d x) (hpc : x.st.pc ≠ .idle)
    (hrun : pc.running = x.st.pc.running) (hcommitting : pc.committing = x.st.pc.committing)
    (hpins : pinned x.st.lh pc ⊆ pinned x.st.lh x.st.pc)
    (hphase : Phase start { x with st := { x.st with pc := pc } } pc) :
    Inv start d { x with st := { x.st with pc := pc } } := by
  refine h.quietly hpc rfl rfl rfl rfl (fun hc b hb => h.clean_quiet hpc hc hb) h.tracked.outside
    h.tracked.room h.size h.replays h.last ?_ (fun hr => h.nodup (hrun.symm.trans hr))
    (h.committing.trans hcommitting.symm) hphase
  exact { h.cached.mono hpins with }

theorem Inv.commit (h : Inv start d x) (hpc : x.st.pc = .commit) :
    Inv start d { x with
      st := { x.st with pc := if 0 < x.st.lh.length then .writeLog 0 else .finish } } := by
  have hphase := h.phase
  rw [hpc] at hphase
  have hne : x.st.pc ≠ .idle := by rw [hpc]; simp
  split
  · refine h.moved hne (by rw [hpc]; rfl) (by rw [hpc]; rfl) (by rw [hpc]; exact fun _ hb => hb) ?_
    exact ⟨hphase.1, hphase.2, fun i hi => absurd hi (by omega)⟩
  · rename_i hlen
    have hlh : x.st.lh = [] := List.length_eq_zero_iff.mp (by omega)
    refine h.moved hne (by rw [hpc]; rfl) (by rw [hpc]; rfl) (by rw [hpc]; exact fun _ hb => hb) ?_
    refine ⟨?_, hphase.2, hlh⟩
    rw [kept_of_not_committed hphase.1]
    exact funext fun b => (h.clean_quiet hne hphase.1 (by rw [hlh]; simp)).symm

/-- A block of the group goes to the log. -/
theorem Inv.logBlock {tail dst : Nat} (h : Inv start d x) (hpc : x.st.pc = .writeLog tail)
    (hdst : x.st.lh[tail]? = some dst) (hs : x.st.logBlock start tail dst = some s') :
    Inv start d { x with st := { s' with pc := .writeLog (tail + 1) } } := by
  have hphase := h.phase
  rw [hpc] at hphase
  obtain ⟨hc, hnil, hcopied⟩ := hphase
  have hne : x.st.pc ≠ .idle := by rw [hpc]; simp
  have hrun : x.st.pc.running = true := by rw [hpc]; rfl
  have hcached := h.cached
  rw [hpc] at hcached
  obtain ⟨hlt, -⟩ := List.getElem?_eq_some_iff.mp hdst
  have hregion : ¬ Home start (start + tail + 1) :=
    not_home_tail (Nat.lt_of_lt_of_le hlt h.tracked.room)
  have hhome : Home start dst := h.tracked.outside dst (List.mem_of_getElem? hdst)
  have hdata : x.st.data dst = x.group.now dst := h.data_home hrun hhome
  obtain rfl := logBlock_some hs
  have hhomes : ∀ b, Home start b →
      ((x.st.fill dst).put (start + tail + 1) (x.st.data dst)).disk b = x.st.disk b :=
    fun b hb => put_disk_of_ne (by rintro rfl; exact hregion hb)
  have hzero : ((x.st.fill dst).put (start + tail + 1) (x.st.data dst)).disk start 0 = 0 := by
    rw [put_disk_of_ne (by omega)]
    exact hnil
  have hreplays := h.replays.congr hhomes fun _ _ => rfl
  rw [entries_nil hnil, ← entries_nil hzero] at hreplays
  refine h.quietly hne rfl rfl rfl rfl (fun hc b hb => h.clean_quiet hne hc hb) h.tracked.outside
    h.tracked.room (by rw [hzero]; omega) hreplays h.last ?_ (fun _ => h.nodup hrun)
    (h.committing.trans (by rw [hpc]; rfl)) ⟨hc, hzero, ?_⟩
  · exact { (hcached.fill fun _ => hdata).put fun hb => absurd hb hregion with }
  · intro i hi b hb
    by_cases hit : i = tail
    · subst hit
      obtain rfl : dst = b := Option.some.inj (hdst.symm.trans hb)
      exact put_disk_self.trans hdata
    · exact (put_disk_of_ne (by omega)).trans (hcopied i (by omega) b hb)

/-- All blocks of the group are in the log. -/
theorem Inv.writeLogEnd {tail : Nat} (h : Inv start d x) (hpc : x.st.pc = .writeLog tail)
    (htail : x.st.lh.length ≤ tail) :
    Inv start d { x with st := { x.st with pc := .writeHead } } := by
  have hphase := h.phase
  rw [hpc] at hphase
  refine h.moved (by rw [hpc]; simp) (by rw [hpc]; rfl) (by rw [hpc]; rfl)
    (by rw [hpc]; exact fun _ hb => hb) ⟨hphase.1, hphase.2.1, ?_⟩
  exact fun i hi => hphase.2.2 i (Nat.lt_of_lt_of_le hi htail)

/-- The commit write: from here on a replay gives the contents after the group. -/
theorem Inv.writeHead (h : Inv start d x) (hpc : x.st.pc = .writeHead)
    (hs : x.st.write_head start = some s') :
    Inv start d { st := { s' with pc := .install false 0 },
                  group := { x.group with
                    committed := true, commits := x.group.commits ++ [x.group.now] } } := by
  have hphase := h.phase
  rw [hpc] at hphase
  obtain ⟨hc, hnil, hcopied⟩ := hphase
  have hne : x.st.pc ≠ .idle := by rw [hpc]; simp
  have hrun : x.st.pc.running = true := by rw [hpc]; rfl
  have hcached := h.cached
  rw [hpc] at hcached
  obtain rfl := write_head_some hs
  have hheader : readHeader ((x.st.put start (writeHeader x.st.lh (x.st.data start))).disk start) =
      x.st.lh := by
    rw [put_disk_self]
    exact readHeader_writeHeader _ _
  have hsize : (x.st.put start (writeHeader x.st.lh (x.st.data start))).disk start 0 ≤ LOGBLOCKS := by
    rw [put_disk_self]
    exact h.tracked.room
  refine h.quietly hne rfl rfl rfl rfl (fun hc => by cases hc) h.tracked.outside h.tracked.room hsize
    ?_ (by simp [Group.kept, Group.last]) ?_ (fun _ => h.nodup hrun)
    (h.committing.trans (by rw [hpc]; rfl)) ⟨rfl, rfl, hheader, fun i hi => absurd hi (by omega)⟩
  · constructor
    · rintro ⟨a, c⟩ he
      obtain ⟨i, hi, hblock⟩ := (mem_entries hheader).mp he
      refine ⟨h.tracked.outside a (List.mem_of_getElem? hi), ?_⟩
      obtain ⟨hlt, -⟩ := List.getElem?_eq_some_iff.mp hi
      rw [← hblock, put_disk_of_ne (by omega)]
      exact hcopied i hlt a hi
    · intro b hb hnot
      have hlh : b ∉ x.st.lh := by
        intro hmem
        obtain ⟨i, hi⟩ := List.getElem?_of_mem hmem
        exact hnot (b, _) ((mem_entries hheader).mpr ⟨i, hi, rfl⟩) rfl
      rw [put_disk_of_ne (by rintro rfl; exact not_home_start hb), h.home_of_nil hnil hb,
        kept_of_not_committed hc, ← h.clean_quiet hne hc hlh]
      rfl
  · exact { hcached.put fun hb => absurd hb not_home_start with }

/-- The commit unpins a block of the log after the other. -/
theorem drop_next {lh : List Nat} {tail dst : Nat} (hdst : lh[tail]? = some dst) :
    lh.drop tail = dst :: lh.drop (tail + 1) := by
  obtain ⟨hlt, rfl⟩ := List.getElem?_eq_some_iff.mp hdst
  exact List.drop_eq_getElem_cons hlt

theorem notMem_drop_of_nodup {lh : List Nat} {tail dst : Nat} (h : lh.Nodup)
    (hdst : lh[tail]? = some dst) : dst ∉ lh.drop (tail + 1) := by
  have hdrop : (lh.drop tail).Nodup := h.drop
  rw [drop_next hdst] at hdrop
  exact (List.nodup_cons.mp hdrop).1

/-- A block of the log goes home. -/
theorem Inv.installBlock {recovering : Bool} {tail dst : Nat} (h : Inv start d x)
    (hpc : x.st.pc = .install recovering tail) (hdst : x.st.lh[tail]? = some dst)
    (hs : x.st.installBlock start recovering tail dst = some s') :
    Inv start d { x with st := { s' with pc := .install recovering (tail + 1) } } := by
  have hphase := h.phase
  rw [hpc] at hphase
  obtain ⟨hkept, hc, hheader, hinst⟩ := hphase
  have hne : x.st.pc ≠ .idle := by rw [hpc]; simp
  obtain ⟨hlt, -⟩ := List.getElem?_eq_some_iff.mp hdst
  have hregion : ¬ Home start (start + tail + 1) :=
    not_home_tail (Nat.lt_of_lt_of_le hlt h.tracked.room)
  have hhome : Home start dst := h.tracked.outside dst (List.mem_of_getElem? hdst)
  have hblock : x.st.disk (start + tail + 1) = x.group.kept dst :=
    (h.replays.entry (dst, _) ((mem_entries hheader).mpr ⟨tail, hdst, rfl⟩)).2
  have hdata : x.st.data (start + tail + 1) = x.group.kept dst :=
    (h.cached.data_region hregion).trans hblock
  have hput : Cached start { x with
      st := (x.st.fill (start + tail + 1)).put dst (x.st.data (start + tail + 1)) }
      (pinned x.st.lh (.install recovering tail)) := by
    rw [← hpc]
    exact (h.cached.fill fun hb => absurd hb hregion).put fun _ => by rw [hdata, hkept]
  have hdisk : s'.disk = Function.update x.st.disk dst (x.group.kept dst) := by
    rw [installBlock_some hs, ← hdata]
    cases recovering <;> rfl
  have hfields : s'.lh = x.st.lh ∧ s'.ops = x.st.ops ∧ s'.outstanding = x.st.outstanding ∧
      s'.modified = x.st.modified ∧ s'.logged = x.st.logged ∧ s'.committing = x.st.committing := by
    rw [installBlock_some hs]
    cases recovering <;> exact ⟨rfl, rfl, rfl, rfl, rfl, rfl⟩
  obtain ⟨hlh, hops, hout, hmod, hlogged, hcommitting⟩ := hfields
  have hsame : ∀ b, ¬ Home start b → s'.disk b = x.st.disk b := by
    intro b hb
    rw [hdisk]
    exact Function.update_of_ne (by rintro rfl; exact hb hhome) ..
  have hstart : s'.disk start = x.st.disk start := hsame start not_home_start
  refine h.quietly hne hops hout hmod hlogged ?_ (hlh ▸ h.tracked.outside) (hlh ▸ h.tracked.room)
    (hstart ▸ h.size) ?_ h.last ?_ ?_ ?_ ⟨hkept, hc, ?_, ?_⟩
  · intro hc b hb
    exact h.clean_quiet hne hc (hlh ▸ hb)
  · rw [entries_congr h.size hsame, hdisk]
    exact h.replays.install
  · obtain rfl := installBlock_some hs
    cases recovering
    · -- the block was pinned once
      rw [pinned, drop_next hdst] at hput
      have hnodup := h.nodup (by rw [hpc]; rfl)
      exact { hput.bunpin (notMem_drop_of_nodup hnodup hdst) with }
    · exact { hput with }
  · intro hr
    exact hlh ▸ h.nodup (by rw [hpc]; exact hr)
  · exact hcommitting.trans (h.committing.trans (by rw [hpc]; rfl))
  · rw [hstart, hheader]
    exact hlh.symm
  · intro i hi b hb
    rw [hlh] at hb
    show s'.disk b = x.group.now b
    rw [hdisk, hkept]
    by_cases hbd : b = dst
    · subst hbd
      exact Function.update_self ..
    · rw [Function.update_of_ne hbd]
      refine hinst i ?_ b hb
      by_contra hle
      obtain rfl : i = tail := by omega
      exact hbd (Option.some.inj (hb.symm.trans hdst))

/-- All blocks of the log are at home. -/
theorem Inv.installEnd {recovering : Bool} {tail : Nat} (h : Inv start d x)
    (hpc : x.st.pc = .install recovering tail) (htail : x.st.lh.length ≤ tail) :
    Inv start d { x with st := { x.st with pc := .eraseHead recovering } } := by
  have hphase := h.phase
  rw [hpc] at hphase
  refine h.moved (by rw [hpc]; simp) (by rw [hpc]; rfl) (by rw [hpc]; rfl) (List.nil_subset _)
    ⟨hphase.1, hphase.2.1, hphase.2.2.1, ?_⟩
  exact fun i hi => hphase.2.2.2 i (Nat.lt_of_lt_of_le hi htail)

/-- The log is erased when all of its blocks are at home. -/
theorem Inv.eraseHead {recovering : Bool} (h : Inv start d x) (hpc : x.st.pc = .eraseHead recovering)
    (hs : State.write_head start { x.st with lh := [] } = some s') :
    Inv start d { x with st := { s' with pc := if recovering then .idle else .finish } } := by
  have hphase := h.phase
  rw [hpc] at hphase
  obtain ⟨hkept, hc, hheader, hinst⟩ := hphase
  have hne : x.st.pc ≠ .idle := by rw [hpc]; simp
  obtain rfl := write_head_some hs
  have hdisk : (({ x.st with lh := [] } : State).put start
      (writeHeader [] (State.data { x.st with lh := [] } start))).disk start 0 = 0 := by
    rw [put_disk_self]
    rfl
  have hhome : ∀ b, Home start b → (({ x.st with lh := [] } : State).put start
      (writeHeader [] (State.data { x.st with lh := [] } start))).disk b = x.group.kept b := by
    intro b hb
    rw [put_disk_of_ne (by rintro rfl; exact not_home_start hb)]
    refine h.replays.installed ?_ hb
    intro e he
    obtain ⟨i, hi, -⟩ := (mem_entries hheader).mp he
    obtain ⟨hlt, -⟩ := List.getElem?_eq_some_iff.mp hi
    rw [hkept]
    exact hinst i hlt e.1 hi
  have hcached : Cached start { x with st := { x.st with lh := [] } } [] :=
    { h.cached.mono (List.nil_subset _) with }
  refine h.quietly hne rfl rfl rfl rfl ?_ (by intro b hb; cases hb) (Nat.zero_le _)
    (by rw [hdisk]; exact Nat.zero_le _) ?_ h.last ?_ (fun _ => List.nodup_nil) ?_ ?_
  · intro hf b _
    rw [← hkept, kept_of_not_committed hf]
  · rw [entries_nil hdisk, replays_nil]
    exact hhome
  · cases recovering
    all_goals exact { hcached.put fun hb => absurd hb not_home_start with }
  · exact h.committing.trans (by rw [hpc]; cases recovering <;> rfl)
  · cases recovering
    · exact ⟨hkept, hdisk, rfl⟩
    · exact ⟨hc, hdisk⟩

/-- The group is over. -/
theorem Inv.finish (h : Inv start d x) (hpc : x.st.pc = .finish) :
    Inv start d { st := { x.st with committing := false, pc := .idle },
                  group := { x.group with before := x.group.now, committed := false } } := by
  have hphase := h.phase
  rw [hpc] at hphase
  obtain ⟨hkept, hnil, hlh⟩ := hphase
  have hne : x.st.pc ≠ .idle := by rw [hpc]; simp
  have hrun : x.st.pc.running = true := by rw [hpc]; rfl
  have hsame : Group.kept { x.group with before := x.group.now, committed := false } = x.group.kept :=
    hkept.symm
  refine h.quietly hne rfl rfl rfl rfl (fun _ _ _ => rfl) h.tracked.outside h.tracked.room h.size
    ?_ (hsame.trans h.last) ?_ (fun _ => h.nodup hrun) rfl ⟨rfl, hnil⟩
  · rw [hsame]
    exact h.replays
  · have hcached := h.cached
    rw [hpc] at hcached
    exact { hcached with }

/-- The step of `commit` or `recover_from_log`. -/
theorem Inv.proceed (h : Inv start d x) (hs : x.st.proceed start = some s') :
    Inv start d { st := s', group := x.group.observe x.st.pc .proceed } := by
  unfold State.proceed at hs
  split at hs
  · cases hs
  · cases hs
  · rename_i hpc
    cases hs
    rw [show x.group.observe x.st.pc .proceed = x.group by rw [hpc]; rfl]
    exact h.commit hpc
  · rename_i tail hpc
    rw [show x.group.observe x.st.pc .proceed = x.group by rw [hpc]; rfl]
    split at hs
    · rename_i dst hdst
      obtain ⟨s₁, hs₁, rfl⟩ := Option.map_eq_some_iff.mp hs
      exact h.logBlock hpc hdst hs₁
    · rename_i hnone
      cases hs
      exact h.writeLogEnd hpc (List.getElem?_eq_none_iff.mp hnone)
  · rename_i hpc
    obtain ⟨s₁, hs₁, rfl⟩ := Option.map_eq_some_iff.mp hs
    rw [show x.group.observe x.st.pc .proceed =
      { x.group with committed := true, commits := x.group.commits ++ [x.group.now] } by rw [hpc]; rfl]
    exact h.writeHead hpc hs₁
  · rename_i recovering tail hpc
    rw [show x.group.observe x.st.pc .proceed = x.group by rw [hpc]; rfl]
    split at hs
    · rename_i dst hdst
      obtain ⟨s₁, hs₁, rfl⟩ := Option.map_eq_some_iff.mp hs
      exact h.installBlock hpc hdst hs₁
    · rename_i hnone
      cases hs
      exact h.installEnd hpc (List.getElem?_eq_none_iff.mp hnone)
  · rename_i recovering hpc
    obtain ⟨s₁, hs₁, rfl⟩ := Option.map_eq_some_iff.mp hs
    rw [show x.group.observe x.st.pc .proceed = x.group by rw [hpc]; rfl]
    exact h.eraseHead hpc hs₁
  · rename_i hpc
    split at hs
    · cases hs
      rw [show x.group.observe x.st.pc .proceed =
        { x.group with before := x.group.now, committed := false } by rw [hpc]; rfl]
      exact h.finish hpc
    · cases hs

/-! ## Crashes -/

theorem Inv.down {g : Group} {disk : Nat → Block} (hsize : disk start 0 ≤ LOGBLOCKS)
    (hreplays : Replays (Home start) (entries start disk) disk g.kept) (hlast : g.kept = g.last d)
    (hc : g.committed = false) (hnow : g.now = g.before) :
    Inv start d { st := .down disk, group := g } where
  size := hsize
  replays := hreplays
  last := hlast
  cached := {
    home := fun b c hdata => by cases hdata
    region := fun b c hdata => by cases hdata
    refs := fun b => Nat.le_refl 0
    filled := fun b hb => by
      rcases hb with hb | hb
      · cases hb
      · exact absurd rfl hb }
  tracked := {
    nodup := List.nodup_nil
    outstanding := rfl
    modified := fun p b hb => by cases hb
    logged := fun p b hb => by cases hb
    held := fun p b hb => by cases hb
    clean := fun _ b _ _ => by rw [hnow]
    outside := fun b hb => by cases hb
    room := Nat.zero_le _ }
  nodup := fun _ => List.nodup_nil
  quiet := fun _ => rfl
  committing := rfl
  phase := ⟨hc, hnow⟩

/-- A crash leaves the disk, and the contents that a replay gives. -/
theorem Inv.crash (h : Inv start d x) :
    Inv start d { st := .down x.st.disk, group := x.group.observe x.st.pc .crash } :=
  Inv.down h.size h.replays h.last rfl rfl

theorem Inv.initlog (h : Inv start d x) (hs : x.st.initlog start = some s') :
    Inv start d { x with st := s' } := by
  unfold State.initlog at hs
  split at hs
  · rename_i hpc
    obtain ⟨s₁, hs₁, rfl⟩ := Option.map_eq_some_iff.mp hs
    obtain rfl := read_head_some hs₁
    have hphase := h.phase
    rw [hpc] at hphase
    obtain ⟨hc, hnow⟩ := hphase
    have hne : x.st.pc ≠ .idle := by rw [hpc]; simp
    have hdata : x.st.data start = x.st.disk start := h.cached.data_region not_home_start
    have hentry : ∀ b ∈ readHeader (x.st.data start), Home start b := by
      intro b hb
      rw [hdata] at hb
      obtain ⟨i, hi⟩ := List.getElem?_of_mem hb
      exact (h.replays.entry (b, _) ((mem_entries rfl).mpr ⟨i, hi, rfl⟩)).1
    refine h.quietly hne rfl rfl rfl rfl (fun _ b _ => by rw [hnow]) hentry ?_ h.size h.replays h.last
      ?_ (fun hr => by cases hr) (h.committing.trans (by rw [hpc]; rfl)) ⟨?_, hc, ?_, ?_⟩
    · show (readHeader (x.st.data start)).length ≤ LOGBLOCKS
      rw [hdata]
      simpa [readHeader] using h.size
    · have hcached := h.cached.mono (List.nil_subset _)
      exact { hcached.fill fun hb => absurd hb not_home_start with }
    · rw [kept_of_not_committed hc, hnow]
    · exact congrArg readHeader hdata.symm
    · exact fun i hi => absurd hi (by omega)
  · cases hs

theorem Inv.step {a : Step} (h : Inv start d x) (hs : x.step start a = some x') :
    Inv start d x' := by
  obtain ⟨s', hs', rfl⟩ := Option.map_eq_some_iff.mp hs
  cases a with
  | call c =>
    simp only [State.step] at hs'
    split at hs'
    · rename_i hrun
      cases c with
      | begin_op p => exact h.begin_op hrun hs'
      | end_op p => exact h.end_op hs'
      | log_write p b => exact h.log_write hs'
      | bread p b => exact h.bread hrun hs'
      | store p b w v => exact h.store hs'
      | brelse p b => exact h.release hs'
    · cases hs'
  | proceed => exact h.proceed hs'
  | recycle b => exact h.recycle hs'
  | crash =>
    cases hs'
    exact h.crash
  | initlog => exact h.initlog hs'

theorem inv_run {as : List Step} (hclear : d start 0 = 0)
    (h : Run (System.step start) anyStep (System.init d) as x) : Inv start d x := by
  refine h.invariant ?_ fun _ _ _ hx _ hs => hx.step hs
  refine Inv.down (by rw [hclear]; exact Nat.zero_le _) ?_ rfl rfl rfl
  rw [entries_nil hclear, replays_nil]
  exact fun _ _ => rfl

/-! ## What a recovery brings back -/

/-- The steps of a machine that recovers. -/
def Step.recovers : Step → Bool
  | .proceed | .crash | .initlog => true
  | _ => false

def Pc.recovers : Pc → Bool
  | .off | .idle => true
  | .install recovering _ => recovering
  | .eraseHead recovering => recovering
  | _ => false

/-- A recovery takes nothing back that a crash would leave. -/
theorem kept_of_recovers {a : Step} (hpc : x.st.pc.recovers = true) (ha : a.recovers = true)
    (hs : x.step start a = some x') :
    x'.st.pc.recovers = true ∧ x'.group.kept = x.group.kept := by
  obtain ⟨s', hs', rfl⟩ := Option.map_eq_some_iff.mp hs
  cases a with
  | call c => cases ha
  | recycle b => cases ha
  | crash =>
    cases hs'
    exact ⟨rfl, rfl⟩
  | initlog =>
    simp only [State.step, State.initlog] at hs'
    split at hs'
    · obtain ⟨s₁, -, rfl⟩ := Option.map_eq_some_iff.mp hs'
      exact ⟨rfl, rfl⟩
    · cases hs'
  | proceed =>
    simp only [State.step, State.proceed] at hs'
    split at hs'
    · cases hs'
    · cases hs'
    · rename_i heq
      rw [heq] at hpc
      cases hpc
    · rename_i heq
      rw [heq] at hpc
      cases hpc
    · rename_i heq
      rw [heq] at hpc
      cases hpc
    · rename_i recovering tail heq
      rw [heq] at hpc
      obtain rfl : recovering = true := hpc
      rw [heq]
      split at hs'
      · obtain ⟨s₁, -, rfl⟩ := Option.map_eq_some_iff.mp hs'
        exact ⟨rfl, rfl⟩
      · cases hs'
        exact ⟨rfl, rfl⟩
    · rename_i recovering heq
      rw [heq] at hpc
      obtain rfl : recovering = true := hpc
      rw [heq]
      obtain ⟨s₁, -, rfl⟩ := Option.map_eq_some_iff.mp hs'
      exact ⟨rfl, rfl⟩
    · rename_i heq
      rw [heq] at hpc
      cases hpc

theorem kept_of_recovery {bs : List Step} {y : System}
    (hrun : Run (System.step start) anyStep x bs y) (hpc : x.st.pc.recovers = true)
    (hbs : ∀ a ∈ bs, a.recovers = true) :
    y.st.pc.recovers = true ∧ y.group.kept = x.group.kept := by
  induction hrun with
  | nil => exact ⟨hpc, rfl⟩
  | snoc _ _ hs ih =>
    obtain ⟨hpc', hkept⟩ := ih fun a ha => hbs a (List.mem_append_left _ ha)
    obtain ⟨hpc'', hkept'⟩ := kept_of_recovers hpc' (hbs _ (by simp)) hs
    exact ⟨hpc'', hkept'.trans hkept⟩

/-- A group whose commit write reached the disk is whole. -/
theorem Inv.quiet_of_committed (h : Inv start d x) (hc : x.group.committed = true) :
    x.st.ops = [] := by
  refine h.quiet fun hpc => ?_
  rw [(h.of_idle hpc).1] at hc
  cases hc

/-- A recovery after a crash, completed at last, brings back the contents before the group
of operations or, once its commit write has reached the disk, after the whole group. No
committed group is lost. -/
theorem a_recovery_brings_back_a_group_or_nothing (hclear : d start 0 = 0) {as bs : List Step}
    {y : System} (hrun : Run (System.step start) anyStep (System.init d) as x)
    (hcrash : Run (System.step start) anyStep x (.crash :: bs) y)
    (hbs : ∀ a ∈ bs, a.recovers = true) (hdone : y.st.pc = .idle) :
    (x.group.committed = false → ∀ b, Home start b → y.st.disk b = x.group.before b) ∧
    (x.group.committed = true →
      x.st.ops = [] ∧ ∀ b, Home start b → y.st.disk b = x.group.now b) ∧
    ∀ b, Home start b → y.st.disk b = x.group.last d b := by
  have hx := inv_run hclear hrun
  have hy := inv_run hclear (hrun.append hcrash)
  obtain ⟨z, -, hz, hrest⟩ := hcrash.head
  cases hz
  have hkept : y.group.kept = x.group.kept := (kept_of_recovery hrest rfl hbs).2
  have hhome : ∀ b, Home start b → y.st.disk b = x.group.kept b := by
    intro b hb
    rw [hy.home_of_nil (hy.of_idle hdone).2 hb, hkept]
  refine ⟨fun hc b hb => ?_, fun hc => ⟨hx.quiet_of_committed hc, fun b hb => ?_⟩, fun b hb => ?_⟩
  · rw [hhome b hb, kept_of_not_committed hc]
  · rw [hhome b hb, kept_of_committed hc]
  · rw [hhome b hb, hx.last]

/-- One operation changes a block. The machine crashes after the commit write and again in
the recovery, and the block is at home after the next one. -/
theorem a_committed_store_survives_two_crashes : ∃ as bs x y,
    Run (System.step 2) anyStep (System.init fun _ _ => 0) as x ∧
    Run (System.step 2) anyStep x (.crash :: bs) y ∧
    x.group.committed = true ∧ y.st.disk 40 = x.group.now 40 ∧ y.st.disk 40 0 = 7 := by
  have hcomputed : ((exec (System.step 2) anyStep (System.init fun _ _ => 0)
      [.initlog, .proceed, .proceed, .call (.begin_op 0), .call (.bread 0 40),
        .call (.store 0 40 0 7), .call (.log_write 0 40), .call (.brelse 0 40), .call (.end_op 0),
        .proceed, .proceed, .proceed, .proceed]).bind fun x =>
      (exec (System.step 2) anyStep x
        [.crash, .initlog, .proceed, .crash, .initlog, .proceed, .proceed, .proceed]).map
        fun y => (x, y)).any
      (fun z => z.1.group.committed ∧ z.2.st.pc = .idle ∧ z.2.st.disk 40 0 = 7) = true := by
    decide +kernel
  obtain ⟨⟨x, y⟩, hz, hend⟩ := (Option.any_eq_true _ _).mp hcomputed
  obtain ⟨x', hx, hxy⟩ := Option.bind_eq_some_iff.mp hz
  obtain ⟨y', hy, heq⟩ := Option.map_eq_some_iff.mp hxy
  cases heq
  obtain ⟨hc, hpc, hword⟩ := of_decide_eq_true hend
  have hrun := run_of_exec hx
  have hcrash := run_of_exec hy
  obtain ⟨-, hnow, -⟩ := a_recovery_brings_back_a_group_or_nothing rfl hrun hcrash (by decide) hpc
  exact ⟨_, _, x, y, hrun, hcrash, hc, (hnow hc).2 40 (by decide), hword⟩

end xv6.log
