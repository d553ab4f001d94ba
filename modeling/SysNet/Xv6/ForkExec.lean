-- `kfork`, `kexec` and the end of a process (kernel/proc.c, kernel/exec.c).
-- What they do succeeds, or it leaves nothing behind; and over any run of
-- the processes no page is lost, shared or reached by another process.
import SysNet.Lib.Runs
import SysNet.Xv6.ProcSpaces

open bytes radix shares runs

namespace xv6.spaces

open vm (PGSIZE MAXVA TRAMPOLINE TRAPFRAME uint64 PGROUNDUP PGROUNDDOWN)
open pagetable

variable {k : Image} {m m' m'' : Mem} {a b va p q n : Nat} {hand : List Nat} {x : Mapping}
  {s s' s'' : State} {M M' M'' : Nat → Map} {others others' : List Nat} {i j np : Nat}

/-! ## Slots -/

theorem State.set_proc (s : State) (i : Nat) (pr : Proc) : (s.set i pr).proc i = pr := Function.update_self ..

theorem State.set_set (s : State) (i : Nat) (pr pr' : Proc) : (s.set i pr).set i pr' = s.set i pr' := by
  unfold State.set
  rw [Function.update_idem]

/-- A slot that has nothing yet. -/
theorem freeproc_nothing {pr : Proc} (m : Mem) (htf : pr.trapframe = 0) (hpt : pr.pagetable = 0) :
    freeproc k (({ s with mem := m } : State).set i pr) i = .ok (({ s with mem := m } : State).set i .free) := by
  unfold spaces.freeproc
  simp only []
  rw [State.set_proc, if_neg (not_not.mpr htf), return_eq, ok_bind, if_neg (not_not.mpr hpt), return_eq, ok_bind]
  unfold State.set
  rw [Function.update_idem]
  rfl

/-- A slot that has a trapframe only. -/
theorem freeproc_trapframe {pr : Proc} (htf : pr.trapframe ≠ 0) (hpt : pr.pagetable = 0)
    (hm : kfree k.kernelEnd m pr.trapframe = .ok m') :
    freeproc k (({ s with mem := m } : State).set i pr) i = .ok (({ s with mem := m' } : State).set i .free) := by
  unfold spaces.freeproc
  simp only []
  rw [State.set_proc, if_pos htf]
  unfold State.set
  rw [hm, ok_bind, if_neg (not_not.mpr hpt), return_eq, ok_bind, Function.update_idem]
  rfl

/-- The process is gone, and all its pages are free. -/
theorem System.freeproc (h : System k s M others) (hi : i < NPROC) (hused : (s.proc i).used = true) :
    ∃ m' N, freeproc k s i = .ok ({ s with mem := m' }.set i .free) ∧
      Turn k s ({ s with mem := m' }.set i .free) M (Function.update M i N) others i := by
  have hlayout := h.layout i hi hused
  have hspace := h.space hi hused
  have htf : (s.proc i).trapframe ≠ 0 :=
    freeable_ne_zero (hspace.pages.page _ (List.mem_append_right _ (List.mem_append_left _ (List.mem_singleton_self _))))
  obtain ⟨heq₁, h₁, hmoved₁⟩ := hspace.give
  obtain ⟨m₂, heq₂, hmoved₂⟩ := h₁.proc_freepagetable hlayout.size hlayout.above
  have hmoved := hmoved₁.trans hmoved₂
  have hfree : held m₂ .free (M i) = [] := held_unused rfl
  unfold spaces.freeproc
  simp only []
  rw [if_pos htf, heq₁, ok_bind, if_pos hspace.root_ne_zero, heq₂, ok_bind]
  refine ⟨m₂, M i, rfl, h.turn hi ?_ (fun hu => nomatch hu) fun _ => rfl⟩
  unfold holds
  rw [held_used hused, hfree]
  exact hmoved

/-- Nothing has changed, but for what is in the free pages and their order. -/
structure Untouched (s s' : State) : Prop where
  proc : s'.proc = s.proc
  moved : Moved s.mem s'.mem [] []

theorem set_free (h : s.proc i = .free) (m' : Mem) : (({ s with mem := m' } : State).set i .free).proc = s.proc := by
  unfold State.set
  rw [← h, Function.update_eq_self]

/-- A slot with a new space, or nothing has changed. -/
theorem System.allocproc (h : System k s M others) :
    ∃ s' r, allocproc k s = .ok (s', r) ∧
      (r = none ∧ Untouched s s' ∨
        ∃ np tf pagetable, r = some np ∧ np < NPROC ∧ (s.proc np).used = false ∧
          s'.proc np = ⟨true, tf, pagetable, 0, []⟩ ∧
          Turn k s s' M (Function.update M np (kernelMap k tf)) others np) := by
  unfold spaces.allocproc
  cases hfind : (List.range NPROC).find? fun i => !(s.proc i).used with
  | none => exact ⟨s, none, rfl, Or.inl ⟨rfl, rfl, .refl _ _⟩⟩
  | some np =>
    have hnp : np < NPROC := List.mem_range.mp (List.mem_of_find?_eq_some hfind)
    have hfree : (s.proc np).used = false := by
      have hnot := List.find?_some hfind
      rw [Bool.not_eq_true'] at hnot
      exact hnot
    have hproc := h.unused np hnp hfree
    have hpt : (s.proc np).pagetable = 0 := by rw [hproc]; rfl
    simp only []
    cases hlist : s.mem.freelist with
    | nil =>
      rw [kalloc_none hlist]
      simp only []
      have hnone := freeproc_nothing (k := k) (s := s) (i := np) s.mem
        (show (Proc.mk true 0 (s.proc np).pagetable (s.proc np).sz (s.proc np).name).trapframe = 0 from rfl) hpt
      rw [hnone, ok_bind]
      exact ⟨_, none, rfl, Or.inl ⟨rfl, set_free hproc _, .refl _ _⟩⟩
    | cons tf free =>
      obtain ⟨m₁, hkalloc, -, hmoved₁, -⟩ := moved_kalloc hlist []
      have hpages₁ := h.nobody.moved hmoved₁
      have htf : Freeable k.kernelEnd tf :=
        hpages₁.page tf (List.mem_append_right _ (List.mem_singleton_self tf))
      obtain ⟨m₂, r, heq₂, hr⟩ := hpages₁.proc_pagetable (isPage_of_freeable htf)
      rw [hkalloc]
      simp only []
      rw [heq₂, ok_bind]
      rcases hr with ⟨rfl, hmoved₂⟩ | ⟨root, rfl, hspace, hmoved₂⟩
      · obtain ⟨heq₃, hmoved₃⟩ := (hpages₁.moved hmoved₂).give
        simp only []
        have hpart := freeproc_trapframe (s := s) (i := np)
          (show (Proc.mk true tf 0 (s.proc np).sz (s.proc np).name).trapframe ≠ 0 from freeable_ne_zero htf) rfl heq₃
        rw [hpart, ok_bind]
        exact ⟨_, none, rfl, Or.inl ⟨rfl, set_free hproc _, hmoved₁.trans (hmoved₂.trans hmoved₃)⟩⟩
      · have hheld : held m₂ ⟨true, tf, root, 0, []⟩ (kernelMap k tf) =
            [tf] ++ share m₂ root (kernelMap k tf) := held_used rfl
        refine ⟨_, some np, rfl, Or.inr ⟨np, tf, root, rfl, hnp, hfree, ?_, ?_⟩⟩
        · rw [hproc]
          exact State.set_proc ..
        · rw [hproc]
          apply h.turn hnp
          · unfold holds
            rw [held_unused hfree]
            change Moved s.mem m₂ [] (held m₂ ⟨true, tf, root, 0, []⟩ (kernelMap k tf))
            rw [hheld]
            exact hmoved₁.trans hmoved₂
          · exact fun _ => ⟨hspace.represents, zero_le_trapframe, fun q _ hq => kernelMap_user hq, fun _ _ => rfl⟩
          · exact fun hu => nomatch hu

/-! ## kfork -/

theorem Turn.untouched (h : Turn k s s' M M' others i) (hbefore : s.proc i = .free)
    (hafter : s'.proc i = .free) : Untouched s s' := by
  have hmoved := h.moved
  have hempty : ∀ (m : Mem) (N : Map), held m .free N = [] := fun _ _ => held_unused rfl
  unfold holds at hmoved
  rw [hbefore, hafter, hempty, hempty] at hmoved
  refine ⟨?_, hmoved⟩
  funext j
  by_cases hj : j = i
  · rw [hj, hbefore, hafter]
  · exact h.proc j hj

theorem update_update (M : Nat → Map) (i : Nat) (N N' : Map) :
    Function.update (Function.update M i N) i N' = Function.update M i N' := Function.update_idem ..

/-- What a process of the slot has beside its user pages. -/
theorem System.beside (h : System k s M others) (hi : i < NPROC) (hused : (s.proc i).used = true) :
    Space k s.mem (s.proc i).pagetable (M i) [] ∧
      Pages k s.mem (share s.mem (s.proc i).pagetable (M i) ++ ([(s.proc i).trapframe] ++ rest s M others i)) := by
  have hsplit := h.split hi
  unfold holds at hsplit
  rw [held_used hused] at hsplit
  have hpages := hsplit.reorder (List.perm_append_comm.append_right _)
  rw [List.append_assoc] at hpages
  refine ⟨⟨(h.layout i hi hused).represents, ?_⟩, hpages⟩
  rw [List.nil_append]
  exact hpages.of_append

/-- The child has a copy of what the parent has: its memory, and its trapframe with 0 in `a0`. -/
structure Child (k : Image) (s s' : State) (M : Nat → Map) (i np : Nat) (N : Map) : Prop where
  slot : np < NPROC
  unused : (s.proc np).used = false
  used : (s'.proc np).used = true
  size : (s'.proc np).sz = (s.proc i).sz
  name : (s'.proc np).name = safestrcpy (s.proc i).name 16
  copied : Copied s'.mem (M i) N (npages (s.proc i).sz)
  trapframe : ∃ old, s'.mem.page (s'.proc np).trapframe =
    put64 (fill old 0 288 (s.mem.page (s.proc i).trapframe)) 112 0

/-- The child is there, or `kfork` has left nothing behind. -/
theorem System.kfork (h : System k s M others) (hi : i < NPROC) (hused : (s.proc i).used = true) :
    ∃ s' r, kfork k s i = .ok (s', r) ∧
      (r = none ∧ Untouched s s' ∨
        ∃ np N, r = some np ∧ Turn k s s' M (Function.update M np N) others np ∧ Child k s s' M i np N) := by
  obtain ⟨s₁, r, heq₁, hr⟩ := h.allocproc
  unfold spaces.kfork
  rw [heq₁, ok_bind]
  rcases hr with ⟨rfl, hnothing⟩ | ⟨np, tf, root, rfl, hnp, hfree, hproc, hturn₁⟩
  · exact ⟨s₁, none, rfl, Or.inl ⟨rfl, hnothing⟩⟩
  have hne : i ≠ np := by
    rintro rfl
    exact Bool.false_ne_true (hfree.symm.trans hused)
  have hparent := hturn₁.proc i hne
  have hMparent := hturn₁.map i hne
  have hslot := h.unused np hnp hfree
  generalize hM₁ : Function.update M np (kernelMap k tf) = M₁ at *
  have hMnp : M₁ np = kernelMap k tf := by
    rw [← hM₁]
    exact Function.update_self ..
  have h₁ := hturn₁.system
  have hused₁ : (s₁.proc i).used = true := by rw [hparent, hused]
  have hnew : (s₁.proc np).used = true := by rw [hproc]
  obtain ⟨hspace, hR⟩ := h₁.beside hnp hnew
  have hlayout := h₁.layout i hi hused₁
  have hiR : ∀ a ∈ holds s₁ M₁ i, a ∈ [(s₁.proc np).trapframe] ++ rest s₁ M₁ others np :=
    fun a ha => List.mem_append_right _ (mem_rest hi hne ha)
  have hloop := hspace.uvmcopyLoop (p := 0) hR hlayout.represents
    (fun a ha => hiR a (isTable_held hused₁ ha)) (fun a ha => hiR a (user_held hused₁ ha)) hlayout.size
    (Nat.zero_le _) (fun q hq => absurd hq (Nat.not_lt_zero q))
    (fun q _ hq => by rw [hMnp]; exact kernelMap_user hq)
    (show (s₁.proc i).sz ≤ (0 + ((s₁.proc i).sz + PGSIZE - 1) / PGSIZE) * PGSIZE by
      unfold PGSIZE
      omega)
  obtain ⟨m₂, done, N, heq₂, hspace₂, hmoved₂, hhigh, hdone⟩ := hloop
  rw [Nat.zero_mul] at heq₂
  simp only []
  unfold spaces.uvmcopy
  rw [heq₂, ok_bind]
  simp only []
  have hkernel : ∀ q, USER ≤ q → N q = kernelMap k (s₁.proc np).trapframe q := by
    intro q hq
    rw [hhigh q hq]
    exact (h₁.layout np hnp hnew).kernel q hq
  have hframed := hmoved₂.frame [(s₁.proc np).trapframe]
  have hmoved := hframed.reorder List.perm_append_comm List.perm_append_comm
  have hR₂ := hR.moved (hmoved₂.frame _)
  have hspace₃ : Space k m₂ (s₁.proc np).pagetable N [(s₁.proc np).trapframe] := by
    refine ⟨hspace₂.represents, (?_ : Pages k m₂ _)⟩
    rw [← List.append_assoc] at hR₂
    exact hR₂.of_append.reorder List.perm_append_comm
  rcases hdone with ⟨rfl, hcopied, habove⟩ | ⟨rfl, hempty⟩
  · rw [if_pos rfl]
    generalize hm₃ : copyTrapframe m₂ (s₁.proc np).trapframe (s₁.proc i).trapframe = m₃
    have hfreelist : m₃.freelist = m₂.freelist := by
      rw [← hm₃]
      rfl
    have hsame : ∀ a, a ≠ (s₁.proc np).trapframe → m₃.page a = m₂.page a := by
      intro a ha
      rw [← hm₃]
      exact Function.update_of_ne ha ..
    obtain ⟨hspace₄, -, hmoved₃⟩ := hspace₃.fill hfreelist hsame
    have hall := hmoved.trans hmoved₃
    have hslotne : ∀ a ∈ rest s₁ M₁ others np, a ≠ (s₁.proc np).trapframe := by
      rintro a ha rfl
      have hnodup := (List.nodup_append.mp ((List.nodup_append.mp hR.nodup).2.1)).2.1
      exact (List.nodup_append.mp hnodup).2.2 _ (List.mem_singleton_self _) _ ha rfl
    have hturn₂ := h₁.turn hnp (N := N) (p := { s₁.proc np with
      sz := (s₁.proc i).sz, name := safestrcpy (s₁.proc i).name 16 }) (by
        have hafter : held m₃ { s₁.proc np with sz := (s₁.proc i).sz, name := safestrcpy (s₁.proc i).name 16 } N =
            [(s₁.proc np).trapframe] ++ share m₃ (s₁.proc np).pagetable N := held_used hnew
        unfold holds
        rw [held_used hnew, hafter]
        exact hall)
      (fun _ => ⟨hspace₄.represents, hlayout.size, habove, hkernel⟩)
      (fun hu => absurd (hu.symm.trans hnew) Bool.false_ne_true)
    have hturn := hturn₁.trans hturn₂
    rw [← hM₁, update_update] at hturn
    refine ⟨_, some np, rfl, Or.inr ⟨np, N, rfl, hturn, hnp, hfree, ?_, ?_, ?_, ?_, ?_⟩⟩
    · rw [State.set_proc]
      exact hnew
    · rw [State.set_proc, hparent]
    · rw [State.set_proc, hparent]
    · rw [← hMparent, ← hparent]
      apply hcopied.kept (npages_le hlayout.size) _ _ fun q _ => rfl
      · intro a ha
        apply hsame
        rintro rfl
        exact hspace₃.hand_not_user (List.mem_singleton_self _) ha
      · intro a ha
        exact hsame a (hslotne a (mem_rest hi hne (user_held hused₁ ha)))
    · have htf : (s₁.proc i).trapframe ∈ holds s₁ M₁ i := by
        unfold holds
        rw [held_used hused₁]
        exact List.mem_append_left _ (List.mem_singleton_self _)
      have htf₀ : (s.proc i).trapframe ∈ holds s M i := by
        unfold holds
        rw [held_used hused]
        exact List.mem_append_left _ (List.mem_singleton_self _)
      refine ⟨m₂.page (s₁.proc np).trapframe, ?_⟩
      rw [State.set_proc, ← hturn₁.page h hnp (mem_rest hi hne htf₀), ← hparent,
        ← hmoved₂.page_of_frame hR (hiR _ htf), ← hm₃]
      exact Function.update_self ..
  · rw [if_neg Bool.false_ne_true]
    have hturn₂ := h₁.resize hnp hnew hspace₃
      hmoved (h₁.layout np hnp hnew).size (fun q _ hq => hempty q hq) fun q hq => by
        rw [hkernel q hq]
        exact ((h₁.layout np hnp hnew).kernel q hq).symm
    rw [State.set_same] at hturn₂
    obtain ⟨m₃, N', heq₃, hturn₃⟩ := hturn₂.system.freeproc hnp hnew
    rw [heq₃, ok_bind]
    exact ⟨_, none, rfl, Or.inl ⟨rfl, ((hturn₁.trans hturn₂).trans hturn₃).untouched hslot (State.set_proc ..)⟩⟩

/-! ## kexec -/

/-- What is in a page changes. -/
theorem Moved.inside {A : List Nat} (hfree : m'.freelist = m.freelist) (hsame : ∀ a, a ≠ b → m'.page a = m.page a)
    (hb : b ∈ A) : Moved m m' A A := by
  refine ⟨by rw [hfree], fun a ha => hsame a ?_⟩
  rintro rfl
  exact ha (List.mem_append_right _ hb)

/-- What the registers of the new program are set to. -/
def started (m : Mem) (tf sp entry : Nat) : Mem :=
  setTrapframe (setTrapframe (setTrapframe m tf 120 sp) tf 24 entry) tf 48 sp

theorem started_page {tf sp entry : Nat} (h : a ≠ tf) : (started m tf sp entry).page a = m.page a := by
  unfold started setTrapframe
  simp only [Function.update_of_ne h]

/-- The new space takes the place of the old one, whose pages are free then. -/
theorem System.replace {root sz : Nat} {N : Map} (name : List UInt8) (h : System k s M others)
    (hi : i < NPROC) (hused : (s.proc i).used = true) (hspace : Space k m root N [])
    (hmoved : Moved s.mem m [] (share m root N)) (hsz : sz ≤ TRAPFRAME)
    (habove : ∀ q, npages sz ≤ q → q < USER → N q = none)
    (hkernel : ∀ q, USER ≤ q → N q = kernelMap k (s.proc i).trapframe q)
    (hfree : m'.freelist = m.freelist) (hsame : ∀ a, a ≠ (s.proc i).trapframe → m'.page a = m.page a) :
    ∃ m'', proc_freepagetable k m' (s.proc i).pagetable (s.proc i).sz = .ok m'' ∧
      Turn k s ({ s with mem := m'' }.set i { s.proc i with pagetable := root, sz, name })
        M (Function.update M i N) others i ∧
      ∀ a ∈ [(s.proc i).trapframe] ++ share m root N, m''.page a = m'.page a := by
  obtain ⟨hold, hpages⟩ := h.beside hi hused
  have hlayout := h.layout i hi hused
  have hrepresents := hlayout.represents
  generalize htf : (s.proc i).trapframe = tf at *
  generalize hpt : (s.proc i).pagetable = old at *
  generalize hSo : share s.mem old (M i) = So at *
  generalize hSn : share m root N = Sn at *
  -- the new pages are no one's, so the old space is as it was
  have hframed : Pages k s.mem ([] ++ (So ++ ([tf] ++ rest s M others i))) := by
    rw [List.nil_append]
    exact hpages
  have hkept : ∀ a ∈ So ++ ([tf] ++ rest s M others i), m.page a = s.mem.page a :=
    fun a ha => hmoved.page_of_frame hframed ha
  have htables : ∀ a, IsTable s.mem old a → a ∈ So := by
    intro a ha
    rw [← hSo]
    exact List.mem_append_left _ (mem_tablesOf.mpr ha)
  have hall : Pages k m (Sn ++ (So ++ ([tf] ++ rest s M others i))) :=
    hframed.moved (hmoved.frame _)
  have hapart := (List.nodup_append.mp hall.nodup).2.1
  rw [List.nodup_append] at hapart
  have htfSo : tf ∉ So := by
    intro hm
    have hnodup := (List.nodup_append.mp hapart.2.1).2.2
    exact hnodup tf hm tf (List.mem_append_left _ (List.mem_singleton_self tf)) rfl
  have htfSn : tf ∉ Sn := by
    intro hm
    exact hapart.2.2 tf hm tf (List.mem_append_right _ (List.mem_append_left _ (List.mem_singleton_self tf))) rfl
  have hkept' : ∀ a ∈ So, m'.page a = s.mem.page a := by
    intro a ha
    rw [hsame a (fun heq => htfSo (heq ▸ ha)), hkept a (List.mem_append_left _ ha)]
  have hSo' : share m' old (M i) = So := by
    rw [← hSo]
    unfold share
    rw [tablesOf_congr fun a ha => hkept' a (htables a ha)]
  have hall' : Pages k m' (So ++ ([tf] ++ Sn)) := by
    have hmoved' : Moved m m' (Sn ++ (So ++ [tf])) (Sn ++ (So ++ [tf])) :=
      .inside hfree hsame (List.mem_append_right _ (List.mem_append_right _ (List.mem_singleton_self tf)))
    rw [← List.append_assoc So, ← List.append_assoc Sn] at hall
    have hfront := hall.of_append.moved hmoved'
    apply hfront.reorder
    rw [← List.append_assoc So]
    exact List.perm_append_comm
  have hold' : Space k m' old (M i) [] := by
    refine ⟨hrepresents.congr fun a ha => hkept' a (htables a ha), ?_⟩
    rw [List.nil_append, hSo']
    exact hall'.of_append
  obtain ⟨m'', heq, hmoved''⟩ := hold'.proc_freepagetable hlayout.size hlayout.above
  rw [List.nil_append, hSo'] at hmoved''
  have hkept'' : ∀ a ∈ [tf] ++ Sn, m''.page a = m'.page a := fun a ha => hmoved''.page_of_frame hall' ha
  have hnew : ∀ a, IsTable m root a → m''.page a = m.page a := by
    intro a ha
    have haSn : a ∈ Sn := by
      rw [← hSn]
      exact List.mem_append_left _ (mem_tablesOf.mpr ha)
    rw [hkept'' a (List.mem_append_right _ haSn), hsame a fun heq => htfSn (heq ▸ haSn)]
  have hSn' : share m'' root N = Sn := by
    rw [← hSn]
    unfold share
    rw [tablesOf_congr hnew]
  have hfirst : Moved s.mem m ([tf] ++ So) (Sn ++ (So ++ [tf])) := by
    have hframe := hmoved.frame (So ++ [tf])
    rw [List.nil_append] at hframe
    exact hframe.reorder List.perm_append_comm (.refl _)
  have hsecond : Moved m m' (Sn ++ (So ++ [tf])) (So ++ ([tf] ++ Sn)) := by
    have hin : Moved m m' (Sn ++ (So ++ [tf])) (Sn ++ (So ++ [tf])) :=
      .inside hfree hsame (List.mem_append_right _ (List.mem_append_right _ (List.mem_singleton_self tf)))
    apply hin.reorder (.refl _)
    rw [← List.append_assoc So]
    exact List.perm_append_comm
  have hlast := (hfirst.trans hsecond).trans (hmoved''.frame ([tf] ++ Sn))
  rw [List.nil_append] at hlast
  refine ⟨m'', heq, h.turn hi ?_ (fun _ => ?_) ?_, hkept''⟩
  · have hafter : held m'' { s.proc i with pagetable := root, sz, name } N =
        [(s.proc i).trapframe] ++ share m'' root N := held_used hused
    unfold holds
    rw [held_used hused, hafter, htf, hpt, hSo, hSn']
    exact hlast
  · refine ⟨hspace.represents.congr hnew, hsz, habove, fun q hq => ?_⟩
    rw [hkernel q hq]
    change _ = kernelMap k (s.proc i).trapframe q
    rw [htf]
  · intro hu
    exact absurd (hu.symm.trans hused) Bool.false_ne_true

/-- The new program is there, or `kexec` has left nothing behind. -/
theorem System.kexec {argv : List (List UInt8)} (path : List UInt8) (file : Option (List UInt8))
    (h : System k s M others) (hi : i < NPROC) (hused : (s.proc i).used = true)
    (hargv : ∀ arg ∈ argv, arg.length < PGSIZE) :
    ∃ s' r, kexec k s i path file argv = .ok (s', r) ∧
      (r = none ∧ Untouched s s' ∨
        ∃ N, r = some argv.length ∧ Turn k s s' M (Function.update M i N) others i) := by
  have hnothing : ∃ s' r, (Except.ok (s, none) : Except Panic (State × Option Nat)) = .ok (s', r) ∧
      (r = none ∧ Untouched s s' ∨
        ∃ N, r = some argv.length ∧ Turn k s s' M (Function.update M i N) others i) :=
    ⟨s, none, rfl, Or.inl ⟨rfl, rfl, .refl _ _⟩⟩
  cases file with
  | none => exact hnothing
  | some file =>
    unfold spaces.kexec
    simp only []
    by_cases hshort : (readi file 0 64).length ≠ 64
    · rw [if_pos hshort]
      exact hnothing
    rw [if_neg hshort]
    by_cases hmagic : get32 (buffer (readi file 0 64)) 0 ≠ ELF_MAGIC
    · rw [if_pos hmagic]
      exact hnothing
    rw [if_neg hmagic]
    have htf : IsPage (s.proc i).trapframe := by
      apply isPage_of_freeable (k := k)
      apply (h.space hi hused).pages.page
      exact List.mem_append_right _ (List.mem_append_left _ (List.mem_singleton_self _))
    obtain ⟨m₁, r, heq₁, hr⟩ := h.nobody.proc_pagetable htf
    rw [heq₁, ok_bind]
    rcases hr with ⟨rfl, hmoved₁⟩ | ⟨root, rfl, hspace₁, hmoved₁⟩
    · exact ⟨_, none, rfl, Or.inl ⟨rfl, rfl, hmoved₁⟩⟩
    have hloaded : Loaded (kernelMap k (s.proc i).trapframe) 0 :=
      ⟨zero_le_trapframe, fun q hq => absurd hq (by rw [npages_eq zero_le_trapframe]; exact Nat.not_lt_zero q),
        fun q _ hq => kernelMap_user hq⟩
    obtain ⟨m₂, sz, sp, N, heq₂, hspace₂, hmoved₂, hsz, habove, hkernel⟩ :=
      hspace₁.build (s.proc i) file hloaded hargv
    have hmoved := hmoved₁.trans hmoved₂
    simp only []
    rw [heq₂, ok_bind]
    cases sp with
    | none =>
      obtain ⟨m₃, heq₃, hmoved₃⟩ := hspace₂.proc_freepagetable hsz habove
      simp only []
      rw [heq₃, ok_bind]
      exact ⟨_, none, rfl, Or.inl ⟨rfl, rfl, hmoved.trans hmoved₃⟩⟩
    | some sp =>
      rw [List.nil_append] at hmoved
      obtain ⟨m₃, heq₃, hturn, -⟩ := h.replace (safestrcpy (last path) 16) hi hused hspace₂ hmoved hsz habove
        hkernel (show (started m₂ (s.proc i).trapframe sp (get64 (buffer (readi file 0 64)) 24)).freelist =
          m₂.freelist from rfl) fun a ha => started_page ha
      unfold started at heq₃
      simp only []
      rw [heq₃, ok_bind]
      exact ⟨_, _, rfl, Or.inr ⟨N, rfl, hturn⟩⟩

end xv6.spaces
