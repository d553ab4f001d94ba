-- How the processes of a pipeline are wired. Every stage writes to its own
-- pipe and reads from the one before, and nobody else keeps a write end, so
-- the end of a stage is the end of file of the next one.
import SysNet.Mysh.Processes

namespace mysh

open runs

/-! ## Descriptors -/

/-- Every write end in the table is one that `Q` allows at its place. -/
def Writes (Q : Nat → Nat → Prop) (fds : Fds) : Prop :=
  ∀ d i, fds d = some (.writeEnd i) → Q d i

/-- The three standard descriptors are open. -/
def Opens (fds : Fds) : Prop := ∀ d < 3, (fds d).isSome = true

/-- Standard input is the pipe in front of stage `i`. -/
def Stdin (k i : Nat) (fds : Fds) : Prop := ∀ j, i = j + 1 → fds STDIN_FILENO = some (.readEnd (k + j))

section
variable {Q Q' : Nat → Nat → Prop} {fds : Fds} {k i d limit : Nat} {x : Desc}

theorem Writes.update (h : Writes Q fds) (hx : ∀ i, x = .writeEnd i → Q d i) :
    Writes Q (Function.update fds d (some x)) := by
  intro d' i hd
  by_cases heq : d' = d
  · subst heq
    rw [Function.update_self] at hd
    exact hx i (Option.some.inj hd)
  · rw [Function.update_of_ne heq] at hd
    exact h d' i hd

theorem Writes.mono (h : Writes Q fds) (hQ : ∀ d i, Q d i → Q' d i) : Writes Q' fds :=
  fun d i hd => hQ d i (h d i hd)

/-- Behind a `close`, only the other places count. -/
theorem Writes.close (h : Writes Q fds) (hQ : ∀ d' i, d' ≠ d → Q d' i → Q' d' i) :
    Writes Q' (close fds d) := by
  intro d' i hd
  by_cases heq : d' = d
  · subst heq
    simp [mysh.close] at hd
  · rw [mysh.close, Function.update_of_ne heq] at hd
    exact hQ d' i heq (h d' i hd)

theorem Opens.update (h : Opens fds) : Opens (Function.update fds d (some x)) := by
  intro d' hd
  by_cases heq : d' = d
  · simp [heq]
  · simpa [Function.update_of_ne heq] using h d' hd

theorem Opens.close (h : Opens fds) (hd : 3 ≤ d) : Opens (close fds d) := by
  intro d' hd'
  rw [mysh.close, Function.update_of_ne (by omega)]
  exact h d' hd'

theorem Stdin.update (h : Stdin k i fds) (hd : d ≠ 0) (y : Option Desc) :
    Stdin k i (Function.update fds d y) := by
  intro j hj
  rw [Function.update_of_ne (show STDIN_FILENO ≠ d from Ne.symm hd)]
  exact h j hj

/-- A new descriptor is none of the standard ones. -/
theorem three_le_of_lowest (h : Opens fds) (hd : lowest limit fds = some d) : 3 ≤ d := by
  by_contra hlt
  have hsome := h d (by omega)
  have hnone := List.find?_some hd
  simp only [Option.isNone_iff_eq_none] at hnone
  simp [hnone] at hsome

end

/-! ## The processes of a pipeline -/

/-- The stage has a redirection of the descriptor. -/
def Node.redirects (d : Nat) : Node → Bool
  | .redir fd _ child _ => fd = d || child.redirects d
  | _ => false

/-- What tail `i` of the pipeline still has to run. -/
structure Piece (n : Node) (i : Nat) (m : Node) : Prop where
  stages : n.stages.drop i = m.stages
  pipeline : m.IsPipeline

/-- How far the tail of a pipeline is. -/
inductive Phase
  /-- no pipe yet -/
  | before
  /-- the pipe is made -/
  | made
  /-- the process of its left side is forked -/
  | half
  /-- both are forked -/
  | done
  /-- it forks nothing -/
  | free

/-- What the phase of a process says of the others. -/
def Holds (k : Nat) (roles : List Role) (pipes : Nat) : Role → Phase → Prop
  | .tail r, .before => pipes = k + r ∧ .stage r ∉ roles ∧ .tail (r + 1) ∉ roles
  | .tail r, .made => pipes = k + r + 1 ∧ .stage r ∉ roles ∧ .tail (r + 1) ∉ roles
  | .tail r, .half => pipes = k + r + 1 ∧ .stage r ∈ roles ∧ .tail (r + 1) ∉ roles
  | .tail r, .done => .stage r ∈ roles ∧ .tail (r + 1) ∈ roles
  | .stage _, .free => True
  | .tail _, .free => True
  | .stage _, _ => False

/-- The process of stage `i`: the last stage has no pipe behind it. -/
def stageRole (n : Node) (i : Nat) : Role :=
  if i + 1 < n.stages.length then .stage i else .tail i

/-- The table of the process of stage `i`, whose tree is `st`. -/
structure Ends (k : Nat) (n : Node) (i : Nat) (st : Node) (fds : Fds) : Prop where
  here : n.stages[i]? = some st
  opens : Opens fds
  /-- standard output is the write end of the pipe behind the stage -/
  out : i + 1 < n.stages.length → st.redirects STDOUT_FILENO = false →
    fds STDOUT_FILENO = some (.writeEnd (k + i))
  inp : st.redirects STDIN_FILENO = false → Stdin k i fds
  own : Writes (fun _ j => j < k ∨ j = k + i ∧ i + 1 < n.stages.length) fds

/-- What is left of the tree `st` of a stage. -/
structure Under (st m : Node) : Prop where
  pipes : m.pipes = 0
  args : m.args = st.args
  redirects : ∀ d, m.redirects d = true → st.redirects d = true

/-- The code of a stage from its call of `exec` on. -/
inductive Running (st : Node) : Status → List Stmt → Prop
  | exec {m rest} : Under st m → Running st .shell (.exec m :: rest)
  | dup2 {old new m rest} : Under st m → st.redirects new = true →
      Running st .shell (.dup2 old new :: .exec m :: rest)
  | execvp {rest} : Running st .shell (.execvp st.args :: .exit :: rest)
  | program : Running st (.program st.args) []
  | exit {rest} : Running st .shell (.exit :: rest)

/-- The code of a parent that has closed the write end. -/
inductive Waiting : List Stmt → Prop
  | close {fd code} : Waiting code → Waiting (.close fd :: code)
  | wait {code} : Waiting code → Waiting (.wait :: code)
  | exit : Waiting [.exit]
  | waitLine : Waiting [.waitLine, .getline]
  | getline : Waiting [.getline]

/-- The table of a process that made a pipe for its two sides, before it closes the ends. -/
structure Parent (k : Nat) (n : Node) (r : Nat) (left right : Node) (fd0 fd1 : Nat)
    (rest : List Stmt) (fds : Fds) : Prop where
  piece : Piece n r (.pipe left right)
  opens : Opens fds
  three0 : 3 ≤ fd0
  three1 : 3 ≤ fd1
  inp : Stdin k r fds
  readEnd : fds fd0 = some (.readEnd (k + r))
  writeEnd : fds fd1 = some (.writeEnd (k + r))
  own : Writes (fun d i => i < k ∨ d = fd1) fds
  rest : Waiting rest

/-- The code and the table of a process, by its role and its phase. -/
inductive Local (k : Nat) (n : Node) : Role → Phase → Status → List Stmt → Fds → Prop
  /-- the right side of a `PIPE` node, before it has its standard input -/
  | in0 {j m fd0 fd1 fds} : Piece n (j + 1) m → Opens fds → 3 ≤ fd0 → 3 ≤ fd1 →
      fds fd0 = some (.readEnd (k + j)) → Writes (fun d i => i < k ∨ d = fd1) fds →
      Local k n (.tail (j + 1)) .before .shell
        [.dup2OrExit fd0 STDIN_FILENO, .close fd1, .close fd0, .exec m, .exit] fds
  | in1 {r m fd0 fd1 fds} : Piece n r m → Opens fds → 3 ≤ fd0 → 3 ≤ fd1 → Stdin k r fds →
      Writes (fun d i => i < k ∨ d = fd1) fds →
      Local k n (.tail r) .before .shell [.close fd1, .close fd0, .exec m, .exit] fds
  | in2 {r m fd0 fds} : Piece n r m → Opens fds → 3 ≤ fd0 → Stdin k r fds →
      Writes (fun _ i => i < k) fds →
      Local k n (.tail r) .before .shell [.close fd0, .exec m, .exit] fds
  /-- a tail in front of its call of `exec` -/
  | call {r m rest fds} : Piece n r m → Opens fds → Stdin k r fds → Writes (fun _ i => i < k) fds →
      Waiting rest → Local k n (.tail r) .before .shell (.exec m :: rest) fds
  | fork1 {r left right fd0 fd1 rest fds} : Parent k n r left right fd0 fd1 rest fds →
      Local k n (.tail r) .made .shell (.forkLeft left fd0 fd1 :: .forkRight right fd0 fd1 ::
        .close fd1 :: .close fd0 :: .wait :: .wait :: rest) fds
  | fork2 {r left right fd0 fd1 rest fds} : Parent k n r left right fd0 fd1 rest fds →
      Local k n (.tail r) .half .shell (.forkRight right fd0 fd1 ::
        .close fd1 :: .close fd0 :: .wait :: .wait :: rest) fds
  | closes {r left right fd0 fd1 rest fds} : Parent k n r left right fd0 fd1 rest fds →
      Local k n (.tail r) .done .shell (.close fd1 :: .close fd0 :: .wait :: .wait :: rest) fds
  | waits {r code fds} : r + 1 < n.stages.length → Writes (fun _ i => i < k) fds →
      Waiting code → Local k n (.tail r) .done .shell code fds
  /-- the left side of a `PIPE` node, before it has its standard output -/
  | out0 {i st fd0 fd1 fds} : n.stages[i]? = some st → st.pipes = 0 → i + 1 < n.stages.length →
      Opens fds → 3 ≤ fd0 → 3 ≤ fd1 → Stdin k i fds → fds fd1 = some (.writeEnd (k + i)) →
      Writes (fun _ j => j < k ∨ j = k + i) fds →
      Local k n (.stage i) .free .shell
        [.dup2OrExit fd1 STDOUT_FILENO, .close fd0, .close fd1, .exec st, .exit] fds
  | out {i st c cs fds} : st.pipes = 0 → i + 1 < n.stages.length → Ends k n i st fds →
      (∀ d ∈ c :: cs, 3 ≤ d) →
      Local k n (.stage i) .free .shell ((c :: cs).map .close ++ [.exec st, .exit]) fds
  /-- a stage from its call of `exec` on -/
  | run {i st status code fds} : Ends k n i st fds → Running st status code →
      Local k n (stageRole n i) .free status code fds
  /-- a tail that has forked both sides and exited -/
  | gone {r status} : status = .exited ∨ status = .reaped → r + 1 < n.stages.length →
      Local k n (.tail r) .done status [] (fun _ => none)
  /-- a stage that has exited -/
  | ended {i status} : status = .exited ∨ status = .reaped → i < n.stages.length →
      Local k n (stageRole n i) .free status [] (fun _ => none)

/-- The processes of a pipeline, at any time. -/
structure Wired (k : Nat) (n : Node) (s : Sys) : Prop where
  nodup : (s.procs.map Proc.role).Nodup
  root : .tail 0 ∈ s.procs.map Proc.role
  order : ∀ i, .stage i ∈ s.procs.map Proc.role ∨ .tail (i + 1) ∈ s.procs.map Proc.role →
    .tail i ∈ s.procs.map Proc.role
  procs : ∀ p ∈ s.procs, ∃ ph, Local k n p.role ph p.status p.code p.fds ∧
    Holds k (s.procs.map Proc.role) s.pipes p.role ph

/-- The calls of a `PIPE` node that are followed by `exit(1)` when they fail. -/
def Stmt.isChecked : Stmt → Bool
  | .forkLeft _ _ _ => true
  | .forkRight _ _ _ => true
  | .dup2OrExit _ _ => true
  | _ => false

/-- No `fork` and no `dup2` of a `PIPE` node fails, and no further line is read. -/
def callsSucceed (s : Sys) : Action → Prop
  | .fail pid => (s.procs[pid]?.bind (·.code.head?)).all (fun w => !w.isChecked) = true
  | .line _ _ => False
  | _ => True

instance (s : Sys) (a : Action) : Decidable (callsSucceed s a) :=
  match a with
  | .fail _ => inferInstanceAs (Decidable (_ = true))
  | .line _ _ => isFalse id
  | .run _ => isTrue trivial
  | .reap _ _ => isTrue trivial

/-! ## Steps of one process and the others -/

section
variable {k limit pid r : Nat} {n : Node} {s s' : Sys} {p q : Proc} {a : Action}
variable {roles : List Role} {pipes : Nat} {ρ ρ' : Role} {ph : Phase}

/-- A new pipe: nobody else was in front of its own. -/
theorem Holds.pipe (h : Holds k roles pipes ρ ph) (hr : pipes = k + r) (hmem : .tail r ∈ roles)
    (hne : ρ ≠ .tail r) : Holds k roles (pipes + 1) ρ ph := by
  cases ρ with
  | stage i => cases ph <;> exact h
  | tail i =>
    have hi : i ≠ r := fun heq => hne (heq ▸ rfl)
    cases ph with
    | before =>
      obtain ⟨h1, -⟩ := h
      omega
    | made | half =>
      obtain ⟨h1, -, h2⟩ := h
      obtain rfl : r = i + 1 := by omega
      exact absurd hmem h2
    | done | free => exact h

/-- A new process: it is of the one that forks. -/
theorem Holds.fork (h : Holds k roles pipes ρ ph) (hne : ρ ≠ .tail r)
    (hρ : ρ' = .stage r ∨ ρ' = .tail (r + 1)) : Holds k (roles ++ [ρ']) pipes ρ ph := by
  cases ρ with
  | stage i => cases ph <;> exact h
  | tail i =>
    have hi : i ≠ r := fun heq => hne (heq ▸ rfl)
    have h1 : .stage i ≠ ρ' := by rcases hρ with rfl | rfl <;> simp [hi]
    have h2 : .tail (i + 1) ≠ ρ' := by rcases hρ with rfl | rfl <;> simp [hi]
    cases ph <;> simp_all [Holds]

theorem map_role_set (hp : s.procs[pid]? = some p) (hrole : q.role = p.role) :
    (s.procs.set pid q).map Proc.role = s.procs.map Proc.role := by
  apply List.ext_getElem?
  intro i
  rw [List.getElem?_map, List.getElem?_map, List.getElem?_set]
  split
  · subst ‹pid = i›
    have hlt : pid < s.procs.length := (List.getElem?_eq_some_iff.mp hp).1
    rw [if_pos hlt, hp, Option.map_some, Option.map_some, hrole]
  · rfl

theorem Wired.ne (h : Wired k n s) (hp : s.procs[pid]? = some p) {i : Nat} (hi : i ≠ pid)
    (hq : s.procs[i]? = some q) : q.role ≠ p.role := by
  intro heq
  have h1 : (s.procs.map Proc.role)[i]? = some p.role := by simp [hq, heq]
  have h2 : (s.procs.map Proc.role)[pid]? = some p.role := by simp [hp]
  obtain ⟨hlt, -⟩ := List.getElem?_eq_some_iff.mp h1
  exact hi ((List.getElem?_inj hlt h.nodup).mp (h1.trans h2.symm))

theorem Wired.mem_roles (hp : s.procs[pid]? = some p) : p.role ∈ s.procs.map Proc.role :=
  List.mem_map.mpr ⟨p, List.mem_of_getElem? hp, rfl⟩

/-- A process goes on, with the same phase or a later one. -/
theorem Wired.setProc (h : Wired k n s) (hp : s.procs[pid]? = some p) (hrole : q.role = p.role)
    (hq : Local k n q.role ph q.status q.code q.fds)
    (hholds : Holds k (s.procs.map Proc.role) s.pipes q.role ph) :
    Wired k n (s.setProc pid q) := by
  have hroles : (s.setProc pid q).procs.map Proc.role = s.procs.map Proc.role :=
    map_role_set hp hrole
  refine ⟨hroles ▸ h.nodup, hroles ▸ h.root, hroles ▸ h.order, ?_⟩
  rw [hroles]
  intro q' hq'
  obtain ⟨i, hi⟩ := List.mem_iff_getElem?.mp hq'
  rcases Sys.getElem?_setProc hi with ⟨-, rfl⟩ | ⟨-, hi⟩
  · exact ⟨ph, hq, hholds⟩
  · exact h.procs q' (List.mem_of_getElem? hi)

/-- A tail makes its pipe. -/
theorem Wired.piped {left right : Node} {fd0 fd1 : Nat} {rest : List Stmt} (h : Wired k n s)
    (hp : s.procs[pid]? = some p) (hrole : p.role = .tail r) (hst : p.status = .shell)
    (hholds : Holds k (s.procs.map Proc.role) s.pipes p.role .before)
    (hparent : Parent k n r left right fd0 fd1 rest (Function.update (Function.update p.fds fd0
      (some (.readEnd s.pipes))) fd1 (some (.writeEnd s.pipes)))) :
    Wired k n (s.piped pid p left right fd0 fd1 rest) := by
  have hroles : (s.piped pid p left right fd0 fd1 rest).procs.map Proc.role =
      s.procs.map Proc.role := map_role_set hp rfl
  have hmem : .tail r ∈ s.procs.map Proc.role := hrole ▸ Wired.mem_roles hp
  rw [hrole] at hholds
  refine ⟨hroles ▸ h.nodup, hroles ▸ h.root, hroles ▸ h.order, ?_⟩
  rw [hroles]
  intro q' hq'
  obtain ⟨i, hi⟩ := List.mem_iff_getElem?.mp hq'
  rcases Sys.getElem?_setProc hi with ⟨-, rfl⟩ | ⟨hne, hi⟩
  · refine ⟨.made, ?_, ?_⟩
    · simp only [hrole, hst]
      exact .fork1 hparent
    · simp only [hrole]
      obtain ⟨h1, h2⟩ := hholds
      exact ⟨congrArg (· + 1) h1, h2⟩
  · obtain ⟨ph, hl, hh⟩ := h.procs q' (List.mem_of_getElem? hi)
    exact ⟨ph, hl, hh.pipe hholds.1 hmem (hrole ▸ h.ne hp hne hi)⟩

/-- A tail forks one of its sides. -/
theorem Wired.fork {rest code : List Stmt} (ph ph' : Phase) (h : Wired k n s)
    (hp : s.procs[pid]? = some p) (hrole : p.role = .tail r)
    (hρ : ρ' = .stage r ∨ ρ' = .tail (r + 1)) (hnew : ρ' ∉ s.procs.map Proc.role)
    (hparent : Local k n (.tail r) ph p.status rest p.fds)
    (hholds : Holds k (s.procs.map Proc.role ++ [ρ']) s.pipes (.tail r) ph)
    (hchild : Local k n ρ' ph' .shell code p.fds)
    (hholds' : Holds k (s.procs.map Proc.role ++ [ρ']) s.pipes ρ' ph') :
    Wired k n (s.fork pid p rest code ρ') := by
  have hset : (s.procs.set pid { p with code := rest }).map Proc.role = s.procs.map Proc.role :=
    map_role_set hp rfl
  have hroles : (s.fork pid p rest code ρ').procs.map Proc.role =
      s.procs.map Proc.role ++ [ρ'] := by
    simp only [Sys.fork, List.map_append, hset, List.map_cons, List.map_nil]
  have hmem : .tail r ∈ s.procs.map Proc.role := hrole ▸ Wired.mem_roles hp
  refine ⟨?_, ?_, ?_, ?_⟩
  · rw [hroles]
    exact List.nodup_append.mpr ⟨h.nodup, by simp, fun a ha b hb => by
      rw [List.mem_singleton.mp hb]
      exact fun heq => hnew (heq ▸ ha)⟩
  · rw [hroles]
    exact List.mem_append_left _ h.root
  · rw [hroles]
    intro i hi
    refine List.mem_append_left _ ?_
    simp only [List.mem_append, List.mem_singleton] at hi
    rcases hi with (hi | rfl) | (hi | rfl)
    · exact h.order i (Or.inl hi)
    · obtain rfl : i = r := by simpa using hρ
      exact hmem
    · exact h.order i (Or.inr hi)
    · obtain rfl : i = r := by simpa using hρ
      exact hmem
  · rw [hroles]
    intro q' hq'
    obtain ⟨i, hi⟩ := List.mem_iff_getElem?.mp hq'
    rcases Sys.getElem?_fork hi with ⟨-, rfl⟩ | ⟨hne, hi⟩ | ⟨-, rfl⟩
    · refine ⟨ph, ?_, ?_⟩
      · simp only [hrole]
        exact hparent
      · simp only [hrole]
        exact hholds
    · obtain ⟨ph, hl, hh⟩ := h.procs q' (List.mem_of_getElem? hi)
      exact ⟨ph, hl, hh.fork (hrole ▸ h.ne hp hne hi) hρ⟩
    · exact ⟨ph', hchild, hholds'⟩

/-! ## The steps of each kind of process -/

theorem Piece.lt {m : Node} (h : Piece n r m) : r < n.stages.length := by
  by_contra hge
  have h0 := h.stages
  rw [List.drop_eq_nil_of_le (by omega)] at h0
  cases m <;> simp [Node.stages] at h0

theorem Piece.left {left right : Node} (h : Piece n r (.pipe left right)) :
    n.stages[r]? = some left ∧ left.pipes = 0 := by
  refine ⟨?_, h.pipeline.left⟩
  have h0 : (n.stages.drop r)[0]? = some left := by simp [h.stages, Node.stages]
  simpa using h0

theorem Piece.right {left right : Node} (h : Piece n r (.pipe left right)) :
    Piece n (r + 1) right := by
  refine ⟨?_, h.pipeline.right⟩
  rw [← List.drop_drop, h.stages]
  simp [Node.stages]

theorem Piece.last {m : Node} (h : Piece n r m) (h0 : m.pipes = 0) :
    n.stages[r]? = some m ∧ r + 1 = n.stages.length := by
  have hdrop : n.stages.drop r = [m] := h.stages.trans (stages_of_pipes h0)
  have hlen := congrArg List.length hdrop
  have hget : (n.stages.drop r)[0]? = some m := by simp [hdrop]
  simp only [List.length_drop, List.length_singleton] at hlen
  exact ⟨by simpa using hget, by omega⟩

/-- The table of the last stage when it is called. -/
theorem Ends.last {m : Node} {fds : Fds} (hpiece : Piece n r m) (h0 : m.pipes = 0)
    (hopens : Opens fds) (hin : Stdin k r fds) (hw : Writes (fun _ i => i < k) fds) :
    Ends k n r m fds ∧ stageRole n r = .tail r := by
  obtain ⟨hget, hlen⟩ := hpiece.last h0
  exact ⟨⟨hget, hopens, fun hlt => by omega, fun _ => hin, hw.mono fun _ _ => Or.inl⟩,
    if_neg (by omega)⟩

theorem Under.refl {m : Node} (h0 : m.pipes = 0) : Under m m := ⟨h0, rfl, fun _ h => h⟩

/-- A call of `exec` on anything but a `PIPE` node is one of a stage. -/
theorem Local.exec {m : Node} {rest : List Stmt} {fds : Fds} {st : Status}
    (hm : ∀ left right, m ≠ .pipe left right) (h : Local k n ρ ph st (.exec m :: rest) fds) :
    ∃ i t, ρ = stageRole n i ∧ Ends k n i t fds ∧ Under t m := by
  cases h with
  | call hpiece hopens hin hw =>
    have h0 : m.pipes = 0 := hpiece.pipeline.root.resolve_left fun ⟨l, r, hlr⟩ => hm l r hlr
    obtain ⟨hends, hrole⟩ := Ends.last hpiece h0 hopens hin hw
    exact ⟨_, m, hrole.symm, hends, .refl h0⟩
  | waits _ _ hw => cases hw
  | run hends hrun =>
    cases hrun with
    | exec hunder => exact ⟨_, _, rfl, hends, hunder⟩

theorem Under.child {st child : Node} {fd mode : Nat} {file : Span}
    (h : Under st (.redir fd mode child file)) : Under st child ∧ st.redirects fd = true := by
  refine ⟨⟨h.pipes, h.args, fun d hd => h.redirects d ?_⟩, h.redirects fd ?_⟩
  · simp [Node.redirects, hd]
  · simp [Node.redirects]

/-- A redirection only touches what the stage redirects, or a new descriptor. -/
theorem Ends.update {i d : Nat} {st : Node} {fds : Fds} {x : Desc} (h : Ends k n i st fds)
    (hd : 3 ≤ d ∨ st.redirects d = true)
    (hx : ∀ j, x = .writeEnd j → j < k ∨ j = k + i ∧ i + 1 < n.stages.length) :
    Ends k n i st (Function.update fds d (some x)) where
  here := h.here
  opens := h.opens.update
  out hlt hno := by
    have hne : STDOUT_FILENO ≠ d := by
      rcases hd with hd | hd
      · exact Nat.ne_of_lt (Nat.lt_of_lt_of_le (by decide) hd)
      · rintro rfl
        simp [hno] at hd
    rw [Function.update_of_ne hne]
    exact h.out hlt hno
  inp hno := by
    have hne : d ≠ 0 := by
      rcases hd with hd | hd
      · omega
      · rintro rfl
        simp [STDIN_FILENO, hd] at hno
    exact (h.inp hno).update hne _
  own := h.own.update hx

theorem Ends.close {i d : Nat} {st : Node} {fds : Fds} (h : Ends k n i st fds) (hd : 3 ≤ d) :
    Ends k n i st (mysh.close fds d) where
  here := h.here
  opens := h.opens.close hd
  out hlt hno := by
    rw [mysh.close, Function.update_of_ne (Nat.ne_of_lt (Nat.lt_of_lt_of_le (by decide) hd))]
    exact h.out hlt hno
  inp hno := (h.inp hno).update (by omega) _
  own := h.own.close fun _ _ _ hq => hq

theorem holds_free (ρ : Role) : Holds k roles pipes ρ .free := by
  cases ρ <;> trivial

/-- A stage goes on. -/
theorem Wired.goOn {i : Nat} {st : Node} {q : Proc} (h : Wired k n s) (hp : s.procs[pid]? = some p)
    (hrole : p.role = stageRole n i) (hq : q.role = p.role) (hends : Ends k n i st q.fds)
    (hrun : Running st q.status q.code) : Wired k n (s.setProc pid q) := by
  refine h.setProc hp hq ?_ (holds_free _)
  rw [hq, hrole]
  exact .run hends hrun

/-- The step of a pipe. -/
theorem Wired.stepped_pipe {left right : Node} {rest : List Stmt} {fd0 fd1 : Nat}
    (h : Wired k n s) (hp : s.procs[pid]? = some p) (hst : p.status = .shell)
    (hcode : p.code = .exec (.pipe left right) :: rest)
    (h0 : lowest limit p.fds = some fd0)
    (h1 : lowest limit (Function.update p.fds fd0 (some (.readEnd s.pipes))) = some fd1) :
    Wired k n (s.piped pid p left right fd0 fd1 rest) := by
  obtain ⟨ph, hl, hh⟩ := h.procs p (List.mem_of_getElem? hp)
  rw [hcode, hst] at hl
  generalize hrole : p.role = ρ at hl hh
  cases hl with
  | call hpiece hopens hin hw hrest =>
    have hfd0 := three_le_of_lowest hopens h0
    have hfd1 := three_le_of_lowest hopens.update h1
    have hne : fd0 ≠ fd1 := by
      have hnone := List.find?_some h1
      rintro rfl
      simp at hnone
    have hpipes : s.pipes = k + _ := hh.1
    refine h.piped hp hrole hst (hrole ▸ hh) ⟨hpiece, hopens.update.update, hfd0, hfd1,
      (hin.update (by omega) _).update (by omega) _, ?_, ?_, ?_, hrest⟩
    · rw [Function.update_of_ne hne, Function.update_self, hpipes]
    · rw [Function.update_self, hpipes]
    · refine Writes.update (Writes.update (hw.mono fun _ _ => Or.inl) ?_) ?_
      · intro i hi
        cases hi
      · intro i _
        exact Or.inr rfl
  | waits _ _ hw => cases hw
  | run hends hrun =>
    cases hrun with
    | exec hunder =>
      have := hunder.pipes
      simp [Node.pipes] at this

/-- The step of the first `fork`. -/
theorem Wired.stepped_forkLeft {left : Node} {rest : List Stmt} {fd0 fd1 : Nat}
    (h : Wired k n s) (hp : s.procs[pid]? = some p) (hst : p.status = .shell)
    (hcode : p.code = .forkLeft left fd0 fd1 :: rest) :
    Wired k n (s.fork pid p rest [.dup2OrExit fd1 STDOUT_FILENO, .close fd0, .close fd1,
      .exec left, .exit] p.role.left) := by
  obtain ⟨ph, hl, hh⟩ := h.procs p (List.mem_of_getElem? hp)
  rw [hcode, hst] at hl
  generalize hrole : p.role = ρ at hl hh
  cases hl with
  | @fork1 r _ right _ _ _ _ hpar =>
    obtain ⟨hpipes, hno, hno'⟩ := hh
    obtain ⟨hget, hpipe⟩ := hpar.piece.left
    have hlt := hpar.piece.right.lt
    refine h.fork .half .free hp hrole (Or.inl rfl) hno ?_ ?_ ?_ trivial
    · rw [hst]
      exact .fork2 hpar
    · refine ⟨hpipes, by simp [Role.left], ?_⟩
      simpa [Role.left] using hno'
    · refine .out0 hget hpipe hlt hpar.opens hpar.three0 hpar.three1 hpar.inp hpar.writeEnd ?_
      intro d i hd
      rcases hpar.own d i hd with hi | rfl
      · exact Or.inl hi
      · rw [hpar.writeEnd] at hd
        cases hd
        exact Or.inr rfl
  | waits _ _ hw => cases hw
  | run hends hrun => cases hrun

/-- The step of the second `fork`. -/
theorem Wired.stepped_forkRight {right : Node} {rest : List Stmt} {fd0 fd1 : Nat}
    (h : Wired k n s) (hp : s.procs[pid]? = some p) (hst : p.status = .shell)
    (hcode : p.code = .forkRight right fd0 fd1 :: rest) :
    Wired k n (s.fork pid p rest [.dup2OrExit fd0 STDIN_FILENO, .close fd1, .close fd0,
      .exec right, .exit] p.role.right) := by
  obtain ⟨ph, hl, hh⟩ := h.procs p (List.mem_of_getElem? hp)
  rw [hcode, hst] at hl
  generalize hrole : p.role = ρ at hl hh
  cases hl with
  | @fork2 r left _ _ _ _ _ hpar =>
    obtain ⟨hpipes, hmem, hno⟩ := hh
    refine h.fork .done .before hp hrole (Or.inr rfl) hno ?_ ?_ ?_ ?_
    · rw [hst]
      exact .closes hpar
    · exact ⟨List.mem_append_left _ hmem, by simp [Role.right]⟩
    · exact .in0 hpar.piece.right hpar.opens hpar.three0 hpar.three1 hpar.readEnd hpar.own
    · -- nobody is behind a tail that did not exist
      have h1 : .stage (r + 1) ∉ s.procs.map Proc.role := fun hs => hno (h.order _ (Or.inl hs))
      have h2 : .tail (r + 2) ∉ s.procs.map Proc.role := fun hs => hno (h.order _ (Or.inr hs))
      refine ⟨hpipes, ?_, ?_⟩
      · simpa [Role.right] using h1
      · simpa [Role.right] using h2
  | waits _ _ hw => cases hw
  | run hends hrun => cases hrun

/-- A process that runs the shell's code goes on in its phase. -/
theorem Wired.advance {code : List Stmt} {fds : Fds} (h : Wired k n s)
    (hp : s.procs[pid]? = some p) (hst : p.status = .shell)
    (hnext : ∀ ρ ph, Local k n ρ ph .shell p.code p.fds → Local k n ρ ph .shell code fds) :
    Wired k n (s.setProc pid { p with code := code, fds := fds }) := by
  obtain ⟨ph, hl, hh⟩ := h.procs p (List.mem_of_getElem? hp)
  rw [hst] at hl
  have hl' : Local k n p.role ph p.status code fds := hst ▸ hnext _ _ hl
  exact h.setProc hp rfl hl' hh

/-- A child of a `PIPE` node takes its end of the pipe. -/
theorem Local.dup2OrExit {old new : Nat} {d : Desc} {rest : List Stmt} {fds : Fds}
    (hl : Local k n ρ ph .shell (.dup2OrExit old new :: rest) fds) (hd : fds old = some d) :
    Local k n ρ ph .shell rest (Function.update fds new (some d)) := by
  cases hl with
  | @in0 j _ _ _ _ hpiece hopens hfd0 hfd1 hread hw =>
    obtain rfl : d = .readEnd (k + j) := Option.some.inj (hd.symm.trans hread)
    refine .in1 hpiece hopens.update hfd0 hfd1 ?_ (hw.update fun i hi => ?_)
    · intro j' hj
      cases hj
      exact Function.update_self ..
    · cases hi
  | @out0 i st fd0 _ _ hget hpipe hlt hopens hfd0 hfd1 hin hwrite hw =>
    obtain rfl : d = .writeEnd (k + i) := Option.some.inj (hd.symm.trans hwrite)
    have hcs : ∀ d ∈ [fd0, old], 3 ≤ d := by simp [hfd0, hfd1]
    have hends : Ends k n i st (Function.update fds STDOUT_FILENO (some (.writeEnd (k + i)))) := by
      refine ⟨hget, hopens.update, fun _ _ => Function.update_self ..,
        fun _ => hin.update (by decide) _, ?_⟩
      refine Writes.update (hw.mono fun _ _ hi => hi.imp_right fun hi => ⟨hi, hlt⟩) ?_
      intro i hi
      cases hi
      exact Or.inr ⟨rfl, hlt⟩
    exact .out hpipe hlt hends hcs
  | waits _ _ hw => cases hw
  | run hends hrun => cases hrun

/-- A process closes an end of a pipe. -/
theorem Local.close {d : Nat} {rest : List Stmt} {fds : Fds}
    (hl : Local k n ρ ph .shell (.close d :: rest) fds) :
    Local k n ρ ph .shell rest (mysh.close fds d) := by
  cases hl with
  | in1 hpiece hopens hfd0 hfd1 hin hw =>
    refine .in2 hpiece (hopens.close hfd1) hfd0 (hin.update (by omega) _) (hw.close ?_)
    intro d' i hne hi
    exact hi.resolve_right hne
  | in2 hpiece hopens hfd0 hin hw =>
    exact .call hpiece (hopens.close hfd0) (hin.update (by omega) _)
      (hw.close fun _ _ _ hi => hi) .exit
  | closes hpar =>
    refine .waits hpar.piece.right.lt (hpar.own.close ?_) (.close (.wait (.wait hpar.rest)))
    intro d' i hne hi
    exact hi.resolve_right hne
  | waits hlt hw hcode =>
    cases hcode with
    | close hcode => exact .waits hlt (hw.close fun _ _ _ hi => hi) hcode
  | @out i st _ cs _ hpipe hlt hends hcs =>
    have hclosed := hends.close (hcs d (List.mem_cons_self ..))
    cases cs with
    | nil =>
      have hrole : stageRole n i = .stage i := if_pos hlt
      rw [← hrole]
      exact .run hclosed (.exec (.refl hpipe))
    | cons c cs => exact .out hpipe hlt hclosed fun d' hd' => hcs d' (List.mem_cons_of_mem _ hd')
  | run hends hrun => cases hrun

/-- A stage goes on with its redirections. -/
theorem Local.dup2 {old : Option Nat} {new : Nat} {rest : List Stmt} {fds fds' : Fds}
    (hl : Local k n ρ ph .shell (.dup2 old new :: rest) fds)
    (hfds : fds' = fds ∨ ∃ d x, fds d = some x ∧ fds' = Function.update fds new (some x)) :
    Local k n ρ ph .shell rest fds' := by
  cases hl with
  | waits _ _ hw => cases hw
  | run hends hrun =>
    cases hrun with
    | dup2 hunder hnew =>
      refine .run ?_ (.exec hunder)
      rcases hfds with rfl | ⟨d, x, hd, rfl⟩
      · exact hends
      · exact hends.update (Or.inr hnew) fun j hj => hends.own d j (hj ▸ hd)

theorem Local.wait {w : Stmt} {rest : List Stmt} {fds : Fds} {status : Status}
    (hl : Local k n ρ ph status (w :: rest) fds) (hw : w = .wait ∨ w = .waitLine) :
    Local k n ρ ph status rest fds := by
  rcases hw with rfl | rfl
  all_goals
    cases hl with
    | waits hlt hw hcode =>
      cases hcode
      first
        | exact .waits hlt hw .getline
        | exact .waits hlt hw ‹_›
    | run hends hrun => cases hrun

/-- A process that exits has forked both sides, or is a stage. -/
theorem Local.exit {rest : List Stmt} {fds : Fds}
    (hl : Local k n ρ ph .shell (.exit :: rest) fds) :
    Local k n ρ ph .exited [] (fun _ => none) := by
  cases hl with
  | waits hlt hw hcode => exact .gone (Or.inl rfl) hlt
  | run hends hrun => exact .ended (Or.inl rfl) (List.getElem?_eq_some_iff.mp hends.here).1

theorem Local.execvp {args : List Span} {rest : List Stmt} {fds : Fds}
    (hl : Local k n ρ ph .shell (.execvp args :: rest) fds) :
    Local k n ρ ph (.program args) [] fds ∧ Local k n ρ ph .shell rest fds := by
  cases hl with
  | waits _ _ hw => cases hw
  | run hends hrun =>
    cases hrun
    exact ⟨.run hends .program, .run hends .exit⟩

theorem Local.program {args : List Span} {code : List Stmt} {fds : Fds}
    (hl : Local k n ρ ph (.program args) code fds) :
    Local k n ρ ph .exited [] (fun _ => none) := by
  cases hl with
  | run hends hrun => exact .ended (Or.inl rfl) (List.getElem?_eq_some_iff.mp hends.here).1
  | gone hst => simp at hst
  | ended hst => simp at hst

theorem Local.no_fork {line : List Char} {rest : List Stmt} {fds : Fds} {status : Status} :
    ¬ Local k n ρ ph status (.fork line :: rest) fds := by
  intro hl
  cases hl with
  | waits _ _ hw => cases hw
  | run hends hrun => cases hrun

theorem Local.no_parse {line : List Char} {rest : List Stmt} {fds : Fds} {status : Status} :
    ¬ Local k n ρ ph status (.parse line :: rest) fds := by
  intro hl
  cases hl with
  | waits _ _ hw => cases hw
  | run hends hrun => cases hrun

theorem Local.exited {code : List Stmt} {fds : Fds} (hl : Local k n ρ ph .exited code fds) :
    code = [] ∧ Local k n ρ ph .reaped code fds := by
  cases hl with
  | gone _ hlt => exact ⟨rfl, .gone (Or.inr rfl) hlt⟩
  | ended _ hlt => exact ⟨rfl, .ended (Or.inr rfl) hlt⟩
  | run hends hrun => cases hrun

/-- One step of a process that runs the shell's code. -/
theorem Wired.stepped (h : Wired k n s) (hp : s.procs[pid]? = some p) (hst : p.status = .shell)
    (hok : callsSucceed s a) (hs : s.Stepped limit pid p a s') : Wired k n s' := by
  obtain ⟨ph, hl, hh⟩ := h.procs p (List.mem_of_getElem? hp)
  rw [hst] at hl
  cases hs with
  | fork hcode =>
    rw [hcode] at hl
    exact hl.no_fork.elim
  | parse hcode =>
    rw [hcode] at hl
    exact hl.no_parse.elim
  | pipe hcode h0 h1 => exact h.stepped_pipe hp hst hcode h0 h1
  | opened hcode hd =>
    rw [hcode] at hl
    obtain ⟨i, t, hrole, hends, hunder⟩ := hl.exec (by simp)
    obtain ⟨hchild, hfd⟩ := hunder.child
    refine h.goOn hp hrole rfl (hends.update (Or.inl (three_le_of_lowest hends.opens hd)) ?_)
      (hst ▸ .dup2 hchild hfd)
    intro j hj
    cases hj
  | notOpened hcode =>
    rw [hcode] at hl
    obtain ⟨i, t, hrole, hends, hunder⟩ := hl.exec (by simp)
    obtain ⟨hchild, hfd⟩ := hunder.child
    exact h.goOn hp hrole rfl hends (hst ▸ .dup2 hchild hfd)
  | @leaf args rest hcode =>
    rw [hcode] at hl
    obtain ⟨i, t, hrole, hends, hunder⟩ := hl.exec (by simp)
    have hargs : args = t.args := hunder.args
    refine h.goOn hp hrole rfl hends ?_
    simp only [hst, hargs]
    exact .execvp
  | forkLeft hcode => exact h.stepped_forkLeft hp hst hcode
  | forkRight hcode => exact h.stepped_forkRight hp hst hcode
  | dup2OrExit hcode hd =>
    exact h.advance hp hst fun ρ ph hl => (hcode ▸ hl : Local k n ρ ph _ _ _).dup2OrExit hd
  | dup2 hcode hd =>
    exact h.advance hp hst fun ρ ph hl =>
      (hcode ▸ hl : Local k n ρ ph _ _ _).dup2 (Or.inr ⟨_, _, hd, rfl⟩)
  | notDuped hcode =>
    exact h.advance hp hst fun ρ ph hl => (hcode ▸ hl : Local k n ρ ph _ _ _).dup2 (Or.inl rfl)
  | close hcode =>
    exact h.advance hp hst fun ρ ph hl => (hcode ▸ hl : Local k n ρ ph _ _ _).close
  | noChild hcode hw =>
    exact h.advance hp hst fun ρ ph hl => (hcode ▸ hl : Local k n ρ ph _ _ _).wait hw
  | execvp hcode =>
    rw [hcode] at hl
    exact h.setProc hp rfl hl.execvp.1 hh
  | notExecuted hcode =>
    exact h.advance hp hst fun ρ ph hl => (hcode ▸ hl : Local k n ρ ph _ _ _).execvp.2
  | exits hcode hw =>
    rw [hcode] at hl
    have hexit : Local k n p.role ph .exited [] (fun _ => none) := by
      rcases hw with ⟨-, rfl | ⟨line, rfl⟩⟩ | ⟨rfl, hw⟩
      · exact hl.exit
      · exact hl.no_parse.elim
      · simp only [callsSucceed, hp, Option.bind_some, hcode, List.head?_cons] at hok
        rcases hw with ⟨line, rfl⟩ | ⟨m, fd0, fd1, rfl⟩ | ⟨m, fd0, fd1, rfl⟩ | ⟨old, new, rfl⟩
        · exact hl.no_fork.elim
        · simp [Stmt.isChecked] at hok
        · simp [Stmt.isChecked] at hok
        · simp [Stmt.isChecked] at hok
    exact h.setProc hp rfl hexit hh

/-- Every step keeps the pipeline wired. -/
theorem Wired.step (h : Wired k n s) (hok : callsSucceed s a) (hs : s.step limit a = some s') :
    Wired k n s' := by
  obtain ⟨pid, p, hp, ⟨hst, hstep⟩ | ⟨⟨args, hst⟩, rfl⟩ | ⟨line, rest, rfl, -⟩ |
    ⟨child, w, rest, rfl, hcode, hw, hreap, rfl⟩⟩ := Sys.step_cases hs
  · exact h.stepped hp hst hok hstep
  · obtain ⟨ph, hl, hh⟩ := h.procs p (List.mem_of_getElem? hp)
    rw [hst] at hl
    exact h.setProc hp rfl hl.program hh
  · exact hok.elim
  · obtain ⟨ph, hl, hh⟩ := h.procs p (List.mem_of_getElem? hp)
    rw [hcode] at hl
    have hset : Wired k n (s.setProc pid { p with code := rest }) := h.setProc hp rfl (hl.wait hw) hh
    -- the child that is waited for has exited, so it is another process
    obtain ⟨c, hc, hcst⟩ := (Option.any_eq_true _ _).mp hreap
    simp only [Bool.and_eq_true, decide_eq_true_eq] at hcst
    have hne : child ≠ pid := by
      rintro rfl
      obtain rfl : p = c := Option.some.inj (hp.symm.trans hc)
      rw [hcst.2] at hl
      exact absurd hl.exited.1 (by simp)
    have hc' : (s.setProc pid { p with code := rest }).procs[child]? = some c := by
      rw [Sys.getElem?_setProc_ne _ hne, hc]
    obtain ⟨phc, hlc, hhc⟩ := hset.procs c (List.mem_of_getElem? hc')
    rw [hcst.2] at hlc
    have hreaped := hset.setProc hc' rfl (q := c.reap) hlc.exited.2 hhc
    have heq : s.reap pid p child rest =
        (s.setProc pid { p with code := rest }).setProc child c.reap := by
      have hlt : child < (s.procs.set pid { p with code := rest }).length :=
        (List.getElem?_eq_some_iff.mp hc').1
      simp only [Sys.reap, Sys.setProc] at hc' ⊢
      rw [List.modify_eq_set_getElem?, hc']
      rfl
    rw [heq]
    exact hreaped

end

/-! ## When everybody is in place -/

/-- The process has come to its `execvp` or, as a parent, to its first `wait`. -/
def Proc.settled (p : Proc) : Bool :=
  p.status ≠ .shell ||
    match p.code with
    | .execvp _ :: _ => true
    | .wait :: _ => true
    | .exit :: _ => true
    | .waitLine :: _ => true
    | .getline :: _ => true
    | _ => false

/-- A process that calls `exec` on the tree, as the child of `main` does. -/
def executing (n : Node) (fds : Fds) (k : Nat) : Sys :=
  { procs := [{ code := [.exec n, .waitLine, .getline], fds := fds, parent := none,
                status := .shell, role := .tail 0 }]
    pipes := k }

/-- The process of stage `i`: it runs the command of the stage, and has the
ends of its pipes. -/
structure Connected (k : Nat) (n : Node) (i : Nat) (st : Node) (p : Proc) : Prop where
  command : p.status = .shell ∧ (p.code.head? = some (.execvp st.args) ∨ p.code.head? = some .exit) ∨
    p.status = .program st.args ∨ p.status = .exited ∨ p.status = .reaped
  out : p.status = .shell ∨ p.status = .program st.args → i + 1 < n.stages.length →
    st.redirects STDOUT_FILENO = false → p.fds STDOUT_FILENO = some (.writeEnd (k + i))
  inp : p.status = .shell ∨ p.status = .program st.args → ∀ j, i = j + 1 →
    st.redirects STDIN_FILENO = false → p.fds STDIN_FILENO = some (.readEnd (k + j))
  gone : p.status = .exited ∨ p.status = .reaped → ∀ d, p.fds d = none

section
variable {k r i : Nat} {n : Node} {s : Sys} {p : Proc} {fds : Fds}

theorem executing_wired (hn : n.IsPipeline) (hopens : Opens fds)
    (hw : Writes (fun _ i => i < k) fds) : Wired k n (executing n fds k) where
  nodup := by simp [executing]
  root := by simp [executing]
  order i hi := by simp [executing] at hi
  procs p hp := by
    obtain rfl := List.mem_singleton.mp hp
    refine ⟨.before, .call ⟨rfl, hn⟩ hopens (fun j hj => by omega) hw .waitLine, ?_⟩
    simp [Holds, executing]

/-- A settled tail has forked both of its sides, or is the last stage. -/
theorem Local.settled {ρ : Role} {ph : Phase} (hl : Local k n ρ ph p.status p.code p.fds)
    (hs : p.settled = true) :
    (∃ r, ρ = .tail r ∧ ph = .done ∧ r + 1 < n.stages.length ∧ Writes (fun _ i => i < k) p.fds) ∨
      ∃ i st, ρ = stageRole n i ∧ n.stages[i]? = some st ∧ Connected k n i st p ∧
        Writes (fun _ j => j < k ∨ j = k + i ∧ i + 1 < n.stages.length) p.fds := by
  obtain ⟨code, fds, parent, status, role⟩ := p
  simp only at hl
  cases hl with
  | in0 | in1 | in2 | call | fork1 | fork2 | closes | out0 | out => simp [Proc.settled] at hs
  | waits hlt hw => exact Or.inl ⟨_, rfl, rfl, hlt, hw⟩
  | gone _ hlt => exact Or.inl ⟨_, rfl, rfl, hlt, fun d i hd => by cases hd⟩
  | ended hst hlt =>
    refine Or.inr ⟨_, _, rfl, List.getElem?_eq_getElem hlt, ⟨Or.inr (Or.inr hst), ?_, ?_,
      fun _ _ => rfl⟩, fun d i hd => by cases hd⟩
    · intro hst'
      rcases hst with rfl | rfl <;> simp at hst'
    · intro hst'
      rcases hst with rfl | rfl <;> simp at hst'
  | run hends hrun =>
    refine Or.inr ⟨_, _, rfl, hends.here, ⟨?_, fun _ => hends.out, ?_, ?_⟩, hends.own⟩
    · cases hrun with
      | exec | dup2 => simp [Proc.settled] at hs
      | execvp => exact Or.inl ⟨rfl, Or.inl rfl⟩
      | program => exact Or.inr (Or.inl rfl)
      | exit => exact Or.inl ⟨rfl, Or.inr rfl⟩
    · intro _ j hj hno
      exact hends.inp hno j hj
    · intro hst
      cases hrun <;> simp at hst

theorem stageRole_eq_tail (h : stageRole n i = .tail r) : i = r ∧ ¬ r + 1 < n.stages.length := by
  unfold stageRole at h
  split at h
  · cases h
  · cases h
    exact ⟨rfl, ‹_›⟩

theorem stageRole_inj {j : Nat} (h : stageRole n i = stageRole n j) : i = j := by
  unfold stageRole at h
  split at h <;> split at h <;> cases h <;> rfl

/-- In a settled pipeline every process exists. -/
theorem Wired.all_tails (h : Wired k n s) (hs : ∀ p ∈ s.procs, p.settled = true)
    (hi : i < n.stages.length) : .tail i ∈ s.procs.map Proc.role ∧
      (i + 1 < n.stages.length → .stage i ∈ s.procs.map Proc.role) := by
  have hforks : ∀ j, .tail j ∈ s.procs.map Proc.role → j + 1 < n.stages.length →
      .stage j ∈ s.procs.map Proc.role ∧ .tail (j + 1) ∈ s.procs.map Proc.role := by
    intro j hj hlt
    obtain ⟨p, hp, hrole⟩ := List.mem_map.mp hj
    obtain ⟨ph, hl, hh⟩ := h.procs p hp
    rw [hrole] at hl hh
    rcases hl.settled (hs p hp) with ⟨r, hr, rfl, -, -⟩ | ⟨i, st, hrole', -⟩
    · exact hh
    · exact absurd hlt (stageRole_eq_tail hrole'.symm).2
  have htail : ∀ i < n.stages.length, .tail i ∈ s.procs.map Proc.role := by
    intro i
    induction i with
    | zero => exact fun _ => h.root
    | succ i ih => exact fun hlt => (hforks i (ih (by omega)) hlt).2
  exact ⟨htail i hi, fun hlt => (hforks i (htail i hi) hlt).1⟩

end

/-- When every stage is at its `execvp` and every parent at its `wait`, each
stage has its ends of the pipes, and nobody else holds a write end of the pipe
behind it. So the pipe has no writer any more when the stage has exited. -/
theorem a_pipeline_is_wired (limit k : Nat) (n : Node) (fds : Fds) (hn : n.IsPipeline)
    (hopen : ∀ d < 3, (fds d).isSome = true)
    (hnew : ∀ d i, fds d = some (.readEnd i) ∨ fds d = some (.writeEnd i) → i < k)
    (as : List Action) (s : Sys)
    (hrun : Run (Sys.step limit) callsSucceed (executing n fds k) as s)
    (hs : ∀ p ∈ s.procs, p.settled = true) (i : Nat) (st : Node) (hst : n.stages[i]? = some st) :
    ∃ (pid : Nat) (p : Proc), s.procs[pid]? = some p ∧ Connected k n i st p ∧
      (∀ (other : Nat) (q : Proc) (d : Nat), other ≠ pid → s.procs[other]? = some q →
        q.fds d ≠ some (.writeEnd (k + i))) ∧
      (p.status = .exited ∨ p.status = .reaped →
        ∀ q ∈ s.procs, ∀ d, q.fds d ≠ some (.writeEnd (k + i))) := by
  have hw : Wired k n s := hrun.invariant
    (executing_wired hn hopen fun d i hd => hnew d i (Or.inr hd)) fun _ _ _ h hok hs => h.step hok hs
  have hi : i < n.stages.length := (List.getElem?_eq_some_iff.mp hst).1
  have hmem : stageRole n i ∈ s.procs.map Proc.role := by
    obtain ⟨h1, h2⟩ := hw.all_tails hs hi
    unfold stageRole
    split
    · exact h2 ‹_›
    · exact h1
  obtain ⟨p, hp, hrole⟩ := List.mem_map.mp hmem
  obtain ⟨pid, hpid⟩ := List.mem_iff_getElem?.mp hp
  have hconn : Connected k n i st p := by
    obtain ⟨ph, hl, -⟩ := hw.procs p hp
    rw [hrole] at hl
    rcases hl.settled (hs p hp) with ⟨r, hr, -, hlt, -⟩ | ⟨j, st', hj, hst', hconn, -⟩
    · exact absurd hlt (stageRole_eq_tail hr).2
    · obtain rfl := stageRole_inj hj
      obtain rfl : st = st' := Option.some.inj (hst.symm.trans hst')
      exact hconn
  have hothers : ∀ (other : Nat) (q : Proc) (d : Nat), other ≠ pid → s.procs[other]? = some q →
      q.fds d ≠ some (.writeEnd (k + i)) := by
    intro other q d hne hq hd
    obtain ⟨ph, hl, -⟩ := hw.procs q (List.mem_of_getElem? hq)
    rcases hl.settled (hs q (List.mem_of_getElem? hq)) with ⟨r, -, -, -, hwr⟩ | ⟨j, -, hj, -, -, hwr⟩
    · have := hwr d _ hd
      omega
    · have hji : j = i := by
        have := hwr d _ hd
        omega
      subst hji
      exact hw.ne hpid hne hq (hj.trans hrole.symm)
  refine ⟨pid, p, hpid, hconn, hothers, fun hgone q hq d hd => ?_⟩
  obtain ⟨other, hother⟩ := List.mem_iff_getElem?.mp hq
  by_cases heq : other = pid
  · subst heq
    obtain rfl : p = q := Option.some.inj (hpid.symm.trans hother)
    simp [hconn.gone hgone d] at hd
  · exact hothers other q d heq hother hd

/-- Three stages in place: the second one reads from pipe 0, and writes alone to pipe 1. -/
theorem three_stages_are_wired : ∃ as s,
    Run (Sys.step 1024) callsSucceed (executing (.pipe (.exec [⟨0, 1⟩]) (.pipe (.exec [⟨4, 5⟩])
      (.exec [⟨8, 9⟩]))) (fun d => if d < 3 then some .file else none) 0) as s ∧
    (∀ p ∈ s.procs, p.settled = true) ∧
    ∃ (pid : Nat) (p : Proc), s.procs[pid]? = some p ∧
      Connected 0 (.pipe (.exec [⟨0, 1⟩]) (.pipe (.exec [⟨4, 5⟩]) (.exec [⟨8, 9⟩]))) 1
        (.exec [⟨4, 5⟩]) p ∧
      (∀ (other : Nat) (q : Proc) (d : Nat), other ≠ pid → s.procs[other]? = some q →
        q.fds d ≠ some (.writeEnd (0 + 1))) ∧
      (p.status = .exited ∨ p.status = .reaped →
        ∀ q ∈ s.procs, ∀ d, q.fds d ≠ some (.writeEnd (0 + 1))) := by
  have hcomputed : (exec (Sys.step 1024) callsSucceed (executing (.pipe (.exec [⟨0, 1⟩])
      (.pipe (.exec [⟨4, 5⟩]) (.exec [⟨8, 9⟩]))) (fun d => if d < 3 then some .file else none) 0)
      ([0, 0, 0, 0, 0, 1, 1, 1, 1, 2, 2, 2, 2, 2, 2, 2, 2, 3, 3, 3, 3, 4, 4, 4, 4].map .run)).any
      (fun s => s.procs.all Proc.settled) = true := by
    decide +kernel
  obtain ⟨s, hs, hsettled⟩ := (Option.any_eq_true _ _).mp hcomputed
  have hall : ∀ p ∈ s.procs, p.settled = true := List.all_eq_true.mp hsettled
  refine ⟨_, s, run_of_exec hs, hall, ?_⟩
  refine a_pipeline_is_wired 1024 0 _ _ ?_ (by decide) ?_ _ s (run_of_exec hs) hall 1 _ rfl
  · unfold Node.IsPipeline
    decide
  · intro d i hd
    split at hd <;> simp at hd

end mysh
