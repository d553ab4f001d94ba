-- Who reads commands. A process that was forked for a line must not come
-- back to the loop of `main`: it replaces itself by a program or exits. It
-- does so for every line whose tree has no `PIPE` node at its root.
import SysNet.Mysh.Processes

namespace mysh

open runs

/-! ## The shell and its input -/

/-- The descriptors of a shell that was just started. -/
def standardFds : Fds := fun d => if d < 3 then some .file else none

/-- The shell in front of its loop. -/
def boot : Sys :=
  { procs := [{ code := [.getline], fds := standardFds, parent := none, status := .shell,
                role := .tail 0 }]
    pipes := 0 }

/-- What the parser makes of a line. -/
def parsed (line : List Char) : Except Stop (Node × Nat) :=
  parsePipe (getline line) 0 line.length

/-- Every line that is read is one of the input. -/
def reads (input : Set (List Char)) : Sys → Action → Prop
  | _, .line _ line => line ∈ input
  | _, _ => True

/-- The line is rejected, or its tree has no `PIPE` node at the root. -/
def WithoutPipe (line : List Char) : Prop :=
  match parsed line with
  | .ok (.pipe _ _, _) => False
  | .error .overrun => False
  | _ => True

/-- The process is at a statement of the loop of `main`, outside the branch of
the child. A parser that writes past `argv` may make it do anything. -/
def Proc.mayRead (p : Proc) : Prop :=
  match p.code with
  | .getline :: _ => True
  | .fork _ :: _ => True
  | .waitLine :: _ => True
  | .parse line :: _ => parsed line = .error .overrun
  | _ => False

/-- A process with this code never comes to what stands behind it. -/
inductive Leaves (input : Set (List Char)) : List Stmt → Prop
  | done : Leaves input []
  | parse {line rest} : line ∈ input → WithoutPipe line → Leaves input (.parse line :: rest)
  | exec {n rest} : n.pipes = 0 → Leaves input (.exec n :: rest)
  | dup2 {old new n rest} : n.pipes = 0 → Leaves input (.dup2 old new :: .exec n :: rest)
  | execvp {args rest} : Leaves input (.execvp args :: .exit :: rest)
  | exit {rest} : Leaves input (.exit :: rest)

/-- The code of the shell itself. -/
inductive Loops (input : Set (List Char)) : List Stmt → Prop
  | done : Loops input []
  | getline : Loops input [.getline]
  | fork {line} : line ∈ input → Loops input [.fork line, .waitLine, .getline]
  | wait : Loops input [.waitLine, .getline]

/-- The shell is in its loop, and every other process is on its way out. -/
structure Reader (input : Set (List Char)) (s : Sys) : Prop where
  shell : ∀ p, s.procs[0]? = some p → Loops input p.code
  others : ∀ pid p, pid ≠ 0 → s.procs[pid]? = some p → Leaves input p.code
  nonempty : 0 < s.procs.length

theorem Leaves.not_mayRead {input : Set (List Char)} {p : Proc} (h : Leaves input p.code) :
    ¬ p.mayRead := by
  unfold Proc.mayRead
  cases hcode : p.code with
  | nil => simp
  | cons w rest =>
    rw [hcode] at h
    cases h with
    | parse _ hline =>
      intro hover
      simp only [WithoutPipe, hover] at hline
    | exec | dup2 | execvp | exit => simp

section
variable {input : Set (List Char)} {limit : Nat} {s s' : Sys} {p : Proc} {a : Action}

theorem boot_reader : Reader input boot where
  shell p h := by
    cases h
    exact .getline
  others pid p hpid h := by
    obtain ⟨hlt, -⟩ := List.getElem?_eq_some_iff.mp h
    simp only [boot, List.length_singleton] at hlt
    omega
  nonempty := by simp [boot]

/-- A step of one process that leaves the code of the others alone. -/
theorem Reader.setProc {pid : Nat} (h : Reader input s) (hs : pid = 0 → Loops input p.code)
    (ho : pid ≠ 0 → Leaves input p.code) : Reader input (s.setProc pid p) where
  shell q hq := by
    rcases Sys.getElem?_setProc hq with ⟨hpid, rfl⟩ | ⟨-, hq⟩
    · exact hs hpid.symm
    · exact h.shell q hq
  others i q hi hq := by
    rcases Sys.getElem?_setProc hq with ⟨rfl, rfl⟩ | ⟨-, hq⟩
    · exact ho hi
    · exact h.others i q hi hq
  nonempty := by simpa [Sys.setProc] using h.nonempty

theorem Reader.exit {pid : Nat} (h : Reader input s) : Reader input (s.setProc pid p.exit) :=
  h.setProc (fun _ => .done) fun _ => .done

theorem Reader.fork {pid : Nat} {rest code : List Stmt} {role : Role} (h : Reader input s)
    (hpid : pid = 0) (hs : Loops input rest) (hc : Leaves input code) :
    Reader input (s.fork pid p rest code role) where
  shell q hq := by
    rcases Sys.getElem?_fork hq with ⟨-, rfl⟩ | ⟨-, hq⟩ | ⟨hlen, -⟩
    · exact hs
    · exact h.shell q hq
    · have := h.nonempty
      omega
  others i q hi hq := by
    rcases Sys.getElem?_fork hq with ⟨hi', -⟩ | ⟨-, hq⟩ | ⟨-, rfl⟩
    · omega
    · exact h.others i q hi hq
    · exact hc
  nonempty := by simp [Sys.fork]

theorem Reader.reap {pid child : Nat} {rest : List Stmt} (h : Reader input s)
    (hs : pid = 0 → Loops input rest) (ho : pid ≠ 0 → Leaves input rest) :
    Reader input (s.reap pid p child rest) := by
  have hset : Reader input (s.setProc pid { p with code := rest }) := h.setProc hs ho
  have hcode : ∀ (i : Nat) (q : Proc), (s.reap pid p child rest).procs[i]? = some q →
      ∃ q', (s.setProc pid { p with code := rest }).procs[i]? = some q' ∧ q.code = q'.code := by
    intro i q hq
    obtain ⟨q', hq', rfl | ⟨-, rfl⟩⟩ := Sys.getElem?_reap hq
    · exact ⟨q, hq', rfl⟩
    · exact ⟨q', hq', rfl⟩
  refine ⟨?_, ?_, ?_⟩
  · intro q hq
    obtain ⟨q', hq', heq⟩ := hcode 0 q hq
    rw [heq]
    exact hset.shell q' hq'
  · intro i q hi hq
    obtain ⟨q', hq', heq⟩ := hcode i q hq
    rw [heq]
    exact hset.others i q' hi hq'
  · simpa [Sys.reap] using h.nonempty

/-! ## One step -/

/-- A process on its way out stays on it, and forks nothing. -/
theorem Leaves.stepped {pid : Nat} (hp : Leaves input p.code) (hs : s.Stepped limit pid p a s') :
    ∃ q : Proc, s' = s.setProc pid q ∧ Leaves input q.code := by
  cases hs with
  | fork hcode | forkLeft hcode | forkRight hcode | dup2OrExit hcode | close hcode | pipe hcode =>
    rw [hcode] at hp
    cases hp
    all_goals simp_all [Node.pipes]
  | parse hcode hparse =>
    rw [hcode] at hp
    cases hp with
    | parse _ hline =>
      refine ⟨_, rfl, .exec ?_⟩
      rcases (parsePipe_isPipeline _ _ _ _ hparse).root with ⟨left, right, rfl⟩ | h0
      · simp only [WithoutPipe, parsed, hparse] at hline
      · exact h0
  | opened hcode | notOpened hcode =>
    rw [hcode] at hp
    cases hp with
    | exec h0 => exact ⟨_, rfl, .dup2 h0⟩
  | leaf hcode => exact ⟨_, rfl, .execvp⟩
  | dup2 hcode | notDuped hcode =>
    rw [hcode] at hp
    cases hp with
    | dup2 h0 => exact ⟨_, rfl, .exec h0⟩
  | noChild hcode hw =>
    rw [hcode] at hp
    rcases hw with rfl | rfl <;> cases hp
  | execvp hcode => exact ⟨_, rfl, .done⟩
  | notExecuted hcode =>
    rw [hcode] at hp
    cases hp
    exact ⟨_, rfl, .exit⟩
  | exits => exact ⟨_, rfl, .done⟩

/-- The shell stays in its loop, and the process that it forks gets a line of the input. -/
theorem Reader.stepped_shell (hno : ∀ line ∈ input, WithoutPipe line) (h : Reader input s)
    (hp : Loops input p.code) (hs : s.Stepped limit 0 p a s') : Reader input s' := by
  cases hs with
  | fork hcode =>
    rw [hcode] at hp
    cases hp with
    | fork hline => exact h.fork rfl .wait (.parse hline (hno _ hline))
  | noChild hcode hw =>
    rw [hcode] at hp
    cases hp with
    | wait => exact h.setProc (fun _ => .getline) fun h0 => absurd rfl h0
    | _ => simp at hw
  | exits => exact h.exit
  | parse hcode | pipe hcode | opened hcode | notOpened hcode | leaf hcode | forkLeft hcode
  | forkRight hcode | dup2OrExit hcode | dup2 hcode | notDuped hcode | close hcode | execvp hcode
  | notExecuted hcode =>
    rw [hcode] at hp
    cases hp

theorem Reader.step (hno : ∀ line ∈ input, WithoutPipe line) (h : Reader input s)
    (hok : reads input s a) (hs : s.step limit a = some s') : Reader input s' := by
  obtain ⟨pid, p, hp, ⟨-, hstep⟩ | ⟨-, rfl⟩ | ⟨line, rest, rfl, hcode, rfl⟩ |
    ⟨child, w, rest, rfl, hcode, hw, -, rfl⟩⟩ := Sys.step_cases hs
  · rcases Nat.eq_zero_or_pos pid with rfl | hpos
    · exact h.stepped_shell hno (h.shell p hp) hstep
    · obtain ⟨q, rfl, hq⟩ := (h.others pid p (by omega) hp).stepped hstep
      exact h.setProc (fun h0 => absurd h0 (by omega)) fun _ => hq
  · exact h.exit
  · refine h.setProc (fun h0 => ?_) fun h0 => ?_
    · subst h0
      have hloop := h.shell p hp
      rw [hcode] at hloop
      cases hloop
      exact .fork hok
    · have hleave := h.others pid p h0 hp
      rw [hcode] at hleave
      cases hleave
  · refine h.reap (fun h0 => ?_) fun h0 => ?_
    · subst h0
      have hloop := h.shell p hp
      rw [hcode] at hloop
      cases hloop with
      | wait => exact .getline
      | _ => simp at hw
    · have hleave := h.others pid p h0 hp
      rw [hcode] at hleave
      rcases hw with rfl | rfl <;> cases hleave

/-- What a process has to run is not changed by the steps of others. -/
theorem Sys.Stepped.others {pid i : Nat} {q : Proc} (hs : s.Stepped limit pid p a s')
    (hi : i ≠ pid) (hq : s.procs[i]? = some q) : s'.procs[i]? = some q := by
  have hset : ∀ p', (s.setProc pid p').procs[i]? = some q := fun p' => by
    rw [Sys.getElem?_setProc_ne p' hi, hq]
  have hfork : ∀ rest code role, (s.fork pid p rest code role).procs[i]? = some q := by
    intro rest code role
    have hlt : i < s.procs.length := (List.getElem?_eq_some_iff.mp hq).1
    simp only [Sys.fork, List.getElem?_append, List.length_set, hlt, if_true]
    exact hset _
  cases hs with
  | fork | forkLeft | forkRight => exact hfork _ _ _
  | _ => exact hset _

/-- A process on its way out stays on it in every step of the system. -/
theorem Leaves.step {i : Nat} {q : Proc} (hq : s.procs[i]? = some q) (h : Leaves input q.code)
    (hs : s.step limit a = some s') : ∃ q', s'.procs[i]? = some q' ∧ Leaves input q'.code := by
  obtain ⟨pid, p, hp, hstep⟩ := Sys.step_cases hs
  by_cases hi : i = pid
  · subst hi
    obtain rfl : q = p := Option.some.inj (hq.symm.trans hp)
    rcases hstep with ⟨-, hstep⟩ | ⟨-, rfl⟩ | ⟨line, rest, -, hcode, -⟩ |
      ⟨child, w, rest, -, hcode, hw, -⟩
    · obtain ⟨q', rfl, hq'⟩ := h.stepped hstep
      exact ⟨q', Sys.getElem?_setProc_self q' hp, hq'⟩
    · exact ⟨_, Sys.getElem?_setProc_self _ hp, .done⟩
    · rw [hcode] at h
      cases h
    · rw [hcode] at h
      rcases hw with rfl | rfl <;> cases h
  · have hset : ∀ p', (s.setProc pid p').procs[i]? = some q := fun p' => by
      rw [Sys.getElem?_setProc_ne p' hi, hq]
    rcases hstep with ⟨-, hstep⟩ | ⟨-, rfl⟩ | ⟨line, rest, -, -, rfl⟩ |
      ⟨child, w, rest, -, -, -, -, rfl⟩
    · exact ⟨q, hstep.others hi hq, h⟩
    · exact ⟨q, hset _, h⟩
    · exact ⟨q, hset _, h⟩
    · -- the child that is waited for changes its status only
      by_cases hc : child = i
      · refine ⟨q.reap, ?_, h⟩
        simp only [Sys.reap, List.getElem?_modify, hc, if_true]
        exact congrArg (Proc.reap <$> ·) (hset _)
      · refine ⟨q, ?_, h⟩
        simp only [Sys.reap, List.getElem?_modify, hc, if_false, id_map']
        exact hset _

/-! ## A `PIPE` node at the root -/

/-- The shell waits for the child that calls `exec` on the tree. -/
def called (n : Node) : Sys :=
  { procs := [{ code := [.waitLine, .getline], fds := standardFds, parent := none,
                status := .shell, role := .tail 0 },
              { code := [.exec n, .waitLine, .getline], fds := standardFds, parent := some 0,
                status := .shell, role := .tail 0 }]
    pipes := 0 }

/-- The call of `exec` in the child comes back to `main`. -/
def Returns (limit : Nat) (n : Node) : Prop :=
  ∃ as s p, Run (Sys.step limit) anyStep (called n) as s ∧ s.procs[1]? = some p ∧
    p.code = [.waitLine, .getline]

/-- No line is read. -/
def noLine : Sys → Action → Prop
  | _, .line _ _ => False
  | _, _ => True

instance (s : Sys) (a : Action) : Decidable (noLine s a) :=
  match a with
  | .line _ _ => isFalse id
  | .run _ => isTrue trivial
  | .fail _ => isTrue trivial
  | .reap _ _ => isTrue trivial

theorem lowest_eq {d : Nat} {fds : Fds} (hd : d < limit) (hfree : fds d = none)
    (hbelow : ∀ d' < d, (fds d').isSome = true) : lowest limit fds = some d := by
  simp only [lowest, List.find?_range_eq_some, List.mem_range, hd, hfree]
  simpa using hbelow

/-- A step of a process that runs the shell's code, computed from its next statement. -/
theorem Sys.step_run {pid : Nat} (hp : s.procs[pid]? = some p) (hst : p.status = .shell) :
    s.step limit (.run pid) = s.run limit pid p p.code := by
  simp only [Sys.step, hp, Option.bind_eq_bind, Option.bind_some, hst]

/-- The shell has read a line and waits for its child. -/
def forked (line : List Char) : Sys :=
  { procs := [{ code := [.waitLine, .getline], fds := standardFds, parent := none,
                status := .shell, role := .tail 0 },
              { code := [.parse line, .waitLine, .getline], fds := standardFds, parent := some 0,
                status := .shell, role := .tail 0 }]
    pipes := 0 }

theorem forked_of_line {line : List Char} (hin : line ∈ input) :
    Run (Sys.step limit) (reads input) boot [.line 0 line, .run 0] (forked line) := by
  have hread : Run (Sys.step limit) (reads input) boot (([] : List Action) ++ [.line 0 line]) _ :=
    .snoc .nil hin rfl
  exact hread.snoc trivial rfl

theorem called_of_line {line : List Char} {n : Node} {e : Nat} (hin : line ∈ input)
    (h : parsed line = .ok (n, e)) :
    Run (Sys.step limit) (reads input) boot [.line 0 line, .run 0, .run 1] (called n) := by
  refine (forked_of_line hin).snoc trivial ((Sys.step_run rfl rfl).trans ?_)
  unfold parsed at h
  simp only [Sys.run, h]
  rfl

/-- The child that got a `PIPE` node has made its pipe. -/
def pipeMade (left right : Node) : Sys :=
  (called (.pipe left right)).piped 1
    { code := [.exec (.pipe left right), .waitLine, .getline], fds := standardFds,
      parent := some 0, status := .shell, role := .tail 0 }
    left right 3 4 [.waitLine, .getline]

theorem pipeMade_of_called (left right : Node) (hlimit : 5 ≤ limit) :
    (called (.pipe left right)).step limit (.run 1) = some (pipeMade left right) := by
  have h3 : lowest limit standardFds = some 3 := lowest_eq (by omega) rfl (by decide)
  have h4 : lowest limit (Function.update standardFds 3 (some (.readEnd 0))) = some 4 :=
    lowest_eq (by omega) rfl (by decide)
  have h0 : (called (.pipe left right)).pipes = 0 := rfl
  refine (Sys.step_run rfl rfl).trans ?_
  simp only [Sys.run, h3, h0, h4]
  rfl

/-- Both children of a `PIPE` node at the root exit, and the call comes back. -/
theorem pipe_returns (left right : Node) (hlimit : 5 ≤ limit) :
    ∃ (as : List Action) (s : Sys) (p : Proc),
      Run (Sys.step limit) noLine (called (.pipe left right)) as s ∧ s.procs[1]? = some p ∧
        p.code = [.waitLine, .getline] := by
  have hfirst : Run (Sys.step limit) noLine (called (.pipe left right))
      (([] : List Action) ++ [.run 1]) _ :=
    .snoc .nil trivial (pipeMade_of_called left right hlimit)
  -- the two forks, the two children that cannot duplicate their end, and the parent's own calls
  have hrest : exec (Sys.step limit) noLine (pipeMade left right) [.run 1, .fail 2, .run 1,
      .fail 3, .run 1, .run 1, .reap 1 2, .reap 1 3] = some _ := rfl
  exact ⟨_, _, _, hfirst.append (run_of_exec hrest), rfl, rfl⟩

end

/-! ## The result -/

section
variable {limit : Nat}

theorem returns_iff (hlimit : 5 ≤ limit) {n : Node} (hn : n.IsPipeline) :
    Returns limit n ↔ ∃ left right, n = .pipe left right := by
  constructor
  · rintro ⟨as, s, p, hrun, hp, hcode⟩
    rcases hn.root with hroot | h0
    · exact hroot
    · have hleaves : ∃ q, s.procs[1]? = some q ∧ Leaves ∅ q.code := by
        refine Run.invariant (P := fun s => ∃ q, s.procs[1]? = some q ∧ Leaves ∅ q.code) hrun
          ⟨_, rfl, .exec h0⟩ ?_
        rintro s a s' ⟨q, hq, hl⟩ - hs
        exact hl.step hq hs
      obtain ⟨q, hq, hleaves⟩ := hleaves
      obtain rfl : p = q := Option.some.inj (hp.symm.trans hq)
      rw [hcode] at hleaves
      cases hleaves
  · rintro ⟨left, right, rfl⟩
    obtain ⟨as, s, p, hrun, hp, hcode⟩ := pipe_returns left right hlimit
    exact ⟨as, s, p, hrun.mono fun _ _ _ => trivial, hp, hcode⟩

/-- Without `PIPE` nodes at the root, no process but the shell reads. -/
theorem Reader.mayRead {input : Set (List Char)} {s : Sys} {pid : Nat} {p : Proc}
    (h : Reader input s) (hp : s.procs[pid]? = some p) (hread : p.mayRead) : pid = 0 := by
  by_contra hpid
  exact (h.others pid p hpid hp).not_mayRead hread

/-- A line with a `PIPE` node at the root, or one that the parser writes past
`argv` for, makes a second reader. -/
theorem second_reader {input : Set (List Char)} {line : List Char} (hlimit : 5 ≤ limit)
    (hin : line ∈ input) (hline : ¬ WithoutPipe line) :
    ∃ (as : List Action) (s : Sys) (p : Proc), Run (Sys.step limit) (reads input) boot as s ∧
      s.procs[1]? = some p ∧ p.mayRead := by
  have hcases : (∃ left right e, parsed line = .ok (.pipe left right, e)) ∨
      parsed line = .error .overrun := by
    unfold WithoutPipe at hline
    split at hline
    · exact Or.inl ⟨_, _, _, ‹_›⟩
    · exact Or.inr ‹_›
    · exact absurd trivial hline
  rcases hcases with ⟨left, right, e, h⟩ | h
  · obtain ⟨as, s, p, hrun, hp, hcode⟩ := pipe_returns left right hlimit
    refine ⟨_, s, p, (called_of_line hin h).append (hrun.mono ?_), hp, ?_⟩
    · intro s a hno
      cases a with
      | line => exact absurd hno id
      | _ => trivial
    · simp only [Proc.mayRead, hcode]
  · exact ⟨_, forked line, _, forked_of_line hin, rfl, h⟩

end

/-- A call of `exec` comes back to `main` exactly when the root is a `PIPE`
node, and the shell is the only reader exactly when no line of the input has
such a tree. -/
theorem only_the_shell_reads_iff (limit : Nat) (hlimit : 5 ≤ limit) :
    (∀ line n e, parsed line = .ok (n, e) →
      (¬ Returns limit n ↔ ∀ left right, n ≠ .pipe left right)) ∧
    ∀ input : Set (List Char),
      (∀ as s, Run (Sys.step limit) (reads input) boot as s →
        ∀ (pid : Nat) (p : Proc), s.procs[pid]? = some p → p.mayRead → pid = 0) ↔
      ∀ line ∈ input, WithoutPipe line := by
  refine ⟨fun line n e h => ?_, fun input => ⟨fun h line hin => ?_, fun h as s hrun pid p => ?_⟩⟩
  · rw [returns_iff hlimit (parsePipe_isPipeline _ _ _ _ h)]
    simp only [not_exists, ne_eq]
  · by_contra hline
    obtain ⟨as, s, p, hrun, hp, hread⟩ := second_reader hlimit hin hline
    exact absurd (h as s hrun 1 p hp hread) (by decide)
  · have hinv : Reader input s := hrun.invariant boot_reader fun _ _ _ hr hok hs =>
      hr.step h hok hs
    exact hinv.mayRead

theorem the_shell_reads_a_plain_line :
    5 ≤ 1024 ∧ ∀ as s, Run (Sys.step 1024) (reads {"ls\n".toList}) boot as s →
      ∀ (pid : Nat) (p : Proc), s.procs[pid]? = some p → p.mayRead → pid = 0 :=
  ⟨by decide, ((only_the_shell_reads_iff 1024 (by decide)).2 _).mpr (by
    rintro line rfl
    have h : parsed "ls\n".toList = .ok (.exec [⟨0, 2⟩], 3) := by decide +kernel
    simp only [WithoutPipe, h])⟩

/-- `ls | wc`: every call succeeds, both programs end, and their parent is at
the `wait` of `main` with `getline` behind it. -/
theorem the_parent_of_a_pipeline_reads : ¬ ∀ as s, Run (Sys.step 1024) anyStep boot as s →
    ∀ (pid : Nat) (p : Proc), s.procs[pid]? = some p → p.mayRead → pid = 0 := by
  intro h
  have hrun : (exec (Sys.step 1024) anyStep boot
      [.line 0 "ls | wc\n".toList, .run 0, .run 1, .run 1, .run 1, .run 1, .run 1, .run 1, .run 2,
        .run 2, .run 2, .run 2, .run 2, .run 2, .run 3, .run 3, .run 3, .run 3, .run 3, .run 3,
        .reap 1 2, .reap 1 3]).any
      (fun s => s.procs[1]?.any fun p => p.code = [.waitLine, .getline]) = true := by
    decide +kernel
  obtain ⟨s, hs, hp⟩ := (Option.any_eq_true _ _).mp hrun
  obtain ⟨p, hp, hcode⟩ := (Option.any_eq_true _ _).mp hp
  have hread : p.mayRead := by simp only [Proc.mayRead, of_decide_eq_true hcode]
  exact absurd (h _ s (run_of_exec hs) 1 p hp hread) (by decide)

end mysh
