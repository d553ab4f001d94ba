-- The shell as a system of processes. A process has the statements that it
-- still has to run and a table of descriptors; `fork` copies both. One step
-- is one system call of one process, so every interleaving is a run.
import SysNet.Lib.Runs
import SysNet.Mysh.Grammar

namespace mysh

/-! ## The trees that `exec` gets -/

/-- The stages of a pipeline, the first one first. -/
def Node.stages : Node → List Node
  | .pipe left right => left :: right.stages
  | n => [n]

/-- Only the right side of a `PIPE` node can have `PIPE` nodes. -/
def Node.IsPipeline (n : Node) : Prop := ∀ st ∈ n.stages, st.pipes = 0

theorem parseRedir_pipes (buf : Buf) (child : Node) (s e : Nat) :
    ∀ r, parseRedir buf child s e = .ok r → r.1.pipes = child.pipes := by
  fun_induction parseRedir buf child s e with
  | case1 => simp
  | case2 s op fd mode hmode word hword hmore ih =>
    intro r h
    cases hr : parseRedir buf child word.next e with
    | error => simp [hr, Except.map] at h
    | ok r' =>
      simp only [hr, Except.map, Except.ok.injEq] at h
      subst h
      exact ih r' hr
  | case3 s op fd mode hmode word hword hmore =>
    intro r h
    cases h
    rfl
  | case4 => simp

theorem parsExec_pipes {buf : Buf} {n : Node} {s e s' : Nat}
    (h : parsExec buf s e = .ok (n, s')) : n.pipes = 0 := by
  unfold parsExec at h
  cases ha : parsArgs buf [] s e with
  | error => simp [ha] at h
  | ok r =>
    simp only [ha] at h
    split at h
    · split at h
      · exact parseRedir_pipes _ _ _ _ _ h
      · cases h
        rfl
    · cases h

theorem stages_of_pipes {n : Node} (h : n.pipes = 0) : n.stages = [n] := by
  cases n with
  | exec | redir => rfl
  | pipe left right => simp [Node.pipes] at h

/-- Every tree of the parser is a pipeline. -/
theorem parsePipe_isPipeline (buf : Buf) (s e : Nat) :
    ∀ r, parsePipe buf s e = .ok r → r.1.IsPipeline := by
  fun_induction parsePipe buf s e with
  | case1 => simp
  | case2 s exec1 s' hexec hpeak ih =>
    intro r h
    cases hr : parsePipe buf (gettoken buf s' e).next e with
    | error => simp [hr, Except.map] at h
    | ok r' =>
      simp only [hr, Except.map, Except.ok.injEq] at h
      subst h
      intro st hst
      rcases List.mem_cons.mp hst with rfl | hst
      · exact parsExec_pipes hexec
      · exact ih r' hr st hst
  | case3 s exec1 s' hexec hpeak =>
    intro r h
    cases h
    have h0 := parsExec_pipes hexec
    intro st hst
    rw [stages_of_pipes h0, List.mem_singleton] at hst
    rw [hst, h0]

theorem Node.IsPipeline.root {n : Node} (h : n.IsPipeline) :
    (∃ left right, n = .pipe left right) ∨ n.pipes = 0 := by
  cases n with
  | exec | redir => exact Or.inr (h _ (List.mem_singleton.mpr rfl))
  | pipe left right => exact Or.inl ⟨left, right, rfl⟩

theorem Node.IsPipeline.left {left right : Node} (h : (Node.pipe left right).IsPipeline) :
    left.pipes = 0 :=
  h left (List.mem_cons_self ..)

theorem Node.IsPipeline.right {left right : Node} (h : (Node.pipe left right).IsPipeline) :
    right.IsPipeline :=
  fun st hst => h st (List.mem_cons_of_mem _ hst)

/-! ## Descriptors -/

/-- What a descriptor stands for. -/
inductive Desc
  | readEnd (pipe : Nat)
  | writeEnd (pipe : Nat)
  /-- a terminal or a file -/
  | file
deriving DecidableEq, Repr

abbrev Fds := Nat → Option Desc

/-- The lowest descriptor below `limit` that is free. -/
def lowest (limit : Nat) (fds : Fds) : Option Nat :=
  (List.range limit).find? fun d => (fds d).isNone

/-- `dup2(old, new)`, which fails when `old` is not open. -/
def dup2 (fds : Fds) (old new : Nat) : Option Fds :=
  (fds old).map fun d => Function.update fds new (some d)

def close (fds : Fds) (d : Nat) : Fds := Function.update fds d none

/-! ## Statements and processes -/

/-- The statements of `main` and `exec` that make a system call, and the calls of `exec`. -/
inductive Stmt
  /-- `main`: `getline` -/
  | getline
  /-- `main`: `fork`, with the line read -/
  | fork (line : List Char)
  /-- `main`: `parsePipe` and `printTree` in the child -/
  | parse (line : List Char)
  /-- `main`: `wait(NULL)` -/
  | waitLine
  /-- a call of `exec` -/
  | exec (n : Node)
  /-- `PIPE`: the first `fork` -/
  | forkLeft (left : Node) (fd0 fd1 : Nat)
  /-- `PIPE`: the second `fork` -/
  | forkRight (right : Node) (fd0 fd1 : Nat)
  /-- `PIPE`: `dup2`, or `exit(1)` when it fails -/
  | dup2OrExit (old new : Nat)
  /-- `REDIR`: `dup2` of what `open` gave -/
  | dup2 (old : Option Nat) (new : Nat)
  | close (fd : Nat)
  | wait
  | execvp (args : List Span)
  | exit
deriving DecidableEq, Repr

inductive Status
  /-- runs the shell's code -/
  | shell
  /-- runs the program of its `execvp` -/
  | program (args : List Span)
  | exited
  | reaped
deriving DecidableEq, Repr

/-- Which part of a pipeline a process has. No statement reads it. -/
inductive Role
  /-- runs `exec` on what stands behind the first `i` pipes -/
  | tail (i : Nat)
  /-- runs `exec` on what stands in front of pipe `i` -/
  | stage (i : Nat)
deriving DecidableEq, Repr

structure Proc where
  code : List Stmt
  fds : Fds
  parent : Option Nat
  status : Status
  role : Role

/-- The processes by number, and how many pipes were made. -/
structure Sys where
  procs : List Proc
  pipes : Nat

/-- What a process does next. -/
inductive Action
  /-- the next statement, and its system call succeeds -/
  | run (pid : Nat)
  /-- the next statement, and its system call fails -/
  | fail (pid : Nat)
  /-- `getline` gives a line -/
  | line (pid : Nat) (line : List Char)
  /-- `wait` takes the status of a child -/
  | reap (pid child : Nat)
deriving DecidableEq, Repr

/-! ## The steps -/

def Proc.exit (p : Proc) : Proc := { p with code := [], fds := fun _ => none, status := .exited }

def Sys.setProc (s : Sys) (pid : Nat) (p : Proc) : Sys := { s with procs := s.procs.set pid p }

/-- `fork`: the parent goes on with `rest`, the child with `code`. -/
def Sys.fork (s : Sys) (pid : Nat) (p : Proc) (rest code : List Stmt) (role : Role) : Sys :=
  { s with procs := s.procs.set pid { p with code := rest } ++
      [{ code := code, fds := p.fds, parent := some pid, status := .shell, role := role }] }

/-- The role of the process that a `PIPE` node makes for its left side. -/
def Role.left : Role → Role
  | .tail i => .stage i
  | .stage i => .stage i

def Role.right : Role → Role
  | .tail i => .tail (i + 1)
  | .stage i => .tail (i + 1)

/-- A child that was not waited for. -/
def Sys.hasChild (s : Sys) (pid : Nat) : Bool :=
  s.procs.any fun q => q.parent = some pid && q.status ≠ .reaped

/-- The next statement of the process with its call succeeding. -/
def Sys.run (limit : Nat) (s : Sys) (pid : Nat) (p : Proc) : List Stmt → Option Sys
  | .fork line :: rest => some (s.fork pid p rest (.parse line :: rest) (.tail 0))
  | .parse line :: rest =>
    match parsePipe (mysh.getline line) 0 line.length with
    | .ok (n, _) => some (s.setProc pid { p with code := .exec n :: rest })
    | .error (.exit _) => some (s.setProc pid p.exit)
    | .error .overrun => none
  | .waitLine :: rest =>
    if s.hasChild pid then none else some (s.setProc pid { p with code := rest })
  | .exec (.pipe left right) :: rest =>
    match lowest limit p.fds with
    | none => none
    | some fd0 =>
      let fds := Function.update p.fds fd0 (some (.readEnd s.pipes))
      match lowest limit fds with
      | none => none
      | some fd1 =>
        let code := .forkLeft left fd0 fd1 :: .forkRight right fd0 fd1 :: .close fd1 :: .close fd0 ::
          .wait :: .wait :: rest
        some { s.setProc pid { p with
          code := code, fds := Function.update fds fd1 (some (.writeEnd s.pipes)) } with
          pipes := s.pipes + 1 }
  | .exec (.redir fd _ child _) :: rest =>
    match lowest limit p.fds with
    | none => none
    | some d =>
      some (s.setProc pid { p with
        code := .dup2 (some d) fd :: .exec child :: rest
        fds := Function.update p.fds d (some .file) })
  | .exec (.exec args) :: rest =>
    some (s.setProc pid { p with code := .execvp args :: .exit :: rest })
  | .forkLeft left fd0 fd1 :: rest =>
    some (s.fork pid p rest
      [.dup2OrExit fd1 STDOUT_FILENO, .close fd0, .close fd1, .exec left, .exit] p.role.left)
  | .forkRight right fd0 fd1 :: rest =>
    some (s.fork pid p rest
      [.dup2OrExit fd0 STDIN_FILENO, .close fd1, .close fd0, .exec right, .exit] p.role.right)
  | .dup2OrExit old new :: rest =>
    (dup2 p.fds old new).map fun fds => s.setProc pid { p with code := rest, fds := fds }
  | .dup2 old new :: rest =>
    (old.bind fun d => dup2 p.fds d new).map fun fds =>
      s.setProc pid { p with code := rest, fds := fds }
  | .close d :: rest => some (s.setProc pid { p with code := rest, fds := close p.fds d })
  | .wait :: rest => if s.hasChild pid then none else some (s.setProc pid { p with code := rest })
  | .execvp args :: _ => some (s.setProc pid { p with code := [], status := .program args })
  | .exit :: _ => some (s.setProc pid p.exit)
  | .getline :: _ => none
  | [] => none

/-- The next statement of the process with its call failing. -/
def Sys.fail (s : Sys) (pid : Nat) (p : Proc) : List Stmt → Option Sys
  | .fork _ :: _ => some (s.setProc pid p.exit)
  | .forkLeft _ _ _ :: _ => some (s.setProc pid p.exit)
  | .forkRight _ _ _ :: _ => some (s.setProc pid p.exit)
  | .dup2OrExit _ _ :: _ => some (s.setProc pid p.exit)
  | .exec (.redir fd _ child _) :: rest =>
    some (s.setProc pid { p with code := .dup2 none fd :: .exec child :: rest })
  | .dup2 _ _ :: rest => some (s.setProc pid { p with code := rest })
  | .execvp _ :: rest => some (s.setProc pid { p with code := rest })
  | _ => none

/-- A child that has exited. -/
def Sys.reapable (s : Sys) (pid child : Nat) : Bool :=
  s.procs[child]?.any fun q => q.parent = some pid && q.status = .exited

def Proc.reap (p : Proc) : Proc := { p with status := .reaped }

def Sys.reap (s : Sys) (pid : Nat) (p : Proc) (child : Nat) (rest : List Stmt) : Sys :=
  { s with procs := List.modify (s.procs.set pid { p with code := rest }) child Proc.reap }

/-- One step of one process. A program may exit whenever it likes. -/
def Sys.step (limit : Nat) (s : Sys) : Action → Option Sys
  | .run pid => do
    let p ← s.procs[pid]?
    match p.status with
    | .shell => s.run limit pid p p.code
    | .program _ => some (s.setProc pid p.exit)
    | _ => none
  | .fail pid => do
    let p ← s.procs[pid]?
    if p.status = .shell then s.fail pid p p.code else none
  | .line pid line => do
    let p ← s.procs[pid]?
    match p.code with
    | .getline :: rest => some (s.setProc pid { p with
        code := .fork line :: .waitLine :: .getline :: rest })
    | _ => none
  | .reap pid child => do
    let p ← s.procs[pid]?
    match p.code with
    | .wait :: rest => if s.reapable pid child then some (s.reap pid p child rest) else none
    | .waitLine :: rest => if s.reapable pid child then some (s.reap pid p child rest) else none
    | _ => none

/-! ## The processes after a step -/

theorem Sys.getElem?_setProc {s : Sys} {pid i : Nat} {p q : Proc}
    (h : (s.setProc pid p).procs[i]? = some q) :
    i = pid ∧ q = p ∨ i ≠ pid ∧ s.procs[i]? = some q := by
  simp only [Sys.setProc, List.getElem?_set] at h
  split at h
  · split at h
    · exact Or.inl ⟨‹pid = i›.symm, (Option.some.inj h).symm⟩
    · cases h
  · exact Or.inr ⟨Ne.symm ‹_›, h⟩

theorem Sys.getElem?_setProc_ne {s : Sys} {pid i : Nat} (p : Proc) (h : i ≠ pid) :
    (s.setProc pid p).procs[i]? = s.procs[i]? := by
  simp only [Sys.setProc, List.getElem?_set_ne h.symm]

theorem Sys.getElem?_setProc_self {s : Sys} {pid : Nat} {p : Proc} (q : Proc)
    (h : s.procs[pid]? = some p) : (s.setProc pid q).procs[pid]? = some q := by
  have hlt : pid < s.procs.length := (List.getElem?_eq_some_iff.mp h).1
  simp only [Sys.setProc, List.getElem?_set_self hlt]

theorem Sys.getElem?_fork {s : Sys} {pid i : Nat} {p q : Proc} {rest code : List Stmt} {role : Role}
    (h : (s.fork pid p rest code role).procs[i]? = some q) :
    i = pid ∧ q = { p with code := rest } ∨ i ≠ pid ∧ s.procs[i]? = some q ∨
      i = s.procs.length ∧
        q = { code := code, fds := p.fds, parent := some pid, status := .shell, role := role } := by
  simp only [Sys.fork, List.getElem?_append, List.length_set] at h
  split at h
  · rcases Sys.getElem?_setProc h with h | h
    · exact Or.inl h
    · exact Or.inr (Or.inl h)
  · obtain ⟨hi, rfl⟩ := List.getElem?_eq_some_iff.mp h
    simp only [List.length_singleton] at hi
    refine Or.inr (Or.inr ⟨by omega, ?_⟩)
    simp [show i - s.procs.length = 0 by omega]

theorem Sys.getElem?_reap {s : Sys} {pid child i : Nat} {p q : Proc} {rest : List Stmt}
    (h : (s.reap pid p child rest).procs[i]? = some q) :
    ∃ q', (s.setProc pid { p with code := rest }).procs[i]? = some q' ∧
      (q = q' ∨ i = child ∧ q = q'.reap) := by
  simp only [Sys.reap, List.getElem?_modify] at h
  obtain ⟨q', hq', rfl⟩ := Option.map_eq_some_iff.mp h
  refine ⟨q', hq', ?_⟩
  split
  · exact Or.inr ⟨‹child = i›.symm, rfl⟩
  · exact Or.inl rfl

/-! ## What a step can do -/

/-- The state after `pipe`. -/
def Sys.piped (s : Sys) (pid : Nat) (p : Proc) (left right : Node) (fd0 fd1 : Nat)
    (rest : List Stmt) : Sys :=
  { s.setProc pid { p with
      code := .forkLeft left fd0 fd1 :: .forkRight right fd0 fd1 :: .close fd1 :: .close fd0 ::
        .wait :: .wait :: rest
      fds := Function.update (Function.update p.fds fd0 (some (.readEnd s.pipes))) fd1
        (some (.writeEnd s.pipes)) } with
    pipes := s.pipes + 1 }

/-- The steps of a process that runs the shell's code, by its next statement. -/
inductive Sys.Stepped (limit : Nat) (s : Sys) (pid : Nat) (p : Proc) : Action → Sys → Prop
  | fork {line rest} : p.code = .fork line :: rest →
      Stepped limit s pid p (.run pid) (s.fork pid p rest (.parse line :: rest) (.tail 0))
  | parse {line rest n e} : p.code = .parse line :: rest →
      parsePipe (mysh.getline line) 0 line.length = .ok (n, e) →
      Stepped limit s pid p (.run pid) (s.setProc pid { p with code := .exec n :: rest })
  | pipe {left right rest fd0 fd1} : p.code = .exec (.pipe left right) :: rest →
      lowest limit p.fds = some fd0 →
      lowest limit (Function.update p.fds fd0 (some (.readEnd s.pipes))) = some fd1 →
      Stepped limit s pid p (.run pid) (s.piped pid p left right fd0 fd1 rest)
  | opened {fd mode child file rest d} : p.code = .exec (.redir fd mode child file) :: rest →
      lowest limit p.fds = some d →
      Stepped limit s pid p (.run pid) (s.setProc pid { p with
        code := .dup2 (some d) fd :: .exec child :: rest
        fds := Function.update p.fds d (some .file) })
  | notOpened {fd mode child file rest} : p.code = .exec (.redir fd mode child file) :: rest →
      Stepped limit s pid p (.fail pid) (s.setProc pid { p with
        code := .dup2 none fd :: .exec child :: rest })
  | leaf {args rest} : p.code = .exec (.exec args) :: rest →
      Stepped limit s pid p (.run pid) (s.setProc pid { p with
        code := .execvp args :: .exit :: rest })
  | forkLeft {left fd0 fd1 rest} : p.code = .forkLeft left fd0 fd1 :: rest →
      Stepped limit s pid p (.run pid) (s.fork pid p rest
        [.dup2OrExit fd1 STDOUT_FILENO, .close fd0, .close fd1, .exec left, .exit] p.role.left)
  | forkRight {right fd0 fd1 rest} : p.code = .forkRight right fd0 fd1 :: rest →
      Stepped limit s pid p (.run pid) (s.fork pid p rest
        [.dup2OrExit fd0 STDIN_FILENO, .close fd1, .close fd0, .exec right, .exit] p.role.right)
  | dup2OrExit {old new d rest} : p.code = .dup2OrExit old new :: rest → p.fds old = some d →
      Stepped limit s pid p (.run pid) (s.setProc pid { p with
        code := rest, fds := Function.update p.fds new (some d) })
  | dup2 {old new d rest} : p.code = .dup2 (some old) new :: rest → p.fds old = some d →
      Stepped limit s pid p (.run pid) (s.setProc pid { p with
        code := rest, fds := Function.update p.fds new (some d) })
  | notDuped {old new rest} : p.code = .dup2 old new :: rest →
      Stepped limit s pid p (.fail pid) (s.setProc pid { p with code := rest })
  | close {d rest} : p.code = .close d :: rest →
      Stepped limit s pid p (.run pid) (s.setProc pid { p with
        code := rest, fds := mysh.close p.fds d })
  | noChild {w rest} : p.code = w :: rest → w = .wait ∨ w = .waitLine →
      Stepped limit s pid p (.run pid) (s.setProc pid { p with code := rest })
  | execvp {args rest} : p.code = .execvp args :: rest →
      Stepped limit s pid p (.run pid) (s.setProc pid { p with
        code := [], status := .program args })
  | notExecuted {args rest} : p.code = .execvp args :: rest →
      Stepped limit s pid p (.fail pid) (s.setProc pid { p with code := rest })
  /-- `exit`, the call of it when a `fork` or a `dup2` fails, and a line that the parser rejects -/
  | exits {a w rest} : p.code = w :: rest →
      (a = .run pid ∧ (w = .exit ∨ ∃ line, w = .parse line) ∨
        a = .fail pid ∧ ((∃ line, w = .fork line) ∨ (∃ n fd0 fd1, w = .forkLeft n fd0 fd1) ∨
          (∃ n fd0 fd1, w = .forkRight n fd0 fd1) ∨ ∃ old new, w = .dup2OrExit old new)) →
      Stepped limit s pid p a (s.setProc pid p.exit)

theorem Sys.run_stepped {limit pid : Nat} {s s' : Sys} {p : Proc}
    (h : s.run limit pid p p.code = some s') : s.Stepped limit pid p (.run pid) s' := by
  cases hcode : p.code with
  | nil => simp [hcode, Sys.run] at h
  | cons w rest =>
    rw [hcode] at h
    cases w with
    | getline => simp [Sys.run] at h
    | fork line =>
      cases h
      exact .fork hcode
    | parse line =>
      simp only [Sys.run] at h
      split at h
      · cases h
        exact .parse hcode ‹_›
      · cases h
        exact .exits hcode (Or.inl ⟨rfl, Or.inr ⟨line, rfl⟩⟩)
      · cases h
    | waitLine =>
      simp only [Sys.run] at h
      split at h
      · cases h
      · cases h
        exact .noChild hcode (Or.inr rfl)
    | exec n =>
      cases n with
      | pipe left right =>
        simp only [Sys.run] at h
        split at h
        · cases h
        · split at h
          · cases h
          · cases h
            exact .pipe hcode ‹_› ‹_›
      | redir fd mode child file =>
        simp only [Sys.run] at h
        split at h
        · cases h
        · cases h
          exact .opened hcode ‹_›
      | exec args =>
        cases h
        exact .leaf hcode
    | forkLeft left fd0 fd1 =>
      cases h
      exact .forkLeft hcode
    | forkRight right fd0 fd1 =>
      cases h
      exact .forkRight hcode
    | dup2OrExit old new =>
      simp only [Sys.run, mysh.dup2, Option.map_map, Option.map_eq_some_iff] at h
      obtain ⟨d, hd, rfl⟩ := h
      exact .dup2OrExit hcode hd
    | dup2 old new =>
      cases old with
      | none => simp [Sys.run] at h
      | some old =>
        simp only [Sys.run, Option.bind_some, mysh.dup2, Option.map_map,
          Option.map_eq_some_iff] at h
        obtain ⟨d, hd, rfl⟩ := h
        exact .dup2 hcode hd
    | close d =>
      cases h
      exact .close hcode
    | wait =>
      simp only [Sys.run] at h
      split at h
      · cases h
      · cases h
        exact .noChild hcode (Or.inl rfl)
    | execvp args =>
      cases h
      exact .execvp hcode
    | exit =>
      cases h
      exact .exits hcode (Or.inl ⟨rfl, Or.inl rfl⟩)

theorem Sys.fail_stepped {limit pid : Nat} {s s' : Sys} {p : Proc}
    (h : s.fail pid p p.code = some s') : s.Stepped limit pid p (.fail pid) s' := by
  cases hcode : p.code with
  | nil => simp [hcode, Sys.fail] at h
  | cons w rest =>
    rw [hcode] at h
    cases w with
    | fork line =>
      cases h
      exact .exits hcode (Or.inr ⟨rfl, Or.inl ⟨line, rfl⟩⟩)
    | forkLeft n fd0 fd1 =>
      cases h
      exact .exits hcode (Or.inr ⟨rfl, Or.inr (Or.inl ⟨n, fd0, fd1, rfl⟩)⟩)
    | forkRight n fd0 fd1 =>
      cases h
      exact .exits hcode (Or.inr ⟨rfl, Or.inr (Or.inr (Or.inl ⟨n, fd0, fd1, rfl⟩))⟩)
    | dup2OrExit old new =>
      cases h
      exact .exits hcode (Or.inr ⟨rfl, Or.inr (Or.inr (Or.inr ⟨old, new, rfl⟩))⟩)
    | exec n =>
      cases n with
      | redir fd mode child file =>
        cases h
        exact .notOpened hcode
      | pipe left right => simp [Sys.fail] at h
      | exec args => simp [Sys.fail] at h
    | dup2 old new =>
      cases h
      exact .notDuped hcode
    | execvp args =>
      cases h
      exact .notExecuted hcode
    | _ => simp [Sys.fail] at h

/-- Every step is one of a process: by the shell's code, the exit of a
program, a line read, or a child waited for. -/
theorem Sys.step_cases {limit : Nat} {s s' : Sys} {a : Action} (h : s.step limit a = some s') :
    ∃ pid p, s.procs[pid]? = some p ∧
      (p.status = .shell ∧ s.Stepped limit pid p a s' ∨
        (∃ args, p.status = .program args) ∧ s' = s.setProc pid p.exit ∨
        (∃ line rest, a = .line pid line ∧ p.code = .getline :: rest ∧
          s' = s.setProc pid { p with code := .fork line :: .waitLine :: .getline :: rest }) ∨
        ∃ child w rest, a = .reap pid child ∧ p.code = w :: rest ∧ (w = .wait ∨ w = .waitLine) ∧
          s.reapable pid child = true ∧ s' = s.reap pid p child rest) := by
  cases a with
  | run pid =>
    obtain ⟨p, hp, h⟩ := Option.bind_eq_some_iff.mp h
    refine ⟨pid, p, hp, ?_⟩
    split at h
    · exact Or.inl ⟨‹_›, Sys.run_stepped h⟩
    · cases h
      exact Or.inr (Or.inl ⟨⟨_, ‹_›⟩, rfl⟩)
    · cases h
  | fail pid =>
    obtain ⟨p, hp, h⟩ := Option.bind_eq_some_iff.mp h
    refine ⟨pid, p, hp, ?_⟩
    split at h
    · exact Or.inl ⟨‹_›, Sys.fail_stepped h⟩
    · cases h
  | line pid line =>
    obtain ⟨p, hp, h⟩ := Option.bind_eq_some_iff.mp h
    refine ⟨pid, p, hp, Or.inr (Or.inr (Or.inl ?_))⟩
    split at h
    · cases h
      exact ⟨line, _, rfl, ‹_›, rfl⟩
    · cases h
  | reap pid child =>
    obtain ⟨p, hp, h⟩ := Option.bind_eq_some_iff.mp h
    refine ⟨pid, p, hp, Or.inr (Or.inr (Or.inr ?_))⟩
    split at h
    · split at h
      · cases h
        exact ⟨child, _, _, rfl, ‹_›, Or.inl rfl, ‹_›, rfl⟩
      · cases h
    · split at h
      · cases h
        exact ⟨child, _, _, rfl, ‹_›, Or.inr rfl, ‹_›, rfl⟩
      · cases h
    · cases h

end mysh
