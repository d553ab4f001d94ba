-- `exec` on the redirections of a command: which files it opens, and what the
-- standard descriptors stand for when it reaches `execvp`. Here a descriptor
-- names its file, and a file has contents.
import Mathlib.Data.List.Forall2
import Mathlib.Logic.Relation
import SysNet.Mysh.Processes

namespace mysh

/-! ## Files and descriptors -/

/-- What a descriptor stands for. -/
inductive Target
  /-- what descriptor `d` of the shell stands for -/
  | shell (d : Nat)
  | pipeEnd
  | opened (file : List Char) (mode : Nat)
deriving DecidableEq, Repr

/-- The files by name. `denied` stands for every other reason why a file
cannot be opened in a mode. -/
structure FileSystem where
  contents : List Char → Option (List Char)
  denied : List Char → Nat → Bool

/-- `open`: a missing file is made with `O_CREAT`, and `O_TRUNC` empties it. -/
def FileSystem.openFile (fs : FileSystem) (file : List Char) (mode : Nat) : Option FileSystem :=
  if file = [] || fs.denied file mode then none
  else
    match fs.contents file with
    | some _ =>
      if mode &&& O_TRUNC ≠ 0 then
        some { fs with contents := Function.update fs.contents file (some []) }
      else some fs
    | none =>
      if mode &&& O_CREAT ≠ 0 then
        some { fs with contents := Function.update fs.contents file (some []) }
      else none

/-- One `open` that succeeded: the file and the mode, and what the file held
before and after. -/
structure Opening where
  file : List Char
  mode : Nat
  before : Option (List Char)
  after : Option (List Char)
deriving DecidableEq, Repr

/-- A process in `exec`, with the files that it has opened, the first one first. -/
structure Runner where
  fds : Nat → Option Target
  fs : FileSystem
  opens : List Opening

/-- The lowest descriptor that is free. -/
def freeFd (limit : Nat) (fds : Nat → Option Target) : Option Nat :=
  (List.range limit).find? fun d => (fds d).isNone

namespace Runner

def openFile (limit : Nat) (w : Runner) (file : List Char) (mode : Nat) : Option (Nat × Runner) :=
  match freeFd limit w.fds, w.fs.openFile file mode with
  | some d, some fs => some (d,
      { fds := Function.update w.fds d (some (.opened file mode)), fs
        opens := w.opens ++ [⟨file, mode, w.fs.contents file, fs.contents file⟩] })
  | _, _ => none

/-- `dup2`. -/
def dup2 (w : Runner) (old new : Nat) : Runner :=
  match w.fds old with
  | some t => { w with fds := Function.update w.fds new (some t) }
  | none => w

/-- The `REDIR` branch before its call of `exec`. `open` may give -1, for which
`dup2` fails and does nothing. `meanwhile` is what the `printf` between them
and other processes make of the files. -/
def redirect (limit : Nat) (meanwhile : Runner → FileSystem) (w : Runner) (fd mode : Nat)
    (file : List Char) : Runner :=
  match w.openFile limit file mode with
  | some (d, w1) => { w1.dup2 d fd with fs := meanwhile w1 }
  | none => { w with fs := meanwhile w }

/-- The process with both ends of a new pipe. -/
def pipe (limit : Nat) (w : Runner) : Option (Nat × Nat × Runner) := do
  let fd0 ← freeFd limit w.fds
  let w0 := { w with fds := Function.update w.fds fd0 (some .pipeEnd) }
  let fd1 ← freeFd limit w0.fds
  return (fd0, fd1, { w0 with fds := Function.update w0.fds fd1 (some .pipeEnd) })

/-- A child of a `PIPE` node, which has its end of the pipe for descriptor `new`. -/
def child (w : Runner) (old other new : Nat) (fs : FileSystem) : Runner :=
  let w1 := w.dup2 old new
  { w1 with fds := Function.update (Function.update w1.fds other none) old none, fs }

end Runner

/-! ## The calls of `exec` -/

section calls

variable (limit : Nat) (meanwhile : Runner → FileSystem) (buf : Buf)

/-- A call of `exec` leads to another one, in the same process or in a child.
When the child comes to it, other processes may have changed the files. -/
inductive Calls : Node × Runner → Node × Runner → Prop
  | redir {w : Runner} {fd mode : Nat} {child : Node} {file : Span} :
      Calls (.redir fd mode child file, w)
        (child, w.redirect limit meanwhile fd mode (cstring buf file.start))
  | left {w w1 : Runner} {left right : Node} {fd0 fd1 : Nat} {fs : FileSystem} :
      w.pipe limit = some (fd0, fd1, w1) →
      Calls (.pipe left right, w) (left, w1.child fd1 fd0 STDOUT_FILENO fs)
  | right {w w1 : Runner} {left right : Node} {fd0 fd1 : Nat} {fs : FileSystem} :
      w.pipe limit = some (fd0, fd1, w1) →
      Calls (.pipe left right, w) (right, w1.child fd0 fd1 STDIN_FILENO fs)

/-- A call of `exec` leads to a call of `execvp`. -/
def Reaches (n : Node) (w : Runner) (args : List Span) (w' : Runner) : Prop :=
  Relation.ReflTransGen (Calls limit meanwhile buf) (n, w) (.exec args, w')

/-- Every file of the redirections of a command can be opened. -/
def OpensAll : Runner → Node → Prop
  | w, .redir fd mode child file =>
    (w.openFile limit (cstring buf file.start) mode).isSome ∧
      OpensAll (w.redirect limit meanwhile fd mode (cstring buf file.start)) child
  | _, _ => True

end calls

/-! ## A command that runs without its redirections -/

section commands

variable {limit : Nat} {meanwhile : Runner → FileSystem} {buf : Buf}

/-- Whatever `open` gives, the chain of calls goes on to `execvp`. -/
theorem exists_reaches {c : Node} (h : c.pipes = 0) (w : Runner) :
    ∃ args w', Reaches limit meanwhile buf c w args w' := by
  induction c generalizing w with
  | exec args => exact ⟨args, w, .refl⟩
  | redir fd mode child file ih =>
    obtain ⟨args, w', hreach⟩ := ih h (w.redirect limit meanwhile fd mode (cstring buf file.start))
    exact ⟨args, w', .head .redir hreach⟩
  | pipe left right => simp [Node.pipes] at h

/-- No command that the call of `exec` comes to, in this process or in a child,
reaches `execvp` when a file of its redirections cannot be opened. -/
def RunsRedirected (limit : Nat) (meanwhile : Runner → FileSystem) (buf : Buf) (n : Node)
    (w : Runner) : Prop :=
  ∀ c w', Relation.ReflTransGen (Calls limit meanwhile buf) (n, w) (c, w') → c.pipes = 0 →
    ¬ OpensAll limit meanwhile buf w' c →
    ¬ ∃ args w'', Reaches limit meanwhile buf c w' args w''

/-- For every tree and every state of the files and descriptors, commands run
only with their redirections exactly when every open succeeds. -/
theorem commands_run_redirected_iff (limit : Nat) (meanwhile : Runner → FileSystem) (buf : Buf)
    (n : Node) (w : Runner) :
    RunsRedirected limit meanwhile buf n w ↔
      ∀ c w', Relation.ReflTransGen (Calls limit meanwhile buf) (n, w) (c, w') → c.pipes = 0 →
        OpensAll limit meanwhile buf w' c := by
  constructor
  · intro h c w' hcalls hc
    by_contra hnot
    exact h c w' hcalls hc hnot (exists_reaches hc w')
  · intro h c w' hcalls hc hnot
    exact absurd (h c w' hcalls hc) hnot

end commands

/-- A process with the shell's standard descriptors and no files. -/
def launched : Runner where
  fds := fun d => if d < 3 then some (.shell d) else none
  fs := { contents := fun _ => none, denied := fun _ _ => false }
  opens := []

/-- `cat < f` without a file `f` runs `cat` on the input of the shell. -/
theorem cat_runs_without_its_file : ¬ ∀ (limit : Nat) (meanwhile : Runner → FileSystem) (buf : Buf)
    (n : Node) (w : Runner), RunsRedirected limit meanwhile buf n w := by
  intro h
  have hopen := (commands_run_redirected_iff _ _ _ _ _).mp
    (h 16 (fun w => w.fs) (getline "cat < f\n".toList)
      (.redir STDIN_FILENO O_RDONLY (.exec [⟨0, 3⟩]) ⟨6, 7⟩) launched) _ _ .refl rfl
  exact absurd hopen.1 (by decide)

/-! ## The last redirection wins -/

section order

variable {limit : Nat} {meanwhile : Runner → FileSystem} {buf : Buf} {w w' w1 : Runner}
  {file : List Char} {fd mode d : Nat}

theorem openFile_contents {fs fs' : FileSystem} (h : fs.openFile file mode = some fs') :
    fs'.contents file =
      if mode &&& O_TRUNC ≠ 0 then some [] else some ((fs.contents file).getD []) := by
  unfold FileSystem.openFile at h
  split at h
  · cases h
  · split at h
    · rename_i text htext
      split at h
      · rename_i htrunc
        cases h
        rw [if_pos htrunc]
        exact Function.update_self ..
      · rename_i htrunc
        cases h
        rw [if_neg htrunc, htext]
        rfl
    · rename_i hnone
      split at h
      · cases h
        rw [hnone]
        simp
      · cases h

theorem freeFd_spec {fds : Nat → Option Target} (h : freeFd limit fds = some d) : fds d = none := by
  have := List.find?_some h
  simpa using this

theorem openFile_cases (h : (w.openFile limit file mode).isSome) :
    ∃ d fs, freeFd limit w.fds = some d ∧ w.fs.openFile file mode = some fs ∧
      w.openFile limit file mode = some (d,
        { fds := Function.update w.fds d (some (.opened file mode)), fs
          opens := w.opens ++ [⟨file, mode, w.fs.contents file, fs.contents file⟩] }) := by
  unfold Runner.openFile at h ⊢
  split at h
  · rename_i d fs hd hfs
    exact ⟨d, fs, hd, hfs, rfl⟩
  · cases h

/-- What the file of a redirection holds when `open` has returned. -/
structure Opening.Took (o : Opening) (file : List Char) (mode : Nat) : Prop where
  named : o.file = file
  opened : o.mode = mode
  holds : o.after = if mode &&& O_TRUNC ≠ 0 then some [] else some (o.before.getD [])

/-- A redirection whose file opens sets its descriptor, and no other standard one. -/
theorem redirect_opened (h : (w.openFile limit file mode).isSome)
    (hstd : ∀ i < 3, (w.fds i).isSome) :
    (∀ i < 3, (w.redirect limit meanwhile fd mode file).fds i =
      if i = fd then some (.opened file mode) else w.fds i) ∧
    ∃ o : Opening, (w.redirect limit meanwhile fd mode file).opens = w.opens ++ [o] ∧
      o.Took file mode := by
  obtain ⟨d, fs, hd, hfs, heq⟩ := openFile_cases h
  have hfree : ¬ d < 3 := by
    intro hlt
    have hsome := hstd d hlt
    rw [freeFd_spec hd] at hsome
    cases hsome
  unfold Runner.redirect
  rw [heq]
  simp only [Runner.dup2, Function.update_self]
  refine ⟨fun i hi => ?_, _, rfl, rfl, rfl, openFile_contents hfs⟩
  by_cases hi' : i = fd
  · rw [if_pos hi', hi', Function.update_self]
  · rw [if_neg hi', Function.update_of_ne hi', Function.update_of_ne (by omega)]

/-- One redirection of a command, as `exec` runs it. -/
def redirectOne (limit : Nat) (meanwhile : Runner → FileSystem) (buf : Buf) (w : Runner)
    (r : Tok × Span) : Runner :=
  match redirMode r.1 with
  | some (fd, mode) => w.redirect limit meanwhile fd mode (cstring buf r.2.start)
  | none => w

theorem wrap_of_mode {r : Tok × Span} (h : redirMode r.1 = some (fd, mode)) (child : Node) :
    wrap r child = .redir fd mode child r.2 := by
  unfold wrap
  rw [h]

/-- The calls on a chain of redirections come to `execvp` in one way: the
first redirection written is the outermost, and `exec` opens it first. -/
theorem reaches_chain_iff {args args' : List Span} {redirs : List (Tok × Span)}
    (h : ∀ r ∈ redirs, isRedir r.1 = true) (w w' : Runner) :
    Reaches limit meanwhile buf (redirs.foldr wrap (.exec args)) w args' w' ↔
      args' = args ∧ w' = redirs.foldl (redirectOne limit meanwhile buf) w := by
  induction redirs generalizing w with
  | nil =>
    constructor
    · intro hreach
      rcases Relation.ReflTransGen.cases_head hreach with heq | ⟨x, hstep, -⟩
      · simp only [List.foldr_nil, Prod.mk.injEq, Node.exec.injEq] at heq
        exact ⟨heq.1.symm, heq.2.symm⟩
      · cases hstep
    · rintro ⟨rfl, rfl⟩
      exact .refl
  | cons r redirs ih =>
    obtain ⟨hr, hrest⟩ := List.forall_mem_cons.mp h
    obtain ⟨⟨fd, mode⟩, hmode⟩ := Option.isSome_iff_exists.mp ((redirMode_isSome r.1).trans hr)
    have hone : redirectOne limit meanwhile buf w r =
        w.redirect limit meanwhile fd mode (cstring buf r.2.start) := by
      rw [redirectOne, hmode]
    rw [List.foldr_cons, wrap_of_mode hmode, List.foldl_cons, hone, ← ih hrest]
    constructor
    · intro hreach
      rcases Relation.ReflTransGen.cases_head hreach with heq | ⟨x, hstep, hrest'⟩
      · simp at heq
      · cases hstep
        exact hrest'
    · intro hreach
      exact .head .redir hreach

/-- The mode of an operator. -/
def modeOf (op : Tok) : Nat := ((redirMode op).map Prod.snd).getD 0

/-- What a redirection makes its descriptor stand for. -/
def targetOf (buf : Buf) (r : Tok × Span) : Target :=
  .opened (cstring buf r.2.start) (modeOf r.1)

/-- The last redirection of a descriptor. -/
def lastFor (d : Nat) (redirs : List (Tok × Span)) : Option (Tok × Span) :=
  (redirs.filter fun r => decide ((redirMode r.1).map Prod.fst = some d)).getLast?

theorem lastFor_cons (d : Nat) (r : Tok × Span) (redirs : List (Tok × Span)) :
    lastFor d (r :: redirs) = (lastFor d redirs).or
      (if (redirMode r.1).map Prod.fst = some d then some r else none) := by
  unfold lastFor
  rw [List.filter_cons]
  by_cases h : (redirMode r.1).map Prod.fst = some d
  · simp only [h, decide_true, if_true, List.getLast?_cons]
    cases (redirs.filter fun r => decide ((redirMode r.1).map Prod.fst = some d)).getLast? <;> rfl
  · simp [h]

/-- The redirections of a command, run one after the other. -/
theorem foldl_redirectOne {args : List Span} {redirs : List (Tok × Span)}
    (h : ∀ r ∈ redirs, isRedir r.1 = true) (hstd : ∀ i < 3, (w.fds i).isSome)
    (hopen : OpensAll limit meanwhile buf w (redirs.foldr wrap (.exec args))) :
    (∀ i < 3, (redirs.foldl (redirectOne limit meanwhile buf) w).fds i =
      ((lastFor i redirs).map (targetOf buf)).or (w.fds i)) ∧
    ∃ os, (redirs.foldl (redirectOne limit meanwhile buf) w).opens = w.opens ++ os ∧
      List.Forall₂ (fun r o => o.Took (cstring buf r.2.start) (modeOf r.1)) redirs os := by
  induction redirs generalizing w with
  | nil => exact ⟨fun i _ => rfl, [], (List.append_nil _).symm, .nil⟩
  | cons r redirs ih =>
    obtain ⟨hr, hrest⟩ := List.forall_mem_cons.mp h
    obtain ⟨⟨fd, mode⟩, hmode⟩ := Option.isSome_iff_exists.mp ((redirMode_isSome r.1).trans hr)
    have hmode' : modeOf r.1 = mode := by rw [modeOf, hmode]; rfl
    have hone : redirectOne limit meanwhile buf w r =
        w.redirect limit meanwhile fd mode (cstring buf r.2.start) := by
      rw [redirectOne, hmode]
    rw [List.foldr_cons, wrap_of_mode hmode] at hopen
    obtain ⟨hfirst, hopen⟩ := hopen
    obtain ⟨hfds, o, hopens, htook⟩ := @redirect_opened limit meanwhile w _ fd mode hfirst hstd
    have hstd' : ∀ i < 3, ((w.redirect limit meanwhile fd mode
        (cstring buf r.2.start)).fds i).isSome := by
      intro i hi
      rw [hfds i hi]
      split
      · rfl
      · exact hstd i hi
    obtain ⟨hrec, os, hos, hall⟩ := ih hrest hstd' hopen
    rw [List.foldl_cons, hone]
    refine ⟨fun i hi => ?_, o :: os, ?_, .cons (hmode' ▸ htook) hall⟩
    · rw [hrec i hi, hfds i hi, lastFor_cons, hmode]
      simp only [Option.map_some, Option.some.injEq]
      cases lastFor i redirs with
      | some r' => rfl
      | none =>
        by_cases hi' : i = fd
        · rw [if_pos hi', if_pos hi'.symm]
          simp only [Option.map_none, Option.none_or, Option.map_some, Option.some_or, targetOf,
            hmode']
        · rw [if_neg hi', if_neg (Ne.symm hi')]
          rfl
    · rw [hos, hopens, List.append_assoc]
      rfl

/-! ## The redirections of a line -/

/-- The redirections that stand between two cursors, in the order of the line:
each is an operator with the word behind it. -/
structure Written (buf : Buf) (s s' e : Nat) (redirs : List (Tok × Span)) : Prop where
  tokens : (scan buf s e).map Prod.fst =
    (redirs.flatMap fun r => [r.1, .x]) ++ (scan buf s' e).map Prod.fst
  files : words (scan buf s e) = redirs.map Prod.snd ++ words (scan buf s' e)
  operators : ∀ r ∈ redirs, isRedir r.1 = true

theorem parseRedir_written {child n : Node} {s s' e : Nat} (he : e ≤ buf.length)
    (h : parseRedir buf child s e = .ok (n, s')) :
    ∃ redirs, Written buf s s' e redirs ∧ n = redirs.foldr wrap child := by
  have hop : redirMode (gettoken buf s e).tok ≠ none := by
    intro hnone
    rw [parseRedir, hnone] at h
    cases h
  have hlt : s < e := lt_of_gettoken (by rintro heol; rw [heol] at hop; exact hop rfl)
  have hsp : isspace (deref buf s) = false := by
    by_contra hsp
    rw [gettoken_space hlt (by simpa using hsp)] at hop
    exact hop rfl
  have hc : Cursor buf s e := by
    refine ⟨Nat.le_of_lt hlt, he, ?_⟩
    intro c hc
    rw [slice_cons hlt he] at hc
    cases hc
    exact hsp
  have hsees := sees_parseRedir child hc
  cases ht : takeRedirs (scan buf s e) with
  | error stop =>
    rw [ht, h] at hsees
    cases hsees
  | ok r =>
    obtain ⟨redirs, rest⟩ := r
    rw [ht] at hsees
    obtain ⟨s'', hs, -, hscan⟩ := hsees
    rw [h] at hs
    cases hs
    obtain ⟨cs, hcs, hkinds, hwords, hall⟩ := takeRedirs_ok ht
    refine ⟨redirs, ⟨?_, ?_, hall⟩, rfl⟩
    · rw [hcs, List.map_append, hkinds, hscan, List.flatMap_map]
    · rw [hcs, words_append, hwords, hscan]

/-- `parseRedir` stops where no further redirection follows. -/
theorem peak_of_parseRedir {child n : Node} {s s' e : Nat}
    (h : parseRedir buf child s e = .ok (n, s')) : isRedir (peak buf s' e) = false := by
  induction s using parseRedir.induct buf e generalizing n with
  | case1 s op =>
    rename_i hnone
    rw [parseRedir, hnone] at h
    cases h
  | case2 s op fd mode hmode word hword hmore =>
    rename_i ih
    simp only [op, word] at hmode hword hmore ih
    rw [parseRedir, hmode] at h
    simp only [hword, hmore, if_true] at h
    cases hr : parseRedir buf child word.next e with
    | error stop =>
      rw [hr] at h
      cases h
    | ok r =>
      rw [hr] at h
      cases h
      exact ih hr
  | case3 s op fd mode hmode word hword =>
    rename_i hlast
    simp only [op, word] at hmode hword hlast
    rw [parseRedir, hmode] at h
    simp only [hword, hlast, if_true] at h
    cases h
    simpa using hlast
  | case4 s op fd mode hmode word =>
    rename_i hword
    simp only [op, word] at hmode hword
    rw [parseRedir, hmode] at h
    simp only [hword, if_false] at h
    cases h

/-- Of the redirections of descriptor 0 the last `<` is the last one, and of
descriptor 1 the last `>` or `>>`. -/
theorem lastFor_operators {redirs : List (Tok × Span)} (h : ∀ r ∈ redirs, isRedir r.1 = true) :
    lastFor STDIN_FILENO redirs = (redirs.filter (·.1 = .lt)).getLast? ∧
      lastFor STDOUT_FILENO redirs = (redirs.filter fun r => r.1 = .gt ∨ r.1 = .plus).getLast? ∧
      lastFor 2 redirs = none := by
  have hclass : ∀ r ∈ redirs, r.1 = .lt ∨ r.1 = .gt ∨ r.1 = .plus := by
    intro r hr
    have := h r hr
    simpa [isRedir, or_assoc] using this
  refine ⟨?_, ?_, ?_⟩
  · apply congrArg List.getLast?
    apply List.filter_congr
    intro r hr
    rcases hclass r hr with hr | hr | hr <;> rw [hr] <;> decide
  · apply congrArg List.getLast?
    apply List.filter_congr
    intro r hr
    rcases hclass r hr with hr | hr | hr <;> rw [hr] <;> decide
  · have hnil : redirs.filter (fun r => decide ((redirMode r.1).map Prod.fst = some 2)) = [] := by
      apply List.filter_eq_nil_iff.mpr
      intro r hr
      rcases hclass r hr with hr | hr | hr <;> rw [hr] <;> decide
    rw [lastFor, hnil]
    rfl

/-- What `>` and `>>` do to their files. -/
theorem took_holds {r : Tok × Span} {o : Opening} (h : o.Took (cstring buf r.2.start) (modeOf r.1)) :
    (r.1 = .gt → o.after = some []) ∧ (r.1 = .plus → o.after = some (o.before.getD [])) := by
  have hholds := h.holds
  constructor
  · intro hr
    rw [hr] at hholds
    exact hholds
  · intro hr
    rw [hr] at hholds
    exact hholds

end order

/-- `parseRedir` reads every redirection up to the first token that is no
operator with its file. The files are opened in the order of the line, each in
the mode of its operator. So `>` empties its file and `>>` keeps it. The one call of `execvp` that is reached has the file of the
last `<` for descriptor 0, that of the last `>` or `>>` for descriptor 1, and
the other standard descriptors as before. -/
theorem redirections_take_effect_left_to_right (limit : Nat) (meanwhile : Runner → FileSystem)
    (line buf : Buf) (args : List Span) (n : Node) (s s' e : Nat) (w : Runner)
    (he : e ≤ line.length) (hparse : parseRedir line (.exec args) s e = .ok (n, s'))
    (hstd : ∀ d < 3, (w.fds d).isSome) (hopen : OpensAll limit meanwhile buf w n) :
    ∃ redirs w', Written line s s' e redirs ∧ isRedir (peak line s' e) = false ∧
      (∀ args' w'', Reaches limit meanwhile buf n w args' w'' ↔ args' = args ∧ w'' = w') ∧
      (∃ os, w'.opens = w.opens ++ os ∧ List.Forall₂ (fun r o =>
        o.file = cstring buf r.2.start ∧ o.mode = modeOf r.1 ∧
          (r.1 = .gt → o.after = some []) ∧ (r.1 = .plus → o.after = some (o.before.getD [])))
        redirs os) ∧
      w'.fds STDIN_FILENO =
        (((redirs.filter (·.1 = .lt)).getLast?).map (targetOf buf)).or (w.fds STDIN_FILENO) ∧
      w'.fds STDOUT_FILENO = (((redirs.filter fun r => r.1 = .gt ∨ r.1 = .plus).getLast?).map
        (targetOf buf)).or (w.fds STDOUT_FILENO) ∧
      w'.fds 2 = w.fds 2 := by
  obtain ⟨redirs, hwritten, rfl⟩ := parseRedir_written he hparse
  obtain ⟨hfds, os, hos, hall⟩ := foldl_redirectOne hwritten.operators hstd hopen
  obtain ⟨hin, hout, herr⟩ := lastFor_operators hwritten.operators
  refine ⟨redirs, _, hwritten, peak_of_parseRedir hparse,
    fun args' w'' => reaches_chain_iff hwritten.operators w w'', ⟨os, hos, hall.imp ?_⟩, ?_, ?_, ?_⟩
  · exact fun r o htook => ⟨htook.named, htook.opened, took_holds htook⟩
  · rw [hfds _ (by decide), hin]
  · rw [hfds _ (by decide), hout]
  · rw [hfds _ (by decide), herr]
    rfl

/-- The three redirections of `cat > a < b >> c`. -/
theorem written_cat {redirs : List (Tok × Span)}
    (h : Written (getline "cat > a < b >> c\n".toList) 4 17 17 redirs) :
    redirs = [(.gt, ⟨6, 7⟩), (.lt, ⟨10, 11⟩), (.plus, ⟨15, 16⟩)] := by
  have htokens := h.tokens
  have hfiles := h.files
  have hscan : (scan (getline "cat > a < b >> c\n".toList) 4 17).map Prod.fst =
      [.gt, .x, .lt, .x, .plus, .x] := by decide +kernel
  have hwords : words (scan (getline "cat > a < b >> c\n".toList) 4 17) =
      [⟨6, 7⟩, ⟨10, 11⟩, ⟨15, 16⟩] := by decide +kernel
  have hend : scan (getline "cat > a < b >> c\n".toList) 17 17 = [] := by decide +kernel
  rw [hscan, hend] at htokens
  rw [hwords, hend] at hfiles
  rcases redirs with _ | ⟨⟨op1, f1⟩, _ | ⟨⟨op2, f2⟩, _ | ⟨⟨op3, f3⟩, _ | ⟨r, redirs⟩⟩⟩⟩
  · simp [words] at hfiles
  · simp [words] at hfiles
  · simp [words] at hfiles
  · simp [words] at hfiles htokens
    simp [hfiles, htokens]
  · simp [words] at hfiles

/-- What the parsers build for `cat > a < b >> c`. -/
def catNode : Node :=
  .redir 1 577 (.redir 0 0 (.redir 1 1089 (.exec [⟨0, 3⟩]) ⟨15, 16⟩) ⟨10, 11⟩) ⟨6, 7⟩

/-- `cat > a < b >> c` comes to `execvp` with `b` for its input and `c` for its
output. All three files were opened, `a` is empty now, and `c` kept its text. -/
theorem cat_reaches_execvp :
    ∃ w', (∀ args w'', Reaches 16 (fun w => w.fs)
      (printTree (getline "cat > a < b >> c\n".toList) catNode).1 catNode
      { launched with fs := { launched.fs with contents := fun _ => some "text".toList } }
      args w'' ↔ args = [⟨0, 3⟩] ∧ w'' = w') ∧
      (∃ a b c, w'.opens = [a, b, c] ∧ a.file = "a".toList ∧ a.mode = 577 ∧ a.after = some [] ∧
        b.file = "b".toList ∧ b.mode = 0 ∧
        c.file = "c".toList ∧ c.mode = 1089 ∧ c.after = some (c.before.getD [])) ∧
      w'.fds 0 = some (.opened "b".toList 0) ∧ w'.fds 1 = some (.opened "c".toList 1089) ∧
      w'.fds 2 = some (.shell 2) := by
  have hparse : parseRedir (getline "cat > a < b >> c\n".toList) (.exec [⟨0, 3⟩]) 4 17 =
      .ok (catNode, 17) := by decide +kernel
  obtain ⟨redirs, w', hwritten, -, hreach, ⟨os, hos, hall⟩, hin, hout, herr⟩ :=
    redirections_take_effect_left_to_right 16 (fun w => w.fs)
      (getline "cat > a < b >> c\n".toList)
      (printTree (getline "cat > a < b >> c\n".toList) catNode).1 [⟨0, 3⟩] catNode 4 17 17
      { launched with fs := { launched.fs with contents := fun _ => some "text".toList } }
      (by decide) hparse (by decide) ⟨by decide, by decide, by decide, trivial⟩
  obtain rfl := written_cat hwritten
  have hfiles : cstring (printTree (getline "cat > a < b >> c\n".toList) catNode).1 6 = ['a'] ∧
      cstring (printTree (getline "cat > a < b >> c\n".toList) catNode).1 10 = ['b'] ∧
      cstring (printTree (getline "cat > a < b >> c\n".toList) catNode).1 15 = ['c'] := by
    decide +kernel
  cases hall with
  | cons ha hall =>
    cases hall with
    | cons hb hall =>
      cases hall with
      | cons hc hall =>
        cases hall
        exact ⟨w', hreach,
          ⟨_, _, _, hos, ha.1.trans hfiles.1, ha.2.1, ha.2.2.1 rfl, hb.1.trans hfiles.2.1, hb.2.1,
            hc.1.trans hfiles.2.2, hc.2.1, hc.2.2.2 rfl⟩,
          hin.trans (congrArg (fun f => some (Target.opened f 0)) hfiles.2.1),
          hout.trans (congrArg (fun f => some (Target.opened f 1089)) hfiles.2.2), herr⟩

end mysh
