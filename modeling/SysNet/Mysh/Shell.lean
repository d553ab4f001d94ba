-- The scanner, the parsers and the tree printer of `mysh`. A pointer into
-- the line is an index into the buffer that holds it. Every loop stops at
-- `end`, so each function is total.
import Mathlib.Data.List.Basic

namespace mysh

/-! ## The line in memory -/

/-- The characters from the start of the buffer on. -/
abbrev Buf := List Char

/-- The string end. -/
def NUL : Char := Char.ofNat 0

/-- What `getline` leaves in the buffer: the line and a NUL. -/
def getline (line : List Char) : Buf := line ++ [NUL]

/-- `*s`. -/
def deref (buf : Buf) (s : Nat) : Char := buf.getD s NUL

/-- `isspace` of the C locale. -/
def isspace (c : Char) : Bool :=
  c = ' ' || c = '\t' || c = '\n' || c = Char.ofNat 11 || c = Char.ofNat 12 || c = '\r'

/-- A pointer read as a C string. -/
def cstring (buf : Buf) (s : Nat) : List Char := (buf.drop s).takeWhile (· ≠ NUL)

/-- `while (n-- && p(*s)) s++`, which is how the scanner's loops run up to `end`. -/
def advance (p : Char → Bool) (buf : Buf) : Nat → Nat → Nat
  | 0, s => s
  | n + 1, s => if p (deref buf s) then advance p buf n (s + 1) else s

/-! ## The scanner -/

/-- The token classes, by the characters that `peak` and `gettoken` return for them. -/
inductive Tok
  /-- `0` -/
  | eol
  /-- `'|'` -/
  | pipe
  /-- `'<'` -/
  | lt
  /-- `'>'` -/
  | gt
  /-- `'+'` -/
  | plus
  /-- `'x'` -/
  | x
deriving DecidableEq, Repr

/-- The class of the token at `s`, where `s < end`. -/
def classify (buf : Buf) (s e : Nat) : Tok :=
  if deref buf s = '|' then .pipe
  else if deref buf s = '<' then .lt
  else if deref buf s = '>' then
    if s + 1 < e ∧ deref buf (s + 1) = '>' then .plus else .gt
  else .x

/-- `peak` looks past white space. The cursor is never past `end`. -/
def peak (buf : Buf) (s e : Nat) : Tok :=
  let t := advance isspace buf (e - s) s
  if e ≤ t then .eol else classify buf t e

/-- A word of the line: the pointers to its first character and past its last. -/
structure Span where
  start : Nat
  stop : Nat
deriving DecidableEq, Repr

/-- What `gettoken` returns, and what it leaves in `*tok_start` and `*tok_end`
(the span) and in `*start`. -/
structure Token where
  tok : Tok
  span : Span
  next : Nat
deriving DecidableEq, Repr

/-- `gettoken` does not look past white space: its token starts at the cursor. -/
def gettoken (buf : Buf) (s e : Nat) : Token :=
  if e ≤ s then { tok := .eol, span := ⟨s, s⟩, next := s }
  else
    let stop := advance (fun c => !isspace c) buf (e - s) s
    { tok := classify buf s e
      span := ⟨s, stop⟩
      next := advance isspace buf (e - stop) stop }

theorem le_advance (p : Char → Bool) (buf : Buf) (n s : Nat) : s ≤ advance p buf n s := by
  induction n generalizing s with
  | zero => exact Nat.le_refl s
  | succ n ih =>
    unfold advance
    split
    · exact Nat.le_of_succ_le (ih (s + 1))
    · exact Nat.le_refl s

theorem advance_le (p : Char → Bool) (buf : Buf) (n s : Nat) : advance p buf n s ≤ s + n := by
  induction n generalizing s with
  | zero => exact Nat.le_refl s
  | succ n ih =>
    unfold advance
    split
    · have := ih (s + 1)
      omega
    · omega

theorem lt_advance {p : Char → Bool} {buf : Buf} {n s : Nat} (hn : 0 < n)
    (hp : p (deref buf s) = true) : s < advance p buf n s := by
  obtain ⟨m, rfl⟩ := Nat.exists_eq_succ_of_ne_zero (Nat.ne_of_gt hn)
  have := le_advance p buf m (s + 1)
  simp only [advance, hp, if_true]
  omega

/-- A token ends where it starts or later, and what follows it starts there or later. -/
theorem gettoken_le (buf : Buf) (s e : Nat) :
    s ≤ (gettoken buf s e).span.stop ∧ (gettoken buf s e).span.stop ≤ (gettoken buf s e).next := by
  unfold gettoken
  split
  · exact ⟨Nat.le_refl s, Nat.le_refl s⟩
  · exact ⟨le_advance _ _ _ _, le_advance _ _ _ _⟩

/-- Before the end of the line a token, or the white space in its place, is passed. -/
theorem lt_next {buf : Buf} {s e : Nat} (h : s < e) : s < (gettoken buf s e).next := by
  have hle := gettoken_le buf s e
  rcases Nat.lt_or_ge s (gettoken buf s e).span.stop with hlt | hge
  · omega
  · have hstop : (gettoken buf s e).span.stop = s := by omega
    simp only [gettoken, Nat.not_le.mpr h, if_false] at hstop ⊢
    cases hsp : isspace (deref buf s) with
    | true =>
      rw [hstop]
      exact lt_advance (Nat.sub_pos_of_lt h) hsp
    | false =>
      have := @lt_advance (fun c => !isspace c) buf _ s (Nat.sub_pos_of_lt h) (by simp [hsp])
      omega

theorem next_le {buf : Buf} {s e : Nat} (h : s ≤ e) : (gettoken buf s e).next ≤ e := by
  unfold gettoken
  split
  · exact h
  · have h1 := advance_le (fun c => !isspace c) buf (e - s) s
    have h2 := advance_le isspace buf (e - advance (fun c => !isspace c) buf (e - s) s)
      (advance (fun c => !isspace c) buf (e - s) s)
    simp only
    omega

theorem lt_of_peak {buf : Buf} {s e : Nat} (h : peak buf s e ≠ .eol) : s < e := by
  rcases Nat.lt_or_ge s e with hlt | hge
  · exact hlt
  · have := le_advance isspace buf (e - s) s
    simp [peak, Nat.le_trans hge this] at h

theorem lt_of_gettoken {buf : Buf} {s e : Nat} (h : (gettoken buf s e).tok ≠ .eol) : s < e := by
  rcases Nat.lt_or_ge s e with hlt | hge
  · exact hlt
  · simp [gettoken, hge] at h

/-! ## The tree -/

def MAXARGS : Nat := 10

def STDIN_FILENO : Nat := 0

def STDOUT_FILENO : Nat := 1

def O_RDONLY : Nat := 0

def O_WRONLY : Nat := 1

def O_CREAT : Nat := 64

def O_TRUNC : Nat := 512

def O_APPEND : Nat := 1024

/-- The nodes that the parser builds. The words of `exec` are `argv` and
`eargv` up to their NULL, and the word of `redir` is `file` and `efile`. -/
inductive Node
  | exec (args : List Span)
  | redir (fd mode : Nat) (child : Node) (file : Span)
  | pipe (left right : Node)
deriving DecidableEq, Repr

/-- How a parser stops without a tree. A write past the end of `argv` or
`eargv` is undefined behaviour, and the model says nothing after it. -/
inductive Stop
  | exit (status : Nat)
  | overrun
deriving DecidableEq, Repr

/-! ## The parsers -/

/-- The descriptor and the mode that `parseRedir` takes an operator for. -/
def redirMode : Tok → Option (Nat × Nat)
  | .lt => some (STDIN_FILENO, O_RDONLY)
  | .gt => some (STDOUT_FILENO, O_WRONLY ||| O_CREAT ||| O_TRUNC)
  | .plus => some (STDOUT_FILENO, O_WRONLY ||| O_CREAT ||| O_APPEND)
  | _ => none

def isRedir (t : Tok) : Bool := t = .lt || t = .gt || t = .plus

/-- `parseRedir`. The parsers give the cursor `*s` back beside the node. -/
def parseRedir (buf : Buf) (child : Node) (s e : Nat) : Except Stop (Node × Nat) :=
  let op := gettoken buf s e
  match redirMode op.tok with
  | none => .error (.exit 1)
  | some (fd, mode) =>
    let word := gettoken buf op.next e
    if word.tok = .x then
      if isRedir (peak buf word.next e) then
        (parseRedir buf child word.next e).map fun r => (.redir fd mode r.1 word.span, r.2)
      else .ok (.redir fd mode child word.span, word.next)
    else .error (.exit 1)
termination_by e - s
decreasing_by
  have htok : (gettoken buf op.next e).tok = .x := ‹_›
  have hlt : op.next < e := lt_of_gettoken (by rw [htok]; decide)
  have h1 := gettoken_le buf s e
  have h2 := @lt_next buf _ _ hlt
  simp only [op] at hlt h2 ⊢
  omega

/-- The loop of `parsExec`, with the words stored so far. -/
def parsArgs (buf : Buf) (args : List Span) (s e : Nat) : Except Stop (List Span × Nat) :=
  if peak buf s e = .x then
    if (gettoken buf s e).tok = .eol then .ok (args, s)
    else if args.length < MAXARGS then
      parsArgs buf (args ++ [(gettoken buf s e).span]) (gettoken buf s e).next e
    else .error .overrun
  else .ok (args, s)
termination_by e - s
decreasing_by
  have hlt : s < e := lt_of_gettoken ‹_›
  have := @lt_next buf s e hlt
  omega

/-- `parsExec`. The NULL behind the last word needs a place in `argv`, too. -/
def parsExec (buf : Buf) (s e : Nat) : Except Stop (Node × Nat) :=
  match parsArgs buf [] s e with
  | .error stop => .error stop
  | .ok (args, s') =>
    if args.length < MAXARGS then
      if isRedir (peak buf s' e) then parseRedir buf (.exec args) s' e
      else .ok (.exec args, s')
    else .error .overrun

theorem parsArgs_le {buf : Buf} {args args' : List Span} {s e s' : Nat}
    (h : parsArgs buf args s e = .ok (args', s')) : s ≤ s' := by
  fun_induction parsArgs buf args s e with
  | case1 => simp_all
  | case2 args s hpeak htok hlen ih =>
    have := gettoken_le buf s e
    have := ih h
    omega
  | case3 => simp at h
  | case4 => simp_all

theorem parseRedir_le (buf : Buf) (child : Node) (s e : Nat) :
    ∀ r, parseRedir buf child s e = .ok r → s ≤ r.2 := by
  fun_induction parseRedir buf child s e with
  | case1 => simp
  | case2 s op fd mode hmode word hword hmore ih =>
    intro r h
    have h1 := gettoken_le buf s e
    have h2 := gettoken_le buf op.next e
    cases hr : parseRedir buf child word.next e with
    | error => simp [hr, Except.map] at h
    | ok r' =>
      have h3 := ih r' hr
      simp only [hr, Except.map, Except.ok.injEq] at h
      subst h
      simp only [op, word] at *
      omega
  | case3 s op fd mode hmode word hword hmore =>
    intro r h
    have h1 := gettoken_le buf s e
    have h2 := gettoken_le buf op.next e
    cases h
    simp only [op, word] at *
    omega
  | case4 => simp

theorem parsExec_le {buf : Buf} {n : Node} {s e s' : Nat}
    (h : parsExec buf s e = .ok (n, s')) : s ≤ s' := by
  unfold parsExec at h
  cases ha : parsArgs buf [] s e with
  | error => simp [ha] at h
  | ok r =>
    obtain ⟨args, s₁⟩ := r
    have h1 := parsArgs_le ha
    simp only [ha] at h
    split at h
    · split at h
      · have := parseRedir_le _ _ _ _ _ h
        omega
      · simp only [Except.ok.injEq, Prod.mk.injEq] at h
        omega
    · cases h

/-- `parsePipe`. The cursor that comes back is where the last stage ended. -/
def parsePipe (buf : Buf) (s e : Nat) : Except Stop (Node × Nat) :=
  match _ : parsExec buf s e with
  | .error stop => .error stop
  | .ok (exec1, s') =>
    if peak buf s' e = .pipe then
      (parsePipe buf (gettoken buf s' e).next e).map fun r => (.pipe exec1 r.1, r.2)
    else .ok (exec1, s')
termination_by e - s
decreasing_by
  have h1 := parsExec_le ‹_›
  have hpeak : peak buf s' e = .pipe := ‹_›
  have hlt : s' < e := lt_of_peak (by rw [hpeak]; decide)
  have h2 := @lt_next buf s' e hlt
  omega

/-! ## The printer -/

/-- `*p = 0`. -/
def terminate (buf : Buf) (p : Nat) : Buf := buf.set p NUL

def parsExecNullTerminate (buf : Buf) (args : List Span) : Buf :=
  args.foldl (fun b a => terminate b a.stop) buf

/-- `printTree`: the buffer with its words terminated, and the lines printed. -/
def printTree (buf : Buf) : Node → Buf × List (List Char)
  | .redir _ _ child file =>
    let buf := terminate buf file.stop
    let r := printTree buf child
    (r.1, cstring buf file.start :: r.2)
  | .pipe left right =>
    let l := printTree buf left
    let r := printTree l.1 right
    (r.1, ['|'] :: l.2 ++ r.2)
  | .exec args =>
    let buf := parsExecNullTerminate buf args
    (buf, args.map fun a => cstring buf a.start)

end mysh
