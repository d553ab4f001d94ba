-- A pipeline written as a line and read back. The parser leaves pointers
-- into the line, and `printTree` turns them into C strings by writing a NUL
-- behind each word. No word is damaged by the NUL of another.
import Mathlib.Data.Bool.AllAny
import SysNet.Mysh.Grammar

namespace mysh

/-! ## Pipelines as they are meant -/

/-- A word that can be written in a command. -/
structure Word where
  text : List Char
  ne_nil : text ≠ []
  nonspace : ∀ c ∈ text, isspace c = false
  noNul : ∀ c ∈ text, c ≠ NUL
  start : ∀ c ∈ text.head?, c ≠ '|' ∧ c ≠ '<' ∧ c ≠ '>'

inductive RedirOp
  | input
  | output
  | append
deriving DecidableEq, Repr

def RedirOp.text : RedirOp → List Char
  | .input => ['<']
  | .output => ['>']
  | .append => ['>', '>']

def RedirOp.fd : RedirOp → Nat
  | .input => STDIN_FILENO
  | .output => STDOUT_FILENO
  | .append => STDOUT_FILENO

def RedirOp.mode : RedirOp → Nat
  | .input => O_RDONLY
  | .output => O_WRONLY ||| O_CREAT ||| O_TRUNC
  | .append => O_WRONLY ||| O_CREAT ||| O_APPEND

/-- A command: one to nine words, and redirections behind them. -/
structure Command where
  words : List Word
  redirs : List (RedirOp × Word)
  one_le : 1 ≤ words.length
  le_nine : words.length ≤ 9

/-- A tree with its strings. -/
inductive Tree
  | exec (argv : List (List Char))
  | redir (fd mode : Nat) (child : Tree) (file : List Char)
  | pipe (left right : Tree)
deriving DecidableEq, Repr

/-- The first redirection written is the outermost. -/
def Command.tree (c : Command) : Tree :=
  c.redirs.foldr (fun r child => .redir r.1.fd r.1.mode child r.2.text)
    (.exec (c.words.map Word.text))

def pipelineTree (c : Command) : List Command → Tree
  | [] => c.tree
  | c' :: cs => .pipe c.tree (pipelineTree c' cs)

/-! ## Writing a pipeline -/

def Command.tokens (c : Command) : List (List Char) :=
  c.words.map Word.text ++ c.redirs.flatMap fun r => [r.1.text, r.2.text]

def pipelineTokens (c : Command) : List Command → List (List Char)
  | [] => c.tokens
  | c' :: cs => c.tokens ++ ['|'] :: pipelineTokens c' cs

/-- The tokens with white space between any two of them, none at the start,
and a newline at the end. -/
inductive Rendered : List (List Char) → List Char → Prop
  | last (t : List Char) : Rendered [t] (t ++ ['\n'])
  | cons {ts : List (List Char)} {text : List Char} (t gap : List Char) :
      gap ≠ [] → (∀ c ∈ gap, isspace c = true) → Rendered ts text →
      Rendered (t :: ts) (t ++ gap ++ text)

/-! ## Reading the tree -/

def Node.tree (f : Span → List Char) : Node → Tree
  | .exec args => .exec (args.map f)
  | .redir fd mode child file => .redir fd mode (child.tree f) (f file)
  | .pipe left right => .pipe (left.tree f) (right.tree f)

/-- The tree with every pointer read as a C string. -/
def Node.read (buf : Buf) (n : Node) : Tree := n.tree fun w => cstring buf w.start

/-! ## The runs of a rendered line -/

/-- What a token looks like to the scanner: a run of its own. -/
structure Chunk (t : List Char) : Prop where
  ne_nil : t ≠ []
  nonspace : ∀ c ∈ t, isspace c = false

theorem settled_chunk {t : List Char} (ht : Chunk t) (rest : List Char) : Settled (t ++ rest) := by
  obtain ⟨c, cs, rfl⟩ := List.exists_cons_of_ne_nil ht.ne_nil
  intro d hd
  obtain rfl : c = d := by simpa using hd
  exact ht.nonspace c List.mem_cons_self

theorem chunks_gap {gap : List Char} (text : List Char) (hgap : ∀ c ∈ gap, isspace c = true) :
    chunks (gap ++ text) = chunks text := by
  induction gap with
  | nil => rfl
  | cons c gap ih =>
    obtain ⟨hc, hrest⟩ := List.forall_mem_cons.mp hgap
    rw [List.cons_append, chunks, if_pos hc, ih hrest]

theorem chunks_chunk {t gap : List Char} (text : List Char) (ht : Chunk t) (hne : gap ≠ [])
    (hgap : ∀ c ∈ gap, isspace c = true) : chunks (t ++ gap ++ text) = t :: chunks text := by
  have hall : ∀ c ∈ t, nonspace c = true := fun c hc => by simp [nonspace, ht.nonspace c hc]
  have hstop : (gap ++ text).takeWhile nonspace = [] ∧
      (gap ++ text).dropWhile nonspace = gap ++ text := by
    obtain ⟨g, gs, rfl⟩ := List.exists_cons_of_ne_nil hne
    have hg : nonspace g = false := by simp [nonspace, hgap g List.mem_cons_self]
    simp [hg]
  rw [List.append_assoc, chunks_settled (settled_chunk ht _) (by simp [ht.ne_nil]),
    List.takeWhile_append_of_pos hall, List.dropWhile_append_of_pos hall, hstop.1, hstop.2,
    List.append_nil, chunks_gap text hgap]

theorem chunks_rendered {ts : List (List Char)} {text : List Char} (h : Rendered ts text)
    (hts : ∀ t ∈ ts, Chunk t) : chunks text = ts := by
  induction h with
  | last t =>
    have hnl : ∀ c ∈ ['\n'], isspace c = true := by simp [isspace]
    have := chunks_chunk [] (hts t List.mem_cons_self) (by simp) hnl
    simpa [chunks] using this
  | cons t gap hne hgap _ ih =>
    obtain ⟨ht, hrest⟩ := List.forall_mem_cons.mp hts
    rw [chunks_chunk _ ht hne hgap, ih hrest]

theorem settled_rendered {ts : List (List Char)} {text : List Char} (h : Rendered ts text)
    (hts : ∀ t ∈ ts, Chunk t) : Settled text := by
  cases h with
  | last t => exact settled_chunk (hts t List.mem_cons_self) _
  | cons t gap _ _ _ =>
    rw [List.append_assoc]
    exact settled_chunk (hts t List.mem_cons_self) _

/-! ## The tokens of a pipeline -/

def RedirOp.tok : RedirOp → Tok
  | .input => .lt
  | .output => .gt
  | .append => .plus

theorem RedirOp.isRedir_tok (op : RedirOp) : isRedir op.tok = true := by
  cases op <;> rfl

theorem RedirOp.redirMode_tok (op : RedirOp) : redirMode op.tok = some (op.fd, op.mode) := by
  cases op <;> rfl

theorem RedirOp.kind_text (op : RedirOp) : kind op.text = op.tok := by
  cases op <;> rfl

theorem Word.chunk (w : Word) : Chunk w.text := ⟨w.ne_nil, w.nonspace⟩

theorem RedirOp.chunk (op : RedirOp) : Chunk op.text := by
  cases op <;> exact ⟨by decide, List.all_iff_forall_prop.mp (by decide)⟩

theorem Word.kind_text (w : Word) : kind w.text = .x := by
  obtain ⟨c, cs, hc⟩ := List.exists_cons_of_ne_nil w.ne_nil
  obtain ⟨h1, h2, h3⟩ := w.start c (by rw [hc]; rfl)
  simp [kind, hc, h1, h2, h3]

/-- The words of a command with their redirections' files. -/
def Command.texts (c : Command) : List (List Char) :=
  c.words.map Word.text ++ c.redirs.map fun r => r.2.text

def Command.shape (c : Command) : Shape := (c.words.length, c.redirs.map fun r => r.1.tok)

theorem Command.short (c : Command) : Short c.shape := by
  have := c.le_nine
  refine ⟨by simp only [Command.shape, MAXARGS]; omega, ?_⟩
  intro op hop
  obtain ⟨r, -, rfl⟩ := List.mem_map.mp hop
  exact r.1.isRedir_tok

theorem Command.chunk_tokens (c : Command) : ∀ t ∈ c.tokens, Chunk t := by
  intro t ht
  rcases List.mem_append.mp ht with ht | ht
  · obtain ⟨w, -, rfl⟩ := List.mem_map.mp ht
    exact w.chunk
  · obtain ⟨r, -, hr⟩ := List.mem_flatMap.mp ht
    simp only [List.mem_cons, List.not_mem_nil, or_false] at hr
    rcases hr with rfl | rfl
    · exact r.1.chunk
    · exact r.2.chunk

theorem Command.kinds_tokens (c : Command) : c.tokens.map kind = stageKinds c.shape := by
  have hwords : (c.words.map Word.text).map kind = List.replicate c.words.length .x := by
    rw [List.eq_replicate_iff]
    refine ⟨by simp, ?_⟩
    intro k hk
    obtain ⟨t, ht, rfl⟩ := List.mem_map.mp hk
    obtain ⟨w, -, rfl⟩ := List.mem_map.mp ht
    exact w.kind_text
  rw [Command.tokens, List.map_append, hwords, stageKinds, List.map_flatMap]
  simp [Command.shape, List.flatMap_map, RedirOp.kind_text, Word.kind_text]

theorem Command.words_tokens (c : Command) : c.tokens.filter (kind · = .x) = c.texts := by
  have hwords : (c.words.map Word.text).filter (kind · = .x) = c.words.map Word.text := by
    rw [List.filter_eq_self]
    intro t ht
    obtain ⟨w, -, rfl⟩ := List.mem_map.mp ht
    simp [w.kind_text]
  have hfiles : (c.redirs.flatMap fun r => [r.1.text, r.2.text]).filter (kind · = .x) =
      c.redirs.map fun r => r.2.text := by
    induction c.redirs with
    | nil => rfl
    | cons r rs ih =>
      have hop : r.1.tok ≠ .x := by
        cases r.1 <;> simp [RedirOp.tok]
      rw [List.flatMap_cons, List.filter_append, ih]
      simp [RedirOp.kind_text, Word.kind_text, hop]
  rw [Command.tokens, List.filter_append, hwords, hfiles, Command.texts]

theorem pipelineTokens_facts (c : Command) (cs : List Command) :
    (∀ t ∈ pipelineTokens c cs, Chunk t) ∧
      (pipelineTokens c cs).map kind = pipelineKinds c.shape (cs.map Command.shape) ∧
      (pipelineTokens c cs).filter (kind · = .x) = (c :: cs).flatMap Command.texts := by
  induction cs generalizing c with
  | nil => exact ⟨c.chunk_tokens, c.kinds_tokens, by simp [pipelineTokens, c.words_tokens]⟩
  | cons c' cs ih =>
    obtain ⟨h1, h2, h3⟩ := ih c'
    have hpipe : kind ['|'] = .pipe := rfl
    refine ⟨?_, ?_, ?_⟩
    · intro t ht
      rcases List.mem_append.mp ht with ht | ht
      · exact c.chunk_tokens t ht
      · rcases List.mem_cons.mp ht with rfl | ht
        · exact ⟨by decide, List.all_iff_forall_prop.mp (by decide)⟩
        · exact h1 t ht
    · simp [pipelineTokens, pipelineKinds, c.kinds_tokens, hpipe, h2]
    · rw [pipelineTokens, List.filter_append, c.words_tokens, List.filter_cons, hpipe, h3]
      simp

/-! ## The tree that the stages give -/

theorem Stage.tree_node {st : Stage} {c : Command} {f : Span → List Char}
    (hshape : st.shape = c.shape) (htext : st.spans.map f = c.texts) :
    st.node.tree f = c.tree := by
  obtain ⟨args, redirs⟩ := st
  obtain ⟨words, files, h1, h9⟩ := c
  simp only [Stage.shape, Command.shape, Prod.mk.injEq] at hshape
  simp only [Stage.spans, Command.texts, List.map_append] at htext
  obtain ⟨hlen, hops⟩ := hshape
  obtain ⟨hargs, hfiles⟩ := List.append_inj htext (by simpa using hlen)
  simp only [Stage.node, Command.tree]
  clear htext
  induction redirs generalizing files with
  | nil =>
    obtain rfl : files = [] := by simpa using hops.symm
    simp [Node.tree, hargs]
  | cons r rs ih =>
    cases files with
    | nil => simp at hops
    | cons q qs =>
      simp only [List.map_cons, List.cons.injEq] at hops hfiles
      have hmode := q.1.redirMode_tok
      rw [← hops.1] at hmode
      simp [wrap, hmode, Node.tree, hfiles.1, ih qs hops.2 hfiles.2]

theorem pipeline_tree {st : Stage} {sts : List Stage} {c : Command} {cs : List Command}
    {f : Span → List Char} (hst : st.shape = c.shape)
    (hsts : sts.map Stage.shape = cs.map Command.shape)
    (htext : ((st :: sts).flatMap Stage.spans).map f = (c :: cs).flatMap Command.texts) :
    (pipeline st sts).tree f = pipelineTree c cs := by
  have hlen : ∀ {q : Stage} {d : Command}, q.shape = d.shape →
      (q.spans.map f).length = d.texts.length := by
    intro q d h
    simp only [Stage.shape, Command.shape, Prod.mk.injEq] at h
    have := congrArg List.length h.2
    simp only [List.length_map] at this
    simp [Stage.spans, Command.texts, h.1, this]
  induction sts generalizing st c cs with
  | nil =>
    obtain rfl : cs = [] := by simpa using hsts.symm
    simp only [List.flatMap_cons, List.flatMap_nil, List.append_nil] at htext
    exact Stage.tree_node hst htext
  | cons st' sts ih =>
    cases cs with
    | nil => simp at hsts
    | cons c' cs =>
      simp only [List.map_cons, List.cons.injEq] at hsts
      rw [List.flatMap_cons, List.flatMap_cons, List.map_append] at htext
      obtain ⟨h1, h2⟩ := List.append_inj htext (hlen hst)
      rw [pipeline, Node.tree, Stage.tree_node hst h1, ih hsts.1 hsts.2 h2]
      rfl

/-! ## The strings after the NULs -/

/-- The places where `printTree` writes a NUL. -/
def Node.stops : Node → List Nat
  | .exec args => args.map Span.stop
  | .redir _ _ child file => file.stop :: child.stops
  | .pipe left right => left.stops ++ right.stops

theorem deref_terminate (buf : Buf) (p i : Nat) :
    deref (terminate buf p) i = if i = p then NUL else deref buf i := by
  simp only [deref, terminate, List.getD, List.getElem?_set]
  by_cases h : p = i
  · subst h
    simp only [if_true]
    split <;> rfl
  · simp [h, Ne.symm h]

theorem length_terminate (buf : Buf) (p : Nat) : (terminate buf p).length = buf.length :=
  List.length_set

theorem deref_nullTerminate (buf : Buf) (args : List Span) (i : Nat) :
    deref (parsExecNullTerminate buf args) i =
      if i ∈ args.map Span.stop then NUL else deref buf i := by
  unfold parsExecNullTerminate
  induction args generalizing buf with
  | nil => rfl
  | cons a args ih =>
    rw [List.foldl_cons, ih, deref_terminate]
    by_cases h1 : i ∈ args.map Span.stop <;> by_cases h2 : i = a.stop <;> simp [h1, h2]

theorem deref_printTree (buf : Buf) (n : Node) (i : Nat) :
    deref (printTree buf n).1 i = if i ∈ n.stops then NUL else deref buf i := by
  induction n generalizing buf with
  | exec args => exact deref_nullTerminate buf args i
  | redir fd mode child file ih =>
    rw [printTree, ih, deref_terminate, Node.stops]
    by_cases h1 : i ∈ child.stops <;> by_cases h2 : i = file.stop <;> simp [h1, h2]
  | pipe left right ihl ihr =>
    rw [printTree, ihr, ihl, Node.stops]
    by_cases h1 : i ∈ left.stops <;> by_cases h2 : i ∈ right.stops <;> simp [h1, h2]

theorem length_printTree (buf : Buf) (n : Node) : (printTree buf n).1.length = buf.length := by
  induction n generalizing buf with
  | exec args =>
    simp only [printTree, parsExecNullTerminate]
    induction args generalizing buf with
    | nil => rfl
    | cons a args ih => rw [List.foldl_cons, ih, length_terminate]
  | redir fd mode child file ih => rw [printTree, ih, length_terminate]
  | pipe left right ihl ihr => rw [printTree, ihr, ihl]

theorem mem_stops_node {st : Stage} (h : Short st.shape) (i : Nat) :
    i ∈ st.node.stops ↔ ∃ w ∈ st.spans, w.stop = i := by
  have hstops : st.node.stops = st.node.files.map Span.stop ++ st.node.args.map Span.stop := by
    unfold Stage.node
    induction st.redirs with
    | nil => rfl
    | cons r rs ih =>
      rw [List.foldr_cons, wrap]
      split
      · simp [Node.stops, Node.files, Node.args, ih]
      · exact ih
  rw [hstops, node_args, node_files h, Stage.spans]
  simp only [List.mem_append, List.mem_map, or_and_right, exists_or]
  exact or_comm

theorem mem_stops_pipeline {st : Stage} {sts : List Stage} (h : ∀ q ∈ st :: sts, Short q.shape)
    (i : Nat) :
    i ∈ (pipeline st sts).stops ↔ ∃ w ∈ (st :: sts).flatMap Stage.spans, w.stop = i := by
  induction sts generalizing st with
  | nil => simpa [pipeline] using mem_stops_node (h st List.mem_cons_self) i
  | cons st' sts ih =>
    rw [pipeline, Node.stops, List.mem_append, mem_stops_node (h st List.mem_cons_self),
      ih fun q hq => h q (List.mem_cons_of_mem _ hq)]
    simp only [List.flatMap_cons, List.mem_append, or_and_right, exists_or]

theorem cstring_eq {buf : Buf} {s e : Nat} (hs : s ≤ e) (he : e < buf.length)
    (hword : ∀ i, s ≤ i → i < e → deref buf i ≠ NUL) (hnul : deref buf e = NUL) :
    cstring buf s = slice buf s e := by
  have hsplit : buf.drop s = slice buf s e ++ buf.drop e := by
    have := List.take_append_drop e buf
    conv_lhs => rw [← this]
    rw [List.drop_append_of_le_length (by simp; omega)]
    rfl
  have hmem : ∀ c ∈ slice buf s e, (decide (c ≠ NUL)) = true := by
    intro c hc
    obtain ⟨k, hk, rfl⟩ := List.mem_iff_getElem.mp hc
    simp only [slice, List.length_drop, List.length_take] at hk
    have := hword (s + k) (by omega) (by omega)
    simpa [slice, deref, List.getD, List.getElem?_eq_getElem (show s + k < buf.length by omega)]
      using this
  have hstop : (buf.drop e).takeWhile (· ≠ NUL) = [] := by
    rw [List.drop_eq_getElem_cons he]
    have : buf[e] = NUL := by
      simpa [deref, List.getD, List.getElem?_eq_getElem he] using hnul
    simp [this]
  rw [cstring, hsplit, List.takeWhile_append_of_pos hmem, hstop, List.append_nil]

/-- The tokens stand one behind the other, with a place for a NUL between them. -/
theorem scan_apart {buf : Buf} {s e : Nat} (he : e ≤ buf.length) :
    (scan buf s e).Pairwise (fun a b => a.2.stop < b.2.start) ∧
      ∀ t ∈ scan buf s e, s ≤ t.2.start ∧ t.2.start < e ∧ t.2.start ≤ t.2.stop ∧ t.2.stop ≤ e := by
  fun_induction scan buf s e with
  | case1 s hlt ih =>
    obtain ⟨hpair, hbound⟩ := ih
    have ht := gettoken_taken hlt he
    have hle := gettoken_le buf s e
    have hgap := ht.gap
    have hstart := ht.start
    have hstop := ht.stop_le
    refine ⟨List.pairwise_cons.mpr ⟨?_, hpair⟩, List.forall_mem_cons.mpr ⟨?_, ?_⟩⟩
    · intro b hb
      have := hbound b hb
      simp only
      omega
    · simp only
      omega
    · intro b hb
      have := hbound b hb
      omega
  | case2 => simp

theorem words_apart {buf : Buf} {s e : Nat} (he : e ≤ buf.length) :
    (words (scan buf s e)).Pairwise (fun a b => a.stop < b.start) ∧
      ∀ w ∈ words (scan buf s e), w.start ≤ w.stop ∧ w.stop ≤ e := by
  obtain ⟨hpair, hbound⟩ := @scan_apart buf s e he
  refine ⟨?_, ?_⟩
  · rw [words, List.pairwise_map]
    exact hpair.sublist List.filter_sublist
  · intro w hw
    obtain ⟨t, ht, rfl⟩ := List.mem_map.mp hw
    have := hbound t (List.mem_of_mem_filter ht)
    omega

theorem deref_mem_slice {buf : Buf} {s e i : Nat} (hs : s ≤ i) (hi : i < e) (he : e ≤ buf.length) :
    deref buf i ∈ slice buf s e := by
  have hlt : i < buf.length := by omega
  rw [List.mem_iff_getElem?]
  refine ⟨i - s, ?_⟩
  have hsum : s + (i - s) = i := by omega
  simp [slice, List.getElem?_drop, hsum, hi, deref, List.getD,
    List.getElem?_eq_getElem hlt]

/-- A word without a NUL is a C string once NULs stand behind every word. -/
theorem cstring_word {buf buf' : Buf} {ws : List Span} {w : Span} (hlen : buf'.length = buf.length)
    (hpair : ws.Pairwise fun a b => a.stop < b.start) (hw : w ∈ ws)
    (hbound : ∀ a ∈ ws, a.start ≤ a.stop ∧ a.stop < buf.length)
    (hnul : ∀ c ∈ w.text buf, c ≠ NUL)
    (hbuf : ∀ i, deref buf' i = if ∃ a ∈ ws, a.stop = i then NUL else deref buf i) :
    cstring buf' w.start = w.text buf := by
  have hkeep : ∀ i, w.start ≤ i → i < w.stop → deref buf' i = deref buf i := by
    intro i h1 h2
    rw [hbuf, if_neg]
    rintro ⟨a, ha, rfl⟩
    have hab := hbound a ha
    have hwb := hbound w hw
    -- another word ends before this one starts, or starts after it ends
    rcases List.Pairwise.forall_of_forall_of_flip (R := fun a b =>
      a = b ∨ a.stop < b.start ∨ b.stop < a.start) (fun x _ => Or.inl rfl)
      (hpair.imp fun h => Or.inr (Or.inl h)) (hpair.imp fun h => Or.inr (Or.inr h)) ha hw with
      rfl | h | h <;> omega
  have hwb := hbound w hw
  have hword : slice buf' w.start w.stop = slice buf w.start w.stop := by
    apply List.ext_getElem?
    intro k
    simp only [slice, List.getElem?_drop, List.getElem?_take]
    split
    · have := hkeep (w.start + k) (by omega) (by omega)
      have h1 : w.start + k < buf.length := by omega
      have h2 : w.start + k < buf'.length := by omega
      simpa [deref, List.getD, List.getElem?_eq_getElem h1, List.getElem?_eq_getElem h2] using this
    · rfl
  rw [Span.text, ← hword]
  apply cstring_eq hwb.1 (by omega)
  · intro i h1 h2
    rw [hkeep i h1 h2]
    exact hnul _ (deref_mem_slice h1 h2 (by omega))
  · rw [hbuf, if_pos ⟨w, hw, rfl⟩]

theorem Command.noNul_texts {cs : List Command} {t : List Char}
    (h : t ∈ cs.flatMap Command.texts) : ∀ c ∈ t, c ≠ NUL := by
  obtain ⟨c, -, ht⟩ := List.mem_flatMap.mp h
  rcases List.mem_append.mp ht with ht | ht
  · obtain ⟨w, -, rfl⟩ := List.mem_map.mp ht
    exact w.noNul
  · obtain ⟨r, -, rfl⟩ := List.mem_map.mp ht
    exact r.2.noNul

/-- A pipeline that is written as a line comes back from the parser, and its
strings from the line after `printTree`. -/
theorem a_written_pipeline_is_read_back (c : Command) (cs : List Command) (line : List Char)
    (h : Rendered (pipelineTokens c cs) line) :
    ∃ n, parsePipe (getline line) 0 line.length = .ok (n, line.length) ∧
      n.read (printTree (getline line) n).1 = pipelineTree c cs := by
  obtain ⟨hchunk, hkinds, htexts⟩ := pipelineTokens_facts c cs
  have hchunks := chunks_rendered h hchunk
  have hc : Cursor (getline line) 0 line.length := by
    refine ⟨Nat.zero_le _, le_getline line, ?_⟩
    rw [slice_getline]
    exact settled_rendered h hchunk
  obtain ⟨hscan, hwords⟩ := scan_line hc
  rw [slice_getline, hchunks] at hscan hwords
  rw [hkinds] at hscan
  have hall : ∀ b ∈ c.shape :: cs.map Command.shape, Short b := by
    rw [← List.map_cons]
    intro b hb
    obtain ⟨d, -, rfl⟩ := List.mem_map.mp hb
    exact d.short
  obtain ⟨st, sts, hp, hst, hsts⟩ := takePipeline_kinds hscan hall
  obtain ⟨-, hspans, hshort⟩ := takePipeline_ok hp
  rw [words_nil, List.append_nil] at hspans
  have hsees := sees_parsePipe hc.bound (sees_parsArgs [] hc)
  rw [hp] at hsees
  obtain ⟨s, hs, hc', hnil⟩ := hsees
  obtain rfl := length_of_scan_nil hc' hnil
  refine ⟨pipeline st sts, hs, pipeline_tree hst hsts ?_⟩
  obtain ⟨hpair, hbound⟩ := @words_apart (getline line) 0 line.length hc.bound
  have hlen : line.length < (getline line).length := by simp [getline]
  rw [htexts] at hwords
  rw [← hspans, ← hwords]
  apply List.map_congr_left
  intro w hw
  refine cstring_word (length_printTree _ _) hpair hw ?_ ?_ ?_
  · intro a ha
    have := hbound a ha
    omega
  · have hmem : w.text (getline line) ∈ (c :: cs).flatMap Command.texts := by
      rw [← hwords]
      exact List.mem_map_of_mem hw
    exact Command.noNul_texts hmem
  · intro i
    rw [deref_printTree]
    simp only [mem_stops_pipeline hshort, hspans]

/-- `cat >> f`. -/
def catCommand : Command where
  words := [⟨"cat".toList, by decide, List.all_iff_forall_prop.mp (by decide),
    List.all_iff_forall_prop.mp (by decide), by simp⟩]
  redirs := [(.append, ⟨"f".toList, by decide, List.all_iff_forall_prop.mp (by decide),
    List.all_iff_forall_prop.mp (by decide), by simp⟩)]
  one_le := by decide
  le_nine := by decide

/-- `wc -l`. -/
def wcCommand : Command where
  words := [⟨"wc".toList, by decide, List.all_iff_forall_prop.mp (by decide),
      List.all_iff_forall_prop.mp (by decide), by simp⟩,
    ⟨"-l".toList, by decide, List.all_iff_forall_prop.mp (by decide),
      List.all_iff_forall_prop.mp (by decide), by simp⟩]
  redirs := []
  one_le := by decide
  le_nine := by decide

theorem a_pipeline_of_two_is_read_back :
    ∃ n, parsePipe (getline "cat >> f |  wc -l\n".toList) 0 18 = .ok (n, 18) ∧
      n.read (printTree (getline "cat >> f |  wc -l\n".toList) n).1 =
        .pipe (.redir 1 1089 (.exec ["cat".toList]) "f".toList)
          (.exec ["wc".toList, "-l".toList]) := by
  have hgap : ∀ c ∈ " ".toList, isspace c = true := List.all_iff_forall_prop.mp (by decide)
  have hgap' : ∀ c ∈ "  ".toList, isspace c = true := List.all_iff_forall_prop.mp (by decide)
  have hline : Rendered (pipelineTokens catCommand [wcCommand]) "cat >> f |  wc -l\n".toList :=
    .cons "cat".toList " ".toList (by decide) hgap
      (.cons ">>".toList " ".toList (by decide) hgap
        (.cons "f".toList " ".toList (by decide) hgap
          (.cons "|".toList "  ".toList (by decide) hgap'
            (.cons "wc".toList " ".toList (by decide) hgap (.last "-l".toList)))))
  exact a_written_pipeline_is_read_back catCommand [wcCommand] _ hline

end mysh
