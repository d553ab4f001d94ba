-- Which lines the parser takes without losing text. The tokens of the
-- documented scanner are compared with what stands in the tree.
import Mathlib.Algebra.GroupWithZero.Nat
import SysNet.Mysh.Stages

namespace mysh

/-! ## The tokens of a line -/

/-- A character that can stand in a word. -/
def plain (c : Char) : Bool := nonspace c && c ≠ '|' && c ≠ '<' && c ≠ '>'

/-- A token of the documented scanner. -/
inductive Lexeme
  | pipe
  | redir (op : Tok)
  | word (w : List Char)
deriving DecidableEq, Repr

/-- The tokens of a text: the operators, and the longest runs of other
characters that are not white space. -/
def lex : List Char → List Lexeme
  | [] => []
  | c :: cs =>
    if isspace c then lex cs
    else if c = '|' then .pipe :: lex cs
    else if c = '<' then .redir .lt :: lex cs
    else if c = '>' then
      if cs.head? = some '>' then .redir .plus :: lex cs.tail else .redir .gt :: lex cs
    else .word (c :: cs.takeWhile plain) :: lex (cs.dropWhile plain)
termination_by l => l.length
decreasing_by
  all_goals simp only [List.length_cons, List.length_tail]
  all_goals first
    | omega
    | have := (List.dropWhile_suffix plain : cs.dropWhile plain <:+ cs).length_le
      omega

def Lexeme.isPipe : Lexeme → Bool
  | .pipe => true
  | _ => false

def Lexeme.isRedir : Lexeme → Bool
  | .redir _ => true
  | _ => false

def Lexeme.text? : Lexeme → Option (List Char)
  | .word w => some w
  | _ => none

/-! ## What stands in a tree -/

/-- The characters of a word in the line. -/
def Span.text (buf : Buf) (w : Span) : List Char := slice buf w.start w.stop

/-- The words of the command under the redirections. -/
def Node.args : Node → List Span
  | .exec args => args
  | .redir _ _ child _ => child.args
  | .pipe _ _ => []

/-- The files of the redirections, the outermost first. -/
def Node.files : Node → List Span
  | .redir _ _ child file => file :: child.files
  | _ => []

/-- The words of a tree in the order the parser took them. -/
def Node.words : Node → List Span
  | .pipe left right => left.words ++ right.words
  | n => n.args ++ n.files

def Node.pipes : Node → Nat
  | .exec _ => 0
  | .redir _ _ child _ => child.pipes
  | .pipe left right => left.pipes + right.pipes + 1

def Node.redirs : Node → Nat
  | .exec _ => 0
  | .redir _ _ child _ => child.redirs + 1
  | .pipe left right => left.redirs + right.redirs

/-- The arguments of the `EXEC` leaves. -/
def Node.leaves : Node → List (List Span)
  | .exec args => [args]
  | .redir _ _ child _ => child.leaves
  | .pipe left right => left.leaves ++ right.leaves

/-- A tree holds the whole line, or the line is rejected. -/
def KeepsTheLine (line : List Char) : Except Stop (Node × Nat) → Prop
  | .ok (n, s) =>
    s = line.length ∧ n.words.map (Span.text (getline line)) = (lex line).filterMap Lexeme.text? ∧
      n.pipes = (lex line).countP Lexeme.isPipe ∧ n.redirs = (lex line).countP Lexeme.isRedir ∧
      ∀ args ∈ n.leaves, args ≠ []
  | .error (.exit _) => True
  | .error .overrun => False

/-! ## The tree of a list of stages -/

section
variable {st : Stage} {sts : List Stage}

theorem node_args (st : Stage) : st.node.args = st.args := by
  unfold Stage.node
  induction st.redirs with
  | nil => rfl
  | cons r rs ih =>
    rw [List.foldr_cons, wrap]
    split
    · exact ih
    · exact ih

theorem node_files (h : Short st.shape) : st.node.files = st.redirs.map Prod.snd := by
  obtain ⟨args, redirs⟩ := st
  have hops : ∀ r ∈ redirs, isRedir r.1 = true := by
    intro r hr
    exact h.ops r.1 (List.mem_map_of_mem hr)
  clear h
  unfold Stage.node
  induction redirs with
  | nil => rfl
  | cons r rs ih =>
    obtain ⟨hr, hrs⟩ := List.forall_mem_cons.mp hops
    obtain ⟨m, hm⟩ := Option.isSome_iff_exists.mp ((redirMode_isSome r.1).trans hr)
    simpa [wrap, hm, Node.files] using ih hrs

/-- A stage is a chain of `REDIR` nodes over an `EXEC` node. -/
theorem node_cases (st : Stage) :
    (∃ args, st.node = .exec args) ∨ ∃ fd mode child file, st.node = .redir fd mode child file := by
  unfold Stage.node
  induction st.redirs with
  | nil => exact Or.inl ⟨_, rfl⟩
  | cons r rs ih =>
    rw [List.foldr_cons, wrap]
    split
    · exact Or.inr ⟨_, _, _, _, rfl⟩
    · exact ih

theorem node_words (h : Short st.shape) : st.node.words = st.spans := by
  have hw : st.node.words = st.node.args ++ st.node.files := by
    rcases node_cases st with ⟨args, hn⟩ | ⟨fd, mode, child, file, hn⟩ <;> rw [hn] <;> rfl
  rw [hw, node_args, node_files h, Stage.spans]

theorem node_pipes (st : Stage) : st.node.pipes = 0 := by
  unfold Stage.node
  induction st.redirs with
  | nil => rfl
  | cons r rs ih =>
    rw [List.foldr_cons, wrap]
    split
    · exact ih
    · exact ih

theorem node_redirs (h : Short st.shape) : st.node.redirs = st.redirs.length := by
  obtain ⟨args, redirs⟩ := st
  have hops : ∀ r ∈ redirs, isRedir r.1 = true := by
    intro r hr
    exact h.ops r.1 (List.mem_map_of_mem hr)
  clear h
  unfold Stage.node
  induction redirs with
  | nil => rfl
  | cons r rs ih =>
    obtain ⟨hr, hrs⟩ := List.forall_mem_cons.mp hops
    obtain ⟨m, hm⟩ := Option.isSome_iff_exists.mp ((redirMode_isSome r.1).trans hr)
    simpa [wrap, hm, Node.redirs] using ih hrs

theorem node_leaves (st : Stage) : st.node.leaves = [st.args] := by
  unfold Stage.node
  induction st.redirs with
  | nil => rfl
  | cons r rs ih =>
    rw [List.foldr_cons, wrap]
    split
    · exact ih
    · exact ih

theorem pipeline_words (h : ∀ q ∈ st :: sts, Short q.shape) :
    (pipeline st sts).words = (st :: sts).flatMap Stage.spans := by
  induction sts generalizing st with
  | nil => simp [pipeline, node_words (h st List.mem_cons_self)]
  | cons st' sts ih =>
    rw [pipeline, Node.words, node_words (h st List.mem_cons_self),
      ih fun q hq => h q (List.mem_cons_of_mem _ hq)]
    rfl

theorem pipeline_pipes (st : Stage) (sts : List Stage) : (pipeline st sts).pipes = sts.length := by
  induction sts generalizing st with
  | nil => exact node_pipes st
  | cons st' sts ih => simp [pipeline, Node.pipes, node_pipes, ih]

theorem pipeline_redirs (h : ∀ q ∈ st :: sts, Short q.shape) :
    (pipeline st sts).redirs = ((st :: sts).map fun q => q.redirs.length).sum := by
  induction sts generalizing st with
  | nil => simp [pipeline, node_redirs (h st List.mem_cons_self)]
  | cons st' sts ih =>
    rw [pipeline, Node.redirs, node_redirs (h st List.mem_cons_self),
      ih fun q hq => h q (List.mem_cons_of_mem _ hq)]
    rfl

theorem pipeline_leaves (st : Stage) (sts : List Stage) :
    (pipeline st sts).leaves = (st :: sts).map Stage.args := by
  induction sts generalizing st with
  | nil => exact node_leaves st
  | cons st' sts ih => simp [pipeline, Node.leaves, node_leaves, ih]

end

/-! ## Counting tokens -/

theorem redirKinds_counts {ops : List Tok} (h : ∀ op ∈ ops, isRedir op = true) :
    (ops.flatMap fun op => [op, Tok.x]).countP (· = .pipe) = 0 ∧
      (ops.flatMap fun op => [op, Tok.x]).countP isRedir = ops.length := by
  induction ops with
  | nil => exact ⟨rfl, rfl⟩
  | cons op ops ih =>
    obtain ⟨hop, hall⟩ := List.forall_mem_cons.mp h
    obtain ⟨h1, h2⟩ := ih hall
    have hne : op ≠ .pipe := by
      rintro rfl
      simp [isRedir] at hop
    have hx : isRedir .x = false := rfl
    rw [List.flatMap_cons, List.countP_append, List.countP_append, h1, h2]
    simp [hne, hop, hx, Nat.add_comm]

theorem stageKinds_counts (a : Shape) (h : Short a) :
    (stageKinds a).countP (· = .pipe) = 0 ∧ (stageKinds a).countP isRedir = a.2.length := by
  obtain ⟨h1, h2⟩ := redirKinds_counts h.ops
  rw [stageKinds, List.countP_append, List.countP_append, h1, h2]
  simp [List.countP_replicate, isRedir]

theorem pipelineKinds_counts {a : Shape} {as : List Shape} (h : ∀ b ∈ a :: as, Short b) :
    (pipelineKinds a as).countP (· = .pipe) = as.length ∧
      (pipelineKinds a as).countP isRedir = ((a :: as).map fun b => b.2.length).sum := by
  induction as generalizing a with
  | nil => simpa [pipelineKinds] using stageKinds_counts a (h a List.mem_cons_self)
  | cons b as ih =>
    obtain ⟨h1, h2⟩ := stageKinds_counts a (h a List.mem_cons_self)
    obtain ⟨h3, h4⟩ := ih fun q hq => h q (List.mem_cons_of_mem _ hq)
    have hp : isRedir .pipe = false := rfl
    simp only [pipelineKinds, List.countP_append, List.countP_cons, h1, h2, h3, h4, decide_true,
      if_true, hp, Bool.false_eq_true, if_false, List.map_cons, List.sum_cons, List.length_cons]
    omega

/-! ## The tokens of one run -/

theorem not_plain_of_isspace {c : Char} (h : isspace c = true) : plain c = false := by
  simp [plain, nonspace, h]

/-- White space ends a token. -/
theorem lex_append (w : List Char) {rest : List Char} (h : ∀ c ∈ rest.head?, isspace c = true) :
    lex (w ++ rest) = lex w ++ lex rest := by
  have hplain : rest.takeWhile plain = [] ∧ rest.dropWhile plain = rest := by
    cases rest with
    | nil => exact ⟨rfl, rfl⟩
    | cons c rest => simp [not_plain_of_isspace (h c rfl)]
  fun_induction lex w with
  | case1 => rfl
  | case2 c cs hc ih => simp [lex, hc, ih]
  | case3 cs hc ih => simp [lex, hc, ih]
  | case4 cs hc hp ih => simp [lex, hc, ih]
  | case5 cs hmore hc hp hl ih =>
    obtain ⟨d, ds, rfl⟩ : ∃ d ds, cs = d :: ds := by
      cases cs with
      | nil => simp at hmore
      | cons d ds => exact ⟨d, ds, rfl⟩
    simp only [List.head?_cons, Option.some.injEq] at hmore
    simp only [List.tail_cons] at ih
    rw [List.cons_append, lex]
    simp [hc, hmore, ih]
  | case6 cs hmore hc hp hl ih =>
    have hne : ¬ (cs ++ rest).head? = some '>' := by
      cases cs with
      | nil =>
        intro heq
        have := h '>' heq
        simp [isspace] at this
      | cons d ds => simpa using hmore
    rw [List.cons_append, lex]
    simp only [hc, hne, ih, hp, hl, if_true, if_false, Bool.false_eq_true]
    rfl
  | case7 c cs hc hp hl hg ih =>
    rw [List.cons_append, lex]
    simp only [hc, hp, hl, hg, if_false, Bool.false_eq_true]
    rw [List.takeWhile_append, List.dropWhile_append]
    split
    · rename_i hall
      have hcs : cs.takeWhile plain = cs :=
        (List.takeWhile_prefix plain).eq_of_length hall
      have hdrop : cs.dropWhile plain = [] := by
        have := List.takeWhile_append_dropWhile (p := plain) (l := cs)
        rw [hcs] at this
        simpa using this
      simp [hdrop, hcs, hplain, lex]
    · rename_i hall
      have hdrop : cs.dropWhile plain ≠ [] := by
        intro hnil
        have := List.takeWhile_append_dropWhile (p := plain) (l := cs)
        rw [hnil, List.append_nil] at this
        exact hall (congrArg List.length this)
      simp [hdrop, ih]

theorem lex_chunks (l : List Char) : lex l = (chunks l).flatMap lex := by
  fun_induction chunks l with
  | case1 => simp [lex]
  | case2 c cs hc ih => simp [lex, hc, ih]
  | case3 c cs hc ih =>
    have hn : nonspace c = true := by simpa [nonspace] using hc
    have hsplit : c :: cs = (c :: cs.takeWhile nonspace) ++ cs.dropWhile nonspace := by
      simp [List.takeWhile_append_dropWhile]
    rw [List.flatMap_cons, ← ih]
    conv_lhs => rw [hsplit]
    apply lex_append
    intro d hd
    have := List.head?_dropWhile_not nonspace cs
    rw [Option.mem_def.mp hd] at this
    simpa [nonspace] using this

theorem chunks_nonspace {l w : List Char} (h : w ∈ chunks l) :
    w ≠ [] ∧ ∀ c ∈ w, isspace c = false := by
  fun_induction chunks l with
  | case1 => cases h
  | case2 c cs hc ih => exact ih h
  | case3 c cs hc ih =>
    rcases List.mem_cons.mp h with rfl | h
    · refine ⟨List.cons_ne_nil _ _, ?_⟩
      intro d hd
      rcases List.mem_cons.mp hd with rfl | hd
      · simpa using hc
      · have := List.mem_takeWhile_imp hd
        simpa [nonspace] using this
    · exact ih h

/-- One operator, or no operator character at all. -/
def Clean (w : List Char) : Prop :=
  w = ['|'] ∨ w = ['<'] ∨ w = ['>'] ∨ w = ['>', '>'] ∨ ∀ c ∈ w, plain c = true

/-- The token that a run is. -/
def lexemeOf (w : List Char) : Lexeme :=
  match kind w with
  | .pipe => .pipe
  | .x => .word w
  | op => .redir op

theorem lex_eq_nil {w : List Char} (hw : ∀ c ∈ w, isspace c = false) (h : lex w = []) : w = [] := by
  cases w with
  | nil => rfl
  | cons c cs =>
    have hc : isspace c = false := hw c List.mem_cons_self
    rw [lex] at h
    simp only [hc, Bool.false_eq_true, if_false] at h
    repeat' split at h
    all_goals cases h

theorem clean_of_lex {w : List Char} (hne : w ≠ []) (hw : ∀ c ∈ w, isspace c = false)
    (h : (lex w).length = 1) : Clean w := by
  obtain ⟨c, cs, rfl⟩ := List.exists_cons_of_ne_nil hne
  obtain ⟨hc, hcs⟩ := List.forall_mem_cons.mp hw
  rw [lex] at h
  simp only [hc, Bool.false_eq_true, if_false] at h
  split at h
  · rename_i hp
    obtain rfl := lex_eq_nil hcs (by simpa using h)
    exact Or.inl (by rw [hp])
  · split at h
    · rename_i hp
      obtain rfl := lex_eq_nil hcs (by simpa using h)
      exact Or.inr (Or.inl (by rw [hp]))
    · split at h
      · rename_i hp
        split at h
        · rename_i hmore
          obtain ⟨d, ds, rfl⟩ : ∃ d ds, cs = d :: ds := by
            cases cs with
            | nil => simp at hmore
            | cons d ds => exact ⟨d, ds, rfl⟩
          obtain rfl := lex_eq_nil (List.forall_mem_cons.mp hcs).2 (by simpa using h)
          simp only [List.head?_cons, Option.some.injEq] at hmore
          exact Or.inr (Or.inr (Or.inr (Or.inl (by rw [hp, hmore]))))
        · obtain rfl := lex_eq_nil hcs (by simpa using h)
          exact Or.inr (Or.inr (Or.inl (by rw [hp])))
      · rename_i h1 h2 h3
        have hdrop : cs.dropWhile plain = [] := by
          apply lex_eq_nil _ (by simpa using h)
          intro d hd
          exact hcs d ((List.dropWhile_suffix plain).subset hd)
        refine Or.inr (Or.inr (Or.inr (Or.inr ?_)))
        intro d hd
        rcases List.mem_cons.mp hd with rfl | hd
        · simp [plain, nonspace, hc, h1, h2, h3]
        · have hall := List.takeWhile_append_dropWhile (p := plain) (l := cs)
          rw [hdrop, List.append_nil] at hall
          rw [← hall] at hd
          exact List.mem_takeWhile_imp hd

theorem lex_of_clean {w : List Char} (hne : w ≠ []) (h : Clean w) : lex w = [lexemeOf w] := by
  rcases h with rfl | rfl | rfl | rfl | hall
  · simp [lex, isspace, lexemeOf, kind]
  · simp [lex, isspace, lexemeOf, kind]
  · simp [lex, isspace, lexemeOf, kind]
  · simp [lex, isspace, lexemeOf, kind]
  · obtain ⟨c, cs, rfl⟩ := List.exists_cons_of_ne_nil hne
    obtain ⟨hc, hcs⟩ := List.forall_mem_cons.mp hall
    simp only [plain, nonspace, Bool.and_eq_true, Bool.not_eq_true', decide_eq_true_eq] at hc
    obtain ⟨⟨⟨hsp, h1⟩, h2⟩, h3⟩ := hc
    have htake : cs.takeWhile plain = cs := List.takeWhile_eq_self_iff.mpr hcs
    have hdrop : cs.dropWhile plain = [] := List.dropWhile_eq_nil_iff.mpr hcs
    rw [lex]
    simp [hsp, h1, h2, h3, htake, hdrop, lex, lexemeOf, kind]

/-! ## The tokens and the runs of a line -/

/-- The classes of the runs of a line. -/
def kinds (line : List Char) : List Tok := (chunks line).map kind

theorem kind_ne_eol (w : List Char) : kind w ≠ .eol := by
  unfold kind
  repeat' split
  all_goals decide

theorem kind_counts (ks : List Tok) (h : ∀ k ∈ ks, k ≠ .eol) :
    ks.countP (· = .x) + ks.countP (· = .pipe) + ks.countP isRedir = ks.length := by
  induction ks with
  | nil => rfl
  | cons k ks ih =>
    obtain ⟨hk, hks⟩ := List.forall_mem_cons.mp h
    have := ih hks
    simp only [List.countP_cons, List.length_cons]
    cases k <;> simp [isRedir] at hk ⊢ <;> omega

theorem lexeme_counts (ls : List Lexeme) :
    (ls.filterMap Lexeme.text?).length + ls.countP Lexeme.isPipe + ls.countP Lexeme.isRedir =
      ls.length := by
  induction ls with
  | nil => rfl
  | cons l ls ih =>
    cases l <;>
      simp only [List.filterMap_cons, List.countP_cons, List.length_cons, Lexeme.text?,
        Lexeme.isPipe, Lexeme.isRedir, Bool.false_eq_true, if_true, if_false] <;>
      omega

/-- Every run holds a token. When there are no more tokens than runs, each
run is one token. -/
theorem clean_of_count {ws : List (List Char)} (hws : ∀ w ∈ ws, w ≠ [] ∧ ∀ c ∈ w, isspace c = false)
    (h : (ws.flatMap lex).length ≤ ws.length) : ∀ w ∈ ws, Clean w := by
  have hone : ∀ w, w ≠ [] → (∀ c ∈ w, isspace c = false) → 1 ≤ (lex w).length := by
    intro w hne hw
    rcases hl : lex w with _ | ⟨l, ls⟩
    · exact absurd (lex_eq_nil hw hl) hne
    · simp
  have hmin : ∀ vs : List (List Char), (∀ w ∈ vs, w ≠ [] ∧ ∀ c ∈ w, isspace c = false) →
      vs.length ≤ (vs.flatMap lex).length := by
    intro vs hvs
    induction vs with
    | nil => exact Nat.le_refl _
    | cons v vs ih =>
      obtain ⟨hv, hrest⟩ := List.forall_mem_cons.mp hvs
      have h1 := hone v hv.1 hv.2
      have h2 := ih hrest
      rw [List.flatMap_cons, List.length_append, List.length_cons]
      omega
  induction ws with
  | nil => simp
  | cons w ws ih =>
    obtain ⟨hw, hrest⟩ := List.forall_mem_cons.mp hws
    have h1 := hone w hw.1 hw.2
    have h2 := hmin ws hrest
    rw [List.flatMap_cons, List.length_append, List.length_cons] at h
    exact List.forall_mem_cons.mpr
      ⟨clean_of_lex hw.1 hw.2 (by omega), ih hrest (by omega)⟩

theorem lex_of_all_clean {line : List Char} (h : ∀ w ∈ chunks line, Clean w) :
    lex line = (chunks line).map lexemeOf := by
  have hall : ∀ w ∈ chunks line, lex w = [lexemeOf w] := fun w hw =>
    lex_of_clean (chunks_nonspace hw).1 (h w hw)
  rw [lex_chunks, List.flatMap_congr hall]
  exact List.map_eq_flatMap.symm

theorem lexemeOf_counts (ws : List (List Char)) :
    (ws.map lexemeOf).filterMap Lexeme.text? = ws.filter (kind · = .x) ∧
      (ws.map lexemeOf).countP Lexeme.isPipe = (ws.map kind).countP (· = .pipe) ∧
      (ws.map lexemeOf).countP Lexeme.isRedir = (ws.map kind).countP isRedir := by
  induction ws with
  | nil => exact ⟨rfl, rfl, rfl⟩
  | cons w ws ih =>
    obtain ⟨h1, h2, h3⟩ := ih
    have hne := kind_ne_eol w
    rw [List.map_cons, List.map_cons, List.filterMap_cons, List.filter_cons, List.countP_cons,
      List.countP_cons, List.countP_cons, List.countP_cons, h1, h2, h3]
    cases hk : kind w <;>
      simp [lexemeOf, hk, Lexeme.text?, Lexeme.isPipe, Lexeme.isRedir, isRedir] at hne ⊢

/-- The tokens of the scan, as runs of the line. -/
theorem scan_line {buf : Buf} {s e : Nat} (h : Cursor buf s e) :
    (scan buf s e).map Prod.fst = (chunks (slice buf s e)).map kind ∧
      (words (scan buf s e)).map (Span.text buf) =
        (chunks (slice buf s e)).filter (kind · = .x) := by
  have htok := @scan_tok buf s e h.bound
  rw [← scan_chunks h]
  refine ⟨?_, ?_⟩
  · rw [List.map_map]
    exact List.map_congr_left htok
  · generalize scan buf s e = ts at htok
    induction ts with
    | nil => rfl
    | cons t ts ih =>
      obtain ⟨ht, hts⟩ := List.forall_mem_cons.mp htok
      rw [words_cons, List.map_cons, List.filter_cons, ← ht]
      split <;> simp_all [Span.text]

/-- What stands in the tree of a line that was read to its end. -/
theorem tree_of_line {buf : Buf} {s e : Nat} {st : Stage} {sts : List Stage} (h : Cursor buf s e)
    (hp : takePipeline (scan buf s e) = .ok ((st, sts), [])) :
    (pipeline st sts).words.map (Span.text buf) =
        (chunks (slice buf s e)).filter (kind · = .x) ∧
      (pipeline st sts).pipes = (kinds (slice buf s e)).countP (· = .pipe) ∧
      (pipeline st sts).redirs = (kinds (slice buf s e)).countP isRedir := by
  obtain ⟨hkinds, hwords, hshort⟩ := takePipeline_ok hp
  obtain ⟨hscan, htext⟩ := scan_line h
  rw [words_nil, List.append_nil] at hwords
  rw [hscan, List.map_nil, List.append_nil] at hkinds
  have hshort' : ∀ b ∈ st.shape :: sts.map Stage.shape, Short b := by
    intro b hb
    rw [← List.map_cons] at hb
    obtain ⟨q, hq, rfl⟩ := List.mem_map.mp hb
    exact hshort q hq
  obtain ⟨h1, h2⟩ := pipelineKinds_counts hshort'
  refine ⟨?_, ?_, ?_⟩
  · rw [pipeline_words hshort, ← hwords, htext]
  · rw [pipeline_pipes, kinds, hkinds, h1, List.length_map]
  · rw [pipeline_redirs hshort, kinds, hkinds, h2]
    simp [Stage.shape, Function.comp_def]

/-! ## The lines that are kept whole -/

/-- Stages of one to nine words, each followed by redirections with their files. -/
def Grammatical (ks : List Tok) : Prop :=
  ∃ a as, ks = pipelineKinds a as ∧ ∀ b ∈ a :: as, Short b ∧ 0 < b.1

/-- A line that says what the parser reads: every operator stands alone
between white space, none of which is at the start. -/
structure WellWritten (line : List Char) : Prop where
  settled : Settled line
  clean : ∀ w ∈ chunks line, Clean w
  grammar : Grammatical (kinds line)

/-- A line that the parser rejects. White space at the start counts for an
empty word, and hides a redirection behind it. -/
def Rejected (line : List Char) : Prop :=
  Settled line ∧ Refused (kinds line) ∨
    ¬ Settled line ∧ ((∃ k ∈ (kinds line).head?, isRedir k = true) ∨ Refused (.x :: kinds line))

theorem length_of_scan_nil {buf : Buf} {s e : Nat} (h : Cursor buf s e) (hs : scan buf s e = []) :
    s = e := by
  have := h.le
  rcases Nat.lt_or_ge s e with hlt | hge
  · rw [scan_cons hlt] at hs
    cases hs
  · omega

/-- The three ways a token parser can end. -/
theorem takePipeline_cases (ts : List (Tok × Span)) :
    takePipeline ts = .error .overrun ∨
      takePipeline ts = .error (.exit 1) ∧ Refused (ts.map Prod.fst) ∨
      ∃ st sts rest, takePipeline ts = .ok ((st, sts), rest) := by
  cases h : takePipeline ts with
  | error stop =>
    rcases takePipeline_error h with rfl | ⟨rfl, hr⟩
    · exact Or.inl rfl
    · exact Or.inr (Or.inl ⟨rfl, hr⟩)
  | ok r => exact Or.inr (Or.inr ⟨r.1.1, r.1.2, r.2, rfl⟩)

theorem takePipeline_grammatical {ts : List (Tok × Span)} (h : Grammatical (ts.map Prod.fst)) :
    ∃ st sts, takePipeline ts = .ok ((st, sts), []) ∧ ∀ q ∈ st :: sts, q.args ≠ [] := by
  obtain ⟨a, as, hkinds, hall⟩ := h
  obtain ⟨st, sts, hp, rfl, rfl⟩ := takePipeline_kinds hkinds fun b hb => (hall b hb).1
  refine ⟨st, sts, hp, ?_⟩
  intro q hq hnil
  rw [← List.map_cons] at hall
  have := (hall q.shape (List.mem_map_of_mem hq)).2
  simp [Stage.shape, hnil] at this

theorem grammatical_of_tree {ts : List (Tok × Span)} {st : Stage} {sts : List Stage}
    (hp : takePipeline ts = .ok ((st, sts), [])) (hargs : ∀ q ∈ st :: sts, q.args ≠ []) :
    Grammatical (ts.map Prod.fst) := by
  obtain ⟨hkinds, -, hshort⟩ := takePipeline_ok hp
  rw [List.map_nil, List.append_nil] at hkinds
  refine ⟨st.shape, sts.map Stage.shape, hkinds, ?_⟩
  rw [← List.map_cons]
  intro b hb
  obtain ⟨q, hq, rfl⟩ := List.mem_map.mp hb
  exact ⟨hshort q hq, List.length_pos_iff.mpr (hargs q hq)⟩

/-- A tree that holds the whole line has as many tokens as the line has runs. -/
theorem clean_of_kept {line : List Char} {st : Stage} {sts : List Stage}
    (h : Cursor (getline line) 0 line.length)
    (hp : takePipeline (scan (getline line) 0 line.length) = .ok ((st, sts), []))
    (hwords : (pipeline st sts).words.map (Span.text (getline line)) =
      (lex line).filterMap Lexeme.text?)
    (hpipes : (pipeline st sts).pipes = (lex line).countP Lexeme.isPipe)
    (hredirs : (pipeline st sts).redirs = (lex line).countP Lexeme.isRedir) :
    ∀ w ∈ chunks line, Clean w := by
  obtain ⟨h1, h2, h3⟩ := tree_of_line h hp
  rw [slice_getline] at h1 h2 h3
  apply clean_of_count fun w hw => chunks_nonspace hw
  have hx : ((lex line).filterMap Lexeme.text?).length = (kinds line).countP (· = .x) := by
    rw [← hwords, h1, kinds, List.countP_map, List.countP_eq_length_filter]
    rfl
  have hk := kind_counts (kinds line) (by
    intro k hk
    obtain ⟨w, -, rfl⟩ := List.mem_map.mp hk
    exact kind_ne_eol w)
  have hl := lexeme_counts (lex line)
  rw [kinds, List.length_map] at hk
  rw [← lex_chunks]
  rw [kinds] at hx h2 h3
  omega

theorem keeps_settled {line : List Char} (h : Settled line) :
    KeepsTheLine line (parsePipe (getline line) 0 line.length) ↔
      WellWritten line ∨ Refused (kinds line) := by
  have hc : Cursor (getline line) 0 line.length := by
    refine ⟨Nat.zero_le _, by simp [getline], ?_⟩
    rw [slice_getline]
    exact h
  have hsees := sees_parsePipe hc.bound (sees_parsArgs [] hc)
  have hkinds : (scan (getline line) 0 line.length).map Prod.fst = kinds line := by
    rw [(scan_line hc).1, slice_getline]
    rfl
  rcases takePipeline_cases (scan (getline line) 0 line.length) with ht | ⟨ht, href⟩ |
    ⟨st, sts, rest, ht⟩
  · -- the words overrun `argv`
    rw [ht] at hsees
    rw [show parsePipe _ _ _ = _ from hsees]
    refine ⟨False.elim, ?_⟩
    rintro (hw | href)
    · obtain ⟨st, sts, hp, -⟩ := takePipeline_grammatical (hkinds.symm ▸ hw.grammar)
      simp [hp] at ht
    · have hp := takePipeline_refused (hkinds.symm ▸ href)
      simp [hp] at ht
  · -- a redirection has no file
    rw [ht] at hsees
    rw [show parsePipe _ _ _ = _ from hsees]
    exact ⟨fun _ => Or.inr (hkinds ▸ href), fun _ => trivial⟩
  · rw [ht] at hsees
    obtain ⟨s, hs, hc', hscan⟩ := hsees
    rw [hs]
    constructor
    · rintro ⟨rfl, hwords, hpipes, hredirs, hleaves⟩
      rw [scan_of_le (Nat.le_refl _)] at hscan
      subst hscan
      rw [pipeline_leaves] at hleaves
      have hargs : ∀ q ∈ st :: sts, q.args ≠ [] := fun q hq => hleaves _ (List.mem_map_of_mem hq)
      exact Or.inl ⟨h, clean_of_kept hc ht hwords hpipes hredirs,
        hkinds ▸ grammatical_of_tree ht hargs⟩
    · rintro (hw | href)
      · obtain ⟨st', sts', hp, hargs⟩ := takePipeline_grammatical (hkinds.symm ▸ hw.grammar)
        rw [hp] at ht
        simp only [Except.ok.injEq, Prod.mk.injEq] at ht
        obtain ⟨⟨rfl, rfl⟩, rfl⟩ := ht
        obtain ⟨h1, h2, h3⟩ := tree_of_line hc hp
        obtain ⟨h4, h5, h6⟩ := lexemeOf_counts (chunks line)
        rw [slice_getline] at h1 h2 h3
        rw [KeepsTheLine, lex_of_all_clean hw.clean, h4, h5, h6]
        refine ⟨length_of_scan_nil hc' hscan, h1, h2, h3, ?_⟩
        rw [pipeline_leaves]
        intro args hmem
        obtain ⟨q, hq, rfl⟩ := List.mem_map.mp hmem
        exact hargs q hq
      · have hp := takePipeline_refused (hkinds.symm ▸ href)
        simp [hp] at ht

theorem refused_iff (ts : List (Tok × Span)) :
    takePipeline ts = .error (.exit 1) ↔ Refused (ts.map Prod.fst) := by
  refine ⟨fun h => ?_, takePipeline_refused⟩
  rcases takePipeline_error h with h' | ⟨-, hr⟩
  · cases h'
  · exact hr

theorem lex_word_ne_nil {l w : List Char} (h : w ∈ (lex l).filterMap Lexeme.text?) : w ≠ [] := by
  obtain ⟨x, hx, hw⟩ := List.mem_filterMap.mp h
  fun_induction lex l with
  | case1 => cases hx
  | case7 c cs _ _ _ _ ih =>
    rcases List.mem_cons.mp hx with rfl | hx
    · cases hw
      exact List.cons_ne_nil _ _
    · exact ih (List.mem_filterMap.mpr ⟨x, hx, hw⟩) hx
  | case2 c cs _ ih => exact ih (List.mem_filterMap.mpr ⟨x, hx, hw⟩) hx
  | _ =>
    rename_i ih
    rcases List.mem_cons.mp hx with rfl | hx
    · cases hw
    · exact ih (List.mem_filterMap.mpr ⟨x, hx, hw⟩) hx

/-- A word in front of a `|` changes nothing about the stages behind it. -/
theorem takePipeline_before_pipe {t : Tok × Span} {ts : List (Tok × Span)} (ht : t.1 = .x)
    (hfront : front ts = .pipe) :
    takePipeline (t :: ts) = .error (.exit 1) ↔ takePipeline ts = .error (.exit 1) := by
  have hne : front ts ≠ .x := by simp [hfront]
  have hno : isRedir (front ts) = false := by simp [hfront, isRedir]
  have h0 : takeArgs [] ([] ++ ts) = .ok ([], ts) := takeArgs_words [] (by simp) (by simp) hne
  have h1 : takeArgs [] ([t] ++ ts) = .ok ([t.2], ts) :=
    takeArgs_words [] (by simpa using ht) (by simp [MAXARGS]) hne
  rw [List.nil_append] at h0
  rw [List.singleton_append] at h1
  have hs0 : takeStage ts = .ok (⟨[], []⟩, ts) := by simp [takeStage, h0, hno, MAXARGS]
  have hs1 : takeStage (t :: ts) = .ok (⟨[t.2], []⟩, ts) := by
    simp [takeStage, h1, hno, MAXARGS]
  rw [takePipeline, hs1, takePipeline, hs0]
  simp only [hfront, if_true]
  cases takePipeline ts.tail <;> simp [Except.map]

/-! ### White space at the start -/

section
variable {line : List Char}

/-- The tokens behind the white space. -/
def behind (line : List Char) : List (Tok × Span) :=
  scan (getline line) (gettoken (getline line) 0 line.length).next line.length

/-- The line begins with white space. -/
structure Indented (line : List Char) : Prop where
  pos : 0 < line.length
  space : isspace (deref (getline line) 0) = true

theorem indented_of_not_settled (h : ¬ Settled line) : Indented line := by
  cases line with
  | nil => exact absurd (by simp [Settled]) h
  | cons c cs => exact ⟨by simp, by simpa [Settled, getline, deref] using h⟩

theorem le_getline (line : List Char) : line.length ≤ (getline line).length := by
  simp [getline]

theorem Indented.cursor (h : Indented line) :
    Cursor (getline line) (gettoken (getline line) 0 line.length).next line.length :=
  Cursor.next h.pos (le_getline line)

theorem Indented.kinds (h : Indented line) : (behind line).map Prod.fst = kinds line := by
  have hdrop : line.dropWhile nonspace = line := by
    obtain ⟨hpos, hsp⟩ := h
    cases line with
    | nil => rfl
    | cons c cs =>
      have hc : nonspace c = false := by simpa [nonspace, getline, deref] using hsp
      exact List.dropWhile_cons_of_neg (by simp [hc])
  rw [behind, (scan_line h.cursor).1, (gettoken_taken h.pos (le_getline line)).rest, slice_getline,
    hdrop, chunks_dropWhile]
  rfl

theorem Indented.first (h : Indented line) :
    (∃ k ∈ (mysh.kinds line).head?, isRedir k = true) ↔ isRedir (front (behind line)) = true := by
  rw [← h.kinds, List.head?_map]
  cases behind line with
  | nil => simp [front, isRedir]
  | cons t ts => simp [front]

/-- The empty word in front is no token of the line, so no tree holds the line. -/
theorem keeps_space_word (h : Indented line) (hf : front (behind line) = .x) :
    KeepsTheLine line (parsePipe (getline line) 0 line.length) ↔
      takePipeline ((.x, ⟨0, 0⟩) :: behind line) = .error (.exit 1) := by
  have he := le_getline line
  have hsees := sees_parsePipe he (sees_space_word he h.pos h.space hf)
  change Sees _ _ _ (takePipeline ((.x, ⟨0, 0⟩) :: behind line)) _ at hsees
  rcases takePipeline_cases ((.x, ⟨0, 0⟩) :: behind line) with ht | ⟨ht, -⟩ | ⟨st, sts, rest, ht⟩
  · rw [ht] at hsees
    rw [show parsePipe _ _ _ = _ from hsees, ht]
    simp [KeepsTheLine]
  · rw [ht] at hsees
    rw [show parsePipe _ _ _ = _ from hsees, ht]
    simp [KeepsTheLine]
  · rw [ht] at hsees
    obtain ⟨s, hs, -, -⟩ := hsees
    obtain ⟨-, hwords, hshort⟩ := takePipeline_ok ht
    rw [hs, ht]
    refine ⟨?_, fun hcon => by cases hcon⟩
    rintro ⟨-, htext, -, -, hleaves⟩
    exfalso
    have hargs : st.args ≠ [] := by
      apply hleaves
      rw [pipeline_leaves]
      exact List.mem_cons_self
    obtain ⟨w, ws, hcons⟩ := List.exists_cons_of_ne_nil hargs
    have hw : w = ⟨0, 0⟩ := by
      simp only [words_cons, if_true, List.flatMap_cons, Stage.spans, hcons, List.cons_append,
        List.cons.injEq] at hwords
      exact hwords.1.symm
    rw [pipeline_words hshort] at htext
    have hnil : [] ∈ (lex line).filterMap Lexeme.text? := by
      rw [← htext]
      simp [Stage.spans, hcons, hw, Span.text, slice]
    exact lex_word_ne_nil hnil rfl

theorem keeps_space_pipe (h : Indented line) (hf : front (behind line) = .pipe) :
    KeepsTheLine line (parsePipe (getline line) 0 line.length) ↔
      takePipeline ((.x, ⟨0, 0⟩) :: behind line) = .error (.exit 1) := by
  have he := le_getline line
  have hsees := sees_parsePipe he (sees_parsArgs [] h.cursor)
  change Sees _ _ _ (takePipeline (behind line)) _ at hsees
  rw [takePipeline_before_pipe rfl hf, parsePipe_space_pipe he h.pos h.space hf]
  rcases takePipeline_cases (behind line) with ht | ⟨ht, -⟩ | ⟨st, sts, rest, ht⟩
  · rw [ht] at hsees
    rw [show parsePipe _ _ _ = _ from hsees, ht]
    simp [KeepsTheLine, Except.map]
  · rw [ht] at hsees
    rw [show parsePipe _ _ _ = _ from hsees, ht]
    simp [KeepsTheLine, Except.map]
  · rw [ht] at hsees
    obtain ⟨s, hs, -, -⟩ := hsees
    rw [hs, ht]
    simp [KeepsTheLine, Except.map, Node.leaves]

theorem keeps_space_eol (h : Indented line) (hf : front (behind line) = .eol) :
    KeepsTheLine line (parsePipe (getline line) 0 line.length) ↔
      takePipeline ((.x, ⟨0, 0⟩) :: behind line) = .error (.exit 1) := by
  have hnil : behind line = [] := by
    cases hb : behind line with
    | nil => rfl
    | cons t ts =>
      have ht : t.1 ∈ (behind line).map Prod.fst := by simp [hb]
      rw [h.kinds] at ht
      obtain ⟨w, -, hw⟩ := List.mem_map.mp ht
      rw [hb] at hf
      exact absurd (hw.trans hf) (kind_ne_eol w)
  have hpeak : peak (getline line) 0 line.length = .eol := by
    rw [peak_space (le_getline line) h.pos h.space]
    exact hf
  have hp : takePipeline [(.x, ⟨0, 0⟩)] = .ok ((⟨[⟨0, 0⟩], []⟩, []), []) := by decide +kernel
  rw [parsePipe_space_eol hpeak, hnil, hp]
  simp [KeepsTheLine, Node.leaves]

/-- White space at the start is well taken only when the line is rejected. -/
theorem keeps_unsettled (h : ¬ Settled line) :
    KeepsTheLine line (parsePipe (getline line) 0 line.length) ↔
      (∃ k ∈ (kinds line).head?, isRedir k = true) ∨ Refused (.x :: kinds line) := by
  have hi := indented_of_not_settled h
  rw [hi.first, ← hi.kinds, ← List.map_cons (f := Prod.fst) (a := (Tok.x, ⟨0, 0⟩)), ← refused_iff]
  by_cases hr : isRedir (front (behind line)) = true
  · rw [parsePipe_space_redir (le_getline line) hi.pos hi.space hr]
    simp [hr, KeepsTheLine]
  · simp only [hr, Bool.false_eq_true, false_or]
    cases hf : front (behind line) with
    | x => exact keeps_space_word hi hf
    | pipe => exact keeps_space_pipe hi hf
    | eol => exact keeps_space_eol hi hf
    | lt => simp [hf, isRedir] at hr
    | gt => simp [hf, isRedir] at hr
    | plus => simp [hf, isRedir] at hr

end

/-- The parser keeps a line whole, or rejects it, exactly when the line is
well written or the first thing wrong in it is a redirection without a file. -/
theorem the_parser_keeps_the_line_iff (line : List Char) :
    KeepsTheLine line (parsePipe (getline line) 0 line.length) ↔
      WellWritten line ∨ Rejected line := by
  by_cases h : Settled line
  · rw [keeps_settled h]
    simp [Rejected, h]
  · have hno : ¬ WellWritten line := fun hw => h hw.settled
    rw [keeps_unsettled h]
    simp [Rejected, h, hno]

/-- The word behind `|` is lost when no white space is between them. -/
theorem a_word_glued_to_a_pipe_is_lost :
    ¬ KeepsTheLine "ls |wc\n".toList
      (parsePipe (getline "ls |wc\n".toList) 0 "ls |wc\n".toList.length) := by
  have hp : parsePipe (getline "ls |wc\n".toList) 0 "ls |wc\n".toList.length =
      .ok (.pipe (.exec [⟨0, 2⟩]) (.exec []), 7) := by decide +kernel
  have hlex : (lex "ls |wc\n".toList).filterMap Lexeme.text? = ["ls".toList, "wc".toList] := by
    decide +kernel
  rw [hp]
  rintro ⟨-, hwords, -⟩
  rw [hlex] at hwords
  simp [Node.words, Node.args, Node.files] at hwords

end mysh
