-- Where the two functions of the scanner agree, what white space in front of a
-- line does to its tree, and how many words the arrays of a command hold.
import Mathlib.Data.List.Forall2
import SysNet.Mysh.RoundTrip

namespace mysh

/-! ## peak and gettoken -/

/-- `peak` and `gettoken` see the same token, and a word is not empty. -/
structure LexersAgree (buf : Buf) (s e : Nat) : Prop where
  tok : peak buf s e = (gettoken buf s e).tok
  word : (gettoken buf s e).tok = .x →
    (gettoken buf s e).span.start < (gettoken buf s e).span.stop

theorem advance_of_not {p : Char → Bool} {buf : Buf} {s : Nat} (n : Nat)
    (h : p (deref buf s) = false) : advance p buf n s = s := by
  cases n with
  | zero => rfl
  | succ n => simp [advance, h]

/-- The lexers agree at the end of the line and at every other character. -/
theorem lexersAgree_iff (buf : Buf) (s e : Nat) :
    LexersAgree buf s e ↔ (s < e → isspace (deref buf s) = false) := by
  rcases Nat.lt_or_ge s e with hlt | hge
  · cases hsp : isspace (deref buf s) with
    | true =>
      -- `gettoken` takes the white space for an empty word
      refine ⟨fun h => ?_, fun h => absurd (h hlt) Bool.noConfusion⟩
      have hword := h.word
      rw [gettoken_space hlt hsp] at hword
      exact absurd (hword rfl) (Nat.lt_irrefl s)
    | false =>
      refine ⟨fun _ _ => rfl, fun _ => ?_⟩
      have htok : (gettoken buf s e).tok = classify buf s e := by
        simp only [gettoken, Nat.not_le.mpr hlt, if_false]
      constructor
      · rw [htok, peak, advance_of_not _ hsp]
        exact if_neg (Nat.not_le.mpr hlt)
      · intro _
        simp only [gettoken, Nat.not_le.mpr hlt, if_false]
        exact lt_advance (Nat.sub_pos_of_lt hlt) (by simp [hsp])
  · refine ⟨fun _ hlt => absurd hlt (Nat.not_lt.mpr hge), fun _ => ?_⟩
    have hle := le_advance isspace buf (e - s) s
    have htok : (gettoken buf s e).tok = .eol := by
      simp only [gettoken, hge, if_true]
    constructor
    · rw [htok, peak]
      exact if_pos (Nat.le_trans hge hle)
    · intro hx
      rw [htok] at hx
      cases hx

/-! ## The trees of two buffers -/

/-- The tree with every word as it stands in the line. -/
def Node.texts (buf : Buf) (n : Node) : Tree := n.tree (Span.text buf)

@[simp] theorem texts_exec (buf : Buf) (args : List Span) :
    (Node.exec args).texts buf = .exec (args.map (Span.text buf)) := rfl

@[simp] theorem texts_redir (buf : Buf) (fd mode : Nat) (child : Node) (file : Span) :
    (Node.redir fd mode child file).texts buf = .redir fd mode (child.texts buf) (file.text buf) :=
  rfl

@[simp] theorem texts_pipe (buf : Buf) (left right : Node) :
    (Node.pipe left right).texts buf = .pipe (left.texts buf) (right.texts buf) := rfl

/-- The tree that `parsePipe` builds of a line, when it builds one. -/
def treeOf (line : List Char) : Option Tree :=
  match parsePipe (getline line) 0 line.length with
  | .ok (n, _) => some (n.texts (getline line))
  | .error _ => none

section alike

variable {buf buf' : Buf}

/-- Words with the same text. -/
def SameWord (buf buf' : Buf) (w w' : Span) : Prop := w.text buf = w'.text buf'

/-- Tokens of the same class with the same text. -/
def SameToken (buf buf' : Buf) (t t' : Tok × Span) : Prop :=
  t.1 = t'.1 ∧ SameWord buf buf' t.2 t'.2

/-- Two parsers stopped the same way, or both went on with what `P` relates. -/
def Alike {α β : Type} (P : α → β → Prop) : Except Stop α → Except Stop β → Prop
  | .ok a, .ok b => P a b
  | .error stop, .error stop' => stop = stop'
  | _, _ => False

theorem front_same {ts us : List (Tok × Span)} (h : List.Forall₂ (SameToken buf buf') ts us) :
    front ts = front us := by
  cases h with
  | nil => rfl
  | cons ht _ => exact ht.1

theorem takeArgs_alike {args args' : List Span} {ts us : List (Tok × Span)}
    (ha : List.Forall₂ (SameWord buf buf') args args')
    (h : List.Forall₂ (SameToken buf buf') ts us) :
    Alike (fun r r' => List.Forall₂ (SameWord buf buf') r.1 r'.1 ∧
      List.Forall₂ (SameToken buf buf') r.2 r'.2) (takeArgs args ts) (takeArgs args' us) := by
  induction h generalizing args args' with
  | nil => exact ⟨ha, .nil⟩
  | @cons t u ts us ht hts ih =>
    have hlen := ha.length_eq
    obtain ⟨hclass, hword⟩ := ht
    simp only [takeArgs, ← hclass, ← hlen]
    split
    · split
      · apply ih
        exact List.rel_append ha (.cons hword .nil)
      · rfl
    · exact ⟨ha, .cons ⟨hclass, hword⟩ hts⟩

theorem Alike.map {α β γ δ : Type} {P : α → β → Prop} {Q : γ → δ → Prop} {f : α → γ} {g : β → δ}
    {x : Except Stop α} {y : Except Stop β} (h : Alike P x y) (hfg : ∀ a b, P a b → Q (f a) (g b)) :
    Alike Q (x.map f) (y.map g) := by
  cases x with
  | error stop =>
    cases y with
    | error stop' => exact h
    | ok b => exact h
  | ok a =>
    cases y with
    | error stop' => exact h
    | ok b => exact hfg a b h

theorem takeRedirs_alike {ts us : List (Tok × Span)}
    (h : List.Forall₂ (SameToken buf buf') ts us) :
    Alike (fun r r' => List.Forall₂ (SameToken buf buf') r.1 r'.1 ∧
      List.Forall₂ (SameToken buf buf') r.2 r'.2) (takeRedirs ts) (takeRedirs us) := by
  fun_induction takeRedirs ts generalizing us with
  | case1 op word ts hop hmore ih =>
    rcases h with _ | ⟨hop', _ | ⟨hword', h⟩⟩
    rw [takeRedirs, ← hop'.1, ← hword'.1, if_pos hop, ← front_same h, if_pos hmore]
    apply (ih h).map
    intro r r' hr
    exact ⟨.cons ⟨rfl, hword'.2⟩ hr.1, hr.2⟩
  | case2 op word ts hop hmore =>
    rcases h with _ | ⟨hop', _ | ⟨hword', h⟩⟩
    rw [takeRedirs, ← hop'.1, ← hword'.1, if_pos hop, ← front_same h, if_neg hmore]
    exact ⟨.cons ⟨rfl, hword'.2⟩ .nil, h⟩
  | case3 op word ts hop =>
    rcases h with _ | ⟨hop', _ | ⟨hword', h⟩⟩
    rw [takeRedirs, ← hop'.1, ← hword'.1, if_neg hop]
    rfl
  | case4 ts hts =>
    rcases h with _ | ⟨hop', _ | ⟨hword', h⟩⟩
    · rfl
    · rfl
    · exact absurd rfl (hts _ _ _)

/-- Stages with the same words and the same redirections. -/
structure SameStage (buf buf' : Buf) (st st' : Stage) : Prop where
  args : List.Forall₂ (SameWord buf buf') st.args st'.args
  redirs : List.Forall₂ (SameToken buf buf') st.redirs st'.redirs

theorem takeStage_alike {ts us : List (Tok × Span)}
    (h : List.Forall₂ (SameToken buf buf') ts us) :
    Alike (fun r r' => SameStage buf buf' r.1 r'.1 ∧
      List.Forall₂ (SameToken buf buf') r.2 r'.2) (takeStage ts) (takeStage us) := by
  have hargs := @takeArgs_alike buf buf' [] [] ts us .nil h
  unfold takeStage
  cases ht : takeArgs [] ts with
  | error stop =>
    cases hu : takeArgs [] us with
    | error stop' => rwa [ht, hu] at hargs
    | ok r' => rw [ht, hu] at hargs; exact hargs.elim
  | ok r =>
    cases hu : takeArgs [] us with
    | error stop' => rw [ht, hu] at hargs; exact hargs.elim
    | ok r' =>
      rw [ht, hu] at hargs
      obtain ⟨hwords, hrest⟩ := hargs
      simp only [hwords.length_eq, front_same hrest]
      split
      · split
        · apply (takeRedirs_alike hrest).map
          intro q q' hq
          exact ⟨⟨hwords, hq.1⟩, hq.2⟩
        · exact ⟨⟨hwords, .nil⟩, hrest⟩
      · rfl

theorem takePipeline_alike {ts us : List (Tok × Span)}
    (h : List.Forall₂ (SameToken buf buf') ts us) :
    Alike (fun r r' => List.Forall₂ (SameStage buf buf') (r.1.1 :: r.1.2) (r'.1.1 :: r'.1.2))
      (takePipeline ts) (takePipeline us) := by
  induction hn : ts.length using Nat.strong_induction_on generalizing ts us with
  | _ n ih =>
    have hstage := takeStage_alike h
    rw [takePipeline, takePipeline]
    cases ht : takeStage ts with
    | error stop =>
      cases hu : takeStage us with
      | error stop' => rwa [ht, hu] at hstage
      | ok r' => rw [ht, hu] at hstage; exact hstage.elim
    | ok r =>
      cases hu : takeStage us with
      | error stop' => rw [ht, hu] at hstage; exact hstage.elim
      | ok r' =>
        rw [ht, hu] at hstage
        obtain ⟨st, rest⟩ := r
        obtain ⟨st', rest'⟩ := r'
        obtain ⟨hst, hrest⟩ := hstage
        simp only [front_same hrest]
        split
        · obtain ⟨cs, rfl, -⟩ := takeStage_ok ht
          cases hrest with
          | nil => exact absurd ‹front [] = Tok.pipe› (by decide)
          | @cons t u rest rest' ht' hrest =>
            have hlen : rest.length < n := by
              rw [← hn, List.length_append, List.length_cons]
              omega
            apply (ih _ hlen hrest rfl).map
            intro q q' hq
            exact .cons hst hq
        · exact .cons hst .nil

/-! ## Trees of the same stages -/

theorem texts_wrap {r r' : Tok × Span} {n n' : Node} (h : SameToken buf buf' r r')
    (hn : n.texts buf = n'.texts buf') : (wrap r n).texts buf = (wrap r' n').texts buf' := by
  obtain ⟨hclass, hword⟩ := h
  unfold wrap
  rw [← hclass]
  split
  · rw [texts_redir, texts_redir, hn, hword]
  · exact hn

theorem texts_stage {st st' : Stage} (h : SameStage buf buf' st st') :
    st.node.texts buf = st'.node.texts buf' := by
  obtain ⟨args, redirs⟩ := st
  obtain ⟨args', redirs'⟩ := st'
  obtain ⟨hargs, hredirs⟩ := h
  unfold Stage.node
  simp only at hargs hredirs ⊢
  induction hredirs with
  | nil =>
    have htexts : args.map (Span.text buf) = args'.map (Span.text buf') := by
      induction hargs with
      | nil => rfl
      | cons hw _ ih => rw [List.map_cons, List.map_cons, ih, hw]
    simp only [List.foldr_nil, texts_exec, htexts]
  | cons hr _ ih => exact texts_wrap hr ih

theorem texts_pipeline {st st' : Stage} {sts sts' : List Stage}
    (h : List.Forall₂ (SameStage buf buf') (st :: sts) (st' :: sts')) :
    (pipeline st sts).texts buf = (pipeline st' sts').texts buf' := by
  induction sts generalizing st st' sts' with
  | nil =>
    rcases h with _ | ⟨hst, _ | _⟩
    exact texts_stage hst
  | cons st₁ sts ih =>
    rcases h with _ | ⟨hst, _ | ⟨hst₁, h⟩⟩
    rw [pipeline, pipeline, texts_pipe, texts_pipe, texts_stage hst, ih (.cons hst₁ h)]

/-- The tree of a list of tokens, when there is one. -/
def treeOfTokens (buf : Buf) (ts : List (Tok × Span)) : Option Tree :=
  match takePipeline ts with
  | .ok (q, _) => some ((pipeline q.1 q.2).texts buf)
  | .error _ => none

theorem treeOfTokens_same {ts us : List (Tok × Span)}
    (h : List.Forall₂ (SameToken buf buf') ts us) : treeOfTokens buf ts = treeOfTokens buf' us := by
  have halike := takePipeline_alike h
  unfold treeOfTokens
  cases ht : takePipeline ts with
  | error stop =>
    cases hu : takePipeline us with
    | error stop' => rfl
    | ok r' => rw [ht, hu] at halike; exact halike.elim
  | ok r =>
    cases hu : takePipeline us with
    | error stop' => rw [ht, hu] at halike; exact halike.elim
    | ok r' =>
      rw [ht, hu] at halike
      exact congrArg some (texts_pipeline halike)

/-- Two texts with the same runs have the same tokens. -/
theorem sameTokens {s e s' e' : Nat} (h : Cursor buf s e) (h' : Cursor buf' s' e')
    (hchunks : chunks (slice buf s e) = chunks (slice buf' s' e')) :
    List.Forall₂ (SameToken buf buf') (scan buf s e) (scan buf' s' e') := by
  rw [← scan_chunks h, ← scan_chunks h'] at hchunks
  have ht := @scan_tok buf s e h.bound
  have hu := @scan_tok buf' s' e' h'.bound
  generalize scan buf s e = ts at ht hchunks ⊢
  generalize scan buf' s' e' = us at hu hchunks ⊢
  induction ts generalizing us with
  | nil =>
    cases us with
    | nil => exact .nil
    | cons u us => cases hchunks
  | cons t ts ih =>
    cases us with
    | nil => cases hchunks
    | cons u us =>
      obtain ⟨ht, hts⟩ := List.forall_mem_cons.mp ht
      obtain ⟨hu, hus⟩ := List.forall_mem_cons.mp hu
      rw [List.map_cons, List.map_cons, List.cons.injEq] at hchunks
      refine .cons ⟨?_, hchunks.1⟩ (ih hts us hus hchunks.2)
      rw [ht, hu, hchunks.1]

end alike

/-! ## White space in front of a line -/

section space

variable {line : List Char}

theorem treeOf_of_sees {ts : List (Tok × Span)}
    (h : Sees (getline line) line.length (fun q => pipeline q.1 q.2) (takePipeline ts)
      (parsePipe (getline line) 0 line.length)) : treeOf line = treeOfTokens (getline line) ts := by
  unfold treeOf treeOfTokens
  cases ht : takePipeline ts with
  | error stop =>
    rw [ht] at h
    rw [show parsePipe _ _ _ = _ from h]
  | ok r =>
    rw [ht] at h
    obtain ⟨s, hs, -, -⟩ := h
    rw [hs]

theorem cursor_of_settled (h : Settled line) : Cursor (getline line) 0 line.length :=
  ⟨Nat.zero_le _, le_getline line, by rwa [slice_getline]⟩

theorem treeOf_settled (h : Settled line) :
    treeOf line = treeOfTokens (getline line) (scan (getline line) 0 line.length) :=
  treeOf_of_sees (sees_parsePipe (le_getline line) (sees_parsArgs [] (cursor_of_settled h)))

/-- What a line becomes with white space in front, by the first token behind. -/
def indentedTree (buf : Buf) (ts : List (Tok × Span)) : Option Tree :=
  match front ts with
  | .x => treeOfTokens buf ((.x, ⟨0, 0⟩) :: ts)
  | .pipe => (treeOfTokens buf ts).map (.pipe (.exec []) ·)
  | .eol => some (.exec [])
  | _ => none

theorem treeOf_indented (h : Indented line) :
    treeOf line = indentedTree (getline line) (behind line) := by
  have he := le_getline line
  have hredir : isRedir (front (behind line)) = true → treeOf line = none := by
    intro hr
    rw [treeOf, parsePipe_space_redir he h.pos h.space hr]
  unfold indentedTree
  cases hf : front (behind line) with
  | x => exact treeOf_of_sees (sees_parsePipe he (sees_space_word he h.pos h.space hf))
  | pipe =>
    have hsees := sees_parsePipe he (sees_parsArgs [] h.cursor)
    change Sees _ _ _ (takePipeline (behind line)) _ at hsees
    simp only [treeOf, treeOfTokens, parsePipe_space_pipe he h.pos h.space hf]
    cases ht : takePipeline (behind line) with
    | error stop =>
      rw [ht] at hsees
      rw [show parsePipe _ _ _ = _ from hsees]
      rfl
    | ok r =>
      rw [ht] at hsees
      obtain ⟨s, hs, -, -⟩ := hsees
      rw [hs]
      rfl
  | eol =>
    have hpeak : peak (getline line) 0 line.length = .eol := by
      rw [peak_space he h.pos h.space]
      exact hf
    rw [treeOf, parsePipe_space_eol hpeak]
    rfl
  | lt => exact hredir (by rw [hf]; rfl)
  | gt => exact hredir (by rw [hf]; rfl)
  | plus => exact hredir (by rw [hf]; rfl)

theorem indentedTree_same {buf buf' : Buf} {ts us : List (Tok × Span)}
    (h : List.Forall₂ (SameToken buf buf') ts us) : indentedTree buf ts = indentedTree buf' us := by
  have hempty : SameToken buf buf' (.x, ⟨0, 0⟩) (.x, ⟨0, 0⟩) :=
    ⟨rfl, (slice_of_le (Nat.le_refl 0)).trans (slice_of_le (Nat.le_refl 0)).symm⟩
  unfold indentedTree
  rw [front_same h]
  split
  · exact treeOfTokens_same (.cons hempty h)
  · rw [treeOfTokens_same h]
  · rfl
  · rfl

theorem chunks_append_space {ws : List Char} (h : ∀ c ∈ ws, isspace c = true) (l : List Char) :
    chunks (ws ++ l) = chunks l := by
  rw [← chunks_dropWhile, ← chunks_dropWhile l, List.dropWhile_append]
  have hnil : ws.dropWhile isspace = [] := List.dropWhile_eq_nil_iff.mpr h
  simp [hnil]

/-- Behind white space stand the same runs. -/
theorem chunks_behind {buf : Buf} {s e : Nat} (he : e ≤ buf.length) (h : s < e)
    (hsp : isspace (deref buf s) = true) :
    chunks (slice buf (gettoken buf s e).next e) = chunks (slice buf s e) := by
  have hdrop : (slice buf s e).dropWhile nonspace = slice buf s e := by
    rw [slice_cons h he]
    exact List.dropWhile_cons_of_neg (by simp [nonspace, hsp])
  rw [(gettoken_taken h he).rest, hdrop, chunks_dropWhile]

theorem Indented.chunks (h : Indented line) :
    mysh.chunks (slice (getline line) (gettoken (getline line) 0 line.length).next line.length) =
      mysh.chunks line := by
  rw [chunks_behind (le_getline line) h.pos h.space, slice_getline]

/-! ## How many words a command has -/

/-- The words that stand before the first operator. -/
def leading (ts : List (Tok × Span)) : List (Tok × Span) := ts.takeWhile (·.1 = .x)

theorem takeArgs_eq {args : List Span} (ts : List (Tok × Span)) (h : args.length ≤ MAXARGS) :
    takeArgs args ts =
      if args.length + (leading ts).length ≤ MAXARGS then
        .ok (args ++ (leading ts).map Prod.snd, ts.dropWhile (·.1 = .x))
      else .error .overrun := by
  induction ts generalizing args with
  | nil => simp [takeArgs, leading, h]
  | cons t ts ih =>
    unfold takeArgs
    by_cases hx : t.1 = .x
    · have hlead : leading (t :: ts) = t :: leading ts := List.takeWhile_cons_of_pos (by simpa)
      have hrest : (t :: ts).dropWhile (·.1 = .x) = ts.dropWhile (·.1 = .x) :=
        List.dropWhile_cons_of_pos (by simpa)
      rw [if_pos hx, hlead, hrest, List.length_cons]
      split
      · rename_i hlt
        rw [ih (by rwa [List.length_append]), List.length_append, List.length_singleton, List.map_cons,
          List.append_assoc, List.singleton_append, Nat.add_assoc, Nat.add_comm 1]
      · rename_i hge
        rw [if_neg (by omega)]
    · have hlead : leading (t :: ts) = [] := List.takeWhile_cons_of_neg (by simpa)
      have hrest : (t :: ts).dropWhile (·.1 = .x) = t :: ts := List.dropWhile_cons_of_neg (by simpa)
      simp [hx, hlead, hrest, h]

/-- How many words the first command of a tree has. -/
def Tree.argc : Tree → Nat
  | .exec args => args.length
  | .redir _ _ child _ => child.argc
  | .pipe left _ => left.argc

theorem argc_texts (buf : Buf) (n : Node) (h : n.pipes = 0) :
    (n.texts buf).argc = n.args.length := by
  induction n with
  | exec args => simp [Tree.argc, Node.args]
  | redir fd mode child file ih => exact ih h
  | pipe left right => simp [Node.pipes] at h

theorem argc_pipeline (buf : Buf) (st : Stage) (sts : List Stage) :
    ((pipeline st sts).texts buf).argc = st.args.length := by
  have hstage : (st.node.texts buf).argc = st.args.length := by
    rw [argc_texts buf _ (node_pipes st), node_args]
  cases sts with
  | nil => exact hstage
  | cons st' sts => exact hstage

theorem takeStage_args {ts rest : List (Tok × Span)} {st : Stage}
    (h : takeStage ts = .ok (st, rest)) : st.args = (leading ts).map Prod.snd := by
  rw [takeStage, takeArgs_eq ts (Nat.zero_le _)] at h
  split at h
  · rename_i heq
    split at heq
    · cases heq
    · cases h
  · rename_i args ts' heq
    split at heq
    · cases heq
      split at h
      · split at h
        · cases hr : takeRedirs (ts.dropWhile (·.1 = .x)) with
          | error stop => rw [hr] at h; cases h
          | ok r =>
            rw [hr] at h
            cases h
            rfl
        · cases h
          rfl
      · cases h
    · cases heq

theorem argc_treeOfTokens {buf : Buf} {ts : List (Tok × Span)} {t : Tree}
    (h : treeOfTokens buf ts = some t) : t.argc = (leading ts).length := by
  unfold treeOfTokens at h
  rw [takePipeline] at h
  cases hst : takeStage ts with
  | error stop =>
    rw [hst] at h
    cases h
  | ok r =>
    obtain ⟨st, rest⟩ := r
    have hargs := congrArg List.length (takeStage_args hst)
    rw [List.length_map] at hargs
    rw [hst] at h
    simp only at h
    split at h
    · rename_i heq
      split at heq
      · cases hr : takePipeline rest.tail with
        | error stop => rw [hr] at heq; cases heq
        | ok q =>
          rw [hr] at heq
          cases heq
          cases h
          rw [argc_pipeline, hargs]
      · cases heq
        cases h
        rw [argc_pipeline, hargs]
    · cases h

theorem ne_pipe_self (l t : Tree) : Tree.pipe l t ≠ t := by
  intro h
  have hsize := congrArg sizeOf h
  simp only [Tree.pipe.sizeOf_spec] at hsize
  omega

/-- White space in front of the tokens changes their tree, when there is a token. -/
theorem indentedTree_ne {buf : Buf} {ts : List (Tok × Span)} {t : Tree} (hne : front ts ≠ .eol)
    (h : treeOfTokens buf ts = some t) : indentedTree buf ts ≠ some t := by
  unfold indentedTree
  intro heq
  split at heq
  · have h1 := argc_treeOfTokens h
    have h2 := argc_treeOfTokens heq
    have hlead : leading ((Tok.x, ⟨0, 0⟩) :: ts) = (.x, ⟨0, 0⟩) :: leading ts :=
      List.takeWhile_cons_of_pos rfl
    rw [hlead, List.length_cons] at h2
    omega
  · rw [h, Option.map_some, Option.some.injEq] at heq
    exact ne_pipe_self _ _ heq
  · exact hne ‹_›
  · cases heq

theorem indented_append {ws : List Char} (hne : ws ≠ []) (h : ∀ c ∈ ws, isspace c = true)
    (l : List Char) : Indented (ws ++ l) := by
  obtain ⟨c, cs, rfl⟩ := List.exists_cons_of_ne_nil hne
  refine ⟨Nat.succ_pos _, ?_⟩
  exact h c List.mem_cons_self

/-- A line that is not empty has a token at its start. -/
theorem front_ne_eol (hne : line ≠ []) :
    front (scan (getline line) 0 line.length) ≠ .eol := by
  have hpos : 0 < line.length := List.length_pos_iff.mpr hne
  rw [scan_cons hpos]
  change (gettoken (getline line) 0 line.length).tok ≠ .eol
  rw [(gettoken_taken hpos (le_getline line)).tok]
  exact kind_ne_eol _

theorem treeOf_append_settled {ws : List Char} {t : Tree} (hne : ws ≠ [])
    (h : ∀ c ∈ ws, isspace c = true) (hs : Settled line) (ht : treeOf line = some t) :
    treeOf (ws ++ line) = treeOf line ↔ line = [] := by
  have hi := indented_append hne h line
  have hsame := sameTokens hi.cursor (cursor_of_settled hs)
    (by rw [hi.chunks, chunks_append_space h, slice_getline])
  rw [treeOf_indented hi, behind, indentedTree_same hsame, ht]
  constructor
  · intro heq
    by_contra hline
    rw [treeOf_settled hs] at ht
    exact indentedTree_ne (front_ne_eol hline) ht heq
  · rintro rfl
    have hnil : scan (getline []) 0 ([] : List Char).length = [] := scan_of_le (Nat.le_refl 0)
    rw [← ht, hnil]
    decide +kernel

theorem treeOf_append_indented {ws : List Char} (hne : ws ≠ [])
    (h : ∀ c ∈ ws, isspace c = true) (hl : Indented line) :
    treeOf (ws ++ line) = treeOf line := by
  have hi := indented_append hne h line
  have hsame := sameTokens hi.cursor hl.cursor
    (by rw [hi.chunks, chunks_append_space h, hl.chunks])
  rw [treeOf_indented hi, treeOf_indented hl]
  exact indentedTree_same hsame

end space

/-- The lexers agree at the end of a line and where no white space stands. So
white space in front of a line that has a tree changes the tree, unless the
line begins with white space already or is empty. -/
theorem the_lexers_agree_iff (buf : Buf) (s e : Nat) (ws line : List Char) :
    (LexersAgree buf s e ↔ (s < e → isspace (deref buf s) = false)) ∧
      (ws ≠ [] → (∀ c ∈ ws, isspace c = true) → (treeOf line).isSome →
        (treeOf (ws ++ line) = treeOf line ↔ line = [] ∨ ∃ c ∈ line.head?, isspace c = true)) := by
  refine ⟨lexersAgree_iff buf s e, ?_⟩
  intro hne hspace htree
  obtain ⟨t, ht⟩ := Option.isSome_iff_exists.mp htree
  by_cases hs : Settled line
  · rw [treeOf_append_settled hne hspace hs ht]
    refine ⟨Or.inl, ?_⟩
    rintro (hnil | ⟨c, hc, hsp⟩)
    · exact hnil
    · rw [hs c hc] at hsp
      cases hsp
  · refine ⟨fun _ => Or.inr ?_, fun _ => ?_⟩
    · simpa [Settled] using hs
    · exact treeOf_append_indented hne hspace (indented_of_not_settled hs)

/-- A blank in front of `ls` gives the command an empty word in front. -/
theorem a_blank_in_front_is_a_word :
    treeOf "ls\n".toList = some (.exec ["ls".toList]) ∧
      (treeOf ([' '] ++ "ls\n".toList) = treeOf "ls\n".toList ↔
        "ls\n".toList = [] ∨ ∃ c ∈ "ls\n".toList.head?, isspace c = true) := by
  have htree : treeOf "ls\n".toList = some (.exec ["ls".toList]) := by decide +kernel
  refine ⟨htree, (the_lexers_agree_iff [] 0 0 [' '] "ls\n".toList).2 (by decide) ?_ ?_⟩
  · exact List.forall_mem_singleton.mpr rfl
  · rw [htree]
    rfl

/-- At the blank in front of `ls`, both see a word, but an empty one. -/
theorem the_lexers_disagree_at_a_blank :
    (¬ ∀ (buf : Buf) (s e : Nat), LexersAgree buf s e) ∧
      ¬ ∀ ws line : List Char, (∀ c ∈ ws, isspace c = true) → treeOf (ws ++ line) = treeOf line := by
  constructor
  · intro h
    exact absurd ((lexersAgree_iff _ _ _).mp (h (getline " ls".toList) 0 3)) (by decide)
  · intro h
    have hspace : ∀ c ∈ [' '], isspace c = true := List.forall_mem_singleton.mpr rfl
    exact absurd (h [' '] "ls\n".toList hspace) (by decide +kernel)

/-! ## The arrays of a command -/

/-- The indices at which `parsExec` writes into `argv` and `eargv`: one for
each word, and the next one for the NULL. The model of `parsExec` stops at the
first that is out of bounds. -/
def parsExecWrites (buf : Buf) (counter s e : Nat) : List Nat :=
  if peak buf s e = .x then
    if (gettoken buf s e).tok = .eol then [counter]
    else counter :: parsExecWrites buf (counter + 1) (gettoken buf s e).next e
  else [counter]
termination_by e - s
decreasing_by
  have hlt : s < e := lt_of_gettoken ‹_›
  have := @lt_next buf s e hlt
  omega

/-- The words in front of the first operator of a text. White space at the
start counts for an empty one, when a word is the first that follows. -/
def wordsIn (text : List Char) : Nat :=
  (if text.head?.any isspace ∧ (chunks text).head?.map kind = some .x then 1 else 0) +
    ((chunks text).takeWhile (kind · = .x)).length

section arrays

variable {buf : Buf} {s e : Nat}

theorem leading_cons (t : Tok × Span) (ts : List (Tok × Span)) :
    leading (t :: ts) = if t.1 = .x then t :: leading ts else [] := by
  unfold leading
  rw [List.takeWhile_cons]
  simp

theorem parsExecWrites_cursor (counter : Nat) (h : Cursor buf s e) :
    parsExecWrites buf counter s e = List.range' counter ((leading (scan buf s e)).length + 1) := by
  induction hn : e - s using Nat.strong_induction_on generalizing s counter with
  | _ n ih =>
    rw [parsExecWrites, front_scan h]
    rcases Nat.lt_or_ge s e with hlt | hge
    · have hnext := @lt_next buf s e hlt
      rw [scan_cons hlt, leading_cons]
      change (if (gettoken buf s e).tok = .x then _ else _) = _
      by_cases hx : (gettoken buf s e).tok = .x
      · have heol : (gettoken buf s e).tok ≠ .eol := by simp [hx]
        rw [if_pos hx, if_neg heol, if_pos hx, ih _ (by omega) _ (Cursor.next hlt h.bound) rfl]
        rfl
      · rw [if_neg hx, if_neg hx]
        rfl
    · rw [scan_of_le hge]
      rfl

theorem length_leading (h : Cursor buf s e) :
    (leading (scan buf s e)).length = ((chunks (slice buf s e)).takeWhile (kind · = .x)).length := by
  have hkinds := congrArg (fun ks => (ks.takeWhile (· = .x)).length) (scan_line h).1
  simp only [List.takeWhile_map, List.length_map] at hkinds
  exact hkinds

/-- At white space the first index goes to an empty word. -/
theorem parsExecWrites_space (he : e ≤ buf.length) (h : s < e)
    (hsp : isspace (deref buf s) = true) :
    parsExecWrites buf 0 s e = List.range' 0
      ((if front (scan buf (gettoken buf s e).next e) = .x then 1 else 0) +
        (leading (scan buf (gettoken buf s e).next e)).length + 1) := by
  rw [parsExecWrites, peak_space he h hsp]
  by_cases hx : front (scan buf (gettoken buf s e).next e) = .x
  · have heol : (gettoken buf s e).tok ≠ .eol := by simp [gettoken_space h hsp]
    rw [if_pos hx, if_neg heol, if_pos hx, parsExecWrites_cursor _ (Cursor.next h he),
      Nat.add_comm 1]
    rfl
  · have hlead : leading (scan buf (gettoken buf s e).next e) = [] := by
      cases hscan : scan buf (gettoken buf s e).next e with
      | nil => rfl
      | cons t ts =>
        rw [hscan] at hx
        rw [leading_cons]
        exact if_neg hx
    rw [if_neg hx, if_neg hx, hlead]
    rfl

theorem front_chunks (h : Cursor buf s e) :
    front (scan buf s e) = .x ↔ (chunks (slice buf s e)).head?.map kind = some .x := by
  rw [← List.head?_map, ← (scan_line h).1, List.head?_map, front]
  cases (scan buf s e).head? with
  | none => simp
  | some t => simp

/-- The first index is 0, and the last is the number of the words. -/
theorem parsExecWrites_eq (he : e ≤ buf.length) (s : Nat) :
    parsExecWrites buf 0 s e = List.range (wordsIn (slice buf s e) + 1) := by
  rw [List.range_eq_range', wordsIn]
  rcases Nat.lt_or_ge s e with hlt | hge
  · have hhead : (slice buf s e).head? = some (deref buf s) := by rw [slice_cons hlt he]; rfl
    cases hsp : isspace (deref buf s) with
    | true =>
      have hc := Cursor.next hlt he
      rw [parsExecWrites_space he hlt hsp, length_leading hc, chunks_behind he hlt hsp]
      simp only [front_chunks hc, chunks_behind he hlt hsp, hhead, Option.any_some, hsp, true_and]
    | false =>
      have hc : Cursor buf s e := by
        refine ⟨Nat.le_of_lt hlt, he, ?_⟩
        intro c hc
        rw [hhead] at hc
        cases hc
        exact hsp
      rw [parsExecWrites_cursor 0 hc, length_leading hc, if_neg, Nat.zero_add]
      rintro ⟨hfirst, -⟩
      rw [hhead, Option.any_some, hsp] at hfirst
      cases hfirst
  · have hpeak : peak buf s e ≠ .x := by
      intro hx
      exact absurd (lt_of_peak (by rw [hx]; decide)) (Nat.not_lt.mpr hge)
    rw [parsExecWrites, if_neg hpeak, slice_of_le hge]
    simp [chunks]

theorem le_parsExecWrites {counter i : Nat} (h : i ∈ parsExecWrites buf counter s e) :
    counter ≤ i := by
  fun_induction parsExecWrites buf counter s e with
  | case1 counter s =>
    rw [List.mem_singleton] at h
    exact Nat.le_of_eq h.symm
  | case2 counter s hpeak htok ih =>
    rcases List.mem_cons.mp h with rfl | h
    · exact Nat.le_refl i
    · exact Nat.le_of_succ_le (ih h)
  | case3 counter s =>
    rw [List.mem_singleton] at h
    exact Nat.le_of_eq h.symm

theorem parsArgs_writes (buf : Buf) (args : List Span) (s e : Nat) :
    match parsArgs buf args s e with
    | .error stop => stop = .overrun ∧ ∃ i ∈ parsExecWrites buf args.length s e, MAXARGS ≤ i
    | .ok (args', _) => args'.length ∈ parsExecWrites buf args.length s e ∧
        ∀ i ∈ parsExecWrites buf args.length s e, i ≤ args'.length := by
  fun_induction parsArgs buf args s e with
  | case1 args s hpeak htok =>
    rw [parsExecWrites, if_pos hpeak, if_pos htok]
    simp
  | case2 args s hpeak htok hlen ih =>
    rw [parsExecWrites, if_pos hpeak, if_neg htok]
    rw [List.length_append, List.length_singleton] at ih
    cases hp : parsArgs buf (args ++ [(gettoken buf s e).span]) (gettoken buf s e).next e with
    | error stop =>
      rw [hp] at ih
      obtain ⟨hstop, i, hi, hge⟩ := ih
      exact ⟨hstop, i, List.mem_cons_of_mem _ hi, hge⟩
    | ok r =>
      rw [hp] at ih
      obtain ⟨hmem, hle⟩ := ih
      have hlast := le_parsExecWrites hmem
      refine ⟨List.mem_cons_of_mem _ hmem, fun i hi => ?_⟩
      rcases List.mem_cons.mp hi with rfl | hi
      · exact Nat.le_of_succ_le hlast
      · exact hle i hi
  | case3 args s hpeak htok hlen =>
    rw [parsExecWrites, if_pos hpeak, if_neg htok]
    exact ⟨rfl, _, List.mem_cons_self, Nat.not_lt.mp hlen⟩
  | case4 args s hpeak =>
    rw [parsExecWrites, if_neg hpeak]
    simp

theorem parseRedir_exits {buf : Buf} {child : Node} {s e : Nat} {stop : Stop}
    (h : parseRedir buf child s e = .error stop) : stop = .exit 1 := by
  fun_induction parseRedir buf child s e with
  | case1 => cases h; rfl
  | case2 s op fd mode hmode word hword hmore ih =>
    cases hr : parseRedir buf child word.next e with
    | ok r => rw [hr] at h; cases h
    | error stop' =>
      rw [hr] at h
      cases h
      exact ih hr
  | case3 => cases h
  | case4 => cases h; rfl

/-- The model of `parsExec` stops where an index is out of bounds. -/
theorem parsExec_overrun_iff (buf : Buf) (s e : Nat) :
    parsExec buf s e = .error .overrun ↔ ∃ i ∈ parsExecWrites buf 0 s e, MAXARGS ≤ i := by
  have hwrites := parsArgs_writes buf [] s e
  unfold parsExec
  cases hp : parsArgs buf [] s e with
  | error stop =>
    rw [hp] at hwrites
    obtain ⟨rfl, hi⟩ := hwrites
    exact iff_of_true rfl hi
  | ok r =>
    obtain ⟨args, s'⟩ := r
    rw [hp] at hwrites
    obtain ⟨hmem, hle⟩ := hwrites
    simp only
    split
    · rename_i hlen
      refine iff_of_false ?_ ?_
      · intro h
        split at h
        · cases parseRedir_exits h
        · cases h
      · rintro ⟨i, hi, hge⟩
        have := hle i hi
        omega
    · rename_i hlen
      exact iff_of_true rfl ⟨_, hmem, Nat.not_lt.mp hlen⟩

end arrays

/-- For every line and every cursor, `parsExec` stays inside its arrays exactly
when fewer words follow than the arrays have places. From there on it does not
reject the command, it writes past them. -/
theorem the_arrays_hold_iff (line : List Char) (s : Nat) :
    ((∀ i ∈ parsExecWrites (getline line) 0 s line.length, i < MAXARGS) ∧
        (MAXARGS ≤ wordsIn (line.drop s) →
          ∃ status, parsExec (getline line) s line.length = .error (.exit status)) ↔
      wordsIn (line.drop s) < MAXARGS) ∧
    (MAXARGS ≤ wordsIn (line.drop s) →
      parsExec (getline line) s line.length = .error .overrun) := by
  have hslice : slice (getline line) s line.length = line.drop s := by
    simp [slice, getline]
  have hwrites := parsExecWrites_eq (le_getline line) s
  rw [hslice] at hwrites
  rw [parsExec_overrun_iff, hwrites]
  refine ⟨⟨fun h => ?_, fun h => ⟨fun i hi => ?_, fun hge => ?_⟩⟩, fun hge => ?_⟩
  · exact h.1 _ (List.mem_range.mpr (Nat.lt_succ_self _))
  · have := List.mem_range.mp hi
    omega
  · exact absurd h (Nat.not_lt.mpr hge)
  · exact ⟨_, List.mem_range.mpr (Nat.lt_succ_self _), hge⟩

/-- Ten words, and the NULL goes to index 10. -/
theorem ten_words_overrun_the_arrays :
    ¬ ∀ (line : List Char) (s : Nat),
      (∀ i ∈ parsExecWrites (getline line) 0 s line.length, i < MAXARGS) ∧
        (MAXARGS ≤ wordsIn (line.drop s) →
          ∃ status, parsExec (getline line) s line.length = .error (.exit status)) := by
  intro h
  exact absurd ((the_arrays_hold_iff "echo 1 2 3 4 5 6 7 8 9\n".toList 0).1.mp (h _ _))
    (by decide +kernel)

end mysh
