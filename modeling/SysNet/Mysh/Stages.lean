-- The parsers read the line through its tokens only. Here they run on the
-- list of tokens, and a tree is a list of stages, each with its words and
-- its redirections. The parsers of the shell do the same on the line.
import SysNet.Mysh.Tokens

namespace mysh

/-! ## Stages -/

/-- One command of a pipeline: its words, and its redirections in the order written. -/
structure Stage where
  args : List Span
  redirs : List (Tok × Span)
deriving DecidableEq, Repr

/-- The `REDIR` node of one redirection. -/
def wrap (r : Tok × Span) (child : Node) : Node :=
  match redirMode r.1 with
  | some (fd, mode) => .redir fd mode child r.2
  | none => child

/-- The first redirection written is the outermost. -/
def Stage.node (st : Stage) : Node := st.redirs.foldr wrap (.exec st.args)

/-- The tree of a pipeline, nested to the right. -/
def pipeline (st : Stage) : List Stage → Node
  | [] => st.node
  | st' :: sts => .pipe st.node (pipeline st' sts)

/-! ## The parsers on tokens -/

/-- What `peak` sees. -/
def front (ts : List (Tok × Span)) : Tok := (ts.head?.map Prod.fst).getD .eol

def takeArgs (args : List Span) : List (Tok × Span) → Except Stop (List Span × List (Tok × Span))
  | [] => .ok (args, [])
  | t :: ts =>
    if t.1 = .x then
      if args.length < MAXARGS then takeArgs (args ++ [t.2]) ts else .error .overrun
    else .ok (args, t :: ts)

def takeRedirs : List (Tok × Span) → Except Stop (List (Tok × Span) × List (Tok × Span))
  | op :: word :: ts =>
    if isRedir op.1 && word.1 = .x then
      if isRedir (front ts) then (takeRedirs ts).map fun r => ((op.1, word.2) :: r.1, r.2)
      else .ok ([(op.1, word.2)], ts)
    else .error (.exit 1)
  | _ => .error (.exit 1)

def takeStage (ts : List (Tok × Span)) : Except Stop (Stage × List (Tok × Span)) :=
  match takeArgs [] ts with
  | .error stop => .error stop
  | .ok (args, ts') =>
    if args.length < MAXARGS then
      if isRedir (front ts') then (takeRedirs ts').map fun r => (⟨args, r.1⟩, r.2)
      else .ok (⟨args, []⟩, ts')
    else .error .overrun

/-! ## What a stage takes -/

/-- The words among the tokens. -/
def words (ts : List (Tok × Span)) : List Span := (ts.filter (·.1 = .x)).map Prod.snd

/-- The classes of the tokens of a stage: how many words, and which operators. -/
abbrev Shape := Nat × List Tok

def stageKinds (a : Shape) : List Tok :=
  List.replicate a.1 .x ++ a.2.flatMap fun op => [op, .x]

def Stage.shape (st : Stage) : Shape := (st.args.length, st.redirs.map Prod.fst)

/-- The words of a stage in the order written. -/
def Stage.spans (st : Stage) : List Span := st.args ++ st.redirs.map Prod.snd

/-- The words have a place in `argv`, with the NULL behind them. -/
structure Short (a : Shape) : Prop where
  args : a.1 < MAXARGS
  ops : ∀ op ∈ a.2, isRedir op = true

/-- The stage is what these tokens say. -/
structure Stage.Covers (st : Stage) (ts : List (Tok × Span)) : Prop where
  kinds : ts.map Prod.fst = stageKinds st.shape
  words : words ts = st.spans
  short : Short st.shape

@[simp] theorem words_append (ts us : List (Tok × Span)) : words (ts ++ us) = words ts ++ words us := by
  simp [words]

@[simp] theorem words_cons (t : Tok × Span) (ts : List (Tok × Span)) :
    words (t :: ts) = if t.1 = .x then t.2 :: words ts else words ts := by
  by_cases h : t.1 = .x <;> simp [words, h]

@[simp] theorem words_nil : words [] = [] := rfl

theorem words_of_all {ws : List (Tok × Span)} (h : ∀ t ∈ ws, t.1 = .x) :
    words ws = ws.map Prod.snd := by
  rw [words, List.filter_eq_self.mpr (by simpa using h)]

theorem kinds_of_all {ws : List (Tok × Span)} (h : ∀ t ∈ ws, t.1 = .x) :
    ws.map Prod.fst = List.replicate ws.length .x := by
  rw [List.eq_replicate_iff]
  refine ⟨List.length_map _, fun k hk => ?_⟩
  obtain ⟨t, ht, rfl⟩ := List.mem_map.mp hk
  exact h t ht

theorem takeArgs_ok {args args' : List Span} {ts rest : List (Tok × Span)}
    (h : takeArgs args ts = .ok (args', rest)) :
    ∃ ws, ts = ws ++ rest ∧ (∀ t ∈ ws, t.1 = .x) ∧ args' = args ++ ws.map Prod.snd := by
  induction ts generalizing args with
  | nil =>
    simp only [takeArgs, Except.ok.injEq, Prod.mk.injEq] at h
    obtain ⟨rfl, rfl⟩ := h
    exact ⟨[], by simp⟩
  | cons t ts ih =>
    simp only [takeArgs] at h
    split at h
    · rename_i hx
      split at h
      · obtain ⟨ws, rfl, hall, rfl⟩ := ih h
        refine ⟨t :: ws, rfl, ?_, by simp⟩
        exact List.forall_mem_cons.mpr ⟨hx, hall⟩
      · cases h
    · simp only [Except.ok.injEq, Prod.mk.injEq] at h
      obtain ⟨rfl, rfl⟩ := h
      exact ⟨[], by simp⟩

theorem takeArgs_error {args : List Span} {ts : List (Tok × Span)} {stop : Stop}
    (h : takeArgs args ts = .error stop) : stop = .overrun := by
  induction ts generalizing args with
  | nil => cases h
  | cons t ts ih =>
    simp only [takeArgs] at h
    split at h
    · split at h
      · exact ih h
      · cases h
        rfl
    · cases h

theorem takeArgs_words {ws rest : List (Tok × Span)} (args : List Span)
    (hws : ∀ t ∈ ws, t.1 = .x) (hlen : args.length + ws.length ≤ MAXARGS)
    (hrest : front rest ≠ .x) :
    takeArgs args (ws ++ rest) = .ok (args ++ ws.map Prod.snd, rest) := by
  induction ws generalizing args with
  | nil =>
    cases rest with
    | nil => simp [takeArgs]
    | cons t rest =>
      have : t.1 ≠ .x := hrest
      simp [takeArgs, this]
  | cons t ws ih =>
    obtain ⟨ht, hall⟩ := List.forall_mem_cons.mp hws
    simp only [List.length_cons] at hlen
    have hlt : args.length < MAXARGS := by omega
    rw [List.cons_append, takeArgs, if_pos ht, if_pos hlt, ih _ hall (by simp; omega)]
    simp

theorem takeRedirs_ok {ts rest rs : List (Tok × Span)} (h : takeRedirs ts = .ok (rs, rest)) :
    ∃ cs, ts = cs ++ rest ∧ cs.map Prod.fst = (rs.map Prod.fst).flatMap (fun op => [op, .x]) ∧
      words cs = rs.map Prod.snd ∧ ∀ r ∈ rs, isRedir r.1 = true := by
  fun_induction takeRedirs ts generalizing rs with
  | case1 op word ts hop hmore ih =>
    simp only [Bool.and_eq_true, decide_eq_true_eq] at hop
    cases hr : takeRedirs ts with
    | error => simp [hr, Except.map] at h
    | ok r =>
      simp only [hr, Except.map, Except.ok.injEq, Prod.mk.injEq] at h
      obtain ⟨rfl, rfl⟩ := h
      obtain ⟨cs, rfl, hkinds, hwords, hall⟩ := ih hr
      have hne : op.1 ≠ .x := by
        rintro hx
        simp [hx, isRedir] at hop
      refine ⟨op :: word :: cs, rfl, by simp [hkinds, hop.2], by simp [hne, hop.2, hwords], ?_⟩
      exact List.forall_mem_cons.mpr ⟨hop.1, hall⟩
  | case2 op word ts hop hmore =>
    simp only [Bool.and_eq_true, decide_eq_true_eq] at hop
    simp only [Except.ok.injEq, Prod.mk.injEq] at h
    obtain ⟨rfl, rfl⟩ := h
    have hne : op.1 ≠ .x := by
      rintro hx
      simp [hx, isRedir] at hop
    exact ⟨[op, word], rfl, by simp [hop.2], by simp [hne, hop.2], by simp [hop.1]⟩
  | case3 => cases h
  | case4 => cases h

/-- A redirection that no word follows. -/
def NoFile (ks : List Tok) : Prop :=
  ∃ op post, ks = op :: post ∧ isRedir op = true ∧ post.head? ≠ some .x

theorem takeRedirs_error {ts : List (Tok × Span)} {stop : Stop} (h : takeRedirs ts = .error stop)
    (hfront : isRedir (front ts) = true) :
    stop = .exit 1 ∧ ∃ ops ks : List Tok,
      ts.map Prod.fst = (ops.flatMap fun op => [op, .x]) ++ ks ∧ NoFile ks ∧
      ∀ op ∈ ops, isRedir op = true := by
  fun_induction takeRedirs ts with
  | case1 op word ts hop hmore ih =>
    simp only [Bool.and_eq_true, decide_eq_true_eq] at hop
    cases hr : takeRedirs ts with
    | ok r => simp [hr, Except.map] at h
    | error stop' =>
      simp only [hr, Except.map, Except.error.injEq] at h
      subst h
      obtain ⟨rfl, ops, ks, hkinds, hno, hall⟩ := ih hr hmore
      refine ⟨rfl, op.1 :: ops, ks, by simp [hkinds, hop.2], hno, ?_⟩
      exact List.forall_mem_cons.mpr ⟨hop.1, hall⟩
  | case2 => cases h
  | case3 op word ts hop =>
    cases h
    have hred : isRedir op.1 = true := hfront
    have hne : word.1 ≠ .x := by simpa [hred] using hop
    exact ⟨rfl, [], _, rfl, ⟨op.1, (word :: ts).map Prod.fst, rfl, hred, by simp [hne]⟩, by simp⟩
  | case4 ts hts =>
    cases h
    rcases ts with _ | ⟨op, _ | ⟨word, ts⟩⟩
    · simp [front, isRedir] at hfront
    · exact ⟨rfl, [], _, rfl, ⟨op.1, [], rfl, hfront, by simp⟩, by simp⟩
    · exact absurd rfl (hts op word ts)

theorem front_of_kinds {ks : List Tok} {ts : List (Tok × Span)} {op : Tok}
    (h : ts.map Prod.fst = op :: ks) : front ts = op := by
  cases ts with
  | nil => simp at h
  | cons t ts => simpa [front] using (List.cons.inj h).1

/-- Redirections up to something else. -/
theorem takeRedirs_kinds {ts : List (Tok × Span)} {op : Tok} {ops ks : List Tok}
    (h : ts.map Prod.fst = ((op :: ops).flatMap fun op => [op, .x]) ++ ks)
    (hops : ∀ r ∈ op :: ops, isRedir r = true) (hks : ∀ k ∈ ks.head?, isRedir k = false) :
    ∃ rs rest, takeRedirs ts = .ok (rs, rest) ∧ rs.map Prod.fst = op :: ops ∧
      rest.map Prod.fst = ks := by
  induction ops generalizing ts op with
  | nil =>
    rcases ts with _ | ⟨t, _ | ⟨w, ts⟩⟩
    · simp at h
    · simp at h
    · simp only [List.flatMap_cons, List.flatMap_nil, List.append_nil, List.map_cons,
        List.cons_append, List.nil_append, List.cons.injEq] at h
      obtain ⟨ht, hw, hts⟩ := h
      have hred : isRedir t.1 = true := ht ▸ hops op List.mem_cons_self
      have hfront : isRedir (front ts) = false := by
        cases ts with
        | nil => rfl
        | cons u ts =>
          apply hks
          simp [← hts, front]
      exact ⟨[(t.1, w.2)], ts, by simp [takeRedirs, hred, hw, hfront], by simp [ht], hts⟩
  | cons op' ops ih =>
    rcases ts with _ | ⟨t, _ | ⟨w, ts⟩⟩
    · simp at h
    · simp at h
    · rw [List.flatMap_cons] at h
      simp only [List.map_cons, List.cons_append, List.nil_append, List.cons.injEq] at h
      obtain ⟨ht, hw, hts⟩ := h
      have hred : isRedir t.1 = true := ht ▸ hops op List.mem_cons_self
      have hfront : isRedir (front ts) = true := by
        rw [front_of_kinds hts]
        exact hops op' (by simp)
      obtain ⟨rs, rest, hrs, hfst, hrest⟩ := ih hts fun r hr => hops r (List.mem_cons_of_mem _ hr)
      refine ⟨(t.1, w.2) :: rs, rest, ?_, by simp [ht, hfst], hrest⟩
      simp [takeRedirs, hred, hw, hfront, hrs, Except.map]

/-- Redirections up to one without a file. -/
theorem takeRedirs_noFile {ts : List (Tok × Span)} {ops ks : List Tok}
    (h : ts.map Prod.fst = (ops.flatMap fun op => [op, .x]) ++ ks)
    (hops : ∀ r ∈ ops, isRedir r = true) (hks : NoFile ks) :
    takeRedirs ts = .error (.exit 1) ∧ isRedir (front ts) = true := by
  induction ops generalizing ts with
  | nil =>
    obtain ⟨op, post, rfl, hred, hpost⟩ := hks
    refine ⟨?_, by rw [front_of_kinds h]; exact hred⟩
    rcases ts with _ | ⟨t, _ | ⟨w, ts⟩⟩
    · simp at h
    · simp [takeRedirs]
    · simp only [List.flatMap_nil, List.nil_append, List.map_cons, List.cons.injEq] at h
      have hw : w.1 ≠ .x := by simpa [← h.2] using hpost
      simp [takeRedirs, hw]
  | cons op ops ih =>
    rw [List.flatMap_cons] at h
    refine ⟨?_, by rw [front_of_kinds h]; exact hops op List.mem_cons_self⟩
    rcases ts with _ | ⟨t, _ | ⟨w, ts⟩⟩
    · simp at h
    · simp at h
    · simp only [List.map_cons, List.cons_append, List.nil_append, List.cons.injEq] at h
      obtain ⟨ht, hw, hts⟩ := h
      have hred : isRedir t.1 = true := ht ▸ hops op List.mem_cons_self
      obtain ⟨herr, hfront⟩ := ih hts fun r hr => hops r (List.mem_cons_of_mem _ hr)
      simp [takeRedirs, hred, hw, hfront, herr, Except.map]

theorem takeStage_ok {ts rest : List (Tok × Span)} {st : Stage}
    (h : takeStage ts = .ok (st, rest)) : ∃ cs, ts = cs ++ rest ∧ st.Covers cs := by
  unfold takeStage at h
  cases ha : takeArgs [] ts with
  | error => simp [ha] at h
  | ok r =>
    obtain ⟨args, ts'⟩ := r
    obtain ⟨ws, rfl, hws, rfl⟩ := takeArgs_ok ha
    simp only [ha, List.nil_append] at h
    split at h
    · rename_i hlen
      rw [List.length_map] at hlen
      split at h
      · cases hr : takeRedirs ts' with
        | error => simp [hr, Except.map] at h
        | ok r =>
          simp only [hr, Except.map, Except.ok.injEq, Prod.mk.injEq] at h
          obtain ⟨rfl, rfl⟩ := h
          obtain ⟨cs, rfl, hkinds, hwords, hall⟩ := takeRedirs_ok hr
          refine ⟨ws ++ cs, (List.append_assoc ..).symm, ?_, ?_, ⟨by simpa [Stage.shape], ?_⟩⟩
          · simp [stageKinds, Stage.shape, kinds_of_all hws, hkinds]
          · simp [Stage.spans, words_of_all hws, hwords]
          · simpa [Stage.shape] using fun op b hmem => hall (op, b) hmem
      · simp only [Except.ok.injEq, Prod.mk.injEq] at h
        obtain ⟨rfl, rfl⟩ := h
        refine ⟨ws, rfl, ?_, ?_, ⟨by simpa [Stage.shape], by simp [Stage.shape]⟩⟩
        · simp [stageKinds, Stage.shape, kinds_of_all hws]
        · simp [Stage.spans, words_of_all hws]
    · cases h

theorem takeStage_error {ts : List (Tok × Span)} {stop : Stop} (h : takeStage ts = .error stop) :
    stop = .overrun ∨ stop = .exit 1 ∧ ∃ a ks, ts.map Prod.fst = stageKinds a ++ ks ∧
      NoFile ks ∧ Short a := by
  unfold takeStage at h
  cases ha : takeArgs [] ts with
  | error =>
    simp only [ha, Except.error.injEq] at h
    exact Or.inl (h ▸ takeArgs_error ha)
  | ok r =>
    obtain ⟨args, ts'⟩ := r
    obtain ⟨ws, rfl, hws, rfl⟩ := takeArgs_ok ha
    simp only [ha, List.nil_append] at h
    split at h
    · rename_i hlen
      rw [List.length_map] at hlen
      split at h
      · rename_i hfront
        cases hr : takeRedirs ts' with
        | ok r => simp [hr, Except.map] at h
        | error =>
          simp only [hr, Except.map, Except.error.injEq] at h
          subst h
          obtain ⟨rfl, ops, ks, hkinds, hno, hall⟩ := takeRedirs_error hr hfront
          refine Or.inr ⟨rfl, (ws.length, ops), ks, ?_, hno, ⟨hlen, hall⟩⟩
          simp [stageKinds, kinds_of_all hws, hkinds]
      · cases h
    · cases h
      exact Or.inl rfl

/-- The tokens of a stage begin with its words. -/
theorem stage_words {ts : List (Tok × Span)} {a : Shape} {ks : List Tok}
    (h : ts.map Prod.fst = stageKinds a ++ ks) :
    ∃ ws us, ts = ws ++ us ∧ (∀ t ∈ ws, t.1 = .x) ∧ ws.length = a.1 ∧
      us.map Prod.fst = (a.2.flatMap fun op => [op, .x]) ++ ks := by
  rw [stageKinds, List.append_assoc] at h
  obtain ⟨ws, us, rfl, hws, hus⟩ := List.map_eq_append_iff.mp h
  rw [List.eq_replicate_iff] at hws
  refine ⟨ws, us, rfl, fun t ht => hws.2 _ (List.mem_map_of_mem ht), ?_, hus⟩
  rw [← hws.1, List.length_map]

theorem takeStage_kinds {ts : List (Tok × Span)} {a : Shape} {ks : List Tok}
    (h : ts.map Prod.fst = stageKinds a ++ ks) (ha : Short a)
    (hks : ∀ k ∈ ks.head?, k ≠ .x ∧ isRedir k = false) :
    ∃ st rest, takeStage ts = .ok (st, rest) ∧ st.shape = a ∧ rest.map Prod.fst = ks := by
  obtain ⟨ws, us, rfl, hws, hlen, hus⟩ := stage_words h
  obtain ⟨w, ops⟩ := a
  have hw : ws.length < MAXARGS := hlen ▸ ha.args
  cases ops with
  | nil =>
    simp only [List.flatMap_nil, List.nil_append] at hus
    have hfront : front us ≠ .x ∧ isRedir (front us) = false := by
      cases us with
      | nil => simp [front, isRedir]
      | cons u us => exact hks u.1 (by simp [← hus])
    refine ⟨⟨ws.map Prod.snd, []⟩, us, ?_, by simpa [Stage.shape] using hlen, hus⟩
    rw [takeStage, takeArgs_words [] hws (by simp; omega) hfront.1]
    simp [hw, hfront.2]
  | cons op ops =>
    have hop : isRedir op = true := ha.ops op List.mem_cons_self
    have hfront : front us = op := by
      rw [List.flatMap_cons] at hus
      exact front_of_kinds hus
    have hne : front us ≠ .x := by
      rw [hfront]
      rintro rfl
      simp [isRedir] at hop
    obtain ⟨rs, rest, hrs, hfst, hrest⟩ := takeRedirs_kinds hus ha.ops fun k hk => (hks k hk).2
    refine ⟨⟨ws.map Prod.snd, rs⟩, rest, ?_, by simp [Stage.shape, hlen, hfst], hrest⟩
    rw [takeStage, takeArgs_words [] hws (by simp; omega) hne]
    simp [hw, hfront, hop, hrs, Except.map]

theorem takeStage_noFile {ts : List (Tok × Span)} {a : Shape} {ks : List Tok}
    (h : ts.map Prod.fst = stageKinds a ++ ks) (ha : Short a) (hks : NoFile ks) :
    takeStage ts = .error (.exit 1) := by
  obtain ⟨ws, us, rfl, hws, hlen, hus⟩ := stage_words h
  have hw : ws.length < MAXARGS := hlen ▸ ha.args
  obtain ⟨herr, hfront⟩ := takeRedirs_noFile hus ha.ops hks
  have hne : front us ≠ .x := by
    intro hx
    simp [hx, isRedir] at hfront
  rw [takeStage, takeArgs_words [] hws (by simp; omega) hne]
  simp [hw, hfront, herr, Except.map]

/-! ## What a pipeline takes -/

def takePipeline (ts : List (Tok × Span)) :
    Except Stop ((Stage × List Stage) × List (Tok × Span)) :=
  match _ : takeStage ts with
  | .error stop => .error stop
  | .ok (st, ts') =>
    if front ts' = .pipe then
      (takePipeline ts'.tail).map fun r => ((st, r.1.1 :: r.1.2), r.2)
    else .ok ((st, []), ts')
termination_by ts.length
decreasing_by
  obtain ⟨cs, rfl, -⟩ := takeStage_ok ‹_›
  have hfront : front ts' = .pipe := ‹_›
  cases ts' with
  | nil => simp [front] at hfront
  | cons t ts' =>
    simp only [List.tail_cons, List.length_append, List.length_cons]
    omega

def pipelineKinds (a : Shape) : List Shape → List Tok
  | [] => stageKinds a
  | b :: as => stageKinds a ++ .pipe :: pipelineKinds b as

theorem takePipeline_ok {ts rest : List (Tok × Span)} {st : Stage} {sts : List Stage}
    (h : takePipeline ts = .ok ((st, sts), rest)) :
    ts.map Prod.fst = pipelineKinds st.shape (sts.map Stage.shape) ++ rest.map Prod.fst ∧
      words ts = (st :: sts).flatMap Stage.spans ++ words rest ∧
      ∀ q ∈ st :: sts, Short q.shape := by
  fun_induction takePipeline ts generalizing st sts with
  | case1 => cases h
  | case2 ts st' ts' hst hfront ih =>
    obtain ⟨cs, rfl, hc⟩ := takeStage_ok hst
    obtain ⟨t, us, rfl⟩ : ∃ t us, ts' = t :: us := by
      cases ts' with
      | nil => simp [front] at hfront
      | cons t us => exact ⟨t, us, rfl⟩
    have ht : t.1 = .pipe := hfront
    cases hr : takePipeline us with
    | error => simp [hr, Except.map] at h
    | ok r =>
      simp only [List.tail_cons] at ih
      simp only [List.tail_cons, hr, Except.map, Except.ok.injEq, Prod.mk.injEq] at h
      obtain ⟨⟨rfl, rfl⟩, rfl⟩ := h
      obtain ⟨hkinds, hwords, hshort⟩ := ih hr
      refine ⟨?_, ?_, ?_⟩
      · simp [pipelineKinds, hc.kinds, ht, hkinds]
      · simp [hc.words, ht, hwords]
      · exact List.forall_mem_cons.mpr ⟨hc.short, hshort⟩
  | case3 ts st' ts' hst hfront =>
    simp only [Except.ok.injEq, Prod.mk.injEq] at h
    obtain ⟨⟨rfl, rfl⟩, rfl⟩ := h
    obtain ⟨cs, rfl, hc⟩ := takeStage_ok hst
    refine ⟨by simp [pipelineKinds, hc.kinds], by simp [hc.words], by simpa using hc.short⟩

/-- The first thing that is wrong is a redirection without a file. -/
def Refused (ks : List Tok) : Prop :=
  ∃ a as ks', ks = pipelineKinds a as ++ ks' ∧ NoFile ks' ∧ ∀ b ∈ a :: as, Short b

theorem takePipeline_error {ts : List (Tok × Span)} {stop : Stop}
    (h : takePipeline ts = .error stop) :
    stop = .overrun ∨ stop = .exit 1 ∧ Refused (ts.map Prod.fst) := by
  fun_induction takePipeline ts with
  | case1 ts stop' hst =>
    cases h
    refine (takeStage_error hst).imp_right ?_
    rintro ⟨rfl, a, ks, hkinds, hno, ha⟩
    exact ⟨rfl, a, [], ks, hkinds, hno, by simpa using ha⟩
  | case2 ts st ts' hst hfront ih =>
    obtain ⟨cs, rfl, hc⟩ := takeStage_ok hst
    obtain ⟨t, us, rfl⟩ : ∃ t us, ts' = t :: us := by
      cases ts' with
      | nil => simp [front] at hfront
      | cons t us => exact ⟨t, us, rfl⟩
    have ht : t.1 = .pipe := hfront
    cases hr : takePipeline us with
    | ok r => simp [hr, Except.map] at h
    | error stop' =>
      simp only [List.tail_cons] at ih
      simp only [List.tail_cons, hr, Except.map, Except.error.injEq] at h
      subst h
      refine (ih hr).imp_right ?_
      rintro ⟨rfl, a, as, ks, hkinds, hno, hall⟩
      refine ⟨rfl, st.shape, a :: as, ks, ?_, hno, List.forall_mem_cons.mpr ⟨hc.short, hall⟩⟩
      simp [pipelineKinds, hc.kinds, ht, hkinds]
  | case3 => cases h

theorem takePipeline_kinds {ts : List (Tok × Span)} {a : Shape} {as : List Shape}
    (h : ts.map Prod.fst = pipelineKinds a as) (hall : ∀ b ∈ a :: as, Short b) :
    ∃ st sts, takePipeline ts = .ok ((st, sts), []) ∧ st.shape = a ∧ sts.map Stage.shape = as := by
  induction as generalizing ts a with
  | nil =>
    rw [pipelineKinds, ← List.append_nil (stageKinds a)] at h
    obtain ⟨st, rest, hst, hshape, hrest⟩ := takeStage_kinds h (hall a List.mem_cons_self) (by simp)
    obtain rfl : rest = [] := List.map_eq_nil_iff.mp hrest
    refine ⟨st, [], ?_, hshape, rfl⟩
    rw [takePipeline, hst]
    simp [front]
  | cons b as ih =>
    obtain ⟨st, rest, hst, hshape, hrest⟩ := takeStage_kinds h (hall a List.mem_cons_self)
      (by simp [isRedir])
    have htail : rest.tail.map Prod.fst = pipelineKinds b as := by
      rw [List.map_tail, hrest, List.tail_cons]
    obtain ⟨st', sts, hrec, rfl, rfl⟩ := ih htail fun q hq => hall q (List.mem_cons_of_mem _ hq)
    refine ⟨st, st' :: sts, ?_, hshape, rfl⟩
    rw [takePipeline, hst]
    simp [front_of_kinds hrest, hrec, Except.map]

theorem takePipeline_refused {ts : List (Tok × Span)} (h : Refused (ts.map Prod.fst)) :
    takePipeline ts = .error (.exit 1) := by
  obtain ⟨a, as, ks, hkinds, hno, hall⟩ := h
  induction as generalizing ts a with
  | nil =>
    rw [takePipeline, takeStage_noFile hkinds (hall a List.mem_cons_self) hno]
  | cons b as ih =>
    rw [pipelineKinds, List.append_assoc] at hkinds
    obtain ⟨st, rest, hst, hshape, hrest⟩ := takeStage_kinds hkinds (hall a List.mem_cons_self)
      (by simp [isRedir])
    have htail : rest.tail.map Prod.fst = pipelineKinds b as ++ ks := by
      rw [List.map_tail, hrest, List.cons_append, List.tail_cons]
    have hrec := ih b htail fun q hq => hall q (List.mem_cons_of_mem _ hq)
    rw [takePipeline, hst]
    simp [front_of_kinds hrest, hrec, Except.map]

/-! ## The shell's parsers do the same -/

/-- A parser on the line did what the parser on tokens did: it stopped the
same way, or it gave the same node and left the cursor at the tokens left. -/
def Sees {α β : Type} (buf : Buf) (e : Nat) (f : α → β) :
    Except Stop (α × List (Tok × Span)) → Except Stop (β × Nat) → Prop
  | .error stop, r => r = .error stop
  | .ok (a, ts), r => ∃ s, r = .ok (f a, s) ∧ Cursor buf s e ∧ scan buf s e = ts

theorem front_scan {buf : Buf} {s e : Nat} (h : Cursor buf s e) :
    peak buf s e = front (scan buf s e) := peak_eq h

theorem redirMode_isSome (t : Tok) : (redirMode t).isSome = isRedir t := by
  cases t <;> rfl

theorem sees_parsArgs {buf : Buf} {e : Nat} (args : List Span) {s : Nat} (h : Cursor buf s e) :
    Sees buf e id (takeArgs args (scan buf s e)) (parsArgs buf args s e) := by
  induction hn : e - s using Nat.strong_induction_on generalizing s args with
  | _ n ih =>
    rcases Nat.lt_or_ge s e with hlt | hge
    · have hnext := @lt_next buf s e hlt
      have hpeak := front_scan h
      rw [scan_cons hlt] at hpeak ⊢
      rw [parsArgs, hpeak]
      simp only [front, List.head?_cons, Option.map_some, Option.getD_some, takeArgs]
      by_cases hx : (gettoken buf s e).tok = .x
      · have heol : (gettoken buf s e).tok ≠ .eol := by simp [hx]
        simp only [hx, if_true, reduceCtorEq, if_false]
        split
        · exact ih _ (by omega) _ (Cursor.next hlt h.bound) rfl
        · rfl
      · simp only [hx, if_false]
        exact ⟨s, rfl, h, scan_cons hlt⟩
    · have hpeak := front_scan h
      rw [scan_of_le hge] at hpeak ⊢
      rw [parsArgs, hpeak]
      exact ⟨s, by simp [front], h, scan_of_le hge⟩

theorem sees_parseRedir {buf : Buf} {e : Nat} (child : Node) {s : Nat} (h : Cursor buf s e) :
    Sees buf e (List.foldr wrap child) (takeRedirs (scan buf s e)) (parseRedir buf child s e) := by
  induction hn : e - s using Nat.strong_induction_on generalizing s with
  | _ n ih =>
    rcases Nat.lt_or_ge s e with hlt | hge
    · have h1 := Cursor.next hlt h.bound
      have hnext := @lt_next buf s e hlt
      rw [parseRedir, scan_cons hlt]
      set op := gettoken buf s e with hop
      rcases Nat.lt_or_ge op.next e with hlt' | hge'
      · have h2 := Cursor.next hlt' h.bound
        have hnext' := @lt_next buf _ e hlt'
        rw [scan_cons hlt']
        set word := gettoken buf op.next e with hword
        have hmode := redirMode_isSome op.tok
        rcases hr : redirMode op.tok with _ | ⟨fd, mode⟩
        · rw [hr] at hmode
          simp [takeRedirs, ← hmode, Sees]
        · rw [hr] at hmode
          simp only [takeRedirs, ← hmode, Option.isSome_some, Bool.true_and, decide_eq_true_eq]
          by_cases hx : word.tok = .x
          · simp only [hx, if_true, front_scan h2]
            split
            · have hrec := ih _ (by omega) h2 rfl
              cases ht : takeRedirs (scan buf word.next e) with
              | error stop =>
                rw [ht] at hrec
                simp only [Sees] at hrec
                simp [hrec, Except.map, Sees]
              | ok r =>
                rw [ht] at hrec
                obtain ⟨s', hs', hc, hscan⟩ := hrec
                exact ⟨s', by simp [hs', Except.map, wrap, hr], hc, hscan⟩
            · exact ⟨word.next, by simp [wrap, hr], h2, rfl⟩
          · simp [hx, Sees]
      · have hword : (gettoken buf op.next e).tok = .eol := by simp [gettoken, hge']
        rw [scan_of_le hge']
        rcases redirMode op.tok with _ | ⟨fd, mode⟩ <;> simp [takeRedirs, Sees, hword]
    · have hop : (gettoken buf s e).tok = .eol := by simp [gettoken, hge]
      rw [scan_of_le hge, parseRedir]
      simp [takeRedirs, Sees, hop, redirMode]

theorem sees_parsExec {buf : Buf} {s e : Nat} {ts : List (Tok × Span)}
    (hargs : Sees buf e id (takeArgs [] ts) (parsArgs buf [] s e)) :
    Sees buf e Stage.node (takeStage ts) (parsExec buf s e) := by
  unfold takeStage parsExec
  cases ht : takeArgs [] ts with
  | error stop =>
    rw [ht] at hargs
    simp only [Sees] at hargs
    simp [hargs, Sees]
  | ok r =>
    rw [ht] at hargs
    obtain ⟨s', hs', hc, hscan⟩ := hargs
    simp only [hs', id_eq, front_scan hc, hscan]
    split
    · split
      · have hrec := sees_parseRedir (.exec r.1) hc
        rw [hscan] at hrec
        cases hr : takeRedirs r.2 with
        | error stop =>
          rw [hr] at hrec
          exact hrec
        | ok q =>
          rw [hr] at hrec
          exact hrec
      · exact ⟨s', rfl, hc, hscan⟩
    · rfl

/-- The first stage may start where white space still stands in front of it. -/
theorem sees_parsePipe {buf : Buf} {s e : Nat} {ts : List (Tok × Span)} (he : e ≤ buf.length)
    (hargs : Sees buf e id (takeArgs [] ts) (parsArgs buf [] s e)) :
    Sees buf e (fun q => pipeline q.1 q.2) (takePipeline ts) (parsePipe buf s e) := by
  induction hn : e - s using Nat.strong_induction_on generalizing s ts with
  | _ n ih =>
    have hstage := sees_parsExec hargs
    cases hst : takeStage ts with
    | error stop =>
      rw [hst] at hstage
      have herr : parsExec buf s e = .error stop := hstage
      rw [takePipeline, hst, parsePipe, herr]
      rfl
    | ok r =>
      obtain ⟨st, ts'⟩ := r
      rw [hst] at hstage
      obtain ⟨s', hs', hc, hscan⟩ := hstage
      have hle := parsExec_le hs'
      rw [takePipeline, hst, parsePipe, hs']
      simp only [front_scan hc, hscan]
      by_cases hp : front ts' = .pipe
      · have hlt : s' < e := lt_of_peak (by rw [front_scan hc, hscan, hp]; decide)
        have hnext := @lt_next buf s' e hlt
        have htail : ts'.tail = scan buf (gettoken buf s' e).next e := by
          rw [← hscan, scan_cons hlt, List.tail_cons]
        have hrec := ih _ (by omega) (sees_parsArgs [] (Cursor.next hlt he)) rfl
        simp only [hp, if_true, htail]
        cases hr : takePipeline (scan buf (gettoken buf s' e).next e) with
        | error stop =>
          rw [hr] at hrec
          simp only [Sees] at hrec
          simp [hrec, Except.map, Sees]
        | ok r =>
          rw [hr] at hrec
          obtain ⟨s'', hs'', hc', hscan'⟩ := hrec
          exact ⟨s'', by simp [hs'', Except.map, pipeline], hc', hscan'⟩
      · simp only [hp, if_false]
        exact ⟨s', rfl, hc, hscan⟩

/-! ## A line that begins with white space -/

section
variable {buf : Buf} {e : Nat}

/-- The token there is an empty word, and the cursor comes to the first token. -/
theorem gettoken_space {s : Nat} (h : s < e) (hsp : isspace (deref buf s) = true) :
    gettoken buf s e = ⟨.x, ⟨s, s⟩, advance isspace buf (e - s) s⟩ := by
  have hstop : advance (fun c => !isspace c) buf (e - s) s = s := by
    obtain ⟨n, hn⟩ := Nat.exists_eq_succ_of_ne_zero (Nat.ne_of_gt (Nat.sub_pos_of_lt h))
    rw [hn]
    simp [advance, hsp]
  have hclass : classify buf s e = .x := by
    have h1 : deref buf s ≠ '|' ∧ deref buf s ≠ '<' ∧ deref buf s ≠ '>' := by
      refine ⟨?_, ?_, ?_⟩ <;> (intro heq; simp [heq, isspace] at hsp)
    simp [classify, h1]
  simp only [gettoken, Nat.not_le.mpr h, if_false, hstop, hclass]

theorem peak_space {s : Nat} (he : e ≤ buf.length) (h : s < e)
    (hsp : isspace (deref buf s) = true) :
    peak buf s e = front (scan buf (gettoken buf s e).next e) := by
  have hc := Cursor.next h he
  have hnext : (gettoken buf s e).next = advance isspace buf (e - s) s := by
    rw [gettoken_space h hsp]
  have hstay : advance isspace buf (e - (gettoken buf s e).next) (gettoken buf s e).next =
      (gettoken buf s e).next := by
    rw [advance_eq isspace hc.le he]
    rcases hsl : slice buf (gettoken buf s e).next e with _ | ⟨c, cs⟩
    · rfl
    · have hc' : isspace c = false := hc.settled c (by rw [hsl]; rfl)
      simp [hc']
  rw [← front_scan hc, peak, peak, hstay, hnext]

/-- An empty word in front of the line. -/
theorem sees_space_word {s : Nat} (he : e ≤ buf.length) (h : s < e)
    (hsp : isspace (deref buf s) = true)
    (hfront : front (scan buf (gettoken buf s e).next e) = .x) :
    Sees buf e id (takeArgs [] ((.x, ⟨s, s⟩) :: scan buf (gettoken buf s e).next e))
      (parsArgs buf [] s e) := by
  have hrec := sees_parsArgs [⟨s, s⟩] (Cursor.next h he)
  rw [parsArgs, peak_space he h hsp, hfront]
  rw [gettoken_space h hsp] at hrec ⊢
  exact hrec

/-- A redirection is not seen as one behind the white space. -/
theorem parsePipe_space_redir {s : Nat} (he : e ≤ buf.length) (h : s < e)
    (hsp : isspace (deref buf s) = true)
    (hfront : isRedir (front (scan buf (gettoken buf s e).next e)) = true) :
    parsePipe buf s e = .error (.exit 1) := by
  have hne : front (scan buf (gettoken buf s e).next e) ≠ .x := by
    intro hx
    simp [hx, isRedir] at hfront
  have hpeak := peak_space he h hsp
  have hargs : parsArgs buf [] s e = .ok ([], s) := by rw [parsArgs, hpeak, if_neg hne]
  have hexec : parsExec buf s e = .error (.exit 1) := by
    rw [parsExec, hargs]
    simp only [hpeak, hfront, if_true]
    rw [parseRedir, gettoken_space h hsp]
    rfl
  rw [parsePipe, hexec]

/-- A `|` behind the white space counts twice. -/
theorem parsePipe_space_pipe {s : Nat} (he : e ≤ buf.length) (h : s < e)
    (hsp : isspace (deref buf s) = true)
    (hfront : front (scan buf (gettoken buf s e).next e) = .pipe) :
    parsePipe buf s e = (parsePipe buf (gettoken buf s e).next e).map
      fun r => (.pipe (.exec []) r.1, r.2) := by
  have hpeak : peak buf s e = .pipe := by rw [peak_space he h hsp, hfront]
  have hexec : parsExec buf s e = .ok (.exec [], s) := by
    rw [parsExec, parsArgs, hpeak]
    simp [hpeak, isRedir, MAXARGS]
  rw [parsePipe, hexec]
  simp [hpeak]

theorem parsePipe_space_eol {s : Nat} (hpeak : peak buf s e = .eol) :
    parsePipe buf s e = .ok (.exec [], s) := by
  have hexec : parsExec buf s e = .ok (.exec [], s) := by
    rw [parsExec, parsArgs, hpeak]
    simp [hpeak, isRedir, MAXARGS]
  rw [parsePipe, hexec]
  simp [hpeak]

end

end mysh
