-- What the scanner makes of a line. The text between the cursor and `end`
-- is a list of characters, and `gettoken` takes a run of it up to the next
-- white space. The claims about the parsers are about these runs.
import Mathlib.Data.List.TakeWhile
import SysNet.Mysh.Shell

namespace mysh

/-! ## The text in front of the cursor -/

/-- The characters from `s` up to `e`. -/
def slice (buf : Buf) (s e : Nat) : List Char := (buf.take e).drop s

def nonspace (c : Char) : Bool := !isspace c

/-- The text does not begin with white space. -/
def Settled (l : List Char) : Prop := ∀ c ∈ l.head?, isspace c = false

theorem slice_of_le {buf : Buf} {s e : Nat} (h : e ≤ s) : slice buf s e = [] := by
  apply List.drop_eq_nil_of_le
  rw [List.length_take]
  omega

theorem slice_cons {buf : Buf} {s e : Nat} (h : s < e) (he : e ≤ buf.length) :
    slice buf s e = deref buf s :: slice buf (s + 1) e := by
  have hs : s < (buf.take e).length := by
    rw [List.length_take]
    omega
  have hlt : s < buf.length := by omega
  unfold slice
  rw [List.drop_eq_getElem_cons hs]
  simp [deref, List.getD, List.getElem?_eq_getElem hlt]

theorem slice_getline (line : List Char) : slice (getline line) 0 line.length = line := by
  simp [slice, getline]

theorem advance_eq (p : Char → Bool) {buf : Buf} {s e : Nat} (hs : s ≤ e) (he : e ≤ buf.length) :
    advance p buf (e - s) s = s + ((slice buf s e).takeWhile p).length := by
  induction hn : e - s generalizing s with
  | zero =>
    rw [slice_of_le (by omega)]
    rfl
  | succ n ih =>
    rw [slice_cons (by omega) he]
    unfold advance
    cases hp : p (deref buf s) with
    | true =>
      simp only [if_true, List.takeWhile_cons, hp, List.length_cons]
      rw [ih (by omega) (by omega)]
      omega
    | false => simp [hp]

theorem slice_advance (p : Char → Bool) {buf : Buf} {s e : Nat} (hs : s ≤ e)
    (he : e ≤ buf.length) :
    slice buf (advance p buf (e - s) s) e = (slice buf s e).dropWhile p := by
  have hdrop := @List.drop_left _ ((slice buf s e).takeWhile p) ((slice buf s e).dropWhile p)
  rw [List.takeWhile_append_dropWhile] at hdrop
  rw [advance_eq p hs he, ← hdrop]
  simp only [slice, List.drop_drop]

theorem slice_to_advance (p : Char → Bool) {buf : Buf} {s e : Nat} (hs : s ≤ e)
    (he : e ≤ buf.length) :
    slice buf s (advance p buf (e - s) s) = (slice buf s e).takeWhile p := by
  have hle := advance_le p buf (e - s) s
  have htake : slice buf s (advance p buf (e - s) s) =
      (slice buf s e).take (advance p buf (e - s) s - s) := by
    simp only [slice]
    rw [← List.drop_take, List.take_take]
    congr 2
    omega
  rw [htake, advance_eq p hs he, Nat.add_sub_cancel_left]
  exact List.prefix_iff_eq_take.mp (List.takeWhile_prefix p) |>.symm

/-! ## One token -/

/-- The class of a run of characters, by its first two. -/
def kind (w : List Char) : Tok :=
  if w.head? = some '|' then .pipe
  else if w.head? = some '<' then .lt
  else if w.head? = some '>' then
    if w.tail.head? = some '>' then .plus else .gt
  else .x

theorem classify_eq {buf : Buf} {s e : Nat} (h : s < e) (he : e ≤ buf.length) :
    classify buf s e = kind (slice buf s e) := by
  rw [slice_cons h he]
  rcases Nat.lt_or_ge (s + 1) e with h1 | h1
  · rw [slice_cons h1 he]
    simp [classify, kind, h1]
  · rw [slice_of_le h1]
    simp [classify, kind, Nat.not_lt.mpr h1]

/-- The two characters that decide are no white space, so the run decides like the text. -/
theorem kind_takeWhile (l : List Char) : kind (l.takeWhile nonspace) = kind l := by
  rcases l with _ | ⟨a, _ | ⟨b, l⟩⟩
  · rfl
  · cases ha : nonspace a with
    | true => simp [kind, ha]
    | false =>
      have h1 : a ≠ '|' ∧ a ≠ '<' ∧ a ≠ '>' := by
        refine ⟨?_, ?_, ?_⟩ <;> (rintro rfl; simp [nonspace, isspace] at ha)
      simp [kind, ha, h1]
  · cases ha : nonspace a with
    | true =>
      cases hb : nonspace b with
      | true => simp [kind, ha, hb]
      | false =>
        have h1 : b ≠ '>' := by
          rintro rfl
          simp [nonspace, isspace] at hb
        simp [kind, ha, hb, h1]
    | false =>
      have h1 : a ≠ '|' ∧ a ≠ '<' ∧ a ≠ '>' := by
        refine ⟨?_, ?_, ?_⟩ <;> (rintro rfl; simp [nonspace, isspace] at ha)
      simp [kind, ha, h1]

/-- What `gettoken` does before the end of the line. -/
structure Taken (buf : Buf) (s e : Nat) (t : Token) : Prop where
  start : t.span.start = s
  word : slice buf s t.span.stop = (slice buf s e).takeWhile nonspace
  tok : t.tok = kind (slice buf s t.span.stop)
  stop_le : t.span.stop ≤ e
  next_le : t.next ≤ e
  rest : slice buf t.next e = ((slice buf s e).dropWhile nonspace).dropWhile isspace
  gap : t.span.stop < t.next ∨ t.next = e

theorem gettoken_taken {buf : Buf} {s e : Nat} (h : s < e) (he : e ≤ buf.length) :
    Taken buf s e (gettoken buf s e) := by
  have hstop := advance_le nonspace buf (e - s) s
  have hword := slice_to_advance nonspace (Nat.le_of_lt h) he
  have hrest := slice_advance nonspace (Nat.le_of_lt h) he
  set stop := advance nonspace buf (e - s) s with hdef
  have hle : stop ≤ e := by omega
  have htok : gettoken buf s e =
      ⟨classify buf s e, ⟨s, stop⟩, advance isspace buf (e - stop) stop⟩ := by
    simp only [gettoken, Nat.not_le.mpr h, if_false]
    rfl
  rw [htok]
  refine ⟨rfl, hword, ?_, hle, ?_, ?_, ?_⟩
  · rw [hword, kind_takeWhile, classify_eq h he]
  · have := advance_le isspace buf (e - stop) stop
    simp only
    omega
  · rw [slice_advance isspace hle he, hrest]
  · -- before the end the run stops at white space, which is then passed
    rcases Nat.lt_or_ge stop e with hlt | hge
    · left
      apply lt_advance (Nat.sub_pos_of_lt hlt)
      rw [slice_cons hlt he] at hrest
      have hd := List.head?_dropWhile_not nonspace (slice buf s e)
      rw [← hrest] at hd
      simpa [nonspace] using hd
    · right
      have := advance_le isspace buf (e - stop) stop
      have := le_advance isspace buf (e - stop) stop
      simp only
      omega

theorem settled_dropWhile (l : List Char) : Settled (l.dropWhile isspace) := by
  intro c hc
  have := List.head?_dropWhile_not isspace l
  rw [Option.mem_def.mp hc] at this
  simpa using this

/-! ## The runs of a text -/

/-- The longest runs of characters that are not white space. -/
def chunks : List Char → List (List Char)
  | [] => []
  | c :: cs =>
    if isspace c then chunks cs
    else (c :: cs.takeWhile nonspace) :: chunks (cs.dropWhile nonspace)
termination_by l => l.length
decreasing_by
  · simp
  · have := (List.dropWhile_suffix nonspace : cs.dropWhile nonspace <:+ cs).length_le
    simp only [List.length_cons]
    omega

theorem chunks_dropWhile (l : List Char) : chunks (l.dropWhile isspace) = chunks l := by
  induction l with
  | nil => rfl
  | cons c cs ih =>
    cases hc : isspace c with
    | true =>
      rw [List.dropWhile_cons_of_pos hc, ih]
      simp [chunks, hc]
    | false => rw [List.dropWhile_cons_of_neg (by simp [hc])]

theorem chunks_settled {l : List Char} (h : Settled l) (hl : l ≠ []) :
    chunks l = l.takeWhile nonspace :: chunks (l.dropWhile nonspace) := by
  obtain ⟨c, cs, rfl⟩ := List.exists_cons_of_ne_nil hl
  have hc : isspace c = false := h c rfl
  have hn : nonspace c = true := by simp [nonspace, hc]
  rw [chunks]
  simp [hc, hn]

/-- The tokens that `gettoken` gives one after another up to the end. -/
def scan (buf : Buf) (s e : Nat) : List (Tok × Span) :=
  if s < e then
    ((gettoken buf s e).tok, (gettoken buf s e).span) :: scan buf (gettoken buf s e).next e
  else []
termination_by e - s
decreasing_by
  have := @lt_next buf s e ‹_›
  omega

theorem scan_cons {buf : Buf} {s e : Nat} (h : s < e) :
    scan buf s e =
      ((gettoken buf s e).tok, (gettoken buf s e).span) :: scan buf (gettoken buf s e).next e := by
  rw [scan, if_pos h]

theorem scan_of_le {buf : Buf} {s e : Nat} (h : e ≤ s) : scan buf s e = [] := by
  rw [scan, if_neg (by omega)]

/-- A cursor that stands where a token can start, or at the end. -/
structure Cursor (buf : Buf) (s e : Nat) : Prop where
  le : s ≤ e
  bound : e ≤ buf.length
  settled : Settled (slice buf s e)

theorem Cursor.next {buf : Buf} {s e : Nat} (h : s < e) (he : e ≤ buf.length) :
    Cursor buf (gettoken buf s e).next e := by
  have ht := gettoken_taken h he
  refine ⟨ht.next_le, he, ?_⟩
  rw [ht.rest]
  exact settled_dropWhile _

/-- The runs of the text are the words that `gettoken` takes. -/
theorem scan_chunks {buf : Buf} {s e : Nat} (h : Cursor buf s e) :
    (scan buf s e).map (fun t => slice buf t.2.start t.2.stop) = chunks (slice buf s e) := by
  induction hn : e - s using Nat.strong_induction_on generalizing s with
  | _ n ih =>
    rcases Nat.lt_or_ge s e with hlt | hge
    · have ht := gettoken_taken hlt h.bound
      have hnext := @lt_next buf s e hlt
      have hne : slice buf s e ≠ [] := by
        rw [slice_cons hlt h.bound]
        exact List.cons_ne_nil _ _
      rw [scan_cons hlt, List.map_cons, ih _ (by omega) (Cursor.next hlt h.bound) rfl,
        chunks_settled h.settled hne, ht.rest, chunks_dropWhile, ht.start, ht.word]
    · rw [scan_of_le hge, slice_of_le hge]
      simp [chunks]

theorem scan_tok {buf : Buf} {s e : Nat} (he : e ≤ buf.length) :
    ∀ t ∈ scan buf s e, t.1 = kind (slice buf t.2.start t.2.stop) := by
  fun_induction scan buf s e with
  | case1 s hlt ih =>
    have ht := gettoken_taken hlt he
    intro t hmem
    rcases List.mem_cons.mp hmem with rfl | hmem
    · simp only [ht.start]
      exact ht.tok
    · exact ih t hmem
  | case2 => simp

/-- Where a token can start, `peak` sees the next token of the scan. -/
theorem peak_eq {buf : Buf} {s e : Nat} (h : Cursor buf s e) :
    peak buf s e = ((scan buf s e).head?.map Prod.fst).getD .eol := by
  rcases Nat.lt_or_ge s e with hlt | hge
  · have ht := gettoken_taken hlt h.bound
    have hsp : isspace (deref buf s) = false := by
      apply h.settled
      rw [slice_cons hlt h.bound]
      rfl
    have hadv : advance isspace buf (e - s) s = s := by
      obtain ⟨n, hn⟩ := Nat.exists_eq_succ_of_ne_zero (Nat.ne_of_gt (Nat.sub_pos_of_lt hlt))
      rw [hn]
      simp [advance, hsp]
    rw [scan_cons hlt, peak, hadv]
    simp only [Nat.not_le.mpr hlt, if_false, List.head?_cons, Option.map_some, Option.getD_some]
    rw [ht.tok, ht.word, kind_takeWhile, classify_eq hlt h.bound]
  · have := le_advance isspace buf (e - s) s
    rw [scan_of_le hge, peak]
    simp [Nat.le_trans hge this]

end mysh
