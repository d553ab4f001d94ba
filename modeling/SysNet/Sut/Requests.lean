-- The text of an I/O request. The calls write it with `sprintf` and the
-- string `SPLIT` between its parts. `Iexec` cuts it with `strtok`, for which
-- `SPLIT` is a set of five letters.
import Mathlib.Data.Bool.AllAny
import SysNet.Lib.CText

namespace sut

open ctext

/-! ## The calls -/

def BUFFER_SIZE : Nat := 1024

def SPLIT : List Char := ['S', 'P', 'L', 'I', 'T']

/-- The global `fd`. It keeps its first value: `int fd = open(..)` in `Iexec` declares a
variable of its block, and the parameters of `sut_write` and `sut_close` hide it. -/
def fd : Int := 0

/-- What a task asks for. A NUL follows the bytes of a buffer. -/
inductive Request
  | open (dest : List Char) (hdest : NUL ∉ dest)
  | write (fd : Int) (buf : List Char) (size : Int) (hsize : size ≤ buf.length) (hint : IsInt size)
  | close (fd : Int)

/-- The string at a buffer. -/
def text (buf : List Char) : List Char := cstring (buf ++ [NUL]) 0

/-- The text that `sut_open`, `sut_write` and `sut_close` print into `temp`. -/
def encode : Request → List Char
  | .open dest _ => ['o', 'p', 'e', 'n'] ++ SPLIT ++ dest
  | .write _ buf size _ _ => ['w', 'r', 'i', 't', 'e'] ++ SPLIT ++ text buf ++ SPLIT ++ decimal size
  | .close _ => ['c', 'l', 'o', 's', 'e'] ++ SPLIT

/-! ## The decoding in `Iexec` -/

/-- A system call, with the strings and the bytes that it is given. -/
inductive Operation
  | open (filename : Option (List Char))
  | close (fd : Int)
  | write (fd : Int) (data : List Char) (size : Int)
  | nothing
deriving DecidableEq, Repr

def isSep (c : Char) : Bool := SPLIT.contains c

/-- The bytes that `write` reads. It gives none when they end behind the block. The system
takes no bytes for a negative size. -/
def writeBytes (mem : List Char) (size : Int) : Option Operation :=
  if size.toNat ≤ mem.length then some (.write fd (mem.take size.toNat) size) else none

/-- The branches of `Iexec` for the first token. The next token starts at `next`. -/
def act (token1 mem : List Char) (next : Nat) : Option Operation :=
  if token1 = ['o', 'p', 'e', 'n'] then
    let filename := strtok isSep mem next
    some (.open (filename.token.map (cstring filename.mem)))
  else if token1 = ['c', 'l', 'o', 's', 'e'] then some (.close fd)
  else if token1 = ['w', 'r', 'i', 't', 'e'] then
    let towrite := strtok isSep mem next
    let number := strtok isSep towrite.mem towrite.next
    match towrite.token, number.token with
    | some p, some q => (atoi (cstring number.mem q)).bind (writeBytes (number.mem.drop p))
    -- `atoi` of `NULL`
    | _, _ => none
  else some .nothing

/-- What `Iexec` does for an entry of `iotodo`, which it has copied to `msg1`. It gives none
where the behavior is not defined. -/
def perform (todo : List Char) : Option Operation :=
  let msg1 := todo ++ [NUL]
  let first := strtok isSep msg1 0
  match first.token with
  | none => none
  | some token1 => act (cstring first.mem token1) first.mem first.next

/-! ## What the calls mean -/

/-- The operation that a request stands for. -/
def Request.meant : Request → Operation
  | .open dest _ => .open (some dest)
  | .write fd buf size _ _ => .write fd (buf.take size.toNat) size
  | .close fd => .close fd

/-- The text of a request fits the buffers, and its decoding gives the request. -/
def Request.Survives (r : Request) : Prop :=
  (encode r).length + 1 ≤ BUFFER_SIZE ∧ perform (encode r) = some r.meant

/-- The bytes of a buffer that its text shows: they are in the first word, which no letter
of `SPLIT` comes before. Behind the word the block holds a NUL, the letters `PLIT`, the
number and a NUL, if the text ends with the word. -/
def Shows (buf : List Char) (size : Int) : Prop :=
  (size ≤ 0 ∨ lead isSep (text buf) = []) ∧
  (size ≤ (word isSep (text buf)).length ∨
    rest isSep (text buf) = [] ∧
      buf.take size.toNat <+:
        word isSep (text buf) ++ NUL :: (['P', 'L', 'I', 'T'] ++ decimal size ++ [NUL]))

/-- The requests that the text can carry. -/
def Request.Plain : Request → Prop
  | .open dest _ => dest ≠ [] ∧ (∀ c ∈ dest, isSep c = false) ∧ dest.length + 10 ≤ BUFFER_SIZE
  | .write n buf size _ _ =>
    n = sut.fd ∧ (text buf).length + (decimal size).length + 16 ≤ BUFFER_SIZE ∧
    word isSep (text buf) ≠ [] ∧ Shows buf size ∧
    -- a second word of the text is taken for the number
    (word isSep (rest isSep (text buf)) = [] ∨
      atoi (word isSep (rest isSep (text buf))) = some size)
  | .close n => n = sut.fd

/-! ## The tokens of a request -/

theorem isSep_NUL : isSep NUL = false := by decide

theorem isSep_PLIT : ∀ c ∈ ['P', 'L', 'I', 'T'], isSep c = true :=
  List.all_iff_forall_prop.mp (by decide)

theorem isSep_SPLIT : ∀ c ∈ SPLIT, isSep c = true := List.all_iff_forall_prop.mp (by decide)

theorem not_isSep_of_mem_decimal {n : Int} {c : Char} (h : c ∈ decimal n) : isSep c = false := by
  by_contra hsep
  rcases mem_decimal h with hc | rfl
  · have hmem : c ∈ SPLIT := by simpa [isSep] using hsep
    simp only [SPLIT, List.mem_cons, List.not_mem_nil, or_false] at hmem
    rcases hmem with rfl | rfl | rfl | rfl | rfl <;> exact absurd hc (by decide)
  · exact hsep (by decide)

theorem NUL_notMem_decimal (n : Int) : NUL ∉ decimal n := by
  intro h
  rcases mem_decimal h with hc | hc <;> exact absurd hc (by decide)

theorem text_eq (buf : List Char) : text buf = buf.takeWhile (· ≠ NUL) := by
  unfold text cstring
  rw [List.drop_zero]
  induction buf with
  | nil => simp
  | cons c cs ih => simp only [List.cons_append, List.takeWhile_cons, ih]

theorem NUL_notMem_text (buf : List Char) : NUL ∉ text buf := by
  intro h
  rw [text_eq] at h
  simpa using List.mem_takeWhile_imp h

theorem sep_of_word_nil {t : List Char} (h : word isSep t = []) : ∀ c ∈ t, isSep c = true := by
  intro c hc
  rw [← lead_of_word_nil h] at hc
  exact sep_of_mem_lead hc

theorem word_decimal (n : Int) : word isSep (decimal n) = decimal n :=
  word_of_not_sep fun _ hc => not_isSep_of_mem_decimal hc

/-- The command of a request is its first token. -/
theorem perform_command {cmd tail : List Char} (hne : cmd ≠ [])
    (hcmd : ∀ c ∈ cmd, isSep c = false ∧ c ≠ NUL) :
    perform (cmd ++ SPLIT ++ tail) =
      act cmd (cmd ++ [NUL] ++ (['P', 'L', 'I', 'T'] ++ (tail ++ [NUL]))) (cmd ++ [NUL]).length := by
  have hfirst := @strtok_token isSep [] [] cmd (['P', 'L', 'I', 'T'] ++ (tail ++ [NUL])) 'S'
    (by simp) hcmd hne (Or.inl (by decide)) isSep_NUL
  have hstring := @cstring_of_token [] cmd (['P', 'L', 'I', 'T'] ++ (tail ++ [NUL]))
    fun c hc => (hcmd c hc).2
  have hS : 'S' ≠ NUL := by decide
  simp only [perform]
  simp [SPLIT, hS] at hfirst hstring ⊢
  rw [hfirst]
  simp only [hstring]

/-- The first word of the text behind the letters that are left of `SPLIT`. -/
theorem strtok_behind_PLIT {pre t tail post : List Char} {c : Char} (hword : word isSep t ≠ [])
    (ht : NUL ∉ t) (hrest : rest isSep t ++ tail = c :: post) (hc : isSep c = true ∨ c = NUL) :
    strtok isSep (pre ++ (['P', 'L', 'I', 'T'] ++ (t ++ tail))) pre.length =
      ⟨some (pre ++ (['P', 'L', 'I', 'T'] ++ lead isSep t)).length,
        pre ++ (['P', 'L', 'I', 'T'] ++ lead isSep t) ++ word isSep t ++ NUL :: post,
        (pre ++ (['P', 'L', 'I', 'T'] ++ lead isSep t) ++ word isSep t).length +
          if c = NUL then 0 else 1⟩ := by
  have h := @strtok_word isSep (['P', 'L', 'I', 'T'] ++ t) pre tail post c
    (by rwa [word_append_of_sep isSep_PLIT])
    (by simpa using ⟨by decide, by decide, by decide, by decide, ht⟩) isSep_NUL
    (by rwa [rest_append_of_sep isSep_PLIT]) hc
  rw [lead_append_of_sep isSep_PLIT, word_append_of_sep isSep_PLIT, List.append_assoc,
    List.append_assoc] at h
  exact h

/-- The first character that the word does not hold ends the token. -/
theorem token_end {t tail : List Char} {x : Char} (hx : isSep x = true ∨ x = NUL) :
    ∃ c post, rest isSep t ++ x :: tail = c :: post ∧ (isSep c = true ∨ c = NUL) := by
  cases h : rest isSep t with
  | nil => exact ⟨x, tail, rfl, hx⟩
  | cons c u => exact ⟨c, u ++ x :: tail, rfl, Or.inl (sep_of_rest h)⟩

theorem NUL_notMem_word {t : List Char} (h : NUL ∉ t) : ∀ c ∈ word isSep t, c ≠ NUL := by
  rintro c hc rfl
  refine h ?_
  rw [← lead_word_rest isSep t]
  simp [hc]

/-- Without a word behind `SPLIT` there is no second token. -/
theorem no_token_behind_PLIT {pre t : List Char} (h : ∀ c ∈ t, isSep c = true) :
    (strtok isSep (pre ++ (['P', 'L', 'I', 'T'] ++ (t ++ [NUL]))) pre.length).token = none := by
  have hskip : ∀ c ∈ ['P', 'L', 'I', 'T'] ++ t, isSep c = true := by
    intro c hc
    rcases List.mem_append.mp hc with hc | hc
    · exact isSep_PLIT c hc
    · exact h c hc
  have := @strtok_none isSep pre (['P', 'L', 'I', 'T'] ++ t) [] hskip isSep_NUL
  rwa [List.append_assoc, List.append_assoc] at this

/-! ## Opening and closing -/

theorem perform_close (n : Int) : perform (encode (.close n)) = some (.close fd) := by
  simp only [encode]
  decide

theorem perform_open {dest : List Char} (hdest : NUL ∉ dest) :
    perform (encode (.open dest hdest)) =
      some (.open (if word isSep dest = [] then none else some (word isSep dest))) := by
  rw [encode, perform_command (by decide) (List.all_iff_forall_prop.mp (by decide)), act, if_pos rfl]
  dsimp only
  by_cases hword : word isSep dest = []
  · rw [if_pos hword, no_token_behind_PLIT (sep_of_word_nil hword)]
    rfl
  · obtain ⟨c, post, hrest, hc⟩ := @token_end dest [] NUL (Or.inr rfl)
    rw [strtok_behind_PLIT hword hdest hrest hc, if_neg hword]
    simp only [Option.map_some]
    rw [cstring_of_token (NUL_notMem_word hdest)]

/-! ## Writing -/

/-- The token that `atoi` reads. -/
def number (buf : List Char) (size : Int) : List Char :=
  if word isSep (rest isSep (text buf)) = [] then decimal size else word isSep (rest isSep (text buf))

theorem number_eq (buf : List Char) (size : Int) :
    word isSep (rest isSep (text buf) ++ (SPLIT ++ decimal size)) = number buf size := by
  unfold number
  split
  · rename_i h
    rw [word_append_of_sep (sep_of_word_nil h), word_append_of_sep isSep_SPLIT, word_decimal]
  · rename_i h
    rw [SPLIT, List.cons_append]
    exact word_append_cons h (by decide)

theorem number_ne_nil (buf : List Char) (size : Int) : number buf size ≠ [] := by
  unfold number
  split
  · exact decimal_ne_nil size
  · assumption

/-- The decoding of a write, behind its command. -/
theorem perform_write_command {n : Int} {buf : List Char} {size : Int} (hsize : size ≤ buf.length)
    (hint : IsInt size) :
    perform (encode (.write n buf size hsize hint)) =
      act ['w', 'r', 'i', 't', 'e'] (['w', 'r', 'i', 't', 'e'] ++ [NUL] ++
        (['P', 'L', 'I', 'T'] ++ (text buf ++ (SPLIT ++ decimal size) ++ [NUL])))
        (['w', 'r', 'i', 't', 'e'] ++ [NUL]).length := by
  have hencode : encode (.write n buf size hsize hint) =
      ['w', 'r', 'i', 't', 'e'] ++ SPLIT ++ (text buf ++ (SPLIT ++ decimal size)) := by
    simp [encode]
  rw [hencode, perform_command (by decide) (List.all_iff_forall_prop.mp (by decide))]

/-- Without a word in the text, the number is taken for the data and none is left. -/
theorem perform_write_nothing {n : Int} {buf : List Char} {size : Int} (hsize : size ≤ buf.length)
    (hint : IsInt size) (hword : word isSep (text buf) = []) :
    perform (encode (.write n buf size hsize hint)) = none := by
  have hsep := sep_of_word_nil hword
  have hnumber : word isSep (text buf ++ (SPLIT ++ decimal size)) = decimal size := by
    rw [word_append_of_sep hsep, word_append_of_sep isSep_SPLIT, word_decimal]
  have hrest : rest isSep (text buf ++ (SPLIT ++ decimal size)) = [] := by
    rw [rest_append_of_sep hsep, rest_append_of_sep isSep_SPLIT]
    exact rest_of_not_sep fun _ hc => not_isSep_of_mem_decimal hc
  have hnul : NUL ∉ text buf ++ (SPLIT ++ decimal size) := by
    simp only [List.mem_append, not_or]
    exact ⟨NUL_notMem_text buf, by decide, NUL_notMem_decimal size⟩
  rw [perform_write_command, act, if_neg (by decide), if_neg (by decide), if_pos rfl]
  dsimp only
  rw [@strtok_behind_PLIT _ _ [NUL] [] NUL (by rw [hnumber]; exact decimal_ne_nil size) hnul
    (by rw [hrest]; rfl) (Or.inr rfl)]
  simp only [if_true, Nat.add_zero]
  have hnone := @strtok_none isSep (['w', 'r', 'i', 't', 'e'] ++ [NUL] ++ (['P', 'L', 'I', 'T'] ++
    lead isSep (text buf ++ (SPLIT ++ decimal size))) ++
    word isSep (text buf ++ (SPLIT ++ decimal size))) [] [] (by simp) isSep_NUL
  rw [List.append_nil] at hnone
  rw [hnone]

/-- The third call goes on behind the NUL of the second. -/
theorem strtok_third {pre t post : List Char} {d : Char} (ht : NUL ∉ t) (hword : word isSep t ≠ [])
    (hrest : rest isSep t ++ [NUL] = d :: post) (hd : isSep d = true ∨ d = NUL) :
    strtok isSep (pre ++ NUL :: (t ++ [NUL])) (pre.length + 1) =
      ⟨some (pre ++ NUL :: lead isSep t).length,
        pre ++ NUL :: lead isSep t ++ word isSep t ++ NUL :: post,
        (pre ++ NUL :: lead isSep t ++ word isSep t).length + if d = NUL then 0 else 1⟩ := by
  have h := @strtok_word isSep t (pre ++ [NUL]) [NUL] post d hword ht isSep_NUL hrest hd
  simpa using h

theorem drop_written (q w l m p : List Char) :
    (q ++ w ++ NUL :: l ++ m ++ NUL :: p).drop q.length = w ++ NUL :: (l ++ m ++ NUL :: p) := by
  simp only [List.append_assoc, List.drop_left, List.cons_append]

/-- With a word in the text, the data starts there. Behind it is a NUL and the text as the
third call leaves it. -/
theorem perform_write {n : Int} {buf : List Char} {size : Int} (hsize : size ≤ buf.length)
    (hint : IsInt size) (hword : word isSep (text buf) ≠ []) :
    ∃ tail, (rest isSep (text buf) = [] → tail = ['P', 'L', 'I', 'T'] ++ decimal size ++ [NUL]) ∧
      perform (encode (.write n buf size hsize hint)) =
        (atoi (number buf size)).bind (writeBytes (word isSep (text buf) ++ NUL :: tail)) := by
  -- the word ends at `c`, and `t` is the text that the third call cuts
  obtain ⟨c, t, hct, hc⟩ : ∃ c t, rest isSep (text buf) ++ (SPLIT ++ decimal size) = c :: t ∧
      isSep c = true := by
    cases h : rest isSep (text buf) with
    | nil => exact ⟨'S', _, rfl, by decide⟩
    | cons c u => exact ⟨c, _, rfl, sep_of_rest h⟩
  have hcnul : c ≠ NUL := by
    rintro rfl
    exact absurd hc (by decide)
  have hnumber : word isSep t = number buf size := by
    rw [← number_eq, hct]
    exact (word_append_of_sep (t := [c]) (by simpa using hc)).symm
  have htnul : NUL ∉ t := by
    intro h
    have hmem : NUL ∈ rest isSep (text buf) ++ (SPLIT ++ decimal size) := hct ▸ List.mem_cons_of_mem c h
    rcases List.mem_append.mp hmem with hmem | hmem
    · refine NUL_notMem_text buf ?_
      rw [← lead_word_rest isSep (text buf)]
      exact List.mem_append_right _ hmem
    · rcases List.mem_append.mp hmem with hmem | hmem
      · exact absurd hmem (by decide)
      · exact NUL_notMem_decimal size hmem
  obtain ⟨d, post, hdpost, hd⟩ := @token_end t [] NUL (Or.inr rfl)
  refine ⟨lead isSep t ++ word isSep t ++ NUL :: post, ?_, ?_⟩
  · intro hnil
    rw [hnil] at hct
    obtain rfl : t = ['P', 'L', 'I', 'T'] ++ decimal size := (List.cons.inj hct).2.symm
    have hrest : rest isSep (['P', 'L', 'I', 'T'] ++ decimal size) = [] := by
      rw [rest_append_of_sep isSep_PLIT]
      exact rest_of_not_sep fun _ hc => not_isSep_of_mem_decimal hc
    have hruns := lead_word_rest isSep (['P', 'L', 'I', 'T'] ++ decimal size)
    rw [hrest] at hdpost hruns
    rw [List.append_nil] at hruns
    rw [hruns, (List.cons.inj hdpost).2]
  · rw [perform_write_command, act, if_neg (by decide), if_neg (by decide), if_pos rfl]
    dsimp only
    rw [List.append_assoc (text buf), @strtok_behind_PLIT _ (text buf) _ (t ++ [NUL]) c hword
      (NUL_notMem_text buf) (by rw [← List.append_assoc, hct]; rfl) (Or.inl hc), if_neg hcnul]
    dsimp only
    rw [strtok_third htnul (by rw [hnumber]; exact number_ne_nil buf size) hdpost hd]
    dsimp only
    rw [cstring_of_token (NUL_notMem_word htnul), hnumber, drop_written]

/-- The bytes at the word are the first bytes of the buffer. -/
theorem take_eq_iff_shows {buf : List Char} {size : Int} {tail : List Char} (hsize : size ≤ buf.length)
    (hword : word isSep (text buf) ≠ [])
    (htail : rest isSep (text buf) = [] → tail = ['P', 'L', 'I', 'T'] ++ decimal size ++ [NUL]) :
    (size.toNat ≤ (word isSep (text buf) ++ NUL :: tail).length ∧
      (word isSep (text buf) ++ NUL :: tail).take size.toNat = buf.take size.toNat) ↔
      Shows buf size := by
  have hbuf : lead isSep (text buf) ++ word isSep (text buf) ++ rest isSep (text buf) ++
      buf.dropWhile (· ≠ NUL) = buf := by
    rw [lead_word_rest, text_eq, List.takeWhile_append_dropWhile]
  have hplain : ∀ c ∈ word isSep (text buf), isSep c = false := fun _ hc => not_sep_of_mem_word hc
  have hlead : ∀ c ∈ lead isSep (text buf), isSep c = true := fun _ hc => sep_of_mem_lead hc
  have hrest : ∀ c u, rest isSep (text buf) = c :: u → isSep c = true := fun _ _ h => sep_of_rest h
  unfold Shows
  generalize lead isSep (text buf) = l at *
  generalize word isSep (text buf) = w at *
  generalize rest isSep (text buf) = r at *
  constructor
  · rintro ⟨hlen, htake⟩
    by_cases hpos : size ≤ 0
    · exact ⟨Or.inl hpos, Or.inl (by omega)⟩
    obtain ⟨k, hk⟩ : ∃ k, size.toNat = k + 1 := ⟨size.toNat - 1, by omega⟩
    have hl : l = [] := by
      cases l with
      | nil => rfl
      | cons x xs =>
        obtain ⟨y, ys, rfl⟩ := List.exists_cons_of_ne_nil hword
        rw [hk, ← hbuf] at htake
        obtain rfl : y = x := (List.cons.inj htake).1
        exact absurd (hplain y (List.mem_cons_self ..)) (by simp [hlead y (List.mem_cons_self ..)])
    subst hl
    refine ⟨Or.inr rfl, ?_⟩
    by_cases hshort : size ≤ w.length
    · exact Or.inl hshort
    have hr : r = [] := by
      cases r with
      | nil => rfl
      | cons x xs =>
        have hat := congrArg (fun bs => bs[w.length]?) htake
        simp only [List.getElem?_take_of_lt (show w.length < size.toNat by omega)] at hat
        rw [← hbuf] at hat
        simp at hat
        exact absurd (hrest x xs rfl) (by rw [← hat]; decide)
    refine Or.inr ⟨hr, ?_⟩
    rw [← htail hr, ← htake]
    exact List.take_prefix _ _
  · rintro ⟨hl, hw⟩
    rcases hw with hw | ⟨hr, hprefix⟩
    · refine ⟨by simp; omega, ?_⟩
      rcases hl with hl | rfl
      · simp [Int.toNat_of_nonpos hl]
      · rw [List.take_append_of_le_length (by omega)]
        conv_rhs => rw [← hbuf]
        simp only [List.nil_append, List.append_assoc]
        rw [List.take_append_of_le_length (by omega)]
    · rw [← htail hr] at hprefix
      have hlen : (buf.take size.toNat).length = size.toNat := by
        rw [List.length_take]
        omega
      refine ⟨hlen ▸ hprefix.length_le, ?_⟩
      have := List.prefix_iff_eq_take.mp hprefix
      rw [hlen] at this
      exact this.symm

/-! ## Which requests survive -/

theorem word_eq_self_iff {t : List Char} : word isSep t = t ↔ ∀ c ∈ t, isSep c = false := by
  constructor
  · intro h c hc
    rw [← h] at hc
    exact not_sep_of_mem_word hc
  · exact fun h => word_of_not_sep h

theorem open_survives_iff {dest : List Char} (hdest : NUL ∉ dest) :
    (Request.open dest hdest).Survives ↔ (Request.open dest hdest).Plain := by
  have hfits : (encode (.open dest hdest)).length + 1 = dest.length + 10 := by
    simp [encode, SPLIT]
  simp only [Request.Survives, Request.Plain, Request.meant, hfits, perform_open,
    Option.some.injEq, Operation.open.injEq]
  constructor
  · rintro ⟨hlen, hname⟩
    split at hname
    · cases hname
    · rename_i hword
      have hself := Option.some.inj hname
      exact ⟨by rwa [hself] at hword, word_eq_self_iff.mp hself, hlen⟩
  · rintro ⟨hne, hplain, hlen⟩
    rw [word_eq_self_iff.mpr hplain, if_neg hne]
    exact ⟨hlen, rfl⟩

theorem close_survives_iff (n : Int) : (Request.close n).Survives ↔ (Request.close n).Plain := by
  have hfits : (encode (.close n)).length + 1 ≤ BUFFER_SIZE := by
    simp [encode, SPLIT, BUFFER_SIZE]
  simp only [Request.Survives, Request.Plain, Request.meant, perform_close, Option.some.injEq,
    Operation.close.injEq]
  exact ⟨fun h => h.2.symm, fun h => ⟨hfits, h.symm⟩⟩

/-- The number of a write is its size, unless a second word of the text has its place. -/
theorem atoi_number {buf : List Char} {size : Int} (hint : IsInt size) :
    atoi (number buf size) = some size ↔ word isSep (rest isSep (text buf)) = [] ∨
      atoi (word isSep (rest isSep (text buf))) = some size := by
  unfold number
  split
  · rename_i h
    exact ⟨fun _ => Or.inl h, fun _ => atoi_decimal hint⟩
  · rename_i h
    exact ⟨Or.inr, fun hor => hor.resolve_left h⟩

theorem writeBytes_eq_some {mem data : List Char} {m n size : Int} :
    writeBytes mem m = some (.write n data size) ↔
      m = size ∧ n = fd ∧ m.toNat ≤ mem.length ∧ mem.take m.toNat = data := by
  unfold writeBytes
  split
  · rename_i h
    simp only [Option.some.injEq, Operation.write.injEq, h, true_and]
    exact ⟨fun ⟨h1, h2, h3⟩ => ⟨h3, h1.symm, h2⟩, fun ⟨h1, h2, h3⟩ => ⟨h2.symm, h3, h1⟩⟩
  · rename_i h
    simp [h]

theorem write_survives_iff {n : Int} {buf : List Char} {size : Int} (hsize : size ≤ buf.length)
    (hint : IsInt size) :
    (Request.write n buf size hsize hint).Survives ↔ (Request.write n buf size hsize hint).Plain := by
  have hfits : (encode (.write n buf size hsize hint)).length + 1 =
      (text buf).length + (decimal size).length + 16 := by
    simp [encode, SPLIT]
    omega
  simp only [Request.Survives, Request.Plain, Request.meant, hfits]
  by_cases hword : word isSep (text buf) = []
  · simp [perform_write_nothing hsize hint hword, hword]
  · obtain ⟨tail, htail, hperform⟩ := perform_write (n := n) hsize hint hword
    rw [hperform, Option.bind_eq_some_iff, ← take_eq_iff_shows hsize hword htail, ← atoi_number hint]
    constructor
    · rintro ⟨hlen, m, hm, hwrite⟩
      obtain ⟨rfl, hfd, hblock, hdata⟩ := writeBytes_eq_some.mp hwrite
      exact ⟨hfd, hlen, hword, ⟨hblock, hdata⟩, hm⟩
    · rintro ⟨hfd, hlen, -, ⟨hblock, hdata⟩, hm⟩
      exact ⟨hlen, size, hm, writeBytes_eq_some.mpr ⟨rfl, hfd, hblock, hdata⟩⟩

/-- A request is performed as it was issued exactly if its text can carry it. -/
theorem a_request_survives_iff (r : Request) : r.Survives ↔ r.Plain := by
  cases r with
  | «open» dest hdest => exact open_survives_iff hdest
  | write n buf size hsize hint => exact write_survives_iff hsize hint
  | close n => exact close_survives_iff n

example : (Request.write 0 ['h', 'i', '!'] 2 (by decide) (by decide)).Survives :=
  ⟨by decide, by decide⟩

/-- The descriptor of a close is lost, and a letter of `SPLIT` cuts a path short. -/
theorem a_close_and_a_path_are_lost :
    ¬ (Request.close 3).Survives ∧
    ¬ (Request.open ['/', 't', 'm', 'p', '/', 'L', 'O', 'G'] (by decide)).Survives := by
  refine ⟨fun h => absurd h.2 ?_, fun h => absurd h.2 ?_⟩
  · decide
  · decide

end sut
