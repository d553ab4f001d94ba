-- Text in memory as the C library sees it: strings that end at a NUL,
-- `strtok`, `atoi` and the `%d` of `sprintf`. A character is a byte.
import Mathlib.Data.List.Basic
import Mathlib.Data.List.TakeWhile

namespace ctext

def NUL : Char := Char.ofNat 0

/-- The string at a place of the memory. -/
def cstring (mem : List Char) (p : Nat) : List Char := (mem.drop p).takeWhile (· ≠ NUL)

/-! ## Cutting a text into tokens -/

/-- What `strtok` gives: where the token starts, the memory with a NUL behind the
token, and where the next call goes on. -/
structure Strtok where
  token : Option Nat
  mem : List Char
  next : Nat
deriving DecidableEq, Repr

/-- `strtok` on the text at `pos`, with the characters that separate tokens. -/
def strtok (sep : Char → Bool) (mem : List Char) (pos : Nat) : Strtok :=
  let start := pos + ((mem.drop pos).takeWhile sep).length
  let stop := start + ((mem.drop start).takeWhile fun c => !sep c && c ≠ NUL).length
  if mem.getD start NUL = NUL then ⟨none, mem, start⟩
  else if mem.getD stop NUL = NUL then ⟨some start, mem, stop⟩
  else ⟨some start, mem.set stop NUL, stop + 1⟩

section
variable {sep : Char → Bool} {pre skip tok post : List Char} {c : Char}

theorem takeWhile_append_cons {α : Type} {p : α → Bool} {xs ys : List α} {y : α}
    (hx : ∀ x ∈ xs, p x = true) (hy : p y = false) : (xs ++ y :: ys).takeWhile p = xs := by
  rw [List.takeWhile_append_of_pos hx, List.takeWhile_cons, hy]
  simp

theorem getD_append_cons (xs ys : List Char) (y d : Char) :
    (xs ++ y :: ys).getD xs.length d = y := by
  simp [List.getD_eq_getElem?_getD]

theorem set_append_cons (xs ys : List Char) (y z : Char) :
    (xs ++ y :: ys).set xs.length z = xs ++ z :: ys := by
  simp

theorem append_cons_cancel {xs ys us vs : List Char} (hxs : c ∉ xs) (hys : c ∉ ys)
    (h : xs ++ c :: us = ys ++ c :: vs) : xs = ys ∧ us = vs := by
  have hne : ∀ {zs : List Char}, c ∉ zs → ∀ x ∈ zs, decide (x ≠ c) = true := by
    intro zs hzs x hx
    rw [decide_eq_true_eq]
    rintro rfl
    exact hzs hx
  have hhead := congrArg (List.takeWhile fun x => x ≠ c) h
  rw [takeWhile_append_cons (hne hxs) (by simp), takeWhile_append_cons (hne hys) (by simp)] at hhead
  subst hhead
  have htail := List.append_cancel_left h
  exact ⟨rfl, (List.cons.inj htail).2⟩

/-- A token behind some separators. It ends at a separator or at the end of the text. -/
theorem strtok_token (hskip : ∀ x ∈ skip, sep x = true)
    (htok : ∀ x ∈ tok, sep x = false ∧ x ≠ NUL) (hne : tok ≠ []) (hc : sep c = true ∨ c = NUL)
    (hnul : sep NUL = false) :
    strtok sep (pre ++ skip ++ tok ++ c :: post) pre.length =
      ⟨some (pre ++ skip).length, pre ++ skip ++ tok ++ NUL :: post,
        (pre ++ skip ++ tok).length + if c = NUL then 0 else 1⟩ := by
  obtain ⟨x, xs, rfl⟩ := List.exists_cons_of_ne_nil hne
  have hx := htok x (List.mem_cons_self ..)
  have hskipped : ((pre ++ skip ++ (x :: xs) ++ c :: post).drop pre.length).takeWhile sep = skip := by
    simp only [List.append_assoc, List.drop_left, List.cons_append]
    exact takeWhile_append_cons hskip hx.1
  have htaken : ((pre ++ skip ++ (x :: xs) ++ c :: post).drop (pre ++ skip).length).takeWhile
      (fun c => !sep c && c ≠ NUL) = x :: xs := by
    rw [List.append_assoc, List.drop_left]
    refine takeWhile_append_cons (fun y hy => ?_) ?_
    · simp [htok y hy]
    · rcases hc with hc | rfl <;> simp [*]
  have hfirst : (pre ++ skip ++ (x :: xs) ++ c :: post).getD (pre ++ skip).length NUL = x := by
    rw [List.append_assoc, List.cons_append]
    exact getD_append_cons _ _ _ _
  have hlast := getD_append_cons (pre ++ skip ++ (x :: xs)) post c NUL
  have hset := set_append_cons (pre ++ skip ++ (x :: xs)) post c NUL
  simp only [strtok, hskipped, ← List.length_append, htaken, hfirst, hx.2, if_false, hlast]
  split
  · rename_i hnulc
    subst hnulc
    simp
  · rw [hset]

/-- Only separators are left. -/
theorem strtok_none (hskip : ∀ x ∈ skip, sep x = true) (hnul : sep NUL = false) :
    (strtok sep (pre ++ skip ++ NUL :: post) pre.length).token = none := by
  have hskipped : ((pre ++ skip ++ NUL :: post).drop pre.length).takeWhile sep = skip := by
    rw [List.append_assoc, List.drop_left]
    exact takeWhile_append_cons hskip hnul
  simp only [strtok, hskipped, ← List.length_append, getD_append_cons, if_true]

theorem cstring_of_token (htok : ∀ x ∈ tok, x ≠ NUL) :
    cstring (pre ++ tok ++ NUL :: post) pre.length = tok := by
  rw [cstring, List.append_assoc, List.drop_left]
  exact takeWhile_append_cons (fun x hx => by simpa using htok x hx) (by simp)

end

/-! ## The first word of a text -/

/-- The separators before the first word, the word, and what is behind it. -/
def lead (sep : Char → Bool) (t : List Char) : List Char := t.takeWhile sep

def word (sep : Char → Bool) (t : List Char) : List Char := (t.dropWhile sep).takeWhile (!sep ·)

def rest (sep : Char → Bool) (t : List Char) : List Char := (t.dropWhile sep).dropWhile (!sep ·)

section
variable {sep : Char → Bool} {t u pre tail post : List Char} {c : Char}

theorem lead_word_rest (sep : Char → Bool) (t : List Char) :
    lead sep t ++ word sep t ++ rest sep t = t := by
  rw [List.append_assoc, lead, word, rest, List.takeWhile_append_dropWhile,
    List.takeWhile_append_dropWhile]

theorem sep_of_mem_lead (h : c ∈ lead sep t) : sep c = true := List.mem_takeWhile_imp h

theorem not_sep_of_mem_word (h : c ∈ word sep t) : sep c = false := by
  simpa using List.mem_takeWhile_imp h

theorem sep_of_rest (h : rest sep t = c :: u) : sep c = true := by
  have hhead : (rest sep t).head? = some c := by rw [h]; rfl
  have := List.head?_dropWhile_not (fun c => !sep c) (t.dropWhile sep)
  unfold rest at hhead
  rw [hhead] at this
  simpa using this

/-- A text without a word is made of separators. -/
theorem lead_of_word_nil (h : word sep t = []) : lead sep t = t := by
  have hnil : t.dropWhile sep = [] := by
    cases hdrop : t.dropWhile sep with
    | nil => rfl
    | cons c u =>
      have hc := List.head?_dropWhile_not sep t
      rw [hdrop] at hc
      rw [word, hdrop, List.takeWhile_cons] at h
      simp [show sep c = false by simpa using hc] at h
  have := List.takeWhile_append_dropWhile (p := sep) (l := t)
  rw [hnil, List.append_nil] at this
  exact this

theorem word_append_of_sep (h : ∀ c ∈ t, sep c = true) : word sep (t ++ u) = word sep u := by
  rw [word, word, List.dropWhile_append_of_pos h]

theorem lead_append_of_sep (h : ∀ c ∈ t, sep c = true) : lead sep (t ++ u) = t ++ lead sep u := by
  rw [lead, lead, List.takeWhile_append_of_pos h]

theorem rest_append_of_sep (h : ∀ c ∈ t, sep c = true) : rest sep (t ++ u) = rest sep u := by
  rw [rest, rest, List.dropWhile_append_of_pos h]

theorem dropWhile_of_not_sep (h : ∀ c ∈ t, sep c = false) : t.dropWhile sep = t := by
  cases t with
  | nil => rfl
  | cons c u => simp [h c (List.mem_cons_self ..)]

theorem word_of_not_sep (h : ∀ c ∈ t, sep c = false) : word sep t = t := by
  rw [word, dropWhile_of_not_sep h, List.takeWhile_eq_self_iff]
  intro c hc
  simp [h c hc]

theorem rest_of_not_sep (h : ∀ c ∈ t, sep c = false) : rest sep t = [] := by
  rw [rest, dropWhile_of_not_sep h, List.dropWhile_eq_nil_iff]
  intro c hc
  simp [h c hc]

/-- The first word ends where a separator follows. -/
theorem word_append_cons (h : word sep t ≠ []) (hc : sep c = true) :
    word sep (t ++ c :: u) = word sep t := by
  conv_lhs => rw [← lead_word_rest sep t, List.append_assoc, List.append_assoc]
  rw [word_append_of_sep fun c hc => sep_of_mem_lead hc]
  have hdrop : ∀ v, (word sep t ++ v).dropWhile sep = word sep t ++ v := by
    intro v
    obtain ⟨x, xs, hx⟩ := List.exists_cons_of_ne_nil h
    have hplain : sep x = false := not_sep_of_mem_word (t := t) (hx ▸ List.mem_cons_self ..)
    rw [hx, List.cons_append, List.dropWhile_cons, hplain]
    rfl
  have hword : ∀ x ∈ word sep t, (!sep x) = true := fun x hx => by simp [not_sep_of_mem_word hx]
  rw [word, hdrop]
  cases hrest : rest sep t with
  | nil => exact takeWhile_append_cons hword (by simp [hc])
  | cons d v => exact takeWhile_append_cons hword (by simp [sep_of_rest hrest])

/-- `strtok` gives the first word of the text. -/
theorem strtok_word (hword : word sep t ≠ []) (ht : NUL ∉ t) (hnul : sep NUL = false)
    (hrest : rest sep t ++ tail = c :: post) (hc : sep c = true ∨ c = NUL) :
    strtok sep (pre ++ t ++ tail) pre.length =
      ⟨some (pre ++ lead sep t).length, pre ++ lead sep t ++ word sep t ++ NUL :: post,
        (pre ++ lead sep t ++ word sep t).length + if c = NUL then 0 else 1⟩ := by
  have hplain : ∀ x ∈ word sep t, sep x = false ∧ x ≠ NUL := by
    intro x hx
    refine ⟨not_sep_of_mem_word hx, ?_⟩
    rintro rfl
    refine ht ?_
    rw [← lead_word_rest sep t]
    simp [hx]
  have hmem : pre ++ t ++ tail = pre ++ lead sep t ++ word sep t ++ c :: post := by
    conv_lhs => rw [← lead_word_rest sep t]
    simp [hrest]
  rw [hmem]
  exact strtok_token (fun x hx => sep_of_mem_lead hx) hplain hword hc hnul

end

/-! ## Numbers -/

/-- The values of an `int`. -/
def IsInt (n : Int) : Prop := -2147483648 ≤ n ∧ n ≤ 2147483647

instance (n : Int) : Decidable (IsInt n) := inferInstanceAs (Decidable (_ ∧ _))

/-- The `%d` of a number. -/
def decimal (n : Int) : List Char :=
  if 0 ≤ n then Nat.toDigits 10 n.toNat else '-' :: Nat.toDigits 10 (-n).toNat

def isspace (c : Char) : Bool :=
  c = ' ' || c = '\n' || c = '\t' || c = '\r' || c = Char.ofNat 11 || c = Char.ofNat 12

/-- The number that the text begins with, or zero. -/
def leadingNat (s : List Char) : Nat := Nat.ofDigitChars 10 (s.takeWhile Char.isDigit) 0

def leadingInt (s : List Char) : Int :=
  match s.dropWhile isspace with
  | '-' :: s => -leadingNat s
  | '+' :: s => leadingNat s
  | s => leadingNat s

/-- `atoi`. What it gives for a number that is no `int` is not defined. -/
def atoi (s : List Char) : Option Int :=
  if IsInt (leadingInt s) then some (leadingInt s) else none

theorem isDigit_of_mem_toDigits {n : Nat} {c : Char} (h : c ∈ Nat.toDigits 10 n) :
    c.isDigit = true :=
  Nat.isDigit_of_mem_toDigits (by decide) (by decide) h

theorem mem_decimal {n : Int} {c : Char} (h : c ∈ decimal n) : c.isDigit = true ∨ c = '-' := by
  unfold decimal at h
  split at h
  · exact Or.inl (isDigit_of_mem_toDigits h)
  · rcases List.mem_cons.mp h with rfl | h
    · exact Or.inr rfl
    · exact Or.inl (isDigit_of_mem_toDigits h)

theorem decimal_ne_nil (n : Int) : decimal n ≠ [] := by
  unfold decimal
  split
  · exact Nat.toDigits_ne_nil
  · exact List.cons_ne_nil _ _

theorem leadingNat_toDigits (n : Nat) : leadingNat (Nat.toDigits 10 n) = n := by
  have hdigits : (Nat.toDigits 10 n).takeWhile Char.isDigit = Nat.toDigits 10 n :=
    List.takeWhile_eq_self_iff.mpr fun c hc => isDigit_of_mem_toDigits hc
  rw [leadingNat, hdigits]
  exact Nat.ofDigitChars_toDigits (by decide) (by decide)

/-- A digit is neither a space nor a sign. -/
theorem leadingInt_of_isDigit {c : Char} {cs : List Char} (h : c.isDigit = true) :
    leadingInt (c :: cs) = leadingNat (c :: cs) := by
  have hspace : isspace c = false := by
    by_contra hspace
    simp only [isspace, Bool.or_eq_true, decide_eq_true_eq, Bool.not_eq_false] at hspace
    rcases hspace with ((((rfl | rfl) | rfl) | rfl) | rfl) | rfl <;> exact absurd h (by decide)
  unfold leadingInt
  rw [List.dropWhile_cons, hspace]
  simp only [Bool.false_eq_true, if_false]
  split
  · rename_i s hs
    cases hs
    exact absurd h (by decide)
  · rename_i s hs
    cases hs
    exact absurd h (by decide)
  · rfl

theorem leadingInt_decimal (n : Int) : leadingInt (decimal n) = n := by
  unfold decimal
  split
  · obtain ⟨c, cs, hcs⟩ := List.exists_cons_of_ne_nil (Nat.toDigits_ne_nil (n := n.toNat) (b := 10))
    have hc : c.isDigit = true := isDigit_of_mem_toDigits (hcs ▸ List.mem_cons_self ..)
    have hnat := leadingNat_toDigits n.toNat
    rw [hcs] at hnat ⊢
    rw [leadingInt_of_isDigit hc, hnat]
    omega
  · have hnat := leadingNat_toDigits (-n).toNat
    have hspace : isspace '-' = false := by decide
    rw [leadingInt, List.dropWhile_cons, hspace]
    simp only [Bool.false_eq_true, if_false, hnat]
    omega

theorem decimal_injective {m n : Int} (h : decimal m = decimal n) : m = n := by
  rw [← leadingInt_decimal m, h, leadingInt_decimal]

theorem atoi_decimal {n : Int} (h : IsInt n) : atoi (decimal n) = some n := by
  rw [atoi, leadingInt_decimal, if_pos h]

/-- One number on each line. -/
def lines (ns : List Int) : List Char := ns.flatMap fun n => decimal n ++ ['\n']

theorem lines_cons (n : Int) (ns : List Int) : lines (n :: ns) = decimal n ++ '\n' :: lines ns := by
  simp [lines]

theorem lines_append (ms ns : List Int) : lines (ms ++ ns) = lines ms ++ lines ns :=
  List.flatMap_append

theorem newline_not_mem_decimal (n : Int) : '\n' ∉ decimal n := by
  intro h
  rcases mem_decimal h with h | h
  · exact absurd h (by decide)
  · exact absurd h (by decide)

theorem lines_injective {ms ns : List Int} (h : lines ms = lines ns) : ms = ns := by
  induction ms generalizing ns with
  | nil =>
    cases ns with
    | nil => rfl
    | cons n ns =>
      rw [lines_cons] at h
      simp [lines] at h
  | cons m ms ih =>
    cases ns with
    | nil =>
      rw [lines_cons] at h
      simp [lines] at h
    | cons n ns =>
      rw [lines_cons, lines_cons] at h
      obtain ⟨hhead, htail⟩ :=
        append_cons_cancel (newline_not_mem_decimal m) (newline_not_mem_decimal n) h
      rw [decimal_injective hhead, ih htail]

end ctext
