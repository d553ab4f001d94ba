-- sixfive (user/sixfive.c): the numbers in a file that are multiples of 5 or of 6. The
-- number is kept in an `int`, zero stands for no number, and a character that is no
-- digit counts as one more zero.
import SysNet.Xv6.Printf

open ctext xv6.printf

namespace xv6.sixfive

/-! ## The program -/

/-- Where `strchr` finds the character. The NUL at the end is never found. -/
def strchr (s : List UInt8) (c : UInt8) : Option Nat := s.findIdx? (· = c)

def atoiLoop : Int32 → List UInt8 → Int32
  | n, [] => n
  | n, c :: s => if 48 ≤ c ∧ c ≤ 57 then atoiLoop (n * 10 + c.toUInt32.toInt32 - 48) s else n

def atoi (s : List UInt8) : Int32 := atoiLoop 0 s

def separators : List UInt8 := " -\r\t\n./,".toList.map Char.toUInt8

/-- A text that is written to a descriptor. -/
structure Write where
  fd : Nat
  text : List Char
deriving DecidableEq, Repr

/-- `fprintf(1, "%d\n", val)`, when there is a number and it is a multiple. -/
def report (val : Int32) : List Write :=
  if val ≠ 0 ∧ (val % 6 = 0 ∨ val % 5 = 0) then
    [⟨1, vprintf [] "%d\n" [val.toUInt32.toUInt64]⟩]
  else []

/-- The number with the character `c` behind it. The compiled code wraps around. -/
def append (val : Int32) (c : UInt8) : Int32 := val * 10 + atoi [c, 0]

/-- The loop over the bytes that `read` gives, and the check behind the loop. -/
def readLoop (val : Int32) : List UInt8 → List Write
  | [] => report val
  | c :: content =>
    if (strchr separators c).isSome then report val ++ readLoop 0 content
    else readLoop (append val c) content

/-- What `process_file` writes, `none` when the file cannot be opened. -/
def process_file (filename : List Char) : Option (List UInt8) → List Write
  | none => [⟨2, "Error: cannot open ".toList ++ filename ++ ['\n']⟩]
  | some content => readLoop 0 content

/-- What is printed. -/
def stdout (ws : List Write) : List Char := (ws.filter (·.fd = 1)).flatMap Write.text

/-! ## What it is for -/

def isDigit (c : UInt8) : Bool := 48 ≤ c ∧ c ≤ 57

def isSeparator (c : UInt8) : Bool := c ∈ separators

/-- The maximal runs of characters that are no separators. -/
def runs (content : List UInt8) : List (List UInt8) :=
  (content.splitOnP isSeparator).filter (· ≠ [])

/-- The value of a run of digits. A character that is no digit is read as a zero. -/
def value (r : List UInt8) : Nat :=
  r.foldl (fun n c => 10 * n + if isDigit c then c.toNat - 48 else 0) 0

/-- The run is a number that is a multiple of 5 or of 6. -/
def Qualifies (r : List UInt8) : Prop := (∀ c ∈ r, isDigit c) ∧ (5 ∣ value r ∨ 6 ∣ value r)

instance (r : List UInt8) : Decidable (Qualifies r) := inferInstanceAs (Decidable (_ ∧ _))

/-- The lines that should be printed. -/
def expected (content : List UInt8) : List Char :=
  lines (((runs content).filter (Qualifies ·)).map fun r => (value r : Int))

/-! ## What the loop prints -/

/-- The value as an `int` holds it. -/
def wrapped (r : List UInt8) : Int := (value r : Int).bmod 4294967296

/-- What is printed for a run. -/
def found (r : List UInt8) : Option Int :=
  if wrapped r ≠ 0 ∧ (6 ∣ wrapped r ∨ 5 ∣ wrapped r) then some (wrapped r) else none

variable {r content : List UInt8} {c : UInt8} {val : Int32}

theorem strchr_isSome (s : List UInt8) (c : UInt8) : (strchr s c).isSome = decide (c ∈ s) := by
  unfold strchr
  rw [List.findIdx?_isSome, Bool.eq_iff_iff]
  simp

theorem strchr_separators (c : UInt8) : (strchr separators c).isSome = isSeparator c :=
  strchr_isSome separators c

theorem toInt32_byte (c : UInt8) : c.toUInt32.toInt32 = Int32.ofInt (c.toNat : Int) := by
  rw [Int32.ofInt_eq_ofNat]
  exact UInt32.toInt32_ofNatLT _

theorem atoi_char (c : UInt8) :
    atoi [c, 0] = Int32.ofInt (if isDigit c then c.toNat - 48 else 0 : Nat) := by
  unfold atoi isDigit
  by_cases hdigit : 48 ≤ c ∧ c ≤ 57
  · have hle : 48 ≤ c.toNat := UInt8.le_iff_toNat_le.mp hdigit.1
    have hnul : ¬(48 ≤ (0 : UInt8) ∧ (0 : UInt8) ≤ 57) := by decide
    simp only [atoiLoop, hdigit, hnul, if_true, if_false, and_self, decide_true]
    rw [Int.ofNat_sub hle, Int32.ofInt_sub, toInt32_byte]
    simp
  · simp only [atoiLoop, hdigit, if_false, decide_false, Bool.false_eq_true]
    rfl

theorem foldl_append (r : List UInt8) : r.foldl append 0 = Int32.ofInt (value r) := by
  have hstep : ∀ (n : Nat), r.foldl append (Int32.ofInt n) =
      Int32.ofInt (r.foldl (fun n c => 10 * n + if isDigit c then c.toNat - 48 else 0) n : Nat) := by
    induction r with
    | nil => exact fun n => rfl
    | cons c r ih =>
      intro n
      rw [List.foldl_cons, List.foldl_cons, ← ih, append, atoi_char, Int.natCast_add, Int.natCast_mul,
        Int32.ofInt_add, Int32.ofInt_mul, Int32.mul_comm]
      rfl
  exact hstep 0

theorem toInt_foldl_append (r : List UInt8) : (r.foldl append 0).toInt = wrapped r := by
  rw [foldl_append, Int32.toInt_ofInt]
  rfl

theorem rem_eq_zero_iff (val : Int32) (k : Int32) : val % k = 0 ↔ k.toInt ∣ val.toInt := by
  rw [← Int32.toInt_inj, Int32.toInt_mod, Int32.toInt_zero]
  exact ⟨Int.dvd_of_tmod_eq_zero, Int.tmod_eq_zero_of_dvd⟩

/-- The line of a number. -/
theorem vprintf_line (val : Int32) :
    vprintf [] "%d\n" [val.toUInt32.toUInt64] = lines [val.toInt] := by
  have harg : vaInt val.toUInt32.toUInt64 = val.toInt := by simp [vaInt]
  rw [lines_cons, ← printint_decimal (isInt_toInt val), ← harg]
  rfl

theorem report_run (r : List UInt8) :
    stdout (report (r.foldl append 0)) = lines (found r).toList := by
  have hzero : r.foldl append 0 ≠ 0 ↔ wrapped r ≠ 0 := by
    rw [← toInt_foldl_append, ne_eq, ← Int32.toInt_inj, Int32.toInt_zero]
  have hsix : r.foldl append 0 % 6 = 0 ↔ 6 ∣ wrapped r := by
    rw [← toInt_foldl_append]
    exact rem_eq_zero_iff _ 6
  have hfive : r.foldl append 0 % 5 = 0 ↔ 5 ∣ wrapped r := by
    rw [← toInt_foldl_append]
    exact rem_eq_zero_iff _ 5
  unfold report found
  simp only [hzero, hsix, hfive, vprintf_line, toInt_foldl_append]
  split
  · simp [stdout]
  · rfl

theorem stdout_append (ws ws' : List Write) : stdout (ws ++ ws') = stdout ws ++ stdout ws' := by
  simp [stdout]

theorem found_nil : found [] = none := by decide

/-- The loop, when the run that it is in begins with `r`. -/
theorem stdout_readLoop (r content : List UInt8) :
    stdout (readLoop (r.foldl append 0) content) =
      lines (((content.splitOnP isSeparator).modifyHead (r ++ ·)).filterMap found) := by
  induction content generalizing r with
  | nil =>
    rw [readLoop, report_run, List.splitOnP_nil]
    cases hfound : found r <;> simp [hfound]
  | cons c content ih =>
    rw [readLoop, strchr_separators, List.splitOnP_cons_eq_if_modifyHead]
    split
    · have hid : (fun run : List UInt8 => [] ++ run) = id := rfl
      have hnext := ih []
      rw [List.foldl_nil, hid, List.modifyHead_id, id] at hnext
      rw [stdout_append, report_run, hnext, ← lines_append]
      cases hfound : found r <;> simp [hfound]
    · have hnext := ih (r ++ [c])
      rw [List.foldl_append, List.foldl_cons, List.foldl_nil] at hnext
      rw [hnext, List.modifyHead_modifyHead]
      simp [Function.comp_def]

theorem filterMap_runs (content : List UInt8) :
    (content.splitOnP isSeparator).filterMap found = (runs content).filterMap found := by
  unfold runs
  rw [List.filterMap_filter]
  apply List.filterMap_congr
  intro r _
  by_cases hnil : r = []
  · rw [hnil, found_nil]
    simp
  · simp [hnil]

theorem stdout_process_file (filename : List Char) (content : List UInt8) :
    stdout (process_file filename (some content)) = lines ((runs content).filterMap found) := by
  have hid : (fun run : List UInt8 => [] ++ run) = id := rfl
  have hloop := stdout_readLoop [] content
  rw [List.foldl_nil, hid, List.modifyHead_id, id, filterMap_runs] at hloop
  exact hloop

/-! ## Where it is right -/

/-- What should be printed for a run. -/
def wanted (r : List UInt8) : Option Int := if Qualifies r then some (value r : Int) else none

theorem expected_eq (content : List UInt8) :
    expected content = lines ((runs content).filterMap wanted) := by
  unfold expected wanted
  congr 1
  induction runs content with
  | nil => rfl
  | cons r rs ih =>
    by_cases hq : Qualifies r
    · simp [hq, ih]
    · simp [hq, ih]

theorem wrapped_of_lt (h : value r < 2147483648) : wrapped r = value r := by
  unfold wrapped
  rw [Int.bmod_def]
  split
  · omega
  · omega

theorem isInt_wrapped (r : List UInt8) : IsInt (wrapped r) := by
  rw [← toInt_foldl_append]
  exact isInt_toInt _

theorem wrapped_of_found {b : Int} (h : found r = some b) : b = wrapped r ∧ b ≠ 0 := by
  unfold found at h
  split at h
  · rename_i hmultiple
    have hb := Option.some.inj h
    exact ⟨hb.symm, hb ▸ hmultiple.1⟩
  · cases h

theorem isInt_of_found {b : Int} (h : found r = some b) : IsInt b ∧ b ≠ 0 := by
  obtain ⟨hwrapped, hne⟩ := wrapped_of_found h
  refine ⟨?_, hne⟩
  rw [hwrapped]
  exact isInt_wrapped r

/-- What is printed for a run is what should be printed. -/
theorem found_eq_wanted_iff (r : List UInt8) :
    found r = wanted r ↔
      if Qualifies r then 0 < value r ∧ value r < 2147483648
      else wrapped r = 0 ∨ ¬5 ∣ wrapped r ∧ ¬6 ∣ wrapped r := by
  unfold wanted
  by_cases hq : Qualifies r
  · rw [if_pos hq, if_pos hq]
    constructor
    · intro hfound
      obtain ⟨⟨hmin, hmax⟩, hne⟩ := isInt_of_found hfound
      omega
    · rintro ⟨hpos, hlt⟩
      have hwrapped := wrapped_of_lt hlt
      have hmultiple : 6 ∣ wrapped r ∨ 5 ∣ wrapped r := by
        rw [hwrapped]
        rcases hq.2 with hfive | hsix
        · exact Or.inr (Int.natCast_dvd_natCast.mpr hfive)
        · exact Or.inl (Int.natCast_dvd_natCast.mpr hsix)
      unfold found
      rw [if_pos ⟨by omega, hmultiple⟩, hwrapped]
  · rw [if_neg hq, if_neg hq]
    unfold found
    split
    · rename_i hmultiple
      constructor
      · intro hsome
        cases hsome
      · rintro (hzero | ⟨hfive, hsix⟩)
        · exact absurd hzero hmultiple.1
        · exact absurd hmultiple.2 (not_or.mpr ⟨hsix, hfive⟩)
    · rename_i hnot
      refine ⟨fun _ => ?_, fun _ => rfl⟩
      by_cases hzero : wrapped r = 0
      · exact Or.inl hzero
      · exact Or.inr ⟨fun hfive => hnot ⟨hzero, Or.inr hfive⟩, fun hsix => hnot ⟨hzero, Or.inl hsix⟩⟩

section
variable {α β : Type} {f g : α → Option β} {xs : List α}

theorem length_filterMap_le (h : ∀ x ∈ xs, ∀ b, f x = some b → g x = some b) :
    (xs.filterMap f).length ≤ (xs.filterMap g).length := by
  rw [List.length_filterMap_eq_countP, List.length_filterMap_eq_countP]
  apply List.countP_mono_left
  intro x hx hsome
  obtain ⟨b, hb⟩ := Option.isSome_iff_exists.mp hsome
  rw [h x hx b hb]
  rfl

/-- Where `g` gives all that `f` gives, it gives more somewhere or they are the same. -/
theorem eq_of_filterMap_eq (h : ∀ x ∈ xs, ∀ b, f x = some b → g x = some b)
    (heq : xs.filterMap g = xs.filterMap f) : ∀ x ∈ xs, g x = f x := by
  induction xs with
  | nil =>
    intro x hx
    cases hx
  | cons x xs ih =>
    have hrest : ∀ y ∈ xs, ∀ b, f y = some b → g y = some b := by
      intro y hy
      exact h y (List.mem_cons_of_mem _ hy)
    have hhead : g x = f x := by
      cases hf : f x with
      | some b => exact h x (List.mem_cons_self ..) b hf
      | none =>
        cases hg : g x with
        | none => rfl
        | some b =>
          have hlength := congrArg List.length heq
          rw [List.filterMap_cons_some hg, List.filterMap_cons_none hf, List.length_cons] at hlength
          have hle := length_filterMap_le hrest
          omega
    intro y hy
    rcases List.mem_cons.mp hy with rfl | hy
    · exact hhead
    · refine ih hrest ?_ y hy
      cases hf : f x with
      | none =>
        rw [List.filterMap_cons_none hf, List.filterMap_cons_none (hhead.trans hf)] at heq
        exact heq
      | some b =>
        rw [List.filterMap_cons_some hf, List.filterMap_cons_some (hhead.trans hf)] at heq
        exact (List.cons.inj heq).2

end

/-- A line that is printed although it should not be does not make up for one that is
missing: a number that is missing is zero or no `int`. -/
theorem found_of_wanted (h : (runs content).filterMap found = (runs content).filterMap wanted)
    {b : Int} (hr : r ∈ runs content) (hb : wanted r = some b) : found r = some b := by
  have hmem : b ∈ (runs content).filterMap found := by
    rw [h]
    exact List.mem_filterMap.mpr ⟨r, hr, hb⟩
  obtain ⟨r', -, hfound⟩ := List.mem_filterMap.mp hmem
  obtain ⟨⟨hmin, hmax⟩, hne⟩ := isInt_of_found hfound
  rw [← hb, found_eq_wanted_iff]
  unfold wanted at hb
  split at hb
  · rename_i hq
    have hvalue := Option.some.inj hb
    rw [if_pos hq]
    omega
  · cases hb

theorem sixfive_prints_the_multiples_iff (filename : List Char) (content : List UInt8) :
    stdout (process_file filename (some content)) = expected content ↔
      ∀ r ∈ runs content,
        if Qualifies r then 0 < value r ∧ value r < 2147483648
        else wrapped r = 0 ∨ ¬5 ∣ wrapped r ∧ ¬6 ∣ wrapped r := by
  rw [stdout_process_file, expected_eq]
  constructor
  · intro hlines r hr
    have heq := lines_injective hlines
    apply (found_eq_wanted_iff r).mp
    exact eq_of_filterMap_eq (fun r hr b hb => found_of_wanted heq hr hb) heq r hr
  · intro hright
    have hsame : (runs content).filterMap found = (runs content).filterMap wanted := by
      apply List.filterMap_congr
      intro r hr
      exact (found_eq_wanted_iff r).mpr (hright r hr)
    rw [hsame]

/-- `6a` is no number, and 60 is printed. -/
theorem letters_are_read_as_zeros :
    stdout (process_file [] (some [54, 97])) = "60\n".toList ∧
      stdout (process_file [] (some [54, 97])) ≠ expected [54, 97] := by
  decide

end xv6.sixfive
