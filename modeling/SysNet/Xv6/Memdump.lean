-- memdump (user/memdump.c): the format says which fields the data has, and each field
-- gets a line of its own.
import SysNet.Lib.Bytes
import SysNet.Xv6.Printf

open bytes ctext numerals xv6.printf

namespace xv6.dump

/-! ## The program -/

/-- The memory as the loads see it. -/
def buffer (mem : Memory) : Buffer := fun i => mem.getD i 0

def get64 (b : Buffer) (o : Nat) : Nat := get32 b o + get32 b (o + 4) * 4294967296

/-- The lines that stand before an `i`: the size, and the four bytes. A `char` has no
sign on RISC-V. -/
def preamble (mem : Memory) (data : UInt64) : List Char :=
  vprintf mem "---------\n" [] ++ vprintf mem "size: %ld\n" [4] ++
    ((List.range 4).flatMap fun i => vprintf mem "%x\n" [(buffer mem (data.toNat + i)).toUInt64]) ++
    vprintf mem "---------\n" []

/-- One character of the format: what is printed, and where the data goes on. -/
def directive (mem : Memory) (c : Char) (data : UInt64) : List Char × UInt64 :=
  let b := buffer mem
  let a := data.toNat
  if c = 'i' then
    (preamble mem data ++ vprintf mem "%d \n" [UInt64.ofNat (get32 b a)], data + 4)
  else if c = 'p' then (vprintf mem "%lx \n" [UInt64.ofNat (get64 b a)], data + 8)
  else if c = 'h' then (vprintf mem "%d \n" [UInt64.ofNat (get16 b a)], data + 2)
  else if c = 'c' then (vprintf mem "%c \n" [(b a).toUInt64], data + 1)
  else if c = 's' then (vprintf mem "%s \n" [UInt64.ofNat (get64 b a)], data + 8)
  else if c = 'S' then (vprintf mem "%s \n" [data], data)
  else ([], data)

def memdump (mem : Memory) : List Char → UInt64 → List Char
  | [], _ => []
  | c :: fmt, data => (directive mem c data).1 ++ memdump mem fmt (directive mem c data).2

/-! ## The fields -/

inductive Field
  | i (v : UInt32)
  | p (v : UInt64)
  | h (v : UInt16)
  | c (v : UInt8)
  /-- A pointer, and the string that it points to. -/
  | s (ptr : UInt64) (text : List UInt8)
  | S (text : List UInt8)
deriving DecidableEq, Repr

def Field.letter : Field → Char
  | .i _ => 'i'
  | .p _ => 'p'
  | .h _ => 'h'
  | .c _ => 'c'
  | .s .. => 's'
  | .S _ => 'S'

/-- The `n` bytes of a number, the lowest one first. -/
def little (n v : Nat) : List UInt8 := (List.range n).map (byte v)

def Field.bytes : Field → List UInt8
  | .i v => little 4 v.toNat
  | .p v => little 8 v.toNat
  | .h v => little 2 v.toNat
  | .c v => [v]
  | .s ptr _ => little 8 ptr.toNat
  | .S text => text ++ [0]

/-- The bytes stand at the address. -/
def At (mem : Memory) (a : UInt64) (bs : List UInt8) : Prop := bs <+: mem.drop a.toNat

/-- A string ends at its NUL, and nothing is behind an `S`. -/
def Field.WellFormed (mem : Memory) (a : UInt64) (behind : List Field) : Field → Prop
  | .s ptr text => ptr ≠ 0 ∧ 0 ∉ text ∧ At mem ptr (text ++ [0])
  | .S text => a ≠ 0 ∧ 0 ∉ text ∧ behind = []
  | _ => True

/-- The fields stand at the address, one behind the other. -/
def LaidOut (mem : Memory) : UInt64 → List Field → Prop
  | _, [] => True
  | a, f :: fs =>
    At mem a f.bytes ∧ f.WellFormed mem a fs ∧ LaidOut mem (a + UInt64.ofNat f.bytes.length) fs

/-! ## Reading the lines back -/

/-- What `memdump` prints in front of the line of the field. -/
def Field.preamble : Field → List Char
  | .i v =>
    "---------\nsize: 4\n".toList ++
      ((List.range 4).flatMap fun k => printint (byte v.toNat k).toNat 16 false ++ ['\n']) ++
      "---------\n".toList
  | .p _ | .h _ | .c _ | .s .. | .S _ => []

/-- The text gives the field back. A number is read back into as many bits as the field has. -/
def Field.Reads (t : List Char) : Field → Prop
  | .i v => ∃ n : Int, readInt 10 t = some n ∧ n % 4294967296 = v.toNat
  | .p v => readNat 16 t = some v.toNat
  | .h v => ∃ n : Int, readInt 10 t = some n ∧ n % 65536 = v.toNat
  | .c v => t = [Char.ofUInt8 v]
  | .s _ text => t = text.map Char.ofUInt8
  | .S text => t = text.map Char.ofUInt8

/-- The output has a line for each field, in their order, and each line gives its field back. -/
def Decodes : List Field → List Char → Prop
  | [], out => out = []
  | f :: fs, out =>
    ∃ t rest, out = f.preamble ++ t ++ ' ' :: '\n' :: rest ∧ f.Reads t ∧ Decodes fs rest

/-! ## What is printed -/

/-- The text of the field in its line. -/
def Field.text : Field → List Char
  | .i v => printint v.toInt32.toInt 10 true
  | .p v => printint v.toInt64.toInt 16 false
  | .h v => printint v.toNat 10 true
  | .c v => [Char.ofUInt8 v]
  | .s _ text => text.map Char.ofUInt8
  | .S text => text.map Char.ofUInt8

def Field.line (f : Field) : List Char := f.preamble ++ f.text ++ [' ', '\n']

variable {mem : Memory} {a : UInt64} {f : Field} {fs : List Field} {bs : List UInt8} {k n v : Nat}

theorem buffer_of_at (h : At mem a bs) (hk : k < bs.length) :
    buffer mem (a.toNat + k) = bs.getD k 0 := by
  obtain ⟨rest, hrest⟩ := h
  have hdrop : mem[a.toNat + k]? = (mem.drop a.toNat)[k]? := List.getElem?_drop.symm
  rw [buffer, List.getD_eq_getElem?_getD, hdrop, ← hrest, List.getElem?_append_left hk,
    List.getD_eq_getElem?_getD]

theorem byte_of_at (h : At mem a (little n v)) (hk : k < n) :
    buffer mem (a.toNat + k) = byte v k := by
  have hlength : k < (little n v).length := by simpa [little] using hk
  rw [buffer_of_at h hlength]
  simp [little, hk]

theorem get64_of_bytes {b : Buffer} {o : Nat} (h : ∀ k < 8, b (o + k) = byte v k) :
    get64 b o = v % 18446744073709551616 := by
  have hlow : get32 b o = v % 4294967296 := get32_of_bytes fun k hk => h k (by omega)
  have hhigh : get32 b (o + 4) = v / 4294967296 % 4294967296 := by
    apply get32_of_bytes
    intro k hk
    have hpow : 256 ^ 4 = 4294967296 := rfl
    rw [Nat.add_assoc, h (4 + k) (by omega), byte, byte, pow_add, Nat.div_div_eq_div_mul, hpow]
  rw [get64, hlow, hhigh]
  omega

theorem string_of_at {text : List UInt8} (h : At mem a (text ++ [0])) (hnul : 0 ∉ text) :
    string mem a.toNat = text := by
  obtain ⟨rest, hrest⟩ := h
  rw [string, ← hrest, List.append_assoc, List.singleton_append]
  apply takeWhile_append_cons
  · intro x hx
    rw [decide_eq_true_eq]
    rintro rfl
    exact hnul hx
  · rfl

theorem vprintf_int (mem : Memory) (x : UInt64) :
    vprintf mem "%d \n" [x] = printint (vaInt x) 10 true ++ [' ', '\n'] := rfl

theorem vprintf_hex (mem : Memory) (x : UInt64) :
    vprintf mem "%lx \n" [x] = printint (vaUint64 x) 16 false ++ [' ', '\n'] := rfl

theorem vprintf_char (mem : Memory) (b : UInt8) :
    vprintf mem "%c \n" [b.toUInt64] = [Char.ofUInt8 b, ' ', '\n'] := by
  have hbyte : b.toUInt64.toUInt8 = b := by simp
  have hprint : vprintf mem "%c \n" [b.toUInt64] =
      [Char.ofUInt8 b.toUInt64.toUInt8, ' ', '\n'] := rfl
  rw [hprint, hbyte]

theorem vprintf_string (mem : Memory) {x : UInt64} (hx : x ≠ 0) :
    vprintf mem "%s \n" [x] = (string mem x.toNat).map Char.ofUInt8 ++ [' ', '\n'] := by
  have hprint : vprintf mem "%s \n" [x] =
      (if x = 0 then "(null)".toList else (string mem x.toNat).map Char.ofUInt8) ++ [' ', '\n'] := rfl
  rw [hprint, if_neg hx]

theorem vprintf_byte (mem : Memory) (b : UInt8) :
    vprintf mem "%x\n" [b.toUInt64] = printint b.toNat 16 false ++ ['\n'] := by
  have hbyte : vaUint32 b.toUInt64 = b.toNat := by simp [vaUint32]
  have hprint : vprintf mem "%x\n" [b.toUInt64] =
      printint (vaUint32 b.toUInt64) 16 false ++ ['\n'] := rfl
  rw [hprint, hbyte]

theorem preamble_of_at {v : UInt32} (h : At mem a (little 4 v.toNat)) :
    preamble mem a = (Field.i v).preamble := by
  have hbytes : ∀ k ∈ List.range 4, vprintf mem "%x\n" [(buffer mem (a.toNat + k)).toUInt64] =
      printint (byte v.toNat k).toNat 16 false ++ ['\n'] := by
    intro k hk
    rw [byte_of_at h (List.mem_range.mp hk), vprintf_byte]
  unfold preamble Field.preamble
  rw [List.flatMap_congr hbytes]
  rfl

theorem get16_of_at {v : UInt16} (h : At mem a (little 2 v.toNat)) :
    get16 (buffer mem) a.toNat = v.toNat := by
  rw [get16_of_bytes fun k hk => byte_of_at h hk]
  exact Nat.mod_eq_of_lt v.toNat_lt

theorem get32_of_at {v : UInt32} (h : At mem a (little 4 v.toNat)) :
    get32 (buffer mem) a.toNat = v.toNat := by
  rw [get32_of_bytes fun k hk => byte_of_at h hk]
  exact Nat.mod_eq_of_lt v.toNat_lt

theorem get64_of_at {v : UInt64} (h : At mem a (little 8 v.toNat)) :
    UInt64.ofNat (get64 (buffer mem) a.toNat) = v := by
  rw [get64_of_bytes fun k hk => byte_of_at h hk, Nat.mod_eq_of_lt v.toNat_lt]
  exact UInt64.ofNat_toNat

/-- A number of up to 32 bits as an argument. -/
theorem vaInt_ofNat (v : UInt32) : vaInt (UInt64.ofNat v.toNat) = v.toInt32.toInt := by
  have hv : v.toNat < UInt64.size := Nat.lt_trans v.toNat_lt (by decide)
  rw [vaInt_eq, toInt_toInt32, UInt64.toNat_ofNat_of_lt' hv]

theorem vaInt_ofNat_of_lt (h : n < 65536) : vaInt (UInt64.ofNat n) = n := by
  rw [vaInt_eq, UInt64.toNat_ofNat_of_lt' (Nat.lt_trans h (by decide)), Int.bmod_def]
  omega

/-- Each directive prints its field. -/
theorem directive_of_at (hat : At mem a f.bytes) (hf : f.WellFormed mem a fs) :
    (directive mem f.letter a).1 = f.line := by
  cases f with
  | i v =>
    have hprint : (directive mem 'i' a).1 =
        preamble mem a ++ vprintf mem "%d \n" [UInt64.ofNat (get32 (buffer mem) a.toNat)] := rfl
    rw [Field.letter, hprint, preamble_of_at hat, get32_of_at hat, vprintf_int,
      vaInt_ofNat v, Field.line, Field.text, List.append_assoc]
  | p v =>
    have hprint : (directive mem 'p' a).1 =
        vprintf mem "%lx \n" [UInt64.ofNat (get64 (buffer mem) a.toNat)] := rfl
    rw [Field.letter, hprint, get64_of_at hat, vprintf_hex]
    rfl
  | h v =>
    have hprint : (directive mem 'h' a).1 =
        vprintf mem "%d \n" [UInt64.ofNat (get16 (buffer mem) a.toNat)] := rfl
    rw [Field.letter, hprint, get16_of_at hat, vprintf_int, vaInt_ofNat_of_lt v.toNat_lt]
    rfl
  | c v =>
    have hbyte : buffer mem a.toNat = v := buffer_of_at hat (Nat.zero_lt_one)
    have hprint : (directive mem 'c' a).1 =
        vprintf mem "%c \n" [(buffer mem a.toNat).toUInt64] := rfl
    rw [Field.letter, hprint, hbyte, vprintf_char]
    rfl
  | s ptr text =>
    obtain ⟨hnull, hnul, htext⟩ := hf
    have hprint : (directive mem 's' a).1 =
        vprintf mem "%s \n" [UInt64.ofNat (get64 (buffer mem) a.toNat)] := rfl
    rw [Field.letter, hprint, get64_of_at hat, vprintf_string mem hnull, string_of_at htext hnul]
    rfl
  | S text =>
    obtain ⟨hnull, hnul, -⟩ := hf
    have hprint : (directive mem 'S' a).1 = vprintf mem "%s \n" [a] := rfl
    rw [Field.letter, hprint, vprintf_string mem hnull, string_of_at hat hnul]
    rfl

/-- And it goes on behind its field. -/
theorem next_of_at (hf : f.WellFormed mem a fs) (hne : fs ≠ []) :
    (directive mem f.letter a).2 = a + UInt64.ofNat f.bytes.length := by
  cases f with
  | S text => exact absurd hf.2.2 hne
  | i v => rfl
  | p v => rfl
  | h v => rfl
  | c v => rfl
  | s ptr text => rfl

theorem memdump_of_laidOut (h : LaidOut mem a fs) :
    memdump mem (fs.map Field.letter) a = fs.flatMap Field.line := by
  induction fs generalizing a with
  | nil => rfl
  | cons f fs ih =>
    obtain ⟨hat, hf, hrest⟩ := h
    rw [List.map_cons, memdump, directive_of_at hat hf, List.flatMap_cons]
    cases fs with
    | nil => rfl
    | cons g gs => rw [next_of_at hf (List.cons_ne_nil g gs), ih hrest]

/-! ## What can be read back -/

theorem isInt_short (v : UInt16) : IsInt v.toNat := by
  have hv := v.toNat_lt
  unfold IsInt
  omega

theorem readNat_text (v : UInt64) :
    readNat 16 (Field.p v).text = some (v.toNat % 4294967296) := by
  rw [Field.text, readNat_printint (Or.inr rfl)]
  exact congrArg some (uint_vaUint64 v)

/-- The line of a `p` shows the low half of its field. -/
theorem reads_p_iff (v : UInt64) : (Field.p v).Reads (Field.p v).text ↔ v.toNat < 4294967296 := by
  have hmod : v.toNat % 4294967296 = v.toNat ↔ v.toNat < 4294967296 := by omega
  rw [← hmod, ← Option.some.injEq, ← readNat_text]
  rfl

/-- The lines of the other fields show all of them. -/
theorem reads_text (hf : ∀ v, f ≠ .p v) : f.Reads f.text := by
  cases f with
  | i v =>
    refine ⟨_, readInt_printint (isInt_toInt v.toInt32), ?_⟩
    have hv := v.toNat_lt
    have hbits : (v.toNat : Int).bmod 4294967296 % 4294967296 = (v.toNat : Int) % 4294967296 :=
      Int.bmod_emod
    rw [toInt_toInt32, hbits]
    omega
  | p v => exact absurd rfl (hf v)
  | h v =>
    refine ⟨_, readInt_printint (isInt_short v), ?_⟩
    have hv := v.toNat_lt
    omega
  | c v => rfl
  | s ptr text => rfl
  | S text => rfl

theorem reads_text_iff (f : Field) : f.Reads f.text ↔ ∀ v, f = .p v → v.toNat < 4294967296 := by
  constructor
  · rintro hread v rfl
    exact (reads_p_iff v).mp hread
  · intro hsmall
    by_cases hp : ∃ v, f = .p v
    · obtain ⟨v, rfl⟩ := hp
      exact (reads_p_iff v).mpr (hsmall v rfl)
    · apply reads_text
      rintro v rfl
      exact hp ⟨v, rfl⟩

theorem cancel_of_eq {t us vs : List Char} (ht : t = f.text)
    (heq : t ++ ' ' :: us = f.text ++ ' ' :: vs) : t = f.text ∧ us = vs := by
  subst ht
  exact ⟨rfl, (List.cons.inj (List.append_cancel_left heq)).2⟩

/-- There is no other way to cut the line. -/
theorem reads_unique {t us vs : List Char} (h : f.Reads t)
    (heq : t ++ ' ' :: us = f.text ++ ' ' :: vs) : t = f.text ∧ us = vs := by
  cases f with
  | i v =>
    obtain ⟨k, hk, -⟩ := h
    have htext := readInt_printint (isInt_toInt v.toInt32)
    exact append_cons_cancel (blank_not_mem_of_readInt hk) (blank_not_mem_of_readInt htext) heq
  | p v =>
    have htext := readNat_text v
    exact append_cons_cancel (blank_not_mem_of_readNat h) (blank_not_mem_of_readNat htext) heq
  | h v =>
    obtain ⟨k, hk, -⟩ := h
    have htext := readInt_printint (isInt_short v)
    exact append_cons_cancel (blank_not_mem_of_readInt hk) (blank_not_mem_of_readInt htext) heq
  | c v => exact cancel_of_eq h heq
  | s ptr text => exact cancel_of_eq h heq
  | S text => exact cancel_of_eq h heq

theorem decodes_lines_iff (fs : List Field) :
    Decodes fs (fs.flatMap Field.line) ↔ ∀ f ∈ fs, f.Reads f.text := by
  induction fs with
  | nil =>
    constructor
    · intro _ f hf
      cases hf
    · intro _
      rfl
  | cons f fs ih =>
    rw [List.flatMap_cons, List.forall_mem_cons, ← ih, Field.line]
    constructor
    · rintro ⟨t, rest, hout, ht, hrest⟩
      simp only [List.append_assoc, List.cons_append, List.nil_append] at hout
      obtain ⟨rfl, htail⟩ := reads_unique ht (List.append_cancel_left hout).symm
      rw [(List.cons.inj htail).2] at hrest
      exact ⟨ht, hrest⟩
    · rintro ⟨ht, hrest⟩
      exact ⟨f.text, fs.flatMap Field.line, by simp, ht, hrest⟩

theorem memdump_decodes_iff (h : LaidOut mem a fs) :
    Decodes fs (memdump mem (fs.map Field.letter) a) ↔
      ∀ v, Field.p v ∈ fs → v.toNat < 4294967296 := by
  rw [memdump_of_laidOut h, decodes_lines_iff]
  constructor
  · intro hall v hv
    exact (reads_text_iff _).mp (hall _ hv) v rfl
  · intro hsmall f hf
    apply (reads_text_iff f).mpr
    rintro v rfl
    exact hsmall v hf

/-- An `int`, a small `p` and a string are all read back. -/
theorem an_int_a_pointer_and_a_string_decode :
    LaidOut [1, 0, 0, 0, 5, 0, 0, 0, 0, 0, 0, 0, 104, 105, 0] 0 [.i 1, .p 5, .S [104, 105]] ∧
      Decodes [.i 1, .p 5, .S [104, 105]]
        (memdump [1, 0, 0, 0, 5, 0, 0, 0, 0, 0, 0, 0, 104, 105, 0] ['i', 'p', 'S'] 0) := by
  have hlaid :
      LaidOut [1, 0, 0, 0, 5, 0, 0, 0, 0, 0, 0, 0, 104, 105, 0] 0 [.i 1, .p 5, .S [104, 105]] := by
    refine ⟨?_, trivial, ?_, trivial, ?_, ⟨by decide, by decide, rfl⟩, trivial⟩
    all_goals
      unfold At
      decide
  refine ⟨hlaid, (memdump_decodes_iff hlaid).mpr ?_⟩
  intro v hv
  simp only [List.mem_cons, reduceCtorEq, List.not_mem_nil, Field.p.injEq, or_false, false_or] at hv
  rw [hv]
  decide

/-- Of a pointer the line shows the low half only. -/
theorem the_high_half_is_lost :
    LaidOut [0, 0, 0, 0, 1, 0, 0, 0] 0 [.p 4294967296] ∧
      memdump [0, 0, 0, 0, 1, 0, 0, 0] ['p'] 0 = "0 \n".toList ∧
      ¬Decodes [.p 4294967296] (memdump [0, 0, 0, 0, 1, 0, 0, 0] ['p'] 0) := by
  have hlaid : LaidOut [0, 0, 0, 0, 1, 0, 0, 0] 0 [.p 4294967296] := by
    refine ⟨?_, trivial, trivial⟩
    unfold At
    decide
  refine ⟨hlaid, by decide, ?_⟩
  intro hdecodes
  have hlines : memdump [0, 0, 0, 0, 1, 0, 0, 0] ['p'] 0 = [Field.p 4294967296].flatMap Field.line :=
    memdump_of_laidOut hlaid
  rw [hlines, decodes_lines_iff] at hdecodes
  have hlt := (reads_p_iff _).mp (hdecodes _ (List.mem_singleton_self _))
  exact absurd hlt (by decide)

end xv6.dump
