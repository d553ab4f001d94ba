-- The `printf` of the user programs (user/printf.c). Every number, also one of 64 bits,
-- goes through the `uint x` of `printint`; the `printint` of the kernel has an
-- `unsigned long long x` in its place.
import SysNet.Lib.CText
import SysNet.Lib.Numerals
import Mathlib.Algebra.Ring.Nat

open ctext numerals

namespace xv6.printf

/-! ## Numbers -/

def digits : List Char := "0123456789ABCDEF".toList

/-- The loop that fills `buf`, which has room for `room` more characters. The last
digit of the number comes first. -/
def digitLoop (base : Nat) : Nat → Nat → List Char
  | 0, _ => []
  | room + 1, x =>
    digits.getD (x % base) NUL :: if x / base = 0 then [] else digitLoop base room (x / base)

/-- The conversion to a `uint`. -/
def uint (x : Int) : Nat := (x % 4294967296).toNat

def printint (xx : Int) (base : Nat) (sgn : Bool) : List Char :=
  let neg : Bool := sgn && decide (xx < 0)
  let x := uint (if neg then -xx else xx)
  (if neg then ['-'] else []) ++ (digitLoop base 20 x).reverse

def ptrLoop : Nat → UInt64 → List Char
  | 0, _ => []
  | i + 1, x => digits.getD (x >>> 60).toNat NUL :: ptrLoop i (x <<< 4)

def printptr (x : UInt64) : List Char := '0' :: 'x' :: ptrLoop 16 x

/-! ## Formats -/

abbrev Memory := List UInt8

/-- The characters from an address to the next NUL. -/
def string (mem : Memory) (p : Nat) : List UInt8 := (mem.drop p).takeWhile (· ≠ 0)

/-- An argument is in a register or a slot of 64 bits; `va_arg` with a smaller type
reads the low half. -/
def vaInt (a : UInt64) : Int := a.toUInt32.toInt32.toInt

def vaUint32 (a : UInt64) : Int := a.toUInt32.toNat

/-- A `uint64` that becomes a `long long`. -/
def vaUint64 (a : UInt64) : Int := a.toInt64.toInt

/-- One conversion, `c1` and `c2` are the characters behind `c0`: what is printed, the
further characters of the format it takes, and the arguments that are left. -/
def conversion (mem : Memory) (c0 c1 c2 : Char) (ap : List UInt64) : List Char × Nat × List UInt64 :=
  let a := ap.headD 0
  let next := ap.tail
  if c0 = 'd' then (printint (vaInt a) 10 true, 0, next)
  else if c0 = 'l' ∧ c1 = 'd' then (printint (vaUint64 a) 10 true, 1, next)
  else if c0 = 'l' ∧ c1 = 'l' ∧ c2 = 'd' then (printint (vaUint64 a) 10 true, 2, next)
  else if c0 = 'u' then (printint (vaUint32 a) 10 false, 0, next)
  else if c0 = 'l' ∧ c1 = 'u' then (printint (vaUint64 a) 10 false, 1, next)
  else if c0 = 'l' ∧ c1 = 'l' ∧ c2 = 'u' then (printint (vaUint64 a) 10 false, 2, next)
  else if c0 = 'x' then (printint (vaUint32 a) 16 false, 0, next)
  else if c0 = 'l' ∧ c1 = 'x' then (printint (vaUint64 a) 16 false, 1, next)
  else if c0 = 'l' ∧ c1 = 'l' ∧ c2 = 'x' then (printint (vaUint64 a) 16 false, 2, next)
  else if c0 = 'p' then (printptr a, 0, next)
  else if c0 = 'c' then ([Char.ofUInt8 a.toUInt8], 0, next)
  else if c0 = 's' then
    (if a = 0 then "(null)".toList else (string mem a.toNat).map Char.ofUInt8, 0, next)
  else if c0 = '%' then (['%'], 0, ap)
  else (['%', c0], 0, ap)

/-- The loop of `vprintf`: whether the state is `'%'`, and the characters that `i += 1`
and `i += 2` pass over. -/
def vprintfLoop (mem : Memory) : Bool → Nat → List Char → List UInt64 → List Char
  | _, _, [], _ => []
  | percent, skip + 1, _ :: fmt, ap => vprintfLoop mem percent skip fmt ap
  | false, 0, c0 :: fmt, ap =>
    if c0 = '%' then vprintfLoop mem true 0 fmt ap else c0 :: vprintfLoop mem false 0 fmt ap
  | true, 0, c0 :: fmt, ap =>
    let r := conversion mem c0 (fmt.getD 0 NUL) (fmt.getD 1 NUL) ap
    r.1 ++ vprintfLoop mem false r.2.1 fmt r.2.2

/-- What `printf` prints with the format and the arguments. -/
def vprintf (mem : Memory) (fmt : String) (ap : List UInt64) : List Char :=
  vprintfLoop mem false 0 fmt.toList ap

/-! ## What is printed can be read back -/

variable {base room x : Nat} {xx : Int}

theorem digitValue_digits {d : Nat} (h : d < 16) : digitValue (digits.getD d NUL) = some d := by
  have hall : ∀ d < 16, digitValue (digits.getD d NUL) = some d := by decide
  exact hall d h

theorem digits_eq_digitChar {d : Nat} (h : d < 10) : digits.getD d NUL = Nat.digitChar d := by
  have hall : ∀ d < 10, digits.getD d NUL = Nat.digitChar d := by decide
  exact hall d h

theorem readNat_digitLoop (hbase : 2 ≤ base ∧ base ≤ 16) (hroom : 0 < room)
    (hx : x < base ^ room) : readNat base (digitLoop base room x).reverse = some x := by
  induction room generalizing x with
  | zero => omega
  | succ room ih =>
    have hlt : x % base < base := Nat.mod_lt _ (by omega)
    have hdigit := digitValue_digits (d := x % base) (by omega)
    have hx' := Nat.div_add_mod x base
    unfold digitLoop
    split
    · rename_i hdiv
      rw [hdiv, Nat.mul_zero, Nat.zero_add] at hx'
      rw [List.reverse_singleton, readNat_singleton hdigit hlt, hx']
    · rename_i hdiv
      have hdivlt : x / base < base ^ room := by
        apply Nat.div_lt_of_lt_mul
        rw [Nat.mul_comm, ← Nat.pow_succ]
        exact hx
      have hroom' : 0 < room := by
        rcases room with _ | room
        · exact absurd (Nat.lt_one_iff.mp hdivlt) hdiv
        · omega
      rw [List.reverse_cons, readNat_snoc (ih hroom' hdivlt) hdigit hlt, hx']

theorem digitLoop_decimal (hroom : 0 < room) (hx : x < 10 ^ room) :
    (digitLoop 10 room x).reverse = Nat.toDigits 10 x := by
  induction room generalizing x with
  | zero => omega
  | succ room ih =>
    have hdigit := digits_eq_digitChar (d := x % 10) (Nat.mod_lt _ (by omega))
    rw [Nat.toDigits_eq_if (by decide)]
    unfold digitLoop
    rw [hdigit]
    split
    · rename_i hdiv
      rw [if_pos (by omega), Nat.mod_eq_of_lt (by omega), List.reverse_singleton]
    · rename_i hdiv
      have hroom' : 0 < room := by
        rcases room with _ | room
        · rw [Nat.pow_one] at hx
          omega
        · omega
      rw [if_neg (by omega), List.reverse_cons, ih hroom' (by omega)]

theorem uint_lt (x : Int) : uint x < 4294967296 := by
  unfold uint
  omega

theorem printint_unsigned (xx : Int) (base : Nat) :
    printint xx base false = (digitLoop base 20 (uint xx)).reverse := by
  simp [printint]

/-- An unsigned number is printed modulo 2^32. -/
theorem readNat_printint (hbase : base = 10 ∨ base = 16) :
    readNat base (printint xx base false) = some (uint xx) := by
  have hx := uint_lt xx
  rw [printint_unsigned]
  rcases hbase with rfl | rfl
  · exact readNat_digitLoop (by omega) (by omega) (by omega)
  · exact readNat_digitLoop (by omega) (by omega) (by omega)

theorem printint_signed (h : IsInt xx) :
    printint xx 10 true =
      if 0 ≤ xx then (digitLoop 10 20 xx.toNat).reverse
      else '-' :: (digitLoop 10 20 (-xx).toNat).reverse := by
  obtain ⟨hmin, hmax⟩ := h
  unfold printint
  by_cases hneg : xx < 0
  · have hx : uint (-xx) = (-xx).toNat := by
      unfold uint
      omega
    rw [if_neg (by omega)]
    simp [hneg, hx]
  · have hx : uint xx = xx.toNat := by
      unfold uint
      omega
    rw [if_pos (by omega)]
    simp [hneg, hx]

/-- An `int` is printed in full. -/
theorem printint_decimal (h : IsInt xx) : printint xx 10 true = decimal xx := by
  rw [printint_signed h]
  obtain ⟨hmin, hmax⟩ := h
  unfold decimal
  rw [digitLoop_decimal (by omega) (by omega), digitLoop_decimal (by omega) (by omega)]

theorem readInt_printint (h : IsInt xx) : readInt 10 (printint xx 10 true) = some xx := by
  rw [printint_signed h]
  obtain ⟨hmin, hmax⟩ := h
  split
  · have hread : readNat 10 (digitLoop 10 20 xx.toNat).reverse = some xx.toNat :=
      readNat_digitLoop (by omega) (by omega) (by omega)
    rw [readInt_of_readNat hread]
    congr 1
    omega
  · have hread : readNat 10 (digitLoop 10 20 (-xx).toNat).reverse = some (-xx).toNat :=
      readNat_digitLoop (by omega) (by omega) (by omega)
    rw [readInt_neg hread]
    congr 1
    omega

/-! ## Arguments -/

theorem isInt_toInt (v : Int32) : IsInt v.toInt := by
  have hmin := v.le_toInt
  have hmax := v.toInt_lt
  unfold IsInt
  omega

theorem toInt_toInt32 (v : UInt32) : v.toInt32.toInt = (v.toNat : Int).bmod 4294967296 :=
  BitVec.toInt_eq_toNat_bmod v.toBitVec

theorem vaInt_eq (a : UInt64) : vaInt a = (a.toNat : Int).bmod 4294967296 := by
  have hlow : (a.toUInt32.toNat : Int) = (a.toNat : Int) % 4294967296 := by simp
  rw [vaInt, toInt_toInt32, hlow]
  exact Int.emod_bmod _ _

theorem vaUint64_eq (a : UInt64) : vaUint64 a = (a.toNat : Int).bmod 18446744073709551616 :=
  BitVec.toInt_eq_toNat_bmod a.toBitVec

/-- `printint` sees the low half of a `uint64` only. -/
theorem uint_vaUint64 (a : UInt64) : uint (vaUint64 a) = a.toNat % 4294967296 := by
  rw [uint, vaUint64_eq, Int.bmod_def]
  split
  · omega
  · omega

end xv6.printf
