-- Buffers of bytes: little-endian words at an offset, and bits.
import Mathlib.Algebra.Ring.Nat
import Mathlib.Data.List.Basic
import Mathlib.Logic.Function.Basic

namespace bytes

abbrev Buffer := Nat → UInt8

variable {b b' : Buffer} {o i j k n v : Nat} {f : Nat → UInt8}

/-! ## Words -/

/-- The byte `k` of a word. -/
def byte (v k : Nat) : UInt8 := UInt8.ofNat (v / 256 ^ k)

def get16 (b : Buffer) (o : Nat) : Nat := (b o).toNat + (b (o + 1)).toNat * 256

def get32 (b : Buffer) (o : Nat) : Nat :=
  (b o).toNat + (b (o + 1)).toNat * 256 + (b (o + 2)).toNat * 65536 + (b (o + 3)).toNat * 16777216

theorem get16_lt (b : Buffer) (o : Nat) : get16 b o < 65536 := by
  have h0 := (b o).toNat_lt
  have h1 := (b (o + 1)).toNat_lt
  unfold get16
  omega

theorem get32_lt (b : Buffer) (o : Nat) : get32 b o < 4294967296 := by
  have h0 := (b o).toNat_lt
  have h1 := (b (o + 1)).toNat_lt
  have h2 := (b (o + 2)).toNat_lt
  have h3 := (b (o + 3)).toNat_lt
  unfold get32
  omega

theorem get16_zero (o : Nat) : get16 (fun _ => 0) o = 0 := by
  have hzero : (0 : UInt8).toNat = 0 := rfl
  unfold get16
  rw [hzero]

theorem get32_zero (o : Nat) : get32 (fun _ => 0) o = 0 := by
  have hzero : (0 : UInt8).toNat = 0 := rfl
  unfold get32
  rw [hzero]

theorem toNat_byte (v k : Nat) : (byte v k).toNat = v / 256 ^ k % 256 := by
  simp [byte]

/-- Bytes that are those of a word. -/
theorem get16_of_bytes (h : ∀ k < 2, b (o + k) = byte v k) : get16 b o = v % 65536 := by
  have h0 : b o = byte v 0 := h 0 (by omega)
  unfold get16
  rw [h0, h 1 (by omega), toNat_byte, toNat_byte]
  omega

theorem get32_of_bytes (h : ∀ k < 4, b (o + k) = byte v k) : get32 b o = v % 4294967296 := by
  have h0 : b o = byte v 0 := h 0 (by omega)
  unfold get32
  rw [h0, h 1 (by omega), h 2 (by omega), h 3 (by omega), toNat_byte, toNat_byte, toNat_byte,
    toNat_byte]
  omega

theorem get16_congr (h : ∀ k < 2, b (o + k) = b' (o + k)) : get16 b o = get16 b' o := by
  have h0 : b o = b' o := h 0 (by omega)
  unfold get16
  rw [h0, h 1 (by omega)]

theorem get32_congr (h : ∀ k < 4, b (o + k) = b' (o + k)) : get32 b o = get32 b' o := by
  have h0 : b o = b' o := h 0 (by omega)
  unfold get32
  rw [h0, h 1 (by omega), h 2 (by omega), h 3 (by omega)]

/-! ## Writing -/

/-- `n` bytes written at the offset. -/
def fill (b : Buffer) (o n : Nat) (f : Nat → UInt8) : Buffer := fun i =>
  if o ≤ i ∧ i < o + n then f (i - o) else b i

theorem fill_in (h : i < n) : fill b o n f (o + i) = f i := by
  unfold fill
  rw [if_pos (by omega), Nat.add_sub_cancel_left]

theorem fill_out (h : i < o ∨ o + n ≤ i) : fill b o n f i = b i := by
  unfold fill
  rw [if_neg (by omega)]

def put32 (b : Buffer) (o v : Nat) : Buffer := fill b o 4 (byte v)

theorem get32_put32 (b : Buffer) (o v : Nat) : get32 (put32 b o v) o = v % 4294967296 :=
  get32_of_bytes fun _ hk => fill_in hk

theorem get32_put32_of_disjoint (h : i + 4 ≤ o ∨ o + 4 ≤ i) : get32 (put32 b o v) i = get32 b i :=
  get32_congr fun _ hk => fill_out (by omega)

def get64 (b : Buffer) (o : Nat) : Nat := get32 b o + get32 b (o + 4) * 4294967296

def put64 (b : Buffer) (o v : Nat) : Buffer := fill b o 8 (byte v)

theorem get64_lt (b : Buffer) (o : Nat) : get64 b o < 18446744073709551616 := by
  have hlow := get32_lt b o
  have hhigh := get32_lt b (o + 4)
  unfold get64
  omega

theorem get64_zero (o : Nat) : get64 (fun _ => 0) o = 0 := by
  unfold get64
  rw [get32_zero, get32_zero]

theorem get64_put64 (b : Buffer) (o v : Nat) : get64 (put64 b o v) o = v % 18446744073709551616 := by
  have hlow : get32 (put64 b o v) o = v % 4294967296 :=
    get32_of_bytes fun k hk => fill_in (by omega)
  have hhigh : get32 (put64 b o v) (o + 4) = v / 4294967296 % 4294967296 := by
    apply get32_of_bytes
    intro k hk
    have hbyte : byte (v / 4294967296) k = byte v (4 + k) := by
      unfold byte
      rw [Nat.div_div_eq_div_mul, Nat.pow_add]
    unfold put64
    rw [Nat.add_assoc, fill_in (by omega), hbyte]
  unfold get64
  rw [hlow, hhigh]
  omega

theorem get64_put64_of_disjoint (h : i + 8 ≤ o ∨ o + 8 ≤ i) : get64 (put64 b o v) i = get64 b i := by
  have hsame : ∀ j, i ≤ j → j < i + 8 → put64 b o v j = b j := fun j _ _ => fill_out (by omega)
  have hlow : get32 (put64 b o v) i = get32 b i :=
    get32_congr fun k hk => hsame _ (by omega) (by omega)
  have hhigh : get32 (put64 b o v) (i + 4) = get32 b (i + 4) :=
    get32_congr fun k hk => hsame _ (by omega) (by omega)
  unfold get64
  rw [hlow, hhigh]

/-! ## Bits -/

def bit (b : Buffer) (i : Nat) : Bool := (b (i / 8)).toNat.testBit (i % 8)

def setBit (b : Buffer) (i : Nat) : Buffer :=
  Function.update b (i / 8) (UInt8.ofNat ((b (i / 8)).toNat ||| 1 <<< (i % 8)))

def clearBit (b : Buffer) (i : Nat) : Buffer :=
  Function.update b (i / 8) (UInt8.ofNat ((b (i / 8)).toNat &&& (255 ^^^ 1 <<< (i % 8))))

theorem shift_lt (i : Nat) : 1 <<< (i % 8) < 256 := by
  rw [Nat.one_shiftLeft]
  exact Nat.pow_lt_pow_right (by decide) (Nat.mod_lt _ (by decide))

theorem bit_setBit : bit (setBit b i) j = (bit b j || decide (i = j)) := by
  unfold bit setBit
  by_cases hbyte : j / 8 = i / 8
  · rw [hbyte, Function.update_self, UInt8.toNat_ofNat', Nat.mod_eq_of_lt]
    · rw [Nat.testBit_or, Nat.one_shiftLeft, Nat.testBit_two_pow]
      congr 1
      exact decide_eq_decide.mpr ⟨fun h => by omega, fun h => by rw [h]⟩
    · exact Nat.or_lt_two_pow (n := 8) (b (i / 8)).toNat_lt (shift_lt i)
  · rw [Function.update_of_ne hbyte, decide_eq_false (fun h => hbyte (by rw [h])), Bool.or_false]

theorem bit_clearBit : bit (clearBit b i) j = (bit b j && !decide (i = j)) := by
  unfold bit clearBit
  by_cases hbyte : j / 8 = i / 8
  · rw [hbyte, Function.update_self, UInt8.toNat_ofNat', Nat.mod_eq_of_lt]
    · have hall : Nat.testBit 255 (j % 8) = true := by
        rw [show 255 = 2 ^ 8 - 1 from rfl, Nat.testBit_two_pow_sub_one]
        exact decide_eq_true (Nat.mod_lt _ (by decide))
      rw [Nat.testBit_and, Nat.testBit_xor, hall, Nat.one_shiftLeft, Nat.testBit_two_pow,
        Bool.true_xor]
      congr 2
      exact decide_eq_decide.mpr ⟨fun h => by omega, fun h => by rw [h]⟩
    · exact Nat.lt_of_le_of_lt Nat.and_le_left (b (i / 8)).toNat_lt
  · rw [Function.update_of_ne hbyte, decide_eq_false (fun h => hbyte (by rw [h])), Bool.not_false,
      Bool.and_true]

end bytes
