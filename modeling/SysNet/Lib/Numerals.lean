-- Numbers in positional notation, in a base up to sixteen, and how they are read back.
import Mathlib.Data.List.Basic

namespace numerals

def digitValue (c : Char) : Option Nat :=
  if '0' ≤ c ∧ c ≤ '9' then some (c.toNat - 48)
  else if 'a' ≤ c ∧ c ≤ 'f' then some (c.toNat - 87)
  else if 'A' ≤ c ∧ c ≤ 'F' then some (c.toNat - 55)
  else none

/-- The number with one more digit behind it. -/
def push (base n : Nat) (c : Char) : Option Nat :=
  match digitValue c with
  | none => none
  | some d => if d < base then some (base * n + d) else none

def readNat (base : Nat) (t : List Char) : Option Nat :=
  if t = [] then none else t.foldlM (push base) 0

def readInt (base : Nat) : List Char → Option Int
  | '-' :: t => (readNat base t).map fun n : Nat => -(n : Int)
  | t => (readNat base t).map fun n : Nat => (n : Int)

variable {base n m d : Nat} {c : Char} {t : List Char}

theorem push_digit (hc : digitValue c = some d) (hd : d < base) :
    push base n c = some (base * n + d) := by
  unfold push
  rw [hc]
  exact if_pos hd

theorem readNat_singleton (hc : digitValue c = some d) (hd : d < base) :
    readNat base [c] = some d := by
  rw [readNat, if_neg (List.cons_ne_nil _ _), List.foldlM_cons, push_digit hc hd]
  simp

theorem readNat_snoc (h : readNat base t = some n) (hc : digitValue c = some d) (hd : d < base) :
    readNat base (t ++ [c]) = some (base * n + d) := by
  unfold readNat at h ⊢
  split at h
  · cases h
  rw [if_neg (by simp), List.foldlM_append, h]
  simp [push_digit hc hd]

theorem digitValue_of_foldlM (h : t.foldlM (push base) n = some m) (hc : c ∈ t) :
    digitValue c ≠ none := by
  induction t generalizing n with
  | nil => cases hc
  | cons x xs ih =>
    rw [List.foldlM_cons] at h
    obtain ⟨k, hk, hrest⟩ := Option.bind_eq_some_iff.mp h
    rcases List.mem_cons.mp hc with rfl | hc
    · intro hnone
      rw [push, hnone] at hk
      cases hk
    · exact ih hrest hc

theorem digitValue_of_mem (h : readNat base t = some n) (hc : c ∈ t) : digitValue c ≠ none := by
  unfold readNat at h
  split at h
  · cases h
  · exact digitValue_of_foldlM h hc

/-- A number without a sign. -/
theorem readInt_of_readNat (h : readNat base t = some n) : readInt base t = some (n : Int) := by
  unfold readInt
  split
  · exact absurd (by decide) (digitValue_of_mem h (List.mem_cons_self ..))
  · rw [h, Option.map_some]

theorem readInt_neg (h : readNat base t = some n) : readInt base ('-' :: t) = some (-(n : Int)) := by
  simp only [readInt, h, Option.map_some]

theorem sign_or_digit {i : Int} (h : readInt base t = some i) (hc : c ∈ t) :
    c = '-' ∨ digitValue c ≠ none := by
  unfold readInt at h
  split at h
  · obtain ⟨k, hk, -⟩ := Option.map_eq_some_iff.mp h
    rcases List.mem_cons.mp hc with rfl | hc
    · exact Or.inl rfl
    · exact Or.inr (digitValue_of_mem hk hc)
  · obtain ⟨k, hk, -⟩ := Option.map_eq_some_iff.mp h
    exact Or.inr (digitValue_of_mem hk hc)

theorem blank_not_mem_of_readNat (h : readNat base t = some n) : ' ' ∉ t :=
  fun hc => digitValue_of_mem h hc (by decide)

theorem blank_not_mem_of_readInt {i : Int} (h : readInt base t = some i) : ' ' ∉ t := by
  intro hc
  rcases sign_or_digit h hc with hsign | hdigit
  · exact absurd hsign (by decide)
  · exact hdigit (by decide)

end numerals
