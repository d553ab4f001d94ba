-- A redo log: entries of an address and a value, which are replayed over a
-- memory. What the replay gives does not change while entries are installed,
-- whatever their order and however often it starts again.
import Mathlib.Logic.Function.Basic

namespace redo

variable {A β : Type*} {home : A → Prop} {es : List (A × β)} {m m' c : A → β}

/-- A replay of the entries over the memory gives the contents `c`, at the addresses
outside the log. -/
structure Replays (home : A → Prop) (es : List (A × β)) (m c : A → β) : Prop where
  entry : ∀ e ∈ es, home e.1 ∧ e.2 = c e.1
  other : ∀ a, home a → (∀ e ∈ es, e.1 ≠ a) → m a = c a

theorem replays_nil : Replays home [] m c ↔ ∀ a, home a → m a = c a := by
  constructor
  · intro h a ha
    exact h.other a ha (by simp)
  · intro h
    exact { entry := by simp, other := fun a ha _ => h a ha }

/-- Only the memory outside the log and the contents there matter. -/
theorem Replays.congr {c' : A → β} (h : Replays home es m c) (hm : ∀ a, home a → m' a = m a)
    (hc : ∀ a, home a → c' a = c a) : Replays home es m' c' where
  entry e he := ⟨(h.entry e he).1, by rw [hc _ (h.entry e he).1, (h.entry e he).2]⟩
  other a ha hne := by rw [hm a ha, hc a ha, h.other a ha hne]

/-- A value of the contents may be written at any time. -/
theorem Replays.install [DecidableEq A] {a : A} (h : Replays home es m c) :
    Replays home es (Function.update m a (c a)) c where
  entry := h.entry
  other b hb hne := by
    by_cases hba : b = a
    · rw [hba, Function.update_self]
    · rw [Function.update_of_ne hba]
      exact h.other b hb hne

/-- With all entries installed the memory holds the contents. -/
theorem Replays.installed (h : Replays home es m c) (hdone : ∀ e ∈ es, m e.1 = c e.1) {a : A}
    (ha : home a) : m a = c a := by
  by_cases hmem : ∃ e ∈ es, e.1 = a
  · obtain ⟨e, he, rfl⟩ := hmem
    exact hdone e he
  · exact h.other a ha fun e he hea => hmem ⟨e, he, hea⟩

end redo
