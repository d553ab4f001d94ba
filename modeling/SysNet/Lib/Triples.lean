-- Pre- and postconditions of programs with a state that may fail. A triple
-- says what holds when the program returns, and nothing when it fails.
import Mathlib.Control.Basic

namespace triples

variable {σ ε α β : Type} {P P' : σ → Prop} {Q Q' : α → σ → Prop} {R : β → σ → Prop}
  {m : StateT σ (Except ε) α} {f : α → StateT σ (Except ε) β}

/-- When `m` starts where `P` holds and returns `a`, then `Q a` holds. -/
def Triple (P : σ → Prop) (m : StateT σ (Except ε) α) (Q : α → σ → Prop) : Prop :=
  ∀ s a s', P s → m s = .ok (a, s') → Q a s'

/-! ## Results -/

theorem ok_of_pure {a b : α} {s s' : σ}
    (h : (pure a : StateT σ (Except ε) α) s = .ok (b, s')) : a = b ∧ s = s' :=
  Prod.mk.inj (Except.ok.inj h)

theorem ok_of_bind {b : β} {s s'' : σ} (h : (m >>= f) s = .ok (b, s'')) :
    ∃ a s', m s = .ok (a, s') ∧ f a s' = .ok (b, s'') := by
  change (Except.bind (m s) fun r => f r.1 r.2) = _ at h
  rcases hm : m s with e | ⟨a, s'⟩
  · rw [hm] at h
    cases h
  · rw [hm] at h
    exact ⟨a, s', rfl, h⟩

theorem ok_of_get {g : σ → StateT σ (Except ε) β} {b : β} {s s' : σ}
    (h : (get >>= g : StateT σ (Except ε) β) s = .ok (b, s')) : g s s = .ok (b, s') := h

theorem ok_of_modify {g : σ → σ} {u : PUnit} {s s' : σ}
    (h : (modify g : StateT σ (Except ε) PUnit) s = .ok (u, s')) : s' = g s :=
  (Prod.mk.inj (Except.ok.inj h)).2.symm

/-! ## Rules -/

theorem Triple.ret {a : α} (h : ∀ s, P s → Q a s) : Triple P (pure a : StateT σ (Except ε) α) Q := by
  intro s b s' hs heq
  obtain ⟨rfl, rfl⟩ := ok_of_pure heq
  exact h s hs

theorem Triple.bind (h : Triple P m Q) (h' : ∀ a, Triple (Q a) (f a) R) : Triple P (m >>= f) R := by
  intro s b s'' hs heq
  obtain ⟨a, s', hm, hf⟩ := ok_of_bind heq
  exact h' a s' b s'' (h s a s' hs hm) hf

theorem Triple.pre (h : Triple P m Q) (hP : ∀ s, P' s → P s) : Triple P' m Q :=
  fun s a s' hs heq => h s a s' (hP s hs) heq

theorem Triple.post (h : Triple P m Q) (hQ : ∀ a s, Q a s → Q' a s) : Triple P m Q' :=
  fun s a s' hs heq => hQ a s' (h s a s' hs heq)

/-- A program that fails meets every postcondition. -/
theorem Triple.fail (e : ε) : Triple P (throw e : StateT σ (Except ε) α) Q := by
  intro s a s' _ heq
  cases heq

/-- The state that is read is the one that the rest starts from. -/
theorem Triple.reading {g : σ → StateT σ (Except ε) β}
    (h : ∀ s₀, Triple (fun s => s = s₀ ∧ P s) (g s₀) R) : Triple P (get >>= g) R :=
  fun s b s' hs heq => h s s b s' ⟨rfl, hs⟩ (ok_of_get heq)

/-- The state is read, and it does not matter what is found there. -/
theorem Triple.look {g : σ → StateT σ (Except ε) β} (h : ∀ s₀, Triple P (g s₀) R) :
    Triple P (get >>= g) R :=
  Triple.reading fun s₀ => (h s₀).pre fun _ hs => hs.2

theorem Triple.write {g : σ → σ} {Q : PUnit → σ → Prop} (h : ∀ s, P s → Q ⟨⟩ (g s)) :
    Triple P (modify g : StateT σ (Except ε) PUnit) Q := by
  intro s a s' hs heq
  rw [ok_of_modify heq]
  exact h s hs

theorem Triple.split {c : Prop} [Decidable c] {m' : StateT σ (Except ε) α}
    (h : c → Triple P m Q) (h' : ¬ c → Triple P m' Q) : Triple P (if c then m else m') Q := by
  by_cases hc : c
  · rw [if_pos hc]
    exact h hc
  · rw [if_neg hc]
    exact h' hc

/-- A condition that decides what is done first, before both ways meet again. -/
theorem Triple.join {c : Prop} [Decidable c] {m' : StateT σ (Except ε) α} (h : c → Triple P m Q)
    (h' : ¬ c → Triple P m' Q) (hf : ∀ a, Triple (Q a) (f a) R) :
    Triple P (if c then m >>= f else m' >>= f) R :=
  Triple.split (fun hc => Triple.bind (h hc) hf) fun hc => Triple.bind (h' hc) hf

/-- A condition for something that is done first. -/
theorem Triple.first {c : Prop} [Decidable c] {m : StateT σ (Except ε) Unit} {P' : σ → Prop}
    {f : Unit → StateT σ (Except ε) β} (h : c → Triple P m fun _ => P') (h' : ¬ c → ∀ s, P s → P' s)
    (hf : Triple P' (f ()) R) : Triple P (if c then m >>= f else f ()) R :=
  Triple.split (fun hc => Triple.bind (h hc) fun _ => hf) fun hc => hf.pre (h' hc)

/-- A fact that the state does not matter for. -/
theorem Triple.lift {c : Prop} (h : c → Triple P m Q) : Triple (fun s => c ∧ P s) m Q :=
  fun s a s' hs heq => h hs.1 s a s' hs.2 heq

theorem Triple.ex {ι : Type} {P : ι → σ → Prop} (h : ∀ i, Triple (P i) m Q) :
    Triple (fun s => ∃ i, P i s) m Q := by
  rintro s a s' ⟨i, hs⟩ heq
  exact h i s a s' hs heq

theorem Triple.and (h : Triple P m Q) (h' : Triple P' m Q') :
    Triple (fun s => P s ∧ P' s) m fun a s => Q a s ∧ Q' a s :=
  fun s a s' hs heq => ⟨h s a s' hs.1 heq, h' s a s' hs.2 heq⟩

end triples
