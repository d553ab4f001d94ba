-- Threads that run code with mutexes. A check of the code alone tells that a
-- thread locks only what it does not hold, unlocks only what it holds and is
-- where it must hold a mutex: the check holds in every interleaving.
import Mathlib.Data.Fintype.Basic
import Mathlib.Logic.Function.Basic

namespace locks

/-- What a statement means for the mutexes. -/
inductive Effect (M : Type*)
  | acquire (m : M)
  | release (m : M)
  /-- the thread must hold the mutex -/
  | needs (m : M)
  /-- the thread must hold none -/
  | clear
  | plain
deriving DecidableEq

variable {M T S : Type*} [DecidableEq M] [DecidableEq T]

/-! ## The check of the code -/

/-- The code is right for a thread that holds these mutexes, and gives them
all back. -/
def Ok (held : M → Bool) : List (Effect M) → Prop
  | [] => ∀ m, held m = false
  | .acquire m :: es => held m = false ∧ Ok (Function.update held m true) es
  | .release m :: es => held m = true ∧ Ok (Function.update held m false) es
  | .needs m :: es => held m = true ∧ Ok held es
  | .clear :: es => (∀ m, held m = false) ∧ Ok held es
  | .plain :: es => Ok held es

def decideOk [Fintype M] : (held : M → Bool) → (es : List (Effect M)) → Decidable (Ok held es)
  | _, [] => Fintype.decidableForallFintype
  | _, .acquire _ :: es => @instDecidableAnd _ _ _ (decideOk _ es)
  | _, .release _ :: es => @instDecidableAnd _ _ _ (decideOk _ es)
  | _, .needs _ :: es => @instDecidableAnd _ _ _ (decideOk _ es)
  | _, .clear :: es => @instDecidableAnd _ _ Fintype.decidableForallFintype (decideOk _ es)
  | _, .plain :: es => decideOk _ es

instance [Fintype M] (held : M → Bool) (es : List (Effect M)) : Decidable (Ok held es) :=
  decideOk held es

/-- Code that gives everything back can be followed by code that needs nothing. -/
theorem Ok.append {held : M → Bool} {es fs : List (Effect M)} (h : Ok held es)
    (hf : Ok (fun _ => false) fs) : Ok held (es ++ fs) := by
  induction es generalizing held with
  | nil =>
    have heq : held = fun _ => false := funext h
    exact heq ▸ hf
  | cons e es ih =>
    cases e with
    | acquire m => exact ⟨h.1, ih h.2⟩
    | release m => exact ⟨h.1, ih h.2⟩
    | needs m => exact ⟨h.1, ih h.2⟩
    | clear => exact ⟨h.1, ih h.2⟩
    | plain => exact ih h

/-! ## Threads -/

/-- The mutexes of a thread. -/
def holds (owner : M → Option T) (t : T) : M → Bool := fun m => owner m = some t

section
variable {owner : M → Option T} {m : M} {t u : T}

theorem holds_acquire (h : owner m = none) :
    holds (Function.update owner m (some t)) u =
      if u = t then Function.update (holds owner u) m true else holds owner u := by
  funext m'
  by_cases hm : m' = m
  · subst hm
    by_cases hu : u = t
    · simp [holds, hu]
    · simp [holds, hu, h, Ne.symm hu]
  · by_cases hu : u = t <;> simp [holds, hu, hm]

theorem holds_release (h : owner m = some t) :
    holds (Function.update owner m none) u =
      if u = t then Function.update (holds owner u) m false else holds owner u := by
  funext m'
  by_cases hm : m' = m
  · subst hm
    by_cases hu : u = t
    · simp [holds, hu]
    · simp [holds, hu, h, Ne.symm hu]
  · by_cases hu : u = t <;> simp [holds, hu, hm]

end

/-- The code of every thread is right for what the thread holds. -/
def Guarded (effect : S → Effect M) (owner : M → Option T) (code : T → List S) : Prop :=
  ∀ t, Ok (holds owner t) ((code t).map effect)

section
variable {effect : S → Effect M} {owner : M → Option T} {code : T → List S} {m : M} {t : T}
variable {s : S} {rest next : List S}

/-- A thread goes on with other code and the same mutexes. -/
theorem Guarded.move (h : Guarded effect owner code)
    (hnext : Ok (holds owner t) (next.map effect)) :
    Guarded effect owner (Function.update code t next) := by
  intro u
  by_cases hu : u = t
  · subst hu
    rwa [Function.update_self]
  · rw [Function.update_of_ne hu]
    exact h u

theorem Guarded.head (h : Guarded effect owner code) (hc : code t = s :: rest) :
    Ok (holds owner t) (effect s :: rest.map effect) := by
  have ht := h t
  rwa [hc] at ht

theorem Guarded.acquire (h : Guarded effect owner code) (hc : code t = s :: rest)
    (he : effect s = .acquire m) (hfree : owner m = none) :
    Guarded effect (Function.update owner m (some t)) (Function.update code t rest) := by
  have hhead := h.head hc
  rw [he] at hhead
  intro u
  rw [holds_acquire hfree]
  by_cases hu : u = t
  · subst hu
    rw [Function.update_self, if_pos rfl]
    exact hhead.2
  · rw [Function.update_of_ne hu, if_neg hu]
    exact h u

theorem Guarded.release (h : Guarded effect owner code) (hc : code t = s :: rest)
    (he : effect s = .release m) :
    Guarded effect (Function.update owner m none) (Function.update code t rest) := by
  have hhead := h.head hc
  rw [he] at hhead
  have hown : owner m = some t := of_decide_eq_true hhead.1
  intro u
  rw [holds_release hown]
  by_cases hu : u = t
  · subst hu
    rw [Function.update_self, if_pos rfl]
    exact hhead.2
  · rw [Function.update_of_ne hu, if_neg hu]
    exact h u

/-- A thread at a place where it holds nothing may run any code that needs nothing. -/
theorem Guarded.clear (h : Guarded effect owner code) (hc : code t = s :: rest)
    (he : effect s = .clear) (hnext : Ok (fun _ : M => false) (next.map effect)) :
    Guarded effect owner (Function.update code t (next ++ rest)) := by
  have hhead := h.head hc
  rw [he] at hhead
  have hnone : holds owner t = fun _ => false := funext hhead.1
  refine h.move ?_
  rw [List.map_append, hnone]
  exact hnext.append (hnone ▸ hhead.2)

end

end locks
