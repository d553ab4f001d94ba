-- Runs of a system with a partial step function, where a guard says which
-- steps the run may take. An invariant of one step is an invariant of every
-- run, and a run can be computed.
import Mathlib.Data.List.Basic

namespace runs

variable {σ α : Type*} {step : σ → α → Option σ} {ok : σ → α → Prop} {s₀ s t : σ} {as bs : List α}

/-- A run from `s₀` over the actions of the list. Each step is one that `ok`
allows in the state it starts from. -/
inductive Run (step : σ → α → Option σ) (ok : σ → α → Prop) (s₀ : σ) : List α → σ → Prop
  | nil : Run step ok s₀ [] s₀
  | snoc {as : List α} {s s' : σ} {a : α} :
      Run step ok s₀ as s → ok s a → step s a = some s' → Run step ok s₀ (as ++ [a]) s'

/-- Every step is allowed. -/
def anyStep : σ → α → Prop := fun _ _ => True

instance (s : σ) (a : α) : Decidable (anyStep s a) := isTrue trivial

/-! ## Invariants -/

/-- What holds at the start and what every allowed step keeps, holds at the
end of the run. -/
theorem Run.invariant {P : σ → Prop} (h : Run step ok s₀ as s) (h0 : P s₀)
    (hstep : ∀ s a s', P s → ok s a → step s a = some s' → P s') : P s := by
  induction h with
  | nil => exact h0
  | snoc _ hok hs ih => exact hstep _ _ _ ih hok hs

/-- An invariant that may look back: each step is taken in a state that the
run itself reaches. -/
theorem Run.invariant_along {P : List α → σ → Prop} (h : Run step ok s₀ as s) (h0 : P [] s₀)
    (hstep : ∀ as s a s', Run step ok s₀ as s → P as s → ok s a → step s a = some s' →
      P (as ++ [a]) s') : P as s := by
  induction h with
  | nil => exact h0
  | snoc hr hok hs ih => exact hstep _ _ _ _ hr ih hok hs

theorem Run.mono {ok' : σ → α → Prop} (h : Run step ok s₀ as s)
    (hok : ∀ s a, ok s a → ok' s a) : Run step ok' s₀ as s := by
  induction h with
  | nil => exact .nil
  | snoc _ h1 hs ih => exact .snoc ih (hok _ _ h1) hs

theorem Run.append (h : Run step ok s₀ as s) (h' : Run step ok s bs t) :
    Run step ok s₀ (as ++ bs) t := by
  induction h' with
  | nil => simpa using h
  | snoc _ hok hs ih =>
    rw [← List.append_assoc]
    exact .snoc ih hok hs

theorem Run.eq_of_nil (h : Run step ok s₀ [] s) : s = s₀ := by
  generalize hl : ([] : List α) = l at h
  cases h with
  | nil => rfl
  | snoc => simp at hl

/-- The first step of a run. -/
theorem Run.head {a : α} (h : Run step ok s₀ (a :: as) s) :
    ∃ s', ok s₀ a ∧ step s₀ a = some s' ∧ Run step ok s' as s := by
  generalize hl : a :: as = l at h
  induction h generalizing as with
  | nil => cases hl
  | @snoc bs t t' b hr hok hs ih =>
    cases bs with
    | nil =>
      simp only [List.nil_append, List.cons.injEq] at hl
      obtain ⟨rfl, rfl⟩ := hl
      obtain rfl := hr.eq_of_nil
      exact ⟨t', hok, hs, .nil⟩
    | cons b' bs =>
      simp only [List.cons_append, List.cons.injEq] at hl
      obtain ⟨rfl, rfl⟩ := hl
      obtain ⟨s', hok', hs', hrest⟩ := ih rfl
      exact ⟨s', hok', hs', .snoc hrest hok hs⟩

/-- The last step of a run. -/
theorem Run.last {a : α} (h : Run step ok s₀ (as ++ [a]) t) :
    ∃ s, Run step ok s₀ as s ∧ ok s a ∧ step s a = some t := by
  generalize hl : as ++ [a] = l at h
  cases h with
  | nil => simp at hl
  | snoc hr hok hs =>
    obtain ⟨rfl, heq⟩ := List.append_inj' hl rfl
    cases heq
    exact ⟨_, hr, hok, hs⟩

/-- A run stops somewhere behind its first actions. -/
theorem Run.of_append (h : Run step ok s₀ (as ++ bs) t) : ∃ s, Run step ok s₀ as s := by
  induction bs generalizing as with
  | nil => exact ⟨t, by simpa using h⟩
  | cons b bs ih =>
    rw [List.append_cons] at h
    obtain ⟨s', hs'⟩ := ih h
    obtain ⟨s, hs, -⟩ := hs'.last
    exact ⟨s, hs⟩

/-- The actions of a run determine where it ends. -/
theorem Run.unique (h : Run step ok s₀ as s) (h' : Run step ok s₀ as t) : s = t := by
  induction h generalizing t with
  | nil => exact h'.eq_of_nil.symm
  | snoc _ _ hs ih =>
    obtain ⟨u, hr, -, hu⟩ := h'.last
    rw [ih hr, hu] at hs
    exact (Option.some.inj hs).symm

/-! ## Counting along a run -/

/-- The sum of what the steps of a run count for. -/
def tally (step : σ → α → Option σ) (w : σ → α → σ → Nat) : σ → List α → Nat
  | _, [] => 0
  | s, a :: as =>
    match step s a with
    | some s' => w s a s' + tally step w s' as
    | none => 0

theorem tally_snoc {w : σ → α → σ → Nat} {a : α} (h : Run step ok s₀ as s)
    (hs : step s a = some t) : tally step w s₀ (as ++ [a]) = tally step w s₀ as + w s a t := by
  induction as generalizing s₀ with
  | nil =>
    obtain rfl := h.eq_of_nil
    simp [tally, hs]
  | cons b as ih =>
    obtain ⟨s', -, hb, hrest⟩ := h.head
    simp only [List.cons_append, tally, hb, ih hrest, Nat.add_assoc]

theorem tally_le {w : σ → α → σ → Nat} {b : Nat} (hw : ∀ s a s', w s a s' ≤ b) (s : σ)
    (as : List α) : tally step w s as ≤ as.length * b := by
  induction as generalizing s with
  | nil => simp [tally]
  | cons a as ih =>
    unfold tally
    split
    · rename_i s' _
      have h1 := hw s a s'
      have h2 := ih s'
      rw [List.length_cons, Nat.add_mul, Nat.one_mul]
      omega
    · exact Nat.zero_le _

/-- Steps that count for nothing add up to nothing. -/
theorem tally_eq_zero {w : σ → α → σ → Nat} (h : Run step ok s₀ as s)
    (hw : ∀ s a s', ok s a → w s a s' = 0) : tally step w s₀ as = 0 := by
  induction h with
  | nil => rfl
  | snoc hr hok hs ih => rw [tally_snoc hr hs, ih, hw _ _ _ hok]

/-! ## Since a step -/

/-- A step that `good` picks was taken, and none since that `bad` picks. -/
inductive Since (step : σ → α → Option σ) (good bad : σ → α → σ → Prop) (s₀ : σ) :
    List α → σ → Prop
  | now {as : List α} {s s' : σ} {a : α} : Run step anyStep s₀ as s → step s a = some s' →
      good s a s' → Since step good bad s₀ (as ++ [a]) s'
  | later {as : List α} {s s' : σ} {a : α} : Since step good bad s₀ as s → step s a = some s' →
      ¬ bad s a s' → Since step good bad s₀ (as ++ [a]) s'

theorem Since.run {good bad : σ → α → σ → Prop} (h : Since step good bad s₀ as s) :
    Run step anyStep s₀ as s := by
  induction h with
  | now hr hs _ => exact .snoc hr trivial hs
  | later _ hs _ ih => exact .snoc ih trivial hs

/-- What every picked step brings about, and what every step keeps that is not
bad, holds at the end. -/
theorem Since.invariant {good bad : σ → α → σ → Prop} {P : σ → Prop}
    (h : Since step good bad s₀ as s) (hrun : Run step ok s₀ as s)
    (hnow : ∀ as s a s', Run step ok s₀ as s → ok s a → step s a = some s' → good s a s' → P s')
    (hlater : ∀ as s a s', Run step ok s₀ as s → P s → ok s a → step s a = some s' →
      ¬ bad s a s' → P s') : P s := by
  induction h with
  | now h1 hs hgood =>
    obtain ⟨u, hr, hok, -⟩ := hrun.last
    have heq : u = _ := Run.unique (hr.mono fun _ _ _ => trivial) h1
    subst heq
    exact hnow _ _ _ _ hr hok hs hgood
  | later h1 hs hbad ih =>
    obtain ⟨u, hr, hok, -⟩ := hrun.last
    have heq : u = _ := Run.unique (hr.mono fun _ _ _ => trivial) h1.run
    subst heq
    exact hlater _ _ _ _ hr (ih hr) hok hs hbad

/-! ## Computing a run -/

/-- The state after the actions of the list, or `none` when a step is not
allowed or cannot be taken. -/
def exec (step : σ → α → Option σ) (ok : σ → α → Prop) [∀ s a, Decidable (ok s a)] :
    σ → List α → Option σ
  | s, [] => some s
  | s, a :: as => if ok s a then (step s a).bind (exec step ok · as) else none

theorem run_of_exec [∀ s a, Decidable (ok s a)] (h : exec step ok s as = some t) :
    Run step ok s as t := by
  induction as generalizing s with
  | nil =>
    simp only [exec, Option.some.injEq] at h
    subst h
    exact .nil
  | cons a as ih =>
    simp only [exec] at h
    split at h
    · rename_i hok
      obtain ⟨s', hs, hrest⟩ := Option.bind_eq_some_iff.mp h
      have hone : Run step ok s [a] s' := .snoc .nil hok hs
      simpa using hone.append (ih hrest)
    · cases h

/-- No bad step is taken in a computed run that starts after a good one. -/
theorem since_of_exec {good bad : σ → α → σ → Prop} [∀ s a, Decidable (ok s a)] {a : α} {u : σ}
    (hr : Run step anyStep s₀ as s) (hs : step s a = some t) (hgood : good s a t)
    (hbad : ∀ as s a s', Run step anyStep s₀ as s → ok s a → step s a = some s' → ¬ bad s a s')
    (h : exec step ok t bs = some u) :
    Since step good bad s₀ (as ++ [a] ++ bs) u := by
  have hsince : ∀ {cs : List α} {v : σ}, Run step ok t cs v →
      Since step good bad s₀ (as ++ [a] ++ cs) v := by
    intro cs v hrun
    induction hrun with
    | nil =>
      rw [List.append_nil]
      exact .now hr hs hgood
    | snoc _ hok hstep ih =>
      rw [← List.append_assoc]
      exact .later ih hstep (hbad _ _ _ _ ih.run hok hstep)
  exact hsince (run_of_exec h)

end runs
