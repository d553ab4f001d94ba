-- Radix trees in a store: a cell of a table may refer to a further table.
-- No table is at two paths, so that a cell is changed at one path only, and
-- a new table can be hung below a cell that was empty.
import Mathlib.Data.List.Basic
import Mathlib.Data.List.Nodup

namespace radix

variable {A I W : Type*}

/-- The table at the end of a path, whose last step stands first. -/
def node (child : W → Option A) (s : A → I → W) (t : A) : List I → Option A
  | [] => some t
  | i :: p => (node child s t p).bind fun a => child (s a i)

/-- No table of the first `n` levels is at two paths. -/
def Separate (child : W → Option A) (s : A → I → W) (t : A) (n : Nat) : Prop :=
  ∀ p q a, p.length ≤ n → q.length ≤ n → node child s t p = some a → node child s t q = some a → p = q

variable {child : W → Option A} {s s' : A → I → W} {t a b c : A} {n : Nat} {i j : I} {p q : List I}

theorem node_append : node child s t (p ++ q) = (node child s t q).bind fun c => node child s c p := by
  induction p with
  | nil => simp [node]
  | cons i p ih =>
    rw [List.cons_append, node, ih, Option.bind_assoc]
    rfl

/-- Tables that are not on the way do not matter. -/
theorem node_congr (h : ∀ q a, q.length < n → node child s t q = some a → s' a = s a)
    (hp : p.length ≤ n) : node child s' t p = node child s t p := by
  induction p with
  | nil => rfl
  | cons i p ih =>
    rw [List.length_cons] at hp
    rw [node, node, ih (by omega)]
    cases hnode : node child s t p with
    | none => rfl
    | some a => rw [Option.bind_some, Option.bind_some, h p a (by omega) hnode]

/-! ## Changes -/

/-- The tables of the last level refer to no further ones. -/
theorem node_set (h : Separate child s t n) (hq : node child s t q = some a) (hlen : q.length = n)
    (hs : ∀ b, b ≠ a → s' b = s b) (hp : p.length ≤ n) : node child s' t p = node child s t p := by
  apply node_congr (fun q' b hq' hb => hs b ?_) hp
  rintro rfl
  have heq := h q' q b (by omega) (by omega) hb hq
  rw [heq] at hq'
  omega

theorem Separate.congr (h : Separate child s t n)
    (hs : ∀ p, p.length ≤ n → node child s' t p = node child s t p) : Separate child s' t n := by
  intro p q a hp hq h₁ h₂
  rw [hs p hp] at h₁
  rw [hs q hq] at h₂
  exact h p q a hp hq h₁ h₂

section

variable (h : Separate child s t n) (hq : node child s t q = some a) (hlen : q.length < n)
  (hnone : child (s a i) = none) (hfresh : ∀ p, p.length ≤ n → node child s t p ≠ some b)
  (hs : ∀ c, c ≠ a → c ≠ b → s' c = s c) (ha : ∀ j, j ≠ i → s' a j = s a j)
  (hw : child (s' a i) = some b) (hb : ∀ j, child (s' b j) = none)

include h hq hlen hnone hfresh hs ha hw hb

/-- A new table, which has nothing in it, is hung below a cell that was empty. -/
theorem node_grow (hp : p.length ≤ n) :
    node child s' t p = some c ↔ p = i :: q ∧ c = b ∨ node child s t p = some c := by
  induction p generalizing c with
  | nil => simp [node]
  | cons j p ih =>
    rw [List.length_cons] at hp
    have hfind : ∀ c, node child s' t p = some c → (p = i :: q ∧ c = b) ∨ node child s t p = some c :=
      fun c hc => (ih (c := c) (by omega)).mp hc
    constructor
    · intro hc
      rw [node, Option.bind_eq_some_iff] at hc
      obtain ⟨x, hx, hc⟩ := hc
      rcases hfind x hx with ⟨-, rfl⟩ | hx
      · rw [hb] at hc
        cases hc
      · have hxb : x ≠ b := fun heq => hfresh p (by omega) (heq ▸ hx)
        by_cases hxa : x = a
        · subst hxa
          obtain rfl := h p q x (by omega) (by omega) hx hq
          by_cases hji : j = i
          · subst hji
            rw [hw] at hc
            exact Or.inl ⟨rfl, (Option.some.inj hc).symm⟩
          · rw [ha j hji] at hc
            refine Or.inr ?_
            rw [node, hx, Option.bind_some, hc]
        · rw [hs x hxa hxb] at hc
          refine Or.inr ?_
          rw [node, hx, Option.bind_some, hc]
    · rintro (⟨heq, rfl⟩ | hc)
      · obtain ⟨rfl, rfl⟩ := List.cons.inj heq
        have hold : node child s' t p = some a := (ih (by omega)).mpr (Or.inr hq)
        rw [node, hold, Option.bind_some, hw]
      · rw [node, Option.bind_eq_some_iff] at hc
        obtain ⟨x, hx, hc⟩ := hc
        have hxb : x ≠ b := fun heq => hfresh p (by omega) (heq ▸ hx)
        have hold : node child s' t p = some x := (ih (by omega)).mpr (Or.inr hx)
        rw [node, hold, Option.bind_some, ← hc]
        by_cases hxa : x = a
        · subst hxa
          obtain rfl := h p q x (by omega) (by omega) hx hq
          rw [ha j]
          rintro rfl
          rw [hnone] at hc
          cases hc
        · rw [hs x hxa hxb]

theorem Separate.grow : Separate child s' t n := by
  have hgrow := fun (p : List I) c hp =>
    node_grow h hq hlen hnone hfresh hs ha hw hb (p := p) (c := c) hp
  intro p p' c hp hp' h₁ h₂
  rw [hgrow p c hp] at h₁
  rw [hgrow p' c hp'] at h₂
  rcases h₁ with ⟨rfl, rfl⟩ | h₁ <;> rcases h₂ with ⟨rfl, hc⟩ | h₂
  · rfl
  · exact absurd h₂ (hfresh p' hp')
  · exact absurd (hc ▸ h₁) (hfresh p hp)
  · exact h p p' c hp hp' h₁ h₂

end

/-! ## The tables of a tree -/

/-- The tables of the first `n` levels below a table and the table itself, each one behind those that
it refers to. -/
def tables (child : W → Option A) (s : A → I → W) (idx : List I) : Nat → A → List A
  | 0, t => [t]
  | n + 1, t => (idx.flatMap fun i => (child (s t i)).elim [] (tables child s idx n)) ++ [t]

variable {idx : List I}

theorem node_snoc (hc : child (s t i) = some c) : node child s t (p ++ [i]) = node child s c p := by
  rw [node_append]
  change ((some t).bind fun a => child (s a i)).bind _ = _
  rw [Option.bind_some, hc, Option.bind_some]

theorem self_mem_tables (child : W → Option A) (s : A → I → W) (idx : List I) (n : Nat) (t : A) :
    t ∈ tables child s idx n t := by
  cases n with
  | zero => exact List.mem_singleton_self t
  | succ n => exact List.mem_append_right _ (List.mem_singleton_self t)

theorem mem_tables (hidx : ∀ i, i ∈ idx) :
    a ∈ tables child s idx n t ↔ ∃ p, p.length ≤ n ∧ node child s t p = some a := by
  induction n generalizing t with
  | zero =>
    rw [tables, List.mem_singleton]
    constructor
    · rintro rfl
      exact ⟨[], Nat.le_refl _, rfl⟩
    · rintro ⟨p, hp, ha⟩
      obtain rfl := List.eq_nil_of_length_eq_zero (Nat.eq_zero_of_le_zero hp)
      exact (Option.some.inj ha).symm
  | succ n ih =>
    rw [tables, List.mem_append, List.mem_flatMap, List.mem_singleton]
    constructor
    · rintro (⟨i, -, hi⟩ | rfl)
      · cases hc : child (s t i) with
        | none =>
          rw [hc] at hi
          exact absurd hi List.not_mem_nil
        | some c =>
          rw [hc] at hi
          obtain ⟨p, hp, ha⟩ := ih.mp hi
          refine ⟨p ++ [i], ?_, ?_⟩
          · rw [List.length_append, List.length_singleton]
            omega
          · rw [node_snoc hc]
            exact ha
      · exact ⟨[], Nat.zero_le _, rfl⟩
    · rintro ⟨p, hp, ha⟩
      rcases List.eq_nil_or_concat p with rfl | ⟨p, i, rfl⟩
      · exact Or.inr (Option.some.inj ha).symm
      · rw [List.concat_eq_append] at hp ha
        rw [List.length_append, List.length_singleton] at hp
        refine Or.inl ⟨i, hidx i, ?_⟩
        cases hc : child (s t i) with
        | none =>
          rw [node_append, node, node, Option.bind_some, hc] at ha
          cases ha
        | some c =>
          rw [node_snoc hc] at ha
          exact ih.mpr ⟨p, by omega, ha⟩

/-- The tree below a cell. -/
theorem Separate.below (h : Separate child s t (n + 1)) (hc : child (s t i) = some c) :
    Separate child s c n := by
  intro p q a hp hq h₁ h₂
  rw [← node_snoc hc] at h₁ h₂
  have heq := h (p ++ [i]) (q ++ [i]) a (by simp; omega) (by simp; omega) h₁ h₂
  exact List.append_cancel_right heq

theorem nodup_tables (hidx : ∀ i, i ∈ idx) (hnodup : idx.Nodup) (h : Separate child s t n) :
    (tables child s idx n t).Nodup := by
  induction n generalizing t with
  | zero => exact List.nodup_singleton t
  | succ n ih =>
    have hpath : ∀ i a, a ∈ (child (s t i)).elim [] (tables child s idx n) →
        ∃ p, (p ++ [i]).length ≤ n + 1 ∧ node child s t (p ++ [i]) = some a := by
      intro i a ha
      cases hc : child (s t i) with
      | none =>
        rw [hc] at ha
        exact absurd ha List.not_mem_nil
      | some c =>
        rw [hc] at ha
        obtain ⟨p, hp, ha⟩ := (mem_tables hidx).mp ha
        refine ⟨p, ?_, by rwa [node_snoc hc]⟩
        rw [List.length_append, List.length_singleton]
        omega
    rw [tables, List.nodup_append]
    refine ⟨?_, List.nodup_singleton t, ?_⟩
    · rw [List.nodup_flatMap]
      refine ⟨fun i _ => ?_, hnodup.imp ?_⟩
      · cases hc : child (s t i) with
        | none => exact List.nodup_nil
        | some c => exact ih (h.below hc)
      · intro i j hij a hi hj
        obtain ⟨p, hp, h₁⟩ := hpath i a hi
        obtain ⟨q, hq, h₂⟩ := hpath j a hj
        have heq := h _ _ a hp hq h₁ h₂
        exact hij (List.singleton_inj.mp (List.append_inj' heq rfl).2)
    · intro a ha b hb hab
      rw [List.mem_singleton] at hb
      subst hb hab
      obtain ⟨i, -, hi⟩ := List.mem_flatMap.mp ha
      obtain ⟨p, hp, h₁⟩ := hpath i a hi
      have heq := h _ [] a hp (Nat.zero_le _) h₁ rfl
      exact List.append_ne_nil_of_right_ne_nil p (List.cons_ne_nil i []) heq

/-- What is in the tables determines them. -/
theorem tables_congr (hs : ∀ a ∈ tables child s idx n t, s' a = s a) :
    tables child s' idx n t = tables child s idx n t := by
  induction n generalizing t with
  | zero => rfl
  | succ n ih =>
    have htop : s' t = s t := by
      apply hs
      rw [tables]
      exact List.mem_append_right _ (List.mem_singleton_self t)
    rw [tables, tables, htop]
    congr 1
    apply List.flatMap_congr
    intro i hi
    cases hc : child (s t i) with
    | none => rfl
    | some c =>
      apply ih
      intro a ha
      apply hs
      rw [tables]
      refine List.mem_append_left _ (List.mem_flatMap.mpr ⟨i, hi, ?_⟩)
      rw [hc]
      exact ha

end radix
