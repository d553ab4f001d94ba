-- Tokens that are passed on: each turn takes one token away and puts any
-- number of others in its place, each one hop further. This goes on forever
-- exactly when some token can come to a cycle of hops.
import Mathlib.Data.Fintype.EquivFin
import Mathlib.Logic.Hydra
import Mathlib.Order.WellFounded

open Relation

namespace tokens

variable {V : Type*} {hop : V → V → Prop}

/-- Hops lead from `x` to a place that lies on a cycle of hops. -/
def CanLoop (hop : V → V → Prop) (x : V) : Prop := ∃ y, ReflTransGen hop x y ∧ TransGen hop y y

/-! ## A token that can loop -/

theorem CanLoop.next {x : V} (h : CanLoop hop x) : ∃ y, hop x y ∧ CanLoop hop y := by
  obtain ⟨y, hxy, hyy⟩ := h
  rcases hxy.cases_head with rfl | ⟨z, hxz, hzy⟩
  · obtain ⟨z, hxz, hzx⟩ := TransGen.head'_iff.mp hyy
    exact ⟨z, hxz, x, hzx, hyy⟩
  · exact ⟨z, hxz, y, hzy, hyy⟩

/-! ## Tokens that cannot -/

/-- With finitely many places ahead and no cycle among them, hops come to an end. -/
theorem acc_of_finite {x : V} (hfin : {y | ReflTransGen hop x y}.Finite)
    (h : ¬ CanLoop hop x) : Acc (fun y z => hop z y) x := by
  have := hfin.to_subtype
  let r : {y | ReflTransGen hop x y} → {y | ReflTransGen hop x y} → Prop :=
    fun a b => TransGen hop b.1 a.1
  have htrans : IsTrans _ r := ⟨fun _ _ _ hab hbc => hbc.trans hab⟩
  have hirrefl : Std.Irrefl r := ⟨fun a ha => h ⟨a.1, a.2, ha⟩⟩
  have hwf : WellFounded r := Finite.wellFounded_of_trans_of_irrefl r
  have hacc : ∀ a : {y | ReflTransGen hop x y}, Acc (fun y z => hop z y) a.1 := by
    intro a
    induction a using hwf.induction with
    | _ a ih =>
      constructor
      intro y hy
      exact ih ⟨y, a.2.tail hy⟩ (.single hy)
  exact hacc ⟨x, .refl⟩

/-- One turn: a token of the bag gives way to tokens one hop further. -/
def Turn (hop : V → V → Prop) (s s' : Multiset V) : Prop :=
  ∃ a ∈ s, ∃ t : Multiset V, (∀ b ∈ t, hop a b) ∧ s' + {a} = s + t

/-- The new tokens of a turn are in the bag after it. -/
theorem mem_after_turn {s s' t : Multiset V} {a b : V} (ha : a ∈ s) (heq : s' + {a} = s + t)
    (hb : b ∈ t) : b ∈ s' := by
  obtain ⟨u, rfl⟩ := Multiset.exists_cons_of_mem ha
  have hs' : s' = u + t := by
    rw [Multiset.add_comm s', Multiset.singleton_add, Multiset.cons_add, Multiset.cons_inj_right] at heq
    exact heq
  rw [hs']
  exact Multiset.mem_add.mpr (Or.inr hb)

/-- The tokens of the bag all come to an end. -/
def Ends (hop : V → V → Prop) (s : Multiset V) : Prop := ∀ a ∈ s, Acc (fun y z => hop z y) a

theorem Ends.turn {s s' : Multiset V} (h : Ends hop s) (ht : Turn hop s s') : Ends hop s' := by
  obtain ⟨a, ha, t, hhop, heq⟩ := ht
  intro b hb
  have hmem : b ∈ s + t := by
    rw [← heq]
    exact Multiset.mem_add.mpr (Or.inl hb)
  rcases Multiset.mem_add.mp hmem with h1 | h1
  · exact h b h1
  · exact (h a ha).inv (hhop b h1)

/-- The hops of a token that comes to an end. No place is such a hop from itself. -/
def EndingHop (hop : V → V → Prop) (y z : V) : Prop := hop z y ∧ Acc (fun y z => hop z y) z

theorem not_hop_self_of_acc {a : V} (h : Acc (fun y z => hop z y) a) : ¬ hop a a := by
  induction h with
  | intro a _ ih => exact fun hself => ih a hself hself

instance : Std.Irrefl (EndingHop hop) := ⟨fun _ h => not_hop_self_of_acc h.2 h.1⟩

theorem acc_turn_of_ends {s : Multiset V} (h : Ends hop s) :
    Acc (fun s' s => Turn hop s s') s := by
  have hcut : Acc (CutExpand (EndingHop hop)) s := by
    apply acc_of_singleton
    intro a ha
    have hacc : Acc (EndingHop hop) a := Subrelation.accessible (fun hyz => hyz.1) (h a ha)
    exact hacc.cutExpand
  -- while all tokens end, a turn is a cut of the hydra
  induction hcut with
  | intro s _ ih =>
    constructor
    intro s' hturn
    have hs' := h.turn hturn
    obtain ⟨a, ha, t, hhop, heq⟩ := hturn
    exact ih s' ⟨t, a, fun b hb => ⟨hhop b hb, h a ha⟩, heq⟩ hs'

/-! ## Infinite sequences -/

/-- From an accessible point no sequence goes down forever. -/
theorem ends_of_acc {S : Type*} {r : S → S → Prop} {s : S} (h : Acc r s) :
    ∀ f : Nat → S, f 0 = s → ∃ i, ¬ r (f (i + 1)) (f i) := by
  induction h with
  | intro s _ ih =>
    rintro f rfl
    by_cases h0 : r (f 1) (f 0)
    · obtain ⟨i, hi⟩ := ih (f 1) h0 (fun i => f (i + 1)) rfl
      exact ⟨i + 1, hi⟩
    · exact ⟨0, h0⟩

/-- A property that always has a next step has an infinite sequence. -/
theorem exists_sequence {S : Type*} {P : S → Prop} {step : S → S → Prop}
    (hnext : ∀ s, P s → ∃ s', step s s' ∧ P s') {s : S} (hs : P s) :
    ∃ f : Nat → S, f 0 = s ∧ ∀ i, step (f i) (f (i + 1)) := by
  choose g hg using hnext
  let f : Nat → {s // P s} := fun i => Nat.rec ⟨s, hs⟩ (fun _ t => ⟨g t.1 t.2, (hg t.1 t.2).2⟩) i
  exact ⟨fun i => (f i).1, rfl, fun i => (hg (f i).1 (f i).2).1⟩

end tokens
