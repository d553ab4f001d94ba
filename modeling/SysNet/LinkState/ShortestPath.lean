-- The search of `detect`: Dijkstra's algorithm over the stored links, and the
-- walk back along the parents. A missing map entry is a null that the code
-- dereferences, so the search says when it fails.
import Mathlib.Data.List.MinMax
import Mathlib.Logic.Relation
import Mathlib.Algebra.Order.BigOperators.Group.Finset
import Mathlib.Data.Nat.Cast.Basic
import SysNet.LinkState.LinkStateDatabase

namespace socs.network

/-! ## The code -/

structure Pair where
  dist : Nat
  routerID : String
deriving DecidableEq, Repr

/-- What `PriorityQueue` promises: `peek` gives an element that no other one
is below. Which of several least elements it gives is not said. -/
structure PriorityQueue where
  peek : List Pair → Option Pair
  peek_eq_none : ∀ q, peek q = none → q = []
  peek_least : ∀ q p, peek q = some p → p ∈ q ∧ ∀ x ∈ q, p.dist ≤ x.dist

/-- The queue that gives the first of the least elements. -/
def PriorityQueue.first : PriorityQueue where
  peek := List.argmin Pair.dist
  peek_eq_none := fun _ h => List.argmin_eq_none.mp h
  peek_least := fun _ _ h => ⟨List.argmin_mem h, fun _ hx => List.le_of_mem_argmin hx h⟩

/-- The maps `dist` and `parent` and the queue `pq` of `getShortestPath`. -/
structure Search where
  dist : String → Option Nat
  parent : String → Option String
  pq : List Pair

/-- How a run of the code stops without a result. The loops count down from a
bound, and `noFuel` never comes up. -/
inductive Fault
  | nullPointer
  | noFuel
deriving DecidableEq, Repr

namespace LinkStateDatabase

/-- `(int)(1e9)`. -/
def maxDist : Nat := 1000000000

def searchInit (d : LinkStateDatabase) : Search :=
  let own := d.rd.simulatedIPAddress
  { dist := Function.update (fun s => if s ∈ d.store then some maxDist else none) own (some 0)
    parent := fun s => if s ∈ d.store then some s else none
    pq := [{ dist := 0, routerID := own }] }

/-- The loop over the links of the node just taken from the queue. -/
def relax (node : String) (dis : Nat) : List LinkDescription → Search → Option Search
  | [], s => some s
  | ld :: links, s =>
    match s.dist ld.linkID with
    | none => none
    | some known =>
      if dis + 1 < known then
        relax node dis links
          { dist := Function.update s.dist ld.linkID (some (dis + 1))
            parent := Function.update s.parent ld.linkID (some node)
            pq := s.pq ++ [{ dist := dis + 1, routerID := ld.linkID }] }
      else relax node dis links s

/-- One turn of the search: `current` leaves the queue. -/
def visit (d : LinkStateDatabase) (s : Search) (current : Pair) : Option Search :=
  match d.getLSA current.routerID with
  | none => none
  | some lsa =>
    relax current.routerID current.dist lsa.links { s with pq := s.pq.erase current }

def searchLoop (q : PriorityQueue) (d : LinkStateDatabase) : Nat → Search → Except Fault Search
  | 0, _ => .error .noFuel
  | fuel + 1, s =>
    match q.peek s.pq with
    | none => .ok s
    | some current =>
      match d.visit s current with
      | none => .error .nullPointer
      | some s' => searchLoop q d fuel s'

/-- The nodes of the path that are not their own parent, from the destination back. -/
def walkBack (parent : String → Option String) : Nat → String → Except Fault (List String)
  | 0, _ => .error .noFuel
  | fuel + 1, destNode =>
    match parent destNode with
    | none => .error .nullPointer
    | some p => if p = destNode then .ok [] else (walkBack parent fuel p).map (destNode :: ·)

/-- A bound on the turns of the search: each turn takes a pair from the queue,
and each pair that enters it lowers a distance. -/
def searchFuel (d : LinkStateDatabase) : Nat := 2 * (d.store.keys.length * maxDist) + 2

/-- The route as text: the walk back ends at the own router, and is read in reverse. -/
def routeText (d : LinkStateDatabase) (path : List String) : String :=
  "->".intercalate (path ++ [d.rd.simulatedIPAddress]).reverse

def getShortestPath (q : PriorityQueue) (d : LinkStateDatabase) (destinationIP : String) :
    Except Fault String := do
  let s ← searchLoop q d d.searchFuel d.searchInit
  let path ← walkBack s.parent (maxDist + 1) destinationIP
  return d.routeText path

/-! ## What one turn of the search does -/

/-- The effect of `relax` on the search. -/
structure Relaxed (node : String) (dis : Nat) (links : List LinkDescription) (s t : Search) :
    Prop where
  known : ∀ ld ∈ links, ∃ w, t.dist ld.linkID = some w ∧ w ≤ dis + 1
  keys : ∀ k, (t.dist k).isSome = (s.dist k).isSome
  lower : ∀ k v w, s.dist k = some v → t.dist k = some w → w ≤ v
  queue : ∀ p ∈ s.pq, p ∈ t.pq
  fresh : ∀ p ∈ t.pq, p ∈ s.pq ∨ p.dist = dis + 1 ∧ (∃ ld ∈ links, ld.linkID = p.routerID) ∧
    ∃ v, s.dist p.routerID = some v ∧ dis + 1 < v
  kept : ∀ k, t.dist k = s.dist k ∧ t.parent k = s.parent k ∨
    t.dist k = some (dis + 1) ∧ t.parent k = some node ∧ ⟨dis + 1, k⟩ ∈ t.pq ∧
      ∃ v, s.dist k = some v ∧ dis + 1 < v

theorem relaxed_nil (node : String) (dis : Nat) (s : Search) : Relaxed node dis [] s s where
  known := by simp
  keys := fun _ => rfl
  lower := fun _ _ _ h1 h2 => by rw [h1] at h2; cases h2; exact Nat.le_refl _
  queue := fun _ h => h
  fresh := fun _ h => Or.inl h
  kept := fun _ => Or.inl ⟨rfl, rfl⟩

/-- A link whose target is no nearer this way. -/
theorem relaxed_skip {node : String} {dis known : Nat} {ld : LinkDescription}
    {links : List LinkDescription} {s t : Search} (hk : s.dist ld.linkID = some known)
    (hle : ¬ dis + 1 < known) (h : Relaxed node dis links s t) :
    Relaxed node dis (ld :: links) s t := by
  obtain ⟨h1, h2, h3, h4, h5, h6⟩ := h
  refine ⟨?_, h2, h3, h4, ?_, h6⟩
  · intro l hl
    rcases List.mem_cons.mp hl with rfl | hl
    · have hs := h2 l.linkID
      rw [hk, Option.isSome_some] at hs
      obtain ⟨w, hw⟩ := Option.isSome_iff_exists.mp hs
      have := h3 _ _ _ hk hw
      exact ⟨w, hw, by omega⟩
    · exact h1 l hl
  · intro p hp
    rcases h5 p hp with h | ⟨hd, ⟨l, hl, he⟩, hv⟩
    · exact Or.inl h
    · exact Or.inr ⟨hd, ⟨l, List.mem_cons_of_mem _ hl, he⟩, hv⟩

/-- A link whose target gets a smaller distance. -/
theorem relaxed_lower {node : String} {dis known : Nat} {ld : LinkDescription}
    {links : List LinkDescription} {s t : Search} (hk : s.dist ld.linkID = some known)
    (hlt : dis + 1 < known)
    (h : Relaxed node dis links
      { dist := Function.update s.dist ld.linkID (some (dis + 1))
        parent := Function.update s.parent ld.linkID (some node)
        pq := s.pq ++ [{ dist := dis + 1, routerID := ld.linkID }] } t) :
    Relaxed node dis (ld :: links) s t := by
  obtain ⟨h1, h2, h3, h4, h5, h6⟩ := h
  -- the target of the link is settled at `dis + 1`, and no later link lowers it again
  have hself : t.dist ld.linkID = some (dis + 1) ∧ t.parent ld.linkID = some node := by
    rcases h6 ld.linkID with ⟨hd, hp⟩ | ⟨hd, hp, -, -⟩
    · simp only [Function.update_self] at hd hp
      exact ⟨hd, hp⟩
    · exact ⟨hd, hp⟩
  have hnew : (⟨dis + 1, ld.linkID⟩ : Pair) ∈ t.pq := h4 _ (by simp)
  refine ⟨?_, ?_, ?_, ?_, ?_, ?_⟩
  · intro l hl
    rcases List.mem_cons.mp hl with rfl | hl
    · exact ⟨_, hself.1, Nat.le_refl _⟩
    · exact h1 l hl
  · intro k
    rw [h2 k]
    by_cases hkl : k = ld.linkID
    · subst hkl; simp [hk]
    · simp [Function.update_of_ne hkl]
  · intro k v w hv hw
    by_cases hkl : k = ld.linkID
    · subst hkl
      rw [hself.1] at hw
      rw [hk] at hv
      cases hw; cases hv
      omega
    · exact h3 k v w (by simpa [Function.update_of_ne hkl] using hv) hw
  · intro p hp
    exact h4 p (by simp [hp])
  · intro p hp
    rcases h5 p hp with h | ⟨hd, ⟨l, hl, he⟩, v, hv, hlow⟩
    · rcases List.mem_append.mp h with h | h
      · exact Or.inl h
      · simp only [List.mem_singleton] at h
        subst h
        exact Or.inr ⟨rfl, ⟨ld, by simp, rfl⟩, known, hk, hlt⟩
    · by_cases hkl : p.routerID = ld.linkID
      · rw [hkl] at hv
        simp only [Function.update_self, Option.some.injEq] at hv
        omega
      · refine Or.inr ⟨hd, ⟨l, List.mem_cons_of_mem _ hl, he⟩, v, ?_, hlow⟩
        simpa [Function.update_of_ne hkl] using hv
  · intro k
    by_cases hkl : k = ld.linkID
    · subst hkl
      exact Or.inr ⟨hself.1, hself.2, hnew, known, hk, hlt⟩
    · rcases h6 k with ⟨hd, hp⟩ | ⟨hd, hp, hq, v, hv, hl⟩
      · left
        simpa [Function.update_of_ne hkl] using And.intro hd hp
      · right
        exact ⟨hd, hp, hq, v, by simpa [Function.update_of_ne hkl] using hv, hl⟩

theorem relax_relaxed {node : String} {dis : Nat} {links : List LinkDescription} {s t : Search}
    (h : relax node dis links s = some t) : Relaxed node dis links s t := by
  induction links generalizing s with
  | nil =>
    simp only [relax, Option.some.injEq] at h
    subst h
    exact relaxed_nil _ _ _
  | cons ld links ih =>
    simp only [relax] at h
    split at h
    · cases h
    · rename_i known hk
      split at h
      · rename_i hlt
        exact relaxed_lower hk hlt (ih h)
      · rename_i hle
        exact relaxed_skip hk hle (ih h)

/-- `relax` fails only on a link whose target has no distance. -/
theorem relax_isSome {node : String} {dis : Nat} {links : List LinkDescription} {s : Search}
    (h : ∀ ld ∈ links, (s.dist ld.linkID).isSome) : ∃ t, relax node dis links s = some t := by
  induction links generalizing s with
  | nil => exact ⟨s, rfl⟩
  | cons ld links ih =>
    obtain ⟨known, hk⟩ := Option.isSome_iff_exists.mp (h ld (by simp))
    simp only [relax, hk]
    split
    · apply ih
      intro l hl
      by_cases he : l.linkID = ld.linkID
      · simp [he]
      · simpa [Function.update_of_ne he] using h l (by simp [hl])
    · exact ih fun l hl => h l (by simp [hl])

/-! ## The invariant of the search -/

/-- The entry of router `a` has a link to `b`. -/
def LinkTo (d : LinkStateDatabase) (a b : String) : Prop :=
  ∃ lsa, d.getLSA a = some lsa ∧ ∃ ld ∈ lsa.links, ld.linkID = b

/-- A walk of `n` stored links leads from the own router to `i`. -/
inductive Hops (d : LinkStateDatabase) : Nat → String → Prop
  | own : Hops d 0 d.rd.simulatedIPAddress
  | link {n : Nat} {a b : String} : Hops d n a → d.LinkTo a b → Hops d (n + 1) b

/-- The own router has an entry, and so has every router that the stored links
lead to from it, in up to `maxDist` hops. -/
def Followable (d : LinkStateDatabase) : Prop :=
  ∀ n ≤ maxDist, ∀ i, d.Hops n i → i ∈ d.store

/-- The links of `k` were followed when `k` stood at distance `v`. -/
def Settled (d : LinkStateDatabase) (s : Search) (k : String) (v : Nat) : Prop :=
  ∃ lsa, d.getLSA k = some lsa ∧ ∀ ld ∈ lsa.links, ∃ w, s.dist ld.linkID = some w ∧ w ≤ v + 1

structure Sound (d : LinkStateDatabase) (s : Search) : Prop where
  keys : ∀ k, (s.dist k).isSome ↔ k ∈ d.store ∨ k = d.rd.simulatedIPAddress
  own : s.dist d.rd.simulatedIPAddress = some 0
  bound : ∀ k v, s.dist k = some v → v ≤ maxDist
  queued : ∀ p ∈ s.pq, p.dist < maxDist ∧ d.Hops p.dist p.routerID ∧
    ∃ v, s.dist p.routerID = some v ∧ v ≤ p.dist
  parents : ∀ k ∈ d.store, (s.parent k).isSome
  nearer : ∀ k p, s.parent k = some p → p = k ∨
    p ∈ d.store ∧ ∃ v w, s.dist k = some v ∧ s.dist p = some w ∧ w < v
  settled : ∀ k v, s.dist k = some v → v < maxDist → ⟨v, k⟩ ∈ s.pq ∨ d.Settled s k v

theorem sound_searchInit (d : LinkStateDatabase) : d.Sound d.searchInit := by
  have hdist : ∀ k v, d.searchInit.dist k = some v →
      k = d.rd.simulatedIPAddress ∧ v = 0 ∨ v = maxDist := by
    intro k v h
    simp only [searchInit, Function.update_apply] at h
    split at h
    · rename_i hk
      exact Or.inl ⟨hk, by simpa using h.symm⟩
    · split at h
      · exact Or.inr (by simpa using h.symm)
      · cases h
  refine ⟨?_, ?_, ?_, ?_, ?_, ?_, ?_⟩
  · intro k
    simp only [searchInit, Function.update_apply]
    by_cases hk : k = d.rd.simulatedIPAddress
    · simp [hk]
    · by_cases hs : k ∈ d.store <;> simp [hk, hs]
  · simp [searchInit]
  · intro k v h
    rcases hdist k v h with ⟨-, rfl⟩ | rfl
    · exact Nat.zero_le _
    · exact Nat.le_refl _
  · intro p hp
    simp only [searchInit, List.mem_singleton] at hp
    subst hp
    exact ⟨by simp [maxDist], .own, 0, by simp [searchInit], Nat.le_refl _⟩
  · intro k hk
    simp [searchInit, hk]
  · intro k p h
    simp only [searchInit] at h
    split at h
    · exact Or.inl (by simpa using h.symm)
    · cases h
  · intro k v h hv
    rcases hdist k v h with ⟨rfl, rfl⟩ | rfl
    · exact Or.inl (by simp [searchInit])
    · omega

/-- One turn of the search keeps the invariant. -/
theorem sound_visit {d : LinkStateDatabase} {s t : Search} {current : Pair} (hs : d.Sound s)
    (hmem : current ∈ s.pq) (h : d.visit s current = some t) : d.Sound t := by
  unfold visit at h
  split at h
  · cases h
  · rename_i lsa hlsa
    have hr := relax_relaxed h
    obtain ⟨hlt, hops, v, hv, hvle⟩ := hs.queued current hmem
    have hnode : current.routerID ∈ d.store := by
      rw [← AList.lookup_isSome]
      exact Option.isSome_iff_exists.mpr ⟨lsa, hlsa⟩
    have hkeys : ∀ k, (t.dist k).isSome ↔ k ∈ d.store ∨ k = d.rd.simulatedIPAddress := by
      intro k
      rw [hr.keys k]
      exact hs.keys k
    have hnow : ∀ k v, s.dist k = some v → ∃ w, t.dist k = some w ∧ w ≤ v := by
      intro k v hk
      obtain ⟨w, hw⟩ := Option.isSome_iff_exists.mp ((hr.keys k).trans (by simp [hk]))
      exact ⟨w, hw, hr.lower k v w hk hw⟩
    refine ⟨hkeys, ?_, ?_, ?_, ?_, ?_, ?_⟩
    · obtain ⟨w, hw, hle⟩ := hnow _ _ hs.own
      rw [hw]
      congr 1
      omega
    · intro k w hw
      rcases hr.kept k with ⟨hd, -⟩ | ⟨hd, -, -, u, hu, hlow⟩
      · exact hs.bound k w (hd ▸ hw)
      · rw [hd] at hw
        cases hw
        have := hs.bound k u hu
        omega
    · intro p hp
      rcases hr.fresh p hp with hp | ⟨hd, ⟨ld, hld, he⟩, u, hu, hlow⟩
      · obtain ⟨h1, h2, u, hu, hule⟩ := hs.queued p (List.mem_of_mem_erase hp)
        obtain ⟨w, hw, hle⟩ := hnow _ _ hu
        exact ⟨h1, h2, w, hw, by omega⟩
      · obtain ⟨w, hw, hwle⟩ := hr.known ld hld
        have hlink : d.LinkTo current.routerID p.routerID := ⟨lsa, hlsa, ld, hld, he⟩
        have := hs.bound _ u hu
        rw [hd]
        exact ⟨by omega, .link hops hlink, w, he ▸ hw, hwle⟩
    · intro k hk
      rcases hr.kept k with ⟨-, hp⟩ | ⟨-, hp, -, -⟩
      · rw [hp]
        exact hs.parents k hk
      · simp [hp]
    · intro k p hp
      rcases hr.kept k with ⟨hd, hpar⟩ | ⟨hd, hpar, -, -⟩
      · rw [hpar] at hp
        rcases hs.nearer k p hp with rfl | ⟨hps, u, w, hu, hw, hlow⟩
        · exact Or.inl rfl
        · obtain ⟨w', hw', hle⟩ := hnow _ _ hw
          exact Or.inr ⟨hps, u, w', hd.trans hu, hw', by omega⟩
      · rw [hpar] at hp
        cases hp
        obtain ⟨w, hw, hle⟩ := hnow _ _ hv
        exact Or.inr ⟨hnode, _, w, hd, hw, by omega⟩
    · intro k u hu humax
      rcases hr.kept k with ⟨hd, -⟩ | ⟨hd, -, hq, -⟩
      · rw [hd] at hu
        rcases hs.settled k u hu humax with hq | ⟨l, hl, hdone⟩
        · by_cases hcur : (⟨u, k⟩ : Pair) = current
          · subst hcur
            exact Or.inr ⟨lsa, hlsa, hr.known⟩
          · exact Or.inl (hr.queue _ ((List.mem_erase_of_ne hcur).mpr hq))
        · refine Or.inr ⟨l, hl, ?_⟩
          intro ld hld
          obtain ⟨w, hw, hle⟩ := hdone ld hld
          obtain ⟨w', hw', hle'⟩ := hnow _ _ hw
          exact ⟨w', hw', by omega⟩
      · rw [hd] at hu
        cases hu
        exact Or.inl hq

/-- With every router on the way known, a turn of the search does not fail. -/
theorem visit_isSome {d : LinkStateDatabase} {s : Search} {current : Pair} (hs : d.Sound s)
    (hf : d.Followable) (hmem : current ∈ s.pq) : ∃ t, d.visit s current = some t := by
  obtain ⟨hlt, hops, -⟩ := hs.queued current hmem
  have hnode := hf _ (Nat.le_of_lt hlt) _ hops
  obtain ⟨lsa, hlsa⟩ := Option.isSome_iff_exists.mp (AList.lookup_isSome.mpr hnode)
  have hlsa' : d.getLSA current.routerID = some lsa := hlsa
  simp only [visit, hlsa']
  apply relax_isSome
  intro ld hld
  have hnext : ld.linkID ∈ d.store := hf _ hlt _ (.link hops ⟨lsa, hlsa, ld, hld, rfl⟩)
  exact (hs.keys ld.linkID).mpr (Or.inl hnext)

/-! ## The search ends -/

/-- Twice the sum of the distances, and the length of the queue. -/
def potential (d : LinkStateDatabase) (s : Search) : Nat :=
  2 * ∑ k ∈ d.store.keys.toFinset, (s.dist k).getD 0 + s.pq.length

theorem relax_potential {d : LinkStateDatabase} {node : String} {dis : Nat}
    {links : List LinkDescription} {s t : Search}
    (hk : ∀ k v, s.dist k = some v → 0 < v → k ∈ d.store)
    (h : relax node dis links s = some t) : d.potential t ≤ d.potential s := by
  induction links generalizing s with
  | nil =>
    simp only [relax, Option.some.injEq] at h
    rw [h]
  | cons ld links ih =>
    simp only [relax] at h
    split at h
    · cases h
    · rename_i known hknown
      split at h
      · rename_i hlt
        refine Nat.le_trans (ih ?_ h) ?_
        · intro k v hv hpos
          by_cases he : k = ld.linkID
          · exact he ▸ hk _ _ hknown (by omega)
          · exact hk k v (by simpa [Function.update_of_ne he] using hv) hpos
        · have hsum : ∑ k ∈ d.store.keys.toFinset,
                (Function.update s.dist ld.linkID (some (dis + 1)) k).getD 0 <
              ∑ k ∈ d.store.keys.toFinset, (s.dist k).getD 0 := by
            apply Finset.sum_lt_sum
            · intro k _
              by_cases he : k = ld.linkID
              · subst he
                simp only [Function.update_self, Option.getD_some, hknown]
                omega
              · rw [Function.update_of_ne he]
            · refine ⟨ld.linkID, ?_, ?_⟩
              · rw [List.mem_toFinset, ← AList.mem_keys]
                exact hk _ _ hknown (by omega)
              · simp only [Function.update_self, Option.getD_some, hknown]
                omega
          simp only [potential, List.length_append, List.length_singleton]
          omega
      · exact ih hk h

theorem visit_potential {d : LinkStateDatabase} {s t : Search} {current : Pair} (hs : d.Sound s)
    (hmem : current ∈ s.pq) (h : d.visit s current = some t) : d.potential t < d.potential s := by
  have hkey : ∀ k v, s.dist k = some v → 0 < v → k ∈ d.store := by
    intro k v hv hpos
    rcases (hs.keys k).mp (by simp [hv]) with hk | rfl
    · exact hk
    · rw [hs.own] at hv
      cases hv
      omega
  unfold visit at h
  split at h
  · cases h
  · refine Nat.lt_of_le_of_lt (relax_potential (s := { s with pq := s.pq.erase current }) hkey h) ?_
    have := List.length_erase_of_mem hmem
    have := List.length_pos_of_mem hmem
    simp only [potential]
    omega

theorem potential_searchInit (d : LinkStateDatabase) : d.potential d.searchInit < d.searchFuel := by
  have hle : ∑ k ∈ d.store.keys.toFinset, (d.searchInit.dist k).getD 0 ≤
      d.store.keys.length * maxDist := by
    calc _ ≤ d.store.keys.toFinset.card • maxDist := by
          apply Finset.sum_le_card_nsmul
          intro k hk
          have := d.sound_searchInit.bound k
          cases hd : d.searchInit.dist k with
          | none => simp
          | some v => simpa using this v hd
      _ ≤ d.store.keys.length * maxDist := by
          rw [nsmul_eq_mul, Nat.cast_id]
          exact Nat.mul_le_mul_right _ (List.toFinset_card_le _)
  have hq : d.searchInit.pq.length = 1 := rfl
  unfold potential searchFuel
  omega

/-- The search ends with an empty queue, or it meets a router that has no
entry, and then the database was not `Followable`. -/
theorem searchLoop_spec (q : PriorityQueue) {d : LinkStateDatabase} (fuel : Nat) (s : Search)
    (hs : d.Sound s) (hfuel : d.potential s < fuel) :
    (∃ t, searchLoop q d fuel s = .ok t ∧ d.Sound t ∧ t.pq = []) ∨
      searchLoop q d fuel s = .error .nullPointer ∧ ¬ d.Followable := by
  induction fuel generalizing s with
  | zero => omega
  | succ fuel ih =>
    simp only [searchLoop]
    cases hp : q.peek s.pq with
    | none => exact Or.inl ⟨s, rfl, hs, q.peek_eq_none _ hp⟩
    | some current =>
      have hmem := (q.peek_least _ _ hp).1
      cases hv : d.visit s current with
      | none =>
        simp only [hv]
        refine Or.inr ⟨trivial, fun hf => ?_⟩
        obtain ⟨t, ht⟩ := visit_isSome hs hf hmem
        rw [hv] at ht
        cases ht
      | some t =>
        have := visit_potential hs hmem hv
        simp only [hv]
        exact ih t (sound_visit hs hmem hv) (by omega)

/-- Each parent is nearer, so the walk back ends. -/
theorem walkBack_isOk {d : LinkStateDatabase} {s : Search} (hs : d.Sound s) (fuel : Nat) :
    ∀ k v, k ∈ d.store → s.dist k = some v → v < fuel →
      ∃ path, walkBack s.parent fuel k = .ok path := by
  induction fuel with
  | zero => intro k v _ _ h; omega
  | succ fuel ih =>
    intro k v hk hv hlt
    obtain ⟨p, hp⟩ := Option.isSome_iff_exists.mp (hs.parents k hk)
    simp only [walkBack, hp]
    split
    · exact ⟨[], rfl⟩
    · rename_i hne
      rcases hs.nearer k p hp with rfl | ⟨hps, u, w, hu, hw, hlow⟩
      · exact absurd rfl hne
      · rw [hv] at hu
        cases hu
        obtain ⟨path, hpath⟩ := ih p w hps hw (by omega)
        exact ⟨k :: path, by rw [hpath]; rfl⟩

/-- When the queue is empty, every walk of stored links was followed. -/
theorem followable_of_finished {d : LinkStateDatabase} {s : Search} (hs : d.Sound s)
    (hq : s.pq = []) : d.Followable := by
  have hown : ∃ lsa, d.getLSA d.rd.simulatedIPAddress = some lsa := by
    rcases hs.settled _ _ hs.own (by simp [maxDist]) with h | ⟨lsa, h, -⟩
    · simp [hq] at h
    · exact ⟨lsa, h⟩
  have hstore : d.rd.simulatedIPAddress ∈ d.store := by
    rw [← AList.lookup_isSome]
    exact Option.isSome_iff_exists.mpr hown
  have hwalk : ∀ n i, d.Hops n i → n ≤ maxDist → i ∈ d.store ∧ ∃ v, s.dist i = some v ∧ v ≤ n := by
    intro n i h
    induction h with
    | own => exact fun _ => ⟨hstore, 0, hs.own, Nat.le_refl _⟩
    | @link n a b _ hlink ih =>
      intro hn
      obtain ⟨-, v, hv, hvn⟩ := ih (by omega)
      rcases hs.settled a v hv (by omega) with h | ⟨lsa, hlsa, hdone⟩
      · simp [hq] at h
      · obtain ⟨l, hl, ld, hld, rfl⟩ := hlink
        rw [hlsa] at hl
        cases hl
        obtain ⟨w, hw, hle⟩ := hdone ld hld
        refine ⟨?_, w, hw, by omega⟩
        rcases (hs.keys ld.linkID).mp (by simp [hw]) with h | h
        · exact h
        · exact h ▸ hstore
  exact fun n hn i h => (hwalk n i h hn).1

/-- `getShortestPath` gives a route exactly when every router that it comes to
has an entry, and otherwise it dereferences a null. It always ends. -/
theorem getShortestPath_cases (q : PriorityQueue) (d : LinkStateDatabase) {destinationIP : String}
    (hdest : destinationIP ∈ d.store) :
    (∃ route, d.getShortestPath q destinationIP = .ok route) ∧ d.Followable ∨
      d.getShortestPath q destinationIP = .error .nullPointer ∧ ¬ d.Followable := by
  rcases searchLoop_spec q _ _ d.sound_searchInit d.potential_searchInit with
    ⟨s, hloop, hs, hq⟩ | ⟨hloop, hnot⟩
  · left
    obtain ⟨v, hv⟩ := Option.isSome_iff_exists.mp ((hs.keys destinationIP).mpr (Or.inl hdest))
    have := hs.bound _ _ hv
    obtain ⟨path, hpath⟩ := walkBack_isOk hs (maxDist + 1) _ v hdest hv (by omega)
    refine ⟨⟨d.routeText path, ?_⟩, followable_of_finished hs hq⟩
    rw [getShortestPath, hloop]
    change (walkBack s.parent (maxDist + 1) destinationIP >>= fun path => pure (d.routeText path)) = _
    rw [hpath]
    rfl
  · right
    refine ⟨?_, hnot⟩
    rw [getShortestPath, hloop]
    rfl

end LinkStateDatabase
end socs.network
