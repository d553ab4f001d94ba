-- The routes of `detect`. The pairs leave the queue level by level, so a
-- distance is written once and is the least number of hops, and the parents
-- lead back to the own router along stored links.
import Mathlib.Data.List.Chain
import SysNet.LinkState.ShortestPath

namespace socs.network
namespace LinkStateDatabase

variable {d : LinkStateDatabase} {s t : Search} {lvl : Nat} {q : PriorityQueue}

/-- The hops that `getShortestPath` joins to its text. -/
def route (q : PriorityQueue) (d : LinkStateDatabase) (destinationIP : String) :
    Except Fault (List String) := do
  let s ← searchLoop q d d.searchFuel d.searchInit
  let path ← walkBack s.parent (maxDist + 1) destinationIP
  return (path ++ [d.rd.simulatedIPAddress]).reverse

theorem getShortestPath_eq (q : PriorityQueue) (d : LinkStateDatabase) (destinationIP : String) :
    d.getShortestPath q destinationIP = (d.route q destinationIP).map "->".intercalate := by
  unfold getShortestPath route
  cases searchLoop q d d.searchFuel d.searchInit with
  | error e => rfl
  | ok s =>
    change (walkBack s.parent (maxDist + 1) destinationIP >>= _) =
      Except.map _ (walkBack s.parent (maxDist + 1) destinationIP >>= _)
    cases walkBack s.parent (maxDist + 1) destinationIP with
    | error e => rfl
    | ok path => rfl

/-! ## Levels -/

/-- The pairs in the queue are at distance `lvl` or one more, and say what `dist` says. A router
with a parent other than itself is one hop behind it. -/
structure Leveled (d : LinkStateDatabase) (s : Search) (lvl : Nat) : Prop where
  queue : ∀ p ∈ s.pq, lvl ≤ p.dist ∧ p.dist ≤ lvl + 1 ∧ s.dist p.routerID = some p.dist
  known : ∀ k v, s.dist k = some v → v = maxDist ∨ v ≤ lvl + 1
  origin : ∀ k p, s.parent k = some p →
    p = k ∧ (k = d.rd.simulatedIPAddress ∨ s.dist k = some maxDist) ∨
      d.LinkTo p k ∧ ∃ u, s.dist p = some u ∧ s.dist k = some (u + 1) ∧ u + 1 < maxDist

theorem leveled_searchInit (d : LinkStateDatabase) : d.Leveled d.searchInit 0 := by
  refine ⟨fun p hp => ?_, fun k v hk => ?_, fun k p hp => ?_⟩
  · simp only [searchInit, List.mem_singleton] at hp
    subst hp
    exact ⟨Nat.le_refl 0, Nat.zero_le 1, by simp [searchInit]⟩
  · simp only [searchInit, Function.update_apply] at hk
    split at hk
    · exact Or.inr (by simp at hk; omega)
    · split at hk
      · exact Or.inl (Option.some.inj hk).symm
      · cases hk
  · simp only [searchInit] at hp
    split at hp
    next hmem =>
      obtain rfl := Option.some.inj hp
      refine Or.inl ⟨rfl, ?_⟩
      by_cases hown : k = d.rd.simulatedIPAddress
      · exact Or.inl hown
      · right
        simp [searchInit, Function.update_of_ne hown, hmem]
    next => cases hp

/-- Distances up to the level of the pair that leaves the queue are not written again. -/
theorem dist_kept {node : String} {dis v : Nat} {links : List LinkDescription} {k : String}
    (hr : Relaxed node dis links s t) (hk : s.dist k = some v) (hv : v ≤ dis + 1) :
    t.dist k = some v := by
  rcases hr.kept k with ⟨hd, -⟩ | ⟨-, -, -, u, hu, hlow⟩
  · rw [hd, hk]
  · rw [hk] at hu
    cases hu
    omega

theorem leveled_visit {current : Pair} (hs : d.Sound s) (hl : d.Leveled s lvl)
    (hmem : current ∈ s.pq) (hleast : ∀ x ∈ s.pq, current.dist ≤ x.dist)
    (h : d.visit s current = some t) : d.Leveled t current.dist := by
  unfold visit at h
  split at h
  · cases h
  rename_i lsa hlsa
  have hr := relax_relaxed h
  obtain ⟨hlow, hhigh, hnode⟩ := hl.queue current hmem
  refine ⟨fun p hp => ?_, fun k v hk => ?_, fun k p hp => ?_⟩
  · rcases hr.fresh p hp with hold | ⟨hd, ⟨ld, hld, he⟩, u, hu, hfar⟩
    · have hin := List.mem_of_mem_erase hold
      obtain ⟨-, hle, hdist⟩ := hl.queue p hin
      exact ⟨hleast p hin, by omega, dist_kept hr hdist (by omega)⟩
    · refine ⟨by omega, by omega, ?_⟩
      obtain ⟨w, hw, hwle⟩ := hr.known ld hld
      rw [he] at hw
      rcases hr.kept p.routerID with ⟨hsame, -⟩ | ⟨hnew, -, -, -⟩
      · change t.dist p.routerID = s.dist p.routerID at hsame
        change s.dist p.routerID = some u at hu
        rw [hsame, hu] at hw
        cases hw
        omega
      · rw [hnew, hd]
  · rcases hr.kept k with ⟨hsame, -⟩ | ⟨hnew, -, -, -⟩
    · rcases hl.known k v (hsame ▸ hk) with hfar | hle
      · exact Or.inl hfar
      · exact Or.inr (by omega)
    · rw [hnew] at hk
      cases hk
      exact Or.inr (Nat.le_refl _)
  · rcases hr.kept k with ⟨hsame, hpar⟩ | ⟨hnew, hpar, hqueued, v, hv, hfar⟩
    · rw [hpar] at hp
      rcases hl.origin k p hp with ⟨rfl, hown | hmax⟩ | ⟨hlink, u, hu, hk, hlt⟩
      · exact Or.inl ⟨rfl, Or.inl hown⟩
      · exact Or.inl ⟨rfl, Or.inr (hsame.trans hmax)⟩
      · -- the parent is at the level or before it
        refine Or.inr ⟨hlink, u, dist_kept hr hu ?_, hsame.trans hk, hlt⟩
        rcases hl.known p u hu with hmax | hle
        · omega
        · omega
    · rw [hpar] at hp
      cases hp
      have hbound := hs.bound k v hv
      refine Or.inr ⟨?_, current.dist, dist_kept hr hnode (by omega), hnew, by omega⟩
      rcases hr.fresh _ hqueued with hold | ⟨-, ⟨ld, hld, he⟩, -⟩
      · obtain ⟨-, -, hdist⟩ := hl.queue _ (List.mem_of_mem_erase hold)
        change s.dist k = some v at hv
        rw [hv] at hdist
        have heq : v = current.dist + 1 := Option.some.inj hdist
        omega
      · exact ⟨lsa, hlsa, ld, hld, he⟩

/-- What holds when the search has ended. -/
structure Searched (d : LinkStateDatabase) (t : Search) : Prop where
  sound : d.Sound t
  empty : t.pq = []
  leveled : ∃ lvl, d.Leveled t lvl

theorem searched_of_loop (fuel : Nat) (hs : d.Sound s) (hl : d.Leveled s lvl)
    (h : searchLoop q d fuel s = .ok t) : d.Searched t := by
  induction fuel generalizing s lvl with
  | zero => cases h
  | succ fuel ih =>
    unfold searchLoop at h
    cases hp : q.peek s.pq with
    | none =>
      simp only [hp] at h
      cases h
      exact ⟨hs, q.peek_eq_none _ hp, lvl, hl⟩
    | some current =>
      simp only [hp] at h
      obtain ⟨hmem, hleast⟩ := q.peek_least _ _ hp
      cases hv : d.visit s current with
      | none =>
        simp only [hv] at h
        cases h
      | some s' =>
        simp only [hv] at h
        exact ih (sound_visit hs hmem hv) (leveled_visit hs hl hmem hleast hv) h

/-! ## The walk back -/

/-- The walk back from a router that was reached makes one hop less than the list has routers. -/
theorem walkBack_spec (ht : d.Searched t) (fuel : Nat) {k : String} {v : Nat} {path : List String}
    (hk : t.dist k = some v) (hlt : v < maxDist) (h : walkBack t.parent fuel k = .ok path) :
    path.length = v ∧ (path ++ [d.rd.simulatedIPAddress]).head? = some k ∧
      (path ++ [d.rd.simulatedIPAddress]).IsChain fun a b => d.LinkTo b a := by
  obtain ⟨lvl, hl⟩ := ht.leveled
  induction fuel generalizing k v path with
  | zero => cases h
  | succ fuel ih =>
    unfold walkBack at h
    cases hp : t.parent k with
    | none =>
      simp only [hp] at h
      cases h
    | some p =>
      simp only [hp] at h
      rcases hl.origin k p hp with ⟨rfl, rfl | hmax⟩ | ⟨hlink, u, hu, hku, hult⟩
      · rw [if_pos rfl] at h
        cases h
        rw [ht.sound.own] at hk
        cases hk
        exact ⟨rfl, rfl, List.isChain_singleton _⟩
      · rw [hmax] at hk
        cases hk
        omega
      · rw [hku] at hk
        cases hk
        have hne : p ≠ k := by
          rintro rfl
          rw [hu] at hku
          cases hku
        rw [if_neg hne] at h
        cases hback : walkBack t.parent fuel p with
        | error e =>
          rw [hback] at h
          cases h
        | ok rest =>
          rw [hback] at h
          cases h
          obtain ⟨hlen, hhead, hchain⟩ := ih hu (by omega) hback
          refine ⟨by rw [List.length_cons, hlen], rfl, ?_⟩
          rw [List.cons_append]
          refine List.isChain_cons.mpr ⟨fun b hb => ?_, hchain⟩
          rw [hhead] at hb
          cases hb
          exact hlink

/-- The walk back from any other router ends where it starts. -/
theorem walkBack_unreached (ht : d.Searched t) {fuel : Nat} {k : String} {path : List String}
    (hk : t.dist k = some maxDist) (h : walkBack t.parent (fuel + 1) k = .ok path) : path = [] := by
  obtain ⟨lvl, hl⟩ := ht.leveled
  unfold walkBack at h
  cases hp : t.parent k with
  | none =>
    simp only [hp] at h
    cases h
  | some p =>
    simp only [hp] at h
    rcases hl.origin k p hp with ⟨rfl, -⟩ | ⟨-, u, -, hku, hlt⟩
    · rw [if_pos rfl] at h
      cases h
      rfl
    · have heq : u + 1 = maxDist := Option.some.inj (hku.symm.trans hk)
      omega

/-! ## Distances are hops -/

/-- A router that the stored links lead to is at most as far as they say. -/
theorem dist_le_of_hops (ht : d.Searched t) {n : Nat} {i : String} (h : d.Hops n i) (hn : n ≤ maxDist) :
    ∃ v, t.dist i = some v ∧ v ≤ n := by
  induction h with
  | own => exact ⟨0, ht.sound.own, Nat.le_refl 0⟩
  | @link n a b _ hlink ih =>
    obtain ⟨v, hv, hvn⟩ := ih (by omega)
    rcases ht.sound.settled a v hv (by omega) with hq | ⟨lsa, hlsa, hdone⟩
    · rw [ht.empty] at hq
      cases hq
    · obtain ⟨l, hl, ld, hld, rfl⟩ := hlink
      rw [hlsa] at hl
      cases hl
      obtain ⟨w, hw, hle⟩ := hdone ld hld
      exact ⟨w, hw, by omega⟩

/-- A path of stored links, read from its end. -/
theorem hops_of_chain {path : List String} {k : String}
    (hchain : (path ++ [d.rd.simulatedIPAddress]).IsChain fun a b => d.LinkTo b a)
    (hhead : (path ++ [d.rd.simulatedIPAddress]).head? = some k) : d.Hops path.length k := by
  induction path generalizing k with
  | nil =>
    cases hhead
    exact Hops.own
  | cons a rest ih =>
    cases hhead
    rw [List.cons_append, List.isChain_cons] at hchain
    obtain ⟨hfirst, hrest⟩ := hchain
    cases hnext : (rest ++ [d.rd.simulatedIPAddress]).head? with
    | none => simp at hnext
    | some b => exact Hops.link (ih hrest hnext) (hfirst b hnext)

/-- On the way to a router at distance `v` there is one at each smaller distance. -/
theorem exists_dist (ht : d.Searched t) {k : String} {v u : Nat} (hmem : k ∈ d.store)
    (hk : t.dist k = some v) (hlt : v < maxDist) (hu : u ≤ v) :
    ∃ a ∈ d.store, t.dist a = some u := by
  obtain ⟨lvl, hl⟩ := ht.leveled
  induction v generalizing k with
  | zero =>
    obtain rfl : u = 0 := by omega
    exact ⟨k, hmem, hk⟩
  | succ v ih =>
    rcases Nat.lt_or_ge v u with hlast | hle
    · obtain rfl : u = v + 1 := by omega
      exact ⟨k, hmem, hk⟩
    obtain ⟨p, hp⟩ := Option.isSome_iff_exists.mp (ht.sound.parents k hmem)
    rcases hl.origin k p hp with ⟨rfl, rfl | hmax⟩ | ⟨-, w, hw, hkw, -⟩
    · rw [ht.sound.own] at hk
      cases hk
    · have heq : maxDist = v + 1 := Option.some.inj (hmax.symm.trans hk)
      omega
    · have heq : w + 1 = v + 1 := Option.some.inj (hkw.symm.trans hk)
      obtain rfl : w = v := by omega
      rcases ht.sound.nearer k p hp with rfl | ⟨hpmem, -⟩
      · have hsame : w = w + 1 := Option.some.inj (hw.symm.trans hk)
        omega
      · exact ih hpmem hw (by omega) hle

/-- There are more routers than hops to any of them. -/
theorem dist_lt_keys (ht : d.Searched t) {k : String} {v : Nat} (hmem : k ∈ d.store)
    (hk : t.dist k = some v) (hlt : v < maxDist) : v < d.store.keys.length := by
  have hsub : Finset.range (v + 1) ⊆ d.store.keys.toFinset.image fun a => (t.dist a).getD 0 := by
    intro u hu
    obtain ⟨a, ha, hau⟩ := exists_dist ht hmem hk hlt (Nat.le_of_lt_succ (Finset.mem_range.mp hu))
    apply Finset.mem_image.mpr
    exact ⟨a, List.mem_toFinset.mpr (AList.mem_keys.mp ha), by rw [hau]; rfl⟩
  calc v + 1 = (Finset.range (v + 1)).card := (Finset.card_range _).symm
    _ ≤ (d.store.keys.toFinset.image fun a => (t.dist a).getD 0).card := Finset.card_le_card hsub
    _ ≤ d.store.keys.toFinset.card := Finset.card_image_le
    _ ≤ d.store.keys.length := List.toFinset_card_le _

/-! ## Routes -/

/-- The local router has an entry, and so has every router that a stored link names. -/
structure Closed (d : LinkStateDatabase) : Prop where
  own : d.rd.simulatedIPAddress ∈ d.store
  links : ∀ k lsa, d.getLSA k = some lsa → ∀ ld ∈ lsa.links, ld.linkID ∈ d.store

theorem Closed.mem_of_hops (h : d.Closed) {n : Nat} {i : String} (hi : d.Hops n i) : i ∈ d.store := by
  induction hi with
  | own => exact h.own
  | link _ hlink _ =>
    obtain ⟨lsa, hlsa, ld, hld, rfl⟩ := hlink
    exact h.links _ lsa hlsa ld hld

/-- The search of a closed database ends, and so does the walk back from any of its routers. -/
theorem route_spec (h : d.Closed) {k : String} (hk : k ∈ d.store) :
    ∃ t path, d.Searched t ∧ walkBack t.parent (maxDist + 1) k = .ok path ∧
      d.route q k = .ok (path ++ [d.rd.simulatedIPAddress]).reverse := by
  have hfollow : d.Followable := fun n _ i hi => h.mem_of_hops hi
  rcases searchLoop_spec q _ _ d.sound_searchInit d.potential_searchInit with ⟨t, hloop, -, -⟩ | ⟨-, hnot⟩
  · have ht := searched_of_loop _ d.sound_searchInit d.leveled_searchInit hloop
    obtain ⟨v, hv⟩ := Option.isSome_iff_exists.mp ((ht.sound.keys k).mpr (Or.inl hk))
    have hbound := ht.sound.bound k v hv
    obtain ⟨path, hpath⟩ := walkBack_isOk ht.sound (maxDist + 1) k v hk hv (by omega)
    refine ⟨t, path, ht, hpath, ?_⟩
    unfold route
    rw [hloop]
    change (walkBack t.parent (maxDist + 1) k >>= _) = _
    rw [hpath]
    rfl
  · exact absurd hfollow hnot

/-- With few enough routers the distance limit is never reached. -/
theorem dist_of_hops (ht : d.Searched t) (h : d.Closed) (hfew : d.store.keys.length < maxDist) {n : Nat}
    {i : String} (hi : d.Hops n i) : ∃ v, t.dist i = some v ∧ v < maxDist ∧ v ≤ n := by
  induction hi with
  | own => exact ⟨0, ht.sound.own, by decide, Nat.le_refl 0⟩
  | @link n a b ha hlink ih =>
    obtain ⟨v, hv, hvlt, hvn⟩ := ih
    have hkeys := dist_lt_keys ht (h.mem_of_hops ha) hv hvlt
    rcases ht.sound.settled a v hv hvlt with hq | ⟨lsa, hlsa, hdone⟩
    · rw [ht.empty] at hq
      cases hq
    · obtain ⟨l, hl, ld, hld, rfl⟩ := hlink
      rw [hlsa] at hl
      cases hl
      obtain ⟨w, hw, hle⟩ := hdone ld hld
      exact ⟨w, hw, by omega, by omega⟩

/-- `detect` prints a shortest path: it starts at the local router, ends at the destination, follows
stored links, and no walk of stored links to the destination has fewer hops. -/
theorem shortest_paths_are_shortest (q : PriorityQueue) (d : LinkStateDatabase) (h : d.Closed)
    (hfew : d.store.keys.length < maxDist) (destinationIP : String) (hreach : ∃ n, d.Hops n destinationIP) :
    ∃ path : List String, d.getShortestPath q destinationIP = .ok ("->".intercalate path) ∧
      path.head? = some d.rd.simulatedIPAddress ∧ path.getLast? = some destinationIP ∧
      path.IsChain d.LinkTo ∧ ∀ n, d.Hops n destinationIP → path.length ≤ n + 1 := by
  obtain ⟨n, hn⟩ := hreach
  obtain ⟨t, path, ht, hpath, hroute⟩ := @route_spec _ q h _ (h.mem_of_hops hn)
  obtain ⟨v, hv, hlt, -⟩ := dist_of_hops ht h hfew hn
  obtain ⟨hlen, hhead, hchain⟩ := walkBack_spec ht _ hv hlt hpath
  refine ⟨_, by rw [getShortestPath_eq, hroute]; rfl, ?_, ?_, ?_, fun m hm => ?_⟩
  · rw [List.reverse_append]
    rfl
  · rw [List.getLast?_reverse]
    exact hhead
  · exact List.isChain_reverse.mpr hchain
  · obtain ⟨w, hw, -, hle⟩ := dist_of_hops ht h hfew hm
    rw [hv] at hw
    cases hw
    rw [List.length_reverse, List.length_append, List.length_singleton]
    omega

/-- The database of 192.168.1.1 with an entry for 192.168.1.2, which links back to it. -/
def twoRouters (links : List LinkDescription) : LinkStateDatabase :=
  ((new ⟨"127.0.0.1", 3000, "192.168.1.1", .IDLE⟩).addLSA
    "192.168.1.1" { linkStateID := "192.168.1.1", links }).addLSA
    "192.168.1.2" { linkStateID := "192.168.1.2", links := [{ linkID := "192.168.1.1", portNum := 0 }] }

theorem getLSA_twoRouters {links : List LinkDescription} {k : String} {lsa : LSA}
    (h : (twoRouters links).getLSA k = some lsa) :
    k = "192.168.1.1" ∧ lsa.links = links ∨
      k = "192.168.1.2" ∧ lsa.links = [{ linkID := "192.168.1.1", portNum := 0 }] := by
  unfold twoRouters at h
  by_cases h2 : k = "192.168.1.2"
  · subst h2
    rw [getLSA_addLSA_self] at h
    cases h
    exact Or.inr ⟨rfl, renumber_links ..⟩
  · rw [getLSA_addLSA_ne _ _ h2] at h
    by_cases h1 : k = "192.168.1.1"
    · subst h1
      rw [getLSA_addLSA_self] at h
      cases h
      exact Or.inl ⟨rfl, renumber_links ..⟩
    · rw [getLSA_addLSA_ne _ _ h1, getLSA_new, if_neg h1] at h
      cases h

theorem closed_twoRouters {links : List LinkDescription}
    (h : ∀ ld ∈ links, ld.linkID = "192.168.1.1" ∨ ld.linkID = "192.168.1.2") : (twoRouters links).Closed := by
  have hmem : ∀ k, k = "192.168.1.1" ∨ k = "192.168.1.2" → k ∈ (twoRouters links).store := by
    intro k hk
    rw [← AList.lookup_isSome]
    rcases hk with rfl | rfl <;> rfl
  refine ⟨hmem _ (Or.inl rfl), fun k lsa hk ld hld => hmem _ ?_⟩
  rcases getLSA_twoRouters hk with ⟨-, hl⟩ | ⟨-, hl⟩
  · exact h ld (hl ▸ hld)
  · rw [hl, List.mem_singleton] at hld
    exact Or.inl (by rw [hld])

/-- The neighbor is one hop away. -/
theorem the_route_to_a_neighbor : ∃ path : List String,
    (twoRouters [⟨"192.168.1.2", 0⟩]).getShortestPath .first "192.168.1.2" = .ok ("->".intercalate path) ∧
      path.head? = some "192.168.1.1" ∧ path.getLast? = some "192.168.1.2" ∧
      path.IsChain (twoRouters [⟨"192.168.1.2", 0⟩]).LinkTo ∧
      ∀ n, (twoRouters [⟨"192.168.1.2", 0⟩]).Hops n "192.168.1.2" → path.length ≤ n + 1 := by
  have hlink : (twoRouters [⟨"192.168.1.2", 0⟩]).LinkTo "192.168.1.1" "192.168.1.2" :=
    ⟨_, rfl, _, List.mem_singleton.mpr rfl, rfl⟩
  exact shortest_paths_are_shortest .first _ (closed_twoRouters (by simp)) (by decide +kernel) _
    ⟨1, Hops.link Hops.own hlink⟩

/-! ## Destinations -/

/-- The stored links lead to the router, within the distance limit. -/
def Reachable (d : LinkStateDatabase) (i : String) : Prop := ∃ n < maxDist, d.Hops n i

/-- The last hop of a route is its destination when that can be reached, and the local router when
it cannot. -/
theorem route_cases (q : PriorityQueue) (h : d.Closed) {k : String} (hk : k ∈ d.store) :
    ∃ hops, d.route q k = .ok hops ∧ (d.Reachable k ∧ hops.getLast? = some k ∨
      ¬ d.Reachable k ∧ k ≠ d.rd.simulatedIPAddress ∧ hops = [d.rd.simulatedIPAddress]) := by
  obtain ⟨t, path, ht, hpath, hroute⟩ := @route_spec _ q h k hk
  obtain ⟨v, hv⟩ := Option.isSome_iff_exists.mp ((ht.sound.keys k).mpr (Or.inl hk))
  refine ⟨_, hroute, ?_⟩
  rcases Nat.lt_or_ge v maxDist with hlt | hge
  · obtain ⟨-, hhead, hchain⟩ := walkBack_spec ht _ hv hlt hpath
    obtain ⟨hlen, -, -⟩ := walkBack_spec ht _ hv hlt hpath
    refine Or.inl ⟨⟨path.length, by omega, hops_of_chain hchain hhead⟩, ?_⟩
    rw [List.getLast?_reverse]
    exact hhead
  · have hmax : v = maxDist := Nat.le_antisymm (ht.sound.bound k v hv) hge
    subst hmax
    have hfar : ¬ d.Reachable k := by
      rintro ⟨n, hn, hops⟩
      obtain ⟨w, hw, hle⟩ := dist_le_of_hops ht hops (by omega)
      have heq : w = maxDist := Option.some.inj (hw.symm.trans hv)
      omega
    refine Or.inr ⟨hfar, ?_, ?_⟩
    · rintro rfl
      exact hfar ⟨0, by decide, Hops.own⟩
    · rw [walkBack_unreached ht hv hpath]
      rfl

/-- A route leads to its destination exactly when stored links do, and all routes of a database are
right and different exactly when stored links lead to every router. -/
theorem routes_lead_to_their_destinations_iff (q : PriorityQueue) (d : LinkStateDatabase) (h : d.Closed) :
    (∀ destinationIP ∈ d.store, (∀ hops, d.route q destinationIP = .ok hops →
        hops.getLast? = some destinationIP) ↔ d.Reachable destinationIP) ∧
      ((∀ destinationIP ∈ d.store, ∀ hops, d.route q destinationIP = .ok hops →
          hops.getLast? = some destinationIP ∧
            ∀ other ∈ d.store, other ≠ destinationIP → d.route q other ≠ .ok hops) ↔
        ∀ destinationIP ∈ d.store, d.Reachable destinationIP) := by
  have hone : ∀ k ∈ d.store, (∀ hops, d.route q k = .ok hops → hops.getLast? = some k) ↔ d.Reachable k := by
    intro k hk
    obtain ⟨hops, hroute, ⟨hreach, hlast⟩ | ⟨hfar, hne, rfl⟩⟩ := route_cases q h hk
    · refine iff_of_true (fun hops' hroute' => ?_) hreach
      rw [hroute] at hroute'
      cases hroute'
      exact hlast
    · refine iff_of_false (fun hall => ?_) hfar
      exact hne (Option.some.inj (hall _ hroute)).symm
  refine ⟨hone, fun hall k hk => ?_, fun hall k hk hops hroute => ?_⟩
  · apply (hone k hk).mp
    intro hops hroute
    exact (hall k hk hops hroute).1
  · have hlast := (hone k hk).mpr (hall k hk) hops hroute
    refine ⟨hlast, fun other hother hne hsame => ?_⟩
    have hlast' := (hone other hother).mpr (hall other hother) hops hsame
    exact hne (Option.some.inj (hlast'.symm.trans hlast))

/-- Each of two routers can be reached. -/
theorem both_routes_lead : (twoRouters [⟨"192.168.1.2", 0⟩]).Closed ∧
    ∀ destinationIP ∈ (twoRouters [⟨"192.168.1.2", 0⟩]).store,
      ∀ hops, (twoRouters [⟨"192.168.1.2", 0⟩]).route .first destinationIP = .ok hops →
        hops.getLast? = some destinationIP ∧ ∀ other ∈ (twoRouters [⟨"192.168.1.2", 0⟩]).store,
          other ≠ destinationIP → (twoRouters [⟨"192.168.1.2", 0⟩]).route .first other ≠ .ok hops := by
  have hclosed : (twoRouters [⟨"192.168.1.2", 0⟩]).Closed := closed_twoRouters (by simp)
  have hlink : (twoRouters [⟨"192.168.1.2", 0⟩]).LinkTo "192.168.1.1" "192.168.1.2" :=
    ⟨_, rfl, _, List.mem_singleton.mpr rfl, rfl⟩
  refine ⟨hclosed, (routes_lead_to_their_destinations_iff .first _ hclosed).2.mpr fun k hk => ?_⟩
  rw [← AList.lookup_isSome] at hk
  obtain ⟨lsa, hlsa⟩ := Option.isSome_iff_exists.mp hk
  rcases getLSA_twoRouters hlsa with ⟨rfl, -⟩ | ⟨rfl, -⟩
  · exact ⟨0, by decide, Hops.own⟩
  · exact ⟨1, by decide, Hops.link Hops.own hlink⟩

/-- The links that a router can follow lead nowhere when the local router has none. -/
theorem eq_own_of_hops {n : Nat} {i : String} (h : (twoRouters []).Hops n i) : i = "192.168.1.1" := by
  induction h with
  | own => rfl
  | link _ hlink ih =>
    subst ih
    obtain ⟨lsa, hlsa, ld, hld, -⟩ := hlink
    rcases getLSA_twoRouters hlsa with ⟨-, hl⟩ | ⟨hne, -⟩
    · rw [hl] at hld
      cases hld
    · exact absurd hne (by decide)

/-- The entry of a router stays after the last link to it has gone, and the route to it stays at
home. -/
theorem a_route_stays_at_home : ¬ ∀ (q : PriorityQueue) (d : LinkStateDatabase), d.Closed →
    ∀ destinationIP ∈ d.store, ∀ hops, d.route q destinationIP = .ok hops →
      hops.getLast? = some destinationIP ∧
        ∀ other ∈ d.store, other ≠ destinationIP → d.route q other ≠ .ok hops := by
  intro h
  have hclosed : (twoRouters []).Closed := closed_twoRouters fun _ hld => by cases hld
  have hmem : "192.168.1.2" ∈ (twoRouters []).store := by
    rw [← AList.lookup_isSome]
    rfl
  obtain ⟨hops, hroute, ⟨⟨n, -, hn⟩, -⟩ | ⟨-, hne, rfl⟩⟩ := route_cases .first hclosed hmem
  · have heq := eq_own_of_hops hn
    revert heq
    decide
  · have hlast := (h .first _ hclosed _ hmem _ hroute).1
    exact hne (Option.some.inj hlast).symm

end LinkStateDatabase
end socs.network
