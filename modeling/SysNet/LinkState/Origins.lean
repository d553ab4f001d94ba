-- An origin and its copies. Every advertisement of a router, wherever it is
-- stored or under way, has links that the router itself once advertised with
-- a number at least as large. So no update that comes back is ever newer than
-- the own entry of a router.
import Mathlib.Data.List.ReduceOption
import SysNet.LinkState.Wiring

open runs

namespace socs.network

/-! ## What a database holds -/

namespace LinkStateDatabase

variable {D : LSA → Prop}

/-- The entries stand under their own names, and all have the property. -/
def Holds (D : LSA → Prop) (d : LinkStateDatabase) : Prop :=
  ∀ i y, d.getLSA i = some y → y.linkStateID = i ∧ D y

theorem holds_addLSA {d : LinkStateDatabase} (h : Holds D d) {lsa : LSA}
    (hlsa : D (d.renumber lsa.linkStateID lsa)) : Holds D (d.addLSA lsa.linkStateID lsa) := by
  intro i y hy
  by_cases hi : i = lsa.linkStateID
  · subst hi
    rw [getLSA_addLSA_self] at hy
    cases hy
    exact ⟨renumber_linkStateID _ _ _, hlsa⟩
  · rw [getLSA_addLSA_ne _ _ hi] at hy
    exact h i y hy

theorem holds_remove {d : LinkStateDatabase} (h : Holds D d) (j : String) :
    Holds D (d.remove j) := by
  intro i y hy
  by_cases hi : i = j
  · subst hi
    rw [getLSA_remove_self] at hy
    cases hy
  · rw [getLSA_remove_ne _ hi] at hy
    exact h i y hy

/-- An advertisement that is not stale gets a number that is no larger. -/
theorem renumber_le {d : LinkStateDatabase} {lsa : LSA} (h : ¬ d.isStale lsa = true) :
    (d.renumber lsa.linkStateID lsa).lsaSeqNumber ≤ lsa.lsaSeqNumber := by
  unfold renumber
  split
  · rename_i stored hget
    have hlt : stored.lsaSeqNumber < lsa.lsaSeqNumber := by
      apply Int32.not_le.mp
      intro hle
      exact h ((d.isStale_iff lsa).mpr ⟨stored, hget, hle⟩)
    exact succ_le_of_lt hlt
  · exact Int32.le_refl _

/-- What a packet brings keeps the property, in the database and in the packet
that is passed on, when the property goes over to smaller numbers. -/
theorem holds_receive (hdown : ∀ y y' : LSA, D y → y'.linkStateID = y.linkStateID →
      y'.links = y.links → y'.lsaSeqNumber ≤ y.lsaSeqNumber → D y')
    (lsas : List LSA) {d : LinkStateDatabase} (hd : Holds D d) (hl : ∀ y ∈ lsas, D y) :
    Holds D (d.receive lsas).1 ∧ ∀ y ∈ (d.receive lsas).2, D y := by
  induction lsas generalizing d with
  | nil => exact ⟨hd, by simp [receive]⟩
  | cons lsa rest ih =>
    have hrest : ∀ y ∈ rest, D y := fun y hy => hl y (List.mem_cons_of_mem _ hy)
    unfold receive
    split
    · obtain ⟨h1, h2⟩ := ih hd hrest
      refine ⟨h1, fun y hy => ?_⟩
      rcases List.mem_cons.mp hy with rfl | hy
      · exact hl y List.mem_cons_self
      · exact h2 y hy
    · rename_i hs
      have hnew : D (d.renumber lsa.linkStateID lsa) :=
        hdown lsa _ (hl lsa List.mem_cons_self) (renumber_linkStateID _ _ _) (renumber_links _ _ _)
          (renumber_le hs)
      obtain ⟨h1, h2⟩ := ih (holds_addLSA hd hnew) hrest
      refine ⟨h1, fun y hy => ?_⟩
      rcases List.mem_cons.mp hy with rfl | hy
      · exact hnew
      · exact h2 y hy

/-- Advertisements that are no newer than an entry leave it as it is. -/
theorem getLSA_receive_stale {d : LinkStateDatabase} {o : String} {x : LSA} {lsas : List LSA}
    (hx : d.getLSA o = some x)
    (h : ∀ y ∈ lsas, y.linkStateID = o → y.lsaSeqNumber ≤ x.lsaSeqNumber) :
    (d.receive lsas).1.getLSA o = some x := by
  rw [getLSA_receive, hx]
  apply foldl_takeLSA_stale
  intro y hy
  rw [List.mem_filter, decide_eq_true_eq] at hy
  exact h y hy.1 hy.2

end LinkStateDatabase

/-! ## One router -/

namespace Router

/-- The advertisements that an event sends: the own one, as the event leaves
it, and those of the packet that it passes on. -/
theorem did_lsas {r : Router} {ev : Event} {e : Effect} (h : Did r ev e) {i : Nat}
    {m : SOSPFPacket} (hm : (i, m) ∈ e.sends) {y : LSA} (hy : some y ∈ m.lsaArray) :
    e.router.ownLSA = some y ∨ ∃ connect msg, ev = .handle connect msg ∧
      msg.sospfType = .LSAUPDATE ∧ y ∈ (r.lsd.receive (beforeNull msg.lsaArray)).2 := by
  have hown : ∀ {r1 : Router} {l : Link}, some y ∈ (r1.lsaUpdate l).lsaArray →
      r1.ownLSA = some y := by
    intro r1 l hy
    exact (List.mem_singleton.mp hy).symm
  cases h with
  | @disconnect n link r1 out _ _ _ hr1 hout =>
    subst hout
    rcases List.mem_cons.mp hm with heq | hmem
    · cases heq
      cases hy
    · obtain ⟨l, -, -, -, rfl⟩ := mem_broadcastLSA hmem
      exact Or.inl (hown hy)
  | quit _ hout _ =>
    subst hout
    obtain ⟨cl, hmem, -⟩ := mem_sent hm
    obtain ⟨l, -, heq⟩ := List.mem_map.mp hmem
    cases heq
    cases hy
  | quitFails _ hout _ =>
    subst hout
    obtain ⟨cl, hmem, -⟩ := mem_sent hm
    obtain ⟨l, -, heq⟩ := List.mem_map.mp hmem
    cases heq
    cases hy
  | @attachSend connect a s p hr =>
    unfold attachSend at hm
    split at hm
    · cases List.mem_singleton.mp hm
      cases hy
    · cases hm
  | startHello =>
    cases List.mem_singleton.mp hm
    cases hy
  | startEnd =>
    obtain ⟨l, -, -, -, rfl⟩ := mem_broadcastLSA hm
    exact Or.inl (hown hy)
  | @helloReply _ _ _ response _ =>
    cases response with
    | none => cases hm
    | some msg =>
      cases List.mem_singleton.mp hm
      cases hy
  | hello => unfold parseHello at hm; split at hm <;> cases hm
  | attached => unfold parseAttach at hm; split at hm <;> cases hm
  | disconnected =>
    obtain ⟨l, -, -, -, rfl⟩ := mem_broadcastLSA hm
    exact Or.inl (hown hy)
  | @lsaUpdate connect msg _ ht =>
    unfold parseLsaUpdate at hm ⊢
    simp only at hm ⊢
    split at hm
    · cases hm
    · rename_i hnull
      obtain ⟨cl, hmem, -⟩ := mem_sent hm
      obtain ⟨l, -, -, rfl⟩ := (mem_forward _ _ _ _ _).mp hmem
      rcases List.mem_append.mp hy with h1 | h1
      · obtain ⟨y', hy', heq⟩ := List.mem_map.mp h1
        cases heq
        exact Or.inr ⟨connect, msg, rfl, ht, hy'⟩
      · simp only [hnull, if_false]
        exact Or.inl (List.mem_singleton.mp h1).symm
  | _ => cases hm

theorem did_attaching {r : Router} {ev : Event} {e : Effect} (h : Did r ev e) {a s : String}
    {q : Int16} (ht : e.router.terminal = .attaching a q s) :
    r.terminal = .attaching a q s ∨ ev = .command (.attach a q s) := by
  have hfinish : ∀ (r1 : Router) (out : List (Client × SOSPFPacket)),
      (r1.finish out).terminal ≠ .attaching a q s := by
    intro r1 out
    rcases r1.finish_terminal out with h | h <;> rw [h] <;> intro hx <;> cases hx
  cases h with
  | attach => cases ht; exact Or.inr rfl
  | typed _ hcase => subst ht; simp at hcase
  | disconnect => exact absurd ht (hfinish _ _)
  | startEnd => exact absurd ht (hfinish _ _)
  | startSkip _ hcase => subst ht; simp at hcase
  | attachSend =>
    unfold attachSend at ht
    simp only at ht
    split at ht <;> cases ht
  | @attachReply link response _ =>
    cases response with
    | none => cases ht
    | some msg =>
      simp only [attachReply, attachAnswer] at ht
      split at ht <;> cases ht
  | @helloReply _ _ _ response _ => cases response <;> cases ht
  | hello => unfold parseHello at ht; split at ht <;> exact Or.inl ht
  | respond => exact Or.inl ht
  | attached => unfold parseAttach at ht; split at ht <;> exact Or.inl ht
  | disconnected => exact Or.inl ht
  | lsaUpdate => unfold parseLsaUpdate at ht; simp only at ht; split at ht <;> exact Or.inl ht
  | ignored => exact Or.inl ht
  | _ => cases ht

/-- No answer of a handler carries an advertisement. -/
theorem did_reply_lsas {r : Router} {ev : Event} {e : Effect} (h : Did r ev e) {m : SOSPFPacket}
    (hm : e.reply = some m) : m.lsaArray = [] := by
  cases h with
  | hello => unfold parseHello at hm; split at hm <;> cases hm; rfl
  | attached => unfold parseAttach at hm; split at hm <;> cases hm <;> rfl
  | @helloReply _ _ _ response _ => cases response <;> cases hm
  | lsaUpdate => unfold parseLsaUpdate at hm; simp only at hm; split at hm <;> cases hm
  | _ => cases hm

end Router

/-! ## The network -/

namespace Network

/-- The advertisement that the router at a port stores for itself. -/
def ownEntry (n : Network) (p : Int16) : Option LSA := (n.routers p).bind Router.ownLSA

/-- How often the router at `p` updates its own advertisement. Each update has
another number, so an update is a change of the entry. -/
def ownUpdates (p : Int16) (n : Network) (acts : List Action) : Nat :=
  tally step (fun n _ n' => if n'.ownEntry p = n.ownEntry p then 0 else 1) n acts

theorem ownUpdates_snoc {ok : Network → Action → Prop} (p : Int16) {n n' n'' : Network}
    {acts : List Action} {a : Action} (h : Run step ok n acts n') (hs : n'.step a = some n'') :
    ownUpdates p n (acts ++ [a]) =
      ownUpdates p n acts + if n''.ownEntry p = n'.ownEntry p then 0 else 1 :=
  tally_snoc h hs

/-- No router attaches itself. -/
def attachesOthers (_ : Network) : Action → Prop
  | .command p (.attach _ q _) => q ≠ p
  | _ => True

instance (n : Network) : (a : Action) → Decidable (n.attachesOthers a)
  | .command p (.attach _ q _) => inferInstanceAs (Decidable (q ≠ p))
  | .command _ (.detect _) => isTrue trivial
  | .command _ (.disconnect _) => isTrue trivial
  | .command _ .quit => isTrue trivial
  | .command _ .start => isTrue trivial
  | .command _ .neighbors => isTrue trivial
  | .command _ .printLSD => isTrue trivial
  | .command _ .invalid => isTrue trivial
  | .advance _ => isTrue trivial
  | .read _ => isTrue trivial
  | .deliver _ => isTrue trivial

/-- Some state of the run had, as the own entry of the origin, these links with
a number at least as large. -/
def OnceStored (conf : Int16 → Option Configuration) (acts : List Action) (y : LSA) : Prop :=
  ∃ acts' n' p r z, acts' <+: acts ∧ Run step attachesOthers (init conf) acts' n' ∧
    n'.routers p = some r ∧ r.ip = y.linkStateID ∧ r.ownLSA = some z ∧ z.links = y.links ∧
    y.lsaSeqNumber ≤ z.lsaSeqNumber

/-- The state of a run in which every copy has its origin. -/
structure Dominated (conf : Int16 → Option Configuration) (acts : List Action) (n : Network) :
    Prop where
  wired : Wired n
  distinct : Apart n
  attaching : ∀ p r a q s, n.routers p = some r → r.terminal = .attaching a q s → q ≠ p
  apart : ∀ (c : Nat) k, n.conns[c]? = some k → k.client ≠ k.server
  own : ∀ p r, n.routers p = some r → ∃ x, r.ownLSA = some x ∧
    number x = Int32.minValue.toInt + ownUpdates p (init conf) acts
  past : ∀ acts' n', acts' <+: acts → Run step attachesOthers (init conf) acts' n' →
    ∀ p r' z, n'.routers p = some r' → r'.ownLSA = some z →
      ∃ r x, n.routers p = some r ∧ r.ip = r'.ip ∧ r.ownLSA = some x ∧
        z.lsaSeqNumber ≤ x.lsaSeqNumber
  stored : ∀ p r, n.routers p = some r → r.lsd.Holds (OnceStored conf acts)
  carried : ∀ (c : Nat) k, n.conns[c]? = some k → ∀ m, m ∈ k.toServer ∨ m ∈ k.toClient →
    ∀ y, some y ∈ m.lsaArray → OnceStored conf acts y

theorem mem_of_mem_beforeNull {lsaArray : List (Option LSA)} {y : LSA}
    (h : y ∈ beforeNull lsaArray) : some y ∈ lsaArray := by
  unfold beforeNull at h
  rw [List.reduceOption_mem_iff] at h
  exact (List.takeWhile_prefix _).subset h

section dominated

variable {conf : Int16 → Option Configuration} {acts : List Action} {n n' : Network} {a : Action}
  {p : Int16} {r : Router} {ev : Router.Event} {e : Effect}

theorem OnceStored.smaller (y y' : LSA) (h : OnceStored conf acts y)
    (hid : y'.linkStateID = y.linkStateID) (hlinks : y'.links = y.links)
    (hle : y'.lsaSeqNumber ≤ y.lsaSeqNumber) : OnceStored conf acts y' := by
  obtain ⟨acts', n', p, r, z, hpre, hrun, hr, hip, hz, hl, hle'⟩ := h
  exact ⟨acts', n', p, r, z, hpre, hrun, hr, by rw [hip, hid], hz, by rw [hl, hlinks],
    Int32.le_trans hle hle'⟩

theorem OnceStored.snoc {y : LSA} (h : OnceStored conf acts y) (a : Action) :
    OnceStored conf (acts ++ [a]) y := by
  obtain ⟨acts', n', p, r, z, hpre, hrest⟩ := h
  exact ⟨acts', n', p, r, z, hpre.trans (List.prefix_append _ _), hrest⟩

/-- A copy is no newer than the own entry of its origin. -/
theorem Dominated.newest (hd : Dominated conf acts n) (hr : n.routers p = some r) {x y : LSA}
    (hx : r.ownLSA = some x) (hy : OnceStored conf acts y) (hid : y.linkStateID = r.ip) :
    y.lsaSeqNumber ≤ x.lsaSeqNumber := by
  obtain ⟨acts', n', q, r', z, hpre, hrun, hr', hip, hz, -, hle⟩ := hy
  obtain ⟨r1, x1, hr1, hip1, hx1, hle1⟩ := hd.past acts' n' hpre hrun q r' z hr' hz
  obtain rfl := hd.distinct q p r1 r hr1 hr (by rw [hip1, hip, hid])
  rw [hr] at hr1
  cases hr1
  rw [hx] at hx1
  cases hx1
  exact Int32.le_trans hle hle1

/-- A packet that a router handles comes from another router. -/
theorem Dominated.handled_other (hd : Dominated conf acts n) (h : n.Acted a p r ev e n')
    {connect : Int16 → Client} {msg : SOSPFPacket} (hev : ev = .handle connect msg) :
    r.ip ≠ msg.routerID ∧ ∀ y ∈ beforeNull msg.lsaArray, OnceStored conf acts y := by
  subst hev
  have hr := h.router
  cases h.offers with
  | @handle c _ k _ rest hk hq _ =>
    have hmem : msg ∈ k.toServer := by simp [hq]
    constructor
    · intro hip
      obtain ⟨r0, hr0, hid, -⟩ := hd.wired.sent c k hk msg hmem
      exact hd.apart c k hk (hd.distinct _ _ r0 r hr0 hr (by rw [← hid, hip]))
    · exact fun y hy => hd.carried c k hk msg (Or.inl hmem) y (mem_of_mem_beforeNull hy)

/-- The updates of a packet leave the own entry as it is. -/
theorem Dominated.own_receive (hd : Dominated conf acts n) (h : n.Acted a p r ev e n')
    {connect : Int16 → Client} {msg : SOSPFPacket} (hev : ev = .handle connect msg) {x : LSA}
    (hx : r.ownLSA = some x) :
    (r.lsd.receive (beforeNull msg.lsaArray)).1.getLSA r.ip = some x := by
  apply LinkStateDatabase.getLSA_receive_stale hx
  intro y hy hid
  exact hd.newest h.router hx ((hd.handled_other h hev).2 y hy) hid

/-- An act leaves the own entry as it is, or gives it the next number. -/
theorem Dominated.own_acted (hd : Dominated conf acts n) (h : n.Acted a p r ev e n') {x : LSA}
    (hx : r.ownLSA = some x) :
    ∃ x', e.router.ownLSA = some x' ∧ (x' = x ∨ x'.lsaSeqNumber = x.lsaSeqNumber + 1) := by
  have hrd := Router.did_rd h.did
  have hrenumber : ∀ r1 : Router, r1.rd = r.rd → r1.lsd = r.lsd →
      (r1.lsd.renumber r1.ip r1.buildLSA).lsaSeqNumber = x.lsaSeqNumber + 1 := by
    intro r1 hrd1 hlsd1
    have hx1 : r1.lsd.getLSA r1.ip = some x := (Router.ownLSA_of_fields hrd1 hlsd1).trans hx
    simp [LinkStateDatabase.renumber, hx1]
  rcases Router.did_lsd h.did with ⟨hl, -⟩ | ⟨r1, hr1, hl1, -, hl⟩ | ⟨connect, msg, hev, ht, -, hl⟩ |
    ⟨connect, msg, hev, ht, -, hl⟩
  · exact ⟨x, by rw [Router.ownLSA_of_fields hrd hl, hx], Or.inl rfl⟩
  · refine ⟨_, ?_, Or.inr (hrenumber r1 hr1 hl1)⟩
    rw [Router.ownLSA_of_fields (r := r1.updateLSD) (hrd.trans hr1.symm) hl, Router.ownLSA_updateLSD]
  · have hne := (hd.handled_other h hev).1
    refine ⟨_, ?_, Or.inr (hrenumber (r.removeRemote msg.routerID) rfl rfl)⟩
    have hown : (r.removeRemote msg.routerID).updateLSD.lsd.getLSA r.ip = some _ :=
      Router.ownLSA_updateLSD (r.removeRemote msg.routerID)
    rw [Router.ownLSA, hl, Router.did_ip h.did, LinkStateDatabase.getLSA_remove_ne _ hne, hown]
  · refine ⟨x, ?_, Or.inl rfl⟩
    rw [Router.ownLSA, hl, Router.did_ip h.did]
    exact hd.own_receive h hev hx

/-- The next number, while numbers are left. -/
theorem number_succ {x x' : LSA} {c : Nat} (h : number x = Int32.minValue.toInt + c)
    (hc : c + 1 < 2 ^ 32) (hx' : x'.lsaSeqNumber = x.lsaSeqNumber + 1) :
    number x' = number x + 1 := by
  unfold number at h ⊢
  have hmin : Int32.minValue.toInt = -2147483648 := rfl
  rw [hx']
  apply toInt_succ_of_lt (b := Int32.maxValue)
  rw [Int32.lt_iff_toInt_lt, h, hmin]
  change _ < (2147483647 : Int)
  omega

theorem next_ne (s : Int32) : s + 1 ≠ s := by
  intro h
  have hbits : s.toBitVec + 1#32 = s.toBitVec := congrArg Int32.toBitVec h
  bv_omega

/-- The number of the own entry counts the updates. -/
theorem Dominated.own_next (hd : Dominated conf acts n) (h : n.Acted a p r ev e n')
    (hrun : Run step attachesOthers (init conf) acts n) (hs : n.step a = some n')
    (hcount : ownUpdates p (init conf) (acts ++ [a]) < 2 ^ 32 - 1) {x : LSA}
    (hx : r.ownLSA = some x)
    (hnum : number x = Int32.minValue.toInt + ownUpdates p (init conf) acts) :
    ∃ x', e.router.ownLSA = some x' ∧ number x ≤ number x' ∧
      number x' = Int32.minValue.toInt + ownUpdates p (init conf) (acts ++ [a]) := by
  obtain ⟨x', hx', hcase⟩ := hd.own_acted h hx
  have hbefore : n.ownEntry p = some x := by simp [ownEntry, h.router, hx]
  have hafter : n'.ownEntry p = some x' := by simp [ownEntry, h.router_self, hx']
  rw [ownUpdates_snoc p hrun hs] at hcount ⊢
  refine ⟨x', hx', ?_⟩
  rcases hcase with rfl | hnext
  · simp [hbefore, hafter, hnum]
  · have hne : x' ≠ x := by
      rintro rfl
      exact next_ne _ hnext.symm
    simp only [hbefore, hafter, Option.some.injEq, hne, if_false] at hcount ⊢
    have hsucc := number_succ hnum (by omega) hnext
    rw [hsucc]
    constructor
    · omega
    · rw [hnum]
      push_cast
      omega

/-- The other routers keep their entries, and the count of their updates. -/
theorem ownUpdates_other (h : n.Acted a p r ev e n')
    (hrun : Run step attachesOthers (init conf) acts n) (hs : n.step a = some n') {q : Int16}
    (hq : q ≠ p) : ownUpdates q (init conf) (acts ++ [a]) = ownUpdates q (init conf) acts := by
  rw [ownUpdates_snoc q hrun hs]
  simp [ownEntry, h.routers, Function.update_of_ne hq]

theorem onceStored_own {acts : List Action} (hrun : Run step attachesOthers (init conf) acts n)
    (hr : n.routers p = some r) {y : LSA} (hy : r.ownLSA = some y) (hid : y.linkStateID = r.ip) :
    OnceStored conf acts y :=
  ⟨acts, n, p, r, y, List.prefix_refl _, hrun, hr, hid.symm, hy, rfl, Int32.le_refl _⟩

theorem holds_mono {D D' : LSA → Prop} {d : LinkStateDatabase} (h : d.Holds D)
    (hD : ∀ y, D y → D' y) : d.Holds D' :=
  fun i y hy => ⟨(h i y hy).1, hD y (h i y hy).2⟩

theorem Dominated.stored_acted (hd : Dominated conf acts n) (h : n.Acted a p r ev e n')
    (hrun : Run step attachesOthers (init conf) (acts ++ [a]) n') :
    e.router.lsd.Holds (OnceStored conf (acts ++ [a])) := by
  have hold : r.lsd.Holds (OnceStored conf (acts ++ [a])) :=
    holds_mono (hd.stored p r h.router) fun y hy => hy.snoc a
  have hrd := Router.did_rd h.did
  have hip := Router.did_ip h.did
  -- an own entry that is built anew has just been stored
  have hbuilt : ∀ r1 : Router, r1.rd = r.rd →
      e.router.ownLSA = some (r1.lsd.renumber r1.ip r1.buildLSA) →
      OnceStored conf (acts ++ [a]) (r1.lsd.renumber r1.buildLSA.linkStateID r1.buildLSA) := by
    intro r1 hrd1 hown
    refine onceStored_own hrun h.router_self hown ?_
    rw [LinkStateDatabase.renumber_linkStateID, hip, Router.ip, ← hrd1]
    rfl
  rcases Router.did_lsd h.did with ⟨hl, -⟩ | ⟨r1, hr1, hl1, -, hl⟩ | ⟨connect, msg, hev, ht, -, hl⟩ |
    ⟨connect, msg, hev, ht, -, hl⟩
  · rw [hl]
    exact hold
  · rw [hl]
    have hown : e.router.ownLSA = some (r1.lsd.renumber r1.ip r1.buildLSA) := by
      rw [Router.ownLSA_of_fields (r := r1.updateLSD) (hrd.trans hr1.symm) hl,
        Router.ownLSA_updateLSD]
    exact LinkStateDatabase.holds_addLSA (hl1 ▸ hold) (hbuilt r1 hr1 hown)
  · rw [hl]
    have hne := (hd.handled_other h hev).1
    have hown : e.router.ownLSA = some ((r.removeRemote msg.routerID).lsd.renumber
        (r.removeRemote msg.routerID).ip (r.removeRemote msg.routerID).buildLSA) := by
      have hself : (r.removeRemote msg.routerID).updateLSD.lsd.getLSA r.ip = some _ :=
        Router.ownLSA_updateLSD (r.removeRemote msg.routerID)
      rw [Router.ownLSA, hl, hip, LinkStateDatabase.getLSA_remove_ne _ hne, hself]
    apply LinkStateDatabase.holds_remove
    exact LinkStateDatabase.holds_addLSA hold (hbuilt (r.removeRemote msg.routerID) rfl hown)
  · rw [hl]
    exact (LinkStateDatabase.holds_receive OnceStored.smaller _ hold
      fun y hy => ((hd.handled_other h hev).2 y hy).snoc a).1

theorem Dominated.carried_acted (hd : Dominated conf acts n) (h : n.Acted a p r ev e n')
    (hrun : Run step attachesOthers (init conf) (acts ++ [a]) n') {c : Nat} {k' : Connection}
    (hk' : n'.conns[c]? = some k') {m : SOSPFPacket} (hm : m ∈ k'.toServer ∨ m ∈ k'.toClient)
    {y : LSA} (hy : some y ∈ m.lsaArray) : OnceStored conf (acts ++ [a]) y := by
  have hold : ∀ k, n.conns[c]? = some k → m ∈ k.toServer ∨ m ∈ k.toClient →
      OnceStored conf (acts ++ [a]) y :=
    fun k hk hmem => (hd.carried c k hk m hmem y hy).snoc a
  rcases hm with hm | hm
  · rcases h.mem_toServer hk' hm with ⟨k, hk, -, -, h1⟩ | h1
    · exact hold k hk (Or.inl h1)
    · rcases Router.did_lsas h.did h1 hy with hown | ⟨connect, msg, hev, -, hmem⟩
      · have hid := (hd.stored_acted h hrun _ y hown).1
        exact onceStored_own hrun h.router_self hown hid
      · have hstored := holds_mono (hd.stored p r h.router) fun y hy => hy.snoc a
        exact (LinkStateDatabase.holds_receive OnceStored.smaller _ hstored
          fun y hy => ((hd.handled_other h hev).2 y hy).snoc a).2 y hmem
  · obtain ⟨k, hk, -, -, h1 | ⟨-, -, h1⟩⟩ := h.mem_toClient hk' hm
    · exact hold k hk (Or.inr h1)
    · rw [Router.did_reply_lsas h.did h1] at hy
      cases hy

/-- The step that takes an update from a connection. -/
theorem Dominated.own_update (hd : Dominated conf acts n) {c : Nat} {k : Connection}
    {msg : SOSPFPacket} {rest : List SOSPFPacket} (h : n.Acted (.deliver c) p r ev e n')
    (hk : n.conns[c]? = some k) (hq : k.toServer = msg :: rest)
    (htype : msg.sospfType = .LSAUPDATE) {x : LSA} (hx : r.ownLSA = some x) :
    e.router.ownLSA = some x := by
  have hip := Router.did_ip h.did
  rcases h.offers.taken hk hq with ⟨hev, -⟩ | ⟨i, hev, -⟩
  · rw [h.handled_update hev htype, Router.ownLSA, (r.parseLsaUpdate_ports msg).2.1,
      Router.parseLsaUpdate_lsd, hd.own_receive h hev hx]
  · have hdid := h.did
    rw [hev] at hdid
    cases hdid
    exact hx

theorem Dominated.apart_acted (hd : Dominated conf acts n) (h : n.Acted a p r ev e n') {c : Nat}
    {k' : Connection} (hk' : n'.conns[c]? = some k') : k'.client ≠ k'.server := by
  obtain ⟨k, rfl, hk | ⟨-, ho, hk⟩⟩ := h.conn_cases hk'
  · exact hd.apart c k hk
  · have hclient : k.client = p := by rw [hk]
    change k.client ≠ k.server
    rw [hclient]
    rcases Router.did_opens h.did ho with ⟨connect, a', s, -, ht⟩ | ⟨connect, msg, hev, ht, hport⟩
    · exact (hd.attaching p r a' k.server s h.router ht).symm
    · subst hev
      cases h.offers with
      | @handle c0 _ k0 _ rest hk0 hq _ =>
        obtain ⟨r0, -, -, hatt⟩ := hd.wired.sent c0 k0 hk0 msg (by simp [hq])
        rw [← hport, (hatt ht).1]
        exact (hd.apart c0 k0 hk0).symm

theorem Dominated.acted (hd : Dominated conf acts n) (h : n.Acted a p r ev e n')
    (hrun : Run step attachesOthers (init conf) acts n) (hok : n.attachesOthers a)
    (hs : n.step a = some n')
    (hcount : ∀ q, ownUpdates q (init conf) (acts ++ [a]) < 2 ^ 32 - 1) :
    Dominated conf (acts ++ [a]) n' := by
  have hrun' : Run step attachesOthers (init conf) (acts ++ [a]) n' := .snoc hrun hok hs
  have hnext : ∀ x, r.ownLSA = some x → ∃ x', e.router.ownLSA = some x' ∧ number x ≤ number x' ∧
      number x' = Int32.minValue.toInt + ownUpdates p (init conf) (acts ++ [a]) := by
    intro x hx
    obtain ⟨x0, hx0, hnum⟩ := hd.own p r h.router
    rw [hx] at hx0
    cases hx0
    exact hd.own_next h hrun hs (hcount p) hx hnum
  refine ⟨hd.wired.acted h, hd.distinct.step hs, ?_, fun _ _ hk' => hd.apart_acted h hk', ?_, ?_, ?_,
    fun _ _ hk' _ hm _ hy => hd.carried_acted h hrun' hk' hm hy⟩
  · intro q r' a' x s' hr' ht
    rcases h.router_cases hr' with ⟨rfl, rfl⟩ | ⟨-, hr0⟩
    · rcases Router.did_attaching h.did ht with ht0 | hev
      · exact hd.attaching q r a' x s' h.router ht0
      · subst hev
        cases h.offers
        exact hok
    · exact hd.attaching q r' a' x s' hr0 ht
  · intro q r' hr'
    rcases h.router_cases hr' with ⟨rfl, rfl⟩ | ⟨hq, hr0⟩
    · obtain ⟨x, hx, -⟩ := hd.own q r h.router
      obtain ⟨x', hx', -, hnum'⟩ := hnext x hx
      exact ⟨x', hx', hnum'⟩
    · rw [ownUpdates_other h hrun hs hq]
      exact hd.own q r' hr0
  · intro acts1 n1 hpre hrun1 q r1 z hr1 hz
    rcases List.prefix_concat_iff.mp hpre with rfl | hpre'
    · rw [hrun1.unique hrun'] at hr1
      exact ⟨r1, z, hr1, rfl, hz, Int32.le_refl _⟩
    · obtain ⟨r0, x, hr0, hip, hx, hle⟩ := hd.past acts1 n1 hpre' hrun1 q r1 z hr1 hz
      by_cases hq : q = p
      · subst hq
        rw [h.router] at hr0
        cases hr0
        obtain ⟨x', hx', hmono, -⟩ := hnext x hx
        refine ⟨e.router, x', h.router_self, by rw [Router.did_ip h.did, hip], hx', ?_⟩
        exact Int32.le_trans hle ((number_le_iff x x').mp hmono)
      · exact ⟨r0, x, by rw [h.routers, Function.update_of_ne hq, hr0], hip, hx, hle⟩
  · intro q r' hr'
    rcases h.router_cases hr' with ⟨rfl, rfl⟩ | ⟨-, hr0⟩
    · exact hd.stored_acted h hrun'
    · exact holds_mono (hd.stored q r' hr0) fun y hy => hy.snoc a

theorem Dominated.lost (hd : Dominated conf acts n) {c : Nat} {k : Connection} (h : n.Lost c k n')
    (hrun : Run step attachesOthers (init conf) acts n) (hok : n.attachesOthers a)
    (hs : n.step a = some n') : Dominated conf (acts ++ [a]) n' := by
  have hrun' : Run step attachesOthers (init conf) (acts ++ [a]) n' := .snoc hrun hok hs
  refine ⟨hd.wired.lost h, hd.distinct.step hs, ?_, ?_, ?_, ?_, ?_, ?_⟩
  · rw [h.routers]
    exact hd.attaching
  · intro i k' hk'
    obtain ⟨k0, hk0, hclient, hserver, -, -⟩ := h.conn_cases hk'
    rw [hclient, hserver]
    exact hd.apart i k0 hk0
  · intro q r' hr'
    rw [ownUpdates_snoc q hrun hs]
    rw [h.routers] at hr'
    simpa [ownEntry, h.routers] using hd.own q r' hr'
  · intro acts1 n1 hpre hrun1 q r1 z hr1 hz
    rcases List.prefix_concat_iff.mp hpre with rfl | hpre'
    · rw [hrun1.unique hrun'] at hr1
      exact ⟨r1, z, hr1, rfl, hz, Int32.le_refl _⟩
    · rw [h.routers]
      exact hd.past acts1 n1 hpre' hrun1 q r1 z hr1 hz
  · intro q r' hr'
    rw [h.routers] at hr'
    exact holds_mono (hd.stored q r' hr') fun y hy => hy.snoc a
  · intro i k' hk' m hm y hy
    obtain ⟨k0, hk0, -, -, hto, hsuf⟩ := h.conn_cases hk'
    refine (hd.carried i k0 hk0 m ?_ y hy).snoc a
    rcases hm with hm | hm
    · exact Or.inl (hsuf.subset hm)
    · exact Or.inr (hto ▸ hm)

end dominated

theorem dominated_init {conf : Int16 → Option Configuration} (hconf : DistinctIPs conf) :
    Dominated conf [] (init conf) := by
  have hnew : ∀ p r, (init conf).routers p = some r → r.terminal = .ready ∧ r.lsd = .new r.rd := by
    intro p r hr
    obtain ⟨c, -, rfl⟩ := Option.map_eq_some_iff.mp hr
    exact ⟨rfl, rfl⟩
  have hown : ∀ p r, (init conf).routers p = some r →
      r.ownLSA = some (LinkStateDatabase.initLinkStateDatabase r.rd) := by
    intro p r hr
    obtain ⟨-, hl⟩ := hnew p r hr
    rw [Router.ownLSA, hl, LinkStateDatabase.getLSA_new]
    exact if_pos rfl
  refine ⟨wired_init conf, apart_init hconf, ?_, ?_, ?_, ?_, ?_, ?_⟩
  · intro p r a q s hr ht
    rw [(hnew p r hr).1] at ht
    cases ht
  · intro c k hk
    simp [init] at hk
  · intro p r hr
    exact ⟨_, hown p r hr, rfl⟩
  · intro acts' n' hpre hrun p r' z hr' hz
    obtain rfl := List.prefix_nil.mp hpre
    obtain rfl := hrun.eq_of_nil
    exact ⟨r', z, hr', rfl, hz, Int32.le_refl _⟩
  · intro p r hr i y hy
    rw [(hnew p r hr).2, LinkStateDatabase.getLSA_new] at hy
    split at hy
    · rename_i hi
      cases hy
      exact ⟨hi.symm, onceStored_own .nil hr (hown p r hr) rfl⟩
    · cases hy
  · intro c k hk
    simp [init] at hk

theorem dominated_run {conf : Int16 → Option Configuration} (hconf : DistinctIPs conf)
    {acts : List Action} {n : Network} (h : Run step attachesOthers (init conf) acts n)
    (hcount : ∀ p, ownUpdates p (init conf) acts < 2 ^ 32 - 1) : Dominated conf acts n := by
  revert hcount
  apply h.invariant_along (P := fun acts n =>
    (∀ p, ownUpdates p (init conf) acts < 2 ^ 32 - 1) → Dominated conf acts n)
  · exact fun _ => dominated_init hconf
  · intro acts n a n' hrun ih hok hs hcount
    have hd := ih fun p => by
      have := hcount p
      rw [ownUpdates_snoc p hrun hs] at this
      omega
    rcases step_acted hs with ⟨p, r, ev, e, hact⟩ | ⟨c, k, -, hlost⟩
    · exact hd.acted hact hrun hok hs hcount
    · exact hd.lost hlost hrun hok hs

/-- The advertisement is one of origin `o` that a router stores, or that a
packet under way carries. -/
def HasCopy (n : Network) (o : String) (y : LSA) : Prop :=
  (∃ p r, n.routers p = some r ∧ r.lsd.getLSA o = some y) ∨
    ∃ (c : Nat) (k : Connection) (m : SOSPFPacket), n.conns[c]? = some k ∧
      (m ∈ k.toServer ∨ m ∈ k.toClient) ∧ some y ∈ m.lsaArray ∧ y.linkStateID = o

/-- In every state of a network, a router has its own entry, and no copy of it
anywhere is newer. The links of a copy are ones that the router itself once
stored, with a number at least as large. So an update that is handled leaves
the own entry of the router as it is. -/
theorem the_origin_dominates_its_copies (conf : Int16 → Option Configuration)
    (hconf : DistinctIPs conf) (acts : List Action) (n : Network)
    (h : Run step attachesOthers (init conf) acts n)
    (hcount : ∀ p, ownUpdates p (init conf) acts < 2 ^ 32 - 1) (p : Int16) (r : Router)
    (hr : n.routers p = some r) :
    ∃ x, r.ownLSA = some x ∧
      (∀ y, n.HasCopy r.ip y → y.lsaSeqNumber ≤ x.lsaSeqNumber ∧
        ∃ acts' n' z, acts' <+: acts ∧ Run step attachesOthers (init conf) acts' n' ∧
          n'.ownEntry p = some z ∧ z.links = y.links ∧ y.lsaSeqNumber ≤ z.lsaSeqNumber) ∧
      ∀ c k msg rest n', n.conns[c]? = some k → k.server = p → k.toServer = msg :: rest →
        msg.sospfType = .LSAUPDATE → n.step (.deliver c) = some n' → n'.ownEntry p = some x := by
  have hd := dominated_run hconf h hcount
  obtain ⟨x, hx, -⟩ := hd.own p r hr
  refine ⟨x, hx, ?_, ?_⟩
  · intro y hy
    have honce : OnceStored conf acts y ∧ y.linkStateID = r.ip := by
      rcases hy with ⟨q, r', hr', hget⟩ | ⟨c, k, m, hk, hm, hmem, hid⟩
      · obtain ⟨hid, hstored⟩ := hd.stored q r' hr' _ y hget
        exact ⟨hstored, hid⟩
      · exact ⟨hd.carried c k hk m hm y hmem, hid⟩
    obtain ⟨hstored, hid⟩ := honce
    refine ⟨hd.newest hr hx hstored hid, ?_⟩
    obtain ⟨acts', n', q, r', z, hpre, hrun, hr', hip, hz, hlinks, hle⟩ := hstored
    obtain ⟨r1, -, hr1, hip1, -⟩ := hd.past acts' n' hpre hrun q r' z hr' hz
    obtain rfl := hd.distinct q p r1 r hr1 hr (by rw [hip1, hip, hid])
    exact ⟨acts', n', z, hpre, hrun, by simp [ownEntry, hr', hz], hlinks, hle⟩
  · intro c k msg rest n' hk hserver hq htype hs
    subst hserver
    rcases step_acted hs with ⟨p', r', ev, e, hact⟩ | ⟨c', k', -, hlost⟩
    · obtain ⟨rfl, -⟩ := hact.offers.deliver hk
      have hr' := hact.router
      rw [hr] at hr'
      cases hr'
      have hown : e.router.ownLSA = some x := hd.own_update hact hk hq htype hx
      simp [ownEntry, hact.router_self, hown]
    · simp [ownEntry, hlost.routers, hr, hx]

/-- Once the update of a start has arrived, its copy at the neighbor is the own
entry of the router that started. -/
theorem the_origin_dominates_the_copy_at_its_neighbor :
    ∃ n r x, Run step attachesOthers (init threeRouters)
        (attachAct ++ startAct ++ [.deliver 0, .deliver 0]) n ∧
      n.routers 3000 = some r ∧ r.ownLSA = some x ∧ n.HasCopy r.ip x ∧
      ∀ y, n.HasCopy r.ip y → y.lsaSeqNumber ≤ x.lsaSeqNumber := by
  have hend : (exec step attachesOthers (init threeRouters)
      (attachAct ++ startAct ++ [.deliver 0, .deliver 0])).bind (fun n =>
        (n.routers 3000).bind fun r => (n.routers 4000).map fun r' =>
          (r.ownLSA.isSome, decide (r'.lsd.getLSA r.ip = r.ownLSA))) = some (true, true) := by decide
  obtain ⟨n, hn, h1⟩ := Option.bind_eq_some_iff.mp hend
  obtain ⟨r, hr, h2⟩ := Option.bind_eq_some_iff.mp h1
  obtain ⟨r', hr', heq⟩ := Option.map_eq_some_iff.mp h2
  simp only [Prod.mk.injEq, decide_eq_true_eq] at heq
  have hrun := run_of_exec hn
  have hcount : ∀ p, ownUpdates p (init threeRouters)
      (attachAct ++ startAct ++ [.deliver 0, .deliver 0]) < 2 ^ 32 - 1 := by
    intro p
    refine Nat.lt_of_le_of_lt (tally_le (b := 1) ?_ _ _) (by decide)
    intro n a n'
    split <;> omega
  obtain ⟨x, hx, hcopies, -⟩ := the_origin_dominates_its_copies threeRouters
    distinctIPs_threeRouters _ n hrun hcount 3000 r hr
  refine ⟨n, r, x, hrun, hr, hx, Or.inl ⟨4000, r', hr', by rw [heq.2, hx]⟩, ?_⟩
  exact fun y hy => (hcopies y hy).1

end Network
end socs.network
