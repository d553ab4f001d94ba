-- Agreement of the databases. An advertisement goes over the links that are
-- TWO-WAY when it comes by, and is not sent again over a link that comes up
-- later. So two neighbors agree at rest when every router has started since a
-- link last came up at any router that has an entry of it.
import Mathlib.Logic.Relation
import SysNet.LinkState.Neighbors

open runs Relation

namespace socs.network

/-! ## Links that come up -/

namespace Router

/-- A link is TWO-WAY in `r'` that was not in `r`. -/
def comesUp (r r' : Router) : Bool :=
  r'.ports.any fun l' => l'.router2.status = .TWO_WAY &&
    !r.ports.any fun l => l.client.conn = l'.client.conn && l.router2.status = .TWO_WAY

/-- The terminal is at the end of `start`, and broadcasts next. -/
def endsStart (r : Router) : Bool :=
  match r.terminal with
  | .starting cursor _ => cursor = r.ports.length
  | _ => false

/-- The names of the links that the router has stored under an address. -/
def linkIDs (r : Router) (i : String) : Option (List String) :=
  (r.lsd.getLSA i).map fun lsa => lsa.links.map (·.linkID)

/-- The two databases have the same keys, with the same links under each. -/
def Agrees (r r' : Router) : Prop := ∀ i, r.linkIDs i = r'.linkIDs i

theorem up_before {r r' : Router} (h : r.comesUp r' = false) {l' : Link} (hl' : l' ∈ r'.ports)
    (htwo : l'.router2.status = .TWO_WAY) :
    ∃ l ∈ r.ports, l.client.conn = l'.client.conn ∧ l.router2.status = .TWO_WAY := by
  unfold comesUp at h
  rw [List.any_eq_false] at h
  have hl := h l' hl'
  simpa [htwo] using hl

/-- A link that an update is not passed on over leads to its sender, or to the
router itself. -/
theorem passesOver_or (r : Router) (sender : String) {links : List Link} {l : Link}
    (hl : l ∈ links) (htwo : l.router2.status = .TWO_WAY) :
    r.PassesOver sender links l ∨ l.router2.simulatedIPAddress = sender ∨
      l.router2.simulatedIPAddress = r.ip := by
  obtain ⟨before, after, rfl⟩ := List.append_of_mem hl
  by_cases hskip : l.router2.simulatedIPAddress =
      if ∃ l' ∈ before, l'.router2.status = .TWO_WAY ∧ l'.router2.simulatedIPAddress ≠ sender
      then r.ip else sender
  · right
    split at hskip
    · exact Or.inr hskip
    · exact Or.inl hskip
  · exact Or.inl ⟨before, after, rfl, htwo, hskip⟩

end Router

namespace Network

/-- A link of the router at `q` comes up. -/
def comesUp (n n' : Network) (q : Int16) : Bool :=
  (n.routers q).any fun r => (n'.routers q).any r.comesUp

/-- The step ends a start of the router at `p`. -/
def startEnds (p : Int16) (n : Network) (a : Action) (_ : Network) : Prop :=
  a = .advance p ∧ (n.routers p).any Router.endsStart = true

/-- A link of the router at `p` comes up. -/
def ownLinkUp (p : Int16) (n : Network) (_ : Action) (n' : Network) : Prop :=
  n.comesUp n' p = true

/-- A link comes up at a router that has an entry of the router at `p`. -/
def holderLinkUp (p : Int16) (n : Network) (_ : Action) (n' : Network) : Prop :=
  ∃ q r rp, n.routers q = some r ∧ n.routers p = some rp ∧ (r.lsd.getLSA rp.ip).isSome ∧
    n.comesUp n' q = true

/-- A path of TWO-WAY links joins the routers. -/
def Joined (n : Network) : Int16 → Int16 → Prop := EqvGen n.TwoWay

/-! ## Where an entry can have come from -/

/-- The advertisement of a router has come over links that are past IDLE. -/
structure Reached (n : Network) : Prop where
  stored : ∀ p r i y, n.routers p = some r → r.lsd.getLSA i = some y →
    ∃ o ro, n.routers o = some ro ∧ ro.ip = i ∧ ReflTransGen n.Linked o p
  updates : ∀ (c : Nat) k, n.conns[c]? = some k → ∀ m ∈ k.toServer, m.sospfType = .LSAUPDATE →
    n.Linked k.client k.server

section agreement

variable {n n' : Network} {a : Action} {p : Int16} {r : Router} {ev : Router.Event} {e : Effect}

theorem Reached.stored_acted (hr : Reached n) (hc : Copied n) (h : n.Acted a p r ev e n')
    (hok : n.steady a = true) {q : Int16} {r' : Router} {i : String} {y : LSA}
    (hr' : n'.routers q = some r') (hy : r'.lsd.getLSA i = some y) :
    ∃ o ro, n'.routers o = some ro ∧ ro.ip = i ∧ ReflTransGen n'.Linked o q := by
  have hkeeps := hc.alive.keepsLinks h hok
  have hpath : ∀ {u v : Int16}, ReflTransGen n.Linked u v → ReflTransGen n'.Linked u v :=
    fun huv => ReflTransGen.mono (fun _ _ hl => Linked.acted hl h hkeeps) _ _ huv
  have hold : ∀ {v : Int16} {rv : Router} {i : String} {y : LSA}, n.routers v = some rv →
      rv.lsd.getLSA i = some y →
      ∃ o ro, n'.routers o = some ro ∧ ro.ip = i ∧ ReflTransGen n'.Linked o v := by
    intro v rv i y hrv hget
    obtain ⟨o, ro, hro, hip, hlinks⟩ := hr.stored v rv i y hrv hget
    obtain ⟨ro', hro', hip'⟩ := h.ip_kept hro
    exact ⟨o, ro', hro', by rw [hip', hip], hpath hlinks⟩
  rcases h.router_cases hr' with ⟨rfl, rfl⟩ | ⟨-, hr0⟩
  · rcases Router.did_database h.did hkeeps with hl | ⟨connect, m, -, -, rfl⟩ |
      ⟨connect, msg, hev, ht, rfl⟩
    · rw [hl] at hy
      exact hold h.router hy
    · by_cases hi : i = r.ip
      · exact ⟨q, _, h.router_self, by rw [Router.did_ip h.did, hi], .refl⟩
      · change (r.lsd.addLSA r.ip r.buildLSA).getLSA i = some y at hy
        rw [LinkStateDatabase.getLSA_addLSA_ne _ _ hi] at hy
        exact hold h.router hy
    · obtain ⟨hin, c, k, -, hk, hserver, hm⟩ := h.handled_inOrder hok hev ht
      rw [Router.parseLsaUpdate_lsd] at hy
      rcases LinkStateDatabase.getLSA_receive_cases hin hy with h1 | ⟨h1, rfl⟩
      · exact hold h.router h1
      · -- the sender has an entry of the origin
        obtain ⟨-, rc, hrc, z, hz, -⟩ := (hc.carried c k hk msg hm).2 y (mem_of_mem_beforeNull h1)
        obtain ⟨o, ro, hro, hip, hlinks⟩ := hold hrc hz
        have hlast := (hr.updates c k hk msg hm ht).acted h hkeeps
        rw [hserver] at hlast
        exact ⟨o, ro, hro, hip, hlinks.tail hlast⟩
  · exact hold hr0 hy

theorem Reached.updates_acted (hr : Reached n) (ha : Alive n) (h : n.Acted a p r ev e n')
    (hkeeps : Router.keepsLinks ev) {c : Nat} {k' : Connection} (hk' : n'.conns[c]? = some k')
    {m : SOSPFPacket} (hm : m ∈ k'.toServer) (ht : m.sospfType = .LSAUPDATE) :
    n'.Linked k'.client k'.server := by
  rcases h.mem_toServer hk' hm with ⟨k, hk, hclient, hserver, h1⟩ | h1
  · rw [hclient, hserver]
    exact (hr.updates c k hk m h1 ht).acted h hkeeps
  · cases Router.did_sent h.did hkeeps h1 with
    | attach _ _ _ _ _ ht' => rw [ht] at ht'; cases ht'
    | hello _ _ ht' => rw [ht] at ht'; cases ht'
    | twoWay _ _ _ _ ht' => rw [ht] at ht'; cases ht'
    | @update l hl hconn htwo _ _ _ =>
      subst hconn
      obtain ⟨k, r0, hk, hclient, hr0, hip⟩ := ha.port_end h.router hl
      have hlinked : n.Linked k.client k.server :=
        ⟨r, r0, by rw [hclient, h.router], hr0, l, hl, hip.symm, by rw [htwo]; intro hx; cases hx⟩
      rw [h.conn_kept hk] at hk'
      cases hk'
      exact hlinked.acted h hkeeps

theorem Reached.step (hr : Reached n) (hc : Copied n) (hok : n.steady a = true)
    (hs : n.step a = some n') : Reached n' := by
  rcases step_acted hs with ⟨p, r, ev, e, h⟩ | ⟨c, k, -, hlost⟩
  · constructor
    · exact fun _ _ _ _ hr' hy => hr.stored_acted hc h hok hr' hy
    · exact fun _ _ hk' _ hm ht =>
        hr.updates_acted hc.alive h (hc.alive.keepsLinks h hok) hk' hm ht
  · rw [hc.alive.not_lost hlost]
    exact hr

end agreement

theorem reached_init (conf : Int16 → Option Configuration) : Reached (init conf) := by
  constructor
  · intro p r i y hr hy
    refine ⟨p, r, hr, ?_, .refl⟩
    obtain ⟨c, -, rfl⟩ := Option.map_eq_some_iff.mp hr
    change (LinkStateDatabase.new _).getLSA i = some y at hy
    rw [LinkStateDatabase.getLSA_new] at hy
    split at hy
    · rename_i hi
      exact hi.symm
    · cases hy
  · intro c k hk
    simp [init] at hk

theorem reached_run {conf : Int16 → Option Configuration} (hconf : DistinctIPs conf)
    {acts : List Action} {n : Network}
    (h : Run step (fun n a => n.steady a = true) (init conf) acts n) : Reached n := by
  apply h.invariant_along (P := fun _ n => Reached n) (reached_init conf)
  exact fun _ _ _ _ hrun hr hok hs => hr.step (copied_run hconf hrun) hok hs

/-! ## How an advertisement spreads -/

/-- The router at `q` has the advertisement `x` under the address `i`. -/
def Has (n : Network) (q : Int16) (i : String) (x : LSA) : Prop :=
  ∃ r, n.routers q = some r ∧ r.lsd.getLSA i = some x

/-- The advertisement has come over the connection, or is on its way over it. -/
def Covered (n : Network) (i : String) (x : LSA) (c : Nat) : Prop :=
  ∀ k, n.conns[c]? = some k → n.Has k.server i x ∨ ∃ m ∈ k.toServer, some x ∈ m.lsaArray

/-- Where the own entry of the router at `p` is, its TWO-WAY links are covered. -/
def Spread (p : Int16) (n : Network) : Prop :=
  ∀ rp x, n.routers p = some rp → rp.ownLSA = some x → ∀ q r, n.routers q = some r →
    r.lsd.getLSA rp.ip = some x → ∀ l ∈ r.ports, l.router2.status = .TWO_WAY →
    n.Covered rp.ip x l.client.conn

section spread

variable {n n' : Network} {a : Action} {p o : Int16} {r ro ro' : Router} {ev : Router.Event}
  {e : Effect} {x : LSA}

/-- The router that has started takes the step of its broadcast. -/
theorem acted_startEnd (hr : n.routers o = some r) (hend : r.endsStart = true)
    (hs : n.step (.advance o) = some n') :
    n.Acted (.advance o) o r (.advance n.connect) r.startEnd n' := by
  obtain ⟨m, ht⟩ : ∃ m, r.terminal = .starting r.ports.length m := by
    unfold Router.endsStart at hend
    split at hend
    · rename_i cursor m ht
      exact ⟨m, by rw [ht, decide_eq_true_eq.mp hend]⟩
    · cases hend
  rw [step_startEnd hr ht, Option.some.injEq] at hs
  subst hs
  exact ⟨hr, .startEnd ht, .advance, rfl, acted_conns (by simp) (fun _ => rfl)⟩

theorem mem_toServer_sent {c : Nat} {k : Connection} {m : SOSPFPacket} (hm : (c, m) ∈ e.sends) :
    m ∈ (after a r ev e c k).toServer :=
  List.mem_append_right _ (mem_sendsTo.mpr hm)

/-- A start stores a new advertisement, which is on its way over every TWO-WAY
link of the router, and nowhere else. -/
theorem Copied.spread_now (hc : Copied n) (hok : n.steady a = true) (hs : n.step a = some n')
    (hend : startEnds o n a n') : Spread o n' := by
  obtain ⟨rfl, hterm⟩ := hend
  cases hr : n.routers o with
  | none => simp [hr] at hterm
  | some r =>
    rw [hr, Option.any_some] at hterm
    have h := acted_startEnd hr hterm hs
    obtain ⟨x0, hx0⟩ := Option.isSome_iff_exists.mp (hc.own o r hr)
    obtain ⟨x', hx', -, hlt⟩ := newer_startEnd hr hx0 hok
    intro rp x hrp hx q rq hrq hget l hl htwo k hk
    rw [h.router_self, Option.some.injEq] at hrp
    subst hrp
    rw [hx'] at hx
    cases hx
    have hip := Router.did_ip h.did
    rw [hip] at hget
    rcases h.router_cases hrq with ⟨rfl, rfl⟩ | ⟨-, hrq0⟩
    · -- the broadcast goes over every TWO-WAY link
      have hsend := hc.alive.wired.sends_startEnd hr hl htwo
      obtain ⟨k0, -, hk0, -⟩ := hc.alive.port_end hr hl
      rw [h.conn_kept hk0] at hk
      cases hk
      refine Or.inr ⟨_, mem_toServer_sent hsend, ?_⟩
      exact List.mem_singleton.mpr hx'.symm
    · -- no other router has the new advertisement yet
      exfalso
      rcases hc.copies o r x0 hr hx0 x' (Or.inl ⟨q, rq, hrq0, hget⟩) with rfl | hlt'
      · exact Int32.lt_irrefl hlt
      · exact Int32.lt_irrefl (Int32.lt_trans hlt hlt')

/-- A router that is up to the own entry of another has this entry. -/
theorem Copied.has_of_upTo (hc : Copied n) (hro : n.routers o = some ro)
    (hx : ro.ownLSA = some x) {q : Int16} {rq : Router} (hrq : n.routers q = some rq)
    (h : rq.lsd.upTo x) : n.Has q ro.ip x := by
  obtain ⟨z, hz, hle⟩ := h
  rw [hc.own_name hro hx] at hz
  refine ⟨rq, hrq, ?_⟩
  rcases hc.copies o ro x hro hx z (Or.inl ⟨q, rq, hrq, hz⟩) with rfl | hlt
  · exact hz
  · exact absurd hle (Int32.not_le.mpr hlt)

theorem Copied.upTo_of_has (hc : Copied n) (hro : n.routers o = some ro)
    (hx : ro.ownLSA = some x) {rq : Router} (h : rq.lsd.getLSA ro.ip = some x) : rq.lsd.upTo x :=
  ⟨x, by rw [hc.own_name hro hx, h], Int32.le_refl _⟩

/-- Without the end of a start, the own entry is as it was. -/
theorem Copied.own_before (hc : Copied n) (h : n.Acted a p r ev e n') (hok : n.steady a = true)
    (hend : ¬ startEnds o n a n') (hro' : n'.routers o = some ro') (hx : ro'.ownLSA = some x) :
    ∃ ro, n.routers o = some ro ∧ ro.ip = ro'.ip ∧ ro.ownLSA = some x := by
  rcases h.router_cases hro' with ⟨rfl, rfl⟩ | ⟨-, hro⟩
  · refine ⟨r, h.router, (Router.did_ip h.did).symm, ?_⟩
    obtain ⟨x0, hx0⟩ := Option.isSome_iff_exists.mp (hc.own o r h.router)
    rcases hc.own_acted h hok hx0 with hsame | ⟨⟨connect, m, rfl, ht, -⟩, -⟩
    · rw [hx0, ← hsame, hx]
    · have hr := h.router
      cases h.offers
      exact absurd ⟨rfl, by simp [hr, Router.endsStart, ht]⟩ hend
  · exact ⟨ro', hro, rfl, hx⟩

section kept

variable (hc : Copied n) (hc' : Copied n') (h : n.Acted a p r ev e n') (hok : n.steady a = true)
  (hro : n.routers o = some ro) (hx : ro.ownLSA = some x) (hro' : n'.routers o = some ro')
  (hx' : ro'.ownLSA = some x) (hip : ro.ip = ro'.ip)

include hc hc' h hok hro hx hro' hx' hip

theorem Has.kept {q : Int16} (hq : n.Has q ro.ip x) : n'.Has q ro.ip x := by
  obtain ⟨rq, hrq, hget⟩ := hq
  obtain ⟨rq', hrq', hup⟩ := hc.upTo_acted h hok hrq (hc.upTo_of_has hro hx hget)
  rw [hip]
  exact hc'.has_of_upTo hro' hx' hrq' hup

/-- A packet with the entry is still under way, or has been handled. -/
theorem Covered.kept {c : Nat} {k : Connection} (hk : n.conns[c]? = some k)
    (hcov : n.Covered ro.ip x c) : n'.Covered ro.ip x c := by
  intro k' hk'
  rw [h.conn_kept hk] at hk'
  cases hk'
  rcases hcov k hk with hhas | ⟨m, hm, hmem⟩
  · exact Or.inl (Has.kept hc hc' h hok hro hx hro' hx' hip hhas)
  · by_cases ha : a = .deliver c
    · obtain ⟨msg, rest, hq⟩ : ∃ msg rest, k.toServer = msg :: rest := by
        cases hq : k.toServer with
        | nil => rw [hq] at hm; cases hm
        | cons msg rest => exact ⟨msg, rest, rfl⟩
      rw [hq] at hm
      rcases List.mem_cons.mp hm with rfl | hrest
      · -- the packet is taken, by a handler that waits for no answer
        left
        have htype := ((hc.carried c k hk m (by simp [hq])).2 x hmem).1
        have hserver := (h.taken_from ha (Or.inl hk)).2
        have hev : ev = .handle n.connect m := by
          subst ha
          rcases h.offers.taken hk hq with ⟨hev, -⟩ | ⟨i, hev, -⟩
          · exact hev
          · rw [h.response_twoWay hok hev] at htype
            cases htype
        have horder := (h.handled_inOrder hok hev htype).1
        have hnull := (hc.carried c k hk m (by simp [hq])).1
        rw [hip]
        change n'.Has k.server ro'.ip x
        rw [hserver]
        apply hc'.has_of_upTo hro' hx' h.router_self
        rw [h.handled_update hev htype, Router.parseLsaUpdate_lsd]
        exact LinkStateDatabase.upTo_receive horder (Or.inr ((beforeNull_of_not_mem hnull).mpr hmem))
      · exact Or.inr ⟨m, by simp [after, ha, hq, hrest], hmem⟩
    · exact Or.inr ⟨m, by simp [after, ha, hm], hmem⟩

/-- A router that takes the entry from a packet passes it on over its TWO-WAY
links, but for those to a router that has it. -/
theorem Covered.passed {connect : Int16 → Client} {msg : SOSPFPacket}
    (hev : ev = .handle connect msg) (htype : msg.sospfType = .LSAUPDATE)
    (hmem : x ∈ beforeNull msg.lsaArray) {l : Link} (hl : l ∈ r.ports)
    (htwo : l.router2.status = .TWO_WAY) : n'.Covered ro.ip x l.client.conn := by
  obtain ⟨horder, c, k, -, hk, hserver, hm⟩ := h.handled_inOrder hok hev htype
  obtain ⟨hnull, hlsas⟩ := hc.carried c k hk msg hm
  obtain ⟨kl, rl, hkl, -, hrl, hipl⟩ := hc.alive.port_end h.router hl
  intro k' hk'
  rw [h.conn_kept hkl] at hk'
  cases hk'
  have he := h.handled_update hev htype
  rcases r.passesOver_or msg.routerID hl htwo with hpass | hname | hname
  · right
    obtain ⟨m, hsend, -, -, hlsas'⟩ := (parseLsaUpdate_sends hnull fun l' hl' =>
      (hc.alive.wired.held p r h.router l' (List.mem_append_left _ hl')).1).2 l hpass
    rw [← he] at hsend
    refine ⟨m, mem_toServer_sent hsend, hlsas' x ?_⟩
    rw [LinkStateDatabase.receive_of_inOrder horder]
    exact hmem
  · -- the sender was ahead of its packet
    left
    obtain ⟨rc, hrc, hid, -⟩ := hc.alive.wired.sent c k hk msg hm
    obtain ⟨-, rc', hrc', hup⟩ := hlsas x (mem_of_mem_beforeNull hmem)
    have hsame : kl.server = k.client := hc.apart _ _ rl rc hrl hrc (by rw [hipl, hname, hid])
    change n'.Has kl.server ro.ip x
    rw [hsame]
    exact Has.kept hc hc' h hok hro hx hro' hx' hip (hc.has_of_upTo hro hx hrc' hup)
  · left
    have hsame : kl.server = p := hc.apart _ _ rl r hrl h.router (by rw [hipl, hname])
    change n'.Has kl.server ro.ip x
    rw [hsame, hip]
    apply hc'.has_of_upTo hro' hx' h.router_self
    rw [he, Router.parseLsaUpdate_lsd]
    exact LinkStateDatabase.upTo_receive horder (Or.inr hmem)

end kept

theorem Copied.spread_later (hc : Copied n) (hok : n.steady a = true) (hs : n.step a = some n')
    (hspread : Spread o n) (hend : ¬ startEnds o n a n') (hup : ¬ holderLinkUp o n a n') :
    Spread o n' := by
  rcases step_acted hs with ⟨p, r, ev, e, h⟩ | ⟨c, k, -, hlost⟩
  · have hc' := hc.step hok hs
    intro ro' x hro' hx' q rq hrq hget l hl htwo
    obtain ⟨ro, hro, hip, hx⟩ := hc.own_before h hok hend hro' hx'
    have hkept : ∀ {q0 : Int16} {r0 : Router} {l0 : Link}, n.routers q0 = some r0 →
        r0.lsd.getLSA ro.ip = some x → l0 ∈ r0.ports → l0.router2.status = .TWO_WAY →
        n'.Covered ro.ip x l0.client.conn := by
      intro q0 r0 l0 hr0 hget0 hl0 htwo0
      obtain ⟨k, -, hk, -⟩ := hc.alive.port_end hr0 hl0
      exact Covered.kept hc hc' h hok hro hx hro' hx' hip hk
        (hspread ro x hro hx q0 r0 hr0 hget0 l0 hl0 htwo0)
    rw [← hip] at hget ⊢
    rcases h.router_cases hrq with ⟨rfl, rfl⟩ | ⟨-, hrq0⟩
    · by_cases hhad : r.lsd.getLSA ro.ip = some x
      · -- none of the links of a router with the entry comes up
        have hnot : r.comesUp e.router = false := by
          rw [← Bool.not_eq_true]
          intro hcomes
          refine hup ⟨q, r, ro, h.router, hro, by rw [hhad]; rfl, ?_⟩
          simp [Network.comesUp, h.router, h.router_self, hcomes]
        obtain ⟨l0, hl0, hconn, htwo0⟩ := Router.up_before hnot hl htwo
        rw [← hconn]
        exact hkept h.router hhad hl0 htwo0
      · rcases Router.did_database h.did (hc.alive.keepsLinks h hok) with hd |
          ⟨connect, m, -, -, rfl⟩ | ⟨connect, msg, hev, ht, rfl⟩
        · rw [hd] at hget
          exact absurd hget hhad
        · exfalso
          by_cases hi : ro.ip = r.ip
          · obtain rfl := hc.apart o q ro r hro h.router hi
            rw [h.router] at hro
            cases hro
            exact hhad hx
          · change (r.lsd.addLSA r.ip r.buildLSA).getLSA ro.ip = some x at hget
            rw [LinkStateDatabase.getLSA_addLSA_ne _ _ hi] at hget
            exact hhad hget
        · have horder := (h.handled_inOrder hok hev ht).1
          rw [Router.parseLsaUpdate_lsd] at hget
          rw [(r.parseLsaUpdate_ports msg).1] at hl
          rcases LinkStateDatabase.getLSA_receive_cases horder hget with h1 | ⟨h1, -⟩
          · exact absurd h1 hhad
          · exact Covered.passed hc hc' h hok hro hx hro' hx' hip hev ht h1 hl htwo
    · exact hkept hrq0 hget hl htwo
  · rw [hc.alive.not_lost hlost]
    exact hspread

end spread

theorem spread_run {conf : Int16 → Option Configuration} (hconf : DistinctIPs conf)
    {acts : List Action} {n : Network}
    (h : Run step (fun n a => n.steady a = true) (init conf) acts n) {o : Int16}
    (hsince : Since step (startEnds o) (holderLinkUp o) (init conf) acts n) : Spread o n := by
  apply hsince.invariant h
  · intro acts s a s' hrun hok hs hend
    exact (copied_run hconf hrun).spread_now hok hs hend
  · intro acts s a s' hrun hspread hok hs hup
    by_cases hend : startEnds o s a s'
    · exact (copied_run hconf hrun).spread_now hok hs hend
    · exact (copied_run hconf hrun).spread_later hok hs hspread hend hup

/-! ## Agreement -/

section quiet

variable {n : Network} {o : Int16} {ro : Router} {x : LSA}

/-- At rest the own entry of a router has come over each TWO-WAY link. -/
theorem Copied.has_twoWay (hc : Copied n) (hquiet : n.quiet = true) (hspread : Spread o n)
    (hro : n.routers o = some ro) (hx : ro.ownLSA = some x) {p q : Int16} (htwo : n.TwoWay p q)
    (hp : n.Has p ro.ip x) : n.Has q ro.ip x := by
  obtain ⟨r, r', hr, hr', l, hl, hname, hs⟩ := htwo
  obtain ⟨r0, hr0, hget⟩ := hp
  rw [hr] at hr0
  cases hr0
  obtain ⟨k, rk, hk, -, hrk, hip⟩ := hc.alive.port_end hr hl
  have hserver : k.server = q := hc.apart _ _ rk r' hrk hr' (by rw [hip, hname])
  rcases hspread ro x hro hx p r hr hget l hl hs k hk with hhas | ⟨m, hm, -⟩
  · rwa [hserver] at hhas
  · rw [(quiet_conn hquiet hk).1] at hm
    cases hm

theorem Copied.has_path (hc : Copied n) (hg : Greeted n) (hquiet : n.quiet = true)
    (hspread : Spread o n) (hro : n.routers o = some ro) (hx : ro.ownLSA = some x) {p : Int16}
    (hpath : ReflTransGen n.Linked o p) : n.Has p ro.ip x := by
  induction hpath with
  | refl => exact ⟨ro, hro, hx⟩
  | tail _ hlinked ih =>
    exact hc.has_twoWay hquiet hspread hro hx (hg.twoWay_of_linked hquiet hlinked) ih

end quiet

/-- What the router at a port has stored under an address. -/
def entry (n : Network) (p : Int16) (i : String) : Option LSA :=
  (n.routers p).bind fun r => r.lsd.getLSA i

section run

variable {conf : Int16 → Option Configuration} {acts : List Action} {n : Network}

/-- An entry of a router is one of each router that it has a TWO-WAY link to. -/
theorem entry_twoWay (hconf : DistinctIPs conf)
    (h : Run step (fun n a => n.steady a = true) (init conf) acts n) (hquiet : n.quiet = true)
    (hstart : ∀ p r, n.routers p = some r → r.ports ≠ [] →
      Since step (startEnds p) (holderLinkUp p) (init conf) acts n) {p q : Int16}
    (htwo : n.TwoWay p q) {i : String} {y : LSA} (hy : n.entry p i = some y) :
    n.entry q i = some y := by
  have hc := copied_run hconf h
  have hg := greeted_run hconf h
  obtain ⟨r, hr, hget⟩ := Option.bind_eq_some_iff.mp hy
  obtain ⟨o, ro, hro, rfl, hpath⟩ := (reached_run hconf h).stored p r i y hr hget
  -- the origin has a link, its own one or the first of the path
  have hports : ro.ports ≠ [] := by
    rcases hpath.cases_head with rfl | ⟨v, hlinked, -⟩
    · obtain ⟨r1, -, hr1, -, l, hl, -⟩ := htwo
      rw [hro] at hr1
      cases hr1
      exact List.ne_nil_of_mem hl
    · obtain ⟨r1, -, hr1, -, l, hl, -⟩ := hlinked
      rw [hro] at hr1
      cases hr1
      exact List.ne_nil_of_mem hl
  have hspread := spread_run hconf h (hstart o ro hro hports)
  obtain ⟨x, hx⟩ := Option.isSome_iff_exists.mp (hc.own o ro hro)
  have hp : n.Has p ro.ip x := hc.has_path hg hquiet hspread hro hx hpath
  obtain ⟨rq, hrq, hgetq⟩ := hc.has_twoWay hquiet hspread hro hx htwo hp
  have hyx : y = x := by
    obtain ⟨r1, hr1, hget1⟩ := hp
    rw [hr] at hr1
    cases hr1
    rw [hget] at hget1
    exact Option.some.inj hget1
  rw [hyx, entry, hrq, Option.bind_some, hgetq]

theorem entry_joined (hconf : DistinctIPs conf)
    (h : Run step (fun n a => n.steady a = true) (init conf) acts n) (hquiet : n.quiet = true)
    (hstart : ∀ p r, n.routers p = some r → r.ports ≠ [] →
      Since step (startEnds p) (holderLinkUp p) (init conf) acts n) {p q : Int16}
    (hjoined : n.Joined p q) (i : String) : n.entry p i = n.entry q i := by
  induction hjoined with
  | rel p q htwo =>
    apply Option.ext
    intro y
    constructor
    · exact entry_twoWay hconf h hquiet hstart htwo
    · exact entry_twoWay hconf h hquiet hstart ((greeted_run hconf h).twoWay_symm hquiet htwo)
  | refl p => rfl
  | symm p q _ ih => exact ih.symm
  | trans p q s _ _ ih1 ih2 => exact ih1.trans ih2

end run

/-- In a run that takes no link down, in which no update skips a number and
none is taken for the HELLO-TWO-WAY, two routers joined by TWO-WAY links agree
when no packet is in flight, if every router that has a link has started since
a link last came up at a router with an entry of it. -/
theorem databases_agree_when_all_started_since_a_link_of_a_holder_came_up
    (conf : Int16 → Option Configuration) (hconf : DistinctIPs conf) (acts : List Action)
    (n : Network) (h : Run step (fun n a => n.steady a = true) (init conf) acts n)
    (hquiet : n.quiet = true)
    (hstart : ∀ p r, n.routers p = some r → r.ports ≠ [] →
      Since step (startEnds p) (holderLinkUp p) (init conf) acts n)
    (p q : Int16) (r r' : Router) (hr : n.routers p = some r) (hr' : n.routers q = some r')
    (hjoined : n.Joined p q) : r.Agrees r' := by
  intro i
  have hentry := entry_joined hconf h hquiet hstart hjoined i
  rw [entry, entry, hr, hr', Option.bind_some, Option.bind_some] at hentry
  unfold Router.linkIDs
  rw [hentry]

/-! ## A late neighbor -/

theorem twoWay_iff {n : Network} {p q : Int16} :
    n.TwoWay p q ↔ ((n.routers p).any fun r => (n.routers q).any fun r' => r.ports.any fun l =>
      l.router2.simulatedIPAddress = r'.ip && l.router2.status = .TWO_WAY) = true := by
  unfold TwoWay
  cases n.routers p <;> cases n.routers q <;> simp

instance (n : Network) (p q : Int16) : Decidable (n.TwoWay p q) := decidable_of_iff _ twoWay_iff.symm

/-- The action `i` ends a start of the router at `p`, and `ok` allows every
later step. -/
def lastStart (ok : Network → Action → Bool) (p : Int16) (acts : List Action) (i : Nat) : Bool :=
  acts[i]? = some (.advance p) &&
    ((exec step anyStep (init threeRouters) (acts.take i)).bind fun n =>
      if (n.routers p).any Router.endsStart then (n.step (.advance p)).bind fun n' =>
        exec step (fun n a => ok n a = true) n' (acts.drop (i + 1))
      else none).isSome

theorem since_of_lastStart {ok : Network → Action → Bool} {bad : Network → Action → Network → Prop}
    {p : Int16} {acts : List Action} {i : Nat} {n : Network}
    (hbad : ∀ as s a s', Run step anyStep (init threeRouters) as s → ok s a = true →
      s.step a = some s' → ¬ bad s a s')
    (h : lastStart ok p acts i = true) (hrun : Run step anyStep (init threeRouters) acts n) :
    Since step (startEnds p) bad (init threeRouters) acts n := by
  unfold lastStart at h
  rw [Bool.and_eq_true, decide_eq_true_eq] at h
  obtain ⟨hi, hrest⟩ := h
  obtain ⟨hlt, heq⟩ := List.getElem?_eq_some_iff.mp hi
  have hsplit : acts = acts.take i ++ [.advance p] ++ acts.drop (i + 1) := by
    rw [List.append_assoc, ← heq, List.singleton_append, ← List.drop_eq_getElem_cons hlt,
      List.take_append_drop]
  obtain ⟨u, hu⟩ := Option.isSome_iff_exists.mp hrest
  obtain ⟨s, hs, hu⟩ := Option.bind_eq_some_iff.mp hu
  split at hu
  · rename_i hends
    obtain ⟨t, ht, hu⟩ := Option.bind_eq_some_iff.mp hu
    have hsince : Since step (startEnds p) bad (init threeRouters) _ u :=
      since_of_exec (run_of_exec hs) ht ⟨rfl, hends⟩ hbad hu
    rw [← hsplit] at hsince
    rwa [hrun.unique hsince.run]
  · cases hu

/-- No link of the router at `p` comes up. -/
def ownLinksStay (p : Int16) (n : Network) (a : Action) : Bool :=
  (n.step a).all fun n' => !n.comesUp n' p

/-- No link comes up at a router that has an entry of the router at `p`. -/
def holderLinksStay (p : Int16) (n : Network) (a : Action) : Bool :=
  (n.step a).all fun n' => [3000, 4000, 5000].all fun q => (n.routers q).all fun r =>
    (n.routers p).all fun rp => !(r.lsd.getLSA rp.ip).isSome || !n.comesUp n' q

theorem threeRouters_ports {p : Int16} {c : Configuration} (h : threeRouters p = some c) :
    p = 3000 ∨ p = 4000 ∨ p = 5000 := by
  unfold threeRouters at h
  split_ifs at h <;> simp_all

theorem not_ownLinkUp {p : Int16} {n n' : Network} {a : Action} (h : ownLinksStay p n a = true)
    (hs : n.step a = some n') : ¬ ownLinkUp p n a n' := by
  unfold ownLinkUp
  simpa [ownLinksStay, hs] using h

theorem not_holderLinkUp {p : Int16} {acts : List Action} {n n' : Network} {a : Action}
    (hrun : Run step anyStep (init threeRouters) acts n) (h : holderLinksStay p n a = true)
    (hs : n.step a = some n') : ¬ holderLinkUp p n a n' := by
  rintro ⟨q, r, rp, hr, hrp, hget, hup⟩
  obtain ⟨c, hc⟩ := router_run hrun q r hr
  have hq : q ∈ [(3000 : Int16), 4000, 5000] := by simpa using threeRouters_ports hc
  unfold holderLinksStay at h
  rw [hs, Option.all_some, List.all_eq_true] at h
  have hstay := h q hq
  rw [hr, Option.all_some, hrp, Option.all_some, hget, hup] at hstay
  cases hstay

/-- The routers at ports 3000 and 4000 attach and start, one after the other. -/
def twoStarts : List Action :=
  attachAct ++ startAct ++ [.deliver 0, .deliver 0, .command 4000 .start, .advance 4000,
    .advance 4000, .deliver 1]

/-- Then the router at port 5000 attaches the one at port 4000, and both start. -/
def lateNeighbor : List Action :=
  twoStarts ++
    [.command 5000 (.attach "127.0.0.1" 4000 "192.168.1.100"), .advance 5000, .deliver 2,
     .read 5000, .advance 5000, .command 5000 .start, .advance 5000, .deliver 2, .read 5000,
     .advance 5000, .deliver 2, .deliver 2, .deliver 1, .deliver 3, .command 4000 .start,
     .advance 4000, .advance 4000, .advance 4000, .deliver 1, .deliver 3]

/-- The late neighbor never hears of the router at port 3000. -/
theorem a_late_neighbor_lacks_an_entry :
    ¬ ∀ (conf : Int16 → Option Configuration) (acts : List Action) (n : Network),
      DistinctIPs conf → Run step anyStep (init conf) acts n → n.quiet = true →
      (∀ p r, n.routers p = some r → r.ports ≠ [] →
        Since step (startEnds p) (ownLinkUp p) (init conf) acts n) →
      ∀ (p q : Int16) (r r' : Router), n.routers p = some r → n.routers q = some r' →
        n.Joined p q → r.Agrees r' := by
  intro h
  have hend : (exec step anyStep (init threeRouters) lateNeighbor).bind (fun n =>
      (n.routers 3000).bind fun r => (n.routers 5000).map fun r' =>
        (n.quiet, decide (n.TwoWay 3000 4000 ∧ n.TwoWay 4000 5000), r.linkIDs "192.168.1.1",
          r'.linkIDs "192.168.1.1")) =
      some (true, true, some ["192.168.1.100"], none) := by decide
  obtain ⟨n, hn, h1⟩ := Option.bind_eq_some_iff.mp hend
  obtain ⟨r, hr, h2⟩ := Option.bind_eq_some_iff.mp h1
  obtain ⟨r', hr', heq⟩ := Option.map_eq_some_iff.mp h2
  simp only [Prod.mk.injEq, decide_eq_true_eq] at heq
  obtain ⟨hquiet, ⟨h34, h45⟩, hlinks, hnone⟩ := heq
  have hrun := run_of_exec hn
  have hstart : ∀ p r, n.routers p = some r → r.ports ≠ [] →
      Since step (startEnds p) (ownLinkUp p) (init threeRouters) lateNeighbor n := by
    intro p r0 hr0 _
    have hbad : ∀ as s a s', Run step anyStep (init threeRouters) as s →
        ownLinksStay p s a = true → s.step a = some s' → ¬ ownLinkUp p s a s' :=
      fun _ _ _ _ _ hok hs => not_ownLinkUp hok hs
    obtain ⟨c, hc⟩ := router_run hrun p r0 hr0
    rcases threeRouters_ports hc with rfl | rfl | rfl
    · exact since_of_lastStart (i := 9) hbad (by decide) hrun
    · exact since_of_lastStart (i := 33) hbad (by decide) hrun
    · exact since_of_lastStart (i := 25) hbad (by decide) hrun
  have hjoined : n.Joined 3000 5000 := .trans _ _ _ (.rel _ _ h34) (.rel _ _ h45)
  have hagrees := h threeRouters lateNeighbor n distinctIPs_threeRouters hrun hquiet hstart
    3000 5000 r r' hr hr' hjoined "192.168.1.1"
  rw [hlinks, hnone] at hagrees
  cases hagrees

/-- Two routers that start one after the other agree. -/
theorem databases_agree_after_two_starts :
    ∃ n r r', Run step (fun n a => n.steady a = true) (init threeRouters) twoStarts n ∧
      n.routers 3000 = some r ∧ n.routers 4000 = some r' ∧ r.linkIDs "192.168.1.1" ≠ none ∧
      r.Agrees r' := by
  have hend : (exec step (fun n a => n.steady a = true) (init threeRouters) twoStarts).bind (fun n =>
      (n.routers 3000).bind fun r => (n.routers 4000).bind fun r' => (n.routers 5000).map fun r'' =>
        (n.quiet, decide (n.TwoWay 3000 4000), r.linkIDs "192.168.1.1", r''.ports.length)) =
      some (true, true, some ["192.168.1.100"], 0) := by decide
  obtain ⟨n, hn, h1⟩ := Option.bind_eq_some_iff.mp hend
  obtain ⟨r, hr, h2⟩ := Option.bind_eq_some_iff.mp h1
  obtain ⟨r', hr', h3⟩ := Option.bind_eq_some_iff.mp h2
  obtain ⟨r'', hr'', heq⟩ := Option.map_eq_some_iff.mp h3
  simp only [Prod.mk.injEq, decide_eq_true_eq] at heq
  obtain ⟨hquiet, htwo, hlinks, hports⟩ := heq
  have hrun := run_of_exec hn
  have hany : Run step anyStep (init threeRouters) twoStarts n := hrun.mono fun _ _ _ => trivial
  have hstart : ∀ p r, n.routers p = some r → r.ports ≠ [] →
      Since step (startEnds p) (holderLinkUp p) (init threeRouters) twoStarts n := by
    intro p r0 hr0 hne
    have hbad : ∀ as s a s', Run step anyStep (init threeRouters) as s →
        holderLinksStay p s a = true → s.step a = some s' → ¬ holderLinkUp p s a s' :=
      fun _ _ _ _ hreach hok hs => not_holderLinkUp hreach hok hs
    obtain ⟨c, hc⟩ := router_run hany p r0 hr0
    rcases threeRouters_ports hc with rfl | rfl | rfl
    · exact since_of_lastStart (i := 9) hbad (by decide) hany
    · exact since_of_lastStart (i := 14) hbad (by decide) hany
    · rw [hr''] at hr0
      cases hr0
      exact absurd (List.length_eq_zero_iff.mp hports) hne
  refine ⟨n, r, r', hrun, hr, hr', by rw [hlinks]; exact (fun hx => by cases hx), ?_⟩
  exact databases_agree_when_all_started_since_a_link_of_a_holder_came_up threeRouters
    distinctIPs_threeRouters twoStarts n hrun hquiet hstart 3000 4000 r r' hr hr' (.rel _ _ htwo)

end Network
end socs.network
