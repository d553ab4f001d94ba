-- Links at both ends. An `attach` gives each of two routers a link to the
-- other, and a `disconnect` takes one from each, unless a packet misses its
-- mark: a DISCONNECT that finds no link to remove, or a request that is
-- accepted under another address than the one it asked for. At rest, the two
-- routers have as many links to each other exactly when as many packets of
-- one have missed as of the other.
import SysNet.LinkState.LinkCount

open runs cells

namespace socs.network
namespace Network

section acted

variable {n n' : Network} {a : Action} {x : Int16} {r : Router} {ev : Router.Event} {e : Effect}

/-! ## Links about to be inserted -/

theorem pendingTo_eq_zero {conns : List Connection} {q : Int16} {i : String} {t : Terminal}
    (h : t.pending = []) : pendingTo conns q i t = 0 := by
  cases t <;> first | rfl | cases h

/-- The wait of `attach` ends. The answer that is counted as an acceptance is
the one that `attach` takes for one. -/
theorem Wired.pendingTo_read (hw : Wired n) (hap : Apart n) {link : Link} {response : Option SOSPFPacket}
    (h : n.Acted a x r (.read response) e n') (ht : r.terminal = .attachSent link)
    {q : Int16} {rq : Router} (hq : n.routers q = some rq) :
    pendingTo n'.conns q rq.ip (Router.attachAnswer link response) =
      pendingTo n.conns q rq.ip r.terminal := by
  cases h.offers with
  | @read _ _ l k msg rest hwait hk hqu =>
    simp only [Router.waitsOn, ht, Option.some.injEq] at hwait
    subst hwait
    have hone := hw.waiting x r link h.router ht k hk
    have hrest : rest = [] := by
      rw [hqu, List.length_cons] at hone
      exact List.length_eq_zero_iff.mp (by omega)
    rw [hrest] at hqu
    simp only [ht, pendingTo, hk, hqu, Router.attachAnswer, List.countP_singleton, decide_eq_true_eq]
    by_cases hack : msg.sospfType = .ATTACH_ACK
    · rcases hw.answered _ k hk msg (by simp [hqu]) with hrej | ⟨rs, hrs, hid⟩
      · rw [hack] at hrej
        cases hrej
      · have hiff : msg.routerID = rq.ip ↔ k.server = q := by
          constructor
          · intro hip
            exact hap _ _ rs rq hrs hq (hid.symm.trans hip)
          · rintro rfl
            rw [hrs] at hq
            cases hq
            exact hid
        by_cases hip : msg.routerID = link.router2.simulatedIPAddress
        · simp only [hack, hip, and_self, if_true]
          by_cases hi : link.router2.simulatedIPAddress = rq.ip
          · simp [hi, hiff.mp (hip.trans hi)]
          · simp [hi]
        · have hnot : ¬ (k.server = q ∧ link.router2.simulatedIPAddress = rq.ip) := by
            rintro ⟨hs, hi⟩
            exact hip ((hiff.mpr hs).trans hi.symm)
          simp [hip, hnot]
    · simp [hack]
  | @eof _ _ l k hwait hk hnil _ =>
    simp only [Router.waitsOn, ht, Option.some.injEq] at hwait
    subst hwait
    simp [ht, pendingTo, hk, hnil, Router.attachAnswer]

theorem Wired.pendingTo_self (hw : Wired n) (hap : Apart n) (h : n.Acted a x r ev e n') {q : Int16}
    (hx : x ≠ q) {rq : Router} (hq : n.routers q = some rq) :
    pendingTo n'.conns q rq.ip e.router.terminal + r.enters rq.ip ev =
      pendingTo n.conns q rq.ip r.terminal := by
  have henters : r.terminal.accepted = [] → r.enters rq.ip ev = 0 := by
    intro hnil
    cases ev <;> simp [Router.enters, hnil]
  -- a terminal that holds no link of `attach` comes to hold none, or a new one
  have hfree : r.terminal.pending = [] → pendingTo n'.conns q rq.ip e.router.terminal = 0 := by
    intro hnil
    rcases Router.did_terminal h.did with ht | ht | ⟨connect, a', y, s, link, hev, -, ht, hc, -, ho, -, -⟩ |
      ⟨link, msg, -, ht, -⟩ | ⟨i, m, l, ht, -⟩
    · rw [ht]
      exact pendingTo_eq_zero hnil
    · apply pendingTo_eq_zero
      exact List.subset_nil.mp (ht ▸ pending_subset_link e.router.terminal)
    · subst hev
      cases h.offers
      rw [ht]
      simp only [pendingTo, hc, show (n.connect y).conn = n.conns.length from rfl, h.conn_opened ho]
      simp [after, readsFrom]
    · rw [ht] at hnil
      cases hnil
    · rw [ht]
      rfl
  cases ht : r.terminal with
  | attachSent link =>
    rw [henters (by rw [ht]; rfl), Nat.add_zero]
    obtain ⟨-, k, hk, -⟩ := hw.held x r h.router link (by simp [ht, Terminal.link, Terminal.pending])
    rcases Router.did_attachSent h.did ht with ⟨hsame, hnoread⟩ | ⟨response, rfl, he⟩
    · rw [hsame]
      simp only [pendingTo, hk, h.conn_kept hk]
      by_cases hs : k.server = q
      · have hreads : readsFrom r link.client.conn ev = false := by
          cases ev with
          | read response => exact absurd rfl (hnoread response)
          | _ => rfl
        have hdel : a ≠ .deliver link.client.conn := by
          rintro rfl
          exact hx ((h.offers.deliver hk).1.trans hs)
        simp [after, hreads, hdel]
      · simp [after, hs]
    · rw [he, ← ht]
      exact hw.pendingTo_read hap h ht hq
  | attachAccepted link =>
    rcases Router.did_attachAccepted h.did ht with ⟨hsame, hno⟩ | ⟨connect, rfl, hready⟩
    · have hzero : r.enters rq.ip ev = 0 := by
        cases ev with
        | advance connect => exact absurd rfl (hno connect)
        | _ => rfl
      rw [hsame, hzero]
      rfl
    · rw [hready]
      simp [pendingTo, Router.enters, ht, Terminal.accepted, List.countP_singleton]
  | _ =>
    have hnil : r.terminal.pending = [] := by rw [ht]; rfl
    rw [hfree hnil, henters (by rw [ht]; rfl)]
    rfl

theorem taken_deliver {p q : Int16} {k : Connection} {m : SOSPFPacket}
    (h : n.taken p q a = some (k, m)) : ∃ c rest, a = .deliver c ∧ n.conns[c]? = some k ∧
      k.client = p ∧ k.server = q ∧ k.toServer = m :: rest := by
  cases a with
  | deliver c =>
    obtain ⟨k', hk', h1⟩ := Option.bind_eq_some_iff.mp h
    split at h1
    · rename_i hb
      obtain ⟨m', hm', heq⟩ := Option.map_eq_some_iff.mp h1
      cases heq
      obtain ⟨rest, hq⟩ := List.head?_eq_some_iff.mp hm'
      simp only [between, Bool.and_eq_true, decide_eq_true_eq] at hb
      exact ⟨c, rest, rfl, hk', hb.1, hb.2, hq⟩
    · cases h1
  | command => cases h
  | advance => cases h
  | read => cases h

/-- The router whose request is accepted waits for the answer. -/
theorem Wired.makesLink_from (hw : Wired n) {p q : Int16} {rp : Router}
    (hp : n.routers p = some rp) {k : Connection} {m : SOSPFPacket}
    (ht : n.taken p q a = some (k, m)) (hm : n.makesLink q (k, m) = true) :
    ∃ link, rp.terminal = .attachSent link ∧ a = .deliver link.client.conn ∧
      link.router2.simulatedIPAddress = m.neighborID := by
  obtain ⟨c, rest, rfl, hk, rfl, rfl, hq⟩ := taken_deliver ht
  simp only [makesLink, serves, Bool.and_eq_true, decide_eq_true_eq] at hm
  obtain ⟨r0, hr0, -, hatt⟩ := hw.sent c k hk m (by simp [hq])
  rw [hp] at hr0
  cases hr0
  obtain ⟨link, hlink, hc, hip⟩ := (hatt hm.1.1).2 hm.1.2.1
  exact ⟨link, hlink, by rw [hc], hip⟩

/-- A handler answers with an ACK exactly when it accepts a request. -/
theorem acks_handle {connect : Int16 → Client} {msg : SOSPFPacket}
    (h : r.Did (.handle connect msg) e) :
    e.reply.toList.countP (·.sospfType = .ATTACH_ACK) =
      if msg.sospfType = .ATTACH ∧ r.ports.length < 4 then 1 else 0 := by
  cases h with
  | hello _ ht =>
    unfold Router.parseHello
    split <;> simp [ht, Router.helloACK]
  | attached _ ht =>
    unfold Router.parseAttach
    split
    · rename_i hlt
      simp [ht, hlt, Router.attachAccept]
    · rename_i hlt
      simp [ht, hlt, Router.attachReject]
  | disconnected _ ht => simp [Router.parseDisconnect, ht]
  | lsaUpdate _ ht =>
    unfold Router.parseLsaUpdate
    simp only
    split <;> simp [ht]
  | ignored _ _ ha _ _ => simp [ha]

theorem Acted.acks_taken {c : Nat} (h : n.Acted (.deliver c) x r ev e n')
    {k : Connection} (hk : n.conns[c]? = some k) :
    e.reply.toList.countP (·.sospfType = .ATTACH_ACK) =
      ((n.taken k.client k.server (.deliver c)).any (n.makesLink k.server)).toNat := by
  have hrun : n.running x = true := by
    simpa [running, h.router] using Router.did_not_exited h.did
  have hr := h.router
  have hdid := h.did
  cases h.offers with
  | handle hk' hq hidle =>
    rw [hk] at hk'
    cases hk'
    rw [acks_handle hdid]
    rename_i msg rest
    by_cases ht : msg.sospfType = .ATTACH <;> by_cases hlt : r.ports.length < 4 <;>
      simp [taken, hk, between, hq, makesLink, serves, hrun, hidle, hr, ht, hlt]
  | respond hk' hq hwait =>
    rw [hk] at hk'
    cases hk'
    cases hdid
    simp [taken, hk, between, hq, makesLink, serves, hwait, Router.parseResponse]

/-- The acceptance of a request, at the router that asked. -/
theorem Wired.pendingTo_other (hw : Wired n) (h : n.Acted a x r ev e n') {p q : Int16} (hx : x ≠ p)
    {rp rq : Router} (hp : n.routers p = some rp) (hq : n.routers q = some rq) :
    pendingTo n'.conns q rq.ip rp.terminal =
      pendingTo n.conns q rq.ip rp.terminal +
        ((n.taken p q a).any fun km => n.makesLink q km && n.asksFor q km).toNat := by
  -- no request is accepted, unless the terminal waits on the connection
  have hnone : (∀ link, rp.terminal = .attachSent link → a ≠ .deliver link.client.conn) →
      ((n.taken p q a).any fun km => n.makesLink q km && n.asksFor q km) = false := by
    intro hno
    cases htaken : n.taken p q a with
    | none => rfl
    | some km =>
      rw [Option.any_some, Bool.and_eq_false_iff]
      left
      by_contra hm
      obtain ⟨link, hlink, ha, -⟩ := hw.makesLink_from hp htaken (by simpa using hm)
      exact hno link hlink ha
  cases ht : rp.terminal with
  | attachSent link =>
    obtain ⟨-, k, hk, hclient⟩ := hw.held p rp hp link (by simp [ht, Terminal.link, Terminal.pending])
    have hreads : readsFrom r link.client.conn ev = false := by
      by_contra hcon
      cases ev with
      | read response =>
        cases response with
        | none => simp [readsFrom] at hcon
        | some m =>
          simp only [readsFrom, Bool.not_eq_false, Option.any_eq_true, decide_eq_true_eq] at hcon
          obtain ⟨l, hl, hc⟩ := hcon
          have hmem : l ∈ r.terminal.link := by
            unfold Router.waitsOn at hl
            split at hl <;> cases hl <;> simp_all [Terminal.link, Terminal.pending]
          obtain ⟨-, k', hk', hclient'⟩ := hw.held x r h.router l (List.mem_append_right _ hmem)
          rw [hc, hk] at hk'
          cases hk'
          exact hx (hclient'.symm.trans hclient)
      | _ => simp [readsFrom] at hcon
    simp only [pendingTo, hk, h.conn_kept hk]
    by_cases hdel : a = .deliver link.client.conn
    · subst hdel
      have hack := h.acks_taken hk
      by_cases hs : k.server = q
      · subst hs hclient
        cases htaken : n.taken k.client k.server (.deliver link.client.conn) with
        | none =>
          rw [htaken] at hack
          simp [after, hreads, List.countP_append, hack]
        | some km =>
          rw [htaken] at hack
          simp only [Option.any_some] at hack ⊢
          cases hm : n.makesLink k.server km with
          | false =>
            rw [hm] at hack
            simp [after, hreads, List.countP_append, hack]
          | true =>
            rw [hm] at hack
            obtain ⟨link', hlink', -, hip⟩ := hw.makesLink_from hp htaken hm
            rw [ht] at hlink'
            cases hlink'
            by_cases hi : link.router2.simulatedIPAddress = rq.ip
            · have hasks : n.asksFor k.server km = true := by simp [asksFor, hq, ← hip, hi]
              simp [after, hreads, List.countP_append, hack, hasks, hi]
            · have hasks : n.asksFor k.server km = false := by simp [asksFor, hq, ← hip, hi]
              simp [hasks, hi]
      · have htaken : n.taken p q (.deliver link.client.conn) = none := by
          simp [taken, hk, between, hs]
        simp [after, hs, htaken]
    · rw [hnone fun link' hl' => by rw [ht] at hl'; cases hl'; exact hdel]
      simp [after, hreads, hdel]
  | _ =>
    rw [hnone fun link' hl' => by rw [ht] at hl'; cases hl']
    rfl

/-! ## The balance -/

/-- What the router at `p` has towards the one at `q`: links, links about to be
inserted, and DISCONNECT packets under way. -/
def towards (n : Network) (p q : Int16) (rp rq : Router) : Nat :=
  rp.linksTo rq.ip + pendingTo n.conns q rq.ip rp.terminal + n.onWay p q

/-- A step changes what one router has towards the other by the links that it
makes and removes at either end, but for the packets that miss. -/
theorem Wired.towards_acted (hw : Wired n) (hap : Apart n) (h : n.Acted a x r ev e n') {p q : Int16}
    (hpq : p ≠ q) {rp rq rp' rq' : Router} (hp : n.routers p = some rp) (hq : n.routers q = some rq)
    (hp' : n'.routers p = some rp') (hq' : n'.routers q = some rq') :
    n'.towards p q rp' rq' + (n.misses p q a).toNat +
        (((n.taken p q a).any (n.removesLink q)).toNat +
          ((n.taken q p a).any (n.removesLink p)).toNat) =
      n.towards p q rp rq + (((n.taken p q a).any (n.makesLink q)).toNat +
        ((n.taken q p a).any (n.makesLink p)).toNat) := by
  have hip : rq'.ip = rq.ip := by
    obtain ⟨rq1, hq1, hip⟩ := h.ip_kept hq
    rw [hq'] at hq1
    cases hq1
    exact hip
  have hway := hw.onWay_acted h p q
  have hout := n.outcome p q a
  unfold towards
  rw [hip]
  by_cases hx : x = p
  · -- the router itself acts
    subst hx
    rw [h.router] at hp
    cases hp
    rw [h.router_self] at hp'
    cases hp'
    have hlinks := Router.did_linksTo h.did
      (fun l hl => (hw.held x r h.router l (List.mem_append_left _ hl)).1)
      (fun l hl => hw.leads_iff hap h.router hq hl)
    obtain ⟨hrem, hacc⟩ := hw.taken_acted hap h hq
    have hpend := hw.pendingTo_self hap h hpq hq
    have hnone := h.taken_other (q := x) hpq
    rw [hnone] at hway hout ⊢
    simp only [Option.any_none, Bool.toNat_false] at hway hout ⊢
    omega
  · have hsame : rp' = rp := by
      rw [h.routers, Function.update_of_ne (Ne.symm hx), hp] at hp'
      exact (Option.some.inj hp').symm
    subst hsame
    have hpend := hw.pendingTo_other h hx hp hq
    have hdisc := hw.disconnects_other (q := q) h hx
    have hnone := h.taken_other (q := q) hx
    rw [hnone]
    simp only [Option.any_none, Bool.toNat_false]
    omega

theorem Lost.onWay {c : Nat} {k : Connection} (h : n.Lost c k n') (p q : Int16) :
    n'.onWay p q + ((n.taken p q (.deliver c)).any isDisconnect).toNat = n.onWay p q := by
  rw [← total_taken n p q (.deliver c)]
  congr 1
  apply total_congr
  intro i
  rw [h.conns i, Option.map_map]
  congr 1
  funext k
  by_cases hc : c = i <;> simp [hc, between]

theorem Lost.pendingTo {c : Nat} {k : Connection} (h : n.Lost c k n') (q : Int16) (i : String)
    (t : Terminal) : Network.pendingTo n'.conns q i t = Network.pendingTo n.conns q i t := by
  cases t with
  | attachSent link =>
    simp only [Network.pendingTo, h.conns]
    cases n.conns[link.client.conn]? with
    | none => rfl
    | some k0 => by_cases hc : c = link.client.conn <;> simp [hc]
  | _ => rfl

/-- A packet that is lost makes and removes no link. -/
theorem Lost.no_effect {c : Nat} {k : Connection} (h : n.Lost c k n') (p q : Int16) :
    (n.taken p q (.deliver c)).any (n.removesLink q) = false ∧
      (n.taken p q (.deliver c)).any (n.makesLink q) = false := by
  cases htaken : n.taken p q (.deliver c) with
  | none => exact ⟨rfl, rfl⟩
  | some km =>
    obtain ⟨c', rest, hc, hk, -, rfl, -⟩ := taken_deliver htaken
    cases hc
    rw [h.conn] at hk
    cases hk
    simp [removesLink, makesLink, serves, h.ended]

theorem Lost.towards {c : Nat} {k : Connection} (h : n.Lost c k n') {p q : Int16} (rp rq : Router) :
    n'.towards p q rp rq + (n.misses p q (.deliver c)).toNat =
      n.towards p q rp rq := by
  have hway := h.onWay p q
  have hout := n.outcome p q (.deliver c)
  obtain ⟨hrem, hmake⟩ := h.no_effect p q
  have hgood : ((n.taken p q (.deliver c)).any fun km => n.makesLink q km && n.asksFor q km) = false := by
    cases htaken : n.taken p q (.deliver c) with
    | none => rfl
    | some km =>
      rw [htaken, Option.any_some] at hmake
      simp [hmake]
  rw [hrem, hmake, hgood] at hout
  unfold Network.towards
  rw [h.pendingTo]
  simp only [Bool.toNat_false] at hout
  omega

end acted

/-! ## Links at rest -/

/-- A command is under way. -/
def busy : Terminal → Bool
  | .ready => false
  | .ended => false
  | .exited => false
  | _ => true

/-- No command is under way, and no packet. -/
def AtRest (n : Network) : Prop :=
  n.quiet = true ∧ ∀ p r, n.routers p = some r → busy r.terminal = false

/-- The two sides are even, when the packets that missed are counted in. -/
def Balanced (n : Network) (missed : Int16 → Int16 → Nat) : Prop :=
  ∀ p q rp rq, p ≠ q → n.routers p = some rp → n.routers q = some rq →
    n.towards p q rp rq + missed p q = n.towards q p rq rp + missed q p

theorem balanced_init (conf : Int16 → Option Configuration) (acts : List Action) (h : acts = []) :
    Balanced (init conf) fun p q => missed p q (init conf) acts := by
  subst h
  intro p q rp rq _ hp hq
  obtain ⟨c, -, rfl⟩ := Option.map_eq_some_iff.mp hp
  obtain ⟨d, -, rfl⟩ := Option.map_eq_some_iff.mp hq
  rfl

theorem balanced_step {n n' : Network} {a : Action} {f : Int16 → Int16 → Nat} (hw : Wired n)
    (hap : Apart n) (hb : Balanced n f) (hs : n.step a = some n') :
    Balanced n' fun p q => f p q + (n.misses p q a).toNat := by
  intro p q rp' rq' hpq hp' hq'
  obtain ⟨rp, hp, -⟩ := router_before hs hp'
  obtain ⟨rq, hq, -⟩ := router_before hs hq'
  have hbal := hb p q rp rq hpq hp hq
  rcases step_acted hs with ⟨x, r, ev, e, hact⟩ | ⟨c, k, rfl, hlost⟩
  · have h1 := hw.towards_acted hap hact hpq hp hq hp' hq'
    have h2 := hw.towards_acted hap hact (Ne.symm hpq) hq hp hq' hp'
    simp only
    omega
  · rw [hlost.routers] at hp' hq'
    rw [hp] at hp'
    rw [hq] at hq'
    cases hp'
    cases hq'
    have h1 := hlost.towards (p := p) (q := q) rp' rq'
    have h2 := hlost.towards (p := q) (q := p) rq' rp'
    simp only
    omega

theorem balanced_run {conf : Int16 → Option Configuration} (hconf : DistinctIPs conf)
    {ok : Network → Action → Prop} {acts : List Action} {n : Network}
    (h : Run step ok (init conf) acts n) :
    Wired n ∧ Apart n ∧ Balanced n fun p q => missed p q (init conf) acts := by
  apply h.invariant_along (P := fun acts n =>
    Wired n ∧ Apart n ∧ Balanced n fun p q => missed p q (init conf) acts)
  · exact ⟨wired_init conf, apart_init hconf, balanced_init conf [] rfl⟩
  · intro acts n a n' hrun ⟨hw, hap, hb⟩ _ hs
    refine ⟨hw.step hs, hap.step hs, ?_⟩
    intro p q rp rq hpq hp hq
    simp only [missed, tally_snoc hrun hs]
    exact balanced_step hw hap hb hs p q rp rq hpq hp hq

theorem AtRest.towards {n : Network} (h : AtRest n) {p q : Int16} {rp rq : Router}
    (hp : n.routers p = some rp) : n.towards p q rp rq = rp.linksTo rq.ip := by
  have hway : n.onWay p q = 0 := by
    rw [← total_zero (M := Nat) n.conns]
    apply total_congr
    intro c
    cases hk : n.conns[c]? with
    | none => rfl
    | some k =>
      simp [(quiet_conn h.1 hk).1]
  have hpend : pendingTo n.conns q rq.ip rp.terminal = 0 := by
    have hidle := h.2 p rp hp
    apply pendingTo_eq_zero
    cases ht : rp.terminal <;> first | rfl | (rw [ht] at hidle; cases hidle)
  simp [Network.towards, hway, hpend]

/-- At rest, two routers have as many links to each other exactly when as many
packets have missed their mark from one to the other as the other way. So they
have in every run in which no packet misses. -/
theorem links_are_symmetric_iff_as_many_packets_missed (conf : Int16 → Option Configuration)
    (hconf : DistinctIPs conf) (acts : List Action) (n : Network)
    (h : Run step anyStep (init conf) acts n) (hrest : n.AtRest) (p q : Int16) (rp rq : Router)
    (hp : n.routers p = some rp) (hq : n.routers q = some rq) :
    (rp.linksTo rq.ip = rq.linksTo rp.ip ↔
      missed p q (init conf) acts = missed q p (init conf) acts) ∧
    (Run step (fun n a => ∀ p q, n.misses p q a = false) (init conf) acts n →
      rp.linksTo rq.ip = rq.linksTo rp.ip) := by
  have hiff : rp.linksTo rq.ip = rq.linksTo rp.ip ↔
      missed p q (init conf) acts = missed q p (init conf) acts := by
    by_cases hpq : p = q
    · subst hpq
      rw [hp] at hq
      cases hq
      simp
    · have hbal := (balanced_run hconf h).2.2 p q rp rq hpq hp hq
      rw [hrest.towards hp, hrest.towards hq] at hbal
      simp only at hbal
      omega
  refine ⟨hiff, fun hrun => hiff.mpr ?_⟩
  have hzero : ∀ p q, missed p q (init conf) acts = 0 := by
    intro p q
    apply tally_eq_zero hrun
    intro s a s' hok
    simp [hok p q]
  rw [hzero, hzero]

/-! ## A DISCONNECT that comes too early -/

/-- The commands that make and end links. -/
def linkCommands (_ : Network) : Action → Prop
  | .command _ (.attach _ _ _) => True
  | .command _ (.disconnect _) => True
  | .command _ .quit => True
  | .command _ _ => False
  | _ => True

instance (n : Network) : (a : Action) → Decidable (n.linkCommands a)
  | .command _ (.attach _ _ _) => isTrue trivial
  | .command _ (.disconnect _) => isTrue trivial
  | .command _ .quit => isTrue trivial
  | .command _ (.detect _) => isFalse id
  | .command _ .start => isFalse id
  | .command _ .neighbors => isFalse id
  | .command _ .printLSD => isFalse id
  | .command _ .invalid => isFalse id
  | .advance _ => isTrue trivial
  | .read _ => isTrue trivial
  | .deliver _ => isTrue trivial

/-- The links between the routers at ports 3000 and 4000, when the network of
`threeRouters` is at rest. -/
def restingLinks (n : Network) : Option (Nat × Nat) := do
  let r1 ← n.routers 3000
  let r2 ← n.routers 4000
  let r3 ← n.routers 5000
  if n.quiet && !busy r1.terminal && !busy r2.terminal && !busy r3.terminal then
    some (r1.linksTo r2.ip, r2.linksTo r1.ip)
  else none

theorem restingLinks_spec {ok : Network → Action → Prop} {acts : List Action} {n : Network}
    (h : Run step ok (init threeRouters) acts n) {links : Nat × Nat}
    (hl : n.restingLinks = some links) :
    n.AtRest ∧ ∃ r1 r2, n.routers 3000 = some r1 ∧ n.routers 4000 = some r2 ∧
      r1.linksTo r2.ip = links.1 ∧ r2.linksTo r1.ip = links.2 := by
  simp only [restingLinks, Option.bind_eq_bind, Option.bind_eq_some_iff] at hl
  obtain ⟨r1, h1, r2, h2, r3, h3, hl⟩ := hl
  split at hl
  · rename_i hrest
    simp only [Bool.and_eq_true, Bool.not_eq_true'] at hrest
    obtain ⟨⟨⟨hquiet, hb1⟩, hb2⟩, hb3⟩ := hrest
    cases hl
    refine ⟨⟨hquiet, fun p r hr => ?_⟩, r1, r2, h1, h2, rfl, rfl⟩
    obtain ⟨c, hc⟩ := router_run h p r hr
    have hport : p = 3000 ∨ p = 4000 ∨ p = 5000 := by
      unfold threeRouters at hc
      split_ifs at hc with hp1 hp2 hp3
      · exact Or.inl hp1
      · exact Or.inr (Or.inl hp2)
      · exact Or.inr (Or.inr hp3)
    rcases hport with rfl | rfl | rfl
    · rw [h1] at hr
      cases hr
      exact hb1
    · rw [h2] at hr
      cases hr
      exact hb2
    · rw [h3] at hr
      cases hr
      exact hb3
  · cases hl

/-- The router that was attached disconnects before the answer to the request
is read. Its DISCONNECT finds no link yet, and the link is inserted after it. -/
def earlyDisconnect : List Action :=
  [.command 3000 (.attach "127.0.0.1" 4000 "192.168.1.100"), .advance 3000, .deliver 0,
   .command 4000 (.disconnect 0), .deliver 1, .read 3000, .advance 3000]

theorem one_end_keeps_its_link_when_the_other_disconnects_early :
    ¬ ∀ (conf : Int16 → Option Configuration) (acts : List Action) (n : Network),
      DistinctIPs conf → Run step linkCommands (init conf) acts n → n.AtRest →
      ∀ (p q : Int16) (rp rq : Router), n.routers p = some rp → n.routers q = some rq →
        rp.linksTo rq.ip = rq.linksTo rp.ip := by
  intro h
  have hend : (exec step linkCommands (init threeRouters) earlyDisconnect).bind restingLinks =
      some (1, 0) := by decide
  obtain ⟨n, hn, hlinks⟩ := Option.bind_eq_some_iff.mp hend
  have hrun := run_of_exec hn
  obtain ⟨hrest, r1, r2, h1, h2, hl1, hl2⟩ := restingLinks_spec hrun hlinks
  have heq := h threeRouters _ n distinctIPs_threeRouters hrun hrest 3000 4000 r1 r2 h1 h2
  rw [hl1, hl2] at heq
  cases heq

theorem links_are_symmetric_after_one_attach :
    ∃ n r1 r2, Run step anyStep (init threeRouters) attachAct n ∧ n.AtRest ∧
      n.routers 3000 = some r1 ∧ n.routers 4000 = some r2 ∧ r1.linksTo r2.ip = 1 ∧
      r1.linksTo r2.ip = r2.linksTo r1.ip := by
  have hend : (exec step anyStep (init threeRouters) attachAct).bind restingLinks =
      some (1, 1) := by decide
  have hmissed : missed 3000 4000 (init threeRouters) attachAct =
      missed 4000 3000 (init threeRouters) attachAct := by decide
  obtain ⟨n, hn, hlinks⟩ := Option.bind_eq_some_iff.mp hend
  have hrun := run_of_exec hn
  obtain ⟨hrest, r1, r2, h1, h2, hl1, -⟩ := restingLinks_spec hrun hlinks
  refine ⟨n, r1, r2, hrun, hrest, h1, h2, hl1, ?_⟩
  exact (links_are_symmetric_iff_as_many_packets_missed threeRouters distinctIPs_threeRouters _ n hrun
    hrest 3000 4000 r1 r2 h1 h2).1.mpr hmissed

end Network
end socs.network
