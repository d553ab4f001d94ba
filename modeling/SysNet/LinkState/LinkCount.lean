-- What an event does to the links of a router to an address, and which packets
-- between two routers make and remove links.
import SysNet.LinkState.Wiring

open runs cells

namespace socs.network

/-! ## The links of one router -/

namespace Router

/-- The number of links to an address. -/
def linksTo (r : Router) (i : String) : Nat :=
  r.ports.countP fun l => l.router2.simulatedIPAddress = i

/-- The DISCONNECT packets on the connections that `f` picks. -/
def disconnects (f : Nat → Bool) (sends : List (Nat × SOSPFPacket)) : Nat :=
  sends.countP fun send => send.2.sospfType = .DISCONNECT && f send.1

/-- The links to the address that `attach` inserts. -/
def enters (r : Router) (i : String) : Event → Nat
  | .advance _ => r.terminal.accepted.countP fun l => l.router2.simulatedIPAddress = i
  | _ => 0

/-- The links to the address that an accepted request makes. -/
def accepts (r : Router) (i : String) : Event → Nat
  | .handle _ msg =>
    if msg.sospfType = .ATTACH ∧ r.ports.length < 4 ∧ msg.routerID = i then 1 else 0
  | _ => 0

/-- The links to the address that a DISCONNECT removes. -/
def removes (r : Router) (i : String) : Event → Nat
  | .handle _ msg =>
    if msg.sospfType = .DISCONNECT ∧
      r.ports.any (·.router2.simulatedIPAddress = msg.routerID) ∧ msg.routerID = i then 1 else 0
  | _ => 0

theorem disconnects_eq_zero {f : Nat → Bool} {sends : List (Nat × SOSPFPacket)}
    (h : ∀ i m, (i, m) ∈ sends → m.sospfType ≠ .DISCONNECT ∨ f i = false) :
    disconnects f sends = 0 := by
  unfold disconnects
  rw [List.countP_eq_zero]
  rintro ⟨i, m⟩ hm
  rcases h i m hm with h1 | h1 <;> simp [h1]

theorem linksTo_setStatus (r : Router) (c : Nat) (s : RouterStatus) (i : String) :
    (r.setStatus c s).linksTo i = r.linksTo i := by
  unfold linksTo setStatus
  rw [List.countP_map]
  congr 1
  funext l
  simp only [Function.comp_apply]
  split <;> rfl

theorem countP_eraseIdx {α : Type} (P : α → Bool) {l : List α} {j : Nat} {x : α}
    (h : l[j]? = some x) : (l.eraseIdx j).countP P + (if P x then 1 else 0) = l.countP P := by
  obtain ⟨hj, rfl⟩ := List.getElem?_eq_some_iff.mp h
  have hperm := (List.getElem_cons_eraseIdx_perm hj).countP_eq P
  rw [List.countP_cons] at hperm
  exact hperm

theorem linksTo_removeRemote (r : Router) (routerID i : String) :
    (r.removeRemote routerID).linksTo i +
      (if r.ports.any (·.router2.simulatedIPAddress = routerID) ∧ routerID = i then 1 else 0) =
        r.linksTo i := by
  unfold linksTo removeRemote
  rcases List.exists_or_eq_self_of_eraseP (fun l : Link => l.router2.simulatedIPAddress = routerID)
    r.ports with hself | ⟨l, l1, l2, -, hl, hports, herase⟩
  · have hnone : ¬ r.ports.any (·.router2.simulatedIPAddress = routerID) = true := by
      intro hany
      obtain ⟨l, hl, hid⟩ := List.any_eq_true.mp hany
      have hlen := List.length_eraseP_of_mem (p := fun l : Link => l.router2.simulatedIPAddress = routerID)
        hl hid
      rw [hself] at hlen
      have := List.length_pos_of_mem hl
      omega
    simp only [hself]
    simp [hnone]
  · have hid : l.router2.simulatedIPAddress = routerID := by simpa using hl
    simp only [herase]
    rw [hports, List.countP_append, List.countP_append, List.countP_cons]
    by_cases hi : routerID = i
    · simp [hid, hi, Nat.add_assoc]
    · simp [hid, hi]

/-- The links to an address before and after an event. `f` picks the
connections of the ports with this address. -/
theorem did_linksTo {r : Router} {ev : Event} {e : Effect} (h : Did r ev e)
    (hconn : ∀ l ∈ r.ports, l.client.connected = true) {i : String} {f : Nat → Bool}
    (hf : ∀ l ∈ r.ports, f l.client.conn = decide (l.router2.simulatedIPAddress = i)) :
    e.router.linksTo i + disconnects f e.sends + r.removes i ev =
      r.linksTo i + r.enters i ev + r.accepts i ev := by
  have hupdates : ∀ r1 : Router, disconnects f (sent r1.broadcastLSA) = 0 := by
    intro r1
    apply disconnects_eq_zero
    intro j m hm
    obtain ⟨l, -, -, -, rfl⟩ := mem_broadcastLSA hm
    exact Or.inl fun hx => by cases hx
  cases h with
  | typed => rfl
  | attach => rfl
  | @disconnect n link r1 out _ hp _ hr1 hout =>
    subst hr1 hout
    unfold port at hp
    split at hp
    · cases hp
    · have herase := countP_eraseIdx (fun l : Link => l.router2.simulatedIPAddress = i) hp
      have hlink := hf link (List.mem_of_getElem? hp)
      have hsends := hupdates (r.withoutPort n).updateLSD
      unfold disconnects at hsends
      simp only [disconnects, List.countP_cons, hsends, hlink]
      simpa [linksTo, withoutPort, updateLSD, finish, removes, enters, accepts, disconnect] using herase
  | quit _ hout hall =>
    subst hout
    rw [sent_of_allSent hall]
    have hsends : disconnects f ((r.ports.map fun link => (link.client, r.disconnect link)).map
        fun cm => (cm.1.conn, cm.2)) = r.linksTo i := by
      unfold disconnects linksTo
      rw [List.countP_map, List.countP_map]
      apply List.countP_congr
      intro l hl
      simp [disconnect, hf l hl]
    rw [hsends]
    simp [linksTo, removes, enters, accepts]
  | quitFails _ hout hall =>
    subst hout
    have : allSent (r.ports.map fun link => (link.client, r.disconnect link)) = true := by
      simpa [allSent] using hconn
    rw [this] at hall
    cases hall
  | @attachSend connect a s p ht =>
    have hnil : r.terminal.accepted = [] := by rw [ht]; rfl
    have hsends : disconnects f (r.attachSend (connect p) a p s).sends = 0 := by
      apply disconnects_eq_zero
      intro j m hm
      unfold attachSend at hm
      split at hm
      · cases List.mem_singleton.mp hm
        exact Or.inl fun hx => by cases hx
      · cases hm
    rw [hsends]
    simp [removes, enters, accepts, hnil, attachSend, linksTo]
  | attachInsert ht =>
    simp [linksTo, attachInsert, addPort, disconnects, removes, enters, accepts, ht, Terminal.accepted]
  | startSkip ht => simp [linksTo, disconnects, removes, enters, accepts, ht, Terminal.accepted]
  | startHello ht =>
    simp [linksTo, disconnects, removes, enters, accepts, ht, Terminal.accepted, hello]
  | startEnd ht =>
    simp only [startEnd, hupdates]
    simp [linksTo, updateLSD, finish, removes, enters, accepts, ht, Terminal.accepted]
  | attachReply => simp [linksTo, attachReply, disconnects, removes, enters, accepts]
  | @helloReply _ _ l response _ =>
    cases response with
    | none => simp [linksTo, helloReply, disconnects, removes, enters, accepts]
    | some msg =>
      have hset := r.linksTo_setStatus l.client.conn .TWO_WAY i
      by_cases hm : msg.sospfType = .HELLO_ACK
      · simpa [linksTo, helloReply, disconnects, removes, enters, accepts, hm, helloTwoWay] using hset
      · simp [linksTo, helloReply, disconnects, removes, enters, accepts, hm, helloTwoWay]
  | @hello connect msg _ ht =>
    unfold parseHello
    split
    · simp [disconnects, removes, enters, accepts, ht]
    · simp [disconnects, removes, enters, accepts, ht, linksTo_setStatus]
  | @respond c msg _ =>
    have hset := r.linksTo_setStatus c .TWO_WAY i
    by_cases hm : msg.sospfType = .HELLO_TWO_WAY
    · simpa [linksTo, parseResponse, disconnects, removes, enters, accepts, hm] using hset
    · simp [linksTo, parseResponse, disconnects, removes, enters, accepts, hm]
  | @attached connect msg _ ht =>
    unfold parseAttach
    split
    · rename_i hlt
      simp [linksTo, addPort, disconnects, removes, enters, accepts, ht, hlt, List.countP_singleton]
    · rename_i hlt
      simp [disconnects, removes, enters, accepts, ht, hlt]
  | @disconnected connect msg _ ht =>
    have hremove := r.linksTo_removeRemote msg.routerID i
    have hsends := hupdates { (r.removeRemote msg.routerID).updateLSD with
      lsd := (r.removeRemote msg.routerID).updateLSD.lsd.remove msg.routerID }
    simp only [parseDisconnect, hsends, removes, enters, accepts, ht, true_and]
    simpa [linksTo, updateLSD] using hremove
  | @lsaUpdate connect msg _ ht =>
    have hsends : disconnects f (r.parseLsaUpdate msg).sends = 0 := by
      apply disconnects_eq_zero
      intro j m hm
      obtain ⟨_, -, -, -, htype⟩ := sends_parseLsaUpdate hm
      exact Or.inl (by rw [htype, ht]; intro hx; cases hx)
    have hports := (r.parseLsaUpdate_ports msg).1
    simp [linksTo, hsends, hports, removes, enters, accepts, ht]
  | ignored _ _ ha hd _ => simp [disconnects, removes, enters, accepts, ha, hd]

end Router

/-! ## The packets between two routers -/

namespace Network

def between (p q : Int16) (k : Connection) : Bool := k.client = p && k.server = q

/-- The packet that a delivery takes from a connection from `p` to `q`. -/
def taken (n : Network) (p q : Int16) : Action → Option (Connection × SOSPFPacket)
  | .deliver c => n.conns[c]?.bind fun k =>
      if between p q k then k.toServer.head?.map fun m => (k, m) else none
  | _ => none

/-- The handler of the connection is ready to take a packet for the router at `q`. -/
def serves (n : Network) (q : Int16) (k : Connection) : Bool :=
  n.running q && decide (k.handler = .idle)

/-- The packet is a DISCONNECT. -/
def isDisconnect (km : Connection × SOSPFPacket) : Bool := km.2.sospfType = .DISCONNECT

/-- The packet is a DISCONNECT, and the router at `q` has a link to its sender. -/
def removesLink (n : Network) (q : Int16) (km : Connection × SOSPFPacket) : Bool :=
  isDisconnect km && n.serves q km.1 &&
    (n.routers q).any fun r => r.ports.any (·.router2.simulatedIPAddress = km.2.routerID)

/-- The packet is a request, and the router at `q` accepts it. -/
def makesLink (n : Network) (q : Int16) (km : Connection × SOSPFPacket) : Bool :=
  km.2.sospfType = .ATTACH && n.serves q km.1 && (n.routers q).any fun r => r.ports.length < 4

/-- The request asks for the address that the router at `q` has. -/
def asksFor (n : Network) (q : Int16) (km : Connection × SOSPFPacket) : Bool :=
  (n.routers q).any fun r => km.2.neighborID = r.ip

/-- A packet from `p` to `q` misses its mark: a DISCONNECT that removes no link,
or a request that is accepted although it asks for another address. -/
def misses (n : Network) (p q : Int16) (a : Action) : Bool :=
  (n.taken p q a).any fun km =>
    isDisconnect km && !n.removesLink q km || n.makesLink q km && !n.asksFor q km

/-- How many packets from `p` to `q` miss their mark. -/
def missed (p q : Int16) (n : Network) (acts : List Action) : Nat :=
  tally step (fun n a _ => (n.misses p q a).toNat) n acts

/-- The DISCONNECT packets under way from `p` to `q`. -/
def onWay (n : Network) (p q : Int16) : Nat :=
  total (fun _ k => if between p q k then k.toServer.countP (·.sospfType = .DISCONNECT) else 0)
    n.conns

/-- The links to `q`, with address `i`, that a terminal is about to insert. -/
def pendingTo (conns : List Connection) (q : Int16) (i : String) : Terminal → Nat
  | .attachAccepted link => if link.router2.simulatedIPAddress = i then 1 else 0
  | .attachSent link =>
    match conns[link.client.conn]? with
    | some k =>
      if k.server = q ∧ link.router2.simulatedIPAddress = i then
        k.toClient.countP (·.sospfType = .ATTACH_ACK)
      else 0
    | none => 0
  | _ => 0

/-- Each packet that is taken does one of four things. -/
theorem outcome (n : Network) (p q : Int16) (a : Action) :
    (n.misses p q a).toNat + ((n.taken p q a).any (n.removesLink q)).toNat +
        ((n.taken p q a).any fun km => n.makesLink q km && n.asksFor q km).toNat =
      ((n.taken p q a).any isDisconnect).toNat + ((n.taken p q a).any (n.makesLink q)).toNat := by
  unfold misses
  cases n.taken p q a with
  | none => rfl
  | some km =>
    have hd : n.removesLink q km = true → isDisconnect km = true := by
      intro h
      simp only [removesLink, Bool.and_eq_true] at h
      exact h.1.1
    have hm : n.makesLink q km = true → isDisconnect km = false := by
      intro h
      simp only [makesLink, Bool.and_eq_true, decide_eq_true_eq] at h
      simp [isDisconnect, h.1.1]
    simp only [Option.any_some]
    cases h1 : isDisconnect km <;> cases h2 : n.removesLink q km <;> cases h3 : n.makesLink q km <;>
      cases h4 : n.asksFor q km <;> simp_all

/-! ## DISCONNECT packets under way -/

theorem total_sendsTo (b : Connection → Bool) (P : SOSPFPacket → Bool) (conns : List Connection)
    (sends : List (Nat × SOSPFPacket)) :
    total (fun c k => if b k then (sendsTo c sends).countP P else 0) conns =
      sends.countP fun send => P send.2 && conns[send.1]?.any b := by
  induction sends with
  | nil => simp [sendsTo, total_zero]
  | cons send sends ih =>
    have hcons : ∀ c (k : Connection), (if b k then (sendsTo c (send :: sends)).countP P else 0) =
        (if send.1 = c then (if b k && P send.2 then 1 else 0) else 0) +
          if b k then (sendsTo c sends).countP P else 0 := by
      intro c k
      unfold sendsTo
      rw [List.filter_cons]
      by_cases hc : send.1 = c <;> cases hb : b k <;> cases hP : P send.2 <;>
        simp [hc, hP, Nat.add_comm]
    simp only [hcons, total_add, ih, List.countP_cons]
    rw [total_single (fun k => if b k && P send.2 then 1 else 0) send.1 conns, Nat.add_comm]
    congr 1
    cases conns[send.1]? with
    | none => simp
    | some k => cases b k <;> cases P send.2 <;> simp

theorem total_taken (n : Network) (p q : Int16) (a : Action) :
    total (fun c k => if between p q k then
        (if a = .deliver c then k.toServer.tail else k.toServer).countP (·.sospfType = .DISCONNECT)
      else 0) n.conns + ((n.taken p q a).any isDisconnect).toNat = n.onWay p q := by
  unfold onWay
  cases a with
  | deliver c0 =>
    have hsplit : (fun (_ : Nat) (k : Connection) =>
        if between p q k then k.toServer.countP (·.sospfType = .DISCONNECT) else 0) =
        fun c k => (if between p q k then (if Action.deliver c0 = .deliver c then k.toServer.tail
          else k.toServer).countP (·.sospfType = .DISCONNECT) else 0) +
        if c0 = c then
          (if between p q k && k.toServer.head?.any (·.sospfType = .DISCONNECT) then 1 else 0)
        else 0 := by
      funext c k
      by_cases hc : c0 = c <;> cases hb : between p q k <;> cases hq : k.toServer <;>
        simp [hc, List.countP_cons]
    rw [hsplit, total_add, total_single (fun k =>
      if between p q k && k.toServer.head?.any (·.sospfType = .DISCONNECT) then 1 else 0) c0 n.conns]
    congr 1
    simp only [taken]
    cases n.conns[c0]? with
    | none => rfl
    | some k =>
      cases hb : between p q k <;> cases hq : k.toServer.head? with
      | none => simp [hb, hq]
      | some m => cases hm : decide (m.sospfType = .DISCONNECT) <;> simp [hb, hq, hm, isDisconnect]
  | command => simp [taken]
  | advance => simp [taken]
  | read => simp [taken]

section acted

variable {n n' : Network} {a : Action} {x : Int16} {r : Router} {ev : Router.Event} {e : Effect}

/-- The connection leads from `p` to `q`. -/
def leads (n : Network) (p q : Int16) (c : Nat) : Bool := n.conns[c]?.any (between p q)

/-- A DISCONNECT is sent on a connection that was there before. -/
theorem Wired.disconnect_lt (hw : Wired n) (h : n.Acted a x r ev e n') {c : Nat} {m : SOSPFPacket}
    (hm : (c, m) ∈ e.sends) (ht : m.sospfType = .DISCONNECT) :
    ∃ k, n.conns[c]? = some k ∧ k.client = x := by
  have hold : (∃ l ∈ r.ports ++ r.terminal.link, l.client.conn = c) →
      ∃ k, n.conns[c]? = some k ∧ k.client = x := by
    rintro ⟨l, hl, rfl⟩
    exact (hw.held x r h.router l hl).2
  obtain ⟨-, ⟨-, ⟨l, hl, hc⟩ | ⟨j, y, l, ht', hc⟩⟩ | ⟨_, _, _, _, -, -, -, hreq, -⟩⟩ :=
    Router.did_sends h.did hm
  · exact hold ⟨l, List.mem_append_left _ hl, hc⟩
  · exact hold ⟨l, by simp [ht', Terminal.link], hc⟩
  · rw [hreq] at ht
    cases ht

theorem Wired.onWay_acted (hw : Wired n) (h : n.Acted a x r ev e n') (p q : Int16) :
    n'.onWay p q + ((n.taken p q a).any isDisconnect).toNat =
      n.onWay p q + Router.disconnects (n.leads p q) e.sends := by
  have hpoint : n'.onWay p q = total (fun c k => if between p q (after a r ev e c k) then
      (after a r ev e c k).toServer.countP (·.sospfType = .DISCONNECT) else 0) (n.opened x e) := by
    apply total_congr
    intro c
    rw [h.conns c, Option.map_map]
    rfl
  have hnew : ∀ k : Connection, k.toServer = [] → (if between p q (after a r ev e n.conns.length k) then
      (after a r ev e n.conns.length k).toServer.countP (·.sospfType = .DISCONNECT) else 0) = 0 := by
    intro k hk
    have hnone : (sendsTo n.conns.length e.sends).countP (·.sospfType = .DISCONNECT) = 0 := by
      rw [List.countP_eq_zero]
      intro m hm ht
      obtain ⟨k0, hk0, -⟩ := hw.disconnect_lt h (mem_sendsTo.mp hm) (by simpa using ht)
      simp at hk0
    simp [after, hk, hnone]
  have hopened : total (fun c k => if between p q (after a r ev e c k) then
      (after a r ev e c k).toServer.countP (·.sospfType = .DISCONNECT) else 0) (n.opened x e) =
      total (fun c k => if between p q (after a r ev e c k) then
        (after a r ev e c k).toServer.countP (·.sospfType = .DISCONNECT) else 0) n.conns := by
    unfold opened
    split
    · rw [total_snoc, hnew _ rfl, Nat.add_zero]
    · rfl
  have hsplit : ∀ c (k : Connection), (if between p q (after a r ev e c k) then
      (after a r ev e c k).toServer.countP (·.sospfType = .DISCONNECT) else 0) =
      (if between p q k then (if a = .deliver c then k.toServer.tail
        else k.toServer).countP (·.sospfType = .DISCONNECT) else 0) +
      if between p q k then (sendsTo c e.sends).countP (·.sospfType = .DISCONNECT) else 0 := by
    intro c k
    have hb : between p q (after a r ev e c k) = between p q k := rfl
    rw [hb]
    cases between p q k
    · rfl
    · simp only [if_true, after, List.countP_append]
  rw [hpoint, hopened]
  simp only [hsplit, total_add]
  rw [total_sendsTo, ← total_taken n p q a]
  unfold Router.disconnects leads
  omega

/-! ## The links of the acting router -/

theorem Wired.leads_iff (hw : Wired n) (hap : Apart n) {p q : Int16} {rp rq : Router}
    (hp : n.routers p = some rp) (hq : n.routers q = some rq) {l : Link} (hl : l ∈ rp.ports) :
    n.leads p q l.client.conn = decide (l.router2.simulatedIPAddress = rq.ip) := by
  obtain ⟨-, k, hk, hclient⟩ := hw.held p rp hp l (List.mem_append_left _ hl)
  obtain ⟨k', r', hk', hr', hip⟩ := hw.ends p rp hp l (List.mem_append_left _ hl)
  rw [hk] at hk'
  cases hk'
  have hiff : k.server = q ↔ l.router2.simulatedIPAddress = rq.ip := by
    constructor
    · rintro rfl
      rw [hr'] at hq
      cases hq
      exact hip.symm
    · intro hl
      exact hap _ _ r' rq hr' hq (hip.trans hl)
  simp [leads, between, hk, hclient, hiff]

/-- What the acting router takes from a connection from `q`, seen at the router. -/
theorem Wired.taken_acted (hw : Wired n) (hap : Apart n) (h : n.Acted a x r ev e n') {q : Int16}
    {rq : Router} (hq : n.routers q = some rq) :
    r.removes rq.ip ev = ((n.taken q x a).any (n.removesLink x)).toNat ∧
      r.accepts rq.ip ev = ((n.taken q x a).any (n.makesLink x)).toNat := by
  have hrun : n.running x = true := by
    simpa [running, h.router] using Router.did_not_exited h.did
  have hr := h.router
  cases h.offers with
  | command => exact ⟨rfl, rfl⟩
  | advance => exact ⟨rfl, rfl⟩
  | read => exact ⟨rfl, rfl⟩
  | eof => exact ⟨rfl, rfl⟩
  | @handle c _ k msg rest hk hqu hidle =>
    obtain ⟨rc, hrc, hid, -⟩ := hw.sent c k hk msg (by simp [hqu])
    have hiff : msg.routerID = rq.ip ↔ k.client = q := by
      constructor
      · intro hip
        exact hap _ _ rc rq hrc hq (hid.symm.trans hip)
      · rintro rfl
        rw [hrc] at hq
        cases hq
        exact hid
    by_cases hc : k.client = q
    · have htaken : n.taken q k.server (.deliver c) = some (k, msg) := by
        simp [taken, hk, between, hc, hqu]
      rw [htaken]
      constructor
      · simp only [Router.removes, hiff.mpr hc, Option.any_some, removesLink, isDisconnect, serves,
          hrun, hidle, hr]
        by_cases hd : msg.sospfType = .DISCONNECT <;>
          cases hany : r.ports.any (·.router2.simulatedIPAddress = rq.ip) <;> simp [hd]
      · simp only [Router.accepts, hiff.mpr hc, Option.any_some, makesLink, serves, hrun, hidle, hr]
        by_cases ht : msg.sospfType = .ATTACH <;> by_cases hlt : r.ports.length < 4 <;>
          simp [ht, hlt]
    · have htaken : n.taken q k.server (.deliver c) = none := by
        simp [taken, hk, between, hc]
      rw [htaken]
      have hne : msg.routerID ≠ rq.ip := fun hip => hc (hiff.mp hip)
      exact ⟨by simp [Router.removes, hne], by simp [Router.accepts, hne]⟩
  | @respond c i _ k msg rest hk hqu hwait =>
    have hnot : n.serves k.server k = false := by simp [serves, hwait]
    have htaken : n.taken q k.server (.deliver c) = none ∨
        n.taken q k.server (.deliver c) = some (k, msg) := by
      by_cases hc : k.client = q
      · exact Or.inr (by simp [taken, hk, between, hc, hqu])
      · exact Or.inl (by simp [taken, hk, between, hc])
    rcases htaken with ht | ht <;> rw [ht] <;>
      exact ⟨by simp [Router.removes, removesLink, hnot], by simp [Router.accepts, makesLink, hnot]⟩

/-- A packet for the router at `p` is taken by this router alone. -/
theorem Acted.taken_other (h : n.Acted a x r ev e n') {p q : Int16} (hp : x ≠ p) :
    n.taken q p a = none := by
  cases a with
  | deliver c =>
    cases hk : n.conns[c]? with
    | none => simp [taken, hk]
    | some k =>
      have hx := (h.offers.deliver hk).1
      have hne : k.server ≠ p := fun hs => hp (hx.trans hs)
      simp [taken, hk, between, hne]
  | command => rfl
  | advance => rfl
  | read => rfl

theorem Wired.disconnects_other (hw : Wired n) (h : n.Acted a x r ev e n') {p q : Int16}
    (hp : x ≠ p) : Router.disconnects (n.leads p q) e.sends = 0 := by
  apply Router.disconnects_eq_zero
  intro c m hm
  by_cases ht : m.sospfType = .DISCONNECT
  · right
    obtain ⟨k, hk, hclient⟩ := hw.disconnect_lt h hm ht
    have hne : k.client ≠ p := fun hc => hp (hclient.symm.trans hc)
    simp [leads, between, hk, hne]
  · exact Or.inl ht

end acted

end Network
end socs.network
