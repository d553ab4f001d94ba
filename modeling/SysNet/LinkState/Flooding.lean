-- Flooding. An update that is handled is passed on, whatever the router knew
-- before, so it can come back. The updates in flight die out exactly when none
-- of them can come to a cycle.
import SysNet.Lib.Tokens
import SysNet.LinkState.Network

open runs tokens cells

namespace socs.network

namespace Network

/-! ## The updates in flight -/

/-- The step hands an update to an idle handler, or loses it when the process
at the end of its connection has ended. -/
def deliversUpdate (n : Network) : Action → Prop
  | .deliver c => (n.conns[c]?.bind fun k => k.toServer.head?.map fun msg =>
      (msg.sospfType, k.handler)) = some (.LSAUPDATE, .idle)
  | _ => False

/-- The updates on a connection. Of each only the connection and the `routerID`
matter for where it goes. -/
def updatesOn (c : Nat) (k : Connection) : Multiset (Nat × String) :=
  Multiset.ofList ((k.toServer.filter (·.sospfType = .LSAUPDATE)).map fun m => (c, m.routerID))

def inFlight (n : Network) : Multiset (Nat × String) := total updatesOn n.conns

/-- An update at the first place is passed on to the second one. -/
def hop (n : Network) (x y : Nat × String) : Prop :=
  ∃ p r l, n.conns[x.1]?.map Connection.server = some p ∧ n.running p = true ∧ n.routers p = some r ∧
    r.PassesOver x.2 r.ports l ∧ y = (l.client.conn, r.ip)

/-- The cases of a delivery. -/
theorem deliversUpdate_cases {n n' : Network} {a : Action} (hok : n.deliversUpdate a)
    (h : n.step a = some n') :
    ∃ c k msg rest, a = .deliver c ∧ n.conns[c]? = some k ∧ k.toServer = msg :: rest ∧
      msg.sospfType = .LSAUPDATE ∧
      (n.running k.server = false ∧ n' = n.setConn c { k with toServer := rest } ∨
        ∃ r, n.running k.server = true ∧ n.routers k.server = some r ∧
          n' = ((n.setConn c { k with toServer := rest }).act k.server (r.parseLsaUpdate msg)).answer
            c (r.parseLsaUpdate msg)) := by
  cases a with
  | deliver c =>
    obtain ⟨k, hk, hhead⟩ := Option.bind_eq_some_iff.mp hok
    obtain ⟨msg, hmsg, hboth⟩ := Option.map_eq_some_iff.mp hhead
    obtain ⟨htype, hidle⟩ := Prod.mk.inj hboth
    obtain ⟨rest, hq⟩ := List.head?_eq_some_iff.mp hmsg
    refine ⟨c, k, msg, rest, rfl, hk, hq, htype, ?_⟩
    simp only [step, deliver, hk, hq] at h
    split at h
    · rename_i hrun
      simp only [Option.bind_eq_bind, Option.bind_eq_some_iff, Option.pure_def,
        Option.some.injEq] at h
      obtain ⟨r, hr, ev, hev, e, he, rfl⟩ := h
      rw [hidle] at hev
      cases hev
      refine Or.inr ⟨r, hrun, hr, ?_⟩
      simp only [Router.react] at he
      split at he
      · cases he
      · simp only [Router.parseMessage, htype, Option.some.injEq] at he
        subst he
        rfl
    · rename_i hrun
      cases h
      exact Or.inl ⟨by simpa using hrun, rfl⟩
  | command => exact hok.elim
  | advance => exact hok.elim
  | read => exact hok.elim

/-! ## A delivery leaves the way of the updates as it is -/

/-- The network looks the same to an update: each router has its ports, and
each connection its ends. -/
structure SameWays (n n' : Network) : Prop where
  routers : ∀ p, (n'.routers p).map (fun r => (r.ip, r.ports, r.terminal)) =
    (n.routers p).map (fun r => (r.ip, r.ports, r.terminal))
  servers : ∀ c : Nat, n'.conns[c]?.map Connection.server = n.conns[c]?.map Connection.server

theorem SameWays.symm {n n' : Network} (h : SameWays n n') : SameWays n' n :=
  ⟨fun p => (h.routers p).symm, fun c => (h.servers c).symm⟩

theorem SameWays.router {n n' : Network} (h : SameWays n n') {p : Int16} {r : Router}
    (hr : n.routers p = some r) : ∃ r', n'.routers p = some r' ∧ r'.ip = r.ip ∧
      r'.ports = r.ports ∧ r'.terminal = r.terminal := by
  have hp := h.routers p
  rw [hr, Option.map_some] at hp
  obtain ⟨r', hr', heq⟩ := Option.map_eq_some_iff.mp hp
  simp only [Prod.mk.injEq] at heq
  exact ⟨r', hr', heq.1, heq.2.1, heq.2.2⟩

theorem SameWays.hop {n n' : Network} (h : SameWays n n') {x y : Nat × String} (hh : n.hop x y) :
    n'.hop x y := by
  obtain ⟨p, r, l, hp, hrun, hr, hl, rfl⟩ := hh
  obtain ⟨r', hr', hip, hports, hterm⟩ := h.router hr
  refine ⟨p, r', l, (h.servers _).trans hp, ?_, hr', ?_, by rw [hip]⟩
  · simpa [running, hr', hr, hterm] using hrun
  · unfold Router.PassesOver at hl ⊢
    rwa [hports, hip]

theorem SameWays.hop_eq {n n' : Network} (h : SameWays n n') : n'.hop = n.hop := by
  funext x y
  exact propext ⟨h.symm.hop, h.hop⟩

theorem sameWays_delivery {n n' : Network} {a : Action} (hok : n.deliversUpdate a)
    (h : n.step a = some n') : SameWays n n' := by
  obtain ⟨c, k, msg, rest, rfl, hk, hq, htype, ⟨-, rfl⟩ | ⟨r, hrun, hr, rfl⟩⟩ :=
    deliversUpdate_cases hok h
  · refine ⟨fun _ => rfl, fun i => ?_⟩
    simp only [setConn, List.getElem?_set]
    split
    · rename_i hc
      subst hc
      obtain ⟨hlt, rfl⟩ := List.getElem?_eq_some_iff.mp hk
      simp [hlt]
    · rfl
  · obtain ⟨hports, hip, hterm, hopens⟩ := r.parseLsaUpdate_ports msg
    constructor
    · intro p
      simp only [answer, act, setConn]
      by_cases hp : p = k.server
      · subst hp
        simp [hr, hports, hip, hterm]
      · rw [Function.update_of_ne hp]
    · intro i
      simp only [answer, List.getElem?_modify, act_conns, opened, hopens, setConn, List.getElem?_set]
      by_cases hc : c = i
      · subst hc
        obtain ⟨hlt, rfl⟩ := List.getElem?_eq_some_iff.mp hk
        simp [hlt]
      · simp only [hc, if_false, id_map', Option.map_map]
        congr 1

/-! ## A delivery is a turn of the updates -/

theorem updatesOn_push (c : Nat) (k : Connection) (m : SOSPFPacket) :
    updatesOn c { k with toServer := k.toServer ++ [m] } =
      updatesOn c k + if m.sospfType = .LSAUPDATE then {(c, m.routerID)} else 0 := by
  unfold updatesOn
  split
  · rename_i h
    rw [List.filter_append, List.map_append, ← Multiset.coe_add]
    simp [h]
  · rename_i h
    simp [h, List.filter_append]

/-- The updates that the packets of a list bring. -/
theorem inFlight_sends (sends : List (Nat × SOSPFPacket)) (conns : List Connection) :
    ∃ t, total updatesOn (sends.foldl push conns) = total updatesOn conns + t ∧
      ∀ b, b ∈ t ↔ ∃ send ∈ sends, send.1 < conns.length ∧ send.2.sospfType = .LSAUPDATE ∧
        b = (send.1, send.2.routerID) := by
  induction sends generalizing conns with
  | nil => exact ⟨0, by simp, by simp⟩
  | cons send sends ih =>
    obtain ⟨t, heq, hmem⟩ := ih (push conns send)
    refine ⟨pushed (fun c _ m => if m.sospfType = .LSAUPDATE then {(c, m.routerID)} else 0)
      conns send + t, ?_, ?_⟩
    · rw [List.foldl_cons, heq, total_push updatesOn_push, add_assoc]
    · intro b
      have hlen : (push conns send).length = conns.length := by simp [push]
      rw [Multiset.mem_add, hmem, hlen, List.exists_mem_cons_iff]
      apply or_congr_left
      unfold pushed
      by_cases hlt : send.1 < conns.length
      · rw [List.getElem?_eq_getElem hlt]
        by_cases ht : send.2.sospfType = .LSAUPDATE <;> simp [hlt, ht]
      · rw [List.getElem?_eq_none (by omega)]
        simp [hlt]

theorem inFlight_take {n : Network} {c : Nat} {k : Connection} {msg : SOSPFPacket}
    {rest : List SOSPFPacket} (hk : n.conns[c]? = some k) (hq : k.toServer = msg :: rest)
    (ht : msg.sospfType = .LSAUPDATE) :
    (n.setConn c { k with toServer := rest }).inFlight + {(c, msg.routerID)} = n.inFlight := by
  have hset := total_set (g := updatesOn) hk { k with toServer := rest }
  have hcons : updatesOn c k = {(c, msg.routerID)} + updatesOn c { k with toServer := rest } := by
    simp [updatesOn, hq, ht]
  rw [hcons, ← add_assoc] at hset
  exact add_right_cancel hset

theorem inFlight_answer (n : Network) (c : Nat) (e : Effect) :
    (n.answer c e).inFlight = n.inFlight := by
  apply total_congr
  intro i
  simp only [answer, List.getElem?_modify]
  by_cases hc : c = i <;> cases n.conns[i]? <;> simp [hc, updatesOn]

/-! ## Networks in which only updates are under way -/

/-- Every packet for a server is an update without a null, and finds an idle
handler. Every router has its own entry, and every link an open connection. -/
structure OnlyUpdates (n : Network) : Prop where
  updates : ∀ (c : Nat) k, n.conns[c]? = some k →
    k.handler = .idle ∧ ∀ m ∈ k.toServer, m.sospfType = .LSAUPDATE ∧ none ∉ m.lsaArray
  routers : ∀ p r, n.routers p = some r → r.ownLSA.isSome ∧
    ∀ l ∈ r.ports, l.client.connected = true ∧ l.client.conn < n.conns.length

/-- No send of the handler fails, and it goes over every link that the update
is passed on over. -/
theorem parseLsaUpdate_sends {r : Router} {msg : SOSPFPacket} (hnull : none ∉ msg.lsaArray)
    (hlinks : ∀ l ∈ r.ports, l.client.connected = true) :
    (r.parseLsaUpdate msg).handler = .idle ∧ ∀ l, r.PassesOver msg.routerID r.ports l →
      ∃ m, (l.client.conn, m) ∈ (r.parseLsaUpdate msg).sends ∧ m.sospfType = msg.sospfType ∧
        m.routerID = r.ip ∧
        ∀ y ∈ (r.lsd.receive (beforeNull msg.lsaArray)).2, some y ∈ m.lsaArray := by
  unfold Router.parseLsaUpdate
  simp only [hnull, if_false]
  generalize hout : Router.forward _ _ _ = out
  have hall : allSent out = true := by
    unfold allSent
    rw [List.all_eq_true]
    rintro ⟨cl, m⟩ hmem
    rw [← hout] at hmem
    obtain ⟨l, hl, rfl, -⟩ := (Router.mem_forward _ _ _ _ _).mp hmem
    exact hlinks l (Router.passesOver_mem hl)
  refine ⟨by simp [hall], fun l hl => ?_⟩
  rw [sent_of_allSent hall]
  refine ⟨{ msg with
    lsaArray := ((r.lsd.receive (beforeNull msg.lsaArray)).2.map some ++
      [({ r with lsd := (r.lsd.receive (beforeNull msg.lsaArray)).1 } : Router).ownLSA])
    routerID := r.ip, neighborID := l.router2.simulatedIPAddress }, ?_, rfl, rfl,
    fun y hy => List.mem_append_left _ (List.mem_map_of_mem hy)⟩
  apply List.mem_map.mpr
  refine ⟨(l.client, _), ?_, rfl⟩
  rw [← hout]
  exact (Router.mem_forward _ _ _ _ _).mpr ⟨l, hl, rfl, rfl⟩

/-- What the handler sends is again an update without a null. -/
theorem parseLsaUpdate_updates {r : Router} {msg : SOSPFPacket} (hown : r.ownLSA.isSome)
    {i : Nat} {m : SOSPFPacket} (h : (i, m) ∈ (r.parseLsaUpdate msg).sends) :
    m.sospfType = msg.sospfType ∧ none ∉ m.lsaArray := by
  unfold Router.parseLsaUpdate at h
  simp only at h
  split at h
  · simp at h
  · obtain ⟨cl, hmem, -⟩ := mem_sent h
    obtain ⟨l, -, -, rfl⟩ := (Router.mem_forward _ _ _ _ _).mp hmem
    refine ⟨rfl, ?_⟩
    have hown' := Router.getLSA_receive_isSome (beforeNull msg.lsaArray) hown
    simp only [List.mem_append, List.mem_map, List.mem_singleton, not_or]
    refine ⟨by simp, fun hnone => ?_⟩
    rw [Router.ownLSA] at hnone
    change none = (r.lsd.receive (beforeNull msg.lsaArray)).1.getLSA r.ip at hnone
    rw [← hnone] at hown'
    cases hown'

/-- A delivery takes one update away and puts in its place updates one hop
further: all of them, in a network in which only updates are under way. -/
theorem delivery_turns {n n' : Network} {a : Action} (hok : n.deliversUpdate a)
    (h : n.step a = some n') :
    ∃ x ∈ n.inFlight, ∃ t, (∀ y ∈ t, n.hop x y) ∧ n'.inFlight + {x} = n.inFlight + t ∧
      (OnlyUpdates n → ∀ y, n.hop x y → y ∈ t) := by
  obtain ⟨c, k, msg, rest, rfl, hk, hq, htype, hcase⟩ := deliversUpdate_cases hok h
  have htake := inFlight_take hk hq htype
  have hmem : (c, msg.routerID) ∈ n.inFlight := by
    rw [← htake]
    simp
  rcases hcase with ⟨hrun, rfl⟩ | ⟨r, hrun, hr, rfl⟩
  · refine ⟨_, hmem, 0, by simp, by simpa using htake, ?_⟩
    rintro - y ⟨p, r, l, hp, hrun', -⟩
    simp only [hk, Option.map_some, Option.some.injEq] at hp
    subst hp
    rw [hrun] at hrun'
    cases hrun'
  · obtain ⟨-, -, -, hopens⟩ := r.parseLsaUpdate_ports msg
    obtain ⟨t, heq, ht⟩ := inFlight_sends (r.parseLsaUpdate msg).sends
      (n.setConn c { k with toServer := rest }).conns
    refine ⟨_, hmem, t, ?_, ?_, ?_⟩
    · intro y hy
      obtain ⟨⟨i, m⟩, hsend, -, -, rfl⟩ := (ht y).mp hy
      obtain ⟨l, hl, rfl, hip, -⟩ := Router.sends_parseLsaUpdate hsend
      exact ⟨k.server, r, l, by simp [hk], hrun, hr, hl, by simp [hip]⟩
    · have hact : ((n.setConn c { k with toServer := rest }).act k.server
          (r.parseLsaUpdate msg)).inFlight =
            (n.setConn c { k with toServer := rest }).inFlight + t := by
        unfold inFlight act opened
        simp only [hopens]
        exact heq
      rw [inFlight_answer, hact, ← htake, add_right_comm]
    · rintro hn y ⟨p, r', l, hp, -, hr', hl, rfl⟩
      simp only [hk, Option.map_some, Option.some.injEq] at hp
      subst hp
      rw [hr] at hr'
      cases hr'
      obtain ⟨-, hlinks⟩ := hn.routers _ r hr
      have hnull := ((hn.updates c k hk).2 msg (by simp [hq])).2
      obtain ⟨m, hsend, hm, hip, -⟩ :=
        (parseLsaUpdate_sends hnull fun l hl => (hlinks l hl).1).2 l hl
      rw [ht]
      refine ⟨_, hsend, ?_, by rw [hm, htype], by simp [hip]⟩
      simpa [setConn] using (hlinks l (Router.passesOver_mem hl)).2

theorem onlyUpdates_delivery {n n' : Network} {a : Action} (hn : OnlyUpdates n)
    (hok : n.deliversUpdate a) (h : n.step a = some n') : OnlyUpdates n' := by
  obtain ⟨c, k, msg, rest, rfl, hk, hq, htype, hcase⟩ := deliversUpdate_cases hok h
  have hupd := hn.updates c k hk
  have htaken : ∀ (i : Nat) k', (n.setConn c { k with toServer := rest }).conns[i]? = some k' →
      k'.handler = .idle ∧ ∀ m ∈ k'.toServer, m.sospfType = .LSAUPDATE ∧ none ∉ m.lsaArray := by
    intro i k' hk'
    simp only [setConn, List.getElem?_set] at hk'
    split at hk'
    · split at hk'
      · cases hk'
        exact ⟨hupd.1, fun m hm => hupd.2 m (by simp [hq, hm])⟩
      · cases hk'
    · exact hn.updates i k' hk'
  rcases hcase with ⟨hrun, rfl⟩ | ⟨r, hrun, hr, rfl⟩
  · refine ⟨htaken, fun p r hr => ?_⟩
    simpa [setConn] using hn.routers p r hr
  · obtain ⟨hports, hip, hterm, hopens⟩ := r.parseLsaUpdate_ports msg
    obtain ⟨hown, hlinks⟩ := hn.routers _ r hr
    have hnull := (hupd.2 msg (by simp [hq])).2
    have hidle := (parseLsaUpdate_sends hnull fun l hl => (hlinks l hl).1).1
    constructor
    · intro i k' hk'
      simp only [answer, List.getElem?_modify, act_conns, opened, hopens] at hk'
      obtain ⟨k1, hk1, rfl⟩ := Option.map_eq_some_iff.mp hk'
      obtain ⟨k2, hk2, rfl⟩ := Option.map_eq_some_iff.mp hk1
      have h2 := htaken i k2 hk2
      have hsends : ∀ m ∈ k2.toServer ++ sendsTo i (r.parseLsaUpdate msg).sends,
          m.sospfType = .LSAUPDATE ∧ none ∉ m.lsaArray := by
        intro m hm
        rcases List.mem_append.mp hm with h1 | h1
        · exact h2.2 m h1
        · have := parseLsaUpdate_updates hown (mem_sendsTo.mp h1)
          exact ⟨by rw [this.1, htype], this.2⟩
      by_cases hc : c = i
      · simp only [hc, if_true]
        exact ⟨hidle, hsends⟩
      · simp only [hc, if_false]
        exact ⟨h2.1, hsends⟩
    · intro p r' hr'
      have hlen : (((n.setConn c { k with toServer := rest }).act k.server
          (r.parseLsaUpdate msg)).answer c (r.parseLsaUpdate msg)).conns.length =
            n.conns.length := by
        simp [answer, act, opened, hopens, setConn]
      rw [hlen]
      simp only [answer, act, setConn] at hr'
      by_cases hp : p = k.server
      · subst hp
        rw [Function.update_self] at hr'
        cases hr'
        rw [hports, Router.ownLSA, hip, Router.parseLsaUpdate_lsd]
        exact ⟨Router.getLSA_receive_isSome _ hown, hlinks⟩
      · rw [Function.update_of_ne hp] at hr'
        exact hn.routers p r' hr'

/-- The places that one hop can lead to. -/
def places (n : Network) : List (Nat × String) :=
  n.conns.flatMap fun k =>
    match n.routers k.server with
    | some r => r.ports.map fun l => (l.client.conn, r.ip)
    | none => []

/-- There are finitely many places that an update can come to. -/
theorem finite_hops (n : Network) (x : Nat × String) :
    {y | Relation.ReflTransGen n.hop x y}.Finite := by
  refine (List.finite_toSet (x :: n.places)).subset ?_
  intro y hy
  rcases hy.cases_tail with rfl | ⟨z, -, p, r, l, hp, -, hr, hl, rfl⟩
  · simp
  · obtain ⟨k, hk, rfl⟩ := Option.map_eq_some_iff.mp hp
    apply List.mem_cons_of_mem
    apply List.mem_flatMap.mpr
    refine ⟨k, List.mem_of_getElem? hk, ?_⟩
    simp only [hr]
    exact List.mem_map.mpr ⟨l, Router.passesOver_mem hl, rfl⟩

/-! ## When the flooding ends -/

/-- One delivery of an update. -/
def Delivery (n n' : Network) : Prop := ∃ a, n.deliversUpdate a ∧ n.step a = some n'

/-- No run of deliveries goes on forever, and where a run can go no further no
update is in flight any more. -/
def FloodingEnds (n : Network) : Prop :=
  (¬ ∃ f : Nat → Network, f 0 = n ∧ ∀ i, (f i).Delivery (f (i + 1))) ∧
    ∀ acts n', Run step deliversUpdate n acts n' → (∀ n'', ¬ n'.Delivery n'') → n'.inFlight = 0

/-- No update in flight can come to a cycle of hops. -/
def NoUpdateCircles (n : Network) : Prop := ∀ x ∈ n.inFlight, ¬ CanLoop n.hop x

theorem no_infinite_flooding {n : Network} (h : n.NoUpdateCircles) :
    ¬ ∃ f : Nat → Network, f 0 = n ∧ ∀ i, (f i).Delivery (f (i + 1)) := by
  rintro ⟨f, hf0, hf⟩
  have hways : ∀ i, (f i).hop = n.hop := by
    intro i
    induction i with
    | zero => rw [hf0]
    | succ i ih =>
      obtain ⟨a, hok, hs⟩ := hf i
      rw [(sameWays_delivery hok hs).hop_eq, ih]
  have hends : Ends n.hop n.inFlight := fun x hx => acc_of_finite (n.finite_hops x) (h x hx)
  obtain ⟨i, hi⟩ := ends_of_acc (acc_turn_of_ends hends) (fun i => (f i).inFlight) (by rw [hf0])
  apply hi
  obtain ⟨a, hok, hs⟩ := hf i
  obtain ⟨x, hx, t, hhop, heq, -⟩ := delivery_turns hok hs
  rw [hways i] at hhop
  exact ⟨x, hx, t, hhop, heq⟩

/-- While an update is in flight, one can be delivered. -/
theorem exists_delivery {n : Network} (hn : OnlyUpdates n) {x : Nat × String}
    (hx : x ∈ n.inFlight) : ∃ n', n.Delivery n' := by
  obtain ⟨c, k, hk, hxk⟩ := mem_total.mp hx
  have hupd := hn.updates c k hk
  cases hq : k.toServer with
  | nil => simp [updatesOn, hq] at hxk
  | cons msg rest =>
    have htype := (hupd.2 msg (by simp [hq])).1
    have hok : n.deliversUpdate (.deliver c) := by
      simp [deliversUpdate, hk, hq, htype, hupd.1]
    have hstep : ∃ n', n.step (.deliver c) = some n' := by
      simp only [step, deliver, hk, hq]
      split
      · rename_i hrun
        unfold running at hrun
        split at hrun
        · rename_i r hr
          simp [hr, hupd.1, handlerEvent, Router.react, show r.terminal ≠ .exited by simpa using hrun]
        · cases hrun
      · exact ⟨_, rfl⟩
    obtain ⟨n', hn'⟩ := hstep
    exact ⟨n', .deliver c, hok, hn'⟩

/-- An update that can circle keeps the flooding going: after a delivery, this
update or the next one on its way is in flight. -/
theorem circles_delivery {n n' : Network} (hn : OnlyUpdates n) (h : n.Delivery n') {x : Nat × String}
    (hx : x ∈ n.inFlight) (hloop : CanLoop n.hop x) :
    ∃ y ∈ n'.inFlight, CanLoop n'.hop y := by
  obtain ⟨a, hok, hs⟩ := h
  rw [(sameWays_delivery hok hs).hop_eq]
  obtain ⟨z, hz, t, -, heq, hall⟩ := delivery_turns hok hs
  by_cases hxz : x = z
  · subst hxz
    obtain ⟨y, hhop, hy⟩ := hloop.next
    exact ⟨y, mem_after_turn hz heq (hall hn y hhop), hy⟩
  · have hmem : x ∈ n'.inFlight + {z} := by
      rw [heq]
      exact Multiset.mem_add.mpr (Or.inl hx)
    rcases Multiset.mem_add.mp hmem with h1 | h1
    · exact ⟨x, h1, hloop⟩
    · exact absurd (Multiset.mem_singleton.mp h1) hxz

theorem floods_forever {n : Network} (hn : OnlyUpdates n) {x : Nat × String} (hx : x ∈ n.inFlight)
    (hloop : CanLoop n.hop x) :
    ∃ f : Nat → Network, f 0 = n ∧ ∀ i, (f i).Delivery (f (i + 1)) := by
  apply exists_sequence (P := fun n => OnlyUpdates n ∧ ∃ x ∈ n.inFlight, CanLoop n.hop x)
  · rintro s ⟨hs, x, hx, hloop⟩
    obtain ⟨s', a, hok, hstep⟩ := exists_delivery hs hx
    exact ⟨s', ⟨a, hok, hstep⟩, onlyUpdates_delivery hs hok hstep,
      circles_delivery hs ⟨a, hok, hstep⟩ hx hloop⟩
  · exact ⟨hn, x, hx, hloop⟩

/-- In every network, updates of which none can come to a cycle are not passed
on forever. Where only updates are under way, this is exact: the flooding ends,
with no update left in flight, exactly when no update can come to a cycle. -/
theorem flooding_ends_iff_no_update_circles (n : Network) :
    (n.NoUpdateCircles → ¬ ∃ f : Nat → Network, f 0 = n ∧ ∀ i, (f i).Delivery (f (i + 1))) ∧
      (OnlyUpdates n → (n.FloodingEnds ↔ n.NoUpdateCircles)) := by
  refine ⟨no_infinite_flooding, fun hn => ⟨?_, fun h => ⟨no_infinite_flooding h, ?_⟩⟩⟩
  · rintro ⟨hfin, -⟩ x hx hloop
    exact hfin (floods_forever hn hx hloop)
  · intro acts n' hrun hstuck
    have hn' : OnlyUpdates n' :=
      hrun.invariant hn fun _ _ _ hs hok hstep => onlyUpdates_delivery hs hok hstep
    apply Multiset.eq_zero_of_forall_notMem
    intro x hx
    obtain ⟨n'', h''⟩ := exists_delivery hn' hx
    exact hstuck n'' h''

/-! ## Three routers in a ring -/

/-- A router of `threeRouters` with TWO-WAY links over the given connections. -/
def linked (rd : RouterDescription) (links : List (RouterDescription × Nat)) : Router :=
  { Router.new rd with
    ports := links.map fun l =>
      { router2 := { l.1 with status := .TWO_WAY }, client := ⟨l.2, true⟩ } }

def rd1 : RouterDescription :=
  { processIPAddress := "127.0.0.1", processPortNumber := 3000, simulatedIPAddress := "192.168.1.1" }

def rd2 : RouterDescription :=
  { processIPAddress := "127.0.0.1", processPortNumber := 4000, simulatedIPAddress := "192.168.1.100" }

def rd3 : RouterDescription :=
  { processIPAddress := "127.0.0.1", processPortNumber := 5000, simulatedIPAddress := "192.168.2.1" }

/-- The connections between any two of the routers. The update of 192.168.1.1
is on its way to 192.168.1.100. -/
def ringConns : List Connection :=
  let update : SOSPFPacket :=
    { sospfType := .LSAUPDATE, srcIP := "192.168.1.1", routerID := "192.168.1.1",
      lsaArray := [some (LinkStateDatabase.initLinkStateDatabase rd1)] }
  [{ client := 3000, server := 4000, toServer := [update] }, { client := 4000, server := 3000 },
   { client := 4000, server := 5000 }, { client := 5000, server := 4000 },
   { client := 3000, server := 5000 }, { client := 5000, server := 3000 }]

/-- Each of the three routers is linked to the other two. -/
def ring : Network :=
  { routers := fun p =>
      if p = 3000 then some (linked rd1 [(rd2, 0), (rd3, 4)])
      else if p = 4000 then some (linked rd2 [(rd1, 1), (rd3, 2)])
      else if p = 5000 then some (linked rd3 [(rd1, 5), (rd2, 3)])
      else none
    conns := ringConns }

/-- Only 192.168.1.1 and 192.168.1.100 are linked. -/
def twoLinked : Network :=
  { routers := fun p =>
      if p = 3000 then some (linked rd1 [(rd2, 0)])
      else if p = 4000 then some (linked rd2 [(rd1, 1)])
      else none
    conns := ringConns }

theorem ringConns_updates : ∀ (c : Nat) k, ringConns[c]? = some k →
    k.handler = .idle ∧ ∀ m ∈ k.toServer, m.sospfType = .LSAUPDATE ∧ none ∉ m.lsaArray := by
  have hall : ∀ k ∈ ringConns, k.handler = .idle ∧
      ∀ m ∈ k.toServer, m.sospfType = .LSAUPDATE ∧ none ∉ m.lsaArray := by decide
  exact fun c k hk => hall k (List.mem_of_getElem? hk)

theorem onlyUpdates_ring : OnlyUpdates ring := by
  refine ⟨ringConns_updates, fun p r hr => ?_⟩
  simp only [ring] at hr
  split_ifs at hr <;> cases hr <;> decide

/-- The update goes round: 192.168.1.1, 192.168.1.100, 192.168.2.1 and back. -/
theorem canLoop_ring : CanLoop ring.hop (0, "192.168.1.1") := by
  have h1 : ring.hop (0, "192.168.1.1") (2, "192.168.1.100") := by
    refine ⟨4000, linked rd2 [(rd1, 1), (rd3, 2)], _, rfl, rfl, rfl, ⟨[_], [], rfl, rfl, ?_⟩, rfl⟩
    decide
  have h2 : ring.hop (2, "192.168.1.100") (5, "192.168.2.1") := by
    refine ⟨5000, linked rd3 [(rd1, 5), (rd2, 3)], _, rfl, rfl, rfl, ⟨[], [_], rfl, rfl, ?_⟩, rfl⟩
    decide
  have h3 : ring.hop (5, "192.168.2.1") (0, "192.168.1.1") := by
    refine ⟨3000, linked rd1 [(rd2, 0), (rd3, 4)], _, rfl, rfl, rfl, ⟨[], [_], rfl, rfl, ?_⟩, rfl⟩
    decide
  exact ⟨_, .refl, .tail (.tail (.single h1) h2) h3⟩

theorem flooding_never_ends_in_a_ring : ¬ ∀ n : Network, OnlyUpdates n → n.FloodingEnds := by
  intro h
  have hmem : (0, "192.168.1.1") ∈ ring.inFlight :=
    mem_total.mpr ⟨0, _, rfl, by simp [updatesOn]⟩
  exact (h ring onlyUpdates_ring).1 (floods_forever onlyUpdates_ring hmem canLoop_ring)

theorem flooding_ends_between_two : OnlyUpdates twoLinked ∧ twoLinked.FloodingEnds := by
  have honly : OnlyUpdates twoLinked := by
    refine ⟨ringConns_updates, fun p r hr => ?_⟩
    simp only [twoLinked] at hr
    split_ifs at hr <;> cases hr <;> decide
  refine ⟨honly, ((flooding_ends_iff_no_update_circles twoLinked).2 honly).mpr ?_⟩
  have hfirst : twoLinked.inFlight = {(0, "192.168.1.1")} := rfl
  intro x hx hloop
  rw [hfirst, Multiset.mem_singleton] at hx
  subst hx
  -- the only link of 192.168.1.100 leads back to the sender
  obtain ⟨y, ⟨p, r, l, hp, -, hr, ⟨before, after, hports, -, hne⟩, -⟩, -⟩ := hloop.next
  obtain rfl : p = 4000 := (Option.some.inj hp).symm
  obtain rfl : r = linked rd2 [(rd1, 1)] := (Option.some.inj hr).symm
  obtain ⟨rfl, hrest⟩ := List.append_eq_cons_iff.mp hports.symm |>.resolve_right (by
    rintro ⟨as, -, has⟩
    simp at has)
  simp only [List.cons.injEq] at hrest
  obtain ⟨rfl, -⟩ := hrest
  exact absurd rfl hne

end Network
end socs.network
