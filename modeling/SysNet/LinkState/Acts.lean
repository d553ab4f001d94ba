-- What one step of a network does: one router acts, or a packet is lost. For
-- the router that acts, its ports, its terminal, what it sends, opens and
-- answers; for the connections, what is taken from them and what is added.
import SysNet.LinkState.Network

namespace socs.network

/-! ## The links that a router holds -/

/-- The link of an `attach` that has sent its request. -/
def Terminal.pending : Terminal → List Link
  | .attachSent link => [link]
  | .attachAccepted link => [link]
  | _ => []

/-- The link that the terminal works on. -/
def Terminal.link : Terminal → List Link
  | .helloSent _ _ l => [l]
  | t => t.pending

/-- The link that `attach` inserts next. -/
def Terminal.accepted : Terminal → List Link
  | .attachAccepted link => [link]
  | _ => []

/-- What of a link never changes. -/
def Link.key (l : Link) : Client × String := (l.client, l.router2.simulatedIPAddress)

namespace Router

theorem key_setStatus (r : Router) (c : Nat) (s : RouterStatus) :
    (r.setStatus c s).ports.map Link.key = r.ports.map Link.key := by
  unfold setStatus
  rw [List.map_map]
  apply List.map_congr_left
  intro l _
  simp only [Function.comp_apply]
  split <;> rfl

theorem terminal_finish (r : Router) (out : List (Client × SOSPFPacket)) :
    (r.finish out).terminal.link = [] := by
  rcases r.finish_terminal out with h | h <;> rw [h] <;> rfl

/-- The ports after an event: some of those before, or those before and one more. -/
theorem did_ports {r : Router} {ev : Event} {e : Effect} (h : Did r ev e) :
    (e.router.ports.map Link.key).Sublist (r.ports.map Link.key) ∨
    (∃ link, r.terminal = .attachAccepted link ∧ e.router.ports = r.ports ++ [link] ∧
      e.router.terminal = .ready ∧ e.opens = none) ∨
    ∃ connect msg link, ev = .handle connect msg ∧ msg.sospfType = .ATTACH ∧
      e.router.terminal = r.terminal ∧ e.opens = some msg.srcProcessPort ∧
      e.router.ports = r.ports ++ [link] ∧ link.client = connect msg.srcProcessPort ∧
      link.router2.simulatedIPAddress = msg.routerID := by
  cases h with
  | attachInsert hr => exact Or.inr (Or.inl ⟨_, hr, rfl, rfl, rfl⟩)
  | @attached connect msg _ ht =>
    unfold parseAttach
    split
    · exact Or.inr (Or.inr ⟨connect, msg, _, rfl, ht, rfl, rfl, rfl, rfl, rfl⟩)
    · exact Or.inl (List.Sublist.refl _)
  | disconnect _ _ _ hr1 _ =>
    subst hr1
    exact Or.inl ((List.eraseIdx_sublist _ _).map _)
  | disconnected => exact Or.inl (List.eraseP_sublist.map _)
  | quit => exact Or.inl (List.nil_sublist _)
  | @helloReply _ _ l response _ =>
    left
    cases response with
    | none => exact List.Sublist.refl _
    | some msg =>
      simp only [helloReply]
      split
      · rw [key_setStatus]
      · exact List.Sublist.refl _
  | hello =>
    left
    unfold parseHello
    split
    · exact List.Sublist.refl _
    · rw [key_setStatus]
  | @respond c msg _ =>
    left
    simp only [parseResponse]
    split
    · rw [key_setStatus]
    · exact List.Sublist.refl _
  | lsaUpdate =>
    left
    unfold parseLsaUpdate
    simp only
    split <;> exact List.Sublist.refl _
  | _ => exact Or.inl (List.Sublist.refl _)

/-- The terminal after an event, with the link that it works on. -/
theorem did_terminal {r : Router} {ev : Event} {e : Effect} (h : Did r ev e) :
    e.router.terminal = r.terminal ∨ e.router.terminal.link = [] ∨
    (∃ connect a p s link, ev = .advance connect ∧ r.terminal = .attaching a p s ∧
      e.router.terminal = .attachSent link ∧ link.client = connect p ∧
      (connect p).connected = true ∧ e.opens = some p ∧ e.router.ports = r.ports ∧
      e.sends = [((connect p).conn, r.attachRequest s)]) ∨
    (∃ link msg, ev = .read (some msg) ∧ r.terminal = .attachSent link ∧
      e.router.terminal = .attachAccepted link ∧ msg.sospfType = .ATTACH_ACK ∧
      msg.routerID = link.router2.simulatedIPAddress ∧ e.router.ports = r.ports) ∨
    ∃ i m l, e.router.terminal = .helloSent i m l ∧ l ∈ r.ports ∧ e.router.ports = r.ports := by
  cases h with
  | typed _ ht => rcases ht with rfl | rfl | rfl <;> exact Or.inr (Or.inl rfl)
  | attach => exact Or.inr (Or.inl rfl)
  | disconnect => exact Or.inr (Or.inl (terminal_finish _ _))
  | quit => exact Or.inr (Or.inl rfl)
  | quitFails => exact Or.inr (Or.inl rfl)
  | @attachSend connect a s p hr =>
    unfold attachSend
    by_cases hc : (connect p).connected = true
    · simp only [hc, if_true]
      exact Or.inr (Or.inr (Or.inl ⟨connect, a, p, s, _, rfl, hr, rfl, rfl, hc, rfl, trivial, rfl⟩))
    · simp only [hc]
      exact Or.inr (Or.inl rfl)
  | attachInsert => exact Or.inr (Or.inl rfl)
  | startSkip _ ht => rcases ht with rfl | rfl <;> exact Or.inr (Or.inl rfl)
  | startHello _ hl => exact Or.inr (Or.inr (Or.inr (Or.inr ⟨_, _, _, rfl, List.mem_of_getElem? hl, rfl⟩)))
  | startEnd => exact Or.inr (Or.inl (terminal_finish _ _))
  | @attachReply link response hr =>
    simp only [attachReply]
    cases response with
    | none => exact Or.inr (Or.inl rfl)
    | some msg =>
      simp only [attachAnswer]
      split
      · rename_i hm
        exact Or.inr (Or.inr (Or.inr (Or.inl ⟨link, msg, rfl, hr, rfl, hm.1, hm.2, trivial⟩)))
      · exact Or.inr (Or.inl rfl)
  | @helloReply _ _ _ response _ => cases response <;> exact Or.inr (Or.inl rfl)
  | hello => unfold parseHello; split <;> exact Or.inl rfl
  | respond => exact Or.inl rfl
  | attached => unfold parseAttach; split <;> exact Or.inl rfl
  | disconnected => exact Or.inl rfl
  | lsaUpdate => unfold parseLsaUpdate; simp only; split <;> exact Or.inl rfl
  | ignored => exact Or.inl rfl

theorem mem_broadcastLSA {r : Router} {i : Nat} {m : SOSPFPacket}
    (h : (i, m) ∈ sent r.broadcastLSA) :
    ∃ l ∈ r.ports, l.client.conn = i ∧ l.router2.status = .TWO_WAY ∧ m = r.lsaUpdate l := by
  obtain ⟨cl, hmem, rfl⟩ := mem_sent h
  obtain ⟨l, hl, heq⟩ := List.mem_map.mp hmem
  simp only [Prod.mk.injEq] at heq
  obtain ⟨rfl, rfl⟩ := heq
  rw [List.mem_filter] at hl
  exact ⟨l, hl.1, rfl, by simpa using hl.2, rfl⟩

/-- A packet that an event sends names the router. It goes over a port, over
the link of a HELLO, or it is a request to attach. -/
theorem did_sends {r : Router} {ev : Event} {e : Effect} (h : Did r ev e) {i : Nat}
    {m : SOSPFPacket} (hm : (i, m) ∈ e.sends) :
    m.routerID = r.ip ∧
    ((m.sospfType ≠ .ATTACH ∧ ((∃ l ∈ r.ports, l.client.conn = i) ∨
        ∃ j x l, r.terminal = .helloSent j x l ∧ l.client.conn = i)) ∨
      ∃ connect a p s, ev = .advance connect ∧ r.terminal = .attaching a p s ∧
        i = (connect p).conn ∧ m = r.attachRequest s ∧ e.opens = some p ∧
        ∃ link, e.router.terminal = .attachSent link ∧ link.client = connect p ∧
          link.router2.simulatedIPAddress = s) := by
  cases h with
  | @disconnect n link r1 out _ hp _ hr1 hout =>
    subst hr1 hout
    rcases List.mem_cons.mp hm with heq | hmem
    · simp only [Prod.mk.injEq] at heq
      obtain ⟨rfl, rfl⟩ := heq
      refine ⟨rfl, Or.inl ⟨(fun hx => by cases hx), Or.inl ⟨link, ?_, rfl⟩⟩⟩
      unfold port at hp
      split at hp
      · cases hp
      · exact List.mem_of_getElem? hp
    · obtain ⟨l, hl, rfl, -, rfl⟩ := mem_broadcastLSA hmem
      exact ⟨rfl, Or.inl ⟨(fun hx => by cases hx), Or.inl ⟨l, List.mem_of_mem_eraseIdx hl, rfl⟩⟩⟩
  | quit _ hout _ =>
    subst hout
    obtain ⟨cl, hmem, rfl⟩ := mem_sent hm
    obtain ⟨l, hl, heq⟩ := List.mem_map.mp hmem
    simp only [Prod.mk.injEq] at heq
    obtain ⟨rfl, rfl⟩ := heq
    exact ⟨rfl, Or.inl ⟨(fun hx => by cases hx), Or.inl ⟨l, hl, rfl⟩⟩⟩
  | quitFails _ hout _ =>
    subst hout
    obtain ⟨cl, hmem, rfl⟩ := mem_sent hm
    obtain ⟨l, hl, heq⟩ := List.mem_map.mp hmem
    simp only [Prod.mk.injEq] at heq
    obtain ⟨rfl, rfl⟩ := heq
    exact ⟨rfl, Or.inl ⟨(fun hx => by cases hx), Or.inl ⟨l, hl, rfl⟩⟩⟩
  | @attachSend connect a s p hr =>
    unfold attachSend at hm
    by_cases hc : (connect p).connected = true
    · simp only [hc, if_true, List.mem_singleton, Prod.mk.injEq] at hm
      obtain ⟨rfl, rfl⟩ := hm
      refine ⟨rfl, Or.inr ⟨connect, a, p, s, rfl, hr, rfl, rfl, rfl, ?_⟩⟩
      simp only [attachSend, hc, if_true]
      exact ⟨_, rfl, rfl, rfl⟩
    · simp [hc] at hm
  | startHello _ hl =>
    simp only [List.mem_singleton, Prod.mk.injEq] at hm
    obtain ⟨rfl, rfl⟩ := hm
    exact ⟨rfl, Or.inl ⟨(fun hx => by cases hx), Or.inl ⟨_, List.mem_of_getElem? hl, rfl⟩⟩⟩
  | startEnd =>
    obtain ⟨l, hl, rfl, -, rfl⟩ := mem_broadcastLSA hm
    exact ⟨rfl, Or.inl ⟨(fun hx => by cases hx), Or.inl ⟨l, hl, rfl⟩⟩⟩
  | @helloReply j x l response hr =>
    cases response with
    | none => cases hm
    | some msg =>
      simp only [helloReply, List.mem_singleton, Prod.mk.injEq] at hm
      obtain ⟨rfl, rfl⟩ := hm
      exact ⟨rfl, Or.inl ⟨(fun hx => by cases hx), Or.inr ⟨j, x, l, hr, rfl⟩⟩⟩
  | hello => unfold parseHello at hm; split at hm <;> cases hm
  | attached => unfold parseAttach at hm; split at hm <;> cases hm
  | disconnected =>
    obtain ⟨l, hl, rfl, -, rfl⟩ := mem_broadcastLSA hm
    exact ⟨rfl, Or.inl ⟨(fun hx => by cases hx), Or.inl ⟨l, List.mem_of_mem_eraseP hl, rfl⟩⟩⟩
  | lsaUpdate _ ht =>
    obtain ⟨l, hl, rfl, hip, htype⟩ := sends_parseLsaUpdate hm
    exact ⟨hip, Or.inl ⟨by rw [htype, ht]; exact (fun hx => by cases hx), Or.inl ⟨l, passesOver_mem hl, rfl⟩⟩⟩
  | _ => cases hm

theorem did_opens {r : Router} {ev : Event} {e : Effect} (h : Did r ev e) {q : Int16}
    (ho : e.opens = some q) :
    (∃ connect a s, ev = .advance connect ∧ r.terminal = .attaching a q s) ∨
    ∃ connect msg, ev = .handle connect msg ∧ msg.sospfType = .ATTACH ∧ msg.srcProcessPort = q := by
  cases h with
  | @attachSend connect a s p hr =>
    cases ho
    exact Or.inl ⟨connect, a, s, rfl, hr⟩
  | @attached connect msg _ ht =>
    unfold parseAttach at ho
    split at ho
    · cases ho
      exact Or.inr ⟨connect, msg, rfl, ht, rfl⟩
    · cases ho
  | @helloReply _ _ _ response _ => cases response <;> cases ho
  | hello => unfold parseHello at ho; split at ho <;> cases ho
  | lsaUpdate => unfold parseLsaUpdate at ho; simp only at ho; split at ho <;> cases ho
  | _ => cases ho

/-- The answer of a handler thread. Only a REJECT does not name the router. -/
theorem did_reply {r : Router} {ev : Event} {e : Effect} (h : Did r ev e) {m : SOSPFPacket}
    (hm : e.reply = some m) :
    (m.sospfType = .ATTACH_ACK ∨ m.sospfType = .HELLO_ACK) ∧ m.routerID = r.ip ∨
      m.sospfType = .ATTACH_REJECT := by
  cases h with
  | hello =>
    unfold parseHello at hm
    split at hm <;> cases hm
    exact Or.inl ⟨Or.inr rfl, rfl⟩
  | attached =>
    unfold parseAttach at hm
    split at hm <;> cases hm
    · exact Or.inl ⟨Or.inl rfl, rfl⟩
    · exact Or.inr rfl
  | @helloReply _ _ _ response _ => cases response <;> cases hm
  | lsaUpdate => unfold parseLsaUpdate at hm; simp only at hm; split at hm <;> cases hm
  | _ => cases hm

/-- Only an answer, or the end of the stream, takes `attach` from its wait. -/
theorem did_attachSent {r : Router} {ev : Event} {e : Effect} (h : Did r ev e) {link : Link}
    (ht : r.terminal = .attachSent link) :
    (e.router.terminal = .attachSent link ∧ ∀ response, ev ≠ .read response) ∨
      ∃ response, ev = .read response ∧ e.router = r.attachReply link response := by
  cases h with
  | @attachReply link' response ht' =>
    rw [ht] at ht'
    cases ht'
    exact Or.inr ⟨response, rfl, rfl⟩
  | helloReply ht' => rw [ht] at ht'; cases ht'
  | hello => unfold parseHello; split <;> exact Or.inl ⟨ht, by simp⟩
  | respond => exact Or.inl ⟨ht, by simp⟩
  | attached => unfold parseAttach; split <;> exact Or.inl ⟨ht, by simp⟩
  | disconnected => exact Or.inl ⟨ht, by simp⟩
  | lsaUpdate => unfold parseLsaUpdate; simp only; split <;> exact Or.inl ⟨ht, by simp⟩
  | ignored => exact Or.inl ⟨ht, by simp⟩
  | _ => simp_all

/-- A link that is accepted is inserted next. -/
theorem did_attachAccepted {r : Router} {ev : Event} {e : Effect} (h : Did r ev e) {link : Link}
    (ht : r.terminal = .attachAccepted link) :
    (e.router.terminal = .attachAccepted link ∧ ∀ connect, ev ≠ .advance connect) ∨
      ∃ connect, ev = .advance connect ∧ e.router.terminal = .ready := by
  cases h with
  | attachInsert => exact Or.inr ⟨_, rfl, rfl⟩
  | hello => unfold parseHello; split <;> exact Or.inl ⟨ht, by simp⟩
  | respond => exact Or.inl ⟨ht, by simp⟩
  | attached => unfold parseAttach; split <;> exact Or.inl ⟨ht, by simp⟩
  | disconnected => exact Or.inl ⟨ht, by simp⟩
  | lsaUpdate => unfold parseLsaUpdate; simp only; split <;> exact Or.inl ⟨ht, by simp⟩
  | ignored => exact Or.inl ⟨ht, by simp⟩
  | _ => simp_all

theorem did_not_exited {r : Router} {ev : Event} {e : Effect} (h : Did r ev e) :
    r.terminal ≠ .exited := by
  cases h <;> simp_all

end Router

/-! ## One router acts -/

namespace Network

/-- The event that an action is for the router at a port. -/
inductive Offers (n : Network) : Action → Int16 → Router → Router.Event → Prop
  | command {p : Int16} {r : Router} {c : Command} : Offers n (.command p c) p r (.command c)
  | advance {p : Int16} {r : Router} : Offers n (.advance p) p r (.advance n.connect)
  | read {p : Int16} {r : Router} {l : Link} {k : Connection} {msg : SOSPFPacket}
      {rest : List SOSPFPacket} : r.waitsOn = some l → n.conns[l.client.conn]? = some k →
      k.toClient = msg :: rest → Offers n (.read p) p r (.read (some msg))
  | eof {p : Int16} {r : Router} {l : Link} {k : Connection} : r.waitsOn = some l →
      n.conns[l.client.conn]? = some k → k.toClient = [] → n.running k.server = false →
      Offers n (.read p) p r (.read none)
  | handle {c : Nat} {r : Router} {k : Connection} {msg : SOSPFPacket} {rest : List SOSPFPacket} :
      n.conns[c]? = some k → k.toServer = msg :: rest → k.handler = .idle →
      Offers n (.deliver c) k.server r (.handle n.connect msg)
  | respond {c i : Nat} {r : Router} {k : Connection} {msg : SOSPFPacket}
      {rest : List SOSPFPacket} : n.conns[c]? = some k → k.toServer = msg :: rest →
      k.handler = .awaitTwoWay i → Offers n (.deliver c) k.server r (.respond i msg)

/-- The event reads an answer from the connection. -/
def readsFrom (r : Router) (c : Nat) : Router.Event → Bool
  | .read (some _) => r.waitsOn.any (·.client.conn = c)
  | _ => false

/-- A connection after an action: a packet may be taken from either end, and
what the threads send is at the other. -/
def after (a : Action) (r : Router) (ev : Router.Event) (e : Effect) (c : Nat) (k : Connection) :
    Connection :=
  { k with
    toServer := (if a = .deliver c then k.toServer.tail else k.toServer) ++ sendsTo c e.sends
    toClient := (if readsFrom r c ev then k.toClient.tail else k.toClient) ++
      if a = .deliver c then e.reply.toList else []
    handler := if a = .deliver c then e.handler else k.handler }

/-- The router at `p` does `e`, and the network follows. -/
structure Acted (n : Network) (a : Action) (p : Int16) (r : Router) (ev : Router.Event)
    (e : Effect) (n' : Network) : Prop where
  router : n.routers p = some r
  did : r.Did ev e
  offers : n.Offers a p r ev
  routers : n'.routers = Function.update n.routers p (some e.router)
  conns : ∀ c : Nat, n'.conns[c]? = (n.opened p e)[c]?.map (after a r ev e c)

/-- The packet at the head of the connection is lost. -/
structure Lost (n : Network) (c : Nat) (k : Connection) (n' : Network) : Prop where
  conn : n.conns[c]? = some k
  ended : n.running k.server = false
  routers : n'.routers = n.routers
  conns : ∀ i : Nat, n'.conns[i]? =
    n.conns[i]?.map fun k => if c = i then { k with toServer := k.toServer.tail } else k

theorem getElem?_setConn {n : Network} {c : Nat} {k k' : Connection} (hk : n.conns[c]? = some k)
    (i : Nat) : (n.setConn c k').conns[i]? = n.conns[i]?.map fun x => if c = i then k' else x := by
  simp only [setConn, List.getElem?_set]
  by_cases hc : c = i
  · subst hc
    obtain ⟨hlt, -⟩ := List.getElem?_eq_some_iff.mp hk
    simp [hlt]
  · simp [hc]

/-- The connections after a thread has run, when no packet was taken. -/
theorem acted_conns {n : Network} {a : Action} {p : Int16} {r : Router} {ev : Router.Event}
    {e : Effect} (ha : ∀ c, a ≠ .deliver c) (hev : ∀ c, readsFrom r c ev = false) (c : Nat) :
    (n.act p e).conns[c]? = (n.opened p e)[c]?.map (after a r ev e c) := by
  rw [act_conns]
  congr 1
  funext k
  simp [after, ha c, hev c]

theorem opened_setConn {n : Network} {c : Nat} {k k' : Connection} (hk : n.conns[c]? = some k)
    (p : Int16) (e : Effect) (i : Nat) :
    ((n.setConn c k').opened p e)[i]? =
      (n.opened p e)[i]?.map fun x => if c = i then k' else x := by
  obtain ⟨hlt, -⟩ := List.getElem?_eq_some_iff.mp hk
  unfold opened
  split
  · by_cases hi : i < n.conns.length
    · rw [List.getElem?_append_left (by simpa [setConn] using hi), List.getElem?_append_left hi,
        getElem?_setConn hk]
    · have hne : c ≠ i := by omega
      rw [List.getElem?_append_right (by simpa [setConn] using hi),
        List.getElem?_append_right (by omega)]
      simp [setConn, hne]
  · exact getElem?_setConn hk i

theorem opened_of_conn {n : Network} {c : Nat} {k : Connection} (hk : n.conns[c]? = some k)
    (p : Int16) (e : Effect) : (n.opened p e)[c]? = some k := by
  obtain ⟨hlt, -⟩ := List.getElem?_eq_some_iff.mp hk
  unfold opened
  split
  · rwa [List.getElem?_append_left hlt]
  · exact hk

theorem opened_cases {n : Network} {p : Int16} {e : Effect} {c : Nat} {k : Connection}
    (h : (n.opened p e)[c]? = some k) :
    n.conns[c]? = some k ∨
      c = n.conns.length ∧ e.opens = some k.server ∧ k = { client := p, server := k.server } := by
  unfold opened at h
  split at h
  · rename_i q hq
    by_cases hc : c < n.conns.length
    · rw [List.getElem?_append_left hc] at h
      exact Or.inl h
    · rw [List.getElem?_append_right (by omega), List.getElem?_singleton] at h
      split at h
      · cases h
        exact Or.inr ⟨by omega, hq, rfl⟩
      · cases h
  · exact Or.inl h

/-- A step is the act of one router, or the loss of a packet. -/
theorem step_acted {n n' : Network} {a : Action} (h : n.step a = some n') :
    (∃ p r ev e, n.Acted a p r ev e n') ∨ ∃ c k, a = .deliver c ∧ n.Lost c k n' := by
  cases step_stepped h with
  | @command p c r e hr hd =>
    exact Or.inl ⟨p, r, _, e, hr, hd, .command, rfl, acted_conns (by simp) (fun _ => rfl)⟩
  | @advance p r e hr hd =>
    exact Or.inl ⟨p, r, _, e, hr, hd, .advance, rfl, acted_conns (by simp) (fun _ => rfl)⟩
  | @eof p r e l k hr hl hk hq hrun hd =>
    exact Or.inl ⟨p, r, _, e, hr, hd, .eof hl hk hq hrun, rfl, acted_conns (by simp) (fun _ => rfl)⟩
  | @read p r e l k msg rest hr hl hk hq hd =>
    refine Or.inl ⟨p, r, _, e, hr, hd, .read hl hk hq, rfl, fun c => ?_⟩
    rw [act_conns, opened_setConn hk, Option.map_map]
    cases hc : (n.opened p e)[c]? with
    | none => rfl
    | some k1 =>
      by_cases hi : l.client.conn = c
      · subst hi
        rw [opened_of_conn hk] at hc
        cases hc
        simp [after, readsFrom, hl, hq]
      · simp [after, readsFrom, hl, hi]
  | @lost c k msg rest hk hq hrun =>
    refine Or.inr ⟨c, k, rfl, hk, hrun, rfl, fun i => ?_⟩
    rw [getElem?_setConn hk]
    by_cases hc : c = i
    · subst hc
      simp [hk, hq]
    · simp [hc]
  | @handle c k msg rest r ev e hk hq hrun hr hev hd =>
    refine Or.inl ⟨k.server, r, ev, e, hr, hd, ?_, rfl, fun i => ?_⟩
    · cases hh : k.handler with
      | idle =>
        rw [hh] at hev
        cases hev
        exact .handle hk hq hh
      | awaitTwoWay j =>
        rw [hh] at hev
        cases hev
        exact .respond hk hq hh
      | dead =>
        rw [hh] at hev
        cases hev
    · have hreads : readsFrom r i ev = false := by
        cases hh : k.handler <;> rw [hh] at hev <;> cases hev <;> rfl
      simp only [answer, List.getElem?_modify]
      rw [act_conns, opened_setConn hk, Option.map_map]
      cases hc : (n.opened k.server e)[i]? with
      | none => rfl
      | some k1 =>
        by_cases hi : c = i
        · subst hi
          rw [opened_of_conn hk] at hc
          cases hc
          simp [after, hreads, hq]
        · simp [after, hreads, hi]

/-! ## What an act leads to -/

section acted

variable {n n' : Network} {a : Action} {p : Int16} {r : Router} {ev : Router.Event} {e : Effect}

theorem Acted.router_cases (h : n.Acted a p r ev e n') {q : Int16} {r' : Router}
    (hq : n'.routers q = some r') : q = p ∧ r' = e.router ∨ q ≠ p ∧ n.routers q = some r' := by
  rw [h.routers] at hq
  by_cases hp : q = p
  · subst hp
    rw [Function.update_self] at hq
    exact Or.inl ⟨rfl, (Option.some.inj hq).symm⟩
  · rw [Function.update_of_ne hp] at hq
    exact Or.inr ⟨hp, hq⟩

theorem Acted.router_self (h : n.Acted a p r ev e n') : n'.routers p = some e.router := by
  rw [h.routers, Function.update_self]

theorem Acted.router_kept (h : n.Acted a p r ev e n') {q : Int16} {r' : Router}
    (hq : n.routers q = some r') : ∃ r'', n'.routers q = some r'' ∧ r''.rd = r'.rd := by
  by_cases hp : q = p
  · subst hp
    rw [h.router] at hq
    cases hq
    exact ⟨_, h.router_self, Router.did_rd h.did⟩
  · exact ⟨r', by rw [h.routers, Function.update_of_ne hp, hq], rfl⟩

theorem Acted.ip_kept (h : n.Acted a p r ev e n') {q : Int16} {r0 : Router}
    (hr0 : n.routers q = some r0) : ∃ r', n'.routers q = some r' ∧ r'.ip = r0.ip := by
  obtain ⟨r', hr', hrd⟩ := h.router_kept hr0
  exact ⟨r', hr', by rw [Router.ip, hrd, Router.ip]⟩

theorem Acted.conn_kept (h : n.Acted a p r ev e n') {c : Nat} {k : Connection}
    (hk : n.conns[c]? = some k) : n'.conns[c]? = some (after a r ev e c k) := by
  rw [h.conns, opened_of_conn hk]
  rfl

theorem Acted.conn_opened (h : n.Acted a p r ev e n') {q : Int16} (ho : e.opens = some q) :
    n'.conns[n.conns.length]? =
      some (after a r ev e n.conns.length { client := p, server := q }) := by
  rw [h.conns]
  simp [opened, ho]

theorem Acted.conn_cases (h : n.Acted a p r ev e n') {c : Nat} {k' : Connection}
    (hk' : n'.conns[c]? = some k') : ∃ k, k' = after a r ev e c k ∧
      (n.conns[c]? = some k ∨
        c = n.conns.length ∧ e.opens = some k.server ∧ k = { client := p, server := k.server }) := by
  rw [h.conns] at hk'
  obtain ⟨k, hk, rfl⟩ := Option.map_eq_some_iff.mp hk'
  exact ⟨k, rfl, opened_cases hk⟩

theorem mem_toServer_after {c : Nat} {k : Connection} {m : SOSPFPacket}
    (h : m ∈ (after a r ev e c k).toServer) : m ∈ k.toServer ∨ (c, m) ∈ e.sends := by
  rcases List.mem_append.mp h with h1 | h1
  · split at h1
    · exact Or.inl (List.mem_of_mem_tail h1)
    · exact Or.inl h1
  · exact Or.inr (mem_sendsTo.mp h1)

theorem mem_toClient_after {c : Nat} {k : Connection} {m : SOSPFPacket}
    (h : m ∈ (after a r ev e c k).toClient) :
    m ∈ k.toClient ∨ a = .deliver c ∧ e.reply = some m := by
  rcases List.mem_append.mp h with h1 | h1
  · split at h1
    · exact Or.inl (List.mem_of_mem_tail h1)
    · exact Or.inl h1
  · split at h1
    · rename_i ha
      exact Or.inr ⟨ha, by simpa using h1⟩
    · cases h1

theorem Offers.deliver {c : Nat} {k : Connection} (h : n.Offers (.deliver c) p r ev)
    (hk : n.conns[c]? = some k) : p = k.server ∧ k.toServer ≠ [] := by
  cases h with
  | handle hk' hq _ => rw [hk] at hk'; cases hk'; exact ⟨rfl, by simp [hq]⟩
  | respond hk' hq _ => rw [hk] at hk'; cases hk'; exact ⟨rfl, by simp [hq]⟩

/-- What is done with the packet at the head of the connection. -/
theorem Offers.taken {c : Nat} {k : Connection} {msg : SOSPFPacket} {rest : List SOSPFPacket}
    (h : n.Offers (.deliver c) p r ev) (hk : n.conns[c]? = some k) (hq : k.toServer = msg :: rest) :
    ev = .handle n.connect msg ∧ k.handler = .idle ∨
      ∃ i, ev = .respond i msg ∧ k.handler = .awaitTwoWay i := by
  cases h with
  | handle hk' hq' hidle =>
    rw [hk] at hk'
    cases hk'
    rw [hq] at hq'
    cases hq'
    exact Or.inl ⟨rfl, hidle⟩
  | respond hk' hq' hh =>
    rw [hk] at hk'
    cases hk'
    rw [hq] at hq'
    cases hq'
    exact Or.inr ⟨_, rfl, hh⟩

/-- The connection that a packet was taken from is an old one. -/
theorem Acted.taken_from (h : n.Acted a p r ev e n') {c : Nat} {k : Connection}
    (ha : a = .deliver c) (hk : n.conns[c]? = some k ∨ c = n.conns.length ∧
      e.opens = some k.server ∧ k = { client := p, server := k.server }) :
    n.conns[c]? = some k ∧ k.server = p := by
  subst ha
  rcases hk with hk | ⟨rfl, -, -⟩
  · exact ⟨hk, (h.offers.deliver hk).1.symm⟩
  · exfalso
    cases h.offers with
    | handle hk _ _ => simp at hk
    | respond hk _ _ => simp at hk

/-- A packet under way was under way before, on the same connection, or the
acting router has sent it. -/
theorem Acted.mem_toServer (h : n.Acted a p r ev e n') {c : Nat} {k' : Connection}
    (hk' : n'.conns[c]? = some k') {m : SOSPFPacket} (hm : m ∈ k'.toServer) :
    (∃ k, n.conns[c]? = some k ∧ k'.client = k.client ∧ k'.server = k.server ∧ m ∈ k.toServer) ∨
      (c, m) ∈ e.sends := by
  obtain ⟨k, rfl, hk⟩ := h.conn_cases hk'
  rcases mem_toServer_after hm with h1 | h1
  · rcases hk with hk | ⟨-, -, hk⟩
    · exact Or.inl ⟨k, hk, rfl, rfl, h1⟩
    · rw [hk] at h1
      cases h1
  · exact Or.inr h1

/-- An answer under way was under way before, or the acting router has given it. -/
theorem Acted.mem_toClient (h : n.Acted a p r ev e n') {c : Nat} {k' : Connection}
    (hk' : n'.conns[c]? = some k') {m : SOSPFPacket} (hm : m ∈ k'.toClient) :
    ∃ k, n.conns[c]? = some k ∧ k'.client = k.client ∧ k'.server = k.server ∧
      (m ∈ k.toClient ∨ a = .deliver c ∧ k.server = p ∧ e.reply = some m) := by
  obtain ⟨k, rfl, hk⟩ := h.conn_cases hk'
  rcases mem_toClient_after hm with h1 | ⟨ha, hreply⟩
  · rcases hk with hk | ⟨-, -, hk⟩
    · exact ⟨k, hk, rfl, rfl, Or.inl h1⟩
    · rw [hk] at h1
      cases h1
  · obtain ⟨hk0, hserver⟩ := h.taken_from ha hk
    exact ⟨k, hk0, rfl, rfl, Or.inr ⟨ha, hserver, hreply⟩⟩

theorem Acted.handled_update (h : n.Acted a p r ev e n') {connect : Int16 → Client}
    {msg : SOSPFPacket} (hev : ev = .handle connect msg) (ht : msg.sospfType = .LSAUPDATE) :
    e = r.parseLsaUpdate msg := by
  have hd := h.did
  subst hev
  cases hd with
  | lsaUpdate => rfl
  | hello _ ht' => rw [ht] at ht'; cases ht'
  | attached _ ht' => rw [ht] at ht'; cases ht'
  | disconnected _ ht' => rw [ht] at ht'; cases ht'
  | ignored _ _ _ _ ht' => exact absurd ht ht'

/-- A connection that nothing is sent on has no more packets than before. -/
theorem after_length_le {c : Nat} {k : Connection} (h : n.Offers a p r ev)
    (hk : n.conns[c]? = some k) (hs : ∀ m, (c, m) ∉ e.sends) :
    (after a r ev e c k).toServer.length + (after a r ev e c k).toClient.length ≤
      k.toServer.length + k.toClient.length := by
  have hnil : sendsTo c e.sends = [] :=
    List.eq_nil_iff_forall_not_mem.mpr fun m hm => hs m (mem_sendsTo.mp hm)
  have hreply : e.reply.toList.length ≤ 1 := by cases e.reply <;> simp
  have htail : (if readsFrom r c ev then k.toClient.tail else k.toClient).length ≤
      k.toClient.length := by split <;> simp
  by_cases ha : a = .deliver c
  · subst ha
    have hne := List.length_pos_of_ne_nil (h.deliver hk).2
    simp only [after, hnil, if_true, List.append_nil, List.length_tail, List.length_append]
    omega
  · simpa only [after, hnil, ha, if_false, List.append_nil, Nat.add_le_add_iff_left] using htail

theorem Acted.running_of_running (h : n.Acted a p r ev e n') {q : Int16}
    (hq : n'.running q = true) : n.running q = true := by
  by_cases hp : q = p
  · subst hp
    simpa [running, h.router] using Router.did_not_exited h.did
  · simpa only [running, h.routers, Function.update_of_ne hp] using hq

end acted

end Network
end socs.network
