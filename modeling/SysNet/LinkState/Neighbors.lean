-- Neighbors. In a run that keeps its links, a handshake leaves both ends of a
-- link with a status past IDLE, and a link in INIT has a handshake under way.
-- So when no packet is in flight, a link past IDLE is TWO-WAY at both ends.
import SysNet.LinkState.Copies
import SysNet.LinkState.Handshake

open runs

namespace socs.network

/-! ## One router -/

namespace Router

/-- How a port after an event came to be what it is. -/
inductive Became (r : Router) (ev : Event) (e : Effect) (l' : Link) : Prop
  | same : l' ∈ r.ports → Became r ev e l'
  | inserted : r.terminal = .attachAccepted l' → Became r ev e l'
  | accepted {connect : Int16 → Client} {msg : SOSPFPacket} : ev = .handle connect msg →
      l'.router2.status = .IDLE → Became r ev e l'
  | acked {j x : Nat} {l l0 : Link} {response : SOSPFPacket} : r.terminal = .helloSent j x l →
      ev = .read (some response) → response.sospfType = .HELLO_ACK → l0 ∈ r.ports →
      l0.key = l'.key → l0.client.conn = l.client.conn → l'.router2.status = .TWO_WAY →
      Became r ev e l'
  | greeted {connect : Int16 → Client} {msg : SOSPFPacket} : ev = .handle connect msg →
      l'.router2.status = .INIT → e.handler = .awaitTwoWay l'.client.conn → Became r ev e l'
  | answered {c : Nat} {msg : SOSPFPacket} {l0 : Link} : ev = .respond c msg →
      msg.sospfType = .HELLO_TWO_WAY → l0 ∈ r.ports → l0.key = l'.key → l0.client.conn = c →
      l'.router2.status = .TWO_WAY → Became r ev e l'

theorem mem_setStatus_key {r : Router} {c : Nat} {s : RouterStatus} {l' : Link}
    (h : l' ∈ (r.setStatus c s).ports) :
    l' ∈ r.ports ∨ ∃ l ∈ r.ports, l.key = l'.key ∧ l.client.conn = c ∧ l'.router2.status = s := by
  obtain ⟨l, hl, rfl⟩ := List.mem_map.mp h
  split
  · rename_i hc
    exact Or.inr ⟨l, hl, rfl, hc, rfl⟩
  · exact Or.inl hl

theorem did_became {r : Router} {ev : Event} {e : Effect} (h : Did r ev e) (hkeeps : keepsLinks ev)
    {l' : Link} (hl' : l' ∈ e.router.ports) : Became r ev e l' := by
  cases h with
  | disconnect => exact hkeeps.elim
  | quit => exact hkeeps.elim
  | disconnected _ ht => exact absurd ht hkeeps
  | attachInsert ht =>
    rcases List.mem_append.mp hl' with h1 | h1
    · exact .same h1
    · rw [List.mem_singleton] at h1
      subst h1
      exact .inserted ht
  | attached =>
    unfold parseAttach at hl'
    split at hl'
    · rcases List.mem_append.mp hl' with h1 | h1
      · exact .same h1
      · rw [List.mem_singleton] at h1
        subst h1
        exact .accepted rfl rfl
    · exact .same hl'
  | @helloReply j x l response hr =>
    cases response with
    | none => exact .same hl'
    | some msg =>
      simp only [helloReply] at hl'
      split at hl'
      · rename_i hack
        rcases mem_setStatus_key hl' with h1 | ⟨l0, hl0, hkey, hc, hs⟩
        · exact .same h1
        · exact .acked hr rfl hack hl0 hkey hc hs
      · exact .same hl'
  | @hello connect msg _ _ =>
    unfold parseHello at hl' ⊢
    split at hl'
    · exact .same hl'
    · rename_i lf hfind
      rcases mem_setStatus_key hl' with h1 | ⟨l0, hl0, hkey, hc, hs⟩
      · exact .same h1
      · have hclient : l0.client = l'.client := congrArg Prod.fst hkey
        refine .greeted rfl hs ?_
        rw [← hclient, hc]
  | @respond c msg _ =>
    simp only [parseResponse] at hl'
    split at hl'
    · rename_i htwo
      rcases mem_setStatus_key hl' with h1 | ⟨l0, hl0, hkey, hc, hs⟩
      · exact .same h1
      · exact .answered rfl htwo hl0 hkey hc hs
    · exact .same hl'
  | @lsaUpdate _ msg _ _ =>
    rw [(r.parseLsaUpdate_ports msg).1] at hl'
    exact .same hl'
  | _ => exact .same hl'

/-- The link of an `attach` under way is IDLE. -/
theorem did_pending {r : Router} {ev : Event} {e : Effect} (h : Did r ev e) {l : Link}
    (hl : l ∈ e.router.terminal.pending) :
    l ∈ r.terminal.pending ∨ l.router2.status = .IDLE := by
  have hfinish : ∀ (r1 : Router) (out : List (Client × SOSPFPacket)),
      l ∉ (r1.finish out).terminal.pending := by
    intro r1 out
    rcases r1.finish_terminal out with h | h <;> rw [h] <;> exact List.not_mem_nil
  cases h with
  | typed _ ht => rcases ht with rfl | rfl | rfl <;> cases hl
  | disconnect => exact absurd hl (hfinish _ _)
  | startEnd => exact absurd hl (hfinish _ _)
  | @attachSend connect a s p _ =>
    unfold attachSend at hl
    simp only at hl
    split at hl
    · rw [Terminal.pending, List.mem_singleton] at hl
      subst hl
      exact Or.inr rfl
    · cases hl
  | startSkip _ ht => rcases ht with rfl | rfl <;> cases hl
  | @attachReply link response hr =>
    left
    rw [hr]
    cases response with
    | none => cases hl
    | some msg =>
      simp only [attachReply, attachAnswer] at hl
      split at hl
      · exact hl
      · cases hl
  | @helloReply _ _ _ response _ => cases response <;> cases hl
  | hello => unfold parseHello at hl; split at hl <;> exact Or.inl hl
  | respond => exact Or.inl hl
  | attached => unfold parseAttach at hl; split at hl <;> exact Or.inl hl
  | disconnected => exact Or.inl hl
  | @lsaUpdate _ msg _ _ =>
    rw [(r.parseLsaUpdate_ports msg).2.2.1] at hl
    exact Or.inl hl
  | ignored => exact Or.inl hl
  | _ => cases hl

/-- What a router does with a HELLO from a neighbor. -/
structure Greets (r : Router) (ev : Event) (e : Effect) (msg : SOSPFPacket) (l : Link) : Prop where
  event : ∃ connect, ev = .handle connect msg
  type : msg.sospfType = .HELLO
  port : l ∈ r.ports
  name : l.router2.simulatedIPAddress = msg.routerID
  reply : e.reply = some (r.helloACK msg)
  handler : e.handler = .awaitTwoWay l.client.conn
  ports : e.router.ports = (r.setStatus l.client.conn .INIT).ports

theorem greets_of_parseHello (r : Router) (connect : Int16 → Client) {msg : SOSPFPacket}
    (ht : msg.sospfType = .HELLO) :
    (∃ l, Greets r (.handle connect msg) (r.parseHello msg) msg l) ∨
      (r.parseHello msg).handler = .dead ∧ (r.parseHello msg).reply = none := by
  unfold parseHello
  split
  · exact Or.inr ⟨rfl, rfl⟩
  · rename_i l hfind
    left
    refine ⟨l, ⟨connect, rfl⟩, ht, List.mem_of_find?_eq_some hfind, ?_, rfl, rfl, rfl⟩
    simpa using List.find?_some hfind

theorem did_handler {r : Router} {ev : Event} {e : Effect} (h : Did r ev e) {i : Nat}
    (hi : e.handler = .awaitTwoWay i) : ∃ msg l, Greets r ev e msg l ∧ l.client.conn = i := by
  cases h with
  | @hello connect msg _ ht =>
    rcases greets_of_parseHello r connect ht with ⟨l, hg⟩ | ⟨hd, -⟩
    · rw [hg.handler] at hi
      exact ⟨msg, l, hg, Handler.awaitTwoWay.inj hi⟩
    · rw [hd] at hi
      cases hi
  | @helloReply _ _ _ response _ => cases response <;> cases hi
  | attached => unfold parseAttach at hi; split at hi <;> cases hi
  | disconnected =>
    unfold parseDisconnect at hi
    simp only at hi
    split at hi <;> cases hi
  | lsaUpdate =>
    unfold parseLsaUpdate at hi
    simp only at hi
    split at hi
    · cases hi
    · split at hi <;> cases hi
  | _ => cases hi

theorem did_answer {r : Router} {ev : Event} {e : Effect} (h : Did r ev e) {m : SOSPFPacket}
    (hm : e.reply = some m) :
    (∃ msg l, Greets r ev e msg l ∧ m = r.helloACK msg) ∨
      ∃ connect msg, ev = .handle connect msg ∧ msg.sospfType = .ATTACH ∧
        m.sospfType ≠ .HELLO_ACK := by
  cases h with
  | @hello connect msg _ ht =>
    rcases greets_of_parseHello r connect ht with ⟨l, hg⟩ | ⟨-, hd⟩
    · rw [hg.reply] at hm
      exact Or.inl ⟨msg, l, hg, (Option.some.inj hm).symm⟩
    · rw [hd] at hm
      cases hm
  | @attached connect msg _ ht =>
    unfold parseAttach at hm
    split at hm <;> cases hm <;> exact Or.inr ⟨connect, msg, rfl, ht, fun hx => by cases hx⟩
  | @helloReply _ _ _ response _ => cases response <;> cases hm
  | lsaUpdate => unfold parseLsaUpdate at hm; simp only at hm; split at hm <;> cases hm
  | _ => cases hm

end Router

/-! ## The links of two routers -/

namespace Network

/-- The router at `p` has a link to the router at `q` with a status past IDLE. -/
def Linked (n : Network) (p q : Int16) : Prop :=
  ∃ r r', n.routers p = some r ∧ n.routers q = some r' ∧
    ∃ l ∈ r.ports, l.router2.simulatedIPAddress = r'.ip ∧ l.router2.status ≠ .IDLE

/-- The router at `p` has a TWO-WAY link to the router at `q`. -/
def TwoWay (n : Network) (p q : Int16) : Prop :=
  ∃ r r', n.routers p = some r ∧ n.routers q = some r' ∧
    ∃ l ∈ r.ports, l.router2.simulatedIPAddress = r'.ip ∧ l.router2.status = .TWO_WAY

/-- How far each handshake has come. -/
structure Greeted (n : Network) : Prop where
  alive : Alive n
  apart : Apart n
  fresh : ∀ p r, n.routers p = some r → ∀ l ∈ r.terminal.pending, l.router2.status = .IDLE
  /-- The request of a link and its answer are past. -/
  attached : ∀ p r, n.routers p = some r → ∀ l ∈ r.ports ++ r.terminal.accepted,
    ∀ k, n.conns[l.client.conn]? = some k →
      (∀ m ∈ k.toServer, m.sospfType ≠ .ATTACH) ∧ ∀ m ∈ k.toClient, m.sospfType = .HELLO_ACK
  /-- A HELLO goes over a port. -/
  calls : ∀ (c : Nat) k, n.conns[c]? = some k →
    ((∃ m ∈ k.toServer, m.sospfType = .HELLO) ∨ ∃ i, k.handler = .awaitTwoWay i) →
    ∃ r, n.routers k.client = some r ∧ ∃ l ∈ r.ports, l.client.conn = c
  acked : ∀ (c : Nat) k, n.conns[c]? = some k → ∀ m ∈ k.toClient, m.sospfType = .HELLO_ACK →
    n.Linked k.server k.client
  answered : ∀ (c : Nat) k, n.conns[c]? = some k → ∀ m ∈ k.toServer,
    m.sospfType = .HELLO_TWO_WAY → n.Linked k.client k.server
  awaited : ∀ (c : Nat) k i, n.conns[c]? = some k → k.handler = .awaitTwoWay i →
    (k.toClient ≠ [] ∨ k.toServer ≠ []) ∧
      ∃ r r', n.routers k.server = some r ∧ n.routers k.client = some r' ∧
        ∃ l ∈ r.ports, l.client.conn = i ∧ l.router2.simulatedIPAddress = r'.ip
  /-- A link in INIT has a handler that waits for the HELLO-TWO-WAY. -/
  opening : ∀ p r, n.routers p = some r → ∀ l ∈ r.ports, l.router2.status = .INIT →
    ∃ (c : Nat) (k : Connection), n.conns[c]? = some k ∧ k.server = p ∧
      k.handler = .awaitTwoWay l.client.conn
  met : ∀ p q, n.TwoWay p q → n.Linked q p

theorem greeted_init {conf : Int16 → Option Configuration} (hconf : DistinctIPs conf) :
    Greeted (init conf) := by
  have hnew : ∀ p r, (init conf).routers p = some r → r.ports = [] ∧ r.terminal = .ready := by
    intro p r hr
    obtain ⟨c, -, rfl⟩ := Option.map_eq_some_iff.mp hr
    exact ⟨rfl, rfl⟩
  have hconns : ∀ (c : Nat) k, (init conf).conns[c]? ≠ some k := by simp [init]
  refine ⟨(copied_init hconf).alive, apart_init hconf, ?_, ?_, ?_, ?_, ?_, ?_, ?_, ?_⟩
  · intro p r hr l hl
    rw [(hnew p r hr).2] at hl
    cases hl
  · intro p r hr l hl
    rw [(hnew p r hr).1, (hnew p r hr).2] at hl
    cases hl
  · exact fun c k hk => absurd hk (hconns c k)
  · exact fun c k hk => absurd hk (hconns c k)
  · exact fun c k hk => absurd hk (hconns c k)
  · exact fun c k i hk => absurd hk (hconns c k)
  · intro p r hr l hl
    rw [(hnew p r hr).1] at hl
    cases hl
  · rintro p q ⟨r, r', hr, -, l, hl, -⟩
    rw [(hnew p r hr).1] at hl
    cases hl

section greeted

variable {n n' : Network} {a : Action} {p : Int16} {r : Router} {ev : Router.Event} {e : Effect}

/-- A port is there after the step, with its key. -/
theorem Acted.port_kept (h : n.Acted a p r ev e n') (hkeeps : Router.keepsLinks ev) {q : Int16}
    {r0 : Router} (hr0 : n.routers q = some r0) {l : Link} (hl : l ∈ r0.ports) :
    ∃ r', n'.routers q = some r' ∧ r'.ip = r0.ip ∧ ∃ l' ∈ r'.ports, l'.key = l.key ∧
      (l.router2.status ≠ .IDLE → l'.router2.status ≠ .IDLE) := by
  by_cases hq : q = p
  · subst hq
    rw [h.router] at hr0
    cases hr0
    exact ⟨e.router, h.router_self, Router.did_ip h.did, Router.did_kept h.did hkeeps hl⟩
  · exact ⟨r0, by rw [h.routers, Function.update_of_ne hq, hr0], rfl, l, hl, rfl, id⟩

theorem Linked.acted {q q' : Int16} (hl : n.Linked q q') (h : n.Acted a p r ev e n')
    (hkeeps : Router.keepsLinks ev) : n'.Linked q q' := by
  obtain ⟨r1, r2, hr1, hr2, l, hl, hip, hs⟩ := hl
  obtain ⟨r1', hr1', -, l', hl', hkey, hs'⟩ := h.port_kept hkeeps hr1 hl
  obtain ⟨r2', hr2', hip2⟩ := h.ip_kept hr2
  refine ⟨r1', r2', hr1', hr2', l', hl', ?_, hs' hs⟩
  have hname : l'.router2.simulatedIPAddress = l.router2.simulatedIPAddress :=
    congrArg Prod.snd hkey
  rw [hname, hip, hip2]

/-- The connection that a HELLO came over, and its sender. -/
theorem Greeted.greets_from (hg : Greeted n) (h : n.Acted a p r ev e n') {msg : SOSPFPacket}
    {l : Link} (hgreets : r.Greets ev e msg l) :
    ∃ (c : Nat) (k : Connection) (r0 : Router), a = .deliver c ∧ n.conns[c]? = some k ∧
      k.server = p ∧ n.routers k.client = some r0 ∧ msg ∈ k.toServer ∧
      l.router2.simulatedIPAddress = r0.ip := by
  obtain ⟨connect, rfl⟩ := hgreets.event
  cases h.offers with
  | @handle c _ k _ rest hk hq _ =>
    have hm : msg ∈ k.toServer := by simp [hq]
    obtain ⟨r0, hr0, hip, -⟩ := hg.alive.wired.sent c k hk msg hm
    exact ⟨c, k, r0, rfl, hk, rfl, hr0, hm, by rw [hgreets.name, hip]⟩

theorem readsFrom_cases {c : Nat} (h : readsFrom r c ev = true) :
    ∃ msg l, ev = .read (some msg) ∧ r.waitsOn = some l ∧ l.client.conn = c := by
  unfold readsFrom at h
  split at h
  · rename_i msg
    cases hw : r.waitsOn with
    | none => simp [hw] at h
    | some l => exact ⟨msg, l, rfl, rfl, by simpa [hw] using h⟩
  · cases h

/-- A handler that waits for the HELLO-TWO-WAY has just begun to, or waited
before. -/
theorem Acted.awaits (h : n.Acted a p r ev e n') {c i : Nat} {k' : Connection}
    (hk' : n'.conns[c]? = some k') (hi : k'.handler = .awaitTwoWay i) :
    (∃ k, n.conns[c]? = some k ∧ k'.client = k.client ∧ k' = after a r ev e c k ∧
      a = .deliver c ∧ e.handler = .awaitTwoWay i) ∨
    ∃ k, n.conns[c]? = some k ∧ k'.client = k.client ∧ k' = after a r ev e c k ∧
      a ≠ .deliver c ∧ k.handler = .awaitTwoWay i := by
  obtain ⟨k, rfl, hk⟩ := h.conn_cases hk'
  by_cases ha : a = .deliver c
  · have hhandler : e.handler = .awaitTwoWay i := by simpa only [after, ha, if_true] using hi
    exact Or.inl ⟨k, (h.taken_from ha hk).1, rfl, rfl, ha, hhandler⟩
  · have hhandler : k.handler = .awaitTwoWay i := by simpa only [after, ha, if_false] using hi
    rcases hk with hk | ⟨-, -, hk⟩
    · exact Or.inr ⟨k, hk, rfl, rfl, ha, hhandler⟩
    · rw [hk] at hhandler
      cases hhandler

theorem Greeted.fresh_acted (hg : Greeted n) (h : n.Acted a p r ev e n') {q : Int16} {r' : Router}
    (hr' : n'.routers q = some r') {l : Link} (hl : l ∈ r'.terminal.pending) :
    l.router2.status = .IDLE := by
  rcases h.router_cases hr' with ⟨rfl, rfl⟩ | ⟨-, hr0⟩
  · rcases Router.did_pending h.did hl with hold | hidle
    · exact hg.fresh q r h.router l hold
    · exact hidle
  · exact hg.fresh q r' hr0 l hl

/-- The request of a link does not come back. -/
theorem Acted.attached_after (h : n.Acted a p r ev e n')
    (hkeeps : Router.keepsLinks ev) {c : Nat} {k : Connection} (hk : n.conns[c]? = some k)
    (hold : (∀ m ∈ k.toServer, m.sospfType ≠ .ATTACH) ∧ ∀ m ∈ k.toClient, m.sospfType = .HELLO_ACK) :
    (∀ m ∈ (after a r ev e c k).toServer, m.sospfType ≠ .ATTACH) ∧
      ∀ m ∈ (after a r ev e c k).toClient, m.sospfType = .HELLO_ACK := by
  constructor
  · intro m hm
    rcases mem_toServer_after hm with h1 | h1
    · exact hold.1 m h1
    · cases Router.did_sent h.did hkeeps h1 with
      | attach hev _ hc _ _ _ =>
        subst hev
        cases h.offers
        have hlt := (List.getElem?_eq_some_iff.mp hk).1
        rw [← hc] at hlt
        exact absurd hlt (Nat.lt_irrefl _)
      | hello _ _ ht => rw [ht]; intro hx; cases hx
      | twoWay _ _ _ _ ht => rw [ht]; intro hx; cases hx
      | update _ _ _ ht => rw [ht]; intro hx; cases hx
  · intro m hm
    rcases mem_toClient_after hm with h1 | ⟨ha, hreply⟩
    · exact hold.2 m h1
    · rcases Router.did_answer h.did hreply with ⟨msg, l, -, rfl⟩ | ⟨connect, msg, hev, ht, -⟩
      · rfl
      · subst ha hev
        cases h.offers with
        | @handle _ _ k0 _ rest hk0 hq _ =>
          rw [hk] at hk0
          cases hk0
          exact absurd ht (hold.1 msg (by simp [hq]))

theorem Greeted.attached_acted (hg : Greeted n) (h : n.Acted a p r ev e n')
    (hkeeps : Router.keepsLinks ev) {q : Int16} {r' : Router} (hr' : n'.routers q = some r')
    {l : Link} (hl : l ∈ r'.ports ++ r'.terminal.accepted) {k' : Connection}
    (hk' : n'.conns[l.client.conn]? = some k') :
    (∀ m ∈ k'.toServer, m.sospfType ≠ .ATTACH) ∧ ∀ m ∈ k'.toClient, m.sospfType = .HELLO_ACK := by
  have hold : ∀ {q : Int16} {r0 : Router} {l0 : Link}, n.routers q = some r0 →
      l0 ∈ r0.ports ++ r0.terminal.accepted → l0.client = l.client →
      (∀ m ∈ k'.toServer, m.sospfType ≠ .ATTACH) ∧ ∀ m ∈ k'.toClient, m.sospfType = .HELLO_ACK := by
    intro q r0 l0 hr0 hl0 hclient
    obtain ⟨k, r1, hk, -⟩ := hg.alive.wired.ends q r0 hr0 l0 hl0
    have hatt := hg.attached q r0 hr0 l0 hl0 k hk
    rw [hclient] at hk
    rw [h.conn_kept hk] at hk'
    cases hk'
    exact h.attached_after hkeeps hk hatt
  rcases h.router_cases hr' with ⟨rfl, rfl⟩ | ⟨-, hr0⟩
  · rcases List.mem_append.mp hl with hport | hacc
    · rcases Router.did_ports h.did with hsub | ⟨link, ht, hp, -, -⟩ |
        ⟨connect, msg, link, hev, htype, -, ho, hp, hclient, -⟩
      · obtain ⟨l0, hl0, hkey⟩ := List.mem_map.mp (hsub.subset (List.mem_map_of_mem hport))
        exact hold h.router (List.mem_append_left _ hl0) (congrArg Prod.fst hkey)
      · rw [hp] at hport
        rcases List.mem_append.mp hport with h1 | h1
        · exact hold h.router (List.mem_append_left _ h1) rfl
        · rw [List.mem_singleton] at h1
          subst h1
          exact hold h.router (List.mem_append_right _ (by simp [ht, Terminal.accepted])) rfl
      · rw [hp] at hport
        rcases List.mem_append.mp hport with h1 | h1
        · exact hold h.router (List.mem_append_left _ h1) rfl
        · -- the link of a request just accepted has a connection of its own
          rw [List.mem_singleton] at h1
          subst h1 hev
          have hconnect : connect = n.connect := by
            cases h.offers
            rfl
          rw [hclient, hconnect, show (n.connect _).conn = n.conns.length from rfl,
            h.conn_opened ho] at hk'
          cases hk'
          constructor
          · intro m hm
            rcases mem_toServer_after hm with h1 | h1
            · cases h1
            · cases Router.did_sent h.did hkeeps h1 with
              | attach hev => cases hev
              | hello _ _ ht => rw [ht]; intro hx; cases hx
              | twoWay _ _ _ _ ht => rw [ht]; intro hx; cases hx
              | update _ _ _ ht => rw [ht]; intro hx; cases hx
          · intro m hm
            rcases mem_toClient_after hm with h1 | ⟨ha, -⟩
            · cases h1
            · have hnone := (h.taken_from (k := { client := q, server := msg.srcProcessPort }) ha
                (Or.inr ⟨rfl, ho, rfl⟩)).1
              simp at hnone
    · rcases Router.did_terminal h.did with ht | ht | ⟨_, _, _, _, link, -, -, ht, -⟩ |
        ⟨link, msg, hev, ht, ht', -⟩ | ⟨i, m, l', ht, -, -⟩
      · rw [ht] at hacc
        exact hold h.router (List.mem_append_right _ hacc) rfl
      · have hmem := accepted_subset_link _ hacc
        rw [ht] at hmem
        cases hmem
      · rw [ht] at hacc
        cases hacc
      · -- the answer was the only packet of its connection
        rw [ht'] at hacc
        simp only [Terminal.accepted, List.mem_singleton] at hacc
        subst hacc hev
        have hd := h.did
        cases h.offers with
        | @read _ _ l0 k _ rest hwait hk hq =>
          simp only [Router.waitsOn, ht, Option.some.injEq] at hwait
          subst hwait
          have hone := hg.alive.wired.waiting q r l h.router ht k hk
          rw [h.conn_kept hk] at hk'
          cases hk'
          simp only [hq, List.length_cons] at hone
          have hserver : k.toServer = [] := List.length_eq_zero_iff.mp (by omega)
          have hrest : rest = [] := List.length_eq_zero_iff.mp (by omega)
          have hsends : e.sends = [] := by
            cases hd with
            | attachReply => rfl
            | helloReply ht2 => rw [ht] at ht2; cases ht2
          have hreads : readsFrom r l.client.conn (.read (some msg)) = true := by
            simp [readsFrom, Router.waitsOn, ht]
          simp [after, hserver, hsends, sendsTo, hreads, hq, hrest]
      · rw [ht] at hacc
        cases hacc
  · exact hold hr0 hl rfl

theorem Greeted.calls_acted (hg : Greeted n) (h : n.Acted a p r ev e n')
    (hkeeps : Router.keepsLinks ev) {c : Nat} {k' : Connection} (hk' : n'.conns[c]? = some k')
    (hcall : (∃ m ∈ k'.toServer, m.sospfType = .HELLO) ∨ ∃ i, k'.handler = .awaitTwoWay i) :
    ∃ r, n'.routers k'.client = some r ∧ ∃ l ∈ r.ports, l.client.conn = c := by
  have hport : ∀ {q : Int16} {r0 : Router} {l : Link}, n.routers q = some r0 → l ∈ r0.ports →
      l.client.conn = c → ∃ r, n'.routers q = some r ∧ ∃ l ∈ r.ports, l.client.conn = c := by
    intro q r0 l hr0 hl hc
    obtain ⟨r1, hr1, -, l1, hl1, hkey, -⟩ := h.port_kept hkeeps hr0 hl
    have hclient : l1.client = l.client := congrArg Prod.fst hkey
    exact ⟨r1, hr1, l1, hl1, by rw [hclient, hc]⟩
  have hold : ∀ k, n.conns[c]? = some k →
      ((∃ m ∈ k.toServer, m.sospfType = .HELLO) ∨ ∃ i, k.handler = .awaitTwoWay i) →
      ∃ r, n'.routers k.client = some r ∧ ∃ l ∈ r.ports, l.client.conn = c := by
    intro k hk hcall0
    obtain ⟨r0, hr0, l, hl, hc⟩ := hg.calls c k hk hcall0
    exact hport hr0 hl hc
  rcases hcall with ⟨m, hm, ht⟩ | ⟨i, hi⟩
  · rcases h.mem_toServer hk' hm with ⟨k, hk, hclient, -, h1⟩ | h1
    · rw [hclient]
      exact hold k hk (Or.inl ⟨m, h1, ht⟩)
    · rw [hg.alive.wired.sends_client h h1 hk']
      cases Router.did_sent h.did hkeeps h1 with
      | hello hl hc => exact hport h.router hl hc
      | attach _ _ _ _ _ ht' => rw [ht] at ht'; cases ht'
      | twoWay _ _ _ _ ht' => rw [ht] at ht'; cases ht'
      | update _ _ _ ht' => rw [ht] at ht'; cases ht'
  · rcases h.awaits hk' hi with ⟨k, hk, hclient, -, ha, hhandler⟩ | ⟨k, hk, hclient, -, -, hhandler⟩
    · obtain ⟨msg, l, hgreets, -⟩ := Router.did_handler h.did hhandler
      obtain ⟨c0, k0, r0, ha0, hk0, -, -, hm, -⟩ := hg.greets_from h hgreets
      rw [ha] at ha0
      cases ha0
      rw [hk] at hk0
      cases hk0
      rw [hclient]
      exact hold k hk (Or.inl ⟨msg, hm, hgreets.type⟩)
    · rw [hclient]
      exact hold k hk (Or.inr ⟨i, hhandler⟩)

/-- A router that has greeted a neighbor has a link to it past IDLE. -/
theorem Greeted.linked_of_greets (hg : Greeted n) (h : n.Acted a p r ev e n') {msg : SOSPFPacket}
    {l : Link} (hgreets : r.Greets ev e msg l) :
    ∃ (c : Nat) (k : Connection), a = .deliver c ∧ n.conns[c]? = some k ∧
      n'.Linked k.server k.client := by
  obtain ⟨c, k, r0, ha, hk, hserver, hr0, -, hname⟩ := hg.greets_from h hgreets
  obtain ⟨r1, hr1, hip⟩ := h.ip_kept hr0
  refine ⟨c, k, ha, hk, e.router, r1, by rw [hserver, h.router_self], hr1, ?_⟩
  rw [hgreets.ports]
  refine ⟨_, List.mem_map_of_mem hgreets.port, ?_⟩
  simp only [if_true]
  exact ⟨by rw [hname, hip], fun hx => by cases hx⟩

theorem Greeted.acked_acted (hg : Greeted n) (h : n.Acted a p r ev e n')
    (hkeeps : Router.keepsLinks ev) {c : Nat} {k' : Connection} (hk' : n'.conns[c]? = some k')
    {m : SOSPFPacket} (hm : m ∈ k'.toClient) (ht : m.sospfType = .HELLO_ACK) :
    n'.Linked k'.server k'.client := by
  obtain ⟨k, hk, hclient, hserver, h1 | ⟨ha, -, hreply⟩⟩ := h.mem_toClient hk' hm
  · rw [hclient, hserver]
    exact (hg.acked c k hk m h1 ht).acted h hkeeps
  · rcases Router.did_answer h.did hreply with ⟨msg, l, hgreets, -⟩ | ⟨_, _, -, -, hne⟩
    · obtain ⟨c0, k0, ha0, hk0, hlinked⟩ := hg.linked_of_greets h hgreets
      rw [ha] at ha0
      cases ha0
      rw [hk] at hk0
      cases hk0
      rw [hclient, hserver]
      exact hlinked
    · exact absurd ht hne

theorem Greeted.answered_acted (hg : Greeted n) (h : n.Acted a p r ev e n')
    (hkeeps : Router.keepsLinks ev) {c : Nat} {k' : Connection} (hk' : n'.conns[c]? = some k')
    {m : SOSPFPacket} (hm : m ∈ k'.toServer) (ht : m.sospfType = .HELLO_TWO_WAY) :
    n'.Linked k'.client k'.server := by
  rcases h.mem_toServer hk' hm with ⟨k, hk, hclient, hserver, h1⟩ | h1
  · rw [hclient, hserver]
    exact (hg.answered c k hk m h1 ht).acted h hkeeps
  · cases Router.did_sent h.did hkeeps h1 with
    | attach _ _ _ _ _ ht' => rw [ht] at ht'; cases ht'
    | hello _ _ ht' => rw [ht] at ht'; cases ht'
    | update _ _ _ ht' => rw [ht] at ht'; cases ht'
    | @twoWay j x l response hterm hc hev he =>
      subst hev hc
      obtain ⟨l0, hl0, hkey⟩ := hg.alive.calling p r j x l h.router hterm
      have hclient : l0.client = l.client := congrArg Prod.fst hkey
      obtain ⟨k0, r0, hk0, hp, hr0, hip⟩ := hg.alive.port_end h.router hl0
      -- the answer that was read is a HELLO-ACK
      have hack : response.sospfType = .HELLO_ACK := by
        cases h.offers with
        | @read _ _ l1 k1 _ rest hwait hk1 hq =>
          simp only [Router.waitsOn, hterm, Option.some.injEq] at hwait
          subst hwait
          rw [← hclient] at hk1
          exact (hg.attached p r h.router l0 (List.mem_append_left _ hl0) k1 hk1).2 response
            (by simp [hq])
      rw [hclient] at hk0
      rw [h.conn_kept hk0] at hk'
      cases hk'
      obtain ⟨r1, hr1, hip1⟩ := h.ip_kept hr0
      refine ⟨e.router, r1, by rw [← h.router_self, ← hp]; rfl, hr1, ?_⟩
      have hports : e.router.ports = (r.setStatus l.client.conn .TWO_WAY).ports := by
        rw [he]
        simp [Router.helloReply, hack]
      rw [hports]
      refine ⟨_, List.mem_map_of_mem hl0, ?_⟩
      simp only [hclient, if_true]
      exact ⟨by rw [hip1, hip], fun hx => by cases hx⟩

theorem Greeted.awaited_acted (hg : Greeted n) (h : n.Acted a p r ev e n')
    (hkeeps : Router.keepsLinks ev) {c i : Nat} {k' : Connection} (hk' : n'.conns[c]? = some k')
    (hi : k'.handler = .awaitTwoWay i) :
    (k'.toClient ≠ [] ∨ k'.toServer ≠ []) ∧
      ∃ r r', n'.routers k'.server = some r ∧ n'.routers k'.client = some r' ∧
        ∃ l ∈ r.ports, l.client.conn = i ∧ l.router2.simulatedIPAddress = r'.ip := by
  have hport : ∀ {q q' : Int16} {r0 r1 : Router} {l : Link}, n.routers q = some r0 →
      n.routers q' = some r1 → l ∈ r0.ports → l.client.conn = i →
      l.router2.simulatedIPAddress = r1.ip →
      ∃ r r', n'.routers q = some r ∧ n'.routers q' = some r' ∧
        ∃ l ∈ r.ports, l.client.conn = i ∧ l.router2.simulatedIPAddress = r'.ip := by
    intro q q' r0 r1 l hr0 hr1 hl hc hip
    obtain ⟨r0', hr0', -, l', hl', hkey, -⟩ := h.port_kept hkeeps hr0 hl
    obtain ⟨r1', hr1', hip1⟩ := h.ip_kept hr1
    obtain ⟨hclient, hname⟩ := Prod.mk.inj hkey
    exact ⟨r0', r1', hr0', hr1', l', hl', by rw [hclient, hc], by rw [hname, hip, hip1]⟩
  rcases h.awaits hk' hi with ⟨k, hk, -, rfl, ha, hhandler⟩ | ⟨k, hk, -, rfl, ha, hhandler⟩
  · obtain ⟨msg, l, hgreets, hc⟩ := Router.did_handler h.did hhandler
    obtain ⟨c0, k0, r0, ha0, hk0, hserver, hr0, -, hname⟩ := hg.greets_from h hgreets
    rw [ha] at ha0
    cases ha0
    rw [hk] at hk0
    cases hk0
    constructor
    · left
      simp [after, ha, hgreets.reply]
    · have hr1 : n.routers k.server = some r := by rw [hserver, h.router]
      exact hport hr1 hr0 hgreets.port hc hname
  · obtain ⟨hflight, r0, r1, hr0, hr1, l, hl, hc, hip⟩ := hg.awaited c k i hk hhandler
    refine ⟨?_, hport hr0 hr1 hl hc hip⟩
    rcases hflight with hne | hne
    · by_cases hreads : readsFrom r c ev = true
      · -- the answer is read, and the HELLO-TWO-WAY is sent
        right
        obtain ⟨msg, lw, rfl, hw, hcw⟩ := readsFrom_cases hreads
        have hd := h.did
        cases hd with
        | @attachReply link _ ht =>
          exfalso
          simp only [Router.waitsOn, ht, Option.some.injEq] at hw
          subst hw
          obtain ⟨-, k1, hk1, hclient⟩ := hg.alive.wired.held p r h.router link
            (by simp [ht, Terminal.link, Terminal.pending])
          rw [hcw, hk] at hk1
          cases hk1
          obtain ⟨r2, hr2, l2, hl2, hc2⟩ := hg.calls c k hk (Or.inr ⟨i, hhandler⟩)
          rw [hclient, h.router] at hr2
          cases hr2
          have hids := hg.alive.wired.ids p r h.router
          rw [ht, List.map_append, List.nodup_append] at hids
          exact hids.2.2 _ (List.mem_map_of_mem hl2) _ (by simp [Terminal.pending])
            (hc2.trans hcw.symm)
        | @helloReply j x l2 _ ht =>
          simp only [Router.waitsOn, ht, Option.some.injEq] at hw
          subst hw
          simp [after, Router.helloReply, sendsTo, hcw]
      · left
        simp [after, hreads, hne]
    · right
      simp [after, ha, hne]

/-- The answer to a HELLO-ACK is the HELLO-TWO-WAY. -/
theorem Acted.response_twoWay (h : n.Acted a p r ev e n') (hok : n.steady a = true) {i : Nat}
    {msg : SOSPFPacket} (hev : ev = .respond i msg) : msg.sospfType = .HELLO_TWO_WAY := by
  subst hev
  cases h.offers with
  | respond hk hq hh =>
    have hin := inStep_of_steady hok hk hq
    unfold inStep at hin
    rwa [if_neg (by rw [hh]; intro hx; cases hx), decide_eq_true_eq] at hin

theorem Greeted.opening_acted (hg : Greeted n) (h : n.Acted a p r ev e n')
    (hok : n.steady a = true) {q : Int16} {r' : Router} (hr' : n'.routers q = some r') {l : Link}
    (hl : l ∈ r'.ports) (hinit : l.router2.status = .INIT) :
    ∃ (c : Nat) (k : Connection), n'.conns[c]? = some k ∧ k.server = q ∧
      k.handler = .awaitTwoWay l.client.conn := by
  have hkeeps := hg.alive.keepsLinks h hok
  have hold : ∀ (c : Nat) (k : Connection), n.conns[c]? = some k → k.server = q →
      k.handler = .awaitTwoWay l.client.conn → a ≠ .deliver c →
      ∃ (c : Nat) (k : Connection), n'.conns[c]? = some k ∧ k.server = q ∧
        k.handler = .awaitTwoWay l.client.conn := by
    intro c k hk hserver hhandler ha
    exact ⟨c, _, h.conn_kept hk, hserver, by simp [after, ha, hhandler]⟩
  rcases h.router_cases hr' with ⟨rfl, rfl⟩ | ⟨hne, hr0⟩
  · cases Router.did_became h.did hkeeps hl with
    | same hl0 =>
      obtain ⟨c, k, hk, hserver, hhandler⟩ := hg.opening q r h.router l hl0 hinit
      apply hold c k hk hserver hhandler
      -- the handler would have set the link to TWO-WAY
      intro ha
      have hev : ∃ msg, ev = .respond l.client.conn msg := by
        subst ha
        cases hq : k.toServer with
        | nil => exact absurd hq (h.offers.deliver hk).2
        | cons msg rest =>
          rcases h.offers.taken hk hq with ⟨-, hidle⟩ | ⟨i, hev, hh⟩
          · rw [hhandler] at hidle
            cases hidle
          · rw [hhandler] at hh
            cases hh
            exact ⟨msg, hev⟩
      obtain ⟨msg, rfl⟩ := hev
      have htwo := h.response_twoWay hok rfl
      have hd := h.did
      cases hd with
      | respond =>
        simp only [Router.parseResponse, htwo, if_true] at hl
        obtain ⟨l1, -, hc1, ⟨-, hs⟩ | ⟨hne, -⟩⟩ := Router.mem_setStatus hl
        · rw [hinit] at hs
          cases hs
        · exact hne (congrArg Client.conn hc1)
    | inserted ht =>
      have hidle := hg.fresh q r h.router l (by simp [ht, Terminal.pending])
      rw [hinit] at hidle
      cases hidle
    | accepted _ hidle => rw [hinit] at hidle; cases hidle
    | acked _ _ _ _ _ _ htwo => rw [hinit] at htwo; cases htwo
    | answered _ _ _ _ _ htwo => rw [hinit] at htwo; cases htwo
    | greeted _ _ hhandler =>
      obtain ⟨msg, l1, hgreets, -⟩ := Router.did_handler h.did hhandler
      obtain ⟨c, k, r0, ha, hk, hserver, -, -, -⟩ := hg.greets_from h hgreets
      exact ⟨c, _, h.conn_kept hk, hserver, by simp [after, ha, hhandler]⟩
  · obtain ⟨c, k, hk, hserver, hhandler⟩ := hg.opening q r' hr0 l hl hinit
    apply hold c k hk hserver hhandler
    intro ha
    subst ha
    exact hne (hserver.symm.trans (h.offers.deliver hk).1.symm)

theorem Greeted.met_acted (hg : Greeted n) (h : n.Acted a p r ev e n') (hok : n.steady a = true)
    {q q' : Int16} (htwo : n'.TwoWay q q') : n'.Linked q' q := by
  have hkeeps := hg.alive.keepsLinks h hok
  obtain ⟨r1, r2, hr1, hr2, l, hl, hname, hs⟩ := htwo
  -- the router that the link names, before the step
  obtain ⟨r0, hr0, hip0⟩ : ∃ r0, n.routers q' = some r0 ∧ r0.ip = r2.ip := by
    rcases h.router_cases hr2 with ⟨rfl, rfl⟩ | ⟨-, hr0⟩
    · exact ⟨r, h.router, (Router.did_ip h.did).symm⟩
    · exact ⟨r2, hr0, rfl⟩
  have hold : ∀ {ro : Router}, n.routers q = some ro → l ∈ ro.ports → n'.Linked q' q := by
    intro ro hro hlo
    exact (hg.met q q' ⟨ro, r0, hro, hr0, l, hlo, by rw [hname, hip0], hs⟩).acted h hkeeps
  -- a link from the router that the link names
  have hback : ∀ {k : Connection} {rc : Router}, n.Linked k.client k.server →
      n.routers k.client = some rc → l.router2.simulatedIPAddress = rc.ip → k.server = q →
      n'.Linked q' q := by
    intro k rc hlinked hrc hip hserver
    have hq' : k.client = q' := hg.apart _ _ rc r0 hrc hr0 (by rw [← hip, hname, hip0])
    rw [hserver, hq'] at hlinked
    exact hlinked.acted h hkeeps
  rcases h.router_cases hr1 with ⟨rfl, rfl⟩ | ⟨-, hro⟩
  · cases Router.did_became h.did hkeeps hl with
    | same hl0 => exact hold h.router hl0
    | inserted ht =>
      have hidle := hg.fresh q r h.router l (by simp [ht, Terminal.pending])
      rw [hs] at hidle
      cases hidle
    | accepted _ hidle => rw [hs] at hidle; cases hidle
    | greeted _ hinit => rw [hs] at hinit; cases hinit
    | @acked j x lw l0 response ht hev hack hl0 hkey hc _ =>
      subst hev
      obtain ⟨k, rs, hk, hclient, hrs, hips⟩ := hg.alive.port_end h.router hl0
      have hname0 : l0.router2.simulatedIPAddress = l.router2.simulatedIPAddress :=
        congrArg Prod.snd hkey
      have hlinked : n.Linked k.server k.client := by
        cases h.offers with
        | @read _ _ l1 k1 _ rest hwait hk1 hq =>
          simp only [Router.waitsOn, ht, Option.some.injEq] at hwait
          subst hwait
          rw [← hc, hk] at hk1
          cases hk1
          exact hg.acked _ k hk response (by simp [hq]) hack
      have hq' : k.server = q' := hg.apart _ _ rs r0 hrs hr0 (by rw [hips, hname0, hname, hip0])
      rw [hq', hclient] at hlinked
      exact hlinked.acted h hkeeps
    | @answered i msg l0 hev htype hl0 hkey hc _ =>
      subst hev
      cases h.offers with
      | @respond c _ _ k _ rest hk hq hh =>
        obtain ⟨-, rs, rc, hrs, hrc, l1, hl1, hc1, hip1⟩ := hg.awaited c k i hk hh
        rw [h.router] at hrs
        cases hrs
        -- one link has the connection that the handler names
        have heq : l0 = l1 := List.inj_on_of_nodup_map (hg.alive.wired.ids _ r h.router)
          (List.mem_append_left _ hl0) (List.mem_append_left _ hl1) (hc.trans hc1.symm)
        have hname0 : l0.router2.simulatedIPAddress = l.router2.simulatedIPAddress :=
          congrArg Prod.snd hkey
        exact hback (hg.answered c k hk msg (by simp [hq]) htype) hrc
          (by rw [← hname0, heq, hip1]) rfl
  · exact hold hro hl

theorem Greeted.step (hg : Greeted n) (hok : n.steady a = true) (hs : n.step a = some n') :
    Greeted n' := by
  rcases step_acted hs with ⟨p, r, ev, e, h⟩ | ⟨c, k, -, hlost⟩
  · have hkeeps := hg.alive.keepsLinks h hok
    constructor
    · exact hg.alive.acted h hkeeps
    · exact hg.apart.step hs
    · exact fun _ _ hr' _ hl => hg.fresh_acted h hr' hl
    · exact fun _ _ hr' _ hl _ hk' => hg.attached_acted h hkeeps hr' hl hk'
    · exact fun _ _ hk' hcall => hg.calls_acted h hkeeps hk' hcall
    · exact fun _ _ hk' _ hm ht => hg.acked_acted h hkeeps hk' hm ht
    · exact fun _ _ hk' _ hm ht => hg.answered_acted h hkeeps hk' hm ht
    · exact fun _ _ _ hk' hi => hg.awaited_acted h hkeeps hk' hi
    · exact fun _ _ hr' _ hl hinit => hg.opening_acted h hok hr' hl hinit
    · exact fun _ _ htwo => hg.met_acted h hok htwo
  · rw [hg.alive.not_lost hlost]
    exact hg

end greeted

theorem greeted_run {conf : Int16 → Option Configuration} (hconf : DistinctIPs conf)
    {acts : List Action} {n : Network}
    (h : Run step (fun n a => n.steady a = true) (init conf) acts n) : Greeted n :=
  h.invariant (greeted_init hconf) fun _ _ _ hg hok hs => hg.step hok hs

/-! ## When no packet is in flight -/

theorem Greeted.twoWay_of_linked {n : Network} (hg : Greeted n) (hquiet : n.quiet = true)
    {p q : Int16} (h : n.Linked p q) : n.TwoWay p q := by
  obtain ⟨r, r', hr, hr', l, hl, hname, hs⟩ := h
  refine ⟨r, r', hr, hr', l, hl, hname, ?_⟩
  cases hstatus : l.router2.status with
  | IDLE => exact absurd hstatus hs
  | TWO_WAY => rfl
  | INIT =>
    exfalso
    obtain ⟨c, k, hk, -, hhandler⟩ := hg.opening p r hr l hl hstatus
    obtain ⟨hto, hfrom⟩ := quiet_conn hquiet hk
    rcases (hg.awaited c k _ hk hhandler).1 with h1 | h1
    · exact h1 hfrom
    · exact h1 hto

theorem Greeted.twoWay_symm {n : Network} (hg : Greeted n) (hquiet : n.quiet = true)
    {p q : Int16} (h : n.TwoWay p q) : n.TwoWay q p :=
  hg.twoWay_of_linked hquiet (hg.met p q h)

end Network
end socs.network
