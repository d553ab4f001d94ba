-- Runs that keep their links. No link is taken down, no update skips a number,
-- and the answer to a HELLO-ACK is the HELLO-TWO-WAY. In such a run no process
-- ends and no packet is lost.
import SysNet.LinkState.Flooding
import SysNet.LinkState.Origins

open runs

namespace socs.network

/-! ## Updates in order -/

namespace LinkStateDatabase

/-- No advertisement that takes the place of an entry skips a number. -/
def inOrder : LinkStateDatabase → List LSA → Bool
  | _, [] => true
  | d, lsa :: rest =>
    if d.isStale lsa then d.inOrder rest
    else
      (d.getLSA lsa.linkStateID).all (fun stored => lsa.lsaSeqNumber = stored.lsaSeqNumber + 1) &&
        (d.addLSA lsa.linkStateID lsa).inOrder rest

end LinkStateDatabase

/-! ## One router that keeps its links -/

namespace Router

/-- The event takes no link down. -/
def keepsLinks : Event → Prop
  | .command (.disconnect _) => False
  | .command .quit => False
  | .handle _ msg => msg.sospfType ≠ .DISCONNECT
  | _ => True

/-- A packet that a router with the event sends: what it is, and where to. -/
inductive Sends (r : Router) (ev : Event) (e : Effect) (i : Nat) (m : SOSPFPacket) : Prop
  | attach {connect : Int16 → Client} {a s : String} {p : Int16} : ev = .advance connect →
      r.terminal = .attaching a p s → (connect p).conn = i → (connect p).connected = true →
      e.opens = some p → m.sospfType = .ATTACH → m.lsaArray = [] → Sends r ev e i m
  | hello {l : Link} : l ∈ r.ports → l.client.conn = i → m.sospfType = .HELLO →
      m.lsaArray = [] → Sends r ev e i m
  | twoWay {j x : Nat} {l : Link} {response : SOSPFPacket} : r.terminal = .helloSent j x l →
      l.client.conn = i → ev = .read (some response) → e = r.helloReply j x l (some response) →
      m.sospfType = .HELLO_TWO_WAY → m.lsaArray = [] → Sends r ev e i m
  | update {l : Link} : l ∈ r.ports → l.client.conn = i → l.router2.status = .TWO_WAY →
      m.sospfType = .LSAUPDATE → e.router.ports = r.ports →
      (r.ownLSA.isSome → none ∉ m.lsaArray) → Sends r ev e i m

theorem lsaUpdate_not_null {r : Router} {l : Link} (h : r.ownLSA.isSome) :
    none ∉ (r.lsaUpdate l).lsaArray := by
  obtain ⟨x, hx⟩ := Option.isSome_iff_exists.mp h
  simp [lsaUpdate, hx]

theorem did_sent {r : Router} {ev : Event} {e : Effect} (h : Did r ev e) (hkeeps : keepsLinks ev)
    {i : Nat} {m : SOSPFPacket} (hm : (i, m) ∈ e.sends) : Sends r ev e i m := by
  cases h with
  | disconnect => exact hkeeps.elim
  | quit => exact hkeeps.elim
  | quitFails => exact hkeeps.elim
  | disconnected _ ht => exact absurd ht hkeeps
  | @attachSend connect a s p hr =>
    unfold attachSend at hm
    by_cases hc : (connect p).connected = true
    · simp only [hc, if_true, List.mem_singleton, Prod.mk.injEq] at hm
      obtain ⟨rfl, rfl⟩ := hm
      exact .attach rfl hr rfl hc rfl rfl rfl
    · simp [hc] at hm
  | startHello _ hl =>
    cases List.mem_singleton.mp hm
    exact .hello (List.mem_of_getElem? hl) rfl rfl rfl
  | startEnd =>
    obtain ⟨l, hl, rfl, htwo, rfl⟩ := mem_broadcastLSA hm
    refine .update hl rfl htwo rfl rfl fun _ => lsaUpdate_not_null ?_
    rw [ownLSA_updateLSD]
    rfl
  | @helloReply j x l response hr =>
    cases response with
    | none => cases hm
    | some msg =>
      cases List.mem_singleton.mp hm
      exact .twoWay hr rfl rfl rfl rfl rfl
  | hello => unfold parseHello at hm; split at hm <;> cases hm
  | attached => unfold parseAttach at hm; split at hm <;> cases hm
  | @lsaUpdate connect msg _ ht =>
    obtain ⟨l, hl, rfl, -, htype⟩ := sends_parseLsaUpdate hm
    have htwo : l.router2.status = .TWO_WAY := by
      obtain ⟨_, _, -, h2, -⟩ := hl
      exact h2
    exact .update (passesOver_mem hl) rfl htwo (htype.trans ht) (r.parseLsaUpdate_ports msg).1
      fun hown => (Network.parseLsaUpdate_updates hown hm).2
  | _ => cases hm

/-- The database after an event that takes no link down. -/
theorem did_database {r : Router} {ev : Event} {e : Effect} (h : Did r ev e)
    (hkeeps : keepsLinks ev) :
    e.router.lsd = r.lsd ∨
    (∃ connect m, ev = .advance connect ∧ r.terminal = .starting r.ports.length m ∧
      e = r.startEnd) ∨
    ∃ connect msg, ev = .handle connect msg ∧ msg.sospfType = .LSAUPDATE ∧
      e = r.parseLsaUpdate msg := by
  cases h with
  | disconnect => exact hkeeps.elim
  | disconnected _ ht => exact absurd ht hkeeps
  | startEnd ht => exact Or.inr (Or.inl ⟨_, _, rfl, ht, rfl⟩)
  | lsaUpdate _ ht => exact Or.inr (Or.inr ⟨_, _, rfl, ht, rfl⟩)
  | @helloReply _ _ _ response _ => cases response <;> exact Or.inl rfl
  | hello => unfold parseHello; split <;> exact Or.inl rfl
  | attached => unfold parseAttach; split <;> exact Or.inl rfl
  | _ => exact Or.inl rfl

/-- A port before the event is one after it. -/
theorem did_kept {r : Router} {ev : Event} {e : Effect} (h : Did r ev e) (hkeeps : keepsLinks ev)
    {l : Link} (hl : l ∈ r.ports) : ∃ l' ∈ e.router.ports, l'.key = l.key ∧
      (l.router2.status ≠ .IDLE → l'.router2.status ≠ .IDLE) := by
  have hset : ∀ (c : Nat) (s : RouterStatus), s ≠ .IDLE → ∃ l' ∈ (r.setStatus c s).ports,
      l'.key = l.key ∧ (l.router2.status ≠ .IDLE → l'.router2.status ≠ .IDLE) := by
    intro c s hs
    refine ⟨_, List.mem_map_of_mem hl, ?_⟩
    split
    · exact ⟨rfl, fun _ => hs⟩
    · exact ⟨rfl, id⟩
  have hsame : ∃ l' ∈ r.ports, l'.key = l.key ∧
      (l.router2.status ≠ .IDLE → l'.router2.status ≠ .IDLE) := ⟨l, hl, rfl, id⟩
  cases h with
  | disconnect => exact hkeeps.elim
  | quit => exact hkeeps.elim
  | disconnected _ ht => exact absurd ht hkeeps
  | attachInsert => exact ⟨l, List.mem_append_left _ hl, rfl, id⟩
  | attached =>
    unfold parseAttach
    split
    · exact ⟨l, List.mem_append_left _ hl, rfl, id⟩
    · exact hsame
  | @helloReply _ _ _ response _ =>
    cases response with
    | none => exact hsame
    | some msg =>
      simp only [helloReply]
      split
      · exact hset _ _ fun hx => by cases hx
      · exact hsame
  | hello =>
    unfold parseHello
    split
    · exact hsame
    · exact hset _ _ fun hx => by cases hx
  | @respond c msg _ =>
    simp only [parseResponse]
    split
    · exact hset _ _ fun hx => by cases hx
    · exact hsame
  | @lsaUpdate _ msg _ _ =>
    rw [(r.parseLsaUpdate_ports msg).1]
    exact hsame
  | _ => exact hsame

theorem did_exited {r : Router} {ev : Event} {e : Effect} (h : Did r ev e) (hkeeps : keepsLinks ev) :
    e.router.terminal ≠ .exited := by
  have hr := did_not_exited h
  cases h with
  | disconnect => exact hkeeps.elim
  | quit => exact hkeeps.elim
  | typed _ ht => rcases ht with rfl | rfl | rfl <;> intro hx <;> cases hx
  | attachSend =>
    unfold attachSend
    simp only
    split <;> intro hx <;> cases hx
  | startSkip _ ht => rcases ht with rfl | rfl <;> intro hx <;> cases hx
  | startEnd =>
    rcases finish_terminal r.updateLSD r.updateLSD.broadcastLSA with h | h <;> rw [startEnd, h] <;> intro hx <;> cases hx
  | @attachReply link response _ =>
    cases response with
    | none => intro hx; cases hx
    | some msg =>
      simp only [attachReply, attachAnswer]
      split <;> intro hx <;> cases hx
  | @helloReply _ _ _ response _ => cases response <;> intro hx <;> cases hx
  | hello => unfold parseHello; split <;> exact hr
  | respond => exact hr
  | attached => unfold parseAttach; split <;> exact hr
  | disconnected => exact hr
  | @lsaUpdate _ msg _ _ =>
    rw [(r.parseLsaUpdate_ports msg).2.2.1]
    exact hr
  | ignored => exact hr
  | _ => intro hx; cases hx

end Router

/-! ## A network that keeps its links -/

namespace Network

/-- The handler of the connection takes the packet in step: no update skips a
number, and what the handler of a HELLO takes next is the HELLO-TWO-WAY. -/
def inStep (n : Network) (k : Connection) (msg : SOSPFPacket) : Bool :=
  if k.handler = .idle then
    msg.sospfType ≠ .LSAUPDATE ||
      (n.routers k.server).all fun r => r.lsd.inOrder (beforeNull msg.lsaArray)
  else msg.sospfType = .HELLO_TWO_WAY

/-- A step that takes no link down, takes packets in step, and goes on with a
number of the own entry that has room for one more. -/
def steady (n : Network) : Action → Bool
  | .command _ (.disconnect _) => false
  | .command _ .quit => false
  | .command _ _ => true
  | .advance p => (n.ownEntry p).all (·.lsaSeqNumber < Int32.maxValue)
  | .read _ => true
  | .deliver c => n.conns[c]?.all fun k => k.toServer.head?.all (n.inStep k)

theorem inStep_of_steady {n : Network} {c : Nat} (h : n.steady (.deliver c) = true) {k : Connection}
    {msg : SOSPFPacket} {rest : List SOSPFPacket} (hk : n.conns[c]? = some k)
    (hq : k.toServer = msg :: rest) : n.inStep k msg = true := by
  change n.conns[c]?.all (fun k => k.toServer.head?.all (n.inStep k)) = true at h
  rwa [hk, Option.all_some, hq, List.head?_cons, Option.all_some] at h

theorem room_of_steady {n : Network} {p : Int16} (h : n.steady (.advance p) = true) {x : LSA}
    (hx : n.ownEntry p = some x) : x.lsaSeqNumber < Int32.maxValue := by
  change (n.ownEntry p).all (·.lsaSeqNumber < Int32.maxValue) = true at h
  rwa [hx, Option.all_some, decide_eq_true_eq] at h

/-- No process has ended, and no packet under way is lost or takes a link down. -/
structure Alive (n : Network) : Prop where
  wired : Wired n
  terminals : ∀ p r, n.routers p = some r → r.terminal ≠ .exited
  /-- The link of a HELLO is one of the ports. -/
  calling : ∀ p r j x l, n.routers p = some r → r.terminal = .helloSent j x l →
    ∃ l0 ∈ r.ports, l0.key = l.key
  served : ∀ (c : Nat) k, n.conns[c]? = some k → ∀ m ∈ k.toServer,
    n.running k.server = true ∧ m.sospfType ≠ .DISCONNECT

section alive

variable {n n' : Network} {a : Action} {p : Int16} {r : Router} {ev : Router.Event} {e : Effect}

theorem Alive.keepsLinks (ha : Alive n) (h : n.Acted a p r ev e n') (hok : n.steady a = true) :
    Router.keepsLinks ev := by
  cases h.offers with
  | @command _ _ c => cases c <;> first | exact trivial | cases hok
  | @handle c _ k msg rest hk hq _ => exact (ha.served c k hk msg (by simp [hq])).2
  | _ => exact trivial

theorem Alive.running (ha : Alive n) {q : Int16} {r' : Router} (hr' : n.routers q = some r') :
    n.running q = true := by
  simpa [Network.running, hr'] using ha.terminals q r' hr'

/-- The connection of a port, and the router that it leads to. -/
theorem Alive.port_end (ha : Alive n) (hr : n.routers p = some r) {l : Link} (hl : l ∈ r.ports) :
    ∃ k r', n.conns[l.client.conn]? = some k ∧ k.client = p ∧ n.routers k.server = some r' ∧
      r'.ip = l.router2.simulatedIPAddress := by
  obtain ⟨-, k, hk, hclient⟩ := ha.wired.held p r hr l (List.mem_append_left _ hl)
  obtain ⟨k', r', hk', hr', hip⟩ := ha.wired.ends p r hr l (List.mem_append_left _ hl)
  rw [hk] at hk'
  cases hk'
  exact ⟨k, r', hk, hclient, hr', hip⟩

/-- A packet other than a request is sent over a port. -/
theorem Alive.sends_port (ha : Alive n) (h : n.Acted a p r ev e n') (hkeeps : Router.keepsLinks ev)
    {c : Nat} {m : SOSPFPacket} (hm : (c, m) ∈ e.sends) (ht : m.sospfType ≠ .ATTACH) :
    ∃ l ∈ r.ports, l.client.conn = c := by
  cases Router.did_sent h.did hkeeps hm with
  | attach _ _ _ _ _ htype => exact absurd htype ht
  | hello hl hc => exact ⟨_, hl, hc⟩
  | @twoWay j x l _ hterm hc =>
    obtain ⟨l0, hl0, hkey⟩ := ha.calling p r j x l h.router hterm
    have hclient : l0.client = l.client := congrArg Prod.fst hkey
    exact ⟨l0, hl0, by rw [hclient, hc]⟩
  | update hl hc => exact ⟨_, hl, hc⟩

theorem Acted.running_kept (h : n.Acted a p r ev e n')
    (hkeeps : Router.keepsLinks ev) {q : Int16} (hq : n.running q = true) : n'.running q = true := by
  by_cases hp : q = p
  · subst hp
    simpa [Network.running, h.router_self] using Router.did_exited h.did hkeeps
  · simpa only [Network.running, h.routers, Function.update_of_ne hp] using hq

theorem Alive.served_acted (ha : Alive n) (h : n.Acted a p r ev e n')
    (hkeeps : Router.keepsLinks ev) {c : Nat} {k' : Connection} (hk' : n'.conns[c]? = some k')
    {m : SOSPFPacket} (hm : m ∈ k'.toServer) :
    n'.running k'.server = true ∧ m.sospfType ≠ .DISCONNECT := by
  rcases h.mem_toServer hk' hm with ⟨k, hk, -, hserver, hm1⟩ | hm1
  · obtain ⟨hrun, ht⟩ := ha.served c k hk m hm1
    rw [hserver]
    exact ⟨h.running_kept hkeeps hrun, ht⟩
  · have hport : m.sospfType ≠ .ATTACH → n'.running k'.server = true := by
      intro ht
      obtain ⟨l, hl, rfl⟩ := ha.sends_port h hkeeps hm1 ht
      obtain ⟨k0, r0, hk0, -, hr0, -⟩ := ha.port_end h.router hl
      rw [h.conn_kept hk0] at hk'
      cases hk'
      exact h.running_kept hkeeps (ha.running hr0)
    cases Router.did_sent h.did hkeeps hm1 with
    | attach hev _ hc hconn ho htype =>
      subst hev
      cases h.offers
      refine ⟨?_, by rw [htype]; intro hx; cases hx⟩
      rw [← hc, show (n.connect _).conn = n.conns.length from rfl, h.conn_opened ho] at hk'
      cases hk'
      exact h.running_kept hkeeps (connected_iff.mp hconn).2
    | hello _ _ htype => exact ⟨hport (by rw [htype]; intro hx; cases hx), by rw [htype]; intro hx; cases hx⟩
    | twoWay _ _ _ _ htype => exact ⟨hport (by rw [htype]; intro hx; cases hx), by rw [htype]; intro hx; cases hx⟩
    | update _ _ _ htype => exact ⟨hport (by rw [htype]; intro hx; cases hx), by rw [htype]; intro hx; cases hx⟩

theorem Alive.acted (ha : Alive n) (h : n.Acted a p r ev e n') (hkeeps : Router.keepsLinks ev) :
    Alive n' := by
  refine ⟨ha.wired.acted h, ?_, ?_, fun c k' hk' m hm => ha.served_acted h hkeeps hk' hm⟩
  · intro q r' hr'
    rcases h.router_cases hr' with ⟨rfl, rfl⟩ | ⟨-, hr0⟩
    · exact Router.did_exited h.did hkeeps
    · exact ha.terminals q r' hr0
  · intro q r' j x l hr' ht
    rcases h.router_cases hr' with ⟨rfl, rfl⟩ | ⟨-, hr0⟩
    · rcases Router.did_terminal h.did with hsame | hnil | ⟨_, _, _, _, _, -, -, ht', -⟩ |
        ⟨_, _, -, -, ht', -⟩ | ⟨i, y, l', ht', hl', hports⟩
      · rw [hsame] at ht
        obtain ⟨l0, hl0, hkey⟩ := ha.calling q r j x l h.router ht
        obtain ⟨l1, hl1, hkey1, -⟩ := Router.did_kept h.did hkeeps hl0
        exact ⟨l1, hl1, hkey1.trans hkey⟩
      · rw [ht] at hnil
        cases hnil
      · rw [ht] at ht'
        cases ht'
      · rw [ht] at ht'
        cases ht'
      · rw [ht] at ht'
        cases ht'
        exact ⟨l, hports ▸ hl', rfl⟩
    · exact ha.calling q r' j x l hr0 ht

/-- No packet is lost. -/
theorem Alive.not_lost (ha : Alive n) {c : Nat} {k : Connection} (h : n.Lost c k n') : n' = n := by
  have hempty : k.toServer = [] := by
    cases hq : k.toServer with
    | nil => rfl
    | cons m rest =>
      have := (ha.served c k h.conn m (by simp [hq])).1
      rw [h.ended] at this
      cases this
  have hconns : n'.conns = n.conns := by
    apply List.ext_getElem?
    intro i
    rw [h.conns]
    by_cases hc : c = i
    · subst hc
      rw [h.conn, Option.map_some, if_pos rfl, hempty, List.tail_nil, ← hempty]
    · simp [hc]
  calc n' = ⟨n'.routers, n'.conns⟩ := rfl
    _ = n := by rw [h.routers, hconns]

end alive

end Network
end socs.network
