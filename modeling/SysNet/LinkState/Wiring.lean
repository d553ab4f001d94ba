-- How the links of the routers and the connections fit together, in every
-- state of a network. Each link has a connection of its own, which leads to
-- the router it names, and each packet names the router that sent it.
import Mathlib.Data.List.Nodup
import SysNet.LinkState.Acts

open runs

namespace socs.network
namespace Network

/-! ## The invariant -/

/-- How links, connections and packets fit together. -/
structure Wired (n : Network) : Prop where
  port : ∀ p r, n.routers p = some r → r.rd.processPortNumber = p
  /-- Each router can be reached at its port. -/
  named : ∀ p r, n.routers p = some r → namesProcess p = true
  /-- The router opened the connection of each link that it holds. -/
  held : ∀ p r, n.routers p = some r → ∀ l ∈ r.ports ++ r.terminal.link,
    l.client.connected = true ∧ ∃ k, n.conns[l.client.conn]? = some k ∧ k.client = p
  /-- No two links share a connection. -/
  ids : ∀ p r, n.routers p = some r →
    ((r.ports ++ r.terminal.pending).map (·.client.conn)).Nodup
  /-- A link leads to the router that it names. -/
  ends : ∀ p r, n.routers p = some r → ∀ l ∈ r.ports ++ r.terminal.accepted,
    ∃ k r', n.conns[l.client.conn]? = some k ∧ n.routers k.server = some r' ∧
      r'.ip = l.router2.simulatedIPAddress
  /-- A packet names its sender, who waits for the answer to a request. -/
  sent : ∀ (c : Nat) k, n.conns[c]? = some k → ∀ m ∈ k.toServer,
    ∃ r, n.routers k.client = some r ∧ m.routerID = r.ip ∧
      (m.sospfType = .ATTACH → m.srcProcessPort = k.client ∧
        (n.running k.server = true → ∃ link, r.terminal = .attachSent link ∧
          link.client.conn = c ∧ link.router2.simulatedIPAddress = m.neighborID))
  answered : ∀ (c : Nat) k, n.conns[c]? = some k → ∀ m ∈ k.toClient,
    m.sospfType = .ATTACH_REJECT ∨ ∃ r, n.routers k.server = some r ∧ m.routerID = r.ip
  /-- A request to attach is the first packet of its connection, and its answer
  the next one. -/
  waiting : ∀ p r link, n.routers p = some r → r.terminal = .attachSent link →
    ∀ k, n.conns[link.client.conn]? = some k → k.toServer.length + k.toClient.length ≤ 1

theorem wired_init (conf : Int16 → Option Configuration) : Wired (init conf) := by
  have hnew : ∀ p r, (init conf).routers p = some r →
      r.rd.processPortNumber = p ∧ r.ports = [] ∧ r.terminal = .ready := by
    intro p r hr
    obtain ⟨-, c, -, rfl⟩ := init_routers hr
    exact ⟨rfl, rfl, rfl⟩
  constructor
  · exact fun p r hr => (hnew p r hr).1
  · exact fun p r hr => (init_routers hr).1
  · intro p r hr l hl
    obtain ⟨-, hp, ht⟩ := hnew p r hr
    simp [hp, ht, Terminal.link, Terminal.pending] at hl
  · intro p r hr
    obtain ⟨-, hp, ht⟩ := hnew p r hr
    simp [hp, ht, Terminal.pending]
  · intro p r hr l hl
    obtain ⟨-, hp, ht⟩ := hnew p r hr
    simp [hp, ht, Terminal.accepted] at hl
  · intro c k hk
    simp [init] at hk
  · intro c k hk
    simp [init] at hk
  · intro p r link hr hlink
    rw [(hnew p r hr).2.2] at hlink
    cases hlink

/-! ## The invariant is kept -/

theorem pending_subset_link (t : Terminal) : t.pending ⊆ t.link := by
  cases t <;> simp [Terminal.pending, Terminal.link]

theorem accepted_subset_link (t : Terminal) : t.accepted ⊆ t.link := by
  cases t <;> simp [Terminal.accepted, Terminal.pending, Terminal.link]

section wired

variable {n n' : Network} {a : Action} {p : Int16} {r : Router} {ev : Router.Event} {e : Effect}

/-- The process that asks to attach is there to be connected back to. -/
theorem Wired.attach_from (hw : Wired n) (h : n.Acted a p r ev e n') {connect : Int16 → Client}
    {msg : SOSPFPacket} (hev : ev = .handle connect msg) (ht : msg.sospfType = .ATTACH) :
    connect = n.connect ∧ ∃ r', n.routers msg.srcProcessPort = some r' ∧ r'.ip = msg.routerID ∧
      (n.connect msg.srcProcessPort).connected = true := by
  subst hev
  cases h.offers with
  | @handle c _ k _ rest hk hq _ =>
    obtain ⟨r', hr', hip, hatt⟩ := hw.sent c k hk msg (by simp [hq])
    obtain ⟨hport, hwait⟩ := hatt ht
    have hrun : n.running k.server = true := by
      simpa [running, h.router] using Router.did_not_exited h.did
    obtain ⟨link, hlink, -⟩ := hwait hrun
    refine ⟨rfl, r', by rw [hport, hr'], hip.symm, ?_⟩
    rw [hport, connected_iff]
    exact ⟨hw.named k.client r' hr', by simp [running, hr', hlink]⟩

/-- The connection of each link that the acting router holds is older than any
that it opens now. -/
theorem Wired.held_lt (hw : Wired n) (hr : n.routers p = some r) {l : Link}
    (hl : l ∈ r.ports ++ r.terminal.link) : l.client.conn < n.conns.length := by
  obtain ⟨-, k, hk, -⟩ := hw.held p r hr l hl
  exact (List.getElem?_eq_some_iff.mp hk).1

/-- A packet is sent on a connection that the acting router opened. -/
theorem Wired.sends_client (hw : Wired n) (h : n.Acted a p r ev e n') {c : Nat} {m : SOSPFPacket}
    (hm : (c, m) ∈ e.sends) {k' : Connection} (hk' : n'.conns[c]? = some k') : k'.client = p := by
  have hold : (∃ l ∈ r.ports ++ r.terminal.link, l.client.conn = c) → k'.client = p := by
    rintro ⟨l, hl, rfl⟩
    obtain ⟨-, k, hk, hp⟩ := hw.held p r h.router l hl
    rw [h.conn_kept hk] at hk'
    cases hk'
    exact hp
  obtain ⟨-, ⟨-, ⟨l, hl, hc⟩ | ⟨j, x, l, ht, hc⟩⟩ | ⟨connect, a', q, s, hev, -, hc, -, ho, -⟩⟩ :=
    Router.did_sends h.did hm
  · exact hold ⟨l, List.mem_append_left _ hl, hc⟩
  · exact hold ⟨l, by simp [ht, Terminal.link], hc⟩
  · subst hev
    cases h.offers
    subst hc
    rw [show (n.connect q).conn = n.conns.length from rfl, h.conn_opened ho] at hk'
    cases hk'
    rfl

/-- The connection of a link is still there after the step. -/
theorem Acted.held_kept (h : n.Acted a p r ev e n') {c : Nat} {q : Int16}
    (hk : ∃ k, n.conns[c]? = some k ∧ k.client = q) : ∃ k, n'.conns[c]? = some k ∧ k.client = q := by
  obtain ⟨k, hk, hq⟩ := hk
  exact ⟨_, h.conn_kept hk, hq⟩

theorem Wired.held_acted (hw : Wired n) (h : n.Acted a p r ev e n') {l : Link}
    (hl : l ∈ e.router.ports ++ e.router.terminal.link) :
    l.client.connected = true ∧ ∃ k, n'.conns[l.client.conn]? = some k ∧ k.client = p := by
  have hold : ∀ l', l' ∈ r.ports ++ r.terminal.link → l'.client = l.client →
      l.client.connected = true ∧ ∃ k, n'.conns[l.client.conn]? = some k ∧ k.client = p := by
    intro l' hl' hc
    obtain ⟨hconn, hk⟩ := hw.held p r h.router l' hl'
    rw [← hc]
    exact ⟨hconn, h.held_kept hk⟩
  have hnew : ∀ q, e.opens = some q → l.client = n.connect q → (n.connect q).connected = true →
      l.client.connected = true ∧ ∃ k, n'.conns[l.client.conn]? = some k ∧ k.client = p := by
    intro q ho hc hrun
    rw [hc]
    exact ⟨hrun, _, h.conn_opened ho, rfl⟩
  rcases List.mem_append.mp hl with hport | hlink
  · rcases Router.did_ports h.did with hsub | ⟨link, ht, hp, -, -⟩ |
      ⟨connect, msg, link, hev, htype, -, ho, hp, hclient, -⟩
    · obtain ⟨l', hl', hkey⟩ := List.mem_map.mp (hsub.subset (List.mem_map_of_mem hport))
      exact hold l' (List.mem_append_left _ hl') (congrArg Prod.fst hkey)
    · rw [hp] at hport
      rcases List.mem_append.mp hport with h1 | h1
      · exact hold l (List.mem_append_left _ h1) rfl
      · rw [List.mem_singleton] at h1
        subst h1
        exact hold l (by simp [ht, Terminal.link, Terminal.pending]) rfl
    · rw [hp] at hport
      rcases List.mem_append.mp hport with h1 | h1
      · exact hold l (List.mem_append_left _ h1) rfl
      · rw [List.mem_singleton] at h1
        subst h1
        obtain ⟨rfl, r', -, -, hrun⟩ := hw.attach_from h hev htype
        exact hnew _ ho hclient hrun
  · rcases Router.did_terminal h.did with ht | ht | ⟨connect, a', q, s, link, hev, -, ht, hc, hconn, ho, -, -⟩ |
      ⟨link, msg, -, ht, ht', -, -, -⟩ | ⟨i, m, l', ht, hl', -⟩
    · rw [ht] at hlink
      exact hold l (List.mem_append_right _ hlink) rfl
    · rw [ht] at hlink
      cases hlink
    · rw [ht] at hlink
      simp only [Terminal.link, Terminal.pending, List.mem_singleton] at hlink
      subst hlink hev
      cases h.offers
      exact hnew q ho hc hconn
    · rw [ht'] at hlink
      simp only [Terminal.link, Terminal.pending, List.mem_singleton] at hlink
      subst hlink
      exact hold l (by simp [ht, Terminal.link, Terminal.pending]) rfl
    · rw [ht] at hlink
      simp only [Terminal.link, List.mem_singleton] at hlink
      subst hlink
      exact hold l (List.mem_append_left _ hl') rfl

/-- The connections of the links after the act: some of those before, and
perhaps the one just opened. -/
theorem Wired.ids_acted (hw : Wired n) (h : n.Acted a p r ev e n') :
    ((e.router.ports ++ e.router.terminal.pending).map (·.client.conn)).Nodup := by
  have hids := hw.ids p r h.router
  have hlt : ∀ i ∈ (r.ports ++ r.terminal.pending).map (·.client.conn), i < n.conns.length := by
    intro i hi
    obtain ⟨l, hl, rfl⟩ := List.mem_map.mp hi
    apply hw.held_lt h.router
    rcases List.mem_append.mp hl with h1 | h1
    · exact List.mem_append_left _ h1
    · exact List.mem_append_right _ (pending_subset_link _ h1)
  have hfst : ∀ {ls ls' : List Link}, (ls.map Link.key).Sublist (ls'.map Link.key) →
      (ls.map (·.client.conn)).Sublist (ls'.map (·.client.conn)) := by
    intro ls ls' hsub
    simpa [List.map_map, Function.comp_def, Link.key] using hsub.map (fun k => k.1.conn)
  rw [List.map_append] at hids hlt ⊢
  rcases Router.did_ports h.did with hsub | ⟨link, ht, hp, ht', -⟩ |
    ⟨connect, msg, link, hev, htype, ht, -, hp, hclient, -⟩
  · have hports := hfst hsub
    rcases Router.did_terminal h.did with ht | ht | ⟨connect, a', q, s, link, hev, -, ht, hc, -, -, hp, -⟩ |
      ⟨link, msg, -, ht, ht', -, -, -⟩ | ⟨i, m, l', ht, -, -⟩
    · rw [ht]
      exact hids.sublist (hports.append_right _)
    · have hnil : e.router.terminal.pending = [] :=
        List.subset_nil.mp (ht ▸ pending_subset_link e.router.terminal)
      rw [hnil, List.map_nil, List.append_nil]
      exact (hids.sublist (List.sublist_append_left _ _)).sublist hports
    · subst hev
      cases h.offers
      rw [ht, hp]
      simp only [Terminal.pending, List.map_cons, List.map_nil, hc]
      apply List.Nodup.append (hids.sublist (List.sublist_append_left _ _)) (List.nodup_singleton _)
      intro i hi hi'
      rw [List.mem_singleton] at hi'
      have := hlt i (List.mem_append_left _ hi)
      rw [hi'] at this
      exact absurd this (Nat.lt_irrefl _)
    · rw [ht']
      rw [ht] at hids
      exact hids.sublist (hports.append_right _)
    · rw [ht]
      simp only [Terminal.pending, List.map_nil, List.append_nil]
      exact (hids.sublist (List.sublist_append_left _ _)).sublist hports
  · rw [hp, ht']
    rw [ht] at hids
    simpa [Terminal.pending] using hids
  · obtain ⟨rfl, -⟩ := hw.attach_from h hev htype
    rw [hp, ht, List.map_append, List.append_assoc]
    simp only [List.map_cons, List.map_nil, hclient, List.singleton_append]
    rw [List.perm_middle.nodup_iff, List.nodup_cons]
    exact ⟨fun hmem => Nat.lt_irrefl _ (hlt _ hmem), hids⟩

theorem Wired.ends_acted (hw : Wired n) (h : n.Acted a p r ev e n') {q : Int16} {r0 : Router}
    (hr0 : n'.routers q = some r0) {l : Link} (hl : l ∈ r0.ports ++ r0.terminal.accepted) :
    ∃ k r', n'.conns[l.client.conn]? = some k ∧ n'.routers k.server = some r' ∧
      r'.ip = l.router2.simulatedIPAddress := by
  have hlead : ∀ {c : Nat} {k : Connection} {r1 : Router} {i : String}, n.conns[c]? = some k →
      n.routers k.server = some r1 → r1.ip = i →
      ∃ k r', n'.conns[c]? = some k ∧ n'.routers k.server = some r' ∧ r'.ip = i := by
    intro c k r1 i hk hr1 hip
    obtain ⟨r', hr', hip'⟩ := h.ip_kept hr1
    exact ⟨_, r', h.conn_kept hk, hr', by rw [hip', hip]⟩
  have hold : ∀ {q : Int16} {r1 : Router}, n.routers q = some r1 →
      ∀ l' ∈ r1.ports ++ r1.terminal.accepted, l'.key = l.key →
      ∃ k r', n'.conns[l.client.conn]? = some k ∧ n'.routers k.server = some r' ∧
        r'.ip = l.router2.simulatedIPAddress := by
    intro q r1 hr1 l' hl' hkey
    obtain ⟨k, r', hk, hr', hip⟩ := hw.ends q r1 hr1 l' hl'
    obtain ⟨hc, hs⟩ := Prod.mk.inj hkey
    rw [hc] at hk
    rw [hs] at hip
    exact hlead hk hr' hip
  rcases h.router_cases hr0 with ⟨rfl, rfl⟩ | ⟨-, hr0'⟩
  · rcases List.mem_append.mp hl with hport | hacc
    · rcases Router.did_ports h.did with hsub | ⟨link, ht, hp, -, -⟩ |
        ⟨connect, msg, link, hev, htype, -, ho, hp, hclient, hip⟩
      · obtain ⟨l', hl', hkey⟩ := List.mem_map.mp (hsub.subset (List.mem_map_of_mem hport))
        exact hold h.router l' (List.mem_append_left _ hl') hkey
      · rw [hp] at hport
        rcases List.mem_append.mp hport with h1 | h1
        · exact hold h.router l (List.mem_append_left _ h1) rfl
        · rw [List.mem_singleton] at h1
          subst h1
          exact hold h.router l (by simp [ht, Terminal.accepted]) rfl
      · rw [hp] at hport
        rcases List.mem_append.mp hport with h1 | h1
        · exact hold h.router l (List.mem_append_left _ h1) rfl
        · rw [List.mem_singleton] at h1
          subst h1
          obtain ⟨rfl, r1, hr1, hip1, -⟩ := hw.attach_from h hev htype
          obtain ⟨r', hr', hip'⟩ := h.ip_kept hr1
          rw [hclient]
          exact ⟨_, r', h.conn_opened ho, hr', by rw [hip, ← hip1, hip']⟩
    · rcases Router.did_terminal h.did with ht | ht | ⟨_, _, _, _, link, -, -, ht, -⟩ |
        ⟨link, msg, hev, ht, ht', htype, hid, -⟩ | ⟨i, m, l', ht, -, -⟩
      · rw [ht] at hacc
        exact hold h.router l (List.mem_append_right _ hacc) rfl
      · have hmem := accepted_subset_link _ hacc
        rw [ht] at hmem
        cases hmem
      · rw [ht] at hacc
        cases hacc
      · rw [ht'] at hacc
        simp only [Terminal.accepted, List.mem_singleton] at hacc
        subst hacc hev
        cases h.offers with
        | read hwait hk hq =>
          simp only [Router.waitsOn, ht, Option.some.injEq] at hwait
          subst hwait
          rcases hw.answered _ _ hk msg (by simp [hq]) with hrej | ⟨r1, hr1, hid1⟩
          · rw [htype] at hrej
            cases hrej
          · exact hlead hk hr1 (by rw [← hid1, hid])
      · rw [ht] at hacc
        cases hacc
  · exact hold hr0' l hl rfl

theorem Wired.sent_acted (hw : Wired n) (h : n.Acted a p r ev e n') {c : Nat} {k' : Connection}
    (hk' : n'.conns[c]? = some k') {m : SOSPFPacket} (hm : m ∈ k'.toServer) :
    ∃ r', n'.routers k'.client = some r' ∧ m.routerID = r'.ip ∧
      (m.sospfType = .ATTACH → m.srcProcessPort = k'.client ∧
        (n'.running k'.server = true → ∃ link, r'.terminal = .attachSent link ∧
          link.client.conn = c ∧ link.router2.simulatedIPAddress = m.neighborID)) := by
  rcases h.mem_toServer hk' hm with ⟨k, hk, hclient, hserver, hm1⟩ | hm1
  · obtain ⟨r1, hr1, hip, hatt⟩ := hw.sent c k hk m hm1
    obtain ⟨r', hr', hip1⟩ := h.ip_kept hr1
    rw [hclient, hserver]
    refine ⟨r', hr', by rw [hip, hip1], fun ht => ⟨(hatt ht).1, fun hrun => ?_⟩⟩
    have hrun0 : n.running k.server = true := h.running_of_running hrun
    obtain ⟨link, hlink, hc, hip'⟩ := (hatt ht).2 hrun0
    rcases h.router_cases hr' with ⟨hp, rfl⟩ | ⟨hp, hr1'⟩
    · rw [hp, h.router] at hr1
      cases hr1
      subst hc
      rcases Router.did_attachSent h.did hlink with ⟨hsame, -⟩ | ⟨response, rfl, -⟩
      · exact ⟨link, hsame, rfl, hip'⟩
      · cases h.offers with
        | read hwait hk2 hq =>
          simp only [Router.waitsOn, hlink, Option.some.injEq] at hwait
          subst hwait
          rw [hk] at hk2
          cases hk2
          have hone := hw.waiting p r link h.router hlink k hk
          have hpos := List.length_pos_of_mem hm1
          simp only [hq, List.length_cons] at hone
          omega
        | eof hwait hk2 _ hend =>
          simp only [Router.waitsOn, hlink, Option.some.injEq] at hwait
          subst hwait
          rw [hk] at hk2
          cases hk2
          rw [hend] at hrun0
          cases hrun0
    · rw [hr1] at hr1'
      cases hr1'
      exact ⟨link, hlink, hc, hip'⟩
  · have hclient := hw.sends_client h hm1 hk'
    refine ⟨e.router, by rw [hclient, h.router_self], ?_, ?_⟩
    · rw [(Router.did_sends h.did hm1).1, Router.did_ip h.did]
    · intro ht
      obtain ⟨-, ⟨hne, -⟩ | ⟨connect, a', q, s, hev, -, hc, hreq, -, link, hlink, hl, hs⟩⟩ :=
        Router.did_sends h.did hm1
      · exact absurd ht hne
      · refine ⟨?_, fun _ => ⟨link, hlink, by rw [hl, hc], by rw [hs, hreq]; rfl⟩⟩
        rw [hreq, hclient]
        exact hw.port p r h.router

theorem Wired.answered_acted (hw : Wired n) (h : n.Acted a p r ev e n') {c : Nat} {k' : Connection}
    (hk' : n'.conns[c]? = some k') {m : SOSPFPacket} (hm : m ∈ k'.toClient) :
    m.sospfType = .ATTACH_REJECT ∨ ∃ r', n'.routers k'.server = some r' ∧ m.routerID = r'.ip := by
  obtain ⟨k, hk, -, hserver, hm1 | ⟨-, rfl, hreply⟩⟩ := h.mem_toClient hk' hm
  · rw [hserver]
    rcases hw.answered c k hk m hm1 with hrej | ⟨r1, hr1, hid⟩
    · exact Or.inl hrej
    · obtain ⟨r', hr', hip⟩ := h.ip_kept hr1
      exact Or.inr ⟨r', hr', by rw [hid, hip]⟩
  · rw [hserver]
    rcases Router.did_reply h.did hreply with ⟨-, hid⟩ | hrej
    · exact Or.inr ⟨_, h.router_self, by rw [hid, Router.did_ip h.did]⟩
    · exact Or.inl hrej

/-- While `attach` waits, nothing else is sent on its connection. -/
theorem Wired.waiting_acted (hw : Wired n) (h : n.Acted a p r ev e n') {q : Int16} {r' : Router}
    {link : Link} (hr' : n'.routers q = some r') (ht : r'.terminal = .attachSent link)
    {k' : Connection} (hk' : n'.conns[link.client.conn]? = some k') :
    k'.toServer.length + k'.toClient.length ≤ 1 := by
  -- an old wait, of the acting router or of another one
  have hold : ∀ r0, n.routers q = some r0 → r0.terminal = .attachSent link →
      k'.toServer.length + k'.toClient.length ≤ 1 := by
    intro r0 hr0 ht0
    obtain ⟨-, k, hk, hclient⟩ := hw.held q r0 hr0 link (by simp [ht0, Terminal.link, Terminal.pending])
    have hone := hw.waiting q r0 link hr0 ht0 k hk
    rw [h.conn_kept hk] at hk'
    cases hk'
    refine Nat.le_trans (after_length_le h.offers hk fun m hm => ?_) hone
    have hsender := hw.sends_client h hm (h.conn_kept hk)
    have hp : q = p := hclient.symm.trans hsender
    subst hp
    rw [h.router] at hr0
    cases hr0
    obtain ⟨-, ⟨-, ⟨l, hl, hc⟩ | ⟨j, x, l, ht', -⟩⟩ | ⟨_, _, _, _, -, ht', -⟩⟩ :=
      Router.did_sends h.did hm
    · have hids := hw.ids q r h.router
      rw [ht0, List.map_append, List.nodup_append] at hids
      exact hids.2.2 _ (List.mem_map_of_mem hl) _ (by simp [Terminal.pending]) hc
    · rw [ht0] at ht'
      cases ht'
    · rw [ht0] at ht'
      cases ht'
  rcases h.router_cases hr' with ⟨rfl, rfl⟩ | ⟨-, hr0⟩
  · rcases Router.did_terminal h.did with hsame | hnil |
      ⟨connect, a', x, s, link', hev, -, ht', hc, -, ho, -, hsends⟩ | ⟨link', msg, -, -, ht', -⟩ |
      ⟨i, m, l', ht', -, -⟩
    · exact hold r h.router (by rw [← hsame, ht])
    · rw [ht] at hnil
      cases hnil
    · rw [ht] at ht'
      cases ht'
      subst hev
      cases h.offers
      rw [hc, show (n.connect x).conn = n.conns.length from rfl, h.conn_opened ho] at hk'
      cases hk'
      have hsendsTo : sendsTo n.conns.length e.sends = [r.attachRequest s] := by
        rw [hsends]
        simp [sendsTo, connect]
      simp [after, hsendsTo, readsFrom]
    · rw [ht] at ht'
      cases ht'
    · rw [ht] at ht'
      cases ht'
  · exact hold r' hr0 ht

theorem Wired.acted (hw : Wired n) (h : n.Acted a p r ev e n') : Wired n' where
  port := by
    intro q r' hr'
    rcases h.router_cases hr' with ⟨rfl, rfl⟩ | ⟨-, hr0⟩
    · rw [Router.did_rd h.did]
      exact hw.port q r h.router
    · exact hw.port q r' hr0
  named := by
    intro q r' hr'
    rcases h.router_cases hr' with ⟨rfl, -⟩ | ⟨-, hr0⟩
    · exact hw.named q r h.router
    · exact hw.named q r' hr0
  held := by
    intro q r' hr' l hl
    rcases h.router_cases hr' with ⟨rfl, rfl⟩ | ⟨-, hr0⟩
    · exact hw.held_acted h hl
    · obtain ⟨hc, hk⟩ := hw.held q r' hr0 l hl
      exact ⟨hc, h.held_kept hk⟩
  ids := by
    intro q r' hr'
    rcases h.router_cases hr' with ⟨rfl, rfl⟩ | ⟨-, hr0⟩
    · exact hw.ids_acted h
    · exact hw.ids q r' hr0
  ends := fun _ _ hr' _ hl => hw.ends_acted h hr' hl
  sent := fun _ _ hk' _ hm => hw.sent_acted h hk' hm
  answered := fun _ _ hk' _ hm => hw.answered_acted h hk' hm
  waiting := fun _ _ _ hr' ht _ hk' => hw.waiting_acted h hr' ht hk'

theorem Lost.conn_cases {c : Nat} {k : Connection} (h : n.Lost c k n') {i : Nat} {k' : Connection}
    (hk' : n'.conns[i]? = some k') : ∃ k0, n.conns[i]? = some k0 ∧ k'.client = k0.client ∧
      k'.server = k0.server ∧ k'.toClient = k0.toClient ∧ k'.toServer <:+ k0.toServer := by
  rw [h.conns] at hk'
  obtain ⟨k0, hk0, rfl⟩ := Option.map_eq_some_iff.mp hk'
  refine ⟨k0, hk0, ?_⟩
  split
  · exact ⟨rfl, rfl, rfl, List.tail_suffix _⟩
  · exact ⟨rfl, rfl, rfl, List.suffix_refl _⟩

theorem Lost.conn_kept {c : Nat} {k : Connection} (h : n.Lost c k n') {i : Nat} {k0 : Connection}
    (hk0 : n.conns[i]? = some k0) : ∃ k', n'.conns[i]? = some k' ∧ k'.client = k0.client ∧
      k'.server = k0.server := by
  rw [h.conns, hk0, Option.map_some]
  refine ⟨_, rfl, ?_⟩
  split <;> exact ⟨rfl, rfl⟩

theorem Wired.lost (hw : Wired n) {c : Nat} {k : Connection} (h : n.Lost c k n') : Wired n' where
  port := by
    rw [h.routers]
    exact hw.port
  named := by
    rw [h.routers]
    exact hw.named
  held := by
    intro p r hr l hl
    rw [h.routers] at hr
    obtain ⟨hc, k0, hk0, hp⟩ := hw.held p r hr l hl
    obtain ⟨k', hk', hclient, -⟩ := h.conn_kept hk0
    exact ⟨hc, k', hk', by rw [hclient, hp]⟩
  ids := by
    rw [h.routers]
    exact hw.ids
  ends := by
    intro p r hr l hl
    rw [h.routers] at hr ⊢
    obtain ⟨k0, r', hk0, hr', hip⟩ := hw.ends p r hr l hl
    obtain ⟨k', hk', -, hserver⟩ := h.conn_kept hk0
    exact ⟨k', r', hk', by rw [hserver, hr'], hip⟩
  sent := by
    intro i k' hk' m hm
    obtain ⟨k0, hk0, hclient, hserver, -, hsuf⟩ := h.conn_cases hk'
    have hrun : n'.running k'.server = n.running k0.server := by rw [hserver, running, running, h.routers]
    rw [hrun, hclient, h.routers]
    exact hw.sent i k0 hk0 m (hsuf.subset hm)
  answered := by
    intro i k' hk' m hm
    obtain ⟨k0, hk0, -, hserver, hto, -⟩ := h.conn_cases hk'
    rw [h.routers, hserver]
    exact hw.answered i k0 hk0 m (hto ▸ hm)
  waiting := by
    intro p r link hr ht k' hk'
    rw [h.routers] at hr
    obtain ⟨k0, hk0, -, -, hto, hsuf⟩ := h.conn_cases hk'
    have := hw.waiting p r link hr ht k0 hk0
    have := hsuf.length_le
    rw [hto]
    omega

theorem Wired.step (hw : Wired n) (h : n.step a = some n') : Wired n' := by
  rcases step_acted h with ⟨p, r, ev, e, hact⟩ | ⟨c, k, -, hlost⟩
  · exact hw.acted hact
  · exact hw.lost hlost

end wired

theorem wired_run {conf : Int16 → Option Configuration} {ok : Network → Action → Prop}
    {acts : List Action} {n : Network} (h : Run step ok (init conf) acts n) : Wired n :=
  h.invariant (wired_init conf) fun _ _ _ hw _ hs => hw.step hs

/-! ## Addresses -/

/-- No two routers of the configuration have one address. -/
def DistinctIPs (conf : Int16 → Option Configuration) : Prop :=
  ∀ p q c d, conf p = some c → conf q = some d → c.ip = d.ip → p = q

theorem distinctIPs_threeRouters : DistinctIPs threeRouters := by
  intro p q c d hc hd hip
  unfold threeRouters at hc hd
  split_ifs at hc hd <;> cases hc <;> cases hd <;> simp_all

/-- No two routers of the network have one address. -/
def Apart (n : Network) : Prop :=
  ∀ p q r r', n.routers p = some r → n.routers q = some r' → r.ip = r'.ip → p = q

theorem apart_init {conf : Int16 → Option Configuration} (hconf : DistinctIPs conf) :
    Apart (init conf) := by
  intro p q r r' hr hr' hip
  obtain ⟨-, c, hc, rfl⟩ := init_routers hr
  obtain ⟨-, d, hd, rfl⟩ := init_routers hr'
  exact hconf p q c d hc hd hip

/-- A router of the network was there from the start, with its address. -/
theorem router_before {n n' : Network} {a : Action} (hs : n.step a = some n') {q : Int16}
    {r' : Router} (hr' : n'.routers q = some r') :
    ∃ r, n.routers q = some r ∧ r.ip = r'.ip := by
  rcases step_acted hs with ⟨p, r, ev, e, hact⟩ | ⟨c, k, -, hlost⟩
  · rcases hact.router_cases hr' with ⟨rfl, rfl⟩ | ⟨-, hr⟩
    · exact ⟨r, hact.router, (Router.did_ip hact.did).symm⟩
    · exact ⟨r', hr, rfl⟩
  · rw [hlost.routers] at hr'
    exact ⟨r', hr', rfl⟩

theorem Apart.step {n n' : Network} {a : Action} (h : Apart n) (hs : n.step a = some n') :
    Apart n' := by
  intro p q r r' hr hr' hip
  obtain ⟨s, hs1, hsip⟩ := router_before hs hr
  obtain ⟨s', hs2, hsip'⟩ := router_before hs hr'
  exact h p q s s' hs1 hs2 (by rw [hsip, hip, hsip'])

theorem router_run {conf : Int16 → Option Configuration} {ok : Network → Action → Prop}
    {acts : List Action} {n : Network} (h : Run step ok (init conf) acts n) :
    ∀ p r, n.routers p = some r → ∃ c, conf p = some c := by
  apply h.invariant (P := fun n => ∀ p r, n.routers p = some r → ∃ c, conf p = some c)
  · intro p r hr
    obtain ⟨-, c, hc, -⟩ := init_routers hr
    exact ⟨c, hc⟩
  · intro s a s' hs _ hstep p r hr
    obtain ⟨r0, hr0, -⟩ := router_before hstep hr
    exact hs p r0 hr0

end Network
end socs.network
