-- The handshake. A link goes from IDLE over INIT to TWO-WAY, and stays there,
-- in every run in which no HELLO meets a link that is TWO-WAY already. Such a
-- HELLO sets the link back, and the advertisement of the start under way is
-- not sent over it.
import SysNet.LinkState.Wiring

open runs

namespace socs.network

/-! ## The links of one router -/

namespace Router

/-- The packet is a HELLO, and the link to its sender is TWO-WAY already. -/
def helloMeetsTwoWay (r : Router) : Event → Prop
  | .handle _ msg =>
    msg.sospfType = .HELLO ∧ (r.remoteRD msg).map (·.router2.status) = some .TWO_WAY
  | _ => False

theorem mem_setStatus {r : Router} {c : Nat} {s : RouterStatus} {l' : Link}
    (h : l' ∈ (r.setStatus c s).ports) :
    ∃ l ∈ r.ports, l.client = l'.client ∧
      (l.client.conn = c ∧ l'.router2.status = s ∨ l.client.conn ≠ c ∧ l' = l) := by
  obtain ⟨l, hl, rfl⟩ := List.mem_map.mp h
  refine ⟨l, hl, ?_⟩
  split
  · rename_i hc
    exact ⟨rfl, Or.inl ⟨hc, rfl⟩⟩
  · rename_i hc
    exact ⟨rfl, Or.inr ⟨hc, rfl⟩⟩

theorem rank_le_two (s : RouterStatus) : s.rank ≤ RouterStatus.TWO_WAY.rank := by
  cases s <;> decide

theorem rank_le_init {s : RouterStatus} (h : s ≠ .TWO_WAY) : s.rank ≤ RouterStatus.INIT.rank := by
  cases s with
  | TWO_WAY => exact absurd rfl h
  | _ => decide

/-- A link after an event was there before, with a status that is no further
on, or it is new. -/
theorem did_forward {r : Router} {ev : Event} {e : Effect} (h : Did r ev e)
    (hok : ¬ r.helloMeetsTwoWay ev)
    (hids : ((r.ports ++ r.terminal.pending).map (·.client.conn)).Nodup) {l' : Link}
    (hl' : l' ∈ e.router.ports ++ e.router.terminal.pending) :
    (∃ l ∈ r.ports ++ r.terminal.pending, l.client = l'.client ∧
      l.router2.status.rank ≤ l'.router2.status.rank) ∨
    ∃ connect q, ((∃ a s, ev = .advance connect ∧ r.terminal = .attaching a q s) ∨
      ∃ msg, ev = .handle connect msg) ∧ l'.client = connect q := by
  have hsame : ∀ {l : Link}, l ∈ r.ports ++ r.terminal.pending → l = l' → ∃ l ∈ r.ports ++ r.terminal.pending,
      l.client = l'.client ∧ l.router2.status.rank ≤ l'.router2.status.rank := by
    rintro l hl rfl
    exact ⟨l, hl, rfl, Nat.le_refl _⟩
  have hport : ∀ {l : Link}, l ∈ r.ports → l = l' → ∃ l ∈ r.ports ++ r.terminal.pending,
      l.client = l'.client ∧ l.router2.status.rank ≤ l'.router2.status.rank :=
    fun hl he => hsame (List.mem_append_left _ hl) he
  have htwo : ∀ c, l' ∈ (r.setStatus c .TWO_WAY).ports → ∃ l ∈ r.ports ++ r.terminal.pending,
      l.client = l'.client ∧ l.router2.status.rank ≤ l'.router2.status.rank := by
    intro c hmem
    obtain ⟨l, hl, hc, ⟨-, hs⟩ | ⟨-, he⟩⟩ := mem_setStatus hmem
    · exact ⟨l, List.mem_append_left _ hl, hc, hs ▸ rank_le_two _⟩
    · exact hport hl he.symm
  rcases List.mem_append.mp hl' with hp | hp
  · cases h with
    | @disconnect n link r1 out _ _ _ hr1 _ =>
      subst hr1
      exact Or.inl (hport (List.mem_of_mem_eraseIdx hp) rfl)
    | quit => cases hp
    | attachInsert ht =>
      rcases List.mem_append.mp hp with h1 | h1
      · exact Or.inl (hport h1 rfl)
      · exact Or.inl (hsame (by simp [ht, Terminal.pending]) (List.mem_singleton.mp h1).symm)
    | @helloReply _ _ l response _ =>
      cases response with
      | none => exact Or.inl (hport hp rfl)
      | some msg =>
        simp only [helloReply] at hp
        split at hp
        · exact Or.inl (htwo _ hp)
        · exact Or.inl (hport hp rfl)
    | @hello connect msg _ ht =>
      unfold parseHello at hp
      split at hp
      · exact Or.inl (hport hp rfl)
      · rename_i lf hfind
        obtain ⟨l, hl, hc, ⟨hconn, hs⟩ | ⟨-, he⟩⟩ := mem_setStatus hp
        · -- the link with this connection is the one that was found
          have hlf : lf ∈ r.ports := List.mem_of_find?_eq_some hfind
          have heq : l = lf := List.inj_on_of_nodup_map hids (List.mem_append_left _ hl)
            (List.mem_append_left _ hlf) hconn
          have hne : l.router2.status ≠ .TWO_WAY := by
            intro h2
            refine hok ⟨ht, ?_⟩
            rw [hfind, Option.map_some, ← heq, h2]
          exact Or.inl ⟨l, List.mem_append_left _ hl, hc, hs ▸ rank_le_init hne⟩
        · exact Or.inl (hport hl he.symm)
    | @respond c msg _ =>
      simp only [parseResponse] at hp
      split at hp
      · exact Or.inl (htwo _ hp)
      · exact Or.inl (hport hp rfl)
    | @attached connect msg _ _ =>
      unfold parseAttach at hp
      split at hp
      · rcases List.mem_append.mp hp with h1 | h1
        · exact Or.inl (hport h1 rfl)
        · rw [List.mem_singleton] at h1
          subst h1
          exact Or.inr ⟨connect, msg.srcProcessPort, Or.inr ⟨msg, rfl⟩, rfl⟩
      · exact Or.inl (hport hp rfl)
    | disconnected => exact Or.inl (hport (List.mem_of_mem_eraseP hp) rfl)
    | lsaUpdate =>
      unfold parseLsaUpdate at hp
      simp only at hp
      split at hp <;> exact Or.inl (hport hp rfl)
    | _ => exact Or.inl (hport hp rfl)
  · rcases did_terminal h with ht | ht | ⟨connect, a, q, s, link, hev, hat, ht, hc, -⟩ |
      ⟨link, msg, -, ht, ht', -⟩ | ⟨i, m, l, ht, -⟩
    · rw [ht] at hp
      exact Or.inl (hsame (List.mem_append_right _ hp) rfl)
    · have hmem := Network.pending_subset_link _ hp
      rw [ht] at hmem
      cases hmem
    · rw [ht] at hp
      simp only [Terminal.pending, List.mem_singleton] at hp
      subst hp
      exact Or.inr ⟨connect, q, Or.inl ⟨a, s, hev, hat⟩, hc⟩
    · rw [ht'] at hp
      simp only [Terminal.pending, List.mem_singleton] at hp
      exact Or.inl (hsame (by simp [ht, Terminal.pending]) hp.symm)
    · rw [ht] at hp
      cases hp

end Router

/-! ## The links of a network -/

namespace Network

/-- The status of the link that the next packet of the connection will set to
INIT, when this packet is a HELLO for an idle handler. -/
def helloFinds (n : Network) (c : Nat) : Option RouterStatus := do
  let k ← n.conns[c]?
  let msg ← k.toServer.head?
  let r ← n.routers k.server
  if k.handler = .idle ∧ msg.sospfType = .HELLO then
    (r.remoteRD msg).map (·.router2.status)
  else none

/-- The step handles a HELLO for a link that is TWO-WAY already. -/
def helloMeetsTwoWay (n : Network) : Action → Prop
  | .deliver c => n.helloFinds c = some .TWO_WAY
  | _ => False

instance (n : Network) : (a : Action) → Decidable (n.helloMeetsTwoWay a)
  | .deliver c => inferInstanceAs (Decidable (n.helloFinds c = some .TWO_WAY))
  | .command _ _ => isFalse id
  | .advance _ => isFalse id
  | .read _ => isFalse id

/-- Every link that was there in `n`, or that an `attach` under way there went
on to insert, has a status in `n'` that is at least as far on. -/
def Forward (n n' : Network) : Prop :=
  ∀ p r', n'.routers p = some r' → ∀ l' ∈ r'.ports ++ r'.terminal.pending,
    l'.client.conn < n.conns.length →
    ∃ r, n.routers p = some r ∧ ∃ l ∈ r.ports ++ r.terminal.pending, l.client = l'.client ∧
      l.router2.status.rank ≤ l'.router2.status.rank

theorem forward_refl (n : Network) : Forward n n :=
  fun _ r hr l hl _ => ⟨r, hr, l, hl, rfl, Nat.le_refl _⟩

theorem Forward.trans {n n' n'' : Network} (h : Forward n n') (h' : Forward n' n'')
    (hlen : n.conns.length ≤ n'.conns.length) : Forward n n'' := by
  intro p r'' hr'' l'' hl'' hlt
  obtain ⟨r', hr', l', hl', hc', hle'⟩ := h' p r'' hr'' l'' hl'' (Nat.lt_of_lt_of_le hlt hlen)
  rw [← hc'] at hlt
  obtain ⟨r, hr, l, hl, hc, hle⟩ := h p r' hr' l' hl' hlt
  exact ⟨r, hr, l, hl, hc.trans hc', Nat.le_trans hle hle'⟩

theorem length_le_of_step {n n' : Network} {a : Action} (h : n.step a = some n') :
    n.conns.length ≤ n'.conns.length := by
  have hkept : ∀ (c : Nat) k, n.conns[c]? = some k → ∃ k', n'.conns[c]? = some k' := by
    intro c k hk
    rcases step_acted h with ⟨p, r, ev, e, hact⟩ | ⟨_, _, -, hlost⟩
    · exact ⟨_, hact.conn_kept hk⟩
    · obtain ⟨k', hk', -⟩ := hlost.conn_kept hk
      exact ⟨k', hk'⟩
  by_contra hlt
  obtain ⟨k', hk'⟩ := hkept n'.conns.length _ (List.getElem?_eq_getElem (by omega))
  simp at hk'

theorem helloMeetsTwoWay_of_event {n n' : Network} {a : Action} {p : Int16} {r : Router}
    {ev : Router.Event} {e : Effect} (h : n.Acted a p r ev e n') (hev : r.helloMeetsTwoWay ev) :
    n.helloMeetsTwoWay a := by
  have hr := h.router
  cases h.offers with
  | @handle c _ k msg rest hk hq hidle =>
    obtain ⟨ht, hfind⟩ := hev
    simp [helloMeetsTwoWay, helloFinds, hk, hq, hidle, ht, hr, hfind]
  | _ => exact hev.elim

theorem forward_step {n n' : Network} {a : Action} (hw : Wired n) (hok : ¬ n.helloMeetsTwoWay a)
    (h : n.step a = some n') : Forward n n' := by
  intro q r' hr' l' hl' hlt
  rcases step_acted h with ⟨p, r, ev, e, hact⟩ | ⟨c, k, -, hlost⟩
  · rcases hact.router_cases hr' with ⟨rfl, rfl⟩ | ⟨-, hr0⟩
    · rcases Router.did_forward hact.did (fun hev => hok (helloMeetsTwoWay_of_event hact hev))
        (hw.ids q r hact.router) hl' with ⟨l, hl, hc, hle⟩ | ⟨connect, x, hev, hc⟩
      · exact ⟨r, hact.router, l, hl, hc, hle⟩
      · have hconnect : connect = n.connect := by
          rcases hev with ⟨_, _, rfl, -⟩ | ⟨msg, rfl⟩
          · cases hact.offers
            rfl
          · cases hact.offers
            rfl
        rw [hc, hconnect] at hlt
        exact absurd hlt (Nat.lt_irrefl _)
    · exact ⟨r', hr0, l', hl', rfl, Nat.le_refl _⟩
  · rw [hlost.routers] at hr'
    exact ⟨r', hr', l', hl', rfl, Nat.le_refl _⟩

theorem forward_run {n n' : Network} {acts : List Action} (hw : Wired n)
    (h : Run step (fun n a => ¬ n.helloMeetsTwoWay a) n acts n') :
    Wired n' ∧ Forward n n' ∧ n.conns.length ≤ n'.conns.length := by
  apply h.invariant (P := fun n' => Wired n' ∧ Forward n n' ∧ n.conns.length ≤ n'.conns.length)
  · exact ⟨hw, forward_refl n, Nat.le_refl _⟩
  · intro s a s' hs hok hstep
    obtain ⟨hws, hf, hlen⟩ := hs
    exact ⟨hws.step hstep, hf.trans (forward_step hws hok hstep) hlen,
      Nat.le_trans hlen (length_le_of_step hstep)⟩

/-- All sends of a broadcast succeed, and one goes over each TWO-WAY link. -/
theorem Wired.sends_startEnd {n : Network} (hw : Wired n) {p : Int16} {r : Router}
    (hr : n.routers p = some r) {l : Link} (hl : l ∈ r.ports) (htwo : l.router2.status = .TWO_WAY) :
    (l.client.conn, r.updateLSD.lsaUpdate l) ∈ r.startEnd.sends := by
  have hall : allSent r.updateLSD.broadcastLSA = true := by
    unfold allSent
    rw [List.all_eq_true]
    intro cm hcm
    obtain ⟨l', hl', rfl⟩ := List.mem_map.mp hcm
    exact (hw.held p r hr l' (List.mem_append_left _ (List.mem_of_mem_filter hl'))).1
  unfold Router.startEnd
  simp only
  rw [sent_of_allSent hall]
  apply List.mem_map.mpr
  refine ⟨(l.client, r.updateLSD.lsaUpdate l), ?_, rfl⟩
  apply List.mem_map.mpr
  exact ⟨l, List.mem_filter.mpr ⟨hl, by simpa using htwo⟩, rfl⟩

theorem step_startEnd {n : Network} {p : Int16} {r : Router} (hr : n.routers p = some r) {y : Nat}
    (ht : r.terminal = .starting r.ports.length y) :
    n.step (.advance p) = some (n.act p r.startEnd) := by
  simp [step, hr, Router.react, Router.advance, ht, Router.startNext]

theorem step_helloAck {n n' : Network} {p : Int16} {r : Router} (hr : n.routers p = some r)
    {i x : Nat} {l : Link} (ht : r.terminal = .helloSent i x l) {k : Connection}
    (hk : n.conns[l.client.conn]? = some k) {msg : SOSPFPacket} {rest : List SOSPFPacket}
    (hq : k.toClient = msg :: rest) (hack : msg.sospfType = .HELLO_ACK)
    (h : n.step (.read p) = some n') :
    ∃ r1, n'.routers p = some r1 ∧ r1.ports = (r.setStatus l.client.conn .TWO_WAY).ports ∧
      r1.terminal.pending = [] := by
  simp only [step, read, hr, Option.bind_eq_bind, Option.bind_some, Router.waitsOn, ht, hk, hq,
    Router.react, Router.read, Option.pure_def, Option.some.injEq] at h
  subst h
  refine ⟨_, Function.update_self _ _ _, ?_, rfl⟩
  simp [Router.helloReply, hack]

/-- In a run in which no HELLO meets a link that is TWO-WAY already, the status
of a link only moves forward while the link is in `ports`, and never leaves
TWO-WAY. So when the HELLO of a start was acknowledged, the broadcast at the
end of the start sends the advertisement over that link. -/
theorem links_move_forward_unless_a_hello_meets_two_way (conf : Int16 → Option Configuration)
    (acts acts' : List Action) (n n' : Network)
    (h : Run step (fun n a => ¬ n.helloMeetsTwoWay a) (init conf) acts n)
    (h' : Run step (fun n a => ¬ n.helloMeetsTwoWay a) n acts' n') (p : Int16) (r r' : Router)
    (hr : n.routers p = some r) (hr' : n'.routers p = some r') :
    (∀ l ∈ r.ports, ∀ l' ∈ r'.ports, l'.client.conn = l.client.conn →
      l.router2.status.rank ≤ l'.router2.status.rank ∧
        (l.router2.status = .TWO_WAY → l'.router2.status = .TWO_WAY)) ∧
    (∀ i x l k msg rest more, r.terminal = .helloSent i x l →
      n.conns[l.client.conn]? = some k → k.toClient = msg :: rest → msg.sospfType = .HELLO_ACK →
      acts' = .read p :: more →
      ∀ y, ∀ l' ∈ r'.ports, r'.terminal = .starting r'.ports.length y →
        l'.client.conn = l.client.conn →
        n'.step (.advance p) = some (n'.act p r'.startEnd) ∧
          (l.client.conn, r'.updateLSD.lsaUpdate l') ∈ r'.startEnd.sends) := by
  have hw := wired_run h
  have hrank : ∀ s : RouterStatus, RouterStatus.TWO_WAY.rank ≤ s.rank → s = .TWO_WAY := by
    intro s
    cases s <;> decide
  constructor
  · intro l hl l' hl' hc
    have hlt := hw.held_lt hr (List.mem_append_left r.terminal.link hl)
    obtain ⟨r0, hr0, l0, hl0, hc0, hle⟩ :=
      (forward_run hw h').2.1 p r' hr' l' (List.mem_append_left _ hl') (hc ▸ hlt)
    rw [hr] at hr0
    cases hr0
    have heq : l0 = l := List.inj_on_of_nodup_map (hw.ids p r hr) hl0 (List.mem_append_left _ hl)
      ((congrArg Client.conn hc0).trans hc)
    subst heq
    refine ⟨hle, fun htwo => hrank _ ?_⟩
    rw [← htwo]
    exact hle
  · intro i x l k msg rest more ht hk hq hack hacts y l' hl' ht' hc
    subst hacts
    obtain ⟨n1, -, hstep, hrest⟩ := h'.head
    have hw1 := hw.step hstep
    obtain ⟨r1, hr1, hports, hpend⟩ := step_helloAck hr ht hk hq hack hstep
    obtain ⟨hw', hfwd, -⟩ := forward_run hw1 hrest
    have hlt : l'.client.conn < n1.conns.length := by
      rw [hc]
      exact Nat.lt_of_lt_of_le (List.getElem?_eq_some_iff.mp hk).1 (length_le_of_step hstep)
    obtain ⟨r0, hr0, l0, hl0, hc0, hle⟩ := hfwd p r' hr' l' (List.mem_append_left _ hl') hlt
    rw [hr1] at hr0
    cases hr0
    rw [hpend, List.append_nil, hports] at hl0
    have htwo0 : l0.router2.status = .TWO_WAY := by
      obtain ⟨lo, -, hco, ⟨-, hs⟩ | ⟨hne, -⟩⟩ := Router.mem_setStatus hl0
      · exact hs
      · exact absurd (by rw [hco, hc0, hc]) hne
    have htwo : l'.router2.status = .TWO_WAY := by
      apply hrank
      rw [← htwo0]
      exact hle
    refine ⟨step_startEnd hr' ht', ?_⟩
    rw [← hc]
    exact hw'.sends_startEnd hr' hl' htwo

/-! ## Two starts that cross -/

/-- The statuses of the links of the router at a port. -/
def statuses (p : Int16) (n : Network) : Option (List (Nat × RouterStatus)) :=
  (n.routers p).map fun r => r.ports.map fun l => (l.client.conn, l.router2.status)

/-- Both routers start, and the HELLO of each is under way. The router at port
3000 then has its HELLO acknowledged. -/
def crossingStarts : List Action :=
  attachAct ++ [.command 3000 .start, .advance 3000, .command 4000 .start, .advance 4000,
    .deliver 0, .read 3000]

/-- The HELLO of the other router sets the link from TWO-WAY back to INIT. -/
theorem a_link_goes_back_when_starts_cross :
    ¬ ∀ (conf : Int16 → Option Configuration) (acts acts' : List Action) (n n' : Network),
      Run step anyStep (init conf) acts n → Run step anyStep n acts' n' →
      ∀ (p : Int16) (r r' : Router), n.routers p = some r → n'.routers p = some r' →
      ∀ l ∈ r.ports, ∀ l' ∈ r'.ports, l'.client.conn = l.client.conn →
        l.router2.status.rank ≤ l'.router2.status.rank := by
  intro h
  have hend : (exec step anyStep (init threeRouters) crossingStarts).bind (fun n =>
      (exec step anyStep n [.deliver 1]).bind fun n' =>
        (statuses 3000 n).bind fun s => (statuses 3000 n').map fun s' => (s, s')) =
      some ([(0, .TWO_WAY)], [(0, .INIT)]) := by decide
  obtain ⟨n, hn, h1⟩ := Option.bind_eq_some_iff.mp hend
  obtain ⟨n', hn', h2⟩ := Option.bind_eq_some_iff.mp h1
  obtain ⟨s, hs, h3⟩ := Option.bind_eq_some_iff.mp h2
  obtain ⟨s', hs', heq⟩ := Option.map_eq_some_iff.mp h3
  simp only [Prod.mk.injEq] at heq
  obtain ⟨rfl, rfl⟩ := heq
  obtain ⟨r, hr, hl⟩ := Option.map_eq_some_iff.mp hs
  obtain ⟨r', hr', hl'⟩ := Option.map_eq_some_iff.mp hs'
  obtain ⟨l, hmem, heq⟩ := List.mem_map.mp (hl ▸ List.mem_singleton_self _ : (0, _) ∈ _)
  obtain ⟨l', hmem', heq'⟩ := List.mem_map.mp (hl' ▸ List.mem_singleton_self _ : (0, _) ∈ _)
  simp only [Prod.mk.injEq] at heq heq'
  have hle := h threeRouters _ _ n n' (run_of_exec hn) (run_of_exec hn') 3000 r r' hr hr' l hmem l'
    hmem' (by rw [heq.1, heq'.1])
  rw [heq.2, heq'.2] at hle
  simp [RouterStatus.rank] at hle

/-- A start that no other one crosses sets the link to TWO-WAY. -/
theorem a_link_moves_forward_in_one_start :
    ∃ n n' r r', Run step (fun n a => ¬ n.helloMeetsTwoWay a) (init threeRouters) attachAct n ∧
      Run step (fun n a => ¬ n.helloMeetsTwoWay a) n startAct n' ∧
      n.routers 3000 = some r ∧ n'.routers 3000 = some r' ∧
      r.ports.map (·.router2.status) = [.IDLE] ∧ r'.ports.map (·.router2.status) = [.TWO_WAY] ∧
      ∀ l ∈ r.ports, ∀ l' ∈ r'.ports, l'.client.conn = l.client.conn →
        l.router2.status.rank ≤ l'.router2.status.rank := by
  have hend : (exec step (fun n a => ¬ n.helloMeetsTwoWay a) (init threeRouters) attachAct).bind
      (fun n => (exec step (fun n a => ¬ n.helloMeetsTwoWay a) n startAct).bind fun n' =>
        (n.routers 3000).bind fun r => (n'.routers 3000).map fun r' =>
          (r.ports.map (·.router2.status), r'.ports.map (·.router2.status))) =
      some ([.IDLE], [.TWO_WAY]) := by decide
  obtain ⟨n, hn, h1⟩ := Option.bind_eq_some_iff.mp hend
  obtain ⟨n', hn', h2⟩ := Option.bind_eq_some_iff.mp h1
  obtain ⟨r, hr, h3⟩ := Option.bind_eq_some_iff.mp h2
  obtain ⟨r', hr', heq⟩ := Option.map_eq_some_iff.mp h3
  simp only [Prod.mk.injEq] at heq
  have hrun := run_of_exec hn
  have hrun' := run_of_exec hn'
  refine ⟨n, n', r, r', hrun, hrun', hr, hr', heq.1, heq.2, fun l hl l' hl' hc => ?_⟩
  exact ((links_move_forward_unless_a_hello_meets_two_way threeRouters _ _ n n' hrun hrun' 3000 r r'
    hr hr').1 l hl l' hl' hc).1

end Network
end socs.network
