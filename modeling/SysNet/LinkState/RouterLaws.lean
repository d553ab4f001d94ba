-- The laws of one router, over every sequence of commands and packets: how
-- many ports it can have, what its own advertisement names, and when it has one.
import SysNet.Lib.Runs
import SysNet.LinkState.NewestLsa

open runs

namespace socs.network
namespace Router

/-! ## What the events leave alone -/

theorem did_rd {r : Router} {ev : Event} {e : Effect} (h : Did r ev e) : e.router.rd = r.rd := by
  cases h with
  | disconnect _ _ _ hr1 _ => subst hr1; rfl
  | helloReply => rename_i response _; cases response <;> rfl
  | hello => unfold parseHello; split <;> rfl
  | attached => unfold parseAttach; split <;> rfl
  | lsaUpdate => unfold parseLsaUpdate; simp only; split <;> rfl
  | _ => rfl

theorem did_ip {r : Router} {ev : Event} {e : Effect} (h : Did r ev e) : e.router.ip = r.ip := by
  rw [ip, did_rd h, ip]

theorem buildLSA_addPort (r : Router) (link : Link) :
    r.buildLSA.links <+: (r.addPort link).buildLSA.links := by
  simp only [buildLSA, addPort, List.mapIdx_append]
  exact List.prefix_append _ _

theorem buildLSA_setStatus (r : Router) (c : Nat) (s : RouterStatus) :
    (r.setStatus c s).buildLSA.links = r.buildLSA.links := by
  simp only [buildLSA, setStatus]
  apply List.ext_getElem?
  intro i
  simp only [List.getElem?_mapIdx, List.getElem?_map, Option.map_map]
  congr 1
  funext l
  simp only [Function.comp_apply]
  split <;> rfl

/-- The database after an event: the same one, with the own advertisement
built again, without an entry as well, or with the updates of a packet. -/
theorem did_lsd {r : Router} {ev : Event} {e : Effect} (h : Did r ev e) :
    (e.router.lsd = r.lsd ∧ (ev = .command .quit ∨ r.buildLSA.links <+: e.router.buildLSA.links)) ∨
    (∃ r' : Router, r'.rd = r.rd ∧ r'.lsd = r.lsd ∧ e.router.ports = r'.ports ∧
      e.router.lsd = r'.updateLSD.lsd) ∨
    (∃ connect msg, ev = .handle connect msg ∧ msg.sospfType = .DISCONNECT ∧
      e.router.ports = (r.removeRemote msg.routerID).ports ∧
      e.router.lsd = (r.removeRemote msg.routerID).updateLSD.lsd.remove msg.routerID) ∨
    ∃ connect msg, ev = .handle connect msg ∧ msg.sospfType = .LSAUPDATE ∧
      e.router.ports = r.ports ∧ e.router.lsd = (r.lsd.receive (beforeNull msg.lsaArray)).1 := by
  cases h with
  | @disconnect n _ r1 _ _ _ _ hr1 _ =>
    subst hr1
    exact Or.inr (Or.inl ⟨r.withoutPort n, rfl, rfl, rfl, rfl⟩)
  | startEnd => exact Or.inr (Or.inl ⟨r, rfl, rfl, rfl, rfl⟩)
  | quit => exact Or.inl ⟨rfl, Or.inl rfl⟩
  | @attachInsert _ link _ => exact Or.inl ⟨rfl, Or.inr (r.buildLSA_addPort link)⟩
  | @helloReply _ _ l response _ =>
    left
    cases response with
    | none => exact ⟨rfl, Or.inr (List.prefix_refl _)⟩
    | some m =>
      refine ⟨rfl, Or.inr ?_⟩
      by_cases hm : m.sospfType = .HELLO_ACK
      · simp only [helloReply, hm, if_true]
        exact (r.buildLSA_setStatus l.client.conn .TWO_WAY) ▸ List.prefix_refl _
      · simp only [helloReply, hm, if_false]
        exact List.prefix_refl _
  | hello =>
    left
    unfold parseHello
    split
    · exact ⟨rfl, Or.inr (List.prefix_refl _)⟩
    · exact ⟨rfl, Or.inr (by rw [buildLSA_setStatus])⟩
  | @respond c msg _ =>
    refine Or.inl ⟨rfl, Or.inr ?_⟩
    by_cases hm : msg.sospfType = .HELLO_TWO_WAY
    · simp only [parseResponse, hm, if_true]
      exact (r.buildLSA_setStatus c .TWO_WAY) ▸ List.prefix_refl _
    · simp only [parseResponse, hm, if_false]
      exact List.prefix_refl _
  | attached =>
    left
    unfold parseAttach
    split
    · exact ⟨rfl, Or.inr (r.buildLSA_addPort _)⟩
    · exact ⟨rfl, Or.inr (List.prefix_refl _)⟩
  | @disconnected connect msg _ ht =>
    exact Or.inr (Or.inr (Or.inl ⟨connect, msg, rfl, ht, rfl, rfl⟩))
  | @lsaUpdate connect msg _ ht =>
    refine Or.inr (Or.inr (Or.inr ⟨connect, msg, rfl, ht, ?_, parseLsaUpdate_lsd r msg⟩))
    unfold parseLsaUpdate
    simp only
    split <;> rfl
  | _ => exact Or.inl ⟨rfl, Or.inr (List.prefix_refl _)⟩

/-! ## The own advertisement -/

theorem ownLSA_of_fields {r r' : Router} (hrd : r'.rd = r.rd) (hlsd : r'.lsd = r.lsd) :
    r'.ownLSA = r.ownLSA := by
  simp only [ownLSA, ip, hrd, hlsd]

@[simp] theorem ownLSA_updateLSD (r : Router) :
    r.updateLSD.ownLSA = some (r.lsd.renumber r.ip r.buildLSA) :=
  LinkStateDatabase.getLSA_addLSA_self _ _ _

/-- The entry of a router stays when updates arrive. -/
theorem getLSA_receive_isSome {d : LinkStateDatabase} {o : String} (lsas : List LSA)
    (h : (d.getLSA o).isSome) : ((d.receive lsas).1.getLSA o).isSome := by
  obtain ⟨x, hx⟩ := Option.isSome_iff_exists.mp h
  obtain ⟨e, he, -⟩ := foldl_takeLSA x (lsas.filter (·.linkStateID = o))
  rw [LinkStateDatabase.getLSA_receive, hx, he]
  rfl

/-! ## A router knows itself -/

/-- The packet is a DISCONNECT that names the router itself as its sender. -/
def disconnectsItself (r : Router) : Event → Prop
  | .handle _ msg => msg.sospfType = .DISCONNECT ∧ msg.routerID = r.ip
  | _ => False

instance (r : Router) : (ev : Event) → Decidable (r.disconnectsItself ev)
  | .handle _ msg => inferInstanceAs (Decidable (msg.sospfType = .DISCONNECT ∧ msg.routerID = r.ip))
  | .command _ => isFalse id
  | .advance _ => isFalse id
  | .read _ => isFalse id
  | .respond _ _ => isFalse id

structure KnowsItself (r : Router) : Prop where
  lsd_rd : r.lsd.rd = r.rd
  own : r.ownLSA.isSome

theorem knowsItself_new (rd : RouterDescription) : KnowsItself (.new rd) := by
  refine ⟨rfl, ?_⟩
  simp [ownLSA, new, ip]

theorem receive_rd (d : LinkStateDatabase) (lsas : List LSA) : (d.receive lsas).1.rd = d.rd := by
  induction lsas generalizing d with
  | nil => rfl
  | cons lsa rest ih =>
    unfold LinkStateDatabase.receive
    split
    · exact ih d
    · exact ih _

theorem knowsItself_did {r : Router} {ev : Event} {e : Effect} (h : Did r ev e)
    (hok : ¬ r.disconnectsItself ev) (hk : KnowsItself r) : KnowsItself e.router := by
  have hrd := did_rd h
  rcases did_lsd h with ⟨hl, -⟩ | ⟨r', hr', hl', -, hl⟩ | ⟨connect, msg, rfl, ht, -, hl⟩ |
    ⟨connect, msg, rfl, ht, -, hl⟩
  · refine ⟨by rw [hl, hrd, hk.lsd_rd], ?_⟩
    rw [ownLSA_of_fields hrd hl]
    exact hk.own
  · refine ⟨by rw [hl, hrd, ← hk.lsd_rd, ← hl']; rfl, ?_⟩
    rw [ownLSA_of_fields (r := r'.updateLSD) (hrd.trans hr'.symm) hl, ownLSA_updateLSD]
    rfl
  · refine ⟨by rw [hl, hrd, ← hk.lsd_rd]; rfl, ?_⟩
    have hne : r.ip ≠ msg.routerID := fun he => hok ⟨ht, he.symm⟩
    have hown : (r.removeRemote msg.routerID).updateLSD.lsd.getLSA r.ip = some _ :=
      ownLSA_updateLSD (r.removeRemote msg.routerID)
    rw [ownLSA, hl, did_ip h, LinkStateDatabase.getLSA_remove_ne _ hne, hown]
    rfl
  · refine ⟨by rw [hl, hrd, receive_rd, hk.lsd_rd], ?_⟩
    simp only [ownLSA, ip, hl, hrd]
    exact getLSA_receive_isSome _ hk.own

/-- A router that never handles a DISCONNECT with its own address has its own
entry in every state. So `broadcastLSA`, `neighbors`, the handler of LSAUPDATE
and the search of `detect` all find it. -/
theorem a_router_knows_itself_unless_it_disconnects_itself (rd : RouterDescription)
    (evs : List Event) (r : Router)
    (h : Run step (fun r ev => ¬ r.disconnectsItself ev) (.new rd) evs r) :
    r.ownLSA.isSome ∧ (∀ cm ∈ r.broadcastLSA, none ∉ cm.2.lsaArray) ∧ r.processNeighbors.isSome ∧
      (∀ msg : SOSPFPacket, (r.parseLsaUpdate msg).router.ownLSA.isSome) ∧
      r.lsd.rd.simulatedIPAddress ∈ r.lsd.store := by
  have hk : KnowsItself r := by
    apply h.invariant (knowsItself_new rd)
    intro s ev s' hs hok hstep
    obtain ⟨e, he, rfl⟩ := Option.map_eq_some_iff.mp hstep
    exact knowsItself_did (react_did he) hok hs
  obtain ⟨l, hl⟩ := Option.isSome_iff_exists.mp hk.own
  refine ⟨hk.own, ?_, ?_, ?_, ?_⟩
  · intro cm hcm
    obtain ⟨link, -, rfl⟩ := List.mem_map.mp hcm
    simp [lsaUpdate, hl]
  · simp [processNeighbors, hl]
  · intro msg
    have hrd : (r.parseLsaUpdate msg).router.rd = r.rd := by
      unfold parseLsaUpdate
      simp only
      split <;> rfl
    simp only [ownLSA, ip, hrd, parseLsaUpdate_lsd]
    exact getLSA_receive_isSome _ hk.own
  · rw [hk.lsd_rd, ← AList.lookup_isSome]
    exact hk.own

/-- Router 192.168.1.1 attaches itself at its own port, and disconnects port 0.
The packets are the ones that it sends to itself. -/
def attachesItself : List Event :=
  let request := router1.attachRequest "192.168.1.1"
  [.command (.attach "127.0.0.1" 3000 "192.168.1.1"),
   .advance (fun _ => ⟨0, true⟩),
   .handle (fun _ => ⟨1, true⟩) request,
   .read (some (router1.attachAccept request)),
   .advance (fun _ => ⟨2, true⟩),
   .command (.disconnect 0),
   .handle (fun _ => ⟨2, true⟩) (router1.disconnect ⟨router1.rd, ⟨1, true⟩⟩)]

theorem a_router_that_disconnects_itself_loses_its_entry :
    ¬ ∀ (rd : RouterDescription) (evs : List Event) (r : Router),
      Run step anyStep (.new rd) evs r → r.ownLSA.isSome := by
  intro h
  have hend : (exec step anyStep router1 attachesItself).map ownLSA = some none := by decide
  obtain ⟨r, hr, hown⟩ := Option.map_eq_some_iff.mp hend
  have := h router1.rd attachesItself r (run_of_exec hr)
  simp [hown] at this

theorem a_router_knows_itself_after_attaching_itself :
    ∃ r, Run step (fun r ev => ¬ r.disconnectsItself ev) router1 (attachesItself.take 6) r ∧
      r.ownLSA.isSome := by
  have hend : ((exec step (fun r ev => ¬ r.disconnectsItself ev) router1
      (attachesItself.take 6))).isSome = true := by decide
  obtain ⟨r, hr⟩ := Option.isSome_iff_exists.mp hend
  have hrun := run_of_exec hr
  exact ⟨r, hrun, (a_router_knows_itself_unless_it_disconnects_itself router1.rd _ r hrun).1⟩

/-! ## What the own advertisement names -/

/-- The events of the law: any but `quit` and LSAUPDATE. -/
def keepsPorts (_ : Router) : Event → Prop
  | .command c => c ≠ .quit
  | .handle _ msg => msg.sospfType ≠ .LSAUPDATE
  | _ => True

instance (r : Router) : (ev : Event) → Decidable (r.keepsPorts ev)
  | .command c => inferInstanceAs (Decidable (c ≠ .quit))
  | .handle _ msg => inferInstanceAs (Decidable (msg.sospfType ≠ .LSAUPDATE))
  | .advance _ => isTrue trivial
  | .read _ => isTrue trivial
  | .respond _ _ => isTrue trivial

/-- The own advertisement is the first one, or it names the first ports that
the router has now, with their numbers. -/
def NamesPorts (r : Router) : Prop :=
  ∀ l, r.ownLSA = some l →
    l.links = (LinkStateDatabase.initLinkStateDatabase r.rd).links ∨ l.links <+: r.buildLSA.links

theorem namesPorts_new (rd : RouterDescription) : NamesPorts (.new rd) := by
  intro l hl
  simp only [ownLSA, new, ip, LinkStateDatabase.getLSA_new, if_true, Option.some.injEq] at hl
  subst hl
  exact Or.inl rfl

theorem buildLSA_of_fields {r r' : Router} (hrd : r'.rd = r.rd) (hp : r'.ports = r.ports) :
    r'.buildLSA = r.buildLSA := by
  simp only [buildLSA, ip, hrd, hp]

theorem namesPorts_did {r : Router} {ev : Event} {e : Effect} (h : Did r ev e)
    (hok : r.keepsPorts ev) (hn : NamesPorts r) : NamesPorts e.router := by
  have hrd := did_rd h
  intro l hl
  rcases did_lsd h with ⟨hsame, hports⟩ | ⟨r', hr', hl', hp', hsame⟩ |
    ⟨connect, msg, rfl, ht, hp, hsame⟩ | ⟨connect, msg, rfl, ht, -, -⟩
  · rw [ownLSA_of_fields hrd hsame] at hl
    rw [hrd]
    rcases hports with rfl | hgrow
    · exact absurd rfl hok
    · rcases hn l hl with h1 | h1
      · exact Or.inl h1
      · exact Or.inr (h1.trans hgrow)
  · rw [ownLSA_of_fields (r := r'.updateLSD) (hrd.trans hr'.symm) hsame, ownLSA_updateLSD] at hl
    cases hl
    right
    rw [LinkStateDatabase.renumber_links, buildLSA_of_fields (hrd.trans hr'.symm) hp']
  · right
    by_cases hself : r.ip = msg.routerID
    · rw [ownLSA, hsame, did_ip h, hself, LinkStateDatabase.getLSA_remove_self] at hl
      cases hl
    · have hown : (r.removeRemote msg.routerID).updateLSD.lsd.getLSA r.ip = some _ :=
        ownLSA_updateLSD (r.removeRemote msg.routerID)
      rw [ownLSA, hsame, did_ip h, LinkStateDatabase.getLSA_remove_ne _ hself, hown] at hl
      cases hl
      rw [LinkStateDatabase.renumber_links, buildLSA_of_fields (r := r.removeRemote msg.routerID) hrd hp]
  · exact absurd ht hok

/-- Every link that the own advertisement names, but for the first entry, is
the address of a port of the router, and the advertisement names the ports from
the first on. The status of a link plays no part. -/
theorem the_own_lsa_names_ports_whatever_their_status (rd : RouterDescription) (evs : List Event)
    (r : Router) (h : Run step keepsPorts (.new rd) evs r) :
    ∀ l, r.ownLSA = some l →
      (l.links = [{ linkID := r.ip, portNum := -1 }] ∨ l.links <+: r.buildLSA.links) ∧
      ∀ ld ∈ l.links, ld = { linkID := r.ip, portNum := -1 } ∨
        ∃ link ∈ r.ports, link.router2.simulatedIPAddress = ld.linkID := by
  have hn : NamesPorts r := by
    apply h.invariant (namesPorts_new rd)
    intro s ev s' hs hok hstep
    obtain ⟨e, he, rfl⟩ := Option.map_eq_some_iff.mp hstep
    exact namesPorts_did (react_did he) hok hs
  intro l hl
  refine ⟨hn l hl, fun ld hld => ?_⟩
  rcases hn l hl with hfirst | hpre
  · rw [hfirst] at hld
    exact Or.inl (List.mem_singleton.mp hld)
  · obtain ⟨i, hi, rfl⟩ := List.mem_mapIdx.mp (hpre.subset hld)
    exact Or.inr ⟨r.ports[i], List.getElem_mem hi, rfl⟩

/-- Requests of 192.168.1.100 and 192.168.2.1 to attach, and then `disconnect 0`. -/
def disconnectsBeforeHello : List Event :=
  let request (ip : String) : SOSPFPacket :=
    { srcProcessIP := "127.0.0.1", srcProcessPort := 4000, srcIP := ip, dstIP := "192.168.1.1",
      sospfType := .ATTACH, routerID := ip, neighborID := "192.168.1.1" }
  [.handle (fun _ => ⟨0, true⟩) (request "192.168.1.100"),
   .handle (fun _ => ⟨1, true⟩) (request "192.168.2.1"),
   .command (.disconnect 0)]

/-- The advertisement that `disconnect` builds names 192.168.2.1, with which no
HELLO was ever exchanged. -/
theorem a_link_without_handshake_is_advertised :
    ¬ ∀ (rd : RouterDescription) (evs : List Event) (ev : Event) (r r' : Router),
      Run step keepsPorts (.new rd) evs r → r.keepsPorts ev → r.step ev = some r' →
      r'.ownLSA ≠ r.ownLSA →
      ∀ l, r'.ownLSA = some l → ∀ ld ∈ l.links, ld.linkID ≠ r'.ip →
        ∃ link ∈ r'.ports, link.router2.simulatedIPAddress = ld.linkID ∧
          link.router2.status = .TWO_WAY := by
  intro h
  have hfacts : ((exec step keepsPorts router1 (disconnectsBeforeHello.take 2)).bind fun r =>
      (r.step (.command (.disconnect 0))).map fun r' =>
        (decide (r'.ownLSA ≠ r.ownLSA), r'.ownLSA.map (·.links), r'.ip,
          r'.ports.map (·.router2.status))) =
      some (true, some [{ linkID := "192.168.2.1", portNum := 0 }], "192.168.1.1", [.IDLE]) := by
    decide
  obtain ⟨r, hr, hmap⟩ := Option.bind_eq_some_iff.mp hfacts
  obtain ⟨r', hr', hv⟩ := Option.map_eq_some_iff.mp hmap
  simp only [Prod.mk.injEq, decide_eq_true_eq] at hv
  obtain ⟨hne, hlinks, hip, hstatus⟩ := hv
  obtain ⟨l, hl, hll⟩ := Option.map_eq_some_iff.mp hlinks
  obtain ⟨link, hmem, -, htwo⟩ := h router1.rd _ _ r r' (run_of_exec hr) (by simp [keepsPorts]) hr' hne l hl
    { linkID := "192.168.2.1", portNum := 0 } (by simp [hll]) (by rw [hip]; decide)
  have := List.mem_map_of_mem (f := fun k : Link => k.router2.status) hmem
  rw [hstatus, htwo] at this
  simp at this

theorem the_own_lsa_names_the_port_left :
    ∃ r, Run step keepsPorts router1 disconnectsBeforeHello r ∧
      ∀ l, r.ownLSA = some l →
        l.links = [{ linkID := r.ip, portNum := -1 }] ∨ l.links <+: r.buildLSA.links := by
  have hend : (exec step keepsPorts router1 disconnectsBeforeHello).isSome = true := by decide
  obtain ⟨r, hr⟩ := Option.isSome_iff_exists.mp hend
  have hrun := run_of_exec hr
  exact ⟨r, hrun, fun l hl =>
    (the_own_lsa_names_ports_whatever_their_status router1.rd _ r hrun l hl).1⟩

/-! ## How many ports -/

/-- An `attach` has passed its check and has not inserted its link yet. -/
def attachPending (r : Router) : Bool :=
  match r.terminal with
  | .attaching _ _ _ => true
  | .attachSent _ => true
  | .attachAccepted _ => true
  | _ => false

/-- The packet is a request to attach, and the one port that is left is the one
that an `attach` of the router itself waits to fill. -/
def takesPendingPort (r : Router) : Event → Prop
  | .handle _ msg => msg.sospfType = .ATTACH ∧ r.attachPending = true ∧ r.ports.length = 3
  | _ => False

instance (r : Router) : (ev : Event) → Decidable (r.takesPendingPort ev)
  | .handle _ msg => inferInstanceAs (Decidable
      (msg.sospfType = .ATTACH ∧ r.attachPending = true ∧ r.ports.length = 3))
  | .command _ => isFalse id
  | .advance _ => isFalse id
  | .read _ => isFalse id
  | .respond _ _ => isFalse id

/-- The ports in use, and the one that a pending `attach` will use. -/
def portsTaken (r : Router) : Nat := r.ports.length + (if r.attachPending then 1 else 0)

theorem portsTaken_le (r : Router) : r.ports.length ≤ r.portsTaken := Nat.le_add_right _ _

theorem portsTaken_mono {r r' : Router} (hlen : r'.ports.length ≤ r.ports.length)
    (hp : r'.attachPending = true → r.attachPending = true) : r'.portsTaken ≤ r.portsTaken := by
  unfold portsTaken
  by_cases h : r'.attachPending = true
  · simp only [h, hp h, if_true]
    omega
  · simp only [h, if_false, Bool.false_eq_true]
    omega

@[simp] theorem setStatus_length (r : Router) (c : Nat) (s : RouterStatus) :
    (r.setStatus c s).ports.length = r.ports.length := by simp [setStatus]

theorem finish_terminal (r : Router) (out : List (Client × SOSPFPacket)) :
    (r.finish out).terminal = .ready ∨ (r.finish out).terminal = .ended := by
  unfold finish
  cases allSent out
  · exact Or.inr rfl
  · exact Or.inl rfl

theorem attachPending_finish (r : Router) (out : List (Client × SOSPFPacket)) :
    (r.finish out).attachPending = false := by
  unfold attachPending
  rcases r.finish_terminal out with h | h <;> rw [h]

/-- No event takes a fifth port, except a request to attach that takes the port
of a pending `attach`. -/
theorem portsTaken_did {r : Router} {ev : Event} {e : Effect} (h : Did r ev e)
    (hok : ¬ r.takesPendingPort ev) (hle : r.portsTaken ≤ 4) : e.router.portsTaken ≤ 4 := by
  have mono : ∀ {r' : Router}, r'.ports.length ≤ r.ports.length →
      (r'.attachPending = true → r.attachPending = true) → r'.portsTaken ≤ 4 :=
    fun hlen hp => Nat.le_trans (portsTaken_mono hlen hp) hle
  cases h with
  | attach hr hlt =>
    have : ∀ t : Terminal, ({ r with terminal := t } : Router).portsTaken ≤ r.ports.length + 1 := by
      intro t
      simp only [portsTaken]
      split <;> omega
    exact Nat.le_trans (this _) hlt
  | attachInsert hr =>
    simp only [portsTaken, attachPending, hr, if_true] at hle
    simpa [portsTaken, attachPending, attachInsert, addPort] using hle
  | @attached connect msg hx ht =>
    unfold parseAttach
    split
    · rename_i hlt
      have hfree : ¬ (r.attachPending = true ∧ r.ports.length = 3) := fun hh => hok ⟨ht, hh⟩
      have hpend : ∀ link, (r.addPort link).attachPending = r.attachPending := fun _ => rfl
      simp only [portsTaken, hpend] at hle ⊢
      simp only [addPort, List.length_append, List.length_singleton]
      by_cases hp : r.attachPending = true
      · have : r.ports.length ≠ 3 := fun h3 => hfree ⟨hp, h3⟩
        simp only [hp, if_true] at hle ⊢
        omega
      · simp only [hp, if_false, Bool.false_eq_true] at hle ⊢
        omega
    · exact hle
  | typed hr ht =>
    refine mono (Nat.le_refl _) ?_
    rcases ht with rfl | rfl | rfl <;> simp [attachPending]
  | @disconnect n link r1 out hr hp hc hr1 hout =>
    subst hr1
    refine mono (List.length_eraseIdx_le r.ports n.toInt.toNat) ?_
    rw [attachPending_finish]
    simp
  | quit => exact mono (Nat.zero_le _) (by simp [attachPending])
  | quitFails => exact mono (Nat.le_refl _) (by simp [attachPending])
  | attachSend hr =>
    exact mono (Nat.le_refl _) (by simp [attachPending, hr])
  | startSkip hr ht =>
    refine mono (Nat.le_refl _) ?_
    rcases ht with rfl | rfl <;> simp [attachPending]
  | startHello => exact mono (Nat.le_refl _) (by simp [attachPending])
  | startEnd hr =>
    refine mono (Nat.le_refl _) ?_
    simp only [startEnd]
    rw [attachPending_finish]
    simp
  | attachReply hr =>
    exact mono (Nat.le_refl _) (by simp [attachPending, hr])
  | @helloReply i m l response hr =>
    cases response with
    | none => exact mono (Nat.le_refl _) (by simp [helloReply, attachPending])
    | some msg =>
      refine mono ?_ (by simp [helloReply, attachPending])
      simp only [helloReply]
      split <;> simp
  | hello =>
    unfold parseHello
    split
    · exact hle
    · exact mono (by simp) (fun hp => hp)
  | respond =>
    refine mono ?_ (fun hp => hp)
    simp only [parseResponse]
    split <;> simp
  | disconnected => exact mono List.length_eraseP_le (fun hp => hp)
  | lsaUpdate =>
    unfold parseLsaUpdate
    simp only
    split <;> exact hle
  | ignored => exact hle

/-- A router never has more than four ports, when no request to attach takes
the last port while an `attach` of its own waits for it. -/
theorem at_most_four_ports_unless_a_pending_port_is_taken (rd : RouterDescription)
    (evs : List Event) (r : Router)
    (h : Run step (fun r ev => ¬ r.takesPendingPort ev) (.new rd) evs r) : r.ports.length ≤ 4 := by
  have htaken : r.portsTaken ≤ 4 := by
    apply h.invariant (P := fun r => r.portsTaken ≤ 4) (by simp [portsTaken, new, attachPending])
    intro s ev s' hs hok hstep
    obtain ⟨e, he, rfl⟩ := Option.map_eq_some_iff.mp hstep
    exact portsTaken_did (react_did he) hok hs
  exact Nat.le_trans r.portsTaken_le htaken

/-- Three requests to attach, then an `attach` of the router itself, and a
fourth request before its answer. -/
def fifthPort : List Event :=
  let request (i : Nat) : Event := .handle (fun _ => ⟨i, true⟩)
    { srcProcessIP := "127.0.0.1", srcProcessPort := 4000, srcIP := "192.168.1.100",
      sospfType := .ATTACH, routerID := "192.168.1.100", neighborID := "192.168.1.1" }
  [request 0, request 1, request 2,
   .command (.attach "127.0.0.1" 5000 "192.168.2.1"),
   .advance (fun _ => ⟨3, true⟩),
   request 4,
   .read (some { sospfType := .ATTACH_ACK, routerID := "192.168.2.1", srcIP := "192.168.2.1" }),
   .advance (fun _ => ⟨5, true⟩)]

theorem a_router_can_have_five_ports :
    ¬ ∀ (rd : RouterDescription) (evs : List Event) (r : Router),
      Run step anyStep (.new rd) evs r → r.ports.length ≤ 4 := by
  intro h
  have hend : (exec step anyStep router1 fifthPort).map (·.ports.length) = some 5 := by decide
  obtain ⟨r, hr, hlen⟩ := Option.map_eq_some_iff.mp hend
  have := h router1.rd fifthPort r (run_of_exec hr)
  omega

theorem at_most_four_ports_before_the_fourth_request :
    ∃ r, Run step (fun r ev => ¬ r.takesPendingPort ev) router1 (fifthPort.take 5) r ∧
      r.ports.length ≤ 4 := by
  have hend : (exec step (fun r ev => ¬ r.takesPendingPort ev) router1
      (fifthPort.take 5)).isSome = true := by decide
  obtain ⟨r, hr⟩ := Option.isSome_iff_exists.mp hend
  have hrun := run_of_exec hr
  exact ⟨r, hrun, at_most_four_ports_unless_a_pending_port_is_taken router1.rd _ r hrun⟩

/-! ## Where a router passes an update on to -/

/-- A link of the list that an update from `sender` is passed on over. The test
is made against the sender up to the first packet sent, and after that against
the own address. -/
def PassesOver (r : Router) (sender : String) (links : List Link) (l : Link) : Prop :=
  ∃ before after, links = before ++ l :: after ∧ l.router2.status = .TWO_WAY ∧
    l.router2.simulatedIPAddress ≠
      if ∃ l' ∈ before, l'.router2.status = .TWO_WAY ∧ l'.router2.simulatedIPAddress ≠ sender
      then r.ip else sender

theorem passesOver_skip {r : Router} {sender : String} {l0 l : Link} {rest : List Link}
    (h : ¬ (l0.router2.status = .TWO_WAY ∧ l0.router2.simulatedIPAddress ≠ sender)) :
    r.PassesOver sender (l0 :: rest) l ↔ r.PassesOver sender rest l := by
  constructor
  · rintro ⟨before, after, heq, htwo, hne⟩
    cases before with
    | nil =>
      simp only [List.nil_append, List.cons.injEq] at heq
      obtain ⟨rfl, rfl⟩ := heq
      exact absurd ⟨htwo, by simpa using hne⟩ h
    | cons b before =>
      simp only [List.cons_append, List.cons.injEq] at heq
      obtain ⟨rfl, rfl⟩ := heq
      refine ⟨before, after, rfl, htwo, ?_⟩
      simpa only [List.exists_mem_cons_iff, h, false_or] using hne
  · rintro ⟨before, after, rfl, htwo, hne⟩
    refine ⟨l0 :: before, after, rfl, htwo, ?_⟩
    simpa only [List.exists_mem_cons_iff, h, false_or] using hne

theorem passesOver_send {r : Router} {sender : String} {l0 l : Link} {rest : List Link}
    (h : l0.router2.status = .TWO_WAY ∧ l0.router2.simulatedIPAddress ≠ sender) :
    r.PassesOver sender (l0 :: rest) l ↔ l = l0 ∨ r.PassesOver r.ip rest l := by
  constructor
  · rintro ⟨before, after, heq, htwo, hne⟩
    cases before with
    | nil =>
      simp only [List.nil_append, List.cons.injEq] at heq
      exact Or.inl heq.1.symm
    | cons b before =>
      simp only [List.cons_append, List.cons.injEq] at heq
      obtain ⟨rfl, rfl⟩ := heq
      refine Or.inr ⟨before, after, rfl, htwo, ?_⟩
      rw [if_pos ⟨l0, by simp, h⟩] at hne
      rwa [ite_self]
  · rintro (rfl | ⟨before, after, rfl, htwo, hne⟩)
    · exact ⟨[], rest, rfl, h.1, by simpa using h.2⟩
    · refine ⟨l0 :: before, after, rfl, htwo, ?_⟩
      rw [if_pos ⟨l0, by simp, h⟩]
      rwa [ite_self] at hne

/-- The loop sends exactly over the links that `PassesOver` names, and each
packet names the router itself as its sender. -/
theorem mem_forward (r : Router) (msg : SOSPFPacket) (links : List Link) (cl : Client)
    (m : SOSPFPacket) :
    (cl, m) ∈ r.forward msg links ↔ ∃ l, r.PassesOver msg.routerID links l ∧ l.client = cl ∧
      m = { msg with routerID := r.ip, neighborID := l.router2.simulatedIPAddress } := by
  induction links generalizing msg with
  | nil => simp [forward, PassesOver]
  | cons l0 rest ih =>
    unfold forward
    split
    · rename_i hs
      rw [ih]
      simp only [passesOver_skip (fun hh => hs hh.1)]
    · split
      · rename_i he
        rw [ih]
        simp only [passesOver_skip (fun hh => hh.2 he.symm)]
      · rename_i hs he
        have h0 : l0.router2.status = .TWO_WAY ∧ l0.router2.simulatedIPAddress ≠ msg.routerID :=
          ⟨by simpa using hs, fun hh => he hh.symm⟩
        simp only [List.mem_cons, Prod.mk.injEq, ih, passesOver_send h0]
        constructor
        · rintro (⟨rfl, rfl⟩ | ⟨l, hl, rfl, rfl⟩)
          · exact ⟨l0, Or.inl rfl, rfl, rfl⟩
          · exact ⟨l, Or.inr hl, rfl, rfl⟩
        · rintro ⟨l, rfl | hl, rfl, rfl⟩
          · exact Or.inl ⟨rfl, rfl⟩
          · exact Or.inr ⟨l, hl, rfl, rfl⟩

theorem passesOver_mem {r : Router} {sender : String} {links : List Link} {l : Link}
    (h : r.PassesOver sender links l) : l ∈ links := by
  obtain ⟨before, after, rfl, -⟩ := h
  simp

/-- A packet that the handler sends goes over a link that the update is passed
on over. -/
theorem sends_parseLsaUpdate {r : Router} {msg : SOSPFPacket} {i : Nat} {m : SOSPFPacket}
    (h : (i, m) ∈ (r.parseLsaUpdate msg).sends) :
    ∃ l, r.PassesOver msg.routerID r.ports l ∧ l.client.conn = i ∧ m.routerID = r.ip ∧
      m.sospfType = msg.sospfType := by
  unfold parseLsaUpdate at h
  simp only at h
  split at h
  · simp at h
  · obtain ⟨cl, hmem, rfl⟩ := mem_sent h
    obtain ⟨l, hl, rfl, rfl⟩ := (mem_forward _ _ _ _ _).mp hmem
    exact ⟨l, hl, rfl, rfl, rfl⟩

theorem parseLsaUpdate_ports (r : Router) (msg : SOSPFPacket) :
    (r.parseLsaUpdate msg).router.ports = r.ports ∧ (r.parseLsaUpdate msg).router.ip = r.ip ∧
      (r.parseLsaUpdate msg).router.terminal = r.terminal ∧ (r.parseLsaUpdate msg).opens = none := by
  unfold parseLsaUpdate
  simp only
  split <;> exact ⟨rfl, rfl, rfl, rfl⟩

end Router
end socs.network
