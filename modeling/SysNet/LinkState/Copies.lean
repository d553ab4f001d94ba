-- Copies in step with their origins. In a run that keeps its links, every copy
-- is the own entry of its origin or an older one, and no packet is ahead of the
-- router that sent it.
import SysNet.LinkState.Steady

open runs

namespace socs.network

/-! ## Updates in order -/

namespace LinkStateDatabase

theorem renumber_of_next {d : LinkStateDatabase} {lsa : LSA}
    (h : (d.getLSA lsa.linkStateID).all (fun stored =>
      lsa.lsaSeqNumber = stored.lsaSeqNumber + 1) = true) :
    d.renumber lsa.linkStateID lsa = lsa := by
  unfold renumber
  split
  · rename_i stored hget
    rw [hget, Option.all_some, decide_eq_true_eq] at h
    rw [← h]
  · rfl

/-- The packet is passed on as it came. -/
theorem receive_of_inOrder {d : LinkStateDatabase} {lsas : List LSA} (h : d.inOrder lsas = true) :
    (d.receive lsas).2 = lsas := by
  induction lsas generalizing d with
  | nil => rfl
  | cons lsa rest ih =>
    unfold inOrder at h
    unfold receive
    split at h
    · rename_i hs
      rw [if_pos hs]
      simp only [ih h]
    · rename_i hs
      rw [Bool.and_eq_true] at h
      rw [if_neg hs]
      simp only [ih h.2, renumber_of_next h.1]

/-- An entry after a packet was there before, or the packet brought it. -/
theorem getLSA_receive_cases {d : LinkStateDatabase} {lsas : List LSA}
    (h : d.inOrder lsas = true) {o : String} {y : LSA} (hy : (d.receive lsas).1.getLSA o = some y) :
    d.getLSA o = some y ∨ y ∈ lsas ∧ y.linkStateID = o := by
  induction lsas generalizing d with
  | nil => exact Or.inl hy
  | cons lsa rest ih =>
    unfold inOrder at h
    unfold receive at hy
    split at h
    · rename_i hs
      rw [if_pos hs] at hy
      rcases ih h hy with h1 | ⟨h1, h2⟩
      · exact Or.inl h1
      · exact Or.inr ⟨List.mem_cons_of_mem _ h1, h2⟩
    · rename_i hs
      rw [Bool.and_eq_true] at h
      rw [if_neg hs] at hy
      rcases ih h.2 hy with h1 | ⟨h1, h2⟩
      · by_cases ho : o = lsa.linkStateID
        · subst ho
          rw [getLSA_addLSA_self, renumber_of_next h.1] at h1
          cases h1
          exact Or.inr ⟨List.mem_cons_self, rfl⟩
        · rw [getLSA_addLSA_ne _ _ ho] at h1
          exact Or.inl h1
      · exact Or.inr ⟨List.mem_cons_of_mem _ h1, h2⟩

/-- The database has an advertisement of the origin that is at least as new. -/
def upTo (d : LinkStateDatabase) (y : LSA) : Prop :=
  ∃ z, d.getLSA y.linkStateID = some z ∧ y.lsaSeqNumber ≤ z.lsaSeqNumber

theorem upTo_addLSA {d : LinkStateDatabase} {lsa y : LSA} (hs : ¬ d.isStale lsa = true)
    (hnext : d.renumber lsa.linkStateID lsa = lsa) (h : d.upTo y) :
    (d.addLSA lsa.linkStateID lsa).upTo y := by
  obtain ⟨z, hz, hle⟩ := h
  by_cases ho : y.linkStateID = lsa.linkStateID
  · refine ⟨lsa, by rw [ho, getLSA_addLSA_self, hnext], ?_⟩
    apply Int32.le_trans hle
    apply Int32.le_of_lt
    apply Int32.not_le.mp
    intro hle'
    exact hs ((d.isStale_iff lsa).mpr ⟨z, ho ▸ hz, hle'⟩)
  · exact ⟨z, by rw [getLSA_addLSA_ne _ _ ho, hz], hle⟩

theorem upTo_receive {d : LinkStateDatabase} {lsas : List LSA} (h : d.inOrder lsas = true) {y : LSA}
    (hy : d.upTo y ∨ y ∈ lsas) : (d.receive lsas).1.upTo y := by
  induction lsas generalizing d with
  | nil =>
    rcases hy with hy | hy
    · exact hy
    · cases hy
  | cons lsa rest ih =>
    unfold inOrder at h
    unfold receive
    split at h
    · rename_i hs
      rw [if_pos hs]
      apply ih h
      rcases hy with hy | hy
      · exact Or.inl hy
      · rcases List.mem_cons.mp hy with rfl | hy
        · exact Or.inl ((d.isStale_iff y).mp hs)
        · exact Or.inr hy
    · rename_i hs
      rw [Bool.and_eq_true] at h
      have hnext := renumber_of_next h.1
      rw [if_neg hs]
      apply ih h.2
      rcases hy with hy | hy
      · exact Or.inl (upTo_addLSA hs hnext hy)
      · rcases List.mem_cons.mp hy with rfl | hy
        · exact Or.inl ⟨y, by rw [getLSA_addLSA_self, hnext], Int32.le_refl _⟩
        · exact Or.inr hy

end LinkStateDatabase

theorem beforeNull_of_not_mem {lsaArray : List (Option LSA)} (h : none ∉ lsaArray) {y : LSA} :
    y ∈ beforeNull lsaArray ↔ some y ∈ lsaArray := by
  constructor
  · exact Network.mem_of_mem_beforeNull
  · intro hy
    unfold beforeNull
    rw [List.reduceOption_mem_iff, List.takeWhile_eq_self_iff.mpr]
    · exact hy
    · intro o ho
      cases o with
      | none => exact absurd ho h
      | some _ => rfl

namespace Network

/-! ## Copies -/

/-- Every copy is the own entry of its origin or an older one, and no packet is
ahead of the router that sent it. -/
structure Copied (n : Network) : Prop where
  alive : Alive n
  apart : Apart n
  own : ∀ p r, n.routers p = some r → r.ownLSA.isSome
  /-- An entry stands under its own name, which is that of a router. -/
  named : ∀ p r, n.routers p = some r → ∀ i y, r.lsd.getLSA i = some y →
    y.linkStateID = i ∧ ∃ q r', n.routers q = some r' ∧ r'.ip = i
  copies : ∀ p r x, n.routers p = some r → r.ownLSA = some x → ∀ y, n.HasCopy r.ip y →
    y = x ∨ y.lsaSeqNumber < x.lsaSeqNumber
  carried : ∀ (c : Nat) k, n.conns[c]? = some k → ∀ m ∈ k.toServer, none ∉ m.lsaArray ∧
    ∀ y, some y ∈ m.lsaArray → m.sospfType = .LSAUPDATE ∧
      ∃ r, n.routers k.client = some r ∧ r.lsd.upTo y
  bare : ∀ (c : Nat) k, n.conns[c]? = some k → ∀ m ∈ k.toClient, m.lsaArray = []

section copied

variable {n n' : Network} {a : Action} {p : Int16} {r : Router} {ev : Router.Event} {e : Effect}

/-- The updates of a packet that a step handles are in order, and the packet
was under way. -/
theorem Acted.handled_inOrder (h : n.Acted a p r ev e n') (hok : n.steady a = true)
    {connect : Int16 → Client} {msg : SOSPFPacket} (hev : ev = .handle connect msg)
    (ht : msg.sospfType = .LSAUPDATE) :
    r.lsd.inOrder (beforeNull msg.lsaArray) = true ∧
      ∃ (c : Nat) (k : Connection), a = .deliver c ∧ n.conns[c]? = some k ∧ k.server = p ∧
        msg ∈ k.toServer := by
  subst hev
  have hr := h.router
  cases h.offers with
  | @handle c _ k _ rest hk hq hidle =>
    refine ⟨?_, c, k, rfl, hk, rfl, by simp [hq]⟩
    have hin := inStep_of_steady hok hk hq
    unfold inStep at hin
    rw [if_pos hidle, hr, Option.all_some, ht] at hin
    simpa using hin

/-- The name of an own entry. -/
theorem Copied.own_name (hc : Copied n) (hr : n.routers p = some r) {x : LSA}
    (hx : r.ownLSA = some x) : x.linkStateID = r.ip :=
  (hc.named p r hr r.ip x hx).1

theorem Copied.packet_hasCopy {c : Nat} {k : Connection} {m : SOSPFPacket}
    (hk : n.conns[c]? = some k) (hm : m ∈ k.toServer) {y : LSA} (hy : some y ∈ m.lsaArray) :
    n.HasCopy y.linkStateID y :=
  Or.inr ⟨c, k, m, hk, Or.inl hm, hy, rfl⟩

/-- A start gives the own entry the next number. -/
theorem newer_startEnd (hr : n.routers p = some r) {x : LSA} (hx : r.ownLSA = some x)
    (hok : n.steady (.advance p) = true) :
    ∃ x', r.startEnd.router.ownLSA = some x' ∧ x'.linkStateID = r.ip ∧
      x.lsaSeqNumber < x'.lsaSeqNumber := by
  refine ⟨r.lsd.renumber r.ip r.buildLSA, r.ownLSA_updateLSD, ?_, ?_⟩
  · rw [LinkStateDatabase.renumber_linkStateID]
    rfl
  · have hlt : x.lsaSeqNumber < Int32.maxValue :=
      room_of_steady hok (by rw [ownEntry, hr, Option.bind_some, hx])
    rw [Int32.lt_iff_toInt_lt]
    rw [Router.ownLSA] at hx
    simp only [LinkStateDatabase.renumber, hx, toInt_succ_of_lt hlt]
    omega

/-- The own entry after a step: the same one, or a newer one from a start. -/
theorem Copied.own_acted (hc : Copied n) (h : n.Acted a p r ev e n') (hok : n.steady a = true)
    {x : LSA} (hx : r.ownLSA = some x) :
    e.router.ownLSA = some x ∨
      (∃ connect m, ev = .advance connect ∧ r.terminal = .starting r.ports.length m ∧
        e = r.startEnd) ∧
      ∃ x', e.router.ownLSA = some x' ∧ x'.linkStateID = r.ip ∧
        x.lsaSeqNumber < x'.lsaSeqNumber := by
  have hkeeps := hc.alive.keepsLinks h hok
  have hip := Router.did_ip h.did
  rcases Router.did_database h.did hkeeps with hl | ⟨connect, m, hev, ht, he⟩ |
    ⟨connect, msg, hev, ht, he⟩
  · left
    rw [Router.ownLSA_of_fields (Router.did_rd h.did) hl, hx]
  · right
    refine ⟨⟨connect, m, hev, ht, he⟩, ?_⟩
    rw [he]
    apply newer_startEnd h.router hx
    subst hev
    cases h.offers
    exact hok
  · left
    obtain ⟨hin, c, k, -, hk, -, hm⟩ := h.handled_inOrder hok hev ht
    rw [Router.ownLSA, hip, he, Router.parseLsaUpdate_lsd]
    apply LinkStateDatabase.getLSA_receive_stale hx
    intro y hy hid
    have hcopy := Copied.packet_hasCopy hk hm (mem_of_mem_beforeNull hy)
    rw [hid] at hcopy
    rcases hc.copies p r x h.router hx y hcopy with rfl | hlt
    · exact Int32.le_refl _
    · exact Int32.le_of_lt hlt

theorem Copied.named_acted (hc : Copied n) (h : n.Acted a p r ev e n') (hok : n.steady a = true)
    {q : Int16} {r' : Router} (hr' : n'.routers q = some r') {i : String} {y : LSA}
    (hy : r'.lsd.getLSA i = some y) :
    y.linkStateID = i ∧ ∃ q r', n'.routers q = some r' ∧ r'.ip = i := by
  have hkept : ∀ {i : String}, (∃ q r', n.routers q = some r' ∧ r'.ip = i) →
      ∃ q r', n'.routers q = some r' ∧ r'.ip = i := by
    rintro i ⟨q0, r0, hr0, hip0⟩
    obtain ⟨r1, hr1, hip1⟩ := h.ip_kept hr0
    exact ⟨q0, r1, hr1, by rw [hip1, hip0]⟩
  have hold : ∀ {q0 : Int16} {r0 : Router} {i : String} {y : LSA}, n.routers q0 = some r0 →
      r0.lsd.getLSA i = some y → y.linkStateID = i ∧ ∃ q r', n'.routers q = some r' ∧ r'.ip = i := by
    intro q0 r0 i y hr0 hy0
    obtain ⟨hid, hrouter⟩ := hc.named q0 r0 hr0 i y hy0
    exact ⟨hid, hkept hrouter⟩
  rcases h.router_cases hr' with ⟨rfl, rfl⟩ | ⟨-, hr0⟩
  · rcases Router.did_database h.did (hc.alive.keepsLinks h hok) with hl | ⟨connect, m, -, -, rfl⟩ |
      ⟨connect, msg, hev, ht, rfl⟩
    · rw [hl] at hy
      exact hold h.router hy
    · change (r.lsd.addLSA r.ip r.buildLSA).getLSA i = some y at hy
      by_cases hi : i = r.ip
      · subst hi
        rw [LinkStateDatabase.getLSA_addLSA_self] at hy
        cases hy
        exact ⟨LinkStateDatabase.renumber_linkStateID _ _ _, hkept ⟨q, r, h.router, rfl⟩⟩
      · rw [LinkStateDatabase.getLSA_addLSA_ne _ _ hi] at hy
        exact hold h.router hy
    · obtain ⟨hin, c, k, -, hk, -, hm⟩ := h.handled_inOrder hok hev ht
      rw [Router.parseLsaUpdate_lsd] at hy
      rcases LinkStateDatabase.getLSA_receive_cases hin hy with h1 | ⟨h1, rfl⟩
      · exact hold h.router h1
      · obtain ⟨-, r0, hr0, z, hz, -⟩ := (hc.carried c k hk msg hm).2 y (mem_of_mem_beforeNull h1)
        exact ⟨rfl, (hold hr0 hz).2⟩
  · exact hold hr0 hy

/-- A copy after a step is one from before, or the own entry of the router that
took the step. -/
theorem Copied.hasCopy_acted (hc : Copied n) (h : n.Acted a p r ev e n') (hok : n.steady a = true)
    {o : String} {y : LSA} (hy : n'.HasCopy o y) :
    n.HasCopy o y ∨ e.router.ownLSA = some y ∧ o = r.ip := by
  have hkeeps := hc.alive.keepsLinks h hok
  have hip := Router.did_ip h.did
  rcases hy with ⟨q, r', hr', hget⟩ | ⟨c, k', m, hk', hm, hmem, rfl⟩
  · rcases h.router_cases hr' with ⟨rfl, rfl⟩ | ⟨-, hr0⟩
    · rcases Router.did_database h.did hkeeps with hl | ⟨connect, m, -, -, rfl⟩ |
        ⟨connect, msg, hev, ht, rfl⟩
      · rw [hl] at hget
        exact Or.inl (Or.inl ⟨q, r, h.router, hget⟩)
      · by_cases ho : o = r.ip
        · subst ho
          exact Or.inr ⟨hget, rfl⟩
        · change (r.lsd.addLSA r.ip r.buildLSA).getLSA o = some y at hget
          rw [LinkStateDatabase.getLSA_addLSA_ne _ _ ho] at hget
          exact Or.inl (Or.inl ⟨q, r, h.router, hget⟩)
      · obtain ⟨hin, c, k, -, hk, -, hm⟩ := h.handled_inOrder hok hev ht
        rw [Router.parseLsaUpdate_lsd] at hget
        rcases LinkStateDatabase.getLSA_receive_cases hin hget with h1 | ⟨h1, rfl⟩
        · exact Or.inl (Or.inl ⟨q, r, h.router, h1⟩)
        · exact Or.inl (Copied.packet_hasCopy hk hm (mem_of_mem_beforeNull h1))
    · exact Or.inl (Or.inl ⟨q, r', hr0, hget⟩)
  · have hold : ∀ k, n.conns[c]? = some k → m ∈ k.toServer ∨ m ∈ k.toClient →
        n.HasCopy y.linkStateID y :=
      fun k hk hm0 => Or.inr ⟨c, k, m, hk, hm0, hmem, rfl⟩
    rcases hm with hm | hm
    · rcases h.mem_toServer hk' hm with ⟨k, hk, -, -, h1⟩ | h1
      · exact Or.inl (hold k hk (Or.inl h1))
      · rcases Router.did_lsas h.did h1 hmem with hown | ⟨connect, msg, hev, ht, hin⟩
        · have hname := (hc.named_acted h hok h.router_self hown).1
          exact Or.inr ⟨hown, by rw [hname, hip]⟩
        · obtain ⟨horder, c0, k0, -, hk0, -, hm0⟩ := h.handled_inOrder hok hev ht
          rw [LinkStateDatabase.receive_of_inOrder horder] at hin
          exact Or.inl (Copied.packet_hasCopy hk0 hm0 (mem_of_mem_beforeNull hin))
    · obtain ⟨k, hk, -, -, h1 | ⟨-, -, h1⟩⟩ := h.mem_toClient hk' hm
      · exact Or.inl (hold k hk (Or.inr h1))
      · rw [Router.did_reply_lsas h.did h1] at hmem
        cases hmem

theorem Copied.copies_acted (hc : Copied n) (h : n.Acted a p r ev e n') (hok : n.steady a = true)
    {q : Int16} {r' : Router} {x y : LSA} (hr' : n'.routers q = some r') (hx : r'.ownLSA = some x)
    (hy : n'.HasCopy r'.ip y) : y = x ∨ y.lsaSeqNumber < x.lsaSeqNumber := by
  rcases h.router_cases hr' with ⟨rfl, rfl⟩ | ⟨hne, hr0⟩
  · obtain ⟨x0, hx0⟩ := Option.isSome_iff_exists.mp (hc.own q r h.router)
    rcases hc.hasCopy_acted h hok hy with hold | ⟨hown, -⟩
    · rw [Router.did_ip h.did] at hold
      have hle := hc.copies q r x0 h.router hx0 y hold
      rcases hc.own_acted h hok hx0 with hsame | ⟨-, x', hx', -, hlt⟩
      · rw [hx] at hsame
        cases hsame
        exact hle
      · rw [hx] at hx'
        cases hx'
        rcases hle with rfl | hle
        · exact Or.inr hlt
        · exact Or.inr (Int32.lt_trans hle hlt)
    · rw [hx] at hown
      cases hown
      exact Or.inl rfl
  · rcases hc.hasCopy_acted h hok hy with hold | ⟨-, hip⟩
    · exact hc.copies q r' x hr0 hx y hold
    · exact absurd (hc.apart q p r' r hr0 h.router hip) hne

/-- What a router has come up to, it stays up to. -/
theorem Copied.upTo_acted (hc : Copied n) (h : n.Acted a p r ev e n') (hok : n.steady a = true)
    {q : Int16} {r0 : Router} (hr0 : n.routers q = some r0) {y : LSA} (hy : r0.lsd.upTo y) :
    ∃ r', n'.routers q = some r' ∧ r'.lsd.upTo y := by
  by_cases hq : q = p
  · subst hq
    rw [h.router] at hr0
    cases hr0
    refine ⟨e.router, h.router_self, ?_⟩
    obtain ⟨x, hx⟩ := Option.isSome_iff_exists.mp (hc.own q r h.router)
    obtain ⟨z, hz, hle⟩ := hy
    rcases Router.did_database h.did (hc.alive.keepsLinks h hok) with hl | ⟨connect, m, hev, ht, he⟩ |
      ⟨connect, msg, hev, ht, he⟩
    · rw [hl]
      exact ⟨z, hz, hle⟩
    · by_cases hi : y.linkStateID = r.ip
      · rw [hi] at hz
        have heq : r.ownLSA = some z := hz
        rw [hx] at heq
        cases heq
        rcases hc.own_acted h hok hx with hsame | ⟨-, x', hx', -, hlt⟩
        · rw [Router.ownLSA, Router.did_ip h.did, ← hi] at hsame
          exact ⟨x, hsame, hle⟩
        · rw [Router.ownLSA, Router.did_ip h.did, ← hi] at hx'
          exact ⟨x', hx', Int32.le_trans hle (Int32.le_of_lt hlt)⟩
      · refine ⟨z, ?_, hle⟩
        rw [he]
        change (r.lsd.addLSA r.ip r.buildLSA).getLSA y.linkStateID = some z
        rw [LinkStateDatabase.getLSA_addLSA_ne _ _ hi, hz]
    · obtain ⟨hin, -⟩ := h.handled_inOrder hok hev ht
      rw [he, Router.parseLsaUpdate_lsd]
      exact LinkStateDatabase.upTo_receive hin (Or.inl ⟨z, hz, hle⟩)
  · exact ⟨r0, by rw [h.routers, Function.update_of_ne hq, hr0], hy⟩

theorem Copied.carried_acted (hc : Copied n) (h : n.Acted a p r ev e n') (hok : n.steady a = true)
    {c : Nat} {k' : Connection} (hk' : n'.conns[c]? = some k') {m : SOSPFPacket}
    (hm : m ∈ k'.toServer) : none ∉ m.lsaArray ∧ ∀ y, some y ∈ m.lsaArray →
      m.sospfType = .LSAUPDATE ∧ ∃ r, n'.routers k'.client = some r ∧ r.lsd.upTo y := by
  have hkeeps := hc.alive.keepsLinks h hok
  rcases h.mem_toServer hk' hm with ⟨k, hk, hclient, -, h1⟩ | h1
  · obtain ⟨hnull, hlsas⟩ := hc.carried c k hk m h1
    refine ⟨hnull, fun y hy => ?_⟩
    obtain ⟨ht, r0, hr0, hup⟩ := hlsas y hy
    rw [hclient]
    exact ⟨ht, hc.upTo_acted h hok hr0 hup⟩
  · have hsender : n'.routers k'.client = some e.router := by
      rw [hc.alive.wired.sends_client h h1 hk', h.router_self]
    have hnone : m.lsaArray = [] → none ∉ m.lsaArray ∧ ∀ y, some y ∈ m.lsaArray →
        m.sospfType = .LSAUPDATE ∧ ∃ r, n'.routers k'.client = some r ∧ r.lsd.upTo y := by
      intro hnil
      rw [hnil]
      exact ⟨List.not_mem_nil, fun y hy => by cases hy⟩
    cases Router.did_sent h.did hkeeps h1 with
    | attach _ _ _ _ _ _ hnil => exact hnone hnil
    | hello _ _ _ hnil => exact hnone hnil
    | twoWay _ _ _ _ _ hnil => exact hnone hnil
    | update _ _ _ ht _ hnull =>
      refine ⟨hnull (hc.own p r h.router), fun y hy => ⟨ht, e.router, hsender, ?_⟩⟩
      rcases Router.did_lsas h.did h1 hy with hown | ⟨connect, msg, hev, htype, hin⟩
      · have hname := (hc.named_acted h hok h.router_self hown).1
        exact ⟨y, by rw [hname]; exact hown, Int32.le_refl _⟩
      · obtain ⟨horder, -⟩ := h.handled_inOrder hok hev htype
        rw [LinkStateDatabase.receive_of_inOrder horder] at hin
        rw [h.handled_update hev htype, Router.parseLsaUpdate_lsd]
        exact LinkStateDatabase.upTo_receive horder (Or.inr hin)

theorem Copied.step (hc : Copied n) (hok : n.steady a = true) (hs : n.step a = some n') :
    Copied n' := by
  rcases step_acted hs with ⟨p, r, ev, e, h⟩ | ⟨c, k, -, hlost⟩
  · refine ⟨hc.alive.acted h (hc.alive.keepsLinks h hok), hc.apart.step hs, ?_,
      fun _ _ hr' _ _ hy => hc.named_acted h hok hr' hy,
      fun _ _ _ hr' hx _ hy => hc.copies_acted h hok hr' hx hy,
      fun _ _ hk' _ hm => hc.carried_acted h hok hk' hm, ?_⟩
    · intro q r' hr'
      rcases h.router_cases hr' with ⟨rfl, rfl⟩ | ⟨-, hr0⟩
      · obtain ⟨x, hx⟩ := Option.isSome_iff_exists.mp (hc.own q r h.router)
        rcases hc.own_acted h hok hx with hsame | ⟨-, x', hx', -⟩
        · rw [hsame]
          rfl
        · rw [hx']
          rfl
      · exact hc.own q r' hr0
    · intro c k' hk' m hm
      obtain ⟨k, hk, -, -, h1 | ⟨-, -, h1⟩⟩ := h.mem_toClient hk' hm
      · exact hc.bare c k hk m h1
      · exact Router.did_reply_lsas h.did h1
  · rw [hc.alive.not_lost hlost]
    exact hc

end copied

theorem copied_init {conf : Int16 → Option Configuration} (hconf : DistinctIPs conf) :
    Copied (init conf) := by
  have hnew : ∀ p r, (init conf).routers p = some r → r.terminal = .ready ∧ r.lsd = .new r.rd := by
    intro p r hr
    obtain ⟨c, -, rfl⟩ := Option.map_eq_some_iff.mp hr
    exact ⟨rfl, rfl⟩
  have hget : ∀ p r, (init conf).routers p = some r → ∀ i y, r.lsd.getLSA i = some y →
      i = r.ip ∧ y = LinkStateDatabase.initLinkStateDatabase r.rd := by
    intro p r hr i y hy
    rw [(hnew p r hr).2, LinkStateDatabase.getLSA_new] at hy
    split at hy
    · rename_i hi
      cases hy
      exact ⟨hi, rfl⟩
    · cases hy
  have hconns : ∀ (c : Nat) k, (init conf).conns[c]? ≠ some k := by simp [init]
  refine ⟨⟨wired_init conf, ?_, ?_, ?_⟩, apart_init hconf, ?_, ?_, ?_, ?_, ?_⟩
  · intro p r hr
    rw [(hnew p r hr).1]
    intro hx
    cases hx
  · intro p r j x l hr ht
    rw [(hnew p r hr).1] at ht
    cases ht
  · exact fun c k hk => absurd hk (hconns c k)
  · intro p r hr
    rw [Router.ownLSA, (hnew p r hr).2, LinkStateDatabase.getLSA_new, Router.ip, if_pos rfl]
    rfl
  · intro p r hr i y hy
    obtain ⟨rfl, rfl⟩ := hget p r hr i y hy
    exact ⟨rfl, p, r, hr, rfl⟩
  · intro p r x hr hx y hy
    rcases hy with ⟨q, r', hr', hy⟩ | ⟨c, k, -, hk, -⟩
    · obtain ⟨hip, rfl⟩ := hget q r' hr' _ y hy
      obtain rfl := apart_init hconf p q r r' hr hr' hip
      rw [hr] at hr'
      cases hr'
      exact Or.inl (hget p r hr _ x hx).2.symm
    · exact absurd hk (hconns c k)
  · exact fun c k hk => absurd hk (hconns c k)
  · exact fun c k hk => absurd hk (hconns c k)

theorem copied_run {conf : Int16 → Option Configuration} (hconf : DistinctIPs conf)
    {acts : List Action} {n : Network} (h : Run step (fun n a => n.steady a = true) (init conf) acts n) :
    Copied n :=
  h.invariant (copied_init hconf) fun _ _ _ hc hok hs => hc.step hok hs

end Network
end socs.network
