-- The law of the newest advertisement: what a router has stored for an origin
-- after any packets of updates. `addLSA` gives an accepted advertisement the
-- next number of the store and not its own, so the newest one stands at the
-- end exactly when the numbers that arrive lead up to it one by one.
import SysNet.Lib.Counter
import SysNet.LinkState.Server

namespace socs.network

/-! ## One advertisement -/

/-- What one advertisement of an origin does to the stored one. -/
def takeLSA : Option LSA → LSA → Option LSA
  | none, lsa => some lsa
  | some stored, lsa =>
    if lsa.lsaSeqNumber ≤ stored.lsaSeqNumber then some stored
    else some { lsa with lsaSeqNumber := stored.lsaSeqNumber + 1 }

def number (lsa : LSA) : Int := lsa.lsaSeqNumber.toInt

namespace LinkStateDatabase

theorem isStale_iff (d : LinkStateDatabase) (lsa : LSA) :
    d.isStale lsa = true ↔
      ∃ stored, d.getLSA lsa.linkStateID = some stored ∧
        lsa.lsaSeqNumber ≤ stored.lsaSeqNumber := by
  unfold isStale
  cases d.getLSA lsa.linkStateID <;> simp

/-- One turn of the loop of `receive`, seen at the entry of origin `o`. -/
theorem getLSA_receive_cons (d : LinkStateDatabase) (lsa : LSA) (rest : List LSA) :
    ∃ d' : LinkStateDatabase, (d.receive (lsa :: rest)).1 = (d'.receive rest).1 ∧
      d'.getLSA lsa.linkStateID = takeLSA (d.getLSA lsa.linkStateID) lsa ∧
      ∀ o, o ≠ lsa.linkStateID → d'.getLSA o = d.getLSA o := by
  by_cases hs : d.isStale lsa = true
  · refine ⟨d, by simp [receive, hs], ?_, fun _ _ => rfl⟩
    obtain ⟨stored, hget, hle⟩ := (d.isStale_iff lsa).mp hs
    simp [takeLSA, hget, hle]
  · refine ⟨d.addLSA lsa.linkStateID lsa, by simp [receive, hs], ?_,
      fun o ho => getLSA_addLSA_ne _ _ ho⟩
    rw [getLSA_addLSA_self, renumber]
    cases hget : d.getLSA lsa.linkStateID with
    | none => rfl
    | some stored =>
      have hlt : ¬ lsa.lsaSeqNumber ≤ stored.lsaSeqNumber := fun hle =>
        hs ((d.isStale_iff lsa).mpr ⟨stored, hget, hle⟩)
      simp [takeLSA, hlt]

/-- The entry of `o` after a packet: only the advertisements of `o` count. -/
theorem getLSA_receive (o : String) (d : LinkStateDatabase) (lsas : List LSA) :
    (d.receive lsas).1.getLSA o =
      (lsas.filter (·.linkStateID = o)).foldl takeLSA (d.getLSA o) := by
  induction lsas generalizing d with
  | nil => rfl
  | cons lsa rest ih =>
    obtain ⟨d', hrec, hself, hother⟩ := d.getLSA_receive_cons lsa rest
    rw [hrec, ih d']
    by_cases ho : lsa.linkStateID = o
    · subst ho
      simp [hself]
    · simp [ho, hother o (Ne.symm ho)]

end LinkStateDatabase

/-! ## A sequence of packets -/

/-- The router after a sequence of packets. -/
def Router.deliver (r : Router) (connect : Int16 → Client) (msgs : List SOSPFPacket) : Router :=
  msgs.foldl (fun r msg => (r.parseMessage connect msg).router) r

/-- The advertisements of `o` in a sequence of packets, in order. A handler
reads an array up to its first null. -/
def lsasOf (o : String) (msgs : List SOSPFPacket) : List LSA :=
  (msgs.flatMap fun msg => beforeNull msg.lsaArray).filter (·.linkStateID = o)

theorem Router.parseLsaUpdate_lsd (r : Router) (msg : SOSPFPacket) :
    (r.parseLsaUpdate msg).router.lsd = (r.lsd.receive (beforeNull msg.lsaArray)).1 := by
  unfold parseLsaUpdate
  simp only
  split <;> rfl

/-- The entry of `o` after the packets is the fold of its advertisements. -/
theorem Router.getLSA_deliver (r : Router) (connect : Int16 → Client) (o : String)
    (msgs : List SOSPFPacket) (h : ∀ msg ∈ msgs, msg.sospfType = .LSAUPDATE) :
    (r.deliver connect msgs).lsd.getLSA o = (lsasOf o msgs).foldl takeLSA (r.lsd.getLSA o) := by
  induction msgs generalizing r with
  | nil => rfl
  | cons msg msgs ih =>
    have hmsg : r.parseMessage connect msg = r.parseLsaUpdate msg := by
      simp [parseMessage, h msg (by simp)]
    have hrest := ih (r.parseLsaUpdate msg).router fun m hm => h m (by simp [hm])
    simp only [deliver, List.foldl_cons, hmsg] at hrest ⊢
    rw [hrest, parseLsaUpdate_lsd, LinkStateDatabase.getLSA_receive]
    simp [lsasOf]

/-! ## The newest advertisement -/

/-- The entry has the links and the number of an advertisement of the list
that no other one of the list is newer than. -/
def IsNewest (lsas : List LSA) : Option LSA → Prop
  | none => lsas = []
  | some e => ∃ x ∈ lsas, e.lsaSeqNumber = x.lsaSeqNumber ∧ e.links = x.links ∧
      ∀ y ∈ lsas, y.lsaSeqNumber ≤ x.lsaSeqNumber

/-- The numbers of the list lead up to the largest one: after the first
advertisement come, in order, one with a number above the first, one with a
number at least 2 above it, and so on, until no number of the list is larger. -/
def NoNumberSkipped : List LSA → Prop
  | [] => True
  | x :: xs => ∃ ys, ys.Sublist (xs.map number) ∧ counter.Climbs (number x) ys ∧
      ∀ y ∈ x :: xs, number y ≤ number x + ys.length

instance decidableIsNewest (lsas : List LSA) : (e : Option LSA) → Decidable (IsNewest lsas e)
  | none => inferInstanceAs (Decidable (lsas = []))
  | some e => inferInstanceAs (Decidable (∃ x ∈ lsas, e.lsaSeqNumber = x.lsaSeqNumber ∧
      e.links = x.links ∧ ∀ y ∈ lsas, y.lsaSeqNumber ≤ x.lsaSeqNumber))

/-- An advertisement of the origin has one list of links for each number. -/
def SameNumberSameLinks (lsas : List LSA) : Prop :=
  ∀ x ∈ lsas, ∀ y ∈ lsas, x.lsaSeqNumber = y.lsaSeqNumber → x.links = y.links

instance (lsas : List LSA) : Decidable (SameNumberSameLinks lsas) :=
  inferInstanceAs (Decidable (∀ x ∈ lsas, ∀ y ∈ lsas, _ → _))

theorem number_le_iff (x y : LSA) : number x ≤ number y ↔ x.lsaSeqNumber ≤ y.lsaSeqNumber :=
  Int32.le_iff_toInt_le.symm

/-- The stored number counts up; the stored links are those of an
advertisement with a number at least as large. -/
theorem foldl_takeLSA (x : LSA) (xs : List LSA) :
    ∃ e, xs.foldl takeLSA (some x) = some e ∧
      number e = counter.climb (number x) (xs.map number) ∧
      ∃ y ∈ x :: xs, e.links = y.links ∧ number e ≤ number y := by
  induction xs generalizing x with
  | nil => exact ⟨x, rfl, rfl, x, by simp, rfl, Int.le_refl _⟩
  | cons y xs ih =>
    by_cases hle : y.lsaSeqNumber ≤ x.lsaSeqNumber
    · obtain ⟨e, hfold, hnum, z, hz, hlinks, hge⟩ := ih x
      have hn : ¬ number x < number y := by
        have := (number_le_iff y x).mpr hle
        omega
      refine ⟨e, by simpa [takeLSA, hle] using hfold, by simpa [hn] using hnum, z, ?_, hlinks, hge⟩
      rcases List.mem_cons.mp hz with rfl | hz
      · simp
      · simp [hz]
    · -- the accepted advertisement keeps its links and takes the next number
      have hlt : x.lsaSeqNumber < y.lsaSeqNumber := Int32.not_le.mp hle
      obtain ⟨e, hfold, hnum, z, hz, hlinks, hge⟩ :=
        ih { y with lsaSeqNumber := x.lsaSeqNumber + 1 }
      have hup : number { y with lsaSeqNumber := x.lsaSeqNumber + 1 } = number x + 1 :=
        toInt_succ_of_lt hlt
      have hn : number x < number y := Int32.lt_iff_toInt_lt.mp hlt
      refine ⟨e, by simpa [takeLSA, hle] using hfold, ?_, ?_⟩
      · rw [hnum, hup]
        simp [hn]
      · rcases List.mem_cons.mp hz with rfl | hz
        · exact ⟨y, by simp, hlinks, by omega⟩
        · exact ⟨z, by simp [hz], hlinks, hge⟩

theorem foldl_takeLSA_none (xs : List LSA) (x : LSA) :
    (x :: xs).foldl takeLSA none = xs.foldl takeLSA (some x) := rfl

/-- The fold of a list of advertisements ends with the newest one exactly when
no number is skipped. -/
theorem isNewest_foldl_iff (lsas : List LSA) :
    IsNewest lsas (lsas.foldl takeLSA none) ↔ NoNumberSkipped lsas := by
  cases lsas with
  | nil => simp [IsNewest, NoNumberSkipped]
  | cons x xs =>
    obtain ⟨e, hfold, hnum, z, hz, hlinks, hge⟩ := foldl_takeLSA x xs
    rw [foldl_takeLSA_none, hfold]
    obtain ⟨ys, hsub, hup, heq⟩ := counter.climb_takes (number x) (xs.map number)
    constructor
    · rintro ⟨w, hw, hsame, -, hmax⟩
      refine ⟨ys, hsub, hup, fun y hy => ?_⟩
      have h1 := (number_le_iff y w).mpr (hmax y hy)
      have h2 : number e = number w := by simp [number, hsame]
      omega
    · rintro ⟨us, husub, husup, hall⟩
      have htop : ∀ y ∈ x :: xs, number y ≤ number e := by
        intro y hy
        rw [hnum, counter.le_climb_iff]
        exact ⟨us, husub, husup, hall y hy⟩
      have hez : number e = number z := Int.le_antisymm hge (htop z hz)
      refine ⟨z, hz, Int32.toInt_inj.mp hez, hlinks, fun y hy => ?_⟩
      rw [← number_le_iff, ← hez]
      exact htop y hy

/-! ## The law -/

/-- The advertisements of `o` that the router has seen: the stored one, and
those of the packets. -/
def Router.seen (r : Router) (o : String) (msgs : List SOSPFPacket) : List LSA :=
  (r.lsd.getLSA o).toList ++ lsasOf o msgs

theorem Router.getLSA_deliver_seen (r : Router) (connect : Int16 → Client) (o : String)
    (msgs : List SOSPFPacket) (h : ∀ msg ∈ msgs, msg.sospfType = .LSAUPDATE) :
    (r.deliver connect msgs).lsd.getLSA o = (r.seen o msgs).foldl takeLSA none := by
  rw [r.getLSA_deliver connect o msgs h, seen]
  cases r.lsd.getLSA o <;> rfl

/-- Advertisements that are no newer than the entry leave it alone. -/
theorem foldl_takeLSA_stale (e : LSA) (xs : List LSA)
    (h : ∀ y ∈ xs, y.lsaSeqNumber ≤ e.lsaSeqNumber) : xs.foldl takeLSA (some e) = some e := by
  induction xs with
  | nil => rfl
  | cons y xs ih =>
    have hy : takeLSA (some e) y = some e := by simp [takeLSA, h y (by simp)]
    rw [List.foldl_cons, hy]
    exact ih fun z hz => h z (by simp [hz])

theorem foldl_takeLSA_again {lsas again : List LSA} {e : Option LSA} (hnew : IsNewest lsas e)
    (hsub : again ⊆ lsas) : again.foldl takeLSA e = e := by
  cases e with
  | none =>
    have hnil : lsas = [] := hnew
    subst hnil
    rw [List.subset_nil.mp hsub]
    rfl
  | some e =>
    obtain ⟨x, -, hnum, -, hmax⟩ := hnew
    exact foldl_takeLSA_stale e again fun y hy => hnum ▸ hmax y (hsub hy)

/-- Two lists with the same advertisements have the same newest one. -/
theorem isNewest_unique {lsas lsas' : List LSA} {e e' : Option LSA} (h : IsNewest lsas e)
    (h' : IsNewest lsas' e') (hperm : lsas'.Perm lsas) (hsame : SameNumberSameLinks lsas) :
    e'.map (fun l => (l.lsaSeqNumber, l.links)) = e.map (fun l => (l.lsaSeqNumber, l.links)) := by
  cases e with
  | none =>
    have hnil : lsas = [] := h
    subst hnil
    cases e' with
    | none => rfl
    | some e' =>
      obtain ⟨x, hx, -⟩ := h'
      rw [hperm.eq_nil] at hx
      cases hx
  | some e =>
    obtain ⟨x, hx, hnum, hlinks, hmax⟩ := h
    cases e' with
    | none =>
      have hnil : lsas' = [] := h'
      subst hnil
      rw [hperm.symm.eq_nil] at hx
      cases hx
    | some e' =>
      obtain ⟨x', hx', hnum', hlinks', hmax'⟩ := h'
      have hxx : x.lsaSeqNumber = x'.lsaSeqNumber :=
        Int32.le_antisymm (hmax' x (hperm.mem_iff.mpr hx)) (hmax x' (hperm.mem_iff.mp hx'))
      have hll := hsame x hx x' (hperm.mem_iff.mp hx') hxx
      simp [hnum, hnum', hlinks, hlinks', hxx, hll]

/-- After any updates, the newest advertisement of an origin stands exactly
when no number was skipped on the way. Then packets that bring it again change
nothing, and another order that skips no number ends with the same entry. -/
theorem the_newest_lsa_stands_iff_no_number_is_skipped (r : Router) (connect : Int16 → Client)
    (o : String) (msgs : List SOSPFPacket) (h : ∀ msg ∈ msgs, msg.sospfType = .LSAUPDATE) :
    (IsNewest (r.seen o msgs) ((r.deliver connect msgs).lsd.getLSA o) ↔
      NoNumberSkipped (r.seen o msgs)) ∧
    (NoNumberSkipped (r.seen o msgs) →
      (∀ again : List SOSPFPacket, (∀ msg ∈ again, msg.sospfType = .LSAUPDATE) →
        lsasOf o again ⊆ r.seen o msgs →
        ((r.deliver connect msgs).deliver connect again).lsd.getLSA o =
          (r.deliver connect msgs).lsd.getLSA o) ∧
      (∀ msgs' : List SOSPFPacket, (∀ msg ∈ msgs', msg.sospfType = .LSAUPDATE) →
        (lsasOf o msgs').Perm (lsasOf o msgs) → NoNumberSkipped (r.seen o msgs') →
        SameNumberSameLinks (r.seen o msgs) →
        ((r.deliver connect msgs').lsd.getLSA o).map (fun l => (l.lsaSeqNumber, l.links)) =
          ((r.deliver connect msgs).lsd.getLSA o).map (fun l => (l.lsaSeqNumber, l.links)))) := by
  have hiff : ∀ ms : List SOSPFPacket, (∀ msg ∈ ms, msg.sospfType = .LSAUPDATE) →
      (IsNewest (r.seen o ms) ((r.deliver connect ms).lsd.getLSA o) ↔
        NoNumberSkipped (r.seen o ms)) := by
    intro ms hms
    rw [r.getLSA_deliver_seen connect o ms hms]
    exact isNewest_foldl_iff _
  refine ⟨hiff msgs h, fun hno => ⟨?_, ?_⟩⟩
  · intro again hagain hsub
    rw [Router.getLSA_deliver _ connect o again hagain]
    exact foldl_takeLSA_again ((hiff msgs h).mpr hno) hsub
  · intro msgs' h' hperm hno' hsame
    have hseen : (r.seen o msgs').Perm (r.seen o msgs) := List.Perm.append_left _ hperm
    exact isNewest_unique ((hiff msgs h).mpr hno) ((hiff msgs' h').mpr hno') hseen hsame

/-! ## Three updates out of order -/

/-- Router 192.168.1.1 of `conf/router1.conf`. -/
def router1 : Router :=
  .new { processIPAddress := "127.0.0.1", processPortNumber := 3000,
         simulatedIPAddress := "192.168.1.1" }

/-- An update of router 192.168.2.1 with its advertisement number `k`, which
names `k` neighbors. -/
def updateOf (k : Nat) : SOSPFPacket :=
  { sospfType := .LSAUPDATE
    routerID := "192.168.1.100"
    lsaArray := [some
      { linkStateID := "192.168.2.1"
        lsaSeqNumber := Int32.minValue + Int32.ofNat k
        links := (List.range k).map fun i =>
          { linkID := "192.168.1." ++ toString i, portNum := Int32.ofNat i } }] }

/-- The updates 1, 4 and 3 arrive: update 4 is stored as number 2, so update 3
takes its place. -/
theorem an_older_lsa_takes_the_place_of_a_newer_one :
    let msgs := [updateOf 1, updateOf 4, updateOf 3]
    "192.168.2.1" ≠ router1.ip ∧ (∀ msg ∈ msgs, msg.sospfType = .LSAUPDATE) ∧
      SameNumberSameLinks (router1.seen "192.168.2.1" msgs) ∧
      ¬ IsNewest (router1.seen "192.168.2.1" msgs)
        ((router1.deliver (fun _ => ⟨0, false⟩) msgs).lsd.getLSA "192.168.2.1") := by
  decide

/-- The updates 1, 2, 3 and 4 arrive in their order: no number is skipped. -/
theorem the_newest_lsa_stands_after_updates_in_order :
    let msgs := [updateOf 1, updateOf 2, updateOf 3, updateOf 4]
    (∀ msg ∈ msgs, msg.sospfType = .LSAUPDATE) ∧
      IsNewest (router1.seen "192.168.2.1" msgs)
        ((router1.deliver (fun _ => ⟨0, false⟩) msgs).lsd.getLSA "192.168.2.1") := by
  have htype : ∀ msg ∈ [updateOf 1, updateOf 2, updateOf 3, updateOf 4],
      msg.sospfType = .LSAUPDATE := by decide
  refine ⟨htype, ?_⟩
  rw [(the_newest_lsa_stands_iff_no_number_is_skipped _ _ _ _ htype).1]
  refine ⟨[-2147483646, -2147483645, -2147483644], ?_, by decide, by decide⟩
  exact List.Sublist.refl _

end socs.network
