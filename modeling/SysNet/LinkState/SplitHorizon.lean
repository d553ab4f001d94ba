-- What a router passes on of an update. The loop writes the sender that it
-- tests, so from the first copy on it keeps the packet from the router itself
-- and no longer from the router that it came from.
import SysNet.LinkState.Server

namespace socs.network
namespace Router

variable {r : Router} {msg : SOSPFPacket}

/-! ## The copies -/

def twoWay (r : Router) : List Link := r.ports.filter fun l => l.router2.status = .TWO_WAY

def copyFor (r : Router) (msg : SOSPFPacket) (link : Link) : SOSPFPacket :=
  { msg with routerID := r.ip, neighborID := link.router2.simulatedIPAddress }

/-- The links that get a copy, of a list of links that are `TWO_WAY`. -/
def reached (own sender : String) (links : List Link) : List Link :=
  match links.dropWhile fun l => l.router2.simulatedIPAddress = sender with
  | [] => []
  | l :: rest => l :: rest.filter fun l => l.router2.simulatedIPAddress ≠ own

theorem forward_own (h : msg.routerID = r.ip) (links : List Link) : r.forward msg links =
    ((links.filter fun l => l.router2.status = .TWO_WAY).filter fun l =>
      l.router2.simulatedIPAddress ≠ r.ip).map fun l => (l.client, r.copyFor msg l) := by
  induction links generalizing msg with
  | nil => rfl
  | cons link links ih =>
    unfold forward
    by_cases htwo : link.router2.status = .TWO_WAY
    · rw [if_neg (not_not.mpr htwo), List.filter_cons_of_pos (by simp [htwo])]
      by_cases hown : link.router2.simulatedIPAddress = r.ip
      · rw [if_pos (h.trans hown.symm), List.filter_cons_of_neg (by simp [hown])]
        exact ih h
      · rw [if_neg fun heq => hown (heq.symm.trans h), List.filter_cons_of_pos (by simp [hown]), List.map_cons]
        simp only
        rw [ih rfl]
        rfl
    · rw [if_pos htwo, List.filter_cons_of_neg (by simp [htwo])]
      exact ih h

/-- Links to the sender are passed over up to the first copy. -/
theorem forward_eq (links : List Link) : r.forward msg links =
    (reached r.ip msg.routerID (links.filter fun l => l.router2.status = .TWO_WAY)).map
      fun l => (l.client, r.copyFor msg l) := by
  induction links with
  | nil => rfl
  | cons link links ih =>
    unfold forward
    by_cases htwo : link.router2.status = .TWO_WAY
    · rw [if_neg (not_not.mpr htwo), List.filter_cons_of_pos (by simp [htwo])]
      by_cases hsender : link.router2.simulatedIPAddress = msg.routerID
      · rw [if_pos hsender.symm, ih]
        unfold reached
        rw [List.dropWhile_cons_of_pos (by simp [hsender])]
      · rw [if_neg (Ne.symm hsender)]
        unfold reached
        rw [List.dropWhile_cons_of_neg (by simp [hsender])]
        simp only
        rw [forward_own rfl]
        rfl
    · rw [if_pos htwo, List.filter_cons_of_neg (by simp [htwo])]
      exact ih

/-! ## Split horizon -/

/-- The packet that goes out, with the advertisements as the database numbered them and the own one
behind them. -/
def passedOn (r : Router) (msg : SOSPFPacket) : SOSPFPacket :=
  let got := r.lsd.receive (beforeNull msg.lsaArray)
  { msg with lsaArray := got.2.map some ++ [got.1.getLSA r.ip] }

/-- The links to other routers than the sender. -/
def others (sender : String) (links : List Link) : List Link :=
  links.filter fun l => l.router2.simulatedIPAddress ≠ sender

/-- One copy goes to each `TWO_WAY` link to another router than the sender, and nothing else. -/
def SplitHorizon (r : Router) (msg : SOSPFPacket) : Prop :=
  (r.parseLsaUpdate msg).sends.Perm
    ((others msg.routerID r.twoWay).map fun l => (l.client.conn, r.copyFor (r.passedOn msg) l))

theorem parseLsaUpdate_sends_null (h : none ∈ msg.lsaArray) : (r.parseLsaUpdate msg).sends = [] := by
  unfold parseLsaUpdate
  simp only
  rw [if_pos h]

theorem parseLsaUpdate_sends_eq (h : none ∉ msg.lsaArray) : (r.parseLsaUpdate msg).sends =
    ((reached r.ip msg.routerID r.twoWay).takeWhile fun l => l.client.connected).map
      fun l => (l.client.conn, r.copyFor (r.passedOn msg) l) := by
  unfold parseLsaUpdate
  simp only
  rw [if_neg h]
  simp only
  rw [forward_eq]
  unfold sent
  rw [List.takeWhile_map, List.map_map]
  rfl

/-! ## When it holds -/

/-- The `TWO_WAY` links from the first one on that does not lead to the sender. -/
def afterSender (r : Router) (sender : String) : List Link :=
  r.twoWay.dropWhile fun l => l.router2.simulatedIPAddress = sender

/-- The packet has no null, the sockets to the other routers work, and behind the first copy no link
leads to the router itself and none to the sender. The sender may be the router itself, and its
links may come last when the first of them has no socket. -/
structure InOrder (r : Router) (msg : SOSPFPacket) : Prop where
  noNull : none ∉ msg.lsaArray
  connected : ∀ l ∈ others msg.routerID (r.afterSender msg.routerID), l.client.connected = true
  split : msg.routerID ≠ r.ip →
    (∀ l ∈ (r.afterSender msg.routerID).tail, l.router2.simulatedIPAddress ≠ r.ip) ∧
      ∃ front back, r.afterSender msg.routerID = front ++ back ∧
        (∀ l ∈ front, l.router2.simulatedIPAddress ≠ msg.routerID) ∧
        (∀ l ∈ back, l.router2.simulatedIPAddress = msg.routerID) ∧
        ∀ l ∈ back.head?, l.client.connected = false

theorem others_twoWay (r : Router) (sender : String) :
    others sender r.twoWay = others sender (r.afterSender sender) := by
  unfold afterSender
  induction r.twoWay with
  | nil => rfl
  | cons l links ih =>
    by_cases hl : l.router2.simulatedIPAddress = sender
    · rw [List.dropWhile_cons_of_pos (by simp [hl])]
      unfold others at *
      rw [List.filter_cons_of_neg (by simp [hl])]
      exact ih
    · rw [List.dropWhile_cons_of_neg (by simp [hl])]

theorem others_eq_self {sender : String} {links : List Link}
    (h : ∀ l ∈ links, l.router2.simulatedIPAddress ≠ sender) : others sender links = links := by
  unfold others
  apply List.filter_eq_self.mpr
  intro l hl
  exact decide_eq_true (h l hl)

theorem others_eq_nil {sender : String} {links : List Link} :
    others sender links = [] ↔ ∀ l ∈ links, l.router2.simulatedIPAddress = sender := by
  unfold others
  rw [List.filter_eq_nil_iff]
  refine forall₂_congr fun l _ => ?_
  simp

theorem others_append (sender : String) (links links' : List Link) :
    others sender (links ++ links') = others sender links ++ others sender links' := List.filter_append ..

theorem reached_cons {own sender : String} {l : Link} {links rest : List Link}
    (h : (links.dropWhile fun l => l.router2.simulatedIPAddress = sender) = l :: rest) :
    reached own sender links = l :: others own rest := by
  unfold reached
  rw [h]
  rfl

theorem takeWhile_all {links : List Link} (h : ∀ l ∈ links, l.client.connected = true) :
    (links.takeWhile fun l => l.client.connected) = links := List.takeWhile_eq_self_iff.mpr h

/-- The first of the links behind the sender's is no link to it. -/
theorem afterSender_head {sender : String} {l : Link} {rest : List Link} (h : r.afterSender sender = l :: rest) :
    l.router2.simulatedIPAddress ≠ sender := by
  have hhead := List.head?_dropWhile_not (fun l : Link => l.router2.simulatedIPAddress = sender) r.twoWay
  unfold afterSender at h
  rw [h] at hhead
  simpa using hhead

theorem splitHorizon_of_inOrder (h : r.afterSender msg.routerID = [] ∨ r.InOrder msg) :
    r.SplitHorizon msg := by
  unfold SplitHorizon
  rw [others_twoWay]
  cases hafter : r.afterSender msg.routerID with
  | nil =>
    by_cases hnull : none ∈ msg.lsaArray
    · rw [parseLsaUpdate_sends_null hnull]
      exact List.Perm.refl _
    · have hreached : reached r.ip msg.routerID r.twoWay = [] := by
        unfold reached
        unfold afterSender at hafter
        rw [hafter]
      rw [parseLsaUpdate_sends_eq hnull, hreached]
      exact List.Perm.refl _
  | cons l0 rest =>
    obtain ⟨hnull, hconn, hsplit⟩ := h.resolve_left (by rw [hafter]; exact List.cons_ne_nil _ _)
    rw [hafter] at hconn hsplit
    have hhead := afterSender_head hafter
    rw [parseLsaUpdate_sends_eq hnull, reached_cons hafter]
    have hsame : ((l0 :: others r.ip rest).takeWhile fun l => l.client.connected) =
        others msg.routerID (l0 :: rest) := by
      by_cases hown : msg.routerID = r.ip
      · have heq : l0 :: others r.ip rest = others msg.routerID (l0 :: rest) := by
          unfold others
          rw [List.filter_cons_of_pos (by simp [hhead]), hown]
        rw [heq]
        exact takeWhile_all hconn
      · obtain ⟨hno, front, back, hfb, hfront, hback, hbroken⟩ := hsplit hown
        rw [List.tail_cons] at hno
        rw [others_eq_self hno, hfb, others_append, others_eq_self hfront, others_eq_nil.mpr hback,
          List.append_nil]
        rw [hfb, others_append, others_eq_self hfront, others_eq_nil.mpr hback, List.append_nil] at hconn
        rw [List.takeWhile_append_of_pos hconn]
        cases hb : back with
        | nil => exact List.append_nil front
        | cons b bs =>
          rw [hb] at hbroken
          rw [List.takeWhile_cons_of_neg (by simp [hbroken b rfl]), List.append_nil]
    rw [hsame]

/-- A copy tells its link's remote router. -/
theorem count_copies (remote : String) (links : List Link) :
    (links.map fun l => (l.client.conn, r.copyFor msg l)).countP (fun x => x.2.neighborID = remote) =
      links.countP fun l => l.router2.simulatedIPAddress = remote := by
  rw [List.countP_map]
  rfl

theorem inOrder_of_splitHorizon (h : r.SplitHorizon msg) : r.afterSender msg.routerID = [] ∨ r.InOrder msg := by
  unfold SplitHorizon at h
  rw [others_twoWay] at h
  cases hafter : r.afterSender msg.routerID with
  | nil => exact Or.inl rfl
  | cons l0 rest =>
    right
    have hhead := afterSender_head hafter
    rw [hafter] at h
    have hothers : others msg.routerID (l0 :: rest) = l0 :: others msg.routerID rest := by
      unfold others
      rw [List.filter_cons_of_pos (by simp [hhead])]
    have hnull : none ∉ msg.lsaArray := by
      intro hnull
      rw [parseLsaUpdate_sends_null hnull, hothers] at h
      have hlen := h.length_eq
      rw [List.map_cons, List.length_cons] at hlen
      cases hlen
    rw [parseLsaUpdate_sends_eq hnull, reached_cons hafter] at h
    have hlen := h.length_eq
    rw [List.length_map, List.length_map] at hlen
    by_cases hown : msg.routerID = r.ip
    · have heq : l0 :: others r.ip rest = others msg.routerID (l0 :: rest) := by
        rw [hothers, hown]
      rw [heq] at hlen
      refine ⟨hnull, ?_, fun hne => absurd hown hne⟩
      rw [hafter]
      have hall := (List.takeWhile_prefix (fun l : Link => l.client.connected)).eq_of_length hlen
      exact List.takeWhile_eq_self_iff.mp hall
    · -- a link to the router itself would lack its copy
      have hno : ∀ l ∈ rest, l.router2.simulatedIPAddress ≠ r.ip := by
        have hcount := h.countP_eq fun x => x.2.neighborID = r.ip
        rw [count_copies, count_copies, hothers] at hcount
        have hle : ((l0 :: others r.ip rest).takeWhile fun l => l.client.connected).countP
            (fun l => l.router2.simulatedIPAddress = r.ip) ≤
              (l0 :: others r.ip rest).countP fun l => l.router2.simulatedIPAddress = r.ip :=
          (List.takeWhile_prefix _).sublist.countP_le
        have hnone : (others r.ip rest).countP (fun l => l.router2.simulatedIPAddress = r.ip) = 0 := by
          rw [List.countP_eq_zero]
          intro l hl
          simpa using (List.mem_filter.mp hl).2
        have hzero : (others msg.routerID rest).countP (fun l => l.router2.simulatedIPAddress = r.ip) = 0 := by
          simp only [List.countP_cons] at hcount hle
          omega
        intro l hl heq
        refine List.countP_eq_zero.mp hzero l (List.mem_filter.mpr ⟨hl, ?_⟩) (decide_eq_true heq)
        exact decide_eq_true fun hs => hown (hs.symm.trans heq)
      rw [others_eq_self hno] at h hlen
      have hsplit := @List.takeWhile_append_dropWhile _ (fun l : Link => l.client.connected) (l0 :: rest)
      have hbroken : ∀ l ∈ ((l0 :: rest).dropWhile fun l => l.client.connected).head?,
          l.client.connected = false := by
        intro l hl
        have hnot := List.head?_dropWhile_not (fun l : Link => l.client.connected) (l0 :: rest)
        rw [Option.mem_def.mp hl] at hnot
        simpa using hnot
      generalize hfront : ((l0 :: rest).takeWhile fun l => l.client.connected) = front at h hlen hsplit
      generalize ((l0 :: rest).dropWhile fun l => l.client.connected) = back at hsplit hbroken
      have hconn : ∀ l ∈ front, l.client.connected = true := by
        intro l hl
        rw [← hfront] at hl
        simpa using List.mem_takeWhile_imp hl
      -- a link to the sender in front would have a copy
      have hclean : ∀ l ∈ front, l.router2.simulatedIPAddress ≠ msg.routerID := by
        have hcount := h.countP_eq fun x => x.2.neighborID = msg.routerID
        rw [count_copies, count_copies] at hcount
        have hzero : (others msg.routerID (l0 :: rest)).countP
            (fun l => l.router2.simulatedIPAddress = msg.routerID) = 0 := by
          rw [List.countP_eq_zero]
          intro l hl
          simpa using (List.mem_filter.mp hl).2
        intro l hl heq
        exact List.countP_eq_zero.mp (hcount.trans hzero) l hl (decide_eq_true heq)
      rw [← hsplit, others_append, others_eq_self hclean, List.length_append] at hlen
      have hback : others msg.routerID back = [] := List.eq_nil_of_length_eq_zero (by omega)
      refine ⟨hnull, ?_, fun _ => ⟨?_, front, back, ?_, hclean, others_eq_nil.mp hback, hbroken⟩⟩
      · rw [hafter, ← hsplit, others_append, others_eq_self hclean, hback, List.append_nil]
        exact hconn
      · rw [hafter]
        exact hno
      · rw [hafter]
        exact hsplit.symm

/-- Flooding splits the horizon exactly when nobody but the sender would get a copy, or the links to
the sender stand in order. -/
theorem flooding_splits_the_horizon_iff (r : Router) (msg : SOSPFPacket) :
    r.SplitHorizon msg ↔ r.afterSender msg.routerID = [] ∨ r.InOrder msg :=
  ⟨inOrder_of_splitHorizon, splitHorizon_of_inOrder⟩

/-- A link that has been started, with its socket open. -/
def startedLink (conn : Nat) (ip : String) : Link :=
  ⟨⟨"127.0.0.1", 3000, ip, .TWO_WAY⟩, ⟨conn, true⟩⟩

/-- The link to the sender stands behind another one, and the packet goes back to the sender. -/
theorem a_sender_gets_its_packet_back : ¬ ∀ (r : Router) (msg : SOSPFPacket), r.SplitHorizon msg := by
  intro h
  have hlen := (h { new ⟨"127.0.0.1", 3000, "192.168.1.1", .IDLE⟩ with
    ports := [startedLink 0 "192.168.1.3", startedLink 1 "192.168.1.2"] }
    { sospfType := .LSAUPDATE, routerID := "192.168.1.2" }).length_eq
  revert hlen
  decide +kernel

end Router
end socs.network
