-- The network: routers, and the socket connections between them. A connection
-- carries packets to the server in order, and answers back in order. A step
-- lets one thread of one router run up to its next wait.
import SysNet.Lib.Cells
import SysNet.LinkState.RouterLaws
import SysNet.LinkState.Routes

open runs cells

namespace socs.network

/-! ## The state of the network -/

/-- A socket that the process at `client` opened to the process at `server`,
with the handler thread that serves it. -/
structure Connection where
  client : Int16
  server : Int16
  toServer : List SOSPFPacket := []
  toClient : List SOSPFPacket := []
  handler : Handler := .idle

/-- The routers by process port. Every link goes to `localhost`, so the port
alone names a process. -/
structure Network where
  routers : Int16 → Option Router
  conns : List Connection

/-- The file that a router is launched with, less its port. -/
structure Configuration where
  ip : String
  processIP : String

inductive Action
  /-- A command is typed at the router. -/
  | command (p : Int16) (c : Command)
  /-- The terminal thread of the router goes on. -/
  | advance (p : Int16)
  /-- The terminal thread of the router reads the answer that it waits for. -/
  | read (p : Int16)
  /-- The handler thread of a connection takes its next packet. -/
  | deliver (c : Nat)
deriving DecidableEq

namespace Network

/-- The ports that name a process. A port from 32768 on is a negative `short`
in the code: `ServerSocket` throws for it, so that nobody listens there, and so
does `Socket`. Port 0 is no address either. -/
def namesProcess (p : Int16) : Bool := 0 < p

/-- Every router of the configuration is launched, each at a port where its
server can listen, and no link is made yet. -/
def init (conf : Int16 → Option Configuration) : Network :=
  { routers := fun p => (if namesProcess p then conf p else none).map fun c => Router.new
      { processIPAddress := c.processIP, processPortNumber := p, simulatedIPAddress := c.ip }
    conns := [] }

/-- A router of the network at its start. -/
theorem init_routers {conf : Int16 → Option Configuration} {p : Int16} {r : Router}
    (h : (init conf).routers p = some r) : namesProcess p = true ∧ ∃ c, conf p = some c ∧
      r = Router.new { processIPAddress := c.processIP, processPortNumber := p,
                       simulatedIPAddress := c.ip } := by
  obtain ⟨c, hc, rfl⟩ := Option.map_eq_some_iff.mp h
  split at hc
  · rename_i hp
    exact ⟨hp, c, hc, rfl⟩
  · cases hc

/-- The process at the port is there, and `quit` has not ended it. -/
def running (n : Network) (p : Int16) : Bool :=
  match n.routers p with
  | some r => decide (r.terminal ≠ .exited)
  | none => false

/-- A new connection to a port. Where no process listens, or the socket throws
for the port, there is no stream to write to. -/
def connect (n : Network) (p : Int16) : Client :=
  ⟨n.conns.length, namesProcess p && n.running p⟩

theorem connected_iff {n : Network} {p : Int16} :
    (n.connect p).connected = true ↔ namesProcess p = true ∧ n.running p = true :=
  Bool.and_eq_true_iff

/-! ## Steps -/

/-- The packets for connection `i`. -/
def sendsTo (i : Nat) (sends : List (Nat × SOSPFPacket)) : List SOSPFPacket :=
  (sends.filter (·.1 = i)).map (·.2)

def push (conns : List Connection) (send : Nat × SOSPFPacket) : List Connection :=
  conns.modify send.1 fun k => { k with toServer := k.toServer ++ [send.2] }

/-- The connections, with the one that the router at `p` opens. -/
def opened (n : Network) (p : Int16) (e : Effect) : List Connection :=
  match e.opens with
  | some q => n.conns ++ [{ client := p, server := q }]
  | none => n.conns

/-- A thread of the router at `p` has run. -/
def act (n : Network) (p : Int16) (e : Effect) : Network :=
  { routers := Function.update n.routers p (some e.router)
    conns := e.sends.foldl push (n.opened p e) }

def setConn (n : Network) (c : Nat) (k : Connection) : Network :=
  { n with conns := n.conns.set c k }

/-- The handler thread of connection `c` has answered. -/
def answer (n : Network) (c : Nat) (e : Effect) : Network :=
  { n with
    conns := n.conns.modify c fun k =>
      { k with toClient := k.toClient ++ e.reply.toList, handler := e.handler } }

/-- What the handler thread in a state does with a packet. -/
def handlerEvent (n : Network) (msg : SOSPFPacket) : Handler → Option Router.Event
  | .idle => some (.handle n.connect msg)
  | .awaitTwoWay remoteRD => some (.respond remoteRD msg)
  | .dead => none

/-- A packet for a process that has ended is lost. -/
def deliver (n : Network) (c : Nat) : Option Network :=
  match n.conns[c]? with
  | none => none
  | some k =>
    match k.toServer with
    | [] => none
    | msg :: rest =>
      let n1 := n.setConn c { k with toServer := rest }
      if n.running k.server then do
        let r ← n.routers k.server
        let ev ← n.handlerEvent msg k.handler
        let e ← r.react ev
        return (n1.act k.server e).answer c e
      else some n1

/-- A read at a stream that has ended gives no packet. -/
def read (n : Network) (p : Int16) : Option Network := do
  let r ← n.routers p
  let l ← r.waitsOn
  let k ← n.conns[l.client.conn]?
  match k.toClient with
  | msg :: rest =>
    let e ← r.react (.read (some msg))
    return (n.setConn l.client.conn { k with toClient := rest }).act p e
  | [] =>
    if n.running k.server then none
    else
      let e ← r.react (.read none)
      return n.act p e

def step (n : Network) : Action → Option Network
  | .command p c => do
    let r ← n.routers p
    let e ← r.react (.command c)
    return n.act p e
  | .advance p => do
    let r ← n.routers p
    let e ← r.react (.advance n.connect)
    return n.act p e
  | .read p => n.read p
  | .deliver c => n.deliver c

/-- No packet is on its way, in either direction. -/
def quiet (n : Network) : Bool := n.conns.all fun k => k.toServer.isEmpty && k.toClient.isEmpty

theorem quiet_conn {n : Network} (h : n.quiet = true) {c : Nat} {k : Connection}
    (hk : n.conns[c]? = some k) : k.toServer = [] ∧ k.toClient = [] := by
  unfold quiet at h
  rw [List.all_eq_true] at h
  simpa using h k (List.mem_of_getElem? hk)

/-! ## The cases of a step -/

/-- The cases of `step`, each with its guards. -/
inductive Stepped (n : Network) : Action → Network → Prop
  | command {p : Int16} {c : Command} {r : Router} {e : Effect} : n.routers p = some r →
      r.Did (.command c) e → Stepped n (.command p c) (n.act p e)
  | advance {p : Int16} {r : Router} {e : Effect} : n.routers p = some r →
      r.Did (.advance n.connect) e → Stepped n (.advance p) (n.act p e)
  | read {p : Int16} {r : Router} {e : Effect} {l : Link} {k : Connection} {msg : SOSPFPacket}
      {rest : List SOSPFPacket} : n.routers p = some r → r.waitsOn = some l →
      n.conns[l.client.conn]? = some k → k.toClient = msg :: rest → r.Did (.read (some msg)) e →
      Stepped n (.read p) ((n.setConn l.client.conn { k with toClient := rest }).act p e)
  | eof {p : Int16} {r : Router} {e : Effect} {l : Link} {k : Connection} :
      n.routers p = some r → r.waitsOn = some l → n.conns[l.client.conn]? = some k →
      k.toClient = [] → n.running k.server = false → r.Did (.read none) e →
      Stepped n (.read p) (n.act p e)
  | lost {c : Nat} {k : Connection} {msg : SOSPFPacket} {rest : List SOSPFPacket} :
      n.conns[c]? = some k → k.toServer = msg :: rest → n.running k.server = false →
      Stepped n (.deliver c) (n.setConn c { k with toServer := rest })
  | handle {c : Nat} {k : Connection} {msg : SOSPFPacket} {rest : List SOSPFPacket} {r : Router}
      {ev : Router.Event} {e : Effect} : n.conns[c]? = some k → k.toServer = msg :: rest →
      n.running k.server = true → n.routers k.server = some r →
      n.handlerEvent msg k.handler = some ev → r.Did ev e →
      Stepped n (.deliver c) (((n.setConn c { k with toServer := rest }).act k.server e).answer c e)

theorem step_stepped {n n' : Network} {a : Action} (h : n.step a = some n') : Stepped n a n' := by
  cases a with
  | command p c =>
    simp only [step, Option.bind_eq_bind, Option.bind_eq_some_iff, Option.pure_def,
      Option.some.injEq] at h
    obtain ⟨r, hr, e, he, rfl⟩ := h
    exact .command hr (Router.react_did he)
  | advance p =>
    simp only [step, Option.bind_eq_bind, Option.bind_eq_some_iff, Option.pure_def,
      Option.some.injEq] at h
    obtain ⟨r, hr, e, he, rfl⟩ := h
    exact .advance hr (Router.react_did he)
  | read p =>
    simp only [step, read, Option.bind_eq_bind, Option.bind_eq_some_iff] at h
    obtain ⟨r, hr, l, hl, k, hk, h⟩ := h
    split at h
    · rename_i msg rest hq
      simp only [Option.bind_eq_some_iff, Option.pure_def, Option.some.injEq] at h
      obtain ⟨e, he, rfl⟩ := h
      exact .read hr hl hk hq (Router.react_did he)
    · rename_i hq
      split at h
      · cases h
      · rename_i hrun
        simp only [Option.bind_eq_some_iff, Option.pure_def, Option.some.injEq] at h
        obtain ⟨e, he, rfl⟩ := h
        exact .eof hr hl hk hq (by simpa using hrun) (Router.react_did he)
  | deliver c =>
    simp only [step, deliver] at h
    split at h
    · cases h
    · rename_i k hk
      split at h
      · cases h
      · rename_i msg rest hq
        split at h
        · rename_i hrun
          simp only [Option.bind_eq_bind, Option.bind_eq_some_iff, Option.pure_def,
            Option.some.injEq] at h
          obtain ⟨r, hr, ev, hev, e, he, rfl⟩ := h
          exact .handle hk hq hrun hr hev (Router.react_did he)
        · rename_i hrun
          cases h
          exact .lost hk hq (by simpa using hrun)

/-! ## The connections after a step -/

@[simp] theorem foldl_push_getElem? (conns : List Connection) (sends : List (Nat × SOSPFPacket))
    (i : Nat) :
    (sends.foldl push conns)[i]? =
      conns[i]?.map fun k => { k with toServer := k.toServer ++ sendsTo i sends } := by
  induction sends generalizing conns with
  | nil => simp [sendsTo]
  | cons send sends ih =>
    rw [List.foldl_cons, ih, push, List.getElem?_modify]
    by_cases h : send.1 = i
    · subst h
      cases conns[send.1]? <;> simp [sendsTo]
    · cases conns[i]? <;> simp [sendsTo, h]

@[simp] theorem foldl_push_length (conns : List Connection) (sends : List (Nat × SOSPFPacket)) :
    (sends.foldl push conns).length = conns.length := by
  induction sends generalizing conns with
  | nil => rfl
  | cons send sends ih => rw [List.foldl_cons, ih]; simp [push]

theorem act_conns (n : Network) (p : Int16) (e : Effect) (i : Nat) :
    (n.act p e).conns[i]? =
      (n.opened p e)[i]?.map fun k => { k with toServer := k.toServer ++ sendsTo i e.sends } :=
  foldl_push_getElem? _ _ _

theorem mem_sendsTo {i : Nat} {m : SOSPFPacket} {sends : List (Nat × SOSPFPacket)} :
    m ∈ sendsTo i sends ↔ (i, m) ∈ sends := by
  simp [sendsTo]

section total

variable {M : Type*} [AddCancelCommMonoid M] {g : Nat → Connection → M}
  {w : Nat → Connection → SOSPFPacket → M}

/-- What a packet adds to a sum over the connections. -/
def pushed (w : Nat → Connection → SOSPFPacket → M) (conns : List Connection)
    (send : Nat × SOSPFPacket) : M :=
  match conns[send.1]? with
  | some k => w send.1 k send.2
  | none => 0

theorem total_push
    (hg : ∀ c k m, g c { k with toServer := k.toServer ++ [m] } = g c k + w c k m)
    (conns : List Connection) (send : Nat × SOSPFPacket) :
    total g (push conns send) = total g conns + pushed w conns send := by
  unfold push pushed
  cases h : conns[send.1]? with
  | none =>
    rw [List.modify_eq_self (by simpa using h)]
    simp
  | some k =>
    have := total_modify (g := g) h fun k => { k with toServer := k.toServer ++ [send.2] }
    rw [hg, add_comm (g send.1 k), ← add_assoc] at this
    exact add_right_cancel this

end total

/-! ## detect in a network -/

/-- Whatever database a router has come to, `detect` with one of its keys gives
a route exactly when each router that the stored links lead to has an entry.
Otherwise the search dereferences a null. -/
theorem detect_gives_a_route_iff_the_links_can_be_followed (q : PriorityQueue)
    (d : LinkStateDatabase) (destinationIP : String) (hdest : destinationIP ∈ d.store) :
    ((∃ route, d.getShortestPath q destinationIP = .ok route) ↔ d.Followable) ∧
      (¬ d.Followable → d.getShortestPath q destinationIP = .error .nullPointer) := by
  rcases d.getShortestPath_cases q hdest with ⟨hroute, hf⟩ | ⟨hnull, hf⟩
  · exact ⟨⟨fun _ => hf, fun _ => hroute⟩, fun hnot => absurd hf hnot⟩
  · refine ⟨⟨?_, fun hf' => absurd hf' hf⟩, fun _ => hnull⟩
    rintro ⟨route, hroute⟩
    rw [hnull] at hroute
    cases hroute

/-- The routers of `conf/router1.conf`, `conf/router2.conf` and `conf/router3.conf`. -/
def threeRouters : Int16 → Option Configuration := fun p =>
  if p = 3000 then some { ip := "192.168.1.1", processIP := "127.0.0.1" }
  else if p = 4000 then some { ip := "192.168.1.100", processIP := "127.0.0.1" }
  else if p = 5000 then some { ip := "192.168.2.1", processIP := "127.0.0.1" }
  else none

/-- The router at port 3000 attaches the router at port 4000. Its connection
there is 0, and the one back is 1. -/
def attachAct : List Action :=
  [.command 3000 (.attach "127.0.0.1" 4000 "192.168.1.100"), .advance 3000, .deliver 0,
   .read 3000, .advance 3000]

/-- The router at port 3000 starts with its first link. -/
def startAct : List Action :=
  [.command 3000 .start, .advance 3000, .deliver 0, .read 3000, .advance 3000]

/-- What the search at port 3000 meets: the links of the own entry, and
whether the neighbor has an entry. -/
def ownLinks (n : Network) : Option (List LinkDescription × Bool × String) :=
  (n.routers 3000).bind fun r =>
    (r.lsd.getLSA r.lsd.rd.simulatedIPAddress).map fun l =>
      (l.links, (r.lsd.getLSA "192.168.1.100").isSome, r.lsd.rd.simulatedIPAddress)

/-- After `attach` and `start`, the router names a neighbor that it has no
entry for yet, and `detect` with its own address fails. -/
theorem detect_fails_after_start :
    ¬ ∀ (conf : Int16 → Option Configuration) (acts : List Action) (n : Network),
      Run step anyStep (init conf) acts n → ∀ (p : Int16) (r : Router), n.routers p = some r →
      ∀ (q : PriorityQueue) (destinationIP : String), destinationIP ∈ r.lsd.store →
        ∃ route, r.lsd.getShortestPath q destinationIP = .ok route := by
  intro h
  have hend : (exec step anyStep (init threeRouters) (attachAct ++ startAct)).bind ownLinks =
      some ([{ linkID := "192.168.1.100", portNum := 0 }], false, "192.168.1.1") := by decide
  obtain ⟨n, hn, hview⟩ := Option.bind_eq_some_iff.mp hend
  obtain ⟨r, hr, hmap⟩ := Option.bind_eq_some_iff.mp hview
  obtain ⟨l, hl, hv⟩ := Option.map_eq_some_iff.mp hmap
  simp only [Prod.mk.injEq] at hv
  obtain ⟨hlinks, hnone, hown⟩ := hv
  have hdest : r.lsd.rd.simulatedIPAddress ∈ r.lsd.store := by
    rw [← AList.lookup_isSome]
    exact Option.isSome_iff_exists.mpr ⟨l, hl⟩
  obtain ⟨route, hroute⟩ := h _ _ n (run_of_exec hn) 3000 r hr .first _ hdest
  rcases r.lsd.getShortestPath_cases .first hdest with ⟨-, hf⟩ | ⟨hnull, -⟩
  · have hhop : r.lsd.Hops 1 "192.168.1.100" :=
      .link .own ⟨l, hl, { linkID := "192.168.1.100", portNum := 0 }, by simp [hlinks], rfl⟩
    have hmem := hf 1 (by simp [LinkStateDatabase.maxDist]) _ hhop
    rw [← AList.lookup_isSome] at hmem
    exact Bool.noConfusion (hnone.symm.trans hmem)
  · rw [hnull] at hroute
    cases hroute

/-- With an entry for both of two routers, each finds the way to the other. -/
theorem detect_gives_a_route_between_two_routers : ∃ route,
    (LinkStateDatabase.twoRouters [⟨"192.168.1.2", 0⟩]).getShortestPath .first "192.168.1.2" =
      .ok route := by
  have hclosed : (LinkStateDatabase.twoRouters [⟨"192.168.1.2", 0⟩]).Closed :=
    LinkStateDatabase.closed_twoRouters (by simp)
  have hhops : (LinkStateDatabase.twoRouters [⟨"192.168.1.2", 0⟩]).Hops 1 "192.168.1.2" :=
    .link .own ⟨_, rfl, _, List.mem_singleton.mpr rfl, rfl⟩
  rw [(detect_gives_a_route_iff_the_links_can_be_followed .first _ "192.168.1.2"
    (hclosed.mem_of_hops hhops)).1]
  exact fun n _ i hi => hclosed.mem_of_hops hi

end Network
end socs.network
