-- The server of a router: `parseMessage`, which a handler thread runs for each
-- packet of its connection, and all that can happen to one router.
import SysNet.LinkState.Router

namespace socs.network
namespace Router

/-! ## HELLO -/

/-- The first link to the sender of the packet. -/
def remoteRD (r : Router) (msg : SOSPFPacket) : Option Link :=
  r.ports.find? (·.router2.simulatedIPAddress = msg.routerID)

def helloACK (r : Router) (msg : SOSPFPacket) : SOSPFPacket :=
  { sospfType := .HELLO_ACK
    dstIP := msg.srcIP
    srcIP := r.ip
    srcProcessIP := r.rd.processIPAddress
    srcProcessPort := r.rd.processPortNumber
    routerID := r.ip
    neighborID := msg.routerID }

/-- Up to the wait for HELLO-TWO-WAY. With no link to the sender, `remoteRD`
is null and the thread dies. -/
def parseHello (r : Router) (msg : SOSPFPacket) : Effect :=
  match r.remoteRD msg with
  | none => { router := r, handler := .dead }
  | some l =>
    { router := r.setStatus l.client.conn .INIT
      reply := some (r.helloACK msg)
      handler := .awaitTwoWay l.client.conn }

/-- The packet after the HELLO-ACK, whatever it is. -/
def parseResponse (r : Router) (remoteRD : Nat) (response : SOSPFPacket) : Effect :=
  { router := { r with
      ports :=
        if response.sospfType = .HELLO_TWO_WAY then (r.setStatus remoteRD .TWO_WAY).ports
        else r.ports } }

/-! ## ATTACH -/

def attachAccept (r : Router) (msg : SOSPFPacket) : SOSPFPacket :=
  { srcProcessIP := r.rd.processIPAddress
    srcProcessPort := r.rd.processPortNumber
    srcIP := r.ip
    dstIP := msg.srcIP
    routerID := r.ip
    neighborID := msg.routerID
    sospfType := .ATTACH_ACK }

/-- This packet leaves `routerID` and `neighborID` null. -/
def attachReject (r : Router) (msg : SOSPFPacket) : SOSPFPacket :=
  { srcProcessIP := r.rd.processIPAddress
    srcProcessPort := r.rd.processPortNumber
    srcIP := r.ip
    dstIP := msg.srcIP
    sospfType := .ATTACH_REJECT }

def parseAttach (r : Router) (client : Client) (msg : SOSPFPacket) : Effect :=
  if r.ports.length < 4 then
    let r2 : RouterDescription :=
      { processIPAddress := msg.srcProcessIP, processPortNumber := msg.srcProcessPort,
        simulatedIPAddress := msg.routerID, status := .IDLE }
    { router := r.addPort { router2 := r2, client }
      opens := some msg.srcProcessPort
      reply := some (r.attachAccept msg) }
  else { router := r, reply := some (r.attachReject msg) }

/-! ## DISCONNECT -/

/-- Removes the first link to the sender. -/
def removeRemote (r : Router) (routerID : String) : Router :=
  { r with
    ports := r.ports.eraseP (·.router2.simulatedIPAddress = routerID)
    modCount :=
      if r.ports.any (·.router2.simulatedIPAddress = routerID) then r.modCount + 1
      else r.modCount }

def parseDisconnect (r : Router) (msg : SOSPFPacket) : Effect :=
  let r1 := (r.removeRemote msg.routerID).updateLSD
  let r2 := { r1 with lsd := r1.lsd.remove msg.routerID }
  let out := r2.broadcastLSA
  { router := r2, sends := sent out, handler := if allSent out then .idle else .dead }

end Router

/-! ## LSAUPDATE -/

/-- The advertisements of an array up to its first null. -/
def beforeNull (lsaArray : List (Option LSA)) : List LSA :=
  (lsaArray.takeWhile Option.isSome).reduceOption

namespace LinkStateDatabase

/-- The database has the advertisement, or one with a larger number. -/
def isStale (d : LinkStateDatabase) (lsa : LSA) : Bool :=
  match d.getLSA lsa.linkStateID with
  | some stored => decide (lsa.lsaSeqNumber ≤ stored.lsaSeqNumber)
  | none => false

/-- The loop over the advertisements of a packet. The packet keeps the objects
that `addLSA` has numbered. -/
def receive : LinkStateDatabase → List LSA → LinkStateDatabase × List LSA
  | d, [] => (d, [])
  | d, lsa :: rest =>
    if d.isStale lsa then
      let got := receive d rest
      (got.1, lsa :: got.2)
    else
      let got := receive (d.addLSA lsa.linkStateID lsa) rest
      (got.1, d.renumber lsa.linkStateID lsa :: got.2)

end LinkStateDatabase

namespace Router

/-- The loop that passes a packet on. Each send writes `routerID`, and the test
against the sender reads it again at the next port. -/
def forward (r : Router) : SOSPFPacket → List Link → List (Client × SOSPFPacket)
  | _, [] => []
  | msg, link :: rest =>
    if link.router2.status ≠ .TWO_WAY then r.forward msg rest
    else if msg.routerID = link.router2.simulatedIPAddress then r.forward msg rest
    else
      let msg := { msg with routerID := r.ip, neighborID := link.router2.simulatedIPAddress }
      (link.client, msg) :: r.forward msg rest

def parseLsaUpdate (r : Router) (msg : SOSPFPacket) : Effect :=
  let got := r.lsd.receive (beforeNull msg.lsaArray)
  let r1 := { r with lsd := got.1 }
  if none ∈ msg.lsaArray then { router := r1, handler := .dead }
  else
    let out := r1.forward { msg with lsaArray := got.2.map some ++ [r1.ownLSA] } r1.ports
    { router := r1, sends := sent out, handler := if allSent out then .idle else .dead }

/-! ## All that can happen to a router -/

def parseMessage (r : Router) (connect : Int16 → Client) (msg : SOSPFPacket) : Effect :=
  match msg.sospfType with
  | .HELLO => r.parseHello msg
  | .ATTACH => r.parseAttach (connect msg.srcProcessPort) msg
  | .DISCONNECT => r.parseDisconnect msg
  | .LSAUPDATE => r.parseLsaUpdate msg
  | _ => { router := r }

/-- One step of a thread of the router: the terminal takes a command, goes on
or reads an answer, or a handler takes a packet. -/
inductive Event
  | command (c : Command)
  | advance (connect : Int16 → Client)
  | read (response : Option SOSPFPacket)
  | handle (connect : Int16 → Client) (msg : SOSPFPacket)
  | respond (remoteRD : Nat) (response : SOSPFPacket)

def react (r : Router) : Event → Option Effect
  | .command c => if r.terminal = .ready then some (r.command c) else none
  | .advance connect => r.advance connect
  | .read response => r.read response
  | .handle connect msg =>
    if r.terminal = .exited then none else some (r.parseMessage connect msg)
  | .respond remoteRD response =>
    if r.terminal = .exited then none else some (r.parseResponse remoteRD response)

def step (r : Router) (e : Event) : Option Router := (r.react e).map Effect.router

/-! ## What one event does -/

/-- The cases of `react`, each with the guards that lead to it. Every law of
the router goes through them. -/
inductive Did (r : Router) : Event → Effect → Prop
  /-- A command that prints, fails or sets the terminal to work. -/
  | typed {c : Command} {t : Terminal} : r.terminal = .ready →
      t = .ready ∨ t = .ended ∨ t = .starting 0 r.modCount →
      Did r (.command c) { router := { r with terminal := t } }
  | attach {a s : String} {p : Int16} : r.terminal = .ready → r.ports.length < 4 →
      Did r (.command (.attach a p s)) { router := { r with terminal := .attaching a p s } }
  | disconnect {n : Int16} {link : Link} {r1 : Router} {out : List (Client × SOSPFPacket)} :
      r.terminal = .ready → r.port n = some link → link.client.connected = true →
      r1 = (r.withoutPort n).updateLSD → out = r1.broadcastLSA →
      Did r (.command (.disconnect n))
        { router := r1.finish out, sends := (link.client.conn, r.disconnect link) :: sent out }
  | quit {out : List (Client × SOSPFPacket)} : r.terminal = .ready →
      out = r.ports.map (fun link => (link.client, r.disconnect link)) → allSent out = true →
      Did r (.command .quit)
        { router := { r with ports := [], modCount := r.modCount + 1, terminal := .exited }
          sends := sent out }
  | quitFails {out : List (Client × SOSPFPacket)} : r.terminal = .ready →
      out = r.ports.map (fun link => (link.client, r.disconnect link)) → allSent out = false →
      Did r (.command .quit) { router := { r with terminal := .ended }, sends := sent out }
  | attachSend {connect : Int16 → Client} {a s : String} {p : Int16} :
      r.terminal = .attaching a p s → Did r (.advance connect) (r.attachSend (connect p) a p s)
  | attachInsert {connect : Int16 → Client} {link : Link} : r.terminal = .attachAccepted link →
      Did r (.advance connect) { router := r.attachInsert link }
  | startSkip {connect : Int16 → Client} {i m : Nat} {t : Terminal} :
      r.terminal = .starting i m → t = .ended ∨ t = .starting (i + 1) m →
      Did r (.advance connect) { router := { r with terminal := t } }
  | startHello {connect : Int16 → Client} {i m : Nat} {l : Link} : r.terminal = .starting i m →
      r.ports[i]? = some l → l.router2.status ≠ .TWO_WAY → l.client.connected = true →
      Did r (.advance connect)
        { router := { r with terminal := .helloSent (i + 1) m l }
          sends := [(l.client.conn, r.hello l)] }
  | startEnd {connect : Int16 → Client} {m : Nat} : r.terminal = .starting r.ports.length m →
      Did r (.advance connect) r.startEnd
  | attachReply {link : Link} {response : Option SOSPFPacket} : r.terminal = .attachSent link →
      Did r (.read response) { router := r.attachReply link response }
  | helloReply {i m : Nat} {l : Link} {response : Option SOSPFPacket} :
      r.terminal = .helloSent i m l → Did r (.read response) (r.helloReply i m l response)
  | hello {connect : Int16 → Client} {msg : SOSPFPacket} : r.terminal ≠ .exited →
      msg.sospfType = .HELLO → Did r (.handle connect msg) (r.parseHello msg)
  | respond {c : Nat} {msg : SOSPFPacket} : r.terminal ≠ .exited →
      Did r (.respond c msg) (r.parseResponse c msg)
  | attached {connect : Int16 → Client} {msg : SOSPFPacket} : r.terminal ≠ .exited →
      msg.sospfType = .ATTACH →
      Did r (.handle connect msg) (r.parseAttach (connect msg.srcProcessPort) msg)
  | disconnected {connect : Int16 → Client} {msg : SOSPFPacket} : r.terminal ≠ .exited →
      msg.sospfType = .DISCONNECT → Did r (.handle connect msg) (r.parseDisconnect msg)
  | lsaUpdate {connect : Int16 → Client} {msg : SOSPFPacket} : r.terminal ≠ .exited →
      msg.sospfType = .LSAUPDATE → Did r (.handle connect msg) (r.parseLsaUpdate msg)
  | ignored {connect : Int16 → Client} {msg : SOSPFPacket} : r.terminal ≠ .exited →
      msg.sospfType ≠ .HELLO → msg.sospfType ≠ .ATTACH → msg.sospfType ≠ .DISCONNECT →
      msg.sospfType ≠ .LSAUPDATE → Did r (.handle connect msg) { router := r }

theorem did_command {r : Router} (c : Command) (h : r.terminal = .ready) :
    Did r (.command c) (r.command c) := by
  have hprint : ∀ {α : Type} (o : Option α), ∃ t : Terminal, r.afterPrint o = { r with terminal := t } ∧
      (t = .ready ∨ t = .ended ∨ t = .starting 0 r.modCount) := by
    intro α o
    cases o with
    | none => exact ⟨.ended, rfl, by simp⟩
    | some a => exact ⟨.ready, by rw [← h]; rfl, by simp⟩
  cases c with
  | detect destinationIP =>
    obtain ⟨t, ht, hcase⟩ := hprint (r.processDetect destinationIP)
    simp only [command, ht]
    exact .typed h hcase
  | neighbors =>
    obtain ⟨t, ht, hcase⟩ := hprint r.processNeighbors
    simp only [command, ht]
    exact .typed h hcase
  | printLSD =>
    have : Did r (.command .printLSD) { router := { r with terminal := r.terminal } } :=
      .typed h (Or.inl h)
    exact this
  | invalid => exact .typed h (Or.inr (Or.inl rfl))
  | start => exact .typed h (Or.inr (Or.inr rfl))
  | attach a p s =>
    simp only [command, processAttach]
    split
    · have : Did r (.command (.attach a p s)) { router := { r with terminal := r.terminal } } :=
        .typed h (Or.inl h)
      exact this
    · exact .attach h (by omega)
  | quit =>
    simp only [command, processQuit]
    split
    · rename_i hall
      exact .quit h rfl hall
    · rename_i hall
      exact .quitFails h rfl (by simpa using hall)
  | disconnect n =>
    simp only [command, processDisconnect]
    split
    · exact .typed h (Or.inr (Or.inl rfl))
    · rename_i link hport
      split
      · rename_i hc
        exact .disconnect h hport hc rfl rfl
      · exact .typed h (Or.inr (Or.inl rfl))

theorem did_startNext {r : Router} {i m : Nat} (connect : Int16 → Client)
    (h : r.terminal = .starting i m) : Did r (.advance connect) (r.startNext i m) := by
  unfold startNext
  split
  · rename_i hi
    subst hi
    exact .startEnd h
  · split
    · exact .startSkip h (Or.inl rfl)
    · split
      · exact .startSkip h (Or.inl rfl)
      · rename_i l hl
        split
        · exact .startSkip h (Or.inr rfl)
        · rename_i hne
          split
          · rename_i hc
            exact .startHello h hl hne hc
          · exact .startSkip h (Or.inl rfl)

/-- An event does one of the things that `Did` lists. -/
theorem react_did {r : Router} {ev : Event} {e : Effect} (h : r.react ev = some e) :
    Did r ev e := by
  cases ev with
  | command c =>
    simp only [react] at h
    split at h
    · rename_i hready
      cases h
      exact did_command c hready
    · cases h
  | advance connect =>
    simp only [react, advance] at h
    split at h
    · rename_i ht
      cases h
      exact .attachSend ht
    · rename_i ht
      cases h
      exact .attachInsert ht
    · rename_i ht
      cases h
      exact did_startNext connect ht
    · cases h
  | read response =>
    simp only [react, read] at h
    split at h
    · rename_i ht
      cases h
      exact .attachReply ht
    · rename_i ht
      cases h
      exact .helloReply ht
    · cases h
  | respond c msg =>
    simp only [react] at h
    split at h
    · cases h
    · rename_i hx
      cases h
      exact .respond hx
  | handle connect msg =>
    simp only [react] at h
    split at h
    · cases h
    · rename_i hx
      cases h
      cases ht : msg.sospfType <;> simp only [parseMessage, ht]
      · exact .hello hx ht
      · exact .ignored hx (by simp [ht]) (by simp [ht]) (by simp [ht]) (by simp [ht])
      · exact .ignored hx (by simp [ht]) (by simp [ht]) (by simp [ht]) (by simp [ht])
      · exact .lsaUpdate hx ht
      · exact .attached hx ht
      · exact .ignored hx (by simp [ht]) (by simp [ht]) (by simp [ht]) (by simp [ht])
      · exact .ignored hx (by simp [ht]) (by simp [ht]) (by simp [ht]) (by simp [ht])
      · exact .disconnected hx ht

end Router
end socs.network
