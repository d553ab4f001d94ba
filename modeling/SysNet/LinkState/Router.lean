-- A router and its terminal. A command runs up to its next wait on the
-- network, so `attach` and `start` go in several steps, and the packets that
-- arrive meanwhile find the router as the command left it.
import SysNet.LinkState.ShortestPath

namespace socs.network

/-! ## The state of a router -/

/-- Where the terminal thread stands. `starting` and `helloSent` hold the
iterator of the loop of `processStart` over `ports`. -/
inductive Terminal
  | ready
  /-- `attach` has checked the ports, and sends next. -/
  | attaching (processIP : String) (processPort : Int16) (simulatedIP : String)
  /-- `attach` waits for the answer. -/
  | attachSent (link : Link)
  /-- `attach` has its answer, and inserts the link next. -/
  | attachAccepted (link : Link)
  /-- `start` is at the head of its loop. -/
  | starting (cursor expectedModCount : Nat)
  /-- `start` waits for the answer to a HELLO. -/
  | helloSent (cursor expectedModCount : Nat) (l : Link)
  /-- An exception or a wrong command ended the terminal. The server goes on. -/
  | ended
  /-- `quit` ended the process. -/
  | exited
deriving DecidableEq

/-- `modCount` is the counter of `ArrayList` that its iterators check. -/
structure Router where
  rd : RouterDescription
  lsd : LinkStateDatabase
  ports : List Link
  modCount : Nat
  terminal : Terminal

/-- What the handler thread of a connection waits for. `awaitTwoWay` holds the
description that the handler of a HELLO sets next. -/
inductive Handler
  | idle
  | awaitTwoWay (remoteRD : Nat)
  | dead
deriving DecidableEq

/-- What a thread does between two waits: the router after it, the packets
that it gives to the sockets of its links, the port that it opens a connection
to, and, for a handler thread, its answer and its next state. -/
structure Effect where
  router : Router
  sends : List (Nat × SOSPFPacket) := []
  opens : Option Int16 := none
  reply : Option SOSPFPacket := none
  handler : Handler := .idle

/-- The commands of the terminal. -/
inductive Command
  | detect (destinationIP : String)
  | disconnect (portNumber : Int16)
  | quit
  | attach (processIP : String) (processPort : Int16) (simulatedIP : String)
  | start
  | neighbors
  | printLSD
  /-- Any other line. -/
  | invalid
deriving DecidableEq

namespace Router

def new (rd : RouterDescription) : Router :=
  { rd, lsd := .new rd, ports := [], modCount := 0, terminal := .ready }

def ip (r : Router) : String := r.rd.simulatedIPAddress

/-- The advertisement that the router stores for itself. -/
def ownLSA (r : Router) : Option LSA := r.lsd.getLSA r.ip

/-! ## Ports -/

def addPort (r : Router) (link : Link) : Router :=
  { r with ports := r.ports ++ [link], modCount := r.modCount + 1 }

/-- Writes the status of the description of one link. -/
def setStatus (r : Router) (conn : Nat) (status : RouterStatus) : Router :=
  { r with
    ports := r.ports.map fun l =>
      if l.client.conn = conn then { l with router2 := { l.router2 with status } } else l }

/-! ## The own advertisement -/

/-- The loop that `processDisconnect`, `processStart`, `processConnect` and the
handler of DISCONNECT share: one link for each port, whatever its status. -/
def buildLSA (r : Router) : LSA :=
  { linkStateID := r.ip
    links := r.ports.mapIdx fun i l =>
      { linkID := l.router2.simulatedIPAddress, portNum := Int32.ofNat i } }

/-- Builds the own advertisement again and stores it. -/
def updateLSD (r : Router) : Router := { r with lsd := r.lsd.addLSA r.ip r.buildLSA }

def lsaUpdate (r : Router) (l : Link) : SOSPFPacket :=
  { srcProcessIP := r.rd.processIPAddress
    srcProcessPort := r.rd.processPortNumber
    srcIP := r.ip
    dstIP := l.router2.simulatedIPAddress
    sospfType := .LSAUPDATE
    routerID := r.ip
    neighborID := l.router2.simulatedIPAddress
    lsaArray := [r.ownLSA] }

def broadcastLSA (r : Router) : List (Client × SOSPFPacket) :=
  (r.ports.filter (·.router2.status = .TWO_WAY)).map fun l => (l.client, r.lsaUpdate l)

/-- The terminal goes back to its prompt, or an exception of the last sends
ends it. -/
def finish (r : Router) (out : List (Client × SOSPFPacket)) : Router :=
  { r with terminal := if allSent out then .ready else .ended }

/-! ## attach -/

def processAttach (r : Router) (processIP : String) (processPort : Int16) (simulatedIP : String) :
    Router :=
  if r.ports.length ≥ 4 then r
  else { r with terminal := .attaching processIP processPort simulatedIP }

def attachRequest (r : Router) (simulatedIP : String) : SOSPFPacket :=
  { srcProcessIP := r.rd.processIPAddress
    srcProcessPort := r.rd.processPortNumber
    srcIP := r.ip
    dstIP := simulatedIP
    sospfType := .ATTACH
    routerID := r.ip
    neighborID := simulatedIP }

/-- The link is made, and the request goes out on it. A socket that could not
be opened has no stream to write to. -/
def attachSend (r : Router) (client : Client) (processIP : String) (processPort : Int16)
    (simulatedIP : String) : Effect :=
  let r2 : RouterDescription :=
    { processIPAddress := processIP, processPortNumber := processPort,
      simulatedIPAddress := simulatedIP, status := .IDLE }
  let link : Link := { router2 := r2, client }
  { router := { r with terminal := if client.connected then .attachSent link else .ended }
    sends := if client.connected then [(client.conn, r.attachRequest simulatedIP)] else []
    opens := some processPort }

/-- What the answer to the request leads to; `none` when the stream ended. -/
def attachAnswer (link : Link) : Option SOSPFPacket → Terminal
  | none => .ended
  | some attachResponse =>
    if attachResponse.sospfType = .ATTACH_ACK ∧
        attachResponse.routerID = link.router2.simulatedIPAddress then
      .attachAccepted link
    else .ready

def attachReply (r : Router) (link : Link) (response : Option SOSPFPacket) : Router :=
  { r with terminal := attachAnswer link response }

def attachInsert (r : Router) (link : Link) : Router :=
  { r.addPort link with terminal := .ready }

/-! ## start -/

def hello (r : Router) (l : Link) : SOSPFPacket :=
  { srcProcessIP := r.rd.processIPAddress
    srcProcessPort := r.rd.processPortNumber
    srcIP := r.ip
    dstIP := l.router2.simulatedIPAddress
    sospfType := .HELLO
    routerID := r.ip
    neighborID := l.router2.simulatedIPAddress }

def helloTwoWay (r : Router) (attachACK : SOSPFPacket) : SOSPFPacket :=
  { sospfType := .HELLO_TWO_WAY
    dstIP := attachACK.srcIP
    srcIP := r.ip
    srcProcessIP := r.rd.processIPAddress
    srcProcessPort := r.rd.processPortNumber
    routerID := r.ip
    neighborID := attachACK.routerID }

/-- The end of `processStart`: the advertisement is built, stored and sent. -/
def startEnd (r : Router) : Effect :=
  let r1 := r.updateLSD
  let out := r1.broadcastLSA
  { router := r1.finish out, sends := sent out }

/-- One turn of the loop of `processStart`, up to its wait. The iterator
throws when `ports` has changed since it was made. -/
def startNext (r : Router) (cursor expectedModCount : Nat) : Effect :=
  if cursor = r.ports.length then r.startEnd
  else if r.modCount ≠ expectedModCount then { router := { r with terminal := .ended } }
  else
    match r.ports[cursor]? with
    | none => { router := { r with terminal := .ended } }
    | some l =>
      if l.router2.status = .TWO_WAY then
        { router := { r with terminal := .starting (cursor + 1) expectedModCount } }
      else if l.client.connected then
        { router := { r with terminal := .helloSent (cursor + 1) expectedModCount l }
          sends := [(l.client.conn, r.hello l)] }
      else { router := { r with terminal := .ended } }

/-- The answer to a HELLO; `none` when the stream ended. -/
def helloReply (r : Router) (cursor expectedModCount : Nat) (l : Link) :
    Option SOSPFPacket → Effect
  | none => { router := { r with terminal := .ended } }
  | some attachACK =>
    { router := { r with
        ports :=
          if attachACK.sospfType = .HELLO_ACK then (r.setStatus l.client.conn .TWO_WAY).ports
          else r.ports
        terminal := .starting cursor expectedModCount }
      sends := [(l.client.conn, r.helloTwoWay attachACK)] }

/-! ## disconnect and quit -/

def disconnect (r : Router) (link : Link) : SOSPFPacket :=
  { srcProcessIP := r.rd.processIPAddress
    srcProcessPort := r.rd.processPortNumber
    srcIP := r.ip
    dstIP := link.router2.simulatedIPAddress
    sospfType := .DISCONNECT
    routerID := r.ip
    neighborID := link.router2.simulatedIPAddress }

/-- `ports.get(portNumber)`, with no element for a negative number. -/
def port (r : Router) (portNumber : Int16) : Option Link :=
  if portNumber < 0 then none else r.ports[portNumber.toInt.toNat]?

/-- `ports.remove(portNumber)`. -/
def withoutPort (r : Router) (portNumber : Int16) : Router :=
  { r with ports := r.ports.eraseIdx portNumber.toInt.toNat, modCount := r.modCount + 1 }

def processDisconnect (r : Router) (portNumber : Int16) : Effect :=
  match r.port portNumber with
  | none => { router := { r with terminal := .ended } }
  | some link =>
    if link.client.connected then
      let r1 := (r.withoutPort portNumber).updateLSD
      let out := r1.broadcastLSA
      { router := r1.finish out, sends := (link.client.conn, r.disconnect link) :: sent out }
    else { router := { r with terminal := .ended } }

def processQuit (r : Router) : Effect :=
  let out := r.ports.map fun link => (link.client, r.disconnect link)
  if allSent out then
    { router := { r with ports := [], modCount := r.modCount + 1, terminal := .exited }
      sends := sent out }
  else { router := { r with terminal := .ended }, sends := sent out }

/-! ## detect and neighbors -/

/-- `none` when the search throws. Which of the least pairs the queue gives
first does not matter for that, so any queue does here. -/
def processDetect (r : Router) (destinationIP : String) : Option String :=
  match r.lsd.getShortestPath .first destinationIP with
  | .ok path => some path
  | .error _ => none

/-- The lines printed; `none` when the own entry is missing. -/
def processNeighbors (r : Router) : Option (List String) :=
  r.ownLSA.map fun localLSA => localLSA.links.mapIdx fun i ld =>
    "Neighbor " ++ toString (i + 1) ++ ": " ++ ld.linkID

/-! ## The terminal -/

/-- A command that only prints: an exception ends the terminal. -/
def afterPrint {α : Type} (r : Router) : Option α → Router
  | some _ => r
  | none => { r with terminal := .ended }

/-- A line typed at the prompt. -/
def command (r : Router) : Command → Effect
  | .detect destinationIP => { router := r.afterPrint (r.processDetect destinationIP) }
  | .disconnect portNumber => r.processDisconnect portNumber
  | .quit => r.processQuit
  | .attach processIP processPort simulatedIP =>
    { router := r.processAttach processIP processPort simulatedIP }
  | .start => { router := { r with terminal := .starting 0 r.modCount } }
  | .neighbors => { router := r.afterPrint r.processNeighbors }
  | .printLSD => { router := r }
  | .invalid => { router := { r with terminal := .ended } }

/-- The terminal thread goes on without a wait. `connect` opens a connection
to a process port. -/
def advance (r : Router) (connect : Int16 → Client) : Option Effect :=
  match r.terminal with
  | .attaching processIP processPort simulatedIP =>
    some (r.attachSend (connect processPort) processIP processPort simulatedIP)
  | .attachAccepted link => some { router := r.attachInsert link }
  | .starting cursor expectedModCount => some (r.startNext cursor expectedModCount)
  | _ => none

/-- The link whose answer the terminal thread waits for. -/
def waitsOn (r : Router) : Option Link :=
  match r.terminal with
  | .attachSent link => some link
  | .helloSent _ _ l => some l
  | _ => none

/-- The terminal thread reads the answer that it waited for. -/
def read (r : Router) (response : Option SOSPFPacket) : Option Effect :=
  match r.terminal with
  | .attachSent link => some { router := r.attachReply link response }
  | .helloSent cursor expectedModCount l =>
    some (r.helloReply cursor expectedModCount l response)
  | _ => none

end Router
end socs.network
