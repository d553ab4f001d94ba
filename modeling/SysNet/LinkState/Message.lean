-- The data of the routing protocol: the advertisements, the packet that
-- carries them, and what a router keeps about each of its links.
import Mathlib.Data.List.TakeWhile

namespace socs.network

/-! ## Messages -/

/-- One link of an advertisement. -/
structure LinkDescription where
  linkID : String
  portNum : Int32
deriving DecidableEq, Repr

/-- A link state advertisement of the router `linkStateID`. -/
structure LSA where
  linkStateID : String
  lsaSeqNumber : Int32 := Int32.minValue
  links : List LinkDescription := []
deriving DecidableEq, Repr

/-- The message types 0 to 7 of `sospfType`. -/
inductive SospfType
  | HELLO
  | HELLO_ACK
  | HELLO_TWO_WAY
  | LSAUPDATE
  | ATTACH
  | ATTACH_ACK
  | ATTACH_REJECT
  | DISCONNECT
deriving DecidableEq, Repr

/-- A packet. A text that the Java code leaves `null` is empty here. An entry
of `lsaArray` is `none` where the Java vector holds `null`: the handlers add
what `getLSA` gives without a check. -/
structure SOSPFPacket where
  srcProcessIP : String := ""
  srcProcessPort : Int16 := 0
  srcIP : String := ""
  dstIP : String := ""
  sospfType : SospfType := .HELLO
  routerID : String := ""
  neighborID : String := ""
  lsaArray : List (Option LSA) := []
deriving DecidableEq, Repr

/-! ## Links -/

inductive RouterStatus
  | IDLE
  | INIT
  | TWO_WAY
deriving DecidableEq, Repr

/-- The place of a status in the order `IDLE`, `INIT`, `TWO_WAY`. -/
def RouterStatus.rank : RouterStatus → Nat
  | IDLE => 0
  | INIT => 1
  | TWO_WAY => 2

structure RouterDescription where
  processIPAddress : String
  processPortNumber : Int16
  simulatedIPAddress : String
  status : RouterStatus := .IDLE
deriving DecidableEq, Repr

/-- The client socket of a link. `conn` names the connection, and no other
link has it, so it also stands for the identity of the link object. With
`connected` off the socket could not be opened, and `send` throws. -/
structure Client where
  conn : Nat
  connected : Bool
deriving DecidableEq, Repr

structure Link where
  router2 : RouterDescription
  client : Client
deriving DecidableEq, Repr

/-- The packets that a loop of `client.send` gives to the sockets: `send` on
a socket that is not connected throws, and ends the loop. -/
def sent (out : List (Client × SOSPFPacket)) : List (Nat × SOSPFPacket) :=
  (out.takeWhile (·.1.connected)).map fun cm => (cm.1.conn, cm.2)

/-- No `send` of the loop throws. -/
def allSent (out : List (Client × SOSPFPacket)) : Bool := out.all (·.1.connected)

theorem mem_sent {out : List (Client × SOSPFPacket)} {i : Nat} {m : SOSPFPacket}
    (h : (i, m) ∈ sent out) : ∃ c, (c, m) ∈ out ∧ c.conn = i := by
  unfold sent at h
  obtain ⟨⟨c, m'⟩, hmem, he⟩ := List.mem_map.mp h
  simp only [Prod.mk.injEq] at he
  obtain ⟨rfl, rfl⟩ := he
  exact ⟨c, (List.takeWhile_prefix _).subset hmem, rfl⟩

theorem sent_of_allSent {out : List (Client × SOSPFPacket)} (h : allSent out = true) :
    sent out = out.map fun cm => (cm.1.conn, cm.2) := by
  unfold sent
  rw [List.takeWhile_eq_self_iff.mpr (by simpa [allSent] using h)]

end socs.network
