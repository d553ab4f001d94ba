-- The link state database of a router: one advertisement for each router that
-- it knows. `addLSA` numbers an advertisement that takes the place of another.
import Mathlib.Data.List.AList
import SysNet.LinkState.Message

namespace socs.network

/-- The database. `rd` describes the router that owns it. -/
structure LinkStateDatabase where
  rd : RouterDescription
  store : AList (fun _ : String => LSA)

namespace LinkStateDatabase

def initLinkStateDatabase (rd : RouterDescription) : LSA :=
  { linkStateID := rd.simulatedIPAddress
    lsaSeqNumber := Int32.minValue
    links := [{ linkID := rd.simulatedIPAddress, portNum := -1 }] }

/-- The constructor. -/
def new (rd : RouterDescription) : LinkStateDatabase :=
  let l := initLinkStateDatabase rd
  { rd, store := AList.insert l.linkStateID l ∅ }

def getLSA (d : LinkStateDatabase) (routerID : String) : Option LSA := d.store.lookup routerID

/-- The advertisement as `addLSA` leaves it: with an entry already there, its
number becomes the number of the entry plus 1, as a 32-bit `int`. -/
def renumber (d : LinkStateDatabase) (routerID : String) (lsa : LSA) : LSA :=
  match d.getLSA routerID with
  | some stored => { lsa with lsaSeqNumber := stored.lsaSeqNumber + 1 }
  | none => lsa

def addLSA (d : LinkStateDatabase) (routerID : String) (lsa : LSA) : LinkStateDatabase :=
  { d with store := d.store.insert routerID (d.renumber routerID lsa) }

/-- `_store.remove`. -/
def remove (d : LinkStateDatabase) (routerID : String) : LinkStateDatabase :=
  { d with store := d.store.erase routerID }

/-! ## What each operation does to an entry -/

@[simp] theorem getLSA_new (rd : RouterDescription) (i : String) :
    (new rd).getLSA i =
      if i = rd.simulatedIPAddress then some (initLinkStateDatabase rd) else none := by
  unfold new getLSA
  split
  · rename_i h
    subst h
    exact AList.lookup_insert _
  · rename_i h
    exact AList.lookup_insert_ne h

@[simp] theorem getLSA_addLSA_self (d : LinkStateDatabase) (i : String) (l : LSA) :
    (d.addLSA i l).getLSA i = some (d.renumber i l) := AList.lookup_insert _

theorem getLSA_addLSA_ne (d : LinkStateDatabase) {i j : String} (l : LSA) (h : j ≠ i) :
    (d.addLSA i l).getLSA j = d.getLSA j := AList.lookup_insert_ne h

@[simp] theorem getLSA_remove_self (d : LinkStateDatabase) (i : String) :
    (d.remove i).getLSA i = none := AList.lookup_erase _ _

theorem getLSA_remove_ne (d : LinkStateDatabase) {i j : String} (h : j ≠ i) :
    (d.remove i).getLSA j = d.getLSA j := AList.lookup_erase_ne h

@[simp] theorem renumber_links (d : LinkStateDatabase) (i : String) (l : LSA) :
    (d.renumber i l).links = l.links := by
  unfold renumber; split <;> rfl

@[simp] theorem renumber_linkStateID (d : LinkStateDatabase) (i : String) (l : LSA) :
    (d.renumber i l).linkStateID = l.linkStateID := by
  unfold renumber; split <;> rfl

end LinkStateDatabase

/-! ## Numbers -/

/-- A number below another one has room for one more. -/
theorem toInt_succ_of_lt {a b : Int32} (h : a < b) : (a + 1).toInt = a.toInt + 1 := by
  rw [Int32.lt_iff_toInt_lt] at h
  have hb := b.toInt_lt
  have ha := a.le_toInt
  rw [Int32.toInt_add]
  simp only [Int32.toInt_one]
  rw [Int.bmod_eq_of_le] <;> omega

theorem succ_le_of_lt {a b : Int32} (h : a < b) : a + 1 ≤ b := by
  rw [Int32.le_iff_toInt_le, toInt_succ_of_lt h]
  rw [Int32.lt_iff_toInt_lt] at h
  omega

end socs.network
