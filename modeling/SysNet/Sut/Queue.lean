-- The queues of the scheduler (queue.c). Every queue is a list between null
-- pointers, so the null pointer closes it to a ring, with `head` and `tail`
-- as its neighbors.
import SysNet.Lib.Rings
import SysNet.Lib.Runs

open rings runs

namespace sut.queues

/-! ## The code -/

structure QueueEntry where
  data : Nat
  next : Option Nat
  prev : Option Nat
deriving DecidableEq, Repr

structure Queue where
  head : Option Nat
  tail : Option Nat
deriving DecidableEq, Repr

/-- The memory: the entries and the queues at their addresses. `NULL` is `none`. -/
structure Heap where
  entry : Nat → QueueEntry
  queue : Nat → Queue

def Heap.setNext (h : Heap) (n : Nat) (p : Option Nat) : Heap :=
  { h with entry := Function.update h.entry n { h.entry n with next := p } }

def Heap.setPrev (h : Heap) (n : Nat) (p : Option Nat) : Heap :=
  { h with entry := Function.update h.entry n { h.entry n with prev := p } }

def Heap.setHead (h : Heap) (q : Nat) (p : Option Nat) : Heap :=
  { h with queue := Function.update h.queue q { h.queue q with head := p } }

def Heap.setTail (h : Heap) (q : Nat) (p : Option Nat) : Heap :=
  { h with queue := Function.update h.queue q { h.queue q with tail := p } }

def queue_create : Queue := { head := none, tail := none }

def queue_init (h : Heap) : Option Nat → Heap
  | none => h
  | some q => (h.setHead q none).setTail q none

/-- `malloc` gave the address, or `NULL`. -/
def queue_new_node (h : Heap) (node : Option Nat) (data : Nat) : Heap :=
  match node with
  | none => h
  | some n => { h with entry := Function.update h.entry n { data, next := none, prev := none } }

def queue_insert_tail (h : Heap) : Option Nat → Option Nat → Heap
  | some q, some n =>
    let h := h.setNext n none
    let h := h.setPrev n (h.queue q).tail
    match (h.queue q).tail with
    | none => (h.setHead q (some n)).setTail q (some n)
    | some t => (h.setNext t (some n)).setTail q (some n)
  | _, _ => h

def queue_peek_front (h : Heap) : Option Nat → Option Nat
  | none => none
  | some q => (h.queue q).head

def queue_pop_head (h : Heap) : Option Nat → Heap
  | none => h
  | some q =>
    match (h.queue q).head with
    | none => h
    | some old =>
      let h := h.setHead q (h.entry old).next
      match (h.queue q).head with
      | none => h.setTail q none
      | some n => h.setPrev n none

/-! ## Lists -/

/-- The pointers of the queue and of its nodes are those of the list. -/
structure Represents (h : Heap) (q : Nat) (l : List Nat) : Prop where
  head : (h.queue q).head = l.head?
  tail : (h.queue q).tail = l.getLast?
  next : ∀ i (hi : i < l.length), (h.entry l[i]).next = l[i + 1]?
  prev : ∀ i (hi : i < l.length), (h.entry l[i]).prev = if i = 0 then none else l[i - 1]?
  nodup : l.Nodup

/-- The next pointers, with the head of the queue behind the null pointer. -/
def Heap.next (h : Heap) (q : Nat) : Option Nat → Option Nat
  | none => (h.queue q).head
  | some n => (h.entry n).next

def Heap.prev (h : Heap) (q : Nat) : Option Nat → Option Nat
  | none => (h.queue q).tail
  | some n => (h.entry n).prev

/-- The queue as a ring through the null pointer. -/
def Heap.Holds (h : Heap) (q : Nat) (l : List Nat) : Prop :=
  Ring (h.next q) (h.prev q) none (l.map some)

variable {h h' : Heap} {q q' n : Nat} {l m : List Nat}

theorem Heap.Holds.represents (hold : h.Holds q l) : Represents h q l := by
  have hat : ∀ i (hi : i < l.length), (h.entry l[i]).next = l[i + 1]? ∧
      (h.entry l[i]).prev = if i = 0 then none else l[i - 1]? := by
    intro i hi
    have hi' : i < (l.map some).length := by rwa [List.length_map]
    obtain ⟨hnext, hprev⟩ := hold.seg.at hi'
    rw [List.getElem_map] at hnext hprev
    constructor
    · change (h.entry l[i]).next = _ at hnext
      rw [hnext, List.getElem?_map]
      cases l[i + 1]? <;> rfl
    · change (h.entry l[i]).prev = _ at hprev
      rw [hprev]
      cases i with
      | zero => rfl
      | succ i =>
        rw [List.getElem?_cons_succ, List.getElem?_map, if_neg (Nat.succ_ne_zero i), Nat.add_sub_cancel]
        cases l[i]? <;> rfl
  refine ⟨?_, ?_, ?_, ?_, ?_⟩
  · have hhead := hold.next_self
    change (h.queue q).head = _ at hhead
    rw [hhead]
    cases l <;> rfl
  · have htail := hold.prev_self
    change (h.queue q).tail = _ at htail
    rw [htail, List.getLastD_eq_getLast?, List.getLast?_map]
    cases l.getLast? <;> rfl
  · exact fun i hi => (hat i hi).1
  · exact fun i hi => (hat i hi).2
  · exact (List.nodup_cons.mp hold.nodup).2.of_map some

/-- A queue and its nodes stay as they are. -/
theorem Heap.Holds.congr (hold : h.Holds q l) (hq : h'.queue q = h.queue q)
    (hn : ∀ n ∈ l, h'.entry n = h.entry n) : h'.Holds q l := by
  apply Ring.congr hold
  · rintro (_ | n) hmem
    · change (h'.queue q).head = (h.queue q).head
      rw [hq]
    · change (h'.entry n).next = (h.entry n).next
      rw [hn n (by simpa using hmem)]
  · rintro (_ | n) hmem
    · change (h'.queue q).tail = (h.queue q).tail
      rw [hq]
    · change (h'.entry n).prev = (h.entry n).prev
      rw [hn n (by simpa using hmem)]

/-! ## What an assignment does to the ring -/

section

variable {p : Option Nat}

theorem next_setNext : (h.setNext n p).next q = Function.update (h.next q) (some n) p := by
  funext r
  rcases r with _ | r
  · rfl
  · by_cases hr : r = n
    · subst hr
      simp [Heap.next, Heap.setNext]
    · simp [Heap.next, Heap.setNext, hr]

theorem prev_setNext : (h.setNext n p).prev q = h.prev q := by
  funext r
  rcases r with _ | r
  · rfl
  · by_cases hr : r = n
    · subst hr
      simp [Heap.prev, Heap.setNext]
    · simp [Heap.prev, Heap.setNext, hr]

theorem prev_setPrev : (h.setPrev n p).prev q = Function.update (h.prev q) (some n) p := by
  funext r
  rcases r with _ | r
  · rfl
  · by_cases hr : r = n
    · subst hr
      simp [Heap.prev, Heap.setPrev]
    · simp [Heap.prev, Heap.setPrev, hr]

theorem next_setPrev : (h.setPrev n p).next q = h.next q := by
  funext r
  rcases r with _ | r
  · rfl
  · by_cases hr : r = n
    · subst hr
      simp [Heap.next, Heap.setPrev]
    · simp [Heap.next, Heap.setPrev, hr]

theorem next_setHead : (h.setHead q p).next q = Function.update (h.next q) none p := by
  funext r
  rcases r with _ | r
  · simp [Heap.next, Heap.setHead]
  · rfl

theorem prev_setHead : (h.setHead q p).prev q = h.prev q := by
  funext r
  rcases r with _ | r
  · simp [Heap.prev, Heap.setHead]
  · rfl

theorem prev_setTail : (h.setTail q p).prev q = Function.update (h.prev q) none p := by
  funext r
  rcases r with _ | r
  · simp [Heap.prev, Heap.setTail]
  · rfl

theorem next_setTail : (h.setTail q p).next q = h.next q := by
  funext r
  rcases r with _ | r
  · simp [Heap.next, Heap.setTail]
  · rfl

/-- An assignment to a pointer leaves the data alone. -/
theorem data_setNext : ((h.setNext n p).entry q).data = (h.entry q).data := by
  by_cases hq : q = n
  · subst hq
    simp [Heap.setNext]
  · simp [Heap.setNext, hq]

theorem data_setPrev : ((h.setPrev n p).entry q).data = (h.entry q).data := by
  by_cases hq : q = n
  · subst hq
    simp [Heap.setPrev]
  · simp [Heap.setPrev, hq]

end

/-! ## The operations -/

theorem holds_empty (hq : h.queue q = queue_create) : h.Holds q [] := by
  apply ring_nil
  · change (h.queue q).head = none
    rw [hq]
    rfl
  · change (h.queue q).tail = none
    rw [hq]
    rfl

theorem queue_init_queue : (queue_init h (some q)).queue = Function.update h.queue q queue_create := by
  funext r
  by_cases hr : r = q
  · subst hr
    simp [queue_init, Heap.setHead, Heap.setTail, queue_create]
  · simp [queue_init, Heap.setHead, Heap.setTail, hr]

/-- The queue and the entries that `queue_insert_tail` writes to. -/
theorem insert_others (hn : q' ≠ n) (ht : some q' ≠ (h.queue q).tail) :
    (queue_insert_tail h (some q) (some n)).entry q' = h.entry q' := by
  unfold queue_insert_tail
  simp only
  split
  · simp [Heap.setNext, Heap.setPrev, Heap.setHead, Heap.setTail, hn]
  · rename_i t htail
    change (h.queue q).tail = some t at htail
    have hne : q' ≠ t := by
      rintro rfl
      exact ht htail.symm
    simp [Heap.setNext, Heap.setPrev, Heap.setTail, hn, hne]

theorem insert_queue (hq : q' ≠ q) :
    (queue_insert_tail h (some q) (some n)).queue q' = h.queue q' := by
  unfold queue_insert_tail
  simp only
  split <;> simp [Heap.setNext, Heap.setPrev, Heap.setHead, Heap.setTail, hq]

theorem insert_data : ((queue_insert_tail h (some q) (some n)).entry q').data = (h.entry q').data := by
  unfold queue_insert_tail
  simp only
  split
  · change (((h.setNext n none).setPrev n _).entry q').data = _
    rw [data_setPrev, data_setNext]
  · rename_i t _
    change ((((h.setNext n none).setPrev n _).setNext t (some n)).entry q').data = _
    rw [data_setNext, data_setPrev, data_setNext]

/-- A node that is in no queue comes behind the last one. -/
theorem Heap.Holds.insert (hold : h.Holds q l) (hn : n ∉ l) :
    (queue_insert_tail h (some q) (some n)).Holds q (l ++ [n]) := by
  have hx : some n ∉ none :: l.map some := by simpa using hn
  have hring := Ring.insertBack hold hx
  rw [← List.map_singleton, ← List.map_append] at hring
  have htail : h.prev q none = (h.queue q).tail := rfl
  unfold Heap.Holds queue_insert_tail
  simp only
  split
  · rename_i hnone
    change (h.queue q).tail = none at hnone
    rw [next_setTail, next_setHead, next_setPrev, next_setNext, prev_setTail, prev_setHead,
      prev_setPrev, prev_setNext]
    rw [htail, hnone] at hring
    change Ring _ (Function.update (Function.update _ _ (h.queue q).tail) _ _) _ _
    rw [hnone]
    exact hring
  · rename_i t hsome
    change (h.queue q).tail = some t at hsome
    rw [next_setTail, next_setNext, next_setPrev, next_setNext, prev_setTail, prev_setNext,
      prev_setPrev, prev_setNext]
    rw [htail, hsome] at hring
    change Ring _ (Function.update (Function.update _ _ (h.queue q).tail) _ _) _ _
    rw [hsome]
    exact hring

/-- The first node goes, and so does its link to the second one. -/
theorem Heap.Holds.pop (hold : h.Holds q (n :: l)) : (queue_pop_head h (some q)).Holds q l := by
  have hring := Ring.removeFront hold
  have hhead : (h.queue q).head = some n := hold.seg.1
  have hnext : h.next q (some n) = (h.entry n).next := rfl
  rw [hnext] at hring
  unfold Heap.Holds queue_pop_head
  simp only [hhead]
  split
  · rename_i hnone
    have hnone : (h.entry n).next = none := by simpa [Heap.setHead] using hnone
    rw [next_setTail, next_setHead, prev_setTail, prev_setHead]
    rw [hnone] at hring ⊢
    exact hring
  · rename_i m hsome
    have hsome : (h.entry n).next = some m := by simpa [Heap.setHead] using hsome
    rw [next_setPrev, next_setHead, prev_setPrev, prev_setHead]
    rw [hsome] at hring ⊢
    exact hring

theorem pop_empty (hold : h.Holds q []) : queue_pop_head h (some q) = h := by
  have hhead : (h.queue q).head = none := hold.seg.1
  unfold queue_pop_head
  simp only [hhead]

theorem pop_others (hold : h.Holds q l) (hn : n ∉ l) :
    (queue_pop_head h (some q)).entry n = h.entry n := by
  cases l with
  | nil => rw [pop_empty hold]
  | cons m l =>
    have hhead : (h.queue q).head = some m := hold.seg.1
    unfold queue_pop_head
    simp only [hhead]
    split
    · rfl
    · rename_i k hsome
      have hsome : (h.entry m).next = some k := by simpa [Heap.setHead] using hsome
      have hnext : (h.entry m).next = _ := hold.seg.2.2.next_eq
      have hmem : k ∈ l := by
        rw [hsome] at hnext
        cases l with
        | nil => cases hnext
        | cons k' l =>
          obtain rfl := Option.some.inj hnext
          exact List.mem_cons_self
      apply Function.update_of_ne
      rintro rfl
      exact hn (List.mem_cons_of_mem _ hmem)

theorem pop_queue (hq : q' ≠ q) : (queue_pop_head h (some q)).queue q' = h.queue q' := by
  unfold queue_pop_head
  simp only
  split
  · rfl
  · split <;> simp [Heap.setPrev, Heap.setHead, Heap.setTail, hq]

theorem pop_data : ((queue_pop_head h (some q)).entry n).data = (h.entry n).data := by
  unfold queue_pop_head
  simp only
  split
  · rfl
  · split
    · rfl
    · exact data_setPrev

/-! ## Runs -/

/-- An operation on any of the queues. `new` is `queue_new_node`, with what `malloc` gives. -/
inductive Act
  | create (q : Nat)
  | init (q : Option Nat)
  | new (node : Option Nat) (data : Nat)
  | insert (q node : Option Nat)
  | peek (q : Option Nat)
  | pop (q : Option Nat)
deriving DecidableEq, Repr

/-- The queue that the operation is called for. -/
def Act.on : Act → Option Nat
  | .create q => some q
  | .new _ _ => none
  | .init q | .insert q _ | .peek q | .pop q => q

/-- The nodes that were inserted and not yet popped, the oldest first. -/
def listed (lists : Nat → List Nat) : Act → Nat → List Nat
  | .create q | .init (some q) => Function.update lists q []
  | .insert (some q) (some n) => Function.update lists q (lists q ++ [n])
  | .pop (some q) => Function.update lists q (lists q).tail
  | _ => lists

def contents (as : List Act) : Nat → List Nat := as.foldl listed fun _ => []

/-- The memory, and what was done so far: the queues that were made, and what is in them. -/
structure State where
  heap : Heap
  made : List Nat
  lists : Nat → List Nat

def State.start (heap : Heap) : State := { heap, made := [], lists := fun _ => [] }

def Heap.act (h : Heap) : Act → Heap
  | .create q => { h with queue := Function.update h.queue q queue_create }
  | .init q => queue_init h q
  | .new node data => queue_new_node h node data
  | .insert q node => queue_insert_tail h q node
  | .peek _ => h
  | .pop q => queue_pop_head h q

def Act.makes : Act → List Nat
  | .create q | .init (some q) => [q]
  | _ => []

def step (s : State) (a : Act) : Option State :=
  some { heap := s.heap.act a, made := a.makes ++ s.made, lists := listed s.lists a }

/-- The node is in no queue. -/
def State.Outside (s : State) (n : Nat) : Prop := ∀ q ∈ s.made, n ∉ s.lists q

instance (s : State) (n : Nat) : Decidable (s.Outside n) :=
  inferInstanceAs (Decidable (∀ q ∈ s.made, n ∉ s.lists q))

/-- Only queues that were made are used, and nodes that are in no queue are inserted or made. -/
def proper (s : State) : Act → Prop
  | .new (some n) _ => s.Outside n
  | .insert (some q) (some n) => q ∈ s.made ∧ s.Outside n
  | .peek (some q) | .pop (some q) => q ∈ s.made
  | _ => True

instance (s : State) : DecidablePred (proper s) := fun a => by
  unfold proper
  split <;> infer_instance

structure Sound (s : State) : Prop where
  holds : ∀ q ∈ s.made, s.heap.Holds q (s.lists q)
  apart : ∀ q ∈ s.made, ∀ q' ∈ s.made, q ≠ q' → ∀ n ∈ s.lists q, n ∉ s.lists q'

variable {s s' : State} {a : Act} {as : List Act}

/-- A queue is emptied, whatever was in it. -/
theorem Sound.empty (hs : Sound s) (hheap : h'.queue = Function.update s.heap.queue q queue_create)
    (hentry : h'.entry = s.heap.entry) :
    Sound { heap := h', made := [q] ++ s.made, lists := Function.update s.lists q [] } := by
  have hmade : ∀ {r}, r ∈ [q] ++ s.made → r ≠ q → r ∈ s.made := by
    intro r hr hne
    rcases List.mem_cons.mp hr with rfl | hr
    · exact absurd rfl hne
    · exact hr
  constructor
  · intro r hr
    by_cases hrq : r = q
    · subst hrq
      simp only [Function.update_self]
      apply holds_empty
      rw [hheap, Function.update_self]
    · simp only [Function.update_of_ne hrq]
      apply (hs.holds r (hmade hr hrq)).congr
      · rw [hheap, Function.update_of_ne hrq]
      · intro n _
        rw [hentry]
  · intro r hr r' hr' hne n hn hn'
    by_cases hrq : r = q
    · subst hrq
      simp only [Function.update_self, List.not_mem_nil] at hn
    · by_cases hrq' : r' = q
      · subst hrq'
        simp only [Function.update_self, List.not_mem_nil] at hn'
      · simp only [Function.update_of_ne hrq] at hn
        simp only [Function.update_of_ne hrq'] at hn'
        exact hs.apart r (hmade hr hrq) r' (hmade hr' hrq') hne n hn hn'

/-- The queues that an operation is not called for stay as they are. -/
theorem Sound.others (hs : Sound s) (hok : proper s a) (hq : q ∈ s.made) (hon : a.on ≠ some q) :
    listed s.lists a q = s.lists q ∧ (s.heap.act a).queue q = s.heap.queue q ∧
      ∀ n ∈ s.lists q, (s.heap.act a).entry n = s.heap.entry n := by
  have hne : ∀ {r}, a.on = some r → q ≠ r := by
    rintro r hr rfl
    exact hon hr
  cases a with
  | create r =>
    have hqr : q ≠ r := hne rfl
    exact ⟨Function.update_of_ne hqr .., Function.update_of_ne hqr .., fun _ _ => rfl⟩
  | init r =>
    rcases r with _ | r
    · exact ⟨rfl, rfl, fun _ _ => rfl⟩
    · have hqr : q ≠ r := hne rfl
      refine ⟨Function.update_of_ne hqr .., ?_, fun _ _ => rfl⟩
      change (queue_init s.heap (some r)).queue q = _
      rw [queue_init_queue, Function.update_of_ne hqr]
  | new node data =>
    rcases node with _ | m
    · exact ⟨rfl, rfl, fun _ _ => rfl⟩
    · refine ⟨rfl, rfl, ?_⟩
      intro n hn
      apply Function.update_of_ne
      rintro rfl
      exact hok q hq hn
  | insert r node =>
    rcases r with _ | r
    · exact ⟨rfl, rfl, fun _ _ => rfl⟩
    · rcases node with _ | m
      · exact ⟨rfl, rfl, fun _ _ => rfl⟩
      · have hqr : q ≠ r := hne rfl
        obtain ⟨hr, hm⟩ := hok
        refine ⟨Function.update_of_ne hqr .., insert_queue hqr, ?_⟩
        intro n hn
        apply insert_others
        · rintro rfl
          exact hm q hq hn
        · intro htail
          apply hs.apart q hq r hr hqr n hn
          apply List.mem_of_getLast?
          rw [← (hs.holds r hr).represents.tail, htail]
  | peek r => exact ⟨rfl, rfl, fun _ _ => rfl⟩
  | pop r =>
    rcases r with _ | r
    · exact ⟨rfl, rfl, fun _ _ => rfl⟩
    · have hqr : q ≠ r := hne rfl
      refine ⟨Function.update_of_ne hqr .., pop_queue hqr, ?_⟩
      intro n hn
      apply pop_others (hs.holds r hok)
      exact hs.apart q hq r hok hqr n hn

/-- One queue has another list, of its own nodes and of nodes from outside. -/
theorem Sound.change (hs : Sound s) (hold : h'.Holds q l)
    (hothers : ∀ r ∈ s.made, r ≠ q → h'.queue r = s.heap.queue r ∧
      ∀ n ∈ s.lists r, h'.entry n = s.heap.entry n)
    (hl : ∀ n ∈ l, n ∈ s.lists q ∨ s.Outside n) (hq : q ∈ s.made) :
    Sound { heap := h', made := s.made, lists := Function.update s.lists q l } := by
  constructor
  · intro r hr
    by_cases hrq : r = q
    · subst hrq
      simp only [Function.update_self]
      exact hold
    · simp only [Function.update_of_ne hrq]
      obtain ⟨hqueue, hentry⟩ := hothers r hr hrq
      exact (hs.holds r hr).congr hqueue hentry
  · intro r hr r' hr' hne n hn hn'
    by_cases hrq : r = q
    · subst hrq
      simp only [Function.update_self] at hn
      simp only [Function.update_of_ne hne.symm] at hn'
      rcases hl n hn with hin | hout
      · exact hs.apart r hr r' hr' hne n hin hn'
      · exact hout r' hr' hn'
    · simp only [Function.update_of_ne hrq] at hn
      by_cases hrq' : r' = q
      · subst hrq'
        simp only [Function.update_self] at hn'
        rcases hl n hn' with hin | hout
        · exact hs.apart r hr r' hr' hne n hn hin
        · exact hout r hr hn
      · simp only [Function.update_of_ne hrq'] at hn'
        exact hs.apart r hr r' hr' hne n hn hn'

theorem Sound.step (hs : Sound s) (hok : proper s a) (hstep : queues.step s a = some s') : Sound s' := by
  have hothers : ∀ {r}, a.on = some r → ∀ q ∈ s.made, q ≠ r →
      (s.heap.act a).queue q = s.heap.queue q ∧
        ∀ n ∈ s.lists q, (s.heap.act a).entry n = s.heap.entry n := by
    intro r hr q hq hne
    apply And.right
    apply hs.others hok hq
    rw [hr]
    intro heq
    exact hne (Option.some.inj heq).symm
  obtain rfl := Option.some.inj hstep
  cases a with
  | create q => exact hs.empty rfl rfl
  | init q =>
    rcases q with _ | q
    · exact hs
    · exact hs.empty queue_init_queue rfl
  | new node data =>
    rcases node with _ | n
    · exact hs
    · refine ⟨?_, hs.apart⟩
      intro q hq
      apply (hs.holds q hq).congr
      · rfl
      · intro m hm
        apply Function.update_of_ne
        rintro rfl
        exact hok q hq hm
  | insert q node =>
    rcases q with _ | q
    · exact hs
    · rcases node with _ | n
      · exact hs
      · obtain ⟨hq, hn⟩ := hok
        apply hs.change ((hs.holds q hq).insert (hn q hq)) (hothers rfl) _ hq
        intro m hm
        rcases List.mem_append.mp hm with hm | hm
        · exact Or.inl hm
        · rw [List.mem_singleton.mp hm]
          exact Or.inr hn
  | peek q => exact hs
  | pop q =>
    rcases q with _ | q
    · exact hs
    · have hold := hs.holds q hok
      have hpop : (queue_pop_head s.heap (some q)).Holds q (s.lists q).tail := by
        cases hl : s.lists q with
        | nil =>
          rw [hl] at hold
          rw [pop_empty hold]
          exact hold
        | cons n l =>
          rw [hl] at hold
          exact hold.pop
      apply hs.change hpop (hothers rfl) _ hok
      intro m hm
      exact Or.inl (List.mem_of_mem_tail hm)

/-! ## The laws -/

theorem lists_run {heap : Heap} (hrun : Run step proper (State.start heap) as s) :
    s.lists = contents as := by
  induction hrun with
  | nil => rfl
  | snoc _ _ hs ih =>
    obtain rfl := Option.some.inj hs
    rw [contents, List.foldl_append, ← contents, ← ih]
    rfl

theorem sound_run {heap : Heap} (hrun : Run step proper (State.start heap) as s) : Sound s := by
  apply hrun.invariant
  · constructor
    · intro q hq
      cases hq
    · intro q hq
      cases hq
  · intro s a s' hs hok hstep
    exact hs.step hok hstep

/-- Whatever was done to the queues, the pointers of each of them are those of the list of its
nodes, no node is in two queues, and an operation leaves the other queues and all data alone. -/
theorem queues_are_fifo_lists {heap : Heap} (hrun : Run step proper (State.start heap) as s) :
    (∀ q ∈ s.made, Represents s.heap q (contents as q) ∧
      ((s.heap.queue q).head = none ↔ (s.heap.queue q).tail = none) ∧
      queue_peek_front s.heap (some q) = (contents as q).head?) ∧
    (∀ q ∈ s.made, ∀ q' ∈ s.made, q ≠ q' → ∀ n ∈ contents as q, n ∉ contents as q') ∧
    ∀ a s', proper s a → step s a = some s' →
      (∀ q ∈ s.made, a.on ≠ some q → contents (as ++ [a]) q = contents as q ∧
        s'.heap.queue q = s.heap.queue q ∧
        ∀ n ∈ contents as q, s'.heap.entry n = s.heap.entry n) ∧
      ∀ n, (∀ data, a ≠ .new (some n) data) → (s'.heap.entry n).data = (s.heap.entry n).data := by
  have hs := sound_run hrun
  have hlists := lists_run hrun
  refine ⟨?_, ?_, ?_⟩
  · intro q hq
    have hold := hs.holds q hq
    rw [hlists] at hold
    refine ⟨hold.represents, ?_, hold.represents.head⟩
    have hhead := hold.next_self_iff
    have htail := hold.prev_self_iff
    exact hhead.trans htail.symm
  · rw [← hlists]
    exact hs.apart
  · intro a s' hok hstep
    have hnext := lists_run (hrun.snoc hok hstep)
    obtain rfl := Option.some.inj hstep
    constructor
    · intro q hq hon
      have hsame := hs.others hok hq hon
      rw [← hnext, ← hlists]
      exact hsame
    · intro n hnew
      cases a with
      | create q => rfl
      | init q => rcases q with _ | q <;> rfl
      | new node data =>
        rcases node with _ | m
        · rfl
        · have hne : n ≠ m := by
            rintro rfl
            exact hnew data rfl
          apply congrArg QueueEntry.data
          exact Function.update_of_ne hne ..
      | insert q node =>
        rcases q with _ | q
        · rfl
        · rcases node with _ | m
          · rfl
          · exact insert_data
      | peek q => rfl
      | pop q =>
        rcases q with _ | q
        · rfl
        · exact pop_data

/-- A memory before anything is stored in it. -/
def garbage : Heap :=
  { entry := fun _ => { data := 0, next := some 3, prev := some 3 }
    queue := fun _ => { head := some 5, tail := some 5 } }

/-- Two nodes go through one queue, and the first of them on to another one. -/
def passedOn : List Act :=
  [.create 0, .init (some 1), .new (some 7) 70, .new (some 8) 80, .insert (some 0) (some 7),
    .insert (some 0) (some 8), .pop (some 0), .insert (some 1) (some 7)]

theorem a_node_is_passed_on : ∃ s, Run step proper (State.start garbage) passedOn s ∧
    Represents s.heap 0 [8] ∧ Represents s.heap 1 [7] := by
  have hrun : (exec step proper (State.start garbage) passedOn).isSome := by decide
  obtain ⟨s, hs⟩ := Option.isSome_iff_exists.mp hrun
  have hmade : s.made = [1, 0] := by
    have heq : (exec step proper (State.start garbage) passedOn).map State.made = some [1, 0] := by
      decide
    rw [hs] at heq
    exact Option.some.inj heq
  obtain ⟨hlists, -⟩ := queues_are_fifo_lists (run_of_exec hs)
  rw [hmade] at hlists
  exact ⟨s, run_of_exec hs, (hlists 0 (by decide)).1, (hlists 1 (by decide)).1⟩

end sut.queues
