-- The terminal from the line typed: `connect`, and `attach` and `start` one
-- after the other. The terminal thread runs alone here, and the network gives
-- it any answers.
import Mathlib.Data.List.DropRight
import SysNet.Lib.CText
import SysNet.LinkState.Origins

open runs

namespace socs.network

/-! ## The words of a line -/

/-- The code points of the zeros that `Character.digit` knows. -/
def zeroDigits : List Nat :=
  [0x0030, 0x0660, 0x06F0, 0x07C0, 0x0966, 0x09E6, 0x0A66, 0x0AE6, 0x0B66, 0x0BE6, 0x0C66, 0x0CE6,
   0x0D66, 0x0DE6, 0x0E50, 0x0ED0, 0x0F20, 0x1040, 0x1090, 0x17E0, 0x1810, 0x1946, 0x19D0, 0x1A80,
   0x1A90, 0x1B50, 0x1BB0, 0x1C40, 0x1C50, 0xA620, 0xA8D0, 0xA900, 0xA9D0, 0xA9F0, 0xAA50, 0xABF0,
   0xFF10]

/-- `Character.digit` for the radix ten. -/
def digit (c : Char) : Option Nat :=
  (zeroDigits.find? fun z => decide (z ≤ c.toNat ∧ c.toNat < z + 10)).map (c.toNat - ·)

def parseDigits (s : List Char) : Option Nat :=
  if s = [] then none else s.foldlM (fun n c => (digit c).map (10 * n + ·)) 0

def parseInt : List Char → Option Int
  | '-' :: s => (parseDigits s).map fun n : Nat => -(n : Int)
  | '+' :: s => (parseDigits s).map fun n : Nat => (n : Int)
  | s => (parseDigits s).map fun n : Nat => (n : Int)

/-- `Short.parseShort`; `none` when it throws. -/
def parseShort (s : List Char) : Option Int16 :=
  (parseInt s).bind fun n => if -32768 ≤ n ∧ n ≤ 32767 then some (Int16.ofInt n) else none

/-- `split(" ")`, which gives no empty words at the end. -/
def split (line : List Char) : List (List Char) :=
  if ' ' ∈ line then (line.splitOn ' ').rdropWhile (·.isEmpty) else [line]

/-- The words of a line behind its first. An exception when a word is missing
or the port is no `short`. -/
def attachArgs (line : List Char) : Option (String × Int16 × String) :=
  match split line with
  | _ :: processIP :: processPort :: simulatedIP :: _ =>
    (parseShort processPort).map fun p => (String.ofList processIP, p, String.ofList simulatedIP)
  | _ => none

/-! ## The dispatch of `terminal` -/

/-- What a line stands for. -/
inductive Line
  | command (c : Command)
  | connect (processIP : String) (processPort : Int16) (simulatedIP : String)
deriving DecidableEq

/-- The tests of `terminal`, in its order; `none` when the words of the line
throw. The test for `connect` takes no line with words behind it. -/
def readLine (line : List Char) : Option Line :=
  if "detect ".toList.isPrefixOf line then
    (split line)[1]?.map fun w => .command (.detect (String.ofList w))
  else if "disconnect ".toList.isPrefixOf line then
    ((split line)[1]?.bind parseShort).map fun n => .command (.disconnect n)
  else if "quit".toList.isPrefixOf line then some (.command .quit)
  else if "attach ".toList.isPrefixOf line then
    (attachArgs line).map fun ⟨a, p, s⟩ => .command (.attach a p s)
  else if line = "start".toList then some (.command .start)
  else if line = "connect ".toList then (attachArgs line).map fun ⟨a, p, s⟩ => .connect a p s
  else if line = "neighbors".toList then some (.command .neighbors)
  else if line = "printLSD".toList then some (.command .printLSD)
  else some (.command .invalid)

theorem readLine_attach (args : String) : readLine ("attach " ++ args).toList =
    (attachArgs ("attach " ++ args).toList).map fun ⟨a, p, s⟩ => .command (.attach a p s) := by
  simp [readLine, List.isPrefixOf]

/-- With words behind it, `connect` is an invalid command. Without, it throws. -/
theorem readLine_connect (args : String) : readLine ("connect " ++ args).toList = none ∨
    readLine ("connect " ++ args).toList = some (.command .invalid) := by
  by_cases h : args.toList = []
  · left
    rw [String.toList_append, h]
    decide
  · right
    simp [readLine, List.isPrefixOf, h]

/-! ## The documented arguments -/

theorem digit_of_isDigit {c : Char} (h : c.isDigit = true) :
    digit c = some (c.toNat - '0'.toNat) := by
  have hle : '0'.toNat ≤ c.toNat ∧ c.toNat < '0'.toNat + 10 := by
    simp only [Char.isDigit, Bool.and_eq_true, decide_eq_true_eq, UInt32.le_iff_toNat_le] at h
    change 48 ≤ c.val.toNat ∧ c.val.toNat < 58
    exact ⟨h.1, Nat.lt_succ_of_le h.2⟩
  have hfind : zeroDigits.find? (fun z => decide (z ≤ c.toNat ∧ c.toNat < z + 10)) = some 0x30 :=
    List.find?_cons_of_pos (by simpa using hle)
  rw [digit, hfind]
  rfl

theorem foldlM_digits {s : List Char} (h : ∀ c ∈ s, c.isDigit = true) (n : Nat) :
    s.foldlM (fun n c => (digit c).map (10 * n + ·)) n = some (Nat.ofDigitChars 10 s n) := by
  induction s generalizing n with
  | nil => rfl
  | cons c s ih =>
    have hc : c.isDigit = true := h c (List.mem_cons_self ..)
    rw [List.foldlM_cons, digit_of_isDigit hc, Nat.ofDigitChars_cons]
    exact ih (fun d hd => h d (List.mem_cons_of_mem _ hd)) _

theorem parseDigits_toDigits (n : Nat) : parseDigits (Nat.toDigits 10 n) = some n := by
  rw [parseDigits, if_neg Nat.toDigits_ne_nil,
    foldlM_digits fun c hc => ctext.isDigit_of_mem_toDigits hc,
    Nat.ofDigitChars_toDigits (by decide) (by decide)]

theorem parseInt_decimal (n : Int) : parseInt (ctext.decimal n) = some n := by
  unfold ctext.decimal
  split
  · rename_i hn
    obtain ⟨c, cs, hcs⟩ := List.exists_cons_of_ne_nil (Nat.toDigits_ne_nil (n := n.toNat) (b := 10))
    have hc : c.isDigit = true := ctext.isDigit_of_mem_toDigits (hcs ▸ List.mem_cons_self ..)
    have hval := parseDigits_toDigits n.toNat
    rw [hcs] at hval ⊢
    unfold parseInt
    split
    · rename_i heq
      cases heq
      exact absurd hc (by decide)
    · rename_i heq
      cases heq
      exact absurd hc (by decide)
    · rw [hval, Option.map_some, Int.toNat_of_nonneg hn]
  · rename_i hn
    rw [parseInt, parseDigits_toDigits, Option.map_some, Int.toNat_of_nonneg (by omega),
      Int.neg_neg]

theorem parseShort_decimal (p : Int16) : parseShort (ctext.decimal p.toInt) = some p := by
  have h1 := p.le_toInt
  have h2 := p.toInt_lt
  rw [parseShort, parseInt_decimal, Option.bind_some, if_pos (by omega), Int16.ofInt_toInt]

/-- The arguments as the command table writes them. -/
theorem attachArgs_documented (word processIP simulatedIP : String) (processPort : Int16)
    (hword : ' ' ∉ word.toList) (hip : ' ' ∉ processIP.toList) (hsim : ' ' ∉ simulatedIP.toList)
    (hne : simulatedIP ≠ "") :
    attachArgs (word.toList ++ ' ' :: (processIP.toList ++ ' ' ::
      (ctext.decimal processPort.toInt ++ ' ' :: simulatedIP.toList))) =
      some (processIP, processPort, simulatedIP) := by
  have hport : ' ' ∉ ctext.decimal processPort.toInt := by
    intro h
    rcases ctext.mem_decimal h with h | h <;> exact absurd h (by decide)
  have hsplit : split (word.toList ++ ' ' :: (processIP.toList ++ ' ' ::
      (ctext.decimal processPort.toInt ++ ' ' :: simulatedIP.toList))) =
      [word.toList, processIP.toList, ctext.decimal processPort.toInt, simulatedIP.toList] := by
    rw [split, if_pos (by simp), List.splitOn_append_cons_self_of_not_mem hword,
      List.splitOn_append_cons_self_of_not_mem hip,
      List.splitOn_append_cons_self_of_not_mem hport, List.splitOn_eq_singleton hsim]
    apply List.rdropWhile_eq_self_iff.mpr
    intro _
    simpa using hne
  rw [attachArgs, hsplit]
  simp only [parseShort_decimal, Option.map_some, String.ofList_toList]

/-! ## The terminal at work -/

/-- A router at its terminal, with the packets that it has sent from there. -/
structure Console where
  router : Router
  /-- `processConnect` waits for its `processAttach`. -/
  connecting : Bool := false
  sends : List (Nat × SOSPFPacket) := []

namespace Console

/-- The thread takes a line, goes on, or reads the answer that it waits for. -/
inductive Act
  | enter (line : List Char)
  | advance
  | read (response : Option SOSPFPacket)

def did (c : Console) (e : Effect) : Console :=
  { c with router := e.router, sends := c.sends ++ e.sends }

def enter (c : Console) (line : List Char) : Console :=
  match readLine line with
  | none => c.did (c.router.command .invalid)
  | some (.command k) => c.did (c.router.command k)
  | some (.connect a p s) =>
    { c.did (c.router.command (.attach a p s)) with connecting := true }

/-- `processConnect` behind `processAttach`: the advertisement is built, stored
and sent, as at the end of `processStart`. -/
def connectEnd (c : Console) : Console := { c.did c.router.startEnd with connecting := false }

def atPrompt (c : Console) : Bool := decide (c.router.terminal = .ready) && !c.connecting

/-- The terminal reads no more lines. -/
def stopped (c : Console) : Bool :=
  decide (c.router.terminal = .ended) || decide (c.router.terminal = .exited)

/-- `connect` opens a connection to a process port. -/
def step (connect : Int16 → Client) (c : Console) : Act → Option Console
  | .enter line => if c.atPrompt then some (c.enter line) else none
  | .advance =>
    if c.router.terminal = .ready ∧ c.connecting then some c.connectEnd
    else (c.router.advance connect).map c.did
  | .read response => (c.router.read response).map c.did

def entered (acts : List Act) : List (List Char) :=
  acts.filterMap fun
    | .enter line => some line
    | _ => none

@[simp] theorem entered_snoc_enter (acts : List Act) (line : List Char) :
    entered (acts ++ [.enter line]) = entered acts ++ [line] := by
  simp [entered]

@[simp] theorem entered_snoc_advance (acts : List Act) :
    entered (acts ++ [.advance]) = entered acts := by
  simp [entered]

@[simp] theorem entered_snoc_read (acts : List Act) (response : Option SOSPFPacket) :
    entered (acts ++ [.read response]) = entered acts := by
  simp [entered]

/-- The lines are entered one after the other, each at the prompt, until the
last command is done or the terminal has stopped. -/
structure Session (connect : Int16 → Client) (r : Router) (lines : List (List Char))
    (acts : List Act) (c : Console) : Prop where
  run : Run (step connect) anyStep { router := r } acts c
  typed : entered acts <+: lines
  done : c.stopped = true ∨ c.atPrompt = true ∧ entered acts = lines

/-- Two ends with the same ports and the same database, and with the same
packets behind them, so that no remote router can tell them apart either. -/
structure Agrees (c c' : Console) : Prop where
  ports : c.router.ports = c'.router.ports
  lsd : c.router.lsd = c'.router.lsd
  sends : c.sends = c'.sends

def attachLine (args : String) : List Char := ("attach " ++ args).toList

def connectLine (args : String) : List Char := ("connect " ++ args).toList

/-- Neither `attach` nor `start` comes as far as its first packet, nor `start`
to its end: the arguments throw, the socket to the process cannot be opened, or
with all ports taken the first link without handshake has no socket. -/
def ComesToNothing (connect : Int16 → Client) (r : Router) (args : String) : Prop :=
  match attachArgs (attachLine args) with
  | none => True
  | some (_, processPort, _) =>
    if r.ports.length < 4 then (connect processPort).connected = false
    else ∃ l, r.ports.find? (·.router2.status ≠ .TWO_WAY) = some l ∧ l.client.connected = false

/-! ## The session of `connect` -/

section sessions

variable {connect : Int16 → Client} {r : Router} {args : String} {acts : List Act} {c c' : Console}

theorem advance_of_stopped (h : c.stopped = true) : c.router.advance connect = none := by
  simp only [stopped, Bool.or_eq_true, decide_eq_true_eq] at h
  unfold Router.advance
  rcases h with h | h <;> rw [h]

theorem read_of_stopped (h : c.stopped = true) (response : Option SOSPFPacket) :
    c.router.read response = none := by
  simp only [stopped, Bool.or_eq_true, decide_eq_true_eq] at h
  unfold Router.read
  rcases h with h | h <;> rw [h]

theorem step_of_stopped (h : c.stopped = true) (a : Act) : step connect c a = none := by
  have hready : c.router.terminal ≠ .ready := by
    simp only [stopped, Bool.or_eq_true, decide_eq_true_eq] at h
    rcases h with h | h <;> simp [h]
  cases a with
  | enter line => simp [step, atPrompt, hready]
  | advance => simp [step, hready, advance_of_stopped h]
  | read response => simp [step, read_of_stopped h]

/-- At the prompt the thread can only take a line. -/
theorem step_of_atPrompt (h : c.atPrompt = true) {a : Act} (hs : step connect c a = some c') :
    ∃ line, a = .enter line ∧ c' = c.enter line := by
  simp only [atPrompt, Bool.and_eq_true, decide_eq_true_eq, Bool.not_eq_true'] at h
  obtain ⟨hready, hconnecting⟩ := h
  cases a with
  | enter line =>
    simp only [step, atPrompt, hready, hconnecting] at hs
    exact ⟨line, rfl, (Option.some.inj hs).symm⟩
  | advance => simp [step, hconnecting, Router.advance, hready] at hs
  | read response => simp [step, Router.read, hready] at hs

/-- The terminal ends, and nothing has happened. -/
def ended (r : Router) : Console := { router := { r with terminal := .ended } }

theorem enter_of_throws {line : List Char}
    (h : readLine line = none ∨ readLine line = some (.command .invalid)) :
    enter { router := r } line = ended r := by
  unfold enter
  rcases h with h | h <;> rw [h] <;> rfl

/-- What the `connect` of the command table does: it ends the terminal. -/
theorem session_connect (hready : r.terminal = .ready)
    (h : Session connect r [connectLine args] acts c) : c = ended r := by
  have hstart : atPrompt { router := r } = true := by simp [atPrompt, hready]
  have hinv : entered acts <+: [connectLine args] →
      (entered acts = [] ∧ c = { router := r }) ∨
        (entered acts = [connectLine args] ∧ c = ended r) := by
    apply h.run.invariant_along
      (P := fun as s => entered as <+: [connectLine args] → (entered as = [] ∧ s = { router := r }) ∨
        (entered as = [connectLine args] ∧ s = ended r))
    · exact fun _ => Or.inl ⟨rfl, rfl⟩
    · intro as s a s' _ ih _ hs hpre
      have hbefore : entered as <+: [connectLine args] := by
        refine List.IsPrefix.trans ?_ hpre
        simp [entered]
      rcases ih hbefore with ⟨hnil, rfl⟩ | ⟨-, rfl⟩
      · obtain ⟨line, rfl, rfl⟩ := step_of_atPrompt hstart hs
        rw [entered_snoc_enter, hnil] at hpre ⊢
        obtain rfl : line = connectLine args := by simpa using hpre
        exact Or.inr ⟨rfl, enter_of_throws (readLine_connect args)⟩
      · rw [step_of_stopped rfl] at hs
        cases hs
  rcases hinv h.typed with ⟨hnil, rfl⟩ | ⟨-, hc⟩
  · rcases h.done with hstop | ⟨-, hall⟩
    · simp [stopped, hready] at hstop
    · rw [hnil] at hall
      cases hall
  · exact hc

/-! ## The session of `attach` and `start` -/

/-- The states in which nothing has happened yet. -/
inductive Still (connect : Int16 → Client) (r : Router) (args : String) :
    List (List Char) → Console → Prop
  | begun : Still connect r args [] { router := r }
  | attaching {a s : String} {p : Int16} : attachArgs (attachLine args) = some (a, p, s) →
      r.ports.length < 4 →
      Still connect r args [attachLine args] { router := { r with terminal := .attaching a p s } }
  | refused {a s : String} {p : Int16} : attachArgs (attachLine args) = some (a, p, s) →
      ¬ r.ports.length < 4 → Still connect r args [attachLine args] { router := r }
  | starting {a s : String} {p : Int16} {i : Nat} : attachArgs (attachLine args) = some (a, p, s) →
      ¬ r.ports.length < 4 → i ≤ r.ports.length →
      (∀ l ∈ r.ports.take i, l.router2.status = .TWO_WAY) →
      Still connect r args [attachLine args, "start".toList]
        { router := { r with terminal := .starting i r.modCount } }
  | stopped {typed : List (List Char)} : ComesToNothing connect r args →
      Still connect r args typed (ended r)

/-- A packet has gone out, or `start` has come to its end. -/
def Happened (r : Router) (args : String) (typed : List (List Char)) (c : Console) : Prop :=
  c.sends ≠ [] ∨
    (c.router.lsd ≠ r.lsd ∧ typed = [attachLine args, "start".toList] ∧
      (c.stopped = true ∨ c.atPrompt = true))

theorem updateLSD_ne (r : Router) : r.updateLSD.lsd ≠ r.lsd := by
  intro h
  have hown : some (r.lsd.renumber r.ip r.buildLSA) = r.lsd.getLSA r.ip := by
    rw [← Router.ownLSA_updateLSD]
    exact Router.ownLSA_of_fields rfl h
  cases hget : r.lsd.getLSA r.ip with
  | none =>
    rw [hget] at hown
    cases hown
  | some stored =>
    rw [hget, Option.some.injEq] at hown
    have hnum := congrArg LSA.lsaSeqNumber hown
    simp only [LinkStateDatabase.renumber, hget] at hnum
    exact Network.next_ne _ hnum

theorem comesToNothing_of_room {a s : String} {p : Int16}
    (h : attachArgs (attachLine args) = some (a, p, s)) (hroom : r.ports.length < 4) :
    ComesToNothing connect r args ↔ (connect p).connected = false := by
  unfold ComesToNothing
  rw [h]
  simp only [hroom, if_true]

theorem comesToNothing_of_full {a s : String} {p : Int16}
    (h : attachArgs (attachLine args) = some (a, p, s)) (hfull : ¬ r.ports.length < 4) :
    ComesToNothing connect r args ↔
      ∃ l, r.ports.find? (·.router2.status ≠ .TWO_WAY) = some l ∧ l.client.connected = false := by
  unfold ComesToNothing
  rw [h]
  simp only [hfull, if_false]

/-- The first link that the loop of `start` does not pass over. -/
theorem find?_of_take {i : Nat} {l : Link}
    (h : ∀ l ∈ r.ports.take i, l.router2.status = .TWO_WAY) (hl : r.ports[i]? = some l)
    (hne : l.router2.status ≠ .TWO_WAY) :
    r.ports.find? (·.router2.status ≠ .TWO_WAY) = some l := by
  obtain ⟨hi, hget⟩ := List.getElem?_eq_some_iff.mp hl
  have hnone : (r.ports.take i).find? (·.router2.status ≠ .TWO_WAY) = none := by
    apply List.find?_eq_none.mpr
    intro l' hl'
    simpa using h l' hl'
  have hhead : (l :: r.ports.drop (i + 1)).find? (·.router2.status ≠ .TWO_WAY) = some l :=
    List.find?_cons_of_pos (by simpa using hne)
  rw [← List.take_append_drop i r.ports, List.drop_eq_getElem_cons hi, hget, List.find?_append,
    hnone, hhead, Option.none_or]

/-- The line that stands next. -/
theorem next_line {typed lines : List (List Char)} {line l : List Char}
    (h : typed ++ [line] <+: typed ++ l :: lines) : line = l := by
  rw [List.prefix_append_right_inj] at h
  simpa using h

/-- `attach` is entered. -/
theorem still_attach :
    Still connect r args [attachLine args] (enter { router := r } (attachLine args)) := by
  unfold enter
  rw [attachLine, readLine_attach]
  cases hargs : attachArgs ("attach " ++ args).toList with
  | none =>
    apply Still.stopped
    unfold ComesToNothing attachLine
    rw [hargs]
    trivial
  | some t =>
    obtain ⟨a, p, s⟩ := t
    simp only [Option.map_some, Router.command, Router.processAttach]
    split
    · rename_i hfull
      exact Still.refused hargs (by omega)
    · rename_i hroom
      exact Still.attaching hargs (by omega)

/-- What `attach` sends first, if it can send. -/
theorem still_attachSend {a s : String} {p : Int16}
    (hargs : attachArgs (attachLine args) = some (a, p, s)) (hroom : r.ports.length < 4)
    (hc : c = did { router := { r with terminal := .attaching a p s } }
      (Router.attachSend { r with terminal := .attaching a p s } (connect p) a p s)) :
    Still connect r args [attachLine args] c ∨
      (Happened r args [attachLine args] c ∧ ¬ ComesToNothing connect r args) := by
  subst hc
  rw [comesToNothing_of_room hargs hroom]
  cases hconn : (connect p).connected with
  | false =>
    left
    have hend : did { router := { r with terminal := .attaching a p s } }
        (Router.attachSend { r with terminal := .attaching a p s } (connect p) a p s) = ended r := by
      simp [did, Router.attachSend, hconn, ended]
    rw [hend]
    exact Still.stopped ((comesToNothing_of_room hargs hroom).mpr hconn)
  | true =>
    right
    refine ⟨Or.inl ?_, Bool.noConfusion⟩
    simp [did, Router.attachSend, hconn]

/-- One turn of the loop of `start`, with no link passed that is not started. -/
theorem still_startNext {a s : String} {p : Int16} {i : Nat}
    (hargs : attachArgs (attachLine args) = some (a, p, s)) (hfull : ¬ r.ports.length < 4)
    (hi : i ≤ r.ports.length) (htake : ∀ l ∈ r.ports.take i, l.router2.status = .TWO_WAY)
    (hc : c = did { router := { r with terminal := .starting i r.modCount } }
      (Router.startNext { r with terminal := .starting i r.modCount } i r.modCount)) :
    Still connect r args [attachLine args, "start".toList] c ∨
      (Happened r args [attachLine args, "start".toList] c ∧ ¬ ComesToNothing connect r args) := by
  subst hc
  unfold Router.startNext
  split
  · -- every link has been passed over, so the advertisement is stored again
    rename_i hend
    right
    constructor
    · refine Or.inr ⟨updateLSD_ne _, rfl, ?_⟩
      simp only [did, Router.startEnd, stopped, atPrompt, Router.finish]
      split <;> simp
    · rw [comesToNothing_of_full hargs hfull]
      rintro ⟨l, hl, -⟩
      have hstatus := List.find?_some hl
      rw [hend, List.take_length] at htake
      simp [htake l (List.mem_of_find?_eq_some hl)] at hstatus
  · rename_i hne
    have hlt : i < r.ports.length := Nat.lt_of_le_of_ne hi hne
    rw [if_neg (fun h => h rfl), List.getElem?_eq_getElem hlt]
    simp only
    split
    · -- the link has its handshake
      rename_i hstatus
      left
      refine Still.starting hargs hfull hlt ?_
      intro l hl
      rw [List.take_succ_eq_append_getElem hlt, List.mem_append, List.mem_singleton] at hl
      rcases hl with hl | rfl
      · exact htake l hl
      · exact hstatus
    · rename_i hstatus
      have hfind := find?_of_take htake (List.getElem?_eq_getElem hlt) hstatus
      split
      · rename_i hconn
        right
        refine ⟨Or.inl (by simp [did]), ?_⟩
        rw [comesToNothing_of_full hargs hfull]
        rintro ⟨l, hl, hoff⟩
        rw [hfind, Option.some.injEq] at hl
        rw [← hl, hconn] at hoff
        cases hoff
      · rename_i hconn
        left
        apply Still.stopped
        rw [comesToNothing_of_full hargs hfull]
        exact ⟨_, hfind, by simpa using hconn⟩

/-- Each step goes on with nothing, or makes something happen. -/
theorem still_step {typed : List (List Char)} {a : Act} (hready : r.terminal = .ready)
    (h : Still connect r args typed c) (hs : step connect c a = some c')
    (hpre : typed ++ entered [a] <+: [attachLine args, "start".toList]) :
    Still connect r args (typed ++ entered [a]) c' ∨
      (Happened r args (typed ++ entered [a]) c' ∧ ¬ ComesToNothing connect r args) := by
  have hprompt : atPrompt { router := r } = true := by simp [atPrompt, hready]
  cases h with
  | begun =>
    obtain ⟨line, rfl, rfl⟩ := step_of_atPrompt hprompt hs
    obtain rfl : line = attachLine args := @next_line [] _ line _ hpre
    exact Or.inl still_attach
  | attaching hargs hroom =>
    cases a with
    | enter line => simp [step, atPrompt] at hs
    | advance =>
      simp only [step, Router.advance] at hs
      exact still_attachSend hargs hroom (by simpa using hs.symm)
    | read response => simp [step, Router.read] at hs
  | refused hargs hfull =>
    obtain ⟨line, rfl, rfl⟩ := step_of_atPrompt hprompt hs
    obtain rfl : line = "start".toList := @next_line [attachLine args] _ line _ hpre
    exact Or.inl (Still.starting hargs hfull (Nat.zero_le _) (by simp))
  | starting hargs hfull hi htake =>
    cases a with
    | enter line => simp [step, atPrompt] at hs
    | advance =>
      simp only [step, Router.advance] at hs
      exact still_startNext hargs hfull hi htake (by simpa using hs.symm)
    | read response => simp [step, Router.read] at hs
  | stopped =>
    rw [step_of_stopped rfl] at hs
    cases hs

/-- The packets of a terminal thread stay sent. -/
theorem sends_ne_nil {a : Act} (hs : step connect c a = some c') (h : c.sends ≠ []) :
    c'.sends ≠ [] := by
  have hdid : ∀ e : Effect, (c.did e).sends ≠ [] := fun e => by simp [did, h]
  cases a with
  | enter line =>
    simp only [step] at hs
    split at hs
    · cases hs
      unfold enter
      split
      · exact hdid _
      · exact hdid _
      · exact hdid _
    · cases hs
  | advance =>
    simp only [step] at hs
    split at hs
    · cases hs
      exact hdid _
    · obtain ⟨e, -, rfl⟩ := Option.map_eq_some_iff.mp hs
      exact hdid e
  | read response =>
    obtain ⟨e, -, rfl⟩ := Option.map_eq_some_iff.mp hs
    exact hdid e

theorem happened_step {typed : List (List Char)} {a : Act} (h : Happened r args typed c)
    (hs : step connect c a = some c')
    (hpre : typed ++ entered [a] <+: [attachLine args, "start".toList]) :
    Happened r args (typed ++ entered [a]) c' := by
  rcases h with hsends | ⟨-, rfl, hstop | hprompt⟩
  · exact Or.inl (sends_ne_nil hs hsends)
  · rw [step_of_stopped hstop] at hs
    cases hs
  · obtain ⟨line, rfl, -⟩ := step_of_atPrompt hprompt hs
    have hlen := hpre.length_le
    simp [entered] at hlen

/-- Of `attach` and `start`, either nothing has happened so far, or something
has, and then it had to. -/
theorem still_run (hready : r.terminal = .ready)
    (h : Session connect r [attachLine args, "start".toList] acts c) :
    Still connect r args (entered acts) c ∨
      (Happened r args (entered acts) c ∧ ¬ ComesToNothing connect r args) := by
  have hinv := h.run.invariant_along
    (P := fun as s => entered as <+: [attachLine args, "start".toList] →
      Still connect r args (entered as) s ∨
        (Happened r args (entered as) s ∧ ¬ ComesToNothing connect r args))
    (fun _ => Or.inl Still.begun)
  apply hinv ?_ h.typed
  intro as s a s' _ ih _ hs hpre
  have hsplit : entered (as ++ [a]) = entered as ++ entered [a] := List.filterMap_append
  rw [hsplit] at hpre ⊢
  rcases ih ((List.prefix_append _ _).trans hpre) with hstill | ⟨hhap, hnot⟩
  · exact still_step hready hstill hs hpre
  · exact Or.inr ⟨happened_step hhap hs hpre, hnot⟩

end sessions

/-! ## Every session ends -/

/-- The network gives the answer of the function to each request. -/
def Answers (answer : Link → Option SOSPFPacket) (c : Console) : Act → Prop
  | .read response => c.router.waitsOn.map answer = some response
  | _ => True

/-- A bound on the steps of a command: one for each stage of `attach`, two for
each link that `start` has not reached. -/
def turnsLeft (ports : Nat) : Terminal → Nat
  | .attaching .. => 3
  | .attachSent _ => 2
  | .attachAccepted _ => 1
  | .starting i _ => 2 * (ports - i) + 1
  | .helloSent i _ _ => 2 * (ports - i) + 2
  | _ => 0

def stepsLeft (c : Console) : Nat :=
  c.connecting.toNat + turnsLeft c.router.ports.length c.router.terminal

section ends

variable {connect : Int16 → Client} {answer : Link → Option SOSPFPacket} {c c' : Console}

theorem stepsLeft_finish (r : Router) (out : List (Client × SOSPFPacket)) (b : Bool)
    (sends : List (Nat × SOSPFPacket)) :
    stepsLeft ⟨r.finish out, b, sends⟩ = b.toNat := by
  unfold stepsLeft Router.finish
  cases allSent out <;> rfl

theorem turnsLeft_attachAnswer (n : Nat) (link : Link) (response : Option SOSPFPacket) :
    turnsLeft n (Router.attachAnswer link response) ≤ 1 := by
  unfold Router.attachAnswer
  split
  · exact Nat.zero_le _
  · split
    · exact Nat.le_refl _
    · exact Nat.zero_le _

theorem stepsLeft_startNext {i m : Nat} (ht : c.router.terminal = .starting i m) :
    stepsLeft (c.did (c.router.startNext i m)) < stepsLeft c := by
  have hc : stepsLeft c = c.connecting.toNat + (2 * (c.router.ports.length - i) + 1) := by
    rw [stepsLeft, ht, turnsLeft]
  rw [hc]
  unfold Router.startNext
  split
  · simp only [did, Router.startEnd, stepsLeft_finish]
    omega
  · split
    · simp only [did, stepsLeft, turnsLeft]
      omega
    · split
      · simp only [did, stepsLeft, turnsLeft]
        omega
      · rename_i l hl
        have hlt := (List.getElem?_eq_some_iff.mp hl).1
        split
        · simp only [did, stepsLeft, turnsLeft]
          omega
        · split
          · simp only [did, stepsLeft, turnsLeft]
            omega
          · simp only [did, stepsLeft, turnsLeft]
            omega

/-- A busy terminal thread goes on, or reads its answer, and is nearer to the
prompt then. -/
theorem exists_step (hstop : c.stopped = false) (hprompt : c.atPrompt = false) :
    ∃ a c', Answers answer c a ∧ step connect c a = some c' ∧ entered [a] = [] ∧
      stepsLeft c' < stepsLeft c := by
  cases ht : c.router.terminal with
  | ready =>
    have hconn : c.connecting = true := by simpa [atPrompt, ht] using hprompt
    refine ⟨.advance, c.connectEnd, trivial, ?_, rfl, ?_⟩
    · simp [step, ht, hconn]
    · simp only [connectEnd, did, Router.startEnd, stepsLeft_finish]
      simp [stepsLeft, turnsLeft, ht, hconn]
  | attaching a p s =>
    refine ⟨.advance, c.did (c.router.attachSend (connect p) a p s), trivial, ?_, rfl, ?_⟩
    · simp [step, Router.advance, ht]
    · simp only [did, Router.attachSend, stepsLeft, ht]
      cases (connect p).connected <;> simp [turnsLeft]
  | attachSent link =>
    refine ⟨.read (answer link), c.did { router := c.router.attachReply link (answer link) },
      ?_, ?_, rfl, ?_⟩
    · simp [Answers, Router.waitsOn, ht]
    · simp [step, Router.read, ht]
    · have hanswer := turnsLeft_attachAnswer c.router.ports.length link (answer link)
      have hc : stepsLeft c = c.connecting.toNat + 2 := by rw [stepsLeft, ht, turnsLeft]
      rw [hc]
      exact Nat.add_lt_add_left (Nat.lt_succ_of_le hanswer) _
  | attachAccepted link =>
    refine ⟨.advance, c.did { router := c.router.attachInsert link }, trivial, ?_, rfl, ?_⟩
    · simp [step, Router.advance, ht]
    · simp [did, Router.attachInsert, stepsLeft, turnsLeft, ht]
  | starting i m =>
    refine ⟨.advance, c.did (c.router.startNext i m), trivial, ?_, rfl, stepsLeft_startNext ht⟩
    simp [step, Router.advance, ht]
  | helloSent i m l =>
    refine ⟨.read (answer l), c.did (c.router.helloReply i m l (answer l)), ?_, ?_, rfl, ?_⟩
    · simp [Answers, Router.waitsOn, ht]
    · simp [step, Router.read, ht]
    · cases answer l with
      | none =>
        simp only [did, Router.helloReply, stepsLeft, turnsLeft, ht]
        omega
      | some msg =>
        simp only [did, Router.helloReply, stepsLeft, turnsLeft, ht]
        split
        · rw [Router.setStatus_length]
          omega
        · omega
  | ended => simp [stopped, ht] at hstop
  | exited => simp [stopped, ht] at hstop

/-- The command under way comes to its end. -/
theorem command_ends (c : Console) : ∃ acts c', Run (step connect) (Answers answer) c acts c' ∧
    entered acts = [] ∧ (c'.stopped = true ∨ c'.atPrompt = true) := by
  induction hn : stepsLeft c using Nat.strong_induction_on generalizing c with
  | _ n ih =>
    by_cases hdone : c.stopped = true ∨ c.atPrompt = true
    · exact ⟨[], c, .nil, rfl, hdone⟩
    · rw [not_or, Bool.not_eq_true, Bool.not_eq_true] at hdone
      obtain ⟨a, c1, hok, hs, ha, hlt⟩ :=
        @exists_step connect answer c hdone.1 hdone.2
      obtain ⟨acts, c2, hrun, hacts, hend⟩ := ih _ (hn ▸ hlt) c1 rfl
      have hone : Run (step connect) (Answers answer) c [a] c1 := .snoc .nil hok hs
      refine ⟨[a] ++ acts, c2, hone.append hrun, ?_, hend⟩
      rw [entered, List.filterMap_append]
      exact List.append_eq_nil_iff.mpr ⟨ha, hacts⟩

/-- The lines are entered as long as there is a prompt. -/
theorem lines_end (lines : List (List Char)) (c : Console)
    (hprompt : c.stopped = true ∨ c.atPrompt = true) :
    ∃ acts c', Run (step connect) (Answers answer) c acts c' ∧ entered acts <+: lines ∧
      (c'.stopped = true ∨ c'.atPrompt = true ∧ entered acts = lines) := by
  induction lines generalizing c with
  | nil =>
    refine ⟨[], c, .nil, List.prefix_refl _, ?_⟩
    exact hprompt.imp_right fun h => ⟨h, rfl⟩
  | cons line lines ih =>
    rcases hprompt with hstop | hprompt
    · exact ⟨[], c, .nil, List.nil_prefix, Or.inl hstop⟩
    · obtain ⟨acts, c1, hrun, hacts, hend⟩ :=
        @command_ends connect answer (c.enter line)
      obtain ⟨acts', c2, hrun', hpre, hend'⟩ := ih c1 hend
      have hone : Run (step connect) (Answers answer) c [.enter line] (c.enter line) :=
        .snoc .nil trivial (by simp [step, hprompt])
      have hlines : entered ([.enter line] ++ (acts ++ acts')) = line :: entered acts' := by
        simp only [entered, List.filterMap_append] at hacts ⊢
        rw [hacts]
        rfl
      refine ⟨_, c2, hone.append (hrun.append hrun'), ?_, ?_⟩
      · rw [hlines]
        exact (List.prefix_cons_inj _).mpr hpre
      · rw [hlines]
        exact hend'.imp_right fun h => ⟨h.1, by rw [h.2]⟩

end ends

/-- With any answers of the network, the lines of a session come to an end. -/
theorem every_session_ends (connect : Int16 → Client) (answer : Link → Option SOSPFPacket)
    (r : Router) (lines : List (List Char)) (hready : r.terminal = .ready) :
    ∃ acts c, Run (step connect) (Answers answer) { router := r } acts c ∧
      Session connect r lines acts c := by
  obtain ⟨acts, c, hrun, hpre, hend⟩ := @lines_end connect answer lines
    { router := r } (Or.inr (by simp [atPrompt, hready]))
  exact ⟨acts, c, hrun, hrun.mono fun _ _ _ => trivial, hpre, hend⟩

/-! ## connect, and attach with start -/

/-- Whatever the network answers, `connect` with its arguments leaves what
`attach` with the same arguments and `start` leave exactly when those two come
to nothing. -/
theorem connect_is_attach_then_start_iff (connect : Int16 → Client) (r : Router) (args : String)
    (acts acts' : List Act) (c c' : Console) (hready : r.terminal = .ready)
    (h : Session connect r [connectLine args] acts c)
    (h' : Session connect r [attachLine args, "start".toList] acts' c') :
    c.Agrees c' ↔ ComesToNothing connect r args := by
  obtain rfl := session_connect hready h
  rcases still_run hready h' with hstill | ⟨hhap, hnot⟩
  · -- a session that stands still is over only if it stopped
    have hdone := h'.done
    generalize entered acts' = typed at hstill hdone
    cases hstill with
    | begun => simp [stopped, hready] at hdone
    | attaching => simp [stopped, atPrompt] at hdone
    | refused => simp [stopped, hready] at hdone
    | starting => simp [stopped, atPrompt] at hdone
    | stopped hnothing => exact ⟨fun _ => hnothing, fun _ => ⟨rfl, rfl, rfl⟩⟩
  · refine ⟨fun hagree => ?_, fun hnothing => absurd hnothing hnot⟩
    rcases hhap with hsends | ⟨hlsd, -⟩
    · exact absurd hagree.sends.symm hsends
    · exact absurd hagree.lsd.symm hlsd

/-- With no process at the port, neither command line gets anywhere. -/
theorem connect_to_no_process : ∃ acts acts' c c',
    Session (fun _ => ⟨0, false⟩) router1 [connectLine "127.0.0.1 4000 192.168.1.100"]
      acts c ∧
    Session (fun _ => ⟨0, false⟩) router1
      [attachLine "127.0.0.1 4000 192.168.1.100", "start".toList] acts' c' ∧ c.Agrees c' := by
  obtain ⟨acts, c, -, h⟩ := every_session_ends (fun _ => ⟨0, false⟩) (fun _ => none)
    router1 [connectLine "127.0.0.1 4000 192.168.1.100"] rfl
  obtain ⟨acts', c', -, h'⟩ := every_session_ends (fun _ => ⟨0, false⟩) (fun _ => none)
    router1 [attachLine "127.0.0.1 4000 192.168.1.100", "start".toList] rfl
  refine ⟨acts, acts', c, c', h, h', ?_⟩
  apply (connect_is_attach_then_start_iff _ _ _ _ _ _ _ rfl h h').mpr
  have hargs : attachArgs (attachLine "127.0.0.1 4000 192.168.1.100") =
      some ("127.0.0.1", 4000, "192.168.1.100") := by decide
  exact (comesToNothing_of_room hargs (by decide)).mpr rfl

/-- At a router just launched whose neighbor is there, `attach` and `start`
send their packets, and `connect` ends the terminal. -/
theorem connect_makes_no_link : ¬ ∀ (connect : Int16 → Client) (r : Router) (args : String)
    (acts acts' : List Act) (c c' : Console), r.terminal = .ready →
      Session connect r [connectLine args] acts c →
      Session connect r [attachLine args, "start".toList] acts' c' → c.Agrees c' := by
  intro h
  let ack : SOSPFPacket := { sospfType := .ATTACH_ACK, routerID := "192.168.1.100" }
  let helloACK : SOSPFPacket := { sospfType := .HELLO_ACK, routerID := "192.168.1.100" }
  have hview : (exec (step fun _ => ⟨0, true⟩) anyStep { router := router1 }
      [.enter (attachLine "127.0.0.1 4000 192.168.1.100"), .advance, .read (some ack), .advance,
        .enter "start".toList, .advance, .read (some helloACK), .advance]).map
      (fun c => (c.atPrompt, c.router.ports.map (·.router2.status))) =
      some (true, [.TWO_WAY]) := by decide
  obtain ⟨c', hc', hv⟩ := Option.map_eq_some_iff.mp hview
  simp only [Prod.mk.injEq] at hv
  obtain ⟨hprompt, hstatus⟩ := hv
  have h' : Session (fun _ => ⟨0, true⟩) router1
      [attachLine "127.0.0.1 4000 192.168.1.100", "start".toList] _ c' :=
    ⟨run_of_exec hc', List.prefix_refl _, Or.inr ⟨hprompt, rfl⟩⟩
  obtain ⟨acts, c, -, hs⟩ := every_session_ends (fun _ => ⟨0, true⟩) (fun _ => none)
    router1 [connectLine "127.0.0.1 4000 192.168.1.100"] rfl
  have hagree := h _ _ _ _ _ _ _ rfl hs h'
  rw [← hagree.ports, session_connect rfl hs] at hstatus
  cases hstatus

end Console
end socs.network
