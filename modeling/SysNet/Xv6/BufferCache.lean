-- The buffer cache is coherent: one buffer at most for a block, a list with
-- every buffer in it, and a buffer that is in use keeps its block. What
-- `bread` gives is what was left in the buffer, or what the disk has.
import SysNet.Lib.Rings
import SysNet.Lib.Runs
import SysNet.Xv6.Bio

open rings runs

namespace xv6.bio

variable {D : Type} {s s' : State D} {p b d n : Nat}

/-! ## What an update leaves alone -/

@[simp] theorem set_self (x : Buf D) : (s.set b x).buf b = x := Function.update_self ..

theorem set_of_ne {b' : Nat} (x : Buf D) (h : b' ≠ b) : (s.set b x).buf b' = s.buf b' :=
  Function.update_of_ne h ..

theorem leave_self (x : Option D) : (s.leave d n x).left d n = x := by
  unfold State.leave
  simp

theorem leave_of_ne {d' n' : Nat} (x : Option D) (h : ¬ (d' = d ∧ n' = n)) :
    (s.leave d n x).left d' n' = s.left d' n' := by
  unfold State.leave
  by_cases hd : d' = d
  · subst hd
    have hn : n' ≠ n := fun hn => h ⟨rfl, hn⟩
    simp [hn]
  · simp [hd]

/-! ## The list -/

variable {k : Links} {l : List Nat}

/-- The list is a ring with every buffer in it once. -/
def Links.Listed (k : Links) (l : List Nat) : Prop := Ring k.next k.prev .head (l.map .buf)

theorem buf_not_mem (h : b ∉ l) : Node.buf b ∉ Node.head :: l.map Node.buf := by
  intro hmem
  rcases List.mem_cons.mp hmem with heq | hmem
  · cases heq
  · obtain ⟨c, hc, heq⟩ := List.mem_map.mp hmem
    cases heq
    exact h hc

theorem Links.Listed.insert (h : k.Listed l) (hb : b ∉ l) : (k.insert b).Listed (b :: l) := by
  have hring := Ring.insertFront h (buf_not_mem hb)
  have hnext : Function.update k.next (.buf b) (k.next .head) .head = k.next .head :=
    Function.update_of_ne (fun heq => Node.noConfusion heq) ..
  unfold Links.Listed Links.insert
  simp only [Links.setNext, Links.setPrev, hnext]
  exact hring

/-- Which assignment comes first makes no difference, for no buffer is its own neighbor. -/
theorem Links.Listed.remove {m : List Nat} (h : k.Listed (l ++ b :: m)) : (k.remove b).Listed (l ++ m) := by
  unfold Links.Listed at h
  have hne : Node.buf b ≠ k.next (.buf b) := by
    apply Ne.symm
    apply h.next_ne
    apply List.mem_map_of_mem
    exact List.mem_append_right l List.mem_cons_self
  rw [List.map_append, List.map_cons] at h
  have hring := h.remove
  rw [← List.map_append] at hring
  unfold Links.Listed Links.remove
  simp only [Links.setNext, Links.setPrev]
  rw [Function.update_of_ne hne]
  exact hring

/-- A buffer moves to the head of the list. -/
theorem Links.Listed.move (h : k.Listed l) (hb : b ∈ l) :
    ∃ m, ((k.remove b).insert b).Listed m ∧ m.Perm l := by
  obtain ⟨l₁, l₂, rfl⟩ := List.append_of_mem hb
  have hnodup : (l₁ ++ b :: l₂).Nodup := (List.nodup_cons.mp h.nodup).2.of_map Node.buf
  refine ⟨b :: (l₁ ++ l₂), ?_, List.perm_middle.symm⟩
  apply h.remove.insert
  exact (List.nodup_cons.mp (List.perm_middle.nodup_iff.mp hnodup)).1

theorem binit_listed (k : Links) : ∃ l, (binit k).Listed l ∧ l.Perm (List.range NBUF) := by
  have hloop : ∀ (bs : List Nat) (k : Links) (l : List Nat), k.Listed l → (bs ++ l).Nodup →
      ∃ m, (bs.foldl Links.insert k).Listed m ∧ m.Perm (bs ++ l) := by
    intro bs
    induction bs with
    | nil =>
      intro k l h _
      exact ⟨l, h, List.Perm.refl l⟩
    | cons b bs ih =>
      intro k l h hnodup
      obtain ⟨hb, hrest⟩ := List.nodup_cons.mp hnodup
      have hbl : b ∉ l := fun hmem => hb (List.mem_append_right bs hmem)
      have hperm : (bs ++ b :: l).Perm (b :: (bs ++ l)) := List.perm_middle
      obtain ⟨m, hm, hm'⟩ := ih (k.insert b) (b :: l) (h.insert hbl) (hperm.nodup_iff.mpr hnodup)
      exact ⟨m, hm, hm'.trans hperm⟩
  have hempty : ((k.setPrev .head .head).setNext .head .head).Listed [] := by
    apply ring_nil
    · simp [Links.setNext]
    · simp [Links.setNext, Links.setPrev]
  obtain ⟨m, hm, hperm⟩ := hloop (List.range NBUF) _ [] hempty (by simpa using List.nodup_range)
  rw [List.append_nil] at hperm
  exact ⟨m, hm, hperm⟩

/-- What a loop of `bget` from the head finds. -/
theorem Links.Listed.walk {stop : Node → Prop} [DecidablePred stop] (h : k.Listed l)
    (hl : l.length = NBUF) (hhead : stop .head) :
    chains.walk k.next stop (NBUF + 1) (k.next .head) =
      some (((l.map Node.buf).find? fun x => stop x).getD .head) := by
  apply h.seg.walk hhead
  rw [List.length_map]
  omega

/-- And from the tail. -/
theorem Links.Listed.walk_back {stop : Node → Prop} [DecidablePred stop] (h : k.Listed l)
    (hl : l.length = NBUF) (hhead : stop .head) :
    chains.walk k.prev stop (NBUF + 1) (k.prev .head) =
      some (((l.map Node.buf).reverse.find? fun x => stop x).getD .head) := by
  apply h.seg.reverse.walk hhead
  rw [List.length_reverse, List.length_map]
  omega

/-- The loop is at a buffer where it stops, or there is none. -/
theorem find_cases (stop : Node → Prop) [DecidablePred stop] (l : List Node)
    (hl : Node.head ∉ l) :
    ((l.find? fun x => stop x).getD .head = .head ∧ ∀ x ∈ l, ¬ stop x) ∨
      ∃ b, (l.find? fun x => stop x).getD .head = .buf b ∧ .buf b ∈ l ∧ stop (.buf b) := by
  cases hfind : l.find? fun x => stop x with
  | none =>
    refine Or.inl ⟨rfl, ?_⟩
    intro x hx hstop
    have hno := List.find?_eq_none.mp hfind x hx
    exact hno (decide_eq_true hstop)
  | some x =>
    have hmem := List.mem_of_find?_eq_some hfind
    have hstop := List.find?_some hfind
    cases x with
    | head => exact absurd hmem hl
    | buf b => exact Or.inr ⟨b, rfl, hmem, of_decide_eq_true hstop⟩

/-! ## The blocks that are cached -/

/-- One buffer at most for a block, with what was left in it. -/
structure Table (s : State D) : Prop where
  one : ∀ b < NBUF, ∀ b' < NBUF, (s.buf b).dev ≠ 0 → (s.buf b').dev = (s.buf b).dev →
    (s.buf b').blockno = (s.buf b).blockno → b' = b
  left : ∀ b < NBUF, (s.buf b).dev ≠ 0 →
    s.left (s.buf b).dev (s.buf b).blockno = if (s.buf b).valid then some (s.buf b).data else none
  gone : ∀ d n, d ≠ 0 → (∀ b < NBUF, ¬ ((s.buf b).dev = d ∧ (s.buf b).blockno = n)) → s.left d n = none

theorem Table.congr (h : Table s) (hdev : ∀ b < NBUF, (s'.buf b).dev = (s.buf b).dev)
    (hblockno : ∀ b < NBUF, (s'.buf b).blockno = (s.buf b).blockno)
    (hvalid : ∀ b < NBUF, (s'.buf b).valid = (s.buf b).valid)
    (hdata : ∀ b < NBUF, (s'.buf b).data = (s.buf b).data) (hleft : s'.left = s.left) : Table s' := by
  constructor
  · intro b hb b' hb'
    rw [hdev b hb, hdev b' hb', hblockno b hb, hblockno b' hb']
    exact h.one b hb b' hb'
  · intro b hb
    rw [hdev b hb, hblockno b hb, hvalid b hb, hdata b hb, hleft]
    exact h.left b hb
  · intro d n hd hnone
    rw [hleft]
    apply h.gone d n hd
    intro b hb
    rw [← hdev b hb, ← hblockno b hb]
    exact hnone b hb

theorem Table.same (h : Table s) (hbuf : s'.buf = s.buf) (hleft : s'.left = s.left) : Table s' := by
  apply h.congr
  all_goals
    first
    | exact hleft
    | (intro b _; rw [hbuf])

/-- The reference count of a buffer, its lock and the like are no matter. -/
theorem Table.set (h : Table s) {x : Buf D} (hdev : x.dev = (s.buf b).dev)
    (hblockno : x.blockno = (s.buf b).blockno) (hvalid : x.valid = (s.buf b).valid)
    (hdata : x.data = (s.buf b).data) : Table (s.set b x) := by
  apply h.congr
  all_goals
    first
    | rfl
    | intro c _
      by_cases hc : c = b
      · subst hc
        rw [set_self]
        assumption
      · rw [set_of_ne x hc]

/-- New data in the buffer of a block, which is what is left there. -/
theorem Table.put (h : Table s) (hb : b < NBUF) (hdev : (s.buf b).dev ≠ 0) {x : Buf D}
    (hxdev : x.dev = (s.buf b).dev) (hxblockno : x.blockno = (s.buf b).blockno) (hvalid : x.valid = true) :
    Table ((s.set b x).leave (s.buf b).dev (s.buf b).blockno (some x.data)) := by
  have hdevs : ∀ c, ((s.set b x).buf c).dev = (s.buf c).dev := by
    intro c
    by_cases hc : c = b
    · subst hc
      rw [set_self, hxdev]
    · rw [set_of_ne x hc]
  have hblocknos : ∀ c, ((s.set b x).buf c).blockno = (s.buf c).blockno := by
    intro c
    by_cases hc : c = b
    · subst hc
      rw [set_self, hxblockno]
    · rw [set_of_ne x hc]
  constructor
  · intro c hc c' hc'
    change ((s.set b x).buf c).dev ≠ 0 → ((s.set b x).buf c').dev = ((s.set b x).buf c).dev →
      ((s.set b x).buf c').blockno = ((s.set b x).buf c).blockno → c' = c
    rw [hdevs, hdevs, hblocknos, hblocknos]
    exact h.one c hc c' hc'
  · intro c hc hne
    change ((s.set b x).buf c).dev ≠ 0 at hne
    change State.left _ ((s.set b x).buf c).dev ((s.set b x).buf c).blockno =
      if ((s.set b x).buf c).valid then some ((s.set b x).buf c).data else none
    rw [hdevs] at hne
    rw [hdevs, hblocknos]
    by_cases hcb : c = b
    · subst hcb
      rw [leave_self, set_self, hvalid, if_pos rfl]
    · rw [leave_of_ne, set_of_ne x hcb]
      · exact h.left c hc hne
      · rintro ⟨h1, h2⟩
        exact hcb (h.one b hb c hc hdev h1 h2)
  · intro d n hd hnone
    have hnone' : ∀ c < NBUF, ¬ ((s.buf c).dev = d ∧ (s.buf c).blockno = n) := by
      intro c hc
      rw [← hdevs, ← hblocknos]
      exact hnone c hc
    rw [leave_of_ne]
    · exact h.gone d n hd hnone'
    · rintro ⟨rfl, rfl⟩
      exact hnone' b hb ⟨rfl, rfl⟩

/-- A buffer is recycled for a block that is not cached. -/
theorem Table.recycle (h : Table s) (hb : b < NBUF) (hd : d ≠ 0) {x : Buf D}
    (hnone : ∀ b < NBUF, ¬ ((s.buf b).dev = d ∧ (s.buf b).blockno = n)) (hxdev : x.dev = d)
    (hxblockno : x.blockno = n) (hvalid : x.valid = false) :
    Table ((s.leave (s.buf b).dev (s.buf b).blockno none).set b x) := by
  have hother : ∀ c, c ≠ b →
      ((s.leave (s.buf b).dev (s.buf b).blockno none).set b x).buf c = s.buf c := fun c hc =>
    set_of_ne x hc
  constructor
  · intro c hc c' hc' hne h1 h2
    by_cases hcb : c = b
    · subst hcb
      rw [set_self] at h1 h2
      by_cases hcb' : c' = c
      · exact hcb'
      · rw [hother c' hcb', hxdev] at h1
        rw [hother c' hcb', hxblockno] at h2
        exact absurd ⟨h1, h2⟩ (hnone c' hc')
    · rw [hother c hcb] at hne h1 h2
      by_cases hcb' : c' = b
      · subst hcb'
        rw [set_self, hxdev] at h1
        rw [set_self, hxblockno] at h2
        exact absurd ⟨h1.symm, h2.symm⟩ (hnone c hc)
      · rw [hother c' hcb'] at h1 h2
        exact h.one c hc c' hc' hne h1 h2
  · intro c hc hne
    change (s.leave (s.buf b).dev (s.buf b).blockno none).left _ _ = _
    by_cases hcb : c = b
    · subst hcb
      rw [set_self, hxdev, hxblockno, hvalid]
      rw [leave_of_ne]
      · exact h.gone d n hd hnone
      · rintro ⟨h1, h2⟩
        exact hnone c hc ⟨h1.symm, h2.symm⟩
    · rw [hother c hcb] at hne ⊢
      rw [leave_of_ne]
      · exact h.left c hc hne
      · rintro ⟨h1, h2⟩
        apply hcb
        apply Eq.symm
        exact h.one c hc b hb hne h1.symm h2.symm
  · intro d' n' hd' hnone'
    change (s.leave (s.buf b).dev (s.buf b).blockno none).left _ _ = _
    by_cases hold : d' = (s.buf b).dev ∧ n' = (s.buf b).blockno
    · obtain ⟨rfl, rfl⟩ := hold
      rw [leave_self]
    · rw [leave_of_ne _ hold]
      apply h.gone d' n' hd'
      intro c hc
      by_cases hcb : c = b
      · subst hcb
        rintro ⟨rfl, rfl⟩
        exact hold ⟨rfl, rfl⟩
      · rw [← hother c hcb]
        exact hnone' c hc

/-! ## The references -/

@[simp] theorem goto_self (pc : Pc) : (s.goto p pc).pc p = pc := Function.update_self ..

theorem goto_of_ne {q : Nat} (pc : Pc) (h : q ≠ p) : (s.goto p pc).pc q = s.pc q :=
  Function.update_of_ne h ..

/-- A reference that the process has to the buffer besides the lock. -/
def Pc.on (b : Nat) : Pc → Nat
  | .locking b' _ _ => if b' = b then 1 else 0
  | .releasing b' => if b' = b then 1 else 0
  | _ => 0

/-- The references of the process to the buffer. -/
def State.claims (s : State D) (p b : Nat) : Nat :=
  (if (s.buf b).lock = some p then 1 else 0) + (s.pc p).on b

/-- `refcnt` counts the pins and the processes that were given the buffer. -/
structure Counts (s : State D) : Prop where
  counts : ∀ b < NBUF, (s.buf b).refcnt = s.refs b
  small : ∀ b < NBUF, s.refs b < 4294967296
  claims : ∀ b < NBUF, ∀ p, s.claims p b ≤ (s.users b).count p

theorem Counts.of_eq (h : Counts s) (hrefcnt : ∀ b < NBUF, (s'.buf b).refcnt = (s.buf b).refcnt)
    (husers : s'.users = s.users) (hpins : s'.pins = s.pins)
    (hclaims : ∀ b < NBUF, ∀ p, s'.claims p b ≤ s.claims p b) : Counts s' := by
  have hrefs : ∀ b, s'.refs b = s.refs b := by
    intro b
    unfold State.refs
    rw [husers, hpins]
  constructor
  · intro b hb
    rw [hrefcnt b hb, hrefs]
    exact h.counts b hb
  · intro b hb
    rw [hrefs]
    exact h.small b hb
  · intro b hb p
    rw [husers]
    exact Nat.le_trans (hclaims b hb p) (h.claims b hb p)

/-- Nobody uses a buffer with a count of 0. -/
theorem Counts.unused (h : Counts s) (hb : b < NBUF) (hzero : (s.buf b).refcnt = 0) (p : Nat) :
    (s.buf b).lock ≠ some p ∧ (s.pc p).on b = 0 := by
  have hrefs := h.counts b hb
  rw [hzero] at hrefs
  have hlen : (s.users b).length = 0 := by
    unfold State.refs at hrefs
    omega
  have hclaims := h.claims b hb p
  rw [List.length_eq_zero_iff.mp hlen, List.count_nil] at hclaims
  unfold State.claims at hclaims
  constructor
  · intro hlock
    rw [if_pos hlock] at hclaims
    omega
  · omega

theorem uint_succ {m : Nat} (h : m + 1 < 4294967296) : uint (m + 1) = m + 1 := Nat.mod_eq_of_lt h

theorem uint_pred {m : Nat} (h : m < 4294967296) (hpos : 0 < m) : uint (m + 4294967295) = m - 1 := by
  unfold uint
  omega

theorem refer_refs (s : State D) (p b d n c : Nat) :
    (s.refer p b d n).refs c = if c = b then s.refs b + 1 else s.refs c := by
  change s.pins c + (Function.update s.users b (p :: s.users b) c).length = _
  by_cases hc : c = b
  · subst hc
    rw [if_pos rfl, Function.update_self, List.length_cons]
    rfl
  · rw [if_neg hc, Function.update_of_ne hc]
    rfl

/-- A process gets a reference and waits for the lock. -/
theorem Counts.refer (h : Counts s) (hidle : s.pc p = .idle) {x : Buf D} (hsmall : s.refs b + 1 < 4294967296)
    (hlock : x.lock = (s.buf b).lock) (hcount : x.refcnt = s.refs b + 1) :
    Counts ((s.set b x).refer p b d n) := by
  have hbuf : ∀ c, ((s.set b x).refer p b d n).buf c = (s.set b x).buf c := fun _ => rfl
  have hrefs : ∀ c, ((s.set b x).refer p b d n).refs c = if c = b then s.refs b + 1 else s.refs c :=
    fun c => refer_refs (s.set b x) p b d n c
  constructor
  · intro c hc
    rw [hbuf, hrefs]
    by_cases hcb : c = b
    · subst hcb
      rw [set_self, hcount, if_pos rfl]
    · rw [set_of_ne x hcb, if_neg hcb]
      exact h.counts c hc
  · intro c hc
    rw [hrefs]
    split
    · exact hsmall
    · exact h.small c hc
  · intro c hc q
    have hold := h.claims c hc q
    have hlocks : ((s.set b x).buf c).lock = (s.buf c).lock := by
      by_cases hcb : c = b
      · subst hcb
        rw [set_self, hlock]
      · rw [set_of_ne x hcb]
    have hpc : ((s.set b x).refer p b d n).pc q = if q = p then .locking b d n else s.pc q :=
      Function.update_apply ..
    have husers : ((s.set b x).refer p b d n).users c =
        if c = b then p :: s.users b else s.users c := Function.update_apply ..
    unfold State.claims at hold ⊢
    rw [hbuf, hlocks, hpc, husers]
    by_cases hq : q = p
    · subst hq
      rw [hidle] at hold
      rw [if_pos rfl]
      by_cases hcb : c = b
      · subst hcb
        rw [if_pos rfl, List.count_cons_self]
        simp only [Pc.on, if_true] at hold ⊢
        omega
      · rw [if_neg hcb]
        simp only [Pc.on, Ne.symm hcb, if_false] at hold ⊢
        exact hold
    · rw [if_neg hq]
      by_cases hcb : c = b
      · subst hcb
        rw [if_pos rfl, List.count_cons_of_ne (Ne.symm hq)]
        exact hold
      · rw [if_neg hcb]
        exact hold

/-- The process gives its reference back. -/
theorem Counts.release (h : Counts s) (hpc : s.pc p = .releasing b) (hb : b < NBUF) {x : Buf D}
    {t : State D} (hlock : x.lock = (s.buf b).lock) (hcount : x.refcnt = uint ((s.buf b).refcnt + 4294967295))
    (hbuf : t.buf = Function.update s.buf b x) (hpins : t.pins = s.pins)
    (husers : t.users = Function.update s.users b ((s.users b).erase p))
    (hidle : t.pc = Function.update s.pc p .idle) : Counts t := by
  have hclaim := h.claims b hb p
  have hmem : p ∈ s.users b := by
    apply List.count_pos_iff.mp
    unfold State.claims at hclaim
    rw [hpc] at hclaim
    simp only [Pc.on, if_true] at hclaim
    omega
  have hlen := List.length_erase_of_mem hmem
  have hpos := List.length_pos_of_mem hmem
  have hrefs : ∀ c, t.refs c = if c = b then s.refs b - 1 else s.refs c := by
    intro c
    unfold State.refs
    rw [husers, hpins]
    by_cases hcb : c = b
    · subst hcb
      rw [Function.update_self, if_pos rfl, hlen]
      omega
    · rw [Function.update_of_ne hcb, if_neg hcb]
  have hsmall := h.small b hb
  have hrefs_pos : 0 < s.refs b := by
    unfold State.refs
    omega
  constructor
  · intro c hc
    rw [hrefs]
    by_cases hcb : c = b
    · subst hcb
      rw [hbuf, Function.update_self, if_pos rfl, hcount, h.counts c hc, uint_pred hsmall hrefs_pos]
    · rw [hbuf, Function.update_of_ne hcb, if_neg hcb]
      exact h.counts c hc
  · intro c hc
    rw [hrefs]
    have := h.small c hc
    split <;> omega
  · intro c hc q
    have hold := h.claims c hc q
    have hlocks : (t.buf c).lock = (s.buf c).lock := by
      rw [hbuf]
      by_cases hcb : c = b
      · subst hcb
        rw [Function.update_self, hlock]
      · rw [Function.update_of_ne hcb]
    unfold State.claims at hold ⊢
    rw [hlocks, hidle, husers]
    by_cases hq : q = p
    · subst hq
      rw [hpc] at hold
      rw [Function.update_self]
      by_cases hcb : c = b
      · subst hcb
        rw [Function.update_self, List.count_erase_self]
        simp only [Pc.on, if_true] at hold ⊢
        omega
      · rw [Function.update_of_ne hcb]
        simp only [Pc.on, Ne.symm hcb, if_false] at hold ⊢
        exact hold
    · rw [Function.update_of_ne hq]
      by_cases hcb : c = b
      · subst hcb
        rw [Function.update_self, List.count_erase_of_ne hq]
        exact hold
      · rw [Function.update_of_ne hcb]
        exact hold

/-- A pin more or less. -/
theorem Counts.pin (h : Counts s) (hb : b < NBUF) {x : Buf D} {m : Nat} {t : State D}
    (hlock : x.lock = (s.buf b).lock) (hcount : x.refcnt = m + (s.users b).length)
    (hsmall : m + (s.users b).length < 4294967296)
    (ht : t = { s.set b x with pins := Function.update s.pins b m }) : Counts t := by
  have hrefs : ∀ c, t.refs c = if c = b then m + (s.users b).length else s.refs c := by
    intro c
    unfold State.refs
    rw [ht]
    change Function.update s.pins b m c + (s.users c).length = _
    by_cases hcb : c = b
    · subst hcb
      rw [if_pos rfl, Function.update_self]
    · rw [if_neg hcb, Function.update_of_ne hcb]
  have hbuf : ∀ c, t.buf c = (s.set b x).buf c := fun c => by rw [ht]
  have hlocks : ∀ c, (t.buf c).lock = (s.buf c).lock := by
    intro c
    rw [hbuf]
    by_cases hcb : c = b
    · subst hcb
      rw [set_self, hlock]
    · rw [set_of_ne x hcb]
  constructor
  · intro c hc
    rw [hrefs, hbuf]
    by_cases hcb : c = b
    · subst hcb
      rw [set_self, if_pos rfl, hcount]
    · rw [set_of_ne x hcb, if_neg hcb]
      exact h.counts c hc
  · intro c hc
    rw [hrefs]
    split
    · exact hsmall
    · exact h.small c hc
  · intro c hc q
    have hold := h.claims c hc q
    have hpc : t.pc q = s.pc q := by rw [ht]; rfl
    have husers : t.users c = s.users c := by rw [ht]; rfl
    unfold State.claims at hold ⊢
    rw [hlocks, hpc, husers]
    exact hold

/-! ## The calls that are under way -/

/-- A buffer that a process waits for or has locked is one for its block, and a locked one has
data or is about to get it. -/
structure Calls (s : State D) : Prop where
  asked : ∀ p b d n, s.pc p = .locking b d n ∨ s.pc p = .reading b d n →
    b < NBUF ∧ d ≠ 0 ∧ (s.buf b).dev = d ∧ (s.buf b).blockno = n
  reading : ∀ p b d n, s.pc p = .reading b d n → (s.buf b).lock = some p
  releasing : ∀ p b, s.pc p = .releasing b → b < NBUF
  locked : ∀ b p, (s.buf b).lock = some p →
    (s.buf b).dev ≠ 0 ∧ ((s.buf b).valid = true ∨ ∃ d n, s.pc p = .reading b d n)

theorem Calls.set (h : Calls s) {x : Buf D} (hdev : x.dev = (s.buf b).dev)
    (hblockno : x.blockno = (s.buf b).blockno) (hlock : x.lock = (s.buf b).lock)
    (hvalid : (s.buf b).valid = true → x.valid = true) : Calls (s.set b x) := by
  have hsame : ∀ c, ((s.set b x).buf c).dev = (s.buf c).dev ∧
      ((s.set b x).buf c).blockno = (s.buf c).blockno ∧ ((s.set b x).buf c).lock = (s.buf c).lock ∧
      ((s.buf c).valid = true → ((s.set b x).buf c).valid = true) := by
    intro c
    by_cases hc : c = b
    · subst hc
      rw [set_self]
      exact ⟨hdev, hblockno, hlock, hvalid⟩
    · rw [set_of_ne x hc]
      exact ⟨rfl, rfl, rfl, id⟩
  constructor
  · intro q c d n hq
    obtain ⟨h1, h2, -, -⟩ := hsame c
    rw [h1, h2]
    exact h.asked q c d n hq
  · intro q c d n hq
    obtain ⟨-, -, h3, -⟩ := hsame c
    rw [h3]
    exact h.reading q c d n hq
  · exact h.releasing
  · intro c q hq
    obtain ⟨h1, -, h3, h4⟩ := hsame c
    rw [h3] at hq
    rw [h1]
    obtain ⟨hne, hv⟩ := h.locked c q hq
    exact ⟨hne, hv.imp_left h4⟩

/-- A buffer that nobody uses gets another block. -/
theorem Calls.recycle (h : Calls s) {x : Buf D} (hlock : x.lock = (s.buf b).lock)
    (hunused : ∀ q, (s.buf b).lock ≠ some q ∧ (s.pc q).on b = 0) : Calls (s.set b x) := by
  have hother : ∀ {c}, c ≠ b → (s.set b x).buf c = s.buf c := fun hc => set_of_ne x hc
  constructor
  · intro q c d n hq
    have hcb : c ≠ b := by
      rintro rfl
      obtain ⟨hfree, hon⟩ := hunused q
      rcases hq with hq | hq
      · have hq : s.pc q = .locking c d n := hq
        simp [hq, Pc.on] at hon
      · exact hfree (h.reading q c d n hq)
    rw [hother hcb]
    exact h.asked q c d n hq
  · intro q c d n hq
    have hold := h.reading q c d n hq
    have hcb : c ≠ b := by
      rintro rfl
      exact (hunused q).1 hold
    rw [hother hcb]
    exact hold
  · exact h.releasing
  · intro c q hq
    by_cases hcb : c = b
    · subst hcb
      rw [set_self, hlock] at hq
      exact absurd hq (hunused q).1
    · rw [hother hcb] at hq ⊢
      exact h.locked c q hq

/-- A process goes on to a place where it has nothing to wait for or read. -/
theorem Calls.goto (h : Calls s) {pc : Pc} (hpc : ∀ b d n, pc ≠ .locking b d n ∧ pc ≠ .reading b d n)
    (hreleasing : ∀ b, pc = .releasing b → b < NBUF)
    (hread : ∀ b d n, s.pc p = .reading b d n → (s.buf b).valid = true) : Calls (s.goto p pc) := by
  constructor
  · intro q c d n hq
    by_cases hqp : q = p
    · subst hqp
      rw [goto_self] at hq
      rcases hq with hq | hq
      · exact absurd hq (hpc c d n).1
      · exact absurd hq (hpc c d n).2
    · rw [goto_of_ne pc hqp] at hq
      exact h.asked q c d n hq
  · intro q c d n hq
    by_cases hqp : q = p
    · subst hqp
      rw [goto_self] at hq
      exact absurd hq (hpc c d n).2
    · rw [goto_of_ne pc hqp] at hq
      exact h.reading q c d n hq
  · intro q c hq
    by_cases hqp : q = p
    · subst hqp
      rw [goto_self] at hq
      exact hreleasing c hq
    · rw [goto_of_ne pc hqp] at hq
      exact h.releasing q c hq
  · intro c q hq
    obtain ⟨hne, hv⟩ := h.locked c q hq
    refine ⟨hne, ?_⟩
    by_cases hqp : q = p
    · subst hqp
      rcases hv with hv | ⟨d, n, hq⟩
      · exact Or.inl hv
      · exact Or.inl (hread c d n hq)
    · rw [goto_of_ne pc hqp]
      exact hv

/-- A process waits for the lock of a buffer. -/
theorem Calls.refer (h : Calls s) (hidle : s.pc p = .idle) (hb : b < NBUF) (hd : d ≠ 0)
    (hdev : (s.buf b).dev = d) (hblockno : (s.buf b).blockno = n) : Calls (s.refer p b d n) := by
  have hpc : ∀ q, (s.refer p b d n).pc q = if q = p then .locking b d n else s.pc q :=
    fun q => Function.update_apply ..
  constructor
  · intro q c d' n' hq
    rw [hpc] at hq
    by_cases hqp : q = p
    · rw [if_pos hqp] at hq
      rcases hq with hq | hq
      · cases hq
        exact ⟨hb, hd, hdev, hblockno⟩
      · cases hq
    · rw [if_neg hqp] at hq
      exact h.asked q c d' n' hq
  · intro q c d' n' hq
    rw [hpc] at hq
    by_cases hqp : q = p
    · rw [if_pos hqp] at hq
      cases hq
    · rw [if_neg hqp] at hq
      exact h.reading q c d' n' hq
  · intro q c hq
    rw [hpc] at hq
    by_cases hqp : q = p
    · rw [if_pos hqp] at hq
      cases hq
    · rw [if_neg hqp] at hq
      exact h.releasing q c hq
  · intro c q hq
    obtain ⟨hne, hv⟩ := h.locked c q hq
    refine ⟨hne, ?_⟩
    rw [hpc]
    by_cases hqp : q = p
    · subst hqp
      rcases hv with hv | ⟨d', n', hq⟩
      · exact Or.inl hv
      · rw [hidle] at hq
        cases hq
    · rw [if_neg hqp]
      exact hv

/-- It gets the lock. -/
theorem Calls.acquire (h : Calls s) (hpc : s.pc p = .locking b d n) (hfree : (s.buf b).lock = none) :
    Calls ((s.set b { s.buf b with lock := some p }).goto p (.reading b d n)) := by
  obtain ⟨hb, hd, hdev, hblockno⟩ := h.asked p b d n (Or.inl hpc)
  have hother : ∀ {c}, c ≠ b → (s.set b { s.buf b with lock := some p }).buf c = s.buf c :=
    fun hc => set_of_ne _ hc
  have hpcs : ∀ q, ((s.set b { s.buf b with lock := some p }).goto p (.reading b d n)).pc q =
      if q = p then .reading b d n else s.pc q := fun q => Function.update_apply ..
  constructor
  · intro q c d' n' hq
    rw [hpcs] at hq
    have hold : c < NBUF ∧ d' ≠ 0 ∧ (s.buf c).dev = d' ∧ (s.buf c).blockno = n' := by
      by_cases hqp : q = p
      · rw [if_pos hqp] at hq
        rcases hq with hq | hq
        · cases hq
        · cases hq
          exact ⟨hb, hd, hdev, hblockno⟩
      · rw [if_neg hqp] at hq
        exact h.asked q c d' n' hq
    change c < NBUF ∧ d' ≠ 0 ∧ ((s.set b { s.buf b with lock := some p }).buf c).dev = d' ∧
      ((s.set b { s.buf b with lock := some p }).buf c).blockno = n'
    by_cases hcb : c = b
    · subst hcb
      rw [set_self]
      exact hold
    · rw [hother hcb]
      exact hold
  · intro q c d' n' hq
    rw [hpcs] at hq
    change ((s.set b { s.buf b with lock := some p }).buf c).lock = some q
    by_cases hqp : q = p
    · rw [if_pos hqp] at hq
      cases hq
      rw [set_self, hqp]
    · rw [if_neg hqp] at hq
      have hold := h.reading q c d' n' hq
      have hcb : c ≠ b := by
        rintro rfl
        rw [hfree] at hold
        cases hold
      rw [hother hcb]
      exact hold
  · intro q c hq
    rw [hpcs] at hq
    by_cases hqp : q = p
    · rw [if_pos hqp] at hq
      cases hq
    · rw [if_neg hqp] at hq
      exact h.releasing q c hq
  · intro c q hq
    change ((s.set b { s.buf b with lock := some p }).buf c).lock = some q at hq
    change ((s.set b { s.buf b with lock := some p }).buf c).dev ≠ 0 ∧
      (((s.set b { s.buf b with lock := some p }).buf c).valid = true ∨ _)
    rw [hpcs]
    by_cases hcb : c = b
    · subst hcb
      rw [set_self] at hq ⊢
      obtain rfl := Option.some.inj hq
      rw [if_pos rfl, hdev]
      exact ⟨hd, Or.inr ⟨d, n, rfl⟩⟩
    · rw [hother hcb] at hq ⊢
      obtain ⟨hne, hv⟩ := h.locked c q hq
      refine ⟨hne, ?_⟩
      by_cases hqp : q = p
      · subst hqp
        rcases hv with hv | ⟨d', n', hq⟩
        · exact Or.inl hv
        · rw [hpc] at hq
          cases hq
      · rw [if_neg hqp]
        exact hv

/-- A buffer that no process reads into is unlocked. -/
theorem Calls.unlock (h : Calls s) {x : Buf D} (hdev : x.dev = (s.buf b).dev)
    (hblockno : x.blockno = (s.buf b).blockno) (hlock : x.lock = none)
    (hread : ∀ q d n, s.pc q ≠ .reading b d n) : Calls (s.set b x) := by
  have hother : ∀ {c}, c ≠ b → (s.set b x).buf c = s.buf c := fun hc => set_of_ne x hc
  constructor
  · intro q c d n hq
    have hold := h.asked q c d n hq
    by_cases hcb : c = b
    · subst hcb
      rw [set_self, hdev, hblockno]
      exact hold
    · rw [hother hcb]
      exact hold
  · intro q c d n hq
    have hcb : c ≠ b := by
      rintro rfl
      exact hread q d n hq
    rw [hother hcb]
    exact h.reading q c d n hq
  · exact h.releasing
  · intro c q hq
    by_cases hcb : c = b
    · subst hcb
      rw [set_self, hlock] at hq
      cases hq
    · rw [hother hcb] at hq ⊢
      exact h.locked c q hq

/-! ## The steps -/

structure Sound (s : State D) : Prop where
  listed : ∃ l, s.links.Listed l ∧ l.Perm (List.range NBUF)
  table : Table s
  counts : Counts s
  calls : Calls s

/-- The disk and a panic are no matter. -/
theorem Sound.of_eq (h : Sound s) (hlinks : s'.links = s.links) (hbuf : s'.buf = s.buf)
    (hpc : s'.pc = s.pc) (husers : s'.users = s.users) (hpins : s'.pins = s.pins)
    (hleft : s'.left = s.left) : Sound s' := by
  obtain ⟨hlisted, htable, hcounts, hcalls⟩ := h
  refine ⟨?_, ?_, ?_, ?_⟩
  · rw [hlinks]
    exact hlisted
  · exact htable.same hbuf hleft
  · apply hcounts.of_eq _ husers hpins
    · intro b _ p
      apply Nat.le_of_eq
      unfold State.claims
      rw [hbuf, hpc]
    · intro b _
      rw [hbuf]
  · constructor
    · rw [hpc, hbuf]
      exact hcalls.asked
    · rw [hpc, hbuf]
      exact hcalls.reading
    · rw [hpc]
      exact hcalls.releasing
    · rw [hpc, hbuf]
      exact hcalls.locked

/-- What `bget` does: the block is cached, or a buffer that is unused is recycled for it, or there
is none. -/
theorem Sound.bget_cases (h : Sound s) (hs : s.bget p d n = some s') :
    (∃ b < NBUF, (s.buf b).dev = d ∧ (s.buf b).blockno = n ∧
      s' = (s.set b { s.buf b with refcnt := uint ((s.buf b).refcnt + 1) }).refer p b d n) ∨
    (∀ b < NBUF, ¬ ((s.buf b).dev = d ∧ (s.buf b).blockno = n)) ∧
      ((∃ b < NBUF, (s.buf b).refcnt = 0 ∧
        s' = ((s.leave (s.buf b).dev (s.buf b).blockno none).set b
          { s.buf b with dev := d, blockno := n, valid := false, refcnt := 1 }).refer p b d n) ∨
      (∀ b < NBUF, (s.buf b).refcnt ≠ 0) ∧ s' = { s with panicked := some .noBuffers }) := by
  obtain ⟨l, hl, hperm⟩ := h.listed
  have hlen : l.length = NBUF := by rw [hperm.length_eq, List.length_range]
  have hmem : ∀ {b}, Node.buf b ∈ l.map Node.buf ↔ b < NBUF := by
    intro b
    rw [List.mem_map_of_injective (fun _ _ heq => Node.buf.inj heq), hperm.mem_iff, List.mem_range]
  have hhead : Node.head ∉ l.map Node.buf := (List.nodup_cons.mp hl.nodup).1
  have hhead' : Node.head ∉ (l.map Node.buf).reverse := fun hmem => hhead (List.mem_reverse.mp hmem)
  unfold State.bget at hs
  rw [hl.walk hlen trivial] at hs
  rcases find_cases (s.isCached d n) _ hhead with ⟨heq, hnone⟩ | ⟨b, heq, hb, hdev, hblockno⟩
  · have hnone' : ∀ b < NBUF, ¬ ((s.buf b).dev = d ∧ (s.buf b).blockno = n) := fun b hb =>
      hnone (.buf b) (hmem.mpr hb)
    rw [heq] at hs
    simp only at hs
    rw [hl.walk_back hlen trivial] at hs
    refine Or.inr ⟨hnone', ?_⟩
    rcases find_cases s.isUnused _ hhead' with ⟨heq, hused⟩ | ⟨b, heq, hb, hunused⟩
    · rw [heq] at hs
      refine Or.inr ⟨?_, (Option.some.inj hs).symm⟩
      intro b hb
      exact hused (.buf b) (List.mem_reverse.mpr (hmem.mpr hb))
    · rw [heq] at hs
      exact Or.inl ⟨b, hmem.mp (List.mem_reverse.mp hb), hunused, (Option.some.inj hs).symm⟩
  · rw [heq] at hs
    exact Or.inl ⟨b, hmem.mp hb, hdev, hblockno, (Option.some.inj hs).symm⟩

theorem Sound.bget (h : Sound s) (hidle : s.pc p = .idle) (hd : d ≠ 0)
    (hsmall : ∀ b < NBUF, (s.buf b).dev = d → (s.buf b).blockno = n → s.refs b + 1 < 4294967296)
    (hs : s.bget p d n = some s') : Sound s' := by
  rcases h.bget_cases hs with ⟨b, hb, hdev, hblockno, rfl⟩ | ⟨hnone, ⟨b, hb, hzero, rfl⟩ | ⟨-, rfl⟩⟩
  · have hsmall := hsmall b hb hdev hblockno
    have hrefcnt : uint ((s.buf b).refcnt + 1) = s.refs b + 1 := by
      rw [h.counts.counts b hb]
      exact uint_succ hsmall
    rw [hrefcnt]
    generalize hx : ({ s.buf b with refcnt := s.refs b + 1 } : Buf D) = x
    have hcount : x.refcnt = s.refs b + 1 := by rw [← hx]
    have hxdev : x.dev = (s.buf b).dev := by rw [← hx]
    have hxblockno : x.blockno = (s.buf b).blockno := by rw [← hx]
    have hxlock : x.lock = (s.buf b).lock := by rw [← hx]
    have hxvalid : x.valid = (s.buf b).valid := by rw [← hx]
    have hxdata : x.data = (s.buf b).data := by rw [← hx]
    refine ⟨h.listed, ?_, ?_, ?_⟩
    · exact (h.table.set hxdev hxblockno hxvalid hxdata).same rfl rfl
    · exact h.counts.refer hidle hsmall hxlock hcount
    · apply (h.calls.set hxdev hxblockno hxlock (fun hv => hxvalid.trans hv)).refer hidle hb hd
      · rw [set_self, hxdev, hdev]
      · rw [set_self, hxblockno, hblockno]
  · have hunused := h.counts.unused hb hzero
    generalize hx : ({ s.buf b with dev := d, blockno := n, valid := false, refcnt := 1 } : Buf D) = x
    have hcount : x.refcnt = s.refs b + 1 := by
      rw [← hx, ← h.counts.counts b hb, hzero]
    have hxdev : x.dev = d := by rw [← hx]
    have hxblockno : x.blockno = n := by rw [← hx]
    have hxlock : x.lock = (s.buf b).lock := by rw [← hx]
    have hxvalid : x.valid = false := by rw [← hx]
    refine ⟨h.listed, ?_, ?_, ?_⟩
    · exact (h.table.recycle hb hd hnone hxdev hxblockno hxvalid).same rfl rfl
    · have hleave : Counts (s.leave (s.buf b).dev (s.buf b).blockno none) :=
        ⟨h.counts.counts, h.counts.small, h.counts.claims⟩
      have hrefs : s.refs b = 0 := by rw [← h.counts.counts b hb, hzero]
      apply hleave.refer hidle _ hxlock hcount
      change s.refs b + 1 < 4294967296
      omega
    · have hleave : Calls (s.leave (s.buf b).dev (s.buf b).blockno none) :=
        ⟨h.calls.asked, h.calls.reading, h.calls.releasing, h.calls.locked⟩
      apply (hleave.recycle hxlock hunused).refer hidle hb hd
      · rw [set_self, hxdev]
      · rw [set_self, hxblockno]
  · exact h.of_eq rfl rfl rfl rfl rfl rfl

/-- The claim of the process that waits becomes that of the holder. -/
theorem Counts.acquire (h : Counts s) (hpc : s.pc p = .locking b d n) (hfree : (s.buf b).lock = none)
    {x : Buf D} (hlock : x.lock = some p) (hcount : x.refcnt = (s.buf b).refcnt) :
    Counts ((s.set b x).goto p (.reading b d n)) := by
  have hbuf : ∀ c, ((s.set b x).goto p (.reading b d n)).buf c = (s.set b x).buf c := fun _ => rfl
  have hpcs : ∀ q, ((s.set b x).goto p (.reading b d n)).pc q =
      if q = p then .reading b d n else s.pc q := fun q => Function.update_apply ..
  have hcounts : ∀ c < NBUF,
      (((s.set b x).goto p (.reading b d n)).buf c).refcnt = (s.buf c).refcnt := by
    intro c _
    rw [hbuf]
    by_cases hcb : c = b
    · subst hcb
      rw [set_self, hcount]
    · rw [set_of_ne x hcb]
  apply h.of_eq hcounts rfl rfl
  intro c hc q
  unfold State.claims
  rw [hbuf, hpcs]
  by_cases hqp : q = p
  · subst hqp
    rw [if_pos rfl, hpc]
    by_cases hcb : c = b
    · subst hcb
      rw [set_self, hlock, hfree]
      simp [Pc.on]
    · rw [set_of_ne x hcb]
      simp [Pc.on]
  · rw [if_neg hqp]
    by_cases hcb : c = b
    · subst hcb
      rw [set_self, hlock, hfree]
      simp [Ne.symm hqp]
    · apply Nat.le_of_eq
      rw [set_of_ne x hcb]

theorem Sound.acquire (h : Sound s) (hs : s.acquire p = some s') : Sound s' := by
  unfold State.acquire at hs
  split at hs
  · rename_i b d n hpc
    obtain ⟨hfree, heq⟩ := Option.ite_none_right_eq_some.mp hs
    obtain rfl := Option.some.inj heq
    have hcalls := h.calls.acquire hpc hfree
    generalize hx : ({ s.buf b with lock := some p } : Buf D) = x at hcalls
    refine ⟨h.listed, ?_, ?_, hcalls⟩
    · have htable : Table (s.set b x) := by
        apply h.table.set <;> rw [← hx]
      exact htable.same rfl rfl
    · apply h.counts.acquire hpc hfree <;> rw [← hx]
  · cases hs

theorem Counts.set (h : Counts s) {x : Buf D} (hlock : x.lock = (s.buf b).lock)
    (hcount : x.refcnt = (s.buf b).refcnt) : Counts (s.set b x) := by
  have hsame : ∀ c, ((s.set b x).buf c).refcnt = (s.buf c).refcnt ∧
      ((s.set b x).buf c).lock = (s.buf c).lock := by
    intro c
    by_cases hcb : c = b
    · subst hcb
      rw [set_self]
      exact ⟨hcount, hlock⟩
    · rw [set_of_ne x hcb]
      exact ⟨rfl, rfl⟩
  apply h.of_eq (fun c _ => (hsame c).1) rfl rfl
  intro c _ q
  unfold State.claims
  rw [(hsame c).2]
  exact Nat.le_refl _

/-- A process goes on to a place where it does not wait for a buffer. -/
theorem Counts.goto (h : Counts s) {pc : Pc} (hon : ∀ c, pc.on c = 0) : Counts (s.goto p pc) := by
  apply h.of_eq (fun c _ => show ((s.goto p pc).buf c).refcnt = (s.buf c).refcnt from rfl) rfl rfl
  intro c _ q
  apply Nat.add_le_add_left
  by_cases hqp : q = p
  · rw [hqp, goto_self, hon]
    exact Nat.zero_le _
  · apply Nat.le_of_eq
    rw [goto_of_ne pc hqp]

/-- `bread` returns the buffer of the block, with what was left in it or what is on the disk. -/
theorem Sound.bread (h : Sound s) (hpc : s.pc p = .reading b d n) (hs : s.bread p = some s') :
    Sound s' ∧ (s'.buf b).dev = d ∧ (s'.buf b).blockno = n ∧ (s'.buf b).lock = some p ∧
      (s'.buf b).data = (s.left d n).getD (s.disk d n) := by
  obtain ⟨hb, hd, hdev, hblockno⟩ := h.calls.asked p b d n (Or.inr hpc)
  have hlock := h.calls.reading p b d n hpc
  have hne : (s.buf b).dev ≠ 0 := by rwa [hdev]
  have hleft := h.table.left b hb hne
  rw [hdev, hblockno] at hleft
  have hidle : ∀ b d n, (Pc.idle ≠ .locking b d n ∧ Pc.idle ≠ .reading b d n) := fun _ _ _ =>
    ⟨fun heq => Pc.noConfusion heq, fun heq => Pc.noConfusion heq⟩
  have hother : ∀ b', Pc.idle = .releasing b' → b' < NBUF := fun _ heq => Pc.noConfusion heq
  unfold State.bread at hs
  rw [hpc] at hs
  simp only at hs
  by_cases hvalid : (s.buf b).valid = true
  · rw [if_pos hvalid] at hs
    obtain rfl := Option.some.inj hs
    rw [if_pos hvalid] at hleft
    refine ⟨⟨h.listed, h.table.same rfl rfl, h.counts.goto fun _ => rfl, ?_⟩, hdev, hblockno, hlock, ?_⟩
    · apply h.calls.goto hidle hother
      intro c d' n' hq
      rw [hpc] at hq
      cases hq
      exact hvalid
    · rw [hleft]
      rfl
  · rw [if_neg hvalid] at hs
    rw [if_neg hvalid] at hleft
    obtain rfl := Option.some.inj hs
    generalize hx : ({ s.buf b with valid := true, data := s.disk (s.buf b).dev (s.buf b).blockno } :
      Buf D) = x
    have hxdev : x.dev = (s.buf b).dev := by rw [← hx]
    have hxblockno : x.blockno = (s.buf b).blockno := by rw [← hx]
    have hxlock : x.lock = (s.buf b).lock := by rw [← hx]
    have hxvalid : x.valid = true := by rw [← hx]
    have hxcount : x.refcnt = (s.buf b).refcnt := by rw [← hx]
    have hxdata : x.data = s.disk (s.buf b).dev (s.buf b).blockno := by rw [← hx]
    rw [← hxdata]
    refine ⟨⟨h.listed, ?_, ?_, ?_⟩, ?_⟩
    · exact (h.table.put hb hne hxdev hxblockno hxvalid).same rfl rfl
    · have hcounts := h.counts.set hxlock hxcount
      apply Counts.goto _ fun _ => rfl
      exact ⟨hcounts.counts, hcounts.small, hcounts.claims⟩
    · have hset : Calls ((s.set b x).leave (s.buf b).dev (s.buf b).blockno (some x.data)) := by
        have hcalls := h.calls.set hxdev hxblockno hxlock (fun _ => hxvalid)
        exact ⟨hcalls.asked, hcalls.reading, hcalls.releasing, hcalls.locked⟩
      apply hset.goto hidle hother
      intro c d' n' hq
      change s.pc p = _ at hq
      rw [hpc] at hq
      cases hq
      change ((s.set b x).buf b).valid = true
      rw [set_self, hxvalid]
    · change ((s.set b x).buf b).dev = d ∧ ((s.set b x).buf b).blockno = n ∧
        ((s.set b x).buf b).lock = some p ∧ ((s.set b x).buf b).data = _
      rw [set_self, hxdev, hxblockno, hxlock, hxdata, hdev, hblockno, hleft]
      exact ⟨rfl, rfl, hlock, rfl⟩

theorem Sound.store {x : D} (h : Sound s) (hidle : s.pc p = .idle) (hb : b < NBUF)
    (hs : s.store p b x = some s') : Sound s' := by
  unfold State.store at hs
  obtain ⟨hlock, heq⟩ := Option.ite_none_right_eq_some.mp hs
  obtain rfl := Option.some.inj heq
  obtain ⟨hne, hv⟩ := h.calls.locked b p hlock
  have hvalid : (s.buf b).valid = true := by
    rcases hv with hv | ⟨d, n, hpc⟩
    · exact hv
    · rw [hidle] at hpc
      cases hpc
  refine ⟨h.listed, h.table.put hb hne rfl rfl hvalid, ?_, ?_⟩
  · have hcounts := h.counts.set (b := b) (x := { s.buf b with data := x }) rfl rfl
    exact ⟨hcounts.counts, hcounts.small, hcounts.claims⟩
  · have hcalls := h.calls.set (b := b) (x := { s.buf b with data := x }) rfl rfl rfl id
    exact ⟨hcalls.asked, hcalls.reading, hcalls.releasing, hcalls.locked⟩

theorem Sound.bwrite (h : Sound s) : Sound (s.bwrite p b) := by
  unfold State.bwrite
  simp only
  split
  · exact h.of_eq rfl rfl rfl rfl rfl rfl
  · exact h.of_eq rfl rfl rfl rfl rfl rfl

/-- The claim of the holder becomes that of the process at the end of `brelse`. -/
theorem Counts.unlock (h : Counts s) (hlocked : (s.buf b).lock = some p) {x : Buf D}
    (hlock : x.lock = none) (hcount : x.refcnt = (s.buf b).refcnt) :
    Counts ((s.set b x).goto p (.releasing b)) := by
  have hbuf : ∀ c, ((s.set b x).goto p (.releasing b)).buf c = (s.set b x).buf c := fun _ => rfl
  have hpcs : ∀ q, ((s.set b x).goto p (.releasing b)).pc q =
      if q = p then .releasing b else s.pc q := fun q => Function.update_apply ..
  have hcounts : ∀ c < NBUF, (((s.set b x).goto p (.releasing b)).buf c).refcnt = (s.buf c).refcnt := by
    intro c _
    rw [hbuf]
    by_cases hcb : c = b
    · subst hcb
      rw [set_self, hcount]
    · rw [set_of_ne x hcb]
  apply h.of_eq hcounts rfl rfl
  intro c _ q
  unfold State.claims
  rw [hbuf, hpcs]
  by_cases hcb : c = b
  · subst hcb
    rw [set_self, hlock, hlocked]
    by_cases hqp : q = p
    · rw [hqp]
      simp [Pc.on]
    · simp [hqp]
  · rw [set_of_ne x hcb]
    apply Nat.add_le_add_left
    by_cases hqp : q = p
    · rw [if_pos hqp]
      simp [Pc.on, Ne.symm hcb]
    · apply Nat.le_of_eq
      rw [if_neg hqp]

theorem Sound.brelse (h : Sound s) (hidle : s.pc p = .idle) (hb : b < NBUF) : Sound (s.brelse p b) := by
  unfold State.brelse
  by_cases hlock : (s.buf b).lock = some p
  · rw [if_pos hlock]
    have hread : ∀ q d n, s.pc q ≠ .reading b d n := by
      intro q d n hq
      have hheld := h.calls.reading q b d n hq
      rw [hlock] at hheld
      obtain rfl := Option.some.inj hheld
      rw [hidle] at hq
      cases hq
    refine ⟨h.listed, ?_, h.counts.unlock hlock rfl rfl, ?_⟩
    · exact (h.table.set (b := b) (x := { s.buf b with lock := none }) rfl rfl rfl rfl).same rfl rfl
    · apply (h.calls.unlock (b := b) (x := { s.buf b with lock := none }) rfl rfl rfl hread).goto
      · exact fun _ _ _ => ⟨fun heq => Pc.noConfusion heq, fun heq => Pc.noConfusion heq⟩
      · intro c heq
        cases heq
        exact hb
      · intro c d n hq
        change s.pc p = _ at hq
        rw [hidle] at hq
        cases hq
  · rw [if_neg hlock]
    exact h.of_eq rfl rfl rfl rfl rfl rfl

/-- The count goes down, and at 0 the buffer moves to the head of the list. -/
theorem Sound.release (h : Sound s) (hs : s.release p = some s') : Sound s' := by
  unfold State.release at hs
  split at hs
  · rename_i b hpc
    have hb := h.calls.releasing p b hpc
    generalize hx : ({ s.buf b with refcnt := uint ((s.buf b).refcnt + 4294967295) } : Buf D) = x at hs
    have hxdev : x.dev = (s.buf b).dev := by rw [← hx]
    have hxblockno : x.blockno = (s.buf b).blockno := by rw [← hx]
    have hxlock : x.lock = (s.buf b).lock := by rw [← hx]
    have hxvalid : x.valid = (s.buf b).valid := by rw [← hx]
    have hxdata : x.data = (s.buf b).data := by rw [← hx]
    have hxcount : x.refcnt = uint ((s.buf b).refcnt + 4294967295) := by rw [← hx]
    generalize ht : ({ s.set b x with users := Function.update s.users b ((s.users b).erase p) } :
      State D).goto p .idle = t at hs
    have htlinks : t.links = s.links := by rw [← ht]; rfl
    have hsound : Sound t := by
      refine ⟨?_, ?_, ?_, ?_⟩
      · rw [htlinks]
        exact h.listed
      · rw [← ht]
        exact (h.table.set hxdev hxblockno hxvalid hxdata).same rfl rfl
      · apply h.counts.release hpc hb hxlock hxcount
        all_goals
          rw [← ht]
          rfl
      · have hcalls := h.calls.set hxdev hxblockno hxlock (fun hv => hxvalid.trans hv)
        have husers : Calls { s.set b x with users := Function.update s.users b ((s.users b).erase p) } :=
          ⟨hcalls.asked, hcalls.reading, hcalls.releasing, hcalls.locked⟩
        rw [← ht]
        apply husers.goto
        · exact fun _ _ _ => ⟨fun heq => Pc.noConfusion heq, fun heq => Pc.noConfusion heq⟩
        · exact fun _ heq => Pc.noConfusion heq
        · intro c d n hq
          change s.pc p = _ at hq
          rw [hpc] at hq
          cases hq
    have hcase : s' = t ∨ s' = { t with links := (t.links.remove b).insert b } := by
      have hs : (if (t.buf b).refcnt = 0 then some { t with links := (t.links.remove b).insert b }
          else some t) = some s' := by
        rw [← ht]
        exact hs
      split at hs
      · exact Or.inr (Option.some.inj hs).symm
      · exact Or.inl (Option.some.inj hs).symm
    rcases hcase with rfl | rfl
    · exact hsound
    · obtain ⟨l, hl, hperm⟩ := hsound.listed
      obtain ⟨m, hm, hm'⟩ := hl.move (hperm.mem_iff.mpr (List.mem_range.mpr hb))
      refine ⟨⟨m, hm, hm'.trans hperm⟩, hsound.table.same rfl rfl, ?_, ?_⟩
      · exact ⟨hsound.counts.counts, hsound.counts.small, hsound.counts.claims⟩
      · exact ⟨hsound.calls.asked, hsound.calls.reading, hsound.calls.releasing, hsound.calls.locked⟩
  · cases hs

/-- The pins on a buffer change, and its count with them. -/
theorem Sound.pin (h : Sound s) (hb : b < NBUF) {m r : Nat} (hcount : r = m + (s.users b).length)
    (hsmall : m + (s.users b).length < 4294967296) :
    Sound { s.set b { s.buf b with refcnt := r } with pins := Function.update s.pins b m } := by
  refine ⟨h.listed, ?_, ?_, ?_⟩
  · exact (h.table.set (b := b) (x := { s.buf b with refcnt := r }) rfl rfl rfl rfl).same rfl rfl
  · exact h.counts.pin hb (x := { s.buf b with refcnt := r }) rfl hcount hsmall rfl
  · have hcalls := h.calls.set (b := b) (x := { s.buf b with refcnt := r }) rfl rfl rfl id
    exact ⟨hcalls.asked, hcalls.reading, hcalls.releasing, hcalls.locked⟩

theorem Sound.bpin (h : Sound s) (hb : b < NBUF) (hsmall : s.refs b + 1 < 4294967296) :
    Sound (s.bpin b) := by
  have hrefs : s.refs b = s.pins b + (s.users b).length := rfl
  apply h.pin hb
  · rw [h.counts.counts b hb, uint_succ hsmall]
    omega
  · omega

theorem Sound.bunpin (h : Sound s) (hb : b < NBUF) (hpos : 0 < s.pins b) : Sound (s.bunpin b) := by
  have hsmall := h.counts.small b hb
  have hrefs : s.refs b = s.pins b + (s.users b).length := rfl
  apply h.pin hb
  · rw [h.counts.counts b hb, uint_pred hsmall (by omega)]
    omega
  · omega

theorem Sound.step {a : Act D} (h : Sound s) (hok : proper s a) (hs : bio.step s a = some s') :
    Sound s' := by
  unfold bio.step at hs
  by_cases hp : s.panicked = none
  · rw [if_neg (not_not.mpr hp)] at hs
    cases a with
    | bget p dev blockno =>
      obtain ⟨hidle, hs⟩ := Option.ite_none_right_eq_some.mp hs
      exact h.bget hidle hok.1 hok.2 hs
    | acquire p => exact h.acquire hs
    | bread p =>
      cases hpc : s.pc p with
      | reading b d n => exact (h.bread hpc hs).1
      | _ =>
        simp only [State.bread, hpc] at hs
        cases hs
    | store p b data =>
      obtain ⟨⟨hidle, hb⟩, hs⟩ := Option.ite_none_right_eq_some.mp hs
      exact h.store hidle hb hs
    | bwrite p b =>
      obtain ⟨-, hs⟩ := Option.ite_none_right_eq_some.mp hs
      obtain rfl := Option.some.inj hs
      exact h.bwrite
    | brelse p b =>
      obtain ⟨⟨hidle, hb⟩, hs⟩ := Option.ite_none_right_eq_some.mp hs
      obtain rfl := Option.some.inj hs
      exact h.brelse hidle hb
    | release p => exact h.release hs
    | bpin p b =>
      obtain ⟨⟨-, hb⟩, hs⟩ := Option.ite_none_right_eq_some.mp hs
      obtain rfl := Option.some.inj hs
      exact h.bpin hb hok.2
    | bunpin p b =>
      obtain ⟨⟨-, hb⟩, hs⟩ := Option.ite_none_right_eq_some.mp hs
      obtain rfl := Option.some.inj hs
      exact h.bunpin hb hok.1
  · rw [if_pos hp] at hs
    cases hs

/-! ## A buffer that is in use -/

/-- The buffer has the same block, and does not lose its data. -/
def Keeps (x y : Buf D) : Prop :=
  y.dev = x.dev ∧ y.blockno = x.blockno ∧ (x.valid = true → y.valid = true)

theorem keeps_refl (x : Buf D) : Keeps x x := ⟨rfl, rfl, id⟩

theorem keeps_update {c : Nat} {x : Buf D} (hbuf : s'.buf = Function.update s.buf c x)
    (hx : Keeps (s.buf c) x) (b : Nat) : Keeps (s.buf b) (s'.buf b) := by
  rw [hbuf]
  by_cases hbc : b = c
  · subst hbc
    rw [Function.update_self]
    exact hx
  · rw [Function.update_of_ne hbc]
    exact keeps_refl _

/-- Only a buffer with a count of 0 is recycled. -/
theorem Sound.keeps {a : Act D} (h : Sound s) (hs : bio.step s a = some s')
    (hpos : 0 < (s.buf b).refcnt) : Keeps (s.buf b) (s'.buf b) := by
  unfold bio.step at hs
  by_cases hp : s.panicked = none
  · rw [if_neg (not_not.mpr hp)] at hs
    cases a with
    | bget p d n =>
      obtain ⟨-, hs⟩ := Option.ite_none_right_eq_some.mp hs
      rcases h.bget_cases hs with ⟨c, -, -, -, rfl⟩ | ⟨-, ⟨c, -, hzero, rfl⟩ | ⟨-, rfl⟩⟩
      · generalize uint ((s.buf c).refcnt + 1) = r
        exact keeps_update (x := { s.buf c with refcnt := r }) rfl ⟨rfl, rfl, id⟩ b
      · have hbc : b ≠ c := by
          rintro rfl
          omega
        have hsame : ((s.leave (s.buf c).dev (s.buf c).blockno none).set c
            { s.buf c with dev := d, blockno := n, valid := false, refcnt := 1 }).buf b = s.buf b :=
          set_of_ne _ hbc
        change Keeps (s.buf b) (((s.leave (s.buf c).dev (s.buf c).blockno none).set c
            { s.buf c with dev := d, blockno := n, valid := false, refcnt := 1 }).buf b)
        rw [hsame]
        exact keeps_refl _
      · exact keeps_refl _
    | acquire p =>
      simp only [State.acquire] at hs
      split at hs
      · rename_i c _ _ _
        obtain ⟨-, hs⟩ := Option.ite_none_right_eq_some.mp hs
        obtain rfl := Option.some.inj hs
        exact keeps_update (x := { s.buf c with lock := some p }) rfl ⟨rfl, rfl, id⟩ b
      · cases hs
    | bread p =>
      simp only [State.bread] at hs
      split at hs
      · rename_i c _ _ _
        split at hs
        · obtain rfl := Option.some.inj hs
          exact keeps_refl _
        · obtain rfl := Option.some.inj hs
          exact keeps_update
            (x := { s.buf c with valid := true, data := s.disk (s.buf c).dev (s.buf c).blockno })
            rfl ⟨rfl, rfl, fun _ => rfl⟩ b
      · cases hs
    | store p c data =>
      obtain ⟨-, hs⟩ := Option.ite_none_right_eq_some.mp hs
      obtain ⟨-, hs⟩ := Option.ite_none_right_eq_some.mp hs
      obtain rfl := Option.some.inj hs
      exact keeps_update (x := { s.buf c with data }) rfl ⟨rfl, rfl, id⟩ b
    | bwrite p c =>
      obtain ⟨-, hs⟩ := Option.ite_none_right_eq_some.mp hs
      obtain rfl := Option.some.inj hs
      simp only [State.bwrite]
      split <;> exact keeps_refl _
    | brelse p c =>
      obtain ⟨-, hs⟩ := Option.ite_none_right_eq_some.mp hs
      obtain rfl := Option.some.inj hs
      simp only [State.brelse]
      split
      · exact keeps_update (x := { s.buf c with lock := none }) rfl ⟨rfl, rfl, id⟩ b
      · exact keeps_refl _
    | release p =>
      simp only [State.release] at hs
      split at hs
      · rename_i c _
        generalize uint ((s.buf c).refcnt + 4294967295) = r at hs
        split at hs
        · obtain rfl := Option.some.inj hs
          exact keeps_update (x := { s.buf c with refcnt := r }) rfl ⟨rfl, rfl, id⟩ b
        · obtain rfl := Option.some.inj hs
          exact keeps_update (x := { s.buf c with refcnt := r }) rfl ⟨rfl, rfl, id⟩ b
      · cases hs
    | bpin p c =>
      obtain ⟨-, hs⟩ := Option.ite_none_right_eq_some.mp hs
      obtain rfl := Option.some.inj hs
      unfold State.bpin
      generalize uint ((s.buf c).refcnt + 1) = r
      exact keeps_update (x := { s.buf c with refcnt := r }) rfl ⟨rfl, rfl, id⟩ b
    | bunpin p c =>
      obtain ⟨-, hs⟩ := Option.ite_none_right_eq_some.mp hs
      obtain rfl := Option.some.inj hs
      unfold State.bunpin
      generalize uint ((s.buf c).refcnt + 4294967295) = r
      exact keeps_update (x := { s.buf c with refcnt := r }) rfl ⟨rfl, rfl, id⟩ b
  · rw [if_pos hp] at hs
    cases hs

/-! ## Runs -/

variable {as : List (Act D)} {links : Links} {data : Nat → D} {disk : Nat → Nat → D}

theorem sound_start : Sound (State.start links data disk) := by
  refine ⟨binit_listed links, ?_, ?_, ?_⟩
  · constructor
    · intro b _ b' _ hne
      exact absurd rfl hne
    · intro b _ hne
      exact absurd rfl hne
    · intro d n _ _
      rfl
  · exact ⟨fun _ _ => rfl, fun _ _ => Nat.zero_lt_succ _, fun _ _ _ => Nat.le_refl _⟩
  · constructor
    · rintro p b d n (hpc | hpc) <;> cases hpc
    · intro p b d n hpc
      cases hpc
    · intro p b hpc
      cases hpc
    · intro b p hlock
      cases hlock

theorem sound_run (hrun : Run bio.step proper (State.start links data disk) as s) : Sound s :=
  hrun.invariant sound_start fun _ _ _ h hok hs => h.step hok hs

/-- Whatever processes do with the cache, the list has every buffer once, no two buffers are for
one block, a buffer that is in use keeps its block, and `bread` gives what was left in the buffer,
or what is on the disk. -/
theorem buffers_are_coherent (hrun : Run bio.step proper (State.start links data disk) as s) :
    (∃ l : List Nat, Ring s.links.next s.links.prev .head (l.map Node.buf) ∧
      l.Perm (List.range NBUF)) ∧
    (∀ b < NBUF, ∀ b' < NBUF, (s.buf b).dev ≠ 0 → (s.buf b').dev = (s.buf b).dev →
      (s.buf b').blockno = (s.buf b).blockno → b' = b) ∧
    (∀ b < NBUF, (s.buf b).refcnt = s.pins b + (s.users b).length ∧
      ∀ p, (s.buf b).lock = some p → p ∈ s.users b) ∧
    ∀ a s', proper s a → bio.step s a = some s' →
      (∀ b < NBUF, 0 < (s.buf b).refcnt → Keeps (s.buf b) (s'.buf b)) ∧
      ∀ p b d n, a = .bread p → s.pc p = .reading b d n →
        (s'.buf b).dev = d ∧ (s'.buf b).blockno = n ∧ (s'.buf b).lock = some p ∧
          (s'.buf b).data = (s.left d n).getD (s.disk d n) := by
  have h := sound_run hrun
  refine ⟨h.listed, h.table.one, ?_, ?_⟩
  · intro b hb
    refine ⟨h.counts.counts b hb, ?_⟩
    intro p hlock
    have hclaims := h.counts.claims b hb p
    unfold State.claims at hclaims
    rw [if_pos hlock] at hclaims
    apply List.count_pos_iff.mp
    omega
  · intro a s' _ hs
    refine ⟨fun b _ hpos => h.keeps hs hpos, ?_⟩
    rintro p b d n rfl hpc
    have hs' : s.bread p = some s' := by
      unfold bio.step at hs
      split at hs
      · cases hs
      · exact hs
    exact (h.bread hpc hs').2

/-- The state of the machine before the first call. -/
def booted : State Nat := State.start ⟨fun _ => .head, fun _ => .head⟩ (fun _ => 0) fun _ n => n

/-- One process leaves 42 in the buffer of a block, and another one is about to read it. -/
def passedOn : List (Act Nat) :=
  [.bget 0 1 5, .acquire 0, .bread 0, .store 0 0 42, .brelse 0 0, .bget 1 1 5, .release 0, .acquire 1]

theorem what_was_left_is_read : ∃ s s', Run bio.step proper booted passedOn s ∧
    bio.step s (.bread 1) = some s' ∧ (s'.buf 0).data = 42 := by
  have hrun : (exec bio.step proper booted passedOn).map (fun s =>
      (s.pc 1, s.left 1 5, (bio.step s (.bread 1)).isSome)) = some (.reading 0 1 5, some 42, true) := by
    decide +kernel
  obtain ⟨s, hs, heq⟩ := Option.map_eq_some_iff.mp hrun
  obtain ⟨hpc, hleft, hstep⟩ : s.pc 1 = .reading 0 1 5 ∧ s.left 1 5 = some 42 ∧
      (bio.step s (.bread 1)).isSome = true := by simpa using heq
  obtain ⟨s', hs'⟩ := Option.isSome_iff_exists.mp hstep
  obtain ⟨-, -, -, hread⟩ := buffers_are_coherent (run_of_exec hs)
  obtain ⟨-, hdata⟩ := hread (.bread 1) s' ⟨trivial, trivial⟩ hs'
  obtain ⟨-, -, -, hdata⟩ := hdata 1 0 1 5 rfl hpc
  refine ⟨s, s', run_of_exec hs, hs', ?_⟩
  rw [hdata, hleft]
  rfl

/-! ## More references than a `uint` can count -/

/-- After `k` pins. -/
def State.pinned (s : State D) (b k : Nat) : State D :=
  { s.set b { s.buf b with refcnt := uint ((s.buf b).refcnt + k) } with
    pins := Function.update s.pins b (s.pins b + k) }

theorem bpin_pinned (s : State D) (b k : Nat) : (s.pinned b k).bpin b = s.pinned b (k + 1) := by
  have hcount : uint (uint ((s.buf b).refcnt + k) + 1) = uint ((s.buf b).refcnt + (k + 1)) := by
    unfold uint
    omega
  unfold State.bpin State.pinned State.set
  simp only [Function.update_self, Function.update_idem, hcount, Nat.add_assoc]

theorem run_bpin (hidle : s.pc p = .idle) (hp : s.panicked = none) (hb : b < NBUF)
    (hcount : (s.buf b).refcnt < 4294967296) (k : Nat) :
    Run bio.step paired s (List.replicate k (.bpin p b)) (s.pinned b k) := by
  induction k with
  | zero =>
    have hsame : s.pinned b 0 = s := by
      have hmod : uint (s.buf b).refcnt = (s.buf b).refcnt := Nat.mod_eq_of_lt hcount
      unfold State.pinned State.set
      simp only [Nat.add_zero, hmod, Function.update_eq_self]
    rw [hsame]
    exact .nil
  | succ k ih =>
    rw [List.replicate_succ']
    refine ih.snoc (show paired (s.pinned b k) (.bpin p b) from trivial) ?_
    have hcall : (s.pinned b k).calls p b := ⟨hidle, hb⟩
    have hpk : ¬ (s.pinned b k).panicked ≠ none := not_not.mpr hp
    unfold bio.step
    rw [if_neg hpk]
    simp only
    rw [if_pos hcall, bpin_pinned]

/-- Process 0 has the buffer of block 5, and process 1 waits for it. -/
def waiting : List (Act Nat) := [.bget 0 1 5, .acquire 0, .bread 0, .bget 1 1 5]

/-- Process 2 asks for block 6, and process 1 gets the lock. -/
def taken : List (Act Nat) := [.bget 2 1 6, .brelse 0 0, .acquire 1]

/-- With 2 ^ 32 references the count is 0, and the buffer is recycled under a process that waits
for it: `bread` of block 5 returns block 6. -/
theorem a_pinned_buffer_is_recycled : ∃ as s s', Run bio.step paired booted as s ∧
    s.pc 1 = .reading 0 1 5 ∧ bio.step s (.bread 1) = some s' ∧ (s'.buf 0).blockno = 6 ∧
    (s'.buf 0).data ≠ (s.left 1 5).getD (s.disk 1 5) := by
  have hfirst : (exec bio.step paired booted waiting).isSome := by decide +kernel
  obtain ⟨s, hs⟩ := Option.isSome_iff_exists.mp hfirst
  have hfacts : (exec bio.step paired booted waiting).map (fun s =>
      (s.pc 0, s.panicked, (s.buf 0).refcnt)) = some (.idle, none, 2) := by decide +kernel
  have hlast : ((exec bio.step paired booted waiting).bind fun s =>
      (exec bio.step paired (s.pinned 0 4294967294) taken).map fun s =>
        (s.pc 1, s.left 1 5, s.disk 1 5,
          (bio.step s (.bread 1)).map fun s' => ((s'.buf 0).blockno, (s'.buf 0).data))) =
      some (.reading 0 1 5, none, 5, some (6, 6)) := by decide +kernel
  rw [hs] at hfacts hlast
  obtain ⟨hidle, hp, hcount⟩ : s.pc 0 = .idle ∧ s.panicked = none ∧ (s.buf 0).refcnt = 2 := by
    simpa using hfacts
  obtain ⟨t, ht, heq⟩ := Option.map_eq_some_iff.mp hlast
  obtain ⟨hpc, hleft, hdisk, hread⟩ : t.pc 1 = .reading 0 1 5 ∧ t.left 1 5 = none ∧ t.disk 1 5 = 5 ∧
      (bio.step t (.bread 1)).map (fun s' => ((s'.buf 0).blockno, (s'.buf 0).data)) = some (6, 6) := by
    simpa using heq
  obtain ⟨t', ht', heq'⟩ := Option.map_eq_some_iff.mp hread
  obtain ⟨hblockno, hdata⟩ := Prod.mk.inj heq'
  have hpins := run_bpin hidle hp (show 0 < NBUF by decide) (by rw [hcount]; decide) 4294967294
  refine ⟨_, t, t', ((run_of_exec hs).append hpins).append (run_of_exec ht), hpc, ht', hblockno, ?_⟩
  rw [hdata, hleft, hdisk]
  decide

end xv6.bio
