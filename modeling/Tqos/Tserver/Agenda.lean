import Mathlib.Data.List.Range
import Tqos.Tserver.State
import Tqos.Tserver.TimerTree

/-!
# What the timers are to do

An agenda says what is pending and what has been run, with deadlines that do not wrap. Timers are
made by calls of `tq_timer_new`, which come from outside or from a handler while it runs; what a
handler does is no more than the list of the calls it makes. The loop of `expire_timers` looks at
the earliest deadline, as 32 bits show it, and goes on until it is not due.

## Main results

* `Agenda.Sound` — every timer that was made is pending or has been run, once and not too early
* `Agenda.expireLoop_still` — what a call of `expire_timers` does while the clock stands still
-/

namespace Tqos

/-- A timer: the how-manieth it was, and the block it lives in. -/
structure Timer (ι : Type) where
  serial : ℕ
  block : ι
deriving DecidableEq

/-- A call of `tq_timer_new`, with the second it reads and the block it gets from `malloc`. Of what
`arg` points to, the node is kept. -/
structure NewTimer (ι : Type) where
  arg : Option (RbtreeNode ι)
  s : Int32
  clock : ℕ
  block : ι

/-- The second from which on the timer is due. -/
def NewTimer.deadline {ι : Type} (c : NewTimer ι) : ℕ := c.clock + c.s.toNatClampNeg

/-- What the server calls outside of handlers. -/
inductive TimerCall (ι : Type)
  | tqTimerNew (c : NewTimer ι)
  | timeUpdate (clock : ℕ)
  | expireTimers (scripts : List (List (NewTimer ι)))

/-- How many timers a call makes at most. -/
def TimerCall.size {ι : Type} : TimerCall ι → ℕ
  | .tqTimerNew _ => 1
  | .timeUpdate _ => 0
  | .expireTimers scripts => scripts.flatten.length

/-- What is pending at a second, and what has been run and when. -/
structure Agenda (ι : Type) where
  clock : ℕ
  made : ℕ
  queue : DeadlineQueue (Timer ι)
  ran : List (Timed (Timer ι) × ℕ)

/-- Whether a deadline has come as far as the sign of a difference of 32 bits shows. -/
def looksDue (now key : ℕ) : Bool := decide ((UInt32.ofNat key - UInt32.ofNat now).toInt32 ≤ 0)

namespace Agenda

variable {ι : Type}

/-- The agenda after `timer_init`. -/
def start : Agenda ι := ⟨0, 0, .empty, []⟩

/-- A timer is made. -/
def new (a : Agenda ι) (c : NewTimer ι) : Agenda ι :=
  { a with
    clock := c.clock
    made := a.made + 1
    queue := a.queue.add ⟨c.deadline, a.made, c.block⟩ }

/-- The clock is read. -/
def update (a : Agenda ι) (clock : ℕ) : Agenda ι := { a with clock := clock }

/-- The earliest timer is run. -/
def runHead (a : Agenda ι) (x : Timed (Timer ι)) : Agenda ι :=
  { a with queue := a.queue.tail, ran := a.ran ++ [(x, a.clock)] }

/-- The loop of `expire_timers`; each handler that is run makes the next of the given lists of
calls, and none when there is no list left. -/
def expireLoop : ℕ → List (List (NewTimer ι)) → Agenda ι → Agenda ι
  | 0, _, a => a
  | n + 1, scripts, a =>
    match a.queue.items with
    | [] => a
    | x :: _ =>
      if looksDue a.clock x.key then
        expireLoop n scripts.tail ((scripts.headD []).foldl new (a.runHead x))
      else a

/-- A turn for every timer there is or can be, and one more. -/
def turns (a : Agenda ι) (scripts : List (List (NewTimer ι))) : ℕ :=
  a.queue.items.length + scripts.flatten.length + 1

/-- `expire_timers`. -/
def expire (a : Agenda ι) (scripts : List (List (NewTimer ι))) : Agenda ι :=
  expireLoop (a.turns scripts) scripts a

/-- The timers that are due. -/
def due (a : Agenda ι) : List (Timed (Timer ι)) :=
  a.queue.items.filter fun x => decide (x.key ≤ a.clock)

/-- The timers that are due later. -/
def later (a : Agenda ι) : List (Timed (Timer ι)) :=
  a.queue.items.filter fun x => decide (a.clock < x.key)

/-- The timers that calls make. -/
def timersOf : ℕ → List (NewTimer ι) → List (Timed (Timer ι))
  | _, [] => []
  | made, c :: cs => ⟨c.deadline, made, c.block⟩ :: timersOf (made + 1) cs

/-! ## What may be called -/

/-- The pending deadlines are in one window shorter than half of the range of the counter. -/
def InWindow (a : Agenda ι) : Prop := ∃ w, ∀ x ∈ a.queue.items, w ≤ x.key ∧ x.key < w + 2 ^ 31

/-- A call with a delay that is long enough, from a clock that has not gone back, for which `malloc`
has found a block, and whose deadline is in a window with those that are pending. -/
structure NewAllowed (s : ι) (a : Agenda ι) (c : NewTimer ι) : Prop where
  clock_le : a.clock ≤ c.clock
  lazy_le : (timerLazyDelay : ℤ) ≤ c.s.toInt
  ne_sentinel : c.block ≠ s
  fresh : ∀ x ∈ a.queue.items, x.handler.block ≠ c.block
  inWindow : (a.new c).InWindow

/-- Calls in turn. -/
def AllNewAllowed (s : ι) : Agenda ι → List (NewTimer ι) → Prop
  | _, [] => True
  | a, c :: cs => NewAllowed s a c ∧ AllNewAllowed s (a.new c) cs

/-- The calls of the handlers the loop runs. -/
def LoopAllowed (s : ι) : ℕ → List (List (NewTimer ι)) → Agenda ι → Prop
  | 0, _, _ => True
  | n + 1, scripts, a =>
    match a.queue.items with
    | [] => True
    | x :: _ => looksDue a.clock x.key = true →
      AllNewAllowed s (a.runHead x) (scripts.headD []) ∧
        LoopAllowed s n scripts.tail ((scripts.headD []).foldl new (a.runHead x))

/-! ## Calls from outside -/

/-- A call. -/
def call (a : Agenda ι) : TimerCall ι → Agenda ι
  | .tqTimerNew c => a.new c
  | .timeUpdate clock => a.update clock
  | .expireTimers scripts => a.expire scripts

/-- What may be called now. -/
def CallAllowed (s : ι) (a : Agenda ι) : TimerCall ι → Prop
  | .tqTimerNew c => NewAllowed s a c
  | .timeUpdate clock => a.clock ≤ clock
  | .expireTimers scripts => LoopAllowed s (a.turns scripts) scripts a

/-- Calls in turn. -/
def AllCallsAllowed (s : ι) : Agenda ι → List (TimerCall ι) → Prop
  | _, [] => True
  | a, c :: cs => CallAllowed s a c ∧ AllCallsAllowed s (a.call c) cs

/-! ## Deadlines -/

section Due

variable {now key : ℕ}

theorem toInt32_nonpos_iff (d : UInt32) : d.toInt32 ≤ 0 ↔ d.toNat = 0 ∨ 2 ^ 31 ≤ d.toNat := by
  have htoInt : d.toInt32.toInt =
      if 2 * d.toNat < 2 ^ 32 then (d.toNat : ℤ) else d.toNat - 2 ^ 32 :=
    BitVec.toInt_eq_toNat_cond d.toBitVec
  rw [Int32.le_iff_toInt_le, htoInt]
  show _ ≤ (0 : ℤ) ↔ _
  have := d.toNat_lt
  split <;> omega

theorem toNat_ofNat_sub (now key : ℕ) :
    (UInt32.ofNat key - UInt32.ofNat now).toNat =
      (2 ^ 32 - now % 2 ^ 32 + key % 2 ^ 32) % 2 ^ 32 := by
  rw [UInt32.toNat_sub, UInt32.toNat_ofNat', UInt32.toNat_ofNat']

/-- A deadline that is not far in the future and looks due is. -/
theorem le_of_looksDue (hfar : key < now + 2 ^ 31) (h : looksDue now key = true) : key ≤ now := by
  rw [looksDue, decide_eq_true_iff, toInt32_nonpos_iff, toNat_ofNat_sub] at h
  omega

/-- A deadline that is due and has not passed long ago looks due. -/
theorem looksDue_of_le (hle : key ≤ now) (hlong : now ≤ key + 2 ^ 31) :
    looksDue now key = true := by
  rw [looksDue, decide_eq_true_iff, toInt32_nonpos_iff, toNat_ofNat_sub]
  omega

end Due

/-! ## Once and not too early -/

section Sound

variable {s : ι} {a : Agenda ι} {c : NewTimer ι} {cs : List (NewTimer ι)} {x : Timed (Timer ι)}
  {l : List (Timed (Timer ι))} {scripts : List (List (NewTimer ι))} {n : ℕ}

/-- The order in which timers are run: by their deadlines, and those with the same deadline as they
were made. -/
def Before (x y : Timed (Timer ι)) : Prop :=
  x.key < y.key ∨ x.key = y.key ∧ x.handler.serial < y.handler.serial

/-- What holds of an agenda at any time. -/
structure Sound (a : Agenda ι) : Prop where
  /-- Every timer that was made has been run or is pending, and once. -/
  serials : (a.ran.map (fun r => r.1.handler.serial) ++
    a.queue.items.map fun x => x.handler.serial).Perm (List.range a.made)
  /-- What has been run was due. -/
  punctual : ∀ r ∈ a.ran, r.1.key ≤ r.2
  /-- No deadline is far in the future. -/
  ahead : ∀ x ∈ a.queue.items, x.key < a.clock + 2 ^ 31
  /-- Pending timers are in the order in which they are to be run. -/
  ordered : a.queue.items.Pairwise Before

theorem sound_start : (start : Agenda ι).Sound :=
  ⟨List.Perm.refl _, List.forall_mem_nil _, List.forall_mem_nil _, .nil⟩

/-- A delay is less than half of the range. -/
theorem toNatClampNeg_lt (d : Int32) : d.toNatClampNeg < 2 ^ 31 := by
  have hlt : d.toInt < 2 ^ 31 := Int32.toInt_lt d
  rw [Int32.toNatClampNeg]
  omega

/-- The clock goes on. -/
theorem Sound.update (h : a.Sound) {clock : ℕ} (hle : a.clock ≤ clock) :
    (a.update clock).Sound :=
  ⟨h.serials, h.punctual, fun x hx => (h.ahead x hx).trans_le (Nat.add_le_add_right hle _),
    h.ordered⟩

/-- **A timer is made.** -/
theorem Sound.new (h : a.Sound) (hle : a.clock ≤ c.clock) : (a.new c).Sound := by
  obtain ⟨l₁, l₂, hq, hadd, h₁, h₂⟩ := a.queue.exists_items_add ⟨c.deadline, a.made, c.block⟩
  have hitems : (a.new c).queue.items = l₁ ++ ⟨c.deadline, a.made, c.block⟩ :: l₂ := hadd
  have hserial : ∀ x ∈ a.queue.items, x.handler.serial < a.made := by
    intro x hx
    have hmem := h.serials.subset
      (List.mem_append_right _ (List.mem_map_of_mem (f := fun x => x.handler.serial) hx))
    exact List.mem_range.mp hmem
  refine ⟨?_, h.punctual, fun x hx => ?_, ?_⟩
  · have hperm := h.serials
    rw [hq, List.map_append, ← List.append_assoc] at hperm
    show (a.ran.map _ ++ (a.new c).queue.items.map _).Perm (List.range (a.made + 1))
    rw [hitems, List.map_append, List.map_cons, ← List.append_assoc, List.range_succ]
    exact List.perm_middle.trans
      ((hperm.cons a.made).trans (List.perm_append_singleton _ _).symm)
  · show x.key < c.clock + 2 ^ 31
    rcases DeadlineQueue.mem_items_add.mp hx with rfl | hx
    · exact Nat.add_lt_add_left (toNatClampNeg_lt c.s) _
    · exact (h.ahead x hx).trans_le (Nat.add_le_add_right hle _)
  · have hordered := h.ordered
    rw [hq] at hordered hserial
    obtain ⟨ho₁, ho₂, ho⟩ := List.pairwise_append.mp hordered
    rw [hitems]
    refine List.pairwise_append.mpr
      ⟨ho₁, List.pairwise_cons.mpr ⟨fun y hy => Or.inl (h₂ y hy), ho₂⟩, ?_⟩
    intro x hx y hy
    rcases List.mem_cons.mp hy with rfl | hy
    · have hlt := hserial x (List.mem_append_left _ hx)
      exact (h₁ x hx).lt_or_eq.imp id fun heq => ⟨heq, hlt⟩
    · exact ho x hx y hy

/-- **The earliest timer is run.** -/
theorem Sound.runHead (h : a.Sound) (hq : a.queue.items = x :: l)
    (hdue : looksDue a.clock x.key = true) : (a.runHead x).Sound := by
  have htail : (a.runHead x).queue.items = l := by
    show a.queue.items.tail = l
    rw [hq, List.tail_cons]
  have hx : x ∈ a.queue.items := by
    rw [hq]
    exact List.mem_cons_self
  have hl : ∀ y ∈ l, y ∈ a.queue.items := by
    rw [hq]
    exact fun y hy => List.mem_cons_of_mem _ hy
  refine ⟨?_, ?_, fun y hy => ?_, ?_⟩
  · have hperm := h.serials
    rw [hq] at hperm
    rw [htail]
    simpa [Agenda.runHead] using hperm
  · intro r hr
    rcases List.mem_append.mp hr with hr | hr
    · exact h.punctual r hr
    · rw [List.mem_singleton.mp hr]
      exact le_of_looksDue (h.ahead x hx) hdue
  · rw [htail] at hy
    exact h.ahead y (hl y hy)
  · have hordered := h.ordered
    rw [hq] at hordered
    rw [htail]
    exact (List.pairwise_cons.mp hordered).2

theorem Sound.foldl_new (h : a.Sound) (hcs : AllNewAllowed s a cs) :
    (cs.foldl Agenda.new a).Sound := by
  induction cs generalizing a with
  | nil => exact h
  | cons c cs ih => exact ih (h.new hcs.1.clock_le) hcs.2

/-- **A call of `expire_timers`.** -/
theorem Sound.expireLoop (h : a.Sound) (hallowed : LoopAllowed s n scripts a) :
    (expireLoop n scripts a).Sound := by
  induction n generalizing scripts a with
  | zero => exact h
  | succ n ih =>
    rw [Agenda.expireLoop]
    rw [LoopAllowed] at hallowed
    cases hq : a.queue.items with
    | nil => exact h
    | cons x l =>
      rw [hq] at hallowed
      dsimp only at hallowed ⊢
      by_cases hdue : looksDue a.clock x.key = true
      · rw [if_pos hdue]
        obtain ⟨hcs, hrest⟩ := hallowed hdue
        exact ih ((h.runHead hq hdue).foldl_new hcs) hrest
      · rw [if_neg hdue]
        exact h

/-- **At any time.** -/
theorem Sound.call (h : a.Sound) {call : TimerCall ι} (hallowed : CallAllowed s a call) :
    (a.call call).Sound := by
  cases call with
  | tqTimerNew c => exact h.new hallowed.clock_le
  | timeUpdate clock => exact h.update hallowed
  | expireTimers scripts => exact h.expireLoop hallowed

theorem Sound.foldl_call (h : a.Sound) {calls : List (TimerCall ι)}
    (hallowed : AllCallsAllowed s a calls) : (calls.foldl Agenda.call a).Sound := by
  induction calls generalizing a with
  | nil => exact h
  | cons call calls ih => exact ih (h.call hallowed.1) hallowed.2

end Sound

/-! ## How many there can be -/

section Length

variable {s : ι}

theorem length_foldl_new (a : Agenda ι) (cs : List (NewTimer ι)) :
    (cs.foldl Agenda.new a).queue.items.length = a.queue.items.length + cs.length := by
  induction cs generalizing a with
  | nil => rfl
  | cons c cs ih =>
    have hlen : (a.new c).queue.items.length = a.queue.items.length + 1 :=
      (a.queue.items_add_perm _).length_eq
    rw [List.foldl_cons, ih, hlen, List.length_cons]
    omega

/-- A turn of the loop leaves fewer turns to come. -/
theorem turns_foldl_new {a : Agenda ι} {x : Timed (Timer ι)} {l : List (Timed (Timer ι))}
    (hq : a.queue.items = x :: l) (scripts : List (List (NewTimer ι))) :
    ((scripts.headD []).foldl Agenda.new (a.runHead x)).turns scripts.tail + 1 =
      a.turns scripts := by
  have hflat : scripts.flatten.length =
      (scripts.headD []).length + scripts.tail.flatten.length := by
    cases scripts with
    | nil => rfl
    | cons script rest => exact List.length_append
  have htail : (a.runHead x).queue.items.length + 1 = a.queue.items.length := by
    show a.queue.items.tail.length + 1 = _
    rw [hq]
    rfl
  rw [turns, turns, length_foldl_new, hflat]
  omega

theorem length_expireLoop_le (a : Agenda ι) (n : ℕ) (scripts : List (List (NewTimer ι))) :
    (expireLoop n scripts a).queue.items.length < a.turns scripts := by
  induction n generalizing a scripts with
  | zero => exact Nat.lt_succ_of_le (Nat.le_add_right _ _)
  | succ n ih =>
    have hstop : a.queue.items.length < a.turns scripts := Nat.lt_succ_of_le (Nat.le_add_right _ _)
    rw [expireLoop]
    cases hq : a.queue.items with
    | nil => rwa [hq] at hstop ⊢
    | cons x l =>
      dsimp only
      by_cases hdue : looksDue a.clock x.key = true
      · rw [if_pos hdue]
        have hlen := ih ((scripts.headD []).foldl Agenda.new (a.runHead x)) scripts.tail
        have hturns := turns_foldl_new hq scripts
        omega
      · rwa [if_neg hdue]

/-- A call adds at most its size. -/
theorem length_call_le (a : Agenda ι) (call : TimerCall ι) :
    (a.call call).queue.items.length ≤ a.queue.items.length + call.size := by
  cases call with
  | tqTimerNew c => exact (length_foldl_new a [c]).le
  | timeUpdate clock => exact le_rfl
  | expireTimers scripts => exact Nat.le_of_lt_succ (length_expireLoop_le a _ scripts)

end Length

/-! ## While the clock stands still -/

section Still

variable {s : ι} {a : Agenda ι} {c : NewTimer ι} {cs : List (NewTimer ι)} {x : Timed (Timer ι)}
  {l : List (Timed (Timer ι))} {scripts : List (List (NewTimer ι))} {n : ℕ}

/-- Nothing looks due that is not, and everything that is. -/
def Legible (a : Agenda ι) : Prop :=
  ∀ x ∈ a.queue.items, x.key < a.clock + 2 ^ 31 ∧ a.clock ≤ x.key + 2 ^ 31

theorem Legible.looksDue_iff (h : a.Legible) (hx : x ∈ a.queue.items) :
    looksDue a.clock x.key = true ↔ x.key ≤ a.clock :=
  ⟨le_of_looksDue (h x hx).1, fun hle => looksDue_of_le hle (h x hx).2⟩

/-- A timer that is made now is due later. -/
theorem clock_lt_deadline (h : NewAllowed s a c) : c.clock < c.deadline := by
  have hlazy : 2 ≤ c.s.toInt := h.lazy_le
  have hpos : 0 < c.s.toNatClampNeg := by
    rw [Int32.toNatClampNeg]
    omega
  exact Nat.lt_add_of_pos_right hpos

/-- **A timer that is made now** does not change what is due. -/
theorem Legible.new (h : a.Legible) (hc : NewAllowed s a c) (hstill : c.clock = a.clock) :
    (a.new c).Legible ∧ (a.new c).due = a.due ∧
      (a.new c).later.Perm (⟨c.deadline, a.made, c.block⟩ :: a.later) := by
  have hlater := clock_lt_deadline hc
  have hclock : (a.new c).clock = a.clock := hstill
  refine ⟨fun x hx => ?_, ?_, ?_⟩
  · show x.key < c.clock + 2 ^ 31 ∧ c.clock ≤ x.key + 2 ^ 31
    rcases DeadlineQueue.mem_items_add.mp hx with rfl | hx
    · exact ⟨Nat.add_lt_add_left (toNatClampNeg_lt c.s) _, hlater.le.trans (Nat.le_add_right _ _)⟩
    · rw [hstill]
      exact h x hx
  · obtain ⟨l₁, l₂, hq, hadd, -, -⟩ := a.queue.exists_items_add ⟨c.deadline, a.made, c.block⟩
    show (a.queue.add _).items.filter (fun x => decide (x.key ≤ c.clock)) =
      a.queue.items.filter fun x => decide (x.key ≤ a.clock)
    rw [hadd, hq, hstill, List.filter_append, List.filter_append, List.filter_cons_of_neg]
    rw [decide_eq_true_iff, not_le, ← hstill]
    exact hlater
  · have hperm := (a.queue.items_add_perm ⟨c.deadline, a.made, c.block⟩).filter
      fun x => decide (a.clock < x.key)
    rw [List.filter_cons_of_pos] at hperm
    · rw [later, hclock]
      exact hperm
    · rw [decide_eq_true_iff, ← hstill]
      exact hlater

/-- Calls that are made now. -/
theorem Legible.foldl_new (h : a.Legible) (hcs : AllNewAllowed s a cs)
    (hstill : ∀ c ∈ cs, c.clock = a.clock) :
    (cs.foldl Agenda.new a).Legible ∧ (cs.foldl Agenda.new a).due = a.due ∧
      (cs.foldl Agenda.new a).later.Perm (a.later ++ timersOf a.made cs) := by
  induction cs generalizing a with
  | nil =>
    rw [timersOf, List.append_nil]
    exact ⟨h, rfl, .refl _⟩
  | cons c cs ih =>
    obtain ⟨hc, hrest⟩ := List.forall_mem_cons.mp hstill
    obtain ⟨hnew, hdue, hlater⟩ := h.new hcs.1 hc
    have hclock : (a.new c).clock = a.clock := hc
    obtain ⟨h', hdue', hlater'⟩ := ih hnew hcs.2 fun c hc => (hrest c hc).trans hclock.symm
    refine ⟨h', hdue'.trans hdue, hlater'.trans ?_⟩
    exact (hlater.append_right _).trans List.perm_middle.symm

/-- When nothing is due, every timer is due later. -/
theorem later_of_head (hq : a.queue.items = x :: l) (hx : a.clock < x.key) :
    a.due = [] ∧ a.later = a.queue.items := by
  have hall : ∀ y ∈ a.queue.items, a.clock < y.key := by
    intro y hy
    have hsorted := a.queue.sorted
    rw [hq] at hy hsorted
    rcases List.mem_cons.mp hy with rfl | hy
    · exact hx
    · exact hx.trans_le ((List.pairwise_cons.mp hsorted).1 y hy)
  constructor
  · refine List.filter_eq_nil_iff.mpr fun y hy => ?_
    rw [decide_eq_true_iff, not_le]
    exact hall y hy
  · exact List.filter_eq_self.mpr fun y hy => decide_eq_true (hall y hy)

/-- The earliest timer, when it is due, is the first of those that are. -/
theorem due_of_head (hq : a.queue.items = x :: l) (hx : x.key ≤ a.clock) :
    a.due = x :: (a.runHead x).due ∧ a.later = (a.runHead x).later := by
  constructor
  · show a.queue.items.filter (fun y => decide (y.key ≤ a.clock)) =
      x :: a.queue.items.tail.filter fun y => decide (y.key ≤ a.clock)
    rw [hq, List.tail_cons]
    exact List.filter_cons_of_pos (decide_eq_true hx)
  · show a.queue.items.filter (fun y => decide (a.clock < y.key)) =
      a.queue.items.tail.filter fun y => decide (a.clock < y.key)
    rw [hq, List.tail_cons]
    refine List.filter_cons_of_neg ?_
    rw [decide_eq_true_iff, not_lt]
    exact hx

theorem made_foldl_new (a : Agenda ι) (cs : List (NewTimer ι)) :
    (cs.foldl Agenda.new a).made = a.made + cs.length := by
  induction cs generalizing a with
  | nil => rfl
  | cons c cs ih =>
    rw [List.foldl_cons, ih, List.length_cons]
    show a.made + 1 + cs.length = _
    omega

theorem ran_foldl_new (a : Agenda ι) (cs : List (NewTimer ι)) :
    (cs.foldl Agenda.new a).ran = a.ran := by
  induction cs generalizing a with
  | nil => rfl
  | cons c cs ih => exact ih _

theorem clock_foldl_new (hstill : ∀ c ∈ cs, c.clock = a.clock) :
    (cs.foldl Agenda.new a).clock = a.clock := by
  induction cs generalizing a with
  | nil => rfl
  | cons c cs ih =>
    obtain ⟨hc, hrest⟩ := List.forall_mem_cons.mp hstill
    have hclock : (a.new c).clock = a.clock := hc
    exact (ih fun c hc => (hrest c hc).trans hclock.symm).trans hclock

theorem timersOf_append (made : ℕ) (cs cs' : List (NewTimer ι)) :
    timersOf made (cs ++ cs') = timersOf made cs ++ timersOf (made + cs.length) cs' := by
  induction cs generalizing made with
  | nil => rfl
  | cons c cs ih =>
    rw [List.cons_append, timersOf, ih, timersOf, List.length_cons]
    have hlen : made + 1 + cs.length = made + (cs.length + 1) := by omega
    rw [hlen]
    rfl

/-- What the next handler does, and the others. -/
theorem exists_script (scripts : List (List (NewTimer ι))) : ∃ script rest,
    scripts.headD [] = script ∧ scripts.tail = rest ∧
      scripts.flatten = script ++ rest.flatten ∧
      ∀ k, (scripts.take (k + 1)).flatten = script ++ (rest.take k).flatten := by
  cases scripts with
  | nil => exact ⟨[], [], rfl, rfl, rfl, fun k => by simp⟩
  | cons script rest => exact ⟨script, rest, rfl, rfl, rfl, fun _ => rfl⟩

/-- **The loop while the clock stands still**: it runs what is due, in order, whatever the handlers
make meanwhile, and what they make is pending at the end with what is due later. -/
theorem expireLoop_still (h : a.Legible) (hallowed : LoopAllowed s n scripts a)
    (hstill : ∀ c ∈ scripts.flatten, c.clock = a.clock) (hn : a.due.length < n) :
    (expireLoop n scripts a).ran = a.ran ++ a.due.map (fun x => (x, a.clock)) ∧
      (expireLoop n scripts a).queue.items.Perm
        (a.later ++ timersOf a.made (scripts.take a.due.length).flatten) := by
  induction n generalizing scripts a with
  | zero => exact absurd hn (Nat.not_lt_zero _)
  | succ n ih =>
    rw [expireLoop]
    rw [LoopAllowed] at hallowed
    cases hq : a.queue.items with
    | nil => simp [due, later, timersOf, hq]
    | cons x l =>
      rw [hq] at hallowed
      dsimp only at hallowed ⊢
      have hx : x ∈ a.queue.items := by
        rw [hq]
        exact List.mem_cons_self
      by_cases hle : x.key ≤ a.clock
      · have hlook := (h.looksDue_iff hx).mpr hle
        obtain ⟨hcs, hrest⟩ := hallowed hlook
        rw [if_pos hlook]
        obtain ⟨hdue, hlater⟩ := due_of_head hq hle
        have htail : (a.runHead x).Legible := fun y hy => h y (List.mem_of_mem_tail hy)
        obtain ⟨script, scripts', hhead, hscripts, hflat, htake⟩ := exists_script scripts
        rw [hscripts, hhead] at hrest ⊢
        rw [hhead] at hcs
        rw [hflat] at hstill
        obtain ⟨hnow, hnow'⟩ := List.forall_mem_append.mp hstill
        obtain ⟨h', hdue', hlater'⟩ := htail.foldl_new hcs hnow
        have hclock : (script.foldl Agenda.new (a.runHead x)).clock = a.clock :=
          clock_foldl_new (a := a.runHead x) hnow
        have hlen : (script.foldl Agenda.new (a.runHead x)).due.length < n := by
          rw [hdue, List.length_cons] at hn
          rw [hdue']
          omega
        obtain ⟨hran, hitems⟩ := ih h' hrest (fun c hc => (hnow' c hc).trans hclock.symm) hlen
        constructor
        · rw [hran, ran_foldl_new, hclock, hdue', hdue]
          exact List.append_assoc _ _ _
        · rw [hdue, List.length_cons, htake, timersOf_append]
          refine hitems.trans ?_
          rw [hdue', made_foldl_new, ← List.append_assoc, hlater]
          exact hlater'.append_right _
      · -- nothing behind the first timer is due either
        obtain ⟨hdue, hlater⟩ := later_of_head hq (not_le.mp hle)
        rw [if_neg fun hlook => hle ((h.looksDue_iff hx).mp hlook), hdue, hlater]
        simp [timersOf]

end Still

end Agenda

end Tqos
