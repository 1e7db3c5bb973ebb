import Tqos.Tserver.Agenda

/-!
# The timers

`timers.c`: the tree of the timers and the second that was read last. Seconds are read as 32 bits
and deadlines are compared by the sign of their difference. A block that has been run is given back
after its handler, and the tree has given up its node before.

A timer that is long overdue, by more than half of the range of the counter, looks as if it were due
later; so `expire_timers` leaves it, and every timer behind it.

## Main results

* `exists_tqTimerNew`, `exists_expireTimers` — the calls do what the agenda says
* `timers_keepAgenda` — any calls in turn
* `late_timerStays` — a timer that is long overdue
-/

namespace Tqos

open Heap RedBlack RedBlack.ColorTree

variable {ι : Type}

/-- `timer_rbtree` with its nodes, and `current_msec`. -/
structure Timers (ι : Type) where
  mem : Mem (Rbtree ι) ι (RbtreeNode ι)
  currentMsec : UInt32

/-- The node in a block of `tq_timer_new`: zeros, or what the caller had. -/
def newNode (arg : Option (RbtreeNode ι)) : RbtreeNode ι := arg.getD ⟨0, none, none, none, 0⟩

namespace Timers

section Programs

variable [DecidableEq ι]

/-- `time_update`, at a second. -/
def timeUpdate (sec : ℕ) (t : Timers ι) : Timers ι := { t with currentMsec := UInt32.ofNat sec }

/-- `add_timer`. -/
def addTimer (fuel : ℕ) (ev : ι) (timer : RbtreeNode ι) (msec : UInt32) (t : Timers ι) :
    Option (Timers ι) :=
  let key := t.currentMsec + msec
  let diff := (key - timer.key).toInt32
  if diff.abs.toInt < (timerLazyDelay : ℤ) then some t
  else do
    let r ← (TimerOp.insert ev { timer with key := key }).run fuel t.mem
    pure { t with mem := r.2 }

/-- `tq_timer_new`. -/
def tqTimerNew (fuel : ℕ) (c : NewTimer ι) (t : Timers ι) : Option (Timers ι) :=
  let t := t.timeUpdate c.clock
  t.addTimer fuel c.block { newNode c.arg with key := t.currentMsec } c.s.toUInt32

/-- The calls a handler makes. -/
def runHandler (fuel : ℕ) : List (NewTimer ι) → Timers ι → Option (Timers ι)
  | [], t => some t
  | c :: cs, t => (t.tqTimerNew fuel c).bind (runHandler fuel cs)

/-- `expire_timers`: the blocks that are run, each with the second at which it is. -/
def expireTimers (fuel : ℕ) :
    ℕ → List (List (NewTimer ι)) → Timers ι → Option (List (ι × UInt32) × Timers ι)
  | 0, _, _ => none
  | n + 1, scripts, t =>
    let sentinel := t.mem.vars.sentinel
    let root := t.mem.vars.root
    if root = sentinel then some ([], t)
    else do
      let (first, mem) ← rbtreeMin sentinel fuel root t.mem
      let (key, mem) ← field first RbtreeNode.key mem
      if (key - t.currentMsec).toInt32 > 0 then pure ([], { t with mem := mem })
      else do
        let ev ← first
        let (_, mem) ← rbtreeDelete fuel first mem
        let u ← runHandler fuel (scripts.headD []) { t with mem := mem }
        let (out, v) ← expireTimers fuel n scripts.tail u
        pure ((ev, t.currentMsec) :: out, v)

/-- A call. -/
def call (fuel : ℕ) (t : Timers ι) : TimerCall ι → Option (List (ι × UInt32) × Timers ι)
  | .tqTimerNew c => (t.tqTimerNew fuel c).map fun t => ([], t)
  | .timeUpdate sec => some ([], t.timeUpdate sec)
  | .expireTimers scripts => t.expireTimers fuel fuel scripts

/-- Calls in turn. -/
def runCalls (fuel : ℕ) : List (TimerCall ι) → Timers ι → Option (List (ι × UInt32) × Timers ι)
  | [], t => some ([], t)
  | c :: cs, t => do
    let (out, t) ← t.call fuel c
    let (out', t) ← runCalls fuel cs t
    pure (out ++ out', t)

/-- `timer_init` and the calls after it. -/
def run (s : ι) (fuel : ℕ) (calls : List (TimerCall ι)) (m : Mem (Rbtree ι) ι (RbtreeNode ι)) :
    Option (List (ι × UInt32) × Timers ι) := do
  let r ← rbtreeInit (some s) .rbtreeInsertTimerValue m
  runCalls fuel calls ⟨r.2, 0⟩

end Programs

/-! ## What the tree is for the agenda -/

/-- A timer in the tree. -/
def entry (x : Timed (Timer ι)) : ι × UInt32 := (x.handler.block, UInt32.ofNat x.key)

/-- What is seen of a timer that was run at a second. -/
def seen (r : Timed (Timer ι) × ℕ) : ι × UInt32 := (r.1.handler.block, UInt32.ofNat r.2)

/-- The tree has the timers that are pending, in their order. -/
structure Refines (s : ι) (a : Agenda ι) (t : Timers ι) : Prop where
  currentMsec : t.currentMsec = UInt32.ofNat a.clock
  tree : ∃ sn parent u, Holds s .rbtreeInsertTimerValue sn parent u t.mem ∧ u.Balanced ∧
    u.toList = a.queue.items.map entry
  inWindow : a.InWindow

section Keys

variable {w : ℕ} {a : Agenda ι} {x : Timed (Timer ι)}

/-- The distance of a key from the start of a window. -/
theorem toNat_entry_sub (h : w ≤ x.key ∧ x.key < w + 2 ^ 31) :
    ((entry x).2 - UInt32.ofNat w).toNat = x.key - w := by
  obtain ⟨hle, hlt⟩ := h
  rw [entry, Agenda.toNat_ofNat_sub]
  omega

theorem inWindow_entry (h : w ≤ x.key ∧ x.key < w + 2 ^ 31) :
    InWindow (UInt32.ofNat w) (entry x).2 := by
  rw [InWindow, toNat_entry_sub h]
  omega

/-- The pending timers are in the order of the tree. -/
theorem keyLe_entries (hw : a.InWindow) :
    (a.queue.items.map entry).Pairwise fun e f => KeyLe e.2 f.2 := by
  obtain ⟨w, hw⟩ := hw
  refine List.pairwise_map.mpr (a.queue.sorted.imp_of_mem fun {x y} hx hy hle => ?_)
  rw [keyLe_iff (inWindow_entry (hw x hx)) (inWindow_entry (hw y hy)), toNat_entry_sub (hw x hx),
    toNat_entry_sub (hw y hy)]
  omega

end Keys

section Keeps

variable {s : ι} {a : Agenda ι} {t : Timers ι} {c : NewTimer ι} {cs : List (NewTimer ι)}
  {x : Timed (Timer ι)} {l : List (Timed (Timer ι))} {scripts : List (List (NewTimer ι))}
  {fuel n k : ℕ}

/-- **The tree of what is pending.** -/
theorem Refines.timerTree [DecidableEq ι] (h : Refines s a t) {l : List (Timed (Timer ι))}
    (hl : a.queue.items.Perm l) : ∃ u, TimerTree s (l.map entry) t.mem u := by
  obtain ⟨sn, parent, u, hholds, hbal, hlist⟩ := h.tree
  refine ⟨u, timerTree_of_holds hholds hbal ?_ ?_⟩
  · rw [hlist]
    exact hl.map _
  · rw [hlist]
    exact keyLe_entries h.inWindow

/-- A delay that is not negative, as it is passed on. -/
theorem toNat_toUInt32 {d : Int32} (h : 0 ≤ d.toInt) : d.toUInt32.toNat = d.toNatClampNeg := by
  have htoInt : d.toInt =
      if 2 * d.toUInt32.toNat < 2 ^ 32 then (d.toUInt32.toNat : ℤ) else d.toUInt32.toNat - 2 ^ 32 :=
    BitVec.toInt_eq_toNat_cond d.toBitVec
  have hlt := d.toUInt32.toNat_lt
  rw [Int32.toNatClampNeg]
  split at htoInt
  · omega
  · omega

/-- The key of a timer is its deadline. -/
theorem ofNat_add_toUInt32 (h : 0 ≤ c.s.toInt) :
    UInt32.ofNat c.clock + c.s.toUInt32 = UInt32.ofNat c.deadline := by
  refine UInt32.toNat_inj.mp ?_
  rw [UInt32.toNat_add, UInt32.toNat_ofNat', UInt32.toNat_ofNat', toNat_toUInt32 h,
    NewTimer.deadline]
  omega

theorem abs_of_nonneg {d : Int32} (h : 0 ≤ d.toInt) : d.abs = d := by
  have hmsb : d.toBitVec.msb = false := by
    rw [BitVec.msb_eq_toInt, decide_eq_false_iff_not]
    exact not_lt.mpr h
  rw [Int32.abs, BitVec.abs, hmsb]
  rfl

/-- With nothing pending, the root is the sentinel. -/
theorem Refines.root_eq (h : Refines s a t) (hq : a.queue.items = []) :
    t.mem.vars.root = t.mem.vars.sentinel := by
  obtain ⟨sn, parent, u, hholds, -, hlist⟩ := h.tree
  have hnil : u = nil := by
    by_contra hne
    have hpos := length_toList_pos hne
    rw [hlist, hq] at hpos
    exact absurd hpos (Nat.not_lt_zero _)
  rw [hholds.has.vars_eq, hnil]
  rfl

variable [DecidableEq ι]

/-- `add_timer` does not refuse a delay that is long enough. -/
theorem addTimer_of_le {timer : RbtreeNode ι} {ev : ι} {d : Int32}
    (hd : (timerLazyDelay : ℤ) ≤ d.toInt) (hkey : timer.key = t.currentMsec) :
    t.addTimer fuel ev timer d.toUInt32 =
      ((TimerOp.insert ev { timer with key := t.currentMsec + d.toUInt32 }).run fuel t.mem).bind
        fun r => some { t with mem := r.2 } := by
  have hpos : 0 ≤ d.toInt := le_trans (Int.natCast_nonneg _) hd
  have hdiff : (t.currentMsec + d.toUInt32 - timer.key).toInt32 = d := by
    rw [hkey, UInt32.add_comm, UInt32.add_sub_cancel, Int32.toInt32_toUInt32]
  have hlazy : ¬ (t.currentMsec + d.toUInt32 - timer.key).toInt32.abs.toInt < timerLazyDelay := by
    rw [hdiff, abs_of_nonneg hpos]
    exact not_lt.mpr hd
  exact if_neg hlazy

/-- **`tq_timer_new`** makes the timer. -/
theorem exists_tqTimerNew (h : Refines s a t) (hc : a.NewAllowed s c)
    (hfuel : a.queue.items.length < fuel) :
    ∃ t', t.tqTimerNew fuel c = some t' ∧ Refines s (a.new c) t' := by
  obtain ⟨sn, parent, u, hholds, hbal, hlist⟩ := h.tree
  obtain ⟨w, hw⟩ := hc.inWindow
  have hdelay : 0 ≤ c.s.toInt := le_trans (Int.natCast_nonneg _) hc.lazy_le
  obtain ⟨new, hnew⟩ : ∃ new : Timed (Timer ι), new = ⟨c.deadline, a.made, c.block⟩ := ⟨_, rfl⟩
  have hitems : (a.new c).queue.items = (a.queue.add new).items := by rw [hnew]; rfl
  rw [hitems] at hw
  have hwin {x : Timed (Timer ι)} (hx : x = new ∨ x ∈ a.queue.items) :
      w ≤ x.key ∧ x.key < w + 2 ^ 31 := hw x (DeadlineQueue.mem_items_add.mpr hx)
  obtain ⟨nd, hnd⟩ : ∃ nd : RbtreeNode ι,
      nd = { newNode c.arg with key := UInt32.ofNat c.clock + c.s.toUInt32 } := ⟨_, rfl⟩
  have hentry : (c.block, nd.key) = entry new := by
    rw [hnew, hnd, entry, ofNat_add_toUInt32 hdelay]
  have hkey : nd.key = (entry new).2 := congrArg Prod.snd hentry
  have hordered : u.toList.Pairwise fun e f => KeyLe e.2 f.2 := by
    rw [hlist]
    exact keyLe_entries h.inWindow
  have hfresh : c.block ∉ u.toList.map Prod.fst := by
    rw [hlist, List.map_map]
    intro hmem
    obtain ⟨x, hx, hblock⟩ := List.mem_map.mp hmem
    exact hc.fresh x hx hblock
  have hall : ∀ e ∈ (c.block, nd.key) :: u.toList, Tqos.InWindow (UInt32.ofNat w) e.2 := by
    intro e he
    rw [hlist, hentry, ← List.map_cons] at he
    obtain ⟨x, hx, rfl⟩ := List.mem_map.mp he
    exact inWindow_entry (hwin (List.mem_cons.mp hx))
  have hlen : u.toList.length < fuel := by rwa [hlist, List.length_map]
  obtain ⟨⟨⟩, m', hrun, parent', u', l₁, l₂, hholds', hbal', hsplit, hlist', h₁, h₂⟩ :=
    wp_insert hholds hbal hordered hc.ne_sentinel hfresh hall hlen
  refine ⟨⟨m', UInt32.ofNat c.clock⟩, ?_, rfl, ⟨sn, parent', u', hholds', hbal', ?_⟩, hc.inWindow⟩
  · rw [tqTimerNew, addTimer_of_le hc.lazy_le rfl]
    rw [hnd] at hrun
    exact congrArg (fun r => r.bind fun r => some (⟨r.2, UInt32.ofNat c.clock⟩ : Timers ι)) hrun
  · rw [hlist] at hsplit
    obtain ⟨q₁, q₂, hq, rfl, rfl⟩ := List.map_eq_append_iff.mp hsplit
    have hle : ∀ x ∈ q₁, x.key ≤ new.key := by
      intro x hx
      have hmem : x ∈ a.queue.items := by
        rw [hq]
        exact List.mem_append_left _ hx
      have hrank := h₁ _ (List.mem_map_of_mem hx)
      rw [hkey, toNat_entry_sub (hwin (Or.inr hmem)), toNat_entry_sub (hwin (Or.inl rfl))] at hrank
      have := (hwin (Or.inl rfl)).1
      omega
    have hlt : ∀ x ∈ q₂, new.key < x.key := by
      intro x hx
      have hmem : x ∈ a.queue.items := by
        rw [hq]
        exact List.mem_append_right _ hx
      have hrank := h₂ _ (List.mem_map_of_mem hx)
      rw [hkey, toNat_entry_sub (hwin (Or.inr hmem)), toNat_entry_sub (hwin (Or.inl rfl))] at hrank
      omega
    rw [hlist', hitems, DeadlineQueue.items_add_of_append hq hle hlt, hentry, List.map_append,
      List.map_cons]

theorem exists_runHandler (h : Refines s a t) (hcs : a.AllNewAllowed s cs)
    (hfuel : a.queue.items.length + cs.length ≤ fuel) :
    ∃ t', t.runHandler fuel cs = some t' ∧ Refines s (cs.foldl Agenda.new a) t' := by
  induction cs generalizing a t with
  | nil => exact ⟨t, rfl, h⟩
  | cons c cs ih =>
    rw [List.length_cons] at hfuel
    obtain ⟨t', hnew, h'⟩ := exists_tqTimerNew h hcs.1 (by omega : a.queue.items.length < fuel)
    have hlen : (a.new c).queue.items.length = a.queue.items.length + 1 :=
      Agenda.length_foldl_new a [c]
    obtain ⟨t'', hrest, h''⟩ := ih h' hcs.2 (by omega)
    refine ⟨t'', ?_, h''⟩
    rw [runHandler, hnew]
    exact hrest

/-- **The first timer** is found, and its node is taken out. -/
theorem exists_takeFirst {m : Mem (Rbtree ι) ι (RbtreeNode ι)} {i : RbtreeInsertPt}
    {sn : RbtreeNode ι} {parent : Option ι} {u : ColorTree (ι × UInt32)} {e : ι × UInt32}
    {es : List (ι × UInt32)} (h : Holds s i sn parent u m) (hbal : u.Balanced)
    (hlist : u.toList = e :: es) (hfuel : u.toList.length < fuel) :
    rbtreeMin (some s) fuel (some (addr s u)) m = some (some e.1, m) ∧
      field (some e.1) RbtreeNode.key m = some (e.2, m) ∧
      ∃ freed m' sn' parent' u', rbtreeDelete fuel (some e.1) m = some (freed, m') ∧
        Holds s i sn' parent' u' m' ∧ u'.Balanced ∧ u'.toList = es := by
  have hne : u ≠ nil := by
    rintro rfl
    cases hlist
  obtain ⟨first, m₁, hmin, rfl, k, c, y, r, rfl, rfl, hbefore⟩ :=
    wp_rbtreeMin (k := []) h hne hfuel.le
  rw [toList_plug, hbefore] at hlist
  obtain ⟨rfl, hes⟩ := List.cons.inj hlist
  refine ⟨hmin, ?_, ?_⟩
  · have hj : Holds s i sn parent (plug k (join .left c nil y r)) m₁ := h
    obtain ⟨key, m', hkey, rfl, rfl⟩ :=
      hj.wp_key (Q := fun key m' => key = y.2 ∧ m' = m₁) ⟨rfl, rfl⟩
    exact hkey
  · obtain ⟨freed, m', hdel, sn', parent', u', hholds', hbal', hlist'⟩ :=
      wp_rbtreeDelete h hbal hfuel
    refine ⟨freed, m', sn', parent', u', hdel, hholds', hbal', ?_⟩
    rw [hlist', hbefore]
    exact hes

/-- **The head of the agenda** is what the loop finds and takes out. -/
theorem Refines.takeFirst (h : Refines s a t) (hq : a.queue.items = x :: l)
    (hfuel : a.queue.items.length < fuel) :
    t.mem.vars.root ≠ t.mem.vars.sentinel ∧
      rbtreeMin t.mem.vars.sentinel fuel t.mem.vars.root t.mem =
        some (some x.handler.block, t.mem) ∧
      field (some x.handler.block) RbtreeNode.key t.mem = some (UInt32.ofNat x.key, t.mem) ∧
      ∃ freed m', rbtreeDelete fuel (some x.handler.block) t.mem = some (freed, m') ∧
        Refines s (a.runHead x) ⟨m', t.currentMsec⟩ := by
  obtain ⟨sn, parent, u, hholds, hbal, hlist⟩ := h.tree
  have hlen : u.toList.length < fuel := by rwa [hlist, List.length_map]
  have htail : (a.runHead x).queue.items = l := by
    show a.queue.items.tail = l
    rw [hq, List.tail_cons]
  rw [hq, List.map_cons] at hlist
  have hne : u ≠ nil := by
    rintro rfl
    cases hlist
  obtain ⟨hmin, hkey, freed, m', sn', parent', u', hdel, hholds', hbal', hlist'⟩ :=
    exists_takeFirst hholds hbal hlist hlen
  have hvars := hholds.has.vars_eq
  refine ⟨?_, ?_, hkey, freed, m', hdel, h.currentMsec, ⟨sn', parent', u', hholds', hbal', ?_⟩, ?_⟩
  · rw [hvars]
    exact fun heq => hholds.addr_ne_sentinel (k := []) hne (Option.some.inj heq)
  · rw [hvars]
    exact hmin
  · rw [hlist', htail]
  · obtain ⟨w, hw⟩ := h.inWindow
    exact ⟨w, fun y hy => hw y (List.mem_of_mem_tail hy)⟩

/-- **`expire_timers`** does what the agenda says, and comes to an end. -/
theorem exists_expireTimers (h : Refines s a t) (hallowed : a.LoopAllowed s k scripts)
    (hk : a.turns scripts ≤ k) (hn : a.turns scripts ≤ n) (hfuel : a.turns scripts ≤ fuel) :
    ∃ out t', t.expireTimers fuel n scripts = some (out, t') ∧
      Refines s (Agenda.expireLoop k scripts a) t' ∧
      (Agenda.expireLoop k scripts a).ran.map seen = a.ran.map seen ++ out := by
  induction n generalizing k scripts a t with
  | zero => exact absurd hn (Nat.not_succ_le_zero _)
  | succ n ih =>
    obtain ⟨k, rfl⟩ : ∃ k', k = k' + 1 := ⟨k - 1, by rw [Agenda.turns] at hk; omega⟩
    rw [Agenda.expireLoop]
    rw [Agenda.LoopAllowed] at hallowed
    cases hq : a.queue.items with
    | nil =>
      refine ⟨[], t, ?_, h, (List.append_nil _).symm⟩
      rw [expireTimers]
      exact if_pos (h.root_eq hq)
    | cons x l =>
      rw [hq] at hallowed
      dsimp only at hallowed ⊢
      have hlen : a.queue.items.length < fuel := by
        rw [Agenda.turns] at hfuel
        omega
      obtain ⟨hroot, hmin, hkey, freed, m', hdel, hhead⟩ := h.takeFirst hq hlen
      have hcmp : looksDue a.clock x.key = true ↔
          ¬ (UInt32.ofNat x.key - t.currentMsec).toInt32 > 0 := by
        rw [looksDue, decide_eq_true_iff, h.currentMsec]
        exact Int32.not_lt.symm
      rw [expireTimers]
      dsimp only
      rw [if_neg hroot, hmin]
      dsimp only [Option.bind_eq_bind, Option.bind_some]
      rw [hkey]
      dsimp only [Option.bind_some]
      by_cases hdue : looksDue a.clock x.key = true
      · rw [if_pos hdue, if_neg (hcmp.mp hdue), hdel]
        obtain ⟨hcs, hrest⟩ := hallowed hdue
        have hturns := Agenda.turns_foldl_new hq scripts
        have hnews : (a.runHead x).queue.items.length + (scripts.headD []).length ≤ fuel := by
          rw [Agenda.turns, Agenda.length_foldl_new] at hturns
          omega
        obtain ⟨u, hhandler, hu⟩ := exists_runHandler hhead hcs hnews
        obtain ⟨out, v, hout, hv, hseen⟩ := ih hu hrest (by omega) (by omega) (by omega)
        refine ⟨(x.handler.block, t.currentMsec) :: out, v, ?_, hv, ?_⟩
        · dsimp only [Option.bind_some]
          rw [hhandler]
          dsimp only [Option.bind_some]
          rw [hout]
          rfl
        · rw [hseen, Agenda.ran_foldl_new, h.currentMsec]
          show (a.ran ++ [(x, a.clock)]).map seen ++ out = _
          rw [List.map_append, List.append_assoc]
          rfl
      · rw [if_neg hdue, if_pos (not_not.mp fun hcon => hdue (hcmp.mpr hcon))]
        exact ⟨[], t, rfl, h, (List.append_nil _).symm⟩

/-- A call. -/
theorem exists_call {call : TimerCall ι} (h : Refines s a t) (hallowed : a.CallAllowed s call)
    (hfuel : a.queue.items.length + call.size < fuel) :
    ∃ out t', t.call fuel call = some (out, t') ∧ Refines s (a.call call) t' ∧
      (a.call call).ran.map seen = a.ran.map seen ++ out := by
  cases call with
  | tqTimerNew c =>
    obtain ⟨t', hnew, h'⟩ := exists_tqTimerNew h hallowed (Nat.lt_of_succ_lt hfuel)
    refine ⟨[], t', ?_, h', (List.append_nil _).symm⟩
    rw [Timers.call, hnew]
    rfl
  | timeUpdate sec =>
    exact ⟨[], t.timeUpdate sec, rfl, ⟨rfl, h.tree, h.inWindow⟩, (List.append_nil _).symm⟩
  | expireTimers scripts => exact exists_expireTimers h hallowed le_rfl hfuel hfuel

/-- Calls in turn. -/
theorem exists_runCalls {calls : List (TimerCall ι)} (h : Refines s a t)
    (hallowed : a.AllCallsAllowed s calls)
    (hfuel : a.queue.items.length + (calls.map TimerCall.size).sum < fuel) :
    ∃ out t', t.runCalls fuel calls = some (out, t') ∧ Refines s (calls.foldl Agenda.call a) t' ∧
      (calls.foldl Agenda.call a).ran.map seen = a.ran.map seen ++ out := by
  induction calls generalizing a t with
  | nil => exact ⟨[], t, rfl, h, (List.append_nil _).symm⟩
  | cons call calls ih =>
    rw [List.map_cons, List.sum_cons] at hfuel
    have hcallfuel : a.queue.items.length + call.size < fuel := by omega
    obtain ⟨out, t', hcall, h', hran⟩ := exists_call h hallowed.1 hcallfuel
    have hlen := Agenda.length_call_le a call
    have hfuel' : (a.call call).queue.items.length + (calls.map TimerCall.size).sum < fuel := by
      omega
    obtain ⟨out', t'', hcalls, h'', hran'⟩ := ih h' hallowed.2 hfuel'
    refine ⟨out ++ out', t'', ?_, h'', ?_⟩
    · rw [runCalls, hcall]
      dsimp only [Option.bind_eq_bind, Option.bind_some]
      rw [hcalls]
      rfl
    · rw [List.foldl_cons, hran', hran, List.append_assoc]

/-- `timer_init` and the calls after it. -/
theorem exists_run (v : Rbtree ι) (n : RbtreeNode ι) {calls : List (TimerCall ι)}
    (hallowed : Agenda.start.AllCallsAllowed s calls)
    (hfuel : (calls.map TimerCall.size).sum < fuel) :
    ∃ out t, run s fuel calls (sentinelOnly s v n) = some (out, t) ∧
      Refines s (calls.foldl Agenda.call .start) t ∧
      (calls.foldl Agenda.call .start).ran.map seen = out := by
  obtain ⟨⟨⟩, m, hinit, sn, parent, u, hholds, hbal, hperm, -⟩ := good_init s v n
  have hstart : Refines s (Agenda.start : Agenda ι) ⟨m, 0⟩ :=
    ⟨rfl, ⟨sn, parent, u, hholds, hbal, hperm.eq_nil⟩, 0, List.forall_mem_nil _⟩
  have hfuel' : (Agenda.start : Agenda ι).queue.items.length + (calls.map TimerCall.size).sum <
      fuel := by
    show 0 + _ < fuel
    omega
  obtain ⟨out, t, hcalls, h, hran⟩ := exists_runCalls hstart hallowed hfuel'
  refine ⟨out, t, ?_, h, hran⟩
  rw [run, hinit]
  exact hcalls

end Keeps

end Timers

open Timers

/-- **The timers.** Calls of `tq_timer_new`, from outside and from handlers, `time_update` and
`expire_timers` in any order, with delays that are long enough, a clock that does not go back and
pending deadlines in a window shorter than half of the range, all come to an end, with fuel for as
many turns as timers are made. A timer that was made is pending or has been run, once, and not
before its deadline. A further call of `expire_timers` at which the clock stands still and no timer
is overdue by more than half of the range runs those that are due, by their deadlines and as they
were made; all the others, and what the handlers make, are pending afterwards. -/
theorem timers_keepAgenda [DecidableEq ι] (s : ι) (v : Rbtree ι) (n : RbtreeNode ι)
    (calls : List (TimerCall ι)) (fuel : ℕ) (hallowed : Agenda.start.AllCallsAllowed s calls)
    (hfuel : (calls.map TimerCall.size).sum < fuel) :
    ∃ out t a, run s fuel calls (sentinelOnly s v n) = some (out, t) ∧
      a = calls.foldl Agenda.call .start ∧ a.Sound ∧ out = a.ran.map seen ∧
      (∃ u, TimerTree s (a.queue.items.map Timers.entry) t.mem u) ∧
      ∀ scripts, a.LoopAllowed s (a.turns scripts) scripts →
        (∀ c ∈ scripts.flatten, c.clock = a.clock) →
        (∀ x ∈ a.queue.items, a.clock ≤ x.key + 2 ^ 31) → a.turns scripts ≤ fuel →
        ∃ t' u, t.expireTimers fuel fuel scripts =
            some (a.due.map fun x => (x.handler.block, UInt32.ofNat a.clock), t') ∧
          a.due.Pairwise Agenda.Before ∧
          TimerTree s ((a.later ++
            Agenda.timersOf a.made (scripts.take a.due.length).flatten).map Timers.entry) t'.mem u := by
  obtain ⟨out, t, hrun, h, hran⟩ := exists_run v n hallowed hfuel
  have hsound := Agenda.sound_start.foldl_call hallowed
  obtain ⟨a, ha⟩ : ∃ a, a = calls.foldl Agenda.call .start := ⟨_, rfl⟩
  rw [← ha] at h hran hsound
  refine ⟨out, t, a, hrun, ha, hsound, hran.symm, h.timerTree (List.Perm.refl _), ?_⟩
  intro scripts hloop hstill hlong hfuel'
  have hlegible : a.Legible := fun x hx => ⟨hsound.ahead x hx, hlong x hx⟩
  have hdue : a.due.length < a.turns scripts := by
    have hle : a.due.length ≤ a.queue.items.length := List.length_filter_le _ _
    rw [Agenda.turns]
    omega
  obtain ⟨out', t', hexpire, h', hran'⟩ := exists_expireTimers h hloop le_rfl hfuel' hfuel'
  obtain ⟨hdone, hpending⟩ := Agenda.expireLoop_still hlegible hloop hstill hdue
  obtain ⟨u, hu⟩ := h'.timerTree hpending
  refine ⟨t', u, ?_, hsound.ordered.sublist List.filter_sublist, hu⟩
  rw [hdone, List.map_append, List.append_cancel_left_eq, List.map_map] at hran'
  rw [hexpire, ← hran']
  rfl

/-- Three timers before the wrap of the counter. -/
def wrapCalls : List (TimerCall ℕ) :=
  [.timeUpdate 0xFFFFFFFC, .tqTimerNew ⟨none, 3, 0xFFFFFFFC, 1⟩,
    .tqTimerNew ⟨none, 5, 0xFFFFFFFC, 2⟩, .tqTimerNew ⟨none, 3, 0xFFFFFFFC, 3⟩,
    .timeUpdate 0xFFFFFFFF]

theorem wrapCalls_keepAgenda : ∃ t t' u,
    run 0 8 wrapCalls
        (sentinelOnly 0 ⟨none, none, .rbtreeInsertValue⟩ ⟨0, none, none, none, 0⟩) =
          some ([], t) ∧
      t.expireTimers 8 8 [[⟨none, 4, 0xFFFFFFFF, 4⟩]] =
        some ([(1, 0xFFFFFFFF), (3, 0xFFFFFFFF)], t') ∧
      TimerTree 0 [(2, 1), (4, 3)] t'.mem u := by
  have hallowed : Agenda.start.AllCallsAllowed 0 wrapCalls :=
    ⟨Nat.zero_le _, ⟨by decide, by decide, by decide, by decide, 0xFFFFFFFF, by decide⟩,
      ⟨by decide, by decide, by decide, by decide, 0xFFFFFFFF, by decide⟩,
      ⟨by decide, by decide, by decide, by decide, 0xFFFFFFFF, by decide⟩,
      show 0xFFFFFFFC ≤ 0xFFFFFFFF by decide, trivial⟩
  obtain ⟨out, t, a, hrun, rfl, -, rfl, -, hexpire⟩ :=
    timers_keepAgenda 0 _ _ wrapCalls 8 hallowed (by decide)
  -- the first handler makes a timer, and the loop stops at the third of those that were pending
  have hloop : Agenda.LoopAllowed 0 5 [[⟨none, 4, 0xFFFFFFFF, 4⟩]]
      (wrapCalls.foldl Agenda.call .start) := by
    refine fun _ => ⟨⟨⟨by decide, by decide, by decide, by decide, 0xFFFFFFFF, by decide⟩, trivial⟩,
      fun _ => ⟨trivial, fun hdue => absurd hdue (by decide)⟩⟩
  obtain ⟨t', u, hout, -, hu⟩ := hexpire [[⟨none, 4, 0xFFFFFFFF, 4⟩]] hloop (by decide) (by decide)
    (by decide)
  exact ⟨t, t', u, hrun, hout, hu⟩

/-- One timer, and the clock goes on for more than half of the range. -/
def lateCalls : List (TimerCall ℕ) :=
  [.tqTimerNew ⟨none, 5, 0, 1⟩, .timeUpdate 0x80000006]

/-- **A timer that is long overdue** is not run, and stays. -/
theorem late_timerStays :
    Agenda.start.AllCallsAllowed 0 (lateCalls ++ [.expireTimers []]) ∧
      (lateCalls.foldl Agenda.call .start).due = [⟨5, 0, 1⟩] ∧
      ∃ t, run 0 2 lateCalls
          (sentinelOnly 0 ⟨none, none, .rbtreeInsertValue⟩ ⟨0, none, none, none, 0⟩) =
            some ([], t) ∧
        t.expireTimers 2 2 [] = some ([], t) := by
  refine ⟨⟨⟨by decide, by decide, by decide, List.forall_mem_nil _, 5, by decide⟩,
    Nat.zero_le _, fun hdue => absurd hdue (by decide), trivial⟩, by decide +kernel, _, rfl, rfl⟩

end Tqos
