import Tqos.Lib.Run
import Tqos.Spp.Network

/-!
# Copies in the making

`spp_dumper_alloc` runs on every processor at once. It takes `dump_lock` twice, once to reserve a
place in the queue and once to queue the copy or to give the place back, and the worker holds the
lock for its whole run. Each of these critical sections is a step here. What a call does in between
concerns nobody else, but its copy may fail at either of two allocations, so that a call that has
reserved a place ends in one of two ways.

The hooks are registered before `INIT_LIST_HEAD` makes `dump_gc` a list; until then its pointers are
NULL.

## Main results

* `counted_of_run` — `ndumper` counts the queue and the calls that have reserved a place
* `noStorm_of_run` — no packet causes more than one copy, no copy another, and the worker never
  waits for the lock it holds
-/

namespace Tqos

namespace Spp

/-- A call of `spp_dumper_alloc` that has not returned. -/
structure Call where
  /-- The packet, by the number of its arrival. -/
  origin : ℕ
  skb : Iphdr
  delay : UInt16
  /-- A place in the queue is reserved. -/
  reserved : Bool

/-- The queue, the calls, and what has happened. -/
structure Copies where
  /-- `dump_gc` is a list. -/
  ready : Bool
  ndumper : UInt32
  dumpGc : List SppDumper
  calls : List Call
  /-- How many packets have arrived. -/
  arrivals : ℕ
  /-- The packets whose copies are in the queue. -/
  origins : List ℕ
  /-- The packets of which a copy was queued. -/
  queued : List ℕ
  /-- The packets of which a copy was sent. -/
  dumped : List ℕ
  /-- The packets that were sent on themselves. -/
  passed : List ℕ

/-- What stands when the hooks are registered. -/
def Copies.init : Copies := ⟨false, 0, [], [], 0, [], [], [], []⟩

/-- A step of one of the processors. -/
inductive CopyEvent
  /-- `spp_network_init` comes to `INIT_LIST_HEAD`. -/
  | initListHead
  /-- A packet from outside at `nf_network_down`, with the settings at each of the reads. -/
  | arrive (r : DownReads) (skb : Option Iphdr)
  /-- The first critical section of the call for a packet. -/
  | reserve (origin : ℕ)
  /-- The last one, after `pskb_copy` or `kmem_cache_alloc` has failed. -/
  | rollback (origin : ℕ)
  /-- The last one, after the deadline was set at some reading of the clock. -/
  | enqueue (origin : ℕ) (jiffies : UInt32)
  /-- A run of the worker, with the clock and the settings for each copy. -/
  | dump (jiffies : ℕ → UInt32) (reads : ℕ → DownReads)

/-- How a step can fail. -/
inductive Fault
  /-- It is not possible now. -/
  | disabled
  | nullDeref
  /-- The lock is waited for by its holder. -/
  | selfDeadlock
deriving DecidableEq, Repr

/-- The call for a packet, when it is where `reserved` says, and the other calls. -/
def takeCall (reserved : Bool) (origin : ℕ) (calls : List Call) : Option (Call × List Call) :=
  (calls.find? fun c => c.origin == origin && c.reserved == reserved).map fun c =>
    (c, calls.eraseP fun c => c.origin == origin && c.reserved == reserved)

/-- A copy passes `nf_network_down` and would be copied. -/
def reenters (reads : ℕ → DownReads) (sent : List SppDumper) : Bool :=
  sent.zipIdx.any fun d => (nfNetworkDown (reads d.2) (some d.1.skb)).2.isSome

variable (env : KernelEnv)

/-- One step. -/
def copyStep (s : Copies) : CopyEvent → Except Fault Copies
  | .initListHead =>
    if s.ready then .error .disabled
    else .ok { s with ready := true, dumpGc := [], origins := [] }
  | .arrive r skb =>
    match nfNetworkDown r skb with
    | (some iph, some delay) =>
      .ok { s with arrivals := s.arrivals + 1, calls := ⟨s.arrivals, iph, delay, false⟩ :: s.calls }
    | _ => .ok { s with arrivals := s.arrivals + 1, passed := s.passed ++ [s.arrivals] }
  | .reserve origin =>
    match takeCall false origin s.calls with
    | none => .error .disabled
    | some (c, calls) =>
      let r := reserve s.ndumper
      if r.2 then .ok { s with ndumper := r.1, calls := { c with reserved := true } :: calls }
      else .ok { s with ndumper := r.1, calls := calls, passed := s.passed ++ [origin] }
  | .rollback origin =>
    match takeCall true origin s.calls with
    | none => .error .disabled
    | some (_, calls) =>
      .ok { s with
        ndumper := rollback s.ndumper, calls := calls, passed := s.passed ++ [origin] }
  | .enqueue origin jiffies =>
    match takeCall true origin s.calls with
    | none => .error .disabled
    | some (c, calls) =>
      if s.ready then
        .ok { s with
          dumpGc := s.dumpGc ++ [⟨jiffies + env.msecsToJiffies c.delay, c.skb⟩]
          origins := s.origins ++ [origin]
          queued := s.queued ++ [origin]
          calls := calls
          passed := s.passed ++ [origin] }
      else .error .nullDeref
  | .dump jiffies reads =>
    if s.ready then
      let r := sppDumpWorkCb jiffies 0 s.dumpGc s.ndumper
      if reenters reads r.1 then .error .selfDeadlock
      else .ok { s with
        dumpGc := r.2.1
        ndumper := r.2.2
        origins := s.origins.drop r.1.length
        dumped := s.dumped ++ s.origins.take r.1.length }
    else .error .disabled

/-- The steps as a machine. -/
def copyRun (s : Copies) (e : CopyEvent) : Option Copies :=
  match copyStep env s e with
  | .ok s' => some s'
  | .error _ => none

/-! ## What a step can do -/

/-- How many calls have a place reserved. -/
def Copies.inProgress (s : Copies) : ℕ := s.calls.countP Call.reserved

section Steps

variable {env} {s s' : Copies} {e : CopyEvent} {reserved : Bool} {n : ℕ} {c : Call}
  {calls rest : List Call}

/-- What is found and taken out was there once more. -/
theorem perm_cons_eraseP {α : Type} {p : α → Bool} {l : List α} {a : α} (h : l.find? p = some a) :
    l.Perm (a :: l.eraseP p) := by
  induction l with
  | nil => cases h
  | cons b l ih =>
    by_cases hb : p b = true
    · rw [List.find?_cons_of_pos hb] at h
      obtain rfl := Option.some.inj h
      rw [List.eraseP_cons_of_pos hb]
    · rw [List.find?_cons_of_neg hb] at h
      rw [List.eraseP_cons_of_neg hb]
      exact ((ih h).cons b).trans (List.Perm.swap a b _)

/-- A call that is taken is the right one, and the others are left. -/
theorem takeCall_eq_some (h : takeCall reserved n calls = some (c, rest)) :
    c.origin = n ∧ c.reserved = reserved ∧ calls.Perm (c :: rest) := by
  rw [takeCall, Option.map_eq_some_iff] at h
  obtain ⟨d, hd, heq⟩ := h
  obtain ⟨rfl, rfl⟩ := Prod.mk.inj heq
  have hp := List.find?_some hd
  rw [Bool.and_eq_true, beq_iff_eq, beq_iff_eq] at hp
  exact ⟨hp.1, hp.2, perm_cons_eraseP hd⟩

/-- What the first critical section does: below the limit a place is reserved, and at the limit
nothing changes. -/
theorem reserve_eq (ndumper : UInt32) (h : ndumper.toNat < 1024) :
    reserve ndumper = if ndumper.toNat = 1023 then (ndumper, false) else (ndumper + 1, true) := by
  have hadd : (ndumper + 1).toNat = ndumper.toNat + 1 := by
    rw [UInt32.toNat_add]
    show (ndumper.toNat + 1) % 2 ^ 32 = _
    omega
  have hlimit : ndumper + 1 ≥ 1024 ↔ ndumper.toNat = 1023 := by
    rw [ge_iff_le, UInt32.le_iff_toNat_le, hadd]
    show 1024 ≤ ndumper.toNat + 1 ↔ _
    omega
  rw [reserve]
  by_cases hfull : ndumper.toNat = 1023
  · rw [if_pos (hlimit.mpr hfull), if_pos hfull, UInt32.add_sub_cancel]
  · rw [if_neg (fun h => hfull (hlimit.mp h)), if_neg hfull]

/-- **What a step can do.** -/
inductive Stepped (env : KernelEnv) (s : Copies) : CopyEvent → Copies → Prop
  | starts (hr : s.ready = false) :
      Stepped env s .initListHead { s with ready := true, dumpGc := [], origins := [] }
  | calls (r : DownReads) (skb : Option Iphdr) (iph : Iphdr) (delay : UInt16)
      (hdown : nfNetworkDown r skb = (some iph, some delay)) :
      Stepped env s (.arrive r skb) { s with
        arrivals := s.arrivals + 1, calls := ⟨s.arrivals, iph, delay, false⟩ :: s.calls }
  | passes (r : DownReads) (skb : Option Iphdr) :
      Stepped env s (.arrive r skb) { s with
        arrivals := s.arrivals + 1, passed := s.passed ++ [s.arrivals] }
  | reserves (n : ℕ) (c : Call) (rest : List Call)
      (hcall : takeCall false n s.calls = some (c, rest)) (hr : (reserve s.ndumper).2 = true) :
      Stepped env s (.reserve n) { s with
        ndumper := (reserve s.ndumper).1, calls := { c with reserved := true } :: rest }
  | refuses (n : ℕ) (c : Call) (rest : List Call)
      (hcall : takeCall false n s.calls = some (c, rest)) (hr : (reserve s.ndumper).2 = false) :
      Stepped env s (.reserve n) { s with
        ndumper := (reserve s.ndumper).1, calls := rest, passed := s.passed ++ [n] }
  | rollsBack (n : ℕ) (c : Call) (rest : List Call)
      (hcall : takeCall true n s.calls = some (c, rest)) :
      Stepped env s (.rollback n) { s with
        ndumper := rollback s.ndumper, calls := rest, passed := s.passed ++ [n] }
  | enqueues (n : ℕ) (jiffies : UInt32) (c : Call) (rest : List Call)
      (hcall : takeCall true n s.calls = some (c, rest)) (hr : s.ready = true) :
      Stepped env s (.enqueue n jiffies) { s with
        dumpGc := s.dumpGc ++ [⟨jiffies + env.msecsToJiffies c.delay, c.skb⟩]
        origins := s.origins ++ [n]
        queued := s.queued ++ [n]
        calls := rest
        passed := s.passed ++ [n] }
  | dumps (jiffies : ℕ → UInt32) (reads : ℕ → DownReads) (hr : s.ready = true) :
      Stepped env s (.dump jiffies reads) { s with
        dumpGc := (sppDumpWorkCb jiffies 0 s.dumpGc s.ndumper).2.1
        ndumper := (sppDumpWorkCb jiffies 0 s.dumpGc s.ndumper).2.2
        origins := s.origins.drop (sppDumpWorkCb jiffies 0 s.dumpGc s.ndumper).1.length
        dumped := s.dumped ++
          s.origins.take (sppDumpWorkCb jiffies 0 s.dumpGc s.ndumper).1.length }

theorem copyRun_eq_some : copyRun env s e = some s' ↔ copyStep env s e = .ok s' := by
  rw [copyRun]
  cases copyStep env s e <;> simp

theorem stepped (h : copyRun env s e = some s') : Stepped env s e s' := by
  rw [copyRun_eq_some] at h
  cases e with
  | initListHead =>
    rw [copyStep] at h
    split at h
    · cases h
    · rename_i hr
      obtain rfl := Except.ok.inj h
      exact .starts ((Bool.not_eq_true _).mp hr)
  | arrive r skb =>
    rw [copyStep] at h
    split at h
    · rename_i iph delay hdown
      obtain rfl := Except.ok.inj h
      exact .calls r skb iph delay hdown
    · obtain rfl := Except.ok.inj h
      exact .passes r skb
  | reserve n =>
    rw [copyStep] at h
    split at h
    · cases h
    · rename_i c rest hcall
      dsimp only at h
      split at h
      · rename_i hr
        obtain rfl := Except.ok.inj h
        exact .reserves n c rest hcall hr
      · rename_i hr
        obtain rfl := Except.ok.inj h
        exact .refuses n c rest hcall ((Bool.not_eq_true _).mp hr)
  | rollback n =>
    rw [copyStep] at h
    split at h
    · cases h
    · rename_i c rest hcall
      obtain rfl := Except.ok.inj h
      exact .rollsBack n c rest hcall
  | enqueue n jiffies =>
    rw [copyStep] at h
    split at h
    · cases h
    · rename_i c rest hcall
      split at h
      · rename_i hr
        obtain rfl := Except.ok.inj h
        exact .enqueues n jiffies c rest hcall hr
      · cases h
  | dump jiffies reads =>
    rw [copyStep] at h
    split at h
    · rename_i hr
      dsimp only at h
      split at h
      · cases h
      · obtain rfl := Except.ok.inj h
        exact .dumps jiffies reads hr
    · cases h

end Steps

/-! ## The quota -/

/-- The counter counts the copies in the queue and the places reserved, and stays below the limit.
-/
structure Counted (s : Copies) : Prop where
  ndumper_eq : s.ndumper.toNat = s.dumpGc.length + s.inProgress
  lt_limit : s.ndumper.toNat < 1024
  empty : s.ready = false → s.dumpGc = []

section Quota

variable {env : KernelEnv} {s s' : Copies} {e : CopyEvent} {es : List CopyEvent}

theorem counted_init : Counted .init := ⟨rfl, by decide, fun _ => rfl⟩

theorem inProgress_of_takeCall {reserved : Bool} {n : ℕ} {c : Call} {rest : List Call}
    (h : takeCall reserved n s.calls = some (c, rest)) :
    s.inProgress = rest.countP Call.reserved + if reserved = true then 1 else 0 := by
  obtain ⟨-, hres, hperm⟩ := takeCall_eq_some h
  rw [Copies.inProgress, hperm.countP_eq, List.countP_cons, hres]

/-- **Every step keeps the count.** -/
theorem counted_step (h : Counted s) (hstep : Stepped env s e s') : Counted s' := by
  obtain ⟨hcount, hlimit, hempty⟩ := h
  cases hstep with
  | starts hr =>
    refine ⟨?_, hlimit, fun _ => rfl⟩
    rw [hempty hr] at hcount
    exact hcount
  | calls r skb iph delay hdown => exact ⟨hcount, hlimit, hempty⟩
  | passes r skb => exact ⟨hcount, hlimit, hempty⟩
  | reserves n c rest hcall hr =>
    have hprogress := inProgress_of_takeCall hcall
    rw [reserve_eq _ hlimit] at hr ⊢
    split at hr
    · cases hr
    · rename_i hfull
      have hadd : (s.ndumper + 1).toNat = s.ndumper.toNat + 1 := by
        rw [UInt32.toNat_add]
        show (s.ndumper.toNat + 1) % 2 ^ 32 = _
        omega
      rw [if_neg hfull]
      refine ⟨?_, by rw [hadd]; omega, hempty⟩
      show (s.ndumper + 1).toNat =
        s.dumpGc.length + ({ c with reserved := true } :: rest).countP Call.reserved
      rw [List.countP_cons_of_pos rfl]
      simp only [Bool.false_eq_true, if_false] at hprogress
      omega
  | refuses n c rest hcall hr =>
    have hprogress := inProgress_of_takeCall hcall
    rw [reserve_eq _ hlimit] at hr ⊢
    split at hr
    · rename_i hfull
      rw [if_pos hfull]
      refine ⟨?_, hlimit, hempty⟩
      show s.ndumper.toNat = s.dumpGc.length + rest.countP Call.reserved
      simp only [Bool.false_eq_true, if_false] at hprogress
      omega
    · cases hr
  | rollsBack n c rest hcall =>
    have hprogress := inProgress_of_takeCall hcall
    simp only [if_true] at hprogress
    have hone : (1 : UInt32) ≤ s.ndumper := by
      rw [UInt32.le_iff_toNat_le]
      show 1 ≤ s.ndumper.toNat
      omega
    have hsub : (s.ndumper - 1).toNat = s.ndumper.toNat - 1 := UInt32.toNat_sub_of_le _ _ hone
    refine ⟨?_, ?_, hempty⟩
    · show (s.ndumper - 1).toNat = s.dumpGc.length + rest.countP Call.reserved
      omega
    · show (s.ndumper - 1).toNat < 1024
      omega
  | enqueues n jiffies c rest hcall hr =>
    have hprogress := inProgress_of_takeCall hcall
    simp only [if_true] at hprogress
    refine ⟨?_, hlimit, fun hnot => absurd (hr.symm.trans hnot) (by decide)⟩
    show s.ndumper.toNat = (s.dumpGc ++ [_]).length + rest.countP Call.reserved
    rw [List.length_append, List.length_singleton]
    omega
  | dumps jiffies reads hr =>
    have hle : s.dumpGc.length ≤ s.ndumper.toNat := by omega
    have hsent := ndumper_sppDumpWorkCb jiffies 0 hle
    have hlen := congrArg List.length (sppDumpWorkCb_append jiffies 0 s.dumpGc s.ndumper)
    rw [List.length_append] at hlen
    refine ⟨?_, ?_, fun hnot => absurd (hr.symm.trans hnot) (by decide)⟩
    · show (sppDumpWorkCb jiffies 0 s.dumpGc s.ndumper).2.2.toNat =
        (sppDumpWorkCb jiffies 0 s.dumpGc s.ndumper).2.1.length + s.inProgress
      omega
    · show (sppDumpWorkCb jiffies 0 s.dumpGc s.ndumper).2.2.toNat < 1024
      omega

/-- Every state that is reached has the count right. -/
theorem counted_of_reached (h : Run.run (copyRun env) .init es = some s) : Counted s := by
  refine Run.invariant (G := fun _ _ => True) counted_init ?_ (fun _ _ _ _ _ => trivial) h
  intro u e v hu _ huv
  exact counted_step hu (stepped huv)

/-- **The counter counts the queue and the places that are reserved**, in every state that any
processors can reach. So it never goes below zero, at most 1023 copies are queued, and when no call
is between its two critical sections the counter is the length of the queue. -/
theorem counted_of_run (h : Run.run (copyRun env) .init es = some s) :
    s.ndumper.toNat = s.dumpGc.length + s.inProgress ∧ s.dumpGc.length ≤ 1023 ∧
      s.ndumper.toNat ≤ 1023 ∧ (s.inProgress = 0 → s.ndumper.toNat = s.dumpGc.length) := by
  obtain ⟨hcount, hlimit, -⟩ := counted_of_reached h
  exact ⟨hcount, by omega, by omega, fun hnone => by omega⟩

end Quota

/-! ## One copy a packet -/

/-- What is queued or about to be is marked, and no packet is in two places. -/
structure OneCopy (s : Copies) : Prop where
  markedQueue : ∀ d ∈ s.dumpGc, d.skb.tos &&& sppFlagMask ≠ 0
  markedCalls : ∀ c ∈ s.calls, c.skb.tos &&& sppFlagMask ≠ 0
  length_origins : s.origins.length = s.dumpGc.length
  queued_eq : s.dumped ++ s.origins = s.queued
  nodupQueued : (s.calls.map Call.origin ++ s.queued).Nodup
  nodupPassed : (s.calls.map Call.origin ++ s.passed).Nodup
  freshQueued : ∀ n ∈ s.calls.map Call.origin ++ s.queued, n < s.arrivals
  freshPassed : ∀ n ∈ s.calls.map Call.origin ++ s.passed, n < s.arrivals

section OneCopy

variable {env : KernelEnv} {s s' : Copies} {e : CopyEvent} {es : List CopyEvent}

theorem oneCopy_init : OneCopy .init where
  markedQueue := nofun
  markedCalls := nofun
  length_origins := rfl
  queued_eq := rfl
  nodupQueued := List.nodup_nil
  nodupPassed := List.nodup_nil
  freshQueued := nofun
  freshPassed := nofun

/-- A call that is taken out, and its packet moved to the end of a list. -/
theorem perm_move {reserved : Bool} {n : ℕ} {c : Call} {calls rest : List Call} {l : List ℕ}
    (h : takeCall reserved n calls = some (c, rest)) :
    (calls.map Call.origin ++ l).Perm (rest.map Call.origin ++ (l ++ [n])) := by
  obtain ⟨rfl, -, hperm⟩ := takeCall_eq_some h
  have hmap : (calls.map Call.origin).Perm (c.origin :: rest.map Call.origin) := hperm.map _
  refine (hmap.append_right l).trans ?_
  rw [← List.append_assoc]
  exact (List.perm_append_singleton c.origin (rest.map Call.origin ++ l)).symm

/-- The calls that are left were there. -/
theorem mem_of_takeCall {reserved : Bool} {n : ℕ} {c d : Call} {calls rest : List Call}
    (h : takeCall reserved n calls = some (c, rest)) (hd : d ∈ rest) : d ∈ calls :=
  (takeCall_eq_some h).2.2.symm.subset (List.mem_cons_of_mem _ hd)

/-- A call that is taken out, and its packet dropped. -/
theorem perm_fewer {reserved : Bool} {n : ℕ} {c : Call} {calls rest : List Call} (l : List ℕ)
    (h : takeCall reserved n calls = some (c, rest)) :
    (calls.map Call.origin ++ l).Perm (c.origin :: (rest.map Call.origin ++ l)) :=
  ((takeCall_eq_some h).2.2.map Call.origin).append_right l

/-- A call that ends without a copy: its packet goes on alone. -/
theorem OneCopy.goesOn {reserved : Bool} {n : ℕ} {c : Call} {rest : List Call} (h : OneCopy s)
    (hcall : takeCall reserved n s.calls = some (c, rest)) (ndumper : UInt32) :
    OneCopy { s with ndumper := ndumper, calls := rest, passed := s.passed ++ [n] } where
  markedQueue := h.markedQueue
  markedCalls d hd := h.markedCalls d (mem_of_takeCall hcall hd)
  length_origins := h.length_origins
  queued_eq := h.queued_eq
  nodupQueued :=
    (List.nodup_cons.mp ((perm_fewer s.queued hcall).nodup_iff.mp h.nodupQueued)).2
  nodupPassed := (perm_move hcall).nodup_iff.mp h.nodupPassed
  freshQueued n hn :=
    h.freshQueued n ((perm_fewer s.queued hcall).symm.subset (List.mem_cons_of_mem _ hn))
  freshPassed n hn := h.freshPassed n ((perm_move hcall).symm.subset hn)

/-- **Every step keeps that.** -/
theorem oneCopy_step (hcount : Counted s) (h : OneCopy s) (hstep : Stepped env s e s') :
    OneCopy s' := by
  have hone := h
  obtain ⟨hqueue, hcalls, hlen, hqueued, hnq, hnp, hfq, hfp⟩ := h
  cases hstep with
  | starts hr =>
    have hnil : s.origins = [] := List.eq_nil_of_length_eq_zero (by rw [hlen, hcount.empty hr]; rfl)
    rw [hnil] at hqueued
    exact ⟨nofun, hcalls, rfl, hqueued, hnq, hnp, hfq, hfp⟩
  | calls r skb iph delay hdown =>
    obtain ⟨iph', hiph, hmark⟩ := nfNetworkDown_marks (congrArg Prod.snd hdown)
    obtain rfl : iph = iph' := Option.some.inj ((congrArg Prod.fst hdown).symm.trans hiph)
    have hnew {l : List ℕ} (hl : ∀ n ∈ l, n < s.arrivals) : s.arrivals ∉ l := fun hmem =>
      lt_irrefl _ (hl _ hmem)
    have hlt {l : List ℕ} (hl : ∀ n ∈ l, n < s.arrivals) :
        ∀ n ∈ s.arrivals :: l, n < s.arrivals + 1 :=
      List.forall_mem_cons.mpr
        ⟨Nat.lt_succ_self _, fun n hn => (hl n hn).trans (Nat.lt_succ_self _)⟩
    refine ⟨hqueue, List.forall_mem_cons.mpr ⟨hmark, hcalls⟩, hlen, hqueued, ?_, ?_, ?_, ?_⟩
    · exact List.nodup_cons.mpr ⟨hnew hfq, hnq⟩
    · exact List.nodup_cons.mpr ⟨hnew hfp, hnp⟩
    · exact hlt hfq
    · exact hlt hfp
  | passes r skb =>
    refine ⟨hqueue, hcalls, hlen, hqueued, hnq, ?_, ?_, ?_⟩
    · show (s.calls.map Call.origin ++ (s.passed ++ [s.arrivals])).Nodup
      rw [← List.append_assoc, List.nodup_append_comm]
      exact List.nodup_cons.mpr ⟨fun hmem => lt_irrefl _ (hfp _ hmem), hnp⟩
    · exact fun n hn => (hfq n hn).trans (Nat.lt_succ_self _)
    · show ∀ n ∈ s.calls.map Call.origin ++ (s.passed ++ [s.arrivals]), n < s.arrivals + 1
      rw [← List.append_assoc]
      intro n hn
      rcases List.mem_append.mp hn with hn | hn
      · exact (hfp n hn).trans (Nat.lt_succ_self _)
      · rw [List.mem_singleton.mp hn]
        exact Nat.lt_succ_self _
  | reserves n c rest hcall hr =>
    obtain ⟨-, -, hperm⟩ := takeCall_eq_some hcall
    have hmap (l : List ℕ) : (s.calls.map Call.origin ++ l).Perm
        (({ c with reserved := true } :: rest).map Call.origin ++ l) :=
      (hperm.map Call.origin).append_right l
    have hc : c ∈ s.calls := hperm.symm.subset List.mem_cons_self
    have hrest := fun d hd => hcalls d (mem_of_takeCall hcall hd)
    refine ⟨hqueue, List.forall_mem_cons.mpr ⟨hcalls c hc, hrest⟩, hlen, hqueued,
      (hmap _).nodup_iff.mp hnq, (hmap _).nodup_iff.mp hnp, ?_, ?_⟩
    · exact fun n hn => hfq n ((hmap _).symm.subset hn)
    · exact fun n hn => hfp n ((hmap _).symm.subset hn)
  | refuses n c rest hcall hr => exact hone.goesOn hcall _
  | rollsBack n c rest hcall => exact hone.goesOn hcall _
  | enqueues n jiffies c rest hcall hr =>
    have hc : c ∈ s.calls := (takeCall_eq_some hcall).2.2.symm.subset List.mem_cons_self
    refine ⟨?_, fun d hd => hcalls d (mem_of_takeCall hcall hd), ?_, ?_, ?_, ?_, ?_, ?_⟩
    · intro d hd
      rcases List.mem_append.mp hd with hd | hd
      · exact hqueue d hd
      · rw [List.mem_singleton.mp hd]
        exact hcalls c hc
    · show (s.origins ++ [n]).length = (s.dumpGc ++ [_]).length
      rw [List.length_append, List.length_append, hlen]
      rfl
    · show s.dumped ++ (s.origins ++ [n]) = s.queued ++ [n]
      rw [← List.append_assoc, hqueued]
    · exact (perm_move hcall).nodup_iff.mp hnq
    · exact (perm_move hcall).nodup_iff.mp hnp
    · exact fun n hn => hfq n ((perm_move hcall).symm.subset hn)
    · exact fun n hn => hfp n ((perm_move hcall).symm.subset hn)
  | dumps jiffies reads hr =>
    have happ := sppDumpWorkCb_append jiffies 0 s.dumpGc s.ndumper
    have hlen' := congrArg List.length happ
    rw [List.length_append] at hlen'
    refine ⟨fun d hd => hqueue d (happ ▸ List.mem_append_right _ hd), hcalls, ?_, ?_, hnq, hnp, hfq,
      hfp⟩
    · show (s.origins.drop _).length = (sppDumpWorkCb jiffies 0 s.dumpGc s.ndumper).2.1.length
      rw [List.length_drop]
      omega
    · show s.dumped ++ s.origins.take _ ++ s.origins.drop _ = s.queued
      rw [List.append_assoc, List.take_append_drop, hqueued]

theorem oneCopy_of_reached (h : Run.run (copyRun env) .init es = some s) : OneCopy s := by
  have hboth : Counted s ∧ OneCopy s := by
    refine @Run.invariant _ _ _ (fun s => Counted s ∧ OneCopy s) (fun _ _ => True) _ _ _
      ⟨counted_init, oneCopy_init⟩ ?_ (fun _ _ _ _ _ => trivial) h
    rintro u e v ⟨hc, ho⟩ - huv
    exact ⟨counted_step hc (stepped huv), oneCopy_step hc ho (stepped huv)⟩
  exact hboth.2

/-- Marked copies do not call `spp_dumper_alloc` on their way out. -/
theorem reenters_of_marked (reads : ℕ → DownReads) {sent : List SppDumper}
    (h : ∀ d ∈ sent, d.skb.tos &&& sppFlagMask ≠ 0) : reenters reads sent = false := by
  rw [reenters, List.any_eq_false]
  rintro ⟨d, i⟩ hd
  have hmem : d ∈ sent := (List.mem_zipIdx' hd).2 ▸ List.getElem_mem _
  rw [nfNetworkDown_marked (reads i) (h d hmem)]
  exact Bool.false_ne_true

/-- **The worker never waits for itself.** -/
theorem copyStep_ne_selfDeadlock (h : OneCopy s) (e : CopyEvent) :
    copyStep env s e ≠ .error .selfDeadlock := by
  cases e with
  | initListHead =>
    rw [copyStep]
    split <;> exact nofun
  | arrive r skb =>
    rw [copyStep]
    split <;> exact nofun
  | reserve n =>
    rw [copyStep]
    split
    · exact nofun
    · dsimp only
      split <;> exact nofun
  | rollback n =>
    rw [copyStep]
    split <;> exact nofun
  | enqueue n jiffies =>
    rw [copyStep]
    split
    · exact nofun
    · split <;> exact nofun
  | dump jiffies reads =>
    have hsent : ∀ d ∈ (sppDumpWorkCb jiffies 0 s.dumpGc s.ndumper).1,
        d.skb.tos &&& sppFlagMask ≠ 0 := by
      intro d hd
      refine h.markedQueue d ?_
      rw [← sppDumpWorkCb_append jiffies 0 s.dumpGc s.ndumper]
      exact List.mem_append_left _ hd
    rw [copyStep]
    split
    · dsimp only
      rw [reenters_of_marked reads hsent, if_neg Bool.false_ne_true]
      exact nofun
    · exact nofun

/-- **No storm**, in any state that any processors can reach, whatever the settings were at each of
the reads: of no packet are two copies queued, no packet is sent more than twice, a copy that passes
the hook is sent on as it is, and the worker never waits for the lock it holds. -/
theorem noStorm_of_run (h : Run.run (copyRun env) .init es = some s) :
    (∀ n, s.queued.count n ≤ 1) ∧ (∀ n, s.passed.count n + s.dumped.count n ≤ 2) ∧
      (∀ d ∈ s.dumpGc, ∀ r, nfNetworkDown r (some d.skb) = (some d.skb, none)) ∧
      ∀ e, copyStep env s e ≠ .error .selfDeadlock := by
  have hone := oneCopy_of_reached h
  have hqueued (n : ℕ) : s.queued.count n ≤ 1 :=
    List.nodup_iff_count_le_one.mp (List.nodup_append.mp hone.nodupQueued).2.1 n
  have hpassed (n : ℕ) : s.passed.count n ≤ 1 :=
    List.nodup_iff_count_le_one.mp (List.nodup_append.mp hone.nodupPassed).2.1 n
  have hdumped (n : ℕ) : s.dumped.count n ≤ s.queued.count n := by
    rw [← hone.queued_eq, List.count_append]
    exact Nat.le_add_right _ _
  refine ⟨hqueued, ?_, ?_, copyStep_ne_selfDeadlock hone⟩
  · intro n
    have := hqueued n
    have := hpassed n
    have := hdumped n
    omega
  · intro d hd r
    exact nfNetworkDown_marked r (hone.markedQueue d hd)

end OneCopy

/-! ## A run -/

/-- With a client at 192.168.1.10 and a server at 10.0.0.1, two packets are copied at once. For the
second there is no memory, and the worker sends the copy of the first. -/
def secondFails : List CopyEvent :=
  let ctx := (sppSipAdd true (sppCipAdd true sppConfigInit 0x0A01A8C0).2 0x0100000A).2
  let skb : Option Iphdr :=
    some ⟨0, true, ipprotoUdp, 0x0100000A, 0x0A01A8C0, 2000, 1000, 10, [1, 2]⟩
  [.initListHead, .arrive (.of ctx) skb, .arrive (.of ctx) skb, .reserve 0, .reserve 1,
    .rollback 1, .enqueue 0 0, .dump (fun _ => 20) fun _ => .of ctx]

/-- A kernel with a tick a millisecond. -/
def milliseconds : KernelEnv := ⟨fun _ _ => 0, 0, fun ms => ms.toUInt32⟩

theorem counted_secondFails : ∃ s,
    Run.run (copyRun milliseconds) .init secondFails = some s ∧
      s.ndumper.toNat = s.dumpGc.length + s.inProgress := by
  have hrun : (Run.run (copyRun milliseconds) .init secondFails).isSome = true := by decide +kernel
  obtain ⟨s, hs⟩ := Option.isSome_iff_exists.mp hrun
  exact ⟨s, hs, (counted_of_run hs).1⟩

theorem noStorm_secondFails : ∃ s,
    Run.run (copyRun milliseconds) .init secondFails = some s ∧
      ∀ n, s.passed.count n + s.dumped.count n ≤ 2 := by
  have hrun : (Run.run (copyRun milliseconds) .init secondFails).isSome = true := by decide +kernel
  obtain ⟨s, hs⟩ := Option.isSome_iff_exists.mp hrun
  exact ⟨s, hs, (noStorm_of_run hs).2.1⟩

/-- The first packet is sent twice and the second once. -/
example : (Run.run (copyRun milliseconds) .init secondFails).map (fun s =>
    (s.passed, s.dumped, s.ndumper)) = some ([1, 0], [0], 0) := by
  decide +kernel

end Spp

end Tqos
