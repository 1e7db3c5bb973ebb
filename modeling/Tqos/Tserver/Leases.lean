import Tqos.Tserver.QosRuns

/-!
# Leases

How long a client is let through is counted in ticks of `qos_tm_handler`. The countdown is in
`update_qos_info`, which is called by the tick and, to find out whether any client is left, by
`tq_req_stop_speed`. So every client that stops takes a tick from the leases of all the others.

`tableStep` says what any event does to the table, in terms of the functions that write it. A lease
is then followed by counting: it has as many ticks left as it was given, less one for every event
that counts down, until there are none left; from then on the slot never shows the client again
without a request of its own.

## Main results

* `lease_iff` — a lease runs by the tick alone exactly if no other client stops in the meantime
-/

namespace Tqos

variable {jc : JsonC} {s s' u : Server} {e : Event} {es : List Event}

/-- The client an event comes from. -/
def Event.sender : Event → Option UInt32
  | .request _ cip _ _ => some cip
  | _ => none

/-- The event is an `END_SPEED`. -/
def Event.isEndSpeed : Event → Bool
  | .request msgType _ _ _ => decide (MsgType.ofCode msgType = some .endSpeed)
  | _ => false

/-- The event counts the leases down. -/
def countsDown (s : Server) (e : Event) : Bool := firesTick s e || e.isEndSpeed

/-! ## What an event does to the table -/

/-- What an event can do to the table. -/
inductive TableStep (s : Server) (e : Event) (tab : Fin cliMax → QosCli) : Prop
  /-- Nothing. -/
  | stays (hc : countsDown s e = false) (h : tab = s.tqQos.qosCli)
  /-- A client is recorded. -/
  | records (hc : countsDown s e = false) (cip : UInt32) (times : ℤ) (hfrom : e.sender = some cip)
      (h : tab = recordNewClient (inetNtoa cip) times s.tqQos.qosCli)
  /-- The tick counts down. -/
  | counts (hc : countsDown s e = true) (h : tab = fun i => (s.tqQos.qosCli i).countDown)
  /-- A client is removed, and the others are counted down. -/
  | removes (hc : countsDown s e = true) (cip : UInt32) (hfrom : e.sender = some cip)
      (h : tab = fun i => (removeClient (inetNtoa cip) s.tqQos.qosCli i).countDown)

/-- Whether the session ends or not, stopping leaves the same table. -/
theorem qosCli_stopQos (localIp : List Char) (q : TqQosCtl) :
    (stopQos localIp q).qosCli = fun i => (removeClient localIp q.qosCli i).countDown := by
  rw [stopQos]
  split <;> rfl

/-- **What any event does to the table.** -/
theorem tableStep (h : step jc s e = some s') : TableStep s e s'.tqQos.qosCli := by
  cases e with
  | tick now =>
    obtain rfl := Option.some.inj h
    exact .stays rfl rfl
  | request msgType cip js env =>
    rcases step_request h with ⟨-, hne, hq, -⟩ | ⟨-, hne, q, rfl⟩ | ⟨-, hne, -, q, rfl⟩ |
      ⟨-, hend, hq, -⟩
    · exact .stays (by simp [countsDown, firesTick, Event.isEndSpeed, hne]) (by rw [hq])
    · exact .records (by simp [countsDown, firesTick, Event.isEndSpeed, hne]) cip (ticks q) rfl rfl
    · refine .records (by simp [countsDown, firesTick, Event.isEndSpeed, hne]) cip (ticks q) rfl ?_
      rw [startSession, tqQos_tqTimerNew, tqQos_tqTimerNew]
      rfl
    · exact .removes (by simp [countsDown, Event.isEndSpeed, hend]) cip rfl
        (by rw [hq, qosCli_stopQos])
  | expire env =>
    obtain ⟨g, v, htake, hrun⟩ := step_expire h
    cases g with
    | diagTmHandler =>
      have hc : countsDown s (.expire env) = false := by
        simp [countsDown, firesTick, Event.isEndSpeed, htake]
      exact .stays hc (by rw [(diagTmHandler_ok hrun).1, (takeDue_diag htake).2])
    | startQos =>
      have hc : countsDown s (.expire env) = false := by
        simp [countsDown, firesTick, Event.isEndSpeed, htake]
      obtain ⟨-, -, -, -, hq⟩ := takeDue_qos htake rfl
      obtain rfl := Except.ok.inj hrun
      exact .stays hc (by rw [(startQos_frame env.leases v).1, hq])
    | qosTmHandler =>
      have hc : countsDown s (.expire env) = true := by simp [countsDown, firesTick, htake]
      obtain ⟨-, -, -, -, hq⟩ := takeDue_qos htake rfl
      obtain rfl := Except.ok.inj hrun
      exact .counts hc (by rw [qosCli_qosTmHandler, hq]; rfl)

/-! ## A lease -/

/-- What a slot shows of a lease of `t` ticks that was given to `cip`, after `n` countdowns. -/
def Lease (cip : UInt32) (t : ℤ) (n : ℕ) (c : QosCli) : Prop :=
  if (n : ℤ) < t then c = ⟨true, inetNtoa cip, t - n⟩
  else ¬ (c.en = true ∧ c.ip = inetNtoa cip)

section Lease

variable {cip other : UInt32} {t times : ℤ} {n : ℕ} {c : QosCli} {tab : Fin cliMax → QosCli}
  {i : Fin cliMax}

/-- A countdown takes one tick, and the last one disables the slot. -/
theorem Lease.countDown (h : Lease cip t n c) : Lease cip t (n + 1) c.countDown := by
  rw [Lease] at h ⊢
  push_cast
  by_cases hlast : (n : ℤ) + 1 < t
  · rw [if_pos (by omega)] at h
    rw [if_pos hlast, h, QosCli.countDown_of_lt rfl (by dsimp only; omega)]
    congr 1
    ring
  · rw [if_neg hlast, QosCli.en_countDown, QosCli.ip_countDown]
    rintro ⟨⟨hen, htimes⟩, hip⟩
    by_cases hn : (n : ℤ) < t
    · rw [if_pos hn] at h
      rw [h] at htimes
      dsimp only at htimes
      omega
    · rw [if_neg hn] at h
      exact h ⟨hen, hip⟩

/-- Recording another client leaves the lease as it is. -/
theorem Lease.recordNewClient (hne : other ≠ cip) (h : Lease cip t n (tab i)) :
    Lease cip t n (recordNewClient (inetNtoa other) times tab i) := by
  have hip : inetNtoa other ≠ inetNtoa cip := inetNtoa_injective.ne hne
  rw [Lease] at h ⊢
  by_cases hn : (n : ℤ) < t
  · rw [if_pos hn] at h ⊢
    rw [recordNewClient_apply_of_ne (by rw [h]) (by rw [h]; exact hip), h]
  · rw [if_neg hn] at h ⊢
    rintro ⟨hen, hcip⟩
    rw [recordNewClient_apply] at hen hcip
    by_cases hslot : slotFor (inetNtoa other) tab = some i
    · rw [if_pos hslot] at hcip
      exact hip hcip
    · rw [if_neg hslot] at hen hcip
      by_cases hown : inetNtoa other = (tab i).ip
      · rw [if_pos hown] at hcip
        exact hip (hown.trans hcip)
      · rw [if_neg hown] at hen hcip
        exact h ⟨hen, hcip⟩

/-- So does removing another client. -/
theorem Lease.removeClient (hne : other ≠ cip) (h : Lease cip t n (tab i)) :
    Lease cip t n (removeClient (inetNtoa other) tab i) := by
  have hip : inetNtoa cip ≠ inetNtoa other := inetNtoa_injective.ne hne.symm
  rw [Lease] at h ⊢
  rw [Tqos.removeClient]
  by_cases hn : (n : ℤ) < t
  · rw [if_pos hn] at h ⊢
    rw [h, if_neg hip]
  · rw [if_neg hn] at h ⊢
    split
    · rintro ⟨hen, -⟩
      cases hen
    · exact h

/-- **One step.** An event of another client takes a tick from the lease exactly if it counts down.
-/
theorem Lease.step (hne : e.sender ≠ some cip) (h : Lease cip t n (s.tqQos.qosCli i))
    (hstep : Tqos.step jc s e = some s') :
    Lease cip t (n + if countsDown s e then 1 else 0) (s'.tqQos.qosCli i) := by
  cases tableStep hstep with
  | stays hc htab =>
    rw [hc, htab]
    exact h
  | records hc other times hfrom htab =>
    rw [hc, htab]
    exact h.recordNewClient fun heq => hne (by rw [hfrom, heq])
  | counts hc htab =>
    rw [hc, htab]
    exact h.countDown
  | removes hc other hfrom htab =>
    rw [hc, htab]
    exact (h.removeClient fun heq => hne (by rw [hfrom, heq])).countDown

/-- **A whole run.** -/
theorem Lease.run (hne : ∀ e ∈ es, e.sender ≠ some cip) (h : Lease cip t n (s.tqQos.qosCli i))
    (hrun : Run.run (Tqos.step jc) s es = some u) :
    Lease cip t (n + Run.countAlong (Tqos.step jc) countsDown s es) (u.tqQos.qosCli i) := by
  induction es generalizing s n with
  | nil =>
    obtain rfl := Option.some.inj hrun
    exact h
  | cons e es ih =>
    rw [Run.run_cons, Option.bind_eq_some_iff] at hrun
    obtain ⟨v, hv, hrun⟩ := hrun
    rw [Run.countAlong_cons _ hv, ← Nat.add_assoc]
    exact ih (fun f hf => hne f (List.mem_cons_of_mem _ hf))
      (h.step (hne e List.mem_cons_self) hv) hrun

end Lease

/-- The countdowns of a run are its ticks and its `END_SPEED`s. -/
theorem countAlong_countsDown (hrun : Run.run (step jc) s es = some u) :
    Run.countAlong (step jc) countsDown s es =
      Run.countAlong (step jc) firesTick s es + es.countP Event.isEndSpeed := by
  induction es generalizing s with
  | nil => rfl
  | cons e es ih =>
    rw [Run.run_cons, Option.bind_eq_some_iff] at hrun
    obtain ⟨v, hv, hrun⟩ := hrun
    rw [Run.countAlong_cons _ hv, Run.countAlong_cons _ hv, ih hrun, List.countP_cons, countsDown]
    cases e with
    | request msgType cip js env =>
      simp only [firesTick, Bool.false_or, Bool.false_eq_true, if_false]
      omega
    | tick now => simp [firesTick, Event.isEndSpeed]
    | expire env =>
      simp only [Event.isEndSpeed, Bool.or_false, Bool.false_eq_true, if_false]
      omega

/-- **A lease runs by the tick alone** exactly if no other client stops in the meantime: after a
lease of `t` ticks was recorded in the slot `i`, and a run without a request of its client and with
fewer than `t` ticks, the slot is the client's and has as many ticks left as have not passed. -/
theorem lease_iff (cip : UInt32) (tab : Fin cliMax → QosCli) (i : Fin cliMax) {t : ℤ} (ht : 1 ≤ t)
    (hslot : slotFor (inetNtoa cip) tab = some i)
    (hs : s.tqQos.qosCli = recordNewClient (inetNtoa cip) t tab)
    (hne : ∀ e ∈ es, e.sender ≠ some cip) (hrun : Run.run (step jc) s es = some u)
    (hk : (Run.countAlong (step jc) firesTick s es : ℤ) < t) :
    u.tqQos.qosCli i = ⟨true, inetNtoa cip, t - Run.countAlong (step jc) firesTick s es⟩ ↔
      ∀ e ∈ es, e.isEndSpeed = false := by
  have h₀ : Lease cip t 0 (s.tqQos.qosCli i) := by
    rw [Lease, if_pos (by omega), hs, recordNewClient_apply, if_pos hslot]
    simp
  have hend := h₀.run hne hrun
  rw [Nat.zero_add, countAlong_countsDown hrun, Lease] at hend
  have hzero : (∀ e ∈ es, e.isEndSpeed = false) ↔ es.countP Event.isEndSpeed = 0 := by
    simp [List.countP_eq_zero]
  rw [hzero]
  push_cast at hend
  split at hend
  · rw [hend, QosCli.mk.injEq]
    constructor
    · rintro ⟨-, -, htimes⟩
      omega
    · intro hno
      refine ⟨rfl, rfl, ?_⟩
      omega
  · rename_i hout
    constructor
    · intro hkept
      exact absurd ⟨by rw [hkept], by rw [hkept]⟩ hend
    · intro hno
      omega

/-- A server on which the client 1 has just opened a session of 60 seconds, three ticks. -/
def leased : Server :=
  startSession (Env.at 0 none) 3
    { serverInit ⟨['0'], []⟩ with tqQos := recorded 1 ⟨60, 1, 1⟩ TqQosCtl.zero }

example : step .unused (serverInit ⟨['0'], []⟩) (openQosAt 0 1 60) = some leased := rfl

/-- Another client asks for QoS, and a tick passes. -/
def otherSession : List Event :=
  [openQosAt 0 2 40, .tick 25, .expire (Env.at 25 none), .expire (Env.at 25 none)]

/-- Two ticks are left of the lease. -/
theorem lease_otherSession :
    ∃ u, Run.run (step .unused) leased otherSession = some u ∧
      u.tqQos.qosCli 0 = ⟨true, inetNtoa 1, 2⟩ := by
  obtain ⟨u, hrun⟩ := Option.isSome_iff_exists.mp
    (show (Run.run (step .unused) leased otherSession).isSome = true by decide +kernel)
  have hk : Run.countAlong (step .unused) firesTick leased otherSession = 1 := by decide +kernel
  have h := (lease_iff 1 TqQosCtl.zero.qosCli 0 (by decide) (by decide +kernel) rfl
    (by decide +kernel) hrun (by rw [hk]; decide)).mpr (by decide +kernel)
  rw [hk] at h
  exact ⟨u, hrun, h⟩

/-- Another client stops, and a tick of the lease is gone without any tick of the timer. -/
theorem not_lease_endSpeed :
    Run.countAlong (step .unused) firesTick leased [endSpeed 2] = 0 ∧
      ∀ u, Run.run (step .unused) leased [endSpeed 2] = some u →
        u.tqQos.qosCli 0 ≠ ⟨true, inetNtoa 1, 3⟩ := by
  refine ⟨by decide +kernel, fun u hrun hkept => ?_⟩
  have htimes : ((Run.run (step .unused) leased [endSpeed 2]).map fun u =>
      (u.tqQos.qosCli 0).times) = some 2 := by
    decide +kernel
  rw [hrun, Option.map_some, hkept] at htimes
  exact absurd htimes (by decide)

end Tqos
