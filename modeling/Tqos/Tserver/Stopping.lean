import Tqos.Tserver.Leases
import Tqos.Tserver.Mirror

/-!
# A client that stops

`tq_req_stop_speed` takes a client out of three tables, two of its own and one of the kernel module,
in one loop. As long as no message is lost the slots and the kernel's tables agree, whatever else
the server has been doing (`synced_of_run`), and then exactly this client is gone from both sides.

## Main results

* `addrStep` — what any event does to the addresses
* `endSpeed_removes` — what an `END_SPEED` does to the three tables, and to the session
-/

namespace Tqos

open Nl (Garbage)

variable {jc : JsonC} {env : Env} {cip : UInt32} {js : Option Json} {s s' u : Server} {e : Event}
  {reply : Json}

/-! ## The addresses -/

/-- The part of the state that has to do with addresses. -/
def Server.addrs (s : Server) : (Fin cliMax → UInt32) × (Fin cliMax → UInt32) × Link :=
  (s.cfg.ipd, s.cfg.ips, s.link)

@[simp] theorem addrs_tqTimerNew (s : Server) (h : Handler) (delay now : ℕ) :
    (tqTimerNew s h delay now).addrs = s.addrs := by
  rw [tqTimerNew]
  split <;> rfl

theorem addrs_startDiagnose (env : Env) (s : Server) : (startDiagnose env s).addrs = s.addrs := by
  rw [startDiagnose]
  split
  · rfl
  · exact addrs_tqTimerNew _ _ _ _

theorem addrs_startSession (env : Env) (times : ℤ) (s : Server) :
    (startSession env times s).addrs = s.addrs := by
  rw [startSession, addrs_tqTimerNew, addrs_tqTimerNew]
  rfl

theorem addrs_startQos (leases : LeaseFile) (s : Server) : (startQos leases s).addrs = s.addrs := by
  obtain ⟨q, nv, h⟩ := exists_startQos leases s
  rw [h]
  rfl

theorem addrs_qosTmHandler (leases : LeaseFile) (now : ℕ) (s : Server) :
    (qosTmHandler leases now s).addrs = s.addrs := by
  obtain ⟨q, nv, h | h⟩ := exists_qosTmHandler leases now s
  · rw [h]
    rfl
  · rw [h, addrs_tqTimerNew]
    rfl

theorem addrs_diagTmHandler (h : diagTmHandler env s = .ok s') : s'.addrs = s.addrs := by
  rw [diagTmHandler] at h
  dsimp only at h
  generalize (if s.tqDiagnose.lastIndex = 11 then 0 else s.tqDiagnose.lastIndex + 1) = i at h
  split at h
  · obtain ⟨traffic, -, h⟩ := bind_eq_ok.mp h
    split at h
    · obtain rfl := Except.ok.inj h
      exact addrs_tqTimerNew _ _ _ _
    · obtain rfl := Except.ok.inj h
      rfl
  · cases h

theorem addrs_runHandler {h : Handler} (hrun : runHandler env s h = .ok s') :
    s'.addrs = s.addrs := by
  cases h with
  | startQos =>
    obtain rfl := Except.ok.inj hrun
    exact addrs_startQos env.leases s
  | qosTmHandler =>
    obtain rfl := Except.ok.inj hrun
    exact addrs_qosTmHandler env.leases env.now s
  | diagTmHandler => exact addrs_diagTmHandler hrun

/-- What an event can do to the addresses. -/
inductive AddrStep (jc : JsonC) (s : Server) (e : Event) (s' : Server) : Prop
  /-- Nothing. -/
  | stays (h : s'.addrs = s.addrs)
  /-- A client and its servers are added. -/
  | adds (cip : UInt32) (js : Option Json) (env : Env) (reply : Json)
      (he : e = .request MsgType.openSpp.code cip js env)
      (h : tqReqStartSpp jc env cip js s = .ok (s', reply))
  /-- A client is removed. -/
  | removes (cip : UInt32) (js : Option Json) (env : Env) (reply : Json)
      (he : e = .request MsgType.endSpeed.code cip js env)
      (h : tqReqStopSpeed env cip js s = .ok (s', reply))

/-- A number that stands for a type is its code. -/
theorem code_of_ofCode {n : UInt16} {t : MsgType} (h : MsgType.ofCode n = some t) : n = t.code := by
  have hfound := List.find?_some h
  exact (of_decide_eq_true hfound).symm

/-- **What any event does to the addresses.** -/
theorem addrStep (h : step jc s e = some s') : AddrStep jc s e s' := by
  cases e with
  | tick now =>
    obtain rfl := Option.some.inj h
    exact .stays rfl
  | expire env =>
    obtain ⟨g, v, htake, hrun⟩ := step_expire h
    obtain ⟨k, q, -, rfl⟩ := takeDue_eq_some htake
    have haddrs := addrs_runHandler hrun
    exact .stays haddrs
  | request msgType cip js env =>
    rw [step, Option.map_eq_some_iff] at h
    obtain ⟨r, hr, rfl⟩ := h
    have hserve := toOption_eq_some.mp hr
    rw [serve] at hserve
    cases hm : MsgType.ofCode msgType with
    | none =>
      rw [hm] at hserve
      obtain rfl := Except.ok.inj hserve
      exact .stays rfl
    | some t =>
      rw [hm] at hserve
      cases t with
      | getVer | reqAuth | diagAuth =>
        obtain ⟨_, -, hserve⟩ := bind_eq_ok.mp hserve
        obtain rfl := Except.ok.inj hserve
        exact .stays rfl
      | openQos =>
        obtain ⟨⟨s', reply⟩, hok, hserve⟩ := bind_eq_ok.mp hserve
        obtain rfl := Except.ok.inj hserve
        obtain ⟨q, -, ⟨-, rfl⟩ | ⟨-, -, rfl⟩ | ⟨-, -, rfl⟩⟩ := tqReqStartQos_ok hok
        · exact .stays rfl
        · exact .stays rfl
        · exact .stays (addrs_startSession _ _ _)
      | openSpp =>
        obtain ⟨⟨s', reply⟩, hok, hserve⟩ := bind_eq_ok.mp hserve
        obtain rfl := Except.ok.inj hserve
        exact .adds cip js env reply (by rw [code_of_ofCode hm]) hok
      | endSpeed =>
        obtain ⟨⟨s', reply⟩, hok, hserve⟩ := bind_eq_ok.mp hserve
        obtain rfl := Except.ok.inj hserve
        exact .removes cip js env reply (by rw [code_of_ofCode hm]) hok
      | openInfo =>
        obtain ⟨⟨s', reply⟩, hok, hserve⟩ := bind_eq_ok.mp hserve
        obtain rfl := Except.ok.inj hserve
        obtain rfl := tqReqGetDiag_ok hok
        exact .stays (addrs_startDiagnose _ _)
      | endInfo =>
        obtain ⟨⟨s', reply⟩, hok, hserve⟩ := bind_eq_ok.mp hserve
        obtain rfl := Except.ok.inj hserve
        simp only [tqReqStopDiag, bind_eq_ok] at hok
        obtain ⟨_, _, _, _, hok⟩ := hok
        obtain rfl := congrArg Prod.fst (Except.ok.inj hok)
        exact .stays rfl

/-! ## Both sides -/

/-- Every message the event sends goes through. -/
def Event.SendsAll : Event → Prop
  | .request _ _ _ env => ∀ n, env.sends n = true
  | _ => True

section Runs

variable {pid : UInt32} {g : ℕ → Garbage} {es : List Event} {nv : Nvram}

/-- **Any event** keeps both sides the same. -/
theorem synced_of_step (he : e.SendsAll) (hs : s.Synced pid g) (h : step jc s e = some s') :
    s'.Synced pid g := by
  cases addrStep h with
  | stays haddrs =>
    obtain ⟨hipd, haddrs⟩ := Prod.mk.inj haddrs
    obtain ⟨hips, hlink⟩ := Prod.mk.inj haddrs
    rw [Server.Synced, hipd, hips, hlink]
    exact hs
  | adds cip js env reply heq hok =>
    subst heq
    exact synced_openSpp he hs hok
  | removes cip js env reply heq hok =>
    subst heq
    exact synced_endSpeed he hs hok

/-- **Any run.** -/
theorem synced_of_run (hsends : ∀ e ∈ es, e.SendsAll)
    (hrun : Run.run (step jc) (serverInit nv) es = some s) : s.Synced pid g := by
  have hG : Run.Along (step jc) (fun _ e => e.SendsAll) (serverInit nv) es := by
    intro p e hp u _
    exact hsends e (hp.subset (List.mem_append_right p List.mem_cons_self))
  exact Run.invariant (synced_init pid g) (fun u e v hu he hstep => synced_of_step he hu hstep)
    hG hrun

/-! ## What stopping does -/

/-- The slots and the kernel after the messages of an `END_SPEED` went through. -/
theorem addrs_of_stopSpeed (hsends : ∀ n, env.sends n = true) (hcip : cip ≠ 0)
    (hs : s.Synced pid g) (h : tqReqStopSpeed env cip js s = .ok (s', reply)) :
    (∀ i, s'.cfg.ipd i ≠ cip) ∧
      ¬ (kernelAfter pid g s'.link.sent).HasClient cip ∧
      (∀ i, s.cfg.ipd i ≠ cip → s'.cfg.ipd i = s.cfg.ipd i) ∧ s'.cfg.ips = s.cfg.ips ∧
      (∀ x ≠ cip, (kernelAfter pid g s'.link.sent).HasClient x ↔
        (kernelAfter pid g s.link.sent).HasClient x) ∧
      ∀ x, (kernelAfter pid g s'.link.sent).HasServer x ↔
        (kernelAfter pid g s.link.sent).HasServer x := by
  have hs' : s'.Synced pid g := synced_endSpeed hsends hs h
  obtain ⟨hipd, hips, -⟩ := tqReqStopSpeed_eq_ok h
  have hclear (x : UInt32) :
      SlotTable.Holds 0 s'.cfg.ipd x ↔ x ≠ cip ∧ SlotTable.Holds 0 s.cfg.ipd x := by
    rw [hipd, SlotTable.holds_clear]
  refine ⟨fun i hi => ?_, ?_, fun i hi => ?_, hips, fun x hx => ?_, fun x => ?_⟩
  · exact ((hclear cip).mp ⟨hcip, i, hi⟩).1 rfl
  · rw [hs'.client, hclear]
    exact fun hholds => hholds.1 rfl
  · rw [hipd]
    exact if_neg hi
  · rw [hs'.client, hclear, hs.client]
    exact and_iff_right hx
  · rw [hs'.server, hs.server, hips]

/-- The QoS part after an `END_SPEED`. -/
theorem tqQos_of_stopSpeed (h : tqReqStopSpeed env cip js s = .ok (s', reply)) :
    (∀ i, (s'.tqQos.qosCli i).ip ≠ inetNtoa cip) ∧
      s'.tqQos.cliCnt = (enabled s'.tqQos.qosCli).length ∧
      s'.tqQos.enable = if s'.tqQos.cliCnt = 0 then false else s.tqQos.enable := by
  have hq := (tqReqStopSpeed_ok h).1
  have hcnt : (stopQos (inetNtoa cip) s.tqQos).cliCnt =
      (enabled (stopQos (inetNtoa cip) s.tqQos).qosCli).length := by
    rw [stopQos]
    split
    · exact cliCnt_updateQosInfo _
    · exact cliCnt_updateQosInfo _
  have hen : (stopQos (inetNtoa cip) s.tqQos).enable =
      if (stopQos (inetNtoa cip) s.tqQos).cliCnt = 0 then false else s.tqQos.enable := by
    rw [stopQos]
    by_cases hzero : (updateQosInfo { s.tqQos with
        qosCli := removeClient (inetNtoa cip) s.tqQos.qosCli }).cliCnt = 0
    · rw [if_pos hzero, if_pos hzero]
    · rw [if_neg hzero, if_neg hzero]
      rfl
  refine ⟨fun i hip => ?_, by rw [hq, hcnt], by rw [hq, hen]⟩
  rw [hq, qosCli_stopQos, QosCli.ip_countDown, removeClient] at hip
  split at hip
  · -- no address has the empty text
    obtain ⟨c, rest, hc, -⟩ := exists_digit_inetNtoa cip
    rw [hc] at hip
    cases hip
  · rename_i hne
    exact hne hip

/-- **Stopping removes exactly the client that asks for it**, from any state that can be reached
without losing a message: from the slots, from the table of QoS clients and from the kernel. -/
theorem endSpeed_removes (pid : UInt32) (g : ℕ → Garbage) (nv : Nvram) (es : List Event)
    (hsends : ∀ e ∈ es, e.SendsAll) (hrun : Run.run (step jc) (serverInit nv) es = some s)
    (cip : UInt32) (hcip : cip ≠ 0) (js : Option Json) (env : Env)
    (henv : ∀ n, env.sends n = true)
    (hstep : step jc s (.request MsgType.endSpeed.code cip js env) = some s') :
    (∀ i, s'.cfg.ipd i ≠ cip) ∧ (∀ i, (s'.tqQos.qosCli i).ip ≠ inetNtoa cip) ∧
      ¬ (kernelAfter pid g s'.link.sent).HasClient cip ∧
      (∀ i, s.cfg.ipd i ≠ cip → s'.cfg.ipd i = s.cfg.ipd i) ∧ s'.cfg.ips = s.cfg.ips ∧
      (∀ x ≠ cip, (kernelAfter pid g s'.link.sent).HasClient x ↔
        (kernelAfter pid g s.link.sent).HasClient x) ∧
      (∀ x, (kernelAfter pid g s'.link.sent).HasServer x ↔
        (kernelAfter pid g s.link.sent).HasServer x) ∧
      s'.tqQos.cliCnt = (enabled s'.tqQos.qosCli).length ∧
      s'.tqQos.enable = if s'.tqQos.cliCnt = 0 then false else s.tqQos.enable := by
  obtain ⟨reply, hok⟩ : ∃ reply, tqReqStopSpeed env cip js s = .ok (s', reply) := by
    rw [step, Option.map_eq_some_iff] at hstep
    obtain ⟨r, hr, rfl⟩ := hstep
    obtain ⟨⟨s', reply⟩, hok, hserve⟩ := bind_eq_ok.mp (toOption_eq_some.mp hr)
    obtain rfl := Except.ok.inj hserve
    exact ⟨reply, hok⟩
  obtain ⟨hslots, hkernel, hothers, hips, hclients, hservers⟩ :=
    addrs_of_stopSpeed henv hcip (synced_of_run hsends hrun) hok
  obtain ⟨htexts, hcnt, hen⟩ := tqQos_of_stopSpeed hok
  exact ⟨hslots, htexts, hkernel, hothers, hips, hclients, hservers, hcnt, hen⟩

/-- Two clients are served. -/
def twoClients : List Event :=
  [.request MsgType.openSpp.code 1 (some (Json.obj [])) (Env.at 0 none), openQosAt 0 1 60,
    .request MsgType.openSpp.code 2 (some (Json.obj [])) (Env.at 0 none)]

/-- The first one stops. -/
theorem endSpeed_twoClients :
    ∃ s s', Run.run (step (JsonC.reading [])) (serverInit ⟨['0'], []⟩) twoClients = some s ∧
      step (JsonC.reading []) s (.request MsgType.endSpeed.code 1 (some (Json.obj []))
        (Env.at 0 none)) = some s' ∧ ∀ i, s'.cfg.ipd i ≠ 1 := by
  obtain ⟨s, hrun⟩ := Option.isSome_iff_exists.mp
    (show (Run.run (step (JsonC.reading [])) (serverInit ⟨['0'], []⟩) twoClients).isSome = true by
      decide +kernel)
  have hsends : ∀ e ∈ twoClients, e.SendsAll := by
    intro e he
    simp only [twoClients, List.mem_cons, List.not_mem_nil, or_false] at he
    rcases he with rfl | rfl | rfl <;> exact fun _ => rfl
  obtain ⟨s', hstep, -⟩ := synced_step (.endSpeed 1 (Json.obj []) (Env.at 0 none) fun _ => rfl)
    (synced_of_run hsends hrun : s.Synced 7 fun _ => ⟨0, [0, 0]⟩)
  exact ⟨s, s', hrun, hstep, (endSpeed_removes 7 (fun _ => ⟨0, [0, 0]⟩) ⟨['0'], []⟩ _ hsends hrun 1
    (by decide) _ (Env.at 0 none) (fun _ => rfl) hstep).1⟩

end Runs

end Tqos
