import Tqos.Tserver.Requests

/-!
# The running server

The main loop takes one thing after another: a request from a client, a reading of the clock when
the one-second timer fires, and then the timers that are due, one by one. Here each of these is an
event and the server is a partial step over them; an event on which the process dies has no
successor. A timer that is due may run between any two requests, so that the runs of the model are
those of the loop and more.

## The QoS session

What concerns the override is a small part of the state, `Session`: whether a session is on, what
was saved, what nvram holds and which of the two QoS timers are pending. `qosStep` says what any
event does to it, and is all that the theorems about whole runs need to know of the handlers.
-/

namespace Tqos

/-- Something the main loop takes up. -/
inductive Event
  /-- A request of a client, with the object its content was parsed to. -/
  | request (msgType : UInt16) (cip : UInt32) (js : Option Json) (env : Env)
  /-- The clock is read. -/
  | tick (now : ℕ)
  /-- The earliest timer runs, if it is due. -/
  | expire (env : Env)

/-- `ev->handler(ev)`. -/
def runHandler (env : Env) (s : Server) : Handler → Except Crash Server
  | .startQos => .ok (startQos env.leases s)
  | .qosTmHandler => .ok (qosTmHandler env.leases env.now s)
  | .diagTmHandler => diagTmHandler env s

/-- One event. -/
def step (jc : JsonC) (s : Server) : Event → Option Server
  | .request msgType cip js env => ((serve jc env cip msgType js s).toOption).map Prod.fst
  | .tick now => some { s with currentMsec := now }
  | .expire env => (takeDue s).bind fun r => (runHandler env r.2 r.1).toOption

/-! ## Which event it is -/

/-- The event is an `OPEN_QOS` that asks for QoS while no session is on. -/
def opensSession (s : Server) : Event → Bool
  | .request msgType _ js _ =>
    decide (MsgType.ofCode msgType = some .openQos) && !s.tqQos.enable &&
      match readOpenQos js with
      | .ok r => decide (r.brandqos ≠ 0)
      | .error _ => false
  | _ => false

/-- The event runs `qos_tm_handler`. -/
def firesTick (s : Server) : Event → Bool
  | .expire _ => match takeDue s with
    | some (.qosTmHandler, _) => true
    | _ => false
  | _ => false

/-- The lease file the event meets gives `qos_tm_handler` a usable list, once the countdowns have
gone on. -/
def meetsUsable (s : Server) : Event → Bool
  | .expire env => decide (Usable (updateQosInfo s.tqQos) env.leases)
  | _ => false

/-! ## The session -/

/-- The settings saved from nvram. -/
def savedOf (nv : Nvram) : QosCfg := ⟨decide ('2' ∈ nv.qosEnable), nv.ipQosList⟩

/-- The settings as they are written to the recovery file. -/
def filedOf (c : QosCfg) : Nvram := ⟨if c.en then ['2'] else ['0'], c.ipList⟩

/-- The settings written back from what was saved. -/
def restoredOf (c : QosCfg) : Nvram := qosSh (if c.en then ['2'] else ['0']) c.ipList

/-- Settings whose flag is one of the two it can be stand in the file as they were. -/
theorem filedOf_savedOf {nv : Nvram} (h : nv.qosEnable = ['0'] ∨ nv.qosEnable = ['2']) :
    filedOf (savedOf nv) = nv := by
  obtain ⟨en, list⟩ := nv
  rcases h with rfl | rfl <;> rfl

/-- They are restored as they were if the list is one word. -/
theorem restoredOf_savedOf {nv : Nvram} (h : nv.qosEnable = ['0'] ∨ nv.qosEnable = ['2'])
    (hword : ∀ c ∈ nv.ipQosList, isBlank c = false) : restoredOf (savedOf nv) = nv := by
  have hrestored : restoredOf (savedOf nv) = { filedOf (savedOf nv) with
      ipQosList := unquoted nv.ipQosList } := rfl
  rw [hrestored, filedOf_savedOf h, unquoted_of_word hword]

/-- Whether a handler is one of the two that make up a session. -/
def Handler.isQos : Handler → Bool
  | .diagTmHandler => false
  | _ => true

/-- The part of the state that the override is about. -/
structure Session where
  enable : Bool
  saved : QosCfg
  file : Option Nvram
  nvram : Nvram
  queue : DeadlineQueue Handler

/-- The session of a state. -/
def Server.session (s : Server) : Session where
  enable := s.tqQos.enable
  saved := s.cfg.qos
  file := s.qosCfgFile
  nvram := s.nvram
  queue := s.timers.filter Handler.isQos

/-- The session after it was opened, with timers for `t₁` and `t₂`. -/
def Session.opened (u : Session) (t₁ t₂ : ℕ) : Session where
  enable := true
  saved := savedOf u.nvram
  file := some (filedOf (savedOf u.nvram))
  nvram := u.nvram
  queue := (u.queue.add ⟨t₁, .startQos⟩).add ⟨t₂, .qosTmHandler⟩

/-- What an event can do to the session. -/
inductive QosStep (s : Server) (e : Event) (u : Session) : Prop
  /-- Nothing, or the last client stops. -/
  | stays (ho : opensSession s e = false) (ht : firesTick s e = false) (b : Bool)
      (hb : b = true → s.session.enable = true) (hu : u = { s.session with enable := b })
  /-- A session is opened; the start is due well before the first tick. -/
  | opens (ho : opensSession s e = true) (ht : firesTick s e = false) (t₁ t₂ : ℕ) (hlt : t₁ < t₂)
      (he : s.session.enable = false) (hu : u = s.session.opened t₁ t₂)
  /-- The override is written, or there is no list to write. -/
  | starts (ho : opensSession s e = false) (ht : firesTick s e = false) (k : ℕ)
      (q : DeadlineQueue Handler) (hq : s.session.queue.items = ⟨k, .startQos⟩ :: q.items)
      (nv : Nvram) (hu : u = { s.session with queue := q, nvram := nv })
  /-- A tick without a usable list. -/
  | fails (ho : opensSession s e = false) (ht : firesTick s e = true)
      (hus : meetsUsable s e = false) (k : ℕ) (q : DeadlineQueue Handler)
      (hq : s.session.queue.items = ⟨k, .qosTmHandler⟩ :: q.items)
      (hu : u = { s.session with queue := q })
  /-- A tick that ends the session. -/
  | restores (ho : opensSession s e = false) (ht : firesTick s e = true)
      (hus : meetsUsable s e = true) (k : ℕ) (q : DeadlineQueue Handler)
      (hq : s.session.queue.items = ⟨k, .qosTmHandler⟩ :: q.items)
      (hu : u = { s.session with
        queue := q, enable := false, nvram := restoredOf s.session.saved })
  /-- A tick that keeps the session going. -/
  | rearms (ho : opensSession s e = false) (ht : firesTick s e = true)
      (hus : meetsUsable s e = true) (k k' : ℕ) (q : DeadlineQueue Handler)
      (hq : s.session.queue.items = ⟨k, .qosTmHandler⟩ :: q.items)
      (he : s.session.enable = true) (nv : Nvram)
      (hu : u = { s.session with queue := q.add ⟨k', .qosTmHandler⟩, nvram := nv })

/-! ## What a request does -/

section Requests

variable {jc : JsonC} {env : Env} {cip : UInt32} {js : Option Json} {s s' : Server} {reply : Json}
  {now delay : ℕ}

/-- A timer for diagnosis is no concern of the session. -/
theorem session_tqTimerNew_diag :
    (tqTimerNew s .diagTmHandler delay now).session = s.session := by
  rw [tqTimerNew]
  split
  · rfl
  · simp only [Server.session, DeadlineQueue.filter_add]
    rfl

/-- A QoS timer is added to those of the session. -/
theorem session_tqTimerNew {h : Handler} (hq : h.isQos = true) (hd : timerLazyDelay ≤ delay) :
    (tqTimerNew s h delay now).session =
      { s.session with queue := s.session.queue.add ⟨now + delay, h⟩ } := by
  rw [tqTimerNew, if_neg (by omega)]
  simp only [Server.session, DeadlineQueue.filter_add, hq, if_true]

theorem session_startDiagnose : (startDiagnose env s).session = s.session := by
  rw [startDiagnose]
  split
  · rfl
  · exact session_tqTimerNew_diag

theorem tqQos_startDiagnose : (startDiagnose env s).tqQos = s.tqQos := by
  rw [startDiagnose]
  split
  · rfl
  · exact tqQos_tqTimerNew _ _ _ _

theorem tqReqGetDiag_ok (h : tqReqGetDiag jc env js s = .ok (s', reply)) :
    s' = startDiagnose env s := by
  simp only [tqReqGetDiag, bind_eq_ok] at h
  obtain ⟨_, _, _, _, _, _, _, _, _, _, _, _, _, _, _, _, h⟩ := h
  exact (congrArg Prod.fst (Except.ok.inj h)).symm

theorem tqReqStartSpp_ok (h : tqReqStartSpp jc env cip js s = .ok (s', reply)) :
    s'.tqQos = s.tqQos ∧ s'.session = s.session := by
  simp only [tqReqStartSpp, bind_eq_ok] at h
  obtain ⟨_, _, _, _, _, _, _, _, _, _, h⟩ := h
  obtain rfl := congrArg Prod.fst (Except.ok.inj h)
  exact ⟨rfl, rfl⟩

theorem tqReqStopDiag_ok (h : tqReqStopDiag js s = .ok (s', reply)) :
    s'.tqQos = s.tqQos ∧ s'.session = s.session := by
  simp only [tqReqStopDiag, bind_eq_ok] at h
  obtain ⟨_, _, _, _, h⟩ := h
  obtain rfl := congrArg Prod.fst (Except.ok.inj h)
  exact ⟨rfl, rfl⟩

theorem tqReqStopSpeed_ok (h : tqReqStopSpeed env cip js s = .ok (s', reply)) :
    s'.tqQos = stopQos (inetNtoa cip) s.tqQos ∧
      s'.session = { s.session with enable := (stopQos (inetNtoa cip) s.tqQos).enable } := by
  simp only [tqReqStopSpeed, bind_eq_ok] at h
  obtain ⟨_, _, _, _, h⟩ := h
  obtain rfl := congrArg Prod.fst (Except.ok.inj h)
  exact ⟨rfl, rfl⟩

/-- Stopping never turns a session on. -/
theorem enable_stopQos {localIp : List Char} {q : TqQosCtl}
    (h : (stopQos localIp q).enable = true) : q.enable = true := by
  rw [stopQos] at h
  split at h
  · cases h
  · exact h

/-- The client is recorded and the limit is set, whether a session is on or not. -/
def recorded (cip : UInt32) (r : OpenQos) (q : TqQosCtl) : TqQosCtl :=
  { q with
    brandlimit := if r.brandlimit = intInv then 1 else r.brandlimit
    qosCli := recordNewClient (inetNtoa cip) (ticks r) q.qosCli }

theorem tqReqStartQos_ok (h : tqReqStartQos env cip js s = .ok (s', reply)) :
    ∃ r, readOpenQos js = .ok r ∧
      (r.brandqos = 0 ∧ s' = s ∨
        r.brandqos ≠ 0 ∧ s.tqQos.enable = true ∧ s' = { s with tqQos := recorded cip r s.tqQos } ∨
        r.brandqos ≠ 0 ∧ s.tqQos.enable = false ∧
          s' = startSession env (ticks r) { s with tqQos := recorded cip r s.tqQos }) := by
  rw [tqReqStartQos, bind_eq_ok] at h
  obtain ⟨r, hr, h⟩ := h
  refine ⟨r, hr, ?_⟩
  by_cases hb : r.brandqos = 0
  · rw [if_pos hb] at h
    exact Or.inl ⟨hb, (congrArg Prod.fst (Except.ok.inj h)).symm⟩
  · rw [if_neg hb] at h
    dsimp only at h
    by_cases he : s.tqQos.enable = true
    · rw [if_pos he] at h
      exact Or.inr (Or.inl ⟨hb, he, (congrArg Prod.fst (Except.ok.inj h)).symm⟩)
    · rw [if_neg he] at h
      exact Or.inr (Or.inr ⟨hb, by simpa using he, (congrArg Prod.fst (Except.ok.inj h)).symm⟩)

/-- The start of a session, seen from the session. -/
theorem session_startSession (times : ℤ) :
    (startSession env times s).session =
      s.session.opened (env.now + 5) (env.now + env.later + timeQos) := by
  rw [startSession, session_tqTimerNew rfl (by decide), session_tqTimerNew rfl (by decide)]
  rfl

/-- What a request that does not kill the process does to the QoS part. -/
inductive Served (env : Env) (cip : UInt32) (msgType : UInt16) (js : Option Json) (s s' : Server) :
    Prop
  /-- Nothing. -/
  | frame (ho : opensSession s (.request msgType cip js env) = false)
      (hne : MsgType.ofCode msgType ≠ some .endSpeed) (hq : s'.tqQos = s.tqQos)
      (hs : s'.session = s.session)
  /-- A client is recorded in a session that is on. -/
  | joins (ho : opensSession s (.request msgType cip js env) = false)
      (hne : MsgType.ofCode msgType ≠ some .endSpeed) (r : OpenQos)
      (hs : s' = { s with tqQos := recorded cip r s.tqQos })
  /-- A client opens a session. -/
  | opens (ho : opensSession s (.request msgType cip js env) = true)
      (hne : MsgType.ofCode msgType ≠ some .endSpeed) (he : s.tqQos.enable = false) (r : OpenQos)
      (hs : s' = startSession env (ticks r) { s with tqQos := recorded cip r s.tqQos })
  /-- A client stops. -/
  | stops (ho : opensSession s (.request msgType cip js env) = false)
      (hend : MsgType.ofCode msgType = some .endSpeed)
      (hq : s'.tqQos = stopQos (inetNtoa cip) s.tqQos)
      (hs : s'.session = { s.session with enable := (stopQos (inetNtoa cip) s.tqQos).enable })

/-- **Every request**, in one of four ways. -/
theorem serve_cases {msgType : UInt16} {r : Server × Option Json}
    (h : serve jc env cip msgType js s = .ok r) : Served env cip msgType js s r.1 := by
  -- only an `OPEN_QOS` opens a session
  have hopens : ∀ t, MsgType.ofCode msgType = some t → t ≠ .openQos →
      opensSession s (.request msgType cip js env) = false := by
    intro t ht hne
    simp [opensSession, ht, hne]
  rw [serve] at h
  cases hm : MsgType.ofCode msgType with
  | none =>
    rw [hm] at h
    obtain rfl := Except.ok.inj h
    exact .frame (by simp [opensSession, hm]) (by simp [hm]) rfl rfl
  | some t =>
    rw [hm] at h
    cases t with
    | getVer =>
      obtain ⟨_, -, h⟩ := bind_eq_ok.mp h
      obtain rfl := Except.ok.inj h
      exact .frame (hopens _ hm (by decide)) (by simp [hm]) rfl rfl
    | reqAuth =>
      obtain ⟨_, -, h⟩ := bind_eq_ok.mp h
      obtain rfl := Except.ok.inj h
      exact .frame (hopens _ hm (by decide)) (by simp [hm]) rfl rfl
    | diagAuth =>
      obtain ⟨_, -, h⟩ := bind_eq_ok.mp h
      obtain rfl := Except.ok.inj h
      exact .frame (hopens _ hm (by decide)) (by simp [hm]) rfl rfl
    | openQos =>
      obtain ⟨⟨s', j⟩, hok, h⟩ := bind_eq_ok.mp h
      obtain rfl := Except.ok.inj h
      obtain ⟨q, hread, hcases⟩ := tqReqStartQos_ok hok
      rcases hcases with ⟨hb, rfl⟩ | ⟨hb, he, rfl⟩ | ⟨hb, he, rfl⟩
      · exact .frame (by simp [opensSession, hread, hb]) (by simp [hm]) rfl rfl
      · exact .joins (by simp [opensSession, he]) (by simp [hm]) q rfl
      · exact .opens (by simp [opensSession, hm, hread, hb, he]) (by simp [hm]) he q rfl
    | openSpp =>
      obtain ⟨⟨s', j⟩, hok, h⟩ := bind_eq_ok.mp h
      obtain rfl := Except.ok.inj h
      exact .frame (hopens _ hm (by decide)) (by simp [hm]) (tqReqStartSpp_ok hok).1
        (tqReqStartSpp_ok hok).2
    | endSpeed =>
      obtain ⟨⟨s', j⟩, hok, h⟩ := bind_eq_ok.mp h
      obtain rfl := Except.ok.inj h
      exact .stops (hopens _ hm (by decide)) hm (tqReqStopSpeed_ok hok).1 (tqReqStopSpeed_ok hok).2
    | openInfo =>
      obtain ⟨⟨s', j⟩, hok, h⟩ := bind_eq_ok.mp h
      obtain rfl := Except.ok.inj h
      obtain rfl := tqReqGetDiag_ok hok
      exact .frame (hopens _ hm (by decide)) (by simp [hm]) tqQos_startDiagnose
        session_startDiagnose
    | endInfo =>
      obtain ⟨⟨s', j⟩, hok, h⟩ := bind_eq_ok.mp h
      obtain rfl := Except.ok.inj h
      exact .frame (hopens _ hm (by decide)) (by simp [hm]) (tqReqStopDiag_ok hok).1
        (tqReqStopDiag_ok hok).2

end Requests

/-! ## What a timer does -/

section Timers

variable {env : Env} {leases : LeaseFile} {now : ℕ} {s s' : Server}

/-- `start_qos` writes nvram or does nothing the session or the table would show. -/
theorem startQos_frame (leases : LeaseFile) (s : Server) :
    (startQos leases s).tqQos.qosCli = s.tqQos.qosCli ∧
      ∃ nv, (startQos leases s).session = { s.session with nvram := nv } := by
  rw [startQos]
  dsimp only
  split
  · exact ⟨rfl, s.nvram, rfl⟩
  · exact ⟨rfl, _, rfl⟩

theorem diagTmHandler_ok (h : diagTmHandler env s = .ok s') :
    s'.tqQos = s.tqQos ∧ s'.session = s.session := by
  rw [diagTmHandler] at h
  dsimp only at h
  generalize (if s.tqDiagnose.lastIndex = 11 then 0 else s.tqDiagnose.lastIndex + 1) = i at h
  split at h
  · obtain ⟨traffic, -, h⟩ := bind_eq_ok.mp h
    split at h
    · obtain rfl := Except.ok.inj h
      exact ⟨tqQos_tqTimerNew _ _ _ _, session_tqTimerNew_diag⟩
    · obtain rfl := Except.ok.inj h
      exact ⟨rfl, rfl⟩
  · cases h

/-- A tick counts every lease down by one, whatever else it does. -/
theorem qosCli_qosTmHandler (leases : LeaseFile) (now : ℕ) (s : Server) :
    (qosTmHandler leases now s).tqQos.qosCli = (updateQosInfo s.tqQos).qosCli := by
  rw [qosTmHandler]
  dsimp only
  split
  · rfl
  split
  · rfl
  split <;> split
  · rw [tqQos_tqTimerNew]
  · rfl
  · rw [tqQos_tqTimerNew]
  · rfl

/-- **A tick without a usable list** only counts down. -/
theorem session_qosTmHandler_fails (hus : ¬ Usable (updateQosInfo s.tqQos) leases) :
    (qosTmHandler leases now s).session = s.session := by
  rw [← usable_iff, not_not] at hus
  rw [qosTmHandler]
  dsimp only
  rw [if_pos hus]
  rfl

/-- **A tick with a usable list** either restores the settings and ends the session, or sets the
timer again. -/
theorem session_qosTmHandler (hus : Usable (updateQosInfo s.tqQos) leases) :
    (qosTmHandler leases now s).session =
        { s.session with enable := false, nvram := restoredOf s.session.saved } ∨
      s.tqQos.enable = true ∧ ∃ nv, (qosTmHandler leases now s).session =
        { s.session with
          queue := s.session.queue.add ⟨now + timeQos, .qosTmHandler⟩, nvram := nv } := by
  rw [← usable_iff] at hus
  rw [qosTmHandler]
  dsimp only
  rw [if_neg hus]
  by_cases hend : (updateQosInfo s.tqQos).cliCnt ≤ 0 ∨ (updateQosInfo s.tqQos).qosTmMax ≤ 0 ∨
      (updateQosInfo s.tqQos).enable = false
  · rw [if_pos hend]
    exact Or.inl rfl
  · rw [if_neg hend]
    push Not at hend
    have hen : s.tqQos.enable = true := by
      simpa only [enable_updateQosInfo, ne_eq, Bool.not_eq_false] using hend.2.2
    refine Or.inr ⟨hen, ?_⟩
    split
    · rw [if_pos ⟨hen, hend.1⟩]
      exact ⟨_, session_tqTimerNew rfl (by decide)⟩
    · rw [if_pos ⟨hen, hend.1⟩]
      exact ⟨_, session_tqTimerNew rfl (by decide)⟩

/-- A timer that leaves the queue was the first and was due. -/
theorem takeDue_eq_some {h : Handler} (ht : takeDue s = some (h, s')) :
    ∃ k q, s.timers.popDue s.currentMsec = some (⟨k, h⟩, q) ∧ s' = { s with timers := q } := by
  simp only [takeDue, Option.map_eq_some_iff, Prod.mk.injEq] at ht
  obtain ⟨⟨⟨k, g⟩, q⟩, hpop, rfl, rfl⟩ := ht
  exact ⟨k, q, hpop, rfl⟩

/-- A QoS timer that leaves the queue leaves the session's queue, of which it was the head. -/
theorem takeDue_qos {h : Handler} (ht : takeDue s = some (h, s')) (hq : h.isQos = true) :
    ∃ k q, s.session.queue.items = ⟨k, h⟩ :: q.items ∧ s'.session = { s.session with queue := q } ∧
      s'.tqQos = s.tqQos := by
  obtain ⟨k, q, hpop, rfl⟩ := takeDue_eq_some ht
  refine ⟨k, q.filter Handler.isQos, ?_, rfl, rfl⟩
  exact (DeadlineQueue.items_filter_popDue Handler.isQos hpop).trans (if_pos hq)

/-- A diagnosis timer that leaves the queue is no concern of the session. -/
theorem takeDue_diag (ht : takeDue s = some (.diagTmHandler, s')) :
    s'.session = s.session ∧ s'.tqQos = s.tqQos := by
  obtain ⟨k, q, hpop, rfl⟩ := takeDue_eq_some ht
  have hitems := DeadlineQueue.items_filter_popDue Handler.isQos hpop
  have hqueue : q.filter Handler.isQos = s.timers.filter Handler.isQos :=
    DeadlineQueue.ext hitems.symm
  exact ⟨congrArg (fun u => { s.session with queue := u }) hqueue, rfl⟩

end Timers

/-! ## Every event -/

/-- A request that has a successor was served. -/
theorem step_request {jc : JsonC} {msgType : UInt16} {cip : UInt32} {js : Option Json} {env : Env}
    {s s' : Server} (h : step jc s (.request msgType cip js env) = some s') :
    Served env cip msgType js s s' := by
  rw [step, Option.map_eq_some_iff] at h
  obtain ⟨r, hr, rfl⟩ := h
  exact serve_cases (toOption_eq_some.mp hr)

/-- When a timer runs, it was due. -/
theorem step_expire {jc : JsonC} {env : Env} {s s' : Server}
    (h : step jc s (.expire env) = some s') :
    ∃ g v, takeDue s = some (g, v) ∧ runHandler env v g = .ok s' := by
  rw [step, Option.bind_eq_some_iff] at h
  obtain ⟨⟨g, v⟩, htake, hrun⟩ := h
  exact ⟨g, v, htake, toOption_eq_some.mp hrun⟩

/-- **What any event does to the session.** -/
theorem qosStep {jc : JsonC} {s s' : Server} {e : Event} (h : step jc s e = some s') :
    QosStep s e s'.session := by
  cases e with
  | tick now =>
    obtain rfl := Option.some.inj h
    exact .stays rfl rfl _ id rfl
  | request msgType cip js env =>
    rcases step_request h with ⟨ho, -, -, hs⟩ | ⟨ho, -, q, rfl⟩ | ⟨ho, -, he, q, rfl⟩ |
      ⟨ho, -, -, hs⟩
    · exact .stays ho rfl _ id hs
    · exact .stays ho rfl _ id rfl
    · have hlt : env.now + 5 < env.now + env.later + timeQos := by rw [timeQos]; omega
      exact .opens ho rfl _ _ hlt he (session_startSession _)
    · exact .stays ho rfl _ enable_stopQos hs
  | expire env =>
    obtain ⟨g, u, htake, hrun⟩ := step_expire h
    cases g with
    | diagTmHandler =>
      have ht : firesTick s (.expire env) = false := by simp [firesTick, htake]
      exact .stays rfl ht _ id ((diagTmHandler_ok hrun).2.trans (takeDue_diag htake).1)
    | startQos =>
      have ht : firesTick s (.expire env) = false := by simp [firesTick, htake]
      obtain ⟨k, q, hitems, hu, -⟩ := takeDue_qos htake rfl
      obtain rfl := Except.ok.inj hrun
      obtain ⟨-, nv, hnv⟩ := startQos_frame env.leases u
      exact .starts rfl ht k q hitems nv (by rw [hnv, hu])
    | qosTmHandler =>
      have ht : firesTick s (.expire env) = true := by simp [firesTick, htake]
      obtain ⟨k, q, hitems, hu, hq⟩ := takeDue_qos htake rfl
      obtain rfl := Except.ok.inj hrun
      have hen : u.tqQos.enable = s.session.enable := by rw [hq]; rfl
      have hmeets : meetsUsable s (.expire env) =
          decide (Usable (updateQosInfo u.tqQos) env.leases) := by
        rw [hq]
        rfl
      by_cases hus : Usable (updateQosInfo u.tqQos) env.leases
      · rw [decide_eq_true hus] at hmeets
        rcases session_qosTmHandler hus with hend | ⟨hon, nv, hgo⟩
        · exact .restores rfl ht hmeets k q hitems (by rw [hend, hu])
        · exact .rearms rfl ht hmeets k (env.now + timeQos) q hitems (hen.symm.trans hon) nv
            (by rw [hgo, hu])
      · rw [decide_eq_false hus] at hmeets
        exact .fails rfl ht hmeets k q hitems (by rw [session_qosTmHandler_fails hus, hu])

end Tqos
