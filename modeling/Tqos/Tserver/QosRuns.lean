import Tqos.Tserver.System

/-!
# Whole runs of the QoS session

Three things one would expect of every run of the server, and exactly when they hold. What goes
wrong has three causes in the source. `tq_req_stop_speed` ends a session by clearing `enable` and
leaves both timers of the session pending, so a client that asks again before they have run opens a
second session on top of the first. `qos_tm_handler` returns early when there is no list to be had,
without setting its timer again and without ending the session. And `/tmp/qos.sh` loses a list that
is not one word.

## Main results

* `settingsKept_of_along` — the user's settings come back, if the list in them is one word, as long
  as no session is opened while they are overridden and the last pending tick never meets an
  unusable list
* `atMostOneTick_iff` — no second tick is ever pending, exactly if no session is opened while one is
* `tickPending_iff` — a session that is on always has a tick pending, exactly if no tick of a
  session that is on meets an unusable list without another one pending
-/

namespace Tqos

variable {jc : JsonC} {s s' : Server} {e : Event} {u : Session}

/-- The QoS timers of the server are those of its session. -/
theorem count_session {h : Handler} (hq : h.isQos = true) (s : Server) :
    s.session.queue.count h = pending h s :=
  DeadlineQueue.count_filter hq

/-- An opening adds a tick. -/
theorem QosStep.count_of_opens (ho : opensSession s e = true) (h : QosStep s e u) :
    u.queue.count .qosTmHandler = s.session.queue.count .qosTmHandler + 1 := by
  cases h with
  | opens _ _ t₁ t₂ hlt he hu =>
    subst hu
    simp [Session.opened]
  | stays ho' | starts ho' | fails ho' | restores ho' | rearms ho' =>
    rw [ho] at ho'
    cases ho'

/-- Nothing else adds a tick; one that sets its timer again has left the queue before. -/
theorem QosStep.count_le (ho : opensSession s e = false) (h : QosStep s e u) :
    u.queue.count .qosTmHandler ≤ s.session.queue.count .qosTmHandler := by
  cases h with
  | stays _ ht b hb hu =>
    subst hu
    exact le_rfl
  | opens ho' =>
    rw [ho] at ho'
    cases ho'
  | starts _ ht k q hq nv hu =>
    subst hu
    rw [DeadlineQueue.count_of_items_eq_cons hq]
    exact Nat.le_add_right _ _
  | fails _ ht hus k q hq hu =>
    subst hu
    rw [DeadlineQueue.count_of_items_eq_cons hq]
    exact Nat.le_add_right _ _
  | restores _ ht hus k q hq hu =>
    subst hu
    rw [DeadlineQueue.count_of_items_eq_cons hq]
    exact Nat.le_add_right _ _
  | rearms _ ht hus k k' q hq he nv hu =>
    subst hu
    rw [DeadlineQueue.count_of_items_eq_cons hq, DeadlineQueue.count_add]

/-- A tick without a usable list is gone, and the session stays as it was. -/
theorem QosStep.count_of_fails (ht : firesTick s e = true) (hus : meetsUsable s e = false)
    (h : QosStep s e u) :
    u.enable = s.session.enable ∧
      s.session.queue.count .qosTmHandler = u.queue.count .qosTmHandler + 1 := by
  cases h with
  | fails _ _ _ k q hq hu =>
    subst hu
    exact ⟨rfl, DeadlineQueue.count_of_items_eq_cons hq⟩
  | stays _ ht' | opens _ ht' | starts _ ht' =>
    rw [ht] at ht'
    cases ht'
  | restores _ _ hus' | rearms _ _ hus' =>
    rw [hus] at hus'
    cases hus'

/-! ## Requests to try a run with -/

/-- A json-c that is never called. -/
def JsonC.unused : JsonC := ⟨fun _ => none, fun _ => []⟩

/-- The lease of the host 192.168.1.9. -/
def otherLease : LeaseFile := some [⟨Vector.replicate 16 0, 0x0901a8c0⟩]

/-- An `OPEN_QOS` for a number of seconds, at the time `now`. -/
def openQosAt (now : ℕ) (cip : UInt32) (validtime : ℤ) : Event :=
  .request MsgType.openQos.code cip
    (some (Json.obj [("token", .int 1), ("phonemac", .str "00"), ("validtime", .int validtime),
      ("brandqos", .int 1), ("brandlimit", .int 1)])) (Env.at now none)

/-- An `END_SPEED`. -/
def endSpeed (cip : UInt32) : Event :=
  .request MsgType.endSpeed.code cip (some (Json.obj [("token", .int 1), ("phonemac", .str "00")]))
    (Env.at 0 none)

/-- A session from its opening to the tick that ends it. -/
def wholeSession : List Event :=
  [openQosAt 0 1 20, .tick 5, .expire (Env.at 5 otherLease), .tick 20,
    .expire (Env.at 20 otherLease)]

/-- A client stops and asks again before the timers of its session have run. -/
def reopening : List Event := [openQosAt 0 1 20, endSpeed 1, openQosAt 6 1 20]

/-! ## At most one tick -/

/-- **At most one tick is pending** in every state of a run exactly if every session of the run is
opened while none is. -/
theorem atMostOneTick_iff (nv : Nvram) {es : List Event}
    (hrun : Run.run (step jc) (serverInit nv) es = some s) :
    Run.Visits (step jc) (fun s => pending .qosTmHandler s ≤ 1) (serverInit nv) es ↔
      Run.Along (step jc)
        (fun s e => opensSession s e = true → pending .qosTmHandler s = 0) (serverInit nv) es := by
  refine Run.visits_iff_along (Nat.zero_le 1) (fun s e s' hs hG hstep => ?_)
    (fun s e s' hs hG hstep hone => ?_) hrun
  · rw [← count_session rfl] at hs ⊢
    by_cases ho : opensSession s e = true
    · have hnone := hG ho
      rw [(qosStep hstep).count_of_opens ho, count_session rfl, hnone]
    · exact ((qosStep hstep).count_le (by simpa using ho)).trans hs
  · rw [Classical.not_imp] at hG
    obtain ⟨ho, hpend⟩ := hG
    rw [← count_session rfl, (qosStep hstep).count_of_opens ho, count_session rfl] at hone
    omega

/-- In a run that opens one session and ends it. -/
theorem atMostOneTick_wholeSession :
    Run.Visits (step .unused) (fun s => pending .qosTmHandler s ≤ 1) (serverInit ⟨['0'], []⟩)
      wholeSession := by
  obtain ⟨s, hrun⟩ := Option.isSome_iff_exists.mp
    (show (Run.run (step .unused) (serverInit ⟨['0'], []⟩) wholeSession).isSome = true by
      decide +kernel)
  exact (atMostOneTick_iff _ hrun).mpr (by decide +kernel)

/-- A client that stops and asks again has two ticks pending. -/
theorem not_atMostOneTick_reopening :
    ¬ Run.Visits (step .unused) (fun s => pending .qosTmHandler s ≤ 1) (serverInit ⟨['0'], []⟩)
      reopening := by
  decide +kernel

/-! ## A tick for every session -/

/-- **One step.** -/
theorem QosStep.tickPending
    (hs : s.session.enable = true → 0 < s.session.queue.count .qosTmHandler)
    (hG : firesTick s e = true → s.session.enable = true →
      meetsUsable s e = true ∨ 1 < s.session.queue.count .qosTmHandler)
    (h : QosStep s e u) (hen : u.enable = true) : 0 < u.queue.count .qosTmHandler := by
  cases h with
  | stays ho ht b hb hu =>
    subst hu
    exact hs (hb hen)
  | opens ho ht t₁ t₂ hlt he hu =>
    subst hu
    simp [Session.opened]
  | starts ho ht k q hq nv hu =>
    subst hu
    have hpos := hs hen
    rw [DeadlineQueue.count_of_items_eq_cons hq] at hpos
    simpa using hpos
  | fails ho ht hus k q hq hu =>
    subst hu
    have hmore := (hG ht hen).resolve_left (by simp [hus])
    rw [DeadlineQueue.count_of_items_eq_cons hq] at hmore
    simpa using hmore
  | restores ho ht hus k q hq hu =>
    subst hu
    cases hen
  | rearms ho ht hus k k' q hq he nv hu =>
    subst hu
    simp

/-- **A session that is on has a tick pending** in every state of a run exactly if every tick of a
session that is on meets a usable list or leaves another tick pending. -/
theorem tickPending_iff (nv : Nvram) {es : List Event}
    (hrun : Run.run (step jc) (serverInit nv) es = some s) :
    Run.Visits (step jc) (fun s => s.tqQos.enable = true → 0 < pending .qosTmHandler s)
        (serverInit nv) es ↔
      Run.Along (step jc)
        (fun s e => firesTick s e = true → s.tqQos.enable = true →
          meetsUsable s e = true ∨ 1 < pending .qosTmHandler s) (serverInit nv) es := by
  simp only [← count_session (rfl : Handler.qosTmHandler.isQos = true)]
  refine Run.visits_iff_along (fun h => nomatch h) (fun s e s' hs hG hstep => ?_)
    (fun s e s' hs hG hstep hall => ?_) hrun
  · exact (qosStep hstep).tickPending hs hG
  · simp only [Classical.not_imp, not_or, not_lt, Bool.not_eq_true] at hG
    obtain ⟨ht, hon, hus, hle⟩ := hG
    obtain ⟨hen, hcount⟩ := (qosStep hstep).count_of_fails ht hus
    have hpos := hall (hen.trans hon)
    omega

/-- In a run in which the tick meets a usable list. -/
theorem tickPending_wholeSession :
    Run.Visits (step .unused) (fun s => s.tqQos.enable = true → 0 < pending .qosTmHandler s)
      (serverInit ⟨['0'], []⟩) wholeSession := by
  obtain ⟨s, hrun⟩ := Option.isSome_iff_exists.mp
    (show (Run.run (step .unused) (serverInit ⟨['0'], []⟩) wholeSession).isSome = true by
      decide +kernel)
  exact (tickPending_iff _ hrun).mpr (by decide +kernel)

/-- When there is no lease file at the first tick, the session stays on for ever. -/
theorem not_tickPending_noLeases :
    ¬ Run.Visits (step .unused) (fun s => s.tqQos.enable = true → 0 < pending .qosTmHandler s)
      (serverInit ⟨['0'], []⟩)
      [openQosAt 0 1 40, .tick 20, .expire (Env.at 20 none), .expire (Env.at 20 none)] := by
  decide +kernel

/-! ## The user's settings -/

/-- What has to hold of the session for the settings `O` to come back. -/
structure Recoverable (O : Nvram) (u : Session) : Prop where
  /-- What was saved is `O`, in the state and in the file. -/
  saved : u.saved = ⟨false, []⟩ ∧ u.file = none ∧ u.queue.items = [] ∨
    u.saved = savedOf O ∧ u.file = some O
  /-- Behind every start there is a tick. -/
  ticks_of_starts : ∀ b ∈ u.queue.items, b.handler = .startQos →
    ∃ c ∈ u.queue.items, c.handler = .qosTmHandler ∧ b.key < c.key
  /-- While the settings are overridden there is a tick. -/
  tick_of_overridden : u.nvram ≠ O → ∃ c ∈ u.queue.items, c.handler = .qosTmHandler

namespace Recoverable

variable {O : Nvram} {v : Session} {k t₁ t₂ : ℕ} {h : Handler} {q : DeadlineQueue Handler}

/-- Once a timer is pending, the settings have been saved. -/
theorem saved_of_items (hv : Recoverable O v) (hq : v.queue.items = ⟨k, h⟩ :: q.items) :
    v.saved = savedOf O ∧ v.file = some O := by
  rcases hv.saved with ⟨-, -, hnil⟩ | hsaved
  · rw [hq] at hnil
    cases hnil
  · exact hsaved

/-- What stays behind the head of the queue still has a tick behind every start. -/
theorem ticks_of_items (hv : Recoverable O v) (hq : v.queue.items = ⟨k, h⟩ :: q.items) :
    ∀ b ∈ q.items, b.handler = .startQos →
      ∃ c ∈ q.items, c.handler = .qosTmHandler ∧ b.key < c.key := by
  intro b hb hstart
  have hmem : b ∈ v.queue.items := by
    rw [hq]
    exact List.mem_cons_of_mem _ hb
  obtain ⟨c, hc, htick, hlt⟩ := hv.ticks_of_starts b hmem hstart
  rw [hq] at hc
  rcases List.mem_cons.mp hc with rfl | hc
  -- the head is not later than `b`, so it is not the tick behind `b`
  · exact absurd (DeadlineQueue.key_le_of_items_eq_cons hq hb) (Nat.not_le.mpr hlt)
  · exact ⟨c, hc, htick, hlt⟩

/-- Opening a session saves the settings, if they are in force, and sets a tick behind the start. -/
theorem opened (hO : O.qosEnable = ['0'] ∨ O.qosEnable = ['2']) (hv : Recoverable O v)
    (hforce : v.nvram = O) (hlt : t₁ < t₂) : Recoverable O (v.opened t₁ t₂) := by
  refine ⟨Or.inr ?_, fun b hb hstart => ?_, fun hne => absurd hforce hne⟩
  · simp only [Session.opened, hforce, filedOf_savedOf hO, and_self]
  · simp only [Session.opened, DeadlineQueue.mem_items_add] at hb ⊢
    rcases hb with rfl | rfl | hb
    · cases hstart
    · exact ⟨⟨t₂, .qosTmHandler⟩, Or.inl rfl, rfl, hlt⟩
    · obtain ⟨c, hc, htick, hlt⟩ := hv.ticks_of_starts b hb hstart
      exact ⟨c, Or.inr (Or.inr hc), htick, hlt⟩

end Recoverable

/-- No session is on and none of its timers is pending. -/
def Idle (s : Server) : Prop :=
  s.tqQos.enable = false ∧ pending .startQos s = 0 ∧ pending .qosTmHandler s = 0

instance (s : Server) : Decidable (Idle s) := inferInstanceAs (Decidable (_ ∧ _))

/-- The settings `O` are in force whenever the server is idle, and nothing else was ever saved. -/
def KeepsSettings (O : Nvram) (s : Server) : Prop :=
  (Idle s → s.nvram = O) ∧
    (s.cfg.qos = ⟨false, []⟩ ∧ s.qosCfgFile = none ∨ s.cfg.qos = savedOf O ∧ s.qosCfgFile = some O)

instance (O : Nvram) (s : Server) : Decidable (KeepsSettings O s) :=
  inferInstanceAs (Decidable (_ ∧ _))

theorem Recoverable.keepsSettings {O : Nvram} (h : Recoverable O s.session) :
    KeepsSettings O s := by
  constructor
  · rintro ⟨-, -, htick⟩
    by_contra hne
    obtain ⟨c, hc, hh⟩ := h.tick_of_overridden hne
    have hpos := DeadlineQueue.count_pos.mpr ⟨c, hc, hh⟩
    rw [count_session rfl] at hpos
    omega
  · rcases h.saved with ⟨hsaved, hfile, -⟩ | hsaved
    · exact Or.inl ⟨hsaved, hfile⟩
    · exact Or.inr hsaved

/-- The event neither opens a session on top of an override nor loses the last tick of one. -/
def LeavesRecoverable (O : Nvram) (s : Server) (e : Event) : Prop :=
  (opensSession s e = true → s.nvram = O) ∧
    (firesTick s e = true → meetsUsable s e = false →
      s.nvram = O ∨ 1 < pending .qosTmHandler s)

instance (O : Nvram) (s : Server) (e : Event) : Decidable (LeavesRecoverable O s e) :=
  inferInstanceAs (Decidable (_ ∧ _))

/-- **One step.** -/
theorem QosStep.recoverable {O : Nvram} (hO : O.qosEnable = ['0'] ∨ O.qosEnable = ['2'])
    (hword : ∀ c ∈ O.ipQosList, isBlank c = false) (hs : Recoverable O s.session)
    (hG : LeavesRecoverable O s e) (h : QosStep s e u) : Recoverable O u := by
  cases h with
  | stays ho ht b hb hu =>
    subst hu
    exact ⟨hs.saved, hs.ticks_of_starts, hs.tick_of_overridden⟩
  | opens ho ht t₁ t₂ hlt he hu =>
    subst hu
    exact hs.opened hO (hG.1 ho) hlt
  | starts ho ht k q hq nv hu =>
    subst hu
    refine ⟨Or.inr (hs.saved_of_items hq), hs.ticks_of_items hq, fun _ => ?_⟩
    -- the tick behind the start that ran
    have hmem : ⟨k, .startQos⟩ ∈ s.session.queue.items := by
      rw [hq]
      exact List.mem_cons_self
    obtain ⟨c, hc, htick, -⟩ := hs.ticks_of_starts _ hmem rfl
    rw [hq] at hc
    rcases List.mem_cons.mp hc with rfl | hc
    · cases htick
    · exact ⟨c, hc, htick⟩
  | fails ho ht hus k q hq hu =>
    subst hu
    refine ⟨Or.inr (hs.saved_of_items hq), hs.ticks_of_items hq, fun hne => ?_⟩
    have hmore : 1 < s.session.queue.count .qosTmHandler := by
      rw [count_session rfl]
      exact (hG.2 ht hus).resolve_left hne
    rw [DeadlineQueue.count_of_items_eq_cons hq, if_pos rfl] at hmore
    have hpos : 0 < q.count .qosTmHandler := by omega
    exact DeadlineQueue.count_pos.mp hpos
  | restores ho ht hus k q hq hu =>
    subst hu
    refine ⟨Or.inr (hs.saved_of_items hq), hs.ticks_of_items hq, fun hne => absurd ?_ hne⟩
    show restoredOf s.session.saved = O
    rw [(hs.saved_of_items hq).1, restoredOf_savedOf hO hword]
  | rearms ho ht hus k k' q hq he nv hu =>
    subst hu
    refine ⟨Or.inr (hs.saved_of_items hq), fun b hb hstart => ?_, fun _ => ?_⟩
    · rcases DeadlineQueue.mem_items_add.mp hb with rfl | hb
      · cases hstart
      · obtain ⟨c, hc, htick, hlt⟩ := hs.ticks_of_items hq b hb hstart
        exact ⟨c, DeadlineQueue.mem_items_add.mpr (Or.inr hc), htick, hlt⟩
    · exact ⟨⟨k', .qosTmHandler⟩, DeadlineQueue.mem_items_add.mpr (Or.inl rfl), rfl⟩

/-- **The user's settings come back**, if the list in them is one word: in every state of a run none
of whose steps opens a session while the settings are overridden, or takes the last tick without
finding a usable list while they are. -/
theorem settingsKept_of_along (O : Nvram) (hO : O.qosEnable = ['0'] ∨ O.qosEnable = ['2'])
    (hword : ∀ c ∈ O.ipQosList, isBlank c = false) {es : List Event}
    (hG : Run.Along (step jc) (LeavesRecoverable O) (serverInit O) es) :
    Run.Visits (step jc) (KeepsSettings O) (serverInit O) es := by
  have h₀ : Recoverable O (serverInit O).session :=
    ⟨Or.inl ⟨rfl, rfl, rfl⟩, (fun _ hb => nomatch hb), fun hne => absurd rfl hne⟩
  have hstep : ∀ s e s', Recoverable O s.session → LeavesRecoverable O s e →
      step jc s e = some s' → Recoverable O s'.session := by
    intro s e s' hs hG hstep
    exact (qosStep hstep).recoverable hO hword hs hG
  have hvisits : Run.Visits (step jc) (fun s => Recoverable O s.session) (serverInit O) es :=
    Run.visits_of_along h₀ hstep hG
  intro p hp s hrun
  exact (hvisits p hp s hrun).keepsSettings

/-- In a run that opens one session and ends it. -/
theorem settingsKept_wholeSession :
    Run.Visits (step .unused) (KeepsSettings ⟨['2'], ['x']⟩) (serverInit ⟨['2'], ['x']⟩)
      wholeSession :=
  settingsKept_of_along ⟨['2'], ['x']⟩ (Or.inr rfl) (List.forall_mem_singleton.mpr rfl)
    (by decide +kernel)

/-- A client stops and asks again while the settings are overridden: the override is saved as if it
were the user's settings, and is what the ticks restore. -/
theorem not_settingsKept_reopening :
    ¬ Run.Visits (step .unused) (fun s => Idle s → s.nvram = ⟨['0'], []⟩) (serverInit ⟨['0'], []⟩)
      [openQosAt 0 1 20, .tick 5, .expire (Env.at 5 otherLease), endSpeed 1, openQosAt 6 1 20,
        .tick 30, .expire (Env.at 30 otherLease), .expire (Env.at 30 otherLease),
        .expire (Env.at 30 otherLease)] := by
  decide +kernel

end Tqos
