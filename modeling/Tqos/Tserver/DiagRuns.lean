import Tqos.Lib.RingWindow
import Tqos.Tserver.QosRuns

/-!
# Whole runs of diagnosis

Diagnosis is started by the first `OPEN_INFO`, which sets a timer for `diag_tm_handler`; the handler
takes a sample every five seconds and sets its timer again for as long as `enable` is set. An
`END_INFO` only clears the flag. The timer that is pending then runs once more, and when another
`OPEN_INFO` comes before it does, it finds the flag set and goes on beside the timer of that
request.

The ring of samples is not touched by any of this: it is cleared whenever the flag is set, and in
between it shows the samples of all timers there are.

## Main results

* `diagStep` — what any event does to diagnosis
* `atMostOneDiag_iff` — a second timer is never pending, exactly if diagnosis is never started while
  one is; then samples are at least five seconds apart
* `diagWindow` — the ring shows the samples since the start, and an `OPEN_INFO` is answered from
  them
-/

namespace Tqos

open RingWindow (Shows)

/-! ## What an event does -/

/-- Whether a handler is the one that takes samples. -/
def Handler.isDiag : Handler → Bool
  | .diagTmHandler => true
  | _ => false

/-- The part of the state that diagnosis is about. -/
structure Diagnosis where
  ctl : TqDiagCtl
  queue : DeadlineQueue Handler

/-- Diagnosis in a state. -/
def Server.diagnosis (s : Server) : Diagnosis where
  ctl := s.tqDiagnose
  queue := s.timers.filter Handler.isDiag

/-- The event is an `OPEN_INFO` that starts diagnosis. -/
def opensInfo (s : Server) : Event → Bool
  | .request msgType _ _ _ =>
    decide (MsgType.ofCode msgType = some .openInfo) && !s.tqDiagnose.enable
  | _ => false

/-- The event runs `diag_tm_handler`. -/
def samples (s : Server) : Event → Bool
  | .expire _ => match takeDue s with
    | some (.diagTmHandler, _) => true
    | _ => false
  | _ => false

/-- The clock as an event reads it first. An event that sets no timer does not look at it. -/
def Event.now : Event → ℕ
  | .request _ _ _ env => env.now
  | .tick now => now
  | .expire env => env.now

/-- The clock has not gone back. -/
def ClockForward (s : Server) (e : Event) : Prop := s.currentMsec ≤ e.now

instance (s : Server) (e : Event) : Decidable (ClockForward s e) :=
  inferInstanceAs (Decidable (_ ≤ _))

/-- The sample that is taken. -/
def sampleOf (env : Env) : TqDiagData := ⟨0, 0, env.cpu, env.memory, env.traffic.dropLast⟩

/-- The ring with a sample in the slot `i`. -/
def TqDiagCtl.write (d : TqDiagCtl) (i : Fin sizeDiag) (sample : TqDiagData) : TqDiagCtl :=
  { d with diagnoses := Function.update d.diagnoses i sample }

/-- The slot behind the last one, if the index is a slot. -/
def TqDiagCtl.next (d : TqDiagCtl) : ℕ := if d.lastIndex = 11 then 0 else d.lastIndex + 1

/-- What an event can do to diagnosis. -/
inductive DiagStep (s : Server) (e : Event) (u : Diagnosis) : Prop
  /-- Nothing, or diagnosis is stopped. -/
  | stays (ho : opensInfo s e = false) (hs : samples s e = false) (b : Bool)
      (hb : b = true → s.tqDiagnose.enable = true)
      (hu : u = { s.diagnosis with ctl := { s.tqDiagnose with enable := b } })
  /-- Diagnosis is started. -/
  | starts (ho : opensInfo s e = true) (hs : samples s e = false)
      (he : s.tqDiagnose.enable = false)
      (hu : u = ⟨{ s.tqDiagnose with enable := true, diagnoses := fun _ => .zero },
        s.diagnosis.queue.add ⟨e.now + 5, .diagTmHandler⟩⟩)
  /-- A sample is taken, and the timer is set for the next one. -/
  | goesOn (ho : opensInfo s e = false) (hs : samples s e = true) (env : Env)
      (henv : e = .expire env) (k : ℕ) (hk : k ≤ s.currentMsec) (q : DeadlineQueue Handler)
      (hq : s.diagnosis.queue.items = ⟨k, .diagTmHandler⟩ :: q.items)
      (he : s.tqDiagnose.enable = true) (i : Fin sizeDiag) (hi : s.tqDiagnose.next = i)
      (hu : u = ⟨{ s.tqDiagnose.write i (sampleOf env) with lastIndex := i },
        q.add ⟨e.now + 5, .diagTmHandler⟩⟩)
  /-- A sample is taken after diagnosis was stopped. -/
  | ends (ho : opensInfo s e = false) (hs : samples s e = true) (env : Env)
      (henv : e = .expire env) (k : ℕ) (hk : k ≤ s.currentMsec) (q : DeadlineQueue Handler)
      (hq : s.diagnosis.queue.items = ⟨k, .diagTmHandler⟩ :: q.items)
      (he : s.tqDiagnose.enable = false) (i : Fin sizeDiag) (hi : s.tqDiagnose.next = i)
      (hu : u = ⟨s.tqDiagnose.write i (sampleOf env), q⟩)

section Steps

variable {jc : JsonC} {env : Env} {cip : UInt32} {js : Option Json} {s s' u : Server} {e : Event}
  {reply : Json} {h : Handler} {delay now : ℕ}

/-- A QoS timer is no concern of diagnosis. -/
theorem diagnosis_tqTimerNew (hq : h.isDiag = false) :
    (tqTimerNew s h delay now).diagnosis = s.diagnosis := by
  rw [tqTimerNew]
  split
  · rfl
  · simp only [Server.diagnosis, DeadlineQueue.filter_add, hq]
    rfl

/-- The timer for the next sample. -/
theorem diagnosis_tqTimerNew_diag :
    (tqTimerNew s .diagTmHandler 5 now).diagnosis =
      ⟨s.tqDiagnose, s.diagnosis.queue.add ⟨now + 5, .diagTmHandler⟩⟩ := by
  rw [tqTimerNew, if_neg (by decide)]
  simp only [Server.diagnosis, DeadlineQueue.filter_add]
  rfl

@[simp] theorem currentMsec_tqTimerNew : (tqTimerNew s h delay now).currentMsec = now := by
  rw [tqTimerNew]
  split <;> rfl

theorem startDiagnose_of_enable (hen : s.tqDiagnose.enable = true) : startDiagnose env s = s :=
  if_pos hen

/-- The start of diagnosis: an empty ring, and one more timer. -/
theorem diagnosis_startDiagnose (hoff : s.tqDiagnose.enable = false) :
    (startDiagnose env s).diagnosis =
        ⟨{ s.tqDiagnose with enable := true, diagnoses := fun _ => .zero },
          s.diagnosis.queue.add ⟨env.now + 5, .diagTmHandler⟩⟩ ∧
      (startDiagnose env s).currentMsec = env.now := by
  have hdiag : (tqTimerNew { s with tqDiagnose := { s.tqDiagnose with enable := true } }
      .diagTmHandler 5 env.now).diagnosis = _ := diagnosis_tqTimerNew_diag
  have hqueue := congrArg Diagnosis.queue hdiag
  have hctl := congrArg Diagnosis.ctl hdiag
  rw [startDiagnose, if_neg (by simp [hoff])]
  exact ⟨congrArg₂ (fun (d : TqDiagCtl) q =>
    (⟨{ d with diagnoses := fun _ => .zero }, q⟩ : Diagnosis)) hctl hqueue, currentMsec_tqTimerNew⟩

/-- The state is what it was to diagnosis, and the clock was not set back unless it went back. -/
def KeepsDiagnosis (now : ℕ) (s s' : Server) : Prop :=
  s'.diagnosis = s.diagnosis ∧ (s'.currentMsec = s.currentMsec ∨ now ≤ s'.currentMsec)

theorem keepsDiagnosis_startSession (times : ℤ) :
    KeepsDiagnosis env.now s (startSession env times s) := by
  constructor
  · rw [startSession, diagnosis_tqTimerNew rfl, diagnosis_tqTimerNew rfl]
    rfl
  · rw [startSession, currentMsec_tqTimerNew]
    exact Or.inr (Nat.le_add_right _ _)

theorem keepsDiagnosis_startQos (leases : LeaseFile) :
    KeepsDiagnosis now s (startQos leases s) := by
  obtain ⟨q, nv, h⟩ := exists_startQos leases s
  rw [h]
  exact ⟨rfl, Or.inl rfl⟩

theorem keepsDiagnosis_qosTmHandler (leases : LeaseFile) :
    KeepsDiagnosis now s (qosTmHandler leases now s) := by
  obtain ⟨q, nv, h | h⟩ := exists_qosTmHandler leases now s
  · rw [h]
    exact ⟨rfl, Or.inl rfl⟩
  · rw [h]
    exact ⟨diagnosis_tqTimerNew rfl, Or.inr currentMsec_tqTimerNew.ge⟩

/-- What `diag_tm_handler` does when it does not write past the end of the ring. -/
theorem diagTmHandler_eq_ok (hrun : diagTmHandler env s = .ok s') :
    ∃ i : Fin sizeDiag, s.tqDiagnose.next = i ∧
      s' = if s.tqDiagnose.enable then
          tqTimerNew { s with tqDiagnose := { s.tqDiagnose.write i (sampleOf env) with
            lastIndex := i } } .diagTmHandler 5 env.now
        else { s with tqDiagnose := s.tqDiagnose.write i (sampleOf env) } := by
  rw [diagTmHandler] at hrun
  dsimp only at hrun
  generalize hnext : (if s.tqDiagnose.lastIndex = 11 then 0 else s.tqDiagnose.lastIndex + 1) = i
    at hrun
  split at hrun
  · rename_i hi
    obtain ⟨traffic, htraffic, hrun⟩ := bind_eq_ok.mp hrun
    obtain ⟨out, hout, htraffic⟩ := bind_eq_ok.mp htraffic
    obtain rfl := strcpy_eq_ok hout
    obtain rfl := Except.ok.inj htraffic
    refine ⟨⟨i, hi⟩, hnext, ?_⟩
    split at hrun
    · rename_i hen
      rw [if_pos hen]
      exact (Except.ok.inj hrun).symm
    · rename_i hen
      rw [if_neg hen]
      exact (Except.ok.inj hrun).symm
  · cases hrun

/-- **What a request does to diagnosis.** -/
theorem diagStep_request {msgType : UInt16}
    (hstep : step jc s (.request msgType cip js env) = some s') :
    DiagStep s (.request msgType cip js env) s'.diagnosis ∧
      (s'.currentMsec = s.currentMsec ∨ env.now ≤ s'.currentMsec) := by
  -- only an `OPEN_INFO` starts diagnosis
  have hother : ∀ {v : Server}, MsgType.ofCode msgType ≠ some .openInfo →
      KeepsDiagnosis env.now s v → DiagStep s (.request msgType cip js env) v.diagnosis ∧
        (v.currentMsec = s.currentMsec ∨ env.now ≤ v.currentMsec) := by
    intro v hne hv
    exact ⟨.stays (by simp [opensInfo, hne]) rfl _ id hv.1, hv.2⟩
  rw [step, Option.map_eq_some_iff] at hstep
  obtain ⟨r, hr, rfl⟩ := hstep
  have hserve := toOption_eq_some.mp hr
  rw [serve] at hserve
  cases hm : MsgType.ofCode msgType with
  | none =>
    rw [hm] at hserve
    obtain rfl := Except.ok.inj hserve
    exact hother (by simp [hm]) ⟨rfl, Or.inl rfl⟩
  | some t =>
    rw [hm] at hserve
    cases t with
    | getVer | reqAuth | diagAuth =>
      obtain ⟨_, -, hserve⟩ := bind_eq_ok.mp hserve
      obtain rfl := Except.ok.inj hserve
      exact hother (by simp [hm]) ⟨rfl, Or.inl rfl⟩
    | openQos =>
      obtain ⟨⟨s', reply⟩, hok, hserve⟩ := bind_eq_ok.mp hserve
      obtain rfl := Except.ok.inj hserve
      obtain ⟨q, -, ⟨-, rfl⟩ | ⟨-, -, rfl⟩ | ⟨-, -, rfl⟩⟩ := tqReqStartQos_ok hok
      · exact hother (by simp [hm]) ⟨rfl, Or.inl rfl⟩
      · exact hother (by simp [hm]) ⟨rfl, Or.inl rfl⟩
      · exact hother (by simp [hm]) (keepsDiagnosis_startSession _)
    | openSpp =>
      obtain ⟨⟨s', reply⟩, hok, hserve⟩ := bind_eq_ok.mp hserve
      obtain rfl := Except.ok.inj hserve
      simp only [tqReqStartSpp, bind_eq_ok] at hok
      obtain ⟨_, _, _, _, _, _, _, _, _, _, hok⟩ := hok
      obtain rfl := congrArg Prod.fst (Except.ok.inj hok)
      exact hother (by simp [hm]) ⟨rfl, Or.inl rfl⟩
    | endSpeed =>
      obtain ⟨⟨s', reply⟩, hok, hserve⟩ := bind_eq_ok.mp hserve
      obtain rfl := Except.ok.inj hserve
      simp only [tqReqStopSpeed, bind_eq_ok] at hok
      obtain ⟨_, _, _, _, hok⟩ := hok
      obtain rfl := congrArg Prod.fst (Except.ok.inj hok)
      exact hother (by simp [hm]) ⟨rfl, Or.inl rfl⟩
    | openInfo =>
      obtain ⟨⟨s', reply⟩, hok, hserve⟩ := bind_eq_ok.mp hserve
      obtain rfl := Except.ok.inj hserve
      obtain rfl := tqReqGetDiag_ok hok
      by_cases hen : s.tqDiagnose.enable = true
      · rw [startDiagnose_of_enable hen]
        exact ⟨.stays (by simp [opensInfo, hen]) rfl _ id rfl, Or.inl rfl⟩
      · have hoff : s.tqDiagnose.enable = false := by simpa using hen
        obtain ⟨hdiag, hclock⟩ := @diagnosis_startDiagnose env s hoff
        exact ⟨.starts (by simp [opensInfo, hm, hoff]) rfl hoff hdiag, Or.inr hclock.ge⟩
    | endInfo =>
      obtain ⟨⟨s', reply⟩, hok, hserve⟩ := bind_eq_ok.mp hserve
      obtain rfl := Except.ok.inj hserve
      simp only [tqReqStopDiag, bind_eq_ok] at hok
      obtain ⟨_, _, _, _, hok⟩ := hok
      obtain rfl := congrArg Prod.fst (Except.ok.inj hok)
      exact ⟨.stays (by simp [opensInfo, hm]) rfl false
        (fun h => absurd h Bool.false_ne_true) rfl, Or.inl rfl⟩

/-- **What any event does to diagnosis.** -/
theorem diagStep (hstep : step jc s e = some s') :
    DiagStep s e s'.diagnosis ∧ (s'.currentMsec = s.currentMsec ∨ e.now ≤ s'.currentMsec) := by
  cases e with
  | tick now =>
    obtain rfl := Option.some.inj hstep
    exact ⟨.stays rfl rfl _ id rfl, Or.inr le_rfl⟩
  | request msgType cip js env => exact diagStep_request hstep
  | expire env =>
    obtain ⟨g, v, htake, hrun⟩ := step_expire hstep
    obtain ⟨k, q, hpop, rfl⟩ := takeDue_eq_some htake
    have hitems := DeadlineQueue.items_filter_popDue Handler.isDiag hpop
    have hkeeps : ∀ {w : Server}, samples s (.expire env) = false → g.isDiag = false →
        KeepsDiagnosis env.now { s with timers := q } w → DiagStep s (.expire env) w.diagnosis ∧
          (w.currentMsec = s.currentMsec ∨ env.now ≤ w.currentMsec) := by
      intro w hsample hg hw
      refine ⟨.stays rfl hsample _ id (hw.1.trans ?_), hw.2⟩
      rw [hg] at hitems
      exact congrArg (Diagnosis.mk s.tqDiagnose) (DeadlineQueue.ext hitems.symm)
    cases g with
    | startQos =>
      obtain rfl := Except.ok.inj hrun
      exact hkeeps (by simp [samples, htake]) rfl (keepsDiagnosis_startQos env.leases)
    | qosTmHandler =>
      obtain rfl := Except.ok.inj hrun
      exact hkeeps (by simp [samples, htake]) rfl (keepsDiagnosis_qosTmHandler env.leases)
    | diagTmHandler =>
      have hsample : samples s (.expire env) = true := by simp [samples, htake]
      have hk := (DeadlineQueue.popDue_eq_some hpop).2
      obtain ⟨i, hi, rfl⟩ := diagTmHandler_eq_ok hrun
      by_cases hen : s.tqDiagnose.enable = true
      · rw [if_pos hen]
        exact ⟨.goesOn rfl hsample env rfl k hk _ hitems hen i hi diagnosis_tqTimerNew_diag,
          Or.inr currentMsec_tqTimerNew.ge⟩
      · rw [if_neg hen]
        exact ⟨.ends rfl hsample env rfl k hk _ hitems (by simpa using hen) i hi rfl, Or.inl rfl⟩

end Steps

/-! ## Requests to try a run with -/

/-- An `OPEN_INFO`, at the time `now`. -/
def openInfoAt (now : ℕ) : Event :=
  .request MsgType.openInfo.code 1 (some (Json.obj [("token", .int 1), ("phonemac", .str "00")]))
    (Env.at now none)

/-- An `END_INFO`. -/
def endInfoAt (now : ℕ) : Event :=
  .request MsgType.endInfo.code 1 (some (Json.obj [("token", .int 1), ("phonemac", .str "00")]))
    (Env.at now none)

/-- The clock is read and the timer that is due runs, on a system with the given load. -/
def sampleAt (now : ℕ) (load : ℤ) : List Event :=
  [.tick now, .expire { Env.at now none with cpu := load, memory := load }]

/-- Diagnosis is stopped and started again after the last sample was taken. -/
def laterRestart : List Event :=
  [openInfoAt 0] ++ sampleAt 5 10 ++ [endInfoAt 6] ++ sampleAt 10 20 ++ [openInfoAt 11] ++
    sampleAt 16 30

/-- Diagnosis is stopped and started again before that. -/
def earlyRestart : List Event :=
  [openInfoAt 0, endInfoAt 1, openInfoAt 2] ++ sampleAt 5 10 ++ sampleAt 7 20

/-! ## At most one timer -/

section Spacing

variable {jc : JsonC} {s s' : Server} {e : Event} {es : List Event} {u : Diagnosis} {ts : List ℕ}

/-- The diagnosis timers of the server are those of its diagnosis. -/
theorem count_diagnosis (s : Server) :
    s.diagnosis.queue.count .diagTmHandler = pending .diagTmHandler s :=
  DeadlineQueue.count_filter rfl

/-- A start adds a timer. -/
theorem DiagStep.count_of_opens (ho : opensInfo s e = true) (h : DiagStep s e u) :
    u.queue.count .diagTmHandler = s.diagnosis.queue.count .diagTmHandler + 1 := by
  cases h with
  | starts _ _ _ hu =>
    subst hu
    simp
  | stays ho' | goesOn ho' | ends ho' =>
    rw [ho] at ho'
    cases ho'

/-- Nothing else adds a timer; one that is set again has left the queue before. -/
theorem DiagStep.count_le (ho : opensInfo s e = false) (h : DiagStep s e u) :
    u.queue.count .diagTmHandler ≤ s.diagnosis.queue.count .diagTmHandler := by
  cases h with
  | stays _ _ _ _ hu =>
    subst hu
    exact le_rfl
  | starts ho' =>
    rw [ho] at ho'
    cases ho'
  | goesOn _ _ _ _ k hk q hq _ _ _ hu =>
    subst hu
    rw [DeadlineQueue.count_of_items_eq_cons hq, DeadlineQueue.count_add]
  | ends _ _ _ _ k hk q hq _ _ _ hu =>
    subst hu
    rw [DeadlineQueue.count_of_items_eq_cons hq]
    exact Nat.le_add_right _ _

/-- The time of a sample is noted, as the main loop has read the clock. -/
def noteTime (s : Server) (e : Event) (ts : List ℕ) : List ℕ :=
  if samples s e then s.currentMsec :: ts else ts

/-- The times of the samples of a run, the last one first. -/
def sampleTimes (jc : JsonC) (s : Server) (es : List Event) : List ℕ :=
  Run.note (step jc) noteTime s [] es

/-- Samples are apart from each other, and so is the next one from all of them. -/
structure Spaced (s : Server) (ts : List ℕ) : Prop where
  alone : pending .diagTmHandler s ≤ 1
  apart : ts.Pairwise fun a b => b + 5 ≤ a
  past : ∀ t ∈ ts, t ≤ s.currentMsec
  ahead : ∀ t ∈ ts, ∀ b ∈ s.diagnosis.queue.items, t + 5 ≤ b.key

/-- When the only timer leaves, none is left. -/
theorem Spaced.items_eq_nil {k : ℕ} {q : DeadlineQueue Handler} (h : Spaced s ts)
    (hq : s.diagnosis.queue.items = ⟨k, .diagTmHandler⟩ :: q.items) : ∀ b ∈ q.items, False := by
  intro b hb
  have hcount := h.alone
  rw [← count_diagnosis, DeadlineQueue.count_of_items_eq_cons hq, if_pos rfl] at hcount
  -- every timer of diagnosis has the same handler
  have hmem : b ∈ s.diagnosis.queue.items := by
    rw [hq]
    exact List.mem_cons_of_mem _ hb
  have hdiag : b.handler = .diagTmHandler := by
    have hp := (DeadlineQueue.mem_items_filter.mp hmem).2
    cases hb' : b.handler with
    | diagTmHandler => rfl
    | startQos | qosTmHandler =>
      rw [hb'] at hp
      cases hp
  have hpos := DeadlineQueue.count_pos.mpr ⟨b, hb, hdiag⟩
  omega

/-- When a timer runs, all samples are five seconds old. -/
theorem Spaced.five_le {k : ℕ} {h' : Handler} {l : List (Timed Handler)} (h : Spaced s ts)
    (hq : s.diagnosis.queue.items = ⟨k, h'⟩ :: l) (hk : k ≤ s.currentMsec) :
    ∀ t ∈ ts, t + 5 ≤ s.currentMsec := by
  intro t ht
  have hmem : ⟨k, h'⟩ ∈ s.diagnosis.queue.items := by
    rw [hq]
    exact List.mem_cons_self
  exact (h.ahead t ht _ hmem).trans hk

/-- **One step.** -/
theorem Spaced.step (h : Spaced s ts) (hclock : ClockForward s e)
    (hG : opensInfo s e = true → pending .diagTmHandler s = 0) (hstep : step jc s e = some s') :
    Spaced s' (noteTime s e ts) := by
  obtain ⟨hdiag, hnow⟩ := diagStep hstep
  have hforward : s.currentMsec ≤ s'.currentMsec :=
    hnow.elim (fun hsame => hsame.ge) fun hlater => le_trans hclock hlater
  have hpast : ∀ t ∈ ts, t ≤ s'.currentMsec := fun t ht => (h.past t ht).trans hforward
  have halone : pending .diagTmHandler s' ≤ 1 := by
    rw [← count_diagnosis]
    by_cases ho : opensInfo s e = true
    · rw [hdiag.count_of_opens ho, count_diagnosis, hG ho]
    · refine (hdiag.count_le (by simpa using ho)).trans ?_
      rw [count_diagnosis]
      exact h.alone
  cases hdiag with
  | stays ho hs b hb hu =>
    have hqueue : s'.diagnosis.queue = s.diagnosis.queue := by rw [hu]
    rw [noteTime, if_neg (by simp [hs])]
    exact ⟨halone, h.apart, hpast, hqueue ▸ h.ahead⟩
  | starts ho hs he hu =>
    rw [noteTime, if_neg (by simp [hs])]
    refine ⟨halone, h.apart, hpast, fun t ht b hb => ?_⟩
    rw [hu, DeadlineQueue.mem_items_add] at hb
    rcases hb with rfl | hb
    · exact Nat.add_le_add_right ((h.past t ht).trans hclock) 5
    · exact h.ahead t ht b hb
  | goesOn ho hs env henv k hk q hq he i hi hu =>
    rw [noteTime, if_pos hs]
    refine ⟨halone, List.pairwise_cons.mpr ⟨h.five_le hq hk, h.apart⟩, ?_, fun t ht b hb => ?_⟩
    · exact List.forall_mem_cons.mpr ⟨hforward, hpast⟩
    · have hle : t ≤ s.currentMsec := (List.mem_cons.mp ht).elim (fun heq => heq.le) (h.past t)
      rw [hu, DeadlineQueue.mem_items_add] at hb
      rcases hb with rfl | hb
      · exact Nat.add_le_add_right (hle.trans hclock) 5
      · exact (h.items_eq_nil hq b hb).elim
  | ends ho hs env henv k hk q hq he i hi hu =>
    rw [noteTime, if_pos hs]
    refine ⟨halone, List.pairwise_cons.mpr ⟨h.five_le hq hk, h.apart⟩, ?_, fun t ht b hb => ?_⟩
    · exact List.forall_mem_cons.mpr ⟨hforward, hpast⟩
    · rw [hu] at hb
      exact (h.items_eq_nil hq b hb).elim

/-- **At most one timer for samples is pending** in every state of a run, so that samples are at
least five seconds apart, exactly if every start of diagnosis comes while none is. -/
theorem atMostOneDiag_iff (nv : Nvram) (hrun : Run.run (step jc) (serverInit nv) es = some s) :
    (Run.Visits (step jc) (fun s => pending .diagTmHandler s ≤ 1) (serverInit nv) es ∧
      (Run.Along (step jc) ClockForward (serverInit nv) es →
        (sampleTimes jc (serverInit nv) es).Pairwise fun a b => b + 5 ≤ a)) ↔
      Run.Along (step jc)
        (fun s e => opensInfo s e = true → pending .diagTmHandler s = 0) (serverInit nv) es := by
  have hvisits : Run.Visits (step jc) (fun s => pending .diagTmHandler s ≤ 1) (serverInit nv) es ↔
      Run.Along (step jc)
        (fun s e => opensInfo s e = true → pending .diagTmHandler s = 0) (serverInit nv) es := by
    refine Run.visits_iff_along (Nat.zero_le 1) (fun s e s' hs hG hstep => ?_)
      (fun s e s' hs hG hstep hone => ?_) hrun
    · rw [← count_diagnosis] at hs ⊢
      by_cases ho : opensInfo s e = true
      · rw [(diagStep hstep).1.count_of_opens ho, count_diagnosis, hG ho]
      · exact ((diagStep hstep).1.count_le (by simpa using ho)).trans hs
    · rw [Classical.not_imp] at hG
      obtain ⟨ho, hpend⟩ := hG
      rw [← count_diagnosis, (diagStep hstep).1.count_of_opens ho, count_diagnosis] at hone
      omega
  refine ⟨fun h => hvisits.mp h.1, fun hG => ⟨hvisits.mpr hG, fun hclock => ?_⟩⟩
  have h₀ : Spaced (serverInit nv) [] :=
    ⟨Nat.zero_le 1, .nil, List.forall_mem_nil _, List.forall_mem_nil _⟩
  exact (@Run.invariant_note _ _ _ _ _ _ _ _ _ _ Spaced h₀
    (fun s ts e s' hs (hG : ClockForward s e ∧ (opensInfo s e = true →
      pending .diagTmHandler s = 0)) hstep => hs.step hG.1 hG.2 hstep)
    (fun p e hp s hs => ⟨hclock p e hp s hs, hG p e hp s hs⟩) hrun).apart

/-- In a run in which diagnosis is started again after the last sample. -/
theorem atMostOneDiag_laterRestart :
    Run.Visits (step .unused) (fun s => pending .diagTmHandler s ≤ 1) (serverInit ⟨['0'], []⟩)
        laterRestart ∧
      (sampleTimes .unused (serverInit ⟨['0'], []⟩) laterRestart).Pairwise
        fun a b => b + 5 ≤ a := by
  obtain ⟨s, hrun⟩ := Option.isSome_iff_exists.mp
    (show (Run.run (step .unused) (serverInit ⟨['0'], []⟩) laterRestart).isSome = true by
      decide +kernel)
  have h := (atMostOneDiag_iff _ hrun).mpr (by decide +kernel)
  exact ⟨h.1, h.2 (by decide +kernel)⟩

/-- A start before that leaves two timers, and samples that are two seconds apart. -/
theorem not_atMostOneDiag_earlyRestart :
    ¬ Run.Visits (step .unused) (fun s => pending .diagTmHandler s ≤ 1) (serverInit ⟨['0'], []⟩)
        earlyRestart ∧
      Run.Along (step .unused) ClockForward (serverInit ⟨['0'], []⟩) earlyRestart ∧
      ¬ (sampleTimes .unused (serverInit ⟨['0'], []⟩) earlyRestart).Pairwise
        fun a b => b + 5 ≤ a := by
  decide +kernel

end Spacing

/-! ## The ring of samples -/

section Window

variable {jc : JsonC} {env : Env} {js : Option Json} {s s' : Server} {e : Event} {es : List Event}
  {w : List TqDiagData} {last : Fin sizeDiag}

/-- The samples are noted from each start of diagnosis on. -/
def noteSample (s : Server) : Event → List TqDiagData → List TqDiagData
  | .expire env, w => if samples s (.expire env) then sampleOf env :: w else w
  | e, w => if opensInfo s e then [] else w

/-- The samples of a run since diagnosis was last started, the last one first. -/
def window (jc : JsonC) (s : Server) (es : List Event) : List TqDiagData :=
  Run.note (step jc) noteSample s [] es

theorem noteSample_of_opens (ho : opensInfo s e = true) (w : List TqDiagData) :
    noteSample s e w = [] := by
  cases e with
  | request => exact if_pos ho
  | tick | expire => cases ho

theorem noteSample_of_stays (ho : opensInfo s e = false) (hs : samples s e = false)
    (w : List TqDiagData) : noteSample s e w = w := by
  cases e with
  | request => exact if_neg (Bool.eq_false_iff.mp ho)
  | tick => rfl
  | expire => exact if_neg (Bool.eq_false_iff.mp hs)

theorem noteSample_of_samples (hs : samples s (.expire env) = true) (w : List TqDiagData) :
    noteSample s (.expire env) w = sampleOf env :: w :=
  if_pos hs

/-- The ring shows the window while diagnosis is on, and the index is that of a slot at any time. -/
def ShowsWindow (s : Server) (w : List TqDiagData) : Prop :=
  ∃ last : Fin sizeDiag, s.tqDiagnose.lastIndex = last ∧
    (s.tqDiagnose.enable = true → Shows .zero w s.tqDiagnose.diagnoses last)

/-- Counting the slots modulo their number is what the handler does. -/
theorem next_eq {d : TqDiagCtl} (hlast : d.lastIndex = last) :
    d.next = ((last + 1 : Fin sizeDiag) : ℕ) := by
  have hall : ∀ l : Fin sizeDiag,
      (if (l : ℕ) = 11 then 0 else (l : ℕ) + 1) = ((l + 1 : Fin sizeDiag) : ℕ) := by decide
  rw [TqDiagCtl.next, hlast]
  exact hall last

/-- **One step.** -/
theorem ShowsWindow.step (h : ShowsWindow s w) (hstep : step jc s e = some s') :
    ShowsWindow s' (noteSample s e w) := by
  obtain ⟨last, hlast, hshows⟩ := h
  have hctl : s'.tqDiagnose = s'.diagnosis.ctl := rfl
  cases (diagStep hstep).1 with
  | stays ho hs b hb hu =>
    rw [noteSample_of_stays ho hs]
    refine ⟨last, by rw [hctl, hu]; exact hlast, fun hen => ?_⟩
    rw [hctl, hu] at hen ⊢
    exact hshows (hb hen)
  | starts ho hs he hu =>
    rw [noteSample_of_opens ho]
    refine ⟨last, by rw [hctl, hu]; exact hlast, fun _ => ?_⟩
    rw [hctl, hu]
    exact RingWindow.shows_nil _ _
  | goesOn ho hs env henv k hk q hq he i hi hu =>
    subst henv
    obtain rfl : i = last + 1 := Fin.ext (hi.symm.trans (next_eq hlast))
    rw [noteSample_of_samples hs]
    refine ⟨last + 1, by rw [hctl, hu], fun _ => ?_⟩
    rw [hctl, hu]
    exact (hshows he).push (sampleOf env)
  | ends ho hs env henv k hk q hq he i hi hu =>
    refine ⟨last, by rw [hctl, hu]; exact hlast, fun hen => ?_⟩
    -- diagnosis is off before and after
    rw [hctl, hu] at hen
    exact absurd (he.symm.trans hen) Bool.false_ne_true

/-- The answer to an `OPEN_INFO` in terms of the window: `w r` is the sample `r` before the newest.
-/
def diagAnswer (jc : JsonC) (env : Env) (js : Option Json) (w : Fin sizeDiag → TqDiagData) :
    Except Crash Json := do
  let _ ← tqJsonGetString js "phonemac"
  let _ ← tqJsonGetInt js "token"
  let (newest, previous, oldest) := (w 0, w 1, w 11)
  let sum (f : TqDiagData → ℤ) : ℤ := ((List.finRange sizeDiag).map fun r => f (w r)).sum
  let dealt5 ← calcTracDealt jc previous.traffic newest.traffic
  let down5 := jc.tokenerParse (← calcTracArray jc dealt5 "down")
  let up5 := jc.tokenerParse (← calcTracArray jc dealt5 "up")
  let dealt60 ← calcTracDealt jc oldest.traffic newest.traffic
  let up60 := jc.tokenerParse (← calcTracArray jc dealt60 "up")
  let down60 := jc.tokenerParse (← calcTracArray jc dealt60 "down")
  pure (Json.obj (successFields ++
    [("rssi", .int env.rssi), ("errorrate", .int 0), ("channelrate", .int 0),
      ("terminals", .int env.terminals),
      ("cpu_5", .int ((newest.cpu + previous.cpu).tdiv 2)),
      ("cpu_60", .int ((sum (·.cpu)).tdiv 12)),
      ("memory_5", .int ((newest.memory + previous.memory).tdiv 2)),
      ("memory_60", .int ((sum (·.memory)).tdiv 12)),
      ("errpack_5", .int (newest.errpack - previous.errpack)),
      ("errpack_60", .int (newest.errpack - oldest.errpack)),
      ("losepack_5", .int (newest.losepack - previous.losepack)),
      ("losepack_60", .int (newest.losepack - oldest.losepack)),
      ("up_5", .ofPtr up5), ("up_60", .ofPtr up60),
      ("down_5", .ofPtr down5), ("down_60", .ofPtr down60)]))

/-- The two slots an `OPEN_INFO` looks at beside the last one: the one before it, and the one behind
it, which is the oldest. -/
theorem slots_of_last : ∀ last : Fin sizeDiag,
    (if last = 0 then 11 else last - 1) = last - 1 ∧
      (if last = 11 then 0 else last + 1) = last - 11 := by
  decide

/-- **The answer** is that of the window the ring shows. -/
theorem tqReqGetDiag_of_shows (hen : s.tqDiagnose.enable = true)
    (hlast : s.tqDiagnose.lastIndex = last) (h : Shows .zero w s.tqDiagnose.diagnoses last) :
    tqReqGetDiag jc env js s =
      (fun reply => (s, reply)) <$> diagAnswer jc env js fun r => w.getD r .zero := by
  have hj : Fin.ofNat sizeDiag s.tqDiagnose.lastIndex = last := by
    rw [hlast]
    exact Fin.ext (Nat.mod_eq_of_lt last.isLt)
  have hnewest : s.tqDiagnose.diagnoses last = w.getD 0 .zero := h.newest
  have hprevious : s.tqDiagnose.diagnoses (last - 1) = w.getD 1 .zero := h 1
  have holdest : s.tqDiagnose.diagnoses (last - 11) = w.getD 11 .zero := h 11
  rw [tqReqGetDiag, diagAnswer]
  simp only [hj, (slots_of_last last).1, (slots_of_last last).2, startDiagnose_of_enable hen,
    hnewest, hprevious, holdest, h.sum_eq, map_bind, map_pure]
  rfl

/-- **The ring is a sliding window**: while diagnosis is on, its slots read backwards from the last
one are the samples since it was started, and every `OPEN_INFO` is answered from them. -/
theorem diagWindow (nv : Nvram) (hrun : Run.run (step jc) (serverInit nv) es = some s)
    (hen : s.tqDiagnose.enable = true) :
    ∃ last : Fin sizeDiag, s.tqDiagnose.lastIndex = last ∧
      Shows .zero (window jc (serverInit nv) es) s.tqDiagnose.diagnoses last ∧
      ∀ env js, tqReqGetDiag jc env js s = (fun reply => (s, reply)) <$>
        diagAnswer jc env js fun r => (window jc (serverInit nv) es).getD r .zero := by
  have h₀ : ShowsWindow (serverInit nv) [] := ⟨0, rfl, nofun⟩
  obtain ⟨last, hlast, hshows⟩ := Run.invariant_note h₀
    (fun s w e s' hs (_ : True) (hstep : step jc s e = some s') => hs.step hstep)
    (fun _ _ _ _ _ => trivial) hrun
  exact ⟨last, hlast, hshows hen, fun env js => tqReqGetDiag_of_shows hen hlast (hshows hen)⟩

/-- After two starts the ring shows the sample that was taken since the second. -/
theorem diagWindow_laterRestart : ∃ s,
    Run.run (step .unused) (serverInit ⟨['0'], []⟩) laterRestart = some s ∧
      ∃ last : Fin sizeDiag, s.tqDiagnose.lastIndex = last ∧
        Shows .zero [⟨0, 0, 30, 30, []⟩] s.tqDiagnose.diagnoses last := by
  obtain ⟨s, hrun, hen⟩ : ∃ s, Run.run (step .unused) (serverInit ⟨['0'], []⟩) laterRestart =
      some s ∧ s.tqDiagnose.enable = true := by
    have hsome : ((Run.run (step .unused) (serverInit ⟨['0'], []⟩) laterRestart).map
        fun s => s.tqDiagnose.enable) = some true := by
      decide +kernel
    exact Option.map_eq_some_iff.mp hsome
  obtain ⟨last, hlast, hshows, -⟩ := diagWindow _ hrun hen
  have hwindow : window .unused (serverInit ⟨['0'], []⟩) laterRestart = [⟨0, 0, 30, 30, []⟩] := by
    decide +kernel
  exact ⟨s, hrun, last, hlast, hwindow ▸ hshows⟩

end Window

end Tqos
