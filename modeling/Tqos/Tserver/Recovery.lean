import Tqos.Tserver.QosCache

/-!
# The recovery file

When a session is opened, the settings it saves are also written to `/data/qos_cfg.file`, for the
case that the process does not live to restore them: `sighandler` puts them back when the process is
told to end, and `main` does when the next one starts, and removes the file. Nothing else removes
it. The tick that ends a session puts the settings back and leaves the file where it is, so that a
later termination or start overwrites what the user has set since then.

The device is the process, when there is one, and what outlives it. Beside its state stands the part
of its history the user would ask about: whether an override is in force or about to be, and what
was set by hand since the settings were last put back.

## Main results

* `Tracked.step` — while no override is active, the settings are what the user set, or what the file
  says if nothing was set
* `recovery_iff` — a termination or a start leaves the user's settings alone, exactly if no settings
  are made while a file is left over; and a file is never left over, exactly if no session ends
-/

namespace Tqos

/-! ## The device -/

/-- What has happened, as far as the user is concerned. -/
structure History where
  /-- A session was opened or the override written, and the settings were not put back since. -/
  override : Bool
  /-- What was set by hand since the settings were last put back. -/
  edit : Option Nvram
deriving DecidableEq

/-- Nothing has happened yet. -/
def History.fresh : History := ⟨false, none⟩

/-- What an event of the server adds to the history. -/
def History.after (past : History) : QosEvent → History
  | .opens | .starts => { past with override := true }
  | .restores => .fresh
  | .other | .skips | .fails | .rearms => past

/-- The device, with a process or without. -/
inductive Device
  | running (s : Server) (past : History)
  | down (nvram : Nvram) (file : Option Nvram) (past : History)

/-- What can happen to the device. -/
inductive DeviceEvent
  /-- The server takes something up. -/
  | serves (e : Event)
  /-- The user changes the settings. -/
  | edits (nvram : Nvram)
  /-- The process gets a signal to end. -/
  | terminates
  /-- A process is started. -/
  | starts

namespace Device

def nvram : Device → Nvram
  | running s _ => s.nvram
  | down nvram _ _ => nvram

def file : Device → Option Nvram
  | running s _ => s.qosCfgFile
  | down _ file _ => file

def past : Device → History
  | running _ past => past
  | down _ _ past => past

/-- An override is active, or was when the last process ended. -/
def active : Device → Bool
  | running s past => s.tqQos.enable || past.override
  | down _ _ past => past.override

/-- The device before anything has happened. -/
def new (nvram : Nvram) : Device := down nvram none .fresh

end Device

/-- What is set from the file. -/
def setFrom (f : Nvram) : Nvram := qosSh f.qosEnable f.ipQosList

/-- The test for the file and `reset_qos_config_from_file`. -/
def resetQosConfigFromFile (file : Option Nvram) (nvram : Nvram) : Nvram :=
  match file with
  | some f => setFrom f
  | none => nvram

/-- One event. -/
def deviceStep (jc : JsonC) : Device → DeviceEvent → Option Device
  | .running s past, .serves e =>
    (step jc s e).map fun s' => .running s' (past.after (qosEvent s e))
  -- the user leaves the settings alone while they are overridden
  | .running s past, .edits nvram =>
    if s.tqQos.enable || past.override then none
    else some (.running { s with nvram := nvram } { past with edit := some nvram })
  -- `sighandler`; the main loop ends when it is interrupted
  | .running s past, .terminates =>
    some (.down (resetQosConfigFromFile s.qosCfgFile s.nvram) s.qosCfgFile
      ⟨s.tqQos.enable || past.override, none⟩)
  | .down _ file past, .edits nvram => some (.down nvram file { past with edit := some nvram })
  -- `main`, which removes the file
  | .down nvram file _, .starts =>
    some (.running (serverInit (resetQosConfigFromFile file nvram)) .fresh)
  | _, _ => none

/-! ## The conditions -/

/-- The event is one of the two at which the file is read. -/
def recovers : Device → DeviceEvent → Bool
  | .running _ _, .terminates | .down _ _ _, .starts => true
  | _, _ => false

/-- A termination or a start changes the settings only if an override was active. -/
def SparesSettings (jc : JsonC) (d : Device) (e : DeviceEvent) : Prop :=
  recovers d e = true → d.active = false → ∀ d' ∈ deviceStep jc d e, d'.nvram = d.nvram

instance (jc : JsonC) (d : Device) (e : DeviceEvent) : Decidable (SparesSettings jc d e) :=
  inferInstanceAs (Decidable (_ → _ → _))

/-- When the file is read and no override is active, there is no file or the user has set nothing
else, since the settings were put back, than what is set from it. -/
def FileFresh (d : Device) (e : DeviceEvent) : Prop :=
  recovers d e = true → d.active = false →
    d.file = none ∨ d.past.edit = none ∨ d.past.edit = d.file.map setFrom

instance (d : Device) (e : DeviceEvent) : Decidable (FileFresh d e) :=
  inferInstanceAs (Decidable (_ → _ → _))

/-- The file is only there while an override is active. -/
def FileInUse (d : Device) : Prop := d.file.isSome = true → d.active = true

instance (d : Device) : Decidable (FileInUse d) := inferInstanceAs (Decidable (_ → _))

/-- The event is a tick that ends a session. -/
def endsSession : Device → DeviceEvent → Bool
  | .running s _, .serves e => decide (qosEvent s e = .restores)
  | _, _ => false

/-! ## What is known of the settings -/

section Recovery

variable {jc : JsonC} {s s' : Server} {e : Event} {past : History} {d d' : Device}
  {ev : DeviceEvent} {nv : Nvram} {file : Option Nvram} {es : List DeviceEvent}

/-- The settings are the user's, if there are any, and else those set from the file. -/
def Settled (nv : Nvram) (file : Option Nvram) (past : History) : Prop :=
  past.override = false → ∀ f, file = some f → nv = past.edit.getD (setFrom f)

/-- What holds of a running server and the history. -/
structure TrackedServer (s : Server) (past : History) : Prop where
  nul : '\x00' ∉ s.tqQos.ipList
  on : s.session.enable = true → past.override = true
  saved : s.session.file = none ∧ s.session.queue.items = [] ∨
    s.session.file = some (filedOf s.session.saved)
  settled : Settled s.session.nvram s.session.file past

/-- What holds of the device at any time. -/
def Tracked : Device → Prop
  | .running s past => TrackedServer s past
  | .down nv file past => Settled nv file past

/-- Once a timer is pending the file is there. -/
theorem TrackedServer.file_of_items {k : ℕ} {h : Handler} {q : DeadlineQueue Handler}
    (hs : TrackedServer s past) (hq : s.session.queue.items = ⟨k, h⟩ :: q.items) :
    s.session.file = some (filedOf s.session.saved) := by
  rcases hs.saved with ⟨-, hnil⟩ | hfile
  · rw [hq] at hnil
    cases hnil
  · exact hfile

/-- The history alone says whether an override is active. -/
theorem TrackedServer.active_iff (hs : TrackedServer s past) :
    (Device.running s past).active = past.override := by
  have hon : s.tqQos.enable = true → past.override = true := hs.on
  rw [Device.active]
  cases hen : s.tqQos.enable with
  | false => exact Bool.false_or _
  | true => rw [hon hen, Bool.or_true]

/-- **One event of the server.** -/
theorem TrackedServer.step (hs : TrackedServer s past) (hstep : step jc s e = some s') :
    TrackedServer s' (past.after (qosEvent s e)) := by
  have hnul := nul_notMem_ipList_of_step hs.nul hstep
  cases overrideStep hs.nul hstep with
  | other hk b hb hu hl =>
    rw [hk]
    refine ⟨hnul, fun hen => ?_, ?_, ?_⟩ <;> rw [hu] at *
    · exact hs.on (hb hen)
    · exact hs.saved
    · exact hs.settled
  | opens hk t₁ t₂ hlt hu hl =>
    rw [hk]
    refine ⟨hnul, fun _ => rfl, Or.inr ?_, fun hoff => nomatch hoff⟩
    rw [hu]
    rfl
  | skips hk k q hq hu hl =>
    rw [hk]
    refine ⟨hnul, fun hen => ?_, Or.inr ?_, ?_⟩ <;> rw [hu] at *
    · exact hs.on hen
    · exact hs.file_of_items hq
    · exact hs.settled
  | starts hk k q hq l hno hu hl =>
    rw [hk]
    refine ⟨hnul, fun _ => rfl, Or.inr ?_, fun hoff => nomatch hoff⟩
    rw [hu]
    exact hs.file_of_items hq
  | fails hk k q hq hu hl =>
    rw [hk]
    refine ⟨hnul, fun hen => ?_, Or.inr ?_, ?_⟩ <;> rw [hu] at *
    · exact hs.on hen
    · exact hs.file_of_items hq
    · exact hs.settled
  | restores hk k q hq hu hl =>
    rw [hk]
    refine ⟨hnul, fun hen => ?_, Or.inr ?_, fun _ f hf => ?_⟩ <;> rw [hu] at *
    · cases hen
    · exact hs.file_of_items hq
    -- what is restored is what would be set from the file
    · exact congrArg setFrom (Option.some.inj ((hs.file_of_items hq).symm.trans hf))
  | rearms hk he k k' q hq hno hsame hu hl =>
    rw [hk]
    refine ⟨hnul, fun _ => hs.on he, Or.inr ?_, fun hoff => ?_⟩
    · rw [hu]
      exact hs.file_of_items hq
    · exact absurd ((hs.on he).symm.trans hoff) (by decide)

theorem trackedServer_init (nv : Nvram) : TrackedServer (serverInit nv) .fresh :=
  ⟨List.not_mem_nil, nofun, Or.inl ⟨rfl, rfl⟩, fun _ _ hf => nomatch hf⟩

/-- **One event.** -/
theorem Tracked.step (hd : Tracked d) (hstep : deviceStep jc d ev = some d') : Tracked d' := by
  cases d with
  | running s past =>
    cases ev with
    | serves e =>
      obtain ⟨s', hs', rfl⟩ := Option.map_eq_some_iff.mp hstep
      exact TrackedServer.step hd hs'
    | edits nv =>
      rw [deviceStep, Option.ite_none_left_eq_some] at hstep
      obtain ⟨-, hstep⟩ := hstep
      obtain rfl := Option.some.inj hstep
      exact ⟨hd.nul, hd.on, hd.saved, fun _ _ _ => rfl⟩
    | terminates =>
      obtain rfl := Option.some.inj hstep
      intro _ f hf
      rw [hf]
      rfl
    | starts => cases hstep
  | down nv file past =>
    cases ev with
    | serves e => cases hstep
    | edits nv' =>
      obtain rfl := Option.some.inj hstep
      exact fun _ _ _ => rfl
    | terminates => cases hstep
    | starts =>
      obtain rfl := Option.some.inj hstep
      exact trackedServer_init _

/-- Reading the file changes nothing exactly if there is none or the user has set nothing else. -/
theorem resetQosConfigFromFile_eq_iff (h : Settled nv file past) (hoff : past.override = false) :
    resetQosConfigFromFile file nv = nv ↔
      file = none ∨ past.edit = none ∨ past.edit = file.map setFrom := by
  cases file with
  | none => simp [resetQosConfigFromFile]
  | some f =>
    have hnv : nv = past.edit.getD (setFrom f) := h hoff f rfl
    have hreset : resetQosConfigFromFile (some f) nv = setFrom f := rfl
    rw [hreset, hnv]
    cases past.edit with
    | none => simp
    | some g => simp [eq_comm]

/-- **One event**, for the settings. -/
theorem sparesSettings_iff (hd : Tracked d) : SparesSettings jc d ev ↔ FileFresh d ev := by
  refine forall_congr' fun hrec => forall_congr' fun hoff => ?_
  cases d with
  | running s past =>
    have hpast : past.override = false := (TrackedServer.active_iff hd).symm.trans hoff
    cases ev with
    | serves | edits | starts => cases hrec
    | terminates =>
      simp only [deviceStep, Option.mem_some, forall_eq']
      exact resetQosConfigFromFile_eq_iff hd.settled hpast
  | down nv file past =>
    cases ev with
    | serves | edits | terminates => cases hrec
    | starts =>
      simp only [deviceStep, Option.mem_some, forall_eq']
      exact resetQosConfigFromFile_eq_iff hd hoff

/-- **One event**, for the file, when no session ends. -/
theorem fileInUse_of_step (hd : Tracked d) (huse : FileInUse d) (hends : endsSession d ev = false)
    (hstep : deviceStep jc d ev = some d') : FileInUse d' := by
  have hd' := hd.step hstep
  cases d with
  | running s past =>
    have hactive := TrackedServer.active_iff hd
    cases ev with
    | serves e =>
      obtain ⟨s', hs', rfl⟩ := Option.map_eq_some_iff.mp hstep
      intro hfile
      rw [TrackedServer.active_iff hd']
      -- the file was there before, unless the event opens a session
      have hkept : s'.session.file = s.session.file → past.override = true := by
        intro hsame
        have hfile' : s'.session.file.isSome = true := hfile
        rw [hsame] at hfile'
        exact hactive ▸ huse hfile'
      cases overrideStep hd.nul hs' with
      | other hk _ _ hu | skips hk _ _ _ hu | fails hk _ _ _ hu | rearms hk _ _ _ _ _ _ _ hu =>
        rw [hk]
        exact hkept (by rw [hu])
      | opens hk | starts hk =>
        rw [hk]
        rfl
      | restores hk =>
        rw [endsSession, hk] at hends
        cases hends
    | edits nv =>
      rw [deviceStep, Option.ite_none_left_eq_some] at hstep
      obtain ⟨-, hstep⟩ := hstep
      obtain rfl := Option.some.inj hstep
      exact huse
    | terminates =>
      obtain rfl := Option.some.inj hstep
      exact huse
    | starts => cases hstep
  | down nv file past =>
    cases ev with
    | serves | terminates => cases hstep
    | edits nv' =>
      obtain rfl := Option.some.inj hstep
      exact huse
    | starts =>
      obtain rfl := Option.some.inj hstep
      exact nofun

/-- The end of a session leaves the file behind. -/
theorem not_fileInUse_of_endsSession (hd : Tracked d) (hends : endsSession d ev = true)
    (hstep : deviceStep jc d ev = some d') : ¬ FileInUse d' := by
  have hd' := hd.step hstep
  cases d with
  | down => cases hends
  | running s past =>
    cases ev with
    | edits | terminates | starts => cases hends
    | serves e =>
      have hk : qosEvent s e = .restores := of_decide_eq_true hends
      obtain ⟨s', hs', rfl⟩ := Option.map_eq_some_iff.mp hstep
      cases overrideStep hd.nul hs' with
      | other hk' | opens hk' | skips hk' | starts hk' | fails hk' | rearms hk' =>
        rw [hk] at hk'
        cases hk'
      | restores _ k q hq hu =>
        intro huse
        have hfile : s'.session.file = some (filedOf s.session.saved) := by
          rw [hu]
          exact hd.file_of_items hq
        have hactive := huse (Option.isSome_iff_exists.mpr ⟨_, hfile⟩)
        rw [TrackedServer.active_iff hd', hk] at hactive
        cases hactive

/-- A file that is in use is no danger to the settings. -/
theorem fileFresh_of_fileInUse (h : FileInUse d) : FileFresh d ev := by
  intro _ hoff
  left
  by_contra hfile
  have hactive := h (Option.isSome_iff_ne_none.mpr hfile)
  exact absurd (hactive.symm.trans hoff) (by decide)

/-- **The user's own settings** survive every termination and start of a run that comes while no
override is active, exactly if the user has set nothing since the settings were put back whenever a
file is left over then; and no file is ever left over, so that they surely do, exactly if no tick
ends a session. -/
theorem recovery_iff (nv : Nvram) (hrun : Run.run (deviceStep jc) (.new nv) es = some d) :
    (Run.Along (deviceStep jc) (SparesSettings jc) (.new nv) es ↔
        Run.Along (deviceStep jc) FileFresh (.new nv) es) ∧
      (Run.Along (deviceStep jc) (SparesSettings jc) (.new nv) es ∧
          Run.Visits (deviceStep jc) FileInUse (.new nv) es ↔
        Run.Along (deviceStep jc) (fun d ev => endsSession d ev = false) (.new nv) es) := by
  have h₀ : Tracked (.new nv) := fun _ _ hf => nomatch hf
  have hspares : Run.Along (deviceStep jc) (SparesSettings jc) (.new nv) es ↔
      Run.Along (deviceStep jc) FileFresh (.new nv) es :=
    Run.along_congr h₀ (fun _ _ _ hd hstep => hd.step hstep) fun _ _ hd => sparesSettings_iff hd
  have htracked : Run.Visits (deviceStep jc) Tracked (.new nv) es :=
    Run.visits_of_along h₀ (fun _ _ _ hd (_ : True) hstep => hd.step hstep) fun _ _ _ _ _ => trivial
  have huse : Run.Visits (deviceStep jc) (fun d => Tracked d ∧ FileInUse d) (.new nv) es ↔
      Run.Along (deviceStep jc) (fun d ev => endsSession d ev = false) (.new nv) es := by
    refine Run.visits_iff_along ⟨h₀, nofun⟩ (fun d ev d' hd hG hstep => ?_)
      (fun d ev d' hd hG hstep => ?_) hrun
    · exact ⟨hd.1.step hstep, fileInUse_of_step hd.1 hd.2 hG hstep⟩
    · rw [Bool.not_eq_false] at hG
      exact fun hd' => not_fileInUse_of_endsSession hd.1 hG hstep hd'.2
  refine ⟨hspares, fun h => huse.mp fun p hp d hd => ⟨htracked p hp d hd, h.2 p hp d hd⟩,
    fun h => ⟨hspares.mpr ?_, fun p hp d hd => (huse.mpr h p hp d hd).2⟩⟩
  intro p ev hp d hd
  exact fileFresh_of_fileInUse (huse.mpr h p ((List.prefix_append p [ev]).trans hp) d hd).2

/-- In a run whose process is told to end while the settings are overridden, and is started again.
-/
theorem recovery_interrupted :
    let es := [.starts, .serves (openQosAt 0 1 20), .serves (.tick 5),
      .serves (.expire (Env.at 5 otherLease)), .terminates, .edits ⟨['2'], ['x']⟩, .starts,
      .edits ⟨['2'], ['y']⟩, .terminates, .starts]
    Run.Along (deviceStep .unused) (SparesSettings .unused) (.new ⟨['0'], []⟩) es ∧
      Run.Visits (deviceStep .unused) FileInUse (.new ⟨['0'], []⟩) es := by
  intro es
  obtain ⟨d, hrun⟩ := Option.isSome_iff_exists.mp
    (show (Run.run (deviceStep .unused) (.new ⟨['0'], []⟩) es).isSome = true by decide +kernel)
  exact (recovery_iff _ hrun).2.mpr (by decide +kernel)

/-- A session ends, the user changes the settings, and the process is told to end. -/
theorem not_recovery_afterSession :
    ¬ Run.Along (deviceStep .unused) (SparesSettings .unused) (.new ⟨['0'], []⟩)
      (.starts :: wholeSession.map .serves ++ [.edits ⟨['2'], ['x']⟩, .terminates]) := by
  decide +kernel

end Recovery

end Tqos
