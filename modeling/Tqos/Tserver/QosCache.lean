import Tqos.Tserver.QosRuns

/-!
# The limit list and its copy

`qos_tm_handler` writes nvram only when the limit list has changed since it was last written, and it
takes the answer from `tq_qos.ip_list`, where the list that was written last is kept. The tick that
ends a session puts the user's settings back and leaves that copy as it is. As long as every session
is started by a `start_qos` that finds a usable list this does no harm. When it finds none, the copy
of the session before is still there, and a tick that makes the same list believes it to be in
nvram.

## Main results

* `cstr_ipQosListOf` — the list that is made of a usable lease file
* `overrideStep` — what any event does to the session and to the copy, by what it is
* `tickTruthful_iff` — nvram holds the list of every such tick, exactly if nvram holds what the copy
  says whenever the list has not changed; which is so when every `start_qos` finds a usable list and
  sessions are opened while no timer of an older one is pending
-/

namespace Tqos

/-! ## The list -/

section Text

variable {q : TqQosCtl} {ls : List DhcpLease} {l : DhcpLease} {buf : List Char} {c : Char}

/-- The entries of the leases that are not passed over, one behind the other. -/
def entries (q : TqQosCtl) (ls : List DhcpLease) : List Char :=
  ((ls.filter fun l => !exempt q.qosCli (inetNtoa l.ip)).map fun l =>
    entry q.brandlimit l.ip).flatten

/-- The limit list: the entries without the last semicolon. -/
def limitList (q : TqQosCtl) (ls : List DhcpLease) : List Char := (entries q ls).dropLast

theorem length_entries (q : TqQosCtl) (ls : List DhcpLease) :
    (entries q ls).length = totalLength q ls := by
  rw [entries, totalLength, List.length_flatten, List.map_map]
  rfl

theorem entries_cons_of_exempt (h : exempt q.qosCli (inetNtoa l.ip) = true) :
    entries q (l :: ls) = entries q ls := by
  rw [entries, List.filter_cons_of_neg (by simp [h])]
  rfl

theorem entries_cons (h : ¬ exempt q.qosCli (inetNtoa l.ip) = true) :
    entries q (l :: ls) = entry q.brandlimit l.ip ++ entries q ls := by
  rw [entries, List.filter_cons_of_pos (by simp [h])]
  rfl

/-- An entry is made of digits, dots, commas, signs and a semicolon. -/
theorem notMem_entry {x : Char} (hx : x.isDigit = false) (hsep : x ∉ ['.', ',', '-', ';'])
    (brandlimit : ℤ) (ip : UInt32) : x ∉ entry brandlimit ip := by
  simp only [List.mem_cons, List.not_mem_nil, or_false, not_or] at hsep
  obtain ⟨hdot, hcomma, hsign, hsemicolon⟩ := hsep
  simp [entry, notMem_toDec hx hsign, notMem_inetNtoa hx hdot, hcomma, hsemicolon]

theorem notMem_entries {x : Char} (hx : x.isDigit = false) (hsep : x ∉ ['.', ',', '-', ';'])
    (q : TqQosCtl) (ls : List DhcpLease) : x ∉ entries q ls := by
  rw [entries, List.mem_flatten]
  rintro ⟨text, htext, hmem⟩
  obtain ⟨l, -, rfl⟩ := List.mem_map.mp htext
  exact notMem_entry hx hsep _ _ hmem

/-- **What the loop writes**, when all entries and a terminator fit behind `pos`. -/
theorem acquireLoop_text (ls : List DhcpLease) (buf : List Char) (pos : ℕ) (size : ℤ)
    (hsize : (buf.length : ℤ) = pos + size) (hfit : totalLength q ls < size) :
    ∃ rest, (buf.take pos ++ entries q ls ++ rest).length = buf.length ∧
      (acquireLoop q ls buf pos size).value =
        (buf.take pos ++ entries q ls ++ rest, pos + totalLength q ls,
          size - totalLength q ls) := by
  induction ls generalizing buf pos size with
  | nil => exact ⟨buf.drop pos, by simp [entries], by simp [acquireLoop, entries, totalLength]⟩
  | cons l ls ih =>
    have hpos : size ≠ 0 := by omega
    rw [acquireLoop, if_neg hpos]
    by_cases hex : exempt q.qosCli (inetNtoa l.ip) = true
    · rw [if_pos hex, entries_cons_of_exempt hex, totalLength_cons_of_exempt hex]
      rw [totalLength_cons_of_exempt hex] at hfit
      exact ih buf pos size hsize hfit
    · set text := entry q.brandlimit l.ip with htext
      have htotal : totalLength q (l :: ls) = text.length + totalLength q ls :=
        totalLength_cons hex
      rw [htotal] at hfit ⊢
      push_cast at hfit
      -- the entry and its terminator fit
      have hprint : snprintf size text = text ++ ['\x00'] := by
        rw [snprintf, if_neg hpos, if_pos (by omega), List.take_of_length_le (by omega)]
      have hblit : blit buf pos (snprintf size text) =
          buf.take pos ++ text ++ (['\x00'] ++ buf.drop (pos + text.length + 1)) := by
        rw [hprint, blit_of_le (by simp; omega)]
        simp [Nat.add_assoc]
      have htake : (blit buf pos (snprintf size text)).take (pos + text.length) =
          buf.take pos ++ text := by
        rw [hblit]
        exact List.take_left' (by simp; omega)
      obtain ⟨rest, hlen, hval⟩ := ih (blit buf pos (snprintf size text)) (pos + text.length)
        (size - text.length) (by rw [length_blit]; push_cast; omega) (by omega)
      rw [htake, length_blit] at hlen
      rw [htake] at hval
      rw [if_neg hex, Traced.value_bind, entries_cons hex, ← List.append_assoc]
      refine ⟨rest, hlen, hval.trans ?_⟩
      rw [Nat.add_assoc, Nat.cast_add, sub_sub]

/-- **The list of a lease file whose entries fit**, and the value that is returned beside it. -/
theorem acquireIpQosList_text {size : ℕ} (hsize : buf.length = size) (hpos : 0 < totalLength q ls)
    (hlt : totalLength q ls < size) :
    ∃ rest, (acquireIpQosList q (some ls) buf size).value =
      (limitList q ls ++ '\x00' :: rest, (totalLength q ls : ℤ)) := by
  obtain ⟨rest, hlen, hval⟩ := acquireLoop_text (q := q) ls buf 0 size (by simp [hsize])
    (by exact_mod_cast hlt)
  rw [List.take_zero, List.nil_append] at hlen hval
  rw [Nat.zero_add] at hval
  have hresult : (acquireIpQosList q (some ls) buf size).value =
      (blit (entries q ls ++ rest) ((totalLength q ls : ℤ) - 1) ['\x00'],
        (size : ℤ) - (size - totalLength q ls)) := by
    rw [acquireIpQosList, Traced.value_bind, hval]
    rfl
  obtain ⟨n, hn⟩ : ∃ n, totalLength q ls = n + 1 := ⟨_, (Nat.succ_pred_eq_of_pos hpos).symm⟩
  have hentries : (entries q ls).length = n + 1 := (length_entries q ls).trans hn
  -- the terminator takes the place of the last semicolon
  have hblit : blit (entries q ls ++ rest) ((totalLength q ls : ℤ) - 1) ['\x00'] =
      limitList q ls ++ '\x00' :: rest := by
    rw [hn, Nat.cast_succ, add_sub_cancel_right, blit_of_le (by simp [hentries]),
      List.take_append_of_le_length (by omega), List.drop_append_of_le_length (by simp [hentries]),
      List.drop_eq_nil_of_le (by simp [hentries]), limitList, List.dropLast_eq_take, hentries]
    simp
  refine ⟨rest, ?_⟩
  rw [hresult, hblit, sub_sub_cancel]

/-- The list has no NUL in it. -/
theorem nul_notMem_limitList (q : TqQosCtl) (ls : List DhcpLease) : '\x00' ∉ limitList q ls :=
  fun h => notMem_entries (by decide) (by decide) q ls (List.mem_of_mem_dropLast h)

/-- The list is one word. -/
theorem isBlank_of_mem_limitList {q : TqQosCtl} {ls : List DhcpLease} {c : Char}
    (hc : c ∈ limitList q ls) : isBlank c = false := by
  have hmem := List.mem_of_mem_dropLast hc
  rw [isBlank, Bool.or_eq_false_iff, Bool.or_eq_false_iff, beq_eq_false_iff_ne,
    beq_eq_false_iff_ne, beq_eq_false_iff_ne]
  refine ⟨⟨?_, ?_⟩, ?_⟩ <;> rintro rfl <;>
    exact notMem_entries (by decide) (by decide) q ls hmem

/-- The script sets it as it is. -/
theorem qosSh_limitList (qosEnable : List Char) (q : TqQosCtl) (ls : List DhcpLease) :
    qosSh qosEnable (limitList q ls) = ⟨qosEnable, limitList q ls⟩ := by
  rw [qosSh, unquoted_of_word fun c => isBlank_of_mem_limitList]

/-- **The list of a usable lease file**, and the value that is returned beside it. -/
theorem ipQosListOf_usable (hpos : 0 < totalLength q ls) (hlt : totalLength q ls < sizeBase) :
    cstr (ipQosListOf q (some ls)).1 = limitList q ls ∧
      (ipQosListOf q (some ls)).2 = totalLength q ls := by
  have hlen : (List.replicate sizeBase '\x00').length = sizeBase := List.length_replicate
  obtain ⟨rest, hval⟩ := acquireIpQosList_text hlen hpos hlt
  have hnul : ∀ c ∈ limitList q ls, decide (c ≠ '\x00') = true := by
    intro c hc
    refine decide_eq_true fun heq => ?_
    exact nul_notMem_limitList q ls (heq ▸ hc)
  rw [ipQosListOf, hval, cstr, List.takeWhile_append_of_pos hnul,
    List.takeWhile_cons_of_neg (by simp), List.append_nil]
  exact ⟨rfl, rfl⟩

end Text

/-! ## The handlers -/

section Handlers

variable {jc : JsonC} {s s' : Server} {e : Event} {ls : List DhcpLease} {now : ℕ} {a b : List Char}

theorem length_limitList (q : TqQosCtl) (ls : List DhcpLease) :
    (limitList q ls).length = totalLength q ls - 1 := by
  rw [limitList, List.length_dropLast, length_entries]

/-- Comparing two strings over more characters than the second one has compares all of them. -/
theorem strncmpEq_iff {n : ℕ} (ha : '\x00' ∉ a) (hb : '\x00' ∉ b) (hn : b.length < n) :
    strncmpEq a b n = true ↔ a = b := by
  rw [strncmpEq, beq_iff_eq, List.take_of_length_le (l := b ++ ['\x00']) (by simp; omega)]
  constructor
  · intro h
    -- both are cut at their first NUL
    have hcut : ∀ c ∈ a, decide (c ≠ '\x00') = true := fun c hc =>
      decide_eq_true fun heq => ha (heq ▸ hc)
    have hcut' : ∀ c ∈ b, decide (c ≠ '\x00') = true := fun c hc =>
      decide_eq_true fun heq => hb (heq ▸ hc)
    have hprefix : b ++ ['\x00'] <+: a ++ ['\x00'] := h ▸ List.take_prefix _ _
    obtain ⟨rest, hrest⟩ := hprefix
    have hcstr := congrArg cstr hrest
    rw [cstr, cstr, List.append_assoc, List.takeWhile_append_of_pos hcut',
      List.takeWhile_append_of_pos hcut] at hcstr
    simpa using hcstr.symm
  · rintro rfl
    exact List.take_of_length_le (by simp; omega)

/-- The clients are counted down and some are left, and a session is on. -/
def GoesOn (q : TqQosCtl) : Prop :=
  0 < (updateQosInfo q).cliCnt ∧ 0 < (updateQosInfo q).qosTmMax ∧ q.enable = true

instance (q : TqQosCtl) : Decidable (GoesOn q) := inferInstanceAs (Decidable (_ ∧ _ ∧ _))

/-- **The start of the override**, with a usable list. -/
theorem startQos_usable (hpos : 0 < totalLength s.tqQos ls)
    (hlt : totalLength s.tqQos ls < sizeBase) :
    startQos (some ls) s = { s with
      tqQos := { s.tqQos with ipList := limitList s.tqQos ls }
      nvram := ⟨['2'], limitList s.tqQos ls⟩ } := by
  obtain ⟨hlist, hlen⟩ := ipQosListOf_usable hpos hlt
  have hshort : (limitList s.tqQos ls).length < totalLength s.tqQos ls := by
    rw [length_limitList]
    omega
  rw [startQos]
  dsimp only
  rw [if_neg ((usable_iff _ _).mpr ⟨ls, rfl, hpos, hlt⟩), hlist, hlen, Int.toNat_natCast, strncpy,
    if_pos hshort, qosSh_limitList]

/-- **A tick that sets its timer again** leaves nvram alone if the list is the one it knows. -/
theorem qosTmHandler_rearms (hpos : 0 < totalLength (updateQosInfo s.tqQos) ls)
    (hlt : totalLength (updateQosInfo s.tqQos) ls < sizeBase) (hgo : GoesOn s.tqQos)
    (hnul : '\x00' ∉ s.tqQos.ipList) :
    qosTmHandler (some ls) now s =
      tqTimerNew { s with
        tqQos := { updateQosInfo s.tqQos with ipList := limitList (updateQosInfo s.tqQos) ls }
        nvram := if s.tqQos.ipList = limitList (updateQosInfo s.tqQos) ls then s.nvram
          else ⟨['2'], limitList (updateQosInfo s.tqQos) ls⟩ } .qosTmHandler timeQos now := by
  obtain ⟨hlist, hlen⟩ := ipQosListOf_usable hpos hlt
  have hshort : (limitList (updateQosInfo s.tqQos) ls).length <
      totalLength (updateQosInfo s.tqQos) ls := by
    rw [length_limitList]
    omega
  have hstays : ¬ ((updateQosInfo s.tqQos).cliCnt ≤ 0 ∨ (updateQosInfo s.tqQos).qosTmMax ≤ 0 ∨
      (updateQosInfo s.tqQos).enable = false) := by
    rw [not_or, not_or, not_le, not_le, Bool.not_eq_false]
    exact hgo
  have hcmp : strncmpEq (updateQosInfo s.tqQos).ipList (limitList (updateQosInfo s.tqQos) ls)
      (totalLength (updateQosInfo s.tqQos) ls) = true ↔
        s.tqQos.ipList = limitList (updateQosInfo s.tqQos) ls :=
    strncmpEq_iff hnul (nul_notMem_limitList _ _) hshort
  rw [qosTmHandler]
  dsimp only
  rw [if_neg ((usable_iff _ _).mpr ⟨ls, rfl, hpos, hlt⟩), if_neg hstays, hlist, hlen,
    Int.toNat_natCast]
  by_cases hsame : s.tqQos.ipList = limitList (updateQosInfo s.tqQos) ls
  · rw [if_pos (hcmp.mpr hsame), if_pos hsame, if_pos ⟨hgo.2.2, hgo.1⟩]
    simp only [strncpy, if_pos hshort]
  · rw [if_neg fun h => hsame (hcmp.mp h), if_neg hsame, if_pos ⟨hgo.2.2, hgo.1⟩]
    simp only [strncpy, if_pos hshort, qosSh_limitList]

/-- **A tick that ends the session.** -/
theorem qosTmHandler_restores {leases : LeaseFile} (hus : Usable (updateQosInfo s.tqQos) leases)
    (hgo : ¬ GoesOn s.tqQos) :
    qosTmHandler leases now s = restoreQos { s with tqQos := updateQosInfo s.tqQos } := by
  have hends : (updateQosInfo s.tqQos).cliCnt ≤ 0 ∨ (updateQosInfo s.tqQos).qosTmMax ≤ 0 ∨
      (updateQosInfo s.tqQos).enable = false := by
    by_contra hnot
    rw [not_or, not_or, not_le, not_le, Bool.not_eq_false] at hnot
    exact hgo hnot
  rw [qosTmHandler]
  dsimp only
  rw [if_neg ((usable_iff _ _).mpr hus), if_pos hends]

/-- **A tick without a usable list.** -/
theorem qosTmHandler_fails {leases : LeaseFile} (hus : ¬ Usable (updateQosInfo s.tqQos) leases) :
    qosTmHandler leases now s = { s with tqQos := updateQosInfo s.tqQos } := by
  rw [qosTmHandler]
  exact if_pos (not_not.mp fun h => hus ((usable_iff _ _).mp h))

end Handlers

/-! ## What an event does -/

/-- What an event is to the override. -/
inductive QosEvent
  /-- A request that opens no session, a reading of the clock or a sample. -/
  | other
  /-- A session is opened. -/
  | opens
  /-- `start_qos` has no usable list. -/
  | skips
  /-- `start_qos` writes the list. -/
  | starts
  /-- A tick without a usable list. -/
  | fails
  /-- A tick that ends the session. -/
  | restores
  /-- A tick that sets its timer again. -/
  | rearms
deriving DecidableEq, Repr

/-- What an event is to the override. -/
def qosEvent (s : Server) (e : Event) : QosEvent :=
  match e with
  | .request _ _ _ _ => if opensSession s e then .opens else .other
  | .tick _ => .other
  | .expire env =>
    match takeDue s with
    | some (.startQos, _) => if Usable s.tqQos env.leases then .starts else .skips
    | some (.qosTmHandler, _) =>
      if Usable (updateQosInfo s.tqQos) env.leases then
        if GoesOn s.tqQos then .rearms else .restores
      else .fails
    | _ => .other

/-- The list a tick gets from `acquire_ip_qos_list`. -/
def tickList (s : Server) : Event → List Char
  | .expire env => cstr (ipQosListOf (updateQosInfo s.tqQos) env.leases).1
  | _ => []

/-- The leases a tick meets give the list that was copied. -/
def listUnchanged (s : Server) : Event → Bool
  | .expire env =>
    decide (env.leases.map (limitList (updateQosInfo s.tqQos)) = some s.tqQos.ipList)
  | _ => false

/-- What an event does to the session and to the copy of the list, by what it is. -/
inductive OverrideStep (s : Server) (e : Event) (s' : Server) : Prop
  | other (hk : qosEvent s e = .other) (b : Bool) (hb : b = true → s.session.enable = true)
      (hu : s'.session = { s.session with enable := b }) (hl : s'.tqQos.ipList = s.tqQos.ipList)
  | opens (hk : qosEvent s e = .opens) (t₁ t₂ : ℕ) (hlt : t₁ < t₂)
      (hu : s'.session = s.session.opened t₁ t₂) (hl : s'.tqQos.ipList = s.tqQos.ipList)
  | skips (hk : qosEvent s e = .skips) (k : ℕ) (q : DeadlineQueue Handler)
      (hq : s.session.queue.items = ⟨k, .startQos⟩ :: q.items)
      (hu : s'.session = { s.session with queue := q }) (hl : s'.tqQos.ipList = s.tqQos.ipList)
  | starts (hk : qosEvent s e = .starts) (k : ℕ) (q : DeadlineQueue Handler)
      (hq : s.session.queue.items = ⟨k, .startQos⟩ :: q.items) (l : List Char)
      (hnul : '\x00' ∉ l) (hu : s'.session = { s.session with queue := q, nvram := ⟨['2'], l⟩ })
      (hl : s'.tqQos.ipList = l)
  | fails (hk : qosEvent s e = .fails) (k : ℕ) (q : DeadlineQueue Handler)
      (hq : s.session.queue.items = ⟨k, .qosTmHandler⟩ :: q.items)
      (hu : s'.session = { s.session with queue := q }) (hl : s'.tqQos.ipList = s.tqQos.ipList)
  | restores (hk : qosEvent s e = .restores) (k : ℕ) (q : DeadlineQueue Handler)
      (hq : s.session.queue.items = ⟨k, .qosTmHandler⟩ :: q.items)
      (hu : s'.session = { s.session with
        queue := q, enable := false, nvram := restoredOf s.session.saved })
      (hl : s'.tqQos.ipList = s.tqQos.ipList)
  | rearms (hk : qosEvent s e = .rearms) (he : s.session.enable = true) (k k' : ℕ)
      (q : DeadlineQueue Handler) (hq : s.session.queue.items = ⟨k, .qosTmHandler⟩ :: q.items)
      (hnul : '\x00' ∉ tickList s e)
      (hsame : listUnchanged s e = true ↔ s.tqQos.ipList = tickList s e)
      (hu : s'.session = { s.session with
        queue := q.add ⟨k', .qosTmHandler⟩
        nvram := if s.tqQos.ipList = tickList s e then s.nvram else ⟨['2'], tickList s e⟩ })
      (hl : s'.tqQos.ipList = tickList s e)

section Steps

variable {jc : JsonC} {s s' v : Server} {e : Event} {env : Env} {q : DeadlineQueue Handler} {k : ℕ}

/-- A tick can always run. -/
theorem exists_step_of_rearms (jc : JsonC) (hk : qosEvent s e = .rearms) :
    ∃ s', step jc s e = some s' := by
  cases e with
  | request =>
    rw [qosEvent] at hk
    split at hk <;> cases hk
  | tick => cases hk
  | expire env =>
    rw [qosEvent] at hk
    split at hk
    · split at hk <;> cases hk
    · rename_i v htake
      exact ⟨qosTmHandler env.leases env.now v, by rw [step, htake]; rfl⟩
    · cases hk

theorem overrideStep_request {msgType : UInt16} {cip : UInt32} {js : Option Json} {env : Env}
    (h : step jc s (.request msgType cip js env) = some s') :
    OverrideStep s (.request msgType cip js env) s' := by
  rcases step_request h with ⟨ho, -, hq, hs⟩ | ⟨ho, -, q, rfl⟩ | ⟨ho, -, he, q, rfl⟩ |
    ⟨ho, -, hq, hs⟩
  · exact .other (if_neg (by simp [ho])) _ id hs (by rw [hq])
  · exact .other (if_neg (by simp [ho])) _ id rfl rfl
  · have hlt : env.now + 5 < env.now + env.later + timeQos := by rw [timeQos]; omega
    refine .opens (if_pos ho) _ _ hlt (session_startSession _) ?_
    rw [startSession, tqQos_tqTimerNew, tqQos_tqTimerNew]
    rfl
  · refine .other (if_neg (by simp [ho])) _ enable_stopQos hs ?_
    rw [hq, stopQos]
    split <;> rfl

/-- The start of the override, by what it finds. -/
theorem overrideStep_startQos (htake : takeDue s = some (.startQos, v))
    (hq : s.session.queue.items = ⟨k, .startQos⟩ :: q.items)
    (hu : v.session = { s.session with queue := q }) (htq : v.tqQos = s.tqQos) :
    OverrideStep s (.expire env) (startQos env.leases v) := by
  have hkind : qosEvent s (.expire env) =
      if Usable s.tqQos env.leases then .starts else .skips := by
    rw [qosEvent, htake]
  by_cases hus : Usable s.tqQos env.leases
  · rw [if_pos hus] at hkind
    obtain ⟨ls, hls, hpos, hlt⟩ := hus
    rw [← htq] at hpos hlt
    rw [hls, startQos_usable hpos hlt]
    refine .starts hkind k q hq _ (nul_notMem_limitList v.tqQos ls) ?_ rfl
    exact congrArg (fun u : Session => { u with nvram := ⟨['2'], limitList v.tqQos ls⟩ }) hu
  · rw [if_neg hus] at hkind
    have hsame : startQos env.leases v = v := by
      rw [startQos, htq]
      exact if_pos (not_not.mp fun h => hus ((usable_iff _ _).mp h))
    rw [hsame]
    exact .skips hkind k q hq hu (by rw [htq])

/-- A tick, by what it finds and by whether the session goes on. -/
theorem overrideStep_qosTmHandler (htake : takeDue s = some (.qosTmHandler, v))
    (hq : s.session.queue.items = ⟨k, .qosTmHandler⟩ :: q.items)
    (hu : v.session = { s.session with queue := q }) (htq : v.tqQos = s.tqQos)
    (hnul : '\x00' ∉ s.tqQos.ipList) :
    OverrideStep s (.expire env) (qosTmHandler env.leases env.now v) := by
  have hkind : qosEvent s (.expire env) =
      if Usable (updateQosInfo s.tqQos) env.leases then
        if GoesOn s.tqQos then .rearms else .restores
      else .fails := by
    rw [qosEvent, htake]
  have hnv : v.nvram = s.nvram := congrArg Session.nvram hu
  by_cases hus : Usable (updateQosInfo s.tqQos) env.leases
  · rw [if_pos hus] at hkind
    by_cases hgo : GoesOn s.tqQos
    · rw [if_pos hgo] at hkind
      obtain ⟨ls, hls, hpos, hlt⟩ := hus
      have hlist : tickList s (.expire env) = limitList (updateQosInfo s.tqQos) ls := by
        rw [tickList, hls]
        exact (ipQosListOf_usable hpos hlt).1
      have hsame : listUnchanged s (.expire env) = true ↔
          s.tqQos.ipList = tickList s (.expire env) := by
        rw [listUnchanged, hlist, hls, Option.map_some, decide_eq_true_iff, Option.some_inj]
        exact eq_comm
      have hno : '\x00' ∉ tickList s (.expire env) := by
        rw [hlist]
        exact nul_notMem_limitList _ _
      rw [hls, qosTmHandler_rearms (by rw [htq]; exact hpos) (by rw [htq]; exact hlt)
        (by rw [htq]; exact hgo) (by rw [htq]; exact hnul)]
      refine .rearms hkind hgo.2.2 k (env.now + timeQos) q hq hno hsame ?_ ?_
      · rw [session_tqTimerNew rfl (by decide), hlist, ← hnv, ← htq]
        exact congrArg (fun u : Session =>
          { u with
            queue := u.queue.add ⟨env.now + timeQos, .qosTmHandler⟩
            nvram := if v.tqQos.ipList = limitList (updateQosInfo v.tqQos) ls then v.nvram
              else ⟨['2'], limitList (updateQosInfo v.tqQos) ls⟩ }) hu
      · rw [tqQos_tqTimerNew, hlist, ← htq]
    · rw [if_neg hgo] at hkind
      rw [qosTmHandler_restores (by rw [htq]; exact hus) (by rw [htq]; exact hgo)]
      refine .restores hkind k q hq ?_ (by rw [← htq]; rfl)
      exact congrArg (fun u : Session =>
        { u with enable := false, nvram := restoredOf u.saved }) hu
  · rw [if_neg hus] at hkind
    rw [qosTmHandler_fails (by rw [htq]; exact hus)]
    exact .fails hkind k q hq hu (by rw [← htq]; rfl)

/-- **What any event does to the override.** -/
theorem overrideStep (hnul : '\x00' ∉ s.tqQos.ipList) (h : step jc s e = some s') :
    OverrideStep s e s' := by
  cases e with
  | tick now =>
    obtain rfl := Option.some.inj h
    exact .other rfl _ id rfl rfl
  | request msgType cip js env => exact overrideStep_request h
  | expire env =>
    obtain ⟨g, v, htake, hrun⟩ := step_expire h
    cases g with
    | diagTmHandler =>
      obtain ⟨htq, hsession⟩ := diagTmHandler_ok hrun
      obtain ⟨hsession', htq'⟩ := takeDue_diag htake
      exact .other (by rw [qosEvent, htake]) _ id (hsession.trans hsession') (by rw [htq, htq'])
    | startQos =>
      obtain ⟨k, q, hq, hu, htq⟩ := takeDue_qos htake rfl
      obtain rfl := Except.ok.inj hrun
      exact overrideStep_startQos htake hq hu htq
    | qosTmHandler =>
      obtain ⟨k, q, hq, hu, htq⟩ := takeDue_qos htake rfl
      obtain rfl := Except.ok.inj hrun
      exact overrideStep_qosTmHandler htake hq hu htq hnul

end Steps

/-! ## Runs -/

section Runs

variable {jc : JsonC} {s s' : Server} {e : Event}

/-- A tick that sets its timer again leaves its list in nvram, with the override in force, and a
copy of it. -/
def TickTruthful (jc : JsonC) (s : Server) (e : Event) : Prop :=
  qosEvent s e = .rearms →
    (step jc s e).map (fun s' => (s'.nvram, s'.tqQos.ipList)) =
      some (⟨['2'], tickList s e⟩, tickList s e)

instance (jc : JsonC) (s : Server) (e : Event) : Decidable (TickTruthful jc s e) :=
  inferInstanceAs (Decidable (_ → _))

/-- When such a tick meets leases that give the copied list, the copy is right. -/
def CopyHolds (s : Server) (e : Event) : Prop :=
  qosEvent s e = .rearms → listUnchanged s e = true → s.nvram = ⟨['2'], s.tqQos.ipList⟩

instance (s : Server) (e : Event) : Decidable (CopyHolds s e) :=
  inferInstanceAs (Decidable (_ → _))

/-- The copy never has a NUL in it. -/
theorem nul_notMem_ipList_of_step (hnul : '\x00' ∉ s.tqQos.ipList) (h : step jc s e = some s') :
    '\x00' ∉ s'.tqQos.ipList := by
  cases overrideStep hnul h with
  | other _ _ _ _ hl | opens _ _ _ _ _ hl | skips _ _ _ _ _ hl | fails _ _ _ _ _ hl
  | restores _ _ _ _ _ hl =>
    rw [hl]
    exact hnul
  | starts _ _ _ _ l hno _ hl =>
    rw [hl]
    exact hno
  | rearms _ _ _ _ _ _ hno _ _ hl =>
    rw [hl]
    exact hno

theorem nul_notMem_ipList_of_run {nv : Nvram} {es : List Event}
    (hrun : Run.run (step jc) (serverInit nv) es = some s) : '\x00' ∉ s.tqQos.ipList :=
  @Run.invariant _ _ _ (fun s => '\x00' ∉ s.tqQos.ipList) _ _ _ _ List.not_mem_nil
    (fun _ _ _ hnul (_ : True) => nul_notMem_ipList_of_step hnul) (fun _ _ _ _ _ => trivial) hrun

/-- **One tick.** -/
theorem tickTruthful_iff_copyHolds (hnul : '\x00' ∉ s.tqQos.ipList) :
    TickTruthful jc s e ↔ CopyHolds s e := by
  by_cases hk : qosEvent s e = .rearms
  · obtain ⟨s', hstep⟩ := exists_step_of_rearms jc hk
    cases overrideStep hnul hstep with
    | other hk' | opens hk' | skips hk' | starts hk' | fails hk' | restores hk' =>
      rw [hk] at hk'
      cases hk'
    | rearms _ _ k k' q hq hno hsame hu hl =>
      have hnv : s'.nvram = if s.tqQos.ipList = tickList s e then s.nvram
          else ⟨['2'], tickList s e⟩ :=
        congrArg Session.nvram hu
      rw [TickTruthful, CopyHolds, hstep, Option.map_some, hnv, hl, hsame]
      by_cases hcopy : s.tqQos.ipList = tickList s e
      · rw [if_pos hcopy]
        simp only [Option.some_inj, Prod.mk.injEq, and_true, hk, hcopy, forall_const]
      · rw [if_neg hcopy]
        simp only [hcopy, false_imp_iff, implies_true]
  · exact ⟨fun _ h => absurd h hk, fun _ h => absurd h hk⟩

/-- The state after `start_qos` has found a usable list, without the buffer the list was made in. -/
def started (ls : List DhcpLease) (s : Server) : Option Server :=
  (takeDue s).map fun r => { r.2 with
    tqQos := { s.tqQos with ipList := limitList s.tqQos ls }
    nvram := ⟨['2'], limitList s.tqQos ls⟩ }

theorem step_eq_started {env : Env} {ls : List DhcpLease}
    (hk : qosEvent s (.expire env) = .starts) (hls : env.leases = some ls) :
    step jc s (.expire env) = started ls s := by
  rw [qosEvent] at hk
  split at hk
  · rename_i v htake
    split at hk
    · rename_i hus
      rw [hls] at hus
      obtain ⟨ls', hls', hpos, hlt⟩ := hus
      obtain rfl := Option.some.inj hls'
      obtain ⟨k, q, -, -, htq⟩ := takeDue_qos htake rfl
      have hrun : step jc s (.expire env) = some (startQos env.leases v) := by rw [step, htake]; rfl
      rw [hrun, hls, startQos_usable (by rw [htq]; exact hpos) (by rw [htq]; exact hlt), started,
        htake, Option.map_some, htq]
    · cases hk
  · split at hk
    · split at hk <;> cases hk
    · cases hk
  · cases hk

/-- A run with a start in it. -/
theorem run_started {es fs : List Event} {env : Env} {ls : List DhcpLease}
    (hk : (Run.run (step jc) s es).map (fun u => qosEvent u (.expire env)) = some .starts)
    (hls : env.leases = some ls) :
    Run.run (step jc) s (es ++ .expire env :: fs) =
      ((Run.run (step jc) s es).bind (started ls)).bind fun u => Run.run (step jc) u fs := by
  obtain ⟨u, hu, hk⟩ := Option.map_eq_some_iff.mp hk
  rw [Run.run_append, hu, Option.bind_some, Option.bind_some, Run.run_cons,
    step_eq_started hk hls]

/-- A session is opened and its start is due. -/
def startDue : List Event := [openQosAt 0 1 20, .tick 5]

/-- The session ends, and the next one finds no lease file when it starts. -/
def startMissed : List Event :=
  [.tick 20, .expire (Env.at 20 otherLease), openQosAt 30 1 60, .tick 35,
    .expire (Env.at 35 none), .tick 50]

/-- The tick of the second session makes the list of the first, and does not write it. -/
theorem not_tickTruthful_startMissed :
    ¬ Run.Along (step .unused) (TickTruthful .unused) (serverInit ⟨['0'], []⟩)
      (startDue ++ .expire (Env.at 5 otherLease) :: startMissed ++
        [.expire (Env.at 50 otherLease)]) := by
  intro h
  obtain ⟨s, hs, hbad⟩ : ∃ s, Run.run (step .unused) (serverInit ⟨['0'], []⟩)
      (startDue ++ .expire (Env.at 5 otherLease) :: startMissed) = some s ∧
        decide (CopyHolds s (.expire (Env.at 50 otherLease))) = false := by
    rw [run_started (by decide +kernel) rfl, ← Option.map_eq_some_iff]
    decide +kernel
  exact of_decide_eq_false hbad
    ((tickTruthful_iff_copyHolds (nul_notMem_ipList_of_run hs)).mp (h _ _ List.prefix_rfl s hs))

/-! ## Fresh starts -/

/-- Every start of the override finds a list, and a session is opened while no QoS timer is
pending. -/
def StartsFresh (s : Server) (e : Event) : Prop :=
  qosEvent s e ≠ .skips ∧ (qosEvent s e = .opens → s.session.queue.items = [])

instance (s : Server) (e : Event) : Decidable (StartsFresh s e) :=
  inferInstanceAs (Decidable (_ ∧ _))

/-- The QoS timers of a run of fresh starts, and what is known of the copy by then. -/
inductive Fresh (s : Server) : Prop
  /-- No session is on, or its timers have run. -/
  | idle (h : s.session.queue.items = [])
  /-- A session is opened. -/
  | opened (k k' : ℕ) (h : s.session.queue.items = [⟨k, .startQos⟩, ⟨k', .qosTmHandler⟩])
  /-- It has started. -/
  | ticking (k : ℕ) (h : s.session.queue.items = [⟨k, .qosTmHandler⟩])
      (hcopy : s.session.nvram = ⟨['2'], s.tqQos.ipList⟩)

/-- A tick that runs leaves no QoS timer. -/
theorem Fresh.items_of_tick {k : ℕ} {q : DeadlineQueue Handler} (hs : Fresh s)
    (hq : s.session.queue.items = ⟨k, .qosTmHandler⟩ :: q.items) :
    q.items = [] ∧ s.session.nvram = ⟨['2'], s.tqQos.ipList⟩ := by
  cases hs with
  | idle hq' | opened k k' hq' =>
    rw [hq'] at hq
    cases hq
  | ticking k hq' hcopy =>
    rw [hq'] at hq
    exact ⟨(List.cons.inj hq).2.symm, hcopy⟩

/-- **One step.** -/
theorem Fresh.step (hs : Fresh s) (hnul : '\x00' ∉ s.tqQos.ipList) (hG : StartsFresh s e)
    (hstep : step jc s e = some s') : Fresh s' := by
  cases overrideStep hnul hstep with
  | other hk b hb hu hl =>
    cases hs with
    | idle hq => exact .idle (by rw [hu]; exact hq)
    | opened k k' hq => exact .opened k k' (by rw [hu]; exact hq)
    | ticking k hq hcopy => exact .ticking k (by rw [hu]; exact hq) (by rw [hu, hl]; exact hcopy)
  | opens hk t₁ t₂ hlt hu hl =>
    have hnil : s.session.queue = .empty := DeadlineQueue.ext (hG.2 hk)
    refine .opened t₁ t₂ ?_
    rw [hu, Session.opened, hnil, DeadlineQueue.add, DeadlineQueue.add]
    simp [Nat.not_lt.mpr hlt.le]
  | skips hk => exact absurd hk hG.1
  | starts hk k q hq l hno hu hl =>
    cases hs with
    | idle hq' | ticking k hq' =>
      rw [hq'] at hq
      cases hq
    | opened k k' hq' =>
      rw [hq'] at hq
      refine .ticking k' ?_ (by rw [hu, hl])
      rw [hu]
      exact (List.cons.inj hq).2.symm
  | fails hk k q hq hu hl => exact .idle (by rw [hu]; exact (hs.items_of_tick hq).1)
  | restores hk k q hq hu hl => exact .idle (by rw [hu]; exact (hs.items_of_tick hq).1)
  | rearms hk he k k' q hq hno hsame hu hl =>
    obtain ⟨hnil, hcopy⟩ := hs.items_of_tick hq
    have hempty : q = .empty := DeadlineQueue.ext hnil
    refine .ticking k' (by rw [hu, hempty]; rfl) ?_
    rw [hu, hl]
    by_cases heq : s.tqQos.ipList = tickList s e
    · rw [← heq, if_pos rfl]
      exact hcopy
    · exact if_neg heq

/-- **Fresh starts are enough.** -/
theorem tickTruthful_of_fresh (nv : Nvram) {es : List Event}
    (hG : Run.Along (step jc) StartsFresh (serverInit nv) es) :
    Run.Along (step jc) (TickTruthful jc) (serverInit nv) es := by
  intro p e hp s hrun
  obtain ⟨hfresh, hnul⟩ := @Run.invariant _ _ _ (fun s => Fresh s ∧ '\x00' ∉ s.tqQos.ipList) _ _ _ _
    ⟨.idle rfl, List.not_mem_nil⟩
    (fun s e s' hs hG hstep => ⟨hs.1.step hs.2 hG hstep, nul_notMem_ipList_of_step hs.2 hstep⟩)
    (hG.of_prefix ((List.prefix_append p [e]).trans hp)) hrun
  rw [tickTruthful_iff_copyHolds hnul]
  intro hk _
  obtain ⟨s', hstep⟩ := exists_step_of_rearms jc hk
  cases overrideStep hnul hstep with
  | other hk' | opens hk' | skips hk' | starts hk' | fails hk' | restores hk' =>
    rw [hk] at hk'
    cases hk'
  | rearms _ _ k k' q hq => exact (hfresh.items_of_tick hq).2

/-- **The list is in nvram after every tick of a run that sets its timer again**, exactly if the
copy is right whenever such a tick meets leases that give the copied list; and it is when every
`start_qos` of the run finds a usable list and sessions are opened while no QoS timer is pending. -/
theorem tickTruthful_iff (jc : JsonC) (nv : Nvram) (es : List Event) :
    (Run.Along (step jc) (TickTruthful jc) (serverInit nv) es ↔
        Run.Along (step jc) CopyHolds (serverInit nv) es) ∧
      (Run.Along (step jc) StartsFresh (serverInit nv) es →
        Run.Along (step jc) (TickTruthful jc) (serverInit nv) es) := by
  have h₀ : '\x00' ∉ (serverInit nv).tqQos.ipList := List.not_mem_nil
  refine ⟨?_, tickTruthful_of_fresh nv⟩
  exact @Run.along_congr _ _ _ (fun s => '\x00' ∉ s.tqQos.ipList) _ _ _ _ h₀
    (fun _ _ _ => nul_notMem_ipList_of_step) fun _ _ => tickTruthful_iff_copyHolds

/-- A session after another one, each with its own start. -/
example : Run.Along (step .unused) StartsFresh (serverInit ⟨['0'], []⟩)
    (wholeSession ++ [openQosAt 30 1 60, .tick 35, .expire (Env.at 35 otherLease), .tick 50,
      .expire (Env.at 50 otherLease)]) := by
  decide +kernel

end Runs

end Tqos
