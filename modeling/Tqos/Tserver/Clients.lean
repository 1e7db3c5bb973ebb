import Mathlib.Data.List.Dedup
import Tqos.Lib.Run
import Tqos.Tserver.State

/-!
# The table of QoS clients

Three functions write the table `qos_cli`: `record_new_client` when a client asks for QoS,
`update_qos_info` at every tick, and the loop of `tq_req_stop_speed` when a client stops. A slot is
freed in two ways. Expiry keeps the text of the address; stopping clears it.

## Where a client is put

The search of `record_new_client` stops at the first slot that is free *or* already the client's,
whichever comes first. A client whose slot stands behind a free one is therefore put into the free
one as well, and then sits in two slots.

## Main results

* `slotFor_eq_some` — where the search stops
* `recordNewClient_apply` — what the whole function does to each slot
* `uniqueIps_iff_along` — when no client ever sits in two slots
-/

namespace Tqos

variable {cip : List Char} {times : ℤ} {tab : Fin cliMax → QosCli} {i j : Fin cliMax}

/-! ## `record_new_client` -/

/-- The `while` loop of `record_new_client`: the slot where the search stops, if it is in the
table. -/
def slotFor (cip : List Char) (tab : Fin cliMax → QosCli) : Option (Fin cliMax) :=
  Fin.find? fun i => !((tab i).en && decide (cip ≠ (tab i).ip))

/-- `record_new_client`. -/
def recordNewClient (cip : List Char) (times : ℤ) (tab : Fin cliMax → QosCli) :
    Fin cliMax → QosCli :=
  let tab := fun i => if cip = (tab i).ip then { tab i with times := times } else tab i
  match slotFor cip tab with
  | some i => Function.update tab i ⟨true, cip, times⟩
  | none => tab

theorem slotFor_eq_some :
    slotFor cip tab = some i ↔
      ((tab i).en = true → cip = (tab i).ip) ∧
        ∀ j < i, (tab j).en = true ∧ cip ≠ (tab j).ip := by
  rw [slotFor, Fin.find?_eq_some_iff]
  refine and_congr ?_ (forall₂_congr fun j _ => ?_)
  · by_cases h : (tab i).en = true <;> simp [h]
  · by_cases h : (tab j).en = true <;> simp [h]

/-- The countdowns play no part in the search. -/
theorem slotFor_congr {tab' : Fin cliMax → QosCli} (hen : ∀ i, (tab' i).en = (tab i).en)
    (hip : ∀ i, (tab' i).ip = (tab i).ip) : slotFor cip tab' = slotFor cip tab := by
  simp only [slotFor, hen, hip]

/-- **What `record_new_client` does to each slot.** The slot found is the client's; any other slot
with its address only has the countdown set. -/
theorem recordNewClient_apply (cip : List Char) (times : ℤ) (tab : Fin cliMax → QosCli)
    (i : Fin cliMax) :
    recordNewClient cip times tab i =
      if slotFor cip tab = some i then ⟨true, cip, times⟩
      else if cip = (tab i).ip then { tab i with times := times } else tab i := by
  have hslot : slotFor cip (fun k => if cip = (tab k).ip then { tab k with times := times }
      else tab k) = slotFor cip tab := by
    refine slotFor_congr (fun k => ?_) fun k => ?_
    · by_cases h : cip = (tab k).ip <;> simp [h]
    · by_cases h : cip = (tab k).ip <;> simp [h]
  unfold recordNewClient
  dsimp only
  rw [hslot]
  cases slotFor cip tab with
  | none => simp
  | some k =>
    by_cases hk : k = i
    · subst hk
      simp
    · dsimp only
      have hne : ¬ some k = some i := by simpa using hk
      rw [Function.update_of_ne (Ne.symm hk), if_neg hne]

/-- A client's slot is not touched when another client is recorded, as long as it is enabled. -/
theorem recordNewClient_apply_of_ne (hen : (tab i).en = true) (hip : cip ≠ (tab i).ip) :
    recordNewClient cip times tab i = tab i := by
  rw [recordNewClient_apply, if_neg, if_neg hip]
  exact fun h => hip ((slotFor_eq_some.mp h).1 hen)

/-! ## `update_qos_info` -/

/-- What one turn of the loop of `update_qos_info` does to the slot. -/
def QosCli.countDown (c : QosCli) : QosCli :=
  if c.en then
    if c.times - 1 ≤ 0 then { c with en := false, times := 0 } else { c with times := c.times - 1 }
  else c

/-- What one turn of the loop of `update_qos_info` does to its counters `c` and `m`. -/
def tally (acc : ℤ × ℤ) (c : QosCli) : ℤ × ℤ :=
  if c.en then
    (if c.times - 1 ≤ 0 then acc.1 else acc.1 + 1,
      if acc.2 < c.countDown.times then c.countDown.times else acc.2)
  else acc

/-- `update_qos_info`: the loop treats every slot by itself, so the table is a map of the old one.
-/
def updateQosInfo (q : TqQosCtl) : TqQosCtl :=
  let acc := (List.finRange cliMax).foldl (fun acc i => tally acc (q.qosCli i)) (0, 0)
  { q with
    qosCli := fun i => (q.qosCli i).countDown
    qosTmMax := acc.2
    cliCnt := if 0 < acc.1 then acc.1 else 0 }

@[simp] theorem enable_updateQosInfo (q : TqQosCtl) : (updateQosInfo q).enable = q.enable := rfl

@[simp] theorem QosCli.ip_countDown (c : QosCli) : c.countDown.ip = c.ip := by
  rw [QosCli.countDown]
  split
  · split <;> rfl
  · rfl

/-- A slot that is enabled after the countdown had more than one tick left. -/
theorem QosCli.en_countDown (c : QosCli) : c.countDown.en = true ↔ c.en = true ∧ 1 < c.times := by
  rw [QosCli.countDown]
  by_cases hen : c.en = true
  · rw [if_pos hen]
    split
    · simp; omega
    · simp [hen]; omega
  · simp [hen]

theorem QosCli.countDown_of_lt {c : QosCli} (hen : c.en = true) (h : 1 < c.times) :
    c.countDown = { c with times := c.times - 1 } := by
  rw [QosCli.countDown, if_pos hen, if_neg (by omega)]

/-- The slots in use. -/
def enabled (tab : Fin cliMax → QosCli) : List (Fin cliMax) :=
  (List.finRange cliMax).filter fun i => (tab i).en

theorem mem_enabled : i ∈ enabled tab ↔ (tab i).en = true := by
  simp [enabled]

theorem fst_foldl_tally (tab : Fin cliMax → QosCli) (acc : ℤ × ℤ) (l : List (Fin cliMax)) :
    (l.foldl (fun acc i => tally acc (tab i)) acc).1 =
      acc.1 + (l.filter fun i => (tab i).countDown.en).length := by
  induction l generalizing acc with
  | nil => simp
  | cons i l ih =>
    have hfst : (tally acc (tab i)).1 = acc.1 + if (tab i).countDown.en then 1 else 0 := by
      have hen := (tab i).en_countDown
      rw [tally]
      by_cases h : (tab i).en = true
      · rw [if_pos h]
        by_cases ht : (tab i).times - 1 ≤ 0
        · have hoff : ¬ (tab i).countDown.en = true := by rw [hen]; omega
          simp [ht, hoff]
        · have hon : (tab i).countDown.en = true := hen.mpr ⟨h, by omega⟩
          simp [ht, hon]
      · have hoff : ¬ (tab i).countDown.en = true := by rw [hen]; exact fun h' => h h'.1
        rw [if_neg h, if_neg hoff, add_zero]
    rw [List.foldl_cons, ih, hfst, List.filter_cons]
    split
    · rw [List.length_cons]; push_cast; ring
    · simp

/-- **`cli_cnt` counts the slots in use** that the update leaves. -/
theorem cliCnt_updateQosInfo (q : TqQosCtl) :
    (updateQosInfo q).cliCnt = (enabled (updateQosInfo q).qosCli).length := by
  have h := fst_foldl_tally q.qosCli (0, 0) (List.finRange cliMax)
  rw [zero_add] at h
  simp only [updateQosInfo, h, enabled]
  split
  · rfl
  · omega

/-! ## Stopping -/

/-- What the loop of `tq_req_stop_speed` does to the table: the client's slots are disabled and the
text of the address is cleared. -/
def removeClient (localIp : List Char) (tab : Fin cliMax → QosCli) : Fin cliMax → QosCli :=
  fun i => if (tab i).ip = localIp then { tab i with en := false, ip := [] } else tab i

/-! ## Whether a client sits in two slots -/

/-- What happens to the table, one call after another. -/
inductive TableOp
  /-- `record_new_client`. -/
  | record (cip : UInt32) (times : ℤ)
  /-- `update_qos_info`. -/
  | update
  /-- The removal by an `END_SPEED`. -/
  | remove (cip : UInt32)
deriving DecidableEq, Repr

/-- The effect of one call. -/
def TableOp.apply (q : TqQosCtl) : TableOp → TqQosCtl
  | .record cip times => { q with qosCli := recordNewClient (inetNtoa cip) times q.qosCli }
  | .update => updateQosInfo q
  | .remove cip => { q with qosCli := removeClient (inetNtoa cip) q.qosCli }

/-- No two enabled slots carry the same address. -/
def UniqueIps (tab : Fin cliMax → QosCli) : Prop :=
  ∀ i j, (tab i).en = true → (tab j).en = true → (tab i).ip = (tab j).ip → i = j

/-- The call finds the client's own slot if it has one: no free slot stands before it. -/
def FindsOwnSlot (tab : Fin cliMax → QosCli) : TableOp → Prop
  | .record cip _ => ∀ j, (tab j).en = true → (tab j).ip = inetNtoa cip → ∀ i < j, (tab i).en = true
  | _ => True

/-- A renewal goes into the client's own slot. -/
def RenewsInPlace (tab : Fin cliMax → QosCli) : TableOp → Prop
  | .record cip _ =>
    ∀ j, (tab j).en = true → (tab j).ip = inetNtoa cip → slotFor (inetNtoa cip) tab = some j
  | _ => True

theorem FindsOwnSlot.renewsInPlace {op : TableOp} (hu : UniqueIps tab) (h : FindsOwnSlot tab op) :
    RenewsInPlace tab op := by
  cases op with
  | record cip times =>
    intro j hj hip
    refine slotFor_eq_some.mpr ⟨fun _ => hip.symm, fun i hij => ?_⟩
    have hi := h j hj hip i hij
    exact ⟨hi, fun hcip => hij.ne (hu i j hi hj (by rw [hip, ← hcip]))⟩
  | update => trivial
  | remove cip => trivial

/-- Slots that are enabled after a call, with what they carry, were so before it. -/
theorem UniqueIps.of_subset {tab' : Fin cliMax → QosCli} (h : UniqueIps tab)
    (hsub : ∀ i, (tab' i).en = true → (tab i).en = true ∧ (tab i).ip = (tab' i).ip) :
    UniqueIps tab' := by
  intro i j hi hj hij
  obtain ⟨hi', hip⟩ := hsub i hi
  obtain ⟨hj', hjp⟩ := hsub j hj
  exact h i j hi' hj' (by rw [hip, hjp, hij])

/-- Recording a client whose own slot is found, or who has none, keeps the addresses apart. -/
theorem UniqueIps.recordNewClient (h : UniqueIps tab)
    (hfind : ∀ j, (tab j).en = true → (tab j).ip = cip → ∀ i < j, (tab i).en = true) :
    UniqueIps (recordNewClient cip times tab) := by
  -- any slot but the one found is as it was, up to the countdown
  have hother : ∀ j, slotFor cip tab ≠ some j →
      (Tqos.recordNewClient cip times tab j).en = (tab j).en ∧
        (Tqos.recordNewClient cip times tab j).ip = (tab j).ip := by
    intro j hj
    rw [recordNewClient_apply, if_neg hj]
    by_cases hip : cip = (tab j).ip <;> simp [hip]
  -- the slot found is the only enabled one with the client's address
  have hown : ∀ i j, slotFor cip tab = some i → (tab j).en = true → (tab j).ip = cip → i = j := by
    intro i j hi hj hip
    obtain ⟨hstop, hbefore⟩ := slotFor_eq_some.mp hi
    rcases lt_trichotomy i j with hij | hij | hij
    · have hen := hfind j hj hip i hij
      exact h i j hen hj (by rw [hip, ← hstop hen])
    · exact hij
    · exact absurd hip.symm (hbefore j hij).2
  intro i j hi hj hij
  by_cases hsi : slotFor cip tab = some i
  · by_cases hsj : slotFor cip tab = some j
    · exact Option.some.inj (hsi.symm.trans hsj)
    · rw [recordNewClient_apply, if_pos hsi, (hother j hsj).2] at hij
      rw [(hother j hsj).1] at hj
      exact hown i j hsi hj hij.symm
  · rw [(hother i hsi).1] at hi
    rw [(hother i hsi).2] at hij
    by_cases hsj : slotFor cip tab = some j
    · rw [recordNewClient_apply cip times tab j, if_pos hsj] at hij
      exact (hown j i hsj hi hij).symm
    · rw [(hother j hsj).1] at hj
      rw [(hother j hsj).2] at hij
      exact h i j hi hj hij

/-- Recording a client behind whose slot the search stops early puts it into two slots. -/
theorem not_uniqueIps_recordNewClient (hj : (tab j).en = true) (hip : (tab j).ip = cip)
    (hij : i < j) (hi : ¬ (tab i).en = true) : ¬ UniqueIps (recordNewClient cip times tab) := by
  intro h
  obtain ⟨k, hk⟩ : ∃ k, slotFor cip tab = some k := by
    rw [← Option.isSome_iff_exists, slotFor, Fin.isSome_find?_iff]
    exact ⟨i, by simp [hi]⟩
  obtain ⟨-, hbefore⟩ := slotFor_eq_some.mp hk
  have hki : k ≤ i := not_lt.mp fun hik => hi (hbefore i hik).1
  have hkj : k ≠ j := (hki.trans_lt hij).ne
  refine hkj (h k j ?_ ?_ ?_)
  · rw [recordNewClient_apply, if_pos hk]
  · rw [recordNewClient_apply, if_neg (by rw [hk]; simpa using hkj), if_pos hip.symm]
    exact hj
  · rw [recordNewClient_apply, if_pos hk, recordNewClient_apply cip times tab j,
      if_neg (by rw [hk]; simpa using hkj), if_pos hip.symm]
    exact hip.symm

/-- `cli_cnt` counts different clients. -/
def CountsClients (q : TqQosCtl) : Prop :=
  (updateQosInfo q).cliCnt =
    (((enabled (updateQosInfo q).qosCli).map fun i => (q.qosCli i).ip).dedup.length : ℕ)

theorem UniqueIps.updateQosInfo {q : TqQosCtl} (h : UniqueIps q.qosCli) :
    UniqueIps (updateQosInfo q).qosCli :=
  h.of_subset fun i hi => ⟨((q.qosCli i).en_countDown.mp hi).1, (q.qosCli i).ip_countDown.symm⟩

theorem UniqueIps.removeClient (h : UniqueIps tab) (localIp : List Char) :
    UniqueIps (removeClient localIp tab) := by
  refine h.of_subset fun i hi => ?_
  rw [Tqos.removeClient] at hi ⊢
  by_cases hip : (tab i).ip = localIp
  · rw [if_pos hip] at hi
    cases hi
  · rw [if_neg hip] at hi ⊢
    exact ⟨hi, rfl⟩

theorem UniqueIps.countsClients {q : TqQosCtl} (h : UniqueIps q.qosCli) : CountsClients q := by
  have hnodup : ((enabled (Tqos.updateQosInfo q).qosCli).map fun i => (q.qosCli i).ip).Nodup := by
    refine List.Nodup.map_on (fun i hi j hj hij => ?_) ((List.nodup_finRange _).filter _)
    exact h i j ((q.qosCli i).en_countDown.mp (mem_enabled.mp hi)).1
      ((q.qosCli j).en_countDown.mp (mem_enabled.mp hj)).1 hij
  rw [CountsClients, List.dedup_eq_self.mpr hnodup, List.length_map, cliCnt_updateQosInfo]

/-- **No client ever sits in two slots**, `cli_cnt` counts different clients and every renewal goes
into the client's own slot, exactly in those runs in which no client is recorded while its slot
stands behind a free one. -/
theorem uniqueIps_iff_along (ops : List TableOp) :
    (Run.Visits (fun q op => some (TableOp.apply q op))
          (fun q => UniqueIps q.qosCli ∧ CountsClients q) .zero ops ∧
        Run.Along (fun q op => some (TableOp.apply q op))
          (fun q op => RenewsInPlace q.qosCli op) .zero ops) ↔
      Run.Along (fun q op => some (TableOp.apply q op))
        (fun q op => FindsOwnSlot q.qosCli op) .zero ops := by
  have hcounts : ∀ q : TqQosCtl, UniqueIps q.qosCli ∧ CountsClients q ↔ UniqueIps q.qosCli :=
    fun q => and_iff_left_of_imp UniqueIps.countsClients
  have hiff : Run.Visits (fun q op => some (TableOp.apply q op)) (fun q => UniqueIps q.qosCli)
      .zero ops ↔ Run.Along (fun q op => some (TableOp.apply q op))
        (fun q op => FindsOwnSlot q.qosCli op) .zero ops := by
    refine Run.visits_iff_along (fun i _ hi _ _ => absurd hi Bool.false_ne_true) ?_ ?_
      (Run.run_total _ _ _)
    · rintro q op _ hq hop ⟨⟩
      cases op with
      | record cip times => exact hq.recordNewClient hop
      | update => exact hq.updateQosInfo
      | remove cip => exact hq.removeClient (inetNtoa cip)
    · rintro q op _ - hop ⟨⟩
      cases op with
      | record cip times =>
        simp only [FindsOwnSlot, not_forall] at hop
        obtain ⟨j, hj, hip, i, hij, hi⟩ := hop
        exact not_uniqueIps_recordNewClient hj hip hij hi
      | update => exact absurd trivial hop
      | remove cip => exact absurd trivial hop
  simp only [hcounts]
  constructor
  · rintro ⟨hv, -⟩
    exact hiff.mp hv
  · intro hG
    have hv := hiff.mpr hG
    refine ⟨hv, fun p op hp q hq => ?_⟩
    exact (hG p op hp q hq).renewsInPlace (hv p ((List.prefix_append p [op]).trans hp) q hq)

/-- Two clients are recorded, the first one stops, and the second one asks again: it then sits in
the first slot and in its own. -/
theorem not_uniqueIps_renewal :
    ¬ UniqueIps (([.record 1 9, .record 2 9, .remove 1, .record 2 9] : List TableOp).foldl
      TableOp.apply .zero).qosCli := by
  intro h
  have h01 : (0 : Fin cliMax) = 1 :=
    h 0 1 (by decide +kernel) (by decide +kernel) (by decide +kernel)
  exact absurd h01 (by decide)

end Tqos
