import Mathlib.Data.Rat.Floor
import Tqos.Tserver.System

/-!
# The numbers of an `OPEN_QOS`

How long the client is let through and how much is left to the others, from the request to the
client table and to the list of limits.

The seconds are kept in 16 bits when they are read, and only then compared with `INT_INV`, the
number that stands for an absent field. No number of 16 bits is equal to it, so that `DEF_EXPIRE`
is never used. The limit is kept whole, and multiplied in 32 bits.

## Main results

* `ticks_eq_iff` — which seconds come to the ticks they should
* `limit_eq_iff` — which limits come to the number they should
* `openQosNumbers_iff` — a request that is handled as it should be
-/

namespace Tqos

/-! ## What is requested -/

/-- The seconds that are requested: those of `validtime`, or `DEF_EXPIRE` when it is absent. -/
def requestedSeconds (jo : Json) : Option ℤ :=
  match jsonObjectObjectGetEx jo "validtime" with
  | none => some defExpire.toNat
  | some (.int v) => if 0 ≤ v then some v else none
  | some _ => none

/-- The limit that is requested, when it is positive. -/
def requestedLimit (jo : Json) : Option ℤ :=
  match jsonObjectObjectGetEx jo "brandlimit" with
  | some (.int b) => if 0 < b then some b else none
  | _ => none

/-- As many ticks as it takes to cover the seconds. -/
def ticksFor (v : ℤ) : ℤ := ⌈(v / timeQos : ℚ)⌉

theorem ticksFor_eq (v : ℤ) : ticksFor v = -(-v / 20) := by
  have hceil := Rat.ceil_intCast_div_natCast v 20
  exact hceil

/-! ## What is made of it -/

/-- The ticks of the seconds that are left when they are cut to 16 bits. -/
theorem ticks_eq_iff {r : OpenQos} {n v : ℤ} (hr : r.validtime = UInt16.ofInt n)
    (hn : n = v ∨ 2 ^ 31 - 1 ≤ n ∧ n ≤ v) (hv : 0 ≤ v) : ticks r = ticksFor v ↔ v ≤ 65535 := by
  have hcut := cast_toNat_ofInt n
  have hticks : ticks r = (n % 65536 + 20 - 1) / 20 := by
    have hne : ¬ (r.validtime.toNat : ℤ) = intInv := by
      rw [hr, hcut, intInv]
      omega
    have hpos : 0 ≤ n % 65536 + 20 - 1 := by omega
    rw [ticks, if_neg hne, hr, hcut]
    exact Int.tdiv_eq_ediv_of_nonneg hpos
  rw [hticks, ticksFor_eq]
  omega

/-- The limit that is written for the other hosts. -/
theorem limit_eq_iff {n b : ℤ} (hb : 0 < b) (hn : n = b ∨ n = 2 ^ 31 - 1 ∧ n ≤ b) :
    limit (if n = intInv then 1 else n) = 1000 * b ↔ b ≤ 2147483 := by
  constructor
  · intro h
    by_contra hlarge
    -- a number of 32 bits is below the product
    have hlt : ∀ m, limit m < 2 ^ 31 := by
      intro m
      rw [limit]
      by_cases hm : 0 < m
      · rw [if_pos hm]
        exact Int.bmod_lt (by decide)
      · rw [if_neg hm]
        decide
    have := hlt (if n = intInv then 1 else n)
    omega
  · intro hle
    have hsame : n = b := by omega
    have hne : ¬ n = intInv := by
      rw [intInv]
      omega
    rw [if_neg hne, hsame, limit, if_pos hb, mul_comm]
    exact Int.bmod_eq_of_le_mul_two (by omega) (by omega)

/-! ## The whole request -/

/-- The ticks of the client, and of the session when it starts, are those requested. -/
def TicksAsRequested (cip : UInt32) (jo : Json) (s s' : Server) : Prop :=
  ∀ v ∈ requestedSeconds jo,
    (∀ i, (s'.tqQos.qosCli i).en = true → (s'.tqQos.qosCli i).ip = inetNtoa cip →
      (s'.tqQos.qosCli i).times = ticksFor v) ∧
    (s.tqQos.enable = false → s'.tqQos.qosTmMax = ticksFor v)

/-- The limit of the other hosts is the one requested. -/
def LimitAsRequested (jo : Json) (s' : Server) : Prop :=
  ∀ b ∈ requestedLimit jo, limit s'.tqQos.brandlimit = 1000 * b

/-- Ticks are recorded: a session starts, or the table has the client or a free place. -/
def RecordsTicks (cip : UInt32) (s : Server) : Prop :=
  s.tqQos.enable = false ∨
    ∃ i, (s.tqQos.qosCli i).en = true → (s.tqQos.qosCli i).ip = inetNtoa cip

/-- The numbers of the request go through unchanged. -/
def NumbersKept (cip : UInt32) (jo : Json) (s : Server) : Prop :=
  (RecordsTicks cip s → ∀ v ∈ requestedSeconds jo,
    jsonObjectObjectGetEx jo "validtime" = some (.int v) ∧ v ≤ 65535) ∧
  ∀ b ∈ requestedLimit jo, b ≤ 2147483

theorem intField_eq_zero {jo : Json} {name : String} (h : intField jo name = 0) :
    jsonObjectObjectGetEx jo name = some (.int 0) := by
  rw [intField] at h
  split at h
  · rename_i n hn
    rw [jsonObjectGetInt] at h
    have hzero : n = 0 := by omega
    rw [hn, hzero]
  · cases h

section Request

variable {env : Env} {cip : UInt32} {jo : Json} {s : Server} {tab : Fin cliMax → QosCli}
  {ip : List Char} {times : ℤ}

/-- Every slot with the address of the client has the ticks that were recorded. -/
theorem times_recordNewClient {i : Fin cliMax} (h : (recordNewClient ip times tab i).ip = ip) :
    (recordNewClient ip times tab i).times = times := by
  rw [recordNewClient_apply] at h ⊢
  by_cases hslot : slotFor ip tab = some i
  · rw [if_pos hslot]
  · rw [if_neg hslot] at h ⊢
    by_cases hip : ip = (tab i).ip
    · rw [if_pos hip]
    · rw [if_neg hip] at h
      exact absurd h.symm hip

/-- The client is in the table afterwards if it was before, or a place was free. -/
theorem exists_recordNewClient :
    (∃ i, (recordNewClient ip times tab i).en = true ∧ (recordNewClient ip times tab i).ip = ip) ↔
      ∃ i, (tab i).en = true → (tab i).ip = ip := by
  constructor
  · rintro ⟨i, hen, hip⟩
    rw [recordNewClient_apply] at hen hip
    by_cases hslot : slotFor ip tab = some i
    · exact ⟨i, fun h => ((slotFor_eq_some.mp hslot).1 h).symm⟩
    · rw [if_neg hslot] at hen hip
      by_cases hsame : ip = (tab i).ip
      · exact ⟨i, fun _ => hsame.symm⟩
      · rw [if_neg hsame] at hip
        exact ⟨i, fun _ => hip⟩
  · rintro ⟨i, hi⟩
    obtain ⟨k, hk⟩ : ∃ k, slotFor ip tab = some k := by
      rw [← Option.isSome_iff_exists, slotFor, Fin.isSome_find?_iff]
      refine ⟨i, ?_⟩
      by_cases hen : (tab i).en = true
      · simp [hen, hi hen]
      · simp [hen]
    refine ⟨k, ?_⟩
    rw [recordNewClient_apply, if_pos hk]
    exact ⟨rfl, rfl⟩

/-- What the handler leaves when QoS is asked for. -/
theorem tqReqStartQos_some (hqos : jsonObjectObjectGetEx jo "brandqos" ≠ some (.int 0)) :
    ∃ r s' reply, tqReqStartQos env cip (some jo) s = .ok (s', reply) ∧
      r.validtime = UInt16.ofInt (intField jo "validtime") ∧
      s'.tqQos.qosCli = recordNewClient (inetNtoa cip) (ticks r) s.tqQos.qosCli ∧
      s'.tqQos.brandlimit =
        (if intField jo "brandlimit" = intInv then 1 else intField jo "brandlimit") ∧
      (s.tqQos.enable = false → s'.tqQos.qosTmMax = ticks r) := by
  have hne : ¬ intField jo "brandqos" = 0 := fun h => hqos (intField_eq_zero h)
  rw [tqReqStartQos, readOpenQos_some]
  refine ⟨⟨UInt16.ofInt (intField jo "validtime"), intField jo "brandqos",
    intField jo "brandlimit"⟩, ?_⟩
  show ∃ s' reply, (if intField jo "brandqos" = 0 then _ else _) = Except.ok (s', reply) ∧ _
  rw [if_neg hne]
  dsimp only
  by_cases hen : s.tqQos.enable = true
  · rw [if_pos hen]
    exact ⟨_, _, rfl, rfl, rfl, rfl, fun h => absurd hen (by simp [h])⟩
  · rw [if_neg hen]
    refine ⟨_, _, rfl, rfl, ?_⟩
    rw [startSession, tqQos_tqTimerNew, tqQos_tqTimerNew]
    exact ⟨rfl, rfl, fun _ => rfl⟩

/-- What is read of the seconds that are requested. -/
theorem validtime_of_requested {v : ℤ} (hv : v ∈ requestedSeconds jo) :
    jsonObjectObjectGetEx jo "validtime" = none ∧ v = 7200 ∧ intField jo "validtime" = intInv ∨
      jsonObjectObjectGetEx jo "validtime" = some (.int v) ∧ 0 ≤ v ∧
        (intField jo "validtime" = v ∨
          2 ^ 31 - 1 ≤ intField jo "validtime" ∧ intField jo "validtime" ≤ v) := by
  rw [requestedSeconds] at hv
  split at hv
  · rename_i hnone
    exact Or.inl ⟨hnone, (Option.mem_some.mp hv).symm, intField_of_none hnone⟩
  · rename_i n hn
    split at hv
    · rename_i hpos
      obtain rfl := Option.mem_some.mp hv
      refine Or.inr ⟨hn, hpos, ?_⟩
      rw [intField_of_int hn, jsonObjectGetInt]
      omega
    · cases hv
  · cases hv

/-- What is read of the limit that is requested. -/
theorem brandlimit_of_requested {b : ℤ} (hb : b ∈ requestedLimit jo) :
    0 < b ∧ (intField jo "brandlimit" = b ∨
      intField jo "brandlimit" = 2 ^ 31 - 1 ∧ intField jo "brandlimit" ≤ b) := by
  rw [requestedLimit] at hb
  split at hb
  · rename_i n hn
    split at hb
    · rename_i hpos
      obtain rfl := Option.mem_some.mp hb
      refine ⟨hpos, ?_⟩
      rw [intField_of_int hn, jsonObjectGetInt]
      omega
    · cases hb
  · cases hb

/-- The ticks that are recorded are right for the seconds that survive 16 bits. -/
theorem ticks_of_requested {r : OpenQos} {v : ℤ}
    (hr : r.validtime = UInt16.ofInt (intField jo "validtime")) (hv : v ∈ requestedSeconds jo) :
    ticks r = ticksFor v ↔
      jsonObjectObjectGetEx jo "validtime" = some (.int v) ∧ v ≤ 65535 := by
  obtain ⟨hnone, rfl, hinv⟩ | ⟨hsome, hpos, hn⟩ := validtime_of_requested hv
  · -- an absent field is 65535 seconds
    rw [hinv] at hr
    have hticks : ticks r ≠ ticksFor 7200 := by
      rw [ticksFor_eq, ticks, hr]
      decide
    rw [hnone]
    exact iff_of_false hticks fun h => nomatch h.1
  · rw [and_iff_right hsome]
    exact ticks_eq_iff hr hn hpos

/-- **The numbers of a request are those that were asked for**, exactly if they fit: the seconds
are given and fit into 16 bits, if they are recorded at all, and a thousand times the limit fits
into 32. -/
theorem openQosNumbers_iff (env : Env) (cip : UInt32) (fields : List (List Char × Json))
    (s : Server) (hqos : jsonObjectObjectGetEx (.object fields) "brandqos" ≠ some (.int 0)) :
    ∃ s' reply, tqReqStartQos env cip (some (.object fields)) s = .ok (s', reply) ∧
      (TicksAsRequested cip (.object fields) s s' ∧ LimitAsRequested (.object fields) s' ↔
        NumbersKept cip (.object fields) s) := by
  obtain ⟨r, s', reply, hok, hr, hcli, hlimit, hmax⟩ := tqReqStartQos_some hqos
  refine ⟨s', reply, hok, and_congr ?_ (forall₂_congr fun b hb => ?_)⟩
  · constructor
    · rintro h hrec v hv
      rw [← ticks_of_requested hr hv]
      obtain hoff | hplace := hrec
      · exact (hmax hoff).symm.trans ((h v hv).2 hoff)
      · obtain ⟨i, hen, hip⟩ := exists_recordNewClient.mpr hplace
        have htimes := (h v hv).1 i (by rw [hcli]; exact hen) (by rw [hcli]; exact hip)
        rw [hcli] at htimes
        exact (times_recordNewClient hip).symm.trans htimes
    · intro h v hv
      refine ⟨fun i hen hip => ?_, fun hoff => ?_⟩
      · rw [hcli] at hen hip ⊢
        have hrec : RecordsTicks cip s := Or.inr (exists_recordNewClient.mp ⟨i, hen, hip⟩)
        rw [times_recordNewClient hip]
        exact (ticks_of_requested hr hv).mpr (h hrec v hv)
      · rw [hmax hoff]
        exact (ticks_of_requested hr hv).mpr (h (Or.inl hoff) v hv)
  · obtain ⟨hpos, hn⟩ := brandlimit_of_requested hb
    rw [hlimit]
    exact limit_eq_iff hpos hn

/-- A request without `validtime` is let through for 65535 seconds. -/
theorem not_ticksAsRequested_absent :
    ¬ ∃ s' reply, tqReqStartQos (.at 0 none) 1 (some (.obj [("brandqos", .int 1)]))
        (serverInit ⟨['0'], []⟩) = .ok (s', reply) ∧
      TicksAsRequested 1 (.obj [("brandqos", .int 1)]) (serverInit ⟨['0'], []⟩) s' := by
  rintro ⟨s', reply, hok, h⟩
  have hmax := (h 7200 (by decide)).2 rfl
  obtain rfl : _ = s' := congrArg Prod.fst (Except.ok.inj hok)
  rw [ticksFor_eq] at hmax
  exact absurd hmax (by decide)

/-- A minute, with a limit of 2. -/
theorem openQosNumbers_minute :
    jsonObjectObjectGetEx (.obj [("validtime", .int 60), ("brandlimit", .int 2)]) "brandqos" ≠
        some (.int 0) ∧
      ∃ s' reply, tqReqStartQos (.at 0 none) 1
          (some (.obj [("validtime", .int 60), ("brandlimit", .int 2)])) (serverInit ⟨['0'], []⟩) =
            .ok (s', reply) ∧ limit s'.tqQos.brandlimit = 2000 := by
  have hqos : jsonObjectObjectGetEx (.obj [("validtime", .int 60), ("brandlimit", .int 2)])
      "brandqos" ≠ some (.int 0) := nofun
  obtain ⟨s', reply, hok, hiff⟩ := openQosNumbers_iff (.at 0 none) 1 _ (serverInit ⟨['0'], []⟩) hqos
  refine ⟨hqos, s', reply, hok, (hiff.mpr ⟨fun _ v hv => ?_, fun b hb => ?_⟩).2 2 rfl⟩
  · obtain rfl : (60 : ℤ) = v := Option.mem_some.mp hv
    exact ⟨rfl, by decide⟩
  · obtain rfl : (2 : ℤ) = b := Option.mem_some.mp hb
    decide

end Request

end Tqos
