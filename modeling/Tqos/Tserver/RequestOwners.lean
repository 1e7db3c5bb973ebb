import Mathlib.Tactic.Abel
import Tqos.Tserver.DiagOwners
import Tqos.Tserver.Requests

/-!
# The objects of a request

The handlers once more, with the objects of json-c: which objects are made on the way, which of them
go into which container, and who drops what. What a handler returns is taken from the handler of the
values, so a run here ends well only if that one does; it can also end because an object is used or
dropped that is gone.

Objects there are before a request stay. What they are is not said: they may be those that earlier
requests have left.

## Main results

* `serve_of_serveObjects`, `exists_serveObjects` — when a run with objects ends well
* `releases_iff` — when the objects after a request are those from before
* `effect_run` — what is left after any number of requests
-/

namespace Tqos

open Owners

/-! ## The functions -/

/-- The objects there are: none of them is missing an owner. -/
structure Objects where
  store : Store
  wellFormed : WellFormed store
  owned : ∀ y, 0 ≤ spare store y

/-- If `json_object_new_object` gives an object where it is checked. -/
structure Room where
  reply : Bool
  cfgFile : Bool

/-- What the handler of the values returns. -/
def returned {α : Type} (run : Except Crash α) : Except DealtFault α := run.mapError .crash

/-- The values of the fields of an object. -/
def fieldValues : Json → List Json
  | .object l => l.map Prod.snd
  | _ => []

/-- `acquire_trac_data`. Both ways out of it drop the array. -/
def acquireTracDataObjects (text : List Char) (s : Store) : Except DealtFault Store := do
  let hosts ← returned (tracHosts text)
  let trac := s.length
  let s ← hosts.foldlM (addValue trac) (new s)
  jsonObjectPut s (some trac)

/-- `calc_trac_dealt`: its text, and the objects after it. -/
def calcTracDealtRun (jc : JsonC) (traffic1 traffic2 : List Char) (s : Store) :
    Except DealtFault (List Char × Store) := do
  let text ← returned (calcTracDealt jc traffic1 traffic2)
  let text2 ← returned (acquireTracData jc traffic2)
  let text1 ← returned (acquireTracData jc traffic1)
  let j2 := jc.tokenerParse text2
  let j1 := jc.tokenerParse text1
  let dealt := s.length
  let s ← acquireTracDataObjects traffic2 (new s)
  let s2 := build j2 s
  let s ← acquireTracDataObjects traffic1 s2.2
  let s1 := build j1 s
  let s ← (elements j2 s2.1 s1.2).foldlM
    (dealtTurn [s2.1, s1.1] (elements j1 s1.1 s1.2) dealt) s1.2
  let s ← jsonObjectPut s s2.1
  let s ← jsonObjectPut s s1.1
  let s ← jsonObjectPut s (some dealt)
  pure (text, s)

/-- `json_tokener_parse(calc_trac_array(…))`. -/
def parseTracArray (jc : JsonC) (tracDealt : List Char) (updown : String) (s : Store) :
    Except DealtFault (Option ℕ × Store) := do
  let text ← returned (calcTracArray jc tracDealt updown)
  let parsed := jc.tokenerParse (if tracDealt = [] then ['[', ']'] else tracDealt)
  let flows ← returned ((arrayElems parsed).mapM fun o => ipFlow o.ptr updown)
  let array := s.length
  let dealt := build parsed (new s)
  let s ← (flows.map Json.string).foldlM (addValue array) dealt.2
  let s ← jsonObjectPut s (some array)
  let s ← jsonObjectPut s dealt.1
  pure (build (jc.tokenerParse text) s)

/-- `record_qos_cfg_to_file`. -/
def recordQosCfgToFileObjects (room : Room) (qos : QosCfg) (s : Store) :
    Except DealtFault Store :=
  if room.cfgFile then do
    let js := s.length
    let s ← [Json.string (if qos.en then ['2'] else ['0']), Json.string qos.ipList].foldlM
      (addValue js) (new s)
    jsonObjectPut s (some js)
  else pure s

/-- The part of `tq_req_start_qos` that begins a session, if it gets there. -/
def startSessionObjects (room : Room) (asked : OpenQos) (enable : Bool) (qos : QosCfg) (s : Store) :
    Except DealtFault Store :=
  if asked.brandqos = 0 ∨ enable then pure s else recordQosCfgToFileObjects room qos s

/-- A handler that parses the content, and drops it and the reply in the end. Its reply is that of
`run`. -/
def replyObjects (room : Room) (js : Option Json) (run : Except Crash Json) (s : Store) :
    Except DealtFault Store :=
  if room.reply then do
    let reply ← returned run
    let response := s.length
    let request := build js (new s)
    let s ← (fieldValues reply).foldlM (addValue response) request.2
    let s ← jsonObjectPut s request.1
    jsonObjectPut s (some response)
  else pure s

/-- `tq_req_get_ver`, which parses nothing. -/
def tqReqGetVerObjects (room : Room) (env : Env) (cip : UInt32) : Store → Except DealtFault Store :=
  replyObjects room none (tqReqGetVer env cip)

/-- `tq_req_get_auth`. -/
def tqReqGetAuthObjects (room : Room) (js : Option Json) : Store → Except DealtFault Store :=
  replyObjects room js (tqReqGetAuth js)

/-- `tq_req_start_spp`. -/
def tqReqStartSppObjects (room : Room) (jc : JsonC) (env : Env) (cip : UInt32) (js : Option Json)
    (s : Server) : Store → Except DealtFault Store :=
  replyObjects room js ((tqReqStartSpp jc env cip js s).map Prod.snd)

/-- `tq_req_stop_speed`. -/
def tqReqStopSpeedObjects (room : Room) (env : Env) (cip : UInt32) (js : Option Json)
    (s : Server) : Store → Except DealtFault Store :=
  replyObjects room js ((tqReqStopSpeed env cip js s).map Prod.snd)

/-- `tq_req_stop_diag`. -/
def tqReqStopDiagObjects (room : Room) (js : Option Json) (s : Server) :
    Store → Except DealtFault Store :=
  replyObjects room js ((tqReqStopDiag js s).map Prod.snd)

/-- `tq_req_start_qos`. It does not drop the content. -/
def tqReqStartQosObjects (room : Room) (env : Env) (cip : UInt32) (js : Option Json) (s : Server)
    (st : Store) : Except DealtFault Store :=
  if room.reply then do
    let r ← returned (tqReqStartQos env cip js s)
    let asked ← returned (readOpenQos js)
    let response := st.length
    let request := build js (new st)
    let st ← startSessionObjects room asked s.tqQos.enable r.1.cfg.qos request.2
    let st ← (fieldValues r.2).foldlM (addValue response) st
    jsonObjectPut st (some response)
  else pure st

/-- `tq_req_get_diag`. Of the fields of its reply the first 14 are numbers and texts. -/
def tqReqGetDiagObjects (room : Room) (jc : JsonC) (env : Env) (js : Option Json) (s : Server)
    (st : Store) : Except DealtFault Store :=
  if room.reply then do
    let r ← returned (tqReqGetDiag jc env js s)
    let d := r.1.tqDiagnose.diagnoses
    let j : Fin sizeDiag := Fin.ofNat sizeDiag s.tqDiagnose.lastIndex
    let i := if j = 0 then 11 else j - 1
    let k := if j = 11 then 0 else j + 1
    let response := st.length
    let request := build js (new st)
    let dealt5 ← calcTracDealtRun jc (d i).traffic (d j).traffic request.2
    let down5 ← parseTracArray jc dealt5.1 "down" dealt5.2
    let up5 ← parseTracArray jc dealt5.1 "up" down5.2
    let dealt60 ← calcTracDealtRun jc (d k).traffic (d j).traffic up5.2
    let up60 ← parseTracArray jc dealt60.1 "up" dealt60.2
    let down60 ← parseTracArray jc dealt60.1 "down" up60.2
    let st ← ((fieldValues r.2).take 14).foldlM (addValue response) down60.2
    let st ← [up5.1, up60.1, down5.1, down60.1].foldlM (jsonObjectArrayAdd · response) st
    let st ← jsonObjectPut st (some response)
    jsonObjectPut st request.1
  else pure st

/-- The `switch` of `tq_request_parse`. -/
def serveObjects (room : Room) (jc : JsonC) (env : Env) (cip : UInt32) (msgType : UInt16)
    (js : Option Json) (s : Server) : Store → Except DealtFault Store :=
  match MsgType.ofCode msgType with
  | some .getVer => tqReqGetVerObjects room env cip
  | some .reqAuth | some .diagAuth => tqReqGetAuthObjects room js
  | some .openQos => tqReqStartQosObjects room env cip js s
  | some .openSpp => tqReqStartSppObjects room jc env cip js s
  | some .endSpeed => tqReqStopSpeedObjects room env cip js s
  | some .openInfo => tqReqGetDiagObjects room jc env js s
  | some .endInfo => tqReqStopDiagObjects room js s
  | none => pure

/-! ## What the functions do to the ledger

Each of them, when it ends well. -/

section Effects

variable {room : Room} {jc : JsonC} {js : Option Json} {s s' : Store} {b c : ℕ}

theorem effect_jsonObjectPut (h : WellFormed s) {x : Option ℕ} (hok : jsonObjectPut s x = .ok s')
    (b : ℕ) : Effect b s s' (-own x.toList) := by
  cases x with
  | none =>
    obtain rfl := Except.ok.inj hok
    exact (Effect.refl h b).congr neg_zero.symm
  | some x =>
    rw [jsonObjectPut] at hok
    cases hput : put s x with
    | none =>
      rw [hput] at hok
      cases hok
    | some t =>
      rw [hput] at hok
      obtain rfl := Except.ok.inj hok
      exact effect_put h hput b

theorem effect_jsonObjectArrayAdd (h : WellFormed s) (hb : b ≤ c) {x : Option ℕ}
    (hx : ∀ y, x = some y → c < y ∧ y < s.length) (hok : jsonObjectArrayAdd s c x = .ok s') :
    Effect b s s' (-own x.toList) := by
  obtain ⟨_, huse, -⟩ := bind_eq_ok.mp hok
  obtain ⟨t, hrun, -, -, heffect⟩ :=
    jsonObjectArrayAdd_spec h (live_of_use huse c List.mem_cons_self) hb hx
  obtain rfl := Except.ok.inj (hok.symm.trans hrun)
  exact heffect

theorem effect_addValue (h : WellFormed s) (hb : b ≤ c) (hc : c < s.length) {v : Json}
    (hok : addValue c s v = .ok s') : Effect b s s' 0 := by
  obtain ⟨_, huse, -⟩ := bind_eq_ok.mp hok
  have hlive := live_of_use huse c List.mem_cons_self
  rw [(build_spec h (some v)).1.count_eq c hc] at hlive
  obtain ⟨t, hrun, -, heffect⟩ := addValue_spec h hlive hb v
  obtain rfl := Except.ok.inj (hok.symm.trans hrun)
  exact heffect

/-- Values that are made for a container come out even. -/
theorem effect_addValues (h : WellFormed s) (hb : b ≤ c) (hc : c < s.length) {vs : List Json}
    (hok : vs.foldlM (addValue c) s = .ok s') : Effect b s s' 0 := by
  induction vs generalizing s with
  | nil =>
    obtain rfl := Except.ok.inj hok
    exact Effect.refl h b
  | cons v vs ih =>
    rw [List.foldlM_cons] at hok
    obtain ⟨t, hadd, hrest⟩ := bind_eq_ok.mp hok
    have heffect := effect_addValue h hb hc hadd
    exact (heffect.trans (ih heffect.wellFormed (hc.trans_le heffect.length_le) hrest)).congr
      (add_zero _)

/-- A container that is made, filled with new values and dropped. -/
theorem effect_filled (h : WellFormed s) {vs : List Json} {t : Store}
    (hfill : vs.foldlM (addValue s.length) (new s) = .ok t)
    (hput : jsonObjectPut t (some s.length) = .ok s') : Effect s.length s s' 0 := by
  have hnew := effect_new h
  have hfilled := effect_addValues hnew.wellFormed le_rfl (lt_length_new s) hfill
  have hdrop := effect_jsonObjectPut hfilled.wellFormed hput s.length
  refine ((hnew.trans hfilled).trans hdrop).congr ?_
  rw [Option.toList_some]
  abel

theorem effect_acquireTracData (h : WellFormed s) {text : List Char}
    (hok : acquireTracDataObjects text s = .ok s') : Effect s.length s s' 0 := by
  obtain ⟨hosts, -, hok⟩ := bind_eq_ok.mp hok
  obtain ⟨t, hfill, hput⟩ := bind_eq_ok.mp hok
  exact effect_filled h hfill hput

theorem effect_recordQosCfgToFile (h : WellFormed s) {qos : QosCfg}
    (hok : recordQosCfgToFileObjects room qos s = .ok s') : Effect s.length s s' 0 := by
  rw [recordQosCfgToFileObjects] at hok
  split at hok
  · obtain ⟨t, hfill, hput⟩ := bind_eq_ok.mp hok
    exact effect_filled h hfill hput
  · obtain rfl := Except.ok.inj hok
    exact Effect.refl h _

theorem effect_startSession (h : WellFormed s) {asked : OpenQos} {enable : Bool} {qos : QosCfg}
    (hok : startSessionObjects room asked enable qos s = .ok s') : Effect s.length s s' 0 := by
  rw [startSessionObjects] at hok
  split at hok
  · obtain rfl := Except.ok.inj hok
    exact Effect.refl h _
  · exact effect_recordQosCfgToFile h hok

theorem mem_handed {s1 : List Json} {o : Json × Option ℕ} {x : ℕ} (hx : x ∈ handed s1 o) :
    o.2 = some x := by
  rw [handed] at hx
  split at hx
  · exact Option.mem_toList.mp hx
  · exact absurd hx List.not_mem_nil

/-- **Two samples compared**: whatever has been handed over without an owner cannot be dropped
twice, so if the comparison returns there was no such object. -/
theorem effect_calcTracDealt (h : WellFormed s) {traffic1 traffic2 : List Char}
    {r : List Char × Store} (hok : calcTracDealtRun jc traffic1 traffic2 s = .ok r) :
    Effect s.length s r.2 0 := by
  obtain ⟨text, -, hok⟩ := bind_eq_ok.mp hok
  obtain ⟨text2, -, hok⟩ := bind_eq_ok.mp hok
  obtain ⟨text1, -, hok⟩ := bind_eq_ok.mp hok
  obtain ⟨t2, hacquire2, hok⟩ := bind_eq_ok.mp hok
  obtain ⟨t1, hacquire1, hok⟩ := bind_eq_ok.mp hok
  obtain ⟨t, hloop, hok⟩ := bind_eq_ok.mp hok
  obtain ⟨p2, hput2, hok⟩ := bind_eq_ok.mp hok
  obtain ⟨p1, hput1, hok⟩ := bind_eq_ok.mp hok
  obtain ⟨p, hput, hok⟩ := bind_eq_ok.mp hok
  obtain rfl := Except.ok.inj hok
  set j2 := jc.tokenerParse text2
  set j1 := jc.tokenerParse text1
  have hnew := effect_new h
  have hlen := lt_length_new s
  have heven2 := effect_acquireTracData hnew.wellFormed hacquire2
  have hbuilt2 := effect_build heven2.wellFormed j2
  have heven1 := effect_acquireTracData hbuilt2.wellFormed hacquire1
  have hbuilt1 := effect_build heven1.wellFormed j1
  have hle2 := hlen.trans_le heven2.length_le
  have hle1 := hle2.trans_le (hbuilt2.length_le.trans heven1.length_le)
  -- the array of the result is still there when the loop begins
  have hlive : 0 < count (build j1 t1).2 s.length := by
    rw [(build_spec heven1.wellFormed j1).1.count_eq _ hle1,
      heven1.count_eq hbuilt2.wellFormed, (build_spec heven2.wellFormed j2).1.count_eq _ hle2,
      heven2.count_eq hnew.wellFormed, count_new_self]
    exact Nat.one_pos
  have hyounger : ∀ o ∈ elements j2 (build j2 t2).1 (build j1 t1).2, ∀ x, o.2 = some x →
      s.length < x := by
    intro o ho x hx
    refine hle2.trans ((elements_spec heven2.wellFormed j2 hbuilt1.wellFormed ?_ ho).2 x hx).1
    intro y hy
    have hlt := ((build_spec heven2.wellFormed j2).2 y hy).2
    rw [hbuilt1.kids_eq y (hlt.trans_le heven1.length_le), heven1.kids_eq y hlt]
  have hturns := effect_dealtLoop hbuilt1.wellFormed le_rfl hlive hyounger hloop
  have hdrop2 := effect_jsonObjectPut hturns.wellFormed hput2 s.length
  have hdrop1 := effect_jsonObjectPut hdrop2.wellFormed hput1 s.length
  have hdrop := effect_jsonObjectPut hdrop1.wellFormed hput s.length
  have hmade := ((((hnew.trans (heven2.mono hlen.le)).trans (hbuilt2.mono hle2.le)).trans
    (heven1.mono (hle2.le.trans hbuilt2.length_le))).trans (hbuilt1.mono hle1.le)).trans hturns
  have hwhole := ((hmade.trans hdrop2).trans hdrop1).trans hdrop
  have hmissing : Effect s.length s p (-own ((elements j2 (build j2 t2).1 (build j1 t1).2).flatMap
      (handed ((elements j1 (build j1 t1).1 (build j1 t1).2).map Prod.fst)))) := by
    refine hwhole.congr ?_
    rw [Option.toList_some]
    abel
  have hnil := hmissing.eq_nil h fun x hx => by
    obtain ⟨o, ho, hmem⟩ := List.mem_flatMap.mp hx
    exact (hyounger o ho x (mem_handed hmem)).le
  rw [hnil] at hmissing
  exact hmissing.congr neg_zero

theorem effect_parseTracArray (h : WellFormed s) {tracDealt : List Char} {updown : String}
    {r : Option ℕ × Store} (hok : parseTracArray jc tracDealt updown s = .ok r) :
    Effect s.length s r.2 (own r.1.toList) ∧
      ∀ x, r.1 = some x → s.length ≤ x ∧ x < r.2.length := by
  obtain ⟨text, -, hok⟩ := bind_eq_ok.mp hok
  obtain ⟨flows, -, hok⟩ := bind_eq_ok.mp hok
  obtain ⟨t, hfill, hok⟩ := bind_eq_ok.mp hok
  obtain ⟨p, hput, hok⟩ := bind_eq_ok.mp hok
  obtain ⟨p', hput', hok⟩ := bind_eq_ok.mp hok
  obtain rfl := Except.ok.inj hok
  have hnew := effect_new h
  have hlen := lt_length_new s
  have hbuilt := effect_build hnew.wellFormed
    (jc.tokenerParse (if tracDealt = [] then ['[', ']'] else tracDealt))
  have hfilled := effect_addValues hbuilt.wellFormed le_rfl (hlen.trans_le hbuilt.length_le) hfill
  have hdrop := effect_jsonObjectPut hfilled.wellFormed hput s.length
  have hdrop' := effect_jsonObjectPut hdrop.wellFormed hput' s.length
  have hparsed := effect_build hdrop'.wellFormed (jc.tokenerParse text)
  have heven := (((hnew.trans (hbuilt.mono hlen.le)).trans hfilled).trans hdrop).trans hdrop'
  refine ⟨(heven.trans (hparsed.mono heven.length_le)).congr ?_, fun x hx => ?_⟩
  · rw [Option.toList_some]
    abel
  · obtain ⟨hle, hlt⟩ := (build_spec hdrop'.wellFormed (jc.tokenerParse text)).2 x hx
    exact ⟨heven.length_le.trans hle, hlt⟩

/-- The object of the reply and the content. -/
theorem effect_opened (h : WellFormed s) (js : Option Json) :
    Effect s.length s (build js (new s)).2 (own [s.length] + own (build js (new s)).1.toList) ∧
      s.length < (build js (new s)).2.length ∧ 0 < count (build js (new s)).2 s.length := by
  have hnew := effect_new h
  have hlen := lt_length_new s
  have hbuilt := effect_build hnew.wellFormed js
  refine ⟨hnew.trans (hbuilt.mono hlen.le), hlen.trans_le hbuilt.length_le, ?_⟩
  rw [(build_spec hnew.wellFormed js).1.count_eq _ hlen, count_new_self]
  exact Nat.one_pos

theorem effect_replyObjects (h : WellFormed s) {run : Except Crash Json}
    (hok : replyObjects room js run s = .ok s') : Effect s.length s s' 0 := by
  rw [replyObjects] at hok
  split at hok
  · obtain ⟨reply, -, hok⟩ := bind_eq_ok.mp hok
    obtain ⟨t, hfill, hok⟩ := bind_eq_ok.mp hok
    obtain ⟨p, hput, hput'⟩ := bind_eq_ok.mp hok
    obtain ⟨hopened, hlen, -⟩ := effect_opened h js
    have hfilled := effect_addValues hopened.wellFormed le_rfl hlen hfill
    have hdrop := effect_jsonObjectPut hfilled.wellFormed hput s.length
    have hdrop' := effect_jsonObjectPut hdrop.wellFormed hput' s.length
    refine (((hopened.trans hfilled).trans hdrop).trans hdrop').congr ?_
    rw [Option.toList_some]
    abel
  · obtain rfl := Except.ok.inj hok
    exact Effect.refl h _

/-- Objects that are put into a container one after another. -/
theorem effect_addAll (h : WellFormed s) (hb : b ≤ c) {xs : List (Option ℕ)}
    (hxs : ∀ x ∈ xs, ∀ y, x = some y → c < y ∧ y < s.length)
    (hok : xs.foldlM (jsonObjectArrayAdd · c) s = .ok s') :
    Effect b s s' (-own (xs.flatMap Option.toList)) := by
  induction xs generalizing s with
  | nil =>
    obtain rfl := Except.ok.inj hok
    exact (Effect.refl h b).congr neg_zero.symm
  | cons x xs ih =>
    rw [List.foldlM_cons] at hok
    obtain ⟨t, hadd, hrest⟩ := bind_eq_ok.mp hok
    have heffect := effect_jsonObjectArrayAdd h hb (hxs x List.mem_cons_self) hadd
    refine (heffect.trans (ih heffect.wellFormed (fun x' hx' y hy => ?_) hrest)).congr ?_
    · obtain ⟨hlt, hin⟩ := hxs x' (List.mem_cons_of_mem x hx') y hy
      exact ⟨hlt, hin.trans_le heffect.length_le⟩
    · rw [List.flatMap_cons, own_append, neg_add]

/-- Two samples compared, and what is parsed of that for the reply. -/
theorem effect_compared (h : WellFormed s) {traffic1 traffic2 : List Char} {updown updown' : String}
    {dealt : List Char × Store} {r r' : Option ℕ × Store}
    (hdealt : calcTracDealtRun jc traffic1 traffic2 s = .ok dealt)
    (hr : parseTracArray jc dealt.1 updown dealt.2 = .ok r)
    (hr' : parseTracArray jc dealt.1 updown' r.2 = .ok r') :
    Effect s.length s r'.2 (own r.1.toList + own r'.1.toList) ∧
      ∀ x, r.1 = some x ∨ r'.1 = some x → s.length ≤ x ∧ x < r'.2.length := by
  have heven := effect_calcTracDealt h hdealt
  obtain ⟨hmade, hin⟩ := effect_parseTracArray heven.wellFormed hr
  obtain ⟨hmade', hin'⟩ := effect_parseTracArray hmade.wellFormed hr'
  have hle := heven.length_le
  have hle' := hmade.length_le
  refine ⟨((heven.trans (hmade.mono hle)).trans (hmade'.mono (hle.trans hle'))).congr ?_,
    fun x hx => ?_⟩
  · rw [zero_add]
  · have hend := hmade'.length_le
    rcases hx with hx | hx
    · have hx' := hin x hx
      omega
    · have hx' := hin' x hx
      omega

theorem effect_tqReqGetDiag (h : WellFormed s) {env : Env} {server : Server}
    (hok : tqReqGetDiagObjects room jc env js server s = .ok s') : Effect s.length s s' 0 := by
  rw [tqReqGetDiagObjects] at hok
  split at hok
  · obtain ⟨r, -, hok⟩ := bind_eq_ok.mp hok
    obtain ⟨dealt5, hdealt5, hok⟩ := bind_eq_ok.mp hok
    obtain ⟨down5, hdown5, hok⟩ := bind_eq_ok.mp hok
    obtain ⟨up5, hup5, hok⟩ := bind_eq_ok.mp hok
    obtain ⟨dealt60, hdealt60, hok⟩ := bind_eq_ok.mp hok
    obtain ⟨up60, hup60, hok⟩ := bind_eq_ok.mp hok
    obtain ⟨down60, hdown60, hok⟩ := bind_eq_ok.mp hok
    obtain ⟨t, hfill, hok⟩ := bind_eq_ok.mp hok
    obtain ⟨t', hadd, hok⟩ := bind_eq_ok.mp hok
    obtain ⟨p, hput, hput'⟩ := bind_eq_ok.mp hok
    obtain ⟨hopened, hlen, -⟩ := effect_opened h js
    obtain ⟨hmade5, hin5⟩ := effect_compared hopened.wellFormed hdealt5 hdown5 hup5
    obtain ⟨hmade60, hin60⟩ := effect_compared hmade5.wellFormed hdealt60 hup60 hdown60
    have hle5 := hlen.trans_le hmade5.length_le
    have hle60 := hle5.trans_le hmade60.length_le
    have hfilled := effect_addValues hmade60.wellFormed le_rfl hle60 hfill
    have hadded := effect_addAll hfilled.wellFormed le_rfl (fun x hx y hy => by
      have hend := hmade60.length_le.trans hfilled.length_le
      have hend' := hfilled.length_le
      simp only [List.mem_cons, List.not_mem_nil, or_false] at hx
      rcases hx with rfl | rfl | rfl | rfl
      · have hin := hin5 y (.inr hy)
        omega
      · have hin := hin60 y (.inl hy)
        omega
      · have hin := hin5 y (.inl hy)
        omega
      · have hin := hin60 y (.inr hy)
        omega) hadd
    have hdrop := effect_jsonObjectPut hadded.wellFormed hput s.length
    have hdrop' := effect_jsonObjectPut hdrop.wellFormed hput' s.length
    have hmade := (hopened.trans (hmade5.mono hlen.le)).trans (hmade60.mono hle5.le)
    refine ((((hmade.trans hfilled).trans hadded).trans hdrop).trans hdrop').congr ?_
    simp only [List.flatMap_cons, List.flatMap_nil, own_append, own_nil, Option.toList_some]
    abel
  · obtain rfl := Except.ok.inj hok
    exact Effect.refl h _

/-- **The start of a session** leaves the content. -/
theorem effect_tqReqStartQos (h : WellFormed s) {env : Env} {cip : UInt32} {server : Server}
    (hroom : room.reply = true)
    (hok : tqReqStartQosObjects room env cip js server s = .ok s') :
    Effect s.length s s' (own (build js (new s)).1.toList) := by
  rw [tqReqStartQosObjects, if_pos hroom] at hok
  obtain ⟨r, -, hok⟩ := bind_eq_ok.mp hok
  obtain ⟨asked, -, hok⟩ := bind_eq_ok.mp hok
  obtain ⟨t, hrecord, hok⟩ := bind_eq_ok.mp hok
  obtain ⟨t', hfill, hput⟩ := bind_eq_ok.mp hok
  obtain ⟨hopened, hlen, -⟩ := effect_opened h js
  have hrecorded := (effect_startSession hopened.wellFormed hrecord).mono hlen.le
  have hfilled := effect_addValues hrecorded.wellFormed le_rfl
    (hlen.trans_le hrecorded.length_le) hfill
  have hdrop := effect_jsonObjectPut hfilled.wellFormed hput s.length
  refine (((hopened.trans hrecorded).trans hfilled).trans hdrop).congr ?_
  rw [Option.toList_some]
  abel

end Effects

/-! ## The start of a session returns -/

section Returns

variable {room : Room} {s : Store} {c : ℕ}

theorem exists_addValues (h : WellFormed s) (hc : 0 < count s c) (vs : List Json) :
    ∃ s', vs.foldlM (addValue c) s = .ok s' := by
  induction vs generalizing s with
  | nil => exact ⟨s, rfl⟩
  | cons v vs ih =>
    obtain ⟨t, hadd, hgrown, -⟩ := addValue_spec h hc le_rfl v
    obtain ⟨s', hrest⟩ := ih hgrown.wellFormed
      (by rwa [hgrown.count_eq c (lt_length_of_count_pos hc)])
    rw [List.foldlM_cons, hadd]
    exact ⟨s', hrest⟩

theorem exists_jsonObjectPut {x : Option ℕ} (h : ∀ y, own x.toList y ≤ spare s y) :
    ∃ s', jsonObjectPut s x = .ok s' := by
  cases x with
  | none => exact ⟨s, rfl⟩
  | some x =>
    obtain ⟨s', hput⟩ : ∃ s', put s x = some s' := exists_drop le_rfl h
    exact ⟨s', by rw [jsonObjectPut, hput]; rfl⟩

/-- Nothing is missing that would be needed to fill a container and to drop it. -/
theorem exists_filled (h : WellFormed s) (howned : ∀ y, 0 ≤ spare s y) (vs : List Json) :
    ∃ t s', vs.foldlM (addValue s.length) (new s) = .ok t ∧
      jsonObjectPut t (some s.length) = .ok s' := by
  have hnew := effect_new h
  obtain ⟨t, hfill⟩ := exists_addValues hnew.wellFormed
    (by rw [count_new_self]; exact Nat.one_pos) vs
  have hfilled := effect_addValues hnew.wellFormed le_rfl (lt_length_new s) hfill
  obtain ⟨s', hput⟩ := exists_jsonObjectPut (s := t) (x := some s.length) fun y => by
    rw [hfilled.spare_eq, hnew.spare_eq, Option.toList_some, Pi.zero_apply, add_zero]
    exact le_add_of_nonneg_left (howned y)
  exact ⟨t, s', hfill, hput⟩

theorem exists_startSession (room : Room) (h : WellFormed s) (howned : ∀ y, 0 ≤ spare s y)
    (asked : OpenQos) (enable : Bool) (qos : QosCfg) :
    ∃ s', startSessionObjects room asked enable qos s = .ok s' := by
  rw [startSessionObjects]
  split
  · exact ⟨s, rfl⟩
  · rw [recordQosCfgToFileObjects]
    split
    · obtain ⟨t, s', hfill, hput⟩ := exists_filled h howned
        [Json.string (if qos.en then ['2'] else ['0']), Json.string qos.ipList]
      exact ⟨s', bind_eq_ok.mpr ⟨t, hfill, hput⟩⟩
    · exact ⟨s, rfl⟩

theorem exists_tqReqStartQos (env : Env) (cip : UInt32) (jo : Json) (server : Server) :
    ∃ r, tqReqStartQos env cip (some jo) server = .ok r := by
  rw [tqReqStartQos, readOpenQos_some]
  dsimp only [bind, Except.bind]
  split
  · exact ⟨_, rfl⟩
  · split <;> exact ⟨_, rfl⟩

/-- **The start of a session returns** on every content. -/
theorem exists_tqReqStartQosObjects (room : Room) (st : Objects) (env : Env) (cip : UInt32)
    (jo : Json) (server : Server) :
    ∃ s', tqReqStartQosObjects room env cip (some jo) server st.store = .ok s' := by
  rw [tqReqStartQosObjects]
  split
  · obtain ⟨r, hr⟩ := exists_tqReqStartQos env cip jo server
    obtain ⟨hopened, hlen, hlive⟩ := effect_opened st.wellFormed (some jo)
    have howned (y : ℕ) : 0 ≤ spare (build (some jo) (new st.store)).2 y := by
      have hold := st.owned y
      rw [hopened.spare_eq, Pi.add_apply, own, own]
      omega
    obtain ⟨t, hrecord⟩ := exists_startSession room hopened.wellFormed howned
      ⟨UInt16.ofInt (intField jo "validtime"), intField jo "brandqos", intField jo "brandlimit"⟩
      server.tqQos.enable r.1.cfg.qos
    have hrecorded := effect_startSession hopened.wellFormed hrecord
    rw [← hrecorded.count_eq hopened.wellFormed] at hlive
    obtain ⟨t', hfill⟩ := exists_addValues hrecorded.wellFormed hlive (fieldValues r.2)
    have hfilled := effect_addValues hrecorded.wellFormed le_rfl
      (hlen.trans_le hrecorded.length_le) hfill
    obtain ⟨s', hput⟩ := exists_jsonObjectPut (s := t') (x := some st.store.length) fun y => by
      have hold := st.owned y
      rw [hfilled.spare_eq, hrecorded.spare_eq, hopened.spare_eq, Pi.zero_apply, Pi.add_apply,
        Option.toList_some, own, own]
      omega
    refine ⟨s', ?_⟩
    rw [hr, readOpenQos_some]
    exact bind_eq_ok.mpr ⟨r, rfl, bind_eq_ok.mpr ⟨_, rfl, bind_eq_ok.mpr ⟨t, hrecord,
      bind_eq_ok.mpr ⟨t', hfill, hput⟩⟩⟩⟩
  · exact ⟨_, rfl⟩

/-- So does a handler whose reply is known. -/
theorem exists_replyObjects (st : Objects) (js : Option Json) {run : Except Crash Json}
    {reply : Json} (hrun : run = .ok reply) :
    ∃ s', replyObjects room js run st.store = .ok s' := by
  rw [replyObjects]
  split
  · obtain ⟨hopened, hlen, hlive⟩ := effect_opened st.wellFormed js
    obtain ⟨t, hfill⟩ := exists_addValues hopened.wellFormed hlive (fieldValues reply)
    have hfilled := effect_addValues hopened.wellFormed le_rfl hlen hfill
    have hspare (y : ℕ) : spare t y = spare st.store y + (own [st.store.length] y +
        own (build js (new st.store)).1.toList y) := by
      rw [hfilled.spare_eq, hopened.spare_eq, Pi.zero_apply, add_zero, Pi.add_apply]
    obtain ⟨p, hput⟩ := exists_jsonObjectPut (s := t) (x := (build js (new st.store)).1) fun y => by
      have hold := st.owned y
      rw [hspare, own, own]
      omega
    have hdrop := effect_jsonObjectPut hfilled.wellFormed hput 0
    obtain ⟨s', hput'⟩ := exists_jsonObjectPut (s := p) (x := some st.store.length) fun y => by
      have hold := st.owned y
      rw [hdrop.spare_eq, hspare, Option.toList_some, Pi.neg_apply]
      omega
    refine ⟨s', ?_⟩
    rw [hrun]
    exact bind_eq_ok.mpr ⟨reply, rfl, bind_eq_ok.mpr ⟨t, hfill, bind_eq_ok.mpr ⟨p, hput, hput'⟩⟩⟩
  · exact ⟨_, rfl⟩

end Returns

/-! ## What is left of a request -/

/-- **The objects are those from before** when the handler has returned. -/
def Releases (room : Room) (jc : JsonC) (env : Env) (cip : UInt32) (msgType : UInt16)
    (content : List (List Char × Json)) (server : Server) (st : Objects) : Prop :=
  ∀ s', serveObjects room jc env cip msgType (some (.object content)) server st.store = .ok s' →
    ∀ x, 0 < count s' x ↔ 0 < count st.store x

section Serve

variable {room : Room} {jc : JsonC} {env : Env} {cip : UInt32} {msgType : UInt16}
  {js : Option Json} {server : Server} {s s' : Store}

/-- All other handlers come out even. -/
theorem effect_serveObjects (h : WellFormed s)
    (ht : MsgType.ofCode msgType = some .openQos → room.reply = false)
    (hok : serveObjects room jc env cip msgType js server s = .ok s') :
    Effect s.length s s' 0 := by
  rw [serveObjects] at hok
  cases hm : MsgType.ofCode msgType with
  | none =>
    rw [hm] at hok
    obtain rfl := Except.ok.inj hok
    exact Effect.refl h _
  | some t =>
    rw [hm] at hok ht
    cases t with
    | openQos =>
      dsimp only at hok
      rw [tqReqStartQosObjects, if_neg (by rw [ht rfl]; exact Bool.false_ne_true)] at hok
      obtain rfl := Except.ok.inj hok
      exact Effect.refl h _
    | openInfo => exact effect_tqReqGetDiag h hok
    | _ => exact effect_replyObjects h hok

/-- **What is left of the start of a session** is the content. -/
theorem not_releases_openQos (hroom : room.reply = true)
    (ht : MsgType.ofCode msgType = some .openQos) (content : List (List Char × Json))
    (st : Objects) : ¬ Releases room jc env cip msgType content server st := by
  intro h
  obtain ⟨s', hok⟩ := exists_tqReqStartQosObjects room st env cip (.object content) server
  have heffect := effect_tqReqStartQos st.wellFormed hroom hok
  have hlen := length_new st.store
  have hgone : count st.store (new st.store).length = 0 := count_of_le (by omega)
  have hleft : 0 < count s' (new st.store).length := by
    have hspare := heffect.spare_eq (new st.store).length
    have hroot : (build (some (.object content)) (new st.store)).1 = some (new st.store).length :=
      rfl
    rw [spare_of_le st.wellFormed (by omega), hroot, Option.toList_some, own,
      List.count_singleton_self, spare] at hspare
    omega
  have hserve : serveObjects room jc env cip msgType (some (.object content)) server st.store =
      .ok s' := by
    rw [serveObjects, ht]
    exact hok
  have hbefore := (h s' hserve _).mp hleft
  omega

/-- **When a request leaves the objects as they were**: exactly if it is no `OPEN_QOS`, or no object
can be made for the reply. -/
theorem releases_iff (room : Room) (jc : JsonC) (env : Env) (cip : UInt32) (msgType : UInt16)
    (content : List (List Char × Json)) (server : Server) (st : Objects) :
    Releases room jc env cip msgType content server st ↔
      (MsgType.ofCode msgType = some .openQos → room.reply = false) := by
  constructor
  · intro h ht
    by_contra hroom
    exact not_releases_openQos ((Bool.not_eq_false _).mp hroom) ht content st h
  · intro h s' hok x
    rw [(effect_serveObjects st.wellFormed h hok).count_eq st.wellFormed]

/-- Before there was any object. -/
def Objects.empty : Objects := ⟨[], sound_nil.wellFormed, fun _ => le_rfl⟩

/-- The first request of a server, with the content `{}`. -/
theorem not_releases_emptyContent :
    ¬ Releases ⟨true, true⟩ ⟨fun _ => none, fun _ => []⟩ (Env.at 0 none) 0 MsgType.openQos.code []
      (serverInit ⟨[], []⟩) .empty :=
  not_releases_openQos rfl (by decide) [] _

end Serve

/-! ## Requests one after another -/

/-- A request, with what it meets. -/
structure ParsedRequest where
  room : Room
  jc : JsonC
  env : Env
  cip : UInt32
  msgType : UInt16
  content : List (List Char × Json)
  server : Server

/-- It is served. -/
def ParsedRequest.serve (s : Store) (r : ParsedRequest) : Except DealtFault Store :=
  serveObjects r.room r.jc r.env r.cip r.msgType (some (.object r.content)) r.server s

/-- It is the start of a session. -/
def ParsedRequest.leaves (r : ParsedRequest) : Bool :=
  decide (MsgType.ofCode r.msgType = some .openQos) && r.room.reply

section Runs

variable {room : Room} {jc : JsonC} {env : Env} {cip : UInt32} {msgType : UInt16}
  {js : Option Json} {server : Server} {s s' : Store} {run : Except Crash Json}

theorem returned_eq_ok {α : Type} {run : Except Crash α} {a : α} :
    returned run = .ok a ↔ run = .ok a := by
  cases run <;> simp [returned, Except.mapError]

theorem exists_of_replyObjects (hroom : room.reply = true)
    (hok : replyObjects room js run s = .ok s') : ∃ reply, run = .ok reply := by
  rw [replyObjects, if_pos hroom] at hok
  obtain ⟨reply, hreply, -⟩ := bind_eq_ok.mp hok
  exact ⟨reply, returned_eq_ok.mp hreply⟩

theorem exists_of_map {α β : Type} {run : Except Crash α} {f : α → β}
    (h : ∃ b, run.map f = .ok b) : ∃ a, run = .ok a := by
  cases run with
  | error c =>
    obtain ⟨b, hb⟩ := h
    cases hb
  | ok a => exact ⟨a, rfl⟩

/-- **A run with objects ends well** only if the one with values does. -/
theorem serve_of_serveObjects (hroom : room.reply = true)
    (hok : serveObjects room jc env cip msgType js server s = .ok s') :
    ∃ r, serve jc env cip msgType js server = .ok r := by
  rw [serveObjects] at hok
  rw [serve]
  cases hm : MsgType.ofCode msgType with
  | none => exact ⟨_, rfl⟩
  | some t =>
    rw [hm] at hok
    cases t with
    | getVer | reqAuth | diagAuth =>
      obtain ⟨reply, hreply⟩ := exists_of_replyObjects hroom hok
      exact ⟨_, bind_eq_ok.mpr ⟨reply, hreply, rfl⟩⟩
    | openSpp | endSpeed | endInfo =>
      obtain ⟨r, hr⟩ := exists_of_map (exists_of_replyObjects hroom hok)
      exact ⟨_, bind_eq_ok.mpr ⟨r, hr, rfl⟩⟩
    | openQos =>
      replace hok : tqReqStartQosObjects room env cip js server s = .ok s' := hok
      rw [tqReqStartQosObjects, if_pos hroom] at hok
      obtain ⟨r, hr, -⟩ := bind_eq_ok.mp hok
      exact ⟨_, bind_eq_ok.mpr ⟨r, returned_eq_ok.mp hr, rfl⟩⟩
    | openInfo =>
      replace hok : tqReqGetDiagObjects room jc env js server s = .ok s' := hok
      rw [tqReqGetDiagObjects, if_pos hroom] at hok
      obtain ⟨r, hr, -⟩ := bind_eq_ok.mp hok
      exact ⟨_, bind_eq_ok.mpr ⟨r, returned_eq_ok.mp hr, rfl⟩⟩

/-- **It does end well** then, unless samples are compared. -/
theorem exists_serveObjects (st : Objects) (jo : Json)
    (ht : MsgType.ofCode msgType ≠ some .openInfo)
    (hserve : ∃ r, serve jc env cip msgType (some jo) server = .ok r) :
    ∃ s', serveObjects room jc env cip msgType (some jo) server st.store = .ok s' := by
  obtain ⟨r, hserve⟩ := hserve
  rw [serveObjects]
  rw [serve] at hserve
  cases hm : MsgType.ofCode msgType with
  | none => exact ⟨_, rfl⟩
  | some t =>
    rw [hm] at hserve ht
    cases t with
    | openInfo => exact absurd rfl ht
    | openQos => exact exists_tqReqStartQosObjects room st env cip jo server
    | getVer | reqAuth | diagAuth =>
      obtain ⟨reply, hreply, -⟩ := bind_eq_ok.mp hserve
      exact exists_replyObjects st _ hreply
    | openSpp | endSpeed | endInfo =>
      obtain ⟨r', hr, -⟩ := bind_eq_ok.mp hserve
      exact exists_replyObjects st _ (congrArg (Except.map Prod.snd) hr)

/-- A request leaves its content if it is the start of a session, and nothing otherwise. -/
theorem ParsedRequest.effect_serve (r : ParsedRequest) (h : WellFormed s)
    (hok : r.serve s = .ok s') :
    ∃ roots : List ℕ, roots.length = [r].countP ParsedRequest.leaves ∧
      (∀ x ∈ roots, s.length ≤ x) ∧ Effect s.length s s' (own roots) := by
  rw [ParsedRequest.serve] at hok
  cases hleaves : r.leaves with
  | false =>
    refine ⟨[], ?_, nofun, effect_serveObjects h (fun ht => ?_) hok⟩
    · rw [List.countP_singleton, hleaves]
      rfl
    · rw [ParsedRequest.leaves, ht] at hleaves
      simpa using hleaves
  | true =>
    rw [ParsedRequest.leaves, Bool.and_eq_true] at hleaves
    obtain ⟨ht, hroom⟩ := hleaves
    rw [serveObjects, of_decide_eq_true ht] at hok
    refine ⟨[(new s).length], ?_, fun x hx => ?_, effect_tqReqStartQos h hroom hok⟩
    · rw [List.countP_singleton, ParsedRequest.leaves, ht, hroom]
      rfl
    · rw [List.mem_singleton.mp hx, length_new]
      exact Nat.le_succ _

/-- **Each start of a session leaves an object**, however many requests there are. -/
theorem effect_run (rs : List ParsedRequest) (h : WellFormed s)
    (hok : rs.foldlM ParsedRequest.serve s = .ok s') :
    ∃ roots : List ℕ, roots.length = rs.countP ParsedRequest.leaves ∧
      (∀ x ∈ roots, s.length ≤ x) ∧ Effect s.length s s' (own roots) := by
  induction rs generalizing s with
  | nil =>
    obtain rfl := Except.ok.inj hok
    exact ⟨[], rfl, nofun, Effect.refl h _⟩
  | cons r rs ih =>
    rw [List.foldlM_cons] at hok
    obtain ⟨t, hserve, hrest⟩ := bind_eq_ok.mp hok
    obtain ⟨roots, hcount, hnew, heffect⟩ := ParsedRequest.effect_serve r h hserve
    obtain ⟨roots', hcount', hnew', heffect'⟩ := ih heffect.wellFormed hrest
    have hle := heffect.length_le
    refine ⟨roots ++ roots', ?_, fun x hx => ?_, ?_⟩
    · rw [List.length_append, hcount, hcount', ← List.countP_append]
      rfl
    · rcases List.mem_append.mp hx with hx | hx
      · exact hnew x hx
      · exact hle.trans (hnew' x hx)
    · rw [own_append]
      exact heffect.trans (heffect'.mono hle)

end Runs

end Tqos
