import Tqos.Tserver.Diag
import Tqos.Tserver.Nl
import Tqos.Tserver.Qos

/-!
# The requests

The eight request types and what the server does for each. A handler takes the object the tokener
made of the content, or NULL, and gives the changed state and the object of the reply; it can also
end the process.

## Netlink

`spp_netlink_connect` can fail, and then every message of the request fails; a single message can
fail too. Both are in `Env.sends`, by the number of the message. Nothing of what the server
remembers depends on it.

## Logging

What the handlers log is left out, as if it had no effect. It has one where it is long: `LOG_P` of
`debug.h` prints a message into `msg[256]`, without a check. Which texts are too long for it is said
where they are made, in the modules of the list, of the samples and of the datagram.
-/

namespace Tqos

/-- The type of a request. -/
inductive MsgType
  | getVer | reqAuth | openQos | openSpp | endSpeed | openInfo | endInfo | diagAuth
deriving DecidableEq, Repr

/-- `GET_VER`, `REQ_AUTH` and so on. -/
def MsgType.code : MsgType → UInt16
  | .getVer => 1001
  | .reqAuth => 1003
  | .openQos => 1005
  | .openSpp => 1007
  | .endSpeed => 1009
  | .openInfo => 1011
  | .endInfo => 1013
  | .diagAuth => 1015

/-- The type a number stands for. -/
def MsgType.ofCode (n : UInt16) : Option MsgType :=
  [.getVer, .reqAuth, .openQos, .openSpp, .endSpeed, .openInfo, .endInfo, .diagAuth].find?
    fun t => t.code = n

/-- The fields every reply to a command has. -/
def successFields : List (String × Json) := [("errno", .int 0), ("errmsg", .str "success")]

/-! ## `tq_req_get_ver` -/

/-- `%02X`. -/
def hexByte (b : UInt8) : List Char :=
  let d := (Nat.toDigits 16 b.toNat).map Char.toUpper
  if d.length < 2 then '0' :: d else d

/-- `tq_acquire_mac`: the hardware address of the first lease with the client's address. -/
def tqAcquireMac (ip : List Char) (leases : LeaseFile) : Option (List Char) := do
  let l ← (← leases).find? fun l => ip = inetNtoa l.ip
  pure ([':'].intercalate ((l.mac.toList.take 6).map hexByte))

/-- `tq_acquire_ver`. -/
def tqAcquireVer (env : Env) : Except Crash (List Char) := do
  let p ← sysPopen env.version 20
  pure ("JCGV".toList ++ p)

/-- `tq_req_get_ver`. -/
def tqReqGetVer (env : Env) (cip : UInt32) : Except Crash Json := do
  let mac := (tqAcquireMac (inetNtoa cip) env.leases).getD []
  let ver ← tqAcquireVer env
  pure (Json.obj [("phonemac", .string mac), ("routername", .string ver)])

/-! ## `tq_req_get_auth` -/

/-- `tq_req_get_auth`. -/
def tqReqGetAuth (js : Option Json) : Except Crash Json := do
  let _ ← tqJsonGetString js "timestamp"
  let _ ← tqJsonGetString js "checksum"
  let _ ← tqJsonGetString js "phonemac"
  pure (Json.obj (successFields ++ [("token", .int 2542432423), ("expiredtime", .int 7200)]))

/-! ## `tq_req_get_diag` -/

/-- The state part of `tq_req_get_diag`: the first request clears the samples and sets the timer. -/
def startDiagnose (env : Env) (s : Server) : Server :=
  if s.tqDiagnose.enable then s
  else
    let s := tqTimerNew { s with tqDiagnose := { s.tqDiagnose with enable := true } }
      .diagTmHandler 5 env.now
    { s with tqDiagnose := { s.tqDiagnose with diagnoses := fun _ => .zero } }

/-- `tq_req_get_diag`. -/
def tqReqGetDiag (jc : JsonC) (env : Env) (js : Option Json) (s : Server) :
    Except Crash (Server × Json) := do
  let _ ← tqJsonGetString js "phonemac"
  let _ ← tqJsonGetInt js "token"
  let j : Fin sizeDiag := Fin.ofNat sizeDiag s.tqDiagnose.lastIndex
  let i := if j = 0 then 11 else j - 1
  let k := if j = 11 then 0 else j + 1
  let s := startDiagnose env s
  let d := s.tqDiagnose.diagnoses
  let sum (f : TqDiagData → ℤ) : ℤ := ((List.finRange sizeDiag).map fun n => f (d n)).sum
  let dealt5 ← calcTracDealt jc (d i).traffic (d j).traffic
  let down5 := jc.tokenerParse (← calcTracArray jc dealt5 "down")
  let up5 := jc.tokenerParse (← calcTracArray jc dealt5 "up")
  let dealt60 ← calcTracDealt jc (d k).traffic (d j).traffic
  let up60 := jc.tokenerParse (← calcTracArray jc dealt60 "up")
  let down60 := jc.tokenerParse (← calcTracArray jc dealt60 "down")
  pure (s, Json.obj (successFields ++
    [("rssi", .int env.rssi), ("errorrate", .int 0), ("channelrate", .int 0),
      ("terminals", .int env.terminals),
      ("cpu_5", .int (((d j).cpu + (d i).cpu).tdiv 2)), ("cpu_60", .int ((sum (·.cpu)).tdiv 12)),
      ("memory_5", .int (((d j).memory + (d i).memory).tdiv 2)),
      ("memory_60", .int ((sum (·.memory)).tdiv 12)),
      ("errpack_5", .int ((d j).errpack - (d i).errpack)),
      ("errpack_60", .int ((d j).errpack - (d k).errpack)),
      ("losepack_5", .int ((d j).losepack - (d i).losepack)),
      ("losepack_60", .int ((d j).losepack - (d k).losepack)),
      ("up_5", .ofPtr up5), ("up_60", .ofPtr up60),
      ("down_5", .ofPtr down5), ("down_60", .ofPtr down60)]))

/-! ## `tq_req_start_qos` -/

/-- A request of `OPEN_QOS`, as the handler reads it. -/
structure OpenQos where
  validtime : UInt16
  brandqos : ℤ
  brandlimit : ℤ
deriving DecidableEq

/-- The fields the handler reads. `validtime` is cut to 16 bits when it is read. -/
def readOpenQos (js : Option Json) : Except Crash OpenQos := do
  let _ ← tqJsonGetInt js "token"
  let _ ← tqJsonGetString js "phonemac"
  let validtime ← tqJsonGetInt js "validtime"
  let brandqos ← tqJsonGetInt js "brandqos"
  let brandlimit ← tqJsonGetInt js "brandlimit"
  pure ⟨UInt16.ofInt validtime, brandqos, brandlimit⟩

/-- What the handler reads from an object. -/
theorem readOpenQos_some (jo : Json) :
    readOpenQos (some jo) = .ok ⟨UInt16.ofInt (intField jo "validtime"), intField jo "brandqos",
      intField jo "brandlimit"⟩ := by
  obtain ⟨mac, hmac⟩ := exists_tqJsonGetString jo "phonemac"
  rw [readOpenQos, tqJsonGetInt_some, hmac, tqJsonGetInt_some, tqJsonGetInt_some,
    tqJsonGetInt_some]
  rfl

/-- `DEF_EXPIRE`. -/
abbrev defExpire : UInt16 := 7200

/-- The ticks a lease lasts: `(validtime+TIME_QOS-1)/TIME_QOS`. A `validtime` of 16 bits is never
`INT_INV`. -/
def ticks (r : OpenQos) : ℤ :=
  let validtime := if (r.validtime.toNat : ℤ) = intInv then defExpire else r.validtime
  ((validtime.toNat : ℤ) + timeQos - 1).tdiv timeQos

/-- `record_qos_cfg_to_file`. -/
def recordQosCfgToFile (s : Server) : Server :=
  { s with qosCfgFile := some ⟨if s.cfg.qos.en then ['2'] else ['0'], s.cfg.qos.ipList⟩ }

/-- The start of a session: the settings are saved and both timers are set. -/
def startSession (env : Env) (times : ℤ) (s : Server) : Server :=
  let s := { s with
    cfg := { s.cfg with qos := ⟨decide ('2' ∈ s.nvram.qosEnable), s.nvram.ipQosList⟩ }
    tqQos := { s.tqQos with qosTmMax := times, cliCnt := 1, enable := true } }
  let s := recordQosCfgToFile s
  let s := tqTimerNew s .startQos 5 env.now
  tqTimerNew s .qosTmHandler timeQos (env.now + env.later)

/-- `tq_req_start_qos`. -/
def tqReqStartQos (env : Env) (cip : UInt32) (js : Option Json) (s : Server) :
    Except Crash (Server × Json) := do
  let r ← readOpenQos js
  let reply := Json.obj successFields
  if r.brandqos = 0 then pure (s, reply)
  else
    let brandlimit := if r.brandlimit = intInv then 1 else r.brandlimit
    let s := { s with tqQos := { s.tqQos with
      brandlimit := brandlimit
      qosCli := recordNewClient (inetNtoa cip) (ticks r) s.tqQos.qosCli } }
    if s.tqQos.enable then pure (s, reply) else pure (startSession env (ticks r) s, reply)

/-! ## `tq_req_start_spp` -/

/-- One netlink message. -/
def send (env : Env) (data : List UInt8) (l : Link) : Link :=
  ⟨l.tries + 1, if env.sends l.tries then l.sent ++ [data] else l.sent⟩

/-- A gap that is absent has its default. -/
def gapOr (default : ℤ) (n : ℤ) : ℤ := if n ≠ intInv then n else default

/-- A gap that is positive is brought into its range. -/
def clampGap (low high : ℤ) (n : ℤ) : ℤ :=
  if 0 < n ∧ n < low then low else if high < n then high else n

/-- The gaps of an `OPEN_SPP`, as they are sent. -/
def readGaps (js : Option Json) : Except Crash SppCfg := do
  let doublegap ← tqJsonGetInt js "doublegap"
  let thirdgap ← tqJsonGetInt js "thirdgap"
  let fourgap ← tqJsonGetInt js "fourgap"
  let dupgap ← tqJsonGetInt js "dupgap"
  pure ⟨clampGap 10 200 (gapOr 10 doublegap), clampGap 10 200 (gapOr 0 thirdgap),
    clampGap 10 200 (gapOr 0 fourgap), clampGap 20 100 (gapOr 20 dupgap)⟩

/-- The four messages with the gaps. -/
def sendGaps (env : Env) (g : SppCfg) (l : Link) : Link :=
  let l := send env (Nl.sppDupSet 0 (UInt16.ofInt g.doublegap)) l
  let l := send env (Nl.sppDupSet 1 (UInt16.ofInt g.thirdgap)) l
  let l := send env (Nl.sppDupSet 2 (UInt16.ofInt g.fourgap)) l
  send env (Nl.sppTrimSet (UInt16.ofInt g.dupgap)) l

/-- An address is put into the first free place of a table unless it is there already; only then is
the message sent. -/
def addAddr (env : Env) (msg : UInt32 → List UInt8) (ip : UInt32)
    (t : (Fin cliMax → UInt32) × Link) : (Fin cliMax → UInt32) × Link :=
  match Fin.find? fun i => decide (t.1 i = ip) with
  | some _ => t
  | none =>
    match Fin.find? fun i => decide (t.1 i = 0) with
    | some i => (Function.update t.1 i ip, send env (msg ip) t.2)
    | none => t

/-- The value of a digit of any base up to 16. -/
def digitVal (c : Char) : Option ℕ :=
  if c.isDigit then some (c.toNat - '0'.toNat)
  else if 'a' ≤ c ∧ c ≤ 'f' then some (c.toNat - 'a'.toNat + 10)
  else if 'A' ≤ c ∧ c ≤ 'F' then some (c.toNat - 'A'.toNat + 10)
  else none

/-- The number a nonempty string of digits of a base spells. -/
def readBase (base : ℕ) (s : List Char) : Option ℕ :=
  if s = [] then none
  else s.foldlM (fun n c => do
    let d ← digitVal c
    if d < base then some (n * base + d) else none) 0

/-- A part of an address: hexadecimal behind `0x`, octal behind `0`, else decimal. -/
def addrPart : List Char → Option ℕ
  | '0' :: 'x' :: l => readBase 16 l
  | '0' :: 'X' :: l => readBase 16 l
  | '0' :: c :: l => readBase 8 (c :: l)
  | l => readBase 10 l

/-- `inet_aton`: up to four parts, of which the last fills the bytes that are left. -/
def inetAton (s : List Char) : Option UInt32 := do
  let parts ← ((s.takeWhile fun c => !isspace c).splitOn '.').mapM addrPart
  let rest := 5 - parts.length
  if parts.length ≤ 4 ∧ (∀ p ∈ parts.dropLast, p < 256) ∧ parts.getLastD 0 < 256 ^ rest then
    let v := parts.dropLast.foldl (fun v p => v * 256 + p) 0 * 256 ^ rest + parts.getLastD 0
    some (UInt32.ofNat (natLE (bytesLE 4 v).reverse))
  else none

/-- The loop over `viparray`. An element that is no address leaves `sip_addr` as it was. -/
def addSips (jc : JsonC) (env : Env) :
    List Json → ℕ → (Fin cliMax → UInt32) × Link → Except Crash ((Fin cliMax → UInt32) × Link)
  | [], _, t => .ok t
  | e :: es, i, t => do
    let sipS ← strcpyPtr sizeIp (jsonObjectGetString jc e.ptr)
    match (strtok ':' sipS).head? with
    | none => .error .segv
    | some tok =>
      let sip := (inetAton tok).getD (env.stack i)
      if sip = 0 then addSips jc env es (i + 1) t
      else addSips jc env es (i + 1) (addAddr env Nl.sppSipAdd sip t)

/-- `tq_req_start_spp`. -/
def tqReqStartSpp (jc : JsonC) (env : Env) (cip : UInt32) (js : Option Json) (s : Server) :
    Except Crash (Server × Json) := do
  let gap ← readGaps js
  let _ ← tqJsonGetInt js "token"
  let ipsarray ← tqJsonGetArray js "viparray"
  let _ ← tqJsonGetString js "phonemac"
  let ipd := addAddr env Nl.sppCipAdd cip (s.cfg.ipd, sendGaps env gap s.link)
  let ips ← addSips jc env (arrayElems ipsarray) 0 (s.cfg.ips, ipd.2)
  pure ({ s with
    cfg := { s.cfg with gap := gap, ipd := ipd.1, ips := ips.1 }
    link := ips.2 }, Json.obj successFields)

/-! ## `tq_req_stop_speed` and `tq_req_stop_diag` -/

/-- What `tq_req_stop_speed` does to the QoS part: the client is taken out of the table, and the
session ends when no client is left. The countdowns of the others go on by one. -/
def stopQos (localIp : List Char) (q : TqQosCtl) : TqQosCtl :=
  let q := updateQosInfo { q with qosCli := removeClient localIp q.qosCli }
  if q.cliCnt = 0 then { q with enable := false } else q

/-- `tq_req_stop_speed`. -/
def tqReqStopSpeed (env : Env) (cip : UInt32) (js : Option Json) (s : Server) :
    Except Crash (Server × Json) := do
  let _ ← tqJsonGetInt js "token"
  let _ ← tqJsonGetString js "phonemac"
  let hits := (List.finRange cliMax).countP fun i => decide (s.cfg.ipd i = cip)
  pure ({ s with
    cfg := { s.cfg with ipd := fun i => if s.cfg.ipd i = cip then 0 else s.cfg.ipd i }
    tqQos := stopQos (inetNtoa cip) s.tqQos
    link := (send env (Nl.sppCipDel cip))^[hits] s.link }, Json.obj successFields)

/-- `tq_req_stop_diag`. -/
def tqReqStopDiag (js : Option Json) (s : Server) : Except Crash (Server × Json) := do
  let _ ← tqJsonGetInt js "token"
  let _ ← tqJsonGetString js "phonemac"
  pure ({ s with tqDiagnose := { s.tqDiagnose with enable := false } }, Json.obj successFields)

/-! ## The switch of `tq_request_parse` -/

/-- The `switch` of `tq_request_parse`, once the content is parsed. No object is the answer to a
type that is not known. -/
def serve (jc : JsonC) (env : Env) (cip : UInt32) (msgType : UInt16) (js : Option Json)
    (s : Server) : Except Crash (Server × Option Json) :=
  match MsgType.ofCode msgType with
  | some .getVer => do
    let reply ← tqReqGetVer env cip
    pure (s, some reply)
  | some .reqAuth | some .diagAuth => do
    let reply ← tqReqGetAuth js
    pure (s, some reply)
  | some .openQos => do
    let r ← tqReqStartQos env cip js s
    pure (r.1, some r.2)
  | some .openSpp => do
    let r ← tqReqStartSpp jc env cip js s
    pure (r.1, some r.2)
  | some .endSpeed => do
    let r ← tqReqStopSpeed env cip js s
    pure (r.1, some r.2)
  | some .openInfo => do
    let r ← tqReqGetDiag jc env js s
    pure (r.1, some r.2)
  | some .endInfo => do
    let r ← tqReqStopDiag js s
    pure (r.1, some r.2)
  | none => pure (s, none)

/-! ## The assertions

All requests but one ask the parsed content for a field before they do anything else. -/

section Assertions

variable {jc : JsonC} {IsJson : List Char → Prop} {env : Env} {cip : UInt32} {js : Option Json}
  {s : Server} {t : MsgType} {msgType : UInt16}

theorem tqReqGetVer_ne_assertFail (env : Env) (cip : UInt32) :
    tqReqGetVer env cip ≠ .error .assertFail := by
  refine bind_ne_error (bind_ne_error ?_ fun _ _ => nofun) fun _ _ => nofun
  exact bind_ne_error (strcpy_ne_assertFail _ _) fun _ _ => nofun

theorem tqReqGetAuth_ne_assertFail (hjs : js ≠ none) : tqReqGetAuth js ≠ .error .assertFail := by
  refine bind_ne_error (tqJsonGetString_ne_error hjs _) fun _ _ => ?_
  refine bind_ne_error (tqJsonGetString_ne_error hjs _) fun _ _ => ?_
  exact bind_ne_error (tqJsonGetString_ne_error hjs _) fun _ _ => nofun

theorem readOpenQos_ne_assertFail (hjs : js ≠ none) : readOpenQos js ≠ .error .assertFail := by
  refine bind_ne_error (tqJsonGetInt_ne_error hjs _) fun _ _ => ?_
  refine bind_ne_error (tqJsonGetString_ne_error hjs _) fun _ _ => ?_
  refine bind_ne_error (tqJsonGetInt_ne_error hjs _) fun _ _ => ?_
  refine bind_ne_error (tqJsonGetInt_ne_error hjs _) fun _ _ => ?_
  exact bind_ne_error (tqJsonGetInt_ne_error hjs _) fun _ _ => nofun

theorem tqReqStartQos_ne_assertFail (hjs : js ≠ none) :
    tqReqStartQos env cip js s ≠ .error .assertFail := by
  refine bind_ne_error (readOpenQos_ne_assertFail hjs) fun r _ => ?_
  dsimp only
  split
  · exact nofun
  · split <;> exact nofun

theorem readGaps_ne_assertFail (hjs : js ≠ none) : readGaps js ≠ .error .assertFail := by
  refine bind_ne_error (tqJsonGetInt_ne_error hjs _) fun _ _ => ?_
  refine bind_ne_error (tqJsonGetInt_ne_error hjs _) fun _ _ => ?_
  refine bind_ne_error (tqJsonGetInt_ne_error hjs _) fun _ _ => ?_
  exact bind_ne_error (tqJsonGetInt_ne_error hjs _) fun _ _ => nofun

theorem addSips_ne_assertFail (es : List Json) (i : ℕ) (t : (Fin cliMax → UInt32) × Link) :
    addSips jc env es i t ≠ .error .assertFail := by
  induction es generalizing i t with
  | nil => exact nofun
  | cons e es ih =>
    rw [addSips]
    refine bind_ne_error (strcpyPtr_ne_assertFail _ _) fun sipS _ => ?_
    split
    · exact nofun
    · dsimp only
      split
      · exact ih _ _
      · exact ih _ _

theorem tqReqStartSpp_ne_assertFail (hjs : js ≠ none) :
    tqReqStartSpp jc env cip js s ≠ .error .assertFail := by
  refine bind_ne_error (readGaps_ne_assertFail hjs) fun _ _ => ?_
  refine bind_ne_error (tqJsonGetInt_ne_error hjs _) fun _ _ => ?_
  refine bind_ne_error (tqJsonGetArray_ne_error hjs _) fun _ _ => ?_
  refine bind_ne_error (tqJsonGetString_ne_error hjs _) fun _ _ => ?_
  exact bind_ne_error (addSips_ne_assertFail _ _ _) fun _ _ => nofun

theorem tqReqStopSpeed_ne_assertFail (hjs : js ≠ none) :
    tqReqStopSpeed env cip js s ≠ .error .assertFail := by
  refine bind_ne_error (tqJsonGetInt_ne_error hjs _) fun _ _ => ?_
  exact bind_ne_error (tqJsonGetString_ne_error hjs _) fun _ _ => nofun

theorem tqReqStopDiag_ne_assertFail (hjs : js ≠ none) :
    tqReqStopDiag js s ≠ .error .assertFail := by
  refine bind_ne_error (tqJsonGetInt_ne_error hjs _) fun _ _ => ?_
  exact bind_ne_error (tqJsonGetString_ne_error hjs _) fun _ _ => nofun

theorem tqReqGetDiag_ne_assertFail (hjc : jc.Conforms IsJson) (hjs : js ≠ none) :
    tqReqGetDiag jc env js s ≠ .error .assertFail := by
  refine bind_ne_error (tqJsonGetString_ne_error hjs _) fun _ _ => ?_
  refine bind_ne_error (tqJsonGetInt_ne_error hjs _) fun _ _ => ?_
  refine bind_ne_error (calcTracDealt_ne_assertFail hjc _ _) fun dealt5 h5 => ?_
  refine bind_ne_error (calcTracArray_ne_assertFail hjc h5 _) fun _ _ => ?_
  refine bind_ne_error (calcTracArray_ne_assertFail hjc h5 _) fun _ _ => ?_
  refine bind_ne_error (calcTracDealt_ne_assertFail hjc _ _) fun dealt60 h60 => ?_
  refine bind_ne_error (calcTracArray_ne_assertFail hjc h60 _) fun _ _ => ?_
  exact bind_ne_error (calcTracArray_ne_assertFail hjc h60 _) fun _ _ => nofun

/-- The request asks the parsed content for a field. -/
def asksContent (msgType : UInt16) : Bool :=
  match MsgType.ofCode msgType with
  | none | some .getVer => false
  | some _ => true

/-- Without an object the first question fails. -/
theorem serve_none (h : asksContent msgType = true) :
    serve jc env cip msgType none s = .error .assertFail := by
  rw [asksContent] at h
  rw [serve]
  cases hm : MsgType.ofCode msgType with
  | none => rw [hm] at h; cases h
  | some t =>
    cases t with
    | getVer => rw [hm] at h; cases h
    | _ => rfl

/-- With an object, or without a question, no assertion fails. -/
theorem serve_ne_assertFail (hjc : jc.Conforms IsJson)
    (h : asksContent msgType = true → js ≠ none) :
    serve jc env cip msgType js s ≠ .error .assertFail := by
  rw [asksContent] at h
  rw [serve]
  cases hm : MsgType.ofCode msgType with
  | none => exact nofun
  | some t =>
    rw [hm] at h
    cases t with
    | getVer => exact bind_ne_error (tqReqGetVer_ne_assertFail env cip) fun _ _ => nofun
    | reqAuth => exact bind_ne_error (tqReqGetAuth_ne_assertFail (h rfl)) fun _ _ => nofun
    | diagAuth => exact bind_ne_error (tqReqGetAuth_ne_assertFail (h rfl)) fun _ _ => nofun
    | openQos => exact bind_ne_error (tqReqStartQos_ne_assertFail (h rfl)) fun _ _ => nofun
    | openSpp => exact bind_ne_error (tqReqStartSpp_ne_assertFail (h rfl)) fun _ _ => nofun
    | endSpeed => exact bind_ne_error (tqReqStopSpeed_ne_assertFail (h rfl)) fun _ _ => nofun
    | openInfo => exact bind_ne_error (tqReqGetDiag_ne_assertFail hjc (h rfl)) fun _ _ => nofun
    | endInfo => exact bind_ne_error (tqReqStopDiag_ne_assertFail (h rfl)) fun _ _ => nofun

/-- **When a request aborts the server**: exactly if it asks for a field and there is no object. -/
theorem serve_eq_assertFail (hjc : jc.Conforms IsJson) :
    serve jc env cip msgType js s = .error .assertFail ↔ asksContent msgType = true ∧ js = none := by
  constructor
  · intro hfail
    by_contra hnot
    exact serve_ne_assertFail hjc (fun hasks hnone => hnot ⟨hasks, hnone⟩) hfail
  · rintro ⟨hasks, rfl⟩
    exact serve_none hasks

end Assertions

end Tqos
