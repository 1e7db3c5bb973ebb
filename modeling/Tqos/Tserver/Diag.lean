import Tqos.Tserver.Json

/-!
# Traffic samples

`tq_diag.c`: every five seconds `diag_tm_handler` takes a sample, and `tq_req_get_diag` compares two
of them. A sample keeps the text of `/proc/net/ipt_account/iptraffic`. The comparison turns each
text into an array of host objects, prints the array, parses what was printed, and goes on with the
elements it gets back.

Texts are copied into arrays of fixed size without a check. A text that does not fit ends in
`Crash.overflow`; what would happen after that is not described. Logging is left out, although the
comparison of about six hosts is already too long for the `msg[256]` of `LOG_P`.

## Main results

* `calcTracDealt_ne_assertFail`, `calcTracArray_ne_assertFail` — no assertion fails as long as
  printing an array of objects and parsing the text gives no `null` among the elements
-/

namespace Tqos

/-- What the system answers while a request or a timer is served. -/
structure Env where
  /-- The clock when a timer is first set. -/
  now : ℕ
  /-- How much later the clock is read for a second timer. -/
  later : ℕ
  /-- The lease file. -/
  leases : LeaseFile
  /-- What the command that looks for the version prints. -/
  version : List Char
  /-- `acquire_rssi`. -/
  rssi : ℤ
  /-- `acquire_terminals`. -/
  terminals : ℤ
  /-- `acquire_cpu`. -/
  cpu : ℤ
  /-- `acquire_memory`. -/
  memory : ℤ
  /-- What the command that reads the traffic counters prints. -/
  traffic : List Char
  /-- Whether the netlink message with this number goes through. -/
  sends : ℕ → Bool
  /-- What a local variable holds before it is set, by the turn of the loop it belongs to. -/
  stack : ℕ → UInt32

/-- A system whose clock stands at `now`, with the given leases. -/
def Env.at (now : ℕ) (leases : LeaseFile) : Env :=
  ⟨now, 0, leases, [], 0, 0, 0, 0, [], fun _ => true, fun _ => 0⟩

/-- `SIZE_BUF_DEALT`. -/
abbrev sizeBufDealt : ℕ := sizeBase * 2

/-- `SIZE_BUF_ARRAY`. -/
abbrev sizeBufArray : ℕ := sizeBase * 2

/-- `strcpy` into an array of `size` characters. -/
def strcpy (size : ℕ) (src : List Char) : Except Crash (List Char) :=
  if src.length < size then .ok src else .error .overflow

/-- `strcpy` of a string that may be NULL. -/
def strcpyPtr (size : ℕ) : Option (List Char) → Except Crash (List Char)
  | none => .error .segv
  | some src => strcpy size src

/-- `sys_popen` into an array of `mLen` characters, for a command that prints `out`. The last
character is cut off whatever it is. When there is none, the byte in front of the array is set to
NUL, which is left out here; `Popen.sysPopen` has the array and that byte. -/
def sysPopen (out : List Char) (mLen : ℕ) : Except Crash (List Char) := do
  let result ← strcpy mLen out
  pure result.dropLast

/-- `atoi`. -/
def atoi (s : List Char) : ℤ :=
  let s := s.dropWhile isspace
  let digits (l : List Char) : ℤ := Nat.ofDigitChars 10 (l.takeWhile Char.isDigit) 0
  match s with
  | '-' :: l => jsonObjectGetInt (-digits l)
  | '+' :: l => jsonObjectGetInt (digits l)
  | l => jsonObjectGetInt (digits l)

/-- The tokens `strtok_r` finds with one separator. -/
def strtok (sep : Char) (s : List Char) : List (List Char) := (s.splitOn sep).filter (· ≠ [])

/-! ## `acquire_trac_data` -/

/-- The token `p[i][j]`, where `toks` are the tokens of line `i`: behind the last one stands NULL,
and behind that nothing was set. -/
def tokenAt (toks : List (List Char)) (j : ℕ) : Except Crash (List Char) :=
  match toks[j]? with
  | some t => .ok t
  | none => if j = toks.length then .error .segv else .error .uninit

/-- A counter in mebibytes: `atoi(p[i][j])/1024/1024`. -/
def mebi (t : List Char) : ℤ := ((atoi t).tdiv 1024).tdiv 1024

/-- A field of the host object, made of the token `j` if lines are long enough. -/
def hostField (jn : ℕ) (toks : List (List Char)) (j : ℕ) (name : String) (value : List Char → Json) :
    Except Crash (List (String × Json)) :=
  if j < jn then (tokenAt toks j).map fun t => [(name, value t)] else .ok []

/-- The host object of a line, when the last line had `jn` tokens. -/
def hostOf (jn : ℕ) (toks : List (List Char)) : Except Crash Json := do
  let ip ← hostField jn toks 2 "ip" Json.string
  let up ← hostField jn toks 5 "up" fun t => .int (mebi t)
  let down ← hostField jn toks 19 "down" fun t => .int (mebi t)
  pure (Json.obj (ip ++ up ++ down))

/-- The array `acquire_trac_data` makes of a text. The table has 20 rows of 50 entries; a row needs
one entry behind its last token and the text one row behind its last line. -/
def tracHosts (text : List Char) : Except Crash (List Json) :=
  let lines := (strtok '\n' text).map (strtok ' ')
  if 20 ≤ lines.length ∨ ∃ l ∈ lines, 50 ≤ l.length then .error .overflow
  else
    let jn := ((lines.filter (· ≠ [])).getLast?.map List.length).getD 0
    lines.mapM (hostOf jn)

/-- `acquire_trac_data`. -/
def acquireTracData (jc : JsonC) (text : List Char) : Except Crash (List Char) := do
  let trac ← tracHosts text
  strcpy sizeBufTrac (jc.toJsonString (.array trac))

/-! ## `calc_trac_dealt` -/

/-- `strcmp` returning 0, on strings that may be NULL. -/
def strcmpEq : Option (List Char) → Option (List Char) → Except Crash Bool
  | some a, some b => .ok (a == b)
  | _, _ => .error .segv

/-- What a counter has grown by since the older sample; a counter that has not grown gives 0. -/
def dealtFlow (obj1 obj2 : Option Json) (name : String) : Except Crash ℤ := do
  let new ← tqJsonGetInt obj2 name
  let old ← tqJsonGetInt obj1 name
  pure (if old < new then new - old else 0)

/-- The loop over the older sample: the object for the host of `obj2`, if an older one is found. -/
def findHost (obj2 : Option Json) : List Json → Except Crash (Option Json)
  | [] => .ok none
  | o :: s1 => do
    let obj1 := o.ptr
    let ip1 ← tqJsonGetString obj1 "ip"
    let ip2 ← tqJsonGetString obj2 "ip"
    if ← strcmpEq ip1 ip2 then
      let down ← dealtFlow obj1 obj2 "down"
      let up ← dealtFlow obj1 obj2 "up"
      pure (some (Json.obj [("down", .int down), ("up", .int up), ("ip", .string (ip1.getD []))]))
    else findHost obj2 s1

/-- The array `calc_trac_dealt` makes of two samples. -/
def dealtHosts (s1 s2 : List Json) : Except Crash (List Json) :=
  s2.mapM fun obj2 => do
    let host ← findHost obj2.ptr s1
    pure (host.getD obj2)

/-- `calc_trac_dealt`, on the texts of the samples `index1` and `index2`. -/
def calcTracDealt (jc : JsonC) (traffic1 traffic2 : List Char) : Except Crash (List Char) := do
  let s2 ← acquireTracData jc traffic2
  let s1 ← acquireTracData jc traffic1
  let dealt ← dealtHosts (arrayElems (jc.tokenerParse s1)) (arrayElems (jc.tokenerParse s2))
  strcpy sizeBufDealt (jc.toJsonString (.array dealt))

/-! ## `calc_trac_array` -/

/-- The text `ip:flow` for a host. -/
def ipFlow (obj : Option Json) (updown : String) : Except Crash (List Char) := do
  let ipInfo ← strcpyPtr 20 (← tqJsonGetString obj "ip")
  let flow ← strcpy 10 (toDec (← tqJsonGetInt obj updown))
  strcpy 20 (ipInfo ++ [':'] ++ flow)

/-- `calc_trac_array`. -/
def calcTracArray (jc : JsonC) (tracDealt : List Char) (updown : String) :
    Except Crash (List Char) := do
  let dealt := jc.tokenerParse (if tracDealt = [] then ['[', ']'] else tracDealt)
  let array ← (arrayElems dealt).mapM fun o => ipFlow o.ptr updown
  strcpy sizeBufArray (jc.toJsonString (.array (array.map .string)))

/-! ## No assertion fails

A sample that was taken apart has objects in it, printing it and parsing the text does not change
that, and the comparison of two samples gives objects again. -/

section Assertions

variable {jc : JsonC} {IsJson : List Char → Prop} {size : ℕ} {src t text : List Char}
  {l s1 s2 : List Json} {o : Json} {obj obj1 obj2 : Option Json}

theorem strcpy_ne_assertFail (size : ℕ) (src : List Char) :
    strcpy size src ≠ .error .assertFail := by
  rw [strcpy]
  split <;> exact nofun

theorem strcpy_eq_ok (h : strcpy size src = .ok t) : t = src := by
  rw [strcpy] at h
  split at h
  · exact (Except.ok.inj h).symm
  · cases h

theorem strcpyPtr_ne_assertFail (size : ℕ) (src : Option (List Char)) :
    strcpyPtr size src ≠ .error .assertFail := by
  cases src with
  | none => exact nofun
  | some src => exact strcpy_ne_assertFail size src

theorem tokenAt_ne_assertFail (toks : List (List Char)) (j : ℕ) :
    tokenAt toks j ≠ .error .assertFail := by
  rw [tokenAt]
  split
  · exact nofun
  · split <;> exact nofun

theorem hostField_ne_assertFail (jn : ℕ) (toks : List (List Char)) (j : ℕ) (name : String)
    (value : List Char → Json) : hostField jn toks j name value ≠ .error .assertFail := by
  rw [hostField]
  split
  · have htok := tokenAt_ne_assertFail toks j
    cases h : tokenAt toks j with
    | error e =>
      intro he
      exact htok (h.trans (congrArg _ (Except.error.inj he)))
    | ok t => exact nofun
  · exact nofun

theorem hostOf_ne_assertFail (jn : ℕ) (toks : List (List Char)) :
    hostOf jn toks ≠ .error .assertFail := by
  refine bind_ne_error (hostField_ne_assertFail jn toks 2 _ _) fun _ _ => ?_
  refine bind_ne_error (hostField_ne_assertFail jn toks 5 _ _) fun _ _ => ?_
  exact bind_ne_error (hostField_ne_assertFail jn toks 19 _ _) fun _ _ => nofun

/-- A host is an object, whatever fields it has. -/
theorem hostOf_ne_null {jn : ℕ} {toks : List (List Char)} (h : hostOf jn toks = .ok o) :
    o ≠ .null := by
  simp only [hostOf, bind_eq_ok] at h
  obtain ⟨_, -, _, -, _, -, h⟩ := h
  obtain rfl := Except.ok.inj h
  exact nofun

theorem tracHosts_ne_assertFail (text : List Char) : tracHosts text ≠ .error .assertFail := by
  rw [tracHosts]
  dsimp only
  split
  · exact nofun
  · exact mapM_ne_error fun toks _ => hostOf_ne_assertFail _ toks

theorem noNull_tracHosts (h : tracHosts text = .ok l) : NoNull l := by
  rw [tracHosts] at h
  dsimp only at h
  split at h
  · cases h
  · intro o ho
    obtain ⟨toks, -, hhost⟩ := exists_of_mem_mapM h o ho
    exact hostOf_ne_null hhost

theorem acquireTracData_ne_assertFail (text : List Char) :
    acquireTracData jc text ≠ .error .assertFail :=
  bind_ne_error (tracHosts_ne_assertFail text) fun _ _ => strcpy_ne_assertFail _ _

/-- What the tokener makes of a sample that was taken apart has no `null` in it. -/
theorem noNull_acquireTracData (hjc : jc.Conforms IsJson) (h : acquireTracData jc text = .ok t) :
    NoNull (arrayElems (jc.tokenerParse t)) := by
  obtain ⟨l, hl, h⟩ := bind_eq_ok.mp h
  obtain rfl := strcpy_eq_ok h
  exact hjc.noNull_print l (noNull_tracHosts hl)

theorem dealtFlow_ne_assertFail (h1 : obj1 ≠ none) (h2 : obj2 ≠ none) (name : String) :
    dealtFlow obj1 obj2 name ≠ .error .assertFail := by
  refine bind_ne_error (tqJsonGetInt_ne_error h2 name) fun _ _ => ?_
  exact bind_ne_error (tqJsonGetInt_ne_error h1 name) fun _ _ => nofun

theorem findHost_ne_assertFail (h2 : obj2 ≠ none) (h1 : NoNull s1) :
    findHost obj2 s1 ≠ .error .assertFail := by
  induction s1 with
  | nil => exact nofun
  | cons o s1 ih =>
    have ho : o.ptr ≠ none := Json.ptr_ne_none (h1 o List.mem_cons_self)
    refine bind_ne_error (tqJsonGetString_ne_error ho "ip") fun ip1 _ => ?_
    refine bind_ne_error (tqJsonGetString_ne_error h2 "ip") fun ip2 _ => ?_
    refine bind_ne_error ?_ fun same _ => ?_
    · cases ip1 <;> cases ip2 <;> exact nofun
    · split
      · refine bind_ne_error (dealtFlow_ne_assertFail ho h2 "down") fun _ _ => ?_
        exact bind_ne_error (dealtFlow_ne_assertFail ho h2 "up") fun _ _ => nofun
      · exact ih fun j hj => h1 j (List.mem_cons_of_mem _ hj)

/-- The object for a host that was found is an object. -/
theorem findHost_ne_null (h : findHost obj2 s1 = .ok (some o)) : o ≠ .null := by
  induction s1 with
  | nil => cases h
  | cons o1 s1 ih =>
    simp only [findHost, bind_eq_ok] at h
    obtain ⟨_, -, _, -, same, -, h⟩ := h
    split at h
    · simp only [bind_eq_ok] at h
      obtain ⟨_, -, _, -, h⟩ := h
      obtain rfl := Option.some.inj (Except.ok.inj h)
      exact nofun
    · exact ih h

theorem dealtHosts_ne_assertFail (h1 : NoNull s1) (h2 : NoNull s2) :
    dealtHosts s1 s2 ≠ .error .assertFail := by
  refine mapM_ne_error fun obj2 hmem => ?_
  exact bind_ne_error (findHost_ne_assertFail (Json.ptr_ne_none (h2 obj2 hmem)) h1) fun _ _ => nofun

theorem noNull_dealtHosts (h2 : NoNull s2) (h : dealtHosts s1 s2 = .ok l) : NoNull l := by
  intro o ho
  obtain ⟨obj2, hmem, hobj⟩ := exists_of_mem_mapM h o ho
  obtain ⟨host, hhost, hpure⟩ := bind_eq_ok.mp hobj
  obtain rfl := Except.ok.inj hpure
  cases host with
  | none => exact h2 obj2 hmem
  | some o => exact findHost_ne_null hhost

/-- **The comparison of two samples** aborts on no texts. -/
theorem calcTracDealt_ne_assertFail (hjc : jc.Conforms IsJson) (traffic1 traffic2 : List Char) :
    calcTracDealt jc traffic1 traffic2 ≠ .error .assertFail := by
  refine bind_ne_error (acquireTracData_ne_assertFail traffic2) fun t2 ht2 => ?_
  refine bind_ne_error (acquireTracData_ne_assertFail traffic1) fun t1 ht1 => ?_
  refine bind_ne_error (dealtHosts_ne_assertFail (noNull_acquireTracData hjc ht1)
    (noNull_acquireTracData hjc ht2)) fun _ _ => ?_
  exact strcpy_ne_assertFail _ _

theorem noNull_calcTracDealt (hjc : jc.Conforms IsJson) {traffic1 traffic2 : List Char}
    (h : calcTracDealt jc traffic1 traffic2 = .ok t) :
    NoNull (arrayElems (jc.tokenerParse (if t = [] then ['[', ']'] else t))) := by
  split
  · rw [hjc.parse_nil]
    exact nofun
  · simp only [calcTracDealt, bind_eq_ok] at h
    obtain ⟨t2, ht2, t1, -, l, hl, h⟩ := h
    obtain rfl := strcpy_eq_ok h
    exact hjc.noNull_print l (noNull_dealtHosts (noNull_acquireTracData hjc ht2) hl)

theorem ipFlow_ne_assertFail (h : obj ≠ none) (updown : String) :
    ipFlow obj updown ≠ .error .assertFail := by
  refine bind_ne_error (tqJsonGetString_ne_error h "ip") fun _ _ => ?_
  refine bind_ne_error (strcpyPtr_ne_assertFail _ _) fun _ _ => ?_
  refine bind_ne_error (tqJsonGetInt_ne_error h updown) fun _ _ => ?_
  exact bind_ne_error (strcpy_ne_assertFail _ _) fun _ _ => strcpy_ne_assertFail _ _

/-- **The array of flows** that is made of a comparison. -/
theorem calcTracArray_ne_assertFail (hjc : jc.Conforms IsJson) {traffic1 traffic2 : List Char}
    (h : calcTracDealt jc traffic1 traffic2 = .ok t) (updown : String) :
    calcTracArray jc t updown ≠ .error .assertFail := by
  refine bind_ne_error (mapM_ne_error fun o ho => ?_) fun _ _ => strcpy_ne_assertFail _ _
  exact ipFlow_ne_assertFail (Json.ptr_ne_none (noNull_calcTracDealt hjc h o ho)) updown

end Assertions

/-! ## `diag_tm_handler` -/

/-- `diag_tm_handler`. -/
def diagTmHandler (env : Env) (s : Server) : Except Crash Server := do
  let d := s.tqDiagnose
  let i := if d.lastIndex = 11 then 0 else d.lastIndex + 1
  if h : i < sizeDiag then
    let traffic ← sysPopen env.traffic sizeBufTrac
    let sample : TqDiagData := ⟨0, 0, env.cpu, env.memory, traffic⟩
    let d := { d with diagnoses := Function.update d.diagnoses ⟨i, h⟩ sample }
    if d.enable then
      pure (tqTimerNew { s with tqDiagnose := { d with lastIndex := i } } .diagTmHandler 5 env.now)
    else pure { s with tqDiagnose := d }
  else .error .overflow

end Tqos
