import Tqos.Tserver.JsonText
import Tqos.Tserver.Receive

/-!
# The replies

A handler prints its reply into a text of any length. `tq_ser_resp_enc_msg` copies the text into
`ctt_s.con`, pads and enciphers it there, and copies the result into `g_req`, from where it is sent.
No length is checked on the way.

## Main results

* `length_bytesOf_reply` — which replies have a text that fits
* `accessesInside_iff` — which replies stay inside of the two buffers
* `readable_iff` — which replies the other side can read

## Where a text does not fit

The bytes behind `g_req` belong to other variables. What `sendto` reads there the source does not
determine, so such a reply counts as not readable.
-/

namespace Tqos

open Aes

/-! ## What the handlers print -/

/-- What `tq_req_get_diag` puts into its reply. -/
structure Info where
  rssi : ℤ
  terminals : ℤ
  cpu5 : ℤ
  cpu60 : ℤ
  memory5 : ℤ
  memory60 : ℤ
  errpack5 : ℤ
  errpack60 : ℤ
  losepack5 : ℤ
  losepack60 : ℤ
  up5 : Option Json
  up60 : Option Json
  down5 : Option Json
  down60 : Option Json

namespace Info

/-- The fields of the reply. -/
def fields (r : Info) : List (String × Json) := successFields ++
  [("rssi", .int r.rssi), ("errorrate", .int 0), ("channelrate", .int 0),
    ("terminals", .int r.terminals), ("cpu_5", .int r.cpu5), ("cpu_60", .int r.cpu60),
    ("memory_5", .int r.memory5), ("memory_60", .int r.memory60), ("errpack_5", .int r.errpack5),
    ("errpack_60", .int r.errpack60), ("losepack_5", .int r.losepack5),
    ("losepack_60", .int r.losepack60), ("up_5", .ofPtr r.up5), ("up_60", .ofPtr r.up60),
    ("down_5", .ofPtr r.down5), ("down_60", .ofPtr r.down60)]

/-- The ten numbers that are measured. -/
def numbers (r : Info) : List ℤ :=
  [r.rssi, r.terminals, r.cpu5, r.cpu60, r.memory5, r.memory60, r.errpack5, r.errpack60,
    r.losepack5, r.losepack60]

/-- The four arrays of hosts with their traffic. -/
def arrays (r : Info) : List Json :=
  [.ofPtr r.up5, .ofPtr r.up60, .ofPtr r.down5, .ofPtr r.down60]

/-- The characters that depend on what was measured. -/
def chars (r : Info) : ℕ :=
  (r.numbers.map fun n => (toDec n).length).sum + (r.arrays.map fun j => j.spaced.length).sum

/-- **How long the reply is printed**: the names, the brackets and the fixed values take 256
characters. -/
theorem length_spaced_fields (r : Info) : (Json.obj r.fields).spaced.length = 256 + r.chars := by
  have hnames : r.fields.map Prod.fst = ["errno", "errmsg", "rssi", "errorrate", "channelrate",
      "terminals", "cpu_5", "cpu_60", "memory_5", "memory_60", "errpack_5", "errpack_60",
      "losepack_5", "losepack_60", "up_5", "up_60", "down_5", "down_60"] := rfl
  have hchars : nameChars ["errno", "errmsg", "rssi", "errorrate", "channelrate",
      "terminals", "cpu_5", "cpu_60", "memory_5", "memory_60", "errpack_5", "errpack_60",
      "losepack_5", "losepack_60", "up_5", "up_60", "down_5", "down_60"] = 244 := by decide +kernel
  have hsuccess : (Json.str "success").spaced.length = 9 := by decide +kernel
  have hzero : (toDec 0).length = 1 := by decide
  rw [length_spaced_obj, hnames, hchars]
  simp only [fields, successFields, chars, numbers, arrays, List.cons_append, List.nil_append,
    List.map_cons, List.map_nil, List.sum_cons, List.sum_nil, hsuccess, Json.spaced, hzero]
  ring

/-- The printed reply is a C string if the arrays are. -/
theorem nul_notMem_fields {r : Info} (h : ∀ j ∈ r.arrays, '\x00' ∉ j.spaced) :
    '\x00' ∉ (Json.obj r.fields).spaced := by
  refine nul_notMem_obj fun f hf => ?_
  simp only [arrays, List.forall_mem_cons] at h
  obtain ⟨hup5, hup60, hdown5, hdown60, -⟩ := h
  have hsuccess : '\x00' ∉ (Json.str "success").spaced := nul_notMem_quote _
  have hint (n : ℤ) : '\x00' ∉ (Json.int n).spaced := nul_notMem_toDec n
  simp only [fields, successFields, List.cons_append, List.nil_append, List.mem_cons,
    List.not_mem_nil, or_false] at hf
  rcases hf with rfl | rfl | rfl | rfl | rfl | rfl | rfl | rfl | rfl | rfl | rfl | rfl | rfl | rfl |
    rfl | rfl | rfl | rfl
  all_goals first | exact hint _ | assumption

end Info

/-- The part of `tq_req_get_diag` that reads the samples and compares them. -/
def readInfo (jc : JsonC) (env : Env) (s : Server) : Except Crash Info := do
  let j : Fin sizeDiag := Fin.ofNat sizeDiag s.tqDiagnose.lastIndex
  let i := if j = 0 then 11 else j - 1
  let k := if j = 11 then 0 else j + 1
  let d := (startDiagnose env s).tqDiagnose.diagnoses
  let sum (f : TqDiagData → ℤ) : ℤ := ((List.finRange sizeDiag).map fun n => f (d n)).sum
  let dealt5 ← calcTracDealt jc (d i).traffic (d j).traffic
  let down5 := jc.tokenerParse (← calcTracArray jc dealt5 "down")
  let up5 := jc.tokenerParse (← calcTracArray jc dealt5 "up")
  let dealt60 ← calcTracDealt jc (d k).traffic (d j).traffic
  let up60 := jc.tokenerParse (← calcTracArray jc dealt60 "up")
  let down60 := jc.tokenerParse (← calcTracArray jc dealt60 "down")
  pure {
    rssi := env.rssi
    terminals := env.terminals
    cpu5 := ((d j).cpu + (d i).cpu).tdiv 2
    cpu60 := (sum (·.cpu)).tdiv 12
    memory5 := ((d j).memory + (d i).memory).tdiv 2
    memory60 := (sum (·.memory)).tdiv 12
    errpack5 := (d j).errpack - (d i).errpack
    errpack60 := (d j).errpack - (d k).errpack
    losepack5 := (d j).losepack - (d i).losepack
    losepack60 := (d j).losepack - (d k).losepack
    up5 := up5
    up60 := up60
    down5 := down5
    down60 := down60 }

section Handlers

variable {jc : JsonC} {env : Env} {cip : UInt32} {js : Option Json} {s s' : Server} {reply : Json}
  {msgType : UInt16} {r : Info}

/-- `tq_req_get_diag` puts what was read into the reply. -/
theorem tqReqGetDiag_eq :
    tqReqGetDiag jc env js s = (do
      let _ ← tqJsonGetString js "phonemac"
      let _ ← tqJsonGetInt js "token"
      let r ← readInfo jc env s
      pure (startDiagnose env s, Json.obj r.fields)) := by
  simp only [tqReqGetDiag, readInfo, bind_assoc, pure_bind]
  rfl

theorem readInfo_of_tqReqGetDiag (h : tqReqGetDiag jc env js s = .ok (s', reply)) :
    ∃ r, readInfo jc env s = .ok r ∧ reply = Json.obj r.fields := by
  simp only [tqReqGetDiag_eq, bind_eq_ok] at h
  obtain ⟨-, -, -, -, r, hr, h⟩ := h
  exact ⟨r, hr, (congrArg Prod.snd (Except.ok.inj h)).symm⟩

/-- The arrays of the reply are what the tokener made of a text, or NULL. -/
theorem nul_notMem_arrays (hjc : jc.Prints) (h : readInfo jc env s = .ok r) :
    ∀ j ∈ r.arrays, '\x00' ∉ j.spaced := by
  have hptr (t : List Char) : '\x00' ∉ (Json.ofPtr (jc.tokenerParse t)).spaced := by
    cases hj : jc.tokenerParse t with
    | none => decide
    | some j => exact hjc.nul_notMem t j hj
  simp only [readInfo, bind_eq_ok] at h
  obtain ⟨-, -, down5, -, up5, -, -, -, up60, -, down60, -, h⟩ := h
  obtain rfl := Except.ok.inj h
  simp only [Info.arrays, List.forall_mem_cons]
  exact ⟨hptr up5, hptr up60, hptr down5, hptr down60, nofun⟩

theorem length_hexByte_le (b : UInt8) : (hexByte b).length ≤ 2 := by
  have hdigits : (Nat.toDigits 16 b.toNat).length ≤ 2 :=
    (Nat.length_toDigits_le_iff (by decide) (by decide)).mpr b.toNat_lt
  simp only [hexByte, List.length_map]
  split
  · rw [List.length_cons, List.length_map]
    omega
  · rwa [List.length_map]

theorem sum_length_hexByte_le (mac : List UInt8) :
    ((mac.map hexByte).map List.length).sum ≤ 2 * mac.length := by
  induction mac with
  | nil => exact le_rfl
  | cons b mac ih =>
    have hb := length_hexByte_le b
    simp only [List.map_cons, List.sum_cons, List.length_cons]
    omega

theorem length_tqAcquireMac_le (ip : List Char) (leases : LeaseFile) :
    ((tqAcquireMac ip leases).getD []).length ≤ 17 := by
  have hmac (mac : List UInt8) (h : mac.length ≤ 6) :
      ([':'].intercalate (mac.map hexByte)).length ≤ 17 := by
    have hsum := sum_length_hexByte_le mac
    rw [length_intercalate_singleton, List.length_map]
    omega
  cases h : tqAcquireMac ip leases with
  | none => exact Nat.zero_le _
  | some mac =>
    simp only [tqAcquireMac, Option.bind_eq_bind, Option.bind_eq_some_iff, Option.pure_def,
      Option.some.injEq] at h
    obtain ⟨_, -, l, -, rfl⟩ := h
    exact hmac _ (by rw [List.length_take]; omega)

/-- The text of the object has no NUL and at most 300 characters. -/
def Short (j : Json) : Prop := '\x00' ∉ j.spaced ∧ j.spaced.length ≤ 300

instance (j : Json) : Decidable (Short j) := inferInstanceAs (Decidable (_ ∧ _))

theorem short_success : Short (Json.obj successFields) := by decide +kernel

theorem short_getAuth (h : tqReqGetAuth js = .ok reply) : Short reply := by
  simp only [tqReqGetAuth, bind_eq_ok] at h
  obtain ⟨-, -, -, -, -, -, h⟩ := h
  obtain rfl := Except.ok.inj h
  decide +kernel

theorem short_getVer (h : tqReqGetVer env cip = .ok reply) : Short reply := by
  simp only [tqReqGetVer, tqAcquireVer, sysPopen, bind_eq_ok] at h
  obtain ⟨ver, ⟨p, ⟨out, hout, hp⟩, hver⟩, h⟩ := h
  obtain rfl := Except.ok.inj h
  obtain rfl := Except.ok.inj hp
  obtain rfl := Except.ok.inj hver
  have hmac := length_escape_le ((tqAcquireMac (inetNtoa cip) env.leases).getD [])
  have hmac' := length_tqAcquireMac_le (inetNtoa cip) env.leases
  have hver := length_escape_le ("JCGV".toList ++ out.dropLast)
  have hver' : ("JCGV".toList ++ out.dropLast).length ≤ 23 := by
    have hlt : out.length < 20 := by
      rw [strcpy] at hout
      split at hout
      · obtain rfl := Except.ok.inj hout
        assumption
      · cases hout
    rw [List.length_append, List.length_dropLast, show ("JCGV".toList).length = 4 from rfl]
    omega
  have hnames : nameChars ["phonemac", "routername"] ≤ 40 := by decide +kernel
  refine ⟨nul_notMem_obj ?_, ?_⟩
  · simp only [List.forall_mem_cons]
    exact ⟨nul_notMem_quote _, nul_notMem_quote _, List.forall_mem_nil _⟩
  · rw [length_spaced_obj]
    simp only [List.map_cons, List.map_nil, List.sum_cons, List.sum_nil, Json.spaced, length_quote]
    omega

theorem short_startQos (h : tqReqStartQos env cip js s = .ok (s', reply)) : Short reply := by
  obtain ⟨r, -, h⟩ := bind_eq_ok.mp h
  dsimp only at h
  split at h
  · obtain rfl := congrArg Prod.snd (Except.ok.inj h)
    exact short_success
  · split at h
    all_goals
      obtain rfl := congrArg Prod.snd (Except.ok.inj h)
      exact short_success

theorem short_startSpp (h : tqReqStartSpp jc env cip js s = .ok (s', reply)) : Short reply := by
  simp only [tqReqStartSpp, bind_eq_ok] at h
  obtain ⟨_, _, _, _, _, _, _, _, _, _, h⟩ := h
  obtain rfl := congrArg Prod.snd (Except.ok.inj h)
  exact short_success

theorem short_stopSpeed (h : tqReqStopSpeed env cip js s = .ok (s', reply)) : Short reply := by
  simp only [tqReqStopSpeed, bind_eq_ok] at h
  obtain ⟨_, _, _, _, h⟩ := h
  obtain rfl := congrArg Prod.snd (Except.ok.inj h)
  exact short_success

theorem short_stopDiag (h : tqReqStopDiag js s = .ok (s', reply)) : Short reply := by
  simp only [tqReqStopDiag, bind_eq_ok] at h
  obtain ⟨_, _, _, _, h⟩ := h
  obtain rfl := congrArg Prod.snd (Except.ok.inj h)
  exact short_success

/-- **What a handler answers.** The reply to `OPEN_INFO` prints what was read; all other replies are
short. -/
theorem serve_reply (h : serve jc env cip msgType js s = .ok (s', some reply)) :
    if MsgType.ofCode msgType = some .openInfo then
      ∃ r, readInfo jc env s = .ok r ∧ reply = Json.obj r.fields
    else Short reply := by
  rw [serve] at h
  cases ht : MsgType.ofCode msgType with
  | none =>
    rw [ht] at h
    cases congrArg Prod.snd (Except.ok.inj h)
  | some t =>
    rw [ht] at h
    cases t
    all_goals
      obtain ⟨a, ha, h⟩ := bind_eq_ok.mp h
      obtain rfl := Option.some.inj (congrArg Prod.snd (Except.ok.inj h))
    case openInfo =>
      rw [if_pos rfl]
      exact readInfo_of_tqReqGetDiag ha
    case getVer => exact short_getVer ha
    case reqAuth => exact short_getAuth ha
    case diagAuth => exact short_getAuth ha
    case openQos => exact short_startQos ha
    case openSpp => exact short_startSpp ha
    case endSpeed => exact short_stopSpeed ha
    case endInfo => exact short_stopDiag ha

/-- A handler that returns has made a reply; there is none only for a type that is not known. -/
theorem serve_eq_none {answer : Option Json}
    (h : serve jc env cip msgType js s = .ok (s', answer)) :
    answer = none ↔ MsgType.ofCode msgType = none := by
  rw [serve] at h
  cases ht : MsgType.ofCode msgType with
  | none =>
    rw [ht] at h
    obtain rfl : none = answer := congrArg Prod.snd (Except.ok.inj h)
    exact iff_of_true rfl rfl
  | some t =>
    rw [ht] at h
    refine iff_of_false (fun hnone => ?_) (Option.some_ne_none t)
    cases t
    all_goals
      obtain ⟨a, -, h⟩ := bind_eq_ok.mp h
      cases (congrArg Prod.snd (Except.ok.inj h)).trans hnone

/-- The reply to `OPEN_INFO` has room for what was read. -/
def InfoFits (jc : JsonC) (env : Env) (s : Server) : Prop :=
  ∀ r, readInfo jc env s = .ok r → r.chars ≤ 1758

/-- **How long the text of a reply is**, with its NUL. -/
theorem length_bytesOf_reply (hjc : jc.Prints)
    (h : serve jc env cip msgType js s = .ok (s', some reply)) :
    (bytesOf (jc.toJsonString reply)).length ≤ 2015 ↔
      (MsgType.ofCode msgType = some .openInfo → InfoFits jc env s) := by
  have hlen (j : Json) (hj : '\x00' ∉ j.spaced) :
      (bytesOf (jc.toJsonString j)).length = j.spaced.length + 1 := by
    rw [bytesOf, hjc.print_eq, cstr_eq_self hj, List.length_append, List.length_map]
    rfl
  have hreply := serve_reply h
  split at hreply
  · rename_i ht
    obtain ⟨r, hr, rfl⟩ := hreply
    rw [hlen _ (Info.nul_notMem_fields (nul_notMem_arrays hjc hr)), Info.length_spaced_fields,
      InfoFits, hr]
    constructor
    · intro hle _ r' hr'
      obtain rfl := Except.ok.inj hr'
      omega
    · intro hle
      have := hle ht r rfl
      omega
  · rename_i ht
    rw [hlen _ hreply.1]
    have := hreply.2
    exact ⟨fun _ h => absurd h ht, fun _ => by omega⟩

end Handlers

/-! ## Where the text is copied to -/

/-- Every access to `g_req` and to `ctt_s.con` lies inside. -/
def AccessesInside (log : List (Access Buf)) : Prop :=
  ∀ a ∈ log, a.buf = .gReq ∨ a.buf = .con → a.Inside (bufSize 0)

/-- What `tq_ser_resp_enc_msg` leaves in `g_req`, when `ct` is left by the encryption. -/
def answered (req : Request) (type : UInt16) (ct : Ctt) : Request :=
  blitV (blitV (blitV (blitV req mTypeOff (htons type)) mContOff (List.replicate sizeBufCtt 0))
    mContOff (ct.con.toList.take ct.len.toNat)) mContLenOff (htons (UInt16.ofInt ct.len))

/-- The accesses to `g_req` and to the result of the encryption. -/
def answerLog (ct : Ctt) : List (Access Buf) :=
  [⟨.gReq, .write, mTypeOff, 2⟩, ⟨.gReq, .write, mContOff, sizeBufCtt⟩,
    ⟨.con, .read, 0, ct.len.toNat⟩,
    ⟨.gReq, .write, mContOff, (ct.con.toList.take ct.len.toNat).length⟩,
    ⟨.gReq, .write, mContLenOff, 2⟩]

section Answer

variable {jc : JsonC} {before : UInt8} {ct ct' : Ctt} {req : Request} {type : UInt16} {reply : Json}
  {text : List UInt8}

theorem length_htons (v : UInt16) : (htons v).length = 2 := by
  rw [htons, List.length_reverse, length_le16]

/-- `tq_ser_resp_enc_msg`, once the text is encrypted. -/
theorem tqSerRespEncMsg_eq (htext : bytesOf (jc.toJsonString reply) = text)
    (hct : (tqCryptoAes before ct text text.length .encrypt).res = .ok ct') :
    tqSerRespEncMsg jc before ct req type reply =
      ⟨.ok (answered req type ct'),
        (tqCryptoAes before ct text text.length .encrypt).log ++ answerLog ct'⟩ := by
  have hres : (tqSerRespEncMsg jc before ct req type reply).res = .ok (answered req type ct') := by
    rw [tqSerRespEncMsg, htext, Traced.res_bind_of_ok hct]
    rfl
  have hlog : (tqSerRespEncMsg jc before ct req type reply).log =
      (tqCryptoAes before ct text text.length .encrypt).log ++ answerLog ct' := by
    rw [tqSerRespEncMsg, htext, Traced.log_bind_of_ok hct, answerLog]
    simp only [Traced.storeV, Traced.load, Traced.mk_ok_bind, List.length_replicate, length_htons,
      List.drop_zero, List.cons_append, List.nil_append, Nat.cast_zero]
  cases h : tqSerRespEncMsg jc before ct req type reply with
  | mk res log =>
    rw [h] at hres hlog
    rw [← hres, ← hlog]

/-- A text that fits is enciphered into whole blocks. -/
theorem tqCryptoAes_encrypt_eq (h : text.length < contentSSize) :
    tqCryptoAes before ct text text.length .encrypt =
      ⟨.ok (Ctt.ofBytes (encipher (pad 16 text))),
        fillLog .data text.length ++ encryptLog text.length⟩ := by
  rw [tqCryptoAes, fillContent_eq _ _ le_rfl, List.take_length, Traced.mk_ok_bind,
    tqCrypto_encrypt before (Ctt.len_ofBytes text) h, Ctt.take_con_ofBytes h.le]

/-- A text of at most 2015 bytes stays inside of `ctt_s.con`, plain and padded. -/
theorem accessesInside_encrypt {n : ℕ} (h : n ≤ 2015) :
    AccessesInside (fillLog .data n ++ encryptLog n) := by
  have hpad : n + padLen 16 n ≤ 2016 := by
    rw [add_padLen (by omega)]
    omega
  have hcbc : ∀ a ∈ cbcLog ((n + padLen 16 n) / 16) 0, a.buf = .gReq ∨ a.buf = .con →
      a.Inside (bufSize 0) := by
    intro a ha hbuf
    rcases (mem_cbcLog ha).1 with h | h <;> rw [h] at hbuf <;> simp at hbuf
  have hfill (b : Buf) (m : ℕ) (hm : m ≤ 2048) : ∀ a ∈ fillLog b m, a.buf = .gReq ∨ a.buf = .con →
      a.Inside (bufSize 0) := by
    simp only [fillLog, List.forall_mem_cons, Access.Inside, bufSize, contentSSize]
    refine ⟨fun _ => Or.inr (by omega), ?_, fun _ => Or.inr (by omega), List.forall_mem_nil _⟩
    rintro (rfl | rfl) <;> exact Or.inr ⟨le_rfl, show (0 : ℤ) + m ≤ (2048 : ℕ) by omega⟩
  refine List.forall_mem_append.mpr ⟨hfill _ _ (by omega), ?_⟩
  simp only [encryptLog, List.forall_mem_cons, List.forall_mem_append]
  -- The buffers of `tq_crypto` are neither of the two.
  have hinput : ¬(Buf.input = .gReq ∨ Buf.input = .con) := by decide
  have houtput : ¬(Buf.output = .gReq ∨ Buf.output = .con) := by decide
  refine ⟨fun h => absurd h hinput, fun _ => Or.inr ?_, fun h => absurd h hinput,
    fun h => absurd h hinput, fun h => absurd h houtput, hcbc, hfill _ _ (by omega)⟩
  simp only [bufSize, contentSSize]
  omega

/-- **Which texts stay inside of the two buffers.** -/
theorem accessesInside_encMsg (htext : bytesOf (jc.toJsonString reply) = text) :
    AccessesInside (tqSerRespEncMsg jc before ct req type reply).log ↔ text.length ≤ 2015 := by
  obtain ⟨ct', hct, hlen⟩ := tqCryptoAes_encrypt_ok before ct text
  rw [tqSerRespEncMsg_eq htext hct]
  have hpad := add_padLen (b := 16) (by omega) text.length
  rw [hpad] at hlen
  have htake : (ct'.con.toList.take ct'.len.toNat).length = min ct'.len.toNat 2048 := by
    rw [List.length_take, Vector.length_toList]
  rw [hlen, Int.toNat_natCast] at htake
  have hcont : mContOff = 30 := rfl
  constructor
  · intro hinside
    have hread := hinside ⟨.con, .read, 0, ct'.len.toNat⟩
      (List.mem_append_right _ (by simp [answerLog])) (Or.inr rfl)
    have hwrite := hinside ⟨.gReq, .write, mContOff, (ct'.con.toList.take ct'.len.toNat).length⟩
      (List.mem_append_right _ (by simp [answerLog])) (Or.inl rfl)
    simp only [Access.Inside, bufSize, contentSSize, hlen, Int.toNat_natCast, htake, hcont]
      at hread hwrite
    omega
  · intro hle
    refine List.forall_mem_append.mpr ⟨?_, ?_⟩
    · rw [tqCryptoAes_encrypt_eq (by rw [contentSSize]; omega)]
      exact accessesInside_encrypt hle
    · simp only [answerLog, List.forall_mem_cons, Access.Inside, bufSize, contentSSize, htake, hlen,
        Int.toNat_natCast, hcont]
      refine ⟨fun _ => by decide, fun _ => by decide, fun _ => ?_, fun _ => ?_, fun _ => by decide,
        List.forall_mem_nil _⟩ <;> right <;> omega

end Answer

/-! ## A network to try a reply with -/

/-- The address of a host of the network. -/
def crowdIp (n : ℕ) : List Char := "192.168.10.".toList ++ toDec (100 + n)

/-- The line of `iptraffic` for a host that has sent and received more than 2 GiB. -/
def crowdLine (n : ℕ) : List Char :=
  [' '].intercalate [['0'], ['0'], crowdIp n, ['0'], ['0'], "2147483647".toList, ['0'], ['0'],
    ['0'], ['0'], ['0'], ['0'], ['0'], ['0'], ['0'], ['0'], ['0'], ['0'], ['0'],
    "2147483647".toList] ++ ['\n']

/-- A network of `k` hosts; there may be lines for nineteen. -/
def crowdEnv (k now : ℕ) : Env :=
  { Env.at now none with traffic := (List.range k).flatMap crowdLine }

/-- The tokener for the texts that come up: the request, no hosts, the hosts of a sample, and their
traffic. -/
def crowdJson (k : ℕ) : JsonC := .reading [Json.obj [], .array [],
  .array ((List.range k).map fun n =>
    Json.obj [("ip", .string (crowdIp n)), ("up", .int 2047), ("down", .int 2047)]),
  .array ((List.range k).map fun n => .string (crowdIp n ++ ":2047".toList))]

/-- `OPEN_INFO`, and the first sample five seconds later. -/
def crowdEvents (k : ℕ) : List Event :=
  [.request 1011 1 (some (Json.obj [])) (crowdEnv k 0), .tick 5, .expire (crowdEnv k 5)]

/-- The state in which the next `OPEN_INFO` is answered, and the reply. -/
def crowdReply (k : ℕ) : Option (Server × Json) := do
  let s ← Run.run (step (crowdJson k)) (serverInit ⟨['0'], []⟩) (crowdEvents k)
  let r ← (serve (crowdJson k) (crowdEnv k 6) 1 1011 (some (Json.obj [])) s).toOption
  let reply ← r.2
  pure (s, reply)

theorem crowdReply_eq_some {k : ℕ} {s : Server} {reply : Json}
    (h : crowdReply k = some (s, reply)) :
    Run.run (step (crowdJson k)) (serverInit ⟨['0'], []⟩) (crowdEvents k) = some s ∧
      ∃ s', serve (crowdJson k) (crowdEnv k 6) 1 1011 (some (Json.obj [])) s =
        .ok (s', some reply) := by
  simp only [crowdReply, Option.bind_eq_bind, Option.bind_eq_some_iff] at h
  obtain ⟨s, hs, ⟨s', r⟩, hserve, reply, rfl, hsome⟩ := h
  obtain ⟨rfl, rfl⟩ := Prod.mk.inj (Option.some.inj hsome)
  exact ⟨hs, s', toOption_eq_some.mp hserve⟩

/-- **Which replies stay inside of the two buffers.** Only what `OPEN_INFO` measures can be too much
for them. -/
theorem accessesInside_iff {jc : JsonC} (hjc : jc.Prints) {env : Env} {cip : UInt32}
    {msgType : UInt16} {js : Option Json} {s s' : Server} {reply : Json}
    (h : serve jc env cip msgType js s = .ok (s', some reply)) (before : UInt8) (ct : Ctt)
    (req : Request) :
    AccessesInside (tqSerRespEncMsg jc before ct req (msgType + 1) reply).log ↔
      (MsgType.ofCode msgType = some .openInfo → InfoFits jc env s) :=
  (accessesInside_encMsg rfl).trans (length_bytesOf_reply hjc h)

/-- The reply about three hosts. -/
theorem accessesInside_openInfo : ∃ s s' reply,
    Run.run (step (crowdJson 3)) (serverInit ⟨['0'], []⟩) (crowdEvents 3) = some s ∧
      serve (crowdJson 3) (crowdEnv 3 6) 1 1011 (some (Json.obj [])) s = .ok (s', some reply) ∧
      AccessesInside (tqSerRespEncMsg (crowdJson 3) 0 ⟨0, Vector.replicate _ 0⟩
        (Vector.replicate _ 0) (1011 + 1) reply).log := by
  have hprints : (crowdJson 3).Prints := JsonC.prints_reading (by decide +kernel)
  have hfits : (crowdReply 3).any (fun r =>
      (readInfo (crowdJson 3) (crowdEnv 3 6) r.1).toOption.any fun i => decide (i.chars ≤ 1758)) =
        true := by decide +kernel
  obtain ⟨⟨s, reply⟩, hreply, hfits⟩ := (Option.any_eq_true _ _).mp hfits
  obtain ⟨i, hi, hchars⟩ := (Option.any_eq_true _ _).mp hfits
  obtain ⟨hs, s', hserve⟩ := crowdReply_eq_some hreply
  refine ⟨s, s', reply, hs, hserve, ?_⟩
  refine (accessesInside_iff hprints hserve 0 ⟨0, Vector.replicate _ 0⟩
    (Vector.replicate _ 0)).mpr fun _ i' hi' => ?_
  obtain rfl := Except.ok.inj ((toOption_eq_some.mp hi).symm.trans hi')
  exact of_decide_eq_true hchars

/-! ## What is sent -/

section Sent

variable {jc : JsonC} {before : UInt8} {ct ct' : Ctt} {req : Request} {type : UInt16}
  {text sent : List UInt8}

/-- The content of a message that was sent, as long as it says. -/
def sentContent (sent : List UInt8) : List UInt8 := (sent.drop 10).take (ntohs sent 8).toNat

/-- A message answers a request of type `t` with a text: it has the next type, all of the content it
says it has, and what `tq_crypto` makes of the content is the text. -/
structure Readable (t : UInt16) (text sent : List UInt8) : Prop where
  type : ntohs sent 6 = t + 1
  whole : (ntohs sent 8).toNat ≤ (sent.drop 10).length
  text : ∀ before ct, ∃ ct',
    (tqCryptoAes before ct (sentContent sent) (sentContent sent).length .decrypt).res = .ok ct' ∧
      ct'.con.toList.take ct'.len.toNat = text

/-- A buffer of the size of `g_req` in its parts. -/
theorem exists_parts (req : Request) :
    ∃ hdr type len cont : List UInt8, req.toList = hdr ++ (type ++ (len ++ cont)) ∧
      hdr.length = mTypeOff ∧ type.length = 2 ∧ len.length = 2 ∧ cont.length = 2018 := by
  have hreq : req.toList.length = 2048 := req.length_toList
  refine ⟨req.toList.take 26, (req.toList.drop 26).take 2, (req.toList.drop 28).take 2,
    req.toList.drop 30, ?_, ?_, ?_, ?_, ?_⟩
  · have h (n : ℕ) : (req.toList.drop n).take 2 ++ req.toList.drop (n + 2) = req.toList.drop n := by
      rw [← List.drop_drop, List.take_append_drop]
    rw [h 28, h 26, List.take_append_drop]
  all_goals simp [hreq]

/-- A number of the header is where it is, whatever stands around it. -/
theorem ntohs_append {a t : List UInt8} (b : List UInt8) {off : ℕ} (ha : a.length = off)
    (ht : t.length = 2) : ntohs (a ++ (t ++ b)) off = ntohs t 0 := by
  subst ha
  have hget (i : ℕ) (hi : i < 2) : (a ++ (t ++ b)).getD (a.length + i) 0 = t.getD i 0 := by
    rw [List.getD_eq_getElem?_getD, List.getElem?_append_right (by omega), Nat.add_sub_cancel_left,
      List.getElem?_append_left (by omega), List.getD_eq_getElem?_getD]
  have h0 := hget 0 (by omega)
  have h1 := hget 1 (by omega)
  rw [Nat.add_zero] at h0
  rw [ntohs, ntohs, h0, h1]

theorem ntohs_htons (v : UInt16) : ntohs (htons v) 0 = v := by
  obtain ⟨b₀, b₁, hbytes⟩ : ∃ b₀ b₁, le16 v = [b₀, b₁] := ⟨_, _, rfl⟩
  have hv := ofNat_natLE_le16 v
  have hnat : natLE [b₀, b₁] = b₁.toNat * 256 + b₀.toNat := by
    rw [natLE_cons, natLE_cons, show natLE [] = 0 from rfl]
    ring
  rw [hbytes, hnat] at hv
  rw [htons, hbytes]
  exact hv

/-- **What is sent** of a buffer whose parts are given: the message up to two bytes behind the
content. -/
theorem res_tqSerReqResp {hdr ty ln cont : List UInt8}
    (hreq : req.toList = hdr ++ (ty ++ (ln ++ cont)))
    (hhdr : hdr.length = mTypeOff) (hty : ty.length = 2) (hln : ln.length = 2) :
    (tqSerReqResp req).res =
      .ok (hdr.drop msgOff ++ (ty ++ (ln ++ cont.take (2 + (ntohs ln 0).toNat)))) := by
  have hlen : ntohs req.toList mContLenOff = ntohs ln 0 := by
    rw [hreq, ← List.append_assoc]
    exact ntohs_append cont (by rw [List.length_append, hhdr, hty]) hln
  have hoff : (hdr.drop msgOff).length = 6 := by
    rw [List.length_drop, hhdr]
    rfl
  rw [tqSerReqResp, hlen, hreq, sizeofReqMsg]
  show Except.ok _ = Except.ok _
  rw [List.drop_append_of_le_length (by rw [hhdr]; decide), List.take_append, hoff,
    List.take_of_length_le (by omega), List.take_append, hty, List.take_of_length_le (by omega),
    List.take_append, hln, List.take_of_length_le (by omega)]
  congr 6
  omega

/-- The parts of what was sent. -/
theorem ntohs_sent {hdr ty ln rest : List UInt8} (hsent : sent = hdr ++ (ty ++ (ln ++ rest)))
    (hhdr : hdr.length = 6) (hty : ty.length = 2) (hln : ln.length = 2) :
    ntohs sent 6 = ntohs ty 0 ∧ ntohs sent 8 = ntohs ln 0 ∧ sent.drop 10 = rest := by
  subst hsent
  have hpre : (hdr ++ ty).length = 8 := by rw [List.length_append, hhdr, hty]
  have hpre' : (hdr ++ ty ++ ln).length = 10 := by rw [List.length_append, hpre, hln]
  refine ⟨ntohs_append _ hhdr hty, ?_, ?_⟩
  · rw [← List.append_assoc]
    exact ntohs_append rest hpre hln
  · rw [← List.append_assoc, ← List.append_assoc, ← hpre', List.drop_left]

/-- Writing a content and its length leaves the parts in front. -/
theorem toList_writeContent {hdr ty ln cont : List UInt8}
    (hreq : req.toList = hdr ++ (ty ++ (ln ++ cont))) (hhdr : hdr.length = mTypeOff)
    (hty : ty.length = 2) (hln : ln.length = 2) (w : List UInt8) (len : UInt16) :
    (blitV (blitV (blitV req mContOff (List.replicate sizeBufCtt 0)) mContOff w) mContLenOff
      (htons len)).toList =
        hdr ++ (ty ++ (htons len ++ blit (blit cont 0 (List.replicate sizeBufCtt 0)) 0 w)) := by
  have hpre : (hdr ++ (ty ++ ln)).length = mContOff := by
    rw [List.length_append, List.length_append, hhdr, hty, hln]
  have hpre' : (hdr ++ ty).length = mContLenOff := by rw [List.length_append, hhdr, hty]
  have hassoc : ∀ l : List UInt8, hdr ++ (ty ++ (ln ++ l)) = hdr ++ (ty ++ ln) ++ l := by simp
  rw [toList_blitV, toList_blitV, toList_blitV, hreq, hassoc, blit_append_right _ _ _ hpre,
    blit_append_right _ _ _ hpre, ← hassoc, ← List.append_assoc,
    blit_append hpre' (by rw [length_htons, hln]), List.append_assoc]

/-- The parts of the buffer once the reply is encrypted into it. -/
theorem toList_answered (req : Request) (type : UInt16) (ct : Ctt) :
    ∃ hdr cont : List UInt8,
      (answered req type ct).toList =
        hdr ++ (htons type ++ (htons (UInt16.ofInt ct.len) ++ cont)) ∧
      hdr.length = mTypeOff ∧ cont.length = 2018 ∧
      ((ct.con.toList.take ct.len.toNat).length ≤ 2018 →
        ct.con.toList.take ct.len.toNat <+: cont) := by
  obtain ⟨hdr, ty, ln, cont, hreq, hhdr, hty, hln, hcont⟩ := exists_parts req
  have htype : (blitV req mTypeOff (htons type)).toList = hdr ++ (htons type ++ (ln ++ cont)) := by
    rw [toList_blitV, hreq, blit_append hhdr (by rw [length_htons, hty])]
  refine ⟨hdr, _, toList_writeContent htype hhdr (length_htons _) hln _ _, hhdr, by simp [hcont],
    fun hle => ?_⟩
  have hblit : blit (blit cont 0 (List.replicate sizeBufCtt 0)) (0 : ℕ)
      (ct.con.toList.take ct.len.toNat) = _ :=
    blit_of_le (by rw [length_blit, hcont]; omega)
  rw [List.take_zero, List.nil_append, Nat.cast_zero] at hblit
  rw [hblit]
  exact List.prefix_append _ _

/-- **What is sent for a reply**, whatever its length. -/
theorem sent_of_reply {msgType : UInt16} {reply : Json}
    (htext : bytesOf (jc.toJsonString reply) = text)
    (hct : (tqCryptoAes before ct text text.length .encrypt).res = .ok ct')
    (hsent : (respond jc before ct req msgType (some reply)).res = .ok sent) :
    ntohs sent 6 = msgType + 1 ∧ ntohs sent 8 = UInt16.ofInt ct'.len ∧
      ∃ cont : List UInt8, cont.length = 2018 ∧
        sent.drop 10 = cont.take (2 + (UInt16.ofInt ct'.len).toNat) ∧
        ((ct'.con.toList.take ct'.len.toNat).length ≤ 2018 →
          ct'.con.toList.take ct'.len.toNat <+: cont) := by
  obtain ⟨hdr, cont, hreq, hhdr, hcont, hprefix⟩ := toList_answered req (msgType + 1) ct'
  rw [respond, tqSerRespEncMsg_eq htext hct, Traced.mk_ok_bind] at hsent
  dsimp only at hsent
  rw [res_tqSerReqResp hreq hhdr (length_htons _) (length_htons _), ntohs_htons] at hsent
  have hoff : (hdr.drop msgOff).length = 6 := by
    rw [List.length_drop, hhdr]
    rfl
  obtain ⟨htype, hlen, hdrop⟩ :=
    ntohs_sent (Except.ok.inj hsent).symm hoff (length_htons _) (length_htons _)
  rw [ntohs_htons] at htype hlen
  exact ⟨htype, hlen, cont, hcont, hdrop, hprefix⟩

theorem toNat_ofInt {n : ℕ} (h : n < 65536) : (UInt16.ofInt n).toNat = n := by
  have hcut := cast_toNat_ofInt n
  omega

/-- A reply that fits is readable. -/
theorem readable_of_fits {msgType : UInt16} {reply : Json}
    (htext : bytesOf (jc.toJsonString reply) = text) (hle : text.length ≤ 2015)
    (hsent : (respond jc before ct req msgType (some reply)).res = .ok sent) :
    Readable msgType text sent := by
  have hmod : (pad 16 text).length % 16 = 0 := by rw [length_pad (by omega)]; omega
  have hlen : (encipher (pad 16 text)).length ≤ 2016 := by
    rw [length_encipher hmod, length_pad (by omega)]
    omega
  have hpos : 0 < (encipher (pad 16 text)).length := by
    rw [length_encipher hmod, length_pad (by omega)]
    omega
  set e := encipher (pad 16 text) with he
  have hct : (tqCryptoAes before ct text text.length .encrypt).res = .ok (Ctt.ofBytes e) := by
    rw [tqCryptoAes_encrypt_eq (by rw [contentSSize]; omega)]
  obtain ⟨htype, hlen', cont, hcont, hdrop, hprefix⟩ := sent_of_reply htext hct hsent
  have hval : (UInt16.ofInt (Ctt.ofBytes e).len).toNat = e.length := toNat_ofInt (by omega)
  have htake : (Ctt.ofBytes e).con.toList.take (Ctt.ofBytes e).len.toNat = e := by
    rw [Ctt.len_ofBytes, Int.toNat_natCast, Ctt.take_con_ofBytes (by rw [contentSSize]; omega)]
  rw [htake] at hprefix
  obtain ⟨rest, rfl⟩ := hprefix (by omega)
  rw [hval] at hdrop
  have hcontent : sentContent sent = e := by
    rw [sentContent, hdrop, hlen', hval, List.take_take, Nat.min_eq_left (by omega),
      List.take_left]
  refine ⟨htype, ?_, fun before ct => ?_⟩
  · rw [hdrop, hlen', hval, List.length_take, hcont]
    omega
  · rw [hcontent]
    have hdec := res_tqCryptoAes_decrypt before ct e le_rfl (by rw [contentSSize]; omega)
    rw [if_neg fun h => hpos.ne' h.1, List.take_length, he, decrypted_encipher_pad] at hdec
    refine ⟨_, hdec, ?_⟩
    rw [Ctt.len_ofBytes, Int.toNat_natCast, Ctt.take_con_ofBytes (by rw [contentSSize]; omega)]

/-- The text that is found in a content is not longer than the content. -/
theorem Readable.length_le {t : UInt16} (h : Readable t text sent)
    (hle : (sentContent sent).length ≤ contentSSize) :
    text.length ≤ (sentContent sent).length := by
  obtain ⟨ct', hct, rfl⟩ := h.text 0 ⟨0, Vector.replicate _ 0⟩
  rw [res_tqCryptoAes_decrypt _ _ _ le_rfl hle, List.take_length] at hct
  split at hct
  · cases hct
  · obtain rfl := Except.ok.inj hct
    rw [List.length_take, Ctt.len_ofBytes, Int.toNat_natCast]
    exact (Nat.min_le_left _ _).trans (length_decrypted_le _)

/-- A reply that does not fit is not readable. -/
theorem not_readable_of_long {msgType : UInt16} {reply : Json}
    (htext : bytesOf (jc.toJsonString reply) = text) (hlong : 2015 < text.length)
    (hsent : (respond jc before ct req msgType (some reply)).res = .ok sent) :
    ¬ Readable msgType text sent := by
  intro hread
  obtain ⟨ct', hct, hlen⟩ := tqCryptoAes_encrypt_ok before ct text
  obtain ⟨-, hlen', cont, hcont, hdrop, -⟩ := sent_of_reply htext hct hsent
  have hpad := add_padLen (b := 16) (by omega) text.length
  have hdropLen : (sent.drop 10).length ≤ 2018 := by
    rw [hdrop, List.length_take]
    omega
  have hwhole := hread.whole
  have hcontent : (sentContent sent).length ≤ 2018 := by
    rw [sentContent, List.length_take]
    omega
  have hle := hread.length_le (by rw [contentSSize]; omega)
  -- the content has at most 2018 bytes, so that a text it holds pads to 2032
  rw [hlen', hlen, toNat_ofInt (by omega)] at hwhole
  omega

/-- The reply to a type that is not known keeps the type of the request. -/
theorem not_readable_undef {msgType : UInt16} (htype : ntohs req.toList mTypeOff = msgType)
    (hsent : (respond jc before ct req msgType none).res = .ok sent) :
    ¬ Readable msgType text sent := by
  intro hread
  obtain ⟨hdr, ty, ln, cont, hreq, hhdr, hty, hln, -⟩ := exists_parts req
  have hmsg : ntohs ty 0 = msgType := by rw [← htype, hreq, ntohs_append _ hhdr hty]
  have hoff : (hdr.drop msgOff).length = 6 := by
    rw [List.length_drop, hhdr]
    rfl
  rw [respond, tqReqUndef] at hsent
  simp only [Traced.storeV, Traced.mk_ok_bind] at hsent
  rw [res_tqSerReqResp (toList_writeContent hreq hhdr hty hln _ _) hhdr hty (length_htons _)]
    at hsent
  have hsame := (ntohs_sent (Except.ok.inj hsent).symm hoff hty (length_htons _)).1
  have hnext := hread.type
  rw [hsame, hmsg] at hnext
  -- no number is its own successor
  have hval := congrArg UInt16.toNat hnext
  have hlt := msgType.toNat_lt
  rw [UInt16.toNat_add, show (1 : UInt16).toNat = 1 from rfl] at hval
  omega

end Sent

/-- The reply text that is produced for a datagram: the printed reply of the handler, or the text
for a type that is not known. -/
def replyText (jc : JsonC) (env : Env) (d : Datagram) (s : Server) : List UInt8 :=
  match serve jc env d.cip d.mType (jc.tokenerParse (textOf (decrypted d.content))) s with
  | .ok (_, some reply) => bytesOf (jc.toJsonString reply)
  | .ok (_, none) => bytesOf "Undefined message type!".toList
  | .error _ => []

section Replies

variable {jc : JsonC} {env : Env} {before : UInt8} {fd : UInt32} {d : Datagram} {ct : Ctt}
  {req : Request} {s s' : Server} {sent : List UInt8}

/-- What is sent answers what the handler returned. -/
theorem respond_of_tqSerRecvReq (h : d.Accepted)
    (hres : (tqSerRecvReq jc env before fd d ct req s).res = .ok (s', some sent)) :
    ∃ reply, serve jc env d.cip d.mType (jc.tokenerParse (textOf (decrypted d.content))) s =
        .ok (s', reply) ∧
      ∃ ct' req', ntohs req'.toList mTypeOff = d.mType ∧
        (respond jc before ct' req' d.mType reply).res = .ok sent := by
  have hlive : ¬ KilledByDecryption before d.mContLen := by
    intro hkill
    rw [res_tqSerRecvReq_killed h hkill] at hres
    cases hres
  rw [res_tqSerRecvReq h hlive] at hres
  obtain ⟨⟨s₁, reply⟩, hserve, hres⟩ := Traced.res_bind_eq_ok.mp hres
  obtain ⟨sent', hsent, hres⟩ := Traced.res_bind_eq_ok.mp hres
  cases Except.ok.inj hres
  rw [Traced.res_ofExcept] at hserve
  exact ⟨reply, hserve, _, _, ntohs_decoded h, hsent⟩

/-- **Which replies are readable**: those to the types that are known, as long as `OPEN_INFO` does
not measure too much. -/
theorem readable_iff (hjc : jc.Prints) (h : d.Accepted)
    (hres : (tqSerRecvReq jc env before fd d ct req s).res = .ok (s', some sent)) :
    Readable d.mType (replyText jc env d s) sent ↔
      ∃ t, MsgType.ofCode d.mType = some t ∧ (t = .openInfo → InfoFits jc env s) := by
  obtain ⟨reply, hserve, ct', req', htype, hsent⟩ := respond_of_tqSerRecvReq h hres
  cases reply with
  | none =>
    rw [(serve_eq_none hserve).mp rfl]
    exact ⟨fun hread => absurd hread (not_readable_undef htype hsent), fun ⟨t, ht, _⟩ => nomatch ht⟩
  | some reply =>
    have htext : replyText jc env d s = bytesOf (jc.toJsonString reply) := by
      rw [replyText, hserve]
    have hlen := length_bytesOf_reply hjc hserve
    have hknown : ∃ t, MsgType.ofCode d.mType = some t :=
      Option.ne_none_iff_exists'.mp fun hnone =>
        Option.some_ne_none reply ((serve_eq_none hserve).mpr hnone)
    obtain ⟨t, ht⟩ := hknown
    rw [htext, ht]
    rw [ht, Option.some.injEq] at hlen
    constructor
    · intro hread
      refine ⟨t, rfl, hlen.mp ?_⟩
      by_contra hlong
      exact not_readable_of_long rfl (by omega) hsent hread
    · rintro ⟨t', ht', hfits⟩
      obtain rfl := Option.some.inj ht'
      exact readable_of_fits rfl (hlen.mpr hfits) hsent

/-- Whatever the handler returned is answered. -/
theorem respond_ok (jc : JsonC) (before : UInt8) (ct : Ctt) (req : Request) (msgType : UInt16)
    (reply : Option Json) : ∃ sent, (respond jc before ct req msgType reply).res = .ok sent := by
  cases reply with
  | none => exact ⟨_, rfl⟩
  | some reply =>
    obtain ⟨ct', hct, -⟩ := tqCryptoAes_encrypt_ok before ct (bytesOf (jc.toJsonString reply))
    rw [respond, tqSerRespEncMsg_eq rfl hct]
    exact ⟨_, rfl⟩

theorem tqSerRecvReq_ok (fd : UInt32) (ct : Ctt) (req : Request) {reply : Option Json}
    (h : d.Accepted) (hlive : ¬ KilledByDecryption before d.mContLen)
    (hserve : serve jc env d.cip d.mType (jc.tokenerParse (textOf (decrypted d.content))) s =
      .ok (s', reply)) :
    ∃ sent, (tqSerRecvReq jc env before fd d ct req s).res = .ok (s', some sent) := by
  obtain ⟨sent, hsent⟩ := respond_ok jc before (Ctt.ofBytes (decrypted d.content))
    (decoded (received fd d) d.content) d.mType reply
  refine ⟨sent, ?_⟩
  rw [res_tqSerRecvReq h hlive, hserve]
  exact Traced.res_bind_eq_ok.mpr ⟨_, rfl, Traced.res_bind_eq_ok.mpr ⟨sent, hsent, rfl⟩⟩

end Replies

/-- A request for the version. -/
theorem readable_iff_getVer :
    ∃ s' sent, (tqSerRecvReq (.reading []) (Env.at 0 none) 0 0 (shortDatagram 1001)
        ⟨0, Vector.replicate _ 0⟩ (Vector.replicate _ 0) (serverInit ⟨['0'], []⟩)).res =
          .ok (s', some sent) ∧
      (Readable (shortDatagram 1001).mType (replyText (.reading []) (Env.at 0 none)
          (shortDatagram 1001) (serverInit ⟨['0'], []⟩)) sent ↔
        ∃ t, MsgType.ofCode (shortDatagram 1001).mType = some t ∧
          (t = .openInfo → InfoFits (.reading []) (Env.at 0 none) (serverInit ⟨['0'], []⟩))) := by
  have hserve : serve (.reading []) (Env.at 0 none) (shortDatagram 1001).cip
      (shortDatagram 1001).mType
      ((JsonC.reading []).tokenerParse (textOf (decrypted (shortDatagram 1001).content)))
      (serverInit ⟨['0'], []⟩) = .ok (serverInit ⟨['0'], []⟩,
        some (Json.obj [("phonemac", .string []), ("routername", .string "JCGV".toList)])) := rfl
  have hlive : ¬ KilledByDecryption 0 (shortDatagram 1001).mContLen := by decide
  obtain ⟨sent, hsent⟩ := tqSerRecvReq_ok 0 ⟨0, Vector.replicate _ 0⟩ (Vector.replicate _ 0)
    (by decide) hlive hserve
  exact ⟨_, sent, hsent, readable_iff JsonC.prints_reading_nil (by decide) hsent⟩

/-- The reply to a type that is not known has the type of the request. -/
theorem not_readable_unknown :
    (shortDatagram 2000).Accepted ∧ (JsonC.reading []).Prints ∧
      ∃ s' sent, (tqSerRecvReq (.reading []) (Env.at 0 none) 0 0 (shortDatagram 2000)
          ⟨0, Vector.replicate _ 0⟩ (Vector.replicate _ 0) (serverInit ⟨['0'], []⟩)).res =
            .ok (s', some sent) ∧
        ¬ Readable (shortDatagram 2000).mType (replyText (.reading []) (Env.at 0 none)
          (shortDatagram 2000) (serverInit ⟨['0'], []⟩)) sent := by
  refine ⟨by decide, JsonC.prints_reading_nil, ?_⟩
  have hserve : serve (.reading []) (Env.at 0 none) (shortDatagram 2000).cip
      (shortDatagram 2000).mType
      ((JsonC.reading []).tokenerParse (textOf (decrypted (shortDatagram 2000).content)))
      (serverInit ⟨['0'], []⟩) = .ok (serverInit ⟨['0'], []⟩, none) := rfl
  have hlive : ¬ KilledByDecryption 0 (shortDatagram 2000).mContLen := by decide
  obtain ⟨sent, hsent⟩ := tqSerRecvReq_ok 0 ⟨0, Vector.replicate _ 0⟩ (Vector.replicate _ 0)
    (by decide) hlive hserve
  obtain ⟨reply, hreply, ct', req', htype, hrespond⟩ := respond_of_tqSerRecvReq (by decide) hsent
  obtain rfl : none = reply := congrArg Prod.snd (Except.ok.inj (hserve.symm.trans hreply))
  exact ⟨_, sent, hsent, not_readable_undef htype hrespond⟩

/-! ## A reply that is too long -/

/-- **The reply about nineteen hosts does not fit**: it has 2022 characters. -/
theorem not_accessesInside_crowd :
    (crowdJson 19).Prints ∧ ∃ s s' reply,
      Run.run (step (crowdJson 19)) (serverInit ⟨['0'], []⟩) (crowdEvents 19) = some s ∧
      serve (crowdJson 19) (crowdEnv 19 6) 1 1011 (some (Json.obj [])) s = .ok (s', some reply) ∧
      ¬ AccessesInside (tqSerRespEncMsg (crowdJson 19) 0 ⟨0, Vector.replicate _ 0⟩
        (Vector.replicate _ 0) (1011 + 1) reply).log := by
  refine ⟨JsonC.prints_reading (by decide +kernel), ?_⟩
  have hlong : (crowdReply 19).any (fun r =>
      decide (2015 < (bytesOf ((crowdJson 19).toJsonString r.2)).length)) = true := by
    decide +kernel
  obtain ⟨⟨s, reply⟩, hreply, hlen⟩ := (Option.any_eq_true _ _).mp hlong
  obtain ⟨hs, s', hserve⟩ := crowdReply_eq_some hreply
  refine ⟨s, s', reply, hs, hserve, fun hinside => ?_⟩
  have hle := (accessesInside_encMsg rfl).mp hinside
  exact absurd hle (Nat.not_le.mpr (of_decide_eq_true hlen))

end Tqos
