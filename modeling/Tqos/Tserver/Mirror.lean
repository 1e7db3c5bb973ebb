import Tqos.Lib.SlotTable
import Tqos.Spp.Addresses
import Tqos.Tserver.JsonText
import Tqos.Tserver.System

/-!
# The addresses on both sides

The server keeps the clients and servers whose traffic is doubled in two tables of 64 slots,
`cfg_ctl.ipd` and `cfg_ctl.ips`; the kernel module keeps them in two hash tables. `OPEN_SPP` and
`END_SPEED` change the slots and send a message for every change.

## Main results

* `addAddr_eq`, `addSips_eq` — the searches of the code in terms of a set in a table of slots
* `tqReqStartSpp_eq_ok`, `tqReqStopSpeed_eq_ok` — what the requests do to the slots and the socket
* `exists_mirror` — when every message goes through and the kernel has memory, both sides hold the
  same addresses after any sequence of the two requests
-/

namespace Tqos

open Spp (SppConfigCtx AddrCall SetCall sppConfigInit recv)
open Nl (Garbage)

/-! ## The list of servers -/

/-- The address an element of `viparray` names: what `inet_aton` makes of its text up to a colon, or
what the variable held. -/
def readSip (jc : JsonC) (env : Env) (i : ℕ) (e : Json) : Except Crash UInt32 := do
  let sipS ← strcpyPtr sizeIp (jsonObjectGetString jc e.ptr)
  match (strtok ':' sipS).head? with
  | none => .error .segv
  | some tok => pure ((inetAton tok).getD (env.stack i))

/-- The addresses of the elements of `viparray`, the first of which is number `i`. -/
def readSips (jc : JsonC) (env : Env) : ℕ → List Json → Except Crash (List UInt32)
  | _, [] => pure []
  | i, e :: es => do
    let sip ← readSip jc env i e
    let sips ← readSips jc env (i + 1) es
    pure (sip :: sips)

/-- **What is done for one address**, in terms of a set in a table of slots. -/
theorem addAddr_eq (env : Env) (msg : UInt32 → List UInt8) (ip : UInt32)
    (t : (Fin cliMax → UInt32) × Link) :
    addAddr env msg ip t =
      if (SlotTable.slotFor 0 t.1 ip).isSome then
        (SlotTable.put 0 t.1 ip, send env (msg ip) t.2)
      else t := by
  -- the equations of `addAddr` are not stated by `rw` for a table of this size
  delta addAddr
  by_cases h : ∃ i, t.1 i = ip
  · have hthere : ∃ i, (Fin.find? fun i => decide (t.1 i = ip)) = some i := by
      rw [← Option.isSome_iff_exists]
      simpa using h
    obtain ⟨i, hi⟩ := hthere
    rw [SlotTable.slotFor_of_exists h, hi, Option.isSome_none, if_neg Bool.false_ne_true]
  · have hnone : (Fin.find? fun i => decide (t.1 i = ip)) = none := by simpa using h
    rw [SlotTable.put, SlotTable.slotFor_of_not_exists h, hnone]
    cases Fin.find? fun i => decide (t.1 i = 0) <;> rfl

/-- The address 0, which stands for a free slot, is never put anywhere. -/
theorem addAddr_zero (env : Env) (msg : UInt32 → List UInt8) (t : (Fin cliMax → UInt32) × Link) :
    addAddr env msg 0 t = t := by
  rw [addAddr_eq, if_neg]
  intro hsome
  obtain ⟨i, hi⟩ := Option.isSome_iff_exists.mp hsome
  exact (SlotTable.slotFor_eq_some hi).2.2 rfl

/-- **The loop over `viparray`** reads the addresses and does for each the same. -/
theorem addSips_eq (jc : JsonC) (env : Env) (es : List Json) (i : ℕ)
    (t : (Fin cliMax → UInt32) × Link) :
    addSips jc env es i t = (do
      let sips ← readSips jc env i es
      pure (sips.foldl (fun t sip => addAddr env Nl.sppSipAdd sip t) t)) := by
  induction es generalizing i t with
  | nil => rfl
  | cons e es ih =>
    rw [addSips, readSips, readSip, bind_assoc, bind_assoc]
    congr 1
    funext sipS
    cases (strtok ':' sipS).head? with
    | none => rfl
    | some tok =>
      dsimp only
      rw [ih, ih, pure_bind, bind_assoc]
      split
      · rename_i hzero
        simp only [pure_bind, List.foldl_cons, hzero, addAddr_zero]
      · simp only [pure_bind, List.foldl_cons]

/-! ## The kernel's side -/

/-- The kernel's settings after the messages with the given data, from a freshly loaded module that
always has memory. -/
def kernelAfter (pid : UInt32) (g : ℕ → Garbage) (sent : List (List UInt8)) : SppConfigCtx :=
  sent.zipIdx.foldl (fun ctx m => recv pid true (g m.2) m.1 ctx) sppConfigInit

/-- The kernel acts on the clients and servers that are in slots, and no address is in two. -/
structure Mirror (ipd ips : Fin cliMax → UInt32) (k : SppConfigCtx) : Prop where
  client : ∀ ip, k.HasClient ip ↔ SlotTable.Holds 0 ipd ip
  server : ∀ ip, k.HasServer ip ↔ SlotTable.Holds 0 ips ip
  uniqueClient : SlotTable.Unique 0 ipd
  uniqueServer : SlotTable.Unique 0 ips

/-- What the two requests keep: the tables mirror the slots, and the hash tables are well formed. -/
structure Synced (ipd ips : Fin cliMax → UInt32) (k : SppConfigCtx) : Prop
    extends Mirror ipd ips k where
  distinct : k.Distinct

section Synced

variable {pid : UInt32} {g : ℕ → Garbage} {env : Env} {ipd ips : Fin cliMax → UInt32} {l : Link}

@[simp] theorem kernelAfter_nil (pid : UInt32) (g : ℕ → Garbage) :
    kernelAfter pid g [] = sppConfigInit := rfl

theorem kernelAfter_concat (pid : UInt32) (g : ℕ → Garbage) (sent : List (List UInt8))
    (data : List UInt8) :
    kernelAfter pid g (sent ++ [data]) = recv pid true (g sent.length) data
      (kernelAfter pid g sent) := by
  rw [kernelAfter, kernelAfter, List.zipIdx_append, List.foldl_append, Nat.zero_add]
  rfl

/-- A message that goes through is processed. -/
theorem kernelAfter_send (hsends : ∀ n, env.sends n = true) (data : List UInt8) :
    kernelAfter pid g (send env data l).sent =
      recv pid true (g l.sent.length) data (kernelAfter pid g l.sent) := by
  rw [send, if_pos (hsends _)]
  exact kernelAfter_concat pid g l.sent data

theorem synced_init (pid : UInt32) (g : ℕ → Garbage) :
    Synced (fun _ => 0) (fun _ => 0) (kernelAfter pid g []) where
  client ip := iff_of_false (Spp.not_hasClient_init ip) SlotTable.not_holds_const
  server ip := iff_of_false (Spp.not_hasServer_init ip) SlotTable.not_holds_const
  uniqueClient := SlotTable.unique_const
  uniqueServer := SlotTable.unique_const
  distinct := Spp.distinct_sppConfigInit

/-- A message with a setting is no concern of the addresses. -/
theorem synced_setCall (hsends : ∀ n, env.sends n = true) (c : SetCall)
    (h : Synced ipd ips (kernelAfter pid g l.sent)) :
    Synced ipd ips (kernelAfter pid g (send env c.data l).sent) := by
  have htables := Spp.tables_deliver pid true (kernelAfter pid g l.sent) ⟨c, g l.sent.length⟩
  rw [kernelAfter_send hsends, Spp.recv_setCall]
  refine ⟨⟨fun ip => ?_, fun ip => ?_, h.uniqueClient, h.uniqueServer⟩, ?_⟩
  · rw [Spp.hasClient_congr htables, h.client]
  · rw [Spp.hasServer_congr htables, h.server]
  · exact Spp.distinct_congr htables h.distinct

/-- The message of an address call, and what it does to the sets. -/
theorem kernelAfter_addrCall (pid : UInt32) (g : ℕ → Garbage) (l : Link)
    (hsends : ∀ n, env.sends n = true) (c : AddrCall) :
    kernelAfter pid g (send env c.data l).sent = c.apply true (kernelAfter pid g l.sent) := by
  rw [kernelAfter_send hsends, Spp.recv_addrCall]

theorem synced_sendGaps (hsends : ∀ n, env.sends n = true) (gap : SppCfg)
    (h : Synced ipd ips (kernelAfter pid g l.sent)) :
    Synced ipd ips (kernelAfter pid g (sendGaps env gap l).sent) := by
  have h0 := synced_setCall hsends (.dup 0 (UInt16.ofInt gap.doublegap)) h
  have h1 := synced_setCall hsends (.dup 1 (UInt16.ofInt gap.thirdgap)) h0
  have h2 := synced_setCall hsends (.dup 2 (UInt16.ofInt gap.fourgap)) h1
  exact synced_setCall hsends (.trim (UInt16.ofInt gap.dupgap)) h2

/-- **A client that is added** is added on both sides or on neither. -/
theorem synced_addClient (hsends : ∀ n, env.sends n = true) (ip : UInt32)
    (h : Synced ipd ips (kernelAfter pid g l.sent)) :
    Synced (addAddr env Nl.sppCipAdd ip (ipd, l)).1 ips
      (kernelAfter pid g (addAddr env Nl.sppCipAdd ip (ipd, l)).2.sent) := by
  rw [addAddr_eq]
  split
  · rename_i hslot
    have hk := kernelAfter_addrCall pid g l hsends (.cipAdd ip)
    have hput := SlotTable.unique_put (x := ip) h.uniqueClient
    dsimp only
    rw [show Nl.sppCipAdd ip = (AddrCall.cipAdd ip).data from rfl, hk]
    refine ⟨⟨fun x => ?_, fun x => ?_, hput, h.uniqueServer⟩, Spp.distinct_apply h.distinct _⟩
    · rw [Spp.hasClient_apply h.distinct, h.client, SlotTable.holds_put hslot]
    · rw [Spp.hasServer_apply h.distinct, h.server]
  · exact h

/-- **A server that is added** is added on both sides or on neither. -/
theorem synced_addServer (hsends : ∀ n, env.sends n = true) (ip : UInt32)
    (h : Synced ipd ips (kernelAfter pid g l.sent)) :
    Synced ipd (addAddr env Nl.sppSipAdd ip (ips, l)).1
      (kernelAfter pid g (addAddr env Nl.sppSipAdd ip (ips, l)).2.sent) := by
  rw [addAddr_eq]
  split
  · rename_i hslot
    have hk := kernelAfter_addrCall pid g l hsends (.sipAdd ip)
    have hput := SlotTable.unique_put (x := ip) h.uniqueServer
    dsimp only
    rw [show Nl.sppSipAdd ip = (AddrCall.sipAdd ip).data from rfl, hk]
    refine ⟨⟨fun x => ?_, fun x => ?_, h.uniqueClient, hput⟩, Spp.distinct_apply h.distinct _⟩
    · rw [Spp.hasClient_apply h.distinct, h.client]
    · rw [Spp.hasServer_apply h.distinct, h.server, SlotTable.holds_put hslot]
  · exact h

/-- Any list of servers is added on both sides. -/
theorem synced_addServers (hsends : ∀ n, env.sends n = true) (sips : List UInt32)
    (h : Synced ipd ips (kernelAfter pid g l.sent)) :
    Synced ipd (sips.foldl (fun t sip => addAddr env Nl.sppSipAdd sip t) (ips, l)).1
      (kernelAfter pid g
        (sips.foldl (fun t sip => addAddr env Nl.sppSipAdd sip t) (ips, l)).2.sent) := by
  induction sips generalizing ips l with
  | nil => exact h
  | cons sip sips ih => exact ih (synced_addServer hsends sip h)

/-- **A client that is removed** with a message is removed on both sides. -/
theorem synced_removeClient (hsends : ∀ n, env.sends n = true) (ip : UInt32)
    (h : Synced ipd ips (kernelAfter pid g l.sent)) :
    Synced (SlotTable.clear 0 ipd ip) ips
      (kernelAfter pid g (send env (Nl.sppCipDel ip) l).sent) := by
  have hk := kernelAfter_addrCall pid g l hsends (.cipDel ip)
  have hclear := SlotTable.unique_clear (x := ip) h.uniqueClient
  rw [show Nl.sppCipDel ip = (AddrCall.cipDel ip).data from rfl, hk]
  refine ⟨⟨fun x => ?_, fun x => ?_, hclear, h.uniqueServer⟩, Spp.distinct_apply h.distinct _⟩
  · rw [Spp.hasClient_apply h.distinct, h.client, SlotTable.holds_clear]
  · rw [Spp.hasServer_apply h.distinct, h.server]

/-- So is one in several slots, for each of which the message is sent. -/
theorem synced_clear (hsends : ∀ n, env.sends n = true) (ip : UInt32) (n : ℕ)
    (h : Synced ipd ips (kernelAfter pid g l.sent)) :
    Synced (SlotTable.clear 0 ipd ip) ips
      (kernelAfter pid g ((send env (Nl.sppCipDel ip))^[n + 1] l).sent) := by
  induction n with
  | zero => exact synced_removeClient hsends ip h
  | succ n ih =>
    have hagain := synced_removeClient hsends ip ih
    rw [SlotTable.clear_clear] at hagain
    rwa [Function.iterate_succ_apply']

end Synced

/-! ## The requests -/

/-- A text the loop over `viparray` can read: not too long, and not only colons. -/
def ServerText (text : List Char) : Prop :=
  (cstr text).length < sizeIp ∧ ∃ c ∈ cstr text, c ≠ ':'

/-- What begins with a character that is neither a colon nor NUL, and is short, can be read. -/
theorem serverText_cons {c : Char} {text : List Char} (hcolon : c ≠ ':') (hnul : c ≠ '\x00')
    (hlen : (c :: text).length < sizeIp) : ServerText (c :: text) := by
  have hcstr : cstr (c :: text) = c :: cstr text := List.takeWhile_cons_of_pos (by simpa using hnul)
  refine ⟨(List.takeWhile_sublist _).length_le.trans_lt hlen, c, ?_, hcolon⟩
  rw [hcstr]
  exact List.mem_cons_self

/-- The text of an address begins with a digit. -/
theorem exists_digit_inetNtoa (ip : UInt32) : ∃ c rest, inetNtoa ip = c :: rest ∧ c.isDigit := by
  obtain ⟨a, b, l, hl⟩ : ∃ a b l, le32 ip = a :: b :: l := ⟨_, _, _, rfl⟩
  obtain ⟨c, ds, hds⟩ : ∃ c ds, Nat.toDigits 10 a.toNat = c :: ds :=
    List.exists_cons_of_ne_nil (List.ne_nil_of_length_pos Nat.length_toDigits_pos)
  refine ⟨c, _, by rw [inetNtoa, hl, List.map_cons, List.map_cons, hds,
    List.intercalate_cons_cons, List.cons_append, List.cons_append], ?_⟩
  exact Nat.isDigit_of_mem_toDigits (by decide) (by decide) (hds ▸ List.mem_cons_self)

/-- **A dotted quad, with a port behind a colon or without**, can be read. -/
theorem serverText_quad (ip : UInt32) (port : Option UInt16) :
    ServerText (inetNtoa ip ++ (port.map fun p => ':' :: Nat.toDigits 10 p.toNat).getD []) := by
  have hport : ((port.map fun p => ':' :: Nat.toDigits 10 p.toNat).getD []).length ≤ 6 := by
    cases port with
    | none => exact Nat.zero_le _
    | some p =>
      have hdigits : (Nat.toDigits 10 p.toNat).length ≤ 5 :=
        (Nat.length_toDigits_le_iff (by decide) (by decide)).mpr
          (lt_of_lt_of_le p.toNat_lt (by decide))
      exact Nat.succ_le_succ hdigits
  have hquad := length_inetNtoa_le ip
  obtain ⟨c, rest, hc, hdigit⟩ := exists_digit_inetNtoa ip
  rw [hc] at hquad ⊢
  rw [List.cons_append]
  refine serverText_cons ?_ ?_ ?_
  · rintro rfl
    exact absurd hdigit (by decide)
  · rintro rfl
    exact absurd hdigit (by decide)
  · rw [List.length_cons, List.length_append, sizeIp]
    rw [List.length_cons] at hquad
    omega

/-- A text that is not only separators has a token. -/
theorem strtok_ne_nil {sep : Char} {s : List Char} (h : ∃ c ∈ s, c ≠ sep) : strtok sep s ≠ [] := by
  have hpart : ∃ t ∈ s.splitOn sep, t ≠ [] := by
    induction s with
    | nil =>
      obtain ⟨c, hc, -⟩ := h
      exact absurd hc List.not_mem_nil
    | cons x s ih =>
      obtain ⟨t, ts, hts⟩ := List.exists_cons_of_ne_nil (List.splitOn_ne_nil sep s)
      rw [List.splitOn_cons_eq_if_modifyHead]
      split
      · rename_i hx
        obtain ⟨c, hc, hne⟩ := h
        rcases List.mem_cons.mp hc with rfl | hc
        · exact absurd (by simpa using hx) hne
        · obtain ⟨t, ht, hnil⟩ := ih ⟨c, hc, hne⟩
          exact ⟨t, List.mem_cons_of_mem _ ht, hnil⟩
      · rw [hts]
        exact ⟨x :: t, List.mem_cons_self, List.cons_ne_nil x t⟩
  obtain ⟨t, ht, hne⟩ := hpart
  exact List.ne_nil_of_mem (List.mem_filter.mpr ⟨ht, by simpa using hne⟩)

/-- A list of such texts is read to its end. -/
theorem exists_readSips (jc : JsonC) (env : Env) (i : ℕ) {es : List Json}
    (h : ∀ e ∈ es, ∃ text, e = .string text ∧ ServerText text) :
    ∃ sips, readSips jc env i es = .ok sips := by
  induction es generalizing i with
  | nil => exact ⟨[], rfl⟩
  | cons e es ih =>
    obtain ⟨text, rfl, hlen, hchar⟩ := h e List.mem_cons_self
    obtain ⟨sips, hsips⟩ := ih (i + 1) fun e he => h e (List.mem_cons_of_mem _ he)
    obtain ⟨tok, toks, htoks⟩ := List.exists_cons_of_ne_nil (strtok_ne_nil hchar)
    have hread : readSip jc env i (.string text) =
        .ok ((inetAton tok).getD (env.stack i)) := by
      show strcpy sizeIp (cstr text) >>= _ = _
      rw [strcpy, if_pos hlen]
      show (match (strtok ':' (cstr text)).head? with
        | none => (.error .segv : Except Crash UInt32)
        | some tok => pure ((inetAton tok).getD (env.stack i))) = _
      rw [htoks]
      rfl
    refine ⟨(inetAton tok).getD (env.stack i) :: sips, ?_⟩
    rw [readSips, hread, hsips]
    rfl

/-- The elements of `viparray`. -/
def vipArray (js : Option Json) : List Json :=
  arrayElems (js.bind fun j => jsonObjectObjectGetEx j "viparray")

/-- The gaps an object asks for. -/
theorem readGaps_some (jo : Json) :
    readGaps (some jo) = .ok ⟨clampGap 10 200 (gapOr 10 (intField jo "doublegap")),
      clampGap 10 200 (gapOr 0 (intField jo "thirdgap")),
      clampGap 10 200 (gapOr 0 (intField jo "fourgap")),
      clampGap 20 100 (gapOr 20 (intField jo "dupgap"))⟩ := by
  rw [readGaps, tqJsonGetInt_some, tqJsonGetInt_some, tqJsonGetInt_some, tqJsonGetInt_some]
  rfl

/-- **What a served `OPEN_SPP` does** to the addresses and to the socket. -/
theorem tqReqStartSpp_eq_ok {jc : JsonC} {env : Env} {cip : UInt32} {js : Option Json}
    {s s' : Server} {reply : Json} (h : tqReqStartSpp jc env cip js s = .ok (s', reply)) :
    ∃ gap sips, readGaps js = .ok gap ∧ readSips jc env 0 (vipArray js) = .ok sips ∧
      s'.cfg.ipd = (addAddr env Nl.sppCipAdd cip (s.cfg.ipd, sendGaps env gap s.link)).1 ∧
      (s'.cfg.ips, s'.link) = sips.foldl (fun t sip => addAddr env Nl.sppSipAdd sip t)
        (s.cfg.ips, (addAddr env Nl.sppCipAdd cip (s.cfg.ipd, sendGaps env gap s.link)).2) := by
  simp only [tqReqStartSpp, bind_eq_ok] at h
  obtain ⟨gap, hgap, -, -, array, harray, -, -, ips, hips, h⟩ := h
  obtain rfl := congrArg Prod.fst (Except.ok.inj h)
  have hlist : arrayElems array = vipArray js := by
    cases js with
    | none => cases harray
    | some j =>
      obtain rfl := Except.ok.inj harray
      rfl
  rw [addSips_eq, bind_eq_ok, hlist] at hips
  obtain ⟨sips, hsips, hips⟩ := hips
  refine ⟨gap, sips, hgap, hsips, rfl, ?_⟩
  rw [Except.ok.inj hips]

/-- An `OPEN_SPP` whose list can be read is served. -/
theorem exists_tqReqStartSpp {jc : JsonC} {env : Env} {js : Json} {sips : List UInt32}
    (cip : UInt32) (s : Server) (h : readSips jc env 0 (vipArray (some js)) = .ok sips) :
    ∃ r, tqReqStartSpp jc env cip (some js) s = .ok r := by
  obtain ⟨mac, hmac⟩ := exists_tqJsonGetString js "phonemac"
  simp only [tqReqStartSpp, addSips_eq, bind_eq_ok]
  exact ⟨_, _, readGaps_some js, _, tqJsonGetInt_some js "token", _, rfl, mac, hmac, _,
    ⟨sips, h, rfl⟩, rfl⟩

/-- What a served `END_SPEED` does to the addresses and to the socket. -/
theorem tqReqStopSpeed_eq_ok {env : Env} {cip : UInt32} {js : Option Json}
    {s s' : Server} {reply : Json} (h : tqReqStopSpeed env cip js s = .ok (s', reply)) :
    s'.cfg.ipd = SlotTable.clear 0 s.cfg.ipd cip ∧ s'.cfg.ips = s.cfg.ips ∧
      s'.link = (send env (Nl.sppCipDel cip))^[(List.finRange cliMax).countP
        fun i => decide (s.cfg.ipd i = cip)] s.link := by
  simp only [tqReqStopSpeed, bind_eq_ok] at h
  obtain ⟨-, -, -, -, h⟩ := h
  obtain rfl := congrArg Prod.fst (Except.ok.inj h)
  exact ⟨rfl, rfl, rfl⟩

theorem exists_tqReqStopSpeed (env : Env) (cip : UInt32) (js : Json) (s : Server) :
    ∃ r, tqReqStopSpeed env cip (some js) s = .ok r := by
  obtain ⟨mac, hmac⟩ := exists_tqJsonGetString js "phonemac"
  simp only [tqReqStopSpeed, bind_eq_ok]
  exact ⟨_, _, tqJsonGetInt_some js "token", mac, hmac, rfl⟩

/-- The requests that change the addresses, when every message goes through. -/
inductive SppRequest : Event → Prop
  /-- A client asks for a list of servers. -/
  | openSpp (cip : UInt32) (js : Json) (env : Env) (hcip : cip ≠ 0)
      (hlist : ∀ e ∈ vipArray (some js), ∃ text, e = .string text ∧ ServerText text)
      (hsends : ∀ n, env.sends n = true) :
      SppRequest (.request MsgType.openSpp.code cip (some js) env)
  /-- A client stops. -/
  | endSpeed (cip : UInt32) (js : Json) (env : Env) (hsends : ∀ n, env.sends n = true) :
      SppRequest (.request MsgType.endSpeed.code cip (some js) env)

/-- The slots and the kernel's tables agree in a state of the server. -/
abbrev Server.Synced (pid : UInt32) (g : ℕ → Garbage) (s : Server) : Prop :=
  Tqos.Synced s.cfg.ipd s.cfg.ips (kernelAfter pid g s.link.sent)

section Runs

variable {pid : UInt32} {g : ℕ → Garbage} {jc : JsonC} {s : Server} {e : Event}

/-- What an `OPEN_SPP` that was served keeps. -/
theorem synced_openSpp {env : Env} {cip : UInt32} {js : Option Json} {s' : Server} {reply : Json}
    (hsends : ∀ n, env.sends n = true) (hs : s.Synced pid g)
    (h : tqReqStartSpp jc env cip js s = .ok (s', reply)) : s'.Synced pid g := by
  obtain ⟨gap, sips, -, -, hipd, hips⟩ := tqReqStartSpp_eq_ok h
  have hservers := synced_addServers hsends sips
    (synced_addClient hsends cip (synced_sendGaps hsends gap hs))
  rwa [← hips, ← hipd] at hservers

/-- What an `END_SPEED` that was served keeps. -/
theorem synced_endSpeed {env : Env} {cip : UInt32} {js : Option Json} {s' : Server} {reply : Json}
    (hsends : ∀ n, env.sends n = true) (hs : s.Synced pid g)
    (h : tqReqStopSpeed env cip js s = .ok (s', reply)) : s'.Synced pid g := by
  obtain ⟨hipd, hips, hlink⟩ := tqReqStopSpeed_eq_ok h
  rw [Server.Synced, hipd, hips, hlink]
  cases hhits : (List.finRange cliMax).countP fun i => decide (s.cfg.ipd i = cip) with
  | zero =>
    have hnone : ∀ i, s.cfg.ipd i ≠ cip := by
      intro i
      simpa using List.countP_eq_zero.mp hhits i (List.mem_finRange i)
    rw [SlotTable.clear_of_forall_ne hnone]
    exact hs
  | succ n => exact synced_clear hsends cip n hs

/-- **One request** is served and keeps both sides the same. -/
theorem synced_step (he : SppRequest e) (h : s.Synced pid g) :
    ∃ s', step jc s e = some s' ∧ s'.Synced pid g := by
  cases he with
  | openSpp cip js env hcip hlist hsends =>
    obtain ⟨sips, hsips⟩ := exists_readSips jc env 0 hlist
    obtain ⟨⟨s', reply⟩, hr⟩ := exists_tqReqStartSpp cip s hsips
    refine ⟨s', ?_, synced_openSpp hsends h hr⟩
    show Option.map Prod.fst ((tqReqStartSpp jc env cip (some js) s >>= fun r =>
      pure (r.1, some r.2)).toOption) = some s'
    rw [hr]
    rfl
  | endSpeed cip js env hsends =>
    obtain ⟨⟨s', reply⟩, hr⟩ := exists_tqReqStopSpeed env cip js s
    refine ⟨s', ?_, synced_endSpeed hsends h hr⟩
    show Option.map Prod.fst ((tqReqStopSpeed env cip (some js) s >>= fun r =>
      pure (r.1, some r.2)).toOption) = some s'
    rw [hr]
    rfl

/-- **Both sides hold the same addresses** after any sequence of requests that change them, each
address once. -/
theorem exists_mirror (pid : UInt32) (g : ℕ → Garbage) (jc : JsonC) (nvram : Nvram)
    (es : List Event) (hes : ∀ e ∈ es, SppRequest e) :
    ∃ s, Run.run (step jc) (serverInit nvram) es = some s ∧
      Mirror s.cfg.ipd s.cfg.ips (kernelAfter pid g s.link.sent) := by
  have hsynced : ∃ s, Run.run (step jc) (serverInit nvram) es = some s ∧ s.Synced pid g := by
    induction es using List.reverseRecOn with
    | nil => exact ⟨_, rfl, synced_init pid g⟩
    | append_singleton es e ih =>
      obtain ⟨s, hs, hsync⟩ := ih fun e he => hes e (List.mem_append_left _ he)
      obtain ⟨s', hs', hsync'⟩ := synced_step
        (hes e (List.mem_append_right _ List.mem_cons_self)) hsync
      exact ⟨s', Run.run_concat_eq_some.mpr ⟨s, hs, hs'⟩, hsync'⟩
  obtain ⟨s, hs, h⟩ := hsynced
  exact ⟨s, hs, h.toMirror⟩

end Runs

/-- A client at 192.168.1.10 asks for two servers and then stops. -/
def askAndStop : List Event :=
  [.request MsgType.openSpp.code 0x0A01A8C0 (some (Json.obj [("viparray",
      .array [.str "10.0.0.1:80", .str "10.0.0.2"])])) (Env.at 0 none),
    .request MsgType.endSpeed.code 0x0A01A8C0 (some (Json.obj [])) (Env.at 0 none)]

theorem exists_mirror_askAndStop : ∃ s,
    Run.run (step (JsonC.reading [])) (serverInit ⟨['0'], []⟩) askAndStop = some s ∧
      Mirror s.cfg.ipd s.cfg.ips (kernelAfter 7 (fun _ => ⟨0, [0, 0]⟩) s.link.sent) := by
  refine exists_mirror 7 (fun _ => ⟨0, [0, 0]⟩) (JsonC.reading []) ⟨['0'], []⟩ askAndStop ?_
  intro e he
  simp only [askAndStop, List.mem_cons, List.not_mem_nil, or_false] at he
  rcases he with rfl | rfl
  · refine .openSpp _ _ _ (by decide) ?_ fun _ => rfl
    intro e he
    have hlist : e ∈ [Json.str "10.0.0.1:80", Json.str "10.0.0.2"] := he
    simp only [List.mem_cons, List.not_mem_nil, or_false] at hlist
    rcases hlist with rfl | rfl
    · exact ⟨_, rfl, serverText_quad 0x0100000A (some 80)⟩
    · exact ⟨_, rfl, serverText_quad 0x0200000A none⟩
  · exact .endSpeed _ _ _ fun _ => rfl

end Tqos
