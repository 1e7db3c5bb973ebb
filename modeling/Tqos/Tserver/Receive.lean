import Tqos.Tserver.System

/-!
# From the datagram to the reply

`tq_ser_recv_req` receives a datagram into `g_req` and checks the length it claims to have.
`tq_request_parse` decrypts the content in place, calls the handler, and sends back what is then in
`g_req`. Every access to `g_req` and to the content buffer is logged. The bytes behind the end of
`g_req` belong to other variables, which ones is up to the linker; that they are overwritten is in
the log, and has no other effect here.

## Layout

On the 32-bit target `struct request_s` has the socket at 0, the address of the client at 4 and the
message at 20. The message has its type at 6, the length of its content at 8 and its content at 10,
both numbers in network order. The structure is padded to 12 bytes, two more than where its content
starts.

## Logging

The content is logged after it is decrypted, and that is left out. A content of more than about 225
characters overruns the `msg[256]` of `LOG_P`, which shows when `tq_request_parse` returns, after
the handler.

## Main results

* `recvMsg_eq` — which datagrams are accepted, and what is then in `g_req`
* `step_of_tqSerRecvReq` — a datagram that is answered is a request of the running server
* `not_assertFail_iff` — which datagrams do not abort the server
* `not_writesInside` — every accepted datagram makes the server write outside of its buffers
-/

namespace Tqos

open Aes

/-! ## The buffer -/

/-- `SIZE_BUF_MAX`. -/
abbrev sizeBufMax : ℕ := sizeBase * 2

/-- `sizeof(struct req_msg)`. -/
abbrev sizeofReqMsg : ℕ := 12

/-- `sizeof(struct request_s)`. -/
abbrev sizeofRequest : ℕ := 32

/-- `SIZE_BUF_MSG`. -/
abbrev sizeBufMsg : ℕ := sizeBufMax - sizeofRequest + sizeofReqMsg

/-- `SIZE_BUF_CTT`. -/
abbrev sizeBufCtt : ℕ := sizeBufMax - sizeofRequest

/-- Where `cli_addr` is. -/
abbrev cliAddrOff : ℕ := 4

/-- Where `cli_addr.sin_addr` is. -/
abbrev sinAddrOff : ℕ := cliAddrOff + 4

/-- Where `msg` is. -/
abbrev msgOff : ℕ := 20

/-- Where `msg.m_type` is. -/
abbrev mTypeOff : ℕ := msgOff + 6

/-- Where `msg.m_cont_len` is. -/
abbrev mContLenOff : ℕ := msgOff + 8

/-- Where `msg.m_cont` is. -/
abbrev mContOff : ℕ := msgOff + 10

/-- `g_req`. -/
abbrev Request := Vector UInt8 sizeBufMax

/-- `ntohs` of two bytes of memory. -/
def ntohs (l : List UInt8) (off : ℕ) : UInt16 :=
  UInt16.ofNat ((l.getD off 0).toNat * 256 + (l.getD (off + 1) 0).toNat)

/-- The two bytes of `htons`. -/
def htons (v : UInt16) : List UInt8 := (le16 v).reverse

/-- A C string of bytes as text, up to the first NUL. -/
def textOf (l : List UInt8) : List Char := cstr (l.map fun b => Char.ofNat b.toNat)

/-- A text as a C string of bytes, with the NUL. -/
def bytesOf (s : List Char) : List UInt8 := ((cstr s).map fun c => UInt8.ofNat c.toNat) ++ [0]

/-- Zeros behind a string do not belong to it. -/
theorem textOf_append_zeros (l : List UInt8) (k : ℕ) :
    textOf (l ++ List.replicate k 0) = textOf l := by
  rw [textOf, textOf, cstr, cstr, List.map_append, List.takeWhile_append, List.map_replicate]
  split
  · rename_i hall
    rw [(List.takeWhile_prefix _).eq_of_length hall]
    cases k <;> simp [List.replicate_succ]
  · rfl

/-! ## `tq_ser_recv_req` -/

/-- A datagram with the address it comes from, a `struct sockaddr_in`. -/
structure Datagram where
  addr : Vector UInt8 16
  bytes : List UInt8

namespace Datagram

/-- What `recvfrom` stores. -/
def msg (d : Datagram) : List UInt8 := d.bytes.take (sizeBufMsg - 1)

/-- `ntohs(msg.m_type)`. -/
def mType (d : Datagram) : UInt16 := ntohs d.msg 6

/-- `ntohs(msg.m_cont_len)`. -/
def mContLen (d : Datagram) : ℕ := (ntohs d.msg 8).toNat

/-- The content, as long as it says. -/
def content (d : Datagram) : List UInt8 := (d.msg.drop 10).take d.mContLen

/-- The number of the client's address. -/
def cip (d : Datagram) : UInt32 := UInt32.ofNat (natLE ((d.addr.toList.drop 4).take 4))

/-- The datagram has all of the content it says it has. -/
def Accepted (d : Datagram) : Prop := d.mContLen + 10 ≤ d.msg.length

instance (d : Datagram) : Decidable d.Accepted := inferInstanceAs (Decidable (_ ≤ _))

theorem length_msg_le (d : Datagram) : d.msg.length ≤ 2027 := by
  rw [msg, List.length_take]
  exact Nat.min_le_left _ _

theorem length_content {d : Datagram} (h : d.Accepted) : d.content.length = d.mContLen := by
  rw [Accepted] at h
  rw [content, List.length_take, List.length_drop]
  omega

theorem mContLen_le {d : Datagram} (h : d.Accepted) : d.mContLen ≤ 2017 := by
  have := d.length_msg_le
  rw [Accepted] at h
  omega

end Datagram

/-- `tq_ser_recv_req` up to the check of the length: the request, if it is accepted. -/
def recvMsg (fd : UInt32) (d : Datagram) (req : Request) : Traced Crash Buf (Option Request) := do
  let req ← Traced.storeV .gReq req 0 (List.replicate sizeBufMax 0)
  let req ← Traced.storeV .gReq req 0 (le32 fd)
  let req ← Traced.storeV .gReq req msgOff (d.bytes.take (sizeBufMsg - 1))
  let req ← Traced.storeV .gReq req cliAddrOff d.addr.toList
  let n := min d.bytes.length (sizeBufMsg - 1)
  let orignal : ℤ := (ntohs req.toList mContLenOff).toNat + sizeofReqMsg
  if n = 0 then pure none
  else if orignal - n ≤ 2 then pure (some req)
  else pure none

/-- What is in `g_req` when the datagram has been received. -/
def received (fd : UInt32) (d : Datagram) : Request :=
  blitV (blitV (blitV (Vector.replicate sizeBufMax 0) (0 : ℕ) (le32 fd)) msgOff d.msg) cliAddrOff
    d.addr.toList

/-- The socket, the address and the message stand one behind the other. -/
theorem toList_received (fd : UInt32) (d : Datagram) :
    (received fd d).toList =
      le32 fd ++ (d.addr.toList ++ (d.msg ++ List.replicate (2028 - d.msg.length) 0)) := by
  have hparts : List.replicate sizeBufMax (0 : UInt8) =
      [] ++ (List.replicate 4 0 ++ (List.replicate 16 0 ++ (List.replicate d.msg.length 0 ++
        List.replicate (2028 - d.msg.length) 0))) := by
    have hmsg := d.length_msg_le
    rw [List.nil_append, List.replicate_append_replicate, List.replicate_append_replicate,
      List.replicate_append_replicate]
    congr 1
    rw [sizeBufMax, sizeBase]
    omega
  have hfd : (le32 fd).length = (List.replicate 4 (0 : UInt8)).length := by simp
  have haddr : d.addr.toList.length = (List.replicate 16 (0 : UInt8)).length := by simp
  have hoff : (le32 fd ++ List.replicate 16 (0 : UInt8)).length = msgOff := by simp
  rw [received, toList_blitV, toList_blitV, toList_blitV, Vector.toList_replicate, hparts,
    blit_append List.length_nil hfd, List.nil_append, ← List.append_assoc (le32 fd),
    blit_append hoff (by simp), List.append_assoc, blit_append (by simp) haddr]

/-- What is read of the message is what was received. -/
theorem getD_received (fd : UInt32) (d : Datagram) (i : ℕ) :
    (received fd d).toList.getD (msgOff + i) 0 = d.msg.getD i 0 := by
  have hoff : msgOff = (le32 fd ++ d.addr.toList).length := by simp
  rw [toList_received, ← List.append_assoc, hoff, List.getD_eq_getElem?_getD,
    List.getElem?_append_right (by omega), Nat.add_sub_cancel_left]
  rcases Nat.lt_or_ge i d.msg.length with hi | hi
  · rw [List.getElem?_append_left hi, List.getD_eq_getElem?_getD]
  · rw [List.getElem?_append_right hi, List.getElem?_replicate, List.getD_eq_getElem?_getD,
      List.getElem?_eq_none hi]
    split <;> rfl

theorem ntohs_received (fd : UInt32) (d : Datagram) (i : ℕ) :
    ntohs (received fd d).toList (msgOff + i) = ntohs d.msg i := by
  rw [ntohs, ntohs, getD_received, Nat.add_assoc, getD_received]

/-- The content stands at its place, with what follows behind it. -/
theorem content_received (fd : UInt32) {d : Datagram} (h : d.Accepted) :
    ((received fd d).toList.drop mContOff).take d.mContLen = d.content := by
  have hoff : mContOff = (le32 fd ++ d.addr.toList).length + 10 := by simp
  rw [Datagram.Accepted] at h
  rw [toList_received, ← List.append_assoc, hoff, ← List.drop_drop, List.drop_left,
    List.drop_append_of_le_length (by omega), List.take_append_of_le_length (by simp; omega)]
  rfl

/-- **What is accepted**, and what `g_req` then holds. -/
theorem recvMsg_eq (fd : UInt32) (d : Datagram) (req : Request) :
    (recvMsg fd d req).res = .ok (if d.Accepted then some (received fd d) else none) := by
  have hclear : blitV req 0 (List.replicate sizeBufMax 0) = Vector.replicate sizeBufMax 0 := by
    rw [← Vector.toList_inj, toList_blitV, blit_zero_of_length_eq (by simp)]
    simp
  have hreq : blitV (blitV (blitV (Vector.replicate sizeBufMax 0) 0 (le32 fd)) msgOff
      (d.bytes.take (sizeBufMsg - 1))) cliAddrOff d.addr.toList = received fd d := rfl
  have hn : min d.bytes.length (sizeBufMsg - 1) = d.msg.length := by
    rw [Datagram.msg, List.length_take, Nat.min_comm]
  have hlen : ((ntohs (received fd d).toList mContLenOff).toNat : ℤ) = d.mContLen := by
    rw [mContLenOff, ntohs_received]
    rfl
  have hiff : (d.mContLen : ℤ) + sizeofReqMsg - d.msg.length ≤ 2 ↔ d.Accepted := by
    rw [Datagram.Accepted, sizeofReqMsg]
    omega
  simp only [recvMsg, Traced.storeV, Traced.mk_ok_bind, hclear, hreq, hn, hlen, hiff]
  by_cases hzero : d.msg.length = 0
  · have hacc : ¬ d.Accepted := by
      rw [Datagram.Accepted]
      omega
    rw [if_pos hzero, if_neg hacc]
    rfl
  · rw [if_neg hzero]
    by_cases hacc : d.Accepted
    · rw [if_pos hacc, if_pos hacc]
      rfl
    · rw [if_neg hacc, if_neg hacc]
      rfl

/-! ## Decrypting the content -/

/-- `tq_ser_req_dec_msg`. -/
def tqSerReqDecMsg (before : UInt8) (ct : Ctt) (req : Request) :
    Traced Crash Buf (Ctt × Request) := do
  let len : ℕ := (ntohs req.toList mContLenOff).toNat
  let ct ← tqCryptoAes before ct (req.toList.drop mContOff) len .decrypt
  let req ← Traced.storeV .gReq req mContOff (List.replicate sizeBufMsg 0)
  let bytes ← Traced.load .con ct.con.toList 0 ct.len.toNat
  let req ← Traced.storeV .gReq req mContOff bytes
  let req ← Traced.storeV .gReq req mContLenOff (htons (UInt16.ofInt ct.len))
  pure (ct, req)

/-- The process is killed while it decrypts `n` bytes: there are none, and the byte in front of the
output makes the length negative. -/
def KilledByDecryption (before : UInt8) (n : ℕ) : Prop :=
  n = 0 ∧ 0 < before.toNat ∧ before.toNat ≤ 16

instance (before : UInt8) (n : ℕ) : Decidable (KilledByDecryption before n) :=
  inferInstanceAs (Decidable (_ ∧ _))

/-- The request after its content `c` was decrypted. -/
def decoded (req : Request) (c : List UInt8) : Request :=
  blitV (blitV (blitV req mContOff (List.replicate sizeBufMsg 0)) mContOff (decrypted c)) mContLenOff
    (htons (UInt16.ofInt (decrypted c).length))

theorem length_decrypted_le (c : List UInt8) : (decrypted c).length ≤ c.length := by
  rw [decrypted, List.length_take, length_plainOf]
  exact Nat.min_le_right _ _

@[simp] theorem decrypted_nil : decrypted [] = [] :=
  List.eq_nil_of_length_eq_zero (Nat.le_zero.mp (length_decrypted_le []))

/-- Decryption of nothing: what is done depends on the byte in front of the output. -/
theorem tqCrypto_decrypt_nil (before : UInt8) :
    tqCrypto before (Ctt.ofBytes []) .decrypt =
      (⟨.ok (), decryptLog 0⟩ : Traced Crash Buf Unit) >>= fun _ =>
        if 0 < before.toNat ∧ before.toNat ≤ 16 then
          fillContent (Ctt.ofBytes []).con .output [] ((0 : ℕ) - before.toNat)
        else fillContent (Ctt.ofBytes []).con .output [] (0 : ℕ) := by
  have hplain : plainOf ((Ctt.ofBytes []).con.toList.take 0) = [] :=
    List.eq_nil_of_length_eq_zero (by rw [length_plainOf, List.take_zero, List.length_nil])
  have hlast : byteAt before [] ((0 : ℕ) - 1 : ℤ) = before := rfl
  rw [tqCrypto_decrypt_eq before (n := 0) (by simp) (by omega), hplain, hlast]

/-- **Decryption of any content**: the process is killed, or the text is left in `ct`. -/
theorem res_tqCryptoAes_decrypt (before : UInt8) (ct : Ctt) (data : List UInt8) {n : ℕ}
    (hn : n ≤ data.length) (hle : n ≤ contentSSize) :
    (tqCryptoAes before ct data n .decrypt).res =
      if KilledByDecryption before n then .error .segv
      else .ok (Ctt.ofBytes (decrypted (data.take n))) := by
  rw [res_tqCryptoAes before ct hn]
  rcases Nat.eq_zero_or_pos n with rfl | hpos
  · rw [List.take_zero, tqCrypto_decrypt_nil, Traced.mk_ok_bind, decrypted_nil]
    by_cases hkill : 0 < before.toNat ∧ before.toNat ≤ 16
    · rw [if_pos hkill, if_pos ⟨rfl, hkill⟩, fillContent_neg _ _ _ (by omega)]
    · rw [if_neg hkill, if_neg fun h => hkill h.2, fillContent_eq _ _ (by simp)]
      rfl
  · have hkill : ¬ KilledByDecryption before n := fun h => hpos.ne' h.1
    have hlen : (data.take n).length = n := by rw [List.length_take]; omega
    have htake : (Ctt.ofBytes (data.take n)).con.toList.take n = data.take n := by
      have h := Ctt.take_con_ofBytes (l := data.take n) (by omega)
      rwa [hlen] at h
    rw [if_neg hkill, tqCrypto_decrypt before (by rw [Ctt.len_ofBytes, hlen]) hpos hle, htake]

/-- When the process is killed it is by a copy of almost 4 GiB into `ct->con`. -/
theorem mem_log_of_killed {before : UInt8} {n : ℕ} (h : KilledByDecryption before n) (ct : Ctt)
    (data : List UInt8) :
    ⟨.con, .write, 0, (2 ^ 32 + ((0 : ℕ) - before.toNat : ℤ)).toNat⟩ ∈
      (tqCryptoAes before ct data n .decrypt).log := by
  obtain ⟨rfl, hkill⟩ := h
  rw [tqCryptoAes, fillContent_eq _ _ (Nat.zero_le _), List.take_zero]
  refine Traced.mem_log_bind_right rfl ?_
  rw [tqCrypto_decrypt_nil, if_pos hkill, fillContent_neg _ _ _ (by omega)]
  exact Traced.mem_log_bind_right rfl (by simp)

/-- The content is decrypted in place. -/
theorem res_tqSerReqDecMsg (before : UInt8) (ct : Ctt) (fd : UInt32) {d : Datagram}
    (h : d.Accepted) :
    (tqSerReqDecMsg before ct (received fd d)).res =
      if KilledByDecryption before d.mContLen then .error .segv
      else .ok (Ctt.ofBytes (decrypted d.content), decoded (received fd d) d.content) := by
  have hlen : (ntohs (received fd d).toList mContLenOff).toNat = d.mContLen := by
    rw [mContLenOff, ntohs_received]
    rfl
  have hcl := Datagram.mContLen_le h
  have hdata : d.mContLen ≤ ((received fd d).toList.drop mContOff).length := by
    rw [List.length_drop, Vector.length_toList]
    exact hcl.trans (by decide)
  have hcrypt := res_tqCryptoAes_decrypt before ct _ hdata (hcl.trans (by decide))
  rw [content_received fd h] at hcrypt
  have htake : (Ctt.ofBytes (decrypted d.content)).con.toList.take (decrypted d.content).length =
      decrypted d.content := by
    refine Ctt.take_con_ofBytes ((length_decrypted_le _).trans ?_)
    rw [Datagram.length_content h, contentSSize]
    omega
  by_cases hkill : KilledByDecryption before d.mContLen
  · rw [if_pos hkill]
    rw [if_pos hkill] at hcrypt
    refine Traced.res_bind_eq_error.mpr (Or.inl ?_)
    rw [hlen]
    exact hcrypt
  · rw [if_neg hkill]
    rw [if_neg hkill] at hcrypt
    refine Traced.res_bind_eq_ok.mpr ⟨_, by rw [hlen]; exact hcrypt, ?_⟩
    simp only [Traced.storeV, Traced.load, Traced.mk_ok_bind, Ctt.len_ofBytes, Int.toNat_natCast,
      List.drop_zero, htake]
    rfl

/-- What is in the buffer after the decryption: the header with the new length, and the text. -/
theorem toList_decoded (req : Request) {c : List UInt8} (hc : (decrypted c).length ≤ 2018) :
    (decoded req c).toList =
      req.toList.take mContLenOff ++ (htons (UInt16.ofInt (decrypted c).length) ++
        (decrypted c ++ List.replicate (2018 - (decrypted c).length) 0)) := by
  have hreq : req.toList.length = 2048 := req.length_toList
  have hparts : req.toList = (req.toList.take mContLenOff ++ (req.toList.drop mContLenOff).take 2) ++
      (req.toList.drop mContOff ++ []) := by
    have hrest : req.toList.drop mContOff = (req.toList.drop mContLenOff).drop 2 := by
      rw [List.drop_drop]
    rw [List.append_nil, List.append_assoc, hrest, List.take_append_drop, List.take_append_drop]
  have htake : (req.toList.take mContLenOff).length = mContLenOff := by
    rw [List.length_take, hreq]
    rfl
  have hoff : (req.toList.take mContLenOff ++ (req.toList.drop mContLenOff).take 2).length =
      mContOff := by
    rw [List.length_append, htake, List.length_take, List.length_drop, hreq]
    rfl
  -- the `memset` runs past the end of the buffer and clears all of the content
  have hclear : blit req.toList mContOff (List.replicate sizeBufMsg 0) =
      (req.toList.take mContLenOff ++ (req.toList.drop mContLenOff).take 2) ++
        (List.replicate (decrypted c).length 0 ++
          List.replicate (2018 - (decrypted c).length) 0) := by
    rw [← blit_take _ _ (by rw [hreq]; decide), hreq, List.take_replicate]
    conv_lhs => rw [hparts]
    rw [blit_append hoff (by rw [List.length_replicate, List.length_drop, hreq]; rfl),
      List.append_nil, List.replicate_append_replicate]
    congr 2
    rw [show min (2048 - mContOff) sizeBufMsg = 2018 from rfl]
    omega
  have hlen : (htons (UInt16.ofInt (decrypted c).length)).length =
      ((req.toList.drop mContLenOff).take 2).length := by
    rw [htons, List.length_reverse, length_le16, List.length_take, List.length_drop, hreq]
    rfl
  rw [decoded, toList_blitV, toList_blitV, toList_blitV, hclear,
    blit_append hoff (by rw [List.length_replicate]), List.append_assoc, blit_append htake hlen]

/-! ## `tq_request_parse` -/

/-- `cli_addr.sin_addr`. -/
def sinAddr (l : List UInt8) : UInt32 := UInt32.ofNat (natLE ((l.drop sinAddrOff).take 4))

/-- `tq_ser_resp_enc_msg`. -/
def tqSerRespEncMsg (jc : JsonC) (before : UInt8) (ct : Ctt) (req : Request) (type : UInt16)
    (responseJs : Json) : Traced Crash Buf Request := do
  let tmpBuf := bytesOf (jc.toJsonString responseJs)
  let ct ← tqCryptoAes before ct tmpBuf tmpBuf.length .encrypt
  let req ← Traced.storeV .gReq req mTypeOff (htons type)
  let req ← Traced.storeV .gReq req mContOff (List.replicate sizeBufCtt 0)
  let bytes ← Traced.load .con ct.con.toList 0 ct.len.toNat
  let req ← Traced.storeV .gReq req mContOff bytes
  Traced.storeV .gReq req mContLenOff (htons (UInt16.ofInt ct.len))

/-- `tq_req_undef`. -/
def tqReqUndef (req : Request) : Traced Crash Buf Request := do
  let undefMsg := bytesOf "Undefined message type!".toList
  let req ← Traced.storeV .gReq req mContOff (List.replicate sizeBufCtt 0)
  let req ← Traced.storeV .gReq req mContOff undefMsg
  Traced.storeV .gReq req mContLenOff (htons (UInt16.ofNat (undefMsg.length - 1)))

/-- `tq_ser_req_resp`: the bytes that are sent. -/
def tqSerReqResp (req : Request) : Traced Crash Buf (List UInt8) :=
  Traced.load .gReq req.toList msgOff (sizeofReqMsg + (ntohs req.toList mContLenOff).toNat)

/-- What is sent when the handler has answered, or when there is none. -/
def respond (jc : JsonC) (before : UInt8) (ct : Ctt) (req : Request) (msgType : UInt16) :
    Option Json → Traced Crash Buf (List UInt8)
  | some responseJs => do
    let req ← tqSerRespEncMsg jc before ct req (msgType + 1) responseJs
    tqSerReqResp req
  | none => do
    let req ← tqReqUndef req
    tqSerReqResp req

/-- `tq_request_parse`: the state afterwards and the reply. What is left in `ct` and `g_req` is not
looked at any more. -/
def tqRequestParse (jc : JsonC) (env : Env) (before : UInt8) (ct : Ctt) (req : Request)
    (s : Server) : Traced Crash Buf (Server × List UInt8) := do
  let r ← tqSerReqDecMsg before ct req
  let msgType := ntohs r.2.toList mTypeOff
  let js := jc.tokenerParse (textOf (r.2.toList.drop mContOff))
  let t ← Traced.ofExcept (serve jc env (sinAddr r.2.toList) msgType js s)
  let sent ← respond jc before r.1 r.2 msgType t.2
  pure (t.1, sent)

/-- `tq_ser_recv_req` on a datagram. -/
def tqSerRecvReq (jc : JsonC) (env : Env) (before : UInt8) (fd : UInt32) (d : Datagram) (ct : Ctt)
    (req : Request) (s : Server) : Traced Crash Buf (Server × Option (List UInt8)) := do
  match ← recvMsg fd d req with
  | none => pure (s, none)
  | some req =>
    let r ← tqRequestParse jc env before ct req s
    pure (r.1, some r.2)

section Parse

variable {jc : JsonC} {IsJson : List Char → Prop} {env : Env} {before : UInt8} {fd : UInt32}
  {d : Datagram} {ct : Ctt} {req : Request} {s s' : Server} {sent : List UInt8}

theorem length_decrypted_content_le (h : d.Accepted) : (decrypted d.content).length ≤ 2018 := by
  have hle := length_decrypted_le d.content
  rw [Datagram.length_content h] at hle
  exact hle.trans ((Datagram.mContLen_le h).trans (by omega))

/-- The header fields and the text that the handler sees are those of the datagram. -/
theorem ntohs_decoded (h : d.Accepted) :
    ntohs (decoded (received fd d) d.content).toList mTypeOff = d.mType := by
  have hget : ∀ i < mContLenOff, (decoded (received fd d) d.content).toList.getD i 0 =
      (received fd d).toList.getD i 0 := by
    intro i hi
    rw [toList_decoded _ (length_decrypted_content_le h), List.getD_eq_getElem?_getD,
      List.getElem?_append_left, List.getElem?_take_of_lt hi, List.getD_eq_getElem?_getD]
    rw [List.length_take, Vector.length_toList]
    exact lt_min hi (hi.trans (by decide))
  rw [ntohs, hget _ (by decide), hget _ (by decide)]
  exact ntohs_received fd d 6

theorem sinAddr_decoded (h : d.Accepted) :
    sinAddr (decoded (received fd d) d.content).toList = d.cip := by
  have hfd : (le32 fd).length = cliAddrOff := length_le32 fd
  have haddr : d.addr.toList.length = 16 := d.addr.length_toList
  have hbytes : ∀ l m : List UInt8,
      (((le32 fd ++ (d.addr.toList ++ l)).take mContLenOff ++ m).drop sinAddrOff).take 4 =
        (d.addr.toList.drop 4).take 4 := by
    intro l m
    have htake : (le32 fd ++ (d.addr.toList ++ l)).take mContLenOff =
        le32 fd ++ (d.addr.toList ++ l.take 8) := by
      rw [List.take_append, List.take_append, hfd, haddr,
        List.take_of_length_le (by rw [hfd]; decide),
        List.take_of_length_le (by rw [haddr]; decide)]
      rfl
    rw [htake, List.append_assoc, sinAddrOff, ← List.drop_drop, ← hfd, List.drop_left,
      List.append_assoc, List.drop_append_of_le_length (by omega),
      List.take_append_of_le_length (by rw [List.length_drop]; omega)]
  rw [sinAddr, toList_decoded _ (length_decrypted_content_le h), toList_received, hbytes]
  rfl

theorem textOf_decoded (h : d.Accepted) :
    textOf ((decoded (received fd d) d.content).toList.drop mContOff) =
      textOf (decrypted d.content) := by
  have hreq : mContLenOff ≤ (received fd d).toList.length := by
    rw [Vector.length_toList]
    decide
  have hoff : ((received fd d).toList.take mContLenOff ++
      htons (UInt16.ofInt (decrypted d.content).length)).length = mContOff := by
    rw [List.length_append, List.length_take_of_le hreq, htons, List.length_reverse, length_le16]
  rw [toList_decoded _ (length_decrypted_content_le h), ← List.append_assoc, ← hoff,
    List.drop_left, textOf_append_zeros]

/-- `tq_request_parse` once the content is decrypted. -/
theorem res_tqRequestParse {ct' : Ctt} {req' : Request} {msgType : UInt16} {cip : UInt32}
    {text : List Char} (hdec : (tqSerReqDecMsg before ct req).res = .ok (ct', req'))
    (htype : ntohs req'.toList mTypeOff = msgType) (hcip : sinAddr req'.toList = cip)
    (htext : textOf (req'.toList.drop mContOff) = text) :
    (tqRequestParse jc env before ct req s).res =
      (do
        let t ← Traced.ofExcept (serve jc env cip msgType (jc.tokenerParse text) s)
        let sent ← respond jc before ct' req' msgType t.2
        pure (t.1, sent) : Traced Crash Buf (Server × List UInt8)).res := by
  rw [tqRequestParse, Traced.res_bind_of_ok hdec, htype, hcip, htext]

theorem res_tqSerRecvReq_of_some {req' : Request}
    (hrecv : (recvMsg fd d req).res = .ok (some req')) :
    (tqSerRecvReq jc env before fd d ct req s).res =
      (tqRequestParse jc env before ct req' s >>= fun r =>
        (pure (r.1, some r.2) : Traced Crash Buf (Server × Option (List UInt8)))).res := by
  rw [tqSerRecvReq, Traced.res_bind_of_ok hrecv]

/-- **What a datagram comes to**: its content is decrypted, the text is parsed, and the handler for
its type is called with what came out. -/
theorem res_tqSerRecvReq (h : d.Accepted) (hlive : ¬ KilledByDecryption before d.mContLen) :
    (tqSerRecvReq jc env before fd d ct req s).res =
      (do
        let t ← Traced.ofExcept
          (serve jc env d.cip d.mType (jc.tokenerParse (textOf (decrypted d.content))) s)
        let sent ← respond jc before (Ctt.ofBytes (decrypted d.content))
          (decoded (received fd d) d.content) d.mType t.2
        pure (t.1, some sent) : Traced Crash Buf (Server × Option (List UInt8))).res := by
  have hrecv : (recvMsg fd d req).res = .ok (some (received fd d)) := by
    rw [recvMsg_eq, if_pos h]
  have hdec := res_tqSerReqDecMsg before ct fd h
  rw [if_neg hlive] at hdec
  have hparse : (tqRequestParse jc env before ct (received fd d) s).res = _ :=
    res_tqRequestParse hdec (ntohs_decoded h) (sinAddr_decoded h) (textOf_decoded h)
  rw [res_tqSerRecvReq_of_some hrecv, Traced.res_bind_congr hparse]
  simp only [Traced.bind_assoc, Traced.pure_bind]

/-- A datagram without content can kill the process before it is parsed. -/
theorem res_tqSerRecvReq_killed (h : d.Accepted) (hkill : KilledByDecryption before d.mContLen) :
    (tqSerRecvReq jc env before fd d ct req s).res = .error .segv := by
  have hrecv : (recvMsg fd d req).res = .ok (some (received fd d)) := by
    rw [recvMsg_eq, if_pos h]
  have hdec := res_tqSerReqDecMsg before ct fd h
  rw [if_pos hkill] at hdec
  rw [res_tqSerRecvReq_of_some hrecv]
  exact Traced.res_bind_eq_error.mpr (Or.inl (Traced.res_bind_eq_error.mpr (Or.inl hdec)))

/-- **A datagram that is answered is a request of the running server.** -/
theorem step_of_tqSerRecvReq (h : d.Accepted)
    (hres : (tqSerRecvReq jc env before fd d ct req s).res = .ok (s', some sent)) :
    step jc s (.request d.mType d.cip (jc.tokenerParse (textOf (decrypted d.content))) env) =
      some s' := by
  have hlive : ¬ KilledByDecryption before d.mContLen := by
    intro hkill
    rw [res_tqSerRecvReq_killed h hkill] at hres
    cases hres
  rw [res_tqSerRecvReq h hlive] at hres
  obtain ⟨t, ht, hres⟩ := Traced.res_bind_eq_ok.mp hres
  obtain ⟨_, -, hres⟩ := Traced.res_bind_eq_ok.mp hres
  obtain rfl := congrArg Prod.fst (Except.ok.inj hres)
  rw [Traced.res_ofExcept] at ht
  rw [step, ht]
  rfl

/-! ## Aborting the server -/

/-- Nothing that is done for a reply can fail an assertion. -/
theorem respond_ne_assertFail (jc : JsonC) (before : UInt8) (ct : Ctt) (req : Request)
    (msgType : UInt16) (reply : Option Json) :
    (respond jc before ct req msgType reply).res ≠ .error .assertFail := by
  cases reply with
  | none => exact nofun
  | some responseJs =>
    refine Traced.res_bind_ne_error ?_ fun _ => nofun
    refine Traced.res_bind_ne_error ?_ fun _ => nofun
    exact tqCryptoAes_ne_assertFail _ _ _ _ _

/-- A request that asks a text that is not JSON for a field aborts the server. -/
theorem res_tqSerRecvReq_assertFail (h : d.Accepted)
    (hlive : ¬ KilledByDecryption before d.mContLen) (hasks : asksContent d.mType = true)
    (hjson : jc.tokenerParse (textOf (decrypted d.content)) = none) :
    (tqSerRecvReq jc env before fd d ct req s).res = .error .assertFail := by
  rw [res_tqSerRecvReq h hlive, hjson, serve_none hasks]
  rfl

/-- **When a datagram does not abort the server.** The exceptions are those that kill it earlier,
those that are not asked for a field, and those whose decrypted content is JSON. -/
theorem not_assertFail_iff (hjc : jc.Conforms IsJson) (env : Env) (before : UInt8) (fd : UInt32)
    (ct : Ctt) (req : Request) (s : Server) (h : d.Accepted) :
    (tqSerRecvReq jc env before fd d ct req s).res ≠ .error .assertFail ↔
      KilledByDecryption before d.mContLen ∨ asksContent d.mType = false ∨
        IsJson (textOf (decrypted d.content)) := by
  constructor
  · intro hok
    by_contra hnot
    push Not at hnot
    obtain ⟨hlive, hasks, hjson⟩ := hnot
    exact hok (res_tqSerRecvReq_assertFail h hlive (by simpa using hasks)
      ((hjc.parse_eq_none _).mpr hjson))
  · intro hcond
    by_cases hkill : KilledByDecryption before d.mContLen
    · rw [res_tqSerRecvReq_killed h hkill]
      exact nofun
    · rw [res_tqSerRecvReq h hkill]
      refine Traced.res_bind_ne_error ?_ fun t => ?_
      · rw [Traced.res_ofExcept, ne_eq, serve_eq_assertFail hjc, hjc.parse_eq_none]
        rintro ⟨hasks, hjson⟩
        rcases hcond with hcond | hcond | hcond
        · exact hkill hcond
        · rw [hasks] at hcond
          cases hcond
        · exact hjson hcond
      · exact Traced.res_bind_ne_error (respond_ne_assertFail _ _ _ _ _ _) fun _ => nofun

end Parse

/-- A tokener that knows the two empty containers only. -/
def JsonC.emptyOnly : JsonC where
  tokenerParse t :=
    if t = ['{', '}'] then some (.object []) else if t = ['[', ']'] then some (.array []) else none
  toJsonString _ := ['[', ']']

theorem JsonC.conforms_emptyOnly :
    JsonC.emptyOnly.Conforms fun t => t = ['{', '}'] ∨ t = ['[', ']'] := by
  refine ⟨fun t => ?_, fun l _ => nofun, rfl⟩
  by_cases hobj : t = ['{', '}']
  · simp [JsonC.emptyOnly, hobj]
  · by_cases harr : t = ['[', ']'] <;> simp [JsonC.emptyOnly, hobj, harr]

/-- A datagram of the given type with one byte of content. -/
def shortDatagram (mType : UInt16) : Datagram :=
  ⟨Vector.replicate 16 0, [0, 0, 0, 0, 0, 0] ++ htons mType ++ htons 1 ++ [0]⟩

/-- A datagram of the given type with one block of content, which is decrypted to `{}`. -/
def objectDatagram (mType : UInt16) : Datagram :=
  ⟨Vector.replicate 16 0, [0, 0, 0, 0, 0, 0] ++ htons mType ++ htons 16 ++
    [171, 47, 47, 87, 0, 115, 14, 247, 249, 108, 193, 101, 2, 175, 249, 194]⟩

/-- An `OPEN_QOS` whose content is an empty object does not abort the server. -/
theorem not_assertFail_openQos :
    (tqSerRecvReq .emptyOnly (Env.at 0 none) 0 0 (objectDatagram 1005) ⟨0, Vector.replicate _ 0⟩
      (Vector.replicate _ 0) (serverInit ⟨['0'], []⟩)).res ≠ .error .assertFail :=
  (not_assertFail_iff JsonC.conforms_emptyOnly _ _ _ _ _ _ (by decide)).mpr
    (Or.inr (Or.inr (Or.inl (by decide +kernel))))

/-- One byte of content is not a whole block; it becomes a text that is empty and not JSON, and the
request for authentication aborts the server. -/
theorem assertFail_diagAuth :
    (shortDatagram 1015).Accepted ∧
      JsonC.emptyOnly.Conforms (fun t => t = ['{', '}'] ∨ t = ['[', ']']) ∧
      (tqSerRecvReq .emptyOnly (Env.at 0 none) 0 0 (shortDatagram 1015) ⟨0, Vector.replicate _ 0⟩
        (Vector.replicate _ 0) (serverInit ⟨['0'], []⟩)).res = .error .assertFail :=
  ⟨by decide, JsonC.conforms_emptyOnly,
    res_tqSerRecvReq_assertFail (by decide) (by decide) (by decide) (by decide +kernel)⟩

/-! ## Writing outside of the buffers -/

/-- The receive and decrypt stages of `tq_ser_recv_req`. -/
def recvAndDecode (before : UInt8) (fd : UInt32) (d : Datagram) (ct : Ctt) (req : Request) :
    Traced Crash Buf (Option (Ctt × Request)) := do
  match ← recvMsg fd d req with
  | none => pure none
  | some req => do
    let r ← tqSerReqDecMsg before ct req
    pure (some r)

/-- Every byte written to `g_req` and to `ctt_s.con` lies inside. -/
def WritesInside (log : List (Access Buf)) : Prop :=
  ∀ a ∈ log, a.dir = .write → a.buf = .gReq ∨ a.buf = .con → a.Inside (bufSize 0)

/-- The decryption writes outside: the `memset` of the content is ten bytes too long, and where the
process is killed before, it is by a copy out of `ct->con`. -/
theorem exists_write_outside (before : UInt8) (ct : Ctt) {req : Request}
    (h : (ntohs req.toList mContLenOff).toNat ≤ 2017) :
    ∃ a ∈ (tqSerReqDecMsg before ct req).log,
      a.dir = .write ∧ (a.buf = .gReq ∨ a.buf = .con) ∧ ¬ a.Inside (bufSize 0) := by
  set n := (ntohs req.toList mContLenOff).toNat with hn
  have hdata : n ≤ (req.toList.drop mContOff).length := by
    rw [List.length_drop, Vector.length_toList]
    exact h.trans (by decide)
  have hcrypt := res_tqCryptoAes_decrypt before ct _ hdata (h.trans (by decide))
  by_cases hkill : KilledByDecryption before n
  · refine ⟨_, Traced.mem_log_bind_left (mem_log_of_killed hkill ct _), rfl, Or.inr rfl, ?_⟩
    have hbefore := hkill.2.2
    simp only [Access.Inside, bufSize, contentSSize]
    omega
  · rw [if_neg hkill] at hcrypt
    refine ⟨⟨.gReq, .write, mContOff, sizeBufMsg⟩, ?_, rfl, Or.inl rfl, by decide⟩
    refine Traced.mem_log_bind_right hcrypt (Traced.mem_log_bind_left ?_)
    rw [Traced.storeV, List.length_replicate]
    exact List.mem_singleton_self _

/-- What one stage writes outside is written outside by both. -/
theorem exists_write_outside_recv (before : UInt8) (fd : UInt32) {d : Datagram} (h : d.Accepted)
    (ct : Ctt) (req : Request) :
    ∃ a ∈ (recvAndDecode before fd d ct req).log,
      a.dir = .write ∧ (a.buf = .gReq ∨ a.buf = .con) ∧ ¬ a.Inside (bufSize 0) := by
  have hrecv : (recvMsg fd d req).res = .ok (some (received fd d)) := by
    rw [recvMsg_eq, if_pos h]
  have hlen : (ntohs (received fd d).toList mContLenOff).toNat ≤ 2017 := by
    rw [mContLenOff, ntohs_received]
    exact Datagram.mContLen_le h
  obtain ⟨a, ha, hout⟩ := exists_write_outside before ct hlen
  exact ⟨a, Traced.mem_log_bind_right hrecv (Traced.mem_log_bind_left ha), hout⟩

/-- **Every accepted datagram** makes the server write outside of its buffers. -/
theorem not_writesInside (before : UInt8) (fd : UInt32) {d : Datagram} (h : d.Accepted) (ct : Ctt)
    (req : Request) : ¬ WritesInside (recvAndDecode before fd d ct req).log := by
  intro hinside
  obtain ⟨a, ha, hdir, hbuf, hout⟩ := exists_write_outside_recv before fd h ct req
  exact hout (hinside a ha hdir hbuf)

theorem not_writesInside_undef :
    ¬ WritesInside (recvAndDecode 0 0 (shortDatagram 2000) ⟨0, Vector.replicate _ 0⟩
      (Vector.replicate _ 0)).log :=
  not_writesInside 0 0 (by decide) _ _

/-- A request for the version with one byte of content. -/
theorem not_writesInside_getVer :
    (shortDatagram 1001).Accepted ∧
      ¬ WritesInside (recvAndDecode 0 0 (shortDatagram 1001) ⟨0, Vector.replicate _ 0⟩
        (Vector.replicate _ 0)).log := by
  refine ⟨by decide, fun hinside => ?_⟩
  obtain ⟨a, ha, hdir, hbuf, hout⟩ := exists_write_outside_recv 0 0
    (show (shortDatagram 1001).Accepted by decide) ⟨0, Vector.replicate _ 0⟩ (Vector.replicate _ 0)
  exact hout (hinside a ha hdir hbuf)

end Tqos
