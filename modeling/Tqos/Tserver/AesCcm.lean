import Tqos.Lib.Except
import Tqos.Tserver.AesCtr
import Tqos.Tserver.AesStandard

/-!
# Counter mode with a MAC

`aes_encrypt_ccm` formats the lengths, the nonce, the associated data and the text into a heap
block, makes the MAC of it, and enciphers the text and the MAC in counter mode; `aes_decrypt_ccm`
deciphers both and makes the MAC again. The sizes of the heap blocks are those of the source, so
that a write behind the end of one is an error here. Whether `malloc` gives a block is a parameter.

## Main results

* `aesDecryptCcm_iff` — what is accepted is what was encrypted
* `aesEncryptCcm_stream` — the lengths for which the heap block is too short, and the parts of the
  stream that the text and the MAC are combined with
-/

namespace Tqos

namespace Aes

/-! ## The parts -/

/-- `ccm_prepare_first_ctr_blk`. -/
def ccmPrepareFirstCtrBlk (nonce : List UInt8) (payloadLenStoreSize : ℤ) : Block :=
  let counter : Block := Vector.replicate 16 0
  let counter := blitV counter 0 [UInt8.ofInt ((payloadLenStoreSize - 1) % 8)]
  blitV counter 1 nonce

/-- `ccm_prepare_first_format_blk`. -/
def ccmPrepareFirstFormatBlk (assocLen payloadLen : ℕ) (payloadLenStoreSize macLen : ℤ)
    (nonce : List UInt8) : Block :=
  let flags := UInt8.ofInt ((macLen - 2).tdiv 2 % 8) <<< 3 |||
    UInt8.ofInt ((payloadLenStoreSize - 1) % 8)
  let flags := if 0 < assocLen then flags + 0x40 else flags
  let buf : Block := Vector.replicate 16 0
  let buf := blitV (blitV buf 0 [flags]) 1 nonce
  -- two bytes for the length of the text, whatever `payloadLenStoreSize` says
  blitV (blitV buf 15 [UInt8.ofNat payloadLen]) 14 [UInt8.ofNat (payloadLen / 256)]

/-- A copy to the end of the part of a heap block of `size` bytes that is in use. -/
def bufWrite (size : ℕ) (buf bytes : List UInt8) : Except Crash (List UInt8) :=
  if buf.length + bytes.length ≤ size then .ok (buf ++ bytes) else .error .overflow

/-- `ccm_format_assoc_data`. -/
def ccmFormatAssocData (size : ℕ) (buf assoc : List UInt8) : Except Crash (List UInt8) := do
  let buf ← bufWrite size buf [UInt8.ofNat (assoc.length / 256), UInt8.ofNat assoc.length]
  let buf ← bufWrite size buf assoc
  -- a whole block if nothing is missing
  let pad := 16 - buf.length % 16
  bufWrite size buf (List.replicate pad 0)

/-- `ccm_format_payload_data`. -/
def ccmFormatPayloadData (size : ℕ) (buf payload : List UInt8) : Except Crash (List UInt8) := do
  let buf ← bufWrite size buf payload
  let pad := buf.length % 16
  let pad := if pad ≠ 0 then 16 - pad else pad
  bufWrite size buf (List.replicate pad 0)

/-- The loop of `aes_encrypt_cbc_mac`: `buf_out` after `k` blocks from block `idx` on. -/
def cbcMacLoop (E : Block → Block) (inp : List UInt8) :
    ℕ → ℕ → Block → Option Block → Option Block
  | 0, _, _, bufOut => bufOut
  | k + 1, idx, iv, _ =>
    let bufOut := E (xorBuf iv (blockAt 16 inp (16 * idx)))
    cbcMacLoop E inp k (idx + 1) bufOut (some bufOut)

/-- `aes_encrypt_cbc_mac`: what is in `out`, if that is set. -/
def aesEncryptCbcMac (key : List UInt32) (keysize : ℕ) (iv : Block) (inp : List UInt8) :
    Option Block :=
  if inp.length % 16 ≠ 0 then none
  else cbcMacLoop (aesEncrypt key keysize) inp (inp.length / 16) 0 iv none

/-- The formatted data in a heap block of `size` bytes, and the MAC of it. -/
def ccmMac (size : ℕ) (key : List UInt32) (keysize : ℕ) (payload assoc nonce : List UInt8)
    (macLen : ℕ) : Except Crash (List UInt8) := do
  let payloadLenStoreSize : ℤ := 16 - 1 - nonce.length
  let buf := (ccmPrepareFirstFormatBlk assoc.length payload.length payloadLenStoreSize macLen
    nonce).toList
  let buf ← ccmFormatAssocData size buf assoc
  let buf ← ccmFormatPayloadData size buf payload
  match aesEncryptCbcMac key keysize (Vector.replicate 16 0) buf with
  | none => .error .uninit
  | some mac => .ok (mac.toList.take macLen)

/-- The checks of `aes_encrypt_ccm`. -/
def CcmArgs (macLen : ℕ) (nonce assoc : List UInt8) : Prop :=
  macLen ∈ [4, 6, 8, 10, 12, 14, 16] ∧ 7 ≤ nonce.length ∧ nonce.length ≤ 13 ∧ assoc.length ≤ 32768

instance (macLen : ℕ) (nonce assoc : List UInt8) : Decidable (CcmArgs macLen nonce assoc) :=
  inferInstanceAs (Decidable (_ ∈ _ ∧ _ ≤ _ ∧ _ ≤ _ ∧ _ ≤ _))

theorem CcmArgs.macLen_bounds {macLen : ℕ} {nonce assoc : List UInt8}
    (h : CcmArgs macLen nonce assoc) : 4 ≤ macLen ∧ (macLen ≤ 14 ∨ macLen = 16) := by
  have hmem := h.1
  simp only [List.mem_cons, List.not_mem_nil, or_false] at hmem
  omega

/-- `aes_encrypt_ccm`, where `w` is what the array of the key schedule holds before and `alloc` says
whether there is a block. -/
def aesEncryptCcm (alloc : Bool) (w : Vector UInt32 60) (payload assoc nonce : List UInt8)
    (macLen : ℕ) (keyStr : List UInt8) (keysize : ℕ) : Except Crash (Option (List UInt8)) :=
  if ¬ CcmArgs macLen nonce assoc then .ok none
  else if alloc = false then .ok none
  else do
    let key := aesKeySetup keyStr w.toList keysize
    let mac ← ccmMac (payload.length + assoc.length + 48) key keysize payload assoc nonce macLen
    let counter := ccmPrepareFirstCtrBlk nonce (16 - 1 - nonce.length)
    -- the size of the counter is negative for a MAC of 16 bytes, and then it is not incremented
    let tempIv := incrementIv counter (16 - 1 - macLen)
    .ok (some (aesEncryptCtr key keysize tempIv payload ++ aesEncryptCtr key keysize counter mac))

/-- `aes_decrypt_ccm`: the text and what is in `*mac_auth`, if that is asked for. -/
def aesDecryptCcm (alloc : Bool) (w : Vector UInt32 60) (ciphertext assoc nonce : List UInt8)
    (macLen : ℕ) (macAuth : Bool) (keyStr : List UInt8) (keysize : ℕ) :
    Except Crash (Option (List UInt8 × Option Bool)) :=
  if ciphertext.length ≤ macLen then .ok none
  else if alloc = false then .ok none
  -- the local arrays for the MAC and the counter
  else if 16 < macLen ∨ 15 < nonce.length then .error .overflow
  else do
    let key := aesKeySetup keyStr w.toList keysize
    let plaintextLen := ciphertext.length - macLen
    let counter := ccmPrepareFirstCtrBlk nonce (16 - 1 - nonce.length)
    let tempIv := incrementIv counter (16 - 1 - macLen)
    let plaintext := aesDecryptCtr key keysize tempIv (ciphertext.take plaintextLen)
    if macAuth = false then .ok (some (plaintext, none))
    else do
      let mac := aesDecryptCtr key keysize counter (ciphertext.drop plaintextLen)
      let macBuf ← ccmMac (assoc.length + ciphertext.length + 48) key keysize plaintext assoc nonce
        macLen
      if mac = macBuf then .ok (some (plaintext, some true))
      else .ok (some (List.replicate plaintextLen 0, some false))

/-! ## The key schedule -/

theorem matrix_injective : Function.Injective matrix := by
  intro st st' h
  have hentry (r c : Fin 4) : st.entry r c = st'.entry r c :=
    ByteField.toField_injective bmul_sboxInv (congrFun (congrFun h r) c)
  have hst (s : State) : s = ⟨⟨s.entry 0 0, s.entry 0 1, s.entry 0 2, s.entry 0 3⟩,
    ⟨s.entry 1 0, s.entry 1 1, s.entry 1 2, s.entry 1 3⟩,
    ⟨s.entry 2 0, s.entry 2 1, s.entry 2 2, s.entry 2 3⟩,
    ⟨s.entry 3 0, s.entry 3 1, s.entry 3 2, s.entry 3 3⟩⟩ := rfl
  rw [hst st, hst st']
  simp only [hentry]

/-- **The array of the key schedule** need not be set before. -/
theorem aesEncrypt_aesKeySetup {keysize : ℕ} (hk : (keyParams keysize).isSome) (key : List UInt8)
    (w w' : Vector UInt32 60) : aesEncrypt (aesKeySetup key w.toList keysize) keysize =
      aesEncrypt (aesKeySetup key w'.toList keysize) keysize := by
  obtain ⟨⟨nr, nk⟩, hk⟩ := Option.isSome_iff_exists.mp hk
  have hnr : 4 * (nr + 1) ≤ 60 := by
    rw [keyParams.eq_def] at hk
    split at hk
    · obtain ⟨rfl, -⟩ := Prod.mk.inj (Option.some.inj hk)
      decide
    · obtain ⟨rfl, -⟩ := Prod.mk.inj (Option.some.inj hk)
      decide
    · obtain ⟨rfl, -⟩ := Prod.mk.inj (Option.some.inj hk)
      decide
    · cases hk
  have hlen (v : Vector UInt32 60) : 4 * (nr + 1) ≤ v.toList.length := by
    rw [Vector.length_toList]
    exact hnr
  funext b
  have hmatrix := (matrix_aesEncrypt_eq hk (aesKeySetup key w.toList keysize) b).trans
    ((Rijndael.cipher_congr (fun j hj => (toWord_aesKeySetup hk key (hlen w) hj).trans
      (toWord_aesKeySetup hk key (hlen w') hj).symm) _).trans
        (matrix_aesEncrypt_eq hk (aesKeySetup key w'.toList keysize) b).symm)
  have hblock := congrArg State.toBlock (matrix_injective hmatrix)
  rwa [State.toBlock_ofBlock, State.toBlock_ofBlock] at hblock

/-! ## The MAC -/

theorem cbcMacLoop_eq (E : Block → Block) (inp : List UInt8) (k idx : ℕ) (iv : Block)
    (bufOut : Option Block) : cbcMacLoop E inp k idx iv bufOut =
      (cbcEncrypt xorBuf E iv (blocksFrom 16 inp idx k)).getLast?.or bufOut := by
  induction k generalizing idx iv bufOut with
  | zero => rfl
  | succ k ih =>
    rw [cbcMacLoop, ih, blocksFrom, cbcEncrypt, List.getLast?_cons]
    cases (cbcEncrypt xorBuf E _ (blocksFrom 16 inp (idx + 1) k)).getLast? <;> rfl

/-! ## The formatted data -/

/-- The associated data behind its length, filled up. -/
def assocFormatted (buf assoc : List UInt8) : List UInt8 :=
  let buf := buf ++ [UInt8.ofNat (assoc.length / 256), UInt8.ofNat assoc.length] ++ assoc
  buf ++ List.replicate (16 - buf.length % 16) 0

/-- The text, filled up. -/
def payloadFormatted (buf payload : List UInt8) : List UInt8 :=
  let buf := buf ++ payload
  buf ++ List.replicate (if buf.length % 16 ≠ 0 then 16 - buf.length % 16 else buf.length % 16) 0

/-- The formatted data. -/
def ccmFormatted (payload assoc nonce : List UInt8) (macLen : ℕ) : List UInt8 :=
  payloadFormatted (assocFormatted (ccmPrepareFirstFormatBlk assoc.length payload.length
    (16 - 1 - nonce.length) macLen nonce).toList assoc) payload

section Format

variable {size macLen : ℕ} {buf payload assoc nonce : List UInt8}

theorem length_assocFormatted :
    (assocFormatted buf assoc).length = 16 * ((buf.length + assoc.length + 2) / 16 + 1) := by
  simp only [assocFormatted, List.length_append, List.length_replicate, List.length_cons,
    List.length_nil]
  omega

theorem length_payloadFormatted :
    (payloadFormatted buf payload).length = 16 * ((buf.length + payload.length + 15) / 16) := by
  simp only [payloadFormatted, List.length_append, List.length_replicate]
  split <;> omega

theorem length_ccmFormatted : (ccmFormatted payload assoc nonce macLen).length =
    16 * ((16 * ((assoc.length + 18) / 16 + 1) + payload.length + 15) / 16) := by
  rw [ccmFormatted, length_payloadFormatted, length_assocFormatted, Vector.length_toList]
  omega

theorem bufWrite_of_le {bytes : List UInt8} (h : buf.length + bytes.length ≤ size) :
    bufWrite size buf bytes = .ok (buf ++ bytes) := if_pos h

theorem ccmFormatAssocData_eq (h : buf.length + assoc.length + 18 ≤ size) :
    ccmFormatAssocData size buf assoc = .ok (assocFormatted buf assoc) := by
  rw [ccmFormatAssocData, bufWrite_of_le, ok_bind, bufWrite_of_le, ok_bind, bufWrite_of_le]
  · rfl
  all_goals
    simp only [List.length_append, List.length_replicate, List.length_cons, List.length_nil]
    omega

theorem ccmFormatPayloadData_eq (h : buf.length + payload.length ≤ size) :
    ccmFormatPayloadData size buf payload =
      if (payloadFormatted buf payload).length ≤ size then .ok (payloadFormatted buf payload)
      else .error .overflow := by
  rw [ccmFormatPayloadData, bufWrite_of_le h, ok_bind, bufWrite, ← List.length_append]
  rfl

/-- The last block of the chain. -/
def cbcMac (E : Block → Block) (data : List UInt8) : Block :=
  (cbcEncrypt xorBuf E (Vector.replicate 16 0)
    (blocksFrom 16 data 0 (data.length / 16))).getLast?.getD (Vector.replicate 16 0)

theorem aesEncryptCbcMac_eq {key : List UInt32} {keysize : ℕ} {data : List UInt8} {k : ℕ}
    (h : data.length = 16 * (k + 1)) :
    aesEncryptCbcMac key keysize (Vector.replicate 16 0) data =
      some (cbcMac (aesEncrypt key keysize) data) := by
  have hdiv : data.length / 16 = k + 1 := by omega
  rw [aesEncryptCbcMac, if_neg (by omega), cbcMacLoop_eq, cbcMac, hdiv, blocksFrom, cbcEncrypt,
    List.getLast?_cons]
  rfl

/-- The MAC. -/
def ccmTag (E : Block → Block) (payload assoc nonce : List UInt8) (macLen : ℕ) : List UInt8 :=
  (cbcMac E (ccmFormatted payload assoc nonce macLen)).toList.take macLen

theorem length_ccmTag (E : Block → Block) (h : macLen ≤ 16) :
    (ccmTag E payload assoc nonce macLen).length = macLen := by
  rw [ccmTag, List.length_take, Vector.length_toList, Nat.min_eq_left h]

/-- **The MAC is made**, or the heap block is too short. -/
theorem ccmMac_eq (key : List UInt32) (keysize : ℕ)
    (h : payload.length + assoc.length + 48 ≤ size) :
    ccmMac size key keysize payload assoc nonce macLen =
      if (ccmFormatted payload assoc nonce macLen).length ≤ size then
        .ok (ccmTag (aesEncrypt key keysize) payload assoc nonce macLen)
      else .error .overflow := by
  obtain ⟨k, hk⟩ : ∃ k, (ccmFormatted payload assoc nonce macLen).length = 16 * (k + 1) :=
    ⟨(16 * ((assoc.length + 18) / 16 + 1) + payload.length + 15) / 16 - 1, by
      rw [length_ccmFormatted]
      omega⟩
  rw [ccmMac, ccmFormatAssocData_eq (by rw [Vector.length_toList]; omega), ok_bind,
    ccmFormatPayloadData_eq (by rw [length_assocFormatted, Vector.length_toList]; omega),
    ← ccmFormatted]
  split
  · rw [ok_bind, aesEncryptCbcMac_eq hk]
    rfl
  · rfl

end Format

/-! ## Encryption and decryption -/

section Seal

variable {macLen keysize : ℕ} {payload assoc nonce keyStr c : List UInt8} {w w' : Vector UInt32 60}

/-- The counter of the text. -/
def ccmTextCounter (nonce : List UInt8) (macLen : ℕ) : Block :=
  incrementIv (ccmPrepareFirstCtrBlk nonce (16 - 1 - nonce.length)) (16 - 1 - macLen)

/-- The text and its MAC in counter mode. -/
def ccmSeal (E : Block → Block) (payload assoc nonce : List UInt8) (macLen : ℕ) : List UInt8 :=
  xorStream (ctrStream E (ccmTextCounter nonce macLen)) payload ++
    xorStream (ctrStream E (ccmPrepareFirstCtrBlk nonce (16 - 1 - nonce.length)))
      (ccmTag E payload assoc nonce macLen)

theorem aesEncryptCcm_eq (hargs : CcmArgs macLen nonce assoc) :
    aesEncryptCcm true w payload assoc nonce macLen keyStr keysize =
      if (ccmFormatted payload assoc nonce macLen).length ≤ payload.length + assoc.length + 48 then
        .ok (some (ccmSeal (aesEncrypt (aesKeySetup keyStr w.toList keysize) keysize) payload assoc
          nonce macLen))
      else .error .overflow := by
  rw [aesEncryptCcm, if_neg (not_not_intro hargs), if_neg (by decide)]
  dsimp only
  rw [ccmMac_eq _ _ le_rfl]
  split
  · rw [ok_bind, aesEncryptCtr_eq, aesEncryptCtr_eq]
    rfl
  · rfl

/-- What `aes_decrypt_ccm` does with a text and a MAC: the heap block is long enough. -/
theorem aesDecryptCcm_eq (hargs : CcmArgs macLen nonce assoc) (hlen : macLen < c.length) :
    aesDecryptCcm true w c assoc nonce macLen true keyStr keysize =
      let E := aesEncrypt (aesKeySetup keyStr w.toList keysize) keysize
      let p := xorStream (ctrStream E (ccmTextCounter nonce macLen)) (c.take (c.length - macLen))
      if xorStream (ctrStream E (ccmPrepareFirstCtrBlk nonce (16 - 1 - nonce.length)))
          (c.drop (c.length - macLen)) = ccmTag E p assoc nonce macLen then
        .ok (some (p, some true))
      else .ok (some (List.replicate (c.length - macLen) 0, some false)) := by
  have hmac := hargs.macLen_bounds
  have hnonce := hargs.2.2.1
  rw [aesDecryptCcm, if_neg (by omega), if_neg (by decide), if_neg (by omega)]
  dsimp only
  rw [if_neg (by decide), aesDecryptCtr, aesDecryptCtr, aesEncryptCtr_eq, aesEncryptCtr_eq,
    ← ccmTextCounter, ccmMac_eq _ _ (by rw [length_xorStream, List.length_take]; omega),
    if_pos (by rw [length_ccmFormatted, length_xorStream, List.length_take]; omega), ok_bind]

/-- **What is accepted** is what the text is sealed to. -/
theorem aesDecryptCcm_eq_iff (hargs : CcmArgs macLen nonce assoc) :
    aesDecryptCcm true w c assoc nonce macLen true keyStr keysize =
        .ok (some (payload, some true)) ↔
      payload ≠ [] ∧ ccmSeal (aesEncrypt (aesKeySetup keyStr w.toList keysize) keysize) payload
        assoc nonce macLen = c := by
  have hmac : macLen ≤ 16 := by
    have hbounds := hargs.macLen_bounds
    omega
  obtain ⟨E, hE⟩ : ∃ E, E = aesEncrypt (aesKeySetup keyStr w.toList keysize) keysize := ⟨_, rfl⟩
  have hseal (p : List UInt8) : (ccmSeal E p assoc nonce macLen).length = p.length + macLen := by
    rw [ccmSeal, List.length_append, length_xorStream, length_xorStream, length_ccmTag E hmac]
  rcases Nat.lt_or_ge macLen c.length with hlen | hlen
  · rw [aesDecryptCcm_eq hargs hlen, ← hE]
    dsimp only
    constructor
    · intro h
      split at h
      · rename_i htag
        obtain rfl := (Prod.mk.inj (Option.some.inj (Except.ok.inj h))).1
        refine ⟨fun hnil => ?_, ?_⟩
        · have hzero := congrArg List.length hnil
          rw [length_xorStream, List.length_take, List.length_nil] at hzero
          omega
        · rw [ccmSeal, xorStream_xorStream, ← htag, xorStream_xorStream, List.take_append_drop]
      · exact absurd (Prod.mk.inj (Option.some.inj (Except.ok.inj h))).2 (by decide)
    · rintro ⟨-, rfl⟩
      have hcut : (ccmSeal E payload assoc nonce macLen).length - macLen =
          (xorStream (ctrStream E (ccmTextCounter nonce macLen)) payload).length := by
        rw [hseal, length_xorStream, Nat.add_sub_cancel]
      rw [hcut, ccmSeal, List.take_left, List.drop_left, xorStream_xorStream, xorStream_xorStream,
        if_pos rfl]
  · rw [aesDecryptCcm, if_pos hlen]
    refine iff_of_false (by simp) ?_
    rintro ⟨hne, rfl⟩
    have hpos := List.length_pos_of_ne_nil hne
    rw [← hE, hseal] at hlen
    omega

/-- Bytes from `a` on. -/
def ascending (a n : ℕ) : List UInt8 := (List.range' a n).map UInt8.ofNat

/-- **Authenticated decryption.** A text is given and accepted if there is a heap block and the text
is what was encrypted, and not otherwise, with the lengths for which the heap block of the
encryption is long enough. -/
theorem aesDecryptCcm_iff (keysize : ℕ) (hk : (keyParams keysize).isSome) (keyStr : List UInt8)
    (alloc : Bool) (w w' : Vector UInt32 60) (macLen : ℕ) (nonce assoc payload c : List UInt8)
    (hargs : CcmArgs macLen nonce assoc)
    (hfits : ¬ (assoc.length % 16 = 14 ∧ payload.length % 16 = 1)) :
    aesDecryptCcm alloc w' c assoc nonce macLen true keyStr keysize =
        .ok (some (payload, some true)) ↔
      alloc = true ∧ payload ≠ [] ∧
        aesEncryptCcm true w payload assoc nonce macLen keyStr keysize = .ok (some c) := by
  have hfit : (ccmFormatted payload assoc nonce macLen).length ≤
      payload.length + assoc.length + 48 := by
    rw [length_ccmFormatted]
    omega
  cases alloc with
  | false =>
    rw [aesDecryptCcm, if_pos rfl, ite_self]
    exact iff_of_false (by simp) fun h => absurd h.1 (by decide)
  | true =>
    rw [aesDecryptCcm_eq_iff hargs, aesEncryptCcm_eq hargs, if_pos hfit,
      aesEncrypt_aesKeySetup hk keyStr w' w, Except.ok.injEq, Option.some.injEq,
      and_iff_right rfl]

/-- Four bytes of text with a MAC of four bytes, under the key of the bytes from 64 on. -/
theorem aesDecryptCcm_iff_short : (keyParams 128).isSome = true ∧
    CcmArgs 4 (ascending 0x10 7) (ascending 0 8) ∧ ¬ (8 % 16 = 14 ∧ 4 % 16 = 1) ∧
    aesDecryptCcm true (Vector.replicate 60 0) [0x71, 0x62, 0x01, 0x5b, 0x4d, 0xac, 0x25, 0x5d]
      (ascending 0 8) (ascending 0x10 7) 4 true (ascending 0x40 16) 128 =
      .ok (some (ascending 0x20 4, some true)) :=
  ⟨rfl, by decide, by decide, (aesDecryptCcm_iff 128 rfl (ascending 0x40 16) true
    (Vector.replicate 60 0) (Vector.replicate 60 0) 4 (ascending 0x10 7) (ascending 0 8)
    (ascending 0x20 4) [0x71, 0x62, 0x01, 0x5b, 0x4d, 0xac, 0x25, 0x5d] (by decide)
    (by decide)).mpr ⟨rfl, by decide, by decide +kernel⟩⟩

/-! ## The counters -/

/-- A counter that ends in zero has no carry, whatever its size. -/
theorem incrementIv_eq_of_last {iv : Block} (h : iv.toList.getD 15 0 = 0) {size size' : ℤ}
    (hsize : 0 < size) (hsize' : 0 < size') : incrementIv iv size = incrementIv iv size' := by
  have hone : iv[15] + 1 ≠ 0 := by
    rw [← getD_toList iv (by decide), h]
    decide
  have hstop (n : ℤ) (hn : 0 < n) : incrementIv iv n = iv.set 15 (iv[15] + 1) := by
    rw [incrementIv, incrementLoop, if_neg (by push_cast; omega)]
    dsimp only
    rw [if_pos (Or.inl (by rwa [Vector.getElem_set_self]))]
  rw [hstop size hsize, hstop size' hsize']

theorem ccmPrepareFirstCtrBlk_last (hnonce : nonce.length ≤ 13) (size : ℤ) :
    (ccmPrepareFirstCtrBlk nonce size).toList.getD 15 0 = 0 := by
  have hnone : nonce[(((15 : ℕ) : ℤ) - 1).toNat]? = none :=
    List.getElem?_eq_none (hnonce.trans (by decide))
  have hflags (b : UInt8) : [b][(((15 : ℕ) : ℤ) - 0).toNat]? = none := rfl
  have hzero : (Vector.replicate 16 (0 : UInt8)).toList[15]? = some 0 := rfl
  rw [ccmPrepareFirstCtrBlk, List.getD_eq_getElem?_getD, toList_blitV, getElem?_blit, hnone,
    toList_blitV, getElem?_blit, hflags, hzero]
  simp

/-- **The counter of the text** is the one behind that of the MAC, or the same for a MAC of a whole
block. -/
theorem ccmTextCounter_eq (hargs : CcmArgs macLen nonce assoc) :
    ccmTextCounter nonce macLen =
      if macLen = 16 then ccmPrepareFirstCtrBlk nonce (16 - 1 - nonce.length)
      else incrementIv (ccmPrepareFirstCtrBlk nonce (16 - 1 - nonce.length)) 16 := by
  have hmac := hargs.macLen_bounds
  have hlast := ccmPrepareFirstCtrBlk_last hargs.2.2.1 (16 - 1 - nonce.length)
  rw [ccmTextCounter]
  split
  · subst macLen
    rw [incrementIv, incrementLoop, if_pos (by decide)]
  · exact incrementIv_eq_of_last hlast (by omega) (by decide)

/-- **`aes_encrypt_ccm`, for every input.** Nothing is given for bad arguments and when there is no
heap block. That is one byte too short for a text of one byte behind whole blocks, when nothing is
missing after the associated data. The MAC is combined with the beginning of the stream, and the
text with what comes from the second block on; for a MAC of a whole block the text starts at the
beginning too. -/
theorem aesEncryptCcm_stream (alloc : Bool) (w : Vector UInt32 60)
    (payload assoc nonce : List UInt8) (macLen : ℕ) (keyStr : List UInt8) (keysize : ℕ) :
    let E := aesEncrypt (aesKeySetup keyStr w.toList keysize) keysize
    let ks := ctrStream E (ccmPrepareFirstCtrBlk nonce (16 - 1 - nonce.length))
    aesEncryptCcm alloc w payload assoc nonce macLen keyStr keysize =
      if ¬ CcmArgs macLen nonce assoc ∨ alloc = false then .ok none
      else if assoc.length % 16 = 14 ∧ payload.length % 16 = 1 then .error .overflow
      else .ok (some (xorStream (fun i => ks (if macLen = 16 then i else 16 + i)) payload ++
        xorStream ks (ccmTag E payload assoc nonce macLen))) := by
  intro E ks
  by_cases hargs : CcmArgs macLen nonce assoc
  · cases alloc with
    | false => rw [aesEncryptCcm, if_pos rfl, ite_self, if_pos (Or.inr rfl)]
    | true =>
      have hstream : ctrStream E (ccmTextCounter nonce macLen) =
          fun i => ks (if macLen = 16 then i else 16 + i) := by
        rw [ccmTextCounter_eq hargs]
        funext i
        split
        · rfl
        · exact (keyStream_add E (incrementIv · 16) (by decide) _ i).symm
      have hgoes : ¬ (¬ CcmArgs macLen nonce assoc ∨ true = false) := by simp [hargs]
      rw [aesEncryptCcm_eq hargs, if_neg hgoes, ccmSeal, hstream]
      split
      · rename_i hfit
        rw [length_ccmFormatted] at hfit
        rw [if_neg (by omega)]
      · rename_i hfit
        rw [length_ccmFormatted] at hfit
        rw [if_pos (by omega)]
  · rw [aesEncryptCcm, if_pos hargs, if_pos (Or.inl hargs)]

end Seal

end Aes

end Tqos
