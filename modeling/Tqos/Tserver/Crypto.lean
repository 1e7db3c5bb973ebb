import Tqos.Lib.BlockMode
import Tqos.Lib.Traced
import Tqos.Tserver.Aes

/-!
# The content cipher of the protocol

`aes_encrypt_cbc`, `aes_decrypt_cbc`, `tq_crypto` and `tq_crypto_aes`, with every access they make
to the content buffer `ct->con`, to the two heap buffers of `tq_crypto` and to the data they are
given. Local arrays of fixed size (one block, the key schedule) are values here and not buffers.

## Reading in front of the output

After a decryption `tq_crypto` looks at `output[src_len - 1]`. With an empty content this is the
byte *in front of* a heap block of size zero. What stands there is up to the allocator, so it is a
parameter of the model, `before`. If it happens to lie between 1 and 16 the length goes negative and
the final `memcpy` is asked for almost 4 GiB, which no 32-bit process survives: that branch ends in
`Crash.segv`.

`malloc` is taken to succeed.

## Main results

* `tqCrypto_encrypt`, `tqCrypto_decrypt` — what the two modes leave in `ct` and what they touch
* `tqCryptoAes_decrypt_encrypt` — decryption undoes encryption, padding included
* `decryptsSafely_iff` — decryption stays inside its buffers exactly for nonempty content
-/

namespace Tqos

/-- How a run of the server can end other than by finishing what it is doing. -/
inductive Crash
  /-- The process is killed by an invalid memory access. -/
  | segv
  /-- A failing `assert` aborts the process. -/
  | assertFail
  /-- A copy into an array runs past its end and destroys what is behind it. -/
  | overflow
  /-- A value that was never set is used. -/
  | uninit
deriving DecidableEq, Repr

/-- The buffers whose accesses are logged. -/
inductive Buf
  /-- `g_req`, the request the datagram is received into. -/
  | gReq
  /-- `ctt_s.con`. -/
  | con
  /-- What the `data` argument of `tq_crypto_aes` points to. -/
  | data
  /-- The heap buffer `input` of `tq_crypto`. -/
  | input
  /-- The heap buffer `output` of `tq_crypto`. -/
  | output
deriving DecidableEq, Repr

/-- `CONTENT_S_SIZE`. -/
abbrev contentSSize : ℕ := 2048

/-- `struct tq_ctt_s`. -/
structure Ctt where
  len : ℤ
  con : Vector UInt8 contentSSize
deriving DecidableEq

/-- `ENCRYPT` and `DECRYPT`. -/
inductive Mode
  | encrypt
  | decrypt
deriving DecidableEq, Repr

namespace Aes

/-! ## Chaining -/

/-- `xor_buf` on a block: `out ^= in`. -/
def xorBuf (inp out : Block) : Block := out.zipWith (· ^^^ ·) inp

theorem xorBuf_involutive (k : Block) : Function.Involutive (xorBuf k) := fun b => by
  ext i hi
  simp [xorBuf, UInt8.xor_assoc]

/-- The loop both chaining directions share: block `idx` of the input goes through `stp`, which
gives the block to be written and the next `iv_buf`. -/
def cbcLoop (stp : Block → Block → Block × Block) (inp : List UInt8) :
    ℕ → ℕ → Block → List UInt8 → Traced Crash Buf (List UInt8)
  | 0, _, _, out => pure out
  | k + 1, idx, iv, out => do
    Traced.touch ⟨.input, .read, (16 * idx : ℕ), 16⟩
    let r := stp iv (blockAt 16 inp (16 * idx))
    let out ← Traced.store .output out (16 * idx : ℕ) r.1.toList
    cbcLoop stp inp k (idx + 1) r.2 out

/-- `aes_encrypt_cbc`: nothing is written unless the length is a whole number of blocks. -/
def aesEncryptCbc (key : List UInt32) (keysize : ℕ) (iv : Block) (inp : List UInt8) (inLen : ℕ)
    (out : List UInt8) : Traced Crash Buf (List UInt8) :=
  if inLen % 16 ≠ 0 then pure out
  else cbcLoop
    (fun iv b => let c := aesEncrypt key keysize (xorBuf iv b); (c, c)) inp (inLen / 16) 0 iv out

/-- `aes_decrypt_cbc`. -/
def aesDecryptCbc (key : List UInt32) (keysize : ℕ) (iv : Block) (inp : List UInt8) (inLen : ℕ)
    (out : List UInt8) : Traced Crash Buf (List UInt8) :=
  if inLen % 16 ≠ 0 then pure out
  else cbcLoop
    (fun iv c => (xorBuf iv (aesDecrypt key keysize c), c)) inp (inLen / 16) 0 iv out

/-- The blocks the loop writes. -/
def chain (stp : Block → Block → Block × Block) (iv : Block) : List Block → List Block
  | [] => []
  | b :: bs => (stp iv b).1 :: chain stp (stp iv b).2 bs

@[simp] theorem length_chain (stp : Block → Block → Block × Block) (iv : Block)
    (bs : List Block) : (chain stp iv bs).length = bs.length := by
  induction bs generalizing iv with
  | nil => rfl
  | cons b bs ih => simp [chain, ih]

theorem chain_encrypt (E : Block → Block) (iv : Block) (bs : List Block) :
    chain (fun iv b => let c := E (xorBuf iv b); (c, c)) iv bs = cbcEncrypt xorBuf E iv bs := by
  induction bs generalizing iv with
  | nil => rfl
  | cons b bs ih => rw [chain, cbcEncrypt, ih]

theorem chain_decrypt (D : Block → Block) (iv : Block) (bs : List Block) :
    chain (fun iv c => (xorBuf iv (D c), c)) iv bs = cbcDecrypt xorBuf D iv bs := by
  induction bs generalizing iv with
  | nil => rfl
  | cons b bs ih => rw [chain, cbcDecrypt, ih]

/-- The accesses of the loop for `k` blocks from block `idx` on. -/
def cbcLog : ℕ → ℕ → List (Access Buf)
  | 0, _ => []
  | k + 1, idx => ⟨.input, .read, (16 * idx : ℕ), 16⟩ :: ⟨.output, .write, (16 * idx : ℕ), 16⟩ ::
      cbcLog k (idx + 1)

/-- The loop accesses the two buffers between its first and its last block, and nothing else. -/
theorem mem_cbcLog {a : Access Buf} {k idx : ℕ} (h : a ∈ cbcLog k idx) :
    (a.buf = .input ∨ a.buf = .output) ∧ 0 ≤ a.off ∧ a.off + a.len ≤ (16 * (idx + k) : ℕ) := by
  induction k generalizing idx with
  | zero => simp [cbcLog] at h
  | succ k ih =>
    simp only [cbcLog, List.mem_cons] at h
    rcases h with rfl | rfl | h
    · refine ⟨Or.inl rfl, ?_, ?_⟩ <;> push_cast <;> omega
    · refine ⟨Or.inr rfl, ?_, ?_⟩ <;> push_cast <;> omega
    · obtain ⟨hbuf, hoff, hend⟩ := ih h
      refine ⟨hbuf, hoff, ?_⟩
      push_cast at hend ⊢
      omega

/-- **The loop.** It writes the chained blocks of its part of the input over the same part of the
output. -/
theorem cbcLoop_eq (stp : Block → Block → Block × Block) {inp out : List UInt8} {k idx : ℕ}
    (iv : Block) (hout : 16 * (idx + k) ≤ out.length) :
    cbcLoop stp inp k idx iv out =
      ⟨.ok (out.take (16 * idx) ++ (flat (chain stp iv (blocksFrom 16 inp idx k)) ++
        out.drop (16 * (idx + k)))), cbcLog k idx⟩ := by
  induction k generalizing idx iv out with
  | zero => simp [cbcLoop, blocksFrom, chain, cbcLog]; rfl
  | succ k ih =>
    set r := stp iv (blockAt 16 inp (16 * idx)) with hr
    have hblit : blit out (16 * idx : ℕ) r.1.toList =
        out.take (16 * idx) ++ r.1.toList ++ out.drop (16 * idx + 16) := by
      rw [blit_of_le (by simp; omega), r.1.length_toList]
    have htake : (out.take (16 * idx) ++ r.1.toList).length = 16 * (idx + 1) := by
      simp; omega
    have hdrop : (blit out (16 * idx : ℕ) r.1.toList).drop (16 * (idx + 1 + k)) =
        out.drop (16 * (idx + (k + 1))) := by
      rw [hblit, List.drop_append, htake, List.drop_drop,
        List.drop_eq_nil_of_le (by rw [htake]; omega), List.nil_append]
      congr 1
      omega
    rw [cbcLoop, Traced.touch, Traced.mk_ok_bind]
    simp only [← hr, Traced.store, Traced.mk_ok_bind]
    rw [ih r.2 (by rw [length_blit]; omega), hdrop, hblit, ← htake, List.take_left]
    simp [cbcLog, blocksFrom, chain, ← hr]

/-! ## The whole content

The two directions on a whole number of blocks, as functions of the bytes alone. -/

/-- The key of `tq_crypto`. -/
def aesKey : List UInt8 :=
  [0x31, 0x32, 0x33, 0x34, 0x35, 0x36, 0x37, 0x38, 0x31, 0x32, 0x33, 0x34, 0x35, 0x35, 0x37, 0x38]

/-- The initial vector of `tq_crypto`. -/
def aesIv : Block :=
  #v[0x4D, 0x4E, 0x41, 0x40, 0x32, 0x30, 0x31, 0x37, 0x47, 0x4F, 0x48, 0x45, 0x41, 0x44, 0x21, 0x21]

/-- `key_schedule` of `tq_crypto`. -/
def keySchedule : List UInt32 := aesKeySetup aesKey (List.replicate 64 0) 128

/-- The encryption of a text of whole blocks under the key of the protocol. -/
def encipher (d : List UInt8) : List UInt8 :=
  flat (cbcEncrypt xorBuf (aesEncrypt keySchedule 128) aesIv (blocksFrom 16 d 0 (d.length / 16)))

/-- The decryption of a text of whole blocks under the key of the protocol. -/
def decipher (c : List UInt8) : List UInt8 :=
  flat (cbcDecrypt xorBuf (aesDecrypt keySchedule 128) aesIv (blocksFrom 16 c 0 (c.length / 16)))

theorem length_encipher {d : List UInt8} (h : d.length % 16 = 0) :
    (encipher d).length = d.length := by
  simp [encipher]; omega

theorem length_decipher {c : List UInt8} (h : c.length % 16 = 0) :
    (decipher c).length = c.length := by
  simp [decipher]; omega

/-- **Deciphering undoes enciphering** on whole blocks. -/
theorem decipher_encipher {d : List UInt8} (h : d.length % 16 = 0) :
    decipher (encipher d) = d := by
  have hlen : (encipher d).length / 16 =
      (cbcEncrypt xorBuf (aesEncrypt keySchedule 128) aesIv
        (blocksFrom 16 d 0 (d.length / 16))).length := by
    rw [length_encipher h]; simp
  have hD : Function.LeftInverse (aesDecrypt keySchedule 128) (aesEncrypt keySchedule 128) :=
    fun b => aesDecrypt_aesEncrypt (Or.inl rfl) keySchedule b
  rw [decipher, hlen]
  simp only [encipher]
  rw [blocksFrom_flat, cbcDecrypt_cbcEncrypt _ _ _ xorBuf_involutive hD,
    flat_blocksFrom (by omega)]
  simpa using List.take_of_length_le (by omega)

theorem aesEncryptCbc_eq {inp out : List UInt8} (hlen : out.length = inp.length)
    (h : inp.length % 16 = 0) :
    aesEncryptCbc keySchedule 128 aesIv inp inp.length out =
      ⟨.ok (encipher inp), cbcLog (inp.length / 16) 0⟩ := by
  rw [aesEncryptCbc, if_neg (by omega), cbcLoop_eq _ _ (by omega), chain_encrypt]
  simp [encipher, List.drop_eq_nil_of_le (by omega : out.length ≤ 16 * (inp.length / 16))]

theorem aesDecryptCbc_eq {inp out : List UInt8} (hlen : out.length = inp.length)
    (h : inp.length % 16 = 0) :
    aesDecryptCbc keySchedule 128 aesIv inp inp.length out =
      ⟨.ok (decipher inp), cbcLog (inp.length / 16) 0⟩ := by
  rw [aesDecryptCbc, if_neg (by omega), cbcLoop_eq _ _ (by omega), chain_decrypt]
  simp [decipher, List.drop_eq_nil_of_le (by omega : out.length ≤ 16 * (inp.length / 16))]

end Aes

open Aes

/-! ## `tq_crypto` -/

namespace Ctt

/-- The content buffer with the bytes `l` at its start and zeros behind them. -/
def ofBytes (l : List UInt8) : Ctt := ⟨l.length, blitV (Vector.replicate contentSSize 0) 0 l⟩

@[simp] theorem len_ofBytes (l : List UInt8) : (ofBytes l).len = l.length := rfl

theorem toList_con_ofBytes {l : List UInt8} (h : l.length ≤ contentSSize) :
    (ofBytes l).con.toList = l ++ List.replicate (contentSSize - l.length) 0 := by
  rw [ofBytes, toList_blitV, ← Nat.cast_zero, blit_of_le (by simpa using h)]
  simp

theorem take_con_ofBytes {l : List UInt8} (h : l.length ≤ contentSSize) :
    (ofBytes l).con.toList.take l.length = l := by
  rw [toList_con_ofBytes h, List.take_left]

end Ctt

/-- `l[i]`, where `before` is the byte in front of `l`. -/
def byteAt (before : UInt8) (l : List UInt8) (i : ℤ) : UInt8 :=
  if i < 0 then before else l.getD i.toNat 0

/-- `memset(dst,0,CONTENT_S_SIZE); ct->len = len; memcpy(dst,src,len)`, the way both functions below
fill `ct`. A negative length is a copy of almost 4 GiB. -/
def fillContent (con : Vector UInt8 contentSSize) (b : Buf) (src : List UInt8) (len : ℤ) :
    Traced Crash Buf Ctt := do
  let con ← Traced.storeV .con con 0 (List.replicate contentSSize 0)
  if len < 0 then
    Traced.touch ⟨b, .read, 0, (2 ^ 32 + len).toNat⟩
    Traced.touch ⟨.con, .write, 0, (2 ^ 32 + len).toNat⟩
    Traced.fail .segv
  else
    let bytes ← Traced.load b src 0 len.toNat
    let con ← Traced.storeV .con con 0 bytes
    pure ⟨len, con⟩

/-- `tq_crypto`. `before` is the byte in front of the heap block `output`. -/
def tqCrypto (before : UInt8) (ct : Ctt) (mode : Mode) : Traced Crash Buf Ctt := do
  let len := ct.len
  let restLen := len.tmod 16
  let paddingLen := if mode = .encrypt then 16 - restLen else 0
  let srcLen := len + paddingLen
  -- input
  Traced.touch ⟨.input, .write, 0, srcLen.toNat⟩
  let content ← Traced.load .con ct.con.toList 0 len.toNat
  let input ← Traced.store .input (List.replicate srcLen.toNat 0) 0 content
  let input ←
    if 0 < paddingLen then
      Traced.store .input input len (List.replicate paddingLen.toNat (UInt8.ofNat paddingLen.toNat))
    else pure input
  -- output
  Traced.touch ⟨.output, .write, 0, srcLen.toNat⟩
  let output := List.replicate srcLen.toNat 0
  let output ←
    if mode = .encrypt then aesEncryptCbc keySchedule 128 aesIv input srcLen.toNat output
    else aesDecryptCbc keySchedule 128 aesIv input srcLen.toNat output
  -- length of the decrypted text
  if mode ≠ .encrypt then
    Traced.touch ⟨.output, .read, srcLen - 1, 1⟩
    let last := byteAt before output (srcLen - 1)
    if 0 < last.toNat ∧ last.toNat ≤ 16 then fillContent ct.con .output output (srcLen - last.toNat)
    else fillContent ct.con .output output srcLen
  else fillContent ct.con .output output srcLen

/-- `tq_crypto_aes`. -/
def tqCryptoAes (before : UInt8) (ct : Ctt) (data : List UInt8) (len : ℤ) (flag : Mode) :
    Traced Crash Buf Ctt := do
  let ct ← fillContent ct.con .data data len
  tqCrypto before ct flag

/-- The accesses of `fillContent`. -/
def fillLog (b : Buf) (len : ℕ) : List (Access Buf) :=
  [⟨.con, .write, 0, contentSSize⟩, ⟨b, .read, 0, len⟩, ⟨.con, .write, 0, len⟩]

/-- What `fillContent` leaves depends on the source only. -/
theorem fillContent_eq (con : Vector UInt8 contentSSize) (b : Buf) {src : List UInt8} {len : ℕ}
    (h : len ≤ src.length) :
    fillContent con b src len = ⟨.ok (Ctt.ofBytes (src.take len)), fillLog b len⟩ := by
  have hclear : blitV con 0 (List.replicate contentSSize 0) = Vector.replicate contentSSize 0 := by
    rw [← Vector.toList_inj, toList_blitV, blit_zero_of_length_eq (by simp)]
    simp
  have hneg : ¬ (len : ℤ) < 0 := by omega
  simp [fillContent, fillLog, Traced.storeV, Traced.load, hclear, hneg, Ctt.ofBytes, h]

/-- A negative length kills the process, in a copy that began at the start of `ct->con`. -/
theorem fillContent_neg (con : Vector UInt8 contentSSize) (b : Buf) (src : List UInt8) {len : ℤ}
    (h : len < 0) :
    fillContent con b src len = ⟨.error .segv, [⟨.con, .write, 0, contentSSize⟩,
      ⟨b, .read, 0, (2 ^ 32 + len).toNat⟩, ⟨.con, .write, 0, (2 ^ 32 + len).toNat⟩]⟩ := by
  rw [fillContent, Traced.storeV, Traced.mk_ok_bind, if_pos h, List.length_replicate]
  rfl

/-- The text a decryption works on: the deciphered content, or zeros when the content is not a whole
number of blocks and nothing was written over the cleared output. -/
def plainOf (c : List UInt8) : List UInt8 :=
  if c.length % 16 = 0 then decipher c else List.replicate c.length 0

@[simp] theorem length_plainOf (c : List UInt8) : (plainOf c).length = c.length := by
  rw [plainOf]
  split
  · exact length_decipher ‹_›
  · simp

/-- The accesses of the chaining loop for a content of length `n`. -/
def chainLog (n : ℕ) : List (Access Buf) := if n % 16 = 0 then cbcLog (n / 16) 0 else []

theorem aesDecryptCbc_replicate (c : List UInt8) :
    aesDecryptCbc keySchedule 128 aesIv c c.length (List.replicate c.length 0) =
      ⟨.ok (plainOf c), chainLog c.length⟩ := by
  by_cases h : c.length % 16 = 0
  · rw [aesDecryptCbc_eq (by simp) h, plainOf, if_pos h, chainLog, if_pos h]
  · rw [aesDecryptCbc, if_pos h, plainOf, if_neg h, chainLog, if_neg h]
    rfl

/-- The accesses of a decryption of `n` bytes up to the look at the last byte. -/
def decryptLog (n : ℕ) : List (Access Buf) :=
  ⟨.input, .write, 0, n⟩ :: ⟨.con, .read, 0, n⟩ :: ⟨.input, .write, 0, n⟩ ::
    ⟨.output, .write, 0, n⟩ :: (chainLog n ++ [⟨.output, .read, (n : ℤ) - 1, 1⟩])

/-- The accesses of an encryption of `n` bytes. -/
def encryptLog (n : ℕ) : List (Access Buf) :=
  ⟨.input, .write, 0, n + padLen 16 n⟩ :: ⟨.con, .read, 0, n⟩ :: ⟨.input, .write, 0, n⟩ ::
    ⟨.input, .write, n, padLen 16 n⟩ :: ⟨.output, .write, 0, n + padLen 16 n⟩ ::
      (cbcLog ((n + padLen 16 n) / 16) 0 ++ fillLog .output (n + padLen 16 n))

/-- A decryption up to the look at the last byte of the text `p`, whatever its length is. -/
theorem tqCrypto_decrypt_eq (before : UInt8) {ct : Ctt} {n : ℕ} (hlen : ct.len = n)
    (hn : n ≤ contentSSize) :
    let p := plainOf (ct.con.toList.take n)
    let last := byteAt before p (n - 1)
    tqCrypto before ct .decrypt =
      (⟨.ok (), decryptLog n⟩ : Traced Crash Buf Unit) >>= fun _ =>
        if 0 < last.toNat ∧ last.toNat ≤ 16 then fillContent ct.con .output p (n - last.toNat)
        else fillContent ct.con .output p n := by
  intro p last
  set c := ct.con.toList.take n with hc
  have hcl : c.length = n := by rw [hc, List.length_take, Vector.length_toList]; omega
  have hinput : blit (List.replicate n 0) 0 c = c := blit_zero_of_length_eq (by simp [hcl])
  have hcbc := aesDecryptCbc_replicate c
  rw [hcl] at hcbc
  simp only [tqCrypto, hlen, reduceCtorEq, if_false, add_zero, Int.toNat_natCast, Traced.touch,
    Traced.load, Traced.store, List.drop_zero, ← hc, hinput, hcl, Traced.mk_ok_bind, lt_self_iff_false,
    Traced.pure_bind, hcbc, ne_eq, not_false_eq_true, if_true]
  simp [decryptLog, p, last, ← hc]

/-- The deciphered text of a nonempty content, without the padding its last byte tells. -/
def decrypted (c : List UInt8) : List UInt8 :=
  (plainOf c).take (cutPadding 16 c.length ((plainOf c).getD (c.length - 1) 0))

/-- **Decryption of a nonempty content.** -/
theorem tqCrypto_decrypt (before : UInt8) {ct : Ctt} {n : ℕ} (hlen : ct.len = n) (hpos : 0 < n)
    (hn : n ≤ contentSSize) :
    let c := ct.con.toList.take n
    tqCrypto before ct .decrypt = ⟨.ok (Ctt.ofBytes (decrypted c)),
      decryptLog n ++ fillLog .output (cutPadding 16 n ((plainOf c).getD (n - 1) 0))⟩ := by
  intro c
  have hcl : c.length = n := by rw [List.length_take, Vector.length_toList]; omega
  have hbyte : byteAt before (plainOf c) (n - 1) = (plainOf c).getD (n - 1) 0 := by
    rw [byteAt, if_neg (by omega), show ((n : ℤ) - 1).toNat = n - 1 by omega]
  rw [tqCrypto_decrypt_eq before hlen hn, hbyte, decrypted, hcl, cutPadding]
  split
  · rename_i hlast
    -- a last byte between 1 and 16 is read from a whole number of blocks, so it is at most `n`
    have hle : ((plainOf c).getD (n - 1) 0).toNat ≤ n := by
      by_cases hmod : n % 16 = 0
      · omega
      · rw [plainOf, if_neg (by omega), hcl, List.getD_eq_getElem?_getD, List.getElem?_replicate]
        split <;> simp
    rw [← Nat.cast_sub hle, fillContent_eq _ _ (by rw [length_plainOf, hcl]; omega)]
    rfl
  · rw [fillContent_eq _ _ (by rw [length_plainOf, hcl])]
    rfl

/-- **Encryption.** The content is padded and enciphered. -/
theorem tqCrypto_encrypt (before : UInt8) {ct : Ctt} {n : ℕ} (hlen : ct.len = n)
    (hn : n < contentSSize) :
    tqCrypto before ct .encrypt =
      ⟨.ok (Ctt.ofBytes (encipher (pad 16 (ct.con.toList.take n)))), encryptLog n⟩ := by
  set c := ct.con.toList.take n with hc
  have hcl : c.length = n := by rw [hc, List.length_take, Vector.length_toList]; omega
  have hpl : (pad 16 c).length = n + padLen 16 n := by
    rw [length_pad (by omega), hcl, add_padLen (by omega)]
  have hmod : (pad 16 c).length % 16 = 0 := by rw [length_pad (by omega)]; omega
  have hle : n + padLen 16 n ≤ contentSSize := by
    rw [add_padLen (by omega)]; unfold contentSSize at *; omega
  have htmod : (16 : ℤ) - (n : ℤ).tmod 16 = padLen 16 n := by
    rw [padLen, Int.tmod_eq_emod_of_nonneg (by omega)]
    push_cast [(Nat.mod_lt n (by omega : 16 > 0)).le]
    rfl
  have hpos : (0 : ℤ) < padLen 16 n := by exact_mod_cast padLen_pos (by omega) n
  have hsrc : ((n : ℤ) + padLen 16 n).toNat = n + padLen 16 n := by omega
  have hinput : blit (List.replicate (n + padLen 16 n) 0) 0 c =
      c ++ List.replicate (padLen 16 n) 0 := by
    rw [← Nat.cast_zero, blit_of_le (by simp [hcl])]
    simp [hcl]
  have hpad : blit (c ++ List.replicate (padLen 16 n) 0) (n : ℤ)
      (List.replicate (padLen 16 n) (UInt8.ofNat (padLen 16 n))) = pad 16 c := by
    rw [blit_of_le (by simp [hcl]), ← hcl, List.take_left]
    simp [pad]
  have hout : (List.replicate (pad 16 c).length (0 : UInt8)).length = (pad 16 c).length := by simp
  have henc := aesEncryptCbc_eq hout hmod
  rw [hpl] at henc
  have hlen' : n + padLen 16 n ≤ (encipher (pad 16 c)).length := by
    rw [length_encipher hmod, hpl]
  simp only [tqCrypto, hlen, if_true, htmod, hsrc, Int.toNat_natCast, Traced.touch, Traced.load,
    Traced.store, List.drop_zero, ← hc, hinput, hcl, Traced.mk_ok_bind, hpos, hpad, henc, ne_eq,
    not_true_eq_false, if_false]
  rw [← Nat.cast_add, fillContent_eq _ _ hlen',
    List.take_of_length_le (by rw [length_encipher hmod, hpl])]
  simp [encryptLog]

/-! ## `tq_crypto_aes` -/

/-- `tq_crypto_aes` is `tq_crypto` on a content that holds the data and nothing else. -/
theorem res_tqCryptoAes (before : UInt8) (ct : Ctt) {data : List UInt8} {len : ℕ}
    (h : len ≤ data.length) (flag : Mode) :
    (tqCryptoAes before ct data len flag).res =
      (tqCrypto before (Ctt.ofBytes (data.take len)) flag).res := by
  rw [tqCryptoAes, fillContent_eq _ _ h, Traced.mk_ok_bind]

/-- The text decryption finds in an encrypted content is the text that was encrypted. -/
theorem decrypted_encipher_pad (d : List UInt8) : decrypted (encipher (pad 16 d)) = d := by
  have hmod : (pad 16 d).length % 16 = 0 := by rw [length_pad (by omega)]; omega
  have hplain : plainOf (encipher (pad 16 d)) = pad 16 d := by
    rw [plainOf, if_pos (by rw [length_encipher hmod, hmod]), decipher_encipher hmod]
  have hlast : (pad 16 d).getD ((pad 16 d).length - 1) 0 = UInt8.ofNat (padLen 16 d.length) := by
    rw [List.getD_eq_getElem?_getD, ← List.getLast?_eq_getElem?, getLast?_pad (by omega)]
    rfl
  rw [decrypted, hplain, length_encipher hmod, hlast, cutPadding_pad (by omega) (by omega), take_pad]

/-- **`DECRYPT` undoes `ENCRYPT`.** Encrypting up to 2047 bytes leaves them padded to whole blocks
in `ct->con`, and decrypting what was left gives exactly those bytes back, with zeros behind them.
-/
theorem tqCryptoAes_decrypt_encrypt (before before' : UInt8) (ct : Ctt) (d : List UInt8)
    (hd : d.length ≤ 2047) :
    ∃ ct₁ ct₂ : Ctt,
      (tqCryptoAes before ct d d.length .encrypt).res = .ok ct₁ ∧
      ct₁.len = 16 * (d.length / 16 + 1) ∧
      ct₁.con.toList.drop ct₁.len.toNat = List.replicate (contentSSize - ct₁.len.toNat) 0 ∧
      (tqCryptoAes before' ct₁ (ct₁.con.toList.take ct₁.len.toNat) ct₁.len .decrypt).res = .ok ct₂ ∧
      ct₂.len = d.length ∧
      ct₂.con.toList = d ++ List.replicate (contentSSize - d.length) 0 := by
  have hmod : (pad 16 d).length % 16 = 0 := by rw [length_pad (by omega)]; omega
  have hpad := length_pad (b := 16) (by omega) d
  have henc : (encipher (pad 16 d)).length = 16 * (d.length / 16 + 1) := by
    rw [length_encipher hmod, hpad]
  have hle : (encipher (pad 16 d)).length ≤ contentSSize := by rw [henc, contentSSize]; omega
  have htake := Ctt.take_con_ofBytes hle
  refine ⟨Ctt.ofBytes (encipher (pad 16 d)), Ctt.ofBytes d, ?_, ?_, ?_, ?_, rfl, ?_⟩
  · rw [res_tqCryptoAes before ct le_rfl, List.take_length,
      tqCrypto_encrypt before (Ctt.len_ofBytes d) (by rw [contentSSize]; omega),
      Ctt.take_con_ofBytes (by rw [contentSSize]; omega)]
  · rw [Ctt.len_ofBytes, henc]; push_cast; rfl
  · rw [Ctt.len_ofBytes, Int.toNat_natCast, Ctt.toList_con_ofBytes hle, List.drop_left]
  · rw [Ctt.len_ofBytes, Int.toNat_natCast, htake, res_tqCryptoAes _ _ le_rfl, List.take_length,
      tqCrypto_decrypt before' (Ctt.len_ofBytes _) (by omega) hle, htake, decrypted_encipher_pad]
  · exact Ctt.toList_con_ofBytes (by rw [contentSSize]; omega)

theorem tqCryptoAes_decrypt_encrypt_hello :
    ∃ ct₁ ct₂ : Ctt,
      (tqCryptoAes 0 ⟨0, Vector.replicate contentSSize 0⟩ [0x68, 0x69] 2 .encrypt).res = .ok ct₁ ∧
      ct₁.len = 16 * (2 / 16 + 1) ∧
      ct₁.con.toList.drop ct₁.len.toNat = List.replicate (contentSSize - ct₁.len.toNat) 0 ∧
      (tqCryptoAes 0 ct₁ (ct₁.con.toList.take ct₁.len.toNat) ct₁.len .decrypt).res = .ok ct₂ ∧
      ct₂.len = 2 ∧ ct₂.con.toList = [0x68, 0x69] ++ List.replicate (contentSSize - 2) 0 :=
  tqCryptoAes_decrypt_encrypt 0 0 ⟨0, Vector.replicate contentSSize 0⟩ [0x68, 0x69] (by decide)

/-! ## No assertion -/

theorem fillContent_ne_assertFail (con : Vector UInt8 contentSSize) (b : Buf) (src : List UInt8)
    (len : ℤ) : (fillContent con b src len).res ≠ .error .assertFail := by
  by_cases h : len < 0
  · rw [fillContent_neg con b src h]
    exact nofun
  · refine Traced.res_bind_ne_error nofun fun con => ?_
    rw [if_neg h]
    exact nofun

theorem cbcLoop_ne_error (stp : Block → Block → Block × Block) (inp : List UInt8) (k idx : ℕ)
    (iv : Block) (out : List UInt8) (e : Crash) :
    (cbcLoop stp inp k idx iv out).res ≠ .error e := by
  induction k generalizing idx iv out with
  | zero => exact nofun
  | succ k ih =>
    refine Traced.res_bind_ne_error nofun fun _ => ?_
    exact Traced.res_bind_ne_error nofun fun _ => ih _ _ _

theorem aesEncryptCbc_ne_error (key : List UInt32) (keysize : ℕ) (iv : Block)
    (inp : List UInt8) (inLen : ℕ) (out : List UInt8) (e : Crash) :
    (aesEncryptCbc key keysize iv inp inLen out).res ≠ .error e := by
  rw [aesEncryptCbc]
  split
  · exact nofun
  · exact cbcLoop_ne_error _ _ _ _ _ _ _

theorem aesDecryptCbc_ne_error (key : List UInt32) (keysize : ℕ) (iv : Block)
    (inp : List UInt8) (inLen : ℕ) (out : List UInt8) (e : Crash) :
    (aesDecryptCbc key keysize iv inp inLen out).res ≠ .error e := by
  rw [aesDecryptCbc]
  split
  · exact nofun
  · exact cbcLoop_ne_error _ _ _ _ _ _ _

theorem fillContent_ok (con : Vector UInt8 contentSSize) (b : Buf) (src : List UInt8) (len : ℕ) :
    ∃ ct, (fillContent con b src len).res = .ok ct ∧ ct.len = len := by
  have hneg : ¬ (len : ℤ) < 0 := by omega
  simp [fillContent, Traced.storeV, Traced.load, hneg]

/-- **Encryption of a text of any length** ends, with the length of the padded text. -/
theorem tqCryptoAes_encrypt_ok (before : UInt8) (ct : Ctt) (d : List UInt8) :
    ∃ ct', (tqCryptoAes before ct d d.length .encrypt).res = .ok ct' ∧
      ct'.len = (d.length + padLen 16 d.length : ℕ) := by
  have htmod : (16 : ℤ) - (d.length : ℤ).tmod 16 = padLen 16 d.length := by
    rw [padLen, Int.tmod_eq_emod_of_nonneg (by omega)]
    push_cast [(Nat.mod_lt d.length (by omega : 16 > 0)).le]
    rfl
  have hpos : (0 : ℤ) < padLen 16 d.length := by exact_mod_cast padLen_pos (by omega) _
  rw [res_tqCryptoAes before ct le_rfl, List.take_length]
  simp only [tqCrypto, Ctt.len_ofBytes, if_true, htmod, Traced.touch, Traced.load, Traced.store,
    Traced.mk_ok_bind, hpos, ne_eq, not_true_eq_false, if_false, ← Nat.cast_add, Int.toNat_natCast]
  obtain ⟨out, hout⟩ := Traced.exists_ok (aesEncryptCbc_ne_error keySchedule 128 aesIv
    (blit (blit (List.replicate (d.length + padLen 16 d.length) 0) 0
      ((List.drop 0 (Ctt.ofBytes d).con.toList).take d.length)) d.length
      (List.replicate (padLen 16 d.length) (UInt8.ofNat (padLen 16 d.length))))
    (d.length + padLen 16 d.length) (List.replicate (d.length + padLen 16 d.length) 0))
  rw [Traced.res_bind_of_ok hout]
  exact fillContent_ok _ _ _ _

/-- Whatever the cipher is given, it does not fail an assertion. -/
theorem tqCryptoAes_ne_assertFail (before : UInt8) (ct : Ctt) (data : List UInt8) (len : ℤ)
    (flag : Mode) : (tqCryptoAes before ct data len flag).res ≠ .error .assertFail := by
  refine Traced.res_bind_ne_error (fillContent_ne_assertFail _ _ _ _) fun ct => ?_
  refine Traced.res_bind_ne_error nofun fun _ => ?_
  refine Traced.res_bind_ne_error nofun fun _ => ?_
  refine Traced.res_bind_ne_error nofun fun _ => ?_
  cases flag with
  | encrypt =>
    simp only [if_true, ne_eq, not_true_eq_false, if_false]
    split
    · refine Traced.res_bind_ne_error nofun fun _ => ?_
      refine Traced.res_bind_ne_error nofun fun _ => ?_
      refine Traced.res_bind_ne_error (aesEncryptCbc_ne_error _ _ _ _ _ _ _) fun _ => ?_
      exact fillContent_ne_assertFail _ _ _ _
    · refine Traced.res_bind_ne_error nofun fun _ => ?_
      refine Traced.res_bind_ne_error nofun fun _ => ?_
      refine Traced.res_bind_ne_error (aesEncryptCbc_ne_error _ _ _ _ _ _ _) fun _ => ?_
      exact fillContent_ne_assertFail _ _ _ _
  | decrypt =>
    simp only [reduceCtorEq, if_false, lt_self_iff_false, ne_eq, not_false_eq_true, if_true]
    refine Traced.res_bind_ne_error nofun fun _ => ?_
    refine Traced.res_bind_ne_error nofun fun _ => ?_
    refine Traced.res_bind_ne_error (aesDecryptCbc_ne_error _ _ _ _ _ _ _) fun _ => ?_
    refine Traced.res_bind_ne_error nofun fun _ => ?_
    split <;> exact fillContent_ne_assertFail _ _ _ _

/-! ## What a decryption may touch -/

/-- The sizes of the buffers while a content of `n` bytes is decrypted. -/
def bufSize (n : ℕ) : Buf → ℕ
  | .gReq | .con => contentSSize
  | .data | .input | .output => n

/-- The length a decryption of `n` bytes is to leave when the last decrypted byte is `last`. -/
def lengthAfter (n : ℕ) (last : UInt8) : ℤ :=
  if 1 ≤ last.toNat ∧ last.toNat ≤ 16 then n - last.toNat else n

/-- A decryption stays inside its buffers and leaves a text no longer than the content: shortened by
the padding for whole blocks, zeros otherwise. -/
structure DecryptsSafely (before : UInt8) (ct : Ctt) : Prop where
  /-- Every access is inside the buffer it is made to. -/
  inside : ∀ a ∈ (tqCrypto before ct .decrypt).log, a.Inside (bufSize ct.len.toNat)
  /-- The function returns, with a length between zero and the one it was given. -/
  ends : ∃ ct', (tqCrypto before ct .decrypt).res = .ok ct' ∧ 0 ≤ ct'.len ∧ ct'.len ≤ ct.len
  /-- Whole blocks lose the padding that the last decrypted byte tells. -/
  blocks : ∀ ct', (tqCrypto before ct .decrypt).res = .ok ct' → 0 < ct.len → ct.len % 16 = 0 →
    ∃ last, (decipher (ct.con.toList.take ct.len.toNat)).getLast? = some last ∧
      ct'.len = lengthAfter ct.len.toNat last
  /-- Anything else becomes zeros. -/
  ragged : ∀ ct', (tqCrypto before ct .decrypt).res = .ok ct' → ct.len % 16 ≠ 0 →
    ct'.len = ct.len ∧ ct'.con.toList.take ct.len.toNat = List.replicate ct.len.toNat 0

theorem inside_fillLog {n m : ℕ} (hm : m ≤ n) (hn : n ≤ contentSSize) :
    ∀ a ∈ fillLog .output m, a.Inside (bufSize n) := by
  simp only [fillLog, List.forall_mem_cons, Access.Inside, bufSize]
  refine ⟨?_, ?_, ?_, by simp⟩ <;> right <;> omega

theorem inside_chainLog (n : ℕ) : ∀ a ∈ chainLog n, a.Inside (bufSize n) := by
  intro a ha
  rw [chainLog] at ha
  split at ha
  · obtain ⟨hbuf, hoff, hend⟩ := mem_cbcLog ha
    have hsize : bufSize n a.buf = n := by rcases hbuf with h | h <;> rw [h] <;> rfl
    refine Or.inr ⟨hoff, hend.trans ?_⟩
    rw [hsize]
    push_cast
    omega
  · cases ha

theorem inside_decryptLog {n : ℕ} (hpos : 0 < n) (hn : n ≤ contentSSize) :
    ∀ a ∈ decryptLog n, a.Inside (bufSize n) := by
  simp only [decryptLog, List.forall_mem_cons, List.forall_mem_append]
  refine ⟨?_, ?_, ?_, ?_, inside_chainLog n, ?_, by simp⟩ <;>
    simp only [Access.Inside, bufSize] <;> right <;> omega

/-- The empty content is the one that is read in front of. -/
theorem not_inside_empty (before : UInt8) (con : Vector UInt8 contentSSize) :
    ∃ a ∈ (tqCrypto before ⟨0, con⟩ .decrypt).log, ¬ a.Inside (bufSize 0) := by
  refine ⟨⟨.output, .read, -1, 1⟩, ?_, by decide⟩
  rw [tqCrypto_decrypt_eq before (n := 0) rfl (by omega)]
  exact Traced.mem_log_bind_left (by simp [decryptLog])

theorem cutPadding_of_not_dvd {c : List UInt8} (h : c.length % 16 ≠ 0) :
    cutPadding 16 c.length ((plainOf c).getD (c.length - 1) 0) = c.length := by
  rw [plainOf, if_neg h, cutPadding, if_neg]
  rw [List.getD_eq_getElem?_getD, List.getElem?_replicate]
  split <;> simp

theorem length_decrypted (c : List UInt8) : (decrypted c).length =
    cutPadding 16 c.length ((plainOf c).getD (c.length - 1) 0) := by
  have hcut : cutPadding 16 c.length ((plainOf c).getD (c.length - 1) 0) ≤ c.length := by
    rw [cutPadding]
    split <;> omega
  rw [decrypted, List.length_take, length_plainOf, Nat.min_eq_left hcut]

/-- Of whole blocks, the byte that is looked at is the last one of the deciphered text. -/
theorem length_decrypted_of_dvd {c : List UInt8} (h : c.length % 16 = 0) (hpos : 0 < c.length) :
    ∃ last, (decipher c).getLast? = some last ∧
      ((decrypted c).length : ℤ) = lengthAfter c.length last := by
  have hdec : (decipher c).length = c.length := length_decipher h
  refine ⟨(decipher c).getD (c.length - 1) 0, ?_, ?_⟩
  · rw [List.getLast?_eq_getElem?, hdec, List.getD_eq_getElem?_getD,
      List.getElem?_eq_getElem (by omega)]
    rfl
  · have hplain : plainOf c = decipher c := if_pos h
    rw [length_decrypted, hplain, lengthAfter, cutPadding]
    simp only [Nat.succ_le_iff]
    split <;> omega

/-- Anything else becomes zeros. -/
theorem decrypted_of_not_dvd {c : List UInt8} (h : c.length % 16 ≠ 0) :
    decrypted c = List.replicate c.length 0 := by
  rw [decrypted, cutPadding_of_not_dvd h, plainOf, if_neg h, List.take_replicate, Nat.min_self]

/-- **Decryption is safe exactly for nonempty content.** -/
theorem decryptsSafely_iff (before : UInt8) (con : Vector UInt8 contentSSize) {n : ℕ}
    (hn : n ≤ 2017) : DecryptsSafely before ⟨n, con⟩ ↔ n ≠ 0 := by
  constructor
  · rintro h rfl
    obtain ⟨a, ha, hout⟩ := not_inside_empty before con
    exact hout (h.inside a ha)
  · intro hne
    have hpos : 0 < n := Nat.pos_of_ne_zero hne
    have hn' : n ≤ contentSSize := by rw [contentSSize]; omega
    have hcl : (con.toList.take n).length = n := by
      rw [List.length_take, Vector.length_toList]; omega
    have hrun := tqCrypto_decrypt before (rfl : (⟨n, con⟩ : Ctt).len = n) hpos hn'
    dsimp only at hrun
    set c := con.toList.take n with hc
    have hlen : (decrypted c).length = cutPadding 16 n ((plainOf c).getD (n - 1) 0) := by
      rw [length_decrypted, hcl]
    have hcut : cutPadding 16 n ((plainOf c).getD (n - 1) 0) ≤ n := by
      rw [cutPadding]
      split <;> omega
    refine ⟨?_, ⟨Ctt.ofBytes (decrypted c), by rw [hrun], ?_, ?_⟩, ?_, ?_⟩
    · rw [hrun]
      exact List.forall_mem_append.mpr ⟨inside_decryptLog hpos hn', inside_fillLog hcut hn'⟩
    · exact Nat.cast_nonneg _
    · rw [Ctt.len_ofBytes, hlen]
      exact Nat.cast_le.mpr hcut
    · intro ct' hct' _ hmod
      rw [hrun] at hct'
      obtain rfl := Except.ok.inj hct'
      dsimp only at hmod ⊢
      obtain ⟨last, hlast, hafter⟩ :=
        @length_decrypted_of_dvd c (by rw [hcl]; omega) (by rw [hcl]; exact hpos)
      rw [hcl] at hafter
      refine ⟨last, ?_, ?_⟩
      · rw [Int.toNat_natCast, ← hc, hlast]
      · rw [Ctt.len_ofBytes, hafter, Int.toNat_natCast]
    · intro ct' hct' hmod
      rw [hrun] at hct'
      obtain rfl := Except.ok.inj hct'
      dsimp only at hmod ⊢
      have hzero : decrypted c = List.replicate n 0 := by
        rw [decrypted_of_not_dvd (by rw [hcl]; omega), hcl]
      have htake := @Ctt.take_con_ofBytes (decrypted c) (by omega)
      rw [hzero, List.length_replicate] at htake
      refine ⟨by rw [hzero]; simp, ?_⟩
      rw [hzero, Int.toNat_natCast, htake]

theorem decryptsSafely_iff_block :
    DecryptsSafely 0 ⟨(16 : ℕ), Vector.replicate contentSSize 0⟩ ↔ 16 ≠ 0 :=
  decryptsSafely_iff 0 (Vector.replicate contentSSize 0) (by omega)

/-- With an empty content the byte in front of the output is read. -/
theorem not_decryptsSafely_empty :
    ¬ DecryptsSafely 0 ⟨(0 : ℕ), Vector.replicate contentSSize 0⟩ := by
  intro h
  obtain ⟨a, ha, hout⟩ := not_inside_empty 0 (Vector.replicate contentSSize 0)
  exact hout (h.inside a ha)

end Tqos
