import Tqos.Tserver.AesTables
import Mathlib.Tactic.IntervalCases

/-!
# The AES block cipher of the server

`tq_aes.c` up to `aes_decrypt`: the key expansion, the four steps of a round with their inverses,
and the two directions of the cipher for the three key sizes. The state is the 4×4 matrix of the
source, `state[r][c]` being `st.rr.xc`.

## Main results

* `decRound_encRound` — one decryption round takes back one encryption round, seen from between the
  row shift and the key addition
* `aesDecrypt_aesEncrypt` — `aes_decrypt` undoes `aes_encrypt` under *every* key schedule, for each
  of the three key sizes

Nothing is assumed of the key schedule. The proof is about the rounds only, so it does not depend on
`aes_key_setup` at all; the expansion is modelled because `tq_crypto` runs it.
-/

namespace Tqos

namespace Aes

/-! ## The state -/

/-- Four bytes: a row or a column of the state. -/
structure Quad where
  x0 : UInt8
  x1 : UInt8
  x2 : UInt8
  x3 : UInt8
deriving DecidableEq, Repr

/-- The 4×4 matrix `BYTE state[4][4]`, by rows. -/
structure State where
  r0 : Quad
  r1 : Quad
  r2 : Quad
  r3 : Quad
deriving DecidableEq, Repr

/-- A block of `AES_BLOCK_SIZE` bytes. -/
abbrev Block := Vector UInt8 16

/-- Copy a block into the state, column by column. -/
def State.ofBlock (b : Block) : State :=
  ⟨⟨b[0], b[4], b[8], b[12]⟩, ⟨b[1], b[5], b[9], b[13]⟩, ⟨b[2], b[6], b[10], b[14]⟩,
    ⟨b[3], b[7], b[11], b[15]⟩⟩

/-- Copy the state into a block, column by column. -/
def State.toBlock (st : State) : Block :=
  #v[st.r0.x0, st.r1.x0, st.r2.x0, st.r3.x0, st.r0.x1, st.r1.x1, st.r2.x1, st.r3.x1,
    st.r0.x2, st.r1.x2, st.r2.x2, st.r3.x2, st.r0.x3, st.r1.x3, st.r2.x3, st.r3.x3]

@[simp] theorem State.ofBlock_toBlock (st : State) : State.ofBlock st.toBlock = st := rfl

@[simp] theorem State.toBlock_ofBlock (b : Block) : (State.ofBlock b).toBlock = b := by
  ext i hi
  interval_cases i <;> rfl

/-- The same function on each of the sixteen bytes. -/
def State.map (f : UInt8 → UInt8) (st : State) : State :=
  let row := fun q : Quad => (⟨f q.x0, f q.x1, f q.x2, f q.x3⟩ : Quad)
  ⟨row st.r0, row st.r1, row st.r2, row st.r3⟩

/-- The same function on each of the four columns. -/
def State.mapCols (f : Quad → Quad) (st : State) : State :=
  let c0 := f ⟨st.r0.x0, st.r1.x0, st.r2.x0, st.r3.x0⟩
  let c1 := f ⟨st.r0.x1, st.r1.x1, st.r2.x1, st.r3.x1⟩
  let c2 := f ⟨st.r0.x2, st.r1.x2, st.r2.x2, st.r3.x2⟩
  let c3 := f ⟨st.r0.x3, st.r1.x3, st.r2.x3, st.r3.x3⟩
  ⟨⟨c0.x0, c1.x0, c2.x0, c3.x0⟩, ⟨c0.x1, c1.x1, c2.x1, c3.x1⟩, ⟨c0.x2, c1.x2, c2.x2, c3.x2⟩,
    ⟨c0.x3, c1.x3, c2.x3, c3.x3⟩⟩

theorem State.map_map {f g : UInt8 → UInt8} (h : ∀ x, g (f x) = x) (st : State) :
    (st.map f).map g = st := by
  simp [State.map, h]

theorem State.mapCols_mapCols {f g : Quad → Quad} (h : ∀ q, g (f q) = q) (st : State) :
    (st.mapCols f).mapCols g = st := by
  have hcol : ∀ q : Quad, g ⟨(f q).x0, (f q).x1, (f q).x2, (f q).x3⟩ = q := h
  simp [State.mapCols, hcol]

/-! ## Key expansion -/

/-- `KE_ROTWORD`. -/
def keRotword (x : UInt32) : UInt32 := (x <<< 8) ||| (x >>> 24)

/-- `SubWord`: the S-box on each of the four bytes of a word. -/
def subWord (word : UInt32) : UInt32 :=
  let s := fun k : UInt32 => (lookup aesSbox (word >>> k).toUInt8).toUInt32
  s 0 + (s 8 <<< 8) + (s 16 <<< 16) + (s 24 <<< 24)

/-- The round constants of `aes_key_setup`. -/
def rcon : List UInt32 :=
  [0x01000000, 0x02000000, 0x04000000, 0x08000000, 0x10000000, 0x20000000, 0x40000000, 0x80000000,
    0x1b000000, 0x36000000, 0x6c000000, 0xd8000000, 0xab000000, 0x4d000000, 0x9a000000]

/-- The rounds `Nr` and the key words `Nk` of a key size; `none` for a size the code refuses. -/
def keyParams : ℕ → Option (ℕ × ℕ)
  | 128 => some (10, 4)
  | 192 => some (12, 6)
  | 256 => some (14, 8)
  | _ => none

/-- `w[idx]` of the first loop of `aes_key_setup`: four bytes of the key, the first one on top. -/
def keyWord (key : List UInt8) (idx : ℕ) : UInt32 :=
  let b := fun k => (key.getD (4 * idx + k) 0).toUInt32
  (b 0 <<< 24) ||| (b 1 <<< 16) ||| (b 2 <<< 8) ||| b 3

/-- `w[idx]` of the second loop of `aes_key_setup`. -/
def expandWord (nk : ℕ) (w : List UInt32) (idx : ℕ) : UInt32 :=
  let temp := w.getD (idx - 1) 0
  let temp :=
    if idx % nk = 0 then subWord (keRotword temp) ^^^ rcon.getD ((idx - 1) / nk) 0
    else if 6 < nk ∧ idx % nk = 4 then subWord temp
    else temp
  w.getD (idx - nk) 0 ^^^ temp

/-- `aes_key_setup`: the key schedule written over `w`. -/
def aesKeySetup (key : List UInt8) (w : List UInt32) (keysize : ℕ) : List UInt32 :=
  match keyParams keysize with
  | none => w
  | some (nr, nk) =>
    let w := (List.range nk).foldl (fun w idx => w.set idx (keyWord key idx)) w
    (List.range' nk (4 * (nr + 1) - nk)).foldl (fun w idx => w.set idx (expandWord nk w idx)) w

/-! ## The steps of a round -/

/-- Byte `r` of a word of the key schedule, the top byte being the first. -/
def subkey (w : UInt32) (r : ℕ) : UInt8 := (w >>> UInt32.ofNat (24 - 8 * r)).toUInt8

/-- `AddRoundKey(state, &key[off])`. -/
def addRoundKey (key : List UInt32) (st : State) (off : ℕ) : State :=
  let k := fun r c => subkey (key.getD (off + c) 0) r
  let row := fun (q : Quad) r =>
    (⟨q.x0 ^^^ k r 0, q.x1 ^^^ k r 1, q.x2 ^^^ k r 2, q.x3 ^^^ k r 3⟩ : Quad)
  ⟨row st.r0 0, row st.r1 1, row st.r2 2, row st.r3 3⟩

/-- `SubBytes`. -/
def subBytes (st : State) : State := st.map (lookup aesSbox)

/-- `InvSubBytes`. -/
def invSubBytes (st : State) : State := st.map (lookup aesInvsbox)

/-- `ShiftRows`: row `r` to the left by `r`. -/
def shiftRows (st : State) : State :=
  ⟨st.r0, ⟨st.r1.x1, st.r1.x2, st.r1.x3, st.r1.x0⟩, ⟨st.r2.x2, st.r2.x3, st.r2.x0, st.r2.x1⟩,
    ⟨st.r3.x3, st.r3.x0, st.r3.x1, st.r3.x2⟩⟩

/-- `InvShiftRows`: row `r` to the right by `r`. -/
def invShiftRows (st : State) : State :=
  ⟨st.r0, ⟨st.r1.x3, st.r1.x0, st.r1.x1, st.r1.x2⟩, ⟨st.r2.x2, st.r2.x3, st.r2.x0, st.r2.x1⟩,
    ⟨st.r3.x1, st.r3.x2, st.r3.x3, st.r3.x0⟩⟩

/-- What `MixColumns` does to one column. -/
def mixColumn (col : Quad) : Quad where
  x0 := gfMul col.x0 0 ^^^ gfMul col.x1 1 ^^^ col.x2 ^^^ col.x3
  x1 := col.x0 ^^^ gfMul col.x1 0 ^^^ gfMul col.x2 1 ^^^ col.x3
  x2 := col.x0 ^^^ col.x1 ^^^ gfMul col.x2 0 ^^^ gfMul col.x3 1
  x3 := gfMul col.x0 1 ^^^ col.x1 ^^^ col.x2 ^^^ gfMul col.x3 0

/-- What `InvMixColumns` does to one column. -/
def invMixColumn (col : Quad) : Quad where
  x0 := gfMul col.x0 5 ^^^ gfMul col.x1 3 ^^^ gfMul col.x2 4 ^^^ gfMul col.x3 2
  x1 := gfMul col.x0 2 ^^^ gfMul col.x1 5 ^^^ gfMul col.x2 3 ^^^ gfMul col.x3 4
  x2 := gfMul col.x0 4 ^^^ gfMul col.x1 2 ^^^ gfMul col.x2 5 ^^^ gfMul col.x3 3
  x3 := gfMul col.x0 3 ^^^ gfMul col.x1 4 ^^^ gfMul col.x2 2 ^^^ gfMul col.x3 5

/-- `MixColumns`. -/
def mixColumns (st : State) : State := st.mapCols mixColumn

/-- `InvMixColumns`. -/
def invMixColumns (st : State) : State := st.mapCols invMixColumn

/-! ## Each step has its inverse -/

@[simp] theorem addRoundKey_addRoundKey (key : List UInt32) (st : State) (off : ℕ) :
    addRoundKey key (addRoundKey key st off) off = st := by
  simp [addRoundKey, UInt8.xor_assoc]

@[simp] theorem invSubBytes_subBytes (st : State) : invSubBytes (subBytes st) = st :=
  State.map_map lookup_aesInvsbox_aesSbox st

@[simp] theorem invShiftRows_shiftRows (st : State) : invShiftRows (shiftRows st) = st := rfl

/-- `mixColumn` in terms of the field, one rotation of the bytes for each entry. -/
theorem mixColumn_eq (q : Quad) :
    mixColumn q = ⟨Gf256.mix q.x0 q.x1 q.x2 q.x3, Gf256.mix q.x1 q.x2 q.x3 q.x0,
      Gf256.mix q.x2 q.x3 q.x0 q.x1, Gf256.mix q.x3 q.x0 q.x1 q.x2⟩ := by
  simp only [mixColumn, Gf256.mix, gfMul_eq_gmul (show 0 < 6 by omega),
    gfMul_eq_gmul (show 1 < 6 by omega), gfCoeff, List.getD_cons_zero, List.getD_cons_succ,
    Quad.mk.injEq]
  refine ⟨trivial, ?_, ?_, ?_⟩ <;> ac_rfl

theorem invMixColumn_eq (q : Quad) :
    invMixColumn q = ⟨Gf256.invMix q.x0 q.x1 q.x2 q.x3, Gf256.invMix q.x1 q.x2 q.x3 q.x0,
      Gf256.invMix q.x2 q.x3 q.x0 q.x1, Gf256.invMix q.x3 q.x0 q.x1 q.x2⟩ := by
  simp only [invMixColumn, Gf256.invMix, gfMul_eq_gmul (show 2 < 6 by omega),
    gfMul_eq_gmul (show 3 < 6 by omega), gfMul_eq_gmul (show 4 < 6 by omega),
    gfMul_eq_gmul (show 5 < 6 by omega), gfCoeff, List.getD_cons_zero, List.getD_cons_succ,
    Quad.mk.injEq]
  refine ⟨trivial, ?_, ?_, ?_⟩ <;> ac_rfl

@[simp] theorem invMixColumns_mixColumns (st : State) : invMixColumns (mixColumns st) = st := by
  refine State.mapCols_mapCols (fun q => ?_) st
  rw [invMixColumn_eq, mixColumn_eq]
  simp only [Gf256.invMix_mix]

/-! ## The cipher -/

/-- A full encryption round with the round key at `off`. -/
def encRound (key : List UInt32) (st : State) (off : ℕ) : State :=
  addRoundKey key (mixColumns (shiftRows (subBytes st))) off

/-- A full decryption round with the round key at `off`. -/
def decRound (key : List UInt32) (st : State) (off : ℕ) : State :=
  invMixColumns (addRoundKey key (invSubBytes (invShiftRows st)) off)

/-- The last encryption round, which does not mix the columns. -/
def lastRound (key : List UInt32) (st : State) (off : ℕ) : State :=
  addRoundKey key (shiftRows (subBytes st)) off

/-- `aes_encrypt`. -/
def aesEncrypt (key : List UInt32) (keysize : ℕ) (inp : Block) : Block :=
  let st := addRoundKey key (State.ofBlock inp) 0
  let st := [4, 8, 12, 16, 20, 24, 28, 32, 36].foldl (encRound key) st
  let st :=
    if keysize ≠ 128 then
      let st := [40, 44].foldl (encRound key) st
      if keysize ≠ 192 then lastRound key ([48, 52].foldl (encRound key) st) 56
      else lastRound key st 48
    else lastRound key st 40
  st.toBlock

/-- `aes_decrypt`. -/
def aesDecrypt (key : List UInt32) (keysize : ℕ) (inp : Block) : Block :=
  let st := State.ofBlock inp
  let st :=
    if 128 < keysize then
      let st :=
        if 192 < keysize then [52, 48].foldl (decRound key) (addRoundKey key st 56)
        else addRoundKey key st 48
      [44, 40].foldl (decRound key) st
    else addRoundKey key st 40
  let st := [36, 32, 28, 24, 20, 16, 12, 8, 4].foldl (decRound key) st
  (addRoundKey key (invSubBytes (invShiftRows st)) 0).toBlock

/-- **One round taken back.** The states compared are those between `ShiftRows` and the addition of
the next round key, which is where a decryption round starts and ends. -/
theorem decRound_encRound (key : List UInt32) (st : State) (off : ℕ) :
    decRound key (shiftRows (subBytes (encRound key st off))) off = shiftRows (subBytes st) := by
  simp [decRound, encRound]

/-- The rounds of a list of key offsets, taken back in the opposite order. -/
theorem foldl_decRound (key : List UInt32) (st : State) (offs : List ℕ) :
    offs.reverse.foldl (decRound key) (shiftRows (subBytes (offs.foldl (encRound key) st))) =
      shiftRows (subBytes st) := by
  induction offs using List.reverseRecOn with
  | nil => rfl
  | append_singleton offs off ih =>
    rw [List.reverse_append, List.foldl_append, List.foldl_append]
    simpa [decRound_encRound] using ih

/-- **`aes_decrypt` undoes `aes_encrypt`**, under every key schedule. -/
theorem aesDecrypt_aesEncrypt {keysize : ℕ} (hk : keysize = 128 ∨ keysize = 192 ∨ keysize = 256)
    (key : List UInt32) (b : Block) :
    aesDecrypt key keysize (aesEncrypt key keysize b) = b := by
  have h9 := foldl_decRound key (addRoundKey key (State.ofBlock b) 0)
    [4, 8, 12, 16, 20, 24, 28, 32, 36]
  have h2 := fun st => foldl_decRound key st [40, 44]
  have h2' := fun st => foldl_decRound key st [48, 52]
  simp only [List.reverse_cons, List.reverse_nil, List.nil_append, List.cons_append] at h9 h2 h2'
  rcases hk with rfl | rfl | rfl <;>
    simp [aesEncrypt, aesDecrypt, lastRound, -List.foldl_cons, -List.foldl_nil, h9, h2, h2']

end Aes

end Tqos
