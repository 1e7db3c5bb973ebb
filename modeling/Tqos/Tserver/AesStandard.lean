import Tqos.Lib.Rijndael
import Tqos.Tserver.Aes

/-!
# The block cipher of the server is the standard one

`aes_key_setup` and `aes_encrypt` against the cipher on matrices over the field of the bytes: the
tables are the substitution and the products of the field, the words of the schedule are those of
the recursion, and the rounds are matrix operations.

## Main results

* `lookup_aesSbox` — `aes_sbox` is an inverse in the field and an affine map
* `toWord_aesKeySetup` — the key schedule
* `matrix_aesEncrypt` — the cipher, for the three key sizes
-/

namespace Tqos

namespace Aes

open ByteField (GF toField)

/-! ## The tables -/

/-- The byte whose image under the affine map is in `aes_sbox`. -/
def sboxInv (b : UInt8) : UInt8 :=
  let s := lookup aesSbox b
  Rijndael.rotl s 1 ^^^ Rijndael.rotl s 3 ^^^ Rijndael.rotl s 6 ^^^ 0x05

theorem bmul_sboxInv (b : UInt8) (h : b ≠ 0) : ByteField.bmul b (sboxInv b) = 1 := by
  have hall := forall_byte (p := fun b => b == 0 || ByteField.bmul b (sboxInv b) == 1)
    (by decide +kernel) b
  rw [Bool.or_eq_true, beq_iff_eq, beq_iff_eq] at hall
  exact hall.resolve_left h

theorem affine_sboxInv (b : UInt8) : Rijndael.affine (sboxInv b) = lookup aesSbox b :=
  eq_of_beq <| forall_byte (p := fun b => Rijndael.affine (sboxInv b) == lookup aesSbox b)
    (by decide +kernel) b

/-- **The S-box** is that of the standard. -/
theorem lookup_aesSbox (b : UInt8) : toField (lookup aesSbox b) = Rijndael.sbox (toField b) := by
  have hzero : sboxInv 0 = 0 := by decide +kernel
  rw [Rijndael.sbox_toField bmul_sboxInv hzero, affine_sboxInv]

/-- **The bytes are a field**: the S-box has the inverses. -/
theorem isField_bytes : IsField GF := ByteField.isField bmul_sboxInv

theorem gfMul_two (b : UInt8) : toField (gfMul b 0) = ByteField.root * toField b := by
  have hdouble : Gf256.gmul 2 b = Gf256.xtime b := by
    show (0 ^^^ Gf256.xtime b ^^^ 0 ^^^ 0 : UInt8) = _
    simp
  rw [gfMul_eq_gmul (by decide), ← ByteField.toField_xtime, ← hdouble]
  rfl

theorem gfMul_three (b : UInt8) :
    toField (gfMul b 1) = (ByteField.root + 1) * toField b := by
  have htriple : Gf256.gmul 3 b = b ^^^ Gf256.xtime b := by
    show (b ^^^ Gf256.xtime b ^^^ 0 ^^^ 0 : UInt8) = _
    simp
  have hcoeff : gfCoeff 1 = 3 := rfl
  rw [gfMul_eq_gmul (by decide), hcoeff, htriple, ByteField.toField_xor, ByteField.toField_xtime]
  ring

/-! ## The state -/

/-- The byte `r` of a column. -/
def Quad.entry (q : Quad) : Fin 4 → UInt8 := ![q.x0, q.x1, q.x2, q.x3]

/-- `state[r][c]`. -/
def State.entry (st : State) : Fin 4 → Fin 4 → UInt8 :=
  ![![st.r0.x0, st.r0.x1, st.r0.x2, st.r0.x3], ![st.r1.x0, st.r1.x1, st.r1.x2, st.r1.x3],
    ![st.r2.x0, st.r2.x1, st.r2.x2, st.r2.x3], ![st.r3.x0, st.r3.x1, st.r3.x2, st.r3.x3]]

/-- The matrix of a state. -/
noncomputable def matrix (st : State) : Rijndael.State GF :=
  Matrix.of fun r c => toField (st.entry r c)

/-- The word of a word of the schedule, the top byte first. -/
noncomputable def toWord (w : UInt32) : Rijndael.Word GF := fun r => toField (subkey w r)

/-- The words of a schedule. -/
noncomputable def words (key : List UInt32) (i : ℕ) : Rijndael.Word GF := toWord (key.getD i 0)

section Rounds

variable {key : List UInt32} {st : State} {i : ℕ}

theorem entry_map (f : UInt8 → UInt8) (r c : Fin 4) :
    (st.map f).entry r c = f (st.entry r c) := by
  fin_cases r <;> fin_cases c <;> rfl

theorem entry_mapCols (f : Quad → Quad) (r c : Fin 4) : (st.mapCols f).entry r c =
    (f ⟨st.entry 0 c, st.entry 1 c, st.entry 2 c, st.entry 3 c⟩).entry r := by
  fin_cases r <;> fin_cases c <;> rfl

theorem entry_addRoundKey (r c : Fin 4) : (addRoundKey key st (4 * i)).entry r c =
    st.entry r c ^^^ subkey (key.getD (4 * i + c) 0) r := by
  rw [addRoundKey]
  generalize subkey = f
  fin_cases r <;> fin_cases c <;> rfl

theorem entry_shiftRows (r c : Fin 4) : (shiftRows st).entry r c = st.entry r (c + r) := by
  fin_cases r <;> fin_cases c <;> simp [State.entry, shiftRows]

theorem matrix_addRoundKey : matrix (addRoundKey key st (4 * i)) =
    matrix st + Rijndael.roundKey (words key) i := by
  ext r c
  simp only [matrix, Matrix.of_apply, Matrix.add_apply, entry_addRoundKey, ByteField.toField_xor,
    Rijndael.roundKey, words, toWord]

theorem matrix_subBytes : matrix (subBytes st) = (matrix st).map Rijndael.sbox := by
  ext r c
  simp only [matrix, Matrix.of_apply, Matrix.map_apply, subBytes, entry_map, lookup_aesSbox]

theorem matrix_shiftRows : matrix (shiftRows st) = Rijndael.shiftRows (matrix st) := by
  ext r c
  simp only [matrix, Matrix.of_apply, Rijndael.shiftRows, entry_shiftRows]

theorem matrix_mixColumns :
    matrix (mixColumns st) = Rijndael.mixing ByteField.root * matrix st := by
  ext r c
  simp only [matrix, Matrix.of_apply, Matrix.mul_apply, Fin.sum_univ_four, mixColumns,
    entry_mapCols]
  fin_cases r <;>
    simp [Quad.entry, mixColumn, gfMul_two, gfMul_three, Rijndael.mixing, Matrix.circulant_apply]

/-- A round of the code is a round. -/
theorem matrix_encRound : matrix (encRound key st (4 * i)) =
    Rijndael.round Rijndael.sbox ByteField.root (words key) (matrix st) i := by
  rw [encRound, matrix_addRoundKey, matrix_mixColumns, matrix_shiftRows, matrix_subBytes,
    Rijndael.round]

theorem matrix_lastRound : matrix (lastRound key st (4 * i)) =
    Rijndael.shiftRows ((matrix st).map Rijndael.sbox) + Rijndael.roundKey (words key) i := by
  rw [lastRound, matrix_addRoundKey, matrix_shiftRows, matrix_subBytes]

theorem matrix_foldl_encRound (is : List ℕ) :
    matrix ((is.map (4 * ·)).foldl (encRound key) st) =
      is.foldl (Rijndael.round Rijndael.sbox ByteField.root (words key)) (matrix st) := by
  induction is generalizing st with
  | nil => rfl
  | cons i is ih => rw [List.map_cons, List.foldl_cons, List.foldl_cons, ih, matrix_encRound]

/-- **The cipher**, under any schedule. -/
theorem matrix_aesEncrypt_eq {keysize nr nk : ℕ} (hk : keyParams keysize = some (nr, nk))
    (key : List UInt32) (b : Block) :
    matrix (State.ofBlock (aesEncrypt key keysize b)) =
      Rijndael.cipher Rijndael.sbox ByteField.root (words key) nr (matrix (State.ofBlock b)) := by
  have hstart : matrix (addRoundKey key (State.ofBlock b) 0) =
      matrix (State.ofBlock b) + Rijndael.roundKey (words key) 0 := matrix_addRoundKey (i := 0)
  have hrounds {offs : List ℕ} {n off : ℕ} (hoffs : offs = (List.range' 1 n).map (4 * ·))
      (hoff : off = 4 * (n + 1)) :
      matrix (lastRound key (offs.foldl (encRound key) (addRoundKey key (State.ofBlock b) 0)) off) =
        Rijndael.cipher Rijndael.sbox ByteField.root (words key) (n + 1)
          (matrix (State.ofBlock b)) := by
    subst hoffs hoff
    rw [matrix_lastRound, matrix_foldl_encRound, hstart, Rijndael.cipher, Nat.add_sub_cancel]
  rw [keyParams.eq_def] at hk
  split at hk
  · obtain ⟨rfl, rfl⟩ := Prod.mk.inj (Option.some.inj hk)
    rw [aesEncrypt, State.ofBlock_toBlock, if_neg (by decide), hrounds (n := 9) (by decide) rfl]
  · obtain ⟨rfl, rfl⟩ := Prod.mk.inj (Option.some.inj hk)
    rw [aesEncrypt, State.ofBlock_toBlock, if_pos (by decide), if_neg (by decide),
      ← List.foldl_append, hrounds (n := 11) (by decide) rfl]
  · obtain ⟨rfl, rfl⟩ := Prod.mk.inj (Option.some.inj hk)
    rw [aesEncrypt, State.ofBlock_toBlock, if_pos (by decide), if_pos (by decide),
      ← List.foldl_append, ← List.foldl_append, hrounds (n := 13) (by decide) rfl]
  · cases hk

end Rounds

/-! ## The words of the schedule -/

section Words

/-- The number of a word, by its bytes. -/
theorem toNat_eq_subkey (w : UInt32) : w.toNat = (subkey w 0).toNat * 2 ^ 24 +
    (subkey w 1).toNat * 2 ^ 16 + (subkey w 2).toNat * 2 ^ 8 + (subkey w 3).toNat := by
  have hlt := w.toNat_lt
  have h0 : (subkey w 0).toNat = w.toNat / 2 ^ 24 % 256 := by
    simp [subkey, Nat.shiftRight_eq_div_pow]
  have h1 : (subkey w 1).toNat = w.toNat / 2 ^ 16 % 256 := by
    simp [subkey, Nat.shiftRight_eq_div_pow]
  have h2 : (subkey w 2).toNat = w.toNat / 2 ^ 8 % 256 := by
    simp [subkey, Nat.shiftRight_eq_div_pow]
  have h3 : (subkey w 3).toNat = w.toNat % 256 := by
    simp [subkey]
  omega

/-- **The bytes of a word** are those its number is made of. -/
theorem subkey_of_toNat {w : UInt32} {b0 b1 b2 b3 : UInt8} (h : w.toNat =
    b0.toNat * 2 ^ 24 + b1.toNat * 2 ^ 16 + b2.toNat * 2 ^ 8 + b3.toNat) :
    subkey w 0 = b0 ∧ subkey w 1 = b1 ∧ subkey w 2 = b2 ∧ subkey w 3 = b3 := by
  have heq := toNat_eq_subkey w
  have h0 := (subkey w 0).toNat_lt
  have h1 := (subkey w 1).toNat_lt
  have h2 := (subkey w 2).toNat_lt
  have h3 := (subkey w 3).toNat_lt
  have h0' := b0.toNat_lt
  have h1' := b1.toNat_lt
  have h2' := b2.toNat_lt
  have h3' := b3.toNat_lt
  simp only [← UInt8.toNat_inj]
  omega

theorem subkey_xor (v w : UInt32) (r : ℕ) : subkey (v ^^^ w) r = subkey v r ^^^ subkey w r := by
  rw [subkey, UInt32.shiftRight_xor, UInt32.toUInt8_xor]
  rfl

theorem subkey_keRotword (w : UInt32) :
    subkey (keRotword w) 0 = subkey w 1 ∧ subkey (keRotword w) 1 = subkey w 2 ∧
      subkey (keRotword w) 2 = subkey w 3 ∧ subkey (keRotword w) 3 = subkey w 0 := by
  have heq := toNat_eq_subkey w
  have h0 := (subkey w 0).toNat_lt
  have h1 := (subkey w 1).toNat_lt
  have h2 := (subkey w 2).toNat_lt
  have h3 := (subkey w 3).toNat_lt
  have hlow : w.toNat / 2 ^ 24 < 2 ^ 8 := by omega
  have hor := Nat.shiftLeft_add_eq_or_of_lt hlow (w.toNat % 2 ^ 24)
  have hhigh : w.toNat <<< 8 % 2 ^ 32 = (w.toNat % 2 ^ 24) <<< 8 := by
    rw [Nat.shiftLeft_eq, Nat.shiftLeft_eq]
    omega
  have hnat : (keRotword w).toNat = w.toNat <<< 8 % 2 ^ 32 ||| w.toNat >>> 24 := by
    simp [keRotword]
  refine subkey_of_toNat ?_
  rw [hnat, hhigh, Nat.shiftRight_eq_div_pow, ← hor, Nat.shiftLeft_eq]
  omega

/-- **The substitution** of the bytes of a word. -/
theorem subkey_subWord (w : UInt32) :
    subkey (subWord w) 0 = lookup aesSbox (subkey w 0) ∧
      subkey (subWord w) 1 = lookup aesSbox (subkey w 1) ∧
      subkey (subWord w) 2 = lookup aesSbox (subkey w 2) ∧
      subkey (subWord w) 3 = lookup aesSbox (subkey w 3) := by
  have h0 := (lookup aesSbox (subkey w 0)).toNat_lt
  have h1 := (lookup aesSbox (subkey w 1)).toNat_lt
  have h2 := (lookup aesSbox (subkey w 2)).toNat_lt
  have h3 := (lookup aesSbox (subkey w 3)).toNat_lt
  have hword : subWord w = (lookup aesSbox (subkey w 3)).toUInt32 +
      ((lookup aesSbox (subkey w 2)).toUInt32 <<< 8) +
      ((lookup aesSbox (subkey w 1)).toUInt32 <<< 16) +
      ((lookup aesSbox (subkey w 0)).toUInt32 <<< 24) := rfl
  refine subkey_of_toNat ?_
  rw [hword]
  simp only [UInt32.toNat_add, UInt32.toNat_shiftLeft, UInt8.toNat_toUInt32, Nat.shiftLeft_eq,
    UInt32.toNat_ofNat]
  norm_num
  omega

/-- **The bytes of a word of the key.** -/
theorem subkey_keyWord (key : List UInt8) (idx : ℕ) :
    subkey (keyWord key idx) 0 = key.getD (4 * idx + 0) 0 ∧
      subkey (keyWord key idx) 1 = key.getD (4 * idx + 1) 0 ∧
      subkey (keyWord key idx) 2 = key.getD (4 * idx + 2) 0 ∧
      subkey (keyWord key idx) 3 = key.getD (4 * idx + 3) 0 := by
  generalize hb0 : key.getD (4 * idx + 0) 0 = b0
  generalize hb1 : key.getD (4 * idx + 1) 0 = b1
  generalize hb2 : key.getD (4 * idx + 2) 0 = b2
  generalize hb3 : key.getD (4 * idx + 3) 0 = b3
  have h0 := b0.toNat_lt
  have h1 := b1.toNat_lt
  have h2 := b2.toNat_lt
  have h3 := b3.toNat_lt
  have hword : (keyWord key idx).toNat = b0.toNat <<< 24 % 2 ^ 32 ||| b1.toNat <<< 16 % 2 ^ 32 |||
      b2.toNat <<< 8 % 2 ^ 32 ||| b3.toNat := by
    rw [keyWord]
    dsimp only
    rw [hb0, hb1, hb2, hb3]
    simp
  have hmod : b0.toNat <<< 24 % 2 ^ 32 = b0.toNat <<< 24 ∧
      b1.toNat <<< 16 % 2 ^ 32 = b1.toNat <<< 16 ∧ b2.toNat <<< 8 % 2 ^ 32 = b2.toNat <<< 8 := by
    simp only [Nat.shiftLeft_eq]
    omega
  -- each byte is below the ones in front of it
  have hor₁ := Nat.shiftLeft_add_eq_or_of_lt (i := 8) h3 b2.toNat
  have hor₂ := Nat.shiftLeft_add_eq_or_of_lt (i := 16) (b := b2.toNat <<< 8 + b3.toNat)
    (by rw [Nat.shiftLeft_eq]; omega) b1.toNat
  have hor₃ := Nat.shiftLeft_add_eq_or_of_lt (i := 24)
    (b := b1.toNat <<< 16 + (b2.toNat <<< 8 + b3.toNat))
    (by rw [Nat.shiftLeft_eq, Nat.shiftLeft_eq]; omega) b0.toNat
  refine subkey_of_toNat ?_
  rw [hword, hmod.1, hmod.2.1, hmod.2.2, Nat.or_assoc, Nat.or_assoc, ← hor₁, ← hor₂, ← hor₃]
  simp only [Nat.shiftLeft_eq]
  omega

/-- The round constants are the powers. -/
theorem subkey_rcon {k : ℕ} (hk : k < 10) :
    toField (subkey (rcon.getD k 0) 0) = ByteField.root ^ k ∧ subkey (rcon.getD k 0) 1 = 0 ∧
      subkey (rcon.getD k 0) 2 = 0 ∧ subkey (rcon.getD k 0) 3 = 0 := by
  have hall : ∀ k : Fin 10, subkey (rcon.getD k 0) 0 = Gf256.xtime^[k] 1 ∧
      subkey (rcon.getD k 0) 1 = 0 ∧ subkey (rcon.getD k 0) 2 = 0 ∧
      subkey (rcon.getD k 0) 3 = 0 := by decide +kernel
  obtain ⟨h0, hrest⟩ := hall ⟨k, hk⟩
  have hpow (n : ℕ) : toField (Gf256.xtime^[n] 1) = ByteField.root ^ n := by
    induction n with
    | zero => exact ByteField.toField_one
    | succ n ih => rw [Function.iterate_succ_apply', ByteField.toField_xtime, ih, pow_succ']
  exact ⟨(congrArg toField h0).trans (hpow k), hrest⟩

theorem toWord_xor (v w : UInt32) : toWord (v ^^^ w) = toWord v + toWord w := by
  funext r
  simp only [toWord, Pi.add_apply, subkey_xor, ByteField.toField_xor]

/-- Two words are equal if their bytes are. -/
theorem word_ext {v w : Rijndael.Word GF} (h0 : v 0 = w 0) (h1 : v 1 = w 1) (h2 : v 2 = w 2)
    (h3 : v 3 = w 3) : v = w := by
  funext r
  fin_cases r
  · exact h0
  · exact h1
  · exact h2
  · exact h3

theorem toWord_keRotword (w : UInt32) : toWord (keRotword w) = Rijndael.rotWord (toWord w) := by
  obtain ⟨h0, h1, h2, h3⟩ := subkey_keRotword w
  exact word_ext (congrArg toField h0) (congrArg toField h1) (congrArg toField h2)
    (congrArg toField h3)

theorem toWord_subWord (w : UInt32) : toWord (subWord w) = Rijndael.sbox ∘ toWord w := by
  obtain ⟨h0, h1, h2, h3⟩ := subkey_subWord w
  exact word_ext ((congrArg toField h0).trans (lookup_aesSbox _))
    ((congrArg toField h1).trans (lookup_aesSbox _))
    ((congrArg toField h2).trans (lookup_aesSbox _))
    ((congrArg toField h3).trans (lookup_aesSbox _))

/-- The words of a key. -/
noncomputable def keyWords (key : List UInt8) (i : ℕ) : Rijndael.Word GF :=
  fun r => toField (key.getD (4 * i + r) 0)

theorem toWord_keyWord (key : List UInt8) (idx : ℕ) : toWord (keyWord key idx) =
    keyWords key idx := by
  obtain ⟨h0, h1, h2, h3⟩ := subkey_keyWord key idx
  exact word_ext (congrArg toField h0) (congrArg toField h1) (congrArg toField h2)
    (congrArg toField h3)

theorem toWord_rcon {k : ℕ} (hk : k < 10) :
    toWord (rcon.getD k 0) = ![ByteField.root ^ k, 0, 0, 0] := by
  obtain ⟨h0, h1, h2, h3⟩ := subkey_rcon hk
  exact word_ext h0 ((congrArg toField h1).trans ByteField.toField_zero)
    ((congrArg toField h2).trans ByteField.toField_zero)
    ((congrArg toField h3).trans ByteField.toField_zero)

/-- **A word of the second loop** is one of the recursion, if those before it are. -/
theorem toWord_expandWord {nk idx : ℕ} {w : List UInt32} {W : ℕ → Rijndael.Word GF}
    (hnk : 0 < nk) (hle : nk ≤ idx) (hrcon : idx / nk ≤ 10)
    (hw : ∀ j < idx, toWord (w.getD j 0) = W j) : toWord (expandWord nk w idx) =
      W (idx - nk) + Rijndael.schedule Rijndael.sbox ByteField.root nk idx (W (idx - 1)) := by
  rw [expandWord, toWord_xor, hw _ (by omega)]
  congr 1
  have hbefore := hw (idx - 1) (by omega)
  rw [Rijndael.schedule]
  by_cases hmod : idx % nk = 0
  · obtain ⟨q, hq⟩ : ∃ q, idx = nk * (q + 1) := by
      obtain ⟨q, rfl⟩ := Nat.dvd_of_mod_eq_zero hmod
      cases q with
      | zero => omega
      | succ q => exact ⟨q, rfl⟩
    have hdiv : idx / nk = q + 1 := by rw [hq, Nat.mul_div_cancel_left _ hnk]
    have hpred : (idx - 1) / nk = q := by
      have hsplit : idx - 1 = nk - 1 + nk * q := by
        rw [hq, Nat.mul_succ]
        omega
      rw [hsplit, Nat.add_mul_div_left _ _ hnk, Nat.div_eq_of_lt (by omega), Nat.zero_add]
    rw [if_pos hmod, if_pos hmod, toWord_xor, toWord_subWord, toWord_keRotword, hbefore, hpred,
      toWord_rcon (by omega), hdiv, Nat.add_sub_cancel]
  · rw [if_neg hmod, if_neg hmod]
    split
    · rw [toWord_subWord, hbefore]
    · exact hbefore

/-- **A loop that sets one word after the other**, each from those before it. -/
theorem foldl_set {P : ℕ → UInt32 → Prop} {f : List UInt32 → ℕ → UInt32} {k : ℕ}
    (hf : ∀ w idx, (∀ j < idx, P j (w.getD j 0)) → k ≤ idx → P idx (f w idx))
    {n : ℕ} {w : List UInt32} (hlen : k + n ≤ w.length) (hw : ∀ j < k, P j (w.getD j 0)) :
    ((List.range' k n).foldl (fun w idx => w.set idx (f w idx)) w).length = w.length ∧
      ∀ j < k + n,
        P j (((List.range' k n).foldl (fun w idx => w.set idx (f w idx)) w).getD j 0) := by
  induction n with
  | zero => exact ⟨rfl, hw⟩
  | succ n ih =>
    obtain ⟨ihlen, ihw⟩ := ih (by omega)
    rw [List.range'_concat, List.foldl_append]
    simp only [Nat.one_mul, List.foldl_cons, List.foldl_nil]
    generalize (List.range' k n).foldl (fun w idx => w.set idx (f w idx)) w = v at ihlen ihw ⊢
    refine ⟨List.length_set.trans ihlen, fun j hj => ?_⟩
    by_cases heq : j = k + n
    · subst heq
      rw [List.getD_eq_getElem?_getD, List.getElem?_set_self (by omega)]
      exact hf v (k + n) ihw (Nat.le_add_right k n)
    · rw [List.getD_eq_getElem?_getD, List.getElem?_set_ne (Ne.symm heq),
        ← List.getD_eq_getElem?_getD]
      exact ihw j (by omega)

/-- **The key schedule** is that of the standard, whatever was in the array. -/
theorem toWord_aesKeySetup {keysize nr nk : ℕ} (hk : keyParams keysize = some (nr, nk))
    (key : List UInt8) {w : List UInt32} (hw : 4 * (nr + 1) ≤ w.length) {j : ℕ}
    (hj : j < 4 * (nr + 1)) : words (aesKeySetup key w keysize) j =
      Rijndael.expand Rijndael.sbox ByteField.root nk (keyWords key) j := by
  have hparams : 0 < nk ∧ nk ≤ 4 * (nr + 1) ∧ ∀ i < 4 * (nr + 1), i / nk ≤ 10 := by
    rw [keyParams.eq_def] at hk
    split at hk
    · obtain ⟨rfl, rfl⟩ := Prod.mk.inj (Option.some.inj hk)
      exact ⟨by decide, by decide, fun i hi => by omega⟩
    · obtain ⟨rfl, rfl⟩ := Prod.mk.inj (Option.some.inj hk)
      exact ⟨by decide, by decide, fun i hi => by omega⟩
    · obtain ⟨rfl, rfl⟩ := Prod.mk.inj (Option.some.inj hk)
      exact ⟨by decide, by decide, fun i hi => by omega⟩
    · cases hk
  obtain ⟨hnk, hle, hrcon⟩ := hparams
  obtain ⟨W, hW⟩ : ∃ W, W = Rijndael.expand Rijndael.sbox ByteField.root nk (keyWords key) :=
    ⟨_, rfl⟩
  have hfirst : ∀ (v : List UInt32) idx, (∀ j < idx, j < nk → toWord (v.getD j 0) = W j) →
      0 ≤ idx → idx < nk → toWord (keyWord key idx) = W idx := by
    intro _ idx _ _ hidx
    rw [toWord_keyWord, hW, Rijndael.expand_of_lt hidx]
  have hsecond : ∀ (v : List UInt32) idx,
      (∀ j < idx, j < 4 * (nr + 1) → toWord (v.getD j 0) = W j) → nk ≤ idx →
        idx < 4 * (nr + 1) → toWord (expandWord nk v idx) = W idx := by
    intro v idx hv hidx hlt
    rw [toWord_expandWord hnk hidx (hrcon idx hlt) fun j hj => hv j hj (hj.trans hlt), hW,
      ← Rijndael.expand_of_le hnk hidx]
  obtain ⟨hlen₁, hwords₁⟩ := foldl_set (P := fun j x => j < nk → toWord x = W j) (k := 0) hfirst
    (n := nk) (w := w) (by omega) (fun j hj => absurd hj (Nat.not_lt_zero j))
  rw [Nat.zero_add] at hwords₁
  obtain ⟨-, hwords₂⟩ := foldl_set (P := fun j x => j < 4 * (nr + 1) → toWord x = W j) (k := nk)
    hsecond (n := 4 * (nr + 1) - nk) (hlen₁.symm ▸ by omega) fun j hj _ => hwords₁ j hj hj
  have hdone := hwords₂ j (by omega) hj
  rw [words, aesKeySetup, hk, ← hW]
  dsimp only
  rw [List.range_eq_range']
  exact hdone

/-- **The block cipher of the server is the standard one**: on every block, with the schedule made
of a key for one of the three sizes, whatever was in the array of the schedule before. -/
theorem matrix_aesEncrypt (keysize nr nk : ℕ) (hk : keyParams keysize = some (nr, nk))
    (key : List UInt8) (w : List UInt32) (hw : 4 * (nr + 1) ≤ w.length) (b : Block) :
    matrix (State.ofBlock (aesEncrypt (aesKeySetup key w keysize) keysize b)) =
      Rijndael.cipher Rijndael.sbox ByteField.root
        (Rijndael.expand Rijndael.sbox ByteField.root nk (keyWords key)) nr
        (matrix (State.ofBlock b)) := by
  rw [matrix_aesEncrypt_eq hk]
  exact Rijndael.cipher_congr (fun j hj => toWord_aesKeySetup hk key hw hj) _

/-- The zero block under the key of the bytes up to fifteen. -/
theorem matrix_aesEncrypt_zero : keyParams 128 = some (10, 4) ∧
    4 * (10 + 1) ≤ (List.replicate 60 (0 : UInt32)).length ∧
    matrix (State.ofBlock (aesEncrypt
      (aesKeySetup ((List.range 16).map UInt8.ofNat) (List.replicate 60 0) 128) 128
      (Vector.replicate 16 0))) =
      Rijndael.cipher Rijndael.sbox ByteField.root
        (Rijndael.expand Rijndael.sbox ByteField.root 4
          (keyWords ((List.range 16).map UInt8.ofNat))) 10
        (matrix (State.ofBlock (Vector.replicate 16 0))) :=
  ⟨rfl, by decide, matrix_aesEncrypt 128 10 4 rfl ((List.range 16).map UInt8.ofNat)
    (List.replicate 60 0) (by decide) (Vector.replicate 16 0)⟩

end Words

end Aes

end Tqos
