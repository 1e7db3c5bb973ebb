import Tqos.Ltm.Http

/-!
# The cipher of the updater

`lt_endecry.c`. Each byte is mixed with two bytes of the key, one from the front and one from the
back, and the other function takes them off in the other order. The buffers are in one memory, so
that they may be the same; the key is not in it.

The index of the loops is an `int` that is compared and reduced as a `size_t`, which no text in
memory reaches. A use of an array outside its bounds is `none`.

## Main results

* `wwLoop_spec` — what a loop writes, into a buffer of its own or into the one it reads
* `hasKey_gWwKeys` — a password that was installed ends within the 32 bytes of a key
* `ww_restores` — each function undoes the other, and so it is with the default password
-/

namespace Tqos

namespace Ltm

/-! ## The functions -/

/-- The loop of both functions, at the byte `i` with `todo` to come. -/
def wwLoop (mix : UInt8 → UInt8 → UInt8 → UInt8) (key : Text) (keyLen inp out : ℕ) :
    ℕ → ℕ → Text → Option Text
  | 0, _, mem => some mem
  | todo + 1, i, mem => do
    let c ← mem[inp + i]?
    let front ← key[i % keyLen]?
    let back ← key[keyLen - 1 - i % keyLen]?
    if out + i < mem.length then
      wwLoop mix key keyLen inp out todo (i + 1) (mem.set (out + i) (mix c front back))
    else none

/-- What both functions do; NULL is `none`. -/
def ww (mix : UInt8 → UInt8 → UInt8 → UInt8) (mem : Text) (inp : Option ℕ) (inLen : ℕ)
    (key : Option Text) (keyLen : ℕ) (out : Option ℕ) : Option (ℤ × Text) :=
  match inp, key, out with
  | some inp, some key, some out =>
    if inLen ≤ 0 ∨ keyLen ≤ 2 then some (-1, mem)
    else (wwLoop mix key keyLen inp out inLen 0 mem).map fun mem => (0, mem)
  | _, _, _ => some (-1, mem)

/-- `ww_encrypt`. -/
def wwEncrypt : Text → Option ℕ → ℕ → Option Text → ℕ → Option ℕ → Option (ℤ × Text) :=
  ww fun c front back => (c + front) ^^^ back

/-- `ww_decrypt`. -/
def wwDecrypt : Text → Option ℕ → ℕ → Option Text → ℕ → Option ℕ → Option (ℤ × Text) :=
  ww fun c front back => (c ^^^ back) - front

/-- `g_ww_keys`: one row of 40 bytes. -/
def gWwKeys : Text := lit "tP%Dco|#q,@6SGg_#8$j5>M]tDR7,wA!" ++ List.replicate 8 0

/-- `strncpy`: what is written. -/
def strncpy (src : Text) (n : ℕ) : Text :=
  (cstr src).take n ++ List.replicate (n - (cstr src).length) 0

/-- `set_ww_pass_by_id`. -/
def setWwPassById (id : ℤ) (pass keys : Text) : Option (ℤ × Text) :=
  if id < 0 ∨ id ≥ 5 then some (-1, keys)
  else
    let row := 40 * id.toNat
    if row + 32 ≤ keys.length then
      some (0, keys.take row ++ strncpy pass 32 ++ keys.drop (row + 32))
    else none

/-- `get_ww_pass_by_id`: the result, the buffer and the length. -/
def getWwPassById (id : ℤ) (keys pKey : Text) (len : ℕ) : Option (ℤ × Text × ℕ) :=
  if id < 0 ∨ id ≥ 5 then some (-1, pKey, len)
  else
    let row := keys.drop (40 * id.toNat)
    let key := cstr row
    if (0 : UInt8) ∈ row ∧ key.length ≤ pKey.length then
      some (0, (key.map fun c => c ^^^ 255) ++ pKey.drop key.length, key.length)
    else none

/-- What both functions with the default password do; `key` is not set yet. -/
def withDefaultPass (f : Text → Option ℕ → ℕ → Option Text → ℕ → Option ℕ → Option (ℤ × Text))
    (keys : Text) (key : Vector UInt8 32) (mem : Text) (inp : Option ℕ) (inLen : ℕ)
    (out : Option ℕ) : Option (ℤ × Text) := do
  let (ret, key, keyLen) ← getWwPassById 0 keys key.toList 0
  if ret ≠ 0 then some (ret, mem) else f mem inp inLen (some key) keyLen out

/-- `encrypt_with_default_pass`. -/
def encryptWithDefaultPass :
    Text → Vector UInt8 32 → Text → Option ℕ → ℕ → Option ℕ → Option (ℤ × Text) :=
  withDefaultPass wwEncrypt

/-- `decrypt_with_default_pass`. -/
def decryptWithDefaultPass :
    Text → Vector UInt8 32 → Text → Option ℕ → ℕ → Option ℕ → Option (ℤ × Text) :=
  withDefaultPass wwDecrypt

/-! ## What is asked -/

/-- The buffer at an address. -/
def bytesAt (mem : Text) (p n : ℕ) : Text := (mem.drop p).take n

/-- Two buffers of `n` bytes are the same, or have no byte in common. -/
def SameOrApart (p q n : ℕ) : Prop := p = q ∨ p + n ≤ q ∨ q + n ≤ p

/-- A function of an input buffer, its length and an output buffer in a memory. -/
abbrev Cipher := Text → Option ℕ → ℕ → Option ℕ → Option (ℤ × Text)

/-- What `f` makes of a nonempty buffer, `g` turns back into it, wherever they write. -/
def Restores (f g : Cipher) : Prop :=
  ∀ (mem : Text) (inp out back n : ℕ), 0 < n → inp + n ≤ mem.length → out + n ≤ mem.length →
    back + n ≤ mem.length → SameOrApart inp out n → SameOrApart out back n →
      ∃ mem₁ mem₂, f mem (some inp) n (some out) = some (0, mem₁) ∧
        g mem₁ (some out) n (some back) = some (0, mem₂) ∧ bytesAt mem₂ back n = bytesAt mem inp n

/-- Passwords that are installed one after another. -/
def install (keys pass : Text) : Option Text := (setWwPassById 0 pass keys).map Prod.snd

/-! ## The loops -/

section Loops

variable {mix : UInt8 → UInt8 → UInt8 → UInt8} {key mem : Text} {keyLen inp out n : ℕ}

/-- What the byte `i` becomes. -/
def mixAt (mix : UInt8 → UInt8 → UInt8 → UInt8) (key : Text) (keyLen i : ℕ) (c : UInt8) : UInt8 :=
  mix c (key.getD (i % keyLen) 0) (key.getD (keyLen - 1 - i % keyLen) 0)

theorem getElem?_eq_getD {l : Text} {i : ℕ} (h : i < l.length) : l[i]? = some (l.getD i 0) := by
  rw [List.getD_eq_getElem?_getD, List.getElem?_eq_getElem h]
  rfl

/-- **What a loop writes.** -/
theorem wwLoop_spec (mix : UInt8 → UInt8 → UInt8 → UInt8) (hkey : 0 < keyLen)
    (hlen : keyLen ≤ key.length) (happ : SameOrApart inp out n) {todo i : ℕ}
    (htodo : i + todo = n) (hin : inp + n ≤ mem.length) (hout : out + n ≤ mem.length) :
    ∃ mem', wwLoop mix key keyLen inp out todo i mem = some mem' ∧ mem'.length = mem.length ∧
      ∀ k, mem'[k]? = if out + i ≤ k ∧ k < out + n then
        mem[inp + (k - out)]?.map (mixAt mix key keyLen (k - out)) else mem[k]? := by
  induction todo generalizing i mem with
  | zero =>
    refine ⟨mem, rfl, rfl, fun k => ?_⟩
    rw [if_neg (by omega)]
  | succ todo ih =>
    have hmod : i % keyLen < keyLen := Nat.mod_lt _ hkey
    have hc : mem[inp + i]? = some (mem.getD (inp + i) 0) := getElem?_eq_getD (by omega)
    have hfront : key[i % keyLen]? = some (key.getD (i % keyLen) 0) := getElem?_eq_getD (by omega)
    have hback : key[keyLen - 1 - i % keyLen]? = some (key.getD (keyLen - 1 - i % keyLen) 0) :=
      getElem?_eq_getD (by omega)
    have hset : (mem.set (out + i) (mixAt mix key keyLen i (mem.getD (inp + i) 0))).length =
        mem.length := List.length_set
    obtain ⟨mem', hrest, hlen', hmem'⟩ := ih (i := i + 1) (by omega) (hset.symm ▸ hin)
      (hset.symm ▸ hout)
    refine ⟨mem', ?_, hlen'.trans List.length_set, fun k => ?_⟩
    · rw [wwLoop, hc, hfront, hback]
      exact (if_pos (by omega)).trans hrest
    · rw [hmem']
      by_cases hk : k = out + i
      · rw [if_neg (by omega), if_pos (by omega), hk, List.getElem?_set_self (by omega),
          Nat.add_sub_cancel_left, hc]
        rfl
      · have hsame : inp + (k - out) ≠ out + i ∨ ¬ (out + i ≤ k ∧ k < out + n) := by
          rcases happ with happ | happ | happ <;> omega
        by_cases hrange : out + i ≤ k ∧ k < out + n
        · rw [if_pos (by omega), if_pos hrange, List.getElem?_set_ne (by omega)]
        · rw [if_neg (by omega), if_neg hrange, List.getElem?_set_ne (Ne.symm hk)]

theorem getElem?_bytesAt (mem : Text) (p n j : ℕ) :
    (bytesAt mem p n)[j]? = if j < n then mem[p + j]? else none := by
  rw [bytesAt, List.getElem?_take, List.getElem?_drop]

/-- Only the first `keyLen` bytes of a key count. -/
theorem mixAt_take (mix : UInt8 → UInt8 → UInt8 → UInt8) (key : Text) (hkey : 0 < keyLen) (i : ℕ) :
    mixAt mix (key.take keyLen) keyLen i = mixAt mix key keyLen i := by
  have hmod : i % keyLen < keyLen := Nat.mod_lt _ hkey
  have htake : ∀ j < keyLen, (key.take keyLen).getD j 0 = key.getD j 0 := fun j hj => by
    rw [List.getD_eq_getElem?_getD, List.getElem?_take, if_pos hj, ← List.getD_eq_getElem?_getD]
  funext c
  rw [mixAt, mixAt, htake _ hmod, htake _ (by omega)]

/-- **Two functions that undo each other byte by byte** do so on buffers. -/
theorem restores_ww {mix' : UInt8 → UInt8 → UInt8 → UInt8} {key' : Text}
    (hinv : ∀ c front back, mix' (mix c front back) front back = c) (hkey : 3 ≤ keyLen)
    (hlen : keyLen ≤ key.length) (hsame : key'.take keyLen = key.take keyLen) :
    Restores (fun mem inp inLen out => ww mix mem inp inLen (some key) keyLen out)
      (fun mem inp inLen out => ww mix' mem inp inLen (some key') keyLen out) := by
  have hlen' : keyLen ≤ key'.length := by
    have hcut := congrArg List.length hsame
    rw [List.length_take, List.length_take] at hcut
    omega
  intro mem inp out back n hn hin hout hback hio hob
  obtain ⟨mem₁, hrun₁, hlen₁, hmem₁⟩ := wwLoop_spec mix (i := 0) (by omega) hlen hio
    (Nat.zero_add n) hin hout
  obtain ⟨mem₂, hrun₂, -, hmem₂⟩ := wwLoop_spec mix' (i := 0) (by omega) hlen' hob
    (Nat.zero_add n) (hlen₁ ▸ hout) (hlen₁ ▸ hback)
  have hcheck : ¬ (n ≤ 0 ∨ keyLen ≤ 2) := by omega
  refine ⟨mem₁, mem₂, ?_, ?_, ?_⟩
  · show (if n ≤ 0 ∨ keyLen ≤ 2 then _ else _) = _
    rw [if_neg hcheck, hrun₁]
    rfl
  · show (if n ≤ 0 ∨ keyLen ≤ 2 then _ else _) = _
    rw [if_neg hcheck, hrun₂]
    rfl
  · refine List.ext_getElem? fun j => ?_
    rw [getElem?_bytesAt, getElem?_bytesAt]
    split
    · rw [hmem₂, if_pos (by omega), hmem₁, if_pos (by omega), Nat.add_sub_cancel_left,
        Nat.add_sub_cancel_left, Option.map_map]
      have hid : mixAt mix' key' keyLen j ∘ mixAt mix key keyLen j = id := by
        rw [← mixAt_take mix' key' (by omega), hsame, mixAt_take _ _ (by omega)]
        funext c
        exact hinv c _ _
      rw [hid, Option.map_id_fun, id]
    · rfl

theorem decrypt_encrypt_byte (c front back : UInt8) :
    (((c + front) ^^^ back) ^^^ back) - front = c := by
  rw [UInt8.xor_assoc, UInt8.xor_self, UInt8.xor_zero, UInt8.add_sub_cancel]

theorem encrypt_decrypt_byte (c front back : UInt8) :
    (((c ^^^ back) - front) + front) ^^^ back = c := by
  rw [UInt8.sub_add_cancel, UInt8.xor_assoc, UInt8.xor_self, UInt8.xor_zero]

end Loops

/-! ## The default password -/

section Passwords

variable {keys pass : Text}

/-- The row of a key in use: a NUL is behind the 32 bytes. -/
def HasKey (keys : Text) : Prop :=
  ∃ key : Text, key.length = 32 ∧ keys = key ++ List.replicate 8 0

theorem hasKey_gWwKeys : HasKey gWwKeys := ⟨_, by decide, rfl⟩

theorem length_strncpy (src : Text) (n : ℕ) : (strncpy src n).length = n := by
  rw [strncpy, List.length_append, List.length_take, List.length_replicate]
  omega

theorem ne_zero_of_mem_cstr {t : Text} {c : UInt8} (hc : c ∈ cstr t) : c ≠ 0 := by
  have hmem := List.mem_takeWhile_imp hc
  exact of_decide_eq_true hmem

/-- A NUL is behind what was copied. -/
theorem cstr_strncpy (src : Text) (n k : ℕ) :
    cstr (strncpy src n ++ List.replicate (k + 1) 0) = (cstr src).take n := by
  have hnone : ∀ c ∈ (cstr src).take n, c ≠ 0 := fun c hc =>
    ne_zero_of_mem_cstr (List.mem_of_mem_take hc)
  have hzeros : ∀ m, cstr (List.replicate (m + 1) 0) = [] := fun m => rfl
  rw [strncpy, List.append_assoc, List.replicate_append_replicate, cstr,
    List.takeWhile_append_of_pos fun c hc => decide_eq_true (hnone c hc), ← Nat.add_assoc]
  exact (congrArg _ (hzeros _)).trans (List.append_nil _)

/-- **Installing a password** succeeds. -/
theorem install_eq (h : HasKey keys) (pass : Text) :
    install keys pass = some (strncpy pass 32 ++ List.replicate 8 0) := by
  obtain ⟨key, hlen, rfl⟩ := h
  rw [install, setWwPassById, if_neg (by decide)]
  show Option.map _ (if 0 + 32 ≤ (key ++ List.replicate 8 0).length then _ else _) = _
  rw [if_pos (by simp [hlen]), Option.map_some]
  show some ((key ++ List.replicate 8 0).take 0 ++ _ ++
    (key ++ List.replicate 8 0).drop (0 + 32)) = _
  rw [List.take_zero, List.nil_append, Nat.zero_add, List.drop_left' hlen]

theorem foldlM_install (h : HasKey keys) (ps : List Text) :
    ∃ keys', ps.foldlM install keys = some keys' ∧ HasKey keys' := by
  induction ps generalizing keys with
  | nil => exact ⟨keys, rfl, h⟩
  | cons p ps ih =>
    obtain ⟨keys', hrest, hkeys'⟩ := ih ⟨strncpy p 32, length_strncpy p 32, rfl⟩
    refine ⟨keys', ?_, hkeys'⟩
    rw [List.foldlM_cons, install_eq h]
    exact hrest

theorem getWwPassById_zero {pKey : Text} {len : ℕ} (hzero : (0 : UInt8) ∈ keys)
    (hle : (cstr keys).length ≤ pKey.length) :
    getWwPassById 0 keys pKey len =
      some (0, ((cstr keys).map fun c => c ^^^ 255) ++ pKey.drop (cstr keys).length,
        (cstr keys).length) :=
  (if_neg (by decide)).trans (if_pos ⟨hzero, hle⟩)

/-- What is derived from a password. -/
def derived (pass : Text) : Text := ((cstr pass).take 32).map fun c => c ^^^ 255

/-- **The key that is derived** fits into the buffer. -/
theorem getWwPassById_strncpy (pass : Text) (key : Vector UInt8 32) (len : ℕ) :
    getWwPassById 0 (strncpy pass 32 ++ List.replicate 8 0) key.toList len =
      some (0, derived pass ++ key.toList.drop (derived pass).length, (derived pass).length) := by
  have hcstr : cstr (strncpy pass 32 ++ List.replicate 8 0) = (cstr pass).take 32 :=
    cstr_strncpy pass 32 7
  have hzero : (0 : UInt8) ∈ strncpy pass 32 ++ List.replicate 8 0 :=
    List.mem_append_right _ (by decide)
  have hle : (cstr (strncpy pass 32 ++ List.replicate 8 0)).length ≤ key.toList.length := by
    rw [hcstr, List.length_take, Vector.length_toList]
    omega
  rw [getWwPassById_zero hzero hle, hcstr, derived, List.length_map]

theorem length_derived (pass : Text) : (derived pass).length = min 32 (cstr pass).length := by
  rw [derived, List.length_map, List.length_take]

/-- **The cipher undoes itself**, in place or not, with every key of three bytes or more; and so it
does with every default password of three characters or more, whatever was installed before. -/
theorem ww_restores :
    (∀ (key : Text) (keyLen : ℕ), 3 ≤ keyLen → keyLen ≤ key.length →
      Restores (fun mem inp inLen out => wwEncrypt mem inp inLen (some key) keyLen out)
          (fun mem inp inLen out => wwDecrypt mem inp inLen (some key) keyLen out) ∧
        Restores (fun mem inp inLen out => wwDecrypt mem inp inLen (some key) keyLen out)
          (fun mem inp inLen out => wwEncrypt mem inp inLen (some key) keyLen out)) ∧
    ∀ (ps : List Text) (pass : Text), 3 ≤ (cstr pass).length →
      ∃ keys, (ps ++ [pass]).foldlM install gWwKeys = some keys ∧
        (∀ (key : Vector UInt8 32) (len : ℕ), ∃ key' keyLen,
          getWwPassById 0 keys key.toList len = some (0, key', keyLen) ∧ keyLen ≤ 32) ∧
        ∀ key₁ key₂ : Vector UInt8 32, Restores (encryptWithDefaultPass keys key₁)
          (decryptWithDefaultPass keys key₂) := by
  refine ⟨fun key keyLen hkey hlen => ⟨restores_ww decrypt_encrypt_byte hkey hlen rfl,
    restores_ww encrypt_decrypt_byte hkey hlen rfl⟩, fun ps pass hpass => ?_⟩
  have hlen := length_derived pass
  obtain ⟨keys, hps, hkeys⟩ := foldlM_install hasKey_gWwKeys ps
  refine ⟨strncpy pass 32 ++ List.replicate 8 0, ?_, fun key len => ?_, fun key₁ key₂ => ?_⟩
  · rw [List.foldlM_append, hps]
    show [pass].foldlM install keys = _
    rw [List.foldlM_cons, install_eq hkeys]
    rfl
  · exact ⟨_, _, getWwPassById_strncpy pass key len, by omega⟩
  · have hwith : ∀ f (key : Vector UInt8 32),
        withDefaultPass f (strncpy pass 32 ++ List.replicate 8 0) key =
          fun mem inp inLen out => f mem inp inLen
            (some (derived pass ++ key.toList.drop (derived pass).length))
              (derived pass).length out := by
      intro f key
      funext mem inp inLen out
      rw [withDefaultPass, getWwPassById_strncpy]
      rfl
    rw [encryptWithDefaultPass, decryptWithDefaultPass, hwith, hwith]
    refine restores_ww decrypt_encrypt_byte (by omega) ?_ ?_
    · rw [List.length_append]
      omega
    · rw [List.take_left' rfl, List.take_left' rfl]

/-- A short password, and a payload that is enciphered into a buffer behind it and back. -/
theorem ww_restores_hello : ∃ keys mem₁ mem₂, [lit "abc"].foldlM install gWwKeys = some keys ∧
    encryptWithDefaultPass keys (Vector.replicate 32 0) (lit "hello" ++ List.replicate 5 0)
      (some 0) 5 (some 5) = some (0, mem₁) ∧
    decryptWithDefaultPass keys (Vector.replicate 32 1) mem₁ (some 5) 5 (some 0) =
      some (0, mem₂) ∧ bytesAt mem₂ 0 5 = lit "hello" := by
  obtain ⟨keys, hkeys, -, hrestores⟩ := ww_restores.2 [] (lit "abc") (by decide)
  obtain ⟨mem₁, mem₂, henc, hdec, heq⟩ := hrestores (Vector.replicate 32 0) (Vector.replicate 32 1)
    (lit "hello" ++ List.replicate 5 0) 0 5 0 5 (by decide) (by decide) (by decide) (by decide)
    (.inr (.inl (by decide))) (.inr (.inr (by decide)))
  exact ⟨keys, mem₁, mem₂, hkeys, henc, hdec, heq⟩

end Passwords

end Ltm

end Tqos
