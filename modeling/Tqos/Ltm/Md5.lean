import Tqos.Lib.Buffered
import Tqos.Lib.Bytes
import Tqos.Lib.Traced
import Tqos.Ltm.SplitLine

/-!
# The digest of a file

`md5.c`. A context takes in blocks of 64 bytes; what is no whole block yet is kept in its buffer,
and how much that is is read off the counter of the bits. `md5sum_file` feeds it a file in pieces
of 1024 bytes, the last of which may be empty, and `md5sum_mem` all at once.

A use of memory outside its bounds, and a loop that does not end, is `none`.

## Main results

* `Fed.md5Update` — feeding a piece is feeding its bytes, however the bytes before were cut
* `Fed.md5Final` — the digest is that of the text that was fed
* `md5sumFile_eq_md5sumMem` — a file has the digest of its content
-/

namespace Tqos

namespace Ltm

/-! ## Blocks -/

/-- `FETCH_32`, at the word `i` of a block. -/
def fetch32 (block : Text) (i : ℕ) : UInt32 :=
  (block.getD (4 * i) 0).toUInt32 ||| (block.getD (4 * i + 1) 0).toUInt32 <<< 8 |||
    (block.getD (4 * i + 2) 0).toUInt32 <<< 16 ||| (block.getD (4 * i + 3) 0).toUInt32 <<< 24

/-- `Encode`. -/
def encode (input : List UInt32) : Text :=
  input.flatMap fun (w : UInt32) => [(w &&& 0xff).toUInt8, ((w >>> 8) &&& 0xff).toUInt8,
    ((w >>> 16) &&& 0xff).toUInt8, ((w >>> 24) &&& 0xff).toUInt8]

/-- The rounds, by the name of their macro. -/
inductive Md5Round
  | ff
  | gg
  | hh
  | ii

/-- `F`, `G`, `H` and `I`. -/
def Md5Round.mix : Md5Round → UInt32 → UInt32 → UInt32 → UInt32
  | .ff, x, y, z => ((y ^^^ z) &&& x) ^^^ z
  | .gg, x, y, z => ((x ^^^ y) &&& z) ^^^ y
  | .hh, x, y, z => x ^^^ y ^^^ z
  | .ii, x, y, z => (~~~z ||| x) ^^^ y

/-- `ROTATE_LEFT`. -/
def rotateLeft (x n : UInt32) : UInt32 := (x <<< n) ||| (x >>> (32 - n))

/-- A line of `MD5Transform`: the macro, the word, the rotation and the constant. -/
structure Md5Step where
  round : Md5Round
  x : ℕ
  s : UInt32
  ac : UInt32

/-- `state`. -/
structure Md5State where
  a : UInt32
  b : UInt32
  c : UInt32
  d : UInt32
deriving DecidableEq, Repr

/-- `FF`, `GG`, `HH` and `II`. The next line has the word that was changed in the second place. -/
def Md5State.step (block : Text) (r : Md5State) (st : Md5Step) : Md5State :=
  let a := r.a + (st.round.mix r.b r.c r.d + fetch32 block st.x + st.ac)
  let a := rotateLeft a st.s
  ⟨r.d, a + r.b, r.b, r.c⟩

/-- The lines of `MD5Transform`. -/
def md5Steps : List Md5Step :=
   [⟨.ff, 0, 7, 0xd76aa478⟩, ⟨.ff, 1, 12, 0xe8c7b756⟩,
    ⟨.ff, 2, 17, 0x242070db⟩, ⟨.ff, 3, 22, 0xc1bdceee⟩,
    ⟨.ff, 4, 7, 0xf57c0faf⟩, ⟨.ff, 5, 12, 0x4787c62a⟩,
    ⟨.ff, 6, 17, 0xa8304613⟩, ⟨.ff, 7, 22, 0xfd469501⟩,
    ⟨.ff, 8, 7, 0x698098d8⟩, ⟨.ff, 9, 12, 0x8b44f7af⟩,
    ⟨.ff, 10, 17, 0xffff5bb1⟩, ⟨.ff, 11, 22, 0x895cd7be⟩,
    ⟨.ff, 12, 7, 0x6b901122⟩, ⟨.ff, 13, 12, 0xfd987193⟩,
    ⟨.ff, 14, 17, 0xa679438e⟩, ⟨.ff, 15, 22, 0x49b40821⟩,
    ⟨.gg, 1, 5, 0xf61e2562⟩, ⟨.gg, 6, 9, 0xc040b340⟩,
    ⟨.gg, 11, 14, 0x265e5a51⟩, ⟨.gg, 0, 20, 0xe9b6c7aa⟩,
    ⟨.gg, 5, 5, 0xd62f105d⟩, ⟨.gg, 10, 9, 0x02441453⟩,
    ⟨.gg, 15, 14, 0xd8a1e681⟩, ⟨.gg, 4, 20, 0xe7d3fbc8⟩,
    ⟨.gg, 9, 5, 0x21e1cde6⟩, ⟨.gg, 14, 9, 0xc33707d6⟩,
    ⟨.gg, 3, 14, 0xf4d50d87⟩, ⟨.gg, 8, 20, 0x455a14ed⟩,
    ⟨.gg, 13, 5, 0xa9e3e905⟩, ⟨.gg, 2, 9, 0xfcefa3f8⟩,
    ⟨.gg, 7, 14, 0x676f02d9⟩, ⟨.gg, 12, 20, 0x8d2a4c8a⟩,
    ⟨.hh, 5, 4, 0xfffa3942⟩, ⟨.hh, 8, 11, 0x8771f681⟩,
    ⟨.hh, 11, 16, 0x6d9d6122⟩, ⟨.hh, 14, 23, 0xfde5380c⟩,
    ⟨.hh, 1, 4, 0xa4beea44⟩, ⟨.hh, 4, 11, 0x4bdecfa9⟩,
    ⟨.hh, 7, 16, 0xf6bb4b60⟩, ⟨.hh, 10, 23, 0xbebfbc70⟩,
    ⟨.hh, 13, 4, 0x289b7ec6⟩, ⟨.hh, 0, 11, 0xeaa127fa⟩,
    ⟨.hh, 3, 16, 0xd4ef3085⟩, ⟨.hh, 6, 23, 0x04881d05⟩,
    ⟨.hh, 9, 4, 0xd9d4d039⟩, ⟨.hh, 12, 11, 0xe6db99e5⟩,
    ⟨.hh, 15, 16, 0x1fa27cf8⟩, ⟨.hh, 2, 23, 0xc4ac5665⟩,
    ⟨.ii, 0, 6, 0xf4292244⟩, ⟨.ii, 7, 10, 0x432aff97⟩,
    ⟨.ii, 14, 15, 0xab9423a7⟩, ⟨.ii, 5, 21, 0xfc93a039⟩,
    ⟨.ii, 12, 6, 0x655b59c3⟩, ⟨.ii, 3, 10, 0x8f0ccc92⟩,
    ⟨.ii, 10, 15, 0xffeff47d⟩, ⟨.ii, 1, 21, 0x85845dd1⟩,
    ⟨.ii, 8, 6, 0x6fa87e4f⟩, ⟨.ii, 15, 10, 0xfe2ce6e0⟩,
    ⟨.ii, 6, 15, 0xa3014314⟩, ⟨.ii, 13, 21, 0x4e0811a1⟩,
    ⟨.ii, 4, 6, 0xf7537e82⟩, ⟨.ii, 11, 10, 0xbd3af235⟩,
    ⟨.ii, 2, 15, 0x2ad7d2bb⟩, ⟨.ii, 9, 21, 0xeb86d391⟩]

/-- `MD5Transform`. -/
def md5Transform (state : Md5State) (block : Text) : Md5State :=
  let r := md5Steps.foldl (Md5State.step block) state
  ⟨state.a + r.a, state.b + r.b, state.c + r.c, state.d + r.d⟩

/-! ## Contexts -/

/-- `MD5_CTX`. -/
structure Md5Ctx where
  state : Md5State
  count0 : UInt32
  count1 : UInt32
  buffer : Vector UInt8 64

/-- The first state. -/
def md5Start : Md5State := ⟨0x67452301, 0xefcdab89, 0x98badcfe, 0x10325476⟩

/-- `MD5Init`; the buffer is not set. -/
def md5Init (context : Md5Ctx) : Md5Ctx :=
  { context with count0 := 0, count1 := 0, state := md5Start }

/-- `memcpy(&context->buffer[index], &input[i], n)`. -/
def copyIn (buffer : Vector UInt8 64) (index : ℕ) (input : Text) (i n : ℕ) :
    Option (Vector UInt8 64) :=
  if i + n ≤ input.length ∧ index + n ≤ 64 then
    some (blitV buffer index ((input.drop i).take n))
  else none

/-- The loop of `MD5Update`. -/
def md5Blocks (input : Text) (inputLen : UInt32) :
    ℕ → UInt32 → Md5State → Option (UInt32 × Md5State)
  | 0, _, _ => none
  | fuel + 1, i, state =>
    if i + 63 < inputLen then
      if i.toNat + 64 ≤ input.length then
        md5Blocks input inputLen fuel (i + 64)
          (md5Transform state ((input.drop i.toNat).take 64))
      else none
    else some (i, state)

/-- Where the buffer ends. -/
def Md5Ctx.index (context : Md5Ctx) : UInt32 := (context.count0 >>> 3) &&& 0x3f

/-- `MD5Update`, from its loop on. -/
def md5Rest (context : Md5Ctx) (input : Text) (inputLen i : UInt32) : Option Md5Ctx := do
  let (i, state) ← md5Blocks input inputLen (inputLen.toNat / 64 + 1) i context.state
  let context := { context with state := state }
  if inputLen = i then some context
  else do
    let buffer ← copyIn context.buffer 0 input i.toNat (inputLen - i).toNat
    some { context with buffer := buffer }

/-- The number of bits, when there are `inputLen` bytes more. -/
def Md5Ctx.counted (context : Md5Ctx) (inputLen : UInt32) : Md5Ctx :=
  let count0 := context.count0 + (inputLen <<< 3)
  let count1 := if count0 < inputLen <<< 3 then context.count1 + 1 else context.count1
  { context with count0 := count0, count1 := count1 + (inputLen >>> 29) }

/-- `MD5Update`. -/
def md5Update (context : Md5Ctx) (input : Text) (inputLen : UInt32) : Option Md5Ctx :=
  let index := context.index
  let context := context.counted inputLen
  let partLen := 64 - index
  if inputLen ≥ partLen then
    if index ≠ 0 then do
      let buffer ← copyIn context.buffer index.toNat input 0 partLen.toNat
      let state := md5Transform context.state buffer.toList
      md5Rest { context with buffer := buffer, state := state } input inputLen partLen
    else md5Rest context input inputLen 0
  else do
    let buffer ← copyIn context.buffer index.toNat input 0 inputLen.toNat
    some { context with buffer := buffer }

/-- `PADDING`. -/
def padding : Text := 0x80 :: List.replicate 63 0

/-- `MD5Final`: the digest, and the context that is left. -/
def md5Final (context : Md5Ctx) : Option (Text × Md5Ctx) := do
  let index := context.index
  let bits := encode [context.count0, context.count1]
  let context ← md5Update context padding ((if index < 56 then 56 else 120) - index)
  let context ← md5Update context bits 8
  some (encode [context.state.a, context.state.b, context.state.c, context.state.d],
    ⟨⟨0, 0, 0, 0⟩, 0, 0, Vector.replicate 64 0⟩)

/-! ## The functions -/

/-- The loop of `md5sum_file`: the file is at its end when there was less than was asked for. -/
def md5Pieces (content : Text) (context : Md5Ctx) : Option Md5Ctx :=
  let piece := content.take 1024
  match md5Update context piece (UInt32.ofNat piece.length) with
  | none => none
  | some context =>
    if _h : piece.length = 1024 then md5Pieces (content.drop 1024) context else some context
termination_by content.length
decreasing_by
  rw [List.length_take] at _h
  rw [List.length_drop]
  omega

/-- `md5sum_file`: the result, and what `digest` points at. `fopen` gives what can be read of a
file, and a pointer that is NULL is `none`. -/
def md5sumFile (fopen : Text → Option Text) (file digest : Option Text) (stale : Md5Ctx) :
    Option (ℤ × Option Text) :=
  match file, digest with
  | some file, some _ =>
    match fopen file with
    | none => some (-1, digest)
    | some content => do
      let context ← md5Pieces content (md5Init stale)
      let (digest, _) ← md5Final context
      some (0, some digest)
  | _, _ => some (-1, digest)

/-- `md5sum_mem`: what `digest` points at. -/
def md5sumMem (buf : Option Text) (len : UInt32) (digest : Option Text) (stale : Md5Ctx) :
    Option (Option Text) :=
  match buf, digest with
  | some buf, some _ =>
    if len = 0 then some digest
    else do
      let context ← md5Update (md5Init stale) buf len
      let (digest, _) ← md5Final context
      some (some digest)
  | _, _ => some digest

/-! ## What is computed -/

/-- The state and what is kept after a text. -/
def fedTo (l : Text) : Md5State × Text := Buffered.absorb md5Transform 64 md5Start l

/-- A text with what makes it whole blocks: a bit, zeros, and how many bits it has. -/
def padded64 (l : Text) : Text :=
  let k := (if l.length % 64 < 56 then 56 else 120) - l.length % 64
  l ++ padding.take k ++ bytesLE 8 (8 * l.length)

/-- The digest of a text. -/
def md5 (l : Text) : Text :=
  let state := (fedTo (padded64 l)).1
  encode [state.a, state.b, state.c, state.d]

/-- A context to which a text was fed. -/
structure Fed (context : Md5Ctx) (l : Text) : Prop where
  state : context.state = (fedTo l).1
  pending : context.buffer.toList.take (l.length % 64) = (fedTo l).2
  count : context.count0.toNat + 2 ^ 32 * context.count1.toNat = 8 * l.length % 2 ^ 64

/-! ## Feeding a piece -/

section Feed

variable {context : Md5Ctx} {l input : Text} {inputLen : UInt32}

theorem fedTo_append (l m : Text) :
    fedTo (l ++ m) = Buffered.absorb md5Transform 64 (fedTo l).1 ((fedTo l).2 ++ m) :=
  Buffered.absorb_append (by decide) _ _ _

theorem length_fedTo (l : Text) : (fedTo l).2.length = l.length % 64 :=
  Buffered.length_pending (by decide) _ _

theorem fed_md5Init (stale : Md5Ctx) : Fed (md5Init stale) [] where
  state := by
    rw [fedTo, Buffered.absorb_of_lt (by decide)]
    rfl
  pending := by
    rw [fedTo, Buffered.absorb_of_lt (by decide)]
    rfl
  count := rfl

/-- **The buffer ends** where the counter says. -/
theorem Fed.toNat_index (h : Fed context l) : context.index.toNat = l.length % 64 := by
  have hcount := h.count
  have hlt0 := context.count0.toNat_lt
  have hindex : context.index.toNat = context.count0.toNat / 8 % 64 := by
    rw [Md5Ctx.index, UInt32.toNat_and, UInt32.toNat_shiftRight]
    show (context.count0.toNat >>> 3) &&& (2 ^ 6 - 1) = _
    rw [Nat.and_two_pow_sub_one_eq_mod, Nat.shiftRight_eq_div_pow]
  rw [hindex]
  omega

/-- The counter of the bits goes over two words. -/
theorem count_add {count0 count1 n : UInt32} {k : ℕ}
    (h : count0.toNat + 2 ^ 32 * count1.toNat = 8 * k % 2 ^ 64) :
    (count0 + (n <<< 3)).toNat + 2 ^ 32 *
      ((if count0 + (n <<< 3) < n <<< 3 then count1 + 1 else count1) + (n >>> 29)).toNat =
      8 * (k + n.toNat) % 2 ^ 64 := by
  have hn := n.toNat_lt
  have hlow : (n <<< 3).toNat = 8 * n.toNat % 2 ^ 32 := by
    rw [UInt32.toNat_shiftLeft]
    show n.toNat <<< 3 % 2 ^ 32 = _
    rw [Nat.shiftLeft_eq, Nat.mul_comm]
  have hhigh : (n >>> 29).toNat = n.toNat / 2 ^ 29 := by
    rw [UInt32.toNat_shiftRight]
    show n.toNat >>> 29 = _
    rw [Nat.shiftRight_eq_div_pow]
  have h0 := count0.toNat_lt
  have h1 := count1.toNat_lt
  have hsum : (count0 + (n <<< 3)).toNat = (count0.toNat + 8 * n.toNat % 2 ^ 32) % 2 ^ 32 := by
    rw [UInt32.toNat_add, hlow]
  rw [hsum, UInt32.toNat_add, hhigh]
  by_cases hcarry : count0 + (n <<< 3) < n <<< 3
  · have hlt := UInt32.lt_iff_toNat_lt.mp hcarry
    rw [hsum, hlow] at hlt
    have hone : UInt32.toNat 1 = 1 := rfl
    rw [if_pos hcarry, UInt32.toNat_add, hone]
    omega
  · have hge := mt UInt32.lt_iff_toNat_lt.mpr hcarry
    rw [hsum, hlow] at hge
    rw [if_neg hcarry]
    omega

/-- **The loop** takes in the blocks from `i` on, if the sum in its condition does not wrap. -/
theorem md5Blocks_spec {x : Text} (hx : input.take inputLen.toNat = x)
    (hlen : inputLen.toNat ≤ input.length) {fuel : ℕ} {i : UInt32} (state : Md5State)
    (hi : i.toNat ≤ inputLen.toNat) (hwrap : 64 ∣ i.toNat ∨ inputLen.toNat + 64 ≤ 2 ^ 32)
    (hfuel : inputLen.toNat < i.toNat + 64 * fuel) :
    ∃ j state', md5Blocks input inputLen fuel i state = some (j, state') ∧
      j.toNat ≤ inputLen.toNat ∧
      Buffered.absorb md5Transform 64 state (x.drop i.toNat) = (state', x.drop j.toNat) := by
  induction fuel generalizing i state with
  | zero => omega
  | succ fuel ih =>
    have hlt := inputLen.toNat_lt
    have h63 : (i + 63).toNat = i.toNat + 63 := by
      have hsum : (i + 63).toNat = (i.toNat + 63) % 2 ^ 32 := UInt32.toNat_add i 63
      rw [hsum]
      omega
    have hxlen : (x.drop i.toNat).length = inputLen.toNat - i.toNat := by
      rw [List.length_drop, ← hx, List.length_take]
      omega
    rw [md5Blocks]
    by_cases hmore : i + 63 < inputLen
    · have hroom := UInt32.lt_iff_toNat_lt.mp hmore
      rw [h63] at hroom
      have h64 : (i + 64).toNat = i.toNat + 64 := by
        have hsum : (i + 64).toNat = (i.toNat + 64) % 2 ^ 32 := UInt32.toNat_add i 64
        rw [hsum]
        omega
      have hblock : (input.drop i.toNat).take 64 = (x.drop i.toNat).take 64 := by
        rw [← hx, List.drop_take, List.take_take]
        congr 1
        omega
      rw [if_pos hmore, if_pos (by omega), hblock]
      obtain ⟨j, state', hrun, hj, habs⟩ := ih (i := i + 64)
        (md5Transform state ((x.drop i.toNat).take 64)) (by omega) (by omega) (by omega)
      refine ⟨j, state', hrun, hj, ?_⟩
      rw [Buffered.absorb_of_le (by decide) (by omega), List.drop_drop, ← h64]
      exact habs
    · have hend := mt UInt32.lt_iff_toNat_lt.mpr hmore
      rw [h63] at hend
      rw [if_neg hmore]
      exact ⟨i, state, rfl, hi, Buffered.absorb_of_lt (by omega)⟩

theorem copyIn_eq {buffer : Vector UInt8 64} {index i n : ℕ} (hi : i + n ≤ input.length)
    (hindex : index + n ≤ 64) :
    copyIn buffer index input i n = some (blitV buffer index ((input.drop i).take n)) :=
  if_pos ⟨hi, hindex⟩

/-- What is behind the copy does not matter. -/
theorem take_blitV (buffer : Vector UInt8 64) {index : ℕ} {w : Text} (h : index + w.length ≤ 64) :
    (blitV buffer index w).toList.take (index + w.length) = buffer.toList.take index ++ w := by
  have hlen : (buffer.toList.take index).length = index := by
    rw [List.length_take, Vector.length_toList]
    omega
  rw [toList_blitV, blit_of_le (by rw [Vector.length_toList]; exact h), List.take_left']
  rw [List.length_append, hlen]

/-- **From the loop on**: the blocks are taken in, and what is left is in the buffer. -/
theorem md5Rest_spec (context : Md5Ctx) {x : Text} (hx : input.take inputLen.toNat = x)
    (hlen : inputLen.toNat ≤ input.length) (i : UInt32) (hi : i.toNat ≤ inputLen.toNat)
    (hwrap : 64 ∣ i.toNat ∨ inputLen.toNat + 64 ≤ 2 ^ 32) :
    ∃ state buffer rest,
      md5Rest context input inputLen i = some { context with state := state, buffer := buffer } ∧
        Buffered.absorb md5Transform 64 context.state (x.drop i.toNat) = (state, rest) ∧
        buffer.toList.take rest.length = rest := by
  have hfuel : inputLen.toNat < i.toNat + 64 * (inputLen.toNat / 64 + 1) := by omega
  obtain ⟨j, state, hrun, hj, habs⟩ := md5Blocks_spec hx hlen context.state hi hwrap hfuel
  have hxlen : x.length = inputLen.toNat := by
    rw [← hx, List.length_take]
    omega
  have hrest : (x.drop j.toNat).length < 64 := by
    have hpending := @Buffered.length_pending _ _ md5Transform 64 (by decide) context.state
      (x.drop i.toNat)
    rw [habs] at hpending
    exact hpending.trans_lt (Nat.mod_lt _ (by decide))
  rw [md5Rest, hrun]
  show ∃ state' buffer rest, (if inputLen = j then some { context with state := state } else
    (copyIn context.buffer 0 input j.toNat (inputLen - j).toNat).bind fun buffer =>
      some { context with state := state, buffer := buffer }) = _ ∧ _
  by_cases hend : inputLen = j
  · rw [if_pos hend]
    refine ⟨state, context.buffer, x.drop j.toNat, rfl, habs, ?_⟩
    rw [List.drop_eq_nil_of_le (by rw [hxlen, hend])]
    rfl
  · have hsub : (inputLen - j).toNat = inputLen.toNat - j.toNat :=
      UInt32.toNat_sub_of_le _ _ (UInt32.le_iff_toNat_le.mpr hj)
    have htail : (input.drop j.toNat).take (inputLen.toNat - j.toNat) = x.drop j.toNat := by
      rw [← hx, List.drop_take]
    rw [List.length_drop, hxlen] at hrest
    rw [if_neg hend, hsub, copyIn_eq (by omega) (by omega), htail]
    refine ⟨state, _, x.drop j.toNat, rfl, habs, ?_⟩
    have hfit : 0 + (x.drop j.toNat).length ≤ 64 := by
      rw [List.length_drop]
      omega
    have htake := take_blitV context.buffer hfit
    rwa [Nat.zero_add] at htake

/-- A text more: the state and the buffer are those of the two together. -/
theorem Fed.append (h : Fed context l) {k : ℕ} (hk : l.length % 64 = k) {x : Text} {n : UInt32}
    (hx : x.length = n.toNat) {state : Md5State} {buffer : Vector UInt8 64} {rest : Text}
    (habs : Buffered.absorb md5Transform 64 context.state
      (context.buffer.toList.take k ++ x) = (state, rest))
    (hbuffer : buffer.toList.take rest.length = rest) :
    Fed { context.counted n with state := state, buffer := buffer } (l ++ x) := by
  rw [h.state, ← hk, h.pending, ← fedTo_append] at habs
  have hlen := length_fedTo (l ++ x)
  rw [habs] at hlen
  refine ⟨by rw [habs], ?_, ?_⟩
  · rw [← hlen, habs]
    exact hbuffer
  · rw [List.length_append, hx]
    exact count_add h.count

theorem length_take_buffer (buffer : Vector UInt8 64) {k : ℕ} (hk : k ≤ 64) :
    (buffer.toList.take k).length = k := by
  rw [List.length_take, Vector.length_toList]
  omega

theorem length_take_input {x : Text} (hx : input.take inputLen.toNat = x)
    (hlen : inputLen.toNat ≤ input.length) : x.length = inputLen.toNat := by
  rw [← hx, List.length_take]
  omega

/-- `partLen` is the room that the buffer has. -/
theorem Fed.toNat_partLen (h : Fed context l) {k : ℕ} (hk : l.length % 64 = k) :
    (64 - context.index).toNat = 64 - k := by
  have hindex : context.index.toNat = k := h.toNat_index.trans hk
  rw [← hindex]
  refine UInt32.toNat_sub_of_le _ _ (UInt32.le_iff_toNat_le.mpr ?_)
  show context.index.toNat ≤ 64
  omega

/-- The buffer is filled first, and is a block then. -/
theorem Fed.exists_filled (h : Fed context l) {k : ℕ} (hk : l.length % 64 = k) {x : Text}
    (hx : input.take inputLen.toNat = x) (hlen : inputLen.toNat ≤ input.length)
    (hge : 64 - k ≤ inputLen.toNat) (hwrap : k = 0 ∨ inputLen.toNat + 64 ≤ 2 ^ 32) :
    ∃ context', ((copyIn context.buffer k input 0 (64 - k)).bind fun buffer =>
      md5Rest { context.counted inputLen with
        buffer := buffer, state := md5Transform context.state buffer.toList } input inputLen
          (64 - context.index)) = some context' ∧ Fed context' (l ++ x) := by
  have hk64 : k < 64 := by omega
  have hpart := h.toNat_partLen hk
  have hxlen := length_take_input hx hlen
  have hhead : (input.drop 0).take (64 - k) = x.take (64 - k) := by
    rw [List.drop_zero, ← hx, List.take_take, Nat.min_eq_left hge]
  have hheadlen : (x.take (64 - k)).length = 64 - k := by
    rw [List.length_take]
    omega
  have hcopy : copyIn context.buffer k input 0 (64 - k) =
      some (blitV context.buffer k (x.take (64 - k))) := by
    rw [copyIn_eq (by omega) (by omega), hhead]
  have hblock : (blitV context.buffer k (x.take (64 - k))).toList =
      context.buffer.toList.take k ++ x.take (64 - k) := by
    rw [← take_blitV context.buffer (by omega), hheadlen]
    exact (List.take_of_length_le (by rw [Vector.length_toList]; omega)).symm
  rw [hcopy]
  obtain ⟨state, buffer, rest, hrun, habs, hbuffer⟩ := md5Rest_spec
    { context.counted inputLen with
      buffer := blitV context.buffer k (x.take (64 - k))
      state := md5Transform context.state (blitV context.buffer k (x.take (64 - k))).toList }
    hx hlen (64 - context.index) (by omega) (by omega)
  refine ⟨_, hrun, h.append hk hxlen ?_ hbuffer⟩
  rw [hpart, hblock, ← Buffered.absorb_block (by decide), List.append_assoc,
    List.take_append_drop] at habs
  · exact habs
  · rw [List.length_append, length_take_buffer _ hk64.le, hheadlen]
    omega

/-- What leaves room in the buffer is copied behind what is there. -/
theorem Fed.exists_held (h : Fed context l) {k : ℕ} (hk : l.length % 64 = k) {x : Text}
    (hx : input.take inputLen.toNat = x) (hlen : inputLen.toNat ≤ input.length)
    (hlt : inputLen.toNat < 64 - k) :
    ∃ context', ((copyIn context.buffer k input 0 inputLen.toNat).bind fun buffer =>
      some { context.counted inputLen with buffer := buffer }) = some context' ∧
        Fed context' (l ++ x) := by
  have hxlen := length_take_input hx hlen
  have hpending := length_take_buffer context.buffer (k := k) (by omega)
  have htail : (input.drop 0).take inputLen.toNat = x := by rw [List.drop_zero, hx]
  have hcopy : copyIn context.buffer k input 0 inputLen.toNat =
      some (blitV context.buffer k x) := by
    rw [copyIn_eq (by omega) (by omega), htail]
  rw [hcopy]
  refine ⟨_, rfl, h.append hk hxlen (Buffered.absorb_of_lt ?_) ?_⟩
  · rw [List.length_append, hpending]
    omega
  · rw [List.length_append, hpending]
    exact take_blitV context.buffer (by omega)

/-- **A piece** is fed whole. -/
theorem Fed.md5Update (h : Fed context l) (input : Text) (inputLen : UInt32)
    (hlen : inputLen.toNat ≤ input.length)
    (hwrap : l.length % 64 = 0 ∨ inputLen.toNat + 64 ≤ 2 ^ 32) :
    ∃ context', md5Update context input inputLen = some context' ∧
      Fed context' (l ++ input.take inputLen.toNat) := by
  obtain ⟨x, hx⟩ : ∃ x, input.take inputLen.toNat = x := ⟨_, rfl⟩
  obtain ⟨k, hk⟩ : ∃ k, l.length % 64 = k := ⟨_, rfl⟩
  have hindex : context.index.toNat = k := h.toNat_index.trans hk
  have hpart := h.toNat_partLen hk
  rw [hx, Ltm.md5Update]
  by_cases hfull : inputLen ≥ 64 - context.index
  · have hge := UInt32.le_iff_toNat_le.mp hfull
    rw [hpart] at hge
    by_cases hzero : context.index ≠ 0
    · rw [if_pos hfull, if_pos hzero, hindex, hpart]
      exact h.exists_filled hk hx hlen hge (hk ▸ hwrap)
    · have hk0 : k = 0 := by
        rw [← hindex, not_not.mp hzero]
        rfl
      rw [if_pos hfull, if_neg hzero]
      obtain ⟨state, buffer, rest, hrun, habs, hbuffer⟩ := md5Rest_spec
        (context.counted inputLen) hx hlen 0 (Nat.zero_le _) (.inl (by decide))
      refine ⟨_, hrun, h.append hk (length_take_input hx hlen) ?_ hbuffer⟩
      rw [hk0]
      exact habs
  · have hlt := mt UInt32.le_iff_toNat_le.mpr hfull
    rw [hpart] at hlt
    rw [if_neg hfull, hindex]
    exact h.exists_held hk hx hlen (by omega)

/-- **A file** is fed whole, in pieces. -/
theorem Fed.md5Pieces (content : Text) (h : Fed context l) :
    ∃ context', md5Pieces content context = some context' ∧ Fed context' (l ++ content) := by
  induction hn : content.length using Nat.strongRecOn generalizing content context l with
  | _ n ih =>
    have hpiece : (content.take 1024).length ≤ 1024 := List.length_take_le _ _
    have hlen : (UInt32.ofNat (content.take 1024).length).toNat = (content.take 1024).length := by
      rw [UInt32.toNat_ofNat']
      omega
    obtain ⟨context', hrun, hfed⟩ := h.md5Update (content.take 1024)
      (UInt32.ofNat (content.take 1024).length) hlen.le (.inr (by omega))
    rw [hlen, List.take_length] at hfed
    rw [Ltm.md5Pieces, hrun]
    by_cases hmore : (content.take 1024).length = 1024
    · have hless : (content.drop 1024).length < n := by
        rw [List.length_take] at hmore
        rw [List.length_drop]
        omega
      obtain ⟨context'', hrun', hfed'⟩ := ih (content.drop 1024).length hless (content.drop 1024)
        hfed rfl
      rw [List.append_assoc, List.take_append_drop] at hfed'
      exact ⟨context'', (dif_pos hmore).trans hrun', hfed'⟩
    · have hall : content.take 1024 = content := by
        rw [List.length_take] at hmore
        exact List.take_of_length_le (by omega)
      rw [hall] at hfed
      exact ⟨context', dif_neg hmore, hfed⟩

/-- A byte of a word. -/
theorem toUInt8_shiftRight (w s : UInt32) (hs : s.toNat < 32) :
    ((w >>> s) &&& 0xff).toUInt8 = UInt8.ofNat (w.toNat / 2 ^ s.toNat) := by
  refine UInt8.toNat_inj.mp ?_
  rw [UInt32.toNat_toUInt8, UInt32.toNat_and, UInt32.toNat_shiftRight, UInt8.toNat_ofNat']
  show ((w.toNat >>> (s.toNat % 32)) &&& (2 ^ 8 - 1)) % 2 ^ 8 = _
  rw [Nat.and_two_pow_sub_one_eq_mod, Nat.shiftRight_eq_div_pow, Nat.mod_eq_of_lt hs, Nat.mod_mod]

/-- Words are written with the lowest byte first. -/
theorem encode_eq (ws : List UInt32) : encode ws = ws.flatMap le32 := by
  have hword : ∀ w : UInt32, [(w &&& 0xff).toUInt8, ((w >>> 8) &&& 0xff).toUInt8,
      ((w >>> 16) &&& 0xff).toUInt8, ((w >>> 24) &&& 0xff).toUInt8] = le32 w := by
    intro w
    have hlow := toUInt8_shiftRight w 0 (by decide)
    have hone : w.toNat / 2 ^ UInt32.toNat 0 = w.toNat := Nat.div_one _
    rw [UInt32.shiftRight_zero, hone] at hlow
    rw [hlow, toUInt8_shiftRight w 8 (by decide), toUInt8_shiftRight w 16 (by decide),
      toUInt8_shiftRight w 24 (by decide), le32, bytesLE, bytesLE, bytesLE, bytesLE, bytesLE,
      Nat.div_div_eq_div_mul, Nat.div_div_eq_div_mul]
    rfl
  rw [encode]
  exact congrArg (fun f => ws.flatMap f) (funext hword)

/-- The bits that are appended are those of the text. -/
theorem Fed.encode_count (h : Fed context l) :
    encode [context.count0, context.count1] = bytesLE 8 (8 * l.length) := by
  have hcount := h.count
  have h0 := context.count0.toNat_lt
  have h1 := context.count1.toNat_lt
  rw [encode_eq, bytesLE_add 4 4]
  show bytesLE 4 context.count0.toNat ++ (bytesLE 4 context.count1.toNat ++ []) = _
  rw [List.append_nil]
  congr 1 <;> exact bytesLE_congr (by omega)

/-- **The digest** is that of the text that was fed. -/
theorem Fed.md5Final (h : Fed context l) : ∃ left, md5Final context = some (md5 l, left) := by
  have hindex := h.toNat_index
  have hmod : l.length % 64 < 64 := Nat.mod_lt _ (by decide)
  have hless : context.index < 56 ↔ l.length % 64 < 56 := by
    rw [UInt32.lt_iff_toNat_lt, hindex]
    rfl
  obtain ⟨k, hk⟩ : ∃ k, (if l.length % 64 < 56 then 56 else 120) - l.length % 64 = k := ⟨_, rfl⟩
  have hpad : ((if context.index < 56 then 56 else 120) - context.index).toNat = k := by
    rw [← hk, ← hindex]
    rw [← hindex] at hless
    by_cases hlt : context.index < 56
    · have hlt' := hless.mp hlt
      rw [if_pos hlt, if_pos hlt']
      refine UInt32.toNat_sub_of_le _ _ (UInt32.le_iff_toNat_le.mpr ?_)
      show context.index.toNat ≤ 56
      omega
    · rw [if_neg hlt, if_neg (mt hless.mpr hlt)]
      refine UInt32.toNat_sub_of_le _ _ (UInt32.le_iff_toNat_le.mpr ?_)
      show context.index.toNat ≤ 120
      omega
  have hkle : k ≤ 64 := by
    rw [← hk]
    split <;> omega
  obtain ⟨context₁, hrun₁, hfed₁⟩ := h.md5Update padding
    ((if context.index < 56 then 56 else 120) - context.index) (by rw [hpad]; exact hkle)
    (.inr (by omega))
  rw [hpad] at hfed₁
  obtain ⟨context₂, hrun₂, hfed₂⟩ := hfed₁.md5Update (bytesLE 8 (8 * l.length)) 8
    (by rw [length_bytesLE]; rfl) (.inr (by decide))
  have hbits : (bytesLE 8 (8 * l.length)).take (8 : UInt32).toNat = bytesLE 8 (8 * l.length) :=
    List.take_of_length_le (by rw [length_bytesLE]; rfl)
  rw [hbits, ← hk] at hfed₂
  have hstate : context₂.state = (fedTo (padded64 l)).1 := hfed₂.state
  rw [Ltm.md5Final, h.encode_count, hrun₁]
  show ∃ left, ((Ltm.md5Update context₁ (bytesLE 8 (8 * l.length)) 8).bind fun context =>
    some (encode [context.state.a, context.state.b, context.state.c, context.state.d], _)) = _
  rw [hrun₂, Option.bind_some, hstate]
  exact ⟨_, rfl⟩

/-! ## The digest of a file -/

theorem length_md5 (l : Text) : (md5 l).length = 16 := by
  rw [md5, encode_eq]
  simp

/-- What `md5sum_file` gives for a file that can be read. -/
theorem md5sumFile_of_content {fopen : Text → Option Text} {file content : Text}
    (hfile : fopen file = some content) (digest : Text) (stale : Md5Ctx) :
    md5sumFile fopen (some file) (some digest) stale = some (0, some (md5 content)) := by
  obtain ⟨context, hrun, hfed⟩ := (fed_md5Init stale).md5Pieces content
  obtain ⟨left, hfinal⟩ := hfed.md5Final
  rw [List.nil_append] at hfinal
  rw [md5sumFile, hfile]
  show ((md5Pieces content (md5Init stale)).bind fun context => (md5Final context).bind fun r =>
    some ((0 : ℤ), some r.1)) = _
  rw [hrun, Option.bind_some, hfinal]
  rfl

/-- **A file has the digest of its content**: `md5sum_file`, which reads it in pieces, gives what
`md5sum_mem` gives for the whole. -/
theorem md5sumFile_eq_md5sumMem (fopen : Text → Option Text) (file content : Text) (len : UInt32)
    (digest digest' : Text) (stale stale' : Md5Ctx) (hfile : fopen file = some content)
    (hne : content ≠ []) (hlen : content.length = len.toNat) :
    ∃ d, d.length = 16 ∧ md5sumFile fopen (some file) (some digest) stale = some (0, some d) ∧
      md5sumMem (some content) len (some digest') stale' = some (some d) := by
  refine ⟨md5 content, length_md5 content, md5sumFile_of_content hfile digest stale, ?_⟩
  · have hpos : len ≠ 0 := by
      rintro rfl
      exact hne (List.length_eq_zero_iff.mp hlen)
    obtain ⟨context, hrun, hfed⟩ := (fed_md5Init stale').md5Update content len hlen.ge
      (.inl rfl)
    obtain ⟨left, hfinal⟩ := hfed.md5Final
    rw [← hlen, List.take_length, List.nil_append] at hfinal
    rw [md5sumMem, if_neg hpos]
    show ((md5Update (md5Init stale') content len).bind fun context =>
      (md5Final context).bind fun r => some (some r.1)) = _
    rw [hrun, Option.bind_some, hfinal]
    rfl

/-- A context that was never used. -/
def staleCtx : Md5Ctx := ⟨⟨1, 2, 3, 4⟩, 5, 6, Vector.replicate 64 7⟩

/-- A file that is a whole piece, so that the last piece is empty. -/
theorem md5sumFile_eq_md5sumMem_piece :
    ∃ d, d.length = 16 ∧ md5sumFile (fun _ => some (List.replicate 1024 65)) (some []) (some [])
        staleCtx = some (0, some d) ∧
      md5sumMem (some (List.replicate 1024 65)) 1024 (some []) staleCtx = some (some d) :=
  md5sumFile_eq_md5sumMem (fun _ => some (List.replicate 1024 65)) [] (List.replicate 1024 65) 1024
    [] [] staleCtx staleCtx rfl (List.cons_ne_nil _ _) List.length_replicate

end Feed

/-- The digest of `hello`. -/
example : md5sumMem (some [104, 101, 108, 108, 111]) 5 (some []) staleCtx =
    some (some [0x5d, 0x41, 0x40, 0x2a, 0xbc, 0x4b, 0x2a, 0x76, 0xb9, 0x71, 0x9d, 0x91, 0x10, 0x17,
      0xc5, 0x92]) := by
  decide +kernel

end Ltm

end Tqos
