import Mathlib.Algebra.BigOperators.Group.List.Basic
import Mathlib.Tactic.Ring
import Tqos.Lib.Tokens

/-!
# Lines of tokens

`split_line`, which the updater and the packer share, and the functions of the library on the texts
it finds. A text is the bytes between two pointers. The function goes on to the first token that it
has no room for, and starts to write that one too, behind the array of the caller; `elts` has what
is written there as well.

## The platform

The programs are built for the router, `mipsel`, which is little-endian and has 32 bits. So a `long`
is as wide as an `int`, and `atoi` cuts what is out of its range; a `size_t` and an `uint` have 32
bits; and no text has `2 ^ 32` bytes, although nothing here depends on that.

## Main results

* `splitLine_of_le` — the tokens up to the end of the line, when there is room for them
* `length_splitLine`, `take_splitLine` — what it counts and finds, whether there is or not
* `splitsLine_iff` — when it writes into the array only
-/

namespace Tqos

namespace Ltm

/-- Bytes, as in a file or between two pointers. -/
abbrev Text := List UInt8

/-- The bytes of a text of the source. -/
def ascii (l : List Char) : Text := l.map fun c => UInt8.ofNat c.toNat

/-- The string that begins at a pointer. -/
def cstr (t : Text) : Text := t.takeWhile (· ≠ 0)

theorem length_cstr_le (t : Text) : (cstr t).length ≤ t.length :=
  (List.takeWhile_sublist _).length_le

/-- A NUL ends the string. -/
theorem cstr_append_zero (t l : Text) : cstr (t ++ 0 :: l) = cstr t := by
  rw [cstr, cstr, List.takeWhile_append]
  split
  · rename_i hall
    rw [List.takeWhile_cons_of_neg (by simp), List.append_nil]
    exact (List.takeWhile_prefix _).eq_of_length hall |>.symm
  · rfl

/-- A byte that is found where it first occurs. -/
theorem idxOf?_first {c : UInt8} {a : Text} (h : c ∉ a) (b : Text) :
    (a ++ c :: b).idxOf? c = some a.length := by
  induction a with
  | nil => simp [List.idxOf?_cons]
  | cons d a ih =>
    obtain ⟨hd, ha⟩ := not_or.mp (mt List.mem_cons.mpr h)
    rw [List.cons_append, List.idxOf?_cons, ih ha, if_neg (by simpa using Ne.symm hd)]
    rfl

/-- `cstr_t`: a pointer and a length. -/
structure Cstr where
  str : ℕ
  len : ℕ
deriving DecidableEq, Repr

/-- The bytes of it. -/
def Cstr.text (t : Text) (c : Cstr) : Text := (t.drop c.str).take c.len

/-! ## Numbers -/

/-- `isspace`. -/
def isspace (c : UInt8) : Bool := c == 32 || (decide (9 ≤ c) && decide (c ≤ 13))

/-- `isdigit`. -/
def isdigit (c : UInt8) : Bool := decide (48 ≤ c) && decide (c ≤ 57)

/-- A digit is no blank. -/
theorem isspace_of_isdigit {c : UInt8} (h : isdigit c = true) : isspace c = false := by
  rw [isdigit, Bool.and_eq_true, decide_eq_true_iff, decide_eq_true_iff, UInt8.le_iff_toNat_le] at h
  have hlower : 48 ≤ c.toNat := h.1
  rw [isspace, Bool.or_eq_false_iff, Bool.and_eq_false_iff, beq_eq_false_iff_ne,
    decide_eq_false_iff_not, decide_eq_false_iff_not, UInt8.le_iff_toNat_le,
    UInt8.le_iff_toNat_le]
  refine ⟨?_, Or.inr (Nat.not_le.mpr ?_)⟩
  · rintro rfl
    exact absurd hlower (by decide)
  · show 13 < c.toNat
    omega

/-- A number in decimal. -/
def decimal (n : ℕ) : Text := ascii (Nat.toDigits 10 n)

/-- The number that digits spell. -/
def digitsValue (l : Text) : ℕ := l.foldl (fun n c => 10 * n + (c.toNat - 48)) 0

/-- An `int`; what is out of its range is cut to the nearest end. -/
def clampInt (n : ℤ) : ℤ := max (-2 ^ 31) (min n (2 ^ 31 - 1))

/-- `atoi`. -/
def atoi (s : Text) : ℤ :=
  let digits (l : Text) : ℤ := digitsValue (l.takeWhile isdigit)
  match s.dropWhile isspace with
  | 45 :: l => clampInt (-digits l)
  | 43 :: l => clampInt (digits l)
  | l => clampInt (digits l)

/-! ## `split_line` -/

/-- What `split_line` leaves: `elts[0..*res)`, and what is behind the pointer it returns, if that is
not behind the end. -/
structure SplitLine where
  elts : List Text
  next : Option Text
deriving DecidableEq

/-- `elts[i - 1].len++`. -/
def grow (elts : List Text) (c : UInt8) : List Text := elts.dropLast ++ [elts.getLastD [] ++ [c]]

/-- The loop of `split_line`. -/
def splitLineLoop (sep stop : UInt8) (n : ℕ) : Text → Bool → List Text → SplitLine
  | [], _, elts => ⟨elts, none⟩
  | c :: s, space, elts =>
    if elts.length ≤ n then
      if c = stop then ⟨elts, some s⟩
      else if c = sep then splitLineLoop sep stop n s true elts
      else if space then splitLineLoop sep stop n s false (elts ++ [[c]])
      else splitLineLoop sep stop n s false (grow elts c)
    else ⟨elts, some s⟩

/-- `split_line`, into an array of `n` tokens. -/
def splitLine (sep stop : UInt8) (n : ℕ) (s : Text) : SplitLine :=
  splitLineLoop sep stop n s true []

/-- A line: what is before the first `stop`, and what is behind that, if there is one. -/
def cutLine (stop : UInt8) (s : Text) : Text × Option Text :=
  (s.takeWhile (· ≠ stop), (s.dropWhile (· ≠ stop)).tail?)

section Spec

variable {sep stop c : UInt8} {n : ℕ} {s cur : Text} {space : Bool} {elts : List Text}

@[simp] theorem cutLine_nil : cutLine stop [] = ([], none) := rfl

@[simp] theorem cutLine_stop : cutLine stop (stop :: s) = ([], some s) := by simp [cutLine]

theorem cutLine_cons (h : c ≠ stop) :
    cutLine stop (c :: s) = (c :: (cutLine stop s).1, (cutLine stop s).2) := by
  simp [cutLine, h]

theorem grow_append (elts : List Text) (cur : Text) (c : UInt8) :
    grow (elts ++ [cur]) c = elts ++ [cur ++ [c]] := by
  simp [grow]

theorem notMem_append (h : sep ∉ cur) (hc : c ≠ sep) : sep ∉ cur ++ [c] := by
  rw [List.mem_append, List.mem_singleton]
  exact not_or.mpr ⟨h, fun heq => hc heq.symm⟩

theorem splitLine_ext {line : SplitLine} {elts : List Text} {next : Option Text}
    (helts : line.elts = elts) (hnext : line.next = next) : line = ⟨elts, next⟩ := by
  cases line
  cases helts
  cases hnext
  rfl

/-- What the loop leaves of the tokens `toks` of a line with `next` behind it: it counts them up to
the first that has no room, and those that have room are there. -/
structure LineSplit (n : ℕ) (toks : List Text) (next : Option Text) (r : SplitLine) : Prop where
  length : r.elts.length = min (n + 1) toks.length
  take : r.elts.take n = toks.take n
  next : toks.length ≤ n → r.next = next

/-- **The loop, whether there is room or not**, between two tokens and in one. -/
theorem splitLineLoop_spec (s : Text) :
    (∀ elts, elts.length ≤ n + 1 →
      LineSplit n (elts ++ tokens sep (cutLine stop s).1) (cutLine stop s).2
        (splitLineLoop sep stop n s true elts)) ∧
    ∀ elts cur, cur ≠ [] → sep ∉ cur → elts.length ≤ n →
      LineSplit n (elts ++ tokens sep (cur ++ (cutLine stop s).1)) (cutLine stop s).2
        (splitLineLoop sep stop n s false (elts ++ [cur])) := by
  have hdone (elts : List Text) (next : Option Text) (hle : elts.length ≤ n + 1) :
      LineSplit n elts next ⟨elts, next⟩ := ⟨(min_eq_right hle).symm, rfl, fun _ => rfl⟩
  have hsucc (elts : List Text) (cur : Text) : (elts ++ [cur]).length = elts.length + 1 :=
    List.length_append
  induction s with
  | nil =>
    refine ⟨fun elts hle => ?_, fun elts cur hne hsep hle => ?_⟩
    · rw [splitLineLoop, cutLine_nil, tokens_nil, List.append_nil]
      exact hdone elts none hle
    · rw [splitLineLoop, cutLine_nil, List.append_nil, tokens_of_notMem hne hsep]
      exact hdone _ none ((hsucc elts cur).trans_le (Nat.succ_le_succ hle))
  | cons c s ih =>
    obtain ⟨ihtrue, ihfalse⟩ := ih
    constructor
    · intro elts hle
      rw [splitLineLoop]
      by_cases hroom : elts.length ≤ n
      · rw [if_pos hroom]
        by_cases hstop : c = stop
        · rw [if_pos hstop, hstop, cutLine_stop, tokens_nil, List.append_nil]
          exact hdone elts (some s) hle
        · rw [if_neg hstop, cutLine_cons hstop]
          by_cases hc : c = sep
          · rw [if_pos hc, hc, tokens_sep_cons]
            exact ihtrue elts hle
          · rw [if_neg hc, if_pos rfl]
            refine ihfalse elts [c] (List.cons_ne_nil _ _) ?_ hroom
            exact fun hmem => hc (List.mem_singleton.mp hmem).symm
      · have hfull : elts.length = n + 1 := by omega
        rw [if_neg hroom]
        refine ⟨?_, ?_, fun hfits => ?_⟩
        · rw [List.length_append, hfull, min_eq_left (Nat.le_add_right _ _)]
        · exact (List.take_append_of_le_length (hfull.symm ▸ Nat.le_succ n)).symm
        · rw [List.length_append] at hfits
          omega
    · intro elts cur hne hsep hle
      have hone := one_le_length_tokens hne hsep (cutLine stop (c :: s)).1
      rw [splitLineLoop, hsucc]
      by_cases hroom : elts.length + 1 ≤ n
      · rw [if_pos hroom]
        by_cases hstop : c = stop
        · rw [if_pos hstop, hstop, cutLine_stop, List.append_nil, tokens_of_notMem hne hsep]
          exact hdone _ (some s) ((hsucc elts cur).trans_le (Nat.succ_le_succ hle))
        · rw [if_neg hstop, cutLine_cons hstop]
          by_cases hc : c = sep
          · rw [if_pos hc, hc, tokens_append_cons hne hsep]
            have htrue := ihtrue (elts ++ [cur])
              ((hsucc elts cur).trans_le (Nat.succ_le_succ hle))
            rwa [List.append_assoc] at htrue
          · rw [if_neg hc, if_neg Bool.false_ne_true, grow_append]
            have hgrow := ihfalse elts (cur ++ [c]) (List.append_ne_nil_of_left_ne_nil hne [c])
              (notMem_append hsep hc) hle
            rwa [List.append_assoc] at hgrow
      · -- `cur` is the one that has no room
        have hfull : elts.length = n := by omega
        rw [if_neg hroom]
        refine ⟨?_, ?_, fun hfits => ?_⟩
        · rw [hsucc, List.length_append, hfull, min_eq_left (Nat.add_le_add_left hone n)]
        · rw [List.take_append_of_le_length hfull.ge, List.take_append_of_le_length hfull.ge]
        · rw [List.length_append] at hfits
          omega

theorem lineSplit_splitLine (sep stop : UInt8) (n : ℕ) (s : Text) :
    LineSplit n (tokens sep (cutLine stop s).1) (cutLine stop s).2 (splitLine sep stop n s) :=
  (splitLineLoop_spec s).1 [] (Nat.zero_le (n + 1))

/-- **How many tokens are counted**: one more than there is room for, if there are more. -/
theorem length_splitLine (sep stop : UInt8) (n : ℕ) (s : Text) :
    (splitLine sep stop n s).elts.length = min (n + 1) (tokens sep (cutLine stop s).1).length :=
  (lineSplit_splitLine sep stop n s).length

/-- **The tokens that have room**, however many there are. -/
theorem take_splitLine (sep stop : UInt8) (n : ℕ) (s : Text) :
    (splitLine sep stop n s).elts.take n = (tokens sep (cutLine stop s).1).take n :=
  (lineSplit_splitLine sep stop n s).take

/-- **The tokens of a line**, when there is room for them. -/
theorem splitLine_of_le (h : (tokens sep (cutLine stop s).1).length ≤ n) :
    splitLine sep stop n s = ⟨tokens sep (cutLine stop s).1, (cutLine stop s).2⟩ := by
  have hsplit := lineSplit_splitLine sep stop n s
  have hlen : (splitLine sep stop n s).elts.length ≤ n := by
    rw [hsplit.length]
    exact (min_le_right _ _).trans h
  have helts := hsplit.take
  rw [List.take_of_length_le hlen, List.take_of_length_le h] at helts
  exact splitLine_ext helts (hsplit.next h)

/-- **More tokens than there is room for.** -/
theorem lt_length_splitLine (h : n < (tokens sep (cutLine stop s).1).length) :
    n < (splitLine sep stop n s).elts.length := by
  rw [length_splitLine]
  exact lt_min (Nat.lt_succ_self n) h

end Spec

/-! ## What a caller may rely on -/

/-- What `split_line` is to do with an array of `n` tokens: it writes into the array only, the
tokens that have room are in it, the count tells whether all of them have, and if they have, the
pointer is behind the line. -/
structure SplitsLine (sep stop : UInt8) (n : ℕ) (s : Text) : Prop where
  inside : (splitLine sep stop n s).elts.length ≤ n
  firsts : (splitLine sep stop n s).elts.take (min (tokens sep (cutLine stop s).1).length n) =
    (tokens sep (cutLine stop s).1).take (min (tokens sep (cutLine stop s).1).length n)
  res_le_iff : (splitLine sep stop n s).elts.length ≤ n ↔ (tokens sep (cutLine stop s).1).length ≤ n
  fits : (tokens sep (cutLine stop s).1).length ≤ n →
    (splitLine sep stop n s).elts.length = (tokens sep (cutLine stop s).1).length ∧
      (splitLine sep stop n s).next = (cutLine stop s).2

/-- **When it does**: exactly if there is room for the tokens of the line. Otherwise it still counts
and finds them, but has written behind the array. -/
theorem splitsLine_iff (sep stop : UInt8) (n : ℕ) (s : Text) :
    SplitsLine sep stop n s ↔ (tokens sep (cutLine stop s).1).length ≤ n := by
  have hres : (splitLine sep stop n s).elts.length ≤ n ↔
      (tokens sep (cutLine stop s).1).length ≤ n := by
    rw [length_splitLine, min_le_iff, or_iff_right (Nat.not_succ_le_self n)]
  refine ⟨fun h => hres.mp h.inside, fun h => ⟨hres.mpr h, ?_, hres, ?_⟩⟩
  · rw [← List.take_take, ← List.take_take, take_splitLine]
  · intro h
    rw [splitLine_of_le h]
    exact ⟨rfl, rfl⟩

/-- A line of three tokens, and an array of two. -/
theorem not_splitsLine_three : ¬ SplitsLine 32 59 2 (ascii ['a', ' ', 'b', ' ', 'c', ';']) := by
  intro h
  exact absurd h.inside (by decide)

end Ltm

end Tqos
