import Tqos.Lib.Traced
import Tqos.Ltm.Package

/-!
# The arrays of unpacking

`install_unpack_file` again, with its arrays: `tmp` for the list of the files, `tmpbuf` for a piece
of one of them, the two tokens of a line, and in `unpack.c` the path. Every access to one of them is
logged. The list is split where it lies, and a NUL goes behind each of the two tokens.

What is behind the list in the package matters here only by how much of it can be read, so it is a
parameter: any state, and a function that reads a number of bytes.

## Main results

* `splitLineAt_spec` — splitting in place finds the tokens
* `value_installUnpackFile` — unpacking in the arrays comes to what it does on texts
* `insideArrays_iff` — when `tmp` and `tmpbuf` are used inside their bounds
-/

namespace Tqos

namespace Ltm

/-! ## Splitting in place -/

/-- `elts[i - 1].len++`. -/
def growAt (elts : List Cstr) : List Cstr :=
  elts.dropLast ++ (elts.getLast?.map fun c => ⟨c.str, c.len + 1⟩).toList

/-- The loop of `split_line`, at the offset `off`: the tokens, and the pointer it returns. -/
def splitLineAtLoop (sep stop : UInt8) (n : ℕ) : Text → ℕ → Bool → List Cstr → List Cstr × ℕ
  | [], off, _, elts => (elts, off + 1)
  | c :: s, off, space, elts =>
    if elts.length ≤ n then
      if c = stop then (elts, off + 1)
      else if c = sep then splitLineAtLoop sep stop n s (off + 1) true elts
      else if space then splitLineAtLoop sep stop n s (off + 1) false (elts ++ [⟨off, 1⟩])
      else splitLineAtLoop sep stop n s (off + 1) false (growAt elts)
    else (elts, off + 1)

/-- `split_line` in a buffer that ends at `t`, from the offset `s` on. -/
def splitLineAt (sep stop : UInt8) (n : ℕ) (t : Text) (s : ℕ) : List Cstr × ℕ :=
  splitLineAtLoop sep stop n (t.drop s) s true []

/-- Splitting in place, beside what it finds. -/
structure SplitsAt (t : Text) (r : List Cstr × ℕ) (line : SplitLine) : Prop where
  elts : r.1.map (Cstr.text t) = line.elts
  next : line.next = if r.2 ≤ t.length then some (t.drop r.2) else none
  inside : ∀ c ∈ r.1, c.str + c.len < r.2
  apart : r.1.Pairwise fun c d => c.str + c.len < d.str

/-- Tokens with something between them, and all in front of an offset. -/
structure Apart (elts : List Cstr) (off : ℕ) : Prop where
  pairwise : elts.Pairwise fun c d => c.str + c.len < d.str
  before : ∀ c ∈ elts, c.str + c.len < off

section Split

variable {sep stop : UInt8} {n : ℕ} {t l : Text} {off : ℕ} {elts : List Cstr}

theorem growAt_append (elts : List Cstr) (c : Cstr) :
    growAt (elts ++ [c]) = elts ++ [⟨c.str, c.len + 1⟩] := by
  simp [growAt]

/-- What is behind an offset, and the byte there. -/
theorem drop_succ_of_drop {c : UInt8} (h : t.drop off = c :: l) :
    off < t.length ∧ t.drop (off + 1) = l := by
  have hlt : off < t.length := by
    by_contra hle
    rw [List.drop_eq_nil_of_le (Nat.le_of_not_lt hle)] at h
    cases h
  rw [List.drop_eq_getElem_cons hlt] at h
  exact ⟨hlt, (List.cons.inj h).2⟩

/-- A token grows by the byte behind it. -/
theorem text_succ {c : Cstr} {b : UInt8} (hoff : c.str + c.len = off) (h : t.drop off = b :: l) :
    Cstr.text t ⟨c.str, c.len + 1⟩ = c.text t ++ [b] := by
  have hdrop : (t.drop c.str).drop c.len = b :: l := by rw [List.drop_drop, hoff, h]
  have hsplit := List.take_append_drop c.len (t.drop c.str)
  rw [hdrop] at hsplit
  have hlen : ((t.drop c.str).take c.len).length = c.len := by
    rw [List.length_take]
    have hlt := (drop_succ_of_drop hdrop).1
    omega
  show (t.drop c.str).take (c.len + 1) = (t.drop c.str).take c.len ++ [b]
  conv_lhs => rw [← hsplit]
  rw [List.take_append, hlen, Nat.add_sub_cancel_left, List.take_of_length_le (by omega)]
  rfl

theorem Apart.succ (h : Apart elts off) : Apart elts (off + 1) :=
  ⟨h.pairwise, fun c hc => Nat.lt_succ_of_lt (h.before c hc)⟩

/-- Another token stands behind the others. -/
theorem Apart.append {c : Cstr} (h : Apart elts c.str) :
    Apart (elts ++ [c]) (c.str + c.len + 1) := by
  refine ⟨List.pairwise_append.mpr ⟨h.pairwise, List.pairwise_singleton _ _, ?_⟩, ?_⟩
  · intro d hd e he
    obtain rfl := List.mem_singleton.mp he
    exact h.before d hd
  · intro d hd
    rcases List.mem_append.mp hd with hd | hd
    · have hlt := h.before d hd
      omega
    · obtain rfl := List.mem_singleton.mp hd
      exact Nat.lt_succ_self _

/-- **The loop in place**, between two tokens and in one. -/
theorem splitLineAtLoop_spec (t l : Text) :
    (∀ off elts, t.drop off = l → off ≤ t.length → Apart elts off →
      SplitsAt t (splitLineAtLoop sep stop n l off true elts)
        (splitLineLoop sep stop n l true (elts.map (Cstr.text t)))) ∧
    ∀ off elts c, t.drop off = l → off ≤ t.length → Apart elts c.str → c.str + c.len = off →
      SplitsAt t (splitLineAtLoop sep stop n l off false (elts ++ [c]))
        (splitLineLoop sep stop n l false (elts.map (Cstr.text t) ++ [c.text t])) := by
  induction l with
  | nil =>
    have hend (off : ℕ) (elts : List Cstr) (hl : t.drop off = []) (hapart : Apart elts (off + 1)) :
        SplitsAt t (elts, off + 1) ⟨elts.map (Cstr.text t), none⟩ := by
      have hlen := List.drop_eq_nil_iff.mp hl
      exact ⟨rfl, (if_neg (by dsimp only; omega)).symm, hapart.before, hapart.pairwise⟩
    refine ⟨fun off elts hl hoff hapart => hend off elts hl hapart.succ,
      fun off elts c hl hoff hapart hc => ?_⟩
    have h := hend off (elts ++ [c]) hl (hc ▸ hapart.append)
    rwa [List.map_append] at h
  | cons b l ih =>
    obtain ⟨ihtrue, ihfalse⟩ := ih
    -- the line ends here, or there is no room
    have hend (off : ℕ) (elts : List Cstr) (hl : t.drop off = b :: l)
        (hapart : Apart elts (off + 1)) :
        SplitsAt t (elts, off + 1) ⟨elts.map (Cstr.text t), some l⟩ := by
      obtain ⟨hlt, hdrop⟩ := drop_succ_of_drop hl
      have hle : off + 1 ≤ t.length := hlt
      refine ⟨rfl, ?_, hapart.before, hapart.pairwise⟩
      dsimp only
      rw [if_pos hle, hdrop]
    constructor
    · intro off elts hl hoff hapart
      obtain ⟨hlt, hdrop⟩ := drop_succ_of_drop hl
      rw [splitLineAtLoop, splitLineLoop, List.length_map]
      by_cases hroom : elts.length ≤ n
      · rw [if_pos hroom, if_pos hroom]
        by_cases hstop : b = stop
        · rw [if_pos hstop, if_pos hstop]
          exact hend off elts hl hapart.succ
        · rw [if_neg hstop, if_neg hstop]
          by_cases hsep : b = sep
          · rw [if_pos hsep, if_pos hsep]
            exact ihtrue (off + 1) elts hdrop hlt hapart.succ
          · have htext : Cstr.text t ⟨off, 1⟩ = [b] := by
              rw [Cstr.text, hl]
              rfl
            rw [if_neg hsep, if_neg hsep, if_pos rfl, if_pos rfl, ← htext]
            exact ihfalse (off + 1) elts ⟨off, 1⟩ hdrop hlt hapart rfl
      · rw [if_neg hroom, if_neg hroom]
        exact hend off elts hl hapart.succ
    · intro off elts c hl hoff hapart hc
      obtain ⟨hlt, hdrop⟩ := drop_succ_of_drop hl
      have hall : Apart (elts ++ [c]) (off + 1) := hc ▸ hapart.append
      have hmap : elts.map (Cstr.text t) ++ [c.text t] = (elts ++ [c]).map (Cstr.text t) := by
        rw [List.map_append]
        rfl
      rw [splitLineAtLoop, splitLineLoop, hmap, List.length_map]
      by_cases hroom : (elts ++ [c]).length ≤ n
      · rw [if_pos hroom, if_pos hroom]
        by_cases hstop : b = stop
        · rw [if_pos hstop, if_pos hstop]
          exact hend off _ hl hall
        · rw [if_neg hstop, if_neg hstop]
          by_cases hsep : b = sep
          · rw [if_pos hsep, if_pos hsep]
            exact ihtrue (off + 1) _ hdrop hlt hall
          · rw [if_neg hsep, if_neg hsep, if_neg Bool.false_ne_true, if_neg Bool.false_ne_true,
              growAt_append, ← hmap, grow_append, ← text_succ hc hl]
            refine ihfalse (off + 1) elts ⟨c.str, c.len + 1⟩ hdrop hlt hapart ?_
            rw [← hc]
            rfl
      · rw [if_neg hroom, if_neg hroom]
        exact hend off _ hl hall

/-- **Splitting in place** finds the tokens and the end of the line. The tokens end in front of
that, and there is a byte between them. -/
theorem splitLineAt_spec (sep stop : UInt8) (n : ℕ) (t : Text) {s : ℕ} (h : s ≤ t.length) :
    SplitsAt t (splitLineAt sep stop n t s) (splitLine sep stop n (t.drop s)) :=
  (splitLineAtLoop_spec t (t.drop s)).1 s [] rfl h
    ⟨List.Pairwise.nil, fun _ hc => absurd hc List.not_mem_nil⟩

end Split

/-! ## The arrays -/

/-- The arrays of `install_unpack_file`. -/
inductive UnpackBuf
  /-- The beginning of the package. -/
  | buf
  | tmp
  | elts
  | newpath
  | tmpbuf
deriving DecidableEq, Repr

/-- How long they are; `elts` has tokens, the others have bytes. -/
def UnpackBuf.size : UnpackBuf → ℕ
  | .buf => 32
  | .tmp => unpackMemMaxlen
  | .elts => 2
  | .newpath => 256
  | .tmpbuf => 512

/-- What is behind the list in a package. -/
structure Body (σ : Type) where
  /-- The state when the list has been read, given what is behind it. -/
  start : Text → σ
  /-- A number of bytes is read, if there are so many. -/
  read : σ → ℕ → Option σ

section Memory

variable {σ : Type} (answers : Answers) (body : Body σ) (dir : Option Text)

/-- `while (flen > 0)`, from a piece on: what is left of the package, if the copy is complete. -/
def copyPieces (fwrite : ℕ → Bool) : ℕ → ℕ → ℕ → σ → Traced Empty UnpackBuf (Option σ)
  | 0, _, _, fp => pure (some fp)
  | fuel + 1, piece, flen, fp =>
    if flen = 0 then pure (some fp)
    else do
      let once := min flen 512
      Traced.touch ⟨.tmpbuf, .write, 0, once⟩
      match body.read fp once with
      | none => pure none
      | some fp => do
        Traced.touch ⟨.tmpbuf, .read, 0, once⟩
        if !fwrite piece then pure none else copyPieces fwrite fuel (piece + 1) (flen - once) fp

/-- `sprintf(newpath, "%s%s", prefix, name)`, where there is a prefix. -/
def savePath (name : Text) : Traced Empty UnpackBuf Text :=
  match dir with
  | none => pure name
  | some dir => do
    Traced.touch ⟨.newpath, .write, 0, (dir ++ name).length + 1⟩
    pure (dir ++ name)

/-- A turn of the loop over the list, from the offset `s` on: `tmp`, where the next line is and the
rest of the package, if there was nothing wrong. -/
def unpackTurn (i e : ℕ) (tmp : Vector UInt8 unpackMemMaxlen) (s : ℕ) (fp : σ) :
    Traced Empty UnpackBuf (Option (Vector UInt8 unpackMemMaxlen × ℕ × σ)) := do
  let r := splitLineAt 32 59 2 (tmp.toList.take e) s
  Traced.touch ⟨.elts, .write, 0, r.1.length⟩
  match r.1 with
  | [name, len] =>
    if r.2 > e then pure none
    else do
      let tmp ← Traced.storeV .tmp tmp (len.str + len.len : ℕ) [0]
      let tmp ← Traced.storeV .tmp tmp (name.str + name.len : ℕ) [0]
      let flen := atoi (cstr (tmp.toList.drop len.str))
      let save ← savePath dir (cstr (tmp.toList.drop name.str))
      if !answers.fopen i save then pure none
      else do
        match ← copyPieces body (answers.fwrite i) flen.toNat 0 flen.toNat fp with
        | none => pure none
        | some fp => if flen < 0 then pure none else pure (some (tmp, r.2, fp))
  | _ => pure none

/-- `for (i = 0 ; s < e; i++)`, from an entry on. -/
def unpackTurns : ℕ → ℕ → ℕ → Vector UInt8 unpackMemMaxlen → ℕ → σ → Traced Empty UnpackBuf ℤ
  | 0, _, _, _, _, _ => pure 0
  | fuel + 1, i, e, tmp, s, fp =>
    if s < e then do
      match ← unpackTurn answers body dir i e tmp s fp with
      | none => pure (-1)
      | some (tmp, s, fp) => unpackTurns fuel (i + 1) e tmp s fp
    else pure 0

/-- `install_unpack_file`, with a prefix or without; `stale` is what `malloc` returns. -/
def unpackArrays (stale : Vector UInt8 unpackMemMaxlen) (package : Option Text) :
    Traced Empty UnpackBuf ℤ :=
  match package with
  | none => pure (-1)
  | some fp => do
    Traced.touch ⟨.buf, .write, 0, 8⟩
    if fp.length < 8 then pure (-1)
    else
      let hdrlen := atoi ((fp.drop 4).take 4)
      let fp := fp.drop 8
      if hdrlen > unpackMemMaxlen then pure (-1)
      else if !answers.malloc then pure (-1)
      else do
        -- `fread` stores as much of what it is asked for as there is
        Traced.touch ⟨.tmp, .write, 0, sizeT hdrlen⟩
        if fp.length < sizeT hdrlen then pure (-1)
        else
          let tmp := blitV stale 0 (fp.take (sizeT hdrlen))
          unpackTurns answers body dir hdrlen.toNat 0 hdrlen.toNat tmp 0
            (body.start (fp.drop (sizeT hdrlen)))

namespace Arrays

/-- `install_unpack_file` of `update.c`. -/
def installUnpackFile (stale : Vector UInt8 unpackMemMaxlen) (package : Option Text) :
    Traced Empty UnpackBuf ℤ := unpackArrays answers body none stale package

/-- `install_unpack_file` of `unpack.c`. -/
def Tool.installUnpackFile (dir : Text) (stale : Vector UInt8 unpackMemMaxlen)
    (package : Option Text) : Traced Empty UnpackBuf ℤ :=
  unpackArrays answers body (some dir) stale package

end Arrays

end Memory

/-! ## The arrays hold what is unpacked -/

/-- What is behind the list, as bytes. -/
def Body.text : Body Text := ⟨id, fun fp n => if n ≤ fp.length then some (fp.drop n) else none⟩

section Value

variable {answers : Answers} {place : Place} {newpath : Text → Except Fault Text}
  {dir : Option Text} {fwrite : ℕ → Bool} {t : Text}

theorem value_copyPieces (fuel piece flen : ℕ) (fp save : Text) :
    (copyPieces Body.text fwrite fuel piece flen fp).value =
      if (copyLoop fwrite fuel piece flen fp save).complete then
        some (copyLoop fwrite fuel piece flen fp save).fp
      else none := by
  induction fuel generalizing piece flen fp save with
  | zero => rfl
  | succ fuel ih =>
    rw [copyPieces, copyLoop]
    by_cases hzero : flen = 0
    · rw [if_pos hzero, if_pos hzero]
      rfl
    · rw [if_neg hzero, if_neg hzero, Traced.value_bind]
      dsimp only
      by_cases hshort : fp.length < min flen 512
      · have hread : Body.text.read fp (min flen 512) = none := if_neg (Nat.not_le.mpr hshort)
        rw [hread, if_pos hshort]
        rfl
      · have hread : Body.text.read fp (min flen 512) = some (fp.drop (min flen 512)) :=
          if_pos (Nat.le_of_not_lt hshort)
        rw [hread, if_neg hshort]
        dsimp only
        rw [Traced.value_bind]
        cases fwrite piece with
        | false => rfl
        | true => exact ih _ _ _ _

/-- A token lies in front of its end. -/
theorem text_congr {t' : Text} {c : Cstr}
    (h : t'.take (c.str + c.len) = t.take (c.str + c.len)) : c.text t' = c.text t := by
  have htake (t : Text) : c.text t = (t.take (c.str + c.len)).drop c.str := by
    rw [List.drop_take, Nat.add_sub_cancel_left]
    rfl
  rw [htake t', htake t, h]

/-- A token is a string when there is a NUL behind it. -/
theorem cstr_blit {c : Cstr} (h : c.str + c.len < t.length) :
    cstr ((blit t (c.str + c.len : ℕ) [0]).drop c.str) = cstr (c.text t) := by
  have hlen : (t.take (c.str + c.len)).length = c.str + c.len := by
    rw [List.length_take]
    omega
  rw [blit_of_le (by exact h), List.append_assoc, List.drop_append_of_le_length (by omega),
    List.drop_take, Nat.add_sub_cancel_left]
  exact cstr_append_zero _ _

/-- **Two tokens are strings** when there is a NUL behind each, and behind both of them nothing has
changed. -/
theorem cstr_blit_blit {c d : Cstr} (hcd : c.str + c.len < d.str)
    (hd : d.str + d.len < t.length) {t' : Text}
    (ht' : t' = blit (blit t (d.str + d.len : ℕ) [0]) (c.str + c.len : ℕ) [0]) :
    cstr (t'.drop c.str) = cstr (c.text t) ∧ cstr (t'.drop d.str) = cstr (d.text t) ∧
      ∀ s, d.str + d.len < s → t'.drop s = t.drop s := by
  subst ht'
  refine ⟨?_, ?_, fun s hs => ?_⟩
  · rw [cstr_blit (by rw [length_blit]; omega)]
    exact congrArg cstr (text_congr (take_blit _ (by omega)))
  · rw [drop_blit _ hcd, cstr_blit hd]
  · rw [drop_blit _ (by omega), drop_blit _ hs]

/-- Two tokens that are a name and a length. -/
theorem eq_pair_of_map_text {elts : List Cstr} {name len : Text}
    (h : elts.map (Cstr.text t) = [name, len]) :
    ∃ c d : Cstr, elts = [c, d] ∧ c.text t = name ∧ d.text t = len := by
  obtain ⟨c, l, rfl, hname, hl⟩ := List.map_eq_cons_iff.mp h
  obtain ⟨d, l', rfl, hlen, hl'⟩ := List.map_eq_cons_iff.mp hl
  obtain rfl := List.map_eq_nil_iff.mp hl'
  exact ⟨c, d, rfl, hname, hlen⟩

/-- What is behind the bytes of an entry, if it is opened and they can be copied. -/
def behindEntry (answers : Answers) (dir : Option Text) (i : ℕ) (name : Text) (flen : ℤ)
    (fp : Text) : Option Text :=
  if answers.fopen i (savePath dir name).value = true ∧ 0 ≤ flen then
    (copyPieces Body.text (answers.fwrite i) flen.toNat 0 flen.toNat fp).value
  else none

/-- The prefix, as `sprintf` writes it in front of the name. -/
def Saves (newpath : Text → Except Fault Text) (dir : Option Text) : Prop :=
  ∀ name save, newpath name = .ok save → save = (savePath dir name).value

theorem saves_ok : Saves .ok none := fun _ _ h => (Except.ok.inj h).symm

theorem saves_newpath (dir : Text) : Saves (Tool.newpath dir) (some dir) := by
  intro name save h
  rw [Tool.newpath] at h
  split at h
  · exact (Except.ok.inj h).symm
  · cases h

/-- What an entry comes to, in the disk and in the arrays. -/
theorem unpackEntry_cases {i : ℕ} {name fp : Text} {flen : ℤ} {disk : Disk} {opened : List Path}
    {x : Unpacked ⊕ Text × Disk × List Path} (hsaves : Saves newpath dir)
    (h : unpackEntry answers place newpath i name flen fp disk opened = .ok x) :
    (∃ r, x = .inl r ∧ r.res = -1 ∧ behindEntry answers dir i name flen fp = none) ∨
    ∃ fp' disk' opened', x = .inr (fp', disk', opened') ∧
      behindEntry answers dir i name flen fp = some fp' := by
  rw [unpackEntry] at h
  cases hsave : newpath name with
  | error e =>
    rw [hsave] at h
    cases h
  | ok save =>
    rw [hsave] at h
    obtain rfl := hsaves name save hsave
    rw [behindEntry, value_copyPieces flen.toNat 0 flen.toNat fp []]
    change ite _ _ _ = _ at h
    cases hopen : answers.fopen i (savePath dir name).value with
    | false =>
      rw [hopen, if_pos (by decide)] at h
      exact Or.inl ⟨_, (Except.ok.inj h).symm, rfl, if_neg fun h => absurd h.1 (by decide)⟩
    | true =>
      rw [hopen, if_neg (by decide)] at h
      split at h
      · cases h
      · dsimp only at h
        cases hcopy : (copyLoop (answers.fwrite i) flen.toNat 0 flen.toNat fp []).complete with
        | false =>
          rw [hcopy, if_pos (by decide)] at h
          refine Or.inl ⟨_, (Except.ok.inj h).symm, rfl, ?_⟩
          rw [if_neg Bool.false_ne_true, ite_self]
        | true =>
          rw [hcopy, if_neg (by decide)] at h
          by_cases hneg : flen < 0
          · rw [if_pos hneg] at h
            exact Or.inl ⟨_, (Except.ok.inj h).symm, rfl, if_neg fun h =>
              absurd h.2 (Int.not_le.mpr hneg)⟩
          · rw [if_neg hneg] at h
            refine Or.inr ⟨_, _, _, (Except.ok.inj h).symm, ?_⟩
            rw [if_pos ⟨rfl, Int.not_lt.mp hneg⟩]
            exact if_pos rfl

section Turn

variable {i e s : ℕ} {tmp : Vector UInt8 unpackMemMaxlen} {fp : Text}

/-- **A turn** at a line that is an entry: where the NULs are stored, the tokens are strings, and
what is behind the line is as before. -/
theorem value_unpackTurn_of_entry {name len rest : Text} (he : e ≤ unpackMemMaxlen) (hs : s ≤ e)
    (hline : splitLine 32 59 2 ((tmp.toList.take e).drop s) = ⟨[name, len], some rest⟩) :
    ∃ tmp' : Vector UInt8 unpackMemMaxlen, ∃ s' : ℕ, s' ≤ e ∧
      (tmp'.toList.take e).drop s' = rest ∧
      (unpackTurn answers Body.text dir i e tmp s fp).value =
        (behindEntry answers dir i (cstr name) (atoi len) fp).map fun fp => (tmp', s', fp) := by
  have hlen : (tmp.toList.take e).length = e := by
    rw [List.length_take, Vector.length_toList, Nat.min_eq_left he]
  have hsplit := splitLineAt_spec 32 59 2 (tmp.toList.take e) (hs.trans_eq hlen.symm)
  rw [hline] at hsplit
  obtain ⟨helts, hnext, hinside, hapart⟩ := hsplit
  rw [unpackTurn, Traced.value_bind]
  obtain ⟨r, hr⟩ : ∃ r, r = splitLineAt 32 59 2 (tmp.toList.take e) s := ⟨_, rfl⟩
  rw [← hr] at helts hnext hinside hapart ⊢
  obtain ⟨cname, clen, htoks, hname, hclen⟩ := eq_pair_of_map_text helts
  rw [htoks] at hinside hapart
  have hend : r.2 ≤ e := by
    by_contra hend
    rw [hlen, if_neg hend] at hnext
    cases hnext
  rw [hlen, if_pos hend] at hnext
  have hrest := Option.some.inj hnext
  have hlt : cname.str + cname.len < clen.str := by simpa using hapart
  have hltend : clen.str + clen.len < r.2 := hinside clen (by simp)
  -- the NUL behind the length, and then the one behind the name
  obtain ⟨tmp', htmp'⟩ : ∃ tmp' : Vector UInt8 unpackMemMaxlen, tmp' =
      blitV (blitV tmp (clen.str + clen.len : ℕ) [0]) (cname.str + cname.len : ℕ) [0] := ⟨_, rfl⟩
  have htext (c : Cstr) (hc : c.str + c.len ≤ e) : c.text (tmp.toList.take e) = c.text tmp.toList :=
    text_congr (by rw [List.take_take, Nat.min_eq_left hc])
  obtain ⟨hcstrname, hcstrlen, hbehind⟩ := @cstr_blit_blit tmp.toList cname clen hlt
    (by rw [Vector.length_toList]; omega) tmp'.toList (by rw [htmp', toList_blitV, toList_blitV])
  rw [← htext cname (by omega), hname] at hcstrname
  rw [← htext clen (by omega), hclen] at hcstrlen
  refine ⟨tmp', r.2, hend, ?_, ?_⟩
  · rw [hrest, List.drop_take, List.drop_take, hbehind r.2 hltend]
  · dsimp only
    rw [htoks]
    dsimp only
    rw [if_neg (Nat.not_lt.mpr hend), Traced.value_bind, Traced.value_bind]
    have hstore (tmp : Vector UInt8 unpackMemMaxlen) (off : ℤ) :
        (Traced.storeV .tmp tmp off [0] : Traced Empty UnpackBuf _).value = blitV tmp off [0] := rfl
    rw [hstore, hstore, ← htmp', hcstrlen, hcstrname, atoi_cstr, Traced.value_bind, behindEntry]
    cases answers.fopen i (savePath dir (cstr name)).value with
    | false => rfl
    | true =>
      rw [if_neg (by decide), Traced.value_bind]
      cases (copyPieces Body.text (answers.fwrite i) (atoi len).toNat 0 (atoi len).toNat
        fp).value with
      | none =>
        rw [ite_self]
        rfl
      | some fp' =>
        dsimp only
        by_cases hneg : atoi len < 0
        · rw [if_pos hneg, if_neg fun h => absurd h.2 (Int.not_le.mpr hneg)]
          rfl
        · rw [if_neg hneg, if_pos ⟨rfl, Int.not_lt.mp hneg⟩]
          rfl

/-- A turn at a line that is none. -/
theorem value_unpackTurn_of_not (he : e ≤ unpackMemMaxlen) (hs : s ≤ e)
    (hline : ∀ name len rest, splitLine 32 59 2 ((tmp.toList.take e).drop s) ≠
      ⟨[name, len], some rest⟩) :
    (unpackTurn answers Body.text dir i e tmp s fp).value = none := by
  have hlen : (tmp.toList.take e).length = e := by
    rw [List.length_take, Vector.length_toList, Nat.min_eq_left he]
  have hsplit := splitLineAt_spec 32 59 2 (tmp.toList.take e) (hs.trans_eq hlen.symm)
  rw [unpackTurn, Traced.value_bind]
  split
  · rename_i name len htoks
    split
    · rfl
    · rename_i hend
      refine absurd ?_ (hline (name.text (tmp.toList.take e)) (len.text (tmp.toList.take e))
        ((tmp.toList.take e).drop (splitLineAt 32 59 2 (tmp.toList.take e) s).2))
      have helts := hsplit.elts
      have hnext := hsplit.next
      rw [hlen, if_pos (Nat.not_lt.mp hend)] at hnext
      rw [htoks] at helts
      exact splitLine_ext helts.symm hnext
  · rfl

/-- **The loop** over the list, in the array and in the text. -/
theorem value_unpackTurns {fuel : ℕ} {disk : Disk} {opened : List Path} {r : Unpacked}
    (hsaves : Saves newpath dir) (he : e ≤ unpackMemMaxlen) (hs : s ≤ e)
    (h : unpackLoop answers place newpath fuel i ((tmp.toList.take e).drop s) fp disk opened =
      .ok r) :
    (unpackTurns answers Body.text dir fuel i e tmp s fp).value = r.res := by
  induction fuel generalizing i s tmp fp disk opened with
  | zero =>
    rw [unpackLoop] at h
    rw [← Except.ok.inj h]
    rfl
  | succ fuel ih =>
    have hlen : ((tmp.toList.take e).drop s).length = e - s := by
      rw [List.length_drop, List.length_take, Vector.length_toList, Nat.min_eq_left he]
    rw [unpackTurns]
    cases hlist : (tmp.toList.take e).drop s with
    | nil =>
      rw [hlist] at h hlen
      rw [unpackLoop] at h
      rw [← Except.ok.inj h, if_neg (by rw [List.length_nil] at hlen; omega)]
      rfl
    | cons c l =>
      rw [hlist] at h hlen
      rw [List.length_cons] at hlen
      rw [if_pos (by omega), Traced.value_bind]
      rw [unpackLoop] at h
      swap
      · exact List.cons_ne_nil c l
      split at h
      · cases h
      · split at h
        · rename_i rest name len hnext helts
          have hline : splitLine 32 59 2 ((tmp.toList.take e).drop s) =
              ⟨[name, len], some rest⟩ := by
            rw [hlist]
            exact splitLine_ext helts hnext
          obtain ⟨tmp', s', hs', hrest, hvalue⟩ := @value_unpackTurn_of_entry answers dir i e s tmp
            fp name len rest he hs hline
          cases hentry : unpackEntry answers place newpath i (cstr name) (atoi len) fp disk
            opened with
          | error e =>
            rw [hentry] at h
            cases h
          | ok x =>
            rw [hentry] at h
            rw [hvalue]
            rcases unpackEntry_cases hsaves hentry with
              ⟨r', rfl, hres, hbehind⟩ | ⟨fp', disk', opened', rfl, hbehind⟩
            · obtain rfl := Except.ok.inj h
              rw [hres, hbehind]
              rfl
            · rw [hbehind]
              exact ih hs' (by rw [hrest]; exact h)
        · rename_i hnot
          rw [value_unpackTurn_of_not he hs, ← Except.ok.inj h]
          · rfl
          · intro name len rest hline
            rw [hlist] at hline
            exact hnot rest name len (by rw [hline]) (by rw [hline])

end Turn

theorem value_unpackArrays {disk : Disk} {r : Unpacked} (hsaves : Saves newpath dir)
    (h : unpackWith answers place newpath disk = .ok r) (stale : Vector UInt8 unpackMemMaxlen) :
    (unpackArrays answers Body.text dir stale (disk (place.path place.file))).value = r.res := by
  rw [unpackWith] at h
  cases hpackage : disk (place.path place.file) with
  | none =>
    rw [hpackage] at h
    rw [← Except.ok.inj h]
    rfl
  | some fp =>
    rw [hpackage] at h
    dsimp only at h
    rw [readHeader] at h
    rw [unpackArrays, Traced.value_bind]
    by_cases hshort : fp.length < 8
    · rw [if_pos hshort] at h ⊢
      rw [← Except.ok.inj h]
      rfl
    · rw [if_neg hshort] at h ⊢
      dsimp only at h ⊢
      obtain ⟨n, hn⟩ : ∃ n, n = atoi ((fp.drop 4).take 4) := ⟨_, rfl⟩
      rw [← hn] at h ⊢
      by_cases hlong : n > unpackMemMaxlen
      · rw [if_pos hlong] at h ⊢
        rw [← Except.ok.inj h]
        rfl
      · rw [if_neg hlong] at h ⊢
        cases hmalloc : answers.malloc with
        | false =>
          rw [hmalloc, if_pos (by decide)] at h
          rw [if_pos (by decide), ← Except.ok.inj h]
          rfl
        | true =>
          rw [hmalloc, if_neg (by decide)] at h
          rw [if_neg (by decide), Traced.value_bind]
          by_cases hfits : min (sizeT n) (fp.drop 8).length > unpackMemMaxlen
          · rw [if_pos hfits] at h
            cases h
          · rw [if_neg hfits] at h
            by_cases hfew : (fp.drop 8).length < sizeT n
            · rw [if_pos hfew] at h ⊢
              rw [← Except.ok.inj h]
              rfl
            · rw [if_neg hfew] at h ⊢
              have hneg := le_atoi ((fp.drop 4).take 4)
              have hmax : unpackMemMaxlen = 4096 := rfl
              have hsign : 0 ≤ n := by
                by_contra hsign
                have hsize := le_sizeT_of_neg (Int.not_le.mp hsign) (hn ▸ hneg)
                omega
              have hsize := sizeT_of_nonneg hsign (Int.not_lt.mp hlong)
              rw [hsize] at h hfew ⊢
              have hlen : ((fp.drop 8).take n.toNat).length = n.toNat := by
                rw [List.length_take]
                omega
              have hlist : ((blitV stale 0 ((fp.drop 8).take n.toNat)).toList.take n.toNat).drop 0 =
                  (fp.drop 8).take n.toNat := by
                have htake := @take_blit_zero _ stale.toList ((fp.drop 8).take n.toNat)
                  (by rw [Vector.length_toList]; omega)
                rwa [hlen] at htake
              change unpackLoop _ _ _ _ _ _ _ _ _ = _ at h
              rw [hlen, ← hlist] at h
              exact value_unpackTurns hsaves (by omega) (Nat.zero_le _) h

/-- **`install_unpack_file` in its arrays** returns what it does on texts. -/
theorem value_installUnpackFile {disk : Disk} {r : Unpacked}
    (h : Ltm.installUnpackFile answers place disk = .ok r)
    (stale : Vector UInt8 unpackMemMaxlen) :
    (Arrays.installUnpackFile answers Body.text stale (disk (place.path place.file))).value =
      r.res :=
  value_unpackArrays saves_ok h stale

theorem value_tool_installUnpackFile {disk : Disk} {r : Unpacked} {dir : Text}
    (h : Tool.installUnpackFile answers place dir disk = .ok r)
    (stale : Vector UInt8 unpackMemMaxlen) :
    (Arrays.Tool.installUnpackFile answers Body.text dir stale
      (disk (place.path place.file))).value = r.res :=
  value_unpackArrays (saves_newpath dir) h stale

end Value

/-! ## Inside the arrays -/

/-- What is asked of a run: `tmp` and `tmpbuf` are used inside their bounds. -/
def InsideArrays {α : Type} (run : Traced Empty UnpackBuf α) : Prop :=
  ∀ a ∈ run.log, a.buf = .tmp ∨ a.buf = .tmpbuf → a.Inside UnpackBuf.size

/-- The length of the list, if the list is read, is not written as a negative number. -/
def HdrlenNonneg (answers : Answers) (package : Option Text) : Prop :=
  ∀ fp, package = some fp → 8 ≤ fp.length → answers.malloc = true →
    ¬ SpellsNegative ((fp.drop 4).take 4)

section Inside

variable {α β σ : Type} {answers : Answers} {body : Body σ} {dir : Option Text}

theorem insideArrays_pure (x : α) : InsideArrays (pure x) := Traced.forall_log_pure x

/-- One part of a run after the other. -/
theorem insideArrays_bind {x : Traced Empty UnpackBuf α} {f : α → Traced Empty UnpackBuf β} :
    InsideArrays (x >>= f) ↔ InsideArrays x ∧ InsideArrays (f x.value) :=
  Traced.forall_log_bind

theorem insideArrays_touch {a : Access UnpackBuf} :
    InsideArrays (Traced.touch a) ↔ (a.buf = .tmp ∨ a.buf = .tmpbuf → a.Inside UnpackBuf.size) :=
  Traced.forall_log_touch

/-- Nothing is asked of the other arrays. -/
theorem insideArrays_touch_of_ne {a : Access UnpackBuf} (h : a.buf ≠ .tmp ∧ a.buf ≠ .tmpbuf) :
    InsideArrays (Traced.touch a) :=
  insideArrays_touch.mpr fun hor => (hor.elim h.1 h.2).elim

theorem insideArrays_store (v : Vector UInt8 unpackMemMaxlen) {off : ℕ}
    (h : off < unpackMemMaxlen) : InsideArrays (Traced.storeV .tmp v (off : ℤ) [0]) := by
  intro a ha _
  obtain rfl := List.mem_singleton.mp ha
  have hle : (off : ℤ) + 1 ≤ unpackMemMaxlen := by exact_mod_cast h
  exact Or.inr ⟨Int.natCast_nonneg off, hle⟩

/-- **A piece** fits into `tmpbuf`, however long the entry is said to be. -/
theorem insideArrays_copyPieces (fwrite : ℕ → Bool) (fuel piece flen : ℕ) (fp : σ) :
    InsideArrays (copyPieces body fwrite fuel piece flen fp) := by
  induction fuel generalizing piece flen fp with
  | zero => exact insideArrays_pure _
  | succ fuel ih =>
    have hfits (dir : Dir) :
        (⟨.tmpbuf, dir, 0, min flen 512⟩ : Access UnpackBuf).Inside UnpackBuf.size := by
      have hle : ((min flen 512 : ℕ) : ℤ) ≤ 512 := by exact_mod_cast Nat.min_le_right flen 512
      exact Or.inr ⟨le_rfl, by rwa [zero_add]⟩
    rw [copyPieces]
    split
    · exact insideArrays_pure _
    · refine insideArrays_bind.mpr ⟨insideArrays_touch.mpr fun _ => hfits .write, ?_⟩
      cases body.read fp (min flen 512) with
      | none => exact insideArrays_pure _
      | some fp =>
        refine insideArrays_bind.mpr ⟨insideArrays_touch.mpr fun _ => hfits .read, ?_⟩
        split
        · exact insideArrays_pure _
        · exact ih _ _ fp

theorem insideArrays_savePath (dir : Option Text) (name : Text) :
    InsideArrays (savePath dir name) := by
  cases dir with
  | none => exact insideArrays_pure _
  | some dir =>
    exact insideArrays_bind.mpr ⟨insideArrays_touch_of_ne (by simp), insideArrays_pure _⟩

/-- **A turn**: the NULs go behind the tokens, in front of the end of their line. -/
theorem insideArrays_unpackTurn {i e s : ℕ} (he : e ≤ unpackMemMaxlen) (hs : s ≤ e)
    (tmp : Vector UInt8 unpackMemMaxlen) (fp : σ) :
    InsideArrays (unpackTurn answers body dir i e tmp s fp) := by
  have hlen : (tmp.toList.take e).length = e := by
    rw [List.length_take, Vector.length_toList, Nat.min_eq_left he]
  have hsplit := splitLineAt_spec 32 59 2 (tmp.toList.take e) (hs.trans_eq hlen.symm)
  rw [unpackTurn]
  refine insideArrays_bind.mpr ⟨insideArrays_touch_of_ne (by simp), ?_⟩
  · split
    · rename_i name len htoks
      split
      · exact insideArrays_pure _
      · rename_i hend
        have hinside : ∀ c ∈ [name, len], c.str + c.len < unpackMemMaxlen := by
          intro c hc
          have hlt := hsplit.inside c (by rwa [htoks])
          omega
        refine insideArrays_bind.mpr ⟨insideArrays_store _ (hinside len (by simp)), ?_⟩
        refine insideArrays_bind.mpr ⟨insideArrays_store _ (hinside name (by simp)), ?_⟩
        refine insideArrays_bind.mpr ⟨insideArrays_savePath dir _, ?_⟩
        split
        · exact insideArrays_pure _
        · refine insideArrays_bind.mpr ⟨insideArrays_copyPieces _ _ _ _ _, ?_⟩
          split
          · exact insideArrays_pure _
          · split <;> exact insideArrays_pure _
    · exact insideArrays_pure _

/-- **The loop**, when the list lies in `tmp`. -/
theorem insideArrays_unpackTurns {e : ℕ} (he : e ≤ unpackMemMaxlen) (fuel i : ℕ)
    (tmp : Vector UInt8 unpackMemMaxlen) (s : ℕ) (fp : σ) :
    InsideArrays (unpackTurns answers body dir fuel i e tmp s fp) := by
  induction fuel generalizing i tmp s fp with
  | zero => exact insideArrays_pure _
  | succ fuel ih =>
    rw [unpackTurns]
    split
    · rename_i hs
      refine insideArrays_bind.mpr ⟨insideArrays_unpackTurn he hs.le tmp fp, ?_⟩
      split
      · exact insideArrays_pure _
      · exact ih _ _ _ _
    · exact insideArrays_pure _

theorem insideArrays_unpackArrays_iff (stale : Vector UInt8 unpackMemMaxlen)
    (package : Option Text) : InsideArrays (unpackArrays answers body dir stale package) ↔
      HdrlenNonneg answers package := by
  cases package with
  | none => exact iff_of_true (insideArrays_pure _) nofun
  | some fp =>
    have hbuf : InsideArrays (Traced.touch (⟨.buf, .write, 0, 8⟩ : Access UnpackBuf)) :=
      insideArrays_touch_of_ne (by simp)
    have hlen : HdrlenNonneg answers (some fp) ↔
        (8 ≤ fp.length → answers.malloc = true → 0 ≤ atoi ((fp.drop 4).take 4)) := by
      constructor
      · exact fun h hle hmalloc => Int.not_lt.mp ((atoi_neg_iff _).not.mpr (h fp rfl hle hmalloc))
      · intro h fp' heq hle hmalloc
        obtain rfl := Option.some.inj heq
        exact (atoi_neg_iff _).not.mp (Int.not_lt.mpr (h hle hmalloc))
    rw [hlen, unpackArrays, insideArrays_bind, and_iff_right hbuf]
    by_cases hshort : fp.length < 8
    · rw [if_pos hshort]
      exact iff_of_true (insideArrays_pure _) fun h => absurd hshort (Nat.not_lt.mpr h)
    · rw [if_neg hshort]
      dsimp only
      obtain ⟨hdrlen, hhdr⟩ : ∃ n, n = atoi ((fp.drop 4).take 4) := ⟨_, rfl⟩
      rw [← hhdr]
      by_cases hlong : hdrlen > unpackMemMaxlen
      · rw [if_pos hlong]
        exact iff_of_true (insideArrays_pure _) fun _ _ => le_trans (by decide) hlong.le
      · rw [if_neg hlong]
        cases hmalloc : answers.malloc with
        | false =>
          rw [if_pos (by decide)]
          exact iff_of_true (insideArrays_pure _) fun _ => nofun
        | true =>
          rw [if_neg (by decide), insideArrays_bind, insideArrays_touch]
          have hmax : unpackMemMaxlen = 4096 := rfl
          by_cases hneg : hdrlen < 0
          · have hsize := le_sizeT_of_neg hneg (hhdr ▸ le_atoi _)
            refine iff_of_false (fun h => ?_) fun h =>
              absurd (h (Nat.le_of_not_lt hshort) rfl) (Int.not_le.mpr hneg)
            rcases h.1 (Or.inl rfl) with hzero | ⟨-, hin⟩
            · dsimp only at hzero
              omega
            · dsimp only [UnpackBuf.size] at hin
              omega
          · have hsize := sizeT_of_nonneg (Int.not_lt.mp hneg) (Int.not_lt.mp hlong)
            have htoNat : hdrlen.toNat ≤ unpackMemMaxlen := by omega
            refine iff_of_true ⟨fun _ => ?_, ?_⟩ fun _ _ => Int.not_lt.mp hneg
            · rw [hsize]
              refine Or.inr ⟨le_rfl, ?_⟩
              dsimp only [UnpackBuf.size]
              omega
            · split
              · exact insideArrays_pure _
              · exact insideArrays_unpackTurns htoNat _ _ _ _ _

/-- **Unpacking uses `tmp` and `tmpbuf` inside their bounds** when, and only when, the length of the
list is not written as a negative number: that is compared with the size of `tmp` before `fread`
takes it for a `size_t`. The entries of the list do not matter. -/
theorem insideArrays_iff {σ : Type} (answers : Answers) (body : Body σ)
    (stale : Vector UInt8 unpackMemMaxlen) (package : Option Text) :
    (InsideArrays (Arrays.installUnpackFile answers body stale package) ↔
      HdrlenNonneg answers package) ∧
    ∀ dir, InsideArrays (Arrays.Tool.installUnpackFile answers body dir stale package) ↔
      HdrlenNonneg answers package :=
  ⟨insideArrays_unpackArrays_iff stale package,
    fun _ => insideArrays_unpackArrays_iff stale package⟩

/-- A package with a header only, and `-1` for the length of the list. -/
def negativePackage : Text := ascii ['W', 'W', 'P', 'K', '-', '1', ' ', ' ']

/-- For `-1`, `fread` is asked for `2 ^ 32 - 1` bytes. -/
theorem not_insideArrays_negativePackage :
    ¬ InsideArrays (Arrays.installUnpackFile ⟨true, fun _ _ => true, fun _ _ => true⟩ Body.text
      (Vector.replicate unpackMemMaxlen 0) (some negativePackage)) := by
  rw [Arrays.installUnpackFile, insideArrays_unpackArrays_iff]
  intro h
  refine h negativePackage rfl (by decide) rfl ⟨[], 49, [32, 32], by decide, ?_, by decide, rfl⟩
  exact List.forall_mem_nil _

end Inside

end Ltm

end Tqos
