import Tqos.Ltm.Http
import Tqos.Ltm.Package

/-!
# The buffer of a request

`xiaocilang_gogogo` up to `writev`, with the array that it formats the request in. Each `snprintf`
gets the pointer it has come to and, as a size, the difference of that and the end of the array.
The pointer goes on by what `snprintf` returns, which is the length of the whole text, or a negative
number when that is no `int`.

## Main results

* `value_writeRequest_of_some` — the buffer holds the text that the request is
* `sendsWhole_iff` — when all of it is formatted inside the array, or nothing is sent
-/

namespace Tqos

namespace Ltm

/-! ## `snprintf` -/

/-- The array. -/
inductive ReqBuf
  | buf
deriving DecidableEq, Repr

/-- What `snprintf` returns for a text. -/
def snprintfRes (t : Text) : ℤ := if t.length < 2 ^ 31 then t.length else -1

/-- What it writes: no more than the size, with the NUL. -/
def printed (size : ℕ) (t : Text) : Text := if size = 0 then [] else t.take (size - 1) ++ [0]

/-- `pbuf += snprintf(pbuf, end - pbuf, …)`. The access is what it may write to. -/
def snprintf (buf : Vector UInt8 defReqSize) (pbuf : ℤ) (t : Text) :
    Traced Empty ReqBuf (Vector UInt8 defReqSize × ℤ) := do
  let size := sizeT (defReqSize - pbuf)
  Traced.touch ⟨.buf, .write, pbuf, size⟩
  pure (blitV buf pbuf (printed size t), pbuf + snprintfRes t)

/-! ## The request -/

/-- `iov[0]`. -/
structure Iov where
  base : Vector UInt8 defReqSize
  len : ℕ

/-- There is a connection. -/
def Net.Connected (net : Net) : Prop := net.socket = true ∧ (List.range 4).any net.connect = true

instance (net : Net) : Decidable net.Connected := inferInstanceAs (Decidable (_ ∧ _))

namespace HttpRequest

/-- The loop over the header lines, if it gets to the end of them. -/
def writeLines : List (Text × Text) → Vector UInt8 defReqSize → ℤ →
    Traced Empty ReqBuf (Option (Vector UInt8 defReqSize × ℤ))
  | [], buf, pbuf => pure (some (buf, pbuf))
  | l :: lines, buf, pbuf =>
    if pbuf < defReqSize then do
      let r ← snprintf buf pbuf (headerLine l)
      writeLines lines r.1 r.2
    else pure none

/-- `xiaocilang_gogogo` up to `writev`: what that gets in front of the data, unless the function has
returned -1 before. -/
def writeRequest (net : Net) (req : HttpRequest) (buf : Vector UInt8 defReqSize) :
    Traced Empty ReqBuf (Option Iov) := do
  let r ← snprintf buf 0 req.requestLine
  match ← writeLines req.lines r.1 r.2 with
  | none => pure none
  | some (buf, pbuf) => do
    let r ← snprintf buf pbuf (lengthLine req.data)
    if net.Connected then pure (some ⟨r.1, sizeT r.2⟩) else pure none

/-- What `snprintf` reports for the request line and a number of header lines. -/
def reported (req : HttpRequest) (k : ℕ) : ℤ :=
  snprintfRes req.requestLine + ((req.lines.take k).map fun l => snprintfRes (headerLine l)).sum

end HttpRequest

/-- What is asked of a run: no `snprintf` may write outside the array, and `writev` gets the whole
text, which is in the array. -/
structure SendsWhole (req : HttpRequest) (run : Traced Empty ReqBuf (Option Iov)) : Prop where
  inside : ∀ a ∈ run.log, a.Inside fun _ => defReqSize
  whole : ∀ iov, run.value = some iov →
    iov.len = req.wholeText.length ∧ iov.base.toList.take iov.len = req.wholeText

/-- When a request is formatted well. The loop ends at a header line in front of which there are as
many bytes as there is room for, and nothing is sent then. -/
structure Formattable (net : Net) (req : HttpRequest) : Prop where
  /-- No header line is written in front of the array. -/
  lines : ∀ k < req.lines.length, (∀ j ≤ k, req.reported j < defReqSize) → 0 ≤ req.reported k
  /-- When there is room in front of every header line, there is for what is behind them. -/
  last : (∀ j < req.lines.length, req.reported j < defReqSize) →
    0 ≤ req.reported req.lines.length ∧ req.reported req.lines.length ≤ defReqSize ∧
      (net.Connected → req.wholeText.length < defReqSize)

section Inside

open HttpRequest

variable {net : Net} {req : HttpRequest} {buf : Vector UInt8 defReqSize} {pbuf : ℤ} {t u : Text}
  {lines : List (Text × Text)}

theorem le_snprintfRes (t : Text) : -1 ≤ snprintfRes t ∧ snprintfRes t < 2 ^ 31 := by
  rw [snprintfRes]
  split <;> omega

/-- **One call** stays inside when the pointer is inside. -/
theorem inside_snprintf_iff (hlow : -1 ≤ pbuf) (hhigh : pbuf < 2 ^ 32) :
    (∀ a ∈ (snprintf buf pbuf t).log, a.Inside fun _ => defReqSize) ↔
      0 ≤ pbuf ∧ pbuf ≤ defReqSize := by
  have hmax : (defReqSize : ℤ) = 2048 := rfl
  rw [snprintf, Traced.forall_log_bind, Traced.forall_log_touch,
    and_iff_left (Traced.forall_log_pure _), Access.Inside]
  dsimp only
  rw [sizeT]
  constructor
  · rintro (hsize | ⟨hleft, hright⟩)
    · omega
    · omega
  · rintro ⟨hleft, hright⟩
    omega

/-- The pointer behind header lines. -/
def behind (pbuf : ℤ) (lines : List (Text × Text)) : ℤ :=
  pbuf + (lines.map fun l => snprintfRes (headerLine l)).sum

theorem behind_cons (pbuf : ℤ) (l : Text × Text) (lines : List (Text × Text)) :
    behind pbuf (l :: lines) = behind (pbuf + snprintfRes (headerLine l)) lines := by
  rw [behind, behind, List.map_cons, List.sum_cons, Int.add_assoc]

/-- **The loop**: the calls it makes are inside when no pointer is in front of the array. -/
theorem inside_writeLines_iff (hlow : -1 ≤ pbuf) :
    (∀ a ∈ (writeLines lines buf pbuf).log, a.Inside fun _ => defReqSize) ↔
      ∀ k < lines.length, (∀ j ≤ k, behind pbuf (lines.take j) < defReqSize) →
        0 ≤ behind pbuf (lines.take k) := by
  have hzero (lines : List (Text × Text)) : behind pbuf (lines.take 0) = pbuf := add_zero pbuf
  induction lines generalizing buf pbuf with
  | nil => exact iff_of_true (Traced.forall_log_pure _) fun k hk => absurd hk (Nat.not_lt_zero k)
  | cons l lines ih =>
    rw [writeLines]
    by_cases hroom : pbuf < defReqSize
    · have hmax : (defReqSize : ℤ) = 2048 := rfl
      have hres := le_snprintfRes (headerLine l)
      rw [if_pos hroom, Traced.forall_log_bind, inside_snprintf_iff hlow (by omega)]
      have hvalue : (Traced.value (snprintf buf pbuf (headerLine l))).2 =
          pbuf + snprintfRes (headerLine l) := rfl
      rw [hvalue]
      constructor
      · rintro ⟨⟨hpos, -⟩, hrest⟩ k hk hbelow
        cases k with
        | zero => rwa [hzero]
        | succ k =>
          rw [List.take_succ_cons, behind_cons]
          refine (ih (by omega) fun _ => add_zero _).mp hrest k (Nat.lt_of_succ_lt_succ hk) ?_
          intro j hj
          rw [← behind_cons, ← List.take_succ_cons]
          exact hbelow (j + 1) (Nat.succ_le_succ hj)
      · intro h
        have hpos : 0 ≤ pbuf := by
          rw [← hzero (l :: lines)]
          refine h 0 (Nat.succ_pos _) fun j hj => ?_
          rwa [Nat.le_zero.mp hj, hzero]
        refine ⟨⟨hpos, hroom.le⟩, (ih (by omega) fun _ => add_zero _).mpr fun k hk hbelow => ?_⟩
        rw [← behind_cons, ← List.take_succ_cons]
        refine h (k + 1) (Nat.succ_lt_succ hk) fun j hj => ?_
        cases j with
        | zero => rwa [hzero]
        | succ j =>
          rw [List.take_succ_cons, behind_cons]
          exact hbelow j (Nat.le_of_succ_le_succ hj)
    · rw [if_neg hroom]
      refine iff_of_true (Traced.forall_log_pure _) fun k _ hbelow => ?_
      have hfirst := hbelow 0 (Nat.zero_le k)
      rw [hzero] at hfirst
      exact absurd hfirst hroom

/-- It gets to the end when there is room in front of every line. -/
theorem value_writeLines (lines : List (Text × Text)) (buf : Vector UInt8 defReqSize) (pbuf : ℤ) :
    (∃ buf', (writeLines lines buf pbuf).value = some (buf', behind pbuf lines)) ∧
        (∀ j < lines.length, behind pbuf (lines.take j) < defReqSize) ∨
      (writeLines lines buf pbuf).value = none ∧
        ¬ ∀ j < lines.length, behind pbuf (lines.take j) < defReqSize := by
  induction lines generalizing buf pbuf with
  | nil =>
    refine Or.inl ⟨⟨buf, ?_⟩, fun j hj => absurd hj (Nat.not_lt_zero j)⟩
    exact congrArg (fun n => some (buf, n)) (add_zero pbuf).symm
  | cons l lines ih =>
    rw [writeLines]
    by_cases hroom : pbuf < defReqSize
    · rw [if_pos hroom, Traced.value_bind]
      have hvalue : (Traced.value (snprintf buf pbuf (headerLine l))).2 =
          pbuf + snprintfRes (headerLine l) := rfl
      have hall : (∀ j < (l :: lines).length, behind pbuf ((l :: lines).take j) < defReqSize) ↔
          ∀ j < lines.length, behind (pbuf + snprintfRes (headerLine l))
            (lines.take j) < defReqSize := by
        constructor
        · intro h j hj
          rw [← behind_cons, ← List.take_succ_cons]
          exact h (j + 1) (Nat.succ_lt_succ hj)
        · intro h j hj
          cases j with
          | zero => exact (add_zero pbuf).trans_lt hroom
          | succ j =>
            rw [List.take_succ_cons, behind_cons]
            exact h j (Nat.lt_of_succ_lt_succ hj)
      rw [hvalue, behind_cons, hall]
      exact ih _ _
    · rw [if_neg hroom]
      refine Or.inr ⟨rfl, fun h => hroom ?_⟩
      exact (add_zero pbuf).symm.trans_lt (h 0 (Nat.succ_pos _))

/-! ### What the array holds -/

/-- **The text goes on** in the array, as far as there is room. -/
theorem prefix_snprintf (h : inReqBuf t <+: buf.toList) (ht : t.length ≤ defReqSize) :
    inReqBuf (t ++ u) <+: (snprintf buf t.length u).value.1.toList := by
  have hmax : (defReqSize : ℤ) = 2048 := rfl
  have hsize : sizeT (defReqSize - (t.length : ℤ)) = defReqSize - t.length := by
    rw [sizeT]
    omega
  have hvalue : (snprintf buf t.length u).value.1.toList =
      blit buf.toList t.length (printed (defReqSize - t.length) u) := by
    rw [← hsize]
    exact toList_blitV _ _ _
  rw [hvalue]
  rcases ht.lt_or_eq with hlt | hfull
  · -- there is room for a byte and the NUL at least
    rw [inReqBuf, if_pos hlt] at h
    obtain ⟨rest, hrest⟩ := h
    have hlen : t.length + rest.length = defReqSize := by
      rw [← List.length_append, hrest, Vector.length_toList]
    have hroom : ¬ defReqSize - t.length = 0 := by omega
    rw [← hrest, printed, if_neg hroom, blit_append_right _ _ _ rfl, inReqBuf]
    have hfits (w : Text) (hw : w.length ≤ rest.length) : w <+: blit rest 0 w := by
      rw [← Nat.cast_zero, blit_of_le (by rwa [Nat.zero_add])]
      exact ⟨rest.drop (0 + w.length), rfl⟩
    split
    · rename_i hshort
      rw [List.length_append] at hshort
      rw [List.take_of_length_le (by omega)]
      refine (List.prefix_append_right_inj t).mpr ((List.prefix_append u [0]).trans (hfits _ ?_))
      rw [List.length_append, List.length_singleton]
      omega
    · rename_i hlong
      rw [List.length_append] at hlong
      have hcut : (t ++ u).take (defReqSize - 1) = t ++ u.take (defReqSize - t.length - 1) := by
        rw [List.take_append, List.take_of_length_le (by omega)]
        congr 2
        omega
      rw [hcut, List.append_assoc]
      refine (List.prefix_append_right_inj t).mpr (hfits _ ?_)
      rw [List.length_append, List.length_singleton, List.length_take]
      omega
  · -- there is none
    have hnone : printed (defReqSize - t.length) u = [] := by
      rw [hfull, Nat.sub_self]
      rfl
    have hsame : blit buf.toList t.length [] = buf.toList := by
      rw [blit_of_le (by rw [Vector.length_toList]; exact ht), List.append_nil]
      exact List.take_append_drop _ _
    have hcut : (t ++ u).take (defReqSize - 1) = t.take (defReqSize - 1) :=
      List.take_append_of_le_length (by omega)
    rw [inReqBuf, if_neg (Nat.not_lt.mpr hfull.ge)] at h
    rw [hnone, hsame, inReqBuf, hcut, if_neg]
    · exact h
    · rw [List.length_append]
      omega

/-- **The lines of a text that is an `int` long** are in the array, and the pointer is behind
them. -/
theorem value_writeLines_of_formatLines
    (hshort : ∀ l ∈ lines, (headerLine l).length < 2 ^ 31)
    (h : inReqBuf t <+: buf.toList) :
    (formatLines lines t = none →
        (writeLines lines buf t.length).value = none) ∧
      ∀ t', formatLines lines t = some t' →
        ∃ buf', (writeLines lines buf t.length).value = some (buf', (t'.length : ℤ)) ∧
          inReqBuf t' <+: buf'.toList := by
  induction lines generalizing buf t with
  | nil =>
    refine ⟨fun hnone => absurd hnone (Option.some_ne_none t), fun t' ht' => ?_⟩
    obtain rfl := Option.some.inj ht'
    exact ⟨buf, rfl, h⟩
  | cons l lines ih =>
    rw [formatLines, writeLines]
    by_cases hroom : t.length < defReqSize
    · have hptr : ((t ++ headerLine l).length : ℤ) =
          t.length + snprintfRes (headerLine l) := by
        rw [snprintfRes, if_pos (hshort l List.mem_cons_self), List.length_append]
        exact Nat.cast_add _ _
      rw [if_pos hroom, if_pos (Int.ofNat_lt.mpr hroom), Traced.value_bind]
      have hrest := ih (fun l' hl' => hshort l' (List.mem_cons_of_mem _ hl'))
        (@prefix_snprintf buf t (headerLine l) h hroom.le)
      rwa [hptr] at hrest
    · rw [if_neg hroom, if_neg fun hlt => hroom (Int.ofNat_lt.mp hlt)]
      exact ⟨fun _ => rfl, fun t' hsome => absurd hsome.symm (Option.some_ne_none t')⟩

/-- The pointer behind the request line. -/
theorem value_requestLine (h : req.requestLine.length < 2 ^ 31) :
    (Traced.value (snprintf buf 0 req.requestLine)).2 = req.requestLine.length := by
  have hres : snprintfRes req.requestLine = req.requestLine.length := if_pos h
  rw [← hres]
  exact zero_add _

/-- **The whole request**: what `writev` gets is as long as the text, and the array holds as much of
that as it can. -/
theorem value_writeRequest_of_some (hline : req.requestLine.length < 2 ^ 31)
    (hshort : ∀ l ∈ req.lines, (headerLine l).length < 2 ^ 31)
    (hlen : (lengthLine req.data).length < 2 ^ 31)
    (h : req.formatRequest = .ok (some t)) (hnet : net.Connected) :
    ∃ iov, (req.writeRequest net buf).value = some iov ∧ iov.len = t.length ∧
      inReqBuf t <+: iov.base.toList := by
  have hfirst : inReqBuf req.requestLine <+:
      (Traced.value (snprintf buf 0 req.requestLine)).1.toList :=
    @prefix_snprintf buf [] req.requestLine List.nil_prefix (Nat.zero_le _)
  obtain ⟨-, hsome⟩ := value_writeLines_of_formatLines hshort hfirst
  rw [formatRequest] at h
  rw [writeRequest, Traced.value_bind, Traced.value_bind, value_requestLine hline]
  cases hlines : formatLines req.lines req.requestLine with
  | none =>
    rw [hlines] at h
    cases h
  | some t' =>
    obtain ⟨buf', hvalue, hbuf⟩ := hsome t' hlines
    rw [hlines] at h
    change ite _ _ _ = _ at h
    split at h
    · rename_i hroom
      obtain rfl := Option.some.inj (Except.ok.inj h)
      have hsum : (t'.length : ℤ) + snprintfRes (lengthLine req.data) =
          (t' ++ lengthLine req.data).length := by
        rw [snprintfRes, if_pos hlen, List.length_append]
        exact (Nat.cast_add _ _).symm
      have hsize : sizeT ((t' ++ lengthLine req.data).length : ℤ) =
          (t' ++ lengthLine req.data).length := by
        have hmax : defReqSize = 2048 := rfl
        rw [sizeT, List.length_append]
        omega
      rw [hvalue]
      dsimp only
      rw [Traced.value_bind, if_pos hnet]
      refine ⟨_, rfl, ?_, prefix_snprintf hbuf hroom⟩
      exact (congrArg sizeT hsum).trans hsize
    · cases h

/-- A request that is given up is given up here, too. -/
theorem value_writeRequest_of_none (hline : req.requestLine.length < 2 ^ 31)
    (hshort : ∀ l ∈ req.lines, (headerLine l).length < 2 ^ 31)
    (h : req.formatRequest = .ok none) : (req.writeRequest net buf).value = none := by
  have hfirst : inReqBuf req.requestLine <+:
      (Traced.value (snprintf buf 0 req.requestLine)).1.toList :=
    @prefix_snprintf buf [] req.requestLine List.nil_prefix (Nat.zero_le _)
  obtain ⟨hnone, -⟩ := value_writeLines_of_formatLines hshort hfirst
  rw [formatRequest] at h
  rw [writeRequest, Traced.value_bind, Traced.value_bind, value_requestLine hline]
  cases hlines : formatLines req.lines req.requestLine with
  | none =>
    rw [hnone hlines]
    rfl
  | some t' =>
    rw [hlines] at h
    change ite _ _ _ = _ at h
    split at h
    · cases Except.ok.inj h
    · cases h

/-! ### The condition -/

theorem reported_eq_behind (req : HttpRequest) (k : ℕ) :
    req.reported k = behind (snprintfRes req.requestLine) (req.lines.take k) := rfl

theorem ne_nil_lengthLine (data : Text) : lengthLine data ≠ [] := by
  rw [lengthLine]
  split
  · exact List.cons_ne_nil _ _
  · exact List.append_ne_nil_of_right_ne_nil _ (List.cons_ne_nil _ _)

theorem suffix_wholeText (req : HttpRequest) : [10] <:+ req.wholeText := by
  refine List.IsSuffix.trans ?_ (List.suffix_append _ _)
  rw [lengthLine]
  split
  · decide
  · exact List.IsSuffix.trans (by decide) (List.suffix_append _ crlf)

/-- A request that is not longer than the array has short lines. -/
theorem formatRequest_of_le (h : req.wholeText.length ≤ defReqSize) :
    req.requestLine.length < 2 ^ 31 ∧
      (∀ l ∈ req.lines, (headerLine l).length < 2 ^ 31) ∧
      (lengthLine req.data).length < 2 ^ 31 ∧ req.formatRequest = .ok (some req.wholeText) := by
  have hmax : defReqSize = 2048 := rfl
  have hlen : req.wholeText.length = req.requestLine.length +
      (req.lines.flatMap headerLine).length + (lengthLine req.data).length := by
    rw [wholeText, List.length_append, List.length_append]
  have hlast := List.length_pos_of_ne_nil (ne_nil_lengthLine req.data)
  have hlines : (req.requestLine ++ req.lines.flatMap headerLine).length < defReqSize := by
    rw [List.length_append]
    omega
  refine ⟨by omega, fun l hl => ?_, by omega, ?_⟩
  · have hle := (List.sublist_flatten_of_mem (List.mem_map_of_mem (f := headerLine) hl)).length_le
    rw [← List.flatMap_def] at hle
    omega
  · rw [formatRequest, formatLines_of_lt hlines]
    exact if_pos hlines.le

/-- The last byte of the array is a NUL when the request does not fit. -/
theorem not_whole_of_eq {iov : Iov} (h : req.wholeText.length = defReqSize)
    (hbuf : inReqBuf req.wholeText <+: iov.base.toList) :
    iov.base.toList.take defReqSize ≠ req.wholeText := by
  intro hwhole
  have hin : inReqBuf req.wholeText = req.wholeText.take (defReqSize - 1) ++ [0] :=
    if_neg (Nat.not_lt.mpr h.ge)
  have hlen : (inReqBuf req.wholeText).length = defReqSize := by
    rw [hin, List.length_append, List.length_take, h]
    rfl
  have heq : inReqBuf req.wholeText = req.wholeText := by
    have htake := List.prefix_iff_eq_take.mp hbuf
    rw [hlen] at htake
    exact htake.trans hwhole
  obtain ⟨l, hl⟩ := suffix_wholeText req
  have hend : l ++ [10] = req.wholeText.take (defReqSize - 1) ++ [0] := by rw [hl, ← hin, heq]
  exact absurd (List.append_inj_right' hend rfl) (by decide)

/-- Where the pointer may be behind the header lines. -/
theorem reported_bounds (hroom : ∀ j < req.lines.length, req.reported j < defReqSize)
    (hpos : ∀ k < req.lines.length, (∀ j ≤ k, req.reported j < defReqSize) → 0 ≤ req.reported k) :
    -1 ≤ req.reported req.lines.length ∧ req.reported req.lines.length < 2 ^ 32 := by
  have hmax : (defReqSize : ℤ) = 2048 := rfl
  have hline := le_snprintfRes req.requestLine
  cases hn : req.lines.length with
  | zero =>
    have hzero : req.reported 0 = snprintfRes req.requestLine := add_zero _
    omega
  | succ n =>
    have hn' : n < req.lines.length := by omega
    have hlast : req.reported (n + 1) =
        req.reported n + snprintfRes (headerLine (req.lines[n])) := by
      rw [reported, reported, List.take_succ_eq_append_getElem hn', List.map_append,
        List.sum_append, ← Int.add_assoc, List.map_singleton, List.sum_singleton]
    have hres := le_snprintfRes (headerLine (req.lines[n]))
    have hlow := hpos n hn' fun j hj => hroom j (by omega)
    have hhigh := hroom n hn'
    omega

/-- **A run**, with the loop that gets to the end or does not. -/
theorem writeRequest_cases (net : Net) (req : HttpRequest) (buf : Vector UInt8 defReqSize) :
    (∀ j < req.lines.length, req.reported j < defReqSize) ∧
        ((∃ iov, (req.writeRequest net buf).value = some iov) ↔ net.Connected) ∧
        (∃ buf', (∀ a ∈ (req.writeRequest net buf).log, a.Inside fun _ => defReqSize) ↔
          (∀ k < req.lines.length, (∀ j ≤ k, req.reported j < defReqSize) → 0 ≤ req.reported k) ∧
            ∀ a ∈ (snprintf buf' (req.reported req.lines.length) (lengthLine req.data)).log,
              a.Inside fun _ => defReqSize) ∨
      (¬ ∀ j < req.lines.length, req.reported j < defReqSize) ∧
        (req.writeRequest net buf).value = none ∧
        ((∀ a ∈ (req.writeRequest net buf).log, a.Inside fun _ => defReqSize) ↔
          ∀ k < req.lines.length, (∀ j ≤ k, req.reported j < defReqSize) → 0 ≤ req.reported k) := by
  have hfirst : ∀ a ∈ (snprintf buf 0 req.requestLine).log, a.Inside fun _ => defReqSize :=
    (inside_snprintf_iff (by decide) (by decide)).mpr ⟨le_rfl, by decide⟩
  have hptr : (Traced.value (snprintf buf 0 req.requestLine)).2 =
      snprintfRes req.requestLine := zero_add _
  have hlines := @inside_writeLines_iff (Traced.value (snprintf buf 0 req.requestLine)).1
    (snprintfRes req.requestLine) req.lines (le_snprintfRes _).1
  rcases value_writeLines req.lines (Traced.value (snprintf buf 0 req.requestLine)).1
    (snprintfRes req.requestLine) with ⟨⟨buf', hvalue⟩, hroom⟩ | ⟨hvalue, hfull⟩
  · have hn : behind (snprintfRes req.requestLine) req.lines = req.reported req.lines.length := by
      rw [reported_eq_behind, List.take_length]
    rw [hn] at hvalue
    refine Or.inl ⟨hroom, ?_, buf', ?_⟩
    · rw [writeRequest, Traced.value_bind, Traced.value_bind, hptr, hvalue]
      dsimp only
      rw [Traced.value_bind]
      split
      · rename_i hnet
        exact iff_of_true ⟨_, rfl⟩ hnet
      · rename_i hnet
        exact iff_of_false (fun h => nomatch h) hnet
    · rw [writeRequest, Traced.forall_log_bind, and_iff_right hfirst, Traced.forall_log_bind, hptr,
        hvalue, hlines]
      dsimp only
      rw [Traced.forall_log_bind]
      refine and_congr_right fun _ => and_iff_left ?_
      split
      · exact Traced.forall_log_pure _
      · exact Traced.forall_log_pure _
  · refine Or.inr ⟨hfull, ?_, ?_⟩
    · rw [writeRequest, Traced.value_bind, Traced.value_bind, hptr, hvalue]
      rfl
    · rw [writeRequest, Traced.forall_log_bind, and_iff_right hfirst, Traced.forall_log_bind, hptr,
        hvalue, and_iff_left (Traced.forall_log_pure _), hlines]
      rfl

theorem Formattable.sendsWhole (h : Formattable net req) (buf : Vector UInt8 defReqSize) :
    SendsWhole req (req.writeRequest net buf) := by
  rcases writeRequest_cases net req buf with ⟨hroom, hsent, buf', hlog⟩ | ⟨-, hnone, hlog⟩
  · obtain ⟨hleft, hright, hfits⟩ := h.last hroom
    obtain ⟨hlow, hhigh⟩ := reported_bounds hroom h.lines
    refine ⟨hlog.mpr ⟨h.lines, (inside_snprintf_iff hlow hhigh).mpr ⟨hleft, hright⟩⟩, ?_⟩
    intro iov hiov
    have hnet := hsent.mp ⟨iov, hiov⟩
    obtain ⟨hline, hshort, hlast, hformat⟩ := formatRequest_of_le (hfits hnet).le
    obtain ⟨iov', hiov', hlen, hbuf⟩ :=
      @value_writeRequest_of_some net req buf req.wholeText hline hshort hlast hformat hnet
    obtain rfl := Option.some.inj (hiov.symm.trans hiov')
    rw [inReqBuf, if_pos (hfits hnet)] at hbuf
    rw [hlen]
    exact ⟨rfl, (List.prefix_iff_eq_take.mp hbuf).symm⟩
  · refine ⟨hlog.mpr h.lines, fun iov hiov => ?_⟩
    rw [hnone] at hiov
    cases hiov

theorem SendsWhole.formattable (h : SendsWhole req (req.writeRequest net buf)) :
    Formattable net req := by
  rcases writeRequest_cases net req buf with ⟨hroom, hsent, buf', hlog⟩ | ⟨hfull, -, hlog⟩
  · obtain ⟨hpos, hcall⟩ := hlog.mp h.inside
    obtain ⟨hlow, hhigh⟩ := reported_bounds hroom hpos
    obtain ⟨hleft, hright⟩ := (inside_snprintf_iff hlow hhigh).mp hcall
    refine ⟨hpos, fun _ => ⟨hleft, hright, fun hnet => ?_⟩⟩
    obtain ⟨iov, hiov⟩ := hsent.mpr hnet
    obtain ⟨hlen, hwhole⟩ := h.whole iov hiov
    have hle : req.wholeText.length ≤ defReqSize := by
      rw [← hwhole, List.length_take, Vector.length_toList]
      exact Nat.min_le_right _ _
    -- with as many bytes as the array has, the last one would be a NUL
    refine lt_of_le_of_ne hle fun heq => ?_
    obtain ⟨hline, hshort, hlast, hformat⟩ := formatRequest_of_le hle
    obtain ⟨iov', hiov', -, hbuf⟩ :=
      @value_writeRequest_of_some net req buf req.wholeText hline hshort hlast hformat hnet
    obtain rfl := Option.some.inj (hiov.symm.trans hiov')
    rw [hlen, heq] at hwhole
    exact not_whole_of_eq heq hbuf hwhole
  · exact ⟨hlog.mp h.inside, fun hroom => absurd hroom hfull⟩

/-- **A request is formatted inside the array, and sent whole or not at all,** when there is room
for the line on the data and, if there is a connection, for that line itself: the length is not
looked at again behind the last header line. -/
theorem sendsWhole_iff (net : Net) (req : HttpRequest) (buf : Vector UInt8 defReqSize) :
    SendsWhole req (req.writeRequest net buf) ↔ Formattable net req :=
  ⟨fun h => h.formattable, fun h => h.sendsWhole buf⟩

/-- A path that fills the array. -/
def longUrl : Text := List.replicate defReqSize 97

/-- Without header lines nothing looks at the length of the path. -/
theorem not_sendsWhole_longUrl :
    ¬ SendsWhole (xiaocilangBorn (lit "GET") longUrl)
      ((xiaocilangBorn (lit "GET") longUrl).writeRequest (.answering fun _ => [])
        (Vector.replicate defReqSize 0)) := by
  intro h
  have hlen : (xiaocilangBorn (lit "GET") longUrl).requestLine.length = 2063 := by
    have hurl : longUrl.length = 2048 := List.length_replicate
    have hmethod : (lit "GET").length = 3 := by decide
    have hversion : (lit "HTTP/1.0").length = 8 := by decide
    simp only [requestLine, xiaocilangBorn, List.length_append, List.length_cons, List.length_nil,
      hurl, hmethod, hversion]
  have hreported : (xiaocilangBorn (lit "GET") longUrl).reported 0 = 2063 := by
    rw [reported_eq_behind, snprintfRes, hlen]
    rfl
  have hle := (h.formattable.last fun j hj => absurd hj (Nat.not_lt_zero j)).2.1
  exact absurd (hreported.symm.trans_le hle) (by decide)

end Inside

end Ltm

end Tqos
