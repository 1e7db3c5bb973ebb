import Mathlib.Data.List.TakeWhile
import Tqos.Lib.Traced
import Tqos.Tserver.Diag

/-!
# What a command prints

`sys_popen` reads what a command prints with `fgets`, 1023 characters or a line at a time, and
appends each piece to the array of its caller with `strcat`. The size of the array is only used to
clear it. At last the character before the NUL is overwritten, whether it is the end of a line or
not, and whether there is one or not.

The array is modelled as it lies in memory. A write outside of it ends in `Crash.overflow`.

## Main results

* `sysPopen_some` — the function, by the text that the pieces have in front of their NULs
* `cutsOutput_iff` — when the array ends up with the output, cut to its size
* `sysPopen_eq` — an output that fits, as requests and timers see it
-/

namespace Tqos

namespace Popen

/-! ## Reading in pieces -/

/-- What one call of `fgets` after another reads into an array of `size` characters, when `cur` has
been read so far: a piece ends with its line, or when there is only room for the NUL. -/
def fgetsFrom (size : ℕ) : List Char → List Char → List (List Char)
  | cur, [] => if cur = [] then [] else [cur]
  | cur, c :: out =>
    if c = '\n' ∨ size ≤ cur.length + 2 then (cur ++ [c]) :: fgetsFrom size [] out
    else fgetsFrom size (cur ++ [c]) out

/-- The pieces of an output. -/
def pieces (out : List Char) : List (List Char) := fgetsFrom sizeBase [] out

/-- What `strcat` sees of them. -/
def text (out : List Char) : List Char := (pieces out).flatMap cstr

/-! ## The array -/

/-- `strlen`. -/
def strlen (result : List Char) : ℕ := (cstr result).length

/-- `strcat`. -/
def strcat (result tmp : List Char) : Except Crash (List Char) :=
  if strlen result + (cstr tmp).length < result.length then
    .ok (blit result (strlen result) (cstr tmp ++ ['\x00']))
  else .error .overflow

/-- `result[strlen(result)-1] = '\0'`. -/
def chop (result : List Char) : Except Crash (List Char) :=
  if strlen result = 0 then .error .overflow
  else .ok (blit result (strlen result - 1 : ℕ) ['\x00'])

/-- `sys_popen`: `out` is what the command prints, if it can be run. -/
def sysPopen (out : Option (List Char)) (mLen : ℕ) : Except Crash (List Char) :=
  let result := List.replicate mLen '\x00'
  match out with
  | some out => do
    let result ← (pieces out).foldlM strcat result
    chop result
  | none => if 0 < mLen then .ok (blit result 0 ['\x00']) else .error .overflow

/-! ## What the pieces are -/

section Pieces

variable {size : ℕ} {cur out rest : List Char}

theorem cstr_eq_self (h : '\x00' ∉ out) : cstr out = out := by
  refine List.takeWhile_eq_self_iff.mpr fun c hc => ?_
  rw [decide_eq_true_eq]
  rintro rfl
  exact h hc

theorem notMem_cstr (out : List Char) : '\x00' ∉ cstr out := by
  intro h
  have hne := List.mem_takeWhile_imp h
  simp at hne

theorem notMem_text (out : List Char) : '\x00' ∉ text out := by
  intro h
  obtain ⟨t, -, ht⟩ := List.mem_flatMap.mp h
  exact notMem_cstr t ht

/-- What stands behind a string does not make it shorter. -/
theorem cstr_prefix_append (l rest : List Char) : cstr l <+: cstr (l ++ rest) := by
  rw [cstr, cstr, List.takeWhile_append]
  split
  · rename_i hall
    rw [(List.takeWhile_prefix _).eq_of_length hall]
    exact List.prefix_append _ _
  · exact List.prefix_rfl

/-- A string with a NUL behind it. -/
theorem cstr_append_nul (h : '\x00' ∉ out) (rest : List Char) :
    cstr (out ++ '\x00' :: rest) = out := by
  rw [cstr, List.takeWhile_append_of_pos, List.takeWhile_cons_of_neg (by decide), List.append_nil]
  intro a ha
  rw [decide_eq_true_eq]
  rintro rfl
  exact h ha

/-- Nothing but the output is read. -/
theorem flatten_fgetsFrom (size : ℕ) (cur out : List Char) :
    (fgetsFrom size cur out).flatten = cur ++ out := by
  induction out generalizing cur with
  | nil =>
    rw [fgetsFrom]
    split
    · rename_i hcur
      rw [hcur]
      rfl
    · simp
  | cons c out ih =>
    rw [fgetsFrom]
    split
    · rw [List.flatten_cons, ih, List.nil_append, List.append_assoc]
      rfl
    · rw [ih, List.append_assoc]
      rfl

/-- No piece is empty. -/
theorem ne_nil_of_mem_fgetsFrom {t : List Char} (h : t ∈ fgetsFrom size cur out) : t ≠ [] := by
  induction out generalizing cur with
  | nil =>
    rw [fgetsFrom] at h
    split at h
    · exact absurd h List.not_mem_nil
    · rename_i hcur
      obtain rfl := List.mem_singleton.mp h
      exact hcur
  | cons c out ih =>
    rw [fgetsFrom] at h
    split at h
    · rcases List.mem_cons.mp h with rfl | h
      · exact List.append_ne_nil_of_right_ne_nil _ (List.cons_ne_nil c [])
      · exact ih h
    · exact ih h

/-- **A piece ends with its line**: behind the end of a line reading starts anew. -/
theorem fgetsFrom_append (hlast : out.getLast? = some '\n') (rest : List Char) :
    fgetsFrom size cur (out ++ rest) = fgetsFrom size cur out ++ fgetsFrom size [] rest := by
  induction out generalizing cur with
  | nil => cases hlast
  | cons c out ih =>
    rw [List.cons_append, fgetsFrom, fgetsFrom]
    cases out with
    | nil =>
      obtain rfl : c = '\n' := Option.some.inj hlast
      rw [if_pos (Or.inl rfl), if_pos (Or.inl rfl), fgetsFrom, if_pos rfl]
      rfl
    | cons c' out =>
      rw [List.getLast?_cons_cons] at hlast
      split
      · rw [ih hlast]
        rfl
      · rw [ih hlast]

/-- What has been read up to its first NUL is appended. -/
theorem cstr_prefix_flatMap (size : ℕ) (cur out : List Char) :
    cstr cur <+: (fgetsFrom size cur out).flatMap cstr := by
  induction out generalizing cur with
  | nil =>
    rw [fgetsFrom]
    split
    · rename_i hcur
      rw [hcur]
      exact List.nil_prefix
    · exact ⟨[], (List.append_nil _).trans (List.flatMap_singleton cstr cur).symm⟩
  | cons c out ih =>
    rw [fgetsFrom]
    split
    · rw [List.flatMap_cons]
      exact (cstr_prefix_append cur [c]).trans (List.prefix_append _ _)
    · exact (cstr_prefix_append cur [c]).trans (ih (cur ++ [c]))

/-- **What is in front of the first NUL is appended.** -/
theorem prefix_flatMap (hcur : '\x00' ∉ cur) (hout : '\x00' ∉ out) (rest : List Char) :
    cur ++ out <+: (fgetsFrom size cur (out ++ rest)).flatMap cstr := by
  induction out generalizing cur with
  | nil =>
    have h := cstr_prefix_flatMap size cur rest
    rw [cstr_eq_self hcur] at h
    rwa [List.append_nil, List.nil_append]
  | cons c out ih =>
    obtain ⟨hc, hout⟩ := not_or.mp (mt List.mem_cons.mpr hout)
    have hgrow : '\x00' ∉ cur ++ [c] := by
      rw [List.mem_append, List.mem_singleton]
      exact not_or.mpr ⟨hcur, hc⟩
    have hsplit : cur ++ c :: out = (cur ++ [c]) ++ out := by simp
    rw [List.cons_append, fgetsFrom, hsplit]
    split
    · rw [List.flatMap_cons, cstr_eq_self hgrow]
      exact (List.prefix_append_right_inj _).mpr (ih List.not_mem_nil hout)
    · exact ih hgrow hout

/-- The text begins with what is in front of the first NUL of the output. -/
theorem prefix_text (hout : '\x00' ∉ out) (rest : List Char) : out <+: text (out ++ rest) :=
  prefix_flatMap List.not_mem_nil hout rest

/-- **An output without NULs** is the text. -/
theorem text_of_notMem (hout : '\x00' ∉ out) : text out = out := by
  have hall : (pieces out).map cstr = pieces out := by
    refine (List.map_congr_left fun t ht => cstr_eq_self fun hnul => hout ?_).trans (List.map_id _)
    have hmem := List.mem_flatten.mpr ⟨t, ht, hnul⟩
    rwa [pieces, flatten_fgetsFrom, List.nil_append] at hmem
  rw [text, List.flatMap_def, hall, pieces, flatten_fgetsFrom, List.nil_append]

/-- Behind the end of a line the text goes on with that of the rest. -/
theorem text_append (hlast : out.getLast? = some '\n') (rest : List Char) :
    text (out ++ rest) = text out ++ text rest := by
  rw [text, pieces, fgetsFrom_append hlast, List.flatMap_append]
  rfl

/-- Nothing is appended if every piece begins with a NUL. -/
theorem text_eq_nil_iff : text out = [] ↔ ∀ t ∈ pieces out, t.head? = some '\x00' := by
  rw [text, List.flatMap_eq_nil_iff]
  refine forall₂_congr fun t ht => ?_
  obtain ⟨c, l, rfl⟩ := List.exists_cons_of_ne_nil (ne_nil_of_mem_fgetsFrom ht)
  rw [cstr, List.head?_cons, Option.some_inj]
  by_cases hc : c = '\x00'
  · simp [hc]
  · simp [hc]

end Pieces

/-! ## What the array holds -/

/-- A text in an array that was cleared. -/
def padded (n : ℕ) (t : List Char) : List Char := t ++ List.replicate (n - t.length) '\x00'

section Array

variable {n : ℕ} {t s out : List Char}

theorem length_padded (h : t.length ≤ n) : (padded n t).length = n := by
  rw [padded, List.length_append, List.length_replicate]
  omega

/-- Behind the text there is a NUL. -/
theorem padded_eq (h : t.length < n) :
    padded n t = t ++ '\x00' :: List.replicate (n - t.length - 1) '\x00' := by
  obtain ⟨k, hk⟩ : ∃ k, n - t.length = k + 1 := ⟨n - t.length - 1, by omega⟩
  rw [padded, hk, List.replicate_succ, Nat.add_sub_cancel]

theorem cstr_padded (ht : '\x00' ∉ t) (h : t.length < n) : cstr (padded n t) = t := by
  rw [padded_eq h, cstr_append_nul ht]

/-- A string with its NUL, written behind part of the text. -/
theorem blit_padded (pre : List Char) (h : t.length ≤ n) (hpre : pre <+: t)
    (hs : pre.length + s.length < n) (hlong : t.length ≤ pre.length + s.length + 1) :
    blit (padded n t) pre.length (s ++ ['\x00']) = padded n (pre ++ s) := by
  have hlen : (s ++ ['\x00']).length = s.length + 1 := List.length_append
  have hpad : pre <+: padded n t := hpre.trans (List.prefix_append _ _)
  have hdrop : (padded n t).drop (pre.length + (s.length + 1)) =
      List.replicate (n - (pre.length + s.length) - 1) '\x00' := by
    rw [padded, List.drop_append, List.drop_eq_nil_of_le (by omega), List.nil_append,
      List.drop_replicate]
    congr 1
    omega
  have hfit : pre.length + (s ++ ['\x00']).length ≤ (padded n t).length := by
    rw [length_padded h, hlen]
    exact hs
  have hsum : (pre ++ s).length < n := by rwa [List.length_append]
  rw [blit_of_le hfit, hlen, ← List.prefix_iff_eq_take.mp hpad, hdrop, padded_eq hsum,
    List.length_append]
  simp only [List.append_assoc, List.cons_append, List.nil_append]

/-- **Appending a piece.** -/
theorem strcat_padded (ht : '\x00' ∉ t) (h : t.length < n) (s : List Char) :
    strcat (padded n t) s = if (t ++ cstr s).length < n then .ok (padded n (t ++ cstr s))
      else .error .overflow := by
  rw [strcat, strlen, cstr_padded ht h, length_padded h.le, List.length_append]
  split
  · rename_i hs
    rw [blit_padded t h.le List.prefix_rfl hs (by omega)]
  · rfl

/-- **Appending all of them.** -/
theorem foldlM_strcat (ht : '\x00' ∉ t) (h : t.length < n) (ps : List (List Char)) :
    ps.foldlM strcat (padded n t) =
      if (t ++ ps.flatMap cstr).length < n then .ok (padded n (t ++ ps.flatMap cstr))
      else .error .overflow := by
  induction ps generalizing t with
  | nil =>
    rw [List.flatMap_nil, List.append_nil, if_pos h]
    rfl
  | cons p ps ih =>
    rw [List.foldlM_cons, strcat_padded ht h, List.flatMap_cons, ← List.append_assoc]
    by_cases hp : (t ++ cstr p).length < n
    · rw [if_pos hp]
      refine ih ?_ hp
      rw [List.mem_append]
      exact not_or.mpr ⟨ht, notMem_cstr p⟩
    · rw [if_neg hp, if_neg]
      · rfl
      · rw [List.length_append]
        omega

/-- **Cutting off the last character**, if there is one. -/
theorem chop_padded (ht : '\x00' ∉ t) (h : t.length < n) :
    chop (padded n t) = if t = [] then .error .overflow else .ok (padded n t.dropLast) := by
  rw [chop, strlen, cstr_padded ht h]
  by_cases hnil : t = []
  · rw [if_pos hnil, hnil]
    rfl
  · have hpos := List.length_pos_of_ne_nil hnil
    have hlen : t.dropLast.length = t.length - 1 := List.length_dropLast
    have hblit := @blit_padded n t [] t.dropLast h.le (List.dropLast_prefix t)
      (by rw [List.length_nil]; omega) (by rw [List.length_nil]; omega)
    rw [if_neg hpos.ne', if_neg hnil, ← hlen]
    rwa [List.nil_append, List.append_nil, ← Except.ok.injEq] at hblit

/-- **What `sys_popen` does**: the text goes into the array without its last character, if it has
one and fits. -/
theorem sysPopen_some (out : List Char) (n : ℕ) : sysPopen (some out) n =
    if text out ≠ [] ∧ (text out).length < n then .ok (padded n (text out).dropLast)
    else .error .overflow := by
  have hclear : List.replicate n '\x00' = padded n [] := rfl
  rw [sysPopen]
  rcases Nat.eq_zero_or_pos n with rfl | hn
  · rw [if_neg fun h => Nat.not_lt_zero _ h.2]
    cases pieces out with
    | nil => rfl
    | cons p ps => rfl
  · rw [hclear, foldlM_strcat List.not_mem_nil hn, List.nil_append, ← text]
    by_cases hfits : (text out).length < n
    · rw [if_pos hfits]
      refine (chop_padded (notMem_text out) hfits).trans ?_
      by_cases hnil : text out = []
      · rw [if_pos hnil, if_neg fun h => h.1 hnil]
      · rw [if_neg hnil, if_pos ⟨hnil, hfits⟩]
    · rw [if_neg hfits, if_neg fun h => hfits h.2]
      rfl

end Array

/-! ## The output, cut to the array -/

/-- A text without the end of a line behind it. -/
def chomp (l : List Char) : List Char := if l.getLast? = some '\n' then l.dropLast else l

/-- What is asked of `sys_popen`: it writes into the array only, and what it leaves there is the
output, as much of it as there is room for, without the end of its last line. A command that cannot
be run prints nothing. -/
def CutsOutput (out : Option (List Char)) (mLen : ℕ) : Prop :=
  ∃ result, sysPopen out mLen = .ok result ∧
    cstr result = chomp ((out.getD []).take (mLen - 1))

/-- What there is room for ends with a line and has no NUL in it, and every piece of the rest, if
there is one, begins with a NUL. -/
def EndsWithLine (out : List Char) (mLen : ℕ) : Prop :=
  (out.take (mLen - 1)).getLast? = some '\n' ∧ '\x00' ∉ out.take (mLen - 1) ∧
    ∀ t ∈ pieces (out.drop (mLen - 1)), t.head? = some '\x00'

section Cut

variable {out : List Char} {n : ℕ}

theorem dropLast_ne_self {l : List Char} (h : l ≠ []) : l.dropLast ≠ l := by
  intro heq
  have hlen := congrArg List.length heq
  rw [List.length_dropLast] at hlen
  have hpos := List.length_pos_of_ne_nil h
  omega

theorem notMem_of_chomp {l : List Char} (h : '\x00' ∉ chomp l) : '\x00' ∉ l := by
  rw [chomp] at h
  split at h
  · rename_i hlast
    rw [← List.dropLast_append_getLast? _ hlast, List.mem_append, List.mem_singleton]
    exact not_or.mpr ⟨h, by decide⟩
  · exact h

/-- The text is the output that there is room for, exactly if there is nothing else. -/
theorem text_eq_take_iff (hnul : '\x00' ∉ out.take (n - 1))
    (hlast : (out.take (n - 1)).getLast? = some '\n') :
    text out = out.take (n - 1) ↔ ∀ t ∈ pieces (out.drop (n - 1)), t.head? = some '\x00' := by
  have hsplit : text out = out.take (n - 1) ++ text (out.drop (n - 1)) := by
    conv_lhs => rw [← List.take_append_drop (n - 1) out]
    rw [text_append hlast, text_of_notMem hnul]
  rw [hsplit, List.append_right_eq_self, text_eq_nil_iff]

theorem cutsOutput_some_iff : CutsOutput (some out) n ↔ EndsWithLine out n := by
  set c := out.take (n - 1) with hc
  constructor
  · rintro ⟨result, hres, hcut⟩
    rw [sysPopen_some] at hres
    split at hres
    · rename_i hfits
      obtain ⟨hne, hlt⟩ := hfits
      obtain rfl := Except.ok.inj hres
      have hlen : (text out).dropLast.length < n := by
        rw [List.length_dropLast]
        omega
      have hnul : '\x00' ∉ (text out).dropLast := fun h =>
        notMem_text out ((List.dropLast_sublist _).subset h)
      rw [cstr_padded hnul hlen, Option.getD_some, ← hc] at hcut
      rw [hcut] at hnul
      have hcnul := notMem_of_chomp hnul
      -- the text begins with what there is room for, and is no longer
      have hbegins : c <+: text out := by
        have h := prefix_text hcnul (out.drop (n - 1))
        rwa [hc, List.take_append_drop] at h
      have htext : text out = c := by
        rcases Nat.lt_or_ge (n - 1) out.length with hlong | hshort
        · refine (hbegins.eq_of_length_le ?_).symm
          rw [hc, List.length_take, Nat.min_eq_left hlong.le]
          omega
        · rw [hc, List.take_of_length_le hshort] at hcnul ⊢
          exact text_of_notMem hcnul
      rw [htext] at hcut hne
      have hlast : c.getLast? = some '\n' := by
        by_contra hno
        rw [chomp, if_neg hno] at hcut
        exact dropLast_ne_self hne hcut
      exact ⟨hlast, hcnul, (text_eq_take_iff hcnul hlast).mp htext⟩
    · cases hres
  · rintro ⟨hlast, hnul, hrest⟩
    have htext := (text_eq_take_iff hnul hlast).mpr hrest
    have hne : c ≠ [] := by
      intro h
      rw [← hc, h] at hlast
      cases hlast
    have hlen : c.length < n := by
      have hpos := List.length_pos_of_ne_nil hne
      have hle := List.length_take_le (n - 1) out
      rw [← hc] at hle
      omega
    refine ⟨padded n c.dropLast, ?_, ?_⟩
    · rw [sysPopen_some, htext, if_pos ⟨hne, hlen⟩]
    · have hshort : c.dropLast.length < n := by
        rw [List.length_dropLast]
        omega
      rw [cstr_padded (fun h => hnul ((List.dropLast_sublist _).subset h)) hshort,
        Option.getD_some, chomp, if_pos hlast]

/-- **When the array ends up with the output**: exactly if the command cannot be run, or what there
is room for ends with a line and nothing of the rest is appended. -/
theorem cutsOutput_iff (out : Option (List Char)) (mLen : ℕ) (h : 1 ≤ mLen) :
    CutsOutput out mLen ↔ ∀ o, out = some o → EndsWithLine o mLen := by
  cases out with
  | none =>
    have hblit := @blit_padded mLen [] [] [] (Nat.zero_le _) List.prefix_rfl h (Nat.zero_le _)
    refine iff_of_true ⟨padded mLen [], (if_pos h).trans (congrArg Except.ok hblit), ?_⟩ nofun
    rw [cstr_padded List.not_mem_nil h, Option.getD_none, List.take_nil]
    rfl
  | some o =>
    rw [cutsOutput_some_iff]
    constructor
    · rintro ho o' heq
      obtain rfl := Option.some.inj heq
      exact ho
    · intro hall
      exact hall o rfl

end Cut

/-- Three hosts are counted. -/
theorem cutsOutput_three : CutsOutput (some ['3', '\n']) 10 := by
  refine (cutsOutput_iff _ 10 (by decide)).mpr fun o ho => ?_
  obtain rfl := Option.some.inj ho
  exact ⟨by decide, by decide, by decide⟩

/-- The ten characters for the count of the hosts, and a table without hosts, of which `sed` prints
nothing: the character in front of the array is overwritten. -/
theorem not_cutsOutput_empty : ¬ CutsOutput (some []) 10 := by
  rintro ⟨result, hres, -⟩
  cases hres

/-- **An output that fits**, as the requests and the timer are described by it. -/
theorem sysPopen_eq {out : List Char} {mLen : ℕ} (hne : out ≠ []) (hnul : '\x00' ∉ out) :
    (sysPopen (some out) mLen).map cstr = Tqos.sysPopen out mLen := by
  rw [sysPopen_some, text_of_notMem hnul, Tqos.sysPopen, strcpy]
  by_cases hlen : out.length < mLen
  · have hshort : out.dropLast.length < mLen := by
      rw [List.length_dropLast]
      omega
    have hnul' : '\x00' ∉ out.dropLast := fun h => hnul ((List.dropLast_sublist _).subset h)
    rw [if_pos ⟨hne, hlen⟩, if_pos hlen]
    exact congrArg Except.ok (cstr_padded hnul' hshort)
  · rw [if_neg fun h => hlen h.2, if_neg hlen]
    rfl

end Popen

end Tqos
