import Tqos.Tserver.Diag

/-!
# The token table

`acquire_trac_data` keeps the tokens of a text in a table `p[20][50]` on the stack, which is not
set beforehand. The first loop stores a token behind the other and the NULL that ends a line, or the
text. The second loop makes an object of each line and takes every line to be as long as the last
one that is not blank.

Here the two loops run on the table itself: a store or a load at other indices is an error, and so
is using an entry that was not set, or one that is NULL. `acquireTable_eq` says that `tracHosts`,
which knows no table, is the same function.

## Main results

* `splitText_eq` — the table after the first loop
* `acquireTable_eq` — what both loops make of a text
* `acquireTable_iff` — the texts of which they make what they should
-/

namespace Tqos

/-! ## The loops -/

/-- An entry of the table. -/
inductive TokenEntry
  | unset
  | null
  | token (t : List Char)
deriving DecidableEq, Repr

/-- `char *p[20][50]`. -/
abbrev TokenTable : Type := ℕ → ℕ → TokenEntry

namespace TokenTable

/-- No entry is set. -/
def empty : TokenTable := fun _ _ => .unset

/-- `p[i][j] = e`. -/
def store (p : TokenTable) (i j : ℕ) (e : TokenEntry) : Except Crash TokenTable :=
  if i < 20 ∧ j < 50 then .ok fun i' j' => if i' = i ∧ j' = j then e else p i' j'
  else .error .overflow

/-- `p[i][j]` as a string. -/
def load (p : TokenTable) (i j : ℕ) : Except Crash (List Char) :=
  if i < 20 ∧ j < 50 then
    match p i j with
    | .unset => .error .uninit
    | .null => .error .segv
    | .token t => .ok t
  else .error .overflow

/-- The inner loop: the tokens of a line from column `j` on, and `jn` with them. -/
def splitLine (i : ℕ) : List (List Char) → ℕ → ℕ → TokenTable → Except Crash (TokenTable × ℕ)
  | [], j, jn, p => do
    let p ← p.store i j .null
    pure (p, jn)
  | t :: ts, j, _, p => do
    let p ← p.store i j (.token t)
    splitLine i ts (j + 1) (j + 1) p

/-- The outer loop: the lines from row `i` on. It gives the table, `in` and `jn`. -/
def splitText : List (List Char) → ℕ → ℕ → TokenTable → Except Crash (TokenTable × ℕ × ℕ)
  | [], i, jn, p => do
    let p ← p.store i 0 .null
    pure (p, i, jn)
  | line :: lines, i, jn, p => do
    let p ← p.store i 0 (.token line)
    let r ← splitLine i (strtok ' ' line) 0 jn p
    splitText lines (i + 1) r.2 r.1

/-- What the second loop adds to the object of row `i` for column `j`. -/
def hostColumn (p : TokenTable) (i j : ℕ) : Except Crash (List (String × Json)) :=
  if j = 19 then (p.load i j).map fun t => [("down", .int (mebi t))]
  else if j = 5 then (p.load i j).map fun t => [("up", .int (mebi t))]
  else if j = 2 then (p.load i j).map fun t => [("ip", .string t)]
  else .ok []

/-- The fields of the object of row `i` for the columns below `jn`. -/
def hostColumns (p : TokenTable) (i : ℕ) : ℕ → Except Crash (List (String × Json))
  | 0 => .ok []
  | jn + 1 => do
    let fields ← hostColumns p i jn
    let field ← hostColumn p i jn
    pure (fields ++ field)

/-- The second loop. -/
def hosts (p : TokenTable) (jn : ℕ) (rows : List ℕ) : Except Crash (List Json) :=
  rows.mapM fun i => (p.hostColumns i jn).map Json.obj

end TokenTable

/-- The array `acquire_trac_data` makes of a text, with the table. -/
def acquireTable (text : List Char) : Except Crash (List Json) := do
  let r ← TokenTable.splitText (strtok '\n' text) 0 0 .empty
  r.1.hosts r.2.2 (List.range r.2.1)

/-! ## The table after the first loop -/

namespace TokenTable

/-- The entries of a row that holds the given tokens. -/
def rowEntry (toks : List (List Char)) (j : ℕ) : TokenEntry :=
  match toks[j]? with
  | some t => .token t
  | none => if j = toks.length then .null else .unset

/-- The table that holds the tokens of some lines. -/
def ofLines (lines : List (List (List Char))) : TokenTable := fun i j =>
  match lines[i]? with
  | some toks => rowEntry toks j
  | none => .unset

/-- `jn` after some lines. -/
def widthAfter (jn : ℕ) (lines : List (List (List Char))) : ℕ :=
  lines.foldl (fun jn toks => if toks = [] then jn else toks.length) jn

variable {p p' : TokenTable} {i j jn : ℕ} {e : TokenEntry} {t : List Char} {ts : List (List Char)}

theorem store_of_lt (hi : i < 20) (hj : j < 50) :
    p.store i j e = .ok fun i' j' => if i' = i ∧ j' = j then e else p i' j' := if_pos ⟨hi, hj⟩

theorem store_of_not (h : ¬ (i < 20 ∧ j < 50)) : p.store i j e = .error .overflow := if_neg h

/-- The inner loop changes its own row from column `j` on. -/
def putLine (p : TokenTable) (i j : ℕ) (ts : List (List Char)) : TokenTable := fun i' j' =>
  if i' = i ∧ j ≤ j' ∧ j' ≤ j + ts.length then rowEntry ts (j' - j) else p i' j'

@[simp] theorem rowEntry_nil_zero : rowEntry [] 0 = .null := rfl

@[simp] theorem rowEntry_cons_zero : rowEntry (t :: ts) 0 = .token t := rfl

@[simp] theorem rowEntry_cons_succ : rowEntry (t :: ts) (j + 1) = rowEntry ts j := by
  simp [rowEntry]

/-- Behind the NULL nothing is set. -/
theorem rowEntry_of_lt (h : ts.length < j) : rowEntry ts j = .unset := by
  rw [rowEntry, List.getElem?_eq_none h.le]
  exact if_neg h.ne'

theorem putLine_nil :
    putLine p i j [] = fun i' j' => if i' = i ∧ j' = j then .null else p i' j' := by
  funext i' j'
  rw [putLine, List.length_nil, Nat.add_zero]
  by_cases h : i' = i ∧ j' = j
  · obtain ⟨rfl, rfl⟩ := h
    rw [if_pos ⟨rfl, le_rfl, le_rfl⟩, if_pos ⟨rfl, rfl⟩, Nat.sub_self, rowEntry_nil_zero]
  · rw [if_neg h, if_neg fun h' => h ⟨h'.1, le_antisymm h'.2.2 h'.2.1⟩]

theorem putLine_cons :
    putLine (fun i' j' => if i' = i ∧ j' = j then .token t else p i' j') i (j + 1) ts =
      putLine p i j (t :: ts) := by
  funext i' j'
  rw [putLine, putLine, List.length_cons]
  by_cases hi : i' = i
  · rcases lt_trichotomy j' j with hj | rfl | hj
    · rw [if_neg (by omega), if_neg (by omega), if_neg (by omega)]
    · rw [if_neg (by omega), if_pos ⟨hi, rfl⟩, if_pos ⟨hi, by omega⟩, Nat.sub_self,
        rowEntry_cons_zero]
    · obtain ⟨k, rfl⟩ := Nat.exists_eq_add_of_lt hj
      rw [show j + k + 1 - (j + 1) = k by omega, show j + k + 1 - j = k + 1 by omega,
        rowEntry_cons_succ, if_neg (c := i' = i ∧ j + k + 1 = j) (by omega)]
      exact if_congr (by omega) rfl rfl
  · rw [if_neg fun h => hi h.1, if_neg fun h => hi h.1, if_neg fun h => hi h.1]

/-- **A line that fits** is stored with the NULL behind it. -/
theorem splitLine_of_lt (hi : i < 20) (hfit : j + ts.length < 50) :
    splitLine i ts j jn p = .ok (putLine p i j ts, if ts = [] then jn else j + ts.length) := by
  induction ts generalizing j jn p with
  | nil =>
    rw [List.length_nil, Nat.add_zero] at hfit
    rw [splitLine, store_of_lt hi hfit, putLine_nil]
    rfl
  | cons t ts ih =>
    rw [List.length_cons] at hfit
    rw [splitLine, store_of_lt hi (by omega), if_neg (List.cons_ne_nil t ts), List.length_cons,
      ← putLine_cons]
    show splitLine i ts (j + 1) (j + 1) _ = _
    rw [ih (by omega)]
    by_cases hts : ts = []
    · rw [if_pos hts, hts]
      rfl
    · rw [if_neg hts, Nat.add_right_comm, Nat.add_assoc]

/-- A line that is too long is not. -/
theorem splitLine_of_ge (hfit : 50 ≤ j + ts.length) :
    splitLine i ts j jn p = .error .overflow := by
  induction ts generalizing j jn p with
  | nil =>
    rw [List.length_nil, Nat.add_zero] at hfit
    rw [splitLine, store_of_not fun h => absurd h.2 (not_lt.mpr hfit)]
    rfl
  | cons t ts ih =>
    rw [List.length_cons] at hfit
    rw [splitLine]
    by_cases hin : i < 20 ∧ j < 50
    · rw [store_of_lt hin.1 hin.2]
      exact ih (by omega)
    · rw [store_of_not hin]
      rfl

/-- A text with too many lines, or with one that is too long, is not stored. -/
theorem splitText_of_not_fits {lines : List (List Char)}
    (h : ¬ (i + lines.length < 20 ∧ ∀ l ∈ lines, (strtok ' ' l).length < 50)) :
    splitText lines i jn p = .error .overflow := by
  induction lines generalizing i jn p with
  | nil =>
    have hi : ¬ (i < 20 ∧ 0 < 50) := fun hi => h ⟨hi.1, List.forall_mem_nil _⟩
    rw [splitText, store_of_not hi]
    rfl
  | cons line lines ih =>
    rw [splitText]
    by_cases hi : i < 20
    · rw [store_of_lt hi (by decide)]
      show splitLine i (strtok ' ' line) 0 jn _ >>= _ = _
      by_cases hline : (strtok ' ' line).length < 50
      · rw [splitLine_of_lt hi (by omega)]
        refine ih fun hrest => h ⟨?_, List.forall_mem_cons.mpr ⟨hline, hrest.2⟩⟩
        rw [List.length_cons]
        omega
      · rw [splitLine_of_ge (by omega)]
        rfl
    · rw [store_of_not fun h' => hi h'.1]
      rfl

/-- One more line in the table. -/
theorem putLine_ofLines {done : List (List (List Char))} {line : List Char} :
    putLine (fun i' j' => if i' = done.length ∧ j' = 0 then .token line
      else ofLines done i' j') done.length 0 ts = ofLines (done ++ [ts]) := by
  funext i' j'
  rw [putLine, ofLines, ofLines, Nat.zero_add]
  rcases lt_trichotomy i' done.length with hi | rfl | hi
  · rw [if_neg (by omega), if_neg (by omega), List.getElem?_append_left hi]
  · rw [List.getElem?_concat_length, List.getElem?_eq_none le_rfl]
    rcases Nat.lt_or_ge ts.length j' with hj | hj
    · rw [if_neg (by omega), if_neg (by omega)]
      exact (rowEntry_of_lt hj).symm
    · exact if_pos ⟨rfl, Nat.zero_le _, hj⟩
  · rw [if_neg (by omega), if_neg (by omega), List.getElem?_eq_none hi.le,
      List.getElem?_eq_none (by simp; omega)]

/-- **The table after the first loop** holds the tokens of all lines, and a NULL behind them. -/
theorem splitText_eq {lines : List (List Char)} {done : List (List (List Char))}
    (hlen : done.length + lines.length < 20) (hwidth : ∀ l ∈ lines, (strtok ' ' l).length < 50) :
    ∃ p, splitText lines done.length jn (ofLines done) =
        .ok (p, done.length + lines.length, widthAfter jn (lines.map (strtok ' '))) ∧
      ∀ i < done.length + lines.length, p i = ofLines (done ++ lines.map (strtok ' ')) i := by
  induction lines generalizing done jn with
  | nil =>
    rw [List.length_nil, Nat.add_zero] at hlen ⊢
    rw [splitText, store_of_lt hlen (by decide)]
    refine ⟨_, rfl, fun i hi => ?_⟩
    funext j
    rw [if_neg fun h => absurd h.1 hi.ne, List.map_nil, List.append_nil]
  | cons line lines ih =>
    rw [List.length_cons] at hlen
    obtain ⟨hline, hrest⟩ := List.forall_mem_cons.mp hwidth
    rw [splitText, store_of_lt (by omega) (by decide)]
    show ∃ p, (splitLine done.length (strtok ' ' line) 0 jn _ >>= _) = _ ∧ _
    rw [splitLine_of_lt (by omega) (by omega), putLine_ofLines]
    have hdone : (done ++ [strtok ' ' line]).length = done.length + 1 := by
      rw [List.length_append, List.length_singleton]
    obtain ⟨p, hp, hrows⟩ := @ih (if strtok ' ' line = [] then jn else 0 + (strtok ' ' line).length)
      (done ++ [strtok ' ' line]) (by omega) hrest
    rw [hdone, Nat.add_assoc, Nat.add_comm 1] at hp hrows
    refine ⟨p, hp.trans ?_, fun i hi => ?_⟩
    · rw [Nat.zero_add]
      rfl
    · rw [hrows i hi, List.append_assoc, List.map_cons, List.singleton_append]

/-! ## The second loop -/

/-- What the loop adds for column `k`, if it comes to it. -/
def columnBelow (p : TokenTable) (i jn k : ℕ) : Except Crash (List (String × Json)) :=
  if k < jn then p.hostColumn i k else .ok []

theorem columnBelow_of_lt {k : ℕ} (h : k < jn) : columnBelow p i jn k = p.hostColumn i k := if_pos h

theorem columnBelow_of_ge {k : ℕ} (h : jn ≤ k) : columnBelow p i jn k = .ok [] :=
  if_neg (not_lt.mpr h)

theorem columnBelow_succ {k : ℕ} (h : k ≠ j) :
    columnBelow p i (j + 1) k = columnBelow p i j k := by
  rw [columnBelow, columnBelow]
  exact if_congr (by omega) rfl rfl

/-- **Only three columns matter.** -/
theorem hostColumns_eq (p : TokenTable) (i jn : ℕ) :
    p.hostColumns i jn = (do
      let ip ← columnBelow p i jn 2
      let up ← columnBelow p i jn 5
      let down ← columnBelow p i jn 19
      pure (ip ++ up ++ down)) := by
  induction jn with
  | zero => rfl
  | succ j ih =>
    rw [hostColumns, ih]
    by_cases h2 : j = 2
    · subst h2
      rw [columnBelow_succ (k := 5) (by decide), columnBelow_succ (k := 19) (by decide),
        columnBelow_of_ge (k := 5) (by decide), columnBelow_of_ge (k := 19) (by decide),
        columnBelow_of_ge le_rfl, columnBelow_of_lt (Nat.lt_succ_self 2)]
      cases p.hostColumn i 2 with
      | error e => rfl
      | ok ip => exact congrArg Except.ok (by simp)
    · rw [columnBelow_succ (Ne.symm h2)]
      by_cases h5 : j = 5
      · subst h5
        rw [columnBelow_succ (k := 19) (by decide), columnBelow_of_ge (k := 19) (by decide),
          columnBelow_of_ge le_rfl, columnBelow_of_lt (Nat.lt_succ_self 5)]
        cases columnBelow p i 5 2 with
        | error e => rfl
        | ok ip =>
          cases p.hostColumn i 5 with
          | error e => rfl
          | ok up => exact congrArg Except.ok (by simp)
      · rw [columnBelow_succ (Ne.symm h5)]
        by_cases h19 : j = 19
        · subst h19
          rw [columnBelow_of_ge le_rfl, columnBelow_of_lt (Nat.lt_succ_self 19)]
          cases columnBelow p i 19 2 with
          | error e => rfl
          | ok ip =>
            cases columnBelow p i 19 5 with
            | error e => rfl
            | ok up =>
              cases p.hostColumn i 19 with
              | error e => rfl
              | ok down => exact congrArg Except.ok (by simp)
        · have hnone : p.hostColumn i j = .ok [] := by
            rw [hostColumn, if_neg h19, if_neg h5, if_neg h2]
          rw [columnBelow_succ (Ne.symm h19), hnone]
          refine Eq.trans ?_ (bind_pure _)
          refine congrArg _ (funext fun fields => ?_)
          exact congrArg Except.ok (List.append_nil fields)

/-- What stands in a row that was stored. -/
theorem load_eq {lines : List (List (List Char))} {toks : List (List Char)}
    (hrow : p i = ofLines lines i) (htoks : lines[i]? = some toks) (hi : i < 20) (hj : j < 50) :
    p.load i j = tokenAt toks j := by
  have hentry : p i j = rowEntry toks j := by
    rw [hrow, ofLines, htoks]
  rw [load, if_pos ⟨hi, hj⟩, hentry, tokenAt, rowEntry]
  cases toks[j]? with
  | some t => rfl
  | none =>
    by_cases hlast : j = toks.length
    · simp only [if_pos hlast]
    · simp only [if_neg hlast]

/-- One column of a line. -/
theorem columnBelow_eq {toks : List (List Char)} {k : ℕ} {name : String} {value : List Char → Json}
    (hcol : p.hostColumn i k = (p.load i k).map fun t => [(name, value t)])
    (hload : ∀ j < jn, p.load i j = tokenAt toks j) :
    columnBelow p i jn k = hostField jn toks k name value := by
  rw [columnBelow, hostField]
  refine ite_congr rfl (fun hk => ?_) fun _ => rfl
  rw [hcol, hload k hk]

/-- **The object of a line.** -/
theorem map_hostColumns {lines : List (List (List Char))} {toks : List (List Char)}
    (hrow : p i = ofLines lines i) (htoks : lines[i]? = some toks) (hi : i < 20) (hjn : jn < 50) :
    (p.hostColumns i jn).map Json.obj = hostOf jn toks := by
  have hload : ∀ j < jn, p.load i j = tokenAt toks j := fun j hj =>
    load_eq hrow htoks hi (hj.trans hjn)
  have hip : columnBelow p i jn 2 = hostField jn toks 2 "ip" Json.string :=
    columnBelow_eq rfl hload
  have hup : columnBelow p i jn 5 = hostField jn toks 5 "up" fun t => .int (mebi t) :=
    columnBelow_eq rfl hload
  have hdown : columnBelow p i jn 19 = hostField jn toks 19 "down" fun t => .int (mebi t) :=
    columnBelow_eq rfl hload
  rw [hostColumns_eq, hip, hup, hdown, hostOf]
  cases hostField jn toks 2 "ip" Json.string with
  | error e => rfl
  | ok ip =>
    cases hostField jn toks 5 "up" fun t => .int (mebi t) with
    | error e => rfl
    | ok up => cases hostField jn toks 19 "down" fun t => .int (mebi t) <;> rfl

/-- A loop over the numbers of the elements of a list is one over the elements. -/
theorem mapM_range {α β : Type} {f : ℕ → Except Crash β} {g : α → Except Crash β} (l : List α)
    (h : ∀ i a, l[i]? = some a → f i = g a) : (List.range l.length).mapM f = l.mapM g := by
  induction l using List.reverseRecOn with
  | nil => rfl
  | append_singleton l a ih =>
    have hlast : (l ++ [a])[l.length]? = some a := List.getElem?_concat_length
    have hinit : ∀ i b, l[i]? = some b → f i = g b := fun i b hb =>
      h i b (by rw [List.getElem?_append_left (List.getElem?_eq_some_iff.mp hb).1, hb])
    rw [List.length_append, List.length_singleton, List.range_succ, List.mapM_append,
      List.mapM_append, ih hinit]
    refine congrArg _ (funext fun bs => ?_)
    rw [List.mapM_cons, List.mapM_cons, List.mapM_nil, List.mapM_nil, h _ _ hlast]

theorem widthAfter_concat {lines : List (List (List Char))} {toks : List (List Char)} :
    widthAfter jn (lines ++ [toks]) = if toks = [] then widthAfter jn lines else toks.length := by
  rw [widthAfter, List.foldl_append]
  rfl

/-- `jn` is the length of the last line that is not blank. -/
theorem widthAfter_eq (lines : List (List (List Char))) :
    widthAfter 0 lines = ((lines.filter (· ≠ [])).getLast?.map List.length).getD 0 := by
  induction lines using List.reverseRecOn with
  | nil => rfl
  | append_singleton lines toks ih =>
    rw [widthAfter_concat, ih, List.filter_append]
    by_cases htoks : toks = []
    · rw [if_pos htoks, List.filter_cons_of_neg (by simpa using htoks), List.filter_nil,
        List.append_nil]
    · rw [if_neg htoks, List.filter_cons_of_pos (by simpa using htoks), List.filter_nil,
        List.getLast?_concat]
      rfl

theorem widthAfter_lt {n : ℕ} {lines : List (List (List Char))} (hjn : jn < n)
    (h : ∀ l ∈ lines, l.length < n) : widthAfter jn lines < n := by
  induction lines using List.reverseRecOn with
  | nil => exact hjn
  | append_singleton lines toks ih =>
    rw [List.forall_mem_append] at h
    rw [widthAfter_concat]
    split
    · exact ih h.1
    · exact h.2 toks (List.mem_singleton_self _)

theorem ofLines_nil : ofLines [] = empty := rfl

end TokenTable

/-- **The table is not needed** to say what is made of a text. -/
theorem acquireTable_eq (text : List Char) : acquireTable text = tracHosts text := by
  rw [acquireTable, tracHosts]
  set lines := strtok '\n' text with hlines
  by_cases hfits : 0 + lines.length < 20 ∧ ∀ l ∈ lines, (strtok ' ' l).length < 50
  · obtain ⟨p, hp, hrows⟩ := @TokenTable.splitText_eq 0 lines [] (by simpa using hfits.1) hfits.2
    have hwidth : ∀ l ∈ lines.map (strtok ' '), l.length < 50 := List.forall_mem_map.mpr hfits.2
    rw [List.length_nil, Nat.zero_add, TokenTable.ofLines_nil] at hp
    rw [List.length_nil, Nat.zero_add, List.nil_append] at hrows
    have hno : ¬ (20 ≤ (lines.map (strtok ' ')).length ∨
        ∃ l ∈ lines.map (strtok ' '), 50 ≤ l.length) := by
      rw [List.length_map, not_or, not_le]
      constructor
      · omega
      · rintro ⟨l, hl, hlong⟩
        exact absurd (hwidth l hl) (not_lt.mpr hlong)
    rw [hp]
    dsimp only
    rw [if_neg hno, ← TokenTable.widthAfter_eq]
    show p.hosts _ (List.range lines.length) = _
    rw [TokenTable.hosts, ← List.length_map (strtok ' ')]
    refine TokenTable.mapM_range _ fun i toks htoks => ?_
    have hi : i < lines.length := by
      rw [← List.length_map (strtok ' ')]
      exact (List.getElem?_eq_some_iff.mp htoks).1
    exact TokenTable.map_hostColumns (hrows i hi) htoks (by omega)
      (TokenTable.widthAfter_lt (by decide) hwidth)
  · rw [TokenTable.splitText_of_not_fits hfits]
    refine (if_pos ?_).symm
    rw [not_and_or, not_lt, Nat.zero_add] at hfits
    rw [List.length_map]
    refine hfits.imp id fun hlong => ?_
    simp only [not_forall, not_lt] at hlong
    obtain ⟨l, hl, hlong⟩ := hlong
    exact ⟨_, List.mem_map_of_mem hl, hlong⟩

/-! ## What should be made of a text -/

/-- The tokens of the lines of a text. -/
def textLines (text : List Char) : List (List (List Char)) :=
  (strtok '\n' text).map (strtok ' ')

/-- A field of the object of a line, when the line has the column. -/
def lineField (toks : List (List Char)) (j : ℕ) (name : String) (value : List Char → Json) :
    List (String × Json) :=
  match toks[j]? with
  | some t => [(name, value t)]
  | none => []

/-- The object of a line, with the columns it has. -/
def lineHost (toks : List (List Char)) : Json :=
  Json.obj (lineField toks 2 "ip" Json.string ++ lineField toks 5 "up" (fun t => .int (mebi t)) ++
    lineField toks 19 "down" fun t => .int (mebi t))

/-- The lines fit into the table, none is blank, and each has those of the three columns that the
last one has. -/
structure LinesAlike (lines : List (List (List Char))) : Prop where
  few : lines.length ≤ 19
  narrow : ∀ l ∈ lines, l ≠ [] ∧ l.length ≤ 49
  alike : ∀ l ∈ lines, ∀ k ∈ [2, 5, 19],
    (k < l.length ↔ k < (lines.getLast?.map List.length).getD 0)

section Lines

variable {jn j : ℕ} {toks : List (List Char)} {name : String} {value : List Char → Json}
  {f : List (String × Json)}

theorem length_lineField (toks : List (List Char)) (j : ℕ) (name : String)
    (value : List Char → Json) :
    (lineField toks j name value).length = if j < toks.length then 1 else 0 := by
  rw [lineField]
  by_cases h : j < toks.length
  · rw [List.getElem?_eq_getElem h, if_pos h]
    rfl
  · rw [List.getElem?_eq_none (not_lt.mp h), if_neg h]
    rfl

/-- A field comes out right when the line has the column exactly if the last one has. -/
theorem hostField_of_iff (h : j < toks.length ↔ j < jn) :
    hostField jn toks j name value = .ok (lineField toks j name value) := by
  rw [hostField, lineField]
  by_cases hj : j < jn
  · rw [if_pos hj, tokenAt, List.getElem?_eq_getElem (h.mpr hj)]
    rfl
  · rw [if_neg hj, List.getElem?_eq_none (not_lt.mp fun h' => hj (h.mp h'))]

/-- A field that comes out is there when the last line has the column, and then the line has it
too. -/
theorem hostField_ok (h : hostField jn toks j name value = .ok f) :
    (j < jn → j < toks.length) ∧ f.length = if j < jn then 1 else 0 := by
  rw [hostField] at h
  by_cases hj : j < jn
  · rw [if_pos hj, tokenAt] at h
    rw [if_pos hj]
    cases htok : toks[j]? with
    | some t =>
      rw [htok] at h
      obtain rfl := Except.ok.inj h
      exact ⟨fun _ => (List.getElem?_eq_some_iff.mp htok).1, rfl⟩
    | none =>
      rw [htok] at h
      by_cases hlast : j = toks.length
      · rw [if_pos hlast] at h
        cases h
      · rw [if_neg hlast] at h
        cases h
  · rw [if_neg hj] at h ⊢
    obtain rfl := Except.ok.inj h
    exact ⟨fun h' => absurd h' hj, rfl⟩

/-- **The object of a line is right** exactly if the line has the columns of the last one. -/
theorem hostOf_eq_iff :
    hostOf jn toks = .ok (lineHost toks) ↔ ∀ k ∈ [2, 5, 19], (k < toks.length ↔ k < jn) := by
  constructor
  · intro h
    simp only [hostOf, bind_eq_ok] at h
    obtain ⟨ip, hip, up, hup, down, hdown, h⟩ := h
    obtain ⟨hip, hlip⟩ := hostField_ok hip
    obtain ⟨hup, hlup⟩ := hostField_ok hup
    obtain ⟨hdown, hldown⟩ := hostField_ok hdown
    -- the number of fields says which they are
    have hfields := congrArg List.length (Json.object.inj (Except.ok.inj h))
    simp only [List.length_map, List.length_append, length_lineField, hlip, hlup, hldown] at hfields
    intro k hk
    simp only [List.mem_cons, List.not_mem_nil, or_false] at hk
    split_ifs at hfields <;> omega
  · intro h
    rw [hostOf, hostField_of_iff (h 2 (by decide)), hostField_of_iff (h 5 (by decide)),
      hostField_of_iff (h 19 (by decide))]
    rfl

/-- Without a blank line `jn` is the length of the last one. -/
theorem filter_of_narrow {lines : List (List (List Char))} (h : ∀ l ∈ lines, l ≠ []) :
    lines.filter (· ≠ []) = lines :=
  List.filter_eq_self.mpr fun l hl => decide_eq_true (h l hl)

theorem tracHosts_eq (text : List Char) :
    tracHosts text =
      if 20 ≤ (textLines text).length ∨ ∃ l ∈ textLines text, 50 ≤ l.length then .error .overflow
      else (textLines text).mapM (hostOf ((((textLines text).filter (· ≠ [])).getLast?.map
        List.length).getD 0)) := rfl

/-- What is made of lines that are alike. -/
theorem tracHosts_of_alike {text : List Char} (h : LinesAlike (textLines text)) :
    tracHosts text = .ok ((textLines text).map lineHost) := by
  have hblank : ∀ l ∈ textLines text, l ≠ [] := fun l hl => (h.narrow l hl).1
  have hfits : ¬ (20 ≤ (textLines text).length ∨ ∃ l ∈ textLines text, 50 ≤ l.length) := by
    have hfew := h.few
    rw [not_or]
    constructor
    · omega
    · rintro ⟨l, hl, hlong⟩
      have hnarrow := (h.narrow l hl).2
      omega
  rw [tracHosts_eq, if_neg hfits, filter_of_narrow hblank, mapM_eq_ok, List.forall₂_map_right_iff,
    List.forall₂_same]
  exact fun l hl => hostOf_eq_iff.mpr (h.alike l hl)

/-- **The objects are those of the lines that are not blank**, exactly if the lines are alike. -/
theorem acquireTable_iff (text : List Char) :
    acquireTable text = .ok (((textLines text).filter (· ≠ [])).map lineHost) ↔
      LinesAlike (textLines text) := by
  rw [acquireTable_eq]
  constructor
  · intro h
    rw [tracHosts_eq] at h
    by_cases hfits : 20 ≤ (textLines text).length ∨ ∃ l ∈ textLines text, 50 ≤ l.length
    · rw [if_pos hfits] at h
      cases h
    · rw [if_neg hfits, mapM_eq_ok] at h
      -- there are as many objects as lines
      have hall : (textLines text).filter (· ≠ []) = textLines text := by
        have hlen := h.length_eq
        rw [List.length_map] at hlen
        exact List.filter_sublist.eq_of_length hlen.symm
      rw [hall, List.forall₂_map_right_iff, List.forall₂_same] at h
      rw [not_or, not_le, not_exists] at hfits
      refine ⟨Nat.le_of_lt_succ hfits.1, fun l hl => ⟨?_, ?_⟩,
        fun l hl => hostOf_eq_iff.mp (h l hl)⟩
      · exact of_decide_eq_true (List.filter_eq_self.mp hall l hl)
      · exact Nat.le_of_lt_succ (not_le.mp fun hlong => hfits.2 l ⟨hl, hlong⟩)
  · intro h
    rw [tracHosts_of_alike h, filter_of_narrow fun l hl => (h.narrow l hl).1]

/-- A first line that is shorter than the last one: an entry is read that was not set. -/
theorem acquireTable_shortLine :
    acquireTable "a\nb c d".toList = .error .uninit ∧
      acquireTable "a\nb c d".toList ≠
        .ok (((textLines "a\nb c d".toList).filter (· ≠ [])).map lineHost) := by
  have hfault : acquireTable "a\nb c d".toList = .error .uninit := by
    rw [acquireTable_eq]
    rfl
  rw [hfault]
  exact ⟨rfl, nofun⟩

end Lines

end Tqos
