import Mathlib.Data.List.TakeWhile
import Tqos.Ltm.Unpack

/-!
# What a package says

The list of a package, read all at once: its lines, and what each of them is for the loop of
`install_unpack_file`. The loop comes to a line when it could do all the lines before it.

## Main results

* `copyLoop_spec` — when the contents of an entry are copied completely
* `unpackLoop_spec` — the loop, by the lines it comes to
* `readHeader_cases` — the header
* `installUnpackFile_spec` — the function, by the lines it comes to
-/

namespace Tqos

namespace Ltm

/-! ## Copying -/

section Copy

variable {fwrite : ℕ → Bool} {fuel piece flen : ℕ} {fp save : Text}

/-- **The copy is complete** when there are as many bytes and every piece can be written. -/
theorem copyLoop_spec (hfuel : flen ≤ fuel) :
    ((copyLoop fwrite fuel piece flen fp save).complete = true ↔
      flen ≤ fp.length ∧ ∀ k, 512 * k < flen → fwrite (piece + k) = true) ∧
    ((copyLoop fwrite fuel piece flen fp save).complete = true →
      (copyLoop fwrite fuel piece flen fp save).fp = fp.drop flen ∧
        (copyLoop fwrite fuel piece flen fp save).save = save ++ fp.take flen) := by
  induction fuel generalizing piece flen fp save with
  | zero =>
    obtain rfl : flen = 0 := Nat.le_zero.mp hfuel
    simp [copyLoop]
  | succ fuel ih =>
    rw [copyLoop]
    by_cases hzero : flen = 0
    · simp [hzero]
    · rw [if_neg hzero]
      dsimp only
      obtain ⟨once, honce⟩ : ∃ once, once = min flen 512 := ⟨_, rfl⟩
      rw [← honce]
      have hpos : 0 < once := by omega
      by_cases hshort : fp.length < once
      · rw [if_pos hshort]
        refine ⟨⟨nofun, fun h => ?_⟩, nofun⟩
        have := h.1
        omega
      · rw [if_neg hshort]
        by_cases hwrite : fwrite piece = true
        · rw [hwrite, if_neg (by decide)]
          obtain ⟨hiff, hdone⟩ := @ih (piece + 1) (flen - once) (fp.drop once)
            (save ++ fp.take once) (by omega)
          constructor
          · rw [hiff, List.length_drop]
            constructor
            · rintro ⟨hlen, hall⟩
              refine ⟨by omega, fun k hk => ?_⟩
              cases k with
              | zero => exact hwrite
              | succ k =>
                rw [Nat.add_comm k, ← Nat.add_assoc]
                exact hall k (by omega)
            · rintro ⟨hlen, hall⟩
              refine ⟨by omega, fun k hk => ?_⟩
              rw [Nat.add_assoc, Nat.add_comm 1]
              exact hall (k + 1) (by omega)
          · intro hcomplete
            obtain ⟨hfp, hsave⟩ := hdone hcomplete
            have hsum : once + (flen - once) = flen := by omega
            rw [hfp, hsave, List.drop_drop, hsum, List.append_assoc, ← List.take_add, hsum]
            exact ⟨rfl, rfl⟩
        · rw [Bool.not_eq_true] at hwrite
          rw [hwrite, if_pos (by decide)]
          refine ⟨⟨nofun, fun h => ?_⟩, nofun⟩
          have hfirst : fwrite piece = true := h.2 0 (by omega)
          rw [hwrite] at hfirst
          exact absurd hfirst (by decide)

end Copy

/-! ## Lines -/

/-- What a line is for the loop. -/
inductive Item
  /-- A name and a length. -/
  | entry (name : Text) (len : ℤ)
  /-- Anything else. -/
  | malformed
  /-- More tokens than there is room for. -/
  | tooMany

/-- A line, which may have come to the end of the list instead of its own. -/
def itemOf (ended : Bool) (line : Text) : Item :=
  match tokens 32 line with
  | [name, len] => if ended then .entry (cstr name) (atoi len) else .malformed
  | toks => if 2 < toks.length then .tooMany else .malformed

/-- Lines, the last of which has not ended and may be empty. -/
def itemsOf : List Text → List Item
  | [] => []
  | [line] => if line = [] then [] else [itemOf false line]
  | line :: lines => itemOf true line :: itemsOf lines

/-- The lines of a list. -/
def items (s : Text) : List Item := itemsOf (s.splitOn 59)

section Items

variable {s line rest : Text} {stop : UInt8}

theorem cutLine_of_append (h : stop ∉ line) (rest : Text) :
    cutLine stop (line ++ stop :: rest) = (line, some rest) := by
  induction line with
  | nil => exact cutLine_stop
  | cons c line ih =>
    obtain ⟨hc, hline⟩ := not_or.mp (mt List.mem_cons.mpr h)
    rw [List.cons_append, cutLine_cons (Ne.symm hc), ih hline]

theorem cutLine_of_notMem (h : stop ∉ line) : cutLine stop line = (line, none) := by
  induction line with
  | nil => rfl
  | cons c line ih =>
    obtain ⟨hc, hline⟩ := not_or.mp (mt List.mem_cons.mpr h)
    rw [cutLine_cons (Ne.symm hc), ih hline]

/-- A text is a line that does not end, or a line and what is behind it. -/
theorem line_cases (stop : UInt8) (s : Text) :
    stop ∉ s ∨ ∃ line rest, stop ∉ line ∧ s = line ++ stop :: rest := by
  by_cases h : stop ∈ s
  · obtain ⟨line, rest, rfl, hline⟩ := List.eq_append_cons_of_mem h
    exact Or.inr ⟨line, rest, hline, rfl⟩
  · exact Or.inl h

@[simp] theorem items_nil : items [] = [] := rfl

/-- A line that does not end is the last one. -/
theorem items_of_notMem (h : 59 ∉ s) (hs : s ≠ []) : items s = [itemOf false s] := by
  rw [items, List.splitOn_eq_singleton h, itemsOf, if_neg hs]

/-- **The first line.** -/
theorem items_append (h : 59 ∉ line) (rest : Text) :
    items (line ++ 59 :: rest) = itemOf true line :: items rest := by
  rw [items, List.splitOn_append_cons_self_of_not_mem h]
  obtain ⟨l, ls, hsplit⟩ := List.exists_cons_of_ne_nil (List.splitOn_ne_nil 59 rest)
  rw [items, hsplit]
  rfl

end Items

/-! ## The turns of the loop -/

section Turns

variable {answers : Answers} {place : Place} {newpath : Text → Except Fault Text} {fuel i : ℕ}
  {name save : Text} {len : ℤ} {s fp : Text} {disk : Disk} {opened : List Path}

/-- There are as many bytes as an entry is to have, and its pieces can be written. -/
def CanCopy (answers : Answers) (i : ℕ) (len : ℤ) (body : Text) : Prop :=
  0 ≤ len ∧ len ≤ body.length ∧ ∀ k : ℕ, 512 * k < len → answers.fwrite i k = true

theorem copyLoop_complete_iff (hlen : 0 ≤ len) :
    (copyLoop (answers.fwrite i) len.toNat 0 len.toNat fp []).complete = true ↔
      CanCopy answers i len fp := by
  rw [(copyLoop_spec (le_refl len.toNat)).1, CanCopy]
  simp only [Nat.zero_add]
  constructor
  · rintro ⟨hle, hall⟩
    exact ⟨hlen, by omega, fun k hk => hall k (by omega)⟩
  · rintro ⟨-, hle, hall⟩
    exact ⟨by omega, fun k hk => hall k (by omega)⟩

/-- A file that cannot be opened. -/
theorem unpackEntry_of_not_fopen (hsave : newpath name = .ok save)
    (hopen : answers.fopen i save = false) :
    unpackEntry answers place newpath i name len fp disk opened =
      .ok (.inl ⟨-1, disk, opened, none⟩) := by
  rw [unpackEntry, hsave]
  show (if (!answers.fopen i save) = true then _ else _) = _
  rw [hopen]
  rfl

section Opened

variable (hsave : newpath name = .ok save) (hopen : answers.fopen i save = true)
include hsave hopen

/-- The package itself. -/
theorem unpackEntry_of_eq (hfile : place.path save = place.path place.file) :
    unpackEntry answers place newpath i name len fp disk opened = .error .clobber := by
  rw [unpackEntry, hsave]
  show (if (!answers.fopen i save) = true then _ else _) = _
  rw [hopen, if_neg (by decide), if_pos hfile]

variable (hfile : place.path save ≠ place.path place.file)
include hfile

/-- A length that reads as negative. -/
theorem unpackEntry_of_neg (hlen : len < 0) :
    unpackEntry answers place newpath i name len fp disk opened =
      .ok (.inl ⟨-1, Function.update (Function.update disk (place.path save) (some []))
        (place.path name) none, opened ++ [place.path save], none⟩) := by
  have hzero : len.toNat = 0 := by omega
  rw [unpackEntry, hsave]
  show (if (!answers.fopen i save) = true then _ else _) = _
  rw [hopen, if_neg (by decide), if_neg hfile, hzero, copyLoop]
  exact if_pos hlen

/-- Contents that cannot be copied. -/
theorem unpackEntry_of_not_canCopy (hlen : 0 ≤ len) (hcopy : ¬ CanCopy answers i len fp) :
    ∃ data, unpackEntry answers place newpath i name len fp disk opened =
      .ok (.inl ⟨-1, Function.update disk (place.path save) (some data),
        opened ++ [place.path save], some (place.path save)⟩) := by
  have hnot := mt (copyLoop_complete_iff hlen).mp hcopy
  rw [Bool.not_eq_true] at hnot
  refine ⟨(copyLoop (answers.fwrite i) len.toNat 0 len.toNat fp []).save, ?_⟩
  rw [unpackEntry, hsave]
  show (if (!answers.fopen i save) = true then _ else _) = _
  rw [hopen, if_neg (by decide), if_neg hfile]
  dsimp only
  rw [hnot]
  rfl

/-- **An entry that is unpacked.** -/
theorem unpackEntry_of_canCopy (hcopy : CanCopy answers i len fp) :
    unpackEntry answers place newpath i name len fp disk opened =
      .ok (.inr (fp.drop len.toNat,
        Function.update disk (place.path save) (some (fp.take len.toNat)),
        opened ++ [place.path save])) := by
  have hcomplete := (copyLoop_complete_iff hcopy.1).mpr hcopy
  obtain ⟨hfp, hdata⟩ := (copyLoop_spec (le_refl len.toNat)).2 hcomplete
  rw [unpackEntry, hsave]
  show (if (!answers.fopen i save) = true then _ else _) = _
  rw [hopen, if_neg (by decide), if_neg hfile]
  dsimp only
  rw [hcomplete, if_neg (by decide), if_neg (Int.not_lt.mpr hcopy.1), hfp, hdata, List.nil_append]

end Opened

/-- What the loop does with a line. -/
def turnOf (answers : Answers) (place : Place) (newpath : Text → Except Fault Text) (fuel i : ℕ)
    (fp : Text) (disk : Disk) (opened : List Path) (x : Item) (rest : Text) :
    Except Fault Unpacked :=
  match x with
  | .tooMany => .error .overflow
  | .malformed => .ok ⟨-1, disk, opened, none⟩
  | .entry name len => do
    match ← unpackEntry answers place newpath i name len fp disk opened with
    | .inl r => .ok r
    | .inr (fp, disk, opened) => unpackLoop answers place newpath fuel (i + 1) rest fp disk opened

/-- A turn of the loop, for the line that it cuts off. A line that has not ended is treated as one
that has, but for the two tokens of an entry. -/
theorem unpackLoop_of_cutLine (hs : s ≠ []) (ended : Bool) {line rest : Text}
    (hcut : cutLine 59 s = (line, if ended then some rest else none)) :
    unpackLoop answers place newpath (fuel + 1) i s fp disk opened =
      turnOf answers place newpath fuel i fp disk opened (itemOf ended line) rest := by
  obtain ⟨toks, htoks⟩ : ∃ toks, tokens 32 line = toks := ⟨_, rfl⟩
  rw [unpackLoop.eq_3 _ _ _ _ _ _ _ _ _ hs, itemOf, htoks]
  by_cases hmany : 2 < toks.length
  · have hline : 2 < (splitLine 32 59 2 s).elts.length :=
      lt_length_splitLine (by rwa [hcut, htoks])
    rw [if_pos hline]
    match toks, hmany with
    | _ :: _ :: _ :: _, hmany =>
      dsimp only
      rw [if_pos hmany]
      rfl
  · have hline : splitLine 32 59 2 s = _ :=
      splitLine_of_le (by rw [hcut, htoks]; exact Nat.le_of_not_lt hmany)
    rw [hcut, htoks] at hline
    rw [hline, if_neg hmany]
    match toks, hmany with
    | [], _ => cases ended <;> rfl
    | [_], _ => cases ended <;> rfl
    | [_, _], _ => cases ended <;> rfl
    | _ :: _ :: _ :: _, hmany => exact absurd (by simp) hmany

/-- **A turn of the loop.** -/
theorem unpackLoop_cons (hs : s ≠ []) : ∃ x rest, items s = x :: items rest ∧
    rest.length < s.length ∧
    unpackLoop answers place newpath (fuel + 1) i s fp disk opened =
      turnOf answers place newpath fuel i fp disk opened x rest := by
  rcases line_cases 59 s with hnot | ⟨line, rest, hline, rfl⟩
  · refine ⟨itemOf false s, [], items_of_notMem hnot hs, ?_, ?_⟩
    · exact List.length_pos_of_ne_nil hs
    · exact unpackLoop_of_cutLine hs false (cutLine_of_notMem hnot)
  · refine ⟨itemOf true line, rest, items_append hline rest, ?_, ?_⟩
    · rw [List.length_append, List.length_cons]
      omega
    · exact unpackLoop_of_cutLine hs true (cutLine_of_append hline rest)

end Turns

/-! ## What the loop comes to -/

/-- The bytes of an entry in the contents. -/
def Item.size : Item → ℕ
  | .entry _ len => len.toNat
  | _ => 0

/-- A line that the loop comes to: the how-manieth it is, and the contents that are left. -/
structure Turn where
  i : ℕ
  item : Item
  body : Text

section Spec

variable (answers : Answers) (place : Place)

/-- The entry is opened for writing. -/
def Turn.Opens (t : Turn) (p : Path) : Prop :=
  ∃ name len, t.item = .entry name len ∧ answers.fopen t.i name = true ∧ place.path name = p

/-- The entry is unpacked. -/
def Turn.Complete (t : Turn) : Prop :=
  ∃ name len, t.item = .entry name len ∧ answers.fopen t.i name = true ∧
    CanCopy answers t.i len t.body

/-- The entry is opened and, since its length reads as negative, unlinked again. -/
def Turn.Unlinks (t : Turn) (p : Path) : Prop :=
  ∃ name len, t.item = .entry name len ∧ answers.fopen t.i name = true ∧ len < 0 ∧
    place.path name = p

/-- The entry is opened, and its contents cannot be copied. -/
def Turn.Leaves (t : Turn) (p : Path) : Prop :=
  ∃ name len, t.item = .entry name len ∧ answers.fopen t.i name = true ∧ 0 ≤ len ∧
    ¬ CanCopy answers t.i len t.body ∧ place.path name = p

/-- Anything may happen. -/
def Turn.Faults (t : Turn) : Prop :=
  t.item = .tooMany ∨ t.Opens answers place (place.path place.file)

/-- The loop comes to a line when the lines before it are unpacked. -/
def Reached : ℕ → List Item → Text → Turn → Prop
  | _, [], _, _ => False
  | i, x :: xs, body, t =>
    t = ⟨i, x, body⟩ ∨ (⟨i, x, body⟩ : Turn).Complete answers ∧
      Reached (i + 1) xs (body.drop x.size) t

/-- What the loop leaves, by the lines that it comes to. -/
structure Describes (i : ℕ) (xs : List Item) (body : Text) (disk : Disk) (opened : List Path)
    (r : Unpacked) : Prop where
  res : r.res = 0 ↔ ∀ t, Reached answers i xs body t → t.Complete answers
  opened : ∀ p, p ∈ r.opened ↔
    p ∈ opened ∨ ∃ t, Reached answers i xs body t ∧ t.Opens answers place p
  unfinished : ∀ p, r.unfinished = some p ↔
    ∃ t, Reached answers i xs body t ∧ t.Leaves answers place p
  onDisk : ∀ p, (r.disk p).isSome ↔
    ((disk p).isSome ∨ ∃ t, Reached answers i xs body t ∧ t.Opens answers place p) ∧
      ¬ ∃ t, Reached answers i xs body t ∧ t.Unlinks answers place p

variable {answers place} {i fuel : ℕ} {x : Item} {xs : List Item} {s body name : Text} {len : ℤ}
  {disk : Disk} {opened : List Path} {t : Turn}

/-- Behind a line that is not unpacked, nothing is reached. -/
theorem reached_of_not_complete (h : ¬ (⟨i, x, body⟩ : Turn).Complete answers) :
    Reached answers i (x :: xs) body t ↔ t = ⟨i, x, body⟩ := by
  rw [Reached]
  exact or_iff_left fun hand => h hand.1

/-- What is said of an entry that is opened is said of its name and length. -/
theorem exists_entry_iff {P : Text → ℤ → Prop} (hopen : answers.fopen i name = true) :
    (∃ name' len', Item.entry name len = .entry name' len' ∧ answers.fopen i name' = true ∧
      P name' len') ↔ P name len := by
  constructor
  · rintro ⟨name', len', heq, -, hp⟩
    cases heq
    exact hp
  · exact fun hp => ⟨name, len, rfl, hopen, hp⟩

theorem opens_entry (hopen : answers.fopen i name = true) (p : Path) :
    (⟨i, .entry name len, body⟩ : Turn).Opens answers place p ↔ place.path name = p :=
  exists_entry_iff hopen

theorem complete_entry (hopen : answers.fopen i name = true) :
    (⟨i, .entry name len, body⟩ : Turn).Complete answers ↔ CanCopy answers i len body :=
  exists_entry_iff hopen

theorem unlinks_entry (hopen : answers.fopen i name = true) (p : Path) :
    (⟨i, .entry name len, body⟩ : Turn).Unlinks answers place p ↔
      len < 0 ∧ place.path name = p :=
  exists_entry_iff hopen

theorem leaves_entry (hopen : answers.fopen i name = true) (p : Path) :
    (⟨i, .entry name len, body⟩ : Turn).Leaves answers place p ↔
      0 ≤ len ∧ ¬ CanCopy answers i len body ∧ place.path name = p :=
  exists_entry_iff hopen

/-- A line at which the loop gives up. -/
theorem describes_of_not_complete {r : Unpacked} (h : ¬ (⟨i, x, body⟩ : Turn).Complete answers)
    (hres : r.res ≠ 0)
    (hopened : ∀ p, p ∈ r.opened ↔
      p ∈ opened ∨ (⟨i, x, body⟩ : Turn).Opens answers place p)
    (hunfinished : ∀ p, r.unfinished = some p ↔ (⟨i, x, body⟩ : Turn).Leaves answers place p)
    (hdisk : ∀ p, (r.disk p).isSome ↔
      ((disk p).isSome ∨ (⟨i, x, body⟩ : Turn).Opens answers place p) ∧
        ¬ (⟨i, x, body⟩ : Turn).Unlinks answers place p) :
    Describes answers place i (x :: xs) body disk opened r := by
  have hexists (P : Turn → Prop) :
      (∃ t, Reached answers i (x :: xs) body t ∧ P t) ↔ P ⟨i, x, body⟩ := by
    simp only [reached_of_not_complete h, exists_eq_left]
  constructor
  · refine ⟨fun hzero => absurd hzero hres, fun hall => ?_⟩
    exact absurd (hall _ ((reached_of_not_complete h).mpr rfl)) h
  · intro p
    rw [hexists, hopened]
  · intro p
    rw [hexists, hunfinished]
  · intro p
    rw [hexists, hexists, hdisk]

/-- **A line that is unpacked**, and the rest. -/
theorem describes_of_canCopy {r : Unpacked} {data : Text} (hopen : answers.fopen i name = true)
    (hcopy : CanCopy answers i len body)
    (h : Describes answers place (i + 1) xs (body.drop len.toNat)
      (Function.update disk (place.path name) (some data)) (opened ++ [place.path name]) r) :
    Describes answers place i (.entry name len :: xs) body disk opened r := by
  have hcomplete := (complete_entry hopen).mpr hcopy
  have hreached (t : Turn) : Reached answers i (.entry name len :: xs) body t ↔
      t = ⟨i, .entry name len, body⟩ ∨
        Reached answers (i + 1) xs (body.drop len.toNat) t := by
    rw [Reached]
    exact or_congr_right (and_iff_right hcomplete)
  have hexists (P : Turn → Prop) :
      (∃ t, Reached answers i (.entry name len :: xs) body t ∧ P t) ↔
        P ⟨i, .entry name len, body⟩ ∨
          ∃ t, Reached answers (i + 1) xs (body.drop len.toNat) t ∧ P t := by
    simp only [hreached, or_and_right, exists_or, exists_eq_left]
  constructor
  · rw [h.res]
    constructor
    · intro hall t ht
      rcases (hreached t).mp ht with rfl | ht
      · exact hcomplete
      · exact hall t ht
    · exact fun hall t ht => hall t ((hreached t).mpr (Or.inr ht))
  · intro p
    rw [hexists, h.opened, opens_entry hopen, List.mem_append, List.mem_singleton, or_assoc,
      eq_comm (a := p)]
  · intro p
    rw [hexists, h.unfinished, leaves_entry hopen, or_iff_right]
    exact fun hand => hand.2.1 hcopy
  · intro p
    have hnot : ¬ (len < 0 ∧ place.path name = p) := fun hand =>
      absurd hcopy.1 (Int.not_le.mpr hand.1)
    rw [hexists, hexists, h.onDisk, opens_entry hopen, unlinks_entry hopen, or_iff_right hnot]
    refine and_congr_left fun _ => ?_
    by_cases hp : place.path name = p
    · subst hp
      simp
    · rw [Function.update_of_ne (Ne.symm hp), or_iff_right (b := ∃ _, _) hp]

/-- The end of the list. -/
theorem describes_nil : Describes answers place i [] body disk opened ⟨0, disk, opened, none⟩ := by
  constructor <;> simp [Reached]

/-- A line that is no entry. -/
theorem describes_malformed :
    Describes answers place i (.malformed :: xs) body disk opened ⟨-1, disk, opened, none⟩ := by
  refine describes_of_not_complete nofun (show (-1 : ℤ) ≠ 0 by decide) ?_ ?_ ?_
  · exact fun p => (or_iff_left nofun).symm
  · exact fun p => ⟨nofun, nofun⟩
  · exact fun p => ((and_iff_left nofun).trans (or_iff_left nofun)).symm

/-- An entry that cannot be opened. -/
theorem describes_not_fopen (hopen : answers.fopen i name = false) :
    ¬ (⟨i, .entry name len, body⟩ : Turn).Complete answers ∧
      (∀ p, ¬ (⟨i, .entry name len, body⟩ : Turn).Opens answers place p) ∧
      Describes answers place i (.entry name len :: xs) body disk opened
        ⟨-1, disk, opened, none⟩ := by
  have habsurd {name' : Text} {len' : ℤ} (heq : Item.entry name len = .entry name' len')
      (htrue : answers.fopen i name' = true) : False := by
    cases heq
    rw [hopen] at htrue
    exact absurd htrue (by decide)
  have hcomplete : ¬ (⟨i, .entry name len, body⟩ : Turn).Complete answers :=
    fun ⟨_, _, heq, htrue, _⟩ => habsurd heq htrue
  have hopens (p : Path) : ¬ (⟨i, .entry name len, body⟩ : Turn).Opens answers place p :=
    fun ⟨_, _, heq, htrue, _⟩ => habsurd heq htrue
  have hunlinks (p : Path) : ¬ (⟨i, .entry name len, body⟩ : Turn).Unlinks answers place p :=
    fun ⟨_, _, heq, htrue, _⟩ => habsurd heq htrue
  refine ⟨hcomplete, hopens,
    describes_of_not_complete hcomplete (show (-1 : ℤ) ≠ 0 by decide) ?_ ?_ ?_⟩
  · exact fun p => (or_iff_left (hopens p)).symm
  · exact fun p => ⟨nofun, fun ⟨_, _, heq, htrue, _⟩ => (habsurd heq htrue).elim⟩
  · exact fun p => ((and_iff_left (hunlinks p)).trans (or_iff_left (hopens p))).symm

/-- What is opened is on the disk. -/
theorem isSome_update (p p' : Path) (data : Text) :
    (Function.update disk p (some data) p').isSome ↔ (disk p').isSome ∨ p = p' := by
  by_cases hp : p = p'
  · subst hp
    simp
  · rw [Function.update_of_ne (Ne.symm hp), or_iff_left hp]

/-- An entry whose length reads as negative. -/
theorem describes_neg (hopen : answers.fopen i name = true) (hneg : len < 0) :
    Describes answers place i (.entry name len :: xs) body disk opened
      ⟨-1, Function.update (Function.update disk (place.path name) (some [])) (place.path name)
        none, opened ++ [place.path name], none⟩ := by
  have hnot : ¬ (⟨i, .entry name len, body⟩ : Turn).Complete answers := fun hcomplete =>
    Int.not_le.mpr hneg ((complete_entry hopen).mp hcomplete).1
  refine describes_of_not_complete hnot (show (-1 : ℤ) ≠ 0 by decide) ?_ ?_ ?_
  · intro p
    rw [opens_entry hopen, List.mem_append, List.mem_singleton, eq_comm (a := p)]
  · intro p
    rw [leaves_entry hopen]
    exact ⟨nofun, fun h => absurd h.1 (Int.not_le.mpr hneg)⟩
  · intro p
    rw [opens_entry hopen, unlinks_entry hopen, Function.update_idem]
    by_cases hp : place.path name = p
    · simp [hp, hneg]
    · simp [Function.update_of_ne (Ne.symm hp), hp]

/-- An entry whose contents cannot be copied. -/
theorem describes_not_canCopy (data : Text) (hopen : answers.fopen i name = true) (hlen : 0 ≤ len)
    (hcopy : ¬ CanCopy answers i len body) :
    Describes answers place i (.entry name len :: xs) body disk opened
      ⟨-1, Function.update disk (place.path name) (some data), opened ++ [place.path name],
        some (place.path name)⟩ := by
  have hnot := mt (complete_entry hopen).mp hcopy
  refine describes_of_not_complete hnot (show (-1 : ℤ) ≠ 0 by decide) ?_ ?_ ?_
  · intro p
    rw [opens_entry hopen, List.mem_append, List.mem_singleton, eq_comm (a := p)]
  · intro p
    rw [leaves_entry hopen, Option.some.injEq]
    exact ⟨fun hp => ⟨hlen, hcopy, hp⟩, fun h => h.2.2⟩
  · intro p
    rw [opens_entry hopen, unlinks_entry hopen, isSome_update]
    exact (and_iff_left fun hand => absurd hlen (Int.not_le.mpr hand.1)).symm

/-- **The loop**, by the lines that it comes to. -/
theorem unpackLoop_spec (hfuel : s.length ≤ fuel) :
    ((∃ t, Reached answers i (items s) body t ∧ t.Faults answers place) ∧
      ∃ fault, unpackLoop answers place .ok fuel i s body disk opened = .error fault) ∨
    (∀ t, Reached answers i (items s) body t → ¬ t.Faults answers place) ∧
      ∃ r, unpackLoop answers place .ok fuel i s body disk opened = .ok r ∧
        Describes answers place i (items s) body disk opened r := by
  induction fuel generalizing i s body disk opened with
  | zero =>
    obtain rfl : s = [] := List.length_eq_zero_iff.mp (Nat.le_zero.mp hfuel)
    exact Or.inr ⟨nofun, _, rfl, describes_nil⟩
  | succ fuel ih =>
    by_cases hs : s = []
    · subst hs
      exact Or.inr ⟨nofun, _, rfl, describes_nil⟩
    obtain ⟨x, rest, hitems, hlen, hturn⟩ :=
      @unpackLoop_cons answers place .ok fuel i s body disk opened hs
    rw [hitems, hturn]
    -- a line at which the loop stops is the only one that matters
    have hstop {r : Unpacked} (hcomplete : ¬ (⟨i, x, body⟩ : Turn).Complete answers)
        (hfine : ¬ (⟨i, x, body⟩ : Turn).Faults answers place)
        (hok : turnOf answers place .ok fuel i body disk opened x rest = .ok r)
        (hr : Describes answers place i (x :: items rest) body disk opened r) :
        (∀ t, Reached answers i (x :: items rest) body t → ¬ t.Faults answers place) ∧
          ∃ r, turnOf answers place .ok fuel i body disk opened x rest = .ok r ∧
            Describes answers place i (x :: items rest) body disk opened r := by
      refine ⟨fun t ht => ?_, r, hok, hr⟩
      rwa [(reached_of_not_complete hcomplete).mp ht]
    cases x with
    | tooMany => exact Or.inl ⟨⟨_, Or.inl rfl, Or.inl rfl⟩, _, rfl⟩
    | malformed => exact Or.inr (hstop nofun nofun rfl describes_malformed)
    | entry name len =>
      by_cases hopen : answers.fopen i name = true
      · by_cases hfile : place.path name = place.path place.file
        · refine Or.inl ⟨⟨_, Or.inl rfl, Or.inr ((opens_entry hopen _).mpr hfile)⟩, .clobber, ?_⟩
          rw [turnOf, unpackEntry_of_eq rfl hopen hfile]
          rfl
        have hfine : ¬ (⟨i, .entry name len, body⟩ : Turn).Faults answers place := by
          rintro (heq | hopens)
          · cases heq
          · exact hfile ((opens_entry hopen _).mp hopens)
        by_cases hcopy : CanCopy answers i len body
        · rw [turnOf, unpackEntry_of_canCopy rfl hopen hfile hcopy]
          have hcomplete := (complete_entry hopen).mpr hcopy
          rcases @ih (i + 1) rest (body.drop len.toNat)
            (Function.update disk (place.path name) (some (body.take len.toNat)))
            (opened ++ [place.path name]) (by omega) with
            ⟨⟨t, ht, hfault⟩, fault, herr⟩ | ⟨hall, r, hok, hr⟩
          · exact Or.inl ⟨⟨t, Or.inr ⟨hcomplete, ht⟩, hfault⟩, fault, herr⟩
          · refine Or.inr ⟨?_, r, hok, describes_of_canCopy hopen hcopy hr⟩
            rintro t (rfl | ⟨-, ht⟩)
            · exact hfine
            · exact hall t ht
        · have hnot := mt (complete_entry hopen).mp hcopy
          by_cases hneg : len < 0
          · refine Or.inr (hstop hnot hfine ?_ (describes_neg hopen hneg))
            rw [turnOf, unpackEntry_of_neg rfl hopen hfile hneg]
            rfl
          · obtain ⟨data, hentry⟩ := @unpackEntry_of_not_canCopy answers place .ok i name name len
              body disk opened rfl hopen hfile (Int.not_lt.mp hneg) hcopy
            refine Or.inr (hstop hnot hfine ?_
              (describes_not_canCopy data hopen (Int.not_lt.mp hneg) hcopy))
            rw [turnOf, hentry]
            rfl
      · rw [Bool.not_eq_true] at hopen
        obtain ⟨hcomplete, hopens, hr⟩ :=
          @describes_not_fopen answers place i (items rest) body name len disk opened hopen
        refine Or.inr (hstop hcomplete ?_ ?_ hr)
        · rintro (heq | hfault)
          · cases heq
          · exact hopens _ hfault
        · rw [turnOf, unpackEntry_of_not_fopen rfl hopen]
          rfl

end Spec

/-! ## Numbers -/

section Numbers

variable {s l : Text}

theorem le_clampInt (n : ℤ) : -2 ^ 31 ≤ clampInt n := Int.le_max_left _ _

theorem le_atoi (s : Text) : -2 ^ 31 ≤ atoi s := by
  rw [atoi]
  split <;> exact le_clampInt _

/-- What is read as a negative number: a minus sign, zeros and another digit. -/
def SpellsNegative (s : Text) : Prop :=
  ∃ zeros c l, s.dropWhile isspace = 45 :: (zeros ++ c :: l) ∧ (∀ z ∈ zeros, z = 48) ∧
    c ≠ 48 ∧ isdigit c = true

theorem le_digitsFold (l : Text) (n : ℕ) :
    n ≤ l.foldl (fun n c => 10 * n + (c.toNat - 48)) n := by
  induction l generalizing n with
  | nil => exact le_rfl
  | cons c l ih => exact le_trans (by omega) (ih (10 * n + (c.toNat - 48)))

/-- Digits spell more than nothing when one of them does. -/
theorem digitsValue_pos_iff (l : Text) : 0 < digitsValue (l.takeWhile isdigit) ↔
    ∃ zeros c l', l = zeros ++ c :: l' ∧ (∀ z ∈ zeros, z = 48) ∧ c ≠ 48 ∧ isdigit c = true := by
  induction l with
  | nil =>
    refine iff_of_false (Nat.lt_irrefl 0) ?_
    rintro ⟨zeros, c, l', h, -⟩
    exact absurd h.symm (by simp)
  | cons b l ih =>
    by_cases hb : b = 48
    · subst hb
      have hcons : digitsValue (List.takeWhile isdigit (48 :: l)) =
          digitsValue (l.takeWhile isdigit) := rfl
      rw [hcons, ih]
      constructor
      · rintro ⟨zeros, c, l', rfl, hzeros, hc⟩
        exact ⟨48 :: zeros, c, l', rfl, List.forall_mem_cons.mpr ⟨rfl, hzeros⟩, hc⟩
      · rintro ⟨_ | ⟨z, zeros⟩, c, l', h, hzeros, hc, hdigit⟩
        · exact absurd (List.cons.inj h).1.symm hc
        · exact ⟨zeros, c, l', (List.cons.inj h).2, (List.forall_mem_cons.mp hzeros).2, hc, hdigit⟩
    · by_cases hdigit : isdigit b = true
      · refine iff_of_true ?_ ⟨[], b, l, rfl, List.forall_mem_nil _, hb, hdigit⟩
        rw [List.takeWhile_cons_of_pos hdigit]
        refine lt_of_lt_of_le ?_ (le_digitsFold (l.takeWhile isdigit) (10 * 0 + (b.toNat - 48)))
        rw [isdigit, Bool.and_eq_true, decide_eq_true_iff, UInt8.le_iff_toNat_le] at hdigit
        have hne : b.toNat ≠ 48 := fun h => hb (UInt8.toNat_inj.mp h)
        have hle : 48 ≤ b.toNat := hdigit.1
        omega
      · rw [List.takeWhile_cons_of_neg hdigit]
        refine iff_of_false (Nat.lt_irrefl 0) ?_
        rintro ⟨_ | ⟨z, zeros⟩, c, l', h, hzeros, hc, hdigit'⟩
        · exact hdigit ((List.cons.inj h).1 ▸ hdigit')
        · exact hb ((List.cons.inj h).1.trans (hzeros z List.mem_cons_self))

/-- **When `atoi` is negative.** -/
theorem atoi_neg_iff (s : Text) : atoi s < 0 ↔ SpellsNegative s := by
  rw [atoi, SpellsNegative]
  dsimp only
  split
  · rename_i l hl
    have hneg : clampInt (-(digitsValue (l.takeWhile isdigit) : ℤ)) < 0 ↔
        0 < digitsValue (l.takeWhile isdigit) := by
      rw [clampInt]
      omega
    rw [hneg, digitsValue_pos_iff]
    constructor
    · rintro ⟨zeros, c, l', rfl, h⟩
      exact ⟨zeros, c, l', hl, h⟩
    · rintro ⟨zeros, c, l', heq, h⟩
      exact ⟨zeros, c, l', (List.cons.inj (hl.symm.trans heq)).2, h⟩
  · rename_i l hl
    refine iff_of_false (not_lt_of_ge (le_max_of_le_right (by omega))) ?_
    rintro ⟨zeros, c, l', heq, -⟩
    exact absurd (List.cons.inj (hl.symm.trans heq)).1 (by decide)
  · rename_i hminus _
    refine iff_of_false (not_lt_of_ge (le_max_of_le_right (by omega))) ?_
    rintro ⟨zeros, c, l', heq, -⟩
    exact hminus _ heq

/-- `atoi` stops at the NUL, if not before it. -/
theorem atoi_cstr (s : Text) : atoi (cstr s) = atoi s := by
  have hspace : (cstr s).dropWhile isspace = cstr (s.dropWhile isspace) := by
    induction s with
    | nil => rfl
    | cons c s ih =>
      by_cases hc : isspace c = true
      · have hne : c ≠ 0 := by
          rintro rfl
          exact absurd hc (by decide)
        rw [cstr, List.takeWhile_cons_of_pos (by simpa using hne), List.dropWhile_cons_of_pos hc,
          List.dropWhile_cons_of_pos hc]
        exact ih
      · rw [List.dropWhile_cons_of_neg hc, cstr, List.takeWhile_cons]
        split
        · exact List.dropWhile_cons_of_neg hc
        · rfl
  have hdigits (l : Text) : (cstr l).takeWhile isdigit = l.takeWhile isdigit := by
    rw [cstr, List.takeWhile_takeWhile]
    congr 1
    funext c
    by_cases hc : isdigit c = true
    · have hne : c ≠ 0 := by
        rintro rfl
        exact absurd hc (by decide)
      simp [hc, hne]
    · simp [hc]
  rw [atoi, atoi, hspace]
  dsimp only
  cases s.dropWhile isspace with
  | nil => rfl
  | cons c l =>
    by_cases hzero : c = 0
    · subst hzero
      rfl
    · have hcons : cstr (c :: l) = c :: cstr l :=
        List.takeWhile_cons_of_pos (by simpa using hzero)
      by_cases hminus : c = 45
      · subst hminus
        rw [hcons]
        exact congrArg (fun d : Text => clampInt (-(digitsValue d : ℤ))) (hdigits l)
      · by_cases hplus : c = 43
        · subst hplus
          rw [hcons]
          exact congrArg (fun d : Text => clampInt (digitsValue d)) (hdigits l)
        · rw [hcons]
          split
          · rename_i heq
            exact absurd (List.cons.inj heq).1 hminus
          · rename_i heq
            exact absurd (List.cons.inj heq).1 hplus
          · split
            · rename_i heq
              exact absurd (List.cons.inj heq).1 hminus
            · rename_i heq
              exact absurd (List.cons.inj heq).1 hplus
            · rw [← hcons, hdigits]

end Numbers

/-! ## The header -/

section Header

variable {answers : Answers} {content l body : Text}

/-- The length of the list, as it is read. -/
def hdrlen (content : Text) : ℤ := atoi ((content.drop 4).take 4)

theorem sizeT_of_nonneg {n : ℤ} (h : 0 ≤ n) (hle : n ≤ unpackMemMaxlen) : sizeT n = n.toNat := by
  have hmax : unpackMemMaxlen = 4096 := rfl
  rw [sizeT]
  omega

/-- A negative length becomes a large one. -/
theorem le_sizeT_of_neg {n : ℤ} (h : n < 0) (hle : -2 ^ 31 ≤ n) : 2 ^ 31 ≤ sizeT n := by
  rw [sizeT]
  omega

/-- What a header is that can be read. -/
structure HeaderRead (answers : Answers) (content l body : Text) : Prop where
  length_le : 8 ≤ content.length
  malloc : answers.malloc = true
  nonneg : 0 ≤ hdrlen content
  le_max : hdrlen content ≤ unpackMemMaxlen
  enough : hdrlen content ≤ (content.drop 8).length
  list_eq : l = (content.drop 8).take (hdrlen content).toNat
  body_eq : body = (content.drop 8).drop (hdrlen content).toNat

/-- A header with a negative length, and so much behind it that it does not fit. -/
def HeaderFaults (answers : Answers) (content : Text) : Prop :=
  8 ≤ content.length ∧ answers.malloc = true ∧ hdrlen content < 0 ∧
    unpackMemMaxlen < (content.drop 8).length

/-- **The header.** -/
theorem readHeader_cases (answers : Answers) (content : Text) :
    HeaderFaults answers content ∧ readHeader answers content = .error .overflow ∨
    ¬ HeaderFaults answers content ∧
      (readHeader answers content = .ok none ∧ (∀ l body, ¬ HeaderRead answers content l body) ∨
        ∃ l body, readHeader answers content = .ok (some (l, body)) ∧
          HeaderRead answers content l body) := by
  have hneg := le_atoi ((content.drop 4).take 4)
  rw [← hdrlen] at hneg
  have hmax : unpackMemMaxlen = 4096 := rfl
  rw [readHeader, ← hdrlen]
  dsimp only
  by_cases hshort : content.length < 8
  · rw [if_pos hshort]
    refine Or.inr ⟨fun h => absurd h.1 (Nat.not_le.mpr hshort), Or.inl ⟨rfl, fun l body h => ?_⟩⟩
    exact absurd h.length_le (Nat.not_le.mpr hshort)
  rw [if_neg hshort]
  by_cases hlong : hdrlen content > unpackMemMaxlen
  · rw [if_pos hlong]
    refine Or.inr ⟨fun h => ?_, Or.inl ⟨rfl, fun l body h => ?_⟩⟩
    · have := h.2.2.1
      omega
    · exact absurd h.le_max (Int.not_le.mpr hlong)
  rw [if_neg hlong]
  by_cases hmalloc : answers.malloc = true
  swap
  · rw [Bool.not_eq_true] at hmalloc
    rw [hmalloc]
    refine Or.inr ⟨fun h => ?_, Or.inl ⟨rfl, fun l body h => ?_⟩⟩
    · exact absurd (hmalloc.symm.trans h.2.1) (by decide)
    · exact absurd (hmalloc.symm.trans h.malloc) (by decide)
  rw [hmalloc, if_neg (by decide)]
  by_cases hsign : hdrlen content < 0
  · have hsize := le_sizeT_of_neg hsign hneg
    by_cases hfits : unpackMemMaxlen < (content.drop 8).length
    · rw [if_pos (by omega)]
      exact Or.inl ⟨⟨Nat.not_lt.mp hshort, hmalloc, hsign, hfits⟩, rfl⟩
    · rw [if_neg (by omega), if_pos (by omega)]
      refine Or.inr ⟨fun h => hfits h.2.2.2, Or.inl ⟨rfl, fun l body h => ?_⟩⟩
      exact absurd h.nonneg (Int.not_le.mpr hsign)
  · have hsize := sizeT_of_nonneg (Int.not_lt.mp hsign) (Int.not_lt.mp hlong)
    rw [if_neg (by omega), hsize]
    refine Or.inr ⟨fun h => hsign h.2.2.1, ?_⟩
    by_cases hfew : (content.drop 8).length < (hdrlen content).toNat
    · rw [if_pos hfew]
      refine Or.inl ⟨rfl, fun l body h => ?_⟩
      have := h.enough
      omega
    · rw [if_neg hfew]
      exact Or.inr ⟨_, _, rfl, Nat.not_lt.mp hshort, hmalloc, Int.not_lt.mp hsign,
        Int.not_lt.mp hlong,
        by omega, rfl, rfl⟩

/-- A header that can be read is. -/
theorem readHeader_of_headerRead (h : HeaderRead answers content l body) :
    readHeader answers content = .ok (some (l, body)) := by
  rcases readHeader_cases answers content with
    ⟨hfaults, -⟩ | ⟨-, ⟨-, hnot⟩ | ⟨l', body', hsome, h'⟩⟩
  · exact absurd h.nonneg (Int.not_le.mpr hfaults.2.2.1)
  · exact absurd h (hnot l body)
  · rw [hsome, h.list_eq, h.body_eq, h'.list_eq, h'.body_eq]

end Header

/-! ## The function -/

section Whole

variable {answers : Answers} {place : Place} {content : Text} {disk : Disk}

/-- The loop comes to a line of this package. -/
def CameTo (answers : Answers) (content : Text) (t : Turn) : Prop :=
  ∃ l body, HeaderRead answers content l body ∧ Reached answers 0 (items l) body t

/-- Anything may happen. -/
def Faulty (answers : Answers) (place : Place) (content : Text) : Prop :=
  HeaderFaults answers content ∨ ∃ t, CameTo answers content t ∧ t.Faults answers place

/-- A header says which list it is. -/
theorem cameTo_iff {l body : Text} (h : HeaderRead answers content l body) (t : Turn) :
    CameTo answers content t ↔ Reached answers 0 (items l) body t := by
  constructor
  · rintro ⟨l', body', h', ht⟩
    rwa [h.list_eq, h.body_eq, ← h'.list_eq, ← h'.body_eq]
  · exact fun ht => ⟨l, body, h, ht⟩

/-- **`install_unpack_file`**, by the lines that it comes to. -/
theorem installUnpackFile_spec (answers : Answers)
    (hfile : disk (place.path place.file) = some content) :
    (Faulty answers place content ∧
      ∃ fault, installUnpackFile answers place disk = .error fault) ∨
    ¬ Faulty answers place content ∧ ∃ r, installUnpackFile answers place disk = .ok r ∧
      ((∀ l body, ¬ HeaderRead answers content l body) ∧ r = ⟨-1, disk, [], none⟩ ∨
        ∃ l body, HeaderRead answers content l body ∧
          Describes answers place 0 (items l) body disk [] r) := by
  rw [installUnpackFile, unpackWith, hfile]
  dsimp only
  rcases readHeader_cases answers content with
    ⟨hfaults, herr⟩ | ⟨hfine, ⟨hnone, hnot⟩ | ⟨l, body, hsome, hread⟩⟩
  · rw [herr]
    exact Or.inl ⟨Or.inl hfaults, _, rfl⟩
  · rw [hnone]
    refine Or.inr ⟨?_, _, rfl, Or.inl ⟨hnot, rfl⟩⟩
    rintro (hfaults | ⟨t, ⟨l, body, hread, -⟩, -⟩)
    · exact hfine hfaults
    · exact hnot l body hread
  · rw [hsome]
    rcases @unpackLoop_spec answers place 0 l.length l body disk [] (le_refl l.length) with
      ⟨⟨t, ht, hfaults⟩, fault, herr⟩ | ⟨hall, r, hok, hr⟩
    · exact Or.inl ⟨Or.inr ⟨t, ⟨l, body, hread, ht⟩, hfaults⟩, fault, herr⟩
    · refine Or.inr ⟨?_, r, hok, Or.inr ⟨l, body, hread, hr⟩⟩
      rintro (hfaults | ⟨t, ht, hfaults⟩)
      · exact hfine hfaults
      · exact hall t ((cameTo_iff hread t).mp ht) hfaults

end Whole

end Ltm

end Tqos
