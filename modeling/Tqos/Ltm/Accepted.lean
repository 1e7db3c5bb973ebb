import Tqos.Ltm.Package

/-!
# Which packages are accepted

The four bytes of the magic are never looked at, the length of the list is what `atoi` makes of four
bytes, blanks between tokens do not count, the length of an entry is what `atoi` makes of a token,
and a name may be anything. So what is accepted is more than what the packer writes, and a name can
lead out of the directory.

## Main results

* `installUnpackFile_accepts` — exactly what is accepted, and what is opened
* `loosePackage_accepted` — a package that nothing of the format is true of
-/

namespace Tqos

namespace Ltm

/-! ## Doing all that the list says -/

section Accepting

variable {answers : Answers} {place : Place} {content l body : Text} {disk : Disk} {i : ℕ}
  {xs : List Item}

/-- A line is an entry that can be opened and written, when there are the contents. -/
def Item.Good (answers : Answers) (i : ℕ) (x : Item) : Prop :=
  ∃ name len, x = .entry name len ∧ answers.fopen i name = true ∧ 0 ≤ len ∧
    ∀ k : ℕ, 512 * k < len → answers.fwrite i k = true

/-- Every line is such an entry, and there are as many bytes as they are to have. -/
def AllGood (answers : Answers) (i : ℕ) (xs : List Item) (body : Text) : Prop :=
  (∀ (j : ℕ) (x : Item), xs[j]? = some x → x.Good answers (i + j)) ∧
    (xs.map Item.size).sum ≤ body.length

/-- An entry is unpacked if it is good and there are as many bytes. -/
theorem complete_iff {x : Item} :
    (⟨i, x, body⟩ : Turn).Complete answers ↔ x.Good answers i ∧ x.size ≤ body.length := by
  constructor
  · rintro ⟨name, len, rfl, hopen, hlen, hle, hwrite⟩
    refine ⟨⟨name, len, rfl, hopen, hlen, hwrite⟩, ?_⟩
    have hbody : len ≤ body.length := hle
    show len.toNat ≤ body.length
    omega
  · rintro ⟨⟨name, len, rfl, hopen, hlen, hwrite⟩, hle⟩
    have hsize : len.toNat ≤ body.length := hle
    have hbody : len ≤ body.length := by omega
    exact ⟨name, len, rfl, hopen, hlen, hbody, hwrite⟩

theorem allGood_cons {x : Item} :
    AllGood answers i (x :: xs) body ↔
      (x.Good answers i ∧ x.size ≤ body.length) ∧
        AllGood answers (i + 1) xs (body.drop x.size) := by
  rw [AllGood, AllGood, List.map_cons, List.sum_cons, List.length_drop]
  constructor
  · rintro ⟨hall, hsum⟩
    refine ⟨⟨hall 0 x rfl, by omega⟩, fun j y hy => ?_, by omega⟩
    rw [Nat.add_assoc, Nat.add_comm 1]
    exact hall (j + 1) y hy
  · rintro ⟨⟨hx, hsize⟩, hall, hsum⟩
    refine ⟨fun j y hy => ?_, by omega⟩
    cases j with
    | zero =>
      cases hy
      exact hx
    | succ j =>
      rw [Nat.add_comm j, ← Nat.add_assoc]
      exact hall j y hy

/-- **Everything is unpacked** when every line is good and there are the contents. -/
theorem forall_complete_iff :
    (∀ t, Reached answers i xs body t → t.Complete answers) ↔ AllGood answers i xs body := by
  induction xs generalizing i body with
  | nil => exact ⟨fun _ => ⟨nofun, Nat.zero_le _⟩, fun _ => nofun⟩
  | cons x xs ih =>
    rw [allGood_cons, ← ih, ← complete_iff]
    constructor
    · intro hall
      have hx := hall _ (Or.inl rfl)
      exact ⟨hx, fun t ht => hall t (Or.inr ⟨hx, ht⟩)⟩
    · rintro ⟨hx, hall⟩ t (rfl | ⟨-, ht⟩)
      · exact hx
      · exact hall t ht

/-! ## Lines of two tokens -/

/-- A line of a name and a length, that can be opened and written. -/
def LineGood (answers : Answers) (i : ℕ) (line : Text) : Prop :=
  ∃ name len, tokens 32 line = [name, len] ∧ answers.fopen i (cstr name) = true ∧ 0 ≤ atoi len ∧
    ∀ k : ℕ, 512 * k < atoi len → answers.fwrite i k = true

/-- The bytes that a line is to have in the contents. -/
def lineSize (line : Text) : ℕ := (itemOf true line).size

/-- Lines that have ended. -/
def unlines (lines : List Text) : Text := lines.flatMap fun line => line ++ [59]

theorem good_itemOf {line : Text} :
    (itemOf true line).Good answers i ↔ LineGood answers i line := by
  constructor
  · rintro ⟨name, len, heq, hrest⟩
    rw [itemOf] at heq
    split at heq
    · rename_i name' len' htoks
      cases heq
      exact ⟨name', len', htoks, hrest⟩
    · split at heq <;> cases heq
  · rintro ⟨name, len, htoks, hrest⟩
    refine ⟨cstr name, atoi len, ?_, hrest⟩
    rw [itemOf, htoks]
    rfl

theorem items_unlines {lines : List Text} (h : ∀ line ∈ lines, 59 ∉ line) :
    items (unlines lines) = lines.map (itemOf true) := by
  induction lines with
  | nil => rfl
  | cons line lines ih =>
    obtain ⟨hline, hlines⟩ := List.forall_mem_cons.mp h
    have heq : unlines (line :: lines) = line ++ 59 :: unlines lines := by
      rw [unlines, List.flatMap_cons, List.append_assoc]
      rfl
    rw [heq, items_append hline, ih hlines, List.map_cons]

/-- A list all of whose lines are entries is made of lines that have ended. -/
theorem exists_lines (h : ∀ x ∈ items l, ∃ name len, x = .entry name len) :
    ∃ lines, l = unlines lines ∧ ∀ line ∈ lines, 59 ∉ line := by
  induction hn : l.length using Nat.strong_induction_on generalizing l with
  | _ n ih =>
    rcases line_cases 59 l with hnot | ⟨line, rest, hline, rfl⟩
    · by_cases hl : l = []
      · exact ⟨[], hl, List.forall_mem_nil _⟩
      · rw [items_of_notMem hnot hl] at h
        obtain ⟨name, len, heq⟩ := h _ List.mem_cons_self
        rw [itemOf] at heq
        split at heq
        · cases heq
        · split at heq <;> cases heq
    · rw [items_append hline] at h
      have hlt : rest.length < n := by
        rw [← hn, List.length_append, List.length_cons]
        omega
      obtain ⟨lines, rfl, hlines⟩ := ih _ hlt (fun x hx => h x (List.mem_cons_of_mem _ hx)) rfl
      refine ⟨line :: lines, ?_, List.forall_mem_cons.mpr ⟨hline, hlines⟩⟩
      rw [unlines, unlines, List.flatMap_cons, List.append_assoc]
      rfl

/-- What is accepted: the header can be read, the list is made of lines of a name and a length, all
of which can be opened and written, and there are as many bytes as they are to have. -/
structure Accepted (answers : Answers) (content l body : Text) (lines : List Text) : Prop where
  header : HeaderRead answers content l body
  list_eq : l = unlines lines
  ended : ∀ line ∈ lines, 59 ∉ line
  good : ∀ (j : ℕ) (line : Text), lines[j]? = some line → LineGood answers j line
  enough : (lines.map lineSize).sum ≤ body.length

/-- **Everything is unpacked** exactly of what is accepted. -/
theorem exists_accepted_iff (h : HeaderRead answers content l body) :
    AllGood answers 0 (items l) body ↔ ∃ lines, Accepted answers content l body lines := by
  constructor
  · rintro ⟨hall, hsum⟩
    obtain ⟨lines, rfl, hended⟩ := exists_lines fun x hx => by
      obtain ⟨j, hj, rfl⟩ := List.getElem_of_mem hx
      obtain ⟨name, len, heq, -⟩ := hall j _ (List.getElem?_eq_getElem hj)
      exact ⟨name, len, heq⟩
    rw [items_unlines hended] at hall hsum
    refine ⟨lines, h, rfl, hended, fun j line hline => ?_, ?_⟩
    · refine good_itemOf.mp ?_
      have hgood := hall j (itemOf true line) (by rw [List.getElem?_map, hline]; rfl)
      rwa [Nat.zero_add] at hgood
    · rw [List.map_map] at hsum
      exact hsum
  · rintro ⟨lines, -, rfl, hended, hgood, hsum⟩
    rw [items_unlines hended]
    refine ⟨fun j x hx => ?_, ?_⟩
    · rw [List.getElem?_map] at hx
      obtain ⟨line, hline, rfl⟩ := Option.map_eq_some_iff.mp hx
      rw [Nat.zero_add]
      exact good_itemOf.mpr (hgood j line hline)
    · rw [List.map_map]
      exact hsum

end Accepting

/-! ## Accepted and opened -/

/-- **What is accepted and what is opened.** Unless an entry has a third token, the package itself
is opened, or the length in the header is negative and there is more behind it than there is room
for, `install_unpack_file` returns 0 only for what is accepted; and what it opens for writing are
the paths of names of the list, which stay in the directory if they have one component. -/
theorem installUnpackFile_accepts (answers : Answers) (place : Place) (disk : Disk)
    (content : Text) (hfile : disk (place.path place.file) = some content) :
    (Faulty answers place content ∧
      ∃ fault, installUnpackFile answers place disk = .error fault) ∨
    ∃ r, installUnpackFile answers place disk = .ok r ∧
      (r.res = 0 → ∃ l body lines, Accepted answers content l body lines) ∧
      ∀ p ∈ r.opened, ∃ t name len, CameTo answers content t ∧ t.item = .entry name len ∧
        place.path name = p ∧ (Paths.Simple marks name → Paths.Below place.cwd p) := by
  rcases installUnpackFile_spec answers hfile with
    ⟨hfaulty, herr⟩ | ⟨-, r, hok, ⟨-, rfl⟩ | ⟨l, body, hread, hr⟩⟩
  · exact Or.inl ⟨hfaulty, herr⟩
  · refine Or.inr ⟨_, hok, fun hzero => ?_, List.forall_mem_nil _⟩
    exact absurd hzero (show ¬ (-1 : ℤ) = 0 by decide)
  · refine Or.inr ⟨r, hok, fun hzero => ?_, fun p hp => ?_⟩
    · have hgood := forall_complete_iff.mp (hr.res.mp hzero)
      obtain ⟨lines, haccepted⟩ := (exists_accepted_iff hread).mp hgood
      exact ⟨l, body, lines, haccepted⟩
    · obtain ⟨t, ht, name, len, hitem, -, rfl⟩ :=
        ((hr.opened p).mp hp).resolve_left List.not_mem_nil
      exact ⟨t, name, len, (cameTo_iff hread t).mpr ht, hitem, rfl, Paths.below_resolve_of_simple⟩

/-! ### The format -/

/-- The magic of the packer. -/
def magic : Text := ascii ['w', 'w', 'c', 'x']

/-- An entry as the packer writes it. -/
def entryText (name digits : Text) : Text := name ++ 32 :: digits ++ [59]

/-- The format of a package. -/
def WellFormed (content : Text) : Prop :=
  ∃ (digits : Text) (entries : List (Text × Text)) (body : Text),
    content = magic ++ digits ++ entries.flatMap (fun e => entryText e.1 e.2) ++ body ∧
    digits.length = 4 ∧ (∀ c ∈ digits, isdigit c = true) ∧
    digitsValue digits = (entries.flatMap fun e => entryText e.1 e.2).length ∧
    digitsValue digits ≤ unpackMemMaxlen ∧
    (∀ e ∈ entries, Paths.Simple marks e.1 ∧ e.2 ≠ [] ∧ ∀ c ∈ e.2, isdigit c = true) ∧
    (entries.map fun e => digitsValue e.2).sum ≤ body.length

/-- No magic, a length that is not four digits, blanks, and a name that leads out. -/
def loosePackage : Text :=
  ascii ['a', 'b', 'c', 'd', '+', '0', '1', '1', ' ', '.', '.', '/', 'x', ' ', ' ', '0', 'z',
    'z', ';']

/-- A system that lets everything be done. -/
def allowing : Answers := ⟨true, fun _ _ => true, fun _ _ => true⟩

/-- The directory of the updater, with a package. -/
def updating : Place := ⟨[ascii ['t', 'm', 'p'], ascii ['L', 'T', 'i', 'n', 's', 't']], ascii ['p']⟩

/-- A disk with one package, where the updater is. -/
def withPackage (content : Text) : Disk :=
  Function.update (fun _ => none) (updating.path updating.file) (some content)

/-- **Nothing of the format holds of this package**, which is accepted and writes to another
directory. -/
theorem loosePackage_accepted : ¬ WellFormed loosePackage ∧ loosePackage.take 4 ≠ magic ∧
    (¬ ∀ c ∈ (loosePackage.drop 4).take 4, isdigit c = true) ∧
    (∃ line name len, cutLine 59 (loosePackage.drop 8) = (line, some []) ∧
      tokens 32 line = [name, len] ∧ line ≠ name ++ 32 :: len ∧ ¬ Paths.Simple marks name ∧
      ¬ ∀ c ∈ len, isdigit c = true) ∧
    ∃ r, installUnpackFile allowing updating (withPackage loosePackage) = .ok r ∧ r.res = 0 ∧
      ∃ p ∈ r.opened, ¬ Paths.Below updating.cwd p := by
  have hmagic : loosePackage.take 4 ≠ magic := by decide
  refine ⟨?_, hmagic, fun h => ?_, ⟨_, _, _, rfl, rfl, by decide, by decide, fun h => ?_⟩,
    _, rfl, rfl, _, List.mem_cons_self, by decide⟩
  · rintro ⟨digits, entries, body, heq, -⟩
    refine hmagic ?_
    rw [heq, List.append_assoc, List.append_assoc]
    rfl
  · exact absurd (h 43 List.mem_cons_self) (by decide)
  · exact absurd (h 122 (List.mem_cons_of_mem _ List.mem_cons_self)) (by decide)

theorem loosePackage_accepts : ∃ p ∈ [[ascii ['t', 'm', 'p'], ascii ['x']]], ∃ t name len,
    CameTo allowing loosePackage t ∧ t.item = .entry name len ∧ updating.path name = p := by
  have hfile : withPackage loosePackage (updating.path updating.file) = some loosePackage :=
    Function.update_self ..
  rcases installUnpackFile_accepts allowing updating _ loosePackage hfile with
    ⟨-, fault, herr⟩ | ⟨r, hok, -, hopened⟩
  · cases herr
  · cases hok
    obtain ⟨t, name, len, hcame, hitem, hpath, -⟩ := hopened _ List.mem_cons_self
    exact ⟨_, List.mem_cons_self, t, name, len, hcame, hitem, hpath⟩

end Ltm

end Tqos
