import Tqos.Ltm.Accepted

/-!
# Installing

`tianyepiao_gogogo` unpacks a package, runs the scripts that it finds in the directory and removes
what is there, whatever unpacking has returned. The shell expands `*` to the names that do not begin
with a dot. It gets names without quotes, so what it makes of one with blanks or wildcards, or of
one that begins with `-`, is a parameter. Scripts are described as long as those before them leave
the files alone.

## Main results

* `failsCleanly_iff` — when a failed update leaves nothing
* `brokenPackage_runs` — a package that is cut short, and whose script is run
-/

namespace Tqos

namespace Ltm

/-- What the shell makes of names. -/
structure Shell where
  /-- `$file` is the file itself. -/
  takes : Text → Bool
  /-- `rm -rf *` removes it. -/
  removes : Text → Bool

/-- `*` has the name. -/
def visible (name : Text) : Bool := name.head? != some 46

/-- `.inst` -/
def inst : Text := ascii ['.', 'i', 'n', 's', 't']

/-- `start_shell` comes to run the file. -/
def startShell (sh : Shell) (cwd : Path) (disk : Disk) (name : Text) : Bool :=
  (disk (cwd ++ [name])).isSome && visible name && sh.takes name && inst.isSuffixOf name

/-- `rm -rf *`. -/
def rmAll (sh : Shell) (cwd : Path) (disk : Disk) : Disk := fun p =>
  if cwd.isPrefixOf p then
    match p.drop cwd.length with
    | [] => disk p
    | name :: _ => if visible name && sh.removes name then none else disk p
  else disk p

/-- What an update leaves. -/
structure Installed where
  res : ℤ
  /-- Whether a file is run. -/
  runs : Text → Bool
  disk : Disk

/-- `tianyepiao_gogogo`, with `install_execute_shell`. -/
def tianyepiaoGogogo (answers : Answers) (sh : Shell) (place : Place) (disk : Disk) :
    Except Fault Installed := do
  let r ← installUnpackFile answers place disk
  pure ⟨r.res, startShell sh place.cwd r.disk, rmAll sh place.cwd r.disk⟩

/-- **A failed update has no effect**: none of the scripts that were unpacked is run, and no file is
left that was not finished. -/
def FailsCleanly (answers : Answers) (sh : Shell) (place : Place) (disk : Disk) : Prop :=
  ∃ r g, installUnpackFile answers place disk = .ok r ∧
    tianyepiaoGogogo answers sh place disk = .ok g ∧
    (g.res ≠ 0 → (∀ name, place.cwd ++ [name] ∈ r.opened → g.runs name = false) ∧
      ∀ p, r.unfinished = some p → g.disk p = none)

/-- `rm -rf *` comes to the path. -/
def Removed (sh : Shell) (cwd : Path) (p : Path) : Prop :=
  ∃ name rest, p = cwd ++ name :: rest ∧ visible name = true ∧ sh.removes name = true

/-- A script that would be run. -/
def IsScript (sh : Shell) (name : Text) : Prop :=
  visible name = true ∧ sh.takes name = true ∧ inst <:+ name

/-- When a failed update has no effect: everything can be unpacked, or else the list does not come
to a script, unless it is unlinked again, and the entry it stops at is one that is removed. -/
def FailsCleanlyWhen (answers : Answers) (sh : Shell) (place : Place) (content : Text) : Prop :=
  ¬ Faulty answers place content ∧
    ((∃ l body lines, Accepted answers content l body lines) ∨
      (∀ t name, CameTo answers content t → t.Opens answers place (place.cwd ++ [name]) →
        IsScript sh name →
        ∃ t', CameTo answers content t' ∧ t'.Unlinks answers place (place.cwd ++ [name])) ∧
      ∀ t p, CameTo answers content t → t.Leaves answers place p → Removed sh place.cwd p)

section Spec

variable {answers : Answers} {sh : Shell} {place : Place} {content : Text} {disk : Disk}
  {cwd p : Path} {name : Text}

theorem startShell_iff :
    startShell sh cwd disk name = true ↔ (disk (cwd ++ [name])).isSome ∧ IsScript sh name := by
  rw [startShell, Bool.and_eq_true, Bool.and_eq_true, Bool.and_eq_true, List.isSuffixOf_iff_suffix,
    and_assoc, and_assoc]
  rfl

/-- What is gone afterwards. -/
theorem rmAll_eq_none_iff : rmAll sh cwd disk p = none ↔ Removed sh cwd p ∨ disk p = none := by
  rw [rmAll]
  by_cases hprefix : cwd <+: p
  · obtain ⟨rest, rfl⟩ := hprefix
    rw [if_pos (List.isPrefixOf_iff_prefix.mpr (List.prefix_append _ _)), List.drop_left]
    cases rest with
    | nil =>
      refine (or_iff_right ?_).symm
      rintro ⟨name, rest, heq, -⟩
      exact absurd (List.append_cancel_left heq) (List.cons_ne_nil _ _).symm
    | cons name rest =>
      have hremoved : Removed sh cwd (cwd ++ name :: rest) ↔
          visible name = true ∧ sh.removes name = true := by
        constructor
        · rintro ⟨name', rest', heq, hvis, hrm⟩
          obtain ⟨rfl, -⟩ := List.cons.inj (List.append_cancel_left heq)
          exact ⟨hvis, hrm⟩
        · exact fun ⟨hvis, hrm⟩ => ⟨name, rest, rfl, hvis, hrm⟩
      dsimp only
      rw [hremoved, ← Bool.and_eq_true]
      by_cases hrm : (visible name && sh.removes name) = true
      · rw [if_pos hrm]
        exact iff_of_true rfl (Or.inl hrm)
      · rw [if_neg hrm, or_iff_right hrm]
  · rw [if_neg (mt List.isPrefixOf_iff_prefix.mp hprefix)]
    refine (or_iff_right ?_).symm
    rintro ⟨name, rest, rfl, -⟩
    exact hprefix (List.prefix_append _ _)

/-- There is one line at most at which the loop stops. -/
theorem reached_unique {i : ℕ} {xs : List Item} {body : Text} {t t' : Turn}
    (ht : Reached answers i xs body t) (ht' : Reached answers i xs body t')
    (hnot : ¬ t.Complete answers) (hnot' : ¬ t'.Complete answers) : t = t' := by
  induction xs generalizing i body with
  | nil => exact ht.elim
  | cons x xs ih =>
    rcases ht with rfl | ⟨hcomplete, ht⟩
    · exact ((reached_of_not_complete hnot).mp ht').symm
    · rcases ht' with rfl | ⟨-, ht'⟩
      · exact absurd hcomplete hnot'
      · exact ih ht ht'

/-- A file that is left is not one that is unlinked. -/
theorem not_unlinks_of_leaves {i : ℕ} {xs : List Item} {body : Text} {t t' : Turn}
    (ht : Reached answers i xs body t) (ht' : Reached answers i xs body t')
    (hleaves : t.Leaves answers place p) : ¬ t'.Unlinks answers place p := by
  rintro ⟨name', len', hitem', hopen', hneg, -⟩
  obtain ⟨name, len, hitem, hopen, hlen, hcopy, -⟩ := hleaves
  have hnot : ¬ t.Complete answers := by
    rintro ⟨_, _, heq, -, hcan⟩
    cases hitem.symm.trans heq
    exact hcopy hcan
  have hnot' : ¬ t'.Complete answers := by
    rintro ⟨_, _, heq, -, hcan⟩
    cases hitem'.symm.trans heq
    exact absurd hcan.1 (Int.not_le.mpr hneg)
  obtain rfl := reached_unique ht ht' hnot hnot'
  cases hitem.symm.trans hitem'
  exact absurd hlen (Int.not_le.mpr hneg)

theorem opens_of_leaves {t : Turn} (h : t.Leaves answers place p) : t.Opens answers place p :=
  let ⟨name, len, hitem, hopen, _, _, hp⟩ := h
  ⟨name, len, hitem, hopen, hp⟩

section Described

variable {l body : Text} {r : Unpacked} (hread : HeaderRead answers content l body)
  (hr : Describes answers place 0 (items l) body disk [] r)
include hread hr

theorem res_eq_zero_iff :
    r.res = 0 ↔ ∃ l body lines, Accepted answers content l body lines := by
  rw [hr.res, forall_complete_iff, exists_accepted_iff hread]
  constructor
  · exact fun ⟨lines, h⟩ => ⟨l, body, lines, h⟩
  · rintro ⟨l', body', lines, h⟩
    refine ⟨lines, ?_⟩
    rwa [hread.list_eq, hread.body_eq, ← h.header.list_eq, ← h.header.body_eq]

/-- **The scripts** that are run are those the list comes to. -/
theorem forall_not_runs_iff :
    (∀ name, place.cwd ++ [name] ∈ r.opened → startShell sh place.cwd r.disk name = false) ↔
      ∀ t name, CameTo answers content t → t.Opens answers place (place.cwd ++ [name]) →
        IsScript sh name →
        ∃ t', CameTo answers content t' ∧ t'.Unlinks answers place (place.cwd ++ [name]) := by
  simp only [cameTo_iff hread]
  constructor
  · intro h t name ht hopens hscript
    have hopened : ∃ t, Reached answers 0 (items l) body t ∧
        t.Opens answers place (place.cwd ++ [name]) := ⟨t, ht, hopens⟩
    by_contra hnot
    have hsome := (hr.onDisk _).mpr ⟨Or.inr hopened, hnot⟩
    have hfalse := h name ((hr.opened _).mpr (Or.inr hopened))
    rw [startShell_iff.mpr ⟨hsome, hscript⟩] at hfalse
    exact absurd hfalse (by decide)
  · intro h name hmem
    obtain ⟨t, ht, hopens⟩ := ((hr.opened _).mp hmem).resolve_left List.not_mem_nil
    rw [← Bool.not_eq_true, startShell_iff]
    rintro ⟨hsome, hscript⟩
    exact ((hr.onDisk _).mp hsome).2 (h t name ht hopens hscript)

/-- **The file that is left** is that of the line the loop stops at. -/
theorem forall_removed_iff :
    (∀ p, r.unfinished = some p → rmAll sh place.cwd r.disk p = none) ↔
      ∀ t p, CameTo answers content t → t.Leaves answers place p → Removed sh place.cwd p := by
  simp only [cameTo_iff hread, rmAll_eq_none_iff]
  constructor
  · intro h t p ht hleaves
    have hsome : (r.disk p).isSome := by
      refine (hr.onDisk p).mpr ⟨Or.inr ⟨t, ht, opens_of_leaves hleaves⟩, ?_⟩
      rintro ⟨t', ht', hunlinks⟩
      exact not_unlinks_of_leaves ht ht' hleaves hunlinks
    refine (h p ((hr.unfinished p).mpr ⟨t, ht, hleaves⟩)).resolve_right fun hnone => ?_
    rw [hnone] at hsome
    exact absurd hsome (by decide)
  · intro h p hp
    obtain ⟨t, ht, hleaves⟩ := (hr.unfinished p).mp hp
    exact Or.inl (h t p ht hleaves)

end Described

/-- **Whether a failed update has no effect.** -/
theorem failsCleanly_iff (answers : Answers) (sh : Shell) (place : Place) (disk : Disk)
    (content : Text) (hfile : disk (place.path place.file) = some content) :
    FailsCleanly answers sh place disk ↔ FailsCleanlyWhen answers sh place content := by
  rcases installUnpackFile_spec answers hfile with
    ⟨hfaulty, fault, herr⟩ | ⟨hfine, r, hok, hr⟩
  · refine iff_of_false ?_ fun h => h.1 hfaulty
    rintro ⟨r, g, hr, -⟩
    rw [herr] at hr
    cases hr
  · have hgo : tianyepiaoGogogo answers sh place disk =
        .ok ⟨r.res, startShell sh place.cwd r.disk, rmAll sh place.cwd r.disk⟩ := by
      rw [tianyepiaoGogogo, hok]
      rfl
    have hclean : FailsCleanly answers sh place disk ↔ (r.res ≠ 0 →
        (∀ name, place.cwd ++ [name] ∈ r.opened → startShell sh place.cwd r.disk name = false) ∧
          ∀ p, r.unfinished = some p → rmAll sh place.cwd r.disk p = none) := by
      constructor
      · rintro ⟨r', g, hr', hg, h⟩
        cases hok.symm.trans hr'
        cases hgo.symm.trans hg
        exact h
      · exact fun h => ⟨r, _, hok, hgo, h⟩
    rw [hclean, FailsCleanlyWhen, and_iff_right hfine]
    rcases hr with ⟨hnot, rfl⟩ | ⟨l, body, hread, hr⟩
    · refine iff_of_true (fun _ => ⟨fun _ => nofun, fun _ => nofun⟩) (Or.inr ⟨?_, ?_⟩)
      · rintro t name ⟨l, body, hread, -⟩
        exact absurd hread (hnot l body)
      · rintro t p ⟨l, body, hread, -⟩
        exact absurd hread (hnot l body)
    · rw [forall_not_runs_iff hread hr, forall_removed_iff hread hr,
        ← res_eq_zero_iff hread hr]
      exact or_iff_not_imp_left.symm

end Spec

/-- The shell in a directory where no name begins with `-`: a name without blanks and wildcards is
the file. -/
def plainShell : Shell :=
  ⟨fun name => name.all fun c => !isspace c && c != 42 && c != 63 && c != 91 && c != 92,
    fun _ => true⟩

/-- A package that is cut short in its only entry. -/
def shortPackage : Text :=
  ascii ['w', 'w', 'c', 'x', '0', '0', '0', '4', 'b', ' ', '9', ';', 'h', 'i']

theorem shortPackage_failsCleanly :
    FailsCleanly allowing plainShell updating (withPackage shortPackage) := by
  refine (failsCleanly_iff allowing plainShell updating (withPackage shortPackage) shortPackage
    (Function.update_self ..)).mpr ?_
  have hread : HeaderRead allowing shortPackage [98, 32, 57, 59] [104, 105] :=
    ⟨by decide, rfl, by decide, by decide, by decide, by decide, by decide⟩
  have hnot : ¬ (⟨0, .entry [98] 9, [104, 105]⟩ : Turn).Complete allowing := by
    rintro ⟨_, _, heq, -, -, hle, -⟩
    cases heq
    exact absurd hle (by decide)
  have hcame (t : Turn) : CameTo allowing shortPackage t ↔ t = ⟨0, .entry [98] 9, [104, 105]⟩ :=
    (cameTo_iff hread t).trans (reached_of_not_complete hnot)
  refine ⟨?_, Or.inr ⟨?_, ?_⟩⟩
  · rintro (⟨-, -, hneg, -⟩ | ⟨t, ht, hfaults⟩)
    · exact absurd hneg (by decide)
    · obtain rfl := (hcame t).mp ht
      rcases hfaults with heq | hopens
      · cases heq
      · exact absurd ((opens_entry rfl _).mp hopens) (by decide)
  · intro t name ht hopens hscript
    obtain rfl := (hcame t).mp ht
    have hname : updating.cwd ++ [[98]] = updating.cwd ++ [name] := (opens_entry rfl _).mp hopens
    obtain ⟨rfl, -⟩ := List.cons.inj (List.append_cancel_left hname)
    exact absurd hscript.2.2 (by decide)
  · intro t p ht hleaves
    obtain rfl := (hcame t).mp ht
    obtain ⟨-, -, rfl⟩ := (leaves_entry rfl p).mp hleaves
    exact ⟨[98], [], rfl, rfl, rfl⟩

/-- A package that is cut short behind a script. -/
def brokenPackage : Text :=
  ascii ['w', 'w', 'c', 'x', '0', '0', '1', '3', 'a', '.', 'i', 'n', 's', 't', ' ', '2', ';', 'b',
    ' ', '9', ';', 'h', 'i']

/-- **A failed update has an effect**: the script is run. -/
theorem brokenPackage_runs :
    ¬ FailsCleanly allowing plainShell updating (withPackage brokenPackage) := by
  rintro ⟨r, g, hr, hg, h⟩
  cases hr
  cases hg
  have hnot := (h (by decide)).1 (ascii ['a', '.', 'i', 'n', 's', 't']) List.mem_cons_self
  exact absurd hnot (by decide)

end Ltm

end Tqos
