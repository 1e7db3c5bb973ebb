import Mathlib.Data.List.Chain
import Tqos.Lib.Run
import Tqos.Ltm.Delivery

/-!
# The record

What is unpacked is a package that the server has named, by the MD5 of what is in the file; and the
record says which package that was.

## Main results

* `engineTurn_authentic` — what is unpacked has the MD5 that the server named, and the record had
  another one
* `record_of_run` — after any number of turns the record is the package installed last, and no
  package is installed twice in a row
-/

namespace Tqos

namespace Ltm

/-- **What is unpacked is what the server named**: its MD5 is the one that the answer of this turn
announces, and another one is in the record. -/
theorem engineTurn_authentic (el : Element) (hwinfo : Text) (wget : Bool) (w : World) (disk : Disk)
    (t : Turned) (h : engineTurn el hwinfo wget w disk = .ok t)
    (hres : t.unpacked.isSome ∨ t.opened ≠ [] ∨ t.res.isSome) :
    ∃ answer ipk content,
      askPackage el hwinfo w = .ok (some answer) ∧
      downloadCheck (disk el.record) (some answer) .zero = (true, ipk) ∧
      t.announced = some ipk ∧ t.unpacked = some content ∧
      (md5 content).flatMap hexText = ipk.md5.toList.take md5StrLength ∧
      downloadGetOldmd5 (disk el.record) ≠ some ((md5 content).flatMap hexText) := by
  rcases took h with ⟨-, -, hu, ho, hr⟩ | ⟨-, -, -, -, -, -, hu, ho, hr⟩ |
    ⟨answer, ipk, disk', r, hask, hcheck, hfetch, -, -, ha, hu, -, -⟩
  · simp [hu, ho, hr] at hres
  · simp [hu, ho, hr] at hres
  · obtain ⟨content, hcontent, hmd5⟩ := fetch_true (length_save ipk) hfetch
    have hname : ipk.ctx.md5 = ipk.md5.toList := rfl
    rw [hname] at hmd5
    refine ⟨answer, ipk, content, hask, hcheck, ha, hu.trans hcontent, hmd5, ?_⟩
    rw [hmd5]
    exact ne_record_of_check hcheck

/-- A file is unpacked, whose MD5 is the one of the answer. -/
theorem engineTurn_authentic_hi : ∃ t ipk content,
    engineTurn hiElement (lit "x") false hiWorld (fun _ => none) = .ok t ∧
      askPackage hiElement (lit "x") hiWorld = .ok (some hiRelease.answer) ∧
      downloadCheck none (some hiRelease.answer) .zero = (true, ipk) ∧ t.announced = some ipk ∧
      t.unpacked = some content ∧
      (md5 content).flatMap hexText = ipk.md5.toList.take md5StrLength := by
  obtain ⟨t, ht, hdelivered⟩ := turn_hiWorld
  obtain ⟨answer, ipk, content, hask, hcheck, ha, hunpacked, hmd5, -⟩ :=
    engineTurn_authentic hiElement (lit "x") false hiWorld (fun _ => none) t ht
      (Or.inl (hdelivered.unpacked ▸ rfl))
  obtain rfl : hiRelease.answer = answer :=
    Option.some.inj (Except.ok.inj (askPackage_hiWorld.symm.trans hask))
  exact ⟨t, ipk, content, ht, hask, hcheck, ha, hunpacked, hmd5⟩

/-! ## What a run does -/

/-- The packages that a turn has installed. -/
def Turned.installed (t : Turned) : List Text :=
  match t.announced, t.res with
  | some ipk, some 0 => [ipk.md5.toList.take md5StrLength]
  | _, _ => []

/-- Nothing but the engine writes the record, and it can be written. -/
structure World.LeavesRecord (el : Element) (w : World) : Prop where
  system : ∀ cmd disk, w.system cmd disk el.record = disk el.record
  scripts : ∀ disk, w.scripts disk el.record = disk el.record
  shell : ¬ Removed w.shell el.cwd el.record
  record : ∃ n ≥ md5StrLength, w.record = some n

/-- No package that the turn fetches is saved as the record, or has a file in its place. -/
def SparesRecord (el : Element) (hwinfo : Text) (wget : Bool) (disk : Disk) (w : World) : Prop :=
  ∀ t, engineTurn el hwinfo wget w disk = .ok t → el.record ∉ t.opened ∧
    ∀ ipk, t.announced = some ipk → el.path (cstr ipk.md5.toList) ≠ el.record

section Frame

variable {answers : Answers} {place : Place} {p : Path} {disk : Disk} {opened : List Path}

/-- An entry touches the file that it opens. -/
theorem unpackEntry_frame {i : ℕ} {name fp : Text} {len : ℤ}
    {e : Unpacked ⊕ Text × Disk × List Path}
    (h : unpackEntry answers place .ok i name len fp disk opened = .ok e) :
    (∀ r, e = .inl r → opened ⊆ r.opened ∧ (p ∉ r.opened → r.disk p = disk p)) ∧
    ∀ fp' disk' opened', e = .inr (fp', disk', opened') →
      opened ⊆ opened' ∧ (p ∉ opened' → disk' p = disk p) := by
  have hone (data : Option Text) (hp : p ∉ opened ++ [place.path name]) :
      Function.update disk (place.path name) data p = disk p := by
    refine Function.update_of_ne ?_ _ _
    rintro rfl
    exact hp (List.mem_append_right _ List.mem_cons_self)
  cases hopen : answers.fopen i name with
  | false =>
    rw [unpackEntry_of_not_fopen rfl hopen] at h
    obtain rfl := Except.ok.inj h
    refine ⟨?_, nofun⟩
    rintro r ⟨⟩
    exact ⟨List.Subset.refl _, fun _ => rfl⟩
  | true =>
    by_cases hfile : place.path name = place.path place.file
    · rw [unpackEntry_of_eq rfl hopen hfile] at h
      cases h
    · by_cases hlen : len < 0
      · rw [unpackEntry_of_neg rfl hopen hfile hlen] at h
        obtain rfl := Except.ok.inj h
        refine ⟨?_, nofun⟩
        rintro r ⟨⟩
        refine ⟨List.subset_append_left _ _, fun hp => ?_⟩
        rw [Function.update_idem]
        exact hone none hp
      · by_cases hcopy : CanCopy answers i len fp
        · rw [unpackEntry_of_canCopy rfl hopen hfile hcopy] at h
          obtain rfl := Except.ok.inj h
          refine ⟨nofun, ?_⟩
          rintro fp' disk' opened' ⟨⟩
          exact ⟨List.subset_append_left _ _, hone _⟩
        · obtain ⟨data, hdata⟩ := @unpackEntry_of_not_canCopy answers place .ok i name name len
            fp disk opened rfl hopen hfile (Int.not_lt.mp hlen) hcopy
          rw [hdata] at h
          obtain rfl := Except.ok.inj h
          refine ⟨?_, nofun⟩
          rintro r ⟨⟩
          exact ⟨List.subset_append_left _ _, hone _⟩

theorem unpackLoop_frame {fuel i : ℕ} {s fp : Text} {r : Unpacked}
    (h : unpackLoop answers place .ok fuel i s fp disk opened = .ok r) :
    opened ⊆ r.opened ∧ (p ∉ r.opened → r.disk p = disk p) := by
  induction fuel generalizing i s fp disk opened with
  | zero =>
    obtain rfl := Except.ok.inj h
    exact ⟨List.Subset.refl _, fun _ => rfl⟩
  | succ fuel ih =>
    by_cases hs : s = []
    · subst hs
      obtain rfl := Except.ok.inj h
      exact ⟨List.Subset.refl _, fun _ => rfl⟩
    · obtain ⟨x, rest, hturn⟩ : ∃ x rest,
          unpackLoop answers place .ok (fuel + 1) i s fp disk opened =
            turnOf answers place .ok fuel i fp disk opened x rest := by
        obtain ⟨x, rest, -, -, hturn⟩ := unpackLoop_cons hs
        exact ⟨x, rest, hturn⟩
      rw [hturn] at h
      cases x with
      | tooMany => cases h
      | malformed =>
        obtain rfl := Except.ok.inj h
        exact ⟨List.Subset.refl _, fun _ => rfl⟩
      | entry name len =>
        obtain ⟨e, he, h⟩ := bind_eq_ok.mp h
        obtain ⟨hinl, hinr⟩ := unpackEntry_frame (p := p) he
        cases e with
        | inl r' =>
          obtain rfl := Except.ok.inj h
          exact hinl _ rfl
        | inr next =>
          obtain ⟨fp', disk', opened'⟩ := next
          obtain ⟨hsub, hframe⟩ := hinr fp' disk' opened' rfl
          obtain ⟨hsub', hframe'⟩ := ih h
          refine ⟨List.Subset.trans hsub hsub', fun hp => ?_⟩
          rw [hframe' hp, hframe fun hmem => hp (hsub' hmem)]

/-- **Unpacking touches the files that it opens.** -/
theorem installUnpackFile_frame {r : Unpacked} (h : installUnpackFile answers place disk = .ok r)
    (hp : p ∉ r.opened) : r.disk p = disk p := by
  rw [installUnpackFile, unpackWith] at h
  split at h
  · obtain rfl := Except.ok.inj h
    rfl
  · obtain ⟨header, -, h⟩ := bind_eq_ok.mp h
    cases header with
    | none =>
      obtain rfl := Except.ok.inj h
      rfl
    | some pair => exact (unpackLoop_frame h).2 hp

end Frame

/-- What the turn for a world has installed. -/
def installedIn (el : Element) (hwinfo : Text) (wget : Bool) (w : World) (disk : Disk) :
    List Text :=
  match engineTurn el hwinfo wget w disk with
  | .ok t => t.installed
  | .error _ => []

/-- The packages that a run has installed, in turn. -/
def installs (el : Element) (hwinfo : Text) (wget : Bool) (s : Engine) (ws : List World) :
    List Text :=
  Run.note (engineStep el hwinfo wget)
    (fun s w log => log ++ installedIn el hwinfo wget w s.disk) s [] ws

section Record

variable {el : Element} {hwinfo : Text} {wget : Bool} {w : World} {disk disk' : Disk}
  {ctx : DownloadCtx} {ipk : PackageInfo} {t : Turned} {s s' : Engine} {log : List Text}

theorem rmAll_of_not_removed {sh : Shell} {cwd p : Path} (h : ¬ Removed sh cwd p) :
    rmAll sh cwd disk p = disk p := by
  rw [rmAll]
  split
  · rename_i hprefix
    obtain ⟨rest, rfl⟩ := List.isPrefixOf_iff_prefix.mp hprefix
    rw [List.drop_left]
    cases rest with
    | nil => rfl
    | cons name rest =>
      dsimp only
      refine if_neg fun hrm => h ⟨name, rest, rfl, ?_⟩
      rwa [Bool.and_eq_true] at hrm
  · rfl

/-- A download that is not saved as the record leaves it as it is. -/
theorem fetch_frame {res : Bool} (hw : w.LeavesRecord el)
    (hsave : el.path (cstr ctx.save) ≠ el.record)
    (h : fetch el wget w disk ctx = .ok (res, disk')) : disk' el.record = disk el.record := by
  rw [fetch, bind_eq_ok] at h
  obtain ⟨ran, -, h⟩ := h
  obtain ⟨-, rfl⟩ := Prod.mk.inj (Except.ok.inj h)
  have hcommands (cmds : List Text) (d : Disk) :
      cmds.foldl (fun disk cmd => w.system cmd disk) d el.record = d el.record := by
    induction cmds generalizing d with
    | nil => rfl
    | cons cmd cmds ih => rw [List.foldl_cons, ih, hw.system]
  rw [hcommands, savedDisk]
  rcases ctx.runSocket (w.outside el disk (cstr ctx.host)) with fault | ⟨ok, saved⟩
  · rfl
  · cases saved with
    | none => rfl
    | some content =>
      dsimp only
      split
      · exact Function.update_of_ne (Ne.symm hsave) _ _
      · rfl

/-- The record is read as it was written. -/
theorem recorded_downloadSetMd5 (hw : w.LeavesRecord el) (ipk : PackageInfo) (disk : Disk) :
    el.recorded (downloadSetMd5 el w ipk disk) = some (ipk.md5.toList.take md5StrLength) := by
  obtain ⟨n, hn, hrecord⟩ := hw.record
  have hlen : (ipk.md5.toList.take md5StrLength).length = md5StrLength := by
    rw [List.length_take, Vector.length_toList]
    rfl
  rw [Element.recorded, downloadSetMd5, hrecord]
  dsimp only
  rw [Function.update_self, List.take_of_length_le (hlen.le.trans hn), downloadGetOldmd5, if_pos
    hlen.ge, List.take_of_length_le hlen.le]

/-- The record and what was installed: a package that is not the one recorded, or nothing. -/
theorem recorded_of_turn (hw : w.LeavesRecord el) (hspares : SparesRecord el hwinfo wget disk w)
    (h : engineTurn el hwinfo wget w disk = .ok t) :
    (t.installed = [] ∧ el.recorded t.disk = el.recorded disk) ∨
      ∃ m, t.installed = [m] ∧ el.recorded t.disk = some m ∧ el.recorded disk ≠ some m := by
  obtain ⟨hopened, hsaved⟩ := hspares t h
  rcases took h with ⟨hdisk, ha, -, -, hres⟩ | ⟨answer, ipk, -, -, hdisk, ha, -, -, hres⟩ |
    ⟨answer, ipk, disk', r, -, hcheck, hfetch, hr, hdisk, ha, -, ho, hres⟩
  · exact Or.inl ⟨by rw [Turned.installed, ha, hres], by rw [hdisk]⟩
  · refine Or.inl ⟨by rw [Turned.installed, ha, hres], ?_⟩
    rcases hdisk with hdisk | hfetch
    · rw [hdisk]
    · rw [Element.recorded, fetch_frame hw (hsaved ipk ha) hfetch]
      rfl
  · have hleft : rmAll w.shell el.cwd (w.scripts r.disk) el.record = disk el.record := by
      rw [rmAll_of_not_removed hw.shell, hw.scripts,
        installUnpackFile_frame hr (by rwa [← ho]), fetch_frame hw (hsaved ipk ha) hfetch]
    by_cases hzero : r.res = 0
    · rw [if_pos hzero] at hdisk
      refine Or.inr ⟨ipk.md5.toList.take md5StrLength, ?_, ?_, ne_record_of_check hcheck⟩
      · rw [Turned.installed, ha, hres, hzero]
        rfl
      · rw [hdisk, recorded_downloadSetMd5 hw]
    · rw [if_neg hzero] at hdisk
      refine Or.inl ⟨?_, ?_⟩
      · rw [Turned.installed, ha, hres]
        split
        · rename_i heq
          exact absurd (Option.some.inj heq) hzero
        · rfl
      · rw [Element.recorded, hdisk, hleft]
        rfl

/-- What a run keeps: the record is the last of the packages, and each is another one than the one
before it. -/
structure Recorded (el : Element) (first : Option Text) (s : Engine) (log : List Text) : Prop where
  last : el.recorded s.disk = (first.toList ++ log).getLast?
  chain : (first.toList ++ log).IsChain (· ≠ ·)

theorem Recorded.step {first : Option Text} (h : Recorded el first s log)
    (hw : w.LeavesRecord el) (hspares : SparesRecord el hwinfo wget s.disk w)
    (hstep : engineStep el hwinfo wget s w = some s') :
    Recorded el first s' (log ++ installedIn el hwinfo wget w s.disk) := by
  obtain ⟨t, ht, rfl⟩ := Option.map_eq_some_iff.mp hstep
  rw [toOption_eq_some] at ht
  have hin : installedIn el hwinfo wget w s.disk = t.installed := by
    rw [installedIn, ht]
  rw [hin]
  rcases recorded_of_turn hw hspares ht with ⟨hnone, hrec⟩ | ⟨m, hone, hrec, hne⟩
  · rw [hnone, List.append_nil]
    exact ⟨hrec.trans h.last, h.chain⟩
  · rw [hone]
    refine ⟨?_, ?_⟩
    · rw [← List.append_assoc, List.getLast?_concat]
      exact hrec
    · rw [← List.append_assoc, List.isChain_append]
      refine ⟨h.chain, List.isChain_singleton m, fun a ha b hb => ?_⟩
      rw [List.head?_cons, Option.mem_def, Option.some.injEq] at hb
      subst hb
      rw [← h.last] at ha
      rintro rfl
      exact hne ha

/-- **After any number of turns** the record is the package that was installed last, and no package
was installed that was the last one already, be it before the first turn. -/
theorem record_of_run (el : Element) (hwinfo : Text) (wget : Bool) (s s' : Engine)
    (ws : List World) (hws : ∀ w ∈ ws, w.LeavesRecord el)
    (hspares : Run.Along (engineStep el hwinfo wget)
      (fun s w => SparesRecord el hwinfo wget s.disk w) s ws)
    (hrun : Run.run (engineStep el hwinfo wget) s ws = some s') :
    let log := (el.recorded s.disk).toList ++ installs el hwinfo wget s ws
    el.recorded s'.disk = log.getLast? ∧ log.IsChain (· ≠ ·) := by
  have hG : Run.Along (engineStep el hwinfo wget) (fun s w => w.LeavesRecord el ∧
      SparesRecord el hwinfo wget s.disk w) s ws := by
    intro p w hp u hu
    exact ⟨hws w (hp.subset (List.mem_append_right p List.mem_cons_self)), hspares p w hp u hu⟩
  have hinit : Recorded el (el.recorded s.disk) s [] := by
    constructor
    · cases el.recorded s.disk <;> rfl
    · cases el.recorded s.disk with
      | none => exact List.isChain_nil
      | some m => exact List.isChain_singleton m
  have hend : Recorded el (el.recorded s.disk) s' (installs el hwinfo wget s ws) :=
    Run.invariant_note hinit (fun u log w v hu hw hstep => hu.step hw.1 hw.2 hstep) hG hrun
  exact ⟨hend.last, hend.chain⟩

end Record

theorem leavesRecord_hiWorld : hiWorld.LeavesRecord hiElement := by
  refine ⟨fun _ _ => rfl, fun _ => rfl, ?_, 32, le_rfl, rfl⟩
  rintro ⟨name, rest, heq, -⟩
  have hrecord : hiElement.record = [lit "rec"] := by decide
  rw [hrecord] at heq
  exact absurd (List.cons.inj heq).1 (by decide)

/-- A turn by which the release is recorded. -/
theorem record_of_run_hi : ∃ s, Run.run (engineStep hiElement (lit "x") false)
      (engineInit hiElement 7 fun _ => none) [hiWorld] = some s ∧
    hiElement.recorded s.disk =
      (installs hiElement (lit "x") false (engineInit hiElement 7 fun _ => none)
        [hiWorld]).getLast? := by
  obtain ⟨t, ht, hdelivered⟩ := turn_hiWorld
  have hspares : SparesRecord hiElement (lit "x") false (fun _ => none) hiWorld := by
    intro t' ht'
    obtain rfl := Except.ok.inj (ht.symm.trans ht')
    have hrecord : hiElement.record = [lit "rec"] := by decide
    refine ⟨?_, fun ipk hipk => ?_⟩
    · rw [hdelivered.opened, hrecord]
      decide
    · obtain ⟨ipk', hipk', hname⟩ := hdelivered.announced
      obtain rfl := Option.some.inj (hipk'.symm.trans hipk)
      rw [hname, path_md5, hrecord]
      decide
  have hstep : engineStep hiElement (lit "x") false (engineInit hiElement 7 fun _ => none) hiWorld =
      some ⟨60, 15, t.disk⟩ := by
    rw [engineStep, engineInit, ht]
    rfl
  have hrun : Run.run (engineStep hiElement (lit "x") false)
      (engineInit hiElement 7 fun _ => none) [hiWorld] = some ⟨60, 15, t.disk⟩ := by
    rw [Run.run_cons, hstep]
    rfl
  have halong : Run.Along (engineStep hiElement (lit "x") false)
      (fun s w => SparesRecord hiElement (lit "x") false s.disk w)
      (engineInit hiElement 7 fun _ => none) [hiWorld] :=
    Run.along_cons.mpr ⟨hspares, fun _ _ => Run.along_nil _ _ _⟩
  have hkeeps : ∀ w ∈ [hiWorld], w.LeavesRecord hiElement := fun w hw =>
    List.mem_singleton.mp hw ▸ leavesRecord_hiWorld
  obtain ⟨hlast, -⟩ := record_of_run hiElement (lit "x") false _ _ [hiWorld] hkeeps halong hrun
  have hnone : hiElement.recorded (engineInit hiElement 7 fun _ => none).disk = none := rfl
  rw [hnone, Option.toList_none, List.nil_append] at hlast
  exact ⟨_, hrun, hlast⟩

end Ltm

end Tqos
