import Tqos.Ltm.Download
import Tqos.Ltm.DownloadCheck
import Tqos.Ltm.Md5
import Tqos.Ltm.RequestBuffer

/-!
# Running a download

With `wget`, `download_ctx_run` prints a command into an array of 256 bytes and has the shell run
what is in the array. Before that it compares the lengths of the host and of the URL with the size
of the array. But the command has the URL, which has the host in it, and the name of the file.

The saved file is one that the shell has left, whatever the command was; its digest decides.

## Main results

* `downloadCtxRun_wget` — which commands are run, and what is returned
* `commandsWhole_iff` — when they are whole
-/

namespace Tqos

namespace Ltm

/-! ## The function -/

/-- `struct download_ctx`, without the sizes, which nothing reads. Each string is the memory that a
pointer points at. -/
structure DownloadCtx where
  host : Text
  path : Text
  pathShadow : Option Text
  hostlen : ℤ
  pathlen : ℤ
  save : Text
  md5 : Text

/-- `strlen`, as an `int`. -/
def strlenInt (s : Text) : ℤ := ((cstr s).length : ℤ).bmod (2 ^ 32)

/-- `download_ctx_set`. -/
def downloadCtxSet (host path : Text) (pathShadow : Option Text) (md5 save : Text) :
    DownloadCtx where
  host := host
  path := path
  md5 := md5
  save := save
  pathShadow := pathShadow
  hostlen := strlenInt host
  pathlen := strlenInt path

/-- What `engine_start` runs. -/
def PackageInfo.ctx (ipk : PackageInfo) : DownloadCtx :=
  downloadCtxSet ipk.host.toList ipk.url.toList (ipk.pathStart.map ipk.url.toList.drop)
    ipk.md5.toList ipk.md5.toList

/-- What a download meets outside, and what is in its variables. -/
structure Outside where
  /-- The file can be opened for writing. -/
  fopen : Bool
  resolves : Bool
  net : ℕ → Net
  /-- What can be read of a file when a command has been run. -/
  system : Text → Text → Option Text
  digest : Text
  context : Md5Ctx

/-- What a download returns, and what the shell has got. -/
structure Ran where
  res : Bool
  commands : List Text

/-- The size of `cmd`. -/
abbrev cmdSize : ℕ := 256

/-- `wget -q %s -O %s` -/
def wgetText (path save : Text) : Text := lit "wget -q " ++ cstr path ++ lit " -O " ++ cstr save

/-- `rm -f %s` -/
def rmText (save : Text) : Text := lit "rm -f " ++ cstr save

/-- `cmd` as the shell reads it, after `snprintf`. -/
def shellText (t : Text) : Text := cstr (printed cmdSize t)

/-- `%02x` -/
def hexText (b : UInt8) : Text :=
  [b / 16, b % 16].map fun digit => if digit < 10 then 48 + digit else 87 + digit

/-- `download_ctx_run`, from `md5sum_file` on. -/
def checkSaved (out : Outside) (ctx : DownloadCtx) (fopen : Text → Option Text)
    (commands : List Text) : Except HttpFault Ran :=
  match md5sumFile fopen (some (cstr ctx.save)) (some out.digest) out.context with
  | none => .error .outOfBounds
  | some (res, digest) =>
    if res ≠ 0 then .ok ⟨false, commands⟩
    else if (digest.getD []).flatMap hexText = ctx.md5.take md5StrLength then .ok ⟨true, commands⟩
    else if (rmText ctx.save).length < cmdSize then .ok ⟨false, commands ++ [rmText ctx.save]⟩
    else .error .outOfBounds

/-- `download_ctx_run_socket`. The assertion of `xiaocilang_born` is that there is a path. -/
def DownloadCtx.runSocket (out : Outside) (ctx : DownloadCtx) :
    Except HttpFault (Bool × Option Text) :=
  match ctx.pathShadow with
  | some path => downloadCtxRunSocket out.fopen out.resolves out.net (cstr ctx.host) (cstr path)
  | none => if out.fopen then .error .nullPointer else .ok (false, none)

/-- The lengths are in bounds. -/
def DownloadCtx.GoesOn (ctx : DownloadCtx) : Prop :=
  ¬ sizeT (ctx.hostlen + ctx.pathlen) ≥ cmdSize - 16

instance (ctx : DownloadCtx) : Decidable ctx.GoesOn := inferInstanceAs (Decidable (¬ _))

/-- `download_ctx_run`. -/
def downloadCtxRun (out : Outside) (ctx : DownloadCtx) (wget : Bool) : Except HttpFault Ran :=
  let sum := ctx.hostlen + ctx.pathlen
  if sum < -2 ^ 31 ∨ 2 ^ 31 ≤ sum then .error .intOverflow
  else if ¬ ctx.GoesOn then .ok ⟨false, []⟩
  else if ¬ wget then do
    match ← ctx.runSocket out with
    | (true, saved) => checkSaved out ctx (fun _ => saved) []
    | (false, _) => pure ⟨false, []⟩
  else
    let cmd := shellText (wgetText ctx.path ctx.save)
    checkSaved out ctx (out.system cmd) [cmd]

/-! ## The commands -/

/-- What is asked of a run: the command for `wget` fits in the array if it comes to it, and no
command that is run is a part of another. -/
structure CommandsWhole (ctx : DownloadCtx) (run : Except HttpFault Ran) : Prop where
  fits : ctx.GoesOn → (wgetText ctx.path ctx.save).length < cmdSize
  whole : ∃ ran, run = .ok ran ∧
    ∀ cmd ∈ ran.commands, cmd = wgetText ctx.path ctx.save ∨ cmd = rmText ctx.save

section Commands

variable {ctx : DownloadCtx} {ipk : PackageInfo}

theorem ne_zero_of_mem_wgetText {path save : Text} {c : UInt8} (hc : c ∈ wgetText path save) :
    c ≠ 0 := by
  rw [wgetText, List.mem_append, List.mem_append, List.mem_append] at hc
  rcases hc with ((hc | hc) | hc) | hc
  · rintro rfl
    exact absurd hc (by decide)
  · exact ne_zero_of_mem_cstr hc
  · rintro rfl
    exact absurd hc (by decide)
  · exact ne_zero_of_mem_cstr hc

/-- The shell gets the first 255 bytes. -/
theorem shellText_wgetText (path save : Text) :
    shellText (wgetText path save) = (wgetText path save).take 255 := by
  rw [shellText, printed, if_neg (by decide), cstr_append_zero]
  exact List.takeWhile_eq_self_iff.mpr fun c hc =>
    decide_eq_true (ne_zero_of_mem_wgetText (List.mem_of_mem_take hc))

theorem length_wgetText (path save : Text) :
    (wgetText path save).length = 12 + (cstr path).length + (cstr save).length := by
  have hwget : (lit "wget -q ").length = 8 := by decide
  have hout : (lit " -O ").length = 4 := by decide
  rw [wgetText, List.length_append, List.length_append, List.length_append, hwget, hout]
  omega

/-- The digest decides. -/
theorem checkSaved_of_short (out : Outside) (fopen : Text → Option Text) (commands : List Text)
    (h : (cstr ctx.save).length < 250) :
    checkSaved out ctx fopen commands = .ok (match fopen (cstr ctx.save) with
      | none => ⟨false, commands⟩
      | some content =>
        if (md5 content).flatMap hexText = ctx.md5.take md5StrLength then ⟨true, commands⟩
        else ⟨false, commands ++ [rmText ctx.save]⟩) := by
  have hrm : (rmText ctx.save).length < cmdSize := by
    have hlit : (lit "rm -f ").length = 6 := by decide
    rw [rmText, List.length_append, hlit]
    show 6 + (cstr ctx.save).length < 256
    omega
  rw [checkSaved]
  cases hopen : fopen (cstr ctx.save) with
  | none =>
    rw [md5sumFile, hopen]
    rfl
  | some content =>
    rw [md5sumFile_of_content hopen]
    dsimp only
    rw [if_neg (by decide), Option.getD_some, if_pos hrm]
    split <;> rfl

/-- **What is run** with `wget`, when the lengths are in bounds. -/
theorem downloadCtxRun_wget (out : Outside) (hsum : 0 ≤ ctx.hostlen + ctx.pathlen)
    (hgoes : ctx.hostlen + ctx.pathlen < 240) (h : (cstr ctx.save).length < 250) :
    downloadCtxRun out ctx true =
      let cmd := (wgetText ctx.path ctx.save).take 255
      .ok (match out.system cmd (cstr ctx.save) with
        | none => ⟨false, [cmd]⟩
        | some content =>
          if (md5 content).flatMap hexText = ctx.md5.take md5StrLength then ⟨true, [cmd]⟩
          else ⟨false, [cmd, rmText ctx.save]⟩) := by
  have hin : ¬ (ctx.hostlen + ctx.pathlen < -2 ^ 31 ∨ 2 ^ 31 ≤ ctx.hostlen + ctx.pathlen) := by
    omega
  have hgoesOn : ctx.GoesOn := by
    show ¬ sizeT (ctx.hostlen + ctx.pathlen) ≥ 240
    rw [sizeT_of_nonneg hsum (hgoes.le.trans (by decide))]
    omega
  rw [downloadCtxRun, if_neg hin, if_neg (not_not.mpr hgoesOn), if_neg (by decide),
    checkSaved_of_short _ _ _ h, shellText_wgetText]
  rfl

/-! ## The strings of a package -/

theorem strlenInt_of_lt {s : Text} (h : s.length < 2 ^ 31) : strlenInt s = (cstr s).length := by
  have hle := length_cstr_le s
  exact Int.bmod_eq_of_le_mul_two (by omega) (by omega)

theorem hostlen_ctx (ipk : PackageInfo) : ipk.ctx.hostlen = strlenInt ipk.host.toList := by
  rw [PackageInfo.ctx, downloadCtxSet]

theorem pathlen_ctx (ipk : PackageInfo) : ipk.ctx.pathlen = strlenInt ipk.url.toList := by
  rw [PackageInfo.ctx, downloadCtxSet]

/-- The bytes of the host, of the URL and of the MD5. -/
theorem ctx_lengths (ipk : PackageInfo) :
    ipk.ctx.hostlen = (cstr ipk.host.toList).length ∧
      ipk.ctx.pathlen = (cstr ipk.url.toList).length ∧
      (cstr ipk.host.toList).length ≤ 64 ∧ (cstr ipk.url.toList).length ≤ 256 ∧
      (cstr ipk.md5.toList).length ≤ 33 := by
  have hhost := length_cstr_le ipk.host.toList
  have hurl := length_cstr_le ipk.url.toList
  have hmd5 := length_cstr_le ipk.md5.toList
  rw [Vector.length_toList] at hhost hurl hmd5
  rw [hostlen_ctx, pathlen_ctx, strlenInt_of_lt (by rw [Vector.length_toList]; omega),
    strlenInt_of_lt (by rw [Vector.length_toList]; omega)]
  exact ⟨rfl, rfl, hhost, hurl, hmd5⟩

theorem goesOn_iff (ipk : PackageInfo) : ipk.ctx.GoesOn ↔
    (cstr ipk.host.toList).length + (cstr ipk.url.toList).length < 240 := by
  obtain ⟨hhost, hpath, hhostLe, hurlLe, -⟩ := ctx_lengths ipk
  show ¬ sizeT (ipk.ctx.hostlen + ipk.ctx.pathlen) ≥ 240 ↔ _
  rw [hhost, hpath, sizeT_of_nonneg (by omega) (show _ ≤ (4096 : ℤ) by omega)]
  omega

theorem length_command (ipk : PackageInfo) : (wgetText ipk.ctx.path ipk.ctx.save).length =
    12 + (cstr ipk.url.toList).length + (cstr ipk.md5.toList).length :=
  length_wgetText _ _

/-- **When no command is cut**: exactly if the host and the URL are too long together, or the URL
and the name of the file are short enough. -/
theorem commandsWhole_iff (out : Outside) (ipk : PackageInfo) :
    CommandsWhole ipk.ctx (downloadCtxRun out ipk.ctx true) ↔
      240 ≤ (cstr ipk.host.toList).length + (cstr ipk.url.toList).length ∨
        (cstr ipk.url.toList).length + (cstr ipk.md5.toList).length ≤ 243 := by
  obtain ⟨hhost, hpath, hhostLe, hurlLe, hmd5Le⟩ := ctx_lengths ipk
  have hsave : (cstr ipk.ctx.save).length < 250 := Nat.lt_of_le_of_lt hmd5Le (by decide)
  constructor
  · intro h
    by_contra hnot
    have hfits := h.fits ((goesOn_iff ipk).mpr (by omega))
    rw [length_command] at hfits
    have hsize : cmdSize = 256 := rfl
    omega
  · intro hcond
    by_cases hgoes : ipk.ctx.GoesOn
    · have hlt := (goesOn_iff ipk).mp hgoes
      have hfits : (wgetText ipk.ctx.path ipk.ctx.save).length ≤ 255 := by
        rw [length_command]
        omega
      have hrun := downloadCtxRun_wget out (by omega) (by omega) hsave
      rw [List.take_of_length_le hfits] at hrun
      refine ⟨fun _ => Nat.lt_succ_of_le hfits, _, hrun, fun cmd hcmd => ?_⟩
      -- What the shell leaves decides if there is a second command.
      cases hsaved : out.system (wgetText ipk.ctx.path ipk.ctx.save) (cstr ipk.ctx.save) with
      | none =>
        rw [hsaved] at hcmd
        exact Or.inl (List.mem_singleton.mp hcmd)
      | some content =>
        rw [hsaved] at hcmd
        dsimp only at hcmd
        split at hcmd
        · exact Or.inl (List.mem_singleton.mp hcmd)
        · rw [List.mem_cons, List.mem_singleton] at hcmd
          exact hcmd
    · refine ⟨fun h => absurd h hgoes, ⟨false, []⟩, ?_, fun cmd hcmd => ?_⟩
      · rw [downloadCtxRun, if_neg (by omega), if_pos hgoes]
      · exact absurd hcmd List.not_mem_nil

/-- An URL of 220 bytes. -/
def fullUrl : Text := lit "http://h/" ++ List.replicate 211 97

/-- An answer that is accepted, and whose command has 264 bytes. -/
theorem not_commandsWhole_fullUrl : ∃ ipk,
    downloadCheck none (some (fullUrl ++ 32 :: List.replicate 32 48 ++ [59])) .zero = (true, ipk) ∧
      ∀ out, ¬ CommandsWhole ipk.ctx (downloadCtxRun out ipk.ctx true) := by
  have hpasses : Passes (downloadGetOldmd5 none) (fullUrl ++ 32 :: List.replicate 32 48 ++ [59])
      fullUrl (List.replicate 32 48) :=
    ⟨by decide +kernel, by decide +kernel, rfl,
      ⟨0, by decide +kernel, 1, by decide +kernel, by decide⟩, (Option.some_ne_none _).symm⟩
  obtain ⟨ipk, found, i, hcheck, hfound, hslash, -, -, hurl, hhost, hmd5⟩ := hpasses.downloadCheck
  refine ⟨ipk, hcheck, fun out h => ?_⟩
  have hurlLength : (cstr ipk.url.toList).length = 220 := by
    rw [hurl, cstr_copied_url]
    decide +kernel
  have hhostLength : (cstr ipk.host.toList).length ≤ 1 := by
    obtain rfl : found = 0 := Option.some.inj (hfound.symm.trans (by decide +kernel))
    obtain rfl : i = 1 := Option.some.inj (hslash.symm.trans (by decide +kernel))
    rw [hhost]
    exact List.length_take_le _ _
  have hmd5Length : (cstr ipk.md5.toList).length = 32 := by
    rw [hmd5]
    decide
  have hfits := h.fits ((goesOn_iff ipk).mpr (by omega))
  rw [length_command, hurlLength, hmd5Length] at hfits
  exact absurd hfits (by decide)

end Commands

end Ltm

end Tqos
