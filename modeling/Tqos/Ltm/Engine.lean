import Tqos.Ltm.DownloadRun
import Tqos.Ltm.Update

/-!
# The update engine

`engine_start`, turn after turn: the servers are asked one after the other which package there is,
and if its MD5 is not the one in the record, the package is downloaded, checked, unpacked and run,
and recorded.

What commands and scripts do to the files is a parameter, as are the network and the system. A fault
ends the process.

## Main results

* `fetch_true` — a download that is good leaves a file with the MD5 that is asked for
* `took` — what a turn can do
-/

namespace Tqos

namespace Ltm

/-! ## What there is -/

/-- What the process is started with: `struct lt_element` as far as the engine reads it, and where
it works. -/
structure Element where
  md5path : Text
  servers : List Text
  url : Text
  interval : ℕ
  cwd : Path

/-- The path of a name. -/
def Element.path (el : Element) (name : Text) : Path := Paths.resolve marks el.cwd name

/-- Where the record is. -/
def Element.record (el : Element) : Path := el.path el.md5path

/-- The MD5 in the record, if there is one. -/
def Element.recorded (el : Element) (disk : Disk) : Option Text := downloadGetOldmd5 (disk el.record)

/-- How a turn can end the process. -/
inductive EngineFault
  | http (f : HttpFault)
  | unpack (f : Fault)
deriving DecidableEq

/-- What a turn meets outside, and what is in its variables. -/
structure World where
  /-- Whether the name of a server is an address or has one. -/
  resolves : Text → Bool
  /-- The network on the way to a server that is asked. -/
  check : Text → Net
  /-- `download_ctx_alloc`. -/
  malloc : Bool
  /-- The file of the package can be opened for writing. -/
  fopen : Bool
  /-- The network for each of the calls of a download. -/
  net : ℕ → Net
  /-- What a command makes of the files. -/
  system : Text → Disk → Disk
  answers : Answers
  /-- What the scripts make of the files. -/
  scripts : Disk → Disk
  shell : Shell
  /-- How much of the record is written, if it can be opened. -/
  record : Option ℕ
  encryptBuf : Vector UInt8 512
  key : Vector UInt8 32
  digest : Text
  context : Md5Ctx

/-! ## Asking -/

/-- `xiaocilang_want_data`, into `encrypt_buf`. -/
def encryptedData (w : World) (data : Text) : Except HttpFault (Option Text) :=
  match encryptWithDefaultPass gWwKeys w.key (data ++ w.encryptBuf.toList) (some 0) data.length
    (some data.length) with
  | none => .error .outOfBounds
  | some (res, mem) => .ok (if res = 0 then some (bytesAt mem data.length data.length) else none)

/-- The loop over the servers. -/
def askServers (w : World) (req : HttpRequest) : List Text → Except HttpFault (Option HttpRequest)
  | [] => pure none
  | host :: hosts =>
    if w.resolves host then do
      let called ← xiaocilangGogogo (w.check host) (req.xiaocilangWantHousite host true)
      if 0 ≤ called.1 then pure (some called.2) else askServers w called.2 hosts
    else askServers w req hosts

/-- `xiaocilang_give_data`, with decryption. -/
def HttpResponse.giveDecrypted (w : World) (resp : HttpResponse) :
    Except HttpFault (Option Text) :=
  if resp.valid then
    match resp.data with
    | none => pure none
    | some d =>
      match decryptWithDefaultPass gWwKeys w.key resp.buf.toList (some d) resp.dlen.toNat
        (some d) with
      | none => .error .outOfBounds
      | some (res, mem) => pure (if res = 0 then some (bytesAt mem d resp.dlen.toNat) else none)
  else pure none

/-- `download_check`, up to the answer. -/
def askPackage (el : Element) (hwinfo : Text) (w : World) : Except HttpFault (Option Text) := do
  match ← encryptedData w hwinfo with
  | none => pure none
  | some data =>
    let req := (xiaocilangBorn (lit "POST") el.url).xiaocilangWantData (some data)
    match ← askServers w req el.servers with
    | none => pure none
    | some req => req.resp.giveDecrypted w

/-! ## A turn -/

/-- What a download finds outside. -/
def World.outside (el : Element) (w : World) (disk : Disk) (host : Text) : Outside where
  fopen := w.fopen
  resolves := w.resolves host
  net := w.net
  system cmd name := w.system cmd disk (el.path name)
  digest := w.digest
  context := w.context

/-- The files, once the socket has been read. -/
def savedDisk (el : Element) (out : Outside) (disk : Disk) (ctx : DownloadCtx) (wget : Bool) :
    Disk :=
  match ctx.runSocket out with
  | .ok (_, some content) =>
    if ctx.GoesOn ∧ ¬ wget then Function.update disk (el.path (cstr ctx.save)) (some content)
    else disk
  | _ => disk

/-- `download_ctx_run`, with what becomes of the files. -/
def fetch (el : Element) (wget : Bool) (w : World) (disk : Disk) (ctx : DownloadCtx) :
    Except HttpFault (Bool × Disk) := do
  let out := w.outside el disk (cstr ctx.host)
  let ran ← downloadCtxRun out ctx wget
  pure (ran.res, ran.commands.foldl (fun disk cmd => w.system cmd disk)
    (savedDisk el out disk ctx wget))

/-- `download_set_md5`. -/
def downloadSetMd5 (el : Element) (w : World) (ipk : PackageInfo) (disk : Disk) : Disk :=
  match w.record with
  | none => disk
  | some n => Function.update disk el.record (some ((ipk.md5.toList.take md5StrLength).take n))

/-- What a turn leaves, and what it did. -/
structure Turned where
  disk : Disk
  /-- The package, if it is another one than the one recorded. -/
  announced : Option PackageInfo
  /-- The file that is unpacked. -/
  unpacked : Option Text
  /-- The files that are opened for writing then. -/
  opened : List Path
  /-- What `tianyepiao_gogogo` returns. -/
  res : Option ℤ

/-- The body of the loop, in which `wget` says that there is one. -/
def engineTurn (el : Element) (hwinfo : Text) (wget : Bool) (w : World) (disk : Disk) :
    Except EngineFault Turned := do
  let resp ← (askPackage el hwinfo w).mapError .http
  match downloadCheck (disk el.record) resp .zero with
  | (false, _) => pure ⟨disk, none, none, [], none⟩
  | (true, ipk) =>
    if w.malloc then
      let (res, disk) ← (fetch el wget w disk ipk.ctx).mapError .http
      if res then
        let file := cstr ipk.md5.toList
        let r ← (installUnpackFile w.answers ⟨el.cwd, file⟩ disk).mapError .unpack
        let left := rmAll w.shell el.cwd (w.scripts r.disk)
        pure ⟨if r.res = 0 then downloadSetMd5 el w ipk left else left, some ipk,
          disk (el.path file), r.opened, some r.res⟩
      else pure ⟨disk, some ipk, none, [], none⟩
    else pure ⟨disk, some ipk, none, [], none⟩

/-! ## The loop -/

/-- The loop variable, the files, and for how long the process has slept. -/
structure Engine where
  sec : ℕ
  slept : ℕ
  disk : Disk

/-- Before the first turn: `mac` is the address of the router as a number. -/
def engineInit (el : Element) (mac : ℕ) (disk : Disk) : Engine :=
  ⟨mac % el.interval, mac % 10 + 1, disk⟩

/-- A turn, and the sleep behind it. -/
def engineStep (el : Element) (hwinfo : Text) (wget : Bool) (s : Engine) (w : World) :
    Option Engine :=
  (engineTurn el hwinfo wget w s.disk).toOption.map fun t =>
    ⟨el.interval, s.slept + s.sec, t.disk⟩

/-! ## What a turn does -/

section Turn

variable {el : Element} {hwinfo : Text} {wget : Bool} {w : World} {disk disk' : Disk}
  {ctx : DownloadCtx} {ipk : PackageInfo} {t : Turned}

/-- What decides about a saved file, and the commands that are run. -/
theorem ran_of_checkSaved {out : Outside} {fopen : Text → Option Text} {commands : List Text}
    {ran : Ran} (hsave : (cstr ctx.save).length < 250)
    (h : checkSaved out ctx fopen commands = .ok ran) :
    (ran.res = true → ran.commands = commands ∧ ∃ content, fopen (cstr ctx.save) = some content ∧
      (md5 content).flatMap hexText = ctx.md5.take md5StrLength) ∧
    (ran.commands = commands ∨ ran.commands = commands ++ [rmText ctx.save]) := by
  rw [checkSaved_of_short out fopen commands hsave] at h
  cases hopen : fopen (cstr ctx.save) with
  | none =>
    rw [hopen] at h
    obtain rfl := Except.ok.inj h
    exact ⟨fun hres => absurd hres Bool.false_ne_true, Or.inl rfl⟩
  | some content =>
    rw [hopen] at h
    dsimp only at h
    split at h
    · rename_i hmd5
      obtain rfl := Except.ok.inj h
      exact ⟨fun _ => ⟨rfl, content, rfl, hmd5⟩, Or.inl rfl⟩
    · obtain rfl := Except.ok.inj h
      exact ⟨fun hres => absurd hres Bool.false_ne_true, Or.inr rfl⟩

/-- **A download that is good** leaves a file with the MD5 that is asked for. -/
theorem fetch_true (hsave : (cstr ctx.save).length < 250)
    (h : fetch el wget w disk ctx = .ok (true, disk')) :
    ∃ content, disk' (el.path (cstr ctx.save)) = some content ∧
      (md5 content).flatMap hexText = ctx.md5.take md5StrLength := by
  rw [fetch, bind_eq_ok] at h
  obtain ⟨ran, hran, h⟩ := h
  obtain ⟨hres, rfl⟩ := Prod.mk.inj (Except.ok.inj h)
  rw [downloadCtxRun] at hran
  dsimp only at hran
  split at hran
  · cases hran
  split at hran
  · obtain rfl := Except.ok.inj hran
    exact absurd hres Bool.false_ne_true
  rename_i hgoes
  rw [not_not] at hgoes
  split at hran
  · rename_i hsocket
    obtain ⟨⟨ok, saved⟩, hrun, hran⟩ := bind_eq_ok.mp hran
    cases ok with
    | false =>
      obtain rfl := Except.ok.inj hran
      exact absurd hres Bool.false_ne_true
    | true =>
      obtain ⟨hcommands, content, rfl, hmd5⟩ := (ran_of_checkSaved hsave hran).1 hres
      refine ⟨content, ?_, hmd5⟩
      rw [hcommands, savedDisk, hrun]
      dsimp only
      rw [if_pos ⟨hgoes, hsocket⟩, List.foldl_nil]
      exact Function.update_self ..
  · rename_i hwget
    obtain ⟨hcommands, content, hcontent, hmd5⟩ := (ran_of_checkSaved hsave hran).1 hres
    refine ⟨content, ?_, hmd5⟩
    have hsaved : savedDisk el (w.outside el disk (cstr ctx.host)) disk ctx wget = disk := by
      rw [savedDisk]
      split
      · exact if_neg fun hboth => hwget hboth.2
      · rfl
    rw [hcommands, hsaved, List.foldl_cons, List.foldl_nil]
    exact hcontent

/-- **What a turn can do.** -/
inductive Took (el : Element) (hwinfo : Text) (wget : Bool) (w : World) (disk : Disk) (t : Turned) :
    Prop
  /-- There is no answer, or no other package than the one recorded. -/
  | idle (hdisk : t.disk = disk) (ha : t.announced = none) (hu : t.unpacked = none)
      (ho : t.opened = []) (hres : t.res = none)
  /-- The package is not there, or is not the one that was announced. -/
  | refuses (answer : Text) (ipk : PackageInfo)
      (hask : askPackage el hwinfo w = .ok (some answer))
      (hcheck : downloadCheck (disk el.record) (some answer) .zero = (true, ipk))
      (hdisk : t.disk = disk ∨ fetch el wget w disk ipk.ctx = .ok (false, t.disk))
      (ha : t.announced = some ipk) (hu : t.unpacked = none) (ho : t.opened = [])
      (hres : t.res = none)
  /-- The package is unpacked. -/
  | unpacks (answer : Text) (ipk : PackageInfo) (disk' : Disk) (r : Unpacked)
      (hask : askPackage el hwinfo w = .ok (some answer))
      (hcheck : downloadCheck (disk el.record) (some answer) .zero = (true, ipk))
      (hfetch : fetch el wget w disk ipk.ctx = .ok (true, disk'))
      (hr : installUnpackFile w.answers ⟨el.cwd, cstr ipk.md5.toList⟩ disk' = .ok r)
      (hdisk : t.disk = if r.res = 0
        then downloadSetMd5 el w ipk (rmAll w.shell el.cwd (w.scripts r.disk))
        else rmAll w.shell el.cwd (w.scripts r.disk))
      (ha : t.announced = some ipk) (hu : t.unpacked = disk' (el.path (cstr ipk.md5.toList)))
      (ho : t.opened = r.opened) (hres : t.res = some r.res)

/-- Without an answer there is no package. -/
theorem exists_answer {file resp : Option Text} (h : downloadCheck file resp .zero = (true, ipk)) :
    ∃ answer, resp = some answer := by
  cases resp with
  | none => cases h
  | some answer => exact ⟨answer, rfl⟩

theorem took (h : engineTurn el hwinfo wget w disk = .ok t) : Took el hwinfo wget w disk t := by
  rw [engineTurn, bind_eq_ok] at h
  obtain ⟨resp, hask, h⟩ := h
  rw [mapError_eq_ok] at hask
  cases hcheck : downloadCheck (disk el.record) resp .zero with
  | mk ok ipk =>
    rw [hcheck] at h
    cases ok with
    | false =>
      obtain rfl := Except.ok.inj h
      exact .idle rfl rfl rfl rfl rfl
    | true =>
      obtain ⟨answer, rfl⟩ := exists_answer hcheck
      dsimp only at h
      split at h
      · obtain ⟨⟨res, disk'⟩, hfetch, h⟩ := bind_eq_ok.mp h
        rw [mapError_eq_ok] at hfetch
        cases res with
        | false =>
          obtain rfl := Except.ok.inj h
          exact .refuses answer ipk hask hcheck (Or.inr hfetch) rfl rfl rfl rfl
        | true =>
          obtain ⟨r, hr, h⟩ := bind_eq_ok.mp h
          rw [mapError_eq_ok] at hr
          obtain rfl := Except.ok.inj h
          exact .unpacks answer ipk disk' r hask hcheck hfetch hr rfl rfl rfl rfl rfl
      · obtain rfl := Except.ok.inj h
        exact .refuses answer ipk hask hcheck (Or.inl rfl) rfl rfl rfl rfl

/-- The name of the file is short. -/
theorem length_save (ipk : PackageInfo) : (cstr ipk.ctx.save).length < 250 := by
  have hle := (ctx_lengths ipk).2.2.2.2
  exact Nat.lt_of_le_of_lt hle (by decide)

theorem ne_record_of_checkUrl {file : Option Text} {ipks : PackageInfo}
    (h : checkUrl file ipks = (true, ipk)) :
    downloadGetOldmd5 file ≠ some (ipk.md5.toList.take md5StrLength) := by
  rw [checkUrl] at h
  split at h
  · cases h
  · dsimp only at h
    split at h
    · cases h
    · split at h
      · cases h
      · obtain ⟨hne, rfl⟩ := Prod.mk.inj h
        exact of_decide_eq_true hne

/-- What an answer names is not in the record. -/
theorem ne_record_of_check {file resp : Option Text}
    (h : downloadCheck file resp .zero = (true, ipk)) :
    downloadGetOldmd5 file ≠ some (ipk.md5.toList.take md5StrLength) := by
  rw [downloadCheck.eq_def] at h
  split at h
  · cases h
  · split at h
    · cases h
    · split at h
      · cases h
      · split at h
        · split at h
          · cases h
          · exact ne_record_of_checkUrl h
        · cases h

end Turn

end Ltm

end Tqos
