import Mathlib.Logic.Function.Basic
import Tqos.Lib.Paths
import Tqos.Ltm.SplitLine

/-!
# Unpacking

`install_unpack_file`, which the updater has and, with a directory in front of the names, the tool
that tests packages. What the system lets it do is a parameter: `fopen` and `fwrite` answer as they
do in this run. A package that is opened for writing while it is read, and an access outside of an
object, leave nothing to be said.

## Main definitions

* `installUnpackFile` — the function of `update.c`
* `Tool.installUnpackFile` — that of `unpack.c`
-/

namespace Tqos

namespace Ltm

/-! ## Files -/

/-- `/` and `.`. -/
def marks : Paths.Marks UInt8 := ⟨47, 46⟩

/-- A path from the root. -/
abbrev Path := List Text

/-- The files and what is in them. Of a file that has been opened and not been closed it is what was
given to `fwrite`, some of which may still be on its way. -/
abbrev Disk := Path → Option Text

/-- What the system answers in this run. -/
structure Answers where
  /-- `malloc`. -/
  malloc : Bool
  /-- `fopen` for writing, for an entry and the name it is opened by. -/
  fopen : ℕ → Text → Bool
  /-- `fwrite`, for a piece of an entry. -/
  fwrite : ℕ → ℕ → Bool

/-- After these, anything may happen. -/
inductive Fault
  /-- Bytes outside of an object are written. -/
  | overflow
  /-- The package is opened for writing. -/
  | clobber
deriving DecidableEq

/-- What `install_unpack_file` leaves. -/
structure Unpacked where
  res : ℤ
  disk : Disk
  /-- What has been opened for writing, in turn. -/
  opened : List Path
  /-- A file that it gave up at, neither closed nor unlinked. -/
  unfinished : Option Path

/-! ## The steps -/

/-- `UNPACK_MEM_MAXLEN`. -/
abbrev unpackMemMaxlen : ℕ := 4096

/-- The `size_t` that an `int` becomes, on the 32-bit target. -/
def sizeT (n : ℤ) : ℕ := (n % 2 ^ 32).toNat

/-- Up to the loop: the list of the files and what is behind it, if the header can be read. -/
def readHeader (answers : Answers) (fp : Text) : Except Fault (Option (Text × Text)) :=
  if fp.length < 8 then .ok none
  else
    let hdrlen := atoi ((fp.drop 4).take 4)
    let fp := fp.drop 8
    if hdrlen > unpackMemMaxlen then .ok none
    else if !answers.malloc then .ok none
    else if min (sizeT hdrlen) fp.length > unpackMemMaxlen then .error .overflow
    else if fp.length < sizeT hdrlen then .ok none
    else .ok (some (fp.take (sizeT hdrlen), fp.drop (sizeT hdrlen)))

/-- What the loop over the pieces of an entry leaves. -/
structure Copied where
  complete : Bool
  fp : Text
  save : Text

/-- `while (flen > 0)`, from a piece on. -/
def copyLoop (fwrite : ℕ → Bool) : ℕ → ℕ → ℕ → Text → Text → Copied
  | 0, _, _, fp, save => ⟨true, fp, save⟩
  | fuel + 1, piece, flen, fp, save =>
    if flen = 0 then ⟨true, fp, save⟩
    else
      let once := min flen 512
      if fp.length < once then ⟨false, [], save⟩
      else if !fwrite piece then ⟨false, fp.drop once, save⟩
      else copyLoop fwrite fuel (piece + 1) (flen - once) (fp.drop once) (save ++ fp.take once)

section Unpack

/-- Where the process is and which file it unpacks. -/
structure Place where
  cwd : Path
  file : Text

/-- The path of a name. -/
def Place.path (place : Place) (name : Text) : Path := Paths.resolve marks place.cwd name

variable (answers : Answers) (place : Place) (newpath : Text → Except Fault Text)

/-- An entry of the list, from its name on: with nothing more to do, or with what is behind its
contents. -/
def unpackEntry (i : ℕ) (name : Text) (flen : ℤ) (fp : Text) (disk : Disk) (opened : List Path) :
    Except Fault (Unpacked ⊕ Text × Disk × List Path) := do
  let save ← newpath name
  if !answers.fopen i save then .ok (.inl ⟨-1, disk, opened, none⟩)
  else if place.path save = place.path place.file then .error .clobber
  else
    let copied := copyLoop (answers.fwrite i) flen.toNat 0 flen.toNat fp []
    let disk := Function.update disk (place.path save) (some copied.save)
    let opened := opened ++ [place.path save]
    if !copied.complete then .ok (.inl ⟨-1, disk, opened, some (place.path save)⟩)
    else if flen < 0 then
      .ok (.inl ⟨-1, Function.update disk (place.path name) none, opened, none⟩)
    else .ok (.inr (copied.fp, disk, opened))

/-- `for (i = 0 ; s < e; i++)`, from an entry on. Every turn takes at least a byte of the list. -/
def unpackLoop : ℕ → ℕ → Text → Text → Disk → List Path → Except Fault Unpacked
  | 0, _, _, _, disk, opened => .ok ⟨0, disk, opened, none⟩
  | _ + 1, _, [], _, disk, opened => .ok ⟨0, disk, opened, none⟩
  | fuel + 1, i, s, fp, disk, opened =>
    let line := splitLine 32 59 2 s
    if 2 < line.elts.length then .error .overflow
    else
      match line.next, line.elts with
      | some s, [name, len] => do
        match ← unpackEntry answers place newpath i (cstr name) (atoi len) fp disk opened with
        | .inl r => .ok r
        | .inr (fp, disk, opened) => unpackLoop fuel (i + 1) s fp disk opened
      | _, _ => .ok ⟨-1, disk, opened, none⟩

/-- `install_unpack_file`, with what becomes of a name. -/
def unpackWith (disk : Disk) : Except Fault Unpacked :=
  match disk (place.path place.file) with
  | none => .ok ⟨-1, disk, [], none⟩
  | some fp => do
    match ← readHeader answers fp with
    | none => .ok ⟨-1, disk, [], none⟩
    | some (list, fp) => unpackLoop answers place newpath list.length 0 list fp disk []

end Unpack

/-- `install_unpack_file` of `update.c`. -/
def installUnpackFile (answers : Answers) (place : Place) (disk : Disk) : Except Fault Unpacked :=
  unpackWith answers place .ok disk

namespace Tool

/-- `UNPACK_PATH`. -/
def unpackPath : Text := ascii ['u', 'n', 'p', 'a', 'c', 'k', '-', 't', 'm', 'p', '/']

/-- `sprintf(newpath, "%s%s", prefix, name)`, into an array of 256 bytes. -/
def newpath (dir name : Text) : Except Fault Text :=
  if dir.length + name.length < 256 then .ok (dir ++ name) else .error .overflow

/-- `install_unpack_file` of `unpack.c`. A file whose length is negative is unlinked by its name
alone. -/
def installUnpackFile (answers : Answers) (place : Place) (dir : Text) (disk : Disk) :
    Except Fault Unpacked := unpackWith answers place (newpath dir) disk

end Tool

end Ltm

end Tqos
