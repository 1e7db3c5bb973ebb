import Mathlib.Data.List.Nodup
import Tqos.Lib.LastWrite
import Tqos.Ltm.Accepted

/-!
# Packing

`pack-generate.sh`, on the regular files of the directories below `content`, and what becomes of its
package. The lengths are as `wc -c` prints them.

## Main results

* `packGenerate_eq` — the package
* `unpack_packGenerate` — unpacking undoes packing, in the updater and in the tool
-/

namespace Tqos

namespace Ltm

/-! ## `pack-generate.sh` -/

/-- A file: its base name and what is in it. -/
abbrev Content := Text × Text

/-- `files_info` and `content.bin` after a file. -/
def packFile (st : Text × Text) (file : Content) : Text × Text :=
  let filename := file.1
  let flen := decimal file.2.length
  (st.1 ++ entryText filename flen, st.2 ++ file.2)

/-- `wWrelease.bin`, from the files of the directories in turn. -/
def packGenerate (content : List (List Content)) : Text :=
  let (filesInfo, contentBin) := content.foldl (fun st subdir => subdir.foldl packFile st) ([], [])
  let flen := decimal filesInfo.length
  let flen := List.replicate (4 - flen.length) 48 ++ flen
  let fileHeader := magic ++ flen
  fileHeader ++ filesInfo ++ contentBin

/-- The entry of a file. -/
def fileInfo (file : Content) : Text := entryText file.1 (decimal file.2.length)

/-- A length with zeros in front. -/
def padded (n : ℕ) : Text := List.replicate (4 - (decimal n).length) 48 ++ decimal n

section Pack

theorem foldl_packFile (files : List Content) (st : Text × Text) :
    files.foldl packFile st = (st.1 ++ files.flatMap fileInfo, st.2 ++ files.flatMap Prod.snd) := by
  induction files generalizing st with
  | nil => simp
  | cons file files ih =>
    rw [List.foldl_cons, ih]
    simp [packFile, fileInfo]

/-- **The package.** -/
theorem packGenerate_eq (content : List (List Content)) :
    packGenerate content =
      magic ++ padded (content.flatten.flatMap fileInfo).length ++
        content.flatten.flatMap fileInfo ++ content.flatten.flatMap Prod.snd := by
  have hfold : content.foldl (fun st subdir => subdir.foldl packFile st) ([], []) =
      (content.flatten.flatMap fileInfo, content.flatten.flatMap Prod.snd) := by
    rw [← List.foldl_flatten, foldl_packFile]
    rfl
  rw [packGenerate, hfold]
  rfl

end Pack

/-! ## Numbers -/

section Numbers

variable {c : UInt8} {l : Text} {n : ℕ}

theorem isdigit_iff : isdigit c = true ↔ 48 ≤ c.toNat ∧ c.toNat ≤ 57 := by
  rw [isdigit, Bool.and_eq_true, decide_eq_true_iff, decide_eq_true_iff, UInt8.le_iff_toNat_le,
    UInt8.le_iff_toNat_le]
  rfl

/-- The characters of a number. -/
theorem toNat_of_mem_toDigits {d : Char} (h : d ∈ Nat.toDigits 10 n) :
    (UInt8.ofNat d.toNat).toNat = d.toNat ∧ 48 ≤ d.toNat ∧ d.toNat ≤ 57 := by
  have hdigit := Nat.isDigit_of_mem_toDigits (by decide) (by decide) h
  rw [Char.isDigit, Bool.and_eq_true, decide_eq_true_iff, decide_eq_true_iff, ge_iff_le,
    UInt32.le_iff_toNat_le, UInt32.le_iff_toNat_le] at hdigit
  have hlower : 48 ≤ d.toNat := hdigit.1
  have hupper : d.toNat ≤ 57 := hdigit.2
  refine ⟨?_, hlower, hupper⟩
  rw [UInt8.toNat_ofNat']
  omega

theorem isdigit_of_mem_decimal (h : c ∈ decimal n) : isdigit c = true := by
  obtain ⟨d, hd, rfl⟩ := List.mem_map.mp h
  obtain ⟨heq, hlower, hupper⟩ := toNat_of_mem_toDigits hd
  rw [isdigit_iff, heq]
  exact ⟨hlower, hupper⟩

theorem digitsValue_decimal (n : ℕ) : digitsValue (decimal n) = n := by
  have hfold : digitsValue (decimal n) = Nat.ofDigitChars 10 (Nat.toDigits 10 n) 0 := by
    rw [digitsValue, decimal, ascii, List.foldl_map, Nat.ofDigitChars_eq_foldl]
    refine List.foldl_ext _ _ _ fun m d hd => ?_
    rw [(toNat_of_mem_toDigits hd).1]
    rfl
  rw [hfold, Nat.ofDigitChars_ten_toDigits]

theorem decimal_ne_nil (n : ℕ) : decimal n ≠ [] := fun h =>
  Nat.toDigits_ne_nil (List.map_eq_nil_iff.mp h)

/-- Zeros in front do not count. -/
theorem digitsValue_replicate_append (k : ℕ) (l : Text) :
    digitsValue (List.replicate k 48 ++ l) = digitsValue l := by
  induction k with
  | zero => rfl
  | succ k ih => exact ih

theorem isdigit_of_mem_padded (h : c ∈ padded n) : isdigit c = true := by
  rcases List.mem_append.mp h with h | h
  · rw [(List.mem_replicate.mp h).2]
    rfl
  · exact isdigit_of_mem_decimal h

theorem length_padded (h : n < 10 ^ 4) : (padded n).length = 4 := by
  have hlen : (decimal n).length ≤ 4 := by
    rw [decimal, ascii, List.length_map]
    exact (Nat.length_toDigits_le_iff (by decide) (by decide)).mpr h
  rw [padded, List.length_append, List.length_replicate]
  omega

/-- **Digits** are read as the number they spell. -/
theorem atoi_of_isdigit (hne : l ≠ []) (hl : ∀ c ∈ l, isdigit c = true)
    (hlt : digitsValue l < 2 ^ 31) : atoi l = digitsValue l := by
  obtain ⟨c, l, rfl⟩ := List.exists_cons_of_ne_nil hne
  obtain ⟨hlower, hupper⟩ := isdigit_iff.mp (hl c List.mem_cons_self)
  have hspace := isspace_of_isdigit (hl c List.mem_cons_self)
  rw [atoi, List.dropWhile_cons_of_neg (by rw [hspace]; decide)]
  split
  · rename_i heq
    obtain ⟨rfl, -⟩ := List.cons.inj heq
    exact absurd hlower (by decide)
  · rename_i heq
    obtain ⟨rfl, -⟩ := List.cons.inj heq
    exact absurd hlower (by decide)
  · show clampInt (digitsValue (List.takeWhile isdigit (c :: l))) = _
    rw [List.takeWhile_eq_self_iff.mpr hl, clampInt]
    omega

/-- **A number that is written** is read again. -/
theorem atoi_decimal (h : n < 2 ^ 31) : atoi (decimal n) = n := by
  have heq := digitsValue_decimal n
  rw [atoi_of_isdigit (decimal_ne_nil n) (fun _ => isdigit_of_mem_decimal) (by omega), heq]

/-- And so it is with zeros in front. -/
theorem atoi_padded (h : n < 2 ^ 31) : atoi (padded n) = n := by
  have heq : digitsValue (padded n) = n := by
    rw [padded, digitsValue_replicate_append, digitsValue_decimal]
  have hne : padded n ≠ [] := List.append_ne_nil_of_right_ne_nil _ (decimal_ne_nil n)
  rw [atoi_of_isdigit hne (fun _ => isdigit_of_mem_padded) (by omega), heq]

end Numbers

/-! ## Names -/

/-- What a base name may be made of. -/
def isNameChar (c : UInt8) : Bool :=
  isdigit c || (decide (65 ≤ c) && decide (c ≤ 90)) || (decide (97 ≤ c) && decide (c ≤ 122)) ||
    c == 95 || c == 45 || c == 46

/-- A base name. -/
structure BaseName (name : Text) : Prop where
  ne_nil : name ≠ []
  chars : ∀ c ∈ name, isNameChar c = true
  head_ne_minus : name.head? ≠ some 45
  head_ne_dot : name.head? ≠ some 46

section Names

variable {name : Text}

instance decidableBaseName (name : Text) : Decidable (BaseName name) :=
  decidable_of_iff (name ≠ [] ∧ name.all isNameChar = true ∧ name.head? ≠ some 45 ∧
    name.head? ≠ some 46)
    ⟨fun ⟨h₁, h₂, h₃, h₄⟩ => ⟨h₁, List.all_eq_true.mp h₂, h₃, h₄⟩, fun h =>
      ⟨h.ne_nil, List.all_eq_true.mpr h.chars, h.head_ne_minus, h.head_ne_dot⟩⟩

theorem BaseName.notMem (h : BaseName name) {c : UInt8} (hc : isNameChar c = false) :
    c ∉ name := by
  intro hmem
  rw [h.chars c hmem] at hc
  exact absurd hc (by decide)

theorem BaseName.simple (h : BaseName name) : Paths.Simple marks name where
  ne_nil := h.ne_nil
  slash_notMem := h.notMem (by decide)
  ne_dot heq := h.head_ne_dot (by rw [heq]; rfl)
  ne_dot_dot heq := h.head_ne_dot (by rw [heq]; rfl)

/-- A name is not cut short. -/
theorem BaseName.cstr_eq (h : BaseName name) : cstr name = name := by
  refine List.takeWhile_eq_self_iff.mpr fun c hc => decide_eq_true ?_
  rintro rfl
  exact h.notMem (by decide) hc

end Names

/-! ## The list -/

section Entries

variable {name : Text} {n : ℕ}

theorem notMem_decimal {c : UInt8} (hc : isdigit c = false) (n : ℕ) : c ∉ decimal n := by
  intro hmem
  rw [isdigit_of_mem_decimal hmem] at hc
  exact absurd hc (by decide)

/-- The line of an entry has two tokens. -/
theorem tokens_entry (h : BaseName name) (n : ℕ) :
    tokens 32 (name ++ 32 :: decimal n) = [name, decimal n] := by
  rw [tokens_append_cons h.ne_nil (h.notMem (by decide)),
    tokens_of_notMem (decimal_ne_nil n) (notMem_decimal (by decide) n)]

/-- **An entry as it is written** is read as its name and length. -/
theorem itemOf_entry (h : BaseName name) (hlt : n < 2 ^ 31) :
    itemOf true (name ++ 32 :: decimal n) = .entry name n := by
  rw [itemOf, tokens_entry h]
  show Item.entry (cstr name) (atoi (decimal n)) = _
  rw [h.cstr_eq, atoi_decimal hlt]

/-- The line of an entry ends where the entry does. -/
theorem cutLine_entryText (h : BaseName name) (n : ℕ) (rest : Text) :
    cutLine 59 (entryText name (decimal n) ++ rest) =
      (name ++ 32 :: decimal n, some rest) := by
  have hnot : (59 : UInt8) ∉ name ++ 32 :: decimal n := by
    rw [List.mem_append, List.mem_cons]
    rintro (hname | heq | hdigits)
    · exact h.notMem (by decide) hname
    · exact absurd heq (by decide)
    · exact notMem_decimal (by decide) n hdigits
  rw [entryText, List.append_assoc]
  exact cutLine_of_append hnot rest

end Entries

/-! ## Unpacking -/

section Extract

variable {answers : Answers} {place : Place} {newpath : Text → Except Fault Text}
  {save : Text → Text} {files : List Content} {fuel i : ℕ} {disk : Disk} {opened : List Path}

/-- The disk after a file. -/
def saveFile (place : Place) (save : Text → Text) (disk : Disk) (file : Content) : Disk :=
  Function.update disk (place.path (save file.1)) (some file.2)

/-- A file that can be unpacked to where its name leads. -/
structure CanSave (answers : Answers) (place : Place) (newpath : Text → Except Fault Text)
    (save : Text → Text) (file : Content) : Prop where
  name : BaseName file.1
  length_lt : file.2.length < 2 ^ 31
  newpath_eq : newpath file.1 = .ok (save file.1)
  fopen : ∀ i, answers.fopen i (save file.1) = true
  ne_package : place.path (save file.1) ≠ place.path place.file

/-- **A turn of the loop** for an entry as it is written. -/
theorem unpackLoop_entryText {file : Content} {rest body : Text}
    (hwrite : ∀ i k, answers.fwrite i k = true)
    (h : CanSave answers place newpath save file) :
    unpackLoop answers place newpath (fuel + 1) i (fileInfo file ++ rest) (file.2 ++ body) disk
        opened =
      unpackLoop answers place newpath fuel (i + 1) rest body (saveFile place save disk file)
        (opened ++ [place.path (save file.1)]) := by
  have hne : fileInfo file ++ rest ≠ [] := by
    rw [fileInfo, entryText]
    simp
  have hcopy : CanCopy answers i file.2.length (file.2 ++ body) := by
    refine ⟨Int.natCast_nonneg _, ?_, fun k _ => hwrite i k⟩
    rw [List.length_append]
    omega
  rw [unpackLoop_of_cutLine hne true (cutLine_entryText h.name _ rest),
    itemOf_entry h.name h.length_lt, turnOf,
    unpackEntry_of_canCopy h.newpath_eq (h.fopen i) h.ne_package hcopy, Int.toNat_natCast,
    List.drop_left, List.take_left]
  rfl

/-- **The loop**, over the list of the packer. -/
theorem unpackLoop_flatMap (hwrite : ∀ i k, answers.fwrite i k = true)
    (h : ∀ file ∈ files, CanSave answers place newpath save file)
    (hfuel : files.length ≤ fuel) :
    unpackLoop answers place newpath fuel i (files.flatMap fileInfo) (files.flatMap Prod.snd) disk
        opened =
      .ok ⟨0, files.foldl (saveFile place save) disk,
        opened ++ files.map (fun file => place.path (save file.1)), none⟩ := by
  induction files generalizing fuel i disk opened with
  | nil =>
    rw [List.map_nil, List.append_nil]
    cases fuel <;> rfl
  | cons file files ih =>
    obtain ⟨hfile, hfiles⟩ := List.forall_mem_cons.mp h
    obtain ⟨fuel, rfl⟩ : ∃ k, fuel = k + 1 := Nat.exists_eq_succ_of_ne_zero (by
      rintro rfl
      exact absurd hfuel (Nat.not_succ_le_zero _))
    rw [List.flatMap_cons, List.flatMap_cons, unpackLoop_entryText hwrite hfile,
      ih hfiles (Nat.le_of_succ_le_succ hfuel), List.foldl_cons, List.map_cons, List.append_assoc]
    rfl

end Extract

/-! ## The round trip -/

/-- The system lets files be written by these names. -/
structure Allows (answers : Answers) (names : List Text) : Prop where
  malloc : answers.malloc = true
  fopen : ∀ i, ∀ name ∈ names, answers.fopen i name = true
  fwrite : ∀ i k, answers.fwrite i k = true

/-- Files that can be packed. -/
structure Packable (archive : Text) (files : List Content) : Prop where
  name : ∀ file ∈ files, BaseName file.1
  ne_archive : ∀ file ∈ files, file.1 ≠ archive
  short : ∀ file ∈ files, Tool.unpackPath.length + file.1.length < 256
  distinct : (files.map Prod.fst).Nodup
  length_lt : ∀ file ∈ files, file.2.length < 2 ^ 31
  list_le : (files.flatMap fileInfo).length ≤ unpackMemMaxlen

/-- The files, all of them and nothing else, are in the directory. -/
structure Extracted (dir : Path) (files : List Content) (disk : Disk) (r : Unpacked) : Prop where
  res : r.res = 0
  opened : r.opened = files.map fun file => dir ++ [file.1]
  finished : r.unfinished = none
  contents : ∀ file ∈ files, r.disk (dir ++ [file.1]) = some file.2
  others : ∀ p, (∀ file ∈ files, p ≠ dir ++ [file.1]) → r.disk p = disk p

section RoundTrip

variable {answers : Answers} {place : Place} {newpath : Text → Except Fault Text}
  {save : Text → Text} {content : List (List Content)} {files : List Content} {dir : Path}
  {disk : Disk}

/-- **The header**, as it is written. -/
theorem headerRead_packGenerate (hmalloc : answers.malloc = true)
    (hle : (content.flatten.flatMap fileInfo).length ≤ unpackMemMaxlen) :
    HeaderRead answers (packGenerate content) (content.flatten.flatMap fileInfo)
      (content.flatten.flatMap Prod.snd) := by
  obtain ⟨l, hl⟩ : ∃ l, l = content.flatten.flatMap fileInfo := ⟨_, rfl⟩
  obtain ⟨body, hbody⟩ : ∃ body, body = content.flatten.flatMap Prod.snd := ⟨_, rfl⟩
  rw [packGenerate_eq, ← hl, ← hbody]
  rw [← hl] at hle
  have hmax : unpackMemMaxlen = 4096 := rfl
  have hmagic : magic.length = 4 := rfl
  have hdigits : (padded l.length).length = 4 := length_padded (by omega)
  have hdrop4 : (magic ++ padded l.length ++ l ++ body).drop 4 =
      padded l.length ++ (l ++ body) := by
    rw [List.append_assoc, List.append_assoc, List.drop_left' hmagic]
  have hdrop8 : (magic ++ padded l.length ++ l ++ body).drop 8 = l ++ body := by
    rw [List.append_assoc, List.drop_left']
    rw [List.length_append, hmagic, hdigits]
  have hlen : hdrlen (magic ++ padded l.length ++ l ++ body) = l.length := by
    rw [hdrlen, hdrop4, List.take_left' hdigits, atoi_padded (by omega)]
  constructor
  · rw [List.append_assoc, List.length_append, List.length_append, hmagic, hdigits]
    omega
  · exact hmalloc
  · rw [hlen]
    exact Int.natCast_nonneg _
  · rw [hlen]
    exact Int.ofNat_le.mpr hle
  · rw [hlen, hdrop8, List.length_append]
    omega
  · rw [hlen, hdrop8, Int.toNat_natCast, List.take_left]
  · rw [hlen, hdrop8, Int.toNat_natCast, List.drop_left]

/-- What the loop leaves. -/
theorem extracted_foldl (hnodup : (files.map Prod.fst).Nodup)
    (hpath : ∀ file ∈ files, place.path (save file.1) = dir ++ [file.1]) :
    Extracted dir files disk ⟨0, files.foldl (saveFile place save) disk,
      [] ++ files.map (fun file => place.path (save file.1)), none⟩ := by
  have hmap : files.map (fun file => place.path (save file.1)) =
      files.map (fun file => dir ++ [file.1]) := List.map_congr_left hpath
  have hkeys : (files.map fun file => place.path (save file.1)).Nodup := by
    have hnames : files.map (fun file => dir ++ [file.1]) =
        (files.map Prod.fst).map fun name => dir ++ [name] := by
      rw [List.map_map]
      rfl
    rw [hmap, hnames]
    refine List.Nodup.map (fun name name' heq => ?_) hnodup
    exact (List.cons.inj (List.append_cancel_left heq)).1
  constructor
  · rfl
  · exact hmap
  · rfl
  · intro file hfile
    rw [← hpath file hfile]
    exact foldl_update_of_mem (fun file : Content => place.path (save file.1))
      (fun file => some file.2) hkeys hfile disk
  · intro p hp
    refine foldl_update_of_notMem (fun file : Content => place.path (save file.1))
      (fun file => some file.2) ?_ disk
    rw [hmap, List.mem_map]
    rintro ⟨file, hfile, heq⟩
    exact hp file hfile heq.symm

theorem length_le_length_flatMap (files : List Content) :
    files.length ≤ (files.flatMap fileInfo).length := by
  induction files with
  | nil => exact Nat.le_refl _
  | cons file files ih =>
    rw [List.flatMap_cons, List.length_cons, List.length_append, fileInfo, entryText,
      List.length_append]
    simp only [List.length_cons, List.length_nil]
    omega

/-- **Unpacking a package as it is written**, whatever the names become. -/
theorem unpackWith_packGenerate (save : Text → Text) (hmalloc : answers.malloc = true)
    (hwrite : ∀ i k, answers.fwrite i k = true)
    (hsave : ∀ file ∈ content.flatten, CanSave answers place newpath save file)
    (hpath : ∀ file ∈ content.flatten, place.path (save file.1) = dir ++ [file.1])
    (hnodup : (content.flatten.map Prod.fst).Nodup)
    (hle : (content.flatten.flatMap fileInfo).length ≤ unpackMemMaxlen)
    (hfile : disk (place.path place.file) = some (packGenerate content)) :
    ∃ r, unpackWith answers place newpath disk = .ok r ∧
      Extracted dir content.flatten disk r := by
  refine ⟨_, ?_, extracted_foldl hnodup hpath⟩
  rw [unpackWith, hfile]
  dsimp only
  rw [readHeader_of_headerRead (headerRead_packGenerate hmalloc hle)]
  exact unpackLoop_flatMap hwrite hsave (length_le_length_flatMap _)

end RoundTrip

/-- **Unpacking undoes packing**: of what `pack-generate.sh` writes for files that can be packed,
`install_unpack_file` of the updater makes exactly these files in its directory, and that of the
tool makes them below the directory of the tool. -/
theorem unpack_packGenerate (answers : Answers) (cwd : Path) (archive : Text)
    (content : List (List Content)) (disk : Disk) (harchive : Paths.Simple marks archive)
    (hpack : Packable archive content.flatten)
    (hfile : disk (cwd ++ [archive]) = some (packGenerate content)) :
    (Allows answers (content.flatten.map Prod.fst) →
      ∃ r, installUnpackFile answers ⟨cwd, archive⟩ disk = .ok r ∧
        Extracted cwd content.flatten disk r) ∧
    (Allows answers (content.flatten.map fun file => Tool.unpackPath ++ file.1) →
      ∃ r, Tool.installUnpackFile answers ⟨cwd, archive⟩ Tool.unpackPath disk = .ok r ∧
        Extracted (cwd ++ [Tool.unpackPath.dropLast]) content.flatten disk r) := by
  have hpackage : Place.path ⟨cwd, archive⟩ archive = cwd ++ [archive] :=
    Paths.resolve_of_simple harchive
  constructor
  · intro hallow
    have hpath (file : Content) (hmem : file ∈ content.flatten) :
        Place.path ⟨cwd, archive⟩ file.1 = cwd ++ [file.1] :=
      Paths.resolve_of_simple (hpack.name file hmem).simple
    refine unpackWith_packGenerate (fun name => name) hallow.malloc hallow.fwrite
      (fun file hmem => ?_) hpath hpack.distinct hpack.list_le (hpackage ▸ hfile)
    refine ⟨hpack.name file hmem, hpack.length_lt file hmem, rfl, fun i => ?_, ?_⟩
    · exact hallow.fopen i _ (List.mem_map_of_mem hmem)
    · rw [hpath file hmem, hpackage]
      intro heq
      exact hpack.ne_archive file hmem (List.cons.inj (List.append_cancel_left heq)).1
  · intro hallow
    have hdir : Paths.Simple marks Tool.unpackPath.dropLast := by decide
    have hpath (file : Content) (hmem : file ∈ content.flatten) :
        Place.path ⟨cwd, archive⟩ (Tool.unpackPath ++ file.1) =
          cwd ++ [Tool.unpackPath.dropLast] ++ [file.1] := by
      rw [List.append_assoc]
      exact Paths.resolve_of_simple_of_simple hdir (hpack.name file hmem).simple
    refine unpackWith_packGenerate (fun name => Tool.unpackPath ++ name) hallow.malloc
      hallow.fwrite (fun file hmem => ?_) hpath hpack.distinct hpack.list_le (hpackage ▸ hfile)
    refine ⟨hpack.name file hmem, hpack.length_lt file hmem, ?_, fun i => ?_, ?_⟩
    · exact if_pos (hpack.short file hmem)
    · exact hallow.fopen i _ (List.mem_map_of_mem hmem)
    · rw [hpath file hmem, hpackage]
      intro heq
      have hlen := congrArg List.length heq
      simp at hlen

/-- Two directories of files, one of which is empty. -/
def packed : List (List Content) :=
  [[(ascii ['a', '_', '1'], [104, 105]), (ascii ['b', '.', 'i', 'n', 's', 't'], [])],
    [(ascii ['C', '-'], [59, 32, 0])]]

theorem unpack_packGenerate_packed :
    (∃ r, installUnpackFile allowing updating (withPackage (packGenerate packed)) = .ok r ∧
      r.disk (updating.cwd ++ [ascii ['C', '-']]) = some [59, 32, 0]) ∧
    ∃ r, Tool.installUnpackFile allowing updating Tool.unpackPath
        (withPackage (packGenerate packed)) = .ok r ∧
      r.disk (updating.cwd ++ [Tool.unpackPath.dropLast, ascii ['C', '-']]) =
        some [59, 32, 0] := by
  have harchive : Paths.Simple marks updating.file := by decide
  have hpack : Packable updating.file packed.flatten :=
    ⟨by decide, by decide, by decide, by decide, by decide, by decide⟩
  have hfile : withPackage (packGenerate packed) (updating.cwd ++ [updating.file]) =
      some (packGenerate packed) := by
    rw [← Paths.resolve_of_simple harchive]
    exact Function.update_self ..
  have hallow (names : List Text) : Allows allowing names :=
    ⟨rfl, fun _ _ _ => rfl, fun _ _ => rfl⟩
  have hmem : (ascii ['C', '-'], [59, 32, 0]) ∈ packed.flatten := by decide
  obtain ⟨hupdater, htool⟩ := unpack_packGenerate allowing updating.cwd updating.file packed
    (withPackage (packGenerate packed)) harchive hpack hfile
  obtain ⟨r, hr, hextracted⟩ := hupdater (hallow _)
  obtain ⟨r', hr', hextracted'⟩ := htool (hallow _)
  exact ⟨⟨r, hr, hextracted.contents _ hmem⟩, r', hr', hextracted'.contents _ hmem⟩

end Ltm

end Tqos
