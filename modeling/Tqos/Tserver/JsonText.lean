import Mathlib.Data.List.TakeWhile
import Tqos.Tserver.Json

/-!
# The text of a JSON object

`json_object_to_json_string` prints with one blank before every element and before the closing
bracket, and a string with a backslash before the characters that need one. The replies are printed
this way, so how long a reply is can be read off the object.

## Main definitions

* `Json.spaced` — the text json-c prints
* `JsonC.Prints` — the printer of a `JsonC` is that one
* `JsonC.reading` — a printer together with a tokener that reads some of its texts back
-/

namespace Tqos

/-! ## Strings -/

/-- `json_hex_chars`. -/
def jsonHexChar (n : ℕ) : Char := ("0123456789abcdef".toList).getD n '0'

/-- What `json_escape_str` makes of one character. -/
def escapeChar (c : Char) : List Char :=
  if c = '\x08' then ['\\', 'b']
  else if c = '\n' then ['\\', 'n']
  else if c = '\r' then ['\\', 'r']
  else if c = '\t' then ['\\', 't']
  else if c = '\x0c' then ['\\', 'f']
  else if c = '"' ∨ c = '\\' ∨ c = '/' then ['\\', c]
  else if c.toNat < 32 then
    ['\\', 'u', '0', '0', jsonHexChar (c.toNat / 16), jsonHexChar (c.toNat % 16)]
  else [c]

/-- `json_escape_str`. -/
def escape (s : List Char) : List Char := s.flatMap escapeChar

/-- A string between its quotes. -/
def quote (s : List Char) : List Char := '"' :: (escape s ++ ['"'])

@[simp] theorem length_quote (s : List Char) : (quote s).length = (escape s).length + 2 := by
  simp [quote]

theorem length_escapeChar_le (c : Char) : (escapeChar c).length ≤ 6 := by
  rw [escapeChar]
  repeat' split
  all_goals simp

/-- Escaping makes a string at most six times as long. -/
theorem length_escape_le (s : List Char) : (escape s).length ≤ 6 * s.length := by
  induction s with
  | nil => simp [escape]
  | cons c s ih =>
    have hc := length_escapeChar_le c
    rw [escape] at ih
    rw [escape, List.flatMap_cons, List.length_append, List.length_cons]
    omega

theorem escape_append (s t : List Char) : escape (s ++ t) = escape s ++ escape t :=
  List.flatMap_append

/-- A digit needs no backslash. -/
theorem escapeChar_of_isDigit {c : Char} (h : c.isDigit = true) : escapeChar c = [c] := by
  have hne : ∀ d : Char, d.isDigit = false → c ≠ d := by
    rintro d hd rfl
    exact absurd h (Bool.eq_false_iff.mp hd)
  have hlow : 48 ≤ c.toNat := (Char.isDigit_iff_toNat.mp h).1
  have hspecial : ¬ (c = '"' ∨ c = '\\' ∨ c = '/') := by
    rintro (rfl | rfl | rfl) <;> exact absurd h (by decide)
  rw [escapeChar, if_neg (hne _ (by decide)), if_neg (hne _ (by decide)),
    if_neg (hne _ (by decide)), if_neg (hne _ (by decide)), if_neg (hne _ (by decide)),
    if_neg hspecial, if_neg (by omega)]

/-- So do numbers that are not negative. -/
theorem escape_toDec (n : ℕ) : escape (toDec n) = toDec n := by
  have hdigits : ∀ c ∈ toDec n, c.isDigit = true := by
    rw [toDec, if_neg (by omega)]
    exact fun c hc => Nat.isDigit_of_mem_toDigits (by decide) (by decide) hc
  have hall : ∀ l : List Char, (∀ c ∈ l, c.isDigit = true) → escape l = l := by
    intro l hl
    induction l with
    | nil => rfl
    | cons c l ih =>
      obtain ⟨hc, hl⟩ := List.forall_mem_cons.mp hl
      rw [escape, List.flatMap_cons, escapeChar_of_isDigit hc]
      exact congrArg (c :: ·) (ih hl)
  exact hall _ hdigits

/-! ## Values -/

/-- The elements of a container between its brackets. -/
def bracketed (l r : Char) (parts : List (List Char)) : List Char :=
  l :: ([','].intercalate (parts.map fun p => ' ' :: p) ++ [' ', r])

mutual

/-- `json_object_to_json_string`. -/
def Json.spaced : Json → List Char
  | .null => ['n', 'u', 'l', 'l']
  | .bool b => if b then ['t', 'r', 'u', 'e'] else ['f', 'a', 'l', 's', 'e']
  | .int n => toDec n
  | .double text => text
  | .string s => quote s
  | .array l => bracketed '[' ']' (spacedElems l)
  | .object l => bracketed '{' '}' (spacedFields l)

/-- The texts of the elements of an array. -/
def spacedElems : List Json → List (List Char)
  | [] => []
  | j :: l => j.spaced :: spacedElems l

/-- The texts of the fields of an object. -/
def spacedFields : List (List Char × Json) → List (List Char)
  | [] => []
  | (name, j) :: l => (quote name ++ [':', ' '] ++ j.spaced) :: spacedFields l

end

/-- What json-c promises of its texts: it prints as above, and what the tokener made of a C string
prints without a NUL. -/
structure JsonC.Prints (jc : JsonC) : Prop where
  print_eq : ∀ j, jc.toJsonString j = j.spaced
  nul_notMem : ∀ t j, jc.tokenerParse t = some j → '\x00' ∉ j.spaced

/-- A tokener that reads back the texts of the values it is given, and no other text. -/
def JsonC.reading (vals : List Json) : JsonC where
  tokenerParse t := vals.find? fun j => decide (j.spaced = t)
  toJsonString := Json.spaced

/-- Values with different texts are all read back. -/
theorem JsonC.tokenerParse_reading {vals : List Json} (hdiff : (vals.map Json.spaced).Nodup)
    {v : Json} (hv : v ∈ vals) : (JsonC.reading vals).tokenerParse v.spaced = some v := by
  show vals.find? (fun j => decide (j.spaced = v.spaced)) = some v
  induction vals with
  | nil => exact absurd hv List.not_mem_nil
  | cons u vals ih =>
    rw [List.map_cons, List.nodup_cons] at hdiff
    rcases List.mem_cons.mp hv with rfl | hv
    · exact List.find?_cons_of_pos (decide_eq_true rfl)
    · have hne : u.spaced ≠ v.spaced := fun h => hdiff.1 (h ▸ List.mem_map_of_mem hv)
      rw [List.find?_cons_of_neg (by simpa using hne)]
      exact ih hdiff.2 hv

theorem JsonC.tokenerParse_reading_singleton (v : Json) :
    (JsonC.reading [v]).tokenerParse v.spaced = some v := by
  refine JsonC.tokenerParse_reading ?_ List.mem_cons_self
  exact List.nodup_singleton v.spaced

theorem JsonC.prints_reading {vals : List Json} (h : ∀ j ∈ vals, '\x00' ∉ j.spaced) :
    (JsonC.reading vals).Prints :=
  ⟨fun _ => rfl, fun _ j hj => h j (List.mem_of_find?_eq_some hj)⟩

theorem JsonC.prints_reading_nil : (JsonC.reading []).Prints :=
  JsonC.prints_reading fun _ h => absurd h List.not_mem_nil

/-! ## Lengths -/

theorem length_intercalate_singleton (c : Char) (parts : List (List Char)) :
    ([c].intercalate parts).length = (parts.map List.length).sum + (parts.length - 1) := by
  induction parts with
  | nil => rfl
  | cons p parts ih =>
    cases parts with
    | nil => simp [List.intercalate]
    | cons q parts =>
      rw [List.intercalate_cons_cons, List.length_append, List.length_append, ih]
      simp only [List.map_cons, List.sum_cons, List.length_cons, List.length_nil]
      omega

/-- A dotted quad has at most 15 characters. -/
theorem length_inetNtoa_le (ip : UInt32) : (inetNtoa ip).length ≤ 15 := by
  have hdigits : ∀ b : UInt8, (Nat.toDigits 10 b.toNat).length ≤ 3 := fun b =>
    (Nat.length_toDigits_le_iff (by decide) (by decide)).mpr
      (lt_of_lt_of_le b.toNat_lt (by decide))
  rw [inetNtoa, length_intercalate_singleton, List.length_map, length_le32, List.map_map]
  obtain ⟨a, b, c, d, habcd⟩ : ∃ a b c d, le32 ip = [a, b, c, d] := ⟨_, _, _, _, rfl⟩
  have ha := hdigits a
  have hb := hdigits b
  have hc := hdigits c
  have hd := hdigits d
  simp only [habcd, List.map_cons, List.map_nil, List.sum_cons, List.sum_nil,
    Function.comp_apply]
  omega

/-- A container takes two characters for every element, but one less for the first, and three for
the brackets and the last blank. -/
theorem length_bracketed (l r : Char) (parts : List (List Char)) :
    (bracketed l r parts).length =
      (parts.map List.length).sum + parts.length + (parts.length - 1) + 3 := by
  have hmap : ((parts.map fun p => ' ' :: p).map List.length).sum =
      (parts.map List.length).sum + parts.length := by
    induction parts with
    | nil => rfl
    | cons p parts ih =>
      simp only [List.map_cons, List.sum_cons, List.length_cons, ih]
      omega
  rw [bracketed, List.length_cons, List.length_append, length_intercalate_singleton, hmap,
    List.length_map]
  simp only [List.length_cons, List.length_nil]

theorem length_spacedFields (l : List (List Char × Json)) : (spacedFields l).length = l.length := by
  induction l with
  | nil => rfl
  | cons f l ih => rw [spacedFields, List.length_cons, ih, List.length_cons]

theorem sum_length_spacedFields (l : List (List Char × Json)) :
    ((spacedFields l).map List.length).sum =
      (l.map fun f => (escape f.1).length + 4 + f.2.spaced.length).sum := by
  induction l with
  | nil => rfl
  | cons f l ih =>
    rw [spacedFields, List.map_cons, List.sum_cons, ih, List.map_cons, List.sum_cons,
      List.length_append, List.length_append, length_quote]
    rfl

theorem spacedElems_eq (l : List Json) : spacedElems l = l.map Json.spaced := by
  induction l with
  | nil => rfl
  | cons j l ih => rw [spacedElems, ih, List.map_cons]

/-- How long an array is printed. -/
theorem length_spaced_array (l : List Json) :
    (Json.array l).spaced.length =
      (l.map fun j => j.spaced.length).sum + l.length + (l.length - 1) + 3 := by
  rw [Json.spaced, length_bracketed, spacedElems_eq, List.length_map, List.map_map]
  rfl

/-- **How long an object is printed.** -/
theorem length_spaced_object (l : List (List Char × Json)) :
    (Json.object l).spaced.length =
      (l.map fun f => (escape f.1).length + 4 + f.2.spaced.length).sum + l.length +
        (l.length - 1) + 3 := by
  rw [Json.spaced, length_bracketed, sum_length_spacedFields, length_spacedFields]

/-- The characters of an object that are not those of its values. -/
def nameChars (names : List String) : ℕ :=
  (names.map fun name => (escape name.toList).length + 4).sum + names.length +
    (names.length - 1) + 3

/-- How long an object with the given fields is printed. -/
theorem length_spaced_obj (l : List (String × Json)) :
    (Json.obj l).spaced.length =
      nameChars (l.map Prod.fst) + (l.map fun f => f.2.spaced.length).sum := by
  have hsum : ((l.map fun f => (f.1.toList, f.2)).map fun f =>
        (escape f.1).length + 4 + f.2.spaced.length).sum =
      ((l.map Prod.fst).map fun name => (escape name.toList).length + 4).sum +
        (l.map fun f => f.2.spaced.length).sum := by
    induction l with
    | nil => rfl
    | cons f l ih =>
      simp only [List.map_cons, List.sum_cons] at ih ⊢
      omega
  rw [Json.obj, length_spaced_object, hsum, nameChars, List.length_map, List.length_map]
  omega

/-! ## No NUL

A NUL would end the text early. -/

/-- A string without a NUL is a C string as it stands. -/
theorem cstr_eq_self {s : List Char} (h : '\x00' ∉ s) : cstr s = s := by
  refine List.takeWhile_eq_self_iff.mpr fun c hc => ?_
  rw [decide_eq_true_eq]
  rintro rfl
  exact h hc

theorem jsonHexChar_ne_nul (n : ℕ) : jsonHexChar n ≠ '\x00' := by
  rcases Nat.lt_or_ge n 16 with hn | hn
  · revert n
    decide
  · rw [jsonHexChar, List.getD_eq_getElem?_getD, List.getElem?_eq_none hn]
    decide

theorem nul_notMem_escapeChar (c : Char) : '\x00' ∉ escapeChar c := by
  rcases eq_or_ne c '\x00' with rfl | hc
  · decide
  · have hhex := jsonHexChar_ne_nul (c.toNat / 16)
    have hhex' := jsonHexChar_ne_nul (c.toNat % 16)
    rw [escapeChar]
    repeat' split
    all_goals simp [hc.symm, hhex.symm, hhex'.symm]

theorem nul_notMem_quote (s : List Char) : '\x00' ∉ quote s := by
  simp only [quote, List.mem_cons, List.mem_append, escape, List.mem_flatMap, List.not_mem_nil,
    or_false, not_or, not_exists, not_and]
  exact ⟨by decide, fun c _ => nul_notMem_escapeChar c, by decide⟩

theorem notMem_bracketed {c l r : Char} {parts : List (List Char)} (hl : c ≠ l) (hr : c ≠ r)
    (hcomma : c ≠ ',') (hblank : c ≠ ' ') (h : ∀ p ∈ parts, c ∉ p) : c ∉ bracketed l r parts := by
  have hparts : c ∉ [','].intercalate (parts.map fun p => ' ' :: p) := by
    induction parts with
    | nil => simp
    | cons p parts ih =>
      have hp : c ∉ ' ' :: p :=
        List.not_mem_cons_of_ne_of_not_mem hblank (h p List.mem_cons_self)
      have ih := ih fun q hq => h q (List.mem_cons_of_mem _ hq)
      cases parts with
      | nil => simpa using hp
      | cons q parts =>
        rw [List.map_cons, List.map_cons, List.intercalate_cons_cons, List.mem_append,
          List.mem_append, List.mem_singleton]
        rintro ((hmem | hmem) | hmem)
        · exact hp hmem
        · exact hcomma hmem
        · exact ih hmem
  rw [bracketed, List.mem_cons, List.mem_append, List.mem_cons, List.mem_singleton]
  rintro (hmem | hmem | hmem | hmem)
  · exact hl hmem
  · exact hparts hmem
  · exact hblank hmem
  · exact hr hmem

/-- An object is printed without a NUL if its values are. -/
theorem nul_notMem_object {l : List (List Char × Json)} (h : ∀ f ∈ l, '\x00' ∉ f.2.spaced) :
    '\x00' ∉ (Json.object l).spaced := by
  refine notMem_bracketed (by decide) (by decide) (by decide) (by decide) fun p hp => ?_
  induction l with
  | nil => exact absurd hp List.not_mem_nil
  | cons f l ih =>
    rw [spacedFields, List.mem_cons] at hp
    rcases hp with rfl | hp
    · rw [List.mem_append, List.mem_append]
      rintro ((hmem | hmem) | hmem)
      · exact nul_notMem_quote _ hmem
      · exact absurd hmem (by decide)
      · exact h f List.mem_cons_self hmem
    · exact ih (fun g hg => h g (List.mem_cons_of_mem _ hg)) hp

/-- The same with the fields of a literal object. -/
theorem nul_notMem_obj {l : List (String × Json)} (h : ∀ f ∈ l, '\x00' ∉ f.2.spaced) :
    '\x00' ∉ (Json.obj l).spaced := by
  refine nul_notMem_object fun f hf => ?_
  obtain ⟨g, hg, rfl⟩ := List.mem_map.mp hf
  exact h g hg

end Tqos
