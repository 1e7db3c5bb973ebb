import Mathlib.Algebra.Order.BigOperators.Group.List
import Tqos.Lib.Tokens
import Tqos.Tserver.JsonText
import Tqos.Tserver.TokenTable

/-!
# What a host has sent since

`calc_trac_dealt` takes the lines of two samples apart, and looks for each host of the newer one in
the older one. `calc_trac_array` makes a string of the address and the difference. Both get their
input as JSON text and print their result.

A counter is read with `atoi`, which stops at `2 ^ 31 - 1`, and kept in mebibytes: no flow is larger
than 2047.

## Main results

* `dealtHosts_eq` — the comparison of two lists of hosts
* `ipFlow_eq` — the string of a host, with the bounds of its arrays
* `calcTracArray_calcTracDealt` — the strings for two samples
* `calcTracArray_fits_iff` — when they fit into their arrays
-/

namespace Tqos

/-! ## Hosts -/

/-- Which way the traffic goes. -/
inductive Way
  | up
  | down
deriving DecidableEq, Repr

/-- The argument `updown`. -/
def Way.name : Way → String
  | .up => "up"
  | .down => "down"

/-- The column of the counter. -/
def Way.column : Way → ℕ
  | .up => 5
  | .down => 19

theorem Way.forall_iff {P : Way → Prop} : (∀ w, P w) ↔ P .up ∧ P .down := by
  constructor
  · intro h
    exact ⟨h .up, h .down⟩
  · rintro ⟨hup, hdown⟩ w
    cases w with
    | up => exact hup
    | down => exact hdown

instance {P : Way → Prop} [DecidablePred P] : Decidable (∀ w, P w) :=
  decidable_of_iff _ Way.forall_iff.symm

/-- A line of a sample, as far as it is looked at: the address and the counters. -/
structure TracHost where
  ip : List Char
  bytes : Way → ℕ

/-- A counter in mebibytes, as far as `atoi` can read it. -/
def mebibytes (n : ℕ) : ℕ := min n (2 ^ 31 - 1) / 2 ^ 20

theorem mebibytes_le (n : ℕ) : mebibytes n ≤ 2047 := by
  rw [mebibytes]
  omega

/-- The object `acquire_trac_data` makes of the line. -/
def TracHost.json (h : TracHost) : Json :=
  Json.obj [("ip", .string h.ip), ("up", .int (mebibytes (h.bytes .up))),
    ("down", .int (mebibytes (h.bytes .down)))]

/-- What a host has sent since it was listed before, or at all. -/
def growth (older : List TracHost) (w : Way) (h : TracHost) : ℕ :=
  match older.find? fun o => o.ip = h.ip with
  | some o => mebibytes (h.bytes w) - mebibytes (o.bytes w)
  | none => mebibytes (h.bytes w)

theorem growth_le (older : List TracHost) (w : Way) (h : TracHost) : growth older w h ≤ 2047 := by
  have hle := mebibytes_le (h.bytes w)
  rw [growth]
  split <;> omega

/-- The object `calc_trac_dealt` makes of a host. -/
def dealtHost (older : List TracHost) (h : TracHost) : Json :=
  match older.find? fun o => o.ip = h.ip with
  | some o => Json.obj [("down", .int (growth older .down h)), ("up", .int (growth older .up h)),
      ("ip", .string o.ip)]
  | none => h.json

/-! ## From a line to a host -/

/-- A counter of a line. -/
def counter (toks : List (List Char)) (w : Way) : ℕ :=
  Nat.ofDigitChars 10 (toks.getD w.column []) 0

/-- The host of a line. -/
def TracHost.ofLine (toks : List (List Char)) : TracHost := ⟨toks.getD 2 [], counter toks⟩

/-- The counters of a line are decimal numbers. -/
def Decimal (toks : List (List Char)) : Prop :=
  ∀ w : Way, (toks.getD w.column []).all Char.isDigit = true

instance : DecidablePred Decimal := fun toks =>
  inferInstanceAs (Decidable (∀ w : Way, (toks.getD w.column []).all Char.isDigit = true))

/-- **A decimal counter in mebibytes.** -/
theorem mebi_of_digits {t : List Char} (h : t.all Char.isDigit = true) :
    mebi t = mebibytes (Nat.ofDigitChars 10 t 0) := by
  rw [List.all_eq_true] at h
  have hatoi : atoi t = jsonObjectGetInt (Nat.ofDigitChars 10 t 0) := by
    cases t with
    | nil => rfl
    | cons c t =>
      have hc := h c List.mem_cons_self
      have hall : (c :: t).takeWhile Char.isDigit = c :: t := List.takeWhile_eq_self_iff.mpr h
      have hblank : ¬ isspace c = true := by
        rw [isspace_of_isDigit hc]
        decide
      rw [atoi, List.dropWhile_cons_of_neg hblank]
      dsimp only
      -- it begins with no sign
      split
      · rename_i heq
        obtain ⟨rfl, -⟩ := List.cons.inj heq
        exact absurd hc (by decide)
      · rename_i heq
        obtain ⟨rfl, -⟩ := List.cons.inj heq
        exact absurd hc (by decide)
      · rw [hall]
  have hread : atoi t = (min (Nat.ofDigitChars 10 t 0) (2 ^ 31 - 1) : ℕ) := by
    rw [hatoi, jsonObjectGetInt]
    omega
  have hdiv : ∀ m : ℕ, ((m : ℤ).tdiv 1024).tdiv 1024 = (m / 2 ^ 20 : ℕ) := by
    intro m
    have hprod : 1024 * 1024 = 2 ^ 20 := rfl
    show ((m / 1024 / 1024 : ℕ) : ℤ) = _
    rw [Nat.div_div_eq_div_mul, hprod]
  rw [mebi, hread, mebibytes, hdiv]

/-- **The object of a line** that is long enough. -/
theorem lineHost_eq {toks : List (List Char)} (hlen : 20 ≤ toks.length) (hdec : Decimal toks) :
    lineHost toks = (TracHost.ofLine toks).json := by
  have hfield : ∀ j < 20, ∀ (name : String) (value : List Char → Json),
      lineField toks j name value = [(name, value (toks.getD j []))] := by
    intro j hj name value
    have hj : j < toks.length := by omega
    rw [lineField, List.getD_eq_getElem?_getD, List.getElem?_eq_getElem hj]
    rfl
  have hup : mebi (toks.getD 5 []) = mebibytes (counter toks .up) := mebi_of_digits (hdec .up)
  have hdown : mebi (toks.getD 19 []) = mebibytes (counter toks .down) :=
    mebi_of_digits (hdec .down)
  rw [lineHost, hfield 2 (by decide), hfield 5 (by decide), hfield 19 (by decide), hup, hdown]
  rfl

/-! ## The comparison -/

section Compare

variable {h o : TracHost} {older newer : List TracHost} {w : Way}

theorem getEx_ip (h : TracHost) : jsonObjectObjectGetEx h.json "ip" = some (.string h.ip) := by
  simp [jsonObjectObjectGetEx, TracHost.json, Json.obj, Json.ptr]

theorem getEx_way (h : TracHost) (w : Way) :
    jsonObjectObjectGetEx h.json w.name = some (.int (mebibytes (h.bytes w))) := by
  cases w with
  | up | down =>
    simp [jsonObjectObjectGetEx, TracHost.json, Json.obj, List.lookup_cons, Json.ptr, Way.name]

theorem getString_json (hnul : '\x00' ∉ h.ip) :
    tqJsonGetString (some h.json) "ip" = .ok (some h.ip) := by
  rw [tqJsonGetString, getEx_ip]
  dsimp only
  rw [cstr_eq_self hnul]

/-- A number of mebibytes is read back as it is. -/
theorem jsonObjectGetInt_of_le {n : ℕ} (hn : n ≤ 2047) : jsonObjectGetInt n = n := by
  rw [jsonObjectGetInt]
  omega

theorem getInt_json (h : TracHost) (w : Way) :
    tqJsonGetInt (some h.json) w.name = .ok (mebibytes (h.bytes w) : ℤ) := by
  rw [tqJsonGetInt_some, intField_of_int (getEx_way h w),
    jsonObjectGetInt_of_le (mebibytes_le (h.bytes w))]

/-- **The difference** of two counters, or 0. -/
theorem dealtFlow_eq (o h : TracHost) (w : Way) :
    dealtFlow (some o.json) (some h.json) w.name =
      .ok ((mebibytes (h.bytes w) - mebibytes (o.bytes w) : ℕ) : ℤ) := by
  rw [dealtFlow, getInt_json, getInt_json]
  refine congrArg Except.ok ?_
  by_cases hlt : (mebibytes (o.bytes w) : ℤ) < mebibytes (h.bytes w)
  · rw [if_pos hlt]
    omega
  · rw [if_neg hlt]
    omega

/-- **The search** stops at the first older host with the address. -/
theorem findHost_eq (hnul : '\x00' ∉ h.ip) (hnuls : ∀ o ∈ older, '\x00' ∉ o.ip) :
    findHost (some h.json) (older.map TracHost.json) =
      .ok ((older.find? fun o => o.ip = h.ip).map fun o =>
        Json.obj [("down", .int (mebibytes (h.bytes .down) - mebibytes (o.bytes .down) : ℕ)),
          ("up", .int (mebibytes (h.bytes .up) - mebibytes (o.bytes .up) : ℕ)),
          ("ip", .string o.ip)]) := by
  induction older with
  | nil => rfl
  | cons o older ih =>
    obtain ⟨ho, hrest⟩ := List.forall_mem_cons.mp hnuls
    rw [List.map_cons, findHost]
    show (tqJsonGetString (some o.json) "ip" >>= _) = _
    rw [getString_json ho, getString_json hnul]
    by_cases heq : o.ip = h.ip
    · have hcmp : (o.ip == h.ip) = true := beq_iff_eq.mpr heq
      rw [List.find?_cons_of_pos (by simpa using heq)]
      show (if (o.ip == h.ip) = true then _ else _) = _
      rw [if_pos hcmp]
      show (dealtFlow (some o.json) (some h.json) Way.down.name >>= _) = _
      rw [dealtFlow_eq]
      show (dealtFlow (some o.json) (some h.json) Way.up.name >>= _) = _
      rw [dealtFlow_eq]
      rfl
    · have hcmp : ¬ (o.ip == h.ip) = true := fun h' => heq (beq_iff_eq.mp h')
      rw [List.find?_cons_of_neg (by simpa using heq)]
      show (if (o.ip == h.ip) = true then _ else _) = _
      rw [if_neg hcmp]
      exact ih hrest

/-- **The comparison of two lists of hosts.** -/
theorem dealtHosts_eq (hnuls : ∀ h ∈ older ++ newer, '\x00' ∉ h.ip) :
    dealtHosts (older.map TracHost.json) (newer.map TracHost.json) =
      .ok (newer.map (dealtHost older)) := by
  rw [List.forall_mem_append] at hnuls
  rw [dealtHosts, mapM_eq_ok, List.forall₂_map_left_iff, List.forall₂_map_right_iff,
    List.forall₂_same]
  intro h hh
  show (findHost (some h.json) _ >>= _) = _
  rw [findHost_eq (hnuls.2 h hh) hnuls.1, dealtHost, growth, growth]
  cases older.find? fun o => o.ip = h.ip with
  | none => rfl
  | some o => rfl

end Compare

/-! ## The strings -/

/-- `ip:flow`. -/
def flowText (older : List TracHost) (w : Way) (h : TracHost) : List Char :=
  h.ip ++ [':'] ++ toDec (growth older w h)

section Strings

variable {jc : JsonC} {h : TracHost} {older newer : List TracHost} {w : Way}

theorem getEx_dealtHost_ip (older : List TracHost) (h : TracHost) :
    jsonObjectObjectGetEx (dealtHost older h) "ip" = some (.string h.ip) := by
  rw [dealtHost]
  cases hfind : older.find? fun o => o.ip = h.ip with
  | none => exact getEx_ip h
  | some o =>
    have heq : o.ip = h.ip := by simpa using List.find?_some hfind
    simp [jsonObjectObjectGetEx, Json.obj, List.lookup_cons, Json.ptr, heq]

theorem getEx_dealtHost_way (older : List TracHost) (h : TracHost) (w : Way) :
    jsonObjectObjectGetEx (dealtHost older h) w.name = some (.int (growth older w h)) := by
  rw [dealtHost]
  cases hfind : older.find? fun o => o.ip = h.ip with
  | none =>
    have hnew : growth older w h = mebibytes (h.bytes w) := by
      rw [growth, hfind]
    rw [hnew]
    exact getEx_way h w
  | some o =>
    cases w with
    | up | down => simp [jsonObjectObjectGetEx, Json.obj, List.lookup_cons, Json.ptr, Way.name]

theorem ptr_dealtHost (older : List TracHost) (h : TracHost) :
    (dealtHost older h).ptr = some (dealtHost older h) := by
  rw [dealtHost]
  split <;> rfl

/-- A flow has at most four digits. -/
theorem length_toDec_growth (older : List TracHost) (w : Way) (h : TracHost) :
    (toDec (growth older w h)).length = (Nat.toDigits 10 (growth older w h)).length ∧
      (toDec (growth older w h)).length ≤ 4 := by
  have hdec : toDec (growth older w h) = Nat.toDigits 10 (growth older w h) := by
    rw [toDec, if_neg (by omega), Int.natAbs_natCast]
  have hle := growth_le older w h
  rw [hdec]
  refine ⟨rfl, (Nat.length_toDigits_le_iff (by decide) (by decide)).mpr ?_⟩
  omega

/-- **The string of a host.** The address alone and the flow fit if the whole does. -/
theorem ipFlow_eq (hnul : '\x00' ∉ h.ip) :
    ipFlow (dealtHost older h).ptr w.name = strcpy 20 (flowText older w h) := by
  have hflow := (length_toDec_growth older w h).2
  have hread := jsonObjectGetInt_of_le (growth_le older w h)
  rw [ptr_dealtHost, ipFlow, tqJsonGetString, getEx_dealtHost_ip, tqJsonGetInt_some,
    intField_of_int (getEx_dealtHost_way older h w), hread]
  show (strcpyPtr 20 (some (cstr h.ip)) >>= _) = _
  rw [cstr_eq_self hnul, strcpyPtr]
  by_cases hip : h.ip.length < 20
  · rw [strcpy, if_pos hip]
    show (strcpy 10 (toDec (growth older w h)) >>= _) = _
    rw [strcpy, if_pos (by omega)]
    rfl
  · have hlong : ¬ (flowText older w h).length < 20 := by
      rw [flowText, List.length_append, List.length_append]
      omega
    rw [strcpy, if_neg hip, strcpy, if_neg hlong]
    rfl

/-- What is printed is not empty. -/
theorem spaced_array_ne_nil (l : List Json) : (Json.array l).spaced ≠ [] := by
  rw [Json.spaced, bracketed]
  exact List.cons_ne_nil _ _

/-- **The strings for a comparison.** -/
theorem calcTracArray_eq (hjc : jc.Prints)
    (hround : jc.tokenerParse (jc.toJsonString (.array (newer.map (dealtHost older)))) =
      some (.array (newer.map (dealtHost older)))) (hnul : ∀ h ∈ newer, '\x00' ∉ h.ip) :
    calcTracArray jc (jc.toJsonString (.array (newer.map (dealtHost older)))) w.name = (do
      let array ← newer.mapM fun h => strcpy 20 (flowText older w h)
      strcpy sizeBufArray (jc.toJsonString (.array (array.map .string)))) := by
  have hne : jc.toJsonString (.array (newer.map (dealtHost older))) ≠ [] := by
    rw [hjc.print_eq]
    exact spaced_array_ne_nil _
  have hstrings : (newer.map (dealtHost older)).mapM (fun o => ipFlow o.ptr w.name) =
      newer.mapM fun h => strcpy 20 (flowText older w h) := by
    rw [List.mapM_map]
    exact mapM_congr fun h hh => ipFlow_eq (hnul h hh)
  rw [calcTracArray, if_neg hne, hround]
  dsimp only [arrayElems]
  rw [hstrings]

/-- The strings fit, and so does the array of them. -/
theorem calcTracArray_of_fits (hjc : jc.Prints)
    (hround : jc.tokenerParse (jc.toJsonString (.array (newer.map (dealtHost older)))) =
      some (.array (newer.map (dealtHost older)))) (hnul : ∀ h ∈ newer, '\x00' ∉ h.ip)
    (hflows : ∀ h ∈ newer, (flowText older w h).length < 20)
    (harray : (jc.toJsonString (.array (newer.map fun h => .string (flowText older w h)))).length <
      sizeBufArray) :
    calcTracArray jc (jc.toJsonString (.array (newer.map (dealtHost older)))) w.name =
      .ok (jc.toJsonString (.array (newer.map fun h => .string (flowText older w h)))) := by
  have hstrings : newer.mapM (fun h => strcpy 20 (flowText older w h)) =
      .ok (newer.map (flowText older w)) := by
    rw [mapM_eq_ok, List.forall₂_map_right_iff, List.forall₂_same]
    exact fun h hh => if_pos (hflows h hh)
  rw [calcTracArray_eq hjc hround hnul, hstrings]
  show strcpy sizeBufArray (jc.toJsonString (.array ((newer.map _).map _))) = _
  rw [List.map_map]
  exact if_pos harray

/-- **When there are strings**, where the array of them fits: exactly if each fits. -/
theorem exists_calcTracArray_iff (hjc : jc.Prints)
    (hround : jc.tokenerParse (jc.toJsonString (.array (newer.map (dealtHost older)))) =
      some (.array (newer.map (dealtHost older)))) (hnul : ∀ h ∈ newer, '\x00' ∉ h.ip)
    (harray : (jc.toJsonString (.array (newer.map fun h => .string (flowText older w h)))).length <
      sizeBufArray) :
    (∃ array, calcTracArray jc (jc.toJsonString (.array (newer.map (dealtHost older)))) w.name =
      .ok array) ↔ ∀ h ∈ newer, (flowText older w h).length < 20 := by
  constructor
  · -- a copy that succeeded fits
    rintro ⟨array, heq⟩ h hh
    rw [calcTracArray_eq hjc hround hnul] at heq
    cases hmap : newer.mapM fun h => strcpy 20 (flowText older w h) with
    | error e =>
      rw [hmap] at heq
      cases heq
    | ok strings =>
      obtain ⟨t, ht⟩ := exists_of_mapM_eq_ok hmap h hh
      by_contra hlong
      rw [strcpy, if_neg hlong] at ht
      cases ht
  · intro hall
    exact ⟨_, calcTracArray_of_fits hjc hround hnul hall harray⟩

/-- The text of a host has its address in it and both numbers, and more than three other
characters. -/
theorem le_length_dealtHost (older : List TracHost) (w : Way) (h : TracHost) :
    (escape h.ip).length + (toDec (growth older w h)).length + 3 ≤
      (dealtHost older h).spaced.length := by
  have hnames : ∀ names, 3 ≤ nameChars names := fun names => Nat.le_add_left 3 _
  rw [dealtHost]
  cases hfind : older.find? fun o => o.ip = h.ip with
  | none =>
    have hnew : growth older w h = mebibytes (h.bytes w) := by
      rw [growth, hfind]
    have hn := hnames (["ip", "up", "down"])
    rw [hnew, TracHost.json, length_spaced_obj]
    simp only [List.map_cons, List.map_nil, List.sum_cons, List.sum_nil, Json.spaced, length_quote]
    cases w <;> omega
  | some o =>
    have heq : o.ip = h.ip := by simpa using List.find?_some hfind
    have hn := hnames (["down", "up", "ip"])
    dsimp only
    rw [length_spaced_obj]
    simp only [List.map_cons, List.map_nil, List.sum_cons, List.sum_nil, Json.spaced, length_quote,
      heq]
    cases w <;> omega

/-- **The array of the strings** is not longer than what it is made of. -/
theorem length_array_le (older newer : List TracHost) (w : Way) :
    (Json.array (newer.map fun h => .string (flowText older w h))).spaced.length ≤
      (Json.array (newer.map (dealtHost older))).spaced.length := by
  have helem : ∀ h ∈ newer, (Json.string (flowText older w h)).spaced.length ≤
      (dealtHost older h).spaced.length := by
    intro h _
    have hle := le_length_dealtHost older w h
    rw [Json.spaced, length_quote, flowText, escape_append, escape_append, escape_toDec,
      List.length_append, List.length_append]
    have hcolon : (escape [':']).length = 1 := rfl
    omega
  have hsum := List.sum_le_sum helem
  rw [length_spaced_array, length_spaced_array, List.length_map, List.length_map, List.map_map,
    List.map_map]
  simp only [Function.comp_def]
  omega

end Strings

/-! ## Two samples -/

/-- A text of the kind that is compared: few lines of one width that are long enough, with counters
that `atoi` can read. -/
structure Sample (text : List Char) : Prop where
  nul : '\x00' ∉ text
  few : (textLines text).length ≤ 19
  width : ∃ n, 20 ≤ n ∧ n ≤ 49 ∧ ∀ l ∈ textLines text, l.length = n
  decimal : ∀ l ∈ textLines text, Decimal l
  small : ∀ l ∈ textLines text, ∀ w, counter l w < 2 ^ 31

/-- What the host of a line has sent since the older sample, in mebibytes. -/
def traffic (older : List (List (List Char))) (w : Way) (l : List (List Char)) : ℤ :=
  match older.find? fun o => o.getD 2 [] = l.getD 2 [] with
  | some o => max 0 ((counter l w : ℤ) / 2 ^ 20 - (counter o w : ℤ) / 2 ^ 20)
  | none => (counter l w : ℤ) / 2 ^ 20

/-- `ip:x` for the host of a line. -/
def trafficText (older : List (List (List Char))) (w : Way) (l : List (List Char)) : List Char :=
  l.getD 2 [] ++ [':'] ++ toDec (traffic older w l)

/-- The objects of the comparison of some lines. -/
def dealtLines (older newer : List (List (List Char))) : List Json :=
  (newer.map TracHost.ofLine).map (dealtHost (older.map TracHost.ofLine))

section Samples

variable {jc : JsonC} {text : List Char} {older : List (List (List Char))}
  {l toks : List (List Char)} {w : Way}

/-- The tokens of a text are C strings. -/
theorem nul_notMem_ip (hnul : '\x00' ∉ text) (hl : l ∈ textLines text) :
    '\x00' ∉ (TracHost.ofLine l).ip := by
  obtain ⟨line, hline, rfl⟩ := List.mem_map.mp hl
  show '\x00' ∉ (strtok ' ' line).getD 2 []
  rw [List.getD_eq_getElem?_getD]
  cases htok : (strtok ' ' line)[2]? with
  | none => exact List.not_mem_nil
  | some t =>
    intro hmem
    exact hnul (mem_of_mem_tokens hline (mem_of_mem_tokens (List.mem_of_getElem? htok) hmem))

theorem Sample.linesAlike (h : Sample text) : LinesAlike (textLines text) := by
  obtain ⟨n, hwide, hnarrow, hall⟩ := h.width
  refine ⟨h.few, fun l hl => ⟨?_, (hall l hl).trans_le hnarrow⟩, fun l hl k _ => ?_⟩
  · rintro rfl
    have hlen := hall [] hl
    rw [List.length_nil] at hlen
    omega
  · have hne := List.ne_nil_of_mem hl
    rw [List.getLast?_eq_some_getLast hne, Option.map_some, Option.getD_some, hall l hl,
      hall _ (List.getLast_mem hne)]

/-- The objects of a sample are those of its hosts. -/
theorem Sample.map_lineHost (h : Sample text) :
    (textLines text).map lineHost =
      ((textLines text).map TracHost.ofLine).map TracHost.json := by
  obtain ⟨n, hwide, -, hall⟩ := h.width
  rw [List.map_map]
  refine List.map_congr_left fun l hl => ?_
  exact lineHost_eq (hwide.trans_eq (hall l hl).symm) (h.decimal l hl)

/-- **A sample is taken apart.** -/
theorem Sample.acquireTracData_eq (h : Sample text)
    (hfits : (jc.toJsonString (.array ((textLines text).map lineHost))).length < sizeBufTrac) :
    acquireTracData jc text = .ok (jc.toJsonString (.array ((textLines text).map lineHost))) := by
  rw [acquireTracData, tracHosts_of_alike h.linesAlike]
  exact if_pos hfits

/-- What a host has sent since the older sample, in terms of the lines. -/
theorem growth_ofLine (holder : ∀ o ∈ older, counter o w < 2 ^ 31) (hl : counter l w < 2 ^ 31) :
    (growth (older.map TracHost.ofLine) w (TracHost.ofLine l) : ℤ) = traffic older w l := by
  have hmebi : ∀ toks : List (List Char), counter toks w < 2 ^ 31 →
      mebibytes ((TracHost.ofLine toks).bytes w) = counter toks w / 2 ^ 20 := by
    intro toks htoks
    show min (counter toks w) (2 ^ 31 - 1) / 2 ^ 20 = _
    rw [min_eq_left (by omega)]
  have hfind : (older.map TracHost.ofLine).find? (fun o => o.ip = (TracHost.ofLine l).ip) =
      (older.find? fun o => o.getD 2 [] = l.getD 2 []).map TracHost.ofLine := List.find?_map
  rw [growth, hfind, traffic, hmebi l hl]
  cases hold : older.find? fun o => o.getD 2 [] = l.getD 2 [] with
  | none =>
    dsimp only [Option.map_none]
    omega
  | some o =>
    have ho := hmebi o (holder o (List.mem_of_find?_eq_some hold))
    dsimp only [Option.map_some]
    rw [ho]
    omega

/-- **The strings for two samples**: each has the address of a line of the newer one, and what the
host has sent since the first line of the older one with the address. -/
theorem calcTracArray_calcTracDealt (jc : JsonC) (hjc : jc.Prints) (s1 s2 : List Char)
    (h1 : Sample s1) (h2 : Sample s2)
    (hround : ∀ v ∈ [(textLines s1).map lineHost, (textLines s2).map lineHost,
        dealtLines (textLines s1) (textLines s2)],
      jc.tokenerParse (jc.toJsonString (.array v)) = some (.array v))
    (hfits1 : (jc.toJsonString (.array ((textLines s1).map lineHost))).length < sizeBufTrac)
    (hfits2 : (jc.toJsonString (.array ((textLines s2).map lineHost))).length < sizeBufTrac)
    (hdealt : (jc.toJsonString (.array (dealtLines (textLines s1) (textLines s2)))).length <
      sizeBufDealt)
    (w : Way) (hflow : ∀ l ∈ textLines s2, (trafficText (textLines s1) w l).length < 20) :
    (calcTracDealt jc s1 s2 >>= fun dealt => calcTracArray jc dealt w.name) =
      .ok (jc.toJsonString
        (.array ((textLines s2).map fun l => .string (trafficText (textLines s1) w l)))) := by
  have hr1 := hround _ List.mem_cons_self
  have hr2 := hround _ (List.mem_cons_of_mem _ List.mem_cons_self)
  have hrd := hround _ (List.mem_cons_of_mem _ (List.mem_cons_of_mem _ List.mem_cons_self))
  have hnul1 : ∀ h ∈ (textLines s1).map TracHost.ofLine, '\x00' ∉ h.ip :=
    List.forall_mem_map.mpr fun l hl => nul_notMem_ip h1.nul hl
  have hnul2 : ∀ h ∈ (textLines s2).map TracHost.ofLine, '\x00' ∉ h.ip :=
    List.forall_mem_map.mpr fun l hl => nul_notMem_ip h2.nul hl
  -- the comparison
  have hcompare : calcTracDealt jc s1 s2 =
      .ok (jc.toJsonString (.array (dealtLines (textLines s1) (textLines s2)))) := by
    have hhosts := dealtHosts_eq (List.forall_mem_append.mpr ⟨hnul1, hnul2⟩)
    rw [← h1.map_lineHost, ← h2.map_lineHost] at hhosts
    rw [calcTracDealt, h2.acquireTracData_eq hfits2, h1.acquireTracData_eq hfits1]
    show (dealtHosts (arrayElems (jc.tokenerParse _)) (arrayElems (jc.tokenerParse _)) >>= _) = _
    rw [hr1, hr2]
    show (dealtHosts ((textLines s1).map lineHost) ((textLines s2).map lineHost) >>= _) = _
    rw [hhosts]
    exact if_pos hdealt
  -- the strings
  have htext : ∀ l ∈ textLines s2, flowText ((textLines s1).map TracHost.ofLine) w
      (TracHost.ofLine l) = trafficText (textLines s1) w l := by
    intro l hl
    rw [flowText, growth_ofLine (fun o ho => h1.small o ho w) (h2.small l hl w)]
    rfl
  have harray := length_array_le ((textLines s1).map TracHost.ofLine)
    ((textLines s2).map TracHost.ofLine) w
  rw [← hjc.print_eq, ← hjc.print_eq] at harray
  rw [hcompare]
  show calcTracArray jc (jc.toJsonString (.array (dealtLines _ _))) w.name = _
  rw [dealtLines] at hrd hdealt ⊢
  rw [calcTracArray_of_fits hjc hrd hnul2 ?_ (harray.trans_lt hdealt), List.map_map]
  · refine congrArg (fun v => Except.ok (jc.toJsonString (.array v))) ?_
    exact List.map_congr_left fun l hl => congrArg Json.string (htext l hl)
  · exact List.forall_mem_map.mpr fun l hl => (htext l hl).symm ▸ hflow l hl

/-- A line of twenty columns with a host and its counters. -/
def hostTokens (ip up down : String) : List (List Char) :=
  (["0", "0", ip, "0", "0", up] ++ List.replicate 13 "0" ++ [down]).map String.toList

/-- An older sample, in which the first host is listed twice. -/
def olderLines : List (List (List Char)) :=
  [hostTokens "10.0.0.1" "1048576" "0", hostTokens "10.0.0.1" "9437184" "0",
    hostTokens "10.0.0.2" "2097152" "0"]

/-- A newer sample: the second host is gone and another one has come. -/
def newerLines : List (List (List Char)) :=
  [hostTokens "10.0.0.1" "3145728" "0", hostTokens "192.168.100.100" "1047527424" "0",
    hostTokens "10.0.0.1" "1048576" "0"]

/-- The text of a sample. -/
def sampleText (lines : List (List (List Char))) : List Char :=
  lines.flatMap fun l => [' '].intercalate l ++ ['\n']

/-- The arrays of the two samples and of their comparison. -/
def sampleArrays : List (List Json) :=
  [olderLines.map lineHost, newerLines.map lineHost, dealtLines olderLines newerLines]

/-- What a host has sent is counted from the first line of the older sample that lists it. -/
theorem calcTracArray_calcTracDealt_newerLines : ∃ jc : JsonC,
    (calcTracDealt jc (sampleText olderLines) (sampleText newerLines) >>=
      fun dealt => calcTracArray jc dealt "up") =
      .ok (jc.toJsonString
        (.array [.str "10.0.0.1:2", .str "192.168.100.100:999", .str "10.0.0.1:0"])) := by
  have hlines : ∀ lines ∈ [olderLines, newerLines], textLines (sampleText lines) = lines := by
    decide +kernel
  have hnuls : ∀ lines ∈ [olderLines, newerLines], '\x00' ∉ sampleText lines := by
    decide +kernel
  have hcounters : ∀ lines ∈ [olderLines, newerLines], lines.length ≤ 19 ∧
      ∀ l ∈ lines, l.length = 20 ∧ Decimal l ∧ ∀ w, counter l w < 2 ^ 31 := by
    decide +kernel
  have hsample : ∀ lines ∈ [olderLines, newerLines], Sample (sampleText lines) := by
    intro lines hl
    obtain ⟨hfew, hall⟩ := hcounters lines hl
    rw [← hlines lines hl] at hfew hall
    exact ⟨hnuls lines hl, hfew, ⟨20, le_rfl, by decide, fun l h => (hall l h).1⟩,
      fun l h => (hall l h).2.1, fun l h => (hall l h).2.2⟩
  have hold := hlines _ List.mem_cons_self
  have hnew := hlines _ (List.mem_cons_of_mem _ List.mem_cons_self)
  have hdiff : ((sampleArrays.map Json.array).map Json.spaced).Nodup := by
    decide +kernel
  have hnul : ∀ t ∈ (sampleArrays.map Json.array).map Json.spaced, '\x00' ∉ t := by
    decide +kernel
  have hstrings := calcTracArray_calcTracDealt (.reading (sampleArrays.map Json.array))
    (JsonC.prints_reading fun j hj => hnul _ (List.mem_map_of_mem hj)) _ _
    (hsample _ List.mem_cons_self) (hsample _ (List.mem_cons_of_mem _ List.mem_cons_self))
  rw [hold, hnew] at hstrings
  refine ⟨_, (hstrings (fun v hv => JsonC.tokenerParse_reading hdiff (List.mem_map_of_mem hv))
    ?_ ?_ ?_ .up ?_).trans ?_⟩
  · decide +kernel
  · decide +kernel
  · decide +kernel
  · decide +kernel
  · decide +kernel

end Samples

/-! ## The arrays of a string

An address of fifteen characters, a colon, four digits and the NUL are one character too many. -/

/-- A line with a dotted quad and decimal counters. -/
structure HostLine (l : List (List Char)) : Prop where
  long : 20 ≤ l.length
  address : ∃ ip, l.getD 2 [] = inetNtoa ip
  decimal : Decimal l

section Fits

variable {jc : JsonC} {h : TracHost} {older newer : List (List (List Char))}
  {l : List (List Char)} {w : Way}

theorem HostLine.nul_notMem (h : HostLine l) : '\x00' ∉ (TracHost.ofLine l).ip := by
  obtain ⟨ip, hip⟩ := h.address
  show '\x00' ∉ l.getD 2 []
  rw [hip]
  exact nul_notMem_inetNtoa ip

/-- **The string of a host fits** unless its address and its flow both are as long as they can
be. -/
theorem length_flowText_lt_iff (older : List TracHost) (w : Way) (hip : h.ip.length ≤ 15) :
    (flowText older w h).length < 20 ↔ (h.ip.length = 15 → growth older w h < 1000) := by
  obtain ⟨hdigits, hfour⟩ := length_toDec_growth older w h
  have hthree : (Nat.toDigits 10 (growth older w h)).length ≤ 3 ↔ growth older w h < 10 ^ 3 :=
    Nat.length_toDigits_le_iff (by decide) (by decide)
  rw [flowText, List.length_append, List.length_append, List.length_singleton]
  constructor
  · intro hfits hlong
    exact hthree.mp (by omega)
  · intro hsmall
    by_cases hlong : h.ip.length = 15
    · have hle := hthree.mpr (hsmall hlong)
      omega
    · omega

/-- **When the strings fit into their arrays.** The comparison gives flows up to 2047, which fit
into theirs, and the array of the strings fits if the comparison does. -/
theorem calcTracArray_fits_iff (jc : JsonC) (hjc : jc.Prints)
    (older newer : List (List (List Char))) (hhosts : ∀ l ∈ older ++ newer, HostLine l)
    (hround : jc.tokenerParse (jc.toJsonString (.array (dealtLines older newer))) =
      some (.array (dealtLines older newer)))
    (hdealt : (jc.toJsonString (.array (dealtLines older newer))).length < sizeBufDealt) (w : Way) :
    dealtHosts (older.map lineHost) (newer.map lineHost) = .ok (dealtLines older newer) ∧
      (∀ o ∈ dealtLines older newer, ∃ flow : ℕ, tqJsonGetInt (some o) w.name = .ok (flow : ℤ) ∧
        flow ≤ 2047 ∧ (toDec flow).length < 10) ∧
      (jc.toJsonString (.array (newer.map fun l =>
        .string (flowText (older.map TracHost.ofLine) w (TracHost.ofLine l))))).length <
          sizeBufArray ∧
      ((∃ array, calcTracArray jc (jc.toJsonString (.array (dealtLines older newer))) w.name =
          .ok array) ↔
        ∀ l ∈ newer, (l.getD 2 []).length = 15 →
          growth (older.map TracHost.ofLine) w (TracHost.ofLine l) < 1000) := by
  have hold : ∀ l ∈ older, HostLine l := fun l hl => hhosts l (List.mem_append_left _ hl)
  have hnew : ∀ l ∈ newer, HostLine l := fun l hl => hhosts l (List.mem_append_right _ hl)
  have hjson : ∀ lines : List (List (List Char)), (∀ l ∈ lines, HostLine l) →
      lines.map lineHost = (lines.map TracHost.ofLine).map TracHost.json := by
    intro lines hlines
    rw [List.map_map]
    exact List.map_congr_left fun l hl => lineHost_eq (hlines l hl).long (hlines l hl).decimal
  have hnul : ∀ h ∈ newer.map TracHost.ofLine, '\x00' ∉ h.ip :=
    List.forall_mem_map.mpr fun l hl => (hnew l hl).nul_notMem
  have hnuls : ∀ h ∈ older.map TracHost.ofLine ++ newer.map TracHost.ofLine, '\x00' ∉ h.ip :=
    List.forall_mem_append.mpr ⟨List.forall_mem_map.mpr fun l hl => (hold l hl).nul_notMem, hnul⟩
  have hip : ∀ l ∈ newer, (TracHost.ofLine l).ip.length ≤ 15 := by
    intro l hl
    obtain ⟨ip, hip⟩ := (hnew l hl).address
    show (l.getD 2 []).length ≤ 15
    exact hip ▸ length_inetNtoa_le ip
  have harray : (jc.toJsonString (.array ((newer.map TracHost.ofLine).map fun h =>
      .string (flowText (older.map TracHost.ofLine) w h)))).length < sizeBufArray := by
    have hle := length_array_le (older.map TracHost.ofLine) (newer.map TracHost.ofLine) w
    rw [← hjc.print_eq, ← hjc.print_eq] at hle
    exact hle.trans_lt hdealt
  refine ⟨?_, ?_, ?_, ?_⟩
  · rw [hjson older hold, hjson newer hnew]
    exact dealtHosts_eq hnuls
  · refine List.forall_mem_map.mpr fun h _ =>
      ⟨growth (older.map TracHost.ofLine) w h, ?_, growth_le _ _ _, ?_⟩
    · rw [tqJsonGetInt_some, intField_of_int (getEx_dealtHost_way _ h w),
        jsonObjectGetInt_of_le (growth_le _ _ _)]
    · have hfour := (length_toDec_growth (older.map TracHost.ofLine) w h).2
      omega
  · rw [List.map_map] at harray
    exact harray
  · have hfits : (∀ h ∈ newer.map TracHost.ofLine,
        (flowText (older.map TracHost.ofLine) w h).length < 20) ↔
        ∀ l ∈ newer, (l.getD 2 []).length = 15 →
          growth (older.map TracHost.ofLine) w (TracHost.ofLine l) < 1000 := by
      rw [List.forall_mem_map]
      exact forall₂_congr fun l hl => length_flowText_lt_iff _ w (hip l hl)
    rw [← hfits]
    exact exists_calcTracArray_iff hjc hround hnul harray

/-- A host with an address of fifteen characters and 999 mebibytes, among others. -/
theorem calcTracArray_fits_newerLines : ∃ jc : JsonC, ∃ array,
    calcTracArray jc (jc.toJsonString (.array (dealtLines olderLines newerLines))) "up" =
      .ok array := by
  have hlines : ∀ l ∈ olderLines ++ newerLines, 20 ≤ l.length ∧ Decimal l ∧
      ∃ ip ∈ [0x0100000A, 0x0200000A, 0x6464A8C0], l.getD 2 [] = inetNtoa ip := by
    decide +kernel
  have hnul : '\x00' ∉ (Json.array (dealtLines olderLines newerLines)).spaced := by
    decide +kernel
  have hdealt : (Json.array (dealtLines olderLines newerLines)).spaced.length < sizeBufDealt := by
    decide +kernel
  have hsmall : ∀ l ∈ newerLines,
      growth (olderLines.map TracHost.ofLine) .up (TracHost.ofLine l) < 1000 := by
    decide +kernel
  have hfits := calcTracArray_fits_iff (.reading [.array (dealtLines olderLines newerLines)])
    (JsonC.prints_reading (List.forall_mem_singleton.mpr hnul)) olderLines newerLines
    (fun l hl =>
      have ⟨hlong, hdec, ip, _, hip⟩ := hlines l hl
      ⟨hlong, ⟨ip, hip⟩, hdec⟩)
    (JsonC.tokenerParse_reading_singleton _) hdealt .up
  exact ⟨_, hfits.2.2.2.mpr fun l hl _ => hsmall l hl⟩

/-- A line with an address of fifteen characters and 1000 mebibytes. -/
def longLines : List (List (List Char)) := [hostTokens "192.168.100.100" "1048576000" "0"]

/-- A new host with this line: its string has twenty characters. -/
theorem calcTracArray_longLines : (∀ l ∈ longLines, HostLine l) ∧ ∃ jc : JsonC, jc.Prints ∧
    jc.tokenerParse (jc.toJsonString (.array (dealtLines [] longLines))) =
      some (.array (dealtLines [] longLines)) ∧
    (jc.toJsonString (.array (dealtLines [] longLines))).length < sizeBufDealt ∧
    calcTracArray jc (jc.toJsonString (.array (dealtLines [] longLines))) "up" =
      .error .overflow := by
  have hlines : ∀ l ∈ longLines,
      20 ≤ l.length ∧ l.getD 2 [] = inetNtoa 0x6464A8C0 ∧ Decimal l := by
    decide +kernel
  have hnul : '\x00' ∉ (Json.array (dealtLines [] longLines)).spaced := by
    decide +kernel
  refine ⟨fun l hl => ⟨(hlines l hl).1, ⟨_, (hlines l hl).2.1⟩, (hlines l hl).2.2⟩,
    .reading [.array (dealtLines [] longLines)],
    JsonC.prints_reading (List.forall_mem_singleton.mpr hnul),
    JsonC.tokenerParse_reading_singleton _, ?_, ?_⟩
  · decide +kernel
  · decide +kernel

end Fits

end Tqos
