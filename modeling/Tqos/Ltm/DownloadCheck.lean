import Tqos.Ltm.Endecry

/-!
# The answer of the server

`download_check`, from the answer on: the text before the first `;` is to be an URL and an MD5. Both
are copied into fields that are zero, and the host and the path are looked for in the copy. Of an
URL that is too long the beginning is copied, and what comes before `http://` is never looked at.

The fields are strings: they end at the first NUL.

## Main results

* `downloadCheck_fst_iff` — which answers it accepts
* `Passes.downloadCheck` — what is in the fields then
* `checksSound_iff` — for which answers the fields are what the server sent
-/

namespace Tqos

namespace Ltm

/-! ## The function -/

/-- `struct package_info`; `path_start` is an offset in `url`. -/
structure PackageInfo where
  pathStart : Option ℕ
  host : Vector UInt8 64
  url : Vector UInt8 256
  md5 : Vector UInt8 33
deriving DecidableEq

/-- After the `memset`. -/
def PackageInfo.zero : PackageInfo :=
  ⟨none, Vector.replicate 64 0, Vector.replicate 256 0, Vector.replicate 33 0⟩

/-- `MD5_STR_LENGTH`. -/
abbrev md5StrLength : ℕ := 32

/-- `strchr`. -/
def strchr (buf : Text) (start : ℕ) (c : UInt8) : Option ℕ :=
  ((cstr (buf.drop start)).idxOf? c).map (start + ·)

/-- `download_get_oldmd5`, from the content of the file. -/
def downloadGetOldmd5 (file : Option Text) : Option Text :=
  match file with
  | none => none
  | some content =>
    if md5StrLength ≤ content.length then some (content.take md5StrLength) else none

/-- `download_check`, from `http_host` on. -/
def checkUrl (md5file : Option Text) (ipks : PackageInfo) : Bool × PackageInfo :=
  match strstr ipks.url.toList 0 (lit "http://") with
  | none => (false, ipks)
  | some found =>
    let httpHost := found + 7
    match strchr ipks.url.toList httpHost 47 with
    | none => (false, { ipks with pathStart := none })
    | some path =>
      let ipks := { ipks with pathStart := some path }
      let hostlen := path - httpHost
      if hostlen > 63 then (false, ipks)
      else
        let host := blitV ipks.host 0 (strncpy (ipks.url.toList.drop httpHost) hostlen)
        (decide (downloadGetOldmd5 md5file ≠ some (ipks.md5.toList.take md5StrLength)),
          { ipks with host := host })

/-- The two tokens are copied. -/
def PackageInfo.copy (ipks : PackageInfo) (url md5 : Text) : PackageInfo :=
  let urlmax := 255
  let urlen := if url.length > urlmax then urlmax else url.length
  { ipks with
    url := blitV ipks.url 0 (strncpy url urlen)
    md5 := blitV ipks.md5 0 (strncpy md5 md5StrLength) }

/-- `download_check`, once the package has been asked for: `resp` is the decrypted data of the
response, or NULL. -/
def downloadCheck (md5file : Option Text) (resp : Option Text) (ipks : PackageInfo) :
    Bool × PackageInfo :=
  match resp with
  | none => (false, ipks)
  | some resp =>
    if resp.length = 0 then (false, ipks)
    else if resp.length < md5StrLength then (false, ipks)
    else
      match splitLine 32 59 2 resp with
      | ⟨[url, md5], some _⟩ =>
        if md5.length ≠ md5StrLength then (false, ipks) else checkUrl md5file (ipks.copy url md5)
      | _ => (false, ipks)

/-! ## What is asked -/

/-- The text before the first `;`, in tokens, if there is one. -/
def answerTokens (answer : Text) : List Text :=
  match cutLine 59 answer with
  | (line, some _) => tokens 32 line
  | (_, none) => []

/-- What the fields are to be. -/
def FromServer (old : Option Text) (answer : Text) (ipk : PackageInfo) : Prop :=
  ∃ url md5 host path, answerTokens answer = [url, md5] ∧ md5.length = md5StrLength ∧
    old ≠ some md5 ∧ url = lit "http://" ++ host ++ path ∧ 47 ∉ host ∧ path.head? = some 47 ∧
    cstr ipk.url.toList = url ∧ cstr ipk.host.toList = host ∧
    (∃ start, ipk.pathStart = some start ∧ cstr (ipk.url.toList.drop start) = path) ∧
    cstr ipk.md5.toList = md5

/-- What is asked of the check of an answer. -/
structure ChecksSound (md5file : Option Text) (answer : Text) : Prop where
  fromServer : ∀ ipk, downloadCheck md5file (some answer) .zero = (true, ipk) →
    FromServer (downloadGetOldmd5 md5file) answer ipk
  longUrl : ∀ url md5, answerTokens answer = [url, md5] → 255 < url.length →
    (downloadCheck md5file (some answer) .zero).1 = false
  longHost : ∀ url md5 host rest, answerTokens answer = [url, md5] →
    url = lit "http://" ++ host ++ 47 :: rest → 47 ∉ host → 63 < host.length →
      (downloadCheck md5file (some answer) .zero).1 = false

/-- What of an URL is in the field. -/
def shown (url : Text) : Text := (cstr url).take 255

/-- What passes: a second token of 32 bytes that is not what is stored, and in what is shown of the
first one `http://`, with a `/` at most 63 bytes further on. -/
structure Passes (old : Option Text) (answer url md5 : Text) : Prop where
  length : md5StrLength ≤ answer.length
  tokens : answerTokens answer = [url, md5]
  length_md5 : md5.length = md5StrLength
  host : ∃ found, strstr (shown url) 0 (lit "http://") = some found ∧
    ∃ i, ((shown url).drop (found + 7)).idxOf? 47 = some i ∧ i ≤ 63
  changed : old ≠ some (strncpy md5 md5StrLength)

/-- An URL and an MD5 as they should be. -/
structure Clean (url md5 : Text) : Prop where
  short : url.length ≤ 255
  scheme : lit "http://" <+: url
  url_ne : ∀ c ∈ url, c ≠ 0
  md5_ne : ∀ c ∈ md5, c ≠ 0

section Lemmas

variable {answer url md5 src : Text} {md5file : Option Text} {n size : ℕ}

/-- **The tokens of the answer** are those that `split_line` has room for. -/
theorem splitLine_eq_iff : (∃ rest, splitLine 32 59 2 answer = ⟨[url, md5], some rest⟩) ↔
    answerTokens answer = [url, md5] := by
  rw [answerTokens]
  cases hcut : cutLine 59 answer with
  | mk line next =>
    have hline : (cutLine 59 answer).1 = line := congrArg Prod.fst hcut
    have hnext : (cutLine 59 answer).2 = next := congrArg Prod.snd hcut
    have hlen := length_splitLine 32 59 2 answer
    rw [hline] at hlen
    constructor
    · rintro ⟨rest, hsplit⟩
      rw [hsplit, List.length_cons, List.length_singleton] at hlen
      have hle : (tokens 32 (cutLine 59 answer).1).length ≤ 2 := by
        rw [hline]
        omega
      rw [splitLine_of_le hle, hline, hnext] at hsplit
      obtain ⟨htokens, rfl⟩ := SplitLine.mk.inj hsplit
      exact htokens
    · intro htokens
      cases next with
      | none => exact absurd htokens (List.cons_ne_nil _ _).symm
      | some rest =>
        have hline' : tokens 32 line = [url, md5] := htokens
        have hle : (tokens 32 (cutLine 59 answer).1).length ≤ 2 := by
          rw [hline, hline']
          exact le_rfl
        exact ⟨rest, by rw [splitLine_of_le hle, hline, hnext, hline']⟩

/-- What `strncpy` leaves of a field that was zero. -/
theorem toList_field (src : Text) (h : n ≤ size) :
    (blitV (Vector.replicate size (0 : UInt8)) 0 (strncpy src n)).toList =
      (cstr src).take n ++ List.replicate (size - ((cstr src).take n).length) 0 := by
  have hlen := length_strncpy src n
  have hfit : 0 + (strncpy src n).length ≤ (Vector.replicate size (0 : UInt8)).toList.length := by
    rw [hlen, Vector.length_toList]
    omega
  have hblit := blit_of_le hfit
  rw [Nat.cast_zero] at hblit
  rw [toList_blitV, hblit, List.take_zero, List.nil_append, hlen, Vector.toList_replicate,
    List.drop_replicate, strncpy, List.append_assoc, List.replicate_append_replicate]
  congr 2
  rw [List.length_take]
  omega

theorem cstr_take_cstr (src : Text) (n : ℕ) : cstr ((cstr src).take n) = (cstr src).take n :=
  List.takeWhile_eq_self_iff.mpr fun _ hc =>
    decide_eq_true (ne_zero_of_mem_cstr (List.mem_of_mem_take hc))

/-- The string in it. -/
theorem cstr_field (src : Text) (h : n < size) :
    cstr (blitV (Vector.replicate size (0 : UInt8)) 0 (strncpy src n)).toList =
      (cstr src).take n := by
  have hlen : ((cstr src).take n).length ≤ n := List.length_take_le _ _
  obtain ⟨k, hk⟩ : ∃ k, size - ((cstr src).take n).length = k + 1 :=
    ⟨size - ((cstr src).take n).length - 1, by omega⟩
  rw [toList_field src h.le, hk, List.replicate_succ, cstr_append_zero, cstr_take_cstr]

theorem strstr_congr {buf buf' : Text} (h : cstr buf = cstr buf') (pat : Text) :
    strstr buf 0 pat = strstr buf' 0 pat := by
  rw [strstr, strstr, List.drop_zero, List.drop_zero, h]

theorem cstr_shown (url : Text) : cstr (shown url) = shown url := cstr_take_cstr url 255

/-- What is copied of an URL is what is shown of it. -/
theorem take_min_cstr (url : Text) :
    (cstr url).take (if url.length > 255 then 255 else url.length) = shown url := by
  have hle := length_cstr_le url
  rw [shown]
  split
  · rfl
  · rw [List.take_of_length_le hle, List.take_of_length_le (by omega)]

/-- The fields, once the tokens are copied. -/
abbrev copied (url md5 : Text) : PackageInfo := PackageInfo.zero.copy url md5

theorem cstr_copied_url (url md5 : Text) : cstr (copied url md5).url.toList = shown url := by
  rw [← take_min_cstr]
  refine cstr_field url ?_
  split <;> omega

theorem cstr_copied_md5 (url : Text) {md5 : Text} (h : md5.length = md5StrLength) :
    cstr (copied url md5).md5.toList = cstr md5 := by
  have hle := length_cstr_le md5
  refine (cstr_field md5 (by decide)).trans (List.take_of_length_le ?_)
  rwa [h] at hle

theorem take_copied_md5 (url md5 : Text) :
    (copied url md5).md5.toList.take md5StrLength = strncpy md5 md5StrLength := by
  show (blitV (Vector.replicate 33 (0 : UInt8)) 0 (strncpy md5 32)).toList.take 32 = _
  have hlen := length_strncpy md5 32
  have hfit : (strncpy md5 32).length ≤ (List.replicate 33 (0 : UInt8)).length := by
    rw [hlen]
    decide
  have htake := take_blit_zero hfit
  rw [hlen] at htake
  rw [toList_blitV, Vector.toList_replicate]
  exact htake

/-- What `strchr` finds behind a place in the URL. -/
theorem strchr_copied {start : ℕ} (h : start ≤ (shown url).length) :
    strchr (copied url md5).url.toList start 47 =
      (((shown url).drop start).idxOf? 47).map (start + ·) := by
  have hcstr := cstr_copied_url url md5
  rw [← hcstr] at h
  rw [strchr, cstr_drop h, hcstr]

/-- An answer of two tokens. -/
theorem downloadCheck_of_tokens (hlen : md5StrLength ≤ answer.length)
    (htokens : answerTokens answer = [url, md5]) (hmd5 : md5.length = md5StrLength) :
    downloadCheck md5file (some answer) .zero = checkUrl md5file (copied url md5) := by
  obtain ⟨rest, hsplit⟩ := splitLine_eq_iff.mpr htokens
  have hpos : answer.length ≠ 0 := by
    have h32 : 32 ≤ answer.length := hlen
    omega
  rw [downloadCheck, if_neg hpos, if_neg hlen.not_gt, hsplit]
  exact if_neg (not_not.mpr hmd5)

/-- The scheme is inside what is shown. -/
theorem length_of_strstr_shown {found : ℕ} (h : strstr (shown url) 0 (lit "http://") = some found) :
    found + 7 ≤ (shown url).length := by
  have hprefix := (prefix_of_strstr h).length_le
  have hseven : (lit "http://").length = 7 := by decide
  rw [List.length_drop, hseven] at hprefix
  omega

theorem strstr_copied (url md5 : Text) : strstr (copied url md5).url.toList 0 (lit "http://") =
    strstr (shown url) 0 (lit "http://") :=
  strstr_congr ((cstr_copied_url url md5).trans (cstr_shown url).symm) _

/-- **What is in the fields** when an answer passes. -/
theorem Passes.downloadCheck (h : Passes (downloadGetOldmd5 md5file) answer url md5) :
    ∃ ipk found i, downloadCheck md5file (some answer) .zero = (true, ipk) ∧
      strstr (shown url) 0 (lit "http://") = some found ∧
      ((shown url).drop (found + 7)).idxOf? 47 = some i ∧ i ≤ 63 ∧
      ipk.pathStart = some (found + 7 + i) ∧ ipk.url = (copied url md5).url ∧
      cstr ipk.host.toList = ((shown url).drop (found + 7)).take i ∧
      cstr ipk.md5.toList = cstr md5 := by
  obtain ⟨found, hfound, i, hi, hle⟩ := h.host
  have hbound := length_of_strstr_shown hfound
  have hcheck : checkUrl md5file (copied url md5) = (true, { copied url md5 with
      pathStart := some (found + 7 + i)
      host := blitV PackageInfo.zero.host 0
        (strncpy ((copied url md5).url.toList.drop (found + 7)) i) }) := by
    have hstrchr : strchr (copied url md5).url.toList (found + 7) 47 = some (found + 7 + i) := by
      rw [strchr_copied hbound, hi]
      rfl
    rw [checkUrl, strstr_copied, hfound]
    dsimp only
    rw [hstrchr]
    dsimp only
    rw [Nat.add_sub_cancel_left, if_neg hle.not_gt, take_copied_md5, decide_eq_true h.changed]
    rfl
  refine ⟨_, found, i, (downloadCheck_of_tokens h.length h.tokens h.length_md5).trans hcheck,
    hfound, hi, hle, rfl, rfl, ?_, cstr_copied_md5 url h.length_md5⟩
  have hhost := cstr_field ((copied url md5).url.toList.drop (found + 7))
    (show i < 64 by omega)
  refine hhost.trans ?_
  have hcstr := cstr_copied_url url md5
  rw [cstr_drop (by rw [hcstr]; exact hbound), hcstr]

/-- What is shown of the URL has a scheme and a host. -/
theorem host_of_checkUrl (h : (checkUrl md5file (copied url md5)).1 = true) :
    (∃ found, strstr (shown url) 0 (lit "http://") = some found ∧
      ∃ i, ((shown url).drop (found + 7)).idxOf? 47 = some i ∧ i ≤ 63) ∧
    downloadGetOldmd5 md5file ≠ some (strncpy md5 md5StrLength) := by
  rw [checkUrl, strstr_copied] at h
  cases hfound : strstr (shown url) 0 (lit "http://") with
  | none =>
    rw [hfound] at h
    exact absurd h Bool.false_ne_true
  | some found =>
    rw [hfound] at h
    dsimp only at h
    rw [strchr_copied (length_of_strstr_shown hfound)] at h
    cases hslash : ((shown url).drop (found + 7)).idxOf? 47 with
    | none =>
      rw [hslash] at h
      exact absurd h Bool.false_ne_true
    | some i =>
      rw [hslash, Option.map_some] at h
      dsimp only at h
      rw [Nat.add_sub_cancel_left] at h
      by_cases hi : i > 63
      · rw [if_pos hi] at h
        exact absurd h Bool.false_ne_true
      · rw [if_neg hi, take_copied_md5] at h
        exact ⟨⟨found, rfl, i, hslash, not_lt.mp hi⟩, of_decide_eq_true h⟩

/-- **Which answers are accepted.** -/
theorem downloadCheck_fst_iff : (Ltm.downloadCheck md5file (some answer) .zero).1 = true ↔
    ∃ url md5, Passes (downloadGetOldmd5 md5file) answer url md5 := by
  constructor
  · intro h
    rw [Ltm.downloadCheck] at h
    by_cases hzero : answer.length = 0
    · rw [if_pos hzero] at h
      exact absurd h Bool.false_ne_true
    rw [if_neg hzero] at h
    by_cases hlen : answer.length < md5StrLength
    · rw [if_pos hlen] at h
      exact absurd h Bool.false_ne_true
    rw [if_neg hlen] at h
    split at h
    · rename_i url md5 rest hsplit
      by_cases hmd5 : md5.length = md5StrLength
      · rw [if_neg (not_not.mpr hmd5)] at h
        obtain ⟨hhost, hchanged⟩ := host_of_checkUrl h
        exact ⟨url, md5, not_lt.mp hlen, splitLine_eq_iff.mp ⟨rest, hsplit⟩, hmd5, hhost, hchanged⟩
      · rw [if_pos hmd5] at h
        exact absurd h Bool.false_ne_true
    · exact absurd h Bool.false_ne_true
  · rintro ⟨url, md5, hpasses⟩
    obtain ⟨ipk, _, _, hcheck, -⟩ := hpasses.downloadCheck
    rw [hcheck]

theorem answerTokens_inj {url' md5' : Text} (h : answerTokens answer = [url, md5])
    (h' : answerTokens answer = [url', md5']) : url' = url ∧ md5' = md5 := by
  rw [h] at h'
  obtain ⟨hurl, hrest⟩ := List.cons.inj h'
  exact ⟨hurl.symm, (List.cons.inj hrest).1.symm⟩

theorem shown_eq (hne : ∀ c ∈ url, c ≠ 0) (hlen : url.length ≤ 255) : shown url = url := by
  have hcstr : cstr url = url := List.takeWhile_eq_self_iff.mpr fun c hc =>
    decide_eq_true (hne c hc)
  rw [shown, hcstr, List.take_of_length_le hlen]

/-- What is shown whole is short and has no NUL. -/
theorem short_of_shown (h : shown url = url) : url.length ≤ 255 ∧ ∀ c ∈ url, c ≠ 0 := by
  constructor
  · rw [← h]
    exact List.length_take_le _ _
  · intro c hc
    rw [← h] at hc
    exact ne_zero_of_mem_cstr (List.mem_of_mem_take hc)

/-- **The fields are what the server sent** exactly if the URL and the MD5 are as they should be. -/
theorem Passes.fromServer_iff {ipk : PackageInfo}
    (h : Passes (downloadGetOldmd5 md5file) answer url md5)
    (hcheck : Ltm.downloadCheck md5file (some answer) .zero = (true, ipk)) :
    FromServer (downloadGetOldmd5 md5file) answer ipk ↔ Clean url md5 := by
  obtain ⟨ipk', found, i, hcheck', hfound, hslash, hle, hstart, hurl, hhost, hmd5⟩ :=
    h.downloadCheck
  obtain rfl : ipk' = ipk := congrArg Prod.snd (hcheck'.symm.trans hcheck)
  have hcurl : cstr ipk'.url.toList = shown url := by rw [hurl, cstr_copied_url]
  constructor
  · rintro ⟨url', md5', host, path, htokens, -, -, hform, -, -, hurl', -, -, hmd5'⟩
    obtain ⟨rfl, rfl⟩ := answerTokens_inj h.tokens htokens
    obtain ⟨hshort, hne⟩ := short_of_shown (hcurl.symm.trans hurl')
    refine ⟨hshort, ⟨host ++ path, ?_⟩, hne, fun c hc => ?_⟩
    · rw [hform, List.append_assoc]
    · rw [hmd5'.symm.trans hmd5] at hc
      exact ne_zero_of_mem_cstr hc
  · rintro ⟨hshort, ⟨u, rfl⟩, hne, hmd5ne⟩
    have hshown := shown_eq hne hshort
    rw [hshown] at hfound hslash hhost hcurl
    -- The scheme is found where the URL begins.
    have hzero : found = 0 := by
      have hwhole : cstr (List.drop 0 (lit "http://" ++ u)) = [] ++ lit "http://" ++ u := by
        rw [List.drop_zero, ← hshown, cstr_shown, hshown]
        rfl
      have hfirst := (strstr_eq_some_iff.mp hfound).2.2 [] u hwhole
      exact Nat.le_zero.mp hfirst
    have hseven : (lit "http://" ++ u).drop (found + 7) = u := by
      rw [hzero]
      rfl
    rw [hseven] at hslash hhost
    obtain ⟨hi, hat, hbefore⟩ := List.idxOf?_eq_some_iff.mp hslash
    have hcmd5 : cstr md5 = md5 := List.takeWhile_eq_self_iff.mpr fun c hc =>
      decide_eq_true (hmd5ne c hc)
    have hstored : strncpy md5 md5StrLength = md5 := by
      rw [strncpy, hcmd5, h.length_md5, Nat.sub_self, ← h.length_md5, List.take_length]
      exact List.append_nil md5
    refine ⟨lit "http://" ++ u, md5, u.take i, u.drop i, h.tokens, h.length_md5, ?_, ?_, ?_, ?_,
      hcurl, hhost, ⟨_, hstart, ?_⟩, hmd5.trans hcmd5⟩
    · rw [← hstored]
      exact h.changed
    · rw [List.append_assoc, List.take_append_drop]
    · intro hmem
      obtain ⟨j, hj, hget⟩ := List.mem_iff_getElem.mp hmem
      rw [List.length_take] at hj
      rw [List.getElem_take] at hget
      exact hbefore j (by omega) hget
    · rw [List.head?_drop, List.getElem?_eq_getElem hi, hat]
    · have hinside : found + 7 + i ≤ (cstr ipk'.url.toList).length := by
        rw [hcurl, List.length_append, hzero]
        have hlit : (lit "http://").length = 7 := by decide
        omega
      rw [cstr_drop hinside, hcurl, ← List.drop_drop, hseven]

/-- **When the check of an answer can be relied on**: exactly if it is refused, or its URL is at
most 255 bytes, begins with `http://`, and neither it nor the MD5 has a NUL. -/
theorem checksSound_iff (md5file : Option Text) (answer : Text) :
    ChecksSound md5file answer ↔
      ∀ url md5, Passes (downloadGetOldmd5 md5file) answer url md5 → Clean url md5 := by
  constructor
  · intro h url md5 hpasses
    obtain ⟨ipk, _, _, hcheck, -⟩ := hpasses.downloadCheck
    exact (hpasses.fromServer_iff hcheck).mp (h.fromServer ipk hcheck)
  · intro h
    have hfalse : ∀ {b : Bool}, ¬ b = true → b = false := fun hb => (Bool.not_eq_true _).mp hb
    refine ⟨fun ipk hcheck => ?_, fun url md5 htokens hlong => hfalse fun htrue => ?_,
      fun url md5 host rest htokens hform hhost hlong => hfalse fun htrue => ?_⟩
    · obtain ⟨url, md5, hpasses⟩ := downloadCheck_fst_iff.mp (congrArg Prod.fst hcheck)
      exact (hpasses.fromServer_iff hcheck).mpr (h url md5 hpasses)
    · obtain ⟨url', md5', hpasses⟩ := downloadCheck_fst_iff.mp htrue
      obtain ⟨rfl, rfl⟩ := answerTokens_inj htokens hpasses.tokens
      have hshort := (h _ _ hpasses).short
      omega
    · obtain ⟨url', md5', hpasses⟩ := downloadCheck_fst_iff.mp htrue
      obtain ⟨rfl, rfl⟩ := answerTokens_inj htokens hpasses.tokens
      obtain ⟨ipk, _, i, hcheck, -, -, hle, -, -, hshown, -⟩ := hpasses.downloadCheck
      obtain ⟨_, _, host', path, htokens', -, -, hform', hhost', hpath, -, hfield, -⟩ :=
        (hpasses.fromServer_iff hcheck).mpr (h _ _ hpasses)
      obtain ⟨rfl, -⟩ := answerTokens_inj htokens htokens'
      -- There is one way to take the URL apart, and the field holds no more than 63 bytes.
      obtain ⟨rest', rfl⟩ : ∃ rest', path = 47 :: rest' := by
        obtain ⟨rest', hrest'⟩ := List.head?_eq_some_iff.mp hpath
        exact ⟨rest', hrest'⟩
      have hsame : host ++ 47 :: rest = host' ++ 47 :: rest' := by
        rw [hform, List.append_assoc, List.append_assoc] at hform'
        exact List.append_cancel_left hform'
      have hlen := congrArg (List.idxOf? 47) hsame
      rw [idxOf?_first hhost, idxOf?_first hhost'] at hlen
      have hbound := congrArg List.length (hfield.symm.trans hshown)
      rw [List.length_take] at hbound
      have heq := Option.some.inj hlen
      omega

/-- An URL of 256 bytes. -/
def cutUrl : Text := lit "http://h/" ++ List.replicate 247 97

/-- It loses its last byte. -/
theorem not_checksSound_cutUrl :
    ¬ ChecksSound none (cutUrl ++ 32 :: List.replicate 32 48 ++ [59]) := by
  have htokens : answerTokens (cutUrl ++ 32 :: List.replicate 32 48 ++ [59]) =
      [cutUrl, List.replicate 32 48] := by decide +kernel
  have hpasses : Passes (downloadGetOldmd5 none) (cutUrl ++ 32 :: List.replicate 32 48 ++ [59])
      cutUrl (List.replicate 32 48) :=
    ⟨by decide +kernel, htokens, rfl, ⟨0, by decide +kernel, 1, by decide +kernel, by decide⟩,
      (Option.some_ne_none _).symm⟩
  intro h
  have hfalse := h.longUrl _ _ htokens (by decide +kernel)
  rw [downloadCheck_fst_iff.mpr ⟨_, _, hpasses⟩] at hfalse
  exact Bool.noConfusion hfalse

end Lemmas

end Ltm

end Tqos
