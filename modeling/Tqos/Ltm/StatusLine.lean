import Tqos.Ltm.ResponseBuffer

/-!
# The status line

Responses as a server writes them, and what `xiaocilang_gogogo` makes of them. Three words are taken
from the front of the response. Where the reason has two words of its own, what is behind them is
the rest of the status line, and the search for the end of a line begins there. Where it has fewer,
the third word or the blanks behind it reach into the header lines.

## Main results

* `finds_text`, `words_of_finds` — which of them it takes apart right
* `readsReplies_iff` — which of them it reads
-/

namespace Tqos

namespace Ltm

/-! ## Responses -/

/-- A text in a line: it has no NUL, and no line ends in it. -/
def Plain (t : Text) : Prop := ∀ c ∈ t, c ≠ 0 ∧ c ≠ 10 ∧ c ≠ 13

/-- The parts of a response with the code 200. -/
structure HttpParts where
  major : UInt8
  minor : UInt8
  reason : Text
  /-- Keys and values. -/
  fields : List (Text × Text)
  body : Text

namespace HttpParts

variable (w : HttpParts)

/-- `HTTP/x.y 200 reason`. -/
def statusLine : Text := lit "HTTP/" ++ [w.major, 46, w.minor] ++ lit " 200 " ++ w.reason

/-- `key: value`. -/
def fieldLine (f : Text × Text) : Text := f.1 ++ lit ": " ++ f.2

/-- The header lines. -/
def headers : Text := w.fields.flatMap fun f => fieldLine f ++ crlf

/-- The response. -/
def text : Text := w.statusLine ++ crlf ++ (w.headers ++ crlf ++ w.body)

/-- Where the first header line begins. -/
def lineStart : ℕ := w.statusLine.length + 2

/-- Where the body begins. -/
def bodyStart : ℕ := w.lineStart + w.headers.length + 2

end HttpParts

/-- A well-formed response, shorter than the buffer. -/
structure HttpReply extends HttpParts where
  major_digit : isdigit major = true
  minor_digit : isdigit minor = true
  reason_plain : Plain reason
  keys : ∀ f ∈ fields, f.1 ≠ [] ∧ 58 ∉ f.1 ∧ Plain f.1
  values : ∀ f ∈ fields, Plain f.2
  short : toHttpParts.text.length < defRespSize

/-- What is behind the first word of a text, and the blanks behind that. -/
def behindWord (t : Text) : Text :=
  ((t.dropWhile isspace).dropWhile fun c => !isspace c).dropWhile isspace

/-- The second word. -/
def secondWord (t : Text) : Text := (behindWord t).takeWhile fun c => !isspace c

/-- What is asked of a call with a well-formed response, and of one with any response. -/
structure ReadsReplies (resp : HttpResponse) (w : HttpReply) (arrived : Option Text) : Prop where
  /-- The length of the body is returned. -/
  returns : (resp.receiveIn (some w.text)).value.1 = w.body.length
  /-- `line_start` is where the first header line begins, if there is one. -/
  lineStart : w.fields ≠ [] →
    (resp.receiveIn (some w.text)).value.2.lineStart = some w.lineStart
  data : (resp.receiveIn (some w.text)).value.2.data = some w.bodyStart
  /-- What the callers get is the body. -/
  body : (resp.receiveIn (some w.text)).value.2.xiaocilangGiveData = some w.body
  /-- Another code is refused. -/
  refuses : secondWord (received arrived) ≠ lit "200" → (resp.receiveIn arrived).value.1 = -1

/-! ## Words -/

section Words

variable {t l : Text}

theorem dropWhile_append_of_ne_nil {p : UInt8 → Bool} (h : t.dropWhile p ≠ []) (l : Text) :
    (t ++ l).dropWhile p = t.dropWhile p ++ l := by
  rw [List.dropWhile_append, if_neg (by rwa [List.isEmpty_iff])]

theorem dropWhile_append_of_eq_nil {p : UInt8 → Bool} (h : t.dropWhile p = []) (l : Text) :
    (t ++ l).dropWhile p = l.dropWhile p := by
  rw [List.dropWhile_append, if_pos (by rwa [List.isEmpty_iff])]

/-- A second word is there, whatever comes behind it. -/
theorem behindWord_append (h : behindWord t ≠ []) (l : Text) :
    behindWord (t ++ l) = behindWord t ++ l := by
  have hword : (t.dropWhile isspace).dropWhile (fun c => !isspace c) ≠ [] := by
    intro hnil
    rw [behindWord, hnil] at h
    exact h rfl
  have hblank : t.dropWhile isspace ≠ [] := by
    intro hnil
    rw [hnil] at hword
    exact hword rfl
  rw [behindWord, dropWhile_append_of_ne_nil hblank, dropWhile_append_of_ne_nil hword,
    dropWhile_append_of_ne_nil h]
  rfl

/-- Without one, the end of the line is gone, too. -/
theorem behindWord_crlf (h : behindWord t = []) (l : Text) :
    behindWord (t ++ (crlf ++ l)) <:+ l := by
  have hcrlf : (crlf ++ l).dropWhile isspace = l.dropWhile isspace := rfl
  by_cases hblank : t.dropWhile isspace = []
  · rw [behindWord, dropWhile_append_of_eq_nil hblank, hcrlf]
    exact ((List.dropWhile_suffix _).trans (List.dropWhile_suffix _)).trans
      (List.dropWhile_suffix _)
  · rw [behindWord, dropWhile_append_of_ne_nil hblank]
    by_cases hword : (t.dropWhile isspace).dropWhile (fun c => !isspace c) = []
    · have hstop : (crlf ++ l).dropWhile (fun c => !isspace c) = crlf ++ l := rfl
      rw [dropWhile_append_of_eq_nil hword, hstop, hcrlf]
      exact List.dropWhile_suffix _
    · rw [dropWhile_append_of_ne_nil hword, dropWhile_append_of_eq_nil h, hcrlf]
      exact List.dropWhile_suffix _

/-- The token behind the first one is the second word. -/
theorem status_eq (r : Text) : status r = some (secondWord r) := by
  have hsecond : r.drop (haStripSpace r (haGrabText r (haStripSpace r 0))) = behindWord r := by
    rw [haStripSpace, haStripSpace, haGrabText, drop_moveWhile, drop_moveWhile, drop_moveWhile]
    rfl
  have htoken (s : ℕ) : (r.drop s).take (haGrabText r s - s) =
      (r.drop s).takeWhile fun c => !isspace c := by
    rw [haGrabText, moveWhile, Nat.add_sub_cancel_left]
    exact (List.prefix_iff_eq_take.mp (List.takeWhile_prefix _)).symm
  show some ((r.drop (haStripSpace r (haGrabText r (haStripSpace r 0)))).take
    (haGrabText r (haStripSpace r (haGrabText r (haStripSpace r 0))) -
      haStripSpace r (haGrabText r (haStripSpace r 0)))) = _
  rw [htoken, hsecond]
  rfl

/-- What is behind the three words. -/
theorem drop_behindWords (r : Text) : r.drop (behindWords r) =
    behindWord ((behindWord r).dropWhile fun c => !isspace c) := by
  show r.drop (haStripSpace r (haGrabText r (haStripSpace r (haGrabText r (haStripSpace r
    (haGrabText r (haStripSpace r 0))))))) = _
  simp only [haStripSpace, haGrabText, drop_moveWhile, behindWord, List.drop_zero]

/-- A word and a blank. -/
theorem behindWord_word {u : Text} (hne : u ≠ []) (hu : ∀ c ∈ u, isspace c = false) (l : Text) :
    behindWord (u ++ 32 :: l) = l.dropWhile isspace := by
  have hblank : (u ++ 32 :: l).dropWhile isspace = u ++ 32 :: l := by
    obtain ⟨c, u, rfl⟩ := List.exists_cons_of_ne_nil hne
    rw [List.cons_append, List.dropWhile_cons_of_neg]
    rw [hu c List.mem_cons_self]
    exact Bool.false_ne_true
  have hword : (u ++ 32 :: l).dropWhile (fun c => !isspace c) = 32 :: l := by
    rw [List.dropWhile_append_of_pos fun c hc => by rw [hu c hc]; rfl]
    rfl
  rw [behindWord, hblank, hword]
  rfl

end Words

/-! ## Lines -/

section Lines

variable {r u v pat : Text} {start : ℕ}

/-- **The first occurrence** is found, if there is no NUL before its end. -/
theorem strstr_of_first (h : r.drop start = u ++ pat ++ v) (hzero : ∀ c ∈ u ++ pat, c ≠ 0)
    (hfirst : ∀ a b, r.drop start = a ++ pat ++ b → u.length ≤ a.length) :
    strstr r start pat = some (start + u.length) := by
  have hcstr : cstr (r.drop start) = u ++ pat ++ cstr v := by
    rw [h, cstr, List.takeWhile_append_of_pos fun c hc => by simpa using hzero c hc]
    rfl
  refine strstr_eq_some_iff.mpr ⟨Nat.le_add_right _ _, ?_, fun a b hab => ?_⟩
  · rw [hcstr, Nat.add_sub_cancel_left, List.append_assoc, List.drop_left]
    exact List.prefix_append _ _
  · obtain ⟨l, hl⟩ : cstr (r.drop start) <+: r.drop start := List.takeWhile_prefix _
    refine Nat.add_le_add_left (hfirst a (b ++ l) ?_) _
    rw [← hl, hab, List.append_assoc]

theorem Plain.ne_zero (h : Plain u) : ∀ c ∈ u ++ crlf, c ≠ 0 := by
  intro c hc
  rcases List.mem_append.mp hc with hc | hc
  · exact (h c hc).1
  · rintro rfl
    exact absurd hc (by decide)

/-- No line ends in a plain text. -/
theorem Plain.length_le (h : Plain u) {a b : Text} (hsplit : u ++ crlf ++ v = a ++ crlf ++ b) :
    u.length ≤ a.length := by
  rw [List.append_assoc, List.append_assoc] at hsplit
  rcases List.append_eq_append_iff.mp hsplit with ⟨c, rfl, -⟩ | ⟨c, rfl, hc⟩
  · rw [List.length_append]
    exact Nat.le_add_right _ _
  · cases c with
    | nil => rw [List.append_nil]
    | cons x c =>
      obtain ⟨rfl, -⟩ := List.cons.inj hc
      exact absurd rfl (h 13 (List.mem_append_right _ List.mem_cons_self)).2.2

theorem strstr_crlf (h : r.drop start = u ++ crlf ++ v) (hu : Plain u) :
    strstr r start crlf = some (start + u.length) :=
  strstr_of_first h hu.ne_zero fun _ _ hab => hu.length_le (h.symm.trans hab)

/-- **No empty line** is in front of the end of lines that are not empty. -/
theorem length_le_of_empty_line (lines : List Text) (hlines : ∀ l ∈ lines, l ≠ [] ∧ Plain l)
    {a b : Text} (h : (lines.flatMap fun l => l ++ crlf) ++ crlf ++ v = a ++ (crlf ++ crlf) ++ b) :
    (lines.flatMap fun l => l ++ crlf).length ≤ a.length + 2 := by
  induction lines generalizing a with
  | nil => exact Nat.zero_le _
  | cons l lines ih =>
    obtain ⟨⟨-, hl⟩, hrest⟩ := List.forall_mem_cons.mp hlines
    rw [List.flatMap_cons] at h ⊢
    have hsplit : l ++ (crlf ++ ((lines.flatMap fun l => l ++ crlf) ++ crlf ++ v)) =
        a ++ (crlf ++ (crlf ++ b)) := by
      simpa only [List.append_assoc] using h
    have hlen : (l ++ crlf ++ lines.flatMap fun l => l ++ crlf).length =
        l.length + 2 + (lines.flatMap fun l => l ++ crlf).length := by
      rw [List.length_append, List.length_append]
      rfl
    rw [hlen]
    -- an empty line at the end of the first line, so that there is no other line
    have hend (hc : crlf ++ ((lines.flatMap fun l => l ++ crlf) ++ crlf ++ v) =
        crlf ++ (crlf ++ b)) : (lines.flatMap fun l => l ++ crlf).length = 0 := by
      cases lines with
      | nil => rfl
      | cons l' lines =>
        obtain ⟨⟨hne, hl'⟩, -⟩ := List.forall_mem_cons.mp hrest
        obtain ⟨x, l', rfl⟩ := List.exists_cons_of_ne_nil hne
        have hhead : x = 13 := (List.cons.inj (List.cons.inj (List.cons.inj hc).2).2).1
        exact absurd hhead (hl' x List.mem_cons_self).2.2
    rcases List.append_eq_append_iff.mp hsplit with ⟨c, rfl, hc⟩ | ⟨c, rfl, hc⟩
    · rw [List.length_append]
      rcases c with _ | ⟨x, _ | ⟨y, c⟩⟩
      · have hnone := hend hc
        omega
      · have hten : (10 : UInt8) = 13 := (List.cons.inj (List.cons.inj hc).2).1
        exact absurd hten (by decide)
      · have hnext : (lines.flatMap fun l => l ++ crlf) ++ crlf ++ v =
            c ++ (crlf ++ (crlf ++ b)) := (List.cons.inj (List.cons.inj hc).2).2
        have hle := @ih hrest c (by simpa only [List.append_assoc] using hnext)
        simp only [List.length_cons]
        omega
    · -- it cannot begin in the first line
      cases c with
      | nil =>
        have hnone := hend hc.symm
        rw [List.append_nil]
        omega
      | cons x c =>
        obtain ⟨rfl, -⟩ := List.cons.inj hc
        exact absurd rfl (hl 13 (List.mem_append_right _ List.mem_cons_self)).2.2

end Lines

/-! ## What is found in a response -/

section Reply

variable {w : HttpReply} {resp : HttpResponse} {p d : ℕ}

theorem Plain.suffix {t u : Text} (h : Plain t) (hu : u <:+ t) : Plain u :=
  fun c hc => h c (hu.mem hc)

/-- What is behind the code. -/
def HttpReply.rest (w : HttpReply) : Text := w.reason ++ (crlf ++ (w.headers ++ crlf ++ w.body))

/-- `HTTP/x.y`. -/
def HttpReply.proto (w : HttpReply) : Text := lit "HTTP/" ++ [w.major, 46, w.minor]

theorem text_eq (w : HttpReply) : w.text = w.proto ++ 32 :: (lit "200" ++ 32 :: w.rest) := by
  have hcode : lit " 200 " = 32 :: (lit "200" ++ [32]) := by decide
  rw [HttpParts.text, HttpParts.statusLine, hcode, HttpReply.proto, HttpReply.rest]
  simp only [List.append_assoc, List.cons_append, List.nil_append]

theorem length_text (w : HttpReply) :
    w.text.length = w.lineStart + (w.headers ++ crlf ++ w.body).length := by
  rw [HttpParts.text, HttpParts.lineStart, List.length_append, List.length_append]
  rfl

theorem behindWord_text (w : HttpReply) : behindWord w.text = lit "200" ++ 32 :: w.rest := by
  have hproto : ∀ c ∈ w.proto, isspace c = false := by
    have hmajor := isspace_of_isdigit w.major_digit
    have hminor := isspace_of_isdigit w.minor_digit
    intro c hc
    rcases List.mem_append.mp hc with hc | hc
    · have hall : (lit "HTTP/").all fun c => !isspace c := by decide
      simpa using List.all_eq_true.mp hall c hc
    · rcases List.mem_cons.mp hc with rfl | hc
      · exact hmajor
      · rcases List.mem_cons.mp hc with rfl | hc
        · decide
        · obtain rfl := List.mem_singleton.mp hc
          exact hminor
  have hne : w.proto ≠ [] := List.append_ne_nil_of_right_ne_nil _ (List.cons_ne_nil _ _)
  rw [text_eq, behindWord_word hne hproto]
  rfl

theorem secondWord_text (w : HttpReply) : secondWord w.text = lit "200" := by
  rw [secondWord, behindWord_text]
  rfl

/-- What is behind three words is behind the first word of the rest. -/
theorem drop_behindWords_text (w : HttpReply) :
    w.text.drop (behindWords w.text) = behindWord w.rest := by
  rw [drop_behindWords, behindWord_text]
  rfl

/-- **With fewer than two words**, the status line is left. -/
theorem lineStart_le_behindWords (h : behindWord w.reason = []) :
    w.lineStart ≤ behindWords w.text := by
  have hsuffix := behindWord_crlf h (w.headers ++ crlf ++ w.body)
  rw [← HttpReply.rest, ← drop_behindWords_text] at hsuffix
  have hle := hsuffix.length_le
  rw [List.length_drop, length_text] at hle
  omega

/-- **With two words**, the search begins in the status line. -/
theorem strstr_behindWords (h : behindWord w.reason ≠ []) :
    behindWords w.text < w.text.length ∧
      ∃ i, strstr w.text (behindWords w.text) crlf = some i ∧ w.lineStart = i + 2 := by
  have hdrop : w.text.drop (behindWords w.text) =
      behindWord w.reason ++ crlf ++ (w.headers ++ crlf ++ w.body) := by
    rw [drop_behindWords_text, HttpReply.rest, behindWord_append h]
    exact (List.append_assoc _ _ _).symm
  have hplain : Plain (behindWord w.reason) := w.reason_plain.suffix
    (((List.dropWhile_suffix _).trans (List.dropWhile_suffix _)).trans (List.dropWhile_suffix _))
  have hlen := congrArg List.length hdrop
  rw [List.length_drop, length_text, @List.length_append _ (behindWord w.reason ++ crlf),
    @List.length_append _ (behindWord w.reason)] at hlen
  have htwo : crlf.length = 2 := rfl
  have hpos := List.length_pos_of_ne_nil h
  refine ⟨?_, _, strstr_crlf hdrop hplain, by omega⟩
  rw [length_text]
  omega

theorem plain_fieldLine {f : Text × Text} (hf : f ∈ w.fields) :
    HttpParts.fieldLine f ≠ [] ∧ Plain (HttpParts.fieldLine f) := by
  obtain ⟨hne, -, hkey⟩ := w.keys f hf
  refine ⟨?_, fun c hc => ?_⟩
  · rw [HttpParts.fieldLine, List.append_assoc]
    exact List.append_ne_nil_of_left_ne_nil hne _
  · rcases List.mem_append.mp hc with hc | hc
    · rcases List.mem_append.mp hc with hc | hc
      · exact hkey c hc
      · have hcolon : lit ": " = [58, 32] := by decide
        rw [hcolon] at hc
        rcases List.mem_cons.mp hc with rfl | hc
        · decide
        · obtain rfl := List.mem_singleton.mp hc
          decide
    · exact w.values f hf c hc

theorem drop_lineStart (w : HttpReply) :
    w.text.drop w.lineStart = w.headers ++ crlf ++ w.body := by
  have hlen : (w.statusLine ++ crlf).length = w.lineStart := List.length_append
  rw [HttpParts.text, ← hlen]
  exact List.drop_left

/-- **The empty line** is behind the header lines, if there are any. -/
theorem strstr_lineStart (h : w.fields ≠ []) :
    ∃ j, strstr w.text w.lineStart (crlf ++ crlf) = some j ∧ w.bodyStart = j + 4 := by
  obtain ⟨u, hu⟩ : ∃ u, w.headers = u ++ crlf := by
    rcases List.eq_nil_or_concat w.fields with hnil | ⟨fields, f, hf⟩
    · exact absurd hnil h
    · refine ⟨(fields.flatMap fun f => HttpParts.fieldLine f ++ crlf) ++ HttpParts.fieldLine f, ?_⟩
      rw [HttpParts.headers, hf, List.concat_eq_append, List.flatMap_append, List.append_assoc]
      exact congrArg _ (List.flatMap_singleton _ _)
  have hdrop : w.text.drop w.lineStart = u ++ (crlf ++ crlf) ++ w.body := by
    rw [drop_lineStart, hu]
    simp only [List.append_assoc]
  have hlines : w.headers = (w.fields.map HttpParts.fieldLine).flatMap fun l => l ++ crlf := by
    rw [List.flatMap_map]
    rfl
  have hzero : ∀ c ∈ u ++ (crlf ++ crlf), c ≠ 0 := by
    intro c hc
    rw [← List.append_assoc, ← hu, HttpParts.headers] at hc
    rcases List.mem_append.mp hc with hc | hc
    · obtain ⟨f, hf, hc⟩ := List.mem_flatMap.mp hc
      exact (plain_fieldLine hf).2.ne_zero c hc
    · rintro rfl
      exact absurd hc (by decide)
  have hlen : w.headers.length = u.length + 2 := by
    rw [hu, List.length_append]
    rfl
  refine ⟨_, strstr_of_first hdrop hzero fun a b hab => ?_, ?_⟩
  · have hall : ∀ l ∈ w.fields.map HttpParts.fieldLine, l ≠ [] ∧ Plain l := by
      intro l hl
      obtain ⟨f, hf, rfl⟩ := List.mem_map.mp hl
      exact plain_fieldLine hf
    rw [drop_lineStart, hlines] at hab
    have hle := length_le_of_empty_line _ hall hab
    rw [← hlines] at hle
    omega
  · rw [HttpParts.bodyStart, hlen]
    omega

/-- **With two words in the reason and with header lines** a response is taken apart right. -/
theorem finds_text (hword : behindWord w.reason ≠ []) (hfields : w.fields ≠ []) :
    Finds w.text w.lineStart w.bodyStart := by
  obtain ⟨hlt, i, hi, hp⟩ := strstr_behindWords hword
  obtain ⟨j, hj, hd⟩ := strstr_lineStart hfields
  refine finds_iff.mpr ⟨?_, hlt, i, j, hi, hp, hj, hd⟩
  rw [status_eq, secondWord_text]

/-- **Without them** it is not. -/
theorem words_of_finds (h : Finds w.text p w.bodyStart) (hp : w.fields ≠ [] → p = w.lineStart) :
    behindWord w.reason ≠ [] ∧ w.fields ≠ [] := by
  obtain ⟨hpd, -, -⟩ := h.bounds
  obtain ⟨-, -, i, j, hi, hpi, hj, -⟩ := finds_iff.mp h
  obtain ⟨hle, -, -⟩ := strstr_eq_some_iff.mp hi
  have hfields : w.fields ≠ [] := by
    intro hnil
    have hnone : w.headers = [] := by
      rw [HttpParts.headers, hnil]
      rfl
    rw [HttpParts.bodyStart, hnone, List.length_nil] at hpd
    by_cases hword : behindWord w.reason = []
    · have hstart := lineStart_le_behindWords hword
      omega
    · obtain ⟨-, i', hi', hp'⟩ := strstr_behindWords hword
      obtain rfl := Option.some.inj (hi.symm.trans hi')
      omega
  refine ⟨fun hword => ?_, hfields⟩
  have hstart := lineStart_le_behindWords hword
  have hline := hp hfields
  omega

/-- Another code. -/
theorem receiveIn_of_ne {arrived : Option Text} (h : secondWord (received arrived) ≠ lit "200") :
    (resp.receiveIn arrived).value.1 = -1 := by
  by_cases hne : received arrived = []
  · rw [HttpResponse.receiveIn, if_pos hne]
    rfl
  · have htake := take_after resp (length_received_le arrived)
    have hstatus : status (received arrived) ≠ some (lit "200") := by
      rw [status_eq]
      exact fun heq => h (Option.some.inj heq)
    have hsearch : searchResponse (resp.after (received arrived)).buf.toList
        (received arrived).length = none := by
      rw [searchResponse, htake]
      exact if_neg hstatus
    rw [value_receiveIn hne, HttpResponse.parse, hsearch]

theorem received_text (w : HttpReply) : received (some w.text) = w.text :=
  List.take_of_length_le w.short.le

/-- A response that is taken apart right is read. -/
theorem readsReplies_of_finds (arrived : Option Text) (h : Finds w.text w.lineStart w.bodyStart) :
    ReadsReplies resp w arrived := by
  have hr : (received (some w.text)).length < defRespSize := by
    rw [received_text]
    exact w.short
  have hvalue := @receiveIn_of_finds resp (some w.text) w.lineStart w.bodyStart hr
    (by rw [received_text]; exact h)
  have hbody : (w.text.length : ℤ) - w.bodyStart = w.body.length := by
    rw [length_text, HttpParts.bodyStart, List.length_append, List.length_append]
    have htwo : crlf.length = 2 := rfl
    omega
  have hdrop : w.text.drop w.bodyStart = w.body := by
    have hsum : w.bodyStart = w.lineStart + (w.headers ++ crlf).length := by
      rw [HttpParts.bodyStart, List.length_append]
      rfl
    rw [hsum, ← List.drop_drop, drop_lineStart]
    exact List.drop_left
  have hle : w.bodyStart ≤ w.text.length := by
    obtain ⟨-, hd, -⟩ := h.bounds
    exact hd
  rw [received_text] at hvalue
  refine ⟨?_, ?_, ?_, ?_, receiveIn_of_ne⟩
  · rw [hvalue]
    exact hbody
  · intro _
    rw [hvalue]
  · rw [hvalue]
  · rw [hvalue]
    show some (((resp.after w.text).buf.toList.drop w.bodyStart).take
      ((w.text.length : ℤ) - w.bodyStart).toNat) = some w.body
    rw [toList_after resp w.short, List.drop_append_of_le_length hle, hdrop, hbody,
      Int.toNat_natCast, List.take_left]

/-- A response that is read has two words in the reason, and header lines. -/
theorem ReadsReplies.words {arrived : Option Text} (h : ReadsReplies resp w arrived) :
    behindWord w.reason ≠ [] ∧ w.fields ≠ [] := by
  have hr : (received (some w.text)).length < defRespSize := by
    rw [received_text]
    exact w.short
  have hne : (resp.receiveIn (some w.text)).value.1 ≠ -1 := by
    rw [h.returns]
    omega
  obtain ⟨p, d, hfinds⟩ := exists_finds_of_receiveIn hr hne
  have hline := h.lineStart
  have hdata := h.data
  rw [receiveIn_of_finds hr hfinds] at hline hdata
  have hd : d = w.bodyStart := Option.some.inj hdata
  rw [received_text, hd] at hfinds
  exact words_of_finds hfinds fun hfields => Option.some.inj (hline hfields)

/-- **A well-formed response is read** when, and only when, its reason has two words and there are
header lines; one with another code is always refused. -/
theorem readsReplies_iff (resp : HttpResponse) (w : HttpReply) (arrived : Option Text) :
    ReadsReplies resp w arrived ↔ behindWord w.reason ≠ [] ∧ w.fields ≠ [] :=
  ⟨fun h => h.words, fun h => readsReplies_of_finds arrived (finds_text h.1 h.2)⟩

theorem plain_of_all {t : Text} (h : t.all fun c => c ≠ 0 ∧ c ≠ 10 ∧ c ≠ 13) : Plain t :=
  fun c hc => of_decide_eq_true (List.all_eq_true.mp h c hc)

/-- `HTTP/1.1 200 OK`, a header line and a body. -/
def okReply : HttpReply where
  major := 49
  minor := 49
  reason := lit "OK"
  fields := [(lit "A", lit "b")]
  body := lit "x"
  major_digit := by decide
  minor_digit := by decide
  reason_plain := plain_of_all (by decide)
  keys := by
    intro f hf
    obtain rfl := List.mem_singleton.mp hf
    exact ⟨by decide, by decide, plain_of_all (by decide)⟩
  values := by
    intro f hf
    obtain rfl := List.mem_singleton.mp hf
    exact plain_of_all (by decide)
  short := by decide

/-- The search for the end of the status line finds that of the header line, and then there is no
empty line. -/
theorem not_readsReplies_okReply :
    ¬ ReadsReplies ⟨false, none, none, 0, Vector.replicate defRespSize 0⟩ okReply none := by
  intro h
  exact h.words.1 (by decide)

end Reply

end Ltm

end Tqos
