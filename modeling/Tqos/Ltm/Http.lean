import Mathlib.Data.List.Infix
import Mathlib.Data.List.TakeWhile
import Mathlib.Order.Basic
import Tqos.Lib.Except
import Tqos.Lib.Traced
import Tqos.Ltm.SplitLine

/-!
# HTTP requests

A request object of `hytext.c` holds the header lines and, behind them, what the last response was
read into. `xiaocilang_gogogo` sends the request, receives into `resp.buf` and looks for the header
lines and the data of the response; `resp.valid` says that it found them.

Pointers into the buffer are offsets. Memory is always there when it is asked for.

## Main definitions

* `HttpRequest.exchange` — what a call receives
* `searchResponse` — where `line_start` and `data` point in it
* `xiaocilangGogogo` — the call
* `xiaocilangGiveKv`, `xiaocilangNeedKv` — the header lines of the response
-/

namespace Tqos

namespace Ltm

/-- How a function can end other than by returning. -/
inductive HttpFault
  /-- An array is used outside its bounds. -/
  | outOfBounds
  | nullPointer
  /-- The result of a sum is no `int`. -/
  | intOverflow
deriving DecidableEq, Repr

/-! ## Pointers

A text `t` is the buffer up to the pointer `end`. -/

/-- A pointer behind the bytes of a kind. -/
def moveWhile (f : UInt8 → Bool) (t : Text) (start : ℕ) : ℕ :=
  start + ((t.drop start).takeWhile f).length

/-- `ha_strip_space`. -/
def haStripSpace (t : Text) (start : ℕ) : ℕ := moveWhile isspace t start

/-- `ha_grab_text`. -/
def haGrabText (t : Text) (start : ℕ) : ℕ := moveWhile (fun c => !isspace c) t start

/-- `ha_skip_newline`. -/
def haSkipNewline (t : Text) (start : ℕ) : ℕ := moveWhile (· ≠ 10) t start

/-- `http_trisection_header`, for `n` more tokens. -/
def httpTrisectionHeader (t : Text) : ℕ → ℕ → List Cstr × ℕ
  | 0, start => ([], start)
  | n + 1, start =>
    let str := haStripSpace t start
    let start := haGrabText t str
    let rest := httpTrisectionHeader t n start
    (⟨str, start - str⟩ :: rest.1, rest.2)

/-- `strstr`. -/
def strstr (buf : Text) (start : ℕ) (pat : Text) : Option ℕ :=
  ((cstr (buf.drop start)).dropInfix? pat).map fun p => start + p.1.length

/-- The end of a line. -/
abbrev crlf : Text := [13, 10]

section Pointers

variable {f : UInt8 → Bool} {t buf pat r l : Text} {start i : ℕ}

theorem le_moveWhile (f : UInt8 → Bool) (t : Text) (start : ℕ) : start ≤ moveWhile f t start :=
  Nat.le_add_right _ _

theorem moveWhile_le (h : start ≤ t.length) : moveWhile f t start ≤ t.length := by
  have hle := (List.takeWhile_sublist f (l := t.drop start)).length_le
  rw [List.length_drop] at hle
  rw [moveWhile]
  omega

/-- Behind the pointer is what is left without the bytes of the kind. -/
theorem drop_moveWhile (f : UInt8 → Bool) (t : Text) (start : ℕ) :
    t.drop (moveWhile f t start) = (t.drop start).dropWhile f := by
  have hsplit := List.takeWhile_append_dropWhile (p := f) (l := t.drop start)
  rw [moveWhile, ← List.drop_drop]
  exact (congrArg (List.drop _) hsplit).symm.trans List.drop_left

theorem le_httpTrisectionHeader (t : Text) (n start : ℕ) :
    start ≤ (httpTrisectionHeader t n start).2 := by
  induction n generalizing start with
  | zero => exact le_rfl
  | succ n ih => exact ((le_moveWhile _ t start).trans (le_moveWhile _ t _)).trans (ih _)

theorem httpTrisectionHeader_le {n : ℕ} (h : start ≤ t.length) :
    (httpTrisectionHeader t n start).2 ≤ t.length := by
  induction n generalizing start with
  | zero => exact h
  | succ n ih => exact ih (moveWhile_le (moveWhile_le h))

/-- **The first occurrence** in the string. -/
theorem strstr_eq_some_iff : strstr buf start pat = some i ↔
    start ≤ i ∧ pat <+: (cstr (buf.drop start)).drop (i - start) ∧
      ∀ a b, cstr (buf.drop start) = a ++ pat ++ b → i ≤ start + a.length := by
  rw [strstr, Option.map_eq_some_iff]
  constructor
  · rintro ⟨⟨a, b⟩, h, rfl⟩
    obtain ⟨⟨pat', hsplit, hpat⟩, hfirst⟩ := List.dropInfix?_eq_some_iff.mp h
    obtain rfl := eq_of_beq hpat
    refine ⟨Nat.le_add_right _ _, ?_, fun a' b' h' => ?_⟩
    · rw [hsplit, Nat.add_sub_cancel_left, List.append_assoc, List.drop_left]
      exact List.prefix_append _ _
    · exact Nat.add_le_add_left (hfirst a' pat' b' h' (beq_self_eq_true _)) _
  · rintro ⟨hle, ⟨b, hb⟩, hfirst⟩
    set s := cstr (buf.drop start)
    have hsplit : s = s.take (i - start) ++ pat ++ b := by
      rw [List.append_assoc, hb, List.take_append_drop]
    have hlen : (s.take (i - start)).length = i - start := by
      have hmin := hfirst _ _ hsplit
      have hle := List.length_take_le (i - start) s
      omega
    refine ⟨(s.take (i - start), b), List.dropInfix?_eq_some_iff.mpr ⟨?_, ?_⟩, ?_⟩
    · exact ⟨pat, hsplit, beq_self_eq_true _⟩
    · rintro a pat' b' h' hpat
      obtain rfl := eq_of_beq hpat
      have hmin := hfirst _ _ h'
      show (s.take (i - start)).length ≤ a.length
      omega
    · show start + (s.take (i - start)).length = i
      omega

/-- What occurs in the string is found. -/
theorem exists_strstr {a b : Text} (h : cstr (buf.drop start) = a ++ pat ++ b) :
    ∃ i, strstr buf start pat = some i ∧ i ≤ start + a.length := by
  have hex : ∃ n a b, cstr (buf.drop start) = a ++ pat ++ b ∧ n = a.length := ⟨_, a, b, h, rfl⟩
  classical
  obtain ⟨a', b', h', hn⟩ := Nat.find_spec hex
  have hfirst : ∀ a b, cstr (buf.drop start) = a ++ pat ++ b → start + a'.length ≤
      start + a.length := fun a b hab =>
    Nat.add_le_add_left (hn ▸ Nat.find_min' hex ⟨a, b, hab, rfl⟩) _
  refine ⟨start + a'.length, strstr_eq_some_iff.mpr ⟨Nat.le_add_right _ _, ?_, hfirst⟩,
    hfirst a b h⟩
  rw [h', Nat.add_sub_cancel_left, List.append_assoc, List.drop_left]
  exact List.prefix_append _ _

/-- A string further on is the end of the string. -/
theorem cstr_drop {s : Text} {n : ℕ} (h : n ≤ (cstr s).length) :
    cstr (s.drop n) = (cstr s).drop n := by
  induction n generalizing s with
  | zero => rfl
  | succ n ih =>
    cases s with
    | nil => rfl
    | cons c s =>
      by_cases hc : c = 0
      · subst hc
        exact absurd h (Nat.not_succ_le_zero n)
      · have hcons : cstr (c :: s) = c :: cstr s := List.takeWhile_cons_of_pos (by simpa using hc)
        rw [hcons] at h ⊢
        exact ih (Nat.le_of_succ_le_succ h)

/-- The pattern stands in the buffer where it is found. -/
theorem prefix_of_strstr (h : strstr buf start pat = some i) : pat <+: buf.drop i := by
  obtain ⟨hle, hpat, -⟩ := strstr_eq_some_iff.mp h
  have hsub := hpat.trans ((List.takeWhile_prefix _).drop (i - start))
  rwa [List.drop_drop, Nat.add_sub_cancel' hle] at hsub

/-- In a buffer with a NUL behind the text, the search goes over the text. -/
theorem strstr_append_zero (l : Text) (h : start ≤ r.length) :
    strstr (r ++ 0 :: l) start pat = strstr r start pat := by
  rw [strstr, strstr, List.drop_append_of_le_length h, cstr_append_zero]

/-! More bytes behind the text do not move a pointer that stays inside. -/

theorem moveWhile_append (h : start ≤ t.length) (hlt : moveWhile f t start < t.length) (l : Text) :
    moveWhile f (t ++ l) start = moveWhile f t start := by
  rw [moveWhile] at hlt ⊢
  rw [moveWhile, List.drop_append_of_le_length h, List.takeWhile_append]
  split
  · rename_i hall
    rw [hall, List.length_drop] at hlt
    omega
  · rfl

theorem text_append {c : Cstr} (h : c.str + c.len ≤ t.length) (l : Text) :
    c.text (t ++ l) = c.text t := by
  have hlen : c.len ≤ (t.drop c.str).length := by
    rw [List.length_drop]
    omega
  rw [Cstr.text, Cstr.text, List.drop_append_of_le_length (by omega),
    List.take_append_of_le_length hlen]

/-- The tokens end before the pointer that is left. -/
theorem le_of_mem_httpTrisectionHeader {n : ℕ} {c : Cstr}
    (h : c ∈ (httpTrisectionHeader t n start).1) :
    c.str + c.len ≤ (httpTrisectionHeader t n start).2 := by
  induction n generalizing start with
  | zero => exact absurd h List.not_mem_nil
  | succ n ih =>
    rcases List.mem_cons.mp h with rfl | h
    · have hgrab := le_moveWhile (fun c => !isspace c) t (haStripSpace t start)
      have hrest := le_httpTrisectionHeader t n (haGrabText t (haStripSpace t start))
      dsimp only
      rw [haGrabText, Nat.add_sub_cancel' hgrab]
      exact hrest
    · exact ih h

theorem httpTrisectionHeader_append {n : ℕ} (h : start ≤ t.length)
    (hlt : (httpTrisectionHeader t n start).2 < t.length) (l : Text) :
    httpTrisectionHeader (t ++ l) n start = httpTrisectionHeader t n start := by
  induction n generalizing start with
  | zero => rfl
  | succ n ih =>
    have hlt : (httpTrisectionHeader t n (haGrabText t (haStripSpace t start))).2 < t.length := hlt
    have hgrab : haGrabText t (haStripSpace t start) < t.length :=
      (le_httpTrisectionHeader t n _).trans_lt hlt
    have hstrip : haStripSpace t start < t.length := (le_moveWhile _ t _).trans_lt hgrab
    rw [httpTrisectionHeader, httpTrisectionHeader, haStripSpace, moveWhile_append h hstrip,
      ← haStripSpace, haGrabText, moveWhile_append hstrip.le hgrab, ← haGrabText, ih hgrab.le hlt]

theorem strstr_append (h : strstr r start pat = some i) (hstart : start ≤ r.length) (l : Text) :
    strstr (r ++ l) start pat = some i := by
  obtain ⟨hle, hpat, hfirst⟩ := strstr_eq_some_iff.mp h
  have hbegins : cstr (r.drop start) <+: cstr ((r ++ l).drop start) := by
    rw [List.drop_append_of_le_length hstart, cstr, cstr, List.takeWhile_append]
    split
    · rename_i hall
      rw [(List.takeWhile_prefix _).eq_of_length hall]
      exact List.prefix_append _ _
    · exact List.prefix_rfl
  refine strstr_eq_some_iff.mpr ⟨hle, hpat.trans (hbegins.drop _), fun a b hab => ?_⟩
  by_contra hearly
  have hinside : i - start ≤ (cstr (r.drop start)).length := by
    by_contra hout
    rw [List.drop_eq_nil_of_le (not_le.mp hout).le, List.prefix_nil] at hpat
    subst hpat
    have hzero := hfirst [] (cstr (r.drop start)) rfl
    rw [List.length_nil] at hzero
    omega
  have hin := hpat.length_le
  rw [List.length_drop] at hin
  -- an earlier occurrence is in the shorter string
  have hshort : (a ++ pat).length ≤ (cstr (r.drop start)).length := by
    rw [List.length_append]
    omega
  obtain ⟨b', hb'⟩ := List.prefix_of_prefix_length_le ⟨b, hab.symm⟩ hbegins hshort
  exact hearly (hfirst a b' hb'.symm)

end Pointers

/-! ## Requests -/

/-- `DEF_RESP_SIZE`. -/
abbrev defRespSize : ℕ := 4096

/-- `DEF_REQ_SIZE`. -/
abbrev defReqSize : ℕ := 2048

/-- `struct http_response`, without the table of header lines, which is filled before each use. -/
structure HttpResponse where
  valid : Bool
  lineStart : Option ℕ
  data : Option ℕ
  dlen : ℤ
  buf : Vector UInt8 defRespSize

/-- `struct http_request`, without its address and the buffer that a request is formatted in. -/
structure HttpRequest where
  host : Text
  method : Text
  url : Text
  version : Text
  lines : List (Text × Text)
  /-- The `dlen` bytes at `data`, none when this is `NULL`. -/
  data : Text
  resp : HttpResponse

/-- A text of the source. -/
def lit (s : String) : Text := ascii s.toList

/-- `xiaocilang_born`. -/
def xiaocilangBorn (method url : Text) : HttpRequest where
  host := []
  method := method
  url := url
  version := lit "HTTP/1.0"
  lines := []
  data := []
  resp := ⟨false, none, none, 0, Vector.replicate defRespSize 0⟩

/-- `xiaocilang_want_naodai`: a header line, in the place of one with the key. -/
def wantNaodai (key val : Text) : List (Text × Text) → List (Text × Text)
  | [] => [(key, val)]
  | l :: lines => if l.1 = key then (l.1, val) :: lines else l :: wantNaodai key val lines

namespace HttpRequest

/-- `xiaocilang_want_naodai`. -/
def xiaocilangWantNaodai (req : HttpRequest) (key val : Text) : HttpRequest :=
  { req with lines := wantNaodai key val req.lines }

/-- `xiaocilang_buyao_naodai`. -/
def xiaocilangBuyaoNaodai (req : HttpRequest) (key : Text) : HttpRequest :=
  { req with lines := req.lines.eraseP fun l => l.1 = key }

/-- `xiaocilang_want_housite`, when the name is an address or has one. -/
def xiaocilangWantHousite (req : HttpRequest) (host : Text) (resolves : Bool) : HttpRequest :=
  if resolves then { req with host := host }.xiaocilangWantNaodai (lit "Host") host else req

/-- `xiaocilang_want_zhaoshi`. -/
def xiaocilangWantZhaoshi (req : HttpRequest) (method : Text) : HttpRequest :=
  { req with method := method }

/-- `xiaocilang_want_data`, with what the data is encrypted to, if it is. -/
def xiaocilangWantData (req : HttpRequest) (encrypted : Option Text) : HttpRequest :=
  match encrypted with
  | some data => { req with data := data }
  | none => req

/-! ## The exchange -/

/-- `%s %s %s\r\n`. -/
def requestLine (req : HttpRequest) : Text :=
  req.method ++ [32] ++ req.url ++ [32] ++ req.version ++ crlf

/-- `%s:%s\r\n`. -/
def headerLine (l : Text × Text) : Text := l.1 ++ [58] ++ l.2 ++ crlf

/-- The line or lines on the data. -/
def lengthLine (data : Text) : Text :=
  if data = [] then lit "Content-Length:0\r\n\r\n"
  else lit "Content-Type:application/x-www-form-urlencoded\r\nContent-Length:" ++
    decimal data.length ++ crlf ++ crlf

/-- The loop over the header lines, when `t` has been written: nothing, when the buffer is full
before the last one. -/
def formatLines : List (Text × Text) → Text → Option Text
  | [], t => some t
  | l :: lines, t => if t.length < defReqSize then formatLines lines (t ++ headerLine l) else none

/-- The text of the request, as long as `snprintf` says. The room that is left is the difference of
two pointers; when it is negative `snprintf` takes it for a very large one. -/
def formatRequest (req : HttpRequest) : Except HttpFault (Option Text) :=
  match formatLines req.lines req.requestLine with
  | none => .ok none
  | some t =>
    if t.length ≤ defReqSize then .ok (some (t ++ lengthLine req.data)) else .error .outOfBounds

/-- What is in the buffer of it. -/
def inReqBuf (t : Text) : Text :=
  if t.length < defReqSize then t else t.take (defReqSize - 1) ++ [0]

end HttpRequest

/-- What a call finds on the network. -/
structure Net where
  socket : Bool
  /-- Whether an attempt to connect succeeds. -/
  connect : ℕ → Bool
  writev : Text → ℤ
  /-- What comes back, or that nothing does. -/
  recv : Text → Option Text

namespace HttpRequest

/-- The call up to `recv`: the bytes that have been received, if any. There are four attempts to
connect. -/
def exchange (net : Net) (req : HttpRequest) : Except HttpFault (Option Text) := do
  match ← req.formatRequest with
  | none => pure none
  | some t =>
    if net.socket = true ∧ (List.range 4).any net.connect = true then
      if t.length ≤ defReqSize then
        let sent := inReqBuf t ++ req.data
        if net.writev sent = sent.length then
          match net.recv sent with
          | none => pure none
          | some r => pure (if r = [] then none else some (r.take defRespSize))
        else pure none
      else throw .outOfBounds
    else pure none

end HttpRequest

/-! ## A request that fits -/

namespace HttpRequest

/-- The lines of a request. -/
def wholeText (req : HttpRequest) : Text :=
  req.requestLine ++ req.lines.flatMap headerLine ++ lengthLine req.data

theorem formatLines_of_lt {lines : List (Text × Text)} {t : Text}
    (h : (t ++ lines.flatMap headerLine).length < defReqSize) :
    formatLines lines t = some (t ++ lines.flatMap headerLine) := by
  induction lines generalizing t with
  | nil => rw [formatLines, List.flatMap_nil, List.append_nil]
  | cons l lines ih =>
    rw [List.flatMap_cons, ← List.append_assoc] at h ⊢
    have ht : t.length < defReqSize := by
      refine lt_of_le_of_lt ?_ h
      rw [List.append_assoc, List.length_append]
      exact Nat.le_add_right _ _
    rw [formatLines, if_pos ht, ih h]

theorem formatRequest_of_lt {req : HttpRequest} (h : req.wholeText.length < defReqSize) :
    req.formatRequest = .ok (some req.wholeText) := by
  have hlines : (req.requestLine ++ req.lines.flatMap headerLine).length < defReqSize := by
    have hprefix : req.requestLine ++ req.lines.flatMap headerLine <+: req.wholeText :=
      List.prefix_append _ _
    exact hprefix.length_le.trans_lt h
  rw [formatRequest, formatLines_of_lt hlines]
  exact if_pos hlines.le

end HttpRequest

/-- Without a connection nothing is received. -/
theorem HttpRequest.exchange_of_not_connected {net : Net} {req : HttpRequest}
    (h : req.wholeText.length < defReqSize)
    (hnet : ¬ (net.socket = true ∧ (List.range 4).any net.connect = true)) :
    req.exchange net = .ok none := by
  rw [exchange, formatRequest_of_lt h]
  dsimp only [Bind.bind, Except.bind]
  rw [if_neg hnet]
  rfl

/-- A network with a server that answers every request. -/
def Net.answering (server : Text → Text) : Net where
  socket := true
  connect _ := true
  writev sent := sent.length
  recv sent := some (server sent)

namespace HttpRequest

/-- **The answer is received**, if it is not empty. -/
theorem exchange_answering {req : HttpRequest} (server : Text → Text)
    (h : req.wholeText.length < defReqSize) : req.exchange (.answering server) =
      .ok (if server (req.wholeText ++ req.data) = [] then none
        else some ((server (req.wholeText ++ req.data)).take defRespSize)) := by
  have hbuf : inReqBuf req.wholeText = req.wholeText := if_pos h
  have hconnected : (Net.answering server).socket = true ∧
      (List.range 4).any (Net.answering server).connect = true := ⟨rfl, rfl⟩
  have hwrite : (Net.answering server).writev (req.wholeText ++ req.data) =
      (req.wholeText ++ req.data).length := rfl
  rw [exchange, formatRequest_of_lt h]
  dsimp only [Bind.bind, Except.bind]
  rw [if_pos hconnected, if_pos h.le, hbuf, if_pos hwrite]
  rfl

end HttpRequest

/-! ## The response -/

/-- What a call finds in the first `nr` bytes of the buffer: nothing, or `line_start` and a pointer
to the data, each of which may be `NULL`. -/
def searchResponse (buf : Text) (nr : ℕ) : Option (Option ℕ × Option ℕ) :=
  let t := buf.take nr
  let result := httpTrisectionHeader t 3 0
  if result.1[1]?.map (Cstr.text t) = some (lit "200") then
    let start := haStripSpace t result.2
    if start < nr then
      let lineStart := (strstr buf start crlf).map (· + 2)
      some (lineStart, (strstr buf (lineStart.getD start) (crlf ++ crlf)).map (· + 4))
    else none
  else none

/-- The call from `recv` on. -/
def HttpResponse.parse (resp : HttpResponse) (nr : ℕ) : ℤ × HttpResponse :=
  match searchResponse resp.buf.toList nr with
  | none => (-1, resp)
  | some (lineStart, none) => (-1, { resp with lineStart := lineStart })
  | some (lineStart, some data) =>
    let dlen := (nr : ℤ) - data
    (dlen, { resp with valid := true, lineStart := lineStart, data := some data, dlen := dlen })

/-- `recv` into the buffer, with the NUL behind it. -/
def HttpResponse.receive (resp : HttpResponse) (r : Text) : HttpResponse :=
  { resp with buf := blitV resp.buf 0 (r ++ [0]) }

/-- `xiaocilang_gogogo`. -/
def xiaocilangGogogo (net : Net) (req : HttpRequest) : Except HttpFault (ℤ × HttpRequest) := do
  match ← req.exchange net with
  | none => pure (-1, req)
  | some r =>
    if r.length < defRespSize then
      let res := (req.resp.receive r).parse r.length
      pure (res.1, { req with resp := res.2 })
    else throw .outOfBounds

/-- `xiaocilang_give_data`, without decryption: the bytes at `resp.data`. -/
def HttpResponse.xiaocilangGiveData (resp : HttpResponse) : Option Text :=
  if resp.valid then resp.data.map fun d => (resp.buf.toList.drop d).take resp.dlen.toNat
  else none

/-! ## What a call does -/

/-- Where a call finds the header lines and the data of a response. -/
def Finds (r : Text) (p d : ℕ) : Prop := searchResponse r r.length = some (some p, some d)

/-- What a call leaves then. -/
def HttpResponse.found (resp : HttpResponse) (r : Text) (p d : ℕ) : HttpResponse :=
  { resp.receive r with valid := true, lineStart := some p, data := some d,
                        dlen := (r.length : ℤ) - d }

/-- The second word of a response. -/
def status (r : Text) : Option Text := (httpTrisectionHeader r 3 0).1[1]?.map (Cstr.text r)

/-- The place behind three words and the blanks behind them. -/
def behindWords (r : Text) : ℕ := haStripSpace r (httpTrisectionHeader r 3 0).2

/-- The second word is 200, and behind the third one, before any NUL, there is the end of a line and
an empty line behind that. -/
def Readable (r : Text) : Prop :=
  status r = some (lit "200") ∧
    ∃ a b c, cstr (r.drop (behindWords r)) = a ++ crlf ++ b ++ (crlf ++ crlf) ++ c

section Call

variable {net : Net} {req : HttpRequest} {resp : HttpResponse} {r l : Text} {p d : ℕ}

/-- A search in the buffer is a search in what has been received. -/
theorem searchResponse_append_zero (r l : Text) :
    searchResponse (r ++ 0 :: l) r.length = searchResponse r r.length := by
  have htake : (r ++ 0 :: l).take r.length = r := List.take_left
  rw [searchResponse, searchResponse, htake, List.take_length]
  dsimp only
  split_ifs with hstatus hstart
  · rw [strstr_append_zero l hstart.le]
    cases hline : strstr r (haStripSpace r (httpTrisectionHeader r 3 0).2) crlf with
    | none =>
      rw [Option.map_none, Option.getD_none, strstr_append_zero l hstart.le]
    | some i =>
      have hi := (prefix_of_strstr hline).length_le
      rw [List.length_drop] at hi
      rw [Option.map_some, Option.getD_some, strstr_append_zero l (by simp at hi; omega)]
  · rfl
  · rfl

theorem searchResponse_eq (r : Text) : searchResponse r r.length =
    if status r = some (lit "200") then
      if behindWords r < r.length then
        some ((strstr r (behindWords r) crlf).map (· + 2),
          (strstr r (((strstr r (behindWords r) crlf).map (· + 2)).getD (behindWords r))
            (crlf ++ crlf)).map (· + 4))
      else none
    else none := by
  rw [searchResponse, List.take_length]
  rfl

/-- Where there is an empty line, a line ends. -/
theorem searchResponse_ne (r : Text) (d : ℕ) :
    searchResponse r r.length ≠ some (none, some d) := by
  rw [searchResponse_eq]
  split_ifs
  · intro h
    obtain ⟨hline, hdata⟩ := Prod.mk.inj (Option.some.inj h)
    rw [hline, Option.getD_none] at hdata
    obtain ⟨i, hi, -⟩ := Option.map_eq_some_iff.mp hdata
    obtain ⟨-, ⟨c, hc⟩, -⟩ := strstr_eq_some_iff.mp hi
    have hsplit : cstr (r.drop (behindWords r)) =
        (cstr (r.drop (behindWords r))).take (i - behindWords r) ++ crlf ++ (crlf ++ c) := by
      rw [List.append_assoc, ← List.append_assoc crlf crlf c, hc, List.take_append_drop]
    obtain ⟨j, hj, -⟩ := exists_strstr hsplit
    rw [hj] at hline
    cases hline
  · nofun
  · nofun

/-- What is found, in the words of the searches. -/
theorem finds_iff : Finds r p d ↔ status r = some (lit "200") ∧ behindWords r < r.length ∧
    ∃ i j, strstr r (behindWords r) crlf = some i ∧ p = i + 2 ∧
      strstr r p (crlf ++ crlf) = some j ∧ d = j + 4 := by
  rw [Finds, searchResponse_eq]
  constructor
  · intro h
    split_ifs at h with hstatus hstart
    obtain ⟨hline, hdata⟩ := Prod.mk.inj (Option.some.inj h)
    obtain ⟨i, hi, rfl⟩ := Option.map_eq_some_iff.mp hline
    rw [hi, Option.map_some, Option.getD_some] at hdata
    obtain ⟨j, hj, rfl⟩ := Option.map_eq_some_iff.mp hdata
    exact ⟨hstatus, hstart, i, j, hi, rfl, hj, rfl⟩
  · rintro ⟨hstatus, hstart, i, j, hi, rfl, hj, rfl⟩
    rw [if_pos hstatus, if_pos hstart, hi, Option.map_some, Option.getD_some, hj]
    rfl

/-- **The responses in which both are found.** -/
theorem exists_finds_iff : (∃ p d, Finds r p d) ↔ Readable r := by
  simp only [finds_iff]
  constructor
  · rintro ⟨_, _, hstatus, -, i, j, hi, rfl, hj, rfl⟩
    obtain ⟨hle, ⟨c, hc⟩, -⟩ := strstr_eq_some_iff.mp hi
    obtain ⟨hle', ⟨c', hc'⟩, -⟩ := strstr_eq_some_iff.mp hj
    set s := cstr (r.drop (behindWords r)) with hs
    have hlong : i - behindWords r + 2 ≤ s.length := by
      have hlen := congrArg List.length hc
      rw [List.length_append, List.length_drop] at hlen
      simp only [List.length_cons, List.length_nil] at hlen
      omega
    -- the string behind the first line is the end of the string
    have hdrop : cstr (r.drop (i + 2)) = c := by
      have hsum : i + 2 = behindWords r + (i - behindWords r + 2) := by omega
      rw [hsum, ← List.drop_drop, cstr_drop hlong, ← List.drop_drop, ← hs, ← hc]
      rfl
    rw [hdrop] at hc'
    refine ⟨hstatus, s.take (i - behindWords r), c.take (j - (i + 2)), c', ?_⟩
    calc s = s.take (i - behindWords r) ++ (crlf ++ c) := by rw [hc, List.take_append_drop]
      _ = s.take (i - behindWords r) ++
          (crlf ++ (c.take (j - (i + 2)) ++ (crlf ++ crlf ++ c'))) := by
        rw [hc', List.take_append_drop]
      _ = _ := by simp only [List.append_assoc]
  · rintro ⟨hstatus, a, b, c, hsplit⟩
    have hline : cstr (r.drop (behindWords r)) = a ++ crlf ++ (b ++ (crlf ++ crlf) ++ c) := by
      rw [hsplit]
      simp only [List.append_assoc]
    have hstart : behindWords r < r.length := by
      by_contra hend
      rw [List.drop_eq_nil_of_le (not_lt.mp hend)] at hline
      have hlen := congrArg List.length hline
      simp only [cstr, List.takeWhile_nil, List.length_append, List.length_cons,
        List.length_nil] at hlen
      omega
    obtain ⟨i, hi, hfirst⟩ := exists_strstr hline
    obtain ⟨hle, -⟩ := strstr_eq_some_iff.mp hi
    obtain ⟨n, hn⟩ : ∃ n, i + 2 = behindWords r + n := ⟨i + 2 - behindWords r, by omega⟩
    have hshort : n ≤ (a ++ crlf ++ b).length := by
      simp only [List.length_append, List.length_cons, List.length_nil]
      omega
    -- the empty line is not before the end of the first line
    have hdrop : cstr (r.drop (i + 2)) =
        (a ++ crlf ++ b).drop n ++ (crlf ++ crlf) ++ c := by
      have hlong : n ≤ (cstr (r.drop (behindWords r))).length := by
        rw [hsplit, List.append_assoc, List.length_append]
        omega
      rw [hn, ← List.drop_drop, cstr_drop hlong, hsplit, List.append_assoc _ _ c,
        List.drop_append_of_le_length hshort]
      exact (List.append_assoc _ _ _).symm
    obtain ⟨j, hj, -⟩ := exists_strstr hdrop
    exact ⟨_, _, hstatus, hstart, i, j, hi, rfl, hj, rfl⟩

/-- Both lie in the response, and the data is behind an empty line. -/
theorem Finds.bounds (h : Finds r p d) :
    p + 4 ≤ d ∧ d ≤ r.length ∧ crlf ++ crlf <:+ r.take d := by
  obtain ⟨-, -, i, j, -, -, hj, rfl⟩ := finds_iff.mp h
  obtain ⟨hle, -, -⟩ := strstr_eq_some_iff.mp hj
  obtain ⟨c, hc⟩ := prefix_of_strstr hj
  have hlen := congrArg List.length hc
  rw [List.length_append, List.length_drop] at hlen
  have hfour : (crlf ++ crlf).length = 4 := rfl
  refine ⟨Nat.add_le_add_right hle 4, by omega, r.take j, ?_⟩
  rw [List.take_add, ← hc]
  rfl

/-- **More data** behind the response does not change what is found. -/
theorem Finds.append (h : Finds r p d) (l : Text) : Finds (r ++ l) p d := by
  obtain ⟨hstatus, hstart, i, j, hi, rfl, hj, rfl⟩ := finds_iff.mp h
  have hwords : (httpTrisectionHeader r 3 0).2 < r.length :=
    (le_moveWhile _ r _).trans_lt hstart
  have hheader := httpTrisectionHeader_append (Nat.zero_le _) hwords l
  have hbehind : behindWords (r ++ l) = behindWords r := by
    rw [behindWords, hheader]
    exact moveWhile_append hwords.le hstart l
  have hword : status (r ++ l) = status r := by
    rw [status, status, hheader]
    refine Option.map_congr fun c hc => text_append ?_ l
    exact (le_of_mem_httpTrisectionHeader (List.mem_of_getElem? hc)).trans hwords.le
  have hline : i + 2 ≤ r.length := by
    have hin := (prefix_of_strstr hi).length_le
    rw [List.length_drop] at hin
    simp only [List.length_cons, List.length_nil] at hin
    omega
  refine finds_iff.mpr ⟨hword.trans hstatus, ?_, i, j, ?_, rfl, strstr_append hj hline l, rfl⟩
  · rw [hbehind, List.length_append]
    exact hstart.trans_le (Nat.le_add_right _ _)
  · rw [hbehind]
    exact strstr_append hi hstart.le l

/-- The buffer after `recv`. -/
theorem toList_receive (resp : HttpResponse) (h : r.length < defRespSize) :
    (resp.receive r).buf.toList = r ++ 0 :: resp.buf.toList.drop (r.length + 1) := by
  have hfits : 0 + (r ++ [0]).length ≤ resp.buf.toList.length := by
    rw [Nat.zero_add, List.length_append, List.length_singleton, Vector.length_toList]
    exact h
  show (blitV resp.buf ((0 : ℕ) : ℤ) (r ++ [0])).toList = _
  rw [toList_blitV, blit_of_le hfits, List.take_zero, List.nil_append, Nat.zero_add,
    List.length_append, List.append_assoc]
  rfl

theorem gogogo_of_none (h : req.exchange net = .ok none) :
    xiaocilangGogogo net req = .ok (-1, req) := by
  rw [xiaocilangGogogo, h]
  rfl

theorem gogogo_of_some (h : req.exchange net = .ok (some r)) (hlen : r.length < defRespSize) :
    xiaocilangGogogo net req = .ok (((req.resp.receive r).parse r.length).1,
      { req with resp := ((req.resp.receive r).parse r.length).2 }) := by
  rw [xiaocilangGogogo, h]
  exact if_pos hlen

/-- **A response that is read** sets all the fields. -/
theorem gogogo_of_finds (h : req.exchange net = .ok (some r)) (hlen : r.length < defRespSize)
    (hfinds : Finds r p d) :
    xiaocilangGogogo net req =
      .ok ((r.length : ℤ) - d, { req with resp := req.resp.found r p d }) := by
  have hsearch : searchResponse (req.resp.receive r).buf.toList r.length =
      some (some p, some d) := by
    rw [toList_receive _ hlen, searchResponse_append_zero]
    exact hfinds
  rw [gogogo_of_some h hlen, HttpResponse.parse, hsearch]
  rfl

/-- **A response that is not read** sets `line_start`, if anything. -/
theorem gogogo_of_not_finds (h : req.exchange net = .ok (some r)) (hlen : r.length < defRespSize)
    (hfinds : ∀ p d, ¬ Finds r p d) :
    ∃ lineStart, xiaocilangGogogo net req = .ok (-1, { req with resp :=
      { req.resp.receive r with lineStart := lineStart } }) := by
  have hsearch : searchResponse (req.resp.receive r).buf.toList r.length =
      searchResponse r r.length := by
    rw [toList_receive _ hlen, searchResponse_append_zero]
  rw [gogogo_of_some h hlen, HttpResponse.parse, hsearch]
  cases hfound : searchResponse r r.length with
  | none => exact ⟨_, rfl⟩
  | some found =>
    obtain ⟨lineStart, data⟩ := found
    cases data with
    | none => exact ⟨_, rfl⟩
    | some d =>
      cases lineStart with
      | some p => exact absurd hfound (hfinds p d)
      | none => exact absurd hfound (searchResponse_ne r d)

/-- A call that returns has received less than the buffer holds. -/
theorem length_lt_of_gogogo {res : ℤ × HttpRequest} (hexchange : req.exchange net = .ok (some r))
    (h : xiaocilangGogogo net req = .ok res) : r.length < defRespSize := by
  by_contra hlong
  rw [xiaocilangGogogo, hexchange] at h
  dsimp only [Bind.bind, Except.bind] at h
  rw [if_neg hlong] at h
  cases h

/-- A call that a server answers, with a response that is read. -/
theorem gogogo_answering {server : Text → Text} (hfits : req.wholeText.length < defReqSize)
    (hdata : req.data = []) (hlen : (server req.wholeText).length < defRespSize)
    (hfinds : Finds (server req.wholeText) p d) : ∃ res, xiaocilangGogogo (.answering server) req =
      .ok (res, { req with resp := req.resp.found (server req.wholeText) p d }) := by
  have hexchange := HttpRequest.exchange_answering server hfits
  have hne : server req.wholeText ≠ [] := by
    intro hr
    obtain ⟨hpd, hd, -⟩ := hfinds.bounds
    rw [hr, List.length_nil] at hd
    omega
  rw [hdata, List.append_nil, if_neg hne, List.take_of_length_le hlen.le] at hexchange
  exact ⟨_, gogogo_of_finds hexchange hlen hfinds⟩

/-- **A call that a server answers**: it reads the response, or it leaves the flag and the data. -/
theorem gogogo_cases {server : Text → Text} {res : ℤ} {req' : HttpRequest}
    (hfits : req.wholeText.length < defReqSize) (hdata : req.data = [])
    (h : xiaocilangGogogo (.answering server) req = .ok (res, req')) :
    (∃ p d, (server req.wholeText).length < defRespSize ∧ Finds (server req.wholeText) p d ∧
        req' = { req with resp := req.resp.found (server req.wholeText) p d }) ∨
      (∀ p d, ¬ Finds (server req.wholeText) p d) ∧
        ∃ resp, req' = { req with resp := resp } ∧ resp.valid = req.resp.valid ∧
          resp.data = req.resp.data ∧ resp.dlen = req.resp.dlen := by
  have hexchange := HttpRequest.exchange_answering server hfits
  rw [hdata, List.append_nil] at hexchange
  by_cases hr : server req.wholeText = []
  · rw [if_pos hr] at hexchange
    rw [gogogo_of_none hexchange] at h
    obtain ⟨-, rfl⟩ := Prod.mk.inj (Except.ok.inj h)
    refine .inr ⟨fun p d hfinds => ?_, req.resp, rfl, rfl, rfl, rfl⟩
    obtain ⟨hpd, hd, -⟩ := hfinds.bounds
    rw [hr, List.length_nil] at hd
    omega
  · rw [if_neg hr] at hexchange
    have hlen := length_lt_of_gogogo hexchange h
    rw [List.length_take, min_lt_iff, or_iff_right (lt_irrefl _)] at hlen
    rw [List.take_of_length_le hlen.le] at hexchange
    by_cases hfinds : ∃ p d, Finds (server req.wholeText) p d
    · obtain ⟨p, d, hfinds⟩ := hfinds
      rw [gogogo_of_finds hexchange hlen hfinds] at h
      obtain ⟨-, rfl⟩ := Prod.mk.inj (Except.ok.inj h)
      exact .inl ⟨p, d, hlen, hfinds, rfl⟩
    · have hno : ∀ p d, ¬ Finds (server req.wholeText) p d := fun p d hf => hfinds ⟨p, d, hf⟩
      obtain ⟨lineStart, hgo⟩ := gogogo_of_not_finds hexchange hlen hno
      obtain ⟨-, rfl⟩ := Prod.mk.inj (Except.ok.inj (h.symm.trans hgo))
      exact .inr ⟨hno, _, rfl, rfl, rfl, rfl⟩

end Call

/-! ## Header lines -/

/-- `struct keyval`. -/
structure Keyval where
  key : Cstr
  val : Cstr
deriving DecidableEq, Repr

/-- `xiaocilang_give_kv`, for at most `n` more lines. The lengths are `uint`s; that of a value wraps
when the end of the line is in front of it. -/
def xiaocilangGiveKv (t : Text) : ℕ → ℕ → List Keyval
  | 0, _ => []
  | n + 1, start =>
    match (t.drop start).idxOf? 58 with
    | none => []
    | some i =>
      let sep := start + i
      let key := haStripSpace (t.take sep) start
      let keyEnd := haGrabText (t.take sep) key
      let val := haStripSpace t (sep + 1)
      let next := haSkipNewline t val
      let next := if t[next - 1]? = some 13 then next - 1 else next
      ⟨⟨key, (keyEnd - key) % 2 ^ 32⟩, ⟨val, (2 ^ 32 + next - val) % 2 ^ 32⟩⟩ ::
        xiaocilangGiveKv t n next

/-- `tolower`. -/
def tolower (c : UInt8) : UInt8 := if 65 ≤ c ∧ c ≤ 90 then c + 32 else c

/-- `ha_strcmp`. -/
def haStrcmp (t : Text) (cs : Cstr) (s : Text) : Bool :=
  cs.len == s.length && (cs.text t).map tolower == s.map tolower

/-- `xiaocilang_need_kv`. -/
def xiaocilangNeedKv (t : Text) (lines : List Keyval) (key : Text) : Option Cstr :=
  (lines.find? fun l => haStrcmp t l.key key).map Keyval.val

section Lines

variable {t : Text} {start n : ℕ} {kv : Keyval}

/-- The byte behind blanks is none. -/
theorem isspace_of_haStripSpace {c : UInt8} {l : Text}
    (h : t.drop (haStripSpace t start) = c :: l) : isspace c = false := by
  have hdrop : (t.drop start).dropWhile isspace = c :: l := (drop_moveWhile _ t start).symm.trans h
  have hhead := List.head?_dropWhile_not isspace (t.drop start)
  rw [hdrop] at hhead
  exact hhead

/-- The last line ends where the text does. -/
theorem haSkipNewline_lt (ht : [10] <:+ t) (h : start < t.length) :
    haSkipNewline t start < t.length := by
  obtain ⟨s, rfl⟩ := ht
  rw [List.length_append, List.length_singleton] at h ⊢
  have hle : ((s.drop start).takeWhile fun c : UInt8 => decide (c ≠ 10)).length ≤
      (s.drop start).length := (List.takeWhile_sublist _).length_le
  have htake : ((s ++ [10]).drop start).takeWhile (fun c : UInt8 => decide (c ≠ 10)) =
      (s.drop start).takeWhile fun c => decide (c ≠ 10) := by
    rw [List.drop_append_of_le_length (Nat.le_of_lt_succ h), List.takeWhile_append]
    split
    · rename_i hall
      exact (List.append_nil _).trans ((List.takeWhile_prefix _).eq_of_length hall).symm
    · rfl
  rw [List.length_drop] at hle
  rw [haSkipNewline, moveWhile, htake]
  omega

/-- A value that begins in the text is not empty. -/
theorem lt_haSkipNewline (h : haStripSpace t start < t.length) :
    haStripSpace t start < haSkipNewline t (haStripSpace t start) := by
  obtain ⟨c, l, hcl⟩ := List.exists_cons_of_ne_nil (List.ne_nil_of_length_pos (by
    rw [List.length_drop]
    exact Nat.sub_pos_of_lt h))
  have hspace := isspace_of_haStripSpace hcl
  have hc : c ≠ 10 := by
    rintro rfl
    exact absurd hspace (by decide)
  rw [haSkipNewline, moveWhile, hcl, List.takeWhile_cons_of_pos (by simpa using hc),
    List.length_cons]
  omega

/-- **A value lies in front of the last byte**, or it is empty and behind it. -/
theorem val_of_mem_giveKv (ht : [10] <:+ t) (hlen : t.length < 2 ^ 32)
    (h : kv ∈ xiaocilangGiveKv t n start) :
    kv.val.str + kv.val.len < t.length ∨ kv.val.str = t.length ∧ kv.val.len = 0 := by
  induction n generalizing start with
  | zero => exact absurd h List.not_mem_nil
  | succ n ih =>
    rw [xiaocilangGiveKv] at h
    cases hcolon : (t.drop start).idxOf? 58 with
    | none =>
      rw [hcolon] at h
      exact absurd h List.not_mem_nil
    | some i =>
      rw [hcolon] at h
      rcases List.mem_cons.mp h with rfl | h
      · have hsep : start + i + 1 ≤ t.length := by
          obtain ⟨hi, -⟩ := List.idxOf?_eq_some_iff.mp hcolon
          rw [List.length_drop] at hi
          omega
        have hval : haStripSpace t (start + i + 1) ≤ t.length := moveWhile_le hsep
        dsimp only
        rcases hval.lt_or_eq with hlt | heq
        · -- it begins with a byte that is no blank, and there is the end of a line behind it
          left
          have hend := haSkipNewline_lt ht hlt
          have hbegin := lt_haSkipNewline hlt
          split_ifs <;> omega
        · -- it begins behind the last byte, which is no CR
          right
          obtain ⟨s, rfl⟩ := ht
          have hnext : haSkipNewline (s ++ [10]) (haStripSpace (s ++ [10]) (start + i + 1)) =
              (s ++ [10]).length := by
            rw [heq, haSkipNewline, moveWhile, List.drop_length]
            rfl
          have hlast : (s ++ [10])[(s ++ [10]).length - 1]? = some (10 : UInt8) := by
            rw [List.length_append, List.length_singleton, Nat.add_sub_cancel]
            exact List.getElem?_concat_length
          have hno : ¬ some (10 : UInt8) = some 13 := by decide
          rw [hnext, hlast, if_neg hno, heq, Nat.add_sub_cancel]
          exact ⟨rfl, Nat.mod_self _⟩
      · exact ih h

end Lines

end Ltm

end Tqos
