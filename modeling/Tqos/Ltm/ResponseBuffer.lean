import Tqos.Ltm.Http

/-!
# The buffer of a response

`xiaocilang_gogogo` from `recv` on, with the bytes of `resp.buf` that it reads and writes. A NUL is
stored behind what has been received, and the searches rely on it: a string is read up to its NUL.

## Main results

* `value_receiveIn` — the call finds what `HttpResponse.parse` does
* `readsInside_iff` — when it stays inside the buffer, and the pointers it leaves do
-/

namespace Tqos

namespace Ltm

/-- The array. -/
inductive RespBuf
  | buf
deriving DecidableEq, Repr

/-! ## The searches -/

section Searches

variable (buf : Text)

/-- A pointer behind the bytes of a kind, in front of `e`. -/
def moveWhileIn (f : UInt8 → Bool) (e start : ℕ) : Traced Empty RespBuf ℕ := do
  let stop := moveWhile f (buf.take e) start
  -- the byte that ends the loop is read, if it is in front of `e`
  Traced.touch ⟨.buf, .read, start, min (stop + 1) e - start⟩
  pure stop

/-- `http_trisection_header`, for `n` more tokens. -/
def httpTrisectionHeaderIn (e : ℕ) : ℕ → ℕ → Traced Empty RespBuf (List Cstr × ℕ)
  | 0, start => pure ([], start)
  | n + 1, start => do
    let str ← moveWhileIn buf isspace e start
    let start ← moveWhileIn buf (fun c => !isspace c) e str
    let rest ← httpTrisectionHeaderIn e n start
    pure (⟨str, start - str⟩ :: rest.1, rest.2)

/-- `result[1].len != 3 || strncmp(result[1].str, "200", 3)` is false. -/
def isOk (c : Cstr) : Traced Empty RespBuf Bool :=
  if c.len = 3 then do
    Traced.touch ⟨.buf, .read, c.str, 3⟩
    pure (decide ((buf.drop c.str).take 3 = lit "200"))
  else pure false

/-- `strstr`. -/
def strstrIn (start : ℕ) (pat : Text) : Traced Empty RespBuf (Option ℕ) := do
  Traced.touch ⟨.buf, .read, start, (cstr (buf.drop start)).length + 1⟩
  pure (strstr buf start pat)

/-- What a call finds in the first `nr` bytes, as `searchResponse` does. -/
def searchResponseIn (nr : ℕ) : Traced Empty RespBuf (Option (Option ℕ × Option ℕ)) := do
  let result ← httpTrisectionHeaderIn buf nr 3 0
  if ← isOk buf (result.1.getD 1 ⟨0, 0⟩) then do
    let start ← moveWhileIn buf isspace nr result.2
    if start < nr then do
      let line ← strstrIn buf start crlf
      let lineStart := line.map (· + 2)
      let data ← strstrIn buf (lineStart.getD start) (crlf ++ crlf)
      pure (some (lineStart, data.map (· + 4)))
    else pure none
  else pure none

end Searches

/-- The call behind the NUL, as `HttpResponse.parse` does. -/
def HttpResponse.parseIn (resp : HttpResponse) (nr : ℕ) :
    Traced Empty RespBuf (ℤ × HttpResponse) := do
  match ← searchResponseIn resp.buf.toList nr with
  | none => pure (-1, resp)
  | some (lineStart, none) => pure (-1, { resp with lineStart := lineStart })
  | some (lineStart, some data) =>
    let dlen := (nr : ℤ) - data
    pure (dlen, { resp with
      valid := true, lineStart := lineStart, data := some data, dlen := dlen })

/-- What `recv` returns of the bytes that have come: no more than the buffer holds. -/
def received (arrived : Option Text) : Text := (arrived.getD []).take defRespSize

/-- `xiaocilang_gogogo` from `recv` on. -/
def HttpResponse.receiveIn (resp : HttpResponse) (arrived : Option Text) :
    Traced Empty RespBuf (ℤ × HttpResponse) :=
  let r := received arrived
  if r = [] then pure (-1, resp)
  else do
    let buf ← Traced.storeV .buf resp.buf 0 r
    let buf ← Traced.storeV .buf buf (r.length : ℕ) [0]
    -- the response is printed, when that is switched on
    Traced.touch ⟨.buf, .read, 0, (cstr buf.toList).length + 1⟩
    { resp with buf := buf }.parseIn r.length

/-- What is asked of a response: `line_start` and `data` point into the bytes that have been
received, and the data ends with them. -/
structure PointsInto (r : Text) (resp : HttpResponse) : Prop where
  lineStart : ∃ p, resp.lineStart = some p ∧ p < r.length
  data : ∃ d, resp.data = some d ∧ d ≤ r.length ∧ (d : ℤ) + resp.dlen = r.length
  dlen : 0 ≤ resp.dlen

/-- What is asked of a call: it stays inside the buffer, and so do the pointers when it succeeds. -/
structure ReadsInside (resp : HttpResponse) (arrived : Option Text) : Prop where
  inside : ∀ a ∈ (resp.receiveIn arrived).log, a.Inside fun _ => defRespSize
  points : (resp.receiveIn arrived).value.1 ≠ -1 →
    PointsInto (received arrived) (resp.receiveIn arrived).value.2

/-! ## What they find -/

section Value

variable {buf r : Text} {resp : HttpResponse}

theorem value_httpTrisectionHeaderIn (e n start : ℕ) :
    (httpTrisectionHeaderIn buf e n start).value = httpTrisectionHeader (buf.take e) n start := by
  induction n generalizing start with
  | zero => rfl
  | succ n ih =>
    rw [httpTrisectionHeaderIn, Traced.value_bind, Traced.value_bind, Traced.value_bind, ih]
    rfl

theorem value_isOk {c : Cstr} (h : c.str + c.len ≤ r.length) (l : Text) :
    (isOk (r ++ l) c).value = decide (c.text r = lit "200") := by
  rw [isOk]
  by_cases hlen : c.len = 3
  · have htext : ((r ++ l).drop c.str).take 3 = c.text r := by
      rw [← hlen]
      exact text_append h l
    rw [if_pos hlen, Traced.value_bind, ← htext]
    rfl
  · rw [if_neg hlen]
    refine (decide_eq_false fun htext => hlen ?_).symm
    have hsame : (c.text r).length = 3 := by
      rw [htext]
      decide
    rw [← hsame, Cstr.text, List.length_take, List.length_drop]
    omega

/-- There is a second token, inside of the text. -/
theorem getD_tokens (r : Text) :
    (httpTrisectionHeader r 3 0).1[1]? = some ((httpTrisectionHeader r 3 0).1.getD 1 ⟨0, 0⟩) ∧
      ((httpTrisectionHeader r 3 0).1.getD 1 ⟨0, 0⟩).str +
        ((httpTrisectionHeader r 3 0).1.getD 1 ⟨0, 0⟩).len ≤ r.length := by
  have hsome : (httpTrisectionHeader r 3 0).1[1]? =
      some ((httpTrisectionHeader r 3 0).1.getD 1 ⟨0, 0⟩) := rfl
  refine ⟨hsome, (le_of_mem_httpTrisectionHeader (List.mem_of_getElem? hsome)).trans ?_⟩
  exact httpTrisectionHeader_le (Nat.zero_le _)

/-- **The searches** find what they do on texts. -/
theorem value_searchResponseIn (r l : Text) :
    (searchResponseIn (r ++ l) r.length).value = searchResponse (r ++ l) r.length := by
  obtain ⟨htoken, hle⟩ := getD_tokens r
  rw [searchResponseIn, Traced.value_bind, value_httpTrisectionHeaderIn, List.take_left,
    Traced.value_bind, value_isOk hle, searchResponse, List.take_left]
  dsimp only
  rw [htoken, Option.map_some]
  by_cases hok : Cstr.text r ((httpTrisectionHeader r 3 0).1.getD 1 ⟨0, 0⟩) = lit "200"
  · have hstart : (moveWhileIn (r ++ l) isspace r.length (httpTrisectionHeader r 3 0).2).value =
        haStripSpace r (httpTrisectionHeader r 3 0).2 := by
      rw [moveWhileIn, Traced.value_bind, List.take_left]
      rfl
    rw [decide_eq_true hok, if_pos rfl, if_pos (congrArg some hok), Traced.value_bind, hstart]
    split
    · rfl
    · rfl
  · rw [decide_eq_false hok, if_neg Bool.false_ne_true,
      if_neg fun h => hok (Option.some.inj h)]
    rfl

theorem value_parseIn (h : resp.buf.toList.take r.length = r) :
    (resp.parseIn r.length).value = resp.parse r.length := by
  have hsearch : (searchResponseIn resp.buf.toList r.length).value =
      searchResponse resp.buf.toList r.length := by
    have hsplit := List.take_append_drop r.length resp.buf.toList
    rw [h] at hsplit
    rw [← hsplit]
    exact value_searchResponseIn _ _
  rw [HttpResponse.parseIn, Traced.value_bind, hsearch, HttpResponse.parse]
  rcases searchResponse resp.buf.toList r.length with _ | ⟨lineStart, _ | data⟩
  · rfl
  · rfl
  · rfl

/-! ### The buffer after `recv` -/

/-- The buffer with the NUL. -/
def HttpResponse.after (resp : HttpResponse) (r : Text) : HttpResponse :=
  { resp with buf := blitV (blitV resp.buf 0 r) (r.length : ℕ) [0] }

theorem toList_after (resp : HttpResponse) (h : r.length < defRespSize) :
    (resp.after r).buf.toList = r ++ 0 :: resp.buf.toList.drop (r.length + 1) := by
  have hlen : resp.buf.toList.length = defRespSize := Vector.length_toList
  have hfirst : (blitV resp.buf 0 r).toList = r ++ resp.buf.toList.drop r.length := by
    rw [toList_blitV, ← Nat.cast_zero, blit_of_le (by omega), List.take_zero, List.nil_append,
      Nat.zero_add]
  have hrest : resp.buf.toList.drop r.length ≠ [] := by
    rw [Ne, List.drop_eq_nil_iff]
    omega
  obtain ⟨b, rest, hcons⟩ := List.exists_cons_of_ne_nil hrest
  have hnext : resp.buf.toList.drop (r.length + 1) = rest := by
    rw [← List.drop_drop, hcons]
    rfl
  show (blitV (blitV resp.buf 0 r) (r.length : ℕ) [0]).toList = _
  rw [toList_blitV, hfirst, blit_append_right _ _ _ rfl, hcons, hnext]
  exact congrArg (r ++ ·) (@blit_append UInt8 [] [b] rest [0] 0 rfl rfl)

theorem take_after (resp : HttpResponse) (h : r.length ≤ defRespSize) :
    (resp.after r).buf.toList.take r.length = r := by
  show (blitV (blitV resp.buf 0 r) (r.length : ℕ) [0]).toList.take r.length = r
  rw [toList_blitV, toList_blitV, take_blit _ le_rfl, take_blit_zero]
  rwa [Vector.length_toList]

theorem length_received_le (arrived : Option Text) : (received arrived).length ≤ defRespSize := by
  rw [received, List.length_take]
  exact Nat.min_le_left _ _

/-- **The call**, when something is received. -/
theorem value_receiveIn {arrived : Option Text} (hr : received arrived ≠ []) :
    (resp.receiveIn arrived).value =
      (resp.after (received arrived)).parse (received arrived).length := by
  rw [HttpResponse.receiveIn, if_neg hr, Traced.value_bind, Traced.value_bind, Traced.value_bind]
  exact value_parseIn (take_after resp (length_received_le arrived))

/-- **`xiaocilang_gogogo`**, when what it receives is shorter than the buffer. -/
theorem gogogo_eq_receiveIn {net : Net} {req : HttpRequest} {arrived : Option Text}
    (h : req.exchange net = .ok arrived) (hlen : ∀ r ∈ arrived, r ≠ [] ∧ r.length < defRespSize) :
    xiaocilangGogogo net req = .ok ((req.resp.receiveIn arrived).value.1,
      { req with resp := (req.resp.receiveIn arrived).value.2 }) := by
  cases arrived with
  | none => exact gogogo_of_none h
  | some r =>
    obtain ⟨hne, hlt⟩ := hlen r rfl
    have hreceived : received (some r) = r := List.take_of_length_le hlt.le
    have hbuf : (req.resp.after r).buf = (req.resp.receive r).buf :=
      Vector.toList_inj.mp (by rw [toList_after _ hlt, toList_receive _ hlt])
    have hafter : req.resp.after r = req.resp.receive r :=
      congrArg (fun buf => { req.resp with buf := buf }) hbuf
    rw [gogogo_of_some h hlt, value_receiveIn (by rwa [hreceived]), hreceived, hafter]

end Value

/-! ## Inside the buffer -/

section Inside

variable {buf r l : Text} {resp : HttpResponse}

theorem inside_moveWhileIn (f : UInt8 → Bool) {e : ℕ} (h : e ≤ defRespSize) (start : ℕ) :
    ∀ a ∈ (moveWhileIn buf f e start).log, a.Inside fun _ => defRespSize := by
  rw [moveWhileIn, Traced.forall_log_bind, Traced.forall_log_touch,
    and_iff_left (Traced.forall_log_pure _), Access.Inside]
  dsimp only
  omega

theorem inside_httpTrisectionHeaderIn {e : ℕ} (h : e ≤ defRespSize) (n start : ℕ) :
    ∀ a ∈ (httpTrisectionHeaderIn buf e n start).log, a.Inside fun _ => defRespSize := by
  induction n generalizing start with
  | zero => exact Traced.forall_log_pure _
  | succ n ih =>
    rw [httpTrisectionHeaderIn, Traced.forall_log_bind, Traced.forall_log_bind,
      Traced.forall_log_bind, and_iff_left (Traced.forall_log_pure _)]
    exact ⟨inside_moveWhileIn _ h _, inside_moveWhileIn _ h _, ih _⟩

theorem inside_isOk {c : Cstr} (h : c.str + c.len ≤ defRespSize) :
    ∀ a ∈ (isOk buf c).log, a.Inside fun _ => defRespSize := by
  rw [isOk]
  split
  · rw [Traced.forall_log_bind, Traced.forall_log_touch, and_iff_left (Traced.forall_log_pure _),
      Access.Inside]
    dsimp only
    omega
  · exact Traced.forall_log_pure _

/-- A string that begins in front of the NUL is read up to that. -/
theorem inside_strstrIn {start : ℕ} (h : start ≤ r.length) (hr : r.length < defRespSize)
    (pat l : Text) :
    ∀ a ∈ (strstrIn (r ++ 0 :: l) start pat).log, a.Inside fun _ => defRespSize := by
  have hlen : (cstr ((r ++ 0 :: l).drop start)).length ≤ r.length - start := by
    rw [List.drop_append_of_le_length h, cstr_append_zero, ← List.length_drop]
    exact (List.takeWhile_sublist _).length_le
  rw [strstrIn, Traced.forall_log_bind, Traced.forall_log_touch,
    and_iff_left (Traced.forall_log_pure _), Access.Inside]
  dsimp only
  omega

/-- A line that is found ends in the text. -/
theorem add_two_le_of_strstr {start i : ℕ} (h : start ≤ r.length)
    (hi : strstr (r ++ 0 :: l) start crlf = some i) : i + 2 ≤ r.length := by
  rw [strstr_append_zero l h] at hi
  have hle := (prefix_of_strstr hi).length_le
  rw [List.length_drop] at hle
  simp only [List.length_cons, List.length_nil] at hle
  omega

/-- **The searches** stay inside, when there is a NUL. -/
theorem inside_searchResponseIn (hr : r.length < defRespSize) (l : Text) :
    ∀ a ∈ (searchResponseIn (r ++ 0 :: l) r.length).log, a.Inside fun _ => defRespSize := by
  obtain ⟨-, hle⟩ := getD_tokens r
  rw [searchResponseIn, Traced.forall_log_bind, value_httpTrisectionHeaderIn, List.take_left,
    Traced.forall_log_bind]
  refine ⟨inside_httpTrisectionHeaderIn hr.le _ _, inside_isOk (hle.trans hr.le), ?_⟩
  split
  · rw [Traced.forall_log_bind]
    refine ⟨inside_moveWhileIn _ hr.le _, ?_⟩
    split
    · rename_i hstart
      rw [Traced.forall_log_bind, Traced.forall_log_bind, and_iff_left (Traced.forall_log_pure _)]
      refine ⟨inside_strstrIn hstart.le hr _ _, inside_strstrIn ?_ hr _ _⟩
      have hvalue (start : ℕ) : (strstrIn (r ++ 0 :: l) start crlf).value =
          strstr (r ++ 0 :: l) start crlf := rfl
      rw [hvalue]
      cases hline : strstr (r ++ 0 :: l) _ crlf with
      | none => exact hstart.le
      | some i => exact add_two_le_of_strstr hstart.le hline
    · exact Traced.forall_log_pure _
  · exact Traced.forall_log_pure _

theorem log_parseIn (resp : HttpResponse) (nr : ℕ) :
    (resp.parseIn nr).log = (searchResponseIn resp.buf.toList nr).log := by
  rw [HttpResponse.parseIn, Traced.log_bind]
  split <;> exact List.append_nil _

theorem inside_receiveIn {arrived : Option Text} (hr : (received arrived).length < defRespSize) :
    ∀ a ∈ (resp.receiveIn arrived).log, a.Inside fun _ => defRespSize := by
  rw [HttpResponse.receiveIn]
  split
  · exact Traced.forall_log_pure _
  · have hbuf := toList_after resp hr
    have hstring : (cstr (resp.after (received arrived)).buf.toList).length ≤
        (received arrived).length := by
      rw [hbuf, cstr_append_zero]
      exact (List.takeWhile_sublist _).length_le
    have hlen : ((received arrived).length : ℤ) + 1 ≤ defRespSize := by exact_mod_cast hr
    rw [Traced.forall_log_bind, Traced.forall_log_bind, Traced.forall_log_bind,
      Traced.forall_log_touch]
    refine ⟨?_, ?_, ?_, ?_⟩
    · refine List.forall_mem_singleton.mpr (Or.inr ⟨le_rfl, ?_⟩)
      dsimp only
      omega
    · exact List.forall_mem_singleton.mpr (Or.inr ⟨Int.natCast_nonneg _, hlen⟩)
    · refine Or.inr ⟨le_rfl, ?_⟩
      change (0 : ℤ) + ((cstr (resp.after (received arrived)).buf.toList).length + 1 : ℕ) ≤
        (defRespSize : ℕ)
      omega
    · change ∀ a ∈ ((resp.after (received arrived)).parseIn (received arrived).length).log, _
      rw [log_parseIn, hbuf]
      exact inside_searchResponseIn hr _

/-- What a call finds, it finds in the bytes that have been received. -/
theorem searchResponse_after {arrived : Option Text}
    (hr : (received arrived).length < defRespSize) :
    searchResponse (resp.after (received arrived)).buf.toList (received arrived).length =
      searchResponse (received arrived) (received arrived).length := by
  rw [toList_after resp hr, searchResponse_append_zero]

/-- **A call that finds** the header lines and the data. -/
theorem receiveIn_of_finds {arrived : Option Text} {p d : ℕ}
    (hr : (received arrived).length < defRespSize) (h : Finds (received arrived) p d) :
    (resp.receiveIn arrived).value = (((received arrived).length : ℤ) - d,
      { resp.after (received arrived) with
        valid := true, lineStart := some p, data := some d,
        dlen := ((received arrived).length : ℤ) - d }) := by
  have hne : received arrived ≠ [] := by
    intro hnil
    obtain ⟨hpd, hd, -⟩ := h.bounds
    rw [hnil, List.length_nil] at hd
    omega
  rw [value_receiveIn hne, HttpResponse.parse, searchResponse_after hr, h]

/-- **A call that succeeds** has found them. -/
theorem exists_finds_of_receiveIn {arrived : Option Text}
    (hr : (received arrived).length < defRespSize) (h : (resp.receiveIn arrived).value.1 ≠ -1) :
    ∃ p d, Finds (received arrived) p d := by
  by_cases hne : received arrived = []
  · refine absurd ?_ h
    rw [HttpResponse.receiveIn, if_pos hne]
    rfl
  · rw [value_receiveIn hne, HttpResponse.parse, searchResponse_after hr] at h
    cases hfound : searchResponse (received arrived) (received arrived).length with
    | none =>
      rw [hfound] at h
      exact absurd rfl h
    | some found =>
      obtain ⟨lineStart, data⟩ := found
      rw [hfound] at h
      cases data with
      | none => exact absurd rfl h
      | some d =>
        cases lineStart with
        | none => exact absurd hfound (searchResponse_ne _ _)
        | some p => exact ⟨p, d, hfound⟩

/-- Where a call succeeds, its pointers are inside. -/
theorem pointsInto_receiveIn {arrived : Option Text} (hr : (received arrived).length < defRespSize)
    (h : (resp.receiveIn arrived).value.1 ≠ -1) :
    PointsInto (received arrived) (resp.receiveIn arrived).value.2 := by
  obtain ⟨p, d, hfinds⟩ := exists_finds_of_receiveIn hr h
  obtain ⟨hpd, hd, -⟩ := hfinds.bounds
  rw [receiveIn_of_finds hr hfinds]
  refine ⟨⟨p, rfl, by omega⟩, ⟨d, rfl, hd, add_sub_cancel _ _⟩, ?_⟩
  exact Int.sub_nonneg.mpr (Int.ofNat_le.mpr hd)

/-- As many bytes as the buffer holds leave no room for the NUL. -/
theorem not_inside_receiveIn {arrived : Option Text}
    (hr : (received arrived).length = defRespSize) :
    ¬ ∀ a ∈ (resp.receiveIn arrived).log, a.Inside fun _ => defRespSize := by
  have hne : received arrived ≠ [] := by
    intro hnil
    rw [hnil] at hr
    exact absurd hr (by decide)
  rw [HttpResponse.receiveIn, if_neg hne, Traced.forall_log_bind, Traced.forall_log_bind]
  rintro ⟨-, hstore, -⟩
  rcases List.forall_mem_singleton.mp hstore with hnone | ⟨-, hin⟩
  · cases hnone
  · change ((received arrived).length : ℤ) + 1 ≤ defRespSize at hin
    omega

/-- **A call stays inside the buffer, and so do its pointers,** when, and only when, fewer bytes
have come than the buffer holds: behind as many as that, the NUL is stored outside. -/
theorem readsInside_iff (resp : HttpResponse) (arrived : Option Text) :
    ReadsInside resp arrived ↔ ∀ r, arrived = some r → r.length < defRespSize := by
  constructor
  · rintro h r rfl
    by_contra hlong
    refine not_inside_receiveIn ?_ h.inside
    rw [received, Option.getD_some, List.length_take]
    omega
  · intro h
    have hr : (received arrived).length < defRespSize := by
      cases arrived with
      | none => exact Nat.succ_pos _
      | some r =>
        rw [received, Option.getD_some, List.length_take]
        exact (Nat.min_le_right _ _).trans_lt (h r rfl)
    exact ⟨inside_receiveIn hr, pointsInto_receiveIn hr⟩

/-- A response that fills the buffer. -/
def longResponse : Text := List.replicate defRespSize 97

/-- Behind it, the NUL is stored outside. -/
theorem not_readsInside_longResponse :
    ¬ ReadsInside ⟨false, none, none, 0, Vector.replicate defRespSize 0⟩ (some longResponse) := by
  intro h
  refine not_inside_receiveIn ?_ h.inside
  rw [received, Option.getD_some, longResponse, List.take_replicate, List.length_replicate,
    Nat.min_self]

end Inside

end Ltm

end Tqos
