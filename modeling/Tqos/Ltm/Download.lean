import Tqos.Ltm.Http

/-!
# Downloads by ranges

`download_ctx_run_socket` asks for the length of a file with HEAD and then for one piece after the
other, each with a header line `Range`. The pieces it asks for end where the next one begins, but a
range is read with both ends in it.

## Main results

* `takePiece_found` — what the client takes from a response it reads
* `downloadCtxRunSocket_iff` — when the saved file is the file of the server
-/

namespace Tqos

namespace Ltm

/-! ## The function -/

/-- `DOWNLOAD_PIECE_SIZE`. -/
abbrev downloadPieceSize : ℕ := 3072

/-- The line of the response with the length of the data, among the first 16. -/
def findLength (t : Text) (start : ℕ) : Option Cstr :=
  xiaocilangNeedKv t (xiaocilangGiveKv t 16 start) (lit "Content-Length")

namespace HttpResponse

/-- A NUL is stored in the buffer. -/
def storeNul (resp : HttpResponse) (i : ℕ) : Except HttpFault HttpResponse :=
  if i < defRespSize then .ok { resp with buf := blitV resp.buf i [0] } else .error .outOfBounds

/-- `flen`, from the response to HEAD. The byte behind the number is put back. -/
def readLength (resp : HttpResponse) : Except HttpFault (Option ℤ) :=
  match resp.lineStart, resp.data with
  | some start, some stop =>
    match findLength (resp.buf.toList.take stop) start with
    | none => pure none
    | some ct => do
      let cut ← resp.storeNul (ct.str + ct.len)
      pure (some (atoi (cstr (cut.buf.toList.drop ct.str))))
  | _, _ => pure none

/-- The data of a piece, if its length is the one in the header. -/
def takePiece (resp : HttpResponse) : Except HttpFault (Option (Text × HttpResponse)) :=
  match resp.lineStart, resp.data with
  | some start, some stop =>
    match findLength (resp.buf.toList.take stop) start with
    | none => pure none
    | some ct => do
      let resp ← resp.storeNul (ct.str + ct.len)
      if atoi (cstr (resp.buf.toList.drop ct.str)) = resp.dlen ∧ 0 ≤ resp.dlen then
        pure (some ((resp.buf.toList.drop stop).take resp.dlen.toNat, resp))
      else pure none
  | none, some _ => .error .nullPointer
  | _, none => pure none

end HttpResponse

/-- `%d-%d`. -/
def rangeText (curPos dataEnd : ℕ) : Text := decimal curPos ++ [45] ++ decimal dataEnd

/-- `req`, when it asks for a range. -/
def HttpRequest.forRange (req : HttpRequest) (curPos dataEnd : ℕ) : HttpRequest :=
  (req.xiaocilangWantNaodai (lit "Range") (rangeText curPos dataEnd)).xiaocilangWantZhaoshi
    (lit "GET")

/-- The loop body: the data of a piece, unless the download fails. -/
def downloadPiece (net : Net) (curPos dataEnd : ℕ) (req : HttpRequest) :
    Except HttpFault (Option (Text × HttpRequest)) := do
  let called ← xiaocilangGogogo net (req.forRange curPos dataEnd)
  let req := called.2
  if req.resp.valid then
    let taken ← req.resp.takePiece
    pure (taken.map fun piece => (piece.1, { req with resp := piece.2 }))
  else pure none

/-- The loop, with the number of calls so far and what has been saved. -/
def downloadPieces (net : ℕ → Net) (flen : ℕ) (calls curPos : ℕ) (req : HttpRequest)
    (saved : Text) : Except HttpFault (Bool × Text) :=
  if h : curPos < flen then
    if curPos + downloadPieceSize < 2 ^ 31 then do
      let dataEnd := min (curPos + downloadPieceSize) flen
      match ← downloadPiece (net calls) curPos dataEnd req with
      | none => pure (false, saved)
      | some piece => downloadPieces net flen (calls + 1) dataEnd piece.2 (saved ++ piece.1)
    else .error .intOverflow
  else pure (decide (curPos = flen), saved)
termination_by flen - curPos
decreasing_by
  simp only [downloadPieceSize]
  omega

/-- `download_ctx_run_socket`: its result, and what is in the file then, if it could be opened. -/
def downloadCtxRunSocket (fopen resolves : Bool) (net : ℕ → Net) (host pathShadow : Text) :
    Except HttpFault (Bool × Option Text) :=
  if fopen then do
    let req := (xiaocilangBorn (lit "HEAD") pathShadow).xiaocilangWantHousite host resolves
    let called ← xiaocilangGogogo (net 0) req
    let req := called.2
    if req.resp.valid then
      match ← req.resp.readLength with
      | none => pure (false, some [])
      | some flen =>
        if flen ≤ 0 then pure (false, some [])
        else do
          let done ← downloadPieces net flen.toNat 1 0 req []
          pure (done.1, some done.2)
    else pure (false, some [])
  else pure (false, none)

/-! ## What the client reads -/

/-- The length in the header of a response and its data, when the client finds both. -/
def readReply (r : Text) : Option (ℤ × Text) :=
  if r.length < defRespSize then
    match searchResponse r r.length with
    | some (some p, some d) =>
      (findLength (r.take d) p).map fun ct => (atoi (cstr (ct.text r)), r.drop d)
    | _ => none
  else none

section Read

variable {resp resp' : HttpResponse} {r body data : Text} {p d : ℕ} {n : ℤ} {ct : Cstr}

theorem readReply_of_finds (hlen : r.length < defRespSize) (h : Finds r p d) :
    readReply r = (findLength (r.take d) p).map fun ct => (atoi (cstr (ct.text r)), r.drop d) := by
  rw [readReply, if_pos hlen, h]

theorem readReply_of_not_finds (h : ∀ p d, ¬ Finds r p d) : readReply r = none := by
  rw [readReply]
  split_ifs
  · cases hsearch : searchResponse r r.length with
    | none => rfl
    | some found =>
      obtain ⟨lineStart, data⟩ := found
      cases lineStart with
      | none => rfl
      | some p =>
        cases data with
        | none => rfl
        | some d => exact absurd hsearch (h p d)
  · rfl

theorem val_of_findLength (hlen : r.length < defRespSize) (h : Finds r p d)
    (hct : findLength (r.take d) p = some ct) :
    ct.str + ct.len < d ∨ ct.str = d ∧ ct.len = 0 := by
  obtain ⟨-, hd, s, hs⟩ := h.bounds
  have hline : [10] <:+ r.take d := ⟨s ++ [13, 10, 13], by rw [← hs, List.append_assoc]; rfl⟩
  rw [findLength, xiaocilangNeedKv, Option.map_eq_some_iff] at hct
  obtain ⟨kv, hkv, rfl⟩ := hct
  have hbound := val_of_mem_giveKv hline (by
    rw [List.length_take_of_le hd]
    exact (hd.trans_lt hlen).trans (by decide)) (List.mem_of_find?_eq_some hkv)
  rwa [List.length_take_of_le hd] at hbound

/-- The data that is read begins where it is found. -/
theorem eq_drop_of_readReply (hlen : r.length < defRespSize) (h : Finds r p d)
    (hread : readReply r = some (n, body)) : body = r.drop d := by
  rw [readReply_of_finds hlen h, Option.map_eq_some_iff] at hread
  obtain ⟨ct, -, hpair⟩ := hread
  exact (Prod.mk.inj hpair).2.symm

theorem exists_finds_of_readReply (h : readReply r = some (n, body)) :
    r.length < defRespSize ∧ ∃ p d, Finds r p d := by
  by_cases hfinds : ∃ p d, Finds r p d
  · refine ⟨?_, hfinds⟩
    by_contra hlong
    rw [readReply, if_neg hlong] at h
    cases h
  · rw [readReply_of_not_finds fun p d h => hfinds ⟨p, d, h⟩] at h
    cases h

/-- The value and the data, when a NUL has been stored behind the value. -/
theorem storeNul_found (resp : HttpResponse) (hlen : r.length < defRespSize) (h : Finds r p d)
    (hct : findLength (r.take d) p = some ct) :
    ∃ buf, (resp.found r p d).storeNul (ct.str + ct.len) =
        .ok { resp.found r p d with buf := buf } ∧
      atoi (cstr (buf.toList.drop ct.str)) = atoi (cstr (ct.text r)) ∧
      (ct.str + ct.len < d → (buf.toList.drop d).take (r.length - d) = r.drop d) := by
  have hval := val_of_findLength hlen h hct
  obtain ⟨-, hd, -⟩ := h.bounds
  have hin : ct.str + ct.len < defRespSize := by omega
  obtain ⟨l, hbuf⟩ : ∃ l, (resp.found r p d).buf.toList = r ++ 0 :: l :=
    ⟨_, toList_receive resp hlen⟩
  have hsize : ct.str + ct.len + [(0 : UInt8)].length ≤ (resp.found r p d).buf.toList.length := by
    rw [Vector.length_toList]
    exact hin
  have htake : (r ++ 0 :: l).take (ct.str + ct.len) = r.take (ct.str + ct.len) :=
    List.take_append_of_le_length (by omega)
  refine ⟨_, if_pos hin, ?_, fun hlt => ?_⟩
  · have hstr : ct.str ≤ (r.take (ct.str + ct.len)).length := by
      rw [List.length_take]
      omega
    rw [toList_blitV, blit_of_le hsize, hbuf, htake, List.append_assoc,
      List.drop_append_of_le_length hstr, List.singleton_append, cstr_append_zero, List.drop_take,
      Nat.add_sub_cancel_left]
    rfl
  · have hfront : ((r ++ 0 :: l).take (ct.str + ct.len) ++ [0]).length = ct.str + ct.len + 1 := by
      rw [htake, List.length_append, List.length_take, List.length_singleton]
      omega
    rw [toList_blitV, blit_of_le hsize, hbuf, List.drop_append, hfront,
      List.drop_eq_nil_of_le (by omega), List.nil_append, List.drop_drop, List.length_singleton,
      Nat.add_sub_cancel' hlt, List.drop_append_of_le_length hd]
    exact List.take_left' (List.length_drop)

/-- **More data** in the response is read as it is. -/
theorem readReply_append (hread : readReply r = some (n, []))
    (hlen : (r ++ body).length < defRespSize) : readReply (r ++ body) = some (n, body) := by
  obtain ⟨hshort, p, d, hfinds⟩ := exists_finds_of_readReply hread
  obtain ⟨-, hd, -⟩ := hfinds.bounds
  have hend : d = r.length := by
    have hdrop := congrArg List.length (eq_drop_of_readReply hshort hfinds hread)
    rw [List.length_nil, List.length_drop] at hdrop
    omega
  rw [readReply_of_finds hshort hfinds, Option.map_eq_some_iff] at hread
  obtain ⟨ct, hct, hpair⟩ := hread
  have hval := val_of_findLength hshort hfinds hct
  rw [readReply_of_finds hlen (hfinds.append body), List.take_append_of_le_length hd, hct,
    Option.map_some, text_append (by omega), (Prod.mk.inj hpair).1, hend, List.drop_left]

theorem take_found (resp : HttpResponse) (hlen : r.length < defRespSize) (h : Finds r p d) :
    (resp.found r p d).buf.toList.take d = r.take d := by
  obtain ⟨-, hd, -⟩ := h.bounds
  have hbuf : (resp.found r p d).buf.toList = _ := toList_receive resp hlen
  rw [hbuf, List.take_append_of_le_length hd]

/-- **The length** the client reads in the response to HEAD. -/
theorem readLength_found (resp : HttpResponse) (hlen : r.length < defRespSize) (h : Finds r p d) :
    (resp.found r p d).readLength = .ok ((readReply r).map Prod.fst) := by
  rw [readReply_of_finds hlen h]
  show (match findLength ((resp.found r p d).buf.toList.take d) p with
    | none => _
    | some ct => _) = _
  rw [take_found resp hlen h]
  cases hct : findLength (r.take d) p with
  | none => rfl
  | some ct =>
    obtain ⟨buf, hstore, hatoi, -⟩ := storeNul_found resp hlen h hct
    dsimp only
    rw [hstore]
    exact congrArg (fun n => Except.ok (some n)) hatoi

theorem takePiece_found_of_none (resp : HttpResponse) (hlen : r.length < defRespSize)
    (h : Finds r p d) (hread : readReply r = none) : (resp.found r p d).takePiece = .ok none := by
  rw [readReply_of_finds hlen h, Option.map_eq_none_iff] at hread
  show (match findLength ((resp.found r p d).buf.toList.take d) p with
    | none => _
    | some ct => _) = _
  rw [take_found resp hlen h, hread]
  rfl

/-- **The data** the client takes from a response with the right length. -/
theorem takePiece_found (resp : HttpResponse) (hlen : r.length < defRespSize) (h : Finds r p d)
    (hread : readReply r = some (n, body)) (hn : n = body.length) :
    ∃ buf, (resp.found r p d).takePiece =
      .ok (some (body, { resp.found r p d with buf := buf })) := by
  rw [readReply_of_finds hlen h, Option.map_eq_some_iff] at hread
  obtain ⟨ct, hct, hpair⟩ := hread
  obtain ⟨rfl, rfl⟩ := Prod.mk.inj hpair
  obtain ⟨buf, hstore, hatoi, hdata⟩ := storeNul_found resp hlen h hct
  obtain ⟨-, hd, -⟩ := h.bounds
  have hdlen : (resp.found r p d).dlen = ((r.length - d : ℕ) : ℤ) := (Nat.cast_sub hd).symm
  rw [List.length_drop] at hn
  refine ⟨buf, ?_⟩
  show (match findLength ((resp.found r p d).buf.toList.take d) p with
    | none => _
    | some ct => _) = _
  rw [take_found resp hlen h, hct]
  dsimp only
  rw [hstore]
  show (if atoi (cstr (buf.toList.drop ct.str)) = (resp.found r p d).dlen ∧
    0 ≤ (resp.found r p d).dlen then _ else _) = _
  have hlength : (resp.found r p d).dlen.toNat = r.length - d := by rw [hdlen, Int.toNat_natCast]
  have hcond : atoi (cstr (buf.toList.drop ct.str)) = (resp.found r p d).dlen ∧
      0 ≤ (resp.found r p d).dlen := by
    rw [hatoi, hn, hdlen]
    exact ⟨rfl, Int.natCast_nonneg _⟩
  rw [if_pos hcond]
  show Except.ok (some ((buf.toList.drop d).take (resp.found r p d).dlen.toNat, _)) = _
  rw [hlength]
  rcases val_of_findLength hlen h hct with hlt | ⟨-, hempty⟩
  · rw [hdata hlt]
  · -- a length of 0, for no data
    have hzero : r.length - d = 0 := by
      have htext : ct.text r = [] := by rw [Cstr.text, hempty, List.take_zero]
      have hno : atoi (cstr []) = 0 := rfl
      rw [htext, hno] at hn
      exact_mod_cast hn.symm
    rw [hzero, List.take_zero, List.drop_eq_nil_of_le (by omega)]

/-- What is taken is as long as `dlen` says, and leaves the other fields. -/
theorem takePiece_eq_some (h : resp.takePiece = .ok (some (data, resp'))) :
    (∃ buf, resp' = { resp with buf := buf }) ∧
      ∀ d n : ℕ, resp.data = some d → resp.dlen = n → d + n ≤ defRespSize → data.length = n := by
  rw [HttpResponse.takePiece] at h
  split at h
  · rename_i start stop _ hstop
    cases hct : findLength (resp.buf.toList.take stop) start with
    | none =>
      rw [hct] at h
      cases h
    | some ct =>
      rw [hct] at h
      obtain ⟨cut, hcut, h⟩ := bind_eq_ok.mp h
      rw [HttpResponse.storeNul] at hcut
      split_ifs at hcut
      obtain rfl := Except.ok.inj hcut
      split_ifs at h
      · obtain ⟨rfl, rfl⟩ := Prod.mk.inj (Option.some.inj (Except.ok.inj h))
        refine ⟨⟨_, rfl⟩, fun d n hd hn hfits => ?_⟩
        obtain rfl := Option.some.inj (hstop.symm.trans hd)
        dsimp only
        rw [hn, Int.toNat_natCast, List.length_take, List.length_drop, Vector.length_toList]
        omega
      · cases h
  · cases h
  · cases h

end Read

/-! ## Requests for pieces -/

/-- The request for the length. -/
def headRequest (host url : Text) : HttpRequest :=
  (xiaocilangBorn (lit "HEAD") url).xiaocilangWantHousite host true

/-- The request for a range. -/
def getRequest (host url : Text) (a b : ℕ) : HttpRequest := (headRequest host url).forRange a b

/-- The object is one that asks for files of the server. -/
def Asks (host url : Text) (req : HttpRequest) : Prop :=
  ∀ a b, req.forRange a b = { getRequest host url a b with resp := req.resp }

section Requests

variable {host url : Text} {a b : ℕ}

theorem wantNaodai_wantNaodai (key val val' : Text) (lines : List (Text × Text)) :
    wantNaodai key val' (wantNaodai key val lines) = wantNaodai key val' lines := by
  induction lines with
  | nil => exact if_pos rfl
  | cons l lines ih =>
    by_cases hl : l.1 = key
    · rw [wantNaodai, if_pos hl, wantNaodai, if_pos hl, wantNaodai, if_pos hl]
    · rw [wantNaodai, if_neg hl, wantNaodai, if_neg hl, wantNaodai, if_neg hl, ih]

theorem asks_headRequest (host url : Text) (resp : HttpResponse) :
    Asks host url { headRequest host url with resp := resp } :=
  fun _ _ => rfl

/-- After a range another one can be asked for. -/
theorem asks_getRequest (host url : Text) (a b : ℕ) (resp : HttpResponse) :
    Asks host url { getRequest host url a b with resp := resp } := by
  intro a' b'
  simp only [HttpRequest.forRange, HttpRequest.xiaocilangWantNaodai,
    HttpRequest.xiaocilangWantZhaoshi, getRequest, wantNaodai_wantNaodai]

theorem length_decimal_le (h : a < 2 ^ 31) : (decimal a).length ≤ 10 := by
  rw [decimal, ascii, List.length_map]
  exact (Nat.length_toDigits_le_iff (by decide) (by decide)).mpr (h.trans (by decide))

/-- The lines of a request that has only header lines. -/
theorem length_wholeText {req : HttpRequest} (h : req.data = []) :
    req.wholeText.length = req.method.length + req.url.length + req.version.length + 4 +
      (req.lines.map fun l => l.1.length + l.2.length + 3).sum + 20 := by
  have hlast : (HttpRequest.lengthLine []).length = 20 := by decide +kernel
  have hlines : (req.lines.flatMap HttpRequest.headerLine).length =
      (req.lines.map fun l => l.1.length + l.2.length + 3).sum := by
    rw [List.length_flatMap]
    refine congrArg List.sum (List.map_congr_left fun l _ => ?_)
    simp only [HttpRequest.headerLine, List.length_append, List.length_cons, List.length_nil]
    omega
  rw [HttpRequest.wholeText, List.length_append, List.length_append, hlines, h, hlast,
    HttpRequest.requestLine]
  simp only [List.length_append, List.length_cons, List.length_nil]
  omega

theorem headRequest_fits (hhost : host.length ≤ 63) (hurl : url.length ≤ 255) :
    (headRequest host url).wholeText.length < defReqSize := by
  have hmethod : (lit "HEAD").length = 4 := by decide +kernel
  have hversion : (lit "HTTP/1.0").length = 8 := by decide +kernel
  have hkey : (lit "Host").length = 4 := by decide +kernel
  rw [length_wholeText rfl]
  show (lit "HEAD").length + url.length + (lit "HTTP/1.0").length + 4 +
    ([(lit "Host", host)].map fun l => l.1.length + l.2.length + 3).sum + 20 < 2048
  simp only [List.map_cons, List.map_nil, List.sum_cons, List.sum_nil, hmethod, hversion, hkey]
  omega

theorem getRequest_fits (hhost : host.length ≤ 63) (hurl : url.length ≤ 255) (ha : a < 2 ^ 31)
    (hb : b < 2 ^ 31) : (getRequest host url a b).wholeText.length < defReqSize := by
  have hmethod : (lit "GET").length = 3 := by decide +kernel
  have hversion : (lit "HTTP/1.0").length = 8 := by decide +kernel
  have hkey : (lit "Host").length = 4 := by decide +kernel
  have hrange : (lit "Range").length = 5 := by decide +kernel
  have hne : ¬ lit "Host" = lit "Range" := by decide +kernel
  have hlines : (getRequest host url a b).lines =
      [(lit "Host", host), (lit "Range", rangeText a b)] := by
    show wantNaodai (lit "Range") (rangeText a b) [(lit "Host", host)] = _
    rw [wantNaodai, if_neg hne]
    rfl
  have hvalue : (rangeText a b).length ≤ 21 := by
    have hda := length_decimal_le ha
    have hdb := length_decimal_le hb
    simp only [rangeText, List.length_append, List.length_cons, List.length_nil]
    omega
  rw [length_wholeText rfl, hlines]
  show (lit "GET").length + url.length + (lit "HTTP/1.0").length + 4 + _ + 20 < 2048
  simp only [List.map_cons, List.map_nil, List.sum_cons, List.sum_nil, hmethod, hversion, hkey,
    hrange]
  omega

end Requests

/-! ## The loop -/

/-- The object points to `n` bytes of its buffer. -/
structure Holding (req : HttpRequest) (n : ℕ) : Prop where
  data : ∃ d : ℕ, req.resp.data = some d ∧ d + n ≤ defRespSize
  dlen : req.resp.dlen = n

/-- After a response that is read it points to the data of it. -/
theorem holding_of_finds {req : HttpRequest} {r : Text} {p d : ℕ} (hlen : r.length < defRespSize)
    (h : Finds r p d) (hdata : req.resp.data = some d)
    (hdlen : req.resp.dlen = (r.length : ℤ) - d) :
    Holding req (r.drop d).length := by
  obtain ⟨-, hd, -⟩ := h.bounds
  rw [List.length_drop]
  refine ⟨⟨d, hdata, by omega⟩, ?_⟩
  rw [hdlen, Nat.cast_sub hd]

section Piece

variable {server : Text → Text} {host url body data : Text} {a b n : ℕ} {m : ℤ}
  {req req' : HttpRequest}

/-- **A piece that is read.** -/
theorem downloadPiece_of_read (hasks : Asks host url req)
    (hfits : (getRequest host url a b).wholeText.length < defReqSize)
    (hread : readReply (server (getRequest host url a b).wholeText) = some (m, body))
    (hm : m = body.length) :
    ∃ req', downloadPiece (.answering server) a b req = .ok (some (body, req')) := by
  obtain ⟨hlen, p, d, hfinds⟩ := exists_finds_of_readReply hread
  have hfits' : { getRequest host url a b with resp := req.resp }.wholeText.length < defReqSize :=
    hfits
  obtain ⟨res, hgo⟩ := gogogo_answering hfits' rfl hlen hfinds
  obtain ⟨buf, htake⟩ := takePiece_found req.resp hlen hfinds hread hm
  refine ⟨{ getRequest host url a b with resp :=
      { req.resp.found (server (getRequest host url a b).wholeText) p d with buf := buf } },
    bind_eq_ok.mpr ⟨_, (congrArg _ (hasks a b)).trans hgo, ?_⟩⟩
  exact (if_pos rfl).trans (bind_eq_ok.mpr ⟨_, htake, rfl⟩)

/-- **A piece that is saved** is read in the response, or it is as long as the one before and the
response is not read. -/
theorem downloadPiece_eq_some (hasks : Asks host url req)
    (hfits : (getRequest host url a b).wholeText.length < defReqSize) (hold : Holding req n)
    (hmeant : ∀ m body, readReply (server (getRequest host url a b).wholeText) = some (m, body) →
      m = body.length)
    (h : downloadPiece (.answering server) a b req = .ok (some (data, req'))) :
    Asks host url req' ∧ Holding req' data.length ∧
      ((∃ m, readReply (server (getRequest host url a b).wholeText) = some (m, data)) ∨
        readReply (server (getRequest host url a b).wholeText) = none ∧ data.length = n) := by
  obtain ⟨⟨res, req₁⟩, hgo, h⟩ := bind_eq_ok.mp h
  dsimp only at h
  split_ifs at h with hvalid
  · obtain ⟨taken, htake, h⟩ := bind_eq_ok.mp h
    obtain ⟨⟨data', resp'⟩, rfl, hpiece⟩ := Option.map_eq_some_iff.mp (Except.ok.inj h)
    obtain ⟨rfl, rfl⟩ := Prod.mk.inj hpiece
    rw [hasks] at hgo
    have hfits' : { getRequest host url a b with resp := req.resp }.wholeText.length < defReqSize :=
      hfits
    rcases gogogo_cases hfits' rfl hgo with ⟨p, d, hlen, hfinds, rfl⟩ | ⟨hno, resp₁, rfl, -, hd, hn⟩
    · cases hread : readReply (server (getRequest host url a b).wholeText) with
      | none =>
        have hnone := takePiece_found_of_none req.resp hlen hfinds hread
        cases hnone.symm.trans htake
      | some reply =>
        obtain ⟨m, body⟩ := reply
        obtain ⟨buf, hbody⟩ := takePiece_found req.resp hlen hfinds hread (hmeant m body hread)
        obtain ⟨rfl, rfl⟩ := Prod.mk.inj (Option.some.inj (Except.ok.inj (htake.symm.trans hbody)))
        refine ⟨asks_getRequest host url a b _, ?_, .inl ⟨m, rfl⟩⟩
        rw [eq_drop_of_readReply hlen hfinds hread]
        exact holding_of_finds hlen hfinds rfl rfl
    · have hread := readReply_of_not_finds hno
      obtain ⟨⟨buf, rfl⟩, hlength⟩ := takePiece_eq_some htake
      obtain ⟨d, hdata, hin⟩ := hold.data
      have hn' : data'.length = n := hlength d n (hd.trans hdata) (hn.trans hold.dlen) hin
      refine ⟨asks_getRequest host url a b _, ?_, .inr ⟨hread, hn'⟩⟩
      rw [hn']
      exact ⟨⟨d, hd.trans hdata, hin⟩, hn.trans hold.dlen⟩
  · cases h

end Piece

section Loop

variable {net : ℕ → Net} {flen k : ℕ} {req : HttpRequest} {saved out : Text}
  {Inv : ℕ → HttpRequest → Text → Prop}

/-- The start of a piece is the end of the one before. -/
theorem min_succ (k flen : ℕ) : min (downloadPieceSize * k + downloadPieceSize) flen =
    min (downloadPieceSize * (k + 1)) flen := by
  rw [Nat.mul_succ]

/-- **The invariant rule** for the loop: what every piece keeps holds when it has ended well. -/
theorem downloadPieces_invariant
    (hstep : ∀ k req saved data req', downloadPieceSize * k < flen → Inv k req saved →
      downloadPiece (net (k + 1)) (downloadPieceSize * k)
        (min (downloadPieceSize * k + downloadPieceSize) flen) req = .ok (some (data, req')) →
      Inv (k + 1) req' (saved ++ data))
    (hinv : Inv k req saved)
    (h : downloadPieces net flen (k + 1) (min (downloadPieceSize * k) flen) req saved =
      .ok (true, out)) :
    ∃ k' req', flen ≤ downloadPieceSize * k' ∧ Inv k' req' out := by
  induction hleft : flen - downloadPieceSize * k using Nat.strong_induction_on
    generalizing k req saved with
  | h left ih =>
    rw [downloadPieces] at h
    by_cases hlt : downloadPieceSize * k < flen
    · rw [min_eq_left hlt.le, dif_pos hlt] at h
      split_ifs at h
      obtain ⟨piece, hpiece, h⟩ := bind_eq_ok.mp h
      cases piece with
      | none => cases h
      | some piece =>
        have hnext := hstep k req saved piece.1 piece.2 hlt hinv hpiece
        rw [min_succ] at h
        refine ih _ ?_ hnext h rfl
        rw [Nat.mul_succ]
        simp only [downloadPieceSize] at hlt hleft ⊢
        omega
    · rw [min_eq_right (not_lt.mp hlt), dif_neg (lt_irrefl _)] at h
      obtain ⟨-, rfl⟩ := Prod.mk.inj (Except.ok.inj h)
      exact ⟨k, req, not_lt.mp hlt, hinv⟩

end Loop

/-! ## A server with a file -/

/-- The bytes of a range, both ends in it. -/
def rangeOf (file : Text) (a b : ℕ) : Text := (file.drop a).take (min b (file.length - 1) + 1 - a)

/-- The response to the request for the `k`-th piece. The server need not answer each call alike. -/
def reply (server : ℕ → Text → Text) (host url : Text) (flen k : ℕ) : Text :=
  server (k + 1) (getRequest host url (downloadPieceSize * k)
    (min (downloadPieceSize * k + downloadPieceSize) flen)).wholeText

/-- The server answers HEAD with the length of the file and GET with the bytes of the range and
their number, so far as the client reads the response.

A response may be one that the client does not read, but not one that it reads as another: a body
that looks like header lines can be taken for them behind a reason of one word, and to the client
such a server answers something else. And if the client reads any piece, it reads the first. Without
the first piece, what is saved for it has no bytes, and for a later one that is not read it is what
is left of the one before; a file of equal bytes could come out right in this way, by accident. -/
structure Serves (server : ℕ → Text → Text) (host url file : Text) : Prop where
  head : ∀ n body, readReply (server 0 (headRequest host url).wholeText) = some (n, body) →
    n = file.length ∧ body = []
  get : ∀ k, downloadPieceSize * k < file.length →
    ∀ n body, readReply (reply server host url file.length k) = some (n, body) →
      n = body.length ∧ body = rangeOf file (downloadPieceSize * k)
        (min (downloadPieceSize * k + downloadPieceSize) file.length)
  first : ∀ k, downloadPieceSize * k < file.length →
    readReply (reply server host url file.length k) ≠ none →
      readReply (reply server host url file.length 0) ≠ none

section Server

variable {server : ℕ → Text → Text} {host url file out : Text} {req : HttpRequest}

theorem length_rangeOf {a b : ℕ} (ha : a < file.length) (hb : a ≤ b) :
    (rangeOf file a b).length = min b (file.length - 1) + 1 - a := by
  rw [rangeOf, List.length_take, List.length_drop]
  omega

theorem rangeOf_all (h : 1 ≤ file.length) : rangeOf file 0 file.length = file := by
  rw [rangeOf, List.drop_zero]
  exact List.take_of_length_le (by omega)

/-- **A piece that is saved** is the one the server meant, or as long as the one before. -/
theorem saved_piece (hserves : Serves server host url file) (hhost : host.length ≤ 63)
    (hurl : url.length ≤ 255) (hint : file.length < 2 ^ 31) {k n : ℕ} {data : Text}
    {req' : HttpRequest} (hk : downloadPieceSize * k < file.length) (hasks : Asks host url req)
    (hold : Holding req n)
    (h : downloadPiece (.answering (server (k + 1))) (downloadPieceSize * k)
      (min (downloadPieceSize * k + downloadPieceSize) file.length) req = .ok (some (data, req'))) :
    Asks host url req' ∧ Holding req' data.length ∧
      (readReply (reply server host url file.length k) ≠ none ∧
          data = rangeOf file (downloadPieceSize * k)
            (min (downloadPieceSize * k + downloadPieceSize) file.length) ∨
        readReply (reply server host url file.length k) = none ∧ data.length = n) := by
  have hfits := getRequest_fits hhost hurl (hk.trans hint)
    ((min_le_right (downloadPieceSize * k + downloadPieceSize) file.length).trans_lt hint)
  obtain ⟨hasks', hold', ⟨m, hread⟩ | hnone⟩ := downloadPiece_eq_some hasks hfits hold
    (fun m body hread => (hserves.get k hk m body hread).1) h
  · refine ⟨hasks', hold', .inl ⟨?_, (hserves.get k hk m data hread).2⟩⟩
    exact Option.ne_none_iff_exists'.mpr ⟨_, hread⟩
  · exact ⟨hasks', hold', .inr hnone⟩

/-- **A first piece that is not read**: nothing is saved. -/
theorem out_eq_nil (hserves : Serves server host url file) (hhost : host.length ≤ 63)
    (hurl : url.length ≤ 255) (hint : file.length < 2 ^ 31) (hasks : Asks host url req)
    (hold : Holding req 0) (hfirst : readReply (reply server host url file.length 0) = none)
    (h : downloadPieces (fun i => .answering (server i)) file.length 1 0 req [] =
      .ok (true, out)) : out = [] := by
  -- every piece has as many bytes as the response to HEAD
  let Inv : ℕ → HttpRequest → Text → Prop := fun _ req saved =>
    Asks host url req ∧ Holding req 0 ∧ saved = []
  have hstep : ∀ k req saved data req', downloadPieceSize * k < file.length → Inv k req saved →
      downloadPiece (.answering (server (k + 1))) (downloadPieceSize * k)
        (min (downloadPieceSize * k + downloadPieceSize) file.length) req =
          .ok (some (data, req')) → Inv (k + 1) req' (saved ++ data) := by
    rintro k req saved data req' hk ⟨hasks, hold, rfl⟩ hpiece
    obtain ⟨hasks', hold', ⟨hread, -⟩ | ⟨-, hempty⟩⟩ :=
      saved_piece hserves hhost hurl hint hk hasks hold hpiece
    · exact absurd hfirst (hserves.first k hk hread)
    · rw [hempty] at hold'
      exact ⟨hasks', hold', List.eq_nil_of_length_eq_zero hempty⟩
  have hstart : min (downloadPieceSize * 0) file.length = 0 := Nat.zero_min _
  rw [← hstart] at h
  obtain ⟨-, -, -, -, -, hout⟩ := downloadPieces_invariant hstep ⟨hasks, hold, rfl⟩ h
  exact hout

/-- **A first piece that is read**, in a file of more than one: too much is saved. -/
theorem lt_length_out (hserves : Serves server host url file) (hhost : host.length ≤ 63)
    (hurl : url.length ≤ 255) (hint : file.length < 2 ^ 31) (hasks : Asks host url req)
    (hold : Holding req 0) (hfirst : readReply (reply server host url file.length 0) ≠ none)
    (hlong : downloadPieceSize < file.length)
    (h : downloadPieces (fun i => .answering (server i)) file.length 1 0 req [] =
      .ok (true, out)) : file.length < out.length := by
  -- after the first piece there is more than should be, and the object holds a whole piece
  let Inv : ℕ → HttpRequest → Text → Prop := fun k req saved =>
    Asks host url req ∧
      (downloadPieceSize * k < file.length →
        ∃ n, Holding req n ∧ (k = 0 ∨ downloadPieceSize ≤ n)) ∧
      (k = 0 ∨ min (downloadPieceSize * k) file.length < saved.length)
  have hstep : ∀ k req saved data req', downloadPieceSize * k < file.length → Inv k req saved →
      downloadPiece (.answering (server (k + 1))) (downloadPieceSize * k)
        (min (downloadPieceSize * k + downloadPieceSize) file.length) req =
          .ok (some (data, req')) → Inv (k + 1) req' (saved ++ data) := by
    rintro k req saved data req' hk ⟨hasks, hholds, hsaved⟩ hpiece
    obtain ⟨n, hold, hn⟩ := hholds hk
    obtain ⟨hasks', hold', hdata⟩ := saved_piece hserves hhost hurl hint hk hasks hold hpiece
    have hlength : (k = 0 → downloadPieceSize < data.length) ∧
        min (downloadPieceSize * k + downloadPieceSize) file.length ≤
          downloadPieceSize * k + data.length ∧
        (downloadPieceSize * k + downloadPieceSize < file.length →
          downloadPieceSize ≤ data.length) := by
      rcases hdata with ⟨-, rfl⟩ | ⟨hnone, hlen⟩
      · -- a byte more than asked for, unless the file ends
        rw [length_rangeOf hk (le_min (Nat.le_add_right _ _) hk.le)]
        simp only [downloadPieceSize] at hk hlong ⊢
        refine ⟨?_, ?_, ?_⟩
        · rintro rfl
          omega
        · omega
        · omega
      · -- not the first one: the bytes of a piece before
        have hne : k ≠ 0 := by
          rintro rfl
          exact hfirst hnone
        have hn := hn.resolve_left hne
        rw [hlen]
        refine ⟨fun h0 => absurd h0 hne, ?_, fun _ => hn⟩
        exact (min_le_left _ _).trans (Nat.add_le_add_left hn _)
    obtain ⟨hzero, hnext, hwhole⟩ := hlength
    rw [← Nat.mul_succ] at hnext hwhole
    refine ⟨hasks', fun hlt => ⟨_, hold', .inr (hwhole hlt)⟩, .inr ?_⟩
    rw [List.length_append]
    rcases hsaved with rfl | hsaved
    · exact (min_le_left _ _).trans_lt ((hzero rfl).trans_le (Nat.le_add_left _ _))
    · rw [min_eq_left hk.le] at hsaved
      exact hnext.trans_lt (Nat.add_lt_add_right hsaved _)
  have hstart : min (downloadPieceSize * 0) file.length = 0 := Nat.zero_min _
  rw [← hstart] at h
  obtain ⟨k, -, hk, -, -, hout⟩ := downloadPieces_invariant hstep
    ⟨hasks, fun _ => ⟨0, hold, .inl rfl⟩, .inl rfl⟩ h
  rw [min_eq_right hk] at hout
  rcases hout with rfl | hout
  · exact absurd hk (by omega)
  · exact hout

/-- The object after a response to HEAD that is read. -/
def headAnswered (host url r : Text) (p d : ℕ) : HttpRequest :=
  { headRequest host url with resp := (headRequest host url).resp.found r p d }

theorem asks_headAnswered (host url r : Text) (p d : ℕ) :
    Asks host url (headAnswered host url r p d) :=
  asks_headRequest host url _

theorem holding_headAnswered (host url : Text) {r : Text} {p d : ℕ} {n : ℤ}
    (hlen : r.length < defRespSize) (h : Finds r p d) (hread : readReply r = some (n, [])) :
    Holding (headAnswered host url r p d) 0 := by
  have hold : Holding (headAnswered host url r p d) (r.drop d).length :=
    holding_of_finds hlen h rfl rfl
  rwa [← eq_drop_of_readReply hlen h hread] at hold

/-- A download that ends well is of one piece, and the client reads both responses. -/
theorem reads_of_download (hserves : Serves server host url file) (hhost : host.length ≤ 63)
    (hurl : url.length ≤ 255) (hpos : 1 ≤ file.length) (hint : file.length < 2 ^ 31)
    (h : downloadCtxRunSocket true true (fun i => .answering (server i)) host url =
      .ok (true, some file)) :
    file.length ≤ downloadPieceSize ∧
      readReply (server 0 (headRequest host url).wholeText) ≠ none ∧
      readReply (reply server host url file.length 0) ≠ none := by
  have hfits := headRequest_fits hhost hurl
  obtain ⟨⟨res, req⟩, hgo, h⟩ := bind_eq_ok.mp h
  have hgo : xiaocilangGogogo (.answering (server 0)) (headRequest host url) = .ok (res, req) :=
    hgo
  rcases gogogo_cases hfits rfl hgo with ⟨p, d, hlen, hfinds, rfl⟩ | ⟨-, resp, rfl, hvalid, -, -⟩
  · have hlength := readLength_found (headRequest host url).resp hlen hfinds
    obtain ⟨flen, hflen, h⟩ := bind_eq_ok.mp h
    obtain rfl := Except.ok.inj (hlength.symm.trans hflen)
    cases hread : readReply (server 0 (headRequest host url).wholeText) with
    | none =>
      rw [hread] at h
      cases h
    | some found =>
      obtain ⟨n, body⟩ := found
      obtain ⟨rfl, rfl⟩ := hserves.head n body hread
      have hsome : ¬ (file.length : ℤ) ≤ 0 := by omega
      rw [hread, Option.map_some] at h
      dsimp only at h
      rw [if_neg hsome, Int.toNat_natCast] at h
      obtain ⟨⟨done, out⟩, hloop, h⟩ := bind_eq_ok.mp h
      obtain ⟨rfl, hout⟩ := Prod.mk.inj (Except.ok.inj h)
      obtain rfl := Option.some.inj hout
      have hasks := asks_headAnswered host url (server 0 (headRequest host url).wholeText) p d
      have hold := holding_headAnswered host url hlen hfinds hread
      by_cases hfirst : readReply (reply server host url out.length 0) = none
      · rw [out_eq_nil hserves hhost hurl hint hasks hold hfirst hloop, List.length_nil] at hpos
        exact absurd hpos (by decide)
      · refine ⟨not_lt.mp fun hlong => ?_, nofun, hfirst⟩
        exact lt_irrefl _
          (lt_length_out hserves hhost hurl hint hasks hold hfirst hlong hloop)
  · have hno : ¬ resp.valid = true := by
      rw [hvalid]
      exact Bool.false_ne_true
    dsimp only at h
    rw [if_neg hno] at h
    cases h

/-- One piece is downloaded when the client reads both responses. -/
theorem download_of_reads (hserves : Serves server host url file) (hhost : host.length ≤ 63)
    (hurl : url.length ≤ 255) (hpos : 1 ≤ file.length) (hint : file.length < 2 ^ 31)
    (hshort : file.length ≤ downloadPieceSize)
    (hhead : readReply (server 0 (headRequest host url).wholeText) ≠ none)
    (hfirst : readReply (reply server host url file.length 0) ≠ none) :
    downloadCtxRunSocket true true (fun i => .answering (server i)) host url =
      .ok (true, some file) := by
  have hfits := headRequest_fits hhost hurl
  obtain ⟨⟨n, body⟩, hhead⟩ := Option.ne_none_iff_exists'.mp hhead
  obtain ⟨⟨m, piece⟩, hfirst⟩ := Option.ne_none_iff_exists'.mp hfirst
  obtain ⟨rfl, rfl⟩ := hserves.head n body hhead
  obtain ⟨hm, hpiece⟩ := hserves.get 0 hpos m piece hfirst
  obtain ⟨hlen, p, d, hfinds⟩ := exists_finds_of_readReply hhead
  obtain ⟨res, hgo⟩ := gogogo_answering hfits rfl hlen hfinds
  have hlength := readLength_found (headRequest host url).resp hlen hfinds
  rw [hhead] at hlength
  have hsome : ¬ (file.length : ℤ) ≤ 0 := by omega
  have hend : min (0 + downloadPieceSize) file.length = file.length := by
    rw [Nat.zero_add]
    exact min_eq_right hshort
  have hwhole : piece = file := by
    rw [hpiece, Nat.mul_zero, hend]
    exact rangeOf_all hpos
  -- the only piece
  have hfirst : readReply (server 1 (getRequest host url 0
      (min (0 + downloadPieceSize) file.length)).wholeText) = some (m, piece) := hfirst
  obtain ⟨req, hdone⟩ := downloadPiece_of_read
    (asks_headAnswered host url (server 0 (headRequest host url).wholeText) p d)
    (getRequest_fits hhost hurl (by decide) ((min_le_right _ _).trans_lt hint)) hfirst hm
  refine bind_eq_ok.mpr ⟨_, hgo, (if_pos rfl).trans (bind_eq_ok.mpr ⟨_, hlength, ?_⟩)⟩
  dsimp only [Option.map_some]
  rw [if_neg hsome, Int.toNat_natCast]
  refine bind_eq_ok.mpr ⟨(true, file), ?_, rfl⟩
  have hstart : 0 < file.length := hpos
  rw [downloadPieces, dif_pos hstart, if_pos (by decide)]
  refine bind_eq_ok.mpr ⟨_, hdone, ?_⟩
  dsimp only
  rw [hend, downloadPieces, dif_neg (lt_irrefl _), hwhole, decide_eq_true rfl]
  rfl

/-- **When the file is downloaded**: it is one piece, and the client reads both responses. -/
theorem downloadCtxRunSocket_iff (server : ℕ → Text → Text) (host url file : Text)
    (hserves : Serves server host url file) (hhost : host.length ≤ 63) (hurl : url.length ≤ 255)
    (hpos : 1 ≤ file.length) (hint : file.length < 2 ^ 31) :
    downloadCtxRunSocket true true (fun i => .answering (server i)) host url =
        .ok (true, some file) ↔
      file.length ≤ downloadPieceSize ∧
        readReply (server 0 (headRequest host url).wholeText) ≠ none ∧
        readReply (reply server host url file.length 0) ≠ none := by
  constructor
  · exact reads_of_download hserves hhost hurl hpos hint
  · rintro ⟨hshort, hhead, hfirst⟩
    exact download_of_reads hserves hhost hurl hpos hint hshort hhead hfirst

/-- A header for data of a length. -/
def headerFor (digits : String) : Text :=
  lit "HTTP/1.0 200 OK\r\nServer:s\r\nContent-Length:" ++ lit digits ++ crlf ++ crlf

theorem readReply_headerFor : readReply (headerFor "5") = some (5, []) ∧
    readReply (headerFor "3073") = some (3073, []) ∧ readReply (headerFor "1") = some (1, []) := by
  decide +kernel

/-- A server with a file of five bytes. -/
def helloServer (call : ℕ) (_ : Text) : Text :=
  if call = 0 then headerFor "5" else headerFor "5" ++ lit "hello"

theorem readReply_hello : readReply (headerFor "5" ++ lit "hello") = some (5, lit "hello") :=
  readReply_append readReply_headerFor.1 (by decide +kernel)

theorem serves_helloServer (host url : Text) : Serves helloServer host url (lit "hello") := by
  have hfive : (lit "hello").length = 5 := by decide +kernel
  have hzero : ∀ k, downloadPieceSize * k < (lit "hello").length → k = 0 := by
    intro k hk
    rw [hfive] at hk
    simp only [downloadPieceSize] at hk
    omega
  constructor
  · intro n body hread
    obtain ⟨rfl, rfl⟩ := Prod.mk.inj (Option.some.inj (readReply_headerFor.1.symm.trans hread))
    rw [hfive]
    exact ⟨rfl, rfl⟩
  · intro k hk n body hread
    obtain rfl := hzero k hk
    obtain ⟨rfl, rfl⟩ := Prod.mk.inj (Option.some.inj (readReply_hello.symm.trans hread))
    rw [hfive]
    exact ⟨rfl, by decide +kernel⟩
  · intro k hk hread
    exact hzero k hk ▸ hread

/-- The file of five bytes is downloaded. -/
theorem downloadCtxRunSocket_hello :
    downloadCtxRunSocket true true (fun i => .answering (helloServer i)) (lit "h") (lit "/f") =
      .ok (true, some (lit "hello")) := by
  refine (downloadCtxRunSocket_iff helloServer (lit "h") (lit "/f") (lit "hello")
    (serves_helloServer _ _) (by decide +kernel) (by decide +kernel) (by decide +kernel)
    (by decide +kernel)).mpr ⟨by decide +kernel, ?_, ?_⟩
  · exact Option.ne_none_iff_exists'.mpr ⟨_, readReply_headerFor.1⟩
  · exact Option.ne_none_iff_exists'.mpr ⟨_, readReply_hello⟩

/-- A file of a byte more than a piece. -/
def longFile : Text := List.replicate 3073 65

/-- A server with this file. -/
def longServer (call : ℕ) (_ : Text) : Text :=
  if call = 0 then headerFor "3073"
  else if call = 1 then headerFor "3073" ++ longFile
  else headerFor "1" ++ [65]

theorem serves_longServer (host url : Text) : Serves longServer host url longFile := by
  have hlen : longFile.length = 3073 := List.length_replicate
  have hheader : (headerFor "3073").length = 50 := by decide +kernel
  have hfits : (headerFor "3073" ++ longFile).length < defRespSize := by
    rw [List.length_append, hheader, hlen]
    decide
  have hread₀ := readReply_append readReply_headerFor.2.1 hfits
  have hread₁ : readReply (headerFor "1" ++ [65]) = some (1, [65]) :=
    readReply_append readReply_headerFor.2.2 (by decide +kernel)
  have htwo : ∀ k, downloadPieceSize * k < longFile.length → k = 0 ∨ k = 1 := by
    intro k hk
    rw [hlen] at hk
    simp only [downloadPieceSize] at hk
    omega
  constructor
  · intro n body hread
    obtain ⟨rfl, rfl⟩ := Prod.mk.inj (Option.some.inj (readReply_headerFor.2.1.symm.trans hread))
    rw [hlen]
    exact ⟨rfl, rfl⟩
  · intro k hk n body hread
    rcases htwo k hk with rfl | rfl
    · obtain ⟨rfl, rfl⟩ := Prod.mk.inj (Option.some.inj (hread₀.symm.trans hread))
      refine ⟨by rw [hlen]; rfl, ?_⟩
      have hall : min (min (downloadPieceSize * 0 + downloadPieceSize) 3073) (3073 - 1) + 1 -
          downloadPieceSize * 0 = 3073 := by decide
      rw [rangeOf, hlen, hall]
      exact (List.take_of_length_le hlen.le).symm
    · obtain ⟨rfl, rfl⟩ := Prod.mk.inj (Option.some.inj (hread₁.symm.trans hread))
      refine ⟨rfl, ?_⟩
      have hlast : min (min (downloadPieceSize * 1 + downloadPieceSize) 3073) (3073 - 1) + 1 -
          downloadPieceSize * 1 = 1 := by decide
      rw [rangeOf, hlen, hlast, longFile, List.drop_replicate]
      rfl
  · intro k _ _
    exact Option.ne_none_iff_exists'.mpr ⟨_, hread₀⟩

/-- The file of a byte more than a piece is not downloaded, though every response is read. -/
theorem downloadCtxRunSocket_longFile : Serves longServer (lit "h") (lit "/f") longFile ∧
    downloadCtxRunSocket true true (fun i => .answering (longServer i)) (lit "h") (lit "/f") ≠
      .ok (true, some longFile) := by
  have hlen : longFile.length = 3073 := List.length_replicate
  have hserves := serves_longServer (lit "h") (lit "/f")
  refine ⟨hserves, fun h => ?_⟩
  obtain ⟨hshort, -, -⟩ := reads_of_download hserves (by decide +kernel) (by decide +kernel)
    (by rw [hlen]; decide) (by rw [hlen]; decide) h
  rw [hlen] at hshort
  exact absurd hshort (by decide)

end Server

end Ltm

end Tqos
