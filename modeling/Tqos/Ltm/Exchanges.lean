import Tqos.Lib.Run
import Tqos.Ltm.Http

/-!
# Which response is reported

A request object is used for one call after the other, and `resp.valid`, `resp.line_start` and
`resp.data` stay in it. `xiaocilang_gogogo` sets the flag when it has found the header lines and the
data of a response, and nothing takes it back before `xiaocilang_clear`: after a call that fails the
flag still speaks of an earlier one.

## Main results

* `reportsCall_of_fresh` — a call after which the flag and the pointers are right
* `reports_of_along` — a run of such calls
* `stale_of_not_readable` — a call that leaves the flag and the data of an earlier one
-/

namespace Tqos

namespace Ltm

/-! ## Runs -/

/-- What can be done with a request object. -/
inductive RequestOp
  | wantNaodai (key val : Text)
  | buyaoNaodai (key : Text)
  | wantHousite (host : Text) (resolves : Bool)
  | wantZhaoshi (method : Text)
  | wantData (encrypted : Option Text)
  /-- The caller changes the response in place, as decryption does. -/
  | edit (buf : Vector UInt8 defRespSize)
  | gogogo (net : Net)

/-- One of these things. There is nothing more after a fault. -/
def RequestOp.step (req : HttpRequest) : RequestOp → Option HttpRequest
  | wantNaodai key val => some (req.xiaocilangWantNaodai key val)
  | buyaoNaodai key => some (req.xiaocilangBuyaoNaodai key)
  | wantHousite host resolves => some (req.xiaocilangWantHousite host resolves)
  | wantZhaoshi method => some (req.xiaocilangWantZhaoshi method)
  | wantData encrypted => some (req.xiaocilangWantData encrypted)
  | edit buf => some { req with resp := { req.resp with buf := buf } }
  | gogogo net => (xiaocilangGogogo net req).toOption.map Prod.snd

/-! ## Reports -/

/-- A response with status 200 and a complete header. -/
def Complete (r : Text) : Prop := status r = some (lit "200") ∧ crlf ++ crlf <:+: r

/-- The pointers are those of a response: `line_start` points into the bytes that have been
received, the data begins behind an empty line and goes up to the last byte. -/
def Refers (resp : HttpResponse) (r : Text) : Prop :=
  ∃ p d, resp.lineStart = some p ∧ resp.data = some d ∧ p ≤ d ∧ d ≤ r.length ∧
    crlf ++ crlf <:+ r.take d ∧ resp.buf.toList.take r.length = r ∧
      resp.xiaocilangGiveData = some (r.drop d)

/-- After the call the flag says whether the call has received a complete response, and the pointers
are those of this response then. -/
def ReportsCall (net : Net) (req : HttpRequest) : Prop :=
  ∃ received res req', req.exchange net = .ok received ∧
    xiaocilangGogogo net req = .ok (res, req') ∧
    (req'.resp.valid = true ↔ ∃ r, received = some r ∧ Complete r) ∧
    (req'.resp.valid = true → ∀ r, received = some r → Refers req'.resp r)

/-- The call stays inside both buffers, and it receives a response that is read, or nothing was
reported before and it receives no complete response. -/
def FreshCall (net : Net) (req : HttpRequest) : Prop :=
  ∃ received, req.exchange net = .ok received ∧
    (∀ r, received = some r → r.length < defRespSize) ∧
    ((∃ r, received = some r ∧ Readable r) ∨
      req.resp.valid = false ∧ ∀ r, received = some r → ¬ Complete r)

/-- Each call reports right. -/
def Reports (req : HttpRequest) : RequestOp → Prop
  | .gogogo net => ReportsCall net req
  | _ => True

/-- Each call is fresh. -/
def Fresh (req : HttpRequest) : RequestOp → Prop
  | .gogogo net => FreshCall net req
  | _ => True

section Calls

variable {net : Net} {req : HttpRequest} {r : Text}

/-- What is read is complete. -/
theorem Readable.complete (h : Readable r) : Complete r := by
  obtain ⟨hstatus, a, b, c, hsplit⟩ := h
  have hin : crlf ++ crlf <:+: cstr (r.drop (behindWords r)) := ⟨a ++ crlf ++ b, c, hsplit.symm⟩
  have hstring : cstr (r.drop (behindWords r)) <:+: r :=
    (List.takeWhile_prefix _).isInfix.trans (List.drop_suffix _ r).isInfix
  exact ⟨hstatus, hin.trans hstring⟩

/-- **A fresh call reports right.** -/
theorem reportsCall_of_fresh (h : FreshCall net req) : ReportsCall net req := by
  obtain ⟨received, hexchange, hlen, hread | ⟨hvalid, hnot⟩⟩ := h
  · -- it sets the flag and both pointers
    obtain ⟨r, rfl, hread⟩ := hread
    obtain ⟨p, d, hfinds⟩ := exists_finds_iff.mpr hread
    obtain ⟨hpd, hd, hempty⟩ := hfinds.bounds
    have hlen := hlen r rfl
    have hbuf := toList_receive req.resp hlen
    refine ⟨some r, _, _, hexchange, gogogo_of_finds hexchange hlen hfinds, ?_, ?_⟩
    · exact ⟨fun _ => ⟨r, rfl, hread.complete⟩, fun _ => rfl⟩
    · rintro - r' hr'
      obtain rfl := Option.some.inj hr'
      refine ⟨p, d, rfl, rfl, (Nat.le_add_right p 4).trans hpd, hd, hempty, ?_, ?_⟩
      · show (req.resp.receive r).buf.toList.take r.length = r
        rw [hbuf]
        exact List.take_left
      · show some (((req.resp.receive r).buf.toList.drop d).take ((r.length : ℤ) - d).toNat) = _
        have hdlen : ((r.length : ℤ) - d).toNat = (r.drop d).length := by
          rw [List.length_drop]
          omega
        rw [hbuf, List.drop_append_of_le_length hd, hdlen, List.take_left]
  · -- the flag was not set, and is not
    cases received with
    | none =>
      refine ⟨none, _, _, hexchange, gogogo_of_none hexchange, ?_, nofun⟩
      rw [hvalid]
      constructor
      · nofun
      · rintro ⟨r, hr, -⟩
        cases hr
    | some r =>
      have hno := hnot r rfl
      obtain ⟨lineStart, hgo⟩ := gogogo_of_not_finds hexchange (hlen r rfl) fun p d hfinds =>
        hno (exists_finds_iff.mp ⟨p, d, hfinds⟩).complete
      refine ⟨some r, _, _, hexchange, hgo, ?_, ?_⟩
      · show req.resp.valid = true ↔ _
        rw [hvalid]
        constructor
        · nofun
        · rintro ⟨r', hr', hcomplete⟩
          obtain rfl := Option.some.inj hr'
          exact absurd hcomplete hno
      · intro hset
        exact absurd (hvalid.symm.trans hset) Bool.false_ne_true

/-- **In a run of fresh calls** each call reports right. -/
theorem reports_of_along (req : HttpRequest) (ops : List RequestOp)
    (h : Run.Along RequestOp.step Fresh req ops) : Run.Along RequestOp.step Reports req ops := by
  intro p op hp u hu
  have hfresh := h p op hp u hu
  cases op with
  | gogogo net => exact reportsCall_of_fresh hfresh
  | wantNaodai | buyaoNaodai | wantHousite | wantZhaoshi | wantData | edit => trivial

/-- **A response that is not read** leaves the flag and the data of an earlier one. -/
theorem stale_of_not_readable (hexchange : req.exchange net = .ok (some r))
    (hlen : r.length < defRespSize) (h : ¬ Readable r) :
    ∃ req', xiaocilangGogogo net req = .ok (-1, req') ∧ req'.resp.valid = req.resp.valid ∧
      req'.resp.data = req.resp.data ∧ req'.resp.dlen = req.resp.dlen := by
  obtain ⟨lineStart, hgo⟩ := gogogo_of_not_finds hexchange hlen fun p d hfinds =>
    h (exists_finds_iff.mp ⟨p, d, hfinds⟩)
  exact ⟨_, hgo, rfl, rfl, rfl⟩

/-- **A call that reports right** is fresh, or the flag was set before and it receives a complete
response that is not read, so that it points to this one by accident. -/
theorem fresh_of_reportsCall (h : ReportsCall net req) :
    FreshCall net req ∨ req.resp.valid = true ∧
      ∃ r, req.exchange net = .ok (some r) ∧ Complete r ∧ ¬ Readable r := by
  obtain ⟨received, res, req', hexchange, hgo, hvalid, -⟩ := h
  cases received with
  | none =>
    rw [gogogo_of_none hexchange] at hgo
    obtain ⟨-, rfl⟩ := Prod.mk.inj (Except.ok.inj hgo)
    refine .inl ⟨none, hexchange, nofun, .inr ⟨Bool.eq_false_iff.mpr fun hset => ?_, nofun⟩⟩
    obtain ⟨r, hr, -⟩ := hvalid.mp hset
    cases hr
  | some r =>
    have hlen := length_lt_of_gogogo hexchange hgo
    have hlens : ∀ r', some r = some r' → r'.length < defRespSize := fun r' hr' =>
      Option.some.inj hr' ▸ hlen
    by_cases hread : Readable r
    · exact .inl ⟨some r, hexchange, hlens, .inl ⟨r, rfl, hread⟩⟩
    · obtain ⟨req'', hgo', hstale, -, -⟩ := stale_of_not_readable hexchange hlen hread
      obtain ⟨-, rfl⟩ := Prod.mk.inj (Except.ok.inj (hgo.symm.trans hgo'))
      rw [hstale] at hvalid
      by_cases hset : req.resp.valid = true
      · obtain ⟨r', hr', hcomplete⟩ := hvalid.mp hset
        obtain rfl := Option.some.inj hr'
        exact .inr ⟨hset, r, hexchange, hcomplete, hread⟩
      · refine .inl ⟨some r, hexchange, hlens, .inr ⟨Bool.eq_false_iff.mpr hset, ?_⟩⟩
        intro r' hr' hcomplete
        exact hset (hvalid.mpr ⟨r', hr', hcomplete⟩)

/-- A network without a server. -/
def Net.unreachable : Net where
  socket := true
  connect _ := false
  writev _ := -1
  recv _ := none

/-- A response of five bytes. -/
def helloResponse : Text := lit "HTTP/1.0 200 OK\r\nServer:s\r\nContent-Length:5\r\n\r\nhello"

theorem length_helloResponse : helloResponse.length = 52 := by decide +kernel

theorem length_helloResponse_lt : helloResponse.length < defRespSize := by
  rw [length_helloResponse]
  decide

theorem finds_helloResponse : Finds helloResponse 27 47 := by
  rw [Finds]
  decide +kernel

/-- A request for a file. -/
def fileRequest : HttpRequest := xiaocilangBorn (lit "GET") (lit "/f")

theorem fileRequest_fits (resp : HttpResponse) :
    { fileRequest with resp := resp }.wholeText.length < defReqSize := by
  show fileRequest.wholeText.length < defReqSize
  decide +kernel

theorem exchange_helloResponse :
    fileRequest.exchange (.answering fun _ => helloResponse) = .ok (some helloResponse) := by
  have hne : helloResponse ≠ [] := by
    rintro heq
    have hlen := length_helloResponse
    rw [heq] at hlen
    cases hlen
  have h := HttpRequest.exchange_answering (fun _ => helloResponse)
    (fileRequest_fits fileRequest.resp)
  rwa [if_neg hne, List.take_of_length_le length_helloResponse_lt.le] at h

theorem exchange_unreachable (resp : HttpResponse) :
    HttpRequest.exchange .unreachable { fileRequest with resp := resp } = .ok none :=
  HttpRequest.exchange_of_not_connected (fileRequest_fits resp) (by decide)

/-- A call that finds no server, and one that receives a response. -/
theorem reports_of_along_helloResponse :
    Run.Along RequestOp.step Reports fileRequest
      [.gogogo .unreachable, .gogogo (.answering fun _ => helloResponse)] := by
  have hnone := exchange_unreachable fileRequest.resp
  refine reports_of_along _ _ (Run.along_cons.mpr ⟨?_, fun u hu => ?_⟩)
  · exact ⟨none, hnone, nofun, .inr ⟨rfl, nofun⟩⟩
  · have hgo : RequestOp.step fileRequest (.gogogo .unreachable) = some fileRequest :=
      congrArg (fun x => (Except.toOption x).map Prod.snd) (gogogo_of_none hnone)
    obtain rfl := Option.some.inj (hgo.symm.trans hu)
    refine Run.along_cons.mpr ⟨⟨_, exchange_helloResponse, fun r hr => ?_, .inl ⟨_, rfl, ?_⟩⟩,
      fun u _ => Run.along_nil _ _ u⟩
    · exact Option.some.inj hr ▸ length_helloResponse_lt
    · exact exists_finds_iff.mp ⟨_, _, finds_helloResponse⟩

/-- The first of two calls receives a response, the second finds no server: the flag still says that
there is a response, and what is given is the data of the first one. -/
theorem not_reportsCall_unreachable : ∃ req₁ req₂,
    xiaocilangGogogo (.answering fun _ => helloResponse) fileRequest = .ok (5, req₁) ∧
    xiaocilangGogogo .unreachable req₁ = .ok (-1, req₂) ∧ req₂.resp.valid = true ∧
    req₂.resp.xiaocilangGiveData = some (lit "hello") ∧ ¬ ReportsCall .unreachable req₁ := by
  have hgo := gogogo_of_finds exchange_helloResponse length_helloResponse_lt finds_helloResponse
  rw [length_helloResponse] at hgo
  refine ⟨_, _, hgo, gogogo_of_none (exchange_unreachable _), rfl, ?_, ?_⟩
  · have hlong : 47 ≤ helloResponse.length := by
      rw [length_helloResponse]
      decide
    have hdata : helloResponse.drop 47 = lit "hello" := by decide +kernel
    have hfive : (lit "hello").length = 5 := by decide +kernel
    show some (((fileRequest.resp.receive helloResponse).buf.toList.drop 47).take 5) = _
    rw [toList_receive _ length_helloResponse_lt, List.drop_append_of_le_length hlong, hdata,
      ← hfive, List.take_left]
  · rintro ⟨received, res, req', hexchange, hgo', hvalid, -⟩
    obtain rfl := Except.ok.inj ((exchange_unreachable _).symm.trans hexchange)
    obtain ⟨-, rfl⟩ := Prod.mk.inj
      (Except.ok.inj ((gogogo_of_none (exchange_unreachable _)).symm.trans hgo'))
    obtain ⟨r, hr, -⟩ := hvalid.mp rfl
    cases hr

end Calls

end Ltm

end Tqos
