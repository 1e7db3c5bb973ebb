import Tqos.Ltm.Engine
import Tqos.Ltm.PackGenerate

/-!
# Delivery

A release that `pack-generate.sh` has packed and that a server names in its answer is installed in
one turn of the engine, and not again as long as the answer is the same. Servers that have no
address or cannot be connected to are passed over on the way.

## Main results

* `askPackage_of_announces` — the answer of the first server that is reached
* `engineTurn_delivers` — the release is unpacked and recorded, once
-/

namespace Tqos

namespace Ltm

/-! ## The cipher -/

/-- The key that the password gives. -/
def defaultKey : Text := (cstr gWwKeys).map fun c => c ^^^ 255

/-- A text, enciphered. -/
def enciphered (t : Text) : Text :=
  t.mapIdx (mixAt (fun c front back => (c + front) ^^^ back) defaultKey 32)

section Cipher

variable {mem t : Text} {inp out n : ℕ}

theorem getWwPassById_gWwKeys (key : Vector UInt8 32) (len : ℕ) :
    getWwPassById 0 gWwKeys key.toList len =
      some (0, defaultKey ++ key.toList.drop 32, 32) := by
  have hlen : (cstr gWwKeys).length = 32 := by decide
  have hzero : (0 : UInt8) ∈ gWwKeys := by decide
  have hle : (cstr gWwKeys).length ≤ key.toList.length := by
    rw [hlen, Vector.length_toList]
  rw [getWwPassById_zero hzero hle, hlen]
  rfl

/-- **What is written** with the default password. -/
theorem bytesAt_withDefaultPass (mix : UInt8 → UInt8 → UInt8 → UInt8) (key : Vector UInt8 32)
    (hn : 0 < n) (hin : inp + n ≤ mem.length) (hout : out + n ≤ mem.length)
    (happ : SameOrApart inp out n) :
    ∃ mem', withDefaultPass (ww mix) gWwKeys key mem (some inp) n (some out) = some (0, mem') ∧
      bytesAt mem' out n = (bytesAt mem inp n).mapIdx (mixAt mix defaultKey 32) := by
  have hkey : defaultKey.length = 32 := by decide
  have hlen : 32 ≤ (defaultKey ++ key.toList.drop 32).length := by
    rw [List.length_append, hkey]
    exact Nat.le_add_right _ _
  obtain ⟨mem', hrun, -, hmem'⟩ := wwLoop_spec mix (i := 0) (by decide) hlen happ
    (Nat.zero_add n) hin hout
  have hcheck : ¬ (n ≤ 0 ∨ 32 ≤ 2) := by omega
  refine ⟨mem', ?_, ?_⟩
  · rw [withDefaultPass, getWwPassById_gWwKeys]
    show (if n ≤ 0 ∨ 32 ≤ 2 then _ else _) = _
    rw [if_neg hcheck, hrun]
    rfl
  · refine List.ext_getElem? fun j => ?_
    rw [getElem?_bytesAt, List.getElem?_mapIdx, getElem?_bytesAt]
    split
    · rw [hmem', if_pos (by omega), Nat.add_sub_cancel_left,
        ← mixAt_take mix (defaultKey ++ key.toList.drop 32) (by decide),
        List.take_left' hkey]
    · rfl

/-- **Deciphering** gives the text again. -/
theorem mapIdx_enciphered (t : Text) :
    (enciphered t).mapIdx (mixAt (fun c front back => (c ^^^ back) - front) defaultKey 32) = t := by
  refine List.ext_getElem? fun j => ?_
  have hid : mixAt (fun c front back => (c ^^^ back) - front) defaultKey 32 j ∘
      mixAt (fun c front back => (c + front) ^^^ back) defaultKey 32 j = id := by
    funext c
    exact decrypt_encrypt_byte c _ _
  rw [enciphered, List.getElem?_mapIdx, List.getElem?_mapIdx, Option.map_map, hid,
    Option.map_id_fun, id]

theorem length_enciphered (t : Text) : (enciphered t).length = t.length := List.length_mapIdx

theorem encryptedData_eq (w : World) (hpos : t ≠ []) (hlen : t.length ≤ 512) :
    encryptedData w t = .ok (some (enciphered t)) := by
  have hsize : (t ++ w.encryptBuf.toList).length = t.length + 512 := by
    rw [List.length_append, Vector.length_toList]
  have hin : 0 + t.length ≤ (t ++ w.encryptBuf.toList).length := by omega
  have hout : t.length + t.length ≤ (t ++ w.encryptBuf.toList).length := by omega
  obtain ⟨mem, hrun, hmem⟩ := bytesAt_withDefaultPass (fun c front back => (c + front) ^^^ back)
    w.key (List.length_pos_of_ne_nil hpos) hin hout (.inr (.inl (by omega)))
  have hfront : bytesAt (t ++ w.encryptBuf.toList) 0 t.length = t := by
    rw [bytesAt, List.drop_zero, List.take_left]
  have henc : encryptWithDefaultPass gWwKeys w.key (t ++ w.encryptBuf.toList) (some 0) t.length
      (some t.length) = some (0, mem) := hrun
  rw [encryptedData, henc]
  dsimp only
  rw [if_pos rfl, hmem, hfront]
  rfl

end Cipher

/-! ## Asking -/

/-- The request to a server. -/
def asked (el : Element) (hwinfo host : Text) : HttpRequest :=
  ((xiaocilangBorn (lit "POST") el.url).xiaocilangWantData
    (some (enciphered hwinfo))).xiaocilangWantHousite host true

/-- A server that has no address or to which there is no connection. -/
def Unreachable (w : World) (host : Text) : Prop :=
  w.resolves host = true →
    ¬ ((w.check host).socket = true ∧ (List.range 4).any (w.check host).connect = true)

/-- What the first server that is reached sends back. -/
def FirstReply (el : Element) (hwinfo : Text) (w : World) (r : Text) : Prop :=
  ∃ before host after server, el.servers = before ++ host :: after ∧
    (∀ h ∈ before, Unreachable w h) ∧ w.resolves host = true ∧
    w.check host = .answering server ∧
    r = server ((asked el hwinfo host).wholeText ++ enciphered hwinfo)

/-- The answer that the client gets from it. -/
def Announces (el : Element) (hwinfo : Text) (w : World) (answer : Text) : Prop :=
  ∃ r p d, FirstReply el hwinfo w r ∧ r.length < defRespSize ∧ Finds r p d ∧
    r.drop d = enciphered answer

section Asking

variable {el : Element} {hwinfo answer r : Text} {w : World} {p d : ℕ}

/-- The request, whichever server was asked before. -/
theorem asked_asked (el : Element) (hwinfo host host' : Text) :
    (asked el hwinfo host).xiaocilangWantHousite host' true = asked el hwinfo host' := by
  simp only [asked, HttpRequest.xiaocilangWantHousite, if_true,
    HttpRequest.xiaocilangWantNaodai, wantNaodai_wantNaodai]

theorem askServers_of_reply (req : HttpRequest) (after : List Text) {before : List Text}
    {host : Text} {server : Text → Text}
    (hreq : ∀ h, req.xiaocilangWantHousite h true = asked el hwinfo h)
    (hfits : ∀ h ∈ before ++ [host], (asked el hwinfo h).wholeText.length < defReqSize)
    (hbefore : ∀ h ∈ before, Unreachable w h) (hresolves : w.resolves host = true)
    (hcheck : w.check host = .answering server)
    (hr : r = server ((asked el hwinfo host).wholeText ++ enciphered hwinfo))
    (hlen : r.length < defRespSize) (hfinds : Finds r p d) :
    ∃ resp : HttpResponse, askServers w req (before ++ host :: after) =
      .ok (some { asked el hwinfo host with resp := resp.found r p d }) := by
  induction before generalizing req with
  | nil =>
    have hexchange := HttpRequest.exchange_answering server
      (hfits host List.mem_cons_self)
    have hdata : (asked el hwinfo host).data = enciphered hwinfo := rfl
    obtain ⟨hpd, hd, -⟩ := hfinds.bounds
    have hne : r ≠ [] := by
      rintro rfl
      rw [List.length_nil] at hd
      omega
    rw [hdata, ← hr, if_neg hne, List.take_of_length_le hlen.le] at hexchange
    have hgo := gogogo_of_finds hexchange hlen hfinds
    have hres : (0 : ℤ) ≤ (r.length : ℤ) - d := by omega
    refine ⟨(asked el hwinfo host).resp, ?_⟩
    rw [List.nil_append, askServers, if_pos hresolves, hreq, hcheck]
    refine bind_eq_ok.mpr ⟨_, hgo, ?_⟩
    exact if_pos hres
  | cons h before ih =>
    have hfits' : ∀ h ∈ before ++ [host], (asked el hwinfo h).wholeText.length < defReqSize :=
      fun h hh => hfits h (List.mem_cons_of_mem _ hh)
    have hbefore' : ∀ h ∈ before, Unreachable w h := fun h hh =>
      hbefore h (List.mem_cons_of_mem _ hh)
    rw [List.cons_append, askServers]
    by_cases hname : w.resolves h = true
    · have hnone := HttpRequest.exchange_of_not_connected
        (hfits h List.mem_cons_self) (hbefore h List.mem_cons_self hname)
      obtain ⟨resp, hrest⟩ := ih _ (asked_asked el hwinfo h) hfits' hbefore'
      refine ⟨resp, ?_⟩
      rw [if_pos hname, hreq]
      have hneg : ¬ (0 : ℤ) ≤ -1 := by decide
      exact bind_eq_ok.mpr ⟨_, gogogo_of_none hnone, (if_neg hneg).trans hrest⟩
    · rw [if_neg hname]
      exact ih req hreq hfits' hbefore'

/-- The data of a response, deciphered in its place. -/
theorem giveDecrypted_found (w : World) (resp : HttpResponse) (hlen : r.length < defRespSize)
    (hfinds : Finds r p d) (hanswer : answer ≠ []) (hdata : r.drop d = enciphered answer) :
    (resp.found r p d).giveDecrypted w = .ok (some answer) := by
  obtain ⟨-, hd, -⟩ := hfinds.bounds
  have hlength : r.length - d = answer.length := by
    rw [← List.length_drop, hdata, length_enciphered]
  have hdlen : (resp.found r p d).dlen.toNat = answer.length := by
    show ((r.length : ℤ) - d).toNat = _
    omega
  have hbuf : (resp.found r p d).buf.toList =
      r ++ 0 :: resp.buf.toList.drop (r.length + 1) := toList_receive resp hlen
  have hpos : 0 < answer.length := List.length_pos_of_ne_nil hanswer
  have hin : d + answer.length ≤ (resp.found r p d).buf.toList.length := by
    rw [hbuf, List.length_append]
    omega
  obtain ⟨mem, hrun, hmem⟩ := bytesAt_withDefaultPass (fun c front back => (c ^^^ back) - front)
    w.key hpos hin hin (.inl rfl)
  have hplace : bytesAt (resp.found r p d).buf.toList d answer.length = enciphered answer := by
    rw [hbuf, bytesAt, List.drop_append_of_le_length hd, hdata, ← length_enciphered,
      List.take_left]
  rw [hplace, mapIdx_enciphered] at hmem
  have hdec : decryptWithDefaultPass gWwKeys w.key (resp.found r p d).buf.toList (some d)
      answer.length (some d) = some (0, mem) := hrun
  have hvalid : (resp.found r p d).valid = true := rfl
  have hsome : (resp.found r p d).data = some d := rfl
  rw [HttpResponse.giveDecrypted, if_pos hvalid, hsome, hdlen]
  dsimp only
  rw [hdec]
  dsimp only
  rw [if_pos rfl, hmem]
  rfl

/-- **The answer**, whatever servers are passed over. -/
theorem askPackage_of_announces (hhw : hwinfo ≠ []) (hhwlen : hwinfo.length ≤ 512)
    (hfits : ∀ h ∈ el.servers, (asked el hwinfo h).wholeText.length < defReqSize)
    (hanswer : answer ≠ []) (h : Announces el hwinfo w answer) :
    askPackage el hwinfo w = .ok (some answer) := by
  obtain ⟨r, p, d, ⟨before, host, after, server, hservers, hbefore, hresolves, hcheck, hr⟩, hlen,
    hfinds, hdata⟩ := h
  have hfits' : ∀ h ∈ before ++ [host], (asked el hwinfo h).wholeText.length < defReqSize := by
    intro h hh
    refine hfits h ?_
    rw [hservers]
    rw [List.mem_append, List.mem_singleton] at hh
    rw [List.mem_append, List.mem_cons]
    exact hh.imp_right Or.inl
  obtain ⟨resp, hasked⟩ := askServers_of_reply
    ((xiaocilangBorn (lit "POST") el.url).xiaocilangWantData (some (enciphered hwinfo))) after
    (fun _ => rfl) hfits' hbefore hresolves hcheck hr hlen hfinds
  rw [askPackage, encryptedData_eq w hhw hhwlen, hservers]
  refine bind_eq_ok.mpr ⟨_, rfl, bind_eq_ok.mpr ⟨_, hasked, ?_⟩⟩
  exact giveDecrypted_found w resp hlen hfinds hanswer hdata

end Asking

/-! ## Digests in hexadecimal -/

section Hex

variable {l : Text} {c : UInt8}

/-- The digits. -/
def isLowerHex (c : UInt8) : Bool := isdigit c || (decide (97 ≤ c) && decide (c ≤ 102))

theorem isLowerHex_of_mem_hexText {b : UInt8} (h : c ∈ hexText b) : isLowerHex c = true := by
  have hall : ∀ n : Fin 256, (hexText (UInt8.ofNat n)).all isLowerHex = true := by decide +kernel
  have hb := hall ⟨b.toNat, b.toNat_lt⟩
  rw [UInt8.ofNat_toNat] at hb
  exact List.all_eq_true.mp hb c h

theorem length_flatMap_hexText (l : Text) : (l.flatMap hexText).length = 2 * l.length := by
  induction l with
  | nil => rfl
  | cons b l ih =>
    have htwo : (hexText b).length = 2 := rfl
    rw [List.flatMap_cons, List.length_append, htwo, ih, List.length_cons]
    omega

/-- **A digest is a name** for a file. -/
theorem baseName_flatMap_hexText (hl : l ≠ []) : BaseName (l.flatMap hexText) := by
  have hchars : ∀ c ∈ l.flatMap hexText, isLowerHex c = true := by
    intro c hc
    obtain ⟨b, -, hb⟩ := List.mem_flatMap.mp hc
    exact isLowerHex_of_mem_hexText hb
  have hhead : ∀ c, isLowerHex c = false → (l.flatMap hexText).head? ≠ some c := by
    intro c hc h
    rw [hchars c (List.mem_of_mem_head? h)] at hc
    exact Bool.noConfusion hc
  refine ⟨fun hnil => ?_, fun c hc => ?_, hhead 45 (by decide), hhead 46 (by decide)⟩
  · have hlen := length_flatMap_hexText l
    rw [hnil, List.length_nil] at hlen
    have hpos := List.length_pos_of_ne_nil hl
    omega
  · have hhex := hchars c hc
    simp only [isLowerHex, Bool.or_eq_true, Bool.and_eq_true, decide_eq_true_eq] at hhex
    simp only [isNameChar, Bool.or_eq_true, Bool.and_eq_true, decide_eq_true_eq]
    rcases hhex with hdigit | ⟨hlower, hupper⟩
    · exact Or.inl (Or.inl (Or.inl (Or.inl (Or.inl hdigit))))
    · have hz : (102 : UInt8) ≤ 122 := by decide
      exact Or.inl (Or.inl (Or.inl (Or.inr ⟨hlower, UInt8.le_trans hupper hz⟩)))

end Hex

/-! ## Releases -/

/-- What is packed, where it is to be had, and what else is in the answer that names it. -/
structure Release where
  content : List (List Content)
  host : Text
  path : Text
  more : Text

namespace Release

def file (o : Release) : Text := packGenerate o.content

/-- The digest, which is the name of the saved file. -/
def md5 (o : Release) : Text := (Ltm.md5 o.file).flatMap hexText

def url (o : Release) : Text := lit "http://" ++ o.host ++ o.path

/-- The answer that names it. -/
def answer (o : Release) : Text := o.url ++ 32 :: (o.md5 ++ 59 :: o.more)

/-- A release that can be delivered: it is one piece, and its address fits everywhere. -/
structure Proper (o : Release) : Prop where
  host_le : o.host.length ≤ 63
  slash_notMem : 47 ∉ o.host
  head_path : o.path.head? = some 47
  chars : ∀ c ∈ o.url, c ≠ 0 ∧ c ≠ 32 ∧ c ≠ 59
  short : o.host.length + o.url.length < 240
  file_le : o.file.length ≤ downloadPieceSize
  packable : Packable o.md5 o.content.flatten

end Release

section Answer

variable {o : Release} {old : Option Text} {md5file : Option Text}

theorem baseName_md5 (o : Release) : BaseName o.md5 := by
  refine baseName_flatMap_hexText fun h => ?_
  have hlen := length_md5 o.file
  rw [h] at hlen
  exact absurd hlen (by decide)

theorem length_release_md5 (o : Release) : o.md5.length = md5StrLength := by
  rw [Release.md5, length_flatMap_hexText, length_md5]

theorem answerTokens_answer (ho : o.Proper) : answerTokens o.answer = [o.url, o.md5] := by
  have hname := baseName_md5 o
  have hurl : o.url ≠ [] := by
    rw [Release.url, List.append_assoc]
    exact List.append_ne_nil_of_left_ne_nil (by decide) _
  have hline : (59 : UInt8) ∉ o.url ++ 32 :: o.md5 := by
    rw [List.mem_append, List.mem_cons]
    rintro (h | h | h)
    · exact (ho.chars 59 h).2.2 rfl
    · exact absurd h (by decide)
    · exact hname.notMem (by decide) h
  have hsplit : o.answer = (o.url ++ 32 :: o.md5) ++ 59 :: o.more := by
    rw [Release.answer, List.append_assoc]
    rfl
  rw [answerTokens, hsplit, cutLine_of_append hline]
  show tokens 32 (o.url ++ 32 :: o.md5) = _
  rw [tokens_append_cons hurl fun h => (ho.chars 32 h).2.1 rfl,
    tokens_of_notMem hname.ne_nil (hname.notMem (by decide))]

theorem shown_url (ho : o.Proper) : shown o.url = o.url := by
  have hshort := ho.short
  exact shown_eq (fun c hc => (ho.chars c hc).1) (by omega)

/-- Where the scheme and the host of the URL end. -/
theorem host_of_url (ho : o.Proper) : strstr o.url 0 (lit "http://") = some 0 ∧
    (o.url.drop 7).idxOf? 47 = some o.host.length := by
  have hshown := shown_url ho
  have hcstr : cstr o.url = o.url := by
    rw [← hshown, cstr_shown]
  constructor
  · have hsplit : cstr (o.url.drop 0) = [] ++ lit "http://" ++ (o.host ++ o.path) := by
      rw [List.drop_zero, hcstr, Release.url, List.append_assoc]
      rfl
    obtain ⟨i, hi, hle⟩ := exists_strstr hsplit
    obtain rfl : i = 0 := Nat.le_zero.mp hle
    exact hi
  · obtain ⟨rest, hpath⟩ := List.head?_eq_some_iff.mp ho.head_path
    have hdrop : o.url.drop 7 = o.host ++ 47 :: rest := by
      rw [Release.url, List.append_assoc, hpath]
      rfl
    rw [hdrop, idxOf?_first ho.slash_notMem]

theorem strncpy_md5 (o : Release) : strncpy o.md5 md5StrLength = o.md5 := by
  rw [strncpy, (baseName_md5 o).cstr_eq, length_release_md5, Nat.sub_self,
    List.take_of_length_le (length_release_md5 o).le]
  exact List.append_nil _

/-- **The answer passes**, unless the release is the one recorded. -/
theorem passes_answer (ho : o.Proper) (hnew : old ≠ some o.md5) :
    Passes old o.answer o.url o.md5 := by
  obtain ⟨hfound, hslash⟩ := host_of_url ho
  have hshown := shown_url ho
  refine ⟨?_, answerTokens_answer ho, length_release_md5 o, ⟨0, ?_, o.host.length, ?_, ho.host_le⟩,
    ?_⟩
  · have hlen := length_release_md5 o
    rw [Release.answer, List.length_append, List.length_cons, List.length_append]
    omega
  · rw [hshown, hfound]
  · rw [hshown]
    exact hslash
  · rw [strncpy_md5]
    exact hnew

/-- **What is asked for** then. -/
theorem downloadCheck_answer (ho : o.Proper) (hnew : downloadGetOldmd5 md5file ≠ some o.md5) :
    ∃ ipk, downloadCheck md5file (some o.answer) .zero = (true, ipk) ∧
      cstr ipk.host.toList = o.host ∧ cstr ipk.url.toList = o.url ∧
      cstr ipk.md5.toList = o.md5 ∧ ipk.md5.toList.take md5StrLength = o.md5 ∧
      ∃ start, ipk.pathStart = some start ∧ cstr (ipk.url.toList.drop start) = o.path := by
  obtain ⟨hfound, hslash⟩ := host_of_url ho
  have hshown := shown_url ho
  obtain ⟨ipk, found, i, hcheck, hfound', hslash', -, hstart, hurl, hhost, hmd5⟩ :=
    (passes_answer ho hnew).downloadCheck
  rw [hshown] at hfound' hslash' hhost
  obtain rfl := Option.some.inj (hfound'.symm.trans hfound)
  obtain rfl := Option.some.inj (hslash'.symm.trans hslash)
  have hcurl : cstr ipk.url.toList = o.url := by rw [hurl, cstr_copied_url, hshown]
  have hseven : (lit "http://").length = 7 := by decide
  have hbehind : o.url.drop 7 = o.host ++ o.path := by
    rw [Release.url, List.append_assoc, List.drop_left' hseven]
  have hcmd5 : cstr ipk.md5.toList = o.md5 := hmd5.trans (baseName_md5 o).cstr_eq
  refine ⟨ipk, hcheck, ?_, hcurl, hcmd5, ?_, _, hstart, ?_⟩
  · rw [hhost, Nat.zero_add, hbehind, List.take_left]
  · have hprefix : o.md5 <+: ipk.md5.toList := by
      rw [← hcmd5]
      exact List.takeWhile_prefix _
    rw [← length_release_md5 o]
    exact (List.prefix_iff_eq_take.mp hprefix).symm
  · have hinside : 0 + 7 + o.host.length ≤ (cstr ipk.url.toList).length := by
      rw [hcurl, Release.url, List.length_append, List.length_append, hseven]
      omega
    rw [cstr_drop hinside, hcurl, ← List.drop_drop, Nat.zero_add, hbehind, List.drop_left]

/-- An answer that names what is recorded. -/
theorem downloadCheck_recorded (ho : o.Proper) (hold : downloadGetOldmd5 md5file = some o.md5) :
    (downloadCheck md5file (some o.answer) .zero).1 = false := by
  rw [← Bool.not_eq_true, downloadCheck_fst_iff]
  rintro ⟨url, md5, hpasses⟩
  obtain ⟨-, rfl⟩ := answerTokens_inj (answerTokens_answer ho) hpasses.tokens
  refine hpasses.changed ?_
  rw [hold, strncpy_md5]

end Answer

/-! ## The delivery -/

/-- What is needed besides an answer: the host of the release serves the file, and the system lets
the process do its work. -/
structure Delivers (w : World) (o : Release) (server : ℕ → Text → Text) : Prop where
  malloc : w.malloc = true
  fopen : w.fopen = true
  resolves : w.resolves o.host = true
  net : w.net = fun i => .answering (server i)
  serves : Serves server o.host o.path o.file
  head : readReply (server 0 (headRequest o.host o.path).wholeText) ≠ none
  get : readReply (reply server o.host o.path o.file.length 0) ≠ none
  allows : Allows w.answers (o.content.flatten.map Prod.fst)
  record : ∃ n ≥ md5StrLength, w.record = some n

/-- What a delivery leaves: the scripts have run on the files of the release, and it is recorded. -/
structure Delivered (el : Element) (w : World) (o : Release) (disk : Disk) (t : Turned) :
    Prop where
  res : t.res = some 0
  announced : ∃ ipk, t.announced = some ipk ∧ cstr ipk.md5.toList = o.md5
  unpacked : t.unpacked = some o.file
  opened : t.opened = o.content.flatten.map fun file => el.cwd ++ [file.1]
  recorded : el.recorded t.disk = some o.md5
  scripts : ∃ r, Extracted el.cwd o.content.flatten
      (Function.update disk (el.cwd ++ [o.md5]) (some o.file)) r ∧
    t.disk = Function.update (rmAll w.shell el.cwd (w.scripts r.disk)) el.record (some o.md5)

section Delivery

variable {el : Element} {hwinfo : Text} {w : World} {disk : Disk} {o : Release}
  {server : ℕ → Text → Text} {ipk : PackageInfo}

theorem path_md5 (el : Element) (o : Release) : el.path o.md5 = el.cwd ++ [o.md5] :=
  Paths.resolve_of_simple (baseName_md5 o).simple

theorem file_ne_nil (o : Release) : 1 ≤ o.file.length := by
  have hmagic : magic.length = 4 := rfl
  rw [Release.file, packGenerate_eq, List.append_assoc, List.append_assoc, List.length_append,
    hmagic]
  omega

/-- **The file is fetched.** -/
theorem fetch_delivers (ho : o.Proper) (hw : Delivers w o server)
    (hhost : cstr ipk.host.toList = o.host) (hurl : cstr ipk.url.toList = o.url)
    (hmd5 : cstr ipk.md5.toList = o.md5) (htake : ipk.md5.toList.take md5StrLength = o.md5)
    {start : ℕ} (hstart : ipk.pathStart = some start)
    (hpath : cstr (ipk.url.toList.drop start) = o.path) :
    fetch el false w disk ipk.ctx =
      .ok (true, Function.update disk (el.cwd ++ [o.md5]) (some o.file)) := by
  have hshort := ho.short
  have hgoes : ipk.ctx.GoesOn := by
    rw [goesOn_iff, hhost, hurl]
    exact hshort
  have hctx : ipk.ctx.pathShadow = some (ipk.url.toList.drop start) := by
    rw [PackageInfo.ctx, downloadCtxSet, hstart]
    rfl
  have hsavename : cstr ipk.ctx.save = o.md5 := hmd5
  have hhostname : cstr ipk.ctx.host = o.host := hhost
  have hmd5name : ipk.ctx.md5.take md5StrLength = o.md5 := htake
  have hpathlen : o.path.length ≤ 255 := by
    have hle : o.path.length ≤ o.url.length := by
      rw [Release.url, List.length_append]
      omega
    omega
  have hfile := ho.file_le
  have hpiece : downloadPieceSize = 3072 := rfl
  have hrun : ipk.ctx.runSocket (w.outside el disk (cstr ipk.ctx.host)) =
      .ok (true, some o.file) := by
    rw [DownloadCtx.runSocket, hctx]
    dsimp only [World.outside]
    rw [hhostname, hpath, hw.fopen, hw.resolves, hw.net]
    exact download_of_reads hw.serves ho.host_le hpathlen (file_ne_nil o) (by omega) hfile
      hw.head hw.get
  have hsavelen : (cstr ipk.ctx.save).length < 250 := by
    rw [hsavename, length_release_md5]
    decide
  obtain ⟨hhostlen, hurllen, hhostle, hurlle, -⟩ := ctx_lengths ipk
  have hran : downloadCtxRun (w.outside el disk (cstr ipk.ctx.host)) ipk.ctx false =
      .ok ⟨true, []⟩ := by
    rw [downloadCtxRun, if_neg (by omega), if_neg (not_not.mpr hgoes), if_pos (by decide)]
    refine bind_eq_ok.mpr ⟨_, hrun, ?_⟩
    dsimp only
    rw [checkSaved_of_short _ _ _ hsavelen, hmd5name]
    dsimp only
    rw [Release.md5, if_pos rfl]
  rw [fetch]
  refine bind_eq_ok.mpr ⟨_, hran, ?_⟩
  rw [savedDisk, hrun]
  dsimp only
  rw [if_pos ⟨hgoes, by decide⟩, hsavename, path_md5]
  rfl

/-- **The package is unpacked.** -/
theorem unpack_delivers (el : Element) (disk : Disk) (ho : o.Proper) (hw : Delivers w o server) :
    ∃ r, installUnpackFile w.answers ⟨el.cwd, o.md5⟩
        (Function.update disk (el.cwd ++ [o.md5]) (some o.file)) = .ok r ∧
      Extracted el.cwd o.content.flatten
        (Function.update disk (el.cwd ++ [o.md5]) (some o.file)) r := by
  have hpackage : Place.path ⟨el.cwd, o.md5⟩ o.md5 = el.cwd ++ [o.md5] :=
    Paths.resolve_of_simple (baseName_md5 o).simple
  have hpath (file : Content) (hmem : file ∈ o.content.flatten) :
      Place.path ⟨el.cwd, o.md5⟩ file.1 = el.cwd ++ [file.1] :=
    Paths.resolve_of_simple (ho.packable.name file hmem).simple
  refine unpackWith_packGenerate (fun name => name) hw.allows.malloc hw.allows.fwrite
    (fun file hmem => ?_) hpath ho.packable.distinct ho.packable.list_le ?_
  · refine ⟨ho.packable.name file hmem, ho.packable.length_lt file hmem, rfl, fun i => ?_, ?_⟩
    · exact hw.allows.fopen i _ (List.mem_map_of_mem hmem)
    · rw [hpath file hmem, hpackage]
      intro heq
      exact ho.packable.ne_archive file hmem (List.cons.inj (List.append_cancel_left heq)).1
  · rw [hpackage]
    exact Function.update_self ..

/-- An answer that names what is recorded is of no effect. -/
theorem engineTurn_recorded {wget : Bool} (ho : o.Proper)
    (hask : askPackage el hwinfo w = .ok (some o.answer))
    (hrecorded : el.recorded disk = some o.md5) :
    engineTurn el hwinfo wget w disk = .ok ⟨disk, none, none, [], none⟩ := by
  have hcheck := downloadCheck_recorded ho hrecorded
  rw [engineTurn, hask]
  refine bind_eq_ok.mpr ⟨_, rfl, ?_⟩
  cases hpair : downloadCheck (disk el.record) (some o.answer) .zero with
  | mk ok ipk =>
    rw [hpair] at hcheck
    cases ok with
    | true => exact Bool.noConfusion hcheck
    | false => rfl

/-- **A turn that delivers.** -/
theorem turn_delivers (ho : o.Proper) (hw : Delivers w o server)
    (hask : askPackage el hwinfo w = .ok (some o.answer)) (hnew : el.recorded disk ≠ some o.md5) :
    ∃ t, engineTurn el hwinfo false w disk = .ok t ∧ Delivered el w o disk t := by
  obtain ⟨ipk, hcheck, hhost, hurl, hmd5, htake, start, hstart, hpath⟩ :=
    downloadCheck_answer ho hnew
  have hfetch : fetch el false w disk ipk.ctx = _ :=
    fetch_delivers ho hw hhost hurl hmd5 htake hstart hpath
  obtain ⟨r, hr, hextracted⟩ := unpack_delivers el disk ho hw
  have hname : el.path o.md5 = el.cwd ++ [o.md5] := path_md5 el o
  have hturn : engineTurn el hwinfo false w disk = .ok ⟨downloadSetMd5 el w ipk
      (rmAll w.shell el.cwd (w.scripts r.disk)), some ipk, some o.file, r.opened, some r.res⟩ := by
    rw [engineTurn, hask]
    refine bind_eq_ok.mpr ⟨_, rfl, ?_⟩
    rw [hcheck]
    dsimp only
    rw [if_pos hw.malloc, hfetch, hmd5]
    refine bind_eq_ok.mpr ⟨_, rfl, ?_⟩
    dsimp only
    rw [if_pos rfl, hr, hname, Function.update_self]
    refine bind_eq_ok.mpr ⟨_, rfl, ?_⟩
    rw [if_pos hextracted.res]
    rfl
  obtain ⟨n, hn, hrecord⟩ := hw.record
  have hset : downloadSetMd5 el w ipk (rmAll w.shell el.cwd (w.scripts r.disk)) =
      Function.update (rmAll w.shell el.cwd (w.scripts r.disk)) el.record (some o.md5) := by
    have hlen := length_release_md5 o
    rw [downloadSetMd5, hrecord]
    dsimp only
    rw [htake, List.take_of_length_le (by omega)]
  rw [hset] at hturn
  have hrecorded : el.recorded (Function.update (rmAll w.shell el.cwd (w.scripts r.disk)) el.record
      (some o.md5)) = some o.md5 := by
    have hlen := length_release_md5 o
    rw [Element.recorded, Function.update_self, downloadGetOldmd5, if_pos hlen.ge,
      List.take_of_length_le hlen.le]
  exact ⟨_, hturn, congrArg some hextracted.res, ⟨ipk, rfl, hmd5⟩, rfl, hextracted.opened,
    hrecorded, r, hextracted, rfl⟩

/-- **A release that is announced is delivered** in one turn, and its scripts find its files; and no
turn with the same answer does anything more, whichever server it comes from. -/
theorem engineTurn_delivers (el : Element) (hwinfo : Text) (w : World) (disk : Disk) (o : Release)
    (server : ℕ → Text → Text) (hhw : hwinfo ≠ []) (hhwlen : hwinfo.length ≤ 512)
    (hfits : ∀ h ∈ el.servers, (asked el hwinfo h).wholeText.length < defReqSize)
    (ho : o.Proper) (hw : Delivers w o server) (hannounces : Announces el hwinfo w o.answer)
    (hnew : el.recorded disk ≠ some o.md5) :
    ∃ t, engineTurn el hwinfo false w disk = .ok t ∧ Delivered el w o disk t ∧
      ∀ wget w', Announces el hwinfo w' o.answer →
        engineTurn el hwinfo wget w' t.disk = .ok ⟨t.disk, none, none, [], none⟩ := by
  have hanswer : o.answer ≠ [] := List.append_ne_nil_of_right_ne_nil _ (List.cons_ne_nil _ _)
  have hask (w' : World) (h : Announces el hwinfo w' o.answer) :
      askPackage el hwinfo w' = .ok (some o.answer) :=
    askPackage_of_announces hhw hhwlen hfits hanswer h
  obtain ⟨t, ht, hdelivered⟩ := turn_delivers ho hw (hask w hannounces) hnew
  refine ⟨t, ht, hdelivered, fun wget w' h => ?_⟩
  exact engineTurn_recorded ho (hask w' h) hdelivered.recorded

end Delivery

/-! ## A file of two bytes -/

/-- A server with a file. -/
def fileServer (header file : Text) (call : ℕ) (_ : Text) : Text :=
  if call = 0 then header else header ++ file

theorem serves_fileServer {header file : Text}
    (hhead : readReply header = some ((file.length : ℤ), []))
    (hget : readReply (header ++ file) = some ((file.length : ℤ), file)) (hpos : 1 ≤ file.length)
    (hshort : file.length ≤ downloadPieceSize) (host url : Text) :
    Serves (fileServer header file) host url file := by
  have hzero (k : ℕ) (hk : downloadPieceSize * k < file.length) : k = 0 := by
    simp only [downloadPieceSize] at hk hshort
    omega
  constructor
  · intro n body hread
    obtain ⟨rfl, rfl⟩ := Prod.mk.inj (Option.some.inj (hhead.symm.trans hread))
    exact ⟨rfl, rfl⟩
  · intro k hk n body hread
    obtain rfl := hzero k hk
    obtain ⟨rfl, rfl⟩ := Prod.mk.inj (Option.some.inj (hget.symm.trans hread))
    refine ⟨rfl, ?_⟩
    rw [Nat.mul_zero, Nat.zero_add, min_eq_right hshort, rangeOf_all hpos]
  · intro k hk hread
    exact hzero k hk ▸ hread

/-- A release of one file. -/
def hiRelease : Release := ⟨[[(lit "a", lit "hi")]], lit "h", lit "/f", []⟩

/-- An engine with two servers. -/
def hiElement : Element := ⟨lit "/rec", [lit "down", lit "up"], lit "/q", 60, [lit "tmp"]⟩

/-- The header of the file. -/
def hiHeader : Text := headerFor "14"

/-- One of the servers is up and names the release, and its host has it. -/
def hiWorld : World where
  resolves _ := true
  check host := if host = lit "up" then .answering fun _ => hiHeader ++ enciphered hiRelease.answer
    else ⟨false, fun _ => false, fun _ => 0, fun _ => none⟩
  malloc := true
  fopen := true
  net call := .answering (fileServer hiHeader hiRelease.file call)
  system _ disk := disk
  answers := allowing
  scripts disk := disk
  shell := plainShell
  record := some 32
  encryptBuf := Vector.replicate 512 0
  key := Vector.replicate 32 0
  digest := []
  context := ⟨md5Start, 0, 0, Vector.replicate 64 0⟩

theorem length_hiFile : hiRelease.file.length = 14 := by decide +kernel

theorem readReply_hiHeader : readReply hiHeader = some (14, []) := by decide +kernel

theorem proper_hiRelease : hiRelease.Proper where
  host_le := by decide
  slash_notMem := by decide
  head_path := by decide
  chars := by decide +kernel
  short := by decide
  file_le := by
    rw [length_hiFile]
    decide
  packable := by
    refine ⟨by decide, fun file hfile heq => ?_, by decide, by decide, by decide, by decide⟩
    have hname : ∀ file ∈ hiRelease.content.flatten, file.1.length = 1 := by decide
    have hlen := hname file hfile
    rw [heq, length_release_md5] at hlen
    exact absurd hlen (by decide)

theorem delivers_hiWorld : Delivers hiWorld hiRelease (fileServer hiHeader hiRelease.file) := by
  have hlen := length_hiFile
  have hhead : readReply hiHeader = some ((hiRelease.file.length : ℤ), []) := by
    rw [hlen]
    exact readReply_hiHeader
  have hfits : (hiHeader ++ hiRelease.file).length < defRespSize := by decide +kernel
  have hget := readReply_append hhead hfits
  refine ⟨rfl, rfl, rfl, rfl, serves_fileServer hhead hget (by omega) proper_hiRelease.file_le _ _,
    ?_, ?_, ⟨rfl, fun _ _ _ => rfl, fun _ _ => rfl⟩, 32, le_rfl, rfl⟩
  · exact Option.ne_none_iff_exists'.mpr ⟨_, hhead⟩
  · exact Option.ne_none_iff_exists'.mpr ⟨_, hget⟩

theorem announces_hiWorld (hwinfo : Text) :
    Announces hiElement hwinfo hiWorld hiRelease.answer := by
  obtain ⟨hshort, p, d, hfinds⟩ := exists_finds_of_readReply readReply_hiHeader
  obtain ⟨-, hd, -⟩ := hfinds.bounds
  have hnil := eq_drop_of_readReply hshort hfinds readReply_hiHeader
  have hend : hiHeader.length = d := Nat.le_antisymm (List.drop_eq_nil_iff.mp hnil.symm) hd
  have hheader : hiHeader.length = 48 := by decide +kernel
  have hurl : hiRelease.url.length = 10 := by decide
  have hlength : (hiHeader ++ enciphered hiRelease.answer).length < defRespSize := by
    rw [List.length_append, length_enciphered, hheader, Release.answer, List.length_append,
      List.length_cons, List.length_append, length_release_md5, hurl]
    decide
  have hcheck : hiWorld.check (lit "up") =
      .answering fun _ => hiHeader ++ enciphered hiRelease.answer := by
    dsimp only [hiWorld]
    rw [if_pos rfl]
  refine ⟨hiHeader ++ enciphered hiRelease.answer, p, d, ⟨[lit "down"], lit "up", [], _, rfl, ?_,
    rfl, hcheck, rfl⟩, hlength, hfinds.append _, List.drop_left' hend⟩
  intro h hh _ hconnected
  obtain rfl := List.mem_singleton.mp hh
  exact absurd hconnected.1 (by decide)

theorem asked_hiElement_fits (hwinfo : Text) (hlen : hwinfo = lit "x") :
    ∀ h ∈ hiElement.servers, (asked hiElement hwinfo h).wholeText.length < defReqSize := by
  subst hlen
  decide +kernel

theorem askPackage_hiWorld :
    askPackage hiElement (lit "x") hiWorld = .ok (some hiRelease.answer) :=
  askPackage_of_announces (by decide) (by decide) (asked_hiElement_fits _ rfl)
    (List.append_ne_nil_of_right_ne_nil _ (List.cons_ne_nil _ _)) (announces_hiWorld _)

theorem turn_hiWorld : ∃ t, engineTurn hiElement (lit "x") false hiWorld (fun _ => none) = .ok t ∧
    Delivered hiElement hiWorld hiRelease (fun _ => none) t :=
  turn_delivers proper_hiRelease delivers_hiWorld askPackage_hiWorld (Option.some_ne_none _).symm

/-- The file is unpacked, and the release is recorded. -/
theorem engineTurn_delivers_hi :
    ∃ t, engineTurn hiElement (lit "x") false hiWorld (fun _ => none) = .ok t ∧
      hiElement.recorded t.disk = some hiRelease.md5 ∧ t.opened = [[lit "tmp", lit "a"]] := by
  obtain ⟨t, ht, hdelivered, -⟩ := engineTurn_delivers hiElement (lit "x") hiWorld (fun _ => none)
    hiRelease _ (by decide) (by decide) (asked_hiElement_fits _ rfl) proper_hiRelease
    delivers_hiWorld (announces_hiWorld _) (Option.some_ne_none _).symm
  exact ⟨t, ht, hdelivered.recorded, hdelivered.opened⟩

end Ltm

end Tqos
