import Tqos.Lib.Tokens
import Tqos.Tserver.Failures

/-!
# The fields of an `OPEN_SPP`

The handler brings the gaps it reads into their ranges, but only from above and, when they are
positive, from below. A negative number stays as it is until it is cut to the 16 bits of a message.

The elements of `viparray` are taken as they come. What is no string is printed, `null` is a NULL
pointer, a text of 32 characters does not fit, and one of colons alone has no token. `inet_aton`
takes more than dotted quads, and when it takes nothing the variable keeps what it held.

## Main results

* `sentRight_iff` — which numbers are sent as they should be
* `openSppGaps_iff` — the requests whose four gaps are
* `quadOf_eq_some` — what names an address
* `forall_take_iff` — when the loop over `viparray` has always done what it should
* `openSppServers_iff` — the requests whose servers are added as they should be
-/

namespace Tqos

open Spp (AddrCall)

/-! ## The gaps -/

/-- A gap is 0 or in its range. -/
def GapAllowed (low high v : ℤ) : Prop := v = 0 ∨ low ≤ v ∧ v ≤ high

instance (low high v : ℤ) : Decidable (GapAllowed low high v) := inferInstanceAs (Decidable (_ ∨ _))

/-- The value of a message is allowed, and is the number of the field if that is. -/
def SentRight (jo : Json) (name : String) (low high : ℤ) (v : UInt16) : Prop :=
  GapAllowed low high v.toNat ∧
    ∀ n, jsonObjectObjectGetEx jo name = some (.int n) → GapAllowed low high n → (v.toNat : ℤ) = n

/-- A negative number of the field has 16 lowest bits that are allowed. -/
def NegativeFits (jo : Json) (name : String) (low high : ℤ) : Prop :=
  ∀ n, jsonObjectObjectGetEx jo name = some (.int n) → n < 0 →
    n < -2 ^ 31 ∨ GapAllowed low high (n % 65536)

section Gaps

variable {jo : Json} {name : String} {low high default n : ℤ}

/-- A number that is not negative ends up in its range. -/
theorem gapAllowed_clampGap (hlow : low ≤ high) (hn : 0 ≤ n) :
    GapAllowed low high (clampGap low high n) := by
  rw [GapAllowed, clampGap]
  split_ifs <;> omega

/-- A number that is allowed stays as it is. -/
theorem clampGap_of_allowed (hlow : 0 ≤ low) (hle : low ≤ high) (hn : GapAllowed low high n) :
    clampGap low high n = n := by
  rw [GapAllowed] at hn
  rw [clampGap]
  split_ifs <;> omega

/-- So does a negative one. -/
theorem clampGap_of_neg (hhigh : 0 ≤ high) (hn : n < 0) : clampGap low high n = n := by
  rw [clampGap, if_neg (by omega), if_neg (by omega)]

/-- 16 bits are enough for what is allowed. -/
theorem GapAllowed.emod_eq (hn : GapAllowed low high n) (hlow : 0 ≤ low) (hhigh : high < 65536) :
    n % 65536 = n := by
  rw [GapAllowed] at hn
  omega

/-- A field without a number leads to the default. -/
theorem gapOr_intInv (default : ℤ) : gapOr default intInv = default := if_neg fun h => h rfl

/-- Brought into its range, a number fits into a message. -/
theorem gapAllowed_sent (hlow : 0 ≤ low) (hle : low ≤ high) (hhigh : high < 65536) (hn : 0 ≤ n) :
    GapAllowed low high (UInt16.ofInt (clampGap low high n)).toNat := by
  have hallowed := gapAllowed_clampGap hle hn
  rw [cast_toNat_ofInt, hallowed.emod_eq hlow hhigh]
  exact hallowed

theorem GapAllowed.nonneg (hn : GapAllowed low high n) (hlow : 0 ≤ low) : 0 ≤ n := by
  rw [GapAllowed] at hn
  omega

/-- Without a number the default is sent. -/
theorem sentRight_of_absent (hlow : 0 ≤ low) (hle : low ≤ high) (hhigh : high < 65536)
    (hdefault : GapAllowed low high default)
    (hnone : ∀ n, jsonObjectObjectGetEx jo name ≠ some (.int n)) :
    SentRight jo name low high
      (UInt16.ofInt (clampGap low high (gapOr default (intField jo name)))) := by
  have hinv : intField jo name = intInv := by
    rw [intField]
    split
    · rename_i n hn
      exact absurd hn (hnone n)
    · rfl
  rw [hinv, gapOr_intInv]
  refine ⟨gapAllowed_sent hlow hle hhigh (hdefault.nonneg hlow), fun n hn => ?_⟩
  exact absurd hn (hnone n)

/-- A number that is not negative is sent, in its range. -/
theorem sentRight_of_nonneg (hlow : 0 ≤ low) (hle : low ≤ high) (hhigh : high < 65536)
    (hdefault : GapAllowed low high default)
    (hfield : jsonObjectObjectGetEx jo name = some (.int n)) (hn : 0 ≤ n) :
    SentRight jo name low high
      (UInt16.ofInt (clampGap low high (gapOr default (intField jo name)))) := by
  have hdefault' := hdefault.nonneg hlow
  have hread := intField_of_int hfield
  rw [jsonObjectGetInt] at hread
  refine ⟨gapAllowed_sent hlow hle hhigh ?_, fun m hm hallowed => ?_⟩
  · rw [gapOr]
    split <;> omega
  · obtain rfl : n = m := Json.int.inj (Option.some.inj (hfield.symm.trans hm))
    -- the number is small, so that it is neither the sentinel nor cut
    have hsame : gapOr default (intField jo name) = n := by
      rw [GapAllowed] at hallowed
      rw [gapOr, if_pos (by rw [intInv]; omega)]
      omega
    rw [hsame, clampGap_of_allowed hlow hle hallowed, cast_toNat_ofInt,
      hallowed.emod_eq hlow hhigh]

/-- A negative number is cut to 16 bits. -/
theorem sentRight_iff_of_neg (hlow : 0 ≤ low) (hle : low ≤ high)
    (hfield : jsonObjectObjectGetEx jo name = some (.int n)) (hn : n < 0) :
    SentRight jo name low high
        (UInt16.ofInt (clampGap low high (gapOr default (intField jo name)))) ↔
      n < -2 ^ 31 ∨ GapAllowed low high (n % 65536) := by
  have hread := intField_of_int hfield
  rw [jsonObjectGetInt, min_eq_left (by omega)] at hread
  have hsent : ((UInt16.ofInt (clampGap low high (gapOr default (intField jo name)))).toNat : ℤ) =
      max (-2 ^ 31) n % 65536 := by
    rw [cast_toNat_ofInt, gapOr, if_pos (by rw [intInv]; omega),
      clampGap_of_neg (by omega) (by omega), hread]
  have hvacuous : ∀ m, jsonObjectObjectGetEx jo name = some (.int m) → GapAllowed low high m →
      max (-2 ^ 31) n % 65536 = m := by
    intro m hm hallowed
    obtain rfl : n = m := Json.int.inj (Option.some.inj (hfield.symm.trans hm))
    exact absurd (hallowed.nonneg hlow) (not_le.mpr hn)
  rw [SentRight, hsent, and_iff_left hvacuous]
  by_cases hfar : n < -2 ^ 31
  · rw [max_eq_left hfar.le]
    exact iff_of_true (Or.inl (by decide)) (Or.inl hfar)
  · rw [max_eq_right (by omega)]
    exact (or_iff_right hfar).symm

/-- **A gap is sent as it should be** unless it is negative, with few exceptions. -/
theorem sentRight_iff (hlow : 0 ≤ low) (hle : low ≤ high) (hhigh : high < 65536)
    (hdefault : GapAllowed low high default) :
    SentRight jo name low high
        (UInt16.ofInt (clampGap low high (gapOr default (intField jo name)))) ↔
      NegativeFits jo name low high := by
  by_cases hint : ∃ n, jsonObjectObjectGetEx jo name = some (.int n)
  · obtain ⟨n, hfield⟩ := hint
    have honly : NegativeFits jo name low high ↔
        (n < 0 → n < -2 ^ 31 ∨ GapAllowed low high (n % 65536)) := by
      refine ⟨fun h => h n hfield, fun h m hm => ?_⟩
      obtain rfl : n = m := Json.int.inj (Option.some.inj (hfield.symm.trans hm))
      exact h
    rw [honly]
    by_cases hn : n < 0
    · rw [forall_prop_of_true hn]
      exact sentRight_iff_of_neg hlow hle hfield hn
    · exact iff_of_true (sentRight_of_nonneg hlow hle hhigh hdefault hfield (not_lt.mp hn))
        fun h => absurd h hn
  · have hnone : ∀ n, jsonObjectObjectGetEx jo name ≠ some (.int n) := fun n hn => hint ⟨n, hn⟩
    exact iff_of_true (sentRight_of_absent hlow hle hhigh hdefault hnone)
      fun n hn => absurd hn (hnone n)

/-- The gaps of a request are sent as they should be. -/
def GapsRight (jo : Json) (doublegap thirdgap fourgap dupgap : UInt16) : Prop :=
  SentRight jo "doublegap" 10 200 doublegap ∧ SentRight jo "thirdgap" 10 200 thirdgap ∧
    SentRight jo "fourgap" 10 200 fourgap ∧ SentRight jo "dupgap" 20 100 dupgap

/-- The messages with four gaps. -/
def gapMessages (doublegap thirdgap fourgap dupgap : UInt16) : List (List UInt8) :=
  [Nl.sppDupSet 0 doublegap, Nl.sppDupSet 1 thirdgap, Nl.sppDupSet 2 fourgap,
    Nl.sppTrimSet dupgap]

/-- **The gaps of a request are sent as they should be**, exactly if each negative one fits. They
are sent before anything that can go wrong, and other messages only follow. -/
theorem openSppGaps_iff (jc : JsonC) (env : Env) (cip : UInt32) (fields : List (List Char × Json))
    (s : Server) :
    ∃ gap doublegap thirdgap fourgap dupgap,
      readGaps (some (.object fields)) = .ok gap ∧
      (∀ l, sendGaps env gap l =
        sendAll env (gapMessages doublegap thirdgap fourgap dupgap) l) ∧
      (∀ s' reply, tqReqStartSpp jc env cip (some (.object fields)) s = .ok (s', reply) →
        ∃ calls : List AddrCall, s'.link = sendAll env
          (gapMessages doublegap thirdgap fourgap dupgap ++ calls.map AddrCall.data) s.link) ∧
      (GapsRight (.object fields) doublegap thirdgap fourgap dupgap ↔
        NegativeFits (.object fields) "doublegap" 10 200 ∧
          NegativeFits (.object fields) "thirdgap" 10 200 ∧
          NegativeFits (.object fields) "fourgap" 10 200 ∧
          NegativeFits (.object fields) "dupgap" 20 100) := by
  refine ⟨_, _, _, _, _, readGaps_some (.object fields), fun l => rfl, fun s' reply h => ?_, ?_⟩
  · obtain ⟨gap, sips, hgap, -, -, -, hlink⟩ := openSpp_messages h
    obtain rfl := Except.ok.inj ((readGaps_some _).symm.trans hgap)
    exact ⟨_, hlink⟩
  · rw [GapsRight, sentRight_iff (by decide) (by decide) (by decide) (by decide),
      sentRight_iff (by decide) (by decide) (by decide) (by decide),
      sentRight_iff (by decide) (by decide) (by decide) (by decide),
      sentRight_iff (by decide) (by decide) (by decide) (by decide)]

/-- A gap of -5 is sent as 65531. -/
theorem not_sentRight_negative : ∃ gap,
    readGaps (some (.obj [("doublegap", .int (-5))])) = .ok gap ∧
      (∀ l, sendGaps (.at 0 none) gap l = sendAll (.at 0 none) (gapMessages 65531 0 0 20) l) ∧
      ¬ GapsRight (.obj [("doublegap", .int (-5))]) 65531 0 0 20 := by
  have hmsgs : gapMsgs ⟨-5, 0, 0, 20⟩ = gapMessages 65531 0 0 20 := by decide
  refine ⟨⟨-5, 0, 0, 20⟩, rfl, fun l => ?_, fun h => ?_⟩
  · rw [← hmsgs]
    rfl
  · exact absurd h.1.1 (by decide)

end Gaps

/-! ## Addresses and their texts -/

/-- A part of an address that was printed is read back. -/
theorem addrPart_toDigits (b : UInt8) : addrPart (Nat.toDigits 10 b.toNat) = some b.toNat := by
  have hall : ∀ n < 256, addrPart (Nat.toDigits 10 n) = some n := by decide +kernel
  exact hall b.toNat b.toNat_lt

/-- The number that four bytes make, the highest first. -/
theorem bytesLE_quad (a b c d : UInt8) :
    bytesLE 4 (((a.toNat * 256 + b.toNat) * 256 + c.toNat) * 256 + d.toNat) = [d, c, b, a] := by
  have hbyte : ∀ (n : ℕ) (x : UInt8), UInt8.ofNat (n * 256 + x.toNat) = x := by
    intro n x
    have hx := x.toNat_lt
    rw [← UInt8.toNat_inj, UInt8.toNat_ofNat']
    omega
  have hrest : ∀ (n : ℕ) (x : UInt8), (n * 256 + x.toNat) / 256 = n := by
    intro n x
    have hx := x.toNat_lt
    omega
  rw [bytesLE, bytesLE, bytesLE, bytesLE, bytesLE, hbyte, hrest, hbyte, hrest, hbyte, hrest,
    UInt8.ofNat_toNat]

/-- **An address that was printed is read back.** -/
theorem inetAton_inetNtoa (ip : UInt32) : inetAton (inetNtoa ip) = some ip := by
  have hspace : (inetNtoa ip).takeWhile (fun c => !isspace c) = inetNtoa ip := by
    rw [List.takeWhile_eq_self_iff]
    intro c hc
    by_contra hwhite
    rw [Bool.not_eq_true, Bool.not_eq_false'] at hwhite
    refine notMem_inetNtoa ?_ ?_ ip hc
    · by_contra hdigit
      rw [Bool.not_eq_false] at hdigit
      exact absurd hwhite (Bool.eq_false_iff.mp (isspace_of_isDigit hdigit))
    · rintro rfl
      exact absurd hwhite (by decide)
  obtain ⟨a, b, c, d, habcd⟩ : ∃ a b c d, le32 ip = [a, b, c, d] := ⟨_, _, _, _, rfl⟩
  have hparts : ((le32 ip).map fun b => Nat.toDigits 10 b.toNat).mapM addrPart =
      some [a.toNat, b.toNat, c.toNat, d.toNat] := by
    simp [habcd, addrPart_toDigits]
  have hvalid : ∀ p ∈ [a.toNat, b.toNat, c.toNat], p < 256 := by
    simp [a.toNat_lt, b.toNat_lt, c.toNat_lt]
  rw [inetAton, hspace, splitOn_inetNtoa, hparts, Option.bind_eq_bind, Option.bind_some]
  dsimp only
  rw [if_pos ⟨le_refl 4, hvalid, by simpa using d.toNat_lt⟩]
  show some (UInt32.ofNat (natLE (bytesLE 4 ((((0 * 256 + a.toNat) * 256 + b.toNat) * 256 +
    c.toNat) * 256 ^ 1 + d.toNat)).reverse)) = some ip
  rw [Nat.zero_mul, Nat.zero_add, Nat.pow_one, bytesLE_quad]
  show some (UInt32.ofNat (natLE [a, b, c, d])) = some ip
  rw [← habcd, ofNat_natLE_le32]

/-- A form feed ends an address. -/
example : inetAton ['1', '.', '2', '.', '3', '.', '4', '\x0c'] = some 0x04030201 := by
  decide +kernel

/-! ## The servers

What counts as the number of a port behind the colon is left open: `isPort` says it.
-/

/-- The address of a text that is a dotted quad, alone or with a port behind a colon. -/
def quadOf (isPort : List Char → Bool) (text : List Char) : Option UInt32 := do
  let quad := text.takeWhile (· ≠ ':')
  let ip ← inetAton quad
  let port := text.dropWhile (· ≠ ':')
  if quad = inetNtoa ip ∧ (port = [] ∨ isPort port.tail = true) then some ip else none

/-- The address an element of `viparray` names. -/
def namedAddr (isPort : List Char → Bool) : Json → Option UInt32
  | .string s => quadOf isPort (cstr s)
  | _ => none

/-- The addresses that should be added: those that are named, without `0.0.0.0`. -/
def listedAddrs (isPort : List Char → Bool) (es : List Json) : List UInt32 :=
  (es.filterMap (namedAddr isPort)).filter (· ≠ 0)

/-- The table should be this one after some elements. -/
def listedIn (isPort : List Char → Bool) (tab : Fin cliMax → UInt32) (es : List Json) :
    Fin cliMax → UInt32 :=
  (listedAddrs isPort es).foldl (SlotTable.put 0) tab

/-- The element can be read, and names an address, or the address that is taken for it finds no
slot. -/
def ElementFits (jc : JsonC) (env : Env) (isPort : List Char → Bool) (tab : Fin cliMax → UInt32)
    (i : ℕ) (e : Json) : Prop :=
  ∃ text tok, jsonObjectGetString jc e.ptr = some text ∧ text.length < sizeIp ∧
    (strtok ':' text).head? = some tok ∧
    (namedAddr isPort e ≠ none ∨
      SlotTable.slotFor 0 tab ((inetAton tok).getD (env.stack i)) = none)

section Servers

variable {jc : JsonC} {env : Env} {isPort : List Char → Bool} {tab : Fin cliMax → UInt32} {i : ℕ}
  {e : Json} {es : List Json} {ip sip : UInt32} {text : List Char}

/-- The text of an address ends at a colon. -/
theorem takeWhile_inetNtoa (ip : UInt32) {port : List Char} (hport : ∀ c ∈ port.head?, c = ':') :
    (inetNtoa ip ++ port).takeWhile (· ≠ ':') = inetNtoa ip ∧
      (inetNtoa ip ++ port).dropWhile (· ≠ ':') = port := by
  have hquad : ∀ c ∈ inetNtoa ip, decide (c ≠ ':') = true := by
    intro c hc
    refine decide_eq_true fun heq => ?_
    exact notMem_inetNtoa (by decide) (by decide) ip (heq ▸ hc)
  rw [List.takeWhile_append_of_pos hquad, List.dropWhile_append_of_pos hquad]
  cases port with
  | nil => exact ⟨List.append_nil _, rfl⟩
  | cons c port =>
    obtain rfl : c = ':' := hport c rfl
    exact ⟨by rw [List.takeWhile_cons_of_neg (by simp), List.append_nil],
      List.dropWhile_cons_of_neg (by simp)⟩

/-- **What names an address.** -/
theorem quadOf_eq_some :
    quadOf isPort text = some ip ↔
      text = inetNtoa ip ∨ ∃ port, text = inetNtoa ip ++ ':' :: port ∧ isPort port = true := by
  constructor
  · intro h
    obtain ⟨ip', -, h⟩ := Option.bind_eq_some_iff.mp h
    dsimp only at h
    split at h
    · rename_i hquad
      obtain rfl := Option.some.inj h
      have htext := List.takeWhile_append_dropWhile (p := (· ≠ ':')) (l := text)
      have hhead := List.head?_dropWhile_not (fun c => decide (c ≠ ':')) text
      rw [hquad.1] at htext
      cases hport : text.dropWhile (· ≠ ':') with
      | nil =>
        rw [hport, List.append_nil] at htext
        exact Or.inl htext.symm
      | cons c port =>
        rw [hport] at hhead htext
        obtain rfl : c = ':' := by simpa using hhead
        refine Or.inr ⟨port, htext.symm, ?_⟩
        obtain hnil | hok := hquad.2
        · exact absurd (hport.symm.trans hnil) (List.cons_ne_nil _ _)
        · rwa [hport] at hok
    · cases h
  · intro h
    obtain ⟨port, rfl, hhead, hok⟩ : ∃ port, text = inetNtoa ip ++ port ∧
        (∀ c ∈ port.head?, c = ':') ∧ (port = [] ∨ isPort port.tail = true) := by
      obtain rfl | ⟨port, rfl, hok⟩ := h
      · have hnone : ∀ c ∈ ([] : List Char).head?, c = ':' := fun c hc =>
          absurd hc (Option.not_mem_none c)
        exact ⟨[], (List.append_nil _).symm, hnone, Or.inl rfl⟩
      · exact ⟨':' :: port, rfl, fun c hc => (Option.mem_some.mp hc).symm, Or.inr hok⟩
    obtain ⟨htake, hdrop⟩ := takeWhile_inetNtoa ip hhead
    rw [quadOf, htake, inetAton_inetNtoa, hdrop]
    exact if_pos ⟨rfl, hok⟩

/-- The token of a text that names an address is the text of the address. -/
theorem head?_strtok_of_quad (h : quadOf isPort text = some ip) :
    (strtok ':' text).head? = some (inetNtoa ip) := by
  have hne : inetNtoa ip ≠ [] := by
    obtain ⟨c, rest, hc, -⟩ := exists_digit_inetNtoa ip
    rw [hc]
    exact List.cons_ne_nil c rest
  have hcolon : ':' ∉ inetNtoa ip := notMem_inetNtoa (by decide) (by decide) ip
  show (tokens ':' text).head? = _
  obtain rfl | ⟨port, rfl, -⟩ := quadOf_eq_some.mp h
  · rw [tokens_of_notMem hne hcolon]
    rfl
  · rw [tokens_append_cons hne hcolon]
    rfl

/-- How an element is read. -/
theorem readSip_eq_ok :
    readSip jc env i e = .ok sip ↔ ∃ text tok, jsonObjectGetString jc e.ptr = some text ∧
      text.length < sizeIp ∧ (strtok ':' text).head? = some tok ∧
      sip = (inetAton tok).getD (env.stack i) := by
  rw [readSip, bind_eq_ok]
  constructor
  · rintro ⟨sipS, hcopy, h⟩
    cases hptr : jsonObjectGetString jc e.ptr with
    | none =>
      rw [hptr] at hcopy
      cases hcopy
    | some text =>
      rw [hptr, strcpyPtr, strcpy] at hcopy
      split at hcopy
      · rename_i hlen
        obtain rfl := Except.ok.inj hcopy
        split at h
        · cases h
        · rename_i tok htok
          exact ⟨text, tok, rfl, hlen, htok, (Except.ok.inj h).symm⟩
      · cases hcopy
  · rintro ⟨text, tok, hptr, hlen, htok, rfl⟩
    refine ⟨text, ?_, ?_⟩
    · rw [hptr, strcpyPtr, strcpy, if_pos hlen]
    · rw [htok]
      rfl

/-- An element that names an address is read as that address. -/
theorem sip_of_named {text tok : List Char} (hnamed : namedAddr isPort e = some ip)
    (hptr : jsonObjectGetString jc e.ptr = some text) (htok : (strtok ':' text).head? = some tok) :
    (inetAton tok).getD (env.stack i) = ip := by
  cases e with
  | string s =>
    obtain rfl : cstr s = text := Option.some.inj hptr
    obtain rfl : inetNtoa ip = tok :=
      Option.some.inj ((head?_strtok_of_quad hnamed).symm.trans htok)
    rw [inetAton_inetNtoa]
    rfl
  | _ => cases hnamed

theorem listedIn_cons (e : Json) (es : List Json) :
    listedIn isPort tab (e :: es) = listedIn isPort (listedIn isPort tab [e]) es := by
  have happ : listedAddrs isPort (e :: es) = listedAddrs isPort [e] ++ listedAddrs isPort es := by
    rw [listedAddrs, listedAddrs, listedAddrs, ← List.filter_append, ← List.filterMap_append,
      List.singleton_append]
  rw [listedIn, happ, List.foldl_append]
  rfl

/-- What one element should do. -/
theorem listedIn_singleton (e : Json) :
    listedIn isPort tab [e] = match namedAddr isPort e with
      | some ip => SlotTable.put 0 tab ip
      | none => tab := by
  rw [listedIn, listedAddrs, List.filterMap_cons]
  cases namedAddr isPort e with
  | none => rfl
  | some ip =>
    by_cases hip : ip = 0
    · rw [hip]
      exact SlotTable.put_free.symm
    · show ([ip].filter _).foldl _ _ = _
      rw [List.filter_cons_of_pos (by simpa using hip)]
      rfl

/-- **One element** is handled as it should be exactly if it fits. -/
theorem readSip_iff :
    (∃ sip, readSip jc env i e = .ok sip ∧ SlotTable.put 0 tab sip = listedIn isPort tab [e]) ↔
      ElementFits jc env isPort tab i e := by
  rw [listedIn_singleton]
  constructor
  · rintro ⟨sip, hread, hput⟩
    obtain ⟨text, tok, hptr, hlen, htok, rfl⟩ := readSip_eq_ok.mp hread
    refine ⟨text, tok, hptr, hlen, htok, ?_⟩
    cases hnamed : namedAddr isPort e with
    | some ip => exact Or.inl (Option.some_ne_none ip)
    | none =>
      rw [hnamed] at hput
      exact Or.inr (SlotTable.put_eq_self_iff.mp hput)
  · rintro ⟨text, tok, hptr, hlen, htok, hfits⟩
    refine ⟨_, readSip_eq_ok.mpr ⟨text, tok, hptr, hlen, htok, rfl⟩, ?_⟩
    cases hnamed : namedAddr isPort e with
    | some ip => rw [sip_of_named hnamed hptr htok]
    | none => exact SlotTable.put_of_none (hfits.resolve_left fun h => h hnamed)

/-- The table after some elements, whatever was sent. -/
theorem map_fst_addSips (jc : JsonC) (env : Env) (es : List Json) (i : ℕ)
    (t : (Fin cliMax → UInt32) × Link) :
    (addSips jc env es i t).map Prod.fst =
      (readSips jc env i es).map fun sips => sips.foldl (SlotTable.put 0) t.1 := by
  rw [addSips_eq]
  cases readSips jc env i es with
  | error e => rfl
  | ok sips =>
    show Except.ok (sips.foldl (fun t sip => addAddr env Nl.sppSipAdd sip t) t).1 = _
    rw [foldl_addAddr]
    rfl

theorem map_readSips_nil {α : Type} {f : List UInt32 → α} :
    (readSips jc env i []).map f = .ok (f []) := rfl

/-- The first element is read, and then the others. -/
theorem map_readSips_cons {α : Type} {f : List UInt32 → α} {b : α} :
    (readSips jc env i (e :: es)).map f = .ok b ↔
      ∃ sip, readSip jc env i e = .ok sip ∧
        ((readSips jc env (i + 1) es).map fun sips => f (sip :: sips)) = .ok b := by
  rw [readSips]
  cases readSip jc env i e with
  | error err =>
    constructor
    · intro h
      cases h
    · rintro ⟨sip, hsip, -⟩
      cases hsip
  | ok sip =>
    have hsip : ∀ {P : UInt32 → Prop}, (∃ sip', (Except.ok sip : Except Crash UInt32) = .ok sip' ∧
        P sip') ↔ P sip := by
      intro P
      constructor
      · rintro ⟨sip', hsip, h⟩
        obtain rfl := Except.ok.inj hsip
        exact h
      · exact fun h => ⟨sip, rfl, h⟩
    rw [hsip]
    cases readSips jc env (i + 1) es with
    | error err => exact Iff.rfl
    | ok sips => exact Iff.rfl

/-- **The loop** has always done what it should exactly if every element fits when its turn comes.
-/
theorem forall_take_iff (es : List Json) (i : ℕ) (tab : Fin cliMax → UInt32) :
    (∀ k, ((readSips jc env i (es.take k)).map fun sips => sips.foldl (SlotTable.put 0) tab) =
        .ok (listedIn isPort tab (es.take k))) ↔
      ∀ k e, es[k]? = some e → ElementFits jc env isPort (listedIn isPort tab (es.take k)) (i + k) e
      := by
  induction es generalizing i tab with
  | nil => exact iff_of_true (fun k => by rw [List.take_nil]; rfl) nofun
  | cons e es ih =>
    constructor
    · intro h
      -- the first element alone, and then the others with the table it leaves
      obtain ⟨sip, hread, hone⟩ := map_readSips_cons.mp (h 1)
      rw [List.take_zero, map_readSips_nil, List.foldl_cons, List.foldl_nil, List.take_succ_cons,
        List.take_zero] at hone
      have hput : SlotTable.put 0 tab sip = listedIn isPort tab [e] := Except.ok.inj hone
      have hrest := (ih (i + 1) (listedIn isPort tab [e])).mp fun k => by
        obtain ⟨sip', hread', hk⟩ := map_readSips_cons.mp (h (k + 1))
        obtain rfl : sip = sip' := Except.ok.inj (hread.symm.trans hread')
        simp only [List.foldl_cons, hput] at hk
        rw [hk]
        exact congrArg Except.ok (listedIn_cons e (es.take k))
      rintro (_ | k) e' he'
      · obtain rfl : e = e' := Option.some.inj he'
        exact readSip_iff.mp ⟨sip, hread, hput⟩
      · rw [List.take_succ_cons, listedIn_cons, ← Nat.add_assoc, Nat.add_right_comm]
        exact hrest k e' he'
    · intro h
      obtain ⟨sip, hread, hput⟩ := readSip_iff.mpr (h 0 e rfl)
      have hrest := (ih (i + 1) (listedIn isPort tab [e])).mpr fun k e' he' => by
        rw [Nat.add_right_comm, Nat.add_assoc, ← listedIn_cons]
        exact h (k + 1) e' he'
      rintro (_ | k)
      · rfl
      · rw [List.take_succ_cons, map_readSips_cons, listedIn_cons]
        refine ⟨sip, hread, ?_⟩
        simp only [List.foldl_cons]
        rw [show SlotTable.put 0 tab sip = listedIn isPort tab [e] from hput]
        exact hrest k

/-- **The servers of a request** are added as they should be: the request is served, and the table
holds those that are listed, of the whole array at its end and of what was handled at any time
before. -/
def ServersAsListed (jc : JsonC) (env : Env) (isPort : List Char → Bool) (cip : UInt32) (jo : Json)
    (s : Server) : Prop :=
  (∃ s' reply, tqReqStartSpp jc env cip (some jo) s = .ok (s', reply) ∧
    s'.cfg.ips = listedIn isPort s.cfg.ips (vipArray (some jo))) ∧
  ∀ k, (addSips jc env ((vipArray (some jo)).take k) 0 (s.cfg.ips, s.link)).map Prod.fst =
    .ok (listedIn isPort s.cfg.ips ((vipArray (some jo)).take k))

/-- **The servers are added as they should be**, exactly if every element fits. -/
theorem openSppServers_iff (jc : JsonC) (env : Env) (isPort : List Char → Bool) (cip : UInt32)
    (fields : List (List Char × Json)) (s : Server) :
    ServersAsListed jc env isPort cip (.object fields) s ↔
      ∀ k e, (vipArray (some (.object fields)))[k]? = some e →
        ElementFits jc env isPort
          (listedIn isPort s.cfg.ips ((vipArray (some (.object fields))).take k)) k e := by
  set es := vipArray (some (.object fields)) with hes
  have hloop := @forall_take_iff jc env isPort es 0 s.cfg.ips
  simp only [Nat.zero_add] at hloop
  rw [← hloop, ServersAsListed]
  simp only [map_fst_addSips, ← hes]
  refine and_iff_right_of_imp fun h => ?_
  have hall := h es.length
  rw [List.take_length] at hall
  cases hread : readSips jc env 0 es with
  | error err =>
    rw [hread] at hall
    cases hall
  | ok sips =>
    rw [hread] at hall
    obtain ⟨⟨s', reply⟩, hserved⟩ := exists_tqReqStartSpp cip s hread
    obtain ⟨gap, sips', -, hread', -, hips, -⟩ := openSpp_messages hserved
    obtain rfl : sips = sips' := Except.ok.inj (hread.symm.trans hread')
    exact ⟨s', reply, hserved, hips.trans (Except.ok.inj hall)⟩

/-- An element of 32 characters is copied behind the end of `sip_s`. -/
theorem not_serversAsListed_long :
    ¬ ServersAsListed (.reading []) (.at 0 none) (fun _ => true) 1
      (.obj [("viparray", .array [.string (List.replicate 32 '1')])]) (serverInit ⟨['0'], []⟩) := by
  rintro ⟨⟨s', reply, hserved, -⟩, -⟩
  obtain ⟨gap, sips, -, hread, -⟩ := openSpp_messages hserved
  have hfault : readSips (.reading []) (.at 0 none) 0 [.string (List.replicate 32 '1')] =
      .error .overflow := rfl
  cases hfault.symm.trans hread

end Servers

end Tqos
