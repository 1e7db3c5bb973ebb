import Mathlib.Data.List.Count
import Tqos.Tserver.Mirror

/-!
# Messages that do not go through

A slot is written before its message is sent, and what the send returns is only logged. So a client
whose message was lost keeps its slot; the next `OPEN_SPP` finds it there and does not send the
message again.

## Main results

* `slotsFollow_iff` — the slots change only with their messages, exactly when every message that
  goes with a change goes through
-/

namespace Tqos

open Spp (AddrCall)

/-! ## Which messages go through -/

/-- Those of the elements that go through when the first is number `n`. -/
def through {α : Type*} (sends : ℕ → Bool) : ℕ → List α → List α
  | _, [] => []
  | n, d :: ds => if sends n then d :: through sends (n + 1) ds else through sends (n + 1) ds

section Through

variable {α : Type*} {sends : ℕ → Bool} {n : ℕ} {ds es : List α}

theorem through_append (n : ℕ) (ds es : List α) :
    through sends n (ds ++ es) = through sends n ds ++ through sends (n + ds.length) es := by
  induction ds generalizing n with
  | nil => rfl
  | cons d ds ih =>
    have hlen : n + (d :: ds).length = n + 1 + ds.length := by
      rw [List.length_cons]
      omega
    rw [List.cons_append, through, through, ih, hlen]
    split <;> rfl

theorem through_sublist (sends : ℕ → Bool) (n : ℕ) (ds : List α) :
    (through sends n ds).Sublist ds := by
  induction ds generalizing n with
  | nil => exact List.Sublist.slnil
  | cons d ds ih =>
    rw [through]
    split
    · exact (ih (n + 1)).cons_cons d
    · exact (ih (n + 1)).cons d

/-- All elements go through exactly when each does. -/
theorem through_eq_self_iff :
    through sends n ds = ds ↔ ∀ k < ds.length, sends (n + k) = true := by
  induction ds generalizing n with
  | nil => simp [through]
  | cons d ds ih =>
    rw [through]
    constructor
    · intro h
      split at h
      · rename_i hn
        rintro (_ | k) hk
        · exact hn
        · rw [show n + (k + 1) = n + 1 + k by omega]
          exact ih.mp (List.cons.inj h).2 k (Nat.lt_of_succ_lt_succ hk)
      · have hlen := (through_sublist sends (n + 1) ds).length_le
        rw [h, List.length_cons] at hlen
        omega
    · intro h
      have hn : sends n = true := h 0 (Nat.succ_pos _)
      rw [if_pos hn, ih.mpr]
      intro k hk
      rw [show n + 1 + k = n + (k + 1) by omega]
      exact h (k + 1) (Nat.succ_lt_succ hk)

theorem map_through {β : Type*} (f : α → β) (n : ℕ) (ds : List α) :
    through sends n (ds.map f) = (through sends n ds).map f := by
  induction ds generalizing n with
  | nil => rfl
  | cons d ds ih =>
    rw [List.map_cons, through, through, ih]
    split <;> rfl

/-- Nothing is lost exactly if no element goes through less often than it is sent. -/
theorem through_eq_self_iff_count [BEq α] [LawfulBEq α] :
    through sends n ds = ds ↔ ∀ d ∈ ds, ds.count d ≤ (through sends n ds).count d := by
  constructor
  · intro h d _
    rw [h]
  · intro h
    have hsub := through_sublist sends n ds
    refine hsub.eq_of_length_le (List.Subperm.length_le ?_)
    exact List.subperm_ext_iff.mpr h

end Through

/-! ## A request as a list of messages -/

/-- Messages one after another. -/
def sendAll (env : Env) (ds : List (List UInt8)) (l : Link) : Link :=
  ds.foldl (fun l d => send env d l) l

/-- The four messages with the gaps, which every `OPEN_SPP` sends first. -/
def gapMsgs (g : SppCfg) : List (List UInt8) :=
  [Nl.sppDupSet 0 (UInt16.ofInt g.doublegap), Nl.sppDupSet 1 (UInt16.ofInt g.thirdgap),
    Nl.sppDupSet 2 (UInt16.ofInt g.fourgap), Nl.sppTrimSet (UInt16.ofInt g.dupgap)]

section Messages

variable {env : Env} {l : Link} {c : AddrCall}

theorem sendAll_append (ds es : List (List UInt8)) :
    sendAll env (ds ++ es) l = sendAll env es (sendAll env ds l) := List.foldl_append

/-- What is sent is what goes through. -/
theorem sendAll_eq (ds : List (List UInt8)) :
    sendAll env ds l = ⟨l.tries + ds.length, l.sent ++ through env.sends l.tries ds⟩ := by
  induction ds generalizing l with
  | nil => simp [sendAll, through]
  | cons d ds ih =>
    rw [sendAll, List.foldl_cons]
    show sendAll env ds (send env d l) = _
    rw [ih, send, through]
    simp only [Link.mk.injEq, List.length_cons]
    refine ⟨by omega, ?_⟩
    split
    · rw [List.append_assoc]
      rfl
    · rfl

theorem sendAll_replicate (d : List UInt8) (n : ℕ) :
    sendAll env (List.replicate n d) l = (send env d)^[n] l := by
  induction n generalizing l with
  | zero => rfl
  | succ n ih => exact ih

/-- **Adding addresses** puts them into the slots and sends a message for each that finds one. -/
theorem foldl_addAddr (env : Env) (msg : UInt32 → List UInt8) (xs : List UInt32)
    (t : (Fin cliMax → UInt32) × Link) :
    xs.foldl (fun t ip => addAddr env msg ip t) t =
      (xs.foldl (SlotTable.put 0) t.1,
        sendAll env ((SlotTable.gained 0 t.1 xs).map msg) t.2) := by
  induction xs generalizing t with
  | nil => rfl
  | cons x xs ih =>
    rw [List.foldl_cons, List.foldl_cons, ih, addAddr_eq, SlotTable.gained]
    split
    · rfl
    · rename_i hslot
      rw [SlotTable.put_of_none (Option.not_isSome_iff_eq_none.mp hslot)]

/-- The messages of different calls are different. -/
theorem data_injective : Function.Injective AddrCall.data := by
  have happ (s t : Nl.CommType) (a b : UInt32) (h : Nl.ipMsg s a = Nl.ipMsg t b) :
      le16 s.code = le16 t.code ∧ a = b := by
    have hlen : (le16 s.code).length = (le16 t.code).length := by
      rw [length_le16, length_le16]
    obtain ⟨ht, hip⟩ := List.append_inj h hlen
    exact ⟨ht, le32_injective hip⟩
  rintro (a | a | a | a) (b | b | b | b) h
  all_goals obtain ⟨ht, rfl⟩ := happ _ _ _ _ h
  all_goals first | rfl | exact absurd ht (by decide)

/-- No message with a gap is one with an address. -/
theorem data_notMem_gapMsgs (c : AddrCall) (g : SppCfg) : c.data ∉ gapMsgs g := by
  have hcode : c.data.head? = some 0 ∨ c.data.head? = some 1 ∨ c.data.head? = some 2 ∨
      c.data.head? = some 3 := by
    cases c
    · exact Or.inl rfl
    · exact Or.inr (Or.inl rfl)
    · exact Or.inr (Or.inr (Or.inl rfl))
    · exact Or.inr (Or.inr (Or.inr rfl))
  have hgap : ∀ d ∈ gapMsgs g, d.head? = some 9 ∨ d.head? = some 12 := by
    intro d hd
    simp only [gapMsgs, List.mem_cons, List.not_mem_nil, or_false] at hd
    rcases hd with rfl | rfl | rfl | rfl
    · exact Or.inl rfl
    · exact Or.inl rfl
    · exact Or.inl rfl
    · exact Or.inr rfl
  intro hmem
  rcases hgap _ hmem with h | h <;> rw [h] at hcode <;> exact absurd hcode (by decide)

end Messages

/-! ## Slots and their messages -/

/-- What went through during a request. -/
def news (s s' : Server) : List (List UInt8) := s'.link.sent.drop s.link.sent.length

/-- A slot changes only if a message for it went through: as many slots come to hold an address as
messages that add it, and as many cease to hold it as messages that delete it. -/
structure SlotsFollow (s s' : Server) : Prop where
  cipAdd : ∀ ip ≠ 0, SlotTable.gains s.cfg.ipd s'.cfg.ipd ip ≤
    (news s s').count (AddrCall.cipAdd ip).data
  cipDel : ∀ ip ≠ 0, SlotTable.gains s'.cfg.ipd s.cfg.ipd ip ≤
    (news s s').count (AddrCall.cipDel ip).data
  sipAdd : ∀ ip ≠ 0, SlotTable.gains s.cfg.ips s'.cfg.ips ip ≤
    (news s s').count (AddrCall.sipAdd ip).data
  sipDel : ∀ ip ≠ 0, SlotTable.gains s'.cfg.ips s.cfg.ips ip ≤
    (news s s').count (AddrCall.sipDel ip).data

/-- The addresses an `OPEN_SPP` finds a slot for: of the client, then of the listed servers. -/
def newAddrs (jc : JsonC) (env : Env) (cip : UInt32) (js : Option Json) (s : Server) :
    List AddrCall :=
  let sips := match readSips jc env 0 (vipArray js) with
    | .ok sips => sips
    | .error _ => []
  (SlotTable.gained 0 s.cfg.ipd [cip]).map .cipAdd ++
    (SlotTable.gained 0 s.cfg.ips sips).map .sipAdd

/-- How many slots hold the address. -/
def hits (s : Server) (cip : UInt32) : ℕ :=
  (List.finRange cliMax).countP fun i => decide (s.cfg.ipd i = cip)

/-- Every message that goes with a change of a slot goes through. In an `OPEN_SPP` four others are
sent before them; an `END_SPEED` of the address 0 finds the free slots and changes none. -/
def ChangesSent (jc : JsonC) (env : Env) (cip : UInt32) (js : Option Json) (s : Server) :
    MsgType → Prop
  | .openSpp => ∀ k < (newAddrs jc env cip js s).length, env.sends (s.link.tries + 4 + k) = true
  | .endSpeed => cip = 0 ∨ ∀ k < hits s cip, env.sends (s.link.tries + k) = true
  | _ => True

section Follow

variable {jc : JsonC} {env : Env} {cip : UInt32} {js : Option Json} {s s' : Server} {reply : Json}

/-- How often the calls that add addresses name one of them. -/
theorem count_newAddrs (ipds ipss : List UInt32) (ip : UInt32) :
    (ipds.map AddrCall.cipAdd ++ ipss.map AddrCall.sipAdd).count (.cipAdd ip) = ipds.count ip ∧
      (ipds.map AddrCall.cipAdd ++ ipss.map AddrCall.sipAdd).count (.sipAdd ip) =
        ipss.count ip := by
  have hc : Function.Injective AddrCall.cipAdd := fun a b h => AddrCall.cipAdd.inj h
  have hs : Function.Injective AddrCall.sipAdd := fun a b h => AddrCall.sipAdd.inj h
  rw [List.count_append, List.count_append, List.count_map_of_injective _ _ hc,
    List.count_map_of_injective _ _ hs, List.count_eq_zero_of_not_mem (l := ipss.map _) (by simp),
    List.count_eq_zero_of_not_mem (l := ipds.map _) (by simp)]
  exact ⟨rfl, Nat.zero_add _⟩

/-- **`OPEN_SPP` in terms of messages**: it sends the gaps and then a message for every address that
finds a slot. -/
theorem openSpp_messages (h : tqReqStartSpp jc env cip js s = .ok (s', reply)) :
    ∃ gap sips, readGaps js = .ok gap ∧ readSips jc env 0 (vipArray js) = .ok sips ∧
      s'.cfg.ipd = [cip].foldl (SlotTable.put 0) s.cfg.ipd ∧
      s'.cfg.ips = sips.foldl (SlotTable.put 0) s.cfg.ips ∧
      s'.link = sendAll env (gapMsgs gap ++ (newAddrs jc env cip js s).map AddrCall.data)
        s.link := by
  obtain ⟨gap, sips, hgap, hsips, hipd, hips⟩ := tqReqStartSpp_eq_ok h
  have hclient := foldl_addAddr env Nl.sppCipAdd [cip] (s.cfg.ipd, sendGaps env gap s.link)
  rw [List.foldl_cons, List.foldl_nil] at hclient
  rw [foldl_addAddr, hclient] at hips
  rw [hclient] at hipd
  rw [Prod.mk.injEq] at hips
  obtain ⟨hips, hlink⟩ := hips
  dsimp only at hipd hips hlink
  have hnew : (newAddrs jc env cip js s).map AddrCall.data =
      (SlotTable.gained 0 s.cfg.ipd [cip]).map Nl.sppCipAdd ++
        (SlotTable.gained 0 s.cfg.ips sips).map Nl.sppSipAdd := by
    simp only [newAddrs, hsips, List.map_append, List.map_map]
    rfl
  refine ⟨gap, sips, hgap, hsips, hipd, hips, ?_⟩
  have hgaps : sendAll env (gapMsgs gap) s.link = sendGaps env gap s.link := rfl
  rw [hnew, sendAll_append, sendAll_append, hgaps]
  exact hlink

/-- What went through of a list of messages. -/
theorem news_of_sendAll {ds : List (List UInt8)} (h : s'.link = sendAll env ds s.link) :
    news s s' = through env.sends s.link.tries ds := by
  rw [news, h, sendAll_eq, List.drop_left]

/-- **When the slots follow the messages of an `OPEN_SPP`.** -/
theorem slotsFollow_openSpp (h : tqReqStartSpp jc env cip js s = .ok (s', reply)) :
    SlotsFollow s s' ↔
      ∀ k < (newAddrs jc env cip js s).length, env.sends (s.link.tries + 4 + k) = true := by
  obtain ⟨gap, sips, -, hsips, hipd, hips, hlink⟩ := openSpp_messages h
  have hcalls : newAddrs jc env cip js s = (SlotTable.gained 0 s.cfg.ipd [cip]).map .cipAdd ++
      (SlotTable.gained 0 s.cfg.ips sips).map .sipAdd := by
    simp only [newAddrs, hsips]
  -- the messages with the gaps are not counted
  have hcount (c : AddrCall) : (news s s').count c.data =
      (through env.sends (s.link.tries + 4) (newAddrs jc env cip js s)).count c := by
    have hgaps : (through env.sends s.link.tries (gapMsgs gap)).count c.data = 0 :=
      List.count_eq_zero_of_not_mem fun hmem =>
        data_notMem_gapMsgs c gap ((through_sublist _ _ _).subset hmem)
    rw [news_of_sendAll hlink, through_append, List.count_append, hgaps, Nat.zero_add,
      map_through, List.count_map_of_injective _ _ data_injective]
    rfl
  rw [← through_eq_self_iff]
  constructor
  · intro hf
    rw [through_eq_self_iff_count]
    intro c hc
    rw [← hcount]
    rw [hcalls] at hc ⊢
    rcases List.mem_append.mp hc with hc | hc
    · obtain ⟨ip, hip, rfl⟩ := List.mem_map.mp hc
      have hne := SlotTable.ne_free_of_mem_gained hip
      rw [(count_newAddrs _ _ ip).1, ← SlotTable.gains_foldl_put hne, ← hipd]
      exact hf.cipAdd ip hne
    · obtain ⟨ip, hip, rfl⟩ := List.mem_map.mp hc
      have hne := SlotTable.ne_free_of_mem_gained hip
      rw [(count_newAddrs _ _ ip).2, ← SlotTable.gains_foldl_put hne, ← hips]
      exact hf.sipAdd ip hne
  · intro hall
    refine ⟨fun ip hne => ?_, fun ip hne => ?_, fun ip hne => ?_, fun ip hne => ?_⟩
    · rw [hcount, hall, hcalls, (count_newAddrs _ _ ip).1, hipd, SlotTable.gains_foldl_put hne]
    · rw [SlotTable.gains_eq_zero]
      · exact Nat.zero_le _
      · intro i hi
        rw [hipd, SlotTable.foldl_put_of_ne (by rw [hi]; exact hne), hi]
    · rw [hcount, hall, hcalls, (count_newAddrs _ _ ip).2, hips, SlotTable.gains_foldl_put hne]
    · rw [SlotTable.gains_eq_zero]
      · exact Nat.zero_le _
      · intro i hi
        rw [hips, SlotTable.foldl_put_of_ne (by rw [hi]; exact hne), hi]

/-- **When the slots follow the messages of an `END_SPEED`.** -/
theorem slotsFollow_endSpeed (h : tqReqStopSpeed env cip js s = .ok (s', reply)) :
    SlotsFollow s s' ↔ cip = 0 ∨ ∀ k < hits s cip, env.sends (s.link.tries + k) = true := by
  obtain ⟨hipd, hips, hlink⟩ := tqReqStopSpeed_eq_ok h
  have hnews : news s s' = through env.sends s.link.tries
      (List.replicate (hits s cip) (AddrCall.cipDel cip).data) := by
    rw [hits, news_of_sendAll]
    rw [hlink, sendAll_replicate]
    rfl
  have hserver : ∀ ip, SlotTable.gains s.cfg.ips s'.cfg.ips ip = 0 ∧
      SlotTable.gains s'.cfg.ips s.cfg.ips ip = 0 := by
    intro ip
    rw [hips]
    exact ⟨SlotTable.gains_eq_zero fun _ => id, SlotTable.gains_eq_zero fun _ => id⟩
  -- only the deletions of the client itself matter
  have hfollow : SlotsFollow s s' ↔
      (cip ≠ 0 → hits s cip ≤ (news s s').count (AddrCall.cipDel cip).data) := by
    constructor
    · intro hf hcip
      have hle := hf.cipDel cip hcip
      rwa [hipd, SlotTable.gains_of_clear hcip, if_pos rfl] at hle
    · intro hf
      refine ⟨fun ip hne => ?_, fun ip hne => ?_, fun ip _ => ?_, fun ip _ => ?_⟩
      · rw [hipd, SlotTable.gains_clear hne]
        exact Nat.zero_le _
      · rw [hipd, SlotTable.gains_of_clear hne]
        split
        · rename_i heq
          subst heq
          exact hf hne
        · exact Nat.zero_le _
      · rw [(hserver ip).1]
        exact Nat.zero_le _
      · rw [(hserver ip).2]
        exact Nat.zero_le _
  have hthrough : news s s' = List.replicate (hits s cip) (AddrCall.cipDel cip).data ↔
      hits s cip ≤ (news s s').count (AddrCall.cipDel cip).data := by
    rw [hnews, through_eq_self_iff_count]
    constructor
    · intro hall
      by_cases hzero : hits s cip = 0
      · rw [hzero]
        exact Nat.zero_le _
      · have hle := hall _ (List.mem_replicate.mpr ⟨hzero, rfl⟩)
        rwa [List.count_replicate_self] at hle
    · intro hle d hd
      obtain rfl := List.eq_of_mem_replicate hd
      rwa [List.count_replicate_self]
  rw [hfollow, ← hthrough, hnews, through_eq_self_iff, List.length_replicate,
    ← Classical.or_iff_not_imp_left]

/-- **When the slots follow the messages**: exactly if every message that goes with a change of a
slot goes through. -/
theorem slotsFollow_iff {t : MsgType} {reply : Option Json} (ht : t = .openSpp ∨ t = .endSpeed)
    (h : serve jc env cip t.code js s = .ok (s', reply)) :
    SlotsFollow s s' ↔ ChangesSent jc env cip js s t := by
  rcases ht with rfl | rfl
  · obtain ⟨⟨u, r⟩, hr, hu⟩ := bind_eq_ok.mp (show
      (tqReqStartSpp jc env cip js s >>= fun r => pure (r.1, some r.2)) = .ok (s', reply) from h)
    obtain ⟨rfl, -⟩ := Prod.mk.inj (Except.ok.inj hu)
    exact slotsFollow_openSpp hr
  · obtain ⟨⟨u, r⟩, hr, hu⟩ := bind_eq_ok.mp (show
      (tqReqStopSpeed env cip js s >>= fun r => pure (r.1, some r.2)) = .ok (s', reply) from h)
    obtain ⟨rfl, -⟩ := Prod.mk.inj (Except.ok.inj hu)
    exact slotsFollow_endSpeed hr

end Follow

/-- A client at 192.168.1.10 asks for no server, and no message goes through: it has a slot. -/
theorem not_slotsFollow_unsent : ∃ s' reply,
    serve (JsonC.reading []) { Env.at 0 none with sends := fun _ => false } 0x0A01A8C0
      MsgType.openSpp.code (some (Json.obj [])) (serverInit ⟨['0'], []⟩) = .ok (s', reply) ∧
        ¬ SlotsFollow (serverInit ⟨['0'], []⟩) s' := by
  refine ⟨_, _, rfl, fun h => absurd (h.cipAdd 0x0A01A8C0 (by decide)) ?_⟩
  decide +kernel

/-- A client at 192.168.1.10 names one server, and every message goes through. -/
theorem slotsFollow_openSpp_one : ∃ s' reply,
    serve (JsonC.reading []) (Env.at 0 none) 0x0A01A8C0 MsgType.openSpp.code
      (some (Json.obj [("viparray", .array [.str "10.0.0.1"])])) (serverInit ⟨['0'], []⟩) =
        .ok (s', reply) ∧ SlotsFollow (serverInit ⟨['0'], []⟩) s' := by
  have hlist : ∀ e ∈ vipArray (some (Json.obj [("viparray", .array [.str "10.0.0.1"])])),
      ∃ text, e = .string text ∧ ServerText text := by
    intro e he
    obtain rfl := List.mem_singleton.mp he
    exact ⟨_, rfl, serverText_quad 0x0100000A none⟩
  obtain ⟨sips, hsips⟩ := exists_readSips (JsonC.reading []) (Env.at 0 none) 0 hlist
  obtain ⟨r, hr⟩ := exists_tqReqStartSpp 0x0A01A8C0 (serverInit ⟨['0'], []⟩) hsips
  have hserve : serve (JsonC.reading []) (Env.at 0 none) 0x0A01A8C0 MsgType.openSpp.code
      (some (Json.obj [("viparray", .array [.str "10.0.0.1"])])) (serverInit ⟨['0'], []⟩) =
        .ok (r.1, some r.2) := by
    show (tqReqStartSpp (JsonC.reading []) (Env.at 0 none) 0x0A01A8C0 _ _ >>= fun r =>
      pure (r.1, some r.2)) = _
    rw [hr]
    rfl
  exact ⟨_, _, hserve, (slotsFollow_iff (Or.inl rfl) hserve).mpr fun _ _ => rfl⟩

end Tqos
