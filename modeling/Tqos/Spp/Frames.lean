import Tqos.Lib.Run
import Tqos.Spp.Comm
import Tqos.Tserver.Nl

/-!
# Frames at the netlink socket

What a message of each type has behind its type, which of the bytes of a frame the kernel module
reads, and what it sends back. The module asks of a frame that it is as long as a header, and
nothing else; its answers have the size of a struct whose last member has no size.

## Main results

* `readsPayload_iff` — when only bytes of the frame are read
* `recv_of_requested` — what is sent back when the value of a setting is asked for
* `tells_iff` — the runs in which everyone who asks for a setting is told its value
-/

namespace Tqos

namespace Spp

/-! ## What a type calls for -/

/-- How many bytes a message of the type has behind its type: an address, a value, or an index and a
value. -/
def CommType.payload : CommType → ℕ
  | .sipAdd | .sipDel | .cipAdd | .cipDel | .dupSet => 4
  | .wmmSet | .dupGet | .trimSet => 2
  | .wmmGet | .wmmGetAck | .dupGetAck | .trimGet | .trimGetAck => 0

/-- The reads of them. -/
def CommType.reads : CommType → List (Access SkbBuf)
  | .sipAdd | .sipDel | .cipAdd | .cipDel => [⟨.skb, .read, 18, 4⟩]
  | .wmmSet | .dupGet | .trimSet => [⟨.skb, .read, 18, 2⟩]
  | .dupSet => [⟨.skb, .read, 18, 2⟩, ⟨.skb, .read, 20, 2⟩]
  | .wmmGet | .wmmGetAck | .dupGetAck | .trimGet | .trimGetAck => []

/-- The type of the message in a frame. -/
def msgType (skb : List UInt8) : Option CommType := CommType.ofCode (u16At skb nlmsgHdrlen).value

/-- How many bytes the message is to have behind its type. -/
def payloadOf (skb : List UInt8) : ℕ := ((msgType skb).map CommType.payload).getD 0

/-- The reads of them. -/
def readsOf (skb : List UInt8) : List (Access SkbBuf) :=
  ((msgType skb).map CommType.reads).getD []

/-- The reads of the sender and of the type. -/
def typeReads : List (Access SkbBuf) := [⟨.skb, .read, 12, 4⟩, ⟨.skb, .read, 16, 2⟩]

section Bounds

variable {alloc : Bool} {skb : List UInt8} {ctx : SppConfigCtx}

/-- **What is read** of a frame that is looked at. -/
theorem log_sppCommMsgProcess (alloc : Bool) (skb : List UInt8) (ctx : SppConfigCtx) :
    (sppCommMsgProcess alloc skb ctx).log = typeReads ++ readsOf skb := by
  rw [sppCommMsgProcess, Traced.log_bind, Traced.log_bind, readsOf, msgType]
  cases CommType.ofCode (u16At skb nlmsgHdrlen).value with
  | none => rfl
  | some t => cases t <;> rfl

/-- The payload is what is read of it. -/
theorem forall_reads_iff (t : CommType) (n : ℕ) :
    (∀ a ∈ t.reads, a.Inside fun _ => n) ↔ t.payload = 0 ∨ 18 + t.payload ≤ n := by
  cases t <;> (simp [CommType.reads, CommType.payload, Access.Inside]; try omega)

/-- What is asked of the module: of a frame it reads the type and what the type calls for, all of it
bytes of the frame, and a frame that is too short for its type changes nothing. -/
structure ReadsPayload (alloc : Bool) (skb : List UInt8) (ctx : SppConfigCtx) : Prop where
  inside : ∀ a ∈ (sppNlRecvMsg alloc skb ctx).log, a.Inside fun _ => skb.length
  called : nlmsgHdrlen ≤ skb.length →
    (sppNlRecvMsg alloc skb ctx).log = typeReads ++ readsOf skb
  short : skb.length < nlmsgHdrlen + 2 + payloadOf skb → (sppNlRecvMsg alloc skb ctx).value.1 = ctx

/-- **When it does**: exactly if the frame is not even as long as a header, or as long as its type
calls for. -/
theorem readsPayload_iff (alloc : Bool) (skb : List UInt8) (ctx : SppConfigCtx) :
    ReadsPayload alloc skb ctx ↔
      skb.length < nlmsgHdrlen ∨ nlmsgHdrlen + 2 + payloadOf skb ≤ skb.length := by
  have hhdr : nlmsgHdrlen = 16 := rfl
  by_cases hlooked : nlmsgHdrlen ≤ skb.length
  · have hrecv : sppNlRecvMsg alloc skb ctx = sppCommMsgProcess alloc skb ctx := if_pos hlooked
    have hlog : (sppNlRecvMsg alloc skb ctx).log = typeReads ++ readsOf skb := by
      rw [hrecv, log_sppCommMsgProcess]
    have hreads : (∀ a ∈ readsOf skb, a.Inside fun _ => skb.length) ↔
        payloadOf skb = 0 ∨ 18 + payloadOf skb ≤ skb.length := by
      rw [readsOf, payloadOf]
      cases msgType skb with
      | none => simp
      | some t => exact forall_reads_iff t skb.length
    rw [or_iff_right (Nat.not_lt.mpr hlooked)]
    constructor
    · intro h
      have hinside := h.inside
      rw [hlog] at hinside
      have htype : (⟨.skb, .read, 16, 2⟩ : Access SkbBuf).Inside fun _ => skb.length :=
        hinside _ (List.mem_append_left _ (by decide))
      have hpayload := hreads.mp fun a ha => hinside a (List.mem_append_right _ ha)
      simp only [Access.Inside] at htype
      omega
    · intro hlong
      refine ⟨?_, fun _ => hlog, fun hshort => absurd hlong (Nat.not_le.mpr hshort)⟩
      rw [hlog]
      intro a ha
      rcases List.mem_append.mp ha with ha | ha
      · simp only [typeReads, List.mem_cons, List.not_mem_nil, or_false] at ha
        rcases ha with rfl | rfl <;> simp only [Access.Inside] <;> omega
      · exact hreads.mpr (Or.inr hlong) a ha
  · have hrecv : sppNlRecvMsg alloc skb ctx = pure (ctx, none) := if_neg hlooked
    refine iff_of_true ⟨?_, fun h => absurd h hlooked, fun _ => ?_⟩ (Or.inl (Nat.not_le.mp hlooked))
    · rw [hrecv]
      exact fun a ha => absurd ha List.not_mem_nil
    · rw [hrecv]
      rfl

end Bounds

/-- A header alone, as a frame of `nl.c` begins. Its type is read behind it, and the address behind
that. -/
theorem not_readsPayload_header :
    ¬ ReadsPayload true (Nl.nlmsghdr 1 ⟨0, []⟩ 0) sppConfigInit := by
  intro h
  have htype := h.inside ⟨.skb, .read, 16, 2⟩ (by decide +kernel)
  exact absurd htype (by decide)

/-! ## Answers -/

/-- `struct nlmsghdr` as `spp_nl_send_msg` fills it. -/
def ackHdr (len : ℕ) : List UInt8 :=
  le32 (UInt32.ofNat len) ++ (le16 0 ++ (le16 0 ++ (le32 0 ++ le32 0)))

@[simp] theorem length_ackHdr (len : ℕ) : (ackHdr len).length = nlmsgHdrlen := by simp [ackHdr]

/-- `spp_nl_send_msg`: the frame, when there is memory for it. The bytes between the data and the
next multiple of four are what the new buffer holds. -/
def sppNlSendMsg (stale data : List UInt8) : List UInt8 :=
  ackHdr (Nl.nlmsgSpace data.length) ++
    (data ++ stale.take (Nl.nlmsgSpace data.length - nlmsgHdrlen - data.length))

/-- A well-formed frame: it has a type, and is as long as the type calls for. -/
structure Frame where
  bytes : List UInt8
  known : (msgType bytes).isSome
  long : nlmsgHdrlen + 2 + payloadOf bytes ≤ bytes.length

/-- The type of the answer that a frame asks for, and the value of the setting it asks for. -/
def requested (ctx : SppConfigCtx) (skb : List UInt8) : Option (CommType × UInt16) :=
  match msgType skb with
  | some .wmmGet => some (.wmmGetAck, (sppWmmGet ctx).toUInt16)
  | some .dupGet => some (.dupGetAck, sppDupGet ctx (u16At skb (nlmsgHdrlen + 2)).value)
  | some .trimGet => some (.trimGetAck, sppTrimGet ctx)
  | _ => none

/-- The frame asks for the value of a setting. -/
def asks (skb : List UInt8) : Bool :=
  match msgType skb with
  | some .wmmGet | some .dupGet | some .trimGet => true
  | _ => false

/-- A frame with its effect on the settings. -/
def recvStep (ctx : SppConfigCtx) (e : Bool × Frame) : Option SppConfigCtx :=
  some (sppNlRecvMsg e.1 e.2.bytes ctx).value.1

/-- What is asked of an answer: it consists of the type and the value, as it is given to
`spp_nl_send_msg` and as it goes out. -/
def Tells (ctx : SppConfigCtx) (e : Bool × Frame) : Prop :=
  ∀ t value, requested ctx e.2.bytes = some (t, value) →
    ∃ pid data, (sppNlRecvMsg e.1 e.2.bytes ctx).value.2 = some (pid, data) ∧
      data = le16 t.code ++ le16 value ∧
      ∀ stale, le16 t.code ++ le16 value <+: (sppNlSendMsg stale data).drop nlmsgHdrlen

section Answers

variable {alloc : Bool} {skb : List UInt8} {ctx : SppConfigCtx} {t : CommType} {value : UInt16}

theorem asks_iff (ctx : SppConfigCtx) (skb : List UInt8) :
    asks skb = true ↔ ∃ t value, requested ctx skb = some (t, value) := by
  rw [asks, requested]
  cases msgType skb with
  | none => simp
  | some t => cases t <;> simp

/-- **The answer has no value in it.** It is the same whatever the settings are. -/
theorem recv_of_requested (hlong : nlmsgHdrlen ≤ skb.length)
    (h : requested ctx skb = some (t, value)) :
    (sppNlRecvMsg alloc skb ctx).value.2 = some ((u32At skb 12).value, le16 t.code) := by
  rw [sppNlRecvMsg, if_pos hlong, sppCommMsgProcess, Traced.value_bind, Traced.value_bind]
  rw [requested, msgType] at h
  cases htype : CommType.ofCode (u16At skb nlmsgHdrlen).value with
  | none =>
    rw [htype] at h
    cases h
  | some t' =>
    rw [htype] at h
    cases t' <;> cases h <;> rfl

/-- **Whoever asks for a setting is not told.** -/
theorem not_tells (e : Bool × Frame) (h : asks e.2.bytes = true) : ¬ Tells ctx e := by
  intro htells
  obtain ⟨t, value, hreq⟩ := (asks_iff ctx _).mp h
  obtain ⟨pid, data, hreply, hdata, -⟩ := htells t value hreq
  have hlong : nlmsgHdrlen ≤ e.2.bytes.length := by
    have hle := e.2.long
    omega
  rw [recv_of_requested hlong hreq] at hreply
  obtain ⟨-, rfl⟩ := Prod.mk.inj (Option.some.inj hreply)
  -- two bytes and four
  have hlen := congrArg List.length hdata
  rw [List.length_append, length_le16, length_le16] at hlen
  exact absurd hlen (by decide)

/-- **The runs in which everyone is told** are those in which nobody asks. -/
theorem tells_iff (es : List (Bool × Frame)) :
    Run.Along recvStep Tells sppConfigInit es ↔ ∀ e ∈ es, asks e.2.bytes = false := by
  constructor
  · intro h e he
    obtain ⟨p, q, rfl⟩ := List.append_of_mem he
    have hprefix : p ++ [e] <+: p ++ e :: q := ⟨q, by simp⟩
    have htells := h p e hprefix _ (Run.run_total _ _ _)
    by_contra hasks
    exact not_tells e ((Bool.not_eq_false _).mp hasks) htells
  · intro h p e hp ctx _ t value hreq
    have hasks := h e (hp.subset (List.mem_append_right p List.mem_cons_self))
    rw [(asks_iff ctx _).mpr ⟨t, value, hreq⟩] at hasks
    cases hasks

end Answers

/-- A request for the WMM flag. -/
def wmmGetFrame : Frame where
  bytes := Nl.nlmsghdr 1 ⟨0, []⟩ 2 ++ (le16 CommType.wmmGet.code ++ [0, 0])
  known := by decide
  long := by decide

/-- The first request to a module that was just loaded: the answer does not say that the flag is
set. -/
theorem not_tells_wmmGetFrame : ¬ Run.Along recvStep Tells sppConfigInit [(true, wmmGetFrame)] := by
  intro h
  have htells := h [] (true, wmmGetFrame) List.prefix_rfl sppConfigInit rfl
  obtain ⟨pid, data, hreply, hdata, -⟩ := htells .wmmGetAck 1 (by decide +kernel)
  have hfalse : (sppNlRecvMsg true wmmGetFrame.bytes sppConfigInit).value.2 =
      some (1, [5, 0]) := by decide +kernel
  rw [hfalse] at hreply
  obtain ⟨-, rfl⟩ := Prod.mk.inj (Option.some.inj hreply)
  exact absurd hdata (by decide)

end Spp

end Tqos
