import Tqos.Lib.LastWrite
import Tqos.Spp.Comm
import Tqos.Tserver.Nl

/-!
# The numeric settings on both sides of the netlink socket

User space sets the four duplication gaps, the dedup window and the WMM flag by messages; the kernel
module holds them in `cctx`. The two sides are written apart, with their own copies of the message
types, so that they agree is a statement about bytes: what `nl.c` puts into a frame is what
`spp_comm.c` takes out of it.

## Main results

* `value_recv_setCall` — what one set message does to the settings
* `agrees_iff` — after any sequence of set messages every setting is the last value sent, exactly
  when the last dedup window sent was 0 or 1

## The dedup window

The kernel passes `value > 0 ? true : false` to `spp_trim_set`, as it does to `spp_wmm_set` a few
lines earlier, where a flag is meant. A window of 20 ms becomes one of 1 ms.
-/

namespace Tqos

namespace Spp

open Nl (sppNetlinkSendMsg nlmsghdr Garbage)

/-- A call of one of the three set functions of `nl.c`. -/
inductive SetCall
  | dup (index : Fin 4) (val : UInt16)
  | trim (v : UInt16)
  | wmm (b : Bool)
deriving DecidableEq, Repr

/-- The data the call puts into its frame. -/
def SetCall.data : SetCall → List UInt8
  | .dup index val => Nl.sppDupSet (UInt16.ofNat index) val
  | .trim v => Nl.sppTrimSet v
  | .wmm b => Nl.sppWmmSet b

/-- A call, with what the heap puts into the unwritten parts of its frame. -/
structure Sent where
  call : SetCall
  garbage : Garbage
deriving DecidableEq

/-- The kernel's settings once it has processed the message of a call. -/
def deliver (pid : UInt32) (alloc : Bool) (ctx : SppConfigCtx) (m : Sent) : SppConfigCtx :=
  (sppNlRecvMsg alloc (sppNetlinkSendMsg pid m.garbage m.call.data) ctx).value.1

/-! ## Reading a frame -/

@[simp] theorem value_u16At (skb : List UInt8) (off : ℕ) :
    (u16At skb off).value = UInt16.ofNat (natLE ((skb.drop off).take 2)) := rfl

/-- The data of a frame begin behind its header. -/
theorem drop_sppNetlinkSendMsg (pid : UInt32) (g : Garbage) (data : List UInt8) (k : ℕ) :
    (sppNetlinkSendMsg pid g data).drop (nlmsgHdrlen + k) =
      (data ++ g.pad.take (Nl.nlmsgSpace data.length - 16 - data.length)).drop k := by
  have h : nlmsgHdrlen = (nlmsghdr pid g data.length).length := (Nl.length_nlmsghdr ..).symm
  rw [sppNetlinkSendMsg, h, List.drop_length_add_append]

/-- A 16-bit number that stands at some place of the data is read back there. -/
theorem value_u16At_frame (pid : UInt32) (g : Garbage) (pre post : List UInt8) (v : UInt16) :
    (u16At (sppNetlinkSendMsg pid g (pre ++ (le16 v ++ post))) (nlmsgHdrlen + pre.length)).value =
      v := by
  rw [value_u16At, drop_sppNetlinkSendMsg, List.append_assoc, List.drop_left,
    List.append_assoc, ← length_le16 v, List.take_left, ofNat_natLE_le16]

theorem nlmsgHdrlen_le_length (pid : UInt32) (g : Garbage) (data : List UInt8) :
    nlmsgHdrlen ≤ (sppNetlinkSendMsg pid g data).length := by
  simp [sppNetlinkSendMsg]

/-! ## One message -/

/-- The masking of the index does nothing to the four indices there are. -/
theorem dupIndex_ofNat (i : Fin 4) : dupIndex (UInt16.ofNat i) = i := by
  revert i; decide

/-- A frame is long enough to be looked at, and the kernel acts on the type its data begin with. -/
theorem recv_frame (pid : UInt32) (alloc : Bool) (ctx : SppConfigCtx) (g : Garbage) (t : UInt16)
    (rest : List UInt8) :
    ∃ skb, skb = sppNetlinkSendMsg pid g (le16 t ++ rest) ∧ (u16At skb nlmsgHdrlen).value = t ∧
      sppNlRecvMsg alloc skb ctx = sppCommMsgProcess alloc skb ctx :=
  ⟨_, rfl, value_u16At_frame pid g [] rest t, if_pos (nlmsgHdrlen_le_length pid g _)⟩

/-- The first value behind the type of a message. -/
theorem value_u16At_fst (pid : UInt32) (g : Garbage) (t v : UInt16) (post : List UInt8) :
    (u16At (sppNetlinkSendMsg pid g (le16 t ++ (le16 v ++ post))) (nlmsgHdrlen + 2)).value = v :=
  value_u16At_frame pid g (le16 t) post v

/-- The second value behind the type of a message. -/
theorem value_u16At_snd (pid : UInt32) (g : Garbage) (t u v : UInt16) :
    (u16At (sppNetlinkSendMsg pid g (le16 t ++ (le16 u ++ le16 v))) (nlmsgHdrlen + 2 + 2)).value =
      v := by
  have h := value_u16At_frame pid g (le16 t ++ le16 u) [] v
  rwa [List.append_nil, List.append_assoc] at h

/-- **What one set message does.** The gap and the flag arrive as they were sent; the window arrives
as one bit. -/
theorem deliver_eq (pid : UInt32) (alloc : Bool) (ctx : SppConfigCtx) (m : Sent) :
    deliver pid alloc ctx m = match m.call with
      | .dup i v => sppDupSet ctx (UInt16.ofNat i) v
      | .trim v => sppTrimSet ctx (if v > 0 then true else false : Bool).toUInt16
      | .wmm b => sppWmmSet ctx b := by
  obtain ⟨c, g⟩ := m
  cases c with
  | dup i v =>
    have hi := value_u16At_fst pid g Nl.CommType.dupSet.code (UInt16.ofNat i) (le16 v)
    have hv := value_u16At_snd pid g Nl.CommType.dupSet.code (UInt16.ofNat i) v
    obtain ⟨skb, hskb, ht, hrecv⟩ := recv_frame pid alloc ctx g Nl.CommType.dupSet.code
      (le16 (UInt16.ofNat i) ++ le16 v)
    rw [← hskb] at hi hv
    rw [deliver, SetCall.data, Nl.sppDupSet, ← hskb, hrecv, sppCommMsgProcess, Traced.value_bind,
      Traced.value_bind, ht]
    show sppDupSet ctx (u16At skb (nlmsgHdrlen + 2)).value
      (u16At skb (nlmsgHdrlen + 2 + 2)).value = _
    rw [hi, hv]
  | trim v =>
    have hv := value_u16At_fst pid g Nl.CommType.trimSet.code v []
    obtain ⟨skb, hskb, ht, hrecv⟩ := recv_frame pid alloc ctx g Nl.CommType.trimSet.code (le16 v)
    rw [List.append_nil, ← hskb] at hv
    rw [deliver, SetCall.data, Nl.sppTrimSet, ← hskb, hrecv, sppCommMsgProcess, Traced.value_bind,
      Traced.value_bind, ht]
    show sppTrimSet ctx
      (if (u16At skb (nlmsgHdrlen + 2)).value > 0 then true else false : Bool).toUInt16 = _
    rw [hv]
  | wmm b =>
    have hv := value_u16At_fst pid g Nl.CommType.wmmSet.code b.toUInt16 []
    obtain ⟨skb, hskb, ht, hrecv⟩ := recv_frame pid alloc ctx g Nl.CommType.wmmSet.code
      (le16 b.toUInt16)
    rw [List.append_nil, ← hskb] at hv
    rw [deliver, SetCall.data, Nl.sppWmmSet, ← hskb, hrecv, sppCommMsgProcess, Traced.value_bind,
      Traced.value_bind, ht]
    show sppWmmSet ctx (if (u16At skb (nlmsgHdrlen + 2)).value > 0 then true else false) = _
    rw [hv]
    cases b <;> rfl

/-! ## Any sequence of messages -/

/-- The value a message asks to be stored as the gap `i`. -/
def Sent.dupOf (i : Fin 4) (m : Sent) : Option UInt16 :=
  match m.call with
  | .dup j v => if j = i then some v else none
  | _ => none

/-- The value a message asks to be stored as the dedup window. -/
def Sent.trimOf (m : Sent) : Option UInt16 :=
  match m.call with
  | .trim v => some v
  | _ => none

/-- The value a message asks to be stored as the WMM flag. -/
def Sent.wmmOf (m : Sent) : Option Bool :=
  match m.call with
  | .wmm b => some b
  | _ => none

/-- The two address tables. -/
def SppConfigCtx.tables (k : SppConfigCtx) :
    SppHashTable UInt32 sppServerMax × SppHashTable UInt32 sppClientMax :=
  (k.htSip, k.htCip)

/-- `k` holds in every setting the last value the messages carried for it, and is `ctx` in
everything else. -/
structure Agrees (ctx : SppConfigCtx) (ms : List Sent) (k : SppConfigCtx) : Prop where
  dup : ∀ i : Fin 4, k.dup.get i = (lastWrite (Sent.dupOf i) ms).getD (ctx.dup.get i)
  trim : k.trim = (lastWrite Sent.trimOf ms).getD ctx.trim
  wmm : k.wmm = (lastWrite Sent.wmmOf ms).getD ctx.wmm
  tables : k.tables = ctx.tables

/-- What the kernel makes of a dedup window. -/
def squash (v : UInt16) : UInt16 := (if v > 0 then true else false : Bool).toUInt16

theorem squash_eq_self_iff (v : UInt16) : squash v = v ↔ v ≤ 1 := by
  by_cases hv : v > 0
  · have hone : squash v = 1 := by
      rw [squash, if_pos hv]
      rfl
    rw [hone, eq_comm, UInt16.le_iff_toNat_le, ← UInt16.toNat_inj]
    have hpos : 0 < v.toNat := UInt16.lt_iff_toNat_lt.mp hv
    show v.toNat = 1 ↔ v.toNat ≤ 1
    omega
  · obtain rfl : v = 0 := by simpa using hv
    decide

section Runs

variable (pid : UInt32) (alloc : Bool)

theorem dup_deliver (i : Fin 4) (ctx : SppConfigCtx) (m : Sent) :
    (deliver pid alloc ctx m).dup.get i = ((m.dupOf i).map id).getD (ctx.dup.get i) := by
  obtain ⟨c, g⟩ := m
  rw [deliver_eq]
  cases c with
  | dup j v =>
    rw [dup_sppDupSet, dupIndex_ofNat]
    by_cases hj : j = i
    · simp [Sent.dupOf, hj]
    · simp [Sent.dupOf, hj]
  | trim v => rfl
  | wmm b => rfl

theorem trim_deliver (ctx : SppConfigCtx) (m : Sent) :
    (deliver pid alloc ctx m).trim = (m.trimOf.map squash).getD ctx.trim := by
  obtain ⟨c, g⟩ := m
  rw [deliver_eq]
  cases c <;> rfl

theorem wmm_deliver (ctx : SppConfigCtx) (m : Sent) :
    (deliver pid alloc ctx m).wmm = (m.wmmOf.map id).getD ctx.wmm := by
  obtain ⟨c, g⟩ := m
  rw [deliver_eq]
  cases c <;> rfl

/-- A set message leaves the address tables alone. -/
theorem tables_deliver (ctx : SppConfigCtx) (m : Sent) :
    (deliver pid alloc ctx m).tables = ctx.tables := by
  obtain ⟨c, g⟩ := m
  rw [deliver_eq]
  cases c <;> rfl

/-- **User space and kernel agree** after a sequence of set messages exactly when the last dedup
window sent, if there is one, is 0 or 1. All other settings always agree. -/
theorem agrees_iff (ctx : SppConfigCtx) (ms : List Sent) :
    Agrees ctx ms (ms.foldl (deliver pid alloc) ctx) ↔
      ∀ v, lastWrite Sent.trimOf ms = some v → v ≤ 1 := by
  have htrim := foldl_faithful_iff SppConfigCtx.trim (trim_deliver pid alloc) ctx ms
  have htables := get_foldl_of_fixed SppConfigCtx.tables (tables_deliver pid alloc) ctx ms
  simp only [squash_eq_self_iff] at htrim
  refine ⟨fun h => htrim.mp h.trim, fun h => ?_⟩
  refine ⟨fun i => ?_, htrim.mpr h, ?_, htables⟩
  · exact (foldl_faithful_iff (fun k => k.dup.get i) (dup_deliver pid alloc i) ctx ms).mpr
      fun _ _ => rfl
  · exact (foldl_faithful_iff SppConfigCtx.wmm (wmm_deliver pid alloc) ctx ms).mpr fun _ _ => rfl

end Runs

/-- After a freshly loaded module is sent a window of 20 ms, the least one the server ever sends
besides 0, it uses 1 ms. -/
theorem not_agrees_trim_twenty :
    ¬ Agrees sppConfigInit [⟨.trim 20, ⟨0, [0, 0]⟩⟩]
      ([⟨.trim 20, ⟨0, [0, 0]⟩⟩].foldl (deliver 1 true) sppConfigInit) := by
  intro h
  exact absurd h.trim (by decide)

end Spp

end Tqos
