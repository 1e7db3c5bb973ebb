import Tqos.Lib.Bytes
import Tqos.Lib.Traced
import Tqos.Spp.Config

/-!
# What the kernel module makes of a message

`spp_nl_recv_msg` and `spp_comm_msg_process`, on the bytes of the socket buffer. Every read of the
buffer is logged; a read past its end yields only the bytes that exist.
-/

namespace Tqos

namespace Spp

/-- `spp_comm_type_t` as `spp_comm.h` declares it. -/
inductive CommType
  | sipAdd | sipDel | cipAdd | cipDel
  | wmmGet | wmmGetAck | wmmSet
  | dupGet | dupGetAck | dupSet
  | trimGet | trimGetAck | trimSet
deriving DecidableEq, Repr

/-- The types in the order of the enumeration. -/
def CommType.all : List CommType :=
  [.sipAdd, .sipDel, .cipAdd, .cipDel, .wmmGet, .wmmGetAck, .wmmSet, .dupGet, .dupGetAck, .dupSet,
    .trimGet, .trimGetAck, .trimSet]

/-- The type a number stands for. -/
def CommType.ofCode (n : UInt16) : Option CommType := CommType.all[n.toNat]?

/-- The number of a type. -/
def CommType.code (t : CommType) : UInt16 := UInt16.ofNat (CommType.all.idxOf t)

theorem CommType.ofCode_code (t : CommType) : CommType.ofCode t.code = some t := by
  cases t <;> rfl

/-- The one buffer that is read. -/
inductive SkbBuf
  /-- The socket buffer of the message being received. -/
  | skb
deriving DecidableEq, Repr

/-- A 16-bit number at an offset of the buffer. -/
def u16At (skb : List UInt8) (off : ℕ) : Traced Empty SkbBuf UInt16 := do
  let l ← Traced.load .skb skb off 2
  pure (UInt16.ofNat (natLE l))

/-- A 32-bit number at an offset of the buffer. -/
def u32At (skb : List UInt8) (off : ℕ) : Traced Empty SkbBuf UInt32 := do
  let l ← Traced.load .skb skb off 4
  pure (UInt32.ofNat (natLE l))

/-- Where `NLMSG_DATA` points. -/
abbrev nlmsgHdrlen : ℕ := 16

/-- The answer to a request for a setting: to whom, and the data given to `spp_nl_send_msg`. -/
abbrev Reply := UInt32 × List UInt8

/-- `state` and the `sizeof(state)` bytes of it that are sent. -/
def stateReply (pid : UInt32) (t : CommType) (value : UInt16) : Reply :=
  (pid, (le16 t.code ++ le16 value).take 2)

/-- `spp_comm_msg_process`. -/
def sppCommMsgProcess (alloc : Bool) (skb : List UInt8) (ctx : SppConfigCtx) :
    Traced Empty SkbBuf (SppConfigCtx × Option Reply) := do
  let pid ← u32At skb 12
  let msgType ← u16At skb nlmsgHdrlen
  let data := nlmsgHdrlen + 2
  match CommType.ofCode msgType with
  | some .sipAdd => do
    let ip ← u32At skb data
    pure ((sppSipAdd alloc ctx ip).2, none)
  | some .sipDel => do
    let ip ← u32At skb data
    pure (sppSipDel ctx ip, none)
  | some .cipAdd => do
    let ip ← u32At skb data
    pure ((sppCipAdd alloc ctx ip).2, none)
  | some .cipDel => do
    let ip ← u32At skb data
    pure (sppCipDel ctx ip, none)
  | some .wmmGet =>
    pure (ctx, some (stateReply pid .wmmGetAck (sppWmmGet ctx).toUInt16))
  | some .wmmSet => do
    let value ← u16At skb data
    pure (sppWmmSet ctx (if value > 0 then true else false), none)
  | some .dupGet => do
    let value ← u16At skb data
    pure (ctx, some (stateReply pid .dupGetAck (sppDupGet ctx value)))
  | some .dupSet => do
    let index ← u16At skb data
    let value ← u16At skb (data + 2)
    pure (sppDupSet ctx index value, none)
  | some .trimGet =>
    pure (ctx, some (stateReply pid .trimGetAck (sppTrimGet ctx)))
  | some .trimSet => do
    let value ← u16At skb data
    -- the value is turned into a `bool` and back into a `u16`
    pure (sppTrimSet ctx (if value > 0 then true else false : Bool).toUInt16, none)
  | some .wmmGetAck | some .dupGetAck | some .trimGetAck | none => pure (ctx, none)

/-- `spp_nl_recv_msg`. -/
def sppNlRecvMsg (alloc : Bool) (skb : List UInt8) (ctx : SppConfigCtx) :
    Traced Empty SkbBuf (SppConfigCtx × Option Reply) :=
  if nlmsgHdrlen ≤ skb.length then sppCommMsgProcess alloc skb ctx else pure (ctx, none)

end Spp

end Tqos
