import Tqos.Lib.Bytes

/-!
# What user space sends to the kernel module

The message builders of `nl.c` and the netlink frame around them, byte for byte on the little-endian
target. A builder writes its arguments behind a two-byte local `msg` and sends both; the bytes come
out as if the local had been large enough, which is how they are modelled.

Three parts of a frame are whatever the heap held before, so they are arguments: the sequence number
and the bytes between the end of the data and the next multiple of four.
-/

namespace Tqos

namespace Nl

/-- `spp_comm_type_t` as `nl.h` declares it. -/
inductive CommType
  | sipAdd | sipDel | cipAdd | cipDel
  | wmmGet | wmmGetAck | wmmSet
  | dupGet | dupGetAck | dupSet
  | trimGet | trimGetAck | trimSet
deriving DecidableEq, Repr

/-- The number the enumeration gives a type. -/
def CommType.code : CommType → UInt16
  | .sipAdd => 0 | .sipDel => 1 | .cipAdd => 2 | .cipDel => 3
  | .wmmGet => 4 | .wmmGetAck => 5 | .wmmSet => 6
  | .dupGet => 7 | .dupGetAck => 8 | .dupSet => 9
  | .trimGet => 10 | .trimGetAck => 11 | .trimSet => 12

/-- A message whose value is an address. -/
def ipMsg (t : CommType) (ip : UInt32) : List UInt8 := le16 t.code ++ le32 ip

/-- The data of `spp_sip_add`. -/
def sppSipAdd (ip : UInt32) : List UInt8 := ipMsg .sipAdd ip

/-- The data of `spp_sip_del`. -/
def sppSipDel (ip : UInt32) : List UInt8 := ipMsg .sipDel ip

/-- The data of `spp_cip_add`. -/
def sppCipAdd (ip : UInt32) : List UInt8 := ipMsg .cipAdd ip

/-- The data of `spp_cip_del`. -/
def sppCipDel (ip : UInt32) : List UInt8 := ipMsg .cipDel ip

/-- The data of `spp_wmm_set`. -/
def sppWmmSet (state : Bool) : List UInt8 := le16 CommType.wmmSet.code ++ le16 state.toUInt16

/-- The data of `spp_dup_set`. -/
def sppDupSet (index val : UInt16) : List UInt8 :=
  le16 CommType.dupSet.code ++ (le16 index ++ le16 val)

/-- The data of `spp_trim_set`. -/
def sppTrimSet (v : UInt16) : List UInt8 := le16 CommType.trimSet.code ++ le16 v

/-- What `malloc` leaves in the parts of a frame nobody writes. -/
structure Garbage where
  seq : UInt32
  pad : List UInt8
deriving DecidableEq

/-- `NLMSG_SPACE`. -/
def nlmsgSpace (len : ℕ) : ℕ := (len + 16 + 3) / 4 * 4

/-- `struct nlmsghdr` as `spp_netlink_send_msg` fills it. -/
def nlmsghdr (pid : UInt32) (g : Garbage) (dataLen : ℕ) : List UInt8 :=
  le32 (UInt32.ofNat (nlmsgSpace dataLen)) ++ (le16 0 ++ (le16 0 ++ (le32 g.seq ++ le32 pid)))

@[simp] theorem length_nlmsghdr (pid : UInt32) (g : Garbage) (dataLen : ℕ) :
    (nlmsghdr pid g dataLen).length = 16 := by
  simp [nlmsghdr]

/-- `spp_netlink_send_msg`: the bytes handed to `sendmsg`. -/
def sppNetlinkSendMsg (pid : UInt32) (g : Garbage) (data : List UInt8) : List UInt8 :=
  nlmsghdr pid g data.length ++
    (data ++ g.pad.take (nlmsgSpace data.length - 16 - data.length))

end Nl

end Tqos
