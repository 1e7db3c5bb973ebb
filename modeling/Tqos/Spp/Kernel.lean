import Tqos.Spp.Comm
import Tqos.Spp.Network

/-!
# The running module

What reaches the module one after another: frames from user space, packets at either hook, and runs
of the two workers, each at some reading of the clock.

`ip_local_out` hands a copy to the second hook again. The copy is marked, so that nothing happens to
it there (`nfNetworkDown_marked`), and a copy that is sent is only noted here. The clock stands
still during a run of the worker, which is no restriction (`sppDumpWorkCb_eq_const`).
-/

namespace Tqos

namespace Spp

/-- What the module holds: the settings, the table of packets and the queue of copies. -/
structure Net where
  ctx : SppConfigCtx
  pkt : PacketTable
  ndumper : UInt32
  dumpGc : List SppDumper

/-- A module that was just loaded. -/
def netInit : Net := ⟨sppConfigInit, sppHashTableNew SppPacketEntry sppPacketMax, 0, []⟩

/-- What reaches the module. -/
inductive NetEvent
  /-- A frame on the netlink socket. -/
  | netlink (alloc : Bool) (skb : List UInt8)
  /-- A packet at `nf_network_up`. -/
  | up (alloc : Bool) (skb : Option Iphdr)
  /-- A packet at `nf_network_down`. -/
  | down (copied alloc : Bool) (skb : Option Iphdr)
  /-- `spp_trim_work_cb` runs. -/
  | trimWork
  /-- `spp_dump_work_cb` runs. -/
  | dumpWork

/-- What the module decides. -/
inductive Decision
  | none
  | verdict (v : NfVerdict)
  /-- The entries with these keys are removed. -/
  | removed (ks : List PacketKey)
  /-- These copies are sent. -/
  | sent (skbs : List Iphdr)
deriving DecidableEq

variable (env : KernelEnv)

/-- One event at a reading of the clock. -/
def netStep (jiffies : UInt32) (s : Net) : NetEvent → Net × Decision
  | .netlink alloc skb => ({ s with ctx := (sppNlRecvMsg alloc skb s.ctx).value.1 }, .none)
  | .up alloc skb =>
    let r := nfNetworkUp env alloc jiffies s.ctx s.pkt skb
    ({ s with pkt := r.2.1 }, .verdict r.1)
  | .down copied alloc skb =>
    match nfNetworkDown (.of s.ctx) skb with
    | (some iph, some delay) =>
      let r := sppDumperAlloc env copied alloc jiffies iph delay s.ndumper s.dumpGc
      ({ s with ndumper := r.1, dumpGc := r.2 }, .verdict .accept)
    | _ => (s, .verdict .accept)
  | .trimWork =>
    ({ s with pkt := sppTrimWorkCb jiffies s.pkt },
      .removed ((s.pkt.nodes.filter (expired jiffies)).map SppPacketEntry.toPacketKey))
  | .dumpWork =>
    let r := sppDumpWorkCb (fun _ => jiffies) 0 s.dumpGc s.ndumper
    ({ s with dumpGc := r.2.1, ndumper := r.2.2 }, .sent (r.1.map SppDumper.skb))

end Spp

end Tqos
