import Tqos.Lib.Gf256
import Tqos.Spp.Config
import Tqos.Spp.HashTable

/-!
# The packet path

`spp_network.c`: the hook for packets of clients, which drops the copies the client's own doubling
makes, and the hook for packets to clients, which marks them and has a copy of each sent again after
a delay.

## What is left out and what is a parameter

A packet is what the hooks read of its headers. `jhash` and its random seed are parameters, as is
`msecs_to_jiffies`, which depends on the tick rate. Whether `kmem_cache_alloc` and `pskb_copy`
succeed are arguments. `jiffies` has 32 bits, as on the targets.

The settings are read several times within one call of a hook and may be changed in between; the
hook for packets to clients is given the settings at each of its reads.

## Main results

* `nfNetworkUp_eq` — the first hook adds the key of a packet to the table, if it has one
* `nfNetworkDown_marks`, `nfNetworkDown_marked` — what is copied is marked, and what is marked is
  not copied
* `sppDumpWorkCb_eq_const` — that the clock advances during a run of the worker makes no difference
-/

namespace Tqos

namespace Spp

/-- What the hooks read of a packet: `struct iphdr`, the UDP header behind it, in the byte order of
the host, and the bytes behind that. -/
structure Iphdr where
  tos : UInt8
  /-- `IP_DF` is set in `frag_off`. -/
  df : Bool
  protocol : UInt8
  saddr : UInt32
  daddr : UInt32
  source : UInt16
  dest : UInt16
  len : UInt16
  data : List UInt8
deriving DecidableEq, Repr

/-- `IPPROTO_UDP`. -/
abbrev ipprotoUdp : UInt8 := 17

/-- `SPP_FLAG_MASK`. -/
abbrev sppFlagMask : UInt8 := 0x3

/-- `SPP_PACKET_MAX`. -/
abbrev sppPacketMax : ℕ := 1024

/-- What a hook decides. -/
inductive NfVerdict
  | accept
  | drop
deriving DecidableEq, Repr

/-! ## The table of packets -/

/-- The part of `struct spp_packet_entry` that `spp_packet_hash` fills and `spp_packet_equ`
compares. -/
structure PacketKey where
  uhash : UInt32
  ulen : UInt16
  protocol : UInt8
  saddr : UInt32
  daddr : UInt32
  sport : UInt16
  dport : UInt16
deriving DecidableEq, Repr

/-- `struct spp_packet_entry`. -/
structure SppPacketEntry extends PacketKey where
  expire : UInt32
deriving DecidableEq, Repr

/-- What the hooks take from outside of the module. -/
structure KernelEnv where
  jhash : List UInt8 → UInt32 → UInt32
  hrand : UInt32
  msecsToJiffies : UInt16 → UInt32

variable (env : KernelEnv)

/-- `spp_packet_hash`: only a packet that may not be fragmented has a key, and only if its UDP
header leaves room for data. -/
def sppPacketHash (iph : Iphdr) : Option PacketKey :=
  if iph.df = false then none
  else if iph.protocol = ipprotoUdp then
    let ulen := iph.len - 8
    if ulen = 0 then none
    else some {
      uhash := env.jhash (iph.data.take ulen.toNat) env.hrand
      ulen := ulen
      protocol := iph.protocol
      saddr := iph.saddr
      daddr := iph.daddr
      sport := iph.source
      dport := iph.dest }
  else none

/-- `spp_packet_equ`. -/
def sppPacketEqu (e1 : SppPacketEntry) (e2 : PacketKey) : Bool :=
  e1.uhash == e2.uhash && e1.ulen == e2.ulen && e1.protocol == e2.protocol &&
    e1.saddr == e2.saddr && e1.daddr == e2.daddr && e1.sport == e2.sport && e1.dport == e2.dport

/-- `spp_packet_new`: the window, which is set in milliseconds, is added to a number of ticks. -/
def sppPacketNew (alloc : Bool) (jiffies : UInt32) (trim : UInt16) (v : PacketKey) :
    Option SppPacketEntry :=
  if alloc then some { v with expire := jiffies + trim.toUInt32 } else none

/-- The table of packets. -/
abbrev PacketTable := SppHashTable SppPacketEntry sppPacketMax

/-- `nf_network_up`: the verdict, the table and the packet. -/
def nfNetworkUp (alloc : Bool) (jiffies : UInt32) (ctx : SppConfigCtx) (pkt : PacketTable)
    (skb : Option Iphdr) : NfVerdict × PacketTable × Option Iphdr :=
  if sppTrimGet ctx = 0 then (.accept, pkt, skb)
  else
    match skb with
    | none => (.accept, pkt, skb)
    | some iph =>
      if iph.protocol ≠ ipprotoUdp then (.accept, pkt, skb)
      else if (sppCipMatch ctx iph.saddr false).1 = false ∨
          (sppSipMatch ctx iph.daddr false).1 = false then (.accept, pkt, skb)
      else
        match sppPacketHash env iph with
        | none => (.accept, pkt, skb)
        | some pe =>
          match sppHashAdd sppPacketEqu (sppPacketNew alloc jiffies (sppTrimGet ctx)) pkt pe.uhash
            pe with
          | (.error .eexist, pkt) => (.drop, pkt, skb)
          | (_, pkt) => (.accept, pkt, if iph.tos ≠ 0 then some { iph with tos := 0 } else skb)

/-- `pkt_timeout` finds the entry expired. -/
def expired (jiffies : UInt32) (ent : SppPacketEntry) : Bool := decide (ent.expire ≤ jiffies)

/-- `spp_trim_work_cb`. -/
def sppTrimWorkCb (jiffies : UInt32) (pkt : PacketTable) : PacketTable :=
  sppHashVisit (fun ent => !expired jiffies ent) pkt

/-! ## The queue of copies -/

/-- `struct spp_dumper`. -/
structure SppDumper where
  expires : UInt32
  skb : Iphdr
deriving DecidableEq, Repr

/-- The first critical section of `spp_dumper_alloc`, with whether it goes on. -/
def reserve (ndumper : UInt32) : UInt32 × Bool :=
  let ndumper := ndumper + 1
  if ndumper ≥ 1024 then (ndumper - 1, false) else (ndumper, true)

/-- The critical section at `out` when it is entered after a failure. -/
def rollback (ndumper : UInt32) : UInt32 := ndumper - 1

/-- `spp_dumper_alloc`, with the results of `pskb_copy` and `kmem_cache_alloc`. -/
def sppDumperAlloc (copied alloc : Bool) (jiffies : UInt32) (skb : Iphdr) (delay : UInt16)
    (ndumper : UInt32) (dumpGc : List SppDumper) : UInt32 × List SppDumper :=
  let r := reserve ndumper
  if r.2 = false then (r.1, dumpGc)
  else if copied = false then (rollback r.1, dumpGc)
  else if alloc = false then (rollback r.1, dumpGc)
  else (r.1, dumpGc ++ [⟨jiffies + env.msecsToJiffies delay, skb⟩])

/-- The loop of `spp_dump_work_cb`, which reads the clock once for every copy it looks at: what is
sent, what stays and the counter. -/
def sppDumpWorkCb (jiffies : ℕ → UInt32) :
    ℕ → List SppDumper → UInt32 → List SppDumper × List SppDumper × UInt32
  | _, [], ndumper => ([], [], ndumper)
  | i, pos :: dumpGc, ndumper =>
    if pos.expires > jiffies i then ([], pos :: dumpGc, ndumper)
    else
      let r := sppDumpWorkCb jiffies (i + 1) dumpGc (ndumper - 1)
      (pos :: r.1, r.2)

/-! ## The hook for packets to clients -/

/-- The settings at each of the reads of `nf_network_down`, in order. -/
structure DownReads where
  dup : SppConfigCtx
  wmm : SppConfigCtx
  sip : SppConfigCtx
  cip : SppConfigCtx
  mark : SppConfigCtx

/-- Settings that stay as they are. -/
def DownReads.of (ctx : SppConfigCtx) : DownReads := ⟨ctx, ctx, ctx, ctx, ctx⟩

/-- `nf_network_down`, up to its call of `spp_dumper_alloc`: the packet as it goes on, and the delay
with which that function is called, if it is. -/
def nfNetworkDown (r : DownReads) (skb : Option Iphdr) : Option Iphdr × Option UInt16 :=
  let dup := sppDupGet r.dup 0
  if sppWmmGet r.wmm = false ∧ dup = 0 then (skb, none)
  else
    match skb with
    | none => (skb, none)
    | some iph =>
      if iph.protocol ≠ ipprotoUdp ∨ iph.tos &&& sppFlagMask ≠ 0 then (skb, none)
      else if (sppSipMatch r.sip iph.saddr false).1 = false ∨
          (sppCipMatch r.cip iph.daddr false).1 = false then (skb, none)
      else
        let iph := if sppWmmGet r.mark then { iph with tos := 224 } else iph
        let iph := if dup ≠ 0 then { iph with tos := iph.tos ||| 0x1 } else iph
        (some iph, if dup ≠ 0 then some dup else none)

/-! ## What the first hook does -/

section Up

variable {env} {ctx : SppConfigCtx} {skb : Option Iphdr} {k : PacketKey}

/-- The key under which `nf_network_up` looks for a packet, if it comes to that. -/
def upKey (env : KernelEnv) (ctx : SppConfigCtx) (skb : Option Iphdr) : Option PacketKey :=
  if sppTrimGet ctx = 0 then none
  else skb.bind fun iph =>
    if iph.protocol ≠ ipprotoUdp then none
    else if (sppCipMatch ctx iph.saddr false).1 = false ∨
        (sppSipMatch ctx iph.daddr false).1 = false then none
    else sppPacketHash env iph

/-- The callbacks of the table of packets compare whole keys. -/
theorem callbacks_packet (alloc : Bool) (jiffies : UInt32) (trim : UInt16) :
    Callbacks SppPacketEntry.toPacketKey sppPacketEqu (sppPacketNew alloc jiffies trim) id where
  equ_iff a v := by
    obtain ⟨⟨a1, a2, a3, a4, a5, a6, a7⟩, e⟩ := a
    obtain ⟨b1, b2, b3, b4, b5, b6, b7⟩ := v
    simp [sppPacketEqu, and_assoc]
  key_new v a h := by
    rw [sppPacketNew] at h
    split at h
    · obtain rfl := Option.some.inj h
      rfl
    · cases h

/-- The entry of the table for a key. -/
abbrev entryOf (pkt : PacketTable) (k : PacketKey) : Option SppPacketEntry :=
  find SppPacketEntry.toPacketKey PacketKey.uhash pkt k

/-- A packet without a key is accepted and not remembered. -/
theorem nfNetworkUp_none (alloc : Bool) (jiffies : UInt32) (pkt : PacketTable)
    (h : upKey env ctx skb = none) :
    (nfNetworkUp env alloc jiffies ctx pkt skb).1 = .accept ∧
      (nfNetworkUp env alloc jiffies ctx pkt skb).2.1 = pkt := by
  rw [upKey] at h
  rw [nfNetworkUp.eq_def]
  split
  · exact ⟨rfl, rfl⟩
  · rename_i htrim
    rw [if_neg htrim] at h
    cases skb with
    | none => exact ⟨rfl, rfl⟩
    | some iph =>
      rw [Option.bind_some] at h
      dsimp only
      split
      · exact ⟨rfl, rfl⟩
      · rename_i hudp
        rw [if_neg hudp] at h
        split
        · exact ⟨rfl, rfl⟩
        · rename_i hmatch
          rw [if_neg hmatch] at h
          rw [h]
          exact ⟨rfl, rfl⟩

/-- **A packet with a key** is dropped if the table has an entry for it. Otherwise it is accepted,
and remembered if there is memory. -/
theorem nfNetworkUp_some (alloc : Bool) (jiffies : UInt32) (pkt : PacketTable)
    (h : upKey env ctx skb = some k) :
    (nfNetworkUp env alloc jiffies ctx pkt skb).1 =
        (if (entryOf pkt k).isSome then .drop else .accept) ∧
      (nfNetworkUp env alloc jiffies ctx pkt skb).2.1 =
        if (entryOf pkt k).isSome ∨ alloc = false then pkt
        else push pkt k.uhash { k with expire := jiffies + (sppTrimGet ctx).toUInt32 } := by
  have hcb := callbacks_packet alloc jiffies (sppTrimGet ctx)
  have hadd := sppHashAdd_eq PacketKey.uhash hcb pkt k
  rw [id_eq] at hadd
  rw [upKey] at h
  split at h
  · cases h
  · rename_i htrim
    obtain ⟨iph, rfl, hkey⟩ := Option.bind_eq_some_iff.mp h
    split at hkey
    · cases hkey
    · rename_i hudp
      split at hkey
      · cases hkey
      · rename_i hmatch
        simp only [nfNetworkUp, if_neg htrim, if_neg hudp, if_neg hmatch, hkey, hadd]
        by_cases hent : (entryOf pkt k).isSome = true
        · simp only [hent, if_true, true_or, and_self]
        · rw [if_neg hent, if_neg hent]
          cases alloc with
          | false => simp [sppPacketNew]
          | true => simp [sppPacketNew, hent]

end Up

/-! ## What the second hook does -/

section Down

variable {r : DownReads} {iph : Iphdr} {skb : Option Iphdr} {delay : UInt16}

theorem or_one_and_mask (t : UInt8) : (t ||| 0x1) &&& sppFlagMask ≠ 0 := by
  have h := forall_byte (p := fun t => (t ||| 0x1) &&& sppFlagMask != 0) (by decide +kernel) t
  simpa using h

/-- **What is copied is marked**, whatever the settings were at each of the reads. -/
theorem nfNetworkDown_marks (h : (nfNetworkDown r skb).2 = some delay) :
    ∃ iph, (nfNetworkDown r skb).1 = some iph ∧ iph.tos &&& sppFlagMask ≠ 0 := by
  rw [nfNetworkDown.eq_def] at h ⊢
  dsimp only at h ⊢
  split at h
  · cases h
  · rename_i hon
    rw [if_neg hon]
    cases skb with
    | none => cases h
    | some iph =>
      dsimp only at h ⊢
      split at h
      · cases h
      · rename_i hudp
        rw [if_neg hudp]
        split at h
        · cases h
        · rename_i hmatch
          rw [if_neg hmatch]
          dsimp only at h ⊢
          split at h
          · rename_i hdup
            rw [if_pos hdup]
            exact ⟨_, rfl, or_one_and_mask _⟩
          · cases h

/-- **What is marked is not copied**, nor changed. -/
theorem nfNetworkDown_marked (r : DownReads) (h : iph.tos &&& sppFlagMask ≠ 0) :
    nfNetworkDown r (some iph) = (some iph, none) := by
  rw [nfNetworkDown]
  dsimp only
  split
  · rfl
  · rw [if_pos (Or.inr h)]

end Down

/-! ## The worker -/

section Worker

variable {jiffies : ℕ → UInt32} {i : ℕ} {gc : List SppDumper} {n : UInt32}

/-- The worker takes copies off the front of the queue. -/
theorem sppDumpWorkCb_append (jiffies : ℕ → UInt32) (i : ℕ) (gc : List SppDumper) (n : UInt32) :
    (sppDumpWorkCb jiffies i gc n).1 ++ (sppDumpWorkCb jiffies i gc n).2.1 = gc := by
  induction gc generalizing i n with
  | nil => rfl
  | cons pos gc ih =>
    rw [sppDumpWorkCb]
    split
    · rfl
    · exact congrArg (pos :: ·) (ih (i + 1) (n - 1))

/-- A clock that stands still. -/
theorem sppDumpWorkCb_const (now : UInt32) (i : ℕ) (gc : List SppDumper) (n : UInt32) :
    (sppDumpWorkCb (fun _ => now) i gc n).1 = gc.takeWhile (fun d => decide (d.expires ≤ now)) ∧
      (sppDumpWorkCb (fun _ => now) i gc n).2.1 =
        gc.dropWhile fun d => decide (d.expires ≤ now) := by
  induction gc generalizing i n with
  | nil => exact ⟨rfl, rfl⟩
  | cons pos gc ih =>
    obtain ⟨htake, hdrop⟩ := ih (i + 1) (n - 1)
    rw [sppDumpWorkCb]
    split
    · rename_i hlater
      have hnot : ¬ pos.expires ≤ now := UInt32.not_le.mpr hlater
      simp [hnot]
    · rename_i hdue
      have hle : pos.expires ≤ now := UInt32.not_lt.mp hdue
      simp [hle, htake, hdrop]

/-- The counter goes down by one for every copy that is sent. -/
theorem ndumper_sppDumpWorkCb (jiffies : ℕ → UInt32) (i : ℕ) (h : gc.length ≤ n.toNat) :
    (sppDumpWorkCb jiffies i gc n).2.2.toNat + (sppDumpWorkCb jiffies i gc n).1.length =
      n.toNat := by
  induction gc generalizing i n with
  | nil => rfl
  | cons pos gc ih =>
    rw [List.length_cons] at h
    rw [sppDumpWorkCb]
    split
    · rfl
    · have hone : (1 : UInt32) ≤ n := by
        rw [UInt32.le_iff_toNat_le]
        exact (Nat.succ_pos _).trans_le h
      have hsub : (n - 1).toNat = n.toNat - 1 := UInt32.toNat_sub_of_le n 1 hone
      have hrest := ih (n := n - 1) (i + 1) (by omega)
      show (sppDumpWorkCb jiffies (i + 1) gc (n - 1)).2.2.toNat +
        ((sppDumpWorkCb jiffies (i + 1) gc (n - 1)).1.length + 1) = n.toNat
      omega

/-- **A clock that advances during the run** makes no difference: the run is that at the last
reading. -/
theorem sppDumpWorkCb_eq_const (hclock : ∀ a b, a ≤ b → jiffies a ≤ jiffies b) :
    sppDumpWorkCb jiffies i gc n = sppDumpWorkCb
      (fun _ => jiffies (i + (sppDumpWorkCb jiffies i gc n).1.length)) i gc n := by
  induction gc generalizing i n with
  | nil => rfl
  | cons pos gc ih =>
    by_cases hdue : pos.expires > jiffies i
    · have hstop : sppDumpWorkCb jiffies i (pos :: gc) n = ([], pos :: gc, n) := if_pos hdue
      rw [hstop, sppDumpWorkCb]
      exact (if_pos hdue).symm
    · have hgo : sppDumpWorkCb jiffies i (pos :: gc) n =
          (pos :: (sppDumpWorkCb jiffies (i + 1) gc (n - 1)).1,
            (sppDumpWorkCb jiffies (i + 1) gc (n - 1)).2) := if_neg hdue
      have hlast : i + (sppDumpWorkCb jiffies i (pos :: gc) n).1.length =
          i + 1 + (sppDumpWorkCb jiffies (i + 1) gc (n - 1)).1.length := by
        rw [hgo, List.length_cons]
        omega
      have hstill : ¬ pos.expires >
          jiffies (i + 1 + (sppDumpWorkCb jiffies (i + 1) gc (n - 1)).1.length) := by
        have hle := hclock i (i + 1 + (sppDumpWorkCb jiffies (i + 1) gc (n - 1)).1.length)
          (by omega)
        exact UInt32.not_lt.mpr (UInt32.le_trans (UInt32.not_lt.mp hdue) hle)
      have hconst : sppDumpWorkCb (fun _ =>
          jiffies (i + 1 + (sppDumpWorkCb jiffies (i + 1) gc (n - 1)).1.length)) i (pos :: gc) n =
          (pos :: (sppDumpWorkCb (fun _ => jiffies (i + 1 +
              (sppDumpWorkCb jiffies (i + 1) gc (n - 1)).1.length)) (i + 1) gc (n - 1)).1,
            (sppDumpWorkCb (fun _ => jiffies (i + 1 +
              (sppDumpWorkCb jiffies (i + 1) gc (n - 1)).1.length)) (i + 1) gc (n - 1)).2) :=
        if_neg hstill
      rw [hlast, hconst, ← @ih (i + 1) (n - 1), hgo]

end Worker

end Spp

end Tqos
