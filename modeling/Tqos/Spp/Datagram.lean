import Tqos.Spp.Comm
import Tqos.Spp.Network

/-!
# The bytes of a packet

`spp_packet_hash` on the bytes of a datagram, with every read of them logged. The IP layer has
looked at the two lengths of the IP header, nobody at the one of the UDP header: what
`spp_packet_hash` takes for the length of the data is that one less 8, in 16 bits.

## Main results

* `value_sppPacketHash_eq` — the key is that of the headers, which the hooks are described by
* `hashesInside_iff` — when only bytes of the datagram are read
-/

namespace Tqos

namespace Spp

/-! ## Fields -/

/-- `ntohs`, `htons`. -/
def ntohs (v : UInt16) : UInt16 := v <<< 8 ||| v >>> 8

/-- `IP_DF`. -/
abbrev ipDf : UInt16 := 0x4000

/-- A byte at an offset of the buffer. -/
def u8At (skb : List UInt8) (off : ℕ) : Traced Empty SkbBuf UInt8 := do
  let l ← Traced.load .skb skb off 1
  pure (UInt8.ofNat (natLE l))

/-- `ihl << 2`. -/
def iphlen (ihl : UInt8) : ℕ := (ihl &&& 0xF).toNat * 4

/-- A datagram that the IP layer has let through, of the kind that `spp_packet_hash` looks into. It
ends where the header says. -/
structure Datagram where
  bytes : List UInt8
  hlen_ge : 20 ≤ iphlen (u8At bytes 0).value
  hlen_le : iphlen (u8At bytes 0).value ≤ bytes.length
  total : (ntohs (u16At bytes 2).value).toNat = bytes.length
  df : (u16At bytes 6).value &&& ntohs ipDf ≠ 0
  udp : (u8At bytes 9).value = ipprotoUdp

namespace Datagram

variable (env : KernelEnv) (d : Datagram)

/-- The length of the IP header. -/
def hlen : ℕ := iphlen (u8At d.bytes 0).value

/-- `uh->len`. -/
def len : UInt16 := ntohs (u16At d.bytes (d.hlen + 4)).value

/-- `spp_packet_hash`. -/
def sppPacketHash : Traced Empty SkbBuf (Option PacketKey) := do
  let ihl ← u8At d.bytes 0
  let transport := iphlen ihl
  let fragOff ← u16At d.bytes 6
  if fragOff &&& ntohs ipDf = 0 then pure none
  else
    let protocol ← u8At d.bytes 9
    if protocol = ipprotoUdp then
      let len ← u16At d.bytes (transport + 4)
      let ulen := ntohs len - 8
      let sport ← u16At d.bytes transport
      let dport ← u16At d.bytes (transport + 2)
      if ulen = 0 then pure none
      else
        let data ← Traced.load .skb d.bytes (transport + 8) ulen.toNat
        let saddr ← u32At d.bytes 12
        let daddr ← u32At d.bytes 16
        pure (some {
          uhash := env.jhash data env.hrand
          ulen := ulen
          protocol := protocol
          saddr := saddr
          daddr := daddr
          sport := sport
          dport := dport })
    else pure none

/-- The headers, as the hooks are described by them. -/
def iphdr : Iphdr where
  tos := (u8At d.bytes 1).value
  df := true
  protocol := (u8At d.bytes 9).value
  saddr := (u32At d.bytes 12).value
  daddr := (u32At d.bytes 16).value
  source := (u16At d.bytes d.hlen).value
  dest := (u16At d.bytes (d.hlen + 2)).value
  len := d.len
  data := d.bytes.drop (d.hlen + 8)

/-- What a key is made of. -/
def key : PacketKey where
  uhash := env.jhash (d.iphdr.data.take (d.len - 8).toNat) env.hrand
  ulen := d.len - 8
  protocol := d.iphdr.protocol
  saddr := d.iphdr.saddr
  daddr := d.iphdr.daddr
  sport := d.iphdr.source
  dport := d.iphdr.dest

/-- **When there is a key**: if there is said to be data. -/
theorem value_sppPacketHash : (d.sppPacketHash env).value =
    if d.len - 8 = 0 then none else some (d.key env) := by
  rw [sppPacketHash]
  simp only [Traced.value_bind, Traced.value_ite, Traced.value_pure, Traced.value_load, if_neg d.df,
    if_pos d.udp]
  rfl

/-- **The key is that of the headers.** -/
theorem value_sppPacketHash_eq :
    (d.sppPacketHash env).value = Spp.sppPacketHash env d.iphdr := by
  have hudp : d.iphdr.protocol = ipprotoUdp := d.udp
  rw [value_sppPacketHash, Spp.sppPacketHash, if_pos hudp]
  rfl

/-- The headers are read, the length first. -/
def headerReads : List (Access SkbBuf) :=
  [⟨.skb, .read, 0, 1⟩, ⟨.skb, .read, 6, 2⟩, ⟨.skb, .read, 9, 1⟩,
    ⟨.skb, .read, (d.hlen + 4 : ℕ), 2⟩, ⟨.skb, .read, d.hlen, 2⟩,
    ⟨.skb, .read, (d.hlen + 2 : ℕ), 2⟩]

/-- The reads when there is a key: the data, as long as it is said to be, and the addresses. -/
def dataReads : List (Access SkbBuf) :=
  [⟨.skb, .read, (d.hlen + 8 : ℕ), (d.len - 8).toNat⟩, ⟨.skb, .read, 12, 4⟩, ⟨.skb, .read, 16, 4⟩]

/-- **What is read.** -/
theorem log_sppPacketHash : (d.sppPacketHash env).log =
    d.headerReads ++ if d.len - 8 = 0 then [] else d.dataReads := by
  have hlog (p : Prop) [Decidable p] (x y : Traced Empty SkbBuf (Option PacketKey)) :
      (if p then x else y).log = if p then x.log else y.log := by
    split <;> rfl
  rw [sppPacketHash]
  simp only [Traced.log_bind, hlog, if_neg d.df, if_pos d.udp]
  rfl

/-! ## Inside the datagram -/

/-- What is asked of the function: it reads bytes of the datagram, and when it makes a key, the data
it has hashed lies in the datagram and is as long as the header says. -/
structure HashesInside : Prop where
  reads : ∀ a ∈ (d.sppPacketHash env).log, a.Inside fun _ => d.bytes.length
  hashes : ∀ k, (d.sppPacketHash env).value = some k →
    d.hlen + 8 + k.ulen.toNat ≤ d.bytes.length ∧ (k.ulen.toNat : ℤ) = (d.len.toNat : ℤ) - 8

/-- The difference of 16 bits, when it is one. -/
theorem toNat_sub_eight {v : UInt16} (h : 8 ≤ v.toNat) : (v - 8).toNat = v.toNat - 8 :=
  UInt16.toNat_sub_of_le v 8 (UInt16.le_iff_toNat_le.mpr h)

/-- Only without data the difference is zero. -/
theorem ulen_eq_zero_iff : d.len - 8 = 0 ↔ d.len.toNat = 8 := by
  constructor
  · intro h
    rw [← UInt16.sub_add_cancel d.len 8, h]
    rfl
  · intro h
    rw [← UInt16.toNat_inj, toNat_sub_eight h.ge, h]
    rfl

/-- Of the headers, the length in the UDP header is what is read last in the datagram. -/
theorem headerReads_inside_iff : (∀ a ∈ d.headerReads, a.Inside fun _ => d.bytes.length) ↔
    d.hlen + 6 ≤ d.bytes.length := by
  have hhlen : 20 ≤ d.hlen := d.hlen_ge
  have hle : d.hlen ≤ d.bytes.length := d.hlen_le
  constructor
  · intro h
    have hlen : (⟨.skb, .read, (d.hlen + 4 : ℕ), 2⟩ : Access SkbBuf).Inside
        fun _ => d.bytes.length := h _ (by simp [headerReads])
    simp only [Access.Inside] at hlen
    omega
  · intro hsix a ha
    simp only [headerReads, List.mem_cons, List.not_mem_nil, or_false] at ha
    rcases ha with rfl | rfl | rfl | rfl | rfl | rfl <;> simp only [Access.Inside] <;> omega

/-- Where the data lies in the datagram, all that is read for a key does. -/
theorem dataReads_inside (h : d.hlen + 8 + (d.len - 8).toNat ≤ d.bytes.length) :
    ∀ a ∈ d.dataReads, a.Inside fun _ => d.bytes.length := by
  have hhlen : 20 ≤ d.hlen := d.hlen_ge
  have hle : d.hlen ≤ d.bytes.length := d.hlen_le
  intro a ha
  simp only [dataReads, List.mem_cons, List.not_mem_nil, or_false] at ha
  rcases ha with rfl | rfl | rfl <;> simp only [Access.Inside] <;> omega

/-- **When only the datagram is read**: exactly if the part of the UDP header that is looked at lies
in it, the length there is at least that of a UDP header, and so much is there, unless it is said to
be without data. -/
theorem hashesInside_iff : d.HashesInside env ↔
    d.hlen + 6 ≤ d.bytes.length ∧ 8 ≤ d.len.toNat ∧
      (8 < d.len.toNat → d.hlen + d.len.toNat ≤ d.bytes.length) := by
  constructor
  · intro h
    have hsix := d.headerReads_inside_iff.mp fun a ha => h.reads a <| by
      rw [log_sppPacketHash]
      exact List.mem_append_left _ ha
    by_cases hulen : d.len - 8 = 0
    · have height : d.len.toNat = 8 := d.ulen_eq_zero_iff.mp hulen
      exact ⟨hsix, height.ge, fun hlt => absurd height hlt.ne'⟩
    · have hkey : (d.sppPacketHash env).value = some (d.key env) := by
        rw [value_sppPacketHash, if_neg hulen]
      obtain ⟨hinside, hlen⟩ := h.hashes _ hkey
      exact ⟨hsix, by omega, fun _ => by omega⟩
  · rintro ⟨hsix, height, hdata⟩
    have hsub := toNat_sub_eight height
    have hroom (hulen : d.len - 8 ≠ 0) :
        d.hlen + 8 + (d.len - 8).toNat ≤ d.bytes.length := by
      rw [Ne, ulen_eq_zero_iff] at hulen
      have hthere := hdata (by omega)
      omega
    refine ⟨?_, fun k hk => ?_⟩
    · rw [log_sppPacketHash, List.forall_mem_append]
      refine ⟨d.headerReads_inside_iff.mpr hsix, ?_⟩
      split
      · exact fun a ha => absurd ha List.not_mem_nil
      · exact d.dataReads_inside (hroom ‹_›)
    · rw [value_sppPacketHash] at hk
      split at hk
      · cases hk
      · rename_i hulen
        obtain rfl := Option.some.inj hk
        refine ⟨hroom hulen, ?_⟩
        show ((d.len - 8).toNat : ℤ) = _
        omega

end Datagram

/-- From a client to a server, a UDP header of zeros. -/
def zeroLength : Datagram where
  bytes := [0x45, 0, 0, 28, 0, 0, 0x40, 0, 64, 17, 0, 0, 192, 168, 1, 10, 10, 0, 0, 1,
    0, 0, 0, 0, 0, 0, 0, 0]
  hlen_ge := by decide
  hlen_le := by decide
  total := by decide
  df := by decide
  udp := by decide

/-- Of that datagram, 65528 bytes are hashed. -/
theorem not_hashesInside_zeroLength :
    ¬ zeroLength.HashesInside ⟨fun _ _ => 0, 0, fun ms => ms.toUInt32⟩ := by
  intro h
  have hk : (zeroLength.sppPacketHash ⟨fun _ _ => 0, 0, fun ms => ms.toUInt32⟩).value =
      some ⟨0, 65528, ipprotoUdp, 0x0A01A8C0, 0x0100000A, 0, 0⟩ := by decide +kernel
  exact absurd (h.hashes _ hk).2 (by decide)

end Spp

end Tqos
