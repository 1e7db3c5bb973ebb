import Tqos.Spp.Kernel
import Tqos.Tserver.Nl

/-!
# When the counter wraps

`jiffies` has 32 bits and starts five minutes before it wraps. A deadline is the counter at some
tick plus a delay, and it is compared with the counter as a plain number.

## Main results

* `netStep_shift` — as long as no comparison comes out differently, a module whose clock is ahead
  does the same, with all deadlines ahead by the same amount
* `sameDecisions_iff` — two modules whose clocks start anywhere decide the same, exactly when every
  comparison has the wrap between deadline and clock in both of them or in neither
-/

namespace Tqos

namespace Spp

/-! ## A clock that is ahead -/

/-- An entry with its stamp ahead by `δ`. -/
def SppPacketEntry.shift (δ : UInt32) (ent : SppPacketEntry) : SppPacketEntry :=
  { ent with expire := ent.expire + δ }

/-- A copy with its deadline ahead by `δ`. -/
def SppDumper.shift (δ : UInt32) (d : SppDumper) : SppDumper := { d with expires := d.expires + δ }

/-- The module with all deadlines ahead by `δ`. -/
def Net.shift (δ : UInt32) (s : Net) : Net :=
  { s with pkt := s.pkt.map (SppPacketEntry.shift δ), dumpGc := s.dumpGc.map (SppDumper.shift δ) }

/-- The deadlines a run of `spp_dump_work_cb` looks at: up to the first that is not reached. -/
def lookedAt (now : UInt32) : List SppDumper → List UInt32
  | [] => []
  | pos :: dumpGc => pos.expires :: if pos.expires ≤ now then lookedAt now dumpGc else []

/-- The deadlines that an event has compared with the clock. -/
def compared (now : UInt32) (s : Net) : NetEvent → List UInt32
  | .trimWork => s.pkt.nodes.map SppPacketEntry.expire
  | .dumpWork => lookedAt now s.dumpGc
  | _ => []

/-- A comparison comes out the same when both sides are ahead by `δ`. -/
def Steady (δ now d : UInt32) : Prop := d ≤ now ↔ d + δ ≤ now + δ

section Shift

variable {env : KernelEnv} {δ now : UInt32} {s : Net} {e : NetEvent}

/-- The verdict on a packet does not depend on the stamps, and the new entry has its own ahead. -/
theorem nfNetworkUp_shift (env : KernelEnv) (δ now : UInt32) (alloc : Bool) (ctx : SppConfigCtx)
    (pkt : PacketTable)
    (skb : Option Iphdr) :
    (nfNetworkUp env alloc (now + δ) ctx (pkt.map (SppPacketEntry.shift δ)) skb).1 =
        (nfNetworkUp env alloc now ctx pkt skb).1 ∧
      (nfNetworkUp env alloc (now + δ) ctx (pkt.map (SppPacketEntry.shift δ)) skb).2.1 =
        (nfNetworkUp env alloc now ctx pkt skb).2.1.map (SppPacketEntry.shift δ) := by
  cases hk : upKey env ctx skb with
  | none =>
    obtain ⟨hv, hpkt⟩ := nfNetworkUp_none alloc now pkt hk
    obtain ⟨hv', hpkt'⟩ :=
      nfNetworkUp_none alloc (now + δ) (pkt.map (SppPacketEntry.shift δ)) hk
    exact ⟨hv'.trans hv.symm, by rw [hpkt', hpkt]⟩
  | some k =>
    obtain ⟨hv, hpkt⟩ := nfNetworkUp_some alloc now pkt hk
    obtain ⟨hv', hpkt'⟩ :=
      nfNetworkUp_some alloc (now + δ) (pkt.map (SppPacketEntry.shift δ)) hk
    have hent : (entryOf (pkt.map (SppPacketEntry.shift δ)) k).isSome = (entryOf pkt k).isSome := by
      have hfind : entryOf (pkt.map (SppPacketEntry.shift δ)) k =
          (entryOf pkt k).map (SppPacketEntry.shift δ) := find_map PacketKey.uhash fun _ => rfl
      rw [hfind, Option.isSome_map]
    rw [hv, hv', hpkt, hpkt', hent]
    refine ⟨rfl, ?_⟩
    split
    · rfl
    · rw [← push_map]
      congr 1
      rw [SppPacketEntry.shift]
      simp only [SppPacketEntry.mk.injEq, true_and]
      rw [UInt32.add_assoc, UInt32.add_assoc, UInt32.add_comm δ]

/-- A sweep removes the same entries if no comparison comes out differently. -/
theorem sppTrimWorkCb_shift (pkt : PacketTable)
    (h : ∀ ent ∈ pkt.nodes, Steady δ now ent.expire) :
    sppTrimWorkCb (now + δ) (pkt.map (SppPacketEntry.shift δ)) =
        (sppTrimWorkCb now pkt).map (SppPacketEntry.shift δ) ∧
      ((pkt.map (SppPacketEntry.shift δ)).nodes.filter (expired (now + δ))).map
          SppPacketEntry.toPacketKey =
        (pkt.nodes.filter (expired now)).map SppPacketEntry.toPacketKey := by
  have hsame : ∀ ent ∈ pkt.nodes, expired (now + δ) (ent.shift δ) = expired now ent := by
    intro ent hent
    exact decide_eq_decide.mpr (h ent hent).symm
  constructor
  · rw [sppTrimWorkCb, sppHashVisit_map, sppTrimWorkCb]
    congr 1
    refine sppHashVisit_congr fun ent hent => ?_
    rw [Function.comp_apply, hsame ent hent]
  · rw [nodes_map, List.filter_map, List.map_map]
    refine congrArg (List.map SppPacketEntry.toPacketKey) (List.filter_congr fun ent hent => ?_)
    exact hsame ent hent

/-- The worker sends the same copies if no comparison comes out differently. -/
theorem sppDumpWorkCb_shift (i : ℕ) (gc : List SppDumper) (n : UInt32)
    (h : ∀ d ∈ lookedAt now gc, Steady δ now d) :
    sppDumpWorkCb (fun _ => now + δ) i (gc.map (SppDumper.shift δ)) n =
      ((sppDumpWorkCb (fun _ => now) i gc n).1.map (SppDumper.shift δ),
        (sppDumpWorkCb (fun _ => now) i gc n).2.1.map (SppDumper.shift δ),
        (sppDumpWorkCb (fun _ => now) i gc n).2.2) := by
  induction gc generalizing i n with
  | nil => rfl
  | cons pos gc ih =>
    rw [lookedAt, List.forall_mem_cons] at h
    obtain ⟨hpos, hrest⟩ := h
    rw [List.map_cons, sppDumpWorkCb, sppDumpWorkCb]
    by_cases hdue : pos.expires ≤ now
    · have hdue' : (pos.shift δ).expires ≤ now + δ := hpos.mp hdue
      rw [if_pos hdue] at hrest
      rw [if_neg (UInt32.not_lt.mpr hdue), if_neg (UInt32.not_lt.mpr hdue'), ih _ _ hrest]
      rfl
    · have hdue' : ¬ (pos.shift δ).expires ≤ now + δ := fun hle => hdue (hpos.mpr hle)
      rw [if_pos (UInt32.not_le.mp hdue), if_pos (UInt32.not_le.mp hdue')]
      rfl

/-- **One step of a module that is ahead**, when no comparison comes out differently. -/
theorem netStep_shift (env : KernelEnv) (h : ∀ d ∈ compared now s e, Steady δ now d) :
    netStep env (now + δ) (s.shift δ) e =
      ((netStep env now s e).1.shift δ, (netStep env now s e).2) := by
  cases e with
  | netlink alloc skb => rfl
  | up alloc skb =>
    obtain ⟨hv, hpkt⟩ := nfNetworkUp_shift env δ now alloc s.ctx s.pkt skb
    simp only [netStep, Net.shift, hv, hpkt]
  | down copied alloc skb =>
    simp only [netStep, Net.shift]
    split
    · rename_i iph delay _
      simp only [sppDumperAlloc]
      split
      · rfl
      · split
        · rfl
        · split
          · rfl
          · simp only [List.map_append, List.map_cons, List.map_nil, SppDumper.shift]
            rw [UInt32.add_assoc, UInt32.add_comm δ, ← UInt32.add_assoc]
    · rfl
  | trimWork =>
    obtain ⟨hpkt, hkeys⟩ := sppTrimWorkCb_shift s.pkt fun ent hent =>
      h _ (List.mem_map.mpr ⟨ent, hent, rfl⟩)
    simp only [netStep, Net.shift, hpkt, hkeys]
  | dumpWork =>
    have hwork := sppDumpWorkCb_shift 0 s.dumpGc s.ndumper h
    simp only [netStep, Net.shift, hwork, List.map_map]
    rfl

end Shift

/-! ## Decisions that are the same -/

/-- No entry is in the table of packets twice, and each is in its chain. -/
structure Net.WellFormed (s : Net) : Prop where
  distinct : Distinct SppPacketEntry.toPacketKey s.pkt
  placed : Placed SppPacketEntry.toPacketKey PacketKey.uhash s.pkt

section Same

variable {env : KernelEnv} {δ now : UInt32} {s : Net} {e : NetEvent}

theorem wellFormed_netInit : netInit.WellFormed := ⟨distinct_new, placed_new PacketKey.uhash⟩

theorem wellFormed_netStep (h : s.WellFormed) : (netStep env now s e).1.WellFormed := by
  cases e with
  | netlink alloc skb => exact ⟨h.distinct, h.placed⟩
  | up alloc skb =>
    cases hk : upKey env s.ctx skb with
    | none =>
      have hpkt := (nfNetworkUp_none alloc now s.pkt hk).2
      constructor
      · show Distinct _ (nfNetworkUp env alloc now s.ctx s.pkt skb).2.1
        rw [hpkt]
        exact h.distinct
      · show Placed _ _ (nfNetworkUp env alloc now s.ctx s.pkt skb).2.1
        rw [hpkt]
        exact h.placed
    | some k =>
      have hpkt := (nfNetworkUp_some alloc now s.pkt hk).2
      constructor
      · show Distinct _ (nfNetworkUp env alloc now s.ctx s.pkt skb).2.1
        rw [hpkt]
        split
        · exact h.distinct
        · rename_i hnew
          have hfree : (entryOf s.pkt k).isSome ≠ true := fun hs => hnew (Or.inl hs)
          exact distinct_push PacketKey.uhash h.distinct rfl
            (Option.not_isSome_iff_eq_none.mp hfree)
      · show Placed _ _ (nfNetworkUp env alloc now s.ctx s.pkt skb).2.1
        rw [hpkt]
        split
        · exact h.placed
        · exact placed_push PacketKey.uhash h.placed rfl
  | down copied alloc skb =>
    rw [netStep]
    split <;> exact ⟨h.distinct, h.placed⟩
  | trimWork =>
    exact ⟨distinct_sppHashVisit _ h.distinct, placed_sppHashVisit PacketKey.uhash _ h.placed⟩
  | dumpWork => exact ⟨h.distinct, h.placed⟩

/-- Where the elements are told apart by their keys, what a filter leaves shows what it asked. -/
theorem eq_of_map_filter_eq {α κ : Type} {key : α → κ} {l : List α} (hl : (l.map key).Nodup)
    {p q : α → Bool} (h : (l.filter p).map key = (l.filter q).map key) : ∀ a ∈ l, p a = q a := by
  have hmem (p : α → Bool) (a : α) (ha : a ∈ l) : key a ∈ (l.filter p).map key ↔ p a = true := by
    rw [List.mem_map]
    constructor
    · rintro ⟨b, hb, hkey⟩
      obtain ⟨hb, hp⟩ := List.mem_filter.mp hb
      rwa [← List.inj_on_of_nodup_map hl hb ha hkey]
    · intro hp
      exact ⟨a, List.mem_filter.mpr ⟨ha, hp⟩, rfl⟩
  intro a ha
  rw [Bool.eq_iff_iff, ← hmem p a ha, ← hmem q a ha, h]

/-- How many copies are sent shows how every comparison came out. -/
theorem steady_of_length_eq {i : ℕ} {gc : List SppDumper} {n : UInt32}
    (h : (sppDumpWorkCb (fun _ => now + δ) i (gc.map (SppDumper.shift δ)) n).1.length =
      (sppDumpWorkCb (fun _ => now) i gc n).1.length) : ∀ d ∈ lookedAt now gc, Steady δ now d := by
  induction gc generalizing i n with
  | nil => exact List.forall_mem_nil _
  | cons pos gc ih =>
    rw [List.map_cons, sppDumpWorkCb, sppDumpWorkCb] at h
    rw [lookedAt, List.forall_mem_cons]
    by_cases hdue : pos.expires ≤ now
    · rw [if_neg (UInt32.not_lt.mpr hdue)] at h
      by_cases hdue' : (pos.shift δ).expires ≤ now + δ
      · rw [if_neg (UInt32.not_lt.mpr hdue')] at h
        rw [if_pos hdue]
        exact ⟨iff_of_true hdue hdue', ih (Nat.succ.inj h)⟩
      · rw [if_pos (UInt32.not_le.mp hdue')] at h
        cases h
    · rw [if_pos (UInt32.not_le.mp hdue)] at h
      by_cases hdue' : (pos.shift δ).expires ≤ now + δ
      · rw [if_neg (UInt32.not_lt.mpr hdue')] at h
        cases h
      · rw [if_neg hdue]
        exact ⟨iff_of_false hdue hdue', List.forall_mem_nil _⟩

/-- **The decision shows the comparisons**: if a module that is ahead decides the same, every
comparison came out the same. -/
theorem steady_of_decision_eq (hs : s.WellFormed)
    (h : (netStep env (now + δ) (s.shift δ) e).2 = (netStep env now s e).2) :
    ∀ d ∈ compared now s e, Steady δ now d := by
  cases e with
  | netlink alloc skb => exact nofun
  | up alloc skb => exact nofun
  | down copied alloc skb => exact nofun
  | trimWork =>
    have hkeys : ((s.pkt.map (SppPacketEntry.shift δ)).nodes.filter (expired (now + δ))).map
        SppPacketEntry.toPacketKey =
        (s.pkt.nodes.filter (expired now)).map SppPacketEntry.toPacketKey :=
      Decision.removed.inj h
    rw [nodes_map, List.filter_map, List.map_map] at hkeys
    have hsame := eq_of_map_filter_eq (nodup_nodes PacketKey.uhash hs.distinct hs.placed) hkeys
    intro d hd
    obtain ⟨ent, hent, rfl⟩ := List.mem_map.mp hd
    exact (decide_eq_decide.mp (hsame ent hent)).symm
  | dumpWork =>
    have hsent := congrArg List.length (Decision.sent.inj h)
    rw [List.length_map, List.length_map] at hsent
    exact steady_of_length_eq hsent

end Same

/-! ## Runs from two starting values -/

variable (env : KernelEnv)

/-- What is decided in a run whose events come at the given ticks after the counter stood at
`start`. -/
def decisions (start : UInt32) : Net → List (UInt32 × NetEvent) → List Decision
  | _, [] => []
  | s, (tick, e) :: es =>
    (netStep env (start + tick) s e).2 ::
      decisions start (netStep env (start + tick) s e).1 es

/-- The comparisons that are made in a run: the deadline and the clock, counted from the start. -/
def comparisons (start : UInt32) : Net → List (UInt32 × NetEvent) → List (UInt32 × UInt32)
  | _, [] => []
  | s, (tick, e) :: es =>
    (compared (start + tick) s e).map (fun d => (d - start, tick)) ++
      comparisons start (netStep env (start + tick) s e).1 es

/-- The counter has wrapped by the given tick. -/
def Wrapped (start tick : UInt32) : Prop := start + tick < start

/-- The counter wraps between the two ticks. -/
def Split (start : UInt32) (c : UInt32 × UInt32) : Prop := ¬ (Wrapped start c.1 ↔ Wrapped start c.2)

instance (start tick : UInt32) : Decidable (Wrapped start tick) :=
  inferInstanceAs (Decidable (_ < _))

instance (start : UInt32) (c : UInt32 × UInt32) : Decidable (Split start c) :=
  inferInstanceAs (Decidable (¬ _))

section Runs

variable {env} {s : Net}

/-- **What a comparison of the counter is worth**: it is right exactly if the wrap is not in
between. -/
theorem add_le_add_iff_split (start d tick : UInt32) :
    start + d ≤ start + tick ↔ (d ≤ tick ↔ ¬ Split start (d, tick)) := by
  have hd := d.toNat_lt
  have ht := tick.toNat_lt
  have hs := start.toNat_lt
  simp only [Split, Wrapped, UInt32.le_iff_toNat_le, UInt32.lt_iff_toNat_lt, UInt32.toNat_add]
  omega

theorem add_add_sub (start₀ start₁ tick : UInt32) :
    start₀ + tick + (start₁ - start₀) = start₁ + tick := by
  rw [← UInt32.toNat_inj]
  have h₀ := start₀.toNat_lt
  simp only [UInt32.toNat_add, UInt32.toNat_sub]
  omega

theorem steady_iff_split (start₀ start₁ tick d : UInt32) :
    Steady (start₁ - start₀) (start₀ + tick) d ↔
      (Split start₀ (d - start₀, tick) ↔ Split start₁ (d - start₀, tick)) := by
  have h₀ : start₀ + (d - start₀) = d := by
    rw [UInt32.add_comm, UInt32.sub_add_cancel]
  have h₁ := add_le_add_iff_split start₀ (d - start₀) tick
  have h₂ := add_le_add_iff_split start₁ (d - start₀) tick
  rw [h₀] at h₁
  rw [← add_add_sub start₀ start₁ (d - start₀), ← add_add_sub start₀ start₁ tick, h₀] at h₂
  rw [Steady, h₁, h₂]
  by_cases hle : d - start₀ ≤ tick
  · simp only [hle, true_iff, not_iff_not]
  · simp only [hle, false_iff, not_not]

/-- Two runs decide the same exactly if every comparison has the wrap in between in both or in
neither. -/
theorem decisions_eq_iff (env : KernelEnv) (hs : s.WellFormed) (start₀ start₁ : UInt32)
    (es : List (UInt32 × NetEvent)) :
    decisions env start₀ s es = decisions env start₁ (s.shift (start₁ - start₀)) es ↔
      ∀ c ∈ comparisons env start₀ s es, (Split start₀ c ↔ Split start₁ c) := by
  induction es generalizing s with
  | nil => exact iff_of_true rfl (List.forall_mem_nil _)
  | cons ev es ih =>
    obtain ⟨tick, e⟩ := ev
    have hclock := add_add_sub start₀ start₁ tick
    have hhead : (∀ c ∈ (compared (start₀ + tick) s e).map fun d => (d - start₀, tick),
        (Split start₀ c ↔ Split start₁ c)) ↔
        ∀ d ∈ compared (start₀ + tick) s e, Steady (start₁ - start₀) (start₀ + tick) d := by
      rw [List.forall_mem_map]
      exact forall₂_congr fun d _ => (steady_iff_split start₀ start₁ tick d).symm
    rw [comparisons, List.forall_mem_append, hhead, decisions, decisions, List.cons.injEq]
    constructor
    · rintro ⟨hdec, hrest⟩
      have hsteady := steady_of_decision_eq hs (by rw [hclock]; exact hdec.symm)
      have hstep := netStep_shift env hsteady
      rw [hclock] at hstep
      rw [hstep] at hrest
      exact ⟨hsteady, (ih (wellFormed_netStep hs)).mp hrest⟩
    · rintro ⟨hsteady, hrest⟩
      have hstep := netStep_shift env hsteady
      rw [hclock] at hstep
      rw [hstep]
      exact ⟨rfl, (ih (wellFormed_netStep hs)).mpr hrest⟩

/-- **When the starting value makes no difference**: exactly if every comparison of the run has the
wrap between deadline and clock from both starting values or from neither. -/
theorem sameDecisions_iff (env : KernelEnv) (start₀ start₁ : UInt32)
    (es : List (UInt32 × NetEvent)) :
    decisions env start₀ netInit es = decisions env start₁ netInit es ↔
      ∀ c ∈ comparisons env start₀ netInit es, (Split start₀ c ↔ Split start₁ c) := by
  have hinit : netInit.shift (start₁ - start₀) = netInit := by
    simp only [Net.shift, netInit, SppHashTable.map, sppHashTableNew, Vector.map_replicate,
      List.map_nil]
  have h := decisions_eq_iff env wellFormed_netInit start₀ start₁ es
  rwa [hinit] at h

end Runs

/-- The frames that make 192.168.1.10 a client and 10.0.0.1 a server, a packet between them, and a
sweep 50 ticks later, before its window of 100 ticks is over. -/
def packetAndSweep : List (UInt32 × NetEvent) :=
  [(0, .netlink true (Nl.sppNetlinkSendMsg 7 ⟨0, [0, 0]⟩ (Nl.sppCipAdd 0x0A01A8C0))),
    (0, .netlink true (Nl.sppNetlinkSendMsg 7 ⟨0, [0, 0]⟩ (Nl.sppSipAdd 0x0100000A))),
    (0, .up true (some ⟨0, true, ipprotoUdp, 0x0A01A8C0, 0x0100000A, 1000, 2000, 10, [1, 2]⟩)),
    (50, .trimWork)]

/-- The sweep removes the packet if the counter wraps between the clock and the stamp. -/
theorem not_sameDecisions_wrap :
    decisions ⟨fun _ _ => 0, 0, fun ms => ms.toUInt32⟩ 0 netInit packetAndSweep ≠
      decisions ⟨fun _ _ => 0, 0, fun ms => ms.toUInt32⟩ 0xFFFFFFB0 netInit packetAndSweep := by
  decide +kernel

end Spp

end Tqos
