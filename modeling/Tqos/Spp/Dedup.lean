import Tqos.Lib.Run
import Tqos.Spp.Network

/-!
# What the first hook drops

A client sends every packet several times, and the first hook lets one of them pass. A packet that
passed is remembered with a stamp, and a sweep, run about once a second, forgets those whose stamp
is over. The hook itself does not look at the stamp.

## Main results

* `remembers_filterStep` — the table holds the last acceptance of each key that no sweep has ended
* `dropsInside_iff` — the hook drops only what was accepted within the window, exactly when every
  packet that comes later than that comes after a sweep that was late enough

## The window

The setting is in milliseconds and the stamp is a number of ticks, so that the window is a different
one at any rate but 1000 ticks a second. More than that, it ends with a sweep and not with the
stamp.
-/

namespace Tqos

namespace Spp

/-! ## Packets and sweeps -/

/-- What concerns the table of packets. -/
inductive UpEvent
  /-- A packet arrives; there is memory for an entry or not. -/
  | packet (alloc : Bool) (skb : Option Iphdr)
  /-- `spp_trim_work_cb` runs. -/
  | sweep

/-- A packet that was accepted: when, whether it is remembered, and the sweeps since then. -/
structure Acceptance where
  jiffies : UInt32
  stored : Bool
  sweeps : List UInt32
deriving DecidableEq

/-- The table, with what was accepted under each key, the last first. -/
structure Filter where
  pkt : PacketTable
  accepted : PacketKey → List Acceptance

/-- The filter of a module that was just loaded. -/
def Filter.init : Filter := ⟨sppHashTableNew SppPacketEntry sppPacketMax, fun _ => []⟩

variable (env : KernelEnv) (ctx : SppConfigCtx)

/-- The verdict on a packet. -/
def Filter.verdict (u : Filter) (jiffies : UInt32) (alloc : Bool) (skb : Option Iphdr) : NfVerdict :=
  (nfNetworkUp env alloc jiffies ctx u.pkt skb).1

/-- What was accepted once a packet was looked at. -/
def Filter.noted (u : Filter) (jiffies : UInt32) (alloc : Bool) (skb : Option Iphdr) :
    PacketKey → List Acceptance :=
  match upKey env ctx skb with
  | none => u.accepted
  | some k =>
    if u.verdict env ctx jiffies alloc skb = .accept then
      Function.update u.accepted k (⟨jiffies, alloc, []⟩ :: u.accepted k)
    else u.accepted

/-- One event, at the time given with it. -/
def filterStep (u : Filter) : UInt32 × UpEvent → Option Filter
  | (jiffies, .packet alloc skb) =>
    some ⟨(nfNetworkUp env alloc jiffies ctx u.pkt skb).2.1, u.noted env ctx jiffies alloc skb⟩
  | (jiffies, .sweep) =>
    some ⟨sppTrimWorkCb jiffies u.pkt,
      fun k => (u.accepted k).map fun a => { a with sweeps := jiffies :: a.sweeps }⟩

/-- The stamp of an accepted packet. -/
def Acceptance.expire (a : Acceptance) : UInt32 := a.jiffies + (sppTrimGet ctx).toUInt32

/-- The packet is remembered: it was stored, and no sweep since then has found the stamp over. -/
def Acceptance.live (a : Acceptance) : Bool :=
  a.stored && a.sweeps.all fun j => !decide (a.expire ctx ≤ j)

/-- The entry that is left of an acceptance. -/
def Acceptance.entry (k : PacketKey) (a : Acceptance) : Option SppPacketEntry :=
  if a.live ctx then some { k with expire := a.expire ctx } else none

/-- The table holds what is left of the last acceptance under each key. -/
structure Filter.Remembers (u : Filter) : Prop where
  distinct : Distinct SppPacketEntry.toPacketKey u.pkt
  entryOf_eq : ∀ k, entryOf u.pkt k = (u.accepted k).head?.bind (Acceptance.entry ctx k)

section Step

variable {env} {ctx} {u v : Filter} {e : UInt32 × UpEvent} {j : UInt32}

theorem remembers_init : Filter.init.Remembers ctx :=
  ⟨distinct_new, fun k => find_new PacketKey.uhash k⟩

/-- A sweep leaves the entry whose stamp is not over. -/
theorem entry_sweep (k : PacketKey) (a : Acceptance) (j : UInt32) :
    Acceptance.entry ctx k { a with sweeps := j :: a.sweeps } =
      (Acceptance.entry ctx k a).filter fun ent => !expired j ent := by
  have hlive : ({ a with sweeps := j :: a.sweeps } : Acceptance).live ctx =
      (a.live ctx && !decide (a.expire ctx ≤ j)) := by
    show (a.stored && (!decide (a.expire ctx ≤ j) &&
      a.sweeps.all fun i => !decide (a.expire ctx ≤ i))) = _
    rw [Acceptance.live, Bool.and_assoc]
    congr 1
    exact Bool.and_comm _ _
  rw [Acceptance.entry, Acceptance.entry, hlive]
  cases a.live ctx with
  | false => rfl
  | true =>
    by_cases hj : a.expire ctx ≤ j
    · simp [hj, Option.filter, expired]
    · simp only [hj, Option.filter, expired, decide_false, Bool.not_false, Bool.and_true, if_true]
      rfl

/-- **A packet** keeps the table what is left of the last acceptances. -/
theorem remembers_packet (h : u.Remembers ctx) (j : UInt32) (alloc : Bool) (skb : Option Iphdr) :
    Filter.Remembers ctx ⟨(nfNetworkUp env alloc j ctx u.pkt skb).2.1,
      u.noted env ctx j alloc skb⟩ := by
  cases hk : upKey env ctx skb with
  | none =>
    have hnoted : u.noted env ctx j alloc skb = u.accepted := by rw [Filter.noted, hk]
    rw [(nfNetworkUp_none alloc j u.pkt hk).2, hnoted]
    exact h
  | some k =>
    obtain ⟨hv, hpkt⟩ := nfNetworkUp_some alloc j u.pkt hk
    rw [hpkt]
    by_cases hent : (entryOf u.pkt k).isSome = true
    · -- dropped: nothing changes
      rw [if_pos hent] at hv
      have hnoted : u.noted env ctx j alloc skb = u.accepted := by
        rw [Filter.noted, hk]
        exact if_neg (by rw [Filter.verdict, hv]; decide)
      rw [if_pos (Or.inl hent), hnoted]
      exact h
    · rw [if_neg hent] at hv
      have hfree : entryOf u.pkt k = none := Option.not_isSome_iff_eq_none.mp hent
      have hnoted : u.noted env ctx j alloc skb =
          Function.update u.accepted k (⟨j, alloc, []⟩ :: u.accepted k) := by
        rw [Filter.noted, hk]
        exact if_pos hv
      rw [hnoted]
      cases alloc with
      | false =>
        rw [if_pos (Or.inr rfl)]
        refine ⟨h.distinct, fun k' => ?_⟩
        dsimp only
        by_cases hk' : k' = k
        · subst hk'
          rw [Function.update_self, hfree]
          rfl
        · rw [Function.update_of_ne hk']
          exact h.entryOf_eq k'
      | true =>
        rw [if_neg (by simp [hent])]
        refine ⟨distinct_push PacketKey.uhash h.distinct rfl hfree, fun k' => ?_⟩
        have hpush (ent : SppPacketEntry) (hent : ent.toPacketKey = k) :
            entryOf (push u.pkt k.uhash ent) k' = if k' = k then some ent else entryOf u.pkt k' :=
          find_push PacketKey.uhash hent
        dsimp only
        rw [hpush _ rfl]
        by_cases hk' : k' = k
        · subst hk'
          rw [Function.update_self, if_pos rfl]
          rfl
        · rw [Function.update_of_ne hk', if_neg hk']
          exact h.entryOf_eq k'

/-- **What is remembered** after each event. -/
theorem remembers_filterStep (h : u.Remembers ctx) (hstep : filterStep env ctx u e = some v) :
    v.Remembers ctx := by
  obtain ⟨j, ⟨alloc, skb⟩ | _⟩ := e
  · obtain rfl := Option.some.inj hstep
    exact remembers_packet h j alloc skb
  · obtain rfl := Option.some.inj hstep
    refine ⟨distinct_sppHashVisit _ h.distinct, fun k => ?_⟩
    have hvisit : entryOf (sppTrimWorkCb j u.pkt) k =
        (entryOf u.pkt k).filter fun ent => !expired j ent :=
      find_sppHashVisit PacketKey.uhash _ h.distinct
    rw [hvisit, h.entryOf_eq, List.head?_map]
    cases (u.accepted k).head? with
    | none => rfl
    | some a => exact (entry_sweep k a j).symm

end Step

/-! ## The window -/

variable (hz : ℕ)

/-- The time from the first tick to the second is at most the window. -/
def Within (t₁ t₂ : UInt32) : Prop := (t₂.toNat - t₁.toNat) * 1000 ≤ (sppTrimGet ctx).toNat * hz

instance (t₁ t₂ : UInt32) : Decidable (Within ctx hz t₁ t₂) := inferInstanceAs (Decidable (_ ≤ _))

/-- What is asked of the verdict on a packet: it is dropped only if one with its key was accepted
within the window, and accepted if the last one was accepted before. -/
def DropsInside (u : Filter) : UInt32 × UpEvent → Prop
  | (j, .packet alloc skb) =>
    match upKey env ctx skb with
    | none => u.verdict env ctx j alloc skb = .accept
    | some k =>
      (u.verdict env ctx j alloc skb = .drop → ∃ a ∈ u.accepted k, Within ctx hz a.jiffies j) ∧
        ∀ a, (u.accepted k).head? = some a → ¬ Within ctx hz a.jiffies j →
          u.verdict env ctx j alloc skb = .accept
  | (_, .sweep) => True

/-- If the last packet with the key of this one was accepted before the window, and stored, there
was a sweep since then that was late enough. -/
def SweptInTime (u : Filter) : UInt32 × UpEvent → Prop
  | (j, .packet _ skb) =>
    match upKey env ctx skb with
    | none => True
    | some k => ∀ a, (u.accepted k).head? = some a → a.stored = true →
        ¬ Within ctx hz a.jiffies j → ∃ s ∈ a.sweeps, a.expire ctx ≤ s
  | (_, .sweep) => True

section Window

variable {env} {ctx} {hz} {u : Filter} {e : UInt32 × UpEvent} {es : List (UInt32 × UpEvent)}

/-- A packet is dropped exactly if the last acceptance of its key is remembered. -/
theorem verdict_eq_drop_iff (h : u.Remembers ctx) {k : PacketKey} {skb : Option Iphdr}
    (hk : upKey env ctx skb = some k) (j : UInt32) (alloc : Bool) :
    u.verdict env ctx j alloc skb = .drop ↔
      ∃ a, (u.accepted k).head? = some a ∧ a.live ctx = true := by
  rw [Filter.verdict, (nfNetworkUp_some alloc j u.pkt hk).1, h.entryOf_eq]
  cases (u.accepted k).head? with
  | none => simp
  | some a =>
    rw [Option.bind_some, Acceptance.entry]
    cases hlive : a.live ctx <;> simp [hlive]

theorem live_eq_false_iff (a : Acceptance) :
    a.live ctx = false ↔ a.stored = true → ∃ s ∈ a.sweeps, a.expire ctx ≤ s := by
  rw [Acceptance.live]
  cases a.stored <;> simp

/-- One packet is treated as it should be exactly if the sweep came in time. -/
theorem dropsInside_iff_sweptInTime (h : u.Remembers ctx) :
    DropsInside env ctx hz u e ↔ SweptInTime env ctx hz u e := by
  obtain ⟨j, ⟨alloc, skb⟩ | _⟩ := e
  · rw [DropsInside, SweptInTime]
    cases hk : upKey env ctx skb with
    | none => exact iff_of_true (nfNetworkUp_none alloc j u.pkt hk).1 trivial
    | some k =>
      have hdrop := verdict_eq_drop_iff h hk j alloc
      have haccept : u.verdict env ctx j alloc skb = .accept ↔
          ¬ u.verdict env ctx j alloc skb = .drop := by
        cases u.verdict env ctx j alloc skb <;> simp
      constructor
      · rintro ⟨-, hlater⟩ a ha hstored hfar
        have hnot : a.live ctx ≠ true := fun hlive =>
          haccept.mp (hlater a ha hfar) (hdrop.mpr ⟨a, ha, hlive⟩)
        exact (live_eq_false_iff a).mp ((Bool.not_eq_true _).mp hnot) hstored
      · intro hswept
        have hgone : ∀ a, (u.accepted k).head? = some a → ¬ Within ctx hz a.jiffies j →
            a.live ctx = false := fun a ha hfar =>
          (live_eq_false_iff a).mpr fun hstored => hswept a ha hstored hfar
        refine ⟨fun hd => ?_, fun a ha hfar => ?_⟩
        · obtain ⟨a, ha, hlive⟩ := hdrop.mp hd
          refine ⟨a, List.mem_of_mem_head? ha, ?_⟩
          by_contra hfar
          exact Bool.false_ne_true ((hgone a ha hfar).symm.trans hlive)
        · rw [haccept, hdrop]
          rintro ⟨a', ha', hlive⟩
          obtain rfl := Option.some.inj (ha.symm.trans ha')
          exact Bool.false_ne_true ((hgone a ha hfar).symm.trans hlive)
  · exact Iff.rfl

/-- **When the hook drops only duplicates inside the window**: exactly if every packet whose key was
last accepted before the window comes after a sweep, since then, that found the stamp over. -/
theorem dropsInside_iff (env : KernelEnv) (ctx : SppConfigCtx) (hz : ℕ)
    (es : List (UInt32 × UpEvent)) :
    Run.Along (filterStep env ctx) (DropsInside env ctx hz) Filter.init es ↔
      Run.Along (filterStep env ctx) (SweptInTime env ctx hz) Filter.init es :=
  Run.along_congr remembers_init (fun _ _ _ h hstep => remembers_filterStep h hstep)
    fun _ _ h => dropsInside_iff_sweptInTime h

end Window

/-- One client at 192.168.1.10, one server at 10.0.0.1 and a window of 20 ms. -/
def oneClient : SppConfigCtx :=
  sppTrimSet (sppCipAdd true (sppSipAdd true sppConfigInit 0x0100000A).2 0x0A01A8C0).2 20

/-- A packet from that client to that server. -/
def onePacket : Iphdr := ⟨0, true, ipprotoUdp, 0x0A01A8C0, 0x0100000A, 1000, 2000, 10, [1, 2]⟩

/-- At 1000 ticks a second and with a sweep every second, a packet and the same one half a second
later: the second is dropped, although the window is over. -/
theorem not_dropsInside_halfSecond :
    ¬ Run.Along (filterStep ⟨fun _ _ => 0, 0, fun ms => ms.toUInt32⟩ oneClient)
      (DropsInside ⟨fun _ _ => 0, 0, fun ms => ms.toUInt32⟩ oneClient 1000) Filter.init
      [(1000, .sweep), (1100, .packet true (some onePacket)),
        (1600, .packet true (some onePacket)), (2000, .sweep)] := by
  intro h
  have hbad := h [(1000, .sweep), (1100, .packet true (some onePacket))]
    (1600, .packet true (some onePacket)) ⟨[(2000, .sweep)], rfl⟩ _ rfl
  have hkey : upKey ⟨fun _ _ => 0, 0, fun ms => ms.toUInt32⟩ oneClient (some onePacket) =
      some ⟨0, 2, ipprotoUdp, 0x0A01A8C0, 0x0100000A, 1000, 2000⟩ := by decide +kernel
  rw [DropsInside, hkey] at hbad
  have haccept := hbad.2 ⟨1100, true, []⟩ (by decide +kernel) (by decide +kernel)
  exact absurd haccept (by decide +kernel)

end Spp

end Tqos
