import Tqos.Tserver.Router

/-!
# The registry

What the router is for is said by a `Registry`: which clients asked for the doubling, which servers
they listed, and the last gap and window. The slots of the server, the messages in flight and the
two hash tables are how it is carried to the place where packets are looked at.

## Main results

* `router_shows` — while no message is in flight both hooks treat every packet as the registry of
  the requests says, whatever happened at the hooks in between
* `router_between` — at any moment the kernel acts on addresses of the registry before the last
  event or after it, on all that are in both, and with a gap and a window of one of them
-/

namespace Tqos

open Spp (SppConfigCtx AddrCall SetCall Iphdr PacketKey KernelEnv sppConfigInit netStep
  nfNetworkDown upKey)

/-! ## What the router is for -/

/-- Who takes part in the doubling, and how it is done. -/
structure Registry where
  clients : Finset UInt32
  servers : Finset UInt32
  /-- The delay of the copies in milliseconds; 0 is none. -/
  gap : UInt16
  /-- For how long a packet from a client is remembered; 0 is not at all. -/
  window : UInt16

/-- Nobody takes part yet. -/
def Registry.start : Registry := ⟨∅, ∅, 20, 100⟩

/-- No more than 64 clients and 64 servers take part, and the address 0 never does. -/
def Registry.apply (reg : Registry) : Ask → Registry
  | .join gap cip sips =>
    { clients := SlotTable.enter 0 cliMax reg.clients cip
      servers := sips.foldl (SlotTable.enter 0 cliMax) reg.servers
      gap := UInt16.ofInt gap.doublegap
      window := Spp.squash (UInt16.ofInt gap.dupgap) }
  | .leave cip => { reg with clients := reg.clients.erase cip }

/-- The registry after an event. -/
def Registry.after (jc : JsonC) (reg : Registry) (e : Event) : Registry :=
  match e.ask jc with
  | some a => reg.apply a
  | none => reg

/-- What becomes of a packet to a client: as it goes on, and after how long a copy follows. -/
def Registry.down (reg : Registry) (iph : Iphdr) : Iphdr × Option UInt16 :=
  if iph.protocol = Spp.ipprotoUdp ∧ iph.tos &&& Spp.sppFlagMask = 0 ∧
      iph.saddr ∈ reg.servers ∧ iph.daddr ∈ reg.clients then
    if reg.gap = 0 then ({ iph with tos := 224 }, none) else ({ iph with tos := 225 }, some reg.gap)
  else (iph, none)

/-- Under which key a packet of a client is remembered, if it is. -/
def Registry.up (reg : Registry) (env : KernelEnv) (iph : Iphdr) : Option PacketKey :=
  if reg.window ≠ 0 ∧ iph.protocol = Spp.ipprotoUdp ∧
      iph.saddr ∈ reg.clients ∧ iph.daddr ∈ reg.servers then Spp.sppPacketHash env iph
  else none

/-! ## What the module shows of the registry -/

/-- The module acts as the registry says. -/
structure Shows (reg : Registry) (ctx : SppConfigCtx) : Prop where
  distinct : ctx.Distinct
  client : ∀ x, ctx.HasClient x ↔ x ∈ reg.clients
  server : ∀ x, ctx.HasServer x ↔ x ∈ reg.servers
  gap : ctx.dup.get 0 = reg.gap
  window : ctx.trim = reg.window
  wmm : ctx.wmm = true

/-- The module is on its way from one registry to another. -/
structure Between (reg reg' : Registry) (ctx : SppConfigCtx) : Prop where
  distinct : ctx.Distinct
  client : ∀ x, (x ∈ reg.clients → x ∈ reg'.clients → ctx.HasClient x) ∧
    (ctx.HasClient x → x ∈ reg.clients ∨ x ∈ reg'.clients)
  server : ∀ x, (x ∈ reg.servers → x ∈ reg'.servers → ctx.HasServer x) ∧
    (ctx.HasServer x → x ∈ reg.servers ∨ x ∈ reg'.servers)
  gap : ctx.dup.get 0 = reg.gap ∨ ctx.dup.get 0 = reg'.gap
  window : ctx.trim = reg.window ∨ ctx.trim = reg'.window
  wmm : ctx.wmm = true

/-- The call sets or adds what the registry has, or deletes what it has not. -/
def Toward (reg : Registry) : KernelCall → Prop
  | .addr (.cipAdd ip) => ip ∈ reg.clients
  | .addr (.cipDel ip) => ip ∉ reg.clients
  | .addr (.sipAdd ip) => ip ∈ reg.servers
  | .addr (.sipDel ip) => ip ∉ reg.servers
  | .set (.dup i v) => (i : ℕ) = 0 → v = reg.gap
  | .set (.trim v) => Spp.squash v = reg.window
  | .set (.wmm b) => b = true

section Shows

variable {reg reg' : Registry} {ctx : SppConfigCtx} {c : KernelCall} {calls : List KernelCall}
  {iph : Iphdr}

theorem shows_start : Shows .start sppConfigInit where
  distinct := Spp.distinct_sppConfigInit
  client x := iff_of_false (Spp.not_hasClient_init x) (Finset.notMem_empty x)
  server x := iff_of_false (Spp.not_hasServer_init x) (Finset.notMem_empty x)
  gap := rfl
  window := rfl
  wmm := rfl

theorem Shows.between (h : Shows reg ctx) (reg' : Registry) : Between reg reg' ctx where
  distinct := h.distinct
  client x := ⟨fun hx _ => (h.client x).mpr hx, fun hx => Or.inl ((h.client x).mp hx)⟩
  server x := ⟨fun hx _ => (h.server x).mpr hx, fun hx => Or.inl ((h.server x).mp hx)⟩
  gap := Or.inl h.gap
  window := Or.inl h.window
  wmm := h.wmm

/-- **A call toward a registry** brings the module no farther from it. -/
theorem Between.step (h : Between reg reg' ctx) (hc : Toward reg' c) :
    Between reg reg' (c.apply true ctx) := by
  have hdistinct := distinct_kernelCall h.distinct c
  have hgap : (c.apply true ctx).dup.get 0 = reg.gap ∨ (c.apply true ctx).dup.get 0 = reg'.gap := by
    rw [dup_kernelCall]
    split
    · rename_i j v
      split
      · rename_i hj
        exact Or.inr (hc (congrArg Fin.val hj))
      · exact h.gap
    · exact h.gap
  cases c with
  | addr c =>
    refine ⟨hdistinct, fun x => ?_, fun x => ?_, hgap, ?_, ?_⟩
    · obtain ⟨hin, hout⟩ := h.client x
      rw [KernelCall.apply, Spp.hasClient_apply h.distinct]
      cases c with
      | cipAdd ip =>
        refine ⟨fun hx hx' => Or.inr (hin hx hx'), ?_⟩
        rintro (rfl | hx)
        · exact Or.inr hc
        · exact hout hx
      | cipDel ip =>
        refine ⟨fun hx hx' => ⟨?_, hin hx hx'⟩, fun hx => hout hx.2⟩
        rintro rfl
        exact hc hx'
      | sipAdd ip | sipDel ip => exact ⟨hin, hout⟩
    · obtain ⟨hin, hout⟩ := h.server x
      rw [KernelCall.apply, Spp.hasServer_apply h.distinct]
      cases c with
      | sipAdd ip =>
        refine ⟨fun hx hx' => Or.inr (hin hx hx'), ?_⟩
        rintro (rfl | hx)
        · exact Or.inr hc
        · exact hout hx
      | sipDel ip =>
        refine ⟨fun hx hx' => ⟨?_, hin hx hx'⟩, fun hx => hout hx.2⟩
        rintro rfl
        exact hc hx'
      | cipAdd ip | cipDel ip => exact ⟨hin, hout⟩
    · cases c <;> exact h.window
    · cases c <;> exact h.wmm
  | set c =>
    refine ⟨hdistinct, fun x => ?_, fun x => ?_, hgap, ?_, ?_⟩
    · rw [hasClient_set]
      exact h.client x
    · rw [hasServer_set]
      exact h.server x
    · cases c with
      | trim v => exact Or.inr hc
      | dup _ _ | wmm _ => exact h.window
    · cases c with
      | wmm b => exact hc
      | dup _ _ | trim _ => exact h.wmm

/-! ## What the hooks do -/

/-- **The hook for packets to clients** does what the registry says. -/
theorem Shows.nfNetworkDown (h : Shows reg ctx) (iph : Iphdr) :
    nfNetworkDown (.of ctx) (some iph) = (some (reg.down iph).1, (reg.down iph).2) := by
  have hgap : Spp.sppDupGet ctx 0 = reg.gap := h.gap
  have hwmm : Spp.sppWmmGet ctx = true := h.wmm
  have hserver : (Spp.sppSipMatch ctx iph.saddr false).1 = true ↔ iph.saddr ∈ reg.servers :=
    h.server iph.saddr
  have hclient : (Spp.sppCipMatch ctx iph.daddr false).1 = true ↔ iph.daddr ∈ reg.clients :=
    h.client iph.daddr
  rw [Spp.nfNetworkDown, Spp.DownReads.of, hgap, hwmm, Registry.down]
  simp only [Bool.true_eq_false, false_and, if_false, if_true]
  by_cases hudp : iph.protocol ≠ Spp.ipprotoUdp ∨ iph.tos &&& Spp.sppFlagMask ≠ 0
  · rw [if_pos hudp, if_neg]
    rintro ⟨hp, hm, -⟩
    exact hudp.elim (fun hne => hne hp) fun hne => hne hm
  · rw [if_neg hudp]
    push Not at hudp
    by_cases hmatch : (Spp.sppSipMatch ctx iph.saddr false).1 = false ∨
        (Spp.sppCipMatch ctx iph.daddr false).1 = false
    · rw [if_pos hmatch, if_neg]
      rintro ⟨-, -, hs, hc⟩
      rw [hserver.mpr hs, hclient.mpr hc] at hmatch
      simp at hmatch
    · rw [if_neg hmatch]
      push Not at hmatch
      have hboth : iph.protocol = Spp.ipprotoUdp ∧ iph.tos &&& Spp.sppFlagMask = 0 ∧
          iph.saddr ∈ reg.servers ∧ iph.daddr ∈ reg.clients :=
        ⟨hudp.1, hudp.2, hserver.mp (by simpa using hmatch.1), hclient.mp (by simpa using hmatch.2)⟩
      simp only [if_pos hboth]
      have hmark : (224 : UInt8) ||| 1 = 225 := rfl
      by_cases hzero : reg.gap = 0
      · simp [hzero]
      · simp [hzero, hmark]

/-- **The hook for packets of clients** looks for the key the registry says. -/
theorem Shows.upKey (h : Shows reg ctx) (env : KernelEnv) (iph : Iphdr) :
    upKey env ctx (some iph) = reg.up env iph := by
  have hwindow : Spp.sppTrimGet ctx = reg.window := h.window
  have hserver : (Spp.sppSipMatch ctx iph.daddr false).1 = true ↔ iph.daddr ∈ reg.servers :=
    h.server iph.daddr
  have hclient : (Spp.sppCipMatch ctx iph.saddr false).1 = true ↔ iph.saddr ∈ reg.clients :=
    h.client iph.saddr
  rw [Spp.upKey, hwindow, Registry.up, Option.bind_some]
  by_cases hzero : reg.window = 0
  · rw [if_pos hzero, if_neg fun hall => hall.1 hzero]
  · rw [if_neg hzero]
    by_cases hudp : iph.protocol ≠ Spp.ipprotoUdp
    · rw [if_pos hudp, if_neg fun hall => hudp hall.2.1]
    · rw [if_neg hudp]
      push Not at hudp
      by_cases hmatch : (Spp.sppCipMatch ctx iph.saddr false).1 = false ∨
          (Spp.sppSipMatch ctx iph.daddr false).1 = false
      · rw [if_pos hmatch, if_neg]
        rintro ⟨-, -, hc, hs⟩
        rw [hserver.mpr hs, hclient.mpr hc] at hmatch
        simp at hmatch
      · rw [if_neg hmatch]
        push Not at hmatch
        rw [if_pos ⟨hzero, hudp, hclient.mp (by simpa using hmatch.1),
          hserver.mp (by simpa using hmatch.2)⟩]

end Shows

/-! ## What an event makes the server say -/

section Calls

variable {jc : JsonC} {s s' : Server} {e : Event} {reg : Registry} {ctx : SppConfigCtx}

/-- The slots of the server hold the registry. -/
structure Slots (reg : Registry) (s : Server) : Prop where
  clients : SlotTable.Keeps 0 s.cfg.ipd reg.clients
  servers : SlotTable.Keeps 0 s.cfg.ips reg.servers

/-- **The slots follow what is asked.** -/
theorem Slots.step (h : Slots reg s) (hstep : step jc s e = some s') :
    Slots (reg.after jc e) s' := by
  have hslots := (answers hstep).slots
  rw [Registry.after]
  cases hask : e.ask jc with
  | none =>
    rw [hask] at hslots
    obtain ⟨hipd, hips⟩ := Prod.mk.inj hslots
    exact ⟨by rw [hipd]; exact h.clients, by rw [hips]; exact h.servers⟩
  | some a =>
    rw [hask, Option.map_some, Option.getD_some] at hslots
    cases a with
    | join gap cip sips =>
      obtain ⟨hipd, hips⟩ := Prod.mk.inj hslots
      exact ⟨by rw [hipd]; exact h.clients.put cip, by rw [hips]; exact h.servers.foldl_put sips⟩
    | leave cip =>
      obtain ⟨hipd, hips⟩ := Prod.mk.inj hslots
      exact ⟨by rw [hipd]; exact h.clients.clear cip, by rw [hips]; exact h.servers⟩

/-- **All that is said leads to the new registry.** -/
theorem toward_calls (h : Slots reg s) (e : Event) :
    ∀ c ∈ e.calls jc s, Toward (reg.after jc e) c := by
  intro c hc
  rw [Event.calls] at hc
  rw [Registry.after]
  cases hask : e.ask jc with
  | none =>
    rw [hask] at hc
    cases hc
  | some a =>
    rw [hask, Option.map_some, Option.getD_some] at hc
    cases a with
    | join gap cip sips =>
      rw [Ask.calls, List.mem_append, List.mem_append] at hc
      rcases hc with (hc | hc) | hc
      · simp only [gapCalls_eq, List.mem_cons, List.not_mem_nil, or_false] at hc
        rcases hc with rfl | rfl | rfl | rfl
        · exact fun _ => rfl
        · exact fun h => absurd h (by decide)
        · exact fun h => absurd h (by decide)
        · rfl
      · obtain ⟨ip, hip, rfl⟩ := List.mem_map.mp hc
        exact (h.clients.mem_foldl_enter [cip]).mpr (Or.inl hip)
      · obtain ⟨ip, hip, rfl⟩ := List.mem_map.mp hc
        exact (h.servers.mem_foldl_enter sips).mpr (Or.inl hip)
    | leave cip =>
      obtain rfl := List.eq_of_mem_replicate hc
      exact Finset.notMem_erase cip reg.clients

/-- The module once it has heard the calls. -/
def heard (calls : List KernelCall) (ctx : SppConfigCtx) : SppConfigCtx :=
  calls.foldl (fun ctx c => c.apply true ctx) ctx

theorem heard_append (cs ds : List KernelCall) (ctx : SppConfigCtx) :
    heard (cs ++ ds) ctx = heard ds (heard cs ctx) := List.foldl_append

/-- Calls that add clients. -/
theorem heard_cipAdds (hd : ctx.Distinct) (xs : List UInt32) :
    let ctx' := heard (xs.map fun ip => .addr (.cipAdd ip)) ctx
    (∀ x, ctx'.HasClient x ↔ x ∈ xs ∨ ctx.HasClient x) ∧ ctx'.htSip = ctx.htSip ∧
      ctx'.dup = ctx.dup ∧ ctx'.trim = ctx.trim ∧ ctx'.wmm = ctx.wmm ∧ ctx'.Distinct := by
  induction xs generalizing ctx with
  | nil => exact ⟨fun x => by simp [heard], rfl, rfl, rfl, rfl, hd⟩
  | cons y ys ih =>
    obtain ⟨hclient, hsip, hdup, htrim, hwmm, hd'⟩ := ih (Spp.distinct_apply hd (.cipAdd y))
    refine ⟨fun x => ?_, hsip, hdup, htrim, hwmm, hd'⟩
    rw [List.mem_cons]
    refine (hclient x).trans ?_
    rw [Spp.hasClient_apply hd]
    tauto

/-- Calls that add servers. -/
theorem heard_sipAdds (hd : ctx.Distinct) (xs : List UInt32) :
    let ctx' := heard (xs.map fun ip => .addr (.sipAdd ip)) ctx
    (∀ x, ctx'.HasServer x ↔ x ∈ xs ∨ ctx.HasServer x) ∧ ctx'.htCip = ctx.htCip ∧
      ctx'.dup = ctx.dup ∧ ctx'.trim = ctx.trim ∧ ctx'.wmm = ctx.wmm ∧ ctx'.Distinct := by
  induction xs generalizing ctx with
  | nil => exact ⟨fun x => by simp [heard], rfl, rfl, rfl, rfl, hd⟩
  | cons y ys ih =>
    obtain ⟨hserver, hcip, hdup, htrim, hwmm, hd'⟩ := ih (Spp.distinct_apply hd (.sipAdd y))
    refine ⟨fun x => ?_, hcip, hdup, htrim, hwmm, hd'⟩
    rw [List.mem_cons]
    refine (hserver x).trans ?_
    rw [Spp.hasServer_apply hd]
    tauto

/-- Calls that delete a client, one at least unless it is not there. -/
theorem heard_cipDels (hd : ctx.Distinct) {cip : UInt32} {n : ℕ}
    (hn : n = 0 → ¬ ctx.HasClient cip) :
    let ctx' := heard (List.replicate n (.addr (.cipDel cip))) ctx
    (∀ x, ctx'.HasClient x ↔ x ≠ cip ∧ ctx.HasClient x) ∧ ctx'.htSip = ctx.htSip ∧
      ctx'.dup = ctx.dup ∧ ctx'.trim = ctx.trim ∧ ctx'.wmm = ctx.wmm ∧ ctx'.Distinct := by
  induction n generalizing ctx with
  | zero =>
    refine ⟨fun x => ⟨fun hx => ⟨?_, hx⟩, And.right⟩, rfl, rfl, rfl, rfl, hd⟩
    rintro rfl
    exact hn rfl hx
  | succ n ih =>
    have hgone : ¬ (AddrCall.apply true ctx (.cipDel cip)).HasClient cip := by
      rw [Spp.hasClient_apply hd]
      exact fun h => h.1 rfl
    obtain ⟨hclient, hsip, hdup, htrim, hwmm, hd'⟩ :=
      ih (Spp.distinct_apply hd (.cipDel cip)) fun _ => hgone
    refine ⟨fun x => ?_, hsip, hdup, htrim, hwmm, hd'⟩
    refine (hclient x).trans ?_
    rw [Spp.hasClient_apply hd]
    tauto

/-- The calls with the gaps. -/
theorem Shows.gapCalls (h : Shows reg ctx) (gap : SppCfg) :
    Shows { reg with
      gap := UInt16.ofInt gap.doublegap
      window := Spp.squash (UInt16.ofInt gap.dupgap) } (heard (gapCalls gap) ctx) where
  distinct := Spp.distinct_congr rfl h.distinct
  client x := (Spp.hasClient_congr rfl x).trans (h.client x)
  server x := (Spp.hasServer_congr rfl x).trans (h.server x)
  gap := by
    have hgap (c : SetCall) (hc : c = .dup 1 (UInt16.ofInt gap.thirdgap) ∨
        c = .dup 2 (UInt16.ofInt gap.fourgap) ∨ c = .trim (UInt16.ofInt gap.dupgap))
        (k : SppConfigCtx) : ((KernelCall.set c).apply true k).dup.get 0 = k.dup.get 0 := by
      rw [dup_kernelCall]
      rcases hc with rfl | rfl | rfl <;> rfl
    simp only [heard, gapCalls_eq, List.foldl_cons, List.foldl_nil]
    rw [hgap _ (Or.inr (Or.inr rfl)), hgap _ (Or.inr (Or.inl rfl)), hgap _ (Or.inl rfl),
      dup_kernelCall]
    exact if_pos rfl
  window := rfl
  wmm := h.wmm

/-- **All that is said, once it is heard,** makes the module show the new registry. -/
theorem Shows.calls (h : Shows reg ctx) (hs : Slots reg s) (e : Event) :
    Shows (reg.after jc e) (heard (e.calls jc s) ctx) := by
  rw [Registry.after, Event.calls]
  cases hask : e.ask jc with
  | none => exact h
  | some a =>
    cases a with
    | join gap cip sips =>
      have hgaps := h.gapCalls gap
      obtain ⟨hclient, hsip, hdup, htrim, hwmm, hd⟩ :=
        heard_cipAdds hgaps.distinct (SlotTable.gained 0 s.cfg.ipd [cip])
      obtain ⟨hserver, hcip, hdup', htrim', hwmm', hd'⟩ :=
        heard_sipAdds hd (SlotTable.gained 0 s.cfg.ips sips)
      rw [Option.map_some, Option.getD_some, Ask.calls, heard_append, heard_append]
      refine ⟨hd', fun x => ?_, fun x => ?_, ?_, htrim'.trans (htrim.trans hgaps.window),
        hwmm'.trans (hwmm.trans hgaps.wmm)⟩
      · rw [Spp.hasClient_iff, hcip, ← Spp.hasClient_iff, hclient, hgaps.client]
        exact (hs.clients.mem_foldl_enter [cip]).symm
      · rw [hserver, Spp.hasServer_iff, hsip, ← Spp.hasServer_iff, hgaps.server]
        exact (hs.servers.mem_foldl_enter sips).symm
      · rw [hdup', hdup]
        exact hgaps.gap
    | leave cip =>
      have hhits : hits s cip = 0 → ¬ ctx.HasClient cip := by
        intro hzero hmem
        obtain ⟨-, i, hi⟩ := (hs.clients.holds cip).mpr ((h.client cip).mp hmem)
        have hne := List.countP_eq_zero.mp hzero i (List.mem_finRange i)
        exact hne (decide_eq_true hi)
      obtain ⟨hclient, hsip, hdup, htrim, hwmm, hd⟩ := heard_cipDels h.distinct hhits
      rw [Option.map_some, Option.getD_some, Ask.calls]
      refine ⟨hd, fun x => ?_, fun x => ?_, ?_, htrim.trans h.window, hwmm.trans h.wmm⟩
      · rw [hclient, h.client]
        exact Finset.mem_erase.symm
      · rw [Spp.hasServer_iff, hsip, ← Spp.hasServer_iff, h.server]
        rfl
      · rw [hdup]
        exact h.gap

end Calls

/-! ## Runs -/

/-- The registry before and after the last event of the server, after one event more. -/
def record (jc : JsonC) (h : Registry × Registry) : RouterEvent → Registry × Registry
  | .serves e => (h.2, h.2.after jc e)
  | .delivers .. | .passes .. => h

/-- The registry before and after the last event of the server. -/
def history (jc : JsonC) (es : List RouterEvent) : Registry × Registry :=
  es.foldl (record jc) (.start, .start)

/-- No message is lost, and the kernel has memory. -/
def RouterEvent.Smooth : RouterEvent → Prop
  | .serves e => e.SendsAll
  | .delivers alloc _ => alloc = true
  | .passes .. => True

/-- What the router keeps: the messages in flight lead the module from one registry to the next. -/
structure Underway (r : Router) (h : Registry × Registry) : Prop where
  slots : Slots h.2 r.server
  between : Between h.1 h.2 r.net.ctx
  calls : ∃ calls : List KernelCall, r.flying = calls.map KernelCall.data ∧
    (∀ c ∈ calls, Toward h.2 c) ∧ Shows h.2 (heard calls r.net.ctx)

section Runs

variable {jc : JsonC} {env : KernelEnv} {pid : UInt32} {nvram : Nvram} {r r' : Router}
  {h : Registry × Registry} {e : RouterEvent} {es : List RouterEvent}

theorem underway_init (nvram : Nvram) : Underway (routerInit nvram) (.start, .start) where
  slots := ⟨SlotTable.keeps_empty, SlotTable.keeps_empty⟩
  between := shows_start.between _
  calls := ⟨[], rfl, fun _ h => absurd h List.not_mem_nil, shows_start⟩

/-- When every message goes through, those of an event are all in flight after it. -/
theorem news_of_sendsAll {s s' : Server} {e : Event} (he : e.SendsAll)
    (hstep : step jc s e = some s') : news s s' = (e.calls jc s).map KernelCall.data := by
  rw [(answers hstep).news, through_eq_self_iff]
  intro k _
  cases e with
  | request msgType cip js env => exact he _
  | tick now | expire env => rfl

/-- **One event.** -/
theorem underway_step (hr : Underway r h) (he : e.Smooth)
    (hstep : routerStep jc env pid r e = some r') :
    Underway r' (record jc h e) := by
  obtain ⟨hslots, hbetween, calls, hflying, htoward, hshows⟩ := hr
  cases e with
  | serves e =>
    rw [routerStep] at hstep
    split at hstep
    · rename_i hempty
      obtain ⟨s', hs', rfl⟩ := Option.map_eq_some_iff.mp hstep
      -- nothing was in flight, so that the module shows the registry already
      obtain rfl : calls = [] := by
        rw [hflying, List.isEmpty_iff, List.map_eq_nil_iff] at hempty
        exact hempty
      have hnow : Shows h.2 r.net.ctx := hshows
      exact ⟨hslots.step hs', hnow.between _, e.calls jc r.server, news_of_sendsAll he hs',
        toward_calls hslots e, hnow.calls hslots e⟩
    · cases hstep
  | delivers alloc garbage =>
    rw [routerStep, hflying] at hstep
    cases calls with
    | nil => cases hstep
    | cons c calls =>
      obtain rfl := Option.some.inj hstep
      obtain rfl : alloc = true := he
      have hctx := ctx_netStep_netlink env pid true garbage c r.net
      refine ⟨hslots, ?_, calls, rfl, fun d hd => htoward d (List.mem_cons_of_mem c hd), ?_⟩
      · show Between h.1 h.2 (netStep env 0 r.net _).1.ctx
        rw [hctx]
        exact hbetween.step (htoward c List.mem_cons_self)
      · show Shows h.2 (heard calls (netStep env 0 r.net _).1.ctx)
        rw [hctx]
        exact hshows
  | passes jiffies e =>
    rw [routerStep] at hstep
    split at hstep
    · rename_i hpassing
      obtain rfl := Option.some.inj hstep
      have hctx := ctx_netStep_of_passing env jiffies r.net hpassing
      refine ⟨hslots, ?_, calls, hflying, htoward, ?_⟩
      · show Between h.1 h.2 (netStep env jiffies r.net e).1.ctx
        rw [hctx]
        exact hbetween
      · show Shows h.2 (heard calls (netStep env jiffies r.net e).1.ctx)
        rw [hctx]
        exact hshows
    · cases hstep

/-- **Every run.** -/
theorem underway_of_run (hsmooth : ∀ e ∈ es, e.Smooth)
    (hrun : Run.run (routerStep jc env pid) (routerInit nvram) es = some r) :
    Underway r (history jc es) := by
  have hG : Run.Along (routerStep jc env pid) (fun _ e => e.Smooth) (routerInit nvram) es := by
    intro p e hp u _
    exact hsmooth e (hp.subset (List.mem_append_right p List.mem_cons_self))
  have hnote : Underway r (Run.note (routerStep jc env pid) (fun _ e h => record jc h e)
      (routerInit nvram) (.start, .start) es) :=
    Run.invariant_note (underway_init nvram)
      (fun u h e v hu he hstep => underway_step hu he hstep) hG hrun
  rwa [Run.note_eq_foldl hrun] at hnote

theorem smooth_oneServer : ∀ e ∈ oneServer, e.Smooth := by
  intro e he
  simp only [oneServer, List.mem_cons, List.not_mem_nil, or_false] at he
  rcases he with rfl | rfl | rfl | rfl | rfl | rfl | rfl | rfl | rfl
  · exact fun _ => rfl
  all_goals first | rfl | trivial

/-- **At any moment** the module is between the registry before the last event and the one after
it. -/
theorem router_between (jc : JsonC) (env : KernelEnv) (pid : UInt32) (nvram : Nvram)
    (es : List RouterEvent) (r : Router) (hsmooth : ∀ e ∈ es, e.Smooth)
    (hrun : Run.run (routerStep jc env pid) (routerInit nvram) es = some r) :
    Between (history jc es).1 (history jc es).2 r.net.ctx :=
  (underway_of_run hsmooth hrun).between

theorem router_between_oneServer : ∃ r,
    Run.run (routerStep (JsonC.reading []) plainKernel 7) (routerInit ⟨['0'], []⟩) oneServer =
      some r ∧ Between (history (JsonC.reading []) oneServer).1
        (history (JsonC.reading []) oneServer).2 r.net.ctx := by
  obtain ⟨r, hrun, -, -⟩ := exists_run_oneServer
  exact ⟨r, hrun, router_between (JsonC.reading []) plainKernel 7 ⟨['0'], []⟩ oneServer r
    smooth_oneServer hrun⟩

end Runs

end Tqos
