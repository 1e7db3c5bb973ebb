import Tqos.Spp.Kernel
import Tqos.Tserver.Failures
import Tqos.Tserver.Stopping

/-!
# The router

The server and the kernel module together. The server takes up an event and hands its messages to
the socket one by one; between any two of them packets reach the hooks and the workers run.

An event on which the server dies has no successor, so that the messages it sent before are of no
concern here.

## Main results

* `answers` — the slots and the messages of any event are those of what it asks
* `recv_kernelCall` — a frame does in the module what the call says that put it together
-/

namespace Tqos

open Spp (SppConfigCtx AddrCall SetCall Net NetEvent Iphdr KernelEnv recv netInit netStep)
open Nl (Garbage sppNetlinkSendMsg)

/-! ## What is asked -/

/-- What a client can ask for. -/
inductive Ask
  /-- A client wants the packets of these servers doubled. -/
  | join (gap : SppCfg) (cip : UInt32) (sips : List UInt32)
  /-- A client wants no more of it. -/
  | leave (cip : UInt32)

/-- What an event asks, if its object can be read. -/
def Event.ask (jc : JsonC) : Event → Option Ask
  | .request msgType cip js env =>
    if msgType = MsgType.openSpp.code then
      match readGaps js, readSips jc env 0 (vipArray js) with
      | .ok gap, .ok sips => some (.join gap cip sips)
      | _, _ => none
    else if msgType = MsgType.endSpeed.code then some (.leave cip)
    else none
  | _ => none

/-! ## Server and module -/

/-- The server, the module, and the data of the messages the server has yet to hand over. -/
structure Router where
  server : Server
  net : Net
  flying : List (List UInt8)

/-- What happens on the router. -/
inductive RouterEvent
  /-- The server takes something up. -/
  | serves (e : Event)
  /-- The next message is sent, and the module has processed it when `sendmsg` returns. -/
  | delivers (alloc : Bool) (garbage : Garbage)
  /-- The module does something else. -/
  | passes (jiffies : UInt32) (e : NetEvent)

/-- The event is no frame on the netlink socket, which only the server uses. -/
def passing : NetEvent → Bool
  | .netlink .. => false
  | _ => true

/-- One event. The server takes nothing up before its messages are sent. -/
def routerStep (jc : JsonC) (env : KernelEnv) (pid : UInt32) (r : Router) :
    RouterEvent → Option Router
  | .serves e =>
    if r.flying.isEmpty then
      (step jc r.server e).map fun s => { r with server := s, flying := news r.server s }
    else none
  | .delivers alloc garbage =>
    match r.flying with
    | [] => none
    | data :: rest =>
      some { r with
        net := (netStep env 0 r.net (.netlink alloc (sppNetlinkSendMsg pid garbage data))).1
        flying := rest }
  | .passes jiffies e =>
    if passing e then some { r with net := (netStep env jiffies r.net e).1 } else none

/-- The router when it was switched on. -/
def routerInit (nvram : Nvram) : Router := ⟨serverInit nvram, netInit, []⟩

/-! ## What the module is told -/

/-- A call of one of the functions of `nl.c` that change something. -/
inductive KernelCall
  | addr (c : AddrCall)
  | set (c : SetCall)

/-- The data the call puts into its frame. -/
def KernelCall.data : KernelCall → List UInt8
  | .addr c => c.data
  | .set c => c.data

/-- What the module does when it has the frame. -/
def KernelCall.apply (alloc : Bool) (ctx : SppConfigCtx) : KernelCall → SppConfigCtx
  | .addr c => c.apply alloc ctx
  | .set (.dup i v) => Spp.sppDupSet ctx (UInt16.ofNat i) v
  | .set (.trim v) => Spp.sppTrimSet ctx (Spp.squash v)
  | .set (.wmm b) => Spp.sppWmmSet ctx b

/-- **A frame does what its call says.** -/
theorem recv_kernelCall (pid : UInt32) (alloc : Bool) (g : Garbage) (c : KernelCall)
    (ctx : SppConfigCtx) : recv pid alloc g c.data ctx = c.apply alloc ctx := by
  cases c with
  | addr c => exact Spp.recv_addrCall pid alloc g c ctx
  | set c =>
    rw [KernelCall.data, Spp.recv_setCall, Spp.deliver_eq]
    cases c <;> rfl

/-- The calls that set the gaps, the first three by their index. -/
def gapCalls (g : SppCfg) : List KernelCall :=
  List.zipWith (fun i v => .set (.dup i (UInt16.ofInt v))) (List.finRange 4)
    [g.doublegap, g.thirdgap, g.fourgap] ++ [.set (.trim (UInt16.ofInt g.dupgap))]

theorem gapCalls_eq (g : SppCfg) : gapCalls g =
    [.set (.dup 0 (UInt16.ofInt g.doublegap)), .set (.dup 1 (UInt16.ofInt g.thirdgap)),
      .set (.dup 2 (UInt16.ofInt g.fourgap)), .set (.trim (UInt16.ofInt g.dupgap))] := rfl

/-- The calls the server makes for what is asked of it. -/
def Ask.calls (s : Server) : Ask → List KernelCall
  | .join gap cip sips =>
    gapCalls gap ++ ((SlotTable.gained 0 s.cfg.ipd [cip]).map fun ip => .addr (.cipAdd ip)) ++
      (SlotTable.gained 0 s.cfg.ips sips).map fun ip => .addr (.sipAdd ip)
  | .leave cip => List.replicate (hits s cip) (.addr (.cipDel cip))

/-- The calls the server makes on an event. -/
def Event.calls (jc : JsonC) (s : Server) (e : Event) : List KernelCall :=
  ((e.ask jc).map (Ask.calls s)).getD []

/-- The slots of the server after what was asked. -/
def Ask.slots (ipd ips : Fin cliMax → UInt32) :
    Ask → (Fin cliMax → UInt32) × (Fin cliMax → UInt32)
  | .join _ cip sips => (SlotTable.put 0 ipd cip, sips.foldl (SlotTable.put 0) ips)
  | .leave cip => (SlotTable.clear 0 ipd cip, ips)

/-- Which of the messages of an event go through. -/
def Event.sends : Event → ℕ → Bool
  | .request _ _ _ env => env.sends
  | _ => fun _ => true

section Serve

variable {jc : JsonC} {env : Env} {cip : UInt32} {js : Option Json} {s s' : Server} {e : Event}

theorem tqReqStartSpp_of_step
    (h : step jc s (.request MsgType.openSpp.code cip js env) = some s') :
    ∃ reply, tqReqStartSpp jc env cip js s = .ok (s', reply) := by
  rw [step, Option.map_eq_some_iff] at h
  obtain ⟨r, hr, rfl⟩ := h
  obtain ⟨⟨s', reply⟩, hok, hserve⟩ := bind_eq_ok.mp (toOption_eq_some.mp hr)
  obtain rfl := Except.ok.inj hserve
  exact ⟨reply, hok⟩

theorem tqReqStopSpeed_of_step
    (h : step jc s (.request MsgType.endSpeed.code cip js env) = some s') :
    ∃ reply, tqReqStopSpeed env cip js s = .ok (s', reply) := by
  rw [step, Option.map_eq_some_iff] at h
  obtain ⟨r, hr, rfl⟩ := h
  obtain ⟨⟨s', reply⟩, hok, hserve⟩ := bind_eq_ok.mp (toOption_eq_some.mp hr)
  obtain rfl := Except.ok.inj hserve
  exact ⟨reply, hok⟩

/-- The slots and the messages of an event are those of what it asks. -/
structure Answers (jc : JsonC) (s : Server) (e : Event) (s' : Server) : Prop where
  slots : (s'.cfg.ipd, s'.cfg.ips) =
    ((e.ask jc).map (Ask.slots s.cfg.ipd s.cfg.ips)).getD (s.cfg.ipd, s.cfg.ips)
  news : news s s' = through e.sends s.link.tries ((e.calls jc s).map KernelCall.data)

/-- An event that leaves the addresses alone and asks for nothing. -/
theorem answers_of_addrs (hask : e.ask jc = none) (h : s'.addrs = s.addrs) : Answers jc s e s' := by
  obtain ⟨hipd, haddrs⟩ := Prod.mk.inj h
  obtain ⟨hips, hlink⟩ := Prod.mk.inj haddrs
  constructor
  · rw [hask, hipd, hips]
    rfl
  · rw [Event.calls, hask, Tqos.news, hlink, List.drop_length]
    rfl

/-- **What the server makes of an event.** -/
theorem answers (h : step jc s e = some s') : Answers jc s e s' := by
  cases e with
  | tick now | expire env =>
    cases addrStep h with
    | stays haddrs => exact answers_of_addrs rfl haddrs
    | adds _ _ _ _ he | removes _ _ _ _ he => cases he
  | request msgType cip js env =>
    by_cases hopen : msgType = MsgType.openSpp.code
    · subst hopen
      obtain ⟨reply, hok⟩ := tqReqStartSpp_of_step h
      obtain ⟨gap, sips, hgap, hsips, hipd, hips, hlink⟩ := openSpp_messages hok
      have hask : (Event.request MsgType.openSpp.code cip js env).ask jc =
          some (.join gap cip sips) := by
        rw [Event.ask, if_pos rfl, hgap, hsips]
      have hcalls : (Ask.calls s (.join gap cip sips)).map KernelCall.data =
          gapMsgs gap ++ (newAddrs jc env cip js s).map AddrCall.data := by
        simp only [newAddrs, hsips, Ask.calls, List.map_append, List.map_map, List.append_assoc]
        rfl
      constructor
      · rw [hask, hipd, hips, Option.map_some, Option.getD_some, Ask.slots, List.foldl_cons,
          List.foldl_nil]
      · rw [news_of_sendAll hlink, Event.calls, hask, Option.map_some, Option.getD_some, hcalls,
          Event.sends]
    · by_cases hend : msgType = MsgType.endSpeed.code
      · subst hend
        obtain ⟨reply, hok⟩ := tqReqStopSpeed_of_step h
        obtain ⟨hipd, hips, hlink⟩ := tqReqStopSpeed_eq_ok hok
        have hask : (Event.request MsgType.endSpeed.code cip js env).ask jc =
            some (.leave cip) := by
          rw [Event.ask, if_neg hopen, if_pos rfl]
        constructor
        · rw [hask, hipd, hips]
          rfl
        · rw [← sendAll_replicate] at hlink
          rw [news_of_sendAll hlink, Event.calls, hask, Option.map_some, Option.getD_some, Ask.calls,
            List.map_replicate]
          rfl
      · have hask : (Event.request msgType cip js env).ask jc = none := by
          rw [Event.ask, if_neg hopen, if_neg hend]
        cases addrStep h with
        | stays haddrs => exact answers_of_addrs hask haddrs
        | adds _ _ _ _ he =>
          obtain ⟨rfl, -⟩ := Event.request.inj he
          exact absurd rfl hopen
        | removes _ _ _ _ he =>
          obtain ⟨rfl, -⟩ := Event.request.inj he
          exact absurd rfl hend

end Serve

/-! ## What the module makes of it -/

section Module

variable {env : KernelEnv} {pid : UInt32} {ctx : SppConfigCtx}

theorem hasClient_set (alloc : Bool) (c : SetCall) (x : UInt32) :
    ((KernelCall.set c).apply alloc ctx).HasClient x ↔ ctx.HasClient x := by
  refine Spp.hasClient_congr ?_ x
  cases c <;> rfl

theorem hasServer_set (alloc : Bool) (c : SetCall) (x : UInt32) :
    ((KernelCall.set c).apply alloc ctx).HasServer x ↔ ctx.HasServer x := by
  refine Spp.hasServer_congr ?_ x
  cases c <;> rfl

theorem distinct_kernelCall (h : ctx.Distinct) (c : KernelCall) :
    (c.apply true ctx).Distinct := by
  cases c with
  | addr c => exact Spp.distinct_apply h c
  | set c =>
    refine Spp.distinct_congr ?_ h
    cases c <;> rfl

/-- A gap is what the last call for it said. -/
theorem dup_kernelCall (alloc : Bool) (c : KernelCall) (i : Fin 4) :
    (c.apply alloc ctx).dup.get i = match c with
      | .set (.dup j v) => if j = i then v else ctx.dup.get i
      | _ => ctx.dup.get i := by
  cases c with
  | addr c => cases c <;> rfl
  | set c =>
    cases c with
    | dup j v =>
      show (Spp.sppDupSet ctx (UInt16.ofNat j) v).dup.get i = _
      rw [Spp.dup_sppDupSet, Spp.dupIndex_ofNat]
    | trim v => rfl
    | wmm b => rfl

/-- What passes at the hooks and in the workers is no concern of the settings. -/
theorem ctx_netStep_of_passing (env : KernelEnv) (jiffies : UInt32) (s : Net) {e : NetEvent}
    (he : passing e = true) : (netStep env jiffies s e).1.ctx = s.ctx := by
  cases e with
  | netlink alloc skb => cases he
  | up alloc skb => rfl
  | down copied alloc skb =>
    rw [netStep]
    split <;> rfl
  | trimWork => rfl
  | dumpWork => rfl

/-- What the module makes of a frame. -/
theorem ctx_netStep_netlink (env : KernelEnv) (pid : UInt32) (alloc : Bool) (g : Garbage)
    (c : KernelCall) (s : Net) :
    (netStep env 0 s (.netlink alloc (sppNetlinkSendMsg pid g c.data))).1.ctx =
      c.apply alloc s.ctx :=
  recv_kernelCall pid alloc g c s.ctx

end Module

/-- A client asks for one server, and the module hears all of it but that the first packet is early.
-/
def oneServer : List RouterEvent :=
  let packet : NetEvent := .down true true
    (some ⟨0, true, 17, 0x0100000A, 0x0A01A8C0, 1, 2, 9, [7]⟩)
  [.serves (.request MsgType.openSpp.code 0x0A01A8C0 (some (Json.obj [("viparray",
      .array [.str "10.0.0.1:80"])])) (Env.at 0 none)),
    .delivers true ⟨0, [0, 0]⟩, .delivers true ⟨0, [0, 0]⟩, .delivers true ⟨0, [0, 0]⟩,
    .passes 0 packet, .delivers true ⟨0, [0, 0]⟩, .delivers true ⟨0, [0, 0]⟩,
    .delivers true ⟨0, [0, 0]⟩, .passes 1 packet]

/-- A kernel whose ticks are milliseconds and whose hash is of no use. -/
def plainKernel : KernelEnv := ⟨fun _ _ => 0, 0, fun ms => ms.toUInt32⟩

theorem exists_run_oneServer : ∃ r,
    Run.run (routerStep (JsonC.reading []) plainKernel 7) (routerInit ⟨['0'], []⟩) oneServer =
      some r ∧ r.flying = [] ∧ r.net.dumpGc.length = 1 := by
  have hrun : (Run.run (routerStep (JsonC.reading []) plainKernel 7) (routerInit ⟨['0'], []⟩)
      oneServer).map (fun r => (r.flying, r.net.dumpGc.length)) = some ([], 1) := by
    decide +kernel
  obtain ⟨r, hr, hr'⟩ := Option.map_eq_some_iff.mp hrun
  obtain ⟨hflying, hlen⟩ := Prod.mk.inj hr'
  exact ⟨r, hr, hflying, hlen⟩

end Tqos
