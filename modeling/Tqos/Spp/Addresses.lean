import Tqos.Spp.HashTable
import Tqos.Spp.Settings

/-!
# The address tables on the kernel side

Which clients and servers the module acts on is held in two hash tables of addresses. User space
adds and removes addresses by messages; the tables answer `spp_cip_match` and `spp_sip_match`.

## Main results

* `hasServer_apply`, `hasClient_apply` — the tables are sets of addresses
* `recv_addrCall` — the message of an address call does what the call of the same name does
-/

namespace Tqos

namespace Spp

open Nl (sppNetlinkSendMsg Garbage)

/-! ## The tables are sets -/

/-- The callbacks of the address tables compare whole addresses. -/
theorem callbacks_ip (alloc : Bool) : Callbacks id ipEqu (ipNew alloc) id where
  equ_iff a v := by simp [ipEqu]
  key_new v a h := by
    rw [ipNew] at h
    split at h
    · exact (Option.some.inj h).symm
    · cases h

/-- Both tables hold every address at most once. -/
def SppConfigCtx.Distinct (ctx : SppConfigCtx) : Prop :=
  Spp.Distinct id ctx.htSip ∧ Spp.Distinct id ctx.htCip

theorem distinct_sppConfigInit : sppConfigInit.Distinct := ⟨distinct_new, distinct_new⟩

/-- What adding an address does to a table of distinct addresses. -/
theorem find_sppHashAdd_ip {size : ℕ} [NeZero size] {ht : SppHashTable UInt32 size}
    (hd : Distinct id ht) (ip x : UInt32) :
    ((find id id (sppHashAdd ipEqu (ipNew true) ht ip ip).2 x).isSome = true ↔
        x = ip ∨ (find id id ht x).isSome = true) ∧
      Distinct id (sppHashAdd ipEqu (ipNew true) ht ip ip).2 := by
  have hadd : sppHashAdd ipEqu (ipNew true) ht ip ip =
      if (find id id ht ip).isSome then (.error .eexist, ht)
      else (.ok (), push ht ip ip) := sppHashAdd_eq id (callbacks_ip true) ht ip
  rw [hadd]
  split
  · rename_i hmem
    refine ⟨?_, hd⟩
    by_cases hx : x = ip
    · simp [hx, hmem]
    · simp [hx]
  · rename_i hnot
    refine ⟨?_, distinct_push id hd rfl (Option.not_isSome_iff_eq_none.mp hnot)⟩
    have hpush : find id id (push ht ip ip) x = if x = ip then some ip else find id id ht x :=
      find_push id rfl
    rw [hpush]
    by_cases hx : x = ip <;> simp [hx]

/-- What deleting an address does to a table of distinct addresses. -/
theorem find_sppHashGet_ip {size : ℕ} [NeZero size] {ht : SppHashTable UInt32 size}
    (hd : Distinct id ht) (ip x : UInt32) :
    ((find id id (sppHashGet ipEqu ht ip ip true).2 x).isSome = true ↔
        x ≠ ip ∧ (find id id ht x).isSome = true) ∧
      Distinct id (sppHashGet ipEqu ht ip ip true).2 := by
  have hcb : Callbacks id ipEqu (ipNew true) id := callbacks_ip true
  have hdel := find_sppHashGet_true id hcb hd ip x
  simp only [id_eq] at hdel
  refine ⟨?_, distinct_sppHashGet_true id hcb hd ip⟩
  rw [hdel]
  by_cases hx : x = ip <;> simp [hx]

/-- The servers the module acts on. -/
def SppConfigCtx.HasServer (ctx : SppConfigCtx) (ip : UInt32) : Prop :=
  (sppSipMatch ctx ip false).1 = true

/-- The clients the module acts on. -/
def SppConfigCtx.HasClient (ctx : SppConfigCtx) (ip : UInt32) : Prop :=
  (sppCipMatch ctx ip false).1 = true

section Sets

variable {ctx : SppConfigCtx} {x : UInt32}

theorem hasServer_iff (ctx : SppConfigCtx) (ip : UInt32) :
    ctx.HasServer ip ↔ (find id id ctx.htSip ip).isSome = true := by
  have hget : sppHashGet ipEqu ctx.htSip ip ip false = (find id id ctx.htSip ip, ctx.htSip) :=
    sppHashGet_false id (callbacks_ip true) ctx.htSip ip
  rw [SppConfigCtx.HasServer, sppSipMatch, hget]

theorem hasClient_iff (ctx : SppConfigCtx) (ip : UInt32) :
    ctx.HasClient ip ↔ (find id id ctx.htCip ip).isSome = true := by
  have hget : sppHashGet ipEqu ctx.htCip ip ip false = (find id id ctx.htCip ip, ctx.htCip) :=
    sppHashGet_false id (callbacks_ip true) ctx.htCip ip
  rw [SppConfigCtx.HasClient, sppCipMatch, hget]

theorem not_hasServer_init (ip : UInt32) : ¬ sppConfigInit.HasServer ip := by
  rw [hasServer_iff, sppConfigInit, find_new]
  exact Bool.false_ne_true

theorem not_hasClient_init (ip : UInt32) : ¬ sppConfigInit.HasClient ip := by
  rw [hasClient_iff, sppConfigInit, find_new]
  exact Bool.false_ne_true

end Sets

/-! ## The messages -/

/-- A call of one of the functions of `nl.c` that name an address. -/
inductive AddrCall
  | sipAdd (ip : UInt32)
  | sipDel (ip : UInt32)
  | cipAdd (ip : UInt32)
  | cipDel (ip : UInt32)
deriving DecidableEq, Repr

namespace AddrCall

/-- The data the call puts into its frame. -/
def data : AddrCall → List UInt8
  | sipAdd ip => Nl.sppSipAdd ip
  | sipDel ip => Nl.sppSipDel ip
  | cipAdd ip => Nl.sppCipAdd ip
  | cipDel ip => Nl.sppCipDel ip

/-- The function of the same name on the kernel side. -/
def apply (alloc : Bool) (ctx : SppConfigCtx) : AddrCall → SppConfigCtx
  | sipAdd ip => (sppSipAdd alloc ctx ip).2
  | sipDel ip => sppSipDel ctx ip
  | cipAdd ip => (sppCipAdd alloc ctx ip).2
  | cipDel ip => sppCipDel ctx ip

end AddrCall

section Apply

variable {ctx : SppConfigCtx}

/-- Every call keeps the addresses apart. -/
theorem distinct_apply (hd : ctx.Distinct) (c : AddrCall) : (c.apply true ctx).Distinct := by
  cases c with
  | sipAdd ip => exact ⟨(find_sppHashAdd_ip hd.1 ip ip).2, hd.2⟩
  | sipDel ip => exact ⟨(find_sppHashGet_ip hd.1 ip ip).2, hd.2⟩
  | cipAdd ip => exact ⟨hd.1, (find_sppHashAdd_ip hd.2 ip ip).2⟩
  | cipDel ip => exact ⟨hd.1, (find_sppHashGet_ip hd.2 ip ip).2⟩

/-- **What a call does to the set of servers.** -/
theorem hasServer_apply (hd : ctx.Distinct) (c : AddrCall) (x : UInt32) :
    (c.apply true ctx).HasServer x ↔ match c with
      | .sipAdd ip => x = ip ∨ ctx.HasServer x
      | .sipDel ip => x ≠ ip ∧ ctx.HasServer x
      | .cipAdd _ | .cipDel _ => ctx.HasServer x := by
  cases c with
  | sipAdd ip =>
    rw [hasServer_iff, hasServer_iff]
    exact (find_sppHashAdd_ip hd.1 ip x).1
  | sipDel ip =>
    rw [hasServer_iff, hasServer_iff]
    exact (find_sppHashGet_ip hd.1 ip x).1
  | cipAdd ip => exact Iff.rfl
  | cipDel ip => exact Iff.rfl

/-- **What a call does to the set of clients.** -/
theorem hasClient_apply (hd : ctx.Distinct) (c : AddrCall) (x : UInt32) :
    (c.apply true ctx).HasClient x ↔ match c with
      | .cipAdd ip => x = ip ∨ ctx.HasClient x
      | .cipDel ip => x ≠ ip ∧ ctx.HasClient x
      | .sipAdd _ | .sipDel _ => ctx.HasClient x := by
  cases c with
  | cipAdd ip =>
    rw [hasClient_iff, hasClient_iff]
    exact (find_sppHashAdd_ip hd.2 ip x).1
  | cipDel ip =>
    rw [hasClient_iff, hasClient_iff]
    exact (find_sppHashGet_ip hd.2 ip x).1
  | sipAdd ip => exact Iff.rfl
  | sipDel ip => exact Iff.rfl

/-- Settings with the same tables act on the same addresses. -/
theorem hasServer_congr {ctx' : SppConfigCtx} (h : ctx'.tables = ctx.tables) (x : UInt32) :
    ctx'.HasServer x ↔ ctx.HasServer x := by
  have hs : ctx'.htSip = ctx.htSip := congrArg Prod.fst h
  rw [hasServer_iff, hasServer_iff, hs]

theorem hasClient_congr {ctx' : SppConfigCtx} (h : ctx'.tables = ctx.tables) (x : UInt32) :
    ctx'.HasClient x ↔ ctx.HasClient x := by
  have hc : ctx'.htCip = ctx.htCip := congrArg Prod.snd h
  rw [hasClient_iff, hasClient_iff, hc]

theorem distinct_congr {ctx' : SppConfigCtx} (h : ctx'.tables = ctx.tables) (hd : ctx.Distinct) :
    ctx'.Distinct := by
  have hs : ctx'.htSip = ctx.htSip := congrArg Prod.fst h
  have hc : ctx'.htCip = ctx.htCip := congrArg Prod.snd h
  rw [SppConfigCtx.Distinct, hs, hc]
  exact hd

end Apply

/-- The kernel's settings once it has processed a frame with the given data. -/
def recv (pid : UInt32) (alloc : Bool) (g : Garbage) (data : List UInt8) (ctx : SppConfigCtx) :
    SppConfigCtx :=
  (sppNlRecvMsg alloc (sppNetlinkSendMsg pid g data) ctx).value.1

theorem recv_setCall (pid : UInt32) (alloc : Bool) (g : Garbage) (c : SetCall)
    (ctx : SppConfigCtx) : recv pid alloc g c.data ctx = deliver pid alloc ctx ⟨c, g⟩ := rfl

/-- The address behind the type of a message. -/
theorem value_u32At_fst (pid : UInt32) (g : Garbage) (t : UInt16) (ip : UInt32) :
    (u32At (sppNetlinkSendMsg pid g (le16 t ++ le32 ip)) (nlmsgHdrlen + 2)).value = ip := by
  show UInt32.ofNat (natLE (((sppNetlinkSendMsg pid g (le16 t ++ le32 ip)).drop
    (nlmsgHdrlen + 2)).take 4)) = ip
  have htake (rest : List UInt8) : (le16 t ++ rest).drop 2 = rest := by
    rw [← length_le16 t]
    exact List.drop_left
  rw [drop_sppNetlinkSendMsg, List.append_assoc, htake, ← length_le32 ip, List.take_left,
    ofNat_natLE_le32]

/-- **The message of an address call** does on the kernel side what the call says. -/
theorem recv_addrCall (pid : UInt32) (alloc : Bool) (g : Garbage) (c : AddrCall)
    (ctx : SppConfigCtx) : recv pid alloc g c.data ctx = c.apply alloc ctx := by
  have hrecv (t : Nl.CommType) (ip : UInt32) :
      recv pid alloc g (Nl.ipMsg t ip) ctx =
        (sppCommMsgProcess alloc (sppNetlinkSendMsg pid g (Nl.ipMsg t ip)) ctx).value.1 ∧
      (u16At (sppNetlinkSendMsg pid g (Nl.ipMsg t ip)) nlmsgHdrlen).value = t.code ∧
      (u32At (sppNetlinkSendMsg pid g (Nl.ipMsg t ip)) (nlmsgHdrlen + 2)).value = ip := by
    obtain ⟨skb, rfl, ht, hprocess⟩ := recv_frame pid alloc ctx g t.code (le32 ip)
    exact ⟨congrArg (fun r => r.value.1) hprocess, ht, value_u32At_fst pid g t.code ip⟩
  cases c with
  | sipAdd ip =>
    obtain ⟨h, ht, hip⟩ := hrecv .sipAdd ip
    rw [AddrCall.data, Nl.sppSipAdd, h, sppCommMsgProcess, Traced.value_bind, Traced.value_bind, ht]
    show (sppSipAdd alloc ctx (u32At _ (nlmsgHdrlen + 2)).value).2 = _
    rw [hip]
    rfl
  | sipDel ip =>
    obtain ⟨h, ht, hip⟩ := hrecv .sipDel ip
    rw [AddrCall.data, Nl.sppSipDel, h, sppCommMsgProcess, Traced.value_bind, Traced.value_bind, ht]
    show sppSipDel ctx (u32At _ (nlmsgHdrlen + 2)).value = _
    rw [hip]
    rfl
  | cipAdd ip =>
    obtain ⟨h, ht, hip⟩ := hrecv .cipAdd ip
    rw [AddrCall.data, Nl.sppCipAdd, h, sppCommMsgProcess, Traced.value_bind, Traced.value_bind, ht]
    show (sppCipAdd alloc ctx (u32At _ (nlmsgHdrlen + 2)).value).2 = _
    rw [hip]
    rfl
  | cipDel ip =>
    obtain ⟨h, ht, hip⟩ := hrecv .cipDel ip
    rw [AddrCall.data, Nl.sppCipDel, h, sppCommMsgProcess, Traced.value_bind, Traced.value_bind, ht]
    show sppCipDel ctx (u32At _ (nlmsgHdrlen + 2)).value = _
    rw [hip]
    rfl

end Spp

end Tqos
