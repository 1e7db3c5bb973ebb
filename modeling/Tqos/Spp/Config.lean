import Tqos.Spp.Struct

/-!
# The settings of the kernel module

`struct spp_config_ctx` and the functions that read and write it. The address tables are hash tables
of plain addresses; whether `kmem_cache_alloc` succeeds is an argument of the functions that
allocate.
-/

namespace Tqos

namespace Spp

/-- `SPP_SERVER_MAX`. -/
abbrev sppServerMax : ℕ := 64

/-- `SPP_CLIENT_MAX`. -/
abbrev sppClientMax : ℕ := 32

/-- `struct spp_config_ctx`. -/
structure SppConfigCtx where
  dup : Vector UInt16 4
  trim : UInt16
  wmm : Bool
  htSip : SppHashTable UInt32 sppServerMax
  htCip : SppHashTable UInt32 sppClientMax
deriving DecidableEq

/-- `spp_config_init`; `dup[3]` is not set there and is zero as static storage is. -/
def sppConfigInit : SppConfigCtx where
  dup := #v[20, 0, 0, 0]
  trim := 100
  wmm := true
  htSip := sppHashTableNew UInt32 sppServerMax
  htCip := sppHashTableNew UInt32 sppClientMax

/-- `ip_equ`. -/
def ipEqu (ipe ip : UInt32) : Bool := ipe == ip

/-- `ip_new`. -/
def ipNew (alloc : Bool) (ip : UInt32) : Option UInt32 := if alloc then some ip else none

variable (alloc : Bool) (ctx : SppConfigCtx)

/-- `spp_sip_add`. -/
def sppSipAdd (ip : UInt32) : Except Errno Unit × SppConfigCtx :=
  let r := sppHashAdd ipEqu (ipNew alloc) ctx.htSip ip ip
  (r.1, { ctx with htSip := r.2 })

/-- `spp_cip_add`. -/
def sppCipAdd (ip : UInt32) : Except Errno Unit × SppConfigCtx :=
  let r := sppHashAdd ipEqu (ipNew alloc) ctx.htCip ip ip
  (r.1, { ctx with htCip := r.2 })

/-- `spp_sip_del`. -/
def sppSipDel (ip : UInt32) : SppConfigCtx :=
  { ctx with htSip := (sppHashGet ipEqu ctx.htSip ip ip true).2 }

/-- `spp_cip_del`. -/
def sppCipDel (ip : UInt32) : SppConfigCtx :=
  { ctx with htCip := (sppHashGet ipEqu ctx.htCip ip ip true).2 }

/-- `spp_sip_match`. -/
def sppSipMatch (ip : UInt32) (del : Bool) : Bool × SppConfigCtx :=
  let r := sppHashGet ipEqu ctx.htSip ip ip del
  (r.1.isSome, { ctx with htSip := r.2 })

/-- `spp_cip_match`. -/
def sppCipMatch (ip : UInt32) (del : Bool) : Bool × SppConfigCtx :=
  let r := sppHashGet ipEqu ctx.htCip ip ip del
  (r.1.isSome, { ctx with htCip := r.2 })

/-- `index & 3`. -/
def dupIndex (index : UInt16) : Fin 4 := Fin.ofNat 4 (index &&& 3).toNat

/-- `spp_wmm_get`. -/
def sppWmmGet : Bool := ctx.wmm

/-- `spp_wmm_set`. -/
def sppWmmSet (b : Bool) : SppConfigCtx := { ctx with wmm := b }

/-- `spp_dup_get`. -/
def sppDupGet (index : UInt16) : UInt16 := ctx.dup[dupIndex index]

/-- `spp_dup_set`. -/
def sppDupSet (index val : UInt16) : SppConfigCtx :=
  { ctx with dup := ctx.dup.set (dupIndex index) val }

/-- `spp_trim_get`. -/
def sppTrimGet : UInt16 := ctx.trim

/-- `spp_trim_set`. -/
def sppTrimSet (v : UInt16) : SppConfigCtx := { ctx with trim := v }

/-- Setting one gap leaves the others. -/
theorem dup_sppDupSet (index val : UInt16) (i : Fin 4) :
    (sppDupSet ctx index val).dup.get i = if dupIndex index = i then val else ctx.dup.get i := by
  show (sppDupSet ctx index val).dup[i] = if dupIndex index = i then val else ctx.dup[i]
  simp only [sppDupSet, Fin.getElem_fin, Vector.getElem_set, Fin.val_inj]

end Spp

end Tqos
