import Mathlib.Data.Finset.Basic
import Tqos.Lib.Run
import Tqos.Spp.Addresses

/-!
# The address tables are finite sets

`spp_sip_add`, `spp_sip_del` and `spp_sip_match`, and their namesakes for clients, are the only
functions that touch the two tables. Seen from outside a table is a finite set of addresses: it
gives the answers the set gives, to any sequence of calls and whichever allocations fail.

`spp_hash_add` compares the entry of a node and `spp_hash_get` the node itself. The node is the
first field of the entry, so both are the address of the entry and stand for it here.

## Main results

* `onTable_eq_onSet` — one call, on the table and on the set
* `mem_onSet_iff` — an address is in the set exactly if the last call that changed its membership
  was an addition
* `ipTables_areSets` — what holds of a table after any calls
-/

namespace Tqos

namespace Spp

/-- A call of one of the three functions of an address table. -/
inductive IpCall
  /-- `spp_sip_add`, and whether `kmem_cache_alloc` gives it an entry. -/
  | add (alloc : Bool) (ip : UInt32)
  /-- `spp_sip_del`. -/
  | del (ip : UInt32)
  /-- `spp_sip_match(ip, false)`. -/
  | lookup (ip : UInt32)
deriving DecidableEq

/-- What a call returns. -/
inductive IpAnswer
  | added (r : Except Errno Unit)
  | deleted
  | found (b : Bool)
deriving DecidableEq

namespace IpCall

/-- The address a call is about. -/
def ip : IpCall → UInt32
  | add _ ip => ip
  | del ip => ip
  | lookup ip => ip

variable {size : ℕ} [NeZero size]

/-- The call on a table. -/
def onTable (ht : SppHashTable UInt32 size) : IpCall → IpAnswer × SppHashTable UInt32 size
  | add alloc ip =>
    let r := sppHashAdd ipEqu (ipNew alloc) ht ip ip
    (.added r.1, r.2)
  | del ip => (.deleted, (sppHashGet ipEqu ht ip ip true).2)
  | lookup ip =>
    let r := sppHashGet ipEqu ht ip ip false
    (.found r.1.isSome, r.2)

/-- The call on a set. -/
def onSet (m : Finset UInt32) : IpCall → IpAnswer × Finset UInt32
  | add alloc ip =>
    if ip ∈ m then (.added (.error .eexist), m)
    else if alloc then (.added (.ok ()), insert ip m)
    else (.added (.error .enomem), m)
  | del ip => (.deleted, m.erase ip)
  | lookup ip => (.found (decide (ip ∈ m)), m)

/-- The call, with its answer, settled whether the address is a member: it was deleted, or added
with success. -/
def settles (x : UInt32) : IpCall × IpAnswer → Bool
  | (add _ ip, .added (.ok _)) => decide (ip = x)
  | (del ip, _) => decide (ip = x)
  | _ => false

end IpCall

/-! ## The set -/

section OnSet

variable {m : Finset UInt32} {x : UInt32} {calls : List IpCall}

/-- A call about another address leaves the membership of this one. -/
theorem mem_onSet_of_ne {call : IpCall} (h : call.ip ≠ x) : x ∈ (call.onSet m).2 ↔ x ∈ m := by
  cases call with
  | add alloc ip =>
    rw [IpCall.onSet]
    split
    · exact Iff.rfl
    · split
      · exact Finset.mem_insert.trans (or_iff_right (Ne.symm h))
      · exact Iff.rfl
  | del ip => exact Finset.mem_erase.trans (and_iff_right (Ne.symm h))
  | lookup ip => exact Iff.rfl

/-- **The last word.** An address is in the set exactly if the last call that settled it was an
addition. -/
theorem mem_onSet_iff :
    x ∈ (Run.exchange IpCall.onSet ∅ calls).2 ↔
      ∃ alloc, ((Run.exchange IpCall.onSet ∅ calls).1.filter (IpCall.settles x)).getLast? =
        some (.add alloc x, .added (.ok ())) := by
  induction calls using List.reverseRecOn with
  | nil => simp [Run.exchange]
  | append_singleton calls call ih =>
    rw [Run.exchange_concat, List.filter_append]
    generalize Run.exchange IpCall.onSet ∅ calls = r at ih ⊢
    obtain ⟨log, m⟩ := r
    dsimp only at ih ⊢
    cases call with
    | add alloc ip =>
      rw [IpCall.onSet]
      split
      · simpa [IpCall.settles] using ih
      · split
        · by_cases hip : ip = x
          · simp [IpCall.settles, hip]
          · simpa [IpCall.settles, hip, Ne.symm hip] using ih
        · simpa [IpCall.settles] using ih
    | del ip =>
      rw [IpCall.onSet]
      by_cases hip : ip = x
      · simp [IpCall.settles, hip]
      · simpa [IpCall.settles, hip, Ne.symm hip] using ih
    | lookup ip => simpa [IpCall.onSet, IpCall.settles] using ih

end OnSet

/-! ## The table -/

/-- A table and the set of addresses it holds: no address is in two nodes, and every node is in the
chain of its address. -/
structure IsSet {size : ℕ} [NeZero size] (ht : SppHashTable UInt32 size) (m : Finset UInt32) :
    Prop where
  distinct : Distinct id ht
  placed : Placed id id ht
  mem_iff : ∀ ip, ip ∈ ht.nodes ↔ ip ∈ m

section OnTable

variable {size : ℕ} [NeZero size] {ht : SppHashTable UInt32 size} {m : Finset UInt32}

theorem isSet_new : IsSet (sppHashTableNew UInt32 size) ∅ where
  distinct := distinct_new
  placed := placed_new id
  mem_iff ip := by simp [SppHashTable.nodes, sppHashTableNew]

theorem IsSet.find_isSome (h : IsSet ht m) (ip : UInt32) : (find id id ht ip).isSome ↔ ip ∈ m := by
  rw [find_isSome_iff id h.placed, List.map_id, h.mem_iff]

/-- A table that finds the addresses of a set holds that set. -/
theorem isSet_of_find (hd : Distinct id ht) (hp : Placed id id ht)
    (hfind : ∀ ip, (find id id ht ip).isSome ↔ ip ∈ m) : IsSet ht m :=
  ⟨hd, hp, fun ip => by rw [← hfind, find_isSome_iff id hp, List.map_id]⟩

/-- **One call**, on the table and on the set. -/
theorem onTable_eq_onSet (h : IsSet ht m) (call : IpCall) :
    (call.onTable ht).1 = (call.onSet m).1 ∧ IsSet (call.onTable ht).2 (call.onSet m).2 := by
  cases call with
  | add alloc ip =>
    have hmem := h.find_isSome ip
    rw [IpCall.onTable, IpCall.onSet]
    cases alloc with
    | false =>
      have hadd : sppHashAdd ipEqu (ipNew false) ht ip ip =
          if (find id id ht ip).isSome then (.error .eexist, ht) else (.error .enomem, ht) :=
        sppHashAdd_eq id (callbacks_ip false) ht ip
      rw [hadd]
      by_cases hin : ip ∈ m
      · rw [if_pos (hmem.mpr hin), if_pos hin]
        exact ⟨rfl, h⟩
      · rw [if_neg (mt hmem.mp hin), if_neg hin]
        exact ⟨rfl, h⟩
    | true =>
      have hadd : sppHashAdd ipEqu (ipNew true) ht ip ip =
          if (find id id ht ip).isSome then (.error .eexist, ht) else (.ok (), push ht ip ip) :=
        sppHashAdd_eq id (callbacks_ip true) ht ip
      rw [hadd]
      by_cases hin : ip ∈ m
      · rw [if_pos (hmem.mpr hin), if_pos hin]
        exact ⟨rfl, h⟩
      · rw [if_neg (mt hmem.mp hin), if_neg hin, if_pos rfl]
        have hfree : find id id ht ip = none :=
          Option.not_isSome_iff_eq_none.mp (mt hmem.mp hin)
        refine ⟨rfl, isSet_of_find (distinct_push id h.distinct rfl hfree)
          (placed_push id h.placed rfl) fun x => ?_⟩
        have hpush : find id id (push ht ip ip) x = if x = ip then some ip else find id id ht x :=
          find_push id rfl
        show (find id id (push ht ip ip) x).isSome ↔ x ∈ insert ip m
        rw [hpush, Finset.mem_insert, ← h.find_isSome]
        by_cases hx : x = ip <;> simp [hx]
  | del ip =>
    have hcb : Callbacks id ipEqu (ipNew true) id := callbacks_ip true
    refine ⟨rfl, isSet_of_find (distinct_sppHashGet_true id hcb h.distinct ip)
      (placed_sppHashGet_true id hcb h.placed ip) fun x => ?_⟩
    rw [IpCall.onSet, Finset.mem_erase, ← h.find_isSome]
    exact (find_sppHashGet_ip h.distinct ip x).1
  | lookup ip =>
    have hget : sppHashGet ipEqu ht ip ip false = (find id id ht ip, ht) :=
      sppHashGet_false id (callbacks_ip true) ht ip
    rw [IpCall.onTable, IpCall.onSet, hget]
    refine ⟨?_, h⟩
    show IpAnswer.found (find id id ht ip).isSome = .found (decide (ip ∈ m))
    rw [Bool.eq_iff_iff.mpr ((h.find_isSome ip).trans (decide_eq_true_iff (p := ip ∈ m)).symm)]

/-- After any calls the table holds the set, and has answered as the set has. -/
theorem exchange_onTable (calls : List IpCall) :
    (Run.exchange IpCall.onTable (sppHashTableNew UInt32 size) calls).1 =
        (Run.exchange IpCall.onSet ∅ calls).1 ∧
      IsSet (Run.exchange IpCall.onTable (sppHashTableNew UInt32 size) calls).2
        (Run.exchange IpCall.onSet ∅ calls).2 :=
  Run.exchange_simulates (R := IsSet) (fun _ _ call h => onTable_eq_onSet h call) isSet_new calls

/-- What a table does, after the calls it has answered with `log`. -/
structure RefinesSet (log : List (IpCall × IpAnswer)) (ht : SppHashTable UInt32 size) : Prop where
  /-- It finds the addresses whose last word was an addition. -/
  lookup_iff : ∀ ip, ((IpCall.lookup ip).onTable ht).1 = .found true ↔
    ∃ alloc, (log.filter (IpCall.settles ip)).getLast? = some (.add alloc ip, .added (.ok ()))
  /-- It refuses to add the addresses it finds, and no others. -/
  eexist_iff : ∀ alloc ip, ((IpCall.add alloc ip).onTable ht).1 = .added (.error .eexist) ↔
    ((IpCall.lookup ip).onTable ht).1 = .found true
  /-- It is out of memory only if it got none. -/
  alloc_of_enomem : ∀ alloc ip,
    ((IpCall.add alloc ip).onTable ht).1 = .added (.error .enomem) → alloc = false
  /-- An addition that fails changes nothing. -/
  of_error : ∀ alloc ip e, ((IpCall.add alloc ip).onTable ht).1 = .added (.error e) →
    ((IpCall.add alloc ip).onTable ht).2 = ht
  /-- No address is in two nodes. -/
  nodup : ht.nodes.Nodup
  /-- Every node is in its bucket. -/
  bucket_eq : ∀ b : Fin size, ∀ ip ∈ ht.head.get b, b.val = ip.toNat % size
  /-- A call does not change what is found for another address. -/
  lookup_of_ne : ∀ (call : IpCall) ip, call.ip ≠ ip →
    ((IpCall.lookup ip).onTable (call.onTable ht).2).1 = ((IpCall.lookup ip).onTable ht).1

/-- **A table that holds a set** and has answered as the set would have. -/
theorem IsSet.refinesSet {calls : List IpCall}
    (h : IsSet ht (Run.exchange IpCall.onSet ∅ calls).2) :
    RefinesSet (Run.exchange IpCall.onSet ∅ calls).1 ht where
  lookup_iff ip := by
    rw [(onTable_eq_onSet h (.lookup ip)).1, ← mem_onSet_iff, IpCall.onSet, IpAnswer.found.injEq,
      decide_eq_true_iff]
  eexist_iff alloc ip := by
    rw [(onTable_eq_onSet h _).1, (onTable_eq_onSet h _).1, IpCall.onSet, IpCall.onSet]
    by_cases hin : ip ∈ (Run.exchange IpCall.onSet ∅ calls).2
    · simp [hin]
    · cases alloc <;> simp [hin]
  alloc_of_enomem alloc ip := by
    rw [(onTable_eq_onSet h _).1, IpCall.onSet]
    cases alloc with
    | false => exact fun _ => rfl
    | true => split <;> exact nofun
  of_error alloc ip e he := by
    rw [IpCall.onTable, sppHashAdd] at he ⊢
    dsimp only at he ⊢
    split
    · rfl
    · rename_i hnew
      rw [if_neg hnew] at he
      cases alloc with
      | false => rfl
      | true => cases he
  nodup := by simpa using nodup_nodes id h.distinct h.placed
  bucket_eq b ip hip := by
    rw [← h.placed b ip hip]
    rfl
  lookup_of_ne call ip hne := by
    have hcall := (onTable_eq_onSet h call).2
    rw [(onTable_eq_onSet hcall _).1, (onTable_eq_onSet h _).1, IpCall.onSet, IpCall.onSet]
    dsimp only
    rw [decide_eq_decide.mpr (mem_onSet_of_ne hne)]

end OnTable

/-! ## The two tables of the module -/

/-- A call for the table of servers or for the table of clients. -/
inductive TableCall
  | sip (call : IpCall)
  | cip (call : IpCall)
deriving DecidableEq

namespace TableCall

/-- What the module does. -/
def step (ctx : SppConfigCtx) : TableCall → IpAnswer × SppConfigCtx
  | sip (.add alloc ip) => (.added (sppSipAdd alloc ctx ip).1, (sppSipAdd alloc ctx ip).2)
  | sip (.del ip) => (.deleted, sppSipDel ctx ip)
  | sip (.lookup ip) => (.found (sppSipMatch ctx ip false).1, (sppSipMatch ctx ip false).2)
  | cip (.add alloc ip) => (.added (sppCipAdd alloc ctx ip).1, (sppCipAdd alloc ctx ip).2)
  | cip (.del ip) => (.deleted, sppCipDel ctx ip)
  | cip (.lookup ip) => (.found (sppCipMatch ctx ip false).1, (sppCipMatch ctx ip false).2)

/-- The call for the servers, if it is one. -/
def toSip : TableCall → Option IpCall
  | sip call => some call
  | cip _ => none

/-- The call for the clients, if it is one. -/
def toCip : TableCall → Option IpCall
  | sip _ => none
  | cip call => some call

/-- The part of a log that is about one table. -/
def only (part : TableCall → Option IpCall) (log : List (TableCall × IpAnswer)) :
    List (IpCall × IpAnswer) :=
  log.filterMap fun r => (part r.1).map fun call => (call, r.2)

/-- A call for one table is a call on it, and leaves the other table. -/
theorem step_sip (ctx : SppConfigCtx) (call : IpCall) :
    step ctx (sip call) = ((call.onTable ctx.htSip).1, { ctx with
      htSip := (call.onTable ctx.htSip).2 }) := by
  cases call <;> rfl

theorem step_cip (ctx : SppConfigCtx) (call : IpCall) :
    step ctx (cip call) = ((call.onTable ctx.htCip).1, { ctx with
      htCip := (call.onTable ctx.htCip).2 }) := by
  cases call <;> rfl

/-- **The tables do not disturb each other.** Each has answered the calls for it as if there were no
others. -/
theorem exchange_step (ctx : SppConfigCtx) (calls : List TableCall) :
    (Run.exchange IpCall.onTable ctx.htSip (calls.filterMap toSip) =
        (only toSip (Run.exchange step ctx calls).1, (Run.exchange step ctx calls).2.htSip)) ∧
      Run.exchange IpCall.onTable ctx.htCip (calls.filterMap toCip) =
        (only toCip (Run.exchange step ctx calls).1, (Run.exchange step ctx calls).2.htCip) := by
  induction calls generalizing ctx with
  | nil => exact ⟨rfl, rfl⟩
  | cons call calls ih =>
    cases call with
    | sip call =>
      obtain ⟨hsip, hcip⟩ := ih { ctx with htSip := (call.onTable ctx.htSip).2 }
      rw [Run.exchange, step_sip]
      refine ⟨?_, hcip⟩
      show Run.exchange IpCall.onTable ctx.htSip (call :: calls.filterMap toSip) = _
      rw [Run.exchange, hsip]
      rfl
    | cip call =>
      obtain ⟨hsip, hcip⟩ := ih { ctx with htCip := (call.onTable ctx.htCip).2 }
      rw [Run.exchange, step_cip]
      refine ⟨hsip, ?_⟩
      show Run.exchange IpCall.onTable ctx.htCip (call :: calls.filterMap toCip) = _
      rw [Run.exchange, hcip]
      rfl

end TableCall

/-- **The address tables are sets**, whatever their size, after any calls and whichever allocations
fail; and so are the two tables of the module, whose calls come in any order. -/
theorem ipTables_areSets (size : ℕ) [NeZero size] :
    (∀ calls : List IpCall,
        RefinesSet (Run.exchange IpCall.onTable (sppHashTableNew UInt32 size) calls).1
          (Run.exchange IpCall.onTable (sppHashTableNew UInt32 size) calls).2) ∧
      ∀ calls : List TableCall,
        RefinesSet
            (TableCall.only TableCall.toSip (Run.exchange TableCall.step sppConfigInit calls).1)
            (Run.exchange TableCall.step sppConfigInit calls).2.htSip ∧
          RefinesSet
            (TableCall.only TableCall.toCip (Run.exchange TableCall.step sppConfigInit calls).1)
            (Run.exchange TableCall.step sppConfigInit calls).2.htCip := by
  have hrun (n : ℕ) [NeZero n] (calls : List IpCall) :
      RefinesSet (Run.exchange IpCall.onTable (sppHashTableNew UInt32 n) calls).1
        (Run.exchange IpCall.onTable (sppHashTableNew UInt32 n) calls).2 := by
    obtain ⟨hlog, hset⟩ := @exchange_onTable n _ calls
    rw [hlog]
    exact hset.refinesSet
  refine ⟨hrun size, fun calls => ?_⟩
  obtain ⟨hsip, hcip⟩ := TableCall.exchange_step sppConfigInit calls
  have hs := hrun sppServerMax (calls.filterMap TableCall.toSip)
  have hc := hrun sppClientMax (calls.filterMap TableCall.toCip)
  rw [show sppHashTableNew UInt32 sppServerMax = sppConfigInit.htSip from rfl, hsip] at hs
  rw [show sppHashTableNew UInt32 sppClientMax = sppConfigInit.htCip from rfl, hcip] at hc
  exact ⟨hs, hc⟩

/-- Two addresses in one bucket; the first one goes, and an addition of the other is refused. -/
theorem ipTables_oneBucket :
    ((IpCall.lookup 7).onTable (Run.exchange IpCall.onTable (sppHashTableNew UInt32 3)
      [.add true 4, .add true 7, .del 4, .add true 7]).2).1 = .found true :=
  ((ipTables_areSets 3).1 [.add true 4, .add true 7, .del 4, .add true 7]).lookup_iff 7 |>.mpr
    ⟨true, by decide +kernel⟩

end Spp

end Tqos
