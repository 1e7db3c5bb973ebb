import Mathlib.Algebra.BigOperators.Group.List.Basic
import Tqos.Lib.Run
import Tqos.Spp.HashTable
import Tqos.Spp.Network

/-!
# The counter of a hash table

`spp_hash_add` counts a new node in `entries`. A node can leave a table in three ways: it is deleted
by its key, a visitor unlinks it, or the table is destroyed. None of these counts it out, and the
check against `SPP_HASH_MAX` that would read the counter is a comment.

## Main results

* `length_nodes_get`, `length_nodes_visit`, `length_nodes_destroy` — how many nodes are left
* `counts_iff` — the counter is the number of nodes as long as no node is unlinked
-/

namespace Tqos

namespace Spp

/-- `spp_hash_table_destroy`: every node of every chain is unlinked. -/
def sppHashTableDestroy {α : Type} {size : ℕ} (ht : SppHashTable α size) : SppHashTable α size :=
  { ht with head := ht.head.map fun _ => [] }

/-- What is done to a table. -/
inductive HashCall (α ν : Type)
  /-- `spp_hash_add`; there is memory for a node or not. -/
  | add (hash : UInt32) (v : ν) (alloc : Bool)
  /-- `spp_hash_get`. -/
  | get (hash : UInt32) (v : ν) (del : Bool)
  /-- `spp_hash_visit` with a visitor that unlinks the nodes for which `keep` fails. -/
  | visit (keep : α → Bool)
  /-- `spp_hash_table_destroy`. -/
  | destroy

section Calls

variable {α ν : Type} {size : ℕ} [NeZero size] (equ : α → ν → Bool) (make : ν → α)

/-- A call. -/
def hashCall (ht : SppHashTable α size) : HashCall α ν → SppHashTable α size
  | .add hash v alloc =>
    (sppHashAdd equ (fun v => if alloc then some (make v) else none) ht hash v).2
  | .get hash v del => (sppHashGet equ ht hash v del).2
  | .visit keep => sppHashVisit keep ht
  | .destroy => sppHashTableDestroy ht

/-- One call after another. -/
def hashStep (ht : SppHashTable α size) (c : HashCall α ν) : Option (SppHashTable α size) :=
  some (hashCall equ make ht c)

omit [NeZero size] in
/-- What is asked of a table: the counter is the number of nodes in all its chains. -/
def Counts (ht : SppHashTable α size) : Prop := ht.entries.toNat = ht.nodes.length

omit [NeZero size] in
instance : DecidablePred (Counts : SppHashTable α size → Prop) := fun _ =>
  inferInstanceAs (Decidable (_ = _))

/-- A node of the chain compares equal. -/
def isLinked (ht : SppHashTable α size) (hash : UInt32) (v : ν) : Bool :=
  (ht.head.get (bucket hash)).any (equ · v)

/-- No node is unlinked, and the number of nodes stays below `2 ^ 32`. -/
def UnlinksNone (ht : SppHashTable α size) : HashCall α ν → Prop
  | .add hash v alloc =>
    isLinked equ ht hash v = false → alloc = true → ht.nodes.length + 1 < 2 ^ 32
  | .get hash v del => del = true → isLinked equ ht hash v = false
  | .visit keep => ∀ a ∈ ht.nodes, keep a = true
  | .destroy => ht.nodes = []

end Calls

/-! ## How many nodes there are -/

section Nodes

variable {α ν : Type} {size : ℕ} {ht : SppHashTable α size}

/-- The number of nodes, when a chain is another one. -/
theorem length_nodes_set (entries : UInt32) (ht : SppHashTable α size) (b : Fin size)
    (chain : List α) :
    (SppHashTable.nodes ⟨entries, ht.head.set b chain b.isLt⟩).length + (ht.head.get b).length =
      ht.nodes.length + chain.length := by
  have hb : b.val < (ht.head.toList.map List.length).length := by
    rw [List.length_map, Vector.length_toList]
    exact b.isLt
  have hsplit := congrArg List.sum (List.set_getElem_self hb)
  have hchain : (ht.head.toList.map List.length)[b.val] = (ht.head.get b).length := by
    rw [List.getElem_map]
    rfl
  rw [List.sum_set, if_pos hb, hchain] at hsplit
  have hset : (ht.head.set b chain b.isLt).toList.map List.length =
      (ht.head.toList.map List.length).set b chain.length := by
    rw [Vector.toList_set, List.map_set]
  rw [SppHashTable.nodes, SppHashTable.nodes, List.length_flatten, List.length_flatten, hset,
    List.sum_set, if_pos hb, ← hsplit]
  omega

theorem nodes_new : (sppHashTableNew α size).nodes = [] := by
  rw [SppHashTable.nodes, sppHashTableNew, Vector.toList_replicate]
  exact List.flatten_replicate_nil

/-- **A visit** leaves the nodes that it keeps. -/
theorem nodes_visit (keep : α → Bool) (ht : SppHashTable α size) :
    (sppHashVisit keep ht).nodes = ht.nodes.filter keep := by
  rw [SppHashTable.nodes, SppHashTable.nodes, sppHashVisit, Vector.toList_map, List.filter_flatten]

/-- **A table that is destroyed** is empty. -/
theorem nodes_destroy (ht : SppHashTable α size) : (sppHashTableDestroy ht).nodes = [] := by
  rw [SppHashTable.nodes, sppHashTableDestroy, Vector.toList_map, List.flatten_eq_nil_iff]
  intro chain hchain
  obtain ⟨_, -, rfl⟩ := List.mem_map.mp hchain
  rfl

variable [NeZero size] {equ : α → ν → Bool} {make : ν → α} {hash : UInt32} {v : ν}

theorem length_nodes_push (ht : SppHashTable α size) (hash : UInt32) (node : α) :
    (push ht hash node).nodes.length = ht.nodes.length + 1 := by
  have hset := length_nodes_set (ht.entries + 1) ht (bucket hash)
    (node :: ht.head.get (bucket hash))
  rw [List.length_cons] at hset
  rw [push]
  omega

theorem mem_nodes_push (ht : SppHashTable α size) (hash : UInt32) (node : α) :
    node ∈ (push ht hash node).nodes := by
  have hchain : (push ht hash node).head.get (bucket hash) =
      node :: ht.head.get (bucket hash) := by
    rw [push, get_set, if_pos rfl]
  refine List.mem_flatten.mpr ⟨(push ht hash node).head.get (bucket hash), ?_, ?_⟩
  · exact Vector.mem_toList_iff.mpr (Vector.getElem_mem _)
  · rw [hchain]
    exact List.mem_cons_self

/-- Nothing else comes to be in the table. -/
theorem eq_or_mem_of_mem_push {ht : SppHashTable α size} {hash : UInt32} {node a : α}
    (h : a ∈ (push ht hash node).nodes) : a = node ∨ a ∈ ht.nodes := by
  obtain ⟨chain, hchain, ha⟩ := List.mem_flatten.mp h
  rw [push, Vector.toList_set] at hchain
  rcases List.mem_or_eq_of_mem_set hchain with hold | rfl
  · exact Or.inr (List.mem_flatten.mpr ⟨chain, hold, ha⟩)
  · rcases List.mem_cons.mp ha with rfl | ha
    · exact Or.inl rfl
    · refine Or.inr (List.mem_flatten.mpr ⟨_, ?_, ha⟩)
      exact Vector.mem_toList_iff.mpr (Vector.getElem_mem _)

/-- Looking for a value that no node compares equal with. -/
theorem sppHashGet_of_none {del : Bool}
    (h : (ht.head.get (bucket hash)).find? (equ · v) = none) :
    sppHashGet equ ht hash v del = (none, ht) := by
  have hfind : (ht.head[(bucket hash : Fin size)]).find? (equ · v) = none := h
  rw [sppHashGet, hfind]

theorem sppHashGet_of_some {del : Bool} {node : α}
    (h : (ht.head.get (bucket hash)).find? (equ · v) = some node) :
    sppHashGet equ ht hash v del =
      if del then (none, ⟨ht.entries, ht.head.set (bucket hash : Fin size).val
        ((ht.head.get (bucket hash)).eraseP (equ · v)) (Fin.isLt _)⟩)
      else (some node, ht) := by
  have hfind : (ht.head[(bucket hash : Fin size)]).find? (equ · v) = some node := h
  rw [sppHashGet, hfind]
  rfl

/-- **Deleting** takes a node out if one compares equal. -/
theorem length_nodes_get (equ : α → ν → Bool) (ht : SppHashTable α size) (hash : UInt32) (v : ν)
    (del : Bool) :
    (sppHashGet equ ht hash v del).2.nodes.length +
      (if del && isLinked equ ht hash v then 1 else 0) = ht.nodes.length := by
  have hany : isLinked equ ht hash v =
      ((ht.head.get (bucket hash)).find? (equ · v)).isSome := List.isSome_find?.symm
  rw [hany]
  cases hfind : (ht.head.get (bucket hash)).find? (equ · v) with
  | none =>
    rw [sppHashGet_of_none hfind, Option.isSome_none, Bool.and_false]
    rfl
  | some node =>
    rw [sppHashGet_of_some hfind, Option.isSome_some, Bool.and_true]
    cases del with
    | false => rfl
    | true =>
      have hset := length_nodes_set ht.entries ht (bucket hash)
        ((ht.head.get (bucket hash)).eraseP (equ · v))
      have herase := List.length_eraseP_add_one (List.mem_of_find?_eq_some hfind)
        (List.find?_some hfind)
      rw [if_pos rfl, if_pos rfl]
      dsimp only
      omega

/-- Nothing but an addition changes the counter. -/
theorem entries_get (equ : α → ν → Bool) (ht : SppHashTable α size) (hash : UInt32) (v : ν)
    (del : Bool) : (sppHashGet equ ht hash v del).2.entries = ht.entries := by
  rw [sppHashGet]
  split
  · rfl
  · split <;> rfl

/-- An addition, by whether the value is there already. -/
theorem hashCall_add (ht : SppHashTable α size) (hash : UInt32) (v : ν) (alloc : Bool) :
    hashCall equ make ht (.add hash v alloc) =
      if isLinked equ ht hash v = false ∧ alloc = true then push ht hash (make v) else ht := by
  rw [hashCall, sppHashAdd]
  cases hlinked : isLinked equ ht hash v with
  | true =>
    have hany : (ht.head[(bucket hash : Fin size)]).any (equ · v) = true := hlinked
    rw [hany]
    rfl
  | false =>
    have hany : (ht.head[(bucket hash : Fin size)]).any (equ · v) = false := hlinked
    rw [hany]
    cases alloc <;> rfl

end Nodes

/-! ## The counter along a run -/

section Run

variable {α ν : Type} {size : ℕ} [NeZero size] {equ : α → ν → Bool} {make : ν → α}
  {ht : SppHashTable α size}

/-- One more node is counted unless the counter is at its end. -/
theorem toNat_succ_eq_iff {e : UInt32} {n : ℕ} (h : e.toNat = n) :
    (e + 1).toNat = n + 1 ↔ n + 1 < 2 ^ 32 := by
  have hlt := e.toNat_lt
  have hadd : (e + 1).toNat = (e.toNat + 1) % 2 ^ 32 := UInt32.toNat_add e 1
  rw [hadd, h]
  constructor
  · intro heq
    by_contra hge
    obtain heq' : n + 1 = 2 ^ 32 := by omega
    rw [heq', Nat.mod_self] at heq
    omega
  · exact fun hn => Nat.mod_eq_of_lt hn

/-- **A call keeps the count** exactly if it unlinks no node. -/
theorem counts_hashCall_iff (h : Counts ht) (c : HashCall α ν) :
    Counts (hashCall equ make ht c) ↔ UnlinksNone equ ht c := by
  cases c with
  | add hash v alloc =>
    rw [hashCall_add, UnlinksNone]
    by_cases hnew : isLinked equ ht hash v = false ∧ alloc = true
    · rw [if_pos hnew, Counts, length_nodes_push]
      exact (toNat_succ_eq_iff h).trans ⟨fun hlt _ _ => hlt, fun hlt => hlt hnew.1 hnew.2⟩
    · rw [if_neg hnew]
      exact iff_of_true h fun hfree halloc => absurd ⟨hfree, halloc⟩ hnew
  | get hash v del =>
    have hlen := length_nodes_get equ ht hash v del
    have hcount : (sppHashGet equ ht hash v del).2.entries.toNat = ht.nodes.length := by
      rw [entries_get]
      exact h
    rw [hashCall, UnlinksNone, Counts, hcount]
    cases del with
    | false =>
      rw [Bool.false_and, if_neg Bool.false_ne_true] at hlen
      exact iff_of_true hlen.symm nofun
    | true =>
      rw [Bool.true_and] at hlen
      cases hlinked : isLinked equ ht hash v with
      | false =>
        rw [hlinked, if_neg Bool.false_ne_true] at hlen
        exact iff_of_true hlen.symm fun _ => rfl
      | true =>
        rw [hlinked, if_pos rfl] at hlen
        exact iff_of_false (by omega) fun hno => absurd (hno rfl) (by decide)
  | visit keep =>
    rw [hashCall, UnlinksNone, Counts, nodes_visit]
    show ht.entries.toNat = _ ↔ _
    rw [h, eq_comm, List.length_filter_eq_length_iff]
  | destroy =>
    rw [hashCall, UnlinksNone, Counts, nodes_destroy]
    show ht.entries.toNat = _ ↔ _
    rw [h, List.length_nil, List.length_eq_zero_iff]

omit [NeZero size] in
theorem counts_new : Counts (sppHashTableNew α size) := by
  rw [Counts, nodes_new]
  rfl

/-- **When the counter is the number of nodes**, from the new table on and after every call: exactly
in the runs in which no call unlinks a node. -/
theorem counts_iff (equ : α → ν → Bool) (make : ν → α) (cs : List (HashCall α ν)) :
    Run.Visits (hashStep equ make) Counts (sppHashTableNew α size) cs ↔
      Run.Along (hashStep equ make) (UnlinksNone equ) (sppHashTableNew α size) cs := by
  refine Run.visits_iff_along counts_new (fun ht c ht' h hc hstep => ?_)
    (fun ht c ht' h hc hstep => ?_) (Run.run_total (hashCall equ make) _ cs)
  · obtain rfl := Option.some.inj hstep
    exact (counts_hashCall_iff h c).mpr hc
  · obtain rfl := Option.some.inj hstep
    exact mt (counts_hashCall_iff h c).mp hc

end Run

/-- An entry whose stamp is over at 20 jiffies. -/
def staleEntry : SppPacketEntry where
  uhash := 5
  ulen := 4
  protocol := ipprotoUdp
  saddr := 1
  daddr := 2
  sport := 3
  dport := 4
  expire := 10

/-- The entry of a packet. -/
def stalePacket (k : PacketKey) : SppPacketEntry := { k with expire := 10 }

theorem isLinked_new (hash : UInt32) (v : PacketKey) :
    isLinked sppPacketEqu (sppHashTableNew SppPacketEntry sppPacketMax) hash v = false := by
  rw [isLinked, sppHashTableNew]
  show (Vector.replicate sppPacketMax ([] : List SppPacketEntry))[bucket hash].any _ = false
  simp

/-- The packet is remembered. -/
theorem hashStep_addStale : hashStep sppPacketEqu stalePacket
    (sppHashTableNew SppPacketEntry sppPacketMax) (.add 5 staleEntry.toPacketKey true) =
      some (push (sppHashTableNew SppPacketEntry sppPacketMax) 5 staleEntry) := by
  rw [hashStep, hashCall_add, if_pos ⟨isLinked_new 5 staleEntry.toPacketKey, rfl⟩]
  rfl

/-- One packet is remembered, and a sweep at `jiffies` forgets those whose stamp is over. -/
def sweepCalls (jiffies : UInt32) : List (HashCall SppPacketEntry PacketKey) :=
  [.add 5 staleEntry.toPacketKey true, .visit fun ent => !expired jiffies ent]

/-- A sweep that comes early keeps the entry. -/
theorem counts_sweepCalls :
    Run.Visits (hashStep sppPacketEqu stalePacket) Counts
      (sppHashTableNew SppPacketEntry sppPacketMax) (sweepCalls 5) := by
  refine (counts_iff sppPacketEqu stalePacket (sweepCalls 5)).mpr ?_
  refine Run.along_cons.mpr ⟨fun _ _ => by rw [nodes_new]; decide, fun ht hadd => ?_⟩
  obtain rfl := Option.some.inj (hashStep_addStale.symm.trans hadd)
  refine Run.along_cons.mpr ⟨fun a ha => ?_, fun _ _ => Run.along_nil _ _ _⟩
  rcases eq_or_mem_of_mem_push ha with rfl | ha
  · decide
  · rw [nodes_new] at ha
    cases ha

/-- The sweep unlinks the entry, and the counter stays. -/
theorem not_counts_sweepCalls :
    ¬ Run.Visits (hashStep sppPacketEqu stalePacket) Counts
      (sppHashTableNew SppPacketEntry sppPacketMax) (sweepCalls 20) := by
  intro h
  have hcounts := h [.add 5 staleEntry.toPacketKey true] (List.prefix_append _ _) _
    (by rw [Run.run_cons, hashStep_addStale]; rfl)
  have hsweep := h (sweepCalls 20) List.prefix_rfl _
    (by rw [sweepCalls, Run.run_cons, hashStep_addStale]; rfl)
  have hkept := (counts_hashCall_iff hcounts _).mp hsweep staleEntry (mem_nodes_push _ _ _)
  exact absurd hkept (by decide)

end Spp

end Tqos
