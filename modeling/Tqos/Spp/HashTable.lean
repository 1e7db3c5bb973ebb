import Mathlib.Data.List.Nodup
import Tqos.Spp.Struct

/-!
# A hash table is a map

Every table of the module compares its nodes by a key and hashes them by the same key. As long as no
chain holds one key twice, such a table is a partial map from keys to nodes; `spp_hash_add` keeps it
so, because it refuses a key that is there.

## Main results

* `sppHashAdd_eq` — adding binds a free key, and refuses any other
* `find_sppHashGet_true` — deleting unbinds the key
* `find_sppHashVisit` — a visit that unlinks nodes leaves the map restricted to the others
* `nodup_nodes` — a visit comes to every key once
-/

namespace Tqos

namespace Spp

variable {α ν κ : Type} {size : ℕ}

theorem get_set (v : Vector α size) (i j : Fin size) (x : α) :
    (v.set i x).get j = if i = j then x else v.get j := by
  show (v.set i x)[j] = if i = j then x else v[j]
  simp only [Fin.getElem_fin, Vector.getElem_set, Fin.val_inj]

/-- `spp_hash_visit` with a callback that unlinks the nodes for which `keep` fails. -/
def sppHashVisit (keep : α → Bool) (ht : SppHashTable α size) : SppHashTable α size :=
  { ht with head := ht.head.map fun chain => chain.filter keep }

/-- The nodes in the order in which `spp_hash_visit` comes to them. -/
def SppHashTable.nodes (ht : SppHashTable α size) : List α := ht.head.toList.flatten

variable [DecidableEq κ] [NeZero size] (key : α → κ) (hashOf : κ → UInt32)

/-- The node with the given key. -/
def find (ht : SppHashTable α size) (k : κ) : Option α :=
  (ht.head.get (bucket (hashOf k))).find? fun a => decide (key a = k)

omit [DecidableEq κ] [NeZero size] in
/-- No chain holds one key twice. -/
def Distinct (ht : SppHashTable α size) : Prop := ∀ b, ((ht.head.get b).map key).Nodup

omit [DecidableEq κ] in
/-- The callbacks compare by the key and make nodes that have it. -/
structure Callbacks (equ : α → ν → Bool) (new : ν → Option α) (keyOf : ν → κ) : Prop where
  equ_iff : ∀ a v, equ a v = true ↔ key a = keyOf v
  key_new : ∀ v a, new v = some a → key a = keyOf v

/-- A table with one more node, at the front of its chain. -/
def push (ht : SppHashTable α size) (hash : UInt32) (node : α) : SppHashTable α size :=
  let h : Fin size := bucket hash
  ⟨ht.entries + 1, ht.head.set h (node :: ht.head.get h) h.isLt⟩

section Lemmas

variable {key} {equ : α → ν → Bool} {new : ν → Option α} {keyOf : ν → κ}
  {ht : SppHashTable α size} {node : α} {k k' : κ} {v : ν}

omit [DecidableEq κ] [NeZero size] in
theorem distinct_new : Distinct key (sppHashTableNew α size) := by
  intro b
  have hnil : (sppHashTableNew α size).head.get b = [] := by
    show (Vector.replicate size ([] : List α))[b] = []
    simp
  rw [hnil]
  exact List.nodup_nil

@[simp] theorem find_new (k : κ) : find key hashOf (sppHashTableNew α size) k = none := by
  have hnil (b : Fin size) : (sppHashTableNew α size).head.get b = [] := by
    show (Vector.replicate size ([] : List α))[b] = []
    simp
  rw [find, hnil]
  rfl

theorem find_eq_none : find key hashOf ht k = none ↔
    ∀ a ∈ ht.head.get (bucket (hashOf k)), key a ≠ k := by
  simp [find]

/-- Comparing with a value is comparing with its key. -/
theorem Callbacks.equ_eq (h : Callbacks key equ new keyOf) (v : ν) :
    (fun a => equ a v) = fun a => decide (key a = keyOf v) := by
  funext a
  rw [Bool.eq_iff_iff, h.equ_iff, decide_eq_true_eq]

/-- **`spp_hash_add`** binds a free key, if there is memory, and refuses any other. -/
theorem sppHashAdd_eq (h : Callbacks key equ new keyOf) (ht : SppHashTable α size) (v : ν) :
    sppHashAdd equ new ht (hashOf (keyOf v)) v =
      if (find key hashOf ht (keyOf v)).isSome then (.error .eexist, ht)
      else match new v with
        | none => (.error .enomem, ht)
        | some node => (.ok (), push ht (hashOf (keyOf v)) node) := by
  have hany : (ht.head.get (bucket (hashOf (keyOf v)))).any (equ · v) =
      (find key hashOf ht (keyOf v)).isSome := by
    rw [h.equ_eq, find, List.isSome_find?]
  rw [← hany]
  rfl

theorem find_push (hnode : key node = k) :
    find key hashOf (push ht (hashOf k) node) k' =
      if k' = k then some node else find key hashOf ht k' := by
  rw [find, push, get_set]
  by_cases hb : bucket (hashOf k) = (bucket (hashOf k') : Fin size)
  · rw [if_pos hb, List.find?_cons, hnode, hb]
    by_cases hk : k' = k
    · simp [hk]
    · simp [hk, Ne.symm hk, find]
  · have hk : k' ≠ k := fun hk => hb (by rw [hk])
    rw [if_neg hb, if_neg hk]
    rfl

/-- A free key can be bound. -/
theorem distinct_push (h : Distinct key ht) (hnode : key node = k)
    (hfree : find key hashOf ht k = none) : Distinct key (push ht (hashOf k) node) := by
  intro b
  rw [push, get_set]
  split
  · rw [List.map_cons, List.nodup_cons]
    refine ⟨fun hmem => ?_, h _⟩
    obtain ⟨a, ha, hkey⟩ := List.mem_map.mp hmem
    exact (find_eq_none hashOf).mp hfree a ha (hkey.trans hnode)
  · exact h b

/-- `spp_hash_get` finds the node. -/
theorem sppHashGet_false (h : Callbacks key equ new keyOf) (ht : SppHashTable α size) (v : ν) :
    sppHashGet equ ht (hashOf (keyOf v)) v false = (find key hashOf ht (keyOf v), ht) := by
  have hfind : (ht.head.get (bucket (hashOf (keyOf v)))).find? (equ · v) =
      find key hashOf ht (keyOf v) := by
    rw [h.equ_eq, find]
  rw [← hfind]
  show (match (ht.head.get (bucket (hashOf (keyOf v)))).find? (equ · v) with
    | none => (none, ht)
    | some node => (some node, ht)) = _
  split <;> simp_all

/-- What `spp_hash_get` with `del` does to each chain. -/
theorem get_sppHashGet_true (h : Callbacks key equ new keyOf) (ht : SppHashTable α size) (v : ν)
    (b : Fin size) :
    (sppHashGet equ ht (hashOf (keyOf v)) v true).2.head.get b =
      if bucket (hashOf (keyOf v)) = b then
        (ht.head.get b).eraseP fun a => decide (key a = keyOf v)
      else ht.head.get b := by
  have hget : sppHashGet equ ht (hashOf (keyOf v)) v true =
      match (ht.head.get (bucket (hashOf (keyOf v)))).find? (equ · v) with
      | none => (none, ht)
      | some _ => (none, { ht with
          head := ht.head.set (bucket (hashOf (keyOf v)) : Fin size).val
            ((ht.head.get (bucket (hashOf (keyOf v)))).eraseP (equ · v)) (Fin.isLt _) }) := rfl
  rw [hget, h.equ_eq]
  split
  · rename_i hnone
    split
    · rename_i hb
      rw [List.eraseP_of_forall_not]
      rw [← hb]
      simpa using hnone
    · rfl
  · rw [get_set]
    split
    · rename_i hb
      rw [hb]
    · rfl

theorem find?_eraseP {l : List α} (hl : (l.map key).Nodup) :
    (l.eraseP fun a => decide (key a = k)).find? (fun a => decide (key a = k')) =
      if k' = k then none else l.find? fun a => decide (key a = k') := by
  induction l with
  | nil => simp
  | cons a l ih =>
    rw [List.map_cons, List.nodup_cons] at hl
    by_cases ha : key a = k
    · rw [List.eraseP_cons_of_pos (by simpa using ha)]
      split
      · rename_i hk
        rw [List.find?_eq_none]
        intro c hc
        rw [decide_eq_true_eq, hk, ← ha]
        exact fun hkey => hl.1 (List.mem_map.mpr ⟨c, hc, hkey⟩)
      · rename_i hk
        rw [List.find?_cons_of_neg]
        rw [decide_eq_true_eq, ha]
        exact Ne.symm hk
    · rw [List.eraseP_cons_of_neg (by simpa using ha), List.find?_cons, ih hl.2, List.find?_cons]
      by_cases hk : key a = k'
      · have hne : k' ≠ k := fun hkk => ha (hk.trans hkk)
        simp [hk, hne]
      · simp [hk]

/-- **Deleting unbinds the key** and leaves the others. -/
theorem find_sppHashGet_true (h : Callbacks key equ new keyOf) (hd : Distinct key ht) (v : ν)
    (k : κ) :
    find key hashOf (sppHashGet equ ht (hashOf (keyOf v)) v true).2 k =
      if k = keyOf v then none else find key hashOf ht k := by
  rw [find, get_sppHashGet_true hashOf h]
  split
  · exact find?_eraseP (hd _)
  · rename_i hb
    have hk : k ≠ keyOf v := fun hk => hb (by rw [hk])
    rw [if_neg hk]
    rfl

theorem distinct_sppHashGet_true (h : Callbacks key equ new keyOf) (hd : Distinct key ht) (v : ν) :
    Distinct key (sppHashGet equ ht (hashOf (keyOf v)) v true).2 := by
  intro b
  rw [get_sppHashGet_true hashOf h]
  split
  · exact (hd b).sublist (List.Sublist.map key (List.eraseP_sublist))
  · exact hd b

omit [DecidableEq κ] [NeZero size] in
theorem get_sppHashVisit (keep : α → Bool) (ht : SppHashTable α size) (b : Fin size) :
    (sppHashVisit keep ht).head.get b = (ht.head.get b).filter keep := by
  show (ht.head.map fun chain => chain.filter keep)[b] = ht.head[b].filter keep
  simp

theorem find?_filter_of_nodup {l : List α} (hl : (l.map key).Nodup) (keep : α → Bool) :
    (l.filter keep).find? (fun a => decide (key a = k)) =
      (l.find? fun a => decide (key a = k)).filter keep := by
  induction l with
  | nil => rfl
  | cons a l ih =>
    rw [List.map_cons, List.nodup_cons] at hl
    have ih := ih hl.2
    by_cases hk : key a = k
    · have hrest : l.find? (fun c => decide (key c = k)) = none := by
        rw [List.find?_eq_none]
        intro c hc
        rw [decide_eq_true_eq, ← hk]
        exact fun hkey => hl.1 (List.mem_map.mpr ⟨c, hc, hkey⟩)
      rw [hrest] at ih
      by_cases hkeep : keep a
      · simp [hkeep, hk, Option.filter]
      · simp [hkeep, hk, ih, Option.filter]
    · by_cases hkeep : keep a
      · simp [hkeep, hk, ih]
      · simp [hkeep, hk, ih]

/-- **A visit that unlinks nodes** restricts the map to the others. -/
theorem find_sppHashVisit (keep : α → Bool) (hd : Distinct key ht) :
    find key hashOf (sppHashVisit keep ht) k = (find key hashOf ht k).filter keep := by
  rw [find, get_sppHashVisit, find?_filter_of_nodup (hd _)]
  rfl

omit [DecidableEq κ] [NeZero size] in
theorem distinct_sppHashVisit (keep : α → Bool) (hd : Distinct key ht) :
    Distinct key (sppHashVisit keep ht) := by
  intro b
  rw [get_sppHashVisit]
  exact (hd b).sublist (List.Sublist.map key List.filter_sublist)

end Lemmas

/-! ## Where the nodes are

Every node is in the chain of its key, so that a key is not only in no chain twice but in no two. -/

/-- Every node is in the chain its key is hashed to. -/
def Placed (ht : SppHashTable α size) : Prop :=
  ∀ b, ∀ a ∈ ht.head.get b, bucket (hashOf (key a)) = b

section Placed

variable {key} {ht : SppHashTable α size} {node : α} {k : κ}

omit [DecidableEq κ] in
theorem placed_new : Placed key hashOf (sppHashTableNew α size) := by
  intro b a ha
  have hnil : (sppHashTableNew α size).head.get b = [] := by
    show (Vector.replicate size ([] : List α))[b] = []
    simp
  rw [hnil] at ha
  cases ha

omit [DecidableEq κ] in
theorem placed_push (h : Placed key hashOf ht) (hnode : key node = k) :
    Placed key hashOf (push ht (hashOf k) node) := by
  intro b a ha
  rw [push, get_set] at ha
  split at ha
  · rename_i hb
    rcases List.mem_cons.mp ha with rfl | ha
    · rw [hnode, hb]
    · exact hb ▸ h _ a ha
  · exact h b a ha

omit [DecidableEq κ] in
theorem placed_sppHashVisit (keep : α → Bool) (h : Placed key hashOf ht) :
    Placed key hashOf (sppHashVisit keep ht) := by
  intro b a ha
  rw [get_sppHashVisit] at ha
  exact h b a (List.mem_of_mem_filter ha)

theorem placed_sppHashGet_true {equ : α → ν → Bool} {new : ν → Option α} {keyOf : ν → κ}
    (h : Callbacks key equ new keyOf) (hp : Placed key hashOf ht) (v : ν) :
    Placed key hashOf (sppHashGet equ ht (hashOf (keyOf v)) v true).2 := by
  intro b a ha
  rw [get_sppHashGet_true hashOf h] at ha
  split at ha
  · exact hp b a (List.eraseP_subset ha)
  · exact hp b a ha

/-- Every node can be found by its key, and there are no other keys. -/
theorem find_isSome_iff (hp : Placed key hashOf ht) :
    (find key hashOf ht k).isSome ↔ k ∈ ht.nodes.map key := by
  rw [find, List.find?_isSome]
  constructor
  · rintro ⟨a, ha, hk⟩
    refine List.mem_map.mpr ⟨a, ?_, of_decide_eq_true hk⟩
    exact List.mem_flatten.mpr ⟨_, Vector.mem_toList_iff.mpr (Vector.getElem_mem _), ha⟩
  · intro hk
    obtain ⟨a, ha, rfl⟩ := List.mem_map.mp hk
    obtain ⟨chain, hchain, ha⟩ := List.mem_flatten.mp ha
    obtain ⟨i, hi, rfl⟩ := List.mem_iff_getElem.mp hchain
    have hlt : i < size := by simpa using hi
    refine ⟨a, ?_, decide_eq_true rfl⟩
    rw [hp ⟨i, hlt⟩ a ha]
    exact ha

omit [DecidableEq κ] in
/-- **No key is in the table twice.** -/
theorem nodup_nodes (hd : Distinct key ht) (hp : Placed key hashOf ht) :
    (ht.nodes.map key).Nodup := by
  have hchain (i : ℕ) (hi : i < ht.head.toList.length) :
      ht.head.toList[i] = ht.head.get ⟨i, by simpa using hi⟩ := rfl
  rw [SppHashTable.nodes, List.map_flatten, List.nodup_flatten]
  constructor
  · intro l hl
    obtain ⟨chain, hmem, rfl⟩ := List.mem_map.mp hl
    obtain ⟨i, hi, rfl⟩ := List.mem_iff_getElem.mp hmem
    rw [hchain]
    exact hd _
  · rw [List.pairwise_map, List.pairwise_iff_getElem]
    intro i j hi hj hij c hc hc'
    obtain ⟨a, ha, rfl⟩ := List.mem_map.mp hc
    obtain ⟨a', ha', hkey⟩ := List.mem_map.mp hc'
    rw [hchain] at ha ha'
    have hb := hp _ a ha
    have hb' := hp _ a' ha'
    rw [hkey, hb] at hb'
    exact absurd (Fin.mk.inj hb') (by omega)

end Placed

/-! ## Changing the nodes

A function that leaves the keys alone can be applied to all nodes of a table, before an operation or
after it. -/

/-- `f` applied to every node. -/
def SppHashTable.map {β : Type} (f : α → β) (ht : SppHashTable α size) : SppHashTable β size :=
  ⟨ht.entries, ht.head.map fun chain => chain.map f⟩

section Map

variable {key} {ht : SppHashTable α size} {f : α → α} {k : κ}

omit [NeZero size] in
theorem get_map (f : α → α) (ht : SppHashTable α size) (b : Fin size) :
    (ht.map f).head.get b = (ht.head.get b).map f := by
  show (ht.head.map fun chain => chain.map f)[b] = ht.head[b].map f
  simp

theorem find_map (hf : ∀ a, key (f a) = key a) :
    find key hashOf (ht.map f) k = (find key hashOf ht k).map f := by
  have hcomp : (fun a => decide (key a = k)) ∘ f = fun a => decide (key a = k) := by
    funext a
    rw [Function.comp_apply, hf]
  rw [find, get_map, List.find?_map, hcomp]
  rfl

theorem push_map (hash : UInt32) (node : α) :
    push (ht.map f) hash (f node) = (push ht hash node).map f := by
  rw [push, push, get_map, SppHashTable.map, SppHashTable.map, Vector.map_set]
  rfl

omit [NeZero size] in
theorem sppHashVisit_map (keep : α → Bool) :
    sppHashVisit keep (ht.map f) = (sppHashVisit (keep ∘ f) ht).map f := by
  rw [sppHashVisit, sppHashVisit, SppHashTable.map, SppHashTable.map]
  simp only [SppHashTable.mk.injEq, true_and, Vector.map_map]
  congr 1
  funext chain
  exact List.filter_map

omit [NeZero size] in
theorem nodes_map (f : α → α) (ht : SppHashTable α size) : (ht.map f).nodes = ht.nodes.map f := by
  rw [SppHashTable.nodes, SppHashTable.nodes, SppHashTable.map, Vector.toList_map,
    List.map_flatten]

omit [NeZero size] in
/-- A visit depends on what is done to the nodes of the table. -/
theorem sppHashVisit_congr {keep keep' : α → Bool} (h : ∀ a ∈ ht.nodes, keep a = keep' a) :
    sppHashVisit keep ht = sppHashVisit keep' ht := by
  rw [sppHashVisit, sppHashVisit]
  simp only [SppHashTable.mk.injEq, true_and]
  refine Vector.map_congr_left fun chain hchain => ?_
  refine List.filter_congr fun a ha => h a ?_
  exact List.mem_flatten.mpr ⟨chain, Vector.mem_toList_iff.mpr hchain, ha⟩

end Map

end Spp

end Tqos
