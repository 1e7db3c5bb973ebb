import Mathlib.Data.List.Nodup
import Tqos.Tserver.RbDelete
import Tqos.Tserver.RbInsert

/-!
# The tree of the timers

The timers are in a red-black tree by their deadlines, which are compared by the sign of their
difference, so that the order makes sense as long as all of them are in a window shorter than half
of the range. The window may move: a deadline that is compared today may be on the other side of the
wrap tomorrow.

What the operations are given is a node that is not in the tree, or one that is. The memory has the
cells of the sentinel and of the nodes in the tree; a node comes with its cell and goes with it, so
that an operation that touched any other node would be stuck.

## Main results

* `timerLess_iff` — the comparison in a window
* `good_insert`, `good_delete` — what each operation keeps
* `timerTree_of_allowed` — the tree after any operations
-/

namespace Tqos

open Heap RedBlack RedBlack.ColorTree

/-! ## The order -/

/-- `(rbtree_key_int_t)(key' - key) >= 0`. -/
def KeyLe (key key' : UInt32) : Prop := 0 ≤ (key' - key).toInt32

/-- All keys are in one window shorter than half of the range. -/
def InWindow (w : UInt32) (key : UInt32) : Prop := (key - w).toNat < 2 ^ 31

instance (w key : UInt32) : Decidable (InWindow w key) := inferInstanceAs (Decidable (_ < _))

section Keys

variable {w key key' : UInt32}

theorem toInt32_neg_iff (d : UInt32) : d.toInt32 < 0 ↔ 2 ^ 31 ≤ d.toNat := by
  have htoInt : d.toInt32.toInt =
      if 2 * d.toNat < 2 ^ 32 then (d.toNat : ℤ) else d.toNat - 2 ^ 32 :=
    BitVec.toInt_eq_toNat_cond d.toBitVec
  rw [Int32.lt_iff_toInt_lt, htoInt]
  show _ < (0 : ℤ) ↔ _
  have := d.toNat_lt
  split
  · omega
  · omega

/-- **The comparison in a window.** -/
theorem timerLess_iff (h : InWindow w key) (h' : InWindow w key') :
    timerLess key key' = true ↔ (key - w).toNat < (key' - w).toNat := by
  rw [timerLess, decide_eq_true_iff, toInt32_neg_iff]
  rw [InWindow, UInt32.toNat_sub] at h h'
  rw [UInt32.toNat_sub, UInt32.toNat_sub, UInt32.toNat_sub]
  have := key.toNat_lt
  have := key'.toNat_lt
  have := w.toNat_lt
  omega

theorem keyLe_iff_not : KeyLe key key' ↔ ¬ timerLess key' key = true := by
  rw [KeyLe, timerLess, decide_eq_true_iff, Int32.not_lt]

theorem keyLe_iff (h : InWindow w key) (h' : InWindow w key') :
    KeyLe key key' ↔ (key - w).toNat ≤ (key' - w).toNat := by
  rw [keyLe_iff_not, timerLess_iff h' h, not_lt]

end Keys

/-! ## Operations -/

variable {ι : Type}

/-- The operations of the caller. -/
inductive TimerOp (ι : Type)
  /-- `rbtree_insert` of a node, with what the caller has left in it. -/
  | insert (a : ι) (n : RbtreeNode ι)
  /-- `rbtree_delete`. -/
  | delete (a : ι)

section Ops

variable [DecidableEq ι]

/-- An operation. The cell of a new node comes from the caller. -/
def TimerOp.run (fuel : ℕ) : TimerOp ι → RbProg ι Unit
  | .insert a n => do
    acquire a n
    rbtreeInsert fuel (some a)
  | .delete a => do
    let _ ← rbtreeDelete fuel (some a)
    pure ()

/-- Operations in turn. -/
def runOps (fuel : ℕ) : List (TimerOp ι) → RbProg ι Unit
  | [] => pure ()
  | op :: ops => do
    op.run fuel
    runOps fuel ops

/-- `timer_init` and the operations after it. -/
def timerRun (s : ι) (fuel : ℕ) (ops : List (TimerOp ι)) : RbProg ι Unit := do
  rbtreeInit (some s) .rbtreeInsertTimerValue
  runOps fuel ops

/-- The nodes that are inserted and not deleted, with their keys. -/
def TimerOp.linked (l : List (ι × UInt32)) : TimerOp ι → List (ι × UInt32)
  | .insert a n => (a, n.key) :: l
  | .delete a => l.filter fun e => e.1 ≠ a

/-- The caller inserts nodes that are not in the tree, with keys in a window with those in the tree,
and deletes nodes that are in it. -/
def TimerOp.Allowed (s : ι) (l : List (ι × UInt32)) : TimerOp ι → Prop
  | .insert a n => a ≠ s ∧ a ∉ l.map Prod.fst ∧ ∃ w, ∀ e ∈ (a, n.key) :: l, InWindow w e.2
  | .delete a => a ∈ l.map Prod.fst

/-- Every operation is allowed in its turn. -/
def AllAllowed (s : ι) : List (ι × UInt32) → List (TimerOp ι) → Prop
  | _, [] => True
  | l, op :: ops => op.Allowed s l ∧ AllAllowed s (op.linked l) ops

/-- The memory before `timer_init`: the sentinel has its cell. -/
def sentinelOnly (s : ι) (v : Rbtree ι) (n : RbtreeNode ι) : Mem (Rbtree ι) ι (RbtreeNode ι) :=
  ⟨v, Function.update (fun _ => none) s (some n)⟩

end Ops

/-! ## What the tree is -/

/-- The tree that hangs below a pointer, along `left` and `right`. -/
inductive Below (m : Mem (Rbtree ι) ι (RbtreeNode ι)) (s : ι) :
    Option ι → ColorTree (ι × UInt32) → Prop
  | sentinel : Below m s (some s) nil
  | node (a : ι) (n : RbtreeNode ι) (c : Color) (l r : ColorTree (ι × UInt32)) (ha : a ≠ s)
      (hn : m.cells a = some n) (hc : n.color = colorByte c) (hl : Below m s n.left l)
      (hr : Below m s n.right r) : Below m s (some a) (node c l (a, n.key) r)

/-- **The tree of the timers.** -/
structure TimerTree (s : ι) (l : List (ι × UInt32)) (m : Mem (Rbtree ι) ι (RbtreeNode ι))
    (t : ColorTree (ι × UInt32)) : Prop where
  /-- It hangs from the root. -/
  below : Below m s m.vars.root t
  /-- It has the nodes that are inserted and not deleted, each once. -/
  perm : t.toList.Perm l
  nodup : (t.toList.map Prod.fst).Nodup
  /-- It is in the order of the signed differences. -/
  ordered : t.toList.Pairwise fun a b => KeyLe a.2 b.2
  /-- It is a red-black tree. -/
  root_black : t.color = .black
  sentinel_black : ∃ n, m.cells s = some n ∧ n.color = 0
  noRedRed : t.NoRedRed
  paths : ∃ n, ∀ p ∈ t.paths, p = n
  /-- Every child has its parent. -/
  parents : ∀ a n b n', a ≠ s → m.cells a = some n → b ≠ s → m.cells b = some n' →
    n.left = some b ∨ n.right = some b → n'.parent = some a
  /-- There is nothing else that a pointer could be followed to. -/
  cells : ∀ a, (∃ n, m.cells a = some n) ↔ a = s ∨ a ∈ l.map Prod.fst

section Reading

variable {s : ι} {i : RbtreeInsertPt} {sn : RbtreeNode ι} {parent : Option ι}
  {t : ColorTree (ι × UInt32)} {l : List (ι × UInt32)} {m : Mem (Rbtree ι) ι (RbtreeNode ι)}

/-- The cells of a tree make it hang from its address. -/
theorem below_of_cells
    (h : ∀ e ∈ treeCells s parent t, e.1 ≠ s ∧ m.cells e.1 = some e.2) :
    Below m s (some (addr s t)) t := by
  induction t generalizing parent with
  | nil => exact .sentinel
  | node c l x r ihl ihr =>
    rw [treeCells] at h
    obtain ⟨hx, hcell⟩ := h _ (Multiset.mem_add.mpr (Or.inl (Multiset.mem_singleton_self _)))
    have hl := ihl fun e he =>
      h e (Multiset.mem_add.mpr (Or.inr (Multiset.mem_add.mpr (Or.inl he))))
    have hr := ihr fun e he =>
      h e (Multiset.mem_add.mpr (Or.inr (Multiset.mem_add.mpr (Or.inr he))))
    exact .node x.1 _ c l r hx hcell (color_nodeOf ..) hl hr

/-- The addresses of the nodes, which are all different and none that of the sentinel. -/
theorem Holds.nodup (h : Holds s i sn parent t m) :
    s ∉ t.toList.map Prod.fst ∧ (t.toList.map Prod.fst).Nodup := by
  have hnodup := h.has.owns.nodup
  rw [Multiset.map_add, Multiset.map_singleton, Multiset.singleton_add, map_fst_treeCells] at hnodup
  exact List.nodup_cons.mp (Multiset.coe_nodup.mp hnodup)

/-- **What the cells say.** -/
theorem timerTree_of_holds (h : Holds s i sn parent t m) (hbal : t.Balanced)
    (hperm : t.toList.Perm l) (hordered : t.toList.Pairwise fun a b => KeyLe a.2 b.2) :
    TimerTree s l m t := by
  have hcells (a : ι) (n : RbtreeNode ι) := h.has.owns.cells_eq a n
  have htree {a : ι} {n : RbtreeNode ι} (ha : a ≠ s) (hn : m.cells a = some n) :
      (a, n) ∈ treeCells s parent t := by
    refine (Multiset.mem_add.mp ((hcells a n).mp hn)).resolve_left fun hs => ha ?_
    exact (Prod.mk.inj (Multiset.mem_singleton.mp hs)).1
  obtain ⟨n, hn⟩ := hbal.2
  refine ⟨?_, hperm, h.nodup.2, hordered, hbal.1, ⟨sn, (hcells s sn).mpr (by simp), h.black⟩,
    (rb_iff.mp hn).1, ⟨n, (rb_iff.mp hn).2⟩, ?_, ?_⟩
  · rw [h.has.vars_eq]
    refine below_of_cells fun e he => ⟨?_, (hcells e.1 e.2).mpr (Multiset.mem_add.mpr (Or.inr he))⟩
    exact (h.has.owns.ne_of_mem (Multiset.mem_singleton_self _) he).symm
  · intro a n b n' ha hn hb hn' hchild
    obtain ⟨n'', hmem, hparent⟩ := exists_mem_child (htree ha hn) hchild hb
    have heq := hn'.symm.trans ((hcells b n'').mpr (Multiset.mem_add.mpr (Or.inr hmem)))
    rw [Option.some.inj heq]
    exact hparent
  · intro a
    have hmap : a ∈ ({(s, sn)} + treeCells s parent t).map Prod.fst ↔
        a = s ∨ a ∈ l.map Prod.fst := by
      rw [Multiset.map_add, map_fst_treeCells, Multiset.map_singleton, Multiset.mem_add,
        Multiset.mem_singleton, Multiset.mem_coe, (hperm.map Prod.fst).mem_iff]
    rw [← hmap, Multiset.mem_map]
    constructor
    · rintro ⟨n, hn⟩
      exact ⟨(a, n), (hcells a n).mp hn, rfl⟩
    · rintro ⟨⟨b, n⟩, hmem, rfl⟩
      exact ⟨n, (hcells b n).mpr hmem⟩

end Reading

/-! ## What the operations keep -/

variable [DecidableEq ι]

/-- There is a balanced tree in order, with these nodes. -/
def Good (s : ι) (l : List (ι × UInt32)) (m : Mem (Rbtree ι) ι (RbtreeNode ι)) : Prop :=
  ∃ sn parent t, Holds s .rbtreeInsertTimerValue sn parent t m ∧ t.Balanced ∧ t.toList.Perm l ∧
    t.toList.Pairwise fun a b => KeyLe a.2 b.2

section Keeps

variable {s a : ι} {n : RbtreeNode ι} {l : List (ι × UInt32)} {fuel : ℕ}
  {m : Mem (Rbtree ι) ι (RbtreeNode ι)}

/-- **Where a new node goes**: behind what does not come later, and in front of what does. -/
theorem wp_insert {sn : RbtreeNode ι} {parent : Option ι} {t : ColorTree (ι × UInt32)} {w : UInt32}
    (h : Holds s .rbtreeInsertTimerValue sn parent t m) (hbal : t.Balanced)
    (hordered : t.toList.Pairwise fun a b => KeyLe a.2 b.2) (has : a ≠ s)
    (hfresh : a ∉ t.toList.map Prod.fst) (hw : ∀ e ∈ (a, n.key) :: t.toList, InWindow w e.2)
    (hfuel : t.toList.length < fuel) :
    Wp ((TimerOp.insert a n).run fuel) (fun _ m' => ∃ parent' u l₁ l₂,
      Holds s .rbtreeInsertTimerValue sn parent' u m' ∧ u.Balanced ∧
      t.toList = l₁ ++ l₂ ∧ u.toList = l₁ ++ (a, n.key) :: l₂ ∧
      (∀ e ∈ l₁, (e.2 - w).toNat ≤ (n.key - w).toNat) ∧
      ∀ e ∈ l₂, (n.key - w).toNat < (e.2 - w).toNat) m := by
  have hfree (n' : RbtreeNode ι) : (a, n') ∉ {(s, sn)} + treeCells s parent t := by
    intro hmem
    have haddr := Multiset.mem_map_of_mem Prod.fst hmem
    rw [Multiset.map_add, map_fst_treeCells, Multiset.map_singleton, Multiset.mem_add,
      Multiset.mem_singleton, Multiset.mem_coe] at haddr
    exact haddr.elim has hfresh
  refine wp_bind (h.has.wp_acquire hfree fun m₁ h₁ => ?_)
  refine wp_mono (wp_rbtreeInsert h₁ h.black hbal hfuel) ?_
  rintro - m₂ ⟨k, parent', u, rfl, hturns, h₂, hu, hlist⟩
  -- the keys are in a window, and the comparisons are those of their distances from its start
  have hkeys {e : ι × UInt32} (he : e ∈ (plug k nil).toList) : InWindow w e.2 :=
    hw e (List.mem_cons_of_mem _ he)
  have hkey : InWindow w n.key := hw _ List.mem_cons_self
  have hrank : (plug k nil).toList.Pairwise fun e f => (e.2 - w).toNat ≤ (f.2 - w).toNat :=
    hordered.imp_of_mem fun he hf hle => (keyLe_iff (hkeys he) (hkeys hf)).mp hle
  have hfollows : Follows (fun e : ι × UInt32 => (e.2 - w).toNat) (a, n.key) k := by
    intro f hf
    have hmem : f.val ∈ (plug k nil).toList := by
      rw [toList_plug]
      exact val_mem_of_mem hf
    rw [hturns f hf]
    exact if_congr (timerLess_iff hkey (hkeys hmem)) rfl rfl
  obtain ⟨hbefore, hafter⟩ := between_of_follows hrank hfollows
  exact ⟨parent', u, before k, after k, h₂, hu, toList_plug k nil, hlist, hbefore, hafter⟩

theorem good_insert (h : Good s l m) (hallowed : (TimerOp.insert a n).Allowed s l)
    (hfuel : l.length < fuel) :
    Wp ((TimerOp.insert a n).run fuel) (fun _ => Good s ((a, n.key) :: l)) m := by
  obtain ⟨sn, parent, t, hholds, hbal, hperm, hordered⟩ := h
  obtain ⟨has, hal, w, hw⟩ := hallowed
  have hw' : ∀ e ∈ (a, n.key) :: t.toList, InWindow w e.2 := fun e he =>
    hw e ((hperm.cons _).subset he)
  have hlen : t.toList.length < fuel := by rwa [hperm.length_eq]
  rw [← (hperm.map Prod.fst).mem_iff] at hal
  refine wp_mono (wp_insert hholds hbal hordered has hal hw' hlen) ?_
  rintro - m' ⟨parent', u, l₁, l₂, h', hu, hsplit, hlist, hbefore, hafter⟩
  rw [hsplit] at hperm hordered hw'
  have hperm' : u.toList.Perm ((a, n.key) :: l) := by
    rw [hlist]
    exact List.perm_middle.trans (hperm.cons _)
  refine ⟨sn, parent', u, h', hu, hperm', ?_⟩
  have hkey : InWindow w n.key := hw' _ List.mem_cons_self
  have hwin {e : ι × UInt32} (he : e ∈ l₁ ++ l₂) : InWindow w e.2 :=
    hw' e (List.mem_cons_of_mem _ he)
  obtain ⟨h₁, h₂, h₁₂⟩ := List.pairwise_append.mp hordered
  rw [hlist]
  refine List.pairwise_append.mpr ⟨h₁, List.pairwise_cons.mpr ⟨fun e he => ?_, h₂⟩, ?_⟩
  · exact (keyLe_iff hkey (hwin (List.mem_append_right _ he))).mpr (hafter e he).le
  · intro e he f hf
    rcases List.mem_cons.mp hf with rfl | hf
    · exact (keyLe_iff (hwin (List.mem_append_left _ he)) hkey).mpr (hbefore e he)
    · exact h₁₂ e he f hf

theorem good_delete (h : Good s l m) (hallowed : (TimerOp.delete a).Allowed s l)
    (hfuel : l.length < fuel) :
    Wp ((TimerOp.delete a : TimerOp ι).run fuel)
      (fun _ => Good s ((TimerOp.delete a).linked l)) m := by
  obtain ⟨sn, parent, t, hholds, hbal, hperm, hordered⟩ := h
  obtain ⟨⟨b, key⟩, hmem, rfl⟩ := List.mem_map.mp hallowed
  obtain ⟨k, c, u, v, rfl⟩ := exists_plug_of_mem (hperm.mem_iff.mpr hmem)
  have hlen : (plug k (node c u (b, key) v)).toList.length < fuel := by rwa [hperm.length_eq]
  refine wp_bind (wp_mono (wp_rbtreeDelete hholds hbal hlen) ?_)
  rintro - m' ⟨sn', parent', t', h', hbal', hlist⟩
  have hnodup := hholds.nodup.2
  obtain ⟨A, B, hA, hB⟩ : ∃ A B, (plug k (node c u (b, key) v)).toList = A ++ (b, key) :: B ∧
      t'.toList = A ++ B := by
    refine ⟨before k ++ u.toList, v.toList ++ after k, ?_, ?_⟩
    · simp only [toList_plug, toList, List.append_assoc, List.cons_append]
    · simp only [hlist, List.append_assoc]
  rw [hA] at hnodup hperm hordered
  refine wp_pure ⟨sn', parent', t', h', hbal', ?_, ?_⟩
  · rw [List.map_append, List.map_cons, List.nodup_middle, ← List.map_append] at hnodup
    have hothers : (A ++ B).filter (fun e => e.1 ≠ b) = A ++ B := by
      refine List.filter_eq_self.mpr fun e he => decide_eq_true ?_
      rintro rfl
      exact (List.nodup_cons.mp hnodup).1 (List.mem_map.mpr ⟨e, he, rfl⟩)
    have hfilter := (List.perm_middle.symm.trans hperm).filter fun e => e.1 ≠ b
    rw [List.filter_cons_of_neg (by simp), hothers, ← hB] at hfilter
    exact hfilter
  · rw [hB]
    exact hordered.sublist (List.Sublist.append_left (List.sublist_cons_self _ _) A)

/-- An operation keeps the tree. -/
theorem good_run {op : TimerOp ι} (h : Good s l m) (hallowed : op.Allowed s l)
    (hfuel : l.length < fuel) : Wp (op.run fuel) (fun _ => Good s (op.linked l)) m := by
  cases op with
  | insert a n => exact good_insert h hallowed hfuel
  | delete a => exact good_delete h hallowed hfuel

/-- An operation adds at most one node. -/
theorem length_linked_le (op : TimerOp ι) (l : List (ι × UInt32)) :
    (op.linked l).length ≤ l.length + 1 := by
  cases op with
  | insert a n => exact le_rfl
  | delete a => exact (List.length_filter_le _ _).trans (Nat.le_succ _)

/-- Operations in turn keep the tree. -/
theorem good_runOps {ops : List (TimerOp ι)} (h : Good s l m) (hallowed : AllAllowed s l ops)
    (hfuel : l.length + ops.length ≤ fuel) :
    Wp (runOps fuel ops) (fun _ => Good s (ops.foldl TimerOp.linked l)) m := by
  induction ops generalizing l m with
  | nil => exact wp_pure h
  | cons op ops ih =>
    rw [List.length_cons] at hfuel
    refine wp_bind_of (good_run h hallowed.1 (by omega)) ?_
    intro _ m' h'
    have hlen := length_linked_le op l
    exact ih h' hallowed.2 (by omega)

/-- `rbtree_init` makes the empty tree. -/
theorem good_init (s : ι) (v : Rbtree ι) (n : RbtreeNode ι) :
    Wp (rbtreeInit (some s) .rbtreeInsertTimerValue) (fun _ => Good s []) (sentinelOnly s v n) := by
  have hhas : (sentinelOnly s v n).Has v ({(s, n)} + 0) := ⟨rfl, owns_zero.insert rfl n⟩
  refine wp_bind (hhas.wp_modify rfl fun m₁ h₁ => h₁.wp_modifyVars fun m₂ h₂ => ?_)
  exact ⟨n.setColor 0, none, nil, ⟨h₂, rfl⟩, ⟨rfl, 0, rfl⟩, List.Perm.refl _, List.Pairwise.nil⟩

end Keeps

/-- **The tree after any operations.** From `rbtree_init` on, the operations that a caller may make
all come to an end, with fuel for as many turns of a loop as there are operations, and never follow
NULL or a pointer to a node that is not in the tree; and what they leave is a red-black tree, in
order, of the nodes that were inserted and not deleted. -/
theorem timerTree_of_allowed (s : ι) (v : Rbtree ι) (n : RbtreeNode ι) (ops : List (TimerOp ι))
    (fuel : ℕ) (hallowed : AllAllowed s [] ops) (hfuel : ops.length ≤ fuel) :
    ∃ m t, timerRun s fuel ops (sentinelOnly s v n) = some ((), m) ∧
      TimerTree s (ops.foldl TimerOp.linked []) m t := by
  have hrun : Wp (timerRun s fuel ops) (fun _ => Good s (ops.foldl TimerOp.linked []))
      (sentinelOnly s v n) := by
    refine wp_bind_of (good_init s v n) fun _ m' h' => good_runOps h' hallowed ?_
    rw [List.length_nil, Nat.zero_add]
    exact hfuel
  obtain ⟨⟨⟩, m, hm, sn, parent, t, hholds, hbal, hperm, hordered⟩ := hrun
  exact ⟨m, t, hm, timerTree_of_holds hholds hbal hperm hordered⟩

/-- Three timers around the wrap of the clock, and the first of them goes. -/
def aroundTheWrap : List (TimerOp ℕ) :=
  let node (key : UInt32) : RbtreeNode ℕ := ⟨key, none, none, none, 0⟩
  [.insert 1 (node 0xFFFFFFFE), .insert 2 (node 3), .insert 3 (node 0xFFFFFFFF), .delete 1]

theorem timerTree_aroundTheWrap : ∃ m t,
    timerRun 0 4 aroundTheWrap
        (sentinelOnly 0 ⟨none, none, .rbtreeInsertValue⟩ ⟨0, none, none, none, 0⟩) = some ((), m) ∧
      TimerTree 0 [(3, 0xFFFFFFFF), (2, 3)] m t := by
  have hallowed : AllAllowed 0 [] aroundTheWrap := by
    refine ⟨⟨by decide, by decide, 0xFFFFFFFE, by decide⟩,
      ⟨by decide, by decide, 0xFFFFFFFE, by decide⟩,
      ⟨by decide, by decide, 0xFFFFFFFE, by decide⟩, ?_, trivial⟩
    show 1 ∈ ([3, 2, 1] : List ℕ)
    decide
  exact timerTree_of_allowed 0 _ _ aroundTheWrap 4 hallowed (by decide)

end Tqos
