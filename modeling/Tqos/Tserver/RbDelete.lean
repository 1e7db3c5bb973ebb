import Tqos.Tserver.RbRepair

/-!
# Deletion

`rbtree_delete` takes out a node with at most one subtree: the node itself, or else the next one in
order, which then goes to the place of the node with all its pointers. What is left may be short of
a black node, and is repaired.

## Main results

* `wp_deleteChoose` — which node leaves its place
* `wp_rbtreeDelete` — `rbtree_delete` takes out a node, and the tree is balanced again
-/

namespace Tqos

open Heap RedBlack RedBlack.ColorTree

variable {ι : Type} [DecidableEq ι]

section Delete

variable {s : ι} {i : RbtreeInsertPt} {sn : RbtreeNode ι} {parent : Option ι} {side : Side}
  {c d : Color} {t l r u : ColorTree (ι × UInt32)} {x y : ι × UInt32} {f : Frame (ι × UInt32)}
  {k : List (Frame (ι × UInt32))} {m : Mem (Rbtree ι) ι (RbtreeNode ι)} {fuel : ℕ}

/-! ## The node that leaves its place -/

/-- **`rbtree_min`** finds the first node. -/
theorem wp_rbtreeMin (h : Holds s i sn parent (plug k t) m) (ht : t ≠ nil)
    (hfuel : t.toList.length ≤ fuel) :
    Wp (rbtreeMin (some s) fuel (some (addr s t))) (fun p m' => m' = m ∧ ∃ k' c y u,
      p = some y.1 ∧ t = plug k' (node c nil y u) ∧ before k' = []) m := by
  induction fuel generalizing k t with
  | zero => exact absurd hfuel (Nat.not_le.mpr (length_toList_pos ht))
  | succ fuel ih =>
    cases t with
    | nil => exact absurd rfl ht
    | node c l x r =>
      have hj : Holds s i sn parent (plug k (join .left c l x r)) m := h
      have hl : Holds s i sn parent (plug (⟨.left, c, x, r⟩ :: k) l) m := h
      refine wp_bind (hj.wp_child ?_)
      by_cases hnil : l = nil
      · subst hnil
        exact wp_ite_neg (not_not_intro rfl) (wp_pure ⟨rfl, [], c, x, r, rfl, rfl, rfl⟩)
      · refine wp_ite_pos (fun heq => hl.addr_ne_sentinel hnil (Option.some.inj heq)) ?_
        have hlen : l.toList.length ≤ fuel := by
          rw [toList, List.length_append, List.length_cons] at hfuel
          omega
        refine wp_mono (ih hl hnil hlen) ?_
        rintro p m' ⟨rfl, k', c', y, u, rfl, rfl, hbefore⟩
        refine ⟨rfl, k' ++ [⟨.left, c, x, r⟩], c', y, u, rfl, ?_, ?_⟩
        · rw [plug_append]
          rfl
        · rw [before_append, hbefore]
          rfl

/-- **Which node leaves its place**: the node itself if it has at most one subtree, and otherwise
the first one to its right. -/
theorem wp_deleteChoose (h : Holds s i sn parent (plug k (node c l x r)) m)
    (hfuel : r.toList.length ≤ fuel) :
    Wp (deleteChoose fuel (some s) (some x.1)) (fun p m' => m' = m ∧
      ((∃ side t, node c l x r = join side c nil x t ∧ p = (some x.1, some (addr s t))) ∨
        l ≠ nil ∧ ∃ k' d y u, r = plug k' (node d nil y u) ∧ before k' = [] ∧
          p = (some y.1, some (addr s u)))) m := by
  have hj : Holds s i sn parent (plug k (join .left c l x r)) m := h
  have hl : Holds s i sn parent (plug (⟨.left, c, x, r⟩ :: k) l) m := h
  have hr : Holds s i sn parent (plug (⟨.right, c, x, l⟩ :: k) r) m := h
  refine wp_bind (hj.wp_child ?_)
  by_cases hlnil : l = nil
  · subst hlnil
    refine wp_ite_pos rfl (wp_bind (hj.wp_child_other (wp_pure ⟨rfl, Or.inl ?_⟩)))
    exact ⟨.left, r, rfl, rfl⟩
  · refine wp_ite_neg (fun heq => hl.addr_ne_sentinel hlnil (Option.some.inj heq)) ?_
    refine wp_bind (hj.wp_child_other ?_)
    by_cases hrnil : r = nil
    · subst hrnil
      refine wp_ite_pos rfl (wp_bind (hj.wp_child (wp_pure ⟨rfl, Or.inl ?_⟩)))
      exact ⟨.right, l, rfl, rfl⟩
    · refine wp_ite_neg (fun heq => hr.addr_ne_sentinel hrnil (Option.some.inj heq)) ?_
      refine wp_bind_of (wp_rbtreeMin hr hrnil hfuel) ?_
      rintro p m' ⟨rfl, k', d, y, u, rfl, rfl, hbefore⟩
      rw [← plug_append] at hr
      have hy : Holds s i sn parent
          (plug (k' ++ ⟨.right, c, x, l⟩ :: k) (join .left d nil y u)) m' := by
        rw [plug_append]
        exact h
      refine wp_bind (hy.wp_child (wp_ite_neg (not_not_intro rfl) ?_))
      refine wp_bind (hy.wp_child_other (wp_pure ⟨rfl, Or.inr ⟨hlnil, ?_⟩⟩))
      exact ⟨k', d, y, u, rfl, hbefore, rfl⟩

/-! ## The pointers -/

/-- **A node with at most one subtree** leaves its place. -/
theorem wp_deleteSplice_self (h : Holds s i sn parent (plug (f :: k) (join side c nil x t)) m) :
    Wp (deleteSplice (some s) (some x.1) (some x.1) (some (addr s t))) (fun _ m' => ∃ sn' n,
      sn'.color = 0 ∧ (t = nil → sn'.parent = some f.val.1) ∧
      m'.Has ⟨some (addr s (plug (f :: k) t)), some s, i⟩
        ({(x.1, n)} + ({(s, sn')} + treeCells s parent (plug (f :: k) t)))) m := by
  have hx : x.1 ≠ s := by
    have hne := h.addr_ne_sentinel join_ne_nil
    rwa [addr_join] at hne
  have hh := h.has_plug
  rw [addr_join, treeCells_join, treeCells, zero_add] at hh
  obtain ⟨X, hX⟩ : ∃ X, X = nodeOf side c (addr s nil) (addr s t) x.2 (up parent (f :: k)) :=
    ⟨_, rfl⟩
  rw [← hX] at hh
  replace hh := hh.congr (F := pathCells s parent (f :: k) x.1 +
    ({(x.1, X)} + (treeCells s (some x.1) t + {(s, sn)}))) (by ac_rfl)
  have hparent : X.parent = some f.val.1 := by rw [hX, parent_nodeOf, up]
  refine wp_bind (wp_replaceBelow hh (n := X) (by simp) hparent hx fun m₁ h₁ => ?_)
  refine wp_bind (h₁.wp_field (n := X) (by simp) ?_)
  rw [hparent]
  refine wp_ite_pos rfl ?_
  replace h₁ := h₁.congr (F := treeCells s (some x.1) t + ({(s, sn)} +
    (pathCells s parent (f :: k) (addr s t) + {(x.1, X)}))) (by ac_rfl)
  refine wp_setParent_sentinel h₁ fun sn' m₂ hcolor hsn' h₂ => ?_
  refine ⟨sn', X, hcolor.trans h.black, hsn', ?_⟩
  rw [addr_plug, treeCells_plug]
  refine h₂.congr ?_
  show _ = {(x.1, X)} + ({(s, sn')} + (_ + treeCells s (some f.val.1) t))
  ac_rfl

/-- The parent that `temp` gets is right when the next node is in place. -/
theorem up_replace {k' : List (Frame (ι × UInt32))} {v : Rbtree ι} {hole : ι} {n : RbtreeNode ι}
    {F : Multiset (ι × RbtreeNode ι)}
    (h : m.Has v (pathCells s (some x.1) k' hole + ({(x.1, n)} + F))) :
    (if up (some x.1) k' = some x.1 then some y.1 else up (some x.1) k') = up (some y.1) k' := by
  cases k' with
  | nil => exact if_pos rfl
  | cons f k' =>
    have hne : f.val.1 ≠ x.1 := by
      refine h.owns.ne_of_mem
        (n := nodeOf f.side f.color hole (addr s f.sib) f.val.2 (up (some x.1) k')) ?_
        (Multiset.mem_add.mpr (Or.inl (Multiset.mem_singleton_self _)))
      rw [pathCells]
      exact Multiset.mem_add.mpr (Or.inl (Multiset.mem_singleton_self _))
    exact if_neg fun heq => hne (Option.some.inj heq)

/-- **A node goes to the place of another**, with its subtrees and its colour. -/
theorem wp_deleteMove {q : Option ι} {Y : RbtreeNode ι}
    (h : m.Has ⟨some (top x.1 k), some s, i⟩
      ({(x.1, nodeOf .right c (addr s r) (addr s l) x.2 (up parent k))} + ({(y.1, Y)} +
        (treeCells s (some x.1) l + (treeCells s q r + ({(s, sn)} + pathCells s parent k x.1))))))
    (hY : Y.key = y.2) (hx : x.1 ≠ s) :
    Wp (deleteMove (some s) (some x.1) (some y.1)) (fun _ m' =>
      m'.Has ⟨some (top y.1 k), some s, i⟩
        ({(x.1, nodeOf .right c (addr s r) (addr s l) x.2 (up parent k))} +
          ({(y.1, nodeOf .right c (addr s r) (addr s l) y.2 (up parent k))} +
            (treeCells s (some y.1) l + (treeCells s (some y.1) r +
              ({(s, sn)} + pathCells s parent k y.1)))))) m := by
  obtain ⟨X, hX⟩ : ∃ X, X = nodeOf .right c (addr s r) (addr s l) x.2 (up parent k) := ⟨_, rfl⟩
  obtain ⟨Y', hY'⟩ : ∃ Y', Y' = nodeOf .right c (addr s r) (addr s l) y.2 (up parent k) := ⟨_, rfl⟩
  have hcopy : (((Y.setChild .left X.left).setChild .right X.right).setParent X.parent).setColor
      X.color = Y' := by
    rw [hX, hY', ← hY]
    rfl
  have hleft : Y'.left = some (addr s l) := by
    rw [hY']
    rfl
  have hright : Y'.right = some (addr s r) := by
    rw [hY']
    rfl
  rw [← hX] at h
  generalize hL : treeCells s (some x.1) l = L at h
  generalize hR : treeCells s q r = R at h
  rw [← hX, ← hY']
  -- the four fields
  refine wp_bind (h.wp_field (n := X) (by simp) (wp_bind (h.wp_modify (n := Y) (F := {(x.1, X)} +
    (L + (R + ({(s, sn)} + pathCells s parent k x.1)))) (by ac_rfl) fun m₁ h₁ => ?_)))
  refine wp_bind (h₁.wp_field (n := X) (by simp) (wp_bind (h₁.wp_modify rfl fun m₂ h₂ => ?_)))
  refine wp_bind (h₂.wp_field (n := X) (by simp) (wp_bind (h₂.wp_modify rfl fun m₃ h₃ => ?_)))
  refine wp_bind (h₃.wp_field (n := X) (by simp) (wp_bind (h₃.wp_modify rfl fun m₄ h₄ => ?_)))
  rw [hcopy] at h₄
  -- the pointers to the place
  have hXparent : X.parent = up parent k := by rw [hX, parent_nodeOf]
  replace h₄ := h₄.congr (F := pathCells s parent k x.1 +
    ({(y.1, Y')} + ({(x.1, X)} + (L + (R + {(s, sn)}))))) (by ac_rfl)
  refine wp_bind (wp_replace h₄ (n := X) (by simp) hXparent hx fun m₅ h₅ => ?_)
  refine wp_bind (h₅.wp_field (n := Y') (by simp) ?_)
  rw [hleft]
  replace h₅ := h₅.congr (F := L +
    ({(y.1, Y')} + ({(x.1, X)} + (pathCells s parent k y.1 + (R + {(s, sn)}))))) (by ac_rfl)
  rw [← hL] at h₅
  refine wp_bind (wp_reparent h₅ (by simp : (s, sn) ∈ _) fun m₆ h₆ => ?_)
  refine wp_bind (h₆.wp_field (n := Y') (by simp) ?_)
  rw [hright]
  replace h₆ := h₆.congr (F := R + ({(y.1, Y')} + ({(x.1, X)} + (pathCells s parent k y.1 +
    (treeCells s (some y.1) l + {(s, sn)}))))) (by ac_rfl)
  rw [← hR] at h₆
  refine wp_reparent h₆ (by simp : (s, sn) ∈ _) fun m₇ h₇ => h₇.congr ?_
  ac_rfl

/-- **The next node** leaves its place for that of a node with two subtrees. -/
theorem wp_deleteSplice_next {k' : List (Frame (ι × UInt32))}
    (h : Holds s i sn parent (plug (k' ++ ⟨.right, c, x, l⟩ :: k) (join .left d nil y u)) m) :
    Wp (deleteSplice (some s) (some x.1) (some y.1) (some (addr s u))) (fun _ m' => ∃ sn' n,
      sn'.color = 0 ∧ (u = nil → sn'.parent = up parent (k' ++ ⟨.right, c, y, l⟩ :: k)) ∧
      m'.Has ⟨some (addr s (plug (k' ++ ⟨.right, c, y, l⟩ :: k) u)), some s, i⟩
        ({(x.1, n)} + ({(s, sn')} +
          treeCells s parent (plug (k' ++ ⟨.right, c, y, l⟩ :: k) u)))) m := by
  have hy : y.1 ≠ s := by
    have hne := h.addr_ne_sentinel join_ne_nil
    rwa [addr_join] at hne
  have hh := h.has_plug
  rw [addr_join, treeCells_join, treeCells, zero_add] at hh
  obtain ⟨g, K, hK⟩ := List.exists_cons_of_ne_nil
    (List.append_ne_nil_of_right_ne_nil k' (List.cons_ne_nil ⟨.right, c, x, l⟩ k))
  have hup : up parent (k' ++ ⟨.right, c, x, l⟩ :: k) = up (some x.1) k' := up_append ..
  have hpath (z : ι) : pathCells s parent (k' ++ ⟨.right, c, x, l⟩ :: k) z =
      pathCells s (some x.1) k' z + ({(x.1, nodeOf .right c (top z k') (addr s l) x.2
        (up parent k))} + (treeCells s (some x.1) l + pathCells s parent k x.1)) :=
    pathCells_append ..
  have hroot (z : ι) : top z (k' ++ ⟨.right, c, x, l⟩ :: k) = top x.1 k := by
    rw [top_append]
    rfl
  rw [hroot] at hh
  obtain ⟨Y, hY⟩ : ∃ Y, Y = nodeOf .left d (addr s nil) (addr s u) y.2 (up (some x.1) k') :=
    ⟨_, rfl⟩
  obtain ⟨X, hX⟩ : ∃ X, X = nodeOf .right c (top (addr s u) k') (addr s l) x.2 (up parent k) :=
    ⟨_, rfl⟩
  rw [hup, ← hY] at hh
  -- `temp` takes the place of `subst`
  have hYparent : Y.parent = some g.val.1 := by
    rw [hY, parent_nodeOf, ← hup, hK]
    rfl
  replace hh := hh.congr (F := pathCells s parent (k' ++ ⟨.right, c, x, l⟩ :: k) y.1 +
    ({(y.1, Y)} + (treeCells s (some y.1) u + {(s, sn)}))) (by ac_rfl)
  rw [hK] at hh
  refine wp_bind (wp_replaceBelow hh (n := Y) (by simp) hYparent hy fun m₁ h₁ => ?_)
  rw [← hK, hpath, ← hX] at h₁
  refine wp_bind (h₁.wp_field (n := Y) (by simp) ?_)
  have hne : y.1 ≠ x.1 := by
    have howns := (h₁.congr (F := {(y.1, Y)} + (pathCells s (some x.1) k' (addr s u) +
      ({(x.1, X)} + (treeCells s (some x.1) l + pathCells s parent k x.1)) +
      (treeCells s (some y.1) u + {(s, sn)}))) (by ac_rfl)).owns
    exact howns.ne_of_mem (Multiset.mem_singleton_self _) (by simp : (x.1, X) ∈ _)
  refine wp_ite_neg (fun heq => hne (Option.some.inj heq)) ?_
  have htemp := up_replace (y := y) (h₁.congr (F := pathCells s (some x.1) k' (addr s u) +
    ({(x.1, X)} + (treeCells s (some x.1) l + pathCells s parent k x.1 +
      ({(y.1, Y)} + (treeCells s (some y.1) u + {(s, sn)}))))) (by ac_rfl))
  have hYup : Y.parent = up (some x.1) k' := by rw [hY, parent_nodeOf]
  rw [hYup, htemp]
  replace h₁ := h₁.congr (F := treeCells s (some y.1) u + ({(s, sn)} +
    ({(y.1, Y)} + ({(x.1, X)} + (pathCells s (some x.1) k' (addr s u) +
      (treeCells s (some x.1) l + pathCells s parent k x.1)))))) (by ac_rfl)
  refine wp_bind (wp_setParent_sentinel h₁ fun sn' m₂ hcolor hsn' h₂ => ?_)
  -- `subst` takes the place of the node
  obtain ⟨q, hq⟩ := exists_treeCells_plug s (some x.1) (some y.1) k' u
  replace h₂ := h₂.congr (F := {(x.1, X)} + ({(y.1, Y)} + (treeCells s (some x.1) l +
    ((pathCells s (some x.1) k' (addr s u) + treeCells s (up (some y.1) k') u) +
      ({(s, sn')} + pathCells s parent k x.1))))) (by ac_rfl)
  rw [hq, hX, ← addr_plug] at h₂
  have hx : x.1 ≠ s := by
    exact h₂.owns.ne_of_mem (Multiset.mem_singleton_self _) (by simp : (s, sn') ∈ _)
  have hkey : Y.key = y.2 := by rw [hY, key_nodeOf]
  refine wp_mono (wp_deleteMove h₂ hkey hx) fun _ m₃ h₃ => ?_
  refine ⟨sn', nodeOf .right c (addr s (plug k' u)) (addr s l) x.2 (up parent k),
    hcolor.trans h.black, ?_, ?_⟩
  · rw [up_append]
    exact hsn'
  · rw [plug_append, plug_cons, Frame.fill, addr_plug, treeCells_plug, treeCells_join, addr_join]
    refine h₃.congr ?_
    ac_rfl

/-! ## The end -/

/-- The node is reset, and its cell given back. -/
theorem wp_deleteReset {v : Rbtree ι} {a : ι} {n : RbtreeNode ι} {F : Multiset (ι × RbtreeNode ι)}
    {Q : RbtreeNode ι → Mem (Rbtree ι) ι (RbtreeNode ι) → Prop} (h : m.Has v ({(a, n)} + F))
    (hQ : ∀ n' m', m'.Has v F → Q n' m') : Wp (deleteReset (some a)) Q m :=
  wp_bind (h.wp_modify rfl fun _ h₁ => h₁.wp_release rfl fun m₂ h₂ => hQ _ m₂ h₂)

/-- **The repair**, if a black node left its place. -/
theorem wp_deleteRepair (h : Holds s i sn parent (plug k t) m)
    (hs : t = nil → sn.parent = up parent k) (hout : TakenOut c k t) (hfuel : k.length < fuel)
    (n : RbtreeNode ι) :
    Wp (if (c == .red) = true then pure n else do
        let temp ← deleteLoop (some s) fuel (some (addr s t))
        rbtBlack temp
        pure n) (fun _ m' => ∃ u, Holds s i sn parent u m' ∧ u.Balanced ∧
      u.toList = (plug k t).toList) m := by
  cases c with
  | red => exact wp_ite_pos rfl (wp_pure ⟨plug k t, h, hout, rfl⟩)
  | black =>
    refine wp_ite_neg Bool.false_ne_true ?_
    refine wp_bind_of (wp_deleteLoop (Or.inl hfuel) h hs hout) ?_
    rintro p m' ⟨k', t', rfl, h', hbal, hlist⟩
    refine wp_bind (h'.wp_rbtBlack fun m₂ h₂ => wp_pure ⟨_, h₂, hbal, ?_⟩)
    rw [← hlist]
    exact toList_plug_congr (toList_paint ..)

/-- The root goes, and has at most one subtree. -/
theorem wp_deleteRoot {Q : RbtreeNode ι → Mem (Rbtree ι) ι (RbtreeNode ι) → Prop}
    (h : Holds s i sn parent (join side c nil x t) m)
    (hQ : ∀ n m', Holds s i sn (some x.1) (t.paint .black) m' → Q n m') :
    Wp (do
      setRoot (some (addr s t))
      rbtBlack (some (addr s t))
      deleteReset (some x.1)) Q m := by
  refine wp_bind (h.has.wp_modifyVars fun m₁ h₁ => ?_)
  rw [treeCells_join, treeCells, zero_add] at h₁
  obtain ⟨X, hX⟩ : ∃ X, X = nodeOf side c (addr s nil) (addr s t) x.2 parent := ⟨_, rfl⟩
  rw [← hX] at h₁
  replace h₁ := h₁.congr (F := treeCells s (some x.1) t + ({(s, sn)} + {(x.1, X)})) (by ac_rfl)
  refine wp_bind (wp_paint (c := .black) h₁ h.black (fun _ => rfl) fun m₂ h₂ => ?_)
  replace h₂ := h₂.congr (F := {(x.1, X)} + ({(s, sn)} + treeCells s (some x.1) (t.paint .black)))
    (by ac_rfl)
  refine wp_deleteReset h₂ fun n m₃ h₃ => hQ n m₃ ⟨?_, h.black⟩
  rwa [addr_paint]

/-- **`rbtree_delete`** takes out the node, and the tree is balanced again. -/
theorem wp_rbtreeDelete (h : Holds s i sn parent (plug k (node c l x r)) m)
    (hbal : (plug k (node c l x r)).Balanced)
    (hfuel : (plug k (node c l x r)).toList.length < fuel) :
    Wp (rbtreeDelete fuel (some x.1)) (fun _ m' => ∃ sn' parent' u, Holds s i sn' parent' u m' ∧
      u.Balanced ∧ u.toList = before k ++ ((l.toList ++ r.toList) ++ after k)) m := by
  have hr : r.toList.length ≤ fuel := by
    rw [toList_plug, toList] at hfuel
    simp only [List.length_append, List.length_cons] at hfuel
    omega
  refine wp_bind (h.has.wp_getVars (wp_bind_of (wp_deleteChoose h hr) ?_))
  rintro p m' ⟨rfl, ⟨side, t, hj, rfl⟩ | ⟨hl, k', d, y, u, rfl, hbefore, rfl⟩⟩
  · have hlist : l.toList ++ r.toList = t.toList := by
      cases side with
      | left =>
        obtain ⟨-, rfl, -, rfl⟩ := ColorTree.node.inj hj
        rfl
      | right =>
        obtain ⟨-, rfl, -, rfl⟩ := ColorTree.node.inj hj
        exact List.append_nil _
    rw [hlist]
    rw [hj] at h hbal hfuel ⊢
    have hout := takenOut hbal
    cases k with
    | nil =>
      obtain rfl : c = .black := by
        have hc := hbal.1
        rwa [plug, color_join] at hc
      have hroot : some x.1 = some (addr s (join side .black nil x t)) := by rw [addr_join]
      refine wp_ite_pos hroot (wp_deleteRoot h fun n m' h' => ?_)
      refine ⟨sn, some x.1, t.paint .black, h', hout.done (Or.inl rfl), ?_⟩
      rw [toList_paint, before, after, List.append_nil]
      rfl
    | cons f k =>
      have hroot : ¬ some x.1 = some (addr s (plug (f :: k) (join side c nil x t))) := by
        have hne := h.addr_ne_top
        rw [addr_plug]
        rw [addr_join] at hne ⊢
        exact fun heq => hne (Option.some.inj heq)
      refine wp_ite_neg hroot (wp_bind (h.wp_isRed_join ?_))
      refine wp_bind_of (wp_deleteSplice_self h) ?_
      rintro - m₁ ⟨sn', n, hblack, hsn', h₁⟩
      refine wp_bind (wp_deleteReset h₁ fun n' m₂ h₂ => ?_)
      have hlen := (length_le_length_toList (f :: k) (join side c nil x t)).trans_lt hfuel
      have h₂' : Holds s i sn' parent (plug (f :: k) t) m₂ := ⟨h₂, hblack⟩
      refine wp_mono (wp_deleteRepair h₂' hsn' hout hlen n') ?_
      rintro - m₃ ⟨u, h₃, hu, hlist₃⟩
      refine ⟨sn', parent, u, h₃, hu, ?_⟩
      rw [hlist₃, toList_plug]
  · have hplug : plug k (node c l x (plug k' (node d nil y u))) =
        plug (k' ++ ⟨.right, c, x, l⟩ :: k) (join .left d nil y u) := by
      rw [plug_append]
      rfl
    rw [hplug] at h hbal hfuel
    have hout := (takenOut hbal).replace y
    obtain ⟨g, K, hK⟩ := List.exists_cons_of_ne_nil
      (List.append_ne_nil_of_right_ne_nil k' (List.cons_ne_nil ⟨.right, c, x, l⟩ k))
    have hroot : ¬ some y.1 = some (addr s (plug k (node c l x (plug k' (node d nil y u))))) := by
      rw [hplug, addr_plug]
      rw [hK] at h ⊢
      have hne := h.addr_ne_top
      rw [addr_join] at hne ⊢
      exact fun heq => hne (Option.some.inj heq)
    refine wp_ite_neg hroot (wp_bind (h.wp_isRed_join ?_))
    refine wp_bind_of (wp_deleteSplice_next h) ?_
    rintro - m₁ ⟨sn', n, hblack, hsn', h₁⟩
    refine wp_bind (wp_deleteReset h₁ fun n' m₂ h₂ => ?_)
    have hlen : (k' ++ ⟨.right, c, y, l⟩ :: k).length < fuel := by
      have hle := length_le_length_toList (k' ++ ⟨.right, c, x, l⟩ :: k) (join .left d nil y u)
      rw [List.length_append, List.length_cons] at hle ⊢
      omega
    have h₂' : Holds s i sn' parent (plug (k' ++ ⟨.right, c, y, l⟩ :: k) u) m₂ := ⟨h₂, hblack⟩
    refine wp_mono (wp_deleteRepair h₂' hsn' hout hlen n') ?_
    rintro - m₃ ⟨v, h₃, hv, hlist₃⟩
    refine ⟨sn', parent, v, h₃, hv, ?_⟩
    rw [hlist₃, plug_append, toList_plug, toList_plug, toList_plug, hbefore]
    simp only [before, after, toList, List.nil_append, List.append_assoc, List.cons_append]

end Delete

end Tqos
