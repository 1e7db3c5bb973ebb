import Tqos.Tserver.RbTree

/-!
# The cells of a tree

What a memory holds for a red-black tree is the cell of the sentinel and a cell for every node, with
the addresses of its neighbours. This file computes the cells along a path, so that the cells of a
tree are those of a subtree and those of the path to it, and proves for every small piece of
`rb_tree.c` what it does to them.

The parent field of the root is not what one expects: it keeps what was there when its node became
the root. That of the sentinel is the last parent of an empty subtree that was moved.

## Main results

* `treeCells_plug` — the cells along a path and those of the subtree
* `Holds.wp_rotate` — the rotations of the source are the rotations of the tree
* `wp_replaceBelow`, `wp_replace`, `wp_reparent` — the pointers to and from a subtree
-/

namespace Tqos

open Heap RedBlack RedBlack.ColorTree

variable {ι : Type}

/-! ## Cells -/

/-- The colours as they are stored. -/
def colorByte : Color → UInt8
  | .red => 1
  | .black => 0

/-- A node of a tree: its neighbours on a side and on the other, and its parent. -/
def nodeOf (side : Side) (c : Color) (near far : ι) (key : UInt32) (parent : Option ι) :
    RbtreeNode ι :=
  match side with
  | .left => ⟨key, some near, some far, parent, colorByte c⟩
  | .right => ⟨key, some far, some near, parent, colorByte c⟩

section Nodes

variable (side : Side) (c c' : Color) (near far p : ι) (key : UInt32) (parent q : Option ι)

theorem nodeOf_other :
    nodeOf side.other c far near key parent = nodeOf side c near far key parent := by
  cases side <;> rfl

@[simp] theorem key_nodeOf : (nodeOf side c near far key parent).key = key := by cases side <;> rfl

@[simp] theorem parent_nodeOf : (nodeOf side c near far key parent).parent = parent := by
  cases side <;> rfl

@[simp] theorem color_nodeOf : (nodeOf side c near far key parent).color = colorByte c := by
  cases side <;> rfl

@[simp] theorem child_nodeOf : (nodeOf side c near far key parent).child side = some near := by
  cases side <;> rfl

@[simp] theorem child_other_nodeOf :
    (nodeOf side c near far key parent).child side.other = some far := by
  cases side <;> rfl

@[simp] theorem setChild_nodeOf : (nodeOf side c near far key parent).setChild side (some p) =
    nodeOf side c p far key parent := by
  cases side <;> rfl

@[simp] theorem setChild_other_nodeOf :
    (nodeOf side c near far key parent).setChild side.other (some p) =
      nodeOf side c near p key parent := by
  cases side <;> rfl

@[simp] theorem setParent_nodeOf :
    (nodeOf side c near far key parent).setParent q = nodeOf side c near far key q := by
  cases side <;> rfl

@[simp] theorem setColor_nodeOf : (nodeOf side c near far key parent).setColor (colorByte c') =
    nodeOf side c' near far key parent := by
  cases side <;> rfl

theorem colorByte_bne : (colorByte c != 0) = (c == .red) := by cases c <;> rfl

end Nodes

/-- The address of a tree: that of its root, or of the sentinel. -/
def addr (s : ι) : ColorTree (ι × UInt32) → ι
  | nil => s
  | node _ _ a _ => a.1

/-- The cells of a tree whose root has a parent. -/
def treeCells (s : ι) : Option ι → ColorTree (ι × UInt32) → Multiset (ι × RbtreeNode ι)
  | _, nil => 0
  | parent, node c l a r =>
    {(a.1, nodeOf .left c (addr s l) (addr s r) a.2 parent)} +
      (treeCells s (some a.1) l + treeCells s (some a.1) r)

/-- The parent at the end of a path. -/
def up (parent : Option ι) : List (Frame (ι × UInt32)) → Option ι
  | [] => parent
  | f :: _ => some f.val.1

/-- The address of a tree with something at the end of a path. -/
def top : ι → List (Frame (ι × UInt32)) → ι
  | hole, [] => hole
  | _, f :: k => top f.val.1 k

/-- The cells along a path, with something at its end. -/
def pathCells (s : ι) (parent : Option ι) :
    List (Frame (ι × UInt32)) → ι → Multiset (ι × RbtreeNode ι)
  | [], _ => 0
  | f :: k, hole =>
    {(f.val.1, nodeOf f.side f.color hole (addr s f.sib) f.val.2 (up parent k))} +
      (treeCells s (some f.val.1) f.sib + pathCells s parent k f.val.1)

section Cells

variable {s : ι} {parent : Option ι} {side : Side} {c : Color} {l r t u : ColorTree (ι × UInt32)}
  {a : ι × UInt32} {k k' : List (Frame (ι × UInt32))} {hole : ι}

@[simp] theorem addr_join : addr s (join side c l a r) = a.1 := by cases side <;> rfl

@[simp] theorem addr_paint : addr s (t.paint c) = addr s t := by cases t <;> rfl

theorem treeCells_join (s : ι) (parent : Option ι) (side : Side) (c : Color)
    (l : ColorTree (ι × UInt32)) (a : ι × UInt32) (r : ColorTree (ι × UInt32)) :
    treeCells s parent (join side c l a r) =
      {(a.1, nodeOf side c (addr s l) (addr s r) a.2 parent)} +
        (treeCells s (some a.1) l + treeCells s (some a.1) r) := by
  cases side with
  | left => rfl
  | right => exact congrArg ({_} + ·) (add_comm _ _)

/-- **The cells of a tree**, from a subtree. -/
theorem treeCells_plug (s : ι) (parent : Option ι) (k : List (Frame (ι × UInt32)))
    (t : ColorTree (ι × UInt32)) :
    treeCells s parent (plug k t) =
      pathCells s parent k (addr s t) + treeCells s (up parent k) t := by
  induction k generalizing t with
  | nil => exact (zero_add _).symm
  | cons f k ih =>
    rw [plug_cons, ih, Frame.fill, treeCells_join, addr_join, pathCells]
    show _ = _ + treeCells s (some f.val.1) t
    ac_rfl

theorem addr_plug (s : ι) (k : List (Frame (ι × UInt32))) (t : ColorTree (ι × UInt32)) :
    addr s (plug k t) = top (addr s t) k := by
  induction k generalizing t with
  | nil => rfl
  | cons f k ih =>
    rw [plug_cons, ih, Frame.fill, addr_join]
    rfl

theorem up_append (parent : Option ι) (k k' : List (Frame (ι × UInt32))) :
    up parent (k ++ k') = up (up parent k') k := by
  cases k <;> rfl

theorem top_append (hole : ι) (k k' : List (Frame (ι × UInt32))) :
    top hole (k ++ k') = top (top hole k) k' := by
  induction k generalizing hole with
  | nil => rfl
  | cons f k ih => exact ih f.val.1

theorem pathCells_append (s : ι) (parent : Option ι) (k k' : List (Frame (ι × UInt32))) (hole : ι) :
    pathCells s parent (k ++ k') hole =
      pathCells s (up parent k') k hole + pathCells s parent k' (top hole k) := by
  induction k generalizing hole with
  | nil => exact (zero_add _).symm
  | cons f k ih =>
    rw [List.cons_append, pathCells, pathCells, ih, up_append]
    show _ = _ + pathCells s parent k' (top f.val.1 k)
    ac_rfl

/-- A subtree between two changes of its parent. -/
theorem exists_treeCells_plug (s : ι) (p q : Option ι) (k : List (Frame (ι × UInt32)))
    (t : ColorTree (ι × UInt32)) :
    ∃ r, pathCells s p k (addr s t) + treeCells s (up q k) t = treeCells s r (plug k t) := by
  cases k with
  | nil => exact ⟨q, zero_add _⟩
  | cons f k => exact ⟨p, (treeCells_plug s p (f :: k) t).symm⟩

/-- The cell of the root. -/
theorem exists_mem_treeCells (s : ι) (parent : Option ι) (ht : t ≠ nil) :
    ∃ n, (addr s t, n) ∈ treeCells s parent t ∧ n.parent = parent ∧
      n.color = colorByte t.color := by
  obtain ⟨l, a, r, heq⟩ := exists_join .left ht
  rw [heq, treeCells_join, addr_join, color_join]
  exact ⟨_, Multiset.mem_add.mpr (Or.inl (Multiset.mem_singleton_self _)), parent_nodeOf ..,
    color_nodeOf ..⟩

/-- The root of a tree is on the path, if the path is not empty. -/
theorem exists_mem_pathCells (s : ι) (parent : Option ι) (hole : ι) (hk : k ≠ []) :
    ∃ n, (top hole k, n) ∈ pathCells s parent k hole := by
  induction k generalizing hole with
  | nil => exact absurd rfl hk
  | cons f k ih =>
    rw [pathCells]
    cases k with
    | nil => exact ⟨_, Multiset.mem_add.mpr (Or.inl (Multiset.mem_singleton_self _))⟩
    | cons g k =>
      obtain ⟨n, hn⟩ := ih f.val.1 (List.cons_ne_nil _ _)
      exact ⟨n, Multiset.mem_add.mpr (Or.inr (Multiset.mem_add.mpr (Or.inr hn)))⟩

/-- The addresses of the cells are those of the nodes. -/
theorem map_fst_treeCells (s : ι) (parent : Option ι) (t : ColorTree (ι × UInt32)) :
    (treeCells s parent t).map Prod.fst = (t.toList.map Prod.fst : Multiset ι) := by
  induction t generalizing parent with
  | nil => rfl
  | node c l a r ihl ihr =>
    rw [treeCells, Multiset.map_add, Multiset.map_add, ihl, ihr, Multiset.map_singleton, toList,
      List.map_append, List.map_cons, ← Multiset.coe_add, ← Multiset.cons_coe,
      ← Multiset.singleton_add]
    exact add_left_comm _ _ _

/-- The children of a node have it as their parent. -/
theorem exists_mem_child {b : ι} {n : RbtreeNode ι} {y : ι} (h : (y, n) ∈ treeCells s parent t)
    (hb : n.left = some b ∨ n.right = some b) (hbs : b ≠ s) :
    ∃ n', (b, n') ∈ treeCells s parent t ∧ n'.parent = some y := by
  induction t generalizing parent with
  | nil => cases h
  | node c l x r ihl ihr =>
    have hchild {u : ColorTree (ι × UInt32)} (hu : b = addr s u) :
        ∃ n', (b, n') ∈ treeCells s (some x.1) u ∧ n'.parent = some x.1 := by
      have hne : u ≠ nil := by
        rintro rfl
        exact hbs hu
      obtain ⟨n', hn', hparent, -⟩ := exists_mem_treeCells s (some x.1) hne
      exact ⟨n', hu ▸ hn', hparent⟩
    rw [treeCells] at h ⊢
    rcases Multiset.mem_add.mp h with h | h
    · obtain ⟨rfl, rfl⟩ := Prod.mk.inj (Multiset.mem_singleton.mp h)
      rcases hb with hb | hb
      · obtain ⟨n', hn', hparent⟩ := hchild (Option.some.inj hb).symm
        exact ⟨n', by simp [hn'], hparent⟩
      · obtain ⟨n', hn', hparent⟩ := hchild (Option.some.inj hb).symm
        exact ⟨n', by simp [hn'], hparent⟩
    · rcases Multiset.mem_add.mp h with h | h
      · obtain ⟨n', hn', hparent⟩ := ihl h
        exact ⟨n', by simp [hn'], hparent⟩
      · obtain ⟨n', hn', hparent⟩ := ihr h
        exact ⟨n', by simp [hn'], hparent⟩

/-- An address elsewhere is not that of the tree. -/
theorem addr_ne {cells : ι → Option (RbtreeNode ι)} {F : Multiset (ι × RbtreeNode ι)} {x : ι}
    {n : RbtreeNode ι} (h : Owns cells (treeCells s parent t + F)) (hx : (x, n) ∈ F) (hxs : x ≠ s) :
    x ≠ addr s t := by
  by_cases ht : t = nil
  · rw [ht]
    exact hxs
  · obtain ⟨n', hn', -⟩ := exists_mem_treeCells s parent ht
    exact (h.ne_of_mem hn' hx).symm

/-- A node is not the sentinel. -/
theorem addr_ne_of_has {m : Mem (Rbtree ι) ι (RbtreeNode ι)} {v : Rbtree ι} {a : ι}
    {n sn : RbtreeNode ι}
    (h : m.Has v ({(a, n)} + ({(s, sn)} + treeCells s parent (plug k t))))
    (ht : t ≠ nil) : addr s t ≠ s := by
  rw [treeCells_plug] at h
  obtain ⟨n', hn', -⟩ := exists_mem_treeCells s (up parent k) ht
  have hmem : (addr s t, n') ∈
      {(a, n)} + (pathCells s parent k (addr s t) + treeCells s (up parent k) t) := by simp [hn']
  have howns := (h.congr (add_left_comm _ _ _)).owns
  exact (howns.ne_of_mem (Multiset.mem_singleton_self _) hmem).symm

end Cells

/-! ## A tree in memory -/

/-- The memory has a tree and nothing else: `sn` is the cell of the sentinel, which is black, and
`parent` is in the parent field of the root. -/
structure Holds (s : ι) (i : RbtreeInsertPt) (sn : RbtreeNode ι) (parent : Option ι)
    (t : ColorTree (ι × UInt32)) (m : Mem (Rbtree ι) ι (RbtreeNode ι)) : Prop where
  has : m.Has ⟨some (addr s t), some s, i⟩ ({(s, sn)} + treeCells s parent t)
  black : sn.color = 0

section Holds

variable {s : ι} {i : RbtreeInsertPt} {sn : RbtreeNode ι} {parent : Option ι} {side : Side}
  {c : Color} {t a b : ColorTree (ι × UInt32)} {x y : ι × UInt32} {f : Frame (ι × UInt32)}
  {k : List (Frame (ι × UInt32))} {m : Mem (Rbtree ι) ι (RbtreeNode ι)}

/-- The cells, taken apart at a subtree. -/
theorem Holds.has_plug (h : Holds s i sn parent (plug k t) m) :
    m.Has ⟨some (top (addr s t) k), some s, i⟩
      (treeCells s (up parent k) t + ({(s, sn)} + pathCells s parent k (addr s t))) := by
  have hh := h.has
  rw [addr_plug, treeCells_plug] at hh
  refine hh.congr ?_
  ac_rfl

/-- The cells, put together. -/
theorem Holds.of_has_plug (h : m.Has ⟨some (top (addr s t) k), some s, i⟩
      (treeCells s (up parent k) t + ({(s, sn)} + pathCells s parent k (addr s t))))
    (hblack : sn.color = 0) : Holds s i sn parent (plug k t) m := by
  refine ⟨?_, hblack⟩
  rw [addr_plug, treeCells_plug]
  refine h.congr ?_
  ac_rfl

/-- A node is not the sentinel. -/
theorem Holds.addr_ne_sentinel (h : Holds s i sn parent (plug k t) m) (ht : t ≠ nil) :
    addr s t ≠ s := by
  obtain ⟨n, hn, -⟩ := exists_mem_treeCells s (up parent k) ht
  exact h.has_plug.owns.ne_of_mem hn (by simp : (s, sn) ∈ {(s, sn)} + _)

/-- A subtree that is not the whole tree is not at the root. -/
theorem Holds.addr_ne_top (h : Holds s i sn parent (plug (f :: k) t) m) :
    addr s t ≠ top (addr s t) (f :: k) := by
  obtain ⟨n, hn⟩ := exists_mem_pathCells s parent (addr s t) (List.cons_ne_nil f k)
  have htop : top (addr s t) (f :: k) ≠ s := by
    have howns := (h.has_plug.congr (add_left_comm _ _ _)).owns
    exact (howns.ne_of_mem (Multiset.mem_singleton_self _) (Multiset.mem_add.mpr (Or.inr hn))).symm
  exact (addr_ne h.has_plug.owns (Multiset.mem_add.mpr (Or.inr hn)) htop).symm

/-- The subtrees of a node have different addresses, unless both are empty. -/
theorem Holds.addr_sib_ne (h : Holds s i sn parent (plug (f :: k) t) m) (hsib : f.sib ≠ nil) :
    addr s f.sib ≠ addr s t := by
  obtain ⟨n, hn, -⟩ := exists_mem_treeCells s (some f.val.1) hsib
  have hs : addr s f.sib ≠ s := by
    rw [← plug_swap] at h
    exact h.addr_ne_sentinel hsib
  refine addr_ne h.has_plug.owns (n := n) ?_ hs
  rw [pathCells]
  simp [hn]

theorem Holds.addr_ne_sib (h : Holds s i sn parent (plug (f :: k) t) m) (ht : t ≠ nil) :
    addr s t ≠ addr s f.sib := by
  rw [← plug_swap] at h
  exact h.addr_sib_ne ht

/-! ### Reading -/

theorem Holds.wp_child {Q : Option ι → Mem (Rbtree ι) ι (RbtreeNode ι) → Prop}
    (h : Holds s i sn parent (plug k (join side c a x b)) m) (hQ : Q (some (addr s a)) m) :
    Wp (field (some x.1) (RbtreeNode.child side)) Q m := by
  have hh := h.has_plug
  rw [treeCells_join] at hh
  refine hh.wp_field (n := nodeOf side c (addr s a) (addr s b) x.2 (up parent k)) (by simp) ?_
  rwa [child_nodeOf]

theorem Holds.wp_child_other {Q : Option ι → Mem (Rbtree ι) ι (RbtreeNode ι) → Prop}
    (h : Holds s i sn parent (plug k (join side c a x b)) m) (hQ : Q (some (addr s b)) m) :
    Wp (field (some x.1) (RbtreeNode.child side.other)) Q m := by
  rw [← join_other] at h
  exact h.wp_child hQ

theorem Holds.wp_key {Q : UInt32 → Mem (Rbtree ι) ι (RbtreeNode ι) → Prop}
    (h : Holds s i sn parent (plug k (join side c a x b)) m) (hQ : Q x.2 m) :
    Wp (field (some x.1) RbtreeNode.key) Q m := by
  have hh := h.has_plug
  rw [treeCells_join] at hh
  refine hh.wp_field (n := nodeOf side c (addr s a) (addr s b) x.2 (up parent k)) (by simp) ?_
  rwa [key_nodeOf]

theorem Holds.wp_colorByte {Q : UInt8 → Mem (Rbtree ι) ι (RbtreeNode ι) → Prop}
    (h : Holds s i sn parent (plug k (join side c a x b)) m) (hQ : Q (colorByte c) m) :
    Wp (field (some x.1) RbtreeNode.color) Q m := by
  have hh := h.has_plug
  rw [treeCells_join] at hh
  refine hh.wp_field (n := nodeOf side c (addr s a) (addr s b) x.2 (up parent k)) (by simp) ?_
  rwa [color_nodeOf]

/-- The cell at the end of a path, which is that of the sentinel if the subtree is empty. -/
theorem Holds.exists_cell (h : Holds s i sn parent (plug k t) m) :
    ∃ n, m.cells (addr s t) = some n ∧ n.color = colorByte t.color ∧
      ((t = nil → sn.parent = up parent k) → n.parent = up parent k) := by
  have hh := h.has_plug
  by_cases ht : t = nil
  · subst ht
    refine ⟨sn, (hh.owns.cells_eq _ _).mpr (by simp [addr]), h.black, fun hs => hs rfl⟩
  · obtain ⟨n, hn, hparent, hcolor⟩ := exists_mem_treeCells s (up parent k) ht
    exact ⟨n, (hh.owns.cells_eq _ _).mpr (by simp [hn]), hcolor, fun _ => hparent⟩

theorem Holds.wp_parent {Q : Option ι → Mem (Rbtree ι) ι (RbtreeNode ι) → Prop}
    (h : Holds s i sn parent (plug k t) m) (hs : t = nil → sn.parent = up parent k)
    (hQ : Q (up parent k) m) : Wp (field (some (addr s t)) RbtreeNode.parent) Q m := by
  obtain ⟨n, hn, -, hparent⟩ := h.exists_cell
  rw [← hparent hs] at hQ
  exact h.has.wp_field ((h.has.owns.cells_eq _ _).mp hn) hQ

theorem Holds.wp_parent_join {Q : Option ι → Mem (Rbtree ι) ι (RbtreeNode ι) → Prop}
    (h : Holds s i sn parent (plug k (join side c a x b)) m) (hQ : Q (up parent k) m) :
    Wp (field (some x.1) RbtreeNode.parent) Q m := by
  have hw := h.wp_parent (fun hnil => absurd hnil join_ne_nil) hQ
  rwa [addr_join] at hw

theorem Holds.wp_isRed {Q : Bool → Mem (Rbtree ι) ι (RbtreeNode ι) → Prop}
    (h : Holds s i sn parent (plug k t) m) (hQ : Q (t.color == .red) m) :
    Wp (rbtIsRed (some (addr s t))) Q m := by
  obtain ⟨n, hn, hcolor, -⟩ := h.exists_cell
  refine h.has.wp_field ((h.has.owns.cells_eq _ _).mp hn) ?_
  rwa [hcolor, colorByte_bne]

theorem Holds.wp_isRed_join {Q : Bool → Mem (Rbtree ι) ι (RbtreeNode ι) → Prop}
    (h : Holds s i sn parent (plug k (join side c a x b)) m) (hQ : Q (c == .red) m) :
    Wp (rbtIsRed (some x.1)) Q m := by
  have hw := h.wp_isRed (by rwa [color_join])
  rwa [addr_join] at hw

theorem Holds.wp_isBlack {Q : Bool → Mem (Rbtree ι) ι (RbtreeNode ι) → Prop}
    (h : Holds s i sn parent (plug k t) m) (hQ : Q (!(t.color == .red)) m) :
    Wp (rbtIsBlack (some (addr s t))) Q m := by
  obtain ⟨n, hn, hcolor, -⟩ := h.exists_cell
  refine h.has.wp_field ((h.has.owns.cells_eq _ _).mp hn) ?_
  rwa [hcolor, colorByte_bne]

/-- On which side a subtree is. -/
theorem Holds.wp_left {Q : Option ι → Mem (Rbtree ι) ι (RbtreeNode ι) → Prop} [DecidableEq ι]
    (h : Holds s i sn parent (plug (f :: k) t) m) (hne : t ≠ nil ∨ f.sib ≠ nil)
    (hQ : ∀ l, (if some (addr s t) = l then Side.left else .right) = f.side → Q l m) :
    Wp (field (some f.val.1) RbtreeNode.left) Q m := by
  have hdiff : addr s t ≠ addr s f.sib := by
    rcases hne with ht | hsib
    · exact h.addr_ne_sib ht
    · exact (h.addr_sib_ne hsib).symm
  obtain ⟨side, c, x, sib⟩ := f
  cases side with
  | left =>
    have hj : Holds s i sn parent (plug k (join .left c t x sib)) m := h
    exact hj.wp_child (hQ _ (if_pos rfl))
  | right =>
    have hj : Holds s i sn parent (plug k (join .right c t x sib)) m := h
    exact hj.wp_child_other (hQ _ (if_neg fun heq => hdiff (Option.some.inj heq)))

end Holds

/-! ## Pointers to and from a subtree -/

variable [DecidableEq ι]

section Pieces

variable {s x y : ι} {v : Rbtree ι} {i : RbtreeInsertPt} {parent p q : Option ι} {side : Side}
  {t : ColorTree (ι × UInt32)} {f : Frame (ι × UInt32)} {k : List (Frame (ι × UInt32))}
  {n sn : RbtreeNode ι} {F : Multiset (ι × RbtreeNode ι)} {m : Mem (Rbtree ι) ι (RbtreeNode ι)}
  {Q : Unit → Mem (Rbtree ι) ι (RbtreeNode ι) → Prop}

/-- The root of a subtree gets another parent. -/
theorem wp_setParent (h : m.Has v (treeCells s q t + F)) (ht : t ≠ nil)
    (hQ : ∀ m', m'.Has v (treeCells s p t + F) → Q () m') :
    Wp (modify (some (addr s t)) (.setParent p)) Q m := by
  cases t with
  | nil => exact absurd rfl ht
  | node c l a r =>
    rw [treeCells, add_assoc] at h
    refine h.wp_modify rfl fun m' hm' => hQ m' ?_
    rw [setParent_nodeOf, ← add_assoc] at hm'
    exact hm'

/-- The parent of a subtree. If it is empty, the sentinel keeps that. -/
theorem wp_setParent_sentinel (h : m.Has v (treeCells s q t + ({(s, sn)} + F)))
    (hQ : ∀ sn' m', sn'.color = sn.color → (t = nil → sn'.parent = p) →
      m'.Has v (treeCells s p t + ({(s, sn')} + F)) → Q () m') :
    Wp (modify (some (addr s t)) (.setParent p)) Q m := by
  by_cases ht : t = nil
  · subst ht
    refine (h.congr (add_left_comm _ _ _)).wp_modify rfl fun m' hm' => ?_
    exact hQ (sn.setParent p) m' rfl (fun _ => rfl) (hm'.congr (add_left_comm _ _ _))
  · exact wp_setParent h ht fun m' hm' => hQ sn m' rfl (fun hnil => absurd hnil ht) hm'

/-- **The parent of a subtree**, unless it is empty. -/
theorem wp_reparent (h : m.Has v (treeCells s q t + F)) (hs : (s, sn) ∈ F)
    (hQ : ∀ m', m'.Has v (treeCells s p t + F) → Q () m') :
    Wp (reparent (some s) (some (addr s t)) p) Q m := by
  rw [reparent]
  by_cases ht : t = nil
  · subst ht
    exact wp_ite_neg (not_not_intro rfl) (wp_pure (hQ m h))
  · obtain ⟨n, hn, -⟩ := exists_mem_treeCells s q ht
    have hne : addr s t ≠ s := h.owns.ne_of_mem hn hs
    exact wp_ite_pos (fun heq => hne (Option.some.inj heq)) (wp_setParent h ht hQ)

/-- **The place of a subtree below its parent.** -/
theorem wp_replaceBelow (h : m.Has v (pathCells s parent (f :: k) x + F)) (hx : (x, n) ∈ F)
    (hn : n.parent = some f.val.1) (hxs : x ≠ s)
    (hQ : ∀ m', m'.Has v (pathCells s parent (f :: k) y + F) → Q () m') :
    Wp (replaceBelow side (some x) (some y)) Q m := by
  obtain ⟨fside, c, a, sib⟩ := f
  have hcells (z : ι) : pathCells s parent (⟨fside, c, a, sib⟩ :: k) z + F =
      {(a.1, nodeOf fside c z (addr s sib) a.2 (up parent k))} +
        (treeCells s (some a.1) sib + (pathCells s parent k a.1 + F)) := by
    rw [pathCells]
    ac_rfl
  have hmem : (x, n) ∈ pathCells s parent (⟨fside, c, a, sib⟩ :: k) x + F :=
    Multiset.mem_add.mpr (Or.inr hx)
  refine wp_bind (h.wp_field hmem ?_)
  rw [hn]
  rw [hcells] at h
  refine wp_bind (h.wp_field (Multiset.mem_add.mpr (Or.inl (Multiset.mem_singleton_self _))) ?_)
  by_cases hside : side = fside
  · subst hside
    rw [child_nodeOf, if_pos rfl]
    refine h.wp_modify rfl fun m' hm' => hQ m' ?_
    rw [setChild_nodeOf] at hm'
    exact hm'.congr (hcells y).symm
  · have hother : fside = side.other := Side.eq_other hside
    have hne : x ≠ addr s sib := by
      have howns := (h.congr (add_left_comm _ _ _)).owns
      exact addr_ne howns (Multiset.mem_add.mpr (Or.inr (Multiset.mem_add.mpr (Or.inr hx)))) hxs
    subst hother
    have hchild : (nodeOf side.other c x (addr s sib) a.2 (up parent k)).child side =
        some (addr s sib) := by
      rw [nodeOf_other, child_nodeOf]
    rw [hchild, if_neg fun heq => hne (Option.some.inj heq)]
    refine h.wp_modify rfl fun m' hm' => hQ m' ?_
    rw [setChild_nodeOf] at hm'
    exact hm'.congr (hcells y).symm

/-- **The place of a subtree in the tree.** -/
theorem wp_replace (h : m.Has ⟨some (top x k), some s, i⟩ (pathCells s parent k x + F))
    (hx : (x, n) ∈ F) (hn : n.parent = up parent k) (hxs : x ≠ s)
    (hQ : ∀ m', m'.Has ⟨some (top y k), some s, i⟩ (pathCells s parent k y + F) → Q () m') :
    Wp (replace side (some x) (some y)) Q m := by
  refine wp_bind (h.wp_getVars ?_)
  cases k with
  | nil =>
    exact wp_ite_pos rfl (h.wp_modifyVars hQ)
  | cons f k =>
    obtain ⟨n', hn'⟩ := exists_mem_pathCells s parent x (List.cons_ne_nil f k)
    have hne : x ≠ top x (f :: k) := (h.owns.ne_of_mem hn' hx).symm
    exact wp_ite_neg (fun heq => hne (Option.some.inj heq)) (wp_replaceBelow h hx hn hxs hQ)

end Pieces

/-! ## Paint and rotations -/

section Rotations

variable {s : ι} {i : RbtreeInsertPt} {sn : RbtreeNode ι} {parent : Option ι} {side : Side}
  {c d : Color} {t near inner outer : ColorTree (ι × UInt32)} {x y : ι × UInt32}
  {k : List (Frame (ι × UInt32))} {m : Mem (Rbtree ι) ι (RbtreeNode ι)}
  {Q : Unit → Mem (Rbtree ι) ι (RbtreeNode ι) → Prop}

/-- The root of a subtree is painted. The sentinel is painted only black. -/
theorem wp_paint {v : Rbtree ι} {p : Option ι} {F : Multiset (ι × RbtreeNode ι)}
    (h : m.Has v (treeCells s p t + ({(s, sn)} + F))) (hblack : sn.color = 0)
    (ht : t = nil → c = .black)
    (hQ : ∀ m', m'.Has v (treeCells s p (t.paint c) + ({(s, sn)} + F)) → Q () m') :
    Wp (modify (some (addr s t)) (.setColor (colorByte c))) Q m := by
  cases t with
  | nil =>
    have hsn : sn.setColor (colorByte c) = sn := by
      rw [ht rfl]
      show { sn with color := 0 } = sn
      rw [← hblack]
    refine (h.congr (add_left_comm _ _ _)).wp_modify rfl fun m' hm' => hQ m' ?_
    rw [hsn] at hm'
    exact hm'.congr (add_left_comm _ _ _)
  | node d l a r =>
    rw [treeCells, add_assoc] at h
    refine h.wp_modify rfl fun m' hm' => hQ m' ?_
    rw [setColor_nodeOf, ← add_assoc] at hm'
    exact hm'

theorem Holds.wp_paint (h : Holds s i sn parent (plug k t) m) (ht : t = nil → c = .black)
    (hQ : ∀ m', Holds s i sn parent (plug k (t.paint c)) m' → Q () m') :
    Wp (modify (some (addr s t)) (.setColor (colorByte c))) Q m := by
  refine Tqos.wp_paint h.has_plug h.black ht fun m' hm' => hQ m' (.of_has_plug ?_ h.black)
  rwa [addr_paint]

theorem Holds.wp_paint_join (h : Holds s i sn parent (plug k (join side c near x outer)) m)
    (hQ : ∀ m', Holds s i sn parent (plug k (join side d near x outer)) m' → Q () m') :
    Wp (modify (some x.1) (.setColor (colorByte d))) Q m := by
  have hw := h.wp_paint (c := d) (fun hnil => absurd hnil join_ne_nil) (by rwa [paint_join])
  rwa [addr_join] at hw

theorem Holds.wp_rbtBlack (h : Holds s i sn parent (plug k t) m)
    (hQ : ∀ m', Holds s i sn parent (plug k (t.paint .black)) m' → Q () m') :
    Wp (rbtBlack (some (addr s t))) Q m := h.wp_paint (fun _ => rfl) hQ

theorem Holds.wp_rbtBlack_join (h : Holds s i sn parent (plug k (join side c near x outer)) m)
    (hQ : ∀ m', Holds s i sn parent (plug k (join side .black near x outer)) m' → Q () m') :
    Wp (rbtBlack (some x.1)) Q m := h.wp_paint_join hQ

theorem Holds.wp_rbtRed_join (h : Holds s i sn parent (plug k (join side c near x outer)) m)
    (hQ : ∀ m', Holds s i sn parent (plug k (join side .red near x outer)) m' → Q () m') :
    Wp (rbtRed (some x.1)) Q m := h.wp_paint_join hQ

/-- **A rotation of the source is a rotation of the tree.** -/
theorem Holds.wp_rotate
    (h : Holds s i sn parent (plug k (join side c near x (join side d inner y outer))) m)
    (hQ : ∀ m', Holds s i sn parent (plug k (join side d (join side c near x inner) y outer)) m' →
      Q () m') :
    Wp (rotate side (some s) (some x.1)) Q m := by
  have hx : x.1 ≠ s := by
    have := h.addr_ne_sentinel join_ne_nil
    rwa [addr_join] at this
  have hh := h.has_plug
  rw [addr_join, treeCells_join, treeCells_join, addr_join] at hh
  generalize hN : treeCells s (some x.1) near = N at hh
  generalize hO : treeCells s (some y.1) outer = O at hh
  generalize hS : ({(s, sn)} : Multiset (ι × RbtreeNode ι)) = S at hh
  have hs : (s, sn) ∈ S := by simp [← hS]
  refine wp_bind (hh.wp_field
    (n := nodeOf side c (addr s near) y.1 x.2 (up parent k)) (by simp) ?_)
  rw [child_other_nodeOf]
  refine wp_bind (hh.wp_field
    (n := nodeOf side d (addr s inner) (addr s outer) y.2 (some x.1)) (by simp) ?_)
  rw [child_nodeOf]
  -- `inner` goes over to the node
  refine wp_bind (hh.wp_modify (add_assoc _ _ _) fun m₁ h₁ => ?_)
  rw [setChild_other_nodeOf] at h₁
  refine wp_bind (h₁.wp_field
    (n := nodeOf side d (addr s inner) (addr s outer) y.2 (some x.1)) (by simp) ?_)
  rw [child_nodeOf]
  obtain ⟨X, hX⟩ : ∃ X, X = nodeOf side c (addr s near) (addr s inner) x.2 (up parent k) := ⟨_, rfl⟩
  obtain ⟨Y, hY⟩ : ∃ Y, Y = nodeOf side d (addr s inner) (addr s outer) y.2 (some x.1) := ⟨_, rfl⟩
  rw [← hX, ← hY] at h₁
  replace h₁ := h₁.congr (F := treeCells s (some y.1) inner +
    (S + ({(x.1, X)} + ({(y.1, Y)} + (N + O + pathCells s parent k x.1))))) (by ac_rfl)
  refine wp_bind (wp_reparent h₁ (by simp [hs] : (s, sn) ∈ _) fun m₂ h₂ => ?_)
  -- `temp` goes up to where the node is
  refine wp_bind (h₂.wp_field (n := X) (by simp) ?_)
  rw [hX, parent_nodeOf]
  refine wp_bind (h₂.wp_modify (n := Y) (F := treeCells s (some x.1) inner +
    (S + ({(x.1, X)} + (N + O + pathCells s parent k x.1)))) (by ac_rfl) fun m₃ h₃ => ?_)
  rw [hY, setParent_nodeOf] at h₃
  obtain ⟨Y', hY'⟩ : ∃ Y', Y' = nodeOf side d (addr s inner) (addr s outer) y.2 (up parent k) :=
    ⟨_, rfl⟩
  rw [← hY'] at h₃
  replace h₃ := h₃.congr (F := pathCells s parent k x.1 +
    ({(y.1, Y')} + ({(x.1, X)} + (treeCells s (some x.1) inner + (S + (N + O)))))) (by ac_rfl)
  refine wp_bind (wp_replace h₃ (n := X) (by simp) (by rw [hX, parent_nodeOf]) hx
    fun m₄ h₄ => ?_)
  -- and the node goes down
  refine wp_bind (h₄.wp_modify (n := Y') (F := {(x.1, X)} + (pathCells s parent k y.1 +
    (treeCells s (some x.1) inner + (S + (N + O))))) (by ac_rfl) fun m₅ h₅ => ?_)
  rw [hY', setChild_nodeOf] at h₅
  refine h₅.wp_modify (n := X) (F := {(y.1, nodeOf side d x.1 (addr s outer) y.2 (up parent k))} +
    (pathCells s parent k y.1 + (treeCells s (some x.1) inner + (S + (N + O))))) (by ac_rfl)
    fun m₆ h₆ => hQ m₆ ?_
  rw [hX, setParent_nodeOf] at h₆
  refine .of_has_plug ?_ h.black
  rw [addr_join, treeCells_join, treeCells_join, addr_join, hN, hO, hS]
  refine h₆.congr ?_
  ac_rfl

end Rotations

end Tqos
