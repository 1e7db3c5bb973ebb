import Tqos.Tserver.RbCells

/-!
# Insertion

The loop of `rbtree_insert` moves a red hole up: each of its turns is a recolouring, or a rotation
of the grandparent after one of the parent if need be, and the path to the hole gets shorter until
the parent of the hole is black.

## Main results

* `wp_insertBranch` — one turn of the loop
* `wp_insertLoop` — the loop ends with a balanced tree
* `wp_rbtreeInsert` — `rbtree_insert` puts a node where its key belongs
-/

namespace Tqos

open Heap RedBlack RedBlack.ColorTree

variable {ι : Type} [DecidableEq ι]

section Insert

variable {s : ι} {i : RbtreeInsertPt} {sn : RbtreeNode ι} {parent : Option ι} {side : Side}
  {c : Color} {t u sib : ColorTree (ι × UInt32)} {x z : ι × UInt32} {p g : Frame (ι × UInt32)}
  {k : List (Frame (ι × UInt32))} {m : Mem (Rbtree ι) ι (RbtreeNode ι)}

/-! ## The loop -/

/-- A hole on the inner side is turned outward. -/
theorem wp_insertInward (h : Holds s i sn parent (plug (p :: ⟨side, .black, z, u⟩ :: k) t) m)
    (hhole : RedHole (p :: ⟨side, .black, z, u⟩ :: k) t) (hp : p.color = .red) :
    Wp (insertInward side (some s) (some (addr s t))) (fun r m' => ∃ t' x sib,
      r = some (addr s t') ∧
      Holds s i sn parent (plug (⟨side, .red, x, sib⟩ :: ⟨side, .black, z, u⟩ :: k) t') m' ∧
      RedHole (⟨side, .red, x, sib⟩ :: ⟨side, .black, z, u⟩ :: k) t' ∧
      (plug (⟨side, .red, x, sib⟩ :: ⟨side, .black, z, u⟩ :: k) t').toList =
        (plug (p :: ⟨side, .black, z, u⟩ :: k) t).toList) m := by
  have ht : t ≠ nil := ne_nil_of_color hhole.1
  obtain ⟨pside, pc, x, sib⟩ := p
  obtain rfl : pc = .red := hp
  have hj : Holds s i sn parent
      (plug (⟨side, .black, z, u⟩ :: k) (join pside .red t x sib)) m := h
  refine wp_bind (h.wp_parent (fun hnil => absurd hnil ht) ?_)
  by_cases hside : side = pside
  · subst hside
    have hne : some (addr s t) ≠ some (addr s sib) := fun heq =>
      h.addr_ne_sib ht (Option.some.inj heq)
    refine wp_bind (hj.wp_child_other (wp_ite_neg hne (wp_pure ?_)))
    exact ⟨t, x, sib, rfl, h, hhole, rfl⟩
  · obtain rfl := Side.eq_other hside
    obtain ⟨a, y, b, heq⟩ := exists_join side ht
    rw [hhole.1] at heq
    subst heq
    rw [join_other] at hj
    refine wp_bind (hj.wp_child_other (wp_ite_pos rfl (wp_bind (hj.wp_rotate fun m' h' => ?_))))
    refine wp_pure ⟨join side .red sib x a, y, b, ?_, h', hhole.inward, toList_inward ..⟩
    rw [addr_join]
    rfl

/-- **One turn of the loop.** -/
theorem wp_insertBranch (h : Holds s i sn parent (plug (p :: g :: k) t) m)
    (hhole : RedHole (p :: g :: k) t) (hp : p.color = .red) (hg : g.color = .black) :
    Wp (insertBranch g.side (some s) (some (addr s t))) (fun r m' => ∃ k' t',
      r = some (addr s t') ∧ Holds s i sn parent (plug k' t') m' ∧ RedHole k' t' ∧
      (plug k' t').toList = (plug (p :: g :: k) t).toList ∧ k'.length ≤ k.length + 1) m := by
  have ht : t ≠ nil := ne_nil_of_color hhole.1
  obtain ⟨pside, pc, x, sib⟩ := p
  obtain rfl : pc = .red := hp
  obtain ⟨side, gc, z, u⟩ := g
  obtain rfl : gc = .black := hg
  have hparent : Holds s i sn parent
      (plug (⟨side, .black, z, u⟩ :: k) (join pside .red t x sib)) m := h
  have hgrand : Holds s i sn parent
      (plug k (join side .black (join pside .red t x sib) z u)) m := h
  have huncle {c : Color} {v : ColorTree (ι × UInt32)} :
      plug k (join side .black (join pside c t x sib) z v) =
        plug (⟨side.other, .black, z, join pside c t x sib⟩ :: k) v := by
    rw [plug_cons, Frame.fill, join_other]
  refine wp_bind (h.wp_parent (fun hnil => absurd hnil ht) ?_)
  refine wp_bind (hparent.wp_parent_join ?_)
  refine wp_bind (hgrand.wp_child_other ?_)
  refine wp_bind ((huncle ▸ hgrand).wp_isRed ?_)
  cases hu : u.color with
  | red =>
    refine wp_ite_pos rfl ?_
    refine wp_bind (hparent.wp_rbtBlack_join fun m₁ h₁ => ?_)
    replace h₁ : Holds s i sn parent
      (plug k (join side .black (join pside .black t x sib) z u)) m₁ := h₁
    rw [huncle] at h₁
    refine wp_bind (h₁.wp_rbtBlack fun m₂ h₂ => ?_)
    rw [← huncle] at h₂
    refine wp_bind (h₂.wp_rbtRed_join fun m₃ h₃ => wp_pure ?_)
    refine ⟨k, _, ?_, h₃, hhole.recolor rfl rfl hu, ?_, Nat.le_succ _⟩
    · rw [addr_join]
      rfl
    · exact toList_recolor ⟨pside, .red, x, sib⟩ ⟨side, .black, z, u⟩ k t .red .black
  | black =>
    refine wp_ite_neg Bool.false_ne_true (wp_bind_of (wp_insertInward h hhole rfl) ?_)
    rintro r m₁ ⟨t', x', sib', rfl, h₁, hhole', hlist⟩
    have ht' : t' ≠ nil := ne_nil_of_color hhole'.1
    refine wp_bind (h₁.wp_parent (fun hnil => absurd hnil ht') ?_)
    have hp₁ : Holds s i sn parent
        (plug (⟨side, .black, z, u⟩ :: k) (join side .red t' x' sib')) m₁ := h₁
    refine wp_bind (hp₁.wp_rbtBlack_join fun m₂ h₂ => ?_)
    refine wp_bind (h₂.wp_parent_join ?_)
    have hg₂ : Holds s i sn parent
        (plug k (join side .black (join side .black t' x' sib') z u)) m₂ := h₂
    refine wp_bind (hg₂.wp_rbtRed_join fun m₃ h₃ => ?_)
    rw [← join_other, ← join_other side .black] at h₃
    refine wp_bind (h₃.wp_rotate fun m₄ h₄ => wp_pure ?_)
    rw [join_other, join_other] at h₄
    refine ⟨⟨side, .black, x', join side .red sib' z u⟩ :: k, t', rfl, h₄, hhole'.outward hu, ?_,
      ?_⟩
    · rw [toList_outward, hlist]
    · exact le_rfl

/-- **The loop ends with a balanced tree.** -/
theorem wp_insertLoop {fuel : ℕ} (hfuel : k.length < fuel) (h : Holds s i sn parent (plug k t) m)
    (hhole : RedHole k t) :
    Wp (insertLoop (some s) fuel (some (addr s t))) (fun _ m' => ∃ u,
      Holds s i sn parent u m' ∧ (u.paint .black).Balanced ∧
      u.toList = (plug k t).toList) m := by
  induction fuel generalizing k t m with
  | zero => exact absurd hfuel (Nat.not_lt_zero _)
  | succ fuel ih =>
    have ht : t ≠ nil := ne_nil_of_color hhole.1
    refine wp_bind (h.has.wp_getVars ?_)
    cases k with
    | nil => exact wp_ite_pos rfl (wp_pure ⟨t, h, hhole.root, rfl⟩)
    | cons p k =>
      have hne : ¬ some (addr s t) = some (addr s (plug (p :: k) t)) := by
        rw [addr_plug]
        exact fun heq => h.addr_ne_top (Option.some.inj heq)
      refine wp_ite_neg hne (wp_bind (h.wp_parent (fun hnil => absurd hnil ht) ?_))
      have hparent : Holds s i sn parent (plug k (join p.side p.color t p.val p.sib)) m := h
      refine wp_bind (hparent.wp_isRed_join ?_)
      cases hp : p.color with
      | black =>
        have hbal := hhole.done hp
        refine wp_ite_pos rfl (wp_pure ⟨plug (p :: k) t, h, ?_, rfl⟩)
        rwa [paint_of_color hbal.1]
      | red =>
        obtain ⟨g, k, rfl, hg⟩ := hhole.exists_grand hp
        have hnode : join p.side p.color t p.val p.sib ≠ nil := join_ne_nil
        refine wp_ite_neg Bool.noConfusion (wp_bind (hparent.wp_parent_join ?_))
        refine wp_bind (hparent.wp_left (Or.inl hnode) fun l hl => ?_)
        rw [addr_join] at hl
        rw [up, hl]
        refine wp_bind_of (wp_insertBranch h hhole hp hg) ?_
        rintro r m' ⟨k', t', rfl, h', hhole', hlist, hlen⟩
        rw [← hlist]
        rw [List.length_cons, List.length_cons] at hfuel
        exact ih (by omega) h' hhole'

/-! ## The place of a new node -/

/-- The comparison of `tree->insert`. -/
def RbtreeInsertPt.less : RbtreeInsertPt → UInt32 → UInt32 → Bool
  | .rbtreeInsertValue => fun key key' => decide (key < key')
  | .rbtreeInsertTimerValue => timerLess

/-- A path that turns as a comparison says. -/
def Turns (less : UInt32 → UInt32 → Bool) (key : UInt32) (k : List (Frame (ι × UInt32))) : Prop :=
  ∀ f ∈ k, f.side = if less key f.val.2 then .left else .right

section Place

variable {less : UInt32 → UInt32 → Bool} {a : ι} {n : RbtreeNode ι} {v : Rbtree ι} {fuel : ℕ}

/-- **The free place** is at the end of a path that turns as the comparisons say. -/
theorem wp_insertPlace
    (h : m.Has v ({(a, n)} + ({(s, sn)} + treeCells s parent (plug k t)))) (ht : t ≠ nil)
    (hfuel : t.toList.length ≤ fuel) (hk : Turns less n.key k) :
    Wp (insertPlace less (some a) (some s) fuel (some (addr s t))) (fun r m' => m' = m ∧
      ∃ f k', r = (some f.val.1, f.side) ∧ plug (f :: k') nil = plug k t ∧
        Turns less n.key (f :: k')) m := by
  induction fuel generalizing k t with
  | zero => exact absurd hfuel (Nat.not_le.mpr (length_toList_pos ht))
  | succ fuel ih =>
    obtain ⟨l, x, r, heq⟩ := exists_join .left ht
    -- both sides of the node are named from the side where the path goes on
    obtain ⟨side, hside⟩ : ∃ side, side = if less n.key x.2 then Side.left else .right := ⟨_, rfl⟩
    obtain ⟨near, far, hjoin⟩ : ∃ near far, t = join side t.color near x far := by
      cases side with
      | left => exact ⟨l, r, heq⟩
      | right => exact ⟨r, l, heq⟩
    have hcells := h
    rw [hjoin, treeCells_plug, treeCells_join] at hcells
    rw [hjoin, addr_join]
    refine wp_bind (hcells.wp_field (n := n) (by simp) ?_)
    refine wp_bind (hcells.wp_field
      (n := nodeOf side t.color (addr s near) (addr s far) x.2 (up parent k)) (by simp) ?_)
    rw [key_nodeOf, ← hside]
    refine wp_bind (hcells.wp_field
      (n := nodeOf side t.color (addr s near) (addr s far) x.2 (up parent k)) (by simp) ?_)
    rw [child_nodeOf]
    have hturns : Turns less n.key (⟨side, t.color, x, far⟩ :: k) :=
      List.forall_mem_cons.mpr ⟨hside, hk⟩
    by_cases hnear : near = nil
    · subst hnear
      exact wp_ite_pos rfl (wp_pure ⟨rfl, ⟨side, t.color, x, far⟩, k, rfl, rfl, hturns⟩)
    · rw [hjoin] at h
      have hpath : m.Has v ({(a, n)} + ({(s, sn)} +
          treeCells s parent (plug (⟨side, t.color, x, far⟩ :: k) near))) := h
      have hne := addr_ne_of_has hpath hnear
      refine wp_ite_neg (fun hs => hne (Option.some.inj hs)) ?_
      have hlen : near.toList.length < t.toList.length := by
        rw [hjoin, toList_join]
        cases side with
        | left =>
          simp only [List.length_append, List.length_cons]
          omega
        | right =>
          simp only [List.length_append, List.length_cons]
          omega
      exact ih hpath hnear (by omega) hturns

/-- **A new leaf.** -/
theorem wp_insertLeaf
    (h : m.Has ⟨some (addr s t), some s, i⟩ ({(a, n)} + ({(s, sn)} + treeCells s parent t)))
    (hblack : sn.color = 0) (ht : t ≠ nil) (hfuel : t.toList.length ≤ fuel) :
    Wp (insertLeaf less fuel (some (addr s t)) (some a) (some s)) (fun _ m' => ∃ k,
      plug k nil = t ∧ Turns less n.key k ∧
      Holds s i sn parent (plug k (node .red nil (a, n.key) nil)) m') m := by
  refine wp_bind_of (wp_insertPlace (k := []) h ht hfuel nofun) ?_
  rintro r m' ⟨rfl, f, k, rfl, hplug, hturns⟩
  rw [plug] at hplug
  rw [← hplug, treeCells_plug, addr_plug, pathCells, treeCells, add_zero] at h
  obtain ⟨A, hA⟩ : ∃ A : Multiset (ι × RbtreeNode ι), A = {(a, n)} := ⟨_, rfl⟩
  refine wp_bind (h.wp_modify (a := f.val.1)
    (n := nodeOf f.side f.color s (addr s f.sib) f.val.2 (up parent k))
    (F := {(a, n)} + ({(s, sn)} + (treeCells s (some f.val.1) f.sib +
      pathCells s parent k f.val.1))) (by rw [addr]; ac_rfl) fun m₁ h₁ => ?_)
  rw [setChild_nodeOf] at h₁
  refine h₁.wp_modify (add_left_comm _ _ _) fun m₂ h₂ => ⟨f :: k, hplug, hturns, ?_⟩
  refine .of_has_plug ?_ hblack
  refine h₂.congr ?_
  have hnode : ({ n with parent := some f.val.1, left := some s, right := some s, color := 1 } :
      RbtreeNode ι) = nodeOf .left .red s s n.key (some f.val.1) := rfl
  simp only [hnode, treeCells, pathCells, addr, add_zero, up]
  ac_rfl

/-- **`rbtree_insert`** puts the node where its key belongs, and the tree is balanced again. -/
theorem wp_rbtreeInsert
    (h : m.Has ⟨some (addr s t), some s, i⟩ ({(a, n)} + ({(s, sn)} + treeCells s parent t)))
    (hblack : sn.color = 0) (ht : t.Balanced) (hfuel : t.toList.length < fuel) :
    Wp (rbtreeInsert fuel (some a)) (fun _ m' => ∃ k parent' u,
      plug k nil = t ∧ Turns i.less n.key k ∧ Holds s i sn parent' u m' ∧ u.Balanced ∧
      u.toList = before k ++ (a, n.key) :: after k) m := by
  refine wp_bind (h.wp_getVars ?_)
  by_cases hnil : t = nil
  · subst hnil
    refine wp_ite_pos rfl (wp_bind (h.wp_modify rfl fun m₁ h₁ => ?_))
    refine h₁.wp_modifyVars fun m₂ h₂ => ?_
    refine ⟨[], none, node .black nil (a, n.key) nil, rfl, nofun, ⟨?_, hblack⟩, ?_, rfl⟩
    · refine h₂.congr ?_
      have hnode : ({ n with parent := none, left := some s, right := some s, color := 0 } :
          RbtreeNode ι) = nodeOf .left .black s s n.key none := rfl
      simp only [hnode, treeCells, addr, add_zero]
      ac_rfl
    · exact ⟨rfl, 1, 0, rfl, rfl, rfl⟩
  · have hpath : m.Has _ ({(a, n)} + ({(s, sn)} + treeCells s parent (plug [] t))) := h
    have hne := addr_ne_of_has hpath hnil
    refine wp_ite_neg (fun hs => hne (Option.some.inj hs)) ?_
    have hcall : i.call fuel (some (addr s t)) (some a) (some s) =
        insertLeaf i.less fuel (some (addr s t)) (some a) (some s) := by
      cases i <;> rfl
    rw [hcall]
    refine wp_bind_of (wp_insertLeaf h hblack hnil hfuel.le) ?_
    rintro - m₁ ⟨k, rfl, hturns, h₁⟩
    have hlen := length_le_length_toList k nil
    refine wp_bind_of (wp_insertLoop (hlen.trans_lt hfuel) h₁ (redHole_leaf ht (a, n.key))) ?_
    rintro - m₂ ⟨u, h₂, hu, hlist⟩
    refine wp_bind (h₂.has.wp_getVars ?_)
    have hroot : Holds s i sn parent (plug [] u) m₂ := h₂
    refine hroot.wp_rbtBlack fun m₃ h₃ => ⟨k, parent, u.paint .black, rfl, hturns, h₃, hu, ?_⟩
    rw [toList_paint, hlist, toList_plug]
    rfl

end Place

end Insert

end Tqos
