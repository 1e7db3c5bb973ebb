import Tqos.Tserver.RbCells

/-!
# The repair after a deletion

The loop of `rbtree_delete` works on a subtree whose paths have a black node less. The subtree may
be empty; its address is the sentinel's then, and where it is in the tree is known from the parent
field of the sentinel alone. One turn makes the sibling black, and then either hands the missing
node to the parent or puts it right.

## Main results

* `wp_deleteBranch` — one turn of the loop
* `wp_deleteLoop` — the loop ends with a tree that is balanced when it is painted
-/

namespace Tqos

open Heap RedBlack RedBlack.ColorTree

variable {ι : Type}

section Repair

variable {s : ι} {i : RbtreeInsertPt} {sn : RbtreeNode ι} {parent : Option ι} {side : Side}
  {c : Color} {t near far sib : ColorTree (ι × UInt32)} {x w : ι × UInt32}
  {f : Frame (ι × UInt32)}
  {k : List (Frame (ι × UInt32))} {m : Mem (Rbtree ι) ι (RbtreeNode ι)}

/-- Whether both children of the sibling are black. -/
theorem wp_bothBlack {Q : Bool → Mem (Rbtree ι) ι (RbtreeNode ι) → Prop}
    (h : Holds s i sn parent (plug k (join side c near w far)) m)
    (hQ : ∀ r, (r = true ↔ near.color = .black ∧ far.color = .black) → Q r m) :
    Wp (bothBlack (some w.1)) Q m := by
  -- the source reads the left child first
  obtain ⟨l, r, hj, hlr⟩ : ∃ l r, join side c near w far = join .left c l w r ∧
      (near.color = .black ∧ far.color = .black ↔ l.color = .black ∧ r.color = .black) := by
    cases side with
    | left => exact ⟨near, far, rfl, Iff.rfl⟩
    | right => exact ⟨far, near, rfl, and_comm⟩
  rw [hj] at h
  have hl : Holds s i sn parent (plug (⟨.left, c, w, r⟩ :: k) l) m := h
  have hr : Holds s i sn parent (plug (⟨.right, c, w, l⟩ :: k) r) m := h
  refine wp_bind (h.wp_child (wp_bind (hl.wp_isBlack ?_)))
  cases hlc : l.color with
  | red =>
    refine wp_ite_neg Bool.false_ne_true (wp_pure (hQ false ?_))
    rw [hlr, hlc]
    exact ⟨nofun, fun hlr => nomatch hlr.1⟩
  | black =>
    refine wp_ite_pos rfl (wp_bind (h.wp_child_other (hr.wp_isBlack (hQ _ ?_))))
    rw [hlr, hlc]
    cases r.color with
    | red => exact ⟨nofun, fun hlr => nomatch hlr.2⟩
    | black => exact iff_of_true rfl ⟨rfl, rfl⟩

variable [DecidableEq ι]

/-- **The sibling is black** after the first part. -/
theorem wp_deleteRedSibling (h : Holds s i sn parent (plug (⟨side, c, x, sib⟩ :: k) t) m)
    (hs : t = nil → sn.parent = some x.1) (hshort : Short (⟨side, c, x, sib⟩ :: k) t) :
    Wp (deleteRedSibling side (some s) (some (addr s t))) (fun r m' => ∃ c' k' near w far,
      r = some w.1 ∧
      Holds s i sn parent (plug (⟨side, c', x, join side .black near w far⟩ :: k') t) m' ∧
      Short (⟨side, c', x, join side .black near w far⟩ :: k') t ∧
      (plug (⟨side, c', x, join side .black near w far⟩ :: k') t).toList =
        (plug (⟨side, c, x, sib⟩ :: k) t).toList ∧
      (k'.length ≤ k.length ∨ c' = .red)) m := by
  obtain ⟨near, w, far, hsib⟩ := exists_join side hshort.sib_ne_nil
  have hj : Holds s i sn parent (plug k (join side c t x sib)) m := h
  refine wp_bind (h.wp_parent hs (wp_bind (hj.wp_child_other ?_)))
  rw [← plug_join_other] at hj
  refine wp_bind (hj.wp_isRed ?_)
  cases hc : sib.color with
  | black =>
    rw [hc] at hsib
    subst hsib
    refine wp_ite_neg Bool.false_ne_true (wp_pure ⟨c, k, near, w, far, ?_, h, hshort, rfl, ?_⟩)
    · rw [addr_join]
    · exact Or.inl le_rfl
  | red =>
    rw [hc] at hsib
    subst hsib
    rw [addr_join]
    refine wp_ite_pos rfl (wp_bind (hj.wp_rbtBlack_join fun m₁ h₁ => ?_))
    rw [plug_join_other] at h₁
    refine wp_bind (h₁.wp_rbtRed_join fun m₂ h₂ => wp_bind (h₂.wp_rotate fun m₃ h₃ => ?_))
    have h₃' : Holds s i sn parent
        (plug (⟨side, .red, x, near⟩ :: ⟨side, .black, w, far⟩ :: k) t) m₃ := h₃
    have hf₃ : Holds s i sn parent
        (plug (⟨side, .black, w, far⟩ :: k) (join side .red t x near)) m₃ := h₃
    refine wp_bind (h₃'.wp_parent hs (hf₃.wp_child_other ?_))
    obtain ⟨hnil, hblack, -⟩ := hshort.near_ne_nil
    obtain ⟨near', w', far', hnear⟩ := exists_join side hnil
    rw [hblack] at hnear
    refine ⟨.red, ⟨side, .black, w, far⟩ :: k, near', w', far', ?_⟩
    rw [← hnear]
    refine ⟨?_, h₃', hshort.redSibling, toList_plug_congr (toList_rotate ..), Or.inr rfl⟩
    rw [hnear, addr_join]

/-- **The far child of the sibling is red** after the second part. -/
theorem wp_deleteNear
    (h : Holds s i sn parent (plug (⟨side, c, x, join side .black near w far⟩ :: k) t) m)
    (hs : t = nil → sn.parent = some x.1)
    (hshort : Short (⟨side, c, x, join side .black near w far⟩ :: k) t)
    (hred : ¬ (near.color = .black ∧ far.color = .black)) :
    Wp (deleteNear side (some s) (some (addr s t)) (some w.1)) (fun r m' => ∃ near' w' far',
      r = some w'.1 ∧
      Holds s i sn parent (plug (⟨side, c, x, join side .black near' w' far'⟩ :: k) t) m' ∧
      Short (⟨side, c, x, join side .black near' w' far'⟩ :: k) t ∧ far'.color = .red ∧
      (plug (⟨side, c, x, join side .black near' w' far'⟩ :: k) t).toList =
        (plug (⟨side, c, x, join side .black near w far⟩ :: k) t).toList) m := by
  have hw : Holds s i sn parent
      (plug (⟨side.other, c, x, t⟩ :: k) (join side .black near w far)) m := by
    rwa [plug_join_other]
  have hfar := hw
  rw [← plug_join_other] at hfar
  refine wp_bind (hw.wp_child_other (wp_bind (hfar.wp_isBlack ?_)))
  cases hfc : far.color with
  | red => exact wp_ite_neg Bool.false_ne_true (wp_pure ⟨near, w, far, rfl, h, hshort, hfc, rfl⟩)
  | black =>
    have hnc : near.color = .red := by
      cases hnc : near.color with
      | red => rfl
      | black => exact absurd ⟨hnc, hfc⟩ hred
    obtain ⟨u, y, v, hnear⟩ := exists_join side (ne_nil_of_color hnc)
    rw [hnc] at hnear
    subst hnear
    have hn : Holds s i sn parent (plug (⟨side, .black, w, far⟩ :: ⟨side.other, c, x, t⟩ :: k)
      (join side .red u y v)) m := hw
    refine wp_ite_pos rfl (wp_bind (hw.wp_child ?_))
    rw [addr_join]
    refine wp_bind (hn.wp_rbtBlack_join fun m₁ h₁ => ?_)
    have hw₁ : Holds s i sn parent (plug (⟨side.other, c, x, t⟩ :: k)
      (join side .black (join side .black u y v) w far)) m₁ := h₁
    refine wp_bind (hw₁.wp_rbtRed_join fun m₂ h₂ => ?_)
    rw [← join_other, ← join_other side .black] at h₂
    refine wp_bind (h₂.wp_rotate fun m₃ h₃ => ?_)
    rw [join_other, join_other, plug_join_other] at h₃
    have ht₃ : Holds s i sn parent
      (plug (⟨side, c, x, join side .black u y (join side .red v w far)⟩ :: k) t) m₃ := h₃
    refine wp_bind (ht₃.wp_parent hs (h₃.wp_child_other ?_))
    refine ⟨u, y, join side .red v w far, ?_, h₃, hshort.turnNear hfc, color_join,
      toList_turnNear ..⟩
    rw [addr_join]

/-- **One turn of the loop.** -/
theorem wp_deleteBranch (h : Holds s i sn parent (plug (f :: k) t) m)
    (hs : t = nil → sn.parent = some f.val.1) (hshort : Short (f :: k) t)
    (ht : t.color = .black) :
    Wp (deleteBranch f.side (some s) (some (addr s t))) (fun r m' => ∃ k' t',
      r = some (addr s t') ∧ t' ≠ nil ∧ Holds s i sn parent (plug k' t') m' ∧ Short k' t' ∧
      (plug k' t').toList = (plug (f :: k) t).toList ∧
      (k'.length ≤ k.length ∨ t'.color = .red)) m := by
  obtain ⟨side, c, x, sib⟩ := f
  refine wp_bind_of (wp_deleteRedSibling h hs hshort) ?_
  rintro r m₁ ⟨c', k', near, w, far, rfl, h₁, hshort₁, hlist₁, hlen⟩
  have hw : Holds s i sn parent
      (plug (⟨side.other, c', x, t⟩ :: k') (join side .black near w far)) m₁ := by
    rwa [plug_join_other]
  refine wp_bind (wp_bothBlack hw fun r hr => ?_)
  by_cases hblack : near.color = .black ∧ far.color = .black
  · refine wp_ite_pos (hr.mpr hblack) (wp_bind (hw.wp_rbtRed_join fun m₂ h₂ => ?_))
    rw [plug_join_other] at h₂
    have ht₂ : Holds s i sn parent
        (plug (⟨side, c', x, join side .red near w far⟩ :: k') t) m₂ := h₂
    refine ht₂.wp_parent hs ⟨k', join side c' t x (join side .red near w far), ?_, join_ne_nil, h₂,
      hshort₁.blackSibling ht hblack.1 hblack.2, ?_, ?_⟩
    · rw [addr_join]
      rfl
    · rw [← hlist₁, plug_cons, Frame.fill]
      refine toList_plug_congr ?_
      simp only [toList_join]
    · rw [color_join]
      exact hlen
  · refine wp_ite_neg (fun hb => hblack (hr.mp hb)) ?_
    refine wp_bind_of (wp_deleteNear h₁ hs hshort₁ hblack) ?_
    rintro r m₂ ⟨near', w', far', rfl, h₂, hshort₂, hred, hlist₂⟩
    refine wp_bind (h₂.wp_parent hs ?_)
    have hx₂ : Holds s i sn parent
        (plug k' (join side c' t x (join side .black near' w' far'))) m₂ := h₂
    refine wp_bind (hx₂.wp_colorByte ?_)
    rw [← plug_join_other] at hx₂
    refine wp_bind (hx₂.wp_paint_join fun m₃ h₃ => ?_)
    rw [plug_join_other] at h₃
    refine wp_bind (h₃.wp_rbtBlack_join fun m₄ h₄ => ?_)
    rw [← plug_join_other] at h₄
    refine wp_bind (h₄.wp_child_other ?_)
    rw [← plug_join_other] at h₄
    refine wp_bind (h₄.wp_rbtBlack fun m₅ h₅ => ?_)
    rw [plug_join_other, plug_join_other] at h₅
    refine wp_bind (h₅.wp_rotate fun m₆ h₆ => wp_bind (h₆.has.wp_getVars (wp_pure ?_)))
    have hbal := hshort₂.turnFar ht hred
    refine ⟨[], _, rfl, ?_, h₆, short_of_balanced hbal, ?_, Or.inl (Nat.zero_le _)⟩
    · exact plug_ne_nil join_ne_nil
    · rw [← hlist₁, ← hlist₂]
      exact toList_turnFar ..

/-- **The loop ends** with a tree that is balanced when the place where it ended is painted. -/
theorem wp_deleteLoop {fuel : ℕ} (hfuel : k.length < fuel ∨ t.color = .red ∧ 0 < fuel)
    (h : Holds s i sn parent (plug k t) m) (hs : t = nil → sn.parent = up parent k)
    (hshort : Short k t) :
    Wp (deleteLoop (some s) fuel (some (addr s t))) (fun r m' => ∃ k' t',
      r = some (addr s t') ∧ Holds s i sn parent (plug k' t') m' ∧
      (plug k' (t'.paint .black)).Balanced ∧ (plug k' t').toList = (plug k t).toList) m := by
  induction fuel generalizing k t m with
  | zero => omega
  | succ fuel ih =>
    refine wp_bind (h.has.wp_getVars ?_)
    cases k with
    | nil => exact wp_ite_pos rfl (wp_pure ⟨[], t, rfl, h, hshort.done (Or.inl rfl), rfl⟩)
    | cons f k =>
      have hne : ¬ some (addr s t) = some (addr s (plug (f :: k) t)) := by
        rw [addr_plug]
        exact fun heq => h.addr_ne_top (Option.some.inj heq)
      refine wp_ite_neg hne (wp_bind (h.wp_isBlack ?_))
      cases ht : t.color with
      | red =>
        exact wp_ite_pos rfl (wp_pure ⟨f :: k, t, rfl, h, hshort.done (Or.inr ht), rfl⟩)
      | black =>
        refine wp_ite_neg Bool.noConfusion (wp_bind (h.wp_parent hs ?_))
        refine wp_bind (h.wp_left (Or.inr hshort.sib_ne_nil) fun l hl => ?_)
        rw [hl]
        refine wp_bind_of (wp_deleteBranch h hs hshort ht) ?_
        rintro r m' ⟨k', t', rfl, ht', h', hshort', hlist, hlen⟩
        rw [← hlist]
        refine ih ?_ h' (fun hnil => absurd hnil ht') hshort'
        have hlt : (f :: k).length < fuel + 1 :=
          hfuel.resolve_right fun hred => nomatch ht.symm.trans hred.1
        rw [List.length_cons] at hlt
        rcases hlen with hlen | hred
        · exact Or.inl (by omega)
        · exact Or.inr ⟨hred, by omega⟩

end Repair

end Tqos
