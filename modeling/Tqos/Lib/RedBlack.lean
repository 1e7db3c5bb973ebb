import Mathlib.Data.List.Basic
import Mathlib.Order.Lattice

/-!
# Red-black trees

Insertion and deletion in a red-black tree repair it on the way up. The place of the repair is a
subtree with the path to it, innermost step first: a *zipper*. The steps come in mirror images, and
a side is a parameter of everything here.

`RedHole k t` says that all is well in `plug k t` except that the red root of `t` may have a red
parent, and `Short k t` that all is well except that the paths through `t` have a black node less.
Every step of a repair keeps the one or the other, and the order of the elements.

## Main results

* `rb_iff` — `Rb` in terms of the nodes and the paths
* `balanced_plug`, `exists_fits` — a tree is balanced if its subtree and the path to it are
* `RedHole.recolor`, `RedHole.inward`, `RedHole.outward` — the repair after an insertion
* `Short.redSibling`, `Short.blackSibling`, `Short.turnNear`,
  `Short.turnFar` — the repair after a deletion
-/

namespace Tqos

namespace RedBlack

/-! ## Trees -/

/-- The sides of a node. -/
inductive Side
  | left
  | right
deriving DecidableEq, Repr

/-- The colours of a node. -/
inductive Color
  | red
  | black
deriving DecidableEq, Repr

/-- The other side. -/
def Side.other : Side → Side
  | left => right
  | right => left

@[simp] theorem Side.other_other (side : Side) : side.other.other = side := by cases side <;> rfl

theorem Side.eq_other {side side' : Side} (h : side ≠ side') : side' = side.other := by
  cases side <;> cases side' <;> first | rfl | exact absurd rfl h

/-- Trees with coloured nodes. -/
inductive ColorTree (α : Type)
  | nil
  | node (c : Color) (l : ColorTree α) (a : α) (r : ColorTree α)

variable {α : Type}

namespace ColorTree

/-- The elements in order. -/
def toList : ColorTree α → List α
  | nil => []
  | node _ l a r => l.toList ++ a :: r.toList

/-- The colour of the root. No node is black. -/
def color : ColorTree α → Color
  | nil => .black
  | node c _ _ _ => c

/-- The root is coloured. -/
def paint (c : Color) : ColorTree α → ColorTree α
  | nil => nil
  | node _ l a r => node c l a r

/-- A node whose subtree on a side is `near`. -/
def join (side : Side) (c : Color) (near : ColorTree α) (a : α) (far : ColorTree α) : ColorTree α :=
  match side with
  | .left => node c near a far
  | .right => node c far a near

/-- How many black nodes are on the paths, from left to right. -/
def paths : ColorTree α → List ℕ
  | nil => [0]
  | node c l _ r => (l.paths ++ r.paths).map fun n => if c = .black then n + 1 else n

/-- No red node has a red child. -/
def NoRedRed : ColorTree α → Prop
  | nil => True
  | node c l _ r =>
    (c = .red → l.color = .black ∧ r.color = .black) ∧ l.NoRedRed ∧ r.NoRedRed

/-- No red node has a red child, and there are `n` black nodes on every path. -/
def Rb : ColorTree α → ℕ → Prop
  | nil, n => n = 0
  | node .red l _ r, n => l.color = .black ∧ r.color = .black ∧ l.Rb n ∧ r.Rb n
  | node .black l _ r, n => ∃ m, n = m + 1 ∧ l.Rb m ∧ r.Rb m

/-- A red-black tree. -/
def Balanced (t : ColorTree α) : Prop := t.color = .black ∧ ∃ n, t.Rb n

section Lemmas

variable {side : Side} {c c' : Color} {near far l r t : ColorTree α} {a : α} {n : ℕ}

theorem join_other (side : Side) (c : Color) (near : ColorTree α) (a : α) (far : ColorTree α) :
    join side.other c far a near = join side c near a far := by
  cases side <;> rfl

@[simp] theorem color_join : (join side c near a far).color = c := by cases side <;> rfl

@[simp] theorem paint_join : (join side c near a far).paint c' = join side c' near a far := by
  cases side <;> rfl

@[simp] theorem paint_color : t.paint t.color = t := by cases t <;> rfl

theorem paint_of_color (h : t.color = c) : t.paint c = t := by rw [← h, paint_color]

theorem join_ne_nil : join side c near a far ≠ nil := by cases side <;> exact nofun

/-- A tree that is not empty has a root with two subtrees, named from either side. -/
theorem exists_join (side : Side) (h : t ≠ nil) :
    ∃ near a far, t = join side t.color near a far := by
  cases t with
  | nil => exact absurd rfl h
  | node c l a r =>
    cases side with
    | left => exact ⟨l, a, r, rfl⟩
    | right => exact ⟨r, a, l, rfl⟩

theorem length_toList_pos (h : t ≠ nil) : 0 < t.toList.length := by
  cases t with
  | nil => exact absurd rfl h
  | node c l a r =>
    rw [toList, List.length_append, List.length_cons]
    omega

theorem ne_nil_of_color (h : t.color = .red) : t ≠ nil := by
  rintro rfl
  cases h

@[simp] theorem rb_nil : (nil : ColorTree α).Rb n ↔ n = 0 := Iff.rfl

theorem rb_join_red : (join side .red near a far).Rb n ↔
    near.color = .black ∧ far.color = .black ∧ near.Rb n ∧ far.Rb n := by
  cases side with
  | left => exact Iff.rfl
  | right =>
    constructor
    · rintro ⟨hf, hn, hfar, hnear⟩
      exact ⟨hn, hf, hnear, hfar⟩
    · rintro ⟨hn, hf, hnear, hfar⟩
      exact ⟨hf, hn, hfar, hnear⟩

theorem rb_join_black : (join side .black near a far).Rb n ↔
    ∃ m, n = m + 1 ∧ near.Rb m ∧ far.Rb m := by
  cases side with
  | left => exact Iff.rfl
  | right => exact exists_congr fun m => and_congr_right fun _ => and_comm

theorem rb_join_black_succ : (join side .black near a far).Rb (n + 1) ↔ near.Rb n ∧ far.Rb n := by
  rw [rb_join_black]
  constructor
  · rintro ⟨m, hm, h⟩
    rwa [Nat.succ.inj hm]
  · exact fun h => ⟨n, rfl, h⟩

/-- A red root can be painted black. -/
theorem Rb.paint_black (h : t.Rb n) (hc : t.color = .red) : (t.paint .black).Rb (n + 1) := by
  cases t with
  | nil => cases hc
  | node c l a r =>
    obtain rfl : c = .red := hc
    exact ⟨n, rfl, h.2.2⟩

theorem Rb.ne_nil (h : t.Rb (n + 1)) : t ≠ nil := by
  rintro rfl
  cases h

theorem paths_ne_nil (t : ColorTree α) : t.paths ≠ [] := by
  induction t with
  | nil => exact List.cons_ne_nil _ _
  | node c l a r ihl _ => simp [paths, ihl]

/-- **What a red-black tree is.** -/
theorem rb_iff : t.Rb n ↔ t.NoRedRed ∧ ∀ p ∈ t.paths, p = n := by
  induction t generalizing n with
  | nil => simp [Rb, NoRedRed, paths, eq_comm]
  | node c l a r ihl ihr =>
    cases c with
    | red =>
      simp only [Rb, NoRedRed, paths, ihl, ihr, List.map_id', reduceCtorEq, if_false,
        List.mem_append, or_imp, forall_and, forall_const]
      tauto
    | black =>
      simp only [Rb, NoRedRed, paths, ihl, ihr, reduceCtorEq, if_true, List.mem_map,
        List.mem_append, forall_exists_index, and_imp, forall_apply_eq_imp_iff₂, false_imp_iff, true_and]
      constructor
      · rintro ⟨m, rfl, ⟨hl, hpl⟩, hr, hpr⟩
        refine ⟨⟨hl, hr⟩, ?_⟩
        rintro p (hp | hp)
        · rw [hpl p hp]
        · rw [hpr p hp]
      · rintro ⟨⟨hl, hr⟩, hp⟩
        obtain ⟨m, hm⟩ := List.exists_mem_of_ne_nil _ l.paths_ne_nil
        obtain rfl := hp m (Or.inl hm)
        refine ⟨m, rfl, ⟨hl, fun p h => ?_⟩, hr, fun p h => ?_⟩
        · exact Nat.succ.inj (hp p (Or.inl h))
        · exact Nat.succ.inj (hp p (Or.inr h))

end Lemmas

end ColorTree

open ColorTree

/-! ## Zippers -/

/-- A step of a path: the node, the side that the path takes there, and the subtree on the other. -/
structure Frame (α : Type) where
  side : Side
  color : Color
  val : α
  sib : ColorTree α

/-- The node with the subtree that the path comes to. -/
def Frame.fill (f : Frame α) (t : ColorTree α) : ColorTree α := join f.side f.color t f.val f.sib

/-- The step to the other side. -/
def Frame.swap (f : Frame α) (t : ColorTree α) : Frame α := ⟨f.side.other, f.color, f.val, t⟩

/-- The whole tree. -/
def plug : List (Frame α) → ColorTree α → ColorTree α
  | [], t => t
  | f :: k, t => plug k (f.fill t)

theorem plug_ne_nil {k : List (Frame α)} {t : ColorTree α} (h : t ≠ nil) : plug k t ≠ nil := by
  induction k generalizing t with
  | nil => exact h
  | cons f k ih => exact ih join_ne_nil

/-- What comes before the subtree. -/
def before : List (Frame α) → List α
  | [] => []
  | f :: k =>
    match f.side with
    | .left => before k
    | .right => before k ++ (f.sib.toList ++ [f.val])

/-- What comes after the subtree. -/
def after : List (Frame α) → List α
  | [] => []
  | f :: k =>
    match f.side with
    | .left => f.val :: f.sib.toList ++ after k
    | .right => after k

/-- The path to a subtree of colour `c` with `n` black nodes on its paths, in a balanced tree. -/
def Fits : List (Frame α) → ℕ → Color → Prop
  | [], _, c => c = .black
  | f :: k, n, c =>
    match f.color with
    | .red => c = .black ∧ f.sib.color = .black ∧ f.sib.Rb n ∧ Fits k n .red
    | .black => f.sib.Rb n ∧ Fits k (n + 1) .black

section Zipper

variable {k : List (Frame α)} {f : Frame α} {t t' : ColorTree α} {n : ℕ} {c : Color}

theorem plug_cons (f : Frame α) (k : List (Frame α)) (t : ColorTree α) :
    plug (f :: k) t = plug k (f.fill t) := rfl

theorem plug_append (k k' : List (Frame α)) (t : ColorTree α) :
    plug (k ++ k') t = plug k' (plug k t) := by
  induction k generalizing t with
  | nil => rfl
  | cons f k ih => exact ih (f.fill t)

/-- The same tree, looked at from the other side of a node. -/
theorem plug_swap (f : Frame α) (k : List (Frame α)) (t : ColorTree α) :
    plug (f.swap t :: k) f.sib = plug (f :: k) t := by
  rw [plug_cons, plug_cons, Frame.fill, Frame.swap, join_other, Frame.fill]

theorem plug_join_other (side : Side) (c : Color) (t : ColorTree α) (a : α) (sib : ColorTree α)
    (k : List (Frame α)) :
    plug (⟨side.other, c, a, t⟩ :: k) sib = plug k (join side c t a sib) := by
  rw [plug_cons, Frame.fill, join_other]

theorem before_append (k k' : List (Frame α)) : before (k ++ k') = before k' ++ before k := by
  induction k with
  | nil => exact (List.append_nil _).symm
  | cons f k ih =>
    obtain ⟨side, c, a, sib⟩ := f
    cases side with
    | left => exact ih
    | right =>
      show before (k ++ k') ++ _ = before k' ++ (before k ++ _)
      rw [ih, List.append_assoc]

theorem toList_plug (k : List (Frame α)) (t : ColorTree α) :
    (plug k t).toList = before k ++ (t.toList ++ after k) := by
  induction k generalizing t with
  | nil => simp [plug, before, after]
  | cons f k ih =>
    obtain ⟨side, c, a, sib⟩ := f
    rw [plug_cons, ih]
    cases side <;> simp [Frame.fill, join, toList, before, after]

/-- The nodes of a path are among the elements. -/
theorem val_mem_of_mem (hf : f ∈ k) : f.val ∈ before k ++ after k := by
  induction k with
  | nil => cases hf
  | cons g k ih =>
    obtain ⟨side, c, a, sib⟩ := g
    rcases List.mem_cons.mp hf with rfl | hf
    · cases side <;> simp [before, after]
    · have hmem := ih hf
      rw [List.mem_append] at hmem
      cases side with
      | left =>
        rcases hmem with h | h
        · exact List.mem_append_left _ h
        · exact List.mem_append_right _ (List.mem_append_right _ h)
      | right =>
        rcases hmem with h | h
        · exact List.mem_append_left _ (List.mem_append_left _ h)
        · exact List.mem_append_right _ h

/-- Only the elements of the subtree matter. -/
theorem toList_plug_congr (h : t.toList = t'.toList) : (plug k t).toList = (plug k t').toList := by
  rw [toList_plug, toList_plug, h]

/-- **A rotation** keeps the order. -/
theorem toList_rotate (side : Side) (c c' d d' : Color) (near inner outer : ColorTree α) (x y : α) :
    (join side c' (join side c near x inner) y outer).toList =
      (join side d near x (join side d' inner y outer)).toList := by
  cases side <;> simp [join, toList]

@[simp] theorem toList_paint (c : Color) (t : ColorTree α) : (t.paint c).toList = t.toList := by
  cases t <;> rfl

/-- The elements of a node, whatever its colour. -/
theorem toList_join (side : Side) (c : Color) (near far : ColorTree α) (a : α) :
    (join side c near a far).toList =
      match side with
      | .left => near.toList ++ a :: far.toList
      | .right => far.toList ++ a :: near.toList := by
  cases side <;> rfl

/-- Where a red subtree fits, a black one does. -/
theorem Fits.black (h : Fits k n c) : Fits k n .black := by
  cases k with
  | nil => rfl
  | cons f k =>
    obtain ⟨side, d, a, sib⟩ := f
    cases d with
    | red => exact ⟨rfl, h.2⟩
    | black => exact h

/-- The elements on a path do not matter. -/
theorem fits_append_cons (k k' : List (Frame α)) (side : Side) (d : Color) (x y : α)
    (sib : ColorTree α) :
    Fits (k ++ ⟨side, d, x, sib⟩ :: k') n c ↔ Fits (k ++ ⟨side, d, y, sib⟩ :: k') n c := by
  induction k generalizing n c with
  | nil => cases d <;> exact Iff.rfl
  | cons f k ih =>
    obtain ⟨fside, e, a, u⟩ := f
    cases e with
    | red => exact and_congr_right fun _ => and_congr_right fun _ => and_congr_right fun _ => ih
    | black => exact and_congr_right fun _ => ih

/-- Where an element is in a tree. -/
theorem exists_plug_of_mem {a : α} (h : a ∈ t.toList) : ∃ k c l r, t = plug k (node c l a r) := by
  induction t with
  | nil => cases h
  | node c l b r ihl ihr =>
    rcases List.mem_append.mp h with h | h
    · obtain ⟨k, d, u, v, rfl⟩ := ihl h
      refine ⟨k ++ [⟨.left, c, b, r⟩], d, u, v, ?_⟩
      rw [plug_append]
      rfl
    · rcases List.mem_cons.mp h with rfl | h
      · exact ⟨[], c, l, r, rfl⟩
      · obtain ⟨k, d, u, v, rfl⟩ := ihr h
        refine ⟨k ++ [⟨.right, c, b, l⟩], d, u, v, ?_⟩
        rw [plug_append]
        rfl

/-- **A tree is balanced if its parts are.** -/
theorem balanced_plug (ht : t.Rb n) (h : Fits k n t.color) : (plug k t).Balanced := by
  induction k generalizing t n with
  | nil => exact ⟨h, n, ht⟩
  | cons f k ih =>
    obtain ⟨side, d, a, sib⟩ := f
    rw [plug_cons]
    cases d with
    | red =>
      obtain ⟨hc, hsc, hs, hk⟩ := h
      exact ih (rb_join_red.mpr ⟨hc, hsc, ht, hs⟩) (by rwa [Frame.fill, color_join])
    | black =>
      obtain ⟨hs, hk⟩ := h
      exact ih (rb_join_black_succ.mpr ⟨ht, hs⟩) (by rwa [Frame.fill, color_join])

/-- **The parts of a balanced tree.** -/
theorem exists_fits (h : (plug k t).Balanced) : ∃ n, t.Rb n ∧ Fits k n t.color := by
  induction k generalizing t with
  | nil =>
    obtain ⟨hc, n, hn⟩ := h
    exact ⟨n, hn, hc⟩
  | cons f k ih =>
    obtain ⟨side, d, a, sib⟩ := f
    obtain ⟨n, hn, hk⟩ := ih h
    rw [Frame.fill] at hn hk
    rw [color_join] at hk
    cases d with
    | red =>
      obtain ⟨hc, hsc, ht, hs⟩ := rb_join_red.mp hn
      exact ⟨n, ht, hc, hsc, hs, hk⟩
    | black =>
      obtain ⟨m, rfl, ht, hs⟩ := rb_join_black.mp hn
      exact ⟨m, ht, hs, hk⟩

/-- A path is not longer than the tree is large. -/
theorem length_le_length_toList (k : List (Frame α)) (t : ColorTree α) :
    k.length ≤ (plug k t).toList.length := by
  induction k generalizing t with
  | nil => exact Nat.zero_le _
  | cons f k ih =>
    have hbetween : (before k).length + (after k).length < (before (f :: k)).length +
        (after (f :: k)).length := by
      obtain ⟨side, c, a, sib⟩ := f
      cases side with
      | left =>
        simp only [before, after, List.length_append, List.length_cons]
        omega
      | right =>
        simp only [before, after, List.length_append, List.length_singleton]
        omega
    have hk := ih nil
    rw [toList_plug] at hk ⊢
    simp only [toList, List.length_append, List.length_nil, List.length_cons] at hk ⊢
    omega

end Zipper

/-! ## Where an element belongs -/

section Order

variable {β : Type} [LinearOrder β] {rank : α → β} {k : List (Frame α)} {t : ColorTree α} {x : α}

/-- At every node, the path goes to the side where the element belongs, and to the right when it
could be either. -/
def Follows (rank : α → β) (x : α) (k : List (Frame α)) : Prop :=
  ∀ f ∈ k, f.side = if rank x < rank f.val then .left else .right

/-- In a tree in order, what is left of such a path is not above the element, and what is right of
it is. -/
theorem between_of_follows (ht : (plug k t).toList.Pairwise fun a b => rank a ≤ rank b)
    (hk : Follows rank x k) :
    (∀ b ∈ before k, rank b ≤ rank x) ∧ ∀ a ∈ after k, rank x < rank a := by
  induction k generalizing t with
  | nil => exact ⟨nofun, nofun⟩
  | cons f k ih =>
    obtain ⟨hf, hk⟩ := List.forall_mem_cons.mp hk
    obtain ⟨hbefore, hafter⟩ := ih ht hk
    have hnode : (f.fill t).toList.Pairwise fun a b => rank a ≤ rank b := by
      rw [plug_cons, toList_plug] at ht
      exact (List.pairwise_append.mp (List.pairwise_append.mp ht).2.1).1
    obtain ⟨side, c, a, sib⟩ := f
    cases side with
    | left =>
      have hlt : rank x < rank a := by
        by_contra hnot
        rw [if_neg hnot] at hf
        cases hf
      have hsib := (List.pairwise_cons.mp (List.pairwise_append.mp hnode).2.1).1
      refine ⟨hbefore, fun b hb => ?_⟩
      rcases List.mem_append.mp hb with hb | hb
      · rcases List.mem_cons.mp hb with rfl | hb
        · exact hlt
        · exact hlt.trans_le (hsib b hb)
      · exact hafter b hb
    | right =>
      have hle : rank a ≤ rank x := by
        by_contra hnot
        rw [if_pos (not_le.mp hnot)] at hf
        cases hf
      have hsib := (List.pairwise_append.mp hnode).2.2
      refine ⟨fun b hb => ?_, hafter⟩
      rcases List.mem_append.mp hb with hb | hb
      · exact hbefore b hb
      · rcases List.mem_append.mp hb with hb | hb
        · exact (hsib b hb a List.mem_cons_self).trans hle
        · rwa [List.mem_singleton.mp hb]

end Order

/-! ## After an insertion -/

/-- All is well, except that the root of the subtree is red and may have a red parent. -/
def RedHole (k : List (Frame α)) (t : ColorTree α) : Prop :=
  t.color = .red ∧ ∃ n, t.Rb n ∧ Fits k n .black

section Insertion

variable {k : List (Frame α)} {p g f : Frame α} {t : ColorTree α}

/-- A new red leaf. -/
theorem redHole_leaf (h : (plug k nil).Balanced) (a : α) : RedHole k (node .red nil a nil) := by
  obtain ⟨n, rfl, hk⟩ := exists_fits h
  exact ⟨rfl, 0, ⟨rfl, rfl, rfl, rfl⟩, hk⟩

/-- At the root the repair is a matter of paint. -/
theorem RedHole.root (h : RedHole [] t) : (t.paint .black).Balanced := by
  obtain ⟨hc, n, ht, -⟩ := h
  refine ⟨?_, n + 1, ht.paint_black hc⟩
  cases t <;> rfl

/-- Under a black parent there is nothing to repair. -/
theorem RedHole.done (h : RedHole (f :: k) t) (hf : f.color = .black) :
    (plug (f :: k) t).Balanced := by
  obtain ⟨hc, n, ht, hk⟩ := h
  obtain ⟨side, d, a, sib⟩ := f
  obtain rfl : d = .black := hf
  exact balanced_plug ht hk

/-- A red parent has a black parent. -/
theorem RedHole.exists_grand (h : RedHole (p :: k) t) (hp : p.color = .red) :
    ∃ g k', k = g :: k' ∧ g.color = .black := by
  obtain ⟨-, n, -, hk⟩ := h
  obtain ⟨side, d, a, sib⟩ := p
  obtain rfl : d = .red := hp
  obtain ⟨-, -, -, hk⟩ := hk
  cases k with
  | nil => cases hk
  | cons g k' =>
    obtain ⟨side', d', b, sib'⟩ := g
    cases d' with
    | red => exact absurd hk.1 (by decide)
    | black => exact ⟨_, _, rfl, rfl⟩

/-- **A red uncle**: the grandparent takes the red. -/
theorem RedHole.recolor (h : RedHole (p :: g :: k) t) (hp : p.color = .red)
    (hg : g.color = .black) (hu : g.sib.color = .red) :
    RedHole k (join g.side .red (join p.side .black t p.val p.sib) g.val (g.sib.paint .black)) := by
  obtain ⟨-, n, ht, hk⟩ := h
  obtain ⟨side, d, a, sib⟩ := p
  obtain ⟨side', d', b, sib'⟩ := g
  obtain rfl : d = .red := hp
  obtain rfl : d' = .black := hg
  obtain ⟨-, -, hs, hu', hk⟩ := hk
  refine ⟨color_join, n + 1, rb_join_red.mpr ⟨color_join, ?_, ?_, hu'.paint_black hu⟩, hk⟩
  · cases sib' <;> rfl
  · exact rb_join_black_succ.mpr ⟨ht, hs⟩

theorem toList_recolor (p g : Frame α) (k : List (Frame α)) (t : ColorTree α) (c d : Color) :
    (plug k (join g.side c (join p.side d t p.val p.sib) g.val (g.sib.paint .black))).toList =
      (plug (p :: g :: k) t).toList := by
  rw [plug_cons, plug_cons]
  refine toList_plug_congr ?_
  rw [Frame.fill, Frame.fill]
  simp only [toList_join, toList_paint]

/-- **A turn** at the parent, when the path changes sides there. -/
theorem RedHole.inward {side : Side} {a b s u : ColorTree α} {x y z : α}
    (h : RedHole (⟨side.other, .red, x, s⟩ :: ⟨side, .black, z, u⟩ :: k) (join side .red a y b)) :
    RedHole (⟨side, .red, y, b⟩ :: ⟨side, .black, z, u⟩ :: k) (join side .red s x a) := by
  obtain ⟨-, n, ht, -, hsc, hs, hk⟩ := h
  obtain ⟨hac, hbc, ha, hb⟩ := rb_join_red.mp ht
  exact ⟨color_join, n, rb_join_red.mpr ⟨hsc, hac, hs, ha⟩, rfl, hbc, hb, hk⟩

theorem toList_inward (side : Side) (k : List (Frame α)) (a b s : ColorTree α) (x y : α) :
    (plug (⟨side, .red, y, b⟩ :: k) (join side .red s x a)).toList =
      (plug (⟨side.other, .red, x, s⟩ :: k) (join side .red a y b)).toList := by
  rw [plug_cons, plug_cons, Frame.fill, Frame.fill, join_other]
  exact toList_plug_congr (toList_rotate ..)

/-- **The rotation** at the grandparent. -/
theorem RedHole.outward {side : Side} {s u : ColorTree α} {x z : α}
    (h : RedHole (⟨side, .red, x, s⟩ :: ⟨side, .black, z, u⟩ :: k) t) (hu : u.color = .black) :
    RedHole (⟨side, .black, x, join side .red s z u⟩ :: k) t := by
  obtain ⟨hc, n, ht, -, hsc, hs, hu', hk⟩ := h
  exact ⟨hc, n, ht, rb_join_red.mpr ⟨hsc, hu, hs, hu'⟩, hk⟩

theorem toList_outward (side : Side) (k : List (Frame α)) (t s u : ColorTree α) (x z : α) :
    (plug (⟨side, .black, x, join side .red s z u⟩ :: k) t).toList =
      (plug (⟨side, .red, x, s⟩ :: ⟨side, .black, z, u⟩ :: k) t).toList := by
  rw [plug_cons, plug_cons, plug_cons]
  exact toList_plug_congr (toList_rotate ..).symm

end Insertion

/-! ## After a deletion -/

/-- All is well, except that the paths through the subtree have a black node less. A red root of the
subtree makes up for it when it is painted, and may have red neighbours until then. -/
def Short (k : List (Frame α)) (t : ColorTree α) : Prop :=
  ∃ n, (t.color = .black → t.Rb n) ∧ (t.color = .red → (t.paint .black).Rb (n + 1)) ∧
    Fits k (n + 1) .black

section Deletion

variable {k : List (Frame α)} {f : Frame α} {side : Side} {t near far sib u v : ColorTree α}
  {c : Color} {w x y : α} {n : ℕ}

/-- The subtree of a black node that is taken out. -/
theorem short_of_rb (ht : t.Rb n) (hk : Fits k (n + 1) .black) : Short k t :=
  ⟨n, fun _ => ht, ht.paint_black, hk⟩

/-- A node with one subtree is taken out: a red one is not missed, and a black one makes the tree
short. -/
def TakenOut (c : Color) (k : List (Frame α)) (t : ColorTree α) : Prop :=
  match c with
  | .red => (plug k t).Balanced
  | .black => Short k t

theorem takenOut (h : (plug k (join side c nil x t)).Balanced) : TakenOut c k t := by
  obtain ⟨n, hn, hk⟩ := exists_fits h
  rw [color_join] at hk
  cases c with
  | red =>
    obtain ⟨-, hc, -, ht⟩ := rb_join_red.mp hn
    exact balanced_plug ht (hc ▸ hk.black)
  | black =>
    obtain ⟨m, rfl, -, ht⟩ := rb_join_black.mp hn
    exact short_of_rb ht hk

/-- The element that was there may take another place on the path. -/
theorem TakenOut.replace {d : Color} {k' : List (Frame α)} (y : α)
    (h : TakenOut c (k ++ ⟨side, d, x, sib⟩ :: k') t) :
    TakenOut c (k ++ ⟨side, d, y, sib⟩ :: k') t := by
  cases c with
  | red =>
    obtain ⟨n, hn, hk⟩ := exists_fits h
    exact balanced_plug hn ((fits_append_cons ..).mp hk)
  | black =>
    obtain ⟨n, hblack, hred, hk⟩ := h
    exact ⟨n, hblack, hred, (fits_append_cons ..).mp hk⟩

/-- A balanced tree is not short. -/
theorem short_of_balanced (h : t.Balanced) : Short [] t := by
  obtain ⟨hc, n, hn⟩ := h
  exact ⟨n, fun _ => hn, fun hred => absurd (hc.symm.trans hred) (by decide), rfl⟩

/-- At the root, or when the subtree has a red root, the repair is a matter of paint. -/
theorem Short.done (h : Short k t) (hdone : k = [] ∨ t.color = .red) :
    (plug k (t.paint .black)).Balanced := by
  obtain ⟨n, hblack, hred, hk⟩ := h
  rcases hc : t.color with _ | _
  · have hpaint : (t.paint .black).color = .black := by cases t <;> rfl
    exact balanced_plug (hred hc) (by rwa [hpaint])
  · obtain rfl : k = [] := hdone.resolve_right (by rw [hc]; decide)
    rw [paint_of_color hc]
    exact ⟨hc, n, hblack hc⟩

/-- The subtree is missing a black node, so there is one on the other side. -/
theorem Short.sib_ne_nil (h : Short (⟨side, c, x, sib⟩ :: k) t) : sib ≠ nil := by
  obtain ⟨n, -, -, hk⟩ := h
  cases c with
  | red => exact hk.2.2.1.ne_nil
  | black => exact hk.1.ne_nil

/-- The same below a red sibling. -/
theorem Short.near_ne_nil (h : Short (⟨side, c, x, join side .red near w far⟩ :: k) t) :
    near ≠ nil ∧ near.color = .black ∧ c = .black := by
  obtain ⟨n, -, -, hk⟩ := h
  cases c with
  | red =>
    have hsib : (join side .red near w far).color = .black := hk.2.1
    rw [color_join] at hsib
    cases hsib
  | black =>
    obtain ⟨hc, -, hnear, -⟩ := rb_join_red.mp hk.1
    exact ⟨hnear.ne_nil, hc, rfl⟩

/-- **A red sibling** is turned up, and the subtree has a black one. -/
theorem Short.redSibling (h : Short (⟨side, c, x, join side .red near w far⟩ :: k) t) :
    Short (⟨side, .red, x, near⟩ :: ⟨side, .black, w, far⟩ :: k) t := by
  obtain ⟨-, -, rfl⟩ := h.near_ne_nil
  obtain ⟨n, hblack, hred, hsib, hk⟩ := h
  obtain ⟨hnc, -, hnear, hfar⟩ := rb_join_red.mp hsib
  exact ⟨n, hblack, hred, rfl, hnc, hnear, hfar, hk⟩

/-- **A black sibling with black children** takes the red, and the parent is short. -/
theorem Short.blackSibling (h : Short (⟨side, c, x, join side .black near w far⟩ :: k) t)
    (ht : t.color = .black) (hnear : near.color = .black) (hfar : far.color = .black) :
    Short k (join side c t x (join side .red near w far)) := by
  obtain ⟨n, hblack, -, hk⟩ := h
  cases c with
  | red =>
    obtain ⟨-, -, hsib, hk⟩ := hk
    obtain ⟨hn, hf⟩ := rb_join_black_succ.mp hsib
    refine ⟨n, fun hc => ?_, fun _ => ?_, hk.black⟩
    · rw [color_join] at hc
      cases hc
    · rw [paint_join]
      exact rb_join_black_succ.mpr ⟨hblack ht, rb_join_red.mpr ⟨hnear, hfar, hn, hf⟩⟩
  | black =>
    obtain ⟨hsib, hk⟩ := hk
    obtain ⟨hn, hf⟩ := rb_join_black_succ.mp hsib
    refine ⟨n + 1, fun _ => ?_, fun hc => ?_, hk⟩
    · exact rb_join_black_succ.mpr ⟨hblack ht, rb_join_red.mpr ⟨hnear, hfar, hn, hf⟩⟩
    · rw [color_join] at hc
      cases hc

/-- A path with other subtrees at its last step. -/
theorem fits_sib (hk : Fits (⟨side, c, x, sib⟩ :: k) n .black) (hc : u.color = .black)
    (hu : sib.Rb n → u.Rb n) : Fits (⟨side, c, x, u⟩ :: k) n .black := by
  cases c with
  | red => exact ⟨rfl, hc, hu hk.2.2.1, hk.2.2.2⟩
  | black => exact ⟨hu hk.1, hk.2⟩

/-- **The near child of a black sibling**, when only it is red, is turned up. -/
theorem Short.turnNear
    (h : Short (⟨side, c, x, join side .black (join side .red u y v) w far⟩ :: k) t)
    (hfar : far.color = .black) :
    Short (⟨side, c, x, join side .black u y (join side .red v w far)⟩ :: k) t := by
  obtain ⟨n, hblack, hred, hk⟩ := h
  refine ⟨n, hblack, hred, fits_sib hk color_join fun hsib => ?_⟩
  obtain ⟨hnear, hf⟩ := rb_join_black_succ.mp hsib
  obtain ⟨-, hvc, hu, hv⟩ := rb_join_red.mp hnear
  exact rb_join_black_succ.mpr ⟨hu, rb_join_red.mpr ⟨hvc, hfar, hv, hf⟩⟩

theorem toList_turnNear (side : Side) (c : Color) (t u v far : ColorTree α) (x y w : α)
    (k : List (Frame α)) :
    (plug (⟨side, c, x, join side .black u y (join side .red v w far)⟩ :: k) t).toList =
      (plug (⟨side, c, x, join side .black (join side .red u y v) w far⟩ :: k) t).toList := by
  rw [plug_cons, plug_cons]
  refine toList_plug_congr ?_
  cases side <;> simp [Frame.fill, join, toList]

/-- **The far child of a black sibling**, when it is red, makes up for the black node. -/
theorem Short.turnFar (h : Short (⟨side, c, x, join side .black near w far⟩ :: k) t)
    (ht : t.color = .black) (hfar : far.color = .red) :
    (plug k (join side c (join side .black t x near) w (far.paint .black))).Balanced := by
  obtain ⟨n, hblack, -, hk⟩ := h
  have hpaint : (far.paint .black).color = .black := by cases far <;> rfl
  cases c with
  | red =>
    obtain ⟨-, -, hsib, hk⟩ := hk
    obtain ⟨hn, hf⟩ := rb_join_black_succ.mp hsib
    refine balanced_plug (rb_join_red.mpr ⟨color_join, hpaint, ?_, hf.paint_black hfar⟩)
      (by rwa [color_join])
    exact rb_join_black_succ.mpr ⟨hblack ht, hn⟩
  | black =>
    obtain ⟨hsib, hk⟩ := hk
    obtain ⟨hn, hf⟩ := rb_join_black_succ.mp hsib
    refine balanced_plug (rb_join_black_succ.mpr ⟨?_, hf.paint_black hfar⟩) (by rwa [color_join])
    exact rb_join_black_succ.mpr ⟨hblack ht, hn⟩

theorem toList_turnFar (side : Side) (c : Color) (t near far : ColorTree α) (x w : α)
    (k : List (Frame α)) :
    (plug k (join side c (join side .black t x near) w (far.paint .black))).toList =
      (plug (⟨side, c, x, join side .black near w far⟩ :: k) t).toList := by
  refine toList_plug_congr ?_
  cases side <;> simp [Frame.fill, join, toList]

end Deletion

end RedBlack

end Tqos
