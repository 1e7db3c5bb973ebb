import Mathlib.Algebra.BigOperators.Group.List.Basic
import Mathlib.Algebra.Order.BigOperators.Group.List
import Mathlib.Tactic.Linarith

/-!
# Objects with owners

Objects that count their owners. A new object has one owner, whoever made it. Putting it into a
container hands that owner over: the count stays, and from then on it is the container that drops
the object, when it goes itself. Looking into a container takes no owner.

Nothing checks that who hands an owner over has one. What an object has *to spare*, `spare`, is its
count less the live containers it is in: handing over and dropping take one of it, and it may become
negative without anything happening. The ledger is kept for all objects at once, and it comes out
when the last owners drop what they have: that goes well exactly if there is nothing to spare and
nothing missing.

## Main results

* `spare_drop` — what a drop does to the ledger
* `exists_drop` — objects that are to spare can be dropped
* `count_eq_zero` — without anything to spare nothing is left
* `isSome_putAll_iff` — when all owners can drop what they have
-/

namespace Tqos

namespace Owners

/-- An object: how many owners it has, and the objects that it is one of the owners of. -/
structure Obj where
  count : ℕ
  kids : List ℕ
deriving DecidableEq, Repr

/-- The objects, by their numbers. One whose count is zero is gone. -/
abbrev Store := List Obj

/-- The owners of an object. -/
def count (s : Store) (x : ℕ) : ℕ := (s[x]?.map Obj.count).getD 0

/-- How often an object is in a container. -/
def Obj.holds (x : ℕ) (o : Obj) : ℕ := if o.count = 0 then 0 else o.kids.count x

/-- How often an object is in a container that is not gone. -/
def held (s : Store) (x : ℕ) : ℕ := (s.map (Obj.holds x)).sum

/-- The owners of an object that are no containers; negative when it is in more containers than it
has owners. -/
def spare (s : Store) (x : ℕ) : ℤ := count s x - held s x

/-- All the owners there are. -/
def total (s : Store) : ℕ := (s.map Obj.count).sum

/-- What is in a container. -/
def kids (s : Store) (x : ℕ) : List ℕ := (s[x]?.map Obj.kids).getD []

/-- A container is older than what is in it. -/
def Ordered (s : Store) : Prop := ∀ (x : ℕ) (o : Obj), s[x]? = some o → ∀ y ∈ o.kids, x < y

/-- A container is older than what is in it, which is in the store. -/
structure WellFormed (s : Store) : Prop where
  ordered : Ordered s
  closed : ∀ (x : ℕ) (o : Obj), s[x]? = some o → ∀ y ∈ o.kids, y < s.length

/-- A store in which nothing is gone and every container has objects in it that are there. -/
structure Sound (s : Store) : Prop where
  ordered : Ordered s
  live : ∀ x < s.length, 0 < count s x
  closed : ∀ (x : ℕ) (o : Obj), s[x]? = some o → ∀ y ∈ o.kids, y < s.length

/-! ## Operations -/

/-- A new object. Its number is the length of the store. -/
def new (s : Store) : Store := s ++ [⟨1, []⟩]

/-- An object is put into a container. -/
def add (s : Store) (c x : ℕ) : Store := s.modify c fun o => ⟨o.count, o.kids ++ [x]⟩

/-- One owner after another drops an object, and an object that is gone drops what is in it. There
are `n` owners. -/
def drop : ℕ → List ℕ → Store → Option Store
  | _, [], s => some s
  | 0, _ :: _, _ => none
  | n + 1, x :: xs, s =>
    match s[x]? with
    | none => none
    | some o =>
      if o.count = 0 then none
      else
        drop n ((if o.count = 1 then o.kids else []) ++ xs)
          (s.set x ⟨o.count - 1, o.kids⟩)

/-- An owner drops an object. -/
def put (s : Store) (x : ℕ) : Option Store := drop (total s) [x] s

/-- A value that is made of objects. -/
inductive Tree
  | node (parts : List Tree)

mutual

/-- A value is built, from the outermost object on. -/
def alloc : Tree → Store → Store
  | .node ts, s => allocParts ts s.length (new s)

/-- Its parts are built and put into it. -/
def allocParts : List Tree → ℕ → Store → Store
  | [], _, s => s
  | t :: ts, c, s => allocParts ts c (add (alloc t s) c s.length)

end

/-- Owners drop objects in turn. -/
def putAll (xs : List ℕ) (s : Store) : Option Store := xs.foldlM put s

/-! ## The ledger -/

section Ledger

variable {s s' : Store} {o o' : Obj} {x y c n : ℕ} {xs : List ℕ}

theorem count_of_getElem? (h : s[x]? = some o) : count s x = o.count := by
  rw [count, h]
  rfl

/-- What has an owner is there. -/
theorem exists_of_count_pos (h : 0 < count s x) : ∃ o, s[x]? = some o ∧ 0 < o.count := by
  cases ho : s[x]? with
  | none =>
    rw [count, ho] at h
    exact absurd h (lt_irrefl 0)
  | some o =>
    rw [count_of_getElem? ho] at h
    exact ⟨o, rfl, h⟩

theorem lt_length_of_count_pos (h : 0 < count s x) : x < s.length := by
  obtain ⟨o, ho, -⟩ := exists_of_count_pos h
  exact (List.getElem?_eq_some_iff.mp ho).1

theorem count_of_le (h : s.length ≤ x) : count s x = 0 := by
  rw [count, List.getElem?_eq_none h]
  rfl

/-- What changes in a sum when one object does. -/
theorem sum_map_set (f : Obj → ℕ) (h : s[x]? = some o) (o' : Obj) :
    ((s.set x o').map f).sum + f o = (s.map f).sum + f o' := by
  induction s generalizing x with
  | nil => cases h
  | cons a s ih =>
    cases x with
    | zero =>
      obtain rfl := Option.some.inj h
      rw [List.set_cons_zero, List.map_cons, List.map_cons, List.sum_cons, List.sum_cons]
      omega
    | succ x =>
      have hs := ih (by simpa using h)
      rw [List.set_cons_succ, List.map_cons, List.map_cons, List.sum_cons, List.sum_cons]
      omega

theorem count_set (h : s[x]? = some o) (o' : Obj) (y : ℕ) :
    count (s.set x o') y = if y = x then o'.count else count s y := by
  have hlt := (List.getElem?_eq_some_iff.mp h).1
  rw [count, List.getElem?_set]
  by_cases hy : y = x
  · rw [if_pos hy.symm, if_pos (hy ▸ hlt), if_pos hy]
    rfl
  · rw [if_neg (Ne.symm hy), if_neg hy]
    rfl

/-- **A new object** is to spare. -/
theorem spare_new (s : Store) (y : ℕ) :
    spare (new s) y = spare s y + if y = s.length then 1 else 0 := by
  have hheld : held (new s) y = held s y := by
    simp [held, new, Obj.holds]
  rw [spare, spare, hheld]
  by_cases hy : y = s.length
  · have hold : count s y = 0 := count_of_le hy.ge
    have hone : count (new s) y = 1 := by
      rw [count, new, hy, List.getElem?_concat_length]
      rfl
    rw [if_pos hy, hold, hone]
    omega
  · have hsame : count (new s) y = count s y := by
      rw [count, new, count]
      rcases Nat.lt_or_gt_of_ne hy with hlt | hgt
      · rw [List.getElem?_append_left hlt]
      · rw [List.getElem?_eq_none (by simp; omega), List.getElem?_eq_none (by omega)]
    rw [if_neg hy, hsame]
    omega

/-- **Handing over** takes an owner of what there is to spare. -/
theorem spare_add (hc : 0 < count s c) (x y : ℕ) :
    spare (add s c x) y = spare s y - if y = x then 1 else 0 := by
  obtain ⟨o, ho, hlive⟩ := exists_of_count_pos hc
  have hadd : add s c x = s.set c ⟨o.count, o.kids ++ [x]⟩ := by
    rw [add, List.modify_eq_set_getElem?, ho]
    rfl
  have hsum := sum_map_set (Obj.holds y) ho ⟨o.count, o.kids ++ [x]⟩
  have hcount : count (add s c x) y = count s y := by
    rw [hadd, count_set ho]
    split
    · rename_i hy
      rw [hy, count_of_getElem? ho]
    · rfl
  simp only [Obj.holds, hlive.ne', if_false, List.count_append, List.count_singleton] at hsum
  rw [spare, spare, hcount, held, held, hadd]
  by_cases hy : y = x
  · rw [if_pos hy]
    rw [if_pos (by simp [hy])] at hsum
    omega
  · rw [if_neg hy]
    rw [if_neg (by simpa using Ne.symm hy)] at hsum
    omega

/-- **One owner less.** An object that is gone by that holds nothing any more. -/
theorem spare_set (h : s[x]? = some o) (ho : 0 < o.count) (y : ℕ) :
    spare (s.set x ⟨o.count - 1, o.kids⟩) y =
      spare s y - (if y = x then 1 else 0) +
        ((if o.count = 1 then o.kids else []).count y : ℕ) := by
  have hsum := sum_map_set (Obj.holds y) h ⟨o.count - 1, o.kids⟩
  have hcount : count (s.set x ⟨o.count - 1, o.kids⟩) y =
      if y = x then o.count - 1 else count s y :=
    count_set h _ y
  have hold := count_of_getElem? h
  have hholds : Obj.holds y ⟨o.count - 1, o.kids⟩ +
      (if o.count = 1 then o.kids else []).count y = Obj.holds y o := by
    rw [Obj.holds, Obj.holds, if_neg ho.ne']
    by_cases hone : o.count = 1
    · rw [if_pos hone, if_pos (by rw [hone])]
      exact Nat.zero_add _
    · have hleft : o.count - 1 ≠ 0 := by omega
      rw [if_neg hone, if_neg hleft]
      rfl
  rw [spare, spare, held, held, hcount]
  by_cases hy : y = x
  · rw [if_pos hy, if_pos hy, hy, hold]
    rw [hy] at hsum hholds
    omega
  · rw [if_neg hy, if_neg hy]
    omega

end Ledger

/-! ## Building -/

section Build

variable {s : Store} {x y c : ℕ}

theorem getElem?_new (h : x < s.length) : (new s)[x]? = s[x]? := List.getElem?_append_left h

theorem length_new (s : Store) : (new s).length = s.length + 1 := List.length_append

theorem lt_length_new (s : Store) : s.length < (new s).length := by
  rw [length_new]
  exact Nat.lt_succ_self _

theorem length_add (s : Store) (c x : ℕ) : (add s c x).length = s.length := List.length_modify _ _ _

theorem getElem?_add_of_ne (h : y ≠ c) (x : ℕ) : (add s c x)[y]? = s[y]? := by
  exact List.getElem?_modify_ne _ _ (Ne.symm h)

theorem getElem?_add_self (s : Store) (c x : ℕ) :
    (add s c x)[c]? = s[c]?.map fun o => ⟨o.count, o.kids ++ [x]⟩ := by
  rw [add, List.getElem?_modify_eq]
  rfl

theorem count_add (s : Store) (c x y : ℕ) : count (add s c x) y = count s y := by
  by_cases hy : y = c
  · rw [hy, count, count, getElem?_add_self]
    cases s[c]? <;> rfl
  · rw [count, count, getElem?_add_of_ne hy]

theorem kids_add_self (hc : c < s.length) (x : ℕ) : kids (add s c x) c = kids s c ++ [x] := by
  rw [kids, kids, getElem?_add_self, List.getElem?_eq_getElem hc]
  rfl

theorem Sound.wellFormed (h : Sound s) : WellFormed s := ⟨h.ordered, h.closed⟩

theorem WellFormed.sound (h : WellFormed s) (hlive : ∀ x < s.length, 0 < count s x) : Sound s :=
  ⟨h.ordered, hlive, h.closed⟩

theorem sound_nil : Sound [] := by
  refine ⟨fun x o h => ?_, fun x h => absurd h (Nat.not_lt_zero x), fun x o h => ?_⟩
  · cases h
  · cases h

theorem count_new_self (s : Store) : count (new s) s.length = 1 := by
  rw [count, new, List.getElem?_concat_length]
  rfl

theorem count_new (h : x < s.length) : count (new s) x = count s x := by
  rw [count, getElem?_new h, count]

theorem wellFormed_new (h : WellFormed s) : WellFormed (new s) := by
  have hcases (x : ℕ) (o : Obj) (ho : (new s)[x]? = some o) : s[x]? = some o ∨ o.kids = [] := by
    have hlt := (List.getElem?_eq_some_iff.mp ho).1
    rw [length_new] at hlt
    rcases Nat.lt_or_ge x s.length with hx | hx
    · exact Or.inl (by rwa [← getElem?_new hx])
    · obtain rfl : x = s.length := by omega
      have hlast : (new s)[s.length]? = some ⟨1, []⟩ := List.getElem?_concat_length
      rw [hlast] at ho
      obtain rfl := Option.some.inj ho
      exact Or.inr rfl
  refine ⟨fun x o ho y hy => ?_, fun x o ho y hy => ?_⟩
  · rcases hcases x o ho with hold | hnil
    · exact h.ordered x o hold y hy
    · rw [hnil] at hy
      exact absurd hy List.not_mem_nil
  · rcases hcases x o ho with hold | hnil
    · rw [length_new]
      exact Nat.lt_succ_of_lt (h.closed x o hold y hy)
    · rw [hnil] at hy
      exact absurd hy List.not_mem_nil

theorem sound_new (h : Sound s) : Sound (new s) := by
  refine (wellFormed_new h.wellFormed).sound fun x hx => ?_
  rw [length_new] at hx
  rcases Nat.lt_or_ge x s.length with hlt | hge
  · rw [count_new hlt]
    exact h.live x hlt
  · obtain rfl : x = s.length := by omega
    rw [count_new_self]
    exact Nat.one_pos

/-- A younger object can be put into a container. -/
theorem wellFormed_add (h : WellFormed s) (hcx : c < x) (hx : x < s.length) :
    WellFormed (add s c x) := by
  have hcases (z : ℕ) (o : Obj) (ho : (add s c x)[z]? = some o) :
      ∃ o', s[z]? = some o' ∧ ∀ y ∈ o.kids, y ∈ o'.kids ∨ z = c ∧ y = x := by
    by_cases hz : z = c
    · subst hz
      rw [getElem?_add_self, Option.map_eq_some_iff] at ho
      obtain ⟨o', ho', rfl⟩ := ho
      refine ⟨o', ho', fun y hy => ?_⟩
      rcases List.mem_append.mp hy with hy | hy
      · exact Or.inl hy
      · exact Or.inr ⟨rfl, List.mem_singleton.mp hy⟩
    · rw [getElem?_add_of_ne hz] at ho
      exact ⟨o, ho, fun y hy => Or.inl hy⟩
  refine ⟨fun z o ho y hy => ?_, fun z o ho y hy => ?_⟩
  · obtain ⟨o', ho', hkids⟩ := hcases z o ho
    rcases hkids y hy with hy | ⟨rfl, rfl⟩
    · exact h.ordered z o' ho' y hy
    · exact hcx
  · obtain ⟨o', ho', hkids⟩ := hcases z o ho
    rw [length_add]
    rcases hkids y hy with hy | ⟨-, rfl⟩
    · exact h.closed z o' ho' y hy
    · exact hx

/-- What has been built: it is there with all its parts, and what was there before is as it was,
but for the container `c`, which keeps its owners. -/
structure Grown (c : ℕ) (s s' : Store) : Prop where
  wellFormed : WellFormed s'
  length_le : s.length ≤ s'.length
  getElem?_eq : ∀ x < s.length, x ≠ c → s'[x]? = s[x]?
  count_eq : ∀ x < s.length, count s' x = count s x
  live : ∀ x, s.length ≤ x → x < s'.length → 0 < count s' x

theorem grown_refl (h : WellFormed s) (c : ℕ) : Grown c s s :=
  ⟨h, le_rfl, fun _ _ _ => rfl, fun _ _ => rfl, fun _ hx hx' => absurd hx' hx.not_gt⟩

theorem Grown.trans {s' s'' : Store} (h : Grown c s s') (h' : Grown c s' s'') : Grown c s s'' := by
  have hle := h.length_le
  refine ⟨h'.wellFormed, hle.trans h'.length_le, fun x hx hne => ?_, fun x hx => ?_,
    fun x hx hx' => ?_⟩
  · rw [h'.getElem?_eq x (hx.trans_le hle) hne, h.getElem?_eq x hx hne]
  · rw [h'.count_eq x (hx.trans_le hle), h.count_eq x hx]
  · rcases Nat.lt_or_ge x s'.length with hlt | hge
    · rw [h'.count_eq x hlt]
      exact h.live x hx hlt
    · exact h'.live x hge hx'

/-- A new object is no container that was there. -/
theorem Grown.widen {s' : Store} (h : Grown s.length s s') (c : ℕ) : Grown c s s' :=
  ⟨h.wellFormed, h.length_le, fun x hx _ => h.getElem?_eq x hx hx.ne, h.count_eq, h.live⟩

theorem grown_new (h : WellFormed s) (c : ℕ) : Grown c s (new s) := by
  refine ⟨wellFormed_new h, by rw [length_new]; exact Nat.le_succ _, fun _ hx _ => getElem?_new hx,
    fun _ hx => count_new hx, fun x hx hx' => ?_⟩
  rw [length_new] at hx'
  obtain rfl : x = s.length := by omega
  rw [count_new_self]
  exact Nat.one_pos

theorem grown_add (h : WellFormed s) (hcx : c < x) (hx : x < s.length) : Grown c s (add s c x) := by
  refine ⟨wellFormed_add h hcx hx, (length_add s c x).ge, fun _ _ hne => getElem?_add_of_ne hne x,
    fun _ _ => count_add _ _ _ _, fun y hy hy' => ?_⟩
  rw [length_add] at hy'
  omega

/-- Where nothing was gone, nothing is. -/
theorem Grown.sound {s' : Store} (h : Grown c s s') (hs : Sound s) : Sound s' := by
  refine h.wellFormed.sound fun x hx => ?_
  rcases Nat.lt_or_ge x s.length with hlt | hge
  · rw [h.count_eq x hlt]
    exact hs.live x hlt
  · exact h.live x hge hx

mutual

/-- **A value that has been built** is to spare, and none of its parts. -/
theorem alloc_spec (t : Tree) (s : Store) (h : WellFormed s) :
    Grown s.length s (alloc t s) ∧ s.length < (alloc t s).length ∧
      ∀ y, spare (alloc t s) y = spare s y + if y = s.length then 1 else 0 := by
  cases t with
  | node ts =>
    have hlen := length_new s
    obtain ⟨hgrown, -, hspare⟩ := allocParts_spec ts s.length (new s) (wellFormed_new h)
      (by rw [count_new_self]; exact Nat.one_pos)
    refine ⟨(grown_new h _).trans hgrown, ?_, fun y => ?_⟩
    · have hle := hgrown.length_le
      rw [alloc]
      omega
    · rw [alloc, hspare, spare_new]

/-- **Parts** go into their container, one object each. -/
theorem allocParts_spec (ts : List Tree) (c : ℕ) (s : Store) (h : WellFormed s)
    (hc : 0 < count s c) :
    Grown c s (allocParts ts c s) ∧
      (∃ ks, ks.length = ts.length ∧ kids (allocParts ts c s) c = kids s c ++ ks) ∧
        ∀ y, spare (allocParts ts c s) y = spare s y := by
  cases ts with
  | nil =>
    exact ⟨grown_refl h c, ⟨[], rfl, (List.append_nil _).symm⟩, fun _ => rfl⟩
  | cons t ts =>
    have hin := lt_length_of_count_pos hc
    obtain ⟨hpart, hlt, hspare⟩ := alloc_spec t s h
    have hsame : (alloc t s)[c]? = s[c]? := hpart.getElem?_eq c hin hin.ne
    have hlive : 0 < count (alloc t s) c := by rwa [hpart.count_eq c hin]
    have hput := grown_add hpart.wellFormed hin hlt
    have hlen := length_add (alloc t s) c s.length
    obtain ⟨hrest, ⟨ks, hks, hkids⟩, hspare'⟩ :=
      allocParts_spec ts c (add (alloc t s) c s.length) hput.wellFormed (by rwa [count_add])
    refine ⟨((hpart.widen c).trans hput).trans hrest, ⟨s.length :: ks, ?_, ?_⟩, fun y => ?_⟩
    · rw [List.length_cons, List.length_cons, hks]
    · have hold : kids (alloc t s) c = kids s c := by rw [kids, kids, hsame]
      rw [allocParts, hkids, kids_add_self (hin.trans hlt), hold, List.append_assoc]
      rfl
    · rw [allocParts, hspare', spare_add hlive, hspare]
      omega

end

end Build

/-! ## Dropping -/

section Drop

variable {s s' : Store} {o : Obj} {x c n : ℕ} {xs : List ℕ}

theorem count_cons_eq (x y : ℕ) (xs : List ℕ) :
    (x :: xs).count y = xs.count y + if y = x then 1 else 0 := by
  rw [List.count_cons]
  by_cases h : y = x
  · rw [if_pos h, if_pos (beq_iff_eq.mpr h.symm)]
  · rw [if_neg h, if_neg (mt beq_iff_eq.mp (Ne.symm h))]

theorem total_set (h : s[x]? = some o) (ho : 0 < o.count) :
    total (s.set x ⟨o.count - 1, o.kids⟩) + 1 = total s := by
  have hsum := sum_map_set Obj.count h ⟨o.count - 1, o.kids⟩
  rw [total, total]
  dsimp only at hsum
  omega

/-- **What a drop does to the ledger**: of every object there is one less to spare for each time it
was dropped from outside. -/
theorem spare_drop (h : drop n xs s = some s') (y : ℕ) :
    spare s' y = spare s y - (xs.count y : ℕ) := by
  induction n generalizing xs s with
  | zero =>
    cases xs with
    | nil =>
      obtain rfl := Option.some.inj h
      rw [List.count_nil, Nat.cast_zero, sub_zero]
    | cons x xs => cases h
  | succ n ih =>
    cases xs with
    | nil =>
      obtain rfl := Option.some.inj h
      rw [List.count_nil, Nat.cast_zero, sub_zero]
    | cons x xs =>
      rw [drop] at h
      cases ho : s[x]? with
      | none =>
        rw [ho] at h
        cases h
      | some o =>
        rw [ho] at h
        dsimp only at h
        split at h
        · cases h
        · rename_i hcount
          have hset := spare_set ho (Nat.pos_of_ne_zero hcount) y
          rw [ih h, hset, List.count_append, count_cons_eq]
          split <;> omega

/-- **Objects that are to spare can be dropped.** -/
theorem exists_drop (hn : total s ≤ n) (h : ∀ y, (xs.count y : ℕ) ≤ spare s y) :
    ∃ s', drop n xs s = some s' := by
  induction n generalizing xs s with
  | zero =>
    cases xs with
    | nil => exact ⟨s, rfl⟩
    | cons x xs =>
      have hx := h x
      have hpos : 0 < count s x := by
        rw [spare, List.count_cons_self] at hx
        omega
      obtain ⟨o, ho, hlive⟩ := exists_of_count_pos hpos
      have htotal := total_set ho hlive
      omega
  | succ n ih =>
    cases xs with
    | nil => exact ⟨s, rfl⟩
    | cons x xs =>
      have hx := h x
      have hpos : 0 < count s x := by
        rw [spare, List.count_cons_self] at hx
        omega
      obtain ⟨o, ho, hlive⟩ := exists_of_count_pos hpos
      have htotal := total_set ho hlive
      rw [drop, ho]
      dsimp only
      rw [if_neg hlive.ne']
      refine ih (by omega) fun y => ?_
      have hy := h y
      rw [count_cons_eq] at hy
      rw [spare_set ho hlive, List.count_append]
      split at hy
      · rename_i heq
        rw [if_pos heq]
        omega
      · rename_i hne
        rw [if_neg hne]
        omega

/-- Dropping puts nothing anywhere. -/
theorem ordered_drop (hord : Ordered s) (h : drop n xs s = some s') : Ordered s' := by
  induction n generalizing xs s with
  | zero =>
    cases xs with
    | nil => exact Option.some.inj h ▸ hord
    | cons x xs => cases h
  | succ n ih =>
    cases xs with
    | nil => exact Option.some.inj h ▸ hord
    | cons x xs =>
      rw [drop] at h
      cases ho : s[x]? with
      | none =>
        rw [ho] at h
        cases h
      | some o =>
        rw [ho] at h
        dsimp only at h
        split at h
        · cases h
        · refine ih (fun y o' hy z hz => ?_) h
          rw [List.getElem?_set] at hy
          split at hy
          · rename_i hxy
            subst hxy
            split at hy
            · obtain rfl := Option.some.inj hy
              exact hord x o ho z hz
            · cases hy
          · exact hord y o' hy z hz

/-- **Without anything to spare nothing is left**: what is oldest has no container. -/
theorem count_eq_zero (hord : Ordered s) (h : ∀ y, spare s y ≤ 0) (x : ℕ) : count s x = 0 := by
  induction x using Nat.strong_induction_on with
  | _ x ih =>
    have hheld : held s x = 0 := by
      refine List.sum_eq_zero fun k hk => ?_
      obtain ⟨o, ho, rfl⟩ := List.mem_map.mp hk
      obtain ⟨c, hc, hco⟩ := List.getElem_of_mem ho
      have hget : s[c]? = some o := by rw [List.getElem?_eq_getElem hc, hco]
      rw [Obj.holds]
      split
      · rfl
      · rename_i hlive
        rw [List.count_eq_zero]
        intro hx
        have hgone := ih c (hord c o hget x hx)
        rw [count_of_getElem? hget] at hgone
        exact hlive hgone
    have hx := h x
    rw [spare, hheld] at hx
    omega

/-- Then nothing is missing either. -/
theorem spare_eq_zero (hord : Ordered s) (h : ∀ y, spare s y ≤ 0) (x : ℕ) : spare s x = 0 := by
  have hgone : held s x = 0 := by
    refine List.sum_eq_zero fun k hk => ?_
    obtain ⟨o, ho, rfl⟩ := List.mem_map.mp hk
    obtain ⟨c, hc, hco⟩ := List.getElem_of_mem ho
    have hget : s[c]? = some o := by rw [List.getElem?_eq_getElem hc, hco]
    have hzero := count_eq_zero hord h c
    rw [count_of_getElem? hget] at hzero
    exact if_pos hzero
  rw [spare, count_eq_zero hord h x, hgone]
  rfl

theorem putAll_cons (x : ℕ) (xs : List ℕ) (s : Store) :
    putAll (x :: xs) s = (put s x).bind (putAll xs) := List.foldlM_cons

theorem putAll_append (xs ys : List ℕ) (s : Store) :
    putAll (xs ++ ys) s = (putAll xs s).bind (putAll ys) := List.foldlM_append

/-- The ledger when owners drop objects in turn. -/
theorem spare_putAll (h : putAll xs s = some s') (y : ℕ) :
    spare s' y = spare s y - (xs.count y : ℕ) := by
  induction xs generalizing s with
  | nil =>
    obtain rfl := Option.some.inj h
    rw [List.count_nil, Nat.cast_zero, sub_zero]
  | cons x xs ih =>
    rw [putAll_cons, Option.bind_eq_some_iff] at h
    obtain ⟨t, hput, h⟩ := h
    rw [ih h, spare_drop hput, count_cons_eq, count_cons_eq, List.count_nil]
    omega

theorem ordered_putAll (hord : Ordered s) (h : putAll xs s = some s') : Ordered s' := by
  induction xs generalizing s with
  | nil => exact Option.some.inj h ▸ hord
  | cons x xs ih =>
    rw [putAll_cons, Option.bind_eq_some_iff] at h
    obtain ⟨t, hput, h⟩ := h
    exact ih (ordered_drop hord hput) h

theorem exists_putAll (h : ∀ y, (xs.count y : ℕ) ≤ spare s y) : ∃ s', putAll xs s = some s' := by
  induction xs generalizing s with
  | nil => exact ⟨s, rfl⟩
  | cons x xs ih =>
    obtain ⟨t, ht⟩ : ∃ t, put s x = some t := by
      refine exists_drop le_rfl fun y => (le_trans ?_ (h y))
      rw [count_cons_eq, count_cons_eq, List.count_nil]
      omega
    obtain ⟨s', hs'⟩ : ∃ s', putAll xs t = some s' := by
      refine ih fun y => ?_
      have hy := h y
      rw [count_cons_eq] at hy
      rw [spare_drop ht, count_cons_eq, List.count_nil]
      omega
    exact ⟨s', by rw [putAll_cons, ht, Option.bind_some, hs']⟩

/-- **When all owners drop what they have**, no object being to spare otherwise: it goes well
exactly if no object is missing an owner. -/
theorem isSome_putAll_iff (hord : Ordered s) (h : ∀ y, spare s y ≤ (xs.count y : ℕ)) :
    (putAll xs s).isSome ↔ ∀ y, spare s y = (xs.count y : ℕ) := by
  rw [Option.isSome_iff_exists]
  constructor
  · rintro ⟨s', hs'⟩ y
    have hnone : ∀ z, spare s' z ≤ 0 := by
      intro z
      have hz := h z
      rw [spare_putAll hs']
      omega
    have hzero := spare_eq_zero (ordered_putAll hord hs') hnone y
    rw [spare_putAll hs'] at hzero
    omega
  · intro heq
    exact exists_putAll fun y => (heq y).ge

end Drop

end Owners

end Tqos
