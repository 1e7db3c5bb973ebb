import Mathlib.Data.Fin.Tuple.Basic
import Mathlib.Data.Fintype.Card
import Mathlib.Data.List.Nodup

/-!
# A set in a table of slots

A set of at most `n` elements can be kept in an array of `n` slots, one value standing for a free
slot: an element that is not there goes into the first free slot, and removing one frees the slots
that hold it. When no slot is free an element is not put anywhere.

## Main results

* `holds_put`, `unique_put` — what putting does to the set, and that it keeps elements apart
* `holds_clear`, `unique_clear` — the same for removing
* `gains_foldl_put` — which elements get a slot when several are put one after another
* `Keeps.foldl_put`, `Keeps.clear` — seen from outside the table is a set that takes no more than
  `n` elements
-/

namespace Tqos

namespace SlotTable

variable {α : Type*} [DecidableEq α] {n : ℕ} (free : α)

/-- The element is in the table. -/
def Holds (tab : Fin n → α) (x : α) : Prop := x ≠ free ∧ ∃ i, tab i = x

/-- No element is in two slots. -/
def Unique (tab : Fin n → α) : Prop := ∀ i j, tab i = tab j → tab i ≠ free → i = j

/-- The slot that `x` would be put into. -/
def slotFor (tab : Fin n → α) (x : α) : Option (Fin n) :=
  if ∃ i, tab i = x then none else Fin.find? fun i => decide (tab i = free)

/-- `x` is put into the first free slot, if it is not there and there is one. -/
def put (tab : Fin n → α) (x : α) : Fin n → α :=
  match slotFor free tab x with
  | some i => Function.update tab i x
  | none => tab

/-- The slots that hold `x` are freed. -/
def clear (tab : Fin n → α) (x : α) : Fin n → α := fun i => if tab i = x then free else tab i

variable {free} {tab : Fin n → α} {x y : α} {i : Fin n} {xs : List α}

omit [DecidableEq α] in
@[simp] theorem not_holds_const : ¬ Holds free (fun _ : Fin n => free) x := by
  rintro ⟨hne, _, rfl⟩
  exact hne rfl

omit [DecidableEq α] in
theorem unique_const : Unique free (fun _ : Fin n => free) := fun _ _ _ h => absurd rfl h

theorem slotFor_eq_some (h : slotFor free tab x = some i) :
    (∀ j, tab j ≠ x) ∧ tab i = free ∧ x ≠ free := by
  rw [slotFor] at h
  split at h
  · cases h
  · rename_i hnot
    have hi : tab i = free := by simpa using (Fin.find?_eq_some_iff.mp h).1
    have hnew : ∀ j, tab j ≠ x := fun j hj => hnot ⟨j, hj⟩
    exact ⟨hnew, hi, fun hx => hnew i (hi.trans hx.symm)⟩

/-- An element that is there finds no slot. -/
theorem slotFor_of_exists (h : ∃ i, tab i = x) : slotFor free tab x = none := if_pos h

/-- An element that is not there finds the first free slot. -/
theorem slotFor_of_not_exists (h : ¬ ∃ i, tab i = x) :
    slotFor free tab x = Fin.find? fun i => decide (tab i = free) := if_neg h

theorem put_apply (tab : Fin n → α) (x : α) (i : Fin n) :
    put free tab x i = if slotFor free tab x = some i then x else tab i := by
  rw [put]
  cases h : slotFor free tab x with
  | none => simp
  | some j =>
    by_cases hj : j = i
    · subst hj
      simp
    · simp [hj, Function.update_of_ne (Ne.symm hj)]

/-- **Putting an element** that finds a slot adds it to the set. -/
theorem holds_put (h : (slotFor free tab x).isSome) :
    Holds free (put free tab x) y ↔ y = x ∨ Holds free tab y := by
  obtain ⟨i, hi⟩ := Option.isSome_iff_exists.mp h
  obtain ⟨hnew, hfree, hx⟩ := slotFor_eq_some hi
  constructor
  · rintro ⟨hy, j, hj⟩
    rw [put_apply] at hj
    split at hj
    · exact Or.inl hj.symm
    · exact Or.inr ⟨hy, j, hj⟩
  · rintro (rfl | ⟨hy, j, hj⟩)
    · exact ⟨hx, i, by rw [put_apply, if_pos hi]⟩
    · refine ⟨hy, j, ?_⟩
      rw [put_apply, if_neg, hj]
      intro hij
      obtain rfl := Option.some.inj (hi.symm.trans hij)
      exact hy (hj.symm.trans hfree)

/-- An element that finds no slot changes nothing. -/
theorem put_of_none (h : slotFor free tab x = none) : put free tab x = tab := by
  rw [put, h]

/-- Only an element that finds no slot leaves the table as it is. -/
theorem put_eq_self_iff : put free tab x = tab ↔ slotFor free tab x = none := by
  refine ⟨fun h => ?_, put_of_none⟩
  by_contra hsome
  obtain ⟨i, hi⟩ := Option.ne_none_iff_exists'.mp hsome
  have hput : put free tab x i = x := by
    rw [put_apply, if_pos hi]
  rw [h] at hput
  exact (slotFor_eq_some hi).1 i hput

/-- The element that stands for a free slot is never put anywhere. -/
theorem put_free : put free tab free = tab := by
  rw [put_eq_self_iff]
  by_contra hsome
  obtain ⟨i, hi⟩ := Option.ne_none_iff_exists'.mp hsome
  exact (slotFor_eq_some hi).2.2 rfl

theorem unique_put (hu : Unique free tab) : Unique free (put free tab x) := by
  intro i j hij hne
  rw [put_apply] at hij hne
  rw [put_apply] at hij
  split at hij
  · rename_i hi
    split at hij
    · rename_i hj
      exact Option.some.inj (hi.symm.trans hj)
    · exact absurd hij.symm ((slotFor_eq_some hi).1 j)
  · split at hij
    · rename_i hj
      exact absurd hij ((slotFor_eq_some hj).1 i)
    · rename_i hi _
      rw [if_neg hi] at hne
      exact hu i j hij hne

/-- **Removing an element** takes it out of the set. -/
theorem holds_clear : Holds free (clear free tab x) y ↔ y ≠ x ∧ Holds free tab y := by
  constructor
  · rintro ⟨hy, i, hi⟩
    rw [clear] at hi
    split at hi
    · exact absurd hi.symm hy
    · rename_i hne
      exact ⟨fun hyx => hne (hi.trans hyx), hy, i, hi⟩
  · rintro ⟨hne, hy, i, rfl⟩
    exact ⟨hy, i, if_neg hne⟩

theorem unique_clear (hu : Unique free tab) : Unique free (clear free tab x) := by
  intro i j hij hne
  have hclear (k : Fin n) (hk : clear free tab x k ≠ free) : clear free tab x k = tab k := by
    rw [clear] at hk ⊢
    split at hk
    · exact absurd rfl hk
    · rename_i hx
      rw [if_neg hx]
  have hi := hclear i hne
  have hj := hclear j (hij ▸ hne)
  exact hu i j (by rw [← hi, ← hj, hij]) (hi ▸ hne)

/-- Where an element is not, removing it changes nothing. -/
theorem clear_of_forall_ne (h : ∀ i, tab i ≠ x) : clear free tab x = tab := by
  funext i
  exact if_neg (h i)

/-- Removing an element twice is removing it once. -/
theorem clear_clear : clear free (clear free tab x) x = clear free tab x := by
  funext i
  rw [clear]
  split
  · rename_i hi
    rw [clear] at hi ⊢
    split
    · rfl
    · rename_i hx
      rw [if_neg hx] at hi
      exact absurd hi hx
  · rfl

/-! ## Several elements -/

variable (free) in
/-- Those of the elements that find a slot when they are put one after another. -/
def gained : (Fin n → α) → List α → List α
  | _, [] => []
  | tab, x :: xs =>
    if (slotFor free tab x).isSome then x :: gained (put free tab x) xs else gained tab xs

/-- An element that is there never finds a slot. -/
theorem notMem_gained (h : ∃ i, tab i = x) (hx : x ≠ free) : x ∉ gained free tab xs := by
  induction xs generalizing tab with
  | nil => exact List.not_mem_nil
  | cons y xs ih =>
    rw [gained]
    split
    · rename_i hy
      obtain ⟨i, hi⟩ := Option.isSome_iff_exists.mp hy
      have hyx : y ≠ x := fun hyx => by
        obtain ⟨j, hj⟩ := h
        exact (slotFor_eq_some hi).1 j (hj.trans hyx.symm)
      have hput : ∃ i, put free tab y i = x :=
        ((holds_put hy).mpr (Or.inr ⟨hx, h⟩)).2
      rw [List.mem_cons, not_or]
      exact ⟨Ne.symm hyx, ih hput⟩
    · exact ih h

theorem ne_free_of_mem_gained (h : x ∈ gained free tab xs) : x ≠ free := by
  induction xs generalizing tab with
  | nil => cases h
  | cons y xs ih =>
    rw [gained] at h
    split at h
    · rename_i hy
      obtain ⟨i, hi⟩ := Option.isSome_iff_exists.mp hy
      rcases List.mem_cons.mp h with rfl | h
      · exact (slotFor_eq_some hi).2.2
      · exact ih h
    · exact ih h

/-- Only what is put finds a slot. -/
theorem mem_of_mem_gained (h : x ∈ gained free tab xs) : x ∈ xs := by
  induction xs generalizing tab with
  | nil => cases h
  | cons y xs ih =>
    rw [gained] at h
    split at h
    · rcases List.mem_cons.mp h with rfl | h
      · exact List.mem_cons_self
      · exact List.mem_cons_of_mem y (ih h)
    · exact List.mem_cons_of_mem y (ih h)

/-- No element finds a slot twice. -/
theorem nodup_gained : (gained free tab xs).Nodup := by
  induction xs generalizing tab with
  | nil => exact List.nodup_nil
  | cons y xs ih =>
    rw [gained]
    split
    · rename_i hy
      obtain ⟨i, hi⟩ := Option.isSome_iff_exists.mp hy
      have hput : ∃ i, put free tab y i = y := ((holds_put hy).mpr (Or.inl rfl)).2
      exact List.nodup_cons.mpr ⟨notMem_gained hput (slotFor_eq_some hi).2.2, ih⟩
    · exact ih

/-- Slots that are in use stay as they are. -/
theorem foldl_put_of_ne (h : tab i ≠ free) : xs.foldl (put free) tab i = tab i := by
  induction xs generalizing tab with
  | nil => rfl
  | cons y xs ih =>
    have hput : put free tab y i = tab i := by
      rw [put_apply, if_neg]
      exact fun hi => h (slotFor_eq_some hi).2.1
    rw [List.foldl_cons, ih (by rwa [hput]), hput]

/-- **Which elements get a slot**: a slot that changes was free and now holds one of them. -/
theorem foldl_put_ne_iff :
    xs.foldl (put free) tab i ≠ tab i ↔
      tab i = free ∧ xs.foldl (put free) tab i ∈ gained free tab xs := by
  induction xs generalizing tab with
  | nil => simp [gained]
  | cons y xs ih =>
    rw [List.foldl_cons, gained]
    split
    · rename_i hy
      obtain ⟨j, hj⟩ := Option.isSome_iff_exists.mp hy
      obtain ⟨hnew, hfree, hyfree⟩ := slotFor_eq_some hj
      by_cases hij : j = i
      · subst hij
        have hput : put free tab y j = y := by rw [put_apply, if_pos hj]
        have hstay : xs.foldl (put free) (put free tab y) j = y := by
          rw [foldl_put_of_ne (by rw [hput]; exact hyfree), hput]
        rw [hstay, hfree]
        exact iff_of_true hyfree ⟨rfl, List.mem_cons_self⟩
      · have hput : put free tab y i = tab i := by
          rw [put_apply, if_neg]
          rw [hj, Option.some.injEq]
          exact hij
        rw [← hput, ih, List.mem_cons]
        refine and_congr_right fun hi => ⟨Or.inr, ?_⟩
        rintro (heq | hmem)
        · -- `y` stands in its own slot already
          have hju : put free tab y j = y := by rw [put_apply, if_pos hj]
          have hne : xs.foldl (put free) (put free tab y) i ≠ put free tab y i := by
            rw [heq, hi]
            exact hyfree
          exact (ih.mp hne).2
        · exact hmem
    · rename_i hy
      rw [put_of_none (Option.not_isSome_iff_eq_none.mp hy), ih]

/-- Every element that finds a slot is in a slot that was free. -/
theorem exists_of_mem_gained (h : x ∈ gained free tab xs) :
    ∃ i, tab i = free ∧ xs.foldl (put free) tab i = x := by
  induction xs generalizing tab with
  | nil => cases h
  | cons y xs ih =>
    rw [gained] at h
    rw [List.foldl_cons]
    split at h
    · rename_i hy
      obtain ⟨j, hj⟩ := Option.isSome_iff_exists.mp hy
      obtain ⟨-, hfree, hyfree⟩ := slotFor_eq_some hj
      have hput : put free tab y j = y := by rw [put_apply, if_pos hj]
      rcases List.mem_cons.mp h with rfl | h
      · exact ⟨j, hfree, by rw [foldl_put_of_ne (by rwa [hput]), hput]⟩
      · obtain ⟨i, hi, hx⟩ := ih h
        refine ⟨i, ?_, hx⟩
        rw [put_apply] at hi
        split at hi
        · exact absurd hi hyfree
        · exact hi
    · rename_i hy
      rw [put_of_none (Option.not_isSome_iff_eq_none.mp hy)]
      exact ih h

/-- No two slots come to hold the same element. -/
theorem eq_of_foldl_put_ne {j : Fin n} (hi : xs.foldl (put free) tab i ≠ tab i)
    (hj : xs.foldl (put free) tab j ≠ tab j)
    (hij : xs.foldl (put free) tab i = xs.foldl (put free) tab j) : i = j := by
  induction xs generalizing tab with
  | nil => exact absurd rfl hi
  | cons y xs ih =>
    rw [List.foldl_cons] at hi hj hij
    by_cases hy : (slotFor free tab y).isSome
    · obtain ⟨k, hk⟩ := Option.isSome_iff_exists.mp hy
      obtain ⟨-, hfree, hyfree⟩ := slotFor_eq_some hk
      have hput : put free tab y k = y := by rw [put_apply, if_pos hk]
      have hstay : xs.foldl (put free) (put free tab y) k = y := by
        rw [foldl_put_of_ne (by rwa [hput]), hput]
      -- once `y` is in a slot no other slot comes to hold it
      have hother (m : Fin n) (hm : xs.foldl (put free) (put free tab y) m ≠ tab m)
          (hmk : m ≠ k) : put free tab y m = tab m ∧
            xs.foldl (put free) (put free tab y) m ≠ y := by
        have hsame : put free tab y m = tab m := by
          rw [put_apply, if_neg]
          rw [hk, Option.some.injEq]
          exact Ne.symm hmk
        refine ⟨hsame, fun hmy => ?_⟩
        rw [← hsame] at hm
        have hgained := (foldl_put_ne_iff.mp hm).2
        rw [hmy] at hgained
        exact notMem_gained ⟨k, hput⟩ hyfree hgained
      by_cases hik : i = k
      · subst hik
        by_contra hne
        exact (hother j hj (Ne.symm hne)).2 (hij.symm.trans hstay)
      · obtain ⟨hsame, hne⟩ := hother i hi hik
        by_cases hjk : j = k
        · subst hjk
          exact absurd (hij.trans hstay) hne
        · obtain ⟨hsame', -⟩ := hother j hj hjk
          exact ih (by rwa [hsame]) (by rwa [hsame']) hij
    · rw [put_of_none (Option.not_isSome_iff_eq_none.mp hy)] at hi hj hij
      exact ih hi hj hij

/-- How many slots of `tab'` hold an element that they do not hold in `tab`. -/
def gains (tab tab' : Fin n → α) (x : α) : ℕ :=
  (List.finRange n).countP fun i => decide (tab' i = x ∧ tab i ≠ x)

theorem gains_eq_zero {tab' : Fin n → α} (h : ∀ i, tab' i = x → tab i = x) :
    gains tab tab' x = 0 := by
  rw [gains, List.countP_eq_zero]
  intro i _
  simpa using h i

/-- **Every element that finds a slot** is gained by one slot, and no other is gained. -/
theorem gains_foldl_put (hx : x ≠ free) :
    gains tab (xs.foldl (put free) tab) x = (gained free tab xs).count x := by
  by_cases hmem : x ∈ gained free tab xs
  · obtain ⟨i, hi, hix⟩ := exists_of_mem_gained hmem
    have honly : ∀ j, decide (xs.foldl (put free) tab j = x ∧ tab j ≠ x) = decide (j = i) := by
      intro j
      refine decide_eq_decide.mpr ⟨?_, ?_⟩
      · rintro ⟨hj, hne⟩
        refine eq_of_foldl_put_ne ?_ ?_ (hj.trans hix.symm)
        · rw [hj]
          exact Ne.symm hne
        · rw [hix, hi]
          exact hx
      · rintro rfl
        exact ⟨hix, by rw [hi]; exact Ne.symm hx⟩
    rw [gains, funext honly, List.count_eq_one_of_mem nodup_gained hmem]
    exact List.count_eq_one_of_mem (List.nodup_finRange n) (List.mem_finRange i)
  · rw [List.count_eq_zero_of_not_mem hmem]
    refine gains_eq_zero fun i hi => ?_
    by_contra hne
    have hchange : xs.foldl (put free) tab i ≠ tab i := by
      rw [hi]
      exact Ne.symm hne
    exact hmem (hi ▸ (foldl_put_ne_iff.mp hchange).2)

/-- Removing an element gains none. -/
theorem gains_clear (hx : x ≠ free) : gains tab (clear free tab y) x = 0 := by
  refine gains_eq_zero fun i hi => ?_
  rw [clear] at hi
  split at hi
  · exact absurd hi.symm hx
  · exact hi

/-- **Removing an element** takes it, and only it, out of all slots that hold it. -/
theorem gains_of_clear (hx : x ≠ free) : gains (clear free tab y) tab x =
    if x = y then (List.finRange n).countP fun i => decide (tab i = y) else 0 := by
  split
  · rename_i hxy
    subst hxy
    rw [gains]
    congr 1
    funext i
    refine decide_eq_decide.mpr ⟨And.left, fun hi => ⟨hi, ?_⟩⟩
    rw [clear, if_pos hi]
    exact Ne.symm hx
  · rename_i hxy
    refine gains_eq_zero fun i hi => ?_
    rw [clear, if_neg (by rw [hi]; exact hxy), hi]

/-! ## The table as a set -/

/-- The table keeps the set `m`. -/
structure Keeps (free : α) (tab : Fin n → α) (m : Finset α) : Prop where
  holds : ∀ x, Holds free tab x ↔ x ∈ m
  unique : Unique free tab

/-- What becomes of a set that takes no more than `n` elements, and never `free`. -/
def enter (free : α) (n : ℕ) (m : Finset α) (x : α) : Finset α :=
  if x ≠ free ∧ m.card < n then insert x m else m

section Keeps

variable {m : Finset α}

omit [DecidableEq α] in
theorem keeps_empty : Keeps free (fun _ : Fin n => free) ∅ :=
  ⟨fun _ => iff_of_false not_holds_const (Finset.notMem_empty _), unique_const⟩

/-- As many slots are used as the set has elements. -/
theorem Keeps.card_eq (h : Keeps free tab m) :
    m.card = (Finset.univ.filter fun i => tab i ≠ free).card := by
  have himage : (Finset.univ.filter fun i => tab i ≠ free).image tab = m := by
    ext x
    rw [← h.holds]
    simp only [Finset.mem_image, Finset.mem_filter, Finset.mem_univ, true_and]
    constructor
    · rintro ⟨i, hi, rfl⟩
      exact ⟨hi, i, rfl⟩
    · rintro ⟨hx, i, rfl⟩
      exact ⟨i, hx, rfl⟩
  rw [← himage]
  refine Finset.card_image_of_injOn fun i hi j _ hij => h.unique i j hij ?_
  exact (Finset.mem_filter.mp hi).2

/-- **When an element finds a slot**: it is none of the set, and the set is not full. -/
theorem Keeps.isSome_slotFor_iff (h : Keeps free tab m) :
    (slotFor free tab x).isSome ↔ x ≠ free ∧ x ∉ m ∧ m.card < n := by
  constructor
  · intro hsome
    obtain ⟨i, hi⟩ := Option.isSome_iff_exists.mp hsome
    obtain ⟨hnew, hfree, hx⟩ := slotFor_eq_some hi
    refine ⟨hx, fun hmem => ?_, ?_⟩
    · obtain ⟨-, j, hj⟩ := (h.holds x).mpr hmem
      exact hnew j hj
    · rw [h.card_eq]
      have hlt : (Finset.univ.filter fun i => tab i ≠ free) ⊂ Finset.univ := by
        rw [Finset.filter_ssubset]
        exact ⟨i, Finset.mem_univ i, fun hne => hne hfree⟩
      have hcard := Finset.card_lt_card hlt
      rwa [Finset.card_univ, Fintype.card_fin] at hcard
  · rintro ⟨hx, hmem, hlt⟩
    have hnew : ¬ ∃ i, tab i = x := fun hi => hmem ((h.holds x).mp ⟨hx, hi⟩)
    have hslot : ∃ i, tab i = free := by
      by_contra hnone
      rw [not_exists] at hnone
      have hall : (Finset.univ.filter fun i => tab i ≠ free) = Finset.univ :=
        Finset.filter_true_of_mem fun i _ => hnone i
      rw [h.card_eq, hall, Finset.card_univ, Fintype.card_fin] at hlt
      exact lt_irrefl n hlt
    rw [slotFor_of_not_exists hnew]
    simpa using hslot

/-- An element that finds no slot does not enter the set. -/
theorem Keeps.enter_of_none (h : Keeps free tab m) (hnone : slotFor free tab x = none) :
    enter free n m x = m := by
  rw [enter]
  split
  · rename_i hx
    rw [Finset.insert_eq_self]
    by_contra hmem
    have hsome := h.isSome_slotFor_iff.mpr ⟨hx.1, hmem, hx.2⟩
    rw [hnone] at hsome
    cases hsome
  · rfl

/-- Putting an element is letting it enter. -/
theorem Keeps.put (h : Keeps free tab m) (x : α) :
    Keeps free (put free tab x) (enter free n m x) := by
  refine ⟨fun y => ?_, unique_put h.unique⟩
  by_cases hsome : (slotFor free tab x).isSome
  · obtain ⟨hx, -, hlt⟩ := h.isSome_slotFor_iff.mp hsome
    rw [holds_put hsome, h.holds, enter, if_pos ⟨hx, hlt⟩, Finset.mem_insert]
  · have hnone := Option.not_isSome_iff_eq_none.mp hsome
    rw [put_of_none hnone, h.enter_of_none hnone, h.holds]

/-- **Putting several elements** is letting them enter one after another. -/
theorem Keeps.foldl_put (h : Keeps free tab m) (xs : List α) :
    Keeps free (xs.foldl (SlotTable.put free) tab) (xs.foldl (enter free n) m) := by
  induction xs generalizing tab m with
  | nil => exact h
  | cons x xs ih => exact ih (h.put x)

/-- **Removing an element.** -/
theorem Keeps.clear (h : Keeps free tab m) (x : α) : Keeps free (clear free tab x) (m.erase x) := by
  refine ⟨fun y => ?_, unique_clear h.unique⟩
  rw [holds_clear, h.holds, Finset.mem_erase]

/-- What is in the table after several elements were put. -/
theorem holds_foldl_put (xs : List α) :
    Holds free (xs.foldl (SlotTable.put free) tab) y ↔
      y ∈ gained free tab xs ∨ Holds free tab y := by
  induction xs generalizing tab with
  | nil => simp [gained]
  | cons x xs ih =>
    rw [List.foldl_cons, ih, gained]
    split
    · rename_i hsome
      rw [holds_put hsome, List.mem_cons]
      tauto
    · rename_i hnone
      rw [put_of_none (Option.not_isSome_iff_eq_none.mp hnone)]

/-- What is gained is in the set afterwards. -/
theorem Keeps.mem_foldl_enter (h : Keeps free tab m) (xs : List α) :
    y ∈ xs.foldl (enter free n) m ↔ y ∈ gained free tab xs ∨ y ∈ m := by
  rw [← (h.foldl_put xs).holds, holds_foldl_put, h.holds]

end Keeps

end SlotTable

end Tqos
