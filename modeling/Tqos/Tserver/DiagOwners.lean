import Mathlib.Data.List.ReduceOption
import Tqos.Lib.Ledger
import Tqos.Tserver.Diag

/-!
# The objects of a comparison

`calc_trac_dealt` once more, with the objects of json-c instead of the values: which containers the
objects are put into, and who drops what in the end. The older and the newer sample are parsed into
an array each. For a host that is in both, a new object goes into the array of the result; for one
that is only in the newer sample, the object of the newer array goes there, which is still in the
newer array too.

## Main results

* `dealtTurn_spec` — what a turn of the loop does to the ledger
* `keepsOwners_iff` — when no object is used or dropped that is gone
-/

namespace Tqos

open Owners

/-! ## Values as objects -/

mutual

/-- The objects that a value is made of; `null` is `NULL`. -/
def Json.tree : Json → Option Tree
  | .null => none
  | .array l => some (.node (treesOf l))
  | .object l => some (.node (treesOfFields l))
  | _ => some (.node [])

/-- Those of the elements of an array. -/
def treesOf : List Json → List Tree
  | [] => []
  | j :: l => j.tree.toList ++ treesOf l

/-- Those of the fields of an object. -/
def treesOfFields : List (List Char × Json) → List Tree
  | [] => []
  | f :: l => f.2.tree.toList ++ treesOfFields l

end

/-- How the comparison can end other than by returning. -/
inductive DealtFault
  | crash (c : Crash)
  /-- An object that is gone is used or dropped. -/
  | gone

/-- A value that is new in memory: where it is, if it is not `NULL`. -/
def build (j : Option Json) (s : Store) : Option ℕ × Store :=
  match j.bind Json.tree with
  | some t => (some s.length, alloc t s)
  | none => (none, s)

/-- The elements of an array, as `json_object_array_get_idx` finds them. -/
def slots : List Json → List ℕ → List (Json × Option ℕ)
  | [], _ => []
  | j :: l, xs =>
    match j.tree with
    | some _ => (j, xs.head?) :: slots l xs.tail
    | none => (j, none) :: slots l xs

/-- The elements of what has been parsed, if that is an array. -/
def elements (j : Option Json) (r : Option ℕ) (s : Store) : List (Json × Option ℕ) :=
  slots (arrayElems j) (r.elim [] (kids s))

/-- Objects are looked at. -/
def use (s : Store) (xs : List (Option ℕ)) : Except DealtFault Unit :=
  if ∀ x ∈ xs.reduceOption, 0 < count s x then .ok () else .error .gone

/-- `json_object_array_add`. -/
def jsonObjectArrayAdd (s : Store) (c : ℕ) (x : Option ℕ) : Except DealtFault Store := do
  use s [some c]
  pure (x.elim s (add s c))

/-- `json_object_put`. -/
def jsonObjectPut (s : Store) : Option ℕ → Except DealtFault Store
  | none => .ok s
  | some x => (put s x).elim (.error .gone) .ok

/-- A value is made and put into a container. `json_object_object_add` does the same as
`json_object_array_add` for a key that is new. -/
def addValue (c : ℕ) (s : Store) (v : Json) : Except DealtFault Store :=
  let r := build (some v) s
  jsonObjectArrayAdd r.2 c r.1

/-- A turn of the loop over the newer sample. Of the two arrays and the older sample all objects
count as looked at. -/
def dealtTurn (arrays : List (Option ℕ)) (s1 : List (Json × Option ℕ)) (dealt : ℕ) (s : Store)
    (obj2 : Json × Option ℕ) : Except DealtFault Store := do
  use s (arrays ++ (obj2 :: s1).map Prod.snd)
  match findHost obj2.1.ptr (s1.map Prod.fst) with
  | .error c => .error (.crash c)
  | .ok (some host) =>
    let r := build (some host) s
    jsonObjectArrayAdd r.2 dealt r.1
  | .ok none => jsonObjectArrayAdd s dealt obj2.2

/-- `calc_trac_dealt`, from what the texts of the samples are parsed into. Printing the result goes
through all of it; here all objects there are count as looked at. -/
def calcTracDealtObjects (j1 j2 : Option Json) : Except DealtFault Store := do
  let s := new []
  let dealt := 0
  let s2 := build j2 s
  let s1 := build j1 s2.2
  let s ← (elements j2 s2.1 s1.2).foldlM
    (dealtTurn [s2.1, s1.1] (elements j1 s1.1 s1.2) dealt) s1.2
  use s ((List.range s.length).map some)
  let s ← jsonObjectPut s s2.1
  let s ← jsonObjectPut s s1.1
  jsonObjectPut s (some dealt)

/-! ## The steps -/

section Steps

variable {s : Store} {j : Json} {l : List Json} {xs : List ℕ}

theorem tree_eq_none_iff (j : Json) : j.tree = none ↔ j = .null := by
  cases j <;> simp [Json.tree]

/-- The slots are the elements. -/
theorem map_fst_slots (l : List Json) (xs : List ℕ) : (slots l xs).map Prod.fst = l := by
  induction l generalizing xs with
  | nil => rfl
  | cons j l ih =>
    rw [slots]
    split
    · rw [List.map_cons, ih]
    · rw [List.map_cons, ih]

/-- Where there are as many objects as there should be, only `null` has none. -/
theorem slots_spec (h : xs.length = (treesOf l).length) {o : Json × Option ℕ}
    (ho : o ∈ slots l xs) : (o.2 = none ↔ o.1 = .null) ∧ ∀ x, o.2 = some x → x ∈ xs := by
  induction l generalizing xs with
  | nil => exact absurd ho List.not_mem_nil
  | cons j l ih =>
    rw [treesOf, List.length_append] at h
    rw [slots] at ho
    cases htree : j.tree with
    | none =>
      rw [htree] at h ho
      rcases List.mem_cons.mp ho with rfl | ho
      · exact ⟨iff_of_true rfl ((tree_eq_none_iff j).mp htree), nofun⟩
      · exact ih (h.trans (Nat.zero_add _)) ho
    | some t =>
      rw [htree] at h ho
      cases xs with
      | nil =>
        rw [Option.toList_some, List.length_singleton, List.length_nil] at h
        omega
      | cons x xs =>
        rw [List.length_cons, Option.toList_some, List.length_singleton] at h
        rcases List.mem_cons.mp ho with rfl | ho
        · refine ⟨iff_of_false nofun fun hnull => ?_, fun y hy => ?_⟩
          · rw [(tree_eq_none_iff j).mpr hnull] at htree
            cases htree
          · obtain rfl := Option.some.inj hy
            exact List.mem_cons_self
        · obtain ⟨hnull, hmem⟩ := @ih xs (by omega) ho
          exact ⟨hnull, fun y hy => List.mem_cons_of_mem x (hmem y hy)⟩

/-- Objects that are there can be looked at. -/
theorem use_of_live {xs : List (Option ℕ)} (hxs : ∀ x, some x ∈ xs → 0 < count s x) :
    use s xs = .ok () :=
  if_pos fun x hx => hxs x (List.reduceOption_mem_iff.mp hx)

theorem live_of_use {xs : List (Option ℕ)} {u : Unit} (h : use s xs = .ok u) (x : ℕ)
    (hx : some x ∈ xs) : 0 < count s x := by
  rw [use] at h
  split at h
  · rename_i hall
    exact hall x (List.reduceOption_mem_iff.mpr hx)
  · cases h

/-- What a value that is new in memory leaves as it was, and where it is. -/
theorem build_spec (h : WellFormed s) (j : Option Json) :
    Grown s.length s (build j s).2 ∧
      ∀ x, (build j s).1 = some x → s.length ≤ x ∧ x < (build j s).2.length := by
  rw [build]
  cases j.bind Json.tree with
  | none => exact ⟨grown_refl h _, nofun⟩
  | some t =>
    obtain ⟨hgrown, hlt, -⟩ := alloc_spec t s h
    refine ⟨hgrown, fun x hx => ?_⟩
    obtain rfl := Option.some.inj hx
    exact ⟨le_rfl, hlt⟩

/-- **A value that is new in memory** is to spare. -/
theorem effect_build (h : WellFormed s) (j : Option Json) :
    Effect s.length s (build j s).2 (own (build j s).1.toList) := by
  rw [build]
  cases j.bind Json.tree with
  | none => exact Effect.refl h _
  | some t => exact effect_alloc h t

/-- **The elements of what has been parsed** have their objects, but for `null`. -/
theorem elements_spec (h : WellFormed s) (j : Option Json) {s' : Store} (hs' : WellFormed s')
    (hkeep : ∀ x, (build j s).1 = some x → kids s' x = kids (build j s).2 x) {o : Json × Option ℕ}
    (ho : o ∈ elements j (build j s).1 s') :
    (o.2 = none ↔ o.1 = .null) ∧ ∀ x, o.2 = some x → s.length < x ∧ x < s'.length := by
  rcases j with _ | j
  · exact absurd ho List.not_mem_nil
  · cases j with
    | array l =>
      obtain ⟨-, ⟨ks, hks, hkids⟩, -⟩ := allocParts_spec (treesOf l) s.length (new s)
        (wellFormed_new h) (by rw [count_new_self]; exact Nat.one_pos)
      have hnone : kids (new s) s.length = [] := by
        rw [kids, new, List.getElem?_concat_length]
        rfl
      have hsame : kids s' s.length = ks := by
        rw [hkeep s.length rfl]
        exact hkids.trans (by rw [hnone, List.nil_append])
      have hslots : o ∈ slots l (kids s' s.length) := ho
      obtain ⟨hnull, hmem⟩ := slots_spec (by rw [hsame, hks]) hslots
      exact ⟨hnull, fun x hx => hs'.lt_of_mem_kids (hmem x hx)⟩
    | _ => exact absurd ho List.not_mem_nil

/-- **What is put into an array** is handed over. -/
theorem jsonObjectArrayAdd_spec (h : WellFormed s) {c b : ℕ} (hc : 0 < count s c) (hb : b ≤ c)
    {x : Option ℕ} (hx : ∀ y, x = some y → c < y ∧ y < s.length) :
    ∃ s', jsonObjectArrayAdd s c x = .ok s' ∧ Grown c s s' ∧ s'.length = s.length ∧
      Effect b s s' (-own x.toList) := by
  have huse : use s [some c] = .ok () := use_of_live fun y hy => by
    obtain rfl := Option.some.inj (List.mem_singleton.mp hy)
    exact hc
  rw [jsonObjectArrayAdd, huse]
  cases x with
  | none => exact ⟨s, rfl, grown_refl h c, rfl, (Effect.refl h b).congr neg_zero.symm⟩
  | some x =>
    obtain ⟨hcx, hlt⟩ := hx x rfl
    exact ⟨add s c x, rfl, grown_add h hcx hlt, length_add s c x, effect_add h hc hb hcx hlt⟩

/-- **A value that is made for a container** goes into it at once. -/
theorem addValue_spec (h : WellFormed s) {c b : ℕ} (hc : 0 < count s c) (hb : b ≤ c) (v : Json) :
    ∃ s', addValue c s v = .ok s' ∧ Grown c s s' ∧ Effect b s s' 0 := by
  have hin := lt_length_of_count_pos hc
  obtain ⟨hbuilt, hnew⟩ := build_spec h (some v)
  obtain ⟨s', hadd, hgrown, -, heffect⟩ := jsonObjectArrayAdd_spec hbuilt.wellFormed
    (by rwa [hbuilt.count_eq c hin]) hb fun y hy => ⟨hin.trans_le (hnew y hy).1, (hnew y hy).2⟩
  refine ⟨s', hadd, (hbuilt.widen c).trans hgrown, ?_⟩
  exact (((effect_build h (some v)).mono (hb.trans hin.le)).trans heffect).congr (add_neg_cancel _)

end Steps

/-! ## The loop -/

/-- No host of the older sample has the address. -/
def isNew (s1 : List Json) (o : Json) : Bool :=
  match findHost o.ptr s1 with
  | .ok none => true
  | _ => false

/-- The objects that a turn puts into the result though they are in the newer sample. -/
def handed (s1 : List Json) (obj2 : Json × Option ℕ) : List ℕ :=
  if isNew s1 obj2.1 then obj2.2.toList else []

section Loop

variable {s : Store} {dealt : ℕ} {arrays : List (Option ℕ)} {s1 l : List (Json × Option ℕ)}
  {obj2 : Json × Option ℕ}

/-- The objects are there, and younger than the array of the result. -/
def Behind (dealt : ℕ) (s : Store) (l : List (Json × Option ℕ)) : Prop :=
  ∀ o ∈ l, ∀ x, o.2 = some x → dealt < x ∧ x < s.length

theorem Behind.mono {s' : Store} (h : Behind dealt s l) (hle : s.length ≤ s'.length) :
    Behind dealt s' l := fun o ho x hx => ⟨(h o ho x hx).1, (h o ho x hx).2.trans_le hle⟩

/-- **A turn**: it crashes if comparing does, and otherwise hands over the object of a host that is
new. -/
theorem dealtTurn_spec {b : ℕ} (h : WellFormed s) (hb : b ≤ dealt) (hdealt : 0 < count s dealt)
    (hlive : ∀ x, some x ∈ arrays ++ (obj2 :: s1).map Prod.snd → 0 < count s x)
    (hobj2 : ∀ x, obj2.2 = some x → dealt < x) :
    (∃ c, findHost obj2.1.ptr (s1.map Prod.fst) = .error c ∧
      dealtTurn arrays s1 dealt s obj2 = .error (.crash c)) ∨
    (∃ r, findHost obj2.1.ptr (s1.map Prod.fst) = .ok r) ∧
      ∃ s', dealtTurn arrays s1 dealt s obj2 = .ok s' ∧ Grown dealt s s' ∧
        Effect b s s' (-own (handed (s1.map Prod.fst) obj2)) := by
  rw [dealtTurn, use_of_live hlive, handed, isNew]
  cases findHost obj2.1.ptr (s1.map Prod.fst) with
  | error c => exact Or.inl ⟨c, rfl, rfl⟩
  | ok r =>
    refine Or.inr ⟨⟨r, rfl⟩, ?_⟩
    cases r with
    | none =>
      obtain ⟨s', hadd, hgrown, -, heffect⟩ := jsonObjectArrayAdd_spec h hdealt hb fun x hx => by
        refine ⟨hobj2 x hx, lt_length_of_count_pos (hlive x ?_)⟩
        rw [List.map_cons, hx]
        exact List.mem_append_right _ List.mem_cons_self
      exact ⟨s', hadd, hgrown, heffect⟩
    | some host =>
      obtain ⟨s', hadd, hgrown, heffect⟩ := addValue_spec h hdealt hb host
      exact ⟨s', hadd, hgrown, heffect.congr neg_zero.symm⟩

/-- **The loop**, turn by turn. -/
theorem dealtLoop_spec (h : Sound s) (hdealt : dealt < s.length)
    (harrays : ∀ x, some x ∈ arrays → x < s.length) (hs1 : Behind dealt s s1)
    (hl : Behind dealt s l) :
    (∃ c, l.foldlM (dealtTurn arrays s1 dealt) s = .error (.crash c)) ∧
        (∃ o ∈ l, ∃ c, findHost o.1.ptr (s1.map Prod.fst) = .error c) ∨
    (∀ o ∈ l, ∃ r, findHost o.1.ptr (s1.map Prod.fst) = .ok r) ∧
      ∃ s', l.foldlM (dealtTurn arrays s1 dealt) s = .ok s' ∧ Sound s' ∧
        Effect dealt s s' (-own (l.flatMap (handed (s1.map Prod.fst)))) := by
  induction l generalizing s with
  | nil =>
    exact Or.inr ⟨fun _ ho => absurd ho List.not_mem_nil, s, rfl, h,
      (Effect.refl h.wellFormed dealt).congr neg_zero.symm⟩
  | cons o l ih =>
    rw [List.foldlM_cons]
    have hlive : ∀ x, some x ∈ arrays ++ (o :: s1).map Prod.snd → 0 < count s x := by
      intro x hx
      refine h.live x ?_
      rcases List.mem_append.mp hx with hx | hx
      · exact harrays x hx
      · obtain ⟨o', ho', hox⟩ := List.mem_map.mp hx
        rcases List.mem_cons.mp ho' with rfl | ho'
        · exact (hl _ List.mem_cons_self x hox).2
        · exact (hs1 o' ho' x hox).2
    rcases dealtTurn_spec h.wellFormed le_rfl (h.live dealt hdealt) hlive
        fun x hx => (hl o List.mem_cons_self x hx).1 with
      ⟨c, hcrash, hrun⟩ | ⟨hok, t, hrun, hgrown, heffect⟩
    · rw [hrun]
      exact Or.inl ⟨⟨c, rfl⟩, o, List.mem_cons_self, c, hcrash⟩
    · rw [hrun]
      have hle := hgrown.length_le
      have hrest : Behind dealt s l := fun o' ho' => hl o' (List.mem_cons_of_mem o ho')
      have harrays' : ∀ x, some x ∈ arrays → x < t.length := fun x hx =>
        (harrays x hx).trans_le hle
      rcases ih (hgrown.sound h) (hdealt.trans_le hle) harrays' (hs1.mono hle)
          (hrest.mono hle) with
        ⟨hcrash, o', ho', hc⟩ | ⟨hall, s', hloop, hsound, heffect'⟩
      · exact Or.inl ⟨hcrash, o', List.mem_cons_of_mem o ho', hc⟩
      · refine Or.inr ⟨fun o' ho' => ?_, s', hloop, hsound, ?_⟩
        · rcases List.mem_cons.mp ho' with rfl | ho'
          · exact hok
          · exact hall o' ho'
        · refine (heffect.trans heffect').congr ?_
          rw [List.flatMap_cons, own_append, neg_add]

/-- The loop, when it is known to end well. -/
theorem effect_dealtLoop {b : ℕ} (h : WellFormed s) (hb : b ≤ dealt) (hdealt : 0 < count s dealt)
    (hl : ∀ o ∈ l, ∀ x, o.2 = some x → dealt < x) {s' : Store}
    (hok : l.foldlM (dealtTurn arrays s1 dealt) s = .ok s') :
    Effect b s s' (-own (l.flatMap (handed (s1.map Prod.fst)))) := by
  induction l generalizing s with
  | nil =>
    obtain rfl := Except.ok.inj hok
    exact (Effect.refl h b).congr neg_zero.symm
  | cons o l ih =>
    rw [List.foldlM_cons] at hok
    obtain ⟨t, hturn, hrest⟩ := bind_eq_ok.mp hok
    obtain ⟨_, huse, -⟩ := bind_eq_ok.mp hturn
    rcases dealtTurn_spec h hb hdealt (live_of_use huse) (hl o List.mem_cons_self) with
      ⟨c, -, hrun⟩ | ⟨-, t', hrun, hgrown, heffect⟩
    · cases hturn.symm.trans hrun
    · obtain rfl := Except.ok.inj (hturn.symm.trans hrun)
      refine (heffect.trans (ih hgrown.wellFormed ?_ (fun o' ho' =>
        hl o' (List.mem_cons_of_mem o ho')) hrest)).congr ?_
      · rwa [hgrown.count_eq dealt (lt_length_of_count_pos hdealt)]
      · rw [List.flatMap_cons, own_append, neg_add]

end Loop

/-! ## Whose object it is -/

/-- What is asked of the comparison: it uses and drops no object that is gone. -/
def KeepsOwners (j1 j2 : Option Json) : Prop := calcTracDealtObjects j1 j2 ≠ .error .gone

section Whole

variable {s : Store}

/-- The elements are younger than the array of the result. -/
theorem behind_elements (h : WellFormed s) (j : Option Json) {s' : Store} (hs' : WellFormed s')
    (hkeep : ∀ x, (build j s).1 = some x → kids s' x = kids (build j s).2 x) :
    Behind 0 s' (elements j (build j s).1 s') := by
  intro o ho x hx
  obtain ⟨hlt, hlt'⟩ := (elements_spec h j hs' hkeep ho).2 x hx
  exact ⟨Nat.zero_lt_of_lt hlt, hlt'⟩

/-- The three drops in the end are drops in turn. -/
theorem puts_eq (s : Store) (a b c : Option ℕ) :
    (do
      let s ← jsonObjectPut s a
      let s ← jsonObjectPut s b
      jsonObjectPut s c) =
      (putAll (a.toList ++ b.toList ++ c.toList) s).elim (.error .gone) .ok := by
  have hput (s : Store) (x : Option ℕ) :
      jsonObjectPut s x = (putAll x.toList s).elim (.error .gone) .ok := by
    cases x with
    | none => rfl
    | some x =>
      rw [jsonObjectPut, Option.toList_some, putAll_cons]
      cases put s x <;> rfl
  rw [putAll_append, putAll_append, hput]
  cases putAll a.toList s with
  | none => rfl
  | some s =>
    show (do
      let s ← jsonObjectPut s b
      jsonObjectPut s c) = _
    rw [hput, Option.bind_some]
    cases putAll b.toList s with
    | none => rfl
    | some s => exact hput s c

/-- **The end of the comparison**, where what has been handed over is missing: all can drop what
they have exactly if nothing has been. -/
theorem drops_iff (h : Sound s) {a b c : Option ℕ} {gone : List ℕ}
    (hledger : ∀ y, spare s y =
      ((a.toList ++ b.toList ++ c.toList).count y : ℕ) - (gone.count y : ℕ)) :
    (do
      use s ((List.range s.length).map some)
      let s ← jsonObjectPut s a
      let s ← jsonObjectPut s b
      jsonObjectPut s c) ≠ .error .gone ↔ gone = [] := by
  have huse : use s ((List.range s.length).map some) = .ok () := by
    refine use_of_live fun x hx => ?_
    obtain ⟨y, hy, heq⟩ := List.mem_map.mp hx
    obtain rfl := Option.some.inj heq
    exact h.live y (List.mem_range.mp hy)
  have hputs := isSome_putAll_iff h.ordered fun y => by
    rw [hledger]
    exact Int.sub_le_self _ (Int.natCast_nonneg _)
  have hnil : (∀ y, spare s y = ((a.toList ++ b.toList ++ c.toList).count y : ℕ)) ↔
      gone = [] := by
    rw [List.eq_nil_iff_forall_not_mem]
    refine forall_congr' fun y => ?_
    rw [hledger, ← List.count_eq_zero]
    omega
  rw [← hnil, ← hputs, huse]
  show (do
    let s ← jsonObjectPut s a
    let s ← jsonObjectPut s b
    jsonObjectPut s c) ≠ _ ↔ _
  rw [puts_eq]
  cases putAll (a.toList ++ b.toList ++ c.toList) s with
  | none => exact iff_of_false (not_not.mpr rfl) Bool.false_ne_true
  | some t => exact iff_of_true nofun rfl

/-- What is handed over although it is in the newer sample. -/
theorem handed_eq_nil_iff {s1 : List Json} {l : List (Json × Option ℕ)}
    (hl : ∀ o ∈ l, o.2 = none ↔ o.1 = .null) :
    l.flatMap (handed s1) = [] ↔ ∀ o ∈ l.map Prod.fst, isNew s1 o = true → o = .null := by
  rw [List.flatMap_eq_nil_iff, List.forall_mem_map]
  refine forall₂_congr fun o ho => ?_
  rw [handed, ← hl o ho]
  cases isNew s1 o.1 with
  | false => simp
  | true => simp

/-- **When no object is used or dropped that is gone**: exactly if comparing the addresses crashes,
or every host of the newer sample is in the older one. -/
theorem keepsOwners_iff (j1 j2 : Option Json) : KeepsOwners j1 j2 ↔
    (∃ o ∈ arrayElems j2, ∃ c, findHost o.ptr (arrayElems j1) = .error c) ∨
      ∀ o ∈ arrayElems j2, isNew (arrayElems j1) o = true → o = .null := by
  have hstart := sound_new sound_nil
  obtain ⟨hbuilt2, hroot2⟩ := build_spec hstart.wellFormed j2
  have hspare2 := (effect_build hstart.wellFormed j2).spare_eq
  have hsound2 := hbuilt2.sound hstart
  obtain ⟨hbuilt1, hroot1⟩ := build_spec hsound2.wellFormed j1
  have hspare1 := (effect_build hsound2.wellFormed j1).spare_eq
  have hsound1 := hbuilt1.sound hsound2
  rw [KeepsOwners, calcTracDealtObjects]
  set s2 := build j2 (new [])
  set s1 := build j1 s2.2
  have hone : (new []).length = 1 := rfl
  have hle2 := hbuilt2.length_le
  have hle1 := hbuilt1.length_le
  have hdealt : 0 < s1.2.length := by omega
  have harrays : ∀ x, some x ∈ [s2.1, s1.1] → x < s1.2.length := by
    intro x hx
    simp only [List.mem_cons, List.not_mem_nil, or_false] at hx
    rcases hx with hx | hx
    · exact (hroot2 x hx.symm).2.trans_le hle1
    · exact (hroot1 x hx.symm).2
  have hkeep2 : ∀ x, s2.1 = some x → kids s1.2 x = kids s2.2 x := fun x hx => by
    have hlt := (hroot2 x hx).2
    rw [kids, hbuilt1.getElem?_eq x hlt hlt.ne, kids]
  have hbehind2 : Behind 0 s1.2 (elements j2 s2.1 s1.2) :=
    behind_elements hstart.wellFormed j2 hbuilt1.wellFormed hkeep2
  have hbehind1 : Behind 0 s1.2 (elements j1 s1.1 s1.2) :=
    behind_elements hsound2.wellFormed j1 hbuilt1.wellFormed fun _ _ => rfl
  have hfst2 : (elements j2 s2.1 s1.2).map Prod.fst = arrayElems j2 := map_fst_slots _ _
  have hfst1 : (elements j1 s1.1 s1.2).map Prod.fst = arrayElems j1 := map_fst_slots _ _
  have hloop := dealtLoop_spec hsound1 hdealt harrays hbehind1 hbehind2
  rw [hfst1] at hloop
  rcases hloop with ⟨⟨c, hrun⟩, o, ho, hcrash⟩ | ⟨hall, s, hrun, hsound, heffect⟩
  · refine iff_of_true ?_ (Or.inl ⟨o.1, ?_, hcrash⟩)
    · rw [hrun]
      exact nofun
    · rw [← hfst2]
      exact List.mem_map_of_mem ho
  · have hcompares : ¬ ∃ o ∈ arrayElems j2, ∃ c, findHost o.ptr (arrayElems j1) = .error c := by
      rintro ⟨o, ho, c, hc⟩
      rw [← hfst2] at ho
      obtain ⟨o', ho', rfl⟩ := List.mem_map.mp ho
      obtain ⟨r, hr⟩ := hall o' ho'
      rw [hr] at hc
      cases hc
    -- what is to spare, but for what has been handed over, is what is dropped in the end
    have hledger (y : ℕ) : spare s y =
        ((s2.1.toList ++ s1.1.toList ++ (some 0).toList).count y : ℕ) -
          (((elements j2 s2.1 s1.2).flatMap (handed (arrayElems j1))).count y : ℕ) := by
      rw [heffect.spare_eq, hspare1, hspare2, spare_new, List.count_append, List.count_append,
        Option.toList_some, count_cons_eq, List.count_nil]
      show (0 + if y = 0 then 1 else 0 : ℤ) + own _ y + own _ y + -own _ y = _
      rw [own, own, own]
      split <;> omega
    rw [or_iff_right hcompares, ← hfst2, ← handed_eq_nil_iff fun o ho =>
      (elements_spec hstart.wellFormed j2 hbuilt1.wellFormed hkeep2 ho).1,
      ← drops_iff hsound hledger, hrun]
    exact Iff.rfl

end Whole

/-- A host of the newer sample. -/
def newHost : Json :=
  Json.obj [("ip", Json.str "192.168.1.10"), ("up", .int 3), ("down", .int 40)]

/-- An older sample without hosts, and that host: its object is dropped with the newer array and
again with the result. -/
theorem not_keepsOwners_newHost :
    ¬ KeepsOwners (some (.array [])) (some (.array [newHost])) := by
  intro h
  exact h rfl

end Tqos
